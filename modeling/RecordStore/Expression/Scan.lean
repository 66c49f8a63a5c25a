import RecordStore.Error

/-!
# From text to tokens

A text is read one character at a time.  A lexeme that may still grow stays *pending*: a word, an alias
or placeholder after its sigil, or a `<` or `>` that the next character may complete.  A character that
cannot extend the pending lexeme ends it and starts afresh, so every lexeme is as long as it can be.

* `Pending.run_append` — reading two texts one after the other is reading the second from where the
  first one stopped;
* `Pending.step_of_isBlank` — a blank ends whatever is pending.
-/

namespace RecordStore

namespace Token

/-- The token of a word: a keyword in any letter case, or an identifier. -/
def ofWord (word : String) : Token :=
  match String.ofList (word.toList.map Char.toUpper) with
  | "AND" => .and
  | "OR" => .or
  | "NOT" => .not
  | "BETWEEN" => .between
  | "SET" => .set
  | _ => .identifier word

/-- A lexeme that the next character may extend; its characters stand in reverse. -/
inductive Pending where
  | idle
  | word (letters : List Char)
  | label (sigil : Char) (letters : List Char)
  | less
  | greater
deriving DecidableEq

/-- The token of an alias or a placeholder, by its sigil. -/
def ofLabel (sigil : Char) (letters : List Char) : Token :=
  let label := String.ofList (sigil :: letters)
  if sigil = '#' then .name label else .value label

namespace Pending

/-- The tokens of a pending lexeme that has ended. -/
def finish : Pending → Except ExpressionFault (List Token)
  | .idle => .ok []
  | .word letters => .ok [ofWord (String.ofList letters.reverse)]
  | .label sigil letters =>
    if letters.isEmpty then .error (.emptyPlaceholder sigil)
    else .ok [ofLabel sigil letters.reverse]
  | .less => .ok [.comparison .lessThan]
  | .greater => .ok [.comparison .greaterThan]

/-- The tokens that a character completes as a part of the pending lexeme, and what is pending then;
absent if the character does not belong to the lexeme. -/
def extend? : Pending → Char → Option (List Token × Pending)
  | .idle, _ => none
  | .word letters, c => if Text.isWordChar c then some ([], .word (c :: letters)) else none
  | .label sigil letters, c =>
    if Text.isWordChar c then some ([], .label sigil (c :: letters)) else none
  | .less, c =>
    if c = '>' then some ([.comparison .notEqual], .idle)
    else if c = '=' then some ([.comparison .lessOrEqual], .idle)
    else none
  | .greater, c => if c = '=' then some ([.comparison .greaterOrEqual], .idle) else none

/-- The tokens of a character with which a lexeme begins, and what is pending then. -/
def start (c : Char) : Except ExpressionFault (List Token × Pending) :=
  if Text.isBlank c then .ok ([], .idle)
  else if c = '(' then .ok ([.leftParen], .idle)
  else if c = ')' then .ok ([.rightParen], .idle)
  else if c = ',' then .ok ([.comma], .idle)
  else if c = '.' then .ok ([.dot], .idle)
  else if c = '+' then .ok ([.plus], .idle)
  else if c = '-' then .ok ([.minus], .idle)
  else if c = '=' then .ok ([.comparison .equal], .idle)
  else if c = '<' then .ok ([], .less)
  else if c = '>' then .ok ([], .greater)
  else if c = '#' ∨ c = ':' then .ok ([], .label c [])
  else if Text.isWordStart c then .ok ([], .word [c])
  else .error (.unexpectedCharacter c)

/-- The tokens that a character completes, and what is pending after it. -/
def step (p : Pending) (c : Char) : Except ExpressionFault (List Token × Pending) :=
  match p.extend? c with
  | some next => .ok next
  | none => do
    let done ← p.finish
    let (tokens, next) ← start c
    return (done ++ tokens, next)

/-- The tokens that a run of characters completes, and what is pending after it. -/
def run (p : Pending) : List Char → Except ExpressionFault (List Token × Pending)
  | [] => .ok ([], p)
  | c :: cs => do
    let (tokens, next) ← p.step c
    let (more, last) ← next.run cs
    return (tokens ++ more, last)

end Pending

/-- The tokens of a run of characters after a pending lexeme. -/
def scanFrom (p : Pending) (cs : List Char) : Except ExpressionFault (List Token) := do
  let (tokens, last) ← p.run cs
  let more ← last.finish
  return tokens ++ more

/-- The tokens of a text. -/
def scan (text : String) : Except ExpressionFault (List Token) := scanFrom .idle text.toList

namespace Pending

/-- Reading two runs of characters is reading the second from where the first one stopped. -/
theorem run_append (p : Pending) (cs ds : List Char) :
    p.run (cs ++ ds) = (do
      let (tokens, next) ← p.run cs
      let (more, last) ← next.run ds
      return (tokens ++ more, last)) := by
  induction cs generalizing p with
  | nil => cases h : p.run ds <;> simp [run, h, bind, Except.bind, pure, Except.pure]
  | cons c cs ih =>
    cases hs : p.step c with
    | error e => simp [run, hs, bind, Except.bind]
    | ok r =>
      obtain ⟨tokens, next⟩ := r
      cases hr : next.run cs with
      | error e => simp [run, hs, ih, hr, bind, Except.bind]
      | ok r =>
        obtain ⟨more, last⟩ := r
        cases hd : last.run ds <;>
          simp [run, hs, ih, hr, hd, bind, Except.bind, pure, Except.pure]

/-- A blank ends whatever is pending. -/
theorem step_of_isBlank {p : Pending} {c : Char} (h : Text.isBlank c) :
    p.step c = p.finish.map fun done => (done, .idle) := by
  have hw : Text.isWordChar c = false := Text.not_isWordChar_of_isBlank h
  have hg : c ≠ '>' := by rintro rfl; simp [Text.isBlank, Text.inRanges] at h
  have he : c ≠ '=' := by rintro rfl; simp [Text.isBlank, Text.inRanges] at h
  have none : p.extend? c = none := by cases p <;> simp [extend?, hw, hg, he]
  cases hf : p.finish <;>
    simp [step, none, hf, start, h, bind, Except.bind, pure, Except.pure, Except.map]

end Pending

end Token

end RecordStore
