import RecordStore.Expression.Operand

/-!
# Lexemes that stand apart

A text that is put together from parts is read part by part as long as something ends each lexeme
before the next part begins.  A blank does, and so does a sign that is a token by itself.

The key local fact is `scanFrom_append_of_ends`: reading goes on from the idle state after a character
that ends whatever is pending, so the tokens of the whole are the tokens of the parts.

* `scan_blank`, `scan_separated`, `scan_comma` — texts with a blank, a lexeme or a comma between them;
* `scan_label` — an alias or placeholder is one token, whatever letters follow its sigil;
* `scan_word` — a word is one token.
-/

namespace RecordStore

namespace Token

/-- A character ends every pending lexeme and adds some tokens of its own. -/
def Ends (c : Char) (own : List Token) : Prop :=
  ∀ p : Pending, p.step c = p.finish.map fun done => (done ++ own, .idle)

/-- A blank ends every lexeme and is no token. -/
theorem ends_of_isBlank {c : Char} (h : Text.isBlank c) : Ends c [] := by
  intro p
  rw [Pending.step_of_isBlank h]
  simp

/-- A character that extends no lexeme and is a token by itself ends every lexeme. -/
theorem ends_of_start {c : Char} {own : List Token} (hword : Text.isWordChar c = false)
    (hgt : c ≠ '>') (heq : c ≠ '=') (hstart : Pending.start c = .ok (own, .idle)) :
    Ends c own := by
  intro p
  have hnone : p.extend? c = none := by
    cases p <;> simp [Pending.extend?, hword, hgt, heq]
  cases hf : p.finish <;>
    simp [Pending.step, hnone, hf, hstart, bind, Except.bind, pure, Except.pure, Except.map]

theorem ends_leftParen : Ends '(' [.leftParen] :=
  ends_of_start (by decide +kernel) (by decide) (by decide) rfl

theorem ends_rightParen : Ends ')' [.rightParen] :=
  ends_of_start (by decide +kernel) (by decide) (by decide) rfl

theorem ends_comma : Ends ',' [.comma] :=
  ends_of_start (by decide +kernel) (by decide) (by decide) rfl

theorem ends_dot : Ends '.' [.dot] :=
  ends_of_start (by decide +kernel) (by decide) (by decide) rfl

/-- Reading two runs of characters is reading the second from where the first one stopped. -/
theorem scanFrom_append (p : Pending) (cs ds : List Char) :
    scanFrom p (cs ++ ds) = (do
      let (tokens, next) ← p.run cs
      let more ← scanFrom next ds
      return tokens ++ more) := by
  unfold scanFrom
  rw [Pending.run_append]
  cases hr : p.run cs with
  | error e => simp [bind, Except.bind]
  | ok r =>
      obtain ⟨tokens, next⟩ := r
      cases hd : next.run ds with
      | error e => simp [hd, bind, Except.bind]
      | ok r =>
          obtain ⟨more, last⟩ := r
          cases hl : last.finish <;>
            simp [hd, hl, bind, Except.bind, pure, Except.pure]

/-- **Parts are read apart.**  After a character that ends whatever is pending the rest is read as a
text of its own. -/
theorem scanFrom_append_of_ends {c : Char} {own : List Token} (h : Ends c own) (p : Pending)
    (cs ds : List Char) :
    scanFrom p (cs ++ c :: ds) = (do
      let tokens ← scanFrom p cs
      let more ← scanFrom .idle ds
      return tokens ++ (own ++ more)) := by
  rw [scanFrom_append]
  cases hr : p.run cs with
  | error e => simp [scanFrom, hr, bind, Except.bind]
  | ok r =>
      obtain ⟨tokens, next⟩ := r
      have hc := h next
      cases hf : next.finish with
      | error e =>
          simp [scanFrom, Pending.run, hr, hc, hf, bind, Except.bind, Except.map]
      | ok done =>
          cases hd : Pending.idle.run ds with
          | error e =>
              simp [scanFrom, Pending.run, hr, hc, hf, hd, bind, Except.bind, Except.map, pure,
                Except.pure]
          | ok r =>
              obtain ⟨more, last⟩ := r
              cases hl : last.finish <;>
                simp [scanFrom, Pending.run, hr, hc, hf, hd, hl, bind, Except.bind, Except.map,
                  pure, Except.pure]

/-- Texts with a character between them that ends every lexeme. -/
theorem scan_append_of_ends {c : Char} {own : List Token} (h : Ends c own) {a s b : String}
    (hsep : s.toList = [c]) {as bs : List Token} (ha : scan a = .ok as)
    (hb : scan b = .ok bs) : scan (a ++ s ++ b) = .ok (as ++ (own ++ bs)) := by
  have hsplit : (a ++ s ++ b).toList = a.toList ++ c :: b.toList := by
    simp [hsep]
  unfold scan at ha hb ⊢
  rw [hsplit, scanFrom_append_of_ends h, ha, hb]
  rfl

/-- Texts with a blank between them. -/
theorem scan_blank {a b : String} {as bs : List Token} (ha : scan a = .ok as)
    (hb : scan b = .ok bs) : scan (a ++ " " ++ b) = .ok (as ++ bs) :=
  scan_append_of_ends (ends_of_isBlank (c := ' ') (by decide)) rfl ha hb

/-- Texts with something between them that stands between blanks. -/
theorem scan_separated {a s w b : String} (hsep : s = " " ++ w ++ " ")
    {as ws bs : List Token} (ha : scan a = .ok as) (hw : scan w = .ok ws) (hb : scan b = .ok bs) :
    scan (a ++ s ++ b) = .ok (as ++ (ws ++ bs)) := by
  have h := scan_blank (scan_blank ha hw) hb
  have htext : a ++ s ++ b = a ++ " " ++ w ++ " " ++ b := by
    simp [hsep, String.append_assoc]
  rw [htext, h, List.append_assoc]

/-- Texts with an `AND` between them. -/
theorem scan_and {a b : String} {as bs : List Token} (ha : scan a = .ok as)
    (hb : scan b = .ok bs) : scan (a ++ " AND " ++ b) = .ok (as ++ .and :: bs) :=
  scan_separated (w := "AND") rfl ha rfl hb

theorem scan_empty : scan "" = .ok [] := rfl

/-- Texts with a comma and a blank between them. -/
theorem scan_comma {a b : String} {as bs : List Token} (ha : scan a = .ok as)
    (hb : scan b = .ok bs) : scan (a ++ ", " ++ b) = .ok (as ++ .comma :: bs) := by
  have hcomma : scan (a ++ "," ++ "") = .ok (as ++ ([.comma] ++ [])) :=
    scan_append_of_ends ends_comma rfl ha scan_empty
  have h := scan_blank hcomma hb
  have htext : a ++ ", " ++ b = a ++ "," ++ "" ++ " " ++ b := by
    have hsep : ", " = "," ++ " " := rfl
    simp [hsep, String.append_assoc]
  rw [htext, h]
  simp

/-- A text between parentheses. -/
theorem scan_grouped {a b : String} {as bs : List Token} (ha : scan a = .ok as)
    (hb : scan b = .ok bs) :
    scan (a ++ "(" ++ b ++ ")") = .ok (as ++ (.leftParen :: (bs ++ [.rightParen]))) := by
  have hopen : scan (a ++ "(" ++ b) = .ok (as ++ ([.leftParen] ++ bs)) :=
    scan_append_of_ends ends_leftParen rfl ha hb
  have h := scan_append_of_ends ends_rightParen (s := ")") rfl hopen scan_empty
  simpa using h

namespace Pending

/-- Letters that follow a sigil are taken into the label. -/
theorem run_label (sigil : Char) {letters : List Char} (h : ∀ c ∈ letters, Text.isWordChar c)
    (before : List Char) :
    (Pending.label sigil before).run letters = .ok ([], .label sigil (letters.reverse ++ before)) := by
  induction letters generalizing before with
  | nil => rfl
  | cons c cs ih =>
      have hc : Text.isWordChar c = true := h c List.mem_cons_self
      have hcs := ih (fun d hd => h d (List.mem_cons_of_mem _ hd)) (c :: before)
      simp [run, step, extend?, hc, hcs, bind, Except.bind, pure, Except.pure]

/-- Letters that follow the beginning of a word are taken into the word. -/
theorem run_word {letters : List Char} (h : ∀ c ∈ letters, Text.isWordChar c)
    (before : List Char) :
    (Pending.word before).run letters = .ok ([], .word (letters.reverse ++ before)) := by
  induction letters generalizing before with
  | nil => rfl
  | cons c cs ih =>
      have hc : Text.isWordChar c = true := h c List.mem_cons_self
      have hcs := ih (fun d hd => h d (List.mem_cons_of_mem _ hd)) (c :: before)
      simp [run, step, extend?, hc, hcs, bind, Except.bind, pure, Except.pure]

/-- A sigil begins a label. -/
theorem start_sigil {sigil : Char} (h : sigil = '#' ∨ sigil = ':') :
    start sigil = .ok ([], .label sigil []) := by
  rcases h with rfl | rfl <;> rfl

/-- A character that may open a word begins one. -/
theorem start_word {c : Char} (h : Text.isWordStart c) : start c = .ok ([], .word [c]) := by
  have hword : Text.isWordChar c = true := by
    simp only [Text.isWordStart, Bool.or_eq_true] at h
    rcases h with h | h <;> simp [Text.isWordChar, Text.isAlphanumeric, h]
  have hblank : Text.isBlank c = false := by
    cases hb : Text.isBlank c with
    | false => rfl
    | true => simp [Text.not_isWordChar_of_isBlank hb] at hword
  have hne : ∀ d, Text.isWordStart d = false → c ≠ d := by
    rintro d hd rfl
    simp [hd] at h
  simp [start, hblank, h, hne '(' (by decide +kernel), hne ')' (by decide +kernel),
    hne ',' (by decide +kernel), hne '.' (by decide +kernel), hne '+' (by decide +kernel),
    hne '-' (by decide +kernel), hne '=' (by decide +kernel), hne '<' (by decide +kernel),
    hne '>' (by decide +kernel), hne '#' (by decide +kernel), hne ':' (by decide +kernel)]

end Pending

/-- **A label is one token.**  This holds of every spelling, also of one that is a keyword. -/
theorem scan_label {sigil : Char} (hs : sigil = '#' ∨ sigil = ':') {letters : List Char}
    (hne : letters ≠ []) (hw : ∀ c ∈ letters, Text.isWordChar c) :
    scan (String.ofList (sigil :: letters)) = .ok [ofLabel sigil letters] := by
  unfold scan scanFrom
  rw [String.toList_ofList]
  simp [Pending.run, Pending.step, Pending.extend?, Pending.finish, Pending.start_sigil hs,
    Pending.run_label sigil hw, hne, bind, Except.bind, pure, Except.pure]

/-- A word is one token: a keyword or an identifier. -/
theorem scan_word {c : Char} {cs : List Char} (hc : Text.isWordStart c)
    (hcs : ∀ d ∈ cs, Text.isWordChar d) :
    scan (String.ofList (c :: cs)) = .ok [ofWord (String.ofList (c :: cs))] := by
  unfold scan scanFrom
  rw [String.toList_ofList]
  simp [Pending.run, Pending.step, Pending.extend?, Pending.finish, Pending.start_word hc,
    Pending.run_word hcs, bind, Except.bind, pure, Except.pure]

end Token

end RecordStore
