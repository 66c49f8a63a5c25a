import RecordStore.Expression.Condition
import RecordStore.Expression.Context
import RecordStore.Expression.Update
import RecordStore.Proofs.Expression.Lexemes

/-!
# Written expressions as tokens

The tokens that a path, an operand, a condition or an update is written with, given directly, and the
fact that reading the written text gives them.  What is written has to be *spelled*: its segments are
aliases or identifiers that are no keywords, and its placeholders are labels.

* `Path.scan_text`, `Operand.scan_text`, `Condition.scan_text` — the tokens of a text;
* `Update.scan_text` — the tokens of an update.
-/

namespace RecordStore

/-- A sigil with letters, digits or underscores after it. -/
def IsLabel (sigil : Char) (label : String) : Prop :=
  ∃ letters, letters ≠ [] ∧ (∀ c ∈ letters, Text.isWordChar c) ∧
    label = String.ofList (sigil :: letters)

/-- A word that is no keyword. -/
def IsIdentifier (word : String) : Prop :=
  ∃ c cs, Text.isWordStart c ∧ (∀ d ∈ cs, Text.isWordChar d) ∧ word = String.ofList (c :: cs) ∧
    Token.ofWord word = .identifier word

/-- An alias is recognised by its sigil. -/
theorem IsLabel.isAlias {label : String} (h : IsLabel '#' label) : Context.isAlias label = true := by
  obtain ⟨letters, _, _, rfl⟩ := h
  simp [Context.isAlias]

/-- No identifier begins with a sigil. -/
theorem IsIdentifier.not_isAlias {word : String} (h : IsIdentifier word) :
    Context.isAlias word = false := by
  obtain ⟨c, cs, hc, _, rfl, _⟩ := h
  have hne : c ≠ '#' := by
    rintro rfl
    exact absurd hc (by decide +kernel)
  simp [Context.isAlias, hne]

/-- An alias is one token. -/
theorem IsLabel.scan_name {label : String} (h : IsLabel '#' label) :
    Token.scan label = .ok [.name label] := by
  obtain ⟨letters, hne, hw, rfl⟩ := h
  exact Token.scan_label (.inl rfl) hne hw

/-- A placeholder is one token. -/
theorem IsLabel.scan_value {label : String} (h : IsLabel ':' label) :
    Token.scan label = .ok [.value label] := by
  obtain ⟨letters, hne, hw, rfl⟩ := h
  exact Token.scan_label (.inr rfl) hne hw

/-- A name that is no keyword is one token. -/
theorem IsIdentifier.scan {word : String} (h : IsIdentifier word) :
    Token.scan word = .ok [.identifier word] := by
  obtain ⟨c, cs, hc, hcs, hword, htoken⟩ := h
  rw [← htoken, hword]
  exact Token.scan_word hc hcs

namespace Token

/-- Tokens between parentheses. -/
def grouped (ts : List Token) : List Token := .leftParen :: (ts ++ [.rightParen])

/-- Tokens between parentheses where they are needed. -/
def groupedIf (needed : Bool) (ts : List Token) : List Token := if needed then grouped ts else ts

/-- The token of a segment. -/
def ofSegment (segment : String) : Token :=
  if Context.isAlias segment then .name segment else .identifier segment

end Token

namespace Path

/-- A segment is an alias or a word that is no keyword. -/
def IsSegment (segment : String) : Prop := IsLabel '#' segment ∨ IsIdentifier segment

/-- A path has segments, and each can be read back. -/
def Spelled (p : Path) : Prop := p ≠ [] ∧ ∀ s ∈ p, IsSegment s

/-- The tokens of a path. -/
def tokens : Path → List Token
  | [] => []
  | s :: rest => Token.ofSegment s :: rest.flatMap fun t => [.dot, Token.ofSegment t]

/-- A segment is one token, which is the token that stands for it. -/
theorem IsSegment.scan {s : String} (h : IsSegment s) : Token.scan s = .ok [Token.ofSegment s] := by
  rcases h with h | h
  · rw [h.scan_name, Token.ofSegment, h.isAlias]
    rfl
  · rw [h.scan, Token.ofSegment, h.not_isAlias]
    rfl

/-- A segment alone is a spelled path. -/
theorem spelled_singleton {s : String} (h : IsSegment s) : Spelled [s] :=
  ⟨by simp, by simpa using h⟩

/-- So are two segments. -/
theorem spelled_pair {s t : String} (hs : IsSegment s) (ht : IsSegment t) : Spelled [s, t] :=
  ⟨by simp, by simp [hs, ht]⟩

/-- The text of a path has the tokens of its segments with dots between them. -/
theorem scan_text {p : Path} (h : p.Spelled) : Token.scan p.text = .ok p.tokens := by
  obtain ⟨hne, hseg⟩ := h
  induction p with
  | nil => exact absurd rfl hne
  | cons s rest ih =>
      have hs : Token.scan s = .ok [Token.ofSegment s] := (hseg s List.mem_cons_self).scan
      cases rest with
      | nil => simpa [text, tokens] using hs
      | cons t more =>
          have hrest : Token.scan (text (t :: more)) = .ok (tokens (t :: more)) :=
            ih (by simp) fun u hu => hseg u (List.mem_cons_of_mem _ hu)
          have h := Token.scan_append_of_ends Token.ends_dot (s := ".") rfl hs hrest
          have htext : text (s :: t :: more) = s ++ "." ++ text (t :: more) :=
            String.intercalate_cons_cons
          rw [htext, h]
          rfl

end Path

namespace Operand

/-- An operand is a path or placeholder that can be read back. -/
def Spelled : Operand → Prop
  | .path p => p.Spelled
  | .value label => IsLabel ':' label

/-- The tokens of an operand. -/
def tokens : Operand → List Token
  | .path p => p.tokens
  | .value label => [.value label]

/-- The text of an operand is scanned to its tokens. -/
theorem scan_text {o : Operand} (h : o.Spelled) : Token.scan o.text = .ok o.tokens := by
  cases o with
  | path p => exact Path.scan_text h
  | value label => exact h.scan_value

end Operand

/-- The text of a comparison sign is scanned to the sign. -/
theorem Comparison.scan_text (op : Comparison) : Token.scan op.text = .ok [.comparison op] := by
  cases op <;> rfl

namespace Condition

/-- All paths and placeholders of a condition can be read back. -/
def Spelled : Condition → Prop
  | .compare _ left right => left.Spelled ∧ right.Spelled
  | .between subject low high => subject.Spelled ∧ low.Spelled ∧ high.Spelled
  | .and left right | .or left right => left.Spelled ∧ right.Spelled
  | .not inner => inner.Spelled
  | .present path | .absent path => path.Spelled
  | .beginsWith subject beginning => subject.Spelled ∧ beginning.Spelled

/-- The tokens of a condition. -/
def tokens : Condition → List Token
  | .compare op left right => left.tokens ++ .comparison op :: right.tokens
  | .between subject low high =>
    subject.tokens ++ .between :: (low.tokens ++ .and :: high.tokens)
  | .and left right => left.tokens ++ .and :: Token.groupedIf right.isAnd right.tokens
  | .or left right => Token.grouped (left.tokens ++ .or :: right.tokens)
  | .not inner => .not :: Token.groupedIf inner.isAnd inner.tokens
  | .present path => .identifier "attribute_exists" :: Token.grouped path.tokens
  | .absent path => .identifier "attribute_not_exists" :: Token.grouped path.tokens
  | .beginsWith subject beginning =>
    .identifier "begins_with" :: Token.grouped (subject.tokens ++ .comma :: beginning.tokens)

/-- A function name before a text in parentheses. -/
theorem scan_call {f text : String} {t : Token} {ts : List Token} (h : Token.scan text = .ok ts)
    (hf : Token.scan f = .ok [t]) :
    Token.scan (f ++ grouped text) = .ok (t :: Token.grouped ts) := by
  have hg := Token.scan_grouped hf h
  have htext : f ++ grouped text = f ++ "(" ++ text ++ ")" := by
    simp [grouped, String.append_assoc]
  rw [htext, hg]
  rfl

/-- A text in parentheses. -/
theorem scan_grouped {text : String} {ts : List Token} (h : Token.scan text = .ok ts) :
    Token.scan (grouped text) = .ok (Token.grouped ts) := by
  have hg := Token.scan_grouped Token.scan_empty h
  have htext : grouped text = "" ++ "(" ++ text ++ ")" := by
    simp [grouped]
  rw [htext, hg]
  rfl

/-- A text in parentheses where they are needed. -/
theorem scan_groupedIf {b : Bool} {text : String} {ts : List Token}
    (h : Token.scan text = .ok ts) :
    Token.scan (if b then grouped text else text) = .ok (Token.groupedIf b ts) := by
  cases b with
  | false => exact h
  | true => exact scan_grouped h

/-- **Reading what is written.**  The text of a condition has the tokens of the condition. -/
theorem scan_text {c : Condition} (h : c.Spelled) : Token.scan c.text = .ok c.tokens := by
  induction c with
  | compare op left right =>
      have hl := Operand.scan_text h.1
      have hr := Operand.scan_text h.2
      have hboth := Token.scan_blank (Token.scan_blank hl (Comparison.scan_text op)) hr
      change Token.scan (left.text ++ " " ++ op.text ++ " " ++ right.text) = _
      rw [hboth, tokens, List.append_assoc]
      rfl
  | between subject low high =>
      have hs := Operand.scan_text h.1
      have hl := Operand.scan_text h.2.1
      have hh := Operand.scan_text h.2.2
      have hfirst : Token.scan (subject.text ++ " BETWEEN " ++ low.text) =
          .ok (subject.tokens ++ .between :: low.tokens) :=
        Token.scan_separated (w := "BETWEEN") rfl hs rfl hl
      change Token.scan (subject.text ++ " BETWEEN " ++ low.text ++ " AND " ++ high.text) = _
      rw [Token.scan_and hfirst hh, tokens, List.append_assoc]
      rfl
  | and left right ihl ihr =>
      change Token.scan
        (left.text ++ " AND " ++ if right.isAnd then grouped right.text else right.text) = _
      rw [Token.scan_and (ihl h.1) (scan_groupedIf (ihr h.2)), tokens]
  | or left right ihl ihr =>
      have hinner : Token.scan (left.text ++ " OR " ++ right.text) =
          .ok (left.tokens ++ .or :: right.tokens) :=
        Token.scan_separated (w := "OR") rfl (ihl h.1) rfl (ihr h.2)
      change Token.scan (grouped (left.text ++ " OR " ++ right.text)) = _
      rw [scan_grouped hinner, tokens]
  | not inner ih =>
      have hnot : Token.scan "NOT" = .ok [.not] := rfl
      have htext : "NOT " = "NOT" ++ " " := rfl
      change Token.scan ("NOT " ++ if inner.isAnd then grouped inner.text else inner.text) = _
      rw [htext, Token.scan_blank hnot (scan_groupedIf (ih h)), tokens]
      rfl
  | present path =>
      have hname : Token.scan "attribute_exists" = .ok [.identifier "attribute_exists"] := rfl
      change Token.scan ("attribute_exists" ++ grouped path.text) = _
      rw [scan_call (Path.scan_text h) hname, tokens]
  | absent path =>
      have hname : Token.scan "attribute_not_exists" = .ok [.identifier "attribute_not_exists"] := rfl
      change Token.scan ("attribute_not_exists" ++ grouped path.text) = _
      rw [scan_call (Path.scan_text h) hname, tokens]
  | beginsWith subject beginning =>
      have hs := Operand.scan_text h.1
      have hb := Operand.scan_text h.2
      have hname : Token.scan "begins_with" = .ok [.identifier "begins_with"] := rfl
      change Token.scan ("begins_with" ++ grouped (subject.text ++ ", " ++ beginning.text)) = _
      rw [scan_call (Token.scan_comma hs hb) hname, tokens]

end Condition

namespace NewValue

/-- All paths and placeholders of a new value can be read back. -/
def Spelled : NewValue → Prop
  | .operand o => o.Spelled
  | .sum left right | .difference left right => left.Spelled ∧ right.Spelled

/-- The tokens of a new value. -/
def tokens : NewValue → List Token
  | .operand o => o.tokens
  | .sum left right => left.tokens ++ .plus :: right.tokens
  | .difference left right => left.tokens ++ .minus :: right.tokens

/-- The text of a new value is scanned to its tokens. -/
theorem scan_text {v : NewValue} (h : v.Spelled) : Token.scan v.text = .ok v.tokens := by
  cases v with
  | operand o => exact Operand.scan_text h
  | sum left right =>
      exact Token.scan_separated (w := "+") rfl (Operand.scan_text h.1) rfl (Operand.scan_text h.2)
  | difference left right =>
      exact Token.scan_separated (w := "-") rfl (Operand.scan_text h.1) rfl (Operand.scan_text h.2)

end NewValue

namespace SetAction

/-- An action can be read back. -/
def Spelled (a : SetAction) : Prop := a.path.Spelled ∧ a.value.Spelled

/-- The tokens of an action. -/
def tokens (a : SetAction) : List Token := a.path.tokens ++ .comparison .equal :: a.value.tokens

/-- The text of an action is scanned to its tokens. -/
theorem scan_text {a : SetAction} (h : a.Spelled) : Token.scan a.text = .ok a.tokens :=
  Token.scan_separated (w := "=") rfl (Path.scan_text h.1) rfl (NewValue.scan_text h.2)

end SetAction

namespace Update

/-- The tokens of actions with commas between them. -/
def actionTokens : List SetAction → List Token
  | [] => []
  | a :: rest => a.tokens ++ rest.flatMap fun b => .comma :: b.tokens

/-- Actions with commas between them are scanned to the tokens of their list. -/
theorem scan_actions {u : List SetAction} (h : ∀ a ∈ u, a.Spelled) :
    Token.scan (", ".intercalate (u.map SetAction.text)) = .ok (actionTokens u) := by
  induction u with
  | nil => exact Token.scan_empty
  | cons a rest ih =>
      have ha : Token.scan a.text = .ok a.tokens := SetAction.scan_text (h a List.mem_cons_self)
      cases rest with
      | nil => simpa [actionTokens] using ha
      | cons b more =>
          have hrest := ih fun c hc => h c (List.mem_cons_of_mem _ hc)
          rw [List.map_cons, List.map_cons, String.intercalate_cons_cons, ← List.map_cons,
            Token.scan_comma ha hrest]
          rfl

/-- **Reading what is written.**  The text of an update has the tokens of its actions after `set`. -/
theorem scan_text {u : Update} (h : ∀ a ∈ u, a.Spelled) :
    Token.scan u.text = .ok (.set :: actionTokens u) := by
  have hset : Token.scan "set" = .ok [.set] := rfl
  have htext : u.text = "set" ++ " " ++ ", ".intercalate (u.map SetAction.text) := rfl
  rw [htext, Token.scan_blank hset (scan_actions h)]
  rfl

end Update

end RecordStore
