import RecordStore.Proofs.Expression.Layout

/-!
# Texts with blanks between them

A gap, one blank or more, takes a text apart: what stands before it and what stands behind it are read
each as a text of its own.  No lexeme reaches over a gap, and no gap is needed where a lexeme ends by
itself, so a gap neither joins tokens nor splits one.

* `Token.scan_append_gap` — a text with a gap in it is read part by part;
* `Token.Printed` — tokens printed one after the other with gaps between them;
* `Token.Printed.scan` — what is printed is read back.  The induction is on the printing, and each step
  takes the first token off at its gap;
* `Token.scan_apart` — both laws, with the tokens for which printing and reading undo each other.
-/

namespace RecordStore

namespace Token

/-- A text of blanks, at least one. -/
def IsGap (gap : String) : Prop := gap ≠ "" ∧ ∀ c ∈ gap.toList, Text.isBlank c

instance (gap : String) : Decidable (IsGap gap) :=
  decidable_of_iff (gap ≠ "" ∧ gap.toList.all Text.isBlank = true) (by simp [IsGap])

variable {gap : String}

/-- **A text with a gap in it is read part by part.**  If a part cannot be read, the fault is that of the
first such part. -/
theorem scan_append_gap (h : IsGap gap) (a b : String) :
    scan (a ++ gap ++ b) = (do
      let before ← scan a
      let behind ← scan b
      return before ++ behind) := by
  obtain ⟨hne, hblank⟩ := h
  obtain ⟨c, more, hgap⟩ := List.exists_cons_of_ne_nil (mt String.toList_eq_nil_iff.mp hne)
  rw [hgap] at hblank
  have hchars : (a ++ gap ++ b).toList = a.toList ++ c :: (more ++ b.toList) := by
    simp [hgap]
  -- the first blank ends what is pending, and the others are passed over
  have hends : Ends c [] := ends_of_isBlank (hblank c List.mem_cons_self)
  have hmore : scanFrom .idle (more ++ b.toList) = scan b :=
    scanFrom_blanks (fun d hd => hblank d (List.mem_cons_of_mem _ hd)) b.toList
  rw [scan, hchars, scanFrom_append_of_ends hends, hmore]
  rfl

/-- A spelling of a token is read as this token alone. -/
theorem Lexeme.scan {t : Token} {lexeme : String} (h : t.Lexeme lexeme.toList) :
    Token.scan lexeme = .ok [t] := by
  have hread : scanFrom .idle (lexeme.toList ++ []) = (scanFrom .idle []).map (t :: ·) :=
    h.scanFrom_append (by simp)
  rw [List.append_nil] at hread
  exact hread

/-- The usual spelling of a token. -/
def text : Token → String
  | .comparison op => op.text
  | .and => "AND"
  | .or => "OR"
  | .not => "NOT"
  | .between => "BETWEEN"
  | .set => "set"
  | .plus => "+"
  | .minus => "-"
  | .identifier word => word
  | .name label | .value label => label
  | .leftParen => "("
  | .rightParen => ")"
  | .comma => ","
  | .dot => "."

/-- The usual spelling is a spelling, if there is any. -/
theorem Spelled.lexeme_text {t : Token} (h : t.Spelled) : t.Lexeme t.text.toList := by
  obtain ⟨lexeme, hlexeme⟩ := h
  cases t with
  | identifier word => exact ⟨hlexeme.1, rfl⟩
  | name label => exact ⟨hlexeme.1, rfl⟩
  | value label => exact ⟨hlexeme.1, rfl⟩
  | _ => rfl

/-- **Tokens printed as a text**: a spelling of each, with a gap between any two of them. -/
inductive Printed : List Token → String → Prop where
  | nil : Printed [] ""
  | last {t : Token} {lexeme : String} (hlexeme : t.Lexeme lexeme.toList) : Printed [t] lexeme
  | cons {t next : Token} {ts : List Token} {lexeme gap rest : String}
      (hlexeme : t.Lexeme lexeme.toList) (hgap : IsGap gap) (hrest : Printed (next :: ts) rest) :
      Printed (t :: next :: ts) (lexeme ++ gap ++ rest)

/-- **What is printed is read back.** -/
theorem Printed.scan {ts : List Token} {text : String} (h : Printed ts text) :
    Token.scan text = .ok ts := by
  induction h with
  | nil => exact scan_empty
  | last hlexeme => exact hlexeme.scan
  | cons hlexeme hgap _ ih =>
      rw [scan_append_gap hgap, hlexeme.scan, ih]
      rfl

/-- Tokens that can be spelled can be printed with any gap. -/
theorem printed_intercalate (hgap : IsGap gap) {ts : List Token} (h : ∀ t ∈ ts, t.Spelled) :
    Printed ts (gap.intercalate (ts.map text)) := by
  induction ts with
  | nil => exact .nil
  | cons t rest ih =>
      obtain ⟨ht, hrest⟩ := List.forall_mem_cons.mp h
      cases rest with
      | nil => simpa using Printed.last ht.lexeme_text
      | cons next more =>
          rw [List.map_cons, List.map_cons, String.intercalate_cons_cons, ← List.map_cons]
          exact .cons ht.lexeme_text hgap (ih hrest)

/-- **Reading takes a text apart at its gaps.**  A text with a gap between two parts can be read exactly
if both parts can, and then its tokens are those of the first part and those of the second; if it cannot
be read, the fault is that of the first part that cannot.  Tokens that are printed, in whatever spelling
and with whatever gaps, are read back.  With the usual spellings and one gap everywhere, tokens are read
back exactly if each of them can be spelled. -/
theorem scan_apart (hgap : IsGap gap) :
    (∀ a b : String,
      ((scan (a ++ gap ++ b)).isOk ↔ (scan a).isOk ∧ (scan b).isOk) ∧
        scan (a ++ gap ++ b) = (do
          let before ← scan a
          let behind ← scan b
          return before ++ behind)) ∧
      (∀ (ts : List Token) (text : String), Printed ts text → scan text = .ok ts) ∧
      ∀ ts : List Token,
        scan (gap.intercalate (ts.map Token.text)) = .ok ts ↔ ∀ t ∈ ts, t.Spelled := by
  refine ⟨?_, fun _ _ hprinted => hprinted.scan, ?_⟩
  · intro a b
    have hapart := scan_append_gap hgap a b
    refine ⟨?_, hapart⟩
    rw [hapart]
    cases scan a <;> cases scan b <;>
      simp [bind, Except.bind, pure, Except.pure, Except.isOk, Except.toBool]
  · intro ts
    constructor
    · intro h
      exact (scan_eq_ok_iff.mp h).spelled
    · intro h
      exact (printed_intercalate hgap h).scan

/-- Signs that would be read as one stay two where an ideographic blank and a line break keep them
apart. -/
theorem scan_apart_ideographic :
    IsGap "\u3000\n" ∧
      scan ("#size <" ++ "\u3000\n" ++ "=:x") =
        .ok [.name "#size", .comparison .lessThan, .comparison .equal, .value ":x"] ∧
      Printed [.set, .identifier "é١"] ("sEt" ++ "\u3000\n" ++ "é١") ∧
      scan ("sEt" ++ "\u3000\n" ++ "é١") = .ok [.set, .identifier "é١"] ∧
      scan ("\u3000\n".intercalate (([.comparison .greaterThan, .comparison .equal] : List Token).map
        Token.text)) = .ok [.comparison .greaterThan, .comparison .equal] := by
  have hgap : IsGap "\u3000\n" := by decide +kernel
  obtain ⟨hparts, hprinted, hspelled⟩ := scan_apart hgap
  have hbefore : scan "#size <" = .ok [.name "#size", .comparison .lessThan] := rfl
  have hbehind : scan "=:x" = .ok [.comparison .equal, .value ":x"] := rfl
  have hletters : ['١'].all Text.isWordChar = true := by decide +kernel
  have hword : IsIdentifier "é١" :=
    ⟨'é', ['١'], by decide +kernel, List.all_eq_true.mp hletters, rfl, by decide +kernel⟩
  have hset : Printed [.set, .identifier "é١"] ("sEt" ++ "\u3000\n" ++ "é١") :=
    .cons (t := .set) rfl hgap (.last ⟨hword, rfl⟩)
  refine ⟨hgap, ?_, hset, hprinted _ _ hset, ?_⟩
  · rw [(hparts "#size <" "=:x").2, hbefore, hbehind]
    rfl
  · refine (hspelled _).mpr ?_
    intro t ht
    obtain rfl | rfl : t = .comparison .greaterThan ∨ t = .comparison .equal := by simpa using ht
    · exact ⟨['>'], rfl⟩
    · exact ⟨['='], rfl⟩

/-- Without a gap they are one sign. -/
example : scan ("#size <" ++ "=:x") =
    .ok [.name "#size", .comparison .lessOrEqual, .value ":x"] :=
  rfl

end Token

end RecordStore
