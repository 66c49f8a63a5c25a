import Mathlib.Data.List.Basic
import RecordStore.Proofs.Expression.Alternatives
import RecordStore.Proofs.Expression.UpdateTexts

/-!
# A label that is not defined is the only fault

Once a text has been read as a condition, one thing only can go wrong when it is tried on a record: a
label in it is looked up that is not defined.  Attributes that are not there, values of the wrong type
and paths that lead nowhere make a comparison false, and no path that is read is empty.

* `Context.Defines`, `Context.Lacks` — labels among some tokens that are defined, or are not;
* `Condition.operands` — all that a condition looks up in a record and in the tables;
* `Condition.exists_find_of_holds` — a condition fails only where one of its operands does.  The
  induction is on the condition;
* `Condition.Derives.within` — the operands of what is read are written with the tokens that are read.
  The induction is on the derivation;
* `Condition.optionalHolds_of_ofText` — texts, tried on any record.
-/

namespace RecordStore

/-- A fault of two steps is one of the first, or of the second after the first. -/
theorem bind_eq_error {ε α β : Type} {x : Except ε α} {f : α → Except ε β} {e : ε}
    (h : x >>= f = .error e) : x = .error e ∨ ∃ a, x = .ok a ∧ f a = .error e := by
  cases x with
  | error fault => exact .inl (congrArg Except.error (Except.error.inj h))
  | ok a => exact .inr ⟨a, rfl, h⟩

namespace Context

/-- Every label among some tokens is defined. -/
structure Defines (ctx : Context) (ts : List Token) : Prop where
  names : ∀ label, .name label ∈ ts → ctx.names.contains label
  values : ∀ label, .value label ∈ ts → ctx.values.contains label

/-- A fault names a label among some tokens that is not defined. -/
inductive Lacks (ctx : Context) (ts : List Token) : ExpressionFault → Prop where
  | name {label : String} (h : .name label ∈ ts) (hnone : ctx.names.get? label = none) :
      Lacks ctx ts (.undefinedName label)
  | value {label : String} (h : .value label ∈ ts) (hnone : ctx.values.get? label = none) :
      Lacks ctx ts (.undefinedValue label)

variable {ctx : Context} {ts us : List Token} {fault : ExpressionFault}

/-- A label that is missing among some tokens is missing among more. -/
theorem Lacks.mono (h : ctx.Lacks ts fault) (hsub : ts ⊆ us) : ctx.Lacks us fault := by
  cases h with
  | name h hnone => exact .name (hsub h) hnone
  | value h hnone => exact .value (hsub h) hnone

/-- Where all labels are defined none is missing. -/
theorem Defines.not_lacks (h : ctx.Defines ts) : ¬ ctx.Lacks ts fault := by
  intro hlacks
  cases hlacks with
  | name hmem hnone =>
      have hdefined := h.names _ hmem
      simp [Dict.contains, hnone] at hdefined
  | value hmem hnone =>
      have hdefined := h.values _ hmem
      simp [Dict.contains, hnone] at hdefined

/-- A segment fails to stand for a name only if it is an alias that is not defined. -/
theorem lacks_of_nameOf {segment : String} (h : ctx.nameOf segment = .error fault) :
    ctx.Lacks [Token.ofSegment segment] fault := by
  unfold nameOf at h
  split at h
  · rename_i halias
    split at h
    · cases h
    · rename_i hnone
      obtain rfl := Except.error.inj h
      refine .name ?_ hnone
      simp [Token.ofSegment, halias]
  · cases h

/-- The way down is lost at a segment that stands for no name, and nowhere else. -/
theorem exists_nameOf_of_descend {p : Path} {found : Option Value}
    (h : ctx.descend found p = .error fault) : ∃ s ∈ p, ctx.nameOf s = .error fault := by
  induction p generalizing found with
  | nil => cases h
  | cons s rest ih =>
      rcases bind_eq_error h with hname | ⟨name, _, hrest⟩
      · exact ⟨s, List.mem_cons_self, hname⟩
      · obtain ⟨t, ht, hname⟩ := ih hrest
        exact ⟨t, List.mem_cons_of_mem _ ht, hname⟩

/-- A path that cannot be resolved has a segment without a name. -/
theorem exists_nameOf_of_resolve {p : Path} (hne : p ≠ []) {item : Item}
    (h : ctx.resolve item p = .error fault) : ∃ s ∈ p, ctx.nameOf s = .error fault := by
  cases p with
  | nil => exact absurd rfl hne
  | cons s rest =>
      rcases bind_eq_error h with hname | ⟨name, _, hrest⟩
      · exact ⟨s, List.mem_cons_self, hname⟩
      · obtain ⟨t, ht, hname⟩ := exists_nameOf_of_descend hrest
        exact ⟨t, List.mem_cons_of_mem _ ht, hname⟩

end Context

/-- The token of a segment is among those of its path. -/
theorem Path.ofSegment_mem_tokens {p : Path} {s : String} (h : s ∈ p) :
    Token.ofSegment s ∈ p.tokens := by
  cases p with
  | nil => cases h
  | cons t rest =>
      rw [tokens, List.mem_cons, List.mem_flatMap]
      rcases List.mem_cons.mp h with rfl | hrest
      · exact .inl rfl
      · exact .inr ⟨s, hrest, by simp⟩

/-- **Looking up an operand** fails only if a label in it is not defined. -/
theorem Operand.lacks_of_find {ctx : Context} {item : Item} {o : Operand} {fault : ExpressionFault}
    (ho : o.Spelled) (h : o.find ctx item = .error fault) : ctx.Lacks o.tokens fault := by
  cases o with
  | path p =>
      obtain ⟨s, hs, hname⟩ := Context.exists_nameOf_of_resolve ho.1 h
      refine (Context.lacks_of_nameOf hname).mono ?_
      exact List.cons_subset.mpr ⟨Path.ofSegment_mem_tokens hs, List.nil_subset _⟩
  | value label =>
      rw [find, Context.valueOf] at h
      split at h
      · cases h
      · rename_i hnone
        obtain rfl := Except.error.inj h
        exact .value List.mem_cons_self hnone

namespace Operand

/-- An operand that can be spelled is written with tokens among some others. -/
def Within (ts : List Token) (o : Operand) : Prop := o.Spelled ∧ o.tokens ⊆ ts

/-- An operand within some tokens is within more. -/
theorem Within.mono {ts us : List Token} {o : Operand} (h : o.Within ts) (hsub : ts ⊆ us) :
    o.Within us :=
  ⟨h.1, List.Subset.trans h.2 hsub⟩

/-- What is derived from some tokens is within them. -/
theorem Derives.within {ts us : List Token} {o : Operand} (h : Derives us o) (hsub : us ⊆ ts)
    (hts : ∀ t ∈ ts, t.Spelled) : o.Within ts := by
  obtain ⟨ho, rfl⟩ := h.eq_tokens fun t ht => hts t (hsub ht)
  exact ⟨ho, hsub⟩

end Operand

namespace Condition

/-- All that a condition looks up. -/
def operands : Condition → List Operand
  | .compare _ left right => [left, right]
  | .between subject low high => [subject, low, high]
  | .and left right | .or left right => left.operands ++ right.operands
  | .not inner => inner.operands
  | .present path | .absent path => [.path path]
  | .beginsWith subject beginning => [subject, beginning]

variable {ctx : Context} {item : Item} {fault : ExpressionFault}

/-- **Only looking up can fail.**  A condition that fails on a record has an operand that does. -/
theorem exists_find_of_holds {c : Condition} (h : c.holds ctx item = .error fault) :
    ∃ o ∈ c.operands, o.find ctx item = .error fault := by
  induction c with
  | compare op left right =>
      rcases bind_eq_error h with hleft | ⟨l, _, h⟩
      · exact ⟨left, by simp [operands], hleft⟩
      rcases bind_eq_error h with hright | ⟨r, _, h⟩
      · exact ⟨right, by simp [operands], hright⟩
      · split at h <;> cases h
  | between subject low high =>
      rcases bind_eq_error h with hsubject | ⟨s, _, h⟩
      · exact ⟨subject, by simp [operands], hsubject⟩
      rcases bind_eq_error h with hlow | ⟨l, _, h⟩
      · exact ⟨low, by simp [operands], hlow⟩
      rcases bind_eq_error h with hhigh | ⟨m, _, h⟩
      · exact ⟨high, by simp [operands], hhigh⟩
      · split at h <;> cases h
  | and left right ihLeft ihRight =>
      rcases bind_eq_error h with hleft | ⟨b, _, h⟩
      · obtain ⟨o, ho, hfind⟩ := ihLeft hleft
        exact ⟨o, List.mem_append_left _ ho, hfind⟩
      · cases b with
        | false => cases h
        | true =>
            obtain ⟨o, ho, hfind⟩ := ihRight h
            exact ⟨o, List.mem_append_right _ ho, hfind⟩
  | or left right ihLeft ihRight =>
      rcases bind_eq_error h with hleft | ⟨b, _, h⟩
      · obtain ⟨o, ho, hfind⟩ := ihLeft hleft
        exact ⟨o, List.mem_append_left _ ho, hfind⟩
      · cases b with
        | true => cases h
        | false =>
            obtain ⟨o, ho, hfind⟩ := ihRight h
            exact ⟨o, List.mem_append_right _ ho, hfind⟩
  | not inner ih =>
      rcases bind_eq_error h with hinner | ⟨b, _, h⟩
      · exact ih hinner
      · cases h
  | present path | absent path =>
      rcases bind_eq_error h with hpath | ⟨found, _, h⟩
      · exact ⟨.path path, List.mem_cons_self, hpath⟩
      · cases h
  | beginsWith subject beginning =>
      rcases bind_eq_error h with hsubject | ⟨s, _, h⟩
      · exact ⟨subject, by simp [operands], hsubject⟩
      rcases bind_eq_error h with hbeginning | ⟨b, _, h⟩
      · exact ⟨beginning, by simp [operands], hbeginning⟩
      · split at h <;> cases h

variable {ts : List Token} {c : Condition}

/-- The operands of a simple condition are within its tokens. -/
theorem DerivesSimple.within (h : DerivesSimple ts c) (hts : ∀ t ∈ ts, t.Spelled) :
    ∀ o ∈ c.operands, o.Within ts := by
  cases h with
  | compare op hl hr =>
      have hleft := hl.within (List.subset_append_left _ _) hts
      have hright := hr.within (fun t ht => by simp [ht]) hts
      simpa [operands] using ⟨hleft, hright⟩
  | between hs hl hh =>
      have hsubject := hs.within (List.subset_append_left _ _) hts
      have hlow := hl.within (fun t ht => by simp [ht]) hts
      have hhigh := hh.within (fun t ht => by simp [ht]) hts
      simpa [operands] using ⟨hsubject, hlow, hhigh⟩
  | present hf h | absent hf h =>
      have hpath := (Operand.Derives.path h).within (fun t ht => by simp [ht]) hts
      simpa [operands] using hpath
  | beginsWith hf hs hb =>
      have hsubject := hs.within (fun t ht => by simp [ht]) hts
      have hbeginning := hb.within (fun t ht => by simp [ht]) hts
      simpa [operands] using ⟨hsubject, hbeginning⟩

/-- **The operands of what is read** are written with the tokens that it is read from. -/
theorem Derives.within {level : Level} (h : Derives level ts c) (hts : ∀ t ∈ ts, t.Spelled) :
    ∀ o ∈ c.operands, o.Within ts := by
  induction h with
  | simple h => exact h.within hts
  | not _ ih =>
      intro o ho
      exact (ih (List.forall_mem_cons.mp hts).2 o ho).mono (List.subset_cons_self _ _)
  | group _ ih =>
      obtain ⟨_, hinner⟩ := List.forall_mem_cons.mp hts
      intro o ho
      exact (ih (List.forall_mem_append.mp hinner).1 o ho).mono fun t ht => by simp [ht]
  | member _ ih => exact ih hts
  | conjunction _ ih => exact ih hts
  | and _ _ ihLeft ihRight | or _ _ ihLeft ihRight =>
      obtain ⟨hleft, hright⟩ := List.forall_mem_append.mp hts
      have hright := (List.forall_mem_cons.mp hright).2
      refine List.forall_mem_append.mpr ⟨?_, ?_⟩
      · intro o ho
        exact (ihLeft hleft o ho).mono (List.subset_append_left _ _)
      · intro o ho
        exact (ihRight hright o ho).mono fun t ht => by simp [ht]

/-- The operands of a text that is read as a condition are written with its tokens. -/
theorem within_of_ofText {text : String} (h : ofText text = .ok c) :
    ∃ ts, Token.scan text = .ok ts ∧ ∀ o ∈ c.operands, o.Within ts := by
  obtain ⟨ts, hscan, hc⟩ := ofText_eq_ok_iff.mp h
  exact ⟨ts, hscan, hc.within (Token.scan_eq_ok_iff.mp hscan).spelled⟩

/-- **A condition whose labels are defined never fails.**  A text that is read as a condition has an
answer on every record if every label in it is defined.  It fails on a record only with a fault that
names a label in it, one that is not defined, and no path in it is empty. -/
theorem optionalHolds_of_ofText {text : String} (h : ofText text = .ok c) :
    ∃ ts, Token.scan text = .ok ts ∧
      (∀ ctx : Context, ctx.Defines ts → ∀ item, ∃ b, optionalHolds ctx item (some text) = .ok b) ∧
      (∀ (ctx : Context) item fault, optionalHolds ctx item (some text) = .error fault →
        ctx.Lacks ts fault) ∧
      ∀ p, .path p ∈ c.operands → p ≠ [] := by
  obtain ⟨ts, hscan, hwithin⟩ := within_of_ofText h
  have htext (ctx : Context) (item : Item) :
      optionalHolds ctx item (some text) = c.holds ctx item := by
    rw [optionalHolds, textHolds, h]
    rfl
  have hlacks (ctx : Context) (item : Item) (fault : ExpressionFault)
      (hfault : optionalHolds ctx item (some text) = .error fault) : ctx.Lacks ts fault := by
    rw [htext] at hfault
    obtain ⟨o, ho, hfind⟩ := exists_find_of_holds hfault
    obtain ⟨hspelled, hsub⟩ := hwithin o ho
    exact (Operand.lacks_of_find hspelled hfind).mono hsub
  refine ⟨ts, hscan, ?_, hlacks, fun p hp => (hwithin _ hp).1.1⟩
  intro ctx hdefines item
  cases hholds : optionalHolds ctx item (some text) with
  | ok b => exact ⟨b, rfl⟩
  | error fault => exact absurd (hlacks ctx item fault hholds) hdefines.not_lacks

/-- A comparison with a number that cannot be read has an answer too, on every record. -/
theorem optionalHolds_of_ofText_unreadableNumber :
    let text := "#a.b < :n OR NOT attribute_exists(#c)"
    let ctx : Context := ⟨.ofList [("#a", "a"), ("#c", "c")], .ofList [(":n", .number "many")]⟩
    (∃ c, ofText text = .ok c) ∧ ∀ item, ∃ b, optionalHolds ctx item (some text) = .ok b := by
  intro text ctx
  have hscan : Token.scan text = .ok [.name "#a", .dot, .identifier "b", .comparison .lessThan,
      .value ":n", .or, .not, .identifier "attribute_exists", .leftParen, .name "#c",
      .rightParen] := by decide +kernel
  have hless : Derives .conjunction
      [.name "#a", .dot, .identifier "b", .comparison .lessThan, .value ":n"]
      (.compare .lessThan (.path ["#a", "b"]) (.value ":n")) :=
    .member (.simple (.compare .lessThan
      (.path (.more (.name "#a") (.single (.identifier "b")))) (.value ":n")))
  have hnot : Derives .conjunction
      [.not, .identifier "attribute_exists", .leftParen, .name "#c", .rightParen]
      (.not (.present ["#c"])) :=
    .member (.not (.simple (.present (by decide +kernel) (.single (.name "#c")))))
  have hread := ofText_eq_ok_iff.mpr ⟨_, hscan, hless.conjunction.or hnot⟩
  obtain ⟨ts, hts, hanswers, _⟩ := optionalHolds_of_ofText hread
  obtain rfl := Except.ok.inj (hscan.symm.trans hts)
  have hanswer : ∀ item, ∃ b, optionalHolds ctx item (some text) = .ok b := by
    refine hanswers ctx ⟨?_, ?_⟩
    · intro label h
      obtain rfl | rfl : label = "#a" ∨ label = "#c" := by simpa using h
      · decide
      · decide
    · intro label h
      obtain rfl : label = ":n" := by simpa using h
      decide
  exact ⟨⟨_, hread⟩, hanswer⟩

end Condition

end RecordStore
