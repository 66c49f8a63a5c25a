import RecordStore.Proofs.Store.Updating

/-!
# What is read back of a request

The texts of a request are put together from the clauses of its fields, and the store has to read them.
A descriptor of a map without entries has no clause: in a condition it leaves a gap between two `AND`s or
no text at all, and of an update that consists of such descriptors the opening word is all that is left.
None of these can be read.  They are the only texts of a request that cannot.

* `Fields.ReadsAsCondition`, `Fields.ReadsAsUpdate` — what can be read of a slot, by its fields;
* `readsAsCondition_of_spells`, `readsAsUpdate_of_forUpdate` — the slots of every request;
* `emitted_texts_read_back` — all of them together;
* `not_emitted_texts_read_back` — a map without entries.
-/

namespace RecordStore

/-- If a slot has a condition, it can be read exactly if no descriptor of a map is without entries. -/
def Fields.ReadsAsCondition (fields : Fields) (slot : Option String) : Prop :=
  ∀ text, slot = some text → ((∃ c, Condition.ofText text = .ok c) ↔ fields.IsProper)

/-- If a slot has an update, it can be read exactly if some field gives an action. -/
def Fields.ReadsAsUpdate (fields : Fields) (slot : Option String) : Prop :=
  ∀ text, slot = some text →
    ((∃ u, Update.ofText text = .ok u) ↔ ∃ e ∈ fields.entries, e.2.IsProper)

/-- A text that holds of a record or does not hold of it has been read. -/
theorem Condition.exists_of_textHolds {ctx : Context} {item : Item} {text : String} {b : Bool}
    (h : textHolds ctx item text = .ok b) : ∃ c, ofText text = .ok c := by
  obtain ⟨c, hc, _⟩ := bind_eq_ok h
  exact ⟨c, hc⟩

/-- **A slot that spells some fields** can be read exactly if they are proper. -/
theorem readsAsCondition_of_spells {ctx : Context} {slot : Option String} {fields : Fields}
    (h : Spells ctx slot fields) : fields.ReadsAsCondition slot := by
  rintro text rfl
  constructor
  · intro hread
    by_contra himproper
    obtain ⟨c, hc⟩ := hread
    obtain ⟨_, htext, hbroken⟩ := h.2 himproper
    obtain rfl := Option.some.inj htext
    obtain ⟨fault, hfault⟩ := hbroken.ofText
    rw [hfault] at hc
    cases hc
  · intro hproper
    obtain ⟨cs, hjoined, hdecide⟩ := h.1 hproper
    obtain ⟨b, hb, _⟩ := Clause.optionalHolds_joined hdecide .empty
    rw [← hjoined] at hb
    exact Condition.exists_of_textHolds hb

/-- The opening word of an update alone is no update. -/
theorem Update.ofText_nil : Update.ofText (Update.text []) = .error (.expectedPath none) := by
  decide +kernel

/-- Fields that give no action have the text of no action. -/
theorem Expressions.update_eq_of_improper {fields : Fields} {guard : Option Fields} {e : Expressions}
    (he : forUpdate fields guard = .ok e) {text : String} (htext : e.update = some text)
    (h : ∀ entry ∈ fields.entries, ¬ entry.2.IsProper) : text = Update.text [] := by
  obtain ⟨assignments, hassignments, hslot, _, hcontext⟩ := forUpdate_eq_ok he
  have hupdate := Clause.compiles_updateText assignments .empty Bindings.labelled_empty
  have hguard := Clause.compiles_conditionText (some guardScope) guard _ hupdate.2.1
  obtain ⟨parts, hdo, hparts⟩ := hupdate.2.2 e.context (by rw [hcontext]; exact hguard.1)
  have hnil : parts.flatten = [] := by
    refine List.flatten_eq_nil_iff.mpr ?_
    intro u hu
    obtain ⟨a, ha, hdoes⟩ := Compiles.exists_source hdo hu
    obtain ⟨entry, hentry, _, hassignment⟩ :=
      Compiles.exists_source (Clause.forall₂_assignmentsOf hassignments) ha
    by_contra hne
    exact h entry hentry ((Clause.isProper_iff hassignment).mpr (hdoes.1.mp hne))
  rw [hslot, hparts, hnil] at htext
  split at htext
  · cases htext
  · exact (Option.some.inj htext).symm

/-- **The update of a request** can be read exactly if some field gives an action. -/
theorem readsAsUpdate_of_forUpdate {fields : Fields} {guard : Option Fields} {e : Expressions}
    (he : Expressions.forUpdate fields guard = .ok e) : fields.ReadsAsUpdate e.update := by
  intro text htext
  constructor
  · intro hread
    by_contra hnone
    obtain ⟨u, hu⟩ := hread
    have hall : ∀ entry ∈ fields.entries, ¬ entry.2.IsProper := fun entry hentry hproper =>
      hnone ⟨entry, hentry, hproper⟩
    obtain rfl := Expressions.update_eq_of_improper he htext hall
    rw [Update.ofText_nil] at hu
    cases hu
  · intro hproper
    obtain ⟨_, u, hsame, hu, _⟩ := Expressions.exists_update he hproper
    obtain rfl := Option.some.inj (htext.symm.trans hsame)
    exact ⟨u, hu⟩

/-- **What a request emits can be read**, but for maps without entries.  The condition of some fields,
alone, as the filter of a scan, as the key condition or the filter of a query and as the guard of an
update, can be read exactly if no descriptor of these fields is a map without entries.  The update of
some fields, alone and with a guard, can be read exactly if some descriptor is not one. -/
theorem emitted_texts_read_back (fields : Fields) (tested : Option Fields) :
    (tested.getD .empty).ReadsAsCondition (Fields.conditionText tested) ∧
    (tested.getD .empty).ReadsAsCondition (Expressions.forScan tested).filter ∧
    fields.ReadsAsCondition (Expressions.forQuery fields tested).keyCondition ∧
    (tested.getD .empty).ReadsAsCondition (Expressions.forQuery fields tested).filter ∧
    (∀ slot, fields.updateText = .ok slot → fields.ReadsAsUpdate slot) ∧
    ∀ e, Expressions.forUpdate fields tested = .ok e →
      (tested.getD .empty).ReadsAsCondition e.condition ∧ fields.ReadsAsUpdate e.update := by
  have hscan : (tested.getD .empty).ReadsAsCondition (Expressions.forScan tested).filter :=
    readsAsCondition_of_spells (Expressions.spells_forScan (.refl _))
  refine ⟨hscan, hscan, readsAsCondition_of_spells (Expressions.spells_forQuery_key (.refl _)),
    readsAsCondition_of_spells (Expressions.spells_forQuery_filter (.refl _)), ?_, ?_⟩
  · intro slot hslot
    cases he : Expressions.forUpdate fields none with
    | error fault =>
        rw [Fields.updateText, he] at hslot
        cases hslot
    | ok e =>
        rw [Fields.updateText, he] at hslot
        obtain rfl := Except.ok.inj hslot
        exact readsAsUpdate_of_forUpdate he
  · intro e he
    exact ⟨readsAsCondition_of_spells (Expressions.spells_forUpdate he (.refl _)),
      readsAsUpdate_of_forUpdate he⟩

/-- A map without entries next to a text. -/
def emptyMapBesideText : Fields :=
  .ofList [("city", .equals (.string "x")), ("seen", .nested .empty)]

/-- Of a request with a map without entries the update can be read, and the guard cannot. -/
theorem emitted_texts_read_back_emptyMapBesideText :
    ∃ e, Expressions.forUpdate emptyMapBesideText (some emptyMapBesideText) = .ok e ∧
      (∃ text, e.update = some text ∧ ∃ u, Update.ofText text = .ok u) ∧
      ∃ text, e.condition = some text ∧ ¬ ∃ c, Condition.ofText text = .ok c := by
  have hslots : (Expressions.forUpdate emptyMapBesideText (some emptyMapBesideText)).map
      (fun e => (e.update, e.condition)) =
        .ok (some "set #city = :city", some "#city = :ifCity AND ") := by
    decide +kernel
  cases he : Expressions.forUpdate emptyMapBesideText (some emptyMapBesideText) with
  | error fault =>
      rw [he] at hslots
      cases hslots
  | ok e =>
      rw [he] at hslots
      obtain ⟨hupdate, hcondition⟩ := Prod.mk.inj (Except.ok.inj hslots)
      obtain ⟨hguard, hactions⟩ := (emitted_texts_read_back _ _).2.2.2.2.2 e he
      exact ⟨e, rfl, ⟨_, hupdate, (hactions _ hupdate).mpr (by decide)⟩,
        _, hcondition, fun hread => absurd ((hguard _ hcondition).mp hread) (by decide)⟩

/-- A map without entries. -/
def emptyMap : Fields := .ofList [("seen", .nested .empty)]

/-- **Some emitted texts cannot be read**, neither as a condition nor as an update. -/
theorem not_emitted_texts_read_back :
    (¬ ∀ fields text, Fields.conditionText fields = some text → ∃ c, Condition.ofText text = .ok c) ∧
      ¬ ∀ fields text, Fields.updateText fields = .ok (some text) → ∃ u, Update.ofText text = .ok u := by
  constructor
  · intro h
    have htext : Fields.conditionText (some emptyMap) = some "" := by decide +kernel
    have hbroken : Condition.Broken "" := ⟨[none], rfl, by simp [Condition.IsMember], by simp⟩
    obtain ⟨c, hc⟩ := h _ _ htext
    obtain ⟨fault, hfault⟩ := hbroken.ofText
    rw [hfault] at hc
    cases hc
  · intro h
    have htext : Fields.updateText emptyMap = .ok (some "set ") := by decide +kernel
    obtain ⟨u, hu⟩ := h _ _ htext
    rw [show "set " = Update.text [] from rfl, Update.ofText_nil] at hu
    cases hu

end RecordStore
