import RecordStore.Expressions
import RecordStore.Proofs.Compile.Actions
import RecordStore.Proofs.Compile.Conditions

/-!
# Compiled requests

All expressions of a request share one table of aliases and one of placeholders.  What an expression
was compiled to still means the same in the final tables, so each slot of a request can be read by
itself.

* `spells_forScan`, `spells_forQuery_key`, `spells_forQuery_filter`, `spells_forUpdate` — each slot, in
  the context of its request and in every larger one;
* `decides_of_isProper` — the conditions of a request mean what the fields say;
* `forUpdate_assigns` — the update of a request does what the fields say, all at once.
-/

namespace RecordStore

namespace Clause

/-- The assignments of a list of fields are theirs, one for one. -/
theorem forall₂_assignmentsOf {es : List (String × Descriptor)}
    {assignments : List (String × Assignment)} (h : assignmentsOf es = .ok assignments) :
    List.Forall₂ (fun e a => e.1 = a.1 ∧ e.2.assignment? = some a.2) es assignments := by
  induction es generalizing assignments with
  | nil =>
      obtain rfl := Except.ok.inj h
      exact .nil
  | cons e es ih =>
      obtain ⟨field, d⟩ := e
      rw [assignmentsOf] at h
      split at h
      · simp at h
      · rename_i a ha
        obtain ⟨rest, hrest, rfl⟩ := map_eq_ok h
        exact .cons ⟨rfl, ha⟩ (ih hrest)

/-- What an assignment makes of an attribute is what its descriptor says. -/
theorem outcome?_eq {d : Descriptor} {a : Assignment} (h : d.assignment? = some a)
    (old : Option Value) :
    ((a.outcome? old).isSome ↔ d.CanAssign old) ∧
      ∀ new, a.outcome? old = some new → new = d.assigned old := by
  cases d with
  | equals v =>
      obtain rfl := Option.some.inj h
      simp [Assignment.outcome?, Descriptor.CanAssign, Descriptor.assigned]
  | increment delta =>
      obtain rfl := Option.some.inj h
      cases old with
      | none => simp [Assignment.outcome?, Descriptor.CanAssign]
      | some v =>
          cases hx : v.toBinary64? <;> cases hy : delta.toBinary64? <;>
            simp [Assignment.outcome?, Descriptor.CanAssign, Descriptor.assigned, hx, hy]
  | nested entries =>
      obtain rfl := Option.some.inj h
      by_cases hnil : entries.entries = []
      · have hunion (m : Dict Value) : m.union entries.toDict = m := by
          simp [Dict.union, hnil]
        have hsame : (Descriptor.nested entries).assigned old = old := by
          unfold Descriptor.assigned
          split <;> simp_all
        simp [Assignment.outcome?_nested, Descriptor.CanAssign, hnil, hsame]
      · rw [Assignment.outcome?_nested, if_neg hnil]
        split
        · simp [Descriptor.CanAssign, Descriptor.assigned]
        · rename_i hmap
          simp [Descriptor.CanAssign, hnil]
          exact fun m => hmap m
  | _ => simp [Descriptor.assignment?] at h

/-- Assignments of fields, carried out one after the other, do what the fields say all at once. -/
theorem apply_fields {ctx : Context} {fields : Fields} {assignments : List (String × Assignment)}
    {parts : List Update} (hassignments : Clause.assignments fields = .ok assignments)
    (hdo : List.Forall₂ (fun e u => Do e.1 e.2 u ctx) assignments parts) (item : Item) :
    ((∃ changed, Update.apply ctx item parts.flatten = .ok changed) ↔
      ∀ e ∈ fields.entries, e.2.CanAssign (item.get? e.1)) ∧
    ∀ changed, Update.apply ctx item parts.flatten = .ok changed →
      ∀ name, changed.get? name = fields.assigned item name := by
  have hpairs := forall₂_assignmentsOf hassignments
  have hnames : assignments.map Prod.fst = fields.keys := by
    have hmap : List.Forall₂ (· = ·) (fields.entries.map Prod.fst) (assignments.map Prod.fst) :=
      List.forall₂_map_left_iff.mpr (List.forall₂_map_right_iff.mpr (hpairs.imp fun _ _ h => h.1))
    rw [List.forall₂_eq_eq_eq] at hmap
    exact hmap.symm
  have hnodup : (assignments.map Prod.fst).Nodup := by
    rw [hnames]
    exact fields.nodup_keys
  rcases apply_flatten hnodup hdo item with
    ⟨result, hresult, hdone, hrest⟩ | ⟨⟨err, herr⟩, a, ha, hnone⟩
  · refine ⟨⟨?_, fun _ => ⟨result, hresult⟩⟩, ?_⟩
    · intro _ e he
      obtain ⟨a, ha, hname, hassignment⟩ := Compiles.exists_result hpairs he
      refine (outcome?_eq hassignment _).1.mp ?_
      rw [hname, hdone a ha]
      rfl
    · intro changed hchanged name
      obtain rfl : result = changed := by simpa [hresult] using hchanged
      rw [Fields.assigned]
      cases hd : fields.get? name with
      | none =>
          have hkey : name ∉ assignments.map Prod.fst := by
            rw [hnames]
            exact Dict.get?_eq_none_iff.mp hd
          exact hrest name hkey
      | some d =>
          obtain ⟨a, ha, hname, hassignment⟩ :=
            Compiles.exists_result hpairs (fields.mem_entries_iff.mpr hd)
          have hname : name = a.1 := hname
          exact (outcome?_eq hassignment _).2 _ (by rw [hname]; exact hdone a ha)
  · obtain ⟨e, he, hname, hassignment⟩ := Compiles.exists_source hpairs ha
    have hcannot : ¬ e.2.CanAssign (item.get? e.1) := by
      rw [← (outcome?_eq hassignment _).1, hname, hnone]
      simp
    refine ⟨⟨fun ⟨changed, hchanged⟩ => ?_, fun hall => absurd (hall e he) hcannot⟩,
      fun changed hchanged => ?_⟩
    · simp [herr] at hchanged
    · simp [herr] at hchanged

/-- An assignment lists as much as its descriptor. -/
theorem isProper_iff {d : Descriptor} {a : Assignment} (h : d.assignment? = some a) :
    d.IsProper ↔ a.IsProper := by
  cases d with
  | equals v | increment v | nested entries =>
      obtain rfl := Option.some.inj h
      exact Iff.rfl
  | _ => simp [Descriptor.assignment?] at h

/-- Compiled assignments, and their expression unless there are none. -/
theorem compiles_updateText (assignments : List (String × Assignment)) :
    Compiles (updateText assignments) fun slot ctx =>
      ∃ parts, List.Forall₂ (fun e u => Do e.1 e.2 u ctx) assignments parts ∧
        slot = if assignments = [] then none else some (Update.text parts.flatten) := by
  cases assignments with
  | nil => exact .pure fun ctx => ⟨[], .nil, rfl⟩
  | cons e es =>
      have hparts := Compiles.mapM (e :: es) fun a _ => compiles_actions a.1 a.2
      refine (hparts.map fun parts => some (Update.text parts.flatten)).imp ?_
      intro slot ctx h
      obtain ⟨parts, hdo, rfl⟩ := h
      exact ⟨parts, hdo, rfl⟩

end Clause

/-- A slot spells some fields: conditions that decide whether they hold, or no expression at all if the
fields are not proper. -/
def Spells (ctx : Context) (slot : Option String) (fields : Fields) : Prop :=
  (fields.IsProper → ∃ cs, slot = Clause.joined cs ∧ Condition.DecideAll ctx cs fields.Hold) ∧
    (¬ fields.IsProper → ∃ text, slot = some text ∧ Condition.Broken text)

namespace Expressions

/-- A slot of a request gives an answer on every record: whether the record has a property. -/
def Decides (e : Expressions) (slot : Option String) (P : Item → Prop) : Prop :=
  ∀ item, ∃ b, Condition.optionalHolds e.context item slot = .ok b ∧ (b = true ↔ P item)

/-- A slot that spells proper fields decides them. -/
theorem decides_of_spells {e : Expressions} {slot : Option String} {fields : Fields}
    (h : Spells e.context slot fields) (hproper : fields.IsProper) : e.Decides slot fields.Hold := by
  intro item
  obtain ⟨cs, hslot, hdecide⟩ := h.1 hproper
  rw [hslot]
  exact Clause.optionalHolds_joined hdecide item

/-- Leaving out an empty table changes nothing. -/
theorem context_withBindings (e : Expressions) (b : Bindings) :
    (e.withBindings b).context = b.context := by
  have table {α : Type} (d : OrderedDict α) :
      (if d.isEmpty then none else some d).getD .empty = d := by
    split
    · rename_i h
      have hentries : d.entries = [] := Dict.isEmpty_iff.mp h
      refine OrderedDict.ext ?_
      intro k
      rw [Dict.get?, Dict.get?, hentries]
      rfl
    · rfl
  exact congr (congrArg Context.mk (table b.names)) (table b.values)

section Slots

variable {ctx : Context}

/-- The context of a scan is labelled. -/
theorem labelled_forScan (filter : Option Fields) : (forScan filter).context.Labelled := by
  have hfilter := Clause.compiles_conditionText none filter .empty Bindings.labelled_empty
  have hcontext : (forScan filter).context = _ := context_withBindings _ _
  rw [hcontext]
  exact hfilter.2.1

/-- The filter of a scan spells its fields. -/
theorem spells_forScan {filter : Option Fields} (h : (forScan filter).context.Within ctx) :
    Spells ctx (forScan filter).filter (filter.getD .empty) := by
  have hfilter := Clause.compiles_conditionText none filter .empty Bindings.labelled_empty
  have hcontext : (forScan filter).context = _ := context_withBindings _ _
  rw [hcontext] at h
  exact hfilter.2.2 ctx h

/-- The context of a query is labelled. -/
theorem labelled_forQuery (key : Fields) (filter : Option Fields) :
    (forQuery key filter).context.Labelled := by
  have hkey := Clause.compiles_conditionText none (some key) .empty Bindings.labelled_empty
  have hfilter := Clause.compiles_conditionText none filter _ hkey.2.1
  have hcontext : (forQuery key filter).context = _ := context_withBindings _ _
  rw [hcontext]
  exact hfilter.2.1

/-- The key condition of a query spells its key. -/
theorem spells_forQuery_key {key : Fields} {filter : Option Fields}
    (h : (forQuery key filter).context.Within ctx) :
    Spells ctx (forQuery key filter).keyCondition key := by
  have hkey := Clause.compiles_conditionText none (some key) .empty Bindings.labelled_empty
  have hfilter := Clause.compiles_conditionText none filter _ hkey.2.1
  have hcontext : (forQuery key filter).context = _ := context_withBindings _ _
  rw [hcontext] at h
  exact hkey.2.2 ctx (hfilter.1.trans h)

/-- Its filter spells its fields. -/
theorem spells_forQuery_filter {key : Fields} {filter : Option Fields}
    (h : (forQuery key filter).context.Within ctx) :
    Spells ctx (forQuery key filter).filter (filter.getD .empty) := by
  have hkey := Clause.compiles_conditionText none (some key) .empty Bindings.labelled_empty
  have hfilter := Clause.compiles_conditionText none filter _ hkey.2.1
  have hcontext : (forQuery key filter).context = _ := context_withBindings _ _
  rw [hcontext] at h
  exact hfilter.2.2 ctx h

/-- What an update request is made of. -/
theorem forUpdate_eq_ok {fields : Fields} {guard : Option Fields} {e : Expressions}
    (h : forUpdate fields guard = .ok e) :
    ∃ assignments, Clause.assignments fields = .ok assignments ∧
      e.update = ((Clause.updateText assignments).run .empty).1 ∧
      e.condition = ((Clause.conditionText (some guardScope) guard).run
        ((Clause.updateText assignments).run .empty).2).1 ∧
      e.context = ((Clause.conditionText (some guardScope) guard).run
        ((Clause.updateText assignments).run .empty).2).2.context := by
  rw [forUpdate] at h
  split at h
  · simp at h
  · rename_i assignments hassignments
    obtain rfl := Except.ok.inj h
    exact ⟨assignments, hassignments, rfl, rfl, context_withBindings _ _⟩

/-- The guard of an update spells its fields. -/
theorem spells_forUpdate {fields : Fields} {guard : Option Fields} {e : Expressions}
    (he : forUpdate fields guard = .ok e) (h : e.context.Within ctx) :
    Spells ctx e.condition (guard.getD .empty) := by
  obtain ⟨assignments, _, _, hcondition, hcontext⟩ := forUpdate_eq_ok he
  have hupdate := Clause.compiles_updateText assignments .empty Bindings.labelled_empty
  have hguard := Clause.compiles_conditionText (some guardScope) guard _ hupdate.2.1
  rw [hcondition]
  rw [hcontext] at h
  exact hguard.2.2 ctx h

end Slots

/-- **Compiled conditions mean what the fields say.**  Each slot of a request gives an answer on every
record, and the answer is whether the fields hold: the filter of a scan, the key condition and the
filter of a query, and the guard of an update. -/
theorem decides_of_isProper {fields : Fields} (hproper : fields.IsProper) :
    (forScan (some fields)).Decides (forScan (some fields)).filter fields.Hold ∧
    (∀ filter, (forQuery fields filter).Decides (forQuery fields filter).keyCondition fields.Hold) ∧
    (∀ key, (forQuery key (some fields)).Decides (forQuery key (some fields)).filter fields.Hold) ∧
    ∀ update e, forUpdate update (some fields) = .ok e → e.Decides e.condition fields.Hold := by
  refine ⟨?_, ?_, ?_, ?_⟩
  · exact decides_of_spells (spells_forScan (.refl _)) hproper
  · intro filter
    exact decides_of_spells (spells_forQuery_key (.refl _)) hproper
  · intro key
    exact decides_of_spells (spells_forQuery_filter (.refl _)) hproper
  · intro update e he
    exact decides_of_spells (spells_forUpdate he (.refl _)) hproper

/-- Two fields with one spelling, one of them a map. -/
def sharedSpelling : Fields :=
  .ofList [("a b", .either (.string "x") (.string "y")),
    ("aB", .nested (.ofList [("a b", .bool true)]))]

/-- The slots of requests for two fields with one spelling. -/
theorem decides_sharedSpelling :
    sharedSpelling.IsProper ∧
      (forScan (some sharedSpelling)).Decides (forScan (some sharedSpelling)).filter
        sharedSpelling.Hold ∧
      (forQuery sharedSpelling (some sharedSpelling)).Decides
        (forQuery sharedSpelling (some sharedSpelling)).filter sharedSpelling.Hold := by
  have hproper : sharedSpelling.IsProper := by decide
  exact ⟨hproper, (decides_of_isProper hproper).1, (decides_of_isProper hproper).2.2.1 _⟩

/-- Fields that cannot be assigned make no update. -/
theorem forUpdate_of_error {fields : Fields} {fault : ArgumentFault}
    (h : Clause.assignments fields = .error fault) (guard : Option Fields) :
    forUpdate fields guard = .error (.argument fault) := by
  rw [forUpdate, h]

/-- Fields that can be assigned make one, whatever the guard. -/
theorem exists_forUpdate {fields : Fields} {assignments : List (String × Assignment)}
    (h : Clause.assignments fields = .ok assignments) (guard : Option Fields) :
    ∃ request, forUpdate fields guard = .ok request := by
  rw [forUpdate, h]
  exact ⟨_, rfl⟩

/-- Fields are assigned unless one of them says nothing of what becomes of an attribute. -/
theorem assignments_eq_ok_iff (fields : Fields) :
    (∃ assignments, Clause.assignments fields = .ok assignments) ↔
      ∀ e ∈ fields.entries, e.2.IsAssignable := by
  have hok := Clause.assignments_isOk_iff fields
  simp only [← Descriptor.isAssignable_iff] at hok
  rw [← hok]
  cases Clause.assignments fields <;> simp [Except.isOk, Except.toBool]

/-- **The update does what the fields say, all at once.**  It is refused for fields that say nothing of
what becomes of an attribute, and for no other reason.  If there is anything to do, its expression is
read back and carried out on exactly the records that all fields can be assigned to, and each
attribute becomes what its field says of the record as it was. -/
theorem forUpdate_assigns (fields : Fields) (guard : Option Fields) :
    ((∃ e ∈ fields.entries, ¬ e.2.IsAssignable) →
      ∃ fault, forUpdate fields guard = .error (.argument fault)) ∧
    ((∀ e ∈ fields.entries, e.2.IsAssignable) →
      ∃ request, forUpdate fields guard = .ok request ∧
        ((∃ e ∈ fields.entries, e.2.IsProper) →
          ∃ text update, request.update = some text ∧ Update.ofText text = .ok update ∧
            ∀ item,
              ((∃ changed, update.apply request.context item = .ok changed) ↔
                ∀ e ∈ fields.entries, e.2.CanAssign (item.get? e.1)) ∧
              ∀ changed, update.apply request.context item = .ok changed →
                (∀ name, changed.get? name = fields.assigned item name) ∧
                  (item.Sorted → changed.Sorted))) := by
  constructor
  · intro hrefused
    obtain ⟨e, he, hnot⟩ := hrefused
    cases hassignments : Clause.assignments fields with
    | error fault => exact ⟨fault, forUpdate_of_error hassignments guard⟩
    | ok assignments =>
        exact absurd ((assignments_eq_ok_iff fields).mp ⟨assignments, hassignments⟩ e he) hnot
  · intro hassignable
    obtain ⟨assignments, hassignments⟩ := (assignments_eq_ok_iff fields).mpr hassignable
    obtain ⟨request, hrequest⟩ := exists_forUpdate hassignments guard
    refine ⟨request, hrequest, ?_⟩
    intro hproper
    obtain ⟨_, hsame, hslot, _, hcontext⟩ := forUpdate_eq_ok hrequest
    obtain rfl := Except.ok.inj (hassignments.symm.trans hsame)
    have hupdate := Clause.compiles_updateText assignments .empty Bindings.labelled_empty
    have hguard := Clause.compiles_conditionText (some guardScope) guard _ hupdate.2.1
    obtain ⟨parts, hdo, htext⟩ := hupdate.2.2 request.context (by rw [hcontext]; exact hguard.1)
    obtain ⟨e, he, hsays⟩ := hproper
    obtain ⟨a, ha, _, hassignment⟩ :=
      Compiles.exists_result (Clause.forall₂_assignmentsOf hassignments) he
    have hne : parts.flatten ≠ [] := by
      obtain ⟨u, hu, hdo⟩ := Compiles.exists_result hdo ha
      have hune : u ≠ [] := hdo.1.mpr ((Clause.isProper_iff hassignment).mp hsays)
      intro hnil
      exact hune (List.flatten_eq_nil_iff.mp hnil u hu)
    have hspelled : ∀ s ∈ parts.flatten, s.Spelled := by
      intro s hs
      obtain ⟨u, hu, hs⟩ := List.mem_flatten.mp hs
      obtain ⟨_, _, hdo⟩ := Compiles.exists_source hdo hu
      exact hdo.2.1 s hs
    have hsome : assignments ≠ [] := List.ne_nil_of_mem ha
    refine ⟨Update.text parts.flatten, parts.flatten, ?_,
      Update.ofText_text hne hspelled, fun item => ?_⟩
    · rw [hslot, htext, if_neg hsome]
    · obtain ⟨hiff, hall⟩ := Clause.apply_fields hassignments hdo item
      exact ⟨hiff, fun changed h => ⟨hall changed h, fun hsorted => Update.sorted_apply h hsorted⟩⟩

/-- Assignments of all three kinds. -/
def mixedAssignments : Fields :=
  .ofList [("count", .increment (.ofInt 2)), ("city", .equals (.string "x")),
    ("seen", .nested (.ofList [("at", .ofInt 1)]))]

/-- A record that all of them can be made in. -/
def mixedRecord : Item :=
  .ofList [("count", .ofInt 1), ("note", .string "n"),
    ("seen", .map (.ofList [("at", .ofInt 0), ("by", .string "a")]))]

/-- The record that they make of it. -/
def mixedResult : Item :=
  .ofList [("city", .string "x"), ("count", .ofInt 3), ("note", .string "n"),
    ("seen", .map (.ofList [("at", .ofInt 1), ("by", .string "a")]))]

/-- It has what they say in each attribute, and the note as it was. -/
theorem assigned_mixedRecord (name : String) :
    mixedAssignments.assigned mixedRecord name = mixedResult.get? name := by
  have hlisted : ∀ name ∈ ["city", "count", "note", "seen"],
      mixedAssignments.assigned mixedRecord name = mixedResult.get? name := by
    decide +kernel
  by_cases hname : name ∈ ["city", "count", "note", "seen"]
  · exact hlisted name hname
  · simp only [List.mem_cons, List.not_mem_nil, or_false, not_or] at hname
    simp [mixedAssignments, mixedRecord, mixedResult, Fields.assigned, Dict.ofList, OrderedDict.ofList,
      hname]

/-- What the update of these assignments can be carried out on, and what it makes of such a record. -/
theorem forUpdate_mixedAssignments :
    (∀ e ∈ mixedAssignments.entries, e.2.IsAssignable) ∧
      (∃ e ∈ mixedAssignments.entries, e.2.IsProper) ∧
      ∃ request, forUpdate mixedAssignments (some mixedAssignments) = .ok request ∧
        ∃ text update, request.update = some text ∧ Update.ofText text = .ok update ∧
          update.apply request.context mixedRecord = .ok mixedResult ∧
          ∀ item, (∃ changed, update.apply request.context item = .ok changed) ↔
            ∀ e ∈ mixedAssignments.entries, e.2.CanAssign (item.get? e.1) := by
  have hassignable : ∀ e ∈ mixedAssignments.entries, e.2.IsAssignable := by decide
  have hproper : ∃ e ∈ mixedAssignments.entries, e.2.IsProper := by decide
  have hcan : ∀ e ∈ mixedAssignments.entries, e.2.CanAssign (mixedRecord.get? e.1) := by
    decide +kernel
  obtain ⟨request, hrequest, hrest⟩ :=
    (forUpdate_assigns mixedAssignments (some mixedAssignments)).2 hassignable
  obtain ⟨text, update, htext, hupdate, hall⟩ := hrest hproper
  obtain ⟨changed, hchanged⟩ := (hall mixedRecord).1.mpr hcan
  obtain ⟨hget, hsorted⟩ := (hall mixedRecord).2 changed hchanged
  obtain rfl : changed = mixedResult :=
    Dict.ext (hsorted (Dict.sorted_ofList _)) (Dict.sorted_ofList _) fun name =>
      (hget name).trans (assigned_mixedRecord name)
  exact ⟨hassignable, hproper, request, hrequest, text, update, htext, hupdate, hchanged,
    fun item => (hall item).1⟩

end Expressions

end RecordStore
