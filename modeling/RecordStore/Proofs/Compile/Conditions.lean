import RecordStore.Proofs.Compile.Deciding
import RecordStore.Proofs.Expression.Gap
import RecordStore.Proofs.Fields

/-!
# Compiled conditions mean what the fields say

Each descriptor compiles to conditions that decide whether it admits the attribute, and the written
conditions of a set of fields decide whether the fields hold.

A descriptor of a map without entries compiles to no condition at all and leaves a gap in the written
conjunction; a set of fields is proper if it has no such descriptor, and only then is its text an
expression.

* `compiles_conditions` — one descriptor;
* `compiles_conditionText` — a set of fields.
-/

namespace RecordStore

namespace Context

variable {ctx : Context}

/-- The alias of a field finds the attribute with its name. -/
theorem Names.finds {label name : String} (h : ctx.Names label name) :
    Operand.Finds ctx (.path [label]) fun item => item.get? name :=
  ⟨Path.spelled_singleton h.isSegment, h.resolve⟩

/-- Two aliases find an entry of a map. -/
theorem Names.finds_pair {outer inner field entry : String} (ho : ctx.Names outer field)
    (hi : ctx.Names inner entry) :
    Operand.Finds ctx (.path [outer, inner]) fun item =>
      ((item.get? field).bind Value.entries?).bind fun d => d.get? entry :=
  ⟨Path.spelled_pair ho.isSegment hi.isSegment, ho.resolve_pair hi⟩

end Context

namespace Clause

open Condition

/-- The attribute of a field is there and has a value that a descriptor admits. -/
def AdmitsAt (field : String) (d : Descriptor) (item : Item) : Prop :=
  ∃ v, item.get? field = some v ∧ d.Admits v

/-- Conditions decide what a descriptor says of its field; there are none only if it says nothing. -/
def Mean (field : String) (d : Descriptor) (cs : List Condition) (ctx : Context) : Prop :=
  (cs ≠ [] ↔ d.IsProper) ∧ DecideAll ctx cs fun item => d.IsProper → AdmitsAt field d item

theorem mean_singleton {field : String} {d : Descriptor} {c : Condition} {ctx : Context}
    (hproper : d.IsProper) (halone : c.isAnd = false) (hc : c.Decides ctx (AdmitsAt field d)) :
    Mean field d [c] ctx := by
  refine ⟨by simp [hproper], DecideAll.singleton (hc.congr fun item => ?_) halone⟩
  exact ⟨fun h _ => h, fun h => h hproper⟩

/-- A test of the attribute against one value. -/
theorem compiles_test {field path : String} {d : Descriptor} {v : Value}
    {t : Operand → Operand → Condition} (hproper : d.IsProper)
    (halone : ∀ a p, (t a p).isAnd = false)
    (hdecides : ∀ ctx a p, ctx.Names a field → ctx.Gives p v →
      (t (.path [a]) p).Decides ctx (AdmitsAt field d)) :
    Compiles (do
      let a ← Bindings.aliasOf field
      let p ← bindValue path v
      return [t (.path [a]) p]) (Mean field d) := by
  have hvalue (a : String) := (compiles_bindValue path v).map fun p => [t (.path [a]) p]
  refine ((compiles_aliasOf field).bind hvalue).imp ?_
  intro cs ctx h
  obtain ⟨a, ha, p, hp, rfl⟩ := h
  exact mean_singleton hproper (halone _ p) (hdecides ctx a p ha hp)

/-- A test of the attribute against two values. -/
theorem compiles_test_two {field path : String} {d : Descriptor} {v w : Value}
    {t : Operand → Operand → Operand → Condition} (hproper : d.IsProper)
    (halone : ∀ a p q, (t a p q).isAnd = false)
    (hdecides : ∀ ctx a p q, ctx.Names a field → ctx.Gives p v → ctx.Gives q w →
      (t (.path [a]) p q).Decides ctx (AdmitsAt field d)) :
    Compiles (do
      let a ← Bindings.aliasOf field
      let p ← bindIndexed path 0 v
      let q ← bindIndexed path 1 w
      return [t (.path [a]) p q]) (Mean field d) := by
  have hsecond (a : String) (p : Operand) := (compiles_bindIndexed path 1 w).map
    fun q => [t (.path [a]) p q]
  have hfirst (a : String) := (compiles_bindIndexed path 0 v).bind (hsecond a)
  refine ((compiles_aliasOf field).bind hfirst).imp ?_
  intro cs ctx h
  obtain ⟨a, ha, p, hp, q, hq, rfl⟩ := h
  exact mean_singleton hproper (halone _ p q) (hdecides ctx a p q ha hp hq)

/-- An entry of the map in a field is there and has a value. -/
def EntryAt (field : String) (entry : String × Value) (item : Item) : Prop :=
  ∃ w, (((item.get? field).bind Value.entries?).bind fun d => d.get? entry.1) = some w ∧
    w.same entry.2

/-- A map with at least one entry listed is admitted if each listed entry is there. -/
theorem forall_entryAt_iff {field : String} {entries : OrderedDict Value}
    (hne : entries.entries ≠ []) (item : Item) :
    (∀ e ∈ entries.entries, EntryAt field e item) ↔ AdmitsAt field (.nested entries) item := by
  constructor
  · intro h
    obtain ⟨e, he⟩ := List.exists_mem_of_ne_nil _ hne
    obtain ⟨w, hw, _⟩ := h e he
    obtain ⟨m, hm, _⟩ := Option.bind_eq_some_iff.mp hw
    obtain ⟨v, hv, hmap⟩ := Option.bind_eq_some_iff.mp hm
    have hvm : v = .map m := Value.entries?_eq_some_iff.mp hmap
    refine ⟨v, hv, m, hvm, ?_⟩
    intro e he
    simpa [EntryAt, hv, hmap] using h e he
  · rintro ⟨v, hv, m, rfl, h⟩ e he
    obtain ⟨w, hw, hsame⟩ := h e he
    exact ⟨w, by simp [hv, Value.entries?, hw], hsame⟩

/-- The test of one entry of a map. -/
theorem compiles_entry (field path : String) (entry : String × Value) :
    Compiles (do
      let (path, p) ← bindEntry field path entry
      return Condition.compare .equal (.path path) p) fun c ctx =>
        c.isAnd = false ∧ c.Decides ctx (EntryAt field entry) := by
  refine ((compiles_bindEntry field path entry).map
    fun r => Condition.compare .equal (.path r.1) r.2).imp fun c ctx h => ?_
  obtain ⟨r, ⟨outer, inner, hpath, houter, hinner, hp⟩, rfl⟩ := h
  rw [hpath]
  exact ⟨rfl, Decides.compare (houter.finds_pair hinner) hp .equal⟩

/-- The tests of the entries of a map. -/
theorem compiles_entries (field path : String) (entries : OrderedDict Value) :
    Compiles (do
      let _ ← Bindings.aliasOf field
      entries.entries.mapM fun entry => do
        let (path, p) ← bindEntry field path entry
        return Condition.compare .equal (.path path) p) (Mean field (.nested entries)) := by
  have hentries := Compiles.mapM entries.entries fun e _ => compiles_entry field path e
  refine ((compiles_aliasOf field).bind fun _ => hentries).imp ?_
  intro cs ctx h
  obtain ⟨_, _, hcs⟩ := h
  constructor
  · rw [Descriptor.IsProper, ne_eq, ne_eq, ← List.length_eq_zero_iff, ← List.length_eq_zero_iff,
      hcs.length_eq]
  · have hall : DecideAll ctx cs fun item => ∀ e ∈ entries.entries, EntryAt field e item :=
      DecideAll.of_forall₂ hcs
    by_cases hne : entries.entries = []
    · refine hall.congr ?_
      intro item
      simp [hne, Descriptor.IsProper]
    · refine hall.congr ?_
      intro item
      rw [forall_entryAt_iff hne]
      exact ⟨fun h _ => h, fun h => h hne⟩

/-- **One descriptor.**  Its conditions mean what it says. -/
theorem compiles_conditions (scope : Option String) (field : String) (d : Descriptor) :
    Compiles (conditions scope field d) (Mean field d) := by
  cases d with
  | equals w | increment w =>
      exact compiles_test trivial (fun _ _ => rfl) fun ctx a p ha hp =>
        Decides.compare ha.finds hp .equal
  | lessThan w =>
      refine compiles_test trivial (fun _ _ => rfl) fun ctx a p ha hp =>
        (Decides.compare ha.finds hp .lessThan).congr fun item => ?_
      simp [AdmitsAt, Descriptor.Admits, Comparison.holds]
  | lessOrEqual w =>
      refine compiles_test trivial (fun _ _ => rfl) fun ctx a p ha hp =>
        (Decides.compare ha.finds hp .lessOrEqual).congr fun item => ?_
      simp [AdmitsAt, Descriptor.Admits, Comparison.holds]
  | greaterOrEqual w =>
      refine compiles_test trivial (fun _ _ => rfl) fun ctx a p ha hp =>
        (Decides.compare ha.finds hp .greaterOrEqual).congr fun item => ?_
      simp [AdmitsAt, Descriptor.Admits, Comparison.holds]
  | beginsWith w =>
      refine compiles_test trivial (fun _ _ => rfl) fun ctx a p ha hp =>
        (Decides.beginsWith ha.finds hp).congr fun item => ?_
      simp [AdmitsAt, Descriptor.Admits, Value.beginsWith_iff]
  | between low high =>
      refine compiles_test_two trivial (fun _ _ _ => rfl) fun ctx a p q ha hp hq =>
        (Decides.between ha.finds hp hq).congr fun item => ?_
      simp [AdmitsAt, Descriptor.Admits, Comparison.holds]
  | either first second =>
      refine compiles_test_two (t := fun a p q => .or (.compare .equal a p) (.compare .equal a q))
        trivial (fun _ _ _ => rfl) fun ctx a p q ha hp hq =>
          ((Decides.compare ha.finds hp .equal).or (Decides.compare ha.finds hq .equal)).congr
            fun item => ?_
      simp [AdmitsAt, Descriptor.Admits, Comparison.holds, and_or_left, exists_or]
  | nested entries => exact compiles_entries field (within scope field) entries

/-- The members that a clause has in a conjunction of clauses; an empty clause leaves a gap. -/
def members (cs : List Condition) : List (Option Condition) :=
  if cs = [] then [none] else cs.map some

theorem text_eq_members (cs : List Condition) :
    text cs = " AND ".intercalate ((members cs).map memberText) := by
  by_cases h : cs = []
  · rw [members, if_pos h, h]
    rfl
  · rw [members, if_neg h, List.map_map]
    rfl

/-- Clauses with `AND` between them are their members with `AND` between them. -/
theorem intercalate_text (clauses : List (List Condition)) :
    " AND ".intercalate (clauses.map text)
      = " AND ".intercalate ((clauses.flatMap members).map memberText) := by
  have hne : ∀ part ∈ clauses.map fun cs => (members cs).map memberText, part ≠ [] := by
    intro part hpart
    obtain ⟨cs, _, rfl⟩ := List.mem_map.mp hpart
    by_cases h : cs = [] <;> simp [members, h]
  have hflatten : " AND ".intercalate _ = " AND ".intercalate _ := intercalate_flatten hne
  rw [← List.flatMap_def, ← List.map_flatMap, List.map_map] at hflatten
  rw [← hflatten]
  congr 1
  exact List.map_congr_left fun cs _ => text_eq_members cs

theorem intercalate_text_of_ne_nil {clauses : List (List Condition)} (h : ∀ cs ∈ clauses, cs ≠ []) :
    " AND ".intercalate (clauses.map text) = text clauses.flatten := by
  have hmembers : clauses.flatMap members = clauses.flatten.map some := by
    rw [List.map_flatten, List.flatMap_def]
    congr 1
    exact List.map_congr_left fun cs hcs => by rw [members, if_neg (h cs hcs)]
  rw [intercalate_text, hmembers, List.map_map]
  rfl

/-- The clauses of improper fields leave a gap. -/
theorem broken_clauses {fields : Fields} {clauses : List (List Condition)} {ctx : Context}
    (himproper : ¬ fields.IsProper)
    (h : List.Forall₂ (fun e cs => Mean e.1 e.2 cs ctx) fields.entries clauses) :
    Broken (" AND ".intercalate (clauses.map text)) := by
  refine ⟨clauses.flatMap members, intercalate_text clauses, ?_, ?_⟩
  · intro m hm
    obtain ⟨cs, hcs, hm⟩ := List.mem_flatMap.mp hm
    obtain ⟨e, _, hmean⟩ := Compiles.exists_source h hcs
    intro c hc
    rw [members, hc] at hm
    split at hm
    · simp at hm
    · exact hmean.2.1 c (by simpa using hm)
  · obtain ⟨e, he, hnot⟩ : ∃ e ∈ fields.entries, ¬ e.2.IsProper := by
      simpa [Fields.IsProper] using himproper
    obtain ⟨cs, hcs, hmean⟩ := Compiles.exists_result h he
    have hnil : cs = [] := Classical.byContradiction fun hne => hnot (hmean.1.mp hne)
    exact List.mem_flatMap.mpr ⟨cs, hcs, by simp [members, hnil]⟩

/-- The expression of a list of conditions; absent if there is none. -/
def joined (cs : List Condition) : Option String := if cs.isEmpty then none else some (text cs)

/-- The expression of conditions that decide a property is read back and decides it. -/
theorem optionalHolds_joined {ctx : Context} {cs : List Condition} {P : Item → Prop}
    (h : DecideAll ctx cs P) (item : Item) :
    ∃ b, optionalHolds ctx item (joined cs) = .ok b ∧ (b = true ↔ P item) := by
  cases cs with
  | nil => exact ⟨true, rfl, by simpa using (h.2 item).2⟩
  | cons c cs => exact h.textHolds (by simp) item

/-- The clauses of proper fields, all together, decide whether the fields hold. -/
theorem decideAll_clauses {fields : Fields} {clauses : List (List Condition)} {ctx : Context}
    (hproper : fields.IsProper)
    (h : List.Forall₂ (fun e cs => Mean e.1 e.2 cs ctx) fields.entries clauses) :
    (∀ cs ∈ clauses, cs ≠ []) ∧ DecideAll ctx clauses.flatten fields.Hold := by
  constructor
  · intro cs hcs
    obtain ⟨e, he, hmean⟩ := Compiles.exists_source h hcs
    exact hmean.1.mpr (hproper e he)
  · refine (DecideAll.flatten (h.imp fun _ _ hmean => hmean.2)).congr ?_
    intro item
    exact ⟨fun hall e he => hall e he (hproper e he), fun hhold e he _ => hhold e he⟩

/-- Fields that are proper, and not all absent, give at least one clause. -/
theorem flatten_clauses_ne_nil {fields : Fields} {clauses : List (List Condition)} {ctx : Context}
    (hproper : fields.IsProper) (hfields : fields.entries ≠ [])
    (h : List.Forall₂ (fun e cs => Mean e.1 e.2 cs ctx) fields.entries clauses) :
    clauses.flatten ≠ [] := by
  obtain ⟨e, he⟩ := List.exists_mem_of_ne_nil _ hfields
  obtain ⟨cs, hcs, _⟩ := Compiles.exists_result h he
  intro hnil
  exact (decideAll_clauses hproper h).1 cs hcs (List.flatten_eq_nil_iff.mp hnil cs hcs)

/-- The expression of fields that are not all absent joins their clauses. -/
theorem conditionText_of_ne_nil (scope : Option String) {fields : Fields}
    (h : fields.entries ≠ []) :
    conditionText scope (some fields) =
      (fun clauses => some (" AND ".intercalate (clauses.map text))) <$> allConditions scope fields := by
  rw [conditionText, if_neg (mt Dict.isEmpty_iff.mp h)]
  rfl

/-- **A set of fields.**  Its expression is that of conditions that decide whether the fields hold, or,
if the fields are not proper, no expression at all. -/
theorem compiles_conditionText (scope : Option String) (fields : Option Fields) :
    Compiles (conditionText scope fields) fun slot ctx =>
      ((fields.getD .empty).IsProper →
        ∃ cs, slot = joined cs ∧ DecideAll ctx cs (fields.getD .empty).Hold) ∧
      (¬ (fields.getD .empty).IsProper → ∃ text, slot = some text ∧ Broken text) := by
  have absent {fields : Fields} (hempty : fields.entries = []) :
      Compiles (pure none : StateM Bindings (Option String)) fun slot ctx =>
        (fields.IsProper → ∃ cs, slot = joined cs ∧ DecideAll ctx cs fields.Hold) ∧
        (¬ fields.IsProper → ∃ text, slot = some text ∧ Broken text) := by
    have hproper : fields.IsProper := by simp [Fields.IsProper, hempty]
    refine .pure fun ctx => ⟨fun _ => ⟨[], rfl, DecideAll.nil.congr fun item => ?_⟩,
      fun himproper => absurd hproper himproper⟩
    simp [Fields.Hold, hempty]
  cases fields with
  | none => exact @absent .empty rfl
  | some fields =>
      by_cases hempty : fields.entries = []
      · rw [conditionText, if_pos (Dict.isEmpty_iff.mpr hempty)]
        exact absent hempty
      · have hclauses := Compiles.mapM fields.entries fun e _ => compiles_conditions scope e.1 e.2
        rw [conditionText_of_ne_nil scope hempty]
        refine (hclauses.map _).imp ?_
        intro slot ctx h
        obtain ⟨clauses, hmean, rfl⟩ := h
        refine ⟨fun hproper => ?_, fun himproper => ⟨_, rfl, broken_clauses himproper hmean⟩⟩
        obtain ⟨hne, hdecide⟩ := decideAll_clauses hproper hmean
        have hsome : ¬ clauses.flatten.isEmpty :=
          mt List.isEmpty_iff.mp (flatten_clauses_ne_nil hproper hempty hmean)
        refine ⟨clauses.flatten, ?_, hdecide⟩
        rw [intercalate_text_of_ne_nil hne, joined, if_neg hsome]

end Clause

end RecordStore
