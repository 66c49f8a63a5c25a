import RecordStore.Proofs.Compile.Accounts
import RecordStore.Proofs.Compile.Requests

/-!
# How fields were built does not show

A set of fields can be built in many ways: name by name, with corrections on the way, from a record,
from a list, or out of two other sets.  What is compiled from it depends only on what was said last of
each name.  Aliases are handed out along the names in increasing order, so that names with a shared
spelling get their numbers in this order, whichever of them came first.

* `Fields.Construction` — the ways to build a set of fields, and `fields`, what they build;
* `Fields.Construction.last` — what was said last of a name;
* `Fields.Construction.get?_fields` — the set that is built says of each name what was said last;
* `Expressions.names_eq_foldl` — the aliases of a request, in the order in which they are handed out;
* `Fields.Construction.compile_alike` — two ways that agree on that give the same set in the same order,
  and the same of everything that is compiled from it.
-/

namespace RecordStore

namespace Fields

/-- A way to build a set of fields. -/
inductive Construction where
  /-- Nothing is said yet. -/
  | empty
  /-- One more field, over what was said of it before. -/
  | insert (before : Construction) (name : String) (d : Descriptor)
  /-- One field less. -/
  | remove (before : Construction) (name : String)
  /-- Two sets as one; the second one counts where both say something. -/
  | merged (first second : Construction)
  /-- Equality with each attribute of a record. -/
  | ofItem (item : Item)
  /-- The fields of a list. -/
  | ofList (pairs : List (String × Descriptor))

namespace Construction

/-- The set of fields that is built. -/
def fields : Construction → Fields
  | .empty => OrderedDict.empty
  | .insert before name d => before.fields.insert name d
  | .remove before name => before.fields.erase name
  | .merged first second => first.fields.union second.fields
  | .ofItem item => Fields.ofItem item
  | .ofList pairs => OrderedDict.ofList pairs

/-- What was said last of a name, if it was not taken back. -/
def last : Construction → String → Option Descriptor
  | .empty, _ => none
  | .insert before name d, n => if n = name then some d else before.last n
  | .remove before name, n => if n = name then none else before.last n
  | .merged first second, n => (second.last n).or (first.last n)
  | .ofItem item, n => (Dict.lookup n item.entries.reverse).map .equals
  | .ofList pairs, n => Dict.lookup n pairs.reverse

/-- **The set that is built** says of each name what was said last of it. -/
theorem get?_fields (c : Construction) (name : String) : c.fields.get? name = c.last name := by
  induction c with
  | empty => rfl
  | insert before other d ih => rw [fields, OrderedDict.get?_insert, ih, last]
  | remove before other ih => rw [fields, OrderedDict.get?_erase, ih, last]
  | merged first second ihFirst ihSecond =>
      rw [fields, OrderedDict.get?_union, ihFirst, ihSecond, last]
  | ofItem item =>
      rw [fields, last, ← Dict.lookup_map, List.map_reverse]
      exact Dict.get?_ofList _ name
  | ofList pairs => exact Dict.get?_ofList pairs name

/-- Two ways agree on what was said last of each name. -/
def Agree (a b : Construction) : Prop := ∀ name, a.last name = b.last name

/-- Two ways build the same set exactly when they agree. -/
theorem fields_eq_iff {a b : Construction} : a.fields = b.fields ↔ a.Agree b := by
  constructor
  · intro h name
    rw [← get?_fields, ← get?_fields, h]
  · intro h
    refine OrderedDict.ext fun name => ?_
    rw [get?_fields, get?_fields, h]

/-- The entries of the set are the names that something was said of, with what was said last. -/
theorem mem_entries_fields_iff (c : Construction) {name : String} {d : Descriptor} :
    (name, d) ∈ c.fields.entries ↔ c.last name = some d := by
  rw [OrderedDict.mem_entries_iff, get?_fields]

end Construction

end Fields

namespace Clause

open Naming

variable {b : Bindings}

/-- Along the entries of a map field that has an alias, each entry name is given one. -/
theorem names_mapM_entries {α : Type} {f : String × Value → StateM Bindings α} {field a : String}
    (hf : ∀ e b, ((f e).run b).2.names = enter (enter b.names field) e.1)
    (es : List (String × Value)) (h : b.names.get? a = some field) :
    ((es.mapM f).run b).2.names = (es.map Prod.fst).foldl enter b.names := by
  induction es generalizing b with
  | nil => rfl
  | cons e rest ih =>
      have hstep : ((f e).run b).2.names = enter b.names e.1 := by rw [hf, enter_of_get? h]
      have hkept : ((f e).run b).2.names.get? a = some field := by
        rw [hstep]
        exact get?_aliasOf_of_get? h e.1
      have hrest := ih hkept
      rw [hstep] at hrest
      rw [List.mapM_cons]
      exact hrest

/-- The conditions of a field give an alias to its name, and then to each entry that it lists. -/
theorem names_conditions (scope : Option String) (field : String) (d : Descriptor) (b : Bindings) :
    ((conditions scope field d).run b).2.names = (field :: d.entryNames).foldl enter b.names := by
  cases d with
  | nested entries =>
      have hfield : ((Bindings.aliasOf field).run b).2.names.get? (aliasOf b.names field).1 =
        some field := get?_aliasOf b.names field
      exact names_mapM_entries (fun _ _ => rfl) entries.entries hfield
  | _ => rfl

/-- The actions of a field give an alias to the same names in the same order. -/
theorem names_actions (field : String) {d : Descriptor} {a : Assignment} (h : d.assignment? = some a)
    (b : Bindings) :
    ((actions field a).run b).2.names = (field :: d.entryNames).foldl enter b.names := by
  cases d with
  | nested entries =>
      obtain rfl := Option.some.inj h
      have hfield : ((Bindings.aliasOf field).run b).2.names.get? (aliasOf b.names field).1 =
        some field := get?_aliasOf b.names field
      exact names_mapM_entries (fun _ _ => rfl) entries.entries hfield
  | equals v | increment v =>
      obtain rfl := Option.some.inj h
      rfl
  | _ => cases h

theorem names_allConditions (scope : Option String) (fields : Fields) (b : Bindings) :
    ((allConditions scope fields).run b).2.names = fields.mentioned.foldl enter b.names := by
  rw [allConditions, Fields.mentioned]
  induction fields.entries generalizing b with
  | nil => rfl
  | cons e rest ih =>
      have hrest := ih ((conditions scope e.1 e.2).run b).2
      rw [names_conditions] at hrest
      rw [List.mapM_cons, List.flatMap_cons, List.foldl_append]
      exact hrest

theorem names_conditionText (scope : Option String) (fields : Option Fields) (b : Bindings) :
    ((conditionText scope fields).run b).2.names =
      (fields.getD .empty).mentioned.foldl enter b.names := by
  cases fields with
  | none => rfl
  | some fields =>
      rw [conditionText]
      split
      · rename_i hempty
        rw [Option.getD_some, Fields.mentioned, Dict.isEmpty_iff.mp hempty]
        rfl
      · exact names_allConditions scope fields b

theorem names_mapM_actions {es : List (String × Descriptor)} {assignments : List (String × Assignment)}
    (h : List.Forall₂ (fun e a => e.1 = a.1 ∧ e.2.assignment? = some a.2) es assignments) :
    ((assignments.mapM fun a => actions a.1 a.2).run b).2.names =
      (es.flatMap fun e => e.1 :: e.2.entryNames).foldl enter b.names := by
  induction h generalizing b with
  | nil => rfl
  | @cons e a es assignments hea _ ih =>
      obtain ⟨field, d⟩ := e
      obtain ⟨rfl, hassignment⟩ := hea
      have hrest := ih (b := ((actions a.1 a.2).run b).2)
      rw [names_actions a.1 hassignment] at hrest
      rw [List.mapM_cons, List.flatMap_cons, List.foldl_append]
      exact hrest

theorem names_updateText {fields : Fields} {assignments : List (String × Assignment)}
    (h : Clause.assignments fields = .ok assignments) (b : Bindings) :
    ((updateText assignments).run b).2.names = fields.mentioned.foldl enter b.names := by
  have hpairs := forall₂_assignmentsOf h
  have hnames := names_mapM_actions (b := b) hpairs
  cases assignments with
  | nil =>
      rw [Fields.mentioned, List.forall₂_nil_right_iff.mp hpairs]
      rfl
  | cons a assignments => exact hnames

end Clause

namespace Expressions

/-- **The order in which aliases are handed out**: along the names that the fields mention, each field
before the entries that it lists, the fields in increasing order of their names. -/
theorem names_eq_foldl :
    (∀ filter : Option Fields, (forScan filter).context.names =
      (filter.getD .empty).mentioned.foldl Naming.enter .empty) ∧
    (∀ (key : Fields) (filter : Option Fields), (forQuery key filter).context.names =
      (key.mentioned ++ (filter.getD .empty).mentioned).foldl Naming.enter .empty) ∧
    (∀ (fields : Fields) (guard : Option Fields) (e : Expressions), forUpdate fields guard = .ok e →
      e.context.names =
        (fields.mentioned ++ (guard.getD .empty).mentioned).foldl Naming.enter .empty) := by
  refine ⟨?_, ?_, ?_⟩
  · intro filter
    have hcontext : (forScan filter).context = _ := context_withBindings _ _
    rw [hcontext]
    exact Clause.names_conditionText none filter .empty
  · intro key filter
    have hcontext : (forQuery key filter).context = _ := context_withBindings _ _
    have hkey := Clause.names_conditionText none (some key) .empty
    have hfilter := Clause.names_conditionText none filter
      ((Clause.conditionText none (some key)).run .empty).2
    rw [hkey] at hfilter
    rw [hcontext, List.foldl_append]
    exact hfilter
  · intro fields guard e he
    obtain ⟨assignments, hassignments, _, _, hcontext⟩ := forUpdate_eq_ok he
    have hupdate := Clause.names_updateText hassignments .empty
    have hguard := Clause.names_conditionText (some guardScope) guard
      ((Clause.updateText assignments).run .empty).2
    rw [hupdate] at hguard
    rw [hcontext, List.foldl_append]
    exact hguard

end Expressions

namespace Fields

namespace Construction

/-- **How fields were built does not show**: two ways that agree build the same set, whose names are
read in increasing order, and every expression and every table that is compiled from it is the same,
down to the numbers of aliases that are spelled alike.  This holds of each of the two sets in a query,
and of an update and its guard. -/
theorem compile_alike {a b : Construction} (h : a.Agree b) :
    a.fields = b.fields ∧
      a.fields.keys.Pairwise (fun m n => compare m n = .lt) ∧ b.fields.keys = a.fields.keys ∧
      (∀ name d, (name, d) ∈ b.fields.entries ↔ a.last name = some d) ∧
      (Expressions.forScan (some a.fields)).context.names =
        b.fields.mentioned.foldl Naming.enter .empty ∧
      Expressions.forScan (some a.fields) = Expressions.forScan (some b.fields) ∧
      Expressions.forQuery a.fields none = Expressions.forQuery b.fields none ∧
      Expressions.forUpdate a.fields none = Expressions.forUpdate b.fields none ∧
      (∀ a' b' : Construction, a'.Agree b' →
        Expressions.forQuery a.fields (some a'.fields) =
            Expressions.forQuery b.fields (some b'.fields) ∧
          Expressions.forUpdate a.fields (some a'.fields) =
            Expressions.forUpdate b.fields (some b'.fields)) ∧
      aliasTable (some a.fields) = aliasTable (some b.fields) ∧
      valueTable (some a.fields) = valueTable (some b.fields) ∧
      conditionText (some a.fields) = conditionText (some b.fields) ∧
      updateText a.fields = updateText b.fields := by
  have hsame : a.fields = b.fields := fields_eq_iff.mpr h
  have hentries (name : String) (d : Descriptor) :
      (name, d) ∈ b.fields.entries ↔ a.last name = some d := by
    rw [mem_entries_fields_iff, h]
  refine ⟨hsame, a.fields.sorted, by rw [hsame], hentries, ?_⟩
  rw [hsame]
  refine ⟨Expressions.names_eq_foldl.1 (some b.fields), rfl, rfl, rfl, ?_, rfl, rfl, rfl, rfl⟩
  intro a' b' h'
  rw [fields_eq_iff.mpr h']
  exact ⟨rfl, rfl⟩

/-- Two names that share a spelling, given in either order, with a correction and a removal on one of
the two ways. -/
theorem compile_alike_shared_spelling :
    let a : Construction :=
      .insert (.insert .empty "first-name" (.equals (.string "Al"))) "firstName" (.lessThan .null)
    let b : Construction :=
      .merged (.ofList [("firstName", .equals .null), ("firstName", .lessThan .null)])
        (.remove (.ofItem ⟨[("age", .number "3"), ("first-name", .string "Al")]⟩) "age")
    a.fields = b.fields ∧ aliasTable (some a.fields) = aliasTable (some b.fields) ∧
      conditionText (some b.fields) =
        some "#firstName = :firstName AND #firstName_1 < :firstName_1" := by
  intro a b
  have hagree : a.Agree b := by
    intro name
    by_cases hfirst : name = "first-name" <;> by_cases hsecond : name = "firstName" <;>
      simp [a, b, last, Dict.lookup, hfirst, hsecond]
  obtain ⟨hfields, _, _, _, _, _, _, _, _, haliases, _⟩ := compile_alike hagree
  refine ⟨hfields, haliases, ?_⟩
  decide +kernel

end Construction

end Fields

end RecordStore
