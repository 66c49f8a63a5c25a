import RecordStore.Proofs.Expression.Agreement
import RecordStore.Proofs.Store.Reading

/-!
# A name that is added later

A request can be given an alias for one more name after it has been compiled.  The table of names may
hold anything by then: several aliases of one name, and aliases that are spelled like the new one.  The
new alias is none of these, and so every expression that is already there keeps its meaning, as long as
the aliases in it were defined before.

* `Expressions.NamesDefined` — the aliases in the expressions of a request are defined;
* `Expressions.MeansAs` — two requests that come to the same on every record, and in every store;
* `Expressions.meansAs_of_agreeIn` — requests with the same expressions, whose contexts agree on the
  labels in them;
* `Expressions.addName_keeps_meaning` — what an added name changes, and what it does not.
-/

namespace RecordStore

namespace Table

/-- A read looks at its context in its two conditions only. -/
theorem readBy_congr {sort : List String → List Item → Except Error (List Item)} {t : Table}
    {pageSize : Option Nat} {plan : ReadPlan} {ctx : Context}
    (hkey : tests plan.context plan.keyCondition = tests ctx plan.keyCondition)
    (hfilter : tests plan.context plan.filter = tests ctx plan.filter) :
    t.readBy sort pageSize plan = t.readBy sort pageSize { plan with context := ctx } := by
  rw [readBy, readBy, hkey, hfilter]

end Table

/-- What an update that is spelled by a text makes of a record; an absent one leaves it. -/
def Update.optionalApply (ctx : Context) (item : Item) : Option String → Except ExpressionFault Item
  | some text => do
    let update ← ofText text
    update.apply ctx item
  | none => .ok item

namespace Expressions

open Context

/-- The expressions that are conditions. -/
def conditions (e : Expressions) : List (Option String) := [e.keyCondition, e.filter, e.condition]

/-- A text is one of the expressions. -/
def Has (e : Expressions) (text : String) : Prop := some text ∈ e.conditions ∨ e.update = some text

/-- Every alias in the expressions is in the table of names. -/
def NamesDefined (e : Expressions) : Prop :=
  ∀ text ts label, e.Has text → Token.scan text = .ok ts → .name label ∈ ts →
    e.context.names.contains label

/-- Two bundles have the same expressions, and these come to the same on every record, faults
included. -/
structure MeansAs (e e' : Expressions) : Prop where
  conditions : e'.conditions = e.conditions
  update : e'.update = e.update
  holds : ∀ condition ∈ e.conditions, ∀ item,
    Condition.optionalHolds e'.context item condition =
      Condition.optionalHolds e.context item condition
  applies : ∀ item,
    Update.optionalApply e'.context item e.update = Update.optionalApply e.context item e.update

variable {e e' : Expressions}

/-- Bundles with the same expressions mean the same if they agree on the labels in them. -/
theorem meansAs_of_agreeIn (hconditions : e'.conditions = e.conditions) (hupdate : e'.update = e.update)
    (h : ∀ text, e.Has text → AgreeIn text e'.context e.context) : e.MeansAs e' where
  conditions := hconditions
  update := hupdate
  holds condition hmem item := by
    cases condition with
    | none => rfl
    | some text => exact Condition.textHolds_of_agreeIn (h text (.inl hmem)) item
  applies item := by
    cases htext : e.update with
    | none => rfl
    | some text =>
        rw [Update.optionalApply, Update.optionalApply]
        cases hread : Update.ofText text with
        | error fault => rfl
        | ok u => exact Update.apply_of_agreeIn hread (h text (.inr htext)) item

namespace MeansAs

/-- A condition that is read from one of the expressions is tried with the same result. -/
theorem tests_eq (h : e.MeansAs e') {text : Option String} (hmem : text ∈ e.conditions)
    {c : Option Condition} (hc : MemoryStore.conditionOf? text = .ok c) :
    Table.tests e'.context c = Table.tests e.context c := by
  funext item
  rw [Table.tests_of_conditionOf? hc, Table.tests_of_conditionOf? hc, h.holds text hmem]

theorem slots_eq (h : e.MeansAs e') :
    e'.keyCondition = e.keyCondition ∧ e'.filter = e.filter ∧ e'.condition = e.condition := by
  simpa [Expressions.conditions] using h.conditions

/-- A scan with expressions that mean the same gives the same page. -/
theorem scan_eq (h : e.MeansAs e') (s : MemoryStore) (r : ScanRequest) :
    s.scan { r with expressions := e' } = s.scan { r with expressions := e } := by
  obtain ⟨_, hfilter, _⟩ := h.slots_eq
  simp only [MemoryStore.scan, MemoryStore.scanBy, hfilter]
  cases hread : MemoryStore.conditionOf? e.filter with
  | error fault => simp only [bind, Except.bind]
  | ok filter =>
      have htests := h.tests_eq (by simp [Expressions.conditions]) hread
      have hpage (t : Table) :
          t.readBy Item.insertionSort s.pageSize
              ⟨r.index, e'.context, none, filter, r.limit, true, r.start⟩ =
            t.readBy Item.insertionSort s.pageSize
              ⟨r.index, e.context, none, filter, r.limit, true, r.start⟩ :=
        Table.readBy_congr rfl htests
      simp only [bind, Except.bind, hpage]

/-- So does a query. -/
theorem query_eq (h : e.MeansAs e') (s : MemoryStore) (r : QueryRequest) :
    s.query { r with expressions := e' } = s.query { r with expressions := e } := by
  obtain ⟨hkey, hfilter, _⟩ := h.slots_eq
  cases htext : e.keyCondition with
  | none => simp only [MemoryStore.query, MemoryStore.queryBy, hkey, htext]
  | some text =>
      simp only [MemoryStore.query, MemoryStore.queryBy, hkey, hfilter, htext]
      cases hread : MemoryStore.conditionOf? (some text) with
      | error fault => simp only [bind, Except.bind]
      | ok keyCondition =>
          have hkeyTests := h.tests_eq (by simp [Expressions.conditions, htext]) hread
          cases hreadFilter : MemoryStore.conditionOf? e.filter with
          | error fault => simp only [bind, Except.bind]
          | ok filter =>
              have hfilterTests := h.tests_eq (by simp [Expressions.conditions]) hreadFilter
              have hpage (t : Table) :
                  t.readBy Item.insertionSort s.pageSize
                      ⟨r.index, e'.context, keyCondition, filter, r.limit, r.forward, r.start⟩ =
                    t.readBy Item.insertionSort s.pageSize
                      ⟨r.index, e.context, keyCondition, filter, r.limit, r.forward, r.start⟩ :=
                Table.readBy_congr hkeyTests hfilterTests
              simp only [bind, Except.bind, hpage]

/-- And an update does the same to a store. -/
theorem update_eq (h : e.MeansAs e') (s : MemoryStore) (table : String) (key : Item) :
    s.update ⟨table, key, e'⟩ = s.update ⟨table, key, e⟩ := by
  obtain ⟨_, _, hcondition⟩ := h.slots_eq
  cases htext : e.update with
  | none => simp only [MemoryStore.update, h.update, htext]
  | some text =>
      simp only [MemoryStore.update, h.update, htext]
      cases hread : Update.ofText text with
      | error fault => rfl
      | ok u =>
          have hholds := h.holds e.condition (by simp [Expressions.conditions])
          have happlies (item : Item) : u.apply e'.context item = u.apply e.context item := by
            have hitem := h.applies item
            rw [htext, Update.optionalApply, Update.optionalApply, hread] at hitem
            exact hitem
          have htable (t : Table) : t.update key e' u = t.update key e u := by
            simp only [Table.update, hcondition, hholds, happlies]
          change s.modifyTable table _ = s.modifyTable table _
          simp only [htable]

end MeansAs

theorem context_addName (e : Expressions) (field : String) :
    (e.addName field).2.context = ⟨Naming.enter e.context.names field, e.context.values⟩ := rfl

/-- **What an added name changes.**  Let the aliases in a bundle of expressions be defined, and add a
name.  The alias that is given for the name stands for it; if the name had none, the alias is new and is
a single token, and otherwise the context stays as it is.  Every earlier alias keeps its name.  The
bundle means what it did, in every expression and in every request.  Added again, the name gets the same
alias, and nothing changes. -/
theorem addName_keeps_meaning (h : e.NamesDefined) (field : String) :
    let a := (e.addName field).1
    let e' := (e.addName field).2
    e'.context.names.get? a = some field ∧
      ((∀ k, e.context.names.get? k ≠ some field) →
        e.context.names.get? a = none ∧ Token.scan a = .ok [.name a]) ∧
      (∀ k, e.context.names.get? k = some field → e'.context = e.context) ∧
      (∀ k n, e.context.names.get? k = some n → e'.context.names.get? k = some n) ∧
      e'.values = e.values ∧ e.MeansAs e' ∧
      (∀ (s : MemoryStore) (r : ScanRequest),
        s.scan { r with expressions := e' } = s.scan { r with expressions := e }) ∧
      (∀ (s : MemoryStore) (r : QueryRequest),
        s.query { r with expressions := e' } = s.query { r with expressions := e }) ∧
      (∀ (s : MemoryStore) table key, s.update ⟨table, key, e'⟩ = s.update ⟨table, key, e⟩) ∧
      e'.addName field = (a, e') := by
  intro a e'
  have hname : e'.context.names.get? a = some field := Naming.get?_aliasOf e.context.names field
  have hkept (k n : String) (hk : e.context.names.get? k = some n) :
      e'.context.names.get? k = some n := Naming.get?_aliasOf_of_get? hk field
  have hnew (hnone : ∀ k, e.context.names.get? k ≠ some field) :
      e.context.names.get? a = none ∧ Token.scan a = .ok [.name a] := by
    have hlabel : IsLabel '#' a := Naming.isLabel_aliasOf fun k hk => absurd hk (hnone k)
    refine ⟨?_, hlabel.scan_name⟩
    cases hold : e.context.names.get? a with
    | none => rfl
    | some n =>
        obtain rfl := Option.some.inj ((hkept a n hold).symm.trans hname)
        exact absurd hold (hnone a)
  have hold (k : String) (hk : e.context.names.get? k = some field) : e'.context = e.context := by
    rw [context_addName, Naming.enter_of_get? hk]
  have hmeans : e.MeansAs e' := by
    refine meansAs_of_agreeIn rfl rfl fun text htext ts hscan => ⟨?_, fun _ _ => rfl⟩
    intro label hmem
    obtain ⟨n, hn⟩ := Option.isSome_iff_exists.mp (h text ts label htext hscan hmem)
    exact (hkept label n hn).trans hn.symm
  have hagain : e'.addName field = (a, e') := by
    have halias : Naming.aliasOf e'.context.names field = (a, e'.context.names) :=
      Naming.aliasOf_again e.context.names field
    change ((Naming.aliasOf e'.context.names field).1,
      { e' with names := some (Naming.aliasOf e'.context.names field).2 }) = (a, e')
    rw [halias]
    rfl
  exact ⟨hname, hnew, hold, hkept, rfl, hmeans, hmeans.scan_eq, hmeans.query_eq, hmeans.update_eq,
    hagain⟩

/-- A table with two aliases of one name, and one that is spelled like the alias of the added name. -/
theorem addName_keeps_meaning_crowded :
    let e : Expressions :=
      { names := some (.ofList [("#deletedAt", "deleted-at"), ("#k", "kind"), ("#kind", "kind")])
        values := some (.ofList [(":v", .number "1")])
        keyCondition := none
        filter := some "#deletedAt = :v AND attribute_exists(#k)"
        condition := none
        update := some "SET #kind = :v" }
    (e.addName "deletedAt").1 = "#deletedAt_1" ∧ (e.addName "kind").1 = "#k" ∧
      (e.addName "deletedAt").2.context.names.get? "#deletedAt_1" = some "deletedAt" ∧
      e.MeansAs (e.addName "deletedAt").2 ∧ e.MeansAs (e.addName "kind").2 := by
  intro e
  have hfilter : Token.scan "#deletedAt = :v AND attribute_exists(#k)" =
      .ok [.name "#deletedAt", .comparison .equal, .value ":v", .and, .identifier "attribute_exists",
        .leftParen, .name "#k", .rightParen] := by decide +kernel
  have hupdate : Token.scan "SET #kind = :v" =
      .ok [.set, .name "#kind", .comparison .equal, .value ":v"] := by decide +kernel
  have hdefined : e.NamesDefined := by
    intro text ts label htext hscan hlabel
    rcases htext with htext | htext
    · obtain rfl : text = "#deletedAt = :v AND attribute_exists(#k)" := by
        simpa [conditions, e] using htext
      obtain rfl := Except.ok.inj (hfilter.symm.trans hscan)
      obtain rfl | rfl : label = "#deletedAt" ∨ label = "#k" := by simpa using hlabel
      · decide
      · decide
    · obtain rfl : text = "SET #kind = :v" := (Option.some.inj htext).symm
      obtain rfl := Except.ok.inj (hupdate.symm.trans hscan)
      obtain rfl : label = "#kind" := by simpa using hlabel
      decide
  have halias : (e.addName "deletedAt").1 = "#deletedAt_1" := by decide +kernel
  obtain ⟨hname, _, _, _, _, hmeans, _⟩ := addName_keeps_meaning hdefined "deletedAt"
  obtain ⟨_, _, _, _, _, hmeansKind, _⟩ := addName_keeps_meaning hdefined "kind"
  exact ⟨halias, by decide +kernel, halias ▸ hname, hmeans, hmeansKind⟩

end Expressions

end RecordStore
