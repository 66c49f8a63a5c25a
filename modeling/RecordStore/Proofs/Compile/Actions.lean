import RecordStore.Expression.UpdateApplying
import RecordStore.Proofs.Compile.Bindings
import RecordStore.Proofs.Dict

/-!
# Compiled actions do what the assignments say

The actions of one assignment change the attribute of its field alone, and what they make of it
depends on the attribute alone.  Assignments to different fields therefore do not see one another:
carried out one after the other they do what each says of the record as it was at first.

* `Assignment.outcome?` — what an assignment makes of an attribute;
* `compiles_actions` — the actions of one assignment;
* `apply_flatten` — the actions of assignments to different fields, from the outcomes on the first
  record.
-/

namespace RecordStore

/-- What an assignment makes of an attribute that may be absent; nothing if it cannot be carried out. -/
def Assignment.outcome? : Assignment → Option Value → Option (Option Value)
  | .set v, _ => some (some v)
  | .increment delta, old =>
    match old.bind Value.toBinary64?, delta.toBinary64? with
    | some x, some y => some (some (.ofComputed (x.add y)))
    | _, _ => none
  | .nested entries, old =>
    if entries.entries = [] then some old
    else
      match old with
      | some (.map m) => some (some (.map (m.union entries.toDict)))
      | _ => none

theorem Assignment.outcome?_nested (entries : OrderedDict Value) (old : Option Value) :
    (Assignment.nested entries).outcome? old =
      if entries.entries = [] then some old
      else
        match old with
        | some (.map m) => some (some (.map (m.union entries.toDict)))
        | _ => none := rfl

/-- An assignment to a map lists an entry of it. -/
def Assignment.IsProper : Assignment → Prop
  | .nested entries => entries.entries ≠ []
  | _ => True

namespace Context

variable {ctx : Context}

theorem Gives.demand {o : Operand} {v : Value} (h : ctx.Gives o v) (item : Item) :
    o.demand ctx item = .ok v := by
  obtain ⟨label, rfl, _, hv⟩ := h
  simp [Operand.demand, valueOf, hv]

/-- An alias by itself needs the attribute with its name. -/
theorem Names.demand {label name : String} (h : ctx.Names label name) (item : Item) :
    Operand.demand ctx item (.path [label]) =
      match item.get? name with
      | some v => .ok v
      | none => .error (.missingAttribute [label]) := by
  rw [Operand.demand, h.resolve]
  cases item.get? name <;> rfl

/-- An alias by itself sets the attribute with its name. -/
theorem Names.assign {label name : String} (h : ctx.Names label name) (item : Item) (v : Value) :
    ctx.assign item [label] v = .ok (item.insert name v) := by
  simp [Context.assign, h.nameOf, Item.putAt, bind, Except.bind, pure, Except.pure]

theorem Names.assign_pair {outer inner field entry : String} (ho : ctx.Names outer field)
    (hi : ctx.Names inner entry) (item : Item) (v : Value) :
    ctx.assign item [outer, inner] v =
      match Item.putAt item entry v [field] with
      | some changed => .ok changed
      | none => .error (.parentNotMap [outer, inner]) := by
  have hparents : [outer].mapM ctx.nameOf = .ok [field] := by
    simp [ho.nameOf, bind, Except.bind, pure, Except.pure]
  have hassign : ctx.assign item [outer, inner] v = (do
      let last ← ctx.nameOf inner
      let parents ← [outer].mapM ctx.nameOf
      match Item.putAt item last v parents with
      | some changed => return changed
      | none => .error (.parentNotMap [outer, inner])) := rfl
  rw [hassign, hi.nameOf, hparents]
  rfl

/-- Two aliases set an entry of the map that is there. -/
theorem Names.assign_pair_map {outer inner field entry : String} (ho : ctx.Names outer field)
    (hi : ctx.Names inner entry) {item : Item} {m : Dict Value} (hm : item.get? field = some (.map m))
    (v : Value) :
    ctx.assign item [outer, inner] v = .ok (item.insert field (.map (m.insert entry v))) := by
  rw [ho.assign_pair hi]
  simp [Item.putAt, hm]

/-- Two aliases set no entry where there is no map. -/
theorem Names.assign_pair_error {outer inner field entry : String} (ho : ctx.Names outer field)
    (hi : ctx.Names inner entry) {item : Item} (hm : ∀ m, item.get? field ≠ some (.map m))
    (v : Value) :
    ctx.assign item [outer, inner] v = .error (.parentNotMap [outer, inner]) := by
  have hput : Item.putAt item entry v [field] = none := by
    rw [Item.putAt]
    split
    · rename_i m h
      exact absurd h (hm m)
    · rfl
  rw [ho.assign_pair hi, hput]

end Context

namespace Item

theorem sorted_putAt {item changed : Item} {last : String} {v : Value} {parents : List String}
    (h : item.putAt last v parents = some changed) (hsorted : item.Sorted) : changed.Sorted := by
  cases parents with
  | nil =>
      obtain rfl := Option.some.inj h
      exact Dict.sorted_insert hsorted last v
  | cons name rest =>
      rw [putAt] at h
      split at h
      · obtain ⟨inner, _, rfl⟩ := Option.map_eq_some_iff.mp h
        exact Dict.sorted_insert hsorted name _
      · simp at h

end Item

/-- Carrying out an action keeps the attributes of a record in order. -/
theorem SetAction.sorted_apply {ctx : Context} {item changed : Item} {s : SetAction}
    (h : s.apply ctx item = .ok changed) (hsorted : item.Sorted) : changed.Sorted := by
  obtain ⟨v, _, hassign⟩ := Condition.bind_eq_ok h
  rw [Context.assign] at hassign
  split at hassign
  · simp at hassign
  · obtain ⟨last, _, hassign⟩ := Condition.bind_eq_ok hassign
    obtain ⟨parents, _, hassign⟩ := Condition.bind_eq_ok hassign
    split at hassign
    · rename_i result hput
      obtain rfl := Except.ok.inj hassign
      exact Item.sorted_putAt hput hsorted
    · simp at hassign

namespace Update

/-- Carrying out an update keeps the attributes of a record in order. -/
theorem sorted_apply {ctx : Context} {item changed : Item} {u : Update}
    (h : u.apply ctx item = .ok changed) (hsorted : item.Sorted) : changed.Sorted := by
  induction u generalizing item with
  | nil =>
      obtain rfl := Except.ok.inj h
      exact hsorted
  | cons s u ih =>
      obtain ⟨middle, hmiddle, hrest⟩ := Condition.bind_eq_ok h
      exact ih hrest (SetAction.sorted_apply hmiddle hsorted)

/-- Two runs of actions, one after the other. -/
theorem apply_append (ctx : Context) (item : Item) (u w : Update) :
    apply ctx item (u ++ w) = apply ctx item u >>= fun changed => apply ctx changed w := by
  induction u generalizing item with
  | nil => rfl
  | cons a u ih =>
      rw [List.cons_append, apply, apply]
      cases a.apply ctx item with
      | error e => rfl
      | ok changed => exact ih changed

/-- Actions change the attribute of one field as given, and nothing else; or they fail. -/
def Yields (ctx : Context) (u : Update) (field : String) (item : Item) :
    Option (Option Value) → Prop
  | none => ∃ e, u.apply ctx item = .error e
  | some new => ∃ changed, u.apply ctx item = .ok changed ∧ changed.get? field = new ∧
      ∀ n, n ≠ field → changed.get? n = item.get? n

theorem yields_insert {ctx : Context} {u : Update} {field : String} {item : Item} {v : Value}
    (h : u.apply ctx item = .ok (item.insert field v)) : u.Yields ctx field item (some (some v)) :=
  ⟨_, h, by simp, fun n hn => by simp [hn]⟩

end Update

namespace Clause

/-- Actions can be read back and do what an assignment says of its field; there are none only if the
assignment says nothing. -/
def Do (field : String) (a : Assignment) (u : Update) (ctx : Context) : Prop :=
  (u ≠ [] ↔ a.IsProper) ∧ (∀ s ∈ u, s.Spelled) ∧
    ∀ item, u.Yields ctx field item (a.outcome? (item.get? field))

/-- Setting an attribute. -/
theorem do_set {field label : String} {p : Operand} {v : Value} {ctx : Context}
    (hlabel : ctx.Names label field) (hp : ctx.Gives p v) :
    Do field (.set v) [⟨[label], .operand p⟩] ctx := by
  have hpath : Path.Spelled [label] := Path.spelled_singleton hlabel.isSegment
  refine ⟨by simp [Assignment.IsProper], by simpa using ⟨hpath, hp.spelled⟩, ?_⟩
  intro item
  apply Update.yields_insert
  simp [Update.apply, SetAction.apply, NewValue.compute, hp.demand, hlabel.assign, bind, Except.bind]

/-- Letting an attribute grow. -/
theorem do_increment {field label : String} {p : Operand} {delta : Value} {ctx : Context}
    (hlabel : ctx.Names label field) (hp : ctx.Gives p delta) :
    Do field (.increment delta) [⟨[label], .sum (.path [label]) p⟩] ctx := by
  have hpath : Path.Spelled [label] := Path.spelled_singleton hlabel.isSegment
  refine ⟨by simp [Assignment.IsProper], by simpa using ⟨hpath, hpath, hp.spelled⟩, ?_⟩
  intro item
  cases hold : item.get? field with
  | none =>
      refine ⟨.missingAttribute [label], ?_⟩
      simp [Update.apply, SetAction.apply, NewValue.compute, hlabel.demand, hold, bind, Except.bind]
  | some v =>
      have hcompute : NewValue.compute ctx item (.sum (.path [label]) p)
          = Value.arithmetic .add v delta := by
        simp [NewValue.compute, hlabel.demand, hold, hp.demand, bind, Except.bind]
      cases hx : v.toBinary64? <;> cases hy : delta.toBinary64?
      case some.some x y =>
        simp only [Assignment.outcome?, Option.bind_some, hx, hy]
        apply Update.yields_insert
        simp [Update.apply, SetAction.apply, hcompute, Value.arithmetic, hx, hy, hlabel.assign,
          bind, Except.bind]
      all_goals
        simp only [Assignment.outcome?, Option.bind_some, hx, hy]
        refine ⟨.notNumbers, ?_⟩
        simp [Update.apply, SetAction.apply, hcompute, Value.arithmetic, hx, hy, bind, Except.bind]

/-- An action sets one entry of the map in a field. -/
def SetsEntry (ctx : Context) (field : String) (entry : String × Value) (s : SetAction) : Prop :=
  ∃ outer inner p, s = ⟨[outer, inner], .operand p⟩ ∧ ctx.Names outer field ∧
    ctx.Names inner entry.1 ∧ ctx.Gives p entry.2

theorem SetsEntry.spelled {ctx : Context} {field : String} {entry : String × Value} {s : SetAction}
    (h : SetsEntry ctx field entry s) : s.Spelled := by
  obtain ⟨outer, inner, p, rfl, houter, hinner, hp⟩ := h
  exact ⟨Path.spelled_pair houter.isSegment hinner.isSegment, hp.spelled⟩

/-- Setting an entry changes the map of its field, where there is one. -/
theorem SetsEntry.apply_map {ctx : Context} {field : String} {entry : String × Value}
    {s : SetAction} (h : SetsEntry ctx field entry s) {item : Item} {m : Dict Value}
    (hm : item.get? field = some (.map m)) :
    s.apply ctx item = .ok (item.insert field (.map (m.insert entry.1 entry.2))) := by
  obtain ⟨outer, inner, p, rfl, houter, hinner, hp⟩ := h
  simp [SetAction.apply, NewValue.compute, hp.demand, houter.assign_pair_map hinner hm, bind,
    Except.bind]

/-- Setting an entry fails where there is no map. -/
theorem SetsEntry.apply_error {ctx : Context} {field : String} {entry : String × Value}
    {s : SetAction} (h : SetsEntry ctx field entry s) {item : Item}
    (hm : ∀ m, item.get? field ≠ some (.map m)) : ∃ e, s.apply ctx item = .error e := by
  obtain ⟨outer, inner, p, rfl, houter, hinner, hp⟩ := h
  refine ⟨.parentNotMap [outer, inner], ?_⟩
  simp [SetAction.apply, NewValue.compute, hp.demand, houter.assign_pair_error hinner hm, bind,
    Except.bind]

/-- Setting entries of a map one after another enters all of them into it. -/
theorem yields_entries {ctx : Context} {field : String} {entries : List (String × Value)}
    {u : Update} (h : List.Forall₂ (SetsEntry ctx field) entries u) {item : Item} {m : Dict Value}
    (hm : item.get? field = some (.map m)) :
    u.Yields ctx field item (some (some (.map (entries.foldl (fun d e => d.insert e.1 e.2) m)))) := by
  induction h generalizing item m with
  | nil => exact ⟨item, rfl, hm, fun n _ => rfl⟩
  | @cons entry s entries u hs _ ih =>
      have hnext : (item.insert field (.map (m.insert entry.1 entry.2))).get? field
          = some (.map (m.insert entry.1 entry.2)) := by simp
      obtain ⟨changed, happly, hfield, hother⟩ := ih hnext
      refine ⟨changed, ?_, hfield, ?_⟩
      · rw [Update.apply, hs.apply_map hm]
        exact happly
      · intro n hn
        rw [hother n hn]
        simp [hn]

/-- Setting the entries of a map. -/
theorem do_nested {field : String} {entries : OrderedDict Value} {u : Update} {ctx : Context}
    (h : List.Forall₂ (SetsEntry ctx field) entries.entries u) : Do field (.nested entries) u ctx := by
  refine ⟨?_, ?_, ?_⟩
  · rw [Assignment.IsProper, ne_eq, ne_eq, ← List.length_eq_zero_iff, ← List.length_eq_zero_iff,
      h.length_eq]
  · intro s hs
    obtain ⟨entry, _, hsets⟩ := Compiles.exists_source h hs
    exact hsets.spelled
  · intro item
    rw [Assignment.outcome?_nested]
    split
    · rename_i hnil
      rw [hnil] at h
      obtain rfl := List.forall₂_nil_left_iff.mp h
      exact ⟨item, rfl, rfl, fun n _ => rfl⟩
    · rename_i hne
      split
      · rename_i m hm
        exact yields_entries h hm
      · rename_i hm
        cases u with
        | nil => exact absurd (List.forall₂_nil_right_iff.mp h) hne
        | cons s u =>
            obtain ⟨entry, rest, hs, _, heq⟩ := List.forall₂_cons_right_iff.mp h
            obtain ⟨e, he⟩ := hs.apply_error fun m => hm m
            refine ⟨e, ?_⟩
            rw [Update.apply, he]
            rfl

/-- **One assignment.**  Its actions do what it says. -/
theorem compiles_actions (field : String) (a : Assignment) :
    Compiles (actions field a) (Do field a) := by
  cases a with
  | set v =>
      have hvalue (label : String) := (compiles_bindValue field v).map
        fun p => [SetAction.mk [label] (.operand p)]
      refine ((compiles_aliasOf field).bind hvalue).imp ?_
      intro u ctx h
      obtain ⟨label, hlabel, p, hp, rfl⟩ := h
      exact do_set hlabel hp
  | increment delta =>
      have hvalue (label : String) := (compiles_bindValue field delta).map
        fun p => [SetAction.mk [label] (.sum (.path [label]) p)]
      refine ((compiles_aliasOf field).bind hvalue).imp ?_
      intro u ctx h
      obtain ⟨label, hlabel, p, hp, rfl⟩ := h
      exact do_increment hlabel hp
  | nested entries =>
      have hentries := Compiles.mapM entries.entries fun e _ =>
        (compiles_bindEntry field field e).map fun r => SetAction.mk r.1 (.operand r.2)
      refine ((compiles_aliasOf field).bind fun _ => hentries).imp ?_
      intro u ctx h
      obtain ⟨_, _, hu⟩ := h
      refine do_nested (hu.imp fun e s hs => ?_)
      obtain ⟨r, ⟨outer, inner, hpath, houter, hinner, hp⟩, rfl⟩ := hs
      exact ⟨outer, inner, r.2, by rw [hpath], houter, hinner, hp⟩

/-- What does some assignments can be read back. -/
theorem spelled_flatten {ctx : Context} {assignments : List (String × Assignment)}
    {parts : List Update} (hdo : List.Forall₂ (fun e u => Do e.1 e.2 u ctx) assignments parts) :
    ∀ s ∈ parts.flatten, s.Spelled := by
  intro s hs
  obtain ⟨u, hu, hs⟩ := List.mem_flatten.mp hs
  obtain ⟨_, _, hdo⟩ := Compiles.exists_source hdo hu
  exact hdo.2.1 s hs

/-- **Assignments to different fields.**  Carried out one after the other they do what each says of
the first record, or one of them says that it cannot be carried out there. -/
theorem apply_flatten {ctx : Context} {assignments : List (String × Assignment)}
    {parts : List Update} (hnodup : (assignments.map Prod.fst).Nodup)
    (h : List.Forall₂ (fun e u => Do e.1 e.2 u ctx) assignments parts) (item : Item) :
    (∃ changed, Update.apply ctx item parts.flatten = .ok changed ∧
      (∀ e ∈ assignments, e.2.outcome? (item.get? e.1) = some (changed.get? e.1)) ∧
      ∀ n, n ∉ assignments.map Prod.fst → changed.get? n = item.get? n) ∨
    ((∃ err, Update.apply ctx item parts.flatten = .error err) ∧
      ∃ e ∈ assignments, e.2.outcome? (item.get? e.1) = none) := by
  induction h generalizing item with
  | nil => exact .inl ⟨item, rfl, by simp, fun n _ => rfl⟩
  | @cons e u assignments parts hdo _ ih =>
      rw [List.map_cons, List.nodup_cons] at hnodup
      have hyields := hdo.2.2 item
      rw [List.flatten_cons, Update.apply_append]
      cases hout : e.2.outcome? (item.get? e.1) with
      | none =>
          rw [hout] at hyields
          obtain ⟨err, herr⟩ := hyields
          exact .inr ⟨⟨err, by rw [herr]; rfl⟩, e, List.mem_cons_self, hout⟩
      | some new =>
          rw [hout] at hyields
          obtain ⟨middle, hmiddle, hnew, hframe⟩ := hyields
          have hsame : ∀ e' ∈ assignments, middle.get? e'.1 = item.get? e'.1 := by
            intro e' he'
            refine hframe e'.1 fun heq => hnodup.1 ?_
            rw [← heq]
            exact List.mem_map_of_mem he'
          rw [hmiddle]
          rcases ih hnodup.2 middle with ⟨changed, hchanged, hdone, hrest⟩ | ⟨herr, e', he', hnone⟩
          · refine .inl ⟨changed, hchanged, ?_, ?_⟩
            · intro e' he'
              rcases List.mem_cons.mp he' with rfl | he'
              · rw [hrest _ hnodup.1, hnew, hout]
              · rw [← hsame e' he']
                exact hdone e' he'
            · intro n hn
              rw [List.map_cons, List.mem_cons, not_or] at hn
              rw [hrest n hn.2, hframe n hn.1]
          · exact .inr ⟨herr, e', List.mem_cons_of_mem _ he', by rw [← hsame e' he', hnone]⟩

end Clause

end RecordStore
