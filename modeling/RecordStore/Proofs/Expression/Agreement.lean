import RecordStore.Expression.UpdateApplying
import RecordStore.Proofs.Expression.Labels

/-!
# Only the labels in an expression count

An expression is read against two tables, and it looks up nothing in them but its own labels.  So in
two contexts that agree on these it comes to the same on every record, faults included, and whatever
else the tables hold makes no difference.

* `Context.AgreeOn`, `Context.AgreeIn` — contexts that agree on the labels among some tokens, and on
  those of a text;
* `Condition.holds_congr`, `Update.apply_congr` — a condition and an update, part by part;
* `Condition.holds_of_agreeIn`, `Update.apply_of_agreeIn` — what is read from a text.
-/

namespace RecordStore

namespace Context

/-- Two contexts give the labels among some tokens the same meaning, or none. -/
structure AgreeOn (ts : List Token) (ctx ctx' : Context) : Prop where
  names : ∀ label, .name label ∈ ts → ctx.names.get? label = ctx'.names.get? label
  values : ∀ label, .value label ∈ ts → ctx.values.get? label = ctx'.values.get? label

/-- Two contexts give the labels in a text the same meaning, if the text has tokens. -/
def AgreeIn (text : String) (ctx ctx' : Context) : Prop :=
  ∀ ts, Token.scan text = .ok ts → AgreeOn ts ctx ctx'

variable {ctx ctx' : Context} {ts us : List Token} {p : Path}

/-- What agrees on some tokens agrees on fewer. -/
theorem AgreeOn.mono (h : AgreeOn us ctx ctx') (hsub : ts ⊆ us) : AgreeOn ts ctx ctx' :=
  ⟨fun label hlabel => h.names label (hsub hlabel), fun label hlabel => h.values label (hsub hlabel)⟩

/-- Both contexts resolve a segment alike if it is among the tokens; a plain name stands for itself in any. -/
theorem AgreeOn.nameOf {s : String} (h : AgreeOn ts ctx ctx') (hs : Token.ofSegment s ∈ ts) :
    ctx.nameOf s = ctx'.nameOf s := by
  unfold Context.nameOf
  split
  · rename_i halias
    rw [Token.ofSegment, if_pos halias] at hs
    rw [h.names s hs]
  · rfl

/-- Both contexts bind a placeholder alike if it is among the tokens. -/
theorem AgreeOn.valueOf {label : String} (h : AgreeOn ts ctx ctx') (hlabel : .value label ∈ ts) :
    ctx.valueOf label = ctx'.valueOf label := by
  rw [Context.valueOf, Context.valueOf, h.values label hlabel]

/-- Contexts that agree on a path give all its segments the same names. -/
theorem AgreeOn.nameOf_of_mem (h : AgreeOn p.tokens ctx ctx') {s : String} (hs : s ∈ p) :
    ctx.nameOf s = ctx'.nameOf s :=
  h.nameOf (Path.ofSegment_mem_tokens hs)

/-- Going down a path looks at the names of its segments only. -/
theorem descend_congr (h : ∀ s ∈ p, ctx.nameOf s = ctx'.nameOf s) (found : Option Value) :
    ctx.descend found p = ctx'.descend found p := by
  induction p generalizing found with
  | nil => rfl
  | cons s rest ih =>
      obtain ⟨hs, hrest⟩ := List.forall_mem_cons.mp h
      simp only [descend, hs, ih hrest]

/-- So does resolving it on a record. -/
theorem resolve_congr (h : ∀ s ∈ p, ctx.nameOf s = ctx'.nameOf s) (item : Item) :
    ctx.resolve item p = ctx'.resolve item p := by
  cases p with
  | nil => rfl
  | cons s rest =>
      obtain ⟨hs, hrest⟩ := List.forall_mem_cons.mp h
      simp only [resolve, hs, descend_congr hrest]

/-- The names of a path are the same where those of its segments are. -/
theorem mapM_nameOf_congr (h : ∀ s ∈ p, ctx.nameOf s = ctx'.nameOf s) :
    p.mapM ctx.nameOf = p.mapM ctx'.nameOf := by
  induction p with
  | nil => rfl
  | cons s rest ih =>
      obtain ⟨hs, hrest⟩ := List.forall_mem_cons.mp h
      rw [List.mapM_cons, List.mapM_cons, hs, ih hrest]

/-- Assigning at a path looks at the names of its segments only, the last one included. -/
theorem assign_congr (h : ∀ s ∈ p, ctx.nameOf s = ctx'.nameOf s) (item : Item) (v : Value) :
    ctx.assign item p v = ctx'.assign item p v := by
  have hparents := mapM_nameOf_congr fun s hs => h s (List.dropLast_subset p hs)
  unfold assign
  split
  · rfl
  · rename_i segment hlast
    rw [h segment (List.mem_of_getLast? hlast), hparents]

end Context

open Context

namespace Operand

variable {ctx ctx' : Context} {o : Operand}

/-- An operand finds the same in contexts that agree on its tokens. -/
theorem find_congr (h : AgreeOn o.tokens ctx ctx') (item : Item) :
    o.find ctx item = o.find ctx' item := by
  cases o with
  | path p => exact resolve_congr (fun _ hs => h.nameOf_of_mem hs) item
  | value label => rw [find, find, h.valueOf List.mem_cons_self]

/-- It demands the same of a record, faults included. -/
theorem demand_congr (h : AgreeOn o.tokens ctx ctx') (item : Item) :
    o.demand ctx item = o.demand ctx' item := by
  cases o with
  | path p => rw [demand, demand, resolve_congr (fun _ hs => h.nameOf_of_mem hs) item]
  | value label => exact h.valueOf List.mem_cons_self

end Operand

namespace Condition

variable {ctx ctx' : Context} {item : Item} {c : Condition}

/-- **A condition** comes to the same in two contexts in which its operands do. -/
theorem holds_congr (h : ∀ o ∈ c.operands, o.find ctx item = o.find ctx' item) :
    c.holds ctx item = c.holds ctx' item := by
  induction c with
  | compare op left right =>
      rw [holds, holds, h left (by simp [operands]), h right (by simp [operands])]
  | between subject low high =>
      rw [holds, holds, h subject (by simp [operands]), h low (by simp [operands]),
        h high (by simp [operands])]
  | and left right ihLeft ihRight | or left right ihLeft ihRight =>
      obtain ⟨hleft, hright⟩ := List.forall_mem_append.mp h
      rw [holds, holds, ihLeft hleft, ihRight hright]
  | not inner ih => rw [holds, holds, ih h]
  | present path | absent path =>
      have hpath : ctx.resolve item path = ctx'.resolve item path := h (.path path) List.mem_cons_self
      rw [holds, holds, hpath]
  | beginsWith subject beginning =>
      rw [holds, holds, h subject (by simp [operands]), h beginning (by simp [operands])]

/-- Contexts that agree on the labels in a text give what is read from it the same answer. -/
theorem holds_of_agreeIn {text : String} (h : ofText text = .ok c) (hagree : AgreeIn text ctx ctx')
    (item : Item) : c.holds ctx item = c.holds ctx' item := by
  obtain ⟨ts, hscan, hwithin⟩ := within_of_ofText h
  exact holds_congr fun o ho => o.find_congr ((hagree ts hscan).mono (hwithin o ho).2) item

/-- The same of the text itself, also where it is not read as a condition. -/
theorem textHolds_of_agreeIn {text : String} (hagree : AgreeIn text ctx ctx') (item : Item) :
    textHolds ctx item text = textHolds ctx' item text := by
  rw [textHolds, textHolds]
  cases h : ofText text with
  | error fault => rfl
  | ok c => exact holds_of_agreeIn h hagree item

end Condition

/-- A new value is computed alike in contexts that agree on its tokens. -/
theorem NewValue.compute_congr {ctx ctx' : Context} {v : NewValue} (h : AgreeOn v.tokens ctx ctx')
    (item : Item) : v.compute ctx item = v.compute ctx' item := by
  cases v with
  | operand o => exact o.demand_congr h item
  | sum left right | difference left right =>
      have hleft := left.demand_congr (h.mono (List.subset_append_left _ _)) item
      have hright := right.demand_congr (h.mono fun t ht => by simp [tokens, ht]) item
      rw [compute, compute, hleft, hright]

/-- An action does the same in contexts that agree on its tokens, its path included. -/
theorem SetAction.apply_congr {ctx ctx' : Context} {a : SetAction} (h : AgreeOn a.tokens ctx ctx')
    (item : Item) : a.apply ctx item = a.apply ctx' item := by
  have hpath : AgreeOn a.path.tokens ctx ctx' := h.mono (List.subset_append_left _ _)
  have hvalue : AgreeOn a.value.tokens ctx ctx' := h.mono fun t ht => by simp [tokens, ht]
  have hassign (v : Value) := assign_congr (fun _ hs => hpath.nameOf_of_mem hs) item v
  simp only [apply, a.value.compute_congr hvalue item, hassign]

namespace Update

variable {ctx ctx' : Context} {u : Update}

/-- **An update** does the same in two contexts in which its actions do. -/
theorem apply_congr (h : ∀ a ∈ u, AgreeOn a.tokens ctx ctx') (item : Item) :
    u.apply ctx item = u.apply ctx' item := by
  induction u generalizing item with
  | nil => rfl
  | cons a rest ih =>
      obtain ⟨ha, hrest⟩ := List.forall_mem_cons.mp h
      simp only [apply, a.apply_congr ha item, ih hrest]

/-- The tokens of an action are among those of its list. -/
theorem tokens_subset_actionTokens {a : SetAction} (h : a ∈ u) : a.tokens ⊆ actionTokens u := by
  cases u with
  | nil => cases h
  | cons b rest =>
      rw [actionTokens]
      rcases List.mem_cons.mp h with rfl | hrest
      · exact List.subset_append_left _ _
      · intro t ht
        refine List.mem_append_right _ (List.mem_flatMap.mpr ⟨a, hrest, ?_⟩)
        exact List.mem_cons_of_mem _ ht

/-- Contexts that agree on the labels in a text make what is read from it do the same. -/
theorem apply_of_agreeIn {text : String} (h : ofText text = .ok u) (hagree : AgreeIn text ctx ctx')
    (item : Item) : u.apply ctx item = u.apply ctx' item := by
  obtain ⟨_, hscan⟩ := ofText_eq_ok_iff_scan.mp h
  refine apply_congr (fun a ha => (hagree _ hscan).mono ?_) item
  exact List.Subset.trans (tokens_subset_actionTokens ha) (List.subset_cons_self _ _)

end Update

end RecordStore
