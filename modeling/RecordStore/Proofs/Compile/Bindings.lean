import Mathlib.Data.List.Forall2
import RecordStore.Clause
import RecordStore.Expression.ConditionHolding
import RecordStore.Proofs.Naming

/-!
# Bindings only grow

Compiling hands out aliases and placeholders and never takes one back, so what one clause was given
still means the same when all clauses have been compiled, and in every larger context.

The key notion is `Compiles m Q`: whatever `m` starts from, it keeps what has been handed out, hands
out labels only, and its result has the property `Q` in every context that agrees with the bindings
it leaves.

* `Compiles.bind`, `Compiles.map`, `Compiles.mapM` — compiling one thing after another;
* `compiles_aliasOf`, `compiles_bindValue`, `compiles_bindIndexed`, `compiles_bindEntry` — what a new
  alias and a new placeholder stand for.
-/

namespace RecordStore

namespace Context

/-- An alias stands for a name. -/
def Names (ctx : Context) (label name : String) : Prop :=
  IsLabel '#' label ∧ ctx.names.get? label = some name

/-- An operand is a placeholder that stands for a value. -/
def Gives (ctx : Context) (o : Operand) (v : Value) : Prop :=
  ∃ label, o = .value label ∧ IsLabel ':' label ∧ ctx.values.get? label = some v

variable {ctx : Context}

/-- An alias that names a field stands for it as a segment. -/
theorem Names.nameOf {label name : String} (h : ctx.Names label name) :
    ctx.nameOf label = .ok name := by
  rw [Context.nameOf, h.1.isAlias, h.2]
  rfl

/-- It is a segment that can be read back. -/
theorem Names.isSegment {label name : String} (h : ctx.Names label name) : Path.IsSegment label :=
  .inl h.1

/-- An operand that gives a value can be read back. -/
theorem Gives.spelled {o : Operand} {v : Value} (h : ctx.Gives o v) : o.Spelled := by
  obtain ⟨label, rfl, hlabel, _⟩ := h
  exact hlabel

/-- A placeholder stands for its value, whatever the record. -/
theorem Gives.find {o : Operand} {v : Value} (h : ctx.Gives o v) (item : Item) :
    o.find ctx item = .ok (some v) := by
  obtain ⟨label, rfl, _, hv⟩ := h
  simp [Operand.find, valueOf, hv, Except.map]

/-- An alias by itself finds the attribute with its name. -/
theorem Names.resolve {label name : String} (h : ctx.Names label name) (item : Item) :
    ctx.resolve item [label] = .ok (item.get? name) := by
  rw [Context.resolve, h.nameOf]
  rfl

/-- Two aliases find an entry of the map that is there. -/
theorem Names.resolve_pair {outer inner field entry : String} (ho : ctx.Names outer field)
    (hi : ctx.Names inner entry) (item : Item) :
    ctx.resolve item [outer, inner]
      = .ok (((item.get? field).bind Value.entries?).bind fun d => d.get? entry) := by
  rw [Context.resolve, ho.nameOf]
  change ctx.descend (item.get? field) [inner] = _
  rw [descend, hi.nameOf]
  rfl

end Context

namespace Context

/-- All aliases and placeholders are labels. -/
def Labelled (ctx : Context) : Prop :=
  (∀ k n, ctx.names.get? k = some n → IsLabel '#' k) ∧
    ∀ k v, ctx.values.get? k = some v → IsLabel ':' k

/-- What aliases and placeholders stand for, they stand for in another context as well. -/
def Within (c d : Context) : Prop :=
  (∀ k n, c.names.get? k = some n → d.names.get? k = some n) ∧
    ∀ k v, c.values.get? k = some v → d.values.get? k = some v

/-- A context lies within itself. -/
theorem Within.refl (c : Context) : c.Within c :=
  ⟨fun _ _ h => h, fun _ _ h => h⟩

/-- Lying within one another is transitive. -/
theorem Within.trans {c d e : Context} (hcd : c.Within d) (hde : d.Within e) : c.Within e :=
  ⟨fun k n h => hde.1 k n (hcd.1 k n h), fun k v h => hde.2 k v (hcd.2 k v h)⟩

end Context

namespace Bindings

/-- What has been handed out, as a context. -/
def context (b : Bindings) : Context := ⟨b.names, b.values⟩

/-- A context without entries is labelled. -/
theorem labelled_empty : Bindings.empty.context.Labelled :=
  ⟨fun k n h => by simp [empty, context] at h, fun k v h => by simp [empty, context] at h⟩

end Bindings

/-- **Compiling.**  What has been handed out is kept, what is handed out are labels, and the result
has a property in every context that agrees with the bindings left. -/
def Compiles {α : Type} (m : StateM Bindings α) (Q : α → Context → Prop) : Prop :=
  ∀ b : Bindings, b.context.Labelled →
    b.context.Within (m.run b).2.context ∧ (m.run b).2.context.Labelled ∧
      ∀ ctx, (m.run b).2.context.Within ctx → Q (m.run b).1 ctx

namespace Compiles

variable {α β : Type} {Q Q' : α → Context → Prop}

/-- What compiles with one property compiles with a weaker one. -/
theorem imp {m : StateM Bindings α} (h : Compiles m Q) (hq : ∀ a ctx, Q a ctx → Q' a ctx) :
    Compiles m Q' := by
  intro b hb
  obtain ⟨hwithin, hlabelled, hres⟩ := h b hb
  exact ⟨hwithin, hlabelled, fun ctx hctx => hq _ ctx (hres ctx hctx)⟩

/-- A result that is known before binds nothing. -/
theorem pure {a : α} (h : ∀ ctx, Q a ctx) : Compiles (Pure.pure a) Q :=
  fun b hb => ⟨.refl b.context, hb, fun ctx _ => h ctx⟩

/-- What the first part was given still means the same after the second. -/
theorem bind {m : StateM Bindings α} {f : α → StateM Bindings β} {R : α → β → Context → Prop}
    (hm : Compiles m Q) (hf : ∀ a, Compiles (f a) (R a)) :
    Compiles (m >>= f) fun c ctx => ∃ a, Q a ctx ∧ R a c ctx := by
  intro b hb
  obtain ⟨hwithin, hlabelled, hres⟩ := hm b hb
  obtain ⟨hwithin', hlabelled', hres'⟩ := hf (m.run b).1 (m.run b).2 hlabelled
  refine ⟨hwithin.trans hwithin', hlabelled', ?_⟩
  intro ctx hctx
  exact ⟨(m.run b).1, hres ctx (hwithin'.trans hctx), hres' ctx hctx⟩

/-- A mapped result has the property of what it was mapped from. -/
theorem map {m : StateM Bindings α} (f : α → β) (hm : Compiles m Q) :
    Compiles (f <$> m) fun c ctx => ∃ a, Q a ctx ∧ c = f a := by
  intro b hb
  obtain ⟨hwithin, hlabelled, hres⟩ := hm b hb
  exact ⟨hwithin, hlabelled, fun ctx hctx => ⟨_, hres ctx hctx, rfl⟩⟩

/-- A list is compiled member by member. -/
theorem mapM {f : α → StateM Bindings β} {R : α → β → Context → Prop} (xs : List α)
    (h : ∀ x ∈ xs, Compiles (f x) (R x)) :
    Compiles (xs.mapM f) fun ys ctx => List.Forall₂ (fun x y => R x y ctx) xs ys := by
  induction xs with
  | nil => exact pure fun ctx => .nil
  | cons x xs ih =>
      have hx : Compiles (f x) (R x) := h x List.mem_cons_self
      have hxs := ih fun y hy => h y (List.mem_cons_of_mem _ hy)
      rw [List.mapM_cons]
      refine (hx.bind fun y => hxs.map (y :: ·)).imp ?_
      intro zs ctx hzs
      obtain ⟨y, hy, ys, hys, rfl⟩ := hzs
      exact .cons hy hys

/-- What has been compiled was compiled from something. -/
theorem exists_source {R : α → β → Prop} {xs : List α} {ys : List β} (h : List.Forall₂ R xs ys)
    {y : β} (hy : y ∈ ys) : ∃ x ∈ xs, R x y := by
  induction h with
  | nil => simp at hy
  | cons hxy _ ih =>
      rcases List.mem_cons.mp hy with rfl | hy
      · exact ⟨_, List.mem_cons_self, hxy⟩
      · obtain ⟨x, hx, hxy⟩ := ih hy
        exact ⟨x, List.mem_cons_of_mem _ hx, hxy⟩

/-- What was to be compiled has been compiled to something. -/
theorem exists_result {R : α → β → Prop} {xs : List α} {ys : List β} (h : List.Forall₂ R xs ys)
    {x : α} (hx : x ∈ xs) : ∃ y ∈ ys, R x y :=
  exists_source h.flip hx

end Compiles

namespace Clause

/-- The alias of a field name stands for that name. -/
theorem compiles_aliasOf (field : String) :
    Compiles (Bindings.aliasOf field) fun label ctx => ctx.Names label field := by
  intro b hb
  refine ⟨⟨fun k n h => Naming.get?_aliasOf_of_get? h field, fun k v h => h⟩,
    ⟨fun k n h => Naming.isLabel_of_get?_aliasOf hb.1 h, hb.2⟩, fun ctx hctx => ?_⟩
  have hname := Naming.get?_aliasOf b.names field
  exact ⟨Naming.isLabel_of_get?_aliasOf hb.1 hname, hctx.1 _ _ hname⟩

/-- A placeholder gives its value in every later context. -/
theorem compiles_placeholderFor {candidate : String} (h : IsLabel ':' candidate) (v : Value) :
    Compiles (Bindings.placeholderFor candidate v) fun label ctx => ctx.Gives (.value label) v := by
  intro b hb
  refine ⟨⟨fun k n h => h, fun k w h => Naming.get?_placeholderFor_of_get? h candidate v⟩,
    ⟨hb.1, fun k w hk => Naming.isLabel_of_get?_placeholderFor hb.2 h hk⟩, fun ctx hctx => ?_⟩
  have hvalue := Naming.get?_placeholderFor b.values candidate v
  exact ⟨_, rfl, Naming.isLabel_of_get?_placeholderFor hb.2 h hvalue, hctx.2 _ _ hvalue⟩

/-- The placeholder for the value of a path stands for that value. -/
theorem compiles_bindValue (path : String) (v : Value) :
    Compiles (bindValue path v) fun o ctx => ctx.Gives o v := by
  have hlabel : IsLabel ':' (":" ++ Naming.spelling path) := Naming.isLabel_spelling rfl path
  refine ((compiles_placeholderFor hlabel v).map Operand.value).imp ?_
  intro o ctx h
  obtain ⟨label, hgives, rfl⟩ := h
  exact hgives

/-- The placeholder for one of several values of a path stands for that value. -/
theorem compiles_bindIndexed (path : String) (index : Nat) (v : Value) :
    Compiles (bindIndexed path index v) fun o ctx => ctx.Gives o v := by
  have hlabel : IsLabel ':' (":" ++ Naming.spelling path ++ toString index) :=
    Naming.isLabel_append_toString (Naming.isLabel_spelling rfl path) index
  refine ((compiles_placeholderFor hlabel v).map Operand.value).imp ?_
  intro o ctx h
  obtain ⟨label, hgives, rfl⟩ := h
  exact hgives

/-- An entry of a map field gets a path of two aliases and a placeholder. -/
theorem compiles_bindEntry (field path : String) (entry : String × Value) :
    Compiles (bindEntry field path entry) fun r ctx =>
      ∃ outer inner, r.1 = [outer, inner] ∧ ctx.Names outer field ∧ ctx.Names inner entry.1 ∧
        ctx.Gives r.2 entry.2 := by
  have hvalue (outer inner : String) := (compiles_bindValue (path ++ "." ++ entry.1) entry.2).map
    fun p => (([outer, inner] : Path), p)
  have hinner (outer : String) := (compiles_aliasOf entry.1).bind (hvalue outer)
  refine ((compiles_aliasOf field).bind hinner).imp ?_
  intro r ctx h
  obtain ⟨outer, houter, inner, hinner, p, hp, rfl⟩ := h
  exact ⟨outer, inner, rfl, houter, hinner, hp⟩

end Clause

end RecordStore
