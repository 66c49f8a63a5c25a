import RecordStore.Proofs.Compile.Actions

/-!
# What an update leaves alone

A path stands for a *place*: the names that lead from a record into one map after the other.  An action
sets the place that its path stands for, and nothing that is apart from it; two paths with different
aliases may stand for one place.

What carries this is that setting an entry deep in a record changes the maps on the way to it in this
entry only (`Item.at?_putAt_of_apart`).  The value of an action depends on the attributes that its operands
begin with.  So two actions that begin in different attributes, neither of which reads the attribute of the
other, do the same in either order.

* `Item.at?` — what a record holds at a place;
* `Item.ChangesAt` — some places are changed and the others are not;
* `SetAction.changesAt_of_apply`, `Update.changesAt_of_apply` — one action, and a whole update;
* `SetAction.apply_insert` — an action does not see an attribute that it neither sets nor reads;
* `Update.apply_swap` — so independent actions can change places;
* `Update.apply_touches_places` — both together.
-/

namespace RecordStore

/-- What names lead to from a value, each in the map that the names before it lead to. -/
def Value.at? : Value → List String → Option Value
  | v, [] => some v
  | v, name :: rest => (v.entries?.bind fun d => d.get? name).bind fun w => w.at? rest

namespace Item

/-- What a record holds at a place. -/
def at? (item : Item) (place : List String) : Option Value := (Value.map item).at? place

/-- Neither of two places lies within the other. -/
def Apart (p q : List String) : Prop := ¬ p <+: q ∧ ¬ q <+: p

variable {item changed : Item} {name last : String} {v : Value} {parents place : List String}

/-- The first name leads to an attribute, and the others lead on from there. -/
theorem at?_cons (item : Item) (name : String) (rest : List String) :
    item.at? (name :: rest) = (item.get? name).bind fun w => w.at? rest := rfl

/-- A place of one name is an attribute. -/
theorem at?_singleton (item : Item) (name : String) : item.at? [name] = item.get? name := by
  rw [at?_cons]
  cases item.get? name <;> rfl

/-- Binding an attribute changes what lies below it and nothing else. -/
theorem at?_insert (item : Item) (name : String) (v : Value) (n : String) (rest : List String) :
    Item.at? (item.insert name v) (n :: rest) =
      if n = name then v.at? rest else item.at? (n :: rest) := by
  rw [at?_cons, at?_cons, Dict.get?_insert]
  split <;> rfl

/-- A place that is apart from another has a name: the empty place has every place within it. -/
theorem Apart.exists_cons {p q : List String} (h : Apart p q) : ∃ n rest, q = n :: rest := by
  cases q with
  | nil => exact absurd List.nil_prefix h.2
  | cons n rest => exact ⟨n, rest, rfl⟩

/-- Setting an entry below a name changes the map that is there. -/
theorem putAt_cons_eq_some {rest : List String} (h : item.putAt last v (name :: rest) = some changed) :
    ∃ inner inner', item.get? name = some (.map inner) ∧ Item.putAt inner last v rest = some inner' ∧
      changed = item.insert name (.map inner') := by
  rw [putAt] at h
  split at h
  · rename_i inner hinner
    obtain ⟨inner', hput, rfl⟩ := Option.map_eq_some_iff.mp h
    exact ⟨inner, inner', hinner, hput, rfl⟩
  · cases h

/-- **Setting an entry leaves what is apart from it.** -/
theorem at?_putAt_of_apart (h : item.putAt last v parents = some changed)
    (hapart : Apart (parents ++ [last]) place) : changed.at? place = item.at? place := by
  induction parents generalizing item changed place with
  | nil =>
      obtain rfl := Option.some.inj h
      obtain ⟨n, rest, rfl⟩ := hapart.exists_cons
      have hn : n ≠ last := by
        rintro rfl
        exact hapart.1 (List.cons_prefix_cons.mpr ⟨rfl, List.nil_prefix⟩)
      rw [at?_insert, if_neg hn]
  | cons name parents ih =>
      obtain ⟨inner, inner', hinner, hput, rfl⟩ := putAt_cons_eq_some h
      obtain ⟨n, rest, rfl⟩ := hapart.exists_cons
      rw [at?_insert]
      split
      · rename_i hn
        subst hn
        have hrest : Apart (parents ++ [last]) rest :=
          ⟨fun hp => hapart.1 (List.cons_prefix_cons.mpr ⟨rfl, hp⟩),
            fun hp => hapart.2 (List.cons_prefix_cons.mpr ⟨rfl, hp⟩)⟩
        rw [at?_cons, hinner]
        exact ih hput hrest
      · rfl

/-- Setting an entry removes nothing that is not within it. -/
theorem isSome_at?_putAt (h : item.putAt last v parents = some changed)
    (hwithin : parents ++ [last] <+: place → place = parents ++ [last])
    (hthere : (item.at? place).isSome = true) : (changed.at? place).isSome = true := by
  induction parents generalizing item changed place with
  | nil =>
      obtain rfl := Option.some.inj h
      cases place with
      | nil => rfl
      | cons n rest =>
          rw [at?_insert]
          split
          · rename_i hn
            subst hn
            obtain ⟨_, rfl⟩ := List.cons.inj (hwithin (List.cons_prefix_cons.mpr ⟨rfl, List.nil_prefix⟩))
            rfl
          · exact hthere
  | cons name parents ih =>
      obtain ⟨inner, inner', hinner, hput, rfl⟩ := putAt_cons_eq_some h
      cases place with
      | nil => rfl
      | cons n rest =>
          rw [at?_insert]
          split
          · rename_i hn
            subst hn
            rw [at?_cons, hinner] at hthere
            refine ih hput ?_ hthere
            intro hp
            exact (List.cons.inj (hwithin (List.cons_prefix_cons.mpr ⟨rfl, hp⟩))).2
          · exact hthere

/-- Setting an entry does not see an attribute that is not on the way to it. -/
theorem putAt_insert {other : String} (w : Value) (h : (parents ++ [last]).head? ≠ some other) :
    Item.putAt (item.insert other w) last v parents =
      (item.putAt last v parents).map fun changed => changed.insert other w := by
  cases parents with
  | nil =>
      have hne : other ≠ last := fun heq => h (congrArg some heq.symm)
      exact congrArg some (Dict.insert_comm hne item w v)
  | cons name parents =>
      have hne : name ≠ other := fun heq => h (congrArg some heq)
      rw [putAt, putAt, Dict.get?_insert, if_neg hne]
      split
      · rename_i inner _
        cases Item.putAt inner last v parents with
        | none => rfl
        | some inner' => exact congrArg some (Dict.insert_comm hne.symm item w (.map inner'))
      · rfl

end Item

namespace Item

/-- A record has been changed at some places: what is apart from them is as it was, and nothing has
disappeared that is not within one of them. -/
structure ChangesAt (places : List (List String)) (item changed : Item) : Prop where
  same : ∀ place, (∀ p ∈ places, Apart p place) → changed.at? place = item.at? place
  there : ∀ place, (∀ p ∈ places, p <+: place → place = p) → (item.at? place).isSome = true →
    (changed.at? place).isSome = true

namespace ChangesAt

/-- A record is what it is changed to at no place. -/
theorem refl (item : Item) : item.ChangesAt [] item :=
  ⟨fun _ _ => rfl, fun _ _ h => h⟩

/-- Changes one after the other are changes at all of their places. -/
theorem trans {item middle changed : Item} {p : List String} {ps : List (List String)}
    (h : item.ChangesAt [p] middle) (h' : middle.ChangesAt ps changed) :
    item.ChangesAt (p :: ps) changed := by
  constructor
  · intro place hapart
    obtain ⟨hp, hps⟩ := List.forall_mem_cons.mp hapart
    rw [h'.same place hps, h.same place (List.forall_mem_singleton.mpr hp)]
  · intro place hwithin hthere
    obtain ⟨hp, hps⟩ := List.forall_mem_cons.mp hwithin
    exact h'.there place hps (h.there place (List.forall_mem_singleton.mpr hp) hthere)

end ChangesAt

end Item

/-- The paths that an operand follows. -/
def Operand.paths : Operand → List Path
  | .path p => [p]
  | .value _ => []

/-- The paths that a new value is computed from. -/
def NewValue.paths : NewValue → List Path
  | .operand o => o.paths
  | .sum left right => left.paths ++ right.paths
  | .difference left right => left.paths ++ right.paths

namespace Context

/-- The place that a path stands for. -/
def placeOf (ctx : Context) (path : Path) : Except ExpressionFault (List String) :=
  path.mapM ctx.nameOf

/-- A path begins in the attribute with a name. -/
def BeginsIn (ctx : Context) : Path → String → Prop
  | [], _ => False
  | segment :: _, name => ctx.nameOf segment = .ok name

instance (ctx : Context) (path : Path) (name : String) : Decidable (ctx.BeginsIn path name) :=
  match path with
  | [] => inferInstanceAs (Decidable False)
  | segment :: _ => inferInstanceAs (Decidable (ctx.nameOf segment = .ok name))

variable {ctx : Context} {item changed : Item} {path : Path} {place : List String} {name : String}

/-- A place begins with the name of the first segment. -/
theorem placeOf_cons {segment : String} (h : ctx.placeOf (segment :: path) = .ok place) :
    ∃ name rest, ctx.nameOf segment = .ok name ∧ ctx.placeOf path = .ok rest ∧
      place = name :: rest := by
  rw [placeOf, List.mapM_cons] at h
  obtain ⟨name, hname, h⟩ := Condition.bind_eq_ok h
  obtain ⟨rest, hrest, h⟩ := Condition.bind_eq_ok h
  exact ⟨name, rest, hname, hrest, (Except.ok.inj h).symm⟩

/-- A path with one more segment stands for the place with one more name. -/
theorem placeOf_append {ctx : Context} {path : Path} {segment last : String} {parents : List String}
    (hparents : path.mapM ctx.nameOf = .ok parents) (hlast : ctx.nameOf segment = .ok last) :
    ctx.placeOf (path ++ [segment]) = .ok (parents ++ [last]) := by
  rw [placeOf, List.mapM_append, hparents]
  simp [hlast, bind, Except.bind, pure, Except.pure]

/-- The place of a path begins where the path begins. -/
theorem BeginsIn.head?_eq (h : ctx.BeginsIn path name) (hplace : ctx.placeOf path = .ok place) :
    place.head? = some name := by
  cases path with
  | nil => exact h.elim
  | cons segment path =>
      obtain ⟨first, rest, hfirst, _, rfl⟩ := placeOf_cons hplace
      obtain rfl := Except.ok.inj (hfirst.symm.trans h)
      rfl

/-- Setting what a path leads to sets the entry at its place. -/
theorem assign_eq_ok {v : Value} (h : ctx.assign item path v = .ok changed) :
    ∃ parents last, ctx.placeOf path = .ok (parents ++ [last]) ∧
      item.putAt last v parents = some changed := by
  rw [assign] at h
  split at h
  · cases h
  · rename_i segment hsegment
    obtain ⟨last, hlast, h⟩ := Condition.bind_eq_ok h
    obtain ⟨parents, hparents, h⟩ := Condition.bind_eq_ok h
    split at h
    · rename_i result hput
      obtain rfl := Except.ok.inj h
      refine ⟨parents, last, ?_, hput⟩
      rw [← List.dropLast_append_getLast? segment hsegment]
      exact placeOf_append hparents hlast
    · cases h

/-- Setting what a path leads to does not see an attribute that it does not begin in. -/
theorem assign_insert {other : String} (hbegins : ctx.BeginsIn path name) (hne : name ≠ other)
    (w v : Value) : ctx.assign (item.insert other w) path v =
      (ctx.assign item path v).map fun changed => changed.insert other w := by
  rw [assign, assign]
  split
  · rfl
  · rename_i segment hsegment
    cases hlast : ctx.nameOf segment with
    | error e => rfl
    | ok last =>
        cases hparents : path.dropLast.mapM ctx.nameOf with
        | error e => rfl
        | ok parents =>
            have hplace := placeOf_append hparents hlast
            rw [List.dropLast_append_getLast? segment hsegment] at hplace
            have hhead : (parents ++ [last]).head? ≠ some other := by
              rw [hbegins.head?_eq hplace]
              exact fun heq => hne (Option.some.inj heq)
            simp only [bind, Except.bind, Item.putAt_insert w hhead]
            cases Item.putAt item last v parents <;> rfl

/-- Going down a path leads to what is at its place. -/
theorem descend_eq_at? {found : Option Value} (hplace : ctx.placeOf path = .ok place) :
    ctx.descend found path = .ok (found.bind fun v => v.at? place) := by
  induction path generalizing found place with
  | nil =>
      obtain rfl := Except.ok.inj hplace
      cases found <;> rfl
  | cons segment path ih =>
      obtain ⟨name, rest, hname, hrest, rfl⟩ := placeOf_cons hplace
      rw [descend, hname]
      cases found with
      | none => exact @ih rest none hrest
      | some v => exact ih hrest

/-- A path finds what the record holds at its place. -/
theorem resolve_eq_at? (hne : path ≠ []) (hplace : ctx.placeOf path = .ok place) :
    ctx.resolve item path = .ok (item.at? place) := by
  cases path with
  | nil => exact absurd rfl hne
  | cons segment path =>
      obtain ⟨name, rest, hname, hrest, rfl⟩ := placeOf_cons hplace
      rw [resolve, hname]
      exact descend_eq_at? hrest

/-- What a path finds does not depend on an attribute that it does not begin in. -/
theorem resolve_insert {other : String} (h : ¬ ctx.BeginsIn path other) (w : Value) :
    ctx.resolve (item.insert other w) path = ctx.resolve item path := by
  cases path with
  | nil => rfl
  | cons segment rest =>
      rw [resolve, resolve]
      cases hname : ctx.nameOf segment with
      | error e => rfl
      | ok name =>
          have hne : name ≠ other := by
            rintro rfl
            exact h hname
          simp only [bind, Except.bind, Dict.get?_insert, if_neg hne]

end Context

/-- An operand demands nothing new of a record when an attribute changes that it does not begin in. -/
theorem Operand.demand_insert {ctx : Context} {item : Item} {o : Operand} {other : String}
    (h : ∀ path ∈ o.paths, ¬ ctx.BeginsIn path other) (w : Value) :
    o.demand ctx (item.insert other w) = o.demand ctx item := by
  cases o with
  | value label => rfl
  | path p => rw [demand, demand, Context.resolve_insert (h p List.mem_cons_self)]

/-- A new value does not depend on an attribute that none of its paths begins in. -/
theorem NewValue.compute_insert {ctx : Context} {item : Item} {value : NewValue} {other : String}
    (h : ∀ path ∈ value.paths, ¬ ctx.BeginsIn path other) (w : Value) :
    value.compute ctx (item.insert other w) = value.compute ctx item := by
  cases value with
  | operand o => exact Operand.demand_insert h w
  | sum left right =>
      obtain ⟨hleft, hright⟩ := List.forall_mem_append.mp h
      rw [compute, compute, Operand.demand_insert hleft, Operand.demand_insert hright]
  | difference left right =>
      obtain ⟨hleft, hright⟩ := List.forall_mem_append.mp h
      rw [compute, compute, Operand.demand_insert hleft, Operand.demand_insert hright]

namespace SetAction

variable {ctx : Context} {item changed : Item} {a b : SetAction} {m n : String}

/-- An action reads the attribute with a name. -/
def Reads (ctx : Context) (a : SetAction) (name : String) : Prop :=
  ∃ path ∈ a.value.paths, ctx.BeginsIn path name

instance (ctx : Context) (a : SetAction) (name : String) : Decidable (a.Reads ctx name) :=
  inferInstanceAs (Decidable (∃ path ∈ a.value.paths, ctx.BeginsIn path name))

/-- Two actions set different attributes, or entries in different attributes, and neither reads the
attribute of the other. -/
def Independent (ctx : Context) (a b : SetAction) : Prop :=
  ∃ m n, ctx.BeginsIn a.path m ∧ ctx.BeginsIn b.path n ∧ m ≠ n ∧ ¬ a.Reads ctx n ∧ ¬ b.Reads ctx m

/-- An action sets the entry at the place of its path. -/
theorem apply_eq_ok (h : a.apply ctx item = .ok changed) :
    ∃ v parents last, ctx.placeOf a.path = .ok (parents ++ [last]) ∧
      item.putAt last v parents = some changed := by
  obtain ⟨v, _, hassign⟩ := Condition.bind_eq_ok h
  obtain ⟨parents, last, hplace, hput⟩ := Context.assign_eq_ok hassign
  exact ⟨v, parents, last, hplace, hput⟩

/-- **One action** changes its place. -/
theorem changesAt_of_apply (h : a.apply ctx item = .ok changed) :
    ∃ place, ctx.placeOf a.path = .ok place ∧ place ≠ [] ∧ item.ChangesAt [place] changed := by
  obtain ⟨v, parents, last, hplace, hput⟩ := apply_eq_ok h
  refine ⟨_, hplace, List.append_ne_nil_of_right_ne_nil _ (List.cons_ne_nil last []), ?_, ?_⟩
  · intro place hapart
    exact Item.at?_putAt_of_apart hput (hapart _ List.mem_cons_self)
  · intro place hwithin hthere
    exact Item.isSome_at?_putAt hput (hwithin _ List.mem_cons_self) hthere

/-- An action changes the attribute that its path begins in, and no other. -/
theorem apply_eq_insert (hbegins : ctx.BeginsIn a.path m) (h : a.apply ctx item = .ok changed) :
    ∃ v, changed = item.insert m v := by
  obtain ⟨v, parents, last, hplace, hput⟩ := apply_eq_ok h
  have hhead := hbegins.head?_eq hplace
  cases parents with
  | nil =>
      obtain rfl := Option.some.inj hhead
      exact ⟨v, (Option.some.inj hput).symm⟩
  | cons name parents =>
      obtain rfl := Option.some.inj hhead
      obtain ⟨_, inner, _, _, rfl⟩ := Item.putAt_cons_eq_some hput
      exact ⟨.map inner, rfl⟩

/-- **An action does not see an attribute that it neither sets nor reads.** -/
theorem apply_insert (hbegins : ctx.BeginsIn a.path m) (hne : m ≠ n) (hreads : ¬ a.Reads ctx n)
    (w : Value) : a.apply ctx (item.insert n w) =
      (a.apply ctx item).map fun changed => changed.insert n w := by
  have hcompute : a.value.compute ctx (item.insert n w) = a.value.compute ctx item :=
    NewValue.compute_insert (fun path hpath hp => hreads ⟨path, hpath, hp⟩) w
  rw [apply, apply, hcompute]
  cases a.value.compute ctx item with
  | error e => rfl
  | ok v => exact Context.assign_insert hbegins hne w v

/-- **Independent actions** do the same in either order, or one of them fails in either order. -/
theorem Independent.apply_swap (h : Independent ctx a b) (item : Item) :
    (a.apply ctx item >>= b.apply ctx).toOption = (b.apply ctx item >>= a.apply ctx).toOption := by
  obtain ⟨m, n, ha, hb, hne, hreads, hreads'⟩ := h
  have hafter (w : Value) := @apply_insert ctx item a m n ha hne hreads w
  have hafter' (v : Value) := @apply_insert ctx item b n m hb hne.symm hreads' v
  cases hfirst : a.apply ctx item with
  | error e =>
      rw [hfirst] at hafter
      cases hsecond : b.apply ctx item with
      | error e' => rfl
      | ok changed =>
          obtain ⟨w, rfl⟩ := apply_eq_insert hb hsecond
          exact (congrArg Except.toOption (hafter w)).symm
  | ok changed =>
      obtain ⟨v, rfl⟩ := apply_eq_insert ha hfirst
      rw [hfirst] at hafter
      cases hsecond : b.apply ctx item with
      | error e' =>
          rw [hsecond] at hafter'
          exact congrArg Except.toOption (hafter' v)
      | ok changed' =>
          obtain ⟨w, rfl⟩ := apply_eq_insert hb hsecond
          rw [hsecond] at hafter'
          have hcomm : ((item.insert n w).insert m v) = (item.insert m v).insert n w :=
            Dict.insert_comm hne.symm item w v
          calc (b.apply ctx (item.insert m v)).toOption
              = some ((item.insert n w).insert m v) := congrArg Except.toOption (hafter' v)
            _ = some ((item.insert m v).insert n w) := congrArg some hcomm
            _ = (a.apply ctx (item.insert n w)).toOption := (congrArg Except.toOption (hafter w)).symm

end SetAction

namespace Update

variable {ctx : Context} {item changed : Item} {u : Update}

/-- The places that the actions of an update set. -/
def placesOf (ctx : Context) (u : Update) : Except ExpressionFault (List (List String)) :=
  u.mapM fun a => ctx.placeOf a.path

/-- **A whole update** changes the places of its actions. -/
theorem changesAt_of_apply (h : u.apply ctx item = .ok changed) :
    ∃ places, u.placesOf ctx = .ok places ∧ [] ∉ places ∧ item.ChangesAt places changed := by
  induction u generalizing item with
  | nil =>
      obtain rfl := Except.ok.inj h
      exact ⟨[], rfl, List.not_mem_nil, .refl item⟩
  | cons a u ih =>
      obtain ⟨middle, hmiddle, hrest⟩ := Condition.bind_eq_ok h
      obtain ⟨place, hplace, hne, hfirst⟩ := SetAction.changesAt_of_apply hmiddle
      obtain ⟨places, hplaces, hnil, hmore⟩ := ih hrest
      refine ⟨place :: places, ?_, ?_, hfirst.trans hmore⟩
      · rw [placesOf] at hplaces
        rw [placesOf, List.mapM_cons, hplace, hplaces]
        rfl
      · rw [List.mem_cons, not_or]
        exact ⟨hne.symm, hnil⟩

/-- A sequence succeeds where both of its steps do. -/
theorem toOption_bind {ε α β : Type} (x : Except ε α) (f : α → Except ε β) :
    (x >>= f).toOption = x.toOption.bind fun a => (f a).toOption := by
  cases x <;> rfl

/-- Two independent actions next to one another can change places. -/
theorem apply_swap {a b : SetAction} (h : a.Independent ctx b) (before after : Update) (item : Item) :
    (apply ctx item (before ++ b :: a :: after)).toOption =
      (apply ctx item (before ++ a :: b :: after)).toOption := by
  have hpair (first second : SetAction) (middle : Item) :
      (apply ctx middle (first :: second :: after)).toOption =
        (first.apply ctx middle >>= second.apply ctx).toOption.bind fun changed =>
          (apply ctx changed after).toOption := by
    rw [← toOption_bind, apply]
    cases first.apply ctx middle <;> rfl
  rw [apply_append, apply_append, toOption_bind, toOption_bind]
  refine Option.bind_congr ?_
  intro middle _
  rw [hpair, hpair, h.apply_swap]

/-- **What an update touches.**  An update that succeeds sets the places that the paths of its actions
stand for.  An attribute that none of them begins in is as it was, and no attribute disappears.  At
any depth, an entry that is apart from all of these places is as it was, whatever path it is looked up by,
and no entry disappears but within one of them.  And two actions next to one another can change places, if
they set different attributes and neither reads the attribute of the other: the result is the same record,
or there is none in either order. -/
theorem apply_touches_places (ctx : Context) (u : Update) :
    (∀ item changed, u.apply ctx item = .ok changed →
      ∃ places, u.placesOf ctx = .ok places ∧
        (∀ name, (∀ p ∈ places, p.head? ≠ some name) → changed.get? name = item.get? name) ∧
        (∀ name, item.contains name = true → changed.contains name = true) ∧
        (∀ path place, ctx.placeOf path = .ok place → (∀ p ∈ places, Item.Apart p place) →
          ctx.resolve changed path = ctx.resolve item path) ∧
        item.ChangesAt places changed) ∧
    ∀ before a b after, u = before ++ a :: b :: after → a.Independent ctx b → ∀ item,
      (apply ctx item (before ++ b :: a :: after)).toOption = (u.apply ctx item).toOption := by
  constructor
  · intro item changed h
    obtain ⟨places, hplaces, hnil, hchanges⟩ := changesAt_of_apply h
    refine ⟨places, hplaces, ?_, ?_, ?_, hchanges⟩
    · intro name hname
      rw [← Item.at?_singleton changed, ← Item.at?_singleton item]
      refine hchanges.same [name] ?_
      intro p hp
      cases p with
      | nil => exact absurd hp hnil
      | cons n rest =>
          have hn : n ≠ name := fun heq => hname _ hp (congrArg some heq)
          exact ⟨fun hprefix => hn (List.cons_prefix_cons.mp hprefix).1,
            fun hprefix => hn (List.cons_prefix_cons.mp hprefix).1.symm⟩
    · intro name hthere
      rw [Dict.contains, ← Item.at?_singleton] at hthere ⊢
      refine hchanges.there [name] ?_ hthere
      intro p hp hprefix
      rcases List.prefix_cons_iff.mp hprefix with rfl | ⟨rest, rfl, hrest⟩
      · exact absurd hp hnil
      · rw [List.prefix_nil.mp hrest]
    · intro path place hplace hapart
      cases path with
      | nil => rfl
      | cons segment rest =>
          have hne : segment :: rest ≠ [] := List.cons_ne_nil segment rest
          rw [Context.resolve_eq_at? hne hplace, Context.resolve_eq_at? hne hplace,
            hchanges.same place hapart]
  · rintro before a b after rfl h item
    exact apply_swap h before after item

/-- A book with so many copies, on a shelf. -/
def book (copies : String) (shelf : List (String × Value)) : Item :=
  .ofList [("copies", .number copies), ("shelf", .map (.ofList shelf))]

/-- Two aliases of one attribute, and a row. -/
def bookContext : Context :=
  ⟨.ofList [("#here", "shelf"), ("#shelf", "shelf"), ("#row", "row")], .ofList [(":row", .string "C")]⟩

/-- Moves a book to another row, copies its side, and counts it twice. -/
def moveBook : Update :=
  [⟨["#shelf", "#row"], .operand (.value ":row")⟩,
    ⟨["#here", "was"], .operand (.path ["#shelf", "side"])⟩,
    ⟨["copies"], .sum (.path ["copies"]) (.path ["copies"])⟩]

/-- The side of a book is as it was, and the last two actions can change places. -/
theorem apply_touches_places_moveBook :
    let before := book "2" [("row", .string "B"), ("side", .string "left")]
    let after := book "4" [("row", .string "C"), ("side", .string "left"), ("was", .string "left")]
    moveBook.apply bookContext before = .ok after ∧
      Item.at? after ["shelf", "side"] = Item.at? before ["shelf", "side"] ∧
      moveBook = moveBook.take 1 ++ moveBook[1] :: moveBook[2] :: [] ∧
      moveBook[1].Independent bookContext moveBook[2] ∧
      (apply bookContext before (moveBook.take 1 ++ moveBook[2] :: moveBook[1] :: [])).toOption =
        some after := by
  intro before after
  have happly : moveBook.apply bookContext before = .ok after := by decide +kernel
  have hplaces : moveBook.placesOf bookContext =
      .ok [["shelf", "row"], ["shelf", "was"], ["copies"]] := by decide +kernel
  have hindependent : moveBook[1].Independent bookContext moveBook[2] :=
    ⟨"shelf", "copies", by decide +kernel⟩
  obtain ⟨htouches, hswap⟩ := apply_touches_places bookContext moveBook
  obtain ⟨places, hof, _, _, _, hchanges⟩ := htouches before after happly
  obtain rfl := Except.ok.inj (hplaces.symm.trans hof)
  refine ⟨happly, hchanges.same _ ?_, rfl, hindependent, ?_⟩
  · simp [Item.Apart]
  · rw [hswap (moveBook.take 1) moveBook[1] moveBook[2] [] rfl hindependent, happly]
    rfl

end Update

end RecordStore
