import RecordStore.Store.Table

/-!
# The order of a read

Where every attribute that a read is ordered by holds texts only, or bytes only, or truth values only,
comparing records by these attributes is comparing lists of keys: an order in which two records tie
only if they agree in all of the attributes.

The comparison of the table takes any values.  `KeyKind.compareAt` compares keys of one kind, an absent
one being least, and `lexCompare` goes through the attributes; both are orders by their construction,
and on records of the right kinds they are the comparison of the table.

* `compareOn_lt_trans` — the order is transitive;
* `get?_eq_of_compareOn_eq` — records that tie agree;
* `compareOn_project_right` — a cursor made from a record stands where the record stands;
* `Precedes` — what comes before what in a stable sort;
* `pairwise_sorted_precedes`, `pairwise_sorted_isLE` — sorted records are in this order, and so they rise, if
  their order is transitive;
* `pairwise_sorted` — sorted records of the right kinds that do not tie rise strictly.
-/

namespace RecordStore

/-- The bytes of a bytes value. -/
def Value.bytes? : Value → Option (List UInt8)
  | .bytes b => some b
  | _ => none

/-- The truth of a truth value. -/
def Value.truth? : Value → Option Bool
  | .bool b => some b
  | _ => none

/-- What an attribute holds that reads are ordered by. -/
inductive KeyKind where
  | text
  | bytes
  | truth
deriving DecidableEq

namespace KeyKind

/-- The values of a kind. -/
def Holds : KeyKind → Value → Prop
  | .text, v => ∃ s, v = .string s
  | .bytes, v => ∃ b, v = .bytes b
  | .truth, v => ∃ b, v = .bool b

instance (kind : KeyKind) (v : Value) : Decidable (kind.Holds v) :=
  match kind with
  | .text => decidable_of_iff (v.text?.isSome = true) (by cases v <;> simp [Holds, Value.text?])
  | .bytes => decidable_of_iff (v.bytes?.isSome = true) (by cases v <;> simp [Holds, Value.bytes?])
  | .truth => decidable_of_iff (v.truth?.isSome = true) (by cases v <;> simp [Holds, Value.truth?])

/-- Compares two keys of a kind; an absent key is less than any other. -/
def compareKeys : KeyKind → Option Value → Option Value → Ordering
  | .text => compareOn fun v => v.bind Value.text?
  | .bytes => compareOn fun v => v.bind Value.bytes?
  | .truth => compareOn fun v => v.bind Value.truth?

instance (kind : KeyKind) : Std.TransCmp kind.compareKeys := by
  cases kind <;> exact inferInstanceAs (Std.TransCmp (compareOn _))

/-- Compares two records in an attribute with keys of a kind. -/
def compareAt (kind : KeyKind) (name : String) (a b : Item) : Ordering :=
  kind.compareKeys (a.get? name) (b.get? name)

instance (kind : KeyKind) (name : String) : Std.TransCmp (kind.compareAt name) where
  eq_swap := by
    intro a b
    exact @Std.OrientedCmp.eq_swap _ kind.compareKeys _ (a.get? name) (b.get? name)
  isLE_trans := by
    intro a b c hab hbc
    exact @Std.TransCmp.isLE_trans _ kind.compareKeys _ _ (b.get? name) _ hab hbc

/-- Keys of a kind that tie are equal. -/
theorem eq_of_compareKeys {kind : KeyKind} {x y : Option Value}
    (hx : ∀ v, x = some v → kind.Holds v) (hy : ∀ v, y = some v → kind.Holds v)
    (h : kind.compareKeys x y = .eq) : x = y := by
  cases x with
  | none =>
      cases y with
      | none => rfl
      | some w =>
          have hkind := hy w rfl
          cases kind <;> obtain ⟨k, rfl⟩ := hkind <;> cases (show Ordering.lt = .eq from h)
  | some v =>
      have hkind := hx v rfl
      cases y with
      | none => cases kind <;> obtain ⟨k, rfl⟩ := hkind <;> cases (show Ordering.gt = .eq from h)
      | some w =>
          have hkind' := hy w rfl
          cases kind <;> obtain ⟨k, rfl⟩ := hkind <;> obtain ⟨k', rfl⟩ := hkind' <;>
            rw [Std.LawfulEqOrd.eq_of_compare (show compare k k' = .eq from h)]

end KeyKind

namespace Item

/-- Compares two records in a list of attributes, the first difference counting. -/
def lexCompare (kinds : String → KeyKind) : List String → Item → Item → Ordering
  | [] => fun _ _ => .eq
  | name :: rest => compareLex ((kinds name).compareAt name) (lexCompare kinds rest)

instance (kinds : String → KeyKind) (ordering : List String) :
    Std.TransCmp (lexCompare kinds ordering) := by
  induction ordering with
  | nil => exact { eq_swap := rfl, isLE_trans := fun _ _ => rfl }
  | cons name rest ih => exact inferInstanceAs (Std.TransCmp (compareLex _ _))

/-- What a record holds in some attributes is of the kinds of these attributes. -/
def OfKinds (kinds : String → KeyKind) (ordering : List String) (item : Item) : Prop :=
  ∀ name ∈ ordering, ∀ v, item.get? name = some v → (kinds name).Holds v

instance (kinds : String → KeyKind) (ordering : List String) (item : Item) :
    Decidable (item.OfKinds kinds ordering) :=
  inferInstanceAs (Decidable (∀ name ∈ ordering, ∀ v ∈ item.get? name, (kinds name).Holds v))

variable {kinds : String → KeyKind} {ordering : List String} {a b c : Item}

/-- Values of one kind compare as keys. -/
theorem compareAt_eq {kind : KeyKind} {name : String}
    (ha : ∀ v, a.get? name = some v → kind.Holds v)
    (hb : ∀ v, b.get? name = some v → kind.Holds v) :
    compareAt name a b = kind.compareAt name a b := by
  unfold compareAt KeyKind.compareAt
  generalize a.get? name = x at ha
  generalize b.get? name = y at hb
  cases x with
  | none =>
      cases y with
      | none => cases kind <;> rfl
      | some w =>
          have hkind := hb w rfl
          cases kind <;> obtain ⟨k, rfl⟩ := hkind <;> rfl
  | some v =>
      have hkind := ha v rfl
      cases y with
      | none => cases kind <;> obtain ⟨k, rfl⟩ := hkind <;> rfl
      | some w =>
          have hkind' := hb w rfl
          cases kind <;> obtain ⟨k, rfl⟩ := hkind <;> obtain ⟨k', rfl⟩ := hkind' <;> rfl

/-- On records of the right kinds the comparison of the table is that of their keys. -/
theorem compareOn_eq (ha : a.OfKinds kinds ordering) (hb : b.OfKinds kinds ordering) :
    compareOn ordering a b = lexCompare kinds ordering a b := by
  induction ordering with
  | nil => rfl
  | cons name rest ih =>
      have hname : compareAt name a b = (kinds name).compareAt name a b :=
        compareAt_eq (ha name List.mem_cons_self) (hb name List.mem_cons_self)
      have hrest := ih (fun n hn => ha n (List.mem_cons_of_mem _ hn))
        (fun n hn => hb n (List.mem_cons_of_mem _ hn))
      rw [compareOn, hname, hrest, lexCompare, compareLex]
      cases (kinds name).compareAt name a b <;> rfl

/-- Exchanging two records reverses their order, whatever they hold. -/
theorem compareOn_swap (ordering : List String) (a b : Item) :
    compareOn ordering b a = (compareOn ordering a b).swap := by
  induction ordering with
  | nil => rfl
  | cons name rest ih =>
      have hname : compareAt name b a = (compareAt name a b).swap := by
        unfold compareAt
        cases a.get? name <;> cases b.get? name
        case some.some v w =>
          simp only [Value.order_swap v w]
          cases v.order w <;> rfl
        all_goals rfl
      rw [compareOn, compareOn, hname, ih]
      cases compareAt name a b <;> rfl

/-- The order of records of the right kinds is transitive. -/
theorem compareOn_lt_trans (ha : a.OfKinds kinds ordering) (hb : b.OfKinds kinds ordering)
    (hc : c.OfKinds kinds ordering) (hab : compareOn ordering a b = .lt)
    (hbc : compareOn ordering b c = .lt) : compareOn ordering a c = .lt := by
  rw [compareOn_eq ha hb] at hab
  rw [compareOn_eq hb hc] at hbc
  rw [compareOn_eq ha hc]
  exact Std.TransCmp.lt_trans hab hbc

/-- Records of the right kinds that tie agree in every attribute of the order. -/
theorem get?_eq_of_compareOn_eq (ha : a.OfKinds kinds ordering) (hb : b.OfKinds kinds ordering)
    (h : compareOn ordering a b = .eq) : ∀ name ∈ ordering, a.get? name = b.get? name := by
  rw [compareOn_eq ha hb] at h
  induction ordering with
  | nil => simp
  | cons name rest ih =>
      obtain ⟨hname, hrest⟩ := compareLex_eq_eq.mp h
      intro n hn
      rcases List.mem_cons.mp hn with rfl | hn
      · exact KeyKind.eq_of_compareKeys (ha n List.mem_cons_self) (hb n List.mem_cons_self) hname
      · exact ih (fun m hm => ha m (List.mem_cons_of_mem _ hm))
          (fun m hm => hb m (List.mem_cons_of_mem _ hm)) hrest n hn

/-- A record compares by the attributes of the order and by nothing else. -/
theorem compareOn_congr_right (h : ∀ name ∈ ordering, b.get? name = c.get? name) :
    compareOn ordering a b = compareOn ordering a c := by
  induction ordering with
  | nil => rfl
  | cons name rest ih =>
      have hname : compareAt name a b = compareAt name a c := by
        rw [compareAt, compareAt, h name List.mem_cons_self]
      rw [compareOn, compareOn, hname, ih fun n hn => h n (List.mem_cons_of_mem _ hn)]

/-- A part of a record has what the record has in the attributes of the part, and nothing else. -/
theorem get?_project_eq (names : List String) (name : String) (item : Item) :
    (project item names).get? name = if name ∈ names then item.get? name else none := by
  have fold (names : List String) (d : Dict Value) :
      ((names.filterMap fun n => (item.get? n).map fun v => (n, v)).foldl
        (fun d e => d.insert e.1 e.2) d).get? name =
          if name ∈ names then (item.get? name).or (d.get? name) else d.get? name := by
    induction names generalizing d with
    | nil => rfl
    | cons n rest ih =>
        by_cases hname : name = n
        · subst hname
          cases hv : item.get? name <;> simp [hv, ih]
        · cases hv : item.get? n <;> simp [hv, ih, hname]
  have hfold := fold names .empty
  rw [Dict.get?_empty, Option.or_none] at hfold
  exact hfold

theorem get?_project {names : List String} {name : String} (h : name ∈ names) (item : Item) :
    (project item names).get? name = item.get? name := by
  rw [get?_project_eq, if_pos h]

/-- A cursor made from a record stands where the record stands. -/
theorem compareOn_project_right (a b : Item) :
    compareOn ordering a (project b ordering) = compareOn ordering a b :=
  compareOn_congr_right fun _ hname => get?_project hname b

theorem OfKinds.project (h : a.OfKinds kinds ordering) :
    (Item.project a ordering).OfKinds kinds ordering := by
  intro name hname v hv
  rw [get?_project hname] at hv
  exact h name hname v hv

/-- The order of a list of records is transitive. -/
def Ranked (ordering : List String) (items : List Item) : Prop :=
  ∀ x ∈ items, ∀ y ∈ items, ∀ z ∈ items, (compareOn ordering x y).isLE = true →
    (compareOn ordering y z).isLE = true → (compareOn ordering x z).isLE = true

/-- Records of the right kinds are. -/
theorem ranked_of_kinds {items : List Item} (hkinds : ∀ x ∈ items, x.OfKinds kinds ordering) :
    Ranked ordering items := by
  intro x hx y hy z hz hxy hyz
  rw [compareOn_eq (hkinds x hx) (hkinds y hy)] at hxy
  rw [compareOn_eq (hkinds y hy) (hkinds z hz)] at hyz
  rw [compareOn_eq (hkinds x hx) (hkinds z hz)]
  exact Std.TransCmp.isLE_trans hxy hyz

theorem Ranked.subset {items more : List Item} (h : Ranked ordering more) (hsubset : items ⊆ more) :
    Ranked ordering items :=
  fun x hx y hy z hz => h x (hsubset hx) y (hsubset hy) z (hsubset hz)

section Precedes

variable {items : List Item}

/-- A record comes before another in a stable sort: it is less, or the two tie and it came first. -/
def Precedes (ordering : List String) (items : List Item) (a b : Item) : Prop :=
  compareOn ordering a b = .lt ∨ compareOn ordering a b = .eq ∧ [a, b].Sublist items

theorem Precedes.isLE (h : Precedes ordering items a b) : (compareOn ordering a b).isLE = true := by
  obtain hlt | ⟨htie, -⟩ := h
  · rw [hlt]
    rfl
  · rw [htie]
    rfl

theorem Precedes.append (h : Precedes ordering items a b) (more : List Item) :
    Precedes ordering (items ++ more) a b :=
  h.imp_right fun ⟨htie, hfirst⟩ => ⟨htie, hfirst.trans (List.sublist_append_left items more)⟩

/-- Placing a record that came last keeps a list falling and ties in their places. -/
theorem pairwise_place_precedes {item : Item} {seen falling : List Item}
    (hranked : Ranked ordering (seen ++ [item])) (hseen : falling ⊆ seen)
    (h : falling.Pairwise fun x y => Precedes ordering seen y x) :
    (place ordering item falling).Pairwise fun x y => Precedes ordering (seen ++ [item]) y x := by
  induction falling with
  | nil => exact List.pairwise_singleton _ _
  | cons x rest ih =>
      obtain ⟨hx, hrest⟩ := List.pairwise_cons.mp h
      obtain ⟨hxSeen, hrestSeen⟩ := List.cons_subset.mp hseen
      rw [place]
      split
      case isTrue hlt =>
        refine List.pairwise_cons.mpr ⟨?_, ih hrestSeen hrest⟩
        intro y hy
        obtain rfl | hy := List.mem_cons.mp ((perm_place ordering item rest).mem_iff.mp hy)
        · exact .inl hlt
        · exact (hx y hy).append [item]
      case isFalse hnlt =>
        have hle : (compareOn ordering x item).isLE = true := by
          rw [compareOn_swap]
          cases hc : compareOn ordering item x with
          | lt => exact absurd hc hnlt
          | eq => rfl
          | gt => rfl
        have hbelow : ∀ y ∈ x :: rest, (compareOn ordering y item).isLE = true := by
          intro y hy
          obtain rfl | hyRest := List.mem_cons.mp hy
          · exact hle
          · exact hranked y (by simp [hrestSeen hyRest]) x (by simp [hxSeen]) item (by simp)
              (hx y hyRest).isLE hle
        refine List.pairwise_cons.mpr ⟨?_, h.imp fun hprecedes => hprecedes.append [item]⟩
        intro y hy
        have hlast : [y, item].Sublist (seen ++ [item]) :=
          (List.singleton_sublist.mpr (hseen hy)).append (.refl [item])
        cases hc : compareOn ordering y item with
        | lt => exact .inl hc
        | eq => exact .inr ⟨hc, hlast⟩
        | gt =>
            have hgt := hbelow y hy
            rw [hc] at hgt
            cases hgt

/-- **Sorting is stable**, as far as the order of the records is transitive. -/
theorem pairwise_sorted_precedes (hranked : Ranked ordering items) :
    (sorted ordering items).Pairwise (Precedes ordering items) := by
  have fold {seen rest falling : List Item} (hranked : Ranked ordering (seen ++ rest))
      (hseen : falling ⊆ seen) (h : falling.Pairwise fun x y => Precedes ordering seen y x) :
      (rest.foldl (fun falling item => place ordering item falling) falling).Pairwise
        fun x y => Precedes ordering (seen ++ rest) y x := by
    induction rest generalizing seen falling with
    | nil => rwa [List.append_nil]
    | cons item rest ih =>
        rw [List.append_cons] at hranked ⊢
        refine ih hranked ?_ (pairwise_place_precedes ?_ hseen h)
        · intro x hx
          obtain rfl | hx := List.mem_cons.mp ((perm_place ordering item falling).mem_iff.mp hx)
          · exact List.mem_append_right _ List.mem_cons_self
          · exact List.mem_append_left _ (hseen hx)
        · exact hranked.subset (List.subset_append_left _ _)
  rw [sorted, List.pairwise_reverse]
  exact @fold [] items [] hranked (List.Subset.refl _) .nil

/-- **Sorted records rise**, as far as their order is transitive. -/
theorem pairwise_sorted_isLE (hranked : Ranked ordering items) :
    (sorted ordering items).Pairwise fun x y => (compareOn ordering x y).isLE = true :=
  (pairwise_sorted_precedes hranked).imp Precedes.isLE

/-- Records in the order of a stable sort rise strictly if no two of them tie. -/
theorem pairwise_lt_of_precedes {l : List Item} (hperm : l.Perm items)
    (h : l.Pairwise (Precedes ordering items))
    (hne : items.Pairwise fun x y => compareOn ordering y x ≠ .eq) :
    l.Pairwise fun x y => compareOn ordering x y = .lt := by
  have hsymm : ∀ {x y : Item}, compareOn ordering y x ≠ .eq → compareOn ordering x y ≠ .eq := by
    intro x y hxy heq
    rw [compareOn_swap, heq] at hxy
    exact hxy rfl
  have hapart := (hperm.symm.pairwise_iff hsymm).mp hne
  refine (h.and hapart).imp ?_
  rintro x y ⟨hlt | ⟨htie, -⟩, hne⟩
  · exact hlt
  · exact absurd htie (hsymm hne)

end Precedes

/-- **Sorted records rise strictly** if no two of them tie. -/
theorem pairwise_sorted {items : List Item} (hkinds : ∀ x ∈ items, x.OfKinds kinds ordering)
    (hne : items.Pairwise fun x y => compareOn ordering y x ≠ .eq) :
    (sorted ordering items).Pairwise fun x y => compareOn ordering x y = .lt :=
  pairwise_lt_of_precedes (perm_sorted ordering items)
    (pairwise_sorted_precedes (ranked_of_kinds hkinds)) hne

end Item

end RecordStore
