/-!
# Dictionaries

A dictionary keeps its entries in increasing order of their names, so that reading it in order is
deterministic and two dictionaries with the same bindings are the same value.

* `get?_insert`, `get?_erase`, `get?_union` say what each operation does to a look-up;
* `sorted_insert`, `sorted_erase`, `sorted_ofList` say that the order is kept;
* `ext` says that a sorted dictionary is determined by its look-ups.

The look-up laws hold of every entry list, sorted or not.
-/

namespace RecordStore

/-- Names bound to values; the operations below keep the entries in increasing order of name. -/
structure Dict (α : Type) where
  entries : List (String × α)
deriving DecidableEq, Inhabited

namespace Dict

variable {α β : Type}

/-- The dictionary that binds nothing. -/
def empty : Dict α := ⟨[]⟩

instance : EmptyCollection (Dict α) := ⟨empty⟩

/-- The number of bindings. -/
def size (d : Dict α) : Nat := d.entries.length

/-- Whether nothing is bound. -/
def isEmpty (d : Dict α) : Bool := d.entries.isEmpty

/-- The bound names, in increasing order. -/
def keys (d : Dict α) : List String := d.entries.map Prod.fst

/-- The bound values, in the order of their names. -/
def values (d : Dict α) : List α := d.entries.map Prod.snd

/-- The value that an entry list binds to a name. -/
def lookup (k : String) : List (String × α) → Option α
  | [] => none
  | (n, v) :: rest => if k = n then some v else lookup k rest

/-- The value bound to a name, if any. -/
def get? (d : Dict α) (k : String) : Option α := lookup k d.entries

/-- Whether a name is bound. -/
def contains (d : Dict α) (k : String) : Bool := (d.get? k).isSome

/-- Binds a name in an entry list, at its place in the order, over any earlier binding. -/
def bind (k : String) (v : α) : List (String × α) → List (String × α)
  | [] => [(k, v)]
  | (n, w) :: rest =>
    match compare k n with
    | .lt => (k, v) :: (n, w) :: rest
    | .eq => (k, v) :: rest
    | .gt => (n, w) :: bind k v rest

/-- Binds a name to a value, over any earlier binding of that name. -/
def insert (d : Dict α) (k : String) (v : α) : Dict α := ⟨bind k v d.entries⟩

/-- Removes the binding of a name. -/
def erase (d : Dict α) (k : String) : Dict α := ⟨d.entries.filter fun e => e.1 ≠ k⟩

/-- The dictionary of a list of bindings; of two bindings of a name the later one counts. -/
def ofList (bindings : List (String × α)) : Dict α :=
  bindings.foldl (fun d e => d.insert e.1 e.2) empty

/-- The bindings of both dictionaries; where both bind a name the second one counts. -/
def union (d e : Dict α) : Dict α :=
  e.entries.foldl (fun d e => d.insert e.1 e.2) d

/-- The first name, in order, whose value passes a test. -/
def findKey? (d : Dict α) (p : α → Bool) : Option String :=
  (d.entries.find? fun e => p e.2).map Prod.fst

/-- The names are in strictly increasing order. -/
def Sorted (d : Dict α) : Prop := d.keys.Pairwise fun a b => compare a b = .lt

@[simp] theorem get?_empty (k : String) : (empty : Dict α).get? k = none := rfl

/-- A name that is bound is found with its value, and the others are found as before. -/
theorem lookup_bind (k : String) (v : α) (es : List (String × α)) (k' : String) :
    lookup k' (bind k v es) = if k' = k then some v else lookup k' es := by
  induction es with
  | nil => simp [bind, lookup]
  | cons e rest ih =>
    obtain ⟨n, w⟩ := e
    by_cases hk : k' = k
    · subst hk
      cases hc : compare k' n with
      | lt => simp [bind, lookup, hc]
      | eq => simp [bind, lookup, hc]
      | gt =>
        have hn : k' ≠ n := by rintro rfl; simp [Std.ReflCmp.compare_self] at hc
        simp [bind, lookup, hc, hn, ih]
    · cases hc : compare k n with
      | lt => simp [bind, lookup, hc, hk]
      | eq =>
        have hn : k = n := Std.LawfulEqCmp.eq_of_compare hc
        subst hn
        simp [bind, lookup, hk]
      | gt => simp [bind, lookup, hc, hk, ih]

/-- After an insertion its name has the new value and every other name has its old one. -/
@[simp] theorem get?_insert (d : Dict α) (k : String) (v : α) (k' : String) :
    (d.insert k v).get? k' = if k' = k then some v else d.get? k' :=
  lookup_bind k v d.entries k'

/-- A name that is filtered out is not found, and the others are found as before. -/
theorem lookup_filter_ne (k : String) (es : List (String × α)) (k' : String) :
    lookup k' (es.filter fun e => e.1 ≠ k) = if k' = k then none else lookup k' es := by
  induction es with
  | nil => simp [lookup]
  | cons e rest ih =>
    obtain ⟨n, w⟩ := e
    by_cases hn : n = k
    · subst hn
      by_cases hk : k' = n <;> simp_all [lookup]
    · by_cases hk : k' = k
      · subst hk
        have : k' ≠ n := fun h => hn h.symm
        simp_all [lookup]
      · simp_all [lookup]

/-- After a removal its name is unbound and every other name has its old value. -/
@[simp] theorem get?_erase (d : Dict α) (k k' : String) :
    (d.erase k).get? k' = if k' = k then none else d.get? k' :=
  lookup_filter_ne k d.entries k'

/-- A look-up in a union asks the second dictionary first. -/
theorem get?_union (d e : Dict α) (h : e.keys.Nodup) (k : String) :
    (d.union e).get? k = (e.get? k).or (d.get? k) := by
  obtain ⟨es⟩ := e
  induction es generalizing d with
  | nil => simp [union, get?, lookup]
  | cons x rest ih =>
    obtain ⟨n, v⟩ := x
    simp only [keys, List.map_cons, List.nodup_cons] at h
    have step : (d.union ⟨(n, v) :: rest⟩) = (d.insert n v).union ⟨rest⟩ := rfl
    rw [step, ih (d.insert n v) h.2, get?_insert]
    by_cases hk : k = n
    · subst hk
      have absent : lookup k rest = none := by
        have hmem := h.1
        clear step ih h
        induction rest with
        | nil => rfl
        | cons y ys ihy =>
          obtain ⟨m, w⟩ := y
          simp only [List.map_cons, List.mem_cons, not_or] at hmem
          simp [lookup, hmem.1, ihy hmem.2]
      simp [get?, lookup, absent]
    · simp [get?, lookup, hk]

/-- Binding a name adds it to the names. -/
theorem mem_keys_bind {k k' : String} {v : α} {es : List (String × α)} :
    k' ∈ (bind k v es).map Prod.fst ↔ k' = k ∨ k' ∈ es.map Prod.fst := by
  induction es with
  | nil => simp [bind]
  | cons e rest ih =>
    obtain ⟨n, w⟩ := e
    cases hc : compare k n with
    | lt => simp [bind, hc]
    | eq =>
      have hn : k = n := Std.LawfulEqCmp.eq_of_compare hc
      subst hn
      simp [bind]
    | gt =>
      simp only [bind, hc, List.map_cons, List.mem_cons, ih]
      constructor
      · rintro (h | h | h) <;> simp [h]
      · rintro (h | h | h) <;> simp [h]

/-- An insertion keeps the order. -/
theorem sorted_insert {d : Dict α} (h : d.Sorted) (k : String) (v : α) : (d.insert k v).Sorted := by
  obtain ⟨es⟩ := d
  simp only [Sorted, keys, insert] at h ⊢
  induction es with
  | nil => simp [bind]
  | cons e rest ih =>
    obtain ⟨n, w⟩ := e
    simp only [List.map_cons, List.pairwise_cons] at h
    cases hc : compare k n with
    | lt =>
      simp only [bind, hc, List.map_cons, List.pairwise_cons, List.mem_cons, forall_eq_or_imp]
      exact ⟨⟨trivial, fun m hm => Std.TransCmp.lt_trans hc (h.1 m hm)⟩, h.1, h.2⟩
    | eq =>
      have hn : k = n := Std.LawfulEqCmp.eq_of_compare hc
      subst hn
      simp only [bind, hc, List.map_cons, List.pairwise_cons]
      exact h
    | gt =>
      simp only [bind, hc, List.map_cons, List.pairwise_cons]
      refine ⟨fun m hm => ?_, ih h.2⟩
      rcases mem_keys_bind.mp hm with rfl | hm
      · exact Std.OrientedCmp.lt_of_gt hc
      · exact h.1 m hm

/-- A removal keeps the order. -/
theorem sorted_erase {d : Dict α} (h : d.Sorted) (k : String) : (d.erase k).Sorted := by
  simp only [Sorted, keys, erase] at h ⊢
  exact (List.Pairwise.sublist (List.Sublist.map _ List.filter_sublist) h)

/-- Bindings that are added keep a dictionary in order. -/
theorem sorted_foldl_insert (es : List (String × α)) {d : Dict α} (h : d.Sorted) :
    (es.foldl (fun d e => d.insert e.1 e.2) d).Sorted := by
  induction es generalizing d with
  | nil => exact h
  | cons e rest ih => exact ih (sorted_insert h e.1 e.2)

/-- An empty dictionary is in order. -/
theorem sorted_empty : (empty : Dict α).Sorted := List.Pairwise.nil

/-- A dictionary built from a list of bindings is in order. -/
theorem sorted_ofList (es : List (String × α)) : (ofList es).Sorted :=
  sorted_foldl_insert es sorted_empty

/-- A union is in order when its first part is. -/
theorem sorted_union {d : Dict α} (h : d.Sorted) (e : Dict α) : (d.union e).Sorted :=
  sorted_foldl_insert e.entries h

/-- A name is not found if it is not there. -/
theorem lookup_eq_none_iff {k : String} {es : List (String × α)} :
    lookup k es = none ↔ k ∉ es.map Prod.fst := by
  induction es with
  | nil => simp [lookup]
  | cons e rest ih =>
    obtain ⟨n, v⟩ := e
    by_cases h : k = n <;> simp [lookup, h, ih]

/-- A name is unbound exactly when it is not among the keys. -/
theorem get?_eq_none_iff {d : Dict α} {k : String} : d.get? k = none ↔ k ∉ d.keys :=
  lookup_eq_none_iff

/-- Lists in order that bind the same are the same. -/
theorem eq_of_lookup_eq {xs ys : List (String × α)}
    (hx : (xs.map Prod.fst).Pairwise fun a b => compare a b = .lt)
    (hy : (ys.map Prod.fst).Pairwise fun a b => compare a b = .lt)
    (h : ∀ k, lookup k xs = lookup k ys) : xs = ys := by
  have below {n k : String} {es : List (String × α)}
      (hs : ∀ m ∈ es.map Prod.fst, compare n m = .lt) (hk : compare k n = .lt ∨ k = n) :
      lookup k es = none := by
    refine lookup_eq_none_iff.mpr fun hm => ?_
    have hnk := hs k hm
    rcases hk with hk | rfl
    · exact absurd (Std.TransCmp.lt_trans hnk hk) (by simp [Std.ReflCmp.compare_self])
    · simp [Std.ReflCmp.compare_self] at hnk
  induction xs generalizing ys with
  | nil =>
    cases ys with
    | nil => rfl
    | cons y ys => have := h y.1; simp [lookup] at this
  | cons x xs ih =>
    obtain ⟨n, v⟩ := x
    cases ys with
    | nil => have := h n; simp [lookup] at this
    | cons y ys =>
      obtain ⟨m, w⟩ := y
      simp only [List.map_cons, List.pairwise_cons] at hx hy
      have hnm : n = m := by
        have hn := h n
        have hm := h m
        cases hc : compare n m with
        | lt =>
          have hne : n ≠ m := by rintro rfl; simp [Std.ReflCmp.compare_self] at hc
          simp [lookup, hne, below hy.1 (.inl hc)] at hn
        | eq => exact Std.LawfulEqCmp.eq_of_compare hc
        | gt =>
          have hc' := Std.OrientedCmp.lt_of_gt hc
          have hne : m ≠ n := by rintro rfl; simp [Std.ReflCmp.compare_self] at hc
          simp [lookup, hne, below hx.1 (.inl hc')] at hm
      subst hnm
      have hv : v = w := by simpa [lookup] using h n
      subst hv
      rw [ih hx.2 hy.2 fun k => ?_]
      by_cases hk : k = n
      · subst hk
        rw [below hx.1 (.inr rfl), below hy.1 (.inr rfl)]
      · simpa [lookup, hk] using h k

/-- Two dictionaries in order with the same look-ups are equal. -/
theorem ext {d e : Dict α} (hd : d.Sorted) (he : e.Sorted) (h : ∀ k, d.get? k = e.get? k) :
    d = e := by
  obtain ⟨xs⟩ := d
  obtain ⟨ys⟩ := e
  exact congrArg Dict.mk (eq_of_lookup_eq hd he h)

end Dict

end RecordStore
