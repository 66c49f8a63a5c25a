import RecordStore.OrderedDict

/-!
# What a dictionary holds

A name is bound at most once in a dictionary that is in order, so its look-ups and its entries say the
same.

* `insert_comm`, `insert_insert` — two names can be bound in either order; of two bindings of one name the
  later one counts;
* `get?_ofList` — of the bindings of a list the last one of a name counts;
* `mem_entries_iff` — an entry is there exactly when its name is bound to its value;
* `size_add_of_frame` — the sizes of dictionaries that differ in one name;
* `perm_entries_insert`, `mem_entries_union_iff` — the entries after a new name is bound, and of a union;
* `findKey?_eq_none_iff`, `get?_of_findKey?` — the name that is found by its value, if there is one.
-/

namespace RecordStore

namespace Dict

variable {α : Type}

/-- A dictionary is empty if it has no entries. -/
theorem isEmpty_iff {d : Dict α} : d.isEmpty = true ↔ d.entries = [] := List.isEmpty_iff

/-- In a list that binds no name twice an entry is found by its name. -/
theorem lookup_eq_some_of_mem {es : List (String × α)} (hnodup : (es.map Prod.fst).Nodup)
    {k : String} {v : α} (h : (k, v) ∈ es) : lookup k es = some v := by
  induction es with
  | nil => simp at h
  | cons e rest ih =>
      obtain ⟨n, w⟩ := e
      rw [List.map_cons, List.nodup_cons] at hnodup
      rcases List.mem_cons.mp h with heq | hrest
      · obtain ⟨rfl, rfl⟩ := Prod.mk.inj heq
        simp [lookup]
      · have hmem : k ∈ rest.map Prod.fst := List.mem_map.mpr ⟨(k, v), hrest, rfl⟩
        have hk : k ≠ n := by
          rintro rfl
          exact hnodup.1 hmem
        rw [lookup, if_neg hk]
        exact ih hnodup.2 hrest

/-- What is found is an entry. -/
theorem mem_of_lookup_eq_some {es : List (String × α)} {k : String} {v : α}
    (h : lookup k es = some v) : (k, v) ∈ es := by
  induction es with
  | nil => simp [lookup] at h
  | cons e rest ih =>
      obtain ⟨n, w⟩ := e
      rw [lookup] at h
      split at h
      · rename_i hk
        obtain rfl := Option.some.inj h
        simp [hk]
      · exact List.mem_cons_of_mem _ (ih h)

/-- Two names can be bound in either order, the lesser one first. -/
theorem bind_comm_of_lt {k k' : String} (h : compare k k' = .lt) (v w : α) (es : List (String × α)) :
    bind k v (bind k' w es) = bind k' w (bind k v es) := by
  have hgt : compare k' k = .gt := Std.OrientedCmp.gt_of_lt h
  induction es with
  | nil => simp [bind, h, hgt]
  | cons e rest ih =>
      obtain ⟨n, x⟩ := e
      cases hk' : compare k' n with
      | lt =>
          have hk : compare k n = .lt := Std.TransCmp.lt_trans h hk'
          simp [bind, h, hgt, hk, hk']
      | eq =>
          obtain rfl : k' = n := Std.LawfulEqCmp.eq_of_compare hk'
          simp [bind, h, hgt]
      | gt => cases hk : compare k n <;> simp [bind, hgt, hk, hk', ih]

/-- Two names can be bound in either order, also where the entries are out of order. -/
theorem insert_comm {k k' : String} (h : k ≠ k') (d : Dict α) (v w : α) :
    (d.insert k v).insert k' w = (d.insert k' w).insert k v := by
  cases hc : compare k k' with
  | lt => exact congrArg Dict.mk (bind_comm_of_lt hc v w d.entries).symm
  | eq => exact absurd (Std.LawfulEqCmp.eq_of_compare hc) h
  | gt => exact congrArg Dict.mk (bind_comm_of_lt (Std.OrientedCmp.lt_of_gt hc) w v d.entries)

/-- Of two bindings of one name the later one counts. -/
theorem bind_bind (k : String) (v w : α) (es : List (String × α)) :
    bind k w (bind k v es) = bind k w es := by
  induction es with
  | nil => simp [bind]
  | cons e rest ih =>
      obtain ⟨n, x⟩ := e
      cases hc : compare k n <;> simp [bind, hc, ih]

/-- Of two bindings of a name the later one counts, also where the entries are out of order. -/
theorem insert_insert (d : Dict α) (k : String) (v w : α) :
    (d.insert k v).insert k w = d.insert k w :=
  congrArg Dict.mk (bind_bind k v w d.entries)

/-- A name is looked up in one list and then in the other. -/
theorem lookup_append (k : String) (es fs : List (String × α)) :
    lookup k (es ++ fs) = (lookup k es).or (lookup k fs) := by
  induction es with
  | nil => simp [lookup]
  | cons e rest ih =>
      rw [List.cons_append, lookup, lookup]
      split
      · rfl
      · exact ih

/-- Changing all values changes what is looked up. -/
theorem lookup_map {β : Type} (f : α → β) (k : String) (es : List (String × α)) :
    lookup k (es.map fun e => (e.1, f e.2)) = (lookup k es).map f := by
  induction es with
  | nil => rfl
  | cons e rest ih =>
      rw [List.map_cons, lookup, lookup, ih]
      split <;> rfl

/-- Of the bindings that are added the last one of a name counts, and after them what was there. -/
theorem get?_foldl_insert (es : List (String × α)) (d : Dict α) (k : String) :
    (es.foldl (fun d e => d.insert e.1 e.2) d).get? k = (lookup k es.reverse).or (d.get? k) := by
  induction es generalizing d with
  | nil => rfl
  | cons e rest ih =>
      rw [List.foldl_cons, ih, get?_insert, List.reverse_cons, lookup_append, Option.or_assoc]
      congr 1
      by_cases hk : k = e.1 <;> simp [lookup, hk]

/-- A dictionary built from a list binds each name to the last value that the list gives it. -/
theorem get?_ofList (es : List (String × α)) (k : String) :
    (ofList es).get? k = lookup k es.reverse := by
  rw [ofList, get?_foldl_insert, get?_empty, Option.or_none]

end Dict

namespace OrderedDict

variable {α : Type}

/-- An entry is there exactly when its name is bound to its value. -/
theorem mem_entries_iff (d : OrderedDict α) {k : String} {v : α} :
    (k, v) ∈ d.entries ↔ d.get? k = some v :=
  ⟨Dict.lookup_eq_some_of_mem d.nodup_keys, Dict.mem_of_lookup_eq_some⟩

/-- No entry is there twice. -/
theorem nodup_entries (d : OrderedDict α) : d.entries.Nodup :=
  (List.pairwise_map.mp d.nodup_keys).imp fun hne heq => hne (congrArg Prod.fst heq)

/-- Binding a new name adds one entry. -/
theorem perm_entries_insert {d : OrderedDict α} {k : String} (h : d.get? k = none) (v : α) :
    (d.insert k v).entries.Perm ((k, v) :: d.entries) := by
  have hnew : (k, v) ∉ d.entries := by
    rw [mem_entries_iff, h]
    exact (Option.some_ne_none v).symm
  have hnodup : ((k, v) :: d.entries).Nodup := List.nodup_cons.mpr ⟨hnew, d.nodup_entries⟩
  refine (List.perm_ext_iff_of_nodup (nodup_entries _) hnodup).mpr ?_
  intro entry
  obtain ⟨n, w⟩ := entry
  rw [List.mem_cons, mem_entries_iff, mem_entries_iff, get?_insert, Prod.mk.injEq]
  by_cases hn : n = k
  · subst hn
    simp [h, eq_comm]
  · simp [hn]

/-- Without a name that is bound there is one entry less. -/
theorem size_erase_add (d : OrderedDict α) (k : String) :
    (d.erase k).size + (d.get? k).toList.length = d.size := by
  cases hv : d.get? k with
  | none =>
      have hsame : d.erase k = d := by
        refine ext fun n => ?_
        rw [get?_erase]
        split
        · rename_i hn
          rw [hn, hv]
        · rfl
      rw [hsame]
      rfl
  | some v =>
      have hsame : (d.erase k).insert k v = d := by
        refine ext fun n => ?_
        rw [get?_insert, get?_erase]
        split
        · rename_i hn
          rw [hn, hv]
        · rfl
      have hperm := perm_entries_insert (d := d.erase k) (k := k) (by simp) v
      rw [hsame] at hperm
      exact hperm.length_eq.symm

/-- **Two dictionaries that differ in one name** differ in size by what they bind to it. -/
theorem size_add_of_frame {d e : OrderedDict α} {k : String}
    (h : ∀ n, n ≠ k → e.get? n = d.get? n) :
    e.size + (d.get? k).toList.length = d.size + (e.get? k).toList.length := by
  have hsame : e.erase k = d.erase k := by
    refine ext fun n => ?_
    rw [get?_erase, get?_erase]
    split
    · rfl
    · rename_i hn
      exact h n hn
  have hd := d.size_erase_add k
  have he := e.size_erase_add k
  rw [hsame] at he
  omega

/-- An entry of a union is one of the second dictionary, or one of the first whose name the second one
does not bind. -/
theorem mem_entries_union_iff (d e : OrderedDict α) {k : String} {v : α} :
    (k, v) ∈ (d.union e).entries ↔ (k, v) ∈ e.entries ∨ e.get? k = none ∧ (k, v) ∈ d.entries := by
  rw [mem_entries_iff, mem_entries_iff, mem_entries_iff, get?_union]
  cases e.get? k <;> simp

/-- A name is among the keys exactly when it is bound. -/
theorem mem_keys_iff (d : OrderedDict α) {k : String} : k ∈ d.keys ↔ d.contains k = true := by
  rw [Dict.contains, Option.isSome_iff_ne_none, ne_eq, Dict.get?_eq_none_iff, Decidable.not_not]

/-- No name is found by its value if none is bound to such a value. -/
theorem findKey?_eq_none_iff {d : OrderedDict α} {p : α → Bool} :
    d.findKey? p = none ↔ ∀ k v, d.get? k = some v → p v = false := by
  simp only [Dict.findKey?, Option.map_eq_none_iff, List.find?_eq_none, ← mem_entries_iff,
    Prod.forall, Bool.not_eq_true]

/-- A name that is found by its value is bound to such a value. -/
theorem get?_of_findKey? {d : OrderedDict α} {p : α → Bool} {k : String}
    (h : d.findKey? p = some k) : ∃ v, d.get? k = some v ∧ p v = true := by
  obtain ⟨⟨n, v⟩, hfind, rfl⟩ := Option.map_eq_some_iff.mp h
  have hmem : (n, v) ∈ d.entries := List.mem_of_find?_eq_some hfind
  have hp : p v = true := List.find?_some (p := fun e : String × α => p e.2) hfind
  exact ⟨v, d.mem_entries_iff.mp hmem, hp⟩

end OrderedDict

end RecordStore
