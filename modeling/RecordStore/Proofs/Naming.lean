import RecordStore.Naming
import RecordStore.Proofs.Dict
import RecordStore.Proofs.Expression.Spelling

/-!
# Names that are new

`fresh` never gives a name that its table already holds.  The candidate and its numbered forms are
pairwise distinct, so a table with as many entries as numbers tried cannot hold all of them: the search
always ends at a free name.

* `fresh_eq_suffixed` — a taken candidate gets the least number that makes it new, at most the size of
  the table;
* `not_contains_fresh` — what `fresh` gives is new;
* `get?_aliasOf`, `get?_placeholderFor` — the tables say what a new name stands for;
* `get?_aliasOf_cases`, `unique_aliasOf` — a table of aliases grows by one name at most, and no name
  gets a second alias;
* `enter_of_get?`, `aliasOf_again` — a name that has an alias is given no other one;
* `isLabel_fresh` — a new name for a label is a label.
-/

namespace RecordStore

namespace Naming

variable {α : Type}

/-- Different numbers give different names. -/
theorem suffixed_injective {base : String} {m n : Nat} (h : suffixed base m = suffixed base n) :
    m = n := by
  have hdigits : Nat.toDigits 10 m = Nat.toDigits 10 n := by
    have htext := congrArg String.toList h
    simpa [suffixed, Nat.toString_eq_ofList_toDigits] using htext
  calc
    m = Nat.ofDigitChars 10 (Nat.toDigits 10 m) 0 := Nat.ofDigitChars_ten_toDigits.symm
    _ = Nat.ofDigitChars 10 (Nat.toDigits 10 n) 0 := by rw [hdigits]
    _ = n := Nat.ofDigitChars_ten_toDigits

/-- A number always makes a name longer. -/
theorem suffixed_ne (base : String) (n : Nat) : suffixed base n ≠ base := by
  intro h
  have hlength := congrArg (fun s => s.toList.length) h
  simp [suffixed] at hlength

/-- **What the search finds.**  It stops at the first free number, or after its last try. -/
theorem firstFree_spec (taken : OrderedDict α) (base : String) (tries n : Nat) :
    ∃ m, n ≤ m ∧ m ≤ n + tries ∧ firstFree taken base tries n = suffixed base m ∧
      (∀ k, n ≤ k → k < m → taken.contains (suffixed base k)) ∧
      (m < n + tries → taken.contains (suffixed base m) = false) := by
  induction tries generalizing n with
  | zero => exact ⟨n, Nat.le_refl n, Nat.le_refl n, rfl, fun k hk hn => by omega, fun h => by omega⟩
  | succ tries ih =>
      rw [firstFree]
      cases hn : taken.contains (suffixed base n) with
      | false => exact ⟨n, Nat.le_refl n, by omega, by simp, fun k hk hn => by omega, fun _ => hn⟩
      | true =>
          obtain ⟨m, hnm, hmt, heq, htaken, hfree⟩ := ih (n + 1)
          refine ⟨m, by omega, by omega, by simpa using heq, ?_, ?_⟩
          · intro k hk hkm
            by_cases hkn : k = n
            · rw [hkn]
              exact hn
            · exact htaken k (by omega) hkm
          · intro h
            exact hfree (by omega)

/-- No table holds a name together with as many numbered forms of it as it has entries. -/
theorem exists_not_contains_suffixed {taken : OrderedDict α} {base : String}
    (h : taken.contains base) :
    ∃ k, 1 ≤ k ∧ k ≤ taken.size ∧ taken.contains (suffixed base k) = false := by
  refine Classical.byContradiction ?_
  intro hnone
  have htaken : ∀ k, 1 ≤ k → k ≤ taken.size → taken.contains (suffixed base k) = true := by
    intro k hk hsize
    cases hfree : taken.contains (suffixed base k) with
    | true => rfl
    | false => exact absurd ⟨k, hk, hsize, hfree⟩ hnone
  let forms := base :: (List.range' 1 taken.size).map (suffixed base)
  have hnodup : forms.Nodup := by
    refine List.nodup_cons.mpr ⟨?_, ?_⟩
    · intro hmem
      obtain ⟨k, _, hk⟩ := List.mem_map.mp hmem
      exact suffixed_ne base k hk
    · have hrange : (List.range' 1 taken.size).Nodup := List.nodup_range'
      exact List.pairwise_map.mpr (hrange.imp fun hne heq => hne (suffixed_injective heq))
  have hsub : forms ⊆ taken.keys := by
    intro s hs
    rcases List.mem_cons.mp hs with rfl | hs
    · exact taken.mem_keys_iff.mpr h
    · obtain ⟨k, hk, rfl⟩ := List.mem_map.mp hs
      rw [List.mem_range'_1] at hk
      exact taken.mem_keys_iff.mpr (htaken k hk.1 (by omega))
  have hlength := List.Nodup.length_le_of_subset hnodup hsub
  simp only [forms, List.length_cons, List.length_map, List.length_range', Dict.keys, Dict.size]
    at hlength
  omega

/-- A candidate that is free stays as it is. -/
theorem fresh_eq_self {taken : OrderedDict α} {candidate : String}
    (h : taken.contains candidate = false) : fresh taken candidate = candidate := by
  rw [fresh, h]
  rfl

/-- A taken candidate gets the least number that makes it new, at most the size of the table. -/
theorem fresh_eq_suffixed {taken : OrderedDict α} {candidate : String}
    (h : taken.contains candidate) :
    ∃ n, 1 ≤ n ∧ n ≤ taken.size ∧ fresh taken candidate = suffixed candidate n ∧
      taken.contains (suffixed candidate n) = false ∧
      ∀ k, 1 ≤ k → k < n → taken.contains (suffixed candidate k) := by
  obtain ⟨n, hn, hlast, heq, htaken, hfree⟩ := firstFree_spec taken candidate taken.size 1
  obtain ⟨k, hk, hsize, hkfree⟩ := exists_not_contains_suffixed h
  have hnk : n ≤ k := by
    refine Nat.le_of_not_lt ?_
    intro hlt
    have hkheld := htaken k hk hlt
    rw [hkfree] at hkheld
    exact absurd hkheld (by simp)
  refine ⟨n, hn, by omega, ?_, hfree (by omega), htaken⟩
  rw [fresh, if_pos h, heq]

/-- What `fresh` gives is the candidate or a numbered form of it. -/
theorem fresh_eq (taken : OrderedDict α) (candidate : String) :
    fresh taken candidate = candidate ∨ ∃ n, fresh taken candidate = suffixed candidate n := by
  cases h : taken.contains candidate with
  | false => exact .inl (fresh_eq_self h)
  | true =>
      obtain ⟨n, _, _, heq, _⟩ := fresh_eq_suffixed h
      exact .inr ⟨n, heq⟩

/-- **What `fresh` gives is new.** -/
theorem not_contains_fresh (taken : OrderedDict α) (candidate : String) :
    taken.contains (fresh taken candidate) = false := by
  cases h : taken.contains candidate with
  | false => rw [fresh_eq_self h, h]
  | true =>
      obtain ⟨n, _, _, heq, hfree, _⟩ := fresh_eq_suffixed h
      rw [heq, hfree]

/-- Entering a new name changes no earlier binding. -/
theorem get?_insert_fresh {taken : OrderedDict α} {candidate k : String} {v w : α}
    (h : taken.get? k = some v) : (taken.insert (fresh taken candidate) w).get? k = some v := by
  have hnew := not_contains_fresh taken candidate
  have hne : k ≠ fresh taken candidate := by
    rintro rfl
    simp [Dict.contains, h] at hnew
  rw [OrderedDict.get?_insert, if_neg hne, h]

theorem isWordChar_of_mem_toString {n : Nat} {c : Char} (h : c ∈ (toString n).toList) :
    Text.isWordChar c := by
  rw [Nat.toString_eq_ofList_toDigits, String.toList_ofList] at h
  have hdigit : c.isDigit := Nat.isDigit_of_mem_toDigits (by decide) (by decide) h
  refine Text.isWordChar_of_isPlain ?_
  simp only [Char.isDigit, Bool.and_eq_true, decide_eq_true_eq] at hdigit
  have hlow : 48 ≤ c.toNat := hdigit.1
  have hhigh : c.toNat ≤ 57 := hdigit.2
  simp [Text.isPlain, Text.isAsciiDigit, hlow, hhigh]

/-- A label stays one when letters, digits or underscores are added. -/
theorem isLabel_append {sigil : Char} {label more : String} (h : IsLabel sigil label)
    (hmore : ∀ c ∈ more.toList, Text.isWordChar c) : IsLabel sigil (label ++ more) := by
  obtain ⟨letters, hne, hletters, rfl⟩ := h
  refine ⟨letters ++ more.toList, by simp [hne], ?_, ?_⟩
  · intro c hc
    rcases List.mem_append.mp hc with hc | hc
    · exact hletters c hc
    · exact hmore c hc
  · apply String.toList_injective
    simp

/-- A sigil before a spelling makes a label. -/
theorem isLabel_spelling {sigil : Char} {s : String} (hs : s.toList = [sigil]) (path : String) :
    IsLabel sigil (s ++ spelling path) := by
  refine ⟨(spelling path).toList, spelling_ne_nil path, ?_, ?_⟩
  · intro c hc
    exact Text.isWordChar_of_isPlain (isPlain_of_mem_spelling hc)
  · apply String.toList_injective
    simp [hs]

/-- A number after a label makes another one. -/
theorem isLabel_append_toString {sigil : Char} {label : String} (h : IsLabel sigil label) (n : Nat) :
    IsLabel sigil (label ++ toString n) :=
  isLabel_append h fun _ hc => isWordChar_of_mem_toString hc

/-- A new name for a label is a label. -/
theorem isLabel_fresh {sigil : Char} {candidate : String} (h : IsLabel sigil candidate)
    (taken : OrderedDict α) : IsLabel sigil (fresh taken candidate) := by
  rcases fresh_eq taken candidate with heq | ⟨n, heq⟩
  · rw [heq]
    exact h
  · have hline : IsLabel sigil (candidate ++ "_") := by
      refine isLabel_append h ?_
      intro c hc
      have hc : c = '_' := by simpa using hc
      rw [hc]
      decide +kernel
    rw [heq]
    exact isLabel_append_toString hline n

/-- The alias of a field name stands for that name. -/
theorem get?_aliasOf (names : AliasTable) (field : String) :
    (aliasOf names field).2.get? (aliasOf names field).1 = some field := by
  unfold aliasOf
  split
  · rename_i a hfind
    obtain ⟨n, hn, heq⟩ := OrderedDict.get?_of_findKey? hfind
    rw [hn, of_decide_eq_true heq]
  · simp

/-- An alias is a label if those that the table has for the field already are. -/
theorem isLabel_aliasOf {names : AliasTable} {field : String}
    (h : ∀ k, names.get? k = some field → IsLabel '#' k) : IsLabel '#' (aliasOf names field).1 := by
  unfold aliasOf
  split
  · rename_i a hfind
    obtain ⟨n, hn, heq⟩ := OrderedDict.get?_of_findKey? hfind
    obtain rfl := of_decide_eq_true heq
    exact h a hn
  · exact isLabel_fresh (isLabel_spelling rfl field) names

/-- Asking for an alias changes no earlier one. -/
theorem get?_aliasOf_of_get? {names : AliasTable} {k v : String} (h : names.get? k = some v)
    (field : String) : (aliasOf names field).2.get? k = some v := by
  unfold aliasOf
  split
  · exact h
  · exact get?_insert_fresh h

/-- A table of aliases with an alias for one more name. -/
def enter (names : AliasTable) (field : String) : AliasTable := (aliasOf names field).2

/-- A name that has an alias is given no other one. -/
theorem enter_of_get? {names : AliasTable} {k field : String} (h : names.get? k = some field) :
    enter names field = names := by
  have hfound : names.findKey? (fun n => n = field) ≠ none := by
    intro hnone
    simpa using OrderedDict.findKey?_eq_none_iff.mp hnone k field h
  rw [enter, aliasOf]
  split
  · rfl
  · rename_i hnone
    exact absurd hnone hfound

/-- What a table holds after an alias was asked for: what it held before, and the alias of a name that
had none. -/
theorem get?_aliasOf_cases {names : AliasTable} {field k n : String}
    (h : (aliasOf names field).2.get? k = some n) :
    names.get? k = some n ∨
      n = field ∧ k = (aliasOf names field).1 ∧ ∀ k', names.get? k' ≠ some field := by
  cases hfind : names.findKey? fun n => n = field with
  | some a =>
      simp only [aliasOf, hfind] at h
      exact .inl h
  | none =>
      have hnone : ∀ k', names.get? k' ≠ some field := fun k' hk' =>
        of_decide_eq_false (OrderedDict.findKey?_eq_none_iff.mp hfind k' field hk') rfl
      simp only [aliasOf, hfind, OrderedDict.get?_insert] at h ⊢
      split at h
      · rename_i hk
        exact .inr ⟨(Option.some.inj h).symm, hk, hnone⟩
      · exact .inl h

/-- Asked again for the alias of a name, a table gives the same one and is not changed. -/
theorem aliasOf_again (names : AliasTable) (field : String) :
    aliasOf (enter names field) field = ((aliasOf names field).1, enter names field) := by
  have hname := get?_aliasOf (enter names field) field
  have hsame : enter (enter names field) field = enter names field :=
    enter_of_get? (get?_aliasOf names field)
  have halias : (aliasOf (enter names field) field).1 = (aliasOf names field).1 := by
    change (enter (enter names field) field).get? _ = _ at hname
    rw [hsame] at hname
    rcases get?_aliasOf_cases hname with hold | ⟨_, hkey, _⟩
    · rw [enter_of_get? hold]
    · exact hkey
  exact Prod.ext halias hsame

/-- No name gets a second alias. -/
theorem unique_aliasOf {names : AliasTable}
    (h : ∀ k k' n, names.get? k = some n → names.get? k' = some n → k = k') {field k k' n : String}
    (hk : (aliasOf names field).2.get? k = some n) (hk' : (aliasOf names field).2.get? k' = some n) :
    k = k' := by
  rcases get?_aliasOf_cases hk with hold | ⟨hn, hkey, hnone⟩
  · rcases get?_aliasOf_cases hk' with hold' | ⟨hn', _, hnone'⟩
    · exact h k k' n hold hold'
    · rw [hn'] at hold
      exact absurd hold (hnone' k)
  · rcases get?_aliasOf_cases hk' with hold' | ⟨_, hkey', _⟩
    · rw [hn] at hold'
      exact absurd hold' (hnone k')
    · rw [hkey, hkey']

/-- Every alias in a table is a label if it was so before another one was asked for. -/
theorem isLabel_of_get?_aliasOf {names : AliasTable}
    (h : ∀ k v, names.get? k = some v → IsLabel '#' k) {field k v : String}
    (hk : (aliasOf names field).2.get? k = some v) : IsLabel '#' k := by
  rcases get?_aliasOf_cases hk with hold | ⟨_, hkey, _⟩
  · exact h k v hold
  · rw [hkey]
    exact isLabel_aliasOf fun a ha => h a field ha

/-- A new placeholder stands for its value. -/
theorem get?_placeholderFor (values : ValueTable) (candidate : String) (v : Value) :
    (placeholderFor values candidate v).2.get? (placeholderFor values candidate v).1 = some v := by
  simp [placeholderFor]

/-- A new placeholder changes no earlier one. -/
theorem get?_placeholderFor_of_get? {values : ValueTable} {k : String} {w : Value}
    (h : values.get? k = some w) (candidate : String) (v : Value) :
    (placeholderFor values candidate v).2.get? k = some w :=
  get?_insert_fresh h

/-- Every placeholder in a table is a label if it was so before another one was made. -/
theorem isLabel_of_get?_placeholderFor {values : ValueTable}
    (h : ∀ k w, values.get? k = some w → IsLabel ':' k) {candidate k : String} {v w : Value}
    (hcandidate : IsLabel ':' candidate)
    (hk : (placeholderFor values candidate v).2.get? k = some w) : IsLabel ':' k := by
  rw [placeholderFor, OrderedDict.get?_insert] at hk
  split at hk
  · rename_i heq
    rw [heq]
    exact isLabel_fresh hcandidate values
  · exact h k w hk

end Naming

end RecordStore
