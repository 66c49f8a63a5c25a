import Mathlib.Order.Bounds.Defs
import RecordStore.Proofs.Naming

/-!
# Spellings and free names

A field name may be any text.  Its spelling is a name of ASCII, and only such names are spelled as
themselves.  Behind a sigil, with an index and with the number that makes it new, it is still one token:
keywords lose their meaning there, and nothing in it ends the token early.

A taken name is numbered from 1 until it is free.  Nothing in that search counts its tries.  It ends all
the same, since the numbers are told apart by their digits and a table of `n` names holds a candidate
together with fewer than `n` of its numbered forms.

* `spelling_eq_self_iff` — the names that are spelled as themselves;
* `spelling_is_one_token` — every spelling is such a name, and what is made of it is one token;
* `SearchEnds`, `Finds` — the runs of a search that has no bound;
* `SearchEnds.exists_isFirstFree` — a run goes to the first free number.  The induction is on the run;
* `IsFirstFree.searchEnds` — where there is a free number there is a run.  The induction is on the distance
  to it;
* `fresh_is_least` — the search always ends, at the least free number, which is at most the number of
  names.
-/

namespace RecordStore

namespace Naming

/-- A name of letters, digits and underscores of ASCII, at least one. -/
def IsPlainName (name : String) : Prop := name ≠ "" ∧ ∀ c ∈ name.toList, Text.isPlain c

/-- A spelling is a plain name. -/
theorem isPlainName_spelling (path : String) : IsPlainName (spelling path) :=
  ⟨fun h => spelling_ne_nil path (String.toList_eq_nil_iff.mpr h),
    fun _ hc => isPlain_of_mem_spelling hc⟩

/-- Where every character is plain there is none to drop and none to capitalize. -/
theorem camel_eq_self {cs : List Char} (h : ∀ c ∈ cs, Text.isPlain c) : camel false cs = cs := by
  induction cs with
  | nil => rfl
  | cons c cs ih =>
      obtain ⟨hc, hcs⟩ := List.forall_mem_cons.mp h
      simp [camel, hc, ih hcs]

/-- **Just the plain names are spelled as themselves.** -/
theorem spelling_eq_self_iff {path : String} : spelling path = path ↔ IsPlainName path := by
  constructor
  · intro h
    rw [← h]
    exact isPlainName_spelling path
  · rintro ⟨hne, hplain⟩
    obtain ⟨c, cs, hchars⟩ := List.exists_cons_of_ne_nil (mt String.toList_eq_nil_iff.mp hne)
    have hc : Text.isPlain c := hplain c (hchars ▸ List.mem_cons_self)
    have hcamel : camel false (c :: cs) = c :: cs := camel_eq_self (hchars ▸ hplain)
    have hkept : path.toList.dropWhile (fun c => !Text.isPlain c) = c :: cs := by
      simp [hchars, hc]
    have hback : String.ofList (c :: cs) = path := by
      rw [← hchars, String.ofList_toList]
    rw [spelling, hkept, hcamel]
    exact hback

/-- **Spellings are plain and make one token.**  The spelling of any path is a plain name, it is the
path itself just if that is one, and spelling it again changes nothing.  Behind a sigil and with an
index, if there is one, it stays one token when it has been made new for a table, whatever the table
holds. -/
theorem spelling_is_one_token (path : String) :
    IsPlainName (spelling path) ∧
      (spelling path = path ↔ IsPlainName path) ∧
      spelling (spelling path) = spelling path ∧
      ∀ {α : Type} (taken : OrderedDict α) (index : Option Nat),
        let digits := index.elim "" toString
        let name := fresh taken ("#" ++ spelling path ++ digits)
        let value := fresh taken (":" ++ spelling path ++ digits)
        Token.scan name = .ok [.name name] ∧ Token.scan value = .ok [.value value] := by
  have hplain : IsPlainName (spelling path) := isPlainName_spelling path
  refine ⟨hplain, spelling_eq_self_iff, spelling_eq_self_iff.mpr hplain, ?_⟩
  intro α taken index
  have hlabel {sigil : Char} {s : String} (hs : s.toList = [sigil]) :
      IsLabel sigil (fresh taken (s ++ spelling path ++ index.elim "" toString)) := by
    refine isLabel_fresh ?_ taken
    cases index with
    | none => simpa using isLabel_spelling hs path
    | some i => exact isLabel_append_toString (isLabel_spelling hs path) i
  exact ⟨(hlabel rfl).scan_name, (hlabel rfl).scan_value⟩

/-- A name that is a keyword, and one of separators only. -/
example : spelling "AND" = "AND" ∧ Token.scan "#AND" = .ok [.name "#AND"] ∧
    spelling "größe.in cm" = "grEInCm" ∧ spelling "-.-" = "attr" := by
  refine ⟨?_, rfl, ?_, ?_⟩ <;> decide +kernel

variable {α : Type}

/-- A run of the search for a free number: from `n` on it ends at a name.  A free number ends it, and a
taken one sends it to the next number. -/
inductive SearchEnds (taken : OrderedDict α) (base : String) : Nat → String → Prop where
  | free {n : Nat} (hfree : taken.contains (suffixed base n) = false) :
      SearchEnds taken base n (suffixed base n)
  | next {n : Nat} {name : String} (htaken : taken.contains (suffixed base n))
      (hrest : SearchEnds taken base (n + 1) name) : SearchEnds taken base n name

/-- A run of the search for a free name: it ends at the candidate, or goes through its numbered forms. -/
inductive Finds (taken : OrderedDict α) (candidate : String) : String → Prop where
  | candidate (hfree : taken.contains candidate = false) : Finds taken candidate candidate
  | numbered {name : String} (htaken : taken.contains candidate)
      (hends : SearchEnds taken candidate 1 name) : Finds taken candidate name

/-- A number is the first free one from `n` on. -/
structure IsFirstFree (taken : OrderedDict α) (base : String) (n m : Nat) : Prop where
  le : n ≤ m
  free : taken.contains (suffixed base m) = false
  taken_of_lt : ∀ k, n ≤ k → k < m → taken.contains (suffixed base k)

variable {taken : OrderedDict α} {base candidate name : String} {n m l : Nat}

/-- There is one first free number at most. -/
theorem IsFirstFree.unique (hm : IsFirstFree taken base n m) (hl : IsFirstFree taken base n l) : m = l := by
  have hle {i j : Nat} (hi : IsFirstFree taken base n i) (hj : IsFirstFree taken base n j) : i ≤ j := by
    refine Nat.le_of_not_lt ?_
    intro hlt
    have htaken := hi.taken_of_lt j hj.le hlt
    rw [hj.free] at htaken
    cases htaken
  exact Nat.le_antisymm (hle hm hl) (hle hl hm)

/-- **A run goes to the first free number**, wherever it began. -/
theorem SearchEnds.exists_isFirstFree (h : SearchEnds taken base n name) :
    ∃ m, IsFirstFree taken base n m ∧ name = suffixed base m := by
  induction h with
  | @free n hfree =>
      exact ⟨n, ⟨Nat.le_refl n, hfree, fun k hk hkn => absurd hkn (Nat.not_lt_of_le hk)⟩, rfl⟩
  | @next n name htaken _ ih =>
      obtain ⟨m, hm, rfl⟩ := ih
      have hnm : n ≤ m := Nat.le_of_succ_le hm.le
      refine ⟨m, ⟨hnm, hm.free, ?_⟩, rfl⟩
      intro k hk hkm
      obtain rfl | hlt := Nat.eq_or_lt_of_le hk
      · exact htaken
      · exact hm.taken_of_lt k hlt hkm

/-- **Where there is a free number the search ends.** -/
theorem IsFirstFree.searchEnds (h : IsFirstFree taken base n m) :
    SearchEnds taken base n (suffixed base m) := by
  obtain ⟨d, rfl⟩ := Nat.exists_eq_add_of_le h.le
  induction d generalizing n with
  | zero => exact .free h.free
  | succ d ih =>
      have hshift : n + (d + 1) = n + 1 + d := by omega
      have hn := h.taken_of_lt n (Nat.le_refl n) (by omega)
      rw [hshift] at h ⊢
      have hrest : IsFirstFree taken base (n + 1) (n + 1 + d) :=
        ⟨by omega, h.free, fun k hk hkm => h.taken_of_lt k (by omega) hkm⟩
      exact .next hn (ih hrest)

/-- A taken candidate is numbered with the first free number, which is at most the size of the table. -/
theorem exists_isFirstFree (h : taken.contains candidate) :
    ∃ m, IsFirstFree taken candidate 1 m ∧ m ≤ taken.size ∧
      fresh taken candidate = suffixed candidate m := by
  obtain ⟨m, hm, hsize, heq, hfree, hbefore⟩ := fresh_eq_suffixed h
  exact ⟨m, ⟨hm, hfree, hbefore⟩, hsize, heq⟩

/-- **The search finds one name**, and this is the new one. -/
theorem finds_iff : Finds taken candidate name ↔ name = fresh taken candidate := by
  constructor
  · intro h
    cases h with
    | candidate hfree => exact (fresh_eq_self hfree).symm
    | numbered htaken hends =>
        obtain ⟨m, hm, rfl⟩ := hends.exists_isFirstFree
        obtain ⟨l, hl, _, heq⟩ := exists_isFirstFree htaken
        rw [heq, hm.unique hl]
  · rintro rfl
    cases h : taken.contains candidate with
    | false =>
        rw [fresh_eq_self h]
        exact .candidate h
    | true =>
        obtain ⟨m, hm, _, heq⟩ := exists_isFirstFree h
        rw [heq]
        exact .numbered h hm.searchEnds

/-- **The search for a free name ends, at the least one.**  It has a run to the new name and to no other.
That name is the candidate if no name of the table is spelled so.  Otherwise it is the candidate with the
least number from 1 for which there is no such name, and that number is not above the number of names. -/
theorem fresh_is_least (taken : OrderedDict α) (candidate : String) :
    (∀ name, Finds taken candidate name ↔ name = fresh taken candidate) ∧
      fresh taken candidate ∉ taken.keys ∧
      (candidate ∉ taken.keys → fresh taken candidate = candidate) ∧
      (candidate ∈ taken.keys → ∃ n, fresh taken candidate = suffixed candidate n ∧
        IsLeast {k | 1 ≤ k ∧ suffixed candidate k ∉ taken.keys} n ∧ n ≤ taken.keys.length) := by
  have hkeys (s : String) : s ∉ taken.keys ↔ taken.contains s = false := by
    rw [taken.mem_keys_iff, Bool.not_eq_true]
  refine ⟨fun name => finds_iff, (hkeys _).mpr (not_contains_fresh taken candidate),
    fun h => fresh_eq_self ((hkeys candidate).mp h), ?_⟩
  intro h
  obtain ⟨n, hn, hsize, heq⟩ := exists_isFirstFree (taken.mem_keys_iff.mp h)
  refine ⟨n, heq, ⟨⟨hn.le, (hkeys _).mpr hn.free⟩, ?_⟩, ?_⟩
  · rintro k ⟨hk, hkfree⟩
    refine Nat.le_of_not_lt ?_
    intro hkn
    exact hkfree (taken.mem_keys_iff.mpr (hn.taken_of_lt k hk hkn))
  · simpa [Dict.keys, Dict.size] using hsize

/-- A table with a gap in its numbers. -/
theorem fresh_is_least_gap :
    let taken : OrderedDict Nat := .ofList [("#a", 0), ("#a_1", 1), ("#a_3", 2)]
    "#a" ∈ taken.keys ∧ "#b" ∉ taken.keys ∧
      Finds taken "#a" "#a_2" ∧ "#a_2" ∉ taken.keys ∧
      IsLeast {k | 1 ≤ k ∧ suffixed "#a" k ∉ taken.keys} 2 ∧ fresh taken "#b" = "#b" := by
  intro taken
  have hheld : "#a" ∈ taken.keys := by decide +kernel
  have habsent : "#b" ∉ taken.keys := by decide +kernel
  have hfresh : fresh taken "#a" = suffixed "#a" 2 := by decide +kernel
  obtain ⟨hfinds, hnew, -, hnumbered⟩ := fresh_is_least taken "#a"
  obtain ⟨-, -, hkept, -⟩ := fresh_is_least taken "#b"
  obtain ⟨n, hn, hleast, -⟩ := hnumbered hheld
  obtain rfl : n = 2 := suffixed_injective (hn.symm.trans hfresh)
  rw [hfresh] at hfinds hnew
  exact ⟨hheld, habsent, (hfinds _).mpr rfl, hnew, hleast, hkept habsent⟩

end Naming

end RecordStore
