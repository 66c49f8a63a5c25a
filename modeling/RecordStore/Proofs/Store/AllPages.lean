import RecordStore.Proofs.Paging
import RecordStore.Proofs.Store.Resuming

/-!
# Following all pages

The pages of a read, followed from cursor to cursor, are the records of the read in parts of the size
of the bound: each is looked at once, and the parts are as many as they have to be.

* `Page.fetches` — how many pages some records need;
* `Table.pageOf_whole`, `Table.pageOf_cut` — a page that takes the rest, and one that is cut short;
* `Table.pageOf_cases` — there are no others, if a page looks at a record;
* `Table.exists_chain` — what all pages of a read are together, and how many they are.
-/

namespace RecordStore

namespace Page

/-- The number of fetches that some records take, at most `bound` of them a page; there is always a
first fetch. -/
def fetches (bound : Option Nat) (count : Nat) : Nat :=
  match bound with
  | none => 1
  | some c => max 1 ((count + c - 1) / c)

theorem fetches_of_le {bound : Option Nat} {count : Nat} (h : ∀ c, bound = some c → count ≤ c) :
    fetches bound count = 1 := by
  cases bound with
  | none => rfl
  | some c =>
      have hcount : count ≤ c := h c rfl
      have hdiv : (count + c - 1) / c ≤ 1 := by
        by_cases hc : c = 0
        · simp [hc]
        · refine Nat.lt_succ_iff.mp ((Nat.div_lt_iff_lt_mul (by omega)).mpr ?_)
          omega
      simp only [fetches]
      omega

/-- A full page is one more fetch. -/
theorem fetches_add {c count : Nat} (hc : c ≠ 0) (hcount : count ≠ 0) :
    fetches (some c) (c + count) = fetches (some c) count + 1 := by
  have hstep : (c + count + c - 1) / c = (count + c - 1) / c + 1 := by
    rw [show c + count + c - 1 = (count + c - 1) + c by omega]
    exact Nat.add_div_right _ (by omega)
  have hone : 1 ≤ (count + c - 1) / c := (Nat.le_div_iff_mul_le (by omega)).mpr (by omega)
  simp only [fetches, hstep]
  omega

/-- There are no more fetches than records, and one. -/
theorem fetches_le {bound : Option Nat} (h : bound ≠ some 0) (count : Nat) :
    fetches bound count ≤ count + 1 := by
  cases bound with
  | none => exact Nat.le_add_left 1 count
  | some c =>
      have hc : c ≠ 0 := fun hc => h (congrArg some hc)
      have hdiv : (count + c - 1) / c ≤ count := by
        refine Nat.lt_succ_iff.mp ((Nat.div_lt_iff_lt_mul (by omega)).mpr ?_)
        have hmul : count * 1 ≤ count * c := Nat.mul_le_mul_left count (by omega)
        rw [Nat.succ_mul]
        omega
      simp only [fetches]
      omega

end Page

/-- The lesser of two bounds that allow a record allows one. -/
theorem tighter_ne_zero {m n : Option Nat} (hm : m ≠ some 0) (hn : n ≠ some 0) :
    tighter m n ≠ some 0 := by
  cases m with
  | none => exact hn
  | some i =>
      cases n with
      | none => exact hm
      | some j =>
          intro h
          have hmin : Nat.min i j = 0 := Option.some.inj h
          rcases Nat.min_eq_zero_iff.mp hmin with rfl | rfl
          · exact hm rfl
          · exact hn rfl

namespace Table

variable {ordering : List String} {bound : Option Nat} {keep : Item → Bool}

theorem takeUpTo_of_le {items : List Item} (h : ∀ c, bound = some c → items.length ≤ c) :
    takeUpTo bound items = items := by
  cases bound with
  | none => rfl
  | some c => exact List.take_of_length_le (h c rfl)

/-- A page that takes all that is left has no cursor. -/
theorem pageOf_whole {items : List Item} (h : ∀ c, bound = some c → items.length ≤ c) :
    pageOf ordering bound keep items = ⟨items.filter keep, none⟩ := by
  simp [pageOf, takeUpTo_of_le h]

/-- A page that is cut short has a cursor made from the last record that it looked at. -/
theorem pageOf_cut {c : Nat} {items : List Item} (hc : c ≠ 0) (h : c < items.length) :
    ∃ before last after, items = before ++ last :: after ∧ before.length + 1 = c ∧ after ≠ [] ∧
      pageOf ordering (some c) keep items =
        ⟨(before ++ [last]).filter keep, some ⟨Item.project last ordering⟩⟩ := by
  have hlast : c - 1 < items.length := by omega
  have htake : items.take c = items.take (c - 1) ++ [items[c - 1]] := by
    rw [← List.take_succ_eq_append_getElem hlast, show c - 1 + 1 = c by omega]
  have hsplit : items = items.take (c - 1) ++ items[c - 1] :: items.drop c :=
    calc items = items.take c ++ items.drop c := (List.take_append_drop c items).symm
      _ = (items.take (c - 1) ++ [items[c - 1]]) ++ items.drop c := by rw [htake]
      _ = items.take (c - 1) ++ items[c - 1] :: items.drop c := by
        rw [List.append_assoc, List.singleton_append]
  refine ⟨items.take (c - 1), items[c - 1], items.drop c, hsplit, ?_, ?_, ?_⟩
  · rw [List.length_take]
    omega
  · intro hnil
    exact absurd (List.drop_eq_nil_iff.mp hnil) (by omega)
  · have hlooked : takeUpTo (some c) items = items.take (c - 1) ++ [items[c - 1]] := htake
    have hlength : (items.take (c - 1) ++ [items[c - 1]]).length < items.length := by
      rw [← htake, List.length_take]
      omega
    simp only [pageOf, hlooked, if_pos hlength, List.getLast?_concat, Option.map_some]

/-- **A page looks at the rest or is cut short**: it has a cursor just where it leaves records out. -/
theorem pageOf_cases (hbound : bound ≠ some 0) (items : List Item) :
    (takeUpTo bound items = items ∧ (pageOf ordering bound keep items).cursor = none) ∨
      ∃ before last after, items = before ++ last :: after ∧ after ≠ [] ∧
        takeUpTo bound items = before ++ [last] ∧
        (pageOf ordering bound keep items).cursor = some ⟨Item.project last ordering⟩ := by
  by_cases hwhole : ∀ c, bound = some c → items.length ≤ c
  case pos => exact .inl ⟨takeUpTo_of_le hwhole, congrArg Page.cursor (pageOf_whole hwhole)⟩
  case neg =>
    obtain ⟨c, rfl, hlong⟩ : ∃ c, bound = some c ∧ c < items.length := by simpa using hwhole
    have hc : c ≠ 0 := fun hc => hbound (congrArg some hc)
    obtain ⟨before, last, after, rfl, hlength, hafter, hpage⟩ :=
      @pageOf_cut ordering keep c items hc hlong
    refine .inr ⟨before, last, after, rfl, hafter, ?_, congrArg Page.cursor hpage⟩
    rw [takeUpTo, List.append_cons]
    exact List.take_left' (by simpa using hlength)

variable {σ : Type} {t : Table} {kinds : String → KeyKind} {index : Option String} {forward : Bool}
  {key : Item → Bool} {fetch : Option Cursor → Step σ (Page Item)} {At : Nat → σ → Prop}

/-- **The pages of a read make a chain**: together they are the records of the read that pass the filter,
each once and in order, and they are as many as these records need.  `At` says of a state how many fetches
have been made before it. -/
theorem exists_chain (hfiled : t.Filed) (hordering : t.definition.ordering index = .ok ordering)
    (hkinds : t.Ordered kinds ordering) (hbound : bound ≠ some 0)
    (hfetch : ∀ k s start, At k s → ∃ s', At (k + 1) s' ∧ (fetch start).run s =
      (.ok (pageOf ordering bound keep (t.candidates ordering forward key start)), s'))
    {k : Nat} {s : σ} {start : Option Cursor}
    (hstart : ∀ c, start = some c → c.key.OfKinds kinds ordering) (hs : At k s) :
    ∃ fetches s', Page.Chain fetch start s fetches s' ∧ At (k + fetches.length) s' ∧
      fetches.length = Page.fetches bound (t.candidates ordering forward key start).length ∧
      Page.whole (fetches.map Page.Fetch.reply) =
        .ok ⟨(t.candidates ordering forward key start).filter keep, none⟩ := by
  induction hn : (t.candidates ordering forward key start).length using Nat.strongRecOn
    generalizing start k s with
  | ind n ih =>
      obtain ⟨s', hs', hrun⟩ := hfetch k s start hs
      generalize hitems : t.candidates ordering forward key start = items at hn hrun ⊢
      by_cases hwhole : ∀ c, bound = some c → items.length ≤ c
      case pos =>
        rw [pageOf_whole hwhole] at hrun
        refine ⟨_, s', .last hrun rfl, hs', ?_, Page.whole_last _⟩
        rw [← hn, Page.fetches_of_le hwhole]
        rfl
      case neg =>
        -- the page is cut: its cursor leads to the rest, which is shorter
        obtain ⟨c, rfl, hlong⟩ : ∃ c, bound = some c ∧ c < items.length := by
          simpa using hwhole
        have hc : c ≠ 0 := fun hc => hbound (congrArg some hc)
        obtain ⟨before, last, after, rfl, hlength, hafter, hpage⟩ := pageOf_cut hc hlong
        have hresume := candidates_resume hfiled hordering hkinds hstart hitems
        have hlast : last.OfKinds kinds ordering :=
          hkinds last (mem_candidates.mp (hitems ▸ List.mem_append_right _ List.mem_cons_self)).1.1
        have hnext : ∀ cursor, some (Cursor.mk (Item.project last ordering)) = some cursor →
            cursor.key.OfKinds kinds ordering := by
          rintro _ ⟨⟩
          exact hlast.project
        rw [List.length_append, List.length_cons] at hn
        obtain ⟨rest, s'', hchain, hs'', hcount, hmore⟩ :=
          ih after.length (by omega) hnext hs' (congrArg List.length hresume)
        rw [hresume] at hmore
        rw [hpage] at hrun
        refine ⟨_, s'', .more hrun rfl hchain, ?_, ?_, ?_⟩
        · rw [List.length_cons, Nat.add_comm rest.length, ← Nat.add_assoc]
          exact hs''
        · rw [List.length_cons, hcount, ← Page.fetches_add hc (by simpa using hafter)]
          congr 1
          omega
        · have hfilter : (before ++ last :: after).filter keep =
              (before ++ [last]).filter keep ++ after.filter keep := by
            rw [← List.filter_append, List.append_assoc, List.singleton_append]
          rw [List.map_cons, Page.whole_ok, hmore, hfilter]
          rfl

end Table

end RecordStore
