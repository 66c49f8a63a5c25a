import RecordStore.Proofs.Expression.RoundTrip

/-!
# Conjunctions with a gap

A text in which a member of a conjunction is missing is no expression, whatever stands before and
after the gap.  The members here are conditions that may be absent; an absent one is written as
nothing at all.

The induction goes along the members after the first one.  It is carried by what has been read so far,
because a conjunction groups to the left.

* `intercalate_flatten` — joining joined parts is joining all their members;
* `ofText_gap` — no conjunction with a gap is read;
* `Broken.ofText`, `Broken.append` — a text with a gap, also with one more member after it.
-/

namespace RecordStore

/-- Parts that are each joined from members, joined once more, are all members joined. -/
theorem intercalate_flatten {separator : String} {parts : List (List String)}
    (h : ∀ part ∈ parts, part ≠ []) :
    separator.intercalate (parts.map separator.intercalate)
      = separator.intercalate parts.flatten := by
  induction parts with
  | nil => rfl
  | cons part parts ih =>
      have hpart : part ≠ [] := h part List.mem_cons_self
      have hrest := ih fun p hp => h p (List.mem_cons_of_mem _ hp)
      cases parts with
      | nil => simp
      | cons next more =>
          have hnext : next ≠ [] := h next (by simp)
          have hne : (next :: more).flatten ≠ [] := by simp [hnext]
          rw [List.flatten_cons, String.intercalate_append_of_ne_nil hpart hne, ← hrest]
          exact String.intercalate_cons_cons

namespace Condition

/-- A member of a conjunction as an expression; an absent one is written as nothing. -/
def memberText : Option Condition → String
  | some c => c.text
  | none => ""

/-- The tokens of a member. -/
def memberTokens : Option Condition → List Token
  | some c => c.tokens
  | none => []

/-- A member that is there is spelled, and it is not itself a conjunction. -/
def IsMember (m : Option Condition) : Prop := ∀ c, m = some c → c.isAnd = false ∧ c.Spelled

/-- A member is scanned to its tokens. -/
theorem IsMember.scan {m : Option Condition} (h : IsMember m) :
    Token.scan (memberText m) = .ok (memberTokens m) := by
  cases m with
  | none => exact Token.scan_empty
  | some c => exact scan_text (h c rfl).2

/-- The tokens of further members, each after an `AND`. -/
def moreTokens (members : List (Option Condition)) : List Token :=
  members.flatMap fun m => .and :: memberTokens m

/-- So are several members that are joined. -/
theorem scan_members {m : Option Condition} {members : List (Option Condition)} (hm : IsMember m)
    (h : ∀ n ∈ members, IsMember n) :
    Token.scan (" AND ".intercalate ((m :: members).map memberText))
      = .ok (memberTokens m ++ moreTokens members) := by
  induction members generalizing m with
  | nil => simpa [moreTokens] using hm.scan
  | cons n members ih =>
      have hn : IsMember n := h n List.mem_cons_self
      have hrest := ih hn fun k hk => h k (List.mem_cons_of_mem _ hk)
      rw [List.map_cons, List.map_cons, String.intercalate_cons_cons, ← List.map_cons,
        Token.scan_and hm.scan hrest]
      simp [moreTokens]

/-- Nothing can be read where a member is missing. -/
theorem bare_readNot_gap {ts : List Token} (h : ts = [] ∨ ∃ rest, ts = .and :: rest) :
    ∃ e, bare (readNot ts) = .error e := by
  rcases h with rfl | ⟨rest, rfl⟩
  · rw [bare_readNot_simple (by simp) (by simp)]
    exact ⟨_, rfl⟩
  · rw [bare_readNot_simple (by simp) (by simp)]
    exact ⟨_, rfl⟩

/-- What follows a first member is nothing, or begins with `AND`. -/
theorem moreTokens_eq (members : List (Option Condition)) :
    moreTokens members = [] ∨ ∃ rest, moreTokens members = .and :: rest := by
  cases members with
  | nil => exact .inl rfl
  | cons m members => exact .inr ⟨_, rfl⟩

/-- It does not go on with the path of the member. -/
theorem head_moreTokens (members : List (Option Condition)) :
    (moreTokens members).head? ≠ some .dot := by
  rcases moreTokens_eq members with h | ⟨rest, h⟩ <;> simp [h]

/-- Going on after what has been read fails at the gap. -/
theorem readAndMore_gap {members : List (Option Condition)} (h : ∀ m ∈ members, IsMember m)
    (hgap : none ∈ members) (left : Condition) :
    ∃ e, bare (readAndMore left (moreTokens members)) = .error e := by
  induction members generalizing left with
  | nil => simp at hgap
  | cons m members ih =>
      have htokens : moreTokens (m :: members) = .and :: (memberTokens m ++ moreTokens members) := by
        simp [moreTokens]
      rw [htokens, bare_readAndMore_and]
      cases m with
      | none =>
          obtain ⟨e, he⟩ := bare_readNot_gap (moreTokens_eq members)
          exact ⟨e, by rw [memberTokens, List.nil_append, he]; rfl⟩
      | some c =>
          obtain ⟨halone, hspelled⟩ := h (some c) List.mem_cons_self c rfl
          have hread := (readAlone_and_readFirst hspelled).1 halone _ (head_moreTokens members)
          have hrest : none ∈ members := by simpa using hgap
          rw [memberTokens, hread]
          exact ih (fun n hn => h n (List.mem_cons_of_mem _ hn)) hrest (.and left c)

/-- **No conjunction with a gap is read.** -/
theorem ofText_gap {members : List (Option Condition)} (h : ∀ m ∈ members, IsMember m)
    (hgap : none ∈ members) :
    ∃ e, ofText (" AND ".intercalate (members.map memberText)) = .error e := by
  cases members with
  | nil => simp at hgap
  | cons m members =>
      have hmembers : ∀ n ∈ members, IsMember n := fun n hn => h n (List.mem_cons_of_mem _ hn)
      have hread : ∃ e, bare (readAnd (memberTokens m ++ moreTokens members)) = .error e := by
        rw [bare_readAnd]
        cases m with
        | none =>
            obtain ⟨e, he⟩ := bare_readNot_gap (moreTokens_eq members)
            exact ⟨e, by rw [memberTokens, List.nil_append, he]; rfl⟩
        | some c =>
            obtain ⟨halone, hspelled⟩ := h (some c) List.mem_cons_self c rfl
            have hfirst := (readAlone_and_readFirst hspelled).1 halone _ (head_moreTokens members)
            have hrest : none ∈ members := by simpa using hgap
            rw [memberTokens, hfirst]
            exact readAndMore_gap hmembers hrest c
      obtain ⟨e, he⟩ := hread
      have hor : bare (readOr (memberTokens m ++ moreTokens members)) = .error e := by
        rw [bare_readOr, he]
        rfl
      refine ⟨e, ?_⟩
      unfold ofText
      rw [scan_members (h m List.mem_cons_self) hmembers]
      change ofTokens (memberTokens m ++ moreTokens members) = _
      rw [ofTokens_eq, hor]
      rfl

/-- A text is a conjunction with a gap. -/
def Broken (text : String) : Prop :=
  ∃ members : List (Option Condition), text = " AND ".intercalate (members.map memberText) ∧
    (∀ m ∈ members, IsMember m) ∧ none ∈ members

/-- A broken text cannot be read. -/
theorem Broken.ofText {text : String} (h : Broken text) : ∃ e, Condition.ofText text = .error e := by
  obtain ⟨members, rfl, hmembers, hgap⟩ := h
  exact ofText_gap hmembers hgap

/-- One more member does not mend a text with a gap. -/
theorem Broken.append {text : String} (h : Broken text) {c : Condition} (halone : c.isAnd = false)
    (hspelled : c.Spelled) : Broken (text ++ " AND " ++ c.text) := by
  obtain ⟨members, rfl, hmembers, hgap⟩ := h
  refine ⟨members ++ [some c], ?_, ?_, by simp [hgap]⟩
  · have hne : members.map memberText ≠ [] := by
      simp [List.ne_nil_of_mem hgap]
    rw [List.map_append, String.intercalate_append_of_ne_nil hne (by simp)]
    simp [memberText]
  · intro m hm
    rcases List.mem_append.mp hm with hm | hm
    · exact hmembers m hm
    · obtain rfl := List.mem_singleton.mp hm
      intro d hd
      obtain rfl := Option.some.inj hd
      exact ⟨halone, hspelled⟩

end Condition

end RecordStore
