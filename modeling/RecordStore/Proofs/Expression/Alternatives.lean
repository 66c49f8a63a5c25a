import RecordStore.Expression.ConditionHolding
import RecordStore.Expressions
import RecordStore.Proofs.Expression.Grammar
import RecordStore.Proofs.Expression.Lexemes

/-!
# Texts with an `AND` between them

One more clause is added to a filter as text.  `AND` binds tighter than `OR`, so between two texts it
joins the last alternative of the first one with the first alternative of the second one, and leaves
the other alternatives of both as they are.

* `Alternatives` — the conjunctions that tokens spell, with `OR` between them;
* `anyHolds` — whether one of several conditions holds, tried from left to right;
* `Alternatives.and` — what the joined tokens spell;
* `SpellsAlternatives.conjoin` — what the joined text means, for every two texts that can be read.
-/

namespace RecordStore

namespace Condition

/-- Tokens spell conjunctions with `OR` between them. -/
inductive Alternatives : List Token → List Condition → Prop where
  | single {ts : List Token} {c : Condition} (h : Derives .conjunction ts c) : Alternatives ts [c]
  | more {ts us : List Token} {cs : List Condition} {d : Condition} (hcs : Alternatives ts cs)
      (hd : Derives .conjunction us d) : Alternatives (ts ++ .or :: us) (cs ++ [d])

/-- Whether one of several conditions holds of a record; a later one is tried only if none before it
holds. -/
def anyHolds (ctx : Context) (item : Item) : List Condition → Except ExpressionFault Bool
  | [] => .ok false
  | c :: cs => do
    if ← c.holds ctx item then return true else anyHolds ctx item cs

section Trying

variable (ctx : Context) (item : Item)

theorem anyHolds_append (cs ds : List Condition) :
    anyHolds ctx item (cs ++ ds) = (do
      if ← anyHolds ctx item cs then return true else anyHolds ctx item ds) := by
  induction cs with
  | nil => rfl
  | cons c cs ih =>
      simp only [List.cons_append, anyHolds, ih]
      cases c.holds ctx item with
      | error e => rfl
      | ok b => cases b <;> rfl

/-- A single condition is tried by itself. -/
theorem anyHolds_singleton (c : Condition) : anyHolds ctx item [c] = c.holds ctx item := by
  rw [anyHolds]
  cases c.holds ctx item with
  | error e => rfl
  | ok b => cases b <;> rfl

/-- An alternative is tried after those before it. -/
theorem holds_or_of_anyHolds {c : Condition} {cs : List Condition}
    (h : c.holds ctx item = anyHolds ctx item cs) (d : Condition) :
    (Condition.or c d).holds ctx item = anyHolds ctx item (cs ++ [d]) := by
  rw [anyHolds_append, anyHolds_singleton, ← h, holds]

/-- A conjunction may be grouped to the right as well. -/
theorem holds_and_assoc (a b c : Condition) :
    (Condition.and (.and a b) c).holds ctx item = (Condition.and a (.and b c)).holds ctx item := by
  simp only [holds]
  cases a.holds ctx item with
  | error e => rfl
  | ok x => cases x <;> rfl

/-- Conjunctions whose members mean the same mean the same. -/
theorem holds_and_congr {a b : Condition} (h : a.holds ctx item = b.holds ctx item) (c : Condition) :
    (Condition.and a c).holds ctx item = (Condition.and b c).holds ctx item := by
  rw [holds, holds, h]

/-- An alternative may be replaced by one that means the same. -/
theorem anyHolds_congr {a b : Condition} (h : a.holds ctx item = b.holds ctx item)
    (before after : List Condition) :
    anyHolds ctx item (before ++ a :: after) = anyHolds ctx item (before ++ b :: after) := by
  rw [anyHolds_append, anyHolds_append, anyHolds, anyHolds, h]

end Trying

/-- Whatever is spelled at the loosest level is spelled by its alternatives. -/
theorem Derives.exists_alternatives {ts : List Token} {c : Condition}
    (h : Derives .alternatives ts c) :
    ∃ cs, cs ≠ [] ∧ Alternatives ts cs ∧ ∀ ctx item, c.holds ctx item = anyHolds ctx item cs := by
  generalize hlevel : Level.alternatives = level at h
  induction h with
  | conjunction h =>
      exact ⟨[_], by simp, .single h, fun ctx item => (anyHolds_singleton ctx item _).symm⟩
  | or hc hd ihc _ =>
      obtain ⟨cs, _, hcs, heq⟩ := ihc rfl
      exact ⟨cs ++ [_], by simp, hcs.more hd,
        fun ctx item => holds_or_of_anyHolds ctx item (heq ctx item) _⟩
  | _ => cases hlevel

namespace Alternatives

variable {ts us : List Token} {cs : List Condition}

/-- Alternatives spell a condition, and it holds if one of them does. -/
theorem exists_derives (h : Alternatives ts cs) :
    ∃ c, Derives .alternatives ts c ∧ ∀ ctx item, c.holds ctx item = anyHolds ctx item cs := by
  induction h with
  | single h => exact ⟨_, .conjunction h, fun ctx item => (anyHolds_singleton ctx item _).symm⟩
  | more _ hd ih =>
      obtain ⟨c, hc, heq⟩ := ih
      exact ⟨_, hc.or hd, fun ctx item => holds_or_of_anyHolds ctx item (heq ctx item) _⟩

theorem ne_nil (h : Alternatives ts cs) : cs ≠ [] := by
  cases h <;> simp

/-- The last alternative stands by itself or after an `OR`. -/
theorem split_last {before : List Condition} {c : Condition} (h : Alternatives ts (before ++ [c])) :
    (before = [] ∧ Derives .conjunction ts c) ∨
      ∃ xs ys, ts = xs ++ .or :: ys ∧ Alternatives xs before ∧ Derives .conjunction ys c := by
  generalize hcs : before ++ [c] = cs at h
  cases h with
  | @single _ d h =>
      have happend : before ++ [c] = [] ++ [d] := hcs
      obtain ⟨rfl, hlast⟩ := List.append_inj' happend rfl
      obtain rfl := List.singleton_inj.mp hlast
      exact .inl ⟨rfl, h⟩
  | more hbefore hd =>
      obtain ⟨rfl, hlast⟩ := List.append_inj' hcs rfl
      obtain rfl := List.singleton_inj.mp hlast
      exact .inr ⟨_, _, rfl, hbefore, hd⟩

end Alternatives

/-- An `AND` between two conjunctions makes one conjunction. -/
theorem Derives.and_conjunction {ts us : List Token} {c d : Condition}
    (hc : Derives .conjunction ts c) (hd : Derives .conjunction us d) :
    ∃ e, Derives .conjunction (ts ++ .and :: us) e ∧
      ∀ ctx item, e.holds ctx item = (Condition.and c d).holds ctx item := by
  generalize hlevel : Level.conjunction = level at hd
  induction hd with
  | member hd => exact ⟨.and c _, hc.and hd, fun _ _ => rfl⟩
  | @and us vs d d' _ hd' ih _ =>
      obtain ⟨e, he, heq⟩ := ih hlevel
      have hall : Derives .conjunction (ts ++ .and :: us ++ .and :: vs) (.and e d') := he.and hd'
      refine ⟨.and e d', by simpa using hall, ?_⟩
      intro ctx item
      rw [holds_and_congr ctx item (heq ctx item), holds_and_assoc]
  | _ => cases hlevel

namespace Alternatives

/-- An `AND` before a conjunction joins it with the last alternative. -/
theorem and_conjunction {ts us : List Token} {before : List Condition} {c d : Condition}
    (h : Alternatives ts (before ++ [c])) (hd : Derives .conjunction us d) :
    ∃ e, Alternatives (ts ++ .and :: us) (before ++ [e]) ∧
      ∀ ctx item, e.holds ctx item = (Condition.and c d).holds ctx item := by
  rcases h.split_last with ⟨rfl, hc⟩ | ⟨xs, ys, rfl, hbefore, hc⟩
  · obtain ⟨e, he, heq⟩ := hc.and_conjunction hd
    exact ⟨e, .single he, heq⟩
  · obtain ⟨e, he, heq⟩ := hc.and_conjunction hd
    exact ⟨e, by simpa using hbefore.more he, heq⟩

/-- **An `AND` between alternatives.**  It joins the last one before it with the first one after it. -/
theorem and {ts us : List Token} {before after : List Condition} {c d : Condition}
    (h : Alternatives ts (before ++ [c])) (hd : Alternatives us (d :: after)) :
    ∃ e, Alternatives (ts ++ .and :: us) (before ++ e :: after) ∧
      ∀ ctx item, e.holds ctx item = (Condition.and c d).holds ctx item := by
  generalize hds : d :: after = ds at hd
  induction hd generalizing after with
  | single hd =>
      obtain ⟨rfl, rfl⟩ := List.cons.inj hds
      exact h.and_conjunction hd
  | @more us vs ds d' hus hd' ih =>
      obtain ⟨ds', rfl⟩ : ∃ ds', ds = d :: ds' := by
        cases ds with
        | nil => exact absurd rfl hus.ne_nil
        | cons d' ds' =>
            obtain ⟨rfl, _⟩ := List.cons.inj hds
            exact ⟨ds', rfl⟩
      obtain ⟨_, rfl⟩ := List.cons.inj hds
      obtain ⟨e, he, heq⟩ := ih rfl
      exact ⟨e, by simpa using he.more hd', heq⟩

end Alternatives

/-- A text spells conjunctions with `OR` between them. -/
def SpellsAlternatives (text : String) (cs : List Condition) : Prop :=
  ∃ ts, Token.scan text = .ok ts ∧ Alternatives ts cs

/-- A text is read as a condition if and only if its tokens spell the condition. -/
theorem ofText_eq_ok_iff {text : String} {c : Condition} :
    ofText text = .ok c ↔ ∃ ts, Token.scan text = .ok ts ∧ Derives .alternatives ts c := by
  unfold ofText
  cases hscan : Token.scan text with
  | error e => simp [bind, Except.bind]
  | ok ts => simp [bind, Except.bind, ofTokens_eq_ok_iff]

/-- Every text that can be read has alternatives. -/
theorem exists_spellsAlternatives {text : String} {c : Condition} (h : ofText text = .ok c) :
    ∃ cs, cs ≠ [] ∧ SpellsAlternatives text cs := by
  obtain ⟨ts, hscan, hc⟩ := ofText_eq_ok_iff.mp h
  obtain ⟨cs, hne, hcs, _⟩ := hc.exists_alternatives
  exact ⟨cs, hne, ts, hscan, hcs⟩

/-- A text with alternatives can be read, and it holds if one of them does. -/
theorem SpellsAlternatives.ofText_and_textHolds {text : String} {cs : List Condition}
    (h : SpellsAlternatives text cs) :
    (∃ c, ofText text = .ok c) ∧
      ∀ ctx item, textHolds ctx item text = anyHolds ctx item cs := by
  obtain ⟨ts, hscan, hcs⟩ := h
  obtain ⟨c, hc, heq⟩ := hcs.exists_derives
  have hread : ofText text = .ok c := ofText_eq_ok_iff.mpr ⟨ts, hscan, hc⟩
  refine ⟨⟨c, hread⟩, ?_⟩
  intro ctx item
  rw [Condition.textHolds, hread]
  exact heq ctx item

/-- **One more clause.**  The alternatives of a text with a clause after it are those of the text and
of the clause, but the last of the text is joined with the first of the clause. -/
theorem SpellsAlternatives.conjoin {text clause : String} {before after : List Condition}
    {c d : Condition} (ht : SpellsAlternatives text (before ++ [c]))
    (hclause : SpellsAlternatives clause (d :: after)) :
    (∃ e, ofText (Expressions.conjoin (some text) clause) = .ok e) ∧
      ∀ ctx item, textHolds ctx item (Expressions.conjoin (some text) clause)
        = anyHolds ctx item (before ++ .and c d :: after) := by
  obtain ⟨ts, hts, hbefore⟩ := ht
  obtain ⟨us, hus, hafter⟩ := hclause
  obtain ⟨e, he, heq⟩ := hbefore.and hafter
  have hall : SpellsAlternatives (Expressions.conjoin (some text) clause) (before ++ e :: after) :=
    ⟨_, Token.scan_and hts hus, he⟩
  obtain ⟨hread, htext⟩ := hall.ofText_and_textHolds
  refine ⟨hread, ?_⟩
  intro ctx item
  rw [htext, anyHolds_congr ctx item (heq ctx item)]

end Condition

end RecordStore
