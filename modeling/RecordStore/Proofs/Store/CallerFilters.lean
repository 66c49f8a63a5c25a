import RecordStore.Proofs.Expression.Alternatives
import RecordStore.Proofs.Store.RequestPages

/-!
# Filters that a caller writes

A compiled filter is a conjunction of closed members, and one more clause after it is one more member.
A filter that a caller writes may be any text.  Then the clause that leaves out marked records reaches
only the last of its alternatives: a marked record passes if an earlier alternative holds of it.

* `Condition.holds_of_within` — more aliases and placeholders change no answer;
* `Expressions.textHolds_excludeDeleted` — what the added clause makes of any filter;
* `Expressions.conjoin_joins_alternatives` — the same for every two texts that can be read.
-/

namespace RecordStore

namespace Context

variable {c d : Context}

/-- What an alias stands for in the lesser context it stands for in the greater one. -/
theorem Within.nameOf (h : c.Within d) {segment name : String} (hname : c.nameOf segment = .ok name) :
    d.nameOf segment = .ok name := by
  unfold Context.nameOf at hname ⊢
  cases halias : isAlias segment with
  | false => simpa [halias] using hname
  | true =>
      cases hget : c.names.get? segment with
      | none => simp [halias, hget] at hname
      | some n => simpa [halias, hget, h.1 segment n hget] using hname

/-- A placeholder has the same value in both. -/
theorem Within.valueOf (h : c.Within d) {label : String} {v : Value}
    (hvalue : c.valueOf label = .ok v) : d.valueOf label = .ok v := by
  unfold Context.valueOf at hvalue ⊢
  cases hget : c.values.get? label with
  | none => simp [hget] at hvalue
  | some w => simpa [hget, h.2 label w hget] using hvalue

/-- Going down a path that succeeds in the lesser context leads to the same in the greater one. -/
theorem Within.descend (h : c.Within d) {p : Path} {found r : Option Value}
    (hfound : c.descend found p = .ok r) : d.descend found p = .ok r := by
  induction p generalizing found with
  | nil => exact hfound
  | cons segment p ih =>
      rw [Context.descend] at hfound
      obtain ⟨name, hname, hrest⟩ := Condition.bind_eq_ok hfound
      rw [Context.descend, h.nameOf hname]
      exact ih hrest

/-- So does resolving a path. -/
theorem Within.resolve (h : c.Within d) {item : Item} {p : Path} {r : Option Value}
    (hfound : c.resolve item p = .ok r) : d.resolve item p = .ok r := by
  cases p with
  | nil => exact hfound
  | cons segment p =>
      rw [Context.resolve] at hfound
      obtain ⟨name, hname, hrest⟩ := Condition.bind_eq_ok hfound
      rw [Context.resolve, h.nameOf hname]
      exact h.descend hrest

/-- An operand that can be found in the lesser context is found alike in the greater one. -/
theorem Within.find (h : c.Within d) {item : Item} {o : Operand} {r : Option Value}
    (hfound : o.find c item = .ok r) : o.find d item = .ok r := by
  cases o with
  | path p => exact h.resolve hfound
  | value label =>
      unfold Operand.find at hfound ⊢
      obtain ⟨v, hvalue, rfl⟩ := map_eq_ok hfound
      change (d.valueOf label).map some = .ok (some v)
      rw [h.valueOf hvalue]
      rfl

end Context

namespace Condition

variable {c d : Context} {item : Item}

/-- **More aliases and placeholders change no answer.** -/
theorem holds_of_within (h : c.Within d) {condition : Condition} {b : Bool}
    (hholds : condition.holds c item = .ok b) : condition.holds d item = .ok b := by
  induction condition generalizing b with
  | compare op left right =>
      rw [holds] at hholds ⊢
      obtain ⟨l, hl, hholds⟩ := bind_eq_ok hholds
      obtain ⟨r, hr, hholds⟩ := bind_eq_ok hholds
      rw [h.find hl, h.find hr]
      exact hholds
  | between subject low high =>
      rw [holds] at hholds ⊢
      obtain ⟨s, hs, hholds⟩ := bind_eq_ok hholds
      obtain ⟨l, hl, hholds⟩ := bind_eq_ok hholds
      obtain ⟨u, hu, hholds⟩ := bind_eq_ok hholds
      rw [h.find hs, h.find hl, h.find hu]
      exact hholds
  | and left right ihl ihr =>
      rw [holds] at hholds ⊢
      obtain ⟨l, hl, hholds⟩ := bind_eq_ok hholds
      rw [ihl hl]
      cases l with
      | false => exact hholds
      | true => exact ihr hholds
  | or left right ihl ihr =>
      rw [holds] at hholds ⊢
      obtain ⟨l, hl, hholds⟩ := bind_eq_ok hholds
      rw [ihl hl]
      cases l with
      | false => exact ihr hholds
      | true => exact hholds
  | not inner ih =>
      rw [holds] at hholds ⊢
      obtain ⟨l, hl, hholds⟩ := bind_eq_ok hholds
      rw [ih hl]
      exact hholds
  | present path =>
      rw [holds] at hholds ⊢
      obtain ⟨found, hfound, hholds⟩ := bind_eq_ok hholds
      rw [h.resolve hfound]
      exact hholds
  | absent path =>
      rw [holds] at hholds ⊢
      obtain ⟨found, hfound, hholds⟩ := bind_eq_ok hholds
      rw [h.resolve hfound]
      exact hholds
  | beginsWith subject beginning =>
      rw [holds] at hholds ⊢
      obtain ⟨s, hs, hholds⟩ := bind_eq_ok hholds
      obtain ⟨p, hp, hholds⟩ := bind_eq_ok hholds
      rw [h.find hs, h.find hp]
      exact hholds

/-- Alternatives that have an answer in the lesser context have the same answer in the greater one. -/
theorem anyHolds_of_within (h : c.Within d) {cs : List Condition} {b : Bool}
    (hholds : anyHolds c item cs = .ok b) : anyHolds d item cs = .ok b := by
  induction cs with
  | nil => exact hholds
  | cons condition cs ih =>
      rw [anyHolds] at hholds ⊢
      obtain ⟨first, hfirst, hholds⟩ := bind_eq_ok hholds
      rw [holds_of_within h hfirst]
      cases first with
      | false => exact ih hholds
      | true => exact hholds

/-- A written member of a conjunction is one alternative. -/
theorem Spelled.spellsAlternatives {condition : Condition} (h : condition.Spelled) :
    SpellsAlternatives condition.text [condition] :=
  ⟨condition.tokens, scan_text h, .single (derives_tokens h).2⟩

/-- Where all alternatives have an answer, those before the last one have one. -/
theorem exists_anyHolds_of_append {before after : List Condition} {b : Bool}
    (hholds : anyHolds c item (before ++ after) = .ok b) :
    ∃ first, anyHolds c item before = .ok first := by
  rw [anyHolds_append] at hholds
  obtain ⟨first, hfirst, _⟩ := bind_eq_ok hholds
  exact ⟨first, hfirst⟩

/-- A further test of the last alternative that comes out true changes no answer, and one that comes
out false leaves the alternatives before the last. -/
theorem anyHolds_and_test {before : List Condition} {last test : Condition} {b passes : Bool}
    (htest : test.holds c item = .ok passes)
    (hholds : anyHolds c item (before ++ [last]) = .ok b) :
    anyHolds c item (before ++ [.and last test])
      = if passes then .ok b else anyHolds c item before := by
  rw [anyHolds_append, anyHolds_singleton] at hholds ⊢
  rw [holds, htest]
  cases hbefore : anyHolds c item before with
  | error e => simp [hbefore, bind, Except.bind] at hholds
  | ok first =>
      cases hlast : last.holds c item with
      | error e => cases first <;> cases passes <;> simp_all [bind, Except.bind, pure, Except.pure]
      | ok l =>
          cases first <;> cases l <;> cases passes <;>
            simp_all [bind, Except.bind, pure, Except.pure]

end Condition

namespace Expressions

open Condition

/-- **The added clause after any filter.**  It changes no answer about an unmarked record.  A marked
record passes if and only if an alternative before the last one holds of it. -/
theorem textHolds_excludeDeleted {e : Expressions}
    (hlabel : ∀ k, e.context.names.get? k = some Attribute.deletedAt → IsLabel '#' k)
    {text : String} (hfilter : e.filter = some text) {before : List Condition} {last : Condition}
    (hspells : SpellsAlternatives text (before ++ [last])) {item : Item} {b : Bool}
    (hholds : textHolds e.context item text = .ok b) :
    optionalHolds e.excludeDeleted.context item e.excludeDeleted.filter
      = if item.contains Attribute.deletedAt then anyHolds e.context item before else .ok b := by
  obtain ⟨a, hname, hwithin, _, hslot⟩ := excludeDeleted_spec hlabel
  let ctx := e.excludeDeleted.context
  have hclause : SpellsAlternatives (absent [a]).text [absent [a]] :=
    Spelled.spellsAlternatives (Path.spelled_singleton hname.isSegment)
  have habsent : (absent [a]).holds ctx item = .ok (!item.contains Attribute.deletedAt) := by
    rw [holds, hname.resolve item]
    cases hget : item.get? Attribute.deletedAt <;> simp [Dict.contains, hget, bind, Except.bind, pure,
      Except.pure]
  have hcaller : anyHolds e.context item (before ++ [last]) = .ok b := by
    rw [← hspells.ofText_and_textHolds.2, hholds]
  obtain ⟨first, hfirst⟩ := exists_anyHolds_of_append hcaller
  rw [hslot, hfilter, optionalHolds, (hspells.conjoin hclause).2,
    anyHolds_and_test habsent (anyHolds_of_within hwithin hcaller),
    anyHolds_of_within hwithin hfirst, hfirst]
  cases item.contains Attribute.deletedAt <;> rfl

/-- **Clauses are joined, alternatives are not.**  Between two texts that can be read, `AND` joins the
last alternative of the first with the first alternative of the second.  That is the conjunction of the
texts if each has one alternative.  Of the records that are marked as deleted, a filter with the clause
that is to leave them out lets through those of which an alternative before its last one holds. -/
theorem conjoin_joins_alternatives {text clause : String} {c d : Condition}
    (hc : ofText text = .ok c) (hd : ofText clause = .ok d) :
    ∃ before last first after,
      SpellsAlternatives text (before ++ [last]) ∧ SpellsAlternatives clause (first :: after) ∧
      (∃ e, ofText (conjoin (some text) clause) = .ok e) ∧
      (∀ ctx item, textHolds ctx item (conjoin (some text) clause)
        = anyHolds ctx item (before ++ .and last first :: after)) ∧
      (before = [] → after = [] → ∀ ctx item p q, textHolds ctx item text = .ok p →
        textHolds ctx item clause = .ok q →
        textHolds ctx item (conjoin (some text) clause) = .ok (p && q)) ∧
      ∀ e : Expressions, e.filter = some text →
        (∀ k, e.context.names.get? k = some Attribute.deletedAt → IsLabel '#' k) →
        ∀ item p, textHolds e.context item text = .ok p →
          optionalHolds e.excludeDeleted.context item e.excludeDeleted.filter
            = if item.contains Attribute.deletedAt then anyHolds e.context item before
              else .ok p := by
  obtain ⟨cs, hcs, htext⟩ := exists_spellsAlternatives hc
  obtain ⟨ds, hds, hclause⟩ := exists_spellsAlternatives hd
  obtain ⟨before, last, rfl⟩ := List.eq_nil_or_concat' cs |>.resolve_left hcs
  obtain ⟨first, after, rfl⟩ := List.exists_cons_of_ne_nil hds
  obtain ⟨hread, hjoined⟩ := htext.conjoin hclause
  refine ⟨before, last, first, after, htext, hclause, hread, hjoined, ?_, ?_⟩
  · rintro rfl rfl ctx item p q hp hq
    rw [htext.ofText_and_textHolds.2, List.nil_append, anyHolds_singleton] at hp
    rw [hclause.ofText_and_textHolds.2, anyHolds_singleton] at hq
    rw [hjoined, List.nil_append, anyHolds_singleton, holds, hp, hq]
    cases p <;> rfl
  · intro e hfilter hlabel item p hp
    exact textHolds_excludeDeleted hlabel hfilter htext hp

/-- A filter with two alternatives. -/
def openOrPinned : String := "#open = :yes OR #pinned = :yes"

/-- The clause that leaves out marked records, under the alias that a new table gives. -/
def unmarked : String := "attribute_not_exists(#deletedAt)"

/-- What the aliases and placeholders in both of them stand for. -/
def flags : Context where
  names := .ofList [("#open", "open"), ("#pinned", "pinned"), ("#deletedAt", Attribute.deletedAt)]
  values := .ofList [(":yes", .bool true)]

/-- A record that is open, and marked as deleted. -/
def openAndDeleted : Item := .ofList [("open", .bool true), (Attribute.deletedAt, .ofInt 5)]

/-- An attribute compared with a placeholder. -/
def isFlagged (name : String) : Condition := .compare .equal (.path [name]) (.value ":yes")

/-- The filter has its two alternatives. -/
theorem spells_openOrPinned :
    SpellsAlternatives openOrPinned [isFlagged "#open", isFlagged "#pinned"] := by
  have hflag (name : String) :
      Derives .conjunction [.name name, .comparison .equal, .value ":yes"] (isFlagged name) :=
    .member (.simple (.compare .equal (.path (.single (.name name))) (.value ":yes")))
  exact ⟨_, rfl, .more (.single (hflag "#open")) (hflag "#pinned")⟩

/-- The clause has one. -/
theorem spells_unmarked : SpellsAlternatives unmarked [absent ["#deletedAt"]] :=
  ⟨_, rfl, .single (.member (.simple (.absent rfl (.single (.name "#deletedAt")))))⟩

/-- The two joined: the last alternative of the filter and the clause are one conjunction. -/
theorem conjoin_joins_openOrPinned :
    ∃ c d, ofText openOrPinned = .ok c ∧ ofText unmarked = .ok d ∧
      ∃ before last first after,
        SpellsAlternatives openOrPinned (before ++ [last]) ∧
        SpellsAlternatives unmarked (first :: after) ∧
        ∀ ctx item, textHolds ctx item (conjoin (some openOrPinned) unmarked)
          = anyHolds ctx item (before ++ .and last first :: after) := by
  obtain ⟨c, hc⟩ := spells_openOrPinned.ofText_and_textHolds.1
  obtain ⟨d, hd⟩ := spells_unmarked.ofText_and_textHolds.1
  obtain ⟨before, last, first, after, htext, hclause, _, hjoined, _⟩ :=
    conjoin_joins_alternatives hc hd
  exact ⟨c, d, hc, hd, before, last, first, after, htext, hclause, hjoined⟩

/-- **One more clause is not always one more demand.**  After a filter with two alternatives it leaves
the first of them as it was. -/
theorem not_conjoin_holds_iff :
    ¬ ∀ (text clause : String) (ctx : Context) (item : Item) (p q : Bool),
      textHolds ctx item text = .ok p → textHolds ctx item clause = .ok q →
        (∃ e, ofText (conjoin (some text) clause) = .ok e) ∧
          (textHolds ctx item (conjoin (some text) clause) = .ok true ↔ p = true ∧ q = true) := by
  intro hall
  have htext : textHolds flags openAndDeleted openOrPinned = .ok true := by
    rw [spells_openOrPinned.ofText_and_textHolds.2]
    rfl
  have hclause : textHolds flags openAndDeleted unmarked = .ok false := by
    rw [spells_unmarked.ofText_and_textHolds.2]
    rfl
  have hspells : SpellsAlternatives openOrPinned ([isFlagged "#open"] ++ [isFlagged "#pinned"]) :=
    spells_openOrPinned
  have hjoined : textHolds flags openAndDeleted (conjoin (some openOrPinned) unmarked)
      = .ok true := by
    rw [(hspells.conjoin spells_unmarked).2]
    rfl
  obtain ⟨_, hiff⟩ := hall _ _ _ _ _ _ htext hclause
  exact absurd (hiff.mp hjoined).2 (by decide)

end Expressions

end RecordStore
