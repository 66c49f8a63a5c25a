import RecordStore.Proofs.Compile.Bindings
import RecordStore.Proofs.Expression.RoundTrip

/-!
# Conditions that decide

A condition decides a property of records if trying it gives an answer on every record, and the answer
is whether the record has the property.  Conditions that are written one after another with `AND`
between them decide all their properties together.

* `Decides.compare`, `Decides.between`, `Decides.beginsWith`, `Decides.absent`, `Decides.or` — one
  condition;
* `DecideAll` — a list of conditions that have to hold together, with `append` and `flatten`;
* `DecideAll.textHolds` — the written list, read back and tried.
-/

namespace RecordStore

namespace Operand

/-- What an operand finds in any record, without a fault. -/
def Finds (ctx : Context) (o : Operand) (f : Item → Option Value) : Prop :=
  o.Spelled ∧ ∀ item, o.find ctx item = .ok (f item)

end Operand

namespace Condition

/-- A condition has an answer on every record: whether the record has a property. -/
def Decides (ctx : Context) (c : Condition) (P : Item → Prop) : Prop :=
  c.Spelled ∧ ∀ item, ∃ b, c.holds ctx item = .ok b ∧ (b = true ↔ P item)

variable {ctx : Context}

/-- A comparison holds where the attribute is there and compares so; one that is missing fails it. -/
theorem Decides.compare {left right : Operand} {f : Item → Option Value} {w : Value}
    (hl : left.Finds ctx f) (hr : ctx.Gives right w) (op : Comparison) :
    (Condition.compare op left right).Decides ctx fun item =>
      ∃ v, f item = some v ∧ op.holds v w := by
  refine ⟨⟨hl.1, hr.spelled⟩, ?_⟩
  intro item
  rw [holds, hl.2 item, hr.find item]
  cases hf : f item with
  | none => exact ⟨false, rfl, by simp [hf]⟩
  | some v => exact ⟨op.holds v w, rfl, by simp [hf]⟩

/-- A range takes in both of its ends. -/
theorem Decides.between {subject low high : Operand} {f : Item → Option Value} {a b : Value}
    (hs : subject.Finds ctx f) (hl : ctx.Gives low a) (hh : ctx.Gives high b) :
    (Condition.between subject low high).Decides ctx fun item =>
      ∃ v, f item = some v ∧ Comparison.greaterOrEqual.holds v a ∧
        Comparison.lessOrEqual.holds v b := by
  refine ⟨⟨hs.1, hl.spelled, hh.spelled⟩, ?_⟩
  intro item
  rw [holds, hs.2 item, hl.find item, hh.find item]
  cases hf : f item with
  | none => exact ⟨false, rfl, by simp [hf]⟩
  | some v => exact ⟨_, rfl, by simp [hf]⟩

/-- A beginning is a test of the value that is there. -/
theorem Decides.beginsWith {subject beginning : Operand} {f : Item → Option Value} {w : Value}
    (hs : subject.Finds ctx f) (hb : ctx.Gives beginning w) :
    (Condition.beginsWith subject beginning).Decides ctx fun item =>
      ∃ v, f item = some v ∧ v.beginsWith w := by
  refine ⟨⟨hs.1, hb.spelled⟩, ?_⟩
  intro item
  rw [holds, hs.2 item, hb.find item]
  cases hf : f item with
  | none => exact ⟨false, rfl, by simp [hf]⟩
  | some v => exact ⟨v.beginsWith w, rfl, by simp [hf]⟩

/-- An attribute is absent where the record has none of its name. -/
theorem Decides.absent {label name : String} (h : ctx.Names label name) :
    (Condition.absent [label]).Decides ctx fun item => item.get? name = none := by
  refine ⟨Path.spelled_singleton h.isSegment, ?_⟩
  intro item
  rw [holds, h.resolve item]
  exact ⟨_, rfl, Option.isNone_iff_eq_none⟩

/-- A disjunction decides the disjunction. -/
theorem Decides.or {c d : Condition} {P Q : Item → Prop} (hc : c.Decides ctx P)
    (hd : d.Decides ctx Q) : (Condition.or c d).Decides ctx fun item => P item ∨ Q item := by
  refine ⟨⟨hc.1, hd.1⟩, ?_⟩
  intro item
  obtain ⟨b, hb, hP⟩ := hc.2 item
  obtain ⟨b', hb', hQ⟩ := hd.2 item
  rw [holds, hb, hb']
  cases b <;> simp_all [bind, Except.bind, pure, Except.pure]

/-- A conjunction decides the conjunction. -/
theorem Decides.and {c d : Condition} {P Q : Item → Prop} (hc : c.Decides ctx P)
    (hd : d.Decides ctx Q) : (Condition.and c d).Decides ctx fun item => P item ∧ Q item := by
  refine ⟨⟨hc.1, hd.1⟩, ?_⟩
  intro item
  obtain ⟨b, hb, hP⟩ := hc.2 item
  obtain ⟨b', hb', hQ⟩ := hd.2 item
  rw [holds, hb]
  cases b <;> simp_all [bind, Except.bind, pure, Except.pure]

/-- What decides a property decides every equivalent one. -/
theorem Decides.congr {c : Condition} {P Q : Item → Prop} (hc : c.Decides ctx P)
    (h : ∀ item, P item ↔ Q item) : c.Decides ctx Q := by
  refine ⟨hc.1, ?_⟩
  intro item
  obtain ⟨b, hb, hP⟩ := hc.2 item
  exact ⟨b, hb, hP.trans (h item)⟩

/-- The written form of a condition decides what the condition decides. -/
theorem Decides.textHolds {c : Condition} {P : Item → Prop} (hc : c.Decides ctx P) (item : Item) :
    ∃ b, textHolds ctx item c.text = .ok b ∧ (b = true ↔ P item) := by
  obtain ⟨b, hb, hP⟩ := hc.2 item
  refine ⟨b, ?_, hP⟩
  rw [Condition.textHolds, ofText_text hc.1]
  exact hb

/-- Conditions that have to hold together decide a property; none of them is itself a conjunction. -/
def DecideAll (ctx : Context) (cs : List Condition) (P : Item → Prop) : Prop :=
  (∀ c ∈ cs, c.isAnd = false ∧ c.Spelled) ∧
    ∀ item, (∀ c ∈ cs, ∃ b, c.holds ctx item = .ok b) ∧
      ((∀ c ∈ cs, c.holds ctx item = .ok true) ↔ P item)

namespace DecideAll

variable {cs ds : List Condition} {P Q : Item → Prop}

/-- No conditions hold of every record. -/
theorem nil : DecideAll ctx [] fun _ => True :=
  ⟨by simp, fun item => by simp⟩

/-- Conditions decide what is equivalent to what they decide. -/
theorem congr (h : DecideAll ctx cs P) (heq : ∀ item, P item ↔ Q item) : DecideAll ctx cs Q :=
  ⟨h.1, fun item => ⟨(h.2 item).1, (h.2 item).2.trans (heq item)⟩⟩

/-- One condition decides its property, as long as it can stand alone between `and`s. -/
theorem singleton {c : Condition} (hc : c.Decides ctx P) (halone : c.isAnd = false) :
    DecideAll ctx [c] P := by
  refine ⟨by simpa using ⟨halone, hc.1⟩, ?_⟩
  intro item
  obtain ⟨b, hb, hP⟩ := hc.2 item
  simpa [hb] using hP

/-- The conditions of two lists decide both properties together. -/
theorem append (hc : DecideAll ctx cs P) (hd : DecideAll ctx ds Q) :
    DecideAll ctx (cs ++ ds) fun item => P item ∧ Q item := by
  refine ⟨?_, fun item => ⟨?_, ?_⟩⟩
  · intro c h
    rcases List.mem_append.mp h with h | h
    · exact hc.1 c h
    · exact hd.1 c h
  · intro c h
    rcases List.mem_append.mp h with h | h
    · exact (hc.2 item).1 c h
    · exact (hd.2 item).1 c h
  · rw [List.forall_mem_append, (hc.2 item).2, (hd.2 item).2]

/-- Lists of conditions that each decide something, one after the other. -/
theorem flatten {α : Type} {xs : List α} {clauses : List (List Condition)} {R : α → Item → Prop}
    (h : List.Forall₂ (fun x cs => DecideAll ctx cs (R x)) xs clauses) :
    DecideAll ctx clauses.flatten fun item => ∀ x ∈ xs, R x item := by
  induction h with
  | nil => exact nil.congr fun item => by simp
  | cons hx _ ih => exact (hx.append ih).congr fun item => by simp

/-- Conditions that decide one thing each. -/
theorem of_forall₂ {α : Type} {xs : List α} {R : α → Item → Prop}
    (h : List.Forall₂ (fun x c => c.isAnd = false ∧ c.Decides ctx (R x)) xs cs) :
    DecideAll ctx cs fun item => ∀ x ∈ xs, R x item := by
  induction h with
  | nil => exact nil.congr fun item => by simp
  | cons hx _ ih => exact ((singleton hx.2 hx.1).append ih).congr fun item => by simp

/-- The first of a list of conditions, and the others. -/
theorem of_cons {c : Condition} (h : DecideAll ctx (c :: cs) P) :
    ∃ Q R, c.Decides ctx Q ∧ DecideAll ctx cs R ∧ ∀ item, P item ↔ Q item ∧ R item := by
  refine ⟨fun item => c.holds ctx item = .ok true, fun item => ∀ d ∈ cs, d.holds ctx item = .ok true,
    ⟨(h.1 c List.mem_cons_self).2, fun item => ?_⟩,
    ⟨fun d hd => h.1 d (List.mem_cons_of_mem _ hd), fun item => ⟨fun d hd => ?_, Iff.rfl⟩⟩,
    fun item => ?_⟩
  · obtain ⟨b, hb⟩ := (h.2 item).1 c List.mem_cons_self
    exact ⟨b, hb, by simp [hb]⟩
  · exact (h.2 item).1 d (List.mem_cons_of_mem _ hd)
  · rw [← (h.2 item).2, List.forall_mem_cons]

/-- Conditions joined into one, grouped to the left. -/
theorem foldl_and {c : Condition} (hc : c.Decides ctx P) (h : DecideAll ctx cs Q) :
    (cs.foldl Condition.and c).Decides ctx fun item => P item ∧ Q item := by
  induction cs generalizing c P Q with
  | nil =>
      have hQ (item : Item) : Q item := (h.2 item).2.mp (by simp)
      exact hc.congr fun item => by simp [hQ item]
  | cons d cs ih =>
      obtain ⟨R, S, hd, hcs, heq⟩ := h.of_cons
      refine (ih (hc.and hd) hcs).congr ?_
      intro item
      rw [heq item, and_assoc]

/-- The written form of the joined condition is the written list. -/
theorem text_foldl_and (h : ∀ c ∈ cs, c.isAnd = false) (c : Condition) :
    (cs.foldl Condition.and c).text = " AND ".intercalate ((c :: cs).map Condition.text) := by
  induction cs generalizing c with
  | nil => simp
  | cons d cs ih =>
      have hd : d.isAnd = false := h d List.mem_cons_self
      have htext : (Condition.and c d).text = c.text ++ " AND " ++ d.text := by
        change c.text ++ " AND " ++ (if d.isAnd then grouped d.text else d.text) = _
        rw [hd]
        rfl
      rw [List.foldl_cons, ih (fun e he => h e (List.mem_cons_of_mem _ he)), List.map_cons,
        htext]
      cases cs with
      | nil => simp
      | cons e cs => simp [String.append_assoc]

/-- **The written list.**  Conditions with `AND` between them are read back and decide their property. -/
theorem textHolds (hne : cs ≠ []) (h : DecideAll ctx cs P) (item : Item) :
    ∃ b, Condition.textHolds ctx item (" AND ".intercalate (cs.map Condition.text)) = .ok b ∧
      (b = true ↔ P item) := by
  cases cs with
  | nil => exact absurd rfl hne
  | cons c cs =>
      obtain ⟨Q, R, hc, hcs, heq⟩ := h.of_cons
      have hjoined := foldl_and hc hcs
      rw [← text_foldl_and (fun d hd => (hcs.1 d hd).1) c]
      obtain ⟨b, hb, hP⟩ := hjoined.textHolds item
      exact ⟨b, hb, hP.trans (heq item).symm⟩

end DecideAll

end Condition

end RecordStore
