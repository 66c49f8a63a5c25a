import RecordStore.Expression.ConditionHolding
import RecordStore.Expression.UpdateApplying
import RecordStore.Fields

/-!
# What fields say of a record

The reading of a set of fields that makes no use of expressions.  As a test, a field holds of a record
if the attribute with exactly its name is there and its descriptor admits the value.  As an
assignment, it makes something of that attribute, whatever the other fields say.

* `Descriptor.Admits`, `Fields.Hold` — fields as a test;
* `Descriptor.CanAssign`, `Descriptor.assigned`, `Fields.assigned` — fields as an assignment;
* `Value.beginsWith_iff` — beginning with a value, as a prefix.
-/

namespace RecordStore

namespace Value

/-- A text is a prefix of a text, or a run of bytes of a run of bytes. -/
def IsPrefix : Value → Value → Prop
  | .string p, .string s => p.toList <+: s.toList
  | .bytes p, .bytes s => p <+: s
  | _, _ => False

/-- Beginning is decided as it is meant: texts with texts, and bytes with bytes. -/
theorem beginsWith_iff (v p : Value) : v.beginsWith p = true ↔ p.IsPrefix v := by
  cases v <;> cases p <;> simp [beginsWith, IsPrefix]

instance (p v : Value) : Decidable (p.IsPrefix v) := decidable_of_iff _ (beginsWith_iff v p)

/-- Only a map has entries. -/
theorem entries?_eq_some_iff {v : Value} {m : Dict Value} : v.entries? = some m ↔ v = .map m := by
  cases v <;> simp [entries?]

end Value

/-- Whether there is a value with a property. -/
instance decidableExistsSome {α : Type} (o : Option α) (P : α → Prop) [DecidablePred P] :
    Decidable (∃ a, o = some a ∧ P a) :=
  match o with
  | none => .isFalse (by simp)
  | some a => decidable_of_iff (P a) (by simp)

namespace Descriptor

/-- The values that a descriptor admits. -/
def Admits : Descriptor → Value → Prop
  | .equals w, v | .increment w, v => v.same w
  | .lessThan w, v => v.order w = some .lt
  | .lessOrEqual w, v => v.order w = some .lt ∨ v.order w = some .eq
  | .greaterOrEqual w, v => v.order w = some .gt ∨ v.order w = some .eq
  | .beginsWith w, v => w.IsPrefix v
  | .between low high, v =>
    (v.order low = some .gt ∨ v.order low = some .eq) ∧
      (v.order high = some .lt ∨ v.order high = some .eq)
  | .either first second, v => v.same first ∨ v.same second
  | .nested entries, v =>
    ∃ m, v = .map m ∧ ∀ e ∈ entries.entries, ∃ w, m.get? e.1 = some w ∧ w.same e.2

instance (d : Descriptor) (v : Value) : Decidable (d.Admits v) :=
  match d with
  | .equals w | .increment w => inferInstanceAs (Decidable (v.same w))
  | .lessThan w => inferInstanceAs (Decidable (v.order w = some .lt))
  | .lessOrEqual w => inferInstanceAs (Decidable (v.order w = some .lt ∨ v.order w = some .eq))
  | .greaterOrEqual w => inferInstanceAs (Decidable (v.order w = some .gt ∨ v.order w = some .eq))
  | .beginsWith w => inferInstanceAs (Decidable (w.IsPrefix v))
  | .between low high =>
    inferInstanceAs (Decidable ((v.order low = some .gt ∨ v.order low = some .eq) ∧
      (v.order high = some .lt ∨ v.order high = some .eq)))
  | .either first second => inferInstanceAs (Decidable (v.same first ∨ v.same second))
  | .nested entries =>
    decidable_of_iff (∃ m, v.entries? = some m ∧
        ∀ e ∈ entries.entries, ∃ w, m.get? e.1 = some w ∧ w.same e.2)
      (by simp only [Value.entries?_eq_some_iff, Admits])

/-- A descriptor of a map lists an entry of it. -/
def IsProper : Descriptor → Prop
  | .nested entries => entries.entries ≠ []
  | _ => True

instance (d : Descriptor) : Decidable d.IsProper :=
  match d with
  | .nested entries => inferInstanceAs (Decidable (entries.entries ≠ []))
  | .equals _ | .lessThan _ | .lessOrEqual _ | .greaterOrEqual _ | .beginsWith _ | .between _ _
  | .either _ _ | .increment _ => .isTrue trivial

/-- The descriptors that say what becomes of an attribute. -/
def IsAssignable : Descriptor → Prop
  | .equals _ | .increment _ | .nested _ => True
  | _ => False

instance (d : Descriptor) : Decidable d.IsAssignable :=
  match d with
  | .equals _ | .increment _ | .nested _ => .isTrue trivial
  | .lessThan _ | .lessOrEqual _ | .greaterOrEqual _ | .beginsWith _ | .between _ _
  | .either _ _ => .isFalse id

/-- An attribute that may be absent can be assigned to: it is a number if it is to grow, by a number,
and a map if entries of it are to be set. -/
def CanAssign : Descriptor → Option Value → Prop
  | .increment delta, old =>
    (∃ v, old = some v ∧ v.toBinary64?.isSome) ∧ delta.toBinary64?.isSome
  | .nested entries, old => entries.entries ≠ [] → ∃ m, old = some (.map m)
  | _, _ => True

instance (d : Descriptor) (old : Option Value) : Decidable (d.CanAssign old) :=
  match d with
  | .increment delta =>
    inferInstanceAs (Decidable ((∃ v, old = some v ∧ v.toBinary64?.isSome) ∧ delta.toBinary64?.isSome))
  | .nested entries =>
    decidable_of_iff (entries.entries ≠ [] → (old.bind Value.entries?).isSome)
      (by simp only [Option.isSome_iff_exists, Option.bind_eq_some_iff, Value.entries?_eq_some_iff,
        CanAssign, exists_eq_right])
  | .equals _ | .lessThan _ | .lessOrEqual _ | .greaterOrEqual _ | .beginsWith _ | .between _ _
  | .either _ _ => .isTrue trivial

/-- What becomes of an attribute that can be assigned to. -/
def assigned : Descriptor → Option Value → Option Value
  | .equals v, _ => some v
  | .increment delta, old =>
    match old.bind Value.toBinary64?, delta.toBinary64? with
    | some x, some y => some (.ofComputed (x.add y))
    | _, _ => old
  | .nested entries, some (.map m) => some (.map (m.union entries.toDict))
  | _, old => old

/-- A descriptor that has an assignment is assignable, and no other is. -/
theorem isAssignable_iff (d : Descriptor) : d.IsAssignable ↔ d.assignment?.isSome := by
  cases d <;> simp [IsAssignable, assignment?]

end Descriptor

namespace Fields

/-- What the fields say is so: each attribute is there and has a value that its descriptor admits. -/
def Hold (fields : Fields) (item : Item) : Prop :=
  ∀ e ∈ fields.entries, ∃ v, item.get? e.1 = some v ∧ e.2.Admits v

instance (fields : Fields) (item : Item) : Decidable (fields.Hold item) :=
  inferInstanceAs (Decidable (∀ e ∈ fields.entries, ∃ v, item.get? e.1 = some v ∧ e.2.Admits v))

/-- What an attribute becomes when the fields are assigned, all at once. -/
def assigned (fields : Fields) (item : Item) (name : String) : Option Value :=
  match fields.get? name with
  | some d => d.assigned (item.get? name)
  | none => item.get? name

/-- No descriptor of a map is without entries. -/
def IsProper (fields : Fields) : Prop := ∀ e ∈ fields.entries, e.2.IsProper

instance (fields : Fields) : Decidable fields.IsProper :=
  inferInstanceAs (Decidable (∀ e ∈ fields.entries, e.2.IsProper))

end Fields

end RecordStore
