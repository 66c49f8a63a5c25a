import RecordStore.Step

/-!
# How steps go on

A step that can fail either fails and leaves the state, or succeeds and hands its result and its state
to the step after it.

* `run_ofExcept_bind`, `run_replace_bind` — the two ways on after a result, and after a change;
* `LooksOnly` — a step that leaves the state; such steps can be put one after the other;
* `forget` — a step whose result does not matter.
-/

namespace RecordStore

namespace Step

variable {σ α β : Type}

/-- After a result that needs no state: a failure, or the step that follows. -/
theorem run_ofExcept_bind (r : Except Error α) (f : α → Step σ β) (s : σ) :
    (∃ fault, r = .error fault ∧ (ofExcept r >>= f).run s = (.error fault, s)) ∨
      ∃ a, r = .ok a ∧ (ofExcept r >>= f).run s = (f a).run s := by
  cases r with
  | error fault => exact .inl ⟨fault, rfl, rfl⟩
  | ok a => exact .inr ⟨a, rfl, rfl⟩

/-- After a change of the state: a failure that has changed nothing, or the step that follows. -/
theorem run_replace_bind (change : σ → Except Error σ) (f : Unit → Step σ β) (s : σ) :
    (∃ fault, change s = .error fault ∧ (replace change >>= f).run s = (.error fault, s)) ∨
      ∃ s', change s = .ok s' ∧ (replace change >>= f).run s = (f ()).run s' := by
  rw [run_bind, run, replace]
  cases change s with
  | error fault => exact .inl ⟨fault, rfl, rfl⟩
  | ok s' => exact .inr ⟨s', rfl, rfl⟩

/-- A step that leaves the state as it was, whatever it gives. -/
def LooksOnly (m : Step σ α) : Prop := ∀ s, (m.run s).2 = s

/-- A step that gives a value looks only. -/
theorem looksOnly_pure (a : α) : (pure a : Step σ α).LooksOnly := fun _ => rfl

/-- So does one that fails, -/
theorem looksOnly_fail (e : Error) : (fail e : Step σ α).LooksOnly := fun _ => rfl

/-- one that gives a result known before, -/
theorem looksOnly_ofExcept (r : Except Error α) : (ofExcept r : Step σ α).LooksOnly := fun _ => rfl

/-- and one that reads the state. -/
theorem looksOnly_inspect (f : σ → Except Error α) : (inspect f).LooksOnly := fun _ => rfl

/-- A sequence looks only if its steps do. -/
theorem LooksOnly.bind {m : Step σ α} {f : α → Step σ β} (hm : m.LooksOnly)
    (hf : ∀ a, (f a).LooksOnly) : (m >>= f).LooksOnly := by
  intro s
  rw [run_bind]
  rcases hrun : m.run s with ⟨result, s'⟩
  obtain rfl : s' = s := by rw [← hm s, hrun]
  cases result with
  | ok a => exact hf a s'
  | error fault => rfl

/-- A step whose result does not matter. -/
def forget (m : Step σ α) : Step σ Unit := do
  let _ ← m
  return ()

/-- Forgetting a result forgets nothing of the state. -/
theorem run_forget (m : Step σ α) (s : σ) :
    m.forget.run s = ((m.run s).1.map fun _ => (), (m.run s).2) := by
  rw [forget, run_bind]
  rcases m.run s with ⟨result, s'⟩
  cases result <;> rfl

end Step

end RecordStore
