import RecordStore.Error

/-!
# Steps

A step works on a state and can fail.  It leaves a state in either case, so what was done before a
failure stays done.

* `run_bind` — a step after another one starts from the state that the first one left, and a failure
  ends both;
* `runAll_preserves` — what each of several steps keeps, all of them keep.
-/

namespace RecordStore

/-- Something done on a state: it gives a value or fails, and leaves a state. -/
def Step (σ α : Type) : Type := σ → Except Error α × σ

namespace Step

variable {σ α β : Type}

/-- Carries out a step on a state. -/
def run (m : Step σ α) (s : σ) : Except Error α × σ := m s

/-- Fails and changes nothing. -/
def fail (e : Error) : Step σ α := fun s => (.error e, s)

/-- Gives a result that needs no state. -/
def ofExcept (r : Except Error α) : Step σ α := fun s => (r, s)

/-- Looks at the state. -/
def inspect (f : σ → Except Error α) : Step σ α := fun s => (f s, s)

/-- Replaces the state, or fails and leaves it. -/
def replace (f : σ → Except Error σ) : Step σ Unit := fun s =>
  match f s with
  | .ok s' => (.ok (), s')
  | .error e => (.error e, s)

/-- Goes on with a second step unless the first one failed. -/
def andThen (m : Step σ α) (f : α → Step σ β) : Step σ β := fun s =>
  match m s with
  | (.ok a, s') => f a s'
  | (.error e, s') => (.error e, s')

instance : Monad (Step σ) where
  pure a := fun s => (.ok a, s)
  bind := andThen

@[simp] theorem run_pure (a : α) (s : σ) : (pure a : Step σ α).run s = (.ok a, s) := rfl

@[simp] theorem run_fail (e : Error) (s : σ) : (fail e : Step σ α).run s = (.error e, s) := rfl

@[simp] theorem run_ofExcept (r : Except Error α) (s : σ) :
    (ofExcept r : Step σ α).run s = (r, s) := rfl

@[simp] theorem run_inspect (f : σ → Except Error α) (s : σ) :
    (inspect f).run s = (f s, s) := rfl

/-- A step after another one starts from the state that the first one left. -/
theorem run_bind (m : Step σ α) (f : α → Step σ β) (s : σ) :
    (m >>= f).run s =
      match m.run s with
      | (.ok a, s') => (f a).run s'
      | (.error e, s') => (.error e, s') := rfl

/-- Carries out a step for each member of a list, whether the steps before have failed or not; gives
what each step gave. -/
def runAll {ι : Type} (f : ι → Step σ α) : List ι → σ → List (Except Error α) × σ
  | [], s => ([], s)
  | i :: rest, s =>
    let (result, s') := (f i).run s
    let (results, last) := runAll f rest s'
    (result :: results, last)

/-- What each step keeps, all of them keep. -/
theorem runAll_preserves {ι : Type} {f : ι → Step σ α} {P : σ → Prop}
    (hstep : ∀ i s, P s → P ((f i).run s).2) (is : List ι) {s : σ} (hs : P s) :
    P (runAll f is s).2 := by
  induction is generalizing s with
  | nil => exact hs
  | cons i rest ih => exact ih (hstep i s hs)

instance : LawfulMonad (Step σ) := LawfulMonad.mk' (Step σ)
  (fun m => by
    funext s
    change (andThen m fun a => pure (id a)) s = m s
    unfold andThen
    rcases m s with ⟨r, s'⟩
    cases r <;> rfl)
  (fun _ _ => rfl)
  (fun m f g => by
    funext s
    change andThen (andThen m f) g s = andThen m (fun a => andThen (f a) g) s
    unfold andThen
    rcases m s with ⟨r, s'⟩
    cases r <;> rfl)

end Step

end RecordStore
