import Mathlib.Data.Fintype.Card
import RecordStore.Proofs.Repository.Operations

/-!
# Clients that change records at the same time

A change is two steps of the store: the update, and the reading of the record after it.  Each of them is
carried out at once, but between them the store may carry out steps of other changes.  So what several
clients do together is told by a schedule: the attempts of all clients, in the order in which it is their
turn.

A client that waits for an answer before it goes on is a special case: its attempts come one after the
other in the schedule, and they are those that it came to make after what it had read.  So is one that
never comes to read its record.

* `Repository.change_eq_submit_read` — the two steps of a change;
* `Repository.advance`, `Repository.serve` — one turn, and a schedule;
* `Repository.advance_advance` — an attempt that is alone with the store does what the change does;
* `Repository.turn` — all that one turn can do;
* `Clients.writers` — the attempts whose updates were carried out.
-/

namespace RecordStore

/-- A change that a client attempts, and when it does. -/
structure Attempt where
  now : Int
  change : Change

/-- How far an attempt has come. -/
inductive Progress where
  /-- Its update is still to come. -/
  | waiting
  /-- It has failed without an update. -/
  | refused (fault : Error)
  /-- Its update was carried out, and the record is still to be read. -/
  | applied
  /-- Its update was carried out, and this is what the reading gave. -/
  | answered (answer : Except Error (Option Entity))

namespace Progress

/-- What the client gets, once the attempt has ended. -/
def result? : Progress → Option (Except Error (Option Entity))
  | .waiting | .applied => none
  | .refused fault => some (.error fault)
  | .answered answer => some answer

/-- Whether the update of an attempt was carried out. -/
def hasWritten : Progress → Bool
  | .applied | .answered _ => true
  | .waiting | .refused _ => false

end Progress

/-- A store, and how far each of some attempts on it has come. -/
structure Clients (σ ι : Type) where
  store : σ
  progress : ι → Progress

namespace Clients

variable {σ ι : Type}

/-- All attempts are still to come. -/
def begin (s : σ) : Clients σ ι := ⟨s, fun _ => .waiting⟩

/-- The attempts whose updates were carried out. -/
def writers [Fintype ι] (clients : Clients σ ι) : Finset ι :=
  Finset.univ.filter fun i => (clients.progress i).hasWritten

/-- The writers are the clients that have written. -/
theorem mem_writers [Fintype ι] {clients : Clients σ ι} {i : ι} :
    i ∈ clients.writers ↔ (clients.progress i).hasWritten = true := by
  simp [writers]

/-- At the beginning no client has written. -/
theorem writers_begin [Fintype ι] (s : σ) : (begin s : Clients σ ι).writers = ∅ :=
  Finset.filter_eq_empty_iff.mpr fun _ _ => Bool.false_ne_true

variable [DecidableEq ι]

/-- An attempt has come so far, and has left the store so. -/
def goOn (clients : Clients σ ι) (i : ι) (p : Progress) (s : σ) : Clients σ ι :=
  ⟨s, Function.update clients.progress i p⟩

variable {clients : Clients σ ι} {i j : ι} {p : Progress} {s : σ}

@[simp] theorem store_goOn : (clients.goOn i p s).store = s := rfl

@[simp] theorem progress_goOn_self : (clients.goOn i p s).progress i = p := by
  simp [goOn]

/-- The others are where they were. -/
theorem progress_goOn_of_ne (h : j ≠ i) : (clients.goOn i p s).progress j = clients.progress j := by
  simp [goOn, h]

/-- An attempt that goes on without an update leaves the writers. -/
theorem writers_goOn [Fintype ι] (h : p.hasWritten = (clients.progress i).hasWritten) :
    (clients.goOn i p s).writers = clients.writers := by
  ext j
  rw [mem_writers, mem_writers]
  by_cases hj : j = i
  · rw [hj, progress_goOn_self, h]
  · rw [progress_goOn_of_ne hj]

/-- An attempt whose update is carried out joins the writers. -/
theorem writers_goOn_applied [Fintype ι] :
    (clients.goOn i .applied s).writers = insert i clients.writers := by
  ext j
  rw [Finset.mem_insert, mem_writers, mem_writers]
  by_cases hj : j = i
  · rw [hj, progress_goOn_self]
    simp [Progress.hasWritten]
  · simp [progress_goOn_of_ne hj, hj]

end Clients

namespace Repository

variable {σ ι : Type}

/-- The first step of a change: the update. -/
def submit (r : Repository σ) (now : Int) (c : Change) : Step σ Unit := do
  let request ← Step.ofExcept (c.request r.config.table now)
  r.store.update request

/-- The two steps of a change. -/
theorem change_eq_submit_read (r : Repository σ) (now : Int) (c : Change) :
    r.change now c = (do
      r.submit now c
      r.read c.key) := by
  rw [change, submit, bind_assoc]

section Schedules

variable [DecidableEq ι]

/-- One turn of an attempt: its update, or then the reading of its record. -/
def advance (r : Repository σ) (attempts : ι → Attempt) (clients : Clients σ ι) (i : ι) :
    Clients σ ι :=
  match clients.progress i with
  | .waiting =>
    match (r.submit (attempts i).now (attempts i).change).run clients.store with
    | (.ok _, s) => clients.goOn i .applied s
    | (.error fault, s) => clients.goOn i (.refused fault) s
  | .applied =>
    let (answer, s) := (r.read (attempts i).change.key).run clients.store
    clients.goOn i (.answered answer) s
  | .refused _ | .answered _ => clients

/-- The turns of a schedule. -/
def serve (r : Repository σ) (attempts : ι → Attempt) (schedule : List ι) (clients : Clients σ ι) :
    Clients σ ι :=
  schedule.foldl (r.advance attempts) clients

variable {r : Repository σ} {attempts : ι → Attempt} {clients : Clients σ ι} {i : ι}

/-- What each turn keeps, a schedule keeps. -/
theorem serve_preserves {P : Clients σ ι → Prop}
    (hturn : ∀ clients i, P clients → P (r.advance attempts clients i)) (schedule : List ι)
    (h : P clients) : P (r.serve attempts schedule clients) := by
  induction schedule generalizing clients with
  | nil => exact h
  | cons i rest ih => exact ih (hturn clients i h)

/-- A client that waits submits its change. -/
theorem advance_waiting (h : clients.progress i = .waiting) : r.advance attempts clients i =
    match (r.submit (attempts i).now (attempts i).change).run clients.store with
    | (.ok _, s) => clients.goOn i .applied s
    | (.error fault, s) => clients.goOn i (.refused fault) s := by
  rw [advance, h]

/-- One whose change is applied reads the record again. -/
theorem advance_applied (h : clients.progress i = .applied) : r.advance attempts clients i =
    clients.goOn i (.answered ((r.read (attempts i).change.key).run clients.store).1)
      ((r.read (attempts i).change.key).run clients.store).2 := by
  rw [advance, h]

/-- One that has a result does nothing more. -/
theorem advance_ended (h : (clients.progress i).result?.isSome) :
    r.advance attempts clients i = clients := by
  rw [advance]
  cases hprogress : clients.progress i <;> simp_all [Progress.result?]

/-- **An attempt that is alone with the store does what the change does.**  After two turns it has the
result of the change, and the store is as the change leaves it. -/
theorem advance_advance (h : clients.progress i = .waiting) :
    let after := r.advance attempts (r.advance attempts clients i) i
    let run := (r.change (attempts i).now (attempts i).change).run clients.store
    (after.progress i).result? = some run.1 ∧ after.store = run.2 := by
  simp only [change_eq_submit_read, Step.run_bind, advance_waiting h]
  rcases (r.submit (attempts i).now (attempts i).change).run clients.store with ⟨result, s⟩
  cases result with
  | error fault =>
      have hended : (((clients.goOn i (.refused fault) s).progress i).result?).isSome := by
        rw [Clients.progress_goOn_self]
        rfl
      dsimp only
      rw [advance_ended hended, Clients.progress_goOn_self]
      exact ⟨rfl, rfl⟩
  | ok done =>
      dsimp only
      rw [advance_applied Clients.progress_goOn_self, Clients.progress_goOn_self]
      exact ⟨rfl, rfl⟩

end Schedules

section Memory

/-- A change that is compiled is submitted to the store. -/
theorem run_submit {config : Config} {now : Int} {c : Change} {e : Expressions} {s : MemoryStore}
    (he : c.expressions now = .ok e) : ((inMemory config).submit now c).run s =
      (MemoryStore.store.update ⟨config.table, c.key, e⟩).run s := by
  rw [submit, Change.request, he]
  rfl

/-- The update of a change fails and leaves the store, or it is carried out. -/
theorem submit_cases (config : Config) (now : Int) (c : Change) (s : MemoryStore) :
    (∃ fault, ((inMemory config).submit now c).run s = (.error fault, s)) ∨
      ∃ e s', c.expressions now = .ok e ∧ s.update ⟨config.table, c.key, e⟩ = .ok s' ∧
        ((inMemory config).submit now c).run s = (.ok (), s') := by
  cases he : c.expressions now with
  | error fault =>
      refine .inl ⟨fault, ?_⟩
      rw [submit, Change.request, he]
      rfl
  | ok e =>
      rw [run_submit he]
      cases hupdate : s.update ⟨config.table, c.key, e⟩ with
      | error fault => exact .inl ⟨fault, MemoryStore.run_store_update_error hupdate⟩
      | ok s' => exact .inr ⟨e, s', rfl, hupdate, MemoryStore.run_store_update_ok hupdate⟩

variable [DecidableEq ι]

/-- What an attempt can do in one turn: fail and leave the store, or carry out its update, or read its
record, or nothing because it has ended. -/
inductive Turn (config : Config) (attempts : ι → Attempt) (clients : Clients MemoryStore ι) (i : ι) :
    Clients MemoryStore ι → Prop where
  | refuses (hwaiting : clients.progress i = .waiting) (fault : Error) :
      Turn config attempts clients i (clients.goOn i (.refused fault) clients.store)
  | applies {e : Expressions} {s' : MemoryStore} (hwaiting : clients.progress i = .waiting)
      (he : (attempts i).change.expressions (attempts i).now = .ok e)
      (hupdate : clients.store.update ⟨config.table, (attempts i).change.key, e⟩ = .ok s') :
      Turn config attempts clients i (clients.goOn i .applied s')
  | answers (happlied : clients.progress i = .applied) :
      Turn config attempts clients i (clients.goOn i
        (.answered (((inMemory config).read (attempts i).change.key).run clients.store).1)
        clients.store)
  | rests (hended : (clients.progress i).result?.isSome) : Turn config attempts clients i clients

/-- **What one turn does.** -/
theorem turn (config : Config) (attempts : ι → Attempt) (clients : Clients MemoryStore ι) (i : ι) :
    Turn config attempts clients i ((inMemory config).advance attempts clients i) := by
  cases hprogress : clients.progress i with
  | waiting =>
      rw [advance_waiting hprogress]
      obtain ⟨fault, hrun⟩ | ⟨e, s', he, hupdate, hrun⟩ :=
        submit_cases config (attempts i).now (attempts i).change clients.store
      · rw [hrun]
        exact .refuses hprogress fault
      · rw [hrun]
        exact .applies hprogress he hupdate
  | applied =>
      rw [advance_applied hprogress, looksOnly_read]
      exact .answers hprogress
  | refused fault =>
      have hended : (clients.progress i).result?.isSome := by rw [hprogress]; rfl
      rw [advance_ended hended]
      exact .rests hended
  | answered answer =>
      have hended : (clients.progress i).result?.isSome := by rw [hprogress]; rfl
      rw [advance_ended hended]
      exact .rests hended

end Memory

end Repository

end RecordStore
