import RecordStore.Expression.Scan

/-!
# Paths and operands

A path leads to an attribute of a record: names with dots between them, each an alias or the name
itself.  An operand is a path or a placeholder of a value.  Reading one from a list of tokens gives
back the tokens after it.

* `Path.length_lt_of_read`, `Operand.length_lt_of_read` — reading uses up at least one token.
-/

namespace RecordStore

/-- The segments of an attribute path, each an alias or a plain name. -/
abbrev Path := List String

/-- One side of a comparison or assignment. -/
inductive Operand where
  | path (path : Path)
  /-- The value of a placeholder. -/
  | value (label : String)
deriving DecidableEq

/-- What a mapped answer was before. -/
theorem map_eq_ok {ε α β : Type} {x : Except ε α} {f : α → β} {b : β} (h : x.map f = .ok b) :
    ∃ a, x = .ok a ∧ f a = b := by
  cases x with
  | error e => cases h
  | ok a => exact ⟨a, rfl, Except.ok.inj h⟩

namespace Token

/-- Goes past one wanted token. -/
def expect (wanted : Token) : List Token → Except ExpressionFault (List Token)
  | [] => .error (.expected wanted none)
  | t :: rest => if t = wanted then .ok rest else .error (.expected wanted (some t))

/-- What expecting a token leaves is what follows that token. -/
theorem expect_eq_ok_iff {wanted : Token} {ts rest : List Token} :
    expect wanted ts = .ok rest ↔ ts = wanted :: rest := by
  cases ts with
  | nil => simp [expect]
  | cons t ts =>
    by_cases h : t = wanted <;> simp [expect, h]

/-- Demands that no token is left. -/
def expectEnd : List Token → Except ExpressionFault Unit
  | [] => .ok ()
  | t :: _ => .error (.trailing t)

end Token

namespace Path

/-- The segments that follow, each after a dot. -/
def readMore : List Token → Except ExpressionFault (Path × List Token)
  | .dot :: .identifier s :: rest => (readMore rest).map fun r => (s :: r.1, r.2)
  | .dot :: .name s :: rest => (readMore rest).map fun r => (s :: r.1, r.2)
  | .dot :: rest => .error (.expectedPath rest.head?)
  | rest => .ok ([], rest)

/-- A path at the front of a list of tokens, and the tokens after it. -/
def read : List Token → Except ExpressionFault (Path × List Token)
  | .identifier s :: rest => (readMore rest).map fun r => (s :: r.1, r.2)
  | .name s :: rest => (readMore rest).map fun r => (s :: r.1, r.2)
  | rest => .error (.expectedPath rest.head?)

/-- A path with dots between its segments. -/
def text (path : Path) : String := ".".intercalate path

theorem length_le_of_readMore {ts : List Token} {p : Path} {rest : List Token}
    (h : readMore ts = .ok (p, rest)) : rest.length ≤ ts.length := by
  fun_induction readMore ts generalizing p with
  | case1 s ts ih =>
    obtain ⟨⟨q, more⟩, hr, h⟩ := map_eq_ok h
    obtain ⟨_, rfl⟩ : s :: q = p ∧ more = rest := Prod.mk.inj h
    have := ih hr
    simp only [List.length_cons]; omega
  | case2 s ts ih =>
    obtain ⟨⟨q, more⟩, hr, h⟩ := map_eq_ok h
    obtain ⟨_, rfl⟩ : s :: q = p ∧ more = rest := Prod.mk.inj h
    have := ih hr
    simp only [List.length_cons]; omega
  | case3 => simp at h
  | case4 =>
    simp only [Except.ok.injEq, Prod.mk.injEq] at h
    obtain ⟨_, rfl⟩ := h
    exact Nat.le_refl _

/-- Reading a path uses up at least one token. -/
theorem length_lt_of_read {ts : List Token} {p : Path} {rest : List Token}
    (h : read ts = .ok (p, rest)) : rest.length < ts.length := by
  have step {s : String} {ts : List Token}
      (h : (readMore ts).map (fun r => (s :: r.1, r.2)) = .ok (p, rest)) :
      rest.length ≤ ts.length := by
    obtain ⟨⟨q, more⟩, hr, h⟩ := map_eq_ok h
    obtain ⟨_, rfl⟩ := Prod.mk.inj h
    exact length_le_of_readMore hr
  fun_cases read ts with
  | case1 s ts => simp only [List.length_cons]; have := step h; omega
  | case2 s ts => simp only [List.length_cons]; have := step h; omega
  | case3 => simp_all [read]

end Path

namespace Operand

/-- An operand at the front of a list of tokens, and the tokens after it. -/
def read : List Token → Except ExpressionFault (Operand × List Token)
  | .value label :: rest => .ok (.value label, rest)
  | ts => (Path.read ts).map fun r => (.path r.1, r.2)

/-- An operand in an expression. -/
def text : Operand → String
  | .path p => p.text
  | .value label => label

/-- Reading an operand uses up at least one token. -/
theorem length_lt_of_read {ts : List Token} {o : Operand} {rest : List Token}
    (h : read ts = .ok (o, rest)) : rest.length < ts.length := by
  unfold read at h
  split at h
  · simp only [Except.ok.injEq, Prod.mk.injEq] at h
    obtain ⟨_, rfl⟩ := h
    simp
  · obtain ⟨⟨p, more⟩, hp, h⟩ := map_eq_ok h
    obtain ⟨_, rfl⟩ := Prod.mk.inj h
    exact Path.length_lt_of_read hp

end Operand

end RecordStore
