import RecordStore.Expression.Operand

/-!
# Updates

An update is a list of actions, each of which sets one path to a new value: an operand, a sum or a
difference.  `Update.text` writes one as an expression and `Update.ofTokens` reads it back.

* `SetAction.length_lt_of_read` — reading an action uses up at least one token.
-/

namespace RecordStore

/-- What an action sets its path to. -/
inductive NewValue where
  | operand (operand : Operand)
  | sum (left right : Operand)
  | difference (left right : Operand)
deriving DecidableEq

/-- A new value as an expression. -/
def NewValue.text : NewValue → String
  | .operand o => o.text
  | .sum left right => left.text ++ " + " ++ right.text
  | .difference left right => left.text ++ " - " ++ right.text

/-- Sets one path. -/
structure SetAction where
  path : Path
  value : NewValue
deriving DecidableEq

namespace SetAction

/-- An action as an expression. -/
def text (a : SetAction) : String := a.path.text ++ " = " ++ a.value.text

/-- What follows the first operand of a new value. -/
def readValueAfter (left : Operand) :
    List Token → Except ExpressionFault (NewValue × List Token)
  | .plus :: rest => (Operand.read rest).map fun r => (.sum left r.1, r.2)
  | .minus :: rest => (Operand.read rest).map fun r => (.difference left r.1, r.2)
  | rest => .ok (.operand left, rest)

/-- An action at the front of a list of tokens, and the tokens after it. -/
def read (ts : List Token) : Except ExpressionFault (SetAction × List Token) := do
  let (path, rest) ← Path.read ts
  let rest ← Token.expect (.comparison .equal) rest
  let (left, rest) ← Operand.read rest
  let (value, rest) ← readValueAfter left rest
  return (⟨path, value⟩, rest)

theorem length_le_of_readValueAfter {left : Operand} {ts : List Token} {v : NewValue}
    {rest : List Token} (h : readValueAfter left ts = .ok (v, rest)) :
    rest.length ≤ ts.length := by
  have operand {f : Operand → NewValue} {ts : List Token}
      (h : (Operand.read ts).map (fun r => (f r.1, r.2)) = .ok (v, rest)) :
      rest.length < ts.length := by
    obtain ⟨⟨o, more⟩, hr, h⟩ := map_eq_ok h
    obtain ⟨_, rfl⟩ := Prod.mk.inj h
    exact Operand.length_lt_of_read hr
  unfold readValueAfter at h
  split at h
  · have := operand h
    simp only [List.length_cons]; omega
  · have := operand h
    simp only [List.length_cons]; omega
  · simp only [Except.ok.injEq, Prod.mk.injEq] at h
    obtain ⟨_, rfl⟩ := h
    exact Nat.le_refl _

/-- Reading an action uses up at least one token. -/
theorem length_lt_of_read {ts : List Token} {a : SetAction} {rest : List Token}
    (h : read ts = .ok (a, rest)) : rest.length < ts.length := by
  unfold read at h
  cases hp : Path.read ts with
  | error e => simp [hp, bind, Except.bind] at h
  | ok r =>
    obtain ⟨p, r1⟩ := r
    cases he : Token.expect (.comparison .equal) r1 with
    | error e => simp [hp, he, bind, Except.bind] at h
    | ok r2 =>
      cases ho : Operand.read r2 with
      | error e => simp [hp, he, ho, bind, Except.bind] at h
      | ok r =>
        obtain ⟨o, r3⟩ := r
        cases hv : readValueAfter o r3 with
        | error e => simp [hp, he, ho, hv, bind, Except.bind] at h
        | ok r =>
          obtain ⟨v, r4⟩ := r
          simp only [hp, he, ho, hv, bind, Except.bind, pure, Except.pure, Except.ok.injEq,
            Prod.mk.injEq] at h
          obtain ⟨_, rfl⟩ := h
          have := Path.length_lt_of_read hp
          have := Operand.length_lt_of_read ho
          have := length_le_of_readValueAfter hv
          rw [Token.expect_eq_ok_iff] at he
          subst he
          simp only [List.length_cons] at *
          omega

end SetAction

/-- Actions that are carried out one after the other. -/
abbrev Update := List SetAction

namespace Update

/-- An update as an expression. -/
def text (u : Update) : String := "set " ++ ", ".intercalate (u.map SetAction.text)

/-- Actions with commas between them, up to the end of the tokens. -/
def readActions (ts : List Token) : Except ExpressionFault Update :=
  match h : SetAction.read ts with
  | .error e => .error e
  | .ok (a, []) => .ok [a]
  | .ok (a, .comma :: rest) =>
    have : rest.length < ts.length :=
      Nat.lt_trans (Nat.lt_succ_self _) (SetAction.length_lt_of_read h)
    (readActions rest).map (a :: ·)
  | .ok (_, t :: _) => .error (.trailing t)
termination_by ts.length

/-- The update that a whole list of tokens spells. -/
def ofTokens (ts : List Token) : Except ExpressionFault Update := do
  let rest ← Token.expect .set ts
  readActions rest

/-- The update that a text spells. -/
def ofText (text : String) : Except ExpressionFault Update := do
  let tokens ← Token.scan text
  ofTokens tokens

end Update

end RecordStore
