import RecordStore.Expression.Condition

/-!
# Reading conditions

A condition is read from tokens by descent through the levels of binding: alternatives, conjunctions,
negations, and at the bottom a group in parentheses, a function or a comparison.  Each step gives back
the tokens that it has not used, with the fact that they are fewer, and that is why reading ends.
-/

namespace RecordStore

/-- Tokens that are fewer than those of a list. -/
abbrev Token.Fewer (ts : List Token) := { rest : List Token // rest.length < ts.length }

/-- Tokens that are no more than those of a list. -/
abbrev Token.NoMore (ts : List Token) := { rest : List Token // rest.length ≤ ts.length }

namespace Condition

/-- The arguments of a function, up to and including the closing parenthesis; function names may be in
any letter case. -/
def readCall (function : String) (ts : List Token) :
    Except ExpressionFault (Condition × List Token) :=
  match String.ofList (function.toList.map Char.toLower) with
  | "attribute_exists" => do
    let (path, rest) ← Path.read ts
    let rest ← Token.expect .rightParen rest
    return (.present path, rest)
  | "attribute_not_exists" => do
    let (path, rest) ← Path.read ts
    let rest ← Token.expect .rightParen rest
    return (.absent path, rest)
  | "begins_with" => do
    let (subject, rest) ← Operand.read ts
    let rest ← Token.expect .comma rest
    let (beginning, rest) ← Operand.read rest
    let rest ← Token.expect .rightParen rest
    return (.beginsWith subject beginning, rest)
  | name => .error (.unknownFunction name)

/-- What follows the first operand of a comparison. -/
def readComparisonAfter (left : Operand) :
    List Token → Except ExpressionFault (Condition × List Token)
  | .comparison op :: rest => do
    let (right, rest) ← Operand.read rest
    return (.compare op left right, rest)
  | .between :: rest => do
    let (low, rest) ← Operand.read rest
    let rest ← Token.expect .and rest
    let (high, rest) ← Operand.read rest
    return (.between left low high, rest)
  | rest => .error (.expectedComparison rest.head?)

/-- A function or a comparison; an identifier right before a parenthesis names a function. -/
def readSimple : List Token → Except ExpressionFault (Condition × List Token)
  | .identifier function :: .leftParen :: rest => readCall function rest
  | ts => do
    let (left, rest) ← Operand.read ts
    readComparisonAfter left rest

/-- An expected token is taken away. -/
theorem length_lt_of_expect {wanted : Token} {ts rest : List Token}
    (h : Token.expect wanted ts = .ok rest) : rest.length < ts.length := by
  rw [Token.expect_eq_ok_iff] at h
  simp [h]

/-- What a sequence that succeeds went through. -/
theorem bind_eq_ok {ε α β : Type} {x : Except ε α} {f : α → Except ε β} {b : β}
    (h : x >>= f = .ok b) : ∃ a, x = .ok a ∧ f a = .ok b := by
  cases x with
  | error e => simp [bind, Except.bind] at h
  | ok a => exact ⟨a, rfl, h⟩

/-- A call takes its tokens away. -/
theorem length_lt_of_readCall {function : String} {ts : List Token} {c : Condition}
    {rest : List Token} (h : readCall function ts = .ok (c, rest)) : rest.length < ts.length := by
  unfold readCall at h
  split at h
  · obtain ⟨⟨p, r⟩, hp, h⟩ := bind_eq_ok h
    obtain ⟨q, hq, h⟩ := bind_eq_ok h
    simp only [pure, Except.pure, Except.ok.injEq, Prod.mk.injEq] at h
    obtain ⟨_, rfl⟩ := h
    have := Path.length_lt_of_read hp
    have := length_lt_of_expect hq
    omega
  · obtain ⟨⟨p, r⟩, hp, h⟩ := bind_eq_ok h
    obtain ⟨q, hq, h⟩ := bind_eq_ok h
    simp only [pure, Except.pure, Except.ok.injEq, Prod.mk.injEq] at h
    obtain ⟨_, rfl⟩ := h
    have := Path.length_lt_of_read hp
    have := length_lt_of_expect hq
    omega
  · obtain ⟨⟨o, r⟩, ho, h⟩ := bind_eq_ok h
    obtain ⟨q, hq, h⟩ := bind_eq_ok h
    obtain ⟨⟨o', r'⟩, ho', h⟩ := bind_eq_ok h
    obtain ⟨q', hq', h⟩ := bind_eq_ok h
    simp only [pure, Except.pure, Except.ok.injEq, Prod.mk.injEq] at h
    obtain ⟨_, rfl⟩ := h
    have := Operand.length_lt_of_read ho
    have := length_lt_of_expect hq
    have := Operand.length_lt_of_read ho'
    have := length_lt_of_expect hq'
    omega
  · simp at h

/-- So does a comparison. -/
theorem length_lt_of_readComparisonAfter {left : Operand} {ts : List Token} {c : Condition}
    {rest : List Token} (h : readComparisonAfter left ts = .ok (c, rest)) :
    rest.length < ts.length := by
  unfold readComparisonAfter at h
  split at h
  · obtain ⟨⟨o, r⟩, ho, h⟩ := bind_eq_ok h
    simp only [pure, Except.pure, Except.ok.injEq, Prod.mk.injEq] at h
    obtain ⟨_, rfl⟩ := h
    have := Operand.length_lt_of_read ho
    simp only [List.length_cons]; omega
  · obtain ⟨⟨o, r⟩, ho, h⟩ := bind_eq_ok h
    obtain ⟨q, hq, h⟩ := bind_eq_ok h
    obtain ⟨⟨o', r'⟩, ho', h⟩ := bind_eq_ok h
    simp only [pure, Except.pure, Except.ok.injEq, Prod.mk.injEq] at h
    obtain ⟨_, rfl⟩ := h
    have := Operand.length_lt_of_read ho
    have := length_lt_of_expect hq
    have := Operand.length_lt_of_read ho'
    simp only [List.length_cons]; omega
  · simp at h

/-- A function or a comparison uses up at least one token. -/
theorem length_lt_of_readSimple {ts : List Token} {c : Condition} {rest : List Token}
    (h : readSimple ts = .ok (c, rest)) : rest.length < ts.length := by
  unfold readSimple at h
  split at h
  · have := length_lt_of_readCall h
    simp only [List.length_cons]; omega
  · obtain ⟨⟨o, r⟩, ho, h⟩ := bind_eq_ok h
    have := Operand.length_lt_of_read ho
    have := length_lt_of_readComparisonAfter h
    omega

mutual

/-- Alternatives: conjunctions with `OR` between them. -/
def readOr (ts : List Token) : Except ExpressionFault (Condition × Token.Fewer ts) :=
  match readAnd ts with
  | .error e => .error e
  | .ok (left, ⟨rest, h⟩) =>
    match readOrMore left rest with
    | .error e => .error e
    | .ok (c, ⟨last, h'⟩) => .ok (c, ⟨last, Nat.lt_of_le_of_lt h' h⟩)
termination_by (ts.length, 4)

/-- The further alternatives after some that are read. -/
def readOrMore (left : Condition) (ts : List Token) :
    Except ExpressionFault (Condition × Token.NoMore ts) :=
  match ts with
  | .or :: rest =>
    match readAnd rest with
    | .error e => .error e
    | .ok (right, ⟨more, h⟩) =>
      match readOrMore (.or left right) more with
      | .error e => .error e
      | .ok (c, ⟨last, h'⟩) =>
        .ok (c, ⟨last, Nat.le_trans h' (Nat.le_of_lt (Nat.lt_succ_of_lt h))⟩)
  | ts => .ok (left, ⟨ts, Nat.le_refl _⟩)
termination_by (ts.length, 3)

/-- A conjunction: negations with `AND` between them. -/
def readAnd (ts : List Token) : Except ExpressionFault (Condition × Token.Fewer ts) :=
  match readNot ts with
  | .error e => .error e
  | .ok (left, ⟨rest, h⟩) =>
    match readAndMore left rest with
    | .error e => .error e
    | .ok (c, ⟨last, h'⟩) => .ok (c, ⟨last, Nat.lt_of_le_of_lt h' h⟩)
termination_by (ts.length, 2)

/-- The further members of a conjunction after some that are read. -/
def readAndMore (left : Condition) (ts : List Token) :
    Except ExpressionFault (Condition × Token.NoMore ts) :=
  match ts with
  | .and :: rest =>
    match readNot rest with
    | .error e => .error e
    | .ok (right, ⟨more, h⟩) =>
      match readAndMore (.and left right) more with
      | .error e => .error e
      | .ok (c, ⟨last, h'⟩) =>
        .ok (c, ⟨last, Nat.le_trans h' (Nat.le_of_lt (Nat.lt_succ_of_lt h))⟩)
  | ts => .ok (left, ⟨ts, Nat.le_refl _⟩)
termination_by (ts.length, 1)

/-- A negation, a group in parentheses, a function or a comparison. -/
def readNot (ts : List Token) : Except ExpressionFault (Condition × Token.Fewer ts) :=
  match ts with
  | .not :: rest =>
    match readNot rest with
    | .error e => .error e
    | .ok (c, ⟨last, h⟩) => .ok (.not c, ⟨last, Nat.lt_succ_of_lt h⟩)
  | .leftParen :: rest =>
    match readOr rest with
    | .error e => .error e
    | .ok (c, ⟨more, h⟩) =>
      match he : Token.expect .rightParen more with
      | .error e => .error e
      | .ok last =>
        .ok (c, ⟨last, Nat.lt_succ_of_lt (Nat.lt_trans (length_lt_of_expect he) h)⟩)
  | ts =>
    match hs : readSimple ts with
    | .error e => .error e
    | .ok (c, rest) => .ok (c, ⟨rest, length_lt_of_readSimple hs⟩)
termination_by (ts.length, 0)

end

/-- The condition that a whole list of tokens spells. -/
def ofTokens (ts : List Token) : Except ExpressionFault Condition := do
  let (c, rest) ← readOr ts
  Token.expectEnd rest.val
  return c

/-- The condition that a text spells. -/
def ofText (text : String) : Except ExpressionFault Condition := do
  let tokens ← Token.scan text
  ofTokens tokens

end Condition

end RecordStore
