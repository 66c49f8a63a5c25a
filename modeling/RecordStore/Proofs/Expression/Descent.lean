import RecordStore.Expression.ConditionReading

/-!
# What each level of the descent reads

The readers of conditions give back the unread tokens together with the fact that they are fewer.
`bare` puts that fact aside, and then each level is an equation about the level below it.

* `bare_readOr`, `bare_readOrMore_or`, `bare_readOrMore_stop` — alternatives;
* `bare_readAnd`, `bare_readAndMore_and`, `bare_readAndMore_stop` — conjunctions;
* `bare_readNot_not`, `bare_readNot_group`, `bare_readNot_simple` — negations, groups and the rest;
* `ofTokens_eq` — a whole list of tokens.
-/

namespace RecordStore

namespace Condition

/-- The answer of a reader without the fact about the tokens that are left. -/
def bare {P : List Token → Prop} (r : Except ExpressionFault (Condition × { rest // P rest })) :
    Except ExpressionFault (Condition × List Token) :=
  r.map fun a => (a.1, a.2.val)

/-- A `NOT` negates what is read after it. -/
theorem bare_readNot_not (ts : List Token) :
    bare (readNot (.not :: ts)) = (bare (readNot ts)).map fun r => (.not r.1, r.2) := by
  rw [readNot]
  cases readNot ts with
  | error e => rfl
  | ok r => rfl

/-- A group is what alternatives read up to a closing parenthesis. -/
theorem bare_readNot_group (ts : List Token) :
    bare (readNot (.leftParen :: ts)) = (do
      let (c, more) ← bare (readOr ts)
      let rest ← Token.expect .rightParen more
      return (c, rest)) := by
  rw [readNot]
  cases readOr ts with
  | error e => rfl
  | ok r =>
      obtain ⟨c, more, hmore⟩ := r
      dsimp only
      split
      · rename_i e he
        simp [bare, Except.map, bind, Except.bind, he]
      · rename_i last he
        simp [bare, Except.map, bind, Except.bind, pure, Except.pure, he]

/-- Without a `NOT` or a parenthesis in front, a function or a comparison is read. -/
theorem bare_readNot_simple {ts : List Token} (hnot : ts.head? ≠ some .not)
    (hparen : ts.head? ≠ some .leftParen) : bare (readNot ts) = readSimple ts := by
  rw [readNot.eq_def]
  split
  · simp at hnot
  · simp at hparen
  · split
    · rename_i e he
      rw [he]
      rfl
    · rename_i c rest he
      exact he.symm

/-- A conjunction begins with one member and goes on with the further ones. -/
theorem bare_readAnd (ts : List Token) :
    bare (readAnd ts) = (do
      let (left, more) ← bare (readNot ts)
      bare (readAndMore left more)) := by
  rw [readAnd]
  cases readNot ts with
  | error e => rfl
  | ok r =>
      obtain ⟨left, more, hmore⟩ := r
      dsimp only [bare, Except.map, bind, Except.bind]
      cases readAndMore left more <;> rfl

/-- After an `AND` there is one more member. -/
theorem bare_readAndMore_and (left : Condition) (ts : List Token) :
    bare (readAndMore left (.and :: ts)) = (do
      let (right, more) ← bare (readNot ts)
      bare (readAndMore (.and left right) more)) := by
  rw [readAndMore]
  cases readNot ts with
  | error e => rfl
  | ok r =>
      obtain ⟨right, more, hmore⟩ := r
      dsimp only [bare, Except.map, bind, Except.bind]
      cases readAndMore (.and left right) more <;> rfl

/-- Without an `AND` in front a conjunction ends. -/
theorem bare_readAndMore_stop {ts : List Token} (h : ts.head? ≠ some .and) (left : Condition) :
    bare (readAndMore left ts) = .ok (left, ts) := by
  rw [readAndMore.eq_def]
  split
  · simp at h
  · rfl

/-- Alternatives begin with one conjunction and go on with the further ones. -/
theorem bare_readOr (ts : List Token) :
    bare (readOr ts) = (do
      let (left, more) ← bare (readAnd ts)
      bare (readOrMore left more)) := by
  rw [readOr]
  cases readAnd ts with
  | error e => rfl
  | ok r =>
      obtain ⟨left, more, hmore⟩ := r
      dsimp only [bare, Except.map, bind, Except.bind]
      cases readOrMore left more <;> rfl

/-- After an `OR` there is one more alternative. -/
theorem bare_readOrMore_or (left : Condition) (ts : List Token) :
    bare (readOrMore left (.or :: ts)) = (do
      let (right, more) ← bare (readAnd ts)
      bare (readOrMore (.or left right) more)) := by
  rw [readOrMore]
  cases readAnd ts with
  | error e => rfl
  | ok r =>
      obtain ⟨right, more, hmore⟩ := r
      dsimp only [bare, Except.map, bind, Except.bind]
      cases readOrMore (.or left right) more <;> rfl

/-- Without an `OR` in front alternatives end. -/
theorem bare_readOrMore_stop {ts : List Token} (h : ts.head? ≠ some .or) (left : Condition) :
    bare (readOrMore left ts) = .ok (left, ts) := by
  rw [readOrMore.eq_def]
  split
  · simp at h
  · rfl

/-- A whole list of tokens spells a condition when alternatives use all of it up. -/
theorem ofTokens_eq (ts : List Token) :
    ofTokens ts = (do
      let (c, rest) ← bare (readOr ts)
      Token.expectEnd rest
      return c) := by
  unfold ofTokens
  cases readOr ts <;> rfl

end Condition

end RecordStore
