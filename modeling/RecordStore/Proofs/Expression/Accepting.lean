import Mathlib.Data.List.Chain
import Mathlib.Data.Set.Subsingleton
import RecordStore.Proofs.Expression.Alternatives

/-!
# The texts that are read

A text is read as a condition if its tokens, all of them, spell that condition in the grammar, and for
no other reason.  There is never a choice: tokens spell at most one condition, although `AND` joins
conditions and also stands inside a `BETWEEN`, and although a word can open a path or a function call.

What settles the second point is that a path has no parentheses.  So a word right before a parenthesis
is the name of a function, wherever it stands (`Derives.calls`).

* `Token.Calls` — words before parentheses are names of functions;
* `Condition.reads_exactly_the_grammar` — what is read, as what, and what never is.
-/

namespace RecordStore

namespace Condition

/-- The name of a function, in any letter case. -/
def IsFunction (f : String) : Prop :=
  functionName f ∈ ["attribute_exists", "attribute_not_exists", "begins_with"]

end Condition

namespace Token

/-- A word before a parenthesis is the name of a function. -/
def CallsFunction (t u : Token) : Prop :=
  ∀ f, t = .identifier f → u = .leftParen → Condition.IsFunction f

/-- All words before parentheses are names of functions. -/
def Calls (ts : List Token) : Prop := ts.IsChain CallsFunction

/-- Without a parenthesis there is nothing to call. -/
theorem calls_of_notMem {ts : List Token} (h : .leftParen ∉ ts) : Calls ts := by
  refine List.isChain_iff_forall_rel_of_append_cons_cons.mpr ?_
  intro t u before after hts f _ hu
  subst hts hu
  exact absurd (by simp) h

/-- A token that is no word calls nothing. -/
theorem calls_cons {t : Token} {ts : List Token} (ht : ∀ f, t ≠ .identifier f) (h : Calls ts) :
    Calls (t :: ts) :=
  List.IsChain.cons h fun _ _ f hf => absurd hf (ht f)

/-- What stands on both sides of a token that is neither a word nor a parenthesis is apart. -/
theorem calls_append {t : Token} {ts us : List Token} (ht : ∀ f, t ≠ .identifier f)
    (hparen : t ≠ .leftParen) (hts : Calls ts) (hus : Calls us) : Calls (ts ++ t :: us) := by
  refine List.IsChain.append hts (calls_cons ht hus) ?_
  intro _ _ u hu _ _ huparen
  obtain rfl : t = u := by simpa using hu
  exact absurd huparen hparen

/-- Arguments between parentheses after the name of a function. -/
theorem calls_call {f : String} {ts : List Token} (hf : Condition.IsFunction f)
    (h : .leftParen ∉ ts) : Calls (.identifier f :: .leftParen :: (ts ++ [.rightParen])) := by
  have hinner : Calls (ts ++ [.rightParen]) := calls_of_notMem (by simp [h])
  refine List.IsChain.cons (calls_cons (by simp) hinner) ?_
  intro _ _ g hg _
  obtain rfl := Token.identifier.inj hg
  exact hf

end Token

/-- A path has no parentheses. -/
theorem Path.Derives.leftParen_notMem {ts : List Token} {p : Path} (h : Derives ts p) :
    .leftParen ∉ ts := by
  induction h with
  | single h => cases h <;> simp
  | more h _ ih => cases h <;> simp [ih]

/-- Neither has an operand. -/
theorem Operand.Derives.leftParen_notMem {ts : List Token} {o : Operand} (h : o.Derives ts) :
    .leftParen ∉ ts := by
  cases h with
  | path h => exact h.leftParen_notMem
  | value label => simp

namespace Condition

theorem DerivesSimple.calls {ts : List Token} {c : Condition} (h : DerivesSimple ts c) :
    Token.Calls ts := by
  cases h with
  | compare op hl hr =>
      exact Token.calls_of_notMem (by simp [hl.leftParen_notMem, hr.leftParen_notMem])
  | between hs hl hh =>
      exact Token.calls_of_notMem
        (by simp [hs.leftParen_notMem, hl.leftParen_notMem, hh.leftParen_notMem])
  | present hf h => exact Token.calls_call (by simp [IsFunction, hf]) h.leftParen_notMem
  | absent hf h => exact Token.calls_call (by simp [IsFunction, hf]) h.leftParen_notMem
  | @beginsWith f ss bs _ _ hf hs hb =>
      have hname : IsFunction f := by simp [IsFunction, hf]
      have harguments : .leftParen ∉ ss ++ .comma :: bs := by
        simp [hs.leftParen_notMem, hb.leftParen_notMem]
      simpa using Token.calls_call hname harguments

/-- **A word before a parenthesis is the name of a function**, wherever it stands in a condition. -/
theorem Derives.calls {level : Level} {ts : List Token} {c : Condition} (h : Derives level ts c) :
    Token.Calls ts := by
  induction h with
  | simple h => exact h.calls
  | not _ ih => exact Token.calls_cons (by simp) ih
  | group _ ih =>
      have hclose := Token.calls_append (t := .rightParen) (by simp) (by simp) ih .nil
      exact Token.calls_cons (by simp) hclose
  | member _ ih => exact ih
  | and _ _ ihc ihd => exact Token.calls_append (by simp) (by simp) ihc ihd
  | conjunction _ ih => exact ih
  | or _ _ ihc ihd => exact Token.calls_append (by simp) (by simp) ihc ihd

/-- **What is read is the grammar, and nothing else.**  A text is read as a condition if and only if it
has tokens and all of them together spell that condition.  Tokens spell at most one condition, and in
those that spell one every word before a parenthesis is the name of a function. -/
theorem reads_exactly_the_grammar :
    (∀ text c, ofText text = .ok c ↔
      ∃ ts, Token.scan text = .ok ts ∧ Derives .alternatives ts c) ∧
    (∀ ts, {c | Derives .alternatives ts c}.Subsingleton) ∧
    ∀ before f after c, Derives .alternatives (before ++ .identifier f :: .leftParen :: after) c →
      IsFunction f := by
  refine ⟨fun text c => ofText_eq_ok_iff, ?_, ?_⟩
  · intro ts c hc d hd
    exact hc.unique hd
  · intro before f after c h
    exact List.isChain_iff_forall_rel_of_append_cons_cons.mp h.calls rfl f rfl rfl

/-- In this text one `AND` belongs to a `BETWEEN`, and the other one joins it to a function call. -/
theorem reads_between_and_call :
    ofText "c BETWEEN :x AND :y AND Begins_With(d, :p)" =
        .ok (.and (.between (.path ["c"]) (.value ":x") (.value ":y"))
          (.beginsWith (.path ["d"]) (.value ":p"))) ∧
      IsFunction "Begins_With" := by
  have hbetween : Derives .conjunction [.identifier "c", .between, .value ":x", .and, .value ":y"]
      (.between (.path ["c"]) (.value ":x") (.value ":y")) :=
    .member (.simple (.between (.path (.single (.identifier "c"))) (.value ":x") (.value ":y")))
  have hcall : Derives .member
      [.identifier "Begins_With", .leftParen, .identifier "d", .comma, .value ":p", .rightParen]
      (.beginsWith (.path ["d"]) (.value ":p")) :=
    .simple (.beginsWith (by decide +kernel) (.path (.single (.identifier "d"))) (.value ":p"))
  have hall := (hbetween.and hcall).conjunction
  refine ⟨(reads_exactly_the_grammar.1 _ _).mpr ⟨_, by decide +kernel, hall⟩, ?_⟩
  exact reads_exactly_the_grammar.2.2
    [.identifier "c", .between, .value ":x", .and, .value ":y", .and] _ _ _ hall

end Condition

end RecordStore
