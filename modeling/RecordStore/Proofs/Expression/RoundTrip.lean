import RecordStore.Proofs.Expression.Grammar
import RecordStore.Proofs.Expression.Spelling

/-!
# Written expressions are read back

Reading inverts writing: whatever condition or update is written as a text, reading that text gives
it back.

The tokens that a condition is written with spell it in the grammar.  The induction over conditions
carries two statements: a condition that is no conjunction is spelled as a member, and any condition is
spelled as a conjunction; the second one is what a conjunction that groups to the left needs of its
first part.

* `Path.derives_tokens`, `Operand.derives_tokens`, `Condition.derives_tokens` — written tokens in the
  grammar;
* `Condition.ofText_text` — conditions;
* `Update.ofText_text` — updates with at least one action.
-/

namespace RecordStore

namespace Path

/-- The token of a segment is that segment. -/
theorem IsSegment.segment {s : String} (h : IsSegment s) : (Token.ofSegment s).Segment s := by
  unfold Token.ofSegment
  rcases h with h | h
  · rw [h.isAlias]
    exact .name s
  · rw [h.not_isAlias]
    exact .identifier s

theorem derives_tokens {p : Path} (h : p.Spelled) : Derives p.tokens p := by
  obtain ⟨hne, hseg⟩ := h
  induction p with
  | nil => exact absurd rfl hne
  | cons s rest ih =>
      have hs := (hseg s List.mem_cons_self).segment
      cases rest with
      | nil => exact .single hs
      | cons t rest => exact .more hs (ih (by simp) fun u hu => hseg u (List.mem_cons_of_mem _ hu))

/-- A path at the front of some tokens is read, up to what is no dot. -/
theorem read_tokens {p : Path} (h : p.Spelled) {rest : List Token}
    (hdot : rest.head? ≠ some .dot) : read (p.tokens ++ rest) = .ok (p, rest) :=
  (derives_tokens h).read_append hdot

end Path

namespace Operand

theorem derives_tokens {o : Operand} (h : o.Spelled) : Derives o.tokens o := by
  cases o with
  | value label => exact .value label
  | path p => exact .path (Path.derives_tokens h)

/-- An operand at the front of some tokens is read, up to what is no dot. -/
theorem read_tokens {o : Operand} (h : o.Spelled) {rest : List Token}
    (hdot : rest.head? ≠ some .dot) : read (o.tokens ++ rest) = .ok (o, rest) :=
  (derives_tokens h).read_append hdot

end Operand

namespace Condition

/-- Parentheses are put around conjunctions only. -/
theorem derives_groupedIf {c : Condition} (halone : c.isAnd = false → Derives .member c.tokens c)
    (hfirst : Derives .conjunction c.tokens c) :
    Derives .member (Token.groupedIf c.isAnd c.tokens) c := by
  cases hc : c.isAnd with
  | true => exact .group (.conjunction hfirst)
  | false => exact halone hc

/-- **Written tokens.**  A spelled condition is spelled by its tokens, as a conjunction and, unless it
is one, as a member. -/
theorem derives_tokens {c : Condition} (h : c.Spelled) :
    (c.isAnd = false → Derives .member c.tokens c) ∧ Derives .conjunction c.tokens c := by
  have alone {c : Condition} (hc : Derives .member c.tokens c) :
      (c.isAnd = false → Derives .member c.tokens c) ∧ Derives .conjunction c.tokens c :=
    ⟨fun _ => hc, .member hc⟩
  induction c with
  | compare op left right =>
      exact alone (.simple (.compare op (Operand.derives_tokens h.1) (Operand.derives_tokens h.2)))
  | between subject low high =>
      exact alone (.simple (.between (Operand.derives_tokens h.1) (Operand.derives_tokens h.2.1)
        (Operand.derives_tokens h.2.2)))
  | present path => exact alone (.simple (.present rfl (Path.derives_tokens h)))
  | absent path => exact alone (.simple (.absent rfl (Path.derives_tokens h)))
  | beginsWith subject beginning =>
      have hcall := DerivesSimple.beginsWith (f := "begins_with") rfl (Operand.derives_tokens h.1)
        (Operand.derives_tokens h.2)
      exact alone (.simple (by simpa [tokens, Token.grouped] using hcall))
  | not inner ih =>
      obtain ⟨halone, hfirst⟩ := ih h
      exact alone (.not (derives_groupedIf halone hfirst))
  | and left right ihl ihr =>
      obtain ⟨_, hleft⟩ := ihl h.1
      obtain ⟨halone, hfirst⟩ := ihr h.2
      exact ⟨by simp [isAnd], hleft.and (derives_groupedIf halone hfirst)⟩
  | or left right ihl ihr =>
      have hleft : Derives .alternatives left.tokens left := .conjunction (ihl h.1).2
      exact alone (.group (hleft.or (ihr h.2).2))

/-- A condition is read by itself, up to what is no dot. -/
def ReadAlone (c : Condition) : Prop :=
  ∀ rest : List Token, rest.head? ≠ some .dot → bare (readNot (c.tokens ++ rest)) = .ok (c, rest)

/-- A condition at the front of a conjunction is read as what has been read so far. -/
def ReadFirst (c : Condition) : Prop :=
  ∀ rest : List Token, rest.head? ≠ some .dot →
    bare (readAnd (c.tokens ++ rest)) = bare (readAndMore c rest)

/-- A spelled condition is read, at the front of a conjunction and, unless it is one, by itself. -/
theorem readAlone_and_readFirst {c : Condition} (h : c.Spelled) :
    (c.isAnd = false → c.ReadAlone) ∧ c.ReadFirst :=
  ⟨fun hc => ((derives_tokens h).1 hc).readsAs, (derives_tokens h).2.readsAs⟩

/-- The tokens of a condition are read as the condition. -/
theorem ofTokens_tokens {c : Condition} (h : c.Spelled) : ofTokens c.tokens = .ok c :=
  ofTokens_eq_ok_iff.mpr (.conjunction (derives_tokens h).2)

/-- **Reading inverts writing.**  The text of a condition is read as the condition. -/
theorem ofText_text {c : Condition} (h : c.Spelled) : ofText c.text = .ok c := by
  unfold ofText
  rw [scan_text h]
  exact ofTokens_tokens h

end Condition

namespace SetAction

/-- A new value is read after its first operand, up to what is no dot and no sign. -/
theorem read_value {v : NewValue} (h : v.Spelled) {rest : List Token}
    (hdot : rest.head? ≠ some .dot) (hplus : rest.head? ≠ some .plus)
    (hminus : rest.head? ≠ some .minus) :
    (Operand.read (v.tokens ++ rest) >>= fun r => readValueAfter r.1 r.2) = .ok (v, rest) := by
  cases v with
  | operand o =>
      rw [NewValue.tokens, Operand.read_tokens h hdot]
      change readValueAfter o rest = _
      unfold readValueAfter
      split
      · simp at hplus
      · simp at hminus
      · rfl
  | sum left right =>
      have hright := Operand.read_tokens h.2 hdot
      rw [NewValue.tokens, List.append_assoc, List.cons_append,
        Operand.read_tokens h.1 (by simp)]
      change readValueAfter left (.plus :: (right.tokens ++ rest)) = _
      rw [readValueAfter, hright]
      rfl
  | difference left right =>
      have hright := Operand.read_tokens h.2 hdot
      rw [NewValue.tokens, List.append_assoc, List.cons_append,
        Operand.read_tokens h.1 (by simp)]
      change readValueAfter left (.minus :: (right.tokens ++ rest)) = _
      rw [readValueAfter, hright]
      rfl

/-- An action at the front of some tokens is read, up to what is no dot and no sign. -/
theorem read_tokens {a : SetAction} (h : a.Spelled) {rest : List Token}
    (hdot : rest.head? ≠ some .dot) (hplus : rest.head? ≠ some .plus)
    (hminus : rest.head? ≠ some .minus) : read (a.tokens ++ rest) = .ok (a, rest) := by
  have hpath : Path.read (a.path.tokens ++ .comparison .equal :: (a.value.tokens ++ rest))
      = .ok (a.path, .comparison .equal :: (a.value.tokens ++ rest)) :=
    Path.read_tokens h.1 (by simp)
  obtain ⟨⟨o, more⟩, ho, hv⟩ := Condition.bind_eq_ok (read_value h.2 hdot hplus hminus)
  have hafter : readValueAfter o more = .ok (a.value, rest) := hv
  unfold read
  rw [tokens, List.append_assoc, List.cons_append, hpath]
  simp [Token.expect, ho, hafter, bind, Except.bind, pure, Except.pure]

end SetAction

namespace Update

/-- The tokens of actions are read as the actions. -/
theorem readActions_tokens {a : SetAction} {u : List SetAction} (ha : a.Spelled)
    (hu : ∀ b ∈ u, b.Spelled) : readActions (actionTokens (a :: u)) = .ok (a :: u) := by
  induction u generalizing a with
  | nil =>
      have htokens : actionTokens [a] = a.tokens := by
        simp [actionTokens]
      have hread : SetAction.read (a.tokens ++ []) = .ok (a, []) :=
        SetAction.read_tokens ha (by simp) (by simp) (by simp)
      rw [List.append_nil] at hread
      rw [htokens, readActions.eq_def]
      split <;> simp_all
  | cons b u ih =>
      have hmore := ih (hu b List.mem_cons_self) fun d hd => hu d (List.mem_cons_of_mem _ hd)
      have htokens : actionTokens (a :: b :: u) = a.tokens ++ .comma :: actionTokens (b :: u) := by
        simp [actionTokens]
      have hread : SetAction.read (a.tokens ++ .comma :: actionTokens (b :: u))
          = .ok (a, .comma :: actionTokens (b :: u)) :=
        SetAction.read_tokens ha (by simp) (by simp) (by simp)
      rw [htokens, readActions.eq_def]
      split
      · simp_all
      · simp_all
      · rename_i c rest hc
        rw [hread] at hc
        obtain ⟨rfl, rfl⟩ : a = c ∧ actionTokens (b :: u) = rest := by simpa using hc
        rw [hmore]
        rfl
      · simp_all

/-- **Reading inverts writing.**  The text of an update with an action is read as the update. -/
theorem ofText_text {u : Update} (hne : u ≠ []) (h : ∀ a ∈ u, a.Spelled) :
    ofText u.text = .ok u := by
  unfold ofText
  rw [scan_text h]
  cases u with
  | nil => exact absurd rfl hne
  | cons a u =>
      exact readActions_tokens (h a List.mem_cons_self) fun b hb => h b (List.mem_cons_of_mem _ hb)

end Update

end RecordStore
