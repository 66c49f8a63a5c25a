import RecordStore.Proofs.Expression.Layout
import RecordStore.Proofs.Expression.RoundTrip

/-!
# The texts of an update

Which texts are read as an update: the ones that its tokens are laid out in, and no others.  Blanks may
stand between any two tokens and `SET` may be in any letter case, but no token is passed over, moved or
made up.

What is written is read back, `Update.readActions_tokens`.  The way back is that a reader which gives
an answer has used up just the tokens that the answer is written with.  This holds because each token
of a text can be spelled: a segment read from it is an alias or an identifier, and the token of that
segment is the one that was read.

* `Path.tokens_of_read`, `Operand.tokens_of_read`, `SetAction.tokens_of_read` — what a reader uses up;
* `Update.tokens_of_readActions` — what actions use up.  The induction is on the reader's own recursion;
* `Update.ofText_eq_ok_iff_laidOut` — the texts of an update.
-/

namespace RecordStore

/-- A segment that can be spelled is read from the token it is written with. -/
theorem Token.Segment.eq_ofSegment {t : Token} {s : String} (h : t.Segment s) (ht : t.Spelled) :
    Path.IsSegment s ∧ t = Token.ofSegment s := by
  obtain ⟨lexeme, hlexeme⟩ := ht
  cases h with
  | identifier =>
      have hword : IsIdentifier s := hlexeme.1
      exact ⟨.inr hword, by simp [Token.ofSegment, hword.not_isAlias]⟩
  | name =>
      have hlabel : IsLabel '#' s := hlexeme.1
      exact ⟨.inl hlabel, by simp [Token.ofSegment, hlabel.isAlias]⟩

namespace Path

theorem tokens_cons {p : Path} (hne : p ≠ []) (s : String) :
    tokens (s :: p) = Token.ofSegment s :: .dot :: tokens p := by
  cases p with
  | nil => exact absurd rfl hne
  | cons t rest => simp [tokens]

/-- Tokens that can be spelled spell a path in one way only. -/
theorem Derives.eq_tokens {ts : List Token} {p : Path} (h : Derives ts p)
    (hts : ∀ t ∈ ts, t.Spelled) : p.Spelled ∧ ts = p.tokens := by
  induction h with
  | single h =>
      obtain ⟨hs, rfl⟩ := h.eq_ofSegment (hts _ List.mem_cons_self)
      exact ⟨spelled_singleton hs, rfl⟩
  | more h _ ih =>
      obtain ⟨ht, hrest⟩ := List.forall_mem_cons.mp hts
      obtain ⟨_, hrest⟩ := List.forall_mem_cons.mp hrest
      obtain ⟨hs, rfl⟩ := h.eq_ofSegment ht
      obtain ⟨⟨hne, hp⟩, rfl⟩ := ih hrest
      exact ⟨⟨by simp, List.forall_mem_cons.mpr ⟨hs, hp⟩⟩, (tokens_cons hne _).symm⟩

variable {ts rest : List Token} {p : Path}

/-- A path uses up the tokens it is written with. -/
theorem tokens_of_read (h : read ts = .ok (p, rest)) (hts : ∀ t ∈ ts, t.Spelled) :
    p.Spelled ∧ ts = p.tokens ++ rest := by
  obtain ⟨used, rfl, hused⟩ := derives_of_read h
  obtain ⟨hp, rfl⟩ := hused.eq_tokens (List.forall_mem_append.mp hts).1
  exact ⟨hp, rfl⟩

end Path

namespace Operand

/-- Tokens that can be spelled spell an operand in one way only. -/
theorem Derives.eq_tokens {ts : List Token} {o : Operand} (h : Derives ts o)
    (hts : ∀ t ∈ ts, t.Spelled) : o.Spelled ∧ ts = o.tokens := by
  cases h with
  | path hpath => exact hpath.eq_tokens hts
  | value label =>
      obtain ⟨lexeme, hlabel, _⟩ := hts _ List.mem_cons_self
      exact ⟨hlabel, rfl⟩

variable {ts rest : List Token} {o : Operand}

/-- An operand uses up the tokens it is written with. -/
theorem tokens_of_read (h : read ts = .ok (o, rest)) (hts : ∀ t ∈ ts, t.Spelled) :
    o.Spelled ∧ ts = o.tokens ++ rest := by
  obtain ⟨used, rfl, hused⟩ := derives_of_read h
  obtain ⟨ho, rfl⟩ := hused.eq_tokens (List.forall_mem_append.mp hts).1
  exact ⟨ho, rfl⟩

end Operand

namespace SetAction

variable {ts rest : List Token}

/-- A second operand uses up its sign and the tokens it is written with. -/
theorem tokens_of_readValueAfter {left : Operand} (hleft : left.Spelled) {v : NewValue}
    (h : readValueAfter left ts = .ok (v, rest)) (hts : ∀ t ∈ ts, t.Spelled) :
    v.Spelled ∧ left.tokens ++ ts = v.tokens ++ rest := by
  have signed {f : Operand → NewValue} {sign : Token} {more : List Token}
      (hspelled : ∀ {right : Operand}, right.Spelled → (f right).Spelled)
      (htokens : ∀ right : Operand, (f right).tokens = left.tokens ++ sign :: right.tokens)
      (h : (Operand.read more).map (fun r => (f r.1, r.2)) = .ok (v, rest))
      (hmore : ∀ t ∈ more, t.Spelled) :
      v.Spelled ∧ left.tokens ++ sign :: more = v.tokens ++ rest := by
    obtain ⟨⟨right, last⟩, hread, h⟩ := map_eq_ok h
    obtain ⟨rfl, rfl⟩ := Prod.mk.inj h
    obtain ⟨hright, rfl⟩ := Operand.tokens_of_read hread hmore
    exact ⟨hspelled hright, by simp [htokens]⟩
  unfold readValueAfter at h
  split at h
  · have hmore := (List.forall_mem_cons.mp hts).2
    exact signed (f := .sum left) (fun hright => ⟨hleft, hright⟩) (fun _ => rfl) h hmore
  · have hmore := (List.forall_mem_cons.mp hts).2
    exact signed (f := .difference left) (fun hright => ⟨hleft, hright⟩) (fun _ => rfl) h hmore
  · obtain ⟨rfl, rfl⟩ : NewValue.operand left = v ∧ ts = rest := by simpa using h
    exact ⟨hleft, rfl⟩

/-- An action uses up the tokens it is written with. -/
theorem tokens_of_read {a : SetAction} (h : read ts = .ok (a, rest)) (hts : ∀ t ∈ ts, t.Spelled) :
    a.Spelled ∧ ts = a.tokens ++ rest := by
  unfold read at h
  obtain ⟨⟨path, afterPath⟩, hpath, h⟩ := Condition.bind_eq_ok h
  obtain ⟨afterSign, hsign, h⟩ := Condition.bind_eq_ok h
  obtain ⟨⟨left, afterLeft⟩, hleft, h⟩ := Condition.bind_eq_ok h
  obtain ⟨⟨value, afterValue⟩, hvalue, h⟩ := Condition.bind_eq_ok h
  obtain ⟨rfl, rfl⟩ := Prod.mk.inj (Except.ok.inj h)
  obtain rfl := Token.expect_eq_ok_iff.mp hsign
  obtain ⟨hp, rfl⟩ := Path.tokens_of_read hpath hts
  have hright := (List.forall_mem_cons.mp (List.forall_mem_append.mp hts).2).2
  obtain ⟨ho, rfl⟩ := Operand.tokens_of_read hleft hright
  obtain ⟨hv, htokens⟩ := tokens_of_readValueAfter ho hvalue (List.forall_mem_append.mp hright).2
  exact ⟨⟨hp, hv⟩, by simp [tokens, htokens]⟩

end SetAction

namespace Update

theorem actionTokens_cons {u : Update} (hne : u ≠ []) (a : SetAction) :
    actionTokens (a :: u) = a.tokens ++ .comma :: actionTokens u := by
  cases u with
  | nil => exact absurd rfl hne
  | cons b rest => simp [actionTokens]

variable {ts : List Token} {u : Update}

/-- Actions use up the tokens they are written with, and there is at least one. -/
theorem tokens_of_readActions (h : readActions ts = .ok u) (hts : ∀ t ∈ ts, t.Spelled) :
    (u ≠ [] ∧ ∀ a ∈ u, a.Spelled) ∧ ts = actionTokens u := by
  fun_induction readActions ts generalizing u with
  | case1 ts e he => cases h
  | case2 ts a hread =>
      obtain rfl := Except.ok.inj h
      obtain ⟨ha, rfl⟩ := SetAction.tokens_of_read hread hts
      exact ⟨⟨by simp, by simpa using ha⟩, by simp [actionTokens]⟩
  | case3 ts a rest hread _ ih =>
      obtain ⟨ha, rfl⟩ := SetAction.tokens_of_read hread hts
      have hrest := (List.forall_mem_cons.mp (List.forall_mem_append.mp hts).2).2
      obtain ⟨more, hmore, rfl⟩ := map_eq_ok h
      obtain ⟨⟨hne, hall⟩, rfl⟩ := ih hmore hrest
      exact ⟨⟨by simp, List.forall_mem_cons.mpr ⟨ha, hall⟩⟩, (actionTokens_cons hne a).symm⟩
  | case4 => cases h

/-- **Tokens that can be spelled are read as the update they are written from.** -/
theorem ofTokens_eq_ok_iff (hts : ∀ t ∈ ts, t.Spelled) :
    ofTokens ts = .ok u ↔ (u ≠ [] ∧ ∀ a ∈ u, a.Spelled) ∧ ts = .set :: actionTokens u := by
  constructor
  · intro h
    obtain ⟨rest, hset, hread⟩ := Condition.bind_eq_ok h
    obtain rfl := Token.expect_eq_ok_iff.mp hset
    obtain ⟨hu, rfl⟩ := tokens_of_readActions hread (List.forall_mem_cons.mp hts).2
    exact ⟨hu, rfl⟩
  · rintro ⟨⟨hne, hall⟩, rfl⟩
    cases u with
    | nil => exact absurd rfl hne
    | cons a u =>
        obtain ⟨ha, hu⟩ := List.forall_mem_cons.mp hall
        exact readActions_tokens ha hu

/-- A text is read as an update if it has the tokens of that update. -/
theorem ofText_eq_ok_iff_scan {text : String} : ofText text = .ok u ↔
    (u ≠ [] ∧ ∀ a ∈ u, a.Spelled) ∧ Token.scan text = .ok (.set :: actionTokens u) := by
  unfold ofText
  cases hscan : Token.scan text with
  | error e => simp [bind, Except.bind]
  | ok ts =>
      have hts := (Token.scan_eq_ok_iff.mp hscan).spelled
      simp [bind, Except.bind, ofTokens_eq_ok_iff hts]

/-- **The texts of an update.**  An update is read from a text exactly if it is one that can be written
and its tokens are laid out in the text.  So reading and writing undo each other: the text is read as
the update exactly if it has the same tokens as the written update. -/
theorem ofText_eq_ok_iff_laidOut (text : String) (u : Update) :
    (ofText text = .ok u ↔
        (u ≠ [] ∧ ∀ a ∈ u, a.Spelled) ∧ Token.LaidOut (.set :: actionTokens u) text.toList) ∧
      (ofText text = .ok u ↔
        (u ≠ [] ∧ ∀ a ∈ u, a.Spelled) ∧ Token.scan text = Token.scan u.text) := by
  constructor
  · rw [ofText_eq_ok_iff_scan, Token.scan_eq_ok_iff]
  · rw [ofText_eq_ok_iff_scan]
    refine and_congr_right ?_
    rintro ⟨_, hall⟩
    rw [scan_text hall]

/-- Blanks may be missing or stand anywhere between tokens. -/
example : ofText "sEt\na=:x ,#b . c=d-:y" =
    .ok [⟨["a"], .operand (.value ":x")⟩, ⟨["#b", "c"], .difference (.path ["d"]) (.value ":y")⟩] := by
  cbv

end Update

end RecordStore
