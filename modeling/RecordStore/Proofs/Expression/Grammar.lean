import RecordStore.Proofs.Expression.Descent

/-!
# The grammar of conditions

What a list of tokens means, said without an order of reading.  `Derives level ts c` says that all the
tokens `ts` together spell the condition `c` at a level of binding: members are bound by `AND` into
conjunctions, and conjunctions by `OR` into alternatives.

The key fact is that the descent reads this grammar and nothing else, `ofTokens_eq_ok_iff`.

* `Derives.readsAs` — what is derived is read, whatever comes after it and does not go on with it.
  The induction is on the derivation;
* `reads` — what is read is derived.  The induction is on the number of tokens, and it carries the
  five readers together;
* `Derives.unique` — tokens spell at most one condition.
-/

namespace RecordStore

/-- A token is a segment of a path: an alias, or a name that is no keyword. -/
inductive Token.Segment : Token → String → Prop where
  | identifier (s : String) : Segment (.identifier s) s
  | name (s : String) : Segment (.name s) s

namespace Path

/-- Tokens spell a path: segments with dots between them. -/
inductive Derives : List Token → Path → Prop where
  | single {t : Token} {s : String} (h : t.Segment s) : Derives [t] [s]
  | more {t : Token} {s : String} {ts : List Token} {p : Path} (h : t.Segment s)
      (hp : Derives ts p) : Derives (t :: .dot :: ts) (s :: p)

theorem read_segment {t : Token} {s : String} (h : t.Segment s) (ts : List Token) :
    read (t :: ts) = (readMore ts).map fun r => (s :: r.1, r.2) := by
  cases h <;> rfl

/-- After a dot a path goes on like a new one. -/
theorem readMore_dot (ts : List Token) : readMore (.dot :: ts) = read ts := by
  fun_cases read ts with
  | case1 s rest => rfl
  | case2 s rest => rfl
  | case3 rest => simp_all [readMore]

/-- Without a dot in front a path ends. -/
theorem readMore_stop {ts : List Token} (h : ts.head? ≠ some .dot) : readMore ts = .ok ([], ts) := by
  rw [readMore.eq_def]
  split <;> simp_all

/-- A path is read up to what is no dot. -/
theorem Derives.read_append {ts : List Token} {p : Path} (h : Derives ts p) {rest : List Token}
    (hdot : rest.head? ≠ some .dot) : read (ts ++ rest) = .ok (p, rest) := by
  induction h with
  | single h =>
      rw [List.singleton_append, read_segment h, readMore_stop hdot]
      rfl
  | more h _ ih =>
      rw [List.cons_append, List.cons_append, read_segment h, readMore_dot, ih]
      rfl

/-- What is read as a path is a segment, and further ones after a dot. -/
theorem exists_of_read {ts : List Token} {p : Path} {rest : List Token}
    (h : read ts = .ok (p, rest)) :
    ∃ t s q more, ts = t :: more ∧ t.Segment s ∧ p = s :: q ∧ readMore more = .ok (q, rest) := by
  have step {t : Token} {s : String} {more : List Token} (ht : t.Segment s)
      (h : read (t :: more) = .ok (p, rest)) :
      ∃ q, p = s :: q ∧ readMore more = .ok (q, rest) := by
    rw [read_segment ht] at h
    obtain ⟨⟨q, last⟩, hmore, h⟩ := map_eq_ok h
    obtain ⟨rfl, rfl⟩ := Prod.mk.inj h
    exact ⟨q, rfl, hmore⟩
  fun_cases read ts with
  | case1 s more =>
      obtain ⟨q, hp, hq⟩ := step (.identifier s) h
      exact ⟨_, s, q, more, rfl, .identifier s, hp, hq⟩
  | case2 s more =>
      obtain ⟨q, hp, hq⟩ := step (.name s) h
      exact ⟨_, s, q, more, rfl, .name s, hp, hq⟩
  | case3 => simp_all [read]

/-- What is read as a path is derived. -/
theorem derives_of_read {p : Path} {ts rest : List Token} (h : read ts = .ok (p, rest)) :
    ∃ used, ts = used ++ rest ∧ Derives used p := by
  induction p generalizing ts with
  | nil =>
      obtain ⟨_, s, q, _, _, _, hp, _⟩ := exists_of_read h
      simp at hp
  | cons s p ih =>
      obtain ⟨t, _, q, more, rfl, ht, hp, hmore⟩ := exists_of_read h
      obtain ⟨rfl, rfl⟩ := List.cons.inj hp
      by_cases hdot : more.head? = some .dot
      · obtain ⟨last, rfl⟩ : ∃ last, more = .dot :: last := by
          cases more <;> simp_all
        rw [readMore_dot] at hmore
        obtain ⟨used, rfl, hused⟩ := ih hmore
        exact ⟨t :: .dot :: used, rfl, .more ht hused⟩
      · rw [readMore_stop hdot] at hmore
        obtain ⟨rfl, rfl⟩ : p = [] ∧ more = rest := by simpa [eq_comm] using hmore
        exact ⟨[t], rfl, .single ht⟩

/-- A path begins with a segment. -/
theorem Derives.exists_cons {ts : List Token} {p : Path} (h : Derives ts p) :
    ∃ t s more, ts = t :: more ∧ t.Segment s := by
  cases h with
  | single h => exact ⟨_, _, _, rfl, h⟩
  | more h _ => exact ⟨_, _, _, rfl, h⟩

end Path

namespace Operand

/-- Tokens spell an operand: a path or a placeholder. -/
inductive Derives : List Token → Operand → Prop where
  | path {ts : List Token} {p : Path} (h : Path.Derives ts p) : Derives ts (.path p)
  | value (label : String) : Derives [.value label] (.value label)

/-- An operand is read up to what is no dot. -/
theorem Derives.read_append {ts : List Token} {o : Operand} (h : Derives ts o) {rest : List Token}
    (hdot : rest.head? ≠ some .dot) : read (ts ++ rest) = .ok (o, rest) := by
  cases h with
  | value label => rfl
  | path h =>
      have hpath := h.read_append hdot
      obtain ⟨t, s, more, rfl, ht⟩ := h.exists_cons
      cases ht <;> simp_all [read, Except.map]

/-- What is read as an operand is derived. -/
theorem derives_of_read {o : Operand} {ts rest : List Token} (h : read ts = .ok (o, rest)) :
    ∃ used, ts = used ++ rest ∧ Derives used o := by
  unfold read at h
  split at h
  · rename_i label more
    obtain ⟨rfl, rfl⟩ : Operand.value label = o ∧ more = rest := by simpa using h
    exact ⟨[.value label], rfl, .value label⟩
  · obtain ⟨⟨p, more⟩, hp, h⟩ := map_eq_ok h
    obtain ⟨rfl, rfl⟩ := Prod.mk.inj h
    obtain ⟨used, hts, hused⟩ := Path.derives_of_read hp
    exact ⟨used, hts, .path hused⟩

/-- An operand begins with no `NOT` and no parenthesis. -/
theorem Derives.head_ne {ts : List Token} {o : Operand} (h : Derives ts o) (rest : List Token) :
    (ts ++ rest).head? ≠ some .not ∧ (ts ++ rest).head? ≠ some .leftParen := by
  cases h with
  | value label => simp
  | path h =>
      obtain ⟨t, s, more, rfl, ht⟩ := h.exists_cons
      cases ht <;> simp

end Operand

namespace Condition

/-- A function name without its letter case. -/
def functionName (f : String) : String := String.ofList (f.toList.map Char.toLower)

/-- Tokens spell a function call or a comparison. -/
inductive DerivesSimple : List Token → Condition → Prop where
  | compare (op : Comparison) {ls rs : List Token} {left right : Operand} (hl : left.Derives ls)
      (hr : right.Derives rs) : DerivesSimple (ls ++ .comparison op :: rs) (.compare op left right)
  | between {ss ls hs : List Token} {subject low high : Operand} (hsubject : subject.Derives ss)
      (hlow : low.Derives ls) (hhigh : high.Derives hs) :
      DerivesSimple (ss ++ .between :: (ls ++ .and :: hs)) (.between subject low high)
  | present {f : String} {ts : List Token} {path : Path} (hf : functionName f = "attribute_exists")
      (h : path.Derives ts) :
      DerivesSimple (.identifier f :: .leftParen :: (ts ++ [.rightParen])) (.present path)
  | absent {f : String} {ts : List Token} {path : Path}
      (hf : functionName f = "attribute_not_exists") (h : path.Derives ts) :
      DerivesSimple (.identifier f :: .leftParen :: (ts ++ [.rightParen])) (.absent path)
  | beginsWith {f : String} {ss bs : List Token} {subject beginning : Operand}
      (hf : functionName f = "begins_with") (hs : subject.Derives ss) (hb : beginning.Derives bs) :
      DerivesSimple (.identifier f :: .leftParen :: (ss ++ .comma :: (bs ++ [.rightParen])))
        (.beginsWith subject beginning)

/-- An operand before what is no dot and no parenthesis is the first one of a comparison. -/
theorem readSimple_operand {ls : List Token} {left : Operand} (h : left.Derives ls) {t : Token}
    {more : List Token} (hdot : t ≠ .dot) (hparen : t ≠ .leftParen) :
    readSimple (ls ++ t :: more) = readComparisonAfter left (t :: more) := by
  have hread : Operand.read (ls ++ t :: more) = .ok (left, t :: more) :=
    h.read_append (by simpa using hdot)
  unfold readSimple
  split
  · rename_i f rest hcall
    cases h with
    | value label => simp at hcall
    | path h =>
        cases h with
        | single _ => simp_all
        | more _ _ => simp at hcall
  · rw [hread]
    rfl

/-- A function call or a comparison is read up to what is no dot. -/
theorem DerivesSimple.readSimple_append {ts : List Token} {c : Condition} (h : DerivesSimple ts c)
    {rest : List Token} (hdot : rest.head? ≠ some .dot) :
    readSimple (ts ++ rest) = .ok (c, rest) := by
  cases h with
  | compare op hl hr =>
      rw [List.append_assoc, List.cons_append, readSimple_operand hl (by simp) (by simp),
        readComparisonAfter, hr.read_append hdot]
      rfl
  | @between ss ls hs _ low _ hsubject hlow hhigh =>
      have hread : Operand.read (ls ++ .and :: (hs ++ rest)) = .ok (low, .and :: (hs ++ rest)) :=
        hlow.read_append (by simp)
      rw [List.append_assoc, List.cons_append, List.append_assoc, List.cons_append,
        readSimple_operand hsubject (by simp) (by simp), readComparisonAfter, hread]
      simp [Token.expect, hhigh.read_append hdot, bind, Except.bind, pure, Except.pure]
  | @present f ts path hf h =>
      have hread : Path.read (ts ++ .rightParen :: rest) = .ok (path, .rightParen :: rest) :=
        h.read_append (by simp)
      unfold functionName at hf
      simp [readSimple, readCall, hf, hread, Token.expect, bind, Except.bind, pure, Except.pure]
  | @absent f ts path hf h =>
      have hread : Path.read (ts ++ .rightParen :: rest) = .ok (path, .rightParen :: rest) :=
        h.read_append (by simp)
      unfold functionName at hf
      simp [readSimple, readCall, hf, hread, Token.expect, bind, Except.bind, pure, Except.pure]
  | @beginsWith f ss bs subject beginning hf hs hb =>
      have hbeginning : Operand.read (bs ++ .rightParen :: rest)
          = .ok (beginning, .rightParen :: rest) := hb.read_append (by simp)
      have hsubject : Operand.read (ss ++ .comma :: (bs ++ .rightParen :: rest))
          = .ok (subject, .comma :: (bs ++ .rightParen :: rest)) := hs.read_append (by simp)
      unfold functionName at hf
      simp [readSimple, readCall, hf, hsubject, hbeginning, Token.expect, bind, Except.bind, pure,
        Except.pure]

/-- What is read as the arguments of a function is derived. -/
theorem derives_of_readCall {f : String} {ts : List Token} {c : Condition} {rest : List Token}
    (h : readCall f ts = .ok (c, rest)) :
    ∃ used, ts = used ++ rest ∧ DerivesSimple (.identifier f :: .leftParen :: used) c := by
  unfold readCall at h
  split at h
  · rename_i hf
    obtain ⟨⟨path, more⟩, hp, h⟩ := bind_eq_ok h
    obtain ⟨last, hlast, h⟩ := bind_eq_ok h
    obtain ⟨rfl, rfl⟩ : present path = c ∧ last = rest := by simpa using Except.ok.inj h
    obtain ⟨used, rfl, hused⟩ := Path.derives_of_read hp
    obtain rfl := Token.expect_eq_ok_iff.mp hlast
    exact ⟨used ++ [.rightParen], by simp, .present hf hused⟩
  · rename_i hf
    obtain ⟨⟨path, more⟩, hp, h⟩ := bind_eq_ok h
    obtain ⟨last, hlast, h⟩ := bind_eq_ok h
    obtain ⟨rfl, rfl⟩ : absent path = c ∧ last = rest := by simpa using Except.ok.inj h
    obtain ⟨used, rfl, hused⟩ := Path.derives_of_read hp
    obtain rfl := Token.expect_eq_ok_iff.mp hlast
    exact ⟨used ++ [.rightParen], by simp, .absent hf hused⟩
  · rename_i hf
    obtain ⟨⟨subject, more⟩, hs, h⟩ := bind_eq_ok h
    obtain ⟨next, hnext, h⟩ := bind_eq_ok h
    obtain ⟨⟨beginning, more'⟩, hb, h⟩ := bind_eq_ok h
    obtain ⟨last, hlast, h⟩ := bind_eq_ok h
    obtain ⟨rfl, rfl⟩ : beginsWith subject beginning = c ∧ last = rest := by
      simpa using Except.ok.inj h
    obtain ⟨ss, rfl, hss⟩ := Operand.derives_of_read hs
    obtain rfl := Token.expect_eq_ok_iff.mp hnext
    obtain ⟨bs, rfl, hbs⟩ := Operand.derives_of_read hb
    obtain rfl := Token.expect_eq_ok_iff.mp hlast
    exact ⟨ss ++ .comma :: (bs ++ [.rightParen]), by simp, .beginsWith hf hss hbs⟩
  · simp at h

/-- What is read after the first operand of a comparison is derived together with that operand. -/
theorem derives_of_readComparisonAfter {left : Operand} {ls ts : List Token} {c : Condition}
    {rest : List Token} (hls : left.Derives ls) (h : readComparisonAfter left ts = .ok (c, rest)) :
    ∃ used, ts = used ++ rest ∧ DerivesSimple (ls ++ used) c := by
  unfold readComparisonAfter at h
  split at h
  · rename_i op more
    obtain ⟨⟨right, last⟩, hr, h⟩ := bind_eq_ok h
    obtain ⟨rfl, rfl⟩ : compare op left right = c ∧ last = rest := by simpa using Except.ok.inj h
    obtain ⟨rs, rfl, hrs⟩ := Operand.derives_of_read hr
    exact ⟨.comparison op :: rs, rfl, .compare op hls hrs⟩
  · rename_i more
    obtain ⟨⟨low, next⟩, hlow, h⟩ := bind_eq_ok h
    obtain ⟨next, hnext, h⟩ := bind_eq_ok h
    obtain ⟨⟨high, last⟩, hhigh, h⟩ := bind_eq_ok h
    obtain ⟨rfl, rfl⟩ : between left low high = c ∧ last = rest := by simpa using Except.ok.inj h
    obtain ⟨lows, rfl, hlows⟩ := Operand.derives_of_read hlow
    obtain rfl := Token.expect_eq_ok_iff.mp hnext
    obtain ⟨highs, rfl, hhighs⟩ := Operand.derives_of_read hhigh
    exact ⟨.between :: (lows ++ .and :: highs), by simp, .between hls hlows hhighs⟩
  · simp at h

/-- What is read as a function call or a comparison is derived. -/
theorem derives_of_readSimple {ts : List Token} {c : Condition} {rest : List Token}
    (h : readSimple ts = .ok (c, rest)) : ∃ used, ts = used ++ rest ∧ DerivesSimple used c := by
  unfold readSimple at h
  split at h
  · obtain ⟨used, rfl, hused⟩ := derives_of_readCall h
    exact ⟨_, rfl, hused⟩
  · obtain ⟨⟨left, more⟩, hl, hafter⟩ := bind_eq_ok h
    obtain ⟨ls, rfl, hls⟩ := Operand.derives_of_read hl
    obtain ⟨used, rfl, hused⟩ := derives_of_readComparisonAfter hls hafter
    exact ⟨ls ++ used, by simp, hused⟩

/-- A function call or a comparison begins with no `NOT` and no parenthesis. -/
theorem DerivesSimple.head_ne {ts : List Token} {c : Condition} (h : DerivesSimple ts c)
    (rest : List Token) :
    (ts ++ rest).head? ≠ some .not ∧ (ts ++ rest).head? ≠ some .leftParen := by
  cases h with
  | compare op hl hr =>
      rw [List.append_assoc]
      exact hl.head_ne _
  | between hs hl hh =>
      rw [List.append_assoc]
      exact hs.head_ne _
  | present hf h => simp
  | absent hf h => simp
  | beginsWith hf hs hb => simp

/-- The levels of binding, from the tightest to the loosest. -/
inductive Level where
  | member
  | conjunction
  | alternatives
deriving DecidableEq

/-- **The grammar.**  All of the tokens together spell a condition at a level of binding. -/
inductive Derives : Level → List Token → Condition → Prop where
  | simple {ts : List Token} {c : Condition} (h : DerivesSimple ts c) : Derives .member ts c
  | not {ts : List Token} {c : Condition} (h : Derives .member ts c) :
      Derives .member (.not :: ts) (.not c)
  | group {ts : List Token} {c : Condition} (h : Derives .alternatives ts c) :
      Derives .member (.leftParen :: (ts ++ [.rightParen])) c
  | member {ts : List Token} {c : Condition} (h : Derives .member ts c) : Derives .conjunction ts c
  | and {ts us : List Token} {c d : Condition} (hc : Derives .conjunction ts c)
      (hd : Derives .member us d) : Derives .conjunction (ts ++ .and :: us) (.and c d)
  | conjunction {ts : List Token} {c : Condition} (h : Derives .conjunction ts c) :
      Derives .alternatives ts c
  | or {ts us : List Token} {c d : Condition} (hc : Derives .alternatives ts c)
      (hd : Derives .conjunction us d) : Derives .alternatives (ts ++ .or :: us) (.or c d)

/-- The reader of a level takes a condition from the front of the tokens, whatever comes after them
and does not go on with it.  A conjunction or alternatives are then what has been read so far. -/
def ReadsAs : Level → List Token → Condition → Prop
  | .member, ts, c => ∀ rest : List Token, rest.head? ≠ some .dot →
      bare (readNot (ts ++ rest)) = .ok (c, rest)
  | .conjunction, ts, c => ∀ rest : List Token, rest.head? ≠ some .dot →
      bare (readAnd (ts ++ rest)) = bare (readAndMore c rest)
  | .alternatives, ts, c => ∀ rest : List Token, rest.head? ≠ some .dot → rest.head? ≠ some .and →
      bare (readOr (ts ++ rest)) = bare (readOrMore c rest)

/-- **What is derived is read.** -/
theorem Derives.readsAs {level : Level} {ts : List Token} {c : Condition} (h : Derives level ts c) :
    ReadsAs level ts c := by
  induction h with
  | simple h =>
      intro rest hdot
      obtain ⟨hnot, hparen⟩ := h.head_ne rest
      rw [bare_readNot_simple hnot hparen]
      exact h.readSimple_append hdot
  | not _ ih =>
      intro rest hdot
      rw [List.cons_append, bare_readNot_not, ih rest hdot]
      rfl
  | @group ts c _ ih =>
      intro rest _
      have hread : bare (readOr (ts ++ .rightParen :: rest)) = .ok (c, .rightParen :: rest) := by
        rw [ih _ (by simp) (by simp)]
        exact bare_readOrMore_stop (by simp) c
      rw [List.cons_append, List.append_assoc, List.singleton_append, bare_readNot_group, hread]
      rfl
  | member _ ih =>
      intro rest hdot
      rw [bare_readAnd, ih rest hdot]
      rfl
  | and _ _ ihc ihd =>
      intro rest hdot
      rw [List.append_assoc, List.cons_append, ihc _ (by simp), bare_readAndMore_and, ihd rest hdot]
      rfl
  | conjunction _ ih =>
      intro rest hdot hand
      rw [bare_readOr, ih rest hdot, bare_readAndMore_stop hand]
      rfl
  | or _ _ ihc ihd =>
      intro rest hdot hand
      rw [List.append_assoc, List.cons_append, ihc _ (by simp) (by simp), bare_readOrMore_or,
        ihd rest hdot, bare_readAndMore_stop hand]
      rfl

/-- What a reader has taken from the front of the tokens is derived, together with what had been read
before. -/
def Takes (level : Level) (before ts : List Token) (r : Condition × List Token) : Prop :=
  ∃ used, ts = used ++ r.2 ∧ Derives level (before ++ used) r.1

/-- The tokens that a reader leaves have the property that it promises. -/
theorem property_of_bare {P : List Token → Prop}
    {read : Except ExpressionFault (Condition × { rest // P rest })} {r : Condition × List Token}
    (h : bare read = .ok r) : P r.2 := by
  obtain ⟨a, _, rfl⟩ := map_eq_ok h
  exact a.2.property

/-- What each of the readers makes of some tokens is derived. -/
structure Sound (ts : List Token) : Prop where
  member : ∀ {r}, bare (readNot ts) = .ok r → Takes .member [] ts r
  conjunction : ∀ {r}, bare (readAnd ts) = .ok r → Takes .conjunction [] ts r
  moreMembers : ∀ {before c r}, Derives .conjunction before c →
    bare (readAndMore c ts) = .ok r → Takes .conjunction before ts r
  alternatives : ∀ {r}, bare (readOr ts) = .ok r → Takes .alternatives [] ts r
  moreAlternatives : ∀ {before c r}, Derives .alternatives before c →
    bare (readOrMore c ts) = .ok r → Takes .alternatives before ts r

section Soundness

variable {ts : List Token}

/-- A negation, a group or a comparison, if the readers are sound on fewer tokens. -/
theorem takes_member (ih : ∀ us : List Token, us.length < ts.length → Sound us)
    {r : Condition × List Token} (h : bare (readNot ts) = .ok r) : Takes .member [] ts r := by
  by_cases hnot : ts.head? = some .not
  · obtain ⟨us, rfl⟩ : ∃ us, ts = .not :: us := by
      cases ts <;> simp_all
    rw [bare_readNot_not] at h
    obtain ⟨inner, hinner, rfl⟩ := map_eq_ok h
    obtain ⟨used, hus, hused⟩ := (ih us (by simp)).member hinner
    exact ⟨.not :: used, by rw [hus]; rfl, .not hused⟩
  by_cases hparen : ts.head? = some .leftParen
  · obtain ⟨us, rfl⟩ : ∃ us, ts = .leftParen :: us := by
      cases ts <;> simp_all
    rw [bare_readNot_group] at h
    obtain ⟨⟨c, more⟩, hinner, h⟩ := bind_eq_ok h
    obtain ⟨rest, hrest, h⟩ := bind_eq_ok h
    obtain rfl : (c, rest) = r := Except.ok.inj h
    obtain rfl := Token.expect_eq_ok_iff.mp hrest
    obtain ⟨used, hus, hused⟩ := (ih us (by simp)).alternatives hinner
    have hgroup : Derives .member (.leftParen :: (used ++ [.rightParen])) c := .group hused
    exact ⟨_, by simp_all, hgroup⟩
  · rw [bare_readNot_simple hnot hparen] at h
    obtain ⟨used, hts, hused⟩ := derives_of_readSimple h
    exact ⟨used, hts, .simple hused⟩

/-- The further members of a conjunction, if the readers are sound on fewer tokens. -/
theorem takes_moreMembers (ih : ∀ us : List Token, us.length < ts.length → Sound us)
    {before : List Token} {c : Condition} {r : Condition × List Token}
    (hc : Derives .conjunction before c) (h : bare (readAndMore c ts) = .ok r) :
    Takes .conjunction before ts r := by
  by_cases hand : ts.head? = some .and
  · obtain ⟨us, rfl⟩ : ∃ us, ts = .and :: us := by
      cases ts <;> simp_all
    rw [bare_readAndMore_and] at h
    obtain ⟨⟨d, more⟩, hd, hmore⟩ := bind_eq_ok h
    have hless : more.length < us.length := property_of_bare hd
    obtain ⟨used, hus, hused⟩ := (ih us (by simp)).member hd
    obtain ⟨last, hlast, hall⟩ :=
      (ih more (Nat.lt_succ_of_lt hless)).moreMembers (hc.and hused) hmore
    exact ⟨.and :: (used ++ last), by simp_all, by simpa using hall⟩
  · rw [bare_readAndMore_stop hand] at h
    obtain rfl := Except.ok.inj h
    exact ⟨[], rfl, by simpa using hc⟩

/-- The further alternatives, if the readers are sound on fewer tokens. -/
theorem takes_moreAlternatives (ih : ∀ us : List Token, us.length < ts.length → Sound us)
    {before : List Token} {c : Condition} {r : Condition × List Token}
    (hc : Derives .alternatives before c) (h : bare (readOrMore c ts) = .ok r) :
    Takes .alternatives before ts r := by
  by_cases hor : ts.head? = some .or
  · obtain ⟨us, rfl⟩ : ∃ us, ts = .or :: us := by
      cases ts <;> simp_all
    rw [bare_readOrMore_or] at h
    obtain ⟨⟨d, more⟩, hd, hmore⟩ := bind_eq_ok h
    have hless : more.length < us.length := property_of_bare hd
    obtain ⟨used, hus, hused⟩ := (ih us (by simp)).conjunction hd
    obtain ⟨last, hlast, hall⟩ :=
      (ih more (Nat.lt_succ_of_lt hless)).moreAlternatives (hc.or hused) hmore
    exact ⟨.or :: (used ++ last), by simp_all, by simpa using hall⟩
  · rw [bare_readOrMore_stop hor] at h
    obtain rfl := Except.ok.inj h
    exact ⟨[], rfl, by simpa using hc⟩

/-- A conjunction, if its members are sound and the readers are sound on fewer tokens. -/
theorem takes_conjunction (ih : ∀ us : List Token, us.length < ts.length → Sound us)
    {r : Condition × List Token} (h : bare (readAnd ts) = .ok r) : Takes .conjunction [] ts r := by
  rw [bare_readAnd] at h
  obtain ⟨⟨c, more⟩, hc, hmore⟩ := bind_eq_ok h
  have hless : more.length < ts.length := property_of_bare hc
  obtain ⟨used, hts, hused⟩ := takes_member ih hc
  obtain ⟨last, hlast, hall⟩ := (ih more hless).moreMembers (.member hused) hmore
  exact ⟨used ++ last, by simp_all, hall⟩

/-- Alternatives, if conjunctions are sound and the readers are sound on fewer tokens. -/
theorem takes_alternatives (ih : ∀ us : List Token, us.length < ts.length → Sound us)
    {r : Condition × List Token} (h : bare (readOr ts) = .ok r) : Takes .alternatives [] ts r := by
  rw [bare_readOr] at h
  obtain ⟨⟨c, more⟩, hc, hmore⟩ := bind_eq_ok h
  have hless : more.length < ts.length := property_of_bare hc
  obtain ⟨used, hts, hused⟩ := takes_conjunction ih hc
  obtain ⟨last, hlast, hall⟩ := (ih more hless).moreAlternatives (.conjunction hused) hmore
  exact ⟨used ++ last, by simp_all, hall⟩

/-- **What is read is derived.**  The readers call each other on fewer tokens, or on the same ones at
a tighter level. -/
theorem sound (ts : List Token) : Sound ts := by
  induction hn : ts.length using Nat.strongRecOn generalizing ts with
  | ind n ih =>
      subst hn
      replace ih (us : List Token) (h : us.length < ts.length) : Sound us := ih us.length h us rfl
      exact {
        member := takes_member ih
        conjunction := takes_conjunction ih
        moreMembers := takes_moreMembers ih
        alternatives := takes_alternatives ih
        moreAlternatives := takes_moreAlternatives ih }

end Soundness

/-- Demanding the end is met by no tokens only. -/
theorem expectEnd_eq_ok_iff {ts : List Token} : Token.expectEnd ts = .ok () ↔ ts = [] := by
  cases ts <;> simp [Token.expectEnd]

/-- **The reader reads the grammar.**  A list of tokens is read as a condition if and only if it spells
that condition. -/
theorem ofTokens_eq_ok_iff {ts : List Token} {c : Condition} :
    ofTokens ts = .ok c ↔ Derives .alternatives ts c := by
  rw [ofTokens_eq]
  refine ⟨?_, ?_⟩
  · intro h
    obtain ⟨⟨d, rest⟩, hread, h⟩ := bind_eq_ok h
    obtain ⟨⟨⟩, hend, h⟩ := bind_eq_ok h
    obtain rfl := Except.ok.inj h
    obtain rfl := expectEnd_eq_ok_iff.mp hend
    obtain ⟨used, hts, hused⟩ := (sound ts).alternatives hread
    rw [hts, List.append_nil]
    exact hused
  · intro h
    have hread : bare (readOr (ts ++ [])) = .ok (c, []) := by
      rw [h.readsAs [] (by simp) (by simp)]
      exact bare_readOrMore_stop (by simp) c
    rw [List.append_nil] at hread
    rw [hread]
    rfl

/-- **The grammar is unambiguous.** -/
theorem Derives.unique {ts : List Token} {c d : Condition} (hc : Derives .alternatives ts c)
    (hd : Derives .alternatives ts d) : c = d :=
  Except.ok.inj ((ofTokens_eq_ok_iff.mpr hc).symm.trans (ofTokens_eq_ok_iff.mpr hd))

end Condition

end RecordStore
