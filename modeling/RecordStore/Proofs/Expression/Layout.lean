import RecordStore.Expression.ConditionReading
import RecordStore.Proofs.Expression.Spelling

/-!
# Tokens laid out in a text

Which texts have which tokens, said without an order of reading.  `LaidOut ts cs` says that the
characters are the spellings of the tokens one after the other, with blanks before and between them; a
blank may be missing where the next character would not go on with the token before it.

The key fact is that a text is read as tokens exactly if they are laid out in it, `scan_eq_ok_iff`.  So
a text has one list of tokens at most, and nothing in it is passed over but blanks.

* `Token.Lexeme`, `Token.takes` — how a token is spelled, and which characters would go on with it;
* `Token.Lexeme.completes` — every spelling of a token is read as the token;
* `Token.laidOut_of_scanFrom` — what is read is laid out.  The induction is on the characters, and it
  carries the lexeme that is pending;
* `Token.scanFrom_of_laidOut` — what is laid out is read.  The induction is on the layout;
* `Token.Pending.Reads` — what characters are read as: the beginning of a lexeme, or a whole token.
-/

namespace RecordStore

namespace Token

/-- The spellings of a token: a keyword may be in any letter case. -/
def Lexeme : Token → List Char → Prop
  | .and, cs => cs.map Char.toUpper = ['A', 'N', 'D']
  | .or, cs => cs.map Char.toUpper = ['O', 'R']
  | .not, cs => cs.map Char.toUpper = ['N', 'O', 'T']
  | .between, cs => cs.map Char.toUpper = ['B', 'E', 'T', 'W', 'E', 'E', 'N']
  | .set, cs => cs.map Char.toUpper = ['S', 'E', 'T']
  | .identifier word, cs => IsIdentifier word ∧ cs = word.toList
  | .name label, cs => IsLabel '#' label ∧ cs = label.toList
  | .value label, cs => IsLabel ':' label ∧ cs = label.toList
  | .comparison op, cs => cs = op.text.toList
  | .plus, cs => cs = ['+']
  | .minus, cs => cs = ['-']
  | .leftParen, cs => cs = ['(']
  | .rightParen, cs => cs = [')']
  | .comma, cs => cs = [',']
  | .dot, cs => cs = ['.']

/-- A token that can be spelled: the words and labels in it are words and labels. -/
def Spelled (t : Token) : Prop := ∃ lexeme, t.Lexeme lexeme

/-- Whether a character right after a token would be taken for a part of it. -/
def takes : Token → Char → Bool
  | .and, c | .or, c | .not, c | .between, c | .set, c | .identifier _, c | .name _, c | .value _, c =>
    Text.isWordChar c
  | .comparison .lessThan, c => c = '>' || c = '='
  | .comparison .greaterThan, c => c = '='
  | .comparison _, _ | .plus, _ | .minus, _ | .leftParen, _ | .rightParen, _ | .comma, _ | .dot, _ =>
    false

/-- **Tokens laid out as a text**: their spellings, with blanks before and between them and at the end.
What follows a token must not go on with it. -/
inductive LaidOut : List Token → List Char → Prop where
  | nil {blanks : List Char} (h : ∀ c ∈ blanks, Text.isBlank c) : LaidOut [] blanks
  | cons {t : Token} {ts : List Token} {blanks lexeme rest : List Char}
      (hblanks : ∀ c ∈ blanks, Text.isBlank c) (hlexeme : t.Lexeme lexeme)
      (hends : ∀ c ∈ rest.head?, t.takes c = false) (hrest : LaidOut ts rest) :
      LaidOut (t :: ts) (blanks ++ lexeme ++ rest)

/-- A letter is one in either case. -/
theorem isAsciiLetter_of_toUpper {c : Char} (h : Text.isAsciiLetter c.toUpper.toNat) :
    Text.isAsciiLetter c.toNat := by
  unfold Char.toUpper at h
  split at h
  · rename_i hlower
    have hfrom : 97 ≤ c.toNat := hlower.1
    have hto : c.toNat ≤ 122 := hlower.2
    simp [Text.isAsciiLetter]
    omega
  · exact h

/-- A word of letters in any case is a word. -/
theorem isWord_of_toUpper {capitals : List Char} (hne : capitals ≠ [])
    (hletters : capitals.all fun c => Text.isAsciiLetter c.toNat) {cs : List Char}
    (h : cs.map Char.toUpper = capitals) :
    ∃ c ds, cs = c :: ds ∧ Text.isWordStart c ∧ ∀ d ∈ ds, Text.isWordChar d := by
  have hall : ∀ c ∈ cs, Text.isAsciiLetter c.toNat := by
    intro c hc
    refine isAsciiLetter_of_toUpper (List.all_eq_true.mp hletters _ ?_)
    rw [← h]
    exact List.mem_map_of_mem hc
  have hplain : ∀ c ∈ cs, Text.isPlain c := by
    intro c hc
    simp [Text.isPlain, hall c hc]
  cases cs with
  | nil => exact absurd h.symm hne
  | cons c ds =>
      have hc := hall c List.mem_cons_self
      have hpoint := Text.toNat_lt_of_isPlain (hplain c List.mem_cons_self)
      refine ⟨c, ds, rfl, ?_, ?_⟩
      · simp [Text.isWordStart, Text.isLetter, hpoint, hc]
      · intro d hd
        exact Text.isWordChar_of_isPlain (hplain d (List.mem_cons_of_mem _ hd))

/-- A word is a keyword in any letter case, or itself. -/
theorem ofWord_cases (cs : List Char) :
    let token := ofWord (String.ofList cs)
    let capitals := cs.map Char.toUpper
    (token = .and ∧ capitals = ['A', 'N', 'D']) ∨ (token = .or ∧ capitals = ['O', 'R']) ∨
      (token = .not ∧ capitals = ['N', 'O', 'T']) ∨
      (token = .between ∧ capitals = ['B', 'E', 'T', 'W', 'E', 'E', 'N']) ∨
      (token = .set ∧ capitals = ['S', 'E', 'T']) ∨ token = .identifier (String.ofList cs) := by
  intro token capitals
  have hcapitals : ∀ {letters : List Char},
      String.ofList ((String.ofList cs).toList.map Char.toUpper) = String.ofList letters →
        capitals = letters := by
    intro letters h
    rw [String.toList_ofList] at h
    exact String.ofList_injective h
  simp only [token, ofWord]
  split
  · exact .inl ⟨rfl, hcapitals ‹_›⟩
  · exact .inr (.inl ⟨rfl, hcapitals ‹_›⟩)
  · exact .inr (.inr (.inl ⟨rfl, hcapitals ‹_›⟩))
  · exact .inr (.inr (.inr (.inl ⟨rfl, hcapitals ‹_›⟩)))
  · exact .inr (.inr (.inr (.inr (.inl ⟨rfl, hcapitals ‹_›⟩))))
  · exact .inr (.inr (.inr (.inr (.inr rfl))))

/-- **A word is spelled as it is**, and any word character would go on with it. -/
theorem lexeme_ofWord {c : Char} {cs : List Char} (hc : Text.isWordStart c)
    (hcs : ∀ d ∈ cs, Text.isWordChar d) :
    (ofWord (String.ofList (c :: cs))).Lexeme (c :: cs) ∧
      (ofWord (String.ofList (c :: cs))).takes = Text.isWordChar := by
  rcases ofWord_cases (c :: cs) with ⟨h, hcapitals⟩ | ⟨h, hcapitals⟩ | ⟨h, hcapitals⟩ |
    ⟨h, hcapitals⟩ | ⟨h, hcapitals⟩ | h <;> rw [h]
  · exact ⟨hcapitals, rfl⟩
  · exact ⟨hcapitals, rfl⟩
  · exact ⟨hcapitals, rfl⟩
  · exact ⟨hcapitals, rfl⟩
  · exact ⟨hcapitals, rfl⟩
  · exact ⟨⟨⟨c, cs, hc, hcs, rfl, h⟩, String.toList_ofList.symm⟩, rfl⟩

/-- **A label is spelled as it is**, and any word character would go on with it. -/
theorem lexeme_ofLabel {sigil : Char} (hs : sigil = '#' ∨ sigil = ':') {letters : List Char}
    (hne : letters ≠ []) (hw : ∀ c ∈ letters, Text.isWordChar c) :
    (ofLabel sigil letters).Lexeme (sigil :: letters) ∧
      (ofLabel sigil letters).takes = Text.isWordChar := by
  have hlabel : IsLabel sigil (String.ofList (sigil :: letters)) := ⟨letters, hne, hw, rfl⟩
  rcases hs with rfl | rfl
  · exact ⟨⟨hlabel, String.toList_ofList.symm⟩, rfl⟩
  · exact ⟨⟨hlabel, String.toList_ofList.symm⟩, rfl⟩

/-- Characters are read as one token, once a character comes that does not go on with it. -/
def Completes (cs : List Char) (t : Token) : Prop :=
  ∃ tokens p done, Pending.idle.run cs = .ok (tokens, p) ∧ p.finish = .ok done ∧
    tokens ++ done = [t] ∧ ∀ d, t.takes d = false → p.extend? d = none

theorem completes_word {c : Char} {cs : List Char} (hc : Text.isWordStart c)
    (hcs : ∀ d ∈ cs, Text.isWordChar d) : Completes (c :: cs) (ofWord (String.ofList (c :: cs))) := by
  refine ⟨[], .word (cs.reverse ++ [c]), _, ?_, rfl, ?_, ?_⟩
  · simp [Pending.run, Pending.step, Pending.extend?, Pending.finish, Pending.start_word hc,
      Pending.run_word hcs, bind, Except.bind, pure, Except.pure]
  · simp
  · intro d hd
    rw [(lexeme_ofWord hc hcs).2] at hd
    simp [Pending.extend?, hd]

theorem completes_label {sigil : Char} (hs : sigil = '#' ∨ sigil = ':') {letters : List Char}
    (hne : letters ≠ []) (hw : ∀ c ∈ letters, Text.isWordChar c) :
    Completes (sigil :: letters) (ofLabel sigil letters) := by
  refine ⟨[], .label sigil letters.reverse, [ofLabel sigil letters], ?_, ?_, rfl, ?_⟩
  · simp [Pending.run, Pending.step, Pending.extend?, Pending.finish, Pending.start_sigil hs,
      Pending.run_label sigil hw, bind, Except.bind, pure, Except.pure]
  · simp [Pending.finish, hne]
  · intro d hd
    rw [(lexeme_ofLabel hs hne hw).2] at hd
    simp [Pending.extend?, hd]

/-- A keyword is read in any letter case. -/
theorem completes_keyword {cs capitals : List Char} {t : Token} (h : cs.map Char.toUpper = capitals)
    (hne : capitals ≠ []) (hletters : capitals.all fun c => Text.isAsciiLetter c.toNat)
    (ht : ofWord (String.ofList cs) = t) : Completes cs t := by
  obtain ⟨c, ds, rfl, hc, hds⟩ := isWord_of_toUpper hne hletters h
  rw [← ht]
  exact completes_word hc hds

/-- A sign is read by itself, whatever comes after it. -/
theorem completes_sign {cs : List Char} {t : Token} (h : Pending.idle.run cs = .ok ([t], .idle)) :
    Completes cs t :=
  ⟨[t], .idle, [], h, rfl, rfl, fun _ _ => rfl⟩

/-- **Every spelling of a token is read as the token.** -/
theorem Lexeme.completes {t : Token} {cs : List Char} (h : t.Lexeme cs) : Completes cs t := by
  have hkeyword : ∀ {capitals : List Char}, cs.map Char.toUpper = capitals →
      String.ofList ((String.ofList cs).toList.map Char.toUpper) = String.ofList capitals := by
    intro capitals h
    rw [String.toList_ofList, h]
  cases t with
  | and => exact completes_keyword h (by simp) rfl (by rw [ofWord, hkeyword h]; rfl)
  | or => exact completes_keyword h (by simp) rfl (by rw [ofWord, hkeyword h]; rfl)
  | not => exact completes_keyword h (by simp) rfl (by rw [ofWord, hkeyword h]; rfl)
  | between => exact completes_keyword h (by simp) rfl (by rw [ofWord, hkeyword h]; rfl)
  | set => exact completes_keyword h (by simp) rfl (by rw [ofWord, hkeyword h]; rfl)
  | identifier word =>
      obtain ⟨⟨c, ds, hc, hds, rfl, hword⟩, rfl⟩ := h
      rw [← hword, String.toList_ofList]
      exact completes_word hc hds
  | name label =>
      obtain ⟨⟨letters, hne, hw, rfl⟩, rfl⟩ := h
      rw [String.toList_ofList]
      exact completes_label (.inl rfl) hne hw
  | value label =>
      obtain ⟨⟨letters, hne, hw, rfl⟩, rfl⟩ := h
      rw [String.toList_ofList]
      exact completes_label (.inr rfl) hne hw
  | comparison op =>
      obtain rfl : cs = op.text.toList := h
      cases op with
      | lessThan =>
          refine ⟨[], .less, _, rfl, rfl, rfl, ?_⟩
          intro d hd
          simp only [takes, Bool.or_eq_false_iff, decide_eq_false_iff_not] at hd
          simp [Pending.extend?, hd]
      | greaterThan =>
          refine ⟨[], .greater, _, rfl, rfl, rfl, ?_⟩
          intro d hd
          simp only [takes, decide_eq_false_iff_not] at hd
          simp [Pending.extend?, hd]
      | _ => exact completes_sign rfl
  | _ =>
      obtain rfl := h
      exact completes_sign rfl

/-- At the end of the text, what is pending ends. -/
theorem scanFrom_nil (p : Pending) : scanFrom p [] = p.finish := by
  cases h : p.finish <;>
    simp [scanFrom, Pending.run, h, bind, Except.bind, pure, Except.pure]

theorem scanFrom_cons (p : Pending) (c : Char) (cs : List Char) :
    scanFrom p (c :: cs) = (do
      let (tokens, next) ← p.step c
      let more ← scanFrom next cs
      return tokens ++ more) := by
  rw [← List.singleton_append, scanFrom_append, Pending.run]
  cases p.step c with
  | error e => rfl
  | ok r => simp [Pending.run, bind, Except.bind, pure, Except.pure]

/-- **A character that does not go on with a lexeme** begins the next one. -/
theorem scanFrom_of_ends {p : Pending} {done : List Token} (hdone : p.finish = .ok done)
    {rest : List Char} (hends : ∀ c ∈ rest.head?, p.extend? c = none) :
    scanFrom p rest = (scanFrom .idle rest).map (done ++ ·) := by
  cases rest with
  | nil =>
      rw [scanFrom_nil, scanFrom_nil, hdone]
      simp [Pending.finish, Except.map]
  | cons c cs =>
      have hnone : p.extend? c = none := hends c rfl
      rw [scanFrom_cons, scanFrom_cons, Pending.step, Pending.step, hnone, hdone]
      cases Pending.start c with
      | error e => simp [Pending.extend?, Pending.finish, bind, Except.bind, Except.map]
      | ok r =>
          obtain ⟨tokens, next⟩ := r
          cases hmore : scanFrom next cs <;>
            simp [hmore, Pending.extend?, Pending.finish, bind, Except.bind, pure, Except.pure,
              Except.map]

/-- A token that is spelled is read, and then the rest. -/
theorem Lexeme.scanFrom_append {t : Token} {cs rest : List Char} (h : t.Lexeme cs)
    (hends : ∀ c ∈ rest.head?, t.takes c = false) :
    scanFrom .idle (cs ++ rest) = (scanFrom .idle rest).map (t :: ·) := by
  obtain ⟨tokens, p, done, hrun, hdone, htoken, hnone⟩ := h.completes
  rw [Token.scanFrom_append, hrun]
  simp only [bind, Except.bind]
  rw [scanFrom_of_ends hdone fun c hc => hnone c (hends c hc)]
  cases Token.scanFrom .idle rest with
  | error e => rfl
  | ok ts =>
      simp only [Except.map, pure, Except.pure]
      rw [← List.append_assoc, htoken]
      rfl

/-- Blanks are passed over. -/
theorem scanFrom_blanks {blanks : List Char} (h : ∀ c ∈ blanks, Text.isBlank c) (cs : List Char) :
    scanFrom .idle (blanks ++ cs) = scanFrom .idle cs := by
  induction blanks with
  | nil => rfl
  | cons c blanks ih =>
      have hc := Pending.step_of_isBlank (p := .idle) (h c List.mem_cons_self)
      rw [List.cons_append, scanFrom_cons, hc]
      simp only [Pending.finish, Except.map, bind, Except.bind]
      rw [ih fun d hd => h d (List.mem_cons_of_mem _ hd)]
      cases scanFrom .idle cs <;> rfl

/-- **What is laid out is read.** -/
theorem scanFrom_of_laidOut {ts : List Token} {cs : List Char} (h : LaidOut ts cs) :
    scanFrom .idle cs = .ok ts := by
  induction h with
  | @nil blanks h =>
      have hblanks := scanFrom_blanks h []
      rw [List.append_nil] at hblanks
      rw [hblanks]
      rfl
  | cons hblanks hlexeme hends _ ih =>
      rw [List.append_assoc, scanFrom_blanks hblanks, hlexeme.scanFrom_append hends, ih]
      rfl

namespace Pending

/-- The characters that have been read of a lexeme. -/
def chars : Pending → List Char
  | .idle => []
  | .word letters => letters.reverse
  | .label sigil letters => sigil :: letters.reverse
  | .less => ['<']
  | .greater => ['>']

/-- What is pending is the beginning of a lexeme. -/
def Begins : Pending → Prop
  | .word letters =>
    ∃ c cs, letters.reverse = c :: cs ∧ Text.isWordStart c ∧ ∀ d ∈ cs, Text.isWordChar d
  | .label sigil letters => (sigil = '#' ∨ sigil = ':') ∧ ∀ c ∈ letters, Text.isWordChar c
  | .idle | .less | .greater => True

/-- What characters are read as: the beginning of a lexeme, or a token that nothing goes on with. -/
inductive Reads (cs : List Char) : List Token → Pending → Prop where
  | pending {p : Pending} (hp : p.Begins) (hchars : p.chars = cs) : Reads cs [] p
  | token {t : Token} (hlexeme : t.Lexeme cs) (htakes : ∀ d, t.takes d = false) : Reads cs [t] .idle

variable {p next : Pending} {c : Char} {tokens done : List Token}

/-- What ends is nothing, or one token that is spelled by its characters. -/
theorem Begins.finish (hp : p.Begins) (h : p.finish = .ok done) :
    (p = .idle ∧ done = []) ∨ ∃ t, done = [t] ∧ t.Lexeme p.chars ∧
      ∀ c, p.extend? c = none → t.takes c = false := by
  cases p with
  | idle => exact .inl ⟨rfl, (Except.ok.inj h).symm⟩
  | word letters =>
      obtain ⟨c, cs, hletters, hc, hcs⟩ := hp
      obtain rfl := Except.ok.inj h
      obtain ⟨hlexeme, htakes⟩ := lexeme_ofWord hc hcs
      rw [← hletters] at hlexeme htakes
      refine .inr ⟨_, rfl, hlexeme, ?_⟩
      intro d hd
      rw [htakes]
      simpa [extend?] using hd
  | label sigil letters =>
      obtain ⟨hs, hw⟩ := hp
      rw [Pending.finish] at h
      split at h
      · cases h
      · rename_i hne
        obtain rfl := Except.ok.inj h
        have hsome : letters.reverse ≠ [] := by simpa using hne
        have hall : ∀ c ∈ letters.reverse, Text.isWordChar c := by simpa using hw
        obtain ⟨hlexeme, htakes⟩ := lexeme_ofLabel hs hsome hall
        refine .inr ⟨_, rfl, hlexeme, ?_⟩
        intro d hd
        rw [htakes]
        simpa [extend?] using hd
  | less =>
      obtain rfl := Except.ok.inj h
      refine .inr ⟨_, rfl, rfl, ?_⟩
      intro d hd
      by_cases hgt : d = '>' <;> by_cases heq : d = '=' <;> simp_all [extend?, takes]
  | greater =>
      obtain rfl := Except.ok.inj h
      refine .inr ⟨_, rfl, rfl, ?_⟩
      intro d hd
      simpa [extend?, takes] using hd

/-- A character that goes on with a lexeme is added to it, or completes it. -/
theorem Begins.extend (hp : p.Begins) (h : p.extend? c = some (tokens, next)) :
    Reads (p.chars ++ [c]) tokens next := by
  cases p with
  | idle => cases h
  | word letters =>
      obtain ⟨d, ds, hletters, hd, hds⟩ := hp
      rw [extend?] at h
      split at h
      · rename_i hc
        obtain ⟨rfl, rfl⟩ := Prod.mk.inj (Option.some.inj h)
        refine .pending ⟨d, ds ++ [c], ?_, hd, ?_⟩ List.reverse_cons
        · rw [List.reverse_cons, hletters]
          rfl
        · exact List.forall_mem_append.mpr ⟨hds, List.forall_mem_singleton.mpr hc⟩
      · cases h
  | label sigil letters =>
      obtain ⟨hs, hw⟩ := hp
      rw [extend?] at h
      split at h
      · rename_i hc
        obtain ⟨rfl, rfl⟩ := Prod.mk.inj (Option.some.inj h)
        exact .pending ⟨hs, List.forall_mem_cons.mpr ⟨hc, hw⟩⟩ (by simp [chars])
      · cases h
  | less =>
      rw [extend?] at h
      split at h
      · rename_i hc
        obtain ⟨rfl, rfl⟩ := Prod.mk.inj (Option.some.inj h)
        rw [hc]
        exact .token rfl fun _ => rfl
      · split at h
        · rename_i hc
          obtain ⟨rfl, rfl⟩ := Prod.mk.inj (Option.some.inj h)
          rw [hc]
          exact .token rfl fun _ => rfl
        · cases h
  | greater =>
      rw [extend?] at h
      split at h
      · rename_i hc
        obtain ⟨rfl, rfl⟩ := Prod.mk.inj (Option.some.inj h)
        rw [hc]
        exact .token rfl fun _ => rfl
      · cases h

/-- A character that begins something is a blank, or it is read as a sign or the first one of a
lexeme. -/
theorem start_cases (h : start c = .ok (tokens, next)) :
    (Text.isBlank c ∧ tokens = [] ∧ next = .idle) ∨ Reads [c] tokens next := by
  have reads {ts : List Token} {p : Pending} (hstart : start c = .ok (ts, p))
      (hreads : Reads [c] ts p) : Reads [c] tokens next := by
    obtain ⟨rfl, rfl⟩ := Prod.mk.inj (Except.ok.inj (hstart.symm.trans h))
    exact hreads
  by_cases hblank : Text.isBlank c
  · rw [start, if_pos hblank] at h
    obtain ⟨rfl, rfl⟩ := Prod.mk.inj (Except.ok.inj h)
    exact .inl ⟨hblank, rfl, rfl⟩
  by_cases hsigil : c = '#' ∨ c = ':'
  · exact .inr (reads (start_sigil hsigil) (.pending ⟨hsigil, List.forall_mem_nil _⟩ rfl))
  by_cases hword : Text.isWordStart c
  · have hbegins : Begins (.word [c]) := ⟨c, [], rfl, hword, List.forall_mem_nil _⟩
    exact .inr (reads (start_word hword) (.pending hbegins rfl))
  by_cases hopens : c = '<' ∨ c = '>'
  · obtain rfl | rfl := hopens
    · exact .inr (reads rfl (.pending trivial rfl))
    · exact .inr (reads rfl (.pending trivial rfl))
  by_cases hsign : c ∈ ['(', ')', ',', '.', '+', '-', '=']
  · simp only [List.mem_cons, List.not_mem_nil, or_false] at hsign
    rcases hsign with rfl | rfl | rfl | rfl | rfl | rfl | rfl <;>
      exact .inr (reads rfl (.token rfl fun _ => rfl))
  · simp only [not_or] at hopens
    simp only [List.mem_cons, List.not_mem_nil, or_false, not_or] at hsign
    simp [start, hblank, hsigil, hword, hopens, hsign] at h

end Pending

namespace LaidOut

variable {t : Token} {ts : List Token} {cs rest : List Char}

/-- A token in front. -/
theorem cons_lexeme (hlexeme : t.Lexeme cs) (hends : ∀ c ∈ rest.head?, t.takes c = false)
    (h : LaidOut ts rest) : LaidOut (t :: ts) (cs ++ rest) :=
  .cons (List.forall_mem_nil _) hlexeme hends h

/-- Only what can be spelled is laid out. -/
theorem spelled (h : LaidOut ts cs) : ∀ t ∈ ts, t.Spelled := by
  induction h with
  | nil _ => exact List.forall_mem_nil _
  | cons _ hlexeme _ _ ih => exact List.forall_mem_cons.mpr ⟨⟨_, hlexeme⟩, ih⟩

/-- A blank in front. -/
theorem cons_blank {c : Char} (hc : Text.isBlank c) (h : LaidOut ts cs) : LaidOut ts (c :: cs) := by
  cases h with
  | nil hblanks => exact .nil (List.forall_mem_cons.mpr ⟨hc, hblanks⟩)
  | cons hblanks hlexeme hends hrest =>
      exact .cons (List.forall_mem_cons.mpr ⟨hc, hblanks⟩) hlexeme hends hrest

end LaidOut

/-- Tokens laid out behind what is pending are laid out behind the characters that were read. -/
theorem Pending.Reads.laidOut {cs rest : List Char} {tokens more : List Token} {next : Pending}
    (h : Reads cs tokens next) (hmore : next.Begins → LaidOut more (next.chars ++ rest)) :
    LaidOut (tokens ++ more) (cs ++ rest) := by
  cases h with
  | pending hp hchars =>
      rw [← hchars]
      exact hmore hp
  | token hlexeme htakes => exact (hmore trivial).cons_lexeme hlexeme fun d _ => htakes d

/-- **What is read is laid out**, behind what is pending. -/
theorem laidOut_of_scanFrom {p : Pending} (hp : p.Begins) {cs : List Char} {ts : List Token}
    (h : scanFrom p cs = .ok ts) : LaidOut ts (p.chars ++ cs) := by
  have hnil : LaidOut [] [] := .nil (List.forall_mem_nil _)
  have hidle : Pending.idle.Begins := trivial
  induction cs generalizing p ts with
  | nil =>
      rw [scanFrom_nil] at h
      obtain ⟨rfl, rfl⟩ | ⟨t, rfl, hlexeme, _⟩ := hp.finish h
      · exact hnil
      · exact hnil.cons_lexeme hlexeme (by simp)
  | cons c cs ih =>
      rw [scanFrom_cons] at h
      obtain ⟨⟨tokens, next⟩, hstep, h⟩ := Condition.bind_eq_ok h
      obtain ⟨more, hmore, h⟩ := Condition.bind_eq_ok h
      obtain rfl := Except.ok.inj h
      rw [Pending.step] at hstep
      cases hextend : p.extend? c with
      | some r =>
          rw [hextend] at hstep
          obtain rfl := Except.ok.inj hstep
          rw [List.append_cons]
          exact (hp.extend hextend).laidOut fun hnext => ih hnext hmore
      | none =>
          -- what is pending ends, and the character starts afresh behind it
          rw [hextend] at hstep
          obtain ⟨done, hdone, hstep⟩ := Condition.bind_eq_ok hstep
          obtain ⟨⟨own, next'⟩, hstart, hstep⟩ := Condition.bind_eq_ok hstep
          obtain ⟨rfl, rfl⟩ := Prod.mk.inj (Except.ok.inj hstep)
          have hfresh : LaidOut (own ++ more) (c :: cs) := by
            obtain ⟨hblank, rfl, rfl⟩ | hreads := Pending.start_cases hstart
            · exact (ih hidle hmore).cons_blank hblank
            · exact hreads.laidOut fun hnext => ih hnext hmore
          rw [List.append_assoc]
          obtain ⟨rfl, rfl⟩ | ⟨t, rfl, hlexeme, htakes⟩ := hp.finish hdone
          · exact hfresh
          · refine hfresh.cons_lexeme hlexeme ?_
            intro d hd
            obtain rfl := Option.some.inj hd
            exact htakes c hextend

/-- **A text is read as tokens exactly if they are laid out in it.** -/
theorem scan_eq_ok_iff {text : String} {ts : List Token} :
    scan text = .ok ts ↔ LaidOut ts text.toList :=
  ⟨fun h => laidOut_of_scanFrom (p := .idle) trivial h, scanFrom_of_laidOut⟩

end Token

end RecordStore
