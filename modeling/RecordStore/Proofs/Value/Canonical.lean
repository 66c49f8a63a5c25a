import Mathlib.Tactic.SplitIfs
import RecordStore.Value.Canonical

/-!
# A canonical text stands for one value

Where the canonical text of a value ends can be told from the text: before a comma, a bracket or a
brace that is not part of it.  So two such texts, each followed by whatever is allowed to follow, are
the same only if their values are, and then the same follows.

Two things could stand in the way and do not.  A quote inside a quotation has a backslash before it, so
the first quote without one ends the quotation; and every value but one names its type first.

* `quoted_append_inj` — a quotation ends by itself;
* `Delimits` — a text that ends before a comma, a bracket or a brace and stands for one thing;
* `delimits_value` — the canonical text of a value is such a text;
* `tuple_injective` — different tuples have different texts.
-/

namespace RecordStore

namespace Canonical

/-- The number that a hexadecimal digit stands for. -/
def hexValue (c : Char) : Nat := if c.isDigit then c.toNat - 48 else c.toNat - 87

/-- The character that a letter after a backslash stands for. -/
def named (c : Char) : Char :=
  if c = 'b' then '\x08'
  else if c = 'f' then '\x0c'
  else if c = 'n' then '\n'
  else if c = 'r' then '\r'
  else if c = 't' then '\t'
  else c

/-- Reads one character of a quotation, and gives what follows it. -/
def unescape : List Char → Option (Char × List Char)
  | '\\' :: 'u' :: '0' :: '0' :: high :: low :: rest =>
    some (Char.ofNat (16 * hexValue high + hexValue low), rest)
  | '\\' :: c :: rest => some (named c, rest)
  | c :: rest => some (c, rest)
  | [] => none

/-- A hexadecimal digit is read back. -/
theorem hexValue_digitChar : ∀ n < 16, hexValue (Nat.digitChar n) = n := by decide

/-- A character of a quotation is read back, whatever follows. -/
theorem unescape_escape (c : Char) (rest : List Char) :
    unescape (escape c ++ rest) = some (c, rest) := by
  unfold escape
  split_ifs with h₁ h₂ h₃ h₄ h₅ h₆ h₇ hcontrol
  -- the characters with a name come first: they are read back by computation
  rotate_left 7
  · have hhigh := hexValue_digitChar (c.toNat / 16) (by omega)
    have hlow := hexValue_digitChar (c.toNat % 16) (by omega)
    have hcode : 16 * (c.toNat / 16) + c.toNat % 16 = c.toNat := Nat.div_add_mod c.toNat 16
    simp only [hexPair, List.cons_append, List.nil_append, unescape, hhigh, hlow, hcode,
      Char.ofNat_toNat]
  · rw [List.singleton_append, unescape.eq_def]
    split <;> simp_all
  all_goals
    subst_vars
    rfl

/-- No character of a quotation looks like its end. -/
theorem escape_eq_cons (c : Char) : ∃ first more, escape c = first :: more ∧ first ≠ '"' := by
  unfold escape
  split_ifs with h₁
  case neg => exact ⟨c, [], rfl, h₁⟩
  all_goals exact ⟨'\\', _, rfl, by decide⟩

/-- A quoted text can be told from what follows it. -/
theorem flatMap_escape_append_inj {cs ds rest rest' : List Char}
    (h : cs.flatMap escape ++ '"' :: rest = ds.flatMap escape ++ '"' :: rest') :
    cs = ds ∧ rest = rest' := by
  induction cs generalizing ds with
  | nil =>
      cases ds with
      | nil => exact ⟨rfl, (List.cons.inj h).2⟩
      | cons d ds =>
          obtain ⟨first, more, hfirst, hne⟩ := escape_eq_cons d
          rw [List.flatMap_cons, hfirst] at h
          exact absurd (List.cons.inj h).1.symm hne
  | cons c cs ih =>
      cases ds with
      | nil =>
          obtain ⟨first, more, hfirst, hne⟩ := escape_eq_cons c
          rw [List.flatMap_cons, hfirst] at h
          exact absurd (List.cons.inj h).1 hne
      | cons d ds =>
          rw [List.flatMap_cons, List.flatMap_cons, List.append_assoc, List.append_assoc] at h
          have hread := congrArg unescape h
          rw [unescape_escape, unescape_escape] at hread
          obtain ⟨rfl, hmore⟩ := Prod.mk.inj (Option.some.inj hread)
          obtain ⟨rfl, hrest⟩ := ih hmore
          exact ⟨rfl, hrest⟩

/-- **A quotation ends by itself**, and stands for one text. -/
theorem quoted_append_inj {s t : String} {rest rest' : List Char}
    (h : quoted s ++ rest = quoted t ++ rest') : s = t ∧ rest = rest' := by
  simp only [quoted, List.cons_append, List.append_assoc, List.nil_append] at h
  obtain ⟨hchars, hrest⟩ := flatMap_escape_append_inj (List.cons.inj h).2
  exact ⟨String.toList_inj.mp hchars, hrest⟩

/-- What can follow a member of a list, an entry of a map or the content of a value. -/
def IsEnd (c : Char) : Prop := c = ',' ∨ c = ']' ∨ c = '\x7d'

section Delimits

variable {α : Type} {text : α → List Char}

/-- The text of something, up to an end, is not the text of anything else up to an end. -/
def Delimits (text : α → List Char) (x : α) : Prop :=
  ∀ (y : α) (c d : Char) (rest rest' : List Char), IsEnd c → IsEnd d →
    text x ++ c :: rest = text y ++ d :: rest' → x = y ∧ c :: rest = d :: rest'

/-- The first character of a text, which is there and does not look like an end. -/
def Opens (text : α → List Char) : Prop := ∀ x, ∃ c more, text x = c :: more ∧ ¬ IsEnd c

/-- What follows the members of a list after its first one, up to the end of the list. -/
theorem commas_cons (first : List Char) (more : List (List Char)) (close : Char)
    (rest : List Char) :
    commas (first :: more) ++ close :: rest =
      first ++ (if more = [] then close :: rest else ',' :: (commas more ++ close :: rest)) := by
  cases more with
  | nil => simp [commas, List.intercalate_singleton]
  | cons second more => simp [commas, List.intercalate_cons_cons]

/-- Members with commas between them, up to the end of the list, stand for one list. -/
theorem commas_append_inj {xs ys : List α} {close : Char} {rest rest' : List Char}
    (hopens : Opens text) (hclose : close = ']' ∨ close = '\x7d') (hxs : ∀ x ∈ xs, Delimits text x)
    (h : commas (xs.map text) ++ close :: rest = commas (ys.map text) ++ close :: rest') :
    xs = ys ∧ rest = rest' := by
  have hend : IsEnd close := .inr hclose
  have hcomma : ',' ≠ close := by rcases hclose with rfl | rfl <;> decide
  -- what follows a member begins with an end, whether it is the last member or not
  have hafter (zs : List α) (rest : List Char) : ∃ c more, IsEnd c ∧
      (if zs.map text = [] then close :: rest else ',' :: (commas (zs.map text) ++ close :: rest))
        = c :: more := by
    cases zs with
    | nil => exact ⟨close, rest, hend, rfl⟩
    | cons z zs => exact ⟨',', _, .inl rfl, rfl⟩
  induction xs generalizing ys with
  | nil =>
      cases ys with
      | nil => exact ⟨rfl, (List.cons.inj h).2⟩
      | cons y ys =>
          obtain ⟨c, more, hc, hopen⟩ := hopens y
          rw [List.map_cons, commas_cons, hc] at h
          exact absurd ((List.cons.inj h).1 ▸ hend) hopen
  | cons x xs ih =>
      cases ys with
      | nil =>
          obtain ⟨c, more, hc, hopen⟩ := hopens x
          rw [List.map_cons, commas_cons, hc] at h
          exact absurd ((List.cons.inj h).1 ▸ hend) hopen
      | cons y ys =>
          rw [List.map_cons, List.map_cons, commas_cons, commas_cons] at h
          obtain ⟨c, more, hc, hcmore⟩ := hafter xs rest
          obtain ⟨d, more', hd, hdmore⟩ := hafter ys rest'
          rw [hcmore, hdmore] at h
          obtain ⟨rfl, hrest⟩ := hxs x List.mem_cons_self _ _ _ _ _ hc hd h
          rw [← hcmore, ← hdmore] at hrest
          cases xs with
          | nil =>
              cases ys with
              | nil => exact ⟨rfl, (List.cons.inj hrest).2⟩
              | cons z zs => exact absurd (List.cons.inj hrest).1.symm hcomma
          | cons w ws =>
              cases ys with
              | nil => exact absurd (List.cons.inj hrest).1 hcomma
              | cons z zs =>
                  obtain ⟨htail, hrest⟩ :=
                    ih (fun v hv => hxs v (List.mem_cons_of_mem _ hv)) (List.cons.inj hrest).2
                  exact ⟨by rw [htail], hrest⟩

/-- A list between brackets stands for one list. -/
theorem bracketed_append_inj {xs ys : List α} {rest rest' : List Char} (hopens : Opens text)
    (hxs : ∀ x ∈ xs, Delimits text x)
    (h : bracketed (xs.map text) ++ rest = bracketed (ys.map text) ++ rest') :
    xs = ys ∧ rest = rest' := by
  simp only [bracketed, List.cons_append, List.append_assoc, List.nil_append] at h
  exact commas_append_inj hopens (.inl rfl) hxs (List.cons.inj h).2

end Delimits

/-- A content under the name of its type gives the name and the content, up to its end. -/
theorem tagged_append_inj {type type' : String} {content content' rest rest' : List Char}
    (h : tagged type content ++ rest = tagged type' content' ++ rest') :
    type = type' ∧ content ++ '\x7d' :: rest = content' ++ '\x7d' :: rest' := by
  simp only [tagged, List.cons_append, List.append_assoc, List.nil_append] at h
  obtain ⟨rfl, hcontent⟩ := quoted_append_inj (List.cons.inj h).2
  exact ⟨rfl, (List.cons.inj hcontent).2⟩

/-- The digits of a byte. -/
def byteDigits (b : UInt8) : List Char := Nat.toDigits 10 b.toNat

/-- A byte begins with a digit. -/
theorem opens_byteDigits : Opens byteDigits := by
  intro b
  cases h : byteDigits b with
  | nil => exact absurd h (Nat.toDigits_ne_nil)
  | cons c more =>
      refine ⟨c, more, rfl, ?_⟩
      have hdigit : c.isDigit = true :=
        Nat.isDigit_of_mem_toDigits (by decide) (by decide) (show c ∈ byteDigits b by simp [h])
      rintro (rfl | rfl | rfl) <;> exact absurd hdigit (by decide)

/-- The digits of a byte end before what is no digit. -/
theorem delimits_byteDigits (b : UInt8) : Delimits byteDigits b := by
  intro b' c d rest rest' hc hd h
  have hdigits (x : UInt8) : ∀ e ∈ byteDigits x, e.isDigit = true := fun e he =>
    Nat.isDigit_of_mem_toDigits (by decide) (by decide) he
  have hend {e : Char} (he : IsEnd e) : e.isDigit = false := by
    rcases he with rfl | rfl | rfl <;> decide
  have htake (x : UInt8) {e : Char} (he : IsEnd e) (more : List Char) :
      (byteDigits x ++ e :: more).takeWhile Char.isDigit = byteDigits x := by
    rw [List.takeWhile_append_of_pos (hdigits x), List.takeWhile_cons, hend he]
    simp
  have hsame : byteDigits b = byteDigits b' := by
    rw [← htake b hc rest, h, htake b' hd rest']
  have hnat : b.toNat = b'.toNat := by
    have hvalue := congrArg (Nat.ofDigitChars 10 · 0) hsame
    simpa [byteDigits, Nat.ofDigitChars_ten_toDigits] using hvalue
  obtain rfl := UInt8.toNat_inj.mp hnat
  exact ⟨rfl, List.append_cancel_left h⟩

/-- The name of the type of a value. -/
def typeName : Value → String
  | .number _ => "N"
  | .string _ => "S"
  | .bytes _ => "B"
  | .bool _ => "Bool"
  | .null => "Null"
  | .list _ => "L"
  | .map _ => "M"

/-- The text of one entry of a map. -/
def entry (e : String × Value) : List Char := quoted e.1 ++ ':' :: value e.2

/-- The texts of several values, one by one. -/
theorem values_eq_map (vs : List Value) : values vs = vs.map value := by
  induction vs with
  | nil => rfl
  | cons v vs ih => rw [values, ih, List.map_cons]

/-- The texts of several entries, one by one. -/
theorem entries_eq_map (es : List (String × Value)) : entries es = es.map entry := by
  induction es with
  | nil => rfl
  | cons e es ih => rw [entries, ih, List.map_cons, entry]

/-- The text of a value after the name of its type. -/
def content : Value → List Char
  | .number s => quoted s
  | .string s => quoted s
  | .bytes b => bracketed (b.map byteDigits)
  | .bool b => (if b then "true" else "false").toList
  | .null => []
  | .list xs => bracketed (xs.map value)
  | .map ⟨es⟩ => '\x7b' :: commas (es.map entry) ++ ['\x7d']

/-- Every value but one is its content under the name of its type. -/
theorem value_eq (v : Value) :
    value v = if v = .null then quoted "Null" else tagged (typeName v) (content v) := by
  cases v with
  | bytes b => rfl
  | list xs => simp [value, typeName, content, values_eq_map]
  | map d => simp [value, typeName, content, entries_eq_map]
  | _ => simp [value, typeName, content]

/-- A value begins with a character that is no end. -/
theorem opens_value : Opens value := by
  intro v
  rw [value_eq]
  split_ifs with h
  · exact ⟨'"', _, rfl, by simp [IsEnd]⟩
  · exact ⟨'\x7b', _, rfl, by simp [IsEnd]⟩

/-- So does an entry. -/
theorem opens_entry : Opens entry := fun e => ⟨'"', _, rfl, by simp [IsEnd]⟩

/-- An entry ends where its value ends. -/
theorem delimits_entry {e : String × Value} (h : Delimits value e.2) : Delimits entry e := by
  rintro ⟨n, v⟩ c d rest rest' hc hd heq
  simp only [entry, List.append_assoc, List.cons_append] at heq
  obtain ⟨hname, hvalue⟩ := quoted_append_inj heq
  obtain ⟨hv, hrest⟩ := h _ _ _ _ _ hc hd (List.cons.inj hvalue).2
  exact ⟨Prod.ext hname hv, hrest⟩

/-- The contents of values of one type end by themselves, if the texts inside them do. -/
theorem content_append_inj {v w : Value} (htype : typeName v = typeName w) {rest rest' : List Char}
    (hlist : ∀ xs, v = .list xs → ∀ x ∈ xs, Delimits value x)
    (hmap : ∀ es, v = .map ⟨es⟩ → ∀ e ∈ es, Delimits value e.2)
    (h : content v ++ '\x7d' :: rest = content w ++ '\x7d' :: rest') : v = w ∧ rest = rest' := by
  cases v with
  | number s =>
      cases w with
      | number t =>
          obtain ⟨rfl, hrest⟩ := quoted_append_inj h
          exact ⟨rfl, (List.cons.inj hrest).2⟩
      | _ => simp [typeName] at htype
  | string s =>
      cases w with
      | string t =>
          obtain ⟨rfl, hrest⟩ := quoted_append_inj h
          exact ⟨rfl, (List.cons.inj hrest).2⟩
      | _ => simp [typeName] at htype
  | bytes b =>
      cases w with
      | bytes b' =>
          obtain ⟨rfl, hrest⟩ :=
            bracketed_append_inj opens_byteDigits (fun x _ => delimits_byteDigits x) h
          exact ⟨rfl, (List.cons.inj hrest).2⟩
      | _ => simp [typeName] at htype
  | bool b =>
      cases w with
      | bool b' => cases b <;> cases b' <;> simp_all [content]
      | _ => simp [typeName] at htype
  | null =>
      cases w with
      | null => exact ⟨rfl, (List.cons.inj h).2⟩
      | _ => simp [typeName] at htype
  | list xs =>
      cases w with
      | list ys =>
          obtain ⟨rfl, hrest⟩ := bracketed_append_inj opens_value (hlist xs rfl) h
          exact ⟨rfl, (List.cons.inj hrest).2⟩
      | _ => simp [typeName] at htype
  | map d =>
      cases w with
      | map d' =>
          obtain ⟨es⟩ := d
          obtain ⟨es'⟩ := d'
          simp only [content, List.cons_append, List.append_assoc, List.nil_append] at h
          obtain ⟨rfl, hrest⟩ := commas_append_inj opens_entry (.inr rfl)
            (fun e he => delimits_entry (hmap es rfl e he)) (List.cons.inj h).2
          exact ⟨rfl, (List.cons.inj hrest).2⟩
      | _ => simp [typeName] at htype

/-- A value whose content ends by itself ends by itself. -/
theorem delimits_of_content {v : Value} (hlist : ∀ xs, v = .list xs → ∀ x ∈ xs, Delimits value x)
    (hmap : ∀ es, v = .map ⟨es⟩ → ∀ e ∈ es, Delimits value e.2) : Delimits value v := by
  intro w c d rest rest' _ _ h
  rw [value_eq, value_eq] at h
  split_ifs at h with hv hw hw
  · exact ⟨by rw [hv, hw], (quoted_append_inj h).2⟩
  · exact absurd (List.cons.inj h).1 (by decide)
  · exact absurd (List.cons.inj h).1 (by decide)
  · obtain ⟨htype, hcontent⟩ := tagged_append_inj h
    exact content_append_inj htype hlist hmap hcontent

mutual

/-- **The canonical text of a value ends by itself** and stands for that value alone. -/
theorem delimits_value : ∀ v : Value, Delimits value v
  | .list xs => delimits_of_content
      (by rintro _ ⟨⟩; exact delimits_values xs) (by rintro _ ⟨⟩)
  | .map ⟨es⟩ => delimits_of_content
      (by rintro _ ⟨⟩) (by rintro _ ⟨⟩; exact delimits_entries es)
  | .number _ => delimits_of_content (by rintro _ ⟨⟩) (by rintro _ ⟨⟩)
  | .string _ => delimits_of_content (by rintro _ ⟨⟩) (by rintro _ ⟨⟩)
  | .bytes _ => delimits_of_content (by rintro _ ⟨⟩) (by rintro _ ⟨⟩)
  | .bool _ => delimits_of_content (by rintro _ ⟨⟩) (by rintro _ ⟨⟩)
  | .null => delimits_of_content (by rintro _ ⟨⟩) (by rintro _ ⟨⟩)

theorem delimits_values : ∀ xs : List Value, ∀ x ∈ xs, Delimits value x
  | [], _, h => absurd h List.not_mem_nil
  | y :: ys, x, h =>
    (List.mem_cons.mp h).elim (fun hx => hx ▸ delimits_value y) (delimits_values ys x)

theorem delimits_entries : ∀ es : List (String × Value), ∀ e ∈ es, Delimits value e.2
  | [], _, h => absurd h List.not_mem_nil
  | (_, v) :: es, e, h =>
    (List.mem_cons.mp h).elim (fun he => he ▸ delimits_value v) (delimits_entries es e)

end

/-- **Different tuples have different texts.** -/
theorem tuple_injective {vs ws : List Value} (h : tuple vs = tuple ws) : vs = ws := by
  have hchars := String.ofList_inj.mp h
  rw [values_eq_map, values_eq_map] at hchars
  have hnil : bracketed (vs.map value) ++ [] = bracketed (ws.map value) ++ [] := by
    rw [List.append_nil, List.append_nil, hchars]
  exact (bracketed_append_inj opens_value (fun v _ => delimits_value v) hnil).1

end Canonical

end RecordStore
