import RecordStore.Proofs.Compile.Bindings
import RecordStore.Proofs.Fields

/-!
# What is handed out, and what is written

Compiling a field hands out an alias for each name that the field mentions, unless it has one already,
and a placeholder of its own for each value that the field binds.  What has been handed out is written
into the clause of the field, and nothing else is.

The key notion is `Bindings.Accounts b b' ts names values`: what has been handed out between `b` and
`b'` is just what some tokens need that mention certain names and bind certain values.  Accounts of
parts are put together (`Accounts.append`), so that each clause accounts for its field.

* `Token.aliases`, `Token.placeholders` — the labels among some tokens;
* `Fields.mentioned`, `Fields.bound` — the names and values of some fields;
* `accounts_conditions`, `accounts_actions` — the clause of one field.
-/

namespace RecordStore

namespace Token

/-- The label of a token that is an alias. -/
def alias? : Token → Option String
  | .name label => some label
  | _ => none

/-- The label of a token that is a placeholder. -/
def placeholder? : Token → Option String
  | .value label => some label
  | _ => none

/-- The aliases among some tokens, in their order. -/
def aliases (ts : List Token) : List String := ts.filterMap alias?

/-- The placeholders among some tokens, in their order. -/
def placeholders (ts : List Token) : List String := ts.filterMap placeholder?

variable {ts us vs : List Token}

@[simp] theorem aliases_nil : aliases [] = [] := rfl

@[simp] theorem aliases_cons (t : Token) (ts : List Token) :
    aliases (t :: ts) = t.alias?.toList ++ aliases ts := by
  cases h : t.alias? <;> simp [aliases, h]

@[simp] theorem aliases_append (ts us : List Token) : aliases (ts ++ us) = aliases ts ++ aliases us :=
  List.filterMap_append

@[simp] theorem placeholders_nil : placeholders [] = [] := rfl

@[simp] theorem placeholders_cons (t : Token) (ts : List Token) :
    placeholders (t :: ts) = t.placeholder?.toList ++ placeholders ts := by
  cases h : t.placeholder? <;> simp [placeholders, h]

@[simp] theorem placeholders_append (ts us : List Token) :
    placeholders (ts ++ us) = placeholders ts ++ placeholders us := List.filterMap_append

/-- A path has no placeholders. -/
@[simp] theorem placeholders_path (p : Path) : placeholders p.tokens = [] := by
  have hsegment : ∀ s, (ofSegment s).placeholder? = none := by
    intro s
    unfold ofSegment
    split <;> rfl
  have hdot : Token.dot.placeholder? = none := rfl
  cases p with
  | nil => rfl
  | cons s rest =>
      rw [Path.tokens, placeholders_cons, hsegment]
      induction rest with
      | nil => rfl
      | cons t rest ih => simpa [hsegment, hdot] using ih

/-- Only an alias token has an alias. -/
theorem alias?_eq_some_iff {t : Token} {k : String} : t.alias? = some k ↔ t = .name k := by
  cases t <;> simp [alias?]

/-- The aliases among some tokens are the labels of their alias tokens. -/
theorem mem_aliases_iff {k : String} : k ∈ aliases ts ↔ .name k ∈ ts := by
  simp [aliases, alias?_eq_some_iff]

/-- A placeholder occurs as often as it is among the placeholders. -/
theorem count_placeholders (k : String) : (placeholders ts).count k = ts.count (.value k) := by
  induction ts with
  | nil => rfl
  | cons t ts ih =>
      cases t <;> simp [placeholder?, List.count_cons, ih]

/-- Two lists of tokens use the same labels: the same aliases, and the same placeholders in the same
order. -/
structure SameLabels (ts us : List Token) : Prop where
  aliases : ∀ k, k ∈ Token.aliases ts ↔ k ∈ Token.aliases us
  placeholders : Token.placeholders ts = Token.placeholders us

namespace SameLabels

/-- Tokens have the labels that they have. -/
theorem refl (ts : List Token) : SameLabels ts ts := ⟨fun _ => Iff.rfl, rfl⟩

theorem of_eq (h : ts = us) : SameLabels ts us := h ▸ refl ts

/-- To have the same labels is transitive. -/
theorem trans (h : SameLabels ts us) (h' : SameLabels us vs) : SameLabels ts vs :=
  ⟨fun k => (h.aliases k).trans (h'.aliases k), h.placeholders.trans h'.placeholders⟩

/-- Tokens with the same labels, one after the other, have the same labels together. -/
theorem append {ts' us' : List Token} (h : SameLabels ts us) (h' : SameLabels ts' us') :
    SameLabels (ts ++ ts') (us ++ us') := by
  constructor
  · intro k
    rw [aliases_append, aliases_append, List.mem_append, List.mem_append, h.aliases, h'.aliases]
  · rw [placeholders_append, placeholders_append, h.placeholders, h'.placeholders]

/-- Tokens that are no labels do not count. -/
theorem skip {t : Token} (halias : t.alias? = none) (hplaceholder : t.placeholder? = none) :
    SameLabels ts (t :: ts) :=
  ⟨fun k => by rw [aliases_cons, halias]; rfl, by rw [placeholders_cons, hplaceholder]; rfl⟩

end SameLabels

@[simp] theorem tokens_path (p : Path) : (Operand.path p).tokens = p.tokens := rfl

/-- A path of two segments. -/
theorem sameLabels_pair (s t : String) :
    SameLabels (Path.tokens [s] ++ Path.tokens [t]) (Path.tokens [s, t]) :=
  ⟨fun _ => Iff.rfl, rfl⟩

end Token

/-- The names of the entries that a descriptor of a map lists. -/
def Descriptor.entryNames : Descriptor → List String
  | .nested entries => entries.keys
  | _ => []

/-- The values that a descriptor binds: two for a range or a choice, one for each entry of a map, and
one for any other descriptor. -/
def Descriptor.bound : Descriptor → List Value
  | .equals v | .lessThan v | .lessOrEqual v | .greaterOrEqual v | .beginsWith v | .increment v => [v]
  | .between v w | .either v w => [v, w]
  | .nested entries => entries.values

namespace Fields

/-- The names that occur in some fields: their own, and those of entries of maps. -/
def mentioned (fields : Fields) : List String :=
  fields.entries.flatMap fun e => e.1 :: e.2.entryNames

/-- The values that some fields bind. -/
def bound (fields : Fields) : List Value := fields.entries.flatMap fun e => e.2.bound

end Fields

namespace Bindings

/-- All that has been handed out are labels, and no name has two aliases. -/
structure Sound (b : Bindings) : Prop where
  labelled : b.context.Labelled
  unique : ∀ k k' n, b.names.get? k = some n → b.names.get? k' = some n → k = k'

/-- A name has an alias. -/
def HasAlias (b : Bindings) (n : String) : Prop := ∃ k, b.names.get? k = some n

/-- Where nothing has been handed out all is sound. -/
theorem sound_empty : Bindings.empty.Sound :=
  ⟨labelled_empty, fun k k' n h => by simp [empty] at h⟩

/-- **What is handed out is what is written.**  Between two states, aliases have been handed out for
some names, those without one, and a new placeholder for each of some values; the aliases among some
tokens are those of the names, and the placeholders among them are the new ones, in order. -/
structure Accounts (b b' : Bindings) (ts : List Token) (names : List String) (values : List Value) :
    Prop where
  sound : b'.Sound
  kept : ∀ k n, b.names.get? k = some n → b'.names.get? k = some n
  named : ∀ n, b'.HasAlias n ↔ b.HasAlias n ∨ n ∈ names
  aliases : ∀ k ∈ Token.aliases ts, ∃ n ∈ names, b'.names.get? k = some n
  aliased : ∀ n ∈ names, ∃ k ∈ Token.aliases ts, b'.names.get? k = some n
  entered : ∃ es, Token.placeholders ts = es.map Prod.fst ∧ es.map Prod.snd = values ∧
    b'.values.entries.Perm (b.values.entries ++ es)

namespace Accounts

variable {b b' b'' : Bindings} {ts us : List Token} {names more : List String}
  {values others : List Value}

/-- Nothing is handed out for nothing. -/
theorem nil (hb : b.Sound) : b.Accounts b [] [] [] where
  sound := hb
  kept _ _ h := h
  named n := by simp
  aliases k hk := by cases hk
  aliased n hn := by cases hn
  entered := ⟨[], rfl, rfl, by simp⟩

/-- Accounts of two parts, one after the other. -/
theorem append (h : b.Accounts b' ts names values) (h' : b'.Accounts b'' us more others) :
    b.Accounts b'' (ts ++ us) (names ++ more) (values ++ others) where
  sound := h'.sound
  kept k n hk := h'.kept k n (h.kept k n hk)
  named n := by rw [h'.named, h.named, List.mem_append, or_assoc]
  aliases k hk := by
    rw [Token.aliases_append, List.mem_append] at hk
    rcases hk with hk | hk
    · obtain ⟨n, hn, hkn⟩ := h.aliases k hk
      exact ⟨n, List.mem_append_left _ hn, h'.kept k n hkn⟩
    · obtain ⟨n, hn, hkn⟩ := h'.aliases k hk
      exact ⟨n, List.mem_append_right _ hn, hkn⟩
  aliased n hn := by
    simp only [Token.aliases_append, List.mem_append]
    rcases List.mem_append.mp hn with hn | hn
    · obtain ⟨k, hk, hkn⟩ := h.aliased n hn
      exact ⟨k, .inl hk, h'.kept k n hkn⟩
    · obtain ⟨k, hk, hkn⟩ := h'.aliased n hn
      exact ⟨k, .inr hk, hkn⟩
  entered := by
    obtain ⟨es, hts, hvalues, hperm⟩ := h.entered
    obtain ⟨es', hus, hothers, hperm'⟩ := h'.entered
    refine ⟨es ++ es', ?_, ?_, ?_⟩
    · rw [Token.placeholders_append, List.map_append, hts, hus]
    · rw [List.map_append, hvalues, hothers]
    · rw [← List.append_assoc]
      exact hperm'.trans (hperm.append_right es')

/-- The names count as a set, and of the tokens only the labels count. -/
theorem congr (h : b.Accounts b' ts names values) (hlabels : Token.SameLabels ts us)
    (hnames : ∀ n, n ∈ names ↔ n ∈ more) : b.Accounts b' us more values where
  sound := h.sound
  kept := h.kept
  named n := by rw [h.named, hnames]
  aliases k hk := by
    obtain ⟨n, hn, hkn⟩ := h.aliases k ((hlabels.aliases k).mpr hk)
    exact ⟨n, (hnames n).mp hn, hkn⟩
  aliased n hn := by
    obtain ⟨k, hk, hkn⟩ := h.aliased n ((hnames n).mpr hn)
    exact ⟨k, (hlabels.aliases k).mp hk, hkn⟩
  entered := by
    rw [← hlabels.placeholders]
    exact h.entered

/-- Aliases that are handed out ahead, for names that are mentioned later, need not be written yet. -/
theorem absorb (h : b.Accounts b' ts names []) (h' : b'.Accounts b'' us more values)
    (hsub : ∀ n ∈ names, n ∈ more) : b.Accounts b'' us more values where
  sound := h'.sound
  kept k n hk := h'.kept k n (h.kept k n hk)
  named n := by rw [h'.named, h.named, or_assoc, or_iff_right_of_imp (hsub n)]
  aliases := h'.aliases
  aliased := h'.aliased
  entered := by
    obtain ⟨es, _, hnil, hperm⟩ := h.entered
    obtain rfl := List.map_eq_nil_iff.mp hnil
    obtain ⟨es', hus, hvalues, hperm'⟩ := h'.entered
    rw [List.append_nil] at hperm
    exact ⟨es', hus, hvalues, hperm'.trans (hperm.append_right es')⟩

/-- A list is accounted for member by member. -/
theorem mapM {α β : Type} {f : α → StateM Bindings β} {tokens : β → List Token}
    {names : α → List String} {values : α → List Value} (xs : List α)
    (h : ∀ x ∈ xs, ∀ {b : Bindings}, b.Sound →
      b.Accounts ((f x).run b).2 (tokens ((f x).run b).1) (names x) (values x)) (hb : b.Sound) :
    b.Accounts ((xs.mapM f).run b).2 (((xs.mapM f).run b).1.flatMap tokens) (xs.flatMap names)
      (xs.flatMap values) := by
  induction xs generalizing b with
  | nil => exact nil hb
  | cons x xs ih =>
      have hx := h x List.mem_cons_self hb
      have hxs := ih (fun y hy => h y (List.mem_cons_of_mem _ hy)) hx.sound
      rw [List.mapM_cons]
      exact hx.append hxs

end Accounts

end Bindings

namespace Clause

open Token Bindings

variable {b : Bindings}

/-- An alias is handed out for a name that has none. -/
theorem accounts_aliasOf (field : String) (hb : b.Sound) :
    b.Accounts ((aliasOf field).run b).2 (Path.tokens [((aliasOf field).run b).1]) [field] [] := by
  obtain ⟨hwithin, hlabelled, hnames⟩ := compiles_aliasOf field b hb.labelled
  have hname := hnames _ (.refl _)
  have haliases : aliases (Path.tokens [((aliasOf field).run b).1]) = [((aliasOf field).run b).1] := by
    simp [Path.tokens, Token.ofSegment, hname.1.isAlias, alias?]
  refine ⟨⟨hlabelled, fun _ _ _ => Naming.unique_aliasOf hb.unique⟩, hwithin.1, fun n => ⟨?_, ?_⟩,
    ?_, ?_, [], placeholders_path _, rfl, ?_⟩
  · intro h
    obtain ⟨k, hk⟩ := h
    rcases Naming.get?_aliasOf_cases hk with hold | ⟨hn, _⟩
    · exact .inl ⟨k, hold⟩
    · exact .inr (List.mem_singleton.mpr hn)
  · intro h
    rcases h with hold | hn
    · obtain ⟨k, hk⟩ := hold
      exact ⟨k, hwithin.1 k n hk⟩
    · obtain rfl := List.mem_singleton.mp hn
      exact ⟨_, hname.2⟩
  · intro k hk
    rw [haliases, List.mem_singleton] at hk
    subst hk
    exact ⟨field, List.mem_cons_self, hname.2⟩
  · intro n hn
    obtain rfl := List.mem_singleton.mp hn
    rw [haliases]
    exact ⟨_, List.mem_cons_self, hname.2⟩
  · exact .of_eq (List.append_nil _).symm

/-- A new placeholder is handed out for a value. -/
theorem accounts_placeholderFor {candidate : String} (h : IsLabel ':' candidate) (v : Value)
    (hb : b.Sound) :
    b.Accounts ((placeholderFor candidate v).run b).2
      [.value ((placeholderFor candidate v).run b).1] [] [v] := by
  obtain ⟨hwithin, hlabelled, _⟩ := compiles_placeholderFor h v b hb.labelled
  have hnew : b.values.get? (Naming.fresh b.values candidate) = none := by
    have hfree := Naming.not_contains_fresh b.values candidate
    rwa [Dict.contains, Option.isSome_eq_false_iff, Option.isNone_iff_eq_none] at hfree
  refine ⟨⟨hlabelled, hb.unique⟩, hwithin.1, ?_, ?_, ?_,
    [(Naming.fresh b.values candidate, v)], rfl, rfl, ?_⟩
  · intro n
    rw [or_iff_left (List.not_mem_nil)]
    rfl
  · intro k hk
    cases hk
  · intro n hn
    cases hn
  · exact (OrderedDict.perm_entries_insert hnew v).trans (List.perm_append_singleton _ _).symm

/-- Binding a value accounts for the one value. -/
theorem accounts_bindValue (path : String) (v : Value) (hb : b.Sound) :
    b.Accounts ((bindValue path v).run b).2 ((bindValue path v).run b).1.tokens [] [v] :=
  accounts_placeholderFor (Naming.isLabel_spelling rfl path) v hb

/-- So does binding it with an index. -/
theorem accounts_bindIndexed (path : String) (index : Nat) (v : Value) (hb : b.Sound) :
    b.Accounts ((bindIndexed path index v).run b).2 ((bindIndexed path index v).run b).1.tokens []
      [v] :=
  accounts_placeholderFor
    (Naming.isLabel_append_toString (Naming.isLabel_spelling rfl path) index) v hb

/-- The path and the placeholder of one entry of a map. -/
theorem accounts_bindEntry (field path : String) (entry : String × Value) (hb : b.Sound) :
    b.Accounts ((bindEntry field path entry).run b).2
      (((bindEntry field path entry).run b).1.1.tokens ++
        ((bindEntry field path entry).run b).1.2.tokens) [field, entry.1] [entry.2] := by
  have houter := accounts_aliasOf field hb
  have hinner := accounts_aliasOf entry.1 houter.sound
  have hvalue := accounts_bindValue (path ++ "." ++ entry.1) entry.2 hinner.sound
  refine ((houter.append hinner).append hvalue).congr ?_ fun n => Iff.rfl
  exact SameLabels.append (sameLabels_pair _ _) (.refl _)

section Clauses

variable {α : Type} {tokens : α → List Token} {field : String}

/-- A clause about the attribute of a field and one value. -/
theorem accounts_test {t : String → Operand → α} (path : String) (v : Value)
    (ht : ∀ a p, SameLabels (Path.tokens [a] ++ p.tokens) (tokens (t a p))) (hb : b.Sound) :
    let m : StateM Bindings (List α) := do
      let a ← Bindings.aliasOf field
      let p ← bindValue path v
      return [t a p]
    b.Accounts (m.run b).2 ((m.run b).1.flatMap tokens) [field] [v] := by
  have halias := accounts_aliasOf field hb
  have hvalue := accounts_bindValue path v halias.sound
  refine (halias.append hvalue).congr ((ht _ _).trans ?_) fun n => Iff.rfl
  exact .of_eq (List.flatMap_singleton _ _).symm

/-- A clause about the attribute of a field and two values. -/
theorem accounts_test_two {t : String → Operand → Operand → α} (path : String) (v w : Value)
    (ht : ∀ a p q,
      SameLabels (Path.tokens [a] ++ p.tokens ++ q.tokens) (tokens (t a p q)))
    (hb : b.Sound) :
    let m : StateM Bindings (List α) := do
      let a ← Bindings.aliasOf field
      let p ← bindIndexed path 0 v
      let q ← bindIndexed path 1 w
      return [t a p q]
    b.Accounts (m.run b).2 ((m.run b).1.flatMap tokens) [field] [v, w] := by
  have halias := accounts_aliasOf field hb
  have hfirst := accounts_bindIndexed path 0 v halias.sound
  have hsecond := accounts_bindIndexed path 1 w hfirst.sound
  refine ((halias.append hfirst).append hsecond).congr ((ht _ _ _).trans ?_) fun n => Iff.rfl
  exact .of_eq (List.flatMap_singleton _ _).symm

/-- A clause for each entry that is listed of the map in a field, if one is listed. -/
theorem accounts_entries {t : Path → Operand → α} (path : String) {entries : OrderedDict Value}
    (hne : entries.entries ≠ []) (ht : ∀ p o, SameLabels (p.tokens ++ o.tokens) (tokens (t p o)))
    (hb : b.Sound) :
    let m : StateM Bindings (List α) := do
      let _ ← Bindings.aliasOf field
      entries.entries.mapM fun entry => do
        let (p, o) ← bindEntry field path entry
        return t p o
    b.Accounts (m.run b).2 ((m.run b).1.flatMap tokens) (field :: entries.keys) entries.values := by
  have halias := accounts_aliasOf field hb
  have hentry : ∀ entry ∈ entries.entries, ∀ {b : Bindings}, b.Sound →
      b.Accounts ((t.uncurry <$> bindEntry field path entry).run b).2
        (tokens ((t.uncurry <$> bindEntry field path entry).run b).1) [field, entry.1] [entry.2] :=
    fun entry _ {_} hb => (accounts_bindEntry field path entry hb).congr (ht _ _) fun n => Iff.rfl
  have hentries := Accounts.mapM entries.entries hentry halias.sound
  have hnames : ∀ n, n ∈ entries.entries.flatMap (fun entry => [field, entry.1]) ↔
      n ∈ field :: entries.keys := by
    intro n
    rw [List.mem_flatMap, List.mem_cons]
    constructor
    · intro h
      obtain ⟨entry, hentry, hn⟩ := h
      rcases List.mem_pair.mp hn with hfield | hname
      · exact .inl hfield
      · rw [hname]
        exact .inr (List.mem_map_of_mem hentry)
    · intro h
      rcases h with hfield | hn
      · obtain ⟨entry, hentry⟩ := List.exists_mem_of_ne_nil _ hne
        exact ⟨entry, hentry, List.mem_pair.mpr (.inl hfield)⟩
      · obtain ⟨entry, hentry, hname⟩ := List.mem_map.mp hn
        exact ⟨entry, hentry, List.mem_pair.mpr (.inr hname.symm)⟩
  have hvalues : entries.values = entries.entries.flatMap fun entry => [entry.2] :=
    List.map_eq_flatMap
  rw [hvalues]
  exact halias.absorb (hentries.congr (.refl _) hnames) (by simp)

/-- **The conditions of one field** account for it, if a map has entries listed. -/
theorem accounts_conditions (scope : Option String) (field : String) {d : Descriptor}
    (hproper : d.IsProper) (hb : b.Sound) :
    b.Accounts ((conditions scope field d).run b).2
      (((conditions scope field d).run b).1.flatMap Condition.tokens) (field :: d.entryNames)
      d.bound := by
  cases d with
  | equals v | lessThan v | lessOrEqual v | greaterOrEqual v | increment v =>
      exact accounts_test _ v (fun a p => .append (.refl _) (.skip rfl rfl)) hb
  | beginsWith v =>
      refine accounts_test _ v (fun a p => ⟨fun k => ?_, ?_⟩) hb
      · simp [Condition.tokens, grouped, alias?]
      · simp [Condition.tokens, grouped, placeholder?]
  | between low high =>
      refine accounts_test_two _ low high (fun a p q => ⟨fun k => ?_, ?_⟩) hb
      · simp [Condition.tokens, alias?]
      · simp [Condition.tokens, placeholder?]
  | either first second =>
      refine accounts_test_two _ first second (fun a p q => ⟨fun k => ?_, ?_⟩) hb
      · by_cases hk : k ∈ aliases (Path.tokens [a]) <;> simp [Condition.tokens, grouped, alias?, hk]
      · simp [Condition.tokens, grouped, placeholder?]
  | nested entries =>
      exact accounts_entries (t := fun p o => Condition.compare .equal (.path p) o) _ hproper
        (fun p o => .append (.refl _) (.skip rfl rfl)) hb

/-- **The actions of one assignment** account for it, if a map has entries listed. -/
theorem accounts_actions (field : String) {d : Descriptor} {a : Assignment}
    (ha : d.assignment? = some a) (hproper : d.IsProper) (hb : b.Sound) :
    b.Accounts ((actions field a).run b).2 (((actions field a).run b).1.flatMap SetAction.tokens)
      (field :: d.entryNames) d.bound := by
  cases d with
  | equals v =>
      obtain rfl := Option.some.inj ha
      exact accounts_test field v (fun a p => .append (.refl _) (.skip rfl rfl)) hb
  | increment v =>
      obtain rfl := Option.some.inj ha
      refine accounts_test (t := fun a p => SetAction.mk [a] (.sum (.path [a]) p)) field v
        (fun a p => ⟨fun k => ?_, ?_⟩) hb
      · simp [SetAction.tokens, NewValue.tokens, alias?]
      · simp [SetAction.tokens, NewValue.tokens, placeholder?]
  | nested entries =>
      obtain rfl := Option.some.inj ha
      exact accounts_entries (t := fun p o => SetAction.mk p (.operand o)) field hproper
        (fun p o => .append (.refl _) (.skip rfl rfl)) hb
  | _ => cases ha

end Clauses

end Clause

end RecordStore
