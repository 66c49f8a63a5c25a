import RecordStore.Proofs.Compile.Accounts
import RecordStore.Proofs.Compile.Requests

/-!
# Tables and expressions match

The tables of a request and its expressions match exactly: each name that the fields mention has one
alias, each value that they bind has a placeholder of its own, and the expressions use all of these and
no others.  A store that rejects a request for a label that is not defined, or not used, has no reason
to reject one that was compiled.

Spellings do not stand in the way: labels of different fields can be spelled alike, by an index, a
scope, a number or by camel case, and are told apart when they are handed out.

* `Clause.accounts_conditionText`, `Clause.accounts_updateText` — one expression accounts for its fields;
* `Expressions.tables_match` — scans, queries and updates.
-/

namespace RecordStore

namespace Token

/-- Lists whose parts use the same labels. -/
theorem SameLabels.flatMap {α : Type} {f g : α → List Token} (h : ∀ x, SameLabels (f x) (g x))
    (xs : List α) : SameLabels (xs.flatMap f) (xs.flatMap g) := by
  induction xs with
  | nil => exact .refl _
  | cons x xs ih => exact (h x).append ih

end Token

namespace Expressions

/-- The tokens of an expression that may be absent. -/
def slotTokens : Option String → Except ExpressionFault (List Token)
  | none => .ok []
  | some text => Token.scan text

/-- The tokens of all expressions of a request. -/
def tokens (e : Expressions) : Except ExpressionFault (List Token) := do
  let key ← slotTokens e.keyCondition
  let filter ← slotTokens e.filter
  let update ← slotTokens e.update
  let condition ← slotTokens e.condition
  return key ++ filter ++ update ++ condition

theorem tokens_eq {e : Expressions} {ks fs us cs : List Token} (hkey : slotTokens e.keyCondition = .ok ks)
    (hfilter : slotTokens e.filter = .ok fs) (hupdate : slotTokens e.update = .ok us)
    (hcondition : slotTokens e.condition = .ok cs) : e.tokens = .ok (ks ++ fs ++ us ++ cs) := by
  rw [tokens, hkey, hfilter, hupdate, hcondition]
  rfl

/-- The tables and the expressions of a request match, for the names that are mentioned and the values
that are bound: the aliases stand one for one for the names; the placeholders hold the values, each
value its own; and the expressions use the aliases that there are, and each placeholder once. -/
structure Matches (e : Expressions) (names : List String) (values : List Value) : Prop where
  unique : ∀ k k' n, e.context.names.get? k = some n → e.context.names.get? k' = some n → k = k'
  named : ∀ n, (∃ k, e.context.names.get? k = some n) ↔ n ∈ names
  held : e.context.values.values.Perm values
  used : ∃ ts, e.tokens = .ok ts ∧
    (∀ k, .name k ∈ ts ↔ e.context.names.contains k = true) ∧
    (∀ k, ts.count (.value k) = if e.context.values.contains k then 1 else 0) ∧
    (Token.placeholders ts).map e.context.values.get? = values.map some

end Expressions

namespace Clause

open Bindings Expressions

variable {b : Bindings}

/-- The tokens of conditions with `AND` between them. -/
theorem exists_scan_text {cs : List Condition} (hne : cs ≠ [])
    (h : ∀ c ∈ cs, c.isAnd = false ∧ c.Spelled) :
    ∃ ts, Token.scan (text cs) = .ok ts ∧ Token.SameLabels (cs.flatMap Condition.tokens) ts := by
  cases cs with
  | nil => exact absurd rfl hne
  | cons c cs =>
      have hmember : ∀ d ∈ c :: cs, Condition.IsMember (some d) := by
        intro d hd d' hd'
        obtain rfl := Option.some.inj hd'
        exact h d hd
      have hmembers : ∀ m ∈ cs.map some, Condition.IsMember m := by
        intro m hm
        obtain ⟨d, hd, rfl⟩ := List.mem_map.mp hm
        exact hmember d (List.mem_cons_of_mem _ hd)
      have hscan := Condition.scan_members (hmember c List.mem_cons_self) hmembers
      have htext : text (c :: cs) =
          " AND ".intercalate ((some c :: cs.map some).map Condition.memberText) := by
        rw [← List.map_cons, List.map_map]
        rfl
      refine ⟨_, (congrArg Token.scan htext).trans hscan, ?_⟩
      rw [Condition.moreTokens, List.flatMap_map]
      exact Token.SameLabels.append (.refl _) (.flatMap (fun d => .skip rfl rfl) cs)

/-- The tokens of actions with commas between them. -/
theorem sameLabels_actionTokens (u : List SetAction) :
    Token.SameLabels (u.flatMap SetAction.tokens) (.set :: Update.actionTokens u) := by
  refine .trans ?_ (.skip rfl rfl)
  cases u with
  | nil => exact .refl _
  | cons a u => exact Token.SameLabels.append (.refl _) (.flatMap (fun d => .skip rfl rfl) u)

/-- **The expression of some fields** accounts for them. -/
theorem accounts_conditionText (scope : Option String) {fields : Option Fields}
    (hproper : (fields.getD .empty).IsProper) (hb : b.Sound) :
    ∃ ts, slotTokens ((conditionText scope fields).run b).1 = .ok ts ∧
      b.Accounts ((conditionText scope fields).run b).2 ts (fields.getD .empty).mentioned
        (fields.getD .empty).bound := by
  cases fields with
  | none => exact ⟨[], rfl, .nil hb⟩
  | some fields =>
      by_cases hempty : fields.entries = []
      · rw [conditionText, if_pos (Dict.isEmpty_iff.mpr hempty), Option.getD_some, Fields.mentioned,
          Fields.bound, hempty]
        exact ⟨[], rfl, .nil hb⟩
      · have hproper : fields.IsProper := hproper
        obtain ⟨_, _, hmeans⟩ := (Compiles.mapM fields.entries fun e _ =>
          compiles_conditions scope e.1 e.2) b hb.labelled
        have haccounts := Accounts.mapM fields.entries (fun e he _ hb =>
          accounts_conditions scope e.1 (hproper e he) hb) hb
        have hclauses := hmeans _ (.refl _)
        obtain ⟨hne, hdecide⟩ := decideAll_clauses hproper hclauses
        obtain ⟨ts, hts, hlabels⟩ :=
          exists_scan_text (flatten_clauses_ne_nil hproper hempty hclauses) hdecide.1
        rw [conditionText_of_ne_nil scope hempty]
        refine ⟨ts, ?_, haccounts.congr ?_ fun n => Iff.rfl⟩
        · rw [← intercalate_text_of_ne_nil hne] at hts
          exact hts
        · rw [← List.flatMap_id, List.flatMap_assoc] at hlabels
          exact hlabels

/-- The actions of some assignments account for their fields. -/
theorem accounts_mapM_actions {es : List (String × Descriptor)}
    {assignments : List (String × Assignment)}
    (h : List.Forall₂ (fun e a => e.1 = a.1 ∧ e.2.assignment? = some a.2) es assignments)
    (hproper : ∀ e ∈ es, e.2.IsProper) (hb : b.Sound) :
    b.Accounts ((assignments.mapM fun a => actions a.1 a.2).run b).2
      (((assignments.mapM fun a => actions a.1 a.2).run b).1.flatMap (·.flatMap SetAction.tokens))
      (es.flatMap fun e => e.1 :: e.2.entryNames) (es.flatMap fun e => e.2.bound) := by
  induction h generalizing b with
  | nil => exact .nil hb
  | @cons e a es assignments hea _ ih =>
      obtain ⟨field, d⟩ := e
      obtain ⟨rfl, hassignment⟩ := hea
      have hfirst := accounts_actions a.1 hassignment (hproper _ List.mem_cons_self) hb
      have hrest := ih (fun e he => hproper e (List.mem_cons_of_mem _ he)) hfirst.sound
      rw [List.mapM_cons]
      exact hfirst.append hrest

/-- **The expression of some assignments** accounts for their fields. -/
theorem accounts_updateText {fields : Fields} {assignments : List (String × Assignment)}
    (h : Clause.assignments fields = .ok assignments) (hproper : fields.IsProper) (hb : b.Sound) :
    ∃ ts, slotTokens ((updateText assignments).run b).1 = .ok ts ∧
      b.Accounts ((updateText assignments).run b).2 ts fields.mentioned fields.bound := by
  have hpairs := forall₂_assignmentsOf h
  have haccounts := accounts_mapM_actions hpairs hproper hb
  cases assignments with
  | nil =>
      rw [Fields.mentioned, Fields.bound, List.forall₂_nil_right_iff.mp hpairs]
      exact ⟨[], rfl, .nil hb⟩
  | cons a assignments =>
      obtain ⟨_, _, hdo⟩ := (Compiles.mapM (a :: assignments) fun a _ =>
        compiles_actions a.1 a.2) b hb.labelled
      have hscan := Update.scan_text (spelled_flatten (hdo _ (.refl _)))
      refine ⟨_, hscan, haccounts.congr ?_ fun n => Iff.rfl⟩
      refine .trans (.of_eq ?_) (sameLabels_actionTokens _)
      rw [← List.flatMap_id, List.flatMap_assoc]
      rfl

end Clause

namespace Expressions

/-- A request matches what its tables and expressions account for. -/
theorem matches_of_accounts {e : Expressions} {b : Bindings} {ts : List Token} {names : List String}
    {values : List Value} (h : Bindings.empty.Accounts b ts names values)
    (hcontext : e.context = b.context) (htokens : e.tokens = .ok ts) : e.Matches names values := by
  have hempty : ∀ n, ¬ Bindings.empty.HasAlias n := by
    intro n h
    obtain ⟨k, hk⟩ := h
    cases hk
  have hnamed : ∀ n, b.HasAlias n ↔ n ∈ names := by
    intro n
    rw [h.named, or_iff_right (hempty n)]
  obtain ⟨es, hts, hvalues, hperm⟩ := h.entered
  have hperm : b.values.entries.Perm es := hperm
  have hkeys : b.values.keys.Perm (Token.placeholders ts) := by
    rw [hts]
    exact hperm.map Prod.fst
  have hget : ∀ entry ∈ es, b.values.get? entry.1 = some entry.2 := fun entry hentry =>
    b.values.mem_entries_iff.mp (hperm.mem_iff.mpr hentry)
  subst hvalues
  refine ⟨?_, ?_, ?_, ts, htokens, ?_, ?_, ?_⟩ <;> rw [hcontext]
  · exact h.sound.unique
  · exact hnamed
  · exact hperm.map Prod.snd
  · intro k
    rw [← Token.mem_aliases_iff, Dict.contains, Option.isSome_iff_exists]
    constructor
    · intro hk
      obtain ⟨n, _, hn⟩ := h.aliases k hk
      exact ⟨n, hn⟩
    · intro hk
      obtain ⟨n, hn⟩ := hk
      obtain ⟨k', hk', hn'⟩ := h.aliased n ((hnamed n).mp ⟨k, hn⟩)
      rw [h.sound.unique k k' n hn hn']
      exact hk'
  · intro k
    have hmem := b.values.mem_keys_iff (k := k)
    rw [← Token.count_placeholders, ← hkeys.count_eq, b.values.nodup_keys.count]
    exact if_congr hmem rfl rfl
  · rw [hts, List.map_map, List.map_map]
    exact List.map_congr_left hget

/-- An update has no expressions that records are looked for with. -/
theorem slots_forUpdate {fields : Fields} {guard : Option Fields} {e : Expressions}
    (h : forUpdate fields guard = .ok e) : e.keyCondition = none ∧ e.filter = none := by
  rw [forUpdate] at h
  split at h
  · cases h
  · obtain rfl := Except.ok.inj h
    exact ⟨rfl, rfl⟩

/-- **Tables and expressions match**, of scans, of queries, and of updates that are not refused, if every
descriptor of a map lists an entry. -/
theorem tables_match :
    (∀ filter : Option Fields, (filter.getD .empty).IsProper →
      (forScan filter).Matches (filter.getD .empty).mentioned (filter.getD .empty).bound) ∧
    (∀ (key : Fields) (filter : Option Fields), key.IsProper → (filter.getD .empty).IsProper →
      (forQuery key filter).Matches (key.mentioned ++ (filter.getD .empty).mentioned)
        (key.bound ++ (filter.getD .empty).bound)) ∧
    (∀ (fields : Fields) (guard : Option Fields) (e : Expressions), forUpdate fields guard = .ok e →
      fields.IsProper → (guard.getD .empty).IsProper →
        e.Matches (fields.mentioned ++ (guard.getD .empty).mentioned)
          (fields.bound ++ (guard.getD .empty).bound)) := by
  refine ⟨?_, ?_, ?_⟩
  · intro filter hfilter
    obtain ⟨ts, hts, haccounts⟩ := Clause.accounts_conditionText none hfilter Bindings.sound_empty
    have htokens : (forScan filter).tokens = .ok ts := by
      simpa using tokens_eq (e := forScan filter) rfl hts rfl rfl
    exact matches_of_accounts haccounts (context_withBindings _ _) htokens
  · intro key filter hkey hfilter
    have hkey : ((some key).getD .empty).IsProper := hkey
    obtain ⟨ts, hts, haccounts⟩ := Clause.accounts_conditionText none hkey Bindings.sound_empty
    obtain ⟨us, hus, hothers⟩ := Clause.accounts_conditionText none hfilter haccounts.sound
    have htokens : (forQuery key filter).tokens = .ok (ts ++ us) := by
      simpa using tokens_eq (e := forQuery key filter) hts hus rfl rfl
    exact matches_of_accounts (haccounts.append hothers) (context_withBindings _ _) htokens
  · intro fields guard e he hfields hguard
    obtain ⟨assignments, hassignments, hupdate, hcondition, hcontext⟩ := forUpdate_eq_ok he
    obtain ⟨ts, hts, haccounts⟩ :=
      Clause.accounts_updateText hassignments hfields Bindings.sound_empty
    obtain ⟨us, hus, hothers⟩ := Clause.accounts_conditionText (some guardScope) hguard haccounts.sound
    rw [← hupdate] at hts
    rw [← hcondition] at hus
    have htokens : e.tokens = .ok (ts ++ us) := by
      obtain ⟨hkey, hfilter⟩ := slots_forUpdate he
      simpa using tokens_eq (congrArg slotTokens hkey) (congrArg slotTokens hfilter) hts hus
    exact matches_of_accounts (haccounts.append hothers) hcontext htokens

/-- A range whose placeholders are spelled with numbers, and a field that is spelled like one of them. -/
def numbered : Fields :=
  .ofList [("a", .between (.ofInt 1) (.ofInt 2)), ("a0", .equals (.ofInt 3))]

/-- An entry of a map, and a field that is spelled like its path. -/
def cased : Fields :=
  .ofList [("a", .nested (.ofList [("b", .string "y")])), ("aB", .equals (.string "x"))]

/-- Labels that are spelled alike are told apart, in a query and in an update with a guard. -/
theorem tables_match_spelledAlike :
    (forQuery numbered (some cased)).Matches ["a", "a0", "a", "b", "aB"]
        [.ofInt 1, .ofInt 2, .ofInt 3, .string "y", .string "x"] ∧
      (forQuery numbered (some cased)).context.values.keys =
        [":a0", ":a0_1", ":a1", ":aB", ":aB_1"] ∧
      ∃ e, forUpdate cased (some numbered) = .ok e ∧ e.Matches ["a", "b", "aB", "a", "a0"]
        [.string "y", .string "x", .ofInt 1, .ofInt 2, .ofInt 3] := by
  have hnumbered : numbered.IsProper := by decide
  have hcased : cased.IsProper := by decide
  have hassigned : ∀ e ∈ cased.entries, e.2.IsAssignable := by decide
  obtain ⟨assignments, hassignments⟩ := (assignments_eq_ok_iff cased).mpr hassigned
  obtain ⟨e, he⟩ := exists_forUpdate hassignments (some numbered)
  refine ⟨tables_match.2.1 numbered (some cased) hnumbered hcased, ?_, e, he,
    tables_match.2.2 cased (some numbered) e he hcased hnumbered⟩
  decide +kernel

end Expressions

end RecordStore
