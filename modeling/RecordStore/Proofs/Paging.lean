import RecordStore.Paging

/-!
# Following cursors

Each page but the last has a cursor, and the next page is fetched with it.  The fetches of a read make a
chain: it begins with the cursor that the read starts from and ends with the first page without a cursor,
or with the first failure.  A stream of pages goes along that chain as far as it is asked to, and all
pages together are those of the whole chain.

`Chain` says what the fetches of a read are, apart from how they are asked for; what streams and
collected pages come to is derived from it by induction along the chain.  `Script` is a fetch whose
replies are prepared.

* `Chain.stream_eq`, `Chain.fetch_after`, `Chain.seen_stream` — the elements of a stream, the fetch that
  the next one takes, and what a stream has done by then;
* `Chain.run_collect`, `whole_eq_ok_iff` — all pages together;
* `pages_follow_script` — streams and collected pages of any script.
-/

namespace RecordStore

namespace Page

variable {σ α ι : Type}

/-- The cursor of a reply, if it is a page that has one. -/
def cursorOf (reply : Except Error (Page α)) : Option Cursor :=
  match reply with
  | .ok page => page.cursor
  | .error _ => none

/-- A fetch: the cursor that it was made with, and the reply. -/
structure Fetch (α : Type) where
  start : Option Cursor
  reply : Except Error (Page α)

/-- The fetches from a cursor and a state on, each with the cursor of the page before, up to the first
reply without a cursor, and the state that they lead to. -/
inductive Chain (fetch : Option Cursor → Step σ (Page α)) :
    Option Cursor → σ → List (Fetch α) → σ → Prop where
  | last {start : Option Cursor} {s s' : σ} {reply : Except Error (Page α)}
      (hfetch : (fetch start).run s = (reply, s')) (hlast : cursorOf reply = none) :
      Chain fetch start s [⟨start, reply⟩] s'
  | more {start : Option Cursor} {next : Cursor} {s s' s'' : σ} {reply : Except Error (Page α)}
      {rest : List (Fetch α)} (hfetch : (fetch start).run s = (reply, s'))
      (hnext : cursorOf reply = some next) (after : Chain fetch (some next) s' rest s'') :
      Chain fetch start s (⟨start, reply⟩ :: rest) s''

/-- All pages of some replies as one page without a cursor, unless one of them is a failure. -/
def whole (replies : List (Except Error (Page α))) : Except Error (Page α) :=
  (replies.mapM id).map fun pages => ⟨pages.flatMap Page.items, none⟩

theorem whole_error (fault : Error) (rest : List (Except Error (Page α))) :
    whole (.error fault :: rest) = .error fault := by
  rw [whole, List.mapM_cons]
  rfl

theorem whole_ok (page : Page α) (rest : List (Except Error (Page α))) :
    whole (.ok page :: rest) =
      (whole rest).map fun more => ⟨page.items ++ more.items, none⟩ := by
  rw [whole, whole, List.mapM_cons]
  cases rest.mapM id <;> rfl

theorem whole_last (page : Page α) : whole [.ok page] = .ok ⟨page.items, none⟩ := by
  have hnone : whole ([] : List (Except Error (Page α))) = .ok ⟨[], none⟩ := rfl
  rw [whole_ok, hnone]
  simp [Except.map]

theorem whole_cons_eq_ok_iff {reply : Except Error (Page α)} {rest : List (Except Error (Page α))}
    {page : Page α} :
    whole (reply :: rest) = .ok page ↔
      ∃ first more, reply = .ok first ∧ whole rest = .ok more ∧
        page = ⟨first.items ++ more.items, none⟩ := by
  cases reply with
  | error fault => simp [whole_error]
  | ok first =>
      rw [whole_ok]
      cases whole rest with
      | error fault => simp [Except.map]
      | ok more => simp [Except.map, eq_comm]

/-- There is a page of all replies if each of them is a page. -/
theorem whole_eq_ok_iff {replies : List (Except Error (Page α))} {page : Page α} :
    whole replies = .ok page ↔
      ∃ pages : List (Page α), replies = pages.map .ok ∧ page = ⟨pages.flatMap Page.items, none⟩ := by
  induction replies generalizing page with
  | nil =>
      constructor
      · intro h
        exact ⟨[], rfl, (Except.ok.inj h).symm⟩
      · intro ⟨pages, hpages, hpage⟩
        rw [List.map_eq_nil_iff.mp hpages.symm] at hpage
        rw [hpage]
        rfl
  | cons reply rest ih =>
      rw [whole_cons_eq_ok_iff]
      constructor
      · intro ⟨first, more, hreply, hmore, hpage⟩
        obtain ⟨pages, hpages, hitems⟩ := ih.mp hmore
        refine ⟨first :: pages, ?_, ?_⟩
        · rw [hreply, hpages, List.map_cons]
        · rw [hpage, hitems, List.flatMap_cons]
      · intro ⟨pages, hpages, hpage⟩
        cases pages with
        | nil => cases hpages
        | cons first pages =>
            obtain ⟨hfirst, hrest⟩ := List.cons.inj hpages
            refine ⟨first, _, hfirst, ih.mpr ⟨pages, hrest, rfl⟩, ?_⟩
            rw [hpage, List.flatMap_cons]

section Stream

variable {fetch : Option Cursor → Step σ (Page α)} {start : Option Cursor} {s s' : σ}
  {reply : Except Error (Page α)}

/-- A stream ends after a reply without a cursor. -/
theorem stream_of_last (hfetch : (fetch start).run s = (reply, s')) (hlast : cursorOf reply = none)
    (n : Nat) : stream fetch (n + 1) start s = ([reply], s') := by
  rw [stream, hfetch]
  cases reply with
  | error fault => rfl
  | ok page =>
      have hcursor : page.cursor = none := hlast
      simp only [hcursor]

/-- A stream goes on with the cursor of a page. -/
theorem stream_of_more {next : Cursor} (hfetch : (fetch start).run s = (reply, s'))
    (hnext : cursorOf reply = some next) (n : Nat) :
    stream fetch (n + 1) start s =
      (reply :: (stream fetch n (some next) s').1, (stream fetch n (some next) s').2) := by
  rw [stream, hfetch]
  cases reply with
  | error fault => cases hnext
  | ok page =>
      have hcursor : page.cursor = some next := hnext
      simp only [hcursor]

end Stream

namespace Chain

variable {fetch : Option Cursor → Step σ (Page α)} {start : Option Cursor} {s s' : σ}
  {fetches : List (Fetch α)}

/-- **The elements of a stream** are the replies of the chain, as many as it is asked for. -/
theorem stream_eq (h : Chain fetch start s fetches s') (n : Nat) :
    (stream fetch n start s).1 = (fetches.map Fetch.reply).take n := by
  induction h generalizing n with
  | last hfetch hlast =>
      cases n with
      | zero => rfl
      | succ n =>
          rw [stream_of_last hfetch hlast]
          simp
  | more hfetch hnext _ ih =>
      cases n with
      | zero => rfl
      | succ n => rw [stream_of_more hfetch hnext, ih, List.map_cons, List.take_succ_cons]

/-- A stream that is asked for the whole chain leads to its end. -/
theorem stream_end (h : Chain fetch start s fetches s') {n : Nat} (hn : fetches.length ≤ n) :
    (stream fetch n start s).2 = s' := by
  induction h generalizing n with
  | last hfetch hlast =>
      cases n with
      | zero => cases hn
      | succ n => rw [stream_of_last hfetch hlast]
  | more hfetch hnext _ ih =>
      cases n with
      | zero => cases hn
      | succ n =>
          rw [stream_of_more hfetch hnext]
          exact ih (Nat.le_of_succ_le_succ hn)

/-- The next element of a stream takes one fetch, in the state that the elements before have left. -/
theorem fetch_after (h : Chain fetch start s fetches s') {n : Nat} {f : Fetch α}
    (hf : fetches[n]? = some f) :
    (fetch f.start).run (stream fetch n start s).2 =
      (f.reply, (stream fetch (n + 1) start s).2) := by
  induction h generalizing n with
  | last hfetch hlast =>
      cases n with
      | zero =>
          obtain rfl := Option.some.inj hf
          rw [stream_of_last hfetch hlast]
          exact hfetch
      | succ n => cases hf
  | more hfetch hnext _ ih =>
      cases n with
      | zero =>
          obtain rfl := Option.some.inj hf
          rw [stream_of_more hfetch hnext]
          exact hfetch
      | succ n =>
          rw [stream_of_more hfetch hnext, stream_of_more hfetch hnext]
          exact ih hf

/-- The cursors that fetches are made with: the first one, then that of the page before. -/
theorem starts_eq (h : Chain fetch start s fetches s') :
    fetches.map Fetch.start = start :: (fetches.map Fetch.reply).dropLast.map cursorOf := by
  induction h with
  | last _ _ => rfl
  | @more start next _ _ _ reply rest _ hnext after ih =>
      have hne : rest.map Fetch.reply ≠ [] := by
        cases after <;> exact List.cons_ne_nil _ _
      rw [List.map_cons, ih, List.map_cons, List.dropLast_cons_of_ne_nil hne, List.map_cons, hnext]

/-- **What a stream has done**: if each fetch is written down, those of the elements that it was asked
for, and no other. -/
theorem seen_stream {seen : σ → List ι} {note : Option Cursor → ι}
    (hnote : ∀ start s, seen ((fetch start).run s).2 = seen s ++ [note start])
    (h : Chain fetch start s fetches s') (n : Nat) :
    seen (stream fetch n start s).2 = seen s ++ ((fetches.map Fetch.start).take n).map note := by
  induction h generalizing n with
  | @last start s _ _ hfetch hlast =>
      cases n with
      | zero => exact (List.append_nil _).symm
      | succ n =>
          have hseen := hnote start s
          rw [hfetch] at hseen
          rw [stream_of_last hfetch hlast]
          simpa using hseen
  | @more start _ s _ _ _ _ hfetch hnext _ ih =>
      cases n with
      | zero => exact (List.append_nil _).symm
      | succ n =>
          have hseen := hnote start s
          rw [hfetch] at hseen
          rw [stream_of_more hfetch hnext, ih, hseen, List.append_assoc]
          rfl

theorem seen_end {seen : σ → List ι} {note : Option Cursor → ι}
    (hnote : ∀ start s, seen ((fetch start).run s).2 = seen s ++ [note start])
    (h : Chain fetch start s fetches s') :
    seen s' = seen s ++ (fetches.map Fetch.start).map note := by
  have hseen := h.seen_stream hnote fetches.length
  have hall : (fetches.map Fetch.start).length ≤ fetches.length := Nat.le_of_eq (List.length_map _)
  rwa [h.stream_end (Nat.le_refl _), List.take_of_length_le hall] at hseen

/-- The items of all pages of a chain, within enough fetches. -/
theorem run_allItems (h : Chain fetch start s fetches s') (budget : Nat) {n : Nat}
    (hn : fetches.length ≤ n) :
    (allItems fetch budget n start).run s =
      ((whole (fetches.map Fetch.reply)).map Page.items, s') := by
  induction h generalizing n with
  | @last start s s' reply hfetch hlast =>
      cases n with
      | zero => cases hn
      | succ n =>
          rw [allItems, Step.run_bind, hfetch]
          cases reply with
          | error fault => rfl
          | ok page =>
              have hcursor : page.cursor = none := hlast
              simp only [hcursor, Step.run_pure, List.map_cons, List.map_nil, whole_last]
              rfl
  | @more start next s s' s'' reply rest hfetch hnext _ ih =>
      cases n with
      | zero => cases hn
      | succ n =>
          rw [allItems, Step.run_bind, hfetch]
          cases reply with
          | error fault => cases hnext
          | ok page =>
              have hcursor : page.cursor = some next := hnext
              simp only [hcursor, Step.run_bind, ih (Nat.le_of_succ_le_succ hn), List.map_cons,
                whole_ok]
              cases whole (rest.map Fetch.reply) <;> rfl

/-- **All pages of a chain together**, within enough fetches. -/
theorem run_collect (h : Chain fetch start s fetches s') {budget : Nat}
    (hbudget : fetches.length ≤ budget) :
    (collect fetch budget start true).run s = (whole (fetches.map Fetch.reply), s') := by
  rw [collect, if_pos rfl, Step.run_bind, h.run_allItems budget hbudget]
  cases hwhole : whole (fetches.map Fetch.reply) with
  | error fault => rfl
  | ok page =>
      -- all pages together have no cursor of their own
      obtain ⟨pages, _, hpage⟩ := whole_eq_ok_iff.mp hwhole
      rw [hpage]
      rfl

/-- A failure that the chain meets is what its pages come to. -/
theorem whole_of_error (h : Chain fetch start s fetches s') {fault : Error}
    (hfault : .error fault ∈ fetches.map Fetch.reply) :
    whole (fetches.map Fetch.reply) = .error fault := by
  induction h with
  | last _ _ =>
      have hreply := List.mem_singleton.mp hfault
      rw [List.map_cons, ← hreply, whole_error]
  | @more _ _ _ _ _ reply rest _ hnext _ ih =>
      cases reply with
      | error _ => cases hnext
      | ok page =>
          rcases List.mem_cons.mp hfault with hfirst | hrest
          · cases hfirst
          · rw [List.map_cons, whole_ok, ih hrest]
            rfl

end Chain

/-- Pages that end with the first one are collected with one fetch. -/
theorem run_collect_of_last {fetch : Option Cursor → Step σ (Page α)} {start : Option Cursor} {s s' : σ}
    {reply : Except Error (Page α)} (hfetch : (fetch start).run s = (reply, s'))
    (hlast : ∀ page, reply = .ok page → page.cursor = none) {budget : Nat} (hbudget : budget ≠ 0)
    (recursive : Bool) : (collect fetch budget start recursive).run s = (reply, s') := by
  have hone : [(⟨start, reply⟩ : Fetch α)].length ≤ budget := Nat.one_le_iff_ne_zero.mpr hbudget
  cases recursive with
  | false => exact hfetch
  | true =>
      cases reply with
      | error fault =>
          rw [(Chain.last hfetch rfl).run_collect hone]
          exact congrArg (·, s') (whole_error fault [])
      | ok page =>
          obtain ⟨items, cursor⟩ := page
          obtain rfl : cursor = none := hlast _ rfl
          rw [(Chain.last hfetch rfl).run_collect hone]
          exact congrArg (·, s') (whole_last _)

end Page

/-- Replies that are prepared for fetches, and the cursors of the fetches that were made. -/
structure Script (α : Type) where
  replies : List (Except Error (Page α))
  calls : List (Option Cursor)

namespace Script

variable {α : Type}

/-- The page that a script gives when no reply is left. -/
def exhausted : Except Error (Page α) := .ok ⟨[], none⟩

/-- Takes the next reply, and writes down the cursor. -/
def fetch (cursor : Option Cursor) : Step (Script α) (Page α) := fun s =>
  (s.replies.headD exhausted, ⟨s.replies.tail, s.calls ++ [cursor]⟩)

/-- Whether another page is fetched after a reply. -/
def goesOn (reply : Except Error (Page α)) : Bool := (Page.cursorOf reply).isSome

/-- The replies up to the first one that has no cursor. -/
def chain (replies : List (Except Error (Page α))) : List (Except Error (Page α)) :=
  replies.takeWhile goesOn ++ [(replies.dropWhile goesOn).headD exhausted]

/-- The cursors that lead along a script: the first one, then that of each page that has one. -/
def cursors (start : Option Cursor) (replies : List (Except Error (Page α))) :
    List (Option Cursor) :=
  start :: (replies.takeWhile goesOn).map Page.cursorOf

theorem length_cursors (start : Option Cursor) (replies : List (Except Error (Page α))) :
    (cursors start replies).length = (chain replies).length := by
  simp [cursors, chain]

/-- The chain has no more replies than the script, and one. -/
theorem length_chain_le (replies : List (Except Error (Page α))) :
    (chain replies).length ≤ replies.length + 1 := by
  have htake := (List.takeWhile_sublist (l := replies) goesOn).length_le
  rw [chain, List.length_append, List.length_singleton]
  omega

/-- A script is a chain of fetches. -/
theorem exists_chain (start : Option Cursor) (script : Script α) :
    ∃ fetches script', Page.Chain fetch start script fetches script' ∧
      fetches.map Page.Fetch.reply = chain script.replies ∧
      fetches.map Page.Fetch.start = cursors start script.replies := by
  obtain ⟨replies, calls⟩ := script
  -- the cursors are those of the replies
  have hreplies : ∃ fetches script', Page.Chain fetch start ⟨replies, calls⟩ fetches script' ∧
      fetches.map Page.Fetch.reply = chain replies := by
    induction replies generalizing start calls with
    | nil => exact ⟨_, _, .last rfl rfl, rfl⟩
    | cons reply rest ih =>
        cases hreply : Page.cursorOf reply with
        | none =>
            have hstops : goesOn reply = false := by rw [goesOn, hreply]; rfl
            refine ⟨_, _, .last rfl hreply, ?_⟩
            simp [chain, hstops]
        | some next =>
            have hgoes : goesOn reply = true := by rw [goesOn, hreply]; rfl
            obtain ⟨fetches, script', hchain, hrest⟩ := ih (some next) (calls ++ [start])
            refine ⟨_, _, .more rfl hreply hchain, ?_⟩
            rw [List.map_cons, hrest, chain, chain, List.takeWhile_cons_of_pos hgoes,
              List.dropWhile_cons_of_pos hgoes]
            rfl
  obtain ⟨fetches, script', hchain, hreplies⟩ := hreplies
  refine ⟨fetches, script', hchain, hreplies, ?_⟩
  rw [hchain.starts_eq, hreplies, chain, List.dropLast_concat, cursors]

end Script

/-- **Pages follow the cursors of any script.**  A stream gives the replies up to the first one without
a cursor, in order; asked for some elements, it has made the fetches of these and no other, the first
with the cursor that it starts from and each of the others with the cursor of the page before.  Collecting
all pages makes all of these fetches; it fails with the failure that is met, and gives the items of all
pages without a cursor if none is met.  Collecting one page makes one fetch and gives its reply. -/
theorem pages_follow_script {α : Type} {replies : List (Except Error (Page α))} {budget : Nat}
    (hbudget : replies.length < budget) (start : Option Cursor) :
    let chain := Script.chain replies
    let cursors := Script.cursors start replies
    let pages (n : Nat) := Page.stream Script.fetch n start ⟨replies, []⟩
    let all := (Page.collect Script.fetch budget start true).run ⟨replies, []⟩
    let one := (Page.collect Script.fetch budget start false).run ⟨replies, []⟩
    (∀ n, (pages n).1 = chain.take n ∧ (pages n).2.calls = cursors.take n ∧
      (pages n).2.calls.length = min n chain.length) ∧
    (all.2.calls = cursors ∧ (∀ fault, .error fault ∈ chain → all.1 = .error fault) ∧
      ∀ found : List (Page α), chain = found.map .ok →
        all.1 = .ok ⟨found.flatMap Page.items, none⟩) ∧
    one.2.calls = [start] ∧ chain.head? = some one.1 := by
  obtain ⟨fetches, script', hchain, hreplies, hstarts⟩ := Script.exists_chain start ⟨replies, []⟩
  have hnote : ∀ start (s : Script α),
      ((Script.fetch start).run s).2.calls = s.calls ++ [id start] := fun _ _ => rfl
  have hlength : fetches.length ≤ budget := by
    have hle := Script.length_chain_le replies
    rw [← hreplies, List.length_map] at hle
    omega
  have hall := hchain.run_collect hlength
  refine ⟨?_, ?_, rfl, ?_⟩
  · intro n
    have hcalls := hchain.seen_stream hnote n
    rw [hstarts, List.map_id, List.nil_append] at hcalls
    refine ⟨?_, hcalls, ?_⟩
    · rw [hchain.stream_eq, hreplies]
    · rw [hcalls, List.length_take, Script.length_cursors]
  · rw [hall]
    refine ⟨?_, ?_, ?_⟩
    · have hcalls := hchain.seen_end hnote
      rwa [hstarts, List.map_id, List.nil_append] at hcalls
    · intro fault hfault
      rw [← hreplies] at hfault
      exact hchain.whole_of_error hfault
    · intro found hfound
      rw [hreplies]
      exact Page.whole_eq_ok_iff.mpr ⟨found, hfound, rfl⟩
  · cases replies with
    | nil => rfl
    | cons reply rest =>
        cases hreply : Script.goesOn reply with
        | true => simp [Script.chain, hreply, Page.collect, Script.fetch, Step.run]
        | false => simp [Script.chain, hreply, Page.collect, Script.fetch, Step.run]

/-- Two pages with the same cursor, the first one without items, and a failure after them. -/
def Script.interrupted (cursor : Cursor) : List (Except Error (Page String)) :=
  [.ok ⟨[], some cursor⟩, .ok ⟨["a"], some cursor⟩, .error (.store "throttled"), .ok ⟨["b"], none⟩]

/-- Two elements take two fetches, and no fetch follows the failure. -/
theorem pages_follow_script_interrupted :
    let cursor : Cursor := ⟨.empty⟩
    let replies := Script.interrupted cursor
    replies.length < 5 ∧
      (Page.stream Script.fetch 2 none ⟨replies, []⟩).2.calls = [none, some cursor] ∧
      ((Page.collect Script.fetch 5 none true).run ⟨replies, []⟩).1 = .error (.store "throttled") ∧
      ((Page.collect Script.fetch 5 none true).run ⟨replies, []⟩).2.calls =
        [none, some cursor, some cursor] := by
  intro cursor replies
  have hbudget : replies.length < 5 := by decide
  obtain ⟨hstream, ⟨hcalls, hfails, _⟩, _⟩ := pages_follow_script hbudget none
  have hmet : .error (.store "throttled") ∈ Script.chain replies :=
    List.mem_append_right _ (List.mem_singleton.mpr rfl)
  exact ⟨hbudget, (hstream 2).2.1, hfails _ hmet, hcalls⟩

end RecordStore
