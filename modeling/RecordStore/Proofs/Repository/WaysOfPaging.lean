import RecordStore.Proofs.Paging
import RecordStore.Proofs.Repository.RecursiveReads

/-!
# Three ways of paging

A search of a repository can be asked for all pages at once, for a stream of its pages, or for one page
after the other, each from the cursor of the one before.  The first of these reads the records as
entities when it has all of them, the second page by page, and the third makes a new request for every
page.

All three go along one chain of fetches.  What they send is the request of the search, from each cursor
of the chain; what they give differs only in how the pages are put together.

* `Search` — a query or a scan, and the three ways of asking for it;
* `Repository.pageOf_whole_eq_ok_iff` — to read all records together is to read them page by page;
* `Search.chain_noted` — a chain of fetches, with every request written down;
* `ways_of_paging_agree` — the three ways along any chain.
-/

namespace RecordStore

namespace Journal

variable {σ α : Type}

/-- A request is written down, whatever is prepared for it. -/
theorem calls_answer (call : Call) (below : Step σ α) (prepared : Answer → α) (j : Journal σ) :
    ((answer call below prepared).run j).2.calls = j.calls ++ [call] := by
  obtain ⟨s, replies, calls⟩ := j
  cases replies with
  | nil => rfl
  | cons reply rest => cases reply <;> rfl

end Journal

/-- The same request from a cursor on; only reads start from a cursor. -/
def Call.resume (start : Option Cursor) : Call → Call
  | .query r => .query (r.resume start)
  | .scan r => .scan (r.resume start)
  | call => call

namespace Entity

variable {delimiter : Char}

/-- Records are converted one after the other. -/
theorem ofItems_cons_eq_ok_iff {item : Item} {rest : List Item} {found : List Entity} :
    ofItems delimiter (item :: rest) = .ok found ↔
      ∃ first more, ofItem delimiter item = .ok first ∧ ofItems delimiter rest = .ok more ∧
        found = first :: more := by
  constructor
  · intro h
    obtain ⟨first, hfirst, h⟩ := Condition.bind_eq_ok h
    obtain ⟨more, hmore, h⟩ := Condition.bind_eq_ok h
    exact ⟨first, more, hfirst, hmore, (Except.ok.inj h).symm⟩
  · intro ⟨first, more, hfirst, hmore, hfound⟩
    rw [ofItems, hfirst, hmore, hfound]
    rfl

/-- Records one after the other are read as entities if those before are and those after are. -/
theorem ofItems_append_eq_ok_iff {before after : List Item} {found : List Entity} :
    ofItems delimiter (before ++ after) = .ok found ↔
      ∃ first rest, ofItems delimiter before = .ok first ∧ ofItems delimiter after = .ok rest ∧
        found = first ++ rest := by
  induction before generalizing found with
  | nil => simp [ofItems, eq_comm]
  | cons item before ih =>
      rw [List.cons_append, ofItems_cons_eq_ok_iff]
      constructor
      · intro ⟨entity, more, hentity, hmore, hfound⟩
        obtain ⟨first, rest, hfirst, hrest, happend⟩ := ih.mp hmore
        refine ⟨entity :: first, rest, ?_, hrest, ?_⟩
        · exact ofItems_cons_eq_ok_iff.mpr ⟨entity, first, hentity, hfirst, rfl⟩
        · rw [hfound, happend, List.cons_append]
      · intro ⟨first, rest, hfirst, hrest, hfound⟩
        obtain ⟨entity, more, hentity, hmore, hcons⟩ := ofItems_cons_eq_ok_iff.mp hfirst
        refine ⟨entity, more ++ rest, hentity, ih.mpr ⟨more, rest, hmore, hrest, rfl⟩, ?_⟩
        rw [hfound, hcons, List.cons_append]

end Entity

namespace Repository

variable {σ : Type} {r : Repository σ}

/-- The same repository, with every request written down. -/
def noted (r : Repository σ) : Repository (Journal σ) := ⟨Journal.store r.store, r.config⟩

/-- The page of a reply that succeeds has the entities of its records, and its cursor. -/
theorem pageOf_eq_ok_iff {reply : Except Error (Page Item)} {page : Page Entity} :
    r.pageOf reply = .ok page ↔
      ∃ items, reply = .ok ⟨items, page.cursor⟩ ∧
        Entity.ofItems r.config.delimiter items = .ok page.items := by
  cases reply with
  | error fault => simp [pageOf, Except.bind]
  | ok stored =>
      obtain ⟨items, cursor⟩ := stored
      obtain ⟨found, next⟩ := page
      cases hitems : Entity.ofItems r.config.delimiter items with
      | error fault => simp [pageOf, entities, Page.convert, Except.bind, Except.map, hitems]
      | ok read => simp [pageOf, entities, Page.convert, Except.bind, Except.map, hitems, and_comm]

/-- **To read all records together is to read them page by page**, as far as both succeed.  A failure
need not be the same one: a fetch that fails late comes before a record of an early page that cannot be
read. -/
theorem pageOf_whole_eq_ok_iff {replies : List (Except Error (Page Item))} {page : Page Entity} :
    r.pageOf (Page.whole replies) = .ok page ↔ Page.whole (replies.map r.pageOf) = .ok page := by
  induction replies generalizing page with
  | nil => exact Iff.rfl
  | cons reply rest ih =>
      rw [List.map_cons, Page.whole_cons_eq_ok_iff, pageOf_eq_ok_iff]
      constructor
      · intro ⟨items, hwhole, hitems⟩
        obtain ⟨first, more, hreply, hmore, hpage⟩ := Page.whole_cons_eq_ok_iff.mp hwhole
        obtain ⟨rfl, hcursor⟩ := Page.mk.inj hpage
        obtain ⟨before, after, hbefore, hafter, hfound⟩ := Entity.ofItems_append_eq_ok_iff.mp hitems
        refine ⟨⟨before, first.cursor⟩, ⟨after, more.cursor⟩, ?_, ?_, ?_⟩
        · exact pageOf_eq_ok_iff.mpr ⟨first.items, hreply, hbefore⟩
        · exact ih.mp (pageOf_eq_ok_iff.mpr ⟨more.items, hmore, hafter⟩)
        · rw [← hfound, ← hcursor]
      · intro ⟨first, more, hfirst, hmore, hpage⟩
        obtain ⟨before, hreply, hbefore⟩ := pageOf_eq_ok_iff.mp hfirst
        obtain ⟨after, hrest, hafter⟩ := pageOf_eq_ok_iff.mp (ih.mpr hmore)
        rw [hpage]
        refine ⟨before ++ after, ?_, ?_⟩
        · exact Page.whole_cons_eq_ok_iff.mpr ⟨_, _, hreply, hrest, rfl⟩
        · exact Entity.ofItems_append_eq_ok_iff.mpr ⟨_, _, hbefore, hafter, rfl⟩

/-- All records are an answer if every page is read, and then it has the items of all pages. -/
theorem answers_of_whole_eq_ok_iff {replies : List (Except Error (Page Item))} {answers : Answers} :
    ((r.pageOf (Page.whole replies)).map fun page => (⟨page.items, page.cursor⟩ : Answers)) =
        .ok answers ↔
      ∃ found : List (Page Entity), replies.map r.pageOf = found.map .ok ∧
        answers = ⟨found.flatMap Page.items, none⟩ := by
  constructor
  · intro h
    cases hpage : r.pageOf (Page.whole replies) with
    | error fault =>
        rw [hpage] at h
        cases h
    | ok page =>
        rw [hpage] at h
        obtain ⟨found, hfound, hwhole⟩ := Page.whole_eq_ok_iff.mp (pageOf_whole_eq_ok_iff.mp hpage)
        refine ⟨found, hfound, ?_⟩
        rw [← Except.ok.inj h, hwhole]
  · intro ⟨found, hfound, hanswers⟩
    rw [pageOf_whole_eq_ok_iff.mpr (Page.whole_eq_ok_iff.mpr ⟨found, hfound, rfl⟩), hanswers]
    rfl

end Repository

/-- What is asked of a repository: a query or a scan. -/
inductive Search where
  | query (q : Query)
  | scan (q : Scan)

namespace Search

variable {σ : Type}

def start : Search → Option Cursor
  | query q => q.start
  | scan q => q.start

/-- The same search for all pages. -/
def recursively : Search → Search
  | query q => query { q with recursive := true }
  | scan q => scan { q with recursive := true }

/-- The same search for one page, from a cursor on. -/
def onePage (start : Option Cursor) : Search → Search
  | query q => query { q with start, recursive := false }
  | scan q => scan { q with start, recursive := false }

/-- What a repository answers. -/
def answer (r : Repository σ) (budget : Nat) : Search → Step σ Answers
  | query q => r.query budget q
  | scan q => r.scan budget q

/-- The first pages of a stream. -/
def pages (r : Repository σ) (count : Nat) : Search → σ → List (Except Error (Page Entity)) × σ
  | query q => r.queryPages count q
  | scan q => r.scanPages count q

/-- One page as the store gives it, from a cursor on. -/
def fetch (r : Repository σ) : Search → Option Cursor → Step σ (Page Item)
  | query q => r.fetchQuery q
  | scan q => r.fetchScan q

/-- The request that a search becomes. -/
def call (r : Repository σ) : Search → Call
  | query q => .query (r.queryRequest q)
  | scan q => .scan (r.scanRequest q)

variable {r : Repository σ} {q : Search}

/-- The first request starts from the cursor of the search. -/
theorem call_resume_start : (q.call r).resume q.start = q.call r := by
  cases q <;> rfl

/-- A recursive read collects all pages. -/
theorem answer_recursively (budget : Nat) :
    q.recursively.answer r budget = r.collect (q.fetch r) budget q.start true := by
  cases q <;> rfl

/-- A read of one page fetches once. -/
theorem answer_onePage (budget : Nat) (start : Option Cursor) :
    (q.onePage start).answer r budget = r.collect (q.fetch r) budget start false := by
  cases q <;> rfl

/-- The pages are those of the stream, each converted by itself. -/
theorem pages_eq (n : Nat) (s : σ) :
    q.pages r n s = ((Page.stream (q.fetch r) n q.start s).1.map r.pageOf,
      (Page.stream (q.fetch r) n q.start s).2) := by
  cases q <;> rfl

/-- One page is what a fetch gives, read as entities. -/
theorem run_onePage (budget : Nat) (start : Option Cursor) (s : σ) :
    ((q.onePage start).answer r budget).run s =
      ((r.pageOf ((q.fetch r start).run s).1).map fun page => ⟨page.items, page.cursor⟩,
        ((q.fetch r start).run s).2) := by
  rw [answer_onePage]
  exact Repository.run_collect rfl

/-- A fetch, with its request written down. -/
theorem run_fetch_noted (start : Option Cursor) (s : σ) (calls : List Call) :
    (q.fetch r.noted start).run ⟨s, [], calls⟩ =
      (((q.fetch r start).run s).1,
        ⟨((q.fetch r start).run s).2, [], calls ++ [(q.call r).resume start]⟩) := by
  cases q <;> rfl

/-- A fetch is noted as one call, with its start. -/
theorem calls_fetch_noted (start : Option Cursor) (j : Journal σ) :
    ((q.fetch r.noted start).run j).2.calls = j.calls ++ [(q.call r).resume start] := by
  cases q <;> exact Journal.calls_answer _ _ _ j

/-- **A chain of fetches, with every request written down.** -/
theorem chain_noted {start : Option Cursor} {s s' : σ} {fetches : List (Page.Fetch Item)}
    (h : Page.Chain (q.fetch r) start s fetches s') (calls : List Call) :
    ∃ calls', Page.Chain (q.fetch r.noted) start ⟨s, [], calls⟩ fetches ⟨s', [], calls'⟩ := by
  induction h generalizing calls with
  | @last start _ _ _ hfetch hlast =>
      refine ⟨calls ++ [(q.call r).resume start], .last ?_ hlast⟩
      rw [run_fetch_noted, hfetch]
  | @more start _ _ _ _ _ _ hfetch hnext _ ih =>
      obtain ⟨calls', hafter⟩ := ih (calls ++ [(q.call r).resume start])
      refine ⟨calls', .more ?_ hnext hafter⟩
      rw [run_fetch_noted, hfetch]

section Chains

variable {s s' : σ} {fetches : List (Page.Fetch Item)}

/-- A stream gives the replies of the chain, read as entities. -/
theorem pages_of_chain (h : Page.Chain (q.fetch r) q.start s fetches s') (n : Nat) :
    (q.pages r n s).1 = ((fetches.map Page.Fetch.reply).map r.pageOf).take n := by
  rw [pages_eq, h.stream_eq, List.map_take]

/-- A search for all pages gives all replies of the chain, read as entities together. -/
theorem run_recursively (h : Page.Chain (q.fetch r) q.start s fetches s') {budget : Nat}
    (hbudget : fetches.length ≤ budget) :
    (q.recursively.answer r budget).run s =
      ((r.pageOf (Page.whole (fetches.map Page.Fetch.reply))).map
        fun page => ⟨page.items, page.cursor⟩, s') := by
  rw [answer_recursively]
  exact Repository.run_collect (h.run_collect hbudget)

end Chains

end Search

/-- **The three ways of paging agree.**  Take any query or scan of a repository over any store, where
the cursors come to an end.  A stream of its pages gives one element for each fetch, as far as it is asked
to.  The recursive search succeeds if all of these are pages, and then gives the items of all of them, in
order, without a cursor.  A search for one page from the cursor of the page before, at the point to which
the stream has led, gives that element of the stream and leads to where the stream leads.  And all that
any of them sends is the request of the search from the cursors of the chain: the one that the search
starts from, and then those of the pages before. -/
theorem ways_of_paging_agree {σ : Type} {r : Repository σ} {q : Search} {s s' : σ} {budget : Nat}
    {fetches : List (Page.Fetch Item)} (hchain : Page.Chain (q.fetch r) q.start s fetches s')
    (hbudget : fetches.length ≤ budget) :
    let pages (n : Nat) := q.pages r n s
    let stream := (pages fetches.length).1
    let all := (q.recursively.answer r budget).run s
    let one (start : Option Cursor) := ((q.onePage start).answer r budget).run
    let noted (x : σ) : Journal σ := ⟨x, [], []⟩
    let sent := fetches.map fun f => (q.call r).resume f.start
    (stream.length = fetches.length ∧ ∀ n, (pages n).1 = stream.take n) ∧
    (∀ answers, all.1 = .ok answers ↔
      ∃ found : List (Page Entity), stream = found.map .ok ∧
        answers = ⟨found.flatMap Page.items, none⟩) ∧
    (∀ n f, fetches[n]? = some f → ∃ element, stream[n]? = some element ∧
      one f.start (pages n).2 =
        (element.map fun page => ⟨page.items, page.cursor⟩, (pages (n + 1)).2)) ∧
    (fetches.map Page.Fetch.start =
        q.start :: (fetches.map Page.Fetch.reply).dropLast.map Page.cursorOf ∧
      (q.call r).resume q.start = q.call r) ∧
    (∀ n, ∃ j, q.pages r.noted n (noted s) = ((pages n).1, j) ∧ j.calls = sent.take n) ∧
    (∃ j, (q.recursively.answer r.noted budget).run (noted s) = (all.1, j) ∧ j.calls = sent) ∧
    ∀ start x, ∃ j, ((q.onePage start).answer r.noted budget).run (noted x) = ((one start x).1, j) ∧
      j.calls = [(q.call r).resume start] := by
  intro pages stream all one noted sent
  obtain ⟨calls, hnoted⟩ := Search.chain_noted hchain []
  have hnote : ∀ start j, Journal.calls ((q.fetch r.noted start).run j).2 =
      Journal.calls j ++ [(q.call r).resume start] := Search.calls_fetch_noted
  have hsent : (fetches.map Page.Fetch.start).map (q.call r).resume = sent := List.map_map
  have hall : all = _ := Search.run_recursively hchain hbudget
  have hstream : stream = (fetches.map Page.Fetch.reply).map r.pageOf := by
    simp only [stream, pages]
    rw [Search.pages_of_chain hchain, List.take_of_length_le]
    simp
  refine ⟨⟨?_, ?_⟩, ?_, ?_, ⟨hchain.starts_eq, Search.call_resume_start⟩, ?_, ?_, ?_⟩
  · rw [hstream, List.length_map, List.length_map]
  · intro n
    rw [hstream]
    exact Search.pages_of_chain hchain n
  · intro answers
    rw [hall, hstream]
    exact Repository.answers_of_whole_eq_ok_iff
  · intro n f hf
    refine ⟨r.pageOf f.reply, ?_, ?_⟩
    · simp [hstream, hf]
    · simp only [one, pages]
      rw [Search.run_onePage, Search.pages_eq, hchain.fetch_after hf, Search.pages_eq]
  · intro n
    have hcalls := hnoted.seen_stream hnote n
    rw [List.nil_append, List.map_take, hsent] at hcalls
    refine ⟨_, ?_, hcalls⟩
    rw [Search.pages_eq, hnoted.stream_eq, List.map_take]
    exact congrArg (·, _) (Search.pages_of_chain hchain n).symm
  · have hcalls := hnoted.seen_end hnote
    rw [List.nil_append, hsent] at hcalls
    refine ⟨_, ?_, hcalls⟩
    rw [Search.run_recursively hnoted hbudget, hall]
    rfl
  · intro start x
    refine ⟨⟨(one start x).2, [], [(q.call r).resume start]⟩, ?_, rfl⟩
    simp only [one]
    rw [Search.run_onePage, Search.run_onePage, Search.run_fetch_noted]
    rfl

namespace Repository

/-- The key of the second of the notes. -/
def secondNote : Cursor := ⟨.ofList [("source", .string "s"), ("target", .string "b")]⟩

/-- A scan of all notes, whether marked as deleted or not. -/
def scanNotes : Search := .scan { Scan.all with filterDeleted := some false }

/-- Its fetches. -/
def noteFetches : List (Page.Fetch Item) :=
  [⟨none, .ok ⟨[note "a" "todo", note "b" "todo"], some secondNote⟩⟩,
    ⟨some secondNote, .ok ⟨[note "c" "todo"], none⟩⟩]

end Repository

open Repository in
/-- A scan of all notes takes two requests. -/
theorem ways_of_paging_agree_notes :
    let r := inMemory { table := "notes" }
    let q := scanNotes
    Page.Chain (q.fetch r) q.start notes noteFetches notes ∧ noteFetches.length ≤ 2 ∧
      ∃ j, (q.recursively.answer r.noted 2).run ⟨notes, [], []⟩ =
          (((q.recursively.answer r 2).run notes).1, j) ∧
        j.calls = [q.call r, (q.call r).resume (some secondNote)] := by
  intro r q
  have hfirst : ((q.fetch r none).run notes).1 =
      .ok ⟨[note "a" "todo", note "b" "todo"], some secondNote⟩ := by decide +kernel
  have hlast : ((q.fetch r (some secondNote)).run notes).1 = .ok ⟨[note "c" "todo"], none⟩ := by
    decide +kernel
  have hchain : Page.Chain (q.fetch r) q.start notes noteFetches notes :=
    .more (Prod.ext hfirst rfl) rfl (.last (Prod.ext hlast rfl) rfl)
  have hbudget : noteFetches.length ≤ 2 := by decide
  exact ⟨hchain, hbudget, (ways_of_paging_agree hchain hbudget).2.2.2.2.2.1⟩

end RecordStore
