import Gaby.Timed.Store
import Mathlib.Data.List.Lex
import Mathlib.Data.Char
import Mathlib.Data.Prod.Lex

/-!
# Syncing a GitHub project

`Client.SyncProject` (`internal/github/sync.go`) copies a project's issues, comments and issue
events into the database, as timed entries of kind `githubdl.Event` keyed
`(project, issue, api, id)`, and keeps its progress in the project's `projectSync` row.

The model runs the code over a `Net`: the `Remote`'s paginated listings, and which HTTP fetches
fail. A `St` is a running sync: the database (`DB`: the `projectSync` row and the timed rows),
the batch of the function running, the in-memory `projectSync`, `now()`'s last time, the number
of fetches made, and, as a ghost, every commit so far: each `proj.store` and each batch applied
(by `Apply`, or by a `MaybeApply` that finds the batch `full`). A process that crashes leaves
the database as a prefix of the commits made it.

Each function of the code is one definition here, computing its state and the error it returns
(`none` for `nil`): `syncByDate` (with its restart after 500 pages, bounded by `fuel`),
`syncIssueEvents`, and `syncProject` with its full sync. The `projectSync` row is modelled for
one project; a `DB` holds every project's timed rows.
-/

namespace Gaby.Github

open Timed

/-- The `projectSync` row `("githubdl.ProjectSync", Name)`. `RefillID` is never read. -/
structure ProjectSync where
  name : String
  eventETag : String
  eventID : Int
  issueDate : String
  commentDate : String
  fullSyncActive : Bool
  fullSyncIssue : Int
deriving DecidableEq, Repr

/-- The row `Add(project)` writes. -/
def ProjectSync.init (project : String) : ProjectSync := ⟨project, "", 0, "", "", false, 0⟩

/-- The key `(project, issue, api, id)` of a `githubdl.Event` entry. -/
structure EventKey where
  project : String
  issue : Int
  api : String
  id : Int
deriving DecidableEq, Repr

/-- The key in the order of its `ordered.Encode` encoding: strings by their characters. -/
def EventKey.lex (k : EventKey) : List Char ×ₗ Int ×ₗ List Char ×ₗ Int :=
  toLex (k.project.data, toLex (k.issue, toLex (k.api.data, k.id)))

instance : LinearOrder EventKey :=
  LinearOrder.lift' EventKey.lex fun a b h => by
    cases a; cases b
    simp only [EventKey.lex, toLex_inj, Prod.mk.injEq, String.ext_iff] at h
    simp [h, String.ext_iff]

/-! ## The remote -/

/-- An object of `/issues` or `/issues/comments`, with the fields `syncByDate` reads: `id`,
`updated_at` and, for an issue, `number`, all `0` or `""` when missing. `commentIssue` is what
`strconv.ParseInt` reads at the end of a comment's `issue_url`. `raw` is the object's JSON. -/
structure Dated where
  id : Int
  updated : String
  number : Int
  commentIssue : Option Int
  raw : String
deriving DecidableEq, Repr

/-- An object of `/issues/events` or `/issues/{n}/events`: `id`, and `issue.number`, present in
the repository's feed only (`0` when missing). -/
structure Ev where
  id : Int
  issue : Int
  raw : String
deriving DecidableEq, Repr

/-- One page of a listing, with its `Etag` header. -/
structure Page (α : Type) where
  items : List α
  etag : String
deriving DecidableEq, Repr

/-- The two date-ordered listings. -/
inductive DateAPI
  | issues
  | comments
deriving DecidableEq, Repr

/-- The API path, as stored in the event keys. -/
def DateAPI.path : DateAPI → String
  | .issues => "/issues"
  | .comments => "/issues/comments"

/-- GitHub as `SyncProject` sees it: the pages of each listing, following `Link: rel="next"`.
`byDate api since` is `/issues` or `/issues/comments` with `since` (`""`: none), `feed` is
`/issues/events`, `issueEvents n` is `/issues/{n}/events`. -/
structure Remote where
  byDate : DateAPI → String → List (Page Dated)
  feed : List (Page Ev)
  issueEvents : Int → List (Page Ev)

/-- The network during one run: the remote, and whether the `k`-th fetch of the run fails (an
HTTP error `get` gives up on). -/
structure Net where
  remote : Remote
  fails : Nat → Bool

/-- The errors `SyncProject` returns. -/
inductive Err
  /-- `get` failed. -/
  | http
  /-- `parsing message: no id: ...`. -/
  | noID (raw : String)
  /-- `parsing JSON: no updated_at: ...`. -/
  | noUpdated (raw : String)
  /-- `parsing message: no number: ...`. -/
  | noNumber (raw : String)
  /-- `invalid comment URL: ...`. -/
  | badCommentURL (raw : String)
  /-- `parsing message: no issue number: ...`. -/
  | noIssueNumber (raw : String)
  /-- `lost sync: missing event IDs between %d and %d`. -/
  | lostSync (eventID lastID : Int)
  /-- `testFullSyncStop`. -/
  | stop
  /-- `missing project`. -/
  | missingProject
  /-- The model's bound on `syncByDate`'s restarts ran out. -/
  | restarts
deriving DecidableEq, Repr

/-- The text of an error from the event listings. -/
def Err.lostSyncText (a b : Int) : String :=
  "lost sync: missing event IDs between " ++ toString a ++ " and " ++ toString b

/-! ## The database and a running sync -/

/-- The project's `projectSync` row and the `githubdl.Event` rows. -/
structure DB where
  sync : Option ProjectSync
  events : Store EventKey String

/-- A write that reaches the database. -/
inductive Commit
  /-- `proj.store(c.db)`. -/
  | store (p : ProjectSync)
  /-- A batch applied. -/
  | apply (b : Batch EventKey String)

/-- The database after a commit. -/
def DB.commit (db : DB) : Commit → DB
  | .store p => { db with sync := some p }
  | .apply b => { db with events := db.events.apply b }

/-- A running `SyncProject`. -/
structure St where
  db : DB
  batch : Batch EventKey String
  proj : ProjectSync
  lastTime : Int
  fetches : Nat
  commits : List Commit

namespace St

/-- Make a commit. -/
def commit (st : St) (c : Commit) : St :=
  { st with db := st.db.commit c, commits := st.commits ++ [c] }

/-- `proj.store(c.db)`. -/
def store (st : St) : St := st.commit (.store st.proj)

/-- `b.Apply()`: commit the batch and empty it. -/
def apply (st : St) : St :=
  let st' := st.commit (.apply st.batch)
  { st' with batch := [] }

/-- `b.MaybeApply()`. -/
def maybeApply (full : Batch EventKey String → Bool) (st : St) : St :=
  if full st.batch then st.apply else st

/-- `writeEvent`: `timed.Set` of the entry into the batch, at `now()`, one after the last
DBTime (the clock reads no later). -/
def writeEvent (st : St) (key : EventKey) (raw : String) : St :=
  { st with
    batch := set st.db.events st.batch key raw (st.lastTime + 1)
    lastTime := st.lastTime + 1 }

/-- Count one HTTP fetch. -/
def fetch (st : St) : St := { st with fetches := st.fetches + 1 }

/-- Change the in-memory `projectSync`. -/
def setProj (st : St) (p : ProjectSync) : St := { st with proj := p }

@[simp] theorem db_store (st : St) : st.store.db = { st.db with sync := some st.proj } := rfl
@[simp] theorem batch_store (st : St) : st.store.batch = st.batch := rfl
@[simp] theorem proj_store (st : St) : st.store.proj = st.proj := rfl
@[simp] theorem db_apply (st : St) : st.apply.db = { st.db with events := st.db.events.apply st.batch } := rfl
@[simp] theorem batch_apply (st : St) : st.apply.batch = [] := rfl
@[simp] theorem proj_apply (st : St) : st.apply.proj = st.proj := rfl
@[simp] theorem db_fetch (st : St) : st.fetch.db = st.db := rfl
@[simp] theorem batch_fetch (st : St) : st.fetch.batch = st.batch := rfl
@[simp] theorem proj_fetch (st : St) : st.fetch.proj = st.proj := rfl
@[simp] theorem db_setProj (st : St) (p : ProjectSync) : (st.setProj p).db = st.db := rfl
@[simp] theorem batch_setProj (st : St) (p : ProjectSync) : (st.setProj p).batch = st.batch := rfl
@[simp] theorem proj_setProj (st : St) (p : ProjectSync) : (st.setProj p).proj = p := rfl
@[simp] theorem db_writeEvent (st : St) (key : EventKey) (raw : String) :
    (st.writeEvent key raw).db = st.db := rfl
@[simp] theorem batch_writeEvent (st : St) (key : EventKey) (raw : String) :
    (st.writeEvent key raw).batch = set st.db.events st.batch key raw (st.lastTime + 1) := rfl
@[simp] theorem proj_writeEvent (st : St) (key : EventKey) (raw : String) :
    (st.writeEvent key raw).proj = st.proj := rfl

theorem maybeApply_eq (full : Batch EventKey String → Bool) (st : St) :
    st.maybeApply full = st.apply ∨ st.maybeApply full = st := by
  unfold maybeApply; split <;> simp

@[simp] theorem proj_maybeApply (full : Batch EventKey String → Bool) (st : St) :
    (st.maybeApply full).proj = st.proj := by
  rcases maybeApply_eq full st with h | h <;> rw [h]; rfl

end St

/-- Continue with `k` unless an error was returned. -/
def andThen (r : St × Option Err) (k : St → St × Option Err) : St × Option Err :=
  match r with
  | (st, none) => k st
  | r => r

@[simp] theorem andThen_none (st : St) (k : St → St × Option Err) : andThen (st, none) k = k st := rfl

@[simp] theorem andThen_some (st : St) (e : Err) (k : St → St × Option Err) :
    andThen (st, some e) k = (st, some e) := rfl

/-! ## `syncByDate` -/

/-- The date `since` of a listing: `IssueDate` or `CommentDate`. -/
def ProjectSync.since (p : ProjectSync) : DateAPI → String
  | .issues => p.issueDate
  | .comments => p.commentDate

/-- `*since = updated`. -/
def ProjectSync.setSince (p : ProjectSync) (api : DateAPI) (updated : String) : ProjectSync :=
  match api with
  | .issues => { p with issueDate := updated }
  | .comments => { p with commentDate := updated }

@[simp] theorem ProjectSync.since_setSince (p : ProjectSync) (api api' : DateAPI) (u : String) :
    (p.setSince api u).since api' = if api' = api then u else p.since api' := by
  cases api <;> cases api' <;> rfl

@[simp] theorem ProjectSync.name_setSince (p : ProjectSync) (api : DateAPI) (u : String) :
    (p.setSince api u).name = p.name := by cases api <;> rfl

@[simp] theorem ProjectSync.eventID_setSince (p : ProjectSync) (api : DateAPI) (u : String) :
    (p.setSince api u).eventID = p.eventID := by cases api <;> rfl

@[simp] theorem ProjectSync.eventETag_setSince (p : ProjectSync) (api : DateAPI) (u : String) :
    (p.setSince api u).eventETag = p.eventETag := by cases api <;> rfl

@[simp] theorem ProjectSync.fullSyncActive_setSince (p : ProjectSync) (api : DateAPI) (u : String) :
    (p.setSince api u).fullSyncActive = p.fullSyncActive := by cases api <;> rfl

@[simp] theorem ProjectSync.fullSyncIssue_setSince (p : ProjectSync) (api : DateAPI) (u : String) :
    (p.setSince api u).fullSyncIssue = p.fullSyncIssue := by cases api <;> rfl

/-- The issue number of a listed object, or the error for a malformed one. -/
def itemNumber (api : DateAPI) (x : Dated) : Except Err Int :=
  if x.id = 0 then .error (.noID x.raw) else
  if x.updated = "" then .error (.noUpdated x.raw) else
  match api with
  | .issues => if x.number = 0 then .error (.noNumber x.raw) else .ok x.number
  | .comments =>
    match x.commentIssue with
    | none => .error (.badCommentURL x.raw)
    | some n => .ok n

variable (net : Net) (full : Batch EventKey String → Bool)

/-- The loop over one page's objects: write each one, `MaybeApply`, advance `since`. -/
def dateItems (api : DateAPI) : St → List Dated → St × Option Err
  | st, [] => (st, none)
  | st, x :: xs =>
    match itemNumber api x with
    | .error e => (st, some e)
    | .ok n =>
      let st := (st.writeEvent ⟨st.proj.name, n, api.path, x.id⟩ x.raw).maybeApply full
      dateItems api (st.setProj (st.proj.setSince api x.updated)) xs

/-- How the loop over a listing's pages ends. -/
inductive PagesEnd
  | done
  | restart
  | err (e : Err)
deriving DecidableEq, Repr

/-- The loop over a date listing's pages: fetch, process the objects, `Apply` and store; after
the 500th page, restart. -/
def datePages (api : DateAPI) : St → List (Page Dated) → Nat → St × PagesEnd
  | st, [], _ => (st, .done)
  | st, pg :: pgs, npage =>
    if net.fails st.fetches then (st.fetch, .err .http) else
    match dateItems full api st.fetch pg.items with
    | (st, some e) => (st, .err e)
    | (st, none) =>
      if npage + 1 < 500 then datePages api st.apply.store pgs (npage + 1)
      else (st.apply.store, .restart)

/-- The listing from `Restart:` on, at most `fuel` more times. -/
def dateListing (api : DateAPI) : Nat → St → St × Option Err
  | fuel, st =>
    match datePages net full api st (net.remote.byDate api (st.proj.since api)) 0 with
    | (st, .done) => (st, none)
    | (st, .err e) => (st, some e)
    | (st, .restart) =>
      match fuel with
      | 0 => (st, some .restarts)
      | fuel + 1 => dateListing api fuel st

/-- `syncByDate(proj, api)`: a new batch, the listing, then the deferred `proj.store` and
`b.Apply()`, in that order. -/
def syncByDate (fuel : Nat) (api : DateAPI) (st : St) : St × Option Err :=
  let r := dateListing net full api fuel { st with batch := [] }
  (r.1.store.apply, r.2)

/-! ## `syncIssueEvents` -/

/-- `firstID`, `firstETag`, `lastID` and `stopped`. -/
structure EvAcc where
  firstID : Int
  firstETag : String
  lastID : Int
  stopped : Bool
deriving DecidableEq, Repr

/-- Reading event `x` of a page with ETag `etag`: the first event sets `firstID` and
`firstETag`, every event sets `lastID`. -/
def EvAcc.read (acc : EvAcc) (etag : String) (x : Ev) : EvAcc :=
  { (if acc.firstID = 0 then { acc with firstID := x.id, firstETag := etag } else acc) with
    lastID := x.id }

/-- How the loop over a page's events ends: on to the next page, `break Pages`, or an error. -/
inductive Flow
  | next
  | brk
  | err (e : Err)
deriving DecidableEq, Repr

/-- The loop over one page's events. `issue = 0` reads the repository's feed; it stops at the
first event at or below `EventID`, or at once with `onlySetLatest`. -/
def evItems (issue : Int) (onlySetLatest : Bool) (etag : String) :
    St → EvAcc → List Ev → St × EvAcc × Flow
  | st, acc, [] => (st, acc, .next)
  | st, acc, x :: xs =>
    if issue ≤ 0 ∧ x.issue = 0 then (st, acc, .err (.noIssueNumber x.raw)) else
    if x.id = 0 then (st, acc, .err (.noID x.raw)) else
    let acc := acc.read etag x
    if issue = 0 ∧ (onlySetLatest ∨ st.proj.eventID ≠ 0 ∧ x.id ≤ st.proj.eventID) then
      (st, { acc with stopped := true }, .brk)
    else
      let n := if 0 < issue then issue else x.issue
      evItems issue onlySetLatest etag
        ((st.writeEvent ⟨st.proj.name, n, "/issues/events", x.id⟩ x.raw).maybeApply full) acc xs

/-- How `syncIssueEvents`'s loop over pages ends: after the last page or a `break`, on a
`304 Not Modified`, or on an error. -/
inductive EvEnd
  | ended
  | notModified
  | err (e : Err)
deriving DecidableEq, Repr

/-- The loop over an events listing's pages, each fetched with `If-None-Match: inm`. -/
def evPages (issue : Int) (onlySetLatest : Bool) (inm : String) :
    St → EvAcc → List (Page Ev) → St × EvAcc × EvEnd
  | st, acc, [] => (st, acc, .ended)
  | st, acc, pg :: pgs =>
    if net.fails st.fetches then (st.fetch, acc, .err .http) else
    if inm ≠ "" ∧ inm = pg.etag then (st.fetch, acc, .notModified) else
    match evItems full issue onlySetLatest pg.etag st.fetch acc pg.items with
    | (st, acc, .next) => evPages issue onlySetLatest inm st acc pgs
    | (st, acc, .brk) => (st, acc, .ended)
    | (st, acc, .err e) => (st, acc, .err e)

/-- `syncIssueEvents(proj, issue, onlySetLatest)`: the listing, then for the repository's feed
the lost-sync check and the new `EventID` and `EventETag`, stored, then the deferred
`b.Apply()`. -/
def syncIssueEvents (issue : Int) (onlySetLatest : Bool) (st : St) : St × Option Err :=
  let pages := if 0 < issue then net.remote.issueEvents issue else net.remote.feed
  let r := evPages net full issue onlySetLatest st.proj.eventETag { st with batch := [] }
    ⟨0, "", 0, false⟩ pages
  let st := r.1
  let acc := r.2.1
  let r : St × Option Err :=
    match r.2.2 with
    | .notModified => (st, none)
    | .err e => (st, some e)
    | .ended =>
      if issue = 0 ∧ acc.lastID ≠ 0 ∧ ¬acc.stopped then
        (st, some (.lostSync st.proj.eventID acc.lastID))
      else if issue = 0 then
        ((st.setProj { st.proj with eventID := acc.firstID, eventETag := acc.firstETag }).store, none)
      else (st, none)
  (r.1.apply, r.2)

/-! ## `SyncProject` -/

/-- The issue numbers of the project's rows, in key order: what the full sync's `Scan` of
`("githubdl.Event", project)` decodes. -/
def issueNumbers (db : DB) (project : String) : List Int :=
  ((db.events.prim.entries.filter fun e => e.1.project = project).map fun e => e.1.issue)

/-- The full sync's loop over the issues: sync each issue's events, then store `FullSyncIssue`;
with `testFullSyncStop` set (`stop`), return it after the first. -/
def perIssue (stop : Bool) : St → List Int → St × Option Err
  | st, [] => (st, none)
  | st, n :: ns =>
    if n ≤ st.proj.fullSyncIssue then perIssue stop st ns else
    match syncIssueEvents net full n false st with
    | (st, some e) => (st, some e)
    | (st, none) =>
      let st := (st.setProj { st.proj with fullSyncIssue := n }).store
      if stop then (st, some .stop) else perIssue stop st ns

/-- The full sync, when `EventID == 0 || FullSyncActive`. -/
def fullSync (stop : Bool) (fuel : Nat) (project : String) (st : St) : St × Option Err :=
  andThen
    (if st.proj.eventID = 0 then
      syncIssueEvents net full 0 true
        (st.setProj { st.proj with fullSyncActive := true, fullSyncIssue := 0 }).store
    else (st, none)) fun st =>
  andThen (syncByDate net full fuel .issues st) fun st =>
  andThen (perIssue net full stop st (issueNumbers st.db project)) fun st =>
  ((st.setProj { st.proj with fullSyncActive := false }).store, none)

/-- `SyncProject(project)` from database `db`, with `now()` last at `lastTime`. -/
def syncProject (stop : Bool) (fuel : Nat) (project : String) (db : DB) (lastTime : Int) :
    St × Option Err :=
  match db.sync with
  | none => (⟨db, [], ProjectSync.init project, lastTime, 0, []⟩, some .missingProject)
  | some proj =>
    andThen (syncByDate net full fuel .issues ⟨db, [], proj, lastTime, 0, []⟩) fun st =>
    andThen (syncByDate net full fuel .comments st) fun st =>
    andThen (if st.proj.eventID = 0 ∨ st.proj.fullSyncActive then fullSync net full stop fuel project st
      else (st, none)) fun st =>
    syncIssueEvents net full 0 false st

/-! ## Runs at particular inputs -/

/-- Every date listing is one empty page. -/
def noDates : DateAPI → String → List (Page Dated) := fun _ _ => [⟨[], ""⟩]

/-- A network that never fails, over a remote with no issues or comments listed and the given
feed. -/
def feedNet (feed : List (Page Ev)) : Net := ⟨⟨noDates, feed, fun _ => [⟨[], ""⟩]⟩, fun _ => false⟩

/-- Project `p`, synced up to event `5` of issue `1`, which the database holds. -/
def eventFiveDB : DB :=
  ⟨some ⟨"p", "", 5, "", "", false, 0⟩,
    (⟨"githubdl.Event", .empty, .empty⟩ : Store EventKey String).apply
      [.setTime 1 ⟨"p", 1, "/issues/events", 5⟩, .set ⟨"p", 1, "/issues/events", 5⟩ 1 "ev5"]⟩

/-- A feed with event `6` of issue `1` above the synced event `5`. -/
def sixFeed : Net := feedNet [⟨[⟨6, 1, "ev6"⟩, ⟨5, 1, "ev5"⟩], "etag"⟩]

/-- The incremental sync of `eventFiveDB` over that feed. -/
def incrementalRun : St × Option Err := syncProject sixFeed (fun _ => false) false 1 "p" eventFiveDB 1

/-- The database a crash just before the run's last commit leaves. -/
def crashDB : DB := incrementalRun.1.commits.dropLast.foldl DB.commit eventFiveDB

/-- An incremental sync that finds event `6` stores `EventID = 6` before its deferred `Apply`
commits the event: a crash between the two leaves the cursor past an event the database does not
hold, and the next sync, stopping at `EventID`, never fetches it. -/
theorem incrementalSync_store_before_apply :
    incrementalRun.2 = none ∧
      incrementalRun.1.db.events.prim.get ⟨"p", 1, "/issues/events", 6⟩ = some (2, "ev6") ∧
      crashDB.sync.map ProjectSync.eventID = some 6 ∧
      crashDB.events.prim.get ⟨"p", 1, "/issues/events", 6⟩ = none ∧
      (syncProject sixFeed (fun _ => false) false 1 "p" crashDB 2).1.db.events.prim.get
        ⟨"p", 1, "/issues/events", 6⟩ = none := by
  decide

/-- A remote with one issue and no issue events at all. -/
def oneIssueNet : Net :=
  ⟨⟨fun api _ => match api with
      | .issues => [⟨[⟨100, "2024-06-01T00:00:00Z", 1, none, "issue1"⟩], ""⟩]
      | .comments => [⟨[], ""⟩],
    [⟨[], ""⟩], fun _ => [⟨[], ""⟩]⟩, fun _ => false⟩

/-- The first sync of that remote, with `testFullSyncStop` set. -/
def oneIssueFirst : St × Option Err :=
  syncProject oneIssueNet (fun _ => false) true 1 "p" ⟨some (ProjectSync.init "p"), ⟨"githubdl.Event", .empty, .empty⟩⟩ 0

/-- With an empty event feed, `EventID` stays `0`, so every sync restarts the full sync at
`FullSyncIssue = 0`: the second interrupted sync stores the same `projectSync` as the first,
and retrying until no `testFullSyncStop` never ends. -/
theorem fullSyncStop_no_progress :
    oneIssueFirst.2 = some .stop ∧ oneIssueFirst.1.db.sync.map ProjectSync.fullSyncIssue = some 1 ∧
      (syncProject oneIssueNet (fun _ => false) true 1 "p" oneIssueFirst.1.db
        oneIssueFirst.1.lastTime).2 = some .stop ∧
      (syncProject oneIssueNet (fun _ => false) true 1 "p" oneIssueFirst.1.db
        oneIssueFirst.1.lastTime).1.db.sync = oneIssueFirst.1.db.sync := by
  decide

/-- Project `p` synced up to event `5`, with no events stored. -/
def eventFiveSync : DB := ⟨some ⟨"p", "", 5, "", "", false, 0⟩, ⟨"githubdl.Event", .empty, .empty⟩⟩

/-- The feed cut to its newest event, `10`. -/
def tenFeed : Net := feedNet [⟨[⟨10, 1, "ev10"⟩], "etag"⟩]

/-- The first sync of `eventFiveSync` over that feed. -/
def lostFirst : St × Option Err := syncProject tenFeed (fun _ => false) false 1 "p" eventFiveSync 0

/-- The sync never meets an event at or below `EventID = 5`, fails with lost sync and leaves
`projectSync` as it was, so the next sync does the same. -/
theorem lostSync_no_recovery :
    lostFirst.2 = some (.lostSync 5 10) ∧ lostFirst.1.db.sync = eventFiveSync.sync ∧
      (syncProject tenFeed (fun _ => false) false 1 "p" lostFirst.1.db lostFirst.1.lastTime).2 =
        some (.lostSync 5 10) ∧
      (syncProject tenFeed (fun _ => false) false 1 "p" lostFirst.1.db
        lostFirst.1.lastTime).1.db.sync = eventFiveSync.sync := by
  decide

/-- An empty first page of the feed, answered `200 OK`, sets `EventID` from `5` to `0`. -/
theorem emptyFeed_resets_eventID :
    (syncProject (feedNet [⟨[], ""⟩]) (fun _ => false) false 1 "p" eventFiveSync 0).2 = none ∧
      (syncProject (feedNet [⟨[], ""⟩]) (fun _ => false) false 1 "p" eventFiveSync
        0).1.db.sync.map ProjectSync.eventID = some 0 := by
  decide

end Gaby.Github
