import Gaby.Github.Sync
import Gaby.Timed.Invariant

/-!
# GitHub as a fixed remote, and what a running sync keeps true

`FixedRemote project` is GitHub, for one project, as the mirror's correctness needs it: the
project's issues, comments and issue events, and the listings `SyncProject` reads, with what
they promise about them. The listings' page splits are arbitrary, and so is the failure of
every fetch (`Net.fails`, chosen per run: `FixedRemote.net`).

What is assumed of the remote is stated as the fields of `FixedRemote`:
* every object carries what the code parses out of it (`dated_ok`), issue numbers and event ids
  are positive, and every event is an event of one of the issues (`event_ok`);
* `/issues` and `/issues/comments` with `since` list each object updated at or after `since`
  once, by ascending `updated_at` (`byDate_mem`, `byDate_sorted`, `byDate_nodup`);
* `/issues/events` lists every event once, by descending id (`feed_mem`, `feed_sorted`);
* `/issues/{n}/events` lists the events of issue `n` once (`issueEvents_mem`,
  `issueEvents_nodup`).
A page answers `304 Not Modified` exactly when `If-None-Match` is its own ETag (`evPages`).
`SyncProject` sends the feed's `EventETag` to every events listing; that no page of an
`/issues/{n}/events` listing carries the ETag of a feed page is the separate assumption
`FixedRemote.DistinctETags`.

`Good R st` is the invariant of a running sync. Each of the project's keys has exactly its
primary row's index row (`Exact`), the batch is `Staged`, every stored row of the project is a
remote object's (`sound`), and the in-memory and the stored `projectSync` keep their promises
(`Covers`) about the rows written so far (`St.view`: the database with the batch applied).
Every state change `SyncProject` makes keeps it (`Good.store`, `Good.apply`, `Good.writeEvent`,
`Good.setProj`) and only adds rows (`Grows`).
-/

namespace Gaby.Github

open Timed

/-! ## The remote -/

/-- The issue number an object of a date listing is stored under: `number` for an issue, what
`issue_url` ends with for a comment. -/
def Dated.issue (api : DateAPI) (x : Dated) : Int :=
  match api with
  | .issues => x.number
  | .comments => x.commentIssue.getD 0

/-- The key `syncByDate` writes an object under. -/
def Dated.key (project : String) (api : DateAPI) (x : Dated) : EventKey :=
  ⟨project, x.issue api, api.path, x.id⟩

/-- The key of an event: `(project, issue, "/issues/events", id)`. -/
def Ev.key (project : String) (x : Ev) : EventKey := ⟨project, x.issue, "/issues/events", x.id⟩

/-- The objects of a listing's pages, in order. -/
def Page.all {α : Type} (pgs : List (Page α)) : List α := pgs.flatMap Page.items

@[simp] theorem Page.all_nil {α : Type} : Page.all ([] : List (Page α)) = [] := rfl

@[simp] theorem Page.all_cons {α : Type} (pg : Page α) (pgs : List (Page α)) :
    Page.all (pg :: pgs) = pg.items ++ Page.all pgs := rfl

/-- GitHub as a fixed remote for `project`: its issues (`dated .issues`), comments
(`dated .comments`) and issue events, and listings of them that behave as the API does. -/
structure FixedRemote (project : String) where
  remote : Remote
  dated : DateAPI → List Dated
  events : List Ev
  /-- `syncByDate` parses an id, an `updated_at` and an issue number out of every object. -/
  dated_ok : ∀ api, ∀ x ∈ dated api, itemNumber api x = .ok (x.issue api)
  number_pos : ∀ x ∈ dated .issues, 0 < x.number
  /-- Event ids are positive, and every event is one of an issue's. -/
  event_ok : ∀ x ∈ events, 0 < x.id ∧ ∃ y ∈ dated .issues, y.number = x.issue
  /-- A date listing from `since` has the objects updated at or after `since`. -/
  byDate_mem : ∀ api since x,
    x ∈ Page.all (remote.byDate api since) ↔ x ∈ dated api ∧ since.data ≤ x.updated.data
  byDate_sorted : ∀ api since,
    (Page.all (remote.byDate api since)).Pairwise fun x y => x.updated.data ≤ y.updated.data
  byDate_nodup : ∀ api since, ((Page.all (remote.byDate api since)).map (Dated.key project api)).Nodup
  feed_mem : ∀ x, x ∈ Page.all remote.feed ↔ x ∈ events
  feed_sorted : (Page.all remote.feed).Pairwise fun x y => y.id < x.id
  /-- `/issues/{n}/events` has the ids of issue `n`'s events. -/
  issueEvents_mem : ∀ n, 0 < n → ∀ i,
    i ∈ (Page.all (remote.issueEvents n)).map Ev.id ↔ ∃ x ∈ events, x.issue = n ∧ x.id = i
  issueEvents_nodup : ∀ n, 0 < n → ((Page.all (remote.issueEvents n)).map Ev.id).Nodup

namespace FixedRemote

variable {project : String} (R : FixedRemote project)

/-- The keys of the remote's objects. -/
def keys : List EventKey :=
  (R.dated .issues).map (Dated.key project .issues) ++
    (R.dated .comments).map (Dated.key project .comments) ++ R.events.map (Ev.key project)

/-- The network of one run: the remote, and which fetches fail. -/
def net (fails : Nat → Bool) : Net := ⟨R.remote, fails⟩

@[simp] theorem remote_net (fails : Nat → Bool) : (R.net fails).remote = R.remote := rfl

/-- No page of an `/issues/{n}/events` listing carries the (non-empty) ETag of a page of the
`/issues/events` feed. -/
def DistinctETags : Prop :=
  ∀ n, 0 < n → ∀ pg ∈ R.remote.issueEvents n, ∀ pg' ∈ R.remote.feed,
    pg'.etag ≠ "" → pg.etag ≠ pg'.etag

variable {R}

theorem dated_key_mem {api : DateAPI} {x : Dated} (hx : x ∈ R.dated api) :
    x.key project api ∈ R.keys := by
  cases api <;> simp [keys, List.mem_map_of_mem _ hx]

theorem event_key_mem {x : Ev} (hx : x ∈ R.events) : x.key project ∈ R.keys := by
  simp [keys, List.mem_map_of_mem _ hx]

theorem event_issue_pos {x : Ev} (hx : x ∈ R.events) : 0 < x.issue := by
  obtain ⟨-, y, hy, he⟩ := R.event_ok x hx
  exact he ▸ R.number_pos y hy

end FixedRemote

/-! ## Rows written -/

/-- `db` holds a primary row for `k`. -/
def Stored (db : Store EventKey String) (k : EventKey) : Prop := db.prim.get k ≠ none

/-- The rows a running sync has written: the database with the batch applied. -/
def St.view (st : St) : Store EventKey String := st.db.events.apply st.batch

namespace St

@[simp] theorem view_fetch (st : St) : st.fetch.view = st.view := rfl
@[simp] theorem view_store (st : St) : st.store.view = st.view := rfl
@[simp] theorem view_apply (st : St) : st.apply.view = st.view := rfl
@[simp] theorem view_setProj (st : St) (p : ProjectSync) : (st.setProj p).view = st.view := rfl

@[simp] theorem view_maybeApply (full : Batch EventKey String → Bool) (st : St) :
    (st.maybeApply full).view = st.view := by
  rcases maybeApply_eq full st with h | h <;> rw [h]; rfl

theorem prim_view_writeEvent (st : St) (key : EventKey) (raw : String) (k : EventKey) :
    (st.writeEvent key raw).view.prim.get k =
      if k = key then some (st.lastTime + 1, raw) else st.view.prim.get k := by
  simp only [view, db_writeEvent, batch_writeEvent, set_eq, Store.apply_append,
    Block.prim_apply_set]
  congr

theorem mem_batch_maybeApply {full : Batch EventKey String → Bool} {st : St} {o : Op EventKey String}
    (h : o ∈ (st.maybeApply full).batch) : o ∈ st.batch := by
  rcases maybeApply_eq full st with he | he <;> rw [he] at h
  · simp at h
  · exact h

theorem mem_batch_writeEvent {st : St} {key : EventKey} {raw : String} {o : Op EventKey String}
    (h : o ∈ (st.writeEvent key raw).batch) : o ∈ st.batch ∨ o.key = key := by
  rw [batch_writeEvent, set_eq, List.mem_append] at h
  rcases h with h | h
  · exact .inl h
  · exact .inr (Block.key_of_mem_ops h)

end St

/-- Every row `st` has written, `st'` has too. -/
def Grows (st st' : St) : Prop := ∀ k, Stored st.view k → Stored st'.view k

theorem Grows.refl (st : St) : Grows st st := fun _ h => h

theorem Grows.trans {st₁ st₂ st₃ : St} (h₁ : Grows st₁ st₂) (h₂ : Grows st₂ st₃) :
    Grows st₁ st₃ := fun k h => h₂ k (h₁ k h)

theorem grows_writeEvent (st : St) (key : EventKey) (raw : String) :
    Grows st (st.writeEvent key raw) := fun k h => by
  unfold Stored at *
  rw [St.prim_view_writeEvent]
  split_ifs <;> simp_all

theorem stored_writeEvent (st : St) (key : EventKey) (raw : String) :
    Stored (st.writeEvent key raw).view key := by
  simp [Stored, St.prim_view_writeEvent]

/-! ## The invariant -/

variable {project : String} (R : FixedRemote project)

/-- What a `projectSync` row `p` promises about the rows `V`. -/
structure Covers (V : Store EventKey String) (p : ProjectSync) : Prop where
  name : p.name = project
  /-- Every object updated before `IssueDate` (`CommentDate`) is stored. -/
  dated : ∀ api, ∀ x ∈ R.dated api, x.updated.data < (p.since api).data →
    Stored V (x.key project api)
  /-- Outside a full sync, every event up to `EventID` is stored. -/
  events : p.fullSyncActive = false → ∀ x ∈ R.events, x.id ≤ p.eventID → Stored V (x.key project)
  /-- During a full sync, every event of the issues up to `FullSyncIssue` is stored. -/
  fullSync : p.fullSyncActive = true → ∀ x ∈ R.events, x.issue ≤ p.fullSyncIssue →
    Stored V (x.key project)
  fullSyncIssue_nonneg : 0 ≤ p.fullSyncIssue
  /-- A nonzero `EventID` is at least every event's id. -/
  eventID : p.eventID ≠ 0 → ∀ x ∈ R.events, x.id ≤ p.eventID
  /-- An `EventETag` is a feed page's, stored with a nonzero `EventID`. -/
  eventETag : p.eventETag ≠ "" → p.eventID ≠ 0 ∧ ∃ pg ∈ R.remote.feed, pg.etag = p.eventETag

/-- The invariant of a running `SyncProject`. -/
structure Good (st : St) : Prop where
  exact : ∀ k : EventKey, k.project = project → Exact st.db.events k
  staged : Staged st.db.events st.batch
  sound : ∀ k : EventKey, k.project = project → Stored st.view k → k ∈ R.keys
  proj : Covers R st.view st.proj
  stored : ∃ p, st.db.sync = some p ∧ Covers R st.view p

/-- What a call from `st` that returns `r` keeps: the invariant, with its batch applied, every
row written before, and a stored `projectSync` row equal to the one in memory. -/
structure Keeps (st : St) (r : St × Option Err) : Prop where
  good : Good R r.1
  batch : r.1.batch = []
  grows : Grows st r.1
  /-- The `projectSync` row stored is the one in memory, as it was. -/
  sync : st.db.sync = some st.proj → r.1.db.sync = some r.1.proj

variable {R}

theorem Covers.mono {V V' : Store EventKey String} {p : ProjectSync} (h : Covers R V p)
    (hV : ∀ k, Stored V k → Stored V' k) : Covers R V' p :=
  ⟨h.name, fun api x hx hlt => hV _ (h.dated api x hx hlt),
    fun ha x hx hle => hV _ (h.events ha x hx hle), fun ha x hx hle => hV _ (h.fullSync ha x hx hle),
    h.fullSyncIssue_nonneg, h.eventID, h.eventETag⟩

namespace Good

variable {st : St}

theorem fetch (h : Good R st) : Good R st.fetch := ⟨h.exact, h.staged, h.sound, h.proj, h.stored⟩

theorem store (h : Good R st) : Good R st.store :=
  { h with stored := ⟨st.proj, rfl, h.proj⟩ }

theorem apply (h : Good R st) : Good R st.apply :=
  { h with
    exact := fun k hk => exact_apply_staged (h.exact k hk) h.staged
    staged := staged_nil _ }

theorem maybeApply (h : Good R st) (full : Batch EventKey String → Bool) :
    Good R (st.maybeApply full) := by
  rcases St.maybeApply_eq full st with he | he <;> rw [he]
  · exact h.apply
  · exact h

theorem setProj (h : Good R st) {p : ProjectSync} (hp : Covers R st.view p) :
    Good R (st.setProj p) :=
  { h with proj := hp }

theorem writeEvent (h : Good R st) {key : EventKey} (hk : key ∈ R.keys)
    (hb : ∀ o ∈ st.batch, o.key ≠ key) (raw : String) : Good R (st.writeEvent key raw) := by
  have hg := grows_writeEvent st key raw
  obtain ⟨p, hp, hc⟩ := h.stored
  refine ⟨h.exact, staged_set h.staged hb raw _, fun k hkp' hs => ?_, h.proj.mono hg,
    ⟨p, hp, hc.mono hg⟩⟩
  unfold Stored at hs
  rw [St.prim_view_writeEvent] at hs
  split_ifs at hs with he
  · exact he ▸ hk
  · exact h.sound k hkp' hs

theorem writeNext (h : Good R st) {α : Type} (f : α → EventKey) {pre rest : List α} {x : α}
    (hnd : ((pre ++ x :: rest).map f).Nodup) (hk : f x ∈ R.keys)
    (hdone : ∀ y ∈ pre, Stored st.view (f y)) (hb : ∀ o ∈ st.batch, o.key ∈ pre.map f)
    (raw : String) (full : Batch EventKey String → Bool) :
    let st1 := (st.writeEvent (f x) raw).maybeApply full
    Good R st1 ∧ Grows st st1 ∧ (∀ y ∈ pre ++ [x], Stored st1.view (f y)) ∧
      ∀ o ∈ st1.batch, o.key ∈ (pre ++ [x]).map f := by
  intro st1
  rw [List.map_append, List.map_cons] at hnd
  have hfresh : ∀ o ∈ st.batch, o.key ≠ f x :=
    fun o ho he => (List.nodup_append.1 hnd).2.2 (he ▸ hb o ho) (.head _)
  have hg1 : Grows st st1 := fun k hk => by
    simpa only [st1, St.view_maybeApply] using grows_writeEvent st _ raw k hk
  refine ⟨(h.writeEvent hk hfresh raw).maybeApply full, hg1, fun y hy => ?_, fun o ho => ?_⟩
  · rcases List.mem_append.1 hy with hy | hy
    · exact hg1 _ (hdone y hy)
    · rw [List.mem_singleton.1 hy]
      simpa only [st1, St.view_maybeApply] using stored_writeEvent st _ raw
  · rw [List.map_append]
    rcases St.mem_batch_writeEvent (St.mem_batch_maybeApply ho) with ho | ho
    · exact List.mem_append_left _ (hb o ho)
    · rw [ho]; simp

end Good

end Gaby.Github
