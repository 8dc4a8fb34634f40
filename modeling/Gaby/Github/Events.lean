import Gaby.Github.Remote

/-!
# `syncIssueEvents` against a fixed remote

The loops over an events listing keep `EvLoop`: the sync's invariant, the rows of the events
read so far, and a batch that holds only those. The accumulator is a function of the events
read (`accOf`): `firstID` and `firstETag` are the first event's, `lastID` the last one's.
Nothing a fixed remote lists makes the loop fail, so it ends after every event, or stops at one
(`EvStopped`): in the feed, the first event at or below `EventID`, or the first event at all with
`onlySetLatest` (`evItems_spec`, `evPages_spec`).

`syncIssueEvents` is then three functions:
* for issue `n > 0` it stores every event of the issue, unless a page answers `304`, which
  `FixedRemote.DistinctETags` rules out (`syncIssueEvents_issue_spec`);
* for the feed, the new `EventID` is the newest event's and `EventETag` its page's; outside a full
  sync, every event above the old `EventID` was read before the stop, so every event up to the
  new one is stored (`syncIssueEvents_feed_spec`).
-/

namespace Gaby.Github

open Timed

/-- The key `evItems` writes an event under when syncing `issue` (`0`: the repository's feed). -/
def evKey (project : String) (issue : Int) (x : Ev) : EventKey :=
  ⟨project, if 0 < issue then issue else x.issue, "/issues/events", x.id⟩

/-- A listing's events, each with its page's ETag, in order. -/
def Page.tagged (pgs : List (Page Ev)) : List (String × Ev) :=
  pgs.flatMap fun pg => pg.items.map (pg.etag, ·)

@[simp] theorem Page.tagged_nil : Page.tagged [] = [] := rfl

@[simp] theorem Page.tagged_cons (pg : Page Ev) (pgs : List (Page Ev)) :
    Page.tagged (pg :: pgs) = pg.items.map (pg.etag, ·) ++ Page.tagged pgs := rfl

theorem Page.map_snd_tagged (pgs : List (Page Ev)) : (Page.tagged pgs).map Prod.snd = Page.all pgs := by
  induction pgs with
  | nil => rfl
  | cons pg pgs ih => simp [ih, Function.comp_def]

theorem Page.mem_tagged {pgs : List (Page Ev)} {y : String × Ev} (h : y ∈ Page.tagged pgs) :
    y.2 ∈ Page.all pgs ∧ ∃ pg ∈ pgs, pg.etag = y.1 := by
  obtain ⟨pg, hpg, hy⟩ := List.mem_flatMap.1 h
  obtain ⟨x, hx, rfl⟩ := List.mem_map.1 hy
  exact ⟨List.mem_flatMap.2 ⟨pg, hpg, hx⟩, pg, hpg, rfl⟩

/-- `firstID`, `firstETag` and `lastID` after reading the events `pre`. -/
def accOf (pre : List (String × Ev)) : EvAcc :=
  ⟨(pre.head?.map (·.2.id)).getD 0, (pre.head?.map (·.1)).getD "",
    (pre.getLast?.map (·.2.id)).getD 0, false⟩

theorem accOf_snoc {pre : List (String × Ev)} (hpre : ∀ y ∈ pre, y.2.id ≠ 0) (e : String) (x : Ev) :
    (accOf pre).read e x = accOf (pre ++ [(e, x)]) := by
  cases pre with
  | nil => simp [accOf, EvAcc.read]
  | cons y ys => simp [accOf, EvAcc.read, hpre y (.head _), List.getLast?_cons]

theorem accOf_lastID_eq_zero {T : List (String × Ev)} (hT : ∀ y ∈ T, y.2.id ≠ 0)
    (h : (accOf T).lastID = 0) : T = [] := by
  rcases List.eq_nil_or_concat T with rfl | ⟨L, b, rfl⟩
  · rfl
  · simp [accOf] at h
    exact absurd h (hT b (by simp))

variable {project : String} (R : FixedRemote project)

/-- A listing `syncIssueEvents issue` reads without error, each event once, all of the remote. -/
structure EvListing (issue : Int) (T : List (String × Ev)) : Prop where
  ok : ∀ y ∈ T, y.2.id ≠ 0 ∧ (issue ≤ 0 → y.2.issue ≠ 0)
  nodup : (T.map fun y => evKey project issue y.2).Nodup
  keys : ∀ y ∈ T, evKey project issue y.2 ∈ R.keys

/-- The loop over an events listing, started at `st0`, with the events `pre` written. -/
structure EvLoop (issue : Int) (st0 : St) (pre : List (String × Ev)) (st : St) : Prop where
  good : Good R st
  grows : Grows st0 st
  proj : st.proj = st0.proj
  sync : st.db.sync = st0.db.sync
  done : ∀ y ∈ pre, Stored st.view (evKey project issue y.2)
  batch : ∀ o ∈ st.batch, o.key ∈ pre.map fun y => evKey project issue y.2

/-- `evItems` stops at `x`: in the feed, with `onlySetLatest` or at or below `EventID`. -/
def Stops (issue : Int) (onlySetLatest : Bool) (eventID : Int) (x : Ev) : Prop :=
  issue = 0 ∧ (onlySetLatest = true ∨ eventID ≠ 0 ∧ x.id ≤ eventID)

/-- The loop over listing `T` stopped at its event `x`, with the events before it written. -/
def EvStopped (issue : Int) (onlySetLatest : Bool) (st0 : St) (T : List (String × Ev))
    (r : St × EvAcc) : Prop :=
  ∃ pre e x post, T = pre ++ (e, x) :: post ∧ Stops issue onlySetLatest st0.proj.eventID x ∧
    r.2 = { accOf (pre ++ [(e, x)]) with stopped := true } ∧ EvLoop R issue st0 pre r.1

/-- How the loop over the pages `pgs` of listing `T` ended, fetched with `If-None-Match: inm`. -/
structure EvEnded (issue : Int) (onlySetLatest : Bool) (st0 : St) (T : List (String × Ev))
    (inm : String) (pgs : List (Page Ev)) (r : St × EvAcc × EvEnd) : Prop where
  loop : ∃ pre, EvLoop R issue st0 pre r.1
  notModified : r.2.2 = .notModified → inm ≠ "" ∧ ∃ pg ∈ pgs, pg.etag = inm
  ended : r.2.2 = .ended → (r.2.1 = accOf T ∧ EvLoop R issue st0 T r.1) ∨
    EvStopped R issue onlySetLatest st0 T (r.1, r.2.1)

variable {R} {issue : Int} {st0 : St} {T : List (String × Ev)}

theorem EvLoop.start {st : St} (h : Good R st) (hb : st.batch = []) : EvLoop R issue st [] st :=
  ⟨h, .refl st, rfl, rfl, (fun _ h => nomatch h), fun o ho => by simp [hb] at ho⟩

theorem EvLoop.fetch {pre : List (String × Ev)} {st : St} (h : EvLoop R issue st0 pre st) :
    EvLoop R issue st0 pre st.fetch :=
  ⟨h.good.fetch, h.grows, h.proj, h.sync, h.done, h.batch⟩

theorem EvLoop.step {pre : List (String × Ev)} {st : St} (h : EvLoop R issue st0 pre st)
    (hT : EvListing R issue T) (full : Batch EventKey String → Bool) {e : String} {x : Ev}
    {rest : List (String × Ev)} (hL : T = pre ++ (e, x) :: rest) :
    EvLoop R issue st0 (pre ++ [(e, x)])
      ((st.writeEvent (evKey project issue x) x.raw).maybeApply full) := by
  obtain ⟨hg1, hgr1, hdone1, hb1⟩ := h.good.writeNext (fun y : String × Ev => evKey project issue y.2)
    (hL ▸ hT.nodup) (hT.keys (e, x) (by rw [hL]; simp)) h.done h.batch x.raw full
  refine ⟨hg1, h.grows.trans hgr1, by simp [h.proj], ?_, hdone1, hb1⟩
  rcases St.maybeApply_eq full (st.writeEvent (evKey project issue x) x.raw) with he | he <;>
    simp [he, h.sync]

variable (full : Batch EventKey String → Bool) (onlySetLatest : Bool) (etag : String)

theorem evItems_spec (hT : EvListing R issue T) :
    ∀ (xs : List Ev) {pre : List (String × Ev)} {st : St} (rest : List (String × Ev)),
    T = pre ++ xs.map (etag, ·) ++ rest → EvLoop R issue st0 pre st →
    let r := evItems full issue onlySetLatest etag st (accOf pre) xs
    (r.2.2 = .next ∧ r.2.1 = accOf (pre ++ xs.map (etag, ·)) ∧
        EvLoop R issue st0 (pre ++ xs.map (etag, ·)) r.1) ∨
      (r.2.2 = .brk ∧ EvStopped R issue onlySetLatest st0 T (r.1, r.2.1))
  | [], pre, st, _, _, h => .inl ⟨rfl, by simp [evItems], by simpa using h⟩
  | x :: xs, pre, st, rest, hL, h => by
    have hx := hT.ok (etag, x) (hL ▸ by simp)
    have hpre : ∀ y ∈ pre, y.2.id ≠ 0 := fun y hy => (hT.ok y (hL ▸ by simp [hy])).1
    have hx1 : ¬(issue ≤ 0 ∧ x.issue = 0) := fun h => hx.2 h.1 h.2
    simp only [evItems, if_neg hx1, if_neg hx.1, accOf_snoc hpre, h.good.proj.name]
    by_cases hs : issue = 0 ∧ (onlySetLatest = true ∨ st.proj.eventID ≠ 0 ∧ x.id ≤ st.proj.eventID)
    · rw [if_pos hs]
      exact .inr ⟨rfl, pre, etag, x, xs.map (etag, ·) ++ rest, by simpa using hL,
        by rw [Stops, ← h.proj]; exact hs, rfl, h⟩
    · rw [if_neg hs, show pre ++ (x :: xs).map (etag, ·) = pre ++ [(etag, x)] ++ xs.map (etag, ·) by simp]
      exact evItems_spec hT xs rest (by simpa using hL)
        (h.step hT full (show _ = pre ++ (etag, x) :: (xs.map (etag, ·) ++ rest) by simpa using hL))

variable (fails : Nat → Bool) (inm : String)

theorem evPages_spec (hT : EvListing R issue T) :
    ∀ (pgs : List (Page Ev)) {pre : List (String × Ev)} {st : St},
    T = pre ++ Page.tagged pgs → EvLoop R issue st0 pre st →
    EvEnded R issue onlySetLatest st0 T inm pgs
      (evPages (R.net fails) full issue onlySetLatest inm st (accOf pre) pgs)
  | [], pre, st, hL, h => ⟨⟨pre, h⟩, (fun h => nomatch h), fun _ => .inl ⟨by simp [hL, evPages], by simpa [hL, evPages] using h⟩⟩
  | pg :: pgs, pre, st, hL, h => by
    unfold evPages
    by_cases hf : (R.net fails).fails st.fetches = true
    · rw [if_pos hf]; exact ⟨⟨pre, h.fetch⟩, (fun h => nomatch h), (fun h => nomatch h)⟩
    rw [if_neg hf]
    by_cases hm : inm ≠ "" ∧ inm = pg.etag
    · rw [if_pos hm]
      exact ⟨⟨pre, h.fetch⟩, fun _ => ⟨hm.1, pg, .head _, hm.2.symm⟩, (fun h => nomatch h)⟩
    rw [if_neg hm]
    have hi := evItems_spec full onlySetLatest pg.etag hT pg.items (Page.tagged pgs)
      (by simpa using hL) h.fetch
    rcases hd : evItems full issue onlySetLatest pg.etag st.fetch (accOf pre) pg.items
      with ⟨st1, acc1, _ | _ | e⟩
    all_goals rw [hd] at hi; dsimp only
    · obtain ⟨-, rfl, hl⟩ := hi.resolve_right fun h => nomatch h.1
      have ih := evPages_spec hT pgs (by simpa using hL) hl
      exact ⟨ih.loop, fun h => (ih.notModified h).imp_right fun ⟨pg', hpg, he⟩ =>
        ⟨pg', .tail _ hpg, he⟩, ih.ended⟩
    · obtain ⟨-, hs⟩ := hi.resolve_left fun h => nomatch h.1
      obtain ⟨pre', _, _, _, -, -, -, hl⟩ := id hs
      exact ⟨⟨pre', hl⟩, (fun h => nomatch h), fun _ => .inr hs⟩
    · rcases hi with ⟨h, -⟩ | ⟨h, -⟩ <;> cases h

/-! ## The listings of a fixed remote -/

@[simp] theorem evKey_zero (project : String) (x : Ev) : evKey project 0 x = x.key project := by
  simp [evKey, Ev.key]

theorem evKey_of_pos (project : String) {n : Int} (hn : 0 < n) (x : Ev) :
    evKey project n x = ⟨project, n, "/issues/events", x.id⟩ := by
  simp [evKey, hn]

theorem mem_events_of_tagged {y : String × Ev} (hy : y ∈ Page.tagged R.remote.feed) :
    y.2 ∈ R.events :=
  (R.feed_mem _).1 (Page.mem_tagged hy).1

variable (R) in
theorem feedListing : EvListing R 0 (Page.tagged R.remote.feed) := by
  refine ⟨fun y hy => ⟨(R.event_ok _ (mem_events_of_tagged hy)).1.ne',
      fun _ => (FixedRemote.event_issue_pos (mem_events_of_tagged hy)).ne'⟩, ?_,
    fun y hy => by simpa using FixedRemote.event_key_mem (mem_events_of_tagged hy)⟩
  have hmap : ((Page.tagged R.remote.feed).map fun y => evKey project 0 y.2) =
      (Page.all R.remote.feed).map (Ev.key project) := by
    rw [← Page.map_snd_tagged, List.map_map]; simp [Function.comp_def]
  rw [hmap]
  exact List.pairwise_map.2 (R.feed_sorted.imp fun hlt he => hlt.ne' (congrArg EventKey.id he))

variable (R) in
theorem issueListing {n : Int} (hn : 0 < n) :
    EvListing R n (Page.tagged (R.remote.issueEvents n)) := by
  have hid : ∀ y ∈ Page.tagged (R.remote.issueEvents n), ∃ x ∈ R.events, x.issue = n ∧ x.id = y.2.id :=
    fun y hy => (R.issueEvents_mem n hn _).1 (List.mem_map_of_mem Ev.id (Page.mem_tagged hy).1)
  refine ⟨fun y hy => ?_, ?_, fun y hy => ?_⟩
  · obtain ⟨x, hx, -, hxid⟩ := hid y hy
    exact ⟨hxid ▸ (R.event_ok x hx).1.ne', fun hle => absurd hn (not_lt.2 hle)⟩
  · have hmap : ((Page.tagged (R.remote.issueEvents n)).map fun y => evKey project n y.2) =
        ((Page.all (R.remote.issueEvents n)).map Ev.id).map
          fun i => (⟨project, n, "/issues/events", i⟩ : EventKey) := by
      rw [← Page.map_snd_tagged]
      simp [Function.comp_def, evKey_of_pos project hn]
    rw [hmap]
    exact (R.issueEvents_nodup n hn).map fun a b h => (EventKey.mk.inj h).2.2.2
  · obtain ⟨x, hx, hxn, hxid⟩ := hid y hy
    rw [evKey_of_pos project hn, ← hxn, ← hxid]
    exact FixedRemote.event_key_mem hx

/-! ## `syncIssueEvents` -/

theorem Covers.setEvent {V : Store EventKey String} {p : ProjectSync} (h : Covers R V p) {a : Int}
    {e : String} (hID : a ≠ 0 → ∀ x ∈ R.events, x.id ≤ a)
    (hE : e ≠ "" → a ≠ 0 ∧ ∃ pg ∈ R.remote.feed, pg.etag = e)
    (hev : p.fullSyncActive = false → ∀ x ∈ R.events, x.id ≤ a → Stored V (x.key project)) :
    Covers R V { p with eventID := a, eventETag := e } :=
  ⟨h.name, h.dated, hev, h.fullSync, h.fullSyncIssue_nonneg, hID, hE⟩

theorem EvLoop.keeps {pre : List (String × Ev)} {st st1 : St} (h : EvLoop R issue st pre st1)
    (e : Option Err) : Keeps R st (st1.apply, e) :=
  ⟨h.good.apply, rfl, h.grows, fun hs => by simp [h.sync, h.proj, hs]⟩

theorem feed_newer {pre post : List (String × Ev)} {e : String} {x : Ev}
    (hT : Page.tagged R.remote.feed = pre ++ (e, x) :: post) {z : Ev} (hz : z ∈ R.events)
    (hlt : x.id < z.id) : ∃ y ∈ pre, y.2 = z := by
  have hsorted := R.feed_sorted
  have hz' : z ∈ (Page.tagged R.remote.feed).map Prod.snd := by rwa [Page.map_snd_tagged, R.feed_mem]
  rw [← Page.map_snd_tagged, hT, List.map_append, List.map_cons] at hsorted
  rw [hT, List.map_append, List.map_cons] at hz'
  rcases List.mem_append.1 hz' with hz' | hz'
  · exact List.mem_map.1 hz'
  rcases List.mem_cons.1 hz' with rfl | hz'
  · exact absurd hlt (lt_irrefl _)
  · exact absurd (List.rel_of_pairwise_cons (List.pairwise_append.1 hsorted).2.1 hz') (not_lt.2 hlt.le)

theorem EvStopped.covers {onlySetLatest : Bool} {st st1 : St} {acc : EvAcc} (hg : Good R st)
    (hact : onlySetLatest = true → st.proj.fullSyncActive = true)
    (hs : EvStopped R 0 onlySetLatest st (Page.tagged R.remote.feed) (st1, acc)) :
    Covers R st1.view { st1.proj with eventID := acc.firstID, eventETag := acc.firstETag } ∧
      acc.firstID ≠ 0 := by
  obtain ⟨pre, e, x, post, hT, hstop, hacc, hl⟩ := hs
  have hacc : acc = { accOf (pre ++ [(e, x)]) with stopped := true } := hacc
  obtain ⟨a, T', hTa, hf1, hf2⟩ : ∃ a T', Page.tagged R.remote.feed = a :: T' ∧
      acc.firstID = a.2.id ∧ acc.firstETag = a.1 := by
    rw [hacc, hT]; cases pre <;> simp [accOf]
  have ha : a ∈ Page.tagged R.remote.feed := hTa ▸ .head _
  have hid : a.2.id ≠ 0 := ((feedListing R).ok a ha).1
  rw [hf1, hf2]
  refine ⟨hl.good.proj.setEvent (fun _ z hz => not_lt.1 fun h => by
      simpa using feed_newer (show Page.tagged R.remote.feed = [] ++ (a.1, a.2) :: T' from hTa) hz h)
    (fun _ => ⟨hid, (Page.mem_tagged ha).2⟩) fun hoff z hz _ => ?_, hid⟩
  rw [hl.proj] at hoff
  have hstop' := hstop.2.resolve_left fun ho => by simp [hact ho] at hoff
  by_cases hz0 : z.id ≤ st.proj.eventID
  · exact hl.grows _ (hg.proj.events hoff z hz hz0)
  obtain ⟨y, hy, rfl⟩ := feed_newer hT hz (lt_of_le_of_lt hstop'.2 (not_le.1 hz0))
  simpa using hl.done y hy

variable {fails}

theorem syncIssueEvents_eq {issue : Int} {onlySetLatest : Bool} {st : St} (hb : st.batch = []) :
    syncIssueEvents (R.net fails) full issue onlySetLatest st =
      let r := evPages (R.net fails) full issue onlySetLatest st.proj.eventETag st (accOf [])
        (if 0 < issue then R.remote.issueEvents issue else R.remote.feed)
      let r' : St × Option Err := match r.2.2 with
        | .notModified => (r.1, none)
        | .err e => (r.1, some e)
        | .ended =>
          if issue = 0 ∧ r.2.1.lastID ≠ 0 ∧ ¬r.2.1.stopped then
            (r.1, some (.lostSync r.1.proj.eventID r.2.1.lastID))
          else if issue = 0 then
            ((r.1.setProj { r.1.proj with eventID := r.2.1.firstID, eventETag := r.2.1.firstETag }).store,
              none)
          else (r.1, none)
      (r'.1.apply, r'.2) := by
  have hst : { st with batch := [] } = st := by cases st; cases hb; rfl
  unfold syncIssueEvents
  rw [hst]
  rfl

theorem syncIssueEvents_issue_spec (hd : R.DistinctETags) {n : Int} (hn : 0 < n) {st : St}
    (hg : Good R st) (hb : st.batch = []) :
    Keeps R st (syncIssueEvents (R.net fails) full n false st) ∧
      (syncIssueEvents (R.net fails) full n false st).1.proj = st.proj ∧
      ((syncIssueEvents (R.net fails) full n false st).2 = none → ∀ x ∈ R.events, x.issue = n →
        Stored (syncIssueEvents (R.net fails) full n false st).1.view (x.key project)) := by
  have hp := evPages_spec full false fails st.proj.eventETag (issueListing R hn)
    (R.remote.issueEvents n) (by simp) (EvLoop.start hg hb : EvLoop R n st [] st)
  rw [syncIssueEvents_eq full hb, if_pos hn]
  rcases hr : evPages (R.net fails) full n false st.proj.eventETag st (accOf [])
    (R.remote.issueEvents n) with ⟨st1, acc1, _ | _ | e⟩
  all_goals rw [hr] at hp; dsimp only
  · obtain ⟨-, hl⟩ := (hp.ended rfl).resolve_right fun ⟨_, _, _, _, _, hs, _⟩ => hn.ne' hs.1
    simp only [hn.ne', false_and, if_false]
    refine ⟨hl.keeps none, hl.proj, fun _ x hx hxn => ?_⟩
    obtain ⟨z, hz, hzid⟩ := List.mem_map.1 ((R.issueEvents_mem n hn x.id).2 ⟨x, hx, hxn, rfl⟩)
    rw [← Page.map_snd_tagged] at hz
    obtain ⟨y, hy, rfl⟩ := List.mem_map.1 hz
    have := hl.done y hy
    rwa [evKey_of_pos project hn, hzid, ← hxn] at this
  · obtain ⟨hne, pg, hpg, hpe⟩ := hp.notModified rfl
    obtain ⟨-, pg', hpg', hpe'⟩ := hg.proj.eventETag hne
    exact absurd (hpe.trans hpe'.symm) (hd n hn pg hpg pg' hpg' (hpe' ▸ hne))
  · obtain ⟨pre, hl⟩ := hp.loop
    exact ⟨hl.keeps _, hl.proj, fun h => nomatch h⟩

theorem syncIssueEvents_feed_spec (onlySetLatest : Bool) {st : St} (hg : Good R st)
    (hb : st.batch = []) (hact : onlySetLatest = true → st.proj.fullSyncActive = true) :
    Keeps R st (syncIssueEvents (R.net fails) full 0 onlySetLatest st) ∧
      (syncIssueEvents (R.net fails) full 0 onlySetLatest st).1.proj.fullSyncActive =
        st.proj.fullSyncActive ∧
      (syncIssueEvents (R.net fails) full 0 onlySetLatest st).1.proj.fullSyncIssue =
        st.proj.fullSyncIssue ∧
      ((syncIssueEvents (R.net fails) full 0 onlySetLatest st).2 = none →
        (syncIssueEvents (R.net fails) full 0 onlySetLatest st).1.proj.eventID ≠ 0 ∨ R.events = []) := by
  have hp := evPages_spec full onlySetLatest fails st.proj.eventETag (feedListing R)
    R.remote.feed (by simp) (EvLoop.start hg hb : EvLoop R 0 st [] st)
  rw [syncIssueEvents_eq full hb, if_neg (lt_irrefl 0)]
  rcases hr : evPages (R.net fails) full 0 onlySetLatest st.proj.eventETag st (accOf [])
    R.remote.feed with ⟨st1, acc1, _ | _ | e⟩
  all_goals rw [hr] at hp; dsimp only
  all_goals obtain ⟨pre, hl⟩ : ∃ pre, EvLoop R 0 st pre st1 := hp.loop
  · simp only [true_and, if_true]
    by_cases hlost : acc1.lastID ≠ 0 ∧ ¬acc1.stopped = true
    · rw [if_pos hlost]
      exact ⟨hl.keeps _, by simp [hl.proj], by simp [hl.proj], fun h => nomatch h⟩
    rw [if_neg hlost]
    rcases hp.ended rfl with ⟨hacc, hl⟩ | hs
    · have hacc : acc1 = accOf (Page.tagged R.remote.feed) := hacc
      subst hacc
      have hT : Page.tagged R.remote.feed = [] := accOf_lastID_eq_zero
        (fun y hy => ((feedListing R).ok y hy).1) (by_contra fun h => hlost ⟨h, by simp [accOf]⟩)
      have hev : R.events = [] := List.eq_nil_iff_forall_not_mem.2 fun x hx => by
        simpa [← Page.map_snd_tagged, hT] using (R.feed_mem x).2 hx
      have hl : EvLoop R 0 st _ st1 := hl
      refine ⟨⟨(hl.good.setProj (hl.good.proj.setEvent ?_ ?_ ?_)).store.apply, rfl, hl.grows,
        fun _ => by simp⟩,
        by simp [hl.proj], by simp [hl.proj], fun _ => .inr hev⟩
      all_goals simp [hev, hT, accOf]
    · obtain ⟨hc, hid⟩ := hs.covers hg hact
      exact ⟨⟨(hl.good.setProj hc).store.apply, rfl, hl.grows, fun _ => by simp⟩, by simp [hl.proj],
        by simp [hl.proj], fun _ => .inl hid⟩
  · obtain ⟨hne, -⟩ := hp.notModified rfl
    exact ⟨hl.keeps _, by simp [hl.proj], by simp [hl.proj],
      fun _ => .inl (by simpa [hl.proj] using (hg.proj.eventETag hne).1)⟩
  · exact ⟨hl.keeps _, by simp [hl.proj], by simp [hl.proj], fun h => nomatch h⟩

end Gaby.Github
