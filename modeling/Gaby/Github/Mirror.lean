import Gaby.Github.ByDate
import Gaby.Github.Events

/-!
# The database mirrors a fixed remote

`Synced R db`: `db` is reached from the state `Add(project)` leaves by `SyncProject(project)`
calls against the fixed remote `R`, each with any fetches failing, any batches applied early,
the full sync stopped after any issue, and any clock. Between calls the database is
`Consistent`: each of the project's keys has exactly its primary row's index row, every row of
the project is a remote object's, and the stored `projectSync` keeps its promises (`Covers`).

The full sync's loop over issues visits the issue numbers of the stored rows in key order, so
`FullSyncIssue` only passes an issue after syncing its events (`perIssue_spec`); the full sync
ends with every event stored (`fullSync_spec`). A call keeps the database consistent, and a
call that returns `nil` leaves it mirroring the remote (`syncProject_spec`, `Mirrors`): every
remote object's key has one primary row and its one index row, the project has no other rows,
and `EventID` is at least every event's id (`syncProject_mirrors`).

That needs `FixedRemote.DistinctETags`: `SyncProject` sends the feed's `EventETag` as
`If-None-Match` to every `/issues/{n}/events` listing, and a listing whose page carries that
ETag answers `304`, so its events are never read (`sharedETag_not_mirrored`).
-/

namespace Gaby.Github

open Timed

variable {project : String} {R : FixedRemote project}

/-! ## The full sync's issue numbers -/

theorem EventKey.issue_le_of_lt {k k' : EventKey} (h : k < k') (hp : k.project = k'.project) :
    k.issue ≤ k'.issue := by
  have h' : k.lex < k'.lex := h
  simp only [EventKey.lex, Prod.Lex.lt_iff, hp, lt_irrefl, false_or, true_and] at h'
  rcases h' with h' | ⟨h', -⟩
  · exact h'.le
  · exact h'.le

theorem issueNumbers_sorted (db : DB) (project : String) :
    (issueNumbers db project).Pairwise (· ≤ ·) := by
  unfold issueNumbers
  rw [List.pairwise_map]
  refine (db.events.prim.sorted.filter _).imp_of_mem fun ha hb hlt => ?_
  simp only [List.mem_filter, decide_eq_true_eq] at ha hb
  exact EventKey.issue_le_of_lt hlt (ha.2.trans hb.2.symm)

theorem mem_issueNumbers {db : DB} {k : EventKey} (hk : k.project = project)
    (hs : Stored db.events k) : k.issue ∈ issueNumbers db project := by
  obtain ⟨v, hv⟩ := Option.ne_none_iff_exists'.1 hs
  exact List.mem_map.2 ⟨(k, v), List.mem_filter.2 ⟨(OMap.mem_iff_get _).2 hv, by simpa using hk⟩, rfl⟩

/-! ## The full sync -/

theorem Covers.startFull {V : Store EventKey String} {p : ProjectSync} (h : Covers R V p) :
    Covers R V { p with fullSyncActive := true, fullSyncIssue := 0 } :=
  ⟨h.name, h.dated, (fun h => nomatch h),
    fun _ _ hx hle => absurd hle (not_le.2 (FixedRemote.event_issue_pos hx)), le_rfl, h.eventID,
    h.eventETag⟩

theorem Covers.setFullSyncIssue {V : Store EventKey String} {p : ProjectSync} (h : Covers R V p)
    {n : Int} (hn : 0 ≤ n)
    (hfs : p.fullSyncActive = true → ∀ x ∈ R.events, x.issue ≤ n → Stored V (x.key project)) :
    Covers R V { p with fullSyncIssue := n } :=
  ⟨h.name, h.dated, h.events, hfs, hn, h.eventID, h.eventETag⟩

theorem Covers.endFull {V : Store EventKey String} {p : ProjectSync} (h : Covers R V p)
    (hall : ∀ x ∈ R.events, Stored V (x.key project)) :
    Covers R V { p with fullSyncActive := false } :=
  ⟨h.name, h.dated, fun _ x hx _ => hall x hx, (fun h => nomatch h), h.fullSyncIssue_nonneg,
    h.eventID, h.eventETag⟩

theorem Keeps.trans {st st1 : St} {e : Option Err} {r : St × Option Err}
    (h₁ : Keeps R st (st1, e)) (h₂ : Keeps R st1 r) : Keeps R st r :=
  ⟨h₂.good, h₂.batch, h₁.grows.trans h₂.grows, fun hs => h₂.sync (h₁.sync hs)⟩

variable (full : Batch EventKey String → Bool) (fails : Nat → Bool)

theorem perIssue_spec (hd : R.DistinctETags) (stop : Bool) :
    ∀ (ns : List Int) {st : St}, Good R st → st.batch = [] → st.proj.fullSyncActive = true →
    ns.Pairwise (· ≤ ·) → (∀ x ∈ R.events, st.proj.fullSyncIssue < x.issue → x.issue ∈ ns) →
    Keeps R st (perIssue (R.net fails) full stop st ns) ∧
      (perIssue (R.net fails) full stop st ns).1.proj.fullSyncActive = true ∧
      ((perIssue (R.net fails) full stop st ns).2 = none →
        ∀ x ∈ R.events, Stored (perIssue (R.net fails) full stop st ns).1.view (x.key project))
  | [], st, hg, hb, ha, _, hcov => ⟨⟨hg, hb, .refl st, id⟩, ha, fun _ x hx =>
      hg.proj.fullSync ha x hx (not_lt.1 fun h => by simpa using hcov x hx h)⟩
  | n :: ns, st, hg, hb, ha, hs, hcov => by
    have hns : ∀ m, n < m → m ∈ n :: ns → m ∈ ns := fun m hm hmem =>
      (List.mem_cons.1 hmem).resolve_left (ne_of_gt hm)
    unfold perIssue
    by_cases hn : n ≤ st.proj.fullSyncIssue
    · rw [if_pos hn]
      exact perIssue_spec hd stop ns hg hb ha hs.of_cons fun x hx hlt =>
        hns _ (lt_of_le_of_lt hn hlt) (hcov x hx hlt)
    rw [if_neg hn]
    have hpos : 0 < n := lt_of_le_of_lt hg.proj.fullSyncIssue_nonneg (not_le.1 hn)
    obtain ⟨k1, hp1, hev1⟩ := syncIssueEvents_issue_spec full hd hpos hg hb
    rcases hr : syncIssueEvents (R.net fails) full n false st with ⟨st1, _ | e⟩
    all_goals rw [hr] at k1 hp1 hev1; dsimp only at k1 hp1 hev1 ⊢
    · have hc : Covers R st1.view { st1.proj with fullSyncIssue := n } :=
        k1.good.proj.setFullSyncIssue hpos.le fun _ x hx hle => by
          by_cases hle' : x.issue ≤ st.proj.fullSyncIssue
          · exact k1.grows _ (hg.proj.fullSync ha x hx hle')
          · refine hev1 rfl x hx (le_antisymm hle ?_)
            rcases List.mem_cons.1 (hcov x hx (not_le.1 hle')) with h | h
            · exact h.ge
            · exact List.rel_of_pairwise_cons hs h
      have k2 : Keeps R st ((st1.setProj { st1.proj with fullSyncIssue := n }).store, some .stop) :=
        k1.trans ⟨(k1.good.setProj hc).store, k1.batch, .refl _, fun _ => rfl⟩
      have ha2 : ((st1.setProj { st1.proj with fullSyncIssue := n }).store).proj.fullSyncActive = true := by
        simp [hp1, ha]
      cases stop
      · obtain ⟨k3, ha3, hev3⟩ := perIssue_spec hd false ns k2.good k2.batch ha2 hs.of_cons
          fun x hx hlt => hns _ hlt (hcov x hx (lt_trans (not_le.1 hn) hlt))
        exact ⟨k2.trans k3, ha3, hev3⟩
      · exact ⟨k2, ha2, fun h => nomatch h⟩
    · exact ⟨k1, hp1 ▸ ha, fun h => nomatch h⟩

theorem fullSync_spec (hd : R.DistinctETags) (stop : Bool) (fuel : Nat) {st : St} (hg : Good R st)
    (hb : st.batch = []) (hact : st.proj.eventID = 0 ∨ st.proj.fullSyncActive = true) :
    Keeps R st (fullSync (R.net fails) full stop fuel project st) ∧
      ((fullSync (R.net fails) full stop fuel project st).2 = none →
        (fullSync (R.net fails) full stop fuel project st).1.proj.fullSyncActive = false) := by
  have h1 : ∀ {r}, (if st.proj.eventID = 0 then syncIssueEvents (R.net fails) full 0 true
      (st.setProj { st.proj with fullSyncActive := true, fullSyncIssue := 0 }).store
      else (st, none)) = r → Keeps R st r ∧ r.1.proj.fullSyncActive = true := by
    rintro _ rfl
    split_ifs with he
    · obtain ⟨k, ha, -, -⟩ := syncIssueEvents_feed_spec full true
        ((hg.setProj hg.proj.startFull).store) hb fun _ => rfl
      exact ⟨⟨k.good, k.batch, k.grows, fun _ => k.sync rfl⟩, ha⟩
    · exact ⟨⟨hg, hb, .refl st, id⟩, hact.resolve_left he⟩
  unfold fullSync
  rcases hr1 : (if st.proj.eventID = 0 then syncIssueEvents (R.net fails) full 0 true
    (st.setProj { st.proj with fullSyncActive := true, fullSyncIssue := 0 }).store else (st, none))
    with ⟨st1, _ | e⟩
  all_goals obtain ⟨k1, ha1⟩ := h1 hr1
  swap
  · exact ⟨k1, fun h => nomatch h⟩
  obtain ⟨k2, ha2, hi2⟩ := syncByDate_spec full fails fuel .issues k1.good k1.batch
  simp only [andThen_none]
  rcases hr2 : syncByDate (R.net fails) full fuel .issues st1 with ⟨st2, _ | e⟩
  all_goals rw [hr2] at k2 ha2 hi2
  swap
  · exact ⟨k1.trans k2, fun h => nomatch h⟩
  have hcov : ∀ x ∈ R.events, st2.proj.fullSyncIssue < x.issue →
      x.issue ∈ issueNumbers st2.db project := fun x hx _ => by
    obtain ⟨-, y, hy, hyx⟩ := R.event_ok x hx
    have hs := hi2 rfl y hy
    rw [St.view, k2.batch, Store.apply_nil] at hs
    exact hyx ▸ mem_issueNumbers rfl hs
  obtain ⟨k3, ha3, hev3⟩ := perIssue_spec full fails hd stop (issueNumbers st2.db project) k2.good
    k2.batch (ha2.trans ha1) (issueNumbers_sorted _ _) hcov
  simp only [andThen_none]
  rcases hr3 : perIssue (R.net fails) full stop st2 (issueNumbers st2.db project) with ⟨st3, _ | e⟩
  all_goals rw [hr3] at k3 ha3 hev3
  swap
  · exact ⟨(k1.trans k2).trans k3, fun h => nomatch h⟩
  simp only [andThen_none]
  exact ⟨(k1.trans k2).trans (k3.trans ⟨(k3.good.setProj (k3.good.proj.endFull (hev3 rfl))).store,
    k3.batch, .refl _, fun _ => rfl⟩), fun _ => rfl⟩

/-! ## `SyncProject` -/

variable (R) in
/-- The database between calls: each of the project's keys has exactly its primary row's index
row, every row of the project is a remote object's, and the stored `projectSync` keeps its
promises. -/
structure Consistent (db : DB) : Prop where
  exact : ∀ k : EventKey, k.project = project → Exact db.events k
  sound : ∀ k : EventKey, k.project = project → Stored db.events k → k ∈ R.keys
  sync : ∃ p, db.sync = some p ∧ Covers R db.events p

variable (R) in
/-- The database mirrors the remote: the project's `githubdl.Event` rows are one primary row
and its one index row for each remote issue, comment and event, keyed
`(project, issue, api, id)`, and nothing else; the stored `EventID` is at least every event's
id. -/
def Mirrors (db : DB) : Prop :=
  (∀ k : EventKey, k.project = project → (Stored db.events k ↔ k ∈ R.keys) ∧ Exact db.events k) ∧
    ∃ p, db.sync = some p ∧ ∀ x ∈ R.events, x.id ≤ p.eventID

theorem Keeps.consistent {st : St} {r : St × Option Err} (h : Keeps R st r) : Consistent R r.1.db := by
  have hv : r.1.view = r.1.db.events := by rw [St.view, h.batch, Store.apply_nil]
  exact ⟨h.good.exact, fun k hk hs => h.good.sound k hk (hv ▸ hs), hv ▸ h.good.stored⟩

theorem Good.mirrors {st : St} (h : Good R st) (hb : st.batch = [])
    (hs : st.db.sync = some st.proj) (hoff : st.proj.fullSyncActive = false)
    (hdated : ∀ api, ∀ y ∈ R.dated api, Stored st.view (y.key project api))
    (hev : st.proj.eventID ≠ 0 ∨ R.events = []) : Mirrors R st.db := by
  have hv : st.view = st.db.events := by rw [St.view, hb, Store.apply_nil]
  have hid : ∀ x ∈ R.events, x.id ≤ st.proj.eventID := by
    rcases hev with he | he
    · exact h.proj.eventID he
    · simp [he]
  refine ⟨fun k hk => ⟨⟨fun hk' => h.sound k hk (hv ▸ hk'), fun hm => hv ▸ ?_⟩,
    h.exact k hk⟩, _, hs, hid⟩
  simp only [FixedRemote.keys, List.mem_append, List.mem_map] at hm
  rcases hm with (⟨y, hy, rfl⟩ | ⟨y, hy, rfl⟩) | ⟨x, hx, rfl⟩
  · exact hdated .issues y hy
  · exact hdated .comments y hy
  · exact h.proj.events hoff x hx (hid x hx)

theorem syncProject_spec (hd : R.DistinctETags) {db : DB} (hc : Consistent R db) (stop : Bool)
    (fuel : Nat) (lastTime : Int) :
    Consistent R (syncProject (R.net fails) full stop fuel project db lastTime).1.db ∧
      ((syncProject (R.net fails) full stop fuel project db lastTime).2 = none →
        Mirrors R (syncProject (R.net fails) full stop fuel project db lastTime).1.db) := by
  obtain ⟨p, hp, hcov⟩ := hc.sync
  have hg : Good R ⟨db, [], p, lastTime, 0, []⟩ :=
    ⟨hc.exact, staged_nil _, hc.sound, hcov, ⟨p, hp, hcov⟩⟩
  unfold syncProject
  rw [hp]
  dsimp only
  obtain ⟨k1, -, hi1⟩ := syncByDate_spec full fails fuel .issues hg rfl
  rcases hr1 : syncByDate (R.net fails) full fuel .issues ⟨db, [], p, lastTime, 0, []⟩
    with ⟨st1, _ | e⟩
  all_goals rw [hr1] at k1 hi1; simp only [andThen_none, andThen_some]
  swap
  · exact ⟨k1.consistent, fun h => nomatch h⟩
  obtain ⟨k2, -, hi2⟩ := syncByDate_spec full fails fuel .comments k1.good k1.batch
  rcases hr2 : syncByDate (R.net fails) full fuel .comments st1 with ⟨st2, _ | e⟩
  all_goals rw [hr2] at k2 hi2; simp only [andThen_none, andThen_some]
  swap
  · exact ⟨(k1.trans k2).consistent, fun h => nomatch h⟩
  have h3 : ∀ {r}, (if st2.proj.eventID = 0 ∨ st2.proj.fullSyncActive = true then
      fullSync (R.net fails) full stop fuel project st2 else (st2, none)) = r →
      Keeps R st2 r ∧ (r.2 = none → r.1.proj.fullSyncActive = false) := by
    rintro _ rfl
    split_ifs with h
    · exact fullSync_spec full fails hd stop fuel k2.good k2.batch h
    · exact ⟨⟨k2.good, k2.batch, .refl _, id⟩, fun _ => by simpa using (not_or.1 h).2⟩
  rcases hr3 : (if st2.proj.eventID = 0 ∨ st2.proj.fullSyncActive = true then
      fullSync (R.net fails) full stop fuel project st2 else (st2, none)) with ⟨st3, _ | e⟩
  all_goals obtain ⟨k3, ha3⟩ := h3 hr3; simp only [andThen_none, andThen_some]
  swap
  · exact ⟨((k1.trans k2).trans k3).consistent, fun h => nomatch h⟩
  have ha3 := ha3 rfl
  obtain ⟨k4, ha4, -, hev4⟩ := syncIssueEvents_feed_spec full false k3.good k3.batch
    fun h => nomatch h
  have k := ((k1.trans k2).trans k3).trans k4
  refine ⟨k.consistent, fun hnil => k.good.mirrors k4.batch (k.sync hp) (ha4.trans ha3) ?_ (hev4 hnil)⟩
  rintro (_ | _) y hy
  · exact (k2.grows.trans (k3.grows.trans k4.grows)) _ (hi1 rfl y hy)
  · exact (k3.grows.trans k4.grows) _ (hi2 rfl y hy)

variable (R) in
/-- The databases `SyncProject(project)` calls against `R` reach from one `Add(project)` leaves:
the `projectSync` row `{Name: project}`, and no row of the project. -/
inductive Synced : DB → Prop
  | add (events : Store EventKey String)
      (h : ∀ k : EventKey, k.project = project →
        events.prim.get k = none ∧ ∀ t, events.byTime.get ⟨t, k⟩ = none) :
      Synced ⟨some (ProjectSync.init project), events⟩
  | sync {db : DB} (fails : Nat → Bool) (full : Batch EventKey String → Bool) (stop : Bool)
      (fuel : Nat) (lastTime : Int) :
      Synced db → Synced (syncProject (R.net fails) full stop fuel project db lastTime).1.db

theorem Synced.consistent (hd : R.DistinctETags) {db : DB} (h : Synced R db) : Consistent R db := by
  induction h with
  | add events h =>
    refine ⟨fun k hk t => by simp [(h k hk).1, (h k hk).2], fun k hk hs => absurd (h k hk).1 hs,
      _, rfl, rfl, fun api x _ hlt => ?_, fun _ x hx hle => ?_, (fun h => nomatch h), le_rfl,
      fun h => absurd rfl h, fun h => absurd rfl h⟩
    · cases api <;> exact absurd hlt (List.Lex.not_nil_right _ _)
    · exact absurd hle (not_le.2 (R.event_ok x hx).1)
  | sync fails full stop fuel lastTime _ ih =>
    exact (syncProject_spec full fails hd ih stop fuel lastTime).1

/-- A `SyncProject(project)` that returns `nil`, from any database reachable by earlier calls
against a fixed remote whose per-issue listings do not carry the feed's ETags, leaves exactly
the remote's issues, comments and events, each with one primary and one index row, and an
`EventID` at least every event's id. -/
theorem syncProject_mirrors {R : FixedRemote project} (hd : R.DistinctETags) {db : DB}
    (h : Synced R db) (fails : Nat → Bool) (full : Batch EventKey String → Bool) (stop : Bool)
    (fuel : Nat) (lastTime : Int)
    (hnil : (syncProject (R.net fails) full stop fuel project db lastTime).2 = none) :
    Mirrors R (syncProject (R.net fails) full stop fuel project db lastTime).1.db :=
  (syncProject_spec full fails hd (h.consistent hd) stop fuel lastTime).2 hnil

/-! ## A remote with one issue -/

/-- Issue `1` of project `p`, updated `2024-06-01T00:00:00Z`. -/
def issueOne : Dated := ⟨100, "2024-06-01T00:00:00Z", 1, none, "issue1"⟩

/-- One issue with one event, `7`, and no comments. The feed's page has ETag `E`, the page of
`/issues/1/events` has ETag `etag`. -/
def oneIssueRemote (etag : String) : FixedRemote "p" where
  remote := ⟨fun api since => match api with
      | .issues => [⟨if since.data ≤ issueOne.updated.data then [issueOne] else [], "I"⟩]
      | .comments => [⟨[], "C"⟩],
    [⟨[⟨7, 1, "ev7"⟩], "E"⟩], fun n => if n = 1 then [⟨[⟨7, 0, "ev7"⟩], etag⟩] else [⟨[], "N"⟩]⟩
  dated := fun api => match api with
    | .issues => [issueOne]
    | .comments => []
  events := [⟨7, 1, "ev7"⟩]
  dated_ok := fun api x hx => by cases api <;> simp at hx; subst hx; rfl
  number_pos := fun x hx => by simp at hx; subst hx; decide
  event_ok := fun x hx => by simp at hx; subst hx; exact ⟨by decide, issueOne, by simp, rfl⟩
  byDate_mem := fun api since x => by
    cases api
    · by_cases h : since.data ≤ issueOne.updated.data
      · simp [Page.all, h]
        rintro rfl
        exact h
      · simp [Page.all, h]
        rintro rfl
        exact not_le.1 h
    · simp [Page.all]
  byDate_sorted := fun api since => by
    cases api <;> simp [Page.all]
    split_ifs <;> simp
  byDate_nodup := fun api since => by
    cases api <;> simp [Page.all]
    split_ifs <;> simp
  feed_mem := fun x => by simp [Page.all]
  feed_sorted := by simp [Page.all]
  issueEvents_mem := fun n _ i => by
    by_cases h : n = 1 <;> simp [Page.all, h, eq_comm]
  issueEvents_nodup := fun n _ => by
    by_cases h : n = 1 <;> simp [Page.all, h]

/-- The database `Add("p")` leaves on an empty database. -/
def addDB : DB := ⟨some (ProjectSync.init "p"), ⟨"githubdl.Event", .empty, .empty⟩⟩

/-- When the page of `/issues/1/events` carries the feed page's ETag, the first sync answers
`304` for it and returns `nil` without event `7`. -/
theorem sharedETag_not_mirrored :
    Synced (oneIssueRemote "E") addDB ∧
      (syncProject ((oneIssueRemote "E").net fun _ => false) (fun _ => false) false 1 "p" addDB 0).2 =
        none ∧
      ¬Mirrors (oneIssueRemote "E")
        (syncProject ((oneIssueRemote "E").net fun _ => false) (fun _ => false) false 1 "p" addDB 0).1.db :=
  ⟨.add _ fun k _ => by simp, by decide, fun ⟨h, _⟩ =>
    (h ⟨"p", 1, "/issues/events", 7⟩ rfl).1.2 (by decide) (by decide)⟩

theorem oneIssueRemote_mirrored :
    (oneIssueRemote "F").DistinctETags ∧ Synced (oneIssueRemote "F") addDB ∧
      (syncProject ((oneIssueRemote "F").net fun _ => false) (fun _ => false) false 1 "p" addDB 0).2 =
        none ∧
      Mirrors (oneIssueRemote "F")
        (syncProject ((oneIssueRemote "F").net fun _ => false) (fun _ => false) false 1 "p" addDB 0).1.db := by
  have hd : (oneIssueRemote "F").DistinctETags := fun n _ pg hpg pg' hpg' _ => by
    simp only [oneIssueRemote, List.mem_singleton] at hpg'
    subst hpg'
    by_cases h : n = 1 <;> simp [oneIssueRemote, h] at hpg <;> subst hpg <;> decide
  have hs : Synced (oneIssueRemote "F") addDB := .add _ fun k _ => by simp
  have hnil : (syncProject ((oneIssueRemote "F").net fun _ => false) (fun _ => false) false 1 "p"
    addDB 0).2 = none := by decide
  exact ⟨hd, hs, hnil, syncProject_mirrors hd hs _ _ _ _ _ hnil⟩

end Gaby.Github
