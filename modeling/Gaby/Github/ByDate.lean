import Gaby.Github.Remote

/-!
# `syncByDate` against a fixed remote

The loops over a date listing keep `DateLoop`: the sync's invariant, the rows of the listing's
objects before the current one, a batch that holds only those, and the rows of every object
updated before the listing's `since`. Writing object `x` and setting `since` to its
`updated_at` keeps it (`DateLoop.step`): an object updated before `x` is listed before it, or
was updated before the listing's `since`. Nothing a fixed remote lists makes the loop fail
(`dateItems_spec`), so a listing that ends has every object stored (`datePages_spec`), and
`syncByDate` that returns `nil` has stored every object of its API (`syncByDate_spec`).
-/

namespace Gaby.Github

open Timed

variable {project : String}

theorem Covers.setSince {R : FixedRemote project} {V : Store EventKey String} {p : ProjectSync}
    (h : Covers R V p) {api : DateAPI} {u : String}
    (hu : ∀ y ∈ R.dated api, y.updated.data < u.data → Stored V (y.key project api)) :
    Covers R V (p.setSince api u) := by
  refine ⟨by simp [h.name], fun api' y hy hlt => ?_, by simpa using h.events,
    by simpa using h.fullSync, by simpa using h.fullSyncIssue_nonneg, by simpa using h.eventID,
    by simpa using h.eventETag⟩
  rw [ProjectSync.since_setSince] at hlt
  split_ifs at hlt with he
  · subst he; exact hu y hy hlt
  · exact h.dated api' y hy hlt

variable (R : FixedRemote project)

/-- The loop over the date listing of `api` from `since0`, started at `st0`, with the objects
`pre` done. -/
structure DateLoop (api : DateAPI) (since0 : String) (st0 : St) (pre : List Dated) (st : St) :
    Prop where
  good : Good R st
  grows : Grows st0 st
  active : st.proj.fullSyncActive = st0.proj.fullSyncActive
  below : ∀ y ∈ R.dated api, y.updated.data < since0.data → Stored st.view (y.key project api)
  done : ∀ y ∈ pre, Stored st.view (y.key project api)
  batch : ∀ o ∈ st.batch, o.key ∈ pre.map (Dated.key project api)

/-- How the loop over a date listing's pages, started at `st0`, ended. -/
structure DateEnd (api : DateAPI) (st0 : St) (r : St × PagesEnd) : Prop where
  good : Good R r.1
  grows : Grows st0 r.1
  active : r.1.proj.fullSyncActive = st0.proj.fullSyncActive
  done : r.2 = .done → ∀ y ∈ R.dated api, Stored r.1.view (y.key project api)
  restart : r.2 = .restart → r.1.batch = []

variable {R} {api : DateAPI} {since0 : String} {st0 : St}

namespace DateLoop

theorem start {st : St} (h : Good R st) (hb : st.batch = []) :
    DateLoop R api (st.proj.since api) st [] st :=
  ⟨h, .refl st, rfl, h.proj.dated api, (fun _ h => nomatch h), fun o ho => by simp [hb] at ho⟩

variable {pre : List Dated} {st : St}

theorem fetch (h : DateLoop R api since0 st0 pre st) : DateLoop R api since0 st0 pre st.fetch :=
  ⟨h.good.fetch, h.grows, h.active, h.below, h.done, h.batch⟩

theorem commit (h : DateLoop R api since0 st0 pre st) :
    DateLoop R api since0 st0 pre st.apply.store :=
  ⟨h.good.apply.store, h.grows, h.active, h.below, h.done, fun o ho => by simp at ho⟩

theorem step (h : DateLoop R api since0 st0 pre st) (full : Batch EventKey String → Bool)
    {x : Dated} {rest : List Dated} (hL : Page.all (R.remote.byDate api since0) = pre ++ x :: rest) :
    let st1 := (st.writeEvent (x.key project api) x.raw).maybeApply full
    DateLoop R api since0 st0 (pre ++ [x]) (st1.setProj (st1.proj.setSince api x.updated)) := by
  intro st1
  obtain ⟨hx, -⟩ := (R.byDate_mem api since0 x).1 (hL ▸ by simp)
  have hsort := R.byDate_sorted api since0
  rw [hL] at hsort
  obtain ⟨hg1, hgr1, hdone1, hb1⟩ := h.good.writeNext (Dated.key project api)
    (hL ▸ R.byDate_nodup api since0) (R.dated_key_mem hx) h.done h.batch x.raw full
  have hsince : ∀ y ∈ R.dated api, y.updated.data < x.updated.data →
      Stored st1.view (y.key project api) := by
    intro y hy hlt
    by_cases hy0 : y.updated.data < since0.data
    · exact hgr1 _ (h.below y hy hy0)
    rcases List.mem_append.1 (hL ▸ (R.byDate_mem api since0 y).2 ⟨hy, not_lt.1 hy0⟩) with hyp | hyx
    · exact hdone1 y (List.mem_append_left _ hyp)
    rcases List.mem_cons.1 hyx with rfl | hyr
    · exact absurd hlt (lt_irrefl _)
    · exact absurd (List.rel_of_pairwise_cons (List.pairwise_append.1 hsort).2.1 hyr) (not_le.2 hlt)
  rw [show st1.proj = st.proj by simp [st1]]
  exact ⟨hg1.setProj ((h.good.proj.mono hgr1).setSince hsince), h.grows.trans hgr1,
    by simp [st1, h.active], fun y hy hlt => hgr1 _ (h.below y hy hlt), hdone1, hb1⟩

end DateLoop

variable (full : Batch EventKey String → Bool)

theorem dateItems_spec : ∀ (xs : List Dated) {pre : List Dated} {st : St} (rest : List Dated),
    Page.all (R.remote.byDate api since0) = pre ++ xs ++ rest → DateLoop R api since0 st0 pre st →
    (dateItems full api st xs).2 = none ∧
      DateLoop R api since0 st0 (pre ++ xs) (dateItems full api st xs).1
  | [], pre, st, _, _, h => by simpa [dateItems] using h
  | x :: xs, pre, st, rest, hL, h => by
    have hx : x ∈ R.dated api := ((R.byDate_mem api since0 x).1 (hL ▸ by simp)).1
    simp only [dateItems, R.dated_ok api x hx, h.good.proj.name]
    rw [show pre ++ x :: xs = pre ++ [x] ++ xs by simp]
    exact dateItems_spec xs rest (by simpa using hL)
      (h.step full (show _ = pre ++ x :: (xs ++ rest) by simpa using hL))

variable (fails : Nat → Bool)

theorem datePages_spec : ∀ (pgs : List (Page Dated)) {pre : List Dated} {st : St} (npage : Nat),
    Page.all (R.remote.byDate api since0) = pre ++ Page.all pgs →
    DateLoop R api since0 st0 pre st → st.batch = [] →
    DateEnd R api st0 (datePages (R.net fails) full api st pgs npage)
  | [], pre, st, _, hL, h, _ => by
    refine ⟨h.good, h.grows, h.active, fun _ y hy => ?_, (fun h => nomatch h)⟩
    by_cases hy0 : y.updated.data < since0.data
    · exact h.below y hy hy0
    · exact h.done y (by simpa [hL] using (R.byDate_mem api since0 y).2 ⟨hy, not_lt.1 hy0⟩)
  | pg :: pgs, pre, st, npage, hL, h, _ => by
    obtain ⟨hnone, hloop⟩ := dateItems_spec full pg.items (Page.all pgs) (by simpa using hL) h.fetch
    unfold datePages
    by_cases hf : (R.net fails).fails st.fetches = true
    · rw [if_pos hf]
      exact ⟨h.good.fetch, h.grows, h.active, (fun h => nomatch h), (fun h => nomatch h)⟩
    rw [if_neg hf]
    rcases hd : dateItems full api st.fetch pg.items with ⟨st1, _ | e⟩
    · rw [hd] at hloop
      have hc := hloop.commit
      dsimp only
      by_cases hn : npage + 1 < 500
      · rw [if_pos hn]; exact datePages_spec pgs (npage + 1) (by simpa using hL) hc rfl
      · rw [if_neg hn]; exact ⟨hc.good, hc.grows, hc.active, (fun h => nomatch h), fun _ => rfl⟩
    · rw [hd] at hnone; cases hnone

theorem dateListing_spec : ∀ (fuel : Nat) {st : St}, Good R st → st.batch = [] →
    Good R (dateListing (R.net fails) full api fuel st).1 ∧
      Grows st (dateListing (R.net fails) full api fuel st).1 ∧
      (dateListing (R.net fails) full api fuel st).1.proj.fullSyncActive = st.proj.fullSyncActive ∧
      ((dateListing (R.net fails) full api fuel st).2 = none →
        ∀ y ∈ R.dated api, Stored (dateListing (R.net fails) full api fuel st).1.view (y.key project api))
  | fuel, st, hg, hb => by
    have hp := datePages_spec full fails (R.remote.byDate api (st.proj.since api)) 0 (by simp)
      (DateLoop.start hg hb : DateLoop R api _ st [] st) hb
    unfold dateListing
    rw [FixedRemote.remote_net]
    rcases hd : datePages (R.net fails) full api st (R.remote.byDate api (st.proj.since api)) 0
      with ⟨st1, _ | _ | e⟩
    all_goals rw [hd] at hp; dsimp only
    · exact ⟨hp.good, hp.grows, hp.active, fun _ => hp.done rfl⟩
    · cases fuel with
      | zero => exact ⟨hp.good, hp.grows, hp.active, (fun h => nomatch h)⟩
      | succ fuel =>
        obtain ⟨h1, h2, h3, h4⟩ := dateListing_spec fuel hp.good (hp.restart rfl)
        exact ⟨h1, hp.grows.trans h2, h3.trans hp.active, h4⟩
    · exact ⟨hp.good, hp.grows, hp.active, (fun h => nomatch h)⟩

theorem syncByDate_spec (fuel : Nat) (api : DateAPI) {st : St} (hg : Good R st) (hb : st.batch = []) :
    Keeps R st (syncByDate (R.net fails) full fuel api st) ∧
      (syncByDate (R.net fails) full fuel api st).1.proj.fullSyncActive = st.proj.fullSyncActive ∧
      ((syncByDate (R.net fails) full fuel api st).2 = none →
        ∀ y ∈ R.dated api, Stored (syncByDate (R.net fails) full fuel api st).1.view (y.key project api)) := by
  have hst : { st with batch := [] } = st := by cases st; cases hb; rfl
  obtain ⟨h1, h2, h3, h4⟩ := dateListing_spec full fails fuel hg hb
  unfold syncByDate
  rw [hst]
  exact ⟨⟨h1.store.apply, rfl, h2, fun _ => by simp⟩, h3, h4⟩

end Gaby.Github
