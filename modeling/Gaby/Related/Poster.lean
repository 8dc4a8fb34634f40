import Gaby.Github.Event
import Gaby.Storage.Vector
import Mathlib.Data.List.Nodup

/-!
# The related-issues poster

`related.Poster.Run` (`internal/related/related.go`) ranges over its `EventWatcher` and, for
each new open issue of an enabled project, looks up the issue's vector, searches for similar
documents and posts a comment listing them. `Poster.action` is the loop body's decision, in the
code's order of checks; `Poster.body` adds its writes: the marker row
`("triage.Posted", project, issue)` after a successful post, and the post itself, kept as a
ghost log. A post or an empty related list (when posting) marks the event old (`Poster.marks`).

The comment's text is not modelled: a post is recorded by its issue's key.

Over any sequence of runs of any Posters on one database (`PostedReachable`), a marker exists
exactly for the issues posted to, and no issue is posted to twice (`posted_once`): the body
posts only after finding no marker, and writes the marker right after.
-/

namespace Gaby.Related

open Gaby.Github Gaby.Timed Gaby.Storage

/-- The settings of a `Poster` its `Run` reads. `ignores` are the functions `SkipBodyContains`,
`SkipTitlePrefix` and `SkipTitleSuffix` added. -/
structure Poster (S : Type) where
  projects : String → Bool
  name : String
  timeLimit : Int
  ignores : List (Issue → Bool)
  maxResults : Nat
  scoreCutoff : S
  post : Bool

/-- What `Run` reads from outside: `time.Parse(time.RFC3339, ·)` as a Unix time, the vector
database's `Get` and `Search`, and whether GitHub accepts `PostIssueComment` on an issue. -/
structure Env (Vec S : Type) where
  parseTime : String → Option Int
  get : String → Option Vec
  search : Vec → Nat → List (VectorResult S)
  postIssueComment : Issue → Bool

/-- `fmt.Sprintf("https://github.com/%s/issues/%d", project, issue)`. -/
def issueURL (project : String) (issue : Int) : String :=
  "https://github.com/" ++ project ++ "/issues/" ++ toString issue

variable {S Vec : Type} [LinearOrder S]

/-- The related list `Run` builds from `Search(vec, maxResults+5)`: drop the issue itself if it
comes first, cut at the first score below the cutoff, keep at most `maxResults`. -/
def related (u : String) (maxResults : Nat) (cutoff : S) (results : List (VectorResult S)) :
    List (VectorResult S) :=
  let r := match results with
    | r :: rs => if r.id = u then rs else results
    | [] => []
  (r.takeWhile fun r => ¬r.score < cutoff).take maxResults

theorem related_sublist (u : String) (maxResults : Nat) (cutoff : S)
    (results : List (VectorResult S)) :
    (related u maxResults cutoff results).Sublist results ∧
      (∀ r ∈ related u maxResults cutoff results, cutoff ≤ r.score) ∧
      (related u maxResults cutoff results).length ≤ maxResults := by
  have hr : (match results with
      | r :: rs => if r.id = u then rs else results
      | [] => []).Sublist results := by
    rcases results with _ | ⟨r, rs⟩
    · exact .slnil
    · dsimp only
      split_ifs
      · exact List.sublist_cons_self r rs
      · exact .refl _
  refine ⟨((List.take_sublist _ _).trans (List.takeWhile_sublist _)).trans hr, fun r hm => ?_,
    List.length_take_le _ _⟩
  have := List.mem_takeWhile_imp (List.mem_of_mem_take hm)
  simpa using this

/-- Issues `1` and `2` of `golang/go`, with the same vector. -/
def twinCache : OMap String (List Nat) :=
  (OMap.empty.set "https://github.com/golang/go/issues/1" [1]).set
    "https://github.com/golang/go/issues/2" [1]

/-- For issue `1`, `Search` ranks issue `2` first (the same score, and the larger ID), so the
self-match is not first and the related list keeps issue `1` itself. -/
theorem related_keeps_itself :
    related (issueURL "golang/go" 1) 10 0
        (search (fun _ _ => (1 : Nat)) twinCache [1] (10 + 5)) =
      [⟨"https://github.com/golang/go/issues/2", 1⟩, ⟨"https://github.com/golang/go/issues/1", 1⟩] := by
  simp [related, search, topTake, candidates, twinCache, OMap.set, OMap.empty, OMap.insert,
    String.lt_iff_toList_lt, VectorResult.cmp, goCompare, List.insertionSort, List.orderedInsert]
  decide

/-- What `Run`'s loop body did with one event. -/
inductive Action
  /-- A `continue` before the vector lookup: not an open issue of an enabled project, an
  unparsable or too old creation time, an ignore rule, or the posted marker. -/
  | skip
  /-- `p.vdb.Get(u)` found no vector. -/
  | noVector
  /-- The related list is empty. -/
  | noResults
  /-- Posts are disabled; the comment is only logged. -/
  | logged
  /-- `PostIssueComment` failed. -/
  | postFailed
  /-- The comment was posted. -/
  | posted
deriving DecidableEq, Repr

namespace Poster

/-- The checks before the marker: the event's issue, unless `Run` skips the event as not an open
issue of an enabled project, created at or after the time limit, that no ignore rule skips. -/
def eligible (p : Poster S) (parseTime : String → Option Int) (e : Event) : Option Issue :=
  if !p.projects e.project then none else
  match e.typed with
  | .issue issue =>
    if issue.state = "closed" || issue.pullRequest then none else
    match parseTime issue.createdAt with
    | none => none
    | some tm =>
      if tm < p.timeLimit then none else
      if p.ignores.any (· issue) then none else some issue
  | _ => none

/-- The loop body's decision for event `e`; `isPosted` is whether the marker row exists. -/
def action (p : Poster S) (env : Env Vec S) (isPosted : Bool) (e : Event) : Action :=
  match p.eligible env.parseTime e with
  | none => .skip
  | some issue =>
    if isPosted then .skip else
    let u := issueURL e.project e.issue
    match env.get u with
    | none => .noVector
    | some vec =>
      if related u p.maxResults p.scoreCutoff (env.search vec (p.maxResults + 5)) = [] then
        .noResults
      else if !p.post then .logged
      else if env.postIssueComment issue then .posted
      else .postFailed

/-- The outcomes after which the body calls `MarkOld(e.DBTime)`. -/
def marks (p : Poster S) : Action → Bool
  | .noResults => p.post
  | .posted => true
  | _ => false

end Poster

/-- The rows the Posters write: the markers `("triage.Posted", project, issue)`, and (ghost)
every issue a comment was posted on, in order. -/
structure PostDB where
  posted : String × Int → Bool
  posts : List (String × Int)

namespace Poster

/-- The loop body: decide, and after a post write the marker. -/
def body (p : Poster S) (env : Env Vec S) (d : PostDB) (e : Event) : Action × PostDB :=
  let a := p.action env (d.posted (e.project, e.issue)) e
  (a, if a = .posted then
      ⟨Function.update d.posted (e.project, e.issue) true, d.posts ++ [(e.project, e.issue)]⟩
    else d)

/-- `Run` over the events its watcher yields. -/
def run (p : Poster S) (env : Env Vec S) : Loop PostDB → List Event →
    Loop PostDB × List (Event × Action) :=
  Loop.run (p.body env) p.marks

theorem action_posted {p : Poster S} {env : Env Vec S} {b : Bool} {e : Event}
    (h : p.action env b e = .posted) : b = false := by
  unfold action at h
  split at h
  · contradiction
  · cases b
    · rfl
    · simp at h

end Poster

/-! ## Markers and posts over runs -/

/-- The marker rows are exactly the posted issues, and no issue was posted to twice. -/
structure PostDB.Inv (d : PostDB) : Prop where
  marked : ∀ k, d.posted k = true ↔ k ∈ d.posts
  nodup : d.posts.Nodup

theorem PostDB.Inv.body {d : PostDB} (hi : d.Inv) (p : Poster S) (env : Env Vec S) (e : Event) :
    ((p.body env d e).2).Inv := by
  dsimp only [Poster.body]
  split_ifs with ha
  · have hk : (e.project, e.issue) ∉ d.posts := by
      rw [← hi.marked, Poster.action_posted ha]; exact Bool.false_ne_true
    refine ⟨fun k => ?_, hi.nodup.append (List.nodup_singleton _) (by simpa using hk)⟩
    by_cases h : k = (e.project, e.issue)
    · subst h; simp
    · simp [Function.update_noteq h, hi.marked, h]
  · exact hi

theorem PostDB.Inv.run {p : Poster S} {env : Env Vec S} :
    ∀ {l : Loop PostDB} (es : List Event), l.data.Inv → (p.run env l es).1.data.Inv
  | _, [], hi => hi
  | l, e :: es, hi => PostDB.Inv.run (l := ⟨(p.body env l.data e).2, _⟩) es (hi.body p env e)

/-- The databases a sequence of `Run`s leaves, one at a time, of any Posters (any name, posts
enabled or not), each over any events its watcher yields, from a database without markers. -/
inductive PostedReachable (S Vec : Type) [LinearOrder S] : PostDB → Prop
  | init : PostedReachable S Vec ⟨fun _ => false, []⟩
  | run {d : PostDB} (p : Poster S) (env : Env Vec S) (cursor : Option Int) (es : List Event) :
      PostedReachable S Vec d → PostedReachable S Vec (p.run env ⟨d, cursor⟩ es).1.data

/-- Over every sequence of runs, `PostIssueComment` succeeds at most once per issue, and the
marker exists exactly for the issues posted to. -/
theorem posted_once {d : PostDB} (h : PostedReachable S Vec d) :
    d.posts.Nodup ∧ ∀ k, d.posted k = true ↔ k ∈ d.posts := by
  have hi : d.Inv := by
    induction h with
    | init => exact ⟨fun k => by simp, List.nodup_nil⟩
    | run p env c es _ ih => exact PostDB.Inv.run (l := ⟨_, c⟩) es ih
  exact ⟨hi.nodup, hi.marked⟩

/-- A Poster of `golang/go` that posts. -/
def demoPoster : Poster Nat := ⟨(· = "golang/go"), "demo", 0, [], 10, 1, true⟩

/-- Every issue has a vector, the search finds issue `9` with score `3`, and GitHub accepts
every comment. -/
def demoEnv : Env Unit Nat :=
  ⟨fun _ => some 5, fun _ => some (), fun _ _ => [⟨"https://github.com/golang/go/issues/9", 3⟩],
    fun _ => true⟩

/-- The `/issues` event of open issue `n` of `golang/go`, written at DBTime `t`. -/
def issueEvent (t n : Int) : Event :=
  ⟨t, "golang/go", n, n, .issue ⟨"https://api.github.com/repos/golang/go/issues/" ++ toString n, n,
    "title", "2024-06-01T00:00:00Z", "2024-06-01T00:00:00Z", "body", "open", false⟩⟩

/-- Two runs; a sync between them delivers issue `1` again at a new DBTime. -/
def twoRunsDB : PostDB :=
  let d1 := (demoPoster.run demoEnv ⟨⟨fun _ => false, []⟩, none⟩ [issueEvent 1 1]).1.data
  (demoPoster.run demoEnv ⟨d1, some 1⟩ [issueEvent 2 1]).1.data

theorem twoRunsDB_posted_once : twoRunsDB.posts = [("golang/go", 1)] ∧
    (twoRunsDB.posts.Nodup ∧ ∀ k, twoRunsDB.posted k = true ↔ k ∈ twoRunsDB.posts) :=
  ⟨by decide, posted_once (.run _ _ _ _ (.run _ _ _ _ .init))⟩

end Gaby.Related
