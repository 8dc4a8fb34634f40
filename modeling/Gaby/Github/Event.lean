import Gaby.Timed.Watcher

/-!
# GitHub events and their consumers

An `Event` is what `decodeEvent` makes of a `githubdl.Event` entry: its DBTime, its key
`(Project, Issue, API, ID)` and its `Typed` value. `decodeEvent` picks the type from the API
and panics on any other API, so the model keeps the typed value and reads the API off it
(`Event.api`). Only the fields of `Issue` and `IssueComment` that the bots read are kept.

A consumer ranges over an `EventWatcher`'s `Recent()` and, for each event, runs a loop body
that may call `MarkOld(e.DBTime)`. `Loop.run` is that loop, for a body that says what it did
(`A`) and a predicate `marks` for the outcomes that mark the event old; it returns what was
done with each event. The watcher's cursor after the loop is above `t` exactly when some event
marked old has a DBTime at or above `t` (`Loop.cutoff_run_lt`). Since `Recent` yields events in
increasing DBTime order above the cursor, an event the body did not mark stays due for the
next run exactly when no later event of the run was marked (`Loop.cutoff_run_lt_of_skip`).
-/

namespace Gaby.Github

open Timed

/-- The fields of `github.Issue` the bots read. `pullRequest` is `PullRequest != nil`. -/
structure Issue where
  url : String
  number : Int
  title : String
  createdAt : String
  updatedAt : String
  body : String
  state : String
  pullRequest : Bool
deriving DecidableEq, Repr

/-- The fields of `github.IssueComment` the bots read. -/
structure IssueComment where
  url : String
  updatedAt : String
  body : String
deriving DecidableEq, Repr

/-- `Event.Typed`: an `*Issue`, an `*IssueComment` or an `*IssueEvent` (whose fields the bots
do not read). -/
inductive Typed
  | issue (x : Issue)
  | comment (x : IssueComment)
  | event
deriving DecidableEq, Repr

/-- A decoded `github.Event`. -/
structure Event where
  dbTime : Int
  project : String
  issue : Int
  id : Int
  typed : Typed
deriving DecidableEq, Repr

/-- `Event.API`, the API whose type `decodeEvent` gave `Typed`. -/
def Event.api (e : Event) : String :=
  match e.typed with
  | .issue _ => "/issues"
  | .comment _ => "/issues/comments"
  | .event => "/issues/events"

/-! ## Consumers of `Recent` -/

/-- A consumer's data `D` and its watcher's row. -/
structure Loop (D : Type) where
  data : D
  cursor : Option Int

variable {D A : Type}

/-- `for e := range w.Recent() { body }`: `body` says what it did with `e` and gives the new
data, and `w.MarkOld(e.DBTime)` is called when `marks` holds of what it did. The result is the
final state and what was done with each event, in order. -/
def Loop.run (body : D → Event → A × D) (marks : A → Bool) :
    Loop D → List Event → Loop D × List (Event × A)
  | l, [] => (l, [])
  | l, e :: es =>
    let r := body l.data e
    let rest := Loop.run body marks
      ⟨r.2, if marks r.1 then markOld l.cursor e.dbTime else l.cursor⟩ es
    (rest.1, (e, r.1) :: rest.2)

variable (body : D → Event → A × D) (marks : A → Bool)

theorem Loop.map_fst_run : ∀ (l : Loop D) (es : List Event),
    (Loop.run body marks l es).2.map Prod.fst = es
  | _, [] => rfl
  | _, e :: es => congrArg (e :: ·) (Loop.map_fst_run _ es)

theorem Loop.cutoff_run_lt (t : Int) : ∀ (l : Loop D) (es : List Event),
    cutoff (Loop.run body marks l es).1.cursor < t ↔
      cutoff l.cursor < t ∧ ∀ x ∈ (Loop.run body marks l es).2, marks x.2 → x.1.dbTime < t
  | _, [] => by simp [Loop.run]
  | l, e :: es => by
    simp only [Loop.run, Loop.cutoff_run_lt t _ es, List.mem_cons, forall_eq_or_imp]
    split_ifs with hm <;> simp [hm, and_assoc]

theorem Loop.cutoff_run_lt_of_skip {l : Loop D} {es : List Event}
    (hinc : (es.map Event.dbTime).Pairwise (· < ·)) (habove : ∀ e ∈ es, cutoff l.cursor < e.dbTime)
    {l1 l2 : List (Event × A)} {e : Event} {a : A}
    (hrun : (Loop.run body marks l es).2 = l1 ++ (e, a) :: l2) (ha : marks a = false) :
    cutoff (Loop.run body marks l es).1.cursor < e.dbTime ↔ ∀ x ∈ l2, marks x.2 = false := by
  have hes : es = l1.map Prod.fst ++ e :: l2.map Prod.fst := by
    rw [← Loop.map_fst_run body marks l es, hrun]; simp
  subst hes
  simp only [List.map_append, List.map_cons, List.map_map, List.pairwise_append, List.pairwise_cons,
    List.mem_map, List.mem_cons, Function.comp] at hinc
  rw [Loop.cutoff_run_lt, hrun]
  simp only [List.mem_append, List.mem_cons]
  constructor
  · rintro ⟨-, h⟩ x hx
    by_contra hm
    have := h x (.inr (.inr hx)) (by simpa using hm)
    exact absurd (hinc.2.1.1 _ ⟨x, hx, rfl⟩) (not_lt.2 this.le)
  · intro h
    refine ⟨habove e (by simp), fun x hx hm => ?_⟩
    rcases hx with hx | rfl | hx
    · exact hinc.2.2 _ ⟨x, hx, rfl⟩ _ (.inl rfl)
    · simp [ha] at hm
    · simp [h x hx] at hm

end Gaby.Github
