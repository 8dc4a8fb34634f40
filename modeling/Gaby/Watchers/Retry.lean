import Gaby.Related.Poster
import Gaby.Commentfix.Fixer

/-!
# Events skipped for a later retry

`Poster.Run` skips an issue whose vector is not in the vector database yet, or whose comment
GitHub refused, without marking it old; `Fixer.Run` does the same when downloading the live
body or the edit fails. The watcher's cursor is a high-water mark: `MarkOld` keeps the larger
time. So a skipped event is yielded again by the next run exactly when no later event of the
same run was marked old (`skipped_due_iff_no_later_mark`); a later post moves the cursor past
it for good (`lostRetryRun_passes_skip`).
-/

namespace Gaby.Watchers

open Gaby.Github Gaby.Timed Gaby.Related Gaby.Commentfix

/-- Issue `1` has no vector yet; issue `2` has one, and its comment is posted. -/
def noVectorEnv : Related.Env Unit Nat :=
  { demoEnv with get := fun u => if u = issueURL "golang/go" 1 then none else some () }

/-- The Poster skips issue `1` (DBTime `1`) for its missing vector, then posts on issue `2`
(DBTime `2`): the cursor ends at `2`, past the skipped event. -/
theorem lostRetryRun_passes_skip :
    (demoPoster.run noVectorEnv ⟨⟨fun _ => false, []⟩, none⟩ [issueEvent 1 1, issueEvent 2 2]).2 =
        [(issueEvent 1 1, .noVector), (issueEvent 2 2, .posted)] ∧
      (issueEvent 1 1).dbTime ≤
        cutoff (demoPoster.run noVectorEnv ⟨⟨fun _ => false, []⟩, none⟩
          [issueEvent 1 1, issueEvent 2 2]).1.cursor := by
  decide

variable {S Vec : Type} [LinearOrder S]

/-- Over events of increasing DBTime above the cursor, as `Recent` yields them: an event the
Poster skipped for a missing vector or a failed post, or the Fixer for a failed download or
edit, is still above the cursor when the run ends exactly when no later event of the run was
marked old. -/
theorem skipped_due_iff_no_later_mark :
    (∀ (p : Poster S) (env : Related.Env Vec S) (l : Loop PostDB) (es : List Event)
        (l1 l2 : List (Event × Related.Action)) (e : Event) (a : Related.Action),
        (es.map Event.dbTime).Pairwise (· < ·) → (∀ e ∈ es, cutoff l.cursor < e.dbTime) →
        (p.run env l es).2 = l1 ++ (e, a) :: l2 → (a = .noVector ∨ a = .postFailed) →
        (cutoff (p.run env l es).1.cursor < e.dbTime ↔ ∀ x ∈ l2, p.marks x.2 = false)) ∧
      (∀ (f : Fixer) (env : Commentfix.Env) (l : Loop (List (IssueOrComment × String)))
        (es : List Event) (l1 l2 : List (Event × Commentfix.Action)) (e : Event)
        (a : Commentfix.Action),
        (es.map Event.dbTime).Pairwise (· < ·) → (∀ e ∈ es, cutoff l.cursor < e.dbTime) →
        (f.run env l es).2 = l1 ++ (e, a) :: l2 → (a = .downloadFailed ∨ a = .editFailed) →
        (cutoff (f.run env l es).1.cursor < e.dbTime ↔ ∀ x ∈ l2, f.marks x.2 = false)) := by
  constructor
  · intro p env l es l1 l2 e a hinc habove hrun ha
    exact Loop.cutoff_run_lt_of_skip _ _ hinc habove hrun (by rcases ha with rfl | rfl <;> rfl)
  · intro f env l es l1 l2 e a hinc habove hrun ha
    exact Loop.cutoff_run_lt_of_skip _ _ hinc habove hrun (by rcases ha with rfl | rfl <;> rfl)

/-- With the skipped issue last, nothing later is marked, and the next run yields it again. -/
theorem skipLastRun_due :
    cutoff (demoPoster.run noVectorEnv ⟨⟨fun _ => false, []⟩, none⟩
      [issueEvent 1 2, issueEvent 2 1]).1.cursor < (issueEvent 2 1).dbTime :=
  (skipped_due_iff_no_later_mark.1 demoPoster noVectorEnv _ _ [(issueEvent 1 2, .posted)] []
    (issueEvent 2 1) .noVector (by decide) (by decide) (by decide) (.inl rfl)).2 (by simp)

end Gaby.Watchers
