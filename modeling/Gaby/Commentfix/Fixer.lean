import Gaby.Github.Event
import Gaby.Commentfix.Rewrite

/-!
# The comment fixer's run

`commentfix.Fixer.Run` ranges over its `EventWatcher` and rewrites the bodies of issues and
comments of enabled projects with its rules. `Fixer.action` is the loop body's decision, in the
code's order of checks: an issue that is not a pull request or a comment, updated before the
time limit (marked old when editing), that `Fix` changes, whose live body GitHub still has,
is edited when edits are enabled. Only an edit, and a too-old event when editing, mark the
event old (`Fixer.marks`). `Fix` itself, the Markdown rewrite, is the field `Fixer.fix`; the
diff printed to standard error and the one-second sleep are not modelled. The edits made are
kept as a ghost log.

A run edits a body only to what `Fix` gives for it (`Fixer.run_edits_fix`). With the rewrite of
`Rewrite.lean` as `Fix`, every edit is then the printed form of a tree that passes of the rules
reach from the parsed body, with no link put inside a link (`run_edits_rewrite`).
-/

namespace Gaby.Commentfix

open Gaby.Github

/-- An `issueOrComment`: the issue or the comment an event carries. -/
inductive IssueOrComment
  | issue (x : Issue)
  | comment (x : IssueComment)
deriving DecidableEq, Repr

namespace IssueOrComment

/-- `ic.updatedAt()`. -/
def updatedAt : IssueOrComment → String
  | .issue x => x.updatedAt
  | .comment x => x.updatedAt

/-- `ic.body()`. -/
def body : IssueOrComment → String
  | .issue x => x.body
  | .comment x => x.body

end IssueOrComment

/-- The settings of a `Fixer` its `Run` reads. `fix` is `Fix`: the text its rules rewrite the
body to, or `none` when no rule applies. -/
structure Fixer where
  projects : String → Bool
  edit : Bool
  timeLimit : Int
  fix : String → Option String

/-- What `Run` reads from outside: `time.Parse(time.RFC3339, ·)` as a Unix time,
`ic.download(f.github)` (`none` on a GitHub error), and whether GitHub accepts
`ic.editBody(f.github, body)`. -/
structure Env where
  parseTime : String → Option Int
  download : IssueOrComment → Option IssueOrComment
  editBody : IssueOrComment → String → Bool

/-- What `Run`'s loop body did with one event. -/
inductive Action
  /-- Another project, a pull request, or an issue event. -/
  | skip
  /-- Updated before the time limit. -/
  | tooOld
  /-- `Fix` changed nothing. -/
  | unchanged
  /-- Downloading the live body failed. -/
  | downloadFailed
  /-- The live body differs from the stored one. -/
  | stale
  /-- Edits are disabled; the diff is only printed. -/
  | logged
  /-- The edit failed. -/
  | editFailed
  /-- The body was edited to `body`. -/
  | edited (ic : IssueOrComment) (body : String)
deriving DecidableEq, Repr

/-- The `switch e.Typed.(type)`: an issue that is not a pull request, or a comment. -/
def issueOrComment (e : Event) : Option IssueOrComment :=
  match e.typed with
  | .issue x => if x.pullRequest then none else some (.issue x)
  | .comment x => some (.comment x)
  | .event => none

namespace Fixer

/-- The loop body's decision for event `e`. -/
def action (f : Fixer) (env : Env) (e : Event) : Action :=
  if !f.projects e.project then .skip else
  match issueOrComment e with
  | none => .skip
  | some ic =>
    if (env.parseTime ic.updatedAt).any (· < f.timeLimit) then .tooOld else
    match f.fix ic.body with
    | none => .unchanged
    | some body =>
      match env.download ic with
      | none => .downloadFailed
      | some live =>
        if live.body ≠ ic.body then .stale
        else if !f.edit then .logged
        else if env.editBody ic body then .edited ic body
        else .editFailed

/-- The outcomes after which the body calls `MarkOld(e.DBTime)`. -/
def marks (f : Fixer) : Action → Bool
  | .tooOld => f.edit
  | .edited _ _ => true
  | _ => false

/-- The loop body: decide, and log an edit. -/
def body (f : Fixer) (env : Env) (edits : List (IssueOrComment × String)) (e : Event) :
    Action × List (IssueOrComment × String) :=
  let a := f.action env e
  (a, match a with
    | .edited ic b => edits ++ [(ic, b)]
    | _ => edits)

/-- `Run` over the events its watcher yields. -/
def run (f : Fixer) (env : Env) : Loop (List (IssueOrComment × String)) → List Event →
    Loop (List (IssueOrComment × String)) × List (Event × Action) :=
  Loop.run (f.body env) f.marks

theorem action_edited {f : Fixer} {env : Env} {e : Event} {ic : IssueOrComment} {b : String}
    (h : f.action env e = .edited ic b) : f.fix ic.body = some b := by
  unfold action at h
  repeat' split at h
  all_goals first | contradiction | (cases h; assumption)

theorem body_edits_fix {f : Fixer} {env : Env} {edits : List (IssueOrComment × String)}
    (h : ∀ x ∈ edits, f.fix x.1.body = some x.2) (e : Event) :
    ∀ x ∈ (f.body env edits e).2, f.fix x.1.body = some x.2 := by
  unfold body
  dsimp only
  split
  · next ic b ha =>
    rintro x hx
    rcases List.mem_append.1 hx with hx | hx
    · exact h x hx
    · rw [List.mem_singleton.1 hx]
      exact action_edited ha
  · exact h

theorem run_edits_fix (f : Fixer) (env : Env) :
    ∀ (l : Loop (List (IssueOrComment × String))) (es : List Event),
      (∀ x ∈ l.data, f.fix x.1.body = some x.2) → ∀ x ∈ (f.run env l es).1.data, f.fix x.1.body = some x.2
  | _, [], h => h
  | l, e :: es, h => run_edits_fix f env ⟨(f.body env l.data e).2, _⟩ es (body_edits_fix h e)

end Fixer

/-- With `Fix` the Markdown rewrite of `rules`, for any parser and printer, every body a run
edits to is the printed form of a tree that passes of the rules reach from the parsed stored
body, with no link inside a link when the parsed body had none. -/
theorem run_edits_rewrite (rules : List Rule) (parse : String → Block) (toMarkdown : Block → String)
    {f : Fixer} (hf : f.fix = fixText rules parse toMarkdown) (env : Env) (cursor : Option Int)
    (es : List Event) :
    ∀ x ∈ (f.run env ⟨[], cursor⟩ es).1.data, ∃ doc, x.2 = toMarkdown doc ∧
      Relation.ReflTransGen (fun b b' => ∃ r ∈ rules, r.BlockOk b b') (parse x.1.body) doc ∧
      ((parse x.1.body).flat = true → doc.flat = true) := by
  intro x hx
  have h := f.run_edits_fix env _ es (fun _ h => absurd h (List.not_mem_nil _)) x hx
  rw [hf, fixText] at h
  split_ifs at h
  exact ⟨_, (Option.some.inj h).symm, fixDoc_passes rules _, flat_of_passes (fixDoc_passes rules _)⟩

/-- Markdown for plain texts and links of one plain text. -/
def inlineMarkdown : Inline → String
  | .plain t => t
  | .link [.plain t] url _ => "[" ++ t ++ "](" ++ url ++ ")"
  | _ => ""

/-- Markdown for a document of one paragraph. -/
def paragraphMarkdown : Block → String
  | .document [.paragraph xs] => String.join (xs.map inlineMarkdown)
  | _ => ""

/-- A fixer for every project, with edits enabled and the one rule `AutoLink("^a", "https://a")`,
over a parser that reads a text as one paragraph. -/
def aaFixer : Fixer :=
  ⟨fun _ => true, true, 0, fixText [.autoLink caretA "https://a"]
    (fun s => .document [.paragraph [.plain s]]) paragraphMarkdown⟩

/-- A comment `aa`, never too old, whose live body GitHub has and edits. -/
theorem run_edits_rewrite_aa :
    let env : Env := ⟨fun _ => none, some, fun _ _ => true⟩
    let e : Event := ⟨1, "golang/go", 1, 2, .comment ⟨"u", "t", "aa"⟩⟩
    aaFixer.fix = fixText [.autoLink caretA "https://a"] (fun s => .document [.paragraph [.plain s]])
        paragraphMarkdown ∧
      (aaFixer.run env ⟨[], none⟩ [e]).1.data = [(.comment ⟨"u", "t", "aa"⟩, "[a](https://a)a")] ∧
      ∀ x ∈ (aaFixer.run env ⟨[], none⟩ [e]).1.data, ∃ doc, x.2 = paragraphMarkdown doc ∧
        Relation.ReflTransGen (fun b b' => ∃ r ∈ [Rule.autoLink caretA "https://a"], r.BlockOk b b')
          (Block.document [.paragraph [.plain x.1.body]]) doc ∧
        ((Block.document [.paragraph [.plain x.1.body]]).flat = true → doc.flat = true) := by
  intro env e
  exact ⟨rfl, by decide, run_edits_rewrite [.autoLink caretA "https://a"]
    (fun s => .document [.paragraph [.plain s]]) paragraphMarkdown rfl env none [e]⟩

end Gaby.Commentfix
