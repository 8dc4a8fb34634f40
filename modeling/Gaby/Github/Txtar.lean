import Gaby.Github.Sync
import Gaby.Github.LinkHeader
import Mathlib.Data.List.Infix

/-!
# Loading issue histories into a testing client

`TestingClient.LoadTxtarData` (`internal/github/sync_test.go`) reads issue histories, one txtar
file per issue, and stores what they describe as `githubdl.Event` rows of the client's
database, through `AddIssue`, `AddIssueComment` and `AddIssueEvent`. A file is named
`org/repo#num`; its text is a header (`Key: value` lines up to an empty line) and a list of
updates, each ending with its time in parentheses:

* `Reported by who (time)`, then the issue body as tab-indented lines: one `AddIssue`;
* `Comment by who (time)`, then the comment body: one `AddIssueComment`;
* `* who action ... (time)`: one `AddIssueEvent`, whose `Event` is given by the first of the
  action forms of `eventRules` the line has (`dispatch`); `changed title` reads the old and
  new title from the next two lines.

The archive is the list of its files (`txtar.Parse` is not modelled), strings are their runes
(`List Char`), and `time.Parse` followed by `Format(time.RFC3339)` is a parameter `parseTime`.
The loops of the loader are `loop`s whose body returns `Turn`; each ends within its fuel
(`loader_loops_end`), since every turn that goes on consumes input (`headerStep_shrinks`,
`updateStep_shrinks`, `bodyStep_shrinks`).

* `loadTxtarData_stores`: whatever the archive, the rows the loader adds hold issues under API
  `/issues`, and comments and issue events both under `/issues/comments`; no event is named
  `unassigned` or `referenced`.
* `updateLine_unassigned`: a `* who unassigned whom` line without ` assigned ` in it is stored
  as an `assigned` event.
-/

namespace Gaby.Github.Txtar

/-! ## The `strings` and `strconv` functions the loader calls -/

/-- `strings.Cut(s, sep)`: the text before and after the first `sep`, and whether there is
one. -/
def cut (s sep : List Char) : List Char × List Char × Bool :=
  if sep.isPrefixOf s then ([], s.drop sep.length, true) else
  match s with
  | [] => ([], [], false)
  | c :: t => let r := cut t sep; (c :: r.1, r.2.1, r.2.2)

/-- `strings.CutPrefix(s, prefix)`. -/
def cutPrefix (s pre : List Char) : List Char × Bool :=
  if pre.isPrefixOf s then (s.drop pre.length, true) else (s, false)

/-- `strings.CutSuffix(s, suffix)`. -/
def cutSuffix (s suf : List Char) : List Char × Bool :=
  if suf.isSuffixOf s then (s.take (s.length - suf.length), true) else (s, false)

/-- `strings.LastIndex(s, sep)`: the last position of `sep` in `s`, or `-1`. -/
def lastIndex (s sep : List Char) : Int :=
  match s with
  | [] => if sep.isPrefixOf [] then 0 else -1
  | c :: t =>
    let r := lastIndex t sep
    if 0 ≤ r then r + 1 else if sep.isPrefixOf (c :: t) then 0 else -1

/-- `strings.Split(s, sep)` for a nonempty `sep`, cutting at most `fuel` times (`len(s)` cuts
are enough: each one consumes a separator). -/
def splitN (sep : List Char) : Nat → List Char → List (List Char)
  | 0, s => [s]
  | fuel + 1, s =>
    let (a, b, ok) := cut s sep
    if ok then a :: splitN sep fuel b else [s]

/-- `strings.Split(s, sep)`. -/
def split (s sep : List Char) : List (List Char) := splitN sep s.length s

/-- `strconv.ParseInt(s, 10, 64)`: an optional sign and decimal digits, within `int64`. -/
def parseInt (s : List Char) : Option Int :=
  let (neg, ds) : Bool × List Char := match s with
    | '+' :: ds => (false, ds)
    | '-' :: ds => (true, ds)
    | ds => (false, ds)
  if ds = [] ∨ ds.all Char.isDigit = false then none else
  let un : Nat := ds.foldl (fun n c => 10 * n + (c.toNat - '0'.toNat)) 0
  if neg then (if un ≤ 2 ^ 63 then some (-(un : Int)) else none)
  else if un < 2 ^ 63 then some un else none

theorem cut_nil (sep : List Char) : cut [] sep = ([], [], sep.isPrefixOf []) := by
  unfold cut
  split_ifs with h <;> simp [h]

theorem cut_found (sep : List Char) : ∀ s, (cut s sep).2.2 = true ↔ sep <:+: s
  | [] => by simp [cut_nil, List.infix_nil]
  | c :: t => by
    unfold cut
    split_ifs with h
    · exact iff_of_true rfl (( List.isPrefixOf_iff_prefix.1 h).isInfix)
    · rw [cut_found sep t, List.infix_cons_iff]
      simp only [ List.isPrefixOf_iff_prefix] at h
      simp [h]

theorem cut_of_not_found (sep : List Char) : ∀ s, (cut s sep).2.2 = false → cut s sep = (s, [], false)
  | [] => by simp [cut_nil]
  | c :: t => by
    unfold cut
    split_ifs with h
    · simp
    · intro hf
      simp only [cut_of_not_found sep t hf]

theorem cut_rest_le (sep : List Char) : ∀ s, (cut s sep).2.1.length ≤ s.length
  | [] => by simp only [cut_nil, List.length_nil, le_refl]
  | c :: t => by
    unfold cut
    split_ifs
    · simp
    · have := cut_rest_le sep t
      simp only [List.length_cons]
      omega

theorem cut_rest_lt {sep : List Char} (hsep : sep ≠ []) :
    ∀ s, s ≠ [] → (cut s sep).2.1.length < s.length
  | [], h => absurd rfl h
  | c :: t, _ => by
    unfold cut
    split_ifs
    · have : 0 < sep.length := List.length_pos.2 hsep
      simp only [List.length_drop, List.length_cons]
      omega
    · have := cut_rest_le sep t
      simp only [List.length_cons]
      omega

/-! ## What the loader stores -/

/-- The fields of `github.Issue` the loader sets; users are their logins, labels their names,
the milestone its title, and `pullRequest` is `PullRequest != nil`. -/
structure Issue where
  number : Int
  title : String := ""
  state : String := ""
  assignees : List String := []
  closedAt : String := ""
  labels : List String := []
  milestone : String := ""
  pullRequest : Bool := false
  body : String := ""
  createdAt : String := ""
  updatedAt : String := ""
  user : String := ""
  url : String := ""
  htmlURL : String := ""
deriving DecidableEq

/-- The fields of `github.IssueComment` the loader sets. -/
structure IssueComment where
  user : String := ""
  body : String := ""
  createdAt : String := ""
  updatedAt : String := ""
  url : String := ""
  htmlURL : String := ""
deriving DecidableEq

/-- The fields of `github.IssueEvent` the loader sets; `rename` is `(Rename.From, Rename.To)`. -/
structure IssueEvent where
  id : Int := 0
  url : String := ""
  actor : String := ""
  event : String := ""
  createdAt : String := ""
  assignees : List String := []
  labels : List String := []
  milestone : String := ""
  rename : String × String := ("", "")
  commitID : String := ""
deriving DecidableEq

/-- `Event.Typed`, as `storage.JSON` encodes it into the row. -/
inductive Typed
  | issue (x : Issue)
  | comment (x : IssueComment)
  | event (x : IssueEvent)
deriving DecidableEq

/-- A `githubdl.Event` row `writeEvent` stores: its key and its value. -/
structure Stored where
  key : EventKey
  typed : Typed
deriving DecidableEq

/-- The state the loader changes: the package's ID counters `issueID`, `commentID` and
`eventID`, the rows written to the client's database, in order, and the writes to its
`testEvents` map (URL and value). -/
structure TC where
  issueID : Int
  commentID : Int
  eventID : Int
  stored : List Stored
  testEvents : List (String × Typed)

/-- `issueID = 1e9`, `commentID = 1e10`, `eventID = 1e11`, and an empty database. -/
def TC.init : TC := ⟨1000000000, 10000000000, 100000000000, [], []⟩

/-- `TestingClient.addEvent(url, e)`: `testEvents[url] = js`, then `writeEvent` of the row. -/
def addEvent (tc : TC) (url : String) (e : Stored) : TC :=
  { tc with stored := tc.stored ++ [e], testEvents := tc.testEvents ++ [(url, e.typed)] }

/-- `TestingClient.AddIssue(project, issue)`. -/
def addIssue (tc : TC) (project : String) (issue : Issue) : TC :=
  let id := tc.issueID + 1
  let issue := { issue with
    url := "https://api.github.com/repos/" ++ project ++ "/issues/" ++ toString issue.number
    htmlURL := "https://github.com/" ++ project ++ "/issues/" ++ toString issue.number }
  addEvent { tc with issueID := id } issue.url ⟨⟨project, issue.number, "/issues", id⟩, .issue issue⟩

/-- `TestingClient.AddIssueComment(project, issue, comment)`. -/
def addIssueComment (tc : TC) (project : String) (issue : Int) (comment : IssueComment) : TC :=
  let id := tc.commentID + 1
  let comment := { comment with
    url := "https://api.github.com/repos/" ++ project ++ "/issues/comments/" ++ toString id
    htmlURL := "https://github.com/" ++ project ++ "/issues/" ++ toString issue ++
      "#issuecomment-" ++ toString id }
  addEvent { tc with commentID := id } comment.url
    ⟨⟨project, issue, "/issues/comments", id⟩, .comment comment⟩

/-- `TestingClient.AddIssueEvent(project, issue, event)`: stored with API `/issues/comments`. -/
def addIssueEvent (tc : TC) (project : String) (issue : Int) (event : IssueEvent) : TC :=
  let id := tc.eventID + 1
  let event := { event with
    id := id
    url := "https://api.github.com/repos/" ++ project ++ "/issues/events/" ++ toString id }
  addEvent { tc with eventID := id } event.url
    ⟨⟨project, issue, "/issues/comments", id⟩, .event event⟩

/-- The errors of `LoadTxtarData`, with what they quote. -/
inductive LoadErr
  /-- `invalid issue name %q (want 'org/repo#num')`. -/
  | invalidName (name : List Char)
  /-- `%s: invalid header line: %q`. -/
  | invalidHeader (name line : List Char)
  /-- `%s: invalid close time: %q`. -/
  | invalidCloseTime (name line : List Char)
  /-- `%s: invalid URL: %q, want %q`. -/
  | invalidURL (name val want : List Char)
  /-- `%s: invalid event time: %q`. -/
  | invalidEventTime (name line : List Char)
  /-- `%s: multiple 'Reported by'`. -/
  | multipleReported (name : List Char)
  /-- `%s: missing 'Reported by'`. -/
  | missingReported (name : List Char)
  /-- `%s: invalid event description: %q`. -/
  | invalidEventDescription (name line : List Char)
  /-- `%s: missing old issue title: %q`. -/
  | missingOldTitle (name line : List Char)
  /-- `%s: missing new issue title: %q`. -/
  | missingNewTitle (name line : List Char)

/-- Where a row the loader adds is stored: an issue under `/issues`; a comment under
`/issues/comments`; an issue event under `/issues/comments` too, named neither `unassigned` nor
`referenced`. -/
def Stored.Loaded (e : Stored) : Prop :=
  (∃ i, e.typed = .issue i ∧ e.key.api = "/issues") ∨
  (∃ c, e.typed = .comment c ∧ e.key.api = "/issues/comments") ∨
  (∃ ev, e.typed = .event ev ∧ e.key.api = "/issues/comments" ∧
    ev.event ≠ "unassigned" ∧ ev.event ≠ "referenced")

/-- `tc'` has the rows of `tc`, then rows the loader adds. -/
def Grows (tc tc' : TC) : Prop :=
  ∃ added, tc'.stored = tc.stored ++ added ∧ ∀ e ∈ added, e.Loaded

theorem Grows.refl (tc : TC) : Grows tc tc := ⟨[], by simp, by simp⟩

theorem Grows.trans {a b c : TC} (h1 : Grows a b) (h2 : Grows b c) : Grows a c := by
  obtain ⟨x, hx, hxl⟩ := h1
  obtain ⟨y, hy, hyl⟩ := h2
  exact ⟨x ++ y, by rw [hy, hx, List.append_assoc],
    fun e he => (List.mem_append.1 he).elim (hxl e) (hyl e)⟩

theorem addIssue_grows (tc : TC) (project : String) (issue : Issue) :
    Grows tc (addIssue tc project issue) :=
  ⟨[_], rfl, fun e he => by rw [List.mem_singleton.1 he]; exact .inl ⟨_, rfl, rfl⟩⟩

theorem addIssueComment_grows (tc : TC) (project : String) (issue : Int) (c : IssueComment) :
    Grows tc (addIssueComment tc project issue c) :=
  ⟨[_], rfl, fun e he => by rw [List.mem_singleton.1 he]; exact .inr (.inl ⟨_, rfl, rfl⟩)⟩

theorem addIssueEvent_grows (tc : TC) (project : String) (issue : Int) {ev : IssueEvent}
    (h1 : ev.event ≠ "unassigned") (h2 : ev.event ≠ "referenced") :
    Grows tc (addIssueEvent tc project issue ev) :=
  ⟨[_], rfl, fun e he => by rw [List.mem_singleton.1 he]; exact .inr (.inr ⟨_, rfl, rfl, h1, h2⟩)⟩

/-! ## Loops -/

/-- What one turn of a `for` loop does: `break` with its state, go on with its state, or
`return` an error. -/
inductive Turn (σ ε : Type)
  | stop (s : σ)
  | next (s : σ)
  | fail (e : ε)

/-- At most `fuel` turns of a loop: its final state, with the error that ended it, if any; an
error leaves the state of the turn that failed. -/
def runLoop {σ ε : Type} (body : σ → Turn σ ε) : Nat → σ → Option (σ × Option ε)
  | 0, _ => none
  | fuel + 1, s =>
    match body s with
    | .stop s' => some (s', none)
    | .next s' => runLoop body fuel s'
    | .fail e => some (s, some e)

/-- The loop, with one more turn of fuel than `size s`, which every turn that goes on
decreases. -/
def loop {σ ε : Type} (size : σ → Nat) (body : σ → Turn σ ε) (s : σ) : σ × Option ε :=
  (runLoop body (size s + 1) s).getD (s, none)

section Run

variable {σ ε : Type} (body : σ → Turn σ ε) (size : σ → Nat)

theorem runLoop_isSome (hs : ∀ s s', body s = .next s' → size s' < size s) :
    ∀ fuel s, size s < fuel → (runLoop body fuel s).isSome
  | 0, _, h => absurd h (Nat.not_lt_zero _)
  | fuel + 1, s, h => by
    unfold runLoop
    split
    · rfl
    · next s' hb => exact runLoop_isSome hs fuel s' (by have := hs s s' hb; omega)
    · rfl

theorem loop_ends (hs : ∀ s s', body s = .next s' → size s' < size s) (s : σ) :
    runLoop body (size s + 1) s = some (loop size body s) := by
  obtain ⟨r, hr⟩ := Option.isSome_iff_exists.1 (runLoop_isSome body size hs _ s (Nat.lt_succ_self _))
  simp [loop, hr]

theorem runLoop_inv (P : σ → Prop) (hnext : ∀ s s', P s → body s = .next s' → P s')
    (hstop : ∀ s s', P s → body s = .stop s' → P s') :
    ∀ fuel s r, P s → runLoop body fuel s = some r → P r.1
  | 0, _, _, _, h => by cases h
  | fuel + 1, s, r, hp, h => by
    unfold runLoop at h
    split at h
    · next s' hb => cases h; exact hstop s s' hp hb
    · next s' hb => exact runLoop_inv P hnext hstop fuel s' r (hnext s s' hp hb) h
    · cases h; exact hp

theorem loop_inv (P : σ → Prop) (hnext : ∀ s s', P s → body s = .next s' → P s')
    (hstop : ∀ s s', P s → body s = .stop s' → P s') (s : σ) (hp : P s) :
    P (loop size body s).1 := by
  unfold loop
  cases h : runLoop body (size s + 1) s with
  | none => exact hp
  | some r => exact runLoop_inv body P hnext hstop _ s r hp h

end Run

/-! ## The loader -/

section Loader

variable (parseTime : List Char → Option (List Char))

/-- `cutTime(line)`: the text before the last ` (`, trimmed, and the time between it and the
final `)`, as RFC 3339. -/
def cutTime (line : List Char) : List Char × List Char × Bool :=
  if !")".toList.isSuffixOf line then ([], [], false) else
  let i := lastIndex line " (".toList
  if i < 0 then ([], [], false) else
  let pre := trimSpace (line.take i.toNat)
  let ts := (line.drop (i.toNat + 2)).take (line.length - 1 - (i.toNat + 2))
  match parseTime ts with
  | some tm => (pre, tm, true)
  | none => (pre, "0001-01-01T00:00:00Z".toList, false)

/-- One turn of `readBody`'s loop: while the text starts with an empty or a tab-indented line,
take the line without its tab. -/
def bodyStep (s : List (List Char) × List Char) : Turn (List (List Char) × List Char) Empty :=
  match s.2 with
  | c :: _ =>
    if c = '\n' ∨ c = '\t' then
      let (line, rest, _) := cut s.2 ['\n']
      .next (s.1 ++ [(cutPrefix line ['\t']).1], rest)
    else .stop s
  | [] => .stop s

/-- `readBody()`: the body, as text ending in a newline, and the data after it. -/
def readBody (data : List Char) : List Char × List Char :=
  let r := (loop (·.2.length) bodyStep ([], data.dropWhile (· = '\n'))).1
  let text := if r.1 ≠ [] ∧ r.1.getLast? ≠ some [] then r.1 ++ [[]] else r.1
  (['\n'].intercalate text, r.2)

/-- A header line `Key: value`: the issue with the field it sets, if any. -/
def headerLine (name : List Char) (project : String) (line : List Char) (issue : Issue) :
    Except LoadErr Issue :=
  let (key, val, ok) := cut line [':']
  if !ok then .error (.invalidHeader name line) else
  let val := trimSpace val
  if val = [] then .ok issue else
  if key = "Title".toList then .ok { issue with title := ⟨val⟩ } else
  if key = "State".toList then .ok { issue with state := ⟨val⟩ } else
  if key = "Assignee".toList then .ok { issue with assignees := [⟨val⟩] } else
  if key = "Closed".toList then
    let (_, tm, ok) := cutTime parseTime (" (".toList ++ val ++ ")".toList)
    if !ok then .error (.invalidCloseTime name line) else
    .ok { issue with closedAt := ⟨tm⟩ }
  else
  if key = "Labels".toList then
    .ok (if val ≠ [] then
      { issue with labels := issue.labels ++ (split val ", ".toList).map String.mk } else issue)
  else
  if key = "Milestone".toList then .ok { issue with milestone := ⟨val⟩ } else
  if key = "URL".toList then
    let want := "https://github.com/" ++ project ++ "/issues/" ++ toString issue.number
    let pr := "https://github.com/" ++ project ++ "/pull/" ++ toString issue.number
    if val = pr.toList then .ok { issue with pullRequest := true } else
    if val ≠ want.toList then .error (.invalidURL name val want.toList) else
    .ok issue
  else
  if key = "PR".toList then .ok { issue with pullRequest := true } else
  .ok issue

/-- One turn of the header loop, on the data and the issue: an empty line ends the header. -/
def headerStep (name : List Char) (project : String) (s : List Char × Issue) :
    Turn (List Char × Issue) LoadErr :=
  let (line, rest, _) := cut s.1 ['\n']
  if line = [] then .stop (rest, s.2) else
  match headerLine parseTime name project line s.2 with
  | .error e => .fail e
  | .ok issue => .next (rest, issue)

/-- How an action line is split: `strings.Cut(op, sep)` into who and its argument, or
`strings.CutSuffix(op, suffix)` into who. -/
inductive Split
  | cut (sep : List Char)
  | cutSuffix (suf : List Char)

/-- The `IssueEvent` field an action's argument fills. -/
inductive Field
  | assignees
  | labels
  | milestone
  | commitID
  | none

/-- One of the `if who, ..., ok := ...; ok` blocks of the update loop: how it splits the
action, the `Event` it stores, the field its argument fills, and whether it calls
`readBody()`. -/
structure EventRule where
  split : Split
  event : String
  field : Field
  readsBody : Bool

/-- Who and the argument, when the action has the rule's form. -/
def EventRule.match? (r : EventRule) (op : List Char) : Option (List Char × List Char) :=
  match r.split with
  | .cut sep =>
    let (who, arg, ok) := cut op sep
    if ok then some (who, arg) else none
  | .cutSuffix suf =>
    let (who, ok) := cutSuffix op suf
    if ok then some (who, []) else none

/-- The event a rule adds, before `AddIssueEvent` sets its ID and URL. -/
def EventRule.toEvent (r : EventRule) (who arg tm : List Char) : IssueEvent :=
  let ev : IssueEvent := { actor := ⟨who⟩, event := r.event, createdAt := ⟨tm⟩ }
  match r.field with
  | .assignees => { ev with assignees := [⟨arg⟩] }
  | .labels => { ev with labels := [⟨arg⟩] }
  | .milestone => { ev with milestone := ⟨arg⟩ }
  | .commitID => { ev with commitID := ⟨arg⟩ }
  | .none => ev

/-- A block of the action chain: a rule, or the ` changed title` block, which reads the titles
from the next two lines. -/
inductive OpRule
  | rule (r : EventRule)
  | renamed

/-- The action blocks of the update loop, in the order the source tries them. -/
def eventRules : List OpRule :=
  [.rule ⟨.cut " assigned ".toList, "assigned", .assignees, false⟩,
   .rule ⟨.cut " unassigned ".toList, "assigned", .assignees, false⟩,
   .rule ⟨.cut " labeled ".toList, "labeled", .labels, false⟩,
   .rule ⟨.cut " unlabeled ".toList, "unlabeled", .labels, false⟩,
   .rule ⟨.cut " added to milestone ".toList, "milestoned", .milestone, false⟩,
   .rule ⟨.cut " removed from milestone ".toList, "demilestoned", .milestone, false⟩,
   .renamed,
   .rule ⟨.cut " closed in commit ".toList, "closed", .commitID, true⟩,
   .rule ⟨.cut " merged in commit ".toList, "merged", .commitID, true⟩,
   .rule ⟨.cut " referenced in commit ".toList, "merged", .commitID, true⟩,
   .rule ⟨.cutSuffix " review_requested".toList, "review_requested", .none, true⟩,
   .rule ⟨.cutSuffix " head_ref_force_pushed".toList, "head_ref_force_pushed", .none, true⟩,
   .rule ⟨.cutSuffix " head_ref_deleted".toList, "head_ref_deleted", .none, true⟩,
   .rule ⟨.cutSuffix " head_ref_restored".toList, "head_ref_restored", .none, true⟩,
   .rule ⟨.cutSuffix " closed".toList, "closed", .none, false⟩]

/-- The ` changed title` block: `  - old` and `  + new` lines follow. -/
def renameEvent (name line who tm data : List Char) : Except LoadErr (IssueEvent × List Char) :=
  if !"  - ".toList.isPrefixOf data then .error (.missingOldTitle name line) else
  let (old, rest, _) := cut (data.drop 4) ['\n']
  if !"  + ".toList.isPrefixOf rest then .error (.missingNewTitle name line) else
  let (new, rest, _) := cut (rest.drop 4) ['\n']
  .ok ({ actor := ⟨who⟩, event := "renamed", createdAt := ⟨tm⟩, rename := (⟨old⟩, ⟨new⟩) }, rest)

/-- The action chain on `op`: the event of the first block whose form `op` has, and the data
after it. -/
def dispatch (name line op tm data : List Char) :
    List OpRule → Except LoadErr (IssueEvent × List Char)
  | [] => .error (.invalidEventDescription name line)
  | .rule r :: rs =>
    match r.match? op with
    | some (who, arg) => .ok (r.toEvent who arg tm, if r.readsBody then (readBody data).2 else data)
    | none => dispatch name line op tm data rs
  | .renamed :: rs =>
    match cutSuffix op " changed title".toList with
    | (who, true) => renameEvent name line who tm data
    | (_, false) => dispatch name line op tm data rs

/-- The state of the update loop: the data left, the issue as the loader fills it (the URLs
`AddIssue` sets go only into its row), whether a report was read, and the client. -/
structure Upd where
  data : List Char
  issue : Issue
  haveReport : Bool
  tc : TC

/-- An update line, with the data `rest` after it: the state after the update. -/
def updateLine (name : List Char) (project : String) (line rest : List Char) (s : Upd) :
    Except LoadErr Upd :=
  let (pre, tm, ok) := cutTime parseTime line
  if !ok then .error (.invalidEventTime name line) else
  let line := pre
  match cutPrefix line "Reported by ".toList with
  | (who, true) =>
    if s.haveReport then .error (.multipleReported name) else
    let (body, data) := readBody rest
    let issue := { s.issue with body := ⟨body⟩, createdAt := ⟨tm⟩, updatedAt := ⟨tm⟩, user := ⟨who⟩ }
    .ok ⟨data, issue, true, addIssue s.tc project issue⟩
  | (_, false) =>
  match cutPrefix line "Comment by ".toList with
  | (who, true) =>
    if !s.haveReport then .error (.missingReported name) else
    let (body, data) := readBody rest
    .ok { s with
      data := data
      tc := addIssueComment s.tc project s.issue.number
        { user := ⟨who⟩, body := ⟨body⟩, createdAt := ⟨tm⟩, updatedAt := ⟨tm⟩ } }
  | (_, false) =>
  match cutPrefix line "* ".toList with
  | (_, false) => .error (.invalidEventDescription name line)
  | (op, true) =>
    match dispatch name line op tm rest eventRules with
    | .error e => .error e
    | .ok (ev, data) => .ok { s with data := data, tc := addIssueEvent s.tc project s.issue.number ev }

/-- One turn of the update loop (`for data != ""`); empty lines are skipped. -/
def updateStep (name : List Char) (project : String) (s : Upd) : Turn Upd LoadErr :=
  if s.data = [] then .stop s else
  let (line, rest, _) := cut s.data ['\n']
  if line = [] then .next { s with data := rest } else
  match updateLine parseTime name project line rest s with
  | .error e => .fail e
  | .ok s' => .next s'

/-- One file `(name, data)` of the archive: the issue name, the header, then the updates. -/
def loadFile (tc : TC) (file : List Char × List Char) : TC × Option LoadErr :=
  let (name, data) := file
  let (project, num, ok) := cut name ['#']
  match parseInt num with
  | none => (tc, some (.invalidName name))
  | some n =>
    if !ok ∨ project.count '/' ≠ 1 ∨ n ≤ 0 then (tc, some (.invalidName name)) else
    let (hdr, err) := loop (·.1.length) (headerStep parseTime name ⟨project⟩) (data, { number := n })
    match err with
    | some e => (tc, some e)
    | none =>
      let (u, err) := loop (·.data.length) (updateStep parseTime name ⟨project⟩)
        ⟨hdr.1, hdr.2, false, tc⟩
      (u.tc, err)

/-- `TestingClient.LoadTxtarData`: the files in order, up to the first error. -/
def loadTxtarData : TC → List (List Char × List Char) → TC × Option LoadErr
  | tc, [] => (tc, none)
  | tc, file :: files =>
    match loadFile parseTime tc file with
    | (tc, some e) => (tc, some e)
    | (tc, none) => loadTxtarData tc files

/-! ## Every loop of the loader ends -/

theorem bodyStep_stop {s s' : List (List Char) × List Char} (h : bodyStep s = .stop s') :
    s' = s := by
  unfold bodyStep at h
  split at h
  · split_ifs at h
    cases h; rfl
  · cases h; rfl

theorem bodyStep_shrinks (s s' : List (List Char) × List Char) (h : bodyStep s = .next s') :
    s'.2.length < s.2.length := by
  unfold bodyStep at h
  split at h
  · next c t hs =>
    split_ifs at h
    split at h
    next line rest found hc =>
    cases h
    have := cut_rest_lt (List.cons_ne_nil '\n' []) s.2 (by simp [hs])
    rw [hc] at this
    exact this
  · cases h

theorem readBody_rest_le (data : List Char) : (readBody data).2.length ≤ data.length := by
  have hloop := loop_inv bodyStep (·.2.length)
    (fun s => s.2.length ≤ (data.dropWhile (· = '\n')).length)
    (fun s s' hp h => (bodyStep_shrinks s s' h).le.trans hp)
    (fun s s' hp h => bodyStep_stop h ▸ hp) ([], data.dropWhile (· = '\n')) le_rfl
  exact hloop.trans (List.dropWhile_suffix _).length_le

theorem headerStep_shrinks (name : List Char) (project : String) (s s' : List Char × Issue)
    (h : headerStep parseTime name project s = .next s') : s'.1.length < s.1.length := by
  unfold headerStep at h
  split at h
  next line rest found hc =>
  split_ifs at h with hl
  split at h
  · cases h
  · cases h
    have hs : s.1 ≠ [] := by
      rintro h0
      rw [h0, cut_nil] at hc
      exact hl (Prod.mk.inj hc).1.symm
    simpa [hc] using cut_rest_lt (List.cons_ne_nil '\n' []) s.1 hs

/-! ## What the action chain returns -/

@[simp] theorem EventRule.toEvent_event (r : EventRule) (who arg tm : List Char) :
    (r.toEvent who arg tm).event = r.event := by
  unfold EventRule.toEvent
  cases r.field <;> rfl

theorem renameEvent_spec {name line who tm data d : List Char} {ev : IssueEvent}
    (h : renameEvent name line who tm data = .ok (ev, d)) :
    d.length ≤ data.length ∧ ev.event = "renamed" := by
  unfold renameEvent at h
  split_ifs at h
  split at h
  next old rest _ hc =>
  split_ifs at h
  split at h
  next new rest' _ hc' =>
  cases h
  refine ⟨?_, rfl⟩
  have h1 := cut_rest_le ['\n'] (data.drop 4)
  have h2 := cut_rest_le ['\n'] (rest.drop 4)
  rw [hc] at h1
  rw [hc'] at h2
  simp only [List.length_drop] at h1 h2
  omega

theorem dispatch_spec (name line op tm data : List Char) :
    ∀ (rs : List OpRule) {ev : IssueEvent} {d : List Char},
      dispatch name line op tm data rs = .ok (ev, d) →
      d.length ≤ data.length ∧ (ev.event = "renamed" ∨ ∃ r, OpRule.rule r ∈ rs ∧ ev.event = r.event)
  | [], _, _, h => by cases h
  | .rule r :: rs, ev, d, h => by
    unfold dispatch at h
    split at h
    · cases h
      refine ⟨?_, .inr ⟨r, List.mem_cons_self _ _, r.toEvent_event _ _ _⟩⟩
      split_ifs
      exacts [readBody_rest_le data, le_rfl]
    · obtain ⟨hd, he | ⟨r', hr', he⟩⟩ := dispatch_spec name line op tm data rs h
      exacts [⟨hd, .inl he⟩, ⟨hd, .inr ⟨r', List.mem_cons_of_mem _ hr', he⟩⟩]
  | .renamed :: rs, ev, d, h => by
    unfold dispatch at h
    split at h
    · exact (renameEvent_spec h).imp_right .inl
    · obtain ⟨hd, he | ⟨r', hr', he⟩⟩ := dispatch_spec name line op tm data rs h
      exacts [⟨hd, .inl he⟩, ⟨hd, .inr ⟨r', List.mem_cons_of_mem _ hr', he⟩⟩]

theorem dispatch_eventRules {name line op tm data d : List Char} {ev : IssueEvent}
    (h : dispatch name line op tm data eventRules = .ok (ev, d)) :
    d.length ≤ data.length ∧ ev.event ≠ "unassigned" ∧ ev.event ≠ "referenced" := by
  obtain ⟨hd, he | ⟨r, hr, he⟩⟩ := dispatch_spec name line op tm data eventRules h
  · exact ⟨hd, by rw [he]; decide, by rw [he]; decide⟩
  · have hall : eventRules.all (fun
        | .rule r => r.event != "unassigned" && r.event != "referenced"
        | .renamed => true) = true := by decide
    have hr := List.all_eq_true.1 hall _ hr
    simp only [bne_iff_ne, ne_eq, Bool.and_eq_true] at hr
    exact ⟨hd, he ▸ hr⟩

/-! ## The update loop adds only loaded rows -/

theorem updateLine_spec {name : List Char} {project : String} {line rest : List Char} {s s' : Upd}
    (h : updateLine parseTime name project line rest s = .ok s') :
    s'.data.length ≤ rest.length ∧ Grows s.tc s'.tc := by
  unfold updateLine at h
  split at h
  split at h
  · cases h
  dsimp only at h
  split at h
  · split at h
    · cases h
    cases h
    exact ⟨readBody_rest_le rest, addIssue_grows _ _ _⟩
  split at h
  · split at h
    · cases h
    cases h
    exact ⟨readBody_rest_le rest, addIssueComment_grows _ _ _ _⟩
  split at h
  · cases h
  split at h
  · cases h
  next ev data hd =>
  cases h
  obtain ⟨hl, h1, h2⟩ := dispatch_eventRules hd
  exact ⟨hl, addIssueEvent_grows _ _ _ h1 h2⟩

theorem updateStep_stop {name : List Char} {project : String} {s s' : Upd}
    (h : updateStep parseTime name project s = .stop s') : s' = s := by
  unfold updateStep at h
  split_ifs at h
  · cases h; rfl
  · split at h
    split_ifs at h
    split at h <;> cases h

theorem updateStep_next {name : List Char} {project : String} {s s' : Upd}
    (h : updateStep parseTime name project s = .next s') :
    s'.data.length < s.data.length ∧ Grows s.tc s'.tc := by
  unfold updateStep at h
  split_ifs at h with h0
  split at h
  next line rest _ hc =>
  have hlt : rest.length < s.data.length := by
    simpa [hc] using cut_rest_lt (List.cons_ne_nil '\n' []) s.data h0
  split_ifs at h
  · cases h
    exact ⟨hlt, .refl _⟩
  · split at h
    · cases h
    · next s'' hs =>
      cases h
      obtain ⟨hd, hg⟩ := updateLine_spec parseTime hs
      exact ⟨by omega, hg⟩

theorem updateStep_shrinks (name : List Char) (project : String) (s s' : Upd)
    (h : updateStep parseTime name project s = .next s') : s'.data.length < s.data.length :=
  (updateStep_next parseTime h).1

theorem loadFile_grows (tc : TC) (file : List Char × List Char) :
    Grows tc (loadFile parseTime tc file).1 := by
  unfold loadFile
  split
  next name data =>
  split
  next project num ok _ =>
  split
  · exact .refl _
  · split_ifs
    · exact .refl _
    · split
      next hdr err _ =>
      split
      · exact .refl _
      · split
        next u err' hu =>
        have := loop_inv (updateStep parseTime name ⟨project⟩) (·.data.length)
          (fun u => Grows tc u.tc) (fun _ _ hp h => hp.trans (updateStep_next parseTime h).2)
          (fun _ _ hp h => updateStep_stop parseTime h ▸ hp) ⟨hdr.1, hdr.2, false, tc⟩ (.refl _)
        rw [hu] at this
        exact this

theorem loadTxtarData_grows : ∀ (tc : TC) (files : List (List Char × List Char)),
    Grows tc (loadTxtarData parseTime tc files).1
  | tc, [] => .refl _
  | tc, file :: files => by
    unfold loadTxtarData
    have hf := loadFile_grows parseTime tc file
    split
    · next tc' e h => rw [h] at hf; exact hf
    · next tc' h => rw [h] at hf; exact hf.trans (loadTxtarData_grows tc' files)

theorem loader_loops_end (name : List Char) (project : String) :
    (∀ s, runLoop bodyStep (s.2.length + 1) s = some (loop (·.2.length) bodyStep s)) ∧
    (∀ s, runLoop (headerStep parseTime name project) (s.1.length + 1) s =
      some (loop (·.1.length) (headerStep parseTime name project) s)) ∧
    ∀ s, runLoop (updateStep parseTime name project) (s.data.length + 1) s =
      some (loop (·.data.length) (updateStep parseTime name project) s) :=
  ⟨loop_ends _ _ bodyStep_shrinks, loop_ends _ _ (headerStep_shrinks parseTime name project),
    loop_ends _ _ (updateStep_shrinks parseTime name project)⟩

/-! ## An `unassigned` line -/

theorem cut_eq_of_absent {s sep : List Char} (h : ¬ sep <:+: s) : cut s sep = (s, [], false) :=
  cut_of_not_found sep s (Bool.eq_false_iff.2 (mt (cut_found sep s).1 h))

theorem cut_eq_of_present {s sep : List Char} (h : sep <:+: s) :
    ∃ a b, cut s sep = (a, b, true) :=
  ⟨_, _, Prod.ext rfl (Prod.ext rfl ((cut_found sep s).2 h))⟩

theorem updateLine_unassigned {name : List Char} {project : String} {line rest op tm : List Char}
    (s : Upd) (ht : cutTime parseTime line = ("* ".toList ++ op, tm, true))
    (h1 : ¬ " assigned ".toList <:+: op) (h2 : " unassigned ".toList <:+: op) :
    ∃ who whom, updateLine parseTime name project line rest s = .ok { s with
      data := rest
      tc := addIssueEvent s.tc project s.issue.number
        { actor := ⟨who⟩, event := "assigned", createdAt := ⟨tm⟩, assignees := [⟨whom⟩] } } := by
  obtain ⟨who, whom, hc⟩ := cut_eq_of_present h2
  have hR : "Reported by ".toList.isPrefixOf ("* ".toList ++ op) = false := rfl
  have hC : "Comment by ".toList.isPrefixOf ("* ".toList ++ op) = false := rfl
  have hS : "* ".toList.isPrefixOf ("* ".toList ++ op) = true := by simp
  refine ⟨who, whom, ?_⟩
  simp only [updateLine, ht, cutPrefix, hR, hC, hS, List.drop_left, eventRules, dispatch,
    EventRule.match?, EventRule.toEvent, cut_eq_of_absent h1, hc, Bool.not_true,
    Bool.false_eq_true, ↓reduceIte]

end Loader

/-- The rows `LoadTxtarData` adds, whatever the archive and also when it fails, hold issues under
API `/issues`, and comments and issue events both under `/issues/comments`, with no event named
`unassigned` or `referenced`; and an update `* who unassigned whom` is accepted as an event
named `assigned`. -/
theorem loadTxtarData_stores :
    (∀ (parseTime : List Char → Option (List Char)) (tc : TC)
      (files : List (List Char × List Char)),
      ∃ added, (loadTxtarData parseTime tc files).1.stored = tc.stored ++ added ∧
        ∀ e ∈ added,
          (∃ i, e.typed = .issue i ∧ e.key.api = "/issues") ∨
          (∃ c, e.typed = .comment c ∧ e.key.api = "/issues/comments") ∨
          (∃ ev, e.typed = .event ev ∧ e.key.api = "/issues/comments" ∧
            ev.event ≠ "unassigned" ∧ ev.event ≠ "referenced")) ∧
    ∀ (parseTime : List Char → Option (List Char)) (name : List Char) (project : String)
      (line rest op tm : List Char) (s : Upd),
      cutTime parseTime line = ("* ".toList ++ op, tm, true) →
      ¬ " assigned ".toList <:+: op → " unassigned ".toList <:+: op →
      ∃ who whom, updateLine parseTime name project line rest s = .ok { s with
        data := rest
        tc := addIssueEvent s.tc project s.issue.number
          { actor := ⟨who⟩, event := "assigned", createdAt := ⟨tm⟩, assignees := [⟨whom⟩] } } :=
  ⟨loadTxtarData_grows, fun parseTime _ _ _ _ _ _ s ht h1 h2 =>
    updateLine_unassigned parseTime s ht h1 h2⟩

/-- The update loop's state for `a/b#1` after `Reported by x`. -/
def reportedUpd : Upd := ⟨[], { number := 1 }, true, TC.init⟩

/-- `* x unassigned y (t)` is stored as an event named `assigned`. -/
theorem unassignedLine_assigned :
    cutTime some "* x unassigned y (t)".toList = ("* ".toList ++ "x unassigned y".toList, "t".toList, true) ∧
    ¬ " assigned ".toList <:+: "x unassigned y".toList ∧
    " unassigned ".toList <:+: "x unassigned y".toList ∧
    ∃ who whom, updateLine some [] "a/b" "* x unassigned y (t)".toList [] reportedUpd =
      .ok { reportedUpd with
        data := []
        tc := addIssueEvent reportedUpd.tc "a/b" reportedUpd.issue.number
          { actor := ⟨who⟩, event := "assigned", createdAt := ⟨"t".toList⟩,
            assignees := [⟨whom⟩] } } :=
  have ht : cutTime some "* x unassigned y (t)".toList =
      ("* ".toList ++ "x unassigned y".toList, "t".toList, true) := by decide
  have h1 : ¬ " assigned ".toList <:+: "x unassigned y".toList := by decide
  have h2 : " unassigned ".toList <:+: "x unassigned y".toList := by decide
  ⟨ht, h1, h2, loadTxtarData_stores.2 some [] "a/b" _ [] _ _ reportedUpd ht h1 h2⟩

/-- One issue whose updates are an `unassigned` line and a `referenced in commit` line. -/
def unassignedArchive : List (List Char × List Char) :=
  [("a/b#1".toList, "\n* x unassigned y (u)\n* x referenced in commit c (v)\n".toList)]

set_option maxRecDepth 2000 in
example : (loadTxtarData some TC.init unassignedArchive).2.isNone ∧
    ((loadTxtarData some TC.init unassignedArchive).1.stored.map
      fun e => (e.key.api, match e.typed with | .event ev => ev.event | _ => "")) =
      [("/issues/comments", "assigned"), ("/issues/comments", "merged")] := by
  decide

end Gaby.Github.Txtar
