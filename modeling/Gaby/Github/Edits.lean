import Gaby.Github.Lookup

/-!
# Diverted edits name what they edit

In testing mode (`divertEdits`), `PostIssueComment`, `EditIssueComment` and `EditIssue` append a
`TestingEdit` instead of calling GitHub, and the tests compare `TestingEdit.String()` with what
they expect. The edit's project, issue and comment come from the URLs of the issue or comment:
`urlToProject` of `URL`, `baseToInt64` of the `HTMLURL` up to its `#` for a comment's issue, and
of `URL` for its ID.

* `urlToProject_api`, `baseToInt64_slash`, `issue_htmlURL`: these read back what
  `TestingClient.AddIssue` and `AddIssueComment` write with `Sprintf`, for a project with one `/`
  and positive `int64` numbers.
* `Stored.Named`, `TC.Named`: every row carries such URLs, with comment IDs up to the counter;
  `AddIssue`, `AddIssueComment` and `AddIssueEvent` keep it (`TC.Named.addIssue`, ...).
* `TC.Keyed`: every row's ID is drawn from its own counter, above the counter's first value, and
  the IDs of one counter increase in the order of the rows.
* `updateLine_keeps`, `loadFile_keeps`, `loadTxtarData_keeps`: the loader changes the client only
  by those three calls, for the project and issue of a name `org/repo#num` it accepts
  (`Accepted`), so it keeps every invariant they keep, also when it fails.
* `loaded_edits`: so every diverted edit of an issue or comment `LoadTxtarData` stored names the
  project, issue and comment ID of its row, all positive while the comment counter is an
  `int64`.
* `loaded_keys_nodup`: and no two rows it stores share a key, while the comment counter stays
  at most the event counter's first value.
-/

namespace Gaby.Github.Txtar

open Gaby.Timed

/-! ## What the testing client reads back -/

/-- `urlToProject(u)`: the `owner/repo` after `https://api.github.com/repos/`, or `""`. -/
def urlToProject (u : String) : String :=
  match cutPrefix u.toList "https://api.github.com/repos/".toList with
  | (_, false) => ""
  | (u, true) =>
    let i := index u '/'
    if i < 0 then "" else
    let j := index (u.drop (i.toNat + 1)) '/'
    if j < 0 then "" else ⟨u.take (i.toNat + 1 + j.toNat)⟩

/-- `baseToInt64(u)`: the number after the last `/`, or `0` unless it is a positive `int64`. -/
def baseToInt64 (u : List Char) : Int :=
  match parseInt (u.drop (lastIndex u "/".toList + 1).toNat) with
  | some i => if i ≤ 0 then 0 else i
  | none => 0

/-- `x.Project()` of an issue. -/
def Issue.project (x : Issue) : String := urlToProject x.url

/-- `x.Project()` of an issue comment. -/
def IssueComment.project (x : IssueComment) : String := urlToProject x.url

/-- `x.Issue()` of an issue comment: `baseToInt64` of `HTMLURL` up to its `#`. -/
def IssueComment.issue (x : IssueComment) : Int := baseToInt64 (cut x.htmlURL.toList ['#']).1

/-- `x.CommentID()` of an issue comment. -/
def IssueComment.commentID (x : IssueComment) : Int := baseToInt64 x.url.toList

/-- `IssueCommentChanges`. -/
structure IssueCommentChanges where
  body : String
deriving DecidableEq

/-- `IssueChanges`; `labels` is `nil` or the new set of labels. -/
structure IssueChanges where
  title : String
  body : String
  state : String
  labels : Option (List String)
deriving DecidableEq

/-- `TestingEdit`: an edit diverted in testing mode. -/
structure TestingEdit where
  project : String
  issue : Int
  comment : Int
  issueChanges : Option IssueChanges
  issueCommentChanges : Option IssueCommentChanges
deriving DecidableEq

/-- The edit `PostIssueComment(issue, changes)` appends in testing mode. -/
def postIssueComment (issue : Issue) (changes : IssueCommentChanges) : TestingEdit :=
  ⟨issue.project, issue.number, 0, none, some changes⟩

/-- The edit `EditIssueComment(comment, changes)` appends in testing mode. -/
def editIssueComment (comment : IssueComment) (changes : IssueCommentChanges) : TestingEdit :=
  ⟨comment.project, comment.issue, comment.commentID, none, some changes⟩

/-- The edit `EditIssue(issue, changes)` appends in testing mode. -/
def editIssue (issue : Issue) (changes : IssueChanges) : TestingEdit :=
  ⟨issue.project, issue.number, 0, some changes, none⟩

/-- `e.String()`, with `json.Marshal` of the changes given: an edit of issue or comment `0` is
printed as a post. -/
def TestingEdit.string (marshalIssue : IssueChanges → String)
    (marshalComment : IssueCommentChanges → String) (e : TestingEdit) : String :=
  match e.issueChanges, e.issueCommentChanges with
  | some ch, _ =>
    if e.issue = 0 then "PostIssue(" ++ e.project ++ ", " ++ marshalIssue ch ++ ")"
    else "EditIssue(" ++ e.project ++ "#" ++ toString e.issue ++ ", " ++ marshalIssue ch ++ ")"
  | none, some ch =>
    if e.comment = 0 then
      "PostIssueComment(" ++ e.project ++ "#" ++ toString e.issue ++ ", " ++ marshalComment ch ++ ")"
    else
      "EditIssueComment(" ++ e.project ++ "#" ++ toString e.issue ++ "." ++ toString e.comment ++
        ", " ++ marshalComment ch ++ ")"
  | none, none => "?"

/-! ## Reading back the URLs -/

theorem split_project {p : List Char} (h : p.count '/' = 1) :
    ∃ a b, p = a ++ '/' :: b ∧ '/' ∉ a ∧ '/' ∉ b := by
  induction p with
  | nil => simp at h
  | cons c p ih =>
    by_cases hc : c = '/'
    · subst hc
      rw [List.count_cons_self] at h
      exact ⟨[], p, rfl, List.not_mem_nil _, List.count_eq_zero.1 (by omega)⟩
    · rw [List.count_cons_of_ne (Ne.symm hc)] at h
      obtain ⟨a, b, rfl, ha, hb⟩ := ih h
      exact ⟨c :: a, b, rfl, by simp [ha, Ne.symm hc], hb⟩

theorem toList_append (s t : String) : (s ++ t).toList = s.toList ++ t.toList := rfl

theorem urlToProject_api {p : String} (hp : p.toList.count '/' = 1) {s : String} {s' : List Char}
    (hs : s.toList = '/' :: s') (r : String) :
    urlToProject ("https://api.github.com/repos/" ++ p ++ s ++ r) = p := by
  obtain ⟨a, b, hab, ha, hb⟩ := split_project hp
  have hu : ("https://api.github.com/repos/" ++ p ++ s ++ r).toList =
      "https://api.github.com/repos/".toList ++ (p.toList ++ '/' :: (s' ++ r.toList)) := by
    simp only [toList_append, hs, List.append_assoc, List.cons_append]
  have hcut : cutPrefix ("https://api.github.com/repos/" ++ p ++ s ++ r).toList
      "https://api.github.com/repos/".toList = (p.toList ++ '/' :: (s' ++ r.toList), true) := by
    rw [hu]
    simp [cutPrefix, List.isPrefixOf_iff_prefix]
  have hi : index (p.toList ++ '/' :: (s' ++ r.toList)) '/' = a.length := by
    rw [hab, List.append_assoc, List.cons_append, index_append_cons ha]
  have hj : index ((p.toList ++ '/' :: (s' ++ r.toList)).drop (a.length + 1)) '/' = b.length := by
    have : p.toList ++ '/' :: (s' ++ r.toList) = (a ++ ['/']) ++ (b ++ '/' :: (s' ++ r.toList)) := by
      rw [hab]; simp
    rw [this, List.drop_left' (by simp), index_append_cons hb]
  unfold urlToProject
  rw [hcut]
  dsimp only
  rw [hi, if_neg (by omega), Int.toNat_natCast, hj, if_neg (by omega), Int.toNat_natCast, hab,
    List.take_left' (by simp; omega), ← hab]
  rfl

theorem mem_toString_pos {n : Int} (h0 : 0 < n) {c : Char} (hc : c ∈ (toString n).toList) :
    c.isDigit := by
  obtain ⟨m, rfl⟩ := Int.eq_ofNat_of_zero_le h0.le
  exact (Httprr.decimal_spec m).2.1 c hc

theorem baseToInt64_slash (x : List Char) {n : Int} (h0 : 0 < n) (hn : n ≤ maxInt64) :
    baseToInt64 (x ++ '/' :: (toString n).toList) = n := by
  obtain ⟨hp, hs⟩ := parseInt_toString (n := n) (by omega) (by unfold maxInt64 at hn; omega)
  have hslash : "/".toList = ['/'] := rfl
  have hl : lastIndex (x ++ "/".toList ++ (toString n).toList) "/".toList = x.length := by
    refine lastIndex_append (by decide) (fun j hj ⟨t, ht⟩ => hs ?_) x
    obtain ⟨k, rfl⟩ : ∃ k, j = k + 1 := ⟨j - 1, by omega⟩
    rw [hslash, List.singleton_append, List.singleton_append, List.drop_succ_cons] at ht
    exact List.mem_of_mem_drop (ht ▸ List.mem_cons_self '/' t)
  have hx : x ++ '/' :: (toString n).toList = (x ++ "/".toList) ++ (toString n).toList := by
    rw [hslash, List.append_assoc, List.singleton_append]
  unfold baseToInt64
  rw [hx, hl, show ((x.length : Int) + 1).toNat = (x ++ "/".toList).length by simp [hslash],
    List.drop_left, hp]
  exact if_neg (not_le.2 h0)

theorem baseToInt64_toString {u : String} {x : List Char} (hu : u.toList = x ++ ['/']) {n : Int}
    (h0 : 0 < n) (hn : n ≤ maxInt64) : baseToInt64 (u ++ toString n).toList = n := by
  rw [toList_append, hu, List.append_assoc, List.singleton_append]
  exact baseToInt64_slash x h0 hn

theorem issue_htmlURL {c : IssueComment} {p : String} (hp : '#' ∉ p.toList) {n : Int} (h0 : 0 < n)
    (hn : n ≤ maxInt64) {t : String} {t' : List Char} (ht : t.toList = '#' :: t')
    (h : c.htmlURL = "https://github.com/" ++ p ++ "/issues/" ++ toString n ++ t) : c.issue = n := by
  have hnot : '#' ∉ ("https://github.com/" ++ p ++ "/issues/" ++ toString n).toList := by
    simp only [toList_append, List.mem_append, not_or]
    exact ⟨⟨⟨by decide, hp⟩, by decide⟩, fun hm => absurd (mem_toString_pos h0 hm) (by decide)⟩
  unfold IssueComment.issue
  rw [h, toList_append _ t, ht, Httprr.cut_char_of_not_mem _ hnot]
  exact baseToInt64_toString (x := ("https://github.com/" ++ p ++ "/issues").toList)
    (by simp only [toList_append, List.append_assoc]; rfl) h0 hn

/-! ## What the testing client stores -/

/-- A row as `AddIssue`, `AddIssueComment` or `AddIssueEvent` stores it for a project with one
`/` and no `#` and a positive `int64` issue number: an issue with its number and API URL, a
comment with a positive ID and its two URLs. -/
structure Stored.Named (e : Stored) : Prop where
  project : e.key.project.toList.count '/' = 1 ∧ '#' ∉ e.key.project.toList
  issuePos : 0 < e.key.issue
  issueLe : e.key.issue ≤ maxInt64
  issue : ∀ x, e.typed = .issue x → x.number = e.key.issue ∧
    x.url = "https://api.github.com/repos/" ++ e.key.project ++ "/issues/" ++ toString e.key.issue
  comment : ∀ c, e.typed = .comment c → 0 < e.key.id ∧
    c.url = "https://api.github.com/repos/" ++ e.key.project ++ "/issues/comments/" ++
      toString e.key.id ∧
    c.htmlURL = "https://github.com/" ++ e.key.project ++ "/issues/" ++ toString e.key.issue ++
      "#issuecomment-" ++ toString e.key.id

theorem Stored.Named.edits {e : Stored} (h : e.Named) :
    (∀ x, e.typed = .issue x → ∀ ch chc,
      editIssue x ch = ⟨e.key.project, e.key.issue, 0, some ch, none⟩ ∧
      postIssueComment x chc = ⟨e.key.project, e.key.issue, 0, none, some chc⟩) ∧
    (∀ c, e.typed = .comment c → e.key.id ≤ maxInt64 → ∀ ch,
      editIssueComment c ch = ⟨e.key.project, e.key.issue, e.key.id, none, some ch⟩) := by
  refine ⟨fun x hx ch chc => ?_, fun c hc hle ch => ?_⟩
  · obtain ⟨hnum, hurl⟩ := h.issue x hx
    have hp : x.project = e.key.project := by
      rw [Issue.project, hurl, urlToProject_api h.project.1 rfl]
    simp only [editIssue, postIssueComment, hp, hnum, and_self]
  · obtain ⟨hid, hurl, hhtml⟩ := h.comment c hc
    have hp : c.project = e.key.project := by
      rw [IssueComment.project, hurl, urlToProject_api h.project.1 rfl]
    have hi : c.issue = e.key.issue :=
      issue_htmlURL h.project.2 h.issuePos h.issueLe (t := "#issuecomment-" ++ toString e.key.id)
        rfl (by rw [hhtml, String.append_assoc])
    have hc : c.commentID = e.key.id := by
      rw [IssueComment.commentID, hurl]
      exact baseToInt64_toString
        (x := ("https://api.github.com/repos/" ++ e.key.project ++ "/issues/comments").toList)
        (by simp only [toList_append, List.append_assoc]; rfl) hid hle
    simp only [editIssueComment, hp, hi, hc]

/-- Every row of the client is named, and every comment ID is at most the comment counter. -/
structure TC.Named (tc : TC) : Prop where
  rows : ∀ e ∈ tc.stored, e.Named
  ids : ∀ e ∈ tc.stored, ∀ c, e.typed = .comment c → e.key.id ≤ tc.commentID
  nonneg : 0 ≤ tc.commentID

theorem TC.named_init : TC.init.Named :=
  ⟨fun _ h => absurd h (List.not_mem_nil _), fun _ h => absurd h (List.not_mem_nil _), by decide⟩

section Add

variable {tc : TC} (h : tc.Named) {project : String}
  (hp : project.toList.count '/' = 1 ∧ '#' ∉ project.toList) {n : Int} (h0 : 0 < n)
  (hn : n ≤ maxInt64)

include h in
theorem TC.Named.append_of_not_comment {e : Stored} {tc' : TC} {url : String} (he : e.Named)
    (hc : ∀ c, e.typed ≠ .comment c) (hs : tc'.stored = tc.stored)
    (hid : tc'.commentID = tc.commentID) : (addEvent tc' url e).Named := by
  refine ⟨fun e' h' => ?_, fun e' h' c hc' => ?_, hid ▸ h.nonneg⟩
  · rcases List.mem_append.1 h' with h' | h'
    · exact h.rows e' (hs ▸ h')
    · exact List.mem_singleton.1 h' ▸ he
  · rcases List.mem_append.1 h' with h' | h'
    · exact hid ▸ h.ids e' (hs ▸ h') c hc'
    · exact absurd (List.mem_singleton.1 h' ▸ hc') (hc c)

include h hp in
theorem TC.Named.addIssue {issue : Issue} (h0 : 0 < issue.number) (hn : issue.number ≤ maxInt64) :
    (Txtar.addIssue tc project issue).Named := by
  unfold Txtar.addIssue
  refine h.append_of_not_comment ⟨hp, h0, hn, fun x hx => ?_, fun c hc => ?_⟩ (fun _ hc => ?_)
    rfl rfl
  · cases hx
    exact ⟨rfl, rfl⟩
  all_goals cases hc

include h hp h0 hn in
theorem TC.Named.addIssueEvent (ev : IssueEvent) : (Txtar.addIssueEvent tc project n ev).Named := by
  unfold Txtar.addIssueEvent
  refine h.append_of_not_comment ⟨hp, h0, hn, fun x hx => ?_, fun c hc => ?_⟩ (fun _ hc => ?_)
    rfl rfl
  · cases hx
  all_goals cases hc

include h hp h0 hn in
theorem TC.Named.addIssueComment (c : IssueComment) :
    (Txtar.addIssueComment tc project n c).Named := by
  have hpos := h.nonneg
  refine ⟨fun e' h' => ?_, fun e' h' c' hc' => ?_, by dsimp [Txtar.addIssueComment, addEvent]; omega⟩
  · rcases List.mem_append.1 h' with h' | h'
    · exact h.rows e' h'
    · rw [List.mem_singleton.1 h']
      exact ⟨hp, h0, hn, fun x hx => (by cases hx), fun c' hc' => by
        cases hc'; exact ⟨by dsimp only; omega, rfl, rfl⟩⟩
  · rcases List.mem_append.1 h' with h' | h'
    · have := h.ids e' h' c' hc'
      dsimp [Txtar.addIssueComment, addEvent]
      omega
    · rw [List.mem_singleton.1 h']
      exact le_rfl

end Add

/-- The counter of the client a row's ID is drawn from: `issueID` for an issue, `commentID` for a
comment, `eventID` for an issue event. -/
def Typed.counter : Typed → TC → Int
  | .issue _ => TC.issueID
  | .comment _ => TC.commentID
  | .event _ => TC.eventID

@[simp] theorem Typed.counter_addEvent (t : Typed) (tc : TC) (url : String) (e : Stored) :
    t.counter (addEvent tc url e) = t.counter tc := by
  cases t <;> rfl

/-- Every row's ID lies above its counter's first value and at most at its counter, the IDs
drawn from one counter increase in the order of the rows, and no counter is below its first
value. -/
structure TC.Keyed (tc : TC) : Prop where
  range : ∀ e ∈ tc.stored, e.typed.counter TC.init < e.key.id ∧ e.key.id ≤ e.typed.counter tc
  fresh : tc.stored.Pairwise fun e e' => e.typed.counter = e'.typed.counter → e.key.id < e'.key.id
  above : ∀ t : Typed, t.counter TC.init ≤ t.counter tc

theorem TC.keyed_init : TC.init.Keyed :=
  ⟨fun _ h => absurd h (List.not_mem_nil _), .nil, fun _ => le_rfl⟩

theorem TC.Keyed.append {tc tc' : TC} {e : Stored} {url : String} (h : tc.Keyed)
    (hs : tc'.stored = tc.stored) (hid : e.key.id = e.typed.counter tc + 1)
    (hle : e.key.id ≤ e.typed.counter tc') (hc : ∀ t : Typed, t.counter tc ≤ t.counter tc') :
    (addEvent tc' url e).Keyed := by
  refine ⟨fun e' he' => ?_, ?_, fun t => by rw [Typed.counter_addEvent]; exact (h.above t).trans (hc t)⟩
  · rw [Typed.counter_addEvent]
    rcases List.mem_append.1 he' with he' | he'
    · obtain ⟨h₁, h₂⟩ := h.range e' (hs ▸ he')
      exact ⟨h₁, h₂.trans (hc e'.typed)⟩
    · rw [List.mem_singleton.1 he']
      have := h.above e.typed
      exact ⟨by omega, hle⟩
  · show (tc'.stored ++ [e]).Pairwise _
    rw [hs, List.pairwise_append]
    refine ⟨h.fresh, List.pairwise_singleton _ _, fun e' he' x hx hcnt => ?_⟩
    obtain rfl := List.mem_singleton.1 hx
    have := (h.range e' he').2
    rw [congrFun hcnt tc] at this
    omega

theorem TC.Keyed.addIssue {tc : TC} (h : tc.Keyed) (project : String) (issue : Issue) :
    (Txtar.addIssue tc project issue).Keyed :=
  h.append rfl rfl le_rfl fun t => by cases t <;> dsimp only [Typed.counter] <;> omega

theorem TC.Keyed.addIssueComment {tc : TC} (h : tc.Keyed) (project : String) (n : Int)
    (c : IssueComment) : (Txtar.addIssueComment tc project n c).Keyed :=
  h.append rfl rfl le_rfl fun t => by cases t <;> dsimp only [Typed.counter] <;> omega

theorem TC.Keyed.addIssueEvent {tc : TC} (h : tc.Keyed) (project : String) (n : Int)
    (ev : IssueEvent) : (Txtar.addIssueEvent tc project n ev).Keyed :=
  h.append rfl rfl le_rfl fun t => by cases t <;> dsimp only [Typed.counter] <;> omega

/-- While the comment counter is at most the event counter's first value, a comment's ID is below
every issue event's. -/
theorem TC.Keyed.comment_lt_event {tc : TC} (h : tc.Keyed) (hc : tc.commentID ≤ TC.init.eventID)
    {e e' : Stored} (he : e ∈ tc.stored) (he' : e' ∈ tc.stored) {c : IssueComment}
    {v : IssueEvent} (ht : e.typed = .comment c) (ht' : e'.typed = .event v) :
    e.key.id < e'.key.id := by
  have h₁ := (h.range e he).2
  have h₂ := (h.range e' he').1
  rw [ht] at h₁
  rw [ht'] at h₂
  dsimp only [Typed.counter] at h₁ h₂
  omega

/-! ## What the loader adds -/

theorem parseInt_le {s : List Char} {n : Int} (h : parseInt s = some n) : n ≤ maxInt64 := by
  unfold parseInt at h
  dsimp only at h
  split_ifs at h <;> cases h <;> unfold maxInt64 <;> omega

section Loader

variable (parseTime : List Char → Option (List Char))

theorem headerLine_number {name : List Char} {project : String} {line : List Char}
    {issue issue' : Issue} (h : headerLine parseTime name project line issue = .ok issue') :
    issue'.number = issue.number := by
  unfold headerLine at h
  split at h
  next key val ok _ =>
  by_cases hok : (!ok) = true
  · rw [if_pos hok] at h; cases h
  rw [if_neg hok] at h
  generalize trimSpace val = v at h
  by_cases h0 : v = []
  · rw [if_pos h0] at h; cases h; rfl
  rw [if_neg h0] at h
  by_cases hTitle : key = "Title".toList
  · rw [if_pos hTitle] at h; cases h; rfl
  rw [if_neg hTitle] at h
  by_cases hState : key = "State".toList
  · rw [if_pos hState] at h; cases h; rfl
  rw [if_neg hState] at h
  by_cases hAssignee : key = "Assignee".toList
  · rw [if_pos hAssignee] at h; cases h; rfl
  rw [if_neg hAssignee] at h
  by_cases hClosed : key = "Closed".toList
  · rw [if_pos hClosed] at h
    split at h
    split at h
    · cases h
    · cases h; rfl
  rw [if_neg hClosed] at h
  by_cases hLabels : key = "Labels".toList
  · rw [if_pos hLabels] at h; cases h; split <;> rfl
  rw [if_neg hLabels] at h
  by_cases hMilestone : key = "Milestone".toList
  · rw [if_pos hMilestone] at h; cases h; rfl
  rw [if_neg hMilestone] at h
  by_cases hURL : key = "URL".toList
  · rw [if_pos hURL] at h
    dsimp only at h
    split at h
    · cases h; rfl
    · split at h
      · cases h
      · cases h; rfl
  rw [if_neg hURL] at h
  split at h <;> cases h <;> rfl

theorem headerStep_number {name : List Char} {project : String} {s s' : List Char × Issue} :
    (headerStep parseTime name project s = .next s' ∨ headerStep parseTime name project s = .stop s') →
      s'.2.number = s.2.number := by
  unfold headerStep
  split
  split_ifs
  · rintro (h | h) <;> cases h; rfl
  · split
    · rintro (h | h) <;> cases h
    · next issue hl => rintro (h | h) <;> cases h; exact headerLine_number parseTime hl

/-- The names and issue numbers the loader adds rows for: a project with one `/` and no `#`, and a
positive `int64` issue number. -/
def Accepted (project : String) (n : Int) : Prop :=
  (project.toList.count '/' = 1 ∧ '#' ∉ project.toList) ∧ 0 < n ∧ n ≤ maxInt64

section Keeps

/-! The loader changes the client only by `AddIssue`, `AddIssueComment` and `AddIssueEvent`
for the project and issue of a name it accepted; so an invariant those calls keep holds after it,
also when it fails. -/

variable {P : TC → Prop}
  (hI : ∀ {tc : TC} {project : String} {issue : Issue}, Accepted project issue.number → P tc →
    P (addIssue tc project issue))
  (hC : ∀ {tc : TC} {project : String} {n : Int} (c : IssueComment), Accepted project n → P tc →
    P (addIssueComment tc project n c))
  (hE : ∀ {tc : TC} {project : String} {n : Int} (ev : IssueEvent), Accepted project n → P tc →
    P (addIssueEvent tc project n ev))

include hI hC hE

theorem updateLine_keeps {name line rest : List Char} {project : String} {s s' : Upd}
    (hA : Accepted project s.issue.number) (hp : P s.tc)
    (h : updateLine parseTime name project line rest s = .ok s') :
    s'.issue.number = s.issue.number ∧ P s'.tc := by
  unfold updateLine at h
  split at h
  split at h
  · cases h
  dsimp only at h
  split at h
  · split at h
    · cases h
    cases h
    exact ⟨rfl, hI hA hp⟩
  split at h
  · split at h
    · cases h
    cases h
    exact ⟨rfl, hC _ hA hp⟩
  split at h
  · cases h
  split at h
  · cases h
  cases h
  exact ⟨rfl, hE _ hA hp⟩

theorem updateStep_keeps {name : List Char} {project : String} {s s' : Upd}
    (hA : Accepted project s.issue.number) (hp : P s.tc)
    (h : updateStep parseTime name project s = .next s') :
    s'.issue.number = s.issue.number ∧ P s'.tc := by
  unfold updateStep at h
  split_ifs at h
  split at h
  split_ifs at h
  · cases h
    exact ⟨rfl, hp⟩
  · split at h
    · cases h
    · next hs => cases h; exact updateLine_keeps parseTime hI hC hE hA hp hs

theorem loadFile_keeps {tc : TC} (hp : P tc) (file : List Char × List Char) :
    P (loadFile parseTime tc file).1 := by
  unfold loadFile
  split
  next name data =>
  split
  next project num ok hc =>
  split
  · exact hp
  next n hpn =>
  split_ifs with hbad
  · exact hp
  simp only [Bool.not_eq_true', not_or, ne_eq, not_not, not_le, Bool.not_eq_false] at hbad
  obtain ⟨rfl, hcount, hpos⟩ := hbad
  have hA : Accepted ⟨project⟩ n := ⟨⟨hcount, (Httprr.cut_char_spec hc).2⟩, hpos, parseInt_le hpn⟩
  split
  next hdr err hh =>
  have hnum : hdr.2.number = n := by
    have := loop_inv (headerStep parseTime name ⟨project⟩) (·.1.length) (fun s => s.2.number = n)
      (fun _ _ hs h => (headerStep_number parseTime (.inl h)).trans hs)
      (fun _ _ hs h => (headerStep_number parseTime (.inr h)).trans hs) (data, { number := n }) rfl
    rwa [hh] at this
  split
  · exact hp
  split
  next u err' hu =>
  have := loop_inv (updateStep parseTime name ⟨project⟩) (·.data.length)
    (fun u => u.issue.number = n ∧ P u.tc)
    (fun _ _ ⟨hs, hN⟩ h => (updateStep_keeps parseTime hI hC hE (hs ▸ hA) hN h).imp_left
      (·.trans hs))
    (fun _ _ hs h => updateStep_stop parseTime h ▸ hs) ⟨hdr.1, hdr.2, false, tc⟩ ⟨hnum, hp⟩
  rw [hu] at this
  exact this.2

theorem loadTxtarData_keeps : ∀ {tc : TC}, P tc → ∀ files : List (List Char × List Char),
    P (loadTxtarData parseTime tc files).1
  | _, hp, [] => hp
  | tc, hp, file :: files => by
    have hf := loadFile_keeps parseTime hI hC hE hp file
    unfold loadTxtarData
    split
    · next h => rw [h] at hf; exact hf
    · next h => rw [h] at hf; exact loadTxtarData_keeps hf files

end Keeps

theorem loadTxtarData_named {tc : TC} (hn : tc.Named) (files : List (List Char × List Char)) :
    (loadTxtarData parseTime tc files).1.Named :=
  loadTxtarData_keeps parseTime (fun ⟨hp, h0, hle⟩ h => h.addIssue hp h0 hle)
    (fun c ⟨hp, h0, hle⟩ h => h.addIssueComment hp h0 hle c)
    (fun ev ⟨hp, h0, hle⟩ h => h.addIssueEvent hp h0 hle ev) hn files

theorem loadTxtarData_keyed {tc : TC} (hk : tc.Keyed) (files : List (List Char × List Char)) :
    (loadTxtarData parseTime tc files).1.Keyed :=
  loadTxtarData_keeps parseTime (fun _ h => h.addIssue _ _) (fun c _ h => h.addIssueComment _ _ c)
    (fun ev _ h => h.addIssueEvent _ _ ev) hk files

end Loader

/-! ## The edits of what the loader stored -/

/-- **Diverted edits of loaded rows**: whatever the archive, and also when loading fails, while
the comment counter is an `int64` every row `LoadTxtarData` stored from an empty client is edited
under its own project, issue and comment ID: an edit of an issue prints as `EditIssue` and a
comment posted on it as `PostIssueComment` on that issue, and an edit of a comment as
`EditIssueComment` of that comment, never as a post. -/
theorem loaded_edits (parseTime : List Char → Option (List Char))
    (files : List (List Char × List Char))
    (hmax : (loadTxtarData parseTime TC.init files).1.commentID ≤ maxInt64)
    (mi : IssueChanges → String) (mc : IssueCommentChanges → String) :
    ∀ e ∈ (loadTxtarData parseTime TC.init files).1.stored,
      (∀ x, e.typed = .issue x → ∀ ch chc,
        (editIssue x ch).string mi mc =
          "EditIssue(" ++ e.key.project ++ "#" ++ toString e.key.issue ++ ", " ++ mi ch ++ ")" ∧
        (postIssueComment x chc).string mi mc =
          "PostIssueComment(" ++ e.key.project ++ "#" ++ toString e.key.issue ++ ", " ++
            mc chc ++ ")") ∧
      (∀ c, e.typed = .comment c → ∀ ch,
        (editIssueComment c ch).string mi mc =
          "EditIssueComment(" ++ e.key.project ++ "#" ++ toString e.key.issue ++ "." ++
            toString e.key.id ++ ", " ++ mc ch ++ ")") := by
  intro e he
  have hN := loadTxtarData_named parseTime TC.named_init files
  have hr := hN.rows e he
  obtain ⟨hi, hc⟩ := hr.edits
  refine ⟨fun x hx ch chc => ?_, fun c hcm ch => ?_⟩
  · obtain ⟨h1, h2⟩ := hi x hx ch chc
    rw [h1, h2]
    simp only [TestingEdit.string, if_neg hr.issuePos.ne', ↓reduceIte, and_self]
  · rw [hc c hcm ((hN.ids e he c hcm).trans hmax) ch]
    simp only [TestingEdit.string, if_neg (hr.comment c hcm).1.ne']

/-- One issue reported with a body, a comment on it, and an `unassigned` line. -/
def commentArchive : List (List Char × List Char) :=
  [("a/b#1".toList,
    "\nReported by u (t)\n\tbody\nComment by v (t)\n\thi\n* x unassigned y (u)\n".toList)]

example : (loadTxtarData some TC.init commentArchive).2.isNone ∧
    ((loadTxtarData some TC.init commentArchive).1.stored.map fun e => (e.key.api,
      match e.typed with | .event ev => ev.event | .comment _ => "comment" | _ => "")) =
      [("/issues", ""), ("/issues/comments", "comment"), ("/issues/comments", "assigned")] := by
  decide

/-- The archive of one issue, one comment and one event. -/
theorem loaded_edits_comment :
    (loadTxtarData some TC.init commentArchive).1.commentID ≤ maxInt64 ∧
    ∀ e ∈ (loadTxtarData some TC.init commentArchive).1.stored,
      (∀ x, e.typed = .issue x → ∀ ch chc,
        (editIssue x ch).string IssueChanges.body IssueCommentChanges.body =
          "EditIssue(" ++ e.key.project ++ "#" ++ toString e.key.issue ++ ", " ++ ch.body ++ ")" ∧
        (postIssueComment x chc).string IssueChanges.body IssueCommentChanges.body =
          "PostIssueComment(" ++ e.key.project ++ "#" ++ toString e.key.issue ++ ", " ++
            chc.body ++ ")") ∧
      (∀ c, e.typed = .comment c → ∀ ch,
        (editIssueComment c ch).string IssueChanges.body IssueCommentChanges.body =
          "EditIssueComment(" ++ e.key.project ++ "#" ++ toString e.key.issue ++ "." ++
            toString e.key.id ++ ", " ++ ch.body ++ ")") :=
  have hmax : (loadTxtarData some TC.init commentArchive).1.commentID ≤ maxInt64 := by decide
  ⟨hmax, loaded_edits some commentArchive hmax IssueChanges.body IssueCommentChanges.body⟩

/-! ## Every row its own key -/

/-- **No loaded row overwrites another**: whatever the archive, and also when loading fails, the
rows `LoadTxtarData` stores from an empty client have pairwise distinct keys (project, issue, API,
ID), so each is a row of its own in the database, as long as the comment counter stays at most
the event counter's first value `10^11`: comments and issue events share the API
`/issues/comments` and differ only by their counters. -/
theorem loaded_keys_nodup (parseTime : List Char → Option (List Char))
    (files : List (List Char × List Char))
    (hc : (loadTxtarData parseTime TC.init files).1.commentID ≤ TC.init.eventID) :
    ((loadTxtarData parseTime TC.init files).1.stored.map Stored.key).Nodup := by
  have hk := loadTxtarData_keyed parseTime TC.keyed_init files
  obtain ⟨added, hs, hl⟩ := loadTxtarData_grows parseTime TC.init files
  have hL : ∀ e ∈ (loadTxtarData parseTime TC.init files).1.stored, e.Loaded := fun e he =>
    hl e (by rw [hs] at he; exact he)
  rw [List.Nodup, List.pairwise_map]
  refine hk.fresh.imp_of_mem fun {e e'} he he' hlt hkey => ?_
  have hapi := congrArg EventKey.api hkey
  have hid := congrArg EventKey.id hkey
  rcases hL e he with ⟨i, ht, ha⟩ | ⟨c, ht, ha⟩ | ⟨v, ht, ha, -⟩ <;>
  rcases hL e' he' with ⟨i', ht', ha'⟩ | ⟨c', ht', ha'⟩ | ⟨v', ht', ha', -⟩
  all_goals first
    | exact (hlt (by rw [ht, ht']; rfl)).ne hid
    | exact absurd (ha.symm.trans (hapi.trans ha')) (by decide)
    | skip
  · exact (hk.comment_lt_event hc he he' ht ht').ne hid
  · exact (hk.comment_lt_event hc he' he ht' ht).ne' hid

/-- The archive of one issue, one comment and one event. -/
theorem loaded_keys_nodup_comment :
    (loadTxtarData some TC.init commentArchive).1.commentID ≤ TC.init.eventID ∧
    ((loadTxtarData some TC.init commentArchive).1.stored.map Stored.key).Nodup :=
  have hc : (loadTxtarData some TC.init commentArchive).1.commentID ≤ TC.init.eventID := by
    decide
  ⟨hc, loaded_keys_nodup some commentArchive hc⟩

end Gaby.Github.Txtar
