import Gaby.Related.Poster
import Gaby.Httprr.Trace
import Mathlib.Order.WithBot

/-!
# Looking up an issue by its URL

`Client.Events(project, issueMin, issueMax)` scans the `githubdl.Event` rows between the keys
`o(project, issueMin)` and `o(project, issueMax, ordered.Inf)`, and `LookupIssueURL(url)` cuts
`https://github.com/<project>/issues/<n>` apart, scans the issue's events and returns its
`/issues` event. The URL is the one `githubdocs.Sync` gives each issue's document and
`related.Poster` looks up (`Related.issueURL`).

`ordered.Encode` keeps the order of tuples, and a tuple sorts before every tuple it is a prefix
of, `ordered.Inf` after every value. On the keys of the event rows that order is `OKey`'s: the
issue's tuple, then `⊥` below all its events or `⊤` above them.

* `enc_between`, `events_eq`: `Events` yields the events of the project whose issue is in
  `[issueMin, issueMax]` (no upper bound when `issueMax < 0`), in key order.
* `lastIndex_append`, `issues_not_after`: `LastIndex(url, "/issues/")` finds the separator
  `Sprintf` wrote, whatever the project is, since the number holds no `/`.
* `lookupIssueURL_ok`: whatever the URL, a returned event is the first `/issues` event of its
  project and issue, and the URL is that project and a number that parses to the issue.
* `lookupIssueURL_issueURL`: on the URL of any project and `int64` issue, `LookupIssueURL`
  rejects the URL when the number is not positive and otherwise returns the issue's first
  `/issues` event, or reports it missing, provided every row's API is one `decodeEvent` knows.
-/

namespace Gaby.Github

open Timed Txtar Httprr

/-! ## `Events` -/

/-- A key of the `githubdl.Event` rows' key space as `ordered.Encode` writes it, in the order of
its bytes: `(project, issue)` then nothing (`⊥`: a tuple sorts before those it is a prefix of),
an event's `(api, id)`, or `ordered.Inf` (`⊤`: above every value). -/
abbrev OKey := List Char ×ₗ Int ×ₗ WithBot (WithTop (List Char ×ₗ Int))

/-- `o(project, issue)`. -/
def oIssue (project : String) (issue : Int) : OKey := toLex (project.data, toLex (issue, ⊥))

/-- `o(project, issue, ordered.Inf)`. -/
def oIssueInf (project : String) (issue : Int) : OKey :=
  toLex (project.data, toLex (issue, ((⊤ : WithTop (List Char ×ₗ Int)) : WithBot _)))

/-- `o(project, issue, api, id)`, the key of an event's row. -/
def EventKey.enc (k : EventKey) : OKey :=
  toLex (k.project.data, toLex (k.issue, WithBot.some (WithTop.some (toLex (k.api.data, k.id)))))

/-- An entry as `timed.Scan` yields it from its primary row. -/
def scanEntry (db : Store EventKey String) (e : EventKey × (Int × String)) : Entry EventKey String :=
  ⟨e.2.1, db.kind, e.1, e.2.2⟩

/-- `Events(project, issueMin, issueMax)`: `timed.Scan` of the rows from `o(project, issueMin)`
to `o(project, issueMax, ordered.Inf)`, where a negative `issueMax` is `math.MaxInt64`. -/
def events (db : Store EventKey String) (project : String) (issueMin issueMax : Int) :
    List (Entry EventKey String) :=
  let start := oIssue project issueMin
  let issueMax := if issueMax < 0 then maxInt64 else issueMax
  let stop := oIssueInf project issueMax
  (db.prim.scan fun k => start ≤ k.enc ∧ k.enc ≤ stop).map (scanEntry db)

theorem enc_between (k : EventKey) (project : String) (lo hi : Int) :
    oIssue project lo ≤ k.enc ∧ k.enc ≤ oIssueInf project hi ↔
      k.project = project ∧ lo ≤ k.issue ∧ k.issue ≤ hi := by
  simp only [oIssue, oIssueInf, EventKey.enc, Prod.Lex.le_iff, bot_le, WithBot.coe_le_coe,
    le_top, and_true, String.ext_iff]
  constructor
  · rintro ⟨h1 | ⟨h1, h2⟩, h3 | ⟨h3, h4⟩⟩
    · exact absurd (h1.trans h3) (lt_irrefl _)
    · exact absurd h1 (h3 ▸ lt_irrefl _)
    · exact absurd h3 (h1 ▸ lt_irrefl _)
    · exact ⟨h3, by omega, by omega⟩
  · rintro ⟨h1, h2, h3⟩
    exact ⟨.inr ⟨h1.symm, by omega⟩, .inr ⟨h1, by omega⟩⟩

/-- **`Events` is the issue range of the project**: the rows of the project whose issue is at
least `issueMin` and at most `issueMax`, or at most `2^63-1` when `issueMax < 0`, in key
order. -/
theorem events_eq (db : Store EventKey String) (project : String) (issueMin issueMax : Int) :
    events db project issueMin issueMax =
      (db.prim.entries.filter fun e => e.1.project = project ∧ issueMin ≤ e.1.issue ∧
        e.1.issue ≤ if issueMax < 0 then maxInt64 else issueMax).map (scanEntry db) := by
  simp only [events, OMap.scan, enc_between]

/-! ## Finding the separator -/

theorem lastIndex_of_forall {sep : List Char} :
    ∀ {s : List Char}, (∀ j, ¬ sep <+: s.drop j) → lastIndex s sep = -1
  | [], h => by
    have h0 : ¬ sep <+: [] := h 0
    simp [lastIndex, List.isPrefixOf_iff_prefix, h0]
  | c :: t, h => by
    have h0 : ¬ sep <+: c :: t := h 0
    have ht := lastIndex_of_forall (s := t) fun j => h (j + 1)
    simp [lastIndex, ht, List.isPrefixOf_iff_prefix, h0]

theorem lastIndex_append {sep rest : List Char} (hsep : sep ≠ [])
    (h : ∀ j, 0 < j → ¬ sep <+: (sep ++ rest).drop j) :
    ∀ p : List Char, lastIndex (p ++ sep ++ rest) sep = p.length
  | [] => by
    obtain ⟨c, s, rfl⟩ := List.exists_cons_of_ne_nil hsep
    have ht : lastIndex (s ++ rest) (c :: s) = -1 :=
      lastIndex_of_forall fun j => h (j + 1) (Nat.succ_pos j)
    simp [lastIndex, ht, List.isPrefixOf_iff_prefix]
  | c :: p => by
    have hp := lastIndex_append hsep h p
    simp only [List.append_assoc] at hp
    simp [lastIndex, hp]

/-- `/issues/` starts nowhere after its own start in `/issues/` followed by a text without
`/`: a later start would put its closing `/` in the text. -/
theorem issues_not_after {num : List Char} (h : '/' ∉ num) :
    ∀ j, 0 < j → ¬ "/issues/".toList <+: ("/issues/".toList ++ num).drop j := by
  rintro j hj ⟨t, ht⟩
  have hlen : "/issues/".toList.length = 8 := rfl
  have h7 : List.drop 7 ("/issues/".toList ++ t) = '/' :: t := rfl
  rw [ht, List.drop_drop, List.drop_append_eq_append_drop, List.drop_eq_nil_of_le (by omega),
    List.nil_append] at h7
  exact h (List.mem_of_mem_drop (h7 ▸ List.mem_cons_self '/' t))

/-! ## `LookupIssueURL` -/

/-- The errors `LookupIssueURL` returns. -/
inductive LookupErr
  /-- `not a github URL: %q`. -/
  | notGitHubURL (url : String)
  /-- `%s#%d not in database`. -/
  | notInDatabase (project : String) (n : Int)
deriving DecidableEq, Repr

/-- What `LookupIssueURL` does: return an issue's event, return an error, or panic in
`decodeEvent`. -/
inductive Lookup
  | ok (e : Entry EventKey String)
  | error (err : LookupErr)
  | panic
deriving DecidableEq, Repr

/-- The APIs of `decodeEvent`'s switch; at any other it calls `db.Panic`. -/
def knownAPI (api : String) : Bool :=
  api = "/issues" || api = "/issues/comments" || api = "/issues/events"

/-- The loop over `Events(proj, n, n)`: each event is decoded, and the first `/issues` event is
returned. -/
def scanIssue (project : String) (n : Int) : List (Entry EventKey String) → Lookup
  | [] => .error (.notInDatabase project n)
  | e :: es =>
    if !knownAPI e.key.api then .panic
    else if e.key.api = "/issues" then .ok e
    else scanIssue project n es

/-- `LookupIssueURL(url)`, over the database's event rows. -/
def lookupIssueURL (db : Store EventKey String) (url : String) : Lookup :=
  let bad := Lookup.error (.notGitHubURL url)
  match cutPrefix url.toList "https://github.com/".toList with
  | (_, false) => bad
  | (proj, true) =>
    let i := lastIndex proj "/issues/".toList
    if i < 0 then bad else
    let num := proj.drop (i.toNat + "/issues/".length)
    let proj : String := ⟨proj.take i.toNat⟩
    match parseInt num with
    | none => bad
    | some n => if n ≤ 0 then bad else scanIssue proj n (events db proj n n)

theorem scanIssue_eq (project : String) (n : Int) :
    ∀ {es : List (Entry EventKey String)}, (∀ e ∈ es, knownAPI e.key.api) →
      scanIssue project n es =
        match es.find? (fun e => e.key.api = "/issues") with
        | some e => .ok e
        | none => .error (.notInDatabase project n)
  | [], _ => rfl
  | e :: es, h => by
    have hk : knownAPI e.key.api = true := h e (List.mem_cons_self _ _)
    rw [scanIssue, if_neg (by simp [hk])]
    by_cases ha : e.key.api = "/issues"
    · simp [ha]
    · simp [ha, scanIssue_eq project n fun e he => h e (List.mem_cons_of_mem _ he)]

theorem scanIssue_ok {project : String} {n : Int} :
    ∀ {es : List (Entry EventKey String)} {e : Entry EventKey String},
      scanIssue project n es = .ok e → es.find? (fun e => e.key.api = "/issues") = some e
  | [], _, h => nomatch h
  | e' :: es, e, h => by
    rw [scanIssue] at h
    by_cases ha : e'.key.api = "/issues"
    · have he : e' = e := by simpa [ha, knownAPI] using h
      subst he
      simp [ha]
    · have h' : scanIssue project n es = .ok e := by
        by_cases hk : knownAPI e'.key.api <;> simp_all
      simp [ha, scanIssue_ok h']

theorem find?_events (db : Store EventKey String) (project : String) {n : Int} (hn : 0 ≤ n) :
    (events db project n n).find? (fun e => e.key.api = "/issues") =
      (db.prim.entries.find? fun r => r.1.project = project ∧ r.1.issue = n ∧
        r.1.api = "/issues").map (scanEntry db) := by
  simp only [events, OMap.scan, enc_between]
  rw [if_neg (not_lt.2 hn), List.find?_map, List.find?_filter]
  congr 2
  funext r
  simp only [Function.comp_apply, decide_eq_true_eq, decide_eq_decide, scanEntry]
  exact ⟨fun ⟨⟨hp, h1, h2⟩, ha⟩ => ⟨hp, by omega, ha⟩, fun ⟨hp, hi, ha⟩ => ⟨⟨hp, by omega, by omega⟩, ha⟩⟩

theorem cutPrefix_true {s pre r : List Char} (h : cutPrefix s pre = (r, true)) : s = pre ++ r := by
  unfold cutPrefix at h
  split_ifs at h with hp
  · obtain ⟨t, rfl⟩ := List.isPrefixOf_iff_prefix.1 hp
    simp only [List.drop_left, Prod.mk.injEq, and_true] at h
    rw [h]
  · simp at h

theorem lastIndex_starts {sep : List Char} :
    ∀ {s : List Char}, 0 ≤ lastIndex s sep → sep <+: s.drop (lastIndex s sep).toNat
  | [], h => by
    simp only [lastIndex] at h ⊢
    split_ifs at h ⊢ with hp
    · exact List.isPrefixOf_iff_prefix.1 hp
    · omega
  | c :: t, h => by
    simp only [lastIndex] at h ⊢
    by_cases hr : 0 ≤ lastIndex t sep
    · rw [if_pos hr, show (lastIndex t sep + 1).toNat = (lastIndex t sep).toNat + 1 by omega,
        List.drop_succ_cons]
      exact lastIndex_starts hr
    · rw [if_neg hr] at h ⊢
      split_ifs at h ⊢ with hp
      · exact List.isPrefixOf_iff_prefix.1 hp
      · omega

theorem lookupIssueURL_eq (db : Store EventKey String) (url : String) (p num : List Char)
    (hurl : url.toList = "https://github.com/".toList ++ p ++ "/issues/".toList ++ num)
    (hnum : '/' ∉ num) :
    lookupIssueURL db url =
      match parseInt num with
      | none => .error (.notGitHubURL url)
      | some n => if n ≤ 0 then .error (.notGitHubURL url) else scanIssue ⟨p⟩ n (events db ⟨p⟩ n n) := by
  have hcut : cutPrefix url.toList "https://github.com/".toList =
      (p ++ "/issues/".toList ++ num, true) := by
    simp only [cutPrefix, hurl, List.append_assoc, List.isPrefixOf_iff_prefix, List.prefix_append,
      if_true, List.drop_left]
  have hi := @lastIndex_append _ num (by decide) (issues_not_after hnum) p
  simp only [List.append_assoc] at hi
  have hd : (p ++ ("/issues/".toList ++ num)).drop (p.length + "/issues/".length) = num := by
    rw [← List.drop_drop, List.drop_left]
    exact List.drop_left' rfl
  simp only [lookupIssueURL, hcut, List.append_assoc, hi, Int.toNat_ofNat, Nat.cast_nonneg,
    not_lt.2, if_false, List.take_left, hd]

theorem parseInt_toString {n : Int} (hlo : -2 ^ 63 ≤ n) (hhi : n < 2 ^ 63) :
    parseInt (toString n).toList = some n ∧ '/' ∉ (toString n).toList := by
  cases n with
  | ofNat m =>
    have h : (toString (Int.ofNat m)).toList = decimal m := rfl
    rw [h]
    rw [Int.ofNat_eq_coe] at hhi
    exact ⟨parseInt_decimal (by omega), fun hm => absurd ((decimal_spec m).2.1 _ hm) (by decide)⟩
  | negSucc m =>
    have h : (toString (Int.negSucc m)).toList = '-' :: decimal (m + 1) := rfl
    obtain ⟨hne, hd, hv⟩ := decimal_spec (m + 1)
    have hall : (decimal (m + 1)).all Char.isDigit = true := List.all_eq_true.2 hd
    rw [h]
    refine ⟨?_, ?_⟩
    · have hv' : (decimal (m + 1)).foldl (fun n c => 10 * n + (c.toNat - 48)) 0 = m + 1 := hv
      rw [Int.negSucc_eq] at hlo ⊢
      simp [parseInt, hne, hall, hv']
      omega
    · simp only [List.mem_cons, not_or]
      exact ⟨by decide, fun hm => absurd (hd _ hm) (by decide)⟩

/-- **A returned event is its issue's**: whatever the URL, an event `LookupIssueURL` returns is
the first `/issues` row, in key order, of its project and issue, whose number is positive; and
the URL is `https://github.com/`, the project, `/issues/` and a number that `ParseInt` reads as
the issue. -/
theorem lookupIssueURL_ok {db : Store EventKey String} {url : String} {e : Entry EventKey String}
    (h : lookupIssueURL db url = .ok e) :
    0 < e.key.issue ∧ e.key.api = "/issues" ∧
      (db.prim.entries.find? fun r => r.1.project = e.key.project ∧ r.1.issue = e.key.issue ∧
        r.1.api = "/issues").map (scanEntry db) = some e ∧
      ∃ num, url.toList = "https://github.com/".toList ++ e.key.project.toList ++
        "/issues/".toList ++ num ∧ parseInt num = some e.key.issue := by
  unfold lookupIssueURL at h
  split at h
  · cases h
  rename_i proj hc
  have hurl := cutPrefix_true hc
  dsimp only at h
  split_ifs at h with hi
  split at h
  · cases h
  rename_i n hp
  split_ifs at h with hn
  obtain ⟨t, ht⟩ := @lastIndex_starts "/issues/".toList proj (not_lt.1 hi)
  have hf := scanIssue_ok h
  rw [find?_events _ _ (by omega)] at hf
  obtain ⟨r, hr, rfl⟩ := Option.map_eq_some'.1 hf
  have hpr := List.find?_some hr
  simp only [decide_eq_true_eq] at hpr
  obtain ⟨hproj, hiss, hapi⟩ := hpr
  have hnum : proj.drop ((lastIndex proj "/issues/".toList).toNat + "/issues/".length) = t := by
    rw [← List.drop_drop, ← ht]
    exact List.drop_left' rfl
  have hsplit : proj = proj.take (lastIndex proj "/issues/".toList).toNat ++ ("/issues/".toList ++ t) := by
    rw [ht, List.take_append_drop]
  have hk : (scanEntry db r).key = r.1 := rfl
  rw [hk, hproj, hiss]
  refine ⟨by omega, hapi, by rw [hr]; rfl, t, ?_, by rwa [← hnum]⟩
  rw [hurl]
  conv_lhs => rw [hsplit]
  simp only [List.append_assoc]
  rfl

/-- A database with issue 1 of `golang/go` and a comment on it. -/
def issueDB : Store EventKey String :=
  ⟨"githubdl.Event", (OMap.empty.set ⟨"golang/go", 1, "/issues", 10⟩ (5, "null")).set
    ⟨"golang/go", 1, "/issues/comments", 11⟩ (6, "null"), .empty⟩

/-- The URL of issue 1 finds its `/issues` row. -/
theorem lookupIssueURL_ok_golang :
    let e : Entry EventKey String := ⟨5, "githubdl.Event", ⟨"golang/go", 1, "/issues", 10⟩, "null"⟩
    lookupIssueURL issueDB "https://github.com/golang/go/issues/1" = .ok e ∧
      0 < e.key.issue ∧ e.key.api = "/issues" ∧
      (issueDB.prim.entries.find? fun r => r.1.project = e.key.project ∧
        r.1.issue = e.key.issue ∧ r.1.api = "/issues").map (scanEntry issueDB) = some e ∧
      ∃ num, "https://github.com/golang/go/issues/1".toList = "https://github.com/".toList ++
        e.key.project.toList ++ "/issues/".toList ++ num ∧ parseInt num = some e.key.issue := by
  intro e
  have h : lookupIssueURL issueDB "https://github.com/golang/go/issues/1" = .ok e := by decide
  exact ⟨h, lookupIssueURL_ok h⟩

/-- **`LookupIssueURL` reads back the issue URLs**: on `https://github.com/<project>/issues/<n>`
for any project and any `int64` issue `n`, as `githubdocs.Sync` names an issue's document and
`related.Poster` looks it up, `LookupIssueURL` reports the URL as no GitHub URL when `n ≤ 0`,
and otherwise returns the first `/issues` row of the project's issue `n`, in key order, or
reports the issue missing; provided `decodeEvent` knows every row's API. -/
theorem lookupIssueURL_issueURL (db : Store EventKey String) (project : String) {n : Int}
    (hlo : -2 ^ 63 ≤ n) (hhi : n < 2 ^ 63) (hapi : ∀ r ∈ db.prim.entries, knownAPI r.1.api) :
    lookupIssueURL db (Related.issueURL project n) =
      if n ≤ 0 then .error (.notGitHubURL (Related.issueURL project n)) else
      match (db.prim.entries.find? fun r => r.1.project = project ∧ r.1.issue = n ∧
        r.1.api = "/issues").map (scanEntry db) with
      | some e => .ok e
      | none => .error (.notInDatabase project n) := by
  obtain ⟨hp, hs⟩ := parseInt_toString hlo hhi
  rw [lookupIssueURL_eq db (Related.issueURL project n) project.toList (toString n).toList rfl hs, hp]
  dsimp only
  split_ifs with hn
  · rfl
  · have hknown : ∀ e ∈ events db ⟨project.toList⟩ n n, knownAPI e.key.api := by
      intro e he
      simp only [events, OMap.scan, enc_between] at he
      obtain ⟨r, hr, rfl⟩ := List.mem_map.1 he
      exact hapi r (List.mem_filter.1 hr).1
    rw [scanIssue_eq _ _ hknown, find?_events _ _ (by omega)]
    rfl

/-- The URL of issue 1 of `golang/go`, over a database whose rows have known APIs. -/
theorem lookupIssueURL_issueURL_golang :
    -2 ^ 63 ≤ (1 : Int) ∧ (1 : Int) < 2 ^ 63 ∧ (∀ r ∈ issueDB.prim.entries, knownAPI r.1.api) ∧
      lookupIssueURL issueDB (Related.issueURL "golang/go" 1) =
        if (1 : Int) ≤ 0 then .error (.notGitHubURL (Related.issueURL "golang/go" 1)) else
        match (issueDB.prim.entries.find? fun r => r.1.project = "golang/go" ∧ r.1.issue = 1 ∧
          r.1.api = "/issues").map (scanEntry issueDB) with
        | some e => .ok e
        | none => .error (.notInDatabase "golang/go" 1) :=
  ⟨by decide, by decide, by decide,
    lookupIssueURL_issueURL issueDB "golang/go" (by decide) (by decide) (by decide)⟩

end Gaby.Github
