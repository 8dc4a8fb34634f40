import Gaby.Docs.Corpus
import Mathlib.Order.MinMax

/-!
# Embedding the corpus

`embeddocs.Sync` ranges over the `"embeddocs"` watcher's `Recent()` documents. It appends each
to `batch` and `ids`, and calls `flush` whenever the batch reaches `batchSize`; a failed `flush`
ends the loop. If the batch is then not empty, `Sync` starts a second iteration only to call
`flush` once more (`syncVars`). `flush` sends the batch to the embedder and writes the vectors
returned, unless there are more of them than documents. Unless the embedder also returned an
error or too few vectors, it moves the cursor to the batch's last DBTime and clears the batch
(`flush`). The embedder may answer differently on every call (`Embedder`). The model logs each
call with the IDs it was for (`EmbedCall`).

A run interleaves `Corpus.Add` and `Sync` (`EmbedStep`). In every reachable state, every
document at or below the cursor has in the vector DB a vector that the embedder returned for its
current title and text (`sync_never_skips`). The reason is that `Sync`'s variables keep
`SyncInv`, and the entries its iteration has still to yield keep `RestInv`. After a failed
`EmbedDocs` call in the main loop, though, `Sync` sends the same batch again from its second
iteration. If that call succeeds, the cursor moves past the batch (`sync_retries_failed_batch`).
-/

namespace Gaby.Embeddocs

open Gaby.Timed Gaby.Docs

/-- `const batchSize = 100`. -/
def batchSize : Nat := 100

/-- `embed.EmbedDocs`: on its `n`th call, the vectors and the error the embedder returns for a
list of documents. -/
abbrev Embedder (F : Type) := Nat → List DocText → List F × Option String

/-- One `EmbedDocs` call: the batch with its IDs, and what the embedder returned. -/
structure EmbedCall (K F : Type) where
  batch : List (K × DocText)
  reply : List F × Option String

/-- `Sync`'s variables (`batch` with `ids`, and `batchLast`), the vector DB, the watcher's row,
and the log of `EmbedDocs` calls. -/
structure SyncVars (K F : Type) [LinearOrder K] where
  batch : List (K × DocText)
  batchLast : Int
  vdb : OMap K F
  cursor : Option Int
  calls : List (EmbedCall K F)

variable {K F : Type} [LinearOrder K]

/-- `for i, v := range vecs { vdb.Set(ids[i], v) }`, for `vecs` no longer than `ids`. -/
def writeVecs : OMap K F → List K → List F → OMap K F
  | vdb, id :: ids, v :: vecs => writeVecs (vdb.set id v) ids vecs
  | vdb, _, _ => vdb

/-- `flush()`: whether it succeeded, and the variables after it. -/
def flush (embed : Embedder F) (v : SyncVars K F) : Bool × SyncVars K F :=
  let r := embed v.calls.length (v.batch.map Prod.snd)
  let v := { v with calls := v.calls ++ [⟨v.batch, r⟩] }
  if v.batch.length < r.1.length then (false, v) else
  let v := { v with vdb := writeVecs v.vdb (v.batch.map Prod.fst) r.1 }
  if r.2.isSome then (false, v) else
  if r.1.length ≠ v.batch.length then (false, v) else
  (true, { v with cursor := markOld v.cursor v.batchLast, batch := [] })

/-- What the loop body appends for a document `d`: `d.ID` to `ids`, its title and text to
`batch`. -/
def idDoc (d : Entry K DocText) : K × DocText := (d.key, d.val)

/-- The main loop over `w.Recent()`, from the documents it has still to yield. -/
def mainLoop (embed : Embedder F) : List (Entry K DocText) → SyncVars K F → SyncVars K F
  | [], v => v
  | d :: ds, v =>
    let v := { v with batch := v.batch ++ [idDoc d], batchLast := d.modTime }
    if batchSize ≤ v.batch.length then
      let r := flush embed v
      if r.1 then mainLoop embed ds r.2 else r.2
    else mainLoop embed ds v

/-- `Sync` on its variables: the main loop over an iteration from the cursor; then, if the batch
is not empty, a second iteration that calls `flush` at its first document and stops. -/
def syncVars (embed : Embedder F) (docs : Store K DocText) (v : SyncVars K F) : SyncVars K F :=
  let v := mainLoop embed (recent docs v.cursor).1 v
  if 0 < v.batch.length then
    match (recent docs v.cursor).1 with
    | [] => v
    | _ :: _ => (flush embed v).2
  else v

/-- The corpus, `now()`'s last value, the watcher's row, the vector DB, and the log of
`EmbedDocs` calls. -/
structure EmbedSys (K F : Type) [LinearOrder K] where
  docs : Store K DocText
  lastTime : Int
  cursor : Option Int
  vdb : OMap K F
  calls : List (EmbedCall K F)

namespace EmbedSys

/-- `Corpus.Add(id, title, text)`; `t` is `now()`, read only when the document changes. -/
def add (s : EmbedSys K F) (id : K) (title text : String) (t : Int) : EmbedSys K F :=
  { s with
    docs := Docs.add s.docs id title text t
    lastTime := if unchanged s.docs id title text then s.lastTime else t }

/-- `embeddocs.Sync(lg, vdb, embed, dc)`. -/
def sync (embed : Embedder F) (s : EmbedSys K F) : EmbedSys K F :=
  let v := syncVars embed s.docs ⟨[], 0, s.vdb, s.cursor, s.calls⟩
  { s with vdb := v.vdb, cursor := v.cursor, calls := v.calls }

end EmbedSys

/-- One call of a run. `now()` returns a DBTime above its last value, within `int64`. -/
inductive EmbedStep : EmbedSys K F → EmbedSys K F → Prop
  | add (s : EmbedSys K F) (id : K) (title text : String) (t : Int) :
      s.lastTime < t → t ≤ maxInt64 → EmbedStep s (s.add id title text t)
  | sync (s : EmbedSys K F) (embed : Embedder F) : EmbedStep s (s.sync embed)

/-- The states a run reaches from an empty corpus, with any vector DB. -/
inductive EmbedReachable : EmbedSys K F → Prop
  | init (vdb : OMap K F) : EmbedReachable ⟨emptyCorpus, 0, none, vdb, []⟩
  | step {s s' : EmbedSys K F} : EmbedReachable s → EmbedStep s s' → EmbedReachable s'

/-! ## Writing vectors -/

@[simp] theorem writeVecs_cons (vdb : OMap K F) (id : K) (ids : List K) (v : F) (vecs : List F) :
    writeVecs vdb (id :: ids) (v :: vecs) = writeVecs (vdb.set id v) ids vecs := rfl

theorem get_writeVecs (y : K) : ∀ (vdb : OMap K F) (ids : List K) (vecs : List F),
    (writeVecs vdb ids vecs).get y = vdb.get y ∨
      ∃ (i : Nat) (x : F), ids[i]? = some y ∧ vecs[i]? = some x ∧ (writeVecs vdb ids vecs).get y = some x
  | vdb, id :: ids, v :: vecs => by
    rcases get_writeVecs y (vdb.set id v) ids vecs with h | ⟨i, x, h₁, h₂, h₃⟩
    · rw [writeVecs_cons, h, OMap.get_set]
      split_ifs with hy
      · exact .inr ⟨0, v, by simp [hy], List.getElem?_cons_zero, rfl⟩
      · exact .inl rfl
    · exact .inr ⟨i + 1, x, by simpa using h₁, by simpa using h₂, h₃⟩
  | _, [], _ => .inl rfl
  | _, _ :: _, [] => .inl rfl

theorem get_writeVecs_of_mem {y : K} : ∀ (vdb : OMap K F) {ids : List K} (vecs : List F),
    ids.length ≤ vecs.length → y ∈ ids →
      ∃ (i : Nat) (x : F), ids[i]? = some y ∧ vecs[i]? = some x ∧ (writeVecs vdb ids vecs).get y = some x
  | vdb, id :: ids, v :: vecs, hl, hy => by
    by_cases hmem : y ∈ ids
    · obtain ⟨i, x, h₁, h₂, h₃⟩ := get_writeVecs_of_mem (vdb.set id v) vecs
        (Nat.le_of_succ_le_succ hl) hmem
      exact ⟨i + 1, x, by simpa using h₁, by simpa using h₂, h₃⟩
    · obtain rfl : y = id := by simpa [hmem] using hy
      rcases get_writeVecs y (vdb.set y v) ids vecs with h | ⟨i, x, h₁, h₂, h₃⟩
      · exact ⟨0, v, List.getElem?_cons_zero, List.getElem?_cons_zero,
          by rw [writeVecs_cons, h, OMap.get_set, if_pos rfl]⟩
      · exact ⟨i + 1, x, by simpa using h₁, by simpa using h₂, h₃⟩
  | _, _ :: _, [], hl, _ => absurd hl (by simp)

/-! ## `flush` -/

/-- `flush`'s spec: it logs the call and keeps `batchLast`; it writes the vectors unless there
are more than documents; it succeeds exactly when the embedder returned no error and one vector
per document, and then moves the cursor to `batchLast` and clears the batch. -/
theorem flush_spec (embed : Embedder F) (v : SyncVars K F) {r : List F × Option String}
    (hr : embed v.calls.length (v.batch.map Prod.snd) = r) :
    (flush embed v).2.calls = v.calls ++ [⟨v.batch, r⟩] ∧
    (flush embed v).2.batchLast = v.batchLast ∧
    (flush embed v).2.vdb =
      (if v.batch.length < r.1.length then v.vdb else writeVecs v.vdb (v.batch.map Prod.fst) r.1) ∧
    ((flush embed v).1 = true ↔ r.2 = none ∧ r.1.length = v.batch.length) ∧
    ((flush embed v).2.cursor, (flush embed v).2.batch) =
      if (flush embed v).1 then (markOld v.cursor v.batchLast, []) else (v.cursor, v.batch) := by
  unfold flush
  simp only [hr]
  by_cases h₁ : v.batch.length < r.1.length
  · simp only [if_pos h₁, Bool.false_eq_true, if_false, false_iff, not_and, true_and, and_true]
    exact fun _ => by omega
  · simp only [if_neg h₁, true_and]
    rcases r with ⟨vecs, _ | err⟩ <;>
      simp only [Option.isSome_none, Option.isSome_some, Bool.false_eq_true, if_false, if_true]
    · by_cases h₃ : vecs.length = v.batch.length <;> simp [h₃]
    · simp

/-! ## The loop's invariants -/

/-- `id`'s vector in the vector DB is one the embedder returned, in a logged call, at the
position of the document `(id, d)`. -/
def Embedded (vdb : OMap K F) (calls : List (EmbedCall K F)) (id : K) (d : DocText) : Prop :=
  ∃ x, vdb.get id = some x ∧ ∃ c ∈ calls, ∃ i : Nat, c.batch[i]? = some (id, d) ∧ c.reply.1[i]? = some x

section Flush

variable {docs : Store K DocText} (embed : Embedder F) {v : SyncVars K F}

theorem embedded_of_written {vdb : OMap K F} {r : List F × Option String}
    (hcur : ∀ p ∈ v.batch, ∃ t, docs.prim.get p.1 = some (t, p.2)) {id : K} {t : Int}
    {d : DocText} (hg : docs.prim.get id = some (t, d)) {i : Nat} {x : F}
    (hi : (v.batch.map Prod.fst)[i]? = some id) (hx : r.1[i]? = some x) (hv : vdb.get id = some x) :
    Embedded vdb (v.calls ++ [⟨v.batch, r⟩]) id d := by
  rw [List.getElem?_map, Option.map_eq_some'] at hi
  obtain ⟨⟨id', d'⟩, hp, rfl⟩ := hi
  obtain ⟨t', hg'⟩ := hcur _ (List.mem_iff_getElem?.2 ⟨i, hp⟩)
  obtain ⟨-, rfl⟩ : t = t' ∧ d = d' := by simpa [hg] using hg'
  exact ⟨x, hv, _, List.mem_append_right _ (List.mem_singleton_self _), i, hp, hx⟩

theorem embedded_flush (hcur : ∀ p ∈ v.batch, ∃ t, docs.prim.get p.1 = some (t, p.2)) {id : K}
    {t : Int} {d : DocText} (hg : docs.prim.get id = some (t, d))
    (h : Embedded v.vdb v.calls id d) : Embedded (flush embed v).2.vdb (flush embed v).2.calls id d := by
  obtain ⟨hcalls, -, hvdb, -⟩ := flush_spec embed v rfl
  rw [hcalls]
  have hkeep : (flush embed v).2.vdb.get id = v.vdb.get id →
      Embedded (flush embed v).2.vdb
        (v.calls ++ [⟨v.batch, embed v.calls.length (v.batch.map Prod.snd)⟩]) id d := fun he => by
    obtain ⟨x, hx, c, hc, hi⟩ := h
    exact ⟨x, he.trans hx, c, List.mem_append_left _ hc, hi⟩
  rw [hvdb] at hkeep ⊢
  split_ifs at hkeep ⊢
  · exact hkeep rfl
  · rcases get_writeVecs id v.vdb (v.batch.map Prod.fst) _ with he | ⟨i, x, hi, hx, hv⟩
    · exact hkeep he
    · exact embedded_of_written hcur hg hi hx hv

theorem embedded_flush_ok (hcur : ∀ p ∈ v.batch, ∃ t, docs.prim.get p.1 = some (t, p.2))
    (hok : (flush embed v).1 = true) {id : K} {d : DocText} (hm : (id, d) ∈ v.batch) :
    Embedded (flush embed v).2.vdb (flush embed v).2.calls id d := by
  obtain ⟨hcalls, -, hvdb, hok', -⟩ := flush_spec embed v rfl
  obtain ⟨-, hlen⟩ := hok'.1 hok
  obtain ⟨t, hg⟩ := hcur _ hm
  rw [hcalls, hvdb, if_neg (by omega)]
  obtain ⟨i, x, hi, hx, hv⟩ := get_writeVecs_of_mem v.vdb
    (embed v.calls.length (v.batch.map Prod.snd)).1 (by simp [hlen])
    (List.mem_map_of_mem Prod.fst hm)
  exact embedded_of_written hcur hg hi hx hv

end Flush

variable {docs : Store K DocText} {last : Int}

/-- What `Sync`'s variables keep, for documents whose DBTimes are at most `last`: every document
at or below the cursor has its vector; the batch holds current documents, among them every
document above the cursor and at or below `batchLast`; the cursor and `batchLast` stay within
`[0, last]`. -/
structure SyncInv (docs : Store K DocText) (last : Int) (v : SyncVars K F) : Prop where
  embedded : ∀ id t d, docs.prim.get id = some (t, d) → t ≤ cutoff v.cursor →
    Embedded v.vdb v.calls id d
  current : ∀ p ∈ v.batch, ∃ t, docs.prim.get p.1 = some (t, p.2)
  between : ∀ id t d, docs.prim.get id = some (t, d) → cutoff v.cursor < t → t ≤ v.batchLast →
    (id, d) ∈ v.batch
  cursorNonneg : 0 ≤ cutoff v.cursor
  cursorLe : cutoff v.cursor ≤ last
  batchLastLe : v.batchLast ≤ last

/-- The documents the iteration has still to yield: current, above `batchLast`, in increasing
DBTime, and among them every document above both the cursor and `batchLast`. -/
structure RestInv (docs : Store K DocText) (v : SyncVars K F) (rest : List (Entry K DocText)) :
    Prop where
  current : ∀ e ∈ rest, docs.prim.get e.key = some (e.modTime, e.val)
  above : ∀ e ∈ rest, v.batchLast < e.modTime
  sorted : rest.Pairwise fun e e' => e.modTime < e'.modTime
  complete : ∀ id t d, docs.prim.get id = some (t, d) → cutoff v.cursor < t → v.batchLast < t →
    ∃ e ∈ rest, e.key = id ∧ e.modTime = t

theorem SyncInv.flush (hs : SyncInv docs last v) (embed : Embedder F) :
    SyncInv docs last (Embeddocs.flush embed v).2 := by
  have hkeep := fun {id t d} (hg : docs.prim.get id = some (t, d)) h =>
    embedded_flush embed hs.current hg h
  have hok := embedded_flush_ok embed hs.current
  obtain ⟨-, hbl, -, -, hcb⟩ := flush_spec embed v rfl
  rcases hf : Embeddocs.flush embed v with ⟨_ | _, ⟨batch, batchLast, vdb, cursor, calls⟩⟩ <;>
    simp only [hf, if_true, Bool.false_eq_true, if_false, Prod.mk.injEq, forall_const]
      at hkeep hok hbl hcb <;>
    obtain ⟨rfl, rfl⟩ := hcb <;> subst hbl
  · exact ⟨fun id t d hg ht => hkeep hg (hs.embedded id t d hg ht), hs.current, hs.between,
      hs.cursorNonneg, hs.cursorLe, hs.batchLastLe⟩
  · refine ⟨fun id t d hg ht => ?_, by simp, fun id t d _ h₁ h₂ => ?_, ?_, ?_, hs.batchLastLe⟩ <;>
      simp only [cutoff_markOld] at *
    · rcases le_or_lt t (cutoff v.cursor) with h | h
      · exact hkeep hg (hs.embedded id t d hg h)
      · exact hok (hs.between id t d hg h ((le_max_iff.1 ht).resolve_left (not_le.2 h)))
    · exact absurd (h₂.trans (le_max_right _ _)) (not_le.2 h₁)
    · exact hs.cursorNonneg.trans (le_max_left _ _)
    · exact max_le hs.cursorLe hs.batchLastLe

theorem RestInv.flush {rest : List (Entry K DocText)} (hr : RestInv docs v rest)
    (embed : Embedder F) : RestInv docs (Embeddocs.flush embed v).2 rest := by
  obtain ⟨-, hbl, -, -, hcb⟩ := flush_spec embed v rfl
  have hle : cutoff v.cursor ≤ cutoff (Embeddocs.flush embed v).2.cursor := by
    have hc := congrArg Prod.fst hcb
    dsimp only at hc
    rw [hc]
    split_ifs <;> simp
  refine ⟨hr.current, hbl ▸ hr.above, hr.sorted, fun id t d hg h₁ h₂ => ?_⟩
  exact hr.complete id t d hg (hle.trans_lt h₁) (hbl ▸ h₂)

/-- The loop body's append keeps both invariants: the document appended is the only one between
the old `batchLast` and its DBTime. -/
theorem SyncInv.append (hc : CorpusInv docs last) (hs : SyncInv docs last v) {e : Entry K DocText}
    {rest : List (Entry K DocText)} (hr : RestInv docs v (e :: rest)) :
    SyncInv docs last { v with batch := v.batch ++ [idDoc e], batchLast := e.modTime } ∧
      RestInv docs { v with batch := v.batch ++ [idDoc e], batchLast := e.modTime } rest := by
  have he := hr.current e (.head _)
  have hsort : ∀ e' ∈ rest, e.modTime < e'.modTime := fun _ => List.rel_of_pairwise_cons hr.sorted
  refine ⟨⟨hs.embedded, fun p hp => ?_, fun id t d hg h₁ h₂ => ?_, hs.cursorNonneg, hs.cursorLe,
    (hc.pos _ _ _ he).2⟩, ⟨fun e' he' => hr.current e' (.tail _ he'), fun e' he' => hsort e' he',
    hr.sorted.of_cons, fun id t d hg h₁ h₂ => ?_⟩⟩
  · rcases List.mem_append.1 hp with hp | hp
    · exact hs.current p hp
    · rw [List.mem_singleton.1 hp]; exact ⟨e.modTime, he⟩
  · rcases le_or_lt t v.batchLast with h | h
    · exact List.mem_append_left _ (hs.between id t d hg h₁ h)
    obtain ⟨e', he', rfl, rfl⟩ := hr.complete id _ d hg h₁ h
    rcases List.mem_cons.1 he' with rfl | he'
    · obtain rfl : e'.val = d := by simpa [he] using hg
      exact List.mem_append_right _ (List.mem_singleton_self _)
    · exact absurd (hsort _ he') (not_lt.2 h₂)
  · obtain ⟨e', he', rfl, rfl⟩ := hr.complete id t d hg h₁ ((hr.above e (.head _)).trans h₂)
    rcases List.mem_cons.1 he' with rfl | he'
    · exact absurd h₂ (lt_irrefl _)
    · exact ⟨e', he', rfl, rfl⟩

theorem mainLoop_syncInv (hc : CorpusInv docs last) (embed : Embedder F) :
    ∀ (rest : List (Entry K DocText)) (v : SyncVars K F), SyncInv docs last v →
      RestInv docs v rest → SyncInv docs last (mainLoop embed rest v)
  | [], _, hs, _ => hs
  | e :: rest, v, hs, hr => by
    obtain ⟨hs₁, hr₁⟩ := hs.append hc hr
    simp only [mainLoop]
    split_ifs
    · exact mainLoop_syncInv hc embed rest _ (hs₁.flush embed) (hr₁.flush embed)
    · exact hs₁.flush embed
    · exact mainLoop_syncInv hc embed rest _ hs₁ hr₁

theorem syncVars_syncInv (hc : CorpusInv docs last) (embed : Embedder F) (hs : SyncInv docs last v)
    (hr : RestInv docs v (recent docs v.cursor).1) : SyncInv docs last (syncVars embed docs v) := by
  have hm := mainLoop_syncInv hc embed _ v hs hr
  unfold syncVars
  dsimp only
  split_ifs
  · split
    · exact hm
    · exact hm.flush embed
  · exact hm

/-! ## Runs -/

/-- The invariant of a run: the corpus', the cursor within `[0, lastTime]`, and every document at
or below the cursor with its vector. -/
structure EmbedInv (s : EmbedSys K F) : Prop where
  corpus : CorpusInv s.docs s.lastTime
  lastLe : s.lastTime ≤ maxInt64
  cursorNonneg : 0 ≤ cutoff s.cursor
  cursorLe : cutoff s.cursor ≤ s.lastTime
  embedded : ∀ id t d, s.docs.prim.get id = some (t, d) → t ≤ cutoff s.cursor →
    Embedded s.vdb s.calls id d

theorem embedInv_init (vdb : OMap K F) :
    EmbedInv (⟨emptyCorpus, 0, none, vdb, []⟩ : EmbedSys K F) :=
  ⟨corpusInv_empty, by unfold maxInt64; dsimp only; omega, le_rfl, le_rfl, fun _ _ _ h => by
    simp [emptyCorpus] at h⟩

theorem EmbedInv.add {s : EmbedSys K F} (h : EmbedInv s) {t : Int} (ht : s.lastTime < t)
    (hmax : t ≤ maxInt64) (id : K) (title text : String) : EmbedInv (s.add id title text t) := by
  unfold EmbedSys.add Docs.add
  split_ifs
  · exact h
  refine ⟨h.corpus.set ht id _, hmax, h.cursorNonneg, h.cursorLe.trans ht.le,
    fun k t' d hg hle => ?_⟩
  rw [prim_set_get] at hg
  split_ifs at hg
  · cases hg; exact absurd (hle.trans h.cursorLe) (not_le.2 ht)
  · exact h.embedded k t' d hg hle

theorem EmbedInv.start {s : EmbedSys K F} (h : EmbedInv s) :
    SyncInv s.docs s.lastTime (⟨[], 0, s.vdb, s.cursor, s.calls⟩ : SyncVars K F) ∧
      RestInv s.docs (⟨[], 0, s.vdb, s.cursor, s.calls⟩ : SyncVars K F)
        (recent s.docs s.cursor).1 := by
  have hpos := h.corpus.pos
  refine ⟨⟨h.embedded, (fun _ hp => nomatch hp), fun id t d hg h₁ h₂ => ?_, h.cursorNonneg,
    h.cursorLe, h.corpus.lastNonneg⟩, ⟨fun e he => recent_current h.corpus _ he,
    fun e he => (hpos _ _ _ (recent_current h.corpus _ he)).1, recent_sorted h.corpus _,
    fun id t d hg h₁ _ => recent_complete h.corpus h.lastLe h.cursorNonneg hg h₁⟩⟩
  exact absurd h₂ (not_le.2 (hpos id t d hg).1)

theorem EmbedInv.sync {s : EmbedSys K F} (h : EmbedInv s) (embed : Embedder F) :
    EmbedInv (s.sync embed) := by
  obtain ⟨hs, hr⟩ := h.start
  have hv := syncVars_syncInv h.corpus embed hs hr
  unfold EmbedSys.sync
  exact ⟨h.corpus, h.lastLe, hv.cursorNonneg, hv.cursorLe, hv.embedded⟩

theorem embedInv_reachable {s : EmbedSys K F} (h : EmbedReachable s) : EmbedInv s := by
  induction h with
  | init vdb => exact embedInv_init vdb
  | step _ hs ih =>
    cases hs with
    | add id title text t ht hmax => exact ih.add ht hmax id title text
    | sync embed => exact ih.sync embed

/-- In every state of every run of `Add` and `Sync` calls, with any embedder behaviour, every
document whose DBTime is at or below the watcher's cursor has, in the vector DB, a vector the
embedder returned for its current title and text. -/
theorem sync_never_skips {s : EmbedSys K F} (h : EmbedReachable s) (id : K) (e : Entry K DocText)
    (he : get s.docs id = some e) (hle : e.modTime ≤ cutoff s.cursor) :
    Embedded s.vdb s.calls id e.val := by
  obtain ⟨⟨t, d⟩, hg, rfl⟩ := Option.map_eq_some'.1 he
  exact (embedInv_reachable h).embedded id t d hg hle

/-- Two documents added at DBTimes `1` and `2`, then a `Sync` whose embedder returns each text's
length. -/
def twoDocsRun : EmbedSys Nat Nat :=
  ((((⟨emptyCorpus, 0, none, .empty, []⟩ : EmbedSys Nat Nat).add 1 "a" "xy" 1).add 2 "b" "xyz"
    2).sync fun _ ds => (ds.map fun d => d.text.length, none))

theorem twoDocsRun_embedded : EmbedReachable twoDocsRun ∧ cutoff twoDocsRun.cursor = 2 ∧
    twoDocsRun.vdb.get 2 = some 3 ∧
    ∀ (id : Nat) (e : Entry Nat DocText), get twoDocsRun.docs id = some e →
      e.modTime ≤ cutoff twoDocsRun.cursor → Embedded twoDocsRun.vdb twoDocsRun.calls id e.val := by
  have h : EmbedReachable twoDocsRun :=
    EmbedReachable.init .empty |>.step (.add _ 1 "a" "xy" 1 (by decide) (by decide))
      |>.step (.add _ 2 "b" "xyz" 2 (by decide) (by decide)) |>.step (.sync _ _)
  exact ⟨h, by decide, by decide, sync_never_skips h⟩

/-! ## A failed batch is sent again -/

theorem mainLoop_fail (embed : Embedder F) (e : Entry K DocText) (rest : List (Entry K DocText)) :
    ∀ (pre : List (Entry K DocText)) (v : SyncVars K F), v.batch.length + pre.length + 1 = batchSize →
      (flush embed { v with batch := v.batch ++ (pre ++ [e]).map idDoc, batchLast := e.modTime }).1 =
        false →
      mainLoop embed (pre ++ e :: rest) v =
        (flush embed { v with batch := v.batch ++ (pre ++ [e]).map idDoc, batchLast := e.modTime }).2
  | [], v, hl, hf => by
    simp only [List.length_nil, Nat.add_zero] at hl
    simp only [List.nil_append, List.map_cons, List.map_nil] at hf ⊢
    simp [mainLoop, hl, hf]
  | e' :: pre, v, hl, hf => by
    simp only [List.length_cons] at hl
    have ih := mainLoop_fail embed e rest pre
      { v with batch := v.batch ++ [idDoc e'], batchLast := e'.modTime } (by simp; omega)
      (by simpa using hf)
    rw [List.cons_append, mainLoop, if_neg (by simp; omega)]
    simpa using ih

theorem syncVars_fail (embed : Embedder F) (docs : Store K DocText) (v : SyncVars K F)
    (hv : v.batch = []) {pre rest : List (Entry K DocText)} {e : Entry K DocText}
    (hr : (recent docs v.cursor).1 = pre ++ e :: rest) (hlen : pre.length + 1 = batchSize)
    (hf : (flush embed { v with batch := (pre ++ [e]).map idDoc, batchLast := e.modTime }).1 =
      false) :
    syncVars embed docs v = (flush embed
      (flush embed { v with batch := (pre ++ [e]).map idDoc, batchLast := e.modTime }).2).2 := by
  have hw : { v with batch := v.batch ++ (pre ++ [e]).map idDoc, batchLast := e.modTime } =
      { v with batch := (pre ++ [e]).map idDoc, batchLast := e.modTime } := by
    rw [hv, List.nil_append]
  obtain ⟨-, -, -, -, hcb⟩ :=
    flush_spec embed { v with batch := (pre ++ [e]).map idDoc, batchLast := e.modTime } rfl
  rw [hf, if_neg Bool.false_ne_true] at hcb
  obtain ⟨hcur, hbatch⟩ := Prod.mk.inj hcb
  have hmain := mainLoop_fail embed e rest pre v (by simp [hv]; omega) (hw ▸ hf)
  unfold syncVars
  dsimp only
  rw [hr, hmain, hw, if_pos (by rw [hbatch]; simp), hcur]
  simp only [hr]
  cases pre <;> rfl

/-- Once the first `EmbedDocs` call of the main loop fails, `Sync` calls `EmbedDocs` again, on
the same batch, from its second iteration; and when that call succeeds, the cursor moves past
every document of the batch. -/
theorem sync_retries_failed_batch (s : EmbedSys K F) (embed : Embedder F)
    (first : List (Entry K DocText)) (hfirst : first = (recent s.docs s.cursor).1.take batchSize)
    (hlen : first.length = batchSize)
    (hfail : (embed s.calls.length (first.map Entry.val)).2 ≠ none ∨
      (embed s.calls.length (first.map Entry.val)).1.length ≠ batchSize) :
    (s.sync embed).calls = s.calls ++
      [⟨first.map idDoc, embed s.calls.length (first.map Entry.val)⟩,
        ⟨first.map idDoc, embed (s.calls.length + 1) (first.map Entry.val)⟩] ∧
    ((embed (s.calls.length + 1) (first.map Entry.val)).2 = none →
      (embed (s.calls.length + 1) (first.map Entry.val)).1.length = batchSize →
      ∀ e ∈ first, e.modTime ≤ cutoff (s.sync embed).cursor) := by
  have hds : (recent s.docs s.cursor).1 = first ++ (recent s.docs s.cursor).1.drop batchSize := by
    rw [hfirst, List.take_append_drop]
  have hsorted : (recent s.docs s.cursor).1.Pairwise (fun e e' => e.modTime ≤ e'.modTime) :=
    scanAfter_modTime_le _ _ _
  obtain ⟨pre, e, rfl⟩ : ∃ pre e, first = pre ++ [e] := by
    obtain ⟨pre, e, h⟩ := (List.eq_nil_or_concat first).resolve_left
      (by rintro rfl; simp [batchSize] at hlen)
    exact ⟨pre, e, by simpa using h⟩
  simp only [List.length_append, List.length_singleton] at hlen
  obtain ⟨w, hw⟩ : ∃ w : SyncVars K F,
      w = ⟨(pre ++ [e]).map idDoc, e.modTime, s.vdb, s.cursor, s.calls⟩ := ⟨_, rfl⟩
  have hwdocs : w.batch.map Prod.snd = (pre ++ [e]).map Entry.val := by simp [hw, idDoc]
  have hwlen : w.batch.length = batchSize := by simp [hw, hlen]
  have hwcalls : w.calls = s.calls := by rw [hw]
  obtain ⟨hc₁, hbl₁, -, hok₁, hcb₁⟩ := flush_spec embed w rfl
  have hfalse : (flush embed w).1 = false := by
    rw [← Bool.not_eq_true, hok₁, hwcalls, hwdocs, hwlen, not_and_or]
    exact hfail
  rw [hfalse] at hcb₁
  have hsync := syncVars_fail embed s.docs ⟨[], 0, s.vdb, s.cursor, s.calls⟩ rfl
    (by rw [hds, List.append_assoc, List.singleton_append]) hlen (hw ▸ hfalse)
  rw [← hw] at hsync
  obtain ⟨hc₂, hbl₂, -, hok₂, hcb₂⟩ := flush_spec embed (flush embed w).2 rfl
  simp only [(Prod.mk.inj hcb₁).2, hwdocs, hwlen, hc₁, hwcalls, List.length_append,
    List.length_singleton] at hc₂ hok₂
  refine ⟨by simpa [EmbedSys.sync, hsync, hw] using hc₂, fun h₁ h₂ e' he' => ?_⟩
  have hok : (flush embed (flush embed w).2).1 = true :=
    hok₂.2 ⟨by simpa using h₁, by simpa [hlen] using h₂⟩
  rw [hok, if_pos rfl] at hcb₂
  have hcur : (s.sync embed).cursor = markOld s.cursor e.modTime := by
    have h := (Prod.mk.inj hcb₂).1
    rw [(Prod.mk.inj hcb₁).1, hbl₁] at h
    simp only [EmbedSys.sync, hsync, h]
    rw [hw]
  rw [hcur, cutoff_markOld]
  refine le_max_of_le_right ?_
  rcases List.mem_append.1 he' with he' | he'
  · rw [hds, List.append_assoc] at hsorted
    exact (List.pairwise_append.1 hsorted).2.2 e' he' e (by simp)
  · rw [List.mem_singleton.1 he']

/-- `n` documents added one after another, IDs `0` to `n-1` at DBTimes `1` to `n`, before any
`Sync`. -/
def docsRun (n : Nat) : EmbedSys Nat Nat :=
  (List.range n).foldl (fun s i => s.add i "t" "x" (i + 1)) ⟨emptyCorpus, 0, none, .empty, []⟩

theorem docsRun_spec (n : Nat) (hn : (n : Int) ≤ maxInt64) :
    EmbedReachable (docsRun n) ∧ (docsRun n).cursor = none ∧ (docsRun n).calls = [] ∧
      (docsRun n).lastTime = n ∧ ∀ k, (docsRun n).docs.prim.get k =
        if k < n then some ((k : Int) + 1, ⟨"t", "x"⟩) else none := by
  induction n with
  | zero => exact ⟨.init _, rfl, rfl, rfl, fun k => by simp [docsRun, emptyCorpus]⟩
  | succ n ih =>
    obtain ⟨hr, hc, hcalls, hl, hg⟩ := ih (by omega)
    have hu : unchanged (docsRun n).docs n "t" "x" = false := by simp [unchanged, Timed.get, hg]
    rw [show docsRun (n + 1) = (docsRun n).add n "t" "x" (n + 1) by
      simp [docsRun, List.range_succ]]
    refine ⟨hr.step (.add _ _ _ _ _ (by rw [hl]; omega) (by omega)), hc, hcalls,
      by simp [EmbedSys.add, hu], fun k => ?_⟩
    simp only [EmbedSys.add, Docs.add, hu, Bool.false_eq_true, if_false, prim_set_get, hg]
    split_ifs <;> first | rfl | omega | (subst_vars; rfl)

/-- An embedder whose first call fails, and which answers every later call with a vector per
document. -/
def flakyEmbedder : Embedder Nat := fun n ds =>
  if n = 0 then ([], some "rate limited") else (ds.map fun _ => 0, none)

/-- A corpus of `100` new documents and an embedder whose first call fails: `Sync` sends the
batch twice. -/
theorem docsRun_retried :
    ((recent (docsRun 100).docs (docsRun 100).cursor).1.take batchSize).length = batchSize ∧
    (((docsRun 100).sync flakyEmbedder).calls = (docsRun 100).calls ++
      [⟨((recent (docsRun 100).docs (docsRun 100).cursor).1.take batchSize).map idDoc,
          flakyEmbedder (docsRun 100).calls.length
            (((recent (docsRun 100).docs (docsRun 100).cursor).1.take batchSize).map Entry.val)⟩,
        ⟨((recent (docsRun 100).docs (docsRun 100).cursor).1.take batchSize).map idDoc,
          flakyEmbedder ((docsRun 100).calls.length + 1)
            (((recent (docsRun 100).docs (docsRun 100).cursor).1.take batchSize).map Entry.val)⟩] ∧
    ((flakyEmbedder ((docsRun 100).calls.length + 1)
        (((recent (docsRun 100).docs (docsRun 100).cursor).1.take batchSize).map Entry.val)).2 =
          none →
      (flakyEmbedder ((docsRun 100).calls.length + 1)
        (((recent (docsRun 100).docs (docsRun 100).cursor).1.take batchSize).map
          Entry.val)).1.length = batchSize →
      ∀ e ∈ (recent (docsRun 100).docs (docsRun 100).cursor).1.take batchSize,
        e.modTime ≤ cutoff ((docsRun 100).sync flakyEmbedder).cursor)) := by
  obtain ⟨hr, hc, hcalls, -, hg⟩ := docsRun_spec 100 (by decide)
  have hinv := embedInv_reachable hr
  have hsub : List.range 100 ⊆ (recent (docsRun 100).docs (docsRun 100).cursor).1.map Entry.key :=
    fun k hk => by
      have hk' := List.mem_range.1 hk
      obtain ⟨e, he, hkey, -⟩ := recent_complete hinv.corpus hinv.lastLe hinv.cursorNonneg
        (by rw [hg k, if_pos hk'] : _ = some ((k : Int) + 1, _)) (by rw [hc]; simp)
      exact List.mem_map.2 ⟨e, he, hkey⟩
  have hlen : ((recent (docsRun 100).docs (docsRun 100).cursor).1.take batchSize).length =
      batchSize := by
    have := (List.subperm_of_subset (List.nodup_range 100) hsub).length_le
    simp only [List.length_range, List.length_map] at this
    simp [batchSize, this]
  exact ⟨hlen, sync_retries_failed_batch _ _ _ rfl hlen (by rw [hcalls]; decide)⟩


/-! ## Adding documents again -/

/-- `Corpus.Add` for each `(id, doc, t)` in turn: `id` with `doc`'s title and text, where `t` is
what `now()` reads if the document changes. After a `Restart` of its watcher, `githubdocs.Sync`
makes such a run over every issue, each under its own URL. -/
def EmbedSys.addAll (s : EmbedSys K F) (items : List (K × DocText × Int)) : EmbedSys K F :=
  items.foldl (fun s x => s.add x.1 x.2.1.title x.2.1.text x.2.2) s

namespace EmbedSys

variable (s : EmbedSys K F) (id : K) (title text : String) (t : Int)

@[simp] theorem addAll_nil : s.addAll [] = s := rfl

@[simp] theorem addAll_cons (x : K × DocText × Int) (xs : List (K × DocText × Int)) :
    s.addAll (x :: xs) = (s.add x.1 x.2.1.title x.2.1.text x.2.2).addAll xs := rfl

@[simp] theorem cursor_add : (s.add id title text t).cursor = s.cursor := rfl

theorem cursor_addAll (items : List (K × DocText × Int)) : (s.addAll items).cursor = s.cursor := by
  induction items generalizing s with
  | nil => rfl
  | cons x xs ih => rw [addAll_cons, ih, cursor_add]

theorem kind_add : (s.add id title text t).docs.kind = s.docs.kind := by
  unfold EmbedSys.add Docs.add
  split_ifs <;> simp

theorem kind_addAll (items : List (K × DocText × Int)) :
    (s.addAll items).docs.kind = s.docs.kind := by
  induction items generalizing s with
  | nil => rfl
  | cons x xs ih => rw [addAll_cons, ih, kind_add]

theorem lastTime_add_le {t : Int} (ht : s.lastTime < t) : (s.add id title text t).lastTime ≤ t := by
  unfold EmbedSys.add
  split_ifs <;> simp only [le_refl, ht.le]

theorem add_of_unchanged {s : EmbedSys K F} {id : K} {title text : String}
    (h : unchanged s.docs id title text) (t : Int) : s.add id title text t = s := by
  unfold EmbedSys.add
  rw [Docs.add_of_unchanged h, if_pos h]

theorem prim_add (k : K) : (s.add id title text t).docs.prim.get k =
    if k = id ∧ ¬unchanged s.docs id title text then some (t, ⟨title, text⟩)
    else s.docs.prim.get k := by
  by_cases h : unchanged s.docs id title text
  · rw [add_of_unchanged h, if_neg (fun hk => hk.2 h)]
  · simp [EmbedSys.add, Docs.add, h, prim_set_get]

end EmbedSys

theorem EmbedInv.addAll {s : EmbedSys K F} (h : EmbedInv s) {items : List (K × DocText × Int)}
    (hlt : ∀ x ∈ items, s.lastTime < x.2.2) (hsorted : (items.map (·.2.2)).Pairwise (· < ·))
    (hmax : ∀ x ∈ items, x.2.2 ≤ maxInt64) : EmbedInv (s.addAll items) := by
  induction items generalizing s with
  | nil => exact h
  | cons x xs ih =>
    rw [List.map_cons, List.pairwise_cons] at hsorted
    have hx := hlt x (List.mem_cons_self x xs)
    exact ih (h.add hx (hmax x (List.mem_cons_self x xs)) _ _ _)
      (fun y hy => (s.lastTime_add_le _ _ _ hx).trans_lt (hsorted.1 _ (List.mem_map_of_mem _ hy)))
      hsorted.2 fun y hy => hmax y (List.mem_cons_of_mem x hy)

theorem prim_addAll (s : EmbedSys K F) {items : List (K × DocText × Int)}
    (hnd : (items.map (·.1)).Nodup) (k : K) :
    (s.addAll items).docs.prim.get k = s.docs.prim.get k ∨
      ∃ x ∈ items, x.1 = k ∧ ¬unchanged s.docs k x.2.1.title x.2.1.text ∧
        (s.addAll items).docs.prim.get k = some (x.2.2, x.2.1) := by
  induction items generalizing s with
  | nil => exact .inl rfl
  | cons x xs ih =>
    rw [List.map_cons, List.nodup_cons] at hnd
    have hadd := s.prim_add x.1 x.2.1.title x.2.1.text x.2.2 k
    rw [EmbedSys.addAll_cons]
    rcases ih (s.add x.1 x.2.1.title x.2.1.text x.2.2) hnd.2 with hk | ⟨y, hy, rfl, hu, hg⟩
    · rw [hk, hadd]
      split_ifs with hx
      · exact .inr ⟨x, List.mem_cons_self x xs, hx.1.symm, hx.1 ▸ hx.2, rfl⟩
      · exact .inl rfl
    · have hne : y.1 ≠ x.1 := fun he => hnd.1 (he ▸ List.mem_map_of_mem _ hy)
      have hsame : (s.add x.1 x.2.1.title x.2.1.text x.2.2).docs.prim.get y.1 =
          s.docs.prim.get y.1 := by
        rw [hadd, if_neg (fun h => hne h.1)]
      rw [unchanged_congr hsame] at hu
      exact .inr ⟨y, List.mem_cons_of_mem x hy, rfl, hu, hg⟩

/-- `Corpus.Add` is idempotent on every store: adding `(id, title, text)` twice leaves what adding
it once leaves. Adding the title and text the corpus has for `id` changes no row and takes no new
DBTime. So after a run of `Add` calls over distinct IDs, from a state whose `"embeddocs"` watcher
has nothing left to yield, the documents the next `embeddocs.Sync` iterates over, and so sends to
the embedder, are re-added ones whose title or text changed. -/
theorem add_idempotent :
    (∀ (db : Store K DocText) (id : K) (title text : String) (t₁ t₂ : Int),
      Docs.add (Docs.add db id title text t₁) id title text t₂ = Docs.add db id title text t₁) ∧
    (∀ (s : EmbedSys K F) (id : K) (title text : String) (t : Int),
      (get s.docs id).map (·.val) = some ⟨title, text⟩ → s.add id title text t = s) ∧
    ∀ (s : EmbedSys K F) (items : List (K × DocText × Int)), EmbedInv s →
      (∀ x ∈ items, s.lastTime < x.2.2) → (items.map (·.2.2)).Pairwise (· < ·) →
      (∀ x ∈ items, x.2.2 ≤ maxInt64) → (items.map (·.1)).Nodup →
      (recent s.docs s.cursor).1 = [] →
      ∀ e ∈ (recent (s.addAll items).docs (s.addAll items).cursor).1,
        (∃ x ∈ items, x.1 = e.key) ∧ (get s.docs e.key).map (·.val) ≠ some e.val := by
  refine ⟨fun db id title text t₁ t₂ => add_of_unchanged (unchanged_add db id title text t₁) t₂,
    fun s id title text t h => EmbedSys.add_of_unchanged (unchanged_iff.2 h) t,
    fun s items h hlt hsorted hmax hnd hcaught e he => ?_⟩
  have h' := h.addAll hlt hsorted hmax
  rw [EmbedSys.cursor_addAll, recent, mem_scanAfter_int64 h'.corpus.inv,
    EmbedSys.kind_addAll] at he
  obtain ⟨hkind, hg, hnew, -⟩ := he
  rcases prim_addAll s hnd e.key with hs | ⟨x, hx, hxk, hu, hgx⟩
  · have hold : e ∈ (recent s.docs s.cursor).1 := by
      rw [recent, mem_scanAfter_int64 h.corpus.inv]
      exact ⟨hkind, hs ▸ hg, hnew, rfl⟩
    rw [hcaught] at hold
    exact absurd hold (List.not_mem_nil e)
  · rw [hgx] at hg
    obtain ⟨-, hval⟩ := Prod.mk.inj (Option.some.inj hg)
    refine ⟨⟨x, hx, hxk⟩, fun hget => hu (unchanged_iff.2 ?_)⟩
    rw [hget, ← hval]

/-- No document yet. -/
def emptySys : EmbedSys Nat Nat := ⟨emptyCorpus, 0, none, .empty, []⟩

/-- A document added at DBTime `1`. -/
def oneDocRun : EmbedSys Nat Nat := emptySys.add 1 "t" "x" 1

/-- Two documents added at DBTimes `1` and `2`. -/
def twoItems : List (Nat × DocText × Int) := [(1, ⟨"t", "x"⟩, 1), (2, ⟨"u", "y"⟩, 2)]

/-- Adding `oneDocRun`'s document again is a no-op, and after a run from no document, the next
`Sync` sees only documents of the run. -/
theorem oneDocRun_readd :
    oneDocRun.add 1 "t" "x" 2 = oneDocRun ∧
      ∀ e ∈ (recent (emptySys.addAll twoItems).docs (emptySys.addAll twoItems).cursor).1,
        (∃ x ∈ twoItems, x.1 = e.key) ∧ (get emptySys.docs e.key).map (·.val) ≠ some e.val := by
  have h : EmbedInv emptySys := embedInv_init _
  have hg : (get oneDocRun.docs 1).map (·.val) = some ⟨"t", "x"⟩ := by decide
  exact ⟨add_idempotent.2.1 oneDocRun 1 "t" "x" 2 hg,
    add_idempotent.2.2 emptySys twoItems h (by decide) (by decide) (by decide) (by decide)
      (by decide)⟩

end Gaby.Embeddocs
