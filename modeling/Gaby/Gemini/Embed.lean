import Gaby.Embeddocs.Complete

/-!
# Gemini's `EmbedDocs`: requests of at most `maxBatch` documents

`Client.EmbedDocs` cuts the documents into the chunks `slices.Chunk(docs, maxBatch)` yields
(`chunk`) and sends one `BatchEmbedContents` request per chunk, appending the embeddings of each
response; at the first error it returns the vectors so far with the error (`embedChunks`,
`embedDocs`). The API answers the `i`th request of a call (`BatchAPI`), and the client's `n`th
`EmbedDocs` call talks to `api n` (`embedder`): within a run, a request is named by the two
indices, so the API may answer each request differently.

* `flatten_chunk`, `chunk_sizes`, `chunk_eq_append`: the chunks are the documents in order,
  each nonempty and of at most `n`, and all but the last of exactly `n`.
* `embedChunks_answers`, `embedDocs_answers`, `embedder_answers`: when the API answers every
  request of at most `maxBatch` documents with one vector per document, so does the client.
* `embedChunks_pointwise`, `embedDocs_pointwise`: when the API embeds each document on its own
  or fails, batching changes nothing: the vectors are those of the documents before the failed
  request, which starts at a multiple of `maxBatch`.
-/

namespace Gaby.Gemini

open Gaby.Timed Gaby.Docs Gaby.Embeddocs

variable {α F : Type}

/-- `slices.Chunk(s, n)` for `n ≥ 1` (it panics below): the subslices it yields,
`s[i:min(i+n, len(s))]` for `i = 0, n, 2n, …` below `len(s)`. -/
def chunk (n : Nat) (hn : 0 < n) : List α → List (List α)
  | [] => []
  | x :: xs => (x :: xs).take n :: chunk n hn ((x :: xs).drop n)
termination_by s => s.length
decreasing_by simp only [List.length_drop, List.length_cons]; omega

section Chunk

variable {n : Nat} (hn : 0 < n)

@[simp] theorem chunk_nil : chunk n hn ([] : List α) = [] := by
  rw [chunk]

theorem chunk_of_ne_nil {s : List α} (h : s ≠ []) :
    chunk n hn s = s.take n :: chunk n hn (s.drop n) := by
  obtain ⟨x, xs, rfl⟩ := List.exists_cons_of_ne_nil h
  rw [chunk]

theorem flatten_chunk (s : List α) : (chunk n hn s).flatten = s := by
  induction s using chunk.induct n hn with
  | case1 => rw [chunk_nil, List.flatten_nil]
  | case2 x xs ih => rw [chunk, List.flatten_cons, ih, List.take_append_drop]

theorem chunk_sizes (s : List α) : ∀ c ∈ chunk n hn s, c ≠ [] ∧ c.length ≤ n := by
  induction s using chunk.induct n hn with
  | case1 => simp
  | case2 x xs ih =>
    rw [chunk]
    rintro c (_ | ⟨_, hc⟩)
    · exact ⟨by simp [hn.ne'], List.length_take_le _ _⟩
    · exact ih c hc

theorem chunk_eq_append : ∀ {s : List α} {pre post : List (List α)} {c : List α},
    chunk n hn s = pre ++ c :: post →
      pre.length * n < s.length ∧ pre.flatten = s.take (pre.length * n) ∧
        c = (s.drop (pre.length * n)).take n
  | s, pre, post, c, h => by
    have hs : s ≠ [] := by rintro rfl; simp at h
    rw [chunk_of_ne_nil hn hs] at h
    have hlen := List.length_pos.2 hs
    match pre, h with
    | [], h =>
      rw [List.nil_append, List.cons.injEq] at h
      simpa using ⟨hlen, h.1.symm⟩
    | p :: pre, h =>
      rw [List.cons_append, List.cons.injEq] at h
      obtain ⟨hl, hf, hc⟩ := chunk_eq_append h.2
      rw [List.length_drop] at hl
      rw [List.length_cons, Nat.succ_mul, Nat.add_comm _ n]
      refine ⟨by omega, ?_, ?_⟩
      · rw [List.flatten_cons, ← h.1, hf, List.take_add]
      · rw [hc, List.drop_drop]

end Chunk

/-- `model.BatchEmbedContents` as the client sees it: the answer to the `i`th request of a
call, for a batch of titles and texts: the embeddings' values, or an error. -/
abbrev BatchAPI (F : Type) := Nat → List DocText → Except String (List F)

/-- `maxBatch`, the empirical limit of documents per request. -/
def maxBatch : Nat := 100

theorem maxBatch_pos : 0 < maxBatch := by decide

/-- The loop of `EmbedDocs` over the chunks `cs`, the next request being the `i`th, with the
vectors `vecs` so far: one request per chunk; at an error, the vectors so far and the error;
otherwise the response's embeddings appended. -/
def embedChunks (api : BatchAPI F) : Nat → List (List DocText) → List F → List F × Option String
  | _, [], vecs => (vecs, none)
  | i, c :: cs, vecs =>
    match api i c with
    | .error err => (vecs, some err)
    | .ok es => embedChunks api (i + 1) cs (vecs ++ es)

/-- `Client.EmbedDocs(docs)`. -/
def embedDocs (api : BatchAPI F) (docs : List DocText) : List F × Option String :=
  embedChunks api 0 (chunk maxBatch maxBatch_pos docs) []

/-- The `Client` as an `llm.Embedder`: its `n`th `EmbedDocs` call talks to `api n`. -/
def embedder (api : Nat → BatchAPI F) : Embedder F := fun n docs => embedDocs (api n) docs

/-- The API answers every request of at most `maxBatch` documents with one vector per
document. -/
def BatchAPI.Answers (api : BatchAPI F) : Prop :=
  ∀ i c, c ≠ [] → c.length ≤ maxBatch → ∃ vs, api i c = .ok vs ∧ vs.length = c.length

theorem embedChunks_answers {api : BatchAPI F} (h : api.Answers) :
    ∀ (i : Nat) (cs : List (List DocText)) (vecs : List F),
      (∀ c ∈ cs, c ≠ [] ∧ c.length ≤ maxBatch) →
      (embedChunks api i cs vecs).2 = none ∧
        (embedChunks api i cs vecs).1.length = vecs.length + cs.flatten.length
  | _, [], _, _ => ⟨rfl, rfl⟩
  | i, c :: cs, vecs, hcs => by
    obtain ⟨hne, hle⟩ := hcs c (.head _)
    obtain ⟨vs, hvs, hlen⟩ := h i c hne hle
    obtain ⟨h₁, h₂⟩ := embedChunks_answers h (i + 1) cs (vecs ++ vs) fun c' h' => hcs c' (.tail _ h')
    simp only [embedChunks, hvs, List.flatten_cons, List.length_append]
    rw [List.length_append, hlen] at h₂
    exact ⟨h₁, by omega⟩

theorem embedDocs_answers {api : BatchAPI F} (h : api.Answers) (ds : List DocText) :
    (embedDocs api ds).2 = none ∧ (embedDocs api ds).1.length = ds.length := by
  have := embedChunks_answers h 0 _ [] (chunk_sizes maxBatch_pos ds)
  rwa [flatten_chunk, List.length_nil, Nat.zero_add] at this

/-- **`EmbedDocs` keeps to `maxBatch`**: when every request of at most `maxBatch` documents is
answered with one vector per document, every `EmbedDocs` call answers with one vector per
document and no error. -/
theorem embedder_answers {api : Nat → BatchAPI F} (h : ∀ n, (api n).Answers) :
    (embedder api).Answers :=
  fun n ds => embedDocs_answers (h n) ds

/-- An API that embeds each document as `0`. -/
def zeroAPI : Nat → BatchAPI Nat := fun _ _ c => .ok (c.map fun _ => 0)

/-- The API that embeds each document as `0` answers, and so does the client over it. -/
theorem embedder_answers_zero : (∀ n, (zeroAPI n).Answers) ∧ (embedder zeroAPI).Answers :=
  have ha : ∀ n, (zeroAPI n).Answers := fun _ _ _ _ _ => ⟨_, rfl, List.length_map _ _⟩
  ⟨ha, embedder_answers ha⟩

section Pointwise

variable {api : BatchAPI F} {f : DocText → F}
  (hf : ∀ i c, c ≠ [] → c.length ≤ maxBatch → api i c = .ok (c.map f) ∨ ∃ e, api i c = .error e)

include hf in
theorem embedChunks_pointwise : ∀ (i : Nat) (cs : List (List DocText)) (vecs : List F),
    (∀ c ∈ cs, c ≠ [] ∧ c.length ≤ maxBatch) →
    embedChunks api i cs vecs = (vecs ++ cs.flatten.map f, none) ∨
      ∃ pre c post e, cs = pre ++ c :: post ∧ api (i + pre.length) c = .error e ∧
        embedChunks api i cs vecs = (vecs ++ pre.flatten.map f, some e)
  | _, [], _, _ => .inl (by simp [embedChunks])
  | i, c :: cs, vecs, hcs => by
    obtain ⟨hne, hle⟩ := hcs c (.head _)
    rcases hf i c hne hle with hok | ⟨e, herr⟩
    · rw [embedChunks, hok]
      rcases embedChunks_pointwise (i + 1) cs (vecs ++ c.map f) fun c' h' => hcs c' (.tail _ h')
        with hr | ⟨pre, c', post, e, rfl, he, hr⟩
      · exact .inl (by simp [hr])
      · refine .inr ⟨c :: pre, c', post, e, rfl, ?_, by simp [hr]⟩
        rwa [List.length_cons, Nat.add_comm pre.length, ← Nat.add_assoc]
    · exact .inr ⟨[], c, cs, e, rfl, herr, by simp [embedChunks, herr]⟩

include hf in
/-- **Batching changes nothing**: when the API embeds each document of a request on its own, or
fails, `EmbedDocs` returns the embedding of every document, or, when request `i` fails, the
embeddings of the `i * maxBatch` documents before that request's chunk, with the error. -/
theorem embedDocs_pointwise (docs : List DocText) :
    embedDocs api docs = (docs.map f, none) ∨
      ∃ i e, i * maxBatch < docs.length ∧
        api i ((docs.drop (i * maxBatch)).take maxBatch) = .error e ∧
        embedDocs api docs = ((docs.take (i * maxBatch)).map f, some e) := by
  unfold embedDocs
  rcases embedChunks_pointwise hf 0 _ [] (chunk_sizes maxBatch_pos docs)
    with h | ⟨pre, c, post, e, hcs, he, h⟩
  · rw [h, flatten_chunk, List.nil_append]
    exact .inl rfl
  · obtain ⟨hlt, hpre, rfl⟩ := chunk_eq_append maxBatch_pos hcs
    rw [Nat.zero_add] at he
    exact .inr ⟨pre.length, e, hlt, he, by rw [h, hpre, List.nil_append]⟩

end Pointwise

/-- An API that fails its request `k` and embeds each document of the others as `0`. -/
def failAPI (k : Nat) : BatchAPI Nat :=
  fun i c => if i = k then .error "quota exceeded" else .ok (c.map fun _ => 0)

/-- 150 documents through an API whose second request fails: the client returns the vectors of
the first 100. -/
theorem embedDocs_pointwise_fail :
    let docs : List DocText := List.replicate 150 ⟨"a", "b"⟩
    (∀ i c, c ≠ [] → c.length ≤ maxBatch →
      failAPI 1 i c = .ok (c.map fun _ => 0) ∨ ∃ e, failAPI 1 i c = .error e) ∧
    (embedDocs (failAPI 1) docs = (docs.map fun _ => 0, none) ∨
      ∃ i e, i * maxBatch < docs.length ∧
        failAPI 1 i ((docs.drop (i * maxBatch)).take maxBatch) = .error e ∧
        embedDocs (failAPI 1) docs = ((docs.take (i * maxBatch)).map fun _ => 0, some e)) ∧
    embedDocs (failAPI 1) docs = (List.replicate 100 0, some "quota exceeded") := by
  intro docs
  have hf : ∀ i c, c ≠ [] → c.length ≤ maxBatch →
      failAPI 1 i c = .ok (c.map fun _ => 0) ∨ ∃ e, failAPI 1 i c = .error e := fun i c _ _ => by
    unfold failAPI
    split_ifs
    exacts [.inr ⟨_, rfl⟩, .inl rfl]
  refine ⟨hf, embedDocs_pointwise hf docs, ?_⟩
  rw [embedDocs, chunk_of_ne_nil _ (by simp [docs]), chunk_of_ne_nil _ (by simp [docs, maxBatch]),
    List.drop_drop]
  simp [docs, maxBatch, List.take_replicate, List.drop_replicate, embedChunks, failAPI]

end Gaby.Gemini
