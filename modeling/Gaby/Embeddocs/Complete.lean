import Gaby.Embeddocs.Sync

/-!
# An embedder that answers: `Sync` embeds the whole corpus

`Sync` never moves the cursor past a document without its vector (`Embeddocs/Sync.lean`). When
the embedder answers every call with one vector per document and no error (`Embedder.Answers`),
it also leaves no document behind: every flush succeeds, so the main loop goes through the whole
iteration, and the second iteration flushes what the last batch holds.

* `flush_answers`, `AheadInv`, `AheadInv.append`, `AheadInv.flush`: what the main loop keeps
  besides `SyncInv` and `RestInv`: the documents still to come lie above the cursor, and a
  nonempty batch ends at a current document above the cursor.
* `mainLoop_answers`, `syncVars_answers`: the loop ends with nothing still to come; then the
  cursor ends at or above every document's DBTime.
* `sync_embeds_all`: from any state of a run, `Sync` with such an embedder leaves every document
  of the corpus with a vector the embedder returned for its current title and text.
-/

namespace Gaby.Embeddocs

open Gaby.Timed Gaby.Docs

variable {K F : Type} [LinearOrder K]

/-- An embedder that answers every call with one vector per document and no error. -/
def Embedder.Answers (embed : Embedder F) : Prop :=
  ∀ n ds, (embed n ds).2 = none ∧ (embed n ds).1.length = ds.length

section Answers

variable {embed : Embedder F} (he : embed.Answers) {docs : Store K DocText} {last : Int}
  {v : SyncVars K F}

include he in
theorem flush_answers (v : SyncVars K F) : (flush embed v).1 = true :=
  (flush_spec embed v rfl).2.2.2.1.2 ⟨(he _ _).1, by rw [(he _ _).2, List.length_map]⟩

/-- What the main loop keeps, for the documents `rest` still to come: they lie above the cursor,
and a nonempty batch ends at a current document above the cursor. -/
structure AheadInv (docs : Store K DocText) (v : SyncVars K F) (rest : List (Entry K DocText)) :
    Prop where
  restAbove : ∀ e ∈ rest, cutoff v.cursor < e.modTime
  batchAbove : v.batch ≠ [] → cutoff v.cursor < v.batchLast ∧
    ∃ id d, docs.prim.get id = some (v.batchLast, d)

theorem AheadInv.append {e : Entry K DocText} {rest : List (Entry K DocText)}
    (ha : AheadInv docs v (e :: rest)) (hr : RestInv docs v (e :: rest)) :
    AheadInv docs { v with batch := v.batch ++ [idDoc e], batchLast := e.modTime } rest :=
  ⟨fun e' he' => ha.restAbove e' (.tail _ he'),
    fun _ => ⟨ha.restAbove e (.head _), e.key, e.val, hr.current e (.head _)⟩⟩

theorem AheadInv.flush {rest : List (Entry K DocText)} (ha : AheadInv docs v rest)
    (hr : RestInv docs v rest) (hok : (Embeddocs.flush embed v).1 = true) :
    AheadInv docs (Embeddocs.flush embed v).2 rest := by
  have hcb := (flush_spec embed v rfl).2.2.2.2
  rw [hok, if_pos rfl, Prod.mk.injEq] at hcb
  refine ⟨fun e' he' => ?_, fun hb => absurd hcb.2 hb⟩
  rw [hcb.1, cutoff_markOld]
  exact max_lt (ha.restAbove e' he') (hr.above e' he')

include he in
theorem mainLoop_answers (hc : CorpusInv docs last) :
    ∀ (rest : List (Entry K DocText)) (v : SyncVars K F), SyncInv docs last v →
      RestInv docs v rest → AheadInv docs v rest →
      SyncInv docs last (mainLoop embed rest v) ∧ RestInv docs (mainLoop embed rest v) [] ∧
        AheadInv docs (mainLoop embed rest v) []
  | [], _, hs, hr, ha => ⟨hs, hr, ha⟩
  | e :: rest, v, hs, hr, ha => by
    obtain ⟨hs₁, hr₁⟩ := hs.append hc hr
    have ha₁ := ha.append hr
    simp only [mainLoop]
    split_ifs with hfull hok
    · exact mainLoop_answers hc rest _ (hs₁.flush embed) (hr₁.flush embed) (ha₁.flush hr₁ hok)
    · exact absurd (flush_answers he _) hok
    · exact mainLoop_answers hc rest _ hs₁ hr₁ ha₁

include he in
theorem syncVars_answers (hc : CorpusInv docs last) (hl : last ≤ maxInt64) (hs : SyncInv docs last v)
    (hr : RestInv docs v (recent docs v.cursor).1) (ha : AheadInv docs v (recent docs v.cursor).1)
    {id : K} {t : Int} {d : DocText} (hg : docs.prim.get id = some (t, d)) :
    t ≤ cutoff (syncVars embed docs v).cursor := by
  obtain ⟨hs', hr', ha'⟩ := mainLoop_answers he hc _ v hs hr ha
  unfold syncVars
  dsimp only
  set m := mainLoop embed (recent docs v.cursor).1 v
  by_cases hb : 0 < m.batch.length
  · rw [if_pos hb]
    obtain ⟨hlt, id', d', hg'⟩ := ha'.batchAbove (List.ne_nil_of_length_pos hb)
    obtain ⟨e, hmem, -⟩ := recent_complete hc hl hs'.cursorNonneg hg' hlt
    rcases hrec : (recent docs m.cursor).1 with _ | ⟨e', es⟩
    · rw [hrec] at hmem; exact absurd hmem (List.not_mem_nil _)
    · have hcb := (flush_spec embed m rfl).2.2.2.2
      rw [flush_answers he, if_pos rfl, Prod.mk.injEq] at hcb
      rw [hcb.1, cutoff_markOld]
      by_contra hgt
      obtain ⟨h₁, h₂⟩ := max_lt_iff.1 (not_le.1 hgt)
      obtain ⟨_, hnil, -⟩ := hr'.complete id t d hg h₁ h₂
      exact absurd hnil (List.not_mem_nil _)
  · rw [if_neg hb]
    by_contra hgt
    rw [not_le] at hgt
    rcases le_or_lt t m.batchLast with h | h
    · have := hs'.between id t d hg hgt h
      rw [List.length_pos, not_not] at hb
      rw [hb] at this
      exact absurd this (List.not_mem_nil _)
    · obtain ⟨_, hnil, -⟩ := hr'.complete id t d hg hgt h
      exact absurd hnil (List.not_mem_nil _)

end Answers

theorem cutoff_le_flush (embed : Embedder F) (v : SyncVars K F) :
    cutoff v.cursor ≤ cutoff (flush embed v).2.cursor := by
  have hcb := congrArg Prod.fst (flush_spec embed v rfl).2.2.2.2
  dsimp only at hcb
  rw [hcb]
  split_ifs <;> simp

theorem cutoff_le_mainLoop (embed : Embedder F) :
    ∀ (rest : List (Entry K DocText)) (v : SyncVars K F),
      cutoff v.cursor ≤ cutoff (mainLoop embed rest v).cursor
  | [], _ => le_rfl
  | e :: rest, v => by
    have hf := cutoff_le_flush embed { v with batch := v.batch ++ [idDoc e], batchLast := e.modTime }
    simp only [mainLoop]
    split_ifs
    · exact hf.trans (cutoff_le_mainLoop embed rest _)
    · exact hf
    · exact cutoff_le_mainLoop embed rest _

theorem cutoff_le_syncVars (embed : Embedder F) (docs : Store K DocText) (v : SyncVars K F) :
    cutoff v.cursor ≤ cutoff (syncVars embed docs v).cursor := by
  have hm := cutoff_le_mainLoop embed (recent docs v.cursor).1 v
  unfold syncVars
  dsimp only
  split_ifs
  · split
    · exact hm
    · exact hm.trans (cutoff_le_flush embed _)
  · exact hm

theorem EmbedInv.embeds_all {s : EmbedSys K F} (hi : EmbedInv s) {embed : Embedder F}
    (he : embed.Answers) {id : K} {t : Int} {d : DocText}
    (hg : (s.sync embed).docs.prim.get id = some (t, d)) :
    Embedded (s.sync embed).vdb (s.sync embed).calls id d := by
  refine (hi.sync embed).embedded id t d hg ?_
  obtain ⟨hs, hr⟩ := hi.start
  by_cases hmax : cutoff s.cursor < maxInt64
  · refine syncVars_answers he hi.corpus hi.lastLe hs hr ⟨fun e he' => ?_, fun hb => absurd rfl hb⟩ hg
    exact recent_modTime_gt s.docs hi.cursorNonneg hmax he'
  · exact (hi.corpus.pos id t d hg).2.trans
      (hi.lastLe.trans ((not_lt.1 hmax).trans (cutoff_le_syncVars embed s.docs _)))

/-- **An embedder that answers gets the whole corpus embedded**: from any state of a run, `Sync`
with an embedder that answers every call with one vector per document and no error leaves every
document with a vector the embedder returned for its current title and text. -/
theorem sync_embeds_all {s : EmbedSys K F} (h : EmbedReachable s) {embed : Embedder F}
    (he : embed.Answers) {id : K} {t : Int} {d : DocText}
    (hg : (s.sync embed).docs.prim.get id = some (t, d)) :
    Embedded (s.sync embed).vdb (s.sync embed).calls id d :=
  (embedInv_reachable h).embeds_all he hg

/-- An embedder that answers each document with the vector `0`. -/
def zeroEmbedder : Embedder Nat := fun _ ds => (ds.map fun _ => 0, none)

/-- One document added to an empty corpus is embedded by one `Sync`. -/
theorem sync_embeds_all_oneDoc :
    let s : EmbedSys Nat Nat := (⟨emptyCorpus, 0, none, .empty, []⟩ : EmbedSys Nat Nat).add 1 "t" "x" 1
    EmbedReachable s ∧ zeroEmbedder.Answers ∧
      (s.sync zeroEmbedder).docs.prim.get 1 = some (1, ⟨"t", "x"⟩) ∧
      Embedded (s.sync zeroEmbedder).vdb (s.sync zeroEmbedder).calls 1 ⟨"t", "x"⟩ := by
  intro s
  have hr : EmbedReachable s := .step (.init _) (.add _ 1 "t" "x" 1 (by decide) (by decide))
  have ha : zeroEmbedder.Answers := fun _ ds => ⟨rfl, List.length_map _ _⟩
  have hg : (s.sync zeroEmbedder).docs.prim.get 1 = some (1, ⟨"t", "x"⟩) := by decide
  exact ⟨hr, ha, hg, sync_embeds_all hr ha hg⟩

end Gaby.Embeddocs
