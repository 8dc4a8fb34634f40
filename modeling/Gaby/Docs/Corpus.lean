import Gaby.Timed.ScanAfter
import Mathlib.Data.List.Lex
import Mathlib.Order.Fin.Basic

/-!
# The document corpus

A `docs.Corpus` keeps each document as a timed entry of kind `"docs.Doc"`, keyed by its ID, whose
value is its `(Title, Text)`. `Add` is a no-op when the corpus has the document with the same
title and text, and otherwise a `timed.Set` at `now()` in a new batch, applied at once (`add`).

From an empty corpus, with `now()` increasing, the timed store keeps its invariant, no two
documents share a DBTime, and every DBTime lies in `(0, lastTime]` (`CorpusInv`,
`CorpusInv.set`). Then a watcher's iteration from any cursor in `[0, lastTime]` yields current
documents (`recent_current`) in strictly increasing DBTime (`recent_sorted`), among them every
document newer than the cursor (`recent_complete`); at the cursor `2^63-1` there is none.

IDs are Go strings (`GoString`, their bytes): `ordered.Encode` keeps their order, so the rows
are in ID order. `Docs(prefix)` scans the IDs from `prefix` to `prefix+"\xff"`, and
`DocsAfter(0, prefix)` keeps the IDs that start with the prefix; under the invariant the first
yields the documents of the second but those whose ID goes on after the prefix with `0xff` and
more bytes (`docs_mem_iff`, `between_iff_prefix`).
-/

namespace Gaby.Docs

open Gaby.Timed

/-- A document's `Title` and `Text`: the value of its `"docs.Doc"` row, and the `llm.EmbedDoc`
that `embeddocs.Sync` sends for it. -/
structure DocText where
  title : String
  text : String
deriving DecidableEq, Repr

variable {K : Type} [LinearOrder K]

/-- The kind's rows of an empty database. -/
def emptyCorpus : Store K DocText := ⟨"docs.Doc", .empty, .empty⟩

/-- `old, ok := c.Get(id); ok && old.Title == title && old.Text == text`. -/
def unchanged (db : Store K DocText) (id : K) (title text : String) : Bool :=
  (get db id).any fun old => old.val.title == title && old.val.text == text

/-- `Add(id, title, text)`, where `t` is the `now()` that `timed.Set` reads. -/
def add (db : Store K DocText) (id : K) (title text : String) (t : Int) : Store K DocText :=
  if unchanged db id title text then db else db.apply (set db [] id ⟨title, text⟩ t)

theorem prim_set_get (db : Store K DocText) (id k : K) (d : DocText) (t : Int) :
    (db.apply (set db [] id d t)).prim.get k = if k = id then some (t, d) else db.prim.get k := by
  rw [set_eq, List.nil_append, Block.prim_apply_set]

theorem add_of_unchanged {db : Store K DocText} {id : K} {title text : String}
    (h : unchanged db id title text) (t : Int) : add db id title text t = db :=
  if_pos h

theorem unchanged_congr {db db' : Store K DocText} {id : K} (h : db.prim.get id = db'.prim.get id)
    (title text : String) : unchanged db id title text = unchanged db' id title text := by
  simp only [unchanged, Timed.get, h]
  cases db'.prim.get id <;> rfl

theorem unchanged_iff {db : Store K DocText} {id : K} {title text : String} :
    unchanged db id title text ↔ (get db id).map (·.val) = some ⟨title, text⟩ := by
  unfold unchanged
  rcases get db id with _ | ⟨_, _, _, ⟨ti, te⟩⟩ <;> simp

theorem unchanged_add (db : Store K DocText) (id : K) (title text : String) (t : Int) :
    unchanged (add db id title text t) id title text := by
  unfold add
  split_ifs with h
  · exact h
  · simp [unchanged, Timed.get, prim_set_get]

/-- The corpus' invariant, for `now()`'s last value `last`. -/
structure CorpusInv (db : Store K DocText) (last : Int) : Prop where
  inv : Inv db
  unique : ∀ k k' t d d', db.prim.get k = some (t, d) → db.prim.get k' = some (t, d') → k = k'
  pos : ∀ k t d, db.prim.get k = some (t, d) → 0 < t ∧ t ≤ last
  indexLe : ∀ t k, db.byTime.get ⟨t, k⟩ = some () → t ≤ last
  lastNonneg : 0 ≤ last

theorem corpusInv_empty : CorpusInv (emptyCorpus : Store K DocText) 0 :=
  ⟨inv_empty _, fun _ _ _ _ _ h => by simp [emptyCorpus] at h, fun _ _ _ h => by
    simp [emptyCorpus] at h, fun _ _ h => by simp [emptyCorpus] at h, le_rfl⟩

theorem CorpusInv.mono {db : Store K DocText} {last last' : Int} (h : CorpusInv db last)
    (hl : last ≤ last') : CorpusInv db last' :=
  ⟨h.inv, h.unique, fun k t d hg => ⟨(h.pos k t d hg).1, (h.pos k t d hg).2.trans hl⟩,
    fun t k hr => (h.indexLe t k hr).trans hl, h.lastNonneg.trans hl⟩

theorem CorpusInv.set {db : Store K DocText} {last t : Int} (h : CorpusInv db last)
    (ht : last < t) (id : K) (d : DocText) : CorpusInv (db.apply (set db [] id d t)) t := by
  have hp := prim_set_get db id (d := d) (t := t)
  rw [set_eq, List.nil_append] at hp ⊢
  refine ⟨Block.inv_apply_block h.inv fun t' hr => (h.indexLe t' id hr).trans_lt ht,
    fun k k' t' d₁ d₂ h₁ h₂ => ?_, fun k t' d' hg => ?_, fun t' k hr => ?_,
    h.lastNonneg.trans ht.le⟩
  · rw [hp] at h₁ h₂
    split_ifs at h₁ h₂ with hk hk' hk'
    · exact hk.trans hk'.symm
    · cases h₁; exact absurd (h.pos k' _ _ h₂).2 (not_le.2 ht)
    · cases h₂; exact absurd (h.pos k _ _ h₁).2 (not_le.2 ht)
    · exact h.unique k k' t' d₁ d₂ h₁ h₂
  · rw [hp] at hg
    split_ifs at hg
    · cases hg; exact ⟨h.lastNonneg.trans_lt ht, le_rfl⟩
    · exact ⟨(h.pos k t' d' hg).1, (h.pos k t' d' hg).2.trans ht.le⟩
  · rw [Block.byTime_apply_set] at hr
    split_ifs at hr with h₁
    · cases h₁; exact le_rfl
    · exact (h.indexLe t' k hr).trans ht.le

/-! ## A watcher's iteration over the corpus -/

section Recent

variable {db : Store K DocText} {last : Int}

theorem recent_current (h : CorpusInv db last) (row : Option Int) {e : Entry K DocText}
    (he : e ∈ (recent db row).1) : db.prim.get e.key = some (e.modTime, e.val) :=
  (current_of_mem_scanAfter h.inv he).2.1

theorem recent_sorted (h : CorpusInv db last) (row : Option Int) :
    (recent db row).1.Pairwise (fun e e' => e.modTime < e'.modTime) :=
  scanAfter_modTime_lt h.inv h.unique _ none

theorem recent_complete (h : CorpusInv db last) (hl : last ≤ maxInt64) {row : Option Int}
    (h0 : 0 ≤ cutoff row) {k : K} {t : Int} {d : DocText} (hg : db.prim.get k = some (t, d))
    (hlt : cutoff row < t) : ∃ e ∈ (recent db row).1, e.key = k ∧ e.modTime = t := by
  have ht : cutoff row < maxInt64 := hlt.trans_le ((h.pos k t d hg).2.trans hl)
  refine ⟨⟨t, db.kind, k, d⟩, (mem_scanAfter h.inv (by omega) ht none _).2 ⟨rfl, hg, hlt, rfl⟩,
    rfl, rfl⟩

end Recent

/-! ## `Docs` and `DocsAfter` -/

/-- A Go string, as its bytes, in the order `ordered.Encode` keeps: byte by byte, a prefix first.
-/
abbrev GoString := List (Fin 256)

/-- `c.Docs(prefix)`: `timed.Scan` from `ordered.Encode(prefix)` to
`ordered.Encode(prefix+"\xff")`, both included. -/
def docs (db : Store GoString DocText) (pre : GoString) : List (Entry GoString DocText) :=
  scan db pre (pre ++ [255])

/-- `c.DocsAfter(dbtime, prefix)`: `timed.ScanAfter` with a filter that keeps every ID when the
prefix is empty, and otherwise the IDs that start with it. -/
def docsAfter (db : Store GoString DocText) (dbtime : Int) (pre : GoString) :
    List (Entry GoString DocText) × Option String :=
  scanAfter db dbtime (some fun id => if pre = [] then true else pre.isPrefixOf id)

theorem cons_le_cons_iff {a : Fin 256} {l l' : GoString} :
    (a :: l : GoString) ≤ a :: l' ↔ l ≤ l' := by
  rw [le_iff_lt_or_eq, le_iff_lt_or_eq, List.cons.injEq, eq_self_iff_true, true_and]
  exact or_congr_left List.Lex.cons_iff

theorem cons_le_cons_of_ne {a c : Fin 256} (h : c ≠ a) (l l' : GoString) :
    (c :: l : GoString) ≤ a :: l' ↔ c < a := by
  rw [le_iff_lt_or_eq]
  constructor
  · rintro (hlt | heq)
    · cases (show List.Lex (· < ·) (c :: l) (a :: l') from hlt) with
      | cons => exact absurd rfl h
      | rel hr => exact hr
    · exact absurd (List.cons.inj heq).1 h
  · exact fun hlt => .inl (.rel hlt)

theorem le_nil_iff {l : GoString} : l ≤ [] ↔ l = [] := by
  rw [le_iff_lt_or_eq]
  exact or_iff_right (List.Lex.not_nil_right _ _)

theorem between_iff_prefix (pre k : GoString) :
    (pre ≤ k ∧ k ≤ pre ++ [255]) ↔ pre <+: k ∧ ¬∃ b rest, k = pre ++ 255 :: b :: rest := by
  induction pre generalizing k with
  | nil =>
    simp only [List.nil_le, List.nil_append, List.nil_prefix, true_and]
    rcases k with _ | ⟨c, r⟩
    · simp
    · by_cases hc : c = 255
      · subst hc
        rw [cons_le_cons_iff, le_nil_iff]
        rcases r with _ | ⟨b, rest⟩ <;> simp
      · rw [cons_le_cons_of_ne hc]
        simp only [List.cons.injEq, hc, false_and, exists_false, not_false_eq_true, iff_true]
        exact lt_of_le_of_ne (Fin.le_last c : c ≤ 255) hc
  | cons a p ih =>
    rcases k with _ | ⟨c, r⟩
    · simp [le_nil_iff]
    · by_cases hc : c = a
      · subst hc
        rw [List.cons_append, cons_le_cons_iff, cons_le_cons_iff, ih r]
        simp
      · rw [cons_le_cons_of_ne (Ne.symm hc), List.cons_append, cons_le_cons_of_ne hc]
        simp only [List.cons_prefix_cons, Ne.symm hc, false_and, iff_false]
        exact fun h => lt_asymm (h.1 : a < c) h.2

theorem mem_docsAfter {db : Store GoString DocText} {last : Int} (h : CorpusInv db last)
    (pre : GoString) (e : Entry GoString DocText) :
    e ∈ (docsAfter db 0 pre).1 ↔
      e.kind = db.kind ∧ db.prim.get e.key = some (e.modTime, e.val) ∧ pre <+: e.key := by
  rw [docsAfter, mem_scanAfter h.inv (by decide) (by decide)]
  constructor
  · rintro ⟨hk, hg, -, hf⟩
    refine ⟨hk, hg, ?_⟩
    by_cases hp : pre = [] <;> simp_all
  · rintro ⟨hk, hg, hp⟩
    refine ⟨hk, hg, (h.pos _ _ _ hg).1, ?_⟩
    by_cases hp' : pre = [] <;> simp_all

/-- Under the invariant, `Docs(prefix)` yields the documents that `DocsAfter(0, prefix)` yields,
but those whose ID goes on after the prefix with `0xff` and more bytes. -/
theorem docs_mem_iff {db : Store GoString DocText} {last : Int} (h : CorpusInv db last)
    (pre : GoString) (e : Entry GoString DocText) :
    e ∈ docs db pre ↔ e ∈ (docsAfter db 0 pre).1 ∧ ¬∃ b rest, e.key = pre ++ 255 :: b :: rest := by
  rw [docs, mem_scan, mem_docsAfter h, between_iff_prefix]
  tauto

/-- One document, with ID `"a\xff\x00"`, added at DBTime `1` to an empty corpus. -/
def ffCorpus : Store GoString DocText := add emptyCorpus [97, 255, 0] "t" "x" 1

/-- The document of `ffCorpus`. -/
def ffDoc : Entry GoString DocText := ⟨1, "docs.Doc", [97, 255, 0], ⟨"t", "x"⟩⟩

/-- `DocsAfter(0, "a")` yields the document and `Docs("a")` does not. -/
theorem ffCorpus_docs :
    CorpusInv ffCorpus 1 ∧ ffDoc ∈ (docsAfter ffCorpus 0 [97]).1 ∧ ffDoc ∉ docs ffCorpus [97] := by
  have hadd : ffCorpus = emptyCorpus.apply (set emptyCorpus [] [97, 255, 0] ⟨"t", "x"⟩ 1) := by
    unfold ffCorpus add
    exact if_neg (by decide)
  have h : CorpusInv ffCorpus 1 := hadd ▸ corpusInv_empty.set (by decide) _ _
  have hg : ffCorpus.prim.get [97, 255, 0] = some (1, ⟨"t", "x"⟩) := by
    rw [hadd, prim_set_get, if_pos rfl]
  have hk : ffCorpus.kind = "docs.Doc" := by rw [hadd, Store.kind_apply]; rfl
  have hmem := (mem_docsAfter h [97] ffDoc).2 ⟨hk.symm, hg, by decide⟩
  exact ⟨h, hmem, fun hd => ((docs_mem_iff h [97] _).1 hd).2 ⟨0, [], rfl⟩⟩

end Gaby.Docs
