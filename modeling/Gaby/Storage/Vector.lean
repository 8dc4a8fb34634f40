import Gaby.Storage.OMap
import Mathlib.Data.List.Sort
import Mathlib.Data.String.Basic

/-!
# The in-memory vector database

`storage.MemVectorDB` (`internal/storage/db_test.go`) keeps every vector in a map from document
ID to vector, and `Search(target, n)` scores each cached vector of `target`'s length with `Dot`
and keeps the `n` greatest results under `VectorResult.cmp` with `rsc.io/top`. The model keeps
`Dot` opaque (`dot`), and `top` by its contract: the `n` greatest elements under the comparison,
greatest first (`topTake`).

`cmp` orders by score, then by ID, and `top` returns the greatest first, so among equal scores
the larger ID comes first and wins a tie at the cut-off (`search_top`, `tiedSearch`).
-/

namespace Gaby.Storage

/-- A `storage.VectorResult`. -/
structure VectorResult (S : Type) where
  id : String
  score : S
deriving DecidableEq, Repr

/-- Go's `cmp.Compare`. -/
def goCompare {α : Type} [LinearOrder α] (a b : α) : Ordering :=
  if a < b then .lt else if b < a then .gt else .eq

/-- `top.New(n, cmp)`, an `Add` of each of `xs`, and `Take()`, by the package's contract: the
`n` greatest elements under `cmp`, greatest first. -/
def topTake {α : Type} (n : Nat) (cmp : α → α → Ordering) (xs : List α) : List α :=
  (xs.insertionSort fun a b => cmp a b ≠ .lt).take n

variable {S F : Type} [LinearOrder S]

/-- `VectorResult.cmp`: by score, then by ID. -/
def VectorResult.cmp (x y : VectorResult S) : Ordering :=
  if x.score ≠ y.score then goCompare x.score y.score else goCompare x.id y.id

/-- The results `Search` hands to `top`: each cached vector of `target`'s length, scored by
`dot target`. -/
def candidates (dot : List F → List F → S) (cache : OMap String (List F)) (target : List F) :
    List (VectorResult S) :=
  (cache.entries.filter fun e => e.2.length = target.length).map fun e => ⟨e.1, dot target e.2⟩

/-- `memVectorDB.Search(target, n)`. -/
def search (dot : List F → List F → S) (cache : OMap String (List F)) (target : List F)
    (n : Nat) : List (VectorResult S) :=
  topTake n VectorResult.cmp (candidates dot cache target)

/-! ## The order `cmp` sorts by -/

namespace VectorResult

/-- `x` ranks above `y`: a higher score, or the same score and a larger ID. -/
def Above (x y : VectorResult S) : Prop := y.score < x.score ∨ y.score = x.score ∧ y.id < x.id

theorem cmp_eq_lt {x y : VectorResult S} : x.cmp y = .lt ↔ Above y x := by
  unfold cmp goCompare Above
  by_cases hs : x.score = y.score
  · rw [if_neg (not_not.2 hs)]
    split_ifs with h1 h2 <;> simp [hs, h1]
  · rw [if_pos hs]
    split_ifs with h1 h2 <;> simp [hs, h1]

theorem above_irrefl (x : VectorResult S) : ¬Above x x := by
  simp [Above, lt_irrefl]

theorem above_trans {x y z : VectorResult S} (h₁ : Above x y) (h₂ : Above y z) : Above x z := by
  unfold Above at *
  rcases h₁ with h₁ | ⟨e₁, h₁⟩ <;> rcases h₂ with h₂ | ⟨e₂, h₂⟩
  · exact .inl (h₂.trans h₁)
  · exact .inl (e₂ ▸ h₁)
  · exact .inl (e₁ ▸ h₂)
  · exact .inr ⟨e₂.trans e₁, h₂.trans h₁⟩

theorem above_total (x y : VectorResult S) : x = y ∨ Above x y ∨ Above y x := by
  rcases x with ⟨i, s⟩
  rcases y with ⟨j, s'⟩
  simp only [Above, VectorResult.mk.injEq]
  rcases lt_trichotomy s s' with h | rfl | h
  · exact .inr (.inr (.inl h))
  · rcases lt_trichotomy i j with h | rfl | h
    · exact .inr (.inr (.inr ⟨rfl, h⟩))
    · exact .inl ⟨rfl, rfl⟩
    · exact .inr (.inl (.inr ⟨rfl, h⟩))
  · exact .inr (.inl (.inl h))

theorem above_asymm {x y : VectorResult S} (h : Above x y) : ¬Above y x :=
  fun h' => above_irrefl x (above_trans h h')

theorem cmp_ne_lt {x y : VectorResult S} : x.cmp y ≠ .lt ↔ x = y ∨ Above x y := by
  rw [Ne, cmp_eq_lt]
  constructor
  · intro h
    rcases above_total x y with e | h' | h'
    · exact .inl e
    · exact .inr h'
    · exact absurd h' h
  · rintro (rfl | h) h'
    · exact above_irrefl _ h'
    · exact above_asymm h h'

theorem cmp_total (a b : VectorResult S) : a.cmp b ≠ .lt ∨ b.cmp a ≠ .lt := by
  simp only [cmp_ne_lt]
  rcases above_total a b with h | h | h
  · exact .inl (.inl h)
  · exact .inl (.inr h)
  · exact .inr (.inr h)

theorem cmp_trans {a b c : VectorResult S} : a.cmp b ≠ .lt → b.cmp c ≠ .lt → a.cmp c ≠ .lt := by
  simp only [cmp_ne_lt]
  rintro (rfl | h₁) (rfl | h₂)
  · exact .inl rfl
  · exact .inr h₂
  · exact .inr h₁
  · exact .inr (above_trans h₁ h₂)

instance : IsTotal (VectorResult S) fun a b => a.cmp b ≠ .lt := ⟨cmp_total⟩

instance : IsTrans (VectorResult S) fun a b => a.cmp b ≠ .lt := ⟨fun _ _ _ => cmp_trans⟩

end VectorResult

/-! ## `Search` returns the true top `n` -/

omit [LinearOrder S] in
theorem candidates_ids_nodup (dot : List F → List F → S) (cache : OMap String (List F))
    (target : List F) : ((candidates dot cache target).map VectorResult.id).Nodup := by
  simp only [candidates, List.map_map]
  exact List.pairwise_map.2 ((cache.sorted.filter _).imp ne_of_lt)

/-- `Search(target, n)` returns the `min(n, m)` best of the `m` cached vectors of `target`'s
length: each a candidate, in strictly decreasing rank (by score, and by descending ID among
equal scores), and every candidate left out ranks below every one returned. -/
theorem search_top (dot : List F → List F → S) (cache : OMap String (List F)) (target : List F)
    (n : Nat) :
    (search dot cache target n).length = min n (candidates dot cache target).length ∧
    (∀ r ∈ search dot cache target n, r ∈ candidates dot cache target) ∧
    (search dot cache target n).Pairwise VectorResult.Above ∧
    ∀ c ∈ candidates dot cache target, c ∉ search dot cache target n →
      ∀ r ∈ search dot cache target n, VectorResult.Above r c := by
  simp only [search, topTake]
  set l := (candidates dot cache target).insertionSort fun a b => a.cmp b ≠ .lt
  have hperm : l.Perm (candidates dot cache target) := List.perm_insertionSort _ _
  have hnd : l.Nodup := hperm.nodup_iff.2 ((candidates_ids_nodup dot cache target).of_map _)
  have hsorted : l.Pairwise VectorResult.Above :=
    ((List.sorted_insertionSort _ _).and hnd).imp fun h =>
      (VectorResult.cmp_ne_lt.1 h.1).resolve_left h.2
  have hsplit := List.pairwise_append.1 ((List.take_append_drop n l).symm ▸ hsorted)
  refine ⟨by simp [hperm.length_eq], fun r hr => hperm.subset (List.mem_of_mem_take hr),
    hsorted.sublist (List.take_sublist _ _), fun c hc hnot r hr => hsplit.2.2 r hr c ?_⟩
  have hl : c ∈ l.take n ++ l.drop n := (List.take_append_drop n l).symm ▸ hperm.symm.subset hc
  exact (List.mem_append.1 hl).resolve_left hnot

/-- Documents `a` and `b` with the same vector. -/
def tiedCache : OMap String (List Nat) := (OMap.empty.set "a" [1]).set "b" [1]

/-- With one score for both, `Search(target, 1)` returns `b`, not the smaller ID `a`, and
`Search(target, 2)` lists `b` first. -/
theorem tiedSearch :
    search (fun _ _ => (1 : Nat)) tiedCache [1] 1 = [⟨"b", 1⟩] ∧
      search (fun _ _ => (1 : Nat)) tiedCache [1] 2 = [⟨"b", 1⟩, ⟨"a", 1⟩] := by
  simp [search, topTake, candidates, tiedCache, OMap.set, OMap.empty, OMap.insert,
    String.lt_iff_toList_lt, VectorResult.cmp, goCompare, List.insertionSort, List.orderedInsert]
  decide

/-! ## The cache against the rows

`memVectorDB.Set(id, vec)` writes the row `("llm.Vector", namespace, id)` and then, holding the
mutex, the cache entry. A `memVectorBatch` stages each `Set` in its storage batch `sb` and in its
map `w`; `Apply` runs `sb.Apply()` and then, holding the mutex, copies `w` into the cache and
clears `w`. Over a `MemDB`, `sb` is a `memBatch`, whose `Apply` runs every write ever staged on
it and never clears them, and whose `MaybeApply` never applies. The rows are kept decoded:
`Get(id)` of a rebuilt `MemVectorDB` reads `rows`. -/

/-- A `memVectorBatch` over a `memBatch`: every write staged in `sb`, in order, and `w`. -/
structure VBatch (F : Type) where
  staged : List (String × List F)
  w : OMap String (List F)

/-- Where a goroutine is in a `memVectorDB` call. -/
inductive VCall (F : Type)
  | idle
  /-- `Set(id, vec)` wrote the row; the cache update is next. -/
  | set (id : String) (vec : List F)
  /-- `Apply()` of batch `b` ran `sb.Apply()`; the cache update is next. -/
  | apply (b : Nat)

/-- The rows of the namespace, the cache, the batches, and each goroutine's call. -/
structure VSys (F : Type) where
  rows : OMap String (List F)
  cache : OMap String (List F)
  batches : Nat → VBatch F
  calls : Nat → VCall F

/-- Write each `(id, vec)` of `ws` into `m`, in order. -/
def setAll {F : Type} (m : OMap String (List F)) (ws : List (String × List F)) :
    OMap String (List F) :=
  ws.foldl (fun m e => m.set e.1 e.2) m

namespace VSys

variable {F : Type}

/-- `Set(id, vec)` by goroutine `g`: `db.storage.Set(...)`. -/
def set (s : VSys F) (g : Nat) (id : String) (vec : List F) : VSys F :=
  { s with rows := s.rows.set id vec, calls := Function.update s.calls g (.set id vec) }

/-- `Set(id, vec)` by goroutine `g`: `db.cache[id] = vec` under the mutex. -/
def setCache (s : VSys F) (g : Nat) (id : String) (vec : List F) : VSys F :=
  { s with cache := s.cache.set id vec, calls := Function.update s.calls g .idle }

/-- `b.Set(name, vec)` on batch `b`. -/
def batchSet (s : VSys F) (b : Nat) (name : String) (vec : List F) : VSys F :=
  { s with
    batches := Function.update s.batches b
      ⟨(s.batches b).staged ++ [(name, vec)], (s.batches b).w.set name vec⟩ }

/-- `b.Apply()` by goroutine `g`: `b.sb.Apply()`, which runs every write staged on the
`memBatch`. -/
def apply (s : VSys F) (g b : Nat) : VSys F :=
  { s with
    rows := setAll s.rows (s.batches b).staged, calls := Function.update s.calls g (.apply b) }

/-- `b.Apply()` by goroutine `g`: copy `b.w` into the cache under the mutex, then
`clear(b.w)`. -/
def applyCache (s : VSys F) (g b : Nat) : VSys F :=
  { s with
    cache := setAll s.cache (s.batches b).w.entries,
    batches := Function.update s.batches b ⟨(s.batches b).staged, .empty⟩,
    calls := Function.update s.calls g .idle }

end VSys

/-- One step of one goroutine. -/
inductive VStep {F : Type} : VSys F → VSys F → Prop
  | set (s : VSys F) (g : Nat) (id : String) (vec : List F) : s.calls g = .idle →
      VStep s (s.set g id vec)
  | setCache (s : VSys F) (g : Nat) (id : String) (vec : List F) : s.calls g = .set id vec →
      VStep s (s.setCache g id vec)
  | batchSet (s : VSys F) (b : Nat) (name : String) (vec : List F) : VStep s (s.batchSet b name vec)
  | apply (s : VSys F) (g b : Nat) : s.calls g = .idle → VStep s (s.apply g b)
  | applyCache (s : VSys F) (g b : Nat) : s.calls g = .apply b → VStep s (s.applyCache g b)

/-- The states reached from a `MemVectorDB` whose cache was just loaded from its rows, with no
batch and no call in progress. -/
inductive VReachable {F : Type} : VSys F → Prop
  | init (rows : OMap String (List F)) :
      VReachable ⟨rows, rows, fun _ => ⟨[], .empty⟩, fun _ => .idle⟩
  | step {s s' : VSys F} : VReachable s → VStep s s' → VReachable s'

/-- The empty database. -/
def emptyVSys : VSys Nat := ⟨.empty, .empty, fun _ => ⟨[], .empty⟩, fun _ => .idle⟩

/-- Batch `0` sets `x` to `[1]` and is applied; a direct `Set` then sets `x` to `[2]`; the batch
is reused to set `y` and applied again. -/
def reusedBatchRun : VSys Nat :=
  let s1 := ((emptyVSys.batchSet 0 "x" [1]).apply 0 0).applyCache 0 0
  let s2 := ((s1.set 0 "x" [2]).setCache 0 "x" [2]).batchSet 0 "y" [3]
  (s2.apply 0 0).applyCache 0 0

/-- Goroutines `0` and `1` both `Set` `x`: `0` writes its row, `1` writes its row and its cache
entry, then `0` writes its cache entry. -/
def racingSetsRun : VSys Nat :=
  (((emptyVSys.set 0 "x" [1]).set 1 "x" [2]).setCache 1 "x" [2]).setCache 0 "x" [1]

/-- In both runs every call has returned, yet the cache and the rows disagree on `x`: the
second `Apply` of the reused batch writes `x`'s old row back, and the racing `Set`s leave the
row of one and the cache entry of the other. -/
theorem vectorCache_diverges :
    (VReachable reusedBatchRun ∧ (∀ g, reusedBatchRun.calls g = .idle) ∧
      reusedBatchRun.rows.get "x" = some [1] ∧ reusedBatchRun.cache.get "x" = some [2]) ∧
    (VReachable racingSetsRun ∧ (∀ g, racingSetsRun.calls g = .idle) ∧
      racingSetsRun.rows.get "x" = some [2] ∧ racingSetsRun.cache.get "x" = some [1]) := by
  have hA : VReachable reusedBatchRun :=
    VReachable.init .empty |>.step (.batchSet _ 0 "x" [1]) |>.step (.apply _ 0 0 rfl)
      |>.step (.applyCache _ 0 0 rfl) |>.step (.set _ 0 "x" [2] rfl)
      |>.step (.setCache _ 0 "x" [2] rfl) |>.step (.batchSet _ 0 "y" [3])
      |>.step (.apply _ 0 0 rfl) |>.step (.applyCache _ 0 0 rfl)
  have hB : VReachable racingSetsRun :=
    VReachable.init .empty |>.step (.set _ 0 "x" [1] rfl) |>.step (.set _ 1 "x" [2] rfl)
      |>.step (.setCache _ 1 "x" [2] rfl) |>.step (.setCache _ 0 "x" [1] rfl)
  refine ⟨⟨hA, fun g => ?_, ?_⟩, ⟨hB, fun g => ?_, ?_⟩⟩
  · by_cases h : g = 0 <;> simp [reusedBatchRun, VSys.apply, VSys.applyCache, VSys.set,
      VSys.setCache, VSys.batchSet, emptyVSys, Function.update_apply, h]
  · simp [reusedBatchRun, VSys.apply, VSys.applyCache, VSys.set, VSys.setCache, VSys.batchSet,
      emptyVSys, setAll, OMap.set, OMap.get, OMap.empty, OMap.insert, OMap.lookup,
      String.lt_iff_toList_lt]
  · by_cases h : g = 0 <;> simp [racingSetsRun, VSys.set, VSys.setCache, emptyVSys,
      Function.update_apply, h]
  · simp [racingSetsRun, VSys.set, VSys.setCache, emptyVSys, OMap.set, OMap.get, OMap.empty,
      OMap.insert, OMap.lookup]

end Gaby.Storage
