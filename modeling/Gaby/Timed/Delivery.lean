import Gaby.Timed.Run
import Gaby.Timed.Watcher

/-!
# Delivery to a watcher's consumer

Writers run timed calls (`Sys`, with `timed.Set` split into `now()`, `db.Get` and staging) and
apply batches, while a consumer ranges over `Watcher.Recent` and calls `MarkOld` with the
ModTime of entries it was yielded. A `WSys` holds the writers' state, the watcher's row, the
iteration in progress and, as a ghost, every entry yielded so far. An iteration scans the index
rows as they were when it began (a database iterator reads a snapshot) and reads each primary row
when it reaches it.

`AtLeastOnce`: every entry the store holds has been yielded, or is newer than the cursor, so a
later iteration yields it. It fails when a `Set` calls `now()` before an iteration begins and
stages its writes after the iteration marked a later DBTime old, even with every batch empty
when the iteration began (`lateNowRun_lost`). With `drained`, writers run strictly (`Step true`)
and an iteration begins only when no batch holds staged writes and no `Set` is in flight
(`Sys.Quiet`); then it holds in every reachable state (`atLeastOnce_drained`): `DInv` holds
initially and is kept by every step (`dInv_step`). Its core is `WSys.Due`: an entry not yet
yielded is newer than the cursor and than every entry yielded, and the iteration in progress
still visits its index row or visits only older ones; a `Set` not yet applied is newer still
(`WSys.Ahead`). Index times are unique per key (`DInv.unique`), so `MarkOld` of one entry's time
never passes another's.
-/

namespace Gaby.Timed

/-- Writers of one kind, one watcher over it, and the watcher's consumer. -/
structure WSys (K V : Type) [LinearOrder K] where
  sys : Sys K V
  /-- The watcher's row `(kind+"Watcher", name)`. -/
  cursor : Option Int
  /-- The index rows the iteration in progress has still to visit; `none` when no iteration
  holds the watcher's lock. -/
  iter : Option (List (TimeKey K))
  /-- Every entry an iteration has yielded. -/
  yielded : List (Entry K V)

variable {K V : Type} [LinearOrder K]

/-- A `Set` of `k` at DBTime `t` is not yet applied: a staged write stores `t` for `k`, or the
`Set` is in flight. -/
def Sys.Unapplied (s : Sys K V) (t : Int) (k : K) : Prop :=
  (∃ b, ∃ o ∈ s.batch b, o.key = k ∧ o.stored = some t) ∨ ∃ g, (s.calls g).set? = some (k, t)

/-- Index time `t` belongs to key `k`: by an index row, or by a `Set` not yet applied. -/
def Sys.Claims (s : Sys K V) (t : Int) (k : K) : Prop :=
  s.db.byTime.get ⟨t, k⟩ = some () ∨ s.Unapplied t k

theorem SysInv.claims_le {s : Sys K V} (hs : SysInv s) {t : Int} {k : K} (h : s.Claims t k) :
    t ≤ s.lastTime := by
  rcases h with h | ⟨b, o, ho, -, h⟩ | ⟨g, h⟩
  · exact hs.times.byTime _ h
  · exact hs.times.staged b o ho t h
  · exact hs.times.calls g k t h

theorem Sys.unapplied_apply {s : Sys K V} {b : Nat} {t : Int} {k : K}
    (h : (s.apply b).Unapplied t k) : s.Unapplied t k :=
  h.imp (fun ⟨c, o, ho, hk⟩ => ⟨c, o, Sys.mem_batch_apply ho, hk⟩) id

theorem Sys.claims_apply {s : Sys K V} {b : Nat} {t : Int} {k : K} (h : (s.apply b).Claims t k) :
    s.Claims t k := by
  rcases h with h | h
  · exact (Store.byTime_apply_mem _ _ h).imp id fun h => .inl ⟨b, .setTime t k, h, rfl, rfl⟩
  · exact .inr (Sys.unapplied_apply h)

/-! ## The invariant of drained runs -/

/-- `t` is ahead of the consumer: above the cursor, every entry yielded, and every row the
iteration in progress has still to visit. -/
def WSys.Ahead (σ : WSys K V) (t : Int) : Prop :=
  cutoff σ.cursor < t ∧ (∀ e ∈ σ.yielded, e.modTime < t) ∧
    ∀ rows, σ.iter = some rows → ∀ r ∈ rows, r.t < t

/-- The entry of key `k` set at `t` is still due: above the cursor and every entry yielded, and
the iteration in progress visits its index row or only older ones. -/
def WSys.Due (σ : WSys K V) (t : Int) (k : K) : Prop :=
  cutoff σ.cursor < t ∧ (∀ e ∈ σ.yielded, e.modTime < t) ∧
    ∀ rows, σ.iter = some rows → ⟨t, k⟩ ∈ rows ∨ ∀ r ∈ rows, r.t < t

theorem WSys.Ahead.due {σ : WSys K V} {t : Int} (h : σ.Ahead t) (k : K) : σ.Due t k :=
  ⟨h.1, h.2.1, fun rows hr => .inr (h.2.2 rows hr)⟩

/-- The invariant of drained runs. -/
structure DInv (σ : WSys K V) : Prop where
  sys : SysInv σ.sys
  last : σ.sys.lastTime ≤ maxInt64
  cursor : 0 ≤ cutoff σ.cursor
  cursorLe : cutoff σ.cursor ≤ σ.sys.lastTime
  yieldedLe : ∀ e ∈ σ.yielded, e.modTime ≤ σ.sys.lastTime
  rowsLe : ∀ rows, σ.iter = some rows → ∀ r ∈ rows, r.t ≤ σ.sys.lastTime
  sorted : ∀ rows, σ.iter = some rows → rows.Pairwise (· < ·)
  /-- One `now()` per `Set`: no index time belongs to two keys. -/
  unique : ∀ t k k', σ.sys.Claims t k → σ.sys.Claims t k' → k = k'
  /-- A `Set` not yet applied is ahead of the consumer. -/
  ahead : ∀ t k, σ.sys.Unapplied t k → σ.Ahead t
  /-- Every entry has been yielded or is due. -/
  due : ∀ k t v, σ.sys.db.prim.get k = some (t, v) →
    ⟨t, σ.sys.db.kind, k, v⟩ ∈ σ.yielded ∨ σ.Due t k

theorem DInv.ahead_of_lt {σ : WSys K V} (hi : DInv σ) {t : Int} (ht : σ.sys.lastTime < t) :
    σ.Ahead t :=
  ⟨hi.cursorLe.trans_lt ht, fun e he => (hi.yieldedLe e he).trans_lt ht,
    fun rows hr r hm => (hi.rowsLe rows hr r hm).trans_lt ht⟩

/-! ## Each step keeps the invariant -/

theorem DInv.setNow {σ : WSys K V} (hi : DInv σ) {g b : Nat} {key : K} {val : V} {t : Int}
    (hs : SysInv { σ.sys.call g (.setNow b key val t) with lastTime := t })
    (hlt : σ.sys.lastTime < t) (hmax : t ≤ maxInt64) :
    DInv { σ with sys := { σ.sys.call g (.setNow b key val t) with lastTime := t } } := by
  have hnew : ∀ t' k, ({ σ.sys.call g (.setNow b key val t) with lastTime := t } : Sys K V).Unapplied t' k →
      σ.sys.Unapplied t' k ∨ t' = t ∧ k = key := by
    rintro t' k (h | ⟨g', h⟩)
    · exact .inl (.inl h)
    · rw [Sys.calls_call] at h
      split_ifs at h
      · simp only [Call.set?, Option.some.injEq, Prod.mk.injEq] at h
        exact .inr ⟨h.2.symm, h.1.symm⟩
      · exact .inl (.inr ⟨g', h⟩)
  have hclaims : ∀ t' k, ({ σ.sys.call g (.setNow b key val t) with lastTime := t } : Sys K V).Claims t' k →
      σ.sys.Claims t' k ∨ t' = t ∧ k = key := fun t' k h =>
    h.elim (fun h => .inl (.inl h)) fun h => (hnew t' k h).imp .inr id
  refine ⟨hs, hmax, hi.cursor, hi.cursorLe.trans hlt.le, fun e he => (hi.yieldedLe e he).trans hlt.le,
    fun rows hr r hm => (hi.rowsLe rows hr r hm).trans hlt.le, hi.sorted, fun t' k k' h h' => ?_,
    fun t' k h => ?_, hi.due⟩
  · rcases hclaims t' k h with h₁ | ⟨rfl, rfl⟩
    · rcases hclaims _ k' h' with h₂ | ⟨rfl, -⟩
      · exact hi.unique _ k k' h₁ h₂
      · exact absurd (hi.sys.claims_le h₁) (by omega)
    · rcases hclaims _ k' h' with h₂ | ⟨-, rfl⟩
      · exact absurd (hi.sys.claims_le h₂) (by omega)
      · rfl
  · rcases hnew t' k h with h | ⟨rfl, -⟩
    · exact hi.ahead t' k h
    · exact hi.ahead_of_lt hlt

theorem DInv.apply {σ : WSys K V} (hi : DInv σ) {b : Nat} (hs : SysInv (σ.sys.apply b)) :
    DInv { σ with sys := σ.sys.apply b } := by
  refine ⟨hs, hi.last, hi.cursor, hi.cursorLe, hi.yieldedLe, hi.rowsLe, hi.sorted,
    fun t k k' h h' => hi.unique t k k' (Sys.claims_apply h) (Sys.claims_apply h'),
    fun t k h => hi.ahead t k (Sys.unapplied_apply h), fun k t v h => ?_⟩
  show _ ∈ σ.yielded ∨ _
  rw [Sys.apply, Store.kind_apply]
  rcases Store.prim_apply_mem _ _ h with h | h
  · exact hi.due k t v h
  · exact .inr ((hi.ahead t k (.inl ⟨b, _, h, rfl, rfl⟩)).due k)

end Gaby.Timed
