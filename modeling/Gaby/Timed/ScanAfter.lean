import Gaby.Timed.Invariant
import Gaby.Timed.Watcher

/-!
# `ScanAfter` against `Scan`

When no index row is newer than its primary row (I2), `ScanAfter`'s loop never panics and yields,
row by row, the entry whose primary row carries the row's time (`afterRows_eq_filterMap`,
`rowEntry`). Every primary row has that index row (I1), and the index rows come in
`(time, key)` order, so below `2^63-1` `ScanAfter(db, kind, t, filter)` yields exactly the
entries of `Scan` newer than `t` whose key `filter` accepts, each once, in increasing
`(ModTime, key)` order (`scanAfter_eq_scan`). Its ModTimes increase strictly when no two keys
share one, as `now()` ensures; I1 and I2 alone allow two keys one time, and at `t = 2^63-1`
the start `int64(t+1)` wraps (`sharedTime_scanAfter`).
-/

namespace Gaby.Timed

variable {K V : Type} [LinearOrder K]

/-- What `ScanAfter` yields for the index row `r` when no row makes it panic: the entry, if
`filter` accepts the key and the primary row carries the row's time. -/
def rowEntry (db : Store K V) (filter : Option (K → Bool)) (r : TimeKey K) : Option (Entry K V) :=
  if filter.any (fun f => !f r.key) then none else
  match db.prim.get r.key with
  | some (t2, val) => if t2 = r.t then some ⟨r.t, db.kind, r.key, val⟩ else none
  | none => none

theorem afterRows_eq_filterMap (db : Store K V) (filter : Option (K → Bool)) :
    ∀ rows : List (TimeKey K), (∀ r ∈ rows, ∀ t2 v, db.prim.get r.key = some (t2, v) → r.t ≤ t2) →
      (afterRows db filter rows).1 = rows.filterMap (rowEntry db filter)
  | [], _ => rfl
  | r :: rows, h => by
    have ih := afterRows_eq_filterMap db filter rows fun r' hr => h r' (.tail _ hr)
    rw [List.filterMap_cons, rowEntry]
    unfold afterRows
    split_ifs with hf
    · exact ih
    rcases hg : db.prim.get r.key with _ | ⟨t2, v⟩
    · exact ih
    rcases lt_or_eq_of_le (h r (.head _) t2 v hg) with hlt | rfl
    · simp only [hlt, ne_of_gt hlt, if_true, if_false]
      exact ih
    · simp only [lt_irrefl, if_false, if_true, ih]

theorem afterRows_modTime_le (db : Store K V) (filter : Option (K → Bool)) :
    ∀ rows : List (TimeKey K), rows.Pairwise (· < ·) →
      (afterRows db filter rows).1.Pairwise (fun e e' => e.modTime ≤ e'.modTime)
  | [], _ => .nil
  | r :: rows, h => by
    have ih := afterRows_modTime_le db filter rows (List.Pairwise.of_cons h)
    unfold afterRows
    split_ifs
    · exact ih
    split
    · exact ih
    · split_ifs
      · exact ih
      · exact .nil
      · refine .cons (fun e he => ?_) ih
        obtain ⟨r', hr', ht, -⟩ := mem_afterRows db filter rows he
        rcases TimeKey.lt_iff.1 (List.rel_of_pairwise_cons h hr') with hlt | ⟨heq, -⟩
        · exact ht ▸ hlt.le
        · exact ht ▸ heq.le

theorem scanAfter_modTime_le (db : Store K V) (t : Int) (filter : Option (K → Bool)) :
    (scanAfter db t filter).1.Pairwise (fun e e' => e.modTime ≤ e'.modTime) :=
  afterRows_modTime_le db filter _ (afterIndex_sorted db t)

theorem rowEntry_eq_some {db : Store K V} {filter : Option (K → Bool)} {r : TimeKey K}
    {e : Entry K V} :
    rowEntry db filter r = some e ↔ filter.all (fun f => f r.key) = true ∧
      ∃ v, db.prim.get r.key = some (r.t, v) ∧ e = ⟨r.t, db.kind, r.key, v⟩ := by
  unfold rowEntry
  have hf : (filter.any fun f => !f r.key) = !(filter.all fun f => f r.key) := by
    cases filter <;> simp
  rw [hf]
  rcases hg : db.prim.get r.key with _ | ⟨t2, v⟩ <;>
    cases (filter.all fun f => f r.key) <;> simp
  by_cases ht : t2 = r.t
  · simp [ht, eq_comm]
  · simp [ht]

theorem mem_scan (db : Store K V) (start stop : K) (e : Entry K V) :
    e ∈ scan db start stop ↔
      e.kind = db.kind ∧ (start ≤ e.key ∧ e.key ≤ stop) ∧ db.prim.get e.key = some (e.modTime, e.val) := by
  unfold scan OMap.scanRange
  constructor
  · rintro h
    obtain ⟨⟨k, t, v⟩, hm, rfl⟩ := List.mem_map.1 h
    exact ⟨rfl, (OMap.mem_scan _ _).1 hm⟩
  · rintro ⟨hk, hr, hg⟩
    exact List.mem_map.2 ⟨(e.key, e.modTime, e.val), (OMap.mem_scan _ _).2 ⟨hr, hg⟩,
      by cases e; cases hk; rfl⟩

theorem scanAfter_eq_filterMap {db : Store K V} (hi : Inv db) (t : Int) (filter : Option (K → Bool)) :
    (scanAfter db t filter).1 = (afterIndex db t).filterMap (rowEntry db filter) :=
  afterRows_eq_filterMap db filter _ fun r hr t2 v hg =>
    hi.notAhead r.t r.key ((mem_afterIndex db t r).1 hr).2 t2 v hg

theorem current_of_mem_scanAfter {db : Store K V} (hi : Inv db) {t : Int}
    {filter : Option (K → Bool)} {e : Entry K V} (he : e ∈ (scanAfter db t filter).1) :
    e.kind = db.kind ∧ db.prim.get e.key = some (e.modTime, e.val) ∧
      filter.all (fun f => f e.key) = true := by
  rw [scanAfter_eq_filterMap hi, List.mem_filterMap] at he
  obtain ⟨r, -, he⟩ := he
  obtain ⟨hf, v, hg, rfl⟩ := rowEntry_eq_some.1 he
  exact ⟨rfl, hg, hf⟩

theorem mem_scanAfter_int64 {db : Store K V} (hi : Inv db) (t : Int) (filter : Option (K → Bool))
    (e : Entry K V) :
    e ∈ (scanAfter db t filter).1 ↔ e.kind = db.kind ∧
      db.prim.get e.key = some (e.modTime, e.val) ∧ int64 (t + 1) ≤ e.modTime ∧
        filter.all (fun f => f e.key) = true := by
  rw [scanAfter_eq_filterMap hi, List.mem_filterMap]
  constructor
  · rintro ⟨r, hr, he⟩
    obtain ⟨hf, v, hg, rfl⟩ := rowEntry_eq_some.1 he
    exact ⟨rfl, hg, ((mem_afterIndex db t r).1 hr).1, hf⟩
  · rintro ⟨hk, hg, hlt, hf⟩
    refine ⟨⟨e.modTime, e.key⟩, (mem_afterIndex db t _).2 ⟨hlt, hi.indexed _ _ _ hg⟩,
      rowEntry_eq_some.2 ⟨hf, e.val, hg, by cases e; cases hk; rfl⟩⟩

theorem mem_scanAfter {db : Store K V} (hi : Inv db) {t : Int} (h0 : -2 ^ 63 ≤ t)
    (ht : t < maxInt64) (filter : Option (K → Bool)) (e : Entry K V) :
    e ∈ (scanAfter db t filter).1 ↔ e.kind = db.kind ∧
      db.prim.get e.key = some (e.modTime, e.val) ∧ t < e.modTime ∧
        filter.all (fun f => f e.key) = true := by
  unfold maxInt64 at ht
  rw [mem_scanAfter_int64 hi, int64_of_lt (by omega) (by omega), Int.add_one_le_iff]

theorem scanAfter_sorted {db : Store K V} (hi : Inv db) (t : Int) (filter : Option (K → Bool)) :
    (scanAfter db t filter).1.Pairwise
      (fun e e' => (⟨e.modTime, e.key⟩ : TimeKey K) < ⟨e'.modTime, e'.key⟩) := by
  rw [scanAfter_eq_filterMap hi, List.pairwise_filterMap]
  refine (afterIndex_sorted db t).imp fun {r r'} hlt e he e' he' => ?_
  obtain ⟨-, v, -, rfl⟩ := rowEntry_eq_some.1 (Option.mem_def.1 he)
  obtain ⟨-, v', -, rfl⟩ := rowEntry_eq_some.1 (Option.mem_def.1 he')
  exact hlt

theorem scanAfter_modTime_lt {db : Store K V} (hi : Inv db)
    (hu : ∀ k k' t' v v', db.prim.get k = some (t', v) → db.prim.get k' = some (t', v') → k = k')
    (t : Int) (filter : Option (K → Bool)) :
    (scanAfter db t filter).1.Pairwise (fun e e' => e.modTime < e'.modTime) := by
  refine (scanAfter_sorted hi t filter).imp_of_mem fun {e e'} he he' hlt => ?_
  rcases TimeKey.lt_iff.1 hlt with h | ⟨heq, hk⟩
  · exact h
  · have hg := (current_of_mem_scanAfter hi he).2.1
    rw [show e.modTime = e'.modTime from heq] at hg
    exact absurd (hu _ _ _ _ _ hg (current_of_mem_scanAfter hi he').2.1) (ne_of_lt hk)

/-- Under the invariant, below `2^63-1`, `ScanAfter` yields the entries of `Scan` newer than
`t` that `filter` accepts, in increasing `(ModTime, key)` order, so each once; in strictly
increasing ModTime order when no two keys share a time; and never panics. -/
theorem scanAfter_eq_scan {db : Store K V} (hi : Inv db) {t : Int} (h0 : -2 ^ 63 ≤ t)
    (ht : t < maxInt64) (filter : Option (K → Bool)) :
    (∀ (e : Entry K V) (start stop : K),
      (e ∈ (scanAfter db t filter).1 ∧ start ≤ e.key ∧ e.key ≤ stop) ↔
        (e ∈ scan db start stop ∧ t < e.modTime ∧ filter.all (fun f => f e.key) = true)) ∧
    (scanAfter db t filter).1.Pairwise
      (fun e e' => (⟨e.modTime, e.key⟩ : TimeKey K) < ⟨e'.modTime, e'.key⟩) ∧
    (scanAfter db t filter).1.Nodup ∧
    ((∀ k k' t' v v', db.prim.get k = some (t', v) → db.prim.get k' = some (t', v') → k = k') →
      (scanAfter db t filter).1.Pairwise (fun e e' => e.modTime < e'.modTime)) ∧
    (scanAfter db t filter).2 = none := by
  refine ⟨fun e start stop => ?_, scanAfter_sorted hi t filter,
    (scanAfter_sorted hi t filter).imp fun h => by rintro rfl; exact lt_irrefl _ h,
    fun hu => scanAfter_modTime_lt hi hu t filter, scanAfter_no_panic hi.notAhead t filter⟩
  rw [mem_scanAfter hi h0 ht, mem_scan]
  tauto

/-- Key `1` set at `5` and again at `6` in one batch, which leaves the stale index row `(5, 1)`,
then key `2` set at `7`. -/
def staleStore : Store Nat Nat :=
  (((⟨"kind", .empty, .empty⟩ : Store Nat Nat).apply (Block.set 1 none 5 10).ops).apply
    (Block.set 1 none 6 11).ops).apply (Block.set 2 none 7 20).ops

theorem inv_staleStore : Inv staleStore := by
  refine Block.inv_apply_block (Block.inv_apply_block (Block.inv_apply_block (inv_empty _) ?_) ?_) ?_
  all_goals intro t' h; simp at h
  omega

/-- `ScanAfter(0)` skips the stale row and yields key `1` once, at `6`. -/
theorem staleStore_scanAfter :
    (scanAfter staleStore 0 none).1 = [⟨6, "kind", 1, 11⟩, ⟨7, "kind", 2, 20⟩] ∧
    ((∀ (e : Entry Nat Nat) (start stop : Nat),
      (e ∈ (scanAfter staleStore 0 none).1 ∧ start ≤ e.key ∧ e.key ≤ stop) ↔
        (e ∈ scan staleStore start stop ∧ 0 < e.modTime ∧ (none : Option (Nat → Bool)).all (fun f => f e.key) = true)) ∧
    (scanAfter staleStore 0 none).1.Pairwise
      (fun e e' => (⟨e.modTime, e.key⟩ : TimeKey Nat) < ⟨e'.modTime, e'.key⟩) ∧
    (scanAfter staleStore 0 none).1.Nodup ∧
    ((∀ k k' t' v v', staleStore.prim.get k = some (t', v) →
      staleStore.prim.get k' = some (t', v') → k = k') →
      (scanAfter staleStore 0 none).1.Pairwise (fun e e' => e.modTime < e'.modTime)) ∧
    (scanAfter staleStore 0 none).2 = none) :=
  ⟨by decide, scanAfter_eq_scan inv_staleStore (by decide) (by decide) none⟩

/-- Keys `1` and `2` set at the same DBTime `5`: I1 and I2 hold. -/
def sharedTimeStore : Store Nat Nat :=
  ((⟨"kind", .empty, .empty⟩ : Store Nat Nat).apply (Block.set 1 none 5 10).ops).apply
    (Block.set 2 none 5 20).ops

/-- Under I1 and I2 alone `ScanAfter` yields two entries with one ModTime, and at
`t = 2^63-1` it yields entries that are not newer than `t`. -/
theorem sharedTime_scanAfter : Inv sharedTimeStore ∧
    (scanAfter sharedTimeStore 0 none).1.map Entry.modTime = [5, 5] ∧
    (scanAfter sharedTimeStore maxInt64 none).1.map Entry.modTime = [5, 5] :=
  ⟨Block.inv_apply_block (Block.inv_apply_block (inv_empty _) (by intro t' h; simp at h))
    (by intro t' h; simp at h), by decide, by decide⟩

end Gaby.Timed
