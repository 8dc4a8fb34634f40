import Gaby.Timed.Store

/-!
# Watchers

A `timed.Watcher` is a named cursor over one kind's entries. Its state is one database row,
`(kind+"Watcher", name) → t`, the latest DBTime marked old; the model keeps that row as an
`Option Int`. `cutoff` reads it (`0` when absent), `MarkOld(t)` writes `t` unless the cursor is
already at or past it, `Restart` deletes the row, and an iteration of `Recent` yields what
`ScanAfter(db, kind, cutoff(), nil)` yields (`recent`).

The cursor only moves forward (`cutoff_markOld`: `MarkOld` takes the maximum). While the cursor
is below `2^63-1`, the index rows an iteration scans are exactly those newer than the cursor
(`mem_afterIndex_of_lt`), so it yields only entries newer than the cursor
(`recent_modTime_gt`). At `2^63-1` the start key `int64(t+1)` wraps to `-2^63`, and the next
iteration yields every entry again (`recent_after_markOld_max`).
-/

namespace Gaby.Timed

variable {K V : Type} [LinearOrder K]

/-- `cutoff()`: the time in the watcher's row, `0` when the row is absent. -/
def cutoff (row : Option Int) : Int := row.getD 0

/-- `MarkOld(t)`: write `t` to the watcher's row unless `t <= cutoff()`. -/
def markOld (row : Option Int) (t : Int) : Option Int :=
  if t ≤ cutoff row then row else some t

/-- `Restart()`: delete the watcher's row. -/
def restart (_ : Option Int) : Option Int := none

/-- One whole iteration of `Recent()`: `ScanAfter(db, kind, cutoff(), nil)`. -/
def recent (db : Store K V) (row : Option Int) : List (Entry K V) × Option String :=
  scanAfter db (cutoff row) none

@[simp] theorem cutoff_none : cutoff none = 0 := rfl

@[simp] theorem cutoff_restart (row : Option Int) : cutoff (restart row) = 0 := rfl

@[simp] theorem cutoff_markOld (row : Option Int) (t : Int) :
    cutoff (markOld row t) = max (cutoff row) t := by
  unfold markOld
  split_ifs with h
  · exact (max_eq_left h).symm
  · exact (max_eq_right (le_of_not_le h)).symm

theorem cutoff_le_markOld (row : Option Int) (t : Int) : cutoff row ≤ cutoff (markOld row t) := by
  simp

/-! ## The rows an iteration scans -/

theorem int64_succ {c : Int} (h0 : 0 ≤ c) (h : c < maxInt64) : int64 (c + 1) = c + 1 :=
  int64_of_lt (by omega) (by unfold maxInt64 at h; omega)

theorem mem_afterIndex (db : Store K V) (t : Int) (r : TimeKey K) :
    r ∈ afterIndex db t ↔ int64 (t + 1) ≤ r.t ∧ db.byTime.get r = some () := by
  unfold afterIndex
  constructor
  · rintro h
    obtain ⟨⟨r', u⟩, hm, rfl⟩ := List.mem_map.1 h
    exact (OMap.mem_scan _ _).1 hm
  · intro h
    exact List.mem_map.2 ⟨(r, ()), (OMap.mem_scan _ _).2 h, rfl⟩

theorem mem_afterIndex_of_lt (db : Store K V) {c : Int} (h0 : 0 ≤ c) (h : c < maxInt64)
    (r : TimeKey K) : r ∈ afterIndex db c ↔ c < r.t ∧ db.byTime.get r = some () := by
  rw [mem_afterIndex, int64_succ h0 h, Int.add_one_le_iff]

theorem afterIndex_sorted (db : Store K V) (t : Int) : (afterIndex db t).Pairwise (· < ·) :=
  List.pairwise_map.2 (db.byTime.scan_sorted _)

theorem mem_afterRows (db : Store K V) (filter : Option (K → Bool)) {e : Entry K V} :
    ∀ rows : List (TimeKey K), e ∈ (afterRows db filter rows).1 →
      ∃ r ∈ rows, e.modTime = r.t ∧ e.key = r.key
  | [], h => by simp [afterRows] at h
  | r :: rows, h => by
    have ih : e ∈ (afterRows db filter rows).1 → ∃ r' ∈ r :: rows, e.modTime = r'.t ∧ e.key = r'.key :=
      fun h => (mem_afterRows db filter rows h).imp fun r' hr => ⟨.tail _ hr.1, hr.2⟩
    unfold afterRows at h
    split_ifs at h
    · exact ih h
    split at h
    · exact ih h
    · split_ifs at h
      · exact ih h
      · simp at h
      · rcases List.mem_cons.1 h with rfl | h
        · exact ⟨r, .head _, rfl, rfl⟩
        · exact ih h

theorem recent_modTime_gt (db : Store K V) {row : Option Int} (h0 : 0 ≤ cutoff row)
    (h : cutoff row < maxInt64) {e : Entry K V} (he : e ∈ (recent db row).1) :
    cutoff row < e.modTime := by
  obtain ⟨r, hr, ht, -⟩ := mem_afterRows db none _ he
  exact ht ▸ ((mem_afterIndex_of_lt db h0 h r).1 hr).1

/-- The store holding one entry: key `1`, set at DBTime `5` to `10`. -/
def oneEntryStore : Store Nat Nat :=
  (⟨"kind", .empty, .empty⟩ : Store Nat Nat).apply [.setTime 5 1, .set 1 5 10]

/-- `MarkOld(2^63-1)` stores the cursor `2^63-1`, and the next iteration yields the entry set at
`5` again: `ScanAfter`'s start `int64(t+1)` is `-2^63`. -/
theorem recent_after_markOld_max :
    cutoff (markOld none maxInt64) = maxInt64 ∧
      (recent oneEntryStore (markOld none maxInt64)).1 = [⟨5, "kind", 1, 10⟩] := by
  decide

end Gaby.Timed
