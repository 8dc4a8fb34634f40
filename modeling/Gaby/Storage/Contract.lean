import Gaby.Storage.OMap

/-!
# The `storage.DB` contract and its implementations

The contract (`internal/storage`'s `DB` and `Batch` doc comments) is an ordered map whose `Scan`
and `DeleteRange` include `end`, with batches whose `Apply` atomically commits exactly the
writes staged on the batch since its previous `Apply` (`Contract`). Two implementations:

* `MemDB` (`internal/storage/db_test.go`): an `omap` map, whose `memBatch` keeps every write
  ever staged and runs them all at each `Apply`, and whose `MaybeApply` never applies.
* the Pebble adapter (`internal/pebble/pebble.go`) over a sorted map whose `DeleteRange` is
  half-open and whose iterator starts at `LowerBound` (`Pebble`): `DeleteRange(start, end)` is
  Pebble's `DeleteRange(start, end)` then `Delete(end)`, and `Scan` stops at the first key past
  `end`; its batch resets at `Apply`.

A call sequence is run by each (`Contract.run`, `MemDB.run`, `Pebble.run`). Both implementations
leave the contract: `memBatch` replays a reused batch's old writes, and a range with
`start > end` makes Pebble delete `end` (`storage_impls_diverge`). Pebble follows the contract on
every sequence whose ranges have `start ≤ end` (`pebble_refines`): its half-open range and the
extra `Delete(end)` together delete the closed range (`deleteHalfOpen_delete`), and its iterator
stopped past `end` scans the closed range (`Pebble.scan_eq`).
-/

namespace Gaby.Storage

/-- A write a `Batch` stages. -/
inductive Write (K V : Type)
  | set (key : K) (val : V)
  | delete (key : K)
  | deleteRange (start stop : K)
deriving DecidableEq, Repr

/-- A call on a `storage.DB` or on one of its batches. -/
inductive Call (K V : Type)
  | get (key : K)
  | set (key : K) (val : V)
  | delete (key : K)
  | deleteRange (start stop : K)
  /-- `Scan(start, end)`, whose consumer stops after `n` entries. -/
  | scan (start stop : K) (n : Nat)
  /-- `b.Set`, `b.Delete` or `b.DeleteRange` on batch `b`. -/
  | batch (b : Nat) (w : Write K V)
  | maybeApply (b : Nat)
  | apply (b : Nat)
deriving DecidableEq, Repr

/-- What a call returns. -/
inductive Reply (K V : Type)
  | done
  | get (val : Option V)
  | scan (entries : List (K × V))
  | maybeApply (applied : Bool)
deriving DecidableEq, Repr

variable {K V : Type} [LinearOrder K]

/-! ## The contract -/

/-- A write, as the contract commits it. -/
def Write.apply : Write K V → OMap K V → OMap K V
  | .set k v, m => m.set k v
  | .delete k, m => m.delete k
  | .deleteRange lo hi, m => m.deleteRange lo hi

/-- Commit writes in order. -/
def applyAll (ws : List (Write K V)) (m : OMap K V) : OMap K V :=
  ws.foldl (fun m w => w.apply m) m

/-- The contract's state: the map, and each batch's writes since its last `Apply`. -/
structure Contract (K V : Type) [LinearOrder K] where
  db : OMap K V
  pending : Nat → List (Write K V)

namespace Contract

/-- `b.Apply()`. -/
def commit (c : Contract K V) (b : Nat) : Contract K V :=
  ⟨applyAll (c.pending b) c.db, Function.update c.pending b []⟩

/-- One call. `MaybeApply` may apply or not; `full` is the implementation's choice. -/
def call (full : Nat → List (Write K V) → Bool) (c : Contract K V) :
    Call K V → Reply K V × Contract K V
  | .get k => (.get (c.db.get k), c)
  | .set k v => (.done, { c with db := c.db.set k v })
  | .delete k => (.done, { c with db := c.db.delete k })
  | .deleteRange lo hi => (.done, { c with db := c.db.deleteRange lo hi })
  | .scan lo hi n => (.scan ((c.db.scanRange lo hi).take n), c)
  | .batch b w => (.done, { c with pending := Function.update c.pending b (c.pending b ++ [w]) })
  | .maybeApply b => if full b (c.pending b) then (.maybeApply true, c.commit b)
      else (.maybeApply false, c)
  | .apply b => (.done, c.commit b)

/-- A call sequence: the replies and the final state. -/
def run (full : Nat → List (Write K V) → Bool) : Contract K V → List (Call K V) →
    List (Reply K V) × Contract K V
  | c, [] => ([], c)
  | c, x :: xs =>
    let r := c.call full x
    let rest := run full r.2 xs
    (r.1 :: rest.1, rest.2)

end Contract

/-! ## `MemDB` -/

/-- `memDB` and its `memBatch`es: every write ever staged on each, in order. -/
structure MemDB (K V : Type) [LinearOrder K] where
  data : OMap K V
  ops : Nat → List (Write K V)

namespace MemDB

/-- One call. `memBatch.Apply` runs `b.ops` and leaves them; `MaybeApply` returns `false`. -/
def call (m : MemDB K V) : Call K V → Reply K V × MemDB K V
  | .get k => (.get (m.data.get k), m)
  | .set k v => (.done, { m with data := m.data.set k v })
  | .delete k => (.done, { m with data := m.data.delete k })
  | .deleteRange lo hi => (.done, { m with data := m.data.deleteRange lo hi })
  | .scan lo hi n => (.scan ((m.data.scanRange lo hi).take n), m)
  | .batch b w => (.done, { m with ops := Function.update m.ops b (m.ops b ++ [w]) })
  | .maybeApply _ => (.maybeApply false, m)
  | .apply b => (.done, { m with data := applyAll (m.ops b) m.data })

/-- A call sequence. -/
def run : MemDB K V → List (Call K V) → List (Reply K V) × MemDB K V
  | m, [] => ([], m)
  | m, x :: xs =>
    let r := m.call x
    let rest := run r.2 xs
    (r.1 :: rest.1, rest.2)

end MemDB

/-! ## Pebble -/

/-- Pebble's `DeleteRange(start, end)`: the keys with `start ≤ key < end`. -/
def deleteHalfOpen (m : OMap K V) (lo hi : K) : OMap K V :=
  ⟨m.entries.filter (fun e => ¬(lo ≤ e.1 ∧ e.1 < hi)), m.sorted.filter _⟩

/-- A write in a Pebble batch. -/
inductive PebbleOp (K V : Type)
  | set (key : K) (val : V)
  | delete (key : K)
  /-- Half-open. -/
  | deleteRange (start stop : K)

/-- Pebble applying one of its writes. -/
def PebbleOp.apply : PebbleOp K V → OMap K V → OMap K V
  | .set k v, m => m.set k v
  | .delete k, m => m.delete k
  | .deleteRange lo hi, m => deleteHalfOpen m lo hi

/-- The Pebble writes the adapter stages for a `Batch` write: `b.DeleteRange(start, end)` is
`b.b.DeleteRange(start, end)` then `b.b.Delete(end)`. -/
def Write.toPebble : Write K V → List (PebbleOp K V)
  | .set k v => [.set k v]
  | .delete k => [.delete k]
  | .deleteRange lo hi => [.deleteRange lo hi, .delete hi]

/-- The adapter's `db` and its batches' Pebble batches. -/
structure Pebble (K V : Type) [LinearOrder K] where
  data : OMap K V
  batches : Nat → List (PebbleOp K V)

namespace Pebble

/-- `b.Apply()`: `p.Apply(b.b)`, then `b.b.Reset()`. -/
def commit (p : Pebble K V) (b : Nat) : Pebble K V :=
  ⟨(p.batches b).foldl (fun m o => o.apply m) p.data, Function.update p.batches b []⟩

/-- `Scan(start, end)`: an iterator from `LowerBound: start`, stopped at the first key past
`end`. -/
def scan (m : OMap K V) (lo hi : K) : List (K × V) :=
  (m.scan (lo ≤ ·)).takeWhile (fun e => e.1 ≤ hi)

/-- One call. `MaybeApply` applies when `b.b.Len() > 100e6`, which `full` decides. -/
def call (full : Nat → List (PebbleOp K V) → Bool) (p : Pebble K V) :
    Call K V → Reply K V × Pebble K V
  | .get k => (.get (p.data.get k), p)
  | .set k v => (.done, { p with data := p.data.set k v })
  | .delete k => (.done, { p with data := p.data.delete k })
  | .deleteRange lo hi => (.done, { p with data := (deleteHalfOpen p.data lo hi).delete hi })
  | .scan lo hi n => (.scan ((scan p.data lo hi).take n), p)
  | .batch b w => (.done, { p with batches := Function.update p.batches b (p.batches b ++ w.toPebble) })
  | .maybeApply b => if full b (p.batches b) then (.maybeApply true, p.commit b)
      else (.maybeApply false, p)
  | .apply b => (.done, p.commit b)

/-- A call sequence. -/
def run (full : Nat → List (PebbleOp K V) → Bool) : Pebble K V → List (Call K V) →
    List (Reply K V) × Pebble K V
  | p, [] => ([], p)
  | p, x :: xs =>
    let r := p.call full x
    let rest := run full r.2 xs
    (r.1 :: rest.1, rest.2)

end Pebble

/-! ## Pebble refines the contract on ordered ranges -/

/-- A range with `start ≤ end`, where the write or call has one. -/
def Write.Ordered : Write K V → Prop
  | .deleteRange lo hi => lo ≤ hi
  | _ => True

/-- A range with `start ≤ end`, where the call has one. -/
def Call.Ordered : Call K V → Prop
  | .deleteRange lo hi => lo ≤ hi
  | .batch _ w => w.Ordered
  | _ => True

/-- The Pebble state that stands for a contract state: the same map, and each batch holding the
Pebble writes of its pending writes, whose ranges are ordered. -/
structure Pebble.Abs (p : Pebble K V) (c : Contract K V) : Prop where
  data : p.data = c.db
  batches : ∀ b, p.batches b = (c.pending b).flatMap Write.toPebble
  ordered : ∀ b, ∀ w ∈ c.pending b, w.Ordered

theorem OMap.ext' {m m' : OMap K V} (h : m.entries = m'.entries) : m = m' := by
  cases m; cases m'; cases h; rfl

theorem deleteHalfOpen_delete (m : OMap K V) {lo hi : K} (h : lo ≤ hi) :
    (deleteHalfOpen m lo hi).delete hi = m.deleteRange lo hi := by
  refine OMap.ext' ?_
  simp only [OMap.delete, OMap.deleteRange, deleteHalfOpen, List.filter_filter]
  congr 1
  funext e
  by_cases he : e.1 = hi
  · simp [he, h]
  · simp only [ne_eq, he, not_false_eq_true, decide_True, Bool.true_and, decide_eq_decide]
    exact not_congr (and_congr_right fun _ => lt_iff_le_and_ne.trans (and_iff_left he))

theorem takeWhile_filter_ge :
    ∀ {l : List (K × V)}, l.Pairwise (fun a b => a.1 < b.1) → ∀ lo hi : K,
      (l.filter fun e => lo ≤ e.1).takeWhile (fun e => e.1 ≤ hi) =
        l.filter fun e => lo ≤ e.1 ∧ e.1 ≤ hi
  | [], _, _, _ => rfl
  | a :: l, hl, lo, hi => by
    have ih := takeWhile_filter_ge (List.Pairwise.of_cons hl) lo hi
    by_cases hlo : lo ≤ a.1
    · by_cases hhi : a.1 ≤ hi
      · simp [List.filter_cons, hlo, hhi, ih]
      · have hgt : ∀ e ∈ l, hi < e.1 := fun e he =>
          lt_trans (not_le.1 hhi) (List.rel_of_pairwise_cons hl he)
        simp [List.filter_cons, hlo, hhi]
        exact fun k v hm _ => hgt (k, v) hm
    · simp [List.filter_cons, hlo, ih]

theorem Pebble.scan_eq (m : OMap K V) (lo hi : K) : Pebble.scan m lo hi = m.scanRange lo hi :=
  takeWhile_filter_ge m.sorted lo hi

theorem Write.toPebble_apply {w : Write K V} (hw : w.Ordered) (m : OMap K V) :
    w.toPebble.foldl (fun m o => o.apply m) m = w.apply m := by
  cases w with
  | set k v => rfl
  | delete k => rfl
  | deleteRange lo hi => exact deleteHalfOpen_delete m hw

theorem toPebble_applyAll :
    ∀ {ws : List (Write K V)}, (∀ w ∈ ws, w.Ordered) → ∀ m : OMap K V,
      (ws.flatMap Write.toPebble).foldl (fun m o => o.apply m) m = applyAll ws m
  | [], _, _ => rfl
  | w :: ws, h, m => by
    rw [List.flatMap_cons, List.foldl_append, Write.toPebble_apply (h w (.head _))]
    exact toPebble_applyAll (fun w' hw' => h w' (.tail _ hw')) _

/-- The contract's `MaybeApply` decides as Pebble does, on the batch's Pebble writes. -/
def pebbleFull (full : Nat → List (PebbleOp K V) → Bool) (b : Nat) (ws : List (Write K V)) :
    Bool :=
  full b (ws.flatMap Write.toPebble)

theorem Pebble.Abs.commit {p : Pebble K V} {c : Contract K V} (h : p.Abs c) (b : Nat) :
    (p.commit b).Abs (c.commit b) := by
  refine ⟨?_, fun b' => ?_, fun b' w hw => ?_⟩
  · simp only [Pebble.commit, Contract.commit, h.batches b, h.data]
    exact toPebble_applyAll (h.ordered b) _
  · by_cases hb : b' = b
    · subst hb; simp [Pebble.commit, Contract.commit]
    · simp [Pebble.commit, Contract.commit, hb, h.batches b']
  · by_cases hb : b' = b
    · subst hb; simp [Contract.commit] at hw
    · simp only [Contract.commit, Function.update_noteq hb] at hw
      exact h.ordered b' w hw

theorem Pebble.Abs.call {p : Pebble K V} {c : Contract K V} (h : p.Abs c)
    (full : Nat → List (PebbleOp K V) → Bool) {x : Call K V} (hx : x.Ordered) :
    (p.call full x).1 = (c.call (pebbleFull full) x).1 ∧
      (p.call full x).2.Abs (c.call (pebbleFull full) x).2 := by
  cases x with
  | get k => exact ⟨by simp [Pebble.call, Contract.call, h.data], h⟩
  | set k v => exact ⟨rfl, ⟨by simp [Pebble.call, Contract.call, h.data], h.batches, h.ordered⟩⟩
  | delete k => exact ⟨rfl, ⟨by simp [Pebble.call, Contract.call, h.data], h.batches, h.ordered⟩⟩
  | deleteRange lo hi =>
    exact ⟨rfl, ⟨by simp [Pebble.call, Contract.call, h.data, deleteHalfOpen_delete _ hx],
      h.batches, h.ordered⟩⟩
  | scan lo hi n => exact ⟨by simp [Pebble.call, Contract.call, h.data, Pebble.scan_eq], h⟩
  | batch b w =>
    refine ⟨rfl, ⟨h.data, fun b' => ?_, fun b' w' hw' => ?_⟩⟩
    · by_cases hb : b' = b
      · subst hb; simp [Pebble.call, Contract.call, h.batches]
      · simp [Pebble.call, Contract.call, hb, h.batches b']
    · by_cases hb : b' = b
      · subst hb
        simp only [Contract.call, Function.update_same, List.mem_append, List.mem_singleton] at hw'
        rcases hw' with hw' | rfl
        · exact h.ordered b' w' hw'
        · exact hx
      · simp only [Contract.call, Function.update_noteq hb] at hw'
        exact h.ordered b' w' hw'
  | maybeApply b =>
    have hf : full b (p.batches b) = pebbleFull full b (c.pending b) := by
      rw [h.batches b]; rfl
    simp only [Pebble.call, Contract.call, hf]
    split_ifs
    · exact ⟨rfl, h.commit b⟩
    · exact ⟨rfl, h⟩
  | apply b => exact ⟨rfl, h.commit b⟩

theorem pebble_refines (full : Nat → List (PebbleOp K V) → Bool) :
    ∀ (calls : List (Call K V)) {p : Pebble K V} {c : Contract K V}, p.Abs c →
      (∀ x ∈ calls, x.Ordered) →
      (Pebble.run full p calls).1 = (Contract.run (pebbleFull full) c calls).1 ∧
        (Pebble.run full p calls).2.Abs (Contract.run (pebbleFull full) c calls).2
  | [], _, _, h, _ => ⟨rfl, h⟩
  | x :: xs, _, _, h, hx => by
    obtain ⟨h1, h2⟩ := h.call full (hx x (.head _))
    obtain ⟨ih1, ih2⟩ := pebble_refines full xs h2 fun y hy => hx y (.tail _ hy)
    exact ⟨by simp only [Pebble.run, Contract.run, h1, ih1], ih2⟩

/-! ## Divergence -/

/-- The empty contract, `MemDB` and Pebble database. -/
def Contract.empty : Contract K V := ⟨.empty, fun _ => []⟩
def MemDB.empty : MemDB K V := ⟨.empty, fun _ => []⟩
def Pebble.empty : Pebble K V := ⟨.empty, fun _ => []⟩

/-- Batch `0` sets key `1` to `10` and is applied; a direct `Set` sets `1` to `20`; the batch is
applied again. -/
def reuseCalls : List (Call Nat Nat) := [.batch 0 (.set 1 10), .apply 0, .set 1 20, .apply 0, .get 1]

/-- Key `5` is set, then `DeleteRange(7, 5)`: a range with `start > end`. -/
def backwardRangeCalls : List (Call Nat Nat) := [.set 5 50, .deleteRange 7 5, .get 5]

/-- On `reuseCalls`, `MemDB`'s second `Apply` runs the first `Set` again, and `Get(1)` returns
`10` where the contract returns `20`. On `backwardRangeCalls`, Pebble deletes key `5`, and
`Get(5)` finds nothing where the contract, deleting no key, finds `50`. -/
theorem storage_impls_diverge :
    (Contract.run (fun _ _ => false) .empty reuseCalls).1.getLast? = some (.get (some 20)) ∧
    (MemDB.run .empty reuseCalls).1.getLast? = some (.get (some 10)) ∧
    (Contract.run (fun _ _ => false) .empty backwardRangeCalls).1.getLast? = some (.get (some 50)) ∧
    (Pebble.run (fun _ _ => false) .empty backwardRangeCalls).1.getLast? = some (.get none) := by
  decide

end Gaby.Storage
