import Gaby.Storage.OMap
import Mathlib.Data.Prod.Lex

/-!
# Timed storage

The package `timed` (`internal/storage/test.go`) keeps each logical entry `(kind, key) → val`
as two database rows: the primary row `(kind, key) → (modtime, val)` and the index row
`(kind+"ByTime", modtime, key) → ()`. A `Store` holds one kind's rows; since `ordered.Encode`
is prefix-free, the rows of distinct kinds never meet, and every operation here reads and
writes one kind only.

`Set`, `Delete` and `DeleteRange` do not write: they read the database and add writes (`Op`)
to a batch, which `Store.apply` commits in order. `ScanAfter` walks the index rows after a
time and looks each primary row up; it skips a stale index row and calls `db.Panic` when an
index row is newer than its primary row (`scanAfter`, `afterRows`).

A `DBTime` is the code's `int64`. The model keeps it as an `Int` and wraps it as Go does where
the code adds to one (`int64`): in `ScanAfter`'s start `t+1`.
-/

namespace Gaby.Timed

/-- Go's conversion to `int64`: two's-complement wrap-around. -/
def int64 (x : Int) : Int := (x + 2 ^ 63) % 2 ^ 64 - 2 ^ 63

/-- The largest `int64`. -/
def maxInt64 : Int := 2 ^ 63 - 1

theorem int64_of_lt {x : Int} (h0 : -2 ^ 63 ≤ x) (h1 : x < 2 ^ 63) : int64 x = x := by
  unfold int64
  rw [Int.emod_eq_of_lt (by omega) (by omega)]
  omega

/-- An index row's key `(kind+"ByTime", modtime, key)`, in the encoding's order: by time,
then by key. -/
structure TimeKey (K : Type) where
  t : Int
  key : K
deriving DecidableEq, Repr

/-- The index row key as a pair in lexicographic order. -/
def TimeKey.lex {K : Type} (r : TimeKey K) : Int ×ₗ K := toLex (r.t, r.key)

instance {K : Type} [LinearOrder K] : LinearOrder (TimeKey K) :=
  LinearOrder.lift' TimeKey.lex fun a b h => by
    cases a; cases b; simp only [TimeKey.lex, toLex_inj, Prod.mk.injEq] at h; simp [h]

theorem TimeKey.lt_iff {K : Type} [LinearOrder K] {a b : TimeKey K} :
    a < b ↔ a.t < b.t ∨ a.t = b.t ∧ a.key < b.key :=
  Prod.Lex.lt_iff a.lex b.lex

/-- An `Entry`: one logical entry of the timed store. -/
structure Entry (K V : Type) where
  modTime : Int
  kind : String
  key : K
  val : V
deriving DecidableEq, Repr

/-- The rows of one kind. -/
structure Store (K V : Type) [LinearOrder K] where
  kind : String
  /-- The primary rows `(kind, key) → (modtime, val)`. -/
  prim : OMap K (Int × V)
  /-- The index rows `(kind+"ByTime", modtime, key) → ()`. -/
  byTime : OMap (TimeKey K) Unit

/-- A write staged in a `storage.Batch` by the timed functions. -/
inductive Op (K V : Type)
  /-- `b.Set(dkey, (t, val))`: a primary row. -/
  | set (key : K) (t : Int) (val : V)
  /-- `b.Delete(dkey)`: a primary row. -/
  | delete (key : K)
  /-- `b.Set((kind+"ByTime", t, key), nil)`: an index row. -/
  | setTime (t : Int) (key : K)
  /-- `b.Delete((kind+"ByTime", t, key))`: an index row. -/
  | deleteTime (t : Int) (key : K)
deriving DecidableEq, Repr

/-- A batch: the writes staged since its last `Apply`, in order. -/
abbrev Batch (K V : Type) := List (Op K V)

variable {K V : Type} [LinearOrder K]

namespace Op

/-- The logical key a write is for. -/
def key : Op K V → K
  | .set k _ _ | .delete k | .setTime _ k | .deleteTime _ k => k

/-- The `DBTime` a write carries, if any. -/
def time : Op K V → Option Int
  | .set _ t _ | .setTime t _ | .deleteTime t _ => some t
  | .delete _ => none

/-- Commit one write. -/
def apply : Op K V → Store K V → Store K V
  | .set k t v, s => { s with prim := s.prim.set k (t, v) }
  | .delete k, s => { s with prim := s.prim.delete k }
  | .setTime t k, s => { s with byTime := s.byTime.set ⟨t, k⟩ () }
  | .deleteTime t k, s => { s with byTime := s.byTime.delete ⟨t, k⟩ }

end Op

/-- `Apply`: commit the batch's writes, in order. -/
def Store.apply (s : Store K V) (b : Batch K V) : Store K V := b.foldl (fun s o => o.apply s) s

@[simp] theorem Store.apply_nil (s : Store K V) : s.apply [] = s := rfl

theorem Store.apply_append (s : Store K V) (b b' : Batch K V) :
    s.apply (b ++ b') = (s.apply b).apply b' := List.foldl_append _ _ _ _

@[simp] theorem Store.apply_cons (s : Store K V) (o : Op K V) (b : Batch K V) :
    s.apply (o :: b) = (o.apply s).apply b := rfl

/-- `MaybeApply`: apply the batch when the implementation finds it full (`full`; the in-memory
batch never is). -/
def maybeApply (full : Batch K V → Bool) (db : Store K V) (b : Batch K V) : Store K V × Batch K V :=
  if full b then (db.apply b, []) else (db, b)

/-! ## The timed functions -/

/-- `Get(db, kind, key)`. -/
def get (db : Store K V) (key : K) : Option (Entry K V) :=
  (db.prim.get key).map fun tv => ⟨tv.1, db.kind, key, tv.2⟩

/-- `Set(db, b, kind, key, val)`, where `t` is the `now()` it reads: drop the old index row,
if the database has one, and write the new index row and primary row. -/
def set (db : Store K V) (b : Batch K V) (key : K) (val : V) (t : Int) : Batch K V :=
  (match db.prim.get key with
    | some (oldT, _) => b ++ [.deleteTime oldT key]
    | none => b) ++ [.setTime t key, .set key t val]

/-- `Delete(db, b, kind, key)`: delete both rows of the entry the database holds, if any. -/
def delete (db : Store K V) (b : Batch K V) (key : K) : Batch K V :=
  match db.prim.get key with
  | none => b
  | some (t, _) => b ++ [.delete key, .deleteTime t key]

/-- `Scan(db, kind, start, end)`: the entries with `start ≤ key ≤ end`, in key order. -/
def scan (db : Store K V) (start stop : K) : List (Entry K V) :=
  (db.prim.scanRange start stop).map fun e => ⟨e.2.1, db.kind, e.1, e.2.2⟩

/-- The body of `DeleteRange`'s loop for entry `e`, before its `MaybeApply`. -/
def deleteEntry (b : Batch K V) (e : Entry K V) : Batch K V :=
  b ++ [.delete e.key, .deleteTime e.modTime e.key]

/-- `DeleteRange(db, b, kind, start, end)`: for each entry of the scan, stage both deletes
and call `b.MaybeApply()`. The result is the database and the batch afterwards. -/
def deleteRange (full : Batch K V → Bool) (db : Store K V) (b : Batch K V) (start stop : K) :
    Store K V × Batch K V :=
  (scan db start stop).foldl (fun s e => maybeApply full s.1 (deleteEntry s.2 e)) (db, b)

/-- `ScanAfter`'s loop from the index row list `rows` on: the entries it yields, and the
message of the `db.Panic` that stops it, if one does. A row whose key `filter` rejects, whose
primary row is gone, or whose primary row is newer, is skipped. -/
def afterRows (db : Store K V) (filter : Option (K → Bool)) :
    List (TimeKey K) → List (Entry K V) × Option String
  | [] => ([], none)
  | r :: rows =>
    if filter.any (fun f => !f r.key) then afterRows db filter rows else
    match db.prim.get r.key with
    | none => afterRows db filter rows
    | some (t2, val) =>
      if r.t < t2 then afterRows db filter rows
      else if t2 < r.t then ([], some "timed.ScanAfter mismatch")
      else
        let rest := afterRows db filter rows
        (⟨r.t, db.kind, r.key, val⟩ :: rest.1, rest.2)

/-- The index rows `ScanAfter(db, kind, t, _)` scans: from `(kind+"ByTime", int64(t+1))` to
`(kind+"ByTime", ordered.Inf)`, in key order. -/
def afterIndex (db : Store K V) (t : Int) : List (TimeKey K) :=
  (db.byTime.scan (fun r => int64 (t + 1) ≤ r.t)).map Prod.fst

/-- `ScanAfter(db, kind, t, filter)`: the entries yielded and the panic, if any. -/
def scanAfter (db : Store K V) (t : Int) (filter : Option (K → Bool)) :
    List (Entry K V) × Option String :=
  afterRows db filter (afterIndex db t)

end Gaby.Timed
