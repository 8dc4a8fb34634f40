import Gaby.Timed.Invariant
import Mathlib.Logic.Function.Basic

/-!
# Runs of timed writers

A `Sys` is one kind's rows, the batches goroutines stage timed writes into, the timed call each
goroutine has in flight, and `now()`'s `lastTime`. `timed.Set` is three steps, as the code runs
it: `now()` returns a DBTime above `lastTime` (`setNow`), `db.Get` reads the key's primary row
(`setGet`), and the writes are staged into the batch with the time that `Get` read (`setStage`).
`timed.Delete` is two: `db.Get`, then staging. One iteration of `DeleteRange` stages the
deletes of an entry its scan yielded. A batch is applied by `Apply`, or by a `MaybeApply` that
finds it full; every batch behaves as the `storage.Batch` contract says, committing exactly the
writes staged since its previous `Apply`.

The callers' discipline is a guard on staging: a call stages writes for a key only into the
batch that already holds the staged writes for it, if any (`Sys.Owns`). It does not make the
three steps of `Set` atomic. Two `Set`s of one key in different batches can both read the
database before either is applied. The one with the later DBTime is then staged and applied
first, and the other one's primary row ends up older than an index row of its key. `ScanAfter`
then calls `db.Panic` (`setRace_scanAfter_panics`).

With `strict`, a `Set` also calls `now()` only while no other `Set` of its key is in flight
(`Sys.Alone`). `SysInv` is then the inductive invariant: the database satisfies `Inv`, every
batch is a list of blocks that is `Pending` for it, no two batches hold writes for one key,
every DBTime is at most `lastTime`, and a `Set` in flight is newer than every index row and
index write of its key. It holds initially and after every step (`sysInv_step`), so every
reachable database satisfies I1 and I2 and `ScanAfter` never panics on it
(`timed_inv_reachable`).
-/

namespace Gaby.Timed

/-- The timed call a goroutine has in flight. -/
inductive Call (K V : Type)
  | idle
  /-- `Set` into batch `b` has read `t` from `now()`. -/
  | setNow (b : Nat) (key : K) (val : V) (t : Int)
  /-- `Set` has then read the time of the key's primary row, if any, with `db.Get`. -/
  | setGot (b : Nat) (key : K) (val : V) (t : Int) (old : Option Int)
  /-- `Delete` from batch `b` has read the key's primary row, set at `t`, with `db.Get`. -/
  | deleteGot (b : Nat) (key : K) (t : Int)

/-- The key and the DBTime of a `Set` in flight. -/
def Call.set? {K V : Type} : Call K V → Option (K × Int)
  | .setNow _ key _ t | .setGot _ key _ t _ => some (key, t)
  | _ => none

/-- The DBTime a write stores in a row. -/
def Op.stored {K V : Type} : Op K V → Option Int
  | .set _ t _ | .setTime t _ => some t
  | _ => none

/-- A store shared by goroutines `0, 1, …` staging timed writes into batches `0, 1, …`. -/
structure Sys (K V : Type) [LinearOrder K] where
  db : Store K V
  batch : Nat → Batch K V
  calls : Nat → Call K V
  /-- `lastTime`: the last DBTime `now()` returned. -/
  lastTime : Int

variable {K V : Type} [LinearOrder K]

namespace Sys

/-- Batch `b` may stage writes for `k`: no other batch holds staged writes for it. -/
def Owns (s : Sys K V) (b : Nat) (k : K) : Prop := ∀ c, c ≠ b → ∀ o ∈ s.batch c, o.key ≠ k

/-- No `Set` of `k` is in flight in a goroutine other than `g`. -/
def Alone (s : Sys K V) (g : Nat) (k : K) : Prop :=
  ∀ g', g' ≠ g → ∀ t, (s.calls g').set? ≠ some (k, t)

/-- Goroutine `g`'s call moves on to `c`. -/
def call (s : Sys K V) (g : Nat) (c : Call K V) : Sys K V :=
  { s with calls := Function.update s.calls g c }

/-- Goroutine `g` stages `ops` into batch `b`, and its call returns. -/
def stage (s : Sys K V) (g b : Nat) (ops : Batch K V) : Sys K V :=
  { s with batch := Function.update s.batch b (s.batch b ++ ops),
           calls := Function.update s.calls g .idle }

/-- `Apply` of batch `b`. -/
def apply (s : Sys K V) (b : Nat) : Sys K V :=
  { s with db := s.db.apply (s.batch b), batch := Function.update s.batch b [] }

@[simp] theorem db_call (s : Sys K V) (g : Nat) (c : Call K V) : (s.call g c).db = s.db := rfl
@[simp] theorem batch_call (s : Sys K V) (g : Nat) (c : Call K V) : (s.call g c).batch = s.batch :=
  rfl
@[simp] theorem lastTime_call (s : Sys K V) (g : Nat) (c : Call K V) :
    (s.call g c).lastTime = s.lastTime := rfl
@[simp] theorem db_stage (s : Sys K V) (g b : Nat) (ops : Batch K V) : (s.stage g b ops).db = s.db :=
  rfl
@[simp] theorem lastTime_stage (s : Sys K V) (g b : Nat) (ops : Batch K V) :
    (s.stage g b ops).lastTime = s.lastTime := rfl
@[simp] theorem lastTime_apply (s : Sys K V) (b : Nat) : (s.apply b).lastTime = s.lastTime := rfl
@[simp] theorem calls_apply (s : Sys K V) (b : Nat) : (s.apply b).calls = s.calls := rfl

theorem calls_call (s : Sys K V) (g : Nat) (c : Call K V) (g' : Nat) :
    (s.call g c).calls g' = if g' = g then c else s.calls g' :=
  Function.update_apply _ _ _ _

theorem calls_stage (s : Sys K V) (g b : Nat) (ops : Batch K V) (g' : Nat) :
    (s.stage g b ops).calls g' = if g' = g then .idle else s.calls g' :=
  Function.update_apply _ _ _ _

theorem batch_stage (s : Sys K V) (g b : Nat) (ops : Batch K V) (c : Nat) :
    (s.stage g b ops).batch c = if c = b then s.batch b ++ ops else s.batch c :=
  Function.update_apply _ _ _ _

theorem batch_apply (s : Sys K V) (b c : Nat) :
    (s.apply b).batch c = if c = b then [] else s.batch c :=
  Function.update_apply _ _ _ _

theorem mem_batch_apply {s : Sys K V} {b c : Nat} {o : Op K V} (h : o ∈ (s.apply b).batch c) :
    o ∈ s.batch c := by
  rw [batch_apply] at h
  split_ifs at h
  · exact absurd h (List.not_mem_nil _)
  · exact h

end Sys

/-- One step of a run. With `strict`, a `Set` calls `now()` only while no other `Set` of its key
is in flight. -/
inductive Step (strict : Bool) : Sys K V → Sys K V → Prop
  /-- `Set(db, b, kind, key, val)` calls `now()`, which returns `t`. -/
  | setNow (s : Sys K V) (g b : Nat) (key : K) (val : V) (t : Int) : s.calls g = .idle →
      s.lastTime < t → t ≤ maxInt64 → (strict → s.Alone g key) →
      Step strict s { s.call g (.setNow b key val t) with lastTime := t }
  /-- `Set` reads the key's primary row with `db.Get`. -/
  | setGet (s : Sys K V) (g b : Nat) (key : K) (val : V) (t : Int) :
      s.calls g = .setNow b key val t →
      Step strict s (s.call g (.setGot b key val t ((s.db.prim.get key).map Prod.fst)))
  /-- `Set` stages the delete of the index row `Get` found, the new index row and the primary
  row, into a batch that owns the key. -/
  | setStage (s : Sys K V) (g b : Nat) (key : K) (val : V) (t : Int) (old : Option Int) :
      s.calls g = .setGot b key val t old → s.Owns b key →
      Step strict s (s.stage g b (Block.set key old t val).ops)
  /-- `Delete(db, b, kind, key)` finds the key's primary row, set at `t`, with `db.Get` (when it
  finds none, it returns). -/
  | deleteGet (s : Sys K V) (g b : Nat) (key : K) (t : Int) (v : V) : s.calls g = .idle →
      s.db.prim.get key = some (t, v) → Step strict s (s.call g (.deleteGot b key t))
  /-- `Delete` stages the deletes of both rows into a batch that owns the key. -/
  | deleteStage (s : Sys K V) (g b : Nat) (key : K) (t : Int) :
      s.calls g = .deleteGot b key t → s.Owns b key →
      Step strict s (s.stage g b (Block.delete key t).ops)
  /-- One iteration of `DeleteRange`'s loop, for an entry its scan yielded (possibly before other
  batches were applied, so any entry): the writes of `deleteEntry`. -/
  | deleteEntry (s : Sys K V) (g b : Nat) (e : Entry K V) : s.calls g = .idle → s.Owns b e.key →
      Step strict s (s.stage g b (Block.delete e.key e.modTime).ops)
  /-- Batch `b` is applied. -/
  | apply (s : Sys K V) (b : Nat) : Step strict s (s.apply b)

/-- The states a run reaches from a store satisfying `Inv` whose DBTimes are at most
`lastTime`, with no writes staged and no call in flight. -/
inductive Reachable (strict : Bool) : Sys K V → Prop
  | init (db : Store K V) (L : Int) : Inv db → (∀ k tv, db.prim.get k = some tv → tv.1 ≤ L) →
      (∀ r, db.byTime.get r = some () → r.t ≤ L) →
      Reachable strict ⟨db, fun _ => [], fun _ => .idle, L⟩
  | step {s s' : Sys K V} : Reachable strict s → Step strict s s' → Reachable strict s'

/-! ## Two `Set`s of one key racing -/

/-- Goroutine `0` calls `Set` of key `1` into batch `0` and reads `now()` = 1 and no primary row;
goroutine `1` then runs `Set` of key `1` into batch `1` with `now()` = 2 to its end, and applies
batch `1`; goroutine `0` then stages its writes and applies batch `0`. -/
def setRaceRun : Sys Nat Nat :=
  let s0 : Sys Nat Nat := ⟨⟨"kind", .empty, .empty⟩, fun _ => [], fun _ => .idle, 0⟩
  let s1 := { s0.call 0 (.setNow 0 1 10 1) with lastTime := 1 }
  let s2 := s1.call 0 (.setGot 0 1 10 1 none)
  let s3 := { s2.call 1 (.setNow 1 1 20 2) with lastTime := 2 }
  let s4 := s3.call 1 (.setGot 1 1 20 2 none)
  let s5 := (s4.stage 1 1 (Block.set 1 none 2 20).ops).apply 1
  (s5.stage 0 0 (Block.set 1 none 1 10).ops).apply 0

/-- Every staging of the run finds the other batch empty, as the callers' discipline asks, and
every DBTime is above every one stored; yet the run leaves key `1`'s primary row at time `1`
with an index row at time `2`, and `ScanAfter` from `0` calls `db.Panic`. -/
theorem setRace_scanAfter_panics :
    Reachable false setRaceRun ∧ ¬NotAhead setRaceRun.db ∧
      (scanAfter setRaceRun.db 0 none).2 = some "timed.ScanAfter mismatch" := by
  refine ⟨.step (.step (.step (.step (.step (.step (.step (.step
    (.init _ 0 (inv_empty _) (by simp) (by simp)) (.setNow _ 0 0 1 10 1 rfl (by decide) (by decide) nofun))
    (.setGet _ 0 0 1 10 1 rfl)) (.setNow _ 1 1 1 20 2 rfl (by decide) (by decide) nofun))
    (.setGet _ 1 1 1 20 2 rfl)) (.setStage _ 1 1 1 20 2 none rfl ?_)) (.apply _ 1))
    (.setStage _ 0 0 1 10 1 none rfl ?_)) (.apply _ 0), fun h => ?_, by decide⟩
  · intro c _ o ho; simp at ho
  · intro c hc o ho
    simp only [Sys.batch_apply, Sys.batch_stage] at ho
    split_ifs at ho <;> simp_all
  · exact absurd (h 2 1 (by decide) 1 10 (by decide)) (by decide)

/-! ## What `Apply` writes -/

theorem Store.prim_apply_mem {k : K} {tv : Int × V} :
    ∀ (b : Batch K V) (s : Store K V), (s.apply b).prim.get k = some tv →
      s.prim.get k = some tv ∨ Op.set k tv.1 tv.2 ∈ b
  | [], _, h => .inl h
  | o :: b, s, h => by
    rcases Store.prim_apply_mem b _ h with h' | h'
    · cases o with
      | set k' t v =>
        simp only [Op.apply, OMap.get_set] at h'
        split_ifs at h' with hk
        · subst hk; obtain rfl := Option.some.inj h'; exact .inr (.head _)
        · exact .inl h'
      | delete k' =>
        simp only [Op.apply, OMap.get_delete] at h'
        split_ifs at h'; exact .inl h'
      | setTime | deleteTime => exact .inl h'
    · exact .inr (.tail _ h')

theorem Store.byTime_apply_mem {r : TimeKey K} :
    ∀ (b : Batch K V) (s : Store K V), (s.apply b).byTime.get r = some () →
      s.byTime.get r = some () ∨ Op.setTime r.t r.key ∈ b
  | [], _, h => .inl h
  | o :: b, s, h => by
    rcases Store.byTime_apply_mem b _ h with h' | h'
    · cases o with
      | setTime t k' =>
        simp only [Op.apply, OMap.get_set] at h'
        split_ifs at h' with hk
        · subst hk; exact .inr (.head _)
        · exact .inl h'
      | deleteTime t k' =>
        simp only [Op.apply, OMap.get_delete] at h'
        split_ifs at h'; exact .inl h'
      | set | delete => exact .inl h'
    · exact .inr (.tail _ h')

/-! ## The invariant of strict runs -/

/-- Every DBTime a state holds is at most `L`: in a row, in a staged write, or read by a `Set`
in flight. -/
structure Sys.TimesLe (s : Sys K V) (L : Int) : Prop where
  prim : ∀ k tv, s.db.prim.get k = some tv → tv.1 ≤ L
  byTime : ∀ r, s.db.byTime.get r = some () → r.t ≤ L
  staged : ∀ b, ∀ o ∈ s.batch b, ∀ t, o.stored = some t → t ≤ L
  calls : ∀ g k t, (s.calls g).set? = some (k, t) → t ≤ L

/-- The inductive invariant of a strict run. -/
structure SysInv (s : Sys K V) : Prop where
  db : Inv s.db
  /-- Every batch is a list of blocks that keeps `Inv` when applied. -/
  pending : ∀ b, ∃ bls, s.batch b = bls.flatMap Block.ops ∧ Pending s.db bls
  /-- No two batches hold staged writes for one key. -/
  owned : ∀ b c, b ≠ c → ∀ o ∈ s.batch b, ∀ o' ∈ s.batch c, o.key ≠ o'.key
  times : s.TimesLe s.lastTime
  /-- No two `Set`s of one key are in flight. -/
  alone : ∀ g g' k t t', g ≠ g' → (s.calls g).set? = some (k, t) → (s.calls g').set? ≠ some (k, t')
  /-- A `Set` in flight is newer than every index row and every staged index write of its key. -/
  fresh : ∀ g k t, (s.calls g).set? = some (k, t) →
    (∀ t', s.db.byTime.get ⟨t', k⟩ = some () → t' < t) ∧ ∀ c t', Op.setTime t' k ∈ s.batch c → t' < t

theorem sysInv_init {db : Store K V} {L : Int} (h : Inv db)
    (hp : ∀ k tv, db.prim.get k = some tv → tv.1 ≤ L) (hb : ∀ r, db.byTime.get r = some () → r.t ≤ L) :
    SysInv (⟨db, fun _ => [], fun _ => .idle, L⟩ : Sys K V) where
  db := h
  pending _ := ⟨[], rfl, by simp [Pending]⟩
  owned _ _ _ _ ho := absurd ho (List.not_mem_nil _)
  times := ⟨hp, hb, fun _ _ ho => absurd ho (List.not_mem_nil _), fun _ _ _ h => nomatch h⟩
  alone _ _ _ _ _ _ h := nomatch h
  fresh _ _ _ h := nomatch h

theorem SysInv.call {s : Sys K V} (hs : SysInv s) {g : Nat} {c : Call K V}
    (hc : c.set? = (s.calls g).set?) : SysInv (s.call g c) := by
  have hset : ∀ g', ((s.call g c).calls g').set? = (s.calls g').set? := fun g' => by
    rw [Sys.calls_call]; split_ifs with h
    · rw [h, hc]
    · rfl
  refine ⟨hs.db, hs.pending, hs.owned, ⟨hs.times.prim, hs.times.byTime, hs.times.staged,
    fun g' k t h => hs.times.calls g' k t (hset g' ▸ h)⟩, fun g₁ g₂ k t t' hne h₁ h₂ => ?_,
    fun g' k t h => hs.fresh g' k t (hset g' ▸ h)⟩
  rw [hset] at h₁ h₂
  exact hs.alone g₁ g₂ k t t' hne h₁ h₂

theorem SysInv.setNow {s : Sys K V} (hs : SysInv s) {g b : Nat} {key : K} {val : V} {t : Int}
    (hidle : s.calls g = .idle) (hlt : s.lastTime < t) (halone : s.Alone g key) :
    SysInv { s.call g (.setNow b key val t) with lastTime := t } := by
  have hset : ∀ g' k t', ((s.call g (.setNow b key val t)).calls g').set? = some (k, t') →
      g' = g ∧ k = key ∧ t' = t ∨ g' ≠ g ∧ (s.calls g').set? = some (k, t') := fun g' k t' h => by
    rw [Sys.calls_call] at h
    split_ifs at h with hg
    · simp only [Call.set?, Option.some.injEq, Prod.mk.injEq] at h
      exact .inl ⟨hg, h.1.symm, h.2.symm⟩
    · exact .inr ⟨hg, h⟩
  have hle := hs.times
  refine ⟨hs.db, hs.pending, hs.owned, ⟨fun k tv h => (hle.prim k tv h).trans hlt.le,
    fun r h => (hle.byTime r h).trans hlt.le, fun c o ho t' h => (hle.staged c o ho t' h).trans hlt.le,
    fun g' k t' h => ?_⟩, fun g₁ g₂ k t₁ t₂ hne h₁ h₂ => ?_, fun g' k t' h => ?_⟩
  · rcases hset g' k t' h with ⟨-, -, rfl⟩ | ⟨-, h⟩
    · exact le_rfl
    · exact (hle.calls g' k t' h).trans hlt.le
  · rcases hset g₁ k t₁ h₁ with ⟨rfl, rfl, -⟩ | ⟨hg₁, h₁'⟩
    · rcases hset g₂ _ t₂ h₂ with ⟨rfl, -, -⟩ | ⟨hg₂, h₂'⟩
      · exact hne rfl
      · exact halone g₂ hg₂ t₂ h₂'
    · rcases hset g₂ k t₂ h₂ with ⟨rfl, rfl, -⟩ | ⟨hg₂, h₂'⟩
      · exact halone g₁ hg₁ t₁ h₁'
      · exact hs.alone g₁ g₂ k t₁ t₂ hne h₁' h₂'
  · rcases hset g' k t' h with ⟨-, -, rfl⟩ | ⟨-, h⟩
    · exact ⟨fun t'' h' => (hle.byTime _ h').trans_lt hlt,
        fun c t'' h' => (hle.staged c _ h' t'' rfl).trans_lt hlt⟩
    · exact hs.fresh g' k t' h

/-- The DBTime a block's writes store: a set block's. -/
def Block.stored {K V : Type} : Block K V → Option Int
  | .set _ _ t _ => some t
  | .delete _ _ => none

omit [LinearOrder K] in
theorem Block.stored_of_mem_ops {bl : Block K V} {o : Op K V} (h : o ∈ bl.ops) {t : Int}
    (ht : o.stored = some t) : bl.stored = some t := by
  cases bl with
  | set k old t v =>
    cases old <;> simp only [Block.ops, List.mem_cons, List.mem_singleton, List.nil_append,
      List.singleton_append, List.not_mem_nil, or_false] at h <;> rcases h with rfl | rfl | rfl <;>
      cases ht <;> rfl
  | delete k t =>
    simp only [Block.ops, List.mem_cons, List.mem_singleton, List.not_mem_nil, or_false] at h
    rcases h with rfl | rfl <;> cases ht

/-- Staging the writes of one block into batch `b`, which owns its key, ending goroutine `g`'s
call: the block is fresh and later than the set blocks of its key staged in `b`, its DBTime is
at most `lastTime`, and no other `Set` of its key is in flight. -/
theorem SysInv.stage {s : Sys K V} (hs : SysInv s) {g b : Nat} {bl : Block K V}
    (hown : s.Owns b bl.key) (hfr : bl.Fresh s.db)
    (hpre : ∀ bls : List (Block K V), s.batch b = bls.flatMap Block.ops →
      ∀ bl' ∈ bls, Block.Precedes bl' bl)
    (hle : ∀ t, bl.stored = some t → t ≤ s.lastTime)
    (hnew : ∀ t, bl.stored = some t → ∀ g', g' ≠ g → ∀ t', (s.calls g').set? ≠ some (bl.key, t')) :
    SysInv (s.stage g b bl.ops) := by
  have hkey : ∀ o ∈ bl.ops, o.key = bl.key := fun o h => Block.key_of_mem_ops h
  have hcalls : ∀ g' k t, ((s.stage g b bl.ops).calls g').set? = some (k, t) →
      g' ≠ g ∧ (s.calls g').set? = some (k, t) := fun g' k t h => by
    rw [Sys.calls_stage] at h
    split_ifs at h with hg
    · exact nomatch h
    · exact ⟨hg, h⟩
  have hmem : ∀ c o, o ∈ (s.stage g b bl.ops).batch c → o ∈ s.batch c ∨ c = b ∧ o ∈ bl.ops :=
    fun c o h => by
      rw [Sys.batch_stage] at h
      split_ifs at h with hc
      · exact (List.mem_append.1 h).imp (hc ▸ ·) (⟨hc, ·⟩)
      · exact .inl h
  refine ⟨hs.db, fun c => ?_, fun c d hcd o ho o' ho' => ?_,
    ⟨hs.times.prim, hs.times.byTime, fun c o ho t h => ?_, fun g' k t h => ?_⟩,
    fun g₁ g₂ k t₁ t₂ hne h₁ h₂ => ?_, fun g' k t h => ?_⟩
  · by_cases hc : c = b
    · subst hc
      obtain ⟨bls, he, hp⟩ := hs.pending c
      refine ⟨bls ++ [bl], by simp [Sys.batch_stage, he], fun x hx => ?_, ?_⟩
      · rcases List.mem_append.1 hx with hx | hx
        · exact hp.1 x hx
        · rw [List.mem_singleton.1 hx]; exact hfr
      · refine List.pairwise_append.2 ⟨hp.2, List.pairwise_singleton _ _, fun a ha x hx => ?_⟩
        rw [List.mem_singleton.1 hx]; exact hpre bls he a ha
    · simpa [Sys.batch_stage, hc] using hs.pending c
  · rcases hmem c o ho with ho | ⟨hc, ho⟩ <;> rcases hmem d o' ho' with ho' | ⟨hd, ho'⟩
    · exact hs.owned c d hcd o ho o' ho'
    · rw [hkey o' ho']; exact hown c (hd ▸ hcd) o ho
    · rw [hkey o ho]; exact (hown d (hc ▸ Ne.symm hcd) o' ho').symm
    · exact absurd (hc.trans hd.symm) hcd
  · rcases hmem c o ho with ho | ⟨-, ho⟩
    · exact hs.times.staged c o ho t h
    · exact hle t (Block.stored_of_mem_ops ho h)
  · exact hs.times.calls g' k t (hcalls g' k t h).2
  · exact hs.alone g₁ g₂ k t₁ t₂ hne (hcalls g₁ k t₁ h₁).2 (hcalls g₂ k t₂ h₂).2
  · obtain ⟨hg, h⟩ := hcalls g' k t h
    refine ⟨(hs.fresh g' k t h).1, fun c t' ht => ?_⟩
    rcases hmem c _ ht with ht | ⟨-, ht⟩
    · exact (hs.fresh g' k t h).2 c t' ht
    · have hk : k = bl.key := Block.key_of_mem_ops ht
      exact absurd h (by rw [hk]; exact hnew t' (Block.stored_of_mem_ops ht rfl) g' hg t)

theorem precedes_of_set {s : Sys K V} (hs : SysInv s) {g b : Nat} {key : K} {t : Int}
    (hg : (s.calls g).set? = some (key, t)) (old : Option Int) (val : V)
    (bls : List (Block K V)) (he : s.batch b = bls.flatMap Block.ops) :
    ∀ bl' ∈ bls, bl'.Precedes (.set key old t val) := by
  intro bl' hb
  cases bl' with
  | delete => trivial
  | set k' old' t' v' =>
    rintro rfl
    have hm : Op.setTime t' k' ∈ s.batch b := by
      rw [he, List.mem_flatMap]; exact ⟨_, hb, by cases old' <;> simp [Block.ops]⟩
    exact (hs.fresh g k' t hg).2 b t' hm

theorem SysInv.setStage {s : Sys K V} (hs : SysInv s) {g b : Nat} {key : K} {val : V} {t : Int}
    {old : Option Int} (hcall : s.calls g = .setGot b key val t old) (hown : s.Owns b key) :
    SysInv (s.stage g b (Block.set key old t val).ops) := by
  have hg : (s.calls g).set? = some (key, t) := by rw [hcall]; rfl
  refine hs.stage hown (hs.fresh g key t hg).1 (precedes_of_set hs hg old val) ?_ ?_ <;>
    rintro t' ⟨⟩
  · exact hs.times.calls g key t hg
  · exact fun g' hg' t'' => hs.alone g g' key t t'' (Ne.symm hg') hg

theorem SysInv.stageDelete {s : Sys K V} (hs : SysInv s) {g b : Nat} {key : K} {t : Int}
    (hown : s.Owns b key) :
    SysInv (s.stage g b (Block.delete key t).ops) :=
  hs.stage hown trivial (fun _ _ bl _ => bl.precedes_delete _ _) (fun _ h => nomatch h)
    fun _ h => nomatch h

theorem SysInv.apply {s : Sys K V} (hs : SysInv s) (b : Nat) : SysInv (s.apply b) := by
  obtain ⟨bls, he, hp⟩ := hs.pending b
  refine ⟨show Inv (s.db.apply (s.batch b)) from he ▸ inv_apply_pending hs.db hp, fun c => ?_,
    fun c d hcd o ho o' ho' => hs.owned c d hcd o (Sys.mem_batch_apply ho) o' (Sys.mem_batch_apply ho'),
    ⟨fun k tv h => ?_, fun r h => ?_, fun c o ho => hs.times.staged c o (Sys.mem_batch_apply ho),
    hs.times.calls⟩, hs.alone,
    fun g k t h => ⟨fun t' ht => ?_, fun c t' ht => (hs.fresh g k t h).2 c t' (Sys.mem_batch_apply ht)⟩⟩
  · by_cases hc : c = b
    · subst hc; exact ⟨[], by simp [Sys.batch_apply], by simp [Pending]⟩
    · obtain ⟨bls', he', hp'⟩ := hs.pending c
      refine ⟨bls', by simpa [Sys.batch_apply, hc] using he', pending_apply_frame hp' _ fun bl hbl o ho => ?_⟩
      obtain ⟨o', ho'⟩ : ∃ o', o' ∈ bl.ops := by
        cases bl with
        | set k old t v => exact ⟨.setTime t k, by cases old <;> simp [Block.ops]⟩
        | delete k t => exact ⟨.delete k, by simp [Block.ops]⟩
      rw [← Block.key_of_mem_ops ho']
      exact hs.owned b c (Ne.symm hc) o ho o' (he' ▸ List.mem_flatMap.2 ⟨bl, hbl, ho'⟩)
  · rcases Store.prim_apply_mem _ _ h with h | h
    · exact hs.times.prim k tv h
    · exact hs.times.staged b _ h _ rfl
  · rcases Store.byTime_apply_mem _ _ h with h | h
    · exact hs.times.byTime r h
    · exact hs.times.staged b _ h _ rfl
  · rcases Store.byTime_apply_mem _ _ ht with ht | ht
    · exact (hs.fresh g k t h).1 t' ht
    · exact (hs.fresh g k t h).2 b t' ht

theorem sysInv_step {s s' : Sys K V} (hs : SysInv s) (h : Step true s s') : SysInv s' := by
  cases h with
  | setNow g b key val t hidle hlt _ halone => exact hs.setNow hidle hlt (halone rfl)
  | setGet g b key val t hcall => exact hs.call (by rw [hcall]; rfl)
  | setStage g b key val t old hcall hown => exact hs.setStage hcall hown
  | deleteGet g b key t v hidle _ => exact hs.call (by rw [hidle]; rfl)
  | deleteStage g b key t _ hown => exact hs.stageDelete hown
  | deleteEntry g b e _ hown => exact hs.stageDelete hown
  | apply b => exact hs.apply b

theorem sysInv_reachable {s : Sys K V} (h : Reachable true s) : SysInv s := by
  induction h with
  | init db L hdb hp hb => exact sysInv_init hdb hp hb
  | step _ hst ih => exact sysInv_step ih hst

/-- **The timed store's invariant under strict runs**: when no two `Set`s of one key are in
flight at once, every reachable database satisfies I1 and I2, so `ScanAfter`'s
`db.Panic("timed.ScanAfter mismatch")` is unreachable. -/
theorem timed_inv_reachable {s : Sys K V} (h : Reachable true s) :
    Indexed s.db ∧ NotAhead s.db ∧ ∀ t filter, (scanAfter s.db t filter).2 = none :=
  have hi := (sysInv_reachable h).db
  ⟨hi.indexed, hi.notAhead, scanAfter_no_panic hi.notAhead⟩

/-- Goroutine `0` runs two `Set`s of key `1` into batch `0`, the second unable to drop the
first's index row; meanwhile goroutine `1` runs a `Set` of key `2` into batch `1`; then both
batches are applied. -/
def twoSetsRun : Sys Nat Nat :=
  let s0 : Sys Nat Nat := ⟨⟨"kind", .empty, .empty⟩, fun _ => [], fun _ => .idle, 0⟩
  let s1 := { s0.call 0 (.setNow 0 1 10 1) with lastTime := 1 }
  let s2 := { s1.call 1 (.setNow 1 2 20 2) with lastTime := 2 }
  let s3 := s2.call 0 (.setGot 0 1 10 1 none)
  let s4 := s3.stage 0 0 (Block.set 1 none 1 10).ops
  let s5 := { s4.call 0 (.setNow 0 1 11 3) with lastTime := 3 }
  let s6 := (s5.call 0 (.setGot 0 1 11 3 none)).stage 0 0 (Block.set 1 none 3 11).ops
  let s7 := (s6.call 1 (.setGot 1 2 20 2 none)).stage 1 1 (Block.set 2 none 2 20).ops
  (s7.apply 0).apply 1

theorem twoSetsRun_inv : Reachable true twoSetsRun ∧ (Indexed twoSetsRun.db ∧ NotAhead twoSetsRun.db ∧
    ∀ t filter, (scanAfter twoSetsRun.db t filter).2 = none) := by
  have h : Reachable true twoSetsRun := by
    refine .step (.step (.step (.step (.step (.step (.step (.step (.step (.step (.step
      (.init _ 0 (inv_empty _) (by simp) (by simp))
      (.setNow _ 0 0 1 10 1 rfl (by decide) (by decide) fun _ => ?_))
      (.setNow _ 1 1 2 20 2 rfl (by decide) (by decide) fun _ => ?_))
      (.setGet _ 0 0 1 10 1 rfl)) (.setStage _ 0 0 1 10 1 none rfl ?_))
      (.setNow _ 0 0 1 11 3 rfl (by decide) (by decide) fun _ => ?_))
      (.setGet _ 0 0 1 11 3 rfl)) (.setStage _ 0 0 1 11 3 none rfl ?_))
      (.setGet _ 1 1 2 20 2 rfl)) (.setStage _ 1 1 2 20 2 none rfl ?_)) (.apply _ 0)) (.apply _ 1)
    all_goals
      intro c hc
      dsimp only [Sys.call, Sys.stage]
      try simp only [Function.update_apply]
      try split_ifs
      all_goals simp_all [Call.set?, Block.ops, Op.key, Prod.ext_iff]
  exact ⟨h, timed_inv_reachable h⟩

end Gaby.Timed
