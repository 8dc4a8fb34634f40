import Gaby.Timed.Store
import Mathlib.Data.List.Nodup

/-!
# The timed store's invariant

`Inv db`: every primary row has its index row (`Indexed`, I1), and no index row of a key is
newer than the key's primary row (`NotAhead`, I2). Stale index rows, older than the primary
row or of a deleted key, are allowed: a second `Set` of a key in one batch reads the database,
not the batch, and cannot delete the index row the first one staged.

A batch is a list of `Block`s, the writes of one `Set`, one `Delete` or one iteration of
`DeleteRange` (`set_eq`, `delete_eq`, `deleteEntry_eq`). Applying one block keeps `Inv` when a
set block's time is above every index row of its key (`Block.Fresh`, `inv_apply_block`), and
applying a batch keeps it when its set blocks are fresh for the database and increase per key
(`Pending`, `inv_apply_pending`). A batch that does not touch a key leaves the key's rows as
they were (`prim_apply_frame`, `byTime_apply_frame`), so another batch's `Apply` keeps a batch
`Pending` (`pending_apply_frame`). Under `NotAhead`, `ScanAfter` never reaches its
`db.Panic` (`scanAfter_no_panic`).
-/

namespace Gaby.Timed

variable {K V : Type} [LinearOrder K]

/-- (I1) Every primary row `(kind, key) → (t, val)` has the index row
`(kind+"ByTime", t, key)`. -/
def Indexed (db : Store K V) : Prop :=
  ∀ k t v, db.prim.get k = some (t, v) → db.byTime.get ⟨t, k⟩ = some ()

/-- (I2) An index row `(kind+"ByTime", t', key)` is never newer than the key's primary row. -/
def NotAhead (db : Store K V) : Prop :=
  ∀ t' k, db.byTime.get ⟨t', k⟩ = some () → ∀ t v, db.prim.get k = some (t, v) → t' ≤ t

/-- The timed store's invariant. -/
structure Inv (db : Store K V) : Prop where
  indexed : Indexed db
  notAhead : NotAhead db

theorem inv_empty (kind : String) : Inv (⟨kind, .empty, .empty⟩ : Store K V) :=
  ⟨fun _ _ _ h => by simp at h, fun _ _ h => by simp at h⟩

/-! ## One write -/

@[simp] theorem Op.kind_apply (o : Op K V) (s : Store K V) : (o.apply s).kind = s.kind := by
  cases o <;> rfl

@[simp] theorem Store.kind_apply (s : Store K V) (b : Batch K V) : (s.apply b).kind = s.kind := by
  induction b generalizing s <;> simp_all

theorem Op.prim_frame (o : Op K V) (s : Store K V) {k : K} (h : o.key ≠ k) :
    (o.apply s).prim.get k = s.prim.get k := by
  cases o <;> simp only [Op.key] at h <;> simp [Op.apply, Ne.symm h]

theorem Op.byTime_frame (o : Op K V) (s : Store K V) {k : K} (h : o.key ≠ k) (t : Int) :
    (o.apply s).byTime.get ⟨t, k⟩ = s.byTime.get ⟨t, k⟩ := by
  cases o <;> simp only [Op.key] at h <;> simp [Op.apply, Ne.symm h]

theorem prim_apply_frame {k : K} :
    ∀ (b : Batch K V) (s : Store K V), (∀ o ∈ b, o.key ≠ k) → (s.apply b).prim.get k = s.prim.get k
  | [], _, _ => rfl
  | o :: b, s, h => by
    rw [Store.apply_cons, prim_apply_frame b _ fun o' ho' => h o' (.tail _ ho'),
      o.prim_frame s (h o (.head _))]

theorem byTime_apply_frame {k : K} (t : Int) :
    ∀ (b : Batch K V) (s : Store K V), (∀ o ∈ b, o.key ≠ k) →
      (s.apply b).byTime.get ⟨t, k⟩ = s.byTime.get ⟨t, k⟩
  | [], _, _ => rfl
  | o :: b, s, h => by
    rw [Store.apply_cons, byTime_apply_frame t b _ fun o' ho' => h o' (.tail _ ho'),
      o.byTime_frame s (h o (.head _))]

/-! ## Blocks -/

/-- The writes one timed call stages for one key: a `Set` (with the index time `old` it
drops, if the database had the key), or a `Delete` or `DeleteRange` iteration of the entry
with time `t`. -/
inductive Block (K V : Type)
  | set (key : K) (old : Option Int) (t : Int) (val : V)
  | delete (key : K) (t : Int)

namespace Block

/-- The key a block writes. -/
def key : Block K V → K
  | .set k _ _ _ | .delete k _ => k

/-- The writes of a block, in the order the code stages them. -/
def ops : Block K V → Batch K V
  | .set k old t v => (match old with | some o => [.deleteTime o k] | none => []) ++
      [.setTime t k, .set k t v]
  | .delete k t => [.delete k, .deleteTime t k]

omit [LinearOrder K] in
theorem key_of_mem_ops {bl : Block K V} {o : Op K V} (h : o ∈ bl.ops) : o.key = bl.key := by
  cases bl with
  | set k old t v => cases old <;> simp_all [ops, Op.key, key] <;> rcases h with rfl | rfl | rfl <;> rfl
  | delete k t => simp only [ops, List.mem_cons, List.mem_singleton, List.not_mem_nil, or_false] at h
                  rcases h with rfl | rfl <;> rfl

/-- A set block's time is above every index row of its key. -/
def Fresh (db : Store K V) : Block K V → Prop
  | .set k _ t _ => ∀ t', db.byTime.get ⟨t', k⟩ = some () → t' < t
  | .delete _ _ => True

/-- Two set blocks of one key, in staging order, carry increasing times. -/
def Precedes : Block K V → Block K V → Prop
  | .set k _ t _, .set k' _ t' _ => k = k' → t < t'
  | _, _ => True

omit [LinearOrder K] in
theorem precedes_delete (bl : Block K V) (k : K) (t : Int) : bl.Precedes (.delete k t) := by
  cases bl <;> trivial

@[simp] theorem prim_apply_set (db : Store K V) (k k' : K) (old : Option Int) (t : Int)
    (v : V) : (db.apply (Block.set k old t v).ops).prim.get k' =
      if k' = k then some (t, v) else db.prim.get k' := by
  cases old <;> simp [ops, Store.apply, Op.apply]

@[simp] theorem byTime_apply_set (db : Store K V) (k : K) (old : Option Int) (t : Int)
    (v : V) (r : TimeKey K) : (db.apply (Block.set k old t v).ops).byTime.get r =
      if r = ⟨t, k⟩ then some () else if old.map (⟨·, k⟩) = some r then none else
        db.byTime.get r := by
  cases old with
  | none => simp [ops, Store.apply, Op.apply]
  | some o =>
    by_cases h1 : r = ⟨t, k⟩ <;> by_cases h2 : r = ⟨o, k⟩ <;>
      simp [ops, Store.apply, Op.apply, h1, h2, eq_comm]

@[simp] theorem prim_apply_delete (db : Store K V) (k k' : K) (t : Int) :
    (db.apply (Block.delete k t).ops).prim.get k' = if k' = k then none else db.prim.get k' := by
  simp [ops, Store.apply, Op.apply]

@[simp] theorem byTime_apply_delete (db : Store K V) (k : K) (t : Int) (r : TimeKey K) :
    (db.apply (Block.delete k t).ops).byTime.get r =
      if r = ⟨t, k⟩ then none else db.byTime.get r := by
  simp [ops, Store.apply, Op.apply]

theorem byTime_apply_cases (db : Store K V) (bl : Block K V) {t' : Int} {k : K}
    (h : (db.apply bl.ops).byTime.get ⟨t', k⟩ = some ()) :
    db.byTime.get ⟨t', k⟩ = some () ∨ ∃ old v, bl = .set k old t' v := by
  cases bl with
  | set k0 old t v =>
    rw [byTime_apply_set] at h
    by_cases h1 : (⟨t', k⟩ : TimeKey K) = ⟨t, k0⟩
    · obtain ⟨rfl, rfl⟩ := TimeKey.mk.inj h1; exact .inr ⟨old, v, rfl⟩
    · rw [if_neg h1] at h; split_ifs at h; exact .inl h
  | delete k0 t =>
    rw [byTime_apply_delete] at h; split_ifs at h; exact .inl h

theorem inv_apply_block {db : Store K V} (hi : Inv db) {bl : Block K V} (hf : bl.Fresh db) :
    Inv (db.apply bl.ops) := by
  cases bl with
  | set k old t v =>
    refine ⟨fun k' t' v' h => ?_, fun t' k' h t'' v'' hp => ?_⟩
    · rw [prim_apply_set] at h
      rw [byTime_apply_set]
      split_ifs at h with hk
      · cases h; simp [hk]
      · have hne : (⟨t', k'⟩ : TimeKey K) ≠ ⟨t, k⟩ := fun e => hk (TimeKey.mk.inj e).2
        rw [if_neg hne, if_neg (by cases old <;> simp [Ne.symm hk]), hi.indexed k' t' v' h]
    · rw [prim_apply_set] at hp
      split_ifs at hp with hk
      · cases hp; subst hk
        rcases byTime_apply_cases db _ h with h | ⟨_, _, he⟩
        · exact (hf t' h).le
        · cases he; exact le_rfl
      · rcases byTime_apply_cases db _ h with h | ⟨_, _, he⟩
        · exact hi.notAhead t' k' h t'' v'' hp
        · cases he; exact absurd rfl hk
  | delete k t =>
    refine ⟨fun k' t' v' h => ?_, fun t' k' h t'' v'' hp => ?_⟩
    · rw [prim_apply_delete] at h
      split_ifs at h with hk
      rw [byTime_apply_delete, if_neg (fun e => hk (TimeKey.mk.inj e).2), hi.indexed k' t' v' h]
    · rw [prim_apply_delete] at hp
      split_ifs at hp with hk
      rcases byTime_apply_cases db _ h with h | ⟨_, _, he⟩
      · exact hi.notAhead t' k' h t'' v'' hp
      · cases he

end Block

/-! ## Batches of blocks -/

/-- A staged batch that keeps the invariant when applied: its set blocks are fresh for the
database and increase per key. -/
def Pending (db : Store K V) (bls : List (Block K V)) : Prop :=
  (∀ bl ∈ bls, bl.Fresh db) ∧ bls.Pairwise Block.Precedes

theorem inv_apply_pending :
    ∀ {bls : List (Block K V)} {db : Store K V}, Inv db → Pending db bls →
      Inv (db.apply (bls.flatMap Block.ops))
  | [], _, hi, _ => hi
  | bl :: bls, db, hi, ⟨hf, hp⟩ => by
    rw [List.flatMap_cons, Store.apply_append]
    refine inv_apply_pending (Block.inv_apply_block hi (hf bl (.head _))) ⟨fun bl' hb => ?_,
      List.Pairwise.of_cons hp⟩
    have hpre := List.rel_of_pairwise_cons hp hb
    have hf' := hf bl' (.tail _ hb)
    cases bl' with
    | delete => trivial
    | set k old t v =>
      intro t' ht
      rcases Block.byTime_apply_cases db bl ht with h | ⟨_, _, rfl⟩
      · exact hf' t' h
      · exact hpre rfl

theorem pending_apply_frame {db : Store K V} {bls : List (Block K V)} (hp : Pending db bls)
    (c : Batch K V) (hc : ∀ bl ∈ bls, ∀ o ∈ c, o.key ≠ bl.key) : Pending (db.apply c) bls := by
  refine ⟨fun bl hb => ?_, hp.2⟩
  have hf := hp.1 bl hb
  cases bl with
  | delete => trivial
  | set k old t v =>
    intro t' ht
    have hk : ∀ o ∈ c, o.key ≠ k := hc _ hb
    rw [byTime_apply_frame t' c db hk] at ht
    exact hf t' ht

/-! ## The timed calls as blocks -/

theorem set_eq (db : Store K V) (b : Batch K V) (key : K) (val : V) (t : Int) :
    set db b key val t = b ++ (Block.set key ((db.prim.get key).map Prod.fst) t val).ops := by
  unfold set Block.ops
  cases db.prim.get key <;> simp

theorem delete_eq (db : Store K V) (b : Batch K V) (key : K) :
    delete db b key = b ∨ ∃ t, delete db b key = b ++ (Block.delete key t).ops := by
  unfold delete
  cases db.prim.get key with
  | none => exact .inl rfl
  | some tv => exact .inr ⟨tv.1, rfl⟩

omit [LinearOrder K] in
theorem deleteEntry_eq (b : Batch K V) (e : Entry K V) :
    deleteEntry b e = b ++ (Block.delete e.key e.modTime).ops := rfl

/-! ## Entries with exactly one index row -/

/-- The index rows of `key` are exactly the one at its primary row's time: none when the key has
no primary row. -/
def Exact (db : Store K V) (key : K) : Prop :=
  ∀ t, db.byTime.get ⟨t, key⟩ = some () ↔ ∃ v, db.prim.get key = some (t, v)

/-- A batch of `Set`s of distinct keys, each staged against the database as it is: what a loop of
`Set`s stages when no key comes twice before an `Apply`. -/
def Staged (db : Store K V) (b : Batch K V) : Prop :=
  ∃ bls : List (Block K V), b = bls.flatMap Block.ops ∧ (bls.map Block.key).Nodup ∧
    ∀ bl ∈ bls, ∃ t v, bl = .set bl.key ((db.prim.get bl.key).map Prod.fst) t v

theorem staged_nil (db : Store K V) : Staged db [] := ⟨[], rfl, .nil, fun _ h => nomatch h⟩

theorem staged_set {db : Store K V} {b : Batch K V} (h : Staged db b) {key : K}
    (hk : ∀ o ∈ b, o.key ≠ key) (val : V) (t : Int) : Staged db (set db b key val t) := by
  obtain ⟨bls, rfl, hnd, hbl⟩ := h
  refine ⟨bls ++ [.set key ((db.prim.get key).map Prod.fst) t val], by
    rw [set_eq, List.flatMap_append, List.flatMap_singleton], ?_, ?_⟩
  · rw [List.map_append]
    refine List.nodup_append.2 ⟨hnd, List.nodup_singleton _, ?_⟩
    simp only [List.map_cons, List.map_nil, List.disjoint_singleton, Block.key]
    intro hm
    obtain ⟨bl, hb, hkey⟩ := List.mem_map.1 hm
    obtain ⟨t', v', he⟩ := hbl bl hb
    have hmem : Op.set bl.key t' v' ∈ bl.ops := by
      have : Op.set bl.key t' v' ∈ (Block.set bl.key ((db.prim.get bl.key).map Prod.fst) t' v').ops := by
        cases db.prim.get bl.key <;> simp [Block.ops]
      rwa [← he] at this
    exact hk _ (List.mem_flatMap.2 ⟨bl, hb, hmem⟩) hkey
  · intro bl hb
    rcases List.mem_append.1 hb with hb | hb
    · exact hbl bl hb
    · rw [List.mem_singleton.1 hb]; exact ⟨t, val, rfl⟩

theorem exact_apply_set {db : Store K V} {k : K} (h : Exact db k) (key : K) (t : Int) (val : V) :
    Exact (db.apply (Block.set key ((db.prim.get key).map Prod.fst) t val).ops) k := by
  intro t'
  rw [Block.byTime_apply_set, Block.prim_apply_set]
  by_cases hk : k = key
  · subst hk
    by_cases ht : t' = t
    · simp [ht]
    · have hne : (⟨t', k⟩ : TimeKey K) ≠ ⟨t, k⟩ := fun e => ht (TimeKey.mk.inj e).1
      rw [if_neg hne, if_pos rfl]
      simp only [Option.some.injEq, Prod.mk.injEq, Ne.symm ht, false_and, exists_false, iff_false]
      split_ifs with hold
      · simp
      · rw [h t']
        rintro ⟨v, hv⟩
        exact hold (by simp [hv])
  · have hne : (⟨t', k⟩ : TimeKey K) ≠ ⟨t, key⟩ := fun e => hk (TimeKey.mk.inj e).2
    rw [if_neg hne, if_neg (by cases db.prim.get key <;> simp [Ne.symm hk]), if_neg hk, h t']

theorem exact_apply_staged {k : K} :
    ∀ {db : Store K V} {b : Batch K V}, Exact db k → Staged db b → Exact (db.apply b) k := by
  intro db b h ⟨bls, hb, hnd, hbl⟩
  subst hb
  induction bls generalizing db with
  | nil => exact h
  | cons bl bls ih =>
    obtain ⟨t, v, he⟩ := hbl bl (.head _)
    have hnd' := List.nodup_cons.1 hnd
    rw [List.flatMap_cons, Store.apply_append]
    refine ih (he ▸ exact_apply_set h bl.key t v) hnd'.2 fun bl' hb' => ?_
    have hne : bl'.key ≠ bl.key := fun e => hnd'.1 (e ▸ List.mem_map_of_mem _ hb')
    obtain ⟨t', v', he'⟩ := hbl bl' (.tail _ hb')
    rw [he, Block.prim_apply_set, if_neg hne]
    exact ⟨t', v', he'⟩

/-! ## `ScanAfter` -/

theorem afterRows_no_panic (db : Store K V) (filter : Option (K → Bool)) :
    ∀ rows : List (TimeKey K), (∀ r ∈ rows, ∀ t2 v, db.prim.get r.key = some (t2, v) → r.t ≤ t2) →
      (afterRows db filter rows).2 = none
  | [], _ => rfl
  | r :: rows, h => by
    have ih := afterRows_no_panic db filter rows fun r' hr => h r' (.tail _ hr)
    unfold afterRows
    split_ifs
    · exact ih
    split
    · exact ih
    · rename_i t2 v hg
      have := h r (.head _) t2 v hg
      split_ifs with h1 h2
      · exact ih
      · exact absurd this (not_le.2 h2)
      · exact ih

theorem scanAfter_no_panic {db : Store K V} (h : NotAhead db) (t : Int)
    (filter : Option (K → Bool)) : (scanAfter db t filter).2 = none := by
  refine afterRows_no_panic db filter _ fun r hr t2 v hg => ?_
  obtain ⟨⟨r', u⟩, hm, rfl⟩ := List.mem_map.1 hr
  exact h r'.t r'.key ((OMap.mem_scan _ _).1 hm).2 t2 v hg

end Gaby.Timed
