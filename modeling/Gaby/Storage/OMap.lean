import Mathlib.Order.Lattice
import Mathlib.Algebra.Group.Int
import Mathlib.Data.List.Basic

/-!
# Ordered maps

`OMap K V` is the ordered map that holds the rows of a `storage.DB`: the in-memory database
keeps them in an `rsc.io/omap` map (`memDB.data`, `internal/storage/db_test.go`), and every
implementation must scan them in key order. It is a list of entries whose keys strictly
increase (`OMap.sorted`), so a scan is a filter of the list and comes out in key order.

The operations are the `storage.DB` ones: `get`, `set`, `delete`, `deleteRange` and `scan`
(end-inclusive, as the `DB` interface says). Everything about them follows from the lookup
lemmas `get_set`, `get_delete`, `get_deleteRange` and from `mem_iff_get`, which says that an
entry is in the list exactly when `get` finds it.
-/

namespace Gaby

/-- An ordered map: entries with strictly increasing keys. -/
structure OMap (K V : Type) [LinearOrder K] where
  entries : List (K × V)
  sorted : entries.Pairwise (fun a b => a.1 < b.1)

namespace OMap

variable {K V : Type} [LinearOrder K]

/-- The first value stored under `k` in a list of entries. -/
def lookup (k : K) : List (K × V) → Option V
  | [] => none
  | (k', v) :: l => if k' = k then some v else lookup k l

/-- `(k, v)` placed in key order, replacing an entry of key `k`. -/
def insert (k : K) (v : V) : List (K × V) → List (K × V)
  | [] => [(k, v)]
  | (k', v') :: l =>
    if k < k' then (k, v) :: (k', v') :: l
    else if k = k' then (k, v) :: l
    else (k', v') :: insert k v l

theorem lookup_insert (k k' : K) (v : V) :
    ∀ l : List (K × V), lookup k' (insert k v l) = if k' = k then some v else lookup k' l
  | [] => by simp [insert, lookup, eq_comm]
  | (j, w) :: l => by
    rcases lt_trichotomy k j with h | rfl | h
    · by_cases hk : k' = k
      · subst hk; simp [insert, lookup, h]
      · simp [insert, lookup, h, hk, Ne.symm hk]
    · by_cases hk : k' = k
      · subst hk; simp [insert, lookup]
      · simp [insert, lookup, hk, Ne.symm hk]
    · have h1 : ¬k < j := not_lt.2 h.le
      have h2 : k ≠ j := ne_of_gt h
      have ih := lookup_insert k k' v l
      by_cases hk : k' = k
      · subst hk; simp [insert, lookup, h1, h2, ih, Ne.symm h2]
      · simp [insert, lookup, h1, h2, hk, ih]

theorem mem_insert_of_sorted {k : K} {v : V} {x : K × V} :
    ∀ {l : List (K × V)}, l.Pairwise (fun a b => a.1 < b.1) →
      (x ∈ insert k v l ↔ x = (k, v) ∨ x ∈ l ∧ x.1 ≠ k)
  | [], _ => by simp [insert]
  | (j, w) :: l, hl => by
    have hlt : ∀ y ∈ l, j < y.1 := fun y hy => List.rel_of_pairwise_cons hl hy
    unfold insert
    split_ifs with h1 h2
    · simp only [List.mem_cons]
      constructor
      · rintro (rfl | rfl | hx)
        · exact .inl rfl
        · exact .inr ⟨.inl rfl, ne_of_gt h1⟩
        · exact .inr ⟨.inr hx, ne_of_gt (h1.trans (hlt x hx))⟩
      · rintro (rfl | ⟨rfl | hx, -⟩) <;> simp_all
    · subst h2
      simp only [List.mem_cons]
      constructor
      · rintro (rfl | hx)
        · exact .inl rfl
        · exact .inr ⟨.inr hx, ne_of_gt (hlt x hx)⟩
      · rintro (rfl | ⟨rfl | hx, hne⟩) <;> simp_all
    · rw [List.mem_cons, mem_insert_of_sorted (List.Pairwise.of_cons hl), List.mem_cons]
      constructor
      · rintro (rfl | rfl | ⟨hx, hne⟩)
        · exact .inr ⟨.inl rfl, fun h => h2 h.symm⟩
        · exact .inl rfl
        · exact .inr ⟨.inr hx, hne⟩
      · rintro (rfl | ⟨rfl | hx, hne⟩)
        · exact .inr (.inl rfl)
        · exact .inl rfl
        · exact .inr (.inr ⟨hx, hne⟩)

theorem sorted_insert (k : K) (v : V) :
    ∀ {l : List (K × V)}, l.Pairwise (fun a b => a.1 < b.1) →
      (insert k v l).Pairwise (fun a b => a.1 < b.1)
  | [], _ => by simp [insert]
  | (j, w) :: l, hl => by
    have hlt : ∀ y ∈ l, j < y.1 := fun y hy => List.rel_of_pairwise_cons hl hy
    unfold insert
    split_ifs with h1 h2
    · refine .cons (fun y hy => ?_) hl
      rcases List.mem_cons.1 hy with rfl | hy
      · exact h1
      · exact h1.trans (hlt y hy)
    · subst h2; exact .cons (fun y hy => hlt y hy) (List.Pairwise.of_cons hl)
    · refine .cons (fun y hy => ?_) (sorted_insert k v (List.Pairwise.of_cons hl))
      rcases (mem_insert_of_sorted (List.Pairwise.of_cons hl)).1 hy with rfl | ⟨hy, -⟩
      · exact lt_of_le_of_ne (not_lt.1 h1) (Ne.symm h2)
      · exact hlt y hy

/-- The empty map. -/
def empty : OMap K V := ⟨[], .nil⟩

/-- `Get`: the value stored under `k`. -/
def get (m : OMap K V) (k : K) : Option V := lookup k m.entries

/-- `Set`: store `v` under `k`. -/
def set (m : OMap K V) (k : K) (v : V) : OMap K V :=
  ⟨insert k v m.entries, sorted_insert k v m.sorted⟩

/-- `Delete`: remove the entry of key `k`, if any. -/
def delete (m : OMap K V) (k : K) : OMap K V :=
  ⟨m.entries.filter (fun e => e.1 ≠ k), m.sorted.filter _⟩

/-- `DeleteRange`: remove every entry with `lo ≤ key ≤ hi`. -/
def deleteRange (m : OMap K V) (lo hi : K) : OMap K V :=
  ⟨m.entries.filter (fun e => ¬(lo ≤ e.1 ∧ e.1 ≤ hi)), m.sorted.filter _⟩

/-- The entries whose keys satisfy `p`, in key order. A `Scan(start, end)` of the database is
`scan` of the range `start ≤ key ≤ end` (`scanRange`); the code's scans of an encoded-prefix
range are `scan` of the prefix's predicate. -/
def scan (m : OMap K V) (p : K → Prop) [DecidablePred p] : List (K × V) :=
  m.entries.filter (fun e => p e.1)

/-- `Scan(start, end)`: the entries with `start ≤ key ≤ end`, in key order. -/
def scanRange (m : OMap K V) (lo hi : K) : List (K × V) := m.scan (fun k => lo ≤ k ∧ k ≤ hi)

/-! ## Lookup -/

theorem lookup_eq_some_iff {k : K} {v : V} :
    ∀ {l : List (K × V)}, l.Pairwise (fun a b => a.1 < b.1) → (lookup k l = some v ↔ (k, v) ∈ l)
  | [], _ => by simp [lookup]
  | (j, w) :: l, hl => by
    have hlt : ∀ y ∈ l, j < y.1 := fun y hy => List.rel_of_pairwise_cons hl hy
    unfold lookup
    split_ifs with h
    · subst h
      simp only [Option.some.injEq, List.mem_cons, Prod.mk.injEq, true_and]
      exact ⟨fun h => .inl h.symm, by rintro (h | h); exact h.symm; exact absurd (hlt _ h) (lt_irrefl _)⟩
    · rw [lookup_eq_some_iff (List.Pairwise.of_cons hl), List.mem_cons]
      exact ⟨.inr, by rintro (h | h); simp_all; exact h⟩

theorem mem_iff_get (m : OMap K V) {k : K} {v : V} : (k, v) ∈ m.entries ↔ m.get k = some v :=
  (lookup_eq_some_iff m.sorted).symm

@[simp] theorem get_empty (k : K) : (empty : OMap K V).get k = none := rfl

@[simp] theorem get_set (m : OMap K V) (k k' : K) (v : V) :
    (m.set k v).get k' = if k' = k then some v else m.get k' :=
  lookup_insert k k' v m.entries

theorem lookup_filter (p : K → Prop) [DecidablePred p] (k : K) :
    ∀ l : List (K × V), lookup k (l.filter (fun e => p e.1)) = if p k then lookup k l else none
  | [] => by simp [lookup]
  | (j, w) :: l => by
    rw [List.filter_cons]
    by_cases hjk : j = k
    · subst hjk; by_cases hj : p j <;> simp [lookup, hj, lookup_filter p j l]
    · by_cases hj : p j <;> simp [lookup, hj, hjk, lookup_filter p k l]

@[simp] theorem get_delete (m : OMap K V) (k k' : K) :
    (m.delete k).get k' = if k' = k then none else m.get k' :=
  (lookup_filter (· ≠ k) k' m.entries).trans (by by_cases h : k' = k <;> simp [h, get])

@[simp] theorem get_deleteRange (m : OMap K V) (lo hi k' : K) :
    (m.deleteRange lo hi).get k' = if lo ≤ k' ∧ k' ≤ hi then none else m.get k' :=
  (lookup_filter (fun j => ¬(lo ≤ j ∧ j ≤ hi)) k' m.entries).trans
    (by by_cases h : lo ≤ k' ∧ k' ≤ hi <;> simp [h, get])

/-! ## Scans -/

theorem mem_scan (m : OMap K V) (p : K → Prop) [DecidablePred p] {x : K × V} :
    x ∈ m.scan p ↔ p x.1 ∧ m.get x.1 = some x.2 := by
  rw [scan, List.mem_filter, ← mem_iff_get, decide_eq_true_iff, and_comm]

theorem scan_sorted (m : OMap K V) (p : K → Prop) [DecidablePred p] :
    (m.scan p).Pairwise (fun a b => a.1 < b.1) :=
  m.sorted.filter _

end OMap

end Gaby
