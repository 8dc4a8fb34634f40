import Gaby.Storage.OMap
import Mathlib.Data.String.Basic
import Mathlib.Logic.Function.Basic

/-!
# The lock table

`MemLocker` (`internal/storage/db_test.go`) gives both `storage.DB` implementations their
`Lock(name)` and `Unlock(name)`: the in-memory database embeds it, and the Pebble adapter
forwards to one. It keeps a map `locks` from names to mutexes, guarded by the mutex `mu`.
`Lock(name)` takes `mu`, reads the name's mutex and makes one if there is none, releases `mu`
and locks the name's mutex. `Unlock(name)` takes `mu`, reads the name's mutex, releases `mu`,
panics if there is none, and unlocks it. A `timed.Watcher` takes the lock of its name around
each `Recent`.

The model runs any number of goroutines, each at a point (`PC`) of the code, with one step per
statement that touches shared state, in any interleaving (`LStep`). Mutexes are numbered in the
order `new(sync.Mutex)` makes them. A Go mutex has no owner; the ghost `holds` records the names
each goroutine has locked and not yet unlocked. A goroutine of a well-behaved client unlocks
only names it holds (`disciplined`).

* `lockerInv_step`: every step keeps the table's invariant (`LockerInv`), whatever the other
  goroutines do meanwhile. `mu` makes the lookup and the insertion of a name's mutex one
  critical section (`LockerInv.lockCreate`), so every goroutine locks the same mutex for a name
  and distinct names have distinct mutexes.
* `mutual_exclusion`: so, over every interleaving, no name is held by two goroutines, a
  goroutine waiting in `Lock(n)` can go on exactly when no goroutine holds `n`, and no goroutine
  of a well-behaved client panics (`Unlock of never locked key`) or unlocks an unlocked mutex.
-/

namespace Gaby.Storage

/-- A goroutine's point in `Lock` or `Unlock`. -/
inductive PC
  /-- In neither. -/
  | idle
  /-- `Lock(name)`: waiting for `l.mu`. -/
  | lockOuter (name : String)
  /-- `Lock(name)`, holding `l.mu`: `mu := l.locks[name]` next. -/
  | lockRead (name : String)
  /-- `Lock(name)`, holding `l.mu`, found no mutex: `l.locks[name] = new(sync.Mutex)` next. -/
  | lockCreate (name : String)
  /-- `Lock(name)`, holding `l.mu`, with the mutex `mu`: `l.mu.Unlock()` next. -/
  | lockRelease (name : String) (mu : Nat)
  /-- `Lock(name)`: `mu.Lock()`, waiting for `mu`. -/
  | lockWait (name : String) (mu : Nat)
  /-- `Unlock(name)`: waiting for `l.mu`. -/
  | unlockOuter (name : String)
  /-- `Unlock(name)`, holding `l.mu`: `mu := l.locks[name]` next. -/
  | unlockRead (name : String)
  /-- `Unlock(name)`, holding `l.mu`, with what it read (`none`: nil): `l.mu.Unlock()` next. -/
  | unlockRelease (name : String) (mu : Option Nat)
  /-- `Unlock(name)`, after `l.mu.Unlock()`: the panic if `mu` is nil, else `mu.Unlock()`. -/
  | unlockMu (name : String) (mu : Option Nat)
  /-- `panic("Unlock of never locked key")`. -/
  | panicked
  /-- `mu.Unlock()` of an unlocked mutex: `fatal error: sync: unlock of unlocked mutex`. -/
  | fatal
deriving DecidableEq

/-- Whether a goroutine at `pc` holds `l.mu`. -/
def PC.inOuter : PC → Bool
  | .lockRead _ | .lockCreate _ | .lockRelease _ _ | .unlockRead _ | .unlockRelease _ _ => true
  | _ => false

/-- A `MemLocker` with goroutines using it: `l.mu`, `l.locks` (a nil map reads as empty), the
number of mutexes made, whether each is locked, each goroutine's point, and, as a ghost, the
names each goroutine holds. -/
structure Locker where
  outer : Bool
  locks : OMap String Nat
  next : Nat
  locked : Nat → Bool
  pc : Nat → PC
  holds : Nat → List String

/-- No goroutine has started. -/
def Locker.init : Locker := ⟨false, .empty, 0, fun _ => false, fun _ => .idle, fun _ => []⟩

/-- Goroutine `t` moves to `p`. -/
def Locker.goto (l : Locker) (t : Nat) (p : PC) : Locker := { l with pc := Function.update l.pc t p }

/-- One step of one goroutine `t`. With `disciplined`, a goroutine calls `Unlock` only on a
name it holds. -/
inductive LStep (disciplined : Bool) : Locker → Locker → Prop
  | startLock (l : Locker) (t : Nat) (name : String) :
      l.pc t = .idle → LStep disciplined l (l.goto t (.lockOuter name))
  | lockOuter (l : Locker) (t : Nat) (name : String) :
      l.pc t = .lockOuter name → l.outer = false →
      LStep disciplined l { l with pc := Function.update l.pc t (.lockRead name), outer := true }
  | lockRead (l : Locker) (t : Nat) (name : String) :
      l.pc t = .lockRead name →
      LStep disciplined l (l.goto t (match l.locks.get name with
        | some mu => .lockRelease name mu
        | none => .lockCreate name))
  | lockCreate (l : Locker) (t : Nat) (name : String) :
      l.pc t = .lockCreate name →
      LStep disciplined l { l with
        pc := Function.update l.pc t (.lockRelease name l.next)
        locks := l.locks.set name l.next
        next := l.next + 1 }
  | lockRelease (l : Locker) (t : Nat) (name : String) (mu : Nat) :
      l.pc t = .lockRelease name mu →
      LStep disciplined l { l with pc := Function.update l.pc t (.lockWait name mu), outer := false }
  | lockWait (l : Locker) (t : Nat) (name : String) (mu : Nat) :
      l.pc t = .lockWait name mu → l.locked mu = false →
      LStep disciplined l { l with
        pc := Function.update l.pc t .idle
        locked := Function.update l.locked mu true
        holds := Function.update l.holds t (name :: l.holds t) }
  | startUnlock (l : Locker) (t : Nat) (name : String) :
      l.pc t = .idle → (disciplined → name ∈ l.holds t) →
      LStep disciplined l (l.goto t (.unlockOuter name))
  | unlockOuter (l : Locker) (t : Nat) (name : String) :
      l.pc t = .unlockOuter name → l.outer = false →
      LStep disciplined l { l with pc := Function.update l.pc t (.unlockRead name), outer := true }
  | unlockRead (l : Locker) (t : Nat) (name : String) :
      l.pc t = .unlockRead name →
      LStep disciplined l (l.goto t (.unlockRelease name (l.locks.get name)))
  | unlockRelease (l : Locker) (t : Nat) (name : String) (mu : Option Nat) :
      l.pc t = .unlockRelease name mu →
      LStep disciplined l { l with
        pc := Function.update l.pc t (.unlockMu name mu)
        outer := false }
  | unlockNil (l : Locker) (t : Nat) (name : String) :
      l.pc t = .unlockMu name none → LStep disciplined l (l.goto t .panicked)
  | unlockMu (l : Locker) (t : Nat) (name : String) (mu : Nat) :
      l.pc t = .unlockMu name (some mu) → l.locked mu = true →
      LStep disciplined l { l with
        pc := Function.update l.pc t .idle
        locked := Function.update l.locked mu false
        holds := Function.update l.holds t ((l.holds t).erase name) }
  | unlockUnlocked (l : Locker) (t : Nat) (name : String) (mu : Nat) :
      l.pc t = .unlockMu name (some mu) → l.locked mu = false →
      LStep disciplined l (l.goto t .fatal)

/-- The states of every interleaving. -/
inductive LReachable (disciplined : Bool) : Locker → Prop
  | init : LReachable disciplined .init
  | step {l l' : Locker} : LReachable disciplined l → LStep disciplined l l' →
      LReachable disciplined l'

/-! ## The invariant -/

/-- What a goroutine at `p` knows of the table: a goroutine in `Lock` that read `n`'s mutex `mu`
read the one the table has, and one about to make a mutex found none; a goroutine in
`Unlock(n)` holds `n`, and what it read is `n`'s mutex; no goroutine has failed. -/
def Locker.ThreadOk (l : Locker) (t : Nat) : PC → Prop
  | .idle | .lockOuter _ | .lockRead _ => True
  | .lockCreate n => l.locks.get n = none
  | .lockRelease n mu | .lockWait n mu => l.locks.get n = some mu
  | .unlockOuter n | .unlockRead n => n ∈ l.holds t
  | .unlockRelease n mu | .unlockMu n mu => n ∈ l.holds t ∧ mu = l.locks.get n
  | .panicked | .fatal => False

/-- The table's invariant. -/
structure LockerInv (l : Locker) : Prop where
  /-- At most one goroutine holds `l.mu`, and then it is locked. -/
  outerOne : ∀ t t', (l.pc t).inOuter → (l.pc t').inOuter → t = t'
  outerHeld : ∀ t, (l.pc t).inOuter → l.outer = true
  /-- The table's mutexes have been made; one not yet made is unlocked. -/
  made : ∀ n mu, l.locks.get n = some mu → mu < l.next
  fresh : ∀ mu, l.next ≤ mu → l.locked mu = false
  /-- Distinct names have distinct mutexes. -/
  inj : ∀ n n' mu, l.locks.get n = some mu → l.locks.get n' = some mu → n = n'
  /-- A name's mutex is locked exactly when a goroutine holds the name, and a name held has one. -/
  lockedIff : ∀ n mu, l.locks.get n = some mu → (l.locked mu = true ↔ ∃ t, n ∈ l.holds t)
  heldMapped : ∀ t n, n ∈ l.holds t → l.locks.get n ≠ none
  /-- No name is held twice. -/
  excl : ∀ t t' n, n ∈ l.holds t → n ∈ l.holds t' → t = t'
  nodup : ∀ t, (l.holds t).Nodup
  /-- Every goroutine's knowledge holds. -/
  thread : ∀ t, l.ThreadOk t (l.pc t)

theorem Locker.threadOk_congr {l l' : Locker} {t : Nat} (hl : l'.locks = l.locks)
    (hh : l'.holds t = l.holds t) (p : PC) : l'.ThreadOk t p ↔ l.ThreadOk t p := by
  cases p <;> simp [Locker.ThreadOk, hl, hh]

section Step

variable {l : Locker}

theorem update_pc_inOuter {l : Locker} {t : Nat} {p : PC} (t' : Nat) :
    (Function.update l.pc t p t').inOuter = if t' = t then p.inOuter else (l.pc t').inOuter := by
  by_cases ht : t' = t
  · subst ht; simp
  · simp [ht]

theorem LockerInv.thread_update (h : LockerInv l) {l' : Locker} {t : Nat} {p : PC}
    (hpc : l'.pc = Function.update l.pc t p) (hl : l'.locks = l.locks)
    (hh : ∀ t', t' ≠ t → l'.holds t' = l.holds t') (hok : l'.ThreadOk t p) :
    ∀ t', l'.ThreadOk t' (l'.pc t') := fun t' => by
  rw [hpc]
  by_cases ht : t' = t
  · subst ht; simpa using hok
  · rw [Function.update_noteq ht, Locker.threadOk_congr hl (hh t' ht)]
    exact h.thread t'

theorem LockerInv.goto (h : LockerInv l) {t : Nat} {p : PC} (hp : p.inOuter = (l.pc t).inOuter)
    (hok : l.ThreadOk t p) : LockerInv { l with pc := Function.update l.pc t p } := by
  have hin : ∀ t', (Function.update l.pc t p t').inOuter = (l.pc t').inOuter := fun t' => by
    rw [update_pc_inOuter]; split_ifs with ht <;> simp [ht, hp]
  exact ⟨fun a b ha hb => h.outerOne a b (hin a ▸ ha) (hin b ▸ hb),
    fun a ha => h.outerHeld a (hin a ▸ ha), h.made, h.fresh, h.inj, h.lockedIff, h.heldMapped,
    h.excl, h.nodup, h.thread_update rfl rfl (fun _ _ => rfl) hok⟩

theorem LockerInv.acquire (h : LockerInv l) {t : Nat} {p : PC} (hfree : l.outer = false)
    (hok : l.ThreadOk t p) :
    LockerInv { l with pc := Function.update l.pc t p, outer := true } := by
  have hnone : ∀ t', (l.pc t').inOuter = false := fun t' => by
    by_contra hc; simp [h.outerHeld t' (by simpa using hc)] at hfree
  refine ⟨fun a b ha hb => ?_, fun _ _ => rfl, h.made, h.fresh, h.inj, h.lockedIff, h.heldMapped,
    h.excl, h.nodup, h.thread_update rfl rfl (fun _ _ => rfl) hok⟩
  simp only [update_pc_inOuter] at ha hb
  split_ifs at ha hb with h₁ h₂ <;> simp_all

theorem LockerInv.release (h : LockerInv l) {t : Nat} {p : PC} (ht : (l.pc t).inOuter)
    (hp : p.inOuter = false) (hok : l.ThreadOk t p) :
    LockerInv { l with pc := Function.update l.pc t p, outer := false } := by
  have hnone : ∀ t', (Function.update l.pc t p t').inOuter = false := fun t' => by
    rw [update_pc_inOuter]
    split_ifs with h'
    · exact hp
    · by_contra hc; exact h' (h.outerOne t' t (by simpa using hc) ht)
  exact ⟨fun a _ ha _ => absurd ((hnone a).symm.trans ha) (by decide),
    fun a ha => absurd ((hnone a).symm.trans ha) (by decide), h.made, h.fresh, h.inj, h.lockedIff,
    h.heldMapped, h.excl, h.nodup, h.thread_update rfl rfl (fun _ _ => rfl) hok⟩

theorem LockerInv.lockCreate (h : LockerInv l) {t : Nat} {name : String}
    (hpc : l.pc t = .lockCreate name) :
    LockerInv { l with
      pc := Function.update l.pc t (.lockRelease name l.next)
      locks := l.locks.set name l.next
      next := l.next + 1 } := by
  have hnone : l.locks.get name = none := by simpa [hpc, Locker.ThreadOk] using h.thread t
  have hheld : ∀ t', name ∉ l.holds t' := fun t' hm => h.heldMapped t' name hm hnone
  have hin : ∀ t', t' ≠ t → (l.pc t').inOuter = false := fun t' hne => by
    by_contra hc; exact hne (h.outerOne t' t (by simpa using hc) (by simp [hpc, PC.inOuter]))
  have hio : ∀ t', (Function.update l.pc t (.lockRelease name l.next) t').inOuter =
      (l.pc t').inOuter := fun t' => by
    rw [update_pc_inOuter]; split_ifs with ht <;> simp [ht, hpc, PC.inOuter]
  refine ⟨fun a b ha hb => h.outerOne a b (hio a ▸ ha) (hio b ▸ hb),
    fun a ha => h.outerHeld a (hio a ▸ ha), fun n mu hg => ?_,
    fun mu hmu => h.fresh mu (by dsimp only at hmu; omega), fun n n' mu hn hn' => ?_,
    fun n mu hg => ?_, fun t' n hm => ?_, h.excl, h.nodup, fun t' => ?_⟩
  · dsimp only at hg ⊢
    rw [OMap.get_set] at hg
    split_ifs at hg
    · cases hg; omega
    · exact (h.made n mu hg).trans (Nat.lt_succ_self _)
  · dsimp only at hn hn'
    rw [OMap.get_set] at hn hn'
    split_ifs at hn hn' with h₁ h₂ h₂
    · rw [h₁, h₂]
    · cases hn; exact absurd (h.made n' _ hn') (lt_irrefl _)
    · cases hn'; exact absurd (h.made n _ hn) (lt_irrefl _)
    · exact h.inj n n' mu hn hn'
  · dsimp only at hg ⊢
    rw [OMap.get_set] at hg
    split_ifs at hg with h₁
    · cases hg; subst h₁
      simp only [h.fresh l.next le_rfl, Bool.false_eq_true, false_iff, not_exists]
      exact hheld
    · exact h.lockedIff n mu hg
  · dsimp only at hm ⊢
    rw [OMap.get_set]
    split_ifs
    · simp
    · exact h.heldMapped t' n hm
  · dsimp only
    by_cases ht : t' = t
    · subst ht; simp [Locker.ThreadOk]
    · rw [Function.update_noteq ht]
      have hk := h.thread t'
      have hio := hin t' ht
      cases hq : l.pc t' <;>
        simp only [hq, Locker.ThreadOk, PC.inOuter, Bool.true_eq_false] at hk hio ⊢
      · rw [OMap.get_set, if_neg (fun he => by rw [he, hnone] at hk; cases hk)]; exact hk
      · exact hk
      · exact ⟨hk.1, by rw [OMap.get_set, if_neg (fun he => hheld t' (by rw [← he]; exact hk.1)),
          hk.2]⟩

theorem LockerInv.lockWait (h : LockerInv l) {t : Nat} {name : String} {mu : Nat}
    (hpc : l.pc t = .lockWait name mu) (hfree : l.locked mu = false) :
    LockerInv { l with
      pc := Function.update l.pc t .idle
      locked := Function.update l.locked mu true
      holds := Function.update l.holds t (name :: l.holds t) } := by
  have hget : l.locks.get name = some mu := by simpa [hpc, Locker.ThreadOk] using h.thread t
  have hfreeName : ∀ t', name ∉ l.holds t' := fun t' hm =>
    absurd ((h.lockedIff name mu hget).2 ⟨t', hm⟩) (by simp [hfree])
  have hmade := h.made name mu hget
  have hio : ∀ t', (Function.update l.pc t .idle t').inOuter = (l.pc t').inOuter := fun t' => by
    rw [update_pc_inOuter]; split_ifs with ht <;> simp [ht, hpc, PC.inOuter]
  refine ⟨fun a b ha hb => h.outerOne a b (hio a ▸ ha) (hio b ▸ hb),
    fun a ha => h.outerHeld a (hio a ▸ ha), h.made, fun m hm => ?_, h.inj, fun n m hg => ?_,
    fun t' n hm => ?_, fun a b n ha hb => ?_, fun t' => ?_,
    h.thread_update rfl rfl (fun t' ht => by simp [ht]) (by simp [Locker.ThreadOk])⟩
  · dsimp only at hm ⊢
    rw [Function.update_apply, if_neg (by omega)]; exact h.fresh m hm
  · dsimp only
    rw [Function.update_apply]
    by_cases hm : m = mu
    · subst hm
      obtain rfl := h.inj n name m hg hget
      simp only [↓reduceIte, true_iff]
      exact ⟨t, by simp⟩
    · rw [if_neg hm, h.lockedIff n m hg]
      have hn : n ≠ name := fun he => hm (by rw [he, hget] at hg; exact (Option.some.inj hg).symm)
      refine exists_congr fun t' => ?_
      by_cases ht : t' = t
      · subst ht; simp [hn]
      · simp [ht]
  · dsimp only at hm
    rw [Function.update_apply] at hm
    split_ifs at hm with ht
    · rcases List.mem_cons.1 hm with rfl | hm
      · simp [hget]
      · exact h.heldMapped t n hm
    · exact h.heldMapped t' n hm
  · dsimp only at ha hb
    rw [Function.update_apply] at ha hb
    split_ifs at ha hb with h₁ h₂ h₂
    · rw [h₁, h₂]
    · subst h₁
      rcases List.mem_cons.1 ha with rfl | ha
      · exact absurd hb (hfreeName b)
      · exact h.excl a b n ha hb
    · subst h₂
      rcases List.mem_cons.1 hb with rfl | hb
      · exact absurd ha (hfreeName a)
      · exact h.excl a b n ha hb
    · exact h.excl a b n ha hb
  · dsimp only
    rw [Function.update_apply]
    split_ifs
    · exact List.nodup_cons.2 ⟨hfreeName t, h.nodup t⟩
    · exact h.nodup t'

theorem LockerInv.unlockMu (h : LockerInv l) {t : Nat} {name : String} {mu : Nat}
    (hpc : l.pc t = .unlockMu name (some mu)) :
    LockerInv { l with
      pc := Function.update l.pc t .idle
      locked := Function.update l.locked mu false
      holds := Function.update l.holds t ((l.holds t).erase name) } := by
  have hk : name ∈ l.holds t ∧ some mu = l.locks.get name := by
    simpa [hpc, Locker.ThreadOk] using h.thread t
  have hget := hk.2.symm
  have hmade := h.made name mu hget
  have hmem : ∀ t' n, n ∈ Function.update l.holds t ((l.holds t).erase name) t' →
      n ∈ l.holds t' ∧ (t' = t → n ≠ name) := fun t' n hm => by
    rw [Function.update_apply] at hm
    split_ifs at hm with ht
    · subst ht
      exact ⟨List.mem_of_mem_erase hm, fun _ he => (h.nodup t').not_mem_erase (he ▸ hm)⟩
    · exact ⟨hm, fun h' => absurd h' ht⟩
  have hio : ∀ t', (Function.update l.pc t .idle t').inOuter = (l.pc t').inOuter := fun t' => by
    rw [update_pc_inOuter]; split_ifs with ht <;> simp [ht, hpc, PC.inOuter]
  refine ⟨fun a b ha hb => h.outerOne a b (hio a ▸ ha) (hio b ▸ hb),
    fun a ha => h.outerHeld a (hio a ▸ ha), h.made, fun m hm => ?_, h.inj, fun n m hg => ?_,
    fun t' n hm => h.heldMapped t' n (hmem t' n hm).1,
    fun a b n ha hb => h.excl a b n (hmem a n ha).1 (hmem b n hb).1, fun t' => ?_,
    h.thread_update rfl rfl (fun t' ht => by simp [ht]) (by simp [Locker.ThreadOk])⟩
  · dsimp only at hm ⊢
    rw [Function.update_apply, if_neg (by omega)]; exact h.fresh m hm
  · dsimp only
    rw [Function.update_apply]
    by_cases hm : m = mu
    · subst hm
      obtain rfl := h.inj n name m hg hget
      simp only [↓reduceIte, Bool.false_eq_true, false_iff, not_exists]
      intro t' hn
      obtain ⟨hn, hne⟩ := hmem t' n hn
      exact hne (h.excl t' t n hn hk.1) rfl
    · rw [if_neg hm, h.lockedIff n m hg]
      have hn : n ≠ name := fun he => hm (by rw [he, hget] at hg; exact (Option.some.inj hg).symm)
      refine exists_congr fun t' => ?_
      by_cases ht : t' = t
      · subst ht; simp [List.mem_erase_of_ne hn]
      · simp [ht]
  · dsimp only
    rw [Function.update_apply]
    split_ifs
    · exact (h.nodup t).erase name
    · exact h.nodup t'

theorem lockerInv_step {l' : Locker} (h : LockerInv l) (hs : LStep true l l') : LockerInv l' := by
  cases hs with
  | startLock t name hpc => exact h.goto (by simp [hpc, PC.inOuter]) trivial
  | lockOuter t name _ hfree => exact h.acquire hfree trivial
  | lockRead t name hpc =>
    apply h.goto (by cases l.locks.get name <;> simp [hpc, PC.inOuter])
    cases hg : l.locks.get name <;> simp [Locker.ThreadOk, hg]
  | lockCreate t name hpc => exact h.lockCreate hpc
  | lockRelease t name mu hpc =>
    exact h.release (by simp [hpc, PC.inOuter]) rfl (by simpa [hpc, Locker.ThreadOk] using h.thread t)
  | lockWait t name mu hpc hfree => exact h.lockWait hpc hfree
  | startUnlock t name hpc hheld => exact h.goto (by simp [hpc, PC.inOuter]) (hheld rfl)
  | unlockOuter t name hpc hfree =>
    exact h.acquire hfree (by simpa [hpc, Locker.ThreadOk] using h.thread t)
  | unlockRead t name hpc =>
    exact h.goto (by simp [hpc, PC.inOuter])
      ⟨by simpa [hpc, Locker.ThreadOk] using h.thread t, rfl⟩
  | unlockRelease t name mu hpc =>
    exact h.release (by simp [hpc, PC.inOuter]) rfl (by simpa [hpc, Locker.ThreadOk] using h.thread t)
  | unlockNil t name hpc =>
    have hk : name ∈ l.holds t ∧ none = l.locks.get name := by
      simpa [hpc, Locker.ThreadOk] using h.thread t
    exact absurd hk.2.symm (h.heldMapped t name hk.1)
  | unlockMu t name mu hpc _ => exact h.unlockMu hpc
  | unlockUnlocked t name mu hpc hlocked =>
    have hk : name ∈ l.holds t ∧ some mu = l.locks.get name := by
      simpa [hpc, Locker.ThreadOk] using h.thread t
    exact absurd ((h.lockedIff name mu hk.2.symm).2 ⟨t, hk.1⟩) (by simp [hlocked])

end Step

theorem lockerInv_init : LockerInv Locker.init :=
  ⟨fun _ _ h => by simp [Locker.init, PC.inOuter] at h, fun _ h => by simp [Locker.init, PC.inOuter] at h,
    fun _ _ h => by simp [Locker.init] at h, fun _ _ => rfl, fun _ _ _ h => by simp [Locker.init] at h,
    fun _ _ h => by simp [Locker.init] at h, fun _ _ h => by simp [Locker.init] at h,
    fun _ _ _ h => by simp [Locker.init] at h, fun _ => List.nodup_nil,
    fun _ => trivial⟩

theorem LReachable.inv {l : Locker} (h : LReachable true l) : LockerInv l := by
  induction h with
  | init => exact lockerInv_init
  | step _ hs ih => exact lockerInv_step ih hs

/-- **Mutual exclusion.** Over every interleaving of any number of goroutines that unlock only
names they hold, no name is held by two goroutines; a goroutine waiting in `Lock(n)` can take
`n`'s mutex exactly when no goroutine holds `n`; and no goroutine panics or unlocks an unlocked
mutex. -/
theorem mutual_exclusion {l : Locker} (h : LReachable true l) :
    (∀ t t' n, n ∈ l.holds t → n ∈ l.holds t' → t = t') ∧
    (∀ t n mu, l.pc t = .lockWait n mu → (l.locked mu = false ↔ ∀ t', n ∉ l.holds t')) ∧
    ∀ t, l.pc t ≠ .panicked ∧ l.pc t ≠ .fatal := by
  have hi := h.inv
  refine ⟨hi.excl, fun t n mu hpc => ?_, fun t => ⟨fun hp => ?_, fun hp => ?_⟩⟩
  · have hget : l.locks.get n = some mu := by simpa [hpc, Locker.ThreadOk] using hi.thread t
    rw [← Bool.not_eq_true, hi.lockedIff n mu hget, not_exists]
  · simpa [hp, Locker.ThreadOk] using hi.thread t
  · simpa [hp, Locker.ThreadOk] using hi.thread t

/-- Goroutine `0` locks `"a"`, making its mutex; goroutine `1` then calls `Lock("a")`, finds that
mutex and waits on it. -/
def lockContended : Locker :=
  let l1 := Locker.init.goto 0 (.lockOuter "a")
  let l2 := { l1 with pc := Function.update l1.pc 0 (.lockRead "a"), outer := true }
  let l3 := l2.goto 0 (.lockCreate "a")
  let l4 := { l3 with
    pc := Function.update l3.pc 0 (.lockRelease "a" l3.next)
    locks := l3.locks.set "a" l3.next
    next := l3.next + 1 }
  let l5 := { l4 with pc := Function.update l4.pc 0 (.lockWait "a" 0), outer := false }
  let l6 := { l5 with
    pc := Function.update l5.pc 0 .idle
    locked := Function.update l5.locked 0 true
    holds := Function.update l5.holds 0 ("a" :: l5.holds 0) }
  let l7 := l6.goto 1 (.lockOuter "a")
  let l8 := { l7 with pc := Function.update l7.pc 1 (.lockRead "a"), outer := true }
  let l9 := l8.goto 1 (match l8.locks.get "a" with
    | some mu => .lockRelease "a" mu
    | none => .lockCreate "a")
  { l9 with pc := Function.update l9.pc 1 (.lockWait "a" 0), outer := false }

/-- In `lockContended`, goroutine `0` holds `"a"` and goroutine `1` waits on its mutex. -/
theorem mutual_exclusion_contended :
    lockContended.holds 0 = ["a"] ∧ lockContended.pc 1 = .lockWait "a" 0 ∧
    LReachable true lockContended ∧
    ((∀ t t' n, n ∈ lockContended.holds t → n ∈ lockContended.holds t' → t = t') ∧
      (∀ t n mu, lockContended.pc t = .lockWait n mu →
        (lockContended.locked mu = false ↔ ∀ t', n ∉ lockContended.holds t')) ∧
      ∀ t, lockContended.pc t ≠ .panicked ∧ lockContended.pc t ≠ .fatal) := by
  have h : LReachable true lockContended :=
    .step (.step (.step (.step (.step (.step (.step (.step (.step (.step .init
      (.startLock _ 0 "a" rfl)) (.lockOuter _ 0 "a" rfl rfl)) (.lockRead _ 0 "a" rfl))
      (.lockCreate _ 0 "a" rfl)) (.lockRelease _ 0 "a" 0 rfl)) (.lockWait _ 0 "a" 0 rfl rfl))
      (.startLock _ 1 "a" rfl)) (.lockOuter _ 1 "a" rfl rfl)) (.lockRead _ 1 "a" rfl))
      (.lockRelease _ 1 "a" 0 (by simp [Locker.goto, Locker.init]))
  exact ⟨rfl, rfl, h, mutual_exclusion h⟩

end Gaby.Storage
