import Gaby.Timed.Store
import Mathlib.Data.List.Nodup

/-!
# `now()` under concurrency

`timed.now` (`internal/storage/test.go`) hands out DBTimes from the process-wide
`lastTime atomic.Int64`: it loads `old`, reads the clock, takes `old+1` when the reading is not
past `old`, and stores its result with `CompareAndSwap(old, t)`, starting over when another
goroutine stored first. A `NowSys` holds `lastTime` and where each goroutine is in `now`
(`Phase`); as a ghost it also holds a logical clock, ticking at each call's start and return,
and the calls that returned. A step (`NowStep`) is one goroutine's load, clock reading, CAS,
start or return, in any interleaving, with any clock readings, as long as `old+1` does not
overflow.

Every result is above `lastTime` as it was loaded, and a CAS only succeeds from the value it
loaded, so `lastTime` only grows and each result is stored by exactly one CAS. `NowInv` says
what that gives in every reachable state, phase by phase, and `NowInv.step` that each step keeps
it: the returned DBTimes are pairwise distinct, and a call that began after another returned
returns more (`now_unique_increasing`).
-/

namespace Gaby.Timed

/-- Where a goroutine is in `now()`. Each phase of a call carries, as a ghost, the logical time
`b` at which the call began. -/
inductive Phase
  /-- Not in `now()`. -/
  | idle
  /-- At the top of the `for` loop. -/
  | loop (b : Nat)
  /-- After `old := lastTime.Load()`. -/
  | loaded (b : Nat) (old : Int)
  /-- After computing `t` from the clock. -/
  | ready (b : Nat) (old t : Int)
  /-- After a successful `CompareAndSwap(old, t)`, about to return `t`. -/
  | won (b : Nat) (t : Int)
deriving DecidableEq, Repr

/-- A call of `now()` that returned: its goroutine, the logical times it began and returned at,
and its result. -/
structure NowCall where
  g : Nat
  start : Nat
  stop : Nat
  t : Int
deriving DecidableEq, Repr

/-- `lastTime`, each goroutine's phase, and the ghost clock and returned calls. -/
structure NowSys where
  lastTime : Int
  phase : Nat → Phase
  clock : Nat
  calls : List NowCall

/-- `t := time.Now().UnixNano(); if t <= old { t = old + 1 }`, for the clock reading `c`. -/
def nextTime (old c : Int) : Int := if c ≤ old then int64 (old + 1) else c

namespace NowSys

/-- Goroutine `g` calls `now()`. -/
def begin (s : NowSys) (g : Nat) : NowSys :=
  { s with phase := Function.update s.phase g (.loop s.clock), clock := s.clock + 1 }

/-- `old := lastTime.Load()`. -/
def load (s : NowSys) (g b : Nat) : NowSys :=
  { s with phase := Function.update s.phase g (.loaded b s.lastTime) }

/-- The clock reads `c`. -/
def read (s : NowSys) (g b : Nat) (old c : Int) : NowSys :=
  { s with phase := Function.update s.phase g (.ready b old (nextTime old c)) }

/-- `lastTime.CompareAndSwap(old, t)`: on success the call returns `t` next, on failure it goes
round the loop again. -/
def cas (s : NowSys) (g b : Nat) (old t : Int) : NowSys :=
  if s.lastTime = old then { s with lastTime := t, phase := Function.update s.phase g (.won b t) }
  else { s with phase := Function.update s.phase g (.loop b) }

/-- `return DBTime(t)`. -/
def ret (s : NowSys) (g b : Nat) (t : Int) : NowSys :=
  { s with
    phase := Function.update s.phase g .idle, clock := s.clock + 1,
    calls := s.calls ++ [⟨g, b, s.clock, t⟩] }

end NowSys

/-- One step of one goroutine. A clock reading `c` is any value, but when it is not past `old`
the code adds one to `old`, and the run keeps that within `int64`. -/
inductive NowStep : NowSys → NowSys → Prop
  | begin (s : NowSys) (g : Nat) : s.phase g = .idle → NowStep s (s.begin g)
  | load (s : NowSys) (g b : Nat) : s.phase g = .loop b → NowStep s (s.load g b)
  | read (s : NowSys) (g b : Nat) (old c : Int) : s.phase g = .loaded b old →
      (c ≤ old → old < maxInt64) → NowStep s (s.read g b old c)
  | cas (s : NowSys) (g b : Nat) (old t : Int) : s.phase g = .ready b old t →
      NowStep s (s.cas g b old t)
  | ret (s : NowSys) (g b : Nat) (t : Int) : s.phase g = .won b t → NowStep s (s.ret g b t)

/-- The states of a process: `lastTime` starts at zero and no goroutine is in `now()`. -/
inductive NowReachable : NowSys → Prop
  | init : NowReachable ⟨0, fun _ => .idle, 0, []⟩
  | step {s s' : NowSys} : NowReachable s → NowStep s s' → NowReachable s'

theorem lt_nextTime {old c : Int} (h0 : 0 ≤ old) (h : c ≤ old → old < maxInt64) :
    old < nextTime old c := by
  unfold nextTime
  split_ifs with hc
  · have := h hc
    unfold maxInt64 at this
    rw [int64_of_lt (by omega) (by omega)]
    omega
  · omega

/-! ## The invariant -/

namespace Phase

/-- When the phase's call began; `none` outside `now()`. -/
def start : Phase → Option Nat
  | .idle => none
  | .loop b | .loaded b _ | .ready b _ _ | .won b _ => some b

/-- What a phase's values promise: a loaded time is not negative, a computed time is above the
loaded one, and a won time is stored in `lastTime`. -/
def Ok (last : Int) : Phase → Prop
  | .loaded _ old => 0 ≤ old
  | .ready _ old t => 0 ≤ old ∧ old < t
  | .won _ t => t ≤ last
  | _ => True

/-- The phase's call returns more than `a`. -/
def Above (a : Int) : Phase → Prop
  | .loaded _ old | .ready _ old _ => a ≤ old
  | .won _ t => a < t
  | _ => True

theorem Ok.mono {p : Phase} {last last' : Int} (h : p.Ok last) (hle : last ≤ last') :
    p.Ok last' := by
  cases p <;> simp only [Ok] at * <;> omega

end Phase

/-- The invariant of every reachable state. The returned calls are below `lastTime`, so a call
that starts after one returned loads at least its result (`above`); a won time is above every
returned one, so results are distinct (`won_fresh`, `won_unique`). -/
structure NowInv (s : NowSys) : Prop where
  nonneg : 0 ≤ s.lastTime
  ok : ∀ g, (s.phase g).Ok s.lastTime
  started : ∀ g b, (s.phase g).start = some b → b < s.clock
  returned_le : ∀ c ∈ s.calls, c.t ≤ s.lastTime
  returned_before : ∀ c ∈ s.calls, c.start < c.stop ∧ c.stop < s.clock
  above : ∀ g b, (s.phase g).start = some b → ∀ c ∈ s.calls, c.stop < b → (s.phase g).Above c.t
  nodup : (s.calls.map NowCall.t).Nodup
  won_fresh : ∀ g b t, s.phase g = .won b t → ∀ c ∈ s.calls, c.t ≠ t
  won_unique : ∀ g g' b b' t, s.phase g = .won b t → s.phase g' = .won b' t → g = g'
  ordered : ∀ c ∈ s.calls, ∀ c' ∈ s.calls, c.stop < c'.start → c.t < c'.t

theorem nowInv_init : NowInv ⟨0, fun _ => .idle, 0, []⟩ :=
  ⟨le_rfl, fun _ => trivial, (fun _ _ h => nomatch h), (fun _ h => nomatch h),
    (fun _ h => nomatch h), (fun _ _ h => nomatch h), .nil, (fun _ _ _ h => nomatch h),
    (fun _ _ _ _ _ h => nomatch h), fun _ h => nomatch h⟩

variable {s : NowSys}

theorem NowInv.ok_of (hi : NowInv s) {g : Nat} {p : Phase} (hg : s.phase g = p) :
    p.Ok s.lastTime :=
  hg ▸ hi.ok g

theorem NowInv.above_of (hi : NowInv s) {g : Nat} {p : Phase} (hg : s.phase g = p) :
    ∀ b, p.start = some b → ∀ c ∈ s.calls, c.stop < b → p.Above c.t :=
  hg ▸ hi.above g

theorem NowInv.setPhase (hi : NowInv s) {g : Nat} {p : Phase} (hok : p.Ok s.lastTime)
    (hstart : p.start = (s.phase g).start)
    (habove : ∀ b, p.start = some b → ∀ c ∈ s.calls, c.stop < b → p.Above c.t)
    (hwon : ∀ b t, p ≠ .won b t) : NowInv { s with phase := Function.update s.phase g p } := by
  refine ⟨hi.nonneg, fun g' => ?_, fun g' b hb => ?_, hi.returned_le, hi.returned_before,
    fun g' b hb => ?_, hi.nodup, fun g' b t ht => ?_, fun g₁ g₂ b₁ b₂ t h₁ h₂ => ?_, hi.ordered⟩
  all_goals dsimp only at *
  · by_cases h : g' = g
    · subst h; simpa using hok
    · simpa [h] using hi.ok g'
  · by_cases h : g' = g
    · subst h; exact hi.started g' b (by simpa [hstart] using hb)
    · exact hi.started g' b (by simpa [h] using hb)
  · by_cases h : g' = g
    · subst h; simpa using habove b (by simpa using hb)
    · simpa [h] using hi.above g' b (by simpa [h] using hb)
  · by_cases h : g' = g
    · subst h; exact absurd (by simpa using ht) (hwon b t)
    · exact hi.won_fresh g' b t (by simpa [h] using ht)
  · by_cases h1 : g₁ = g
    · subst h1; exact absurd (by simpa using h₁) (hwon b₁ t)
    by_cases h2 : g₂ = g
    · subst h2; exact absurd (by simpa using h₂) (hwon b₂ t)
    exact hi.won_unique g₁ g₂ b₁ b₂ t (by simpa [h1] using h₁) (by simpa [h2] using h₂)

theorem NowInv.begin (hi : NowInv s) (g : Nat) : NowInv (s.begin g) := by
  refine ⟨hi.nonneg, fun g' => ?_, fun g' b hb => ?_, hi.returned_le,
    fun c hc => (hi.returned_before c hc).imp_right Nat.lt_succ_of_lt, fun g' b hb c hc hlt => ?_,
    hi.nodup,
    fun g' b t ht => ?_, fun g₁ g₂ b₁ b₂ t h₁ h₂ => ?_, hi.ordered⟩
  all_goals simp only [NowSys.begin, Function.update_apply] at *
  · split_ifs
    · trivial
    · exact hi.ok g'
  · split_ifs at hb with h
    · cases hb; omega
    · exact Nat.lt_succ_of_lt (hi.started g' b hb)
  · split_ifs at hb ⊢ with h
    · trivial
    · exact hi.above g' b hb c hc hlt
  · split_ifs at ht
    exact hi.won_fresh g' b t ht
  · split_ifs at h₁ h₂
    exact hi.won_unique g₁ g₂ b₁ b₂ t h₁ h₂

theorem NowInv.load (hi : NowInv s) {g b : Nat} (hg : s.phase g = .loop b) :
    NowInv (s.load g b) :=
  hi.setPhase hi.nonneg (by rw [hg]; rfl)
    (fun _ _ c hc _ => hi.returned_le c hc) (fun _ _ h => nomatch h)

theorem NowInv.read (hi : NowInv s) {g b : Nat} {old c : Int} (hg : s.phase g = .loaded b old)
    (hc : c ≤ old → old < maxInt64) : NowInv (s.read g b old c) := by
  have hok := hi.ok_of hg
  have habove := hi.above_of hg
  exact hi.setPhase ⟨hok, lt_nextTime hok hc⟩ (by rw [hg]; rfl) habove (fun _ _ h => nomatch h)

theorem NowInv.cas (hi : NowInv s) {g b : Nat} {old t : Int} (hg : s.phase g = .ready b old t) :
    NowInv (s.cas g b old t) := by
  have hok := hi.ok_of hg
  unfold NowSys.cas
  split_ifs with heq
  · subst heq
    have hwon : ∀ g' b' t', s.phase g' = .won b' t' → t' < t := fun _ _ _ h =>
      lt_of_le_of_lt (hi.ok_of h) hok.2
    refine ⟨hok.1.trans hok.2.le, fun g' => ?_, fun g' b' hb => ?_,
      fun c hc => (hi.returned_le c hc).trans hok.2.le, hi.returned_before,
      fun g' b' hb c hc hlt => ?_, hi.nodup, fun g' b' t' ht c hc => ?_,
      fun g₁ g₂ b₁ b₂ t' h₁ h₂ => ?_, hi.ordered⟩
    all_goals simp only [Function.update_apply] at *
    · split_ifs with h
      · exact le_rfl
      · exact (hi.ok g').mono hok.2.le
    · split_ifs at hb with h
      · cases hb; exact hi.started g _ (by rw [hg]; rfl)
      · exact hi.started g' b' hb
    · split_ifs at hb ⊢ with h
      · cases hb
        exact lt_of_le_of_lt (hi.above_of hg b rfl c hc hlt) hok.2
      · exact hi.above g' b' hb c hc hlt
    · split_ifs at ht with h
      · cases ht; exact ne_of_lt (lt_of_le_of_lt (hi.returned_le c hc) hok.2)
      · exact hi.won_fresh g' b' t' ht c hc
    · split_ifs at h₁ h₂ with e1 e2 e2
      · exact e1.trans e2.symm
      · cases h₁; exact absurd (hwon g₂ b₂ _ h₂) (lt_irrefl _)
      · cases h₂; exact absurd (hwon g₁ b₁ _ h₁) (lt_irrefl _)
      · exact hi.won_unique g₁ g₂ b₁ b₂ t' h₁ h₂
  · exact hi.setPhase trivial (by rw [hg]; rfl) (fun _ _ _ _ _ => trivial) (fun _ _ h => nomatch h)

theorem NowInv.ret (hi : NowInv s) {g b : Nat} {t : Int} (hg : s.phase g = .won b t) :
    NowInv (s.ret g b t) := by
  have hle : t ≤ s.lastTime := hi.ok_of hg
  have hb : b < s.clock := hi.started g b (by rw [hg]; rfl)
  have hnew : ∀ c ∈ s.calls, c.stop < b → c.t < t := hi.above_of hg b rfl
  refine ⟨hi.nonneg, fun g' => ?_, fun g' b' hb' => ?_, fun c hc => ?_, fun c hc => ?_,
    fun g' b' hb' c hc hlt => ?_, ?_, fun g' b' t' ht c hc => ?_,
    fun g₁ g₂ b₁ b₂ t' h₁ h₂ => ?_, fun c hc c' hc' hlt => ?_⟩
  all_goals simp only [NowSys.ret, Function.update_apply, List.mem_append,
    List.mem_singleton] at *
  · split_ifs
    · trivial
    · exact hi.ok g'
  · split_ifs at hb' with h
    · simp [Phase.start] at hb'
    · exact Nat.lt_succ_of_lt (hi.started g' b' hb')
  · rcases hc with hc | rfl
    · exact hi.returned_le c hc
    · exact hle
  · rcases hc with hc | rfl
    · exact (hi.returned_before c hc).imp_right Nat.lt_succ_of_lt
    · exact ⟨hb, Nat.lt_succ_self _⟩
  · split_ifs at hb' ⊢ with h
    · simp [Phase.start] at hb'
    rcases hc with hc | rfl
    · exact hi.above g' b' hb' c hc hlt
    · exact absurd hlt (not_lt.2 (hi.started g' b' hb').le)
  · rw [List.map_append, List.map_singleton]
    exact hi.nodup.append (List.nodup_singleton _) (by
      simpa using fun c hc => hi.won_fresh g b t hg c hc)
  · split_ifs at ht with h
    rcases hc with hc | rfl
    · exact hi.won_fresh g' b' t' ht c hc
    · exact fun e => h (hi.won_unique g' g b' b t' ht (e ▸ hg))
  · split_ifs at h₁ h₂
    exact hi.won_unique g₁ g₂ b₁ b₂ t' h₁ h₂
  · rcases hc with hc | rfl <;> rcases hc' with hc' | rfl
    · exact hi.ordered c hc c' hc' hlt
    · exact hnew c hc hlt
    · have := hi.returned_before c' hc'
      dsimp only at hlt
      omega
    · dsimp only at hlt
      omega

theorem NowInv.step {s s' : NowSys} (hi : NowInv s) (h : NowStep s s') : NowInv s' := by
  cases h with
  | begin g _ => exact hi.begin g
  | load g b hg => exact hi.load hg
  | read g b old c hg hc => exact hi.read hg hc
  | cas g b old t hg => exact hi.cas hg
  | ret g b t hg => exact hi.ret hg

theorem nowInv_reachable {s : NowSys} (h : NowReachable s) : NowInv s := by
  induction h with
  | init => exact nowInv_init
  | step _ hs ih => exact ih.step hs

/-- In every interleaving of `now()` calls, with any clock readings as long as `old+1` stays
within `int64`, the returned DBTimes are pairwise distinct, and a call that begins after another
returned returns a larger one. -/
theorem now_unique_increasing {s : NowSys} (h : NowReachable s) :
    (s.calls.map NowCall.t).Nodup ∧
      ∀ c ∈ s.calls, ∀ c' ∈ s.calls, c.stop < c'.start → c.t < c'.t :=
  have hi := nowInv_reachable h
  ⟨hi.nodup, hi.ordered⟩

/-- Goroutines `0` and `1` both call `now()` and load `0`. The clock reads `10` for `0`, whose
CAS succeeds, and `7` for `1`, whose CAS fails; `1` loads `10` again, the clock goes back to
`3`, and `1` takes `11`. Both return, then `0` calls again and gets `12`. -/
def twoGoroutinesRun : NowSys :=
  let s1 := (((⟨0, fun _ => .idle, 0, []⟩ : NowSys).begin 0).begin 1).load 0 0 |>.load 1 1
  let s2 := ((s1.read 0 0 0 10).read 1 1 0 7).cas 0 0 0 10 |>.cas 1 1 0 7
  let s3 := ((s2.load 1 1).read 1 1 10 3).cas 1 1 10 11
  let s4 := ((s3.ret 0 0 10).ret 1 1 11).begin 0
  (((s4.load 0 4).read 0 4 11 5).cas 0 4 11 12).ret 0 4 12

theorem twoGoroutinesRun_unique :
    NowReachable twoGoroutinesRun ∧ twoGoroutinesRun.calls.map NowCall.t = [10, 11, 12] ∧
      ((twoGoroutinesRun.calls.map NowCall.t).Nodup ∧ ∀ c ∈ twoGoroutinesRun.calls,
        ∀ c' ∈ twoGoroutinesRun.calls, c.stop < c'.start → c.t < c'.t) := by
  have h : NowReachable twoGoroutinesRun :=
    NowReachable.init |>.step (.begin _ 0 rfl) |>.step (.begin _ 1 rfl) |>.step (.load _ 0 0 rfl)
      |>.step (.load _ 1 1 rfl) |>.step (.read _ 0 0 0 10 rfl (by decide))
      |>.step (.read _ 1 1 0 7 rfl (by decide)) |>.step (.cas _ 0 0 0 10 rfl)
      |>.step (.cas _ 1 1 0 7 rfl) |>.step (.load _ 1 1 rfl)
      |>.step (.read _ 1 1 10 3 rfl (by decide)) |>.step (.cas _ 1 1 10 11 rfl)
      |>.step (.ret _ 0 0 10 rfl) |>.step (.ret _ 1 1 11 rfl) |>.step (.begin _ 0 rfl)
      |>.step (.load _ 0 4 rfl) |>.step (.read _ 0 4 11 5 rfl (by decide))
      |>.step (.cas _ 0 4 11 12 rfl) |>.step (.ret _ 0 4 12 rfl)
  exact ⟨h, by decide, now_unique_increasing h⟩

end Gaby.Timed
