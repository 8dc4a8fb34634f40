import Mathlib.Order.Lattice
import Mathlib.Algebra.Group.Int

/-!
# The GitHub client's request loops

`Client.get` and `Client.json` (`internal/github/sync.go`) send a request, read the reply and
either return or `goto Redo`: `get` retries a rate-limit response (`rateLimit`) at most 20
times and a `500` or `502` twice, `json` retries a rate-limit response with no cap.

The model runs a `Redo` loop over a stream of replies (`replies i`: the reply to the `i`-th
request, with what `time.Now()` reads in `rateLimit` after it). One pass from the label is
`getPass` or `jsonPass`, the loop is `redoLoop`, with `fuel` bounding the number of passes.
`rateLimit` computes the duration it sleeps; `time.Sleep` returns no earlier than that
duration, or at once when it is negative, so the retry goes out no earlier than `wakeTime`.

* `redoLoop_mono`, `redoLoop_bounded`, `redoLoop_stuck`: a loop whose passes decrease a
  measure returns within that many requests, whatever the fuel above it; a loop whose every
  pass goes back to `Redo` never returns.
* `get_json_requests`: `get` returns after at most `1 + 20 + 2` requests on every reply stream;
  `json` never returns on `rateLimitedReplies`, a server that keeps answering with rate-limit
  responses 30 s ahead of the clock.
* `rateLimit_retry_time`: after a rate-limit response whose reset time `R` is ahead of `now`,
  the retry waits until `R` only when `R` is at most 30 s ahead, and never until `R` plus one
  minute.
-/

namespace Gaby.Github

/-- The parts of an `*http.Response` that `get`, `json` and `rateLimit` read: the status code and
line, `X-Ratelimit-Remaining`, `X-Ratelimit-Reset` as `strconv.Atoi` reads it (`0` when it is
missing or not a number), and the body. -/
structure Response where
  statusCode : Nat
  status : String
  remaining : String
  reset : Int
  data : String
deriving DecidableEq, Repr

/-- One round trip: the error of `c.http.Do`, the error of reading the body, or the response. -/
inductive Reply
  | doError (err : String)
  | readError (err : String)
  | response (r : Response)
deriving DecidableEq, Repr

/-- `time.Second` in nanoseconds; times are Unix nanoseconds. -/
def second : Int := 1000000000

/-- `time.Minute`. -/
def minute : Int := 60 * second

/-- `c.rateLimit(resp)` when `time.Now()` reads `now`: whether `resp` is a rate-limit response,
and the duration it passes to `time.Sleep` (`0` where it does not sleep). -/
def rateLimit (r : Response) (now : Int) : Bool × Int :=
  if r.statusCode ≠ 403 ∨ r.remaining ≠ "0" then (false, 0)
  else if r.reset = 0 then (false, 0)
  else
    let t := r.reset * second
    if t < now then
      if now - t > 2 * minute then (false, 0) else (true, 0)
    else (true, now - t + minute)

/-- The earliest time at which `time.Sleep` returns in `rateLimit`: a negative duration does not
sleep. -/
def wakeTime (r : Response) (now : Int) : Int := now + max (rateLimit r now).2 0

/-! ## The `Redo` loop -/

/-- How one pass from the `Redo` label ends: `return a`, or `goto Redo` with the loop's
counters `s`. -/
inductive Pass (α σ : Type)
  | ret (a : α)
  | redo (s : σ)

/-- A `Redo` loop over the replies from the `i`-th on: what it returns and how many requests
were sent in all, or `none` when `fuel` passes were not enough. -/
def redoLoop {α σ : Type} (pass : Reply × Int → σ → Pass α σ) (replies : Nat → Reply × Int) :
    Nat → Nat → σ → Option (α × Nat)
  | 0, _, _ => none
  | fuel + 1, i, s =>
    match pass (replies i) s with
    | .ret a => some (a, i + 1)
    | .redo s' => redoLoop pass replies fuel (i + 1) s'

section
variable {α σ : Type} (pass : Reply × Int → σ → Pass α σ) (replies : Nat → Reply × Int)

theorem redoLoop_mono {fuel fuel' i : Nat} {s : σ} {x : α × Nat}
    (h : redoLoop pass replies fuel i s = some x) (hf : fuel ≤ fuel') :
    redoLoop pass replies fuel' i s = some x := by
  induction fuel generalizing fuel' i s with
  | zero => cases h
  | succ fuel ih =>
    obtain ⟨fuel', rfl⟩ := Nat.exists_eq_add_of_le' (Nat.lt_of_lt_of_le (Nat.succ_pos fuel) hf)
    simp only [redoLoop] at h ⊢
    split at h
    · exact h
    · exact ih h (by omega)

theorem redoLoop_bounded (μ : σ → Nat) (hμ : ∀ rep s s', pass rep s = .redo s' → μ s' < μ s)
    (fuel i : Nat) (s : σ) (hf : μ s < fuel) :
    ∃ a n, n ≤ i + μ s + 1 ∧ redoLoop pass replies fuel i s = some (a, n) := by
  induction fuel generalizing i s with
  | zero => omega
  | succ fuel ih =>
    simp only [redoLoop]
    split
    · exact ⟨_, _, by omega, rfl⟩
    · next s' hs =>
      have hlt := hμ _ _ _ hs
      obtain ⟨a, n, hn, h⟩ := ih (i + 1) s' (by omega)
      exact ⟨a, n, by omega, h⟩

theorem redoLoop_stuck (i : Nat) (hr : ∀ j s, i ≤ j → ∃ s', pass (replies j) s = .redo s') :
    ∀ fuel (s : σ), redoLoop pass replies fuel i s = none := by
  intro fuel
  induction fuel generalizing i with
  | zero => intro s; rfl
  | succ fuel ih =>
    intro s
    obtain ⟨s', hs⟩ := hr i s le_rfl
    simp only [redoLoop, hs]
    exact ih (i + 1) (fun j s hj => hr j s (by omega)) s'

end

/-! ## `get` and `json` -/

/-- `errNotModified`. -/
def errNotModified : String := "304 not modified"

/-- What `get` returns: the response (the decoding of its body into `obj` is not modelled), or
an error. -/
inductive GetResult
  | ok (r : Response)
  | err (msg : String)
deriving DecidableEq, Repr

/-- One pass of `get` from `Redo`, with its counters `nrate` and `nfail`. -/
def getPass (reply : Reply × Int) (counters : Nat × Nat) : Pass GetResult (Nat × Nat) :=
  let (nrate, nfail) := counters
  match reply with
  | (.doError err, _) => .ret (.err err)
  | (.readError err, _) => .ret (.err ("reading body: " ++ err))
  | (.response r, now) =>
    if r.statusCode ≠ 200 then
      if r.statusCode = 304 then .ret (.err errNotModified)
      else if (rateLimit r now).1 then
        if nrate + 1 > 20 then .ret (.err (r.status ++ " # too many rate limits\n" ++ r.data))
        else .redo (nrate + 1, nfail)
      else if (r.statusCode = 500 ∨ r.statusCode = 502) ∧ nfail + 1 < 3 then
        .redo (nrate, nfail + 1)
      else .ret (.err (r.status ++ "\n" ++ r.data))
    else .ret (.ok r)

/-- `c.get(url, etag, obj)` on a client that does not divert edits, with `fuel` passes. -/
def get (replies : Nat → Reply × Int) (fuel : Nat) : Option (GetResult × Nat) :=
  redoLoop getPass replies fuel 0 (0, 0)

/-- One pass of `json` from `Redo`: the error it returns (`none` for `nil`). -/
def jsonPass (reply : Reply × Int) (_ : Unit) : Pass (Option String) Unit :=
  match reply with
  | (.doError err, _) => .ret (some err)
  | (.readError err, _) => .ret (some ("reading body: " ++ err))
  | (.response r, now) =>
    if (rateLimit r now).1 then .redo ()
    else if r.statusCode / 10 ≠ 20 then .ret (some (r.status ++ "\n" ++ r.data))
    else .ret none

/-- `c.json(method, url, body)` for a body that marshals: without the `api.github.com` secret
it fails before sending anything, unless `testing.Testing()`. -/
def json (hasSecret testing : Bool) (replies : Nat → Reply × Int) (fuel : Nat) :
    Option (Option String × Nat) :=
  if !hasSecret && !testing then some (some "no secret for api.github.com", 0)
  else redoLoop jsonPass replies fuel 0 ()

/-- A `goto Redo` of `get` spends one of its 20 rate-limit retries or one of its 2 server-error
retries. -/
theorem getPass_redo {rep : Reply × Int} {nrate nfail : Nat} {c' : Nat × Nat}
    (h : getPass rep (nrate, nfail) = .redo c') :
    (c' = (nrate + 1, nfail) ∧ nrate < 20) ∨ (c' = (nrate, nfail + 1) ∧ nfail < 2) := by
  rcases rep with ⟨_ | _ | r, now⟩ <;> simp only [getPass] at h
  · cases h
  · cases h
  by_cases h200 : r.statusCode ≠ 200
  · by_cases h304 : r.statusCode = 304
    · rw [if_pos h200, if_pos h304] at h; cases h
    rw [if_pos h200, if_neg h304] at h
    by_cases hrl : (rateLimit r now).1 = true
    · rw [if_pos hrl] at h
      split_ifs at h
      cases h
      exact .inl ⟨rfl, by omega⟩
    · rw [if_neg hrl] at h
      split_ifs at h with hf
      cases h
      exact .inr ⟨rfl, by omega⟩
  · rw [if_neg h200] at h; cases h

/-- GitHub answering every request with a rate-limit response 30 s ahead: the `i`-th request
goes out at `30 i` s, after `rateLimit`'s 30 s sleep, and is told to wait until `30 (i + 1)` s. -/
def rateLimitedReplies (i : Nat) : Reply × Int :=
  (.response ⟨403, "403 Forbidden", "0", 30 * (i + 1), ""⟩, 30 * i * second)

theorem rateLimit_rateLimitedReplies (i : Nat) :
    rateLimit ⟨403, "403 Forbidden", "0", 30 * (i + 1), ""⟩ (30 * i * second) =
      (true, 30 * second) := by
  have : ¬ (30 * ((i : Int) + 1) = 0) := by omega
  simp only [rateLimit, second, minute, ne_eq, not_true_eq_false, or_self, if_false,
    Nat.cast_add, Nat.cast_one, this]
  rw [if_neg (by omega)]
  congr 1
  omega

theorem get_json_requests :
    (∀ replies, ∃ res n, n ≤ 1 + 20 + 2 ∧ ∀ fuel, 1 + 20 + 2 ≤ fuel → get replies fuel = some (res, n)) ∧
    ∀ testing fuel, json true testing rateLimitedReplies fuel = none := by
  refine ⟨fun replies => ?_, fun testing fuel => ?_⟩
  · have hμ : ∀ rep (c c' : Nat × Nat), getPass rep c = .redo c' →
        (20 - c'.1) + (2 - c'.2) < (20 - c.1) + (2 - c.2) := by
      rintro rep ⟨nrate, nfail⟩ c' h
      rcases getPass_redo h with ⟨rfl, h⟩ | ⟨rfl, h⟩ <;> simp only <;> omega
    obtain ⟨res, n, hn, h⟩ := redoLoop_bounded getPass replies _ hμ 23 0 (0, 0) (by decide)
    exact ⟨res, n, hn, fun fuel hf => redoLoop_mono getPass replies h hf⟩
  · refine redoLoop_stuck jsonPass rateLimitedReplies 0 (fun j _ _ => ⟨(), ?_⟩) fuel ()
    simp only [rateLimitedReplies, jsonPass, rateLimit_rateLimitedReplies, if_true]

/-- After a rate-limit response whose reset time `R` is after `now`, the retry goes out no earlier
than `R` exactly when `R` is at most 30 s ahead, and always before `R` plus one minute. -/
theorem rateLimit_retry_time (r : Response) (now : Int) (hR : now < r.reset * second)
    (h : (rateLimit r now).1 = true) :
    (r.reset * second ≤ wakeTime r now ↔ 2 * (r.reset * second - now) ≤ minute) ∧
      wakeTime r now < r.reset * second + minute := by
  have hsleep : rateLimit r now = (true, now - r.reset * second + minute) := by
    unfold rateLimit at h ⊢
    by_cases h1 : r.statusCode ≠ 403 ∨ r.remaining ≠ "0"
    · rw [if_pos h1] at h; cases h
    by_cases h2 : r.reset = 0
    · rw [if_neg h1, if_pos h2] at h; cases h
    rw [if_neg h1, if_neg h2]
    exact if_neg (by omega)
  simp only [wakeTime, hsleep, minute, second] at hR ⊢
  omega

/-- Reset one minute after `now = 0`: `rateLimit` sleeps for `0 - 60 s + 60 s = 0` and the retry
goes out at `0`, a minute before the reset. -/
theorem resetInAMinute_retry_early :
    (0 : Int) < 60 * second ∧ (rateLimit ⟨403, "403 Forbidden", "0", 60, ""⟩ 0).1 = true ∧
      wakeTime ⟨403, "403 Forbidden", "0", 60, ""⟩ 0 < 60 * second :=
  have hR : (0 : Int) < 60 * second := by decide
  have hT : (rateLimit ⟨403, "403 Forbidden", "0", 60, ""⟩ 0).1 = true := by decide
  ⟨hR, hT, lt_of_not_le fun hle =>
    absurd ((rateLimit_retry_time _ 0 hR hT).1.mp hle) (by decide)⟩

end Gaby.Github
