import Gaby.Httprr.Trace
import Mathlib.Logic.Relation

/-!
# Recording and replaying requests

`RecordReplay.RoundTrip` (`internal/httprr/rr.go`) computes the request's key: the scrubs run in
order on a copy of the request, and `WriteProxy` writes it. In replay mode it answers from the
map `open` read. In record mode it checks, under `rr.mu`, that no earlier write broke the
recorder, sends the request, reparses the response's wire form with `http.ReadResponse`, and
writes the pair to the trace under `rr.mu` again. A failed write breaks the recorder: it keeps
the error, closes the file and removes it. Requests are sent outside the lock, so concurrent
calls interleave between the two critical sections: `begin` is a call up to the second one,
`commit` is the second one, and a `Pending` is a call between them. The request (`Q`), the
response (`R`) and the errors (`E`) are parameters, as are `WriteProxy` (`writeProxy`) and
`http.ReadResponse` (`readResponse`).

* `reachable_inv`: over every interleaving of calls in record mode, with any transport and any
  write failures, the recorder keeps its file and scrubs, and the file holds the first line and
  the pairs whose write succeeded, in the order they took the lock, until a write fails. After that the file is removed, or holds them
  and what the failed writes wrote; the recorder never writes again, and every later call fails
  with the error that broke it.
* `replay_of_record`: so, from every reachable state, a recorder opened in replay mode on the
  file answers each request from the pair recorded last for its key, as `ReadResponse` reads it,
  and reports any other key not found.
* `Body.reads_spec`: a `Body` whose offset is in range returns its bytes in order over any
  sequence of reads; a read reports `io.EOF` exactly when its buffer is empty or the bytes are
  used up. From an offset out of range, `Read` panics.
-/

namespace Gaby.Httprr

/-- The errors `RoundTrip` returns, for errors `E` of what it calls. -/
inductive RTErr (E : Type)
  /-- An error of what `RoundTrip` calls, returned as is. -/
  | io (e : E)
  /-- `read %s: corrupt httprr trace: %v`: a recorded response `ReadResponse` rejects. -/
  | corrupt (file : String) (e : E)
  /-- `cached HTTP response not found for:\n%s`. -/
  | notFound (key : List Char)

/-- A `RecordReplay`: its file, its scrubs, its replay map (`none` in record mode), the error
that broke it, and the bytes of its file in record mode (`none` once the file is removed, and
in replay mode, which writes none). -/
structure RecordReplay (E Q : Type) where
  file : String
  scrub : List (Q → Except E Q)
  replay : Option Replay
  broken : Option E
  written : Option (List Char)

/-- `create(file, rt)`: a recorder whose file holds the first line; `err` is the error of
`os.Create` or of writing that line, if any. -/
def create {E Q : Type} (file : String) (err : Option E) : Except E (RecordReplay E Q) :=
  match err with
  | some e => .error e
  | none => .ok ⟨file, [], none, none, some (magic ++ ['\n'])⟩

/-- What the three writes of a pair to the trace do: all succeed; or `cmp.Or` of their errors is
`e`, each wrote a prefix of its bytes (`a`, `b` and `c` of them), and `os.Remove` removed the
file or failed. -/
inductive WriteOutcome (E : Type)
  | ok
  | fail (e : E) (a b c : Nat) (removed : Bool)

/-- What the world does in one `RoundTrip(req)`: the request, the error `io.ReadAll` of its
body returns, the real transport's answer (the response's wire form, or the error of
`RoundTrip` or of `resp.Write`), and what the writes to the trace do. -/
structure Call (E Q : Type) where
  req : Q
  bodyErr : Option E
  real : Except E (List Char)
  writes : WriteOutcome E

/-- A call of record mode between its two critical sections: its key, the response's wire form
and what `ReadResponse` made of it, and what its writes will do. -/
structure Pending (E R : Type) where
  key : List Char
  wire : List Char
  resp : R
  writes : WriteOutcome E

section RoundTrip

variable {E Q R : Type} (writeProxy : Q → Except E (List Char))
  (readResponse : Q → List Char → Except E R)

/-- The key of a request: the scrubs run in order on its copy, the first error stops them, and
`rkey.WriteProxy` writes what they leave. -/
def requestKey (scrubs : List (Q → Except E Q)) (req : Q) : Except E (List Char) :=
  scrubs.foldlM (fun q s => s q) req >>= writeProxy

/-- `RoundTrip(req)` up to the second critical section: its answer, or in record mode the write
to make. -/
def begin (rr : RecordReplay E Q) (c : Call E Q) : Except (RTErr E) R ⊕ Pending E R :=
  match c.bodyErr with
  | some e => .inl (.error (.io e))
  | none =>
  match requestKey writeProxy rr.scrub c.req with
  | .error e => .inl (.error (.io e))
  | .ok key =>
  match rr.replay with
  | some m =>
    .inl (match m.get key with
      | some wire => (readResponse c.req wire).mapError (.corrupt rr.file)
      | none => .error (.notFound key))
  | none =>
  match rr.broken with
  | some e => .inl (.error (.io e))
  | none =>
  match c.real with
  | .error e => .inl (.error (.io e))
  | .ok wire =>
  match readResponse c.req wire with
  | .error e => .inl (.error (.io e))
  | .ok resp => .inr ⟨key, wire, resp, c.writes⟩

/-- The second critical section: the error that broke the recorder meanwhile, or the writes of
the pair; a failed one breaks the recorder, and its file is removed unless `os.Remove` fails. -/
def commit (rr : RecordReplay E Q) (p : Pending E R) : RecordReplay E Q × Except (RTErr E) R :=
  match rr.broken with
  | some e => (rr, .error (.io e))
  | none =>
  match p.writes with
  | .ok => ({ rr with written := rr.written.map (· ++ record p.key p.wire) }, .ok p.resp)
  | .fail e a b c removed =>
    ({ rr with
      broken := some e
      written := if removed then none else rr.written.map fun w =>
        w ++ (decimal p.key.length ++ ' ' :: decimal p.wire.length ++ ['\n']).take a ++
          p.key.take b ++ p.wire.take c },
      .error (.io e))

/-- `RoundTrip(req)` when no other call runs meanwhile. -/
def roundTrip (rr : RecordReplay E Q) (c : Call E Q) : RecordReplay E Q × Except (RTErr E) R :=
  match begin writeProxy readResponse rr c with
  | .inl r => (rr, r)
  | .inr p => commit rr p

/-- `Close()`: the error that broke the recorder, else in record mode the error of closing the
file (`closeErr`). -/
def close (rr : RecordReplay E Q) (closeErr : Option E) : Option E :=
  match rr.broken with
  | some e => some e
  | none => if rr.replay.isNone then closeErr else none

/-- The error of a call of record mode begun after the break: that of its own body or key, or
else the error `e` that broke the recorder. -/
def brokenErr (scrubs : List (Q → Except E Q)) (c : Call E Q) (e : E) : E :=
  match c.bodyErr, requestKey writeProxy scrubs c.req with
  | some e', _ => e'
  | none, .error e' => e'
  | none, .ok _ => e

theorem begin_broken {rr : RecordReplay E Q} {e : E} (hr : rr.replay = none)
    (hb : rr.broken = some e) (c : Call E Q) :
    begin writeProxy readResponse rr c = .inl (.error (.io (brokenErr writeProxy rr.scrub c e))) := by
  cases hbody : c.bodyErr <;> cases hkey : requestKey writeProxy rr.scrub c.req <;>
    simp [begin, brokenErr, hbody, hkey, hr, hb]

theorem commit_broken {rr : RecordReplay E Q} {e : E} (hb : rr.broken = some e)
    (p : Pending E R) : commit rr p = (rr, .error (.io e)) := by
  simp [commit, hb]

theorem commit_ok {rr : RecordReplay E Q} (hb : rr.broken = none) {p : Pending E R}
    (hp : p.writes = .ok) :
    commit rr p = ({ rr with written := rr.written.map (· ++ record p.key p.wire) }, .ok p.resp) := by
  simp [commit, hb, hp]

end RoundTrip

theorem commit_file_scrub (rr : RecordReplay E Q) (p : Pending E R) :
    (commit rr p).1.file = rr.file ∧ (commit rr p).1.scrub = rr.scrub := by
  unfold commit
  split
  · exact ⟨rfl, rfl⟩
  · split <;> exact ⟨rfl, rfl⟩

theorem trace_append (ps : List (List Char × List Char)) (key wire : List Char) :
    trace (ps ++ [(key, wire)]) = trace ps ++ record key wire := by
  simp [trace]

/-! ## Record mode with calls in flight -/

/-- Record mode with calls in flight: the recorder, the calls between their two critical
sections, and, as a ghost, the pairs whose writes went through, in order. -/
structure RecSys (E Q R : Type) where
  rr : RecordReplay E Q
  pending : List (Pending E R)
  recorded : List (List Char × List Char)

section System

variable {E Q R : Type} (writeProxy : Q → Except E (List Char))
  (readResponse : Q → List Char → Except E R)

/-- The state after the waiting call `p`, taken out of `pending`, commits. -/
def RecSys.afterCommit (σ : RecSys E Q R) (pending : List (Pending E R)) (p : Pending E R) :
    RecSys E Q R :=
  ⟨(commit σ.rr p).1, pending, match (commit σ.rr p).2 with
    | .ok _ => σ.recorded ++ [(p.key, p.wire)]
    | .error _ => σ.recorded⟩

/-- One step of record mode: a call runs up to the second critical section and waits there, or
a waiting call takes the lock and writes. Calls that `begin` answers change nothing. A Go
string is shorter than `2^63` bytes. -/
inductive RStep : RecSys E Q R → RecSys E Q R → Prop
  | begin (σ : RecSys E Q R) (c : Call E Q) (p : Pending E R) :
      begin writeProxy readResponse σ.rr c = .inr p →
      p.key.length < 2 ^ 63 → p.wire.length < 2 ^ 63 →
      RStep σ { σ with pending := p :: σ.pending }
  | commit (σ : RecSys E Q R) (l₁ l₂ : List (Pending E R)) (p : Pending E R) :
      σ.pending = l₁ ++ p :: l₂ → RStep σ (σ.afterCommit (l₁ ++ l₂) p)

/-- The states from `create(file, rt)` and `Scrub(scrubs...)`. -/
inductive RReachable (file : String) (scrubs : List (Q → Except E Q)) : RecSys E Q R → Prop
  | init : RReachable file scrubs ⟨⟨file, scrubs, none, none, some (magic ++ ['\n'])⟩, [], []⟩
  | step {σ σ' : RecSys E Q R} :
      RReachable file scrubs σ → RStep writeProxy readResponse σ σ' → RReachable file scrubs σ'

/-- Record mode's invariant: until the break the file holds the first line and the recorded
pairs; after it the file is gone, or holds them and what the failed writes wrote. Every pair
waiting or recorded has lengths that `%d` and `Atoi` carry. -/
structure RecSys.Inv (σ : RecSys E Q R) : Prop where
  recording : σ.rr.replay = none
  file : σ.rr.broken = none → σ.rr.written = some (trace σ.recorded)
  broken : σ.rr.broken ≠ none →
    σ.rr.written = none ∨ ∃ junk, σ.rr.written = some (trace σ.recorded ++ junk)
  pendingLen : ∀ p ∈ σ.pending, p.key.length < 2 ^ 63 ∧ p.wire.length < 2 ^ 63
  recordedLen : ∀ p ∈ σ.recorded, p.1.length < 2 ^ 63 ∧ p.2.length < 2 ^ 63

theorem afterCommit_broken {σ : RecSys E Q R} {e : E} (hb : σ.rr.broken = some e)
    (pending : List (Pending E R)) (p : Pending E R) :
    σ.afterCommit pending p = { σ with pending := pending } := by
  simp [RecSys.afterCommit, commit_broken hb]

theorem RecSys.Inv.step {σ σ' : RecSys E Q R} (h : σ.Inv)
    (hs : RStep writeProxy readResponse σ σ') : σ'.Inv := by
  cases hs with
  | begin c p _ hk hw =>
    refine ⟨h.recording, h.file, h.broken, fun q hq => ?_, h.recordedLen⟩
    rcases List.mem_cons.1 hq with rfl | hq
    · exact ⟨hk, hw⟩
    · exact h.pendingLen q hq
  | commit l₁ l₂ p hp =>
    have hpend : ∀ q ∈ l₁ ++ l₂, q.key.length < 2 ^ 63 ∧ q.wire.length < 2 ^ 63 := fun q hq =>
      h.pendingLen q (by rw [hp]; simp only [List.mem_append, List.mem_cons] at hq ⊢; tauto)
    rcases hb : σ.rr.broken with _ | e
    · have hplen := h.pendingLen p (by simp [hp])
      rcases hw : p.writes with _ | ⟨e, a, b, c, removed⟩
      · simp only [RecSys.afterCommit, commit_ok hb hw]
        refine ⟨h.recording, fun _ => ?_, fun hb' => absurd hb hb', hpend, fun q hq => ?_⟩
        · rw [h.file hb, Option.map_some', trace_append]
        · rcases List.mem_append.1 hq with hq | hq
          · exact h.recordedLen q hq
          · rw [List.mem_singleton.1 hq]; exact hplen
      · simp only [RecSys.afterCommit, commit, hb, hw]
        refine ⟨h.recording, fun h' => absurd h' (by simp), fun _ => ?_, hpend, h.recordedLen⟩
        cases removed
        · refine .inr ⟨(decimal p.key.length ++ ' ' :: decimal p.wire.length ++ ['\n']).take a ++
            p.key.take b ++ p.wire.take c, ?_⟩
          simp only [h.file hb, Bool.false_eq_true, ↓reduceIte, Option.map_some', List.append_assoc]
        · exact .inl rfl
    · rw [afterCommit_broken hb]
      exact ⟨h.recording, h.file, h.broken, hpend, h.recordedLen⟩

/-- After the break, every call begun fails before sending anything, every step leaves the
recorder and the recorded pairs as they are, and every waiting call fails with the error that
broke the recorder. -/
def RecSys.Frozen (σ : RecSys E Q R) : Prop :=
  ∀ e, σ.rr.broken = some e →
    (∀ c, begin writeProxy readResponse σ.rr c = .inl (.error (.io (brokenErr writeProxy σ.rr.scrub c e)))) ∧
    ∀ σ', RStep writeProxy readResponse σ σ' →
      σ'.rr = σ.rr ∧ σ'.recorded = σ.recorded ∧ ∀ p ∈ σ.pending, (commit σ.rr p).2 = .error (.io e)

theorem RecSys.Inv.frozen {σ : RecSys E Q R} (h : σ.Inv) : σ.Frozen writeProxy readResponse := by
  intro e hb
  refine ⟨begin_broken writeProxy readResponse h.recording hb, fun σ' hs => ?_⟩
  refine ⟨?_, ?_, fun p _ => by rw [commit_broken hb]⟩ <;> cases hs with
  | begin => rfl
  | commit l₁ l₂ p hp => rw [afterCommit_broken hb]

theorem RReachable.inv {file : String} {scrubs : List (Q → Except E Q)} {σ : RecSys E Q R}
    (h : RReachable writeProxy readResponse file scrubs σ) :
    σ.Inv ∧ σ.rr.file = file ∧ σ.rr.scrub = scrubs := by
  induction h with
  | init => exact ⟨⟨rfl, fun _ => rfl, fun h => absurd rfl h, by simp, by simp⟩, rfl, rfl⟩
  | step _ hs ih =>
    refine ⟨ih.1.step writeProxy readResponse hs, ?_⟩
    cases hs with
    | begin => exact ih.2
    | commit l₁ l₂ p _ =>
      obtain ⟨hf, hs⟩ := commit_file_scrub _ p
      exact ⟨hf.trans ih.2.1, hs.trans ih.2.2⟩

/-- **Record mode is safe under any interleaving of calls**, with any transport and any write
failures: the recorder keeps its file and scrubs; until a write fails, the file holds the first
line and the pairs whose writes went through, whole and in the order they took the lock; after
it the file is removed, or holds them and the failed writes' bytes, every call begun fails
before sending anything, every later step leaves the recorder and the pairs as they are, and
every waiting call fails with the error that broke it. -/
theorem reachable_inv {file : String} {scrubs : List (Q → Except E Q)} {σ : RecSys E Q R}
    (h : RReachable writeProxy readResponse file scrubs σ) :
    σ.Inv ∧ σ.rr.file = file ∧ σ.rr.scrub = scrubs ∧ σ.Frozen writeProxy readResponse :=
  have hi := h.inv
  ⟨hi.1, hi.2.1, hi.2.2, hi.1.frozen writeProxy readResponse⟩

/-- What replay mode answers a request of key `key`, from the pairs recorded: the response
recorded last for the key, as `ReadResponse` reads it, or not found. -/
def replayAnswer (file : String) (ps : List (List Char × List Char)) (req : Q)
    (key : List Char) : Except (RTErr E) R :=
  match lastResp key ps with
  | some wire => (readResponse req wire).mapError (.corrupt file)
  | none => .error (.notFound key)

/-- **Replay answers as record mode recorded.** From every reachable state of record mode
before the break, the file opens; and a recorder in replay mode on it, whatever its scrubs,
answers each request from the pair recorded last for the request's key, and reports any other
key not found. -/
theorem replay_of_record {file : String} {scrubs : List (Q → Except E Q)} {σ : RecSys E Q R}
    (h : RReachable writeProxy readResponse file scrubs σ) (hb : σ.rr.broken = none) :
    ∃ m, σ.rr.written = some (trace σ.recorded) ∧
      «open» σ.rr.file (.ok (trace σ.recorded)) = .replay m ∧
      ∀ (scrubs' : List (Q → Except E Q)) (c : Call E Q) (key : List Char), c.bodyErr = none →
        requestKey writeProxy scrubs' c.req = .ok key →
          begin writeProxy readResponse ⟨σ.rr.file, scrubs', some m, none, none⟩ c =
            .inl (replayAnswer readResponse σ.rr.file σ.recorded c.req key) := by
  have hinv := (h.inv writeProxy readResponse).1
  refine ⟨_, hinv.file hb, open_trace_load σ.rr.file hinv.recordedLen,
    fun scrubs' c key hbody hkey => ?_⟩
  simp only [begin, hbody, hkey, get_load_ofPair_empty, replayAnswer]

end System

/-- A recorder with one scrub, keys and responses that are their own wire forms: after a call
`GET /` recorded with `200`, and after a call `GET /a` whose write failed with `disk full`
having written 3 bytes, which breaks it. -/
theorem reachable_inv_broken :
    let wp := fun q : List Char => (.ok q : Except String (List Char))
    let rd := fun (_ : List Char) (w : List Char) => (.ok w : Except String (List Char))
    let p : Pending String (List Char) := ⟨"GET /".toList, "200".toList, "200".toList, .ok⟩
    let q : Pending String (List Char) :=
      ⟨"GET /a".toList, "404".toList, "404".toList, .fail "disk full" 3 0 0 false⟩
    let σ₁ : RecSys String (List Char) (List Char) :=
      RecSys.afterCommit ⟨⟨"rr", [.ok], none, none, some (magic ++ ['\n'])⟩, [p], []⟩ [] p
    let σ₂ := RecSys.afterCommit { σ₁ with pending := [q] } [] q
    RReachable wp rd "rr" [.ok] σ₂ ∧ σ₂.rr.broken = some "disk full" ∧
      (σ₁.Inv ∧ σ₁.rr.file = "rr" ∧ σ₁.rr.scrub = [.ok] ∧ σ₁.Frozen wp rd) ∧
      (σ₂.Inv ∧ σ₂.rr.file = "rr" ∧ σ₂.rr.scrub = [.ok] ∧ σ₂.Frozen wp rd) := by
  intro wp rd p q σ₁ σ₂
  have h₁ : RReachable wp rd "rr" [.ok] σ₁ :=
    .step (.step .init (.begin _ ⟨"GET /".toList, none, .ok "200".toList, .ok⟩ p rfl
      (by decide) (by decide))) (.commit _ [] [] p rfl)
  have h₂ : RReachable wp rd "rr" [.ok] σ₂ :=
    .step (.step h₁ (.begin _ ⟨"GET /a".toList, none, .ok "404".toList, q.writes⟩ q rfl
      (by decide) (by decide))) (.commit _ [] [] q rfl)
  exact ⟨h₂, rfl, reachable_inv wp rd h₁, reachable_inv wp rd h₂⟩

/-- After one call `GET /` recorded with the response `200`, the file replays it. -/
theorem replay_of_record_get :
    let p : Pending String (List Char) := ⟨"GET /".toList, "200".toList, "200".toList, .ok⟩
    let σ : RecSys String (List Char) (List Char) :=
      RecSys.afterCommit ⟨⟨"rr", [], none, none, some (magic ++ ['\n'])⟩, [p], []⟩ [] p
    RReachable (fun q : List Char => (.ok q : Except String (List Char))) (fun _ w => .ok w) "rr"
      [] σ ∧ σ.rr.broken = none ∧
    ∃ m, σ.rr.written = some (trace σ.recorded) ∧
      «open» σ.rr.file (.ok (trace σ.recorded)) = .replay m ∧
      ∀ (scrubs' : List (List Char → Except String (List Char))) (c : Call String (List Char))
        (key : List Char), c.bodyErr = none →
        requestKey (fun q => .ok q) scrubs' c.req = .ok key →
          begin (fun q => .ok q) (fun _ w => .ok w) ⟨σ.rr.file, scrubs', some m, none, none⟩ c =
            .inl (replayAnswer (fun _ w => (.ok w : Except String (List Char))) σ.rr.file
              σ.recorded c.req key) :=
  by
  intro p σ
  have h : RReachable (fun q : List Char => (.ok q : Except String (List Char)))
      (fun _ w => .ok w) "rr" [] σ :=
    .step (.step .init (.begin _ ⟨"GET /".toList, none, .ok "200".toList, .ok⟩ p rfl
      (by decide) (by decide))) (.commit _ [] [] p rfl)
  exact ⟨h, rfl, replay_of_record _ _ h rfl⟩

/-! ## Request bodies -/

/-- A `Body`: its bytes and the offset `Read` has reached. -/
structure Body where
  data : List Char
  readOffset : Int

/-- The run-time panic of a slice expression out of range. -/
def sliceOutOfRange : String := "runtime error: slice bounds out of range"

/-- `b.Data[b.ReadOffset:]` is in range. -/
def Body.InBounds (b : Body) : Prop := 0 ≤ b.readOffset ∧ b.readOffset ≤ b.data.length

instance : DecidablePred Body.InBounds := fun _ => inferInstanceAs (Decidable (_ ∧ _))

/-- The bytes from the offset on, `b.Data[b.ReadOffset:]`. -/
def Body.unread (b : Body) : List Char := b.data.drop b.readOffset.toNat

/-- `b.Read(p)` for `len(p) = n`: the body after it, the bytes copied into `p`, and whether it
returned `io.EOF`; slicing `b.Data[b.ReadOffset:]` panics when the offset is out of range. -/
def Body.read (b : Body) (n : Nat) : Except String (Body × List Char × Bool) :=
  if b.readOffset < 0 ∨ b.data.length < b.readOffset then .error sliceOutOfRange
  else
    let chunk := b.unread.take n
    if chunk.length = 0 then .ok (b, [], true)
    else .ok ({ b with readOffset := b.readOffset + chunk.length }, chunk, false)

/-- Reads with buffers of the sizes `ns`, in order: the body after them, and what each read
returned. -/
def Body.reads : Body → List Nat → Except String (Body × List (List Char × Bool))
  | b, [] => .ok (b, [])
  | b, n :: ns => do
    let (b', r) ← b.read n
    let (b'', rs) ← b'.reads ns
    return (b'', r :: rs)

/-- A reader of the bytes `rest` still unread, for buffers of the sizes `ns`: each read returns
the next bytes that fit, and reports the end when it returns none. -/
def streamReads : List Char → List Nat → List (List Char × Bool)
  | _, [] => []
  | rest, n :: ns => (rest.take n, decide (n = 0 ∨ rest = [])) :: streamReads (rest.drop n) ns

theorem streamReads_flatten (rest : List Char) (ns : List Nat) :
    ((streamReads rest ns).map Prod.fst).flatten = rest.take ns.sum := by
  induction ns generalizing rest with
  | nil => simp [streamReads]
  | cons n ns ih => rw [streamReads, List.map_cons, List.flatten_cons, ih, List.sum_cons, List.take_add]

theorem Body.read_spec {b : Body} (hb : b.InBounds) (n : Nat) :
    ∃ b', b'.InBounds ∧ b.read n = .ok (b', b.unread.take n, decide (n = 0 ∨ b.unread = [])) ∧
      b'.unread = b.unread.drop n := by
  have hlen : b.unread.length = b.data.length - b.readOffset.toNat := List.length_drop _ _
  obtain ⟨h0, h1⟩ := id hb
  unfold Body.read
  rw [if_neg (by omega)]
  dsimp only
  split_ifs with hc
  · rw [List.length_take, Nat.min_eq_zero_iff, List.length_eq_zero] at hc
    rcases hc with rfl | hc
    · exact ⟨b, hb, by simp, by simp⟩
    · exact ⟨b, hb, by simp [hc], by simp [hc]⟩
  · rw [List.length_take, Nat.min_eq_zero_iff, List.length_eq_zero, not_or] at hc
    have hm : (b.unread.take n).length ≤ b.data.length - b.readOffset.toNat := by
      rw [List.length_take, ← hlen]; exact min_le_right _ _
    refine ⟨{ b with readOffset := b.readOffset + (b.unread.take n).length },
      ⟨by dsimp only; omega, by dsimp only; omega⟩, by simp [hc.1, hc.2], ?_⟩
    show b.data.drop (b.readOffset + (b.unread.take n).length).toNat = b.unread.drop n
    rw [Body.unread, List.drop_drop, List.length_take, ← Body.unread]
    by_cases hn : n ≤ b.unread.length
    · rw [Nat.min_eq_left hn]; congr 1; omega
    · rw [Nat.min_eq_right (by omega), List.drop_eq_nil_of_le (by omega),
        List.drop_eq_nil_of_le (by omega)]

theorem Body.read_panics {b : Body} (hb : ¬b.InBounds) (n : Nat) : b.read n = .error sliceOutOfRange :=
  if_pos (by unfold Body.InBounds at hb; omega)

/-- **A `Body` is a reader of its unread bytes**: from an offset in range, over every sequence
of reads, each read returns the next bytes that fit in its buffer, and reports `io.EOF` exactly
when its buffer is empty or no byte is left; so the reads return the first `Σ ns` bytes, in
order. From an offset out of range, the first read panics. -/
theorem Body.reads_spec (b : Body) (ns : List Nat) :
    (b.InBounds → ∃ b', b'.InBounds ∧ b.reads ns = .ok (b', streamReads b.unread ns) ∧
        ((streamReads b.unread ns).map Prod.fst).flatten = b.unread.take ns.sum) ∧
      (¬b.InBounds → ns ≠ [] → b.reads ns = .error sliceOutOfRange) := by
  refine ⟨fun hb => ?_, fun hb hns => ?_⟩
  · induction ns generalizing b with
    | nil => exact ⟨b, hb, rfl, by simp [streamReads]⟩
    | cons n ns ih =>
      obtain ⟨b', hb', hr, hu⟩ := Body.read_spec hb n
      obtain ⟨b'', hb'', hrs, -⟩ := ih b' hb'
      refine ⟨b'', hb'', ?_, streamReads_flatten _ _⟩
      rw [Body.reads, hr]
      simp only [bind, Except.bind, hrs, hu, streamReads, pure, Except.pure]
  · obtain ⟨n, ns, rfl⟩ := List.exists_cons_of_ne_nil hns
    rw [Body.reads, Body.read_panics hb]
    rfl

/-- A body read from offset `1` with buffers of `1`, `5` and `2` bytes, and one whose offset is
past its end. -/
theorem Body.reads_abc :
    (∃ b', b'.InBounds ∧ (⟨['a', 'b', 'c'], 1⟩ : Body).reads [1, 5, 2] =
        .ok (b', [(['b'], false), (['c'], false), ([], true)])) ∧
      (⟨['a', 'b', 'c'], 4⟩ : Body).reads [2] = .error sliceOutOfRange := by
  obtain ⟨b', hb', hr, -⟩ := (Body.reads_spec ⟨['a', 'b', 'c'], 1⟩ [1, 5, 2]).1 (by decide)
  exact ⟨⟨b', hb', hr⟩, (Body.reads_spec _ [2]).2 (by decide) (List.cons_ne_nil _ _)⟩

end Gaby.Httprr
