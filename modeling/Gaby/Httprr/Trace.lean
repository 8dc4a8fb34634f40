import Gaby.Github.Txtar
import Mathlib.Data.Nat.Digits

/-!
# httprr traces

A `RecordReplay` (`internal/httprr/rr.go`) in record mode writes its trace file: the line
`httprr trace v1`, then for each request it sends, the line `"%d %d\n"` of the lengths of the
request's key and of the response's wire form, then the two (`record`, `trace`). In replay mode
`open` reads such a file back into the map `replay` from keys to responses. A file is its bytes,
each a `Char` here; `strconv.Atoi` is `Txtar.parseInt` (both read an optional sign and decimal
digits within `int64`), and `%d` of a length is `Nat.toDigits 10`.

* `readLoop_rec`: one turn of `open`'s loop reads one record (`Rec`, its two length texts as
  `Atoi` reads them), when both texts give the lengths that follow (`Rec.Ok`).
* `open_eq_replay_iff`: `open` accepts exactly the files made of the first line and well-formed
  records, and its map holds, for each key, the response of the last record of that key.
* `open_trace`: so a trace as record mode writes it opens to the pairs it recorded.
* `open_truncated`: a file cut inside a record is reported corrupt, never read in part.
* `open_panics`: a record whose first length is negative, or whose second is negative while
  the first fits, makes `open` panic (`data[n1:]` or `data[n1:n1+n2]` out of range) instead of
  reporting a corrupt trace.
-/

namespace Gaby.Httprr

open Github.Txtar (cut parseInt)

/-! ## The format -/

/-- The first line of a trace. -/
def magic : List Char := "httprr trace v1".toList

/-- `%d` of a length. -/
def decimal (n : Nat) : List Char := Nat.toDigits 10 n

/-- What `RoundTrip` writes to the trace for one request: `"%d %d\n"` of the lengths of its key
and of the response's wire form, then the key and the response. -/
def record (key resp : List Char) : List Char :=
  decimal key.length ++ ' ' :: decimal resp.length ++ '\n' :: (key ++ resp)

/-- The trace file `create` starts and `RoundTrip` appends to, after the pairs `ps`. -/
def trace (ps : List (List Char × List Char)) : List Char :=
  magic ++ '\n' :: ps.flatMap fun p => record p.1 p.2

/-- `RecordReplay.replay`, the map from request keys to response wire forms. -/
abbrev Replay := OMap (List Char) (List Char)

/-- The errors `open` returns. -/
inductive TraceErr
  /-- `os.ReadFile`'s error, returned as is. -/
  | readFile (msg : String)
  /-- `read %s: not an httprr trace`. -/
  | notTrace (file : String)
  /-- `read %s: corrupt httprr trace`. -/
  | corrupt (file : String)
deriving DecidableEq

/-- The error's text. -/
def TraceErr.text : TraceErr → String
  | .readFile msg => msg
  | .notTrace file => "read " ++ file ++ ": not an httprr trace"
  | .corrupt file => "read " ++ file ++ ": corrupt httprr trace"

/-- What `open` does with a file: the replay map, an error, or a run-time panic (a slice
expression out of range). -/
inductive Opened
  | replay (m : Replay)
  | error (e : TraceErr)
  | panic

/-- The loop of `open`, from the rest `data` of the file on, with at most `fuel` turns (the
length of `data` is enough: every turn consumes a line). -/
def readLoop (file : String) : Nat → List Char → Replay → Opened
  | 0, _, m => .replay m
  | fuel + 1, data, m =>
    if data = [] then .replay m else
    let (line, data, ok) := cut data ['\n']
    let (f1, f2, _) := cut line [' ']
    match parseInt f1, parseInt f2 with
    | some n1, some n2 =>
      if !ok || n1 > data.length then .error (.corrupt file)
      else if n1 < 0 then .panic
      else if n2 > (data.drop n1.toNat).length then .error (.corrupt file)
      else if n2 < 0 then .panic
      else readLoop file fuel (data.drop (n1 + n2).toNat)
        (m.set (data.take n1.toNat) ((data.drop n1.toNat).take n2.toNat))
    | _, _ => .error (.corrupt file)

/-- `open(file, rt)` on what `os.ReadFile(file)` returns. -/
def «open» (file : String) (contents : Except String (List Char)) : Opened :=
  match contents with
  | .error msg => .error (.readFile msg)
  | .ok data =>
    let (line, data, ok) := cut data ['\n']
    if !ok || line ≠ magic then .error (.notTrace file)
    else readLoop file data.length data .empty

/-! ## `strings.Cut` at one character -/

section Cut

variable {c : Char}

theorem cut_char_of_not_mem : ∀ {xs : List Char} (ys : List Char), c ∉ xs →
    cut (xs ++ c :: ys) [c] = (xs, ys, true)
  | [], ys, _ => by simp [cut, List.isPrefixOf]
  | x :: xs, ys, h => by
    rw [List.mem_cons, not_or] at h
    rw [List.cons_append, cut, if_neg (by simp [List.isPrefixOf, h.1]),
      cut_char_of_not_mem ys h.2]

theorem cut_char_absent : ∀ {s : List Char}, c ∉ s → cut s [c] = (s, [], false)
  | [], _ => by simp [cut, List.isPrefixOf]
  | x :: s, h => by
    rw [List.mem_cons, not_or] at h
    rw [cut, if_neg (by simp [List.isPrefixOf, h.1]), cut_char_absent h.2]

theorem cut_char_spec : ∀ {s a b : List Char}, cut s [c] = (a, b, true) → s = a ++ c :: b ∧ c ∉ a
  | [], a, b, h => by simp [cut, List.isPrefixOf] at h
  | x :: s, a, b, h => by
    by_cases hx : x = c
    · subst hx
      simp only [cut, List.isPrefixOf, beq_self_eq_true, Bool.and_self, ↓reduceIte,
        List.length_singleton, List.drop_one, List.tail_cons, Prod.mk.injEq] at h
      obtain ⟨rfl, rfl, -⟩ := h
      exact ⟨rfl, List.not_mem_nil _⟩
    · rw [cut, if_neg (by simp [List.isPrefixOf, Ne.symm hx])] at h
      rcases hc : cut s [c] with ⟨a', b', ok⟩
      rw [hc] at h
      simp only [Prod.mk.injEq] at h
      obtain ⟨rfl, rfl, rfl⟩ := h
      obtain ⟨hs, hn⟩ := cut_char_spec hc
      exact ⟨by rw [hs]; rfl, by simp [hn, Ne.symm hx]⟩

end Cut

/-! ## `%d` and `Atoi` -/

theorem toDigitsCore_fuel : ∀ (f f' n : Nat) (ds : List Char), n < f → n < f' →
    Nat.toDigitsCore 10 f n ds = Nat.toDigitsCore 10 f' n ds
  | 0, _, _, _, h, _ => absurd h (Nat.not_lt_zero _)
  | _, 0, _, _, _, h => absurd h (Nat.not_lt_zero _)
  | f + 1, f' + 1, n, ds, h, h' => by
    simp only [Nat.toDigitsCore]
    split_ifs
    · rfl
    · exact toDigitsCore_fuel f f' _ _ (by omega) (by omega)

theorem toDigitsCore_append : ∀ (f n : Nat) (ds : List Char), n < f →
    Nat.toDigitsCore 10 f n ds = Nat.toDigitsCore 10 f n [] ++ ds
  | 0, _, _, h => absurd h (Nat.not_lt_zero _)
  | f + 1, n, ds, h => by
    simp only [Nat.toDigitsCore]
    split_ifs
    · rfl
    · rw [toDigitsCore_append f _ _ (by omega), toDigitsCore_append f _ [_] (by omega),
        List.append_assoc, List.singleton_append]

theorem decimal_eq (n : Nat) : decimal n =
    (if n / 10 = 0 then [] else decimal (n / 10)) ++ [Nat.digitChar (n % 10)] := by
  unfold decimal Nat.toDigits
  rw [Nat.toDigitsCore]
  split_ifs
  · rfl
  · rw [toDigitsCore_append _ _ _ (by omega),
      toDigitsCore_fuel n (n / 10 + 1) _ _ (by omega) (by omega)]

theorem digitChar_digit : ∀ d, d < 10 →
    (Nat.digitChar d).isDigit ∧ (Nat.digitChar d).toNat - '0'.toNat = d := by
  decide

/-- The value `Atoi` reads from decimal digits. -/
def digitsValue (s : List Char) : Nat := s.foldl (fun n c => 10 * n + (c.toNat - '0'.toNat)) 0

theorem decimal_spec (n : Nat) :
    decimal n ≠ [] ∧ (∀ c ∈ decimal n, c.isDigit) ∧ digitsValue (decimal n) = n := by
  induction n using Nat.strong_induction_on with
  | _ n ih =>
    have hd := digitChar_digit (n % 10) (Nat.mod_lt _ (by decide))
    rw [decimal_eq]
    split_ifs with h0
    · refine ⟨by simp, by simp [hd.1], ?_⟩
      simp only [digitsValue, List.nil_append, List.foldl_cons, List.foldl_nil, hd.2]
      omega
    · obtain ⟨-, hall, hval⟩ := ih (n / 10) (by omega)
      refine ⟨by simp, fun c hc => ?_, ?_⟩
      · rcases List.mem_append.1 hc with hc | hc
        · exact hall c hc
        · rw [List.mem_singleton.1 hc]; exact hd.1
      · rw [digitsValue, List.foldl_append, ← digitsValue, hval, List.foldl_cons,
          List.foldl_nil, hd.2]
        omega

theorem parseInt_digits {s : List Char} (hs : s ≠ []) (hd : ∀ c ∈ s, c.isDigit) :
    parseInt s = if digitsValue s < 2 ^ 63 then some (digitsValue s : Int) else none := by
  obtain ⟨c, t, rfl⟩ := List.exists_cons_of_ne_nil hs
  have hc := hd c (List.mem_cons_self _ _)
  have hall : (c :: t).all Char.isDigit = true := List.all_eq_true.2 hd
  have hplus : c ≠ '+' := by rintro rfl; exact absurd hc (by decide)
  have hminus : c ≠ '-' := by rintro rfl; exact absurd hc (by decide)
  simp only [parseInt, hplus, hminus, hall, List.cons.injEq, false_and, imp_false,
    not_false_eq_true, implies_true, reduceCtorEq, Bool.true_eq_false, or_self,
    Bool.false_eq_true, ↓reduceIte, digitsValue]

theorem parseInt_decimal {n : Nat} (h : n < 2 ^ 63) : parseInt (decimal n) = some (n : Int) := by
  obtain ⟨hne, hd, hv⟩ := decimal_spec n
  rw [parseInt_digits hne hd, hv, if_pos h]

theorem not_mem_decimal (n : Nat) : ' ' ∉ decimal n ∧ '\n' ∉ decimal n :=
  ⟨fun h => absurd ((decimal_spec n).2.1 _ h) (by decide),
    fun h => absurd ((decimal_spec n).2.1 _ h) (by decide)⟩

/-! ## Records -/

/-- A record as `open` reads it: the texts of its two lengths, the key and the response. -/
structure Rec where
  t1 : List Char
  t2 : List Char
  key : List Char
  resp : List Char
deriving DecidableEq

/-- The record's bytes: `t1 t2\n`, the key, the response. -/
def Rec.text (r : Rec) : List Char := r.t1 ++ ' ' :: r.t2 ++ '\n' :: (r.key ++ r.resp)

/-- A record `open` accepts: its line cut at the newline and at the first space gives the two
texts, from which `Atoi` reads the lengths of the key and the response. -/
def Rec.Ok (r : Rec) : Prop :=
  ' ' ∉ r.t1 ∧ '\n' ∉ r.t1 ++ r.t2 ∧
    parseInt r.t1 = some (r.key.length : Int) ∧ parseInt r.t2 = some (r.resp.length : Int)

instance (r : Rec) : Decidable r.Ok := inferInstanceAs (Decidable (_ ∧ _ ∧ _ ∧ _))

/-- The record `RoundTrip` writes for a pair. -/
def Rec.ofPair (p : List Char × List Char) : Rec :=
  ⟨decimal p.1.length, decimal p.2.length, p.1, p.2⟩

/-- `replay[req] = resp` for each record, in order. -/
def Rec.load (m : Replay) (rs : List Rec) : Replay := rs.foldl (fun m r => m.set r.key r.resp) m

@[simp] theorem Rec.text_ofPair (p : List Char × List Char) :
    (Rec.ofPair p).text = record p.1 p.2 := by
  simp [Rec.ofPair, Rec.text, record]

theorem Rec.ok_ofPair {p : List Char × List Char} (h1 : p.1.length < 2 ^ 63)
    (h2 : p.2.length < 2 ^ 63) : (Rec.ofPair p).Ok :=
  ⟨(not_mem_decimal _).1, by simp [Rec.ofPair, (not_mem_decimal _).2], parseInt_decimal h1,
    parseInt_decimal h2⟩

theorem trace_eq (ps : List (List Char × List Char)) :
    trace ps = magic ++ '\n' :: (ps.map Rec.ofPair).flatMap Rec.text := by
  simp [trace, List.flatMap, Function.comp_def]

/-! ## Reading records -/

section Read

variable (file : String)

@[simp] theorem readLoop_nil : ∀ fuel (m : Replay), readLoop file fuel [] m = .replay m
  | 0, _ => rfl
  | _ + 1, _ => by simp [readLoop]

theorem readLoop_line {t1 t2 : List Char} (hsp : ' ' ∉ t1) (hnl : '\n' ∉ t1 ++ t2)
    (d : List Char) (fuel : Nat) (m : Replay) :
    readLoop file (fuel + 1) (t1 ++ ' ' :: t2 ++ '\n' :: d) m =
      match parseInt t1, parseInt t2 with
      | some n1, some n2 =>
        if n1 > d.length then .error (.corrupt file)
        else if n1 < 0 then .panic
        else if n2 > (d.drop n1.toNat).length then .error (.corrupt file)
        else if n2 < 0 then .panic
        else readLoop file fuel (d.drop (n1 + n2).toNat)
          (m.set (d.take n1.toNat) ((d.drop n1.toNat).take n2.toNat))
      | _, _ => .error (.corrupt file) := by
  have hline : '\n' ∉ t1 ++ ' ' :: t2 := by
    simp only [List.mem_append, List.mem_cons, not_or] at hnl ⊢
    exact ⟨hnl.1, by decide, hnl.2⟩
  rw [readLoop, if_neg (by simp), cut_char_of_not_mem _ hline]
  simp only [cut_char_of_not_mem _ hsp, Bool.not_true, Bool.false_or, decide_eq_true_eq]

theorem readLoop_rec {r : Rec} (hr : r.Ok) (rest : List Char) (fuel : Nat) (m : Replay) :
    readLoop file (fuel + 1) (r.text ++ rest) m = readLoop file fuel rest (m.set r.key r.resp) := by
  obtain ⟨hsp, hnl, h1, h2⟩ := hr
  rw [Rec.text, List.append_assoc, List.cons_append, readLoop_line file hsp hnl, h1, h2]
  simp only [List.append_assoc, List.length_append, Nat.cast_add, gt_iff_lt, Int.toNat_natCast,
    List.drop_left, List.take_left]
  rw [if_neg (by omega), if_neg (by omega), if_neg (by omega), if_neg (by omega),
    show ((r.key.length : Int) + r.resp.length).toNat = (r.key ++ r.resp).length by
      rw [List.length_append]; omega, ← List.append_assoc, List.drop_left]

theorem readLoop_recs (rest : List Char) :
    ∀ (rs : List Rec) (fuel : Nat) (m : Replay), (∀ r ∈ rs, r.Ok) → rs.length ≤ fuel →
      readLoop file fuel (rs.flatMap Rec.text ++ rest) m =
        readLoop file (fuel - rs.length) rest (Rec.load m rs)
  | [], fuel, m, _, _ => by simp [Rec.load]
  | r :: rs, fuel + 1, m, hok, hlen => by
    rw [List.flatMap_cons, List.append_assoc, readLoop_rec file (hok r (List.mem_cons_self _ _)),
      readLoop_recs rest rs fuel _ (fun r' h => hok r' (List.mem_cons_of_mem _ h))
        (by simp at hlen; omega)]
    simp [Rec.load]

theorem Rec.length_text_pos (r : Rec) : 0 < r.text.length := by
  simp only [Rec.text, List.length_append, List.length_cons]; omega

theorem length_le_length_flatMap (rs : List Rec) : rs.length ≤ (rs.flatMap Rec.text).length := by
  induction rs with
  | nil => simp
  | cons r rs ih => simp only [List.flatMap_cons, List.length_append, List.length_cons]; have := r.length_text_pos; omega

theorem readLoop_succ_replay {fuel : Nat} {data : List Char} {m m' : Replay}
    (h : readLoop file (fuel + 1) data m = .replay m') :
    data = [] ∧ m' = m ∨ ∃ (r : Rec) (rest : List Char), r.Ok ∧ data = r.text ++ rest ∧
      readLoop file fuel rest (m.set r.key r.resp) = .replay m' := by
  by_cases h0 : data = []
  · subst h0
    simp only [readLoop, ↓reduceIte, Opened.replay.injEq] at h
    exact .inl ⟨rfl, h.symm⟩
  right
  rw [readLoop, if_neg h0] at h
  rcases hc : cut data ['\n'] with ⟨line, d, ok⟩
  rcases hc2 : cut line [' '] with ⟨f1, f2, ok2⟩
  simp only [hc, hc2] at h
  rcases h1 : parseInt f1 with _ | n1 <;> rcases h2 : parseInt f2 with _ | n2 <;>
    simp only [h1, h2, reduceCtorEq] at h
  cases ok
  · simp only [Bool.not_false, Bool.true_or, ↓reduceIte, reduceCtorEq] at h
  simp only [Bool.not_true, Bool.false_or, decide_eq_true_eq] at h
  by_cases hn1 : n1 > d.length
  · rw [if_pos hn1] at h; cases h
  rw [if_neg hn1] at h
  by_cases hneg1 : n1 < 0
  · rw [if_pos hneg1] at h; cases h
  rw [if_neg hneg1] at h
  by_cases hn2 : n2 > (d.drop n1.toNat).length
  · rw [if_pos hn2] at h; cases h
  rw [if_neg hn2] at h
  by_cases hneg2 : n2 < 0
  · rw [if_pos hneg2] at h; cases h
  rw [if_neg hneg2] at h
  have hok2 : ok2 = true := by
    cases ok2
    · rw [Github.Txtar.cut_of_not_found [' '] line (by rw [hc2])] at hc2
      cases hc2
      cases h2
    · rfl
  subst hok2
  obtain ⟨hdata, hnl⟩ := cut_char_spec hc
  obtain ⟨hline, hsp⟩ := cut_char_spec hc2
  simp only [List.length_drop, gt_iff_lt, not_lt] at hn1 hn2
  have ha : ((d.take n1.toNat).length : Int) = n1 := by
    rw [List.length_take]; omega
  have hb : (((d.drop n1.toNat).take n2.toNat).length : Int) = n2 := by
    rw [List.length_take, List.length_drop]; omega
  refine ⟨⟨f1, f2, d.take n1.toNat, (d.drop n1.toNat).take n2.toNat⟩, d.drop (n1 + n2).toNat,
    ⟨hsp, ?_, by rw [h1, ha], by rw [h2, hb]⟩, ?_, h⟩
  · rw [hline] at hnl
    simp only [List.mem_append, List.mem_cons, not_or] at hnl ⊢
    exact ⟨hnl.1, hnl.2.2⟩
  · rw [hdata, hline, Rec.text, show (n1 + n2).toNat = n1.toNat + n2.toNat by omega,
      ← List.drop_drop]
    simp only [List.append_assoc, List.cons_append, List.take_append_drop]

theorem recs_of_readLoop : ∀ (fuel : Nat) (data : List Char) (m m' : Replay),
    data.length ≤ fuel → readLoop file fuel data m = .replay m' →
      ∃ rs : List Rec, (∀ r ∈ rs, r.Ok) ∧ data = rs.flatMap Rec.text ∧ m' = Rec.load m rs
  | 0, data, m, m', hlen, h => by
    obtain rfl := List.eq_nil_of_length_eq_zero (Nat.le_zero.1 hlen)
    simp only [readLoop, Opened.replay.injEq] at h
    exact ⟨[], by simp, rfl, by rw [← h]; rfl⟩
  | fuel + 1, data, m, m', hlen, h => by
    rcases readLoop_succ_replay file h with ⟨rfl, rfl⟩ | ⟨r, rest, hr, rfl, hrest⟩
    · exact ⟨[], by simp, rfl, rfl⟩
    · have : rest.length ≤ fuel := by
        have := r.length_text_pos
        simp only [List.length_append] at hlen
        omega
      obtain ⟨rs, hok, rfl, rfl⟩ := recs_of_readLoop fuel rest _ m' this hrest
      exact ⟨r :: rs, fun r' h' => (List.mem_cons.1 h').elim (· ▸ hr) (hok r'), by simp, rfl⟩

theorem readLoop_eq_replay {fuel : Nat} {data : List Char} (m m' : Replay)
    (hlen : data.length ≤ fuel) :
    readLoop file fuel data m = .replay m' ↔
      ∃ rs : List Rec, (∀ r ∈ rs, r.Ok) ∧ data = rs.flatMap Rec.text ∧ m' = Rec.load m rs := by
  refine ⟨recs_of_readLoop file fuel data m m' hlen, ?_⟩
  rintro ⟨rs, hok, rfl, rfl⟩
  rw [← List.append_nil (rs.flatMap Rec.text), readLoop_recs file [] rs fuel m hok
    ((length_le_length_flatMap rs).trans (by simpa using hlen)), readLoop_nil]

theorem readLoop_take_text {r : Rec} (hr : r.Ok) {i : Nat} (hi0 : 0 < i) (hi : i < r.text.length)
    (fuel : Nat) (m : Replay) :
    readLoop file (fuel + 1) (r.text.take i) m = .error (.corrupt file) := by
  obtain ⟨hsp, hnl, h1, h2⟩ := hr
  have htext : r.text = (r.t1 ++ ' ' :: r.t2) ++ '\n' :: (r.key ++ r.resp) := by
    simp [Rec.text]
  by_cases hi' : i ≤ (r.t1 ++ ' ' :: r.t2).length
  · -- the line is cut: there is no newline
    have hline : '\n' ∉ (r.t1 ++ ' ' :: r.t2).take i := fun h => by
      have := List.mem_of_mem_take h
      simp only [List.mem_append, List.mem_cons, not_or] at hnl this
      rcases this with h | h | h
      · exact hnl.1 h
      · exact absurd h (by decide)
      · exact hnl.2 h
    rw [htext, List.take_append_of_le_length hi', readLoop,
      if_neg (by simp only [ne_eq, List.take_eq_nil_iff, not_or]; exact ⟨by omega, by simp⟩),
      cut_char_absent hline]
    dsimp only
    split <;> simp
  · -- the line is whole, the key and the response are not
    obtain ⟨j, rfl⟩ : ∃ j, i = (r.t1 ++ ' ' :: r.t2).length + (j + 1) :=
      ⟨i - (r.t1 ++ ' ' :: r.t2).length - 1, by omega⟩
    have hj : j < r.key.length + r.resp.length := by
      rw [htext] at hi; simp only [List.length_append, List.length_cons] at hi ⊢; omega
    rw [htext, List.take_append_eq_append_take, List.take_of_length_le (by omega),
      Nat.add_sub_cancel_left, List.take_succ_cons, readLoop_line file hsp hnl, h1, h2]
    simp only [List.length_take, List.length_append, List.length_drop, gt_iff_lt]
    by_cases hk : j < r.key.length
    · rw [if_pos (by omega)]
    · rw [if_neg (by omega), if_neg (by omega), if_pos (by omega)]

end Read

/-! ## Opening a file -/

section Open

variable (file : String)

theorem newline_not_mem_magic : '\n' ∉ magic := by decide

theorem open_magic (rest : List Char) :
    «open» file (.ok (magic ++ '\n' :: rest)) = readLoop file rest.length rest .empty := by
  simp only [«open», cut_char_of_not_mem _ newline_not_mem_magic, Bool.not_true, Bool.false_or,
    ne_eq, not_true_eq_false, decide_False, Bool.false_eq_true, ↓reduceIte]

/-- `open` accepts exactly the files made of the first line and well-formed records, and reads
them into the map in order, so that a later record of a key replaces an earlier one. -/
theorem open_eq_replay_iff (data : List Char) (m : Replay) :
    «open» file (.ok data) = .replay m ↔
      ∃ rs : List Rec, (∀ r ∈ rs, r.Ok) ∧ data = magic ++ '\n' :: rs.flatMap Rec.text ∧
        m = Rec.load .empty rs := by
  by_cases hd : ∃ rest, data = magic ++ '\n' :: rest
  · obtain ⟨rest, rfl⟩ := hd
    rw [open_magic, readLoop_eq_replay file _ _ le_rfl]
    simp only [List.append_cancel_left_eq, List.cons.injEq, true_and]
  · refine iff_of_false (fun h => ?_) fun ⟨rs, _, hrs, _⟩ => hd ⟨_, hrs⟩
    rcases hc : cut data ['\n'] with ⟨line, d, ok⟩
    simp only [«open», hc] at h
    by_cases hok : ok = true ∧ line = magic
    · obtain ⟨rfl, rfl⟩ := hok
      exact hd ⟨d, (cut_char_spec hc).1⟩
    · rw [if_pos (by cases ok <;> simp_all)] at h
      cases h

/-- The response of the last pair of key `k` among `ps`, if any: one of a later pair, or else
this pair's. -/
def lastResp (k : List Char) : List (List Char × List Char) → Option (List Char)
  | [] => none
  | p :: ps => (lastResp k ps).or (if p.1 = k then some p.2 else none)

theorem get_load_ofPair (k : List Char) :
    ∀ (ps : List (List Char × List Char)) (m : Replay),
      (Rec.load m (ps.map Rec.ofPair)).get k = (lastResp k ps).or (m.get k)
  | [], m => by simp [Rec.load, lastResp]
  | p :: ps, m => by
    rw [List.map_cons, Rec.load, List.foldl_cons, ← Rec.load, get_load_ofPair k ps]
    simp only [lastResp, OMap.get_set, Rec.ofPair]
    by_cases hk : p.1 = k <;> cases lastResp k ps <;> simp [hk, Ne.symm]

theorem open_trace_load {ps : List (List Char × List Char)}
    (hlen : ∀ p ∈ ps, p.1.length < 2 ^ 63 ∧ p.2.length < 2 ^ 63) :
    «open» file (.ok (trace ps)) = .replay (Rec.load .empty (ps.map Rec.ofPair)) := by
  rw [trace_eq, open_magic]
  refine (readLoop_eq_replay file _ _ le_rfl).2 ⟨_, fun r hr => ?_, rfl, rfl⟩
  obtain ⟨p, hp, rfl⟩ := List.mem_map.1 hr
  exact Rec.ok_ofPair (hlen p hp).1 (hlen p hp).2

theorem get_load_ofPair_empty (k : List Char) (ps : List (List Char × List Char)) :
    (Rec.load .empty (ps.map Rec.ofPair)).get k = lastResp k ps := by
  simp [get_load_ofPair]

/-- A trace as record mode writes it opens to the pairs recorded: each key replays the response
recorded last for it, and a key never recorded is not found. -/
theorem open_trace {ps : List (List Char × List Char)}
    (hlen : ∀ p ∈ ps, p.1.length < 2 ^ 63 ∧ p.2.length < 2 ^ 63) :
    ∃ m, «open» file (.ok (trace ps)) = .replay m ∧ ∀ k, m.get k = lastResp k ps :=
  ⟨_, open_trace_load file hlen, (get_load_ofPair_empty · ps)⟩

/-- A trace of one request `GET /` answered `200` opens to it. -/
theorem open_trace_get :
    (∀ p ∈ [("GET /".toList, "200".toList)], p.1.length < 2 ^ 63 ∧ p.2.length < 2 ^ 63) ∧
      ∃ m, «open» "rr" (.ok (trace [("GET /".toList, "200".toList)])) = .replay m ∧
        ∀ k, m.get k = lastResp k [("GET /".toList, "200".toList)] :=
  ⟨by decide, open_trace "rr" (by decide)⟩

/-- A file cut inside a record, as a crash in the middle of `RoundTrip`'s writes leaves it, is
reported corrupt, never read in part. -/
theorem open_truncated {rs : List Rec} (hrs : ∀ r ∈ rs, r.Ok) {r : Rec} (hr : r.Ok) {i : Nat}
    (hi0 : 0 < i) (hi : i < r.text.length) :
    «open» file (.ok (magic ++ '\n' :: (rs.flatMap Rec.text ++ r.text.take i))) =
      .error (.corrupt file) := by
  have hlen : rs.length + 1 ≤ (rs.flatMap Rec.text ++ r.text.take i).length := by
    have := length_le_length_flatMap rs
    simp only [List.length_append, List.length_take]; omega
  rw [open_magic, readLoop_recs file _ rs _ _ hrs (by omega),
    show (rs.flatMap Rec.text ++ r.text.take i).length - rs.length =
      ((rs.flatMap Rec.text ++ r.text.take i).length - rs.length - 1) + 1 by omega,
    readLoop_take_text file hr hi0 hi]

/-- The record `1 1\nkv`, then the record `1 1\nkw` cut after `1 1`, is reported corrupt. -/
theorem open_truncated_kv :
    (∀ r ∈ [Rec.ofPair ("k".toList, "v".toList)], r.Ok) ∧ (Rec.ofPair ("k".toList, "w".toList)).Ok ∧
      0 < 3 ∧ 3 < (Rec.ofPair ("k".toList, "w".toList)).text.length ∧
      «open» "rr" (.ok (magic ++ '\n' :: ([Rec.ofPair ("k".toList, "v".toList)].flatMap Rec.text ++
        (Rec.ofPair ("k".toList, "w".toList)).text.take 3))) = .error (.corrupt "rr") :=
  ⟨by decide, by decide, by decide, by decide,
    open_truncated "rr" (by decide) (by decide) (by decide) (by decide)⟩

/-- A record whose first length is negative, or whose second is negative while the first fits,
makes `open` panic: `data[n1:]` or `data[n1:n1+n2]` is out of range. -/
theorem open_panics {rs : List Rec} (hrs : ∀ r ∈ rs, r.Ok) {t1 t2 rest : List Char}
    {n1 n2 : Int} (hsp : ' ' ∉ t1) (hnl : '\n' ∉ t1 ++ t2) (h1 : parseInt t1 = some n1)
    (h2 : parseInt t2 = some n2) (hneg : n1 < 0 ∨ 0 ≤ n1 ∧ n1 ≤ rest.length ∧ n2 < 0) :
    «open» file (.ok (magic ++ '\n' :: (rs.flatMap Rec.text ++ (t1 ++ ' ' :: t2 ++ '\n' :: rest)))) =
      .panic := by
  have hlen : rs.length + 1 ≤ (rs.flatMap Rec.text ++ (t1 ++ ' ' :: t2 ++ '\n' :: rest)).length := by
    have := length_le_length_flatMap rs
    simp only [List.length_append, List.length_cons]; omega
  rw [open_magic, readLoop_recs file _ rs _ _ hrs (by omega),
    show (rs.flatMap Rec.text ++ (t1 ++ ' ' :: t2 ++ '\n' :: rest)).length - rs.length =
      ((rs.flatMap Rec.text ++ (t1 ++ ' ' :: t2 ++ '\n' :: rest)).length - rs.length - 1) + 1 by
        omega, readLoop_line file hsp hnl, h1, h2]
  simp only [gt_iff_lt, List.length_drop]
  rcases hneg with hneg | ⟨h0, hle, hneg⟩
  · rw [if_neg (by omega), if_pos hneg]
  · rw [if_neg (by omega), if_neg (by omega), if_neg (by omega), if_pos hneg]

/-- The record line `-1 0` makes `open` panic. -/
theorem open_panics_minusOne :
    (∀ r ∈ ([] : List Rec), r.Ok) ∧ ' ' ∉ "-1".toList ∧ '\n' ∉ "-1".toList ++ "0".toList ∧
      parseInt "-1".toList = some (-1) ∧ parseInt "0".toList = some 0 ∧
      ((-1 : Int) < 0 ∨ 0 ≤ (-1 : Int) ∧ (-1 : Int) ≤ ([] : List Char).length ∧ (0 : Int) < 0) ∧
      «open» "rr" (.ok (magic ++ '\n' :: (([] : List Rec).flatMap Rec.text ++
        ("-1".toList ++ ' ' :: "0".toList ++ '\n' :: [])))) = .panic :=
  ⟨by simp, by decide, by decide, by decide, by decide, by decide,
    @open_panics "rr" [] (by simp) "-1".toList "0".toList [] (-1) 0 (by decide) (by decide)
      (by decide) (by decide) (by decide)⟩

end Open

end Gaby.Httprr
