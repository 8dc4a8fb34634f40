import Mathlib.Data.List.Basic

/-!
# The byte encoding of vectors

`llm.Vector` is a `[]float32`. `Vector.Encode` stores it in the database as four big-endian
bytes per value, the bits `math.Float32bits` gives, and `Vector.Decode` reads such bytes back
into its receiver. A float32 is its IEEE bit pattern here (`BitVec 32`): `Float32bits` and
`Float32frombits` are the identity on it, so NaN payloads, `-0` and subnormals are values like
the others.

* `uint32_putUint32`, `putUint32_uint32`: the two directions of `binary.BigEndian` are
  inverse, bit by bit.
* `decodeLoop_encode`, `decodeLoop_spec`: `Decode`'s loop, run on encoded values and on any
  bytes.
* `decode_roundtrip`: `Decode(Encode(v)) = v` whatever the receiver held; `Encode(Decode(e)) = e`
  when `len(e)` is a multiple of 4; otherwise `Decode` keeps the first `len(e)/4` values.
-/

namespace Gaby.Llm

open BitVec

/-- `llm.Vector`: its float32 values, each as its IEEE bits. -/
abbrev Vector := List (BitVec 32)

/-- `binary.BigEndian.PutUint32(b, v)`: `b[0:4]`, most significant byte first. -/
def putUint32 (v : BitVec 32) : List (BitVec 8) :=
  [(v >>> 24).setWidth 8, (v >>> 16).setWidth 8, (v >>> 8).setWidth 8, v.setWidth 8]

/-- `binary.BigEndian.Uint32(b)`, for `b[0:4] = b0 b1 b2 b3`. -/
def uint32 (b0 b1 b2 b3 : BitVec 8) : BitVec 32 :=
  b3.setWidth 32 ||| b2.setWidth 32 <<< 8 ||| b1.setWidth 32 <<< 16 ||| b0.setWidth 32 <<< 24

/-- `Vector.Encode`: `4*len(v)` bytes, value `i` written at `val[4*i:]`. -/
def Vector.encode (v : Vector) : List (BitVec 8) := v.flatMap putUint32

/-- The loop of `Vector.Decode`: while `len(enc) >= 4`, append `Uint32(enc)` to `v` and drop
four bytes. -/
def decodeLoop (v : Vector) : List (BitVec 8) → Vector
  | b0 :: b1 :: b2 :: b3 :: enc => decodeLoop (v ++ [uint32 b0 b1 b2 b3]) enc
  | _ => v

/-- `v.Decode(enc)`: `*v` is made long enough for `len(enc)/4` values, cut to length 0, and
the loop appends the values of `enc`. -/
def Vector.decode (v : Vector) (enc : List (BitVec 8)) : Vector :=
  let v := if v.length < enc.length / 4 then List.replicate (enc.length / 4) 0 else v
  decodeLoop (v.take 0) enc

/-! ## `binary.BigEndian` -/

theorem uint32_putUint32 (v : BitVec 32) :
    uint32 ((v >>> 24).setWidth 8) ((v >>> 16).setWidth 8) ((v >>> 8).setWidth 8)
      (v.setWidth 8) = v := by
  ext ⟨i, hi⟩
  simp only [uint32, getLsbD_or, getLsbD_shiftLeft, getLsbD_setWidth, getLsbD_ushiftRight]
  rcases (by omega : i < 8 ∨ 8 ≤ i ∧ i < 16 ∨ 16 ≤ i ∧ i < 24 ∨ 24 ≤ i) with h | h | h | h <;>
  simp (disch := omega) only [decide_eq_true, decide_eq_false, Nat.add_sub_cancel',
    Bool.true_and, Bool.and_true, Bool.false_and, Bool.and_false, Bool.or_false, Bool.false_or,
    Bool.not_true, Bool.not_false]

theorem putUint32_uint32 (b0 b1 b2 b3 : BitVec 8) :
    putUint32 (uint32 b0 b1 b2 b3) = [b0, b1, b2, b3] := by
  simp only [putUint32, List.cons.injEq, and_true]
  refine ⟨?_, ?_, ?_, ?_⟩ <;> ext ⟨i, hi⟩ <;>
  simp (disch := omega) only [uint32, getLsbD_or, getLsbD_shiftLeft, getLsbD_setWidth,
    getLsbD_ushiftRight, getLsbD_ge, decide_eq_true, decide_eq_false, Nat.add_sub_cancel_left,
    Nat.add_sub_cancel', Bool.true_and, Bool.and_true, Bool.false_and, Bool.and_false,
    Bool.or_false, Bool.false_or, Bool.not_true, Bool.not_false]

/-! ## `Encode` and `Decode` -/

@[simp] theorem Vector.encode_nil : Vector.encode [] = [] := rfl

@[simp] theorem Vector.encode_cons (f : BitVec 32) (v : Vector) :
    Vector.encode (f :: v) = putUint32 f ++ Vector.encode v := rfl

@[simp] theorem decodeLoop_cons (v : Vector) (b0 b1 b2 b3 : BitVec 8) (enc : List (BitVec 8)) :
    decodeLoop v (b0 :: b1 :: b2 :: b3 :: enc) = decodeLoop (v ++ [uint32 b0 b1 b2 b3]) enc := by
  rw [decodeLoop]

@[simp] theorem Vector.encode_append (v w : Vector) :
    Vector.encode (v ++ w) = v.encode ++ w.encode := List.flatMap_append _ _ _

theorem Vector.decode_eq (v : Vector) (enc : List (BitVec 8)) :
    v.decode enc = decodeLoop [] enc := by
  simp only [Vector.decode, List.take_zero]

theorem decodeLoop_encode (v w : Vector) : decodeLoop v w.encode = v ++ w := by
  induction w generalizing v with
  | nil => simp [decodeLoop]
  | cons f w ih =>
    rw [Vector.encode_cons, putUint32, List.cons_append, List.cons_append, List.cons_append,
      List.cons_append, List.nil_append, decodeLoop_cons, uint32_putUint32, ih, List.append_assoc,
      List.singleton_append]

theorem decodeLoop_spec :
    ∀ (v : Vector) (enc : List (BitVec 8)),
      (decodeLoop v enc).length = v.length + enc.length / 4 ∧
        (decodeLoop v enc).encode = v.encode ++ enc.take (4 * (enc.length / 4))
  | v, b0 :: b1 :: b2 :: b3 :: enc => by
    obtain ⟨hlen, henc⟩ := decodeLoop_spec (v ++ [uint32 b0 b1 b2 b3]) enc
    have htake : (b0 :: b1 :: b2 :: b3 :: enc).take
        (4 * ((b0 :: b1 :: b2 :: b3 :: enc).length / 4)) =
        b0 :: b1 :: b2 :: b3 :: enc.take (4 * (enc.length / 4)) := by
      rw [show 4 * ((b0 :: b1 :: b2 :: b3 :: enc).length / 4) = 4 * (enc.length / 4) + 4 by
        simp only [List.length_cons]; omega]
      rfl
    rw [decodeLoop_cons, htake, List.length_cons, List.length_cons, List.length_cons,
      List.length_cons]
    refine ⟨by rw [hlen, List.length_append, List.length_singleton]; omega, ?_⟩
    simp only [henc, Vector.encode_append, Vector.encode_cons, putUint32_uint32,
      Vector.encode_nil, List.append_nil, List.append_assoc, List.cons_append, List.nil_append]
  | v, [] | v, [_] | v, [_, _] | v, [_, _, _] => by simp [decodeLoop]

/-- `Decode(Encode(v)) = v` bit for bit, whatever the receiver held; `Encode(Decode(e)) = e`
when `len(e)` is a multiple of 4; and `Decode` keeps the first `len(e)/4` values of `e`,
ignoring the trailing bytes. -/
theorem decode_roundtrip :
    (∀ w v : Vector, w.decode v.encode = v) ∧
    (∀ (w : Vector) (e : List (BitVec 8)), e.length % 4 = 0 → (w.decode e).encode = e) ∧
    ∀ (w : Vector) (e : List (BitVec 8)),
      (w.decode e).length = e.length / 4 ∧ (w.decode e).encode = e.take (4 * (e.length / 4)) := by
  refine ⟨fun w v => ?_, fun w e he => ?_, fun w e => ?_⟩
  · rw [Vector.decode_eq, decodeLoop_encode, List.nil_append]
  · rw [Vector.decode_eq, (decodeLoop_spec [] e).2, Vector.encode_nil, List.nil_append,
      Nat.mul_div_cancel' (Nat.dvd_of_mod_eq_zero he), List.take_length]
  · simpa [Vector.decode_eq] using decodeLoop_spec [] e

/-- Eight bytes decode into a one-value receiver as two values, which encode back to them. -/
theorem decode_eightBytes :
    ([0, 0, 0, 1, 0, 0, 0, 2] : List (BitVec 8)).length % 4 = 0 ∧
      (Vector.decode [7] [0, 0, 0, 1, 0, 0, 0, 2]).encode = [0, 0, 0, 1, 0, 0, 0, 2] :=
  ⟨rfl, decode_roundtrip.2.1 [7] [0, 0, 0, 1, 0, 0, 0, 2] rfl⟩

end Gaby.Llm
