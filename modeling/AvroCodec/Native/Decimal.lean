import AvroCodec.Go.Big

namespace AvroCodec.Native

open AvroCodec.Go

/-! The decimal codecs of `codec_native.go` on the values they read and write:
the big-endian two's-complement string of the unscaled integer.  Both
`bytesDecimalCodec` and `bytesDecimalPtrCodec` compute it the same way. -/

/-- `len(b) > 0 && b[0]&0x80 > 0`: the sign bit of a two's-complement string. -/
def highBit : List UInt8 → Bool
  | x :: _ => x &&& 0x80 > 0
  | [] => false

/-- The signed integer the decoders read: `SetBytes(b)`, less `1 << (len(b)*8)`
when the sign bit is set. -/
def twosComplement (b : List UInt8) : Int :=
  if highBit b then (big.setBytes b : Int) - 2 ^ (b.length * 8) else big.setBytes b

/-- `ratFromBytes(b, scale)`: `big.NewRat(i.Int64(), int64(math.Pow10(scale)))`. -/
def ratFromBytes (b : List UInt8) (scale : Int) : Except Panic ℚ :=
  big.newRat (big.int64 (twosComplement b)) (pow10Int64 scale)

/-- The unscaled integer the encoders compute: `r.Num()` times
`int64(math.Pow10(scale))`, divided by `r.Denom()` with `big.Int.Div`, which
is Euclidean. -/
def unscaled (scale : Int) (r : ℚ) : Int := r.num * pow10Int64 scale / r.den

/-- The sign switch of the encoders, on the unscaled integer `i`. -/
def decimalBytes (i : Int) : List UInt8 :=
  if i = 0 then [0]
  else if 0 < i then
    let b := big.bytes i
    if highBit b then 0 :: b else b
  else
    let length := (bitLen i.natAbs / 8 + 1) * 8
    big.bytes (i + 2 ^ length)

set_option maxRecDepth 2000 in
private theorem land_128_pos_iff : ∀ n < 256, (0 < n &&& 128 ↔ 128 ≤ n) := by decide

theorem highBit_cons (x : UInt8) (l : List UInt8) : highBit (x :: l) = true ↔ 128 ≤ x.toNat := by
  have := land_128_pos_iff x.toNat (big.toNat_lt_256 x)
  simp only [highBit, decide_eq_true_eq, gt_iff_lt, UInt8.lt_def] at *
  simpa using this

theorem highBit_iff (b : List UInt8) :
    highBit b = true ↔ b ≠ [] ∧ 128 * 256 ^ (b.length - 1) ≤ big.setBytes b := by
  cases b with
  | nil => simp [highBit]
  | cons x l =>
      have hrest := big.setBytes_lt l
      rw [highBit_cons, big.setBytes_cons]
      simp only [ne_eq, reduceCtorEq, not_false_eq_true, List.length_cons, Nat.add_sub_cancel,
        true_and]
      constructor
      · intro hx
        have := Nat.mul_le_mul_right (256 ^ l.length) hx
        omega
      · intro hle
        by_contra hx
        have := Nat.mul_le_mul_right (256 ^ l.length) (show x.toNat ≤ 127 by omega)
        omega

@[simp] theorem highBit_zero_cons (l : List UInt8) : highBit (0 :: l) = false := rfl

private theorem two_pow_sign (k : Nat) : 128 * 256 ^ k = 2 ^ (8 * k + 7) := by
  rw [Nat.pow_add, big.two_pow_eight_mul, Nat.mul_comm]

private theorem decimalBytes_pos {n : Int} (hn : 0 < n) :
    twosComplement (decimalBytes n) = n ∧
      (decimalBytes n).length = bitLen n.natAbs / 8 + 1 := by
  have hset := big.setBytes_bytes n
  have hlen := big.length_bytes n
  have hbit : 0 < bitLen n.natAbs := by
    have := (bitLen_le_iff n.natAbs 0).not.mpr (by simp; omega)
    omega
  have hhigh := highBit_iff (big.bytes n)
  have hpow := two_pow_sign ((bitLen n.natAbs + 7) / 8 - 1)
  have hle := bitLen_le_iff n.natAbs (8 * ((bitLen n.natAbs + 7) / 8 - 1) + 7)
  have hne : big.bytes n ≠ [] := fun h => by simp [h] at hlen; omega
  rw [hlen, hset] at hhigh
  cases hb : highBit (big.bytes n) with
  | true =>
      have hge := (hhigh.mp hb).2
      have hbits : ¬ bitLen n.natAbs ≤ 8 * ((bitLen n.natAbs + 7) / 8 - 1) + 7 :=
        fun h => absurd (hle.mp h) (by omega)
      simp only [decimalBytes, if_neg hn.ne', if_pos hn, hb, if_true, twosComplement,
        highBit_zero_cons, Bool.false_eq_true, if_false, big.setBytes_cons, hset,
        List.length_cons, hlen]
      refine ⟨by simp; omega, by omega⟩
  | false =>
      have hlt : ¬ 128 * 256 ^ ((bitLen n.natAbs + 7) / 8 - 1) ≤ n.natAbs := fun h => by
        simpa [hb] using hhigh.mpr ⟨hne, h⟩
      have hbits := hle.mpr (by omega)
      simp only [decimalBytes, if_neg hn.ne', if_pos hn, hb, Bool.false_eq_true, if_false,
        twosComplement, hset, hlen]
      omega

private theorem decimalBytes_neg {n : Int} (hn : n < 0) :
    twosComplement (decimalBytes n) = n ∧
      (decimalBytes n).length = bitLen n.natAbs / 8 + 1 := by
  set q := bitLen n.natAbs / 8
  have hsign := two_pow_sign q
  have hhalf : (2 : Nat) ^ (8 * q + 8) = 2 * 2 ^ (8 * q + 7) := by
    rw [Nat.pow_succ, Nat.mul_comm]
  have hL : (2 : Int) ^ ((q + 1) * 8) = 2 * ((2 ^ (8 * q + 7) : Nat) : Int) := by
    rw [show (q + 1) * 8 = 8 * q + 7 + 1 by ring, pow_succ]
    push_cast
    ring
  have habs : n.natAbs < 2 ^ (8 * q + 7) :=
    Nat.lt_of_lt_of_le (lt_two_pow_bitLen _) (Nat.pow_le_pow_right (by decide) (by omega))
  have hbits : bitLen (n + 2 ^ ((q + 1) * 8)).natAbs = 8 * q + 8 := by
    have hupper := (bitLen_le_iff (n + 2 ^ ((q + 1) * 8)).natAbs (8 * q + 8)).mpr (by omega)
    have hlower := mt (bitLen_le_iff (n + 2 ^ ((q + 1) * 8)).natAbs (8 * q + 7)).mp (by omega)
    omega
  have hset := big.setBytes_bytes (n + 2 ^ ((q + 1) * 8))
  have hlen : (big.bytes (n + 2 ^ ((q + 1) * 8))).length = q + 1 := by
    rw [big.length_bytes, hbits]
    omega
  have hhigh : highBit (big.bytes (n + 2 ^ ((q + 1) * 8))) = true := by
    rw [highBit_iff, hlen, hset, Nat.add_sub_cancel]
    exact ⟨List.ne_nil_of_length_pos (by omega), by omega⟩
  simp only [decimalBytes, if_neg hn.ne, if_neg (not_lt.mpr hn.le), twosComplement, hhigh,
    if_true, hset, hlen]
  exact ⟨by omega, trivial⟩

theorem decimalBytes_spec (n : Int) :
    twosComplement (decimalBytes n) = n ∧
      (decimalBytes n).length = bitLen n.natAbs / 8 + 1 := by
  rcases lt_trichotomy n 0 with hn | rfl | hn
  · exact decimalBytes_neg hn
  · exact ⟨rfl, rfl⟩
  · exact decimalBytes_pos hn

-- `346.8` at scale 2, as `TestEncoder_UnionMapWithDecimal` expects it written.
example : decimalBytes 34680 = [0x00, 0x87, 0x78] := by decide

theorem twosComplement_decimalBytes (n : Int) :
    decimalBytes n ≠ [] ∧ twosComplement (decimalBytes n) = n := by
  obtain ⟨hvalue, hlen⟩ := decimalBytes_spec n
  exact ⟨List.ne_nil_of_length_pos (by omega), hvalue⟩

private theorem two_pow_length_mul (k : Nat) : (2 : Int) ^ (k * 8) = ((256 ^ k : Nat) : Int) := by
  rw [mul_comm, pow_mul]
  norm_num

theorem twosComplement_range {b : List UInt8} (hb : b ≠ []) :
    -2 ^ (8 * (b.length - 1) + 7) ≤ twosComplement b ∧
      twosComplement b < 2 ^ (8 * (b.length - 1) + 7) := by
  obtain ⟨x, l, rfl⟩ := List.exists_cons_of_ne_nil hb
  have hlt := big.setBytes_lt (x :: l)
  have hhigh := highBit_iff (x :: l)
  have hwhole : 256 ^ (l.length + 1) = 2 * (128 * 256 ^ l.length) := by
    rw [Nat.pow_succ]
    ring
  have hcast : ((128 * 256 ^ l.length : Nat) : Int) = 2 ^ (8 * l.length + 7) := by
    rw [two_pow_sign]
    norm_num
  rw [twosComplement, two_pow_length_mul]
  simp only [List.length_cons, Nat.add_sub_cancel] at *
  rw [← hcast]
  split <;> simp_all only [ne_eq, reduceCtorEq, not_false_eq_true, true_and, true_iff,
    Bool.false_eq_true, false_iff, not_le] <;> omega

theorem decimalBytes_length_le {n : Int} (hn : ∀ k : Nat, n ≠ -2 ^ (8 * k + 7))
    {b : List UInt8} (hb : b ≠ []) (hvalue : twosComplement b = n) :
    (decimalBytes n).length ≤ b.length := by
  obtain ⟨hlower, hupper⟩ := twosComplement_range hb
  have hne := hn (b.length - 1)
  have habs : (n.natAbs : Int) < 2 ^ (8 * (b.length - 1) + 7) := by omega
  have hbits := (bitLen_le_iff _ _).mpr (show n.natAbs < 2 ^ (8 * (b.length - 1) + 7) by
    exact_mod_cast habs)
  rw [(decimalBytes_spec n).2]
  have := List.length_pos.mpr hb
  omega

theorem decimalBytes_minimal (scale : Int) (r : ℚ)
    (hn : ∀ k : Nat, unscaled scale r ≠ -2 ^ (8 * k + 7)) :
    decimalBytes (unscaled scale r) ≠ [] ∧
      ∀ b : List UInt8, b ≠ [] →
        twosComplement b = twosComplement (decimalBytes (unscaled scale r)) →
        (decimalBytes (unscaled scale r)).length ≤ b.length := by
  obtain ⟨hvalue, hlen⟩ := decimalBytes_spec (unscaled scale r)
  exact ⟨List.ne_nil_of_length_pos (by omega),
    fun b hb hsame => decimalBytes_length_le hn hb (hsame.trans hvalue)⟩

theorem decimalBytes_minimal_at_173400 :
    (∀ k : Nat, unscaled 2 1734 ≠ -2 ^ (8 * k + 7)) ∧
      decimalBytes (unscaled 2 1734) ≠ [] ∧
      ∀ b : List UInt8, b ≠ [] →
        twosComplement b = twosComplement (decimalBytes (unscaled 2 1734)) →
        (decimalBytes (unscaled 2 1734)).length ≤ b.length :=
  have hn : ∀ k : Nat, unscaled 2 1734 ≠ -2 ^ (8 * k + 7) := fun k => by
    have := pow_pos (show (0 : Int) < 2 by decide) (8 * k + 7)
    rw [show unscaled 2 1734 = 173400 by decide]
    omega
  ⟨hn, decimalBytes_minimal 2 1734 hn⟩

/-- Zero is written as one byte where the empty string reads the same, and
`-2 ^ (8k + 7)` in `k + 2` bytes where `k + 1` hold it. -/
theorem decimalBytes_not_minimal :
    twosComplement [] = twosComplement (decimalBytes (unscaled 0 0)) ∧
      ([] : List UInt8).length < (decimalBytes (unscaled 0 0)).length ∧
      twosComplement [128] = twosComplement (decimalBytes (unscaled 0 (-128))) ∧
      [128].length < (decimalBytes (unscaled 0 (-128))).length := by
  decide

theorem length_decimalBytes_le {n : Int} (hn : InRange 64 n) : (decimalBytes n).length ≤ 9 := by
  have hbits := (bitLen_le_iff n.natAbs 64).mpr (by unfold InRange at hn; omega)
  rw [(decimalBytes_spec n).2]
  omega

theorem unscaled_eq {scale : Int} {r : ℚ} {n : Int} (hscale : 0 ≤ scale ∧ scale ≤ 18)
    (hr : r * 10 ^ scale.toNat = n) : unscaled scale r = n := by
  have hden : (r.den : Int) ≠ 0 := by exact_mod_cast r.den_nz
  have hnum : r.num * 10 ^ scale.toNat = n * r.den := by
    have h : (r.num : ℚ) * 10 ^ scale.toNat = n * r.den := by
      rw [← Rat.mul_den_eq_num, ← hr]
      ring
    exact_mod_cast h
  rw [unscaled, pow10Int64_of_le hscale.1 hscale.2, hnum, Int.mul_ediv_cancel _ hden]

/-- Sign extension keeps the value: a leading `0xff` before a string whose sign
bit is set, a leading `0x00` before one whose sign bit is clear. -/
theorem twosComplement_signExtend (b : List UInt8) :
    twosComplement ((if highBit b then 255 else 0) :: b) = twosComplement b := by
  have hwhole : (256 : Int) ^ (b.length + 1) = 256 * 256 ^ b.length := pow_succ' _ _
  cases hb : highBit b with
  | true =>
      simp only [twosComplement, if_true, (highBit_cons 255 b).mpr (by decide),
        hb, big.setBytes_cons, List.length_cons, two_pow_length_mul]
      push_cast
      rw [hwhole]
      ring_nf
  | false =>
      simp only [twosComplement, if_false, Bool.false_eq_true, hb, highBit_zero_cons,
        big.setBytes_cons]
      simp

-- The sign-extended `-346.8` of `TestDecoder_FixedRat_Negative`.
example : twosComplement [0xFF, 0xFF, 0xFF, 0xFF, 0x78, 0x88] = twosComplement [0xFF, 0x78, 0x88] ∧
    twosComplement [0xFF, 0x78, 0x88] = -34680 := by decide

theorem ratFromBytes_eq {b : List UInt8} {scale : Int} (hvalue : InRange 64 (twosComplement b))
    (hscale : 0 ≤ scale ∧ scale ≤ 18) :
    ratFromBytes b scale = .ok ((twosComplement b : ℚ) / 10 ^ scale.toNat) := by
  rw [ratFromBytes, big.int64_eq_wrap, wrap_of_inRange (by decide) hvalue,
    pow10Int64_of_le hscale.1 hscale.2, big.newRat_of_ne_zero (pow_ne_zero _ (by decide))]
  push_cast
  rfl

theorem ratFromBytes_decimalBytes {scale : Int} {r : ℚ} {n : Int}
    (hscale : 0 ≤ scale ∧ scale ≤ 18) (hr : r * 10 ^ scale.toNat = n) (hn : InRange 64 n) :
    ratFromBytes (decimalBytes (unscaled scale r)) scale = .ok r := by
  obtain ⟨hvalue, -⟩ := decimalBytes_spec n
  rw [unscaled_eq hscale hr, ratFromBytes_eq (by rw [hvalue]; exact hn) hscale, hvalue,
    eq_div_of_mul_eq (pow_ne_zero _ (by norm_num)) hr]

theorem ratFromBytes_truncates :
    twosComplement [1, 0, 0, 0, 0, 0, 0, 0, 0] = 2 ^ 64 ∧
      ratFromBytes [1, 0, 0, 0, 0, 0, 0, 0, 0] 0 = .ok 0 ∧
      ratFromBytes [1] 19 = .ok (-1 / 2 ^ 63) := by
  refine ⟨by decide, ?_, ?_⟩
  · rw [ratFromBytes, show big.int64 (twosComplement [1, 0, 0, 0, 0, 0, 0, 0, 0]) = 0 by decide,
      big.newRat_of_ne_zero (by decide)]
    simp
  · rw [ratFromBytes, show big.int64 (twosComplement [1]) = 1 by decide,
      show pow10Int64 19 = -2 ^ 63 by decide, big.newRat_of_ne_zero (by decide)]
    norm_num

end AvroCodec.Native
