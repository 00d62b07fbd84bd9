import AvroCodec.Go.Basic
import Mathlib.Algebra.Order.Field.Rat

namespace AvroCodec.Go

/-! The parts of `math/big` and `math` the decimal codecs call.  A `big.Int` is
an `Int` and a `big.Rat` a `ℚ`: both are exact, and `ℚ` keeps the same
normalised numerator and positive denominator that `Num` and `Denom` return. -/

namespace big

def bigEndian : Nat → Nat → List UInt8
  | 0, _ => []
  | k + 1, n => bigEndian k (n / 256) ++ [(n % 256).toUInt8]

/-- `x.Bytes()`: the absolute value of `x` as big-endian bytes, with no
leading zero, and none for `0`. -/
def bytes (x : Int) : List UInt8 := bigEndian ((bitLen x.natAbs + 7) / 8) x.natAbs

/-- `new(big.Int).SetBytes(b)`: `b` read as a big-endian unsigned integer. -/
def setBytes (b : List UInt8) : Nat := b.foldl (fun acc x => acc * 256 + x.toNat) 0

/-- `x.Int64()`: the low 64 bits of the absolute value as an `int64`, negated
for a negative `x`. -/
def int64 (x : Int) : Int :=
  let v := wrap 64 (x.natAbs % 2 ^ 64)
  if x < 0 then wrap 64 (-v) else v

/-- `big.NewRat(a, b)`, which panics on a zero denominator. -/
def newRat (a b : Int) : Except Panic ℚ :=
  if b = 0 then throw ⟨"division by zero"⟩ else pure ((a : ℚ) / b)

theorem toNat_lt_256 (x : UInt8) : x.toNat < 256 := x.toBitVec.isLt

@[simp] theorem toNat_toUInt8_mod (n : Nat) : (n % 256).toUInt8.toNat = n % 256 :=
  UInt8.toNat_ofNat_of_lt (Nat.mod_lt _ (by decide))

@[simp] theorem length_bigEndian (k n : Nat) : (bigEndian k n).length = k := by
  induction k generalizing n with
  | zero => rfl
  | succ k induction => simp [bigEndian, induction]

private theorem foldl_setBytes (l : List UInt8) (acc : Nat) :
    l.foldl (fun acc x => acc * 256 + x.toNat) acc = acc * 256 ^ l.length + setBytes l := by
  induction l generalizing acc with
  | nil => simp [setBytes]
  | cons x l induction =>
      simp only [List.foldl_cons, setBytes, List.length_cons, induction (acc * 256 + x.toNat),
        induction (0 * 256 + x.toNat), Nat.pow_succ]
      ring

@[simp] theorem setBytes_nil : setBytes [] = 0 := rfl

theorem setBytes_cons (x : UInt8) (l : List UInt8) :
    setBytes (x :: l) = x.toNat * 256 ^ l.length + setBytes l := by
  simp only [setBytes, List.foldl_cons]
  rw [foldl_setBytes, Nat.zero_mul, Nat.zero_add]
  rfl

theorem setBytes_append_singleton (l : List UInt8) (x : UInt8) :
    setBytes (l ++ [x]) = setBytes l * 256 + x.toNat := by
  simp [setBytes, List.foldl_append]

theorem setBytes_lt (l : List UInt8) : setBytes l < 256 ^ l.length := by
  induction l with
  | nil => simp
  | cons x l induction =>
      rw [setBytes_cons, List.length_cons, Nat.pow_succ']
      have hx := toNat_lt_256 x
      have hstep : x.toNat * 256 ^ l.length + 256 ^ l.length ≤ 256 * 256 ^ l.length := by
        rw [← Nat.succ_mul]
        exact Nat.mul_le_mul_right _ hx
      omega

theorem setBytes_bigEndian (k n : Nat) : setBytes (bigEndian k n) = n % 256 ^ k := by
  induction k generalizing n with
  | zero => simp [bigEndian, Nat.mod_one]
  | succ k induction =>
      rw [bigEndian, setBytes_append_singleton, induction, Nat.pow_succ']
      rw [toNat_toUInt8_mod, Nat.mod_mul, Nat.mul_comm]
      omega

theorem length_bytes (x : Int) : (bytes x).length = (bitLen x.natAbs + 7) / 8 :=
  length_bigEndian _ _

theorem two_pow_eight_mul (k : Nat) : 2 ^ (8 * k) = 256 ^ k := by
  rw [Nat.pow_mul]

theorem setBytes_bytes (x : Int) : setBytes (bytes x) = x.natAbs := by
  rw [bytes, setBytes_bigEndian, Nat.mod_eq_of_lt]
  calc x.natAbs < 2 ^ bitLen x.natAbs := lt_two_pow_bitLen _
    _ ≤ 2 ^ (8 * ((bitLen x.natAbs + 7) / 8)) := Nat.pow_le_pow_right (by decide) (by omega)
    _ = 256 ^ ((bitLen x.natAbs + 7) / 8) := two_pow_eight_mul _

theorem newRat_of_ne_zero {a b : Int} (hb : b ≠ 0) : newRat a b = .ok ((a : ℚ) / b) := by
  simp [newRat, hb]
  rfl

theorem int64_eq_wrap (x : Int) : int64 x = wrap 64 x := by
  dsimp only [int64]
  split
  · rw [← zero_sub]
    unfold wrap
    rw [Int.sub_bmod_bmod]
    exact wrap_congr (by omega)
  · apply wrap_congr
    omega

end big

/-- `int64(math.Pow10(n))`.  `math.Pow10` is exact up to `1e22`, so the
conversion is exact up to `1e18`, and it truncates the fractions below `1` to
`0`; from `1e19` on the float lies outside `int64` (it is infinite past `1e308`)
and Go leaves the result to the implementation: the most negative value, as
the amd64 conversion gives. -/
def pow10Int64 (n : Int) : Int :=
  if n < 0 then 0 else if n ≤ 18 then 10 ^ n.toNat else -2 ^ 63

theorem pow10Int64_of_le {n : Int} (h0 : 0 ≤ n) (h : n ≤ 18) :
    pow10Int64 n = 10 ^ n.toNat := by
  simp [pow10Int64, h, not_lt.mpr h0]

end AvroCodec.Go
