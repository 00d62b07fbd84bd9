import AvroCodec.Go.Basic

namespace AvroCodec.Go

/-! IEEE 754 data as Go stores them: a `float64` is its 64-bit pattern, a
`float32` its 32-bit pattern.  Only the conversions the codecs apply are
modelled; the codecs otherwise move the patterns unchanged. -/

namespace Float64

def exponent (x : BitVec 64) : Nat := x.toNat / 2 ^ 52 % 2 ^ 11

def fraction (x : BitVec 64) : Nat := x.toNat % 2 ^ 52

def negative (x : BitVec 64) : Bool := 2 ^ 63 ≤ x.toNat

def truncMagnitude (x : BitVec 64) : Option (Nat × Bool) :=
  let significand := 2 ^ 52 + fraction x
  if exponent x = 2047 then none
  else if exponent x = 0 then some (0, decide (fraction x = 0))
  else if 1075 ≤ exponent x then
    some (significand * 2 ^ (exponent x - 1075), true)
  else
    some (significand / 2 ^ (1075 - exponent x),
      decide (significand % 2 ^ (1075 - exponent x) = 0))

def withSign (x : BitVec 64) (k : Nat) : Int := if negative x then -k else k

def toInt? (x : BitVec 64) : Option Int :=
  match truncMagnitude x with
  | some (k, true) => some (withSign x k)
  | _ => none

/-- Go's conversion of a `float64` to a `w`-bit signed integer: truncation
toward zero.  For an operand out of range, an infinity or a NaN the Go
specification leaves the result to the implementation; here it is the most
negative value, as the amd64 conversion instructions give. -/
def toInt (w : Nat) (x : BitVec 64) : Int :=
  match truncMagnitude x with
  | some (k, _) => if InRange w (withSign x k) then withSign x k else -2 ^ (w - 1)
  | none => -2 ^ (w - 1)

theorem toInt_inRange (w : Nat) (x : BitVec 64) : InRange w (toInt w x) := by
  have hpos : (0 : Int) < 2 ^ (w - 1) := pow_pos (by decide) _
  unfold toInt
  split
  · split
    · assumption
    · unfold InRange; omega
  · unfold InRange; omega

theorem toInt_of_toInt? {w : Nat} {x : BitVec 64} {n : Int} (h : toInt? x = some n)
    (hn : InRange w n) : toInt w x = n := by
  unfold toInt? at h
  unfold toInt
  split at h
  · rename_i k heq
    cases h
    simp [heq, hn]
  · cases h

theorem truncMagnitude_of_lt {x : BitVec 64} (h : x.toNat < 2 ^ 52) :
    truncMagnitude x = some (0, decide (x.toNat = 0)) := by
  have hexp : exponent x = 0 := by unfold exponent; omega
  have hfrac : fraction x = x.toNat := by unfold fraction; omega
  simp [truncMagnitude, hexp, hfrac]

theorem truncMagnitude_of_ge {x : BitVec 64} (h : 2 ^ 64 - 2 ^ 52 ≤ x.toNat) :
    truncMagnitude x = none := by
  have hexp : exponent x = 2047 := by
    have := x.isLt
    unfold exponent
    omega
  simp [truncMagnitude, hexp]

theorem ofInt_eq_iff {x : BitVec 64} {n : Int} (hx : toInt? x = some n) (hn : InRange 32 n) :
    BitVec.ofInt 64 n = x ↔ x = 0 := by
  constructor
  · rintro rfl
    have hbits := BitVec.toNat_ofInt (n := 64) n
    unfold InRange at hn
    rcases Int.lt_or_le n 0 with hneg | hpos
    · rw [toInt?, truncMagnitude_of_ge (by rw [hbits]; omega)] at hx
      cases hx
    · rw [toInt?, truncMagnitude_of_lt (by rw [hbits]; omega)] at hx
      apply BitVec.eq_of_toNat_eq
      cases hzero : decide ((BitVec.ofInt 64 n).toNat = 0)
      · rw [hzero] at hx
        cases hx
      · exact of_decide_eq_true hzero
  · rintro rfl
    rw [show toInt? 0 = some 0 by decide] at hx
    cases hx
    rfl

end Float64

namespace Float32

/-- Go's `float64(f)` of a `float32`, on bit patterns: every `float32` is a
`float64`, subnormals become normal, and a NaN comes out quiet. -/
def widen (x : BitVec 32) : BitVec 64 :=
  let sign := x.toNat / 2 ^ 31
  let exponent := x.toNat / 2 ^ 23 % 2 ^ 8
  let fraction := x.toNat % 2 ^ 23
  let (e, f) :=
    if exponent = 255 then
      (2047, (if fraction = 0 then 0 else fraction ||| 2 ^ 22) * 2 ^ 29)
    else if exponent = 0 then
      if fraction = 0 then (0, 0)
      else
        (bitLen fraction + 873,
          (fraction - 2 ^ (bitLen fraction - 1)) * 2 ^ (53 - bitLen fraction))
    else (exponent + 896, fraction * 2 ^ 29)
  BitVec.ofNat 64 (sign * 2 ^ 63 + e * 2 ^ 52 + f)

end Float32

end AvroCodec.Go
