import Mathlib.Algebra.Order.Group.Abs
import Mathlib.Data.Int.Order.Lemmas
import Mathlib.Tactic.Ring

namespace AvroCodec.Go

structure Panic where
  message : String
  deriving DecidableEq, Repr

def nilDereference : Panic := ⟨"runtime error: invalid memory address or nil pointer dereference"⟩

/-! Go's fixed-width signed integers, kept as `Int` values.  A conversion to a
`w`-bit type, and every `w`-bit operation, keeps the low `w` bits read in two's
complement, which is `Int.bmod` by `2 ^ w`. -/

/-- Go's conversion of an integer to a `w`-bit signed type. -/
def wrap (w : Nat) (x : Int) : Int := x.bmod (2 ^ w)

/-- A Go `[]byte` or `string`: its bytes, of a length an `int` can hold. -/
@[ext] structure ByteSlice where
  data : List UInt8
  length_lt : data.length < 2 ^ 63
  deriving DecidableEq, Repr

def InRange (w : Nat) (x : Int) : Prop := -2 ^ (w - 1) ≤ x ∧ x < 2 ^ (w - 1)

instance (w : Nat) (x : Int) : Decidable (InRange w x) :=
  inferInstanceAs (Decidable (_ ∧ _))

variable {w : Nat} {x y : Int}

private theorem two_pow_eq (hw : 0 < w) : 2 ^ w = 2 * 2 ^ (w - 1) := by
  rw [← Nat.pow_succ']
  congr 1
  omega

theorem inRange_wrap (hw : 0 < w) : InRange w (wrap w x) := by
  have hpow : ((2 ^ w : Nat) : Int) = 2 * 2 ^ (w - 1) := by exact_mod_cast two_pow_eq hw
  have hlo := Int.le_bmod (x := x) (Nat.two_pow_pos w)
  have hhi := Int.bmod_lt (x := x) (Nat.two_pow_pos w)
  unfold wrap InRange
  omega

theorem wrap_of_inRange (hw : 0 < w) (h : InRange w x) : wrap w x = x := by
  have hrange := inRange_wrap (x := x) hw
  have hpow : (2 : Int) ^ w = 2 * 2 ^ (w - 1) := by exact_mod_cast two_pow_eq hw
  unfold InRange at h hrange
  have hzero := Int.eq_zero_of_abs_lt_dvd (m := 2 ^ w) (x := wrap w x - x)
    (by exact_mod_cast Int.dvd_bmod_sub_self) (abs_sub_lt_iff.mpr ⟨by omega, by omega⟩)
  omega

theorem InRange.mono {w' : Nat} (hle : w ≤ w') (h : InRange w x) : InRange w' x := by
  have := pow_le_pow_right₀ (show (1 : Int) ≤ 2 by decide) (Nat.sub_le_sub_right hle 1)
  unfold InRange at *
  omega

theorem inRange_toInt (hw : 0 < w) (x : BitVec w) : InRange w x.toInt := by
  rw [BitVec.toInt_eq_toNat_bmod]
  exact inRange_wrap hw

theorem ofInt_toInt (x : BitVec w) : BitVec.ofInt w x.toInt = x :=
  BitVec.eq_of_toInt_eq (by rw [BitVec.toInt_ofInt, BitVec.toInt_eq_toNat_bmod, Int.bmod_bmod])

theorem wrap_congr (h : x % 2 ^ w = y % 2 ^ w) : wrap w x = wrap w y := by
  unfold wrap
  rw [← Int.emod_bmod, ← Int.emod_bmod (x := y)]
  exact_mod_cast congrArg (Int.bmod · (2 ^ w)) h

@[simp] theorem wrap_wrap : wrap w (wrap w x) = wrap w x := Int.bmod_bmod

/-! Go's `/` on integers truncates toward zero: `Int.tdiv`.  By a positive
divisor it is the floor for a dividend that is not negative, and one more than
the floor for a negative dividend that the divisor does not divide. -/

theorem tdiv_eq_ite (hy : 0 < y) :
    x.tdiv y = if 0 ≤ x then x / y else -((-x) / y) := by
  split
  · exact Int.tdiv_eq_ediv (by assumption) hy.le
  · rw [← Int.neg_neg x, Int.neg_tdiv, Int.neg_neg, Int.tdiv_eq_ediv (by omega) hy.le]

/-- The bit length of a natural, as `math/bits.Len` and `big.Int.BitLen`
compute it: `0` for `0`.  `fuel` bounds the halvings; `n` itself suffices. -/
def bitLen (n : Nat) : Nat := go n n
where
  go : Nat → Nat → Nat
    | 0, _ => 0
    | fuel + 1, n => if n = 0 then 0 else go fuel (n / 2) + 1

private theorem bitLen_go_le_iff {fuel n : Nat} (hfuel : n ≤ fuel) (k : Nat) :
    bitLen.go fuel n ≤ k ↔ n < 2 ^ k := by
  induction fuel generalizing n k with
  | zero =>
      have hzero : n = 0 := by omega
      simp [bitLen.go, hzero, Nat.pos_pow_of_pos]
  | succ fuel induction =>
      by_cases hzero : n = 0
      · simp [bitLen.go, hzero, Nat.pos_pow_of_pos]
      · have hstep := @induction (n / 2) (by omega)
        simp only [bitLen.go, hzero, if_false]
        cases k with
        | zero => simp; omega
        | succ k => rw [Nat.add_le_add_iff_right, hstep k, Nat.pow_succ]; omega

theorem bitLen_le_iff (n k : Nat) : bitLen n ≤ k ↔ n < 2 ^ k :=
  bitLen_go_le_iff le_rfl k

theorem lt_two_pow_bitLen (n : Nat) : n < 2 ^ bitLen n :=
  (bitLen_le_iff n _).mp le_rfl

/-! A Go call that can fail is an `Except`; a chain of them succeeds only when
every step does. -/

theorem bind_eq_ok {ε α β : Type} {x : Except ε α} {f : α → Except ε β} {b : β}
    (h : x >>= f = .ok b) : ∃ a, x = .ok a ∧ f a = .ok b := by
  cases x with
  | error e => cases h
  | ok a => exact ⟨a, rfl, h⟩

@[simp] theorem mapError_eq_ok {ε ε' α : Type} {f : ε → ε'} {x : Except ε α} {a : α} :
    x.mapError f = .ok a ↔ x = .ok a := by
  cases x <;> simp [Except.mapError]

end AvroCodec.Go
