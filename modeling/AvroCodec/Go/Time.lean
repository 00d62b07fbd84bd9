import AvroCodec.Go.Basic

namespace AvroCodec.Go

/-! `time.Time` as the codecs use it.  A `Time` keeps its seconds since
January 1 of year 1 as an `int64`, its nanoseconds within the second and its
location.  The monotonic reading is left out: `UTC` strips it and none of the
methods used here reads it. -/

inductive Location
  | utcLoc
  | localLoc
  | zone (name : String)
  deriving DecidableEq, Repr

structure Time where
  sec : Int
  nsec : Nat
  loc : Location
  sec_inRange : InRange 64 sec
  nsec_lt : nsec < 1000000000
  deriving DecidableEq, Repr

def unixToInternal : Int := (1969 * 365 + 1969 / 4 - 1969 / 100 + 1969 / 400) * 86400

def internalToUnix : Int := -unixToInternal

namespace Time

def zero : Time := ⟨0, 0, .utcLoc, by decide, by decide⟩

/-- `t.unixSec()`: an `int64` sum. -/
def unixSec (t : Time) : Int := wrap 64 (t.sec + internalToUnix)

def unix (t : Time) : Int := t.unixSec

/-- `t.UnixNano()`, that is `(t.unixSec())*1e9 + int64(t.nsec())`: both
operations wrap, and one reduction gives the same word. -/
def unixNano (t : Time) : Int := wrap 64 (t.unixSec * 1000000000 + t.nsec)

def nanosecond (t : Time) : Int := t.nsec

def utc (t : Time) : Time := { t with loc := .utcLoc }

def epochNanos (t : Time) : Int := (t.sec - unixToInternal) * 1000000000 + t.nsec

/-- `t` with its nanoseconds rounded down to a multiple of `unit`, as
`t.Truncate` rounds for a unit that divides a second. -/
def roundDown (t : Time) (unit : Nat) : Time :=
  { t with
    nsec := t.nsec / unit * unit
    nsec_lt := Nat.lt_of_le_of_lt (Nat.div_mul_le_self _ _) t.nsec_lt }

@[simp] theorem utc_sec (t : Time) : t.utc.sec = t.sec := rfl
@[simp] theorem utc_nsec (t : Time) : t.utc.nsec = t.nsec := rfl
@[simp] theorem utc_loc (t : Time) : t.utc.loc = .utcLoc := rfl
@[simp] theorem utc_epochNanos (t : Time) : t.utc.epochNanos = t.epochNanos := rfl

theorem epochNanos_roundDown (t : Time) (unit : Nat) :
    (t.roundDown unit).epochNanos =
      (t.sec - unixToInternal) * 1000000000 + (t.nsec / unit * unit : Nat) := rfl

theorem eq_of_epochNanos {t t' : Time} (hloc : t.loc = t'.loc)
    (h : t.epochNanos = t'.epochNanos) : t = t' := by
  obtain ⟨sec, nsec, loc, _, hnsec⟩ := t
  obtain ⟨sec', nsec', loc', _, hnsec'⟩ := t'
  unfold epochNanos at h
  simp only at h hloc
  obtain ⟨rfl, rfl⟩ : sec = sec' ∧ nsec = nsec' := by omega
  subst hloc
  rfl

theorem unixSec_eq {t : Time} (h : InRange 64 (t.sec - unixToInternal)) :
    t.unixSec = t.sec - unixToInternal := by
  unfold unixSec internalToUnix
  rw [← sub_eq_add_neg]
  exact wrap_of_inRange (by decide) h

theorem unixNano_eq {t : Time} (hsec : InRange 64 (t.sec - unixToInternal))
    (hnanos : InRange 64 t.epochNanos) : t.unixNano = t.epochNanos := by
  unfold unixNano
  rw [unixSec_eq hsec]
  exact wrap_of_inRange (by decide) hnanos

end Time

namespace time

/-- The carry of `time.Unix`: nanoseconds outside `[0, 1e9)` move into the
seconds. -/
def normalize (sec nsec : Int) : Int × Int :=
  if nsec < 0 ∨ 1000000000 ≤ nsec then
    let n := nsec.tdiv 1000000000
    let sec := wrap 64 (sec + n)
    let nsec := nsec - n * 1000000000
    if nsec < 0 then (wrap 64 (sec - 1), nsec + 1000000000) else (sec, nsec)
  else (sec, nsec)

theorem normalize_snd (sec nsec : Int) :
    (normalize sec nsec).2 = nsec % 1000000000 := by
  dsimp only [normalize]
  rw [tdiv_eq_ite (by decide)]
  split_ifs <;> omega

theorem normalize_fst {sec nsec : Int} (hsec : -2 ^ 62 ≤ sec ∧ sec ≤ 2 ^ 62)
    (hnsec : InRange 64 nsec) :
    (normalize sec nsec).1 = sec + nsec / 1000000000 := by
  unfold InRange at hnsec
  dsimp only [normalize]
  rw [tdiv_eq_ite (by decide)]
  split_ifs <;>
    simp (disch := first | decide | (unfold InRange; omega)) only [wrap_of_inRange] <;>
    omega

def unixTime (sec : Int) (nsec : Nat) (h : nsec < 1000000000) : Time where
  sec := wrap 64 (sec + unixToInternal)
  nsec := nsec
  loc := .localLoc
  sec_inRange := inRange_wrap (by decide)
  nsec_lt := h

def unix (sec nsec : Int) : Time :=
  unixTime (normalize sec nsec).1 (normalize sec nsec).2.toNat (by
    rw [normalize_snd]
    omega)

theorem unix_nsec (sec nsec : Int) : ((unix sec nsec).nsec : Int) = nsec % 1000000000 := by
  show ((normalize sec nsec).2.toNat : Int) = _
  rw [normalize_snd]
  omega

theorem unix_sec {sec nsec : Int} (hsec : -2 ^ 62 ≤ sec ∧ sec ≤ 2 ^ 62)
    (hnsec : InRange 64 nsec) :
    (unix sec nsec).sec = sec + nsec / 1000000000 + unixToInternal := by
  show wrap 64 ((normalize sec nsec).1 + unixToInternal) = _
  unfold InRange at hnsec
  rw [normalize_fst hsec hnsec, wrap_of_inRange (by decide)]
  unfold InRange unixToInternal
  omega

theorem unix_epochNanos {sec nsec : Int} (hsec : -2 ^ 62 ≤ sec ∧ sec ≤ 2 ^ 62)
    (hnsec : InRange 64 nsec) :
    (unix sec nsec).epochNanos = sec * 1000000000 + nsec := by
  unfold Time.epochNanos
  rw [unix_sec hsec hnsec, unix_nsec]
  omega

end time

end AvroCodec.Go
