import AvroCodec.Go.Big

namespace AvroCodec.Wire

open AvroCodec.Go

/-! The variable-length zig-zag integers of the Avro binary encoding.  The
`Reader` and `Writer` that produce and consume them are not among the sources;
this module models them from the specification, §4.A. -/

/-- Modelled from the spec: the zig-zag map `(n << 1) ^ (n >> 63)`, which sends
`n ≥ 0` to `2n` and `n < 0` to `-2n - 1`. -/
def zigzag (n : Int) : Nat := if n < 0 then (-2 * n - 1).toNat else (2 * n).toNat

/-- Modelled from the spec: the inverse of `zigzag`, `(u >> 1) ^ -(u & 1)`. -/
def unzigzag (u : Nat) : Int := if u % 2 = 0 then (u / 2 : Nat) else -((u / 2 : Nat) : Int) - 1

@[simp] theorem unzigzag_zigzag (n : Int) : unzigzag (zigzag n) = n := by
  unfold zigzag unzigzag
  split <;> split <;> omega

theorem zigzag_lt {w : Nat} {n : Int} (hw : 0 < w) (h : InRange w n) : zigzag n < 2 ^ w := by
  have hpow : 2 ^ w = 2 * 2 ^ (w - 1) := by
    rw [← Nat.pow_succ']
    congr 1
    omega
  have hcast : ((2 ^ (w - 1) : Nat) : Int) = (2 : Int) ^ (w - 1) := by push_cast; rfl
  unfold InRange at h
  unfold zigzag
  split <;> omega

/-- Modelled from the spec: little-endian base-128 groups, the high bit set on
every byte but the last.  `fuel` bounds the loop; `u` itself is enough. -/
def uvarint (u : Nat) : List UInt8 := go u u
where
  go : Nat → Nat → List UInt8
    | 0, u => [u.toUInt8]
    | fuel + 1, u =>
        if u < 0x80 then [u.toUInt8] else (u % 0x80 + 0x80).toUInt8 :: go fuel (u / 0x80)

def readUvarint : List UInt8 → Option (Nat × List UInt8)
  | [] => none
  | x :: rest =>
      if x.toNat < 0x80 then some (x.toNat, rest)
      else (readUvarint rest).map fun (v, tail) => (x.toNat - 0x80 + 0x80 * v, tail)

private theorem toNat_toUInt8_of_lt {n : Nat} (h : n < 256) : n.toUInt8.toNat = n :=
  UInt8.toNat_ofNat_of_lt h

private theorem readUvarint_go {fuel u : Nat} (h : u < 0x80 ^ (fuel + 1)) (rest : List UInt8) :
    readUvarint (uvarint.go fuel u ++ rest) = some (u, rest) := by
  induction fuel generalizing u with
  | zero =>
      have hsmall : u < 0x80 := by simpa using h
      simp [uvarint.go, readUvarint, toNat_toUInt8_of_lt (by omega : u < 256), hsmall]
  | succ fuel induction =>
      by_cases hsmall : u < 0x80
      · simp [uvarint.go, readUvarint, toNat_toUInt8_of_lt (by omega : u < 256), hsmall]
      · have hquot : u / 0x80 < 0x80 ^ (fuel + 1) := by
          rw [Nat.div_lt_iff_lt_mul (by decide), ← Nat.pow_succ]
          exact h
        have hbyte := toNat_toUInt8_of_lt (by omega : u % 0x80 + 0x80 < 256)
        simp only [uvarint.go, hsmall, if_false, List.cons_append, readUvarint, hbyte,
          induction hquot, Option.map_some']
        simp only [show ¬(u % 0x80 + 0x80 < 0x80) by omega, if_false, Option.some.injEq,
          Prod.mk.injEq, and_true]
        omega

theorem readUvarint_uvarint (u : Nat) (rest : List UInt8) :
    readUvarint (uvarint u ++ rest) = some (u, rest) :=
  readUvarint_go (Nat.lt_of_lt_of_le (Nat.lt_pow_self (by decide) u)
    (Nat.pow_le_pow_right (by decide) (Nat.le_succ u))) rest

def littleEndian (k n : Nat) : List UInt8 := (big.bigEndian k n).reverse

/-! Modelled from the spec: the bytes each primitive writes.  `int` and `long`
share the zig-zag varint; `bytes` and `string` are a `long` length followed by
the bytes. -/

def encodeBool (b : Bool) : List UInt8 := [if b then 1 else 0]

def encodeZigzag (n : Int) : List UInt8 := uvarint (zigzag n)

def encodeFloat (x : BitVec 32) : List UInt8 := littleEndian 4 x.toNat

def encodeDouble (x : BitVec 64) : List UInt8 := littleEndian 8 x.toNat

def encodeBytes (b : List UInt8) : List UInt8 := encodeZigzag (wrap 64 b.length) ++ b

/-- Modelled from the spec: the writer's buffer and its sticky error.  Writing
never fails; only an error plan sets the error. -/
structure Writer where
  buf : List UInt8
  error : Option String
  deriving DecidableEq, Repr

namespace Writer

def empty : Writer := ⟨[], none⟩

@[simp] theorem empty_buf : empty.buf = [] := rfl

def append (w : Writer) (b : List UInt8) : Writer := { w with buf := w.buf ++ b }

def writeBool (w : Writer) (b : Bool) : Writer := w.append (encodeBool b)

def writeInt (w : Writer) (i : Int) : Writer := w.append (encodeZigzag i)

def writeLong (w : Writer) (i : Int) : Writer := w.append (encodeZigzag i)

def writeFloat (w : Writer) (x : BitVec 32) : Writer := w.append (encodeFloat x)

def writeDouble (w : Writer) (x : BitVec 64) : Writer := w.append (encodeDouble x)

def writeBytes (w : Writer) (b : List UInt8) : Writer := w.append (encodeBytes b)

def writeString (w : Writer) (s : List UInt8) : Writer := w.append (encodeBytes s)

def setError (w : Writer) (err : String) : Writer :=
  match w.error with
  | some _ => w
  | none => { w with error := some err }

@[simp] theorem append_buf (w : Writer) (b : List UInt8) : (w.append b).buf = w.buf ++ b := rfl

@[simp] theorem append_error (w : Writer) (b : List UInt8) : (w.append b).error = w.error := rfl

end Writer

/-- Modelled from the spec: the bytes not yet consumed and the sticky error.
After the first failure every read is a no-op that returns a zero value. -/
structure Reader where
  buf : List UInt8
  error : Option String
  deriving DecidableEq, Repr

namespace Reader

def ofBytes (b : List UInt8) : Reader := ⟨b, none⟩

def setError (r : Reader) (err : String) : Reader :=
  match r.error with
  | some _ => r
  | none => { r with error := some err }

def reportError (r : Reader) (op msg : String) : Reader :=
  r.setError ("avro: " ++ op ++ ": " ++ msg)

/-- Reading past the end consumes what is left and fails with `io.EOF`. -/
def eof (r : Reader) : Reader := { r.setError "EOF" with buf := [] }

def readBool (r : Reader) : Bool × Reader :=
  match r.error, r.buf with
  | some _, _ => (false, r)
  | none, [] => (false, r.eof)
  | none, x :: rest =>
      let r := { r with buf := rest }
      if x ≠ 0 ∧ x ≠ 1 then (x = 1, r.reportError "ReadBool" "invalid bool") else (x = 1, r)

/-- The shared body of `ReadInt` and `ReadLong`: a zig-zag varint whose
unsigned value must stay below `bound`. -/
def readVarint (bound : Nat) (op msg : String) (r : Reader) : Int × Reader :=
  match r.error with
  | some _ => (0, r)
  | none =>
      match readUvarint r.buf with
      | none => (0, r.eof)
      | some (u, rest) =>
          if u < bound then (unzigzag u, { r with buf := rest })
          else (0, r.reportError op msg)

def readInt (r : Reader) : Int × Reader := r.readVarint (2 ^ 32) "ReadInt" "int overflow"

def readLong (r : Reader) : Int × Reader := r.readVarint (2 ^ 64) "ReadLong" "long overflow"

def readN (n : Nat) (r : Reader) : List UInt8 × Reader :=
  match r.error with
  | some _ => ([], r)
  | none =>
      if n ≤ r.buf.length then (r.buf.take n, { r with buf := r.buf.drop n }) else ([], r.eof)

def readFloat (r : Reader) : BitVec 32 × Reader :=
  let (b, r) := r.readN 4
  (BitVec.ofNat 32 (big.setBytes b.reverse), r)

def readDouble (r : Reader) : BitVec 64 × Reader :=
  let (b, r) := r.readN 8
  (BitVec.ofNat 64 (big.setBytes b.reverse), r)

theorem readVarint_fst_lt {bound : Nat} {op msg : String} (hbound : bound ≤ 2 ^ 64)
    (r : Reader) : (r.readVarint bound op msg).1 < 2 ^ 63 := by
  have hzero : (0 : Int) < 2 ^ 63 := by decide
  unfold readVarint
  split
  · exact hzero
  · split
    · exact hzero
    · split
      · rename_i u rest _ hlt
        show unzigzag u < 2 ^ 63
        unfold unzigzag
        split <;> omega
      · exact hzero

theorem length_readN_le (n : Nat) (r : Reader) : (r.readN n).1.length ≤ n := by
  unfold readN
  split
  · simp
  · split
    · simp
    · simp

/-- `ReadBytes` and `ReadString`: a `long` length, then that many bytes; a
negative length is rejected. -/
def readBytesOp (op : String) (r : Reader) : Go.ByteSlice × Reader :=
  let size := r.readLong
  if size.1 < 0 then
    (⟨[], by decide⟩, size.2.reportError ("Read" ++ op) ("invalid " ++ op ++ " length"))
  else
    let b := size.2.readN size.1.toNat
    (⟨b.1, Nat.lt_of_le_of_lt (length_readN_le _ _) (by
      have := @readVarint_fst_lt (2 ^ 64) "ReadLong" "long overflow" le_rfl r
      show (r.readLong).1.toNat < 2 ^ 63
      unfold readLong
      omega)⟩, b.2)

def readBytes (r : Reader) : Go.ByteSlice × Reader := r.readBytesOp "Bytes"

def readString (r : Reader) : Go.ByteSlice × Reader := r.readBytesOp "String"

/-! Reading what the writer wrote gives the value back and leaves exactly the
bytes after it. -/

variable (rest : List UInt8)

@[simp] theorem readBool_encodeBool (b : Bool) :
    (ofBytes (encodeBool b ++ rest)).readBool = (b, ofBytes rest) := by
  cases b <;> rfl

theorem readVarint_encodeZigzag {bound : Nat} {op msg : String} {n : Int}
    (h : zigzag n < bound) :
    (ofBytes (encodeZigzag n ++ rest)).readVarint bound op msg = (n, ofBytes rest) := by
  simp [readVarint, ofBytes, encodeZigzag, readUvarint_uvarint, h]

theorem readInt_encodeZigzag {n : Int} (h : InRange 32 n) :
    (ofBytes (encodeZigzag n ++ rest)).readInt = (n, ofBytes rest) :=
  readVarint_encodeZigzag rest (zigzag_lt (by decide) h)

-- Day 18263 as `TestReader_ReadNext` reads it.
example : (ofBytes [0xAE, 0x9D, 0x02]).readInt = (18263, ofBytes []) := by decide

theorem readLong_encodeZigzag {n : Int} (h : InRange 64 n) :
    (ofBytes (encodeZigzag n ++ rest)).readLong = (n, ofBytes rest) :=
  readVarint_encodeZigzag rest (zigzag_lt (by decide) h)

theorem readN_append (b : List UInt8) :
    (ofBytes (b ++ rest)).readN b.length = (b, ofBytes rest) := by
  simp [readN, ofBytes]

private theorem setBytes_littleEndian (k n : Nat) :
    big.setBytes (littleEndian k n).reverse = n % 256 ^ k := by
  simp [littleEndian, big.setBytes_bigEndian]

@[simp] theorem readFloat_encodeFloat (x : BitVec 32) :
    (ofBytes (encodeFloat x ++ rest)).readFloat = (x, ofBytes rest) := by
  have hlen : (encodeFloat x).length = 4 := by simp [encodeFloat, littleEndian]
  have hread := hlen ▸ readN_append rest (encodeFloat x)
  simp only [readFloat, hread, Prod.mk.injEq, and_true]
  simp only [encodeFloat, setBytes_littleEndian]
  apply BitVec.eq_of_toNat_eq
  have := x.isLt
  simp only [BitVec.toNat_ofNat]
  omega

@[simp] theorem readDouble_encodeDouble (x : BitVec 64) :
    (ofBytes (encodeDouble x ++ rest)).readDouble = (x, ofBytes rest) := by
  have hlen : (encodeDouble x).length = 8 := by simp [encodeDouble, littleEndian]
  have hread := hlen ▸ readN_append rest (encodeDouble x)
  simp only [readDouble, hread, Prod.mk.injEq, and_true]
  simp only [encodeDouble, setBytes_littleEndian]
  apply BitVec.eq_of_toNat_eq
  have := x.isLt
  simp only [BitVec.toNat_ofNat]
  omega

theorem readBytesOp_of_readLong {op : String} {r r' : Reader} {n : Int}
    (h : r.readLong = (n, r')) (hn : 0 ≤ n) :
    (r.readBytesOp op).1.data = (r'.readN n.toNat).1 ∧
      (r.readBytesOp op).2 = (r'.readN n.toNat).2 := by
  unfold readBytesOp
  simp only [h, if_neg (not_lt.mpr hn), and_self]

theorem readBytesOp_encodeBytes (op : String) (b : Go.ByteSlice) :
    (ofBytes (encodeBytes b.data ++ rest)).readBytesOp op = (b, ofBytes rest) := by
  have hlen : InRange 64 (b.data.length : Int) := by
    have := b.length_lt
    unfold InRange
    omega
  have hsize := readLong_encodeZigzag (b.data ++ rest) hlen
  rw [encodeBytes, wrap_of_inRange (by decide) hlen, List.append_assoc]
  obtain ⟨hdata, hrest⟩ := @readBytesOp_of_readLong op _ _ _ hsize (by omega)
  rw [Int.toNat_ofNat, readN_append] at hdata hrest
  exact Prod.ext (Go.ByteSlice.ext hdata) hrest

@[simp] theorem readBytes_encodeBytes (b : Go.ByteSlice) :
    (ofBytes (encodeBytes b.data ++ rest)).readBytes = (b, ofBytes rest) :=
  readBytesOp_encodeBytes rest "Bytes" b

@[simp] theorem readString_encodeBytes (b : Go.ByteSlice) :
    (ofBytes (encodeBytes b.data ++ rest)).readString = (b, ofBytes rest) :=
  readBytesOp_encodeBytes rest "String" b

end Reader

end AvroCodec.Wire
