import AvroCodec.Native.Resolve
import AvroCodec.Native.Time
import AvroCodec.Native.Decimal
import AvroCodec.Wire
import AvroCodec.Go.Float

namespace AvroCodec.Native

open AvroCodec.Go AvroCodec.Wire

/-! What the codecs of `codec_native.go` do to a host location and a stream.
The codecs read and write the location through `unsafe.Pointer`, so it is
modelled by what it holds: a scalar by its bits, whichever host type it was
declared with. -/

inductive Slot
  | bool (b : Bool)
  /-- An integer, a `time.Duration` or a float of `w` bits. -/
  | word (w : Nat) (x : BitVec w)
  /-- A `[]byte` or a `string`. -/
  | bytes (b : Go.ByteSlice)
  | time (t : Time)
  | rat (r : ℚ)
  /-- A `*big.Rat`, `none` for `nil`. -/
  | ratPtr (r : Option ℚ)
  deriving DecidableEq, Repr

namespace Slot

def loadBool : Slot → Bool
  | .bool b => b
  | _ => false

/-- `*(*T)(ptr)` for a `w`-bit `T`: the low `w` bits of the word there. -/
def load (w : Nat) : Slot → BitVec w
  | .word _ x => BitVec.ofNat w x.toNat
  | _ => 0

def loadBytes : Slot → Go.ByteSlice
  | .bytes b => b
  | _ => ⟨[], by decide⟩

def loadTime : Slot → Time
  | .time t => t
  | _ => Time.zero

def loadRat : Slot → ℚ
  | .rat r => r
  | _ => 0

def loadRatPtr : Slot → Option ℚ
  | .ratPtr r => r
  | _ => none

@[simp] theorem load_word (x : BitVec w) : (word w x).load w = x := by
  apply BitVec.eq_of_toNat_eq
  simp [load, Nat.mod_eq_of_lt x.isLt]

@[simp] theorem loadBool_bool (b : Bool) : (bool b).loadBool = b := rfl
@[simp] theorem loadBytes_bytes (b : Go.ByteSlice) : (bytes b).loadBytes = b := rfl
@[simp] theorem loadTime_time (t : Time) : (time t).loadTime = t := rfl
@[simp] theorem loadRat_rat (r : ℚ) : (rat r).loadRat = r := rfl
@[simp] theorem loadRatPtr_ratPtr (r : Option ℚ) : (ratPtr r).loadRatPtr = r := rfl

end Slot

/-- `*(*T)(ptr) = v` for a `w`-bit integer type `T`: Go's conversion keeps the
low `w` bits. -/
def storeInt (w : Nat) (p : Int × Reader) : Slot × Reader := (.word w (BitVec.ofInt w p.1), p.2)

/-- Modelled from the spec: `errorEncoder.Encode` fails the writer with its
error on first use. -/
def errorEncode (err : String) (w : Writer) : Writer := w.setError err

/-- Modelled from the spec: `errorDecoder.Decode` fails the reader with its
error on first use and leaves the location alone. -/
def errorDecode (err : String) (v : Slot) (r : Reader) : Slot × Reader := (v, r.setError err)

def ValEncoder.encode : ValEncoder → Slot → Writer → Except Panic Writer
  | .nullCodec, _, w => pure w
  | .boolCodec, v, w => pure (w.writeBool v.loadBool)
  | .intCodec, v, w => pure (w.writeInt (wrap 32 (v.load 64).toInt))
  | .int8Codec, v, w => pure (w.writeInt (wrap 32 (v.load 8).toInt))
  | .int16Codec, v, w => pure (w.writeInt (wrap 32 (v.load 16).toInt))
  | .int32Codec, v, w => pure (w.writeInt (v.load 32).toInt)
  | .int32LongCodec, v, w => pure (w.writeLong (v.load 32).toInt)
  | .int64Codec, v, w => pure (w.writeLong (v.load 64).toInt)
  | .timeMillisCodec, v, w => pure (w.writeInt (timeMillisEncode (v.load 64).toInt))
  | .timeMicrosCodec, v, w => pure (w.writeLong (timeMicrosEncode (v.load 64).toInt))
  | .float32Codec, v, w => pure (w.writeFloat (v.load 32))
  | .float32DoubleCodec, v, w => pure (w.writeDouble (Float32.widen (v.load 32)))
  | .float64Codec, v, w => pure (w.writeDouble (v.load 64))
  | .intFromFloat64Codec, v, w => pure (w.writeInt (Float64.toInt 32 (v.load 64)))
  | .longFromFloat64Codec, v, w => pure (w.writeLong (Float64.toInt 64 (v.load 64)))
  | .stringCodec, v, w => pure (w.writeString v.loadBytes.data)
  | .bytesCodec, v, w => pure (w.writeBytes v.loadBytes.data)
  | .dateCodec, v, w => pure (w.writeInt (dateEncode v.loadTime))
  | .timestampMillisCodec, v, w => pure (w.writeLong (timestampMillisEncode v.loadTime))
  | .timestampMicrosCodec, v, w => pure (w.writeLong (timestampMicrosEncode v.loadTime))
  | .bytesDecimalCodec _ scale, v, w =>
      pure (w.writeBytes (decimalBytes (unscaled scale v.loadRat)))
  | .bytesDecimalPtrCodec _ scale, v, w =>
      match v.loadRatPtr with
      | none => throw nilDereference
      | some r => pure (w.writeBytes (decimalBytes (unscaled scale r)))
  | .errorEncoder err, _, w => pure (errorEncode err w)

def ValDecoder.decode : ValDecoder → Slot → Reader → Except Panic (Slot × Reader)
  | .boolCodec, _, r => let (b, r) := r.readBool; pure (.bool b, r)
  | .intCodec, _, r => pure (storeInt 64 r.readInt)
  | .int8Codec, _, r => pure (storeInt 8 r.readInt)
  | .int16Codec, _, r => pure (storeInt 16 r.readInt)
  | .int32Codec, _, r => pure (storeInt 32 r.readInt)
  | .int64Codec, _, r => pure (storeInt 64 r.readLong)
  | .timeMillisCodec, _, r =>
      let (i, r) := r.readInt; pure (.word 64 (BitVec.ofInt 64 (timeMillisDecode i)), r)
  | .timeMicrosCodec, _, r =>
      let (i, r) := r.readLong; pure (.word 64 (BitVec.ofInt 64 (timeMicrosDecode i)), r)
  | .float32Codec, _, r => let (x, r) := r.readFloat; pure (.word 32 x, r)
  | .float64Codec, _, r => let (x, r) := r.readDouble; pure (.word 64 x, r)
  | .stringCodec, _, r => let (b, r) := r.readString; pure (.bytes b, r)
  | .bytesCodec, _, r => let (b, r) := r.readBytes; pure (.bytes b, r)
  | .dateCodec, _, r => let (i, r) := r.readInt; pure (.time (dateDecode i), r)
  | .timestampMillisCodec, _, r =>
      let (i, r) := r.readLong; pure (.time (timestampMillisDecode i), r)
  | .timestampMicrosCodec, _, r =>
      let (i, r) := r.readLong; pure (.time (timestampMicrosDecode i), r)
  | .bytesDecimalCodec _ scale, _, r => do
      let (b, r) := r.readBytes
      let q ← ratFromBytes b.data scale
      pure (.rat q, r)
  | .bytesDecimalPtrCodec _ scale, _, r => do
      let (b, r) := r.readBytes
      let q ← ratFromBytes b.data scale
      pure (.ratPtr (some q), r)
  | .errorDecoder err, v, r => pure (errorDecode err v r)

/-! The decoders that read a byte string, unfolded once for any reader; the
round trips rewrite with these rather than unfold `decode` on a concrete
stream. -/

theorem decode_stringCodec (v : Slot) (r : Reader) :
    ValDecoder.decode .stringCodec v r = pure (.bytes r.readString.1, r.readString.2) := rfl

theorem decode_bytesCodec (v : Slot) (r : Reader) :
    ValDecoder.decode .bytesCodec v r = pure (.bytes r.readBytes.1, r.readBytes.2) := rfl

theorem decode_bytesDecimalCodec (prec scale : Int) (v : Slot) (r : Reader) :
    ValDecoder.decode (.bytesDecimalCodec prec scale) v r =
      ratFromBytes r.readBytes.1.data scale >>= fun q => pure (.rat q, r.readBytes.2) := rfl

theorem decode_bytesDecimalPtrCodec (prec scale : Int) (v : Slot) (r : Reader) :
    ValDecoder.decode (.bytesDecimalPtrCodec prec scale) v r =
      ratFromBytes r.readBytes.1.data scale >>= fun q => pure (.ratPtr (some q), r.readBytes.2) :=
  rfl

/-- Encode `v` with `enc` into an empty writer, then decode what it wrote, and
`rest` after it, with `dec` into a location holding `old`. -/
def roundTrip (enc : ValEncoder) (dec : ValDecoder) (v old : Slot) (rest : List UInt8) :
    Except Panic (Slot × Reader) := do
  let w ← enc.encode v Writer.empty
  dec.decode old (Reader.ofBytes (w.buf ++ rest))

theorem roundTrip_eq (enc : ValEncoder) (v : Slot) (w : Writer) {dec : ValDecoder}
    {old : Slot} {rest : List UInt8} (h : enc.encode v Writer.empty = pure w) :
    roundTrip enc dec v old rest = dec.decode old (Reader.ofBytes (w.buf ++ rest)) := by
  rw [roundTrip, h]
  rfl

end AvroCodec.Native
