import AvroCodec.Native.Codec
import AvroCodec.Native.Agree

namespace AvroCodec.Native

open AvroCodec.Go AvroCodec.Wire

/-! Each codec's `Decode` reads back what its `Encode` wrote: the value, and
the reader left just past it. -/

variable (old : Slot) (rest : List UInt8)

theorem roundTrip_bool (b : Bool) :
    roundTrip .boolCodec .boolCodec (.bool b) old rest = pure (.bool b, .ofBytes rest) := by
  simp [roundTrip, ValEncoder.encode, ValDecoder.decode, Writer.writeBool]

private theorem storeInt_readInt {w : Nat} (x : BitVec w) (h : InRange 32 x.toInt) :
    storeInt w (Reader.ofBytes (encodeZigzag x.toInt ++ rest)).readInt = (.word w x, .ofBytes rest) := by
  rw [Reader.readInt_encodeZigzag rest h, storeInt, ofInt_toInt]

theorem roundTrip_int {x : BitVec 64} (h : InRange 32 x.toInt) :
    roundTrip .intCodec .intCodec (.word 64 x) old rest = pure (.word 64 x, .ofBytes rest) := by
  simp [roundTrip, ValEncoder.encode, ValDecoder.decode, Writer.writeInt,
    wrap_of_inRange (by decide) h, storeInt_readInt rest x h]

theorem roundTrip_int8 (x : BitVec 8) :
    roundTrip .int8Codec .int8Codec (.word 8 x) old rest = pure (.word 8 x, .ofBytes rest) := by
  have h := (inRange_toInt (by decide) x).mono (by decide : 8 ≤ 32)
  simp [roundTrip, ValEncoder.encode, ValDecoder.decode, Writer.writeInt,
    wrap_of_inRange (by decide) h, storeInt_readInt rest x h]

theorem roundTrip_int16 (x : BitVec 16) :
    roundTrip .int16Codec .int16Codec (.word 16 x) old rest = pure (.word 16 x, .ofBytes rest) := by
  have h := (inRange_toInt (by decide) x).mono (by decide : 16 ≤ 32)
  simp [roundTrip, ValEncoder.encode, ValDecoder.decode, Writer.writeInt,
    wrap_of_inRange (by decide) h, storeInt_readInt rest x h]

theorem roundTrip_int32 (x : BitVec 32) :
    roundTrip .int32Codec .int32Codec (.word 32 x) old rest = pure (.word 32 x, .ofBytes rest) := by
  simp [roundTrip, ValEncoder.encode, ValDecoder.decode, Writer.writeInt,
    storeInt_readInt rest x (inRange_toInt (by decide) x)]

theorem roundTrip_int64 (x : BitVec 64) :
    roundTrip .int64Codec .int64Codec (.word 64 x) old rest = pure (.word 64 x, .ofBytes rest) := by
  simp [roundTrip, ValEncoder.encode, ValDecoder.decode, Writer.writeLong, storeInt,
    Reader.readLong_encodeZigzag rest (inRange_toInt (by decide) x), ofInt_toInt]

theorem roundTrip_float32 (x : BitVec 32) :
    roundTrip .float32Codec .float32Codec (.word 32 x) old rest = pure (.word 32 x, .ofBytes rest) := by
  simp [roundTrip, ValEncoder.encode, ValDecoder.decode, Writer.writeFloat]

theorem roundTrip_float64 (x : BitVec 64) :
    roundTrip .float64Codec .float64Codec (.word 64 x) old rest = pure (.word 64 x, .ofBytes rest) := by
  simp [roundTrip, ValEncoder.encode, ValDecoder.decode, Writer.writeDouble]

theorem roundTrip_string (b : Go.ByteSlice) :
    roundTrip .stringCodec .stringCodec (.bytes b) old rest = pure (.bytes b, .ofBytes rest) := by
  rw [roundTrip_eq .stringCodec (.bytes b) (Writer.empty.writeString b.data) rfl, Writer.writeString,
    Writer.append_buf, Writer.empty_buf, List.nil_append, decode_stringCodec,
    Reader.readString_encodeBytes]

theorem roundTrip_bytes (b : Go.ByteSlice) :
    roundTrip .bytesCodec .bytesCodec (.bytes b) old rest = pure (.bytes b, .ofBytes rest) := by
  rw [roundTrip_eq .bytesCodec (.bytes b) (Writer.empty.writeBytes b.data) rfl, Writer.writeBytes,
    Writer.append_buf, Writer.empty_buf, List.nil_append, decode_bytesCodec,
    Reader.readBytes_encodeBytes]

theorem roundTrip_float64_int (x : BitVec 64) :
    roundTrip .intFromFloat64Codec .int64Codec (.word 64 x) old rest =
      pure (.word 64 (BitVec.ofInt 64 (Float64.toInt 32 x)), .ofBytes rest) := by
  have h := (Float64.toInt_inRange 32 x).mono (by decide : 32 ≤ 64)
  simp [roundTrip, ValEncoder.encode, ValDecoder.decode, Writer.writeInt, storeInt,
    Reader.readLong_encodeZigzag rest h]

/-- Of the `float64`s that denote an `int32` integer, the pair gives back
exactly one: `+0`. -/
theorem roundTrip_float64_int_eq_iff {x : BitVec 64} {n : Int} (hx : Float64.toInt? x = some n)
    (hn : InRange 32 n) :
    roundTrip .intFromFloat64Codec .int64Codec (.word 64 x) old rest =
        pure (.word 64 x, .ofBytes rest) ↔ x = 0 := by
  rw [roundTrip_float64_int, Float64.toInt_of_toInt? hx hn, ← Float64.ofInt_eq_iff hx hn]
  simp only [pure, Except.pure, Except.ok.injEq, Prod.mk.injEq, Slot.word.injEq, heq_eq_eq,
    true_and, and_true]

theorem roundTrip_float64_int_eq_iff_at_two :
    Float64.toInt? 0x4000000000000000#64 = some 2 ∧ InRange 32 2 ∧
      (roundTrip .intFromFloat64Codec .int64Codec (.word 64 0x4000000000000000#64)
          (.word 64 0#64) [] = pure (.word 64 0x4000000000000000#64, .ofBytes []) ↔
        0x4000000000000000#64 = 0) :=
  ⟨by decide, by decide, roundTrip_float64_int_eq_iff (n := 2) _ _ (by decide) (by decide)⟩

/-! The logical-type codecs go through the conversions of `Native.Time` and
`Native.Decimal`. -/

theorem roundTrip_date (t : Time) :
    roundTrip .dateCodec .dateCodec (.time t) old rest =
      pure (.time (dateDecode (dateEncode t)), .ofBytes rest) := by
  have h : InRange 32 (dateEncode t) := inRange_wrap (by decide)
  simp [roundTrip, ValEncoder.encode, ValDecoder.decode, Writer.writeInt,
    Reader.readInt_encodeZigzag rest h]

theorem roundTrip_timestampMillis (t : Time) :
    roundTrip .timestampMillisCodec .timestampMillisCodec (.time t) old rest =
      pure (.time (timestampMillisDecode (timestampMillisEncode t)), .ofBytes rest) := by
  have h : InRange 64 (timestampMillisEncode t) := inRange_wrap (by decide)
  simp [roundTrip, ValEncoder.encode, ValDecoder.decode, Writer.writeLong,
    Reader.readLong_encodeZigzag rest h]

theorem roundTrip_timeMicros (x : BitVec 64) :
    roundTrip .timeMicrosCodec .timeMicrosCodec (.word 64 x) old rest =
      pure (.word 64 (BitVec.ofInt 64 (timeMicrosDecode (timeMicrosEncode x.toInt))),
        .ofBytes rest) := by
  have hx := inRange_toInt (by decide) x
  have hmicros : InRange 64 (timeMicrosEncode x.toInt) := by
    unfold InRange at *
    rw [timeMicrosEncode, tdiv_eq_ite (by decide)]
    split <;> omega
  simp [roundTrip, ValEncoder.encode, ValDecoder.decode, Writer.writeLong,
    Reader.readLong_encodeZigzag rest hmicros]

/-- An instant whose `UnixNano` fits comes back as the UTC instant of its day
count rounded toward zero: the midnight that starts its day from 1970 on, and
the midnight after it before 1970. -/
theorem roundTrip_date_truncates {t : Time} (hnanos : InRange 64 t.epochNanos) :
    ∃ u : Time, roundTrip .dateCodec .dateCodec (.time t) old rest = pure (.time u, .ofBytes rest) ∧
      u.loc = .utcLoc ∧ u.epochNanos = t.epochNanos.tdiv 86400000000000 * 86400000000000 := by
  obtain ⟨hencode, hdays⟩ := dateEncode_of_inRange hnanos
  obtain ⟨hloc, hday, -⟩ := dateDecode_spec hdays
  refine ⟨_, by rw [roundTrip_date, hencode], hloc, ?_⟩
  rw [hday]
  ring

theorem roundTrip_date_truncates_at_day_one :
    InRange 64 (time.unix 90000 0).epochNanos ∧
      ∃ u : Time, roundTrip .dateCodec .dateCodec (.time (time.unix 90000 0)) (.bool false) [] =
          pure (.time u, .ofBytes []) ∧
        u.loc = .utcLoc ∧
        u.epochNanos = (time.unix 90000 0).epochNanos.tdiv 86400000000000 * 86400000000000 :=
  ⟨by decide, roundTrip_date_truncates _ _ (by decide)⟩

/-- A timestamp comes back rounded down to the millisecond, in UTC, whenever its
count of milliseconds fits in an `int64`. -/
theorem roundTrip_timestampMillis_of_inRange {t : Time}
    (ht : InRange 64 (t.epochNanos / 1000000)) :
    roundTrip .timestampMillisCodec .timestampMillisCodec (.time t) old rest =
      pure (.time (t.roundDown 1000000).utc, .ofBytes rest) := by
  rw [roundTrip_timestampMillis, timestampMillisDecode, timestampMillisEncode,
    (timestampEncode_spec (.inl ⟨rfl, rfl⟩) t ht).2]
  rfl

theorem roundTrip_timestampMillis_at_one_and_a_half_seconds :
    InRange 64 ((time.unix 1 500000000).utc.epochNanos / 1000000) ∧
      roundTrip .timestampMillisCodec .timestampMillisCodec (.time (time.unix 1 500000000).utc)
          (.bool false) [] =
        pure (.time ((time.unix 1 500000000).utc.roundDown 1000000).utc, .ofBytes []) :=
  ⟨by decide, roundTrip_timestampMillis_of_inRange _ _ (by decide)⟩

/-- A `time.Duration` comes back truncated toward zero to the microsecond. -/
theorem roundTrip_timeMicros_truncates (x : BitVec 64) :
    roundTrip .timeMicrosCodec .timeMicrosCodec (.word 64 x) old rest =
      pure (.word 64 (BitVec.ofInt 64 (x.toInt.tdiv 1000 * 1000)), .ofBytes rest) := by
  rw [roundTrip_timeMicros, timeMicrosDecode_encode (inRange_toInt (by decide) x)]

theorem roundTrip_bytesDecimal (prec scale : Int) (r : ℚ)
    (hlen : (decimalBytes (unscaled scale r)).length < 2 ^ 63) :
    roundTrip (.bytesDecimalCodec prec scale) (.bytesDecimalCodec prec scale) (.rat r) old rest =
      ratFromBytes (decimalBytes (unscaled scale r)) scale >>= fun q =>
        pure (.rat q, .ofBytes rest) := by
  have hread := Reader.readBytes_encodeBytes rest ⟨_, hlen⟩
  dsimp only at hread
  rw [roundTrip_eq (.bytesDecimalCodec prec scale) (.rat r)
      (Writer.empty.writeBytes (decimalBytes (unscaled scale r))) rfl,
    Writer.writeBytes, Writer.append_buf, Writer.empty_buf, List.nil_append,
    decode_bytesDecimalCodec, hread]

theorem roundTrip_bytesDecimalPtr (prec scale : Int) (r : ℚ)
    (hlen : (decimalBytes (unscaled scale r)).length < 2 ^ 63) :
    roundTrip (.bytesDecimalPtrCodec prec scale) (.bytesDecimalPtrCodec prec scale)
        (.ratPtr (some r)) old rest =
      ratFromBytes (decimalBytes (unscaled scale r)) scale >>= fun q =>
        pure (.ratPtr (some q), .ofBytes rest) := by
  have hread := Reader.readBytes_encodeBytes rest ⟨_, hlen⟩
  dsimp only at hread
  rw [roundTrip_eq (.bytesDecimalPtrCodec prec scale) (.ratPtr (some r))
      (Writer.empty.writeBytes (decimalBytes (unscaled scale r))) rfl,
    Writer.writeBytes, Writer.append_buf, Writer.empty_buf, List.nil_append,
    decode_bytesDecimalPtrCodec, hread]

section Exact

variable {prec scale : Int} {r : ℚ} {n : Int}

/-- Up to precision 18 every decimal the parser admits comes back exactly, through
either codec. -/
theorem roundTrip_bytesDecimal_exact (hprec : 1 ≤ prec ∧ prec ≤ 18)
    (hscale : 0 ≤ scale ∧ scale ≤ prec) (hr : r * 10 ^ scale.toNat = n)
    (hn : n.natAbs < 10 ^ prec.toNat) :
    roundTrip (.bytesDecimalCodec prec scale) (.bytesDecimalCodec prec scale) (.rat r) old rest =
        pure (.rat r, .ofBytes rest) ∧
      roundTrip (.bytesDecimalPtrCodec prec scale) (.bytesDecimalPtrCodec prec scale)
          (.ratPtr (some r)) old rest = pure (.ratPtr (some r), .ofBytes rest) := by
  have hpow : 10 ^ prec.toNat ≤ 10 ^ 18 :=
    Nat.pow_le_pow_right (by decide) (by omega)
  have hscale18 : 0 ≤ scale ∧ scale ≤ 18 := ⟨hscale.1, by omega⟩
  have hn64 : InRange 64 n := by unfold InRange; omega
  have hlen : (decimalBytes (unscaled scale r)).length < 2 ^ 63 := by
    have := length_decimalBytes_le hn64
    rw [unscaled_eq hscale18 hr]
    omega
  have hread := ratFromBytes_decimalBytes hscale18 hr hn64
  rw [roundTrip_bytesDecimal old rest _ _ _ hlen, roundTrip_bytesDecimalPtr old rest _ _ _ hlen,
    hread]
  exact ⟨rfl, rfl⟩

end Exact

theorem roundTrip_bytesDecimal_exact_at_17_34 :
    ((1 : Int) ≤ 6 ∧ (6 : Int) ≤ 18) ∧ ((0 : Int) ≤ 2 ∧ (2 : Int) ≤ 6) ∧
      (1734 / 100 : ℚ) * 10 ^ (2 : Int).toNat = (1734 : Int) ∧
      (1734 : Int).natAbs < 10 ^ (6 : Int).toNat ∧
      roundTrip (.bytesDecimalCodec 6 2) (.bytesDecimalCodec 6 2) (.rat (1734 / 100))
          (.rat 0) [] = pure (.rat (1734 / 100), .ofBytes []) ∧
      roundTrip (.bytesDecimalPtrCodec 6 2) (.bytesDecimalPtrCodec 6 2)
          (.ratPtr (some (1734 / 100))) (.rat 0) [] =
        pure (.ratPtr (some (1734 / 100)), .ofBytes []) := by
  have hr : (1734 / 100 : ℚ) * 10 ^ (2 : Int).toNat = (1734 : Int) := by
    show (1734 / 100 : ℚ) * 10 ^ 2 = (1734 : Int)
    norm_num
  exact ⟨by decide, by decide, hr, by decide,
    roundTrip_bytesDecimal_exact (.rat 0) [] (by decide) (by decide) hr (by decide)⟩

/-- `2 ^ 64`, within precision 20 at scale 0, is written in nine bytes and read
back as `0`: `Int64` keeps the low 64 bits. -/
theorem roundTrip_bytesDecimal_two_pow_64 :
    (18446744073709551616 : Nat) < 10 ^ 20 ∧
      roundTrip (.bytesDecimalCodec 20 0) (.bytesDecimalCodec 20 0) (.rat 18446744073709551616)
          (.rat 0) [] = pure (.rat 0, .ofBytes []) := by
  have hbytes : decimalBytes (unscaled 0 18446744073709551616) = [1, 0, 0, 0, 0, 0, 0, 0, 0] := by
    decide
  refine ⟨by decide, ?_⟩
  rw [roundTrip_bytesDecimal _ _ _ _ _ (by rw [hbytes]; decide), hbytes, ratFromBytes,
    show big.int64 (twosComplement [1, 0, 0, 0, 0, 0, 0, 0, 0]) = 0 by decide,
    big.newRat_of_ne_zero (by decide)]
  simp
  rfl

/-! On a schema with no logical type the two resolvers agree on eleven scalar
pairs of kinds; every pair but a `float64` on an `int` schema round-trips. -/

inductive ScalarPair : GoType → SchemaType → ValEncoder → ValDecoder → Prop
  | bool : ScalarPair .bool .boolean .boolCodec .boolCodec
  | int : ScalarPair .int .int .intCodec .intCodec
  | int8 : ScalarPair .int8 .int .int8Codec .int8Codec
  | int16 : ScalarPair .int16 .int .int16Codec .int16Codec
  | int32 : ScalarPair .int32 .int .int32Codec .int32Codec
  | int64 : ScalarPair .int64 .long .int64Codec .int64Codec
  | float32 : ScalarPair .float32 .float .float32Codec .float32Codec
  | float64 : ScalarPair .float64 .double .float64Codec .float64Codec
  | float64Int : ScalarPair .float64 .int .intFromFloat64Codec .int64Codec
  | string : ScalarPair .string .string .stringCodec .stringCodec
  | bytes (elem : GoType) : ScalarPair (.slice elem) .bytes .bytesCodec .bytesCodec

def ValDecoder.isScalar : ValDecoder → Bool
  | .boolCodec | .intCodec | .int8Codec | .int16Codec | .int32Codec | .int64Codec
  | .float32Codec | .float64Codec | .stringCodec | .bytesCodec => true
  | _ => false

theorem scalarPair_of_decoder {schema : PrimitiveSchema} {typ : GoType} {dec : ValDecoder}
    (hdec : createDecoderOfNative schema typ = .ok dec) (hscalar : dec.isScalar = true) :
    ScalarPair typ.underlying schema.typ
      (if typ.underlying = .float64 ∧ schema.typ = .int then .intFromFloat64Codec
        else dec.toEncoder schema.typ) dec := by
  obtain ⟨st, logical⟩ := schema
  cases hu : typ.underlying <;> simp only [createDecoderOfNative, hu] at hdec
  case struct name =>
    split_ifs at hdec
    any_goals (cases hdec; cases hscalar)
    obtain ⟨d, -, rfl⟩ := bind_assertDecimal_ok hdec
    cases hscalar
  case ptr elem =>
    split at hdec
    · cases hdec; cases hscalar
    · split at hdec
      · cases hdec; cases hscalar
      · obtain ⟨d, -, rfl⟩ := bind_assertDecimal_ok hdec
        cases hscalar
  case float64 =>
    cases st <;> cases hdec <;> first
      | (rw [if_pos ⟨rfl, rfl⟩]; exact .float64Int)
      | (rw [if_neg fun h => nomatch h.2]; exact .float64)
      | cases hscalar
  all_goals rw [if_neg fun h => nomatch h.1]
  case slice elem =>
    split_ifs at hdec with h
    · cases hdec; cases hscalar
    · simp only [ne_eq, not_or, not_not] at h
      obtain ⟨-, rfl⟩ := h
      cases hdec
      exact .bytes elem
  case int64 =>
    split_ifs at hdec with h₁ h₂ h₃
    any_goals (cases hdec; cases hscalar)
    subst h₃
    exact .int64
  all_goals
    (try split at hdec) <;> cases hdec <;> first | (subst_vars; constructor) | cases hscalar

theorem ScalarPair.ne_struct {typ : GoType} {st : SchemaType} {enc : ValEncoder}
    {dec : ValDecoder} (hpair : ScalarPair typ st enc dec) : ∀ name, typ ≠ .struct name := by
  cases hpair <;> exact fun _ => nofun

theorem isScalar_of_logical_none {schema : PrimitiveSchema} {typ : GoType} {dec : ValDecoder}
    (hnone : schema.logical = none) (hdec : createDecoderOfNative schema typ = .ok dec)
    (herr : ∀ e, dec ≠ .errorDecoder e) : dec.isScalar = true := by
  obtain ⟨st, logical⟩ := schema
  subst hnone
  simp only [createDecoderOfNative, getLogicalType, getLogicalSchema, Option.map_none',
    reduceCtorEq, and_false, false_and, if_false] at hdec
  split at hdec
  all_goals (repeat' split at hdec) <;> cases hdec <;> first | rfl | exact absurd rfl (herr _)

/-- The values of host type `typ` that Avro type `st` holds exactly: any value
of the type, except that an `int` must fit in 32 bits and a `float64` bound to
an `int` schema must be an integer that does. -/
def Exact (typ : GoType) (st : SchemaType) (v : Slot) : Prop :=
  match typ.underlying, st with
  | .bool, _ => ∃ b, v = .bool b
  | .int, _ => ∃ x : BitVec 64, v = .word 64 x ∧ InRange 32 x.toInt
  | .int8, _ => ∃ x : BitVec 8, v = .word 8 x
  | .int16, _ => ∃ x : BitVec 16, v = .word 16 x
  | .int32, _ => ∃ x : BitVec 32, v = .word 32 x
  | .int64, _ => ∃ x : BitVec 64, v = .word 64 x
  | .float32, _ => ∃ x : BitVec 32, v = .word 32 x
  | .float64, .int =>
      ∃ x : BitVec 64, v = .word 64 x ∧ ∃ n, Float64.toInt? x = some n ∧ InRange 32 n
  | .float64, _ => ∃ x : BitVec 64, v = .word 64 x
  | .string, _ => ∃ b, v = .bytes b
  | .slice _, _ => ∃ b, v = .bytes b
  | _, _ => False

variable {typ : GoType} {st : SchemaType} {enc : ValEncoder} {dec : ValDecoder} {v : Slot}

theorem exact_underlying : Exact typ.underlying st v ↔ Exact typ st v := by
  unfold Exact
  rw [GoType.underlying_underlying]

theorem roundTrip_scalar (hpair : ScalarPair typ st enc dec)
    (hfloat : ¬(typ = .float64 ∧ st = .int)) (hv : Exact typ st v) :
    roundTrip enc dec v old rest = pure (v, .ofBytes rest) := by
  cases hpair with
  | bool => obtain ⟨b, rfl⟩ := hv; exact roundTrip_bool old rest b
  | int => obtain ⟨x, rfl, hx⟩ := hv; exact roundTrip_int old rest hx
  | int8 => obtain ⟨x, rfl⟩ := hv; exact roundTrip_int8 old rest x
  | int16 => obtain ⟨x, rfl⟩ := hv; exact roundTrip_int16 old rest x
  | int32 => obtain ⟨x, rfl⟩ := hv; exact roundTrip_int32 old rest x
  | int64 => obtain ⟨x, rfl⟩ := hv; exact roundTrip_int64 old rest x
  | float32 => obtain ⟨x, rfl⟩ := hv; exact roundTrip_float32 old rest x
  | float64 => obtain ⟨x, rfl⟩ := hv; exact roundTrip_float64 old rest x
  | float64Int => exact absurd ⟨rfl, rfl⟩ hfloat
  | string => obtain ⟨b, rfl⟩ := hv; exact roundTrip_string old rest b
  | bytes => obtain ⟨b, rfl⟩ := hv; exact roundTrip_bytes old rest b

/-- Through both resolvers, on every schema whatever its logical annotation:
where the decoder resolver binds a scalar codec, the encoder resolver binds its
partner, and every value the pair holds exactly comes back, the `float64` on
`int` pair excepted. -/
theorem roundTrip_of_decoder {schema : PrimitiveSchema}
    (hdec : createDecoderOfNative schema typ = .ok dec) (hscalar : dec.isScalar = true)
    (hfloat : ¬(typ.underlying = .float64 ∧ schema.typ = .int)) (hv : Exact typ schema.typ v) :
    ∃ enc, createEncoderOfNative schema typ = .ok enc ∧
      roundTrip enc dec v old rest = pure (v, .ofBytes rest) :=
  have hpair := scalarPair_of_decoder hdec hscalar
  ⟨_, createEncoderOfNative_of_decoder_of_ne_struct hpair.ne_struct hdec
    (by rintro e rfl; cases hscalar),
    roundTrip_scalar old rest hpair hfloat (exact_underlying.mpr hv)⟩

theorem roundTrip_of_resolve {schema : PrimitiveSchema} (hnone : schema.logical = none)
    (henc : createEncoderOfNative schema typ = .ok enc)
    (hdec : createDecoderOfNative schema typ = .ok dec) (herr : ∀ e, dec ≠ .errorDecoder e)
    (hfloat : ¬(typ.underlying = .float64 ∧ schema.typ = .int)) (hv : Exact typ schema.typ v) :
    roundTrip enc dec v old rest = pure (v, .ofBytes rest) := by
  have hpair := scalarPair_of_decoder hdec (isScalar_of_logical_none hnone hdec herr)
  rw [createEncoderOfNative_of_decoder_of_ne_struct hpair.ne_struct hdec herr] at henc
  cases henc
  exact roundTrip_scalar old rest hpair hfloat (exact_underlying.mpr hv)

theorem roundTrip_of_decoder_int64_annotated :
    createDecoderOfNative ⟨.long, some (.primitive .timestampMicros)⟩ .int64 =
        .ok .int64Codec ∧
      ValDecoder.int64Codec.isScalar = true ∧
      ¬(GoType.int64.underlying = .float64 ∧ SchemaType.long = .int) ∧
      Exact .int64 .long (.word 64 (-5#64)) ∧
      ∃ enc, createEncoderOfNative ⟨.long, some (.primitive .timestampMicros)⟩ .int64 = .ok enc ∧
        roundTrip enc .int64Codec (.word 64 (-5#64)) (.bool false) [] =
          pure (.word 64 (-5#64), .ofBytes []) := by
  have hdec : createDecoderOfNative ⟨.long, some (.primitive .timestampMicros)⟩ .int64 =
      .ok .int64Codec := rfl
  have hfloat : ¬(GoType.int64.underlying = .float64 ∧ SchemaType.long = .int) := by decide
  have hv : Exact .int64 .long (.word 64 (-5#64)) := ⟨_, rfl⟩
  exact ⟨hdec, rfl, hfloat, hv, roundTrip_of_decoder _ _ hdec rfl hfloat hv⟩

/-- `1.0` through a `float64` host and an `int` schema comes back as the
`float64` whose bits are `1`. -/
theorem roundTrip_float64_int_one :
    createEncoderOfNative ⟨.int, none⟩ .float64 = .ok .intFromFloat64Codec ∧
      createDecoderOfNative ⟨.int, none⟩ .float64 = .ok .int64Codec ∧
      Exact .float64 .int (.word 64 0x3FF0000000000000#64) ∧
      roundTrip .intFromFloat64Codec .int64Codec (.word 64 0x3FF0000000000000#64)
          (.word 64 0#64) [] = pure (.word 64 1#64, .ofBytes []) ∧
      Slot.word 64 1#64 ≠ .word 64 0x3FF0000000000000#64 := by
  refine ⟨rfl, rfl, ⟨_, rfl, 1, by decide, by decide⟩, ?_, by decide⟩
  rw [roundTrip_float64_int]
  rfl

end AvroCodec.Native
