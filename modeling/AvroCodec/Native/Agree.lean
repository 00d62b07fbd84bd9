import AvroCodec.Native.Resolve

namespace AvroCodec.Native

open AvroCodec.Go

/-! The two resolvers of `codec_native.go` side by side.  Wherever
`createDecoderOfNative` binds a codec, `createEncoderOfNative` binds the same
codec struct, save `float64` on `int`, where it binds `intFromFloat64Codec`
against the decoder's `int64Codec`.  The encoder binds more: a `null` schema,
`int32` on `long`, `float32` on `double`, `float64` on `long`, and any struct
type but `big.Rat` on a decimal schema. -/

/-- The encoder a decoder's codec struct is: in `codec_native.go` one struct
type implements both `Decode` and `Encode`.  The decoder's error plan becomes
the encoder's fallback, `nullCodec` on a `null` schema. -/
def ValDecoder.toEncoder (st : SchemaType) : ValDecoder → ValEncoder
  | .boolCodec => .boolCodec
  | .intCodec => .intCodec
  | .int8Codec => .int8Codec
  | .int16Codec => .int16Codec
  | .int32Codec => .int32Codec
  | .int64Codec => .int64Codec
  | .timeMillisCodec => .timeMillisCodec
  | .timeMicrosCodec => .timeMicrosCodec
  | .float32Codec => .float32Codec
  | .float64Codec => .float64Codec
  | .stringCodec => .stringCodec
  | .bytesCodec => .bytesCodec
  | .dateCodec => .dateCodec
  | .timestampMillisCodec => .timestampMillisCodec
  | .timestampMicrosCodec => .timestampMicrosCodec
  | .bytesDecimalCodec prec scale => .bytesDecimalCodec prec scale
  | .bytesDecimalPtrCodec prec scale => .bytesDecimalPtrCodec prec scale
  | .errorDecoder err => if st = .null then .nullCodec else .errorEncoder err

variable {schema : PrimitiveSchema} {typ : GoType} {dec : ValDecoder}

theorem createEncoderOfNative_eq_map (h32 : typ.underlying ≠ .int32)
    (hf32 : typ.underlying ≠ .float32) (hf64 : typ.underlying ≠ .float64)
    (hstruct : ∀ name, typ.underlying ≠ .struct name) :
    createEncoderOfNative schema typ =
      (fun dec => dec.toEncoder schema.typ) <$> createDecoderOfNative schema typ := by
  cases hu : typ.underlying
  case int32 => exact absurd hu h32
  case float32 => exact absurd hu hf32
  case float64 => exact absurd hu hf64
  case struct name => exact absurd hu (hstruct name)
  case ptr elem =>
    simp only [createEncoderOfNative, createDecoderOfNative, hu]
    split
    · rfl
    · split
      · rfl
      · cases assertDecimal _ <;> rfl
  all_goals
    simp only [createEncoderOfNative, createDecoderOfNative, hu, map_pure,
      apply_ite (ValDecoder.toEncoder _)]
    rfl

theorem createEncoderOfNative_of_decoder_of_ne_struct
    (hstruct : ∀ name, typ.underlying ≠ .struct name)
    (hdec : createDecoderOfNative schema typ = .ok dec) (herr : ∀ e, dec ≠ .errorDecoder e) :
    createEncoderOfNative schema typ =
      .ok (if typ.underlying = .float64 ∧ schema.typ = .int then .intFromFloat64Codec
        else dec.toEncoder schema.typ) := by
  by_cases hspecial : typ.underlying = .int32 ∨ typ.underlying = .float32 ∨
      typ.underlying = .float64
  · obtain ⟨st, logical⟩ := schema
    rcases hspecial with hu | hu | hu <;>
      simp only [createDecoderOfNative, hu] at hdec <;>
      simp only [createEncoderOfNative, hu] <;>
      cases st <;> cases hdec <;> first | exact absurd rfl (herr _) | rfl
  · simp only [not_or] at hspecial
    obtain ⟨h32, hf32, hf64⟩ := hspecial
    rw [createEncoderOfNative_eq_map h32 hf32 hf64 hstruct, hdec, if_neg fun h => hf64 h.1]
    rfl

/-- Whatever the schema and host type, what the decoder resolver binds the
encoder resolver binds too, as the same codec struct, except for `float64` on
`int`. -/
theorem createEncoderOfNative_of_decoder
    (hdec : createDecoderOfNative schema typ = .ok dec) (herr : ∀ e, dec ≠ .errorDecoder e) :
    createEncoderOfNative schema typ =
      .ok (if typ.underlying = .float64 ∧ schema.typ = .int then .intFromFloat64Codec
        else dec.toEncoder schema.typ) := by
  rcases typ.struct_or_ptr_or with ⟨name, hu⟩ | ⟨elem, hu⟩ | ⟨hstruct, -⟩
  · rw [if_neg (fun h => by rw [hu] at h; cases h.1)]
    simp only [createDecoderOfNative, hu] at hdec
    simp only [createEncoderOfNative, hu]
    split_ifs at hdec with hdate hmillis hmicros hdecimal
    · cases hdec; rw [if_pos hdate]; rfl
    · cases hdec; rw [if_neg hdate, if_pos hmillis]; rfl
    · cases hdec; rw [if_neg hdate, if_neg hmillis, if_pos hmicros]; rfl
    · rw [if_neg hdate, if_neg hmillis, if_neg hmicros, if_pos (.inr hdecimal.2.2)]
      obtain ⟨d, hl, rfl⟩ := bind_assertDecimal_ok hdec
      rw [hl]
      rfl
    · cases hdec
      exact absurd rfl (herr _)
  · exact createEncoderOfNative_of_decoder_of_ne_struct (fun _ h => by rw [hu] at h; cases h)
      hdec herr
  · exact createEncoderOfNative_of_decoder_of_ne_struct hstruct hdec herr

theorem createEncoderOfNative_of_decoder_duration :
    createDecoderOfNative ⟨.int, some (.primitive .timeMillis)⟩ durationType =
        .ok .timeMillisCodec ∧
      createEncoderOfNative ⟨.int, some (.primitive .timeMillis)⟩ durationType =
        .ok (if durationType.underlying = .float64 ∧ SchemaType.int = .int then
          .intFromFloat64Codec else ValDecoder.timeMillisCodec.toEncoder .int) :=
  ⟨rfl, createEncoderOfNative_of_decoder rfl fun _ => nofun⟩

/-- On a parsed schema, the pairs where only the encoder resolver binds a
codec: a `null` schema, `int32` on `long`, `float32` on `double`, `float64` on
`long`, and a struct type other than `big.Rat` on a decimal schema. -/
theorem createDecoderOfNative_error_of_encoder (hparsed : schema.Parsed) {enc : ValEncoder}
    (henc : createEncoderOfNative schema typ = .ok enc) (herr : ∀ e, enc ≠ .errorEncoder e)
    {e : String} (hdec : createDecoderOfNative schema typ = .ok (.errorDecoder e)) :
    schema.typ = .null ∨ (typ.underlying = .int32 ∧ schema.typ = .long) ∨
      (typ.underlying = .float32 ∧ schema.typ = .double) ∨
      (typ.underlying = .float64 ∧ schema.typ = .long) ∨
      ((∃ name, typ.underlying = .struct name) ∧ typ ≠ ratRType ∧
        getLogicalType schema = some .decimal) := by
  by_cases hspecial : (∃ name, typ.underlying = .struct name) ∨ typ.underlying = .int32 ∨
      typ.underlying = .float32 ∨ typ.underlying = .float64
  · rcases hspecial with ⟨name, hu⟩ | hu | hu | hu
    · simp only [createDecoderOfNative, hu] at hdec
      simp only [createEncoderOfNative, hu] at henc
      split_ifs at hdec with hdate hmillis hmicros hdecimal
      · cases hdec
      · cases hdec
      · cases hdec
      · obtain ⟨d, -, hf⟩ := bind_assertDecimal_ok hdec
        cases hf
      rw [if_neg hdate, if_neg hmillis, if_neg hmicros] at henc
      split_ifs at henc with hE hnull
      · obtain ⟨d, hl, -⟩ := bind_assertDecimal_ok henc
        have hlt : getLogicalType schema = some .decimal := by
          rw [getLogicalType, hl]; rfl
        have hbytes := (assertDecimal_of_parsed hparsed hlt).1
        exact .inr (.inr (.inr (.inr ⟨⟨name, hu⟩, fun hrat => hdecimal ⟨hrat, hbytes, hlt⟩, hlt⟩)))
      · exact .inl hnull
      · cases henc
        exact absurd rfl (herr _)
    all_goals
      obtain ⟨st, logical⟩ := schema
      simp only [createDecoderOfNative, hu] at hdec
      simp only [createEncoderOfNative, hu] at henc
      cases st <;> cases hdec <;> cases henc <;> first | exact absurd rfl (herr _) | simp [hu]
  · simp only [not_or, not_exists] at hspecial
    obtain ⟨hstruct, h32, hf32, hf64⟩ := hspecial
    rw [createEncoderOfNative_eq_map h32 hf32 hf64 hstruct, hdec] at henc
    cases henc
    by_cases hnull : schema.typ = .null
    · exact .inl hnull
    · exact absurd (if_neg hnull) (herr _)

theorem createDecoderOfNative_error_of_encoder_int32_long :
    PrimitiveSchema.Parsed ⟨.long, none⟩ ∧
      createEncoderOfNative ⟨.long, none⟩ .int32 = .ok .int32LongCodec ∧
      createDecoderOfNative ⟨.long, none⟩ .int32 =
        .ok (.errorDecoder "avro: int32 is unsupported for Avro long") ∧
      (SchemaType.long = .null ∨ (GoType.int32.underlying = .int32 ∧ SchemaType.long = .long) ∨
        (GoType.int32.underlying = .float32 ∧ SchemaType.long = .double) ∨
        (GoType.int32.underlying = .float64 ∧ SchemaType.long = .long) ∨
        ((∃ name, GoType.int32.underlying = .struct name) ∧ GoType.int32 ≠ ratRType ∧
          getLogicalType ⟨.long, none⟩ = some .decimal)) := by
  have henc : createEncoderOfNative ⟨.long, none⟩ .int32 = .ok .int32LongCodec := rfl
  have hdec : createDecoderOfNative ⟨.long, none⟩ .int32 =
      .ok (.errorDecoder "avro: int32 is unsupported for Avro long") := rfl
  exact ⟨by decide, henc, hdec,
    createDecoderOfNative_error_of_encoder (by decide) henc (fun _ => nofun) hdec⟩

end AvroCodec.Native
