import AvroCodec.Schema

namespace AvroCodec.Native

open AvroCodec.Go

/-! `createDecoderOfNative` and `createEncoderOfNative` (`codec_native.go`),
which bind a primitive schema and a host type to a codec.  A codec is named by
its struct; what each one does is in `Native.Codec`.  The type assertions
`ls.(*DecimalLogicalSchema)` can panic, so both resolvers return
`Except Panic`. -/

inductive ValDecoder
  | boolCodec
  | intCodec
  | int8Codec
  | int16Codec
  | int32Codec
  | int64Codec
  | timeMillisCodec
  | timeMicrosCodec
  | float32Codec
  | float64Codec
  | stringCodec
  | bytesCodec
  | dateCodec
  | timestampMillisCodec
  | timestampMicrosCodec
  | bytesDecimalCodec (prec scale : Int)
  | bytesDecimalPtrCodec (prec scale : Int)
  | errorDecoder (err : String)
  deriving DecidableEq, Repr

inductive ValEncoder
  | nullCodec
  | boolCodec
  | intCodec
  | int8Codec
  | int16Codec
  | int32Codec
  | int32LongCodec
  | int64Codec
  | timeMillisCodec
  | timeMicrosCodec
  | float32Codec
  | float32DoubleCodec
  | float64Codec
  | intFromFloat64Codec
  | longFromFloat64Codec
  | stringCodec
  | bytesCodec
  | dateCodec
  | timestampMillisCodec
  | timestampMicrosCodec
  | bytesDecimalCodec (prec scale : Int)
  | bytesDecimalPtrCodec (prec scale : Int)
  | errorEncoder (err : String)
  deriving DecidableEq, Repr

def getLogicalSchema (schema : PrimitiveSchema) : Option LogicalSchema := schema.logical

/-- `""` when the schema has no logical schema. -/
def getLogicalType (schema : PrimitiveSchema) : Option LogicalType :=
  (getLogicalSchema schema).map LogicalSchema.type

/-- The type assertion `ls.(*DecimalLogicalSchema)`. -/
def assertDecimal : Option LogicalSchema → Except Panic DecimalLogicalSchema
  | some (.decimal dec) => pure dec
  | some (.primitive _) =>
      throw ⟨"interface conversion: avro.LogicalSchema is *avro.PrimitiveLogicalSchema, " ++
        "not *avro.DecimalLogicalSchema"⟩
  | none => throw ⟨"interface conversion: avro.LogicalSchema is nil, not *avro.DecimalLogicalSchema"⟩

/-- `fmt.Errorf("avro: %s is unsupported for Avro %s", typ.String(), schema.Type())`. -/
def unsupported (schema : PrimitiveSchema) (typ : GoType) : String :=
  "avro: " ++ typ.toString ++ " is unsupported for Avro " ++ schema.typ.name

def createDecoderOfNative (schema : PrimitiveSchema) (typ : GoType) :
    Except Panic ValDecoder :=
  let st := schema.typ
  let lt := getLogicalType schema
  let fallback := ValDecoder.errorDecoder (unsupported schema typ)
  match typ.underlying with
  | .bool => pure (if st = .boolean then .boolCodec else fallback)
  | .int => pure (if st = .int then .intCodec else fallback)
  | .int8 => pure (if st = .int then .int8Codec else fallback)
  | .int16 => pure (if st = .int then .int16Codec else fallback)
  | .int32 => pure (if st = .int then .int32Codec else fallback)
  | .int64 =>
      pure <|
        if st = .int ∧ lt = some .timeMillis then .timeMillisCodec
        else if st = .long ∧ lt = some .timeMicros then .timeMicrosCodec
        else if st = .long then .int64Codec
        else fallback
  | .float32 => pure (if st = .float then .float32Codec else fallback)
  | .float64 =>
      pure <|
        match st with
        | .double => .float64Codec
        | .int => .int64Codec
        | _ => fallback
  | .string => pure (if st = .string then .stringCodec else fallback)
  | .slice elem => pure (if elem.underlying ≠ .uint8 ∨ st ≠ .bytes then fallback else .bytesCodec)
  | .struct _ =>
      if typ = timeRType ∧ st = .int ∧ lt = some .date then pure .dateCodec
      else if typ = timeRType ∧ st = .long ∧ lt = some .timestampMillis then
        pure .timestampMillisCodec
      else if typ = timeRType ∧ st = .long ∧ lt = some .timestampMicros then
        pure .timestampMicrosCodec
      else if typ = ratRType ∧ st = .bytes ∧ lt = some .decimal then do
        let dec ← assertDecimal (getLogicalSchema schema)
        pure (.bytesDecimalCodec dec.prec dec.scale)
      else pure fallback
  | .ptr elem =>
      match getLogicalSchema schema with
      | none => pure fallback
      | some ls =>
          if elem ≠ ratRType ∨ st ≠ .bytes ∨ ls.type ≠ .decimal then pure fallback
          else do
            let dec ← assertDecimal (some ls)
            pure (.bytesDecimalPtrCodec dec.prec dec.scale)
  | _ => pure fallback

/-- As `createDecoderOfNative`, with the encoders' own cases; past the switch a
`null` schema gets `nullCodec` whatever the host type. -/
def createEncoderOfNative (schema : PrimitiveSchema) (typ : GoType) :
    Except Panic ValEncoder :=
  let st := schema.typ
  let lt := getLogicalType schema
  let fallback :=
    if st = .null then ValEncoder.nullCodec else .errorEncoder (unsupported schema typ)
  match typ.underlying with
  | .bool => pure (if st = .boolean then .boolCodec else fallback)
  | .int => pure (if st = .int then .intCodec else fallback)
  | .int8 => pure (if st = .int then .int8Codec else fallback)
  | .int16 => pure (if st = .int then .int16Codec else fallback)
  | .int32 =>
      pure <|
        match st with
        | .long => .int32LongCodec
        | .int => .int32Codec
        | _ => fallback
  | .int64 =>
      pure <|
        if st = .int ∧ lt = some .timeMillis then .timeMillisCodec
        else if st = .long ∧ lt = some .timeMicros then .timeMicrosCodec
        else if st = .long then .int64Codec
        else fallback
  | .float32 =>
      pure <|
        match st with
        | .double => .float32DoubleCodec
        | .float => .float32Codec
        | _ => fallback
  | .float64 =>
      pure <|
        match st with
        | .double => .float64Codec
        | .long => .longFromFloat64Codec
        | .int => .intFromFloat64Codec
        | _ => fallback
  | .string => pure (if st = .string then .stringCodec else fallback)
  | .slice elem => pure (if elem.underlying ≠ .uint8 ∨ st ≠ .bytes then fallback else .bytesCodec)
  | .struct _ =>
      if typ = timeRType ∧ st = .int ∧ lt = some .date then pure .dateCodec
      else if typ = timeRType ∧ st = .long ∧ lt = some .timestampMillis then
        pure .timestampMillisCodec
      else if typ = timeRType ∧ st = .long ∧ lt = some .timestampMicros then
        pure .timestampMicrosCodec
      else if (typ = ratRType ∧ st ≠ .bytes) ∨ lt = some .decimal then do
        let dec ← assertDecimal (getLogicalSchema schema)
        pure (.bytesDecimalCodec dec.prec dec.scale)
      else pure fallback
  | .ptr elem =>
      match getLogicalSchema schema with
      | none => pure fallback
      | some ls =>
          if elem ≠ ratRType ∨ st ≠ .bytes ∨ ls.type ≠ .decimal then pure fallback
          else do
            let dec ← assertDecimal (some ls)
            pure (.bytesDecimalPtrCodec dec.prec dec.scale)
  | _ => pure fallback

/-! Resolution on the schemas the parser produces.  The decoder never panics
and binds a decimal codec only where it should; the encoder's struct case
tests `typ = ratRType ∧ st ≠ bytes ∨ lt = decimal`, so it panics on `big.Rat`
with any schema but `bytes`, and binds the decimal codec to every struct type
on a decimal schema. -/

theorem assertDecimal_ok {l : Option LogicalSchema} {dec : DecimalLogicalSchema}
    (h : assertDecimal l = .ok dec) : l = some (.decimal dec) := by
  match l, h with
  | some (.decimal _), rfl => rfl

theorem assertDecimal_of_parsed {schema : PrimitiveSchema} (hparsed : schema.Parsed)
    (hlt : getLogicalType schema = some .decimal) :
    schema.typ = .bytes ∧ ∃ dec, assertDecimal schema.logical = .ok dec := by
  obtain ⟨ls, hls, htype⟩ := Option.map_eq_some'.mp hlt
  obtain ⟨hbytes, dec, rfl⟩ := hparsed.decimal hls htype
  exact ⟨hbytes, dec, by rw [getLogicalSchema] at hls; rw [hls]; rfl⟩

theorem bind_assertDecimal_ok {α : Type} {l : Option LogicalSchema}
    {f : DecimalLogicalSchema → α} {a : α}
    (h : (assertDecimal l >>= fun dec => pure (f dec)) = .ok a) :
    ∃ dec, l = some (.decimal dec) ∧ f dec = a := by
  obtain ⟨dec, hdec, hf⟩ := bind_eq_ok h
  exact ⟨dec, assertDecimal_ok hdec, Except.ok.inj hf⟩

variable {schema : PrimitiveSchema} {typ : GoType} {p s : Int}

theorem createDecoderOfNative_of_scalar (schema : PrimitiveSchema)
    (hstruct : ∀ name, typ.underlying ≠ .struct name) (hptr : ∀ elem, typ.underlying ≠ .ptr elem) :
    ∃ dec, createDecoderOfNative schema typ = .ok dec ∧
      ∀ p s, dec ≠ .bytesDecimalCodec p s ∧ dec ≠ .bytesDecimalPtrCodec p s := by
  unfold createDecoderOfNative
  dsimp only
  split
  all_goals first
    | exact absurd ‹_› (hstruct _)
    | exact absurd ‹_› (hptr _)
    | (refine ⟨_, rfl, fun p s => ?_⟩
       repeat' split
       all_goals exact ⟨nofun, nofun⟩)

theorem createEncoderOfNative_of_scalar (schema : PrimitiveSchema)
    (hstruct : ∀ name, typ.underlying ≠ .struct name) (hptr : ∀ elem, typ.underlying ≠ .ptr elem) :
    ∃ enc, createEncoderOfNative schema typ = .ok enc ∧
      ∀ p s, enc ≠ .bytesDecimalCodec p s ∧ enc ≠ .bytesDecimalPtrCodec p s := by
  unfold createEncoderOfNative
  dsimp only
  split
  all_goals first
    | exact absurd ‹_› (hstruct _)
    | exact absurd ‹_› (hptr _)
    | (refine ⟨_, rfl, fun p s => ?_⟩
       repeat' split
       all_goals exact ⟨nofun, nofun⟩)

theorem createDecoderOfNative_cases (schema : PrimitiveSchema) (typ : GoType) :
    (∃ dec, createDecoderOfNative schema typ = .ok dec ∧
        ∀ p s, dec ≠ .bytesDecimalCodec p s ∧ dec ≠ .bytesDecimalPtrCodec p s) ∨
      (typ = ratRType ∧ schema.typ = .bytes ∧ getLogicalType schema = some .decimal ∧
        createDecoderOfNative schema typ = assertDecimal schema.logical >>= fun dec =>
          pure (.bytesDecimalCodec dec.prec dec.scale)) ∨
      (typ.underlying = .ptr ratRType ∧ schema.typ = .bytes ∧
        getLogicalType schema = some .decimal ∧
        createDecoderOfNative schema typ = assertDecimal schema.logical >>= fun dec =>
          pure (.bytesDecimalPtrCodec dec.prec dec.scale)) := by
  rcases typ.struct_or_ptr_or with ⟨name, hu⟩ | ⟨elem, hu⟩ | ⟨hstruct, hptr⟩
  · simp only [createDecoderOfNative, hu]
    split_ifs with hdate hmillis hmicros hdecimal
    any_goals exact .inl ⟨_, rfl, fun _ _ => ⟨nofun, nofun⟩⟩
    exact .inr (.inl ⟨hdecimal.1, hdecimal.2.1, hdecimal.2.2, rfl⟩)
  · simp only [createDecoderOfNative, hu]
    split
    · exact .inl ⟨_, rfl, fun _ _ => ⟨nofun, nofun⟩⟩
    next ls hls =>
      split_ifs with hfallback
      · exact .inl ⟨_, rfl, fun _ _ => ⟨nofun, nofun⟩⟩
      · simp only [ne_eq, not_or, not_not] at hfallback
        refine .inr (.inr ⟨by rw [hfallback.1], hfallback.2.1, ?_, by rw [← hls]; rfl⟩)
        rw [getLogicalType, hls, Option.map_some', hfallback.2.2]
  · exact .inl (createDecoderOfNative_of_scalar schema hstruct hptr)

theorem createEncoderOfNative_cases (schema : PrimitiveSchema) (typ : GoType) :
    (∃ enc, createEncoderOfNative schema typ = .ok enc ∧
        ∀ p s, enc ≠ .bytesDecimalCodec p s ∧ enc ≠ .bytesDecimalPtrCodec p s) ∨
      ((∃ name, typ.underlying = .struct name) ∧
        ((typ = ratRType ∧ schema.typ ≠ .bytes) ∨ getLogicalType schema = some .decimal) ∧
        createEncoderOfNative schema typ = assertDecimal schema.logical >>= fun dec =>
          pure (.bytesDecimalCodec dec.prec dec.scale)) ∨
      (typ.underlying = .ptr ratRType ∧ schema.typ = .bytes ∧
        getLogicalType schema = some .decimal ∧
        createEncoderOfNative schema typ = assertDecimal schema.logical >>= fun dec =>
          pure (.bytesDecimalPtrCodec dec.prec dec.scale)) := by
  rcases typ.struct_or_ptr_or with ⟨name, hu⟩ | ⟨elem, hu⟩ | ⟨hstruct, hptr⟩
  · simp only [createEncoderOfNative, hu]
    split_ifs with hdate hmillis hmicros hdecimal
    any_goals exact .inl ⟨_, rfl, fun _ _ => ⟨nofun, nofun⟩⟩
    exact .inr (.inl ⟨⟨name, rfl⟩, hdecimal, rfl⟩)
  · simp only [createEncoderOfNative, hu]
    split
    · exact .inl ⟨_, rfl, fun _ _ => by split <;> exact ⟨nofun, nofun⟩⟩
    next ls hls =>
      split
      · exact .inl ⟨_, rfl, fun _ _ => by split <;> exact ⟨nofun, nofun⟩⟩
      next hfallback =>
        simp only [ne_eq, not_or, not_not] at hfallback
        refine .inr (.inr ⟨by rw [hfallback.1], hfallback.2.1, ?_, by rw [← hls]; rfl⟩)
        rw [getLogicalType, hls, Option.map_some', hfallback.2.2]
  · exact .inl (createEncoderOfNative_of_scalar schema hstruct hptr)

theorem createDecoderOfNative_ok (hparsed : schema.Parsed) (typ : GoType) :
    ∃ dec, createDecoderOfNative schema typ = .ok dec := by
  rcases createDecoderOfNative_cases schema typ with ⟨dec, h, -⟩ | ⟨-, -, hlt, h⟩ | ⟨-, -, hlt, h⟩
  · exact ⟨dec, h⟩
  all_goals
    obtain ⟨-, dec, hdec⟩ := assertDecimal_of_parsed hparsed hlt
    exact ⟨_, by rw [h, hdec]; rfl⟩

theorem createDecoderOfNative_ok_rat_long :
    PrimitiveSchema.Parsed ⟨.long, none⟩ ∧
      ∃ dec, createDecoderOfNative ⟨.long, none⟩ ratRType = .ok dec :=
  ⟨by decide, createDecoderOfNative_ok (by decide) ratRType⟩

theorem createEncoderOfNative_panics (hparsed : schema.Parsed) {err : Panic}
    (h : createEncoderOfNative schema typ = .error err) :
    typ = ratRType ∧ schema.typ ≠ .bytes := by
  rcases createEncoderOfNative_cases schema typ with
    ⟨enc, henc, -⟩ | ⟨-, hrat | hlt, hres⟩ | ⟨-, -, hlt, hres⟩
  · cases henc.symm.trans h
  · exact hrat
  all_goals
    obtain ⟨-, dec, hdec⟩ := assertDecimal_of_parsed hparsed hlt
    rw [hres, hdec] at h
    cases h

theorem createEncoderOfNative_rat_panics (hparsed : schema.Parsed) (hst : schema.typ ≠ .bytes) :
    ∃ err, createEncoderOfNative schema ratRType = .error err := by
  obtain ⟨st, logical⟩ := schema
  match logical, hparsed with
  | some (.decimal _), hparsed => exact absurd (hparsed.decimal rfl rfl).1 hst
  | none, _ => cases st <;> first | exact absurd rfl hst | exact ⟨_, rfl⟩
  | some (.primitive _), _ => cases st <;> first | exact absurd rfl hst | exact ⟨_, rfl⟩

theorem createEncoderOfNative_panics_iff (hparsed : schema.Parsed) :
    (∃ err, createEncoderOfNative schema typ = .error err) ↔
      typ = ratRType ∧ schema.typ ≠ .bytes :=
  ⟨fun ⟨_, h⟩ => createEncoderOfNative_panics hparsed h,
    fun ⟨htyp, hst⟩ => htyp ▸ createEncoderOfNative_rat_panics hparsed hst⟩

theorem createEncoderOfNative_panics_iff_rat_long :
    PrimitiveSchema.Parsed ⟨.long, none⟩ ∧
      ((∃ err, createEncoderOfNative ⟨.long, none⟩ ratRType = .error err) ↔
        ratRType = ratRType ∧ SchemaType.long ≠ .bytes) :=
  ⟨by decide, createEncoderOfNative_panics_iff (by decide)⟩

theorem createEncoderOfNative_rat_long :
    PrimitiveSchema.Parsed ⟨.long, none⟩ ∧
      createEncoderOfNative ⟨.long, none⟩ ratRType =
        .error ⟨"interface conversion: avro.LogicalSchema is nil, not *avro.DecimalLogicalSchema"⟩ ∧
      createDecoderOfNative ⟨.long, none⟩ ratRType =
        .ok (.errorDecoder "avro: big.Rat is unsupported for Avro long") ∧
      PrimitiveSchema.Parsed ⟨.bytes, some (.decimal ⟨4, 2⟩)⟩ ∧
      createEncoderOfNative ⟨.bytes, some (.decimal ⟨4, 2⟩)⟩ timeRType =
        .ok (.bytesDecimalCodec 4 2) :=
  ⟨by decide, rfl, rfl, by decide, rfl⟩

end AvroCodec.Native
