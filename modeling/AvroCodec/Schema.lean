import AvroCodec.Go.Basic

namespace AvroCodec

/-! The two inputs of the native resolvers.  The schema: a primitive type and the
logical annotation it may carry.  The schema package itself is not among the
sources; which annotations its parser attaches is modelled from the
specification (§3, logical types). -/

inductive SchemaType
  | null
  | boolean
  | int
  | long
  | float
  | double
  | bytes
  | string
  deriving DecidableEq, Repr

def SchemaType.name : SchemaType → String
  | .null => "null"
  | .boolean => "boolean"
  | .int => "int"
  | .long => "long"
  | .float => "float"
  | .double => "double"
  | .bytes => "bytes"
  | .string => "string"

inductive LogicalType
  | decimal
  | uuid
  | date
  | timeMillis
  | timeMicros
  | timestampMillis
  | timestampMicros
  | duration
  deriving DecidableEq, Repr

structure DecimalLogicalSchema where
  prec : Int
  scale : Int
  deriving DecidableEq, Repr

/-- A `LogicalSchema`: a `*PrimitiveLogicalSchema` or a `*DecimalLogicalSchema`. -/
inductive LogicalSchema
  | primitive (typ : LogicalType)
  | decimal (dec : DecimalLogicalSchema)
  deriving DecidableEq, Repr

def LogicalSchema.type : LogicalSchema → LogicalType
  | .primitive typ => typ
  | .decimal _ => .decimal

/-- A `*PrimitiveSchema`: its type and its logical schema, `none` for `nil`. -/
structure PrimitiveSchema where
  typ : SchemaType
  logical : Option LogicalSchema
  deriving DecidableEq, Repr

/-- Modelled from the spec: the annotations the parser attaches to a primitive
type, `date` and `time-millis` on `int`, `time-micros` and the timestamps on
`long`, `uuid` on `string`, and `decimal` on `bytes` with `1 ≤ precision` and
`0 ≤ scale ≤ precision`; any other annotation is dropped. -/
def LogicalSchema.attachable (typ : SchemaType) : LogicalSchema → Bool
  | .primitive lt =>
      (typ = .int && (lt = .date || lt = .timeMillis)) ||
        (typ = .long && (lt = .timeMicros || lt = .timestampMillis || lt = .timestampMicros)) ||
        (typ = .string && lt = .uuid)
  | .decimal dec => typ = .bytes && 1 ≤ dec.prec && 0 ≤ dec.scale && dec.scale ≤ dec.prec

def PrimitiveSchema.Parsed (schema : PrimitiveSchema) : Prop :=
  schema.logical.all (·.attachable schema.typ) = true

instance (schema : PrimitiveSchema) : Decidable schema.Parsed :=
  inferInstanceAs (Decidable (_ = true))

theorem PrimitiveSchema.Parsed.decimal {schema : PrimitiveSchema}
    (hparsed : schema.Parsed) {ls : LogicalSchema} (hls : schema.logical = some ls)
    (hdecimal : ls.type = .decimal) : schema.typ = .bytes ∧ ∃ dec, ls = .decimal dec := by
  unfold Parsed at hparsed
  rw [hls] at hparsed
  cases ls with
  | primitive lt =>
      cases hdecimal
      cases schema.typ <;> simp [LogicalSchema.attachable] at hparsed
  | decimal dec =>
      simp [LogicalSchema.attachable] at hparsed
      exact ⟨hparsed.1.1.1, dec, rfl⟩

/-! The host types, as `reflect2.Type` shows them to the native resolvers: one
constructor per `reflect.Kind`, with the element types the resolvers look into,
and the defined types, such as `time.Duration`, over them.  The resolvers switch
on the kind, which is that of the underlying type, and compare struct types by
identity, which is all `RType()` compares. -/

inductive GoType
  | bool
  | int
  | int8
  | int16
  | int32
  | int64
  | uint
  | uint8
  | uint16
  | uint32
  | uint64
  | uintptr
  | float32
  | float64
  | complex64
  | complex128
  | array (len : Nat) (elem : GoType)
  | chan (elem : GoType)
  | func
  | interface
  | map (key elem : GoType)
  | ptr (elem : GoType)
  | slice (elem : GoType)
  | string
  | struct (name : String)
  | unsafePointer
  /-- A defined type: its name and the type it is defined over. -/
  | named (name : String) (underlying : GoType)
  deriving DecidableEq, Repr

/-- The underlying type, whose kind is `typ.Kind()`. -/
def GoType.underlying : GoType → GoType
  | .named _ typ => typ.underlying
  | typ => typ

@[simp] theorem GoType.underlying_underlying (typ : GoType) :
    typ.underlying.underlying = typ.underlying := by
  induction typ with
  | named _ _ ih => exact ih
  | _ => rfl

/-- `typ.String()`: a defined type prints its name. -/
def GoType.toString : GoType → String
  | .bool => "bool"
  | .int => "int"
  | .int8 => "int8"
  | .int16 => "int16"
  | .int32 => "int32"
  | .int64 => "int64"
  | .uint => "uint"
  | .uint8 => "uint8"
  | .uint16 => "uint16"
  | .uint32 => "uint32"
  | .uint64 => "uint64"
  | .uintptr => "uintptr"
  | .float32 => "float32"
  | .float64 => "float64"
  | .complex64 => "complex64"
  | .complex128 => "complex128"
  | .array len elem => "[" ++ Nat.repr len ++ "]" ++ elem.toString
  | .chan elem => "chan " ++ elem.toString
  | .func => "func()"
  | .interface => "interface {}"
  | .map key elem => "map[" ++ key.toString ++ "]" ++ elem.toString
  | .ptr elem => "*" ++ elem.toString
  | .slice elem => "[]" ++ elem.toString
  | .string => "string"
  | .struct name => name
  | .unsafePointer => "unsafe.Pointer"
  | .named name _ => name

theorem GoType.struct_or_ptr_or (typ : GoType) :
    (∃ name, typ.underlying = .struct name) ∨ (∃ elem, typ.underlying = .ptr elem) ∨
      ((∀ name, typ.underlying ≠ .struct name) ∧ ∀ elem, typ.underlying ≠ .ptr elem) := by
  cases typ.underlying with
  | struct name => exact .inl ⟨name, rfl⟩
  | ptr elem => exact .inr (.inl ⟨elem, rfl⟩)
  | _ => exact .inr (.inr ⟨fun _ => nofun, fun _ => nofun⟩)

def timeRType : GoType := .struct "time.Time"

def ratRType : GoType := .struct "big.Rat"

def durationType : GoType := .named "time.Duration" .int64

end AvroCodec
