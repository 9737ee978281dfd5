import Mathlib.Data.List.Basic

/-!
# IR vocabulary: handles, constants, types

Source: `koja-ir/src/types.rs`, `struct_decl.rs`, `enum_decl.rs`, `local.rs`, `mangling.rs`
and the `IRSymbol` of `function.rs`. The `u32` handles are natural numbers: no modelled pass
computes with them beyond taking the next one. Floating-point constants are kept as their
bit patterns.
-/
namespace Koja.Source.Ir

/-- `ValueId`, an SSA register. -/
abbrev ValueId := Nat
/-- `IRLocalId`, a storage slot. -/
abbrev IRLocalId := Nat
/-- `IRBlockId`. -/
abbrev IRBlockId := Nat

/-- `IRSymbol`: a mangled name. -/
structure IRSymbol where
  mangled : String
  deriving DecidableEq, Repr

namespace IRSymbol

def derived (symbol : IRSymbol) (suffix : String) : IRSymbol :=
  ⟨symbol.mangled ++ suffix⟩

def synthetic (mangled : String) : IRSymbol := ⟨mangled⟩

end IRSymbol

/-- `IRType`. `Int` is `int64` and `Float` is `float64`; `union` carries its canonical symbol
and its members in canonical order. -/
inductive IRType where
  | binary
  | bits
  | bool
  | cPtr (inner : IRType)
  | enum (symbol : IRSymbol)
  | float32
  | float64
  | function (params : List IRType) (ret : IRType)
  | indirect (inner : IRType)
  | int8
  | int16
  | int32
  | int64
  | list (element : IRType)
  | map (key value : IRType)
  | set (element : IRType)
  | string
  | struct (symbol : IRSymbol)
  | tuple (elements : List IRType)
  | uInt8
  | uInt16
  | uInt32
  | uInt64
  | union (mangled : IRSymbol) (members : List IRType)
  | unit
  deriving Repr

namespace IRType

mutual

/-- `mangle_type`. -/
def mangle : IRType → String
  | .binary => "Binary"
  | .bits => "Bits"
  | .bool => "Bool"
  | .cPtr inner => "CPtr_$" ++ mangle inner ++ "$"
  | .enum symbol => symbol.mangled
  | .float32 => "Float32"
  | .float64 => "Float64"
  | .function params ret =>
    "Fn_$" ++ ",".intercalate (mangleEach params) ++ ";" ++ mangle ret ++ "$"
  | .indirect inner => "Indirect_$" ++ mangle inner ++ "$"
  | .int8 => "Int8"
  | .int16 => "Int16"
  | .int32 => "Int32"
  | .int64 => "Int64"
  | .list element => "List_$" ++ mangle element ++ "$"
  | .map key value => "Map_$" ++ mangle key ++ "." ++ mangle value ++ "$"
  | .set element => "Set_$" ++ mangle element ++ "$"
  | .string => "String"
  | .struct symbol => symbol.mangled
  | .tuple elements => "Tuple_$" ++ ",".intercalate (mangleEach elements) ++ "$"
  | .uInt8 => "UInt8"
  | .uInt16 => "UInt16"
  | .uInt32 => "UInt32"
  | .uInt64 => "UInt64"
  | .union mangled _ => mangled.mangled
  | .unit => "Unit"

/-- The `iter().map(mangle_type)` of a type list. -/
def mangleEach : List IRType → List String
  | [] => []
  | ty :: rest => mangle ty :: mangleEach rest

end

end IRType

/-- `render_type_args`. -/
def renderTypeArgs (args : List IRType) : String :=
  "_$" ++ ".".intercalate (IRType.mangleEach args) ++ "$"

/-- `mangled_type_name`: no arguments leave the symbol as it is. -/
def mangledTypeName (symbol : IRSymbol) (args : List IRType) : IRSymbol :=
  if args.isEmpty then symbol else symbol.derived (renderTypeArgs args)

/-- `union_mangle`. -/
def unionMangle (members : List IRType) : IRSymbol :=
  .synthetic ("Union_" ++ "_or_".intercalate (IRType.mangleEach members))

/-- `ConstValue`. -/
inductive ConstValue where
  | binary (bytes : List UInt8)
  | bits (bytes : List UInt8) (bitLength : UInt64)
  | bool (value : Bool)
  | float32 (pattern : UInt32)
  | float64 (pattern : UInt64)
  | int8 (value : Int8)
  | int16 (value : Int16)
  | int32 (value : Int32)
  | int64 (value : Int64)
  | string (value : String)
  | uInt8 (value : UInt8)
  | uInt16 (value : UInt16)
  | uInt32 (value : UInt32)
  | uInt64 (value : UInt64)
  | unit
  deriving DecidableEq, Repr

inductive IRBinOp where
  | add | div | eq | gt | gtEq | lt | ltEq | mod | mul | notEq | sub
  deriving DecidableEq, Repr

inductive IRUnaryOp where
  | neg | not
  deriving DecidableEq, Repr

inductive ConcatKind where
  | binary | bits | string
  deriving DecidableEq, Repr

inductive BinaryEndian where
  | big | little
  deriving DecidableEq, Repr

inductive BinarySign where
  | signed | unsigned
  deriving DecidableEq, Repr

structure ResolvedBinaryLayout where
  totalBits : UInt64
  byteAligned : Bool
  deriving DecidableEq, Repr

/-- `LoweredBinarySegment`, an evaluated segment of a `<<...>>` literal. -/
inductive LoweredBinarySegment where
  | integer (value : ValueId) (width : UInt64) (sign : BinarySign) (endian : BinaryEndian)
      (bitOffset : UInt64)
  | float (value : ValueId) (width : UInt64) (endian : BinaryEndian) (bitOffset : UInt64)
  | string (value : ValueId) (byteLength bitOffset : UInt64)
  deriving DecidableEq, Repr

/-- `LoweredBinaryPattern`. A `bindInt` and a `greedyTail` with a slot write that slot when
the match succeeds. -/
inductive LoweredBinaryPattern where
  | literalInt (bitOffset : UInt64) (endian : BinaryEndian) (sign : BinarySign) (value : Int)
      (width : UInt64)
  | literalBytes (bitOffset : UInt64) (bytes : List UInt8)
  | bindInt (bitOffset : UInt64) (endian : BinaryEndian) (slot : IRLocalId) (sign : BinarySign)
      (ty : IRType) (width : UInt64)
  | discard (bitOffset width : UInt64)
  | greedyTail (bitOffset : UInt64) (slot : Option IRLocalId) (ty : IRType)
  deriving Repr

/-- The slot a binary segment pattern binds. -/
def LoweredBinaryPattern.slot : LoweredBinaryPattern → Option IRLocalId
  | .bindInt _ _ slot .. => some slot
  | .greedyTail _ slot _ => slot
  | .discard .. | .literalBytes .. | .literalInt .. => none

structure LoweredBinaryMatchLayout where
  fixedBits : UInt64
  hasGreedyTail : Bool
  deriving DecidableEq, Repr

/-- `IRVariantTag`, a variant's position as a `u8`. -/
abbrev IRVariantTag := UInt8

/-- `StructFieldInit`. -/
structure StructFieldInit where
  index : Nat
  value : ValueId
  deriving DecidableEq, Repr

/-- `EnumPayloadInit`. -/
inductive EnumPayloadInit where
  | struct (fields : List StructFieldInit)
  | tuple (values : List ValueId)
  | unit
  deriving DecidableEq, Repr

/-- `IREnumVariant`; the payload's layout is not read by a modelled pass. -/
structure IREnumVariant where
  name : String
  tag : IRVariantTag
  deriving DecidableEq, Repr

/-- `IREnumDecl`. -/
structure IREnumDecl where
  symbol : IRSymbol
  variants : List IREnumVariant
  deriving DecidableEq, Repr

end Koja.Source.Ir
