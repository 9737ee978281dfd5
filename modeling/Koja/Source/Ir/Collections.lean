/-!
# Calls of the collection intrinsics

Source: `ListMethod`, `MapMethod`, `SetMethod`, `ConsumingMethod` of `koja-ir/src/intrinsic_id.rs`.
A call is a method with its arguments past the receiver. A mutator's copying form and its
`ConsumingMethod` twin are one call with a `CallMode`.
-/
namespace Koja.Source.Ir

/-- Whether a mutator copies its receiver or takes its buffers over. -/
inductive CallMode where
  | copying | consuming
  deriving DecidableEq, Repr

/-- A call of a `List<T>` method. An `Int` argument is its 64 bits. -/
inductive ListCall (T : Type) where
  | append (mode : CallMode) (item : T)
  | concat (other : List T)
  | emptyQ
  | fromList (items : List T)
  | get (index : BitVec 64)
  | length
  | new
  | pop
  | replaceAt (index : BitVec 64) (value : T)
  | slice (start count : BitVec 64)

/-- A call of a `Map<K, V>` method. -/
inductive MapCall (K V : Type) where
  | emptyQ
  | get (key : K)
  | hasQ (key : K)
  | length
  | new
  | next (cursor : Int)
  | put (mode : CallMode) (key : K) (value : V)
  | remove (key : K)

/-- A call of a `Set<T>` method. -/
inductive SetCall (T : Type) where
  | emptyQ
  | fromList (items : List T)
  | hasQ (item : T)
  | insert (mode : CallMode) (item : T)
  | length
  | new
  | next (cursor : Int)
  | remove (item : T)

/-- What a collection call answers besides the collection itself. -/
inductive Answer (V E : Type) where
  | collection
  | value (found : Option V)
  | bool (holds : Bool)
  | int (count : Int)
  | next (found : Option (E × Int))
  deriving DecidableEq

end Koja.Source.Ir
