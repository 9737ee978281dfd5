import Koja.Source.Typecheck.Types

/-!
# Mangled symbols

Source: `koja-ir/src/mangling.rs`, with the consuming twin of `koja-ir/src/elaborate/consume.rs`.
`mangle_type`, `render_type_args`, `mangled_type_name` and `union_mangle` stand beside the IR
types they are defined on.
-/
namespace Koja.Source.Ir

open Koja.Source.Typecheck

/-- `source_function_symbol`. -/
def sourceFunctionSymbol (identifier : Identifier) (arity : Nat) : IRSymbol :=
  (symbolOf identifier).derived ("/" ++ toString arity)

/-- `mangled_function_name`. -/
def mangledFunctionName (symbol : IRSymbol) (args : List IRType) : IRSymbol :=
  mangledTypeName symbol args

/-- `mangled_method_name`. -/
def mangledMethodName (structTemplate : IRSymbol) (receiverArgs : List IRType)
    (methodName : String) (arity : Nat) (methodArgs : List IRType) : IRSymbol :=
  let receiver := mangledTypeName structTemplate receiverArgs
  let method := "." ++ methodName ++ "/" ++ toString arity
  let suffix := if methodArgs.isEmpty then method else method ++ renderTypeArgs methodArgs
  receiver.derived suffix

/-- `glue_base`: the symbol the glue of a type hangs off. -/
def glueBase : IRType → IRSymbol
  | .enum symbol => symbol
  | .struct symbol => symbol
  | .union mangled _ => mangled
  | other => .synthetic other.mangle

/-- A synthesized function of a type: its base and a fenced suffix. -/
def typeGlueSymbol (suffix : String) (ty : IRType) : IRSymbol :=
  (glueBase ty).derived suffix

variable (ty : IRType)

/-- `clone_glue_symbol`. -/
def cloneGlueSymbol : IRSymbol := typeGlueSymbol ".$clone$" ty

/-- `deep_copy_glue_symbol`. -/
def deepCopyGlueSymbol : IRSymbol := typeGlueSymbol ".$deep_copy$" ty

/-- `drop_glue_symbol`. -/
def dropGlueSymbol : IRSymbol := typeGlueSymbol ".$drop$" ty

/-- `envelope_drop_glue_symbol`. -/
def envelopeDropGlueSymbol : IRSymbol := typeGlueSymbol ".$envdrop$" ty

/-- `envelope_copy_glue_symbol`. -/
def envelopeCopyGlueSymbol : IRSymbol := typeGlueSymbol ".$envcopy$" ty

/-- `closure_drop_env_symbol`. -/
def closureDropEnvSymbol (body : IRSymbol) : IRSymbol := body.derived ".$drop_env$"

/-- `closure_copy_env_symbol`. -/
def closureCopyEnvSymbol (body : IRSymbol) : IRSymbol := body.derived ".$copy_env$"

/-- `closure_eq_env_symbol`. -/
def closureEqEnvSymbol (body : IRSymbol) : IRSymbol := body.derived ".$eq_env$"

/-- The symbol of the consuming twin of an intrinsic method. -/
def consumeTwinSymbol (original : IRSymbol) : IRSymbol := original.derived ".$consume$"

end Koja.Source.Ir
