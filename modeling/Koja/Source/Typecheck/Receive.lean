import Koja.Source.Typecheck.Types

/-!
# Resolution of `receive`

Source: `koja-typecheck/src/pipeline/resolve/process.rs` (`resolve_receive`,
`resolve_receive_arm`, `bind_receive_pattern`, `message_includes_exit_signal`). What is resolved
inside a guard, a body or the `after` clause is left to the surrounding passes: the rules here
are the ones that decide which arms a `receive` may have.
-/
namespace Koja.Source.Typecheck

/-- The pattern of a receive arm, with its annotation already resolved. -/
inductive ReceivePattern where
  | typedBinding (localId : LocalId) (resolvedType : ResolvedType)
  | other
  deriving Repr

/-- A `MatchArm` under `receive`, as far as this pass and lowering tell arms apart. -/
structure ReceiveSourceArm where
  pattern : ReceivePattern
  guarded : Bool
  deriving Repr

/-- The diagnostics of `resolve_receive` and `bind_receive_pattern`. An annotation that did not
resolve has been reported by `resolve_type_expr`. -/
inductive ReceiveError where
  | noArms
  | notTypedBinding
  | unresolvedType
  | unsupportedEnvelope (got : ResolvedType)
  deriving Repr

/-- The texts, over the display of a type. -/
def ReceiveError.message (display : ResolvedType → String) : ReceiveError → Option String
  | .noArms => some "`receive` requires at least one arm"
  | .notTypedBinding => some ("receive arms must use a typed-binding pattern " ++
      "(`name: (M, Option<ReplyTo<R>>)` or `name: Lifecycle`)")
  | .unresolvedType => none
  | .unsupportedEnvelope got => some ("receive only supports business " ++
      "(`(M, Option<ReplyTo<R>>)`) and lifecycle (`Lifecycle`) arms (got `" ++ display got ++ "`)")

/-- `is_business_envelope`: `(_, Option<ReplyTo<_>>)`. -/
def isBusinessEnvelope (registry : GlobalRegistry) : ResolvedType → Bool
  | .tuple [_, .named (.global optionId) [.named (.global replyId) [_]]] =>
    registry.isGlobalType optionId ["Option"] && registry.isGlobalType replyId ["ReplyTo"]
  | _ => false

/-- `is_lifecycle`. -/
def isLifecycle (registry : GlobalRegistry) (ty : ResolvedType) : Bool :=
  registry.matchesGlobal ["Process", "Lifecycle"] 0 ty

/-- `bind_receive_pattern`. -/
def bindReceivePattern (registry : GlobalRegistry) :
    ReceivePattern → Except ReceiveError ResolvedType
  | .other => .error .notTypedBinding
  | .typedBinding _ resolved =>
    if !resolved.isResolved then .error .unresolvedType
    else if !isBusinessEnvelope registry resolved && !isLifecycle registry resolved then
      .error (.unsupportedEnvelope resolved)
    else .ok resolved

/-- The diagnostics `resolve_receive` reports for its arms; none means that it accepts them. -/
def resolveReceive (registry : GlobalRegistry) (arms : List ReceiveSourceArm) :
    List ReceiveError :=
  if arms.isEmpty then [.noArms]
  else arms.filterMap fun arm =>
    match bindReceivePattern registry arm.pattern with
    | .error diagnostic => some diagnostic
    | .ok _ => none

/-- `message_includes_exit_signal`, over the path of the payload type: the message type is the
payload type, or a union (possibly behind an alias) with such a member. -/
inductive MessageIncludes (registry : GlobalRegistry) (path : List String) : ResolvedType → Prop
  | exact {ty : ResolvedType} {id : GlobalRegistryId}
      (peeled : registry.peelAlias ty = .named (.global id) [])
      (named : registry.isGlobalType id path) : MessageIncludes registry path ty
  | member {ty member : ResolvedType} {members : List ResolvedType}
      (peeled : registry.peelAlias ty = .union members) (among : member ∈ members)
      (included : MessageIncludes registry path member) : MessageIncludes registry path ty

theorem accepted_arm {registry : GlobalRegistry} {arms : List ReceiveSourceArm}
    (accepted : resolveReceive registry arms = []) {arm : ReceiveSourceArm} (mem : arm ∈ arms) :
    ∃ localId ty, arm.pattern = .typedBinding localId ty ∧
      (isBusinessEnvelope registry ty = true ∨ isLifecycle registry ty = true) := by
  unfold resolveReceive at accepted
  split at accepted
  · cases accepted
  · have silent := List.filterMap_eq_nil_iff.mp accepted arm mem
    cases shape : arm.pattern with
    | other => simp [shape, bindReceivePattern] at silent
    | typedBinding localId ty =>
      refine ⟨localId, ty, rfl, ?_⟩
      by_cases business : isBusinessEnvelope registry ty = true
      · exact .inl business
      · by_cases lifecycle : isLifecycle registry ty = true
        · exact .inr lifecycle
        · rw [shape] at silent
          unfold bindReceivePattern at silent
          by_cases resolved : ty.isResolved = true <;> simp_all

end Koja.Source.Typecheck
