import Mathlib.Data.List.Forall2
import Koja.Source.Ir.Receive

/-!
# Receive dispatch

Which tags the dispatch chain of a compiled `receive` has an arm for, compared with the tags the
runtime can hand to the process. Lowering gives an arm the tag of its annotation, and the
delivery pass adds at most one arm per kind, from the first business arm alone. Nothing makes a
source `receive` name both envelopes, and nothing ties the message type of its business arm to
the process that runs it.
-/
namespace Koja.Guarantees.Ir

open Koja.Source.Ir Koja.Source.Typecheck List

/-- The wire tags `koja_rt_receive` can return to a process with message type `message`. -/
inductive Deliverable (registry : GlobalRegistry) (message : ResolvedType) : ReceiveTag → Prop
  | business : Deliverable registry message .business
  | lifecycle : Deliverable registry message .lifecycle
  | delivered (kind : DeliveryKind) (included : MessageIncludes registry kind.path message) :
      Deliverable registry message kind.tag

/-- Some arm of the source `receive` binds a business envelope. -/
def HasBusinessArm (registry : GlobalRegistry) (arms : List ReceiveSourceArm) : Prop :=
  ∃ arm ∈ arms, ∃ localId ty, arm.pattern = .typedBinding localId ty ∧
    isBusinessEnvelope registry ty = true

/-- Some arm of the source `receive` binds a lifecycle event. -/
def HasLifecycleArm (registry : GlobalRegistry) (arms : List ReceiveSourceArm) : Prop :=
  ∃ arm ∈ arms, ∃ localId ty, arm.pattern = .typedBinding localId ty ∧
    isLifecycle registry ty = true

/-- A lowered message type the payload of a kind can be put into. A bare `IO.Ready` is not one,
a bare `Process.ExitSignal` is. -/
def Admits (messageType : IRType) : DeliveryKind → Prop
  | .ioReady => ∃ mangled members, messageType = .union mangled members ∧
      .enum ioReadySymbol ∈ members
  | .exitSignal => messageType = .struct exitSignalSymbol ∨
      ∃ mangled members, messageType = .union mangled members ∧ .struct exitSignalSymbol ∈ members

/-- The first business arm takes messages the payload of the kind can be put into, paired with
an `Option` whose declaration is registered. -/
def FirstBusinessAdmits (packages : List IRPackage) (arms : List ReceiveArm)
    (kind : DeliveryKind) : Prop :=
  ∃ arm messageType option decl, arms.find? (fun arm => arm.tag = .business) = some arm ∧
    arm.payloadType = .tuple [messageType, .enum option] ∧
    findEnum packages option = some decl ∧
    (∃ variant ∈ decl.variants, variant.name = optionNoneVariant) ∧ Admits messageType kind

theorem wireByte_injective {first second : ReceiveTag} (same : first.wireByte = second.wireByte) :
    first = second := by
  cases first <;> cases second <;> first | rfl | exact absurd same (by decide)

/-- The chain falls through exactly when no arm has the tag. -/
theorem dispatchArms_isSome (arms : List ReceiveArm) (tag : ReceiveTag) :
    dispatchArms arms tag.wireByte ≠ none ↔ ∃ arm ∈ arms, arm.tag = tag := by
  unfold dispatchArms
  rw [ne_eq, find?_eq_none]
  constructor
  · intro reached
    push Not at reached
    obtain ⟨arm, mem, same⟩ := reached
    exact ⟨arm, mem, wireByte_injective (by simpa using same)⟩
  · rintro ⟨arm, mem, rfl⟩ silent
    exact silent arm mem (by simp)

section Lowering

variable {registry : GlobalRegistry} {fuel : Nat} {instantiation : Instantiation}
  {ty : ResolvedType}

/-- Substituting type parameters leaves a business envelope a pair. -/
theorem substitute_pair (pair : isEnvelopePair ty = true)
    (args : List ResolvedType) (owner : GlobalRegistryId) :
    isEnvelopePair (ty.substitute args owner) = true := by
  unfold isEnvelopePair at pair
  split at pair
  · simp [ResolvedType.substitute, ResolvedType.substituteEach, isEnvelopePair]
  · cases pair

theorem instantiate_pair (pair : isEnvelopePair ty = true) :
    isEnvelopePair (instantiate instantiation ty) = true := by
  induction instantiation generalizing ty with
  | nil => exact pair
  | cons _ _ ih => exact ih (substitute_pair pair _ _)

/-- A type without type arguments whose head is global is left as it is. -/
theorem instantiate_global (id : GlobalRegistryId) :
    instantiate instantiation (.named (.global id) []) = .named (.global id) [] := by
  unfold instantiate
  induction instantiation with
  | nil => rfl
  | cons _ _ ih => simpa [ResolvedType.substitute, ResolvedType.substituteEach] using ih

theorem isLifecycle_shape (lifecycle : isLifecycle registry ty = true) :
    ∃ id, ty = .named (.global id) [] := by
  unfold isLifecycle GlobalRegistry.matchesGlobal at lifecycle
  split at lifecycle
  · rename_i id typeArgs
    simp only [Bool.and_eq_true, decide_eq_true_eq, length_eq_zero_iff] at lifecycle
    exact ⟨id, by rw [lifecycle.1]⟩
  · cases lifecycle

theorem businessEnvelope_pair (business : isBusinessEnvelope registry ty = true) :
    isEnvelopePair ty = true := by
  unfold isBusinessEnvelope at business
  split at business
  · rfl
  · cases business

theorem pair_not_lifecycle (pair : isEnvelopePair ty = true) : isLifecycle registry ty = false := by
  unfold isEnvelopePair at pair
  split at pair
  · rfl
  · cases pair

theorem receiveTagFor_pair (pair : isEnvelopePair ty = true) :
    receiveTagFor registry (instantiate instantiation ty) = some .business := by
  unfold receiveTagFor
  rw [pair_not_lifecycle (instantiate_pair pair), instantiate_pair pair]
  rfl

theorem receiveTagFor_lifecycle (lifecycle : isLifecycle registry ty = true) :
    receiveTagFor registry (instantiate instantiation ty) = some .lifecycle := by
  obtain ⟨id, rfl⟩ := isLifecycle_shape lifecycle
  unfold receiveTagFor
  rw [instantiate_global, lifecycle]
  rfl

theorem lowerReceiveArm_tag {body : IRBlockId} {arm : ReceiveSourceArm} {lowered : ReceiveArm}
    (run : lowerReceiveArm registry fuel instantiation body arm = some lowered) :
    ∃ localId ty, arm.pattern = .typedBinding localId ty ∧
      receiveTagFor registry (instantiate instantiation ty) = some lowered.tag := by
  unfold lowerReceiveArm at run
  split at run
  · cases run
  · rename_i localId ty shape
    refine ⟨localId, ty, shape, ?_⟩
    simp only [Option.bind_eq_bind, Option.bind_eq_some_iff] at run
    obtain ⟨payloadType, _, tag, tagged, built⟩ := run
    split at built
    · cases built
    · cases built
      exact tagged

/-- Source arms and lowered arms correspond one to one, in order. -/
theorem lowerReceiveArms_forall {arms : List (IRBlockId × ReceiveSourceArm)}
    {lowered : List ReceiveArm}
    (run : lowerReceiveArms registry fuel instantiation arms = some lowered) :
    List.Forall₂ (fun source target =>
      lowerReceiveArm registry fuel instantiation source.1 source.2 = some target)
      arms lowered := by
  induction arms generalizing lowered with
  | nil =>
    cases run
    exact .nil
  | cons first _ ih =>
    simp only [lowerReceiveArms, Option.bind_eq_bind, Option.bind_eq_some_iff] at run
    obtain ⟨target, head, others, tail, built⟩ := run
    cases built
    exact .cons head (ih tail)

end Lowering

section Accepted

variable {registry : GlobalRegistry} {fuel : Nat} {instantiation : Instantiation}
  {arms : List (IRBlockId × ReceiveSourceArm)} {lowered : List ReceiveArm}

/-- An accepted arm is lowered to the tag of the envelope it binds. -/
theorem accepted_lowered (accepted : resolveReceive registry (arms.map (·.2)) = [])
    (run : lowerReceiveArms registry fuel instantiation arms = some lowered)
    {target : ReceiveArm} (mem : target ∈ lowered) :
    (target.tag = .business ∧ HasBusinessArm registry (arms.map (·.2))) ∨
      (target.tag = .lifecycle ∧ HasLifecycleArm registry (arms.map (·.2))) := by
  obtain ⟨index, bound, rfl⟩ := getElem_of_mem mem
  have pairs := lowerReceiveArms_forall run
  have within : index < arms.length := pairs.length_eq ▸ bound
  have among : arms[index].2 ∈ arms.map (·.2) := mem_map_of_mem (getElem_mem within)
  obtain ⟨localId, ty, shape, tagged⟩ := lowerReceiveArm_tag (pairs.get within bound)
  obtain ⟨_, ty', shape', kinds⟩ := accepted_arm accepted among
  obtain ⟨rfl, rfl⟩ := ReceivePattern.typedBinding.inj (shape.symm.trans shape')
  rcases kinds with business | lifecycle
  · rw [receiveTagFor_pair (businessEnvelope_pair business)] at tagged
    exact .inl ⟨(Option.some.inj tagged).symm, _, among, _, ty, shape, business⟩
  · rw [receiveTagFor_lifecycle lifecycle] at tagged
    exact .inr ⟨(Option.some.inj tagged).symm, _, among, _, ty, shape, lifecycle⟩

theorem source_lowered (run : lowerReceiveArms registry fuel instantiation arms = some lowered)
    {source : ReceiveSourceArm} (mem : source ∈ arms.map (·.2)) {localId : LocalId}
    {ty : ResolvedType} (shape : source.pattern = .typedBinding localId ty) :
    ∃ target ∈ lowered,
      receiveTagFor registry (instantiate instantiation ty) = some target.tag := by
  obtain ⟨index, bound, rfl⟩ := getElem_of_mem mem
  have pairs := lowerReceiveArms_forall run
  rw [length_map] at bound
  have within : index < lowered.length := pairs.length_eq ▸ bound
  obtain ⟨_, ty', shape', tagged⟩ := lowerReceiveArm_tag (pairs.get bound within)
  rw [getElem_map] at shape
  obtain ⟨rfl, rfl⟩ := ReceivePattern.typedBinding.inj (shape.symm.trans shape')
  exact ⟨_, getElem_mem within, tagged⟩

theorem lowered_business_iff (accepted : resolveReceive registry (arms.map (·.2)) = [])
    (run : lowerReceiveArms registry fuel instantiation arms = some lowered) :
    (∃ arm ∈ lowered, arm.tag = .business) ↔ HasBusinessArm registry (arms.map (·.2)) := by
  constructor
  · rintro ⟨target, mem, tagged⟩
    rcases accepted_lowered accepted run mem with ⟨_, present⟩ | ⟨other, _⟩
    · exact present
    · rw [tagged] at other
      cases other
  · rintro ⟨source, mem, localId, ty, shape, business⟩
    obtain ⟨target, among, tagged⟩ := source_lowered run mem shape
    rw [receiveTagFor_pair (businessEnvelope_pair business)] at tagged
    exact ⟨target, among, (Option.some.inj tagged).symm⟩

theorem lowered_lifecycle_iff (accepted : resolveReceive registry (arms.map (·.2)) = [])
    (run : lowerReceiveArms registry fuel instantiation arms = some lowered) :
    (∃ arm ∈ lowered, arm.tag = .lifecycle) ↔ HasLifecycleArm registry (arms.map (·.2)) := by
  constructor
  · rintro ⟨target, mem, tagged⟩
    rcases accepted_lowered accepted run mem with ⟨other, _⟩ | ⟨_, present⟩
    · rw [tagged] at other
      cases other
    · exact present
  · rintro ⟨source, mem, localId, ty, shape, lifecycle⟩
    obtain ⟨target, among, tagged⟩ := source_lowered run mem shape
    rw [receiveTagFor_lifecycle lifecycle] at tagged
    exact ⟨target, among, (Option.some.inj tagged).symm⟩

theorem lowered_undelivered (accepted : resolveReceive registry (arms.map (·.2)) = [])
    (run : lowerReceiveArms registry fuel instantiation arms = some lowered) (kind : DeliveryKind)
    {arm : ReceiveArm} (mem : arm ∈ lowered) :
    arm.tag ≠ kind.tag := by
  rcases accepted_lowered accepted run mem with ⟨tagged, _⟩ | ⟨tagged, _⟩ <;>
    cases kind <;> rw [tagged] <;> decide

end Accepted

section Delivery

variable {packages : List IRPackage}

theorem isIoReady_iff (ty : IRType) : isIoReady ty = true ↔ ty = .enum ioReadySymbol := by
  cases ty <;> simp [isIoReady]

theorem isExitSignal_iff (ty : IRType) :
    isExitSignal ty = true ↔ ty = .struct exitSignalSymbol := by
  cases ty <;> simp [isExitSignal]

/-- A payload is put into a union exactly when a member is it. -/
theorem injectUnionMember_isSome (messageType : IRType) (isPayload : IRType → Bool) :
    (injectUnionMember messageType isPayload).isSome = true ↔
      ∃ mangled members, messageType = .union mangled members ∧
        ∃ member ∈ members, isPayload member = true := by
  unfold injectUnionMember
  split
  · rename_i mangled members
    cases found : members.findIdx? isPayload with
    | none =>
      have absent := findIdx?_eq_none_iff.mp found
      simp only [Option.bind_eq_bind, Option.bind_none, Option.isSome_none, Bool.false_eq_true,
        false_iff]
      rintro ⟨_, members', same, member, among, payload⟩
      cases same
      rw [absent member among] at payload
      cases payload
    | some =>
      obtain ⟨bound, payload, _⟩ := findIdx?_eq_some_iff_getElem.mp found
      simp only [Option.bind_eq_bind, Option.bind_some, getElem?_eq_getElem bound,
        Option.pure_def, Option.isSome_some, true_iff]
      exact ⟨mangled, members, rfl, _, getElem_mem bound, payload⟩
  · rename_i notUnion
    simp only [Option.isSome_none, Bool.false_eq_true, false_iff]
    rintro ⟨mangled, members, same, _⟩
    exact notUnion mangled members same

theorem resolve_isSome (messageType : IRType) (kind : DeliveryKind) :
    (kind.resolve messageType).isSome = true ↔ Admits messageType kind := by
  cases kind with
  | ioReady =>
    simp only [DeliveryKind.resolve, injectUnionMember_isSome, isIoReady_iff, Admits,
      exists_eq_right]
  | exitSignal =>
    simp only [DeliveryKind.resolve, Admits]
    by_cases direct : isExitSignal messageType = true
    · rw [if_pos direct]
      exact ⟨fun _ => .inl ((isExitSignal_iff messageType).mp direct), fun _ => rfl⟩
    · rw [if_neg direct]
      rw [isExitSignal_iff] at direct
      simp only [injectUnionMember_isSome, isExitSignal_iff, exists_eq_right, direct, false_or]

/-- An arm is synthesized exactly when the first business arm admits the payload. -/
theorem resolveSynthesis_isSome {arms : List ReceiveArm} {kind : DeliveryKind}
    (absent : ∀ arm ∈ arms, arm.tag ≠ kind.tag) :
    (resolveSynthesis packages arms kind).isSome = true ↔
      FirstBusinessAdmits packages arms kind := by
  have unmatched : (arms.any fun arm => arm.tag = kind.tag) = false := by
    simpa using absent
  unfold resolveSynthesis resolveBusinessEnvelope FirstBusinessAdmits
  rw [unmatched]
  cases found : arms.find? fun arm => arm.tag = .business with
  | none => simp
  | some business =>
    simp only [Bool.false_eq_true, if_false, Option.bind_eq_bind, Option.bind_some,
      Option.some.injEq]
    split
    · rename_i messageType option payload
      constructor
      · intro resolved
        cases declared : findEnum packages option with
        | none => simp [declared] at resolved
        | some decl =>
          cases variant : decl.variants.find? fun variant => variant.name = optionNoneVariant with
          | none => simp [declared, variant] at resolved
          | some noneVariant =>
            refine ⟨business, messageType, option, decl, rfl, payload, declared,
              ⟨noneVariant, mem_of_find?_eq_some variant, ?_⟩, ?_⟩
            · simpa using find?_some variant
            · rw [← resolve_isSome]
              cases injected : kind.resolve messageType with
              | none => simp [declared, variant, injected] at resolved
              | some => rfl
      · rintro ⟨arm, messageType', option', decl, rfl, payload', declared, ⟨variant, among, named⟩,
          admits⟩
        rw [payload] at payload'
        cases payload'
        obtain ⟨noneVariant, seen⟩ := Option.isSome_iff_exists.mp
          ((find?_isSome (p := fun variant => variant.name = optionNoneVariant)).mpr
            ⟨variant, among, by simpa using named⟩)
        obtain ⟨pair, injected⟩ := Option.isSome_iff_exists.mp
          ((resolve_isSome messageType kind).mpr admits)
        simp [declared, seen, injected]
    · rename_i other
      simp only [Option.bind_none, Option.isSome_none, Bool.false_eq_true, false_iff]
      rintro ⟨arm, messageType, option, _, rfl, payload, _⟩
      exact other messageType option payload

theorem deliver_tags (arms : List ReceiveArm) (kind : DeliveryKind) (body : IRBlockId)
    (payloadLocal : IRLocalId) (tag : ReceiveTag) :
    (∃ arm ∈ deliver packages kind body payloadLocal arms, arm.tag = tag) ↔
      (∃ arm ∈ arms, arm.tag = tag) ∨
        (tag = kind.tag ∧ (resolveSynthesis packages arms kind).isSome = true) := by
  unfold deliver
  split
  · rename_i unresolved
    simp [unresolved]
  · rename_i synthesis resolved
    simp only [mem_append, mem_singleton, or_and_right, exists_or, exists_eq_left,
      resolved, Option.isSome_some, and_true]
    rw [eq_comm (a := tag)]

/-- A delivery arm comes last, so the first business arm stays the same. -/
theorem deliver_firstBusiness (arms : List ReceiveArm) (kind : DeliveryKind) (body : IRBlockId)
    (payloadLocal : IRLocalId) :
    (deliver packages kind body payloadLocal arms).find? (fun arm => arm.tag = .business) =
      arms.find? (fun arm => arm.tag = .business) := by
  unfold deliver
  split
  · rfl
  · cases kind <;> simp [DeliveryKind.tag]

end Delivery

/-- The tags after elaboration: those of the source arms, and in a package function each kind the
first business arm admits. -/
theorem elaborateArms_tags {packages : List IRPackage} {arms : List ReceiveArm}
    (undelivered : ∀ kind : DeliveryKind, ∀ arm ∈ arms, arm.tag ≠ kind.tag)
    (site : ReceiveSite) (ids : DeliveryIds) (tag : ReceiveTag) :
    (∃ arm ∈ elaborateArms packages site ids arms, arm.tag = tag) ↔
      (∃ arm ∈ arms, arm.tag = tag) ∨ ∃ kind : DeliveryKind, tag = kind.tag ∧
        site = .packageFunction ∧ FirstBusinessAdmits packages arms kind := by
  cases site with
  | scriptBody => simp [elaborateArms]
  | packageFunction =>
    have later : ∀ arm ∈ deliver packages .ioReady ids.ioReadyBody ids.ioReadyLocal arms,
        arm.tag ≠ DeliveryKind.exitSignal.tag := by
      intro arm mem same
      have present := (deliver_tags arms _ _ _ _).mp ⟨arm, mem, same⟩
      rcases present with ⟨source, among, tagged⟩ | ⟨tagged, _⟩
      · exact undelivered .exitSignal source among tagged
      · cases tagged
    unfold elaborateArms
    simp only [deliver_tags, resolveSynthesis_isSome later,
      resolveSynthesis_isSome (undelivered .ioReady), true_and]
    have kept : FirstBusinessAdmits packages
        (deliver packages .ioReady ids.ioReadyBody ids.ioReadyLocal arms) .exitSignal ↔
        FirstBusinessAdmits packages arms .exitSignal := by
      unfold FirstBusinessAdmits
      rw [deliver_firstBusiness]
    rw [kept, or_assoc]
    refine or_congr_right ⟨?_, ?_⟩
    · rintro (⟨tagged, admits⟩ | ⟨tagged, admits⟩)
      · exact ⟨.ioReady, tagged, admits⟩
      · exact ⟨.exitSignal, tagged, admits⟩
    · rintro ⟨kind, tagged, admits⟩
      cases kind with
      | ioReady => exact .inl ⟨tagged, admits⟩
      | exitSignal => exact .inr ⟨tagged, admits⟩

/-- A compiled `receive` has an arm for every tag its process can be handed exactly when the
source names both envelopes and, for each kind of event the process's message type includes, the
`receive` stands in a package function and its first business arm admits that event. -/
theorem receive_dispatch_total_iff {registry : GlobalRegistry} {fuel : Nat}
    {instantiation : Instantiation} {arms : List (IRBlockId × ReceiveSourceArm)}
    {lowered : List ReceiveArm} (accepted : resolveReceive registry (arms.map (·.2)) = [])
    (run : lowerReceiveArms registry fuel instantiation arms = some lowered)
    (packages : List IRPackage) (site : ReceiveSite) (ids : DeliveryIds) (message : ResolvedType) :
    (∀ tag, Deliverable registry message tag →
      dispatchArms (elaborateArms packages site ids lowered) tag.wireByte ≠ none) ↔
    HasBusinessArm registry (arms.map (·.2)) ∧ HasLifecycleArm registry (arms.map (·.2)) ∧
      ∀ kind : DeliveryKind, MessageIncludes registry kind.path message →
        site = .packageFunction ∧ FirstBusinessAdmits packages lowered kind := by
  have undelivered : ∀ kind : DeliveryKind, ∀ arm ∈ lowered, arm.tag ≠ kind.tag :=
    fun kind _ mem => lowered_undelivered accepted run kind mem
  simp only [dispatchArms_isSome, elaborateArms_tags undelivered]
  constructor
  · intro total
    refine ⟨?_, ?_, fun kind included => ?_⟩
    · rw [← lowered_business_iff accepted run]
      rcases total _ .business with present | ⟨kind, tagged, _⟩
      · exact present
      · cases kind <;> cases tagged
    · rw [← lowered_lifecycle_iff accepted run]
      rcases total _ .lifecycle with present | ⟨kind, tagged, _⟩
      · exact present
      · cases kind <;> cases tagged
    · rcases total _ (.delivered kind included) with ⟨arm, mem, tagged⟩ | ⟨kind', tagged, rest⟩
      · exact absurd tagged (undelivered kind arm mem)
      · have same : kind = kind' := by
          cases kind <;> cases kind' <;> first | rfl | cases tagged
        exact same ▸ rest
  · rintro ⟨business, lifecycle, admitted⟩ tag deliverable
    cases deliverable with
    | business => exact .inl ((lowered_business_iff accepted run).mpr business)
    | lifecycle => exact .inl ((lowered_lifecycle_iff accepted run).mpr lifecycle)
    | delivered kind included => exact .inr ⟨kind, rfl, admitted kind included⟩

section Examples

/-- The registry entries a small process needs. -/
def stdlib : GlobalRegistry
  | 0 => some ⟨⟨"Global", ["Option"]⟩, .enum⟩
  | 1 => some ⟨⟨"Global", ["ReplyTo"]⟩, .struct⟩
  | 2 => some ⟨⟨"Global", ["Process", "Lifecycle"]⟩, .enum⟩
  | 3 => some ⟨⟨"Global", ["IO", "Ready"]⟩, .enum⟩
  | 4 => some ⟨⟨"Global", ["String"]⟩, .builtin .string⟩
  | _ => none

/-- `String`. -/
def text : ResolvedType := .named (.global 4) []

/-- `IO.Ready`. -/
def ready : ResolvedType := .named (.global 3) []

/-- `envelope: (message, Option<ReplyTo<String>>)`. -/
def businessArm (message : ResolvedType) : ReceiveSourceArm :=
  ⟨.typedBinding 0 (.tuple [message, .named (.global 0) [.named (.global 1) [text]]]), false⟩

/-- `event: Process.Lifecycle`. -/
def lifecycleArm : ReceiveSourceArm :=
  ⟨.typedBinding 1 (.named (.global 2) []), false⟩

/-- The symbol of `Option<ReplyTo<String>>`. -/
def optionSymbol : IRSymbol :=
  mangledTypeName (symbolOf ⟨"Global", ["Option"]⟩)
    [.struct (mangledTypeName (symbolOf ⟨"Global", ["ReplyTo"]⟩) [.string])]

/-- The package that declares it. -/
def optionPackage : IRPackage where
  enums := [⟨optionSymbol, [⟨"Some", 0⟩, ⟨"None", 1⟩]⟩]
  functions := []
  package := "Global"

theorem text_excludes {path : List String} (other : stdlib.isGlobalType 4 path = false) :
    ¬ MessageIncludes stdlib path text := by
  intro included
  cases included with
  | exact peeled named =>
    cases peeled
    rw [other] at named
    cases named
  | member peeled => cases peeled

theorem ready_excludes {path : List String} (other : stdlib.isGlobalType 3 path = false) :
    ¬ MessageIncludes stdlib path ready := by
  intro included
  cases included with
  | exact peeled named =>
    cases peeled
    rw [other] at named
    cases named
  | member peeled => cases peeled

/-- A process over `String | IO.Ready` whose loop names both envelopes is handed no tag its loop
has no arm for. -/
theorem receive_dispatch_total_ready : ∃ lowered, lowerReceiveArms stdlib 5 []
        [(7, businessArm (.union [text, ready])), (8, lifecycleArm)] = some lowered ∧
      ∀ tag, Deliverable stdlib (.union [text, ready]) tag →
        dispatchArms (elaborateArms [optionPackage] .packageFunction ⟨9, 2, 10, 3⟩ lowered)
          tag.wireByte ≠ none := by
  refine ⟨_, rfl, ?_⟩
  refine (receive_dispatch_total_iff (by decide) (show lowerReceiveArms stdlib 5 []
    [(7, businessArm (.union [text, ready])), (8, lifecycleArm)] = some _ from rfl)
    [optionPackage] .packageFunction ⟨9, 2, 10, 3⟩ _).mpr
    ⟨⟨_, .head _, _, _, rfl, by decide⟩, ⟨_, .tail _ (.head _), _, _, rfl, by decide⟩, ?_⟩
  intro kind included
  cases kind with
  | ioReady =>
    have declared : findEnum [optionPackage] optionSymbol =
        some ⟨optionSymbol, [⟨"Some", 0⟩, ⟨"None", 1⟩]⟩ := by simp [findEnum, optionPackage]
    exact ⟨rfl, _, _, optionSymbol, _, rfl, rfl, declared,
      ⟨⟨"None", 1⟩, .tail _ (.head _), rfl⟩, _, _, rfl, .tail _ (.head _)⟩
  | exitSignal =>
    cases included with
    | exact peeled => cases peeled
    | member peeled among included =>
      cases peeled
      simp only [mem_cons, not_mem_nil, or_false] at among
      rcases among with rfl | rfl
      · exact absurd included (text_excludes (by decide))
      · exact absurd included (ready_excludes (by decide))

/-- Two loops the type checker accepts whose dispatch falls through to the `unreachable`: one
names the business envelope only and is sent a lifecycle event; the other names both, over the
message type `IO.Ready` itself, and its descriptor becomes ready. -/
theorem receive_misses_deliverable_tag : (∃ lowered, resolveReceive stdlib [businessArm text] = [] ∧
      lowerReceiveArms stdlib 5 [] [(7, businessArm text)] = some lowered ∧
      Deliverable stdlib text .lifecycle ∧
      ∀ packages site ids, dispatchArms (elaborateArms packages site ids lowered)
        ReceiveTag.lifecycle.wireByte = none) ∧
    ∃ lowered, resolveReceive stdlib [businessArm ready, lifecycleArm] = [] ∧
      lowerReceiveArms stdlib 5 [] [(7, businessArm ready), (8, lifecycleArm)] = some lowered ∧
      Deliverable stdlib ready .ioReady ∧
      ∀ packages site ids, dispatchArms (elaborateArms packages site ids lowered)
        ReceiveTag.ioReady.wireByte = none := by
  constructor
  · refine ⟨_, by decide, rfl, .lifecycle, fun packages site ids => ?_⟩
    by_contra reached
    rw [← ne_eq, dispatchArms_isSome, elaborateArms_tags] at reached
    · rcases reached with ⟨arm, among, tagged⟩ | ⟨kind, tagged, _⟩
      · cases mem_singleton.mp among
        cases tagged
      · cases kind <;> cases tagged
    · intro kind arm among
      cases mem_singleton.mp among
      cases kind <;> decide
  · have included : MessageIncludes stdlib DeliveryKind.ioReady.path ready :=
      @MessageIncludes.exact _ _ _ 3 rfl (by decide)
    refine ⟨_, by decide, rfl, .delivered .ioReady included, fun packages site ids => ?_⟩
    by_contra reached
    rw [← ne_eq, dispatchArms_isSome, elaborateArms_tags] at reached
    · rcases reached with ⟨arm, among, tagged⟩ | ⟨kind, tagged, _, admits⟩
      · simp only [mem_cons, not_mem_nil, or_false] at among
        rcases among with rfl | rfl <;> cases tagged
      · cases kind with
        | exitSignal => cases tagged
        | ioReady =>
          obtain ⟨arm, _, _, _, found, payload, _, _, _, _, isUnion, _⟩ := admits
          cases found
          cases payload
          cases isUnion
    · intro kind arm among
      simp only [mem_cons, not_mem_nil, or_false] at among
      rcases among with rfl | rfl <;> cases kind <;> decide

end Examples

end Koja.Guarantees.Ir
