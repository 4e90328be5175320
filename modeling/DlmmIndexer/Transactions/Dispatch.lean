import DlmmIndexer.Transactions.Router

/-!
# Dispatch

A processor reads the bytes of its instruction again, against constants of its own, and
decides whether it is one to process.  The dispatch ends at the target whose data the
processor goes on to decode and process, or at nothing: the exits for foreign bytes, also
where an error is caught on the way to them.

The router and the processors agree on every byte string.
-/

namespace DlmmIndexer

open Documents JavaScript

/-- An instruction or an event of the IDL by its name. -/
inductive Target where
  | instruction (name : String)
  | event (name : String)
  deriving DecidableEq, Repr

/-- The outcome of the checks at the head of a processor. -/
abbrev Dispatch := Except JavaScript.Error (Option Target)

namespace Dispatch

/-- The instruction whose arguments and accounts the processor decodes; `null` cannot be
destructured. -/
def decodedInstruction (decodedData : Bytes) : Dispatch :=
  match LiquidityBookLibrary.decodeInstruction decodedData with
  | none => .error .typeError
  | some idlIx => .ok (some (.instruction idlIx.name))

/-- The event whose type the processor decodes, if the IDL has the type. -/
def decodedEvent (typeName : String) : Dispatch :=
  .ok ((LiquidityBookLibrary.decodeType typeName).map .event)

/-- `catch (error) { return null }`, after which the processor returns. -/
def orNull : Dispatch → Dispatch
  | .error _ => .ok none
  | .ok reached => .ok reached

/-- Behind the event identifier, the event that the table of a processor has for the
discriminator. -/
def takeEvent (events : List (Bytes × String)) (identifier data : Bytes) : Dispatch :=
  if identifier = eventIdentifier then
    match splitAt data 8 with
    | .error error => .error error
    | .ok (discriminator, _) =>
        match events.lookup discriminator with
        | none => .ok none
        | some typeName => decodedEvent typeName
  else .ok none

/-- The head of a processor that takes events only. -/
def events (events : List (Bytes × String)) (decodedData : Bytes) : Dispatch :=
  match splitAt decodedData 8 with
  | .error error => .error error
  | .ok (identifier, data) => takeEvent events identifier data

/-- The head of a processor that takes one instruction and events. -/
def instructionOrEvents (instructionIdentifier : Bytes) (events : List (Bytes × String))
    (decodedData : Bytes) : Dispatch :=
  match splitAt decodedData 8 with
  | .error error => .error error
  | .ok (identifier, data) =>
      if identifier = instructionIdentifier then decodedInstruction decodedData
      else takeEvent events identifier data

end Dispatch

/-! ## The processors -/

open Dispatch

namespace SwapProcessor

def instructionIdentifier : Bytes := [248, 198, 158, 145, 225, 117, 135, 200]

/-- From the constants file. -/
def binSwapEventDiscriminator : Bytes := [55, 42, 192, 194, 230, 243, 9, 72]

def dispatch : Bytes → Dispatch :=
  instructionOrEvents instructionIdentifier [(binSwapEventDiscriminator, TypeNames.binSwapEvent)]

end SwapProcessor

namespace CreatePositionProcessor

def instructionIdentifierPositionCreate : Bytes := [48, 215, 197, 153, 96, 203, 180, 133]

def eventDiscriminatorPositionCreate : Bytes := [97, 21, 205, 201, 62, 41, 111, 164]

def dispatch : Bytes → Dispatch :=
  instructionOrEvents instructionIdentifierPositionCreate
    [(eventDiscriminatorPositionCreate, TypeNames.positionCreationEvent)]

end CreatePositionProcessor

namespace IncreasePositionProcessor

def positionIncreaseEventDiscriminator : Bytes := [247, 40, 58, 113, 28, 175, 60, 174]

def dispatch (decodedData : Bytes) : Dispatch :=
  orNull (events [(positionIncreaseEventDiscriminator, EventNames.positionIncreaseEvent)]
    decodedData)

end IncreasePositionProcessor

namespace DecreasePositionProcessor

def positionDecreaseEventDiscriminator : Bytes := [200, 116, 151, 126, 182, 237, 245, 254]

def dispatch (decodedData : Bytes) : Dispatch :=
  orNull (events [(positionDecreaseEventDiscriminator, EventNames.positionDecreaseEvent)]
    decodedData)

end DecreasePositionProcessor

namespace CompositionFeesProcessor

def compositionFeesEventDiscriminator : Bytes := [83, 234, 249, 47, 88, 125, 2, 86]

def dispatch : Bytes → Dispatch :=
  events [(compositionFeesEventDiscriminator, TypeNames.compositionFeesEvent)]

end CompositionFeesProcessor

namespace QuoteAssetProcessor

def quoteAssetInitEventDiscriminator : Bytes := [202, 110, 93, 186, 165, 96, 200, 27]

def quoteAssetUpdateEventDiscriminator : Bytes := [102, 149, 171, 236, 123, 73, 205, 194]

def dispatch : Bytes → Dispatch :=
  events
    [(quoteAssetInitEventDiscriminator, TypeNames.quoteAssetBadgeInitializationEvent),
      (quoteAssetUpdateEventDiscriminator, TypeNames.quoteAssetBadgeUpdateEvent)]

end QuoteAssetProcessor

/-- `decodeClosePositionInstruction` -/
def ClosePositionProcessor.dispatch (decodedData : Bytes) : Dispatch :=
  orNull (decodedInstruction decodedData)

/-- `decodeInitializePairInstruction` -/
def InitializePairProcessor.dispatch (decodedData : Bytes) : Dispatch :=
  orNull (decodedInstruction decodedData)

/-- `decodeInitializeBinStepConfigInstruction` -/
def InitializeBinStepConfigProcessor.dispatch (decodedData : Bytes) : Dispatch :=
  orNull (decodedInstruction decodedData)

/-- `decodeInitializeBinArrayInstruction` -/
def InitializeBinArrayProcessor.dispatch (decodedData : Bytes) : Dispatch :=
  orNull (decodedInstruction decodedData)

/-- `decodeUpdatePairStaticFeeParametersInstruction`, which checks the name as well. -/
def UpdatePairStaticFeeParametersProcessor.dispatch (decodedData : Bytes) : Dispatch :=
  orNull (match LiquidityBookLibrary.decodeInstruction decodedData with
    | none => .error .typeError
    | some idlIx =>
        if idlIx.name = InstructionNames.updatePairStaticFeeParameters then
          .ok (some (.instruction idlIx.name))
        else .ok none)

/-- The processor of the worker on a queue, for the queues that instructions go to. -/
def Dispatch.worker : QueueName → Option (Bytes → Dispatch)
  | .swapProcessor => some SwapProcessor.dispatch
  | .createPositionProcessor => some CreatePositionProcessor.dispatch
  | .increasePositionProcessor => some IncreasePositionProcessor.dispatch
  | .decreasePositionProcessor => some DecreasePositionProcessor.dispatch
  | .closePositionProcessor => some ClosePositionProcessor.dispatch
  | .compositionFeesProcessor => some CompositionFeesProcessor.dispatch
  | .updatePairStaticFeeParametersProcessor =>
      some UpdatePairStaticFeeParametersProcessor.dispatch
  | .initializePairProcessor => some InitializePairProcessor.dispatch
  | .initializeBinStepConfigProcessor => some InitializeBinStepConfigProcessor.dispatch
  | .initializeBinArrayProcessor => some InitializeBinArrayProcessor.dispatch
  | .quoteAssetProcessor => some QuoteAssetProcessor.dispatch
  | _ => none

/-! ## Heads on data that the router knows -/

section Heads

variable {decodedData discriminator : Bytes} {table : List (Bytes × String)} {typeName : String}

theorem takeEvent_of_matches (matched : subarray decodedData 8 16 = discriminator)
    (full : discriminator.length = 8) (listed : table.lookup discriminator = some typeName)
    (known : LiquidityBookLibrary.decodeType typeName = some typeName) :
    takeEvent table eventIdentifier (decodedData.drop 8) = .ok (some (.event typeName)) := by
  rw [← subarray_drop] at matched
  simp only [takeEvent, if_pos, splitAt_of_subarray matched full, listed, decodedEvent, known,
    Option.map_some]

theorem events_of_matches (identified : subarray decodedData 0 8 = eventIdentifier)
    (matched : subarray decodedData 8 16 = discriminator) (full : discriminator.length = 8)
    (listed : table.lookup discriminator = some typeName)
    (known : LiquidityBookLibrary.decodeType typeName = some typeName) :
    Dispatch.events table decodedData = .ok (some (.event typeName)) := by
  simp only [Dispatch.events, splitAt_of_subarray identified rfl,
    takeEvent_of_matches matched full listed known]

theorem instructionOrEvents_of_event {identifier : Bytes} (foreign : eventIdentifier ≠ identifier)
    (identified : subarray decodedData 0 8 = eventIdentifier)
    (matched : subarray decodedData 8 16 = discriminator) (full : discriminator.length = 8)
    (listed : table.lookup discriminator = some typeName)
    (known : LiquidityBookLibrary.decodeType typeName = some typeName) :
    instructionOrEvents identifier table decodedData = .ok (some (.event typeName)) := by
  simp only [instructionOrEvents, splitAt_of_subarray identified rfl, if_neg foreign,
    takeEvent_of_matches matched full listed known]

theorem decodeInstruction_of_matches {entry : IdlEntry}
    (matched : entry.MatchesInstruction decodedData) :
    LiquidityBookLibrary.decodeInstruction decodedData = some entry :=
  Collection.findOne_eq_some.mpr ⟨matched.1, matched.2.symm⟩

theorem decodedInstruction_of_matches {entry : IdlEntry}
    (matched : entry.MatchesInstruction decodedData) :
    decodedInstruction decodedData = .ok (some (.instruction entry.name)) := by
  simp only [decodedInstruction, decodeInstruction_of_matches matched]

theorem instructionOrEvents_of_instruction {entry : IdlEntry}
    (matched : entry.MatchesInstruction decodedData) :
    instructionOrEvents entry.discriminator table decodedData =
      .ok (some (.instruction entry.name)) := by
  simp only [instructionOrEvents,
    splitAt_of_subarray matched.2 (length_discriminator (.inl matched.1)), if_pos,
    decodedInstruction_of_matches matched]

end Heads

/-! ## Agreement -/

variable {entry : IdlEntry} {dataBuffer : Bytes} {route : Route}

/-- The worker on the queue reaches the target on the data. -/
def Dispatch.Reaches (queueName : QueueName) (dataBuffer : Bytes) (target : Target) : Prop :=
  ∃ dispatch, Dispatch.worker queueName = some dispatch ∧ dispatch dataBuffer = .ok (some target)

/-- The event of a routed name reaches the worker that is to process it. -/
theorem reaches_event (identified : subarray dataBuffer 0 8 = eventIdentifier)
    (matched : entry.MatchesEvent dataBuffer)
    (routed : TransactionProcessor.eventRoute entry.name = some route) :
    Dispatch.Reaches route.queueName dataBuffer (.event entry.name) := by
  obtain ⟨listed, matched⟩ := matched
  have constant {name : String} (discriminator : Bytes)
      (constants : ⟨name, discriminator⟩ ∈ LiquidityBookIdl.events.rows)
      (same : entry.name = name) : subarray dataBuffer 8 16 = discriminator :=
    matched.trans (discriminator_of_name nodup_event_names listed constants same)
  unfold TransactionProcessor.eventRoute at routed
  split at routed
  next same =>
    have here := constant SwapProcessor.binSwapEventDiscriminator (by decide +kernel) same
    cases routed
    rw [same]
    exact ⟨_, rfl, instructionOrEvents_of_event (by decide) identified here rfl rfl
      (by decide +kernel)⟩
  split at routed
  next same =>
    have here := constant CompositionFeesProcessor.compositionFeesEventDiscriminator
      (by decide +kernel) same
    cases routed
    rw [same]
    exact ⟨_, rfl, events_of_matches identified here rfl rfl (by decide +kernel)⟩
  split at routed
  next same =>
    cases routed
    rcases same with same | same
    · have here := constant QuoteAssetProcessor.quoteAssetInitEventDiscriminator
        (by decide +kernel) same
      rw [same]
      exact ⟨_, rfl, events_of_matches identified here rfl rfl (by decide +kernel)⟩
    · have here := constant QuoteAssetProcessor.quoteAssetUpdateEventDiscriminator
        (by decide +kernel) same
      rw [same]
      exact ⟨_, rfl, events_of_matches identified here rfl rfl (by decide +kernel)⟩
  split at routed
  next same =>
    have here := constant CreatePositionProcessor.eventDiscriminatorPositionCreate
      (by decide +kernel) same
    cases routed
    rw [same]
    exact ⟨_, rfl, instructionOrEvents_of_event (by decide) identified here rfl rfl
      (by decide +kernel)⟩
  split at routed
  next same =>
    have here := constant IncreasePositionProcessor.positionIncreaseEventDiscriminator
      (by decide +kernel) same
    cases routed
    rw [same]
    exact ⟨_, rfl, congrArg orNull
      (events_of_matches identified here rfl rfl (by decide +kernel))⟩
  split at routed
  next same =>
    have here := constant DecreasePositionProcessor.positionDecreaseEventDiscriminator
      (by decide +kernel) same
    cases routed
    rw [same]
    exact ⟨_, rfl, congrArg orNull
      (events_of_matches identified here rfl rfl (by decide +kernel))⟩
  · cases routed

/-- The instruction of a routed name reaches the worker that is to process it. -/
theorem reaches_instruction (matched : entry.MatchesInstruction dataBuffer)
    (routed : TransactionProcessor.instructionRoute entry.name = some route) :
    Dispatch.Reaches route.queueName dataBuffer (.instruction entry.name) := by
  have constant {name : String} (discriminator : Bytes)
      (constants : ⟨name, discriminator⟩ ∈ LiquidityBookIdl.instructions.rows)
      (same : entry.name = name) : discriminator = entry.discriminator :=
    (discriminator_of_name nodup_instruction_names matched.1 constants same).symm
  have decoded : orNull (decodedInstruction dataBuffer) =
      .ok (some (.instruction entry.name)) :=
    congrArg orNull (decodedInstruction_of_matches matched)
  unfold TransactionProcessor.instructionRoute at routed
  split at routed
  next same =>
    have here := constant SwapProcessor.instructionIdentifier (by decide +kernel) same
    cases routed
    refine ⟨_, rfl, ?_⟩
    rw [SwapProcessor.dispatch, here]
    exact instructionOrEvents_of_instruction matched
  split at routed
  next same =>
    have here := constant CreatePositionProcessor.instructionIdentifierPositionCreate
      (by decide +kernel) same
    cases routed
    refine ⟨_, rfl, ?_⟩
    rw [CreatePositionProcessor.dispatch, here]
    exact instructionOrEvents_of_instruction matched
  split at routed
  · cases routed
    exact ⟨_, rfl, decoded⟩
  split at routed
  next same =>
    -- no instruction of the IDL has this name
    have absent : InstructionNames.compositionFees ∉
        LiquidityBookIdl.instructions.rows.map IdlEntry.name := by decide +kernel
    exact absurd (same ▸ List.mem_map_of_mem matched.1) absent
  split at routed
  · cases routed
    exact ⟨_, rfl, decoded⟩
  split at routed
  · cases routed
    exact ⟨_, rfl, decoded⟩
  split at routed
  · cases routed
    exact ⟨_, rfl, decoded⟩
  split at routed
  next same =>
    cases routed
    refine ⟨_, rfl, ?_⟩
    rw [UpdatePairStaticFeeParametersProcessor.dispatch]
    simp only [decodeInstruction_of_matches matched, if_pos same]
    rfl
  · cases routed

namespace TransactionProcessor

/-- The router takes the data for the target. -/
def Picks (isInner : Bool) (dataBuffer : Bytes) (route : Route) : Target → Prop
  | .event name => isInner = true ∧ tryHandleEvent (.ok dataBuffer) = some route ∧
      LiquidityBookLibrary.getEventName dataBuffer = some name
  | .instruction name => (isInner = true → tryHandleEvent (.ok dataBuffer) = none) ∧
      handleInstruction (.ok dataBuffer) = .ok (some route) ∧
      LiquidityBookLibrary.getInstructionName dataBuffer = some name

/-- Whatever the bytes, the queue that the router picks exists, the worker on it reaches the
target that the router has taken the data for, and no two instructions and no two events of
the IDL match. -/
theorem router_agrees (isInner : Bool) (dataBuffer : Bytes) :
    (∀ route, pickRoute isInner (.ok dataBuffer) = .ok (some route) →
      targetQueue route.queueName = some route.queueName ∧
        ∃ target, Picks isInner dataBuffer route target ∧
          Dispatch.Reaches route.queueName dataBuffer target) ∧
    (∀ entry other : IdlEntry, entry.MatchesInstruction dataBuffer →
      other.MatchesInstruction dataBuffer → entry = other) ∧
    ∀ entry other : IdlEntry, entry.MatchesEvent dataBuffer →
      other.MatchesEvent dataBuffer → entry = other := by
  refine ⟨fun route picked => ?_, fun _ _ => IdlEntry.MatchesInstruction.unique,
    fun _ _ => IdlEntry.MatchesEvent.unique⟩
  refine ⟨targetQueue_of_pickRoute picked, ?_⟩
  have instructed (tried : isInner = true → tryHandleEvent (.ok dataBuffer) = none)
      (routed : handleInstruction (.ok dataBuffer) = .ok (some route)) :
      ∃ target, Picks isInner dataBuffer route target ∧
        Dispatch.Reaches route.queueName dataBuffer target := by
    obtain ⟨entry, matched, taken⟩ := handleInstruction_eq_some.mp routed
    exact ⟨.instruction entry.name,
      ⟨tried, routed, getInstructionName_eq_some.mpr ⟨entry, matched, rfl⟩⟩,
      reaches_instruction matched taken⟩
  cases isInner with
  | false => exact instructed nofun picked
  | true =>
      simp only [pickRoute, if_pos] at picked
      split at picked
      next eventResult tried =>
        cases picked
        obtain ⟨identified, entry, matched, taken⟩ := tryHandleEvent_eq_some.mp tried
        exact ⟨.event entry.name, ⟨rfl, tried, getEventName_eq_some.mpr ⟨entry, matched, rfl⟩⟩,
          reaches_event identified matched taken⟩
      next tried => exact instructed (fun _ => tried) picked

end TransactionProcessor

end DlmmIndexer
