import DlmmIndexer.Transactions.LiquidityBook

/-!
# Routing

`TransactionProcessor` reads the first bytes of an instruction and picks the queue of the
processor that is to take it.  Inner instructions may be events; instructions and events
that no processor takes are not routed.
-/

namespace DlmmIndexer

open Documents JavaScript

/-! ## Queues -/

inductive QueueName where
  | transactionScanner
  | transactionProcessor
  | instructionProcessor
  | swapProcessor
  | createPositionProcessor
  | closePositionProcessor
  | increasePositionProcessor
  | decreasePositionProcessor
  | compositionFeesProcessor
  | updatePairStaticFeeParametersProcessor
  | dlqProcessor
  | quoteAssetProcessor
  | initializePairProcessor
  | initializeBinStepConfigProcessor
  | initializeBinArrayProcessor
  deriving DecidableEq, Repr

inductive JobType where
  | processSwap
  | processPositionCreate
  | processPositionIncrease
  | processPositionDecrease
  | processPositionClose
  | processCompositionFees
  | processUpdatePairStaticFeeParameters
  | processInitializePair
  | processInitializeBinStepConfig
  | processInitializeBinArray
  | processQuoteAsset
  | processDlq
  deriving DecidableEq, Repr

/-- Where an instruction goes. -/
structure Route where
  queueName : QueueName
  jobType : JobType
  deriving DecidableEq, Repr

namespace TransactionProcessor

/-! ## The router -/

/-- The `switch` of `tryHandleEvent`. -/
def eventRoute (eventName : String) : Option Route :=
  if eventName = EventNames.binSwapEvent then some ⟨.swapProcessor, .processSwap⟩
  else if eventName = EventNames.compositionFeesEvent then
    some ⟨.compositionFeesProcessor, .processCompositionFees⟩
  else if eventName = EventNames.quoteAssetBadgeInitializationEvent ∨
      eventName = EventNames.quoteAssetBadgeUpdateEvent then
    some ⟨.quoteAssetProcessor, .processQuoteAsset⟩
  else if eventName = EventNames.positionCreationEvent then
    some ⟨.createPositionProcessor, .processPositionCreate⟩
  else if eventName = EventNames.positionIncreaseEvent then
    some ⟨.increasePositionProcessor, .processPositionIncrease⟩
  else if eventName = EventNames.positionDecreaseEvent then
    some ⟨.decreasePositionProcessor, .processPositionDecrease⟩
  else none

/-- The `switch` of `handleInstruction`. -/
def instructionRoute (instructionName : String) : Option Route :=
  if instructionName = InstructionNames.swap then some ⟨.swapProcessor, .processSwap⟩
  else if instructionName = InstructionNames.createPosition then
    some ⟨.createPositionProcessor, .processPositionCreate⟩
  else if instructionName = InstructionNames.closePosition then
    some ⟨.closePositionProcessor, .processPositionClose⟩
  else if instructionName = InstructionNames.compositionFees then
    some ⟨.compositionFeesProcessor, .processCompositionFees⟩
  else if instructionName = InstructionNames.initializePair then
    some ⟨.initializePairProcessor, .processInitializePair⟩
  else if instructionName = InstructionNames.initializeBinStepConfig then
    some ⟨.initializeBinStepConfigProcessor, .processInitializeBinStepConfig⟩
  else if instructionName = InstructionNames.initializeBinArray then
    some ⟨.initializeBinArrayProcessor, .processInitializeBinArray⟩
  else if instructionName = InstructionNames.updatePairStaticFeeParameters then
    some ⟨.updatePairStaticFeeParametersProcessor, .processUpdatePairStaticFeeParameters⟩
  else none

/-- The argument is the outcome of `bs58.decode`, or the message of its error, which is
caught here. -/
def tryHandleEvent (decoded : Except String Bytes) : Option Route :=
  match decoded with
  | .error _ => none
  | .ok dataBuffer =>
      if subarray dataBuffer 0 8 = eventIdentifier then
        match LiquidityBookLibrary.getEventName dataBuffer with
        | none => none
        | some eventName => eventRoute eventName
      else none

/-- The error of `bs58.decode` is not caught. -/
def handleInstruction (decoded : Except String Bytes) : Except String (Option Route) :=
  match decoded with
  | .error message => .error message
  | .ok dataBuffer =>
      match LiquidityBookLibrary.getInstructionName dataBuffer with
      | none => .ok none
      | some instructionName => .ok (instructionRoute instructionName)

/-- The decision of `processInstruction`: inner instructions are tried as events first. -/
def pickRoute (isInner : Bool) (decoded : Except String Bytes) : Except String (Option Route) :=
  if isInner then
    match tryHandleEvent decoded with
    | some eventResult => .ok (some eventResult)
    | none => handleInstruction decoded
  else handleInstruction decoded

/-- The queue that `routeToQueue` adds to; nothing for an unknown queue. -/
def targetQueue : QueueName → Option QueueName
  | .swapProcessor => some .swapProcessor
  | .createPositionProcessor => some .createPositionProcessor
  | .increasePositionProcessor => some .increasePositionProcessor
  | .decreasePositionProcessor => some .decreasePositionProcessor
  | .closePositionProcessor => some .closePositionProcessor
  | .compositionFeesProcessor => some .compositionFeesProcessor
  | .initializePairProcessor => some .initializePairProcessor
  | .initializeBinStepConfigProcessor => some .initializeBinStepConfigProcessor
  | .initializeBinArrayProcessor => some .initializeBinArrayProcessor
  | .quoteAssetProcessor => some .quoteAssetProcessor
  | .updatePairStaticFeeParametersProcessor => some .updatePairStaticFeeParametersProcessor
  | _ => none

/-! ## What is routed -/

variable {isInner : Bool} {decoded : Except String Bytes} {dataBuffer : Bytes} {route : Route}

/-- The data is that of an event with a route. -/
def HandledEvent (dataBuffer : Bytes) (route : Route) : Prop :=
  subarray dataBuffer 0 8 = eventIdentifier ∧
    ∃ entry : IdlEntry, entry.MatchesEvent dataBuffer ∧ eventRoute entry.name = some route

/-- The data is that of an instruction with a route. -/
def HandledInstruction (dataBuffer : Bytes) (route : Route) : Prop :=
  ∃ entry : IdlEntry, entry.MatchesInstruction dataBuffer ∧
    instructionRoute entry.name = some route

theorem tryHandleEvent_eq_some :
    tryHandleEvent (.ok dataBuffer) = some route ↔ HandledEvent dataBuffer route := by
  simp only [tryHandleEvent, HandledEvent]
  constructor
  · intro routed
    split at routed
    next identified =>
      split at routed
      · cases routed
      next name named =>
        obtain ⟨entry, matched, rfl⟩ := getEventName_eq_some.mp named
        exact ⟨identified, entry, matched, routed⟩
    · cases routed
  · rintro ⟨identified, entry, matched, routed⟩
    rw [if_pos identified, getEventName_eq_some.mpr ⟨entry, matched, rfl⟩]
    exact routed

theorem handleInstruction_eq_some :
    handleInstruction (.ok dataBuffer) = .ok (some route) ↔
      HandledInstruction dataBuffer route := by
  simp only [handleInstruction, HandledInstruction]
  constructor
  · intro routed
    split at routed
    · cases routed
    next name named =>
      obtain ⟨entry, matched, rfl⟩ := getInstructionName_eq_some.mp named
      exact ⟨entry, matched, Except.ok.inj routed⟩
  · rintro ⟨entry, matched, routed⟩
    rw [getInstructionName_eq_some.mpr ⟨entry, matched, rfl⟩]
    exact congrArg Except.ok routed

/-- The event identifier is no discriminator of an instruction. -/
theorem HandledEvent.not_handledInstruction {other : Route}
    (event : HandledEvent dataBuffer route) : ¬HandledInstruction dataBuffer other := by
  rintro ⟨entry, ⟨listed, matched⟩, -⟩
  have apart : eventIdentifier ∉
      LiquidityBookIdl.instructions.rows.map IdlEntry.discriminator := by decide +kernel
  rw [← event.1, matched] at apart
  exact apart (List.mem_map_of_mem listed)

/-- Decoded data is routed exactly when it is that of an instruction with a route or, in an
inner instruction, that of an event with one. -/
theorem pickRoute_eq_some :
    pickRoute isInner (.ok dataBuffer) = .ok (some route) ↔
      (isInner = true ∧ HandledEvent dataBuffer route) ∨ HandledInstruction dataBuffer route := by
  cases isInner with
  | false => simp [pickRoute, handleInstruction_eq_some]
  | true =>
      rw [pickRoute, if_pos rfl]
      cases tried : tryHandleEvent (.ok dataBuffer) with
      | none =>
          have noEvent : ¬HandledEvent dataBuffer route := fun event => by
            rw [tryHandleEvent_eq_some.mpr event] at tried
            cases tried
          simp [handleInstruction_eq_some, noEvent]
      | some eventResult =>
          have event := tryHandleEvent_eq_some.mp tried
          simp only [Except.ok.injEq, Option.some.injEq, event.not_handledInstruction, or_false,
            true_and]
          constructor
          · rintro rfl
            exact event
          · intro other
            rw [tryHandleEvent_eq_some.mpr other] at tried
            exact (Option.some.inj tried).symm

/-- Nothing is thrown but the errors of `bs58.decode`. -/
theorem pickRoute_eq_error {message : String} :
    pickRoute isInner decoded = .error message ↔ decoded = .error message := by
  have instructed : handleInstruction decoded = .error message ↔ decoded = .error message := by
    cases decoded with
    | error other => simp [handleInstruction]
    | ok dataBuffer =>
        rw [handleInstruction]
        split <;> simp
  cases isInner with
  | false => exact instructed
  | true =>
      rw [pickRoute, if_pos rfl]
      cases decoded with
      | error other => exact instructed
      | ok dataBuffer =>
          split
          · simp
          · exact instructed

theorem targetQueue_of_eventRoute {name : String} (routed : eventRoute name = some route) :
    targetQueue route.queueName = some route.queueName := by
  unfold eventRoute at routed
  repeat' split at routed
  all_goals
    cases routed
    try rfl

theorem targetQueue_of_instructionRoute {name : String}
    (routed : instructionRoute name = some route) :
    targetQueue route.queueName = some route.queueName := by
  unfold instructionRoute at routed
  repeat' split at routed
  all_goals
    cases routed
    try rfl

/-- The queue that is picked is known to `routeToQueue`. -/
theorem targetQueue_of_pickRoute
    (picked : pickRoute isInner (.ok dataBuffer) = .ok (some route)) :
    targetQueue route.queueName = some route.queueName := by
  rcases pickRoute_eq_some.mp picked with ⟨-, -, entry, -, routed⟩ | ⟨entry, -, routed⟩
  · exact targetQueue_of_eventRoute routed
  · exact targetQueue_of_instructionRoute routed

end TransactionProcessor

end DlmmIndexer
