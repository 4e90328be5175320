import DlmmIndexer.Transactions.Dispatch
import DlmmIndexer.Transactions.Settlement
import DlmmIndexer.Worker

/-!
# What the processors make of instructions

Behind its checks on the bytes, a processor hands them to Anchor: event data to the layout
of the event's type, an instruction to its arguments and accounts.  What comes of that is a
parameter (`Decoding`); whether a processor gets there, and what it does when nothing comes
of it, is code of the processor.

A payload besides an error and nothing comes from the target that the dispatch has reached
(`World.payload_reached`).
-/

namespace DlmmIndexer

open Documents JavaScript

/-- The queue whose processor comes to such a payload. -/
def Payload.queueName? : Payload → Option QueueName
  | .rejected _ | .ignored => none
  | .swap _ | .binSwapEvent _ => some .swapProcessor
  | .createPosition _ | .positionCreationEvent _ => some .createPositionProcessor
  | .increasePosition _ => some .increasePositionProcessor
  | .decreasePosition _ => some .decreasePositionProcessor
  | .closePosition _ => some .closePositionProcessor
  | .compositionFees _ => some .compositionFeesProcessor
  | .initializePair _ => some .initializePairProcessor
  | .initializeBinStepConfig _ => some .initializeBinStepConfigProcessor
  | .initializeBinArray _ => some .initializeBinArrayProcessor
  | .updatePairStaticFeeParameters _ => some .updatePairStaticFeeParametersProcessor
  | .quoteAssetBadgeInitialization _ | .quoteAssetBadgeUpdate _ => some .quoteAssetProcessor

/-- The payload is what the processor makes of such a target. -/
def Payload.MadeOf : Payload → Target → Prop
  | .swap _, .instruction _ | .createPosition _, .instruction _ => True
  | .closePosition _, .instruction _ | .initializePair _, .instruction _ => True
  | .initializeBinStepConfig _, .instruction _ | .initializeBinArray _, .instruction _ => True
  | .updatePairStaticFeeParameters _, .instruction _ => True
  | .binSwapEvent _, .event _ | .positionCreationEvent _, .event _ => True
  | .increasePosition _, .event _ | .decreasePosition _, .event _ => True
  | .compositionFees _, .event _ => True
  | .quoteAssetBadgeInitialization _, .event name =>
      name = TypeNames.quoteAssetBadgeInitializationEvent
  | .quoteAssetBadgeUpdate _, .event name => name = TypeNames.quoteAssetBadgeUpdateEvent
  | _, _ => False

/-- What Anchor makes of event data, and of the arguments and accounts of an instruction.
`none` is `null`, also where an error on the way there is caught; the types that are decoded
outside a `try` of their own may throw. -/
structure Decoding where
  swap : PartiallyDecodedInstruction → Option Swap.SwapDecoded
  binSwapEvent : Bytes → Except Failure (Option Swap.BinSwapEventDecoded)
  createPosition : PartiallyDecodedInstruction → Option CreatePosition.CreatePositionDecoded
  positionCreationEvent : Bytes → Option CreatePosition.PositionCreationEvent
  increasePosition : Bytes → Option IncreasePosition.PositionIncreaseEventDecoded
  decreasePosition : Bytes → Option DecreasePosition.PositionDecreaseEventDecoded
  closePosition : PartiallyDecodedInstruction → Option ClosePosition.ClosePositionDecoded
  compositionFees : Bytes → Except Failure (Option CompositionFees.CompositionFeesEventDecoded)
  initializePair : PartiallyDecodedInstruction → Option InitializePair.InitializePairDecoded
  initializeBinStepConfig :
    PartiallyDecodedInstruction → Option InitializeBinStepConfig.InitializeBinStepConfigDecoded
  initializeBinArray :
    PartiallyDecodedInstruction → Option InitializeBinArray.InitializeBinArrayDecoded
  updatePairStaticFeeParameters : PartiallyDecodedInstruction →
    Option UpdatePairStaticFeeParameters.UpdatePairStaticFeeParametersDecoded
  quoteAssetBadgeInitialization :
    Bytes → Except Failure (Option QuoteAssets.QuoteAssetBadgeInitializationEvent)
  quoteAssetBadgeUpdate : Bytes → Except Failure (Option QuoteAssets.QuoteAssetBadgeUpdateEvent)

/-- `if (!decoded) return` -/
def Payload.orIgnored {α : Type} (make : α → Payload) : Option α → Payload
  | none => .ignored
  | some decoded => make decoded

/-- `if (!decoded) throw new Error(message)` -/
def Payload.orRejected {α : Type} (message : String) (make : α → Payload) : Option α → Payload
  | none => .rejected (.error message)
  | some decoded => make decoded

/-- A decoder that may throw. -/
def Payload.orThrown {α : Type} (make : α → Payload) : Except Failure (Option α) → Payload
  | .error failure => .rejected failure
  | .ok decoded => orIgnored make decoded

namespace Decoding

/-- The processor of a queue on the instruction it takes. -/
def ofInstruction (decoding : Decoding) (instruction : PartiallyDecodedInstruction) :
    QueueName → Payload
  | .swapProcessor => .swap (decoding.swap instruction)
  | .createPositionProcessor =>
      .orRejected "Failed to decode create position instruction" .createPosition
        (decoding.createPosition instruction)
  | .closePositionProcessor => .orIgnored .closePosition (decoding.closePosition instruction)
  | .initializePairProcessor => .orIgnored .initializePair (decoding.initializePair instruction)
  | .initializeBinStepConfigProcessor =>
      .orIgnored .initializeBinStepConfig (decoding.initializeBinStepConfig instruction)
  | .initializeBinArrayProcessor =>
      .orIgnored .initializeBinArray (decoding.initializeBinArray instruction)
  | .updatePairStaticFeeParametersProcessor =>
      .orIgnored .updatePairStaticFeeParameters
        (decoding.updatePairStaticFeeParameters instruction)
  | _ => .ignored

/-- The processor of a queue on the data of an event it takes. -/
def ofEvent (decoding : Decoding) (typeName : String) (eventData : Bytes) : QueueName → Payload
  | .swapProcessor => .binSwapEvent (decoding.binSwapEvent eventData)
  | .createPositionProcessor =>
      .orRejected "Failed to decode PositionCreationEvent" .positionCreationEvent
        (decoding.positionCreationEvent eventData)
  | .increasePositionProcessor =>
      .orIgnored .increasePosition (decoding.increasePosition eventData)
  | .decreasePositionProcessor =>
      .orIgnored .decreasePosition (decoding.decreasePosition eventData)
  | .compositionFeesProcessor => .orThrown .compositionFees (decoding.compositionFees eventData)
  | .quoteAssetProcessor =>
      if typeName = TypeNames.quoteAssetBadgeInitializationEvent then
        .orThrown .quoteAssetBadgeInitialization (decoding.quoteAssetBadgeInitialization eventData)
      else if typeName = TypeNames.quoteAssetBadgeUpdateEvent then
        .orThrown .quoteAssetBadgeUpdate (decoding.quoteAssetBadgeUpdate eventData)
      else .ignored
  | _ => .ignored

/-- The processor of a queue on the target it has reached. -/
def ofTarget (decoding : Decoding) (instruction : PartiallyDecodedInstruction)
    (dataBuffer : Bytes) (queueName : QueueName) : Target → Payload
  | .instruction _ => decoding.ofInstruction instruction queueName
  | .event typeName => decoding.ofEvent typeName (dataBuffer.drop 16) queueName

end Decoding

/-- The processors that read base58 inside the `try` of their decoder. -/
def QueueName.catches : QueueName → Bool
  | .swapProcessor | .createPositionProcessor | .compositionFeesProcessor
  | .quoteAssetProcessor => false
  | _ => true

namespace World

/-- What the processor of a queue comes to before its first database step. -/
def payload (world : World) (decoding : Decoding) (queueName : QueueName)
    (instruction : PartiallyDecodedInstruction) : Payload :=
  match Dispatch.worker queueName, world.decodeBase58 instruction.data with
  | none, _ => .ignored
  | some _, .error message => if queueName.catches then .ignored else .rejected (.error message)
  | some dispatch, .ok dataBuffer =>
      match dispatch dataBuffer with
      | .error error => .rejected (.javascript error)
      | .ok none => .ignored
      | .ok (some target) => decoding.ofTarget instruction dataBuffer queueName target

/-- The job that the worker on a queue takes up. -/
def job (world : World) (decoding : Decoding) (queued : QueuedJob) : Job where
  message := queued.instruction.toParsedInstructionMessage
  payload := world.payload decoding queued.queueName queued.instruction.instruction

end World

/-! ## Payloads and targets -/

namespace Payload

variable {α : Type} {make : α → Payload} {queueName made : QueueName} {target : Target}

/-- A payload of the queue is made of the target. -/
def Fits (payload : Payload) (queueName : QueueName) (target : Target) : Prop :=
  ∀ made, payload.queueName? = some made → made = queueName ∧ payload.MadeOf target

theorem fits_ignored : Payload.ignored.Fits queueName target := fun _ comes => nomatch comes

theorem fits_orIgnored (fits : ∀ decoded, (make decoded).Fits queueName target)
    (decoded : Option α) : (orIgnored make decoded).Fits queueName target := by
  cases decoded with
  | none => exact fits_ignored
  | some decoded => exact fits decoded

theorem fits_orRejected (message : String)
    (fits : ∀ decoded, (make decoded).Fits queueName target) (decoded : Option α) :
    (orRejected message make decoded).Fits queueName target := by
  cases decoded with
  | none => exact fun _ comes => nomatch comes
  | some decoded => exact fits decoded

theorem fits_orThrown (fits : ∀ decoded, (make decoded).Fits queueName target)
    (outcome : Except Failure (Option α)) : (orThrown make outcome).Fits queueName target := by
  cases outcome with
  | error failure => exact fun _ comes => nomatch comes
  | ok decoded => exact fits_orIgnored fits decoded

end Payload

open Payload in
/-- What a processor makes of a target is of its queue. -/
theorem Decoding.fits_ofTarget (decoding : Decoding) (instruction : PartiallyDecodedInstruction)
    (dataBuffer : Bytes) (queueName : QueueName) (target : Target) :
    (decoding.ofTarget instruction dataBuffer queueName target).Fits queueName target := by
  have here {payload : Payload} (queue : payload.queueName? = some queueName)
      (madeOf : payload.MadeOf target) : payload.Fits queueName target :=
    fun _ comes => ⟨Option.some.inj (comes.symm.trans queue), madeOf⟩
  cases target with
  | instruction name =>
      cases queueName with
      | swapProcessor => exact here rfl trivial
      | createPositionProcessor =>
          refine fits_orRejected _ (fun _ => ?_) _
          exact here rfl trivial
      | closePositionProcessor | initializePairProcessor | initializeBinStepConfigProcessor
      | initializeBinArrayProcessor | updatePairStaticFeeParametersProcessor =>
          refine fits_orIgnored (fun _ => ?_) _
          exact here rfl trivial
      | _ => exact fits_ignored
  | event typeName =>
      cases queueName with
      | swapProcessor => exact here rfl trivial
      | createPositionProcessor =>
          refine fits_orRejected _ (fun _ => ?_) _
          exact here rfl trivial
      | increasePositionProcessor | decreasePositionProcessor =>
          refine fits_orIgnored (fun _ => ?_) _
          exact here rfl trivial
      | compositionFeesProcessor =>
          refine fits_orThrown (fun _ => ?_) _
          exact here rfl trivial
      | quoteAssetProcessor =>
          simp only [ofTarget, ofEvent]
          split
          next same =>
            refine fits_orThrown (fun _ => ?_) _
            exact here rfl same
          next =>
            split
            next same =>
              refine fits_orThrown (fun _ => ?_) _
              exact here rfl same
            next => exact fits_ignored
      | _ => exact fits_ignored

/-- A payload of a queue comes from there, and from the target that the dispatch of its
processor reaches on the data. -/
theorem World.payload_reached {world : World} {decoding : Decoding} {queueName made : QueueName}
    {instruction : PartiallyDecodedInstruction}
    (comes : (world.payload decoding queueName instruction).queueName? = some made) :
    made = queueName ∧ ∃ dataBuffer target, world.decodeBase58 instruction.data = .ok dataBuffer ∧
      Dispatch.Reaches queueName dataBuffer target ∧
      (world.payload decoding queueName instruction).MadeOf target := by
  generalize same : world.payload decoding queueName instruction = payload at comes ⊢
  unfold World.payload at same
  split at same
  next =>
    subst same
    cases comes
  next =>
    split at same <;> subst same <;> cases comes
  next dispatch dataBuffer worker decoded =>
    split at same
    next =>
      subst same
      cases comes
    next =>
      subst same
      cases comes
    next target reached =>
      subst same
      obtain ⟨ours, madeOf⟩ :=
        decoding.fits_ofTarget instruction dataBuffer queueName target _ comes
      exact ⟨ours, dataBuffer, target, decoded, ⟨dispatch, worker, reached⟩, madeOf⟩

end DlmmIndexer
