import DlmmIndexer.Processors.Swap
import DlmmIndexer.Processors.Pair

/-!
# Jobs and workers

A job is a queue message together with what its processor makes of the
instruction bytes.  Decoding base58 and Anchor types is third-party work without
database steps, so a payload is the outcome of it: a decoded instruction or event,
nothing, or a thrown error.  The workers run any number of jobs at once and a job
that threw may be run again.  What the RPC answers belongs to each launch of a job.
-/

namespace DlmmIndexer

open Documents JavaScript Atomic

/-- What the processors ask the Solana RPC. -/
structure Rpc extends AccountRpc, MintRpc

/-- The outcome of decoding an instruction in the processor it was routed to. -/
inductive Payload where
  /-- The processor threw before its first database step. -/
  | rejected (failure : Failure)
  /-- The processor returned before its first database step. -/
  | ignored
  | swap (decoded : Option Swap.SwapDecoded)
  | binSwapEvent (decoded : Except Failure (Option Swap.BinSwapEventDecoded))
  | createPosition (decoded : CreatePosition.CreatePositionDecoded)
  | positionCreationEvent (decoded : CreatePosition.PositionCreationEvent)
  | increasePosition (decoded : IncreasePosition.PositionIncreaseEventDecoded)
  | decreasePosition (decoded : DecreasePosition.PositionDecreaseEventDecoded)
  | closePosition (decoded : ClosePosition.ClosePositionDecoded)
  | compositionFees (decoded : CompositionFees.CompositionFeesEventDecoded)
  | initializePair (decoded : InitializePair.InitializePairDecoded)
  | initializeBinStepConfig (decoded : InitializeBinStepConfig.InitializeBinStepConfigDecoded)
  | initializeBinArray (decoded : InitializeBinArray.InitializeBinArrayDecoded)
  | updatePairStaticFeeParameters
      (decoded : UpdatePairStaticFeeParameters.UpdatePairStaticFeeParametersDecoded)
  | quoteAssetBadgeInitialization (decoded : QuoteAssets.QuoteAssetBadgeInitializationEvent)
  | quoteAssetBadgeUpdate (decoded : QuoteAssets.QuoteAssetBadgeUpdateEvent)

/-- The business collections a payload may write. -/
def Payload.writes : Payload → List Coll
  | .rejected _ | .ignored => []
  | .swap _ => [.swapEvent, .binSwapEvent]
  | .binSwapEvent _ => [.bin, .binSwapEvent]
  | .createPosition _ => [.tokenAccount, .liquidityShares, .position]
  | .positionCreationEvent _ => [.liquidityShares, .position]
  | .increasePosition _ | .decreasePosition _ =>
      [.liquidityShares, .bin, .positionUpdateEvent, .pair]
  | .closePosition _ => [.liquidityShares, .position]
  | .compositionFees _ => [.compositionFeesEvent, .pair]
  | .initializePair _ => [.tokenMint, .pair]
  | .initializeBinStepConfig _ => [.binStepConfig]
  | .initializeBinArray _ => [.bin]
  | .updatePairStaticFeeParameters _ => [.pair]
  | .quoteAssetBadgeInitialization _ | .quoteAssetBadgeUpdate _ => [.quoteAsset]

structure Job where
  message : ParsedInstructionMessage
  payload : Payload

namespace Job

/-- The `process` method of the processor a job is routed to. -/
def process (rpc : Rpc) (job : Job) : Action Unit :=
  match job.payload with
  | .rejected failure => .throw failure
  | .ignored => pure ()
  | .swap decoded => Swap.processSwapInstruction job.message decoded
  | .binSwapEvent decoded => Swap.processBinSwapEvent job.message decoded
  | .createPosition decoded =>
      CreatePosition.processInstruction rpc.toAccountRpc job.message decoded
  | .positionCreationEvent decoded => CreatePosition.processEvent job.message decoded
  | .increasePosition decoded => IncreasePosition.process job.message decoded
  | .decreasePosition decoded => DecreasePosition.process job.message decoded
  | .closePosition decoded => ClosePosition.process job.message decoded
  | .compositionFees decoded => CompositionFees.processCompositionFeesEvent job.message decoded
  | .initializePair decoded => InitializePair.processInitializePair rpc.toMintRpc decoded
  | .initializeBinStepConfig decoded => InitializeBinStepConfig.process decoded
  | .initializeBinArray decoded => InitializeBinArray.processInitializeBinArray decoded
  | .updatePairStaticFeeParameters decoded =>
      UpdatePairStaticFeeParameters.process job.message decoded
  | .quoteAssetBadgeInitialization decoded => QuoteAssets.processInitEvent job.message decoded
  | .quoteAssetBadgeUpdate decoded => QuoteAssets.processUpdateEvent job.message decoded

/-- The deduplication parameters of a job, for the kinds that deduplicate. -/
def params (job : Job) : Option CheckAndInsertInstructionParams :=
  match job.payload with
  | .rejected _ | .ignored | .initializePair _ | .initializeBinStepConfig _
  | .initializeBinArray _ => none
  | .swap _ | .binSwapEvent _ => some (job.message.params .SwapProcessor)
  | .createPosition _ | .positionCreationEvent _ =>
      some (job.message.params .CreatePositionProcessor)
  | .increasePosition _ => some (job.message.params .IncreasePositionProcessor)
  | .decreasePosition _ => some (job.message.params .DecreasePositionProcessor)
  | .closePosition _ => some (job.message.params .ClosePositionProcessor)
  | .compositionFees _ => some (CompositionFees.params job.message)
  | .updatePairStaticFeeParameters _ =>
      some (job.message.params .UpdatePairStaticFeeParametersProcessor)
  | .quoteAssetBadgeInitialization _ | .quoteAssetBadgeUpdate _ =>
      some (job.message.params .QuoteAssetProcessor)

/-- The id of the `Instruction` row of a job. -/
def instructionId (job : Job) : Option String := job.params.map generateInstructionId

/-! ## The shape of a job's program -/

/-- A deduplicating job throws before it touches the store, or it is deduplication
around work that stays within the collections of its payload. -/
theorem process_deduplicated (rpc : Rpc) {job : Job} {params : CheckAndInsertInstructionParams}
    (deduplicates : job.params = some params) :
    (∃ failure, job.process rpc = .throw failure) ∨
      ∃ work, job.process rpc = unlessProcessed params work ∧
        ∀ instruction, (work instruction).Within job.payload.writes := by
  rcases job with ⟨message, payload⟩
  cases payload with
  | rejected | ignored | initializePair | initializeBinStepConfig | initializeBinArray =>
      cases deduplicates
  | swap decoded =>
      cases deduplicates
      exact .inr ⟨_, rfl, fun _ => Swap.insertSwapEvent_within⟩
  | binSwapEvent decoded =>
      cases deduplicates
      exact .inr ⟨_, rfl, fun _ => .bind (Program.every_ofExcept _) fun _ =>
        Swap.insertBinSwapEvent_within⟩
  | createPosition decoded =>
      cases deduplicates
      cases owner : CreatePosition.positionTokenAccountOwner rpc.toAccountRpc
          decoded.positionTokenAccount with
      | error failure =>
          refine .inl ⟨failure, ?_⟩
          change CreatePosition.processInstruction _ _ _ = _
          rw [CreatePosition.processInstruction, owner]
          rfl
      | ok account =>
          refine .inr ⟨fun _ => CreatePosition.settleInstruction decoded account, ?_,
            fun _ => CreatePosition.settleInstruction_within⟩
          change CreatePosition.processInstruction _ _ _ = _
          rw [CreatePosition.processInstruction, owner]
          rfl
  | positionCreationEvent decoded =>
      cases deduplicates
      exact .inr ⟨_, rfl, fun _ => CreatePosition.settleEvent_within⟩
  | increasePosition decoded | decreasePosition decoded =>
      cases deduplicates
      exact .inr ⟨_, rfl, fun _ => PositionChange.processPosition_within⟩
  | closePosition decoded =>
      cases deduplicates
      exact .inr ⟨_, rfl, fun _ => ClosePosition.processClosePosition_within⟩
  | compositionFees decoded =>
      cases deduplicates
      exact .inr ⟨_, rfl, fun _ => CompositionFees.recordFees_within⟩
  | updatePairStaticFeeParameters decoded =>
      cases deduplicates
      exact .inr ⟨_, rfl, fun _ =>
        UpdatePairStaticFeeParameters.processUpdatePairStaticFeeParameters_within⟩
  | quoteAssetBadgeInitialization decoded =>
      cases deduplicates
      exact .inr ⟨_, rfl, fun _ => QuoteAssets.insertQuoteAsset_within⟩
  | quoteAssetBadgeUpdate decoded =>
      cases deduplicates
      exact .inr ⟨_, rfl, fun _ => QuoteAssets.updateStatus_within⟩

/-- The other jobs stay within the collections of their payload altogether. -/
theorem process_plain (rpc : Rpc) {job : Job} (plain : job.params = none) :
    (job.process rpc).Within job.payload.writes := by
  rcases job with ⟨message, payload⟩
  cases payload with
  | rejected => exact Program.every_throw _
  | ignored => exact Program.every_return _
  | initializePair => exact InitializePair.processInitializePair_within
  | initializeBinStepConfig => exact InitializeBinStepConfig.process_within
  | initializeBinArray => exact InitializeBinArray.processInitializeBinArray_within
  | _ => cases plain

/-- What a job does beyond deduplication. -/
def work (rpc : Rpc) (job : Job) : Action Unit :=
  match job.payload with
  | .swap decoded => Swap.insertSwapEvent job.message decoded
  | .binSwapEvent decoded => do Swap.insertBinSwapEvent job.message (← .ofExcept decoded)
  | .createPosition decoded => do
      CreatePosition.settleInstruction decoded
        (← .ofExcept (CreatePosition.positionTokenAccountOwner rpc.toAccountRpc
          decoded.positionTokenAccount))
  | .positionCreationEvent decoded => CreatePosition.settleEvent decoded
  | .increasePosition decoded =>
      IncreasePosition.processIncreasePosition job.message
        (generateInstructionId (job.message.params .IncreasePositionProcessor)) decoded
  | .decreasePosition decoded =>
      DecreasePosition.processDecreasePosition job.message
        (generateInstructionId (job.message.params .DecreasePositionProcessor)) decoded
  | .closePosition decoded => ClosePosition.processClosePosition job.message decoded
  | .compositionFees decoded => CompositionFees.recordFees job.message decoded
  | .updatePairStaticFeeParameters decoded =>
      UpdatePairStaticFeeParameters.processUpdatePairStaticFeeParameters decoded
  | .quoteAssetBadgeInitialization eventData => QuoteAssets.insertQuoteAsset eventData
  | .quoteAssetBadgeUpdate eventData => QuoteAssets.updateStatus eventData
  | .rejected _ | .ignored | .initializePair _ | .initializeBinStepConfig _
  | .initializeBinArray _ => job.process rpc

/-- A job that completes was skipped, or inserted its row and did its work, or does
not deduplicate. -/
theorem completes_process {rpc : Rpc} {job : Job} {store after : Store}
    (completes : mongo.Completes (job.process rpc) store () after) :
    (∃ id, job.instructionId = some id ∧ (store .instruction).holds id = true ∧ after = store) ∨
    (∃ params rows, job.params = some params ∧
      (store .instruction).create (instructionData params) = some rows ∧
      mongo.Completes (job.work rpc) (store.put .instruction rows) () after) ∨
    (job.params = none ∧ mongo.Completes (job.work rpc) store () after) := by
  rcases job with ⟨message, payload⟩
  cases payload with
  | rejected | ignored | initializePair | initializeBinStepConfig | initializeBinArray =>
      exact .inr (.inr ⟨rfl, completes⟩)
  | createPosition decoded =>
      obtain ⟨owner, answered, settled⟩ := Database.completes_ofExcept_bind.mp completes
      rcases completes_unlessProcessed.mp settled with ⟨held, rfl⟩ | ⟨rows, created, worked⟩
      · exact .inl ⟨_, rfl, held, rfl⟩
      · exact .inr (.inl ⟨_, rows, rfl, created,
          Database.completes_ofExcept_bind.mpr ⟨owner, answered, worked⟩⟩)
  | _ =>
      rcases completes_unlessProcessed.mp completes with ⟨held, rfl⟩ | ⟨rows, created, worked⟩
      · exact .inl ⟨_, rfl, held, rfl⟩
      · exact .inr (.inl ⟨_, rows, rfl, created, worked⟩)

theorem work_within (rpc : Rpc) (job : Job) : (job.work rpc).Within job.payload.writes := by
  rcases job with ⟨message, payload⟩
  cases payload with
  | rejected => exact Program.every_throw _
  | ignored => exact Program.every_return _
  | swap => exact Swap.insertSwapEvent_within
  | binSwapEvent =>
      exact .bind (Program.every_ofExcept _) fun _ => Swap.insertBinSwapEvent_within
  | createPosition =>
      exact .bind (Program.every_ofExcept _) fun _ => CreatePosition.settleInstruction_within
  | positionCreationEvent => exact CreatePosition.settleEvent_within
  | increasePosition | decreasePosition => exact PositionChange.processPosition_within
  | closePosition => exact ClosePosition.processClosePosition_within
  | compositionFees => exact CompositionFees.recordFees_within
  | initializePair => exact InitializePair.processInitializePair_within
  | initializeBinStepConfig => exact InitializeBinStepConfig.process_within
  | initializeBinArray => exact InitializeBinArray.processInitializeBinArray_within
  | updatePairStaticFeeParameters =>
      exact UpdatePairStaticFeeParameters.processUpdatePairStaticFeeParameters_within
  | quoteAssetBadgeInitialization => exact QuoteAssets.insertQuoteAsset_within
  | quoteAssetBadgeUpdate => exact QuoteAssets.updateStatus_within

theorem instruction_not_mem_writes (job : Job) : Coll.instruction ∉ job.payload.writes := by
  rcases job with ⟨message, payload⟩
  cases payload <;> simp [Payload.writes]

/-- A job writes the collections of its payload and `Instruction`. -/
theorem process_within (rpc : Rpc) (job : Job) :
    (job.process rpc).Within (.instruction :: job.payload.writes) := by
  cases deduplicates : job.params with
  | none => exact (process_plain rpc deduplicates).mono (List.subset_cons_self _ _)
  | some params =>
      rcases process_deduplicated rpc deduplicates with ⟨failure, same⟩ | ⟨work, same, within⟩
      · rw [same]
        exact Program.every_throw _
      · rw [same]
        exact within_unlessProcessed within

/-- The work of a job leaves `Instruction` alone. -/
theorem instruction_of_work {rpc : Rpc} {job : Job} {middle after : Store}
    (worked : mongo.Completes (job.work rpc) middle () after) :
    after .instruction = middle .instruction :=
  (job.work_within rpc).completes job.instruction_not_mem_writes worked

end Job

/-! ## Launches -/

/-- One launch of a job, with what the RPC answers it.  Another launch of the same job may
get other answers. -/
structure Launch extends Job where
  rpc : Rpc

namespace Launch

def process (launch : Launch) : Action Unit := launch.toJob.process launch.rpc

/-- What a launch does beyond deduplication. -/
def work (launch : Launch) : Action Unit := launch.toJob.work launch.rpc

end Launch

/-! ## Launches one at a time -/

/-- The `Instruction` rows are those of the jobs done, under lower case names. -/
structure Recorded (done : List Launch) (store : Store) : Prop where
  ids : ∀ id, (store .instruction).holds id = true ↔ some id ∈ done.map (·.instructionId)
  names : ∀ row ∈ store .instruction, ∃ name : ProcessorName,
    row.processorName = toLowerCase name.text

theorem recorded_empty : Recorded [] .empty where
  ids id := by simp [Store.empty]
  names row member := absurd member (Collection.not_mem_empty row)

section Recorded

variable {done : List Launch} {launch : Launch} {store middle after : Store}

/-- A job that completes repeats an earlier one and does nothing, or does its work. -/
theorem Recorded.cases (recorded : Recorded done store)
    (completes : mongo.Completes launch.process store () after) :
    (∃ id, launch.instructionId = some id ∧ some id ∈ done.map (·.instructionId) ∧ after = store) ∨
    ∃ middle, (∀ coll ≠ .instruction, middle coll = store coll) ∧
      mongo.Completes launch.work middle () after ∧
      (launch.params = none ∨ launch.instructionId ∉ done.map (·.instructionId)) := by
  rcases launch.completes_process completes with
    ⟨id, identified, held, rfl⟩ | ⟨params, rows, deduplicates, created, worked⟩ | ⟨plain, worked⟩
  · exact .inl ⟨id, identified, (recorded.ids id).mp held, rfl⟩
  · refine .inr ⟨_, fun coll other => Store.put_other other, worked, .inr ?_⟩
    rw [Job.instructionId, deduplicates, Option.map_some, ← recorded.ids,
      unrecorded_of_create created]
    exact Bool.false_ne_true
  · exact .inr ⟨store, fun coll _ => rfl, worked, .inl plain⟩

theorem Recorded.step (recorded : Recorded done store)
    (completes : mongo.Completes launch.process store () after) :
    Recorded (done ++ [launch]) after := by
  have ids (rows : Collection Instruction.id)
      (grown : ∀ id, rows.holds id = true ↔
        (store .instruction).holds id = true ∨ launch.instructionId = some id) (id : String) :
      rows.holds id = true ↔ some id ∈ (done ++ [launch]).map (·.instructionId) := by
    rw [grown, List.map_append, List.mem_append, List.map_singleton, List.mem_singleton,
      ← recorded.ids id, eq_comm (a := some id)]
  rcases launch.completes_process completes with
    ⟨own, identified, held, rfl⟩ | ⟨params, rows, deduplicates, created, worked⟩ | ⟨plain, worked⟩
  · refine ⟨ids _ fun id => ?_, recorded.names⟩
    rw [identified, Option.some_inj]
    exact ⟨.inl, fun either => either.elim (fun here => here) fun same => same ▸ held⟩
  · rw [← Store.put_same store .instruction rows] at created
    have same := Job.instruction_of_work worked
    rw [Store.put_same] at created same
    refine ⟨same ▸ ids rows fun id => ?_, fun row member => ?_⟩
    · rw [Collection.holds_create_iff created, Job.instructionId, deduplicates, Option.map_some,
        Option.some_inj]
      rfl
    · rcases (Collection.mem_create created).mp (same ▸ member) with old | rfl
      · exact recorded.names row old
      · exact ⟨params.processorName, rfl⟩
  · have same := Job.instruction_of_work worked
    refine ⟨same ▸ ids _ fun id => ?_, same ▸ recorded.names⟩
    rw [Job.instructionId, plain]
    simp

/-- A close that was not skipped does not complete: it looks for a processor name that
no row has. -/
theorem Recorded.not_close (recorded : Recorded done after)
    {decoded : ClosePosition.ClosePositionDecoded}
    (closes : launch.payload = .closePosition decoded)
    (worked : mongo.Completes launch.work middle () after) : False := by
  have same := Job.instruction_of_work worked
  rcases launch with ⟨⟨message, payload⟩, rpc⟩
  cases closes
  obtain ⟨row, member, spelled⟩ := ClosePosition.of_completes_processClosePosition worked
  obtain ⟨name, lower⟩ := recorded.names row (same ▸ member)
  rw [spelled] at lower
  cases name <;> exact absurd lower (by decide)

end Recorded

/-! ## Jobs under ids of their own -/

/-- None of the jobs is recorded. -/
def Unrecorded (jobs : List Job) (store : Store) : Prop :=
  ∀ job ∈ jobs, ∀ id, job.instructionId = some id → (store .instruction).holds id = false

/-- Jobs that are not recorded and have different ids are all worked on, so what the work
of each keeps holds after all of them. -/
theorem Unrecorded.invariant {rpc : Rpc} {guard : Store → Job → Prop} {jobs : List Job}
    {start last : Store} (unrecorded : Unrecorded jobs start)
    (distinct : (jobs.filterMap Job.instructionId).Nodup)
    (ran : Sequence mongo (Job.process rpc) guard start jobs last)
    (kept : List Job → Store → Prop) (holds : kept [] start)
    (step : ∀ (done : List Job) (job : Job) (rest : List Job) (store middle after : Store),
      jobs = done ++ job :: rest → guard store job →
        (∀ coll ≠ .instruction, middle coll = store coll) →
          mongo.Completes (job.work rpc) middle () after → kept done store →
            kept (done ++ [job]) after) :
    kept jobs last := by
  refine And.right (ran.invariant (fun done store =>
    (∀ id, (store .instruction).holds id = true → (start .instruction).holds id = true ∨
      id ∈ done.filterMap Job.instructionId) ∧ kept done store)
    ⟨fun id held => .inl held, holds⟩ ?_)
  rintro done job rest store after split allowed completes ⟨taken, held⟩
  have member : job ∈ jobs := by simp [split]
  rcases job.completes_process completes with
    ⟨id, identified, known, -⟩ | ⟨params, rows, deduplicates, created, worked⟩ | ⟨plain, worked⟩
  · rcases taken id known with old | earlier
    · rw [unrecorded job member id identified] at old
      cases old
    · rw [split, List.filterMap_append, List.nodup_append] at distinct
      exact absurd rfl (distinct.2.2 id earlier id
        (List.mem_filterMap.mpr ⟨job, List.mem_cons_self, identified⟩))
  · refine ⟨fun id known => ?_, step done job rest _ _ _ split allowed
      (fun coll other => Store.put_other other) worked held⟩
    rw [Job.instruction_of_work worked, Store.put_same,
      Collection.holds_create_iff created] at known
    rw [List.filterMap_append, List.mem_append, ← or_assoc]
    refine known.imp (taken id) fun same => List.mem_filterMap.mpr ⟨job, List.mem_cons_self, ?_⟩
    rw [Job.instructionId, deduplicates, ← same]
    rfl
  · refine ⟨fun id known => ?_, step done job rest _ _ _ split allowed (fun _ _ => rfl) worked held⟩
    rw [Job.instruction_of_work worked] at known
    rw [List.filterMap_append, List.mem_append, ← or_assoc]
    exact .inl (taken id known)

/-- The store after the launches ran one after another, each to its end. -/
def lastStore (store : Store) (launches : List Launch) : Store :=
  launches.foldl (fun store launch => (mongo.run launch.process store).2) store

/-- The same with one RPC for all jobs. -/
def storeAfter (rpc : Rpc) (store : Store) (jobs : List Job) : Store :=
  lastStore store (jobs.map fun job => ⟨job, rpc⟩)

/-! ## Sample jobs -/

/-- An RPC that knows no account and no mint. -/
def silentRpc : Rpc where
  getTokenAccount _ := .ok none
  getAccountCreator _ := .ok none
  fetchTokenInfo _ := ⟨none, none, none⟩
  fetchTokenMetadata _ := ⟨none, none⟩

/-- A launch to which the RPC tells nothing. -/
abbrev Job.silent (job : Job) : Launch := ⟨job, silentRpc⟩

/-- The initialization event of a quote asset badge. -/
def badgeJob : Job where
  message := ⟨7, "sig", 2, true, .at 1⟩
  payload := .quoteAssetBadgeInitialization ⟨"badge", "mint"⟩

def configJob : Job where
  message := ⟨5, "sig", 0, false, .undefined⟩
  payload := .initializeBinStepConfig ⟨10, .Open, ⟨1, 1, 1, 1, 1, 1, 1⟩, "book", "config"⟩

def pairJob : Job where
  message := ⟨6, "sig", 0, false, .undefined⟩
  payload := .initializePair ⟨8388608, "book", "mintX", "mintY", "config", "badge", "pair"⟩

def arrayJob : Job where
  message := ⟨7, "sig", 0, false, .undefined⟩
  payload := .initializeBinArray ⟨32768, "pair", "array"⟩

/-- The store after a config and a pair. -/
def pairStore : Store := storeAfter silentRpc .empty [configJob, pairJob]

theorem completes_configJob : mongo.Completes (configJob.process silentRpc) Store.empty ()
    (storeAfter silentRpc .empty [configJob]) := rfl

theorem completes_pairJob : mongo.Completes (pairJob.process silentRpc)
    (storeAfter silentRpc .empty [configJob]) () pairStore := rfl

/-- The first bin of `arrayJob`. -/
def sampleBin : Bin := InitializeBinArray.binDocument ⟨32768, "pair", "array"⟩ 0

theorem completes_arrayJob :
    ∃ bins, bins.findOne (binId "pair" 8388608) = some sampleBin ∧
      mongo.Completes (arrayJob.process silentRpc) pairStore () (pairStore.put .bin bins) := by
  have empty : pairStore .bin = .empty _ := rfl
  obtain ⟨bins, inserted, completes⟩ := @InitializeBinArray.completes_processInitializeBinArray
    ⟨32768, "pair", "array"⟩ pairStore fun _ _ => by rw [empty]; rfl
  have named : sampleBin.id = binId "pair" 8388608 := congrArg (binId "pair") (by decide)
  refine ⟨bins, ?_, completes⟩
  rw [← named]
  exact Collection.findOne_of_mem ((Collection.mem_insertMany inserted).mpr
    (.inr (InitializeBinArray.binDocument_mem (by decide))))

end DlmmIndexer
