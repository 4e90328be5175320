import DlmmIndexer.Movement

/-!
# Closing positions

A close asks the `Instruction` collection for the decrease of the same transaction.
The rows there are written by one service, which stores the processor name in lower
case, and the close asks for the name as the enumeration spells it.  No row that jobs
can have written answers the query, so every close throws.
-/

namespace DlmmIndexer

open Documents JavaScript Atomic

/-! ## The rows of the deduplication -/

/-- The operation writes no `Instruction` row, or inserts one that the deduplication makes. -/
def Op.Records {ρ : Type} : Op ρ → Prop
  | .create .instruction row => ∃ params, row = instructionData params
  | operation => operation.target ≠ some .instruction

theorem Op.records_of_target {ρ : Type} {operation : Op ρ}
    (other : operation.target ≠ some .instruction) : operation.Records := by
  cases operation with
  | create coll row =>
      cases coll with
      | instruction => exact absurd rfl other
      | _ => exact other
  | _ => exact other

theorem Op.records_of_within {colls : List Coll} (absent : .instruction ∉ colls) {ρ : Type}
    {operation : Op ρ} (within : Op.Within colls operation) : operation.Records :=
  records_of_target fun written => absent (within _ written)

theorem unlessProcessed_records {params : CheckAndInsertInstructionParams} {colls : List Coll}
    {work : Instruction → Action Unit} (absent : .instruction ∉ colls)
    (within : ∀ instruction, (work instruction).Within colls) :
    (unlessProcessed params work).Every (fun {_} operation => Op.Records operation) := by
  have reads : (isInstructionProcessed (generateInstructionId params)).Every
      (fun {_} operation => Op.Records operation) :=
    Program.every_perform (Op.records_of_target nofun)
  have inserts : (insertInstruction params).Every (fun {_} operation => Op.Records operation) :=
    .bind (Program.every_perform ⟨params, rfl⟩) fun _ => Program.every_return _
  refine .bind (.bind reads fun isProcessed => ?_) fun instruction => ?_
  · cases isProcessed with
    | true => exact Program.every_return _
    | false => exact .bind inserts fun _ => Program.every_return _
  · cases instruction with
    | none => exact Program.every_return _
    | some instruction =>
        exact .imp (fun operation => Op.records_of_within absent) (within instruction)

theorem Job.process_records (rpc : Rpc) (job : Job) :
    (job.process rpc).Every (fun {_} operation => Op.Records operation) := by
  cases deduplicates : job.params with
  | none =>
      exact .imp (fun _ => Op.records_of_within job.instruction_not_mem_writes)
        (job.process_plain rpc deduplicates)
  | some params =>
      rcases job.process_deduplicated rpc deduplicates with ⟨failure, threw⟩ | ⟨work, same, within⟩
      · rw [threw]
        exact Program.every_throw _
      · rw [same]
        exact unlessProcessed_records job.instruction_not_mem_writes within

/-- Every `Instruction` row has been inserted by the deduplication. -/
def Normalised (store : Store) : Prop :=
  ∀ row ∈ store .instruction, ∃ params, row = instructionData params

theorem normalised_empty : Normalised .empty :=
  fun row member => absurd member (Collection.not_mem_empty row)

theorem Normalised.create {store : Store} (normalised : Normalised store)
    {params : CheckAndInsertInstructionParams} {rows : Collection Instruction.id}
    (created : (store .instruction).create (instructionData params) = some rows) :
    Normalised (store.put .instruction rows) := by
  intro row member
  rw [Store.put_same] at member
  rcases (Collection.mem_create created).mp member with old | rfl
  · exact normalised row old
  · exact ⟨params, rfl⟩

theorem Op.Records.keeps {ρ : Type} {operation : Op ρ} (records : operation.Records)
    (store : Store) (normalised : Normalised store) :
    Normalised (operation.apply store).2 ∧
      ∀ after, operation.fails store after → Normalised after := by
  have untouched {after : Store} (same : after .instruction = store .instruction) :
      Normalised after := by
    rw [Normalised, same]
    exact normalised
  by_cases writes : operation.target = some .instruction
  · cases operation with
    | create coll row =>
        obtain rfl : coll = .instruction := Option.some.inj writes
        obtain ⟨params, rfl⟩ := records
        refine ⟨?_, fun after same => untouched (congrFun same _)⟩
        simp only [Op.apply]
        split
        next rows created _ => exact normalised.create created
        · exact normalised
    | _ => exact absurd writes records
  · have frame := Op.frame writes store
    exact ⟨untouched frame.1, fun after failed => untouched (frame.2 after failed)⟩

/-- In every store that jobs reach, whatever their order and their failures, the rows of
`Instruction` are those of the deduplication. -/
theorem normalised_of_reaches {guard : Store → Process Op Failure Launch →
      Process Op Failure Launch → Prop} {system : System Op Store Failure Launch}
    (reaches : Reaches mongo Launch.process guard (.initial .empty) system) :
    Normalised system.store :=
  Reaches.kept_of_every (fun launch => launch.process_records launch.rpc)
    (fun _ store records normalised => records.keeps store normalised) reaches normalised_empty

/-! ## What a close is to do -/

namespace ClosePosition

/-- The deduplication has recorded a decrease of the same transaction and instruction. -/
def DecreaseRecorded (store : Store) (message : ParsedInstructionMessage) : Prop :=
  ∃ params : CheckAndInsertInstructionParams,
    params.processorName = .DecreasePositionProcessor ∧
    params.signature = message.signature ∧
    params.blockNumber = message.blockNumber ∧
    params.instructionIndex = message.instructionIndex ∧
    instructionData params ∈ store .instruction

/-- The position and its shares are gone, and nothing else of the business has changed. -/
structure Closed (decoded : ClosePositionDecoded) (store after : Store) : Prop where
  position : ∀ row, row ∈ after .position ↔ row ∈ store .position ∧ row.id ≠ decoded.position
  shares : ∀ row, row ∈ after .liquidityShares ↔
    row ∈ store .liquidityShares ∧ row.positionId ≠ decoded.position
  others : ∀ coll, coll.Business → coll ≠ .position → coll ≠ .liquidityShares →
    after coll = store coll

/-- What is to come of a close: with its decrease recorded it completes and removes the
position, without it throws and changes nothing. -/
structure Settles (store : Store) (message : ParsedInstructionMessage)
    (decoded : ClosePositionDecoded) : Prop where
  closes : DecreaseRecorded store message →
    ∃ after, mongo.Completes (process message decoded) store () after ∧
      Closed decoded store after
  refuses : ¬DecreaseRecorded store message →
    ∃ failure after, mongo.run (process message decoded) store = (.error failure, after) ∧
      ∀ coll : Coll, coll.Business → after coll = store coll

variable {store : Store} {message : ParsedInstructionMessage} {decoded : ClosePositionDecoded}

/-- No stored processor name is spelled as the query spells it. -/
theorem isDecreasePosition_eq_false (normalised : Normalised store) :
    (store .instruction).rows.any (isDecreasePosition message) = false := by
  rw [List.any_eq_false]
  intro row member matched
  obtain ⟨params, rfl⟩ := normalised row member
  simp only [isDecreasePosition, Bool.and_eq_true, decide_eq_true_eq] at matched
  have spelled : toLowerCase params.processorName.text =
      ProcessorName.DecreasePositionProcessor.text := matched.1.1.2
  cases name : params.processorName <;>
    exact absurd (name ▸ spelled) (by decide)

/-- The query finds nothing, so the close throws. -/
theorem run_processClosePosition (normalised : Normalised store) :
    mongo.run (processClosePosition message decoded) store =
      (.error (.error
        ("Indexing Close Position before Decrease Position event for txn: " ++ message.signature)),
        store) := by
  have queried : mongo.run (existsWhere .instruction (isDecreasePosition message)) store =
      (.ok false, store) :=
    completes_existsWhere.mpr ⟨(isDecreasePosition_eq_false normalised).symm, rfl⟩
  rw [processClosePosition, Database.run_bind, queried]
  rfl

/-- A close that was not processed before records itself and throws. -/
theorem run_process (normalised : Normalised store)
    (fresh : (store .instruction).holds
      (generateInstructionId (message.params .ClosePositionProcessor)) = false) :
    ∃ failure rows, mongo.run (process message decoded) store =
      (.error failure, store.put .instruction rows) := by
  obtain ⟨rows, created⟩ : ∃ rows, (store .instruction).create
      (instructionData (message.params .ClosePositionProcessor)) = some rows :=
    Collection.exists_create (Collection.holds_eq_false.mp fresh)
  have recorded : mongo.run (checkAndInsertInstruction (message.params .ClosePositionProcessor))
      store = (.ok (some (instructionData (message.params .ClosePositionProcessor))),
        store.put .instruction rows) :=
    completes_checkAndInsertInstruction.mpr (.inr ⟨rfl, rows, created, rfl⟩)
  have refused := @run_processClosePosition _ message decoded (normalised.create created)
  refine ⟨_, rows, Eq.trans ?_ refused⟩
  rw [process, unlessProcessed, Database.run_bind, recorded]

/-! ## A recorded decrease -/

def sampleCreation : Job where
  message := ⟨8, "open", 0, true, .at 0⟩
  payload := .positionCreationEvent ⟨"pair", "position", "mint", 8388608, 8388671⟩

/-- A decrease without bins in the transaction of the close. -/
def sampleDecrease : Job where
  message := ⟨9, "close", 0, true, .at 0⟩
  payload := .decreasePosition ⟨"pair", "position", [], [], [], []⟩

def sampleMessage : ParsedInstructionMessage := ⟨9, "close", 0, false, .undefined⟩

def sampleDecoded : ClosePositionDecoded := ⟨"pair", "position"⟩

theorem completes_sampleCreation : ∃ store,
    mongo.Completes (sampleCreation.process silentRpc) pairStore () store ∧
    (store .position).findOne "position" =
      some ⟨"position", "pair", "mint", "dummy-owner-id", 8388608, 8388671⟩ ∧
    store .pair = pairStore .pair ∧
    (store .instruction).rows =
      [instructionData (sampleCreation.message.params .CreatePositionProcessor)] := by
  obtain ⟨instructions, recorded⟩ : ∃ rows, (pairStore .instruction).create
      (instructionData (sampleCreation.message.params .CreatePositionProcessor)) = some rows :=
    ⟨_, rfl⟩
  obtain ⟨shares, positions, -, created, inserted⟩ :=
    @CreatePosition.completes_insertPosition
      ⟨"position", "pair", "mint", "dummy-owner-id", 8388608, 8388671⟩
      (pairStore.put .instruction instructions) (fun _ => rfl) rfl rfl
  refine ⟨_, completes_unlessProcessed.mpr (.inr ⟨instructions, recorded,
    Database.completes_bind.mpr ⟨none, _, completes_findOne.mpr ⟨rfl, rfl⟩, inserted⟩⟩),
    ?_, rfl, ?_⟩
  · rw [Store.put_same]
    exact Collection.findOne_create_self created
  · rw [Store.put_other (by decide), Store.put_other (by decide), Store.put_same]
    exact Collection.rows_create recorded

theorem sample_reached : ∃ (system : System Op Store Failure Launch) (row : Position),
    Reaches mongo Launch.process Unguarded (.initial .empty) system ∧
    (system.store .instruction).holds
      (generateInstructionId (sampleMessage.params .ClosePositionProcessor)) = false ∧
    (system.store .position).findOne sampleDecoded.position = some row ∧
    row.pairId = sampleDecoded.pair ∧
    DecreaseRecorded system.store sampleMessage := by
  obtain ⟨opened, creates, found, pairs, instructions⟩ := completes_sampleCreation
  have fresh {name : ProcessorName} {message : ParsedInstructionMessage}
      (different : generateInstructionId (message.params name) ≠
        generateInstructionId (sampleCreation.message.params .CreatePositionProcessor)) :
      (opened .instruction).holds (generateInstructionId (message.params name)) = false := by
    rw [Collection.holds_eq_false, Collection.findOne_eq_none]
    intro row member
    rw [← Collection.mem_rows, instructions, List.mem_singleton] at member
    exact member ▸ different.symm
  obtain ⟨pair, foundPair, reserveX, reserveY⟩ : ∃ pair,
      (pairStore .pair).findOne "pair" = some pair ∧ pair.reserveX = "0" ∧ pair.reserveY = "0" :=
    ⟨_, rfl, rfl, rfl⟩
  obtain ⟨store, decreases, carried⟩ := @DecreasePosition.completes_nil sampleDecrease.message
    ⟨"pair", "position", [], [], [], []⟩ _ _ opened rfl (fresh (by decide))
    (by rw [pairs]; exact foundPair) found (by rw [reserveX]; decide) (by rw [reserveY]; decide)
    8388608
  have rows := carried.instruction
  rw [instructions] at rows
  have decreased : mongo.Completes (sampleDecrease.process silentRpc) opened () store := decreases
  have ran : Sequence mongo Launch.process (fun _ _ => True) Store.empty
      [configJob.silent, pairJob.silent, sampleCreation.silent, sampleDecrease.silent] store :=
    .cons trivial completes_configJob (.cons trivial completes_pairJob
      (.cons trivial creates (.cons trivial decreased (.nil _))))
  obtain ⟨processes, reached⟩ := ran.reaches []
  refine ⟨_, ⟨"position", "pair", "mint", "dummy-owner-id", 8388608, 8388671⟩, reached, ?_, ?_, rfl,
    sampleDecrease.message.params .DecreasePositionProcessor, rfl, rfl, rfl, rfl, ?_⟩
  · rw [Collection.holds_eq_false, Collection.findOne_eq_none]
    intro row member
    rw [← Collection.mem_rows, rows] at member
    simp only [List.singleton_append, List.mem_cons, List.not_mem_nil, or_false] at member
    rcases member with rfl | rfl <;> decide
  · exact (congrArg (·.findOne "position") (carried.others .position (by decide))).trans found
  · rw [← Collection.mem_rows, rows]
    exact List.mem_cons_of_mem _ List.mem_cons_self

/-- In every store that jobs reach, a close that was not processed before does what it is
to do exactly when the decrease of its transaction is not recorded. -/
theorem close_settles_iff {system : System Op Store Failure Launch}
    (reaches : Reaches mongo Launch.process Unguarded (.initial .empty) system)
    (fresh : (system.store .instruction).holds
      (generateInstructionId (message.params .ClosePositionProcessor)) = false) :
    Settles system.store message decoded ↔ ¬DecreaseRecorded system.store message := by
  obtain ⟨failure, rows, threw⟩ :=
    @run_process _ message decoded (normalised_of_reaches reaches) fresh
  constructor
  · intro settles recorded
    obtain ⟨after, completes, -⟩ := settles.closes recorded
    rw [Database.Completes, threw] at completes
    cases completes
  · intro unrecorded
    exact ⟨fun recorded => absurd recorded unrecorded,
      fun _ => ⟨failure, _, threw, fun coll business => Store.put_other business⟩⟩

/-- The empty store has no decrease, and the close throws as it is to do; with the decrease
recorded it does so as well. -/
theorem close_settles_iff_sample :
    Settles .empty sampleMessage sampleDecoded ∧
      ∃ system : System Op Store Failure Launch,
        ¬Settles system.store sampleMessage sampleDecoded := by
  obtain ⟨system, row, reached, fresh, -, -, recorded⟩ := sample_reached
  have settled := @close_settles_iff sampleMessage sampleDecoded (.initial .empty) .refl rfl
  refine ⟨settled.mpr ?_,
    system, fun settles => (close_settles_iff reached fresh).mp settles recorded⟩
  rintro ⟨params, -, -, -, -, member⟩
  exact Collection.not_mem_empty _ member

/-- The position is there and its decrease is recorded, and the close throws. -/
theorem close_refused : ∃ (system : System Op Store Failure Launch) (row : Position),
    Reaches mongo Launch.process Unguarded (.initial .empty) system ∧
    (system.store .instruction).holds
      (generateInstructionId (sampleMessage.params .ClosePositionProcessor)) = false ∧
    (system.store .position).findOne sampleDecoded.position = some row ∧
    row.pairId = sampleDecoded.pair ∧
    DecreaseRecorded system.store sampleMessage ∧
    (∃ failure, (mongo.run (process sampleMessage sampleDecoded) system.store).1 =
      .error failure) ∧
    ¬Settles system.store sampleMessage sampleDecoded := by
  obtain ⟨system, row, reached, fresh, found, ofPair, recorded⟩ := sample_reached
  obtain ⟨failure, rows, threw⟩ :=
    @run_process _ sampleMessage sampleDecoded (normalised_of_reaches reached) fresh
  refine ⟨system, row, reached, fresh, found, ofPair, recorded, ⟨failure, by rw [threw]⟩,
    fun settles => ?_⟩
  obtain ⟨after, completes, -⟩ := settles.closes recorded
  rw [Database.Completes, threw] at completes
  cases completes

end ClosePosition

end DlmmIndexer
