import Mathlib.Data.Set.Basic
import DlmmIndexer.CompositeIds
import DlmmIndexer.Permanence

/-!
# What a job touches

The rows that a job looks up, inserts and assigns can be told from its message, by their
ids.  Lookups follow ids that are in the message, with two exceptions: the mints of an
event's pair are named by the pair's row, and a pair initialization lists all configs.  An
inserted event or deduplication row names the place of its instruction in the chain, and a
position the mint of its message.

Every operation of a job keeps to this (`Job.traced`), except that a close has a branch
with deletions.
-/

namespace DlmmIndexer

open Documents JavaScript Atomic Text

/-! ## Ids in messages -/

/-- The share rows of a position. -/
def sharesOf (position : String) : Set String :=
  {id | ∃ index : ℤ, id = liquidityShareId position index}

/-- The ids that a change of a position inserts or assigns. -/
def changeWrites (instructionId pair position : String) (entries : List BinEntry) :
    Coll → Set String
  | .pair => {pair}
  | .liquidityShares => sharesOf position
  | .bin => {id | ∃ entry ∈ entries, id = binId pair entry.lbBinId}
  | .positionUpdateEvent =>
      {id | ∃ entry ∈ entries, id = joined instructionId (decimal entry.lbBinId)}
  | _ => ∅

namespace Payload

/-- The ids that a payload inserts or assigns. -/
def writesAt (message : ParsedInstructionMessage) : Payload → Coll → Set String
  | .swap (some _), .swapEvent => {Swap.getSwapEventId message message.innerInstructionIndex}
  | .binSwapEvent (.ok (some decoded)), .bin => {binId decoded.pair decoded.binId}
  | .binSwapEvent (.ok (some decoded)), .binSwapEvent =>
      {Swap.getBinSwapEventId message message.innerInstructionIndex
        (binId decoded.pair decoded.binId)}
  | .createPosition decoded, .tokenAccount => {decoded.positionTokenAccount}
  | .createPosition decoded, .liquidityShares => sharesOf decoded.position
  | .createPosition decoded, .position => {decoded.position}
  | .positionCreationEvent decoded, .liquidityShares => sharesOf decoded.position
  | .positionCreationEvent decoded, .position => {decoded.position}
  | .increasePosition decoded, coll =>
      changeWrites (generateInstructionId (message.params .IncreasePositionProcessor))
        decoded.pair decoded.position decoded.entries coll
  | .decreasePosition decoded, coll =>
      changeWrites (generateInstructionId (message.params .DecreasePositionProcessor))
        decoded.pair decoded.position decoded.entries coll
  | .compositionFees decoded, .pair => {decoded.pair}
  | .compositionFees decoded, .compositionFeesEvent =>
      {CompositionFees.getCompositionFeesEventId message (binId decoded.pair decoded.activeId)}
  | .initializePair decoded, .pair => {decoded.pair}
  | .initializePair decoded, .tokenMint => {decoded.tokenMintX, decoded.tokenMintY}
  | .initializeBinStepConfig decoded, .binStepConfig => {decoded.binStepConfig}
  | .initializeBinArray decoded, .bin =>
      {id | ∃ bin ∈ InitializeBinArray.binDocuments decoded, id = bin.id}
  | .updatePairStaticFeeParameters decoded, .pair => {decoded.pair}
  | .quoteAssetBadgeInitialization decoded, .quoteAsset => {decoded.quoteAssetBadge}
  | .quoteAssetBadgeUpdate decoded, .quoteAsset => {decoded.quoteAssetBadge}
  | _, _ => ∅

/-- The further ids that a payload looks up; those of mints are in the pair's row. -/
def looksAt (message : ParsedInstructionMessage) : Payload → Coll → Set String
  | .binSwapEvent (.ok (some decoded)), .pair => {decoded.pair}
  | .binSwapEvent (.ok (some _)), .tokenMint => Set.univ
  | .binSwapEvent (.ok (some _)), .swapEvent => {Swap.getSwapEventId message .null}
  | .increasePosition decoded, .position => {decoded.position}
  | .decreasePosition decoded, .position => {decoded.position}
  | .compositionFees _, .tokenMint => Set.univ
  | .initializePair decoded, .binStepConfig => {decoded.binStepConfig}
  | _, _ => ∅

/-- The mint that a payload gives to its position. -/
def mint? : Payload → Option String
  | .createPosition decoded => some decoded.positionMint
  | .positionCreationEvent decoded => some decoded.positionMint
  | _ => none

end Payload

namespace Job

def writesAt (job : Job) : Coll → Set String
  | .instruction => {id | job.instructionId = some id}
  | coll => job.payload.writesAt job.message coll

def looksAt (job : Job) : Coll → Set String := job.payload.looksAt job.message

end Job

/-- Block, signature and instruction index, of a row that has them. -/
def Coll.identity? : (coll : Coll) → coll.Row → Option (ℕ × String × ℕ)
  | .swapEvent, row => some (row.blockNumber, row.signature, row.index)
  | .binSwapEvent, row => some (row.blockNumber, row.signature, row.index)
  | .positionUpdateEvent, row => some (row.blockNumber, row.signature, row.index)
  | .compositionFeesEvent, row => some (row.blockNumber, row.signature, row.index)
  | .instruction, row => some (row.blockNumber, row.signature, row.index)
  | _, _ => none

/-- A row that a job may insert, besides its id. -/
def Job.Names (job : Job) : (coll : Coll) → coll.Row → Prop
  | .instruction, row => ∃ params, job.params = some params ∧ row = instructionData params
  | .position, row => job.payload.mint? = some row.positionMintId
  | coll, row => ∀ identity ∈ coll.identity? row, identity = job.message.identity

/-- An assignment that a job may make: none of an identity, and none of a mint but to that
of the message. -/
def Job.Assigns (job : Job) : (coll : Coll) → (coll.Row → coll.Row) → Prop
  | .instruction, _ => False
  | .position, set => ∀ row,
      (set row).positionMintId = row.positionMintId ∨
        job.payload.mint? = some (set row).positionMintId
  | coll, set => ∀ row, coll.identity? (set row) = coll.identity? row

/-- The operations that the message of a job accounts for. -/
def Op.Traced (job : Job) {ρ : Type} : Op ρ → Prop
  | .findOne coll id => id ∈ job.writesAt coll ∪ job.looksAt coll
  | .exists coll id => id ∈ job.writesAt coll ∪ job.looksAt coll
  | .find coll => coll = .binStepConfig ∧ (job.looksAt .binStepConfig).Nonempty
  | .existsWhere _ _ => False
  | .create coll row => coll.id row ∈ job.writesAt coll ∧ job.Names coll row
  | .insertMany coll rows =>
      rows ≠ [] ∧ ∀ row ∈ rows, coll.id row ∈ job.writesAt coll ∧ job.Names coll row
  | .updateOne coll id update => id ∈ job.writesAt coll ∧ job.Assigns coll update.set
  | .updateWhere _ filter _ => ∀ row, filter row = false
  | .deleteShares _ => False
  | .deletePosition _ => False

/-! ## Operations and programs -/

section Traced

variable {job : Job}

abbrev Action.Traced (job : Job) {α : Type} (program : Action α) : Prop :=
  Program.Every (fun {_} operation => operation.Traced job) program

theorem traced_findOne {coll : Coll} {id : String}
    (inside : id ∈ job.writesAt coll ∪ job.looksAt coll) : (findOne coll id).Traced job :=
  Program.every_perform inside

theorem traced_existsId {coll : Coll} {id : String}
    (inside : id ∈ job.writesAt coll ∪ job.looksAt coll) : (existsId coll id).Traced job :=
  Program.every_perform inside

theorem traced_create {coll : Coll} {row : coll.Row} (inside : coll.id row ∈ job.writesAt coll)
    (names : job.Names coll row) : (create coll row).Traced job :=
  Program.every_perform ⟨inside, names⟩

theorem traced_updateOne {coll : Coll} {id : String} {update : Update coll.id}
    (inside : id ∈ job.writesAt coll) (assigns : job.Assigns coll update.set) :
    (updateOne coll id update).Traced job :=
  Program.every_perform ⟨inside, assigns⟩

theorem traced_fail {α : Type} {message : String} : (fail message : Action α).Traced job :=
  Program.every_throw _

theorem traced_compute {α : Type} {outcome : Except JavaScript.Error α} :
    (compute outcome).Traced job :=
  Program.every_ofExcept _

theorem Job.id_mem_writesAt {params : CheckAndInsertInstructionParams}
    (deduplicates : job.params = some params) :
    generateInstructionId params ∈ job.writesAt .instruction := by
  change job.params.map generateInstructionId = some (generateInstructionId params)
  rw [deduplicates, Option.map_some]

/-- Deduplication touches the row of the instruction. -/
theorem traced_unlessProcessed {params : CheckAndInsertInstructionParams}
    (deduplicates : job.params = some params) {work : Instruction → Action Unit}
    (worked : (work (instructionData params)).Traced job) :
    (unlessProcessed params work).Traced job := by
  have inside := Job.id_mem_writesAt deduplicates
  rw [unlessProcessed_eq]
  refine ⟨.inl inside, fun isProcessed => ?_⟩
  cases isProcessed with
  | true => trivial
  | false => exact ⟨⟨inside, params, deduplicates, rfl⟩, fun _ => worked⟩

/-! ### Positions -/

theorem traced_insertPosition {row : Position}
    (shares : sharesOf row.id ⊆ job.writesAt .liquidityShares)
    (inside : row.id ∈ job.writesAt .position)
    (named : job.payload.mint? = some row.positionMintId) :
    (CreatePosition.insertPosition row).Traced job := by
  have nonempty : CreatePosition.liquiditySharesData row.id ≠ [] :=
    List.ne_nil_of_length_pos (by simp [CreatePosition.liquiditySharesData, binPerPosition])
  have batch : (insertMany .liquidityShares
      (CreatePosition.liquiditySharesData row.id)).Traced job := by
    refine Program.every_perform ⟨nonempty, fun share member => ⟨?_, ?_⟩⟩
    · obtain ⟨index, -, rfl⟩ := List.mem_map.mp member
      exact shares ⟨index, rfl⟩
    · rintro _ ⟨⟩
  exact .bind batch fun _ => traced_create inside named

theorem traced_settleInstruction {decoded : CreatePosition.CreatePositionDecoded} {owner : String}
    (accounts : decoded.positionTokenAccount ∈ job.writesAt .tokenAccount)
    (shares : sharesOf decoded.position ⊆ job.writesAt .liquidityShares)
    (inside : decoded.position ∈ job.writesAt .position)
    (named : job.payload.mint? = some decoded.positionMint) :
    (CreatePosition.settleInstruction decoded owner).Traced job := by
  refine .bind (.bind (traced_findOne (.inl accounts)) fun existing => ?_) fun _ =>
    .bind (traced_findOne (.inl inside)) fun existing => ?_
  · cases existing with
    | some => exact Program.every_return _
    | none => exact traced_create accounts nofun
  · cases existing with
    | none => exact traced_insertPosition shares inside named
    | some => exact traced_updateOne inside fun _ => .inr named

theorem traced_settleEvent {decoded : CreatePosition.PositionCreationEvent}
    (shares : sharesOf decoded.position ⊆ job.writesAt .liquidityShares)
    (inside : decoded.position ∈ job.writesAt .position)
    (named : job.payload.mint? = some decoded.positionMint) :
    (CreatePosition.settleEvent decoded).Traced job := by
  refine .bind (traced_findOne (.inl inside)) fun existing => ?_
  cases existing with
  | none => exact traced_insertPosition shares inside named
  | some => exact traced_updateOne inside fun _ => .inl rfl

section PositionChange

variable {change : PositionChange} {pair position : String}

theorem traced_processBin {lower : ℕ} {entry : BinEntry}
    (shares : sharesOf position ⊆ job.writesAt .liquidityShares)
    (inside : binId pair entry.lbBinId ∈ job.writesAt .bin) :
    (change.processBin pair position lower entry).Traced job := by
  unfold PositionChange.processBin
  dsimp only
  split
  · exact traced_fail
  refine .bind (traced_findOne (.inl (shares ⟨_, rfl⟩))) fun share => ?_
  cases share with
  | none => exact traced_fail
  | some share =>
  refine .bind traced_compute fun balance =>
    .bind (traced_updateOne (shares ⟨_, rfl⟩) fun _ => rfl) fun _ =>
    .bind (traced_findOne (.inl inside)) fun bin => ?_
  cases bin with
  | none => exact traced_fail
  | some bin =>
  exact .bind traced_compute fun _ => .bind traced_compute fun _ =>
    .bind traced_compute fun _ => traced_updateOne inside fun _ => rfl

theorem traced_processBins {instructionId : String} {lower : ℕ} {entries : List BinEntry}
    {x y : Value} (shares : sharesOf position ⊆ job.writesAt .liquidityShares)
    (bins : ∀ entry ∈ entries, binId pair entry.lbBinId ∈ job.writesAt .bin)
    (events : ∀ entry ∈ entries,
      joined instructionId (decimal entry.lbBinId) ∈ job.writesAt .positionUpdateEvent) :
    (change.processBins job.message instructionId pair position lower entries x y).Traced job := by
  induction entries generalizing x y with
  | nil => exact Program.every_return _
  | cons entry rest ih =>
      obtain ⟨bin, bins⟩ := List.forall_mem_cons.mp bins
      obtain ⟨event, events⟩ := List.forall_mem_cons.mp events
      refine .bind (traced_processBin shares bin) fun _ =>
        .bind traced_compute fun _ => .bind traced_compute fun _ =>
        .bind (.bind traced_compute fun _ => .bind traced_compute fun _ =>
          .bind traced_compute fun _ => traced_create event ?_) fun _ => ih bins events
      rintro _ ⟨⟩
      rfl

theorem traced_processPosition {instructionId : String} {entries : List BinEntry}
    (pairs : pair ∈ job.writesAt .pair) (positions : position ∈ job.looksAt .position)
    (shares : sharesOf position ⊆ job.writesAt .liquidityShares)
    (bins : ∀ entry ∈ entries, binId pair entry.lbBinId ∈ job.writesAt .bin)
    (events : ∀ entry ∈ entries,
      joined instructionId (decimal entry.lbBinId) ∈ job.writesAt .positionUpdateEvent) :
    (change.processPosition job.message instructionId pair position entries).Traced job := by
  refine .bind (traced_findOne (.inl pairs)) fun existingPair => ?_
  cases existingPair with
  | none => exact traced_fail
  | some existingPair =>
  refine .bind (traced_findOne (.inr positions)) fun existingPosition => ?_
  cases existingPosition with
  | none => exact traced_fail
  | some existingPosition =>
  exact .bind (traced_processBins shares bins events) fun _ =>
    .bind traced_compute fun _ => .bind traced_compute fun _ =>
    traced_updateOne pairs fun _ => rfl

end PositionChange

/-! ### Swaps and fees -/

theorem traced_insertSwapEvent {decoded : Option Swap.SwapDecoded}
    (events : decoded.isSome →
      Swap.getSwapEventId job.message job.message.innerInstructionIndex ∈
        job.writesAt .swapEvent) :
    (Swap.insertSwapEvent job.message decoded).Traced job := by
  cases decoded with
  | none => exact Program.every_return _
  | some decoded =>
      refine .bind (traced_create (events rfl) ?_) fun _ =>
        Program.every_perform (Swap.sameSwap_eq_false job.message decoded.pair)
      rintro _ ⟨⟩
      rfl

theorem traced_insertBinSwapEvent {decoded : Swap.BinSwapEventDecoded}
    (pairs : decoded.pair ∈ job.looksAt .pair) (mints : ∀ id, id ∈ job.looksAt .tokenMint)
    (swaps : Swap.getSwapEventId job.message .null ∈ job.looksAt .swapEvent)
    (bins : binId decoded.pair decoded.binId ∈ job.writesAt .bin)
    (events : Swap.getBinSwapEventId job.message job.message.innerInstructionIndex
      (binId decoded.pair decoded.binId) ∈ job.writesAt .binSwapEvent) :
    (Swap.insertBinSwapEvent job.message (some decoded)).Traced job := by
  refine .bind (traced_findOne (.inr pairs)) fun pair => ?_
  cases pair with
  | none => exact traced_fail
  | some pair =>
  refine .bind (traced_findOne (.inl bins)) fun bin => ?_
  cases bin with
  | none => exact traced_fail
  | some bin =>
  refine .bind traced_compute fun _ => .bind traced_compute fun _ =>
    .bind (traced_updateOne bins fun _ => rfl) fun _ =>
    .bind (Program.every_ofExcept _) fun _ =>
    .bind (traced_findOne (.inr (mints _))) fun tokenMintX =>
    .bind (traced_findOne (.inr (mints _))) fun tokenMintY => ?_
  cases tokenMintX with
  | none => exact traced_fail
  | some tokenMintX =>
  cases tokenMintY with
  | none => exact traced_fail
  | some tokenMintY =>
      refine .bind (traced_findOne (.inr swaps)) fun _ => traced_create events ?_
      rintro _ ⟨⟩
      rfl

theorem traced_recordFees {decoded : CompositionFees.CompositionFeesEventDecoded}
    (pairs : decoded.pair ∈ job.writesAt .pair) (mints : ∀ id, id ∈ job.looksAt .tokenMint)
    (events : CompositionFees.getCompositionFeesEventId job.message
      (binId decoded.pair decoded.activeId) ∈ job.writesAt .compositionFeesEvent) :
    (CompositionFees.recordFees job.message decoded).Traced job := by
  refine .bind (traced_findOne (.inl pairs)) fun pair => ?_
  cases pair with
  | none => exact traced_fail
  | some pair =>
  refine .bind (traced_findOne (.inr (mints _))) fun tokenMintX =>
    .bind (traced_findOne (.inr (mints _))) fun tokenMintY => ?_
  cases tokenMintX with
  | none => exact traced_fail
  | some tokenMintX =>
  cases tokenMintY with
  | none => exact traced_fail
  | some tokenMintY =>
  refine .bind (Program.every_ofExcept _) fun _ =>
    .bind (traced_create events ?_) fun _ => .bind traced_compute fun _ =>
    .bind traced_compute fun _ => traced_updateOne pairs fun _ => rfl
  rintro _ ⟨⟩
  rfl

/-! ### Pairs, bin arrays, configs and quote assets -/

theorem traced_handleTokenMint {rpc : MintRpc} {tokenMintId : String}
    (inside : tokenMintId ∈ job.writesAt .tokenMint) :
    (InitializePair.handleTokenMint rpc tokenMintId).Traced job := by
  refine .bind (traced_findOne (.inl inside)) fun existing => ?_
  cases existing with
  | some => exact Program.every_return _
  | none =>
  dsimp only
  cases described : InitializePair.tokenMintData rpc tokenMintId with
  | error failure => exact Program.every_throw _
  | ok mint =>
      have named : mint.id ∈ job.writesAt .tokenMint := by
        rwa [InitializePair.id_of_tokenMintData described]
      change Program.Every _ (create .tokenMint mint >>= fun _ => pure mint)
      exact .bind (traced_create named nofun) fun _ => Program.every_return _

theorem traced_processInitializePair {rpc : MintRpc}
    {decoded : InitializePair.InitializePairDecoded} (pairs : decoded.pair ∈ job.writesAt .pair)
    (mintX : decoded.tokenMintX ∈ job.writesAt .tokenMint)
    (mintY : decoded.tokenMintY ∈ job.writesAt .tokenMint)
    (configs : decoded.binStepConfig ∈ job.looksAt .binStepConfig) :
    (InitializePair.processInitializePair rpc decoded).Traced job := by
  refine .bind (traced_findOne (.inl pairs)) fun existing => ?_
  cases existing with
  | some => exact Program.every_return _
  | none =>
  refine .bind (Program.every_perform ⟨rfl, _, configs⟩) fun _ =>
    .bind (traced_findOne (.inr configs)) fun config => ?_
  cases config with
  | none => exact traced_fail
  | some config =>
  exact .bind (traced_handleTokenMint mintX) fun _ => .bind (traced_handleTokenMint mintY) fun _ =>
    traced_create pairs nofun

theorem traced_processInitializeBinArray {decoded : InitializeBinArray.InitializeBinArrayDecoded}
    (bins : ∀ bin ∈ InitializeBinArray.binDocuments decoded, bin.id ∈ job.writesAt .bin) :
    (InitializeBinArray.processInitializeBinArray decoded).Traced job := by
  have first : InitializeBinArray.binDocument decoded 0 ∈
      InitializeBinArray.binDocuments decoded := InitializeBinArray.binDocument_mem (by decide)
  refine .bind (traced_existsId (.inl ?_)) fun existing => ?_
  · rw [← InitializeBinArray.id_binDocument_zero]
    exact bins _ first
  cases existing with
  | true => exact Program.every_return _
  | false =>
      exact Program.every_perform ⟨List.ne_nil_of_mem first, fun bin member =>
        ⟨bins bin member, nofun⟩⟩

end Traced

/-! ## Jobs -/

/-- The job is none of a close. -/
def Job.Opened (job : Job) : Prop := ∀ decoded, job.payload ≠ .closePosition decoded

theorem Job.process_of_close (rpc : Rpc) {job : Job} {decoded : ClosePosition.ClosePositionDecoded}
    (closes : job.payload = .closePosition decoded) :
    job.params = some (job.message.params .ClosePositionProcessor) ∧
      job.process rpc = unlessProcessed (job.message.params .ClosePositionProcessor)
        fun _ => ClosePosition.processClosePosition job.message decoded := by
  rw [Job.params, Job.process, closes]
  exact ⟨rfl, rfl⟩

theorem Job.traced (rpc : Rpc) {job : Job} (opened : job.Opened) :
    (job.process rpc).Traced job := by
  rcases job with ⟨message, payload⟩
  cases payload with
  | rejected failure => exact Program.every_throw _
  | ignored => exact Program.every_return _
  | swap decoded =>
      refine traced_unlessProcessed rfl (traced_insertSwapEvent fun some => ?_)
      cases decoded with
      | none => cases some
      | some decoded => exact rfl
  | binSwapEvent decoded =>
      refine traced_unlessProcessed rfl ?_
      cases decoded with
      | error failure => exact Program.every_throw _
      | ok event =>
          cases event with
          | none => exact Program.every_return _
          | some decoded =>
              exact traced_insertBinSwapEvent rfl (fun _ => trivial) rfl rfl rfl
  | createPosition decoded =>
      exact .bind (Program.every_ofExcept _) fun _ =>
        traced_unlessProcessed rfl (traced_settleInstruction rfl Set.Subset.rfl rfl rfl)
  | positionCreationEvent decoded =>
      exact traced_unlessProcessed rfl (traced_settleEvent Set.Subset.rfl rfl rfl)
  | increasePosition decoded | decreasePosition decoded =>
      exact traced_unlessProcessed rfl (traced_processPosition rfl rfl Set.Subset.rfl
        (fun entry member => ⟨entry, member, rfl⟩) fun entry member => ⟨entry, member, rfl⟩)
  | closePosition decoded => exact absurd rfl (opened decoded)
  | compositionFees decoded =>
      exact traced_unlessProcessed rfl (traced_recordFees rfl (fun _ => trivial) rfl)
  | initializePair decoded =>
      exact traced_processInitializePair rfl (.inl rfl) (.inr rfl) rfl
  | initializeBinStepConfig decoded =>
      refine .bind (traced_findOne (.inl rfl)) fun existing => ?_
      cases existing with
      | some => exact Program.every_return _
      | none => exact traced_create rfl nofun
  | initializeBinArray decoded =>
      exact traced_processInitializeBinArray fun bin member => ⟨bin, member, rfl⟩
  | updatePairStaticFeeParameters decoded =>
      refine traced_unlessProcessed rfl (.bind (traced_findOne (.inl rfl)) fun existing => ?_)
      cases existing with
      | none => exact traced_fail
      | some => exact traced_updateOne rfl fun _ => rfl
  | quoteAssetBadgeInitialization decoded =>
      refine traced_unlessProcessed rfl (.bind (traced_existsId (.inl rfl)) fun existing => ?_)
      cases existing with
      | true => exact Program.every_return _
      | false => exact traced_create rfl nofun
  | quoteAssetBadgeUpdate decoded =>
      refine traced_unlessProcessed rfl (.bind (traced_existsId (.inl rfl)) fun existing => ?_)
      cases existing with
      | true => exact traced_updateOne rfl fun _ => rfl
      | false => exact traced_fail

/-! ## Where rows come from -/

/-- What assignments leave of a row: its id, and the instruction that it names. -/
def Coll.trace (coll : Coll) (row : coll.Row) : String × Option (ℕ × String × ℕ) :=
  (coll.id row, coll.identity? row)

namespace Job

variable {job : Job}

/-- The job inserts rows under the id, and names the same instruction. -/
def Accounts (job : Job) (coll : Coll) (row : coll.Row) : Prop :=
  coll.id row ∈ job.writesAt coll ∧ ∀ identity ∈ coll.identity? row, identity = job.message.identity

theorem Accounts.of_trace {coll : Coll} {row other : coll.Row} (accounts : job.Accounts coll row)
    (same : coll.trace row = coll.trace other) : job.Accounts coll other := by
  obtain ⟨sameId, sameIdentity⟩ := Prod.ext_iff.mp same
  have sameId : coll.id row = coll.id other := sameId
  have sameIdentity : coll.identity? row = coll.identity? other := sameIdentity
  exact ⟨sameId ▸ accounts.1, sameIdentity ▸ accounts.2⟩

/-- The parameters of a job name the place of its message. -/
theorem identity_of_params {params : CheckAndInsertInstructionParams}
    (deduplicates : job.params = some params) :
    (params.blockNumber, params.signature, params.instructionIndex) = job.message.identity := by
  rcases job with ⟨message, payload⟩
  cases payload <;> cases deduplicates <;> rfl

theorem Names.accounts {coll : Coll} {row : coll.Row} (names : job.Names coll row)
    (inside : coll.id row ∈ job.writesAt coll) : job.Accounts coll row := by
  refine ⟨inside, ?_⟩
  cases coll with
  | instruction =>
      obtain ⟨params, deduplicates, rfl⟩ := names
      rintro _ ⟨⟩
      exact identity_of_params deduplicates
  | position => rintro _ ⟨⟩
  | _ => exact names

theorem Assigns.trace {coll : Coll} {update : Update coll.id}
    (assigns : job.Assigns coll update.set) (row : coll.Row) :
    coll.trace (update.set row) = coll.trace row := by
  refine Prod.ext (update.key_set row) ?_
  cases coll with
  | instruction => exact assigns.elim
  | position => rfl
  | _ => exact assigns row

end Job

/-- The operations of a close past its record: lookups and deletions. -/
def Op.Prunes {ρ : Type} : Op ρ → Prop
  | .findOne _ _ => True
  | .existsWhere _ _ => True
  | .deleteShares _ => True
  | .deletePosition _ => True
  | _ => False

/-- The operations of a job, those of a close included. -/
def Op.Owned (job : Job) {ρ : Type} (operation : Op ρ) : Prop :=
  operation.Traced job ∨ operation.Prunes

section Origin

variable {job : Job} {ρ : Type} {operation : Op ρ} {store after : Store} {coll : Coll}
variable {row : coll.Row}

theorem Op.Traced.extends (traced : operation.Traced job) :
    operation.Extends Coll.trace job.Accounts := by
  cases operation with
  | create coll row => exact traced.2.accounts traced.1
  | insertMany coll rows => exact fun row member =>
      (traced.2 row member).2.accounts (traced.2 row member).1
  | updateOne coll id update => exact traced.2.trace
  | updateWhere coll filter update => exact traced
  | findOne | find | «exists» => trivial
  | existsWhere | deleteShares | deletePosition => exact traced.elim

/-- Pruning brings no rows. -/
theorem Op.Prunes.mem (prunes : operation.Prunes)
    (did : (operation.apply store).2 = after ∨ operation.fails store after)
    (member : row ∈ after coll) : row ∈ store coll := by
  have unmoved (same : after = store) : row ∈ store coll := same ▸ member
  have deleted {pruned : Coll} {filter : pruned.Row → Bool}
      (applied : store.put pruned ((store pruned).deleteWhere filter) = after) :
      row ∈ store coll := by
    subst applied
    by_cases here : coll = pruned
    · subst here
      rw [Store.put_same] at member
      exact (Collection.mem_deleteWhere.mp member).1
    · rwa [Store.put_other here] at member
  cases operation with
  | findOne | existsWhere => exact unmoved (did.elim Eq.symm id)
  | deleteShares | deletePosition => exact did.elim deleted unmoved
  | find | «exists» | create | insertMany | updateOne | updateWhere => exact prunes.elim

/-- After an operation of a job every row was there, up to assignments, or is one of the
job. -/
theorem Op.Owned.origin (owned : operation.Owned job)
    (did : (operation.apply store).2 = after ∨ operation.fails store after)
    (member : row ∈ after coll) :
    (∃ old ∈ store coll, coll.trace old = coll.trace row) ∨ job.Accounts coll row := by
  rcases owned with traced | prunes
  · obtain ⟨source, old | fresh, same⟩ := (traced.extends.grows did coll).origin member
    · exact .inl ⟨source, old, same⟩
    · exact .inr (fresh.of_trace same)
  · exact .inl ⟨row, prunes.mem did member, rfl⟩

end Origin

theorem prunes_processClosePosition {message : ParsedInstructionMessage}
    {decoded : ClosePosition.ClosePositionDecoded} :
    (ClosePosition.processClosePosition message decoded).Every
      (fun {_} operation => operation.Prunes) := by
  refine .bind (Program.every_perform trivial) fun isIndexed => ?_
  cases isIndexed with
  | false => exact Program.every_throw _
  | true =>
  refine .bind (Program.every_perform trivial) fun existingPosition => ?_
  cases existingPosition with
  | none => exact Program.every_throw _
  | some existingPosition =>
  dsimp only
  split
  · refine .bind (Program.every_perform trivial) fun _ =>
      .bind (Program.every_perform trivial) fun deleted => ?_
    split
    · exact Program.every_throw _
    · exact Program.every_return _
  · exact Program.every_throw _

theorem Job.owned (rpc : Rpc) (job : Job) :
    (job.process rpc).Every (fun {_} operation => operation.Owned job) := by
  by_cases opened : job.Opened
  · exact (job.traced rpc opened).imp fun _ => .inl
  obtain ⟨decoded, closes⟩ := not_forall_not.mp opened
  obtain ⟨deduplicates, shape⟩ := job.process_of_close rpc closes
  have inside := job.id_mem_writesAt deduplicates
  rw [shape, unlessProcessed_eq]
  refine ⟨.inl (.inl inside), fun isProcessed => ?_⟩
  cases isProcessed with
  | true => trivial
  | false =>
      exact ⟨.inl ⟨inside, _, deduplicates, rfl⟩,
        fun _ => prunes_processClosePosition.imp fun _ => .inr⟩

/-! ## Runs -/

/-- Every row was there at the start, up to assignments, or is one of a job. -/
def Explained (start : Store) (jobs : List Job) (store : Store) : Prop :=
  ∀ coll, ∀ row ∈ store coll,
    (∃ old ∈ start coll, coll.trace old = coll.trace row) ∨ ∃ job ∈ jobs, job.Accounts coll row

namespace Explained

variable {start store after : Store} {jobs more : List Job}

theorem refl (start : Store) : Explained start jobs start :=
  fun _ row member => .inl ⟨row, member, rfl⟩

theorem mono (explained : Explained start jobs store) (grown : jobs ⊆ more) :
    Explained start more store := by
  intro coll row member
  refine (explained coll row member).imp_right ?_
  rintro ⟨job, listed, accounts⟩
  exact ⟨job, grown listed, accounts⟩

/-- An operation of one of the jobs, disturbed or not. -/
theorem owned (explained : Explained start jobs store) {job : Job} (listed : job ∈ jobs)
    {ρ : Type} {operation : Op ρ} (owned : operation.Owned job)
    (did : (operation.apply store).2 = after ∨ operation.fails store after) :
    Explained start jobs after := by
  intro coll row member
  rcases owned.origin did member with ⟨middle, stored, same⟩ | accounts
  · rcases explained coll middle stored with ⟨old, first, trace⟩ | ⟨other, listed, accounts⟩
    · exact .inl ⟨old, first, trace.trans same⟩
    · exact .inr ⟨other, listed, accounts.of_trace same⟩
  · exact .inr ⟨job, listed, accounts⟩

end Explained

/-- In every store that the workers reach, the rows that are not of the start are those of
the jobs that were taken up. -/
theorem explained_of_reaches {guard : Store → Attempt → Attempt → Prop} {start : Store}
    {system : Workers} (reaches : Reaches mongo Launch.process guard (.initial start) system) :
    Explained start (system.processes.map (·.job.toJob)) system.store := by
  refine (Reaches.invariant (fun system : Workers => (∀ attempt ∈ system.processes,
    attempt.program.Every fun {_} operation => operation.Owned attempt.job.toJob) ∧
      Explained start (system.processes.map (·.job.toJob)) system.store) reaches ?_ ?_ ?_).2
  · exact ⟨fun _ member => absurd member List.not_mem_nil, .refl start⟩
  · rintro store attempts launch ⟨owned, explained⟩
    refine ⟨List.forall_mem_append.mpr
      ⟨owned, List.forall_mem_singleton.mpr (launch.owned launch.rpc)⟩, ?_⟩
    rw [List.map_append]
    exact explained.mono (List.subset_append_left _ _)
  · rintro store store' before after attempt attempt' moves - ⟨owned, explained⟩
    obtain ⟨earlier, rest⟩ := List.forall_mem_append.mp owned
    obtain ⟨here, later⟩ := List.forall_mem_cons.mp rest
    have same := moves.job_eq
    rw [List.map_append, List.map_cons] at explained ⊢
    have listed : attempt.job.toJob ∈
        before.map (·.job.toJob) ++ attempt.job.toJob :: after.map (·.job.toJob) :=
      List.mem_append_right _ List.mem_cons_self
    obtain ⟨explained, here⟩ := moves.kept_of_every (fun operation store owned explained =>
      ⟨explained.owned listed owned (.inl rfl),
        fun _ failed => explained.owned listed owned (.inr failed)⟩) here explained
    rw [← same] at explained here
    exact ⟨List.forall_mem_append.mpr ⟨earlier, List.forall_mem_cons.mpr ⟨here, later⟩⟩, explained⟩

end DlmmIndexer
