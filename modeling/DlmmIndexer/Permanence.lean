import DlmmIndexer.Library.Growth
import DlmmIndexer.Library.Guarantee
import DlmmIndexer.PairRetry
import DlmmIndexer.Retry

/-!
# What stays for good

The processors delete nothing.  The only deletions are those of the close processor,
behind a query for a processor name that no row spells that way.  Of the rows that are
there they assign few fields: `Coll.frozen` blanks those, and what it leaves of a row
never changes again.  Events, mints, configs, token accounts and deduplication rows
never change at all.

Every creation is founded on what its program has seen before: a pair on its config
and its two mints, an event on the rows it names, a position on its share rows.  A
contract demands both, each processor meets it whatever the others do, and
`Disciplined.reaches` carries it to all runs of the workers, disturbed ones included.
-/

namespace DlmmIndexer

open Documents JavaScript Atomic Text

/-! ## Frozen fields -/

/-- A row without the fields that some processor assigns. -/
def Coll.frozen : (coll : Coll) → coll.Row → coll.Row
  | .pair, row =>
      { row with
        activeId := 0
        baseFactor := 0
        filterPeriod := 0
        decayPeriod := 0
        reductionFactor := 0
        variableFeeControl := 0
        maxVolatilityAccumulator := 0
        protocolShare := 0
        protocolFeesX := ""
        protocolFeesY := ""
        reserveX := ""
        reserveY := "" }
  | .bin, row => { row with totalSupply := "", reserveX := "", reserveY := "" }
  | .position, row =>
      { row with positionMintId := "", ownerId := "", lowerBinLbId := 0, upperBinLbId := 0 }
  | .liquidityShares, row => { row with balance := "" }
  | .quoteAsset, row => { row with status := .Enabled }
  | .binStepConfig, row => row
  | .tokenMint, row => row
  | .tokenAccount, row => row
  | .swapEvent, row => row
  | .binSwapEvent, row => row
  | .positionUpdateEvent, row => row
  | .compositionFeesEvent, row => row
  | .instruction, row => row

/-- Rows with the same frozen part agree on every field that is frozen. -/
theorem Coll.shown {coll : Coll} {left right : coll.Row}
    (same : coll.frozen left = coll.frozen right) {β : Type} (field : coll.Row → β)
    (frozen : ∀ row, field (coll.frozen row) = field row) : field left = field right := by
  rw [← frozen left, same, frozen]

/-- The id is never assigned. -/
theorem Coll.id_eq_of_frozen {coll : Coll} {left right : coll.Row}
    (same : coll.frozen left = coll.frozen right) : coll.id left = coll.id right :=
  Coll.shown same coll.id fun _ => by cases coll <;> rfl

/-! ## Growth of stores -/

section Grows

variable {β : Coll → Type} (mask : (coll : Coll) → coll.Row → β coll)
variable (fresh : (coll : Coll) → coll.Row → Prop)

/-- Fresh rows were added, fields that the mask hides were assigned, and nothing else
happened. -/
def Store.Grows (before after : Store) : Prop :=
  ∀ coll, Collection.Grows (mask coll) (fresh coll) (before coll) (after coll)

/-- Nothing is deleted, only fields that the mask hides are assigned, and every inserted
row is fresh. -/
def Op.Extends {ρ : Type} : Op ρ → Prop
  | .create coll row => fresh coll row
  | .insertMany coll rows => ∀ row ∈ rows, fresh coll row
  | .updateOne coll _ update => ∀ row, mask coll (update.set row) = mask coll row
  | .updateWhere _ filter _ => ∀ row, filter row = false
  | .deleteShares _ => False
  | .deletePosition _ => False
  | .findOne _ _ => True
  | .find _ => True
  | .exists _ _ => True
  | .existsWhere _ _ => True

variable {mask fresh}

namespace Store.Grows

variable {before middle after : Store} {coll : Coll}

theorem refl : Grows mask fresh before before := fun _ => .refl

theorem trans (first : Grows mask fresh before middle) (second : Grows mask fresh middle after) :
    Grows mask fresh before after :=
  fun coll => (first coll).trans (second coll)

theorem put {rows : Collection coll.id}
    (grows : Collection.Grows (mask coll) (fresh coll) (before coll) rows) :
    Grows mask fresh before (before.put coll rows) := by
  intro other
  by_cases here : other = coll
  · subst here
    rwa [Store.put_same]
  · rw [Store.put_other here]
    exact .refl

theorem findOne (grows : Grows Coll.frozen fresh before after) {id : String} {row : coll.Row}
    (found : (before coll).findOne id = some row) :
    ∃ later, (after coll).findOne id = some later ∧ coll.frozen later = coll.frozen row :=
  Collection.Grows.findOne (fun _ _ => Coll.id_eq_of_frozen) (grows coll) found

end Store.Grows

/-- Such an operation makes the store grow, also when it is disturbed. -/
theorem Op.Extends.grows {ρ : Type} {operation : Op ρ} {store after : Store}
    (grown : operation.Extends mask fresh)
    (did : (operation.apply store).2 = after ∨ operation.fails store after) :
    Store.Grows mask fresh store after := by
  have unmoved (same : after = store) : Store.Grows mask fresh store after := same ▸ .refl
  cases operation with
  | findOne | find | «exists» | existsWhere => exact unmoved (did.elim Eq.symm id)
  | create coll row =>
      refine did.elim (fun applied => ?_) unmoved
      subst applied
      simp only [Op.apply]
      split
      next created _ => exact .put (.create grown created)
      · exact .refl
  | insertMany coll rows =>
      rcases did with applied | ⟨stored, sub, rfl⟩
      · subst applied
        simp only [Op.apply]
        split
        all_goals
          next inserted => exact .put (.insertMany grown inserted)
      · exact .put (.insertFree fun row member => grown row (sub.subset member))
  | updateOne coll id update =>
      refine did.elim (fun applied => ?_) unmoved
      subst applied
      simp only [Op.apply]
      split
      · exact .put (.updateOne grown)
      · exact .refl
  | updateWhere coll filter update =>
      refine did.elim (fun applied => ?_) unmoved
      subst applied
      have unmatched : (store coll).rows.find? filter = none :=
        List.find?_eq_none.mpr fun row _ => Bool.not_eq_true _ ▸ grown row
      simp only [Op.apply, unmatched]
      exact .refl
  | deleteShares | deletePosition => exact grown.elim

end Grows

/-! ## The contract -/

/-- The program has found the row under the id. -/
def Found (log : List (Event Op)) (coll : Coll) (id : String) (row : coll.Row) : Prop :=
  (⟨.findOne coll id, some row⟩ : Event Op) ∈ log

/-- The program has found the mint or created it. -/
def Minted (log : List (Event Op)) (mint : TokenMint) : Prop :=
  Found log .tokenMint mint.id mint ∨ (⟨.create .tokenMint mint, ()⟩ : Event Op) ∈ log

/-- The processor name is spelled as `checkAndInsertInstruction` spells it. -/
def Instruction.LowerCase (row : Instruction) : Prop :=
  ∃ name : ProcessorName, row.processorName = toLowerCase name.text

/-- The bin is named after its pair and its place. -/
def Bin.Placed (row : Bin) : Prop :=
  row.id = binId row.pairId row.lbBinId ∧ row.binArrayIndex = row.lbBinId / binArraySize

/-- The share is named after its position and one of the 64 indexes. -/
def LiquidityShares.Placed (row : LiquidityShares) : Prop :=
  ∃ index : ℕ, index < binPerPosition ∧ row.index = index ∧
    row.id = liquidityShareId row.positionId index

/-- What a program has seen, or the row itself shows, before the row is inserted. -/
def Coll.Founded (log : List (Event Op)) : (coll : Coll) → coll.Row → Prop
  | .pair, row =>
      (∃ config, Found log .binStepConfig row.binStepConfigId config ∧
        row.binStep = config.binStep) ∧
      ∃ mintX mintY : TokenMint, (Minted log mintX ∧ mintX.id = row.tokenMintXId) ∧
        (Minted log mintY ∧ mintY.id = row.tokenMintYId) ∧
        row.name = joined mintX.name mintY.name ∧ row.symbol = joined mintX.symbol mintY.symbol
  | .bin, row => row.Placed
  | .position, row =>
      (⟨.insertMany .liquidityShares (CreatePosition.liquiditySharesData row.id), ()⟩ : Event Op) ∈
        log
  | .liquidityShares, row => row.Placed
  | .binSwapEvent, row =>
      (∃ pair, Found log .pair row.pairId pair) ∧
      (∃ bin, Found log .bin row.binId bin) ∧ row.binId = binId row.pairId row.lbBinId
  | .positionUpdateEvent, row =>
      (∃ pair, Found log .pair row.pairId pair) ∧
      (∃ position, Found log .position row.positionId position) ∧
      (∃ bin, Found log .bin row.binId bin) ∧ row.binId = binId row.pairId row.lbBinId
  | .compositionFeesEvent, row =>
      (∃ pair, Found log .pair row.pairId pair) ∧ row.binId = binId row.pairId row.lbBinId
  | .instruction, row => row.LowerCase
  | .binStepConfig, _ => True
  | .tokenMint, _ => True
  | .tokenAccount, _ => True
  | .swapEvent, _ => True
  | .quoteAsset, _ => True

/-- Nothing is deleted, only fields that are not frozen are assigned, and every inserted
row is founded. -/
abbrev Op.Permitted (log : List (Event Op)) {ρ : Type} (operation : Op ρ) : Prop :=
  operation.Extends Coll.frozen fun coll => coll.Founded log

/-- The `Instruction` rows spell their processors in lower case. -/
def LowerCase (store : Store) : Prop := ∀ row ∈ store .instruction, row.LowerCase

/-- Programs count on lower case names and owe permitted operations. -/
def permanence : Contract Op Store := ⟨LowerCase, fun log operation => operation.Permitted log⟩

/-! ## Every processor meets the contract -/

theorem Found.mono {log longer : List (Event Op)} {coll : Coll} {id : String} {row : coll.Row}
    (found : Found log coll id row) (grown : log <+: longer) : Found longer coll id row :=
  grown.subset found

theorem Found.append {log more : List (Event Op)} {coll : Coll} {id : String} {row : coll.Row}
    (found : Found log coll id row) : Found (log ++ more) coll id row :=
  found.mono (List.prefix_append log more)

theorem Found.last {log : List (Event Op)} {coll : Coll} {id : String} {row : coll.Row} :
    Found (log ++ [⟨.findOne coll id, some row⟩]) coll id row :=
  List.mem_append_right _ List.mem_cons_self

/-- What is permitted after any log. -/
def Op.Lasting {ρ : Type} (operation : Op ρ) : Prop := ∀ log, operation.Permitted log

section Meets

variable {log : List (Event Op)} {α : Type} {post : List (Event Op) → α → Prop}

/-- A program of lasting operations. -/
abbrev Action.Lasting (program : Action α) : Prop :=
  Program.Every (fun {_} operation => operation.Lasting) program

theorem Action.Lasting.obeys {program : Action α} (lasting : program.Lasting) :
    program.Obeys mongo permanence (fun _ _ => True) log :=
  Program.Every.obeys (fun log _ allowed => allowed log) lasting

theorem lasting_findOne {coll : Coll} {id : String} : (findOne coll id).Lasting :=
  Program.every_perform fun _ => trivial

theorem lasting_existsId {coll : Coll} {id : String} : (existsId coll id).Lasting :=
  Program.every_perform fun _ => trivial

theorem lasting_updateOne {coll : Coll} {id : String} {update : Update coll.id}
    (hides : ∀ row, coll.frozen (update.set row) = coll.frozen row) :
    (updateOne coll id update).Lasting :=
  Program.every_perform fun _ => hides

theorem lasting_create {coll : Coll} {row : coll.Row} (founded : ∀ log, coll.Founded log row) :
    (create coll row).Lasting :=
  Program.every_perform founded

theorem lasting_fail {message : String} : (fail message : Action α).Lasting :=
  Program.every_throw _

/-- After a lookup the log shows what it answered, a row under the id if any. -/
theorem meets_lookup {coll : Coll} {id : String} {rest : Option coll.Row → Action α}
    (absent : (rest none).Obeys mongo permanence post (log ++ [⟨.findOne coll id, none⟩]))
    (present : ∀ row, coll.id row = id → (rest (some row)).Obeys mongo permanence post
      (log ++ [⟨.findOne coll id, some row⟩])) :
    (findOne coll id >>= rest).Obeys mongo permanence post log := by
  refine ⟨trivial, fun store answer after _ applied => ?_⟩
  cases answer with
  | none => exact absent
  | some row =>
      have found : (store coll).findOne id = some row := Except.ok.inj (congrArg Prod.fst applied)
      exact present row (Collection.key_of_findOne found)

end Meets

/-! ### Positions -/

namespace PositionChange

variable {log : List (Event Op)} {change : PositionChange} {pair position : String}

/-- A round has found its bin. -/
theorem meets_processBin {lower : ℕ} {entry : BinEntry} :
    (change.processBin pair position lower entry).Obeys mongo permanence
      (fun longer _ => ∃ bin, Found longer .bin (binId pair entry.lbBinId) bin) log := by
  unfold processBin
  dsimp only
  split
  · trivial
  refine meets_lookup trivial fun share _ => ?_
  refine Program.obeys_bind.mpr (obeys_compute fun newBalance _ => ?_)
  refine Program.obeys_bind.mpr ⟨fun _ => rfl, fun _ _ _ _ _ => ?_⟩
  refine meets_lookup trivial fun bin _ => ?_
  refine Program.obeys_bind.mpr (obeys_compute fun newReserveX _ => ?_)
  refine Program.obeys_bind.mpr (obeys_compute fun newReserveY _ => ?_)
  refine Program.obeys_bind.mpr (obeys_compute fun newTotalSupply _ => ?_)
  exact ⟨fun _ => rfl, fun _ _ _ _ _ => ⟨bin, Found.last.append⟩⟩

/-- The loop, once the pair and the position are found. -/
theorem meets_processBins {message : ParsedInstructionMessage} {instructionId : String} {lower : ℕ}
    {entries : List BinEntry} {x y : Value} {pairRow : Pair} {positionRow : Position}
    (foundPair : Found log .pair pair pairRow)
    (foundPosition : Found log .position position positionRow) :
    (change.processBins message instructionId pair position lower entries x y).Obeys mongo
      permanence (fun _ _ => True) log := by
  induction entries generalizing x y log with
  | nil => trivial
  | cons entry rest ih =>
      refine Program.obeys_bind.mpr (meets_processBin.extends.mono ?_)
      rintro longer - ⟨grown, bin, foundBin⟩
      refine Program.obeys_bind.mpr (obeys_compute fun totalX _ => ?_)
      refine Program.obeys_bind.mpr (obeys_compute fun totalY _ => ?_)
      refine Program.obeys_bind.mpr ?_
      refine Program.obeys_bind.mpr (obeys_compute fun _ _ => ?_)
      refine Program.obeys_bind.mpr (obeys_compute fun _ _ => ?_)
      refine Program.obeys_bind.mpr (obeys_compute fun _ _ => ?_)
      refine ⟨⟨⟨pairRow, foundPair.mono grown⟩, ⟨positionRow, foundPosition.mono grown⟩,
        ⟨bin, foundBin⟩, rfl⟩, fun _ _ _ _ _ => ?_⟩
      exact ih (foundPair.mono grown).append (foundPosition.mono grown).append

theorem meets_processPosition {message : ParsedInstructionMessage} {instructionId : String}
    {entries : List BinEntry} :
    (change.processPosition message instructionId pair position entries).Obeys mongo permanence
      (fun _ _ => True) log := by
  unfold processPosition
  refine meets_lookup trivial fun existingPair _ => ?_
  refine meets_lookup trivial fun existingPosition _ => ?_
  refine Program.obeys_bind.mpr
    ((meets_processBins Found.last.append Found.last).mono fun _ _ _ => ?_)
  refine Program.obeys_bind.mpr (obeys_compute fun newPairReserveX _ => ?_)
  refine Program.obeys_bind.mpr (obeys_compute fun newPairReserveY _ => ?_)
  exact ⟨fun _ => rfl, fun _ _ _ _ _ => trivial⟩

end PositionChange

namespace CreatePosition

variable {log : List (Event Op)}

theorem placed_of_mem_liquiditySharesData {positionId : String} {share : LiquidityShares}
    (member : share ∈ liquiditySharesData positionId) : share.Placed := by
  obtain ⟨index, inside, rfl⟩ := List.mem_map.mp member
  exact ⟨index, List.mem_range.mp inside, rfl, rfl⟩

theorem meets_insertPosition {row : Position} :
    (insertPosition row).Obeys mongo permanence (fun _ _ => True) log := by
  refine ⟨fun share member => placed_of_mem_liquiditySharesData member, fun _ _ _ _ _ => ?_⟩
  exact ⟨List.mem_append_right _ List.mem_cons_self, fun _ _ _ _ _ => trivial⟩

theorem lasting_ensureTokenAccount {row : TokenAccount} : (ensureTokenAccount row).Lasting := by
  refine .bind lasting_findOne fun existing => ?_
  cases existing with
  | some => exact Program.every_return _
  | none => exact lasting_create fun _ => trivial

theorem meets_settleInstruction {decoded : CreatePositionDecoded} {owner : String} :
    (settleInstruction decoded owner).Obeys mongo permanence (fun _ _ => True) log := by
  refine Program.obeys_bind.mpr (lasting_ensureTokenAccount.obeys.mono fun _ _ _ => ?_)
  refine meets_lookup meets_insertPosition fun row _ => ?_
  exact ⟨fun _ => rfl, fun _ _ _ _ _ => trivial⟩

theorem meets_settleEvent {decoded : PositionCreationEvent} :
    (settleEvent decoded).Obeys mongo permanence (fun _ _ => True) log :=
  meets_lookup meets_insertPosition fun _ _ => ⟨fun _ => rfl, fun _ _ _ _ _ => trivial⟩

end CreatePosition

namespace ClosePosition

/-- In a store with lower case names the query finds nothing. -/
theorem unindexed_of_lowerCase {store : Store} (lower : LowerCase store)
    (message : ParsedInstructionMessage) :
    (store .instruction).rows.any (isDecreasePosition message) = false := by
  refine List.any_eq_false.mpr fun row member matched => ?_
  simp only [isDecreasePosition, Bool.and_eq_true, decide_eq_true_eq] at matched
  obtain ⟨name, spelled⟩ := lower row member
  rw [matched.1.1.2] at spelled
  cases name <;> exact absurd spelled (by decide)

/-- So a close throws before it deletes anything. -/
theorem meets_processClosePosition {message : ParsedInstructionMessage}
    {decoded : ClosePositionDecoded} {log : List (Event Op)} :
    (processClosePosition message decoded).Obeys mongo permanence (fun _ _ => True) log := by
  refine ⟨trivial, fun store answer after lower applied => ?_⟩
  have answered : (store .instruction).rows.any (isDecreasePosition message) = answer :=
    Except.ok.inj (congrArg Prod.fst applied)
  rw [unindexed_of_lowerCase lower] at answered
  rw [← answered]
  trivial

end ClosePosition

/-! ### Swaps and fees -/

namespace Swap

theorem lasting_insertSwapEvent {message : ParsedInstructionMessage}
    {decoded : Option SwapDecoded} : (insertSwapEvent message decoded).Lasting := by
  cases decoded with
  | none => exact Program.every_return _
  | some decoded =>
      refine .bind (lasting_create fun _ => trivial) fun _ => Program.every_perform fun _ => ?_
      exact sameSwap_eq_false message decoded.pair

theorem meets_insertBinSwapEvent {message : ParsedInstructionMessage}
    {decoded : Option BinSwapEventDecoded} {log : List (Event Op)} :
    (insertBinSwapEvent message decoded).Obeys mongo permanence (fun _ _ => True) log := by
  cases decoded with
  | none => trivial
  | some decoded =>
  refine meets_lookup trivial fun pair _ => ?_
  refine meets_lookup trivial fun bin _ => ?_
  refine Program.obeys_bind.mpr (obeys_compute fun newReserveX _ => ?_)
  refine Program.obeys_bind.mpr (obeys_compute fun newReserveY _ => ?_)
  refine Program.obeys_bind.mpr ⟨fun _ => rfl, fun _ _ _ _ _ => ?_⟩
  refine Program.obeys_bind.mpr (Program.obeys_ofExcept.mpr fun price _ => ?_)
  refine Program.obeys_bind.mpr ⟨trivial, fun _ tokenMintX _ _ _ => ?_⟩
  refine Program.obeys_bind.mpr ⟨trivial, fun _ tokenMintY _ _ _ => ?_⟩
  rcases tokenMintX with _ | tokenMintX
  · trivial
  rcases tokenMintY with _ | tokenMintY
  · trivial
  refine Program.obeys_bind.mpr ⟨trivial, fun _ swapEvent _ _ _ => ?_⟩
  refine ⟨⟨⟨pair, ?_⟩, ⟨bin, ?_⟩, rfl⟩, fun _ _ _ _ _ => trivial⟩
  · exact Found.last.append.append.append.append.append
  · exact Found.last.append.append.append.append

end Swap

theorem CompositionFees.meets_recordFees {message : ParsedInstructionMessage}
    {decoded : CompositionFees.CompositionFeesEventDecoded} {log : List (Event Op)} :
    (CompositionFees.recordFees message decoded).Obeys mongo permanence (fun _ _ => True) log := by
  refine meets_lookup trivial fun pair named => ?_
  refine Program.obeys_bind.mpr ⟨trivial, fun _ tokenMintX _ _ _ => ?_⟩
  refine Program.obeys_bind.mpr ⟨trivial, fun _ tokenMintY _ _ _ => ?_⟩
  rcases tokenMintX with _ | tokenMintX
  · trivial
  rcases tokenMintY with _ | tokenMintY
  · trivial
  refine Program.obeys_bind.mpr (Program.obeys_ofExcept.mpr fun price _ => ?_)
  refine Program.obeys_bind.mpr ⟨⟨⟨pair, ?_⟩, ?_⟩, fun _ _ _ _ _ => ?_⟩
  · change Found _ .pair pair.id pair
    rw [show pair.id = decoded.pair from named]
    exact Found.last.append.append
  · change _ = binId pair.id decoded.activeId
    rw [show pair.id = decoded.pair from named]
  refine Program.obeys_bind.mpr (obeys_compute fun newProtocolFeesX _ => ?_)
  refine Program.obeys_bind.mpr (obeys_compute fun newProtocolFeesY _ => ?_)
  exact ⟨fun _ => rfl, fun _ _ _ _ _ => trivial⟩

/-! ### Pairs, bin arrays, configs and quote assets -/

theorem Minted.mono {log longer : List (Event Op)} {mint : TokenMint} (minted : Minted log mint)
    (grown : log <+: longer) : Minted longer mint :=
  minted.imp (Found.mono · grown) (grown.subset ·)

namespace InitializePair

variable {log : List (Event Op)}

/-- The mint that comes back was found or created under the id asked for. -/
theorem meets_handleTokenMint {rpc : MintRpc} {tokenMintId : String} :
    (handleTokenMint rpc tokenMintId).Obeys mongo permanence
      (fun longer mint => Minted longer mint ∧ mint.id = tokenMintId) log := by
  refine meets_lookup ?_ fun mint named => ?_
  · refine Program.obeys_bind.mpr (Program.obeys_ofExcept.mpr fun mint described => ?_)
    refine Program.obeys_bind.mpr
      ⟨trivial, fun _ _ _ _ _ => ⟨.inr ?_, id_of_tokenMintData described⟩⟩
    exact List.mem_append_right _ List.mem_cons_self
  · refine ⟨.inl ?_, named⟩
    rw [show mint.id = tokenMintId from named]
    exact Found.last

theorem meets_processInitializePair {rpc : MintRpc} {decoded : InitializePairDecoded} :
    (processInitializePair rpc decoded).Obeys mongo permanence (fun _ _ => True) log := by
  refine meets_lookup ?_ fun _ _ => trivial
  refine Program.obeys_bind.mpr ⟨trivial, fun _ _ _ _ _ => ?_⟩
  refine meets_lookup trivial fun config _ => ?_
  refine Program.obeys_bind.mpr (meets_handleTokenMint.extends.mono ?_)
  rintro first mintX ⟨grownX, mintedX, namedX⟩
  refine Program.obeys_bind.mpr (meets_handleTokenMint.extends.mono ?_)
  rintro second mintY ⟨grownY, mintedY, namedY⟩
  exact ⟨⟨⟨config, (Found.last.mono grownX).mono grownY, rfl⟩, mintX, mintY,
    ⟨mintedX.mono grownY, namedX⟩, ⟨mintedY, namedY⟩, rfl, rfl⟩, fun _ _ _ _ _ => trivial⟩

end InitializePair

theorem InitializeBinStepConfig.lasting_process {decoded : InitializeBinStepConfigDecoded} :
    (InitializeBinStepConfig.process decoded).Lasting := by
  refine .bind lasting_findOne fun existing => ?_
  cases existing with
  | some => exact Program.every_return _
  | none => exact lasting_create fun _ => trivial

theorem InitializeBinArray.placed_of_mem_binDocuments {decoded : InitializeBinArrayDecoded}
    {bin : Bin} (member : bin ∈ InitializeBinArray.binDocuments decoded) : bin.Placed := by
  obtain ⟨binIndex, inside, rfl⟩ := List.mem_map.mp member
  refine ⟨rfl, ?_⟩
  change decoded.index = (decoded.index * binArraySize + binIndex) / binArraySize
  rw [Nat.mul_comm, Nat.mul_add_div (by decide), Nat.div_eq_of_lt (List.mem_range.mp inside),
    Nat.add_zero]

theorem InitializeBinArray.lasting_processInitializeBinArray
    {decoded : InitializeBinArrayDecoded} :
    (InitializeBinArray.processInitializeBinArray decoded).Lasting := by
  refine .bind lasting_existsId fun existing => ?_
  cases existing with
  | true => exact Program.every_return _
  | false => exact Program.every_perform fun _ _ => InitializeBinArray.placed_of_mem_binDocuments

theorem UpdatePairStaticFeeParameters.lasting_processUpdatePairStaticFeeParameters
    {decoded : UpdatePairStaticFeeParametersDecoded} :
    (UpdatePairStaticFeeParameters.processUpdatePairStaticFeeParameters decoded).Lasting := by
  refine .bind lasting_findOne fun existing => ?_
  cases existing with
  | none => exact lasting_fail
  | some => exact lasting_updateOne fun _ => rfl

namespace QuoteAssets

theorem lasting_insertQuoteAsset {eventData : QuoteAssetBadgeInitializationEvent} :
    (insertQuoteAsset eventData).Lasting := by
  refine .bind lasting_existsId fun existing => ?_
  cases existing with
  | true => exact Program.every_return _
  | false => exact lasting_create fun _ => trivial

theorem lasting_updateStatus {eventData : QuoteAssetBadgeUpdateEvent} :
    (updateStatus eventData).Lasting := by
  refine .bind lasting_existsId fun existing => ?_
  cases existing with
  | true => exact lasting_updateOne fun _ => rfl
  | false => exact lasting_fail

end QuoteAssets

/-! ### Jobs -/

/-- Deduplication inserts a row under a lower case name and leaves the rest to the work. -/
theorem meets_unlessProcessed {params : CheckAndInsertInstructionParams}
    {work : Instruction → Action Unit} {log : List (Event Op)}
    (work_meets : ∀ log,
      (work (instructionData params)).Obeys mongo permanence (fun _ _ => True) log) :
    (unlessProcessed params work).Obeys mongo permanence (fun _ _ => True) log := by
  rw [unlessProcessed_eq]
  refine ⟨trivial, fun _ found _ _ _ => ?_⟩
  cases found with
  | true => trivial
  | false => exact ⟨⟨params.processorName, rfl⟩, fun _ _ _ _ _ => work_meets _⟩

theorem Launch.meets_permanence (launch : Launch) :
    launch.process.Obeys mongo permanence (fun _ _ => True) [] := by
  rcases launch with ⟨⟨message, payload⟩, rpc⟩
  cases payload with
  | rejected failure => trivial
  | ignored => trivial
  | swap decoded => exact meets_unlessProcessed fun _ => Swap.lasting_insertSwapEvent.obeys
  | binSwapEvent decoded =>
      refine meets_unlessProcessed fun _ => ?_
      exact Program.obeys_bind.mpr
        (Program.obeys_ofExcept.mpr fun _ _ => Swap.meets_insertBinSwapEvent)
  | createPosition decoded =>
      refine Program.obeys_bind.mpr (Program.obeys_ofExcept.mpr fun owner _ => ?_)
      exact meets_unlessProcessed fun _ => CreatePosition.meets_settleInstruction
  | positionCreationEvent decoded =>
      exact meets_unlessProcessed fun _ => CreatePosition.meets_settleEvent
  | increasePosition decoded | decreasePosition decoded =>
      exact meets_unlessProcessed fun _ => PositionChange.meets_processPosition
  | closePosition decoded =>
      exact meets_unlessProcessed fun _ => ClosePosition.meets_processClosePosition
  | compositionFees decoded =>
      exact meets_unlessProcessed fun _ => CompositionFees.meets_recordFees
  | initializePair decoded => exact InitializePair.meets_processInitializePair
  | initializeBinStepConfig decoded => exact InitializeBinStepConfig.lasting_process.obeys
  | initializeBinArray decoded =>
      exact InitializeBinArray.lasting_processInitializeBinArray.obeys
  | updatePairStaticFeeParameters decoded =>
      exact meets_unlessProcessed fun _ =>
        UpdatePairStaticFeeParameters.lasting_processUpdatePairStaticFeeParameters.obeys
  | quoteAssetBadgeInitialization decoded =>
      exact meets_unlessProcessed fun _ => QuoteAssets.lasting_insertQuoteAsset.obeys
  | quoteAssetBadgeUpdate decoded =>
      exact meets_unlessProcessed fun _ => QuoteAssets.lasting_updateStatus.obeys

/-! ## What permitted operations do -/

/-- The row is there, up to the fields that are assigned. -/
def Store.Keeps (store : Store) (coll : Coll) (row : coll.Row) : Prop :=
  ∃ later, (store coll).findOne (coll.id row) = some later ∧ coll.frozen later = coll.frozen row

/-- What an answer witnesses: the rows that were found or inserted are there. -/
def Op.fact {ρ : Type} : Op ρ → ρ → Store → Prop
  | .findOne coll id, some row, store => coll.id row = id ∧ store.Keeps coll row
  | .create coll row, _, store => store.Keeps coll row
  | .insertMany coll rows, _, store => ∀ row ∈ rows, store.Keeps coll row
  | _, _, _ => True

theorem Store.Keeps.grows {fresh : (coll : Coll) → coll.Row → Prop} {before after : Store}
    {coll : Coll} {row : coll.Row} (keeps : before.Keeps coll row)
    (grows : Store.Grows Coll.frozen fresh before after) : after.Keeps coll row := by
  obtain ⟨middle, found, same⟩ := keeps
  obtain ⟨later, stays, still⟩ := grows.findOne found
  exact ⟨later, stays, still.trans same⟩

theorem Op.fact_stable {fresh : (coll : Coll) → coll.Row → Prop} {ρ : Type} {operation : Op ρ}
    {answer : ρ} {before after : Store} (grows : Store.Grows Coll.frozen fresh before after)
    (known : operation.fact answer before) : operation.fact answer after := by
  cases operation with
  | findOne coll id =>
      cases answer with
      | none => trivial
      | some row => exact ⟨known.1, known.2.grows grows⟩
  | create coll row => exact Store.Keeps.grows known grows
  | insertMany coll rows => exact fun row member => (known row member).grows grows
  | find | «exists» | existsWhere | updateOne | updateWhere | deleteShares | deletePosition =>
      trivial

/-- What an undisturbed operation answers is so. -/
theorem Op.fact_of_apply {ρ : Type} {operation : Op ρ} {answer : ρ} {store after : Store}
    (applied : mongo.apply operation store = (.ok answer, after)) :
    operation.fact answer after := by
  cases operation with
  | findOne coll id =>
      cases answer with
      | none => trivial
      | some row =>
          have found : (store coll).findOne id = some row :=
            Except.ok.inj (congrArg Prod.fst applied)
          obtain rfl : store = after := congrArg Prod.snd applied
          have named := Collection.key_of_findOne found
          exact ⟨named, row, by rwa [named], rfl⟩
  | create coll row =>
      obtain ⟨rows, created, rfl⟩ := store_of_create applied
      exact ⟨row, by rw [Store.put_same]; exact Collection.findOne_create_self created, rfl⟩
  | insertMany coll rows =>
      simp only [mongo, Op.apply] at applied
      split at applied
      next larger inserted =>
        cases applied
        intro row member
        refine ⟨row, ?_, rfl⟩
        rw [Store.put_same]
        exact Collection.findOne_of_mem ((Collection.mem_insertMany inserted).mpr (.inr member))
      · cases applied
  | find | «exists» | existsWhere | updateOne | updateWhere | deleteShares | deletePosition =>
      trivial

theorem LowerCase.grows {log : List (Event Op)} {before after : Store} (lower : LowerCase before)
    (grows : Store.Grows Coll.frozen (fun coll => coll.Founded log) before after) :
    LowerCase after := by
  intro row member
  obtain ⟨source, old | founded, same⟩ := (grows .instruction).origin member
  · obtain rfl : source = row := same
    exact lower source old
  · obtain rfl : source = row := same
    exact founded

/-! ## Whole runs -/

/-- The contract suffices for growth. -/
def permanenceDiscipline : Discipline mongo where
  contract := permanence
  guarantee := Store.Grows Coll.frozen fun _ _ => True
  fact := Op.fact
  refl _ := .refl
  trans := .trans
  sound lower _ permitted did :=
    have grows := Op.Extends.grows permitted did
    ⟨lower.grows grows, fun coll => (grows coll).mono fun _ _ => trivial⟩
  answered _ _ applied := Op.fact_of_apply applied
  stable := Op.fact_stable

theorem lowerCase_empty : LowerCase .empty :=
  fun _ member => absurd member (Collection.not_mem_empty _)

/-- Between any two moments of a run, whatever the workers do in between and however
their operations fail, no row of any collection is deleted or moved, and no frozen
field of a row changes. -/
theorem rows_permanent {start : Store} {system later : Workers} (lower : LowerCase start)
    (reaches : Reaches mongo Launch.process Unguarded (.initial start) system)
    (further : Reaches mongo Launch.process Unguarded system later) (coll : Coll) :
    (system.store coll).rows.map coll.frozen <+: (later.store coll).rows.map coll.frozen := by
  have first : Disciplined permanenceDiscipline (.initial start : Workers) := .initial lower
  have reached := (first.reaches Launch.meets_permanence reaches).1
  exact ((reached.reaches Launch.meets_permanence further).2 coll).isPrefix

/-- A fee update assigns fields of the pair and leaves its frozen part. -/
theorem rows_permanent_feeJob :
    (storeAfter silentRpc .empty [configJob, pairJob] .pair).rows.map Coll.pair.frozen <+:
      (storeAfter silentRpc .empty [configJob, pairJob, feeJob] .pair).rows.map
        Coll.pair.frozen :=
  rows_permanent lowerCase_empty
    ((reaches_of_run configJob.silent _ []).trans (reaches_of_run pairJob.silent _ _))
    (reaches_of_run feeJob.silent _ _) .pair

end DlmmIndexer
