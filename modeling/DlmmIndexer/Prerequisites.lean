import DlmmIndexer.Library.Success
import DlmmIndexer.Redelivery

/-!
# What a job needs of the store

A deduplicated job that has recorded its instruction must not throw any more.  Whether it
does depends on the stores that its operations meet: the database must be able to carry an
operation out (`Op.Takes`), and the rows that the code insists on must be there and pass its
checks (`Payload.Insists`).  A job that gets this succeeds (`Job.work_succeeds`), and each of
its writes takes effect (`Op.tookEffect_of_takes`).
-/

namespace DlmmIndexer

open Documents JavaScript Atomic Text

/-! ## Operations -/

/-- The store is one in which the operation can be carried out: inserted ids are free, rows
that are updated or deleted by their id are there, and no other index is in the way. -/
def Op.Takes (store : Store) {ρ : Type} : Op ρ → Prop
  | .create coll row =>
      (store coll).holds (coll.id row) = false ∧ Op.clashes store coll row = false
  | .insertMany coll batch =>
      (batch.map coll.id).Nodup ∧ ∀ row ∈ batch, (store coll).findOne (coll.id row) = none
  | .updateOne coll id update =>
      ∃ row, (store coll).findOne id = some row ∧ Op.clashes store coll (update.set row) = false
  | .updateWhere coll filter update =>
      ∀ row, (store coll).rows.find? filter = some row →
        Op.clashes store coll (update.set row) = false
  | .deletePosition id => (store .position).holds id = true
  | _ => True

/-- What a write leaves behind that was not in vain. -/
def Op.TookEffect (store after : Store) {ρ : Type} : Op ρ → Prop
  | .create coll row => (after coll).findOne (coll.id row) = some row
  | .insertMany coll batch => ∀ row ∈ batch, (after coll).findOne (coll.id row) = some row
  | .updateOne coll id update =>
      ∃ row, (store coll).findOne id = some row ∧ (after coll).findOne id = some (update.set row)
  | .updateWhere coll filter update =>
      ∀ row, (store coll).rows.find? filter = some row →
        (after coll).findOne (coll.id row) = some (update.set row)
  | .deleteShares positionId => ∀ row ∈ after .liquidityShares, row.positionId ≠ positionId
  | .deletePosition id =>
      (store .position).holds id = true ∧ (after .position).holds id = false
  | _ => True

/-- Such a store answers the operation, and the operation takes effect. -/
theorem Op.apply_of_takes {ρ : Type} {operation : Op ρ} {store : Store}
    (takes : operation.Takes store) :
    ∃ answer after, mongo.apply operation store = (.ok answer, after) ∧
      operation.TookEffect store after := by
  cases operation with
  | findOne | find | «exists» | existsWhere => exact ⟨_, _, rfl, trivial⟩
  | create coll row =>
      obtain ⟨free, clear⟩ := takes
      obtain ⟨rows, created⟩ := Collection.exists_create (Collection.holds_eq_false.mp free)
      refine ⟨(), store.put coll rows, ?_, ?_⟩
      · simp only [mongo, Op.apply, created, clear]
      · rw [TookEffect, Store.put_same]
        exact Collection.findOne_create_self created
  | insertMany coll batch =>
      obtain ⟨distinct, free⟩ := takes
      obtain ⟨rows, inserted⟩ := Collection.insertMany_complete distinct free
      refine ⟨(), store.put coll rows, ?_, fun row member => ?_⟩
      · simp only [mongo, Op.apply, inserted]
      · rw [Store.put_same]
        exact Collection.findOne_of_mem ((Collection.mem_insertMany inserted).mpr (.inr member))
  | updateOne coll id update =>
      obtain ⟨row, found, clear⟩ := takes
      refine ⟨(), store.put coll ((store coll).updateOne id update), ?_, row, found, ?_⟩
      · simp only [mongo, Op.apply, found, Option.any_some, clear]
      · rw [Store.put_same, Collection.findOne_updateOne_self, found, Option.map_some]
  | updateWhere coll filter update =>
      cases matched : (store coll).rows.find? filter with
      | none =>
          refine ⟨(), store, ?_, fun row found => ?_⟩
          · simp only [mongo, Op.apply, matched]
          · rw [matched] at found
            cases found
      | some row =>
          refine ⟨(), store.put coll ((store coll).updateOne (coll.id row) update), ?_,
            fun other found => ?_⟩
          · simp only [mongo, Op.apply, matched, takes row matched, Bool.false_eq_true, if_false]
          · cases matched.symm.trans found
            rw [Store.put_same, Collection.findOne_updateOne_self,
              Collection.findOne_of_mem (List.mem_of_find?_eq_some matched), Option.map_some]
  | deleteShares positionId =>
      refine ⟨_, _, rfl, fun row member => ?_⟩
      rw [Store.put_same, Collection.mem_deleteWhere] at member
      simpa using member.2
  | deletePosition id =>
      refine ⟨_, _, rfl, takes, ?_⟩
      rw [Store.put_same, Bool.eq_false_iff, ne_eq, Collection.holds_iff]
      rintro ⟨row, member, same⟩
      have other := (Collection.mem_deleteWhere.mp member).2
      exact absurd same (by simpa using other)

theorem Op.tookEffect_of_takes {ρ : Type} {operation : Op ρ} {store after : Store} {answer : ρ}
    (takes : operation.Takes store) (applied : mongo.apply operation store = (.ok answer, after)) :
    operation.TookEffect store after := by
  obtain ⟨_, _, applied', effect⟩ := Op.apply_of_takes takes
  cases applied.symm.trans applied'
  exact effect

/-! ## Jobs -/

/-- The amounts of a round are integers, so the lists of the event are of one length. -/
def BinEntry.Whole (entry : BinEntry) : Prop :=
  ∃ amountX amountY liquidity, entry.amountX = .bigint amountX ∧
    entry.amountY = .bigint amountY ∧ entry.liquidity = .bigint liquidity

/-- The rows that the code of a payload insists on are in the store, and they pass its
checks.  What the code checks of the event alone is asked where the `Instruction` row goes
in. -/
def Payload.Insists (payload : Payload) (store : Store) {ρ : Type} (operation : Op ρ) : Prop :=
  match payload, operation with
  | .binSwapEvent (.error _), .create .instruction _ => False
  | .binSwapEvent (.ok (some decoded)), .findOne .pair id =>
      ∃ pair price, (store .pair).findOne id = some pair ∧
        BinMath.getPriceFromId pair.binStep decoded.binId = .ok price
  | .binSwapEvent (.ok (some decoded)), .findOne .bin id =>
      ∃ bin newReserveX newReserveY, (store .bin).findOne id = some bin ∧
        BinMath.add bin.reserveX decoded.updateX = .ok newReserveX ∧
        BinMath.add bin.reserveY decoded.updateY = .ok newReserveY
  | .binSwapEvent _, .findOne .tokenMint id => ∃ mint, (store .tokenMint).findOne id = some mint
  | .compositionFees decoded, .findOne .pair id =>
      ∃ pair price newProtocolFeesX newProtocolFeesY, (store .pair).findOne id = some pair ∧
        BinMath.getPriceFromId pair.binStep decoded.activeId = .ok price ∧
        CompositionFees.addProtocolFees pair.protocolFeesX decoded.protocolFeesX =
          .ok newProtocolFeesX ∧
        CompositionFees.addProtocolFees pair.protocolFeesY decoded.protocolFeesY =
          .ok newProtocolFeesY
  | .compositionFees _, .findOne .tokenMint id =>
      ∃ mint, (store .tokenMint).findOne id = some mint
  | .updatePairStaticFeeParameters _, .findOne .pair id =>
      ∃ pair, (store .pair).findOne id = some pair
  | .increasePosition decoded, .create .instruction _ => ∀ entry ∈ decoded.entries, entry.Whole
  | .decreasePosition decoded, .create .instruction _ => decoded.entries = []
  | .increasePosition _, .findOne .pair id | .decreasePosition _, .findOne .pair id =>
      ∃ pair reserveX reserveY, (store .pair).findOne id = some pair ∧
        bigInt pair.reserveX = some reserveX ∧ bigInt pair.reserveY = some reserveY
  | .increasePosition decoded, .findOne .position id =>
      ∃ position, (store .position).findOne id = some position ∧
        ∀ entry ∈ decoded.entries, position.lowerBinLbId ≤ entry.lbBinId ∧
          entry.lbBinId < position.lowerBinLbId + binPerPosition
  | .decreasePosition _, .findOne .position id =>
      ∃ position, (store .position).findOne id = some position
  | .increasePosition _, .findOne .liquidityShares id =>
      ∃ share balance, (store .liquidityShares).findOne id = some share ∧
        bigInt share.balance = some balance
  | .increasePosition _, .findOne .bin id =>
      ∃ bin reserveX reserveY totalSupply, (store .bin).findOne id = some bin ∧
        bigInt bin.reserveX = some reserveX ∧ bigInt bin.reserveY = some reserveY ∧
        bigInt bin.totalSupply = some totalSupply
  | .closePosition _, .existsWhere .instruction filter =>
      (store .instruction).rows.any filter = true
  | .closePosition decoded, .findOne .position id =>
      ∃ position, (store .position).findOne id = some position ∧ position.pairId = decoded.pair
  | .quoteAssetBadgeUpdate _, .exists .quoteAsset id => (store .quoteAsset).holds id = true
  | _, _ => True

/-- All that an operation of a payload needs. -/
def Payload.Needs (payload : Payload) {ρ : Type} (operation : Op ρ) (store : Store) : Prop :=
  operation.Takes store ∧ payload.Insists store operation

/-- Where the operations of a payload get what they need, the program does not throw. -/
abbrev Action.Succeeds {α : Type} (payload : Payload) (post : α → Prop) (program : Action α) :
    Prop :=
  Program.Succeeds mongo (fun {_} operation store => payload.Needs operation store) post program

section Succeeds

variable {payload : Payload} {α : Type} {post : α → Prop} {coll : Coll} {id : String}

/-- A lookup that insists on its row goes on with a row that passed the checks. -/
theorem succeeds_insisted {rest : Option coll.Row → Action α} (checked : coll.Row → Prop)
    (insists : ∀ store, payload.Insists store (Op.findOne coll id) →
      ∃ row, (store coll).findOne id = some row ∧ checked row)
    (succeeds : ∀ row, checked row → (rest (some row)).Succeeds payload post) :
    (findOne coll id >>= rest).Succeeds payload post := by
  rintro store _ _ ⟨-, insisted⟩ ⟨⟩
  obtain ⟨row, found, passed⟩ := insists store insisted
  rw [found]
  exact succeeds row passed

/-- Other lookups go on with whatever they find. -/
theorem succeeds_findOne {rest : Option coll.Row → Action α}
    (succeeds : ∀ answer, (rest answer).Succeeds payload post) :
    (findOne coll id >>= rest).Succeeds payload post :=
  fun _ answer _ _ _ => succeeds answer

theorem succeeds_write {ρ : Type} {operation : Op ρ} {rest : ρ → Action α}
    (succeeds : ∀ answer, (rest answer).Succeeds payload post) :
    Action.Succeeds payload post (Program.perform operation >>= rest) :=
  fun _ answer _ _ _ => succeeds answer

theorem succeeds_compute {β : Type} {outcome : Except JavaScript.Error β} {value : β}
    {rest : β → Action α} (computed : outcome = .ok value)
    (succeeds : (rest value).Succeeds payload post) :
    (compute outcome >>= rest).Succeeds payload post :=
  Program.succeeds_ofExcept_bind (by rw [computed, Except.mapError]) succeeds

theorem succeeds_end {ρ : Type} {operation : Op ρ} :
    Action.Succeeds payload (fun _ => True) (Program.perform operation) :=
  Program.succeeds_perform

end Succeeds

/-! ### The processors -/

theorem Swap.insertSwapEvent_succeeds {payload : Payload} {message : ParsedInstructionMessage}
    {decoded : Option SwapDecoded} :
    (insertSwapEvent message decoded).Succeeds payload fun _ => True := by
  cases decoded with
  | none => trivial
  | some decoded => exact succeeds_write fun _ => succeeds_end

theorem Swap.insertBinSwapEvent_succeeds {message : ParsedInstructionMessage}
    {decoded : Option BinSwapEventDecoded} :
    (insertBinSwapEvent message decoded).Succeeds (.binSwapEvent (.ok decoded)) fun _ => True := by
  cases decoded with
  | none => trivial
  | some decoded =>
  refine succeeds_insisted (fun pair => ∃ price,
    BinMath.getPriceFromId pair.binStep decoded.binId = .ok price) ?_ ?_
  · rintro store ⟨pair, price, found, priced⟩
    exact ⟨pair, found, price, priced⟩
  rintro pair ⟨price, priced⟩
  refine succeeds_insisted (fun bin => ∃ newReserveX newReserveY,
    BinMath.add bin.reserveX decoded.updateX = .ok newReserveX ∧
      BinMath.add bin.reserveY decoded.updateY = .ok newReserveY) ?_ ?_
  · rintro store ⟨bin, newReserveX, newReserveY, found, added⟩
    exact ⟨bin, found, newReserveX, newReserveY, added⟩
  rintro bin ⟨newReserveX, newReserveY, addedX, addedY⟩
  refine succeeds_compute addedX (succeeds_compute addedY (succeeds_write fun _ => ?_))
  refine Program.succeeds_ofExcept_bind priced ?_
  refine succeeds_insisted (fun _ => True) ?_ fun mintX _ => ?_
  · rintro store ⟨mint, found⟩
    exact ⟨mint, found, trivial⟩
  refine succeeds_insisted (fun _ => True) ?_ fun mintY _ => ?_
  · rintro store ⟨mint, found⟩
    exact ⟨mint, found, trivial⟩
  exact succeeds_findOne fun _ => succeeds_end

theorem CreatePosition.insertPosition_succeeds {payload : Payload} {row : Position} :
    (insertPosition row).Succeeds payload fun _ => True :=
  succeeds_write fun _ => succeeds_end

theorem CreatePosition.settleEvent_succeeds {payload : Payload} {decoded : PositionCreationEvent} :
    (settleEvent decoded).Succeeds payload fun _ => True := by
  refine succeeds_findOne fun existing => ?_
  cases existing with
  | none => exact insertPosition_succeeds
  | some row => exact succeeds_end

theorem CreatePosition.settleInstruction_succeeds {payload : Payload}
    {decoded : CreatePositionDecoded} {owner : String} :
    (settleInstruction decoded owner).Succeeds payload fun _ => True := by
  refine Program.Succeeds.bind ?_ fun _ => succeeds_findOne fun existing => ?_
  · refine succeeds_findOne fun existing => ?_
    cases existing with
    | none => exact succeeds_end
    | some row => trivial
  · cases existing with
    | none => exact insertPosition_succeeds
    | some row => exact succeeds_end

theorem ClosePosition.processClosePosition_succeeds {message : ParsedInstructionMessage}
    {decoded : ClosePositionDecoded} :
    (processClosePosition message decoded).Succeeds (.closePosition decoded) fun _ => True := by
  rintro store _ _ ⟨-, indexed⟩ ⟨⟩
  change (store .instruction).rows.any (isDecreasePosition message) = true at indexed
  rw [indexed]
  refine succeeds_insisted (fun position => position.pairId = decoded.pair) ?_ ?_
  · exact fun store insisted => insisted
  intro position same
  dsimp only
  rw [if_pos same]
  refine succeeds_write fun _ => ?_
  rintro store _ _ ⟨held, -⟩ ⟨⟩
  obtain ⟨row, member, named⟩ := Collection.holds_iff.mp held
  have counted : (store .position).rows.countP (fun row => row.id = decoded.position) ≠ 0 :=
    fun none => List.countP_eq_zero.mp none row member (decide_eq_true named)
  change Program.Succeeds _ _ _ (ite _ _ _)
  rw [if_neg counted]
  trivial

theorem CompositionFees.recordFees_succeeds {message : ParsedInstructionMessage}
    {decoded : CompositionFeesEventDecoded} :
    (recordFees message decoded).Succeeds (.compositionFees decoded) fun _ => True := by
  refine succeeds_insisted (fun pair => ∃ price newProtocolFeesX newProtocolFeesY,
    BinMath.getPriceFromId pair.binStep decoded.activeId = .ok price ∧
      addProtocolFees pair.protocolFeesX decoded.protocolFeesX = .ok newProtocolFeesX ∧
      addProtocolFees pair.protocolFeesY decoded.protocolFeesY = .ok newProtocolFeesY) ?_ ?_
  · rintro store ⟨pair, price, newProtocolFeesX, newProtocolFeesY, found, passed⟩
    exact ⟨pair, found, price, newProtocolFeesX, newProtocolFeesY, passed⟩
  rintro pair ⟨price, newProtocolFeesX, newProtocolFeesY, priced, addedX, addedY⟩
  refine succeeds_insisted (fun _ => True) ?_ fun mintX _ => ?_
  · rintro store ⟨mint, found⟩
    exact ⟨mint, found, trivial⟩
  refine succeeds_insisted (fun _ => True) ?_ fun mintY _ => ?_
  · rintro store ⟨mint, found⟩
    exact ⟨mint, found, trivial⟩
  refine Program.succeeds_ofExcept_bind priced (succeeds_write fun _ => ?_)
  exact succeeds_compute addedX (succeeds_compute addedY succeeds_end)

theorem UpdatePairStaticFeeParameters.processUpdatePairStaticFeeParameters_succeeds
    {decoded : UpdatePairStaticFeeParametersDecoded} :
    (processUpdatePairStaticFeeParameters decoded).Succeeds
      (.updatePairStaticFeeParameters decoded) fun _ => True := by
  refine succeeds_insisted (fun _ => True) ?_ fun _ _ => succeeds_end
  rintro store ⟨pair, found⟩
  exact ⟨pair, found, trivial⟩

theorem QuoteAssets.insertQuoteAsset_succeeds {payload : Payload}
    {eventData : QuoteAssetBadgeInitializationEvent} :
    (insertQuoteAsset eventData).Succeeds payload fun _ => True := by
  refine succeeds_write fun existing => ?_
  cases existing with
  | true => trivial
  | false => exact succeeds_end

theorem QuoteAssets.updateStatus_succeeds {eventData : QuoteAssetBadgeUpdateEvent} :
    (updateStatus eventData).Succeeds (.quoteAssetBadgeUpdate eventData) fun _ => True := by
  rintro store _ _ ⟨-, held⟩ ⟨⟩
  change (store .quoteAsset).holds eventData.quoteAssetBadge = true at held
  rw [held]
  exact succeeds_end

theorem IncreasePosition.combine_ok {text : String} {value added : ℤ}
    (read : bigInt text = some value) :
    change.combine text (.bigint added) = .ok (.bigint (value + added)) := by
  rw [PositionChange.combine, read]
  rfl

theorem IncreasePosition.processBin_succeeds {decoded : PositionIncreaseEventDecoded}
    {lower : ℕ} {entry : BinEntry} (whole : entry.Whole)
    (inside : lower ≤ entry.lbBinId ∧ entry.lbBinId < lower + binPerPosition) :
    (change.processBin decoded.pair decoded.position lower entry).Succeeds
      (.increasePosition decoded) fun _ => True := by
  obtain ⟨amountX, amountY, liquidity, wholeX, wholeY, wholeLiquidity⟩ := whole
  unfold PositionChange.processBin
  dsimp only
  rw [if_neg (by omega), wholeX, wholeY, wholeLiquidity]
  refine succeeds_insisted (fun share => ∃ balance, bigInt share.balance = some balance) ?_ ?_
  · rintro store ⟨share, balance, found, read⟩
    exact ⟨share, found, balance, read⟩
  rintro share ⟨balance, read⟩
  refine succeeds_compute (combine_ok read) (succeeds_write fun _ => ?_)
  refine succeeds_insisted (fun bin => ∃ reserveX reserveY totalSupply,
    bigInt bin.reserveX = some reserveX ∧ bigInt bin.reserveY = some reserveY ∧
      bigInt bin.totalSupply = some totalSupply) ?_ ?_
  · rintro store ⟨bin, reserveX, reserveY, totalSupply, found, read⟩
    exact ⟨bin, found, reserveX, reserveY, totalSupply, read⟩
  rintro bin ⟨reserveX, reserveY, totalSupply, readX, readY, readSupply⟩
  exact succeeds_compute (combine_ok readX) (succeeds_compute (combine_ok readY)
    (succeeds_compute (combine_ok readSupply) succeeds_end))

/-- The loop ends with integer totals. -/
theorem IncreasePosition.processBins_succeeds {decoded : PositionIncreaseEventDecoded}
    {message : ParsedInstructionMessage} {instructionId : String} {lower : ℕ}
    {entries : List BinEntry} (whole : ∀ entry ∈ entries, entry.Whole)
    (inside : ∀ entry ∈ entries, lower ≤ entry.lbBinId ∧ entry.lbBinId < lower + binPerPosition)
    (x y : ℤ) :
    (change.processBins message instructionId decoded.pair decoded.position lower entries
      (.bigint x) (.bigint y)).Succeeds (.increasePosition decoded)
        fun totals => ∃ x y, totals = (.bigint x, .bigint y) := by
  induction entries generalizing x y with
  | nil => exact ⟨x, y, rfl⟩
  | cons entry rest ih =>
      obtain ⟨amountX, amountY, liquidity, wholeX, wholeY, -⟩ := whole entry List.mem_cons_self
      refine Program.Succeeds.bind
        (processBin_succeeds (whole entry List.mem_cons_self) (inside entry List.mem_cons_self))
        fun _ => ?_
      rw [wholeX, wholeY]
      refine succeeds_compute rfl (succeeds_compute rfl (Program.Succeeds.bind ?_ fun _ => ?_))
      · exact succeeds_compute rfl (succeeds_compute rfl (succeeds_compute rfl succeeds_end))
      · exact ih (fun entry member => whole entry (List.mem_cons_of_mem _ member))
          (fun entry member => inside entry (List.mem_cons_of_mem _ member)) _ _

theorem IncreasePosition.processIncreasePosition_succeeds
    {decoded : PositionIncreaseEventDecoded} {message : ParsedInstructionMessage}
    {instructionId : String} (whole : ∀ entry ∈ decoded.entries, entry.Whole) :
    (processIncreasePosition message instructionId decoded).Succeeds (.increasePosition decoded)
      fun _ => True := by
  refine succeeds_insisted (fun pair => ∃ reserveX reserveY,
    bigInt pair.reserveX = some reserveX ∧ bigInt pair.reserveY = some reserveY) ?_ ?_
  · rintro store ⟨pair, reserveX, reserveY, found, read⟩
    exact ⟨pair, found, reserveX, reserveY, read⟩
  rintro pair ⟨reserveX, reserveY, readX, readY⟩
  refine succeeds_insisted (fun position => ∀ entry ∈ decoded.entries,
    position.lowerBinLbId ≤ entry.lbBinId ∧
      entry.lbBinId < position.lowerBinLbId + binPerPosition) ?_ ?_
  · exact fun store insisted => insisted
  intro position inside
  refine Program.succeeds_bind.mpr ((processBins_succeeds whole inside 0 0).mono ?_)
  rintro _ ⟨x, y, rfl⟩
  exact succeeds_compute (combine_ok readX) (succeeds_compute (combine_ok readY) succeeds_end)

/-- A decrease succeeds without bins only. -/
theorem DecreasePosition.processDecreasePosition_succeeds
    {decoded : PositionDecreaseEventDecoded} {message : ParsedInstructionMessage}
    {instructionId : String} (none : decoded.entries = []) :
    (processDecreasePosition message instructionId decoded).Succeeds (.decreasePosition decoded)
      fun _ => True := by
  have combine_ok {text : String} {value : ℤ} (read : bigInt text = some value) :
      change.combine text (.bigint 0) = .ok (.bigint (value - 0)) := by
    rw [PositionChange.combine, read]
    rfl
  rw [processDecreasePosition, none]
  refine succeeds_insisted (fun pair => ∃ reserveX reserveY,
    bigInt pair.reserveX = some reserveX ∧ bigInt pair.reserveY = some reserveY) ?_ ?_
  · rintro store ⟨pair, reserveX, reserveY, found, read⟩
    exact ⟨pair, found, reserveX, reserveY, read⟩
  rintro pair ⟨reserveX, reserveY, readX, readY⟩
  refine succeeds_insisted (fun _ => True) ?_ fun position _ => ?_
  · rintro store ⟨position, found⟩
    exact ⟨position, found, trivial⟩
  exact succeeds_compute (combine_ok readX) (succeeds_compute (combine_ok readY) succeeds_end)

/-- The work of a job whose event passed the checks succeeds. -/
theorem Job.work_succeeds {rpc : Rpc} {job : Job} {params : CheckAndInsertInstructionParams}
    (deduplicates : job.params = some params) (accepted : job.Accepted rpc) {store : Store}
    {row : Instruction}
    (checked : job.payload.Insists store (.create .instruction row)) :
    (job.work rpc).Succeeds job.payload fun _ => True := by
  rcases job with ⟨message, payload⟩
  cases payload with
  | rejected | ignored | initializePair | initializeBinStepConfig | initializeBinArray =>
      cases deduplicates
  | swap decoded => exact Swap.insertSwapEvent_succeeds
  | binSwapEvent decoded =>
      cases decoded with
      | error failure => exact checked.elim
      | ok decoded => exact Swap.insertBinSwapEvent_succeeds
  | createPosition decoded =>
      cases asked : CreatePosition.positionTokenAccountOwner rpc.toAccountRpc
          decoded.positionTokenAccount with
      | ok owner =>
          exact Program.succeeds_ofExcept_bind asked CreatePosition.settleInstruction_succeeds
      | error failure =>
          refine absurd ?_ (accepted failure)
          change CreatePosition.processInstruction _ _ _ = _
          rw [CreatePosition.processInstruction, asked]
          rfl
  | positionCreationEvent decoded => exact CreatePosition.settleEvent_succeeds
  | increasePosition decoded => exact IncreasePosition.processIncreasePosition_succeeds checked
  | decreasePosition decoded => exact DecreasePosition.processDecreasePosition_succeeds checked
  | closePosition decoded => exact ClosePosition.processClosePosition_succeeds
  | compositionFees decoded => exact CompositionFees.recordFees_succeeds
  | updatePairStaticFeeParameters decoded =>
      exact UpdatePairStaticFeeParameters.processUpdatePairStaticFeeParameters_succeeds
  | quoteAssetBadgeInitialization eventData => exact QuoteAssets.insertQuoteAsset_succeeds
  | quoteAssetBadgeUpdate eventData => exact QuoteAssets.updateStatus_succeeds

/-- A job that gets past its decoder and its RPC calls is deduplication around its work. -/
theorem Job.process_eq {rpc : Rpc} {job : Job} {params : CheckAndInsertInstructionParams}
    (deduplicates : job.params = some params) (accepted : job.Accepted rpc) :
    job.process rpc = .op (.exists .instruction (generateInstructionId params)) fun found =>
      if found then .pure () else afterLookup params fun _ => job.work rpc := by
  have shape {work : Instruction → Action Unit} {rest : Action Unit}
      (same : work (instructionData params) = rest) : afterLookup params work =
        afterLookup params fun _ => rest := by
    rw [afterLookup, afterLookup, same]
  rcases job with ⟨message, payload⟩
  cases payload with
  | rejected | ignored | initializePair | initializeBinStepConfig | initializeBinArray =>
      cases deduplicates
  | createPosition decoded =>
      cases deduplicates
      cases asked : CreatePosition.positionTokenAccountOwner rpc.toAccountRpc
          decoded.positionTokenAccount with
      | ok owner =>
          have same : Job.work rpc ⟨message, .createPosition decoded⟩ =
              CreatePosition.settleInstruction decoded owner := by
            change Program.ofExcept _ >>= _ = _
            rw [asked]
            rfl
          change CreatePosition.processInstruction _ _ _ = _
          rw [CreatePosition.processInstruction, asked, same]
          exact unlessProcessed_eq _ _
      | error failure =>
          refine absurd ?_ (accepted failure)
          change CreatePosition.processInstruction _ _ _ = _
          rw [CreatePosition.processInstruction, asked]
          rfl
  | increasePosition decoded =>
      cases deduplicates
      refine (unlessProcessed_eq _ _).trans ?_
      rw [shape rfl]
      rfl
  | decreasePosition decoded =>
      cases deduplicates
      refine (unlessProcessed_eq _ _).trans ?_
      rw [shape rfl]
      rfl
  | _ =>
      cases deduplicates
      exact unlessProcessed_eq _ _

end DlmmIndexer
