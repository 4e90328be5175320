import DlmmIndexer.Increase

/-!
# Rejected events

The three handlers that move balances check as they go.  An event that one of these checks
rejects throws where it is, and what was written before stays.
-/

namespace DlmmIndexer

open Documents JavaScript Atomic

/-- The collections of balances and of their events are as they were. -/
def Intact (store after : Store) : Prop :=
  after .bin = store .bin ∧ after .liquidityShares = store .liquidityShares ∧
    after .pair = store .pair ∧ after .positionUpdateEvent = store .positionUpdateEvent ∧
    after .binSwapEvent = store .binSwapEvent

theorem Intact.refl (store : Store) : Intact store store := ⟨rfl, rfl, rfl, rfl, rfl⟩

/-! ## Changes of positions -/

namespace PositionChange

/-- Combining a text with the operand writes the same text. -/
def Unmoved (change : PositionChange) (text : String) (operand : Value) : Prop :=
  ∃ value, change.combine text operand = .ok value ∧ value.toString = text

/-- A round that a check rejects does so before anything has changed. -/
def RoundChecksFirst (change : PositionChange) (pair position : String) (lower : ℕ)
    (entry : BinEntry) (store : Store) : Prop :=
  ¬(lower ≤ entry.lbBinId ∧ entry.lbBinId < lower + binPerPosition) ∨
  (store .liquidityShares).findOne (liquidityShareId position (entry.lbBinId - lower : ℤ)) = none ∨
  ((store .bin).findOne (binId pair entry.lbBinId) = none ∧
    ∀ share, (store .liquidityShares).findOne
        (liquidityShareId position (entry.lbBinId - lower : ℤ)) = some share →
      change.Unmoved share.balance entry.liquidity)

/-- The checks reject the pair, the position or the first bin. -/
def ChecksFirst (change : PositionChange) (pair position : String) (entries : List BinEntry)
    (store : Store) : Prop :=
  (store .pair).findOne pair = none ∨ (store .position).findOne position = none ∨
  ∃ existingPosition entry rest,
    (store .position).findOne position = some existingPosition ∧ entries = entry :: rest ∧
      change.RoundChecksFirst pair position existingPosition.lowerBinLbId entry store

variable {change : PositionChange} {message : ParsedInstructionMessage}
  {instructionId pair position : String} {lower : ℕ} {entry : BinEntry} {entries : List BinEntry}
  {store after : Store} {text : String}

/-- A round that a check rejects has changed nothing, or only the share row. -/
theorem of_throws_processBin
    (threw : mongo.Throws (change.processBin pair position lower entry) store (.error text) after) :
    ((¬(lower ≤ entry.lbBinId ∧ entry.lbBinId < lower + binPerPosition) ∨
      (store .liquidityShares).findOne
        (liquidityShareId position (entry.lbBinId - lower : ℤ)) = none) ∧ after = store) ∨
    ∃ share newBalance,
      (lower ≤ entry.lbBinId ∧ entry.lbBinId < lower + binPerPosition) ∧
      (store .liquidityShares).findOne
        (liquidityShareId position (entry.lbBinId - lower : ℤ)) = some share ∧
      (store .bin).findOne (binId pair entry.lbBinId) = none ∧
      change.combine share.balance entry.liquidity = .ok newBalance ∧
      after = store.put .liquidityShares ((store .liquidityShares).updateOne
        (liquidityShareId position (entry.lbBinId - lower : ℤ))
        { set := fun row => { row with balance := newBalance.toString } }) := by
  unfold processBin at threw
  dsimp only at threw
  split at threw
  next outside => exact .inl ⟨.inl (by omega), (throws_fail.mp threw).2⟩
  next inside =>
  rw [throws_findOne_bind] at threw
  cases foundShare : (store .liquidityShares).findOne
      (liquidityShareId position (entry.lbBinId - lower : ℤ)) with
  | none =>
      rw [foundShare] at threw
      exact .inl ⟨.inr rfl, (throws_fail.mp threw).2⟩
  | some share =>
      rw [foundShare] at threw
      obtain ⟨newBalance, combined, threw⟩ := passed_compute threw
      have later := passed_updateOne threw
      rw [throws_findOne_bind, Store.put_other (by decide)] at later
      cases foundBin : (store .bin).findOne (binId pair entry.lbBinId) with
      | none =>
          rw [foundBin] at later
          exact .inr ⟨share, newBalance, by omega, rfl, rfl, combined, (throws_fail.mp later).2⟩
      | some bin =>
          rw [foundBin] at later
          obtain ⟨newReserveX, -, later⟩ := passed_compute later
          obtain ⟨newReserveY, -, later⟩ := passed_compute later
          obtain ⟨newTotalSupply, -, later⟩ := passed_compute later
          cases (of_throws_updateOne later).1

/-- Of a rejected round it depends on the share row whether anything has changed. -/
theorem intact_iff_of_round
    (threw : mongo.Throws (change.processBin pair position lower entry) store (.error text) after) :
    Intact store after ↔ change.RoundChecksFirst pair position lower entry store := by
  rcases of_throws_processBin threw with
    ⟨missing, rfl⟩ | ⟨share, newBalance, inside, foundShare, foundBin, combined, rfl⟩
  · exact iff_of_true (.refl _) (missing.imp_right .inl)
  have unchanged : Intact store (store.put .liquidityShares ((store .liquidityShares).updateOne
      (liquidityShareId position (entry.lbBinId - lower : ℤ))
      { set := fun row => { row with balance := newBalance.toString } })) ↔
      newBalance.toString = share.balance := by
    simp only [Intact, Store.put_same, ne_eq, reduceCtorEq, not_false_eq_true, Store.put_other,
      true_and, and_true]
    rw [Collection.updateOne_eq_self foundShare]
    exact ⟨congrArg LiquidityShares.balance, fun same => by rw [same]⟩
  rw [unchanged]
  constructor
  · intro same
    refine .inr (.inr ⟨foundBin, fun other found => ?_⟩)
    cases foundShare.symm.trans found
    exact ⟨newBalance, combined, same⟩
  · rintro (outside | missing | ⟨-, unmoved⟩)
    · exact absurd inside outside
    · cases foundShare.symm.trans missing
    · obtain ⟨value, combined', same⟩ := unmoved share foundShare
      cases combined.symm.trans combined'
      exact same

/-- A rejected loop has ended in its first round, or the record of that round stays. -/
theorem of_throws_processBins {x y : Value}
    (threw : mongo.Throws (change.processBins message instructionId pair position lower entries x y)
      store (.error text) after) :
    ∃ entry rest, entries = entry :: rest ∧
      (mongo.Throws (change.processBin pair position lower entry) store (.error text) after ∨
        (∃ first, mongo.Completes (change.processBin pair position lower entry) store () first) ∧
          after .positionUpdateEvent ≠ store .positionUpdateEvent) := by
  cases entries with
  | nil => exact absurd threw Database.not_throws_return
  | cons entry rest =>
      refine ⟨entry, rest, rfl, ?_⟩
      rcases Database.throws_bind.mp threw with first | ⟨_, first, completed, threw⟩
      · exact .inl first
      obtain ⟨_, -, threw⟩ := passed_compute threw
      obtain ⟨_, -, threw⟩ := passed_compute threw
      refine .inr ⟨⟨first, completed⟩, fun same => ?_⟩
      have events : first .positionUpdateEvent = store .positionUpdateEvent := by
        obtain ⟨_, _, _, _, _, _, -, -, -, -, -, -, -, rfl⟩ := of_completes_processBin completed
        rw [Store.put_other (by decide), Store.put_other (by decide)]
      rcases Database.throws_bind.mp threw with failed | ⟨_, second, recorded, later⟩
      · obtain ⟨_, -, failed⟩ := passed_compute failed
        obtain ⟨_, -, failed⟩ := passed_compute failed
        obtain ⟨_, -, failed⟩ := passed_compute failed
        cases (of_throws_create failed).1
      · simp only [createEvent, Database.completes_bind, completes_compute, completes_create]
          at recorded
        obtain ⟨_, _, ⟨-, rfl⟩, _, _, ⟨-, rfl⟩, _, _, ⟨-, rfl⟩, rows, created, -, rfl⟩ := recorded
        have fresh := Collection.fresh_of_create created
        have kept : ¬Coll.positionUpdateEvent.Deletable := by simp [Coll.Deletable]
        have held := Database.Stable.throws (mongo_stable_holds kept _) later (by
          rw [Store.put_same]
          exact Collection.holds_of_findOne (Collection.findOne_create_self created))
        rw [same, ← events, Collection.holds_eq_false.mpr fresh] at held
        cases held

/-- A rejected change has missed its pair or its position, or its loop was rejected. -/
theorem of_throws_processPosition
    (threw : mongo.Throws (change.processPosition message instructionId pair position entries)
      store (.error text) after) :
    (((store .pair).findOne pair = none ∨ (store .position).findOne position = none) ∧
      after = store) ∨
    ∃ existingPair existingPosition, (store .pair).findOne pair = some existingPair ∧
      (store .position).findOne position = some existingPosition ∧
      mongo.Throws (change.processBins message instructionId pair position
        existingPosition.lowerBinLbId entries (.bigint 0) (.bigint 0)) store (.error text)
        after := by
  unfold processPosition at threw
  rw [throws_findOne_bind] at threw
  cases foundPair : (store .pair).findOne pair with
  | none =>
      rw [foundPair] at threw
      exact .inl ⟨.inl rfl, (throws_fail.mp threw).2⟩
  | some existingPair =>
  rw [foundPair] at threw
  replace threw := throws_findOne_bind.mp threw
  cases foundPosition : (store .position).findOne position with
  | none =>
      rw [foundPosition] at threw
      exact .inl ⟨.inr rfl, (throws_fail.mp threw).2⟩
  | some existingPosition =>
  rw [foundPosition] at threw
  refine .inr ⟨existingPair, existingPosition, rfl, rfl, ?_⟩
  rcases Database.throws_bind.mp threw with looped | ⟨totals, middle, -, later⟩
  · exact looped
  · obtain ⟨_, -, later⟩ := passed_compute later
    obtain ⟨_, -, later⟩ := passed_compute later
    cases (of_throws_updateOne later).1

/-- A change that a check rejects has left the balances alone exactly when the checks
reject the pair, the position or the first bin. -/
theorem intact_iff_of_throws
    (threw : mongo.Throws (change.processPosition message instructionId pair position entries)
      store (.error text) after) :
    Intact store after ↔ change.ChecksFirst pair position entries store := by
  rcases of_throws_processPosition threw with
    ⟨missing, rfl⟩ | ⟨existingPair, existingPosition, foundPair, foundPosition, looped⟩
  · exact iff_of_true (.refl _) (missing.imp_right .inl)
  obtain ⟨entry, rest, rfl, round⟩ := of_throws_processBins looped
  have first : change.ChecksFirst pair position (entry :: rest) store ↔
      change.RoundChecksFirst pair position existingPosition.lowerBinLbId entry store := by
    simp [ChecksFirst, foundPair, foundPosition]
  rw [first]
  rcases round with threw | ⟨⟨middle, completed⟩, changed⟩
  · exact intact_iff_of_round threw
  · refine iff_of_false (fun intact => changed intact.2.2.2.1) ?_
    obtain ⟨share, bin, _, _, _, _, inside, foundShare, foundBin, -⟩ :=
      of_completes_processBin completed
    rintro (outside | missing | ⟨missing, -⟩)
    · exact outside inside
    · cases foundShare.symm.trans missing
    · cases foundBin.symm.trans missing

end PositionChange

/-- A decrease that a check rejects has changed nothing: its first round does not get past
its first subtraction. -/
theorem DecreasePosition.checksFirst_of_throws {message : ParsedInstructionMessage}
    {instructionId text : String} {decoded : PositionDecreaseEventDecoded} {store after : Store}
    (threw : mongo.Throws (processDecreasePosition message instructionId decoded) store
      (.error text) after) :
    change.ChecksFirst decoded.pair decoded.position decoded.entries store := by
  rcases PositionChange.of_throws_processPosition threw with
    ⟨missing, -⟩ | ⟨existingPair, existingPosition, foundPair, foundPosition, looped⟩
  · exact missing.imp_right .inl
  obtain ⟨entry, rest, split, round⟩ := PositionChange.of_throws_processBins looped
  have unmovable (text : String) (result : Value) :
      change.combine text entry.liquidity ≠ .ok result :=
    combine_ne_ok (split ▸ List.mem_cons_self)
  refine .inr (.inr ⟨existingPosition, entry, rest, foundPosition, split, ?_⟩)
  rcases round with threw | ⟨⟨middle, completed⟩, -⟩
  · rcases PositionChange.of_throws_processBin threw with
      ⟨missing, -⟩ | ⟨_, _, -, -, -, combined, -⟩
    · exact missing.imp_right .inl
    · exact absurd combined (unmovable _ _)
  · obtain ⟨_, _, _, _, _, _, -, -, -, combined, -⟩ :=
      PositionChange.of_completes_processBin completed
    exact absurd combined (unmovable _ _)

/-! ## Swap events -/

namespace Swap

variable {message : ParsedInstructionMessage} {decoded : BinSwapEventDecoded}
  {store after : Store} {text : String}

/-- The pair is missing, or the event leaves the texts of the bin, if it is there, as they
are. -/
def BinSwapEventDecoded.ChecksFirst (decoded : BinSwapEventDecoded) (store : Store) : Prop :=
  (store .pair).findOne decoded.pair = none ∨
  ∀ bin, (store .bin).findOne (DlmmIndexer.binId decoded.pair decoded.binId) = some bin →
    BinMath.add bin.reserveX decoded.updateX = .ok bin.reserveX ∧
      BinMath.add bin.reserveY decoded.updateY = .ok bin.reserveY

/-- A rejected event has changed nothing, or only the bin row. -/
theorem of_throws_insertBinSwapEvent
    (threw : mongo.Throws (insertBinSwapEvent message (some decoded)) store (.error text) after) :
    (((store .pair).findOne decoded.pair = none ∨
      (store .bin).findOne (binId decoded.pair decoded.binId) = none) ∧ after = store) ∨
    ∃ pair bin newReserveX newReserveY,
      (store .pair).findOne decoded.pair = some pair ∧
      (store .bin).findOne (binId decoded.pair decoded.binId) = some bin ∧
      BinMath.add bin.reserveX decoded.updateX = .ok newReserveX ∧
      BinMath.add bin.reserveY decoded.updateY = .ok newReserveY ∧
      after = store.put .bin ((store .bin).updateOne (binId decoded.pair decoded.binId)
        { set := fun row => { row with reserveX := newReserveX, reserveY := newReserveY } }) := by
  rw [insertBinSwapEvent] at threw
  replace threw := throws_findOne_bind.mp threw
  cases foundPair : (store .pair).findOne decoded.pair with
  | none =>
      rw [foundPair] at threw
      exact .inl ⟨.inl rfl, (throws_fail.mp threw).2⟩
  | some pair =>
  rw [foundPair] at threw
  replace threw := throws_findOne_bind.mp threw
  cases foundBin : (store .bin).findOne (binId decoded.pair decoded.binId) with
  | none =>
      rw [foundBin] at threw
      exact .inl ⟨.inr rfl, (throws_fail.mp threw).2⟩
  | some bin =>
  rw [foundBin] at threw
  obtain ⟨newReserveX, addedX, threw⟩ := passed_compute threw
  obtain ⟨newReserveY, addedY, threw⟩ := passed_compute threw
  refine .inr ⟨pair, bin, newReserveX, newReserveY, rfl, rfl, addedX, addedY, ?_⟩
  rcases Database.throws_bind.mp (passed_updateOne threw) with
    priced | ⟨_, _, priced, later⟩
  · exact (Database.throws_ofExcept.mp priced).2
  obtain ⟨-, rfl⟩ := Database.completes_ofExcept.mp priced
  replace later := throws_findOne_bind.mp (throws_findOne_bind.mp later)
  split at later
  · exact (throws_fail.mp later).2
  · exact (throws_fail.mp later).2
  · cases (of_throws_create (throws_findOne_bind.mp later)).1

theorem intact_iff_of_throws
    (threw : mongo.Throws (insertBinSwapEvent message (some decoded)) store (.error text) after) :
    Intact store after ↔ decoded.ChecksFirst store := by
  rcases of_throws_insertBinSwapEvent threw with
    ⟨missing | missing, rfl⟩ |
      ⟨pair, bin, newReserveX, newReserveY, foundPair, foundBin, addedX, addedY, rfl⟩
  · exact iff_of_true (.refl _) (.inl missing)
  · exact iff_of_true (.refl _) (.inr fun bin found => by cases missing.symm.trans found)
  have unchanged : Intact store (store.put .bin ((store .bin).updateOne
      (binId decoded.pair decoded.binId)
      { set := fun row => { row with reserveX := newReserveX, reserveY := newReserveY } })) ↔
      newReserveX = bin.reserveX ∧ newReserveY = bin.reserveY := by
    simp only [Intact, Store.put_same, ne_eq, reduceCtorEq, not_false_eq_true, Store.put_other,
      and_true]
    rw [Collection.updateOne_eq_self foundBin]
    constructor
    · exact fun same => ⟨congrArg Bin.reserveX same, congrArg Bin.reserveY same⟩
    · rintro ⟨sameX, sameY⟩
      rw [sameX, sameY]
  rw [unchanged]
  constructor
  · rintro ⟨rfl, rfl⟩
    refine .inr fun other found => ?_
    obtain rfl := Option.some.inj (foundBin.symm.trans found)
    exact ⟨addedX, addedY⟩
  · rintro (missing | unmoved)
    · cases foundPair.symm.trans missing
    · obtain ⟨sameX, sameY⟩ := unmoved bin foundBin
      exact ⟨Except.ok.inj (addedX.symm.trans sameX), Except.ok.inj (addedY.symm.trans sameY)⟩

end Swap

/-! ## The three events -/

/-- The increase, decrease and bin swap events. -/
def Payload.MovesBalances : Payload → Prop
  | .increasePosition _ | .decreasePosition _ | .binSwapEvent _ => True
  | _ => False

/-- An event that a check rejects is rejected before anything has changed. -/
def Job.ChecksFirst (job : Job) (store : Store) : Prop :=
  match job.payload with
  | .increasePosition decoded =>
      IncreasePosition.change.ChecksFirst decoded.pair decoded.position decoded.entries store
  | .binSwapEvent (.ok (some decoded)) => decoded.ChecksFirst store
  | _ => True

variable {rpc : Rpc} {job : Job} {store after : Store} {text : String}

theorem Job.checksFirst_put (rows : Collection Instruction.id) :
    job.ChecksFirst (store.put .instruction rows) ↔ job.ChecksFirst store := by
  simp only [ChecksFirst, PositionChange.ChecksFirst, PositionChange.RoundChecksFirst,
    Swap.BinSwapEventDecoded.ChecksFirst, ne_eq, reduceCtorEq, not_false_eq_true, Store.put_other]

theorem intact_put (rows : Collection Instruction.id) :
    Intact (store.put .instruction rows) after ↔ Intact store after := by
  simp only [Intact, ne_eq, reduceCtorEq, not_false_eq_true, Store.put_other]

/-- The second of two bins lies outside the position. -/
def outsideIncrease : Job where
  message := DecreasePosition.sampleMessage
  payload := .increasePosition
    ⟨"pair", "position", [8388608, 8388672], [5, 5], [3, 3], [7, 7]⟩

/-- The same bins the other way round. -/
def outsideFirst : Job where
  message := DecreasePosition.sampleMessage
  payload := .increasePosition
    ⟨"pair", "position", [8388672, 8388608], [5, 5], [3, 3], [7, 7]⟩

/-- An event whose handler throws on one of its own checks leaves the balances alone
exactly when the failing check comes first. -/
theorem rejected_intact_iff (event : job.payload.MovesBalances)
    (rejected : mongo.Throws (job.process rpc) store (.error text) after) :
    Intact store after ↔ job.ChecksFirst store := by
  rcases job with ⟨message, payload⟩
  cases payload with
  | increasePosition decoded =>
      obtain ⟨rows, -, threw⟩ := of_throws_unlessProcessed rejected
      rw [← intact_put rows, ← Job.checksFirst_put rows]
      exact PositionChange.intact_iff_of_throws threw
  | decreasePosition decoded =>
      obtain ⟨rows, -, threw⟩ := of_throws_unlessProcessed rejected
      refine iff_of_true ((intact_put rows).mp ?_) trivial
      exact (PositionChange.intact_iff_of_throws threw).mpr
        (DecreasePosition.checksFirst_of_throws threw)
  | binSwapEvent decoded =>
      obtain ⟨rows, -, threw⟩ := of_throws_unlessProcessed rejected
      rw [← intact_put rows, ← Job.checksFirst_put rows]
      rcases Database.throws_bind.mp threw with failed | ⟨decoded, _, passed, threw⟩
      · obtain ⟨rfl, rfl⟩ := Database.throws_ofExcept.mp failed
        exact iff_of_true (.refl _) trivial
      obtain ⟨rfl, rfl⟩ := Database.completes_ofExcept.mp passed
      cases decoded with
      | none => exact absurd threw Database.not_throws_return
      | some decoded => exact Swap.intact_iff_of_throws threw
  | _ => exact event.elim

/-- The first of the two bins is rejected, and the position keeps the 7 shares it has. -/
theorem rejected_intact_iff_sample : ∃ after,
    mongo.Throws (outsideFirst.process silentRpc) DecreasePosition.sampleStore
      (.error ("Error indexing increase position liquidity_share_index out of bounds: "
        ++ "position with index 64")) after ∧
    Intact DecreasePosition.sampleStore after := by
  have rejected : mongo.Throws (outsideFirst.process silentRpc) DecreasePosition.sampleStore
      (.error ("Error indexing increase position liquidity_share_index out of bounds: "
        ++ "position with index 64")) _ :=
    Database.throws_of_run (by decide +kernel)
  have event : outsideFirst.payload.MovesBalances := trivial
  have checksFirst : outsideFirst.ChecksFirst DecreasePosition.sampleStore :=
    .inr (.inr ⟨⟨"position", "pair", "mint", "owner", 8388608, 8388671⟩,
      ⟨8388672, .bigint 5, .bigint 3, .bigint 7⟩, _, rfl, rfl, .inl (by decide)⟩)
  exact ⟨_, rejected, (rejected_intact_iff event rejected).mpr checksFirst⟩

/-- The second bin is rejected, and the shares of the first have grown. -/
theorem rejected_not_intact : ∃ after,
    outsideIncrease.payload.MovesBalances ∧
    mongo.Throws (outsideIncrease.process silentRpc) DecreasePosition.sampleStore
      (.error ("Error indexing increase position liquidity_share_index out of bounds: "
        ++ "position with index 64")) after ∧
    ¬Intact DecreasePosition.sampleStore after := by
  refine ⟨_, trivial, Database.throws_of_run (by decide +kernel), fun intact => ?_⟩
  have grown : ((mongo.run (outsideIncrease.process silentRpc)
      DecreasePosition.sampleStore).2 .liquidityShares).rows.map (·.balance) = ["14"] := by
    decide +kernel
  rw [intact.2.1] at grown
  exact absurd grown (by decide +kernel)

end DlmmIndexer
