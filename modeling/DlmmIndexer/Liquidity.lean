import DlmmIndexer.Worker

/-!
# Liquidity shares and total supplies

The share rows of a position cover 64 bins from the position's lower bin on, and
every bin row keeps the total supply of its shares.  The two are joined through the
position row: a share counts for the bin whose id is the lower bin id plus the
share's index, in the pair of the position.

A creation event assigns the lower bin id anew, which moves all shares of the
position to other bins.  That is harmless as long as they are empty, hence the order
that `ChainOrder` asks of the jobs.
-/

namespace DlmmIndexer

open Documents JavaScript Atomic Text

/-- The pair and the bin id that a share row stands for. -/
def shareBin (positions : Collection Position.id) (share : LiquidityShares) : Option (String × ℕ) :=
  (positions.findOne share.positionId).map fun position =>
    (position.pairId, position.lowerBinLbId + share.index)

/-- The sum of the balances of the shares of a bin. -/
def shareSum (pair : String) (lbBinId : ℕ) (positions : Collection Position.id)
    (shares : Collection LiquidityShares.id) : ℤ :=
  shares.total fun share =>
    if shareBin positions share = some (pair, lbBinId) then amount share.balance else 0

/-- The total supply that the row of a bin keeps, and 0 without a row. -/
def supply (pair : String) (lbBinId : ℕ) (bins : Collection Bin.id) : ℤ :=
  bins.value (binId pair lbBinId) fun bin => amount bin.totalSupply

/-- For every bin id the shares add up to the total supply of the bin. -/
def LiquidityConserved (store : Store) : Prop :=
  ∀ pair lbBinId, shareSum pair lbBinId (store .position) (store .liquidityShares) =
    supply pair lbBinId (store .bin)

namespace Job

/-- The position a job creates and the pair it creates it for. -/
def creates (job : Job) : Option (String × String) :=
  match job.payload with
  | .createPosition decoded => some (decoded.position, decoded.pair)
  | .positionCreationEvent decoded => some (decoded.position, decoded.pair)
  | _ => none

/-- The position of a creation event. -/
def creationEventOf (job : Job) : Option String :=
  match job.payload with
  | .positionCreationEvent decoded => some decoded.position
  | _ => none

/-- The position a job increases and the pair it names. -/
def increases (job : Job) : Option (String × String) :=
  match job.payload with
  | .increasePosition decoded => some (decoded.position, decoded.pair)
  | _ => none

end Job

/-- What the chain guarantees about the jobs.  Two deliveries of one creation event
have the same instruction id. -/
structure ChainOrder (launches : List Launch) : Prop where
  /-- An increase names the pair its position was created for. -/
  samePair : ∀ creation ∈ launches, ∀ change ∈ launches, ∀ position pair pair',
    creation.creates = some (position, pair) → change.increases = some (position, pair') →
      pair' = pair
  /-- A position has at most one creation event. -/
  oneEvent : ∀ event ∈ launches, ∀ event' ∈ launches, ∀ position,
    event.creationEventOf = some position → event'.creationEventOf = some position →
      event.instructionId = event'.instructionId
  /-- The creation event of a position comes before its increases. -/
  eventFirst : ∀ done change rest, launches = done ++ change :: rest → ∀ position pair,
    change.increases = some (position, pair) →
      (∃ event ∈ launches, event.creationEventOf = some position) →
        ∃ event ∈ done, event.creationEventOf = some position

/-! ## The invariant -/

/-- Every share row is named after its position, which is there. -/
def Owned (positions : Collection Position.id) (shares : Collection LiquidityShares.id) : Prop :=
  ∀ share ∈ shares, share.id = liquidityShareId share.positionId share.index ∧
    positions.holds share.positionId = true

/-- What holds besides the `Instruction` rows after the jobs `done`. -/
structure Backed (done : List Launch) (store : Store) : Prop where
  owned : Owned (store .position) (store .liquidityShares)
  created : ∀ position ∈ store .position, ∃ launch ∈ done,
    launch.creates = some (position.id, position.pairId)
  increased : ∀ share ∈ store .liquidityShares, amount share.balance ≠ 0 →
    ∃ launch ∈ done, ∃ pair, launch.increases = some (share.positionId, pair)
  conserved : LiquidityConserved store

theorem backed_empty : Backed [] .empty where
  owned share member := absurd member (Collection.not_mem_empty share)
  created position member := absurd member (Collection.not_mem_empty position)
  increased share member := absurd member (Collection.not_mem_empty share)
  conserved _ _ := rfl

namespace Backed

variable {done : List Launch} {store after : Store}

theorem mono {more : List Launch} (backed : Backed done store) (subset : done ⊆ more) :
    Backed more store where
  owned := backed.owned
  created position member :=
    let ⟨launch, old, creates⟩ := backed.created position member
    ⟨launch, subset old, creates⟩
  increased share member nonzero :=
    let ⟨launch, old, increases⟩ := backed.increased share member nonzero
    ⟨launch, subset old, increases⟩
  conserved := backed.conserved

/-- Work that keeps the positions, the shares and the total supplies. -/
theorem quiet (backed : Backed done store) (positions : after .position = store .position)
    (shares : after .liquidityShares = store .liquidityShares)
    (supplies : ∀ pair lbBinId,
      supply pair lbBinId (after .bin) = supply pair lbBinId (store .bin)) :
    Backed done after where
  owned := positions ▸ shares ▸ backed.owned
  created := positions ▸ backed.created
  increased := shares ▸ backed.increased
  conserved pair lbBinId := by rw [positions, shares, supplies, backed.conserved]

/-- A new position comes with empty shares, and no share row was waiting for it. -/
theorem insertPosition {row : Position} (backed : Backed done store)
    (fresh : (store .position).findOne row.id = none)
    (creates : ∃ launch ∈ done, launch.creates = some (row.id, row.pairId))
    (completes : mongo.Completes (CreatePosition.insertPosition row) store () after) :
    Backed done after := by
  obtain ⟨shares, positions, inserted, created, rfl⟩ :=
    CreatePosition.of_completes_insertPosition completes
  have afterShares : ((store.put .liquidityShares shares).put .position positions)
      .liquidityShares = shares := by
    rw [Store.put_other (by decide), Store.put_same]
  have afterPositions : ((store.put .liquidityShares shares).put .position positions)
      .position = positions := Store.put_same _ _ _
  have afterBins : ((store.put .liquidityShares shares).put .position positions) .bin =
      store .bin := by
    rw [Store.put_other (by decide), Store.put_other (by decide)]
  have fromRange {share : LiquidityShares}
      (new : share ∈ CreatePosition.liquiditySharesData row.id) :
      share.id = liquidityShareId share.positionId share.index ∧ share.positionId = row.id ∧
        share.balance = "0" := by
    obtain ⟨index, -, rfl⟩ := List.mem_map.mp new
    exact ⟨rfl, rfl, rfl⟩
  have other {share : LiquidityShares} (old : share ∈ store .liquidityShares) :
      row.id ≠ share.positionId := by
    intro same
    have held := (backed.owned share old).2
    rw [← same, Collection.holds, fresh] at held
    cases held
  refine ⟨?_, ?_, ?_, fun pair lbBinId => ?_⟩
  · rw [afterShares, afterPositions]
    intro share member
    rcases (Collection.mem_insertMany inserted).mp member with old | new
    · exact ⟨(backed.owned share old).1, Collection.holds_create created (backed.owned share old).2⟩
    · obtain ⟨named, owner, -⟩ := fromRange new
      exact ⟨named, owner ▸ Collection.holds_of_findOne (Collection.findOne_create_self created)⟩
  · rw [afterPositions]
    intro position member
    rcases (Collection.mem_create created).mp member with old | rfl
    · exact backed.created position old
    · exact creates
  · rw [afterShares]
    intro share member nonzero
    rcases (Collection.mem_insertMany inserted).mp member with old | new
    · exact backed.increased share old nonzero
    · exact absurd ((fromRange new).2.2 ▸ amount_zero) nonzero
  · rw [afterShares, afterPositions, afterBins, ← backed.conserved pair lbBinId, shareSum,
      Collection.total_insertMany inserted, shareSum]
    have empty : ((CreatePosition.liquiditySharesData row.id).map fun share =>
        if shareBin positions share = some (pair, lbBinId) then amount share.balance else 0).sum =
          0 := by
      refine List.sum_eq_zero fun value member => ?_
      obtain ⟨share, new, rfl⟩ := List.mem_map.mp member
      rw [(fromRange new).2.2, amount_zero, ite_self]
    rw [empty, add_zero]
    refine Collection.total_congr fun share old => ?_
    rw [shareBin, shareBin, Collection.findOne_create_of_ne created (other old)]

/-- An assignment to a position keeps every share at its bin, or meets empty shares. -/
theorem updatePosition {id : String} {update : Update Position.id} (backed : Backed done store)
    (keepsPair : ∀ row, (update.set row).pairId = row.pairId)
    (settled : (∀ row, (update.set row).lowerBinLbId = row.lowerBinLbId) ∨
      ∀ share ∈ store .liquidityShares, share.positionId = id → amount share.balance = 0) :
    Backed done (store.put .position ((store .position).updateOne id update)) := by
  have afterShares : (store.put .position ((store .position).updateOne id update))
      .liquidityShares = store .liquidityShares := Store.put_other (by decide)
  have afterBins : (store.put .position ((store .position).updateOne id update)) .bin =
      store .bin := Store.put_other (by decide)
  refine ⟨?_, ?_, ?_, fun pair lbBinId => ?_⟩
  · rw [afterShares, Store.put_same]
    intro share member
    rw [Collection.holds_updateOne]
    exact backed.owned share member
  · rw [Store.put_same]
    refine Collection.forall_mem_updateOne backed.created fun row _ known => ?_
    rw [show (update.set row).id = row.id from update.key_set row, keepsPair]
    exact known
  · rw [afterShares]
    exact backed.increased
  · rw [afterShares, afterBins, Store.put_same, ← backed.conserved pair lbBinId]
    refine Collection.total_congr fun share member => ?_
    by_cases mine : share.positionId = id
    · rcases settled with still | empty
      · have same : shareBin ((store .position).updateOne id update) share =
            shareBin (store .position) share := by
          rw [shareBin, mine, Collection.findOne_updateOne_self, Option.map_map, shareBin, mine]
          congr 1
          funext row
          simp [keepsPair, still]
        rw [same]
      · rw [empty share member mine, ite_self, ite_self]
    · rw [shareBin, Collection.findOne_updateOne_of_ne (Ne.symm mine), shareBin]

end Backed

/-! ## Increases -/

/-- By how much the shares of a bin exceed its total supply. -/
def surplus (pair : String) (lbBinId : ℕ) (store : Store) : ℤ :=
  shareSum pair lbBinId (store .position) (store .liquidityShares) -
    supply pair lbBinId (store .bin)

/-- The share row of a round belongs to the position, at the bin of the round. -/
theorem share_of_round {positions : Collection Position.id}
    {shares : Collection LiquidityShares.id} (owned : Owned positions shares)
    {position : String} {lower lbBinId : ℕ} (above : lower ≤ lbBinId) {share : LiquidityShares}
    (found : shares.findOne (liquidityShareId position (lbBinId - lower : ℤ)) = some share) :
    share.positionId = position ∧ lower + share.index = lbBinId := by
  have named := (owned share (Collection.mem_of_findOne found)).1
  have asked : share.id = liquidityShareId position (lbBinId - lower : ℕ) := by
    rw [Nat.cast_sub above]
    exact Collection.key_of_findOne found
  obtain ⟨owner, index⟩ := joined_decimal_injective (named.symm.trans asked)
  exact ⟨owner, by omega⟩

/-- An assignment to a share moves the sum of the share's bin only. -/
theorem shareSum_updateOne {positions : Collection Position.id}
    {shares : Collection LiquidityShares.id} {id : String} {old : LiquidityShares}
    (found : shares.findOne id = some old) {update : Update LiquidityShares.id}
    (keeps : shareBin positions (update.set old) = shareBin positions old) (delta : ℤ)
    (moved : amount (update.set old).balance = amount old.balance + delta) (pair : String)
    (lbBinId : ℕ) :
    shareSum pair lbBinId positions (shares.updateOne id update) =
      shareSum pair lbBinId positions shares +
        if shareBin positions old = some (pair, lbBinId) then delta else 0 := by
  rw [shareSum, Collection.total_updateOne found, keeps, moved, shareSum]
  split <;> omega

theorem supply_updateOne {bins : Collection Bin.id} {pairId : String} {binLbId : ℕ} {old : Bin}
    (found : bins.findOne (binId pairId binLbId) = some old) {update : Update Bin.id} (delta : ℤ)
    (moved : amount (update.set old).totalSupply = amount old.totalSupply + delta) (pair : String)
    (lbBinId : ℕ) :
    supply pair lbBinId (bins.updateOne (binId pairId binLbId) update) =
      supply pair lbBinId bins +
        if some (pairId, binLbId) = some (pair, lbBinId) then delta else 0 := by
  have same : binId pairId binLbId = binId pair lbBinId ↔
      some (pairId, binLbId) = some (pair, lbBinId) := by
    rw [Option.some_inj, Prod.mk.injEq]
    exact ⟨joined_decimal_injective, fun ⟨left, right⟩ => left ▸ right ▸ rfl⟩
  rw [supply, Collection.value_updateOne found delta moved, supply]
  simp only [same]

/-- What a round of an increase of `position` keeps. -/
structure RoundKeeps (positions : Collection Position.id) (position : String)
    (grown : String → Prop) (store : Store) : Prop where
  positions : store .position = positions
  owned : Owned (store .position) (store .liquidityShares)
  increased : ∀ share ∈ store .liquidityShares, amount share.balance ≠ 0 → grown share.positionId

/-- A round moves one share and the total supply of its bin by the same amount. -/
theorem surplus_processBin {positions : Collection Position.id} {position : String}
    {existingPosition : Position}
    (foundPosition : positions.findOne position = some existingPosition)
    {grown : String → Prop} (grows : grown position) {entry : BinEntry}
    (fromBigints : IncreasePosition.FromBigints entry.liquidity) {store after : Store}
    (keeps : RoundKeeps positions position grown store)
    (completes : mongo.Completes (IncreasePosition.change.processBin existingPosition.pairId
      position existingPosition.lowerBinLbId entry) store () after) (pair : String) (lbBinId : ℕ) :
    surplus pair lbBinId after = surplus pair lbBinId store ∧
      RoundKeeps positions position grown after := by
  obtain ⟨share, bin, balance, newX, newY, newSupply, ⟨above, -⟩, found, foundBin, combined, -, -,
    combinedSupply, shape⟩ := PositionChange.of_completes_processBin completes
  obtain ⟨-, -, rfl⟩ := IncreasePosition.of_combine fromBigints combined
  obtain ⟨-, -, rfl⟩ := IncreasePosition.of_combine fromBigints combinedSupply
  obtain ⟨owner, place⟩ := share_of_round keeps.owned above found
  have place' : shareBin positions share = some (existingPosition.pairId, entry.lbBinId) := by
    rw [shareBin, owner, foundPosition, Option.map_some, place]
  have positions' : after .position = store .position := by
    rw [shape, Store.put_other (by decide), Store.put_other (by decide)]
  have shares' := congrFun shape .liquidityShares
  rw [Store.put_other (by decide), Store.put_same] at shares'
  have bins' := congrFun shape .bin
  rw [Store.put_same] at bins'
  refine ⟨?_, ⟨positions'.trans keeps.positions, ?_, ?_⟩⟩
  · rw [surplus, positions', shares', bins', keeps.positions,
      shareSum_updateOne found rfl entry.liquidity.integer _,
      supply_updateOne foundBin entry.liquidity.integer _, place', surplus, keeps.positions]
    · omega
    · exact amount_decimal _
    · exact amount_decimal _
  · rw [positions', shares']
    exact Collection.forall_mem_updateOne keeps.owned fun row _ held => held
  · rw [shares']
    intro other member nonzero
    rcases Collection.mem_updateOne.mp member with ⟨old, -⟩ | ⟨old, again, rfl⟩
    · exact keeps.increased other old nonzero
    · rw [found] at again
      cases again
      exact owner ▸ grows

/-- An increase that names the pair of its position keeps the invariant. -/
theorem Backed.increase {message : ParsedInstructionMessage} {instructionId : String}
    {decoded : IncreasePosition.PositionIncreaseEventDecoded} {done : List Launch}
    {store after : Store} (backed : Backed done store)
    (samePair : ∀ position, (store .position).findOne decoded.position = some position →
      decoded.pair = position.pairId)
    (grows : ∃ launch ∈ done, ∃ pair, launch.increases = some (decoded.position, pair))
    (completes : mongo.Completes (IncreasePosition.processIncreasePosition message instructionId
      decoded) store () after) : Backed done after := by
  obtain ⟨existingPair, existingPosition, totalX, totalY, middle, newX, newY, -, found, looped, -,
    -, rfl⟩ := PositionChange.of_completes_processPosition completes
  rw [samePair existingPosition found] at looped
  have loop (pair : String) (lbBinId : ℕ) :=
    PositionChange.processBins_sum (surplus pair lbBinId) (fun _ => 0)
      (RoundKeeps (store .position) decoded.position fun positionId =>
        ∃ launch ∈ done, ∃ pair, launch.increases = some (positionId, pair))
      (fun entry member _ _ keeps changed => by
        rw [add_zero]
        exact surplus_processBin found grows
          (IncreasePosition.fromBigints_of_mem_entries member).2.2 keeps changed pair lbBinId)
      (fun first second same => by
        rw [surplus, surplus, same .position (by decide), same .liquidityShares (by decide),
          same .bin (by decide)]
        refine ⟨rfl, fun keeps => ⟨?_, ?_, ?_⟩⟩
        · exact (same .position (by decide)).trans keeps.positions
        · rw [same .position (by decide), same .liquidityShares (by decide)]
          exact keeps.owned
        · rw [same .liquidityShares (by decide)]
          exact keeps.increased)
      looped ⟨rfl, backed.owned, backed.increased⟩
  have keeps := (loop "" 0).2
  have after_other (coll : Coll) (other : coll ≠ .pair) :
      middle.put .pair ((middle .pair).updateOne decoded.pair
        { set := fun row =>
            { row with reserveX := newX.toString, reserveY := newY.toString } }) coll =
          middle coll :=
    Store.put_other other
  refine ⟨?_, ?_, ?_, fun pair lbBinId => ?_⟩
  · rw [after_other .position (by decide), after_other .liquidityShares (by decide)]
    exact keeps.owned
  · rw [after_other .position (by decide), keeps.positions]
    exact backed.created
  · rw [after_other .liquidityShares (by decide)]
    exact keeps.increased
  · have balanced := (loop pair lbBinId).1
    rw [List.map_const', List.sum_replicate, nsmul_zero, add_zero, surplus, surplus,
      backed.conserved] at balanced
    rw [after_other .position (by decide), after_other .liquidityShares (by decide),
      after_other .bin (by decide)]
    omega

/-! ## Every kind of job -/

namespace Backed

variable {launches done rest : List Launch} {launch : Launch} {store after : Store}

/-- A creation event that is not a repetition finds the shares of its position empty. -/
theorem shares_empty_of_fresh (backed : Backed done store) (order : ChainOrder launches)
    (split : launches = done ++ launch :: rest) {position : String}
    (event : launch.creationEventOf = some position)
    (fresh : launch.instructionId ∉ done.map (·.instructionId)) :
    ∀ share ∈ store .liquidityShares, share.positionId = position → amount share.balance = 0 := by
  intro share member owner
  by_contra nonzero
  obtain ⟨change, old, pair, increases⟩ := backed.increased share member nonzero
  have here : launch ∈ launches := by simp [split]
  obtain ⟨earlier, later, cut⟩ := List.append_of_mem old
  obtain ⟨event', first, event'Of⟩ := order.eventFirst earlier change (later ++ launch :: rest)
    (by rw [split, cut, List.append_assoc, List.cons_append]) share.positionId pair increases
    ⟨launch, here, owner ▸ event⟩
  have before : event' ∈ done := cut ▸ List.mem_append_left _ first
  have same := order.oneEvent event' (split ▸ List.mem_append_left _ before) launch here position
    (owner ▸ event'Of) event
  exact fresh (same ▸ List.mem_map_of_mem before)

/-- The position of an increase was created for the pair that the increase names. -/
theorem pair_eq_of_increase (backed : Backed done store) (order : ChainOrder launches)
    (split : launches = done ++ launch :: rest) {position pair : String}
    (increases : launch.increases = some (position, pair)) {row : Position}
    (found : (store .position).findOne position = some row) : pair = row.pairId := by
  obtain ⟨creation, old, creates⟩ := backed.created row (Collection.mem_of_findOne found)
  rw [show row.id = position from Collection.key_of_findOne found] at creates
  exact order.samePair creation (by simp [split, old]) launch (by simp [split]) position _ _ creates
    increases

/-- The work of a job that was not skipped keeps the invariant. -/
theorem work (backed : Backed done store) (order : ChainOrder launches)
    (split : launches = done ++ launch :: rest) (recorded : Recorded (done ++ [launch]) after)
    (fresh : launch.params = none ∨ launch.instructionId ∉ done.map (·.instructionId))
    (completes : mongo.Completes launch.work store () after) : Backed (done ++ [launch]) after := by
  have backed' : Backed (done ++ [launch]) store := backed.mono (List.subset_append_left _ _)
  have here : launch ∈ done ++ [launch] := by simp
  have frame (coll : Coll) (absent : coll ∉ launch.payload.writes) : after coll = store coll :=
    (launch.work_within launch.rpc).completes absent completes
  have still (positions : Coll.position ∉ launch.payload.writes)
      (shares : Coll.liquidityShares ∉ launch.payload.writes)
      (supplies : ∀ pair lbBinId,
        supply pair lbBinId (after .bin) = supply pair lbBinId (store .bin)) :
      Backed (done ++ [launch]) after :=
    backed'.quiet (frame _ positions) (frame _ shares) supplies
  rcases launch with ⟨⟨message, payload⟩, rpc⟩
  cases payload with
  | rejected | ignored | swap | compositionFees | initializePair | initializeBinStepConfig
  | updatePairStaticFeeParameters | quoteAssetBadgeInitialization | quoteAssetBadgeUpdate =>
      refine still (by simp [Payload.writes]) (by simp [Payload.writes]) fun pair lbBinId => ?_
      rw [frame .bin (by simp [Payload.writes])]
  | closePosition decoded => exact (recorded.not_close rfl completes).elim
  | binSwapEvent decoded =>
      refine still (by simp [Payload.writes]) (by simp [Payload.writes]) fun pair lbBinId => ?_
      obtain ⟨decoded, rfl, inserted⟩ := Database.completes_ofExcept_bind.mp completes
      cases decoded with
      | none =>
          obtain ⟨-, rfl⟩ := Database.completes_return.mp inserted
          rfl
      | some decoded =>
          obtain ⟨_, _, newX, newY, _, _, rows, -, -, -, -, -, rfl⟩ :=
            Swap.of_completes_insertBinSwapEvent inserted
          rw [Store.put_other (by decide), Store.put_same]
          exact Collection.value_updateOne_of_same _ (fun _ => rfl) _
  | initializeBinArray decoded =>
      refine still (by simp [Payload.writes]) (by simp [Payload.writes]) fun pair lbBinId => ?_
      rcases InitializeBinArray.of_completes_processInitializeBinArray completes with
        rfl | ⟨rows, inserted, rfl⟩
      · rfl
      · rw [Store.put_same]
        refine Collection.value_insertMany_of_zero inserted (fun row member => ?_) _
        obtain ⟨binIndex, -, rfl⟩ := List.mem_map.mp member
        exact amount_zero
  | createPosition decoded =>
      obtain ⟨owner, -, settled⟩ := Database.completes_ofExcept_bind.mp completes
      obtain ⟨middle, same, -, outcome⟩ := CreatePosition.of_completes_settleInstruction settled
      have middleBacked := backed'.quiet (same .position (by decide))
        (same .liquidityShares (by decide)) fun pair lbBinId => by rw [same .bin (by decide)]
      rcases outcome with ⟨absent, inserted⟩ | ⟨row, -, rfl⟩
      · rw [← same .position (by decide)] at absent
        exact middleBacked.insertPosition absent ⟨_, here, rfl⟩ inserted
      · exact middleBacked.updatePosition (fun _ => rfl) (.inl fun _ => rfl)
  | positionCreationEvent decoded =>
      rcases CreatePosition.of_completes_settleEvent completes with
        ⟨absent, inserted⟩ | ⟨row, -, rfl⟩
      · exact backed'.insertPosition absent ⟨_, here, rfl⟩ inserted
      · refine backed'.updatePosition (fun _ => rfl) (.inr ?_)
        exact backed.shares_empty_of_fresh order split rfl
          (fresh.resolve_left (Option.some_ne_none _))
  | increasePosition decoded =>
      exact backed'.increase (fun row found => backed.pair_eq_of_increase order split rfl found)
        ⟨_, here, decoded.pair, rfl⟩ completes
  | decreasePosition decoded =>
      obtain ⟨_, _, _, _, middle, newX, newY, -, -, looped, -, -, rfl⟩ :=
        PositionChange.of_completes_processPosition completes
      rw [DecreasePosition.entries_eq_nil_of_completes looped] at looped
      obtain ⟨-, rfl⟩ := Database.completes_return.mp looped
      exact backed'.quiet (Store.put_other (by decide)) (Store.put_other (by decide))
        fun pair lbBinId => by rw [Store.put_other (by decide)]

end Backed

/-! ## Conservation -/

/-- The range of a position in `sampleBin` and the 63 bins after it. -/
def rangeJob : Job where
  message := ⟨8, "sig", 1, true, .at 1⟩
  payload := .positionCreationEvent ⟨"pair", "position", "mint", 8388608, 8388671⟩

/-- A first deposit of that position. -/
def depositJob : Job where
  message := ⟨9, "sig", 0, true, .at 1⟩
  payload := .increasePosition ⟨"pair", "position", [8388608], [5], [6], [7]⟩

/-- The jobs up to that deposit. -/
def depositLaunches : List Launch :=
  [configJob.silent, pairJob.silent, arrayJob.silent, rangeJob.silent, depositJob.silent]

theorem deposit_chainOrder : ChainOrder depositLaunches where
  samePair creation old change new position pair pair' creates increases := by
    simp only [depositLaunches, List.mem_cons, List.not_mem_nil, or_false] at old new
    rcases old with rfl | rfl | rfl | rfl | rfl <;> cases creates
    rcases new with rfl | rfl | rfl | rfl | rfl <;> cases increases
    rfl
  oneEvent event old event' new position same same' := by
    simp only [depositLaunches, List.mem_cons, List.not_mem_nil, or_false] at old new
    rcases old with rfl | rfl | rfl | rfl | rfl <;> cases same
    rcases new with rfl | rfl | rfl | rfl | rfl <;> cases same'
    rfl
  eventFirst done change rest split position pair increases event := by
    rcases done with _ | ⟨first, _ | ⟨second, _ | ⟨third, _ | ⟨fourth, done⟩⟩⟩⟩ <;>
      simp only [depositLaunches, List.nil_append, List.cons_append, List.cons.injEq] at split
    · rw [← split.1] at increases
      cases increases
    · rw [← split.2.1] at increases
      cases increases
    · rw [← split.2.2.1] at increases
      cases increases
    · rw [← split.2.2.2.1] at increases
      cases increases
    · obtain ⟨-, -, -, rfl, cut⟩ := split
      have last : change = depositJob.silent := by
        rcases done with _ | ⟨fifth, done⟩
        · exact (List.cons.inj cut).1.symm
        · simp at cut
      cases last
      cases increases
      exact ⟨rangeJob.silent, by simp, rfl⟩

theorem deposited :
    ∃ store, Sequence mongo Launch.process (fun _ _ => True) Store.empty depositLaunches store := by
  obtain ⟨bins, foundBin, binned⟩ := completes_arrayJob
  -- the creation event
  obtain ⟨instructions, recorded⟩ : ∃ rows, (pairStore .instruction).create
      (instructionData (rangeJob.message.params .CreatePositionProcessor)) = some rows :=
    Collection.exists_create rfl
  obtain ⟨shares, positions, inserted, created, settled⟩ := @CreatePosition.completes_insertPosition
    ⟨"position", "pair", "mint", "dummy-owner-id", 8388608, 8388671⟩
    ((pairStore.put .bin bins).put .instruction instructions)
    (fun _ => rfl) rfl rfl
  have ranged : mongo.Completes (rangeJob.process silentRpc) (pairStore.put .bin bins) () _ :=
    completes_unlessProcessed.mpr (.inr ⟨instructions, recorded, Database.completes_bind.mpr
      ⟨none, _, completes_findOne.mpr ⟨rfl, rfl⟩, settled⟩⟩)
  -- the increase
  obtain ⟨more, recorded'⟩ : ∃ rows, instructions.create
      (instructionData (depositJob.message.params .IncreasePositionProcessor)) = some rows :=
    Collection.exists_create ((Collection.findOne_create_of_ne recorded (by decide)).trans rfl)
  obtain ⟨pair, foundPair, reserveX, reserveY⟩ : ∃ pair,
      (pairStore .pair).findOne "pair" = some pair ∧ pair.reserveX = "0" ∧ pair.reserveY = "0" :=
    ⟨_, rfl, rfl, rfl⟩
  have foundShare : shares.findOne (liquidityShareId "position" (8388608 - 8388608 : ℤ)) =
      some ⟨liquidityShareId "position" 0, "position", 0, "0"⟩ :=
    Collection.findOne_of_mem ((Collection.mem_insertMany inserted).mpr
      (.inr (List.mem_map.mpr ⟨0, List.mem_range.mpr (by decide), rfl⟩)))
  let store := ((((pairStore.put .bin bins).put .instruction instructions).put .liquidityShares
    shares).put .position positions).put .instruction more
  have zero := IncreasePosition.combine_zero
  obtain ⟨rounded, round, noEvents⟩ : ∃ after, mongo.Completes (IncreasePosition.change.processBin
      "pair" "position" 8388608 ⟨8388608, .bigint 5, .bigint 6, .bigint 7⟩) store () after ∧
        after .positionUpdateEvent = pairStore .positionUpdateEvent :=
    ⟨_, PositionChange.completes_processBin (by decide) foundShare foundBin (zero 7) (zero 5)
      (zero 6) (zero 7), rfl⟩
  obtain ⟨events, logged⟩ : ∃ rows, (pairStore .positionUpdateEvent).create
      ⟨joined (generateInstructionId (depositJob.message.params .IncreasePositionProcessor))
        (decimal 8388608), "pair", "position", binId "pair" 8388608, 8388608, "7", "5", "6", 9,
        "sig", 0, some 1⟩ = some rows := Collection.exists_create rfl
  have looped : mongo.Completes (IncreasePosition.change.processBins depositJob.message
      (generateInstructionId (depositJob.message.params .IncreasePositionProcessor)) "pair"
      "position" 8388608 [⟨8388608, .bigint 5, .bigint 6, .bigint 7⟩] (.bigint 0) (.bigint 0)) store
      (.bigint 5, .bigint 6) (rounded.put .positionUpdateEvent events) := by
    refine Database.completes_bind.mpr ⟨(), _, round, ?_⟩
    refine Database.completes_bind.mpr ⟨.bigint 5, _, completes_compute.mpr ⟨rfl, rfl⟩, ?_⟩
    refine Database.completes_bind.mpr ⟨.bigint 6, _, completes_compute.mpr ⟨rfl, rfl⟩, ?_⟩
    refine Database.completes_bind.mpr ⟨(), _, ?_, Database.completes_return.mpr ⟨rfl, rfl⟩⟩
    refine Database.completes_bind.mpr ⟨.bigint 7, _, completes_compute.mpr ⟨rfl, rfl⟩, ?_⟩
    refine Database.completes_bind.mpr ⟨.bigint 5, _, completes_compute.mpr ⟨rfl, rfl⟩, ?_⟩
    refine Database.completes_bind.mpr ⟨.bigint 6, _, completes_compute.mpr ⟨rfl, rfl⟩, ?_⟩
    exact completes_create.mpr ⟨events, noEvents ▸ logged, rfl, rfl⟩
  have foundPosition : (store .position).findOne "position" =
      some ⟨"position", "pair", "mint", "dummy-owner-id", 8388608, 8388671⟩ :=
    Collection.findOne_create_self created
  have foundPair' : (store .pair).findOne "pair" = some pair := foundPair
  have deposits := PositionChange.completes_processPosition foundPair' foundPosition looped
    (reserveX ▸ zero 5) (reserveY ▸ zero 6)
  exact ⟨_, .cons trivial completes_configJob (.cons trivial completes_pairJob
    (.cons trivial binned (.cons trivial ranged (.cons trivial
      (completes_unlessProcessed.mpr (.inr ⟨more, recorded', deposits⟩)) (.nil _)))))⟩

/-- In every store that jobs run one at a time reach from the empty store, for every
pair and bin id the balances of the shares add up to the total supply of the bin row,
and to 0 where there is none. -/
theorem liquidity_conserved {launches : List Launch} {store : Store}
    (order : ChainOrder launches)
    (ran : Sequence mongo Launch.process (fun _ _ => True) Store.empty launches store) :
    LiquidityConserved store := by
  have invariant := ran.invariant (fun done store => Recorded done store ∧ Backed done store)
    ⟨recorded_empty, backed_empty⟩ fun done launch rest store after split _ completes held => by
      obtain ⟨recorded, backed⟩ := held
      have recorded' := recorded.step completes
      refine ⟨recorded', ?_⟩
      rcases recorded.cases completes with ⟨id, -, -, rfl⟩ | ⟨middle, same, worked, fresh⟩
      · exact backed.mono (List.subset_append_left _ _)
      · have middleBacked := backed.quiet (same .position (by decide))
          (same .liquidityShares (by decide)) fun pair lbBinId => by rw [same .bin (by decide)]
        exact middleBacked.work order split recorded' fresh worked
  exact invariant.2.conserved

theorem liquidity_conserved_deposited :
    ∃ store, Sequence mongo Launch.process (fun _ _ => True) Store.empty depositLaunches store ∧
      LiquidityConserved store :=
  let ⟨store, ran⟩ := deposited
  ⟨store, ran, liquidity_conserved deposit_chainOrder ran⟩

end DlmmIndexer
