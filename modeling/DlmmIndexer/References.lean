import DlmmIndexer.Permanence

/-!
# References between documents

The schemas refer to each other by id and the database checks none of it.  What makes
the references hold is the order in which the processors look rows up and insert:
a reference is written only by a program that has found or inserted the row it leads
to.  Rows stay for good, so the reference holds from then on, under every interleaving
of the workers and with operations failing anywhere.

`Coll.Grounded` says of each collection which references of a row lead to rows, and
which of its fields agree with theirs.  The other references are not checked by the
processors: a bin array, a position or a swap event may name a pair that is not there.
-/

namespace DlmmIndexer

open Documents JavaScript Atomic Text

/-- The references of a row lead to rows of the store, with which it agrees. -/
def Coll.Grounded (store : Store) : (coll : Coll) → coll.Row → Prop
  | .pair, row =>
      (∃ config, (store .binStepConfig).findOne row.binStepConfigId = some config ∧
        row.binStep = config.binStep) ∧
      ∃ mintX mintY, (store .tokenMint).findOne row.tokenMintXId = some mintX ∧
        (store .tokenMint).findOne row.tokenMintYId = some mintY ∧
        row.name = joined mintX.name mintY.name ∧ row.symbol = joined mintX.symbol mintY.symbol
  | .bin, row => row.Placed
  | .position, row => ∀ index : ℕ, index < binPerPosition → ∃ share,
      (store .liquidityShares).findOne (liquidityShareId row.id index) = some share ∧
        share.positionId = row.id ∧ share.index = index
  | .liquidityShares, row => row.Placed
  | .binSwapEvent, row =>
      (store .pair).holds row.pairId = true ∧
      ∃ bin, (store .bin).findOne row.binId = some bin ∧
        bin.pairId = row.pairId ∧ bin.lbBinId = row.lbBinId
  | .positionUpdateEvent, row =>
      (store .pair).holds row.pairId = true ∧ (store .position).holds row.positionId = true ∧
      ∃ bin, (store .bin).findOne row.binId = some bin ∧
        bin.pairId = row.pairId ∧ bin.lbBinId = row.lbBinId
  | .compositionFeesEvent, row =>
      (store .pair).holds row.pairId = true ∧ row.binId = binId row.pairId row.lbBinId
  | .instruction, row => row.LowerCase
  | .binStepConfig, _ => True
  | .tokenMint, _ => True
  | .tokenAccount, _ => True
  | .swapEvent, _ => True
  | .quoteAsset, _ => True

/-- All rows of the store are grounded in it. -/
def Referential (store : Store) : Prop := ∀ coll, ∀ row ∈ store coll, coll.Grounded store row

theorem Referential.lowerCase {store : Store} (referential : Referential store) :
    LowerCase store :=
  referential .instruction

theorem referential_empty : Referential .empty :=
  fun _ _ member => absurd member (Collection.not_mem_empty _)

section Grounded

variable {coll : Coll} {store after : Store} {fresh : (coll : Coll) → coll.Row → Prop}

/-- Being grounded is about frozen fields. -/
theorem grounded_of_frozen {left right : coll.Row} (same : coll.frozen left = coll.frozen right)
    (grounded : coll.Grounded store left) : coll.Grounded store right := by
  cases coll with
  | pair =>
      have config : left.binStepConfigId = right.binStepConfigId :=
        Coll.shown same Pair.binStepConfigId fun _ => rfl
      have step : left.binStep = right.binStep := Coll.shown same Pair.binStep fun _ => rfl
      have mintX : left.tokenMintXId = right.tokenMintXId :=
        Coll.shown same Pair.tokenMintXId fun _ => rfl
      have mintY : left.tokenMintYId = right.tokenMintYId :=
        Coll.shown same Pair.tokenMintYId fun _ => rfl
      have name : left.name = right.name := Coll.shown same Pair.name fun _ => rfl
      have symbol : left.symbol = right.symbol := Coll.shown same Pair.symbol fun _ => rfl
      simp only [Coll.Grounded] at grounded ⊢
      rwa [config, step, mintX, mintY, name, symbol] at grounded
  | bin =>
      have id : left.id = right.id := Coll.shown same Bin.id fun _ => rfl
      have pairId : left.pairId = right.pairId := Coll.shown same Bin.pairId fun _ => rfl
      have lbBinId : left.lbBinId = right.lbBinId := Coll.shown same Bin.lbBinId fun _ => rfl
      have array : left.binArrayIndex = right.binArrayIndex :=
        Coll.shown same Bin.binArrayIndex fun _ => rfl
      simp only [Coll.Grounded, Bin.Placed] at grounded ⊢
      rwa [id, pairId, lbBinId, array] at grounded
  | position =>
      have id : left.id = right.id := Coll.shown same Position.id fun _ => rfl
      simp only [Coll.Grounded] at grounded ⊢
      rwa [id] at grounded
  | liquidityShares =>
      have id : left.id = right.id := Coll.shown same LiquidityShares.id fun _ => rfl
      have positionId : left.positionId = right.positionId :=
        Coll.shown same LiquidityShares.positionId fun _ => rfl
      have index : left.index = right.index := Coll.shown same LiquidityShares.index fun _ => rfl
      simp only [Coll.Grounded, LiquidityShares.Placed] at grounded ⊢
      rwa [id, positionId, index] at grounded
  | binSwapEvent | positionUpdateEvent | compositionFeesEvent | instruction =>
      obtain rfl : left = right := same
      exact grounded
  | binStepConfig | tokenMint | tokenAccount | swapEvent | quoteAsset => trivial

theorem holds_grows {coll : Coll} {id : String} (grows : Store.Grows Coll.frozen fresh store after)
    (held : (store coll).holds id = true) : (after coll).holds id = true := by
  obtain ⟨row, found⟩ := Option.isSome_iff_exists.mp held
  obtain ⟨later, stays, -⟩ := grows.findOne found
  exact Collection.holds_of_findOne stays

/-- The bin an event names stays where it is. -/
theorem bin_grows {id pairId : String} {lbBinId : ℕ}
    (grows : Store.Grows Coll.frozen fresh store after)
    (there : ∃ bin, (store .bin).findOne id = some bin ∧ bin.pairId = pairId ∧
      bin.lbBinId = lbBinId) :
    ∃ bin, (after .bin).findOne id = some bin ∧ bin.pairId = pairId ∧ bin.lbBinId = lbBinId := by
  obtain ⟨bin, found, rfl, rfl⟩ := there
  obtain ⟨later, stays, same⟩ := grows.findOne found
  exact ⟨later, stays, Coll.shown same Bin.pairId fun _ => rfl,
    Coll.shown same Bin.lbBinId fun _ => rfl⟩

/-- A grounded row stays grounded while the store grows. -/
theorem grounded_grows {row : coll.Row} (grows : Store.Grows Coll.frozen fresh store after)
    (grounded : coll.Grounded store row) : coll.Grounded after row := by
  cases coll with
  | pair =>
      obtain ⟨⟨config, found, step⟩, mintX, mintY, foundX, foundY, name, symbol⟩ := grounded
      obtain ⟨later, stays, same⟩ := grows.findOne found
      obtain ⟨laterX, staysX, sameX⟩ := grows.findOne foundX
      obtain ⟨laterY, staysY, sameY⟩ := grows.findOne foundY
      obtain rfl : later = config := same
      obtain rfl : laterX = mintX := sameX
      obtain rfl : laterY = mintY := sameY
      exact ⟨⟨later, stays, step⟩, laterX, laterY, staysX, staysY, name, symbol⟩
  | position =>
      intro index inside
      obtain ⟨share, found, mine, here⟩ := grounded index inside
      obtain ⟨later, stays, same⟩ := grows.findOne found
      exact ⟨later, stays, (Coll.shown same LiquidityShares.positionId fun _ => rfl).trans mine,
        (Coll.shown same LiquidityShares.index fun _ => rfl).trans here⟩
  | binSwapEvent =>
      obtain ⟨pair, bin⟩ := grounded
      exact ⟨holds_grows grows pair, bin_grows grows bin⟩
  | positionUpdateEvent =>
      obtain ⟨pair, position, bin⟩ := grounded
      exact ⟨holds_grows grows pair, holds_grows grows position, bin_grows grows bin⟩
  | compositionFeesEvent => exact ⟨holds_grows grows grounded.1, grounded.2⟩
  | bin | liquidityShares | instruction => exact grounded
  | binStepConfig | tokenMint | tokenAccount | swapEvent | quoteAsset => trivial

end Grounded

/-! ## Founded rows are grounded -/

section Founded

variable {log : List (Event Op)} {store : Store}

/-- A mint that was found or created is there as it was. -/
theorem findOne_of_minted {mint : TokenMint} (witnessed : Witnessed Op.fact log store)
    (minted : Minted log mint) : (store .tokenMint).findOne mint.id = some mint := by
  have keeps : store.Keeps .tokenMint mint :=
    minted.elim (fun found => (witnessed _ found).2) (witnessed _ ·)
  obtain ⟨later, found, same⟩ := keeps
  obtain rfl : later = mint := same
  exact found

theorem holds_of_found {coll : Coll} {id : String} {row : coll.Row}
    (witnessed : Witnessed Op.fact log store) (found : Found log coll id row) :
    (store coll).holds id = true := by
  obtain ⟨rfl, later, stays, -⟩ := witnessed _ found
  exact Collection.holds_of_findOne stays

/-- A bin that was found under its name is where its name says. -/
theorem bin_of_found {pairId : String} {lbBinId : ℕ} {row : Bin}
    (referential : Referential store) (witnessed : Witnessed Op.fact log store)
    (found : Found log .bin (binId pairId lbBinId) row) :
    ∃ bin, (store .bin).findOne (binId pairId lbBinId) = some bin ∧ bin.pairId = pairId ∧
      bin.lbBinId = lbBinId := by
  obtain ⟨named, later, stays, same⟩ := witnessed _ found
  have name : row.id = binId pairId lbBinId := named
  rw [show Coll.bin.id row = binId pairId lbBinId from named] at stays
  obtain ⟨placed, -⟩ := referential .bin later (Collection.mem_of_findOne stays)
  rw [show later.id = binId pairId lbBinId from Collection.key_of_findOne stays] at placed
  obtain ⟨pairs, places⟩ := joined_decimal_injective placed
  exact ⟨later, stays, pairs.symm, by exact_mod_cast places.symm⟩

/-- Rows that are founded on what a program has seen are grounded. -/
theorem grounded_of_founded {coll : Coll} {row : coll.Row} (referential : Referential store)
    (witnessed : Witnessed Op.fact log store) (founded : coll.Founded log row) :
    coll.Grounded store row := by
  cases coll with
  | pair =>
      obtain ⟨⟨config, found, step⟩, mintX, mintY, ⟨mintedX, namedX⟩, ⟨mintedY, namedY⟩, name,
        symbol⟩ := founded
      obtain ⟨named, later, stays, same⟩ := witnessed _ found
      obtain rfl : later = config := same
      refine ⟨⟨later, ?_, step⟩, mintX, mintY, ?_, ?_, name, symbol⟩
      · rwa [show Coll.binStepConfig.id later = row.binStepConfigId from named] at stays
      · rw [← namedX]
        exact findOne_of_minted witnessed mintedX
      · rw [← namedY]
        exact findOne_of_minted witnessed mintedY
  | position =>
      intro index inside
      have share := witnessed _ founded
        { id := liquidityShareId row.id index
          positionId := row.id
          index := index
          balance := "0" }
        (List.mem_map.mpr ⟨index, List.mem_range.mpr inside, rfl⟩)
      obtain ⟨later, stays, same⟩ := share
      exact ⟨later, stays, Coll.shown same LiquidityShares.positionId fun _ => rfl,
        Coll.shown same LiquidityShares.index fun _ => rfl⟩
  | binSwapEvent =>
      obtain ⟨⟨pair, foundPair⟩, ⟨bin, foundBin⟩, named⟩ := founded
      refine ⟨holds_of_found witnessed foundPair, ?_⟩
      rw [named] at foundBin ⊢
      exact bin_of_found referential witnessed foundBin
  | positionUpdateEvent =>
      obtain ⟨⟨pair, foundPair⟩, ⟨position, foundPosition⟩, ⟨bin, foundBin⟩, named⟩ := founded
      refine ⟨holds_of_found witnessed foundPair, holds_of_found witnessed foundPosition, ?_⟩
      rw [named] at foundBin ⊢
      exact bin_of_found referential witnessed foundBin
  | compositionFeesEvent =>
      obtain ⟨⟨pair, foundPair⟩, named⟩ := founded
      exact ⟨holds_of_found witnessed foundPair, named⟩
  | bin | liquidityShares | instruction => exact founded
  | binStepConfig | tokenMint | tokenAccount | swapEvent | quoteAsset => trivial

/-- What grows by founded rows stays referential. -/
theorem Referential.grows {after : Store} (referential : Referential store)
    (witnessed : Witnessed Op.fact log store)
    (grows : Store.Grows Coll.frozen (fun coll => coll.Founded log) store after) :
    Referential after := by
  intro coll row member
  obtain ⟨source, old | founded, same⟩ := (grows coll).origin member
  · exact grounded_grows grows (grounded_of_frozen same (referential coll source old))
  · exact grounded_grows grows
      (grounded_of_frozen same (grounded_of_founded referential witnessed founded))

end Founded

/-! ## Whole runs -/

/-- The contract of `Permanence` suffices for references as well. -/
def referenceDiscipline : Discipline mongo :=
  { permanenceDiscipline with
    contract := ⟨Referential, permanence.permitted⟩
    sound := fun referential witnessed permitted did =>
      have grows := Op.Extends.grows permitted did
      ⟨referential.grows witnessed grows, fun coll => (grows coll).mono fun _ _ => trivial⟩
    answered := fun _ _ applied => Op.fact_of_apply applied }

/-- In every store that the workers reach, under any interleaving and with operations
failing anywhere, all references that the processors check lead to rows that agree. -/
theorem references_hold {start : Store} {system : Workers} (referential : Referential start)
    (reaches : Reaches mongo Launch.process Unguarded (.initial start) system) :
    ∀ coll, ∀ row ∈ system.store coll, coll.Grounded system.store row := by
  have first : Disciplined referenceDiscipline (.initial start : Workers) := .initial referential
  refine (first.reaches (fun launch => ?_) reaches).1.reliable
  exact launch.meets_permanence.of_rely fun _ => Referential.lowerCase

/-- The pair of a run is grounded in its config and its mints. -/
theorem references_hold_pairJob :
    Coll.pair.Grounded pairStore (InitializePair.pairData
      ⟨8388608, "book", "mintX", "mintY", "config", "badge", "pair"⟩
      (InitializeBinStepConfig.binStepConfigData
        ⟨10, .Open, ⟨1, 1, 1, 1, 1, 1, 1⟩, "book", "config"⟩)
      ⟨"mintX", "0", 0, "Unknown", "UNKNOWN"⟩ ⟨"mintY", "0", 0, "Unknown", "UNKNOWN"⟩) :=
  references_hold referential_empty
    ((reaches_of_run configJob.silent _ []).trans (reaches_of_run pairJob.silent _ _)) .pair _
    (Collection.mem_iff_findOne.mpr rfl)

end DlmmIndexer
