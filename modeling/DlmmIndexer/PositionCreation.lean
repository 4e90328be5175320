import DlmmIndexer.Retry

/-!
# Position creation

A position is announced twice: by the `create_position` instruction, which knows the
owner and not the bin range, and by its event, which knows the range and not the owner.
Whichever comes first inserts the position with placeholders for what it does not know
and the other one assigns that.
-/

namespace DlmmIndexer

open Documents JavaScript Atomic Text

/-! ## Share rows are named after their position -/

/-- The id of a share row is made of its position and an index below 64. -/
def LiquidityShares.Named (row : LiquidityShares) : Prop :=
  ∃ index : ℕ, index < binPerPosition ∧ row.id = liquidityShareId row.positionId index

/-- The operation inserts named shares only and does not move a share to another position. -/
def Op.NamesShares {ρ : Type} : Op ρ → Prop
  | .create .liquidityShares row => row.Named
  | .insertMany .liquidityShares batch => ∀ row ∈ batch, row.Named
  | .updateOne .liquidityShares _ update => ∀ row, (update.set row).positionId = row.positionId
  | .updateWhere .liquidityShares _ update => ∀ row, (update.set row).positionId = row.positionId
  | _ => True

theorem namesShares_of_elsewhere {ρ : Type} {operation : Op ρ}
    (elsewhere : operation.target ≠ some .liquidityShares) : operation.NamesShares := by
  cases operation with
  | create coll | insertMany coll | updateOne coll | updateWhere coll =>
      cases coll with
      | liquidityShares => exact absurd rfl elsewhere
      | _ => trivial
  | _ => trivial

theorem named_of_mem_liquiditySharesData {position : String} {row : LiquidityShares}
    (member : row ∈ CreatePosition.liquiditySharesData position) :
    row.Named ∧ row.positionId = position := by
  obtain ⟨index, inside, rfl⟩ := List.mem_map.mp member
  exact ⟨⟨index, List.mem_range.mp inside, rfl⟩, rfl⟩

/-- The shares of a position are the 64 rows, up to their order. -/
theorem perm_liquiditySharesData {position : String} {shares : Collection LiquidityShares.id}
    (same : ∀ row, (row ∈ shares ∧ row.positionId = position) ↔
      row ∈ CreatePosition.liquiditySharesData position) :
    (shares.rows.filter fun row => row.positionId = position).Perm
      (CreatePosition.liquiditySharesData position) := by
  refine (List.perm_ext_iff_of_nodup (shares.nodup.of_map.filter _)
    (CreatePosition.nodup_liquiditySharesData position).of_map).mpr fun row => ?_
  rw [List.mem_filter, decide_eq_true_eq]
  exact same row

/-- Every share row is named after its position. -/
def SharesNamed (store : Store) : Prop := ∀ row ∈ store .liquidityShares, row.Named

/-- An operation that names its shares keeps all shares named, also when disturbed. -/
theorem sharesNamed_apply {ρ : Type} (operation : Op ρ) (store : Store)
    (names : operation.NamesShares) (named : SharesNamed store) :
    SharesNamed (mongo.apply operation store).2 ∧
      ∀ after, mongo.fails operation store after → SharesNamed after := by
  by_cases writes : operation.target = some .liquidityShares
  swap
  · have frame := Op.frame writes store
    refine ⟨?_, fun after failed => ?_⟩
    · change ∀ row ∈ (operation.apply store).2 .liquidityShares, row.Named
      rwa [frame.1]
    · rw [SharesNamed, frame.2 after failed]
      exact named
  have put {rows : Collection LiquidityShares.id} (all : ∀ row ∈ rows, row.Named) :
      SharesNamed (store.put .liquidityShares rows) := by
    rwa [SharesNamed, Store.put_same]
  have assigned {update : Update LiquidityShares.id} {id : String}
      (same : ∀ row, (update.set row).positionId = row.positionId) :
      SharesNamed (store.put .liquidityShares ((store .liquidityShares).updateOne id update)) :=
    put (Collection.forall_mem_updateOne named fun row _ held => by
      rw [LiquidityShares.Named, same, show (update.set row).id = row.id from update.key_set row]
      exact held)
  have unmoved {after : Store} (same : after = store) : SharesNamed after := same ▸ named
  cases operation with
  | findOne | find | «exists» | existsWhere | deletePosition => cases writes
  | create coll row =>
      obtain rfl : coll = .liquidityShares := Option.some.inj writes
      refine ⟨?_, fun after => unmoved⟩
      simp only [mongo, Op.apply]
      split
      next rows created _ =>
        refine put fun other member => ?_
        rcases (Collection.mem_create created).mp member with old | rfl
        · exact named other old
        · exact names
      · exact named
  | insertMany coll batch =>
      obtain rfl : coll = .liquidityShares := Option.some.inj writes
      constructor
      · simp only [mongo, Op.apply]
        split
        all_goals
          next rows inserted =>
            exact put fun row member => (Collection.mem_of_mem_insertMany inserted member).elim
              (named row) (names row)
      · rintro after ⟨stored, part, rfl⟩
        exact put fun row member => (Collection.mem_of_mem_insertFree member).elim (named row)
          fun new => names row (part.subset new)
  | updateOne coll id update =>
      obtain rfl : coll = .liquidityShares := Option.some.inj writes
      refine ⟨?_, fun after => unmoved⟩
      simp only [mongo, Op.apply]
      split
      · exact assigned names
      · exact named
  | updateWhere coll filter update =>
      obtain rfl : coll = .liquidityShares := Option.some.inj writes
      refine ⟨?_, fun after => unmoved⟩
      simp only [mongo, Op.apply]
      split
      · exact named
      · split
        · exact named
        · exact assigned names
  | deleteShares position =>
      refine ⟨?_, fun after => unmoved⟩
      exact put fun row member => named row (Collection.mem_deleteWhere.mp member).1

/-- Every operation of the program names its shares. -/
abbrev Action.NamesShares {α : Type} (program : Action α) : Prop :=
  Program.Every (fun {_} operation => Op.NamesShares operation) program

section NamesShares

variable {α : Type} {program : Action α}

theorem namesShares_of_within {colls : List Coll} (within : program.Within colls)
    (absent : .liquidityShares ∉ colls) : program.NamesShares :=
  Program.Every.imp (fun _ allowed =>
    namesShares_of_elsewhere fun written => absent (allowed _ written)) within

theorem namesShares_perform {ρ : Type} {operation : Op ρ}
    (elsewhere : operation.target ≠ some .liquidityShares) :
    Action.NamesShares (Program.perform operation) :=
  Program.every_perform (namesShares_of_elsewhere elsewhere)

theorem namesShares_insertPosition {row : Position} :
    (CreatePosition.insertPosition row).NamesShares := by
  refine .bind (Program.every_perform fun share member => ?_) fun _ => namesShares_perform nofun
  exact (named_of_mem_liquiditySharesData member).1

theorem namesShares_processBin {change : PositionChange} {pair position : String} {lower : ℕ}
    {entry : BinEntry} : (change.processBin pair position lower entry).NamesShares := by
  unfold PositionChange.processBin
  dsimp only
  split
  · exact Program.every_throw _
  refine .bind (namesShares_perform (by simp [Op.target])) fun share => ?_
  cases share with
  | none => exact Program.every_throw _
  | some share =>
  refine .bind (Program.every_ofExcept _) fun balance => ?_
  refine .bind (Program.every_perform fun row => rfl) fun _ => ?_
  refine .bind (namesShares_perform (by simp [Op.target])) fun bin => ?_
  cases bin with
  | none => exact Program.every_throw _
  | some bin =>
  exact .bind (Program.every_ofExcept _) fun _ => .bind (Program.every_ofExcept _) fun _ =>
    .bind (Program.every_ofExcept _) fun _ => namesShares_perform (by simp [Op.target])

theorem namesShares_processPosition {change : PositionChange} {message : ParsedInstructionMessage}
    {instructionId pair position : String} {entries : List BinEntry} :
    (change.processPosition message instructionId pair position entries).NamesShares := by
  have bins (lower : ℕ) (x y : Value) : (change.processBins message instructionId pair position
      lower entries x y).NamesShares := by
    induction entries generalizing x y with
    | nil => exact Program.every_return _
    | cons entry rest ih =>
        refine .bind namesShares_processBin fun _ => .bind (Program.every_ofExcept _) fun _ =>
          .bind (Program.every_ofExcept _) fun _ => .bind ?_ fun _ => ih _ _
        exact .bind (Program.every_ofExcept _) fun _ => .bind (Program.every_ofExcept _) fun _ =>
          .bind (Program.every_ofExcept _) fun _ => namesShares_perform nofun
  refine .bind (namesShares_perform nofun) fun existingPair => ?_
  cases existingPair with
  | none => exact Program.every_throw _
  | some existingPair =>
  refine .bind (namesShares_perform nofun) fun existingPosition => ?_
  cases existingPosition with
  | none => exact Program.every_throw _
  | some existingPosition =>
  exact .bind (bins _ _ _) fun _ => .bind (Program.every_ofExcept _) fun _ =>
    .bind (Program.every_ofExcept _) fun _ => namesShares_perform nofun

theorem namesShares_processClosePosition {message : ParsedInstructionMessage}
    {decoded : ClosePosition.ClosePositionDecoded} :
    (ClosePosition.processClosePosition message decoded).NamesShares := by
  refine .bind (namesShares_perform nofun) fun isIndexed => ?_
  cases isIndexed with
  | false => exact Program.every_throw _
  | true =>
  refine .bind (namesShares_perform nofun) fun existingPosition => ?_
  cases existingPosition with
  | none => exact Program.every_throw _
  | some existingPosition =>
  dsimp only
  split
  · refine .bind (Program.every_perform trivial) fun _ => .bind (namesShares_perform nofun)
      fun deleted => ?_
    split
    · exact Program.every_throw _
    · exact Program.every_return _
  · exact Program.every_throw _

/-- The jobs name their shares. -/
theorem Job.namesShares (rpc : Rpc) (job : Job) : (job.process rpc).NamesShares := by
  have deduplicated {params : CheckAndInsertInstructionParams} {work : Instruction → Action Unit}
      (names : ∀ instruction, (work instruction).NamesShares) :
      (unlessProcessed params work).NamesShares := by
    refine .bind (namesShares_of_within within_checkAndInsertInstruction (by simp)) fun answer => ?_
    cases answer with
    | none => exact Program.every_return _
    | some instruction => exact names instruction
  have settled {row : Position} {update : Update Position.id} (existing : Option Position) :
      Action.NamesShares (match existing with
        | none => CreatePosition.insertPosition row
        | some _ => updateOne .position row.id update) := by
    cases existing with
    | none => exact namesShares_insertPosition
    | some row => exact namesShares_perform nofun
  rcases job with ⟨message, payload⟩
  cases payload with
  | createPosition decoded =>
      exact .bind (Program.every_ofExcept _) fun owner => deduplicated fun _ =>
        .bind (namesShares_of_within CreatePosition.ensureTokenAccount_within (by simp)) fun _ =>
          .bind (namesShares_perform nofun) settled
  | positionCreationEvent decoded =>
      exact deduplicated fun _ => .bind (namesShares_perform nofun) settled
  | increasePosition decoded => exact deduplicated fun _ => namesShares_processPosition
  | decreasePosition decoded => exact deduplicated fun _ => namesShares_processPosition
  | closePosition decoded => exact deduplicated fun _ => namesShares_processClosePosition
  | _ =>
      exact namesShares_of_within (Job.process_within rpc ⟨message, _⟩) (by simp [Payload.writes])

end NamesShares

/-- The share rows of every store that interleaved, disturbed runs reach are named after
their positions. -/
theorem sharesNamed_of_reaches {guard : Store → Attempt → Attempt → Prop} {system : Workers}
    (reaches : Reaches mongo Launch.process guard (.initial .empty) system) :
    SharesNamed system.store :=
  reaches.kept_of_every (fun launch => launch.namesShares launch.rpc) sharesNamed_apply
    fun _ member => absurd member (Collection.not_mem_empty _)

/-! ## The two jobs of a new position -/

/-- A `create_position` instruction and its event, at different places of a transaction
and in agreement on pair, position and mint. -/
structure Creation where
  message : ParsedInstructionMessage
  decoded : CreatePosition.CreatePositionDecoded
  eventMessage : ParsedInstructionMessage
  event : CreatePosition.PositionCreationEvent
  apart : (message.instructionIndex, message.innerInstructionIndex.text) ≠
    (eventMessage.instructionIndex, eventMessage.innerInstructionIndex.text)
  pair_eq : event.pair = decoded.pair
  position_eq : event.position = decoded.position
  mint_eq : event.positionMint = decoded.positionMint

namespace Creation

def instructionJob (creation : Creation) : Job :=
  ⟨creation.message, .createPosition creation.decoded⟩

def eventJob (creation : Creation) : Job :=
  ⟨creation.eventMessage, .positionCreationEvent creation.event⟩

/-- The deduplication parameters of the instruction. -/
def instructionParams (creation : Creation) : CheckAndInsertInstructionParams :=
  creation.message.params .CreatePositionProcessor

/-- The deduplication parameters of the event. -/
def eventParams (creation : Creation) : CheckAndInsertInstructionParams :=
  creation.eventMessage.params .CreatePositionProcessor

/-- The id of the new position. -/
def position (creation : Creation) : String := creation.decoded.position

theorem ids_ne (creation : Creation) :
    generateInstructionId creation.instructionParams ≠
      generateInstructionId creation.eventParams := by
  intro same
  obtain ⟨outer, inner⟩ := place_of_generateInstructionId same
  exact creation.apart (Prod.ext outer inner)

/-- The position row once the instruction, the event or both have been processed. -/
def row (creation : Creation) (owner : String) (instructed announced : Bool) : Position where
  id := creation.position
  pairId := creation.decoded.pair
  positionMintId := creation.decoded.positionMint
  ownerId := if instructed then owner else "dummy-owner-id"
  lowerBinLbId := if announced then creation.event.lowerBinId else 0
  upperBinLbId := if announced then creation.event.upperBinId else 0

/-- The row of the position's token account. -/
def tokenAccount (creation : Creation) (owner : String) : TokenAccount where
  id := creation.decoded.positionTokenAccount
  ownerId := owner
  tokenMintId := creation.decoded.positionMint
  balance := "1"

/-- What a store has gained since `start` when the instruction, the event or both have
been processed. -/
structure Progress (creation : Creation) (owner : String) (start : Store)
    (instructed announced : Bool) (store : Store) : Prop where
  instructions : ∀ row, row ∈ store .instruction ↔ row ∈ start .instruction ∨
    (instructed = true ∧ row = instructionData creation.instructionParams) ∨
    (announced = true ∧ row = instructionData creation.eventParams)
  positions : ∀ row, row ∈ store .position ↔ row ∈ start .position ∨
    ((instructed || announced) = true ∧ row = creation.row owner instructed announced)
  shares : ∀ row, row ∈ store .liquidityShares ↔ row ∈ start .liquidityShares ∨
    ((instructed || announced) = true ∧
      row ∈ CreatePosition.liquiditySharesData creation.position)
  tokenAccounts : ∀ row, row ∈ store .tokenAccount ↔ row ∈ start .tokenAccount ∨
    (instructed = true ∧
      (start .tokenAccount).findOne creation.decoded.positionTokenAccount = none ∧
      row = creation.tokenAccount owner)
  others : ∀ coll, coll ∉ [.instruction, .position, .liquidityShares, .tokenAccount] →
    store coll = start coll

theorem progress_refl (creation : Creation) (owner : String) (start : Store) :
    creation.Progress owner start false false start where
  instructions row := by simp
  positions row := by simp
  shares row := by simp
  tokenAccounts row := by simp
  others coll _ := rfl

/-- Nothing of the creation is in the store. -/
structure New (creation : Creation) (start : Store) : Prop where
  absent : (start .position).findOne creation.position = none
  unread : (start .instruction).holds (generateInstructionId creation.instructionParams) = false
  unannounced : (start .instruction).holds (generateInstructionId creation.eventParams) = false

namespace Progress

variable {creation : Creation} {owner : String} {start store after : Store}
variable {instructed announced : Bool}

/-- Before either job the position is absent; afterwards it has the row of its stage. -/
theorem findOne_position (progress : creation.Progress owner start instructed announced store)
    (absent : (start .position).findOne creation.position = none) :
    (store .position).findOne creation.position =
      if instructed || announced then some (creation.row owner instructed announced) else none := by
  split
  next begun =>
    exact Collection.findOne_of_mem ((progress.positions _).mpr (.inr ⟨begun, rfl⟩))
  next pending =>
    refine Collection.findOne_eq_none.mpr fun row member same => ?_
    rcases (progress.positions row).mp member with old | ⟨begun, -⟩
    · exact Collection.findOne_eq_none.mp absent row old same
    · exact pending begun

/-- A row that was not there at the start is there once its job has been processed. -/
theorem holds_iff (progress : creation.Progress owner start instructed announced store)
    {id : String} (fresh : (start .instruction).holds id = false) :
    (store .instruction).holds id = true ↔
      (instructed = true ∧ generateInstructionId creation.instructionParams = id) ∨
        (announced = true ∧ generateInstructionId creation.eventParams = id) := by
  rw [Collection.holds_iff]
  constructor
  · rintro ⟨row, member, same⟩
    rcases (progress.instructions row).mp member with old | ⟨own, rfl⟩ | ⟨own, rfl⟩
    · rw [Collection.holds_iff.mpr ⟨row, old, same⟩] at fresh
      cases fresh
    · exact .inl ⟨own, same⟩
    · exact .inr ⟨own, same⟩
  · rintro (⟨own, same⟩ | ⟨own, same⟩)
    · exact ⟨_, (progress.instructions _).mpr (.inr (.inl ⟨own, rfl⟩)), same⟩
    · exact ⟨_, (progress.instructions _).mpr (.inr (.inr ⟨own, rfl⟩)), same⟩

theorem holds_instruction (progress : creation.Progress owner start instructed announced store)
    (unread : (start .instruction).holds (generateInstructionId creation.instructionParams) =
      false) :
    (store .instruction).holds (generateInstructionId creation.instructionParams) =
      instructed := by
  rw [Bool.eq_iff_iff, progress.holds_iff unread]
  exact ⟨fun own => own.elim And.left fun other => absurd other.2.symm creation.ids_ne,
    fun own => .inl ⟨own, rfl⟩⟩

theorem holds_event (progress : creation.Progress owner start instructed announced store)
    (unannounced : (start .instruction).holds (generateInstructionId creation.eventParams) =
      false) :
    (store .instruction).holds (generateInstructionId creation.eventParams) = announced := by
  rw [Bool.eq_iff_iff, progress.holds_iff unannounced]
  exact ⟨fun own => own.elim (fun other => absurd other.2 creation.ids_ne) And.left,
    fun own => .inr ⟨own, rfl⟩⟩

/-- A row that was there at the start stays. -/
theorem holds_of_start (progress : creation.Progress owner start instructed announced store)
    {id : String} (held : (start .instruction).holds id = true) :
    (store .instruction).holds id = true := by
  obtain ⟨row, old, same⟩ := Collection.holds_iff.mp held
  exact Collection.holds_iff.mpr ⟨row, (progress.instructions row).mpr (.inl old), same⟩

/-- Inserting the position or assigning to it brings the row of the next stage. -/
theorem settle (progress : creation.Progress owner start instructed announced store)
    (absentAtStart : (start .position).findOne creation.position = none)
    (instructed' announced' : Bool) {middle : Store}
    (positions : middle .position = store .position)
    (shares : middle .liquidityShares = store .liquidityShares) {update : Update Position.id}
    (assigns : update.set (creation.row owner instructed announced) =
      creation.row owner instructed' announced')
    (outcome : ((store .position).findOne creation.position = none ∧
        ((instructed || announced) = false → mongo.Completes (CreatePosition.insertPosition
          (creation.row owner instructed' announced')) middle () after)) ∨
      ∃ row, (store .position).findOne creation.position = some row ∧
        after = middle.put .position ((middle .position).updateOne creation.position update)) :
    (∀ row, row ∈ after .position ↔ row ∈ start .position ∨
      row = creation.row owner instructed' announced') ∧
    (∀ row, row ∈ after .liquidityShares ↔ row ∈ start .liquidityShares ∨
      row ∈ CreatePosition.liquiditySharesData creation.position) ∧
    ∀ coll, coll ∉ [.position, .liquidityShares] → after coll = middle coll := by
  have looked := progress.findOne_position absentAtStart
  rcases outcome with ⟨absent, inserted⟩ | ⟨row, found, rfl⟩
  · have pending : (instructed || announced) = false := by
      cases begun : instructed || announced with
      | false => rfl
      | true => simp [begun, absent] at looked
    obtain ⟨newShares, newPositions, insertedShares, created, rfl⟩ :=
      CreatePosition.of_completes_insertPosition (inserted pending)
    refine ⟨fun row => ?_, fun row => ?_, fun coll other => ?_⟩
    · rw [Store.put_same, Collection.mem_create created, positions, progress.positions, pending]
      simp
    · rw [Store.put_other (by decide), Store.put_same, Collection.mem_insertMany insertedShares,
        shares, progress.shares, pending]
      simp [Creation.row]
    · simp only [List.mem_cons, List.not_mem_nil, or_false, not_or] at other
      rw [Store.put_other other.1, Store.put_other other.2]
  · have begun : (instructed || announced) = true := by
      cases begun : instructed || announced with
      | true => rfl
      | false => simp [begun, found] at looked
    rw [begun, if_pos rfl] at looked
    refine ⟨fun other => ?_, fun other => ?_, fun coll other => ?_⟩
    · rw [Store.put_same, Collection.mem_updateOne, positions, looked, progress.positions, begun]
      constructor
      · rintro (⟨old | ⟨-, rfl⟩, different⟩ | ⟨_, ⟨⟩, rfl⟩)
        · exact .inl old
        · exact absurd rfl different
        · exact .inr assigns
      · rintro (old | rfl)
        · exact .inl ⟨.inl old, Collection.findOne_eq_none.mp absentAtStart other old⟩
        · exact .inr ⟨_, rfl, assigns.symm⟩
    · rw [Store.put_other (by decide), shares, progress.shares, begun]
      simp
    · simp only [List.mem_cons, List.not_mem_nil, or_false, not_or] at other
      rw [Store.put_other other.1]

/-- An instruction job that completes is skipped, or brings the owner and the token account. -/
theorem instruct {rpc : Rpc}
    (progress : creation.Progress owner start instructed announced store)
    (absentAtStart : (start .position).findOne creation.position = none)
    (unread : (start .instruction).holds (generateInstructionId creation.instructionParams) = false)
    (answered : CreatePosition.positionTokenAccountOwner rpc.toAccountRpc
      creation.decoded.positionTokenAccount = .ok owner)
    (completes : mongo.Completes (creation.instructionJob.process rpc) store () after) :
    creation.Progress owner start true announced after := by
  obtain ⟨_, answered', settled⟩ := Database.completes_ofExcept_bind.mp completes
  obtain rfl := Except.ok.inj (answered.symm.trans answered')
  rcases completes_unlessProcessed.mp settled with ⟨held, rfl⟩ | ⟨rows, created, worked⟩
  · obtain rfl : instructed = true := (progress.holds_instruction unread).symm.trans held
    exact progress
  obtain rfl : instructed = false :=
    (progress.holds_instruction unread).symm.trans (unrecorded_of_create created)
  obtain ⟨middle, same, ensured, outcome⟩ := CreatePosition.of_completes_settleInstruction worked
  have kept (coll : Coll) (first : coll ≠ .tokenAccount) (second : coll ≠ .instruction) :
      middle coll = store coll := by rw [same coll first, Store.put_other second]
  rw [Store.put_other (by decide)] at outcome
  obtain ⟨positions, shares, others⟩ := progress.settle absentAtStart true announced
    (kept .position (by decide) (by decide)) (kept .liquidityShares (by decide) (by decide)) rfl
    (outcome.imp_left fun ⟨absent, inserted⟩ => ⟨absent, fun pending => by
      rw [Bool.false_or] at pending
      rw [pending]
      exact inserted⟩)
  have accounts (row : TokenAccount) :
      row ∈ store .tokenAccount ↔ row ∈ start .tokenAccount := by simp [progress.tokenAccounts]
  refine ⟨fun row => ?_, by simpa using positions, by simpa using shares, fun row => ?_,
    fun coll other => ?_⟩
  · rw [others .instruction (by decide), same .instruction (by decide), Store.put_same,
      Collection.mem_create created, progress.instructions]
    simp only [Bool.false_eq_true, false_and, false_or, true_and]
    exact or_assoc.trans (or_congr_right or_comm)
  · rw [others .tokenAccount (by decide)]
    rcases CreatePosition.of_completes_ensureTokenAccount ensured with
      ⟨existing, found, rfl⟩ | ⟨absent, newAccounts, added, rfl⟩
    · rw [Store.put_other (by decide)] at found ⊢
      have old := (accounts existing).mp (Collection.mem_of_findOne found)
      have held : (start .tokenAccount).findOne creation.decoded.positionTokenAccount ≠ none :=
        fun none =>
          Collection.findOne_eq_none.mp none existing old (Collection.key_of_findOne found)
      simp [accounts, held]
    · rw [Store.put_other (by decide)] at absent added
      have free : (start .tokenAccount).findOne creation.decoded.positionTokenAccount = none :=
        Collection.findOne_eq_none.mpr fun row old =>
          Collection.findOne_eq_none.mp absent row ((accounts row).mpr old)
      rw [Store.put_same, Collection.mem_create added, accounts]
      simp [free, tokenAccount]
  · simp only [List.mem_cons, List.not_mem_nil, or_false, not_or] at other
    rw [others coll (by simp [other]), same coll other.2.2.2, Store.put_other other.1,
      progress.others coll (by simp [other])]

/-- An instruction job whose row was there at the start is skipped. -/
theorem instruct_skipped {rpc : Rpc}
    (progress : creation.Progress owner start instructed announced store)
    (recorded : (start .instruction).holds (generateInstructionId creation.instructionParams) =
      true)
    (completes : mongo.Completes (creation.instructionJob.process rpc) store () after) :
    after = store := by
  obtain ⟨_, -, settled⟩ := Database.completes_ofExcept_bind.mp completes
  rcases completes_unlessProcessed.mp settled with ⟨-, same⟩ | ⟨rows, created, -⟩
  · exact same
  · cases (progress.holds_of_start recorded).symm.trans (unrecorded_of_create created)

/-- An event job whose row was there at the start is skipped. -/
theorem announce_skipped {rpc : Rpc}
    (progress : creation.Progress owner start instructed announced store)
    (recorded : (start .instruction).holds (generateInstructionId creation.eventParams) = true)
    (completes : mongo.Completes (creation.eventJob.process rpc) store () after) :
    after = store := by
  rcases completes_unlessProcessed.mp completes with ⟨-, same⟩ | ⟨rows, created, -⟩
  · exact same
  · cases (progress.holds_of_start recorded).symm.trans (unrecorded_of_create created)

/-- An event job that completes is skipped, or brings the bin range. -/
theorem announce {rpc : Rpc}
    (progress : creation.Progress owner start instructed announced store)
    (absentAtStart : (start .position).findOne creation.position = none)
    (unannounced : (start .instruction).holds (generateInstructionId creation.eventParams) = false)
    (completes : mongo.Completes (creation.eventJob.process rpc) store () after) :
    creation.Progress owner start instructed true after := by
  rcases completes_unlessProcessed.mp completes with ⟨held, rfl⟩ | ⟨rows, created, worked⟩
  · obtain rfl : announced = true := (progress.holds_event unannounced).symm.trans held
    exact progress
  obtain rfl : announced = false :=
    (progress.holds_event unannounced).symm.trans (unrecorded_of_create created)
  have outcome := CreatePosition.of_completes_settleEvent worked
  rw [Store.put_other (by decide), creation.position_eq, creation.pair_eq, creation.mint_eq]
    at outcome
  obtain ⟨positions, shares, others⟩ := progress.settle absentAtStart instructed true
    (Store.put_other (by decide)) (Store.put_other (by decide)) rfl
    (outcome.imp_left fun ⟨absent, inserted⟩ => ⟨absent, fun pending => by
      rw [Bool.or_false] at pending
      rw [pending]
      exact inserted⟩)
  refine ⟨fun row => ?_, by simpa using positions, by simpa using shares, fun row => ?_,
    fun coll other => ?_⟩
  · rw [others .instruction (by decide), Store.put_same, Collection.mem_create created,
      progress.instructions]
    simp only [Bool.false_eq_true, false_and, or_false, true_and]
    exact or_assoc
  · rw [others .tokenAccount (by decide), Store.put_other (by decide), progress.tokenAccounts]
  · simp only [List.mem_cons, List.not_mem_nil, or_false, not_or] at other
    rw [others coll (by simp [other]), Store.put_other other.1,
      progress.others coll (by simp [other])]

end Progress

end Creation

/-- The same rows, in an order of their own. -/
def SameRows (left right : Store) : Prop := ∀ coll, (left coll).rows.Perm (right coll).rows

namespace Creation

variable {creation : Creation} {owner : String} {start after after' : Store}

/-- Both jobs have run, each any number of times, in any order. -/
structure Delivered (creation : Creation) (jobs : List Job) : Prop where
  ours : ∀ job ∈ jobs, job = creation.instructionJob ∨ job = creation.eventJob
  instructed : creation.instructionJob ∈ jobs
  announced : creation.eventJob ∈ jobs

/-- Jobs run one at a time, each to normal completion. -/
abbrev Runs (rpc : Rpc) : Store → List Job → Store → Prop :=
  Sequence mongo (Job.process rpc) fun _ _ => True

theorem jobs_ne (creation : Creation) : creation.instructionJob ≠ creation.eventJob := by
  intro same
  cases congrArg Job.payload same

/-- Every run of the two jobs comes to the same stage: that of the jobs whose rows were not
there at the start. -/
theorem Progress.of_runs {rpc : Rpc} {jobs : List Job}
    (absent : (start .position).findOne creation.position = none)
    (answered : CreatePosition.positionTokenAccountOwner rpc.toAccountRpc
      creation.decoded.positionTokenAccount = .ok owner)
    (delivered : creation.Delivered jobs) (runs : Runs rpc start jobs after) :
    creation.Progress owner start
      (!(start .instruction).holds (generateInstructionId creation.instructionParams))
      (!(start .instruction).holds (generateInstructionId creation.eventParams)) after := by
  have staged := Sequence.invariant runs
    (fun done store => ∃ instructed announced,
      (instructed = true ↔ creation.instructionJob ∈ done ∧
        (start .instruction).holds (generateInstructionId creation.instructionParams) = false) ∧
      (announced = true ↔ creation.eventJob ∈ done ∧
        (start .instruction).holds (generateInstructionId creation.eventParams) = false) ∧
      creation.Progress owner start instructed announced store)
    ⟨false, false, by simp, by simp, creation.progress_refl owner start⟩ ?_
  · obtain ⟨instructed, announced, first, second, progress⟩ := staged
    have reads : instructed =
        !(start .instruction).holds (generateInstructionId creation.instructionParams) := by
      rw [Bool.eq_iff_iff, first, and_iff_right delivered.instructed, Bool.not_eq_true']
    have announces : announced =
        !(start .instruction).holds (generateInstructionId creation.eventParams) := by
      rw [Bool.eq_iff_iff, second, and_iff_right delivered.announced, Bool.not_eq_true']
    rwa [← reads, ← announces]
  · rintro done job rest store middle split - completes
      ⟨instructed, announced, first, second, progress⟩
    have different := creation.jobs_ne
    rcases delivered.ours job (by simp [split]) with rfl | rfl
    · refine ⟨!(start .instruction).holds (generateInstructionId creation.instructionParams),
        announced, by simp, by simp [second, different.symm], ?_⟩
      cases recorded : (start .instruction).holds
          (generateInstructionId creation.instructionParams) with
      | false => exact progress.instruct absent recorded answered completes
      | true =>
          obtain rfl : instructed = false := by simpa [recorded] using first
          rw [progress.instruct_skipped recorded completes]
          exact progress
    · refine ⟨instructed, !(start .instruction).holds (generateInstructionId creation.eventParams),
        by simp [first, different], by simp, ?_⟩
      cases recorded : (start .instruction).holds (generateInstructionId creation.eventParams) with
      | false => exact progress.announce absent recorded completes
      | true =>
          obtain rfl : announced = false := by simpa [recorded] using second
          rw [progress.announce_skipped recorded completes]
          exact progress

/-- An instruction job that completed has had an answer from the RPC. -/
theorem answered_of_runs {rpc : Rpc} {jobs : List Job} (runs : Runs rpc start jobs after)
    (member : creation.instructionJob ∈ jobs) :
    ∃ owner, CreatePosition.positionTokenAccountOwner rpc.toAccountRpc
      creation.decoded.positionTokenAccount = .ok owner := by
  cases asked : CreatePosition.positionTokenAccountOwner rpc.toAccountRpc
      creation.decoded.positionTokenAccount with
  | ok owner => exact ⟨owner, rfl⟩
  | error failure =>
      refine absurd member (Sequence.invariant runs (fun done _ => creation.instructionJob ∉ done)
        List.not_mem_nil ?_)
      rintro done job rest store middle - - completes absent
      rw [List.mem_append, not_or, List.mem_singleton]
      refine ⟨absent, ?_⟩
      rintro rfl
      obtain ⟨owner, _, answered, -⟩ := Database.completes_bind.mp completes
      rw [show creation.decoded = _ from rfl, asked] at answered
      exact Database.not_completes_throw answered

/-- What a store with the new position has that `start` has not. -/
structure Created (creation : Creation) (owner : String) (start after : Store) : Prop where
  position : (after .position).findOne creation.position = some
    { id := creation.position
      pairId := creation.decoded.pair
      positionMintId := creation.decoded.positionMint
      ownerId := owner
      lowerBinLbId := creation.event.lowerBinId
      upperBinLbId := creation.event.upperBinId }
  otherPositions : ∀ row, row.id ≠ creation.position →
    (row ∈ after .position ↔ row ∈ start .position)
  shares : ((after .liquidityShares).rows.filter fun row =>
    row.positionId = creation.position).Perm
      (CreatePosition.liquiditySharesData creation.position)
  otherShares : ∀ row, row.positionId ≠ creation.position →
    (row ∈ after .liquidityShares ↔ row ∈ start .liquidityShares)
  tokenAccount : (after .tokenAccount).findOne creation.decoded.positionTokenAccount =
    some (((start .tokenAccount).findOne creation.decoded.positionTokenAccount).getD
      (creation.tokenAccount owner))
  otherTokenAccounts : ∀ row, row.id ≠ creation.decoded.positionTokenAccount →
    (row ∈ after .tokenAccount ↔ row ∈ start .tokenAccount)
  instructions : ∀ row, row ∈ after .instruction ↔ row ∈ start .instruction ∨
    row = instructionData creation.instructionParams ∨ row = instructionData creation.eventParams
  others : ∀ coll, coll ∉ [.instruction, .position, .liquidityShares, .tokenAccount] →
    after coll = start coll

/-- The row of the instruction is there without an attempt that went on, and all that it
would have brought is what the event leaves: the placeholder owner, and a token account. -/
structure InstructionIdle (creation : Creation) (owner : String) (start : Store) : Prop where
  recorded : instructionData creation.instructionParams ∈ start .instruction
  owner : owner = "dummy-owner-id"
  tokenAccount : (start .tokenAccount).holds creation.decoded.positionTokenAccount = true

/-- The row of the event is there without an attempt that went on, and all that it would
have brought is what the instruction leaves: the placeholder range. -/
structure EventIdle (creation : Creation) (start : Store) : Prop where
  recorded : instructionData creation.eventParams ∈ start .instruction
  lower : creation.event.lowerBinId = 0
  upper : creation.event.upperBinId = 0

/-- What a store with the new position lacks of the two jobs would have made no difference. -/
theorem Progress.idle_of_created {instructed announced : Bool}
    (progress : creation.Progress owner start instructed announced after)
    (absent : (start .position).findOne creation.position = none)
    (created : creation.Created owner start after) :
    (instructed || announced) = true ∧
      (instructed = false → creation.InstructionIdle owner start) ∧
      (announced = false → creation.EventIdle start) := by
  have looked := progress.findOne_position absent
  have begun : (instructed || announced) = true := by
    cases begun : instructed || announced with
    | true => rfl
    | false =>
        rw [begun, if_neg Bool.false_ne_true, created.position] at looked
        cases looked
  have same := created.position.symm.trans looked
  rw [begun, if_pos rfl, Option.some.injEq] at same
  refine ⟨begun, ?_, ?_⟩
  · rintro rfl
    refine ⟨?_, congrArg Position.ownerId same, ?_⟩
    · rcases (progress.instructions _).mp ((created.instructions _).mpr (.inr (.inl rfl))) with
        old | ⟨⟨⟩, -⟩ | ⟨-, same⟩
      · exact old
      · exact absurd (congrArg Instruction.id same) creation.ids_ne
    · rcases (progress.tokenAccounts _).mp (Collection.mem_of_findOne created.tokenAccount) with
        old | ⟨⟨⟩, -⟩
      exact Collection.holds_iff.mpr ⟨_, old, Collection.key_of_findOne created.tokenAccount⟩
  · rintro rfl
    refine ⟨?_, congrArg Position.lowerBinLbId same, congrArg Position.upperBinLbId same⟩
    rcases (progress.instructions _).mp ((created.instructions _).mpr (.inr (.inr rfl))) with
      old | ⟨-, same⟩ | ⟨⟨⟩, -⟩
    · exact old
    · exact absurd (congrArg Instruction.id same).symm creation.ids_ne

/-- The row of a stage is the whole row where the job that is missing is idle. -/
theorem row_of_idle {instructed announced : Bool}
    (instructionIdle : instructed = false → creation.InstructionIdle owner start)
    (eventIdle : announced = false → creation.EventIdle start) :
    creation.row owner instructed announced = creation.row owner true true := by
  simp only [row, if_true, Position.mk.injEq, true_and]
  refine ⟨?_, ?_, ?_⟩
  · cases instructed with
    | true => rfl
    | false => exact (instructionIdle rfl).owner.symm
  · cases announced with
    | true => rfl
    | false => exact (eventIdle rfl).lower.symm
  · cases announced with
    | true => rfl
    | false => exact (eventIdle rfl).upper.symm

/-- Once a job has been processed, the shares of the position are its 64. -/
theorem Progress.shares_begun {instructed announced : Bool}
    (progress : creation.Progress owner start instructed announced after)
    (named : SharesNamed start) (begun : (instructed || announced) = true) :
    ((after .liquidityShares).rows.filter fun row => row.positionId = creation.position).Perm
      (CreatePosition.liquiditySharesData creation.position) := by
  refine perm_liquiditySharesData fun row => ⟨?_, fun member => ?_⟩
  · rintro ⟨member, mine⟩
    rcases (progress.shares row).mp member with old | ⟨-, new⟩
    · obtain ⟨index, inside, same⟩ := named row old
      have other : _ ∈ after .liquidityShares := (progress.shares _).mpr
        (.inr ⟨begun, List.mem_map_of_mem (List.mem_range.mpr inside)⟩)
      rw [(after .liquidityShares).eq_of_key_eq member other (same.trans (by rw [mine]))]
      exact List.mem_map_of_mem (List.mem_range.mpr inside)
    · exact new
  · exact ⟨(progress.shares row).mpr (.inr ⟨begun, member⟩),
      (named_of_mem_liquiditySharesData member).2⟩

/-- The token account of the position is there where an instruction that is missing is idle. -/
theorem Progress.findOne_tokenAccount {instructed announced : Bool}
    (progress : creation.Progress owner start instructed announced after)
    (instructionIdle : instructed = false → creation.InstructionIdle owner start) :
    (after .tokenAccount).findOne creation.decoded.positionTokenAccount =
      some (((start .tokenAccount).findOne creation.decoded.positionTokenAccount).getD
        (creation.tokenAccount owner)) := by
  cases existing : (start .tokenAccount).findOne creation.decoded.positionTokenAccount with
  | none =>
      obtain rfl : instructed = true := by
        rw [← Bool.not_eq_false]
        rintro rfl
        cases (Collection.holds_eq_false.mpr existing).symm.trans
          (instructionIdle rfl).tokenAccount
      exact Collection.findOne_of_mem
        ((progress.tokenAccounts _).mpr (.inr ⟨rfl, existing, rfl⟩))
  | some row =>
      rw [Option.getD_some, ← Collection.key_of_findOne existing]
      exact Collection.findOne_of_mem
        ((progress.tokenAccounts row).mpr (.inl (Collection.mem_of_findOne existing)))

/-- A stage is complete when what it lacks would have made no difference. -/
theorem Progress.created_iff {instructed announced : Bool}
    (progress : creation.Progress owner start instructed announced after)
    (absent : (start .position).findOne creation.position = none) (named : SharesNamed start) :
    creation.Created owner start after ↔ (instructed || announced) = true ∧
      (instructed = false → creation.InstructionIdle owner start) ∧
      (announced = false → creation.EventIdle start) := by
  refine ⟨progress.idle_of_created absent, ?_⟩
  rintro ⟨begun, instructionIdle, eventIdle⟩
  constructor
  · rw [progress.findOne_position absent, begun, if_pos rfl,
      row_of_idle instructionIdle eventIdle]
    rfl
  · intro row different
    rw [progress.positions]
    exact or_iff_left fun ⟨_, same⟩ => different (congrArg Position.id same)
  · exact progress.shares_begun named begun
  · intro row different
    rw [progress.shares]
    exact or_iff_left fun ⟨_, member⟩ => different (named_of_mem_liquiditySharesData member).2
  · exact progress.findOne_tokenAccount instructionIdle
  · intro row different
    rw [progress.tokenAccounts]
    exact or_iff_left fun ⟨_, _, same⟩ => different (congrArg TokenAccount.id same)
  · intro row
    rw [progress.instructions]
    refine ⟨fun member => member.imp_right fun own => own.imp And.right And.right, ?_⟩
    rintro (old | rfl | rfl)
    · exact .inl old
    · cases instructed with
      | true => exact .inr (.inl ⟨rfl, rfl⟩)
      | false => exact .inl (instructionIdle rfl).recorded
    · cases announced with
      | true => exact .inr (.inr ⟨rfl, rfl⟩)
      | false => exact .inl (eventIdle rfl).recorded
  · exact progress.others

/-- The stage determines the rows. -/
theorem Progress.sameRows {instructed announced : Bool}
    (progress : creation.Progress owner start instructed announced after)
    (progress' : creation.Progress owner start instructed announced after') :
    SameRows after after' := by
  intro coll
  refine Collection.perm_of_mem_iff fun row => ?_
  cases coll with
  | instruction => rw [progress.instructions, progress'.instructions]
  | position => rw [progress.positions, progress'.positions]
  | liquidityShares => rw [progress.shares, progress'.shares]
  | tokenAccount => rw [progress.tokenAccounts, progress'.tokenAccounts]
  | _ => rw [progress.others _ (by decide), progress'.others _ (by decide)]

/-- What two runs of the jobs, each to completion, are to leave behind: the rows of the
creation, with the owner that the RPC knows, and the same rows both times. -/
def Confluent (creation : Creation) (rpc : Rpc) (start after after' : Store) : Prop :=
  (∃ owner, CreatePosition.positionTokenAccountOwner rpc.toAccountRpc
      creation.decoded.positionTokenAccount = .ok owner ∧
    creation.Created owner start after) ∧ SameRows after after'

/-- Neither job is recorded.  Where one is and the other is not, it is idle. -/
def Unrecorded (creation : Creation) (rpc : Rpc) (start : Store) : Prop :=
  let instructed :=
    (start .instruction).holds (generateInstructionId creation.instructionParams)
  let announced := (start .instruction).holds (generateInstructionId creation.eventParams)
  (instructed = false ∧ announced = false) ∨
    (instructed = true ∧ announced = false ∧
      ∃ owner, CreatePosition.positionTokenAccountOwner rpc.toAccountRpc
        creation.decoded.positionTokenAccount = .ok owner ∧
      creation.InstructionIdle owner start) ∨
    (instructed = false ∧ announced = true ∧ creation.EventIdle start)

end Creation

/-- From a reachable store without the position, completed deliveries of the instruction and
the event, in any order and number, create the position, its 64 shares, its token account
and the two instructions, the same for all orders and with all else in its place, exactly
when neither job was recorded before; or when the one that was had nothing to bring but the
placeholders. -/
theorem creation_confluent_iff {rpc : Rpc} {creation : Creation} {system : Workers}
    {jobs jobs' : List Job} {after after' : Store}
    (reachable : Reaches mongo Launch.process Unguarded (.initial .empty) system)
    (absent : (system.store .position).findOne creation.position = none)
    (delivered : creation.Delivered jobs) (delivered' : creation.Delivered jobs')
    (runs : Creation.Runs rpc system.store jobs after)
    (runs' : Creation.Runs rpc system.store jobs' after') :
    creation.Confluent rpc system.store after after' ↔ creation.Unrecorded rpc system.store := by
  obtain ⟨owner, answered⟩ := Creation.answered_of_runs runs delivered.instructed
  have progress := Creation.Progress.of_runs absent answered delivered runs
  have progress' := Creation.Progress.of_runs absent answered delivered' runs'
  have created := progress.created_iff absent (sharesNamed_of_reaches reachable)
  have whole : creation.Confluent rpc system.store after after' ↔
      creation.Created owner system.store after := by
    refine ⟨?_, fun created => ⟨⟨owner, answered, created⟩, progress.sameRows progress'⟩⟩
    rintro ⟨⟨_, answered', created⟩, -⟩
    cases answered.symm.trans answered'
    exact created
  have idle : (∃ other, CreatePosition.positionTokenAccountOwner rpc.toAccountRpc
        creation.decoded.positionTokenAccount = .ok other ∧
      creation.InstructionIdle other system.store) ↔
        creation.InstructionIdle owner system.store := by
    refine ⟨?_, fun idle => ⟨owner, answered, idle⟩⟩
    rintro ⟨_, answered', idle⟩
    cases answered.symm.trans answered'
    exact idle
  rw [whole, created, Creation.Unrecorded, idle]
  cases (system.store .instruction).holds (generateInstructionId creation.instructionParams) <;>
    cases (system.store .instruction).holds (generateInstructionId creation.eventParams) <;> simp

/-! ## Both orders on the empty store -/

/-- An RPC that knows the owner of every token account. -/
def ownerRpc : Rpc := { silentRpc with getTokenAccount := fun _ => .ok (some "owner") }

/-- A position of 64 bins. -/
def sampleCreation : Creation where
  message := ⟨8, "sig", 1, false, .undefined⟩
  decoded := ⟨"pair", "position", "mint", "account"⟩
  eventMessage := ⟨8, "sig", 1, true, .at 3⟩
  event := ⟨"pair", "position", "mint", 8388608, 8388671⟩
  apart := by decide
  pair_eq := rfl
  position_eq := rfl
  mint_eq := rfl

/-- The instruction first, the event twice. -/
def instructionFirst : List Job :=
  [sampleCreation.instructionJob, sampleCreation.eventJob, sampleCreation.eventJob]

/-- The event first, the instruction twice. -/
def eventFirst : List Job :=
  [sampleCreation.eventJob, sampleCreation.instructionJob, sampleCreation.instructionJob]

theorem delivered_instructionFirst : sampleCreation.Delivered instructionFirst :=
  ⟨by simp [instructionFirst], by simp [instructionFirst], by simp [instructionFirst]⟩

theorem delivered_eventFirst : sampleCreation.Delivered eventFirst :=
  ⟨by simp [eventFirst], by simp [eventFirst], by simp [eventFirst]⟩

set_option maxRecDepth 100000 in
/-- Both orders complete on the empty store and leave the same rows. -/
theorem sample_confluent :
    ∃ after after', Creation.Runs ownerRpc .empty instructionFirst after ∧
      Creation.Runs ownerRpc .empty eventFirst after' ∧
      sampleCreation.Confluent ownerRpc .empty after after' := by
  obtain ⟨after, ran⟩ := Option.isSome_iff_exists.mp (show (runAll mongo (Job.process ownerRpc)
    instructionFirst .empty).isSome = true by decide +kernel)
  obtain ⟨after', ran'⟩ := Option.isSome_iff_exists.mp (show (runAll mongo (Job.process ownerRpc)
    eventFirst .empty).isSome = true by decide +kernel)
  have reachable : Reaches mongo Launch.process Unguarded (.initial .empty) (.initial .empty) :=
    .refl
  have runs : Creation.Runs ownerRpc Store.empty instructionFirst after := sequence_of_runAll ran
  have runs' : Creation.Runs ownerRpc Store.empty eventFirst after' := sequence_of_runAll ran'
  exact ⟨after, after', runs, runs', (creation_confluent_iff reachable rfl
    delivered_instructionFirst delivered_eventFirst runs runs').mpr (.inl ⟨rfl, rfl⟩)⟩

/-! ## An attempt that stopped before -/

/-- The store of an attempt at the instruction that got as far as its row. -/
def recordedStore : Store :=
  Store.empty.put .instruction
    (((Store.empty .instruction).create (instructionData sampleCreation.instructionParams)).getD
      (.empty _))

/-- The attempt at the instruction is disturbed at its lookup of the token account. -/
theorem recordedStore_reached : ∃ attempts, Reaches mongo Launch.process Unguarded
    (.initial .empty) ⟨recordedStore, attempts⟩ := by
  let instructed : Launch := ⟨sampleCreation.instructionJob, ownerRpc⟩
  let work (_instruction : Instruction) : Action Unit :=
    CreatePosition.settleInstruction sampleCreation.decoded "owner"
  have launched : (.launch Launch.process instructed : Attempt) =
      ⟨instructed,
        .op (.exists .instruction (generateInstructionId sampleCreation.instructionParams))
          fun found => if found then .pure () else
            afterLookup sampleCreation.instructionParams work, []⟩ :=
    congrArg (fun program : Action Unit => (⟨instructed, program, []⟩ : Attempt))
      (unlessProcessed_eq _ work)
  have begun : Reaches mongo Launch.process Unguarded (.initial .empty) ⟨.empty, [_]⟩ :=
    .single (.launch instructed)
  have alone {store store' : Store} {attempt attempt' : Attempt}
      (moves : Moves mongo store attempt store' attempt') :
      Step mongo Launch.process Unguarded ⟨store, [attempt]⟩ ⟨store', [attempt']⟩ :=
    @Step.move _ _ _ _ mongo Launch.process Unguarded _ _ [] [] _ _ moves trivial
  rw [launched] at begun
  have looked := begun.tail (alone (.perform rfl))
  have recorded := looked.tail (alone (.perform rfl))
  exact ⟨_, recorded.tail (alone (.fault .unavailable rfl))⟩

set_option maxRecDepth 100000 in
/-- The retry is skipped, and the position keeps the placeholder owner of its event. -/
theorem creation_lost : ∃ (system : Workers) (after after' : Store),
    Reaches mongo Launch.process Unguarded (.initial .empty) system ∧
      (system.store .position).findOne sampleCreation.position = none ∧
      sampleCreation.Delivered instructionFirst ∧ sampleCreation.Delivered eventFirst ∧
      Creation.Runs ownerRpc system.store instructionFirst after ∧
      Creation.Runs ownerRpc system.store eventFirst after' ∧
      (after .position).rows.map Position.ownerId = ["dummy-owner-id"] ∧
      ¬sampleCreation.Confluent ownerRpc system.store after after' := by
  obtain ⟨attempts, reached⟩ := recordedStore_reached
  obtain ⟨after, ran, owners⟩ := Option.map_eq_some_iff.mp (show
    (runAll mongo (Job.process ownerRpc) instructionFirst recordedStore).map
      (fun after => (after .position).rows.map Position.ownerId) = some ["dummy-owner-id"] by
    decide +kernel)
  obtain ⟨after', ran'⟩ := Option.isSome_iff_exists.mp (show (runAll mongo (Job.process ownerRpc)
    eventFirst recordedStore).isSome = true by decide +kernel)
  refine ⟨_, after, after', reached, rfl, delivered_instructionFirst, delivered_eventFirst,
    sequence_of_runAll ran, sequence_of_runAll ran', owners, ?_⟩
  rintro ⟨⟨owner, answered, created⟩, -⟩
  cases answered
  have owned : "owner" ∈ (after .position).rows.map Position.ownerId :=
    List.mem_map.mpr ⟨_, Collection.mem_of_findOne created.position, rfl⟩
  rw [owners] at owned
  exact absurd (List.mem_singleton.mp owned) (by decide)

end DlmmIndexer
