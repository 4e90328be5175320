import DlmmIndexer.PositionCreation
import DlmmIndexer.Library.Queue

/-!
# Concurrent position creation

The instruction and the event of a position run at the same time.  Both look the
position up and insert what they do not find.  When both have missed it, the unique
index turns the second insertion down, and the retry is skipped because the
`Instruction` row is in: what that job knew is lost.

As long as no job inserts shares that are there already, the two jobs converge.  The
argument is about two halves that fit together; the invariant says how far each has come
and what it counts on in the store.
-/

namespace DlmmIndexer

open Documents JavaScript Atomic

/-- The database without disturbances. -/
def undisturbed : Database Op Store Failure := ⟨Op.apply, fun _ _ _ => False⟩

/-- An operation that the database answers is the only move of its process. -/
theorem moves_of_applied {ρ : Type} {operation : Op ρ} {next : ρ → Action Unit} {answer : ρ}
    {launch : Launch} {log : List (Event Op)} {store after store' : Store} {attempt' : Attempt}
    (applied : mongo.apply operation store = (.ok answer, after))
    (moves : Moves undisturbed store ⟨launch, .op operation next, log⟩ store' attempt') :
    store' = after ∧ attempt'.program = next answer := by
  cases moves with
  | perform applied' =>
      cases applied.symm.trans applied'
      exact ⟨rfl, rfl⟩
  | reject applied' => cases applied.symm.trans applied'
  | fault failure failed => exact failed.elim

/-- The next launch is one of the same job, whatever the RPC answers it. -/
def Launch.Again (launch next : Launch) : Prop := next.toJob = launch.toJob

theorem Launch.Again.refl (launch : Launch) : launch.Again launch := rfl

/-- No share that the operation inserts is there already. -/
def Op.insertsFresh {ρ : Type} (store : Store) : Op ρ → Bool
  | .insertMany .liquidityShares batch =>
      batch.all fun share => !(store .liquidityShares).holds share.id
  | _ => true

/-- The guard of a run in which no job inserts shares that are there already. -/
def InsertsFresh (store : Store) (before _after : Attempt) : Prop :=
  ∀ {ρ : Type} (operation : Op ρ) next, before.program = .op operation next →
    operation.insertsFresh store = true

namespace Creation

/-- The row is the new position's, whatever its owner and range. -/
def Own (creation : Creation) (row : Position) : Prop :=
  row.id = creation.position ∧ row.pairId = creation.decoded.pair ∧
    row.positionMintId = creation.decoded.positionMint

/-- The shares of the new position are the 64 rows. -/
def SharesIn (creation : Creation) (store : Store) : Prop :=
  ∀ row, (row ∈ store .liquidityShares ∧ row.positionId = creation.position) ↔
    row ∈ CreatePosition.liquiditySharesData creation.position

/-- There are no shares of the new position. -/
def SharesOut (creation : Creation) (store : Store) : Prop :=
  ∀ row ∈ store .liquidityShares, row.positionId ≠ creation.position

/-- One half of a creation: its deduplication record, the token account it opens, the row
it inserts and the fields it assigns. -/
structure Half (creation : Creation) where
  params : CheckAndInsertInstructionParams
  account : Option TokenAccount
  row : Position
  update : Update Position.id
  row_own : creation.Own row
  update_row : update.set row = row
  update_own : ∀ row, creation.Own row → creation.Own (update.set row)
  update_update : ∀ row, update.set (update.set row) = update.set row

namespace Half

variable {creation : Creation} (half : Half creation)

/-- Insert the position, or assign to it when it is there. -/
def settle : Action Unit := do
  match ← findOne .position creation.position with
  | none => CreatePosition.insertPosition half.row
  | some _ => updateOne .position creation.position half.update

def work : Action Unit :=
  match half.account with
  | some account => do
      CreatePosition.ensureTokenAccount account
      half.settle
  | none => half.settle

def process : Action Unit := unlessProcessed half.params fun _ => half.work

/-- How far a half has come and what it counts on; the flag tells whether it is about to
create the position row. -/
inductive Stage (store : Store) : Bool → Action Unit → Prop where
  | waiting (fresh : (store .instruction).holds (generateInstructionId half.params) = false) :
      Stage store false half.process
  | missing (fresh : (store .instruction).holds (generateInstructionId half.params) = false) :
      Stage store false (afterLookup half.params fun _ => half.work)
  | ensuring {account : TokenAccount} (opens : half.account = some account) :
      Stage store false (CreatePosition.ensureTokenAccount account >>= fun _ => half.settle)
  | opening {account : TokenAccount} (opens : half.account = some account)
      (absent : (store .tokenAccount).findOne account.id = none) :
      Stage store false (create .tokenAccount account >>= fun _ => half.settle)
  | looking : Stage store false half.settle
  | inserting : Stage store false (CreatePosition.insertPosition half.row)
  | creating (absent : (store .position).findOne creation.position = none)
      (shares : creation.SharesIn store) : Stage store true (create .position half.row)
  | updating {row : Position} (present : (store .position).findOne creation.position = some row) :
      Stage store false (updateOne .position creation.position half.update)
  | done {row : Position} (present : (store .position).findOne creation.position = some row)
      (settled : half.update.set row = row) : Stage store false (.pure ())

end Half

/-- What holds of the store throughout. -/
structure Ground (creation : Creation) (store : Store) : Prop where
  own : ∀ row, (store .position).findOne creation.position = some row →
    creation.Own row ∧ creation.SharesIn store
  shares : creation.SharesOut store ∨ creation.SharesIn store
  mintFree : ∀ row ∈ store .position, row.id ≠ creation.position →
    row.positionMintId ≠ creation.decoded.positionMint

theorem Ground.not_mintTaken {creation : Creation} {store : Store}
    (ground : creation.Ground store) {row : Position} (own : creation.Own row) :
    Op.mintTaken (store .position) row = false := by
  rw [Op.mintTaken, List.any_eq_false]
  intro other member
  rw [own.1, own.2.2]
  simpa using ground.mintFree other member

/-- The two halves of one creation. -/
structure Fit (left right : Half creation) : Prop where
  ids_ne : generateInstructionId left.params ≠ generateInstructionId right.params
  oneAccount : left.account = none ∨ right.account = none
  commute : ∀ row, left.update.set (right.update.set row) = right.update.set (left.update.set row)

theorem Fit.symm {creation : Creation} {left right : Half creation} (fit : Fit left right) :
    Fit right left :=
  ⟨fit.ids_ne.symm, fit.oneAccount.symm, fun row => (fit.commute row).symm⟩

/-- Both halves are in stage and at most one is about to create the position row. -/
def Racing (left right : Half creation) (store : Store) (program program' : Action Unit) : Prop :=
  ∃ creating creating', left.Stage store creating program ∧ right.Stage store creating' program' ∧
    (creating && creating') = false ∧ creation.Ground store

section Moves

variable {creation : Creation} {half other : Half creation} {store store' : Store}
variable {creating creating' : Bool} {program program' : Action Unit}

/-- A stage survives a change of the store that it does not depend on. -/
theorem Half.Stage.stay (stage : half.Stage store creating program)
    (instructions : (store .instruction).holds (generateInstructionId half.params) = false →
      (store' .instruction).holds (generateInstructionId half.params) = false)
    (accounts : ∀ account, half.account = some account →
      (store' .tokenAccount).findOne account.id = (store .tokenAccount).findOne account.id)
    (waits : creating = true → (store .position).findOne creation.position = none →
      creation.SharesIn store → (store' .position).findOne creation.position = none ∧
        creation.SharesIn store')
    (rows : ∀ row, (store .position).findOne creation.position = some row →
      ∃ row', (store' .position).findOne creation.position = some row' ∧
        (half.update.set row = row → half.update.set row' = row')) :
    half.Stage store' creating program := by
  cases stage with
  | waiting fresh => exact .waiting (instructions fresh)
  | missing fresh => exact .missing (instructions fresh)
  | ensuring opens => exact .ensuring opens
  | opening opens absent => exact .opening opens ((accounts _ opens).trans absent)
  | looking => exact .looking
  | inserting => exact .inserting
  | creating absent shares =>
      obtain ⟨absent', shares'⟩ := waits rfl absent shares
      exact .creating absent' shares'
  | updating present =>
      obtain ⟨row', present', -⟩ := rows _ present
      exact .updating present'
  | done present settled =>
      obtain ⟨row', present', settled'⟩ := rows _ present
      exact .done present' (settled' settled)

/-- A stage survives a change of collections it does not read. -/
theorem Half.Stage.stay_of_same (stage : half.Stage store creating program)
    (instructions : (store .instruction).holds (generateInstructionId half.params) = false →
      (store' .instruction).holds (generateInstructionId half.params) = false)
    (accounts : ∀ account, half.account = some account →
      (store' .tokenAccount).findOne account.id = (store .tokenAccount).findOne account.id)
    (positions : store' .position = store .position)
    (shares : store' .liquidityShares = store .liquidityShares) :
    half.Stage store' creating program := by
  refine stage.stay instructions accounts (fun _ absent sharesIn => ?_) fun row present => ?_
  · rw [positions, SharesIn, shares]
    exact ⟨absent, sharesIn⟩
  · rw [positions]
    exact ⟨row, present, fun settled => settled⟩

theorem Ground.of_same (ground : creation.Ground store)
    (positions : store' .position = store .position)
    (shares : store' .liquidityShares = store .liquidityShares) : creation.Ground store' := by
  constructor
  · rw [positions, SharesIn, shares]
    exact ground.own
  · rw [SharesOut, SharesIn, shares]
    exact ground.shares
  · rw [positions]
    exact ground.mintFree

/-- The other half does not notice a move that only writes instructions and token accounts. -/
theorem Racing.of_same (stage : half.Stage store' false program)
    (stage' : other.Stage store creating' program') (ground : creation.Ground store)
    (instructions : (store .instruction).holds (generateInstructionId other.params) = false →
      (store' .instruction).holds (generateInstructionId other.params) = false)
    (accounts : ∀ account, other.account = some account →
      (store' .tokenAccount).findOne account.id = (store .tokenAccount).findOne account.id)
    (positions : store' .position = store .position)
    (shares : store' .liquidityShares = store .liquidityShares) :
    Racing half other store' program program' :=
  ⟨false, creating', stage, stage'.stay_of_same instructions accounts positions shares, rfl,
    ground.of_same positions shares⟩

/-- A move that only looks up something leaves the other half where it is. -/
theorem Racing.of_lookup (stage : half.Stage store false program)
    (stage' : other.Stage store creating' program') (ground : creation.Ground store) :
    Racing half other store program program' :=
  ⟨false, creating', stage, stage', rfl, ground⟩

/-- The deduplication record of one half is inserted. -/
theorem Racing.record (fit : Fit half other)
    (fresh : (store .instruction).holds (generateInstructionId half.params) = false)
    (stage' : other.Stage store creating' program') (ground : creation.Ground store) :
    ∃ store', mongo.apply (.create .instruction (instructionData half.params)) store =
        (.ok (), store') ∧ Racing half other store' half.work program' := by
  obtain ⟨rows, created⟩ := Collection.exists_create (show (store .instruction).findOne
    (instructionData half.params).id = none from Collection.holds_eq_false.mp fresh)
  refine ⟨_, Database.completes_perform.mp (completes_create.mpr ⟨rows, created, rfl, rfl⟩), ?_⟩
  have stage : half.Stage (store.put .instruction rows) false half.work := by
    unfold Half.work
    cases opens : half.account with
    | none => exact .looking
    | some account => exact .ensuring opens
  refine .of_same stage stage' ground (fun unread => ?_) (fun account _ => ?_)
    (Store.put_other (by decide)) (Store.put_other (by decide))
  · rw [Store.put_same]
    refine Bool.eq_false_iff.mpr fun held => ?_
    rcases (Collection.holds_create_iff created).mp held with old | same
    · exact absurd (unread.symm.trans old) Bool.false_ne_true
    · exact fit.ids_ne same
  · rw [Store.put_other (by decide)]

/-- The token account of one half is created. -/
theorem Racing.open (fit : Fit half other) {account : TokenAccount}
    (opens : half.account = some account)
    (absent : (store .tokenAccount).findOne account.id = none)
    (stage' : other.Stage store creating' program') (ground : creation.Ground store) :
    ∃ store', mongo.apply (.create .tokenAccount account) store = (.ok (), store') ∧
      Racing half other store' half.settle program' := by
  obtain ⟨rows, created⟩ := Collection.exists_create absent
  refine ⟨_, Database.completes_perform.mp (completes_create.mpr ⟨rows, created, rfl, rfl⟩), ?_⟩
  refine .of_same .looking stage' ground (fun unread => ?_) (fun account' opens' => ?_)
    (Store.put_other (by decide)) (Store.put_other (by decide))
  · rwa [Store.put_other (by decide)]
  · rcases fit.oneAccount with none | none
    · cases opens.symm.trans none
    · cases opens'.symm.trans none

/-- The shares are inserted; nobody else is about to create the row. -/
theorem Racing.insert (stage' : other.Stage store creating' program')
    (ground : creation.Ground store)
    (fresh : ∀ share ∈ CreatePosition.liquiditySharesData creation.position,
      (store .liquidityShares).findOne share.id = none) :
    ∃ store', mongo.apply (.insertMany .liquidityShares
        (CreatePosition.liquiditySharesData creation.position)) store = (.ok (), store') ∧
      Racing half other store' (create .position half.row) program' := by
  have notIn : ¬creation.SharesIn store := by
    intro sharesIn
    have first : CreatePosition.liquiditySharesData creation.position ≠ [] := by
      simp [CreatePosition.liquiditySharesData, binPerPosition]
    obtain ⟨share, member⟩ := List.exists_mem_of_ne_nil _ first
    exact Collection.findOne_eq_none.mp (fresh share member) share
      ((sharesIn share).mpr member).1 rfl
  have absent : (store .position).findOne creation.position = none :=
    Option.eq_none_iff_forall_ne_some.mpr fun row present => notIn (ground.own row present).2
  have out : creation.SharesOut store := ground.shares.resolve_right notIn
  obtain ⟨shares, inserted⟩ := Collection.insertMany_complete
    (CreatePosition.nodup_liquiditySharesData creation.position) fresh
  have positions : (store.put .liquidityShares shares) .position = store .position :=
    Store.put_other (by decide)
  have sharesIn : creation.SharesIn (store.put .liquidityShares shares) := by
    intro row
    rw [Store.put_same, Collection.mem_insertMany inserted]
    constructor
    · rintro ⟨old | new, mine⟩
      · exact absurd mine (out row old)
      · exact new
    · intro new
      exact ⟨.inr new, (named_of_mem_liquiditySharesData new).2⟩
  refine ⟨_, Database.completes_perform.mp (completes_insertMany.mpr ⟨shares, inserted, rfl⟩),
    true, creating', .creating (by rwa [positions]) sharesIn, ?_, ?_, ?_⟩
  · refine stage'.stay (fun unread => ?_) (fun account _ => ?_)
      (fun _ _ sharesIn => absurd sharesIn notIn) fun row present => ?_
    · rwa [Store.put_other (by decide)]
    · rw [Store.put_other (by decide)]
    · cases absent.symm.trans present
  · cases stage' with
    | creating _ sharesIn => exact absurd sharesIn notIn
    | _ => rfl
  · refine ⟨fun row present => ?_, .inr sharesIn, ?_⟩
    · rw [positions] at present
      cases absent.symm.trans present
    · rw [positions]
      exact ground.mintFree

/-- The position row is created by the one half that is about to. -/
theorem Racing.create (absent : (store .position).findOne creation.position = none)
    (sharesIn : creation.SharesIn store) (stage' : other.Stage store false program')
    (ground : creation.Ground store) :
    ∃ store', mongo.apply (.create .position half.row) store = (.ok (), store') ∧
      Racing half other store' (.pure ()) program' := by
  have key := half.row_own.1
  obtain ⟨positions, created⟩ := Collection.exists_create (show
    (store .position).findOne half.row.id = none by rwa [key])
  have here : (store.put .position positions .position).findOne creation.position =
      some half.row := by
    rw [Store.put_same, ← key]
    exact Collection.findOne_create_self created
  have sharesIn' : creation.SharesIn (store.put .position positions) := by
    rw [SharesIn, Store.put_other (by decide)]
    exact sharesIn
  refine ⟨_, Database.completes_perform.mp (completes_create.mpr
    ⟨positions, created, ground.not_mintTaken half.row_own, rfl⟩),
    false, false, .done here half.update_row, ?_, rfl, ?_⟩
  · refine stage'.stay (fun unread => ?_) (fun account _ => ?_) nofun fun row present => ?_
    · rwa [Store.put_other (by decide)]
    · rw [Store.put_other (by decide)]
    · exact absurd (absent.symm.trans present) nofun
  · refine ⟨fun row present => ?_, .inr sharesIn', fun row member different => ?_⟩
    · cases here.symm.trans present
      exact ⟨half.row_own, sharesIn'⟩
    · rw [Store.put_same] at member
      rcases (Collection.mem_create created).mp member with old | rfl
      · exact ground.mintFree row old different
      · exact absurd key different

/-- The fields that one half knows are assigned to the position row. -/
theorem Racing.update (fit : Fit half other) {row : Position}
    (present : (store .position).findOne creation.position = some row)
    (stage' : other.Stage store creating' program') (ground : creation.Ground store) :
    ∃ store', mongo.apply (.updateOne .position creation.position half.update) store =
        (.ok (), store') ∧ Racing half other store' (.pure ()) program' := by
  obtain ⟨own, sharesIn⟩ := ground.own row present
  have key : (half.update.set row).id = creation.position := (half.update_own row own).1
  have here : ((store.put .position ((store .position).updateOne creation.position half.update))
      .position).findOne creation.position = some (half.update.set row) := by
    rw [Store.put_same, Collection.findOne_updateOne_self, present, Option.map_some]
  have sharesIn' : creation.SharesIn
      (store.put .position ((store .position).updateOne creation.position half.update)) := by
    rw [SharesIn, Store.put_other (by decide)]
    exact sharesIn
  refine ⟨_, Database.completes_perform.mp (completes_updateOne.mpr ⟨fun row' present' => ?_, rfl⟩),
    false, creating', .done here (half.update_update row), ?_, rfl, ?_⟩
  · cases present.symm.trans present'
    exact ground.not_mintTaken (half.update_own row own)
  · refine stage'.stay (fun unread => ?_) (fun account _ => ?_)
      (fun _ absent => absurd (absent.symm.trans present) nofun) fun row' present' => ?_
    · rwa [Store.put_other (by decide)]
    · rw [Store.put_other (by decide)]
    · cases present.symm.trans present'
      exact ⟨_, here, fun settled => by rw [← fit.commute, settled]⟩
  · refine ⟨fun row' present' => ?_, .inr sharesIn', ?_⟩
    · cases here.symm.trans present'
      exact ⟨half.update_own row own, sharesIn'⟩
    · rw [Store.put_same]
      intro row' member different
      rcases Collection.mem_updateOne.mp member with ⟨old, -⟩ | ⟨old, found, rfl⟩
      · exact ground.mintFree row' old different
      · cases present.symm.trans found
        exact absurd key different

/-- A move of one half keeps the race, if it does not insert shares that are there. -/
theorem Racing.move (fit : Fit half other) {before after : Attempt}
    (racing : Racing half other store before.program program')
    (moves : Moves undisturbed store before store' after)
    (fresh : InsertsFresh store before after) :
    Racing half other store' after.program program' := by
  obtain ⟨creating, creating', stage, stage', apart, ground⟩ := racing
  obtain ⟨launch, program, log⟩ := before
  cases stage with
  | waiting unread =>
      have applied : mongo.apply (.exists .instruction (generateInstructionId half.params)) store =
          (.ok false, store) := by rw [← unread]; rfl
      obtain ⟨same, next⟩ := moves_of_applied applied moves
      rw [same, next]
      exact .of_lookup (.missing unread) stage' ground
  | missing unread =>
      obtain ⟨store', applied, racing⟩ := Racing.record fit unread stage' ground
      obtain ⟨rfl, next⟩ := moves_of_applied applied moves
      rwa [next]
  | @ensuring account opens =>
      have applied : mongo.apply (.findOne .tokenAccount account.id) store =
          (.ok ((store .tokenAccount).findOne account.id), store) := rfl
      obtain ⟨same, next⟩ := moves_of_applied applied moves
      rw [same, next]
      cases held : (store .tokenAccount).findOne account.id with
      | none => exact .of_lookup (.opening opens held) stage' ground
      | some existing => exact .of_lookup .looking stage' ground
  | opening opens absent =>
      obtain ⟨store', applied, racing⟩ := Racing.open fit opens absent stage' ground
      obtain ⟨rfl, next⟩ := moves_of_applied applied moves
      rwa [next]
  | looking =>
      have applied : mongo.apply (.findOne .position creation.position) store =
          (.ok ((store .position).findOne creation.position), store) := rfl
      obtain ⟨same, next⟩ := moves_of_applied applied moves
      rw [same, next]
      cases held : (store .position).findOne creation.position with
      | none => exact .of_lookup .inserting stage' ground
      | some existing => exact .of_lookup (.updating held) stage' ground
  | inserting =>
      have here : CreatePosition.liquiditySharesData half.row.id =
          CreatePosition.liquiditySharesData creation.position := by rw [half.row_own.1]
      have free : ∀ share ∈ CreatePosition.liquiditySharesData half.row.id,
          (store .liquidityShares).findOne share.id = none := by
        have all := fresh (.insertMany .liquidityShares _) _ rfl
        exact fun share member => Collection.holds_eq_false.mp (by
          simpa using List.all_eq_true.mp all share member)
      rw [here] at free
      obtain ⟨store', applied, racing⟩ := @Racing.insert _ half _ _ _ _ stage' ground free
      rw [← here] at applied
      obtain ⟨rfl, next⟩ := moves_of_applied applied moves
      rwa [next]
  | creating absent sharesIn =>
      obtain rfl : creating' = false := by simpa using apart
      obtain ⟨store', applied, racing⟩ := @Racing.create _ half _ _ _ absent sharesIn stage' ground
      obtain ⟨rfl, next⟩ := moves_of_applied applied moves
      rwa [next]
  | updating present =>
      obtain ⟨store', applied, racing⟩ := Racing.update fit present stage' ground
      obtain ⟨rfl, next⟩ := moves_of_applied applied moves
      rwa [next]
  | done => cases moves

theorem Racing.symm (racing : Racing half other store program program') :
    Racing other half store program' program := by
  obtain ⟨creating, creating', stage, stage', apart, ground⟩ := racing
  exact ⟨creating', creating, stage', stage, (Bool.and_comm _ _).trans apart, ground⟩

end Moves

/-! ## The two jobs as halves -/

def instructionHalf (creation : Creation) (owner : String) : Half creation where
  params := creation.instructionParams
  account := some (creation.tokenAccount owner)
  row := creation.row owner true false
  update :=
    { set := fun row =>
        { row with positionMintId := creation.decoded.positionMint, ownerId := owner } }
  row_own := ⟨rfl, rfl, rfl⟩
  update_row := rfl
  update_own _ own := ⟨own.1, own.2.1, rfl⟩
  update_update _ := rfl

def eventHalf (creation : Creation) (owner : String) : Half creation where
  params := creation.eventParams
  account := none
  row := creation.row owner false true
  update :=
    { set := fun row =>
        { row with
          lowerBinLbId := creation.event.lowerBinId
          upperBinLbId := creation.event.upperBinId } }
  row_own := ⟨rfl, rfl, rfl⟩
  update_row := rfl
  update_own _ own := own
  update_update _ := rfl

theorem fit (creation : Creation) (owner : String) :
    Fit (creation.instructionHalf owner) (creation.eventHalf owner) :=
  ⟨creation.ids_ne, .inr rfl, fun _ => rfl⟩

theorem process_instructionJob {rpc : Rpc} {creation : Creation} {owner : String}
    (answered : CreatePosition.positionTokenAccountOwner rpc.toAccountRpc
      creation.decoded.positionTokenAccount = .ok owner) :
    creation.instructionJob.process rpc = (creation.instructionHalf owner).process := by
  change CreatePosition.processInstruction rpc.toAccountRpc creation.message creation.decoded = _
  rw [CreatePosition.processInstruction, answered]
  rfl

theorem process_eventJob (rpc : Rpc) (creation : Creation) (owner : String) :
    creation.eventJob.process rpc = (creation.eventHalf owner).process := by
  change CreatePosition.processEvent creation.eventMessage creation.event = _
  rw [CreatePosition.processEvent, CreatePosition.settleEvent, creation.position_eq,
    creation.pair_eq, creation.mint_eq]
  rfl

/-- A store that has nothing of the new position. -/
structure Vacant (creation : Creation) (store : Store) : Prop where
  new : creation.New store
  noShares : creation.SharesOut store
  mintFree : ∀ row ∈ store .position, row.positionMintId ≠ creation.decoded.positionMint

/-- The complete position is there: owner, mint, range and the 64 shares. -/
structure Complete (creation : Creation) (owner : String) (store : Store) : Prop where
  position : (store .position).findOne creation.position = some
    { id := creation.position
      pairId := creation.decoded.pair
      positionMintId := creation.decoded.positionMint
      ownerId := owner
      lowerBinLbId := creation.event.lowerBinId
      upperBinLbId := creation.event.upperBinId }
  shares : ((store .liquidityShares).rows.filter fun row =>
    row.positionId = creation.position).Perm
      (CreatePosition.liquiditySharesData creation.position)

section Race

variable {creation : Creation} {half other : Half creation} {owner : String} {store : Store}

/-- A half that has no operation left has found or inserted the row and assigned what it
knows. -/
theorem Half.Stage.running_or_settled {creating : Bool} {program : Action Unit}
    (stage : half.Stage store creating program) :
    (∃ (ρ : Type) (operation : Op ρ) (next : ρ → Action Unit), program = .op operation next) ∨
      program = .pure () ∧ ∃ row, (store .position).findOne creation.position = some row ∧
        half.update.set row = row := by
  cases stage with
  | done present settled => exact .inr ⟨rfl, _, present, settled⟩
  | _ => exact .inl ⟨_, _, _, rfl⟩

theorem Half.Stage.not_failed {creating : Bool} {attempt : Attempt}
    (stage : half.Stage store creating attempt.program) : ¬attempt.Failed := by
  rintro ⟨failure, threw⟩
  rcases stage.running_or_settled with ⟨ρ, operation, next, running⟩ | ⟨through, -⟩
  · cases threw.symm.trans running
  · cases threw.symm.trans through

theorem Half.Stage.settled {creating : Bool} {attempt : Attempt}
    (stage : half.Stage store creating attempt.program) (finished : attempt.Finished) :
    ∃ row, (store .position).findOne creation.position = some row ∧ half.update.set row = row := by
  rcases stage.running_or_settled with ⟨ρ, operation, next, running⟩ | ⟨-, settled⟩
  · cases finished.symm.trans running
  · exact settled

theorem Racing.complete {first second : Attempt}
    (racing : Racing (creation.instructionHalf owner) (creation.eventHalf owner) store
      first.program second.program) (finished : first.Finished) (finished' : second.Finished) :
    creation.Complete owner store := by
  obtain ⟨_, _, stage, stage', -, ground⟩ := racing
  obtain ⟨row, present, instructed⟩ := stage.settled finished
  obtain ⟨row', present', announced⟩ := stage'.settled finished'
  cases present.symm.trans present'
  obtain ⟨⟨idSame, pairSame, mintSame⟩, sharesIn⟩ := ground.own row present
  refine ⟨?_, perm_liquiditySharesData sharesIn⟩
  rw [present, ← announced, ← instructed]
  simp [instructionHalf, eventHalf, idSame, pairSame]

end Race

end Creation

/-- As long as no job inserts shares that are there already, the two jobs of a new
position, interleaved in any way and retried, end with the complete position. -/
theorem race_converges {rpc rpc' : Rpc} {creation : Creation} {owner : String} {start : Store}
    {queue : Queue Op Store Failure Launch} (vacant : creation.Vacant start)
    (answered : CreatePosition.positionTokenAccountOwner rpc.toAccountRpc
      creation.decoded.positionTokenAccount = .ok owner)
    (reaches : Queue.Reaches undisturbed Launch.process InsertsFresh Launch.Again 3
      ⟨start, [.first Launch.process ⟨creation.instructionJob, rpc⟩,
        .first Launch.process ⟨creation.eventJob, rpc'⟩]⟩ queue)
    (ended : ∀ delivery ∈ queue.deliveries, delivery.Ended 3) :
    creation.Complete owner queue.store := by
  have fit := creation.fit owner
  have begun : creation.Racing (creation.instructionHalf owner) (creation.eventHalf owner) start
      (creation.instructionJob.process rpc) (creation.eventJob.process rpc') := by
    rw [Creation.process_instructionJob answered, Creation.process_eventJob rpc' creation owner]
    refine ⟨false, false, .waiting vacant.new.unread, .waiting vacant.new.unannounced, rfl,
      fun row present => ?_, .inl vacant.noShares, fun row member _ => vacant.mintFree row member⟩
    exact absurd (vacant.new.absent.symm.trans present) nofun
  have kept := reaches.invariant_of_two
    (fun store first second => creation.Racing (creation.instructionHalf owner)
      (creation.eventHalf owner) store first.program second.program) begun ?_
    (fun _ _ _ _ _ racing moves fresh => racing.move fit moves fresh)
    (fun _ _ _ _ _ racing moves fresh => (racing.symm.move fit.symm moves fresh).symm)
  · obtain ⟨first, second, both, racing⟩ := kept
    have ⟨_, _, stage, stage', _, _⟩ := racing
    rw [both] at ended
    have through (delivery : Delivery Op Failure Launch) (member : delivery ∈ [first, second])
        (steady : ¬delivery.attempt.Failed) : delivery.attempt.Finished :=
      (ended delivery member).resolve_right fun failed => steady failed.1
    exact racing.complete (through first (by simp) stage.not_failed)
      (through second (by simp) stage'.not_failed)
  · rintro store first second ⟨_, _, stage, stage', -, -⟩
    exact ⟨stage.not_failed, stage'.not_failed⟩

/-! ## Two interleavings of the sample position -/

/-- Both jobs of the sample position at their first attempt, on the empty store. -/
def sampleRace : Queue Op Store Failure Launch :=
  ⟨.empty, [.first Launch.process ⟨sampleCreation.instructionJob, ownerRpc⟩,
    .first Launch.process ⟨sampleCreation.eventJob, ownerRpc⟩]⟩

theorem vacant_empty (creation : Creation) : creation.Vacant .empty where
  new := ⟨rfl, rfl, rfl⟩
  noShares _ member := absurd member (Collection.not_mem_empty _)
  mintFree _ member := absurd member (Collection.not_mem_empty _)

/-- Deduplication in turns; then the event looks the position up when it is there. -/
def insertedOnce : List Queue.Turn :=
  [.move 0, .move 1, .move 0, .move 1, .move 0, .move 0, .move 0, .move 0, .move 0, .move 1,
    .move 1]

/-- The guard as a test of the process that is about to move. -/
def admitsFresh (store : Store) (attempt : Attempt) : Bool :=
  match attempt.program with
  | .op operation _ => operation.insertsFresh store
  | _ => true

theorem admitsFresh_sound {store : Store} {before after : Attempt}
    (admitted : admitsFresh store before = true) : InsertsFresh store before after := by
  intro ρ operation next same
  rw [admitsFresh, same] at admitted
  exact admitted

set_option maxRecDepth 100000 in
theorem race_converges_interleaved :
    ∃ queue, Queue.play undisturbed Launch.process admitsFresh 3 insertedOnce sampleRace =
        some queue ∧
      sampleCreation.Complete "owner" queue.store := by
  have followed : (Queue.play undisturbed Launch.process admitsFresh 3 insertedOnce
      sampleRace).any (fun queue => decide (∀ delivery ∈ queue.deliveries, delivery.Ended 3)) =
        true := by decide +kernel
  obtain ⟨queue, played, checked⟩ := (Option.any_eq_true _ _).mp followed
  have reaches : Queue.Reaches undisturbed Launch.process InsertsFresh Launch.Again 3 sampleRace
      queue :=
    Queue.reaches_of_play Launch.Again.refl (fun _ _ _ => admitsFresh_sound) played
  exact ⟨queue, played,
    race_converges (vacant_empty _) rfl reaches (of_decide_eq_true checked)⟩

/-- Both jobs miss the position, the event inserts it, the instruction's insertion is
rejected and its retry is skipped. -/
def insertedTwice : List Queue.Turn :=
  [.move 0, .move 0, .move 0, .move 0, .move 0, .move 1, .move 1, .move 1, .move 1, .move 1,
    .move 0, .retry 0, .move 0]

set_option maxRecDepth 100000 in
/-- Both jobs end normally and the position keeps the placeholder for its owner. -/
theorem owner_stays_dummy :
    ∃ queue : Queue Op Store Failure Launch,
      (sampleCreation.Vacant sampleRace.store ∧
        CreatePosition.positionTokenAccountOwner ownerRpc.toAccountRpc
          sampleCreation.decoded.positionTokenAccount = .ok "owner" ∧
        Queue.Reaches undisturbed Launch.process Unguarded Launch.Again 3 sampleRace queue ∧
        ∀ delivery ∈ queue.deliveries, delivery.attempt.Finished) ∧
      ((queue.store .position).findOne "position").map Position.ownerId = some "dummy-owner-id" ∧
      ¬sampleCreation.Complete "owner" queue.store := by
  have followed : (Queue.play undisturbed Launch.process (fun _ _ => true) 3 insertedTwice
      sampleRace).any (fun queue => decide ((∀ delivery ∈ queue.deliveries,
        delivery.attempt.Finished) ∧ ((queue.store .position).findOne "position").map
          Position.ownerId = some "dummy-owner-id")) = true := by decide +kernel
  obtain ⟨queue, played, checked⟩ := (Option.any_eq_true _ _).mp followed
  obtain ⟨finished, dummy⟩ := of_decide_eq_true checked
  refine ⟨queue, ⟨vacant_empty _, rfl, Queue.reaches_of_play Launch.Again.refl
    (fun _ _ _ _ => trivial) played, finished⟩, dummy, fun complete => ?_⟩
  have position := complete.position
  rw [show sampleCreation.position = "position" from rfl] at position
  rw [position] at dummy
  exact absurd dummy (by decide)

end DlmmIndexer
