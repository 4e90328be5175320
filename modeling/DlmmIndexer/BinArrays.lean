import DlmmIndexer.Worker

/-!
# The bins of the arrays

Whatever jobs run one after another, each to its end, the stored bins are those of the
arrays that have been initialized, 256 of each, under the ids and with the array of the
first job for their pair and index.  Other jobs assign the amounts of bins and no more.
-/

namespace DlmmIndexer

open Documents JavaScript Atomic Text

/-- Where a bin belongs: all of its row but the amounts. -/
structure Bin.Place where
  id : String
  lbBinId : ℕ
  binArrayId : String
  pairId : String
  binArrayIndex : ℕ
  deriving DecidableEq

def Bin.place (row : Bin) : Bin.Place :=
  ⟨row.id, row.lbBinId, row.binArrayId, row.pairId, row.binArrayIndex⟩

namespace InitializeBinArray

/-! ## Other jobs -/

/-- The operation leaves every bin in its place. -/
def KeepsPlaces {ρ : Type} : Op ρ → Prop
  | .updateOne .bin _ update => ∀ row, (update.set row).place = row.place
  | operation => operation.target ≠ some .bin

theorem keepsPlaces_of_target {ρ : Type} {operation : Op ρ}
    (other : operation.target ≠ some .bin) : KeepsPlaces operation := by
  cases operation with
  | updateOne coll id update =>
      cases coll with
      | bin => exact absurd rfl other
      | _ => exact other
  | _ => exact other

theorem every_keepsPlaces {colls : List Coll} (absent : .bin ∉ colls) {α : Type}
    {program : Action α} (within : program.Within colls) :
    program.Every (fun {_} operation => KeepsPlaces operation) :=
  .imp (fun _ allowed => keepsPlaces_of_target fun written => absent (allowed _ written)) within

theorem KeepsPlaces.apply {ρ : Type} {operation : Op ρ} (keeps : KeepsPlaces operation)
    (store : Store) :
    ((operation.apply store).2 .bin).rows.map Bin.place = (store .bin).rows.map Bin.place := by
  by_cases writes : operation.target = some .bin
  · cases operation with
    | updateOne coll id update =>
        obtain rfl : coll = .bin := Option.some.inj writes
        simp only [Op.apply]
        split
        · dsimp only
          rw [Store.put_same, Collection.updateOne, List.map_map]
          refine List.map_congr_left fun row _ => ?_
          by_cases named : row.id = id
          · simp only [Function.comp_apply, named, if_true]
            exact keeps row
          · simp only [Function.comp_apply, named, if_false]
        · rfl
    | _ => exact absurd writes keeps
  · rw [(Op.frame writes store).1]

/-- Every operation of the program leaves every bin in its place. -/
abbrev Keeping {α : Type} (program : Action α) : Prop :=
  program.Every fun {_} operation => KeepsPlaces operation

theorem keeping_perform {ρ : Type} {operation : Op ρ} (other : operation.target ≠ some .bin) :
    Keeping (.perform operation) :=
  Program.every_perform (keepsPlaces_of_target other)

theorem keeping_processBin {change : PositionChange} {pair position : String} {lower : ℕ}
    {entry : BinEntry} : Keeping (change.processBin pair position lower entry) := by
  unfold PositionChange.processBin
  dsimp only
  split
  · exact Program.every_throw _
  refine .bind (keeping_perform (by simp [Op.target])) fun share => ?_
  cases share with
  | none => exact Program.every_throw _
  | some share =>
  refine .bind (Program.every_ofExcept _) fun balance => ?_
  refine .bind (keeping_perform (by simp [Op.target])) fun _ => ?_
  refine .bind (keeping_perform (by simp [Op.target])) fun bin => ?_
  cases bin with
  | none => exact Program.every_throw _
  | some bin =>
  exact .bind (Program.every_ofExcept _) fun _ => .bind (Program.every_ofExcept _) fun _ =>
    .bind (Program.every_ofExcept _) fun _ => Program.every_perform fun _ => rfl

theorem keeping_processBins {change : PositionChange} {message : ParsedInstructionMessage}
    {instructionId pair position : String} {lower : ℕ} {entries : List BinEntry} {x y : Value} :
    Keeping (change.processBins message instructionId pair position lower entries x y) := by
  induction entries generalizing x y with
  | nil => exact Program.every_return _
  | cons entry rest ih =>
      have recording : Keeping (change.createEvent message instructionId pair position entry) :=
        .bind (Program.every_ofExcept _) fun _ => .bind (Program.every_ofExcept _) fun _ =>
          .bind (Program.every_ofExcept _) fun _ => keeping_perform nofun
      exact .bind keeping_processBin fun _ => .bind (Program.every_ofExcept _) fun _ =>
        .bind (Program.every_ofExcept _) fun _ => .bind recording fun _ => ih

theorem keeping_processPosition {change : PositionChange} {message : ParsedInstructionMessage}
    {instructionId pair position : String} {entries : List BinEntry} :
    Keeping (change.processPosition message instructionId pair position entries) := by
  refine .bind (keeping_perform nofun) fun existingPair => ?_
  cases existingPair with
  | none => exact Program.every_throw _
  | some existingPair =>
  refine .bind (keeping_perform nofun) fun existingPosition => ?_
  cases existingPosition with
  | none => exact Program.every_throw _
  | some existingPosition =>
  exact .bind keeping_processBins fun _ => .bind (Program.every_ofExcept _) fun _ =>
    .bind (Program.every_ofExcept _) fun _ => keeping_perform nofun

theorem keeping_insertBinSwapEvent {message : ParsedInstructionMessage}
    {decoded : Option Swap.BinSwapEventDecoded} :
    Keeping (Swap.insertBinSwapEvent message decoded) := by
  cases decoded with
  | none => exact Program.every_return _
  | some decoded =>
  refine .bind (keeping_perform nofun) fun pair => ?_
  cases pair with
  | none => exact Program.every_throw _
  | some pair =>
  refine .bind (keeping_perform nofun) fun bin => ?_
  cases bin with
  | none => exact Program.every_throw _
  | some bin =>
  refine .bind (Program.every_ofExcept _) fun _ => .bind (Program.every_ofExcept _) fun _ =>
    .bind (Program.every_perform fun _ => rfl) fun _ => .bind (Program.every_ofExcept _) fun _ =>
    .bind (keeping_perform nofun) fun tokenMintX =>
    .bind (keeping_perform nofun) fun tokenMintY => ?_
  cases tokenMintX with
  | none => exact Program.every_throw _
  | some tokenMintX =>
  cases tokenMintY with
  | none => exact Program.every_throw _
  | some tokenMintY => exact .bind (keeping_perform nofun) fun _ => keeping_perform nofun

theorem keeping_unlessProcessed {params : CheckAndInsertInstructionParams}
    {work : Instruction → Action Unit} (keeping : ∀ instruction, Keeping (work instruction)) :
    Keeping (unlessProcessed params work) := by
  refine .bind (every_keepsPlaces (by simp) within_checkAndInsertInstruction) fun instruction => ?_
  cases instruction with
  | none => exact Program.every_return _
  | some instruction => exact keeping instruction

/-- A job of any other kind leaves every bin in its place. -/
theorem keeping_process {rpc : Rpc} {job : Job}
    (other : ∀ decoded, job.payload ≠ .initializeBinArray decoded) :
    Keeping (job.process rpc) := by
  have stays (unwritten : .bin ∉ job.payload.writes) : Keeping (job.process rpc) :=
    every_keepsPlaces (List.not_mem_cons_of_ne_of_not_mem (by decide) unwritten)
      (job.process_within rpc)
  rcases job with ⟨message, payload⟩
  cases payload with
  | initializeBinArray decoded => exact absurd rfl (other decoded)
  | binSwapEvent decoded =>
      exact keeping_unlessProcessed fun _ =>
        .bind (Program.every_ofExcept _) fun _ => keeping_insertBinSwapEvent
  | increasePosition | decreasePosition =>
      exact keeping_unlessProcessed fun _ => keeping_processPosition
  | _ => exact stays (by simp [Payload.writes])

/-- So does its run, wherever it ends. -/
theorem places_run {rpc : Rpc} {job : Job}
    (other : ∀ decoded, job.payload ≠ .initializeBinArray decoded) (store : Store) :
    ((mongo.run (job.process rpc) store).2 .bin).rows.map Bin.place =
      (store .bin).rows.map Bin.place :=
  Program.Every.run
    (fun after : Store => (after .bin).rows.map Bin.place = (store .bin).rows.map Bin.place)
    (fun _ middle allowed held => (allowed.apply middle).trans held) (keeping_process other)
    rfl

/-! ## The arrays of a sequence of jobs -/

/-- The array that a job initializes. -/
def arrayOf (job : Job) : Option InitializeBinArrayDecoded :=
  match job.payload with
  | .initializeBinArray decoded => some decoded
  | _ => none

/-- The arrays that the jobs initialize. -/
def arrays (jobs : List Job) : List InitializeBinArrayDecoded := jobs.filterMap arrayOf

/-- What the first job for a pair and an index says. -/
def firstArray (jobs : List Job) (pair : String) (index : ℕ) : Option InitializeBinArrayDecoded :=
  (arrays jobs).find? fun decoded => decoded.pair = pair ∧ decoded.index = index

section Arrays

variable {jobs : List Job} {job : Job} {pair : String} {index : ℕ}
  {decoded : InitializeBinArrayDecoded}

theorem arrayOf_eq_none (other : ∀ decoded, job.payload ≠ .initializeBinArray decoded) :
    arrayOf job = none := by
  rw [arrayOf]
  split
  next decoded same => exact absurd same (other decoded)
  · rfl

theorem firstArray_other (other : arrayOf job = none) :
    firstArray (jobs ++ [job]) pair index = firstArray jobs pair index := by
  rw [firstArray, arrays, List.filterMap_append, List.filterMap_cons, other, List.filterMap_nil,
    List.append_nil]
  rfl

theorem firstArray_array (array : arrayOf job = some decoded) :
    firstArray (jobs ++ [job]) pair index = (firstArray jobs pair index).or
      (if decoded.pair = pair ∧ decoded.index = index then some decoded else none) := by
  rw [firstArray, arrays, List.filterMap_append, List.filterMap_cons, array, List.filterMap_nil,
    List.find?_append]
  congr 1
  by_cases named : decoded.pair = pair ∧ decoded.index = index <;> simp [named]

/-- The first job for a pair and an index is for that pair and index. -/
theorem of_firstArray (first : firstArray jobs pair index = some decoded) :
    decoded.pair = pair ∧ decoded.index = index := by
  have named := List.find?_some first
  simpa using named

theorem firstArray_isSome :
    (firstArray jobs pair index).isSome = true ↔
      ∃ decoded ∈ arrays jobs, decoded.pair = pair ∧ decoded.index = index := by
  simp [firstArray]

end Arrays

/-! ## One job after another -/

/-- The stored places are those of the arrays. -/
def Settled (jobs : List Job) (store : Store) : Prop :=
  ∀ place, place ∈ (store .bin).rows.map Bin.place ↔
    ∃ decoded binIndex, firstArray jobs decoded.pair decoded.index = some decoded ∧
      binIndex < binArraySize ∧ place = (binDocument decoded binIndex).place

theorem settled_empty : Settled [] .empty := by
  intro place
  constructor
  · exact fun member => nomatch member
  · rintro ⟨decoded, binIndex, first, -⟩
    cases first

section Step

variable {jobs : List Job} {store : Store} {decoded : InitializeBinArrayDecoded}

/-- Equal ids are about equal arrays. -/
theorem array_of_id_binDocument {other : InitializeBinArrayDecoded} {binIndex otherIndex : ℕ}
    (inside : binIndex < binArraySize) (otherInside : otherIndex < binArraySize)
    (same : (binDocument decoded binIndex).id = (binDocument other otherIndex).id) :
    decoded.pair = other.pair ∧ decoded.index = other.index ∧ binIndex = otherIndex := by
  obtain ⟨pair, lbBinId⟩ := joined_decimal_injective same
  simp only [binArraySize] at inside otherInside lbBinId
  exact ⟨pair, by omega, by omega⟩

/-- A bin of an array is stored exactly when the array has been initialized. -/
theorem Settled.holds_iff (settled : Settled jobs store) {binIndex : ℕ}
    (inside : binIndex < binArraySize) :
    (store .bin).holds (binDocument decoded binIndex).id = true ↔
      (firstArray jobs decoded.pair decoded.index).isSome = true := by
  rw [Collection.holds_iff]
  constructor
  · rintro ⟨row, member, named⟩
    obtain ⟨other, otherIndex, first, otherInside, place⟩ :=
      (settled row.place).mp (List.mem_map_of_mem member)
    have same : (binDocument other otherIndex).id = (binDocument decoded binIndex).id :=
      (congrArg Bin.Place.id place).symm.trans named
    obtain ⟨pair, index, -⟩ := array_of_id_binDocument otherInside inside same
    rw [← pair, ← index, first]
    rfl
  · intro initialized
    obtain ⟨first, found⟩ := Option.isSome_iff_exists.mp initialized
    obtain ⟨pair, index⟩ := of_firstArray found
    obtain ⟨row, member, place⟩ := List.mem_map.mp ((settled (binDocument first binIndex).place).mpr
      ⟨first, binIndex, by rwa [pair, index], inside, rfl⟩)
    refine ⟨row, member, (congrArg Bin.Place.id place).trans ?_⟩
    simp only [Bin.place, binDocument, pair, index]

/-- A job of another kind keeps the bins settled. -/
theorem Settled.other {rpc : Rpc} {job : Job} (settled : Settled jobs store)
    (other : ∀ decoded, job.payload ≠ .initializeBinArray decoded) :
    Settled (jobs ++ [job]) (mongo.run (job.process rpc) store).2 := by
  intro place
  rw [places_run other]
  simp only [firstArray_other (arrayOf_eq_none other)]
  exact settled place

/-- A job for an array that has been initialized changes nothing. -/
theorem Settled.repeated (settled : Settled jobs store)
    (initialized : (firstArray jobs decoded.pair decoded.index).isSome = true) :
    mongo.Completes (processInitializeBinArray decoded) store () store := by
  have held := (settled.holds_iff (Nat.zero_lt_succ 255)).mpr initialized
  rw [id_binDocument_zero] at held
  refine Database.completes_bind.mpr ⟨true, store, completes_existsId.mpr ⟨held.symm, rfl⟩, ?_⟩
  exact Database.completes_return.mpr ⟨rfl, rfl⟩

/-- A job for a new array inserts its bins. -/
theorem Settled.inserted (settled : Settled jobs store)
    (fresh : (firstArray jobs decoded.pair decoded.index).isSome = false) :
    ∃ rows, (store .bin).insertMany (binDocuments decoded) = (true, rows) ∧
      mongo.Completes (processInitializeBinArray decoded) store () (store.put .bin rows) :=
  completes_processInitializeBinArray fun binIndex inside => Collection.holds_eq_false.mp (by
    rw [Bool.eq_false_iff, Ne, settled.holds_iff inside, fresh]
    exact Bool.false_ne_true)

/-- A new array is settled with its bins. -/
theorem Settled.array {job : Job} {rows : Collection Bin.id} (settled : Settled jobs store)
    (array : arrayOf job = some decoded)
    (fresh : (firstArray jobs decoded.pair decoded.index).isSome = false)
    (inserted : (store .bin).insertMany (binDocuments decoded) = (true, rows)) :
    Settled (jobs ++ [job]) (store.put .bin rows) := by
  intro place
  rw [Store.put_same, Collection.rows_insertMany inserted, List.map_append, List.mem_append,
    settled place]
  simp only [firstArray_array array]
  constructor
  · rintro (⟨other, binIndex, first, inside, rfl⟩ | member)
    · exact ⟨other, binIndex, by rw [first, Option.some_or], inside, rfl⟩
    · obtain ⟨row, inBatch, rfl⟩ := List.mem_map.mp member
      obtain ⟨binIndex, inside, rfl⟩ := List.mem_map.mp inBatch
      refine ⟨decoded, binIndex, ?_, List.mem_range.mp inside, rfl⟩
      have missing : firstArray jobs decoded.pair decoded.index = none := by simpa using fresh
      rw [missing, Option.none_or, if_pos ⟨rfl, rfl⟩]
  · rintro ⟨other, binIndex, first, inside, rfl⟩
    rcases Option.or_eq_some_iff.mp first with first | ⟨-, new⟩
    · exact .inl ⟨other, binIndex, first, inside, rfl⟩
    · rw [ite_eq_iff] at new
      obtain ⟨-, new⟩ | ⟨-, ⟨⟩⟩ := new
      obtain rfl := Option.some.inj new
      exact .inr (List.mem_map_of_mem (binDocument_mem inside))

/-- A job for an array that has been initialized adds no array. -/
theorem firstArray_repeated {job : Job} (array : arrayOf job = some decoded)
    (initialized : (firstArray jobs decoded.pair decoded.index).isSome = true) (pair : String)
    (index : ℕ) : firstArray (jobs ++ [job]) pair index = firstArray jobs pair index := by
  rw [firstArray_array array]
  split
  next named =>
    obtain ⟨rfl, rfl⟩ := named
    obtain ⟨first, found⟩ := Option.isSome_iff_exists.mp initialized
    rw [found, Option.some_or]
  · exact Option.or_none

/-- Every job keeps the bins settled. -/
theorem Settled.step (rpc : Rpc) (settled : Settled jobs store) (job : Job) :
    Settled (jobs ++ [job]) (mongo.run (job.process rpc) store).2 := by
  cases kind : arrayOf job with
  | none =>
      refine settled.other fun decoded same => ?_
      rw [arrayOf, same] at kind
      cases kind
  | some decoded =>
      have program : job.process rpc = processInitializeBinArray decoded := by
        rw [arrayOf] at kind
        split at kind
        next array same =>
          cases kind
          rw [Job.process, same]
        · cases kind
      rw [program]
      cases initialized : (firstArray jobs decoded.pair decoded.index).isSome with
      | true =>
          have unchanged := settled.repeated initialized
          rw [unchanged]
          intro place
          simp only [firstArray_repeated kind initialized]
          exact settled place
      | false =>
          obtain ⟨rows, inserted, completes⟩ := settled.inserted initialized
          rw [completes]
          exact settled.array kind initialized inserted

end Step

/-- After any launches, one after another, the stored places are those of the arrays. -/
theorem settled_lastStore (launches : List Launch) :
    Settled (launches.map Launch.toJob) (lastStore .empty launches) := by
  have run (rest : List Launch) : ∀ done store, Settled done store →
      Settled (done ++ rest.map Launch.toJob) (lastStore store rest) := by
    induction rest with
    | nil =>
        intro done store settled
        rwa [List.map_nil, List.append_nil]
    | cons launch rest ih =>
        intro done store settled
        have later := ih (done ++ [launch.toJob]) _ (settled.step launch.rpc launch.toJob)
        rwa [List.append_assoc, List.singleton_append] at later
  exact run launches [] .empty settled_empty

/-! ## The partition -/

/-- The stored bins after some jobs: one row for each bin of each initialized array, with
the fields of its place. -/
structure Partition (jobs : List Job) (store : Store) : Prop where
  unique : ∀ left ∈ store .bin, ∀ right ∈ store .bin,
    left.pairId = right.pairId → left.lbBinId = right.lbBinId → left = right
  exact : ∀ pair lbBinId,
    (∃ row ∈ store .bin, row.pairId = pair ∧ row.lbBinId = lbBinId) ↔
      ∃ decoded ∈ arrays jobs, decoded.pair = pair ∧ decoded.index = lbBinId / binArraySize
  fields : ∀ row ∈ store .bin, row.id = binId row.pairId row.lbBinId ∧
    row.binArrayIndex = row.lbBinId / binArraySize ∧
    ∃ decoded, firstArray jobs row.pairId (row.lbBinId / binArraySize) = some decoded ∧
      row.binArrayId = decoded.binArray

/-- The place of a stored row. -/
theorem Settled.of_mem {jobs : List Job} {store : Store} (settled : Settled jobs store) {row : Bin}
    (member : row ∈ store .bin) :
    ∃ decoded, firstArray jobs row.pairId row.binArrayIndex = some decoded ∧
      row.id = binId row.pairId row.lbBinId ∧ row.binArrayIndex = row.lbBinId / binArraySize ∧
      row.binArrayId = decoded.binArray := by
  obtain ⟨decoded, binIndex, first, inside, place⟩ :=
    (settled row.place).mp (List.mem_map_of_mem member)
  obtain ⟨id, lbBinId, binArrayId, pairId, binArrayIndex, _, _, _⟩ := row
  simp only [Bin.place, binDocument, Bin.Place.mk.injEq] at place
  obtain ⟨rfl, rfl, rfl, rfl, rfl⟩ := place
  refine ⟨decoded, first, rfl, ?_, rfl⟩
  simp only [binArraySize] at inside ⊢
  omega

/-- Settled bins are a partition. -/
theorem Settled.partition {jobs : List Job} {store : Store} (settled : Settled jobs store) :
    Partition jobs store where
  unique left leftMem right rightMem pair lbBinId := by
    obtain ⟨_, -, leftId, -⟩ := settled.of_mem leftMem
    obtain ⟨_, -, rightId, -⟩ := settled.of_mem rightMem
    rw [pair, lbBinId] at leftId
    exact (store .bin).eq_of_key_eq leftMem rightMem (leftId.trans rightId.symm)
  exact pair lbBinId := by
    constructor
    · rintro ⟨row, member, rfl, rfl⟩
      obtain ⟨decoded, first, -, index, -⟩ := settled.of_mem member
      rw [← index]
      exact firstArray_isSome.mp (Option.isSome_iff_exists.mpr ⟨decoded, first⟩)
    · intro initialized
      obtain ⟨decoded, first⟩ := Option.isSome_iff_exists.mp (firstArray_isSome.mpr initialized)
      obtain ⟨rfl, index⟩ := of_firstArray first
      have inside : lbBinId % binArraySize < binArraySize := Nat.mod_lt _ (by decide)
      obtain ⟨row, member, place⟩ := List.mem_map.mp
        ((settled (binDocument decoded (lbBinId % binArraySize)).place).mpr
          ⟨decoded, _, index ▸ first, inside, rfl⟩)
      refine ⟨row, member, congrArg Bin.Place.pairId place,
        (congrArg Bin.Place.lbBinId place).trans ?_⟩
      change decoded.index * binArraySize + lbBinId % binArraySize = lbBinId
      rw [index]
      exact Nat.div_add_mod' lbBinId binArraySize
  fields row member := by
    obtain ⟨decoded, first, id, index, array⟩ := settled.of_mem member
    exact ⟨id, index, decoded, index ▸ first, array⟩

/-- Whatever jobs of whatever kind run one after another, each to its end, the bins are
those of the initialized arrays; every job for an array completes, and one for an array
that has been initialized changes nothing. -/
theorem bin_arrays_partition (launches : List Launch) :
    Partition (launches.map Launch.toJob) (lastStore .empty launches) ∧
      ∀ (rpc : Rpc) (message : ParsedInstructionMessage) (decoded : InitializeBinArrayDecoded),
        ∃ after, mongo.Completes (Job.process rpc ⟨message, .initializeBinArray decoded⟩)
            (lastStore .empty launches) () after ∧
          ((∃ earlier ∈ arrays (launches.map Launch.toJob),
              earlier.pair = decoded.pair ∧ earlier.index = decoded.index) →
            after = lastStore .empty launches) := by
  have settled := settled_lastStore launches
  refine ⟨settled.partition, fun rpc message decoded => ?_⟩
  cases initialized :
      (firstArray (launches.map Launch.toJob) decoded.pair decoded.index).isSome with
  | true => exact ⟨_, settled.repeated initialized, fun _ => rfl⟩
  | false =>
      obtain ⟨rows, -, completes⟩ := settled.inserted initialized
      refine ⟨_, completes, fun repeated => ?_⟩
      rw [firstArray_isSome.mpr repeated] at initialized
      cases initialized

end InitializeBinArray

end DlmmIndexer
