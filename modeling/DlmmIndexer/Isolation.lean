import DlmmIndexer.Library.Serial
import DlmmIndexer.Traces

/-!
# Jobs that do not meet

Every job has a footprint: the rows it looks up and the rows it inserts or assigns, by
their ids.  When the footprints of the jobs do not meet, any interleaving that lets all of
them finish shows the same documents as the jobs one after another, though no operation
locks anything.

The unique index on `positionMintId` is the one place where rows with different ids meet.
On the chain a position and its mint name each other, and the stores and the jobs are
supposed to tell the truth about it.
-/

namespace DlmmIndexer

open Documents JavaScript Atomic Text

/-! ## What is seen of a store -/

inductive Cell where
  | row (coll : Coll) (id : String)
  /-- the list of all bin step configs -/
  | configs

@[reducible] def Cell.Value : Cell → Type
  | .row coll _ => Option coll.Row
  | .configs => List BinStepConfig

def Store.see (store : Store) : (cell : Cell) → cell.Value
  | .row coll id => (store coll).findOne id
  | .configs => (store .binStepConfig).rows

/-- The cells of a collection under the ids. -/
def Coll.cells (coll : Coll) (ids : Set String) : Set Cell :=
  {cell | (∃ id ∈ ids, cell = .row coll id) ∨ (cell = .configs ∧ coll = .binStepConfig)}

/-- Processor names are in lower case, and positions name the mints that are theirs. -/
def Coll.Attests (mintOf : String → String) : (coll : Coll) → coll.Row → Prop
  | .instruction, row => row.LowerCase
  | .position, row => row.positionMintId = mintOf row.id
  | _, _ => True

def Attested (mintOf : String → String) (store : Store) : Prop :=
  ∀ coll, ∀ row ∈ store coll, coll.Attests mintOf row

@[reducible] def documents (mintOf : String → String) : Observation Store where
  Cell := Cell
  Value := Cell.Value
  read := Store.see
  good := Attested mintOf

theorem Attested.lowerCase {mintOf : String → String} {store : Store}
    (attested : Attested mintOf store) : LowerCase store :=
  attested .instruction

theorem Attested.put {mintOf : String → String} {store : Store} (attested : Attested mintOf store)
    {coll : Coll} {rows : Collection coll.id} (attest : ∀ row ∈ rows, coll.Attests mintOf row) :
    Attested mintOf (store.put coll rows) := by
  intro other
  by_cases here : other = coll
  · subst here
    rwa [Store.put_same]
  · rw [Store.put_other here]
    exact attested other

/-- Positions that name their own mints do not clash. -/
theorem Attested.not_clashes {mintOf : String → String} (injective : Function.Injective mintOf)
    {store : Store} (attested : Attested mintOf store) {coll : Coll} {row : coll.Row}
    (attests : coll.Attests mintOf row) : Op.clashes store coll row = false := by
  cases coll with
  | position =>
      refine List.any_eq_false.mpr fun other member taken => ?_
      simp only [Bool.and_eq_true, decide_eq_true_eq, ne_eq] at taken
      obtain ⟨different, same⟩ := taken
      have theirs : other.positionMintId = mintOf other.id := attested .position other member
      exact different (injective (theirs.symm.trans (same.trans attests)))
  | _ => rfl

/-! ## Local operations -/

section Local

variable {mintOf : String → String}

/-- A lookup writes nothing and answers by what it sees. -/
theorem local_of_read {ρ : Type} {operation : Op ρ} {cells : Set Cell} (answerOf : Store → ρ)
    (answers : ∀ store, mongo.apply operation store = (.ok (answerOf store), store))
    (sees : ∀ store other, Attested mintOf store → Attested mintOf other →
      (∀ cell ∈ cells, store.see cell = other.see cell) → answerOf store = answerOf other) :
    (documents mintOf).Local mongo ⟨cells, ∅⟩ operation := by
  intro store answer after attested applied
  rw [answers] at applied
  cases applied
  refine ⟨attested, fun _ _ => rfl, fun other attestedOther agree => ?_⟩
  exact ⟨other, by rw [answers, sees store other attested attestedOther agree], nofun⟩

theorem local_findOne {coll : Coll} {id : String} :
    (documents mintOf).Local mongo ⟨{.row coll id}, ∅⟩ (.findOne coll id) :=
  local_of_read (fun store => (store coll).findOne id) (fun _ => rfl)
    fun _ _ _ _ agree => agree (.row coll id) rfl

theorem local_exists {coll : Coll} {id : String} :
    (documents mintOf).Local mongo ⟨{.row coll id}, ∅⟩ (.exists coll id) :=
  local_of_read (fun store => (store coll).holds id) (fun _ => rfl)
    fun _ _ _ _ agree => congrArg Option.isSome (agree (.row coll id) rfl)

theorem local_find : (documents mintOf).Local mongo ⟨{.configs}, ∅⟩ (.find .binStepConfig) :=
  local_of_read (fun store => (store .binStepConfig).rows) (fun _ => rfl)
    fun _ _ _ _ agree => agree .configs rfl

/-- A write that turns a collection into another one, by what it sees under some ids and
only there. -/
theorem local_of_put {operation : Op Unit} {coll : Coll} {ids : Set String}
    (change : Collection coll.id → Collection coll.id → Prop)
    (does : ∀ store after, Attested mintOf store →
      (mongo.apply operation store = (.ok (), after) ↔
        ∃ rows, change (store coll) rows ∧ after = store.put coll rows))
    (attests : ∀ collection rows, change collection rows →
      (∀ row ∈ collection, coll.Attests mintOf row) → ∀ row ∈ rows, coll.Attests mintOf row)
    (frame : ∀ collection rows, change collection rows → ∀ id ∉ ids,
      collection.findOne id = rows.findOne id)
    (again : ∀ collection other rows, change collection rows →
      (∀ id ∈ ids, collection.findOne id = other.findOne id) →
        ∃ rows', change other rows' ∧ ∀ id ∈ ids, rows.findOne id = rows'.findOne id) :
    (documents mintOf).Local mongo ⟨coll.cells ids, coll.cells ids⟩ operation := by
  intro store answer after attested applied
  obtain ⟨rows, changed, rfl⟩ := (does _ _ attested).mp applied
  refine ⟨attested.put (attests _ _ changed (attested coll)), ?_, ?_⟩
  · rintro (⟨other, id⟩ | _) outside
    · change (store other).findOne id = (store.put coll rows other).findOne id
      by_cases here : other = coll
      · subst here
        rw [Store.put_same]
        exact frame _ _ changed id fun inside => outside (.inl ⟨id, inside, rfl⟩)
      · rw [Store.put_other here]
    · change (store .binStepConfig).rows = (store.put coll rows .binStepConfig).rows
      rw [Store.put_other fun here => outside (.inr ⟨rfl, here.symm⟩)]
  · intro other attestedOther agree
    -- who sees the list of all configs sees the whole collection
    have chosen : ∃ rows', change (other coll) rows' ∧
        (∀ id ∈ ids, rows.findOne id = rows'.findOne id) ∧
        (coll = .binStepConfig → rows = rows') := by
      by_cases whole : coll = .binStepConfig
      · subst whole
        have same : store .binStepConfig = other .binStepConfig :=
          Collection.ext (agree .configs (.inr ⟨rfl, rfl⟩))
        exact ⟨rows, same ▸ changed, fun _ _ => rfl, fun _ => rfl⟩
      · obtain ⟨rows', changed', alike⟩ := again (store coll) (other coll) rows changed
          fun id inside => agree (.row coll id) (.inl ⟨id, inside, rfl⟩)
        exact ⟨rows', changed', alike, fun here => absurd here whole⟩
    obtain ⟨rows', changed', alike, same⟩ := chosen
    refine ⟨other.put coll rows', (does _ _ attestedOther).mpr ⟨rows', changed', rfl⟩, ?_⟩
    rintro _ (⟨id, inside, rfl⟩ | ⟨rfl, rfl⟩)
    · change (store.put coll rows coll).findOne id = (other.put coll rows' coll).findOne id
      rw [Store.put_same, Store.put_same]
      exact alike id inside
    · change (store.put .binStepConfig rows .binStepConfig).rows =
        (other.put .binStepConfig rows' .binStepConfig).rows
      rw [Store.put_same, Store.put_same, same rfl]

theorem local_create (injective : Function.Injective mintOf) {coll : Coll} {row : coll.Row}
    (attests : coll.Attests mintOf row) :
    (documents mintOf).Local mongo ⟨coll.cells {coll.id row}, coll.cells {coll.id row}⟩
      (.create coll row) := by
  refine local_of_put (fun collection rows => collection.create row = some rows) ?_ ?_ ?_ ?_
  · intro store after attested
    have free := attested.not_clashes injective attests
    simp only [mongo, Op.apply, free]
    cases (store coll).create row <;> simp [eq_comm (a := after)]
  · intro collection rows created held other member
    exact ((Collection.mem_create created).mp member).elim (held other) fun same => same ▸ attests
  · intro collection rows created id outside
    exact (Collection.findOne_create_of_ne created (Ne.symm outside)).symm
  · rintro collection other rows created agree
    have absent : other.findOne (coll.id row) = none := by
      rw [← agree _ rfl]
      exact Collection.fresh_of_create created
    obtain ⟨rows', created'⟩ := Collection.exists_create absent
    refine ⟨rows', created', ?_⟩
    rintro _ rfl
    rw [Collection.findOne_create_self created, Collection.findOne_create_self created']

theorem local_updateOne (injective : Function.Injective mintOf) {coll : Coll} {id : String}
    {update : Update coll.id}
    (attests : ∀ row, coll.id row = id → coll.Attests mintOf row →
      coll.Attests mintOf (update.set row)) :
    (documents mintOf).Local mongo ⟨coll.cells {id}, coll.cells {id}⟩
      (.updateOne coll id update) := by
  refine local_of_put (fun collection rows => rows = collection.updateOne id update) ?_ ?_ ?_ ?_
  · intro store after attested
    have free : ((store coll).findOne id).any
        (fun row => Op.clashes store coll (update.set row)) = false := by
      refine Option.any_eq_false _ _ |>.mpr fun row found => ?_
      rw [attested.not_clashes injective (attests row (Collection.key_of_findOne found)
        (attested coll row (Collection.mem_of_findOne found)))]
    simp only [mongo, Op.apply, free]
    simp [eq_comm (a := after)]
  · rintro collection _ rfl held
    exact Collection.forall_mem_updateOne held fun row found =>
      attests row (Collection.key_of_findOne found)
  · rintro collection _ rfl other outside
    rw [Collection.findOne_updateOne, if_neg (Ne.symm outside)]
  · rintro collection other _ rfl agree
    refine ⟨_, rfl, ?_⟩
    rintro _ rfl
    rw [Collection.findOne_updateOne_self, Collection.findOne_updateOne_self, agree _ rfl]

theorem local_insertMany {coll : Coll} {batch : List coll.Row}
    (attests : ∀ row ∈ batch, coll.Attests mintOf row) :
    (documents mintOf).Local mongo
      ⟨coll.cells {id | id ∈ batch.map coll.id}, coll.cells {id | id ∈ batch.map coll.id}⟩
      (.insertMany coll batch) := by
  refine local_of_put (fun collection rows => collection.insertMany batch = (true, rows))
    ?_ ?_ ?_ ?_
  · intro store after _
    simp only [mongo, Op.apply]
    rcases (store coll).insertMany batch with ⟨complete, rows⟩
    cases complete <;> simp [eq_comm (a := after)]
  · intro collection rows inserted held row member
    exact ((Collection.mem_insertMany inserted).mp member).elim (held row) (attests row)
  · intro collection rows inserted id outside
    have none : batch.find? (fun row => decide (coll.id row = id)) = none :=
      List.find?_eq_none.mpr fun row member same =>
        outside (of_decide_eq_true same ▸ List.mem_map_of_mem member)
    rw [Collection.findOne_insertMany inserted, none, Option.or_none]
  · intro collection other rows inserted agree
    obtain ⟨distinct, fresh⟩ := Collection.fresh_of_insertMany inserted
    obtain ⟨rows', inserted'⟩ := (@Collection.insertMany_complete _ _ _ _ other _ distinct
      fun row member => by rw [← agree _ (List.mem_map_of_mem member), fresh row member])
    refine ⟨rows', inserted', fun id inside => ?_⟩
    rw [Collection.findOne_insertMany inserted, Collection.findOne_insertMany inserted',
      agree id inside]

/-- An update whose filter matches nothing touches nothing. -/
theorem local_updateWhere {coll : Coll} {filter : coll.Row → Bool} {update : Update coll.id}
    (unmatched : ∀ row, filter row = false) :
    (documents mintOf).Local mongo ⟨∅, ∅⟩ (.updateWhere coll filter update) := by
  refine local_of_read (fun _ => ()) (fun store => ?_) fun _ _ _ _ _ => rfl
  have none : (store coll).rows.find? filter = none :=
    List.find?_eq_none.mpr fun row _ => by rw [unmatched]; exact Bool.false_ne_true
  simp only [mongo, Op.apply, none]

/-- Where processor names are in lower case, no decrease is found. -/
theorem local_isDecreasePosition {message : ParsedInstructionMessage} :
    (documents mintOf).Local mongo ⟨∅, ∅⟩
      (.existsWhere .instruction (ClosePosition.isDecreasePosition message)) :=
  local_of_read (fun store => (store .instruction).rows.any
    (ClosePosition.isDecreasePosition message)) (fun _ => rfl) fun _ _ attested other _ => by
      rw [ClosePosition.unindexed_of_lowerCase attested.lowerCase,
        ClosePosition.unindexed_of_lowerCase other.lowerCase]

end Local

/-! ## Footprints of programs -/

/-- The cells of some ids in every collection. -/
def cellsOf (touched : Coll → Set String) : Set Cell :=
  {cell | ∃ coll, (touched coll).Nonempty ∧ cell ∈ coll.cells (touched coll)}

/-- What is written is read as well. -/
def touching (looked written : Coll → Set String) : Footprint Cell where
  reads := cellsOf fun coll => written coll ∪ looked coll
  writes := cellsOf written

theorem cells_subset {coll : Coll} {ids : Set String} {touched : Coll → Set String}
    (nonempty : ids.Nonempty) (subset : ids ⊆ touched coll) : coll.cells ids ⊆ cellsOf touched := by
  rintro cell member
  refine ⟨coll, nonempty.mono subset, member.imp ?_ id⟩
  rintro ⟨id, inside, rfl⟩
  exact ⟨id, subset inside, rfl⟩

theorem cellsOf_mono {small large : Coll → Set String} (subset : ∀ coll, small coll ⊆ large coll) :
    cellsOf small ⊆ cellsOf large :=
  fun _ ⟨coll, nonempty, member⟩ => cells_subset nonempty (subset coll) member

/-- Cells with no id in common; the list of all configs counts as one of theirs. -/
theorem disjoint_cellsOf {left right : Coll → Set String}
    (ids : ∀ coll, Disjoint (left coll) (right coll))
    (configs : left .binStepConfig = ∅ ∨ right .binStepConfig = ∅) :
    Disjoint (cellsOf left) (cellsOf right) := by
  rw [Set.disjoint_left]
  rintro cell ⟨coll, someLeft, inLeft⟩ ⟨coll', someRight, inRight⟩
  rcases inLeft with ⟨id, here, rfl⟩ | ⟨rfl, rfl⟩
  · rcases inRight with ⟨id', there, same⟩ | ⟨same, -⟩
    · cases same
      exact Set.disjoint_left.mp (ids coll) here there
    · cases same
  · rcases inRight with ⟨id', there, same⟩ | ⟨-, rfl⟩
    · cases same
    · exact configs.elim someLeft.ne_empty someRight.ne_empty

/-- Footprints are apart when neither writes an id that the other one touches. -/
theorem apart_touching {looked written looked' written' : Coll → Set String}
    (writes : ∀ coll, Disjoint (written coll) (written' coll ∪ looked' coll))
    (looks : ∀ coll, Disjoint (looked coll) (written' coll))
    (configs : written .binStepConfig = ∅ ∧ written' .binStepConfig = ∅) :
    (touching looked written).Apart (touching looked' written') where
  writes := disjoint_cellsOf (fun coll => (Set.disjoint_union_right.mp (writes coll)).1)
    (.inl configs.1)
  writesReads := disjoint_cellsOf writes (.inl configs.1)
  readsWrites := disjoint_cellsOf (fun coll => Set.disjoint_union_left.mpr
    ⟨(Set.disjoint_union_right.mp (writes coll)).1, looks coll⟩) (.inr configs.2)

section Reading

variable {mintOf : String → String} {looked written : Coll → Set String}

theorem local_of_writes {coll : Coll} {ids : Set String} {ρ : Type} {operation : Op ρ}
    (nonempty : ids.Nonempty) (subset : ids ⊆ written coll)
    (isLocal : (documents mintOf).Local mongo ⟨coll.cells ids, coll.cells ids⟩ operation) :
    (documents mintOf).Local mongo (touching looked written) operation :=
  isLocal.mono ⟨cells_subset nonempty fun _ inside => .inl (subset inside),
    cells_subset nonempty subset⟩ (cellsOf_mono fun _ _ inside => .inl inside)

theorem local_of_reads {cells : Set Cell} {ρ : Type} {operation : Op ρ}
    (subset : cells ⊆ (touching looked written).reads)
    (isLocal : (documents mintOf).Local mongo ⟨cells, ∅⟩ operation) :
    (documents mintOf).Local mongo (touching looked written) operation :=
  isLocal.mono ⟨subset, Set.empty_subset _⟩ (cellsOf_mono fun _ _ inside => .inl inside)

theorem row_mem_reads {coll : Coll} {id : String} (inside : id ∈ written coll ∪ looked coll) :
    {Cell.row coll id} ⊆ (touching looked written).reads := by
  rintro _ rfl
  exact ⟨coll, ⟨id, inside⟩, .inl ⟨id, inside, rfl⟩⟩

end Reading

/-! ## Footprints of jobs -/

namespace Job

def footprint (job : Job) : Footprint Cell :=
  touching (job.payload.looksAt job.message) job.writesAt

/-- A job that creates a position names its mint. -/
def Truthful (mintOf : String → String) (job : Job) : Prop :=
  match job.payload with
  | .createPosition decoded => decoded.positionMint = mintOf decoded.position
  | .positionCreationEvent decoded => decoded.positionMint = mintOf decoded.position
  | _ => True

section Truthful

variable {mintOf : String → String} {job : Job}

theorem Truthful.mint_eq (truthful : job.Truthful mintOf) {row : Position}
    (inside : row.id ∈ job.writesAt .position)
    (named : job.payload.mint? = some row.positionMintId) :
    row.positionMintId = mintOf row.id := by
  rcases job with ⟨message, payload⟩
  cases payload with
  | createPosition decoded | positionCreationEvent decoded =>
      have here : row.id = decoded.position := inside
      rw [here, ← Option.some.inj named]
      exact truthful
  | _ => cases named

/-- What truthful jobs insert is attested. -/
theorem Truthful.attests (truthful : job.Truthful mintOf) {coll : Coll} {row : coll.Row}
    (inside : coll.id row ∈ job.writesAt coll) (names : job.Names coll row) :
    coll.Attests mintOf row := by
  cases coll with
  | instruction =>
      obtain ⟨params, -, rfl⟩ := names
      exact ⟨params.processorName, rfl⟩
  | position => exact truthful.mint_eq inside names
  | _ => trivial

/-- What truthful jobs assign stays attested. -/
theorem Truthful.attests_set (truthful : job.Truthful mintOf) {coll : Coll} {id : String}
    {update : Update coll.id} (inside : id ∈ job.writesAt coll)
    (assigns : job.Assigns coll update.set) (row : coll.Row) (named : coll.id row = id)
    (attests : coll.Attests mintOf row) : coll.Attests mintOf (update.set row) := by
  have sameId : coll.id (update.set row) = coll.id row := update.key_set row
  rw [← named, ← sameId] at inside
  cases coll with
  | instruction => exact assigns.elim
  | position =>
      rcases assigns row with same | mint
      · exact same.trans (attests.trans (congrArg mintOf sameId.symm))
      · exact truthful.mint_eq inside mint
  | _ => trivial

end Truthful

end Job

abbrev Launch.footprint (launch : Launch) : Footprint Cell := launch.toJob.footprint

section Confined

variable {mintOf : String → String} {job : Job}

/-- The operations of a truthful job are local to its footprint. -/
theorem Op.Traced.isLocal (injective : Function.Injective mintOf) (truthful : job.Truthful mintOf)
    {ρ : Type} {operation : Op ρ} (traced : operation.Traced job) :
    (documents mintOf).Local mongo job.footprint operation := by
  cases operation with
  | findOne coll id => exact local_of_reads (row_mem_reads traced) local_findOne
  | «exists» coll id => exact local_of_reads (row_mem_reads traced) local_exists
  | find coll =>
      obtain ⟨rfl, id, configs⟩ := traced
      refine local_of_reads ?_ local_find
      rintro _ rfl
      exact ⟨.binStepConfig, ⟨id, .inr configs⟩, .inr ⟨rfl, rfl⟩⟩
  | create coll row =>
      exact local_of_writes (Set.singleton_nonempty _) (Set.singleton_subset_iff.mpr traced.1)
        (local_create injective (truthful.attests traced.1 traced.2))
  | insertMany coll batch =>
      obtain ⟨nonempty, inserts⟩ := traced
      refine local_of_writes ?_ ?_ (local_insertMany fun row member =>
        truthful.attests (inserts row member).1 (inserts row member).2)
      · obtain ⟨row, member⟩ := List.exists_mem_of_ne_nil _ nonempty
        exact ⟨coll.id row, List.mem_map_of_mem member⟩
      · intro id listed
        obtain ⟨row, member, rfl⟩ := List.mem_map.mp listed
        exact (inserts row member).1
  | updateOne coll id update =>
      exact local_of_writes (Set.singleton_nonempty _) (Set.singleton_subset_iff.mpr traced.1)
        (local_updateOne injective (truthful.attests_set traced.1 traced.2))
  | updateWhere coll filter update =>
      exact local_of_reads (Set.empty_subset _) (local_updateWhere traced)
  | existsWhere | deleteShares | deletePosition => exact traced.elim

/-- A close looks for a row that attested stores do not have, and throws. -/
theorem confined_processClosePosition {message : ParsedInstructionMessage}
    {decoded : ClosePosition.ClosePositionDecoded} {log : List (Event Op)} :
    (ClosePosition.processClosePosition message decoded).Obeys mongo
      ((documents mintOf).contract mongo job.footprint) (fun _ _ => True) log := by
  refine ⟨local_of_reads (Set.empty_subset _) local_isDecreasePosition,
    fun store answer after attested applied => ?_⟩
  have answered : (store .instruction).rows.any (ClosePosition.isDecreasePosition message) =
      answer := Except.ok.inj (congrArg Prod.fst applied)
  rw [ClosePosition.unindexed_of_lowerCase attested.lowerCase] at answered
  rw [← answered]
  trivial

/-- Every operation of a job is local to its footprint. -/
theorem Job.confined (rpc : Rpc) (injective : Function.Injective mintOf)
    (truthful : job.Truthful mintOf) :
    (job.process rpc).Obeys mongo ((documents mintOf).contract mongo job.footprint)
      (fun _ _ => True) [] := by
  by_cases opened : job.Opened
  · exact Program.Every.obeys (fun _ _ traced => traced.isLocal injective truthful)
      (job.traced rpc opened)
  obtain ⟨decoded, closes⟩ := not_forall_not.mp opened
  obtain ⟨deduplicates, shape⟩ := job.process_of_close rpc closes
  have inside := job.id_mem_writesAt deduplicates
  rw [shape, unlessProcessed_eq]
  refine ⟨Op.Traced.isLocal injective truthful (.inl inside), fun _ isProcessed _ _ _ => ?_⟩
  cases isProcessed with
  | true => trivial
  | false =>
      exact ⟨Op.Traced.isLocal injective truthful ⟨inside, _, deduplicates, rfl⟩,
        fun _ _ _ _ _ => confined_processClosePosition⟩

end Confined

/-- Jobs with footprints apart, interleaved in any way that lets them all finish, leave
the documents that they leave one after another, in any order. -/
theorem interleavings_serializable {mintOf : String → String}
    (injective : Function.Injective mintOf) {start : Store} {system : Workers}
    (attested : Attested mintOf start)
    (reaches : Reaches mongo Launch.process Unguarded (.initial start) system)
    (finished : ∀ attempt ∈ system.processes, attempt.Finished)
    (truthful : ∀ attempt ∈ system.processes, attempt.job.Truthful mintOf)
    (apart : PairwiseApart Launch.footprint (system.processes.map Process.job))
    {order : List Attempt} (reordered : system.processes.Perm order) :
    ∃ last, Sequence mongo Launch.process (fun _ _ => True) start (order.map Process.job) last ∧
      ∀ coll id, (system.store coll).findOne id = (last coll).findOne id := by
  have confined : ∀ launch ∈ system.processes.map Process.job, launch.process.Obeys mongo
      ((documents mintOf).contract mongo launch.footprint) (fun _ _ => True) [] := by
    intro launch member
    obtain ⟨attempt, listed, rfl⟩ := List.mem_map.mp member
    exact Job.confined _ injective (truthful attempt listed)
  have serial := Reaches.serial attested reaches apart confined
    fun attempt member => (finished attempt member).not_failed
  obtain ⟨last, ran, same⟩ := serial.sequence attested apart finished reordered
  exact ⟨last, ran, fun coll id => same (.row coll id)⟩

/-- The initialization event of another badge. -/
def otherBadgeJob : Job where
  message := ⟨7, "sig", 3, true, .at 0⟩
  payload := .quoteAssetBadgeInitialization ⟨"other", "mint"⟩

theorem otherBadgeJob_apart : otherBadgeJob.footprint.Apart badgeJob.footprint := by
  have ids : otherBadgeJob.instructionId ≠ badgeJob.instructionId := by decide +kernel
  refine apart_touching (fun coll => ?_) (fun coll => Set.empty_disjoint _) ⟨rfl, rfl⟩
  change Disjoint (otherBadgeJob.writesAt coll) (badgeJob.writesAt coll ∪ ∅)
  rw [Set.union_empty]
  cases coll with
  | instruction =>
      exact Set.disjoint_left.mpr fun id here there => ids (Eq.trans here (Eq.symm there))
  | quoteAsset => exact Set.disjoint_singleton.mpr (by decide)
  | _ => exact Set.empty_disjoint _

/-- Both events look before either inserts. -/
def badgeSchedule : List (Choice Launch) :=
  [.launch badgeJob.silent, .launch otherBadgeJob.silent, .move 0, .move 1, .move 0, .move 1,
    .move 0, .move 1, .move 1, .move 0]

theorem interleavings_serializable_badges :
    ∃ system : Workers,
      play mongo Launch.process (fun _ _ => true) badgeSchedule (.initial Store.empty) =
        some system ∧
      ∃ last, Sequence mongo Launch.process (fun _ _ => True) Store.empty
        (system.processes.reverse.map Process.job) last ∧
        ∀ coll id, (system.store coll).findOne id = (last coll).findOne id := by
  have followed : (play mongo Launch.process (fun _ _ => true) badgeSchedule
      (.initial Store.empty)).any (fun system => decide
        (∀ attempt ∈ system.processes, attempt.Finished)) = true := by
    decide +kernel
  have launched : (play mongo Launch.process (fun _ _ => true) badgeSchedule
      (.initial Store.empty)).map (fun system => system.processes.map Process.job) =
        some [badgeJob.silent, otherBadgeJob.silent] := rfl
  obtain ⟨system, played, checked⟩ := (Option.any_eq_true _ _).mp followed
  have finished := of_decide_eq_true checked
  rw [played] at launched
  have launches : system.processes.map Process.job = [badgeJob.silent, otherBadgeJob.silent] :=
    Option.some.inj launched
  have apart : PairwiseApart Launch.footprint (system.processes.map Process.job) := by
    rw [launches]
    exact List.pairwise_pair.mpr otherBadgeJob_apart
  have truthful : ∀ attempt ∈ system.processes, attempt.job.Truthful id := by
    intro attempt member
    have listed : attempt.job ∈ [badgeJob.silent, otherBadgeJob.silent] :=
      launches ▸ List.mem_map_of_mem member
    simp only [List.mem_cons, List.not_mem_nil, or_false] at listed
    rcases listed with same | same <;> rw [same] <;> trivial
  exact ⟨system, played, interleavings_serializable Function.injective_id
    (fun coll row member => absurd member (Collection.not_mem_empty row))
    (reaches_of_play (fun _ _ _ _ => trivial) played) finished truthful apart
    (List.reverse_perm _).symm⟩

end DlmmIndexer
