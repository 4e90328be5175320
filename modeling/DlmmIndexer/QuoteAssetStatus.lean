import DlmmIndexer.Worker

/-!
# The status of quote assets

The initialization event of a badge inserts its asset, enabled, and every update event is
to store the status it carries.  The decoder presents a status as an object with the
variant as its key, and the update compares that object with a text.
-/

namespace DlmmIndexer

open Documents Atomic

namespace QuoteAssets

/-- The jobs of a badge: its initialization and its updates, in chain order. -/
structure BadgeHistory where
  badge : String
  tokenMint : String
  initialization : ParsedInstructionMessage
  updates : List (ParsedInstructionMessage × BadgeStatus)

namespace BadgeHistory

variable (history : BadgeHistory)

def initJob : Job :=
  ⟨history.initialization, .quoteAssetBadgeInitialization ⟨history.badge, history.tokenMint⟩⟩

def updateJob (update : ParsedInstructionMessage × BadgeStatus) : Job :=
  ⟨update.1, .quoteAssetBadgeUpdate ⟨history.badge, update.2⟩⟩

def jobs : List Job := history.initJob :: history.updates.map history.updateJob

/-- The status that the last update carries, and enabled without one. -/
def status : QuoteAssetStatus :=
  match history.updates.getLast? with
  | some (_, .Disabled) => .Disabled
  | _ => .Enabled

/-- The events have ids of their own, none was processed before, and the asset is not there. -/
structure Fresh (start : Store) : Prop where
  distinct : (history.jobs.filterMap Job.instructionId).Nodup
  unrecorded : Unrecorded history.jobs start
  absent : (start .quoteAsset).findOne history.badge = none

/-- The stored status is the one of the history. -/
def Follows (store : Store) : Prop :=
  ∃ row, (store .quoteAsset).findOne history.badge = some row ∧ row.status = history.status

end BadgeHistory

variable {history : BadgeHistory} {store after : Store}

/-- The initialization inserts the asset, enabled. -/
theorem of_completes_insertQuoteAsset {eventData : QuoteAssetBadgeInitializationEvent}
    (absent : (store .quoteAsset).findOne eventData.quoteAssetBadge = none)
    (completes : mongo.Completes (insertQuoteAsset eventData) store () after) :
    (after .quoteAsset).findOne eventData.quoteAssetBadge =
      some ⟨eventData.quoteAssetBadge, eventData.tokenMint, .Enabled, .Other⟩ := by
  simp only [insertQuoteAsset, Database.completes_bind, completes_existsId] at completes
  obtain ⟨_, _, ⟨rfl, rfl⟩, completes⟩ := completes
  rw [Collection.holds_eq_false.mpr absent, if_neg Bool.false_ne_true] at completes
  obtain ⟨rows, created, -, rfl⟩ := completes_create.mp completes
  rw [Store.put_same]
  exact Collection.findOne_create_self created

/-- Every update enables the asset, whatever status it carries: none is the text that the
code compares it with. -/
theorem of_completes_updateStatus {eventData : QuoteAssetBadgeUpdateEvent}
    (completes : mongo.Completes (updateStatus eventData) store () after) :
    (after .quoteAsset).findOne eventData.quoteAssetBadge =
      ((store .quoteAsset).findOne eventData.quoteAssetBadge).map fun row =>
        { row with status := .Enabled } := by
  simp only [updateStatus, Database.completes_bind, completes_existsId] at completes
  obtain ⟨_, _, ⟨rfl, rfl⟩, completes⟩ := completes
  split at completes
  · obtain ⟨-, rfl⟩ := completes_updateOne.mp completes
    simp only [Store.put_same, Collection.findOne_updateOne_self, isDisabledText_eq_false,
      Bool.false_eq_true, if_false]
  · exact absurd completes not_completes_fail

/-- After the events of a badge its asset is enabled. -/
theorem enabled_of_run {rpc : Rpc} {start : Store} (fresh : history.Fresh start)
    (ran : Sequence mongo (Job.process rpc) (fun _ _ => True) start history.jobs after) :
    ∃ row, (after .quoteAsset).findOne history.badge = some row ∧ row.status = .Enabled := by
  have ended := fresh.unrecorded.invariant fresh.distinct ran
    (fun done store =>
      (done = [] → (store .quoteAsset).findOne history.badge = none) ∧
      (done ≠ [] → ∃ row, (store .quoteAsset).findOne history.badge = some row ∧
        row.status = .Enabled))
    ⟨fun _ => fresh.absent, fun nonempty => absurd rfl nonempty⟩ (by
      rintro done job rest store middle after split - others worked ⟨before, enabled⟩
      refine ⟨by simp, fun _ => ?_⟩
      have same := others .quoteAsset (by decide)
      cases done with
      | nil =>
          cases (List.cons.inj split).1
          exact ⟨_, of_completes_insertQuoteAsset (same ▸ before rfl) worked, rfl⟩
      | cons first earlier =>
          have member : job ∈ history.updates.map history.updateJob := by
            rw [(List.cons.inj split).2]
            simp
          obtain ⟨update, -, rfl⟩ := List.mem_map.mp member
          obtain ⟨row, found, -⟩ := enabled (List.cons_ne_nil _ _)
          have updated := of_completes_updateStatus worked
          rw [same] at updated
          exact ⟨_, updated.trans (congrArg (Option.map _) found), rfl⟩)
  exact ended.2 (List.cons_ne_nil _ _)

/-! ## A badge that is disabled -/

/-- One update, which disables the badge. -/
def disabledBadge : BadgeHistory where
  badge := "badge"
  tokenMint := "mint"
  initialization := badgeJob.message
  updates := [(⟨8, "sig", 0, true, .at 1⟩, .Disabled)]

theorem disabledBadge_fresh : disabledBadge.Fresh .empty :=
  ⟨by decide, fun _ _ _ _ => rfl, rfl⟩

theorem disabledBadge_ran : Sequence mongo (Job.process silentRpc) (fun _ _ => True) .empty
    disabledBadge.jobs (storeAfter silentRpc .empty disabledBadge.jobs) :=
  .cons trivial (Database.completes_of_run (by decide +kernel))
    (.cons trivial (Database.completes_of_run (by decide +kernel)) (.nil _))

/-- After the events of a badge, each run to normal completion in chain order, the stored
status is the one of its history exactly when the last update does not disable it. -/
theorem status_follows_iff {rpc : Rpc} {start : Store} (fresh : history.Fresh start)
    (ran : Sequence mongo (Job.process rpc) (fun _ _ => True) start history.jobs after) :
    history.Follows after ↔ ∀ message, history.updates.getLast? ≠ some (message, .Disabled) := by
  obtain ⟨row, found, enabled⟩ := enabled_of_run fresh ran
  have stored : history.Follows after ↔ history.status = .Enabled := by
    constructor
    · rintro ⟨other, found', follows⟩
      cases found.symm.trans found'
      exact follows.symm.trans enabled
    · exact fun same => ⟨row, found, enabled.trans same.symm⟩
  rw [stored, BadgeHistory.status]
  split
  next message last => exact iff_of_false nofun fun other => other message last
  next other => exact iff_of_true rfl other

theorem status_follows_iff_sample :
    ¬disabledBadge.Follows (storeAfter silentRpc .empty disabledBadge.jobs) := fun follows =>
  (status_follows_iff disabledBadge_fresh disabledBadge_ran).mp follows ⟨8, "sig", 0, true, .at 1⟩
    rfl

/-- The asset of a badge that its last update disabled is stored as enabled. -/
theorem status_stays_enabled :
    (disabledBadge.Fresh .empty ∧
      Sequence mongo (Job.process silentRpc) (fun _ _ => True) .empty disabledBadge.jobs
        (storeAfter silentRpc .empty disabledBadge.jobs)) ∧
    disabledBadge.status = .Disabled ∧
    ((storeAfter silentRpc .empty disabledBadge.jobs .quoteAsset).findOne "badge").map
      (·.status) = some .Enabled ∧
    ¬disabledBadge.Follows (storeAfter silentRpc .empty disabledBadge.jobs) := by
  have stored : ((storeAfter silentRpc .empty disabledBadge.jobs .quoteAsset).findOne
      "badge").map (·.status) = some .Enabled := by decide +kernel
  refine ⟨⟨disabledBadge_fresh, disabledBadge_ran⟩, rfl, stored, ?_⟩
  rintro ⟨row, found, follows⟩
  rw [show (storeAfter silentRpc .empty disabledBadge.jobs .quoteAsset).findOne "badge" = some row
    from found, Option.map_some, follows] at stored
  cases stored

end QuoteAssets

end DlmmIndexer
