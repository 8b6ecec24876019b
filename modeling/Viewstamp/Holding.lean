import Viewstamp.Moves.Basic

/- The log and the head through the code that commits and collects votes.

   Forming a view installs a log and then runs a good part of the endpoint: it
   applies what is committed, checkpoints, swaps the configuration, truncates the
   WAL and appends the uncommitted tail. None of this touches the log. A repair is
   requested on the way; it would take an entry out of the log, but only one that
   has a body, and it is requested for holes alone. -/
namespace Viewstamp

namespace Node

variable {S : Type}

/-- What a replica holds, how much of it is committed, and in which configuration. -/
structure Holding where
  op : OpNumber
  log : OrdMap Nat LogEntry
  commitMin : OpNumber
  commitMax : OpNumber
  membership : Membership

def holding (n : Node S) : Holding := ⟨n.op, n.log, n.commitMin, n.commitMax, n.membership⟩

/-- The holding, and that nothing is sent. -/
def still (n : Node S) : Holding × List Outgoing := (n.holding, n.emitted)

theorem holding_eq {n n' : Node S} (h : n'.still = n.still) : n'.holding = n.holding :=
  congrArg Prod.fst h

/-- The log and its head. -/
def record (n : Node S) : OpNumber × OrdMap Nat LogEntry := (n.op, n.log)

theorem record_eq {n n' : Node S} (h : n'.holding = n.holding) : n'.record = n.record :=
  congrArg (fun h : Holding => (h.op, h.log)) h

variable (n : Node S) (now : Instant)

/-! ## What keeps the holding -/

theorem assert_holding (c : Bool) : (n.assert c).holding = n.holding := by
  unfold assert
  split <;> rfl

theorem say_holding (recipient : Recipient) (msg : ReplicaId → Message) :
    (n.withLocalSlot fun slot => n.emit recipient (msg slot)).holding = n.holding := by
  unfold withLocalSlot emit
  repeat' split
  all_goals rfl

theorem setStatus_still (s : Status) : (n.setStatus s).still = n.still := by
  unfold setStatus
  split <;> rfl

theorem sendRequestSync_holding : (n.sendRequestSync now).holding = n.holding := by
  unfold sendRequestSync withLocalSlot
  dsimp only
  split
  · unfold emit
    repeat' split
    all_goals rfl
  · rfl

theorem armSync_holding (target : OpNumber) (forced requireCrossEpoch : Bool) :
    (n.armSync now target forced requireCrossEpoch).holding = n.holding :=
  sendRequestSync_holding _ now

theorem dropTransferBelowForcedTarget_holding :
    n.dropTransferBelowForcedTarget.holding = n.holding := by
  unfold dropTransferBelowForcedTarget
  repeat' split
  all_goals rfl

theorem raiseOrArmForcedSync_holding (target : OpNumber) :
    (n.raiseOrArmForcedSync now target).holding = n.holding := by
  unfold raiseOrArmForcedSync
  generalize hd : n.downgradeStaleCrossEpochSync target = r
  have hr : r.1.holding = n.holding := by
    subst hd
    unfold downgradeStaleCrossEpochSync
    repeat' split
    all_goals first | rfl | exact dropTransferBelowForcedTarget_holding _
  dsimp only
  split
  · exact hr
  · split
    · split
      · exact (dropTransferBelowForcedTarget_holding _).trans hr
      · exact hr
    · exact (armSync_holding _ now target true false).trans hr

theorem maybeForceSync_holding : (n.maybeForceSync now).holding = n.holding := by
  unfold maybeForceSync deferForfeit
  dsimp only
  repeat' split
  all_goals first | rfl | exact raiseOrArmForcedSync_holding _ now _

theorem abandonPendingSb_still : n.abandonPendingSb.still = n.still := by
  unfold abandonPendingSb abandonRoot
  repeat' split
  all_goals rfl

theorem dropUnrootedCheckpoint_still : n.dropUnrootedCheckpoint.still = n.still := by
  unfold dropUnrootedCheckpoint abandonRoot
  repeat' split
  all_goals rfl

theorem resetForViewTransition_still : (n.resetForViewTransition now).still = n.still := by
  unfold resetForViewTransition
  dsimp only
  generalize hc : Node.dropUnrootedCheckpoint _ = m
  have hm : m.still = n.still := hc ▸ dropUnrootedCheckpoint_still _
  refine Eq.trans ?_ hm
  repeat' split
  all_goals rfl

theorem enterOrphanRepersistRecovery_holding :
    (n.enterOrphanRepersistRecovery now).holding = n.holding := by
  have hread (m : Node S) : (m.submitRecoverCheckpointRead now).holding = m.holding := by
    unfold submitRecoverCheckpointRead submitTrackedCheckpointRead
    split <;> rfl
  refine (hread _).trans (holding_eq ((setStatus_still _ .recovering).trans ?_))
  exact (abandonPendingSb_still _).trans (resetForViewTransition_still n now)

theorem retargetRecoveryFetch_holding (target : OpNumber) :
    (n.retargetRecoveryFetch now target).holding = n.holding := by
  have hsend (m : Node S) :
      (m.dropTransferBelowForcedTarget.sendRequestSync now).holding = m.holding :=
    (sendRequestSync_holding _ now).trans (dropTransferBelowForcedTarget_holding m)
  unfold retargetRecoveryFetch
  dsimp only
  repeat' split
  all_goals first | rfl | exact hsend _

theorem repersistOrphanOwed_holding : n.repersistOrphanOwed.1.holding = n.holding := by
  unfold repersistOrphanOwed
  repeat' split
  all_goals rfl

theorem maybeEnterOrphanRepersistRecovery_holding :
    (n.maybeEnterOrphanRepersistRecovery now).1.holding = n.holding := by
  unfold maybeEnterOrphanRepersistRecovery
  have howed := repersistOrphanOwed_holding n
  generalize n.repersistOrphanOwed = r at howed ⊢
  obtain ⟨m, owed⟩ := r
  cases owed with
  | none => exact howed
  | some target =>
    dsimp only
    refine Eq.trans ?_ howed
    repeat' split
    · exact retargetRecoveryFetch_holding m now target
    · rfl
    · rfl
    · exact enterOrphanRepersistRecovery_holding m now

theorem maybeAdoptInheritedFrontier_holding :
    n.maybeAdoptInheritedFrontier.holding = n.holding := by
  unfold maybeAdoptInheritedFrontier
  repeat' split
  all_goals first | rfl | exact assert_holding n _

theorem submitRoot_still (role : RootRole) (state : Except VsrStateError VsrState) :
    (n.submitRoot role state).still = n.still := by
  unfold submitRoot assert
  dsimp only
  repeat' split
  all_goals rfl

theorem maybeSwapEpoch_holding : n.maybeSwapEpoch.holding = n.holding := by
  unfold maybeSwapEpoch
  repeat' split
  all_goals first | rfl | exact holding_eq (submitRoot_still n _ _)

theorem forceCheckpoint_holding : n.forceCheckpoint.holding = n.holding := by
  unfold forceCheckpoint issueBlockJob
  dsimp only
  repeat' split
  all_goals first | rfl | exact assert_holding n.mintId _

/-! ## Appends -/

theorem tending_holding : Tending fun n n' : Node S => n'.holding = n.holding where
  refl _ := rfl
  trans h h' := h'.trans h
  submit n op header body kind := by
    unfold submitAppendAs
    split
    · rfl
    · dsimp only
      split <;> rfl
  edit _ _ _ _ := rfl

theorem adoptAppend_holding (op : OpNumber) (kind : Pending) :
    (n.adoptAppend op kind).holding = n.holding := by
  unfold adoptAppend
  repeat' split
  all_goals first | rfl | exact tending_holding.submit n op _ _ kind

theorem truncateWalAboveAdoptedHead_holding :
    n.truncateWalAboveAdoptedHead.holding = n.holding := by
  have htruncate (m : Node S) : (m.truncateWal m.op).1.holding = m.holding := by
    unfold truncateWal
    split <;> rfl
  exact (tending_holding.absorbWalCancellations _ _).trans
    ((htruncate _).trans (assert_holding n _))

/-! ## Holes -/

theorem isHole_congr {n n' : Node S} (h : n'.record = n.record) (op : OpNumber) :
    n'.isHole op = n.isHole op := by
  unfold Core.isHole
  rw [show n'.log = n.log from congrArg Prod.snd h]

/-- A hole has no body that opening it could drop. -/
theorem openHole_record {op : OpNumber} (h : n.isHole op = true) :
    (n.openHole op).record = n.record := by
  refine (record_eq (assert_holding _ _)).trans ?_
  have hlog : (if (n.log.get? op).any (·.body.isRepairing) then n
      else { n with log := n.log.erase op }).record = n.record := by
    split
    · rfl
    · rename_i hopen
      have habsent : n.log.get? op = none := by
        cases hget : n.log.get? op with
        | none => rfl
        | some e => simp [Core.isHole, hget, Body.isBodyBearing] at h hopen; simp [h] at hopen
      have herase : n.log.erase op = n.log := by
        apply OrdMap.ext_get?
        intro k
        rw [OrdMap.get?_erase]
        split
        · rename_i heq
          rw [heq, habsent]
        · rfl
      exact congrArg (Prod.mk n.op) herase
  exact hlog

theorem foldl_record {α : Type} {f : Node S → α → Node S} (xs : List α) (n : Node S)
    (h : ∀ x ∈ xs, ∀ m : Node S, m.record = n.record → (f m x).record = m.record) :
    (xs.foldl f n).record = n.record := by
  induction xs generalizing n with
  | nil => rfl
  | cons x xs ih =>
    have hx := h x List.mem_cons_self n rfl
    refine (ih (f n x) ?_).trans hx
    intro y hy m hm
    exact h y (List.mem_cons_of_mem _ hy) m (hm.trans hx)

theorem isHole_of_le_holeRunEnd (room : Nat) {lo op : OpNumber} (hlo : lo < op)
    (h : op ≤ n.holeRunEnd room lo) : n.isHole op = true := by
  induction room generalizing lo with
  | zero =>
    unfold Core.holeRunEnd at h
    exact absurd h (Nat.not_le.mpr hlo)
  | succ room ih =>
    unfold Core.holeRunEnd at h
    split at h
    · rename_i hnext
      rcases Nat.lt_or_eq_of_le (Nat.succ_le_of_lt hlo) with hlt | rfl
      · exact ih hlt h
      · exact hnext
    · exact absurd h (Nat.not_le.mpr hlo)

theorem requestRepair_record {op : OpNumber} (h : n.isHole op = true) :
    (n.requestRepair now op).record = n.record := by
  refine (record_eq (maybeForceSync_holding _ now)).trans ?_
  exact (record_eq (say_holding _ _ _)).trans (openHole_record n h)

theorem requestRepairRun_record {lo : OpNumber} (h : n.isHole lo = true) :
    (n.requestRepairRun now lo).record = n.record := by
  refine (record_eq (maybeForceSync_holding _ now)).trans ?_
  refine (record_eq (say_holding _ _ _)).trans (foldl_record _ n ?_)
  intro op hop m hm
  refine openHole_record m ?_
  rw [isHole_congr hm]
  generalize min (min n.commitMax (lo + repairWindow - 1)) n.op - lo = room at hop
  obtain ⟨hlo, hhi⟩ := List.mem_range'_1.mp hop
  rcases Nat.lt_or_eq_of_le hlo with hlt | rfl
  · exact isHole_of_le_holeRunEnd n room hlt (by lia)
  · exact h

/-! ## Committing -/

theorem setCommitMin_record (op : OpNumber) : (n.setCommitMin op).record = n.record :=
  (record_eq (assert_holding n (decide (n.commitMin ≤ op))) :)

theorem recordApplied_holding (op : OpNumber) (e : LogEntry) (body : Bytes) :
    (n.recordApplied op e body).holding = n.holding := by
  unfold recordApplied
  split <;> rfl

theorem stageCommittedReconfigure_holding (op : OpNumber) (p : ReconfigurePayload) :
    (n.stageCommittedReconfigure op p).holding = n.holding := by
  unfold stageCommittedReconfigure stageEpochSwap
  repeat' split
  all_goals first | rfl | exact maybeSwapEpoch_holding _

theorem commitReconfigure_record (op : OpNumber) (e : LogEntry) (p : ReconfigurePayload) :
    (n.commitReconfigure op e p).record = n.record := by
  refine (record_eq (stageCommittedReconfigure_holding _ op p)).trans ?_
  exact (setCommitMin_record _ op).trans (record_eq (recordApplied_holding n op e _))

variable [StateMachine S]

theorem advanceOne_record (op : OpNumber) : (n.advanceOne now op).1.record = n.record := by
  unfold advanceOne
  split
  · rename_i habsent
    exact requestRepairRun_record n now (by simp [Core.isHole, habsent])
  · rename_i e hget
    split
    · exact commitReconfigure_record n op e _
    · rename_i c hbody
      exact requestRepairRun_record n now
        (by simp [Core.isHole, hget, Body.isBodyBearing, Body.isRepairing, hbody])
    · rename_i body _
      have hnoted (m : Node S) (reply : Bytes) :
          (m.noteAppliedSession op e.client e.request reply).record = m.record := by
        unfold noteAppliedSession
        dsimp only
        split <;> rfl
      refine (hnoted _ _).trans ((setCommitMin_record _ op).trans ?_)
      exact record_eq (recordApplied_holding _ op e body)

theorem advanceLoop_record (room : Nat) (n : Node S) :
    (advanceLoop now room n).record = n.record := by
  induction room generalizing n with
  | zero => rfl
  | succ room ih =>
    have hone := advanceOne_record n now (n.commitMin + 1)
    unfold advanceLoop
    dsimp only
    split
    · exact (ih _).trans hone
    · exact hone

theorem advanceCommitWith_record {pay : Node S → Node S}
    (hpay : ∀ n, (pay n).record = n.record) (target : OpNumber) :
    (advanceCommitWith pay n now target).1.record = n.record := by
  have htail (m : Node S) : (commitTail pay m now).1.record = m.record := by
    have hcancel : m.cancelForcedSyncIfSatisfied.holding = m.holding := by
      unfold cancelForcedSyncIfSatisfied
      repeat' split
      all_goals rfl
    have hready := (maybeEnterOrphanRepersistRecovery_holding _ now).trans
      ((maybeAdoptInheritedFrontier_holding _).trans hcancel)
    have hcheckpoint (k : Node S) : k.maybeCheckpoint.holding = k.holding := by
      unfold maybeCheckpoint
      repeat' split
      all_goals first | rfl | exact forceCheckpoint_holding k
    unfold commitTail
    dsimp only
    split
    · rename_i heq
      exact record_eq (heq ▸ hready)
    · rename_i k heq
      rw [heq] at hready
      refine (record_eq (maybeSwapEpoch_holding _)).trans ((hpay _).trans ?_)
      exact record_eq ((hcheckpoint k).trans hready)
  unfold advanceCommitWith
  dsimp only
  split
  · rfl
  · split
    · rfl
    · exact (htail _).trans (advanceLoop_record now _ _)

omit [StateMachine S] in
theorem payCheckpointDebtWith_record {advance : Node S → Node S × CommitFlow}
    (h : ∀ n, (advance n).1.record = n.record) :
    (payCheckpointDebtWith advance n).record = n.record := by
  have hforce (m : Node S) := record_eq (forceCheckpoint_holding m)
  have hadvance := h { n with payingCheckpointDebt := true }
  unfold payCheckpointDebtWith
  dsimp only
  repeat' split
  all_goals first | rfl | exact hforce n | exact hadvance | exact (hforce _).trans hadvance

theorem advanceCommit_record (target : OpNumber) :
    (n.advanceCommit now target).1.record = n.record := by
  have hpaying (m : Node S) (target : OpNumber) :
      (m.advanceCommitPaying now target).1.record = m.record :=
    advanceCommitWith_record m now (fun k => payCheckpointDebtWith_record k fun _ => rfl) target
  exact advanceCommitWith_record n now
    (fun m => payCheckpointDebtWith_record m fun k => hpaying k k.commitMax) target

end Node

end Viewstamp
