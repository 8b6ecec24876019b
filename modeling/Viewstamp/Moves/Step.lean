import Viewstamp.Moves.Core

/- The moves of recovery, state sync, completions and messages, up to one step of
   a replica.

   The image of a checkpoint enters the ledger in two places: at the end of a
   recovery and at the end of a state sync, both when a restore job comes back. -/
namespace Viewstamp

/-- The messages that bring a body to the log or ask for some of it. -/
def Message.asksBodies : Message → Bool
  | request _ | requestPrepare _ | requestPrepareRange _ => true
  | _ => false

/-- The replica when a superblock completion is dispatched: a root that landed is installed. -/
def Node.landRoot {S : Type} [StateMachine S] (n : Node S) (now : Instant)
    (landed : Option RootEntry) : Node S :=
  match landed with
  | some e => n.onRootLanded now e
  | none => n

/-- The op `run_gc` prunes up to. -/
def Node.gcFloor {S : Type} (n : Node S) : OpNumber :=
  if n.isPrimary then n.pruneFloor else n.checkpointOp

theorem Node.gcFloor_le {S : Type} (n : Node S) : n.gcFloor ≤ n.checkpointOp := by
  unfold gcFloor pruneFloor
  split
  · exact min_le_left _ _
  · exact le_refl _

namespace Node.Acts

variable {S : Type} [StateMachine S] {K : Licence}
variable (n : Node S) (now : Instant) (sender : Peer) (op : OpNumber) (msg : Message)

/-! ## Recovery -/

theorem mapRecover (f : RecoverState → RecoverState) : Acts K n (n.mapRecover f) :=
  of_eq rfl

theorem flushAndStageInstall : Acts K n (n.flushAndStageInstall now) := by
  unfold Node.flushAndStageInstall
  split
  · exact refl n
  · rename_i install _
    have h : Acts K n (n.issueBlockJob (.flush install.smRoot install.sessionsRoot)) :=
      issueBlockJob n _
    repeat' split
    all_goals first | exact refl n | exact h.trans (unawait rfl rfl)

theorem pinBlockFetch (donor : Peer) (m : SyncCheckpoint) (smRoot sessionsRoot : BlockAddress)
    (purpose : WalkPurpose) : Acts K n (n.pinBlockFetch donor m smRoot sessionsRoot purpose) := by
  unfold Node.pinBlockFetch
  refine Acts.trans ?_ (issueWalk _ purpose none)
  exact of_eq rfl

theorem sendRequestBlock : Acts K n (n.sendRequestBlock now) := by
  unfold Node.sendRequestBlock
  refine guard fun _ => ?_
  extract_lets n1
  have h1 : Acts K n n1 := issueWalk n .arq none
  split
  · exact h1.trans (of_eq rfl)
  · exact h1

theorem sendRecovery : Acts K n (n.sendRecovery now) := by
  unfold Node.sendRecovery
  refine withLocalSlot fun slot => ?_
  extract_lets n1
  have h1 : Acts K n n1 := emit n _ _ rfl
  exact h1.trans (of_eq rfl)

theorem trimLogToCheckpoint (floor checkpointFloor : OpNumber) :
    Acts K n (n.trimLogToCheckpoint floor checkpointFloor) := by
  unfold Node.trimLogToCheckpoint
  exact (assertCommittedSurvives n floor checkpointFloor).trans (filterLog _ _)

theorem escalateCheckpointToPeerFetch (target : OpNumber) (cross : Bool) :
    Acts K n (n.escalateCheckpointToPeerFetch now target cross) := by
  unfold Node.escalateCheckpointToPeerFetch
  extract_lets n1 n2 n3
  have h1 : Acts K n n1 := assert n _
  have h2 : Acts K n n2 := h1.trans (mapRecover n1 _)
  have h3 : Acts K n n3 := by
    unfold n3
    split
    · exact h2.trans (armSync n2 now _ _ _)
    · exact h2.trans (sendRequestSync n2 now)
  exact h3.trans (armTimers n3 now)

theorem enterCrossEpochPeerFetch (checkpoint : OpNumber) :
    Acts K n (n.enterCrossEpochPeerFetch now checkpoint) := by
  unfold Node.enterCrossEpochPeerFetch
  refine guard fun _ => guard fun _ => guard fun _ => guard fun _ => ?_
  extract_lets n1 n2 n3
  have h2 : Acts K n n2 := by
    refine Acts.trans ?_ (abandonPendingSb _)
    exact (resetForViewTransition n now).trans (of_eq rfl)
  have h3 : Acts K n n3 := by
    refine Acts.trans ?_ (setStatus _ .recovering nofun)
    exact h2.trans (of_eq rfl)
  refine Acts.trans ?_ (escalateCheckpointToPeerFetch _ now _ _)
  exact h3.trans (setRecover n3 _)

theorem dropFaultySlot : Acts K n (n.dropFaultySlot op) := by
  unfold Node.dropFaultySlot
  refine guard fun _ => ?_
  extract_lets n1
  have h1 : Acts K n n1 := assertCommittedSurvives n _ _
  exact h1.trans (eraseLog n1 op)

theorem finalizeRecovery : Acts K n n.finalizeRecovery :=
  Acts.trans (foldl dropFaultySlot n.faultyOps n) (assert _ _)

theorem settleRecoverVerifiedHead : Acts K n n.settleRecoverVerifiedHead.1 := by
  unfold Node.settleRecoverVerifiedHead
  split
  · exact refl n
  · dsimp only
    split
    · exact (filterLog n _).trans (of_eq rfl)
    · exact of_eq rfl

theorem resumeSoloVoterPipeline : Acts K n (n.resumeSoloVoterPipeline now) := by
  unfold Node.resumeSoloVoterPipeline
  refine withLocalSlot fun slot => ?_
  extract_lets record n1
  have hrecord : ∀ (m : Node S) (op : OpNumber), Acts K m (record m op) := fun _ _ => of_eq rfl
  have hclear : Acts K n { n with inflight := .empty } := of_eq rfl
  have h1 : Acts K n n1 := hclear.trans (foldl hrecord _ _)
  exact (h1.trans (armTimers n1 now)).trans (tryCommit _ now)

theorem resumeOwedRestore (owed : OpNumber) : Acts K n (n.resumeOwedRestore now owed) := by
  unfold Node.resumeOwedRestore
  extract_lets n1 reading
  have h1 : Acts K n n1 := by
    unfold n1
    exact provided fun _ => of_eq rfl
  refine h1.trans ?_
  split
  · exact escalateCheckpointToPeerFetch n1 now _ _
  · split
    · exact armTimers n1 now
    · exact submitRecoverCheckpointRead n1 now

theorem rejoin (formatted : Bool) : Acts K n (n.rejoin now formatted) := by
  unfold Node.rejoin
  split
  · split
    · exact enterViewChange n now _
    · exact enterCatchUpPosture n now
  · refine withLocalSlot fun slot => ?_
    split
    · exact enterViewChange n now _
    · extract_lets n1 n2
      have h1 : Acts K n n1 := setStatus n .normal nofun
      have h2 : Acts K n n2 := by
        unfold n2
        split
        · exact h1.trans (resumeSoloVoterPipeline n1 now)
        · exact h1.trans (armTimers n1 now)
      exact h2.trans (maybePayCheckpointDebt n2 now)

theorem completeRecovery : Acts K n (n.completeRecovery now) := by
  unfold Node.completeRecovery
  have h := repersistOrphanOwed (K := K) n
  generalize n.repersistOrphanOwed = r at h
  obtain ⟨m, owed⟩ := r
  have h : Acts K n m := h
  cases owed with
  | some owed => exact h.trans (resumeOwedRestore m now owed)
  | none =>
    dsimp -zeta only
    extract_lets n1 formatted
    have h1 : Acts K n n1 := h.trans (assert m _)
    refine Acts.trans ?_ (rejoin _ now _)
    exact h1.trans (of_eq rfl)

theorem promoteFaultyHead (head : OpNumber) : Acts K n (n.promoteFaultyHead head) := by
  unfold Node.promoteFaultyHead
  exact provided fun _ => (eraseLog n _).trans (mapRecover _ _)

theorem recoverProgress : Acts K n (n.recoverProgress now) := by
  unfold Node.recoverProgress
  split
  · exact refl n
  · split
    · exact armTimers n now
    · have h := settleRecoverVerifiedHead (K := K) n
      generalize n.settleRecoverVerifiedHead = r at h
      obtain ⟨m, head⟩ := r
      have h : Acts K n m := h
      cases head with
      | none => exact h
      | some head =>
        dsimp -zeta only
        extract_lets n1
        have h1 : Acts K n n1 := (h.trans (promoteFaultyHead m head)).trans (finalizeRecovery _)
        refine h1.trans ?_
        split
        · exact refl n1
        · split
          · exact armTimers n1 now
          · split
            · exact completeRecovery n1 now
            · split
              · exact ((setStatus n1 .recoveringHead nofun).trans (armTimers _ now)).trans
                  (sendRecovery _ now)
              · refine (completeRecovery n1 now).trans ?_
                exact provided fun _ => foldl sendRequestPrepare _ _

theorem applyReadOutcome (hK : K.insert) (n : Node S) (seq : Nat) (op : OpNumber)
    (o : ReadOutcome) :
    Acts K n (n.applyReadOutcome seq op o) := by
  cases o with
  | verified | keepRepairing => exact (writeLog hK n _).trans (mapRecover _ _)
  | staleCommitted | fault => exact mapRecover n _
  | absent => exact (eraseLog n op).trans (mapRecover _ _)

theorem onRecoverWalDone (hK : K.insert) (n : Node S) (now : Instant) (done : WalDone) :
    Acts K n (n.onRecoverWalDone now done) := by
  unfold Node.onRecoverWalDone
  split
  · exact refl n
  · exact refl n
  · split
    · exact refl n
    · split
      · exact refl n
      · exact (applyReadOutcome hK n _ _ _).trans (recoverProgress _ now)

theorem resolveExhaustedTailRead (hK : K.insert) (n : Node S) (op : OpNumber) :
    Acts K n (n.resolveExhaustedTailRead op) := by
  unfold Node.resolveExhaustedTailRead
  extract_lets keep n1 n2
  have h2 : Acts K n n2 := (assert n _).trans (mapRecover n1 _)
  refine h2.trans ?_
  cases keep with
  | none => exact mapRecover n2 _
  | some identity => exact (mapRecover n2 _).trans (writeLog hK _ _)

theorem issueRecoverProbe (c : RecoveredCheckpoint) : Acts K n (n.issueRecoverProbe c) := by
  unfold Node.issueRecoverProbe
  refine Acts.trans ?_ (mapRecover _ _)
  exact of_mint rfl

theorem onRecoverSbDone (done : SuperblockDone) : Acts K n (n.onRecoverSbDone done) := by
  unfold Node.onRecoverSbDone
  split
  · refine guard fun _ => ?_
    extract_lets n1 root
    have h1 : Acts K n n1 := mapRecover n _
    refine h1.trans ?_
    refine guard fun _ => ?_
    split
    · exact refl n1
    · refine guard fun _ => ?_
      split
      · exact mapRecover n1 _
      · exact (issueRecoverProbe n1 _).trans (mapRecover _ _)
  · exact mapRecover n _
  · exact refl n

theorem redriveDeferredRecoverProbe : Acts K n n.redriveDeferredRecoverProbe := by
  unfold Node.redriveDeferredRecoverProbe
  refine guard fun _ => ?_
  split
  · exact refl n
  · refine guard fun _ => ?_
    split
    · exact refl n
    · extract_lets n1 root
      have h1 : Acts K n n1 := mapRecover n _
      refine h1.trans ?_
      exact guard fun _ => issueRecoverProbe n1 _

theorem onRecoverProbeWalked (job : OpId) (c : RecoveredCheckpoint)
    (next : Option (Option BlockAddress)) : Acts K n (n.onRecoverProbeWalked job c next) := by
  unfold Node.onRecoverProbeWalked
  refine guard fun _ => ?_
  extract_lets n1
  have h1 : Acts K n n1 := of_eq rfl
  split
  · split
    · exact h1
    · exact (h1.trans (issueBlockJob n1 _)).trans (mapRecover _ _)
  · exact h1

theorem raiseToRestoredCheckpoint : Acts K n (n.raiseToRestoredCheckpoint op) := by
  unfold Node.raiseToRestoredCheckpoint
  refine guard fun _ => ?_
  extract_lets n1 n2
  have h1 : Acts K n n1 := (advanceCheckpointOp n op).trans (setCommitMin _ op)
  have h2 : Acts K n n2 := by
    refine Acts.trans ?_ (trimLogToCheckpoint _ op op)
    exact h1.trans (of_eq rfl)
  exact h2.trans (mapRecover n2 _)

/-- The image loaded by a recovery replaces the service and the table. -/
theorem onRecoveredCheckpointRestored (c : RecoveredCheckpoint) (sm : S)
    (clients : OrdMap ClientId Session) :
    Acts K { n with sm := sm, clients := clients, smAt := c.op }
      (n.onRecoveredCheckpointRestored now c (some (sm, clients))) := by
  unfold Node.onRecoveredCheckpointRestored
  dsimp -zeta only
  extract_lets n1 n2 n3 superseded n4 timers n5
  have h2 : Acts K { n with sm := sm, clients := clients, smAt := c.op } n2 := of_eq rfl
  have h3 := h2.trans (raiseToRestoredCheckpoint n2 c.op)
  have h4 : Acts K n3 n4 := mapRecover n3 _
  have h5 : Acts K n4 n5 := by
    unfold n5
    exact provided fun _ => of_eq rfl
  exact (h3.trans (h4.trans h5)).trans (recoverProgress n5 now)

theorem retireRecoverForStagedSync : Acts K n n.retireRecoverForStagedSync := by
  unfold Node.retireRecoverForStagedSync
  extract_lets n1 n2
  have h1 : Acts K n n1 := assert n _
  have h2 : Acts K n1 n2 := by
    unfold n2
    split
    · exact guard fun _ => of_eq rfl
    · exact refl n1
  exact (h1.trans h2).trans (of_eq rfl)

theorem submitRecoverRead (budget : Nat) : Acts K n (n.submitRecoverRead op budget) := by
  unfold Node.submitRecoverRead
  exact guard fun _ => of_mint rfl

theorem retryRecoverReads (hK : K.insert) (outstanding : List OpNumber) :
    ∀ (ops : List OpNumber) (n : Node S),
    Acts K n (Node.retryRecoverReads outstanding ops n)
  | [], n => refl n
  | op :: ops, n => by
    unfold Node.retryRecoverReads
    refine Acts.trans ?_ (retryRecoverReads hK outstanding ops _)
    split
    · exact resolveExhaustedTailRead hK n op
    · exact submitRecoverRead n op _
    · exact refl n
    · exact refl n

theorem retryCheckpointRead (owed : Bool) (budget : Nat) :
    Acts K n (n.retryCheckpointRead now owed budget) := by
  unfold Node.retryCheckpointRead
  split
  · exact refl n
  · exact (submitTrackedCheckpointRead n).trans (mapRecover _ _)
  · have h := repersistOrphanOwed (K := K) n
    generalize n.repersistOrphanOwed = r at h
    obtain ⟨m, orphan⟩ := r
    have h : Acts K n m := h
    cases orphan <;> exact h.trans (escalateCheckpointToPeerFetch m now _ _)

theorem recoverTimeouts (hK : K.insert) (n : Node S) (now : Instant) :
    Acts K n (n.recoverTimeouts now) := by
  unfold Node.recoverTimeouts
  refine guard fun _ => ?_
  extract_lets rearm n1 r n2 n3 n4
  have hrearm : ∀ m : Node S, Acts K m (rearm m) := fun m => of_eq rfl
  have h1 : Acts K n n1 := flushAndStageInstall n now
  split
  · exact h1.trans (hrearm n1)
  · have h2 : Acts K n1 n2 := by
      unfold n2
      exact provided fun _ => (sendRequestBlock n1 now).trans (sendRequestSync _ now)
    have h3 : Acts K n2 n3 := retryRecoverReads hK _ _ n2
    have h4 : Acts K n3 n4 := by
      unfold n4
      exact provided fun _ => retryCheckpointRead n3 now _ _
    exact ((h1.trans (h2.trans (h3.trans h4))).trans (hrearm n4)).trans (recoverProgress _ now)

theorem retireRecoverAndEscalate : Acts K n (n.retireRecoverAndEscalate now) := by
  unfold Node.retireRecoverAndEscalate
  refine Acts.trans ?_ (enterViewChange _ now _)
  exact (assert n _).trans (of_eq rfl)

theorem recoverHeadTimeouts : Acts K n (n.recoverHeadTimeouts now) := by
  unfold Node.recoverHeadTimeouts
  refine guard fun _ => ?_
  split
  · exact refl n
  · extract_lets attempts fresh intact n1
    have h1 : Acts K n n1 := of_eq rfl
    refine h1.trans (withLocalSlot fun slot => ?_)
    split
    · exact retireRecoverAndEscalate n1 now
    · exact sendRecovery n1 now

/-! ## State sync -/

theorem gcBlocks : Acts K n n.gcBlocks := by
  unfold Node.gcBlocks
  exact guard fun _ => issueBlockJob n .gc

theorem setReconstruct (r : Option SmReconstruct) :
    Acts K n { n with smReconstruct := r } := of_eq rfl

theorem setTimers (timers : Timers) : Acts K n { n with timers := timers } := of_eq rfl

theorem issueSmRestore : Acts K n n.issueSmRestore := by
  unfold Node.issueSmRestore
  split
  · exact refl n
  · exact guard fun _ => (issueBlockJob n _).trans (setReconstruct _ _)

theorem rearmSmReconstructRetry (retry : Bool) :
    Acts K n (n.rearmSmReconstructRetry now retry) := by
  unfold Node.rearmSmReconstructRetry
  split
  · exact refl n
  · refine guard fun _ => ?_
    extract_lets n1 r timers
    have h1 : Acts K n n1 := pinBlockFetch n _ _ _ _ _
    split
    · exact (h1.trans (setRecover n1 _)).trans (armTimers _ now)
    · exact h1.trans (setTimers n1 _)

theorem refetchSmReconstruct (m : SyncCheckpoint) :
    Acts K n (n.refetchSmReconstruct now sender m) := by
  have h : ∀ recon, Acts K n ({ n with smReconstruct := recon }.rearmSmReconstructRetry now true) :=
    fun recon => (setReconstruct n recon).trans (rearmSmReconstructRetry _ now true)
  unfold Node.refetchSmReconstruct
  repeat' split
  all_goals first | exact refl n | exact of_eq rfl | exact h _

theorem stageInstall (donor : Peer) (m : SyncCheckpoint) :
    Acts K n (n.stageInstall now donor m) := by
  unfold Node.stageInstall
  refine guard fun _ => ?_
  split
  · exact refl n
  · refine guard fun _ => ?_
    split
    · exact refl n
    · refine guard fun _ => ?_
      refine Acts.trans ?_ (flushAndStageInstall _ now)
      exact of_eq rfl

theorem applySync (donor : Peer) (m : SyncCheckpoint) : Acts K n (n.applySync now donor m) := by
  unfold Node.applySync
  split
  · split
    · exact guard fun _ => of_eq rfl
    · exact stageInstall n now donor m
  · exact (assert n _).trans (stageInstall _ now donor m)

theorem installCrossing (hr : K.retire) (n : Node S) (now : Instant)
    (install : PendingInstall) :
    Acts K n (n.installCrossing now install) := by
  have hprev : ∀ (m : Node S) (e : Epoch), Acts K m { m with prevEpoch := e } :=
    fun _ _ => of_eq rfl
  have hpush : ∀ (m : Node S) (c : Checksum), Acts K m (m.pushLineage c) := fun _ _ => of_eq rfl
  have hinstall : ∀ (m : Node S) (op : OpNumber), Acts K m { m with configInstallOp := op } :=
    fun _ _ => of_eq rfl
  have hswap : ∀ m : Node S, Acts K m { m with pendingSwap := none } := fun _ => of_eq rfl
  unfold Node.installCrossing
  split
  · exact refl n
  · rename_i successor _
    extract_lets n1 prior n2 n3 n4 n5 n6
    have h1 : Acts K n n1 := of_eq rfl
    have h5 : Acts K n1 n5 := by
      unfold n5
      refine provided fun _ => ?_
      have h2 : Acts K n1 n2 := installMembership hr n1 now none successor
      have h3 : Acts K n1 n3 := h2.trans (hprev n2 _)
      have h4 : Acts K n1 n4 := by
        unfold n4
        split
        · split
          · exact h3.trans (hpush n3 _)
          · exact h3
        · exact h3
      split
      · exact h4.trans (hinstall n4 _)
      · exact h4.trans (panic n4)
    have h6 : Acts K n n6 := (h1.trans h5).trans (hswap n5)
    split
    · exact h6.trans (abandonPendingSb n6)
    · exact h6

theorem installSync (hr : K.retire) (n : Node S) (now : Instant)
    (install : PendingInstall) : Acts K n (n.installSync now install) := by
  have hmax : ∀ (m : Node S) (op : OpNumber), Acts K m { m with commitMax := op } :=
    fun _ _ => of_eq rfl
  have hhead : ∀ (m : Node S) (op max : OpNumber), Acts K m { m with op := op, commitMax := max } :=
    fun _ _ _ => of_eq rfl
  have hdrop : ∀ (m : Node S) (f : OpSet), Acts K m { m with
      inflight := .empty, buffer := .empty, repair := f } :=
    fun _ _ => of_eq rfl
  have howe : ∀ (m : Node S) (r : SmReconstruct), Acts K m { m with
      pending := .empty
      appending := .empty
      deferredAppends := .empty
      smReconstruct := some r } :=
    fun _ _ => single (.clear rfl) rfl
  unfold Node.installSync
  extract_lets cp n1 n2 n3 n4 n5 n6 recon
  have h2 : Acts K n n2 := (setCommitMin n cp).trans (hmax n1 _)
  have h3 : Acts K n2 n3 := by
    unfold n3
    exact guard fun _ => hhead n2 _ _
  have h4 : Acts K n3 n4 := (installCrossing hr n3 now install).trans (advanceCheckpointOp _ cp)
  have h5 : Acts K n4 n5 := trimLogToCheckpoint n4 _ _
  have h6 : Acts K n5 n6 := (hdrop n5 _).trans (clearIdleRepairRetry _)
  exact ((h2.trans (h3.trans (h4.trans (h5.trans h6)))).trans (howe n6 recon)).trans
    (issueSmRestore _)

theorem completeStateSync : Acts K n (n.completeStateSync now) := by
  have hclear : ∀ (m : Node S), Acts K m { m with
      sync := none, blockFetch := none, timers := { m.timers with syncSolicit := none } } :=
    fun _ => of_eq rfl
  have hcarried : ∀ (m : Node S), Acts K m { m with syncCarriedFaulty := .empty } :=
    fun _ => of_eq rfl
  unfold Node.completeStateSync
  extract_lets n1 timers n2 resume carried n3 n4
  have h1 : Acts K n n1 := (gcBlocks n).trans (event _ rfl)
  have h2 : Acts K n n2 := h1.trans (hclear n1)
  have hresume : ∀ m : Node S, Acts K m (resume m) := by
    intro m
    unfold resume
    split
    · exact provided fun _ => armSync m now _ true true
    · exact refl m
  split
  · have h3 : Acts K n n3 := h2.trans (hcarried n2)
    split
    · have h4 : Acts K n n4 :=
        (h3.trans (setRecover n3 _)).trans (setStatus _ .recoveringHead nofun)
      exact (h4.trans (armTimers n4 now)).trans (sendRecovery _ now)
    · exact (h3.trans (completeRecovery n3 now)).trans (hresume _)
  · exact (h2.trans (armTimers n2 now)).trans (hresume _)

/-- The image loaded by a state sync replaces the service and the table. -/
theorem onSmRestored (recon : SmReconstruct)
    (hr : n.smReconstruct = some recon) (sm : S) (clients : OrdMap ClientId Session) :
    Acts K { n with sm := sm, clients := clients, smAt := recon.checkpointOp }
      (n.onSmRestored now (some (sm, clients))) := by
  unfold Node.onSmRestored
  split
  · rename_i hnone
    rw [hr] at hnone
    cases hnone
  rename_i recon' hrecon
  obtain rfl : recon = recon' := Option.some.inj (hr.symm.trans hrecon)
  dsimp -zeta only
  extract_lets n1 n2 n3 n4 n5
  have h2 : Acts K { n with sm := sm, clients := clients, smAt := recon.checkpointOp } n2 :=
    of_eq rfl
  have h3 : Acts K n2 n3 := truncate n2 n2.op
  -- the prune mark is no part of the tables, so it can be set before the prune
  have h5 : Acts K n3 n5 := by
    have hmark : Acts K n3 { n3 with walPruned := n4.walPruned } := of_eq rfl
    refine hmark.trans ?_
    have hprune : n5 = { n3 with walPruned := n4.walPruned }.pruneAbsorbing recon.checkpointOp := by
      unfold n5 n4 Node.pruneAbsorbing Node.pruneWal
      split <;> rfl
    rw [hprune]
    exact prune _ _
  exact ((h2.trans (h3.trans h5)).trans ((completeStateSync n5 now).trans
    (retryUnappendedAdoptedTail _))).trans (maybeSwapEpoch _)

theorem onSmRestored_none : Acts K n (n.onSmRestored now none) := by
  unfold Node.onSmRestored
  split
  · exact refl n
  · exact (setReconstruct n _).trans (rearmSmReconstructRetry _ now false)

theorem completeRecoverPeerFetch (donor : Peer) (m : SyncCheckpoint) :
    Acts K n (n.completeRecoverPeerFetch now donor m) := by
  unfold Node.completeRecoverPeerFetch
  exact ((assert n _).trans (finalizeRecovery _)).trans (applySync _ now donor m)

theorem setBlockFetch (bf : Option BlockFetch) : Acts K n { n with blockFetch := bf } :=
  of_eq rfl

theorem onFetchDrained : Acts K n (n.onFetchDrained now) := by
  unfold Node.onFetchDrained
  refine guard fun _ => ?_
  split
  · exact refl n
  · extract_lets same n1
    have h1 : Acts K n n1 := setBlockFetch n none
    refine h1.trans ?_
    split
    · exact issueSmRestore n1
    · split
      · exact completeRecoverPeerFetch n1 now _ _
      · exact applySync n1 now _ _

theorem onResponseWalked (addr : BlockAddress) (present : Bool) (next : Option BlockAddress) :
    Acts K n (n.onResponseWalked now sender addr present next) := by
  unfold Node.onResponseWalked
  split
  · exact refl n
  · split
    · exact onFetchDrained n now
    · split
      · exact (emit n _ _ rfl).trans (setTimers _ _)
      · exact guard fun _ => guard fun _ => (setBlockFetch n _).trans (sendRequestSync _ now)

theorem onWalked (job : OpId) (purpose : WalkPurpose) (accepted : Bool)
    (next : Option (Option BlockAddress)) :
    Acts K n (n.onWalked now job purpose accepted next) := by
  unfold Node.onWalked
  split
  · exact onRecoverProbeWalked n job _ next
  · split
    · exact refl n
    · refine guard fun _ => ?_
      extract_lets n1
      have h1 : Acts K n n1 := of_eq rfl
      refine h1.trans ?_
      split
      · exact setBlockFetch n1 none
      · split
        · exact onResponseWalked n1 now _ _ _ _
        · exact emit n1 _ _ rfl
        · split
          · exact (setBlockFetch n1 none).trans (issueSmRestore _)
          · exact setBlockFetch n1 none
        · exact onFetchDrained n1 now

theorem onBlockResponse (m : BlockResponse) : Acts K n (n.onBlockResponse sender m) := by
  unfold Node.onBlockResponse
  repeat' split
  all_goals first | exact refl n | exact issueWalk n _ _

theorem beginBlockSync (m : SyncCheckpoint) : Acts K n (n.beginBlockSync now sender m) := by
  unfold Node.beginBlockSync
  split
  · exact refl n
  · have h : ∀ smRoot sessionsRoot timers, Acts K n
        { n.pinBlockFetch sender m smRoot sessionsRoot .arm with timers := timers } :=
      fun _ _ _ => (pinBlockFetch n _ _ _ _ _).trans (setTimers _ _)
    repeat' split
    all_goals first | exact refl n | exact of_eq rfl | exact h _ _ _

theorem beginRecoverBlockSync (m : SyncCheckpoint) (smRoot sessionsRoot : BlockAddress) :
    Acts K n (n.beginRecoverBlockSync now sender m smRoot sessionsRoot) := by
  have h : Acts K n ((n.pinBlockFetch sender m smRoot sessionsRoot .arm).armTimers now) :=
    (pinBlockFetch n _ _ _ _ _).trans (armTimers _ now)
  unfold Node.beginRecoverBlockSync
  repeat' split
  all_goals first | exact refl n | exact of_eq rfl | exact h

theorem deferForfeit : Acts K n (n.deferForfeit now) := of_eq rfl

theorem cancelSync : Acts K n n.cancelSync := of_eq rfl

theorem handleSyncCheckpoint (m : SyncCheckpoint) :
    Acts K n (n.handleSyncCheckpoint now sender m) := by
  unfold Node.handleSyncCheckpoint
  refine guard fun _ => ?_
  split
  · exact refl n
  · repeat' split
    all_goals first
      | exact refl n
      | exact refetchSmReconstruct n now sender m
      | exact (deferForfeit n now).trans (cancelSync _)
      | exact beginBlockSync n now sender m

theorem onRecoverSyncCheckpoint (m : SyncCheckpoint) :
    Acts K n (n.onRecoverSyncCheckpoint now sender m) := by
  unfold Node.onRecoverSyncCheckpoint
  split
  · exact refl n
  · repeat' split
    all_goals first
      | exact refl n
      | exact refetchSmReconstruct n now sender m
      | exact beginRecoverBlockSync n now sender m _ _

theorem syncTimeouts : Acts K n (n.syncTimeouts now) := by
  unfold Node.syncTimeouts
  refine guard fun _ => ?_
  split
  · exact setTimers n _
  · exact ((flushAndStageInstall n now).trans (sendRequestBlock _ now)).trans
      (sendRequestSync _ now)

theorem advanceQuarantineProbe : Acts K n (n.advanceQuarantineProbe now).1 := by
  unfold Node.advanceQuarantineProbe
  repeat' split
  all_goals exact of_eq rfl

/-! ## Completions -/

theorem submitEnvelope (pc : PendingCheckpoint) (dag : CheckpointDag) (snapshot : Bytes) :
    Acts K n (n.submitEnvelope pc dag snapshot).1 := by
  unfold Node.submitEnvelope
  split
  · exact refl n
  · dsimp only
    split
    · exact (of_mint rfl : Acts K n n.mintId).trans (unawait rfl rfl)
    · exact envelope n _ _ ‹_› pc dag

theorem dropCheckpoint : Acts K n { n with pendingCheckpoint := none } :=
  unawait rfl rfl

theorem onCheckpointMaterialized (job : OpId) (smRoot sessionsRoot : BlockAddress) (flushed : Bool)
    : Acts K n (n.onCheckpointMaterialized job smRoot sessionsRoot flushed) := by
  unfold Node.onCheckpointMaterialized
  split
  · exact refl n
  · refine guard fun _ => ?_
    split
    · exact dropCheckpoint n
    · exact submitEnvelope n _ _ _

theorem armOwedInstallCadence : Acts K n (n.armOwedInstallCadence now) := by
  unfold Node.armOwedInstallCadence
  split <;> exact setTimers n _

theorem onCheckpointBlocksFlushed (job : OpId) (flushed : Bool) :
    Acts K n (n.onCheckpointBlocksFlushed now job flushed) := by
  unfold Node.onCheckpointBlocksFlushed
  split
  · exact refl n
  · rename_i pc _
    refine guard fun _ => ?_
    split
    · exact dropCheckpoint n
    · rename_i install _
      split
      · exact (dropCheckpoint n).trans (armOwedInstallCadence _ now)
      · extract_lets dag
        have h := submitEnvelope (K := K) n pc dag install.checkpoint.snapshot
        generalize n.submitEnvelope pc dag install.checkpoint.snapshot = r at h
        obtain ⟨m, ok⟩ := r
        have h : Acts K n m := h
        cases ok with
        | false => exact h.trans (armOwedInstallCadence m now)
        | true =>
          dsimp only
          split
          · exact (h.trans (setTimers m _)).trans (retireRecoverForStagedSync _)
          · exact h.trans (setTimers m _)

/-- The WAL is pruned, then the log and the votes below the floor go. -/
theorem runGc : Acts K n n.runGc := by
  have hdrop : ∀ (m : Node S) (floor : OpNumber), Acts K m { m with
      inflight := m.inflight.filter fun op _ => decide (floor < op)
      buffer := m.buffer.filter fun op _ => decide (floor < op) } :=
    fun _ _ => of_eq rfl
  unfold Node.runGc
  extract_lets floor
  refine guard fun _ => ?_
  dsimp -zeta only
  extract_lets n1 subsumed n2 n3
  have hmark : Acts K n { n with walPruned := n1.walPruned } := of_eq rfl
  have hgc : n2 = { n with walPruned := n1.walPruned }.gcAbsorbing floor := by
    unfold n2 subsumed n1 Node.gcAbsorbing Node.pruneWal
    split <;> rfl
  have h2 : Acts K n n2 := by
    rw [hgc]
    exact hmark.trans (gc _ (gcFloor_le n))
  have h3 : Acts K n2 n3 := trimLogToCheckpoint n2 _ _
  exact (h2.trans h3).trans (hdrop n3 _)

theorem setAppending (appending : OpSet) : Acts K n { n with appending := appending } :=
  of_eq rfl

theorem resubmitCancelledAppend (kind : Pending) (hlate : n.status = .retired → K.late) :
    Acts K n (n.resubmitCancelledAppend kind) := by
  unfold Node.resubmitCancelledAppend
  dsimp only
  split
  · exact refl n
  · split
    · exact refl n
    · exact (submitOrDeferAppend n _ _ _ kind rfl hlate).trans (setAppending _ _)

theorem onAppendCancelled (id : OpId) (hlate : n.status = .retired → K.late) :
    Acts K n (n.onAppendCancelled id) := by
  unfold Node.onAppendCancelled
  split
  · exact refl n
  · rename_i p _
    extract_lets n1
    have h1 : Acts K n n1 := settle id.seq rfl
    refine h1.trans ?_
    split
    · exact guard fun _ => setAppending n1 _
    · exact (setAppending n1 _).trans (resubmitCancelledAppend _ p hlate)

theorem setNackFrom (nackFrom : OrdMap Nat (Finset MemberId)) :
    Acts K n { n with nackFrom := nackFrom } := of_eq rfl

theorem settleAppend (hK : K.insert) (n : Node S) (now : Instant) (p : Pending) :
    Acts K n (n.settleAppend now p).1 := by
  cases p with
  | ack op =>
    dsimp only [Node.settleAppend]
    split
    · exact (recordOwnVote n op).trans (tryCommit _ now)
    · exact sendPrepareOk n op
  | adoptVote op => exact (recordOwnVote n op).trans (tryCommit _ now)
  | adoptAck op => exact sendPrepareOk n op
  | repairFill op e =>
    dsimp -zeta only [Node.settleAppend]
    extract_lets n1 n2
    have h1 : Acts K n n1 := by
      refine Acts.trans ?_ (clearIdleRepairRetry _)
      exact (writeLog hK n _).trans (of_eq rfl)
    have h2 : Acts K n n2 := h1.trans (setNackFrom n1 _)
    refine h2.trans ?_
    split
    · exact (recordOwnVote n2 op).trans (tryCommit _ now)
    · exact advanceCommit n2 now _

theorem onAppended (hK : K.insert) (n : Node S) (now : Instant) (id : OpId)
    (freed : Option OpNumber) : Acts K n (n.onAppended now id freed) := by
  unfold Node.onAppended
  split
  · exact releaseFreed n freed
  · rename_i p _
    extract_lets n1
    have h1 : Acts K n n1 := settle id.seq rfl
    have h := h1.trans (settleAppend hK n1 now p)
    generalize n1.settleAppend now p = r at h
    obtain ⟨m, flow⟩ := r
    cases flow with
    | enteredRecovery => exact h
    | proceed => exact Acts.trans h (releaseFreed m freed)

theorem onWalDone (hK : K.insert) (n : Node S) (now : Instant) (done : WalDone)
    (freed : Option OpNumber) : Acts K n (n.onWalDone now done freed) := by
  unfold Node.onWalDone
  split
  · exact releaseFreed n freed
  · split
    · split
      · exact release n _
      · exact release n _
      · exact onRecoverWalDone hK n now done
    · refine guard fun hret => ?_
      split
      · exact onAppended hK n now _ freed
      · exact (onAppendCancelled n _ fun h => absurd h hret).trans (releaseFreed _ freed)
      · exact refl n

theorem absorbUncorrelatedRoot (role : RootRole) (id : OpId) (state : VsrState) :
    Acts K n (n.absorbUncorrelatedRoot now role id state) := by
  have hmax : ∀ (m : Node S) (op : OpNumber), Acts K m { m with commitMax := op } :=
    fun _ _ => of_eq rfl
  have hfrontier : ∀ (m : Node S) (f : Option OpNumber),
      Acts K m { m with inheritedFrontier := f } :=
    fun _ _ => of_eq rfl
  have horphan : ∀ (m : Node S) (f : Option OpNumber), Acts K m { m with repersistOrphan := f } :=
    fun _ _ => of_eq rfl
  unfold Node.absorbUncorrelatedRoot
  extract_lets commitProven n1 raised n2 n3
  have h1 : Acts K n n1 := by
    unfold n1
    exact provided fun _ => hmax n _
  split
  · exact h1
  · have h2 : Acts K n n2 := h1.trans (hfrontier n1 _)
    have h3 : Acts K n n3 := by
      unfold n3
      split
      · exact h2.trans (horphan n2 _)
      · exact h2
    exact (h3.trans (maybeAdoptInheritedFrontier n3)).trans
      (maybeEnterOrphanRepersistRecovery _ now)

theorem onRootLanded (hr : K.retire) (n : Node S) (now : Instant) (e : RootEntry) :
    Acts K n (n.onRootLanded now e) := by
  unfold Node.onRootLanded
  extract_lets n1 n2 correlated
  have h1 : Acts K n n1 := of_eq rfl
  have h2 : Acts K n n2 := h1.trans (adoptLandedConfiguration hr n1 now _)
  split
  · exact h2
  · exact h2.trans (absorbUncorrelatedRoot n2 now _ _ _)

theorem finishSwap (hr : K.retire) (n : Node S) (now : Instant) (swap : EpochSwap) :
    Acts K n (n.finishSwap now swap) := by
  have hintent : ∀ (m : Node S), Acts K m { m with crossEpochIntent := none } := fun _ => of_eq rfl
  unfold Node.finishSwap
  extract_lets n1 installed n2
  have h1 : Acts K n n1 := of_eq rfl
  have h2 : Acts K n n2 := (h1.trans (installMembership hr n1 now _ _)).trans (hintent _)
  split
  · exact h2.trans (forceCheckpoint n2)
  · exact h2

/-- Only the acknowledgements of an adopted StartView are appended without asking the status. -/
theorem releasePendingSb (hr : K.retire) (n : Node S) (now : Instant)
    (action : PendingSbAction)
    (hlate : action = .adoptedStartView → n.status = .retired → K.late) :
    Acts K n (n.releasePendingSb now action) := by
  unfold Node.releasePendingSb
  extract_lets n1 n2
  have h1 : Acts K n n1 := of_eq rfl
  have h2 : Acts K n1 n2 := by
    unfold n2
    cases action with
    | sendDoViewChange => exact sendDoViewChange n1
    | startViewAsPrimary =>
      exact (startViewParticipate n1 now).trans (retryUnappendedAdoptedTail _)
    | adoptedStartView => exact startViewAcks n1 (hlate rfl)
    | sealed => exact refl n1
    | swapEpoch swap => exact finishSwap hr n1 now swap
  exact (h1.trans h2).trans (maybeSwapEpoch n2)

theorem checkpointRooted (hr : K.retire) (n : Node S) (now : Instant)
    (pc : PendingCheckpoint) (dag : CheckpointDag) : Acts K n (n.checkpointRooted now pc dag) := by
  have hinstall : ∀ (m : Node S), Acts K m { m with pendingInstall := none } := fun _ => of_eq rfl
  unfold Node.checkpointRooted
  extract_lets n1 n2
  have h1 : Acts K n n1 := unawait rfl rfl
  refine h1.trans ?_
  split
  · split
    · exact (hinstall n1).trans (installSync hr _ now _)
    · exact ((completeStateSync n1 now).trans (retryUnappendedAdoptedTail _)).trans
        (maybeSwapEpoch _)
  · have h2 : Acts K n1 n2 := (advanceCheckpointOp n1 _).trans (event _ rfl)
    exact ((h2.trans (runGc n2)).trans (gcBlocks _)).trans
      ((retryUnappendedAdoptedTail _).trans (maybeSwapEpoch _))

omit [StateMachine S] in
/-- The root of a checkpoint says that it is the checkpoint. -/
theorem checkpointRoot_checkpointOp {n : Node S} {pc : PendingCheckpoint} {dag : CheckpointDag}
    {st : VsrState} (h : n.checkpointRoot pc dag = .ok st) : st.checkpointOp = pc.targetOp := by
  have hordinary {effective : VsrState}
      (ho : n.durableRoot effective n.view n.logView (max n.commitMax pc.targetOp) pc.targetOp
        dag.checkpointId (n.committedBandHeaders pc.targetOp) = .ok st) :
      st.checkpointOp = pc.targetOp := by
    unfold Node.durableRoot at ho
    dsimp only at ho
    repeat' split at ho
    all_goals exact VsrState.checkpointOp_of_tryNewV4 ho
  unfold Node.checkpointRoot at h
  dsimp only at h
  split at h
  · split at h
    · exact hordinary h
    · split at h
      · exact hordinary h
      · split at h
        · exact VsrState.checkpointOp_of_tryNewV4 h
        · cases h
  · exact hordinary h

/-- The checkpoint waits for the root submitted for it, if the root is submitted at all. -/
theorem submitCheckpointRoot (pc : PendingCheckpoint) (dag : CheckpointDag) :
    Acts K n { n.submitRoot .checkpoint (n.checkpointRoot pc dag) with
      pendingCheckpoint := some { pc with step := .awaitRoot n.nextId dag } } := by
  have hfailed : Acts K n { n.panic with
      pendingCheckpoint := some { pc with step := .awaitRoot n.nextId dag } } :=
    (panic n).trans (awaitFailed n.panic rfl pc dag)
  unfold Node.submitRoot
  split
  · exact hfailed
  · rename_i st hst
    dsimp only
    unfold Node.assert
    split
    · cases hp : n.panicked with
      | true => exact awaitFailed n hp pc dag
      | false => exact awaitRoot n st pc dag (checkpointRoot_checkpointOp hst)
    · exact hfailed

theorem onCheckpointWrote (hr : K.retire) (n : Node S) (now : Instant) (id : OpId) :
    Acts K n (n.onCheckpointWrote now id) := by
  unfold Node.onCheckpointWrote
  split
  · exact maybeSwapEpoch n
  · split
    · split
      · exact (submitCheckpointRoot n _ _).trans (maybeSwapEpoch _)
      · exact maybeSwapEpoch n
    · split
      · exact checkpointRooted hr n now _ _
      · exact maybeSwapEpoch n
    · exact maybeSwapEpoch n

theorem onSbDone (hr : K.retire) (n : Node S) (now : Instant) (done : SuperblockDone)
    (landed : Option RootEntry)
    (hlate : ∀ id, done = .wrote id →
      (n.landRoot now landed).pendingSb = some (id, .adoptedStartView) →
      (n.landRoot now landed).status = .retired → K.late) :
    Acts K n (n.onSbDone now done landed) := by
  unfold Node.onSbDone
  extract_lets n1 stagedWrite
  have h1 : Acts K n n1 := by
    unfold n1
    split
    · exact onRootLanded hr n now _
    · exact refl n
  refine h1.trans ?_
  refine guard fun _ => ?_
  split
  · exact onRecoverSbDone n1 done
  · split
    · exact serveSyncCheckpoint n1 _ _ _
    · exact of_eq rfl
    · split
      · rename_i pid action hsb
        split
        · rename_i hid
          refine releasePendingSb hr n1 now action fun haction => hlate pid ?_ ?_
          · rw [hid]
          · rw [← haction]
            exact hsb
        · exact onCheckpointWrote hr n1 now _
      · exact onCheckpointWrote hr n1 now _

/-! ## Repair -/

theorem fillRepair (n : Node S) (p : Prepare) (hn : Awake K n) : Acts K n (n.fillRepair p).1 := by
  have h : ∀ header nackFrom, Acts K n
      { n.submitOrDeferAppend p.op header p.body (.repairFill p.op (logEntryFromPrepare p)) with
        appending := (n.submitOrDeferAppend p.op header p.body
          (.repairFill p.op (logEntryFromPrepare p))).appending.add p.op
        nackFrom := nackFrom } := by
    intro header nackFrom
    exact ((submitOrDeferAppend n p.op header p.body _ rfl fun h => hn (.inl h)).trans
      (setAppending _ _)).trans (setNackFrom _ nackFrom)
  unfold Node.fillRepair
  split
  · exact refl n
  · split
    · exact refl n
    · simp only []
      split
      · exact refl n
      · split
        · exact refl n
        · split
          · exact refl n
          · exact h _ _

theorem onRepairBatch (m : RepairBatch) (hn : Awake K n) : Acts K n (n.onRepairBatch m) :=
  foldl_awake fillRepair _ n hn

theorem dropTailOp : Acts K n (n.dropTailOp op) := by
  have hdrop : ∀ (m : Node S) (repair : OpSet), Acts K m { m with
      log := m.log.erase op, repair := repair, inflight := m.inflight.erase op } :=
    fun m _ => (eraseLog m op).trans (of_eq rfl)
  unfold Node.dropTailOp
  exact (assertCommittedSurvives n op _).trans (hdrop _ _)

theorem lowerTruncatedSessions (truncated : List ClientId) :
    Acts K n (n.lowerTruncatedSessions truncated) := by
  unfold Node.lowerTruncatedSessions
  apply touch
  apply SessionTable.Retouched.mapVals
  intro c s
  dsimp only
  split <;> exact ⟨rfl, rfl⟩

omit [StateMachine S] in
/-- Dropping an op does not look at what is owed. -/
theorem dropTailOp_owed (pending : OrdMap Nat Pending) (deferred : OrdMap Nat DeferredAppend) :
    { n with pending := pending, deferredAppends := deferred }.dropTailOp op =
      { n.dropTailOp op with pending := pending, deferredAppends := deferred } := by
  unfold Node.dropTailOp Node.assertCommittedSurvives Node.isTrackedForRepair
  dsimp only
  generalize (decide (op ≤ n.checkpointOp) ||
    (n.repair.has op || n.recover.any (·.faulty.has op)) || decide (n.commitMax < op)) = survives
  cases survives <;> rfl

omit [StateMachine S] in
theorem dropTail_owed (pending : OrdMap Nat Pending) (deferred : OrdMap Nat DeferredAppend) :
    ∀ (ops : List OpNumber) (n : Node S),
    ops.foldl Node.dropTailOp { n with pending := pending, deferredAppends := deferred } =
      { ops.foldl Node.dropTailOp n with pending := pending, deferredAppends := deferred }
  | [], _ => rfl
  | op :: ops, n => by
    rw [List.foldl_cons, List.foldl_cons, dropTailOp_owed, dropTail_owed pending deferred ops]

omit [StateMachine S] in
theorem dropTail_keeps : ∀ (ops : List OpNumber) (n : Node S),
    (ops.foldl Node.dropTailOp n).pending = n.pending ∧
      (ops.foldl Node.dropTailOp n).deferredAppends = n.deferredAppends
  | [], _ => ⟨rfl, rfl⟩
  | op :: ops, n => by
    have hone : (n.dropTailOp op).pending = n.pending ∧
        (n.dropTailOp op).deferredAppends = n.deferredAppends := by
      unfold Node.dropTailOp Node.assertCommittedSurvives Node.assert
      dsimp only
      split <;> exact ⟨rfl, rfl⟩
    obtain ⟨hp, hd⟩ := dropTail_keeps ops (n.dropTailOp op)
    exact ⟨hp.trans hone.1, hd.trans hone.2⟩

/-- What is owed for the tail goes first; the log, the votes and the sessions follow, and the WAL
last. -/
theorem truncateUncommittedTailFrom (gap : OpNumber) :
    Acts K n (n.truncateUncommittedTailFrom gap) := by
  unfold Node.truncateUncommittedTailFrom
  dsimp -zeta only
  extract_lets tail truncated n2 n3 n4
  have h1 : Acts K n (n.nackTruncated gap) := nack n gap
  have hkeep := dropTail_keeps tail n
  have h3 : Acts K (n.nackTruncated gap) n3 := by
    have hdrop := foldl (K := K) dropTailOp tail (n.nackTruncated gap)
    unfold Node.nackTruncated at hdrop ⊢
    rw [dropTail_owed] at hdrop
    refine (hdrop.trans (lowerTruncatedSessions _ truncated)).trans (of_eq ?_)
    unfold n3 n2 Node.lowerTruncatedSessions
    dsimp only
    rw [hkeep.1, hkeep.2]
    rfl
  have h4 : Acts K n3 n4 := truncate n3 (gap - 1)
  exact ((h1.trans (h3.trans h4)).trans (setNackFrom n4 _)).trans (clearIdleRepairRetry _)

theorem onNack (m : Nack) : Acts K n (n.onNack sender m) := by
  unfold Node.onNack
  refine guard fun _ => guard fun _ => ?_
  split
  · refine guard fun _ => ?_
    split
    · exact refl n
    · refine guard fun _ => ?_
      extract_lets n1
      have h1 : Acts K n n1 := setNackFrom n _
      refine h1.trans ?_
      split
      · exact refl n1
      · exact provided fun _ => truncateUncommittedTailFrom n1 _
  · exact refl n

/-! ## Normal operation -/

theorem solicitLearnerProof (target : MemberId) : Acts K n (n.solicitLearnerProof target) := by
  unfold Node.solicitLearnerProof
  split
  · exact panic n
  · extract_lets outstanding nonce n1 nonce'
    have h1 : Acts K n n1 := by
      unfold n1
      cases outstanding with
      | none => exact of_eq rfl
      | some c => exact refl n
    exact h1.trans (withLocalSlot fun _ => emit n1 _ _ rfl)

theorem heartbeat : Acts K n (n.heartbeat now) := by
  unfold Node.heartbeat
  extract_lets timers n1
  have h1 : Acts K n n1 := by
    unfold n1
    exact provided fun _ => setTimers n _
  refine h1.trans ?_
  exact provided fun _ => (emit n1 _ _ rfl).trans (setTimers _ _)

theorem takePrepare (hK : K.insert) (n : Node S) (p : Prepare) (hn : Awake K n) :
    Acts K n (n.takePrepare p) := by
  have hlog : ∀ (m : Node S) (log : OrdMap Nat LogEntry) (appending : OpSet),
      Acts K m { m with log := log, appending := appending } :=
    fun m log _ => (writeLog hK m log).trans (of_eq rfl)
  unfold Node.takePrepare
  exact (submitOrDeferAppend n _ _ _ (.ack p.op) rfl fun h => hn (.inl h)).trans (hlog _ _ _)

theorem appendPrepare (hK : K.insert) (n : Node S) (p : Prepare) (hn : Awake K n) :
    Acts K n (n.appendPrepare p) := by
  unfold Node.appendPrepare
  refine guard fun _ => ?_
  refine Acts.trans ?_ (takePrepare hK _ p hn)
  exact of_eq rfl

theorem reappendCanonicalPrepare (hK : K.insert) (n : Node S) (p : Prepare) (hn : Awake K n) :
    Acts K n (n.reappendCanonicalPrepare p) := by
  unfold Node.reappendCanonicalPrepare
  repeat' split
  all_goals first | exact refl n | exact takePrepare hK n p hn

theorem setBuffer (buffer : OrdMap Nat Prepare) : Acts K n { n with buffer := buffer } :=
  of_eq rfl

theorem drainBuffer (hK : K.insert) (now : Instant) : ∀ (room : Nat) (n : Node S), Awake K n →
    Acts K n (Node.drainBuffer now room n)
  | 0, n, _ => refl n
  | room + 1, n, hn => by
    unfold Node.drainBuffer
    split
    · exact refl n
    · rename_i next _
      split
      · exact setBuffer n _
      · have h := maybeSyncBelowRingWindow (K := K) n now next.op next.checkpointOp
        generalize n.maybeSyncBelowRingWindow now next.op next.checkpointOp = r at h
        obtain ⟨m, synced⟩ := r
        have h : Acts K n m := h
        cases synced with
        | true => exact h
        | false =>
          dsimp only
          split
          · exact h
          · have h' := (h.trans (setBuffer m _)).trans
              (appendPrepare hK { m with buffer := m.buffer.erase (m.op + 1) } next (h.awake hn))
            exact h'.trans (drainBuffer hK now room _ (h'.awake hn))

theorem requestTailGap : Acts K n n.requestTailGap := by
  unfold Node.requestTailGap
  exact guard fun _ => foldl sendRequestPrepare _ n

theorem onHeldPrepare (hK : K.insert) (n : Node S) (p : Prepare) (hn : Awake K n) :
    Acts K n (n.onHeldPrepare p) := by
  unfold Node.onHeldPrepare
  repeat' split
  all_goals first
    | exact refl n
    | exact sendPrepareOk n _
    | exact reappendCanonicalPrepare hK n p hn

theorem countVote (ok : PrepareOk) : Acts K n (n.countVote ok) := by
  unfold Node.countVote
  repeat' split
  all_goals exact of_eq rfl

theorem reportCheckpointToPrimary : Acts K n n.reportCheckpointToPrimary := by
  unfold Node.reportCheckpointToPrimary
  exact guard fun _ => sendPrepareOk n _

theorem setSync (sync : Option SyncState) : Acts K n { n with sync := sync } := of_eq rfl

theorem maybeRequestCrossEpochCatchup :
    Acts K n (n.maybeRequestCrossEpochCatchup now sender msg) := by
  unfold Node.maybeRequestCrossEpochCatchup
  split
  · extract_lets n1 intent n2
    have h1 : Acts K n n1 := by
      unfold n1
      split
      · refine Acts.trans ?_ (armQuarantineProbe _ now)
        exact of_eq rfl
      · exact of_eq rfl
    have h2 : Acts K n n2 := h1.trans (of_eq rfl)
    refine h2.trans ?_
    split
    · exact enterCrossEpochPeerFetch n2 now _
    · split
      · extract_lets n5 n6
        have h5 : Acts K n2 n5 := setSync n2 _
        have h6 : Acts K n5 n6 := by
          unfold n6
          exact guard fun _ => setBlockFetch n5 none
        exact (h5.trans h6).trans (sendRequestSync n6 now)
      · exact armSync n2 now _ _ _
  · exact refl n

theorem onNextPrepare (hK : K.insert) (n : Node S) (now : Instant) (p : Prepare) (hn : Awake K n) :
    Acts K n (n.onNextPrepare now p) := by
  unfold Node.onNextPrepare
  have h := maybeSyncBelowRingWindow (K := K) n now p.op p.checkpointOp
  generalize n.maybeSyncBelowRingWindow now p.op p.checkpointOp = r at h
  obtain ⟨m, synced⟩ := r
  have h : Acts K n m := h
  cases synced with
  | true => exact h
  | false =>
    dsimp only
    split
    · exact h
    · have h' := h.trans (appendPrepare hK m p (h.awake hn))
      exact (h'.trans (drainBuffer hK now _ _ (h'.awake hn))).trans (advanceCommit _ now _)

theorem placePrepare (hK : K.insert) (n : Node S) (now : Instant) (p : Prepare) (hn : Awake K n) :
    Acts K n (n.placePrepare now p) := by
  unfold Node.placePrepare
  split
  · exact onHeldPrepare hK n p hn
  · split
    · exact onNextPrepare hK n now p hn
    · extract_lets n1
      have h1 : Acts K n n1 := by
        unfold n1
        exact provided fun _ => setBuffer n _
      exact h1.trans (requestTailGap n1)

theorem onPrepare (hK : K.insert) (n : Node S) (now : Instant) (p : Prepare)
    (hn : Awake K n) : Acts K n (n.onPrepare now p) := by
  unfold Node.onPrepare
  have h := fillRepair n p hn
  generalize n.fillRepair p = r at h
  obtain ⟨m, consumed⟩ := r
  have h : Acts K n m := h
  cases consumed with
  | true => exact h
  | false =>
    refine h.trans ?_
    dsimp -zeta only
    refine guard fun _ => guard fun _ => ?_
    split
    · exact catchUpToView m now _
    · refine guard fun _ => ?_
      extract_lets m1
      have h1 : Acts K m m1 := (notePrimaryContact m now).trans (maybeRequestSync _ now _)
      refine h1.trans ?_
      refine guard fun _ => guard fun _ => ?_
      have h2 := advanceCommit (K := K) m1 now p.commit
      generalize m1.advanceCommit now p.commit = r at h2
      obtain ⟨k, flow⟩ := r
      cases flow with
      | enteredRecovery => exact h2
      | proceed =>
        have h2 : Acts K m1 k := h2
        exact h2.trans (placePrepare hK k now p (((h.trans h1).trans h2).awake hn))

theorem onPrepareBatch (hK : K.insert) (n : Node S) (now : Instant)
    (m : PrepareBatch) (hn : Awake K n) : Acts K n (n.onPrepareBatch now m) :=
  foldl_awake (fun k p => onPrepare hK k now p) _ n hn

theorem onPrepareOk (ok : PrepareOk) :
    Acts K (n.hear (n.hears (.prepareOk ok))) (n.onPrepareOk now ok) := by
  unfold Node.onPrepareOk
  split
  · rename_i hview
    exact of_unheard (if_neg fun h => Nat.ne_of_gt hview h.2.2.1) (catchUpToView n now _)
  · split
    · rename_i hguard
      refine of_unheard (if_neg fun h => ?_) (refl n)
      simp_all
    · rename_i hguard
      split
      · rename_i hslot
        exact of_unheard (if_neg fun h => Nat.not_lt.mpr hslot h.2.2.2) (refl n)
      · rename_i hslot
        refine of_heard (if_pos (by simp_all)) ?_
        extract_lets n1 peerCheckpoint
        have h2 : Acts K n1 (if n1.commitMax < peerCheckpoint then
            n1.advanceCommit now peerCheckpoint else (n1, .proceed)).1 := by
          split
          · exact advanceCommit n1 now _
          · exact refl n1
        generalize (if n1.commitMax < peerCheckpoint then n1.advanceCommit now peerCheckpoint
          else (n1, .proceed)) = r at h2
        obtain ⟨m, flow⟩ := r
        have h2 : Acts K n1 m := h2
        dsimp only
        split
        · exact h2
        · have h3 : Acts K n1 ((m.maybeRequestSync now ok.checkpointOp).maybeForceSync now) :=
            (h2.trans (maybeRequestSync m now _)).trans (maybeForceSync _ now)
          exact (h3.trans (countVote _ ok)).trans (tryCommit _ now)

theorem onCommit (c : Commit) :
    Acts K (n.hear (n.hears (.commit c))) (n.onCommit now c) := by
  unfold Node.onCommit
  split
  · rename_i hview
    exact of_unheard (if_neg fun h => Nat.ne_of_gt hview h.2.2) (catchUpToView n now _)
  · split
    · rename_i hguard
      refine of_unheard (if_neg fun h => ?_) (refl n)
      simp_all
    · rename_i hguard
      refine of_heard (if_pos (by simp_all)) ?_
      extract_lets n1 n2 n3
      have h2 :
          Acts K (n.recordPeerCheckpoint (n.membership.primary n.view) c.checkpointOp) n2 := by
        obtain ⟨timers, hcontact⟩ : ∃ timers, n1 = { n with timers := timers } := by
          unfold n1 Node.notePrimaryContact Node.armPrimaryIdle
          repeat' split
          all_goals exact ⟨_, rfl⟩
        unfold n2
        rw [hcontact]
        unfold Node.recordPeerCheckpoint
        dsimp only
        split <;> exact of_eq rfl
      have h3 : Acts K n2 n3 := (maybeRequestSync n2 now _).trans (maybeForceSync _ now)
      have h := (h2.trans h3).trans (advanceCommit n3 now c.commit)
      generalize n3.advanceCommit now c.commit = r at h
      obtain ⟨m, flow⟩ := r
      cases flow with
      | enteredRecovery => exact h
      | proceed => exact Acts.trans h ((requestTailGap m).trans (reportCheckpointToPrimary _))

/-! ## Entry points -/

theorem cancelStaleCrossEpochSync : Acts K n (n.cancelStaleCrossEpochSync msg) := by
  unfold Node.cancelStaleCrossEpochSync
  dsimp only
  repeat' split
  all_goals exact of_eq rfl

theorem maybeAnswerLowerEpoch : Acts K n (n.maybeAnswerLowerEpoch sender msg) := by
  unfold Node.maybeAnswerLowerEpoch
  repeat' split
  all_goals first | exact refl n | exact emit n _ _ rfl

theorem onLearnerStatus (m : LearnerStatus) : Acts K n (n.onLearnerStatus m) := by
  unfold Node.onLearnerStatus
  split <;> exact of_eq rfl

theorem onRequestLearnerProof (m : RequestLearnerProof) : Acts K n (n.onRequestLearnerProof m) := by
  unfold Node.onRequestLearnerProof
  exact guard fun _ => withLocalSlot fun _ => emit n _ _ rfl

theorem onLearnerProof (m : LearnerProof) : Acts K n (n.onLearnerProof sender m) := by
  unfold Node.onLearnerProof
  split
  · exact refl n
  · extract_lets resolved
    repeat' split
    all_goals exact of_eq rfl

theorem solicitHealthProofs (lifetime : Nat) : Acts K n (n.solicitHealthProofs now lifetime) := by
  unfold Node.solicitHealthProofs
  refine guard fun _ => ?_
  extract_lets nonce n1 nonce'
  have h1 : Acts K n n1 := by
    unfold n1
    exact guard fun _ => of_eq rfl
  exact h1.trans (withLocalSlot fun _ => foldl (fun m slot => emit m _ _ rfl) _ n1)

theorem onRequestHealthProof (m : RequestHealthProof) : Acts K n (n.onRequestHealthProof m) := by
  unfold Node.onRequestHealthProof
  exact guard fun _ => withLocalSlot fun _ => emit n _ _ rfl

theorem onHealthProof (m : HealthProof) : Acts K n (n.onHealthProof sender m) := by
  unfold Node.onHealthProof
  repeat' split
  all_goals exact of_eq rfl

theorem learnerStatusTimeouts : Acts K n (n.learnerStatusTimeouts now) := by
  unfold Node.learnerStatusTimeouts
  split
  · exact setTimers n _
  · extract_lets rearm
    have hrearm : ∀ m : Node S, Acts K m (rearm m) := fun m => setTimers m _
    split
    · exact hrearm n
    · exact guard fun _ => (withLocalSlot fun _ => emit n _ _ rfl).trans (hrearm _)

theorem onRecoveringMessage : Acts K n (n.onRecoveringMessage now sender msg) := by
  unfold Node.onRecoveringMessage
  refine guard fun _ => ?_
  split
  · exact onRecoverSyncCheckpoint n now sender _
  · exact onBlockResponse n sender _
  · exact refl n

theorem onRecoveringHeadMessage (hK : K.insert) (n : Node S) (now : Instant) (msg : Message)
    (hr : msg.reports = true → K.report) : Acts K n (n.onRecoveringHeadMessage now msg) := by
  unfold Node.onRecoveringHeadMessage
  split
  · exact of_adopts (hr rfl) (onStartView hK n now _)
  · exact of_adopts (hr rfl) (onRecoveryResponse hK n now _)
  · refine guard fun _ => ?_
    refine withLocalSlot fun own => ?_
    exact guard fun _ => mapRecover n _
  · exact refl n

theorem onActiveMessage (hK : K.insert) (n : Node S) (now : Instant) (sender : Peer)
    (msg : Message) (hm : msg.asksBodies = false) (hr : msg.reports = true → K.report)
    (hn : Awake K n) : Acts K n (n.onActiveMessage now sender msg) := by
  cases msg with
  | request r => cases hm
  | prepare p => exact onPrepare hK n now p hn
  | prepareBatch m => exact onPrepareBatch hK n now m hn
  | prepareOk ok => exact (hear (hr rfl) n _).trans (onPrepareOk n now ok)
  | commit c => exact (hear (hr rfl) n _).trans (onCommit n now c)
  | startViewChange m => exact onStartViewChange n now m
  | doViewChange m => exact (hear (hr rfl) n _).trans (onDoViewChange hK n now m hn)
  | startView m => exact of_adopts (hr rfl) (onStartView hK n now m)
  | getView m => exact onGetView n m
  | requestPrepare | requestPrepareRange => cases hm
  | recovery m => exact onRecovery n m
  | recoveryResponse m => exact of_adopts (hr rfl) (onRecoveryResponse hK n now m)
  | requestSync m => exact onRequestSync n sender m
  | syncCheckpoint m => exact handleSyncCheckpoint n now sender m
  | repairBatch m => exact onRepairBatch n m hn
  | learnerStatus m => exact onLearnerStatus n m
  | requestLearnerProof m => exact onRequestLearnerProof n m
  | learnerProof m => exact onLearnerProof n sender m
  | requestHealthProof m => exact onRequestHealthProof n m
  | healthProof m => exact onHealthProof n sender m
  | reply | epochAhead => exact refl n
  | requestBlock addr => exact onRequestBlock n sender addr
  | blockResponse m => exact onBlockResponse n sender m
  | nack m => exact onNack n sender m

/-- A message is dropped on the way, or it reaches a replica that has done nothing but acts. -/
theorem handleMessage_admits (hr : K.retire → K.late) (n : Node S) (now : Instant) (sender : Peer)
    (msg : Message) :
    n.admits now sender msg = none ∧ Acts K n (n.handleMessage now sender msg) ∨
      ∃ m, n.admits now sender msg = some m ∧ Acts K n m ∧ Awake K m ∧
        n.handleMessage now sender msg = m.dispatch now sender msg := by
  unfold Node.handleMessage
  split
  · rename_i hstatus
    exact .inl ⟨if_pos (by simp [hstatus]), refl n⟩
  · rename_i hstatus
    have hn : Awake K n := by
      rintro (h | h)
      · exact absurd h hstatus
      · exact hr h
    extract_lets n1
    have h1 : Acts K n n1 :=
      (maybeRequestCrossEpochCatchup n now sender msg).trans (maybeAnswerLowerEpoch _ sender msg)
    have hadmits : n.admits now sender msg =
        if n.status = .retired || !n1.senderMatches sender msg || !n1.epochAuthorityAdmits msg then
          none
        else some (n1.cancelStaleCrossEpochSync msg) := rfl
    split
    · rename_i hsender
      exact .inl ⟨hadmits.trans (if_pos (by simp [hsender])), h1⟩
    · rename_i hsender
      split
      · rename_i hepoch
        exact .inl ⟨hadmits.trans (if_pos (by simp [hepoch])), h1⟩
      · rename_i hepoch
        have h2 : Acts K n (n1.cancelStaleCrossEpochSync msg) :=
          h1.trans (cancelStaleCrossEpochSync n1 msg)
        refine .inr ⟨_, hadmits.trans (if_neg ?_), h2, h2.awake hn, rfl⟩
        simp [hstatus, hsender, hepoch]

/-- Only a replica with a view takes the message in full. -/
theorem handleMessage_split (hK : K.insert) (hr : K.retire → K.late) (n : Node S) (now : Instant)
    (sender : Peer) (msg : Message) (hp : msg.reports = true → K.report) :
    Acts K n (n.handleMessage now sender msg) ∨ ∃ m, Acts K n m ∧ Awake K m ∧
      n.handleMessage now sender msg = m.onActiveMessage now sender msg := by
  rcases handleMessage_admits hr n now sender msg with ⟨-, h⟩ | ⟨m, -, h, hawake, heq⟩
  · exact .inl h
  · rw [heq, Node.dispatch]
    split
    · exact .inl (h.trans (onRecoveringMessage m now sender msg))
    · exact .inl (h.trans (onRecoveringHeadMessage hK m now msg hp))
    · exact .inr ⟨m, h, hawake, rfl⟩

/-- A message reaches no member that has left its configuration. -/
theorem handleMessage (hK : K.insert) (hr : K.retire → K.late) (n : Node S)
    (now : Instant) (sender : Peer) (msg : Message) (hm : msg.asksBodies = false)
    (hp : msg.reports = true → K.report) : Acts K n (n.handleMessage now sender msg) := by
  rcases handleMessage_split hK hr n now sender msg hp with h | ⟨m, h, hawake, heq⟩
  · exact h
  · rw [heq]
    exact h.trans (onActiveMessage hK m now sender msg hm hp hawake)

theorem backupTick : Acts K n (n.backupTick now) := by
  unfold Node.backupTick
  extract_lets n1 n2
  have h1 : Acts K n n1 := by
    unfold n1
    exact provided fun _ => armPrimaryIdle n now
  have h2 : Acts K n1 n2 := by
    unfold n2
    exact provided fun _ => (proposeNextView n1 now).trans (armPrimaryIdle _ now)
  refine (h1.trans h2).trans ?_
  exact provided fun _ => (pushSvc n2 _).trans (setTimers _ _)

theorem redeliverDeferredPin : Acts K n (n.redeliverDeferredPin now) := by
  unfold Node.redeliverDeferredPin
  split
  · exact refl n
  · extract_lets n1
    have h1 : Acts K n n1 := of_eq rfl
    refine h1.trans ?_
    split
    · exact onRecoverSyncCheckpoint n1 now _ _
    · exact handleSyncCheckpoint n1 now _ _

theorem sealCommittedFrontier : Acts K n n.sealCommittedFrontier := by
  unfold Node.sealCommittedFrontier
  exact provided fun _ => submitDurableView n _

end Node.Acts

/-! ## Serving bodies

The bodies of the log are sent when an op is minted, when a peer asks for one or for a range, and
when the window of the primary is sent again. -/

namespace Node.Deeds

variable {S : Type} [StateMachine S] {K : Licence}

theorem onRequestPrepare (n : Node S) (sender : Peer) (m : RequestPrepare) :
    Deeds K n (n.onRequestPrepare sender m) := by
  unfold Node.onRequestPrepare
  repeat' split
  all_goals first
    | exact refl n
    | exact emit n _ _
    | exact (Acts.withLocalSlot fun _ => .emit n _ _ rfl).toDeeds

theorem onRequestPrepareRange (n : Node S) (sender : Peer) (m : RequestPrepareRange) :
    Deeds K n (n.onRequestPrepareRange sender m) := by
  unfold Node.onRequestPrepareRange
  split
  · exact refl n
  · split
    · split
      · exact refl n
      · dsimp only
        split
        · exact refl n
        · exact emit n _ _
    · exact refl n

theorem mintOp (hK : K.insert) (n : Node S) (now : Instant) (client : ClientId)
    (request : RequestNumber) (bytes : Bytes) (body : Body) (hn : Awake K n) :
    Deeds K n (n.mintOp now client request bytes body) := by
  have hop : ∀ (m : Node S) (op : OpNumber), Acts K m { m with op := op } :=
    fun _ _ => .of_eq rfl
  have hlog : ∀ (m : Node S) (log : OrdMap Nat LogEntry) (inflight : OrdMap Nat Inflight)
      (appending : OpSet),
      Acts K m { m with log := log, inflight := inflight, appending := appending } :=
    fun m log _ _ => (Acts.writeLog hK m log).trans (.of_eq rfl)
  unfold Node.mintOp
  extract_lets op n1 n2
  have h1 : Acts K n n1 := (hop n op).trans
    (.submitOrDeferAppend _ _ _ _ (.ack op) rfl fun h => hn (.inl h))
  have h2 : Acts K n1 n2 := hlog n1 _ _ _
  exact ((h1.trans h2).toDeeds.trans (emit n2 _ _)).trans (Acts.armTimers _ now).toDeeds

theorem admitRequest (hK : K.insert) (n : Node S) (now : Instant) (r : Request)
    (admission : Option NewOpReject) (hn : Awake K n) :
    Deeds K n (n.admitRequest now r admission) := by
  unfold Node.admitRequest
  split
  · exact refl n
  · exact (Acts.touch n (SessionTable.Retouched.insert n.clients r.client r.request)).toDeeds.trans
      (mintOp hK _ now _ _ _ _ hn)

theorem onRequest (hK : K.insert) (n : Node S) (now : Instant) (r : Request) (hn : Awake K n) :
    Deeds K n (n.onRequest now r) := by
  unfold Node.onRequest
  split
  · exact refl n
  · dsimp only
    repeat' split
    all_goals first
      | exact refl n
      | exact emit n _ _
      | exact admitRequest hK n now r _ hn

theorem mintReconfigure (hK : K.insert) (n : Node S) (now : Instant) (successor : Membership)
    (hn : Awake K n) : Deeds K n (n.mintReconfigure now successor) := by
  have hinflight : ∀ (m : Node S) (op : Option OpNumber),
      Acts K m { m with reconfigureInflight := op } := fun _ _ => .of_eq rfl
  unfold Node.mintReconfigure
  exact (mintOp hK n now _ _ _ _ hn).trans (hinflight _ _).toDeeds

theorem proposeMembership (hK : K.insert) (hr : K.retire → K.late) (n : Node S) (now : Instant)
    (delta : SingleVoterDelta) (accept : Bool) :
    Deeds K n (n.proposeMembership now delta accept).1 := by
  have hproof : Acts K n { n with learnerProof := none } := .of_eq rfl
  unfold Node.proposeMembership
  split
  · exact refl n
  · split
    · exact refl n
    · rename_i hstatus
      have hn : Awake K n := by
        rintro (h | h)
        · simp [h] at hstatus
        · exact hr h
      split
      · exact refl n
      · split
        · exact refl n
        · exact refl n
        · exact refl n
        · exact refl n
        · exact refl n
        all_goals
          split
          · exact refl n
          · extract_lets fPred fSucc
            split
            · exact refl n
            · split
              · split
                · exact hproof.toDeeds.trans (mintReconfigure hK _ now _ hn)
                · exact (Acts.solicitLearnerProof n _).toDeeds
              · exact mintReconfigure hK n now _ hn

theorem retransmit (budget : Nat) : ∀ (ops : List OpNumber) (running : Nat)
    (entries : List PreparedEntry) (n : Node S),
    Deeds K n (Node.retransmit budget running entries ops n)
  | [], running, entries, n => by
    unfold Node.retransmit
    split
    · exact refl n
    · exact emit n _ _
  | op :: ops, running, entries, n => by
    unfold Node.retransmit
    split
    · exact retransmit budget ops _ _ n
    · dsimp only
      split
      · exact (emit n _ _).trans (retransmit budget ops _ _ _)
      · exact retransmit budget ops _ _ n

theorem retransmitPrepares (n : Node S) (now : Instant) :
    Deeds K n (n.retransmitPrepares now) := by
  unfold Node.retransmitPrepares
  split
  · exact refl n
  · exact (retransmit _ _ _ _ n).trans (Acts.setTimers _ _).toDeeds

theorem handleMessage (hK : K.insert) (hr : K.retire → K.late) (n : Node S)
    (now : Instant) (sender : Peer) (msg : Message) (hp : msg.reports = true → K.report) :
    Deeds K n (n.handleMessage now sender msg) := by
  rcases Acts.handleMessage_split hK hr n now sender msg hp with h | ⟨m, h, hawake, heq⟩
  · exact h.toDeeds
  · rw [heq]
    refine h.toDeeds.trans ?_
    cases msg with
    | request r => exact onRequest hK m now r hawake
    | requestPrepare q => exact onRequestPrepare m sender q
    | requestPrepareRange q => exact onRequestPrepareRange m sender q
    | _ => exact (Acts.onActiveMessage hK m now sender _ rfl hp hawake).toDeeds

end Node.Deeds

namespace Node

variable {S : Type} [StateMachine S] {K : Licence}

/-- The window is sent at most once, by a replica that has done nothing but acts. -/
def Retransmits (K : Licence) (now : Instant) (n n' : Node S) : Prop :=
  Acts K n n' ∨ ∃ m, (∀ K', Acts K' n m) ∧ Acts K (m.retransmitPrepares now) n'

namespace Retransmits

variable {now : Instant} {n m n' : Node S}

theorem after (h : ∀ K', Acts K' n m) (h' : Retransmits K now m n') : Retransmits K now n n' := by
  rcases h' with h' | ⟨k, hk, h'⟩
  · exact .inl ((h K).trans h')
  · exact .inr ⟨k, fun K' => (h K').trans (hk K'), h'⟩

theorem trans (h : Retransmits K now n m) (h' : Acts K m n') : Retransmits K now n n' := by
  rcases h with h | ⟨k, hk, h⟩
  · exact .inl (h.trans h')
  · exact .inr ⟨k, hk, h.trans h'⟩

theorem deeds (h : Retransmits K now n n') : Deeds K n n' := by
  rcases h with h | ⟨m, hm, h⟩
  · exact h.toDeeds
  · exact ((hm K).toDeeds.trans (.retransmitPrepares m now)).trans h.toDeeds

theorem primaryTimeouts (n : Node S) (now : Instant) :
    Retransmits K now n (n.primaryTimeouts now) := by
  unfold Node.primaryTimeouts
  split
  · extract_lets timers n1
    have h1 : Acts K n n1 := .setTimers n _
    refine .inl (h1.trans ?_)
    split
    · exact .proposeNextView n1 now
    · exact .refl n1
  · split
    · exact .inl (.setTimers n _)
    · exact .inr ⟨n.heartbeat now, fun _ => .heartbeat n now, .maybeForfeit _ now⟩

theorem primaryTick (n : Node S) (now : Instant) : Retransmits K now n (n.primaryTick now) := by
  unfold Node.primaryTick
  extract_lets n1
  have h1 : Retransmits K now n n1 :=
    (primaryTimeouts n now).trans (.maybeAdoptInheritedFrontier _)
  have h := h1.trans (.maybeEnterOrphanRepersistRecovery n1 now)
  generalize n1.maybeEnterOrphanRepersistRecovery now = r at h
  obtain ⟨m, flow⟩ := r
  cases flow with
  | enteredRecovery => exact h
  | proceed => exact trans h ((Acts.maybePayCheckpointDebt m now).trans (.maybeCheckpoint _))

theorem statusTick (hK : K.insert) (n : Node S) (now : Instant) :
    Retransmits K now n (n.statusTick now) := by
  unfold Node.statusTick
  split
  · split
    · exact primaryTick n now
    · exact .inl (.backupTick n now)
  · exact .inl (.viewChangeTimeouts n now)
  · exact .inl (.recoverTimeouts hK n now)
  · exact .inl (.recoverHeadTimeouts n now)
  · exact .inl (.refl n)

theorem handleTimeout (hK : K.insert) (n : Node S) (now : Instant) :
    Retransmits K now n (n.handleTimeout now) := by
  unfold Node.handleTimeout
  have h (K' : Licence) := Acts.advanceQuarantineProbe (K := K') n now
  generalize n.advanceQuarantineProbe now = r at h
  obtain ⟨m, gaveUp⟩ := r
  refine after h ?_
  dsimp -zeta only
  extract_lets m1 m2
  have h1 (K' : Licence) : Acts K' m m1 := by
    unfold m1
    split
    · exact .retireRecoverAndEscalate m now
    · exact .refl m
  have h2 : Retransmits K now m m2 := after h1 (statusTick hK m1 now)
  refine h2.trans ?_
  split
  · exact ((Acts.repairTimeouts m2 now).trans (.syncTimeouts _ now)).trans
      (.learnerStatusTimeouts _ now)
  · exact .refl m2

end Retransmits

end Node

end Viewstamp
