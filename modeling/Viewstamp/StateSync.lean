import Viewstamp.Recovery

/- State sync: taking a donor's checkpoint, walking its blocks across, making it
   durable, and installing it, with the epoch crossing it may carry. A recovery
   that has lost its own checkpoint runs the same transfer. -/
namespace Viewstamp

namespace Core

/-- The successor configuration a checkpoint carries; the outer `none` refuses the checkpoint. -/
def crossingSuccessor (n : Core) (m : SyncCheckpoint) :
    Option (Option (Membership × Checksum × OpNumber)) :=
  if !n.checkpointPresentsCrossing m then some none
  else
    match ReconfigurePayload.decodeBody m.membership with
    | none => none
    | some payload =>
      match payload.toMembershipVerified m.epoch m.configId with
      | .error _ => none
      | .ok successor =>
        let effective := n.storage.effectiveRoot
        let belowTimeline := decide (successor.epoch < effective.epoch)
          || (successor.epoch == effective.epoch &&
              effective.membership.any fun cur => cur.configId != successor.configId)
        if successor.epoch ≤ n.membership.epoch || belowTimeline then none
        else
          match m.configInstallOp with
          | none => none
          | some installOp =>
            if m.checkpointOp < installOp
                || (effective.membership.isSome && decide (installOp < effective.configInstallOp))
            then none
            else some (some (successor, payload.prevConfigId, installOp))

end Core

namespace Node

variable {S : Type}

def isRecoveringFromPeer (n : Node S) : Bool := n.status == .recovering && n.awaitingPeerCheckpoint

def gcBlocks (n : Node S) : Node S :=
  if n.checkpointSmRoot.isNone && n.checkpointSessionsRoot.isNone && n.blockFetch.isNone
      && n.pendingInstall.isNone then n
  else n.issueBlockJob .gc

/-! ## Restoring the service from an installed checkpoint -/

def issueSmRestore (n : Node S) : Node S :=
  match n.smReconstruct with
  | none => n
  | some recon =>
    if recon.restore.isSome || n.restoreOwed then n
    else
      let id := n.nextId
      { n.issueBlockJob (.restore recon.smRoot recon.sessionsRoot .syncedCheckpoint) with
        smReconstruct := some { recon with restore := some id } }

def retrySmReconstruct (n : Node S) : Node S := n.issueSmRestore

/-- Fetch the blocks of the installed checkpoint again. -/
def rearmSmReconstructRetry (n : Node S) (now : Instant) (retry : Bool) : Node S :=
  match n.smReconstruct with
  | none => n
  | some recon =>
    if n.transferWalkInFlight then n
    else
      let n := n.pinBlockFetch recon.donor recon.checkpoint recon.smRoot recon.sessionsRoot
        (.rearm retry)
      if n.status = .recovering then
        let r := n.recover.getD {}
        { n with recover := some { r with awaitingPeerCheckpoint := true } }.armTimers now
      else { n with timers := { n.timers with syncSolicit := some (now + syncSolicit) } }

def refetchSmReconstruct (n : Node S) (now : Instant) (sender : Peer) (m : SyncCheckpoint) :
    Node S :=
  if sender matches .client _ then n
  else if n.transferWalkInFlight then n.deferPinUntilWalkCompletes sender m
  else
    let recon := n.smReconstruct.map fun recon => { recon with donor := sender, checkpoint := m }
    { n with smReconstruct := recon }.rearmSmReconstructRetry now true

/-! ## Staging an install -/

def cancelSync (n : Node S) : Node S :=
  { n with
    sync := none
    blockFetch := none
    pendingInstall := none
    timers := { n.timers with syncSolicit := none } }

/-- Stage a fetched checkpoint whose blocks are all here. -/
def stageInstall (n : Node S) (now : Instant) (donor : Peer) (m : SyncCheckpoint) : Node S :=
  if m.checkpointOp < n.storage.effectiveRoot.checkpointOp then n
  else
    match decodeCheckpoint m.snapshot with
    | none => n
    | some (boundOp, smRoot, sessionsRoot) =>
      if boundOp ≠ m.checkpointOp then n
      else
        match n.crossingSuccessor m with
        | none => n
        | some successor =>
          if successor.isNone && n.sync.any (·.requireCrossEpoch) then n
          else
            let install : PendingInstall :=
              { checkpointOp := m.checkpointOp
                sessionsRoot, smRoot
                heldTail := successor.isNone && decide (m.checkpointOp < n.op)
                successor := successor.map Prod.fst
                successorPrevConfigId := successor.map (·.2.1)
                successorInstallOp := successor.map (·.2.2)
                checkpoint := m
                donor }
            { n with pendingInstall := some install }.flushAndStageInstall now

def applySync (n : Node S) (now : Instant) (donor : Peer) (m : SyncCheckpoint) : Node S :=
  if n.sync.any (·.forced) then
    if m.checkpointOp < n.commitMin then
      if n.sync.any (·.requireCrossEpoch) then n else n.cancelSync
    else n.stageInstall now donor m
  else (n.assert (decide (n.op < m.checkpointOp))).stageInstall now donor m

/-! ## Installing -/

/-- The epoch crossing of an install. -/
def installCrossing (n : Node S) (now : Instant) (install : PendingInstall) : Node S :=
  match install.successor with
  | none => n
  | some successor =>
    let n := { n with
      crossEpochIntent := none
      quarantinedDonor := none
      quarantineProbeDeadline := none }
    let n :=
      if n.membership.epoch < successor.epoch then
        let ownPrior := n.membership.configId
        let n := n.installMembership now none successor
        let n := { n with prevEpoch := n.membership.epoch - 1 }
        let n := match install.successorPrevConfigId with
          | some verifiedPrev => if verifiedPrev ≠ ownPrior then n.pushLineage verifiedPrev else n
          | none => n
        match install.successorInstallOp with
        | some op => { n with configInstallOp := op }
        | none => n.panic
      else n
    let n := { n with pendingSwap := none }
    match n.pendingSb with
    | some (_, .swapEpoch _) => n.abandonPendingSb
    | _ => n

/-- The synced checkpoint is the durable root: move the node onto it. -/
def installSync (n : Node S) (now : Instant) (install : PendingInstall) : Node S :=
  let cp := install.checkpointOp
  let n := n.setCommitMin cp
  let n := { n with commitMax := max n.commitMax cp }
  let n := if install.heldTail then n else { n with op := cp, commitMax := cp }
  let n := (n.installCrossing now install).advanceCheckpointOp cp
  let n := n.trimLogToCheckpoint cp n.checkpointOp
  let n := { n with
    inflight := .empty
    buffer := .empty
    repair := n.repair.filter fun op _ => decide (cp < op) }.clearIdleRepairRetry
  let recon : SmReconstruct :=
    { checkpointOp := cp, smRoot := install.smRoot, sessionsRoot := install.sessionsRoot
      checkpoint := install.checkpoint, donor := install.donor, restore := none }
  { n with
    pending := .empty
    appending := .empty
    deferredAppends := .empty
    smReconstruct := some recon }.issueSmRestore

variable [StateMachine S]

/-- The sync is over: rejoin, or resume the intent that is still owed. -/
def completeStateSync (n : Node S) (now : Instant) : Node S :=
  let n := n.gcBlocks.event (.stateSyncCompleted n.checkpointOp)
  let n := { n with
    sync := none
    blockFetch := none
    timers := { n.timers with syncSolicit := none } }
  let resumeIntent (n : Node S) : Node S :=
    match n.crossEpochIntent with
    | some intent => if n.status = .normal then n.armSync now intent true true else n
    | none => n
  if n.status = .recovering then
    let carried := n.syncCarriedFaulty.filter fun op _ => decide (n.checkpointOp < op)
    let n := { n with syncCarriedFaulty := .empty }
    if OpSet.has carried n.op then
      let n := { n with recover := some { faulty := carried } }.setStatus .recoveringHead
      (n.armTimers now).sendRecovery now
    else resumeIntent (n.completeRecovery now)
  else resumeIntent (n.armTimers now)

/-- The service image of an installed checkpoint is loaded, or could not be. -/
def onSmRestored (n : Node S) (now : Instant) (result : Option (S × OrdMap ClientId Session)) :
    Node S :=
  match n.smReconstruct with
  | none => n
  | some recon =>
    let n := { n with smReconstruct := some { recon with restore := none } }
    match result with
    | none => n.rearmSmReconstructRetry now false
    | some (sm, clients) =>
      let n := { n with sm := sm, clients := clients, smReconstruct := none
        }.noteSmRestored recon.checkpointOp
      let (n, cancelled) := n.truncateWal n.op
      let n := n.absorbWalCancellations cancelled
      let (n, cancelled) := n.pruneWal recon.checkpointOp
      let n := { n with walPruned := max n.walPruned (recon.checkpointOp - 1) }
      let n := n.absorbWalCancellations cancelled
      ((n.completeStateSync now).retryUnappendedAdoptedTail).maybeSwapEpoch

omit [StateMachine S]

/-! ## The transfer -/

def completeRecoverPeerFetch (n : Node S) (now : Instant) (donor : Peer) (m : SyncCheckpoint) :
    Node S :=
  let n := n.assert (n.recover.all fun r => r.settled && r.absent.isEmpty)
  n.finalizeRecovery.applySync now donor m

/-- Every block is here. -/
def onFetchDrained (n : Node S) (now : Instant) : Node S :=
  if n.pendingSb.isSome || n.pendingCheckpoint.isSome then n
  else
    match n.blockFetch with
    | none => n
    | some bf =>
      let sameCheckpointRetry := n.smReconstructOwed && bf.checkpoint.checkpointOp == n.checkpointOp
      let n := { n with blockFetch := none }
      if sameCheckpointRetry then n.retrySmReconstruct
      else if n.isRecoveringFromPeer then n.completeRecoverPeerFetch now bf.donor bf.checkpoint
      else n.applySync now bf.donor bf.checkpoint

def requestBlockFrom (n : Node S) (donor : Peer) (addr : BlockAddress) : Node S :=
  n.emit (.toPeer donor) (.requestBlock addr)

def onResponseWalked (n : Node S) (now : Instant) (sender : Peer) (addr : BlockAddress)
    (present : Bool) (next : Option BlockAddress) : Node S :=
  match n.blockFetch with
  | none => n
  | some bf =>
    match next with
    | none => n.onFetchDrained now
    | some front =>
      if present then
        let n := n.requestBlockFrom bf.donor front
        { n with timers := { n.timers with syncSolicit := some (now + syncSolicit) } }
      else if addr ≠ front || sender ≠ bf.donor then n
      else if bf.resolicitedFront = some front then n
      else { n with blockFetch := some { bf with resolicitedFront := some front }
        }.sendRequestSync now

/-- A walk is back: `next` is `none` when the walk gave up, else the first missing block. -/
def onWalked (n : Node S) (now : Instant) (job : OpId) (purpose : WalkPurpose) (accepted : Bool)
    (next : Option (Option BlockAddress)) : Node S :=
  match purpose with
  | .recoverProbe c => n.onRecoverProbeWalked job c next
  | purpose =>
    match n.blockFetch with
    | none => n
    | some bf =>
      if bf.walks ≠ .inFlight job then n
      else
        let n := { n with
          blockFetch := some { bf with walks := .idle }
          syncFetchProgress := if accepted && bf.crossingAnswered then
            (n.syncFetchProgress + 1) % 2 ^ 64 else n.syncFetchProgress }
        match next with
        | none => { n with blockFetch := none }
        | some next =>
          match purpose, next with
          | .response sender addr present, next => n.onResponseWalked now sender addr present next
          | _, some addr => n.requestBlockFrom bf.donor addr
          | .rearm retry, none =>
            let n := { n with blockFetch := none }
            if retry then n.retrySmReconstruct else n
          | _, none => n.onFetchDrained now

def onBlockResponse (n : Node S) (sender : Peer) (m : BlockResponse) : Node S :=
  if n.status ≠ .normal && !n.isRecoveringFromPeer then n
  else if n.sync.isNone then n
  else if n.pendingSb.isSome || n.pendingCheckpoint.isSome then n
  else
    n.issueWalk (.response sender m.addr m.block.isSome)
      (m.block.map fun bytes => (m.addr, bytes))

def beginBlockSync (n : Node S) (now : Instant) (sender : Peer) (m : SyncCheckpoint) : Node S :=
  match decodeCheckpoint m.snapshot with
  | none => n
  | some (_, smRoot, sessionsRoot) =>
    if sender matches .client _ then n
    else if n.transferWalkInFlight then n.deferPinUntilWalkCompletes sender m
    else if n.crossingAnswerInFlight && !n.checkpointPresentsCrossing m then n
    else
      let n := n.pinBlockFetch sender m smRoot sessionsRoot .arm
      { n with timers := { n.timers with syncSolicit := some (now + syncSolicit) } }

def beginRecoverBlockSync (n : Node S) (now : Instant) (sender : Peer) (m : SyncCheckpoint)
    (smRoot sessionsRoot : BlockAddress) : Node S :=
  if sender matches .client _ then { n with blockFetch := none }
  else if n.transferWalkInFlight then n.deferPinUntilWalkCompletes sender m
  else if n.crossingAnswerInFlight && !n.checkpointPresentsCrossing m then n
  else (n.pinBlockFetch sender m smRoot sessionsRoot .arm).armTimers now

/-- A checkpoint offer while in normal operation. -/
def handleSyncCheckpoint (n : Node S) (now : Instant) (sender : Peer) (m : SyncCheckpoint) :
    Node S :=
  if n.status ≠ .normal then n
  else
    match n.sync with
    | none => n
    | some s =>
      if m.nonce ≠ s.nonce then n
      else if n.pendingSb.isSome || n.pendingCheckpoint.isSome then n
      else if n.smReconstructOwed && n.pendingInstall.isNone
          && m.checkpointOp == n.checkpointOp then
        if checkpointId m.snapshot ≠ m.checkpointId then n else n.refetchSmReconstruct now sender m
      else if m.checkpointOp < s.target && !s.requireCrossEpoch then n
      else if !s.forced && m.checkpointOp ≤ n.op then n
      else if m.checkpointOp ≤ n.checkpointOp then n
      else if checkpointId m.snapshot ≠ m.checkpointId then n
      else if !s.requireCrossEpoch && !n.smReconstructOwed && n.mustAbdicate then
        (n.deferForfeit now).cancelSync
      else n.beginBlockSync now sender m

/-- A checkpoint offer while recovering from a peer. -/
def onRecoverSyncCheckpoint (n : Node S) (now : Instant) (sender : Peer) (m : SyncCheckpoint) :
    Node S :=
  match n.sync with
  | none => n
  | some s =>
    if m.nonce ≠ s.nonce then n
    else if n.pendingSb.isSome || n.pendingCheckpoint.isSome then n
    else if n.recover.any (fun r => !r.pending.isEmpty || !r.absent.isEmpty) then n
    else if m.checkpointOp < n.checkpointOp then n
    else if m.checkpointOp < s.target && !s.requireCrossEpoch then n
    else if checkpointId m.snapshot ≠ m.checkpointId then n
    else if n.smReconstructOwed && n.pendingInstall.isNone && m.checkpointOp == n.checkpointOp then
      n.refetchSmReconstruct now sender m
    else
      match decodeCheckpoint m.snapshot with
      | none => n
      | some (boundOp, smRoot, sessionsRoot) =>
        if boundOp ≠ m.checkpointOp then n
        else n.beginRecoverBlockSync now sender m smRoot sessionsRoot

/-! ## Timers -/

def syncTimeouts (n : Node S) (now : Instant) : Node S :=
  if !timerDue n.timers.syncSolicit now then n
  else if n.sync.isNone then { n with timers := { n.timers with syncSolicit := none } }
  else ((n.retryInstallFlush now).sendRequestBlock now).sendRequestSync now

def clearQuarantineProbe (n : Node S) : Node S :=
  { n with
    quarantinedDonor := none
    quarantineProbeDeadline := none
    quarantineProbeProgressMark := 0 }

/-- Give up a cross-epoch probe that made no progress; `true` when it was given up. -/
def advanceQuarantineProbe (n : Node S) (now : Instant) : Node S × Bool :=
  if !timerDue n.quarantineProbeDeadline now then (n, false)
  else if !n.sync.any (·.requireCrossEpoch) then (n.clearQuarantineProbe, false)
  else if n.recover.any (fun r => !r.checkpointReads.isEmpty) then
    (n.refreshQuarantineProbe now, false)
  else if n.pendingInstall.isSome || n.smReconstructOwed then (n.refreshQuarantineProbe now, false)
  else if n.crossingAnswerInFlight && n.syncFetchProgress != n.quarantineProbeProgressMark then
    (n.refreshQuarantineProbe now, false)
  else
    ({ n.clearQuarantineProbe with
      sync := none
      crossEpochIntent := none
      blockFetch := none
      timers := { n.timers with syncSolicit := none } }, true)

end Node

end Viewstamp
