import Viewstamp.StateSync

/- What a storage completion sets in motion: an append that lands casts the vote
   it owes, a root that lands releases what waited for it, a checkpoint moves from
   its blocks to its envelope to its root. -/
namespace Viewstamp

namespace Node

variable {S : Type}

def pruneFloor (n : Node S) : OpNumber := min n.checkpointOp n.quorumCheckpointOp

/-! ## Checkpoint stages -/

/-- Write the envelope of the pending checkpoint; on the fence the checkpoint is dropped. -/
def submitEnvelope (n : Node S) (pc : PendingCheckpoint) (dag : CheckpointDag) (snapshot : Bytes) :
    Node S × Bool :=
  if n.panicked then (n, false)
  else
    let id := n.nextId
    match n.storage.submitCheckpoint id pc.targetOp snapshot with
    | none => ({ n.mintId with pendingCheckpoint := none }, false)
    | some storage =>
      ({ n.mintId with
        storage := storage
        pendingCheckpoint := some { pc with step := .awaitSnapshot id dag } }, true)

/-- The image of an ordinary checkpoint is in the block store, or its flush failed. -/
def onCheckpointMaterialized (n : Node S) (job : OpId) (smRoot sessionsRoot : BlockAddress)
    (flushed : Bool) : Node S :=
  match n.pendingCheckpoint with
  | none => n
  | some pc =>
    if pc.step ≠ .flushingBlocks job then n
    else if !flushed then { n with pendingCheckpoint := none }
    else
      let envelope := encodeCheckpoint pc.targetOp smRoot sessionsRoot
      (n.submitEnvelope pc ⟨checkpointId envelope, smRoot, sessionsRoot⟩ envelope).1

def armOwedInstallCadence (n : Node S) (now : Instant) : Node S :=
  if n.status = .recovering then
    { n with timers := { n.timers with
        recoverRetry := sooner n.timers.recoverRetry (now + recoverReadRetransmit) } }
  else { n with timers := { n.timers with syncSolicit := some (now + syncSolicit) } }

/-- The blocks of a fetched checkpoint are durable, or their flush failed. -/
def onCheckpointBlocksFlushed (n : Node S) (now : Instant) (job : OpId) (flushed : Bool) : Node S :=
  match n.pendingCheckpoint with
  | none => n
  | some pc =>
    if pc.step ≠ .flushingBlocks job then n
    else
      match n.pendingInstall with
      | none => { n with pendingCheckpoint := none }
      | some install =>
        if !flushed then { n with pendingCheckpoint := none }.armOwedInstallCadence now
        else
          let dag : CheckpointDag :=
            ⟨install.checkpoint.checkpointId, install.smRoot, install.sessionsRoot⟩
          match n.submitEnvelope pc dag install.checkpoint.snapshot with
          | (n, false) => n.armOwedInstallCadence now
          | (n, true) =>
            let n := { n with timers := { n.timers with syncSolicit := some (now + syncSolicit) } }
            if n.status = .recovering || n.status = .recoveringHead then
              n.retireRecoverForStagedSync
            else n

/-! ## Pruning -/

def dropSubsumedAppend (n : Node S) (op : OpNumber) : Node S :=
  let n := { n with deferredAppends := n.deferredAppends.erase op }
  if n.pending.values.any fun p => p.op == op then n
  else { n with appending := n.appending.erase op }

/-- Free the log and the WAL below a durable checkpoint. A primary keeps what a quorum has not
checkpointed yet. -/
def runGc (n : Node S) : Node S :=
  let floor := if n.isPrimary then n.pruneFloor else n.checkpointOp
  if floor = 0 then n
  else
    let (n, cancelled) := n.pruneWal (floor + 1)
    let n := { n with walPruned := max n.walPruned floor }
    let subsumed := (n.deferredAppends.filter fun op _ => decide (op ≤ floor)).keys
    let n := (subsumed.foldl dropSubsumedAppend n).absorbWalCancellations cancelled
    let n := n.trimLogToCheckpoint floor n.checkpointOp
    { n with
      inflight := n.inflight.filter fun op _ => decide (floor < op)
      buffer := n.buffer.filter fun op _ => decide (floor < op) }

/-! ## WAL completions -/

def resubmitCancelledAppend (n : Node S) (kind : Pending) : Node S :=
  let entry := match kind with
    | .repairFill _ e => some e
    | _ => n.log.get? kind.op
  match entry with
  | none => n
  | some e =>
    match e.bodyBytes with
    | none => n
    | some body =>
      let n := n.submitOrDeferAppend kind.op
        (.ofBody kind.op n.view e.client e.request body) body kind
      { n with appending := n.appending.add kind.op }

def releaseFreed (n : Node S) : Option OpNumber → Node S
  | some op => n.releaseDeferredAppend op
  | none => n

/-- The device gave up an append of this incarnation. -/
def onAppendCancelled (n : Node S) (id : OpId) : Node S :=
  match n.pending.get? id.seq with
  | none => n
  | some p =>
    let n := { n with pending := n.pending.erase id.seq }
    if n.op < p.op || p.op ≤ n.walPruned then
      if n.deferredAppends.contains p.op then n
      else { n with appending := n.appending.erase p.op }
    else { n with appending := n.appending.erase p.op }.resubmitCancelledAppend p

variable [StateMachine S]

/-- Pay what a landed append owes. -/
def settleAppend (n : Node S) (now : Instant) : Pending → Node S × CommitFlow
  | .ack op =>
    if n.isPrimary then (n.recordOwnVote op).tryCommit now else (n.sendPrepareOk op, .proceed)
  | .adoptVote op => (n.recordOwnVote op).tryCommit now
  | .adoptAck op => (n.sendPrepareOk op, .proceed)
  | .repairFill op e =>
    let n := { n with log := n.log.insert op e, repair := n.repair.erase op }.clearIdleRepairRetry
    let n := { n with nackFrom := n.nackFrom.erase op }
    if n.commitMax < op && n.isPrimary && n.inflight.contains op then
      (n.recordOwnVote op).tryCommit now
    else n.advanceCommit now n.commitMax

/-- An append of this incarnation is durable. -/
def onAppended (n : Node S) (now : Instant) (id : OpId) (freed : Option OpNumber) : Node S :=
  match n.pending.get? id.seq with
  | none => n.releaseFreed freed
  | some p =>
    let n := { n with pending := n.pending.erase id.seq, appending := n.appending.erase p.op }
    match n.settleAppend now p with
    | (n, .enteredRecovery) => n
    | (n, .proceed) => n.releaseFreed freed

/-- `on_wal_done`: `freed` is the op whose slot the completion frees. -/
def onWalDone (n : Node S) (now : Instant) (done : WalDone) (freed : Option OpNumber) : Node S :=
  if n.isForeignCompletion done.id then n.releaseFreed freed
  else if n.status = .recovering || n.status = .recoveringHead then
    match done, freed with
    | .appended _, some op | .cancelled _, some op => n.releaseDeferredAppend op
    | done, _ => n.onRecoverWalDone now done
  else if n.status = .retired then n
  else
    match done with
    | .appended id => n.onAppended now id freed
    | .cancelled id => (n.onAppendCancelled id).releaseFreed freed
    | _ => n

/-! ## Superblock completions -/

/-- A root nobody waits for proves its commit and its checkpoint; the node may owe a recovery. -/
def absorbUncorrelatedRoot (n : Node S) (now : Instant) (role : RootRole) (id : OpId)
    (state : VsrState) : Node S :=
  let commitProven := role = .checkpoint || id.incarnation ≠ n.incarnation
  let n := if commitProven && n.status ≠ .recovering && n.status ≠ .recoveringHead then
      { n with commitMax := max n.commitMax state.commit } else n
  if state.checkpointOp ≤ n.checkpointOp then n
  else
    let raised (owed : Option OpNumber) : OpNumber :=
      match owed with
      | some f => max f state.checkpointOp
      | none => state.checkpointOp
    let n := { n with inheritedFrontier := some (raised n.inheritedFrontier) }
    let n := if role = .checkpoint && n.commitMin < state.checkpointOp then
        { n with repersistOrphan := some (raised n.repersistOrphan) } else n
    (n.maybeAdoptInheritedFrontier.maybeEnterOrphanRepersistRecovery now).1

/-- A root reached the medium. -/
def onRootLanded (n : Node S) (now : Instant) (e : RootEntry) : Node S :=
  let n := { n with durableView := max n.durableView e.state.view }
  let n := n.adoptLandedConfiguration now e.state
  let correlated := n.pendingSb.any (fun p => p.1 = e.id)
    || n.pendingCheckpoint.any fun pc => pc.step.writeId = some e.id
  if correlated then n else n.absorbUncorrelatedRoot now e.role e.id e.state

/-- The successor configuration is durable: install it and checkpoint its producing op. -/
def finishSwap (n : Node S) (now : Instant) (swap : EpochSwap) : Node S :=
  let n : Node S := { n with pendingSwap := none }
  let n := { n.installMembership now (some swap.op) swap.successor with crossEpochIntent := none }
  if n.status = .normal && !n.smReconstructOwed && n.pendingInstall.isNone then n.forceCheckpoint
  else n

/-- Release what waited for the durable view. -/
def releasePendingSb (n : Node S) (now : Instant) (action : PendingSbAction) : Node S :=
  let n := { n with pendingSb := none, durableView := n.view }
  let n := match action with
    | .sendDoViewChange => n.sendDoViewChange
    | .startViewAsPrimary => (n.startViewParticipate now).retryUnappendedAdoptedTail
    | .adoptedStartView => n.startViewAcks
    | .sealed => n
    | .swapEpoch swap => n.finishSwap now swap
  n.maybeSwapEpoch

/-- The root a written envelope is followed by. -/
def checkpointRoot (n : Node S) (pc : PendingCheckpoint) (dag : CheckpointDag) :
    Except VsrStateError VsrState :=
  let commit := max n.commitMax pc.targetOp
  let headers := n.committedBandHeaders pc.targetOp
  let effective := n.storage.effectiveRoot
  let ordinary :=
    n.durableRoot effective n.view n.logView commit pc.targetOp dag.checkpointId headers
  match pc.kind, n.pendingInstall with
  | .syncRepersist, some install =>
    match install.successor with
    | none => ordinary
    | some successor =>
      if successor.epoch ≤ effective.epoch then ordinary
      else
        match install.successorInstallOp with
        | some installOp =>
          n.durableRootWithSuccessor n.view n.logView commit pc.targetOp dag.checkpointId headers
            successor install.successorPrevConfigId installOp
        -- the `expect` of the source: a crossing install always carries its producing op
        | none => .error (.membershipEpochMismatch effective.epoch successor.epoch)
  | _, _ => ordinary

/-- The checkpoint is the durable root. -/
def checkpointRooted (n : Node S) (now : Instant) (pc : PendingCheckpoint) (dag : CheckpointDag) :
    Node S :=
  let n := { n with
    pendingCheckpoint := none
    checkpointSmRoot := some dag.smRoot
    checkpointSessionsRoot := some dag.sessionsRoot }
  match pc.kind with
  | .syncRepersist =>
    match n.pendingInstall with
    | some install => { n with pendingInstall := none }.installSync now install
    | none => ((n.completeStateSync now).retryUnappendedAdoptedTail).maybeSwapEpoch
  | .ordinary =>
    let n := (n.advanceCheckpointOp pc.targetOp).event (.checkpointDurable pc.targetOp)
    (n.runGc.gcBlocks.retryUnappendedAdoptedTail).maybeSwapEpoch

def onCheckpointWrote (n : Node S) (now : Instant) (id : OpId) : Node S :=
  match n.pendingCheckpoint with
  | none => n.maybeSwapEpoch
  | some pc =>
    match pc.step with
    | .awaitSnapshot sid dag =>
      if sid = id then
        let root := n.nextId
        let n := n.submitRoot .checkpoint (n.checkpointRoot pc dag)
        { n with pendingCheckpoint := some { pc with step := .awaitRoot root dag } }.maybeSwapEpoch
      else n.maybeSwapEpoch
    | .awaitRoot rid dag => if rid = id then n.checkpointRooted now pc dag else n.maybeSwapEpoch
    | .flushingBlocks _ => n.maybeSwapEpoch

/-- `on_sb_done`: `landed` is the root the completion made durable. -/
def onSbDone (n : Node S) (now : Instant) (done : SuperblockDone) (landed : Option RootEntry) :
    Node S :=
  let n := match landed with
    | some e => n.onRootLanded now e
    | none => n
  if n.isForeignCompletion done.id then n
  else
    let stagedWrite := match done with
      | .wrote id => n.pendingCheckpoint.any fun pc => pc.step.writeId = some id
      | _ => false
    if (n.status = .recovering || n.status = .recoveringHead) && !stagedWrite then
      n.onRecoverSbDone done
    else
      match done with
      | .checkpointRead id op snapshot => n.serveSyncCheckpoint id op snapshot
      | .fault id => { n with syncServing := n.syncServing.filter fun s => s.2.read ≠ id.seq }
      | .wrote id =>
        match n.pendingSb with
        | some (pid, action) =>
          if pid = id then n.releasePendingSb now action else n.onCheckpointWrote now id
        | none => n.onCheckpointWrote now id

end Node

end Viewstamp
