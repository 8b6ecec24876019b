import Viewstamp.ViewChange

/- Recovery: reading the tail of the WAL back after a restart, judging every slot
   against the durable root, restoring the checkpoint from disk or from a peer,
   and rejoining the cluster.

   A slot that does not verify is either kept as a header (its content is known
   but must be fetched) or dropped as faulty. A faulty head cannot be told from a
   lost acknowledged op, so the node then asks its peers for the head. -/
namespace Viewstamp

/-! ## Judging a slot -/

inductive SlotVerdict where
  | verified
  | staleCommitted
  deriving DecidableEq

/-- Compare what a slot holds with what the durable root says the op is. -/
def classifyCommittedSlot (slotIdentity : ClientId × RequestNumber × Checksum)
    (canonical : Option (ClientId × RequestNumber × Checksum)) (op : OpNumber) (slotView : View)
    (durableCommit : OpNumber) (durableLogView : View) : SlotVerdict :=
  match canonical with
  | some canonical => if canonical ≠ slotIdentity then .staleCommitted else .verified
  | none =>
    if op ≤ durableCommit then .staleCommitted
    else if slotView < durableLogView then .staleCommitted
    else .verified

def Header.slotIdentity (h : Header) : ClientId × RequestNumber × Checksum :=
  (h.client, h.request, h.bodyChecksum)

/-! ## The checkpoint envelope -/

def encodeCheckpoint (op : OpNumber) (smRoot sessionsRoot : BlockAddress) : Bytes :=
  beBytes 8 op ++ beBytes 16 smRoot ++ beBytes 16 sessionsRoot

def decodeCheckpoint (env : Bytes) : Option (OpNumber × BlockAddress × BlockAddress) :=
  if env.length < 40 then none
  else some (ofBeBytes (env.take 8), ofBeBytes ((env.drop 8).take 16),
    ofBeBytes ((env.drop 24).take 16))

namespace RecoverState

def settled (r : RecoverState) : Bool :=
  r.pending.isEmpty && r.reads.isEmpty && r.checkpointReads.isEmpty

/-- No read of `op` is awaited any more. -/
def resolve (r : RecoverState) (op : OpNumber) : RecoverState :=
  { r with reads := r.reads.filter fun _ o => decide (o ≠ op), pending := r.pending.erase op }

def dropRead (r : RecoverState) (seq : Nat) : RecoverState := { r with reads := r.reads.erase seq }

def clearFaulty (r : RecoverState) (op : OpNumber) : RecoverState :=
  { r with faulty := r.faulty.erase op }

def markFaulty (r : RecoverState) (op : OpNumber) : RecoverState :=
  { r with faulty := r.faulty.add op }

def markAbsent (r : RecoverState) (op : OpNumber) : RecoverState :=
  { r with absent := r.absent.add op }

/-- A restored checkpoint settles every question at or below it. -/
def dropBelow (r : RecoverState) (floor : OpNumber) : RecoverState :=
  { r with
    canonical := r.canonical.filter fun op _ => decide (floor < op)
    faulty := r.faulty.filter fun op _ => decide (floor < op)
    pending := r.pending.filter fun op _ => decide (floor < op)
    reads := r.reads.filter fun _ op => decide (floor < op) }

end RecoverState

/-- What a read of one slot settles. -/
inductive ReadOutcome where
  | verified (client : ClientId) (request : RequestNumber) (body : Bytes)
  | keepRepairing (client : ClientId) (request : RequestNumber) (bodyChecksum : Checksum)
  | staleCommitted
  | fault
  | absent
  deriving DecidableEq

namespace Core

def checkpointPresentsCrossing (n : Core) (m : SyncCheckpoint) : Bool :=
  m.configId != n.membership.configId && !m.membership.isEmpty

/-- The pristine primary of view zero may serve at once; any other recovered primary must not. -/
def pristineGenesis (n : Core) (formatted : Bool) : Bool :=
  formatted && n.view == 0 && n.op == 0 && n.commitMax == 0

/-- The verdict on a completed read of `op`. -/
def readOutcome (n : Core) (r : RecoverState) (op : OpNumber) (done : WalDone) : ReadOutcome :=
  let classify (h : Header) (ok : ReadOutcome) : ReadOutcome :=
    match classifyCommittedSlot h.slotIdentity (r.canonical.get? op) op h.view n.commitMax
        n.logView with
    | .staleCommitted => .staleCommitted
    | .verified => ok
  match done with
  | .readOk _ h body =>
    if h.op = op && h.verify body then classify h (.verified h.client h.request body) else .fault
  | .bodyFaulty _ h =>
    if h.op = op && h.verifyHeader then
      classify h (.keepRepairing h.client h.request h.bodyChecksum)
    else .fault
  | .absent _ =>
    match r.canonical.get? op with
    | some (client, request, bodyChecksum) => .keepRepairing client request bodyChecksum
    | none => .absent
  | _ => .fault

end Core

namespace Node

variable {S : Type}

def faultyOps (n : Node S) : List OpNumber :=
  match n.recover with
  | some r => r.faulty.keys
  | none => []

/-- What the header index still says about a slot whose body could not be read. -/
def inflightTailRepairingIdentity (n : Node S) (op : OpNumber) :
    Option (ClientId × RequestNumber × Checksum) :=
  let canonical := n.recover.bind fun r => r.canonical.get? op
  match n.storage.header op with
  | none => canonical
  | some h =>
    if !h.verifyHeader then canonical
    else if h.op = op && classifyCommittedSlot h.slotIdentity canonical op h.view n.commitMax
        n.logView = .verified then some h.slotIdentity
    else none

/-- Enough co-recovering voters of a fresh epoch may form a view without the lost head. -/
def mayEscalateReformation (n : Node S) (slot : ReplicaId) (reformAttempts : Nat)
    (freshCorecovering : Finset ReplicaId) (committedBandIntact : Bool) : Bool :=
  decide (1 < n.membership.replicaCount) && n.membership.isVoter slot
    && decide (n.prevEpoch < n.membership.epoch) && committedBandIntact
    && decide (recoverHeadReformAttempts ≤ reformAttempts)
    && decide (n.membership.quorum - 1 ≤ freshCorecovering.card)

/-! ## Pieces of state sync a recovery uses -/

def carryResolicitLatch (n : Node S) (smRoot sessionsRoot : BlockAddress) : Option BlockAddress :=
  n.blockFetch.bind fun prev =>
    if prev.smRoot = smRoot && prev.sessionsRoot = sessionsRoot then prev.resolicitedFront else none

/-- Pin a donor's checkpoint and start walking its blocks. -/
def pinBlockFetch (n : Node S) (donor : Peer) (m : SyncCheckpoint)
    (smRoot sessionsRoot : BlockAddress) (purpose : WalkPurpose) : Node S :=
  let fetch : BlockFetch :=
    { checkpoint := m, smRoot, sessionsRoot, donor, walks := .idle
      crossingAnswered := n.checkpointPresentsCrossing m
      resolicitedFront := n.carryResolicitLatch smRoot sessionsRoot }
  { n with blockFetch := some fetch }.issueWalk purpose none

/-- Make the blocks of a fetched checkpoint durable before its envelope is written. -/
def flushAndStageInstall (n : Node S) (now : Instant) : Node S :=
  match n.pendingInstall with
  | none => n
  | some install =>
    if n.pendingSb.isSome || n.pendingCheckpoint.isSome then n
    else if !n.storage.checkpoints.isEmpty then n
    else if n.flushOwed then n
    else
      let job := n.nextId
      { n.issueBlockJob (.flush install.smRoot install.sessionsRoot) with
        pendingCheckpoint := some ⟨install.checkpointOp, .flushingBlocks job, .syncRepersist⟩
        blockFetch := none
        timers := { n.timers with syncSolicit := some (now + syncSolicit) } }

def retryInstallFlush (n : Node S) (now : Instant) : Node S := n.flushAndStageInstall now

def sendRequestBlock (n : Node S) (now : Instant) : Node S :=
  if n.sync.isNone then n
  else
    let n := n.issueWalk .arq none
    if n.status = .normal then
      { n with timers := { n.timers with syncSolicit := some (now + syncSolicit) } }
    else n

def sendRecovery (n : Node S) (now : Instant) : Node S :=
  n.withLocalSlot fun slot =>
    let n := n.emit .backups (.recovery ⟨slot, n.nonce, n.membership.epoch, n.membership.configId⟩)
    { n with timers := { n.timers with recoverHead := some (now + recoverHeadSolicit) } }

def trimLogToCheckpoint (n : Node S) (floor checkpointFloor : OpNumber) : Node S :=
  let n := n.assertCommittedSurvives floor checkpointFloor
  { n with log := n.log.filter fun op _ => decide (floor < op) }

def noteSmRestored (n : Node S) (op : OpNumber) : Node S := { n with smAt := op }

/-! ## Fetching the checkpoint from a peer -/

def escalateCheckpointToPeerFetch (n : Node S) (now : Instant) (target : OpNumber)
    (requireCrossEpoch : Bool) : Node S :=
  let n := n.assert (n.recover.all (·.checkpointReads.isEmpty))
  let n := n.mapRecover fun r => { r with checkpoint := none, awaitingPeerCheckpoint := true }
  let n := if n.sync.isNone then n.armSync now target true requireCrossEpoch
    else n.sendRequestSync now
  n.armTimers now

/-- Leave everything for a recovery that can only end with a checkpoint of a newer epoch. -/
def enterCrossEpochPeerFetch (n : Node S) (now : Instant) (checkpoint : OpNumber) : Node S :=
  if n.awaitingPeerCheckpoint then n
  else if n.recover.any (fun r => !r.pending.isEmpty || r.checkpoint.isSome) then n
  else if n.pendingDurableView then n
  else if n.pendingCheckpoint.isSome then n
  else
    let n := n.resetForViewTransition now
    let n := { n with
      pendingInstall := none
      blockFetch := none
      inflight := .empty
      buffer := .empty
      viewChange := none }.abandonPendingSb
    let n := { n with syncServing := [] }.setStatus .recovering
    { n with recover := some {} }.escalateCheckpointToPeerFetch now
      (max checkpoint n.checkpointOp) true

/-! ## Settling the tail -/

def dropFaultySlot (n : Node S) (op : OpNumber) : Node S :=
  if (n.log.get? op).any (·.body.isRepairing) then n
  else
    let n := n.assertCommittedSurvives op n.checkpointOp
    { n with log := n.log.erase op }

def dropFaultyCommittedSlots (n : Node S) : Node S := n.faultyOps.foldl dropFaultySlot n

def assertNoFaultyCommittedSurvives (n : Node S) : Node S :=
  n.assert (n.faultyOps.all fun op => !(n.log.get? op).any fun e => e.body matches .present _)

def finalizeRecovery (n : Node S) : Node S :=
  n.dropFaultyCommittedSlots.assertNoFaultyCommittedSurvives

/-- The head the reads support; ops found absent below it are faulty, above it they never were. -/
def settleRecoverVerifiedHead (n : Node S) : Node S × Option OpNumber :=
  match n.recover with
  | none => (n, none)
  | some r =>
    let presentHead := n.log.maxKey?.getD 0
    let faultyHead := r.faulty.maxKey?.getD 0
    let realHead := max (max presentHead faultyHead) n.checkpointOp
    let interior := r.absent.keys.filter fun op => decide (op ≤ realHead)
    let r := { interior.foldl RecoverState.markFaulty r with absent := .empty }
    let n := { n with recover := some r }
    if realHead < n.op then
      ({ n with op := realHead, log := n.log.filter fun op _ => decide (op ≤ realHead) },
        some realHead)
    else (n, some realHead)

variable [StateMachine S]

/-- The in-flight records of a lone voter: its own vote is in every one of them. -/
def resumeSoloVoterPipeline (n : Node S) (now : Instant) : Node S :=
  n.withLocalSlot fun slot =>
    let record (n : Node S) (op : OpNumber) : Node S :=
      let prepareChecksum := match n.log.get? op with
        | some e => e.identity
        | none => 0
      let oks := if n.opIsDirectVoterAdd op then ∅ else {slot}
      { n with inflight := n.inflight.insert op ⟨oks, false, prepareChecksum⟩ }
    let n := (List.range' (n.commitMin + 1) (n.op - n.commitMin)).foldl record
      { n with inflight := .empty }
    ((n.armTimers now).tryCommit now).1

/-- An owed durable checkpoint keeps the recovery open until it is restored. -/
def resumeOwedRestore (n : Node S) (now : Instant) (owed : OpNumber) : Node S :=
  let n := if n.recover.isNone then { n with recover := some {} } else n
  let reading := n.recover.any fun r =>
    r.checkpoint.isSome || r.reconstruct.isSome || r.probeDeferred.isSome
  if n.awaitingPeerCheckpoint then
    n.escalateCheckpointToPeerFetch now (max owed n.checkpointOp) false
  else if reading then n.armTimers now
  else n.submitRecoverCheckpointRead now

/-- Rejoin the cluster with the log the reads supported. -/
def rejoin (n : Node S) (now : Instant) (formatted : Bool) : Node S :=
  if n.logView < n.view then
    if n.isVoter then n.enterViewChange now n.view else n.enterCatchUpPosture now
  else
    n.withLocalSlot fun slot =>
      if 1 < n.membership.replicaCount && slot == n.membership.primary n.view
          && !n.pristineGenesis formatted then
        n.enterViewChange now (n.view + 1)
      else
        let n := n.setStatus .normal
        let n := if n.membership.replicaCount = 1 && !n.isLearner then n.resumeSoloVoterPipeline now
          else n.armTimers now
        n.maybePayCheckpointDebt now

def completeRecovery (n : Node S) (now : Instant) : Node S :=
  match n.repersistOrphanOwed with
  | (n, some owed) => n.resumeOwedRestore now owed
  | (n, none) =>
    let n := n.assert (n.recover.all (·.settled))
    let formatted := n.recover.any (·.formatted)
    { n with recover := none }.rejoin now formatted

/-- An uncommitted header-only head is not evidence of a head. -/
def promoteFaultyHead (n : Node S) (realHead : OpNumber) : Node S :=
  if n.commitMax < realHead && (n.log.get? realHead).any (·.body.isRepairing) then
    { n with log := n.log.erase realHead }.mapRecover fun r => r.markFaulty realHead
  else n

/-- Move on once no read is awaited. -/
def recoverProgress (n : Node S) (now : Instant) : Node S :=
  match n.recover with
  | none => n
  | some r =>
    if !r.pending.isEmpty then n.armTimers now
    else
      match n.settleRecoverVerifiedHead with
      | (n, none) => n
      | (n, some realHead) =>
        let n := (n.promoteFaultyHead realHead).finalizeRecovery
        match n.recover with
        | none => n
        | some r =>
          if r.checkpoint.isSome || r.awaitingPeerCheckpoint then n.armTimers now
          else if r.faulty.isEmpty then n.completeRecovery now
          else if r.faulty.has n.op then
            ((n.setStatus .recoveringHead).armTimers now).sendRecovery now
          else
            let n := n.completeRecovery now
            if n.status = .normal then n.repair.keys.foldl sendRequestPrepare n else n

/-! ## Completions of recovery reads -/

omit [StateMachine S] in
/-- Enter the outcome of a read in the log and in the recovery's books. -/
def applyReadOutcome (n : Node S) (seq : Nat) (op : OpNumber) : ReadOutcome → Node S
  | .verified client request body =>
    { n with log := n.log.insert op (.fromCommittedBody client request body) }.mapRecover
      fun r => (r.resolve op).clearFaulty op
  | .keepRepairing client request bodyChecksum =>
    { n with log := n.log.insert op ⟨client, request, .repairing bodyChecksum⟩ }.mapRecover
      fun r => (r.resolve op).clearFaulty op
  | .staleCommitted => n.mapRecover fun r => (r.resolve op).markFaulty op
  | .fault => n.mapRecover fun r => r.dropRead seq
  | .absent =>
    { n with log := n.log.erase op }.mapRecover fun r =>
      ((r.resolve op).clearFaulty op).markAbsent op

def onRecoverWalDone (n : Node S) (now : Instant) (done : WalDone) : Node S :=
  match done with
  | .appended _ | .cancelled _ => n
  | done =>
    match n.recover with
    | none => n
    | some r =>
      match r.reads.get? done.id.seq with
      | none => n
      | some op => (n.applyReadOutcome done.id.seq op (n.readOutcome r op done)).recoverProgress now

omit [StateMachine S] in
def resolveExhaustedTailRead (n : Node S) (op : OpNumber) : Node S :=
  let keep := n.inflightTailRepairingIdentity op
  let n := n.assert (n.recover.all fun r => !r.reads.values.any (· == op))
  let n := n.mapRecover fun r => { r with pending := r.pending.erase op }
  match keep with
  | some (client, request, bodyChecksum) =>
    { n.mapRecover fun r => r.clearFaulty op with
      log := n.log.insert op ⟨client, request, .repairing bodyChecksum⟩ }
  | none => n.mapRecover fun r => r.markFaulty op

omit [StateMachine S] in
/-- Probe the blocks of a checkpoint envelope that verified against the landed root. -/
def issueRecoverProbe (n : Node S) (c : RecoveredCheckpoint) : Node S :=
  let job : BlockJob := ⟨n.nextId, .walk none (.recoverProbe c)⟩
  { n.mintId with lane := n.lane ++ [job] }.mapRecover fun r =>
    { r with reconstruct := some job.id }

omit [StateMachine S] in
def onRecoverSbDone (n : Node S) : SuperblockDone → Node S
  | .checkpointRead id op snapshot =>
    if !n.recover.any (fun r => r.checkpointReads.has id.seq) then n
    else
      let n := n.mapRecover fun r => { r with checkpointReads := r.checkpointReads.erase id.seq }
      if n.recover.any (·.reconstruct.isSome) then n
      else
        let root := n.storage.landed
        match decodeCheckpoint snapshot with
        | none => n
        | some (boundOp, smRoot, sessionsRoot) =>
          if checkpointId snapshot ≠ root.checkpointId || op ≠ root.checkpointOp || boundOp ≠ op
          then n
          else
            let c : RecoveredCheckpoint := ⟨op, smRoot, sessionsRoot⟩
            if n.walkOwed then
              n.mapRecover fun r => { r with probeDeferred := some (root.checkpointId, c) }
            else (n.issueRecoverProbe c).mapRecover fun r => { r with probeDeferred := none }
  | .fault id => n.mapRecover fun r => { r with checkpointReads := r.checkpointReads.erase id.seq }
  | .wrote _ => n

omit [StateMachine S] in
def redriveDeferredRecoverProbe (n : Node S) : Node S :=
  if n.walkOwed then n
  else
    match n.recover with
    | none => n
    | some r =>
      if r.reconstruct.isSome then n
      else
        match r.probeDeferred with
        | none => n
        | some (verifiedId, c) =>
          let n := n.mapRecover fun r => { r with probeDeferred := none }
          let root := n.storage.landed
          if root.checkpointOp ≠ c.op || root.checkpointId ≠ verifiedId then n
          else n.issueRecoverProbe c

omit [StateMachine S] in
/-- The outcome of a probe: an error, the first missing block, or a complete set. -/
def onRecoverProbeWalked (n : Node S) (job : OpId) (c : RecoveredCheckpoint)
    (next : Option (Option BlockAddress)) : Node S :=
  if n.recover.bind (·.reconstruct) ≠ some job then n
  else
    let n := n.mapRecover fun r => { r with reconstruct := none }
    match next with
    | some none =>
      if n.restoreOwed then n
      else
        let id := n.nextId
        (n.issueBlockJob (.restore c.smRoot c.sessionsRoot (.recoveredCheckpoint c))).mapRecover
          fun r => { r with reconstruct := some id }
    | _ => n

omit [StateMachine S] in
/-- A restored checkpoint newer than the one recovery started from moves every frontier up. -/
def raiseToRestoredCheckpoint (n : Node S) (op : OpNumber) : Node S :=
  if op ≤ n.checkpointOp then n
  else
    let n := (n.advanceCheckpointOp op).setCommitMin op
    let n := { n with commitMax := max n.commitMax op, op := max n.op op }.trimLogToCheckpoint op op
    n.mapRecover fun r => r.dropBelow op

/-- The service image of the checkpoint on disk is loaded, or could not be. -/
def onRecoveredCheckpointRestored (n : Node S) (now : Instant) (c : RecoveredCheckpoint)
    (result : Option (S × OrdMap ClientId Session)) : Node S :=
  let n := n.mapRecover fun r => { r with reconstruct := none }
  match result with
  | none => n
  | some (sm, clients) =>
    let n := { n with
      sm := sm
      clients := clients
      checkpointSmRoot := some c.smRoot
      checkpointSessionsRoot := some c.sessionsRoot }.noteSmRestored c.op
    let n := n.raiseToRestoredCheckpoint c.op
    let superseded := n.awaitingPeerCheckpoint &&
      match n.sync with
      | some s => !s.requireCrossEpoch && decide (s.target ≤ n.checkpointOp)
      | none => true
    let n := n.mapRecover fun r =>
      { r with
        checkpoint := none
        awaitingPeerCheckpoint := r.awaitingPeerCheckpoint && !superseded }
    let n := if superseded then
        { n with sync := none, blockFetch := none, timers := { n.timers with syncSolicit := none } }
      else n
    n.recoverProgress now

/-! ## Recovery timers -/

omit [StateMachine S] in
/-- Hand the recovery's faulty ops to the sync that replaces it. -/
def retireRecoverForStagedSync (n : Node S) : Node S :=
  let n := n.assert (n.recover.all (·.settled))
  let n := match n.recover with
    | some r => if r.faulty.isEmpty then n else { n with syncCarriedFaulty := r.faulty }
    | none => n
  { n with
    recover := none
    timers := { n.timers with recoverRetry := none, syncSolicit := none } }

omit [StateMachine S] in
def submitRecoverRead (n : Node S) (op : OpNumber) (budget : Nat) : Node S :=
  if n.panicked then n
  else
    let id := n.nextId
    { n.mintId with storage := n.storage.submitWalRead id op }.mapRecover fun r =>
      { r with reads := r.reads.insert id.seq op, pending := r.pending.insert op budget }

omit [StateMachine S] in
/-- Retry, wait for, or give up on the reads still owed. -/
def retryRecoverReads (outstanding : List OpNumber) : List OpNumber → Node S → Node S
  | [], n => n
  | op :: ops, n =>
    let n := match (n.recover.bind fun r => r.pending.get? op).map fun budget =>
        retryVerdict (outstanding.contains op) budget with
      | some .exhausted => n.resolveExhaustedTailRead op
      | some (.retry rest) => n.submitRecoverRead op rest
      | some .wait | none => n
    retryRecoverReads outstanding ops n

omit [StateMachine S] in
def retryCheckpointRead (n : Node S) (now : Instant) (owed : Bool) (budget : Nat) : Node S :=
  match retryVerdict owed budget with
  | .wait => n
  | .retry rest =>
    n.submitTrackedCheckpointRead.mapRecover fun r => { r with checkpointRetries := rest }
  | .exhausted =>
    match n.repersistOrphanOwed with
    | (n, some orphan) =>
      n.escalateCheckpointToPeerFetch now (max orphan n.checkpointOp) false
    | (n, none) => n.escalateCheckpointToPeerFetch now n.checkpointOp false

def recoverTimeouts (n : Node S) (now : Instant) : Node S :=
  if !timerDue n.timers.recoverRetry now then n
  else
    let rearm (n : Node S) : Node S :=
      { n with timers := { n.timers with recoverRetry := some (now + recoverReadRetransmit) } }
    let n := n.retryInstallFlush now
    if n.pendingCheckpoint.isSome then rearm n
    else
      let r := n.recover.getD {}
      let n := if r.awaitingPeerCheckpoint && n.sync.isSome then
          (n.sendRequestBlock now).sendRequestSync now
        else n
      let n := retryRecoverReads r.reads.values r.pending.keys n
      let n :=
        if r.checkpoint.isSome && r.probeDeferred.isNone && r.reconstruct.isNone then
          n.retryCheckpointRead now (!r.checkpointReads.isEmpty) r.checkpointRetries
        else n
      (rearm n).recoverProgress now

omit [StateMachine S] in
def retireRecoverAndEscalate (n : Node S) (now : Instant) : Node S :=
  let n := n.assert (n.recover.all (·.settled))
  { n with recover := none }.enterViewChange now (n.view + 1)

omit [StateMachine S] in
def recoverHeadTimeouts (n : Node S) (now : Instant) : Node S :=
  if !timerDue n.timers.recoverHead now then n
  else
    match n.recover with
    | none => n
    | some r =>
      let attempts := min (r.reformAttempts + 1) 255
      let fresh := r.peersRecovering ∩ r.peersRecoveringPrev
      let intact := !r.faulty.keys.any fun op => decide (op ≤ n.commitMax)
      let n := { n with recover := some { r with
          reformAttempts := attempts
          peersRecoveringPrev := r.peersRecovering
          peersRecovering := ∅ } }
      n.withLocalSlot fun slot =>
        if n.mayEscalateReformation slot attempts fresh intact then n.retireRecoverAndEscalate now
        else n.sendRecovery now

end Node

end Viewstamp
