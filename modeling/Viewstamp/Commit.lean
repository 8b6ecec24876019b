import Viewstamp.Solicit

/- Votes and commits: acknowledging an append, counting acknowledgements,
   applying committed operations in order, and what follows a commit (epoch
   swaps, checkpoints, an owed recovery). -/
namespace Viewstamp

namespace Core

/-- A reconfiguration of our configuration that seats a voter we do not know. -/
def seatsNewVoterAgainstCurrent (n : Core) (p : ReconfigurePayload) : Bool :=
  p.prevConfigId == n.membership.configId
    && (n.membership.firstNewVoter p.replicaCount p.members).isSome

def opIsDirectVoterAdd (n : Core) (op : OpNumber) : Bool :=
  (n.log.get? op).any fun e => e.body.asReconfigure.any n.seatsNewVoterAgainstCurrent

/-- A slot that holds a completed append, or an op the checkpoint covers. The content of the slot
is not looked at. -/
def opDurablyAppended (n : Core) (op : OpNumber) : Bool :=
  decide (op ≤ n.checkpointOp) ||
    match n.storage.status op with
    | .clean | .faulty => true
    | _ => false

/-- A shrinking reconfiguration also needs a quorum of the voters it keeps. -/
def shrinkSuccessorQuorumMet (n : Core) (op : OpNumber) (oks : Finset ReplicaId) : Bool :=
  match (n.log.get? op).bind (·.body.asReconfigure) with
  | none => true
  | some p =>
    if n.membership.replicaCount ≤ p.replicaCount then true
    else
      let successorVoters := p.members.take p.replicaCount
      let retained := oks.filter fun slot =>
        slot < n.membership.replicaCount ∧
          (n.membership.memberAt slot).any (fun m => decide (m ∈ successorVoters)) = true
      decide (p.replicaCount / 2 + 1 ≤ retained.card)

/-- The op has a quorum of voter acknowledgements and is not yet committed. -/
def commitReady (n : Core) (op : OpNumber) : Bool :=
  (n.inflight.get? op).any fun inf =>
    let oks := inf.oks.filter (· < n.membership.replicaCount)
    !inf.committed && decide (n.membership.quorum ≤ oks.card) && n.shrinkSuccessorQuorumMet op oks

end Core

namespace Node

variable {S : Type}

/-- The view is settled and no superblock write is outstanding. -/
def rootIdle (n : Node S) : Bool :=
  n.status == .normal && n.logView == n.view && n.pendingSb.isNone && n.pendingCheckpoint.isNone

/-! ## Votes -/

/-- The primary's own acknowledgement of an op in flight. -/
def recordOwnVote (n : Node S) (op : OpNumber) : Node S :=
  if !n.isVoter || n.opIsDirectVoterAdd op then n
  else n.withLocalSlot fun slot =>
    match n.inflight.get? op with
    | none => n
    | some inf =>
      { n with inflight := n.inflight.insert op { inf with oks := insert slot inf.oks } }

def sendPrepareOk (n : Node S) (op : OpNumber) : Node S :=
  if n.isLearner || n.opIsDirectVoterAdd op then n
  else
    let prepareChecksum := match n.log.get? op with
      | some e => e.identity
      | none => 0
    n.withLocalSlot fun slot =>
      n.emit (.toPeer (.replica (n.membership.primary n.view)))
        (.prepareOk ⟨n.view, op, slot, n.checkpointOp, prepareChecksum, n.membership.epoch,
          n.membership.configId⟩)

/-! ## Leaving a view -/

def abandonRoot (n : Node S) (role : RootRole) (id : OpId) : Node S :=
  if n.panicked then n else { n with storage := n.storage.abandonRoot role id }

/-- Drop a checkpoint that has not become the durable root on its own. -/
def dropUnrootedCheckpoint (n : Node S) : Node S :=
  match n.pendingCheckpoint with
  | some ⟨_, .flushingBlocks _, _⟩ => { n with pendingCheckpoint := none }
  | some ⟨_, .awaitRoot id _, .syncRepersist⟩ =>
    { n.abandonRoot .checkpoint id with pendingCheckpoint := none }
  | some ⟨_, .awaitSnapshot _ _, .syncRepersist⟩ => { n with pendingCheckpoint := none }
  | _ => n

/-- Forget what was owed in the old view. Appends still at the device complete unclaimed, deferred
appends are dropped. -/
def resetForViewTransition (n : Node S) (now : Instant) : Node S :=
  let n := { n with
    svcFrom := ∅
    pending := .empty
    appending := .empty
    deferredAppends := .empty
    peerCheckpoint := .empty
    reports := []
    resets := n.resets + 1 }.recomputeQuorumCheckpoint
  let n := { n with clients := n.clients.filter fun _ s => decide (0 < s.lastOp) }
  let n := n.dropUnrootedCheckpoint
  let n := { n with
    reconfigureInflight := none
    learnerProof := none
    healthProbe := none
    pendingInstall := none }
  let n :=
    if !n.smReconstructOwed then
      { n with sync := none, blockFetch := none, timers := { n.timers with syncSolicit := none } }
    else if n.status = .normal then
      { n with timers := { n.timers with syncSolicit := some (now + syncSolicit) } }
    else n
  { n with
    timers := { n.timers with forfeitArmed := none }
    pendingForfeit := false
    nackFrom := .empty }

def abandonPendingSb (n : Node S) : Node S :=
  match n.pendingSb with
  | some (id, _) => { n with pendingSb := none }.abandonRoot .durableView id
  | none => n

/-! ## Recovering a checkpoint the node no longer holds -/

def mapRecover (n : Node S) (f : RecoverState → RecoverState) : Node S :=
  { n with recover := n.recover.map f }

def submitTrackedCheckpointRead (n : Node S) : Node S :=
  if n.panicked then n
  else
    let id := n.nextId
    { n.mintId with storage := n.storage.submitCheckpointRead id }.mapRecover fun r =>
      { r with checkpoint := some id.seq, checkpointReads := r.checkpointReads.add id.seq }

def submitRecoverCheckpointRead (n : Node S) (now : Instant) : Node S :=
  (n.submitTrackedCheckpointRead.mapRecover fun r =>
    { r with checkpointRetries := recoverReadRetries }).armTimers now

/-- Fall back to a recovery of the checkpoint on disk. -/
def enterOrphanRepersistRecovery (n : Node S) (now : Instant) : Node S :=
  let n := n.resetForViewTransition now
  let n := { n with
    pendingInstall := none
    blockFetch := none
    inflight := .empty
    buffer := .empty
    viewChange := none }.abandonPendingSb
  let n := { n with syncServing := [] }.setStatus .recovering
  { n with recover := some {} }.submitRecoverCheckpointRead now

/-- The durable checkpoint this node has not applied up to, if it still owes it. -/
def repersistOrphanOwed (n : Node S) : Node S × Option OpNumber :=
  match n.repersistOrphan with
  | none => (n, none)
  | some target =>
    if target ≤ n.checkpointOp || target ≤ n.commitMin then
      ({ n with repersistOrphan := none }, none)
    else (n, some target)

def retargetRecoveryFetch (n : Node S) (now : Instant) (target : OpNumber) : Node S :=
  if !n.awaitingPeerCheckpoint then n
  else
    match n.sync with
    | none => n
    | some s =>
      let satisfiedCrossing := s.requireCrossEpoch && n.crossEpochIntent.isNone
      if !satisfiedCrossing && target ≤ s.target then n
      else
        let n := { n with sync := some { s with
            target, requireCrossEpoch := s.requireCrossEpoch && !satisfiedCrossing } }
        let n := if satisfiedCrossing then
            { n with
              quarantinedDonor := none
              quarantineProbeDeadline := none
              quarantineProbeProgressMark := 0 }
          else n
        n.dropTransferBelowForcedTarget.sendRequestSync now

def maybeEnterOrphanRepersistRecovery (n : Node S) (now : Instant) : Node S × CommitFlow :=
  match n.repersistOrphanOwed with
  | (n, none) => (n, .proceed)
  | (n, some target) =>
    if n.status = .recovering || n.status = .recoveringHead || n.status = .retired then
      (n.retargetRecoveryFetch now target, .proceed)
    else if n.pendingDurableView then (n, .proceed)
    else if n.pendingCheckpoint.isSome || n.smReconstructOwed || n.pendingInstall.isSome then
      (n, .proceed)
    else (n.enterOrphanRepersistRecovery now, .enteredRecovery)

/-- A checkpoint inherited from an earlier incarnation becomes ours once we have applied it. -/
def maybeAdoptInheritedFrontier (n : Node S) : Node S :=
  match n.inheritedFrontier with
  | none => n
  | some frontier =>
    if n.status = .recovering || n.status = .recoveringHead || n.status = .retired then n
    else if n.pendingCheckpoint.isSome || n.smReconstructOwed || n.pendingInstall.isSome then n
    else if n.commitMin < frontier then n
    else { n.advanceCheckpointOp frontier with
      checkpointSmRoot := none
      checkpointSessionsRoot := none }

/-! ## Checkpoints -/

/-- Start a checkpoint of the applied prefix. -/
def forceCheckpoint (n : Node S) : Node S :=
  if n.materializeOwed then n
  else if !n.storage.checkpoints.isEmpty then n
  else if n.commitMin < n.storage.effectiveRoot.checkpointOp then n
  else
    let job := n.nextId
    { n.issueBlockJob .materialize with
      pendingCheckpoint := some ⟨n.commitMin, .flushingBlocks job, .ordinary⟩ }

def maybeCheckpoint (n : Node S) : Node S :=
  if !n.rootIdle then n
  else if n.smReconstructOwed || n.pendingInstall.isSome then n
  else if n.commitMin < n.checkpointOp + n.config.checkpointOps then n
  else n.forceCheckpoint

/-! ## Applying -/

/-- Record that an operation was applied. -/
def recordApplied (n : Node S) (op : OpNumber) (e : LogEntry) (body : Bytes) : Node S :=
  if n.panicked then n
  else { n with
    applied := ⟨n.incarnation, op, e.client, e.request, body, e.body.isReconfigure⟩ :: n.applied }

/-- The applied session with the smallest last op. -/
def evictionVictim (clients : OrdMap ClientId Session) : Option ClientId :=
  (clients.entries.filter fun e => decide (0 < e.2.lastOp)).foldl (fun best e =>
    match best with
    | none => some (e.2.lastOp, e.1)
    | some (lastOp, _) => if e.2.lastOp < lastOp then some (e.2.lastOp, e.1) else best)
    (none : Option (OpNumber × ClientId)) |>.map Prod.snd

/-- Evict applied sessions, oldest first, until the table fits. -/
def evictSessions : (excess : Nat) → OrdMap ClientId Session → OrdMap ClientId Session
  | 0, clients => clients
  | excess + 1, clients =>
    match evictionVictim clients with
    | none => clients
    | some victim => evictSessions excess (clients.erase victim)

def noteAppliedSession (n : Node S) (op : OpNumber) (client : ClientId) (request : RequestNumber)
    (reply : Bytes) : Node S :=
  let session := (n.clients.get? client).getD {}
  let newlyApplied := session.lastOp = 0
  let session := { session with lastOp := op, request := max session.request request }
  let session := if session.reply.all (fun r => decide (r.1 ≤ request)) then
      { session with reply := some (request, reply) } else session
  let clients := n.clients.insert client session
  if newlyApplied then
    let applied := clients.values.countP fun s => decide (0 < s.lastOp)
    { n with clients := evictSessions (applied - n.config.maxClientSessions) clients }
  else { n with clients }

def noteSmAdvanced (n : Node S) (op : OpNumber) : Node S := { n with smAt := op }

/-- The membership a committed reconfiguration installs; a payload that no longer chains from our
configuration installs nothing. -/
def stageCommittedReconfigure (n : Node S) (op : OpNumber) (p : ReconfigurePayload) : Node S :=
  if n.membership.configId ≠ p.prevConfigId then n
  else if (n.membership.firstNewVoter p.replicaCount p.members).isSome then n.panic
  else
    match n.membership.reconfigure p.replicaCount p.learnerCount p.members with
    | .error _ => n.panic
    | .ok successor => n.stageEpochSwap op successor

/-- Commit a reconfiguration: no service call, the configuration change is staged. -/
def commitReconfigure (n : Node S) (op : OpNumber) (e : LogEntry) (p : ReconfigurePayload) :
    Node S :=
  let n := (n.recordApplied op e p.encodeBody).setCommitMin op |>.noteSmAdvanced op
  let n := { n with
    commitMax := max n.commitMax n.commitMin
    inflight := n.inflight.modify op fun inf => { inf with committed := true } }
  n.stageCommittedReconfigure op p

variable [StateMachine S]

/-- Run the service on one operation. -/
def applyOp (n : Node S) (op : OpNumber) (e : LogEntry) (body : Bytes) : Node S × Bytes :=
  let (sm, reply) := StateMachine.apply n.sm op body
  let n := ({ n with sm := sm }.recordApplied op e body).noteSmAdvanced op
  (n.setCommitMin op, reply)

/-- `commit_op`: apply the next op as primary and answer its client. -/
def commitOp (n : Node S) (now : Instant) (op : OpNumber) : Node S × Bool :=
  match n.log.get? op with
  | none => (n.requestRepairRun now op, false)
  | some e =>
    match e.body with
    | .reconfigure p => (n.commitReconfigure op e p, true)
    | .repairing _ => (n.requestRepairRun now op, false)
    | .present body =>
      let (n, reply) := n.applyOp op e body
      let n := { n with
        inflight := n.inflight.modify op fun inf => { inf with committed := true } }
      let n := n.noteAppliedSession op e.client e.request reply
      let n := n.emit (.toPeer (.client e.client)) (.reply ⟨n.view, e.client, e.request, reply⟩)
      (n.event (.committed op e.client e.request reply), true)

/-- One turn of the loop of `advance_commit`; `false` ends the loop. -/
def advanceOne (n : Node S) (now : Instant) (op : OpNumber) : Node S × Bool :=
  match n.log.get? op with
  | none => (n.requestRepairRun now op, false)
  | some e =>
    match e.body with
    | .reconfigure p => (n.commitReconfigure op e p, true)
    | .repairing _ => (n.requestRepairRun now op, false)
    | .present body =>
      let (n, reply) := n.applyOp op e body
      let n := n.noteAppliedSession op e.client e.request reply
      (n.event (.committed op e.client e.request reply), true)

/-- Apply the next `room` ops; each turn applies one op or stops. -/
def advanceLoop (now : Instant) : (room : Nat) → Node S → Node S
  | 0, n => n
  | room + 1, n =>
    let (n, more) := n.advanceOne now (n.commitMin + 1)
    if more then advanceLoop now room n else n

/-- What every commit ends with. `pay` settles an owed configuration checkpoint. -/
def commitTail (pay : Node S → Node S) (n : Node S) (now : Instant) : Node S × CommitFlow :=
  let n := n.cancelForcedSyncIfSatisfied.maybeAdoptInheritedFrontier
  match n.maybeEnterOrphanRepersistRecovery now with
  | (n, .enteredRecovery) => (n, .enteredRecovery)
  | (n, .proceed) => ((pay n.maybeCheckpoint).maybeSwapEpoch, .proceed)

def advanceCommitWith (pay : Node S → Node S) (n : Node S) (now : Instant) (target : OpNumber) :
    Node S × CommitFlow :=
  if n.pendingInstall.isSome then (n, .proceed)
  else
    let n := { n with commitMax := max n.commitMax target }
    if n.smReconstructOwed then (n, .proceed)
    else commitTail pay (advanceLoop now (min target n.op - n.commitMin) n) now

/-- Checkpoint a configuration whose producing op is not yet covered. `advance` is the commit this
needs first; inside such a commit it is not entered again. -/
def payCheckpointDebtWith (advance : Node S → Node S × CommitFlow) (n : Node S) : Node S :=
  if n.configInstallOp ≤ n.checkpointOp then n
  else if n.smReconstructOwed || n.pendingInstall.isSome then n
  else if !n.rootIdle then n
  else
    let settle (n : Node S) : Node S :=
      if n.configInstallOp ≤ n.commitMin && n.pendingCheckpoint.isNone then n.forceCheckpoint else n
    if n.payingCheckpointDebt then settle n
    else
      match advance { n with payingCheckpointDebt := true } with
      | (n, flow) =>
        let n := { n with payingCheckpointDebt := false }
        if flow = .enteredRecovery then n else settle n

/-- The commit inside a debt payment: its own tail finds the payment flag set. -/
def advanceCommitPaying (n : Node S) (now : Instant) (target : OpNumber) : Node S × CommitFlow :=
  advanceCommitWith (payCheckpointDebtWith fun n => (n, .proceed)) n now target

def maybePayCheckpointDebt (n : Node S) (now : Instant) : Node S :=
  payCheckpointDebtWith (fun n => n.advanceCommitPaying now n.commitMax) n

/-- Learn that everything up to `target` is committed, and apply what the log holds. -/
def advanceCommit (n : Node S) (now : Instant) (target : OpNumber) : Node S × CommitFlow :=
  advanceCommitWith (fun n => n.maybePayCheckpointDebt now) n now target

/-! ## Committing as primary -/

/-- Commit ready ops in order; `true` when at least one committed. -/
def tryCommitLoop (now : Instant) : (room : Nat) → Node S → Node S × Bool
  | 0, n => (n, false)
  | room + 1, n =>
    if n.commitReady (n.commitMin + 1) then
      match n.commitOp now (n.commitMin + 1) with
      | (n, false) => (n, false)
      | (n, true) => ((tryCommitLoop now room n).1, true)
    else (n, false)

def emitCommit (n : Node S) : Node S :=
  n.emit .backups (.commit ⟨n.view, n.commitMin, n.checkpointOp, n.membership.epoch,
    n.membership.configId⟩)

def tryCommit (n : Node S) (now : Instant) : Node S × CommitFlow :=
  if !n.isPrimary then (n, .proceed)
  else if n.pendingInstall.isSome || n.smReconstructOwed then (n, .proceed)
  else
    let (n, advanced) := tryCommitLoop now n.inflight.size n
    let n := { n with commitMax := max n.commitMax n.commitMin }
    let n := if advanced && !n.pendingDurableView then n.emitCommit else n
    commitTail (fun n => n.maybePayCheckpointDebt now) n now

end Node

end Viewstamp
