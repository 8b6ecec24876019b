import Viewstamp.Repair

/- Normal operation: the primary admits requests, mints ops and retransmits them;
   a backup appends prepares in order, buffers the ones that come early, and
   acknowledges what is durable; reconfigurations are minted like requests. -/
namespace Viewstamp

inductive NewOpReject where
  | notNormalPrimary
  | busy
  | steppingDown
  | commitGap
  | pipelineFull
  | atCapacity
  deriving DecidableEq

inductive ProposeMembershipError where
  | notPrimary
  | notNormal
  | alreadyInFlight
  | invalid (e : MembershipError)
  | proofPending
  | reducedFaultToleranceUnacknowledged (before after : Nat)
  | busy
  | atCapacity
  deriving DecidableEq

namespace Core

/-- The log has reached what one view-change carrier can hold. -/
def bandAtCapacity (n : Core) : Bool :=
  decide (maxHeaderOnlyBandDepth ≤ n.log.size)
    || decide (maxHeaderOnlyBandDepth ≤ n.op - n.logFloor)

def isDirectVoterAddPrepare (n : Core) (p : Prepare) : Bool :=
  p.client == ClientId.reconfiguration &&
    (ReconfigurePayload.decodeBody p.body).any n.seatsNewVoterAgainstCurrent

/-- The log entry at an op is the operation the prepare carries. -/
def canonicalHeld (n : Core) (p : Prepare) : Bool :=
  decide (p.op ≤ n.checkpointOp) ||
    (n.log.get? p.op).any fun e =>
      e.client == p.client && e.request == p.request && e.bodyBytes == some p.body

/-- The checkpoint a message of a newer epoch advertises. -/
def newerEpochCheckpoint (n : Core) : Message → Option OpNumber
  | .prepare m => if n.membership.epoch < m.epoch then some m.checkpointOp else none
  | .commit m => if n.membership.epoch < m.epoch then some m.checkpointOp else none
  | .epochAhead m => if n.membership.epoch < m.epoch then some m.checkpointOp else none
  | _ => none

/-- `some true` for a peer outside the membership, `some false` for one inside it. -/
def quarantinedSource (n : Core) : Peer → Option Bool
  | .replica slot => if (n.membership.memberAt slot).isSome then some false else none
  | .member _ => some true
  | .client _ => none

end Core

namespace Node

variable {S : Type}

/-! ## Admission -/

/-- `check_new_op_admission`: whether the primary may mint another op; `none` admits. The durable
view is not among what is checked. -/
def checkNewOpAdmission (n : Node S) : Option NewOpReject :=
  if n.status ≠ .normal || !n.isPrimary then some .notNormalPrimary
  else if n.pendingSb.isSome || n.sync.isSome || n.pendingCheckpoint.isSome then some .busy
  else if n.hasPendingReconfigure then some .busy
  else if n.pendingForfeit then some .steppingDown
  else if n.commitMin < n.commitMax || !n.repair.isEmpty then some .commitGap
  else if maxPipeline ≤ n.op - n.commitMin then some .pipelineFull
  else if n.effectiveWalCapacity < n.op + 1 - n.pruneFloor || n.bandAtCapacity then some .atCapacity
  else none

/-- Assign the next op number, append it, open its vote record and broadcast it. -/
def mintOp (n : Node S) (now : Instant) (client : ClientId) (request : RequestNumber)
    (bytes : Bytes) (body : Body) : Node S :=
  let op := n.op + 1
  let n := { n with op }.submitOrDeferAppend op (.ofBody op n.view client request bytes) bytes
    (.ack op)
  let n := { n with
    log := n.log.insert op ⟨client, request, body⟩
    inflight := n.inflight.insert op ⟨∅, false, prepareIdentity client request (fnv1a128 bytes)⟩
    appending := n.appending.add op }
  (n.emit .backups (.prepare (n.ownPrepare op client request bytes))).armTimers now

def sessionTableHardBound (n : Node S) : Nat := n.config.maxClientSessions + maxPipeline

/-- Admit a fresh request, if capacity allows. -/
def admitRequest (n : Node S) (now : Instant) (r : Request) (admission : Option NewOpReject) :
    Node S :=
  if admission.isSome then n
  else
    let session := { (n.clients.get? r.client).getD {} with request := r.request }
    { n with clients := n.clients.insert r.client session }.mintOp now r.client r.request r.body
      (.present r.body)

def onRequest (n : Node S) (now : Instant) (r : Request) : Node S :=
  if r.client = ClientId.reconfiguration then n
  else
    let admission := n.checkNewOpAdmission
    match admission with
    | some .notNormalPrimary | some .busy | some .steppingDown | some .commitGap => n
    | _ =>
      match n.clients.get? r.client with
      | some session =>
        if r.request < session.request then n
        else if r.request = session.request then
          match session.reply with
          | some (answered, body) =>
            if answered = r.request then
              n.emit (.toPeer (.client r.client)) (.reply ⟨n.view, r.client, answered, body⟩)
            else n
          | none => n
        else if r.request ≠ session.request + 1 then n
        else n.admitRequest now r admission
      | none =>
        if r.request ≠ 1 then n
        else if n.sessionTableHardBound ≤ n.clients.size then n
        else n.admitRequest now r admission

/-! ## Reconfiguration -/

/-- Ask a learner to prove that it holds everything up to the head. -/
def solicitLearnerProof (n : Node S) (target : MemberId) : Node S :=
  match n.membership.slotOf target with
  | none => n.panic
  | some slot =>
    let outstanding := n.learnerProof.filter fun c =>
      c.target == target && c.atOp == n.op && c.proof.isNone
    let n := match outstanding with
      | some _ => n
      | none =>
        let nonce := (n.nonce + 1) % 2 ^ 64
        { n with nonce, learnerProof := some ⟨target, n.op, nonce, none⟩ }
    let nonce := match n.learnerProof with
      | some c => c.nonce
      | none => n.nonce
    n.withLocalSlot fun own =>
      n.emit (.toPeer (.replica slot)) (.requestLearnerProof
        ⟨own, n.op, nonce, n.membership.epoch, n.membership.configId⟩)

/-- The learner has proved the whole log, at the current head. -/
def learnerProofFresh (n : Node S) (target : MemberId) : Bool :=
  n.learnerProof.any fun c =>
    c.target == target && decide (n.op ≤ c.atOp) && c.proof.any fun f => decide (n.op ≤ f)

/-- Mint the reconfiguration op of an admitted delta. -/
def mintReconfigure (n : Node S) (now : Instant) (successor : Membership) : Node S :=
  let payload := ReconfigurePayload.fromMembership successor n.membership.configId
  let n :=
    n.mintOp now ClientId.reconfiguration (n.op + 1) payload.encodeBody (.reconfigure payload)
  { n with reconfigureInflight := some n.op }

def proposeMembership (n : Node S) (now : Instant) (delta : SingleVoterDelta)
    (acceptReducedFaultTolerance : Bool) : Node S × Except ProposeMembershipError OpNumber :=
  if !n.isPrimary then (n, .error .notPrimary)
  else if n.status ≠ .normal then (n, .error .notNormal)
  else if n.hasPendingReconfigure then (n, .error .alreadyInFlight)
  else
    match n.checkNewOpAdmission with
    | some .pipelineFull | some .atCapacity => (n, .error .atCapacity)
    | some .busy | some .steppingDown | some .commitGap => (n, .error .busy)
    | some .notNormalPrimary | none =>
      match n.membership.applyDelta delta with
      | .error e => (n, .error (.invalid e))
      | .ok successor =>
        let fPred := n.membership.replicaCount - n.membership.quorum
        let fSucc := successor.replicaCount - successor.quorum
        if fSucc < fPred && !acceptReducedFaultTolerance then
          (n, .error (.reducedFaultToleranceUnacknowledged fPred fSucc))
        else
          match delta with
          | .promoteLearner target =>
            if n.learnerProofFresh target then
              let n := { n with learnerProof := none }.mintReconfigure now successor
              (n, .ok n.op)
            else (n.solicitLearnerProof target, .error .proofPending)
          | _ =>
            let n := n.mintReconfigure now successor
            (n, .ok n.op)

/-! ## The primary's cadence -/

def emitPrepareBatch (n : Node S) (entries : List PreparedEntry) : Node S :=
  n.emit .backups (.prepareBatch
    { view := n.view, commit := n.commitMin, checkpointOp := n.checkpointOp
      epoch := n.membership.epoch, configId := n.membership.configId, log := entries })

/-- Retransmit the held ops of a window in frames; ops without a body are skipped. -/
def retransmit (budget : Nat) : (running : Nat) → (entries : List PreparedEntry) →
    List OpNumber → Node S → Node S
  | _, entries, [], n => if entries.isEmpty then n else n.emitPrepareBatch entries
  | running, entries, op :: ops, n =>
    match (n.log.get? op).bind fun e => e.bodyBytes.map fun body => (e, body) with
    | none => retransmit budget running entries ops n
    | some (e, body) =>
      let cost := presentEntryEncodedLen body.length
      let entry := PreparedEntry.ofBytes op e.client e.request body
      if !entries.isEmpty && decide (budget < running + cost) then
        retransmit budget cost [entry] ops (n.emitPrepareBatch entries)
      else retransmit budget (running + cost) (entries ++ [entry]) ops n

def heartbeat (n : Node S) (now : Instant) : Node S :=
  let n := if n.timers.commit.isNone then
      { n with timers := { n.timers with commit := some (now + commitHeartbeat) } } else n
  if timerDue n.timers.commit now then
    let n := n.emitCommit
    { n with timers := { n.timers with commit := some (now + commitHeartbeat) } }
  else n

def retransmitPrepares (n : Node S) (now : Instant) : Node S :=
  if !timerDue n.timers.prepare now then n
  else
    let lo := n.commitMin + 1
    let hi := min n.op (lo + prepareRetransmitWindow - 1)
    let n := retransmit (maxFrameLen - prepareBatchCarrierOverhead) 0 []
      (List.range' lo (hi + 1 - lo)) n
    let next := if n.commitMin < n.op then some (now + prepareRetransmit) else none
    { n with timers := { n.timers with prepare := next } }

def primaryTimeouts (n : Node S) (now : Instant) : Node S :=
  if n.pendingForfeit then
    let n := { n with timers := { n.timers with
        commit := none, prepare := none, forfeitArmed := none } }
    if n.timers.svcMessage.all (fun d => decide (d ≤ now)) then n.proposeNextView now else n
  else if n.pendingDurableView then
    { n with timers := { n.timers with
        commit := none, prepare := none, svcMessage := none, dvcMessage := none
        viewChangeStatus := none } }
  else ((n.heartbeat now).retransmitPrepares now).maybeForfeit now

/-! ## The backup -/

/-- Append a prepare under its own view and take it into the log. -/
def takePrepare (n : Node S) (p : Prepare) : Node S :=
  let n := n.submitOrDeferAppend p.op (.ofBody p.op p.view p.client p.request p.body) p.body
    (.ack p.op)
  { n with log := n.log.insert p.op (logEntryFromPrepare p), appending := n.appending.add p.op }

def appendPrepare (n : Node S) (p : Prepare) : Node S :=
  if n.isDirectVoterAddPrepare p then n else { n with op := p.op }.takePrepare p

def reappendCanonicalPrepare (n : Node S) (p : Prepare) : Node S :=
  if n.isDirectVoterAddPrepare p then n
  else if n.ringAppendWouldWrap p.op then n
  else n.takePrepare p

/-- Append the buffered prepares that continue the log; at most as many turns as are buffered. -/
def drainBuffer (now : Instant) : (room : Nat) → Node S → Node S
  | 0, n => n
  | room + 1, n =>
    match n.buffer.get? (n.op + 1) with
    | none => n
    | some next =>
      if next.epoch ≠ n.membership.epoch || next.view ≠ n.view then
        { n with buffer := n.buffer.erase (n.op + 1) }
      else
        match n.maybeSyncBelowRingWindow now next.op next.checkpointOp with
        | (n, true) => n
        | (n, false) =>
          if n.bandAtCapacity then n
          else drainBuffer now room
            ({ n with buffer := n.buffer.erase (n.op + 1) }.appendPrepare next)

def requestTailGap (n : Node S) : Node S :=
  if n.status ≠ .normal || n.isPrimary || (n.sync.isSome && !n.crossEpochSpeculativeSync) then n
  else
    let lo := max n.op n.checkpointOp + 1
    let hi := min n.commitMax (lo + tailGapWindow - 1)
    (List.range' lo (hi + 1 - lo)).foldl sendRequestPrepare n

/-- A prepare at or below the head: acknowledge it again, or replace what the log holds. -/
def onHeldPrepare (n : Node S) (p : Prepare) : Node S :=
  if n.canonicalHeld p then
    if !n.appending.has p.op && n.opDurablyAppended p.op then n.sendPrepareOk p.op else n
  else if !n.appending.has p.op then n.reappendCanonicalPrepare p
  else n

def countVote (n : Node S) (ok : PrepareOk) : Node S :=
  match n.inflight.get? ok.op with
  | some inf =>
    if ok.prepareChecksum = inf.prepareChecksum then
      { n with inflight := n.inflight.insert ok.op { inf with oks := insert ok.replica inf.oks } }
    else n
  | none => n

def reportCheckpointToPrimary (n : Node S) : Node S :=
  if n.status ≠ .normal || n.isPrimary || n.sync.isSome || n.pendingDurableView
      || n.checkpointOp = 0 || n.appending.has n.checkpointOp then n
  else n.sendPrepareOk n.checkpointOp

/-! ## A newer epoch seen from outside -/

def maybeRequestCrossEpochCatchup (n : Node S) (now : Instant) (sender : Peer) (msg : Message) :
    Node S :=
  match n.newerEpochCheckpoint msg, n.quarantinedSource sender with
  | some checkpoint, some quarantined =>
    let n := if quarantined then { n with quarantinedDonor := some sender }.armQuarantineProbe now
      else { n with quarantinedDonor := none, quarantineProbeDeadline := none }
    let intent := match n.crossEpochIntent with
      | some existing => max existing checkpoint
      | none => checkpoint
    let n := { n with crossEpochIntent := some intent }
    if n.status ≠ .normal then n.enterCrossEpochPeerFetch now checkpoint
    else
      match n.sync with
      | some s =>
        let n := { n with sync := some ⟨max s.target checkpoint, s.nonce, true, true⟩ }
        let n := if s.requireCrossEpoch then n else { n with blockFetch := none }
        n.sendRequestSync now
      | none => n.armSync now checkpoint true true
  | _, _ => n

/-! ## Taking prepares, votes and commits -/

variable [StateMachine S]

/-- The prepare that continues the log. -/
def onNextPrepare (n : Node S) (now : Instant) (p : Prepare) : Node S :=
  match n.maybeSyncBelowRingWindow now p.op p.checkpointOp with
  | (n, true) => n
  | (n, false) =>
    if n.bandAtCapacity then n
    else
      let n := drainBuffer now n.buffer.size (n.appendPrepare p)
      (n.advanceCommit now n.commitMax).1

/-- A prepare of the current view, at a backup that takes part in it. -/
def placePrepare (n : Node S) (now : Instant) (p : Prepare) : Node S :=
  if p.op ≤ n.op then n.onHeldPrepare p
  else if p.op = n.op + 1 then n.onNextPrepare now p
  else
    let n := if p.op ≤ n.op + tailGapWindow then { n with buffer := n.buffer.insert p.op p } else n
    n.requestTailGap

def onPrepare (n : Node S) (now : Instant) (p : Prepare) : Node S :=
  match n.fillRepair p with
  | (n, true) => n
  | (n, false) =>
    if n.repair.has p.op then n
    else if p.epoch ≠ n.membership.epoch then n
    else if n.view < p.view then n.catchUpToView now p.view
    else if n.status ≠ .normal || p.view ≠ n.view || n.isPrimary then n
    else
      let n := (n.notePrimaryContact now).maybeRequestSync now p.checkpointOp
      if n.sync.isSome && !n.crossEpochSpeculativeSync then n
      else if n.pendingDurableView then n
      else
        match n.advanceCommit now p.commit with
        | (n, .enteredRecovery) => n
        | (n, .proceed) => n.placePrepare now p

def onPrepareBatch (n : Node S) (now : Instant) (m : PrepareBatch) : Node S :=
  (m.log.filterMap (batchedPrepare m.view m.commit m.checkpointOp m.epoch m.configId)).foldl
    (fun n p => n.onPrepare now p) n

def onPrepareOk (n : Node S) (now : Instant) (ok : PrepareOk) : Node S :=
  if n.view < ok.view then n.catchUpToView now ok.view
  else if n.status ≠ .normal || !n.isPrimary || ok.view ≠ n.view then n
  else if n.membership.replicaCount ≤ ok.replica then n
  else
    let n := n.recordPeerCheckpoint ok.replica ok.checkpointOp
    let peerCheckpoint := n.maxPeerCheckpointOp
    let (n, flow) := if n.commitMax < peerCheckpoint then n.advanceCommit now peerCheckpoint
      else (n, .proceed)
    if flow = .enteredRecovery then n
    else
      let n := (n.maybeRequestSync now ok.checkpointOp).maybeForceSync now
      ((n.countVote ok).tryCommit now).1

def onCommit (n : Node S) (now : Instant) (c : Commit) : Node S :=
  if n.view < c.view then n.catchUpToView now c.view
  else if n.status ≠ .normal || c.view ≠ n.view || n.isPrimary then n
  else
    let n := n.notePrimaryContact now
    let n := n.recordPeerCheckpoint (n.membership.primary n.view) c.checkpointOp
    let n := (n.maybeRequestSync now c.checkpointOp).maybeForceSync now
    match n.advanceCommit now c.commit with
    | (n, .enteredRecovery) => n
    | (n, .proceed) => n.requestTailGap.reportCheckpointToPrimary

end Node

end Viewstamp
