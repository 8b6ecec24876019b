import Viewstamp.Normal

/- The entry points of the endpoint: a message with the checks it must pass, a
   timer tick, a storage or block completion, and the calls of the embedder. -/
namespace Viewstamp

namespace Node

variable {S : Type}

/-! ## Who may say what -/

def senderIsVoter (n : Node S) (sender : Peer) (claimed : ReplicaId) : Bool :=
  decide (claimed < n.membership.replicaCount) && sender == .replica claimed

def senderIsMember (n : Node S) (sender : Peer) (claimed : ReplicaId) : Bool :=
  decide (claimed < n.membership.nodeCount) && sender == .replica claimed

/-- A peer of another configuration that holds a slot here, or none at all. -/
def foreignConfigPeer (n : Node S) : Peer → Bool
  | .replica slot => (n.membership.memberAt slot).isSome
  | .member _ => true
  | .client _ => false

def senderAdmitsSolicitation (n : Node S) (sender : Peer) (claimed : ReplicaId)
    (configId : Checksum) : Bool :=
  n.senderIsMember sender claimed ||
    (configId != n.membership.configId && n.foreignConfigPeer sender)

def senderAdmitsSyncReply (n : Node S) (sender : Peer) (claimed : ReplicaId)
    (configId : Checksum) : Bool :=
  n.senderIsMember sender claimed ||
    (configId != n.membership.configId && n.sync.isSome && n.foreignConfigPeer sender)

def senderIsAnyMember (n : Node S) : Peer → Bool
  | .replica r => decide (r < n.membership.nodeCount)
  | _ => false

def senderIsPrimaryOf (n : Node S) (sender : Peer) (view : View) : Bool :=
  sender == .replica (n.membership.primary view)

def senderMatches (n : Node S) (sender : Peer) : Message → Bool
  | .request r =>
    sender == .client r.client ||
      match sender with
      | .replica id => decide (id < n.membership.replicaCount)
      | _ => false
  | .prepareOk m => n.senderIsVoter sender m.replica
  | .startViewChange m => n.senderIsVoter sender m.replica
  | .doViewChange m => n.senderIsVoter sender m.replica
  | .getView m => n.senderIsMember sender m.replica
  | .requestPrepare m => n.senderAdmitsSolicitation sender m.replica m.configId
  | .requestPrepareRange m => n.senderAdmitsSolicitation sender m.replica m.configId
  | .nack m => n.senderIsMember sender m.replica
  | .recovery m => n.senderIsMember sender m.replica
  | .requestSync m => n.senderAdmitsSolicitation sender m.replica m.configId
  | .recoveryResponse m => n.senderIsMember sender m.replica
  | .syncCheckpoint m => n.senderAdmitsSyncReply sender m.replica m.configId
  | .learnerStatus m => n.senderIsMember sender m.replica
  | .requestLearnerProof m => n.senderIsMember sender m.sender
  | .learnerProof m => n.senderIsMember sender m.replica
  | .requestHealthProof m => n.senderIsMember sender m.sender
  | .healthProof m => n.senderIsMember sender m.replica
  | .commit m => n.senderIsPrimaryOf sender m.view
  | .startView m => n.senderIsPrimaryOf sender m.view
  | .prepareBatch m => n.senderIsPrimaryOf sender m.view
  | .prepare p =>
    n.senderIsPrimaryOf sender p.view || (n.senderIsAnyMember sender && n.repair.has p.op)
  | .repairBatch _ => n.senderIsAnyMember sender
  | .reply _ => true
  | .epochAhead _ => false
  | .requestBlock _ | .blockResponse _ => n.senderIsAnyMember sender || sender matches .member _

/-- The epoch a message is sent in, for the messages that carry one. -/
def messageEpoch : Message → Option Epoch
  | .prepare m => some m.epoch
  | .commit m => some m.epoch
  | .prepareOk m => some m.epoch
  | .startViewChange m => some m.epoch
  | .doViewChange m => some m.epoch
  | .startView m => some m.epoch
  | .getView m => some m.epoch
  | .recovery m => some m.epoch
  | .recoveryResponse m => some m.epoch
  | .prepareBatch m => some m.epoch
  | .learnerStatus m => some m.epoch
  | _ => none

def epochAuthorityAdmits (n : Node S) : Message → Bool
  | .prepareOk m => m.epoch == n.membership.epoch && n.inLineage m.configId
  | .commit m => m.epoch == n.membership.epoch && n.inLineage m.configId
  | .startViewChange m => m.epoch == n.membership.epoch && n.inLineage m.configId
  | .doViewChange m => m.epoch == n.membership.epoch && n.inLineage m.configId
  | .startView m => m.epoch == n.membership.epoch && n.inLineage m.configId
  | .getView m => m.epoch == n.membership.epoch && n.inLineage m.configId
  | .recovery m => m.epoch == n.membership.epoch && n.inLineage m.configId
  | .recoveryResponse m => m.epoch == n.membership.epoch && n.inLineage m.configId
  | .prepareBatch m => m.epoch == n.membership.epoch && n.inLineage m.configId
  | .learnerStatus m => m.epoch == n.membership.epoch && n.inLineage m.configId
  | .requestLearnerProof m => m.epoch == n.membership.epoch && n.inLineage m.configId
  | .learnerProof m => m.epoch == n.membership.epoch && n.inLineage m.configId
  | .requestHealthProof m => m.epoch == n.membership.epoch && n.inLineage m.configId
  | .healthProof m => m.epoch == n.membership.epoch && n.inLineage m.configId
  | .prepare m => n.inLineage m.configId
  | .requestPrepare m => n.inLineage m.configId
  | .requestPrepareRange m => n.inLineage m.configId
  | .nack m => n.inLineage m.configId
  | .repairBatch m => n.inLineage m.configId
  | .syncCheckpoint m => n.inLineage m.configId || n.sync.isSome
  | .epochAhead _ => false
  | .requestSync _ | .request _ | .reply _ | .requestBlock _ | .blockResponse _ => true

/-- Traffic of our own epoch shows that a speculative epoch crossing was a false alarm. -/
def cancelStaleCrossEpochSync (n : Node S) (msg : Message) : Node S :=
  let crossingSync := n.sync.any (·.requireCrossEpoch)
  if n.crossEpochIntent.isNone && !crossingSync then n
  else if !n.staleCrossingIntentClearable then n
  else if messageEpoch msg ≠ some n.membership.epoch then n
  else
    let n := if crossingSync && n.crossingIsPreAnswerSpeculative then
        { n with sync := none, blockFetch := none } else n
    { n with crossEpochIntent := none, quarantinedDonor := none, quarantineProbeDeadline := none }

/-- The lower-epoch messages a node tells of the newer epoch. -/
def answersLowerEpoch : Message → Bool
  | .prepare _ | .commit _ | .startViewChange _ | .doViewChange _ | .learnerStatus _ => true
  | _ => false

def maybeAnswerLowerEpoch (n : Node S) (sender : Peer) (msg : Message) : Node S :=
  if n.status ≠ .normal || n.localSlotOpt.isNone then n
  else if answersLowerEpoch msg && (messageEpoch msg).any (fun e => decide (e < n.membership.epoch))
      && n.foreignConfigPeer sender then
    n.emit (.toPeer sender) (.epochAhead ⟨n.membership.epoch, n.checkpointOp⟩)
  else n

/-! ## Learners and health -/

def onLearnerStatus (n : Node S) (m : LearnerStatus) : Node S :=
  match n.membership.memberAt m.replica with
  | none => n
  | some member =>
    let reported := max ((n.peerProgress.get? member).getD 0) (min m.durableCommitMin m.durableOp)
    { n with peerProgress := n.peerProgress.insert member reported }

/-- The frontier a learner reports is what it has applied. -/
def onRequestLearnerProof (n : Node S) (m : RequestLearnerProof) : Node S :=
  if m.epoch ≠ n.membership.epoch || m.configId ≠ n.membership.configId then n
  else n.withLocalSlot fun slot =>
    n.emit (.toPeer (.replica m.sender)) (.learnerProof
      ⟨slot, m.nonce, n.commitMin, n.membership.epoch, n.membership.configId⟩)

def onLearnerProof (n : Node S) (sender : Peer) (m : LearnerProof) : Node S :=
  match n.learnerProof with
  | none => n
  | some challenge =>
    let resolved := match sender with
      | .replica slot => n.membership.memberAt slot
      | _ => none
    if m.nonce ≠ challenge.nonce then n
    else if resolved ≠ some challenge.target then n
    else if m.epoch ≠ n.membership.epoch || m.configId ≠ n.membership.configId then n
    else { n with learnerProof := some { challenge with proof := some m.frontier } }

def solicitHealthProofs (n : Node S) (now : Instant) (lifetime : Nat) : Node S :=
  if n.status ≠ .normal || !n.isPrimary then n
  else
    let n := if n.healthProbe.any (fun p => decide (now < p.expiresAt)) then n
      else
        let nonce := (n.nonce + 1) % 2 ^ 64
        { n with nonce, healthProbe := some ⟨nonce, now, now + lifetime, ∅⟩ }
    let nonce := match n.healthProbe with
      | some p => p.nonce
      | none => n.nonce
    n.withLocalSlot fun own =>
      ((List.range n.membership.replicaCount).filter (· ≠ own)).foldl (fun n slot =>
        n.emit (.toPeer (.replica slot)) (.requestHealthProof
          ⟨own, nonce, n.membership.epoch, n.membership.configId⟩)) n

def onRequestHealthProof (n : Node S) (m : RequestHealthProof) : Node S :=
  if m.epoch ≠ n.membership.epoch || m.configId ≠ n.membership.configId then n
  else n.withLocalSlot fun slot =>
    n.emit (.toPeer (.replica m.sender)) (.healthProof
      ⟨slot, m.nonce, n.membership.epoch, n.membership.configId⟩)

def onHealthProof (n : Node S) (sender : Peer) (m : HealthProof) : Node S :=
  match n.healthProbe, sender with
  | some probe, .replica slot =>
    if m.nonce ≠ probe.nonce then n
    else if m.epoch ≠ n.membership.epoch || m.configId ≠ n.membership.configId then n
    else if !n.membership.isVoter slot then n
    else
      match n.membership.memberAt slot with
      | some member =>
        { n with healthProbe := some { probe with responders := insert member probe.responders } }
      | none => n
  | _, _ => n

def learnerStatusTimeouts (n : Node S) (now : Instant) : Node S :=
  if !n.isLearner then { n with timers := { n.timers with learnerStatus := none } }
  else
    let rearm (n : Node S) : Node S :=
      { n with timers := { n.timers with learnerStatus := some (now + learnerStatusCadence) } }
    match n.timers.learnerStatus with
    | none => rearm n
    | some deadline =>
      if now < deadline then n
      else rearm (n.withLocalSlot fun slot =>
        n.emit (.toPeer (.replica (n.membership.primary n.view))) (.learnerStatus
          ⟨slot, n.commitMin, n.storage.opHead, n.membership.epoch, n.membership.configId⟩))

variable [StateMachine S]

/-! ## Messages -/

def onRecoveringMessage (n : Node S) (now : Instant) (sender : Peer) (msg : Message) : Node S :=
  if !n.awaitingPeerCheckpoint then n
  else
    match msg with
    | .syncCheckpoint m => n.onRecoverSyncCheckpoint now sender m
    | .blockResponse m => n.onBlockResponse sender m
    | _ => n

def onRecoveringHeadMessage (n : Node S) (now : Instant) (msg : Message) : Node S :=
  match msg with
  | .startView m => n.onStartView now m
  | .recoveryResponse m => n.onRecoveryResponse now m
  | .recovery m =>
    if !n.membership.isVoter m.replica then n
    else n.withLocalSlot fun own =>
      if m.replica = own then n
      else n.mapRecover fun r => { r with peersRecovering := insert m.replica r.peersRecovering }
  | _ => n

def onActiveMessage (n : Node S) (now : Instant) (sender : Peer) (msg : Message) : Node S :=
  match msg with
  | .request r => n.onRequest now r
  | .prepare p => n.onPrepare now p
  | .prepareBatch m => n.onPrepareBatch now m
  | .prepareOk ok => n.onPrepareOk now ok
  | .commit c => n.onCommit now c
  | .startViewChange m => n.onStartViewChange now m
  | .doViewChange m => n.onDoViewChange now m
  | .startView m => n.onStartView now m
  | .getView m => n.onGetView m
  | .requestPrepare m => n.onRequestPrepare sender m
  | .requestPrepareRange m => n.onRequestPrepareRange sender m
  | .recovery m => n.onRecovery m
  | .recoveryResponse m => n.onRecoveryResponse now m
  | .requestSync m => n.onRequestSync sender m
  | .syncCheckpoint m => n.handleSyncCheckpoint now sender m
  | .repairBatch m => n.onRepairBatch m
  | .learnerStatus m => n.onLearnerStatus m
  | .requestLearnerProof m => n.onRequestLearnerProof m
  | .learnerProof m => n.onLearnerProof sender m
  | .requestHealthProof m => n.onRequestHealthProof m
  | .healthProof m => n.onHealthProof sender m
  | .reply _ | .epochAhead _ => n
  | .requestBlock addr => n.onRequestBlock sender addr
  | .blockResponse m => n.onBlockResponse sender m
  | .nack m => n.onNack sender m

/-- The last part of `handle_message`: who takes the message depends on the status. -/
def dispatch (n : Node S) (now : Instant) (sender : Peer) (msg : Message) : Node S :=
  match n.status with
  | .recovering => n.onRecoveringMessage now sender msg
  | .recoveringHead => n.onRecoveringHeadMessage now msg
  | _ => n.onActiveMessage now sender msg

def handleMessage (n : Node S) (now : Instant) (sender : Peer) (msg : Message) : Node S :=
  if n.status = .retired then n
  else
    let n := (n.maybeRequestCrossEpochCatchup now sender msg).maybeAnswerLowerEpoch sender msg
    if !n.senderMatches sender msg then n
    else if !n.epochAuthorityAdmits msg then n
    else
      (n.cancelStaleCrossEpochSync msg).dispatch now sender msg

/-- The replica when it takes a message, if it does. -/
def admits (n : Node S) (now : Instant) (sender : Peer) (msg : Message) : Option (Node S) :=
  let m := (n.maybeRequestCrossEpochCatchup now sender msg).maybeAnswerLowerEpoch sender msg
  if n.status = .retired || !m.senderMatches sender msg || !m.epochAuthorityAdmits msg then none
  else some (m.cancelStaleCrossEpochSync msg)

/-! ## Timers -/

def primaryTick (n : Node S) (now : Instant) : Node S :=
  let n := (n.primaryTimeouts now).maybeAdoptInheritedFrontier
  match n.maybeEnterOrphanRepersistRecovery now with
  | (n, .enteredRecovery) => n
  | (n, .proceed) => (n.maybePayCheckpointDebt now).maybeCheckpoint

omit [StateMachine S] in
def backupTick (n : Node S) (now : Instant) : Node S :=
  let n := if n.timers.primaryIdle.isNone then n.armPrimaryIdle now else n
  let n :=
    if timerDue n.timers.primaryIdle now then (n.proposeNextView now).armPrimaryIdle now else n
  if timerDue n.timers.svcMessage now then
    let n := n.pushSvc n.svcTarget
    { n with timers := { n.timers with svcMessage := some (now + vcMessageRetransmit) } }
  else n

def statusTick (n : Node S) (now : Instant) : Node S :=
  match n.status with
  | .normal => if n.isPrimary then n.primaryTick now else n.backupTick now
  | .viewChange => n.viewChangeTimeouts now
  | .recovering => n.recoverTimeouts now
  | .recoveringHead => n.recoverHeadTimeouts now
  | .retired => n

def handleTimeout (n : Node S) (now : Instant) : Node S :=
  let (n, gaveUp) := n.advanceQuarantineProbe now
  let n := if gaveUp && n.status = .recovering then n.retireRecoverAndEscalate now else n
  let n := n.statusTick now
  if n.status = .normal then
    ((n.repairTimeouts now).syncTimeouts now).learnerStatusTimeouts now
  else n

/-! ## Block completions -/

/-- What a block job reports; block contents and service images live outside the node. -/
inductive BlockJobOutput (S : Type) where
  | materialized (smRoot sessionsRoot : BlockAddress) (flushed : Bool)
  | flushed (ok : Bool)
  | gced
  | served (block : Option Bytes)
  | walked (accepted : Bool) (next : Option (Option BlockAddress))
  | restored (result : Option (S × OrdMap ClientId Session))

omit [StateMachine S] in
def redeliverDeferredPin (n : Node S) (now : Instant) : Node S :=
  match n.deferredPin with
  | none => n
  | some (sender, m) =>
    let n := { n with deferredPin := none }
    if n.isRecoveringFromPeer then n.onRecoverSyncCheckpoint now sender m
    else n.handleSyncCheckpoint now sender m

/-- `on_block_done` for a job taken off the lane. An output of the wrong kind cannot arise. -/
def onBlockDone (n : Node S) (now : Instant) (job : BlockJob) (output : BlockJobOutput S) :
    Node S :=
  let n := match job.kind with
    | .walk _ _ => n.redriveDeferredRecoverProbe
    | _ => n
  if n.isForeignCompletion job.id then n
  else
    match job.kind, output with
    | .materialize, .materialized smRoot sessionsRoot flushed =>
      n.onCheckpointMaterialized job.id smRoot sessionsRoot flushed
    | .flush _ _, .flushed ok => n.onCheckpointBlocksFlushed now job.id ok
    | .serve peer addr, .served block => n.onBlockServed peer addr block
    | .walk _ purpose, .walked accepted next =>
      (n.onWalked now job.id purpose accepted next).redeliverDeferredPin now
    | .restore _ _ .syncedCheckpoint, .restored result =>
      if n.smReconstruct.bind (·.restore) ≠ some job.id then n else n.onSmRestored now result
    | .restore _ _ (.recoveredCheckpoint c), .restored result =>
      if n.recover.bind (·.reconstruct) ≠ some job.id then n
      else n.onRecoveredCheckpointRestored now c result
    | _, _ => n

/-! ## Sealing -/

omit [StateMachine S] in
def hasInflightStorage (n : Node S) : Bool :=
  !n.storage.walWrites.isEmpty || !n.storage.roots.isEmpty || !n.storage.checkpoints.isEmpty
    || !n.lane.isEmpty || !n.pending.isEmpty || !n.appending.isEmpty || !n.deferredAppends.isEmpty
    || n.pendingSb.isSome || n.pendingCheckpoint.isSome || n.pendingInstall.isSome
    || !n.syncServing.isEmpty

omit [StateMachine S] in
/-- `seal_committed_frontier`: write the current root of an idle node. -/
def sealCommittedFrontier (n : Node S) : Node S :=
  if n.status = .normal && !n.hasInflightStorage then n.submitDurableView .sealed else n

end Node

end Viewstamp
