import Viewstamp.Durable

/- Asking the peers: repair requests for missing ops, state-sync solicitations,
   the bookkeeping of an outstanding sync, and serving a checkpoint to a peer
   that asks. -/
namespace Viewstamp

namespace Core

/-- A primary that must not go on marks itself for a view change instead. -/
def mustAbdicate (n : Core) : Bool := decide (1 < n.membership.replicaCount) && n.isPrimary

def isHole (n : Core) (op : OpNumber) : Bool := !(n.log.get? op).any (·.body.isBodyBearing)

/-- The end of the run of holes that starts at `hi`, within `room` further ops. -/
def holeRunEnd (n : Core) : (room : Nat) → (hi : OpNumber) → OpNumber
  | 0, hi => hi
  | room + 1, hi => if n.isHole (hi + 1) then n.holeRunEnd room (hi + 1) else hi

def isSyncRequester (n : Core) : Peer → Bool
  | .replica slot => decide (slot < n.membership.nodeCount)
  | .member _ => true
  | .client _ => false

end Core

namespace Node

variable {S : Type}

/-! ## Forfeiting a primacy -/

def deferForfeit (n : Node S) (now : Instant) : Node S :=
  { n with
    pendingForfeit := true
    timers := { n.timers with svcMessage := some (now + vcMessageRetransmit) } }

/-! ## State-sync solicitation -/

def transferWalkInFlight (n : Node S) : Bool :=
  n.blockFetch.any fun bf => bf.walks matches .inFlight _

def deferPinUntilWalkCompletes (n : Node S) (sender : Peer) (m : SyncCheckpoint) : Node S :=
  { n with deferredPin := some (sender, m) }

/-- Start the next walk of the block fetch, unless one is running. -/
def issueWalk (n : Node S) (purpose : WalkPurpose) (fetched : Option (BlockAddress × Bytes)) :
    Node S :=
  match n.blockFetch with
  | none => n
  | some bf =>
    if bf.walks ≠ .idle || n.walkOwed then n
    else
      let id := n.nextId
      { n.mintId with
        blockFetch := some { bf with walks := .inFlight id }
        lane := n.lane ++ [⟨id, .walk fetched purpose⟩] }

/-- A transfer that can no longer satisfy a raised forced target is dropped. -/
def dropTransferBelowForcedTarget (n : Node S) : Node S :=
  match n.sync with
  | none => n
  | some s =>
    if !s.forced || s.requireCrossEpoch then n
    else if n.blockFetch.any (fun bf => decide (bf.checkpoint.checkpointOp < s.target)) then
      { n with blockFetch := none }
    else n

def sendRequestSync (n : Node S) (now : Instant) : Node S :=
  let nonce := match n.sync with
    | some s => s.nonce
    | none => n.nonce
  let recovery := n.awaitingPeerCheckpoint || n.smReconstructOwed
  let advertised := match n.sync with
    | some s =>
      if n.awaitingPeerCheckpoint && !s.requireCrossEpoch then max n.checkpointOp s.target
      else n.checkpointOp
    | none => n.checkpointOp
  n.withLocalSlot fun slot =>
    let request : RequestSync :=
      ⟨n.view, advertised, slot, nonce, recovery, n.membership.configId⟩
    let n := n.emit .backups (.requestSync request)
    let n := match n.quarantinedDonor with
      | some donor => n.emit (.toPeer donor) (.requestSync request)
      | none => n
    { n with timers := { n.timers with syncSolicit := some (now + syncSolicit) } }

def armSync (n : Node S) (now : Instant) (target : OpNumber) (forced requireCrossEpoch : Bool) :
    Node S :=
  let nonce := (n.nonce + 1) % 2 ^ 64
  let n := { n with nonce, sync := some ⟨target, nonce, forced, requireCrossEpoch⟩ }
  (n.event (.stateSyncStarted target)).sendRequestSync now

def crossingAnswerInFlight (n : Node S) : Bool := n.blockFetch.any (·.crossingAnswered)

def staleCrossingIntentClearable (n : Node S) : Bool :=
  n.status == .normal && n.pendingInstall.all (·.successor.isNone)
    && !n.awaitingPeerCheckpoint && !n.crossingAnswerInFlight && !n.smReconstructOwed

def crossingIsPreAnswerSpeculative (n : Node S) : Bool :=
  n.staleCrossingIntentClearable && n.pendingInstall.isNone

/-- A same-epoch need turns a speculative cross-epoch sync into an ordinary one. -/
def downgradeStaleCrossEpochSync (n : Node S) (target : OpNumber) : Node S × Bool :=
  match n.sync with
  | none => (n, false)
  | some s =>
    if !s.requireCrossEpoch || !n.crossingIsPreAnswerSpeculative then (n, false)
    else
      let n := { n with sync := some ⟨target, s.nonce, s.forced, false⟩ }
      ({ n.dropTransferBelowForcedTarget with
        crossEpochIntent := none
        quarantinedDonor := none
        quarantineProbeDeadline := none }, true)

/-- Raise an outstanding sync to a higher target, or arm a fresh forced one. -/
def raiseOrArmForcedSync (n : Node S) (now : Instant) (target : OpNumber) : Node S :=
  let (n, downgraded) := n.downgradeStaleCrossEpochSync target
  if downgraded then n
  else
    match n.sync with
    | some s =>
      if s.target < target then
        { n with sync := some ⟨target, s.nonce, true, false⟩ }.dropTransferBelowForcedTarget
      else n
    | none => n.armSync now target true false

def maybeRequestSync (n : Node S) (now : Instant) (incomingCheckpoint : OpNumber) : Node S :=
  if n.status ≠ .normal then n
  else if incomingCheckpoint ≤ n.op then n
  else
    match n.sync with
    | none => n.armSync now incomingCheckpoint false false
    | some _ =>
      let (n, downgraded) := n.downgradeStaleCrossEpochSync incomingCheckpoint
      if downgraded then n
      else
        match n.sync with
        | some s =>
          if s.target < incomingCheckpoint then
            { n with sync := some ⟨incomingCheckpoint, s.nonce, s.forced, false⟩
              }.dropTransferBelowForcedTarget
          else n
        | none => n

/-- A prepare above the ring window: sync instead of appending. -/
def maybeSyncBelowRingWindow (n : Node S) (now : Instant) (pop clusterCheckpoint : OpNumber) :
    Node S × Bool :=
  if pop - n.checkpointOp ≤ n.effectiveWalCapacity then (n, false)
  else if n.checkpointOp < clusterCheckpoint && n.commitMin < clusterCheckpoint then
    (n.raiseOrArmForcedSync now clusterCheckpoint, true)
  else (n, true)

/-- Repair holes no peer holds any more can only be closed by a checkpoint. -/
def maybeForceSync (n : Node S) (now : Instant) : Node S :=
  if n.status ≠ .normal || n.repair.isEmpty then n
  else
    let floor := n.maxPeerCheckpointOp
    if floor = 0 then n
    else if !n.repair.keys.any (fun op => decide (op ≤ floor)) then n
    else if n.mustAbdicate then n.deferForfeit now
    else
      let n := { n with repair := n.repair.filter fun op _ => decide (floor < op) }
      let n := if n.repair.isEmpty then
          { n with timers := { n.timers with repairRetry := none } } else n
      n.raiseOrArmForcedSync now floor

def cancelForcedSyncIfSatisfied (n : Node S) : Node S :=
  if n.pendingInstall.isSome || n.smReconstructOwed then n
  else if n.sync.any (fun s =>
      s.forced && decide (s.target ≤ n.commitMin) && !s.requireCrossEpoch) then
    { n with sync := none, blockFetch := none, timers := { n.timers with syncSolicit := none } }
  else n

/-! ## Repair requests -/

def sendRequestPrepare (n : Node S) (op : OpNumber) : Node S :=
  n.withLocalSlot fun slot =>
    n.emit .backups (.requestPrepare ⟨n.view, op, slot, n.membership.configId⟩)

def sendRequestPrepareRange (n : Node S) (lo hi : OpNumber) : Node S :=
  n.withLocalSlot fun slot =>
    n.emit .backups (.requestPrepareRange ⟨n.view, lo, hi, slot, n.membership.configId⟩)

/-- Mark an op as a hole; a header-only entry keeps its header. -/
def openHole (n : Node S) (op : OpNumber) : Node S :=
  let n := if (n.log.get? op).any (·.body.isRepairing) then n
    else { n with log := n.log.erase op }
  { n with repair := n.repair.add op }.assertCommittedSurvives op n.checkpointOp

def armRepairRetry (n : Node S) (now : Instant) : Node S :=
  { n with timers := { n.timers with repairRetry := some (now + repairRetransmit) } }

def requestRepair (n : Node S) (now : Instant) (op : OpNumber) : Node S :=
  (((n.openHole op).sendRequestPrepare op).armRepairRetry now).maybeForceSync now

def requestRepairRun (n : Node S) (now : Instant) (lo : OpNumber) : Node S :=
  let ceiling := min (min n.commitMax (lo + repairWindow - 1)) n.op
  let hi := n.holeRunEnd (ceiling - lo) lo
  let n := (List.range' lo (hi + 1 - lo)).foldl openHole n
  let n := (n.event (.repairStarted lo hi)).sendRequestPrepareRange lo hi
  (n.armRepairRetry now).maybeForceSync now

/-- Group the committed holes in contiguous runs of at most a window. -/
def requestHoleRuns (lo hi : OpNumber) : List OpNumber → Node S → Node S
  | [], n => n.sendRequestPrepareRange lo hi
  | op :: ops, n =>
    if op = hi + 1 && op < lo + repairWindow then requestHoleRuns lo op ops n
    else requestHoleRuns op op ops (n.sendRequestPrepareRange lo hi)

def repairTimeouts (n : Node S) (now : Instant) : Node S :=
  if n.timers.repairRetry.all (fun d => decide (now < d)) then n
  else if n.repair.isEmpty then { n with timers := { n.timers with repairRetry := none } }
  else
    let holes := n.repair.keys
    let commitMax := n.commitMax
    let n := (holes.filter fun op => decide (commitMax < op)).foldl sendRequestPrepare n
    let n := match holes.filter fun op => decide (op ≤ commitMax) with
      | [] => n
      | op :: ops => requestHoleRuns op op ops n
    n.armRepairRetry now

/-! ## Serving a checkpoint -/

def submitOrRefreshServe (n : Node S) (requester : Peer) (nonce : Nat) : Node S :=
  if n.syncServing.any (fun s => s.1 = requester) then
    { n with syncServing := n.syncServing.map fun s =>
        if s.1 = requester then (s.1, { s.2 with nonce }) else s }
  else if (requester matches .member _) && decide (quarantineServeLimit ≤
      n.syncServing.countP fun s => s.1 matches .member _) then n
  else if n.panicked then n
  else
    let id := n.nextId
    { n.mintId with
      storage := n.storage.submitCheckpointRead id
      syncServing := n.syncServing ++ [(requester, ⟨id.seq, nonce⟩)] }

def onRequestSync (n : Node S) (sender : Peer) (m : RequestSync) : Node S :=
  if n.status ≠ .normal then n
  else if n.smReconstructOwed && !m.recovery then n
  else if !n.isSyncRequester sender then n
  else if n.checkpointOp = 0 then n
  else if (if m.recovery then m.checkpointOp ≤ n.checkpointOp else m.checkpointOp < n.checkpointOp)
    then n.submitOrRefreshServe sender m.nonce
  else n

def serveSyncCheckpoint (n : Node S) (readId : OpId) (op : OpNumber) (snapshot : Bytes) : Node S :=
  match n.syncServing.find? fun s => s.2.read = readId.seq with
  | none => n
  | some (requester, serve) =>
    let n := { n with syncServing := n.syncServing.filter fun s => s.1 ≠ requester }
    if n.status ≠ .normal || n.pendingDurableView then n
    else if !n.isSyncRequester requester then n
    else if op ≠ n.checkpointOp then n
    else
      let id := checkpointId snapshot
      if id ≠ n.storage.landed.checkpointId then n
      else
        let membership :=
          if n.configInstallOp ≤ n.checkpointOp then
            (ReconfigurePayload.fromMembership n.membership n.lineage.1).encodeBody
          else []
        n.withLocalSlot fun slot =>
          n.emit (.toPeer requester) (.syncCheckpoint
            { view := n.view, checkpointOp := op, checkpointId := id
              epoch := n.membership.epoch, configId := n.membership.configId
              replica := slot, nonce := serve.nonce, snapshot, membership
              configInstallOp := if membership.isEmpty then none else some n.configInstallOp })

def onRequestBlock (n : Node S) (sender : Peer) (addr : BlockAddress) : Node S :=
  if sender matches .client _ then n
  else if maxOutstandingBlockServes ≤ n.servesOutstanding then n
  else n.issueBlockJob (.serve sender addr)

def onBlockServed (n : Node S) (peer : Peer) (addr : BlockAddress) (block : Option Bytes) :
    Node S :=
  n.emit (.toPeer peer) (.blockResponse ⟨addr, block⟩)

end Node

end Viewstamp
