import Mathlib.Data.List.Sort
import Viewstamp.State

/- The endpoint's common ground: who the node is in its membership, how it
   speaks, how it mints storage ids, how it arms its timers, and how it tracks
   the checkpoints its peers report. -/
namespace Viewstamp

/-! ## Constants -/

def prepareRetransmit : Nat := 100
def prepareRetransmitWindow : Nat := 64
def commitHeartbeat : Nat := 50
def primaryIdlePeriod : Nat := 200
def vcMessageRetransmit : Nat := 100
def viewChangeStatusPeriod : Nat := 500
def catchUpValidationWindows : Nat := 3
def quarantineServeLimit : Nat := 8
def maxOutstandingBlockServes : Nat := 128
def forfeitGrace : Nat := 300
def recoverReadRetransmit : Nat := 100
def recoverReadRetries : Nat := 8
def recoverHeadSolicit : Nat := 100
def recoverHeadReformAttempts : Nat := 6
def repairRetransmit : Nat := 100
def syncSolicit : Nat := 100
def learnerStatusCadence : Nat := 100
def tailGapWindow : Nat := 64
def repairWindow : Nat := 64
def maxViewJump : Nat := 2 ^ 32

namespace Core

/-- The id the next storage submission carries. -/
def nextId (n : Core) : OpId := ⟨n.incarnation, n.nextOpId⟩

def isForeignCompletion (n : Core) (id : OpId) : Bool := id.incarnation ≠ n.incarnation

def localSlotOpt (n : Core) : Option ReplicaId := n.membership.slotOf n.config.localMember

def isVoter (n : Core) : Bool := n.localSlotOpt.any n.membership.isVoter
def isLearner (n : Core) : Bool := n.localSlotOpt.any n.membership.isLearner
def isPrimary (n : Core) : Bool := n.localSlotOpt.any (· == n.membership.primary n.view)

def catchingUp (n : Core) : Bool := n.viewChange.any (·.catchingUp)

/-- The current view is not yet the one the durable root vouches for. -/
def pendingDurableView (n : Core) : Bool :=
  (match n.pendingSb with
    | some (_, .sendDoViewChange) | some (_, .startViewAsPrimary)
    | some (_, .adoptedStartView) => true
    | _ => false)
  || (decide (n.durableView < n.view) && !n.catchingUp)

def participatesAsPrimary (n : Core) : Bool :=
  n.status == .normal && n.isPrimary && !n.pendingDurableView

def effectiveWalCapacity (n : Core) : Nat :=
  Viewstamp.effectiveWalCapacity n.storage.capacity n.config.checkpointOps

def ringAppendWouldWrap (n : Core) (op : OpNumber) : Bool :=
  decide (n.effectiveWalCapacity < op - n.checkpointOp)

end Core

namespace Node

variable {S : Type}

def inLineage (n : Node S) (other : Checksum) : Bool :=
  other == n.membership.configId || other == n.lineage.1 || other == n.lineage.2

/-- A state-sync checkpoint whose root is already at the superblock. -/
def syncRepersistRootStaged (n : Node S) : Bool :=
  match n.pendingCheckpoint with
  | some ⟨_, .awaitRoot _ _, .syncRepersist⟩ => true
  | _ => false

def awaitingPeerCheckpoint (n : Node S) : Bool := n.recover.any (·.awaitingPeerCheckpoint)

def swapInFlight (n : Node S) : Bool :=
  n.pendingSwap.isSome ||
    match n.pendingSb with
    | some (_, .swapEpoch _) => true
    | _ => false

/-- A reconfiguration sits in the unapplied log or is being swapped in. -/
def hasPendingReconfigure (n : Node S) : Bool :=
  n.swapInFlight ||
    n.log.entries.any fun e =>
      decide (n.commitMin < e.1) && decide (e.1 ≤ n.op) && e.2.body.isReconfigure

def isTrackedForRepair (n : Node S) (op : OpNumber) : Bool :=
  n.repair.has op || n.recover.any (·.faulty.has op)

/-- The checkpoint each voter has reported, the node's own first. -/
def voterCheckpoints (n : Node S) : List OpNumber :=
  (if n.isVoter then [n.checkpointOp] else []) ++
    ((n.membership.members.take n.membership.replicaCount).filter
      (· ≠ n.config.localMember)).map fun m => (n.peerCheckpoint.get? m).getD 0

/-- The highest checkpoint a quorum of voters has reached. -/
def computeQuorumCheckpointOp (n : Node S) : OpNumber :=
  ((n.voterCheckpoints.insertionSort (· ≥ ·))[n.membership.quorum - 1]?).getD 0

def maxPeerCheckpointOp (n : Node S) : OpNumber :=
  n.peerCheckpoint.entries.foldl
    (fun hi e => if (n.membership.slotOf e.1).isSome then max hi e.2 else hi)
    (max n.checkpointOp n.logFloor)

def quorumCheckpointOp (n : Node S) : OpNumber := n.quorumCheckpoint

/-! ## Failing, speaking, minting -/

/-- A failed `assert!` or `expect`. -/
def panic (n : Node S) : Node S := { n with panicked := true }

def assert (n : Node S) (c : Bool) : Node S := if c then n else n.panic

/-- Put a message on the wire. -/
def emit (n : Node S) (recipient : Recipient) (msg : Message) : Node S :=
  if n.panicked then n else { n with emitted := ⟨recipient, msg⟩ :: n.emitted }

def event (n : Node S) (e : Event) : Node S := { n with events := e :: n.events }

/-- `next_op_seq`: consume that id. -/
def mintId (n : Node S) : Node S := { n with nextOpId := n.nextOpId + 1 }

/-! ## Identity -/

/-- Continue with the local slot; `local_slot` panics when the node has none. -/
def withLocalSlot (n : Node S) (k : ReplicaId → Node S) : Node S :=
  match n.localSlotOpt with
  | some slot => k slot
  | none => n.panic

/-! ## Durable view -/

def smReconstructOwed (n : Node S) : Bool := n.smReconstruct.isSome

def crossEpochSpeculativeSync (n : Node S) : Bool :=
  n.status == .normal && n.sync.any (·.requireCrossEpoch)

/-- The guard on every destructive act: a committed op above the floor must be under repair. -/
def assertCommittedSurvives (n : Node S) (op checkpointFloor : OpNumber) : Node S :=
  n.assert (decide (op ≤ checkpointFloor) || n.isTrackedForRepair op || decide (n.commitMax < op))

/-! ## Checkpoint floors -/

def recomputeQuorumCheckpoint (n : Node S) : Node S :=
  { n with quorumCheckpoint := n.computeQuorumCheckpointOp }

def recordPeerCheckpoint (n : Node S) (replica : ReplicaId) (reported : OpNumber) : Node S :=
  match n.membership.memberAt replica with
  | none => n
  | some member =>
    let highest := max ((n.peerCheckpoint.get? member).getD 0) reported
    { n with
      peerCheckpoint := n.peerCheckpoint.insert member highest
      reports := (member, reported) :: n.reports }.recomputeQuorumCheckpoint

def raiseLogFloor (n : Node S) (floor : OpNumber) : Node S :=
  { n with logFloor := max n.logFloor floor }

def advanceCheckpointOp (n : Node S) (op : OpNumber) : Node S :=
  let n := n.assert (decide (n.checkpointOp ≤ op))
  let n := { n with
    checkpointOp := op
    inheritedFrontier := n.inheritedFrontier.filter fun owed => decide (op < owed)
    repersistOrphan := n.repersistOrphan.filter fun owed => decide (op < owed) }
  (n.raiseLogFloor op).recomputeQuorumCheckpoint

def setCommitMin (n : Node S) (op : OpNumber) : Node S :=
  { n.assert (decide (n.commitMin ≤ op)) with commitMin := op }

/-! ## Status and timers -/

def setStatus (n : Node S) (s : Status) : Node S :=
  if n.status = s then n else { n with status := s }.event (.statusChanged s)

def armPrimaryIdle (n : Node S) (now : Instant) : Node S :=
  if n.isVoter then
    { n with timers := { n.timers with primaryIdle := some (now + primaryIdlePeriod) } }
  else n

/-- A deadline that is never pushed out by a re-arm. -/
def sooner (prior : Option Instant) (deadline : Instant) : Option Instant :=
  some (match prior with
    | some d => min d deadline
    | none => deadline)

/-- The timers the node's status calls for. -/
def statusTimers (n : Node S) (now : Instant) : Timers :=
  let prior := n.timers
  let t : Timers := { forfeitArmed := prior.forfeitArmed, learnerStatus := prior.learnerStatus }
  match n.status with
  | .normal =>
    if n.isPrimary then
      let t := { t with commit := sooner prior.commit (now + commitHeartbeat) }
      if n.commitMin < n.op then
        { t with prepare := sooner prior.prepare (now + prepareRetransmit) }
      else t
    else if n.isVoter then { t with primaryIdle := some (now + primaryIdlePeriod) }
    else t
  | .viewChange =>
    if n.catchingUp then
      let t := { t with getViewMessage := some (now + vcMessageRetransmit) }
      if n.isVoter then { t with viewChangeStatus := some (now + viewChangeStatusPeriod) } else t
    else
      { t with
        svcMessage := some (now + vcMessageRetransmit)
        dvcMessage := some (now + vcMessageRetransmit)
        viewChangeStatus := some (now + viewChangeStatusPeriod) }
  | .recovering =>
    { t with recoverRetry := sooner prior.recoverRetry (now + recoverReadRetransmit) }
  | .recoveringHead =>
    { t with recoverHead := sooner prior.recoverHead (now + recoverHeadSolicit) }
  | .retired => t

def armTimers (n : Node S) (now : Instant) : Node S :=
  let t := n.statusTimers now
  let t := if n.status = .normal && !n.repair.isEmpty then
      { t with repairRetry := some (now + repairRetransmit) } else t
  let t := if n.sync.isSome then { t with syncSolicit := some (now + syncSolicit) } else t
  { n with timers := t }

def retirePrimaryCadence (n : Node S) : Node S :=
  { n with
    timers := { n.timers with commit := none, prepare := none, forfeitArmed := none }
    pendingForfeit := false }

def retireBackupCadence (n : Node S) : Node S :=
  { n with timers := { n.timers with
      primaryIdle := none, svcMessage := none, dvcMessage := none, viewChangeStatus := none } }

def refreshQuarantineProbe (n : Node S) (now : Instant) : Node S :=
  { n with
    quarantineProbeDeadline := some (now + syncSolicit * catchUpValidationWindows)
    quarantineProbeProgressMark := n.syncFetchProgress }

def armQuarantineProbe (n : Node S) (now : Instant) : Node S :=
  if n.quarantineProbeDeadline.isNone then n.refreshQuarantineProbe now else n

/-! ## Block jobs -/

def materializeOwed (n : Node S) : Bool := n.lane.any fun j => j.kind matches .materialize
def flushOwed (n : Node S) : Bool := n.lane.any fun j => j.kind matches .flush _ _
def restoreOwed (n : Node S) : Bool := n.lane.any fun j => j.kind matches .restore _ _ _
def walkOwed (n : Node S) : Bool := n.lane.any fun j => j.kind matches .walk _ _
def gcOwed (n : Node S) : Bool := n.lane.any fun j => j.kind matches .gc
def servesOutstanding (n : Node S) : Nat := n.lane.countP fun j => j.kind matches .serve _ _

/-- The lane's admission rule: one job of each singleton kind, a bounded number of serves. -/
def laneAdmits (n : Node S) : BlockJobKind → Bool
  | .materialize => !n.materializeOwed
  | .flush _ _ => !n.flushOwed
  | .gc => true
  | .serve _ _ => decide (n.servesOutstanding < maxOutstandingBlockServes)
  | .restore _ _ _ => !n.restoreOwed
  | .walk _ _ => !n.walkOwed

/-- `issue_block_job`: mint an id and queue the job; a second sweep folds into the first. -/
def issueBlockJob (n : Node S) (kind : BlockJobKind) : Node S :=
  let id := n.nextId
  let n := n.mintId.assert (n.laneAdmits kind)
  if kind = .gc && n.gcOwed then n else { n with lane := n.lane ++ [⟨id, kind⟩] }

end Node

end Viewstamp
