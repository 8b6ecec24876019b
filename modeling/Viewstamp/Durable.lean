import Viewstamp.Endpoint

/- How the endpoint writes: WAL appends with their slot fence and quota, and
   superblock roots with the configuration they carry. -/
namespace Viewstamp

/-- Whether a commit tail tore the generation down into recovery. -/
inductive CommitFlow where
  | proceed
  | enteredRecovery
  deriving DecidableEq

namespace Core

def quotaDeferred (n : Core) : List OpNumber :=
  (n.deferredAppends.filter fun _ d => d.reason = .quota).keys

/-- Headers of the committed ops the node still holds above a checkpoint. -/
def committedBandHeaders (n : Core) (checkpointFloor : OpNumber) : List Header :=
  (n.log.filter fun op _ =>
      decide (checkpointFloor < op) && decide (op ≤ min n.commitMax n.op)).entries.map fun e =>
    Header.fromParts e.1 n.view e.2.client e.2.request e.2.body.bodyChecksum

/-- The staged successor no longer chains from our configuration, or was overtaken on disk. -/
def swapStale (n : Core) (swap : EpochSwap) : Bool :=
  let s := swap.successor
  let effective := n.storage.effectiveRoot
  decide (Membership.computeConfigId s.epoch s.replicaCount s.learnerCount s.members
      n.membership.configId ≠ s.configId)
  || (decide (s.epoch ≤ effective.epoch) &&
      match effective.membership with
      | none => true
      | some m => m.configId != s.configId)

/-- The votes that survive a change of slots: those of voters of the successor. -/
def rekeySlotBitset (n : Core) (bits : Finset ReplicaId) (successor : Membership) :
    Finset ReplicaId :=
  bits.biUnion fun slot =>
    match (n.membership.memberAt slot).bind successor.slotOf with
    | some slot => if successor.isVoter slot then {slot} else ∅
    | none => ∅

end Core

namespace Node

variable {S : Type}

def lineageAfterPush (n : Node S) (superseded : Checksum) : Checksum × Checksum :=
  (superseded, n.lineage.1)

/-- The root with the configuration it must carry: a configuration already ahead of ours on the
timeline is never rewound. -/
def durableRoot (n : Node S) (effective : VsrState) (view logView : View)
    (commit checkpointOp : OpNumber) (checkpointId : Checksum) (headers : List Header) :
    Except VsrStateError VsrState :=
  let floor := max n.logFloor checkpointOp
  let own := VsrState.tryNewV4 view logView commit checkpointOp checkpointId headers
    n.membership.epoch n.prevEpoch n.membership [n.lineage.1, n.lineage.2] n.configInstallOp floor
    n.config.checkpointOps n.walCapacity
  match effective.membership with
  | some ahead =>
    if n.membership.epoch < ahead.epoch then
      VsrState.tryNewV4 view logView commit checkpointOp checkpointId headers
        effective.epoch effective.prevEpoch ahead effective.priorConfigIds
        effective.configInstallOp floor n.config.checkpointOps n.walCapacity
    else own
  | none => own

/-- The root of a state-sync install that also installs a successor configuration. -/
def durableRootWithSuccessor (n : Node S) (view logView : View) (commit checkpointOp : OpNumber)
    (checkpointId : Checksum) (headers : List Header) (successor : Membership)
    (successorPrevConfigId : Option Checksum) (successorInstallOp : OpNumber) :
    Except VsrStateError VsrState :=
  let ownPrior := n.membership.configId
  let lineage := match successorPrevConfigId with
    | some verifiedPrev =>
      if verifiedPrev ≠ ownPrior then (verifiedPrev, ownPrior) else n.lineageAfterPush ownPrior
    | none => n.lineageAfterPush ownPrior
  VsrState.tryNewV4 view logView commit checkpointOp checkpointId headers
    successor.epoch (successor.epoch - 1) successor [lineage.1, lineage.2] successorInstallOp
    (max n.logFloor checkpointOp) n.config.checkpointOps n.walCapacity

/-! ## Appends -/

/-- Submit an append, or park it behind the slot fence or the quota. -/
def submitAppendAs (n : Node S) (op : OpNumber) (header : Header) (body : Bytes) (kind : Pending) :
    Node S × Bool :=
  if n.panicked then (n, false)
  else
    let id := n.nextId
    let (storage, verdict) := n.storage.submitAppend id op header body
    let n := { n.mintId with storage := storage }
    match verdict with
    | .submitted => ({ n with pending := n.pending.insert id.seq kind }, true)
    | .slotFenced =>
      ({ n with deferredAppends := n.deferredAppends.insert op ⟨kind, header, body, .slot⟩ }, true)
    | .quotaExhausted =>
      ({ n with
        deferredAppends := n.deferredAppends.insert op ⟨kind, header, body, .quota⟩ }, false)

def submitOrDeferAppend (n : Node S) (op : OpNumber) (header : Header) (body : Bytes)
    (kind : Pending) : Node S :=
  (n.submitAppendAs op header body kind).1

/-- Take a deferred append out of the table and submit it again; false when the quota refuses. -/
def resubmitDeferredAppend (n : Node S) (op : OpNumber) (d : DeferredAppend) : Node S × Bool :=
  { n with deferredAppends := n.deferredAppends.erase op }.submitAppendAs op d.header d.body d.kind

/-- Resubmit quota-parked appends in op order until the quota refuses one. -/
def releaseQuotaFrom : List OpNumber → Node S → Node S
  | [], n => n
  | op :: ops, n =>
    match n.deferredAppends.get? op with
    | none => releaseQuotaFrom ops n
    | some d =>
      let (n, admitted) := n.resubmitDeferredAppend op d
      if admitted then releaseQuotaFrom ops n else n

def releaseQuotaDeferredAppends (n : Node S) : Node S := releaseQuotaFrom n.quotaDeferred n

def slotsAlias (capacity : Nat) (a b : OpNumber) : Bool :=
  a == b || (capacity ≠ unboundedCapacity && a % capacity == b % capacity)

/-- The slot of `quiesced` is free: release the append parked behind it, then the quota. -/
def releaseDeferredAppend (n : Node S) (quiesced : OpNumber) : Node S :=
  let waiter := n.deferredAppends.entries.find? fun e => slotsAlias n.storage.capacity e.1 quiesced
  let n := match waiter with
    | some (op, d) => (n.resubmitDeferredAppend op d).1
    | none => n
  n.releaseQuotaDeferredAppends

/-- Settle the appends a truncation or a prune cancelled. -/
def absorbWalCancellations (n : Node S) : List WalWrite → Node S
  | [] => n
  | w :: ws =>
    let n :=
      if n.isForeignCompletion w.id then n
      else
        match n.pending.get? w.id.seq with
        | none => n
        | some p =>
          let n := { n with pending := n.pending.erase w.id.seq }
          if n.deferredAppends.contains p.op then n
          else { n with appending := n.appending.erase p.op }
    (n.releaseDeferredAppend w.op).absorbWalCancellations ws

/-- `Wal::truncate` and the settlement of what it cancelled. -/
def truncateWal (n : Node S) (above : OpNumber) : Node S × List WalWrite :=
  if n.panicked then (n, [])
  else
    let (storage, cancelled) := n.storage.truncate above
    ({ n with storage := storage }, cancelled)

def pruneWal (n : Node S) (below : OpNumber) : Node S × List WalWrite :=
  if n.panicked then (n, [])
  else
    let (storage, cancelled) := n.storage.prune below
    ({ n with storage := storage }, cancelled)

/-! ## Roots -/

/-- Submit a superblock root. A root the superblock would refuse is a bug and stops the node. -/
def submitRoot (n : Node S) (role : RootRole) (state : Except VsrStateError VsrState) : Node S :=
  match state with
  | .error _ => n.panic
  | .ok st =>
    let n := n.assert (n.storage.rootAdmissible st)
    if n.panicked then n
    else { n.mintId with storage := n.storage.submitRoot role n.nextId st }

def pushLineage (n : Node S) (superseded : Checksum) : Node S :=
  { n with lineage := n.lineageAfterPush superseded }

/-- Make the current view durable; `action` runs when the root lands. -/
def submitDurableView (n : Node S) (action : PendingSbAction) : Node S :=
  let effective := n.storage.effectiveRoot
  let id := n.nextId
  let n := n.submitRoot .durableView
    (n.durableRoot effective n.view n.logView (max n.commitMax effective.checkpointOp)
      effective.checkpointOp effective.checkpointId
      (n.committedBandHeaders effective.checkpointOp))
  { n with pendingSb := some (id, action) }

/-- The root of a committed successor configuration. -/
def swapRoot (n : Node S) (reconfigureOp : OpNumber) (successor : Membership) :
    Except VsrStateError VsrState :=
  let effective := n.storage.effectiveRoot
  let lineage := n.lineageAfterPush n.membership.configId
  VsrState.tryNewV4 n.view n.logView (max n.commitMax effective.checkpointOp)
    effective.checkpointOp effective.checkpointId
    (n.committedBandHeaders effective.checkpointOp) successor.epoch n.membership.epoch successor
    [lineage.1, lineage.2] reconfigureOp n.logFloor n.config.checkpointOps n.walCapacity

/-- Write the root that installs a committed successor configuration. -/
def submitSwapEpoch (n : Node S) (reconfigureOp : OpNumber) (successor : Membership) : Node S :=
  { n.submitRoot .durableView (n.swapRoot reconfigureOp successor) with
    pendingSb := some (n.nextId, .swapEpoch ⟨reconfigureOp, successor⟩) }

def maybeSwapEpoch (n : Node S) : Node S :=
  match n.pendingSwap with
  | none => n
  | some swap =>
    if n.swapStale swap then { n with pendingSwap := none }
    else if n.status ≠ .normal || n.logView ≠ n.view then n
    else if n.pendingSb.isSome || n.pendingCheckpoint.isSome then n
    else n.submitSwapEpoch swap.op swap.successor

def stageEpochSwap (n : Node S) (reconfigureOp : OpNumber) (successor : Membership) : Node S :=
  if n.pendingSwap.isSome then n
  else { n with
    reconfigureInflight := none
    pendingSwap := some ⟨reconfigureOp, successor⟩ }.maybeSwapEpoch

/-! ## Installing a configuration -/

def rekeySlotQuorumsForSwap (n : Node S) (successor : Membership) : Node S :=
  { n with
    inflight := n.inflight.mapVals fun _ inf =>
      if inf.committed then inf else { inf with oks := n.rekeySlotBitset inf.oks successor }
    svcFrom := n.rekeySlotBitset n.svcFrom successor }

/-- Nothing is owed any more by a member that left. -/
def retireFromMembership (n : Node S) : Node S :=
  { n with
    pending := .empty
    appending := .empty
    deferredAppends := .empty
    inflight := .empty }.setStatus .retired

def swapMembershipInPlace (n : Node S) (now : Instant) (successor : Membership) : Node S :=
  let wasPrimary := n.isPrimary
  let n := { n with
    learnerProof := none
    healthProbe := none
    viewChange := n.viewChange.map ViewChangeCollection.dropVotes }
  let n := n.rekeySlotQuorumsForSwap successor
  let n := { n with nackFrom := .empty, membership := successor }.recomputeQuorumCheckpoint
  if !n.isVoter then
    let n := if wasPrimary then n.retirePrimaryCadence else n
    let n := n.retireBackupCadence
    if n.localSlotOpt.isNone then n.retireFromMembership else n
  else if n.status = .normal && wasPrimary != n.isPrimary then
    { n with
      pendingForfeit := false
      timers := { n.timers with forfeitArmed := none } }.armTimers now
  else n

/-- The swap of a committed configuration (`some op`) or of a synced one (`none`). -/
def installMembership (n : Node S) (now : Instant) (reconfigureOp : Option OpNumber)
    (successor : Membership) : Node S :=
  if successor.configId = n.membership.configId then n
  else if successor.epoch ≤ n.membership.epoch then n
  else
    let n := n.assert (reconfigureOp.isNone ||
      (n.membership.firstNewVoter successor.replicaCount successor.members).isNone)
    let priorConfigId := n.membership.configId
    let n := { n with prevEpoch := n.membership.epoch }.swapMembershipInPlace now successor
    let n := n.pushLineage priorConfigId
    match reconfigureOp with
    | none => n
    | some op =>
      { n with configInstallOp := op }.event
        (.membershipChanged op successor.epoch successor.configId n.isVoter n.isLearner)

/-- The two newest lineage ids a root carries, padded with the live configuration's. -/
def lineageOf (own : Checksum) : List Checksum → Checksum × Checksum
  | [] => (own, own)
  | [a] => (a, own)
  | a :: b :: _ => (a, b)

/-- A landed root that carries a newer configuration installs it. -/
def adoptLandedConfiguration (n : Node S) (now : Instant) (state : VsrState) : Node S :=
  match state.membership with
  | none => n
  | some successor =>
    if successor.epoch ≤ n.membership.epoch then n
    else
      let completedSwap :=
        n.pendingSwap.filter fun swap => swap.successor.configId = successor.configId
      let n := n.swapMembershipInPlace now successor
      let n := { n with
        prevEpoch := state.prevEpoch
        lineage := lineageOf n.membership.configId state.priorConfigIds
        configInstallOp := state.configInstallOp
        crossEpochIntent := none }
      let (n, op) := match completedSwap with
        | some swap => ({ n with pendingSwap := none }, swap.op)
        | none => (n, n.configInstallOp)
      n.event (.membershipChanged op successor.epoch successor.configId n.isVoter n.isLearner)

end Node

end Viewstamp
