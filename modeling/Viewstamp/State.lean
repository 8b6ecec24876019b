import Mathlib.Data.Finset.Basic
import Mathlib.Data.Finset.Card
import Mathlib.Data.Finset.Image
import Mathlib.Data.Finset.Union
import Viewstamp.Storage

/- The state of one replica: the endpoint's fields, the storage session it
   drives, and the history of what it has done.

   The fields fall in two groups. `Core` is the replication state proper: the
   view, the log, the votes, what is durable and what has been said. `Aux` is the
   bookkeeping that decides when the replica acts: timers, client sessions,
   state-sync progress, probes. A `Node` is both. The histories (`emitted`,
   `applied`, and the `reports` behind `peerCheckpoint`, with the count of the
   `resets` that have emptied it) are records that no code reads.

   Counters that only feed metrics are left out. An `assert!` of the source sets
   `panicked`; from then on nothing leaves the node and nothing reaches storage,
   and the only thing that can happen to it is a restart. -/
namespace Viewstamp

/-- A set of op numbers in ascending order. -/
abbrev OpSet := OrdMap Nat Unit

namespace OpSet

def add (s : OpSet) (k : Nat) : OpSet := s.insert k ()
def has (s : OpSet) (k : Nat) : Bool := s.contains k

end OpSet

/-! ## Log entries, appends, votes -/

structure LogEntry where
  client : ClientId
  request : RequestNumber
  body : Body
  deriving DecidableEq

namespace LogEntry

def present (client : ClientId) (request : RequestNumber) (body : Bytes) : LogEntry :=
  ⟨client, request, .present body⟩

def reconfigure (client : ClientId) (request : RequestNumber) (p : ReconfigurePayload) :
    LogEntry := ⟨client, request, .reconfigure p⟩

/-- Rebuild an entry from committed bytes: a reconfiguration is decoded back to its payload. -/
def fromCommittedBody (client : ClientId) (request : RequestNumber) (body : Bytes) : LogEntry :=
  if client = ClientId.reconfiguration then
    match ReconfigurePayload.decodeBody body with
    | some p => reconfigure client request p
    | none => present client request body
  else present client request body

def bodyBytes (e : LogEntry) : Option Bytes := e.body.bodyBytes
def bodyChecksum (e : LogEntry) : Checksum := e.body.bodyChecksum

/-- The identity votes for this entry are counted in. -/
def identity (e : LogEntry) : Checksum := prepareIdentity e.client e.request e.bodyChecksum

def ofPrepared (e : PreparedEntry) : LogEntry := ⟨e.client, e.request, e.body⟩

end LogEntry

/-- What an append owes on completion. -/
inductive Pending where
  | ack (op : OpNumber)
  | adoptVote (op : OpNumber)
  | adoptAck (op : OpNumber)
  | repairFill (op : OpNumber) (entry : LogEntry)
  deriving DecidableEq

def Pending.op : Pending → OpNumber
  | ack op | adoptVote op | adoptAck op | repairFill op _ => op

inductive DeferReason where
  | slot
  | quota
  deriving DecidableEq

structure DeferredAppend where
  kind : Pending
  header : Header
  body : Bytes
  reason : DeferReason
  deriving DecidableEq

structure Inflight where
  oks : Finset ReplicaId
  committed : Bool
  prepareChecksum : Checksum
  deriving DecidableEq

structure EpochSwap where
  op : OpNumber
  successor : Membership
  deriving DecidableEq

/-- What the landing of a durable-view root releases. -/
inductive PendingSbAction where
  | sendDoViewChange
  | startViewAsPrimary
  | adoptedStartView
  | sealed
  | swapEpoch (swap : EpochSwap)
  deriving DecidableEq

structure CheckpointDag where
  checkpointId : Checksum
  smRoot : BlockAddress
  sessionsRoot : BlockAddress
  deriving DecidableEq

inductive CheckpointStep where
  | flushingBlocks (job : OpId)
  | awaitSnapshot (id : OpId) (dag : CheckpointDag)
  | awaitRoot (id : OpId) (dag : CheckpointDag)
  deriving DecidableEq

def CheckpointStep.writeId : CheckpointStep → Option OpId
  | flushingBlocks _ => none
  | awaitSnapshot id _ | awaitRoot id _ => some id

inductive CheckpointKind where
  | ordinary
  | syncRepersist
  deriving DecidableEq

structure PendingCheckpoint where
  targetOp : OpNumber
  step : CheckpointStep
  kind : CheckpointKind
  deriving DecidableEq

structure ViewChangeCollection where
  dvcFrom : OrdMap ReplicaId DoViewChange := .empty
  dvcQuorum : Bool := false
  catchingUp : Bool
  catchupWindows : Nat := 0

/-- `ViewChangeCollection::entering`. -/
def ViewChangeCollection.entering (catchingUp : Bool) : ViewChangeCollection := { catchingUp }

/-- Votes of another membership do not count; a quorum already acted on stays. -/
def ViewChangeCollection.dropVotes (vc : ViewChangeCollection) : ViewChangeCollection :=
  if vc.dvcQuorum then vc else { vc with dvcFrom := .empty }

def ViewChangeCollection.countWindow (vc : ViewChangeCollection) : ViewChangeCollection :=
  { vc with catchupWindows := min (vc.catchupWindows + 1) 255 }

structure RecoveredCheckpoint where
  op : OpNumber
  smRoot : BlockAddress
  sessionsRoot : BlockAddress
  deriving DecidableEq

/-- The state of a recovery: reads still owed, what they have found, and the reformation count. -/
structure RecoverState where
  pending : OrdMap Nat Nat := .empty
  reads : OrdMap Nat Nat := .empty
  faulty : OpSet := .empty
  absent : OpSet := .empty
  checkpoint : Option Nat := none
  checkpointReads : OpSet := .empty
  reconstruct : Option OpId := none
  probeDeferred : Option (Checksum × RecoveredCheckpoint) := none
  formatted : Bool := false
  checkpointRetries : Nat := 0
  awaitingPeerCheckpoint : Bool := false
  canonical : OrdMap Nat (ClientId × RequestNumber × Checksum) := .empty
  reformAttempts : Nat := 0
  peersRecovering : Finset ReplicaId := ∅
  peersRecoveringPrev : Finset ReplicaId := ∅

inductive RetryVerdict where
  | wait
  | retry (budget : Nat)
  | exhausted
  deriving DecidableEq

def retryVerdict (outstanding : Bool) (budget : Nat) : RetryVerdict :=
  if outstanding then .wait
  else match budget with
    | 0 => .exhausted
    | rest + 1 => .retry rest

/-! ## Client sessions, state sync, probes -/

structure Session where
  request : RequestNumber := 0
  reply : Option (RequestNumber × Bytes) := none
  lastOp : OpNumber := 0
  deriving DecidableEq

structure SyncState where
  target : OpNumber
  nonce : Nat
  forced : Bool
  requireCrossEpoch : Bool
  deriving DecidableEq

structure LearnerProofState where
  target : MemberId
  atOp : OpNumber
  nonce : Nat
  proof : Option OpNumber
  deriving DecidableEq

structure HealthProbeState where
  nonce : Nat
  solicitedAt : Instant
  expiresAt : Instant
  responders : Finset MemberId
  deriving DecidableEq

structure SyncServe where
  read : Nat
  nonce : Nat
  deriving DecidableEq

/-- Where the frontier walk of a block fetch stands; the walk itself belongs to the block lane. -/
inductive WalkState where
  | idle
  | inFlight (job : OpId)
  deriving DecidableEq

structure BlockFetch where
  checkpoint : SyncCheckpoint
  smRoot : BlockAddress
  sessionsRoot : BlockAddress
  donor : Peer
  walks : WalkState
  crossingAnswered : Bool
  resolicitedFront : Option BlockAddress
  deriving DecidableEq

structure PendingInstall where
  checkpointOp : OpNumber
  sessionsRoot : BlockAddress
  smRoot : BlockAddress
  heldTail : Bool
  successor : Option Membership
  successorPrevConfigId : Option Checksum
  successorInstallOp : Option OpNumber
  checkpoint : SyncCheckpoint
  donor : Peer
  deriving DecidableEq

structure SmReconstruct where
  checkpointOp : OpNumber
  smRoot : BlockAddress
  sessionsRoot : BlockAddress
  checkpoint : SyncCheckpoint
  donor : Peer
  restore : Option OpId
  deriving DecidableEq

inductive RestorePurpose where
  | syncedCheckpoint
  | recoveredCheckpoint (r : RecoveredCheckpoint)
  deriving DecidableEq

inductive WalkPurpose where
  | arm
  | rearm (retry : Bool)
  | arq
  | response (sender : Peer) (addr : BlockAddress) (present : Bool)
  | recoverProbe (r : RecoveredCheckpoint)
  deriving DecidableEq

inductive BlockJobKind where
  | materialize
  | flush (smRoot sessionsRoot : BlockAddress)
  | gc
  | serve (peer : Peer) (addr : BlockAddress)
  | restore (smRoot sessionsRoot : BlockAddress) (purpose : RestorePurpose)
  | walk (fetched : Option (BlockAddress × Bytes)) (purpose : WalkPurpose)
  deriving DecidableEq

structure BlockJob where
  id : OpId
  kind : BlockJobKind
  deriving DecidableEq

structure Timers where
  prepare : Option Instant := none
  commit : Option Instant := none
  primaryIdle : Option Instant := none
  svcMessage : Option Instant := none
  dvcMessage : Option Instant := none
  viewChangeStatus : Option Instant := none
  getViewMessage : Option Instant := none
  recoverRetry : Option Instant := none
  recoverHead : Option Instant := none
  repairRetry : Option Instant := none
  learnerStatus : Option Instant := none
  syncSolicit : Option Instant := none
  forfeitArmed : Option Instant := none
  deriving DecidableEq

inductive Event where
  | committed (op : OpNumber) (client : ClientId) (request : RequestNumber) (reply : Bytes)
  | viewChanged (view : View) (isPrimary : Bool)
  | statusChanged (status : Status)
  | stateSyncStarted (op : OpNumber)
  | stateSyncCompleted (op : OpNumber)
  | repairStarted (lo hi : OpNumber)
  | checkpointDurable (op : OpNumber)
  | membershipChanged (op : OpNumber) (epoch : Epoch) (configId : Checksum)
      (selfIsVoter selfIsLearner : Bool)
  deriving DecidableEq

/-! ## History -/

/-- An operation as it was applied; `reconfigure` when it changed the configuration, which the
service never sees. -/
structure Applied where
  incarnation : Nat
  op : OpNumber
  client : ClientId
  request : RequestNumber
  body : Bytes
  reconfigure : Bool
  deriving DecidableEq

/-! ## The node -/

/-- The replicated service. Checkpoint images live in the block store, behind the block lane. -/
class StateMachine (S : Type) where
  apply : S → OpNumber → Bytes → S × Bytes

/-- The replication state. -/
structure Core where
  config : Config
  walCapacity : Nat
  membership : Membership
  status : Status
  view : View
  durableView : View
  op : OpNumber
  commitMin : OpNumber
  commitMax : OpNumber
  logView : View
  viewChange : Option ViewChangeCollection
  log : OrdMap Nat LogEntry
  inflight : OrdMap Nat Inflight
  incarnation : Nat
  nextOpId : Nat
  pending : OrdMap Nat Pending
  deferredAppends : OrdMap Nat DeferredAppend
  appending : OpSet
  pendingSb : Option (OpId × PendingSbAction)
  pendingCheckpoint : Option PendingCheckpoint
  recover : Option RecoverState
  repersistOrphan : Option OpNumber
  repair : OpSet
  checkpointOp : OpNumber
  logFloor : OpNumber
  storage : Storage
  panicked : Bool
  emitted : List Outgoing
  applied : List Applied

/-- The bookkeeping that decides when the replica acts. -/
structure Aux (S : Type) where
  prevEpoch : Epoch
  lineage : Checksum × Checksum
  configInstallOp : OpNumber
  sm : S
  smAt : OpNumber
  buffer : OrdMap Nat Prepare
  svcFrom : Finset ReplicaId
  svcTarget : View
  nonce : Nat
  clients : OrdMap ClientId Session
  events : List Event
  timers : Timers
  walPruned : OpNumber
  inheritedFrontier : Option OpNumber
  checkpointSmRoot : Option BlockAddress
  checkpointSessionsRoot : Option BlockAddress
  peerCheckpoint : OrdMap MemberId OpNumber
  reports : List (MemberId × OpNumber)
  resets : Nat
  nackFrom : OrdMap Nat (Finset MemberId)
  quorumCheckpoint : OpNumber
  syncCarriedFaulty : OpSet
  sync : Option SyncState
  crossEpochIntent : Option OpNumber
  quarantinedDonor : Option Peer
  quarantineProbeDeadline : Option Instant
  quarantineProbeProgressMark : Nat
  syncFetchProgress : Nat
  pendingInstall : Option PendingInstall
  syncServing : List (Peer × SyncServe)
  blockFetch : Option BlockFetch
  deferredPin : Option (Peer × SyncCheckpoint)
  smReconstruct : Option SmReconstruct
  pendingForfeit : Bool
  reconfigureInflight : Option OpNumber
  pendingSwap : Option EpochSwap
  payingCheckpointDebt : Bool
  peerProgress : OrdMap MemberId OpNumber
  learnerProof : Option LearnerProofState
  healthProbe : Option HealthProbeState
  lane : List BlockJob

/-- One replica. -/
structure Node (S : Type) extends Core, Aux S

end Viewstamp
