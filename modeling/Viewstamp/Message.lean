import Viewstamp.Types

/- Log bodies, prepared entries and the messages replicas exchange.

   A `Body` is one of three states: the client's bytes, a header-only hole that
   carries the checksum of the bytes it waits for (`repairing`), or a
   reconfiguration payload, which stands for its own canonical encoding. The
   fields of each message are the source's fields, in the source's order. -/
namespace Viewstamp

/-! ## Reconfiguration payloads -/

structure ReconfigurePayload where
  replicaCount : Nat
  learnerCount : Nat
  members : List MemberId
  prevConfigId : Checksum
  deriving DecidableEq

namespace ReconfigurePayload

def fromMembership (m : Membership) (prevConfigId : Checksum) : ReconfigurePayload :=
  ⟨m.replicaCount, m.learnerCount, m.members, prevConfigId⟩

def toMembership (p : ReconfigurePayload) (epoch : Epoch) (configId : Checksum) :
    Except MembershipError Membership :=
  Membership.fromDurableParts epoch p.replicaCount p.learnerCount p.members configId

/-- Rebuild the membership, refusing a lineage id the payload does not hash to. -/
def toMembershipVerified (p : ReconfigurePayload) (epoch : Epoch) (configId : Checksum) :
    Except MembershipError Membership :=
  if Membership.computeConfigId epoch p.replicaCount p.learnerCount p.members p.prevConfigId
      ≠ configId then .error .forkedConfigId
  else p.toMembership epoch configId

/-- `write_reconfigure`: the counts, the member list with its length, the previous id. -/
def encodeBody (p : ReconfigurePayload) : Bytes :=
  beBytes 1 p.replicaCount ++ beBytes 2 p.learnerCount ++ beBytes 4 p.members.length
    ++ p.members.flatMap (beBytes 16) ++ beBytes 16 p.prevConfigId

/-- `n` consecutive 16-byte words and the rest. -/
def readWords : Nat → Bytes → Option (List Nat × Bytes)
  | 0, bs => some ([], bs)
  | n + 1, bs =>
    if bs.length < 16 then none
    else (readWords n (bs.drop 16)).map fun r => (ofBeBytes (bs.take 16) :: r.1, r.2)

/-- `decode_body`: `read_reconfigure` over the whole input, with nothing left over. The length
prefix is refused when the input cannot hold that many members. -/
def decodeBody (bs : Bytes) : Option ReconfigurePayload :=
  if bs.length < 7 then none
  else
    let count := ofBeBytes ((bs.drop 3).take 4)
    let rest := bs.drop 7
    if rest.length < count * 16 then none
    else
      match readWords count rest with
      | some (members, tail) =>
        if tail.length = 16 then
          some ⟨ofBeBytes (bs.take 1), ofBeBytes ((bs.drop 1).take 2), members, ofBeBytes tail⟩
        else none
      | none => none

def bodyChecksum (p : ReconfigurePayload) : Checksum := fnv1a128 p.encodeBody

end ReconfigurePayload

/-! ## Bodies and prepared entries -/

inductive Body where
  | present (bytes : Bytes)
  | repairing (checksum : Checksum)
  | reconfigure (payload : ReconfigurePayload)
  deriving DecidableEq

namespace Body

def isRepairing : Body → Bool
  | repairing _ => true
  | _ => false

def isReconfigure : Body → Bool
  | reconfigure _ => true
  | _ => false

def asReconfigure : Body → Option ReconfigurePayload
  | reconfigure p => some p
  | _ => none

def bodyBytes : Body → Option Bytes
  | present bs => some bs
  | reconfigure p => some p.encodeBody
  | repairing _ => none

def isBodyBearing (b : Body) : Bool := !b.isRepairing

def bodyChecksum : Body → Checksum
  | present bs => fnv1a128 bs
  | repairing c => c
  | reconfigure p => p.bodyChecksum

end Body

structure PreparedEntry where
  op : OpNumber
  client : ClientId
  request : RequestNumber
  body : Body
  deriving DecidableEq

namespace PreparedEntry

/-- `PreparedEntry::new`: an entry that carries its bytes. -/
def ofBytes (op : OpNumber) (client : ClientId) (request : RequestNumber) (body : Bytes) :
    PreparedEntry := ⟨op, client, request, .present body⟩

def bodyChecksum (e : PreparedEntry) : Checksum := e.body.bodyChecksum

end PreparedEntry

/-! ## Messages -/

structure Request where
  client : ClientId
  request : RequestNumber
  body : Bytes
  deriving DecidableEq

structure Prepare where
  view : View
  op : OpNumber
  commit : OpNumber
  checkpointOp : OpNumber
  epoch : Epoch
  configId : Checksum
  client : ClientId
  request : RequestNumber
  body : Bytes
  deriving DecidableEq

structure PrepareOk where
  view : View
  op : OpNumber
  replica : ReplicaId
  checkpointOp : OpNumber
  prepareChecksum : Checksum
  epoch : Epoch
  configId : Checksum
  deriving DecidableEq

structure Reply where
  view : View
  client : ClientId
  request : RequestNumber
  body : Bytes
  deriving DecidableEq

structure Commit where
  view : View
  commit : OpNumber
  checkpointOp : OpNumber
  epoch : Epoch
  configId : Checksum
  deriving DecidableEq

structure EpochAhead where
  epoch : Epoch
  checkpointOp : OpNumber
  deriving DecidableEq

structure LearnerStatus where
  replica : ReplicaId
  durableCommitMin : OpNumber
  durableOp : OpNumber
  epoch : Epoch
  configId : Checksum
  deriving DecidableEq

structure RequestLearnerProof where
  sender : ReplicaId
  atOp : OpNumber
  nonce : Nat
  epoch : Epoch
  configId : Checksum
  deriving DecidableEq

structure LearnerProof where
  replica : ReplicaId
  nonce : Nat
  frontier : OpNumber
  epoch : Epoch
  configId : Checksum
  deriving DecidableEq

structure RequestHealthProof where
  sender : ReplicaId
  nonce : Nat
  epoch : Epoch
  configId : Checksum
  deriving DecidableEq

structure HealthProof where
  replica : ReplicaId
  nonce : Nat
  epoch : Epoch
  configId : Checksum
  deriving DecidableEq

structure StartViewChange where
  view : View
  replica : ReplicaId
  epoch : Epoch
  configId : Checksum
  deriving DecidableEq

structure DoViewChange where
  view : View
  logView : View
  op : OpNumber
  commit : OpNumber
  checkpointOp : OpNumber
  epoch : Epoch
  configId : Checksum
  replica : ReplicaId
  log : List PreparedEntry
  deriving DecidableEq

structure StartView where
  view : View
  op : OpNumber
  commit : OpNumber
  checkpointOp : OpNumber
  epoch : Epoch
  configId : Checksum
  replica : ReplicaId
  log : List PreparedEntry
  deriving DecidableEq

structure GetView where
  view : View
  replica : ReplicaId
  nonce : Nat
  epoch : Epoch
  configId : Checksum
  deriving DecidableEq

structure RequestPrepare where
  view : View
  op : OpNumber
  replica : ReplicaId
  configId : Checksum
  deriving DecidableEq

structure Nack where
  view : View
  op : OpNumber
  replica : ReplicaId
  configId : Checksum
  deriving DecidableEq

structure RequestPrepareRange where
  view : View
  lo : OpNumber
  hi : OpNumber
  replica : ReplicaId
  configId : Checksum
  deriving DecidableEq

structure Recovery where
  replica : ReplicaId
  nonce : Nat
  epoch : Epoch
  configId : Checksum
  deriving DecidableEq

structure RecoveryResponse where
  view : View
  op : OpNumber
  commit : OpNumber
  checkpointOp : OpNumber
  epoch : Epoch
  configId : Checksum
  replica : ReplicaId
  nonce : Nat
  log : List PreparedEntry
  deriving DecidableEq

structure RepairBatch where
  view : View
  commit : OpNumber
  checkpointOp : OpNumber
  configId : Checksum
  log : List PreparedEntry
  deriving DecidableEq

structure PrepareBatch where
  view : View
  commit : OpNumber
  checkpointOp : OpNumber
  epoch : Epoch
  configId : Checksum
  log : List PreparedEntry
  deriving DecidableEq

structure RequestSync where
  view : View
  checkpointOp : OpNumber
  replica : ReplicaId
  nonce : Nat
  recovery : Bool
  configId : Checksum
  deriving DecidableEq

structure SyncCheckpoint where
  view : View
  checkpointOp : OpNumber
  checkpointId : Checksum
  epoch : Epoch
  configId : Checksum
  replica : ReplicaId
  nonce : Nat
  snapshot : Bytes
  membership : Bytes
  configInstallOp : Option OpNumber
  deriving DecidableEq

abbrev BlockAddress := Checksum

structure BlockResponse where
  addr : BlockAddress
  block : Option Bytes
  deriving DecidableEq

inductive Message where
  | request (m : Request)
  | prepare (m : Prepare)
  | prepareOk (m : PrepareOk)
  | reply (m : Reply)
  | commit (m : Commit)
  | startViewChange (m : StartViewChange)
  | doViewChange (m : DoViewChange)
  | startView (m : StartView)
  | getView (m : GetView)
  | requestPrepare (m : RequestPrepare)
  | recovery (m : Recovery)
  | recoveryResponse (m : RecoveryResponse)
  | requestSync (m : RequestSync)
  | syncCheckpoint (m : SyncCheckpoint)
  | requestPrepareRange (m : RequestPrepareRange)
  | repairBatch (m : RepairBatch)
  | prepareBatch (m : PrepareBatch)
  | learnerStatus (m : LearnerStatus)
  | epochAhead (m : EpochAhead)
  | requestLearnerProof (m : RequestLearnerProof)
  | learnerProof (m : LearnerProof)
  | requestHealthProof (m : RequestHealthProof)
  | healthProof (m : HealthProof)
  | requestBlock (addr : BlockAddress)
  | blockResponse (m : BlockResponse)
  | nack (m : Nack)
  deriving DecidableEq

/-- The messages whose view a receiver takes as the sender's durable view. -/
def Message.advertisesAuthoritativeView : Message → Bool
  | prepare _ | prepareOk _ | commit _ | doViewChange _ | startView _ | recoveryResponse _
  | syncCheckpoint _ | repairBatch _ | prepareBatch _ => true
  | _ => false

structure Outgoing where
  recipient : Recipient
  msg : Message
  deriving DecidableEq

/-! ## Frame sizes -/

def maxFrameLen : Nat := 16 * 1024 * 1024
def worstUint64Field : Nat := 1 + 10
def worstIdField : Nat := 1 + 1 + 16
def lenFieldOverhead : Nat := 1 + 5
def envelopeArmOverhead : Nat := 2 + 5

def logEntryBodyOverhead : Nat :=
  lenFieldOverhead + 2 * worstUint64Field + worstIdField + lenFieldOverhead

def repairBatchCarrierOverhead : Nat := envelopeArmOverhead + 3 * worstUint64Field + worstIdField
def prepareBatchCarrierOverhead : Nat := envelopeArmOverhead + 4 * worstUint64Field + worstIdField

/-- The most bytes an entry with a body of this length takes in a batch. -/
def presentEntryEncodedLen (bodyLen : Nat) : Nat := logEntryBodyOverhead + bodyLen

def perHeaderEntryBytes : Nat := 2 + 2 * worstUint64Field + 2 * worstIdField

/-- The most header-only entries one view-change carrier can hold. -/
def maxHeaderOnlyBandDepth : Nat := (maxFrameLen - 128) / perHeaderEntryBytes

end Viewstamp
