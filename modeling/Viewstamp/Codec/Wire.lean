import Viewstamp.Batch
import Viewstamp.Lib.Protobuf

/- The wire form of a message and the bound the transport checks before it builds one.

   Each message is the list of fields the schema gives it, in the schema's order and with the
   schema's numbers; ids, checksums and addresses are sixteen big-endian bytes. The envelope is a
   `oneof` of all messages. `wireSizeBound` charges every field its worst case from the domain
   value alone, with additions that saturate at the width of a machine word. -/
namespace Viewstamp

open Protobuf

/-! ## The messages' fields -/

def idField (number : Nat) (id : Nat) : Field := .bytes number (beBytes 16 id)

def pbReconfigure (p : ReconfigurePayload) : List Field :=
  [.uint 1 p.replicaCount, .uint 2 p.learnerCount]
    ++ p.members.map (fun m => .delimited 3 (beBytes 16 m)) ++ [idField 4 p.prevConfigId]

def pbBodyState : Body → Field
  | .present bs => .delimited 4 bs
  | .repairing checksum => .delimited 5 (beBytes 16 checksum)
  | .reconfigure p => .delimited 6 (encode (pbReconfigure p))

def pbEntry (e : PreparedEntry) : List Field :=
  [.uint 1 e.op, idField 2 e.client, .uint 3 e.request, pbBodyState e.body]

def pbLog (number : Nat) (log : List PreparedEntry) : List Field :=
  log.map fun e => .delimited number (encode (pbEntry e))

def pbRequest (m : Request) : List Field :=
  [idField 1 m.client, .uint 2 m.request, .bytes 3 m.body]

def pbPrepare (m : Prepare) : List Field :=
  [.uint 1 m.view, .uint 2 m.op, .uint 3 m.commit, .uint 4 m.checkpointOp, .uint 5 m.epoch,
    idField 6 m.configId, idField 7 m.client, .uint 8 m.request, .bytes 9 m.body]

def pbPrepareOk (m : PrepareOk) : List Field :=
  [.uint 1 m.view, .uint 2 m.op, .uint 3 m.replica, .uint 4 m.checkpointOp,
    idField 5 m.prepareChecksum, .uint 6 m.epoch, idField 7 m.configId]

def pbReply (m : Reply) : List Field :=
  [.uint 1 m.view, idField 2 m.client, .uint 3 m.request, .bytes 4 m.body]

def pbCommit (m : Commit) : List Field :=
  [.uint 1 m.view, .uint 2 m.commit, .uint 3 m.checkpointOp, .uint 4 m.epoch, idField 5 m.configId]

def pbStartViewChange (m : StartViewChange) : List Field :=
  [.uint 1 m.view, .uint 2 m.replica, .uint 3 m.epoch, idField 4 m.configId]

def pbDoViewChange (m : DoViewChange) : List Field :=
  [.uint 1 m.view, .uint 2 m.logView, .uint 3 m.op, .uint 4 m.commit, .uint 5 m.checkpointOp,
    .uint 6 m.epoch, idField 7 m.configId, .uint 8 m.replica] ++ pbLog 9 m.log

def pbStartView (m : StartView) : List Field :=
  [.uint 1 m.view, .uint 2 m.op, .uint 3 m.commit, .uint 4 m.checkpointOp, .uint 5 m.epoch,
    idField 6 m.configId, .uint 7 m.replica] ++ pbLog 8 m.log

def pbGetView (m : GetView) : List Field :=
  [.uint 1 m.view, .uint 2 m.replica, .uint 3 m.nonce, .uint 4 m.epoch, idField 5 m.configId]

def pbRequestPrepare (m : RequestPrepare) : List Field :=
  [.uint 1 m.view, .uint 2 m.op, .uint 3 m.replica, idField 4 m.configId]

def pbRecovery (m : Recovery) : List Field :=
  [.uint 1 m.replica, .uint 2 m.nonce, .uint 3 m.epoch, idField 4 m.configId]

def pbRecoveryResponse (m : RecoveryResponse) : List Field :=
  [.uint 1 m.view, .uint 2 m.op, .uint 3 m.commit, .uint 4 m.checkpointOp, .uint 5 m.epoch,
    idField 6 m.configId, .uint 7 m.replica, .uint 8 m.nonce] ++ pbLog 9 m.log

def pbRequestSync (m : RequestSync) : List Field :=
  [.uint 1 m.view, .uint 2 m.checkpointOp, .uint 3 m.replica, .uint 4 m.nonce,
    .uint 5 m.recovery.toNat, idField 6 m.configId]

def pbSyncCheckpoint (m : SyncCheckpoint) : List Field :=
  [.uint 1 m.view, .uint 2 m.checkpointOp, idField 3 m.checkpointId, .uint 4 m.epoch,
    idField 5 m.configId, .uint 6 m.replica, .uint 7 m.nonce, .bytes 8 m.snapshot,
    .bytes 9 m.membership] ++ (m.configInstallOp.map (Field.someUint 10)).toList

def pbRequestPrepareRange (m : RequestPrepareRange) : List Field :=
  [.uint 1 m.view, .uint 2 m.lo, .uint 3 m.hi, .uint 4 m.replica, idField 5 m.configId]

def pbRepairBatch (m : RepairBatch) : List Field :=
  [.uint 1 m.view, .uint 2 m.commit, .uint 3 m.checkpointOp, idField 4 m.configId]
    ++ pbLog 5 m.log

def pbPrepareBatch (m : PrepareBatch) : List Field :=
  [.uint 1 m.view, .uint 2 m.commit, .uint 3 m.checkpointOp, .uint 4 m.epoch,
    idField 5 m.configId] ++ pbLog 6 m.log

def pbLearnerStatus (m : LearnerStatus) : List Field :=
  [.uint 1 m.replica, .uint 2 m.durableCommitMin, .uint 3 m.durableOp, .uint 4 m.epoch,
    idField 5 m.configId]

def pbEpochAhead (m : EpochAhead) : List Field :=
  [.uint 1 m.epoch, .uint 2 m.checkpointOp]

def pbRequestLearnerProof (m : RequestLearnerProof) : List Field :=
  [.uint 1 m.sender, .uint 2 m.atOp, .uint 3 m.nonce, .uint 4 m.epoch, idField 5 m.configId]

def pbLearnerProof (m : LearnerProof) : List Field :=
  [.uint 1 m.replica, .uint 2 m.nonce, .uint 3 m.frontier, .uint 4 m.epoch, idField 5 m.configId]

def pbRequestHealthProof (m : RequestHealthProof) : List Field :=
  [.uint 1 m.sender, .uint 2 m.nonce, .uint 3 m.epoch, idField 4 m.configId]

def pbHealthProof (m : HealthProof) : List Field :=
  [.uint 1 m.replica, .uint 2 m.nonce, .uint 3 m.epoch, idField 4 m.configId]

def pbRequestBlock (addr : BlockAddress) : List Field := [idField 1 addr]

def pbBlockResponse (m : BlockResponse) : List Field :=
  idField 1 m.addr :: (m.block.map (Field.delimited 2)).toList

def pbNack (m : Nack) : List Field :=
  [.uint 1 m.view, .uint 2 m.op, .uint 3 m.replica, idField 4 m.configId]

/-- The arm of the envelope a message is, and that arm's fields. -/
def pbMessage : Message → Nat × List Field
  | .request m => (1, pbRequest m)
  | .prepare m => (2, pbPrepare m)
  | .prepareOk m => (3, pbPrepareOk m)
  | .reply m => (4, pbReply m)
  | .commit m => (5, pbCommit m)
  | .startViewChange m => (6, pbStartViewChange m)
  | .doViewChange m => (7, pbDoViewChange m)
  | .startView m => (8, pbStartView m)
  | .getView m => (9, pbGetView m)
  | .requestPrepare m => (10, pbRequestPrepare m)
  | .recovery m => (11, pbRecovery m)
  | .recoveryResponse m => (12, pbRecoveryResponse m)
  | .requestSync m => (13, pbRequestSync m)
  | .syncCheckpoint m => (14, pbSyncCheckpoint m)
  | .requestPrepareRange m => (15, pbRequestPrepareRange m)
  | .repairBatch m => (16, pbRepairBatch m)
  | .prepareBatch m => (17, pbPrepareBatch m)
  | .learnerStatus m => (18, pbLearnerStatus m)
  | .epochAhead m => (19, pbEpochAhead m)
  | .requestLearnerProof m => (20, pbRequestLearnerProof m)
  | .learnerProof m => (21, pbLearnerProof m)
  | .requestBlock addr => (22, pbRequestBlock addr)
  | .blockResponse m => (23, pbBlockResponse m)
  | .nack m => (24, pbNack m)
  | .requestHealthProof m => (25, pbRequestHealthProof m)
  | .healthProof m => (26, pbHealthProof m)

def encodeMessage (m : Message) : Bytes :=
  encode [.delimited (pbMessage m).1 (encode (pbMessage m).2)]

/-! ## The bound the router checks -/

/-- `usize::MAX` on a 64-bit target. -/
def usizeMax : Nat := 2 ^ 64 - 1

def saturatingAdd (a b : Nat) : Nat := min (a + b) usizeMax
def saturatingMul (a b : Nat) : Nat := min (a * b) usizeMax

def fixedFieldsBound (scalars ids : Nat) : Nat :=
  saturatingAdd (saturatingAdd envelopeArmOverhead (saturatingMul scalars worstUint64Field))
    (saturatingMul ids worstIdField)

def reconfigureEntryWireSizeBound (p : ReconfigurePayload) : Nat :=
  let payloadFields := saturatingAdd (saturatingAdd (2 * worstUint64Field) worstIdField)
    (saturatingMul p.members.length worstIdField)
  saturatingAdd logEntryBodyOverhead payloadFields

def entryBound (e : PreparedEntry) : Nat :=
  match e.body with
  | .present bs => presentEntryEncodedLen bs.length
  | .repairing _ => perHeaderEntryBytes
  | .reconfigure p => reconfigureEntryWireSizeBound p

def logWireSizeBound (log : List PreparedEntry) : Nat :=
  log.foldl (fun acc e => saturatingAdd acc (entryBound e)) 0

def Message.wireSizeBound : Message → Nat
  | .request m => saturatingAdd requestEncodeOverhead m.body.length
  | .prepare m => saturatingAdd prepareEncodeOverhead m.body.length
  | .prepareOk _ => fixedFieldsBound 5 2
  | .reply m => saturatingAdd replyEncodeOverhead m.body.length
  | .commit _ => fixedFieldsBound 4 1
  | .startViewChange _ => fixedFieldsBound 3 1
  | .doViewChange m => saturatingAdd (fixedFieldsBound 7 1) (logWireSizeBound m.log)
  | .startView m => saturatingAdd (fixedFieldsBound 6 1) (logWireSizeBound m.log)
  | .getView _ => fixedFieldsBound 4 1
  | .requestPrepare _ => fixedFieldsBound 3 1
  | .recovery _ => fixedFieldsBound 3 1
  | .recoveryResponse m => saturatingAdd (fixedFieldsBound 7 1) (logWireSizeBound m.log)
  | .requestSync _ => fixedFieldsBound 5 1
  | .syncCheckpoint m =>
    saturatingAdd (saturatingAdd (saturatingAdd (saturatingAdd (fixedFieldsBound 6 2)
      lenFieldOverhead) m.snapshot.length) lenFieldOverhead) m.membership.length
  | .requestPrepareRange _ => fixedFieldsBound 4 1
  | .repairBatch m => saturatingAdd repairBatchCarrierOverhead (logWireSizeBound m.log)
  | .prepareBatch m => saturatingAdd prepareBatchCarrierOverhead (logWireSizeBound m.log)
  | .learnerStatus _ => fixedFieldsBound 4 1
  | .epochAhead _ => fixedFieldsBound 2 0
  | .requestLearnerProof _ => fixedFieldsBound 4 1
  | .learnerProof _ => fixedFieldsBound 4 1
  | .requestHealthProof _ => fixedFieldsBound 3 1
  | .healthProof _ => fixedFieldsBound 3 1
  | .requestBlock _ => fixedFieldsBound 0 1
  | .blockResponse m =>
    saturatingAdd (fixedFieldsBound 0 1)
      ((m.block.map fun b => saturatingAdd lenFieldOverhead b.length).getD 0)
  | .nack _ => fixedFieldsBound 3 1

/-! ## What a message's length depends on -/

def Body.variableLen : Body → Nat
  | .present bs => bs.length
  | .repairing _ => 16
  | .reconfigure p => 16 * p.members.length + 16

/-- The bytes of an entry's length-delimited fields: the client id and the body. -/
def PreparedEntry.variableLen (e : PreparedEntry) : Nat := 16 + e.body.variableLen

def logVariableLen (log : List PreparedEntry) : Nat := (log.map PreparedEntry.variableLen).sum

/-- The bytes of a message's variable-length fields: bodies, blocks, snapshots, memberships and
logs. -/
def Message.variableLen : Message → Nat
  | .request m => m.body.length
  | .prepare m => m.body.length
  | .reply m => m.body.length
  | .doViewChange m => logVariableLen m.log
  | .startView m => logVariableLen m.log
  | .recoveryResponse m => logVariableLen m.log
  | .repairBatch m => logVariableLen m.log
  | .prepareBatch m => logVariableLen m.log
  | .syncCheckpoint m => m.snapshot.length + m.membership.length
  | .blockResponse m => (m.block.map List.length).getD 0
  | .prepareOk _ | .commit _ | .startViewChange _ | .getView _ | .requestPrepare _ | .recovery _
  | .requestSync _ | .requestPrepareRange _ | .learnerStatus _ | .epochAhead _
  | .requestLearnerProof _ | .learnerProof _ | .requestHealthProof _ | .healthProof _
  | .requestBlock _ | .nack _ => 0

end Viewstamp
