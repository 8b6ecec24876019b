import Viewstamp.Lib.OrdMap

/- Identifiers, byte strings, checksums, and the membership of a replica group.

   The protocol's counters (views, ops, epochs, request numbers) are natural
   numbers: the source's `u64` counters only ever step by one or are copied, so
   the saturation of `next` at the top of the range is not part of the model,
   with two exceptions that saturate as the source does (`saturatingSucc`): the
   nack scan of a view change, which does arithmetic on op numbers a peer
   supplies, and the epoch of a successor membership.
   Identifiers of 128 bits are natural numbers as well; where the source hashes
   or encodes them their big-endian bytes are written out. The checksum is the
   source's FNV-1a-128 and is computed, not assumed. -/
namespace Viewstamp

abbrev View := Nat
abbrev OpNumber := Nat
abbrev Epoch := Nat
abbrev RequestNumber := Nat
abbrev ReplicaId := Nat
abbrev MemberId := Nat
abbrev ClientId := Nat
abbrev Checksum := Nat
abbrev Instant := Nat
abbrev Bytes := List UInt8

def u64Max : Nat := 2 ^ 64 - 1

/-- `saturating_add(1)` on a `u64`. -/
def saturatingSucc (n : Nat) : Nat := min (n + 1) u64Max

/-- The reserved client of reconfiguration operations (`u128::MAX`). -/
def ClientId.reconfiguration : ClientId := 2 ^ 128 - 1

/-! ## Bytes and checksums -/

/-- The `width` big-endian bytes of `n`. -/
def beBytes : (width : Nat) → Nat → Bytes
  | 0, _ => []
  | w + 1, n => UInt8.ofNat (n / 256 ^ w) :: beBytes w n

/-- The number a big-endian byte string stands for. -/
def ofBeBytes (bs : Bytes) : Nat := bs.foldl (fun acc b => acc * 256 + b.toNat) 0

def fnvOffset : Nat := 0x6c62272e07bb014262b821756295c58d
def fnvPrime : Nat := 0x0000000001000000000000000000013B

def fnv1a128Mix (acc : Nat) (bs : Bytes) : Nat :=
  bs.foldl (fun acc b => ((acc ^^^ b.toNat) * fnvPrime) % 2 ^ 128) acc

def fnv1a128 (bs : Bytes) : Checksum := fnv1a128Mix fnvOffset bs

/-- The identity a `PrepareOk` vote is counted in: the operation without its view and number. -/
def prepareIdentity (client : ClientId) (request : RequestNumber) (bodyChecksum : Checksum) :
    Checksum :=
  let acc := fnv1a128Mix fnvOffset (beBytes 16 client)
  let acc := fnv1a128Mix acc (beBytes 8 request)
  fnv1a128Mix acc (beBytes 16 bodyChecksum)

def checkpointId (snapshot : Bytes) : Checksum := fnv1a128 snapshot

/-! ## Status, peers, configuration -/

inductive Status where
  | normal
  | viewChange
  | recovering
  | recoveringHead
  | retired
  deriving DecidableEq

inductive Peer where
  | replica (r : ReplicaId)
  | client (c : ClientId)
  | member (m : MemberId)
  deriving DecidableEq

inductive Recipient where
  | toPeer (p : Peer)
  | backups
  | allReplicas
  deriving DecidableEq

def maxCheckpointOps : Nat := 2 ^ 15

theorem defaultCheckpointOps_pos : 0 < 32 := by decide

theorem defaultCheckpointOps_le : 32 ≤ maxCheckpointOps := by decide

theorem one_le_maxCheckpointOps : 1 ≤ maxCheckpointOps := by decide

theorem defaultMaxClientSessions_pos : 0 < 4096 := by decide

/-- A validated configuration: `try_new` and the builders refuse the rest. -/
structure Config where
  cluster : Nat
  localMember : MemberId
  checkpointOps : Nat := 32
  maxClientSessions : Nat := 4096
  checkpointOps_pos : 0 < checkpointOps := by
    first | exact defaultCheckpointOps_pos | exact Nat.one_pos | decide
  checkpointOps_le : checkpointOps ≤ maxCheckpointOps := by
    first | exact defaultCheckpointOps_le | exact one_le_maxCheckpointOps | decide
  maxClientSessions_pos : 0 < maxClientSessions := by
    first | exact defaultMaxClientSessions_pos | exact Nat.one_pos | decide
  deriving DecidableEq

namespace Config

def minimumWalCapacity (c : Config) : Nat := c.checkpointOps + 1
def forfeitCheckpointLag (c : Config) : Nat := c.checkpointOps

end Config

/-! ## Membership -/

inductive MembershipError where
  | zeroReplicaCount
  | tooManyReplicas (count : Nat)
  | tooManyNodes (count : Nat)
  | memberCountMismatch (len expected : Nat)
  | duplicateMember
  | alreadyAMember
  | unknownMember
  | notALearner
  | notAVoter
  | wouldRemoveLastVoter
  | forkedConfigId
  deriving DecidableEq

def maxVotingReplicas : Nat := 64

/-- What `validate_structure` checks of a member list. -/
structure Membership.Valid (replicaCount learnerCount : Nat) (members : List MemberId) : Prop where
  pos : 0 < replicaCount
  voters : replicaCount ≤ maxVotingReplicas
  nodes : replicaCount + learnerCount ≤ 2 ^ 16 - 1
  length : members.length = replicaCount + learnerCount
  nodup : members.Nodup

/-- The replica group of one epoch: voters first, then learners. -/
structure Membership where
  epoch : Epoch
  replicaCount : Nat
  learnerCount : Nat
  members : List MemberId
  configId : Checksum
  valid : Membership.Valid replicaCount learnerCount members
  deriving DecidableEq

namespace Membership

/-- `validate_structure`, with the proof its success carries. -/
def validateStructure (replicaCount learnerCount : Nat) (members : List MemberId) :
    Except MembershipError (PLift (Valid replicaCount learnerCount members)) :=
  if h0 : replicaCount = 0 then .error .zeroReplicaCount
  else if h1 : replicaCount > maxVotingReplicas then .error (.tooManyReplicas replicaCount)
  else if h2 : replicaCount + learnerCount > 2 ^ 16 - 1 then
    .error (.tooManyNodes (replicaCount + learnerCount))
  else if h3 : members.length ≠ replicaCount + learnerCount then
    .error (.memberCountMismatch members.length (replicaCount + learnerCount))
  else if h4 : ¬ members.Nodup then .error .duplicateMember
  else .ok ⟨⟨Nat.pos_of_ne_zero h0, Nat.le_of_not_lt h1, Nat.le_of_not_lt h2,
    Decidable.not_not.mp h3, Decidable.not_not.mp h4⟩⟩

def computeConfigId (epoch : Epoch) (replicaCount learnerCount : Nat) (members : List MemberId)
    (prev : Checksum) : Checksum :=
  fnv1a128 (beBytes 8 epoch ++ beBytes 1 replicaCount ++ beBytes 2 learnerCount
    ++ members.flatMap (beBytes 16) ++ beBytes 16 prev)

def fromDurableParts (epoch : Epoch) (replicaCount learnerCount : Nat) (members : List MemberId)
    (configId : Checksum) : Except MembershipError Membership :=
  match validateStructure replicaCount learnerCount members with
  | .ok ⟨h⟩ => .ok ⟨epoch, replicaCount, learnerCount, members, configId, h⟩
  | .error e => .error e

def build (epoch : Epoch) (replicaCount learnerCount : Nat) (members : List MemberId)
    (prevConfigId : Checksum) : Except MembershipError Membership :=
  fromDurableParts epoch replicaCount learnerCount members
    (computeConfigId epoch replicaCount learnerCount members prevConfigId)

def genesis (replicaCount learnerCount : Nat) (members : List MemberId) :
    Except MembershipError Membership :=
  build 0 replicaCount learnerCount members 0

def reconfigure (m : Membership) (replicaCount learnerCount : Nat) (members : List MemberId) :
    Except MembershipError Membership :=
  build (saturatingSucc m.epoch) replicaCount learnerCount members m.configId

def nodeCount (m : Membership) : Nat := m.replicaCount + m.learnerCount
def slotOf (m : Membership) (who : MemberId) : Option ReplicaId := m.members.idxOf? who
def memberAt (m : Membership) (slot : ReplicaId) : Option MemberId := m.members[slot]?
def quorum (m : Membership) : Nat := m.replicaCount / 2 + 1
def quorumViewChange (m : Membership) : Nat := m.replicaCount - m.quorum + 1
def quorumNackPrepare (m : Membership) : Nat := m.replicaCount - m.quorum + 1
def primary (m : Membership) (v : View) : ReplicaId := v % m.replicaCount
def isVoter (m : Membership) (r : ReplicaId) : Bool := r < m.replicaCount
def isLearner (m : Membership) (r : ReplicaId) : Bool :=
  m.replicaCount ≤ r && r < m.nodeCount

/-- The first voter of the successor that is not a member here. -/
def firstNewVoter (m : Membership) (successorReplicaCount : Nat)
    (successorMembers : List MemberId) : Option MemberId :=
  (successorMembers.take successorReplicaCount).find? (fun who => !m.members.contains who)

end Membership

inductive SingleVoterDelta where
  | promoteLearner (m : MemberId)
  | demoteVoter (m : MemberId)
  | addLearner (m : MemberId)
  | removeLearner (m : MemberId)
  deriving DecidableEq

namespace Membership

def applyDelta (m : Membership) (d : SingleVoterDelta) : Except MembershipError Membership :=
  let voters := m.members.take m.replicaCount
  let learners := m.members.drop m.replicaCount
  match d with
  | .promoteLearner who =>
    match m.slotOf who with
    | none => .error .unknownMember
    | some slot =>
      if !m.isLearner slot then .error .notALearner
      else m.reconfigure (m.replicaCount + 1) (m.learnerCount - 1)
        (voters ++ [who] ++ learners.filter (· ≠ who))
  | .demoteVoter who =>
    match m.slotOf who with
    | none => .error .unknownMember
    | some slot =>
      if !m.isVoter slot then .error .notAVoter
      else if m.replicaCount = 1 then .error .wouldRemoveLastVoter
      else m.reconfigure (m.replicaCount - 1) (m.learnerCount + 1)
        (voters.filter (· ≠ who) ++ learners ++ [who])
  | .addLearner who =>
    if m.members.contains who then .error .alreadyAMember
    else m.reconfigure m.replicaCount (m.learnerCount + 1) (m.members ++ [who])
  | .removeLearner who =>
    match m.slotOf who with
    | none => .error .unknownMember
    | some slot =>
      if !m.isLearner slot then .error .notALearner
      else m.reconfigure m.replicaCount (m.learnerCount - 1) (m.members.filter (· ≠ who))

end Membership

end Viewstamp
