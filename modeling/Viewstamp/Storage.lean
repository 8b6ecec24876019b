import Viewstamp.Message

/- The durable side of a replica: WAL headers, the superblock root, and the
   storage session that sits between the endpoint and the two backends.

   The backends are what their trait contracts say they are. The WAL is a table
   of completed appends; an append is submitted, stays in flight, and becomes
   visible only when it completes. The superblock holds the last completed root.
   The session keeps the append ledger (one in-flight write per physical slot,
   a quota) and the root timeline (one root at the device, one parked root per
   role). Which in-flight appends a truncation manages to cancel is the
   backend's choice and is read from `cancels`. -/
namespace Viewstamp

/-- The capacity a ring-less backend reports (`u64::MAX`). -/
def unboundedCapacity : Nat := 2 ^ 64 - 1

structure OpId where
  incarnation : Nat
  seq : Nat
  deriving DecidableEq

/-! ## WAL headers -/

structure Header where
  version : Nat
  checksum : Checksum
  op : OpNumber
  view : View
  client : ClientId
  request : RequestNumber
  bodyChecksum : Checksum
  deriving DecidableEq

namespace Header

def headerVersion : Nat := 1

/-- `write_canonical`: the six words the self-checksum covers. -/
def canonical (h : Header) : Bytes :=
  [h.version, h.op, h.view, h.client, h.request, h.bodyChecksum].flatMap (beBytes 16)

def computeChecksum (h : Header) : Checksum := fnv1a128 h.canonical

def fromParts (op : OpNumber) (view : View) (client : ClientId) (request : RequestNumber)
    (bodyChecksum : Checksum) : Header :=
  let h : Header := ⟨headerVersion, 0, op, view, client, request, bodyChecksum⟩
  { h with checksum := h.computeChecksum }

/-- `Header::new`: the header of an entry with these body bytes. -/
def ofBody (op : OpNumber) (view : View) (client : ClientId) (request : RequestNumber)
    (body : Bytes) : Header :=
  fromParts op view client request (fnv1a128 body)

def verifyHeader (h : Header) : Bool := h.checksum == h.computeChecksum

def verify (h : Header) (body : Bytes) : Bool :=
  h.verifyHeader && h.bodyChecksum == fnv1a128 body

end Header

/-! ## The durable root -/

/-- What `VsrState::try_new` checks of a header list: strictly ascending within a band. -/
def HeadersInBand (lo hi : OpNumber) : List Header → Prop
  | [] => True
  | h :: hs => lo < h.op ∧ h.op ≤ hi ∧ HeadersInBand h.op hi hs

instance HeadersInBand.decidable (lo hi : OpNumber) :
    (hs : List Header) → Decidable (HeadersInBand lo hi hs)
  | [] => .isTrue trivial
  | h :: hs =>
    have := HeadersInBand.decidable h.op hi hs
    inferInstanceAs (Decidable (lo < h.op ∧ h.op ≤ hi ∧ HeadersInBand h.op hi hs))

/-- The durable root of a replica. The fields `try_new` validates carry their proofs. -/
structure VsrState where
  view : View
  logView : View
  commit : OpNumber
  checkpointOp : OpNumber
  checkpointId : Checksum
  committedHeaders : List Header
  epoch : Epoch
  prevEpoch : Epoch
  membership : Option Membership
  priorConfigIds : List Checksum
  configInstallOp : OpNumber
  logFloor : OpNumber
  checkpointOps : Nat
  walCapacity : Nat
  logView_le : logView ≤ view
  checkpointOp_le : checkpointOp ≤ commit
  headers_band : HeadersInBand checkpointOp commit committedHeaders
  epoch_eq : ∀ m ∈ membership, m.epoch = epoch
  logFloor_ge : checkpointOp ≤ logFloor
  deriving DecidableEq

inductive VsrStateError where
  | logViewAboveView
  | commitBelowCheckpoint
  | headerOutOfBand
  | headersNotAscending
  | membershipEpochMismatch (root membership : Epoch)
  | invalidMembership (e : MembershipError)
  | logFloorBelowCheckpoint
  deriving DecidableEq

namespace VsrState

/-- The error the header scan of `try_new` reports at the first header out of place. -/
def headerError (checkpointOp : OpNumber) (prev hi : OpNumber) : List Header → VsrStateError
  | [] => .headerOutOfBand
  | h :: hs =>
    if h.op ≤ prev then (if prev = checkpointOp then .headerOutOfBand else .headersNotAscending)
    else if hi < h.op then .headerOutOfBand
    else headerError checkpointOp h.op hi hs

/-- `VsrState::new`: the blank root of an unformatted store. -/
def blank : VsrState where
  view := 0
  logView := 0
  commit := 0
  checkpointOp := 0
  checkpointId := 0
  committedHeaders := []
  epoch := 0
  prevEpoch := 0
  membership := none
  priorConfigIds := []
  configInstallOp := 0
  logFloor := 0
  checkpointOps := 0
  walCapacity := 0
  logView_le := Nat.le_refl 0
  checkpointOp_le := Nat.le_refl 0
  headers_band := trivial
  epoch_eq := by simp
  logFloor_ge := Nat.le_refl 0

/-- `try_new`: a root that carries no membership. Its install op is its checkpoint. -/
def tryNew (view logView : View) (commit checkpointOp : OpNumber) (checkpointId : Checksum)
    (committedHeaders : List Header) : Except VsrStateError VsrState :=
  if h1 : view < logView then .error .logViewAboveView
  else if h2 : commit < checkpointOp then .error .commitBelowCheckpoint
  else if h3 : ¬ HeadersInBand checkpointOp commit committedHeaders then
    .error (headerError checkpointOp checkpointOp commit committedHeaders)
  else .ok {
    view, logView, commit, checkpointOp, checkpointId, committedHeaders
    epoch := 0
    prevEpoch := 0
    membership := none
    priorConfigIds := []
    configInstallOp := checkpointOp
    logFloor := checkpointOp
    checkpointOps := 0
    walCapacity := 0
    logView_le := Nat.le_of_not_lt h1
    checkpointOp_le := Nat.le_of_not_lt h2
    headers_band := Decidable.not_not.mp h3
    epoch_eq := by simp
    logFloor_ge := Nat.le_refl _ }

/-- `try_new_v4` with `with_log_floor` and `with_wal_geometry`, the form every writer of a
membership-bearing root uses. -/
def tryNewV4 (view logView : View) (commit checkpointOp : OpNumber) (checkpointId : Checksum)
    (committedHeaders : List Header) (epoch prevEpoch : Epoch) (membership : Membership)
    (priorConfigIds : List Checksum) (configInstallOp logFloor : OpNumber)
    (checkpointOps walCapacity : Nat) : Except VsrStateError VsrState :=
  if h0 : membership.epoch ≠ epoch then .error (.membershipEpochMismatch epoch membership.epoch)
  else if h1 : view < logView then .error .logViewAboveView
  else if h2 : commit < checkpointOp then .error .commitBelowCheckpoint
  else if h3 : ¬ HeadersInBand checkpointOp commit committedHeaders then
    .error (headerError checkpointOp checkpointOp commit committedHeaders)
  else if h4 : logFloor < checkpointOp then .error .logFloorBelowCheckpoint
  else .ok {
    view, logView, commit, checkpointOp, checkpointId, committedHeaders, epoch, prevEpoch,
    membership := some membership
    priorConfigIds, configInstallOp, logFloor, checkpointOps, walCapacity
    logView_le := Nat.le_of_not_lt h1
    checkpointOp_le := Nat.le_of_not_lt h2
    headers_band := Decidable.not_not.mp h3
    epoch_eq := by simpa using h0
    logFloor_ge := Nat.le_of_not_lt h4 }

theorem checkpointOp_of_tryNewV4 {view logView : View} {commit checkpointOp : OpNumber}
    {checkpointId : Checksum} {committedHeaders : List Header} {epoch prevEpoch : Epoch}
    {membership : Membership} {priorConfigIds : List Checksum} {configInstallOp logFloor : OpNumber}
    {checkpointOps walCapacity : Nat} {st : VsrState}
    (h : tryNewV4 view logView commit checkpointOp checkpointId committedHeaders epoch prevEpoch
      membership priorConfigIds configInstallOp logFloor checkpointOps walCapacity = .ok st) :
    st.checkpointOp = checkpointOp := by
  unfold tryNewV4 at h
  repeat' split at h
  all_goals cases h
  rfl

end VsrState

/-! ## The backends and the session -/

inductive SlotStatus where
  | empty
  | dirty
  | clean
  | faulty
  deriving DecidableEq

/-- A completed append on the medium; `faulty` once its body has rotted. -/
structure Slot where
  header : Header
  body : Bytes
  faulty : Bool := false
  deriving DecidableEq

/-- An append the device still owes a completion for. -/
structure WalWrite where
  id : OpId
  op : OpNumber
  header : Header
  body : Bytes
  deriving DecidableEq

structure WalRead where
  id : OpId
  op : OpNumber
  deriving DecidableEq

inductive RootRole where
  | durableView
  | checkpoint
  deriving DecidableEq

structure RootEntry where
  role : RootRole
  id : OpId
  state : VsrState
  stamp : Nat

/-- A checkpoint envelope write in flight. -/
structure CheckpointWrite where
  id : OpId
  op : OpNumber
  snapshot : Bytes
  deriving DecidableEq

inductive WalDone where
  | appended (id : OpId)
  | readOk (id : OpId) (header : Header) (body : Bytes)
  | absent (id : OpId)
  | fault (id : OpId)
  | bodyFaulty (id : OpId) (header : Header)
  | cancelled (id : OpId)
  deriving DecidableEq

def WalDone.id : WalDone → OpId
  | appended id | readOk id _ _ | absent id | fault id | bodyFaulty id _ | cancelled id => id

inductive SuperblockDone where
  | wrote (id : OpId)
  | checkpointRead (id : OpId) (op : OpNumber) (snapshot : Bytes)
  | fault (id : OpId)
  deriving DecidableEq

def SuperblockDone.id : SuperblockDone → OpId
  | wrote id | checkpointRead id _ _ | fault id => id

inductive AppendSubmission where
  | submitted
  | slotFenced
  | quotaExhausted
  deriving DecidableEq

def maxPipeline : Nat := 1024
def impliedRingIntervals : Nat := 4

/-- The ring the protocol works in: the backend's, or an implied one when it has none. -/
def effectiveWalCapacity (capacity checkpointOps : Nat) : Nat :=
  if capacity = unboundedCapacity then checkpointOps * impliedRingIntervals + maxPipeline
  else capacity

def sessionAppendQuota (checkpointOps : Nat) : Nat :=
  (checkpointOps * impliedRingIntervals + maxPipeline) * 2

/-- What is on the WAL and the superblock, and what is on its way there. `slots` is keyed by
physical slot. -/
structure Media where
  capacity : Nat
  slots : OrdMap Nat Slot := .empty
  walWrites : List WalWrite := []
  landed : VsrState := .blank
  rootFront : Option RootEntry := none
  parkedDurableView : Option RootEntry := none
  parkedCheckpoint : Option RootEntry := none
  nextRootStamp : Nat := 0

/-- The storage session: the media, reads and envelopes in flight, and the backend's choices. -/
structure Storage extends Media where
  walReads : List WalRead := []
  appendQuota : Nat := 0
  checkpoints : List CheckpointWrite := []
  checkpointReads : List OpId := []
  envelopes : OrdMap Nat Bytes := .empty
  cancels : OpId → Bool := fun _ => false

namespace Media

def canonicalSlot (s : Media) (op : OpNumber) : Nat :=
  if s.capacity = unboundedCapacity then op else op % s.capacity

def slotWriteInFlight (s : Media) (op : OpNumber) : Bool :=
  s.walWrites.any fun w => s.canonicalSlot w.op == s.canonicalSlot op

/-- `Wal::header`: the completed append at `op`, if the slot still holds it. -/
def header (s : Media) (op : OpNumber) : Option Header :=
  match s.slots.get? (s.canonicalSlot op) with
  | some slot => if slot.header.op = op then some slot.header else none
  | none => none

/-- `Wal::status`: an in-flight write makes its slot dirty. -/
def status (s : Media) (op : OpNumber) : SlotStatus :=
  if s.walWrites.any (fun w => w.op == op) then .dirty
  else
    match s.slots.get? (s.canonicalSlot op) with
    | some slot => if slot.header.op = op then (if slot.faulty then .faulty else .clean) else .empty
    | none => .empty

/-- `Wal::op_head`: the highest op a completed append holds. -/
def opHead (s : Media) : OpNumber :=
  s.slots.values.foldl (fun acc slot => max acc slot.header.op) 0

/-- The unsettled roots: the one at the device and the parked ones. -/
def roots (s : Media) : List RootEntry :=
  s.rootFront.toList ++ s.parkedDurableView.toList ++ s.parkedCheckpoint.toList

/-- The later of two unsettled roots. -/
def later (a : Option RootEntry) (b : RootEntry) : Option RootEntry :=
  match a with
  | none => some b
  | some a => if a.stamp ≤ b.stamp then some b else some a

def latestRoot (s : Media) : Option RootEntry := s.roots.foldl later none

/-- The root the medium converges to: the latest submitted one, else the landed one. -/
def effectiveRoot (s : Media) : VsrState :=
  match s.latestRoot with
  | some e => e.state
  | none => s.landed

/-- The assertions of `submit_root`: no root rewinds the one it follows. -/
def rootAdmissible (s : Media) (state : VsrState) : Bool :=
  let e := s.effectiveRoot
  decide (e.view ≤ state.view) && decide (e.checkpointOp ≤ state.checkpointOp)
    && decide (e.epoch ≤ state.epoch)
    && (decide (state.epoch ≠ e.epoch) ||
        match state.membership, e.membership with
        | some new, some cur => new.configId == cur.configId
        | _, _ => true)
    && (e.membership.isNone || decide (e.configInstallOp ≤ state.configInstallOp))

end Media

namespace Storage

def effectiveQuota (s : Storage) : Nat :=
  if s.appendQuota ≠ 0 then s.appendQuota else sessionAppendQuota s.landed.checkpointOps

def submitAppend (s : Storage) (id : OpId) (op : OpNumber) (header : Header) (body : Bytes) :
    Storage × AppendSubmission :=
  if s.slotWriteInFlight op then (s, .slotFenced)
  else
    let s := { s with appendQuota := s.effectiveQuota }
    if s.appendQuota ≤ s.walWrites.length then (s, .quotaExhausted)
    else ({ s with walWrites := s.walWrites ++ [⟨id, op, header, body⟩] }, .submitted)

def submitWalRead (s : Storage) (id : OpId) (op : OpNumber) : Storage :=
  { s with walReads := s.walReads ++ [⟨id, op⟩] }

/-- The in-flight appends a release of the ops in `p` cancels, with the op each one frees. -/
def cancelled (s : Storage) (p : OpNumber → Bool) : List WalWrite :=
  s.walWrites.filter fun w => p w.op && s.cancels w.id

/-- Drop the completed appends of the released ops and the writes the backend cancels. -/
def release (s : Storage) (p : OpNumber → Bool) : Storage :=
  { s with
    slots := s.slots.filter fun _ slot => !p slot.header.op
    walWrites := s.walWrites.filter fun w => !(p w.op && s.cancels w.id) }

def truncate (s : Storage) (above : OpNumber) : Storage × List WalWrite :=
  (s.release fun op => above < op, s.cancelled fun op => above < op)

def prune (s : Storage) (below : OpNumber) : Storage × List WalWrite :=
  (s.release fun op => op < below, s.cancelled fun op => op < below)

/-- `retire_wal_write`: forget an in-flight write, reporting the op whose slot it frees. -/
def retireWalWrite (s : Storage) (id : OpId) : Storage × Option OpNumber :=
  ({ s with walWrites := s.walWrites.filter fun w => w.id ≠ id },
    (s.walWrites.find? fun w => w.id = id).map (·.op))

/-! ### The root timeline -/

def releaseNextRoot (s : Storage) : Storage :=
  match s.rootFront with
  | some _ => s
  | none =>
    match s.parkedDurableView, s.parkedCheckpoint with
    | none, none => s
    | some d, none => { s with rootFront := some d, parkedDurableView := none }
    | none, some c => { s with rootFront := some c, parkedCheckpoint := none }
    | some d, some c =>
      if d.stamp ≤ c.stamp then { s with rootFront := some d, parkedDurableView := none }
      else { s with rootFront := some c, parkedCheckpoint := none }

def submitRoot (s : Storage) (role : RootRole) (id : OpId) (state : VsrState) : Storage :=
  let entry : RootEntry := ⟨role, id, state, s.nextRootStamp⟩
  let s := { s with nextRootStamp := s.nextRootStamp + 1 }
  match role with
  | .durableView => { s with parkedDurableView := some entry }.releaseNextRoot
  | .checkpoint => { s with parkedCheckpoint := some entry }.releaseNextRoot

/-- Withdraw a parked root that has not reached the device. -/
def abandonRoot (s : Storage) (role : RootRole) (id : OpId) : Storage :=
  match role with
  | .durableView =>
    if s.parkedDurableView.any (fun e => e.id = id) then { s with parkedDurableView := none } else s
  | .checkpoint =>
    if s.parkedCheckpoint.any (fun e => e.id = id) then { s with parkedCheckpoint := none } else s

def collapseParkedRoots (s : Storage) : Storage :=
  { s with parkedDurableView := none, parkedCheckpoint := none }

/-- `submit_checkpoint`: one envelope at a time; `none` is the fence. -/
def submitCheckpoint (s : Storage) (id : OpId) (op : OpNumber) (snapshot : Bytes) :
    Option Storage :=
  if s.checkpoints.isEmpty then some { s with checkpoints := [⟨id, op, snapshot⟩] } else none

def submitCheckpointRead (s : Storage) (id : OpId) : Storage :=
  { s with checkpointReads := s.checkpointReads ++ [id] }

/-! ### Completions -/

/-- The medium takes an append. -/
def land (s : Storage) (w : WalWrite) : Storage :=
  { s with slots := s.slots.insert (s.canonicalSlot w.op) ⟨w.header, w.body, false⟩ }

/-- The device makes an in-flight append durable and reports it. -/
def completeAppend (s : Storage) (id : OpId) : Option (Storage × WalDone × Option OpNumber) :=
  match s.walWrites.find? (fun w => w.id = id) with
  | none => none
  | some w =>
    let (s, freed) := (s.land w).retireWalWrite id
    some (s, .appended id, freed)

/-- A read resolves with what the slot holds, or as a fault if the medium so chooses. -/
def completeRead (s : Storage) (id : OpId) (fault : Bool) : Option (Storage × WalDone) :=
  match s.walReads.find? (fun r => r.id = id) with
  | none => none
  | some r =>
    let s' := { s with walReads := s.walReads.filter fun r => r.id ≠ id }
    if fault then some (s', .fault id)
    else
      match s.slots.get? (s.canonicalSlot r.op) with
      | some slot =>
        if slot.header.op = r.op then
          if slot.faulty then some (s', .bodyFaulty id slot.header)
          else some (s', .readOk id slot.header slot.body)
        else some (s', .absent id)
      | none => some (s', .absent id)

/-- The root at the device lands; the next parked root takes its place. -/
def completeRoot (s : Storage) : Option (Storage × RootEntry) :=
  match s.rootFront with
  | none => none
  | some e => some ({ s with landed := e.state, rootFront := none }.releaseNextRoot, e)

def completeCheckpoint (s : Storage) (id : OpId) : Option Storage :=
  match s.checkpoints.find? (fun c => c.id = id) with
  | none => none
  | some c =>
    some { s with
      envelopes := s.envelopes.insert c.op c.snapshot
      checkpoints := s.checkpoints.filter fun c => c.id ≠ id }

/-- A checkpoint read serves the envelope the landed root names, or faults. -/
def completeCheckpointRead (s : Storage) (id : OpId) (fault : Bool) :
    Option (Storage × SuperblockDone) :=
  if s.checkpointReads.contains id then
    let s' := { s with checkpointReads := s.checkpointReads.filter fun r => r ≠ id }
    match fault, s.envelopes.get? s.landed.checkpointOp with
    | false, some snapshot => some (s', .checkpointRead id s.landed.checkpointOp snapshot)
    | _, _ => some (s', .fault id)
  else none

/-- The body of a completed append rots; its header survives. -/
def rot (s : Storage) (op : OpNumber) : Storage :=
  { s with slots := s.slots.modify (s.canonicalSlot op) fun slot => { slot with faulty := true } }

/-- The device gives up an in-flight append. -/
def cancelAppend (s : Storage) (id : OpId) : Option (Storage × WalDone × Option OpNumber) :=
  if s.walWrites.any (fun w => w.id = id) then
    let (s, freed) := s.retireWalWrite id
    some (s, .cancelled id, freed)
  else none

/-- A crash keeps the completed writes and nothing else. Writes in flight that `lands` picks had
completed at the device without the node having heard of it. -/
def crash (s : Storage) (lands : OpId → Bool) : Storage :=
  let media := (s.walWrites.filter fun w => lands w.id).foldl land s
  { capacity := s.capacity
    slots := media.slots
    landed := match s.rootFront with
      | some e => if lands e.id then e.state else s.landed
      | none => s.landed
    envelopes := (s.checkpoints.filter fun c => lands c.id).foldl
      (fun env c => env.insert c.op c.snapshot) s.envelopes }

end Storage

end Viewstamp
