import Viewstamp.Completion

/- Repair: serving held ops to a peer that misses them, filling a hole from a
   peer's reply, and the nack rule by which a primary drops an uncommitted op
   that no replica can supply. -/
namespace Viewstamp

def logEntryFromPrepare (p : Prepare) : LogEntry := .fromCommittedBody p.client p.request p.body

/-- A reply fills a header-only entry when it is the operation the header names. -/
def repairingIdentityMatches (e : LogEntry) (p : Prepare) : Bool :=
  match e.body with
  | .repairing canonical =>
    e.client == p.client && e.request == p.request && fnv1a128 p.body == canonical
  | _ => false

namespace Core

/-- A hole may be filled by the op its header names; without a header only a sender that has
committed the op is believed. -/
def repairAdmits (n : Core) (p : Prepare) : Bool :=
  match n.log.get? p.op with
  | some e => if e.body.isRepairing then repairingIdentityMatches e p else decide (p.op ≤ p.commit)
  | none => decide (p.op ≤ p.commit)

/-- The prepare this node sends for an op it holds. -/
def ownPrepare (n : Core) (op : OpNumber) (client : ClientId) (request : RequestNumber)
    (body : Bytes) : Prepare :=
  { view := n.view, op, commit := n.commitMin, checkpointOp := n.checkpointOp
    epoch := n.membership.epoch, configId := n.membership.configId, client, request, body }

/-- An uncommitted header-only op no fill is under way for. -/
def isRepairOrTruncateCandidate (n : Core) (op : OpNumber) (e : LogEntry) : Bool :=
  decide (n.commitMax < op) && e.body.isRepairing && !n.appending.has op

def nackGap (n : Core) : Option OpNumber :=
  (n.log.filter n.isRepairOrTruncateCandidate).minKey?

end Core

namespace Node

variable {S : Type}

def nackVoters (n : Node S) (op : OpNumber) : Finset MemberId := (n.nackFrom.get? op).getD ∅

/-! ## Filling a hole -/

/-- `true` when the prepare was consumed by the repair of a hole. -/
def fillRepair (n : Node S) (p : Prepare) : Node S × Bool :=
  if !n.repair.has p.op then (n, false)
  else if n.appending.has p.op then (n, true)
  else
    let header := Header.ofBody p.op p.view p.client p.request p.body
    if !header.verify p.body then (n, false)
    else if !n.repairAdmits p then (n, false)
    else if n.ringAppendWouldWrap p.op then (n, false)
    else
      let n := n.submitOrDeferAppend p.op header p.body (.repairFill p.op (logEntryFromPrepare p))
      ({ n with appending := n.appending.add p.op, nackFrom := n.nackFrom.erase p.op }, true)

/-- The prepare a batched entry stands for; header-only entries stand for none. -/
def batchedPrepare (view : View) (commit checkpointOp : OpNumber) (epoch : Epoch)
    (configId : Checksum) (e : PreparedEntry) : Option Prepare :=
  e.body.bodyBytes.map fun body =>
    { view, op := e.op, commit, checkpointOp, epoch, configId
      client := e.client, request := e.request, body }

def onRepairBatch (n : Node S) (m : RepairBatch) : Node S :=
  (m.log.filterMap
    (batchedPrepare n.view m.commit m.checkpointOp n.membership.epoch m.configId)).foldl
    (fun n p => (n.fillRepair p).1) n

/-! ## Serving -/

def onRequestPrepare (n : Node S) (sender : Peer) (m : RequestPrepare) : Node S :=
  if n.status ≠ .normal then n
  else
    match sender with
    | .replica requester =>
      if n.membership.nodeCount ≤ requester then n
      else
        match n.log.get? m.op with
        | none =>
          if n.op < m.op && n.commitMax < m.op then
            n.withLocalSlot fun slot =>
              n.emit (.toPeer (.replica requester))
                (.nack ⟨n.view, m.op, slot, n.membership.configId⟩)
          else n
        | some e =>
          match e.bodyBytes with
          | none => n
          | some body =>
            if n.op < m.op || n.pendingDurableView then n
            else n.emit (.toPeer (.replica requester))
              (.prepare (n.ownPrepare m.op e.client e.request body))
    | _ => n

/-- The held entries of a run that fit one frame. -/
def repairEntries (budget : Nat) : (running : Nat) → List (OpNumber × LogEntry) → List PreparedEntry
  | _, [] => []
  | running, (op, e) :: rest =>
    match e.bodyBytes with
    | none => repairEntries budget running rest
    | some body =>
      let cost := presentEntryEncodedLen body.length
      if running ≠ 0 && budget < running + cost then []
      else .ofBytes op e.client e.request body :: repairEntries budget (running + cost) rest

def onRequestPrepareRange (n : Node S) (sender : Peer) (m : RequestPrepareRange) : Node S :=
  if n.status ≠ .normal || n.pendingDurableView then n
  else
    match sender with
    | .replica requester =>
      if n.membership.nodeCount ≤ requester then n
      else
        let hi := min (min m.hi (m.lo + repairWindow - 1)) n.op
        let held := (n.log.filter fun op _ => decide (m.lo ≤ op) && decide (op ≤ hi)).entries
        let entries := repairEntries (maxFrameLen - repairBatchCarrierOverhead) 0 held
        if hi < m.lo || entries.isEmpty then n
        else n.emit (.toPeer (.replica requester)) (.repairBatch
          { view := n.view, commit := n.commitMin, checkpointOp := n.checkpointOp
            configId := n.membership.configId, log := entries })
    | _ => n

/-! ## Nacks -/

def dropTailOp (n : Node S) (op : OpNumber) : Node S :=
  let n := n.assertCommittedSurvives op n.checkpointOp
  { n with log := n.log.erase op, repair := n.repair.erase op, inflight := n.inflight.erase op }

/-- Lower the watermark of every client whose request was dropped. -/
def lowerTruncatedSessions (n : Node S) (truncated : List ClientId) : Node S :=
  let surviving (client : ClientId) : RequestNumber :=
    Selection.maxOf LogEntry.request (n.log.values.filter fun e => e.client == client)
  let lower (client : ClientId) (s : Session) : Session :=
    if truncated.contains client then
      let backed := max (match s.reply with | some r => r.1 | none => 0) (surviving client)
      { s with request := min s.request backed }
    else s
  { n with clients := n.clients.mapVals lower }

/-- Drop the uncommitted tail from `gap` on, within the view. -/
def truncateUncommittedTailFrom (n : Node S) (gap : OpNumber) : Node S :=
  let tail := List.range' gap (n.op + 1 - gap)
  let truncated := tail.filterMap fun op => (n.log.get? op).map LogEntry.client
  let n := (tail.foldl dropTailOp n).lowerTruncatedSessions truncated
  let n := { n with
    pending := n.pending.filter fun _ p => decide (p.op < gap)
    appending := n.appending.filter fun op _ => decide (op < gap)
    deferredAppends := n.deferredAppends.filter fun op _ => decide (op < gap)
    op := gap - 1 }
  let (n, cancelled) := n.truncateWal (gap - 1)
  let n := n.absorbWalCancellations cancelled
  { n with nackFrom := n.nackFrom.filter fun op _ => decide (op < gap) }.clearIdleRepairRetry

def onNack (n : Node S) (sender : Peer) (m : Nack) : Node S :=
  if !n.participatesAsPrimary || n.pendingForfeit then n
  else if m.view ≠ n.view || m.configId ≠ n.membership.configId then n
  else
    match sender with
    | .replica rid =>
      if !n.membership.isVoter rid then n
      else
        match n.membership.memberAt rid with
        | none => n
        | some member =>
          if !(n.log.get? m.op).any (n.isRepairOrTruncateCandidate m.op) then n
          else
            let n :=
              { n with nackFrom := n.nackFrom.insert m.op (insert member (n.nackVoters m.op)) }
            match n.nackGap with
            | none => n
            | some gap =>
              if n.membership.quorumNackPrepare ≤ (n.nackVoters gap).card then
                n.truncateUncommittedTailFrom gap
              else n
    | _ => n

end Node

end Viewstamp
