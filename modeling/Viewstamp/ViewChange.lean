import Viewstamp.Commit

/- View changes: proposing and entering a view, voting with a DoViewChange,
   selecting the canonical log, forming a view as its primary, adopting one as a
   backup, and catching up to a view seen from the outside. -/
namespace Viewstamp

/-! ## Selecting the canonical log -/

/-- The outcome of a selection over DoViewChange votes. -/
structure Selection where
  log : List PreparedEntry
  opHead : OpNumber
  commitStar : OpNumber
  floorStar : OpNumber
  deriving DecidableEq

namespace Selection

def maxOf {α : Type} (f : α → Nat) (xs : List α) : Nat := xs.foldl (fun acc x => max acc (f x)) 0

/-- The votes of the greatest log view: the only logs the selection trusts. -/
def canonicalVotes (dvcs : List DoViewChange) : List DoViewChange :=
  let logViewStar := maxOf DoViewChange.logView dvcs
  dvcs.filter fun d => d.logView == logViewStar

/-- Take an entry into the union; a body-bearing entry displaces a header-only one. -/
def mergeEntry (floor head : OpNumber) (merged : OrdMap Nat PreparedEntry) (e : PreparedEntry) :
    OrdMap Nat PreparedEntry :=
  if floor < e.op && e.op ≤ head then
    match merged.get? e.op with
    | none => merged.insert e.op e
    | some cur =>
      if cur.body.isRepairing && !e.body.isRepairing then merged.insert e.op e else merged
  else merged

/-- The head above which a nack quorum of donors proves absence. -/
def nackedHead (threshold : Nat) (donorOps : List OpNumber) (commitStar opHead : OpNumber) :
    OpNumber :=
  match (donorOps.insertionSort (· ≤ ·))[threshold - 1]? with
  | some donorOp =>
    if 1 ≤ threshold then
      let cross := max (saturatingSucc donorOp) (saturatingSucc commitStar)
      if cross ≤ opHead then cross - 1 else opHead
    else opHead
  | none => opHead

/-- The claimed head, capped by what some canonical vote holds or has committed. -/
def claimedHead (dvcs : List DoViewChange) : OpNumber :=
  let canonical := canonicalVotes dvcs
  min (maxOf DoViewChange.op canonical)
    (max (maxOf PreparedEntry.op (canonical.flatMap DoViewChange.log))
      (maxOf DoViewChange.commit dvcs))

/-- `select_canonical_log`. -/
def select (threshold : Nat) (dvcs : List DoViewChange) : Selection :=
  let canonical := canonicalVotes dvcs
  let commitStar := maxOf DoViewChange.commit dvcs
  let opHead := nackedHead threshold (dvcs.map DoViewChange.op) commitStar (claimedHead dvcs)
  let floorStar := min (maxOf DoViewChange.checkpointOp canonical) commitStar
  let merged := (canonical.flatMap DoViewChange.log).foldl (mergeEntry floorStar opHead) .empty
  ⟨merged.values, opHead, commitStar, floorStar⟩

end Selection

namespace Core

/-- The whole log, header-only: what every view-change carrier holds. -/
def logEntries (n : Core) : List PreparedEntry :=
  n.log.entries.map fun e => ⟨e.1, e.2.client, e.2.request, .repairing e.2.body.bodyChecksum⟩

/-- The vote this node casts in its current view. -/
def ownDoViewChange (n : Core) (slot : ReplicaId) : DoViewChange where
  view := n.view
  logView := n.logView
  op := n.op
  commit := min n.commitMax n.op
  checkpointOp := n.logFloor
  epoch := n.membership.epoch
  configId := n.membership.configId
  replica := slot
  log := n.logEntries

/-- The entry an adoption stores: a local body is kept for a header-only entry it matches. -/
def adoptedEntry (n : Core) (e : PreparedEntry) : LogEntry :=
  if e.body.isRepairing then
    match n.log.get? e.op with
    | some held =>
      if held.body.isBodyBearing && held.body.bodyChecksum == e.bodyChecksum then
        ⟨e.client, e.request, held.body⟩
      else .ofPrepared e
    | none => .ofPrepared e
  else .ofPrepared e

/-- The ops above everything known committed, up to the head. -/
def uncommittedTail (n : Core) : List OpNumber :=
  let lo := max n.commitMin n.commitMax
  List.range' (lo + 1) (n.op - lo)

/-- The StartView this node sends as the primary of its view. -/
def ownStartView (n : Core) (slot : ReplicaId) : StartView where
  view := n.view
  op := n.op
  commit := n.commitMax
  checkpointOp := n.logFloor
  epoch := n.membership.epoch
  configId := n.membership.configId
  replica := slot
  log := n.logEntries

end Core

namespace Node

variable {S : Type}

/-! ## Proposing a view -/

def pushSvc (n : Node S) (view : View) : Node S :=
  n.withLocalSlot fun slot =>
    n.emit .backups (.startViewChange ⟨view, slot, n.membership.epoch, n.membership.configId⟩)

def joinSvc (n : Node S) (now : Instant) : Node S :=
  n.withLocalSlot fun slot =>
    let n := { n with svcFrom := insert slot n.svcFrom }.pushSvc n.svcTarget
    { n with timers := { n.timers with svcMessage := some (now + vcMessageRetransmit) } }

/-- Leave the current view for `viewNew` and make that durable before voting. -/
def enterViewChange (n : Node S) (now : Instant) (viewNew : View) : Node S :=
  let n := { n with view := viewNew }.setStatus .viewChange
  let n := { n with svcTarget := viewNew }.resetForViewTransition now
  let n := { n with
    viewChange := some (.entering false)
    inflight := .empty
    buffer := .empty }.armTimers now
  n.submitDurableView .sendDoViewChange

def maybeStartViewChange (n : Node S) (now : Instant) : Node S :=
  if n.membership.quorumViewChange ≤ n.svcFrom.card then
    if n.syncRepersistRootStaged then n
    else (n.assert (decide (n.view < n.svcTarget))).enterViewChange now n.svcTarget
  else n

def proposeNextView (n : Node S) (now : Instant) : Node S :=
  if n.isLearner then n
  else
    let n :=
      if n.svcTarget < n.view + 1 then { n with svcTarget := n.view + 1, svcFrom := ∅ } else n
    (n.joinSvc now).maybeStartViewChange now

def forfeit (n : Node S) (now : Instant) : Node S :=
  { n with
    timers := { n.timers with forfeitArmed := none }
    pendingForfeit := true }.proposeNextView now

/-- A primary that lags its quorum's checkpoint, or cannot repair a committed hole, steps down
after a grace period. -/
def maybeForfeit (n : Node S) (now : Instant) : Node S :=
  if n.membership.replicaCount ≤ 1 then
    { n with timers := { n.timers with forfeitArmed := none } }
  else
    let lag := n.quorumCheckpointOp - n.checkpointOp
    let stuck := decide (n.config.forfeitCheckpointLag ≤ lag)
      || n.repair.keys.any fun op => decide (op ≤ n.commitMax)
    match stuck, n.timers.forfeitArmed with
    | false, _ => { n with timers := { n.timers with forfeitArmed := none } }
    | true, none => { n with timers := { n.timers with forfeitArmed := some (now + forfeitGrace) } }
    | true, some deadline => if deadline ≤ now then n.forfeit now else n

def onStartViewChange (n : Node S) (now : Instant) (m : StartViewChange) : Node S :=
  if n.isLearner then n
  else if m.view ≤ n.view then n
  else if n.membership.replicaCount ≤ m.replica then n
  else
    let n := if n.svcTarget < m.view then
        { n with svcTarget := m.view, svcFrom := ∅ }.joinSvc now
      else n
    if m.view = n.svcTarget then
      { n with svcFrom := insert m.replica n.svcFrom }.maybeStartViewChange now
    else n

def notePrimaryContact (n : Node S) (now : Instant) : Node S :=
  if n.status = .normal && !n.isPrimary then n.armPrimaryIdle now else n

/-! ## Voting -/

def sendDoViewChange (n : Node S) : Node S :=
  if !n.isVoter then n
  else n.withLocalSlot fun slot =>
    n.emit (.toPeer (.replica (n.membership.primary n.view)))
      (.doViewChange (n.ownDoViewChange slot))

/-! ## Adopting a log -/

/-- No session watermark runs ahead of what the log or a reply backs. -/
def reconcileSessionWatermarks (n : Node S) : Node S :=
  let highestInLog (client : ClientId) : RequestNumber :=
    Selection.maxOf LogEntry.request (n.log.values.filter fun e => e.client == client)
  { n with clients := n.clients.mapVals fun client s =>
      let backed := max (match s.reply with | some r => r.1 | none => 0) (highestInLog client)
      { s with request := min s.request backed } }

/-- Replace the log by the canonical entries, keeping applied ops above the floor that the
canonical log does not name. -/
def adoptLog (n : Node S) (entries : List PreparedEntry) (floor : OpNumber) : Node S :=
  let n := n.assertCommittedSurvives floor floor
  let supplied (op : OpNumber) : Bool := entries.any fun e => e.op == op
  let kept := n.log.filter fun op _ =>
    decide (floor < op) && decide (op ≤ n.commitMin) && !supplied op
  let log := entries.foldl (fun log e => log.insert e.op (n.adoptedEntry e)) kept
  { n with log }.reconcileSessionWatermarks

def clearIdleRepairRetry (n : Node S) : Node S :=
  if n.repair.isEmpty then { n with timers := { n.timers with repairRetry := none } } else n

/-- Append an adopted entry; its completion casts `kind`. Header-only entries wait for repair. -/
def adoptAppend (n : Node S) (op : OpNumber) (kind : Pending) : Node S :=
  match n.log.get? op with
  | none => n
  | some e =>
    match e.bodyBytes with
    | none => n
    | some body =>
      if n.ringAppendWouldWrap op then n
      else
        let header := Header.ofBody op n.view e.client e.request body
        let n := n.submitOrDeferAppend op header body kind
        { n with appending := n.appending.add op }

def startViewAcks (n : Node S) : Node S :=
  n.uncommittedTail.foldl (fun n op => n.adoptAppend op (.adoptAck op)) n

/-- Append the adopted ops that were skipped for lack of ring space. -/
def retryUnappendedAdoptedTail (n : Node S) : Node S :=
  if n.status ≠ .normal || n.pendingDurableView then n
  else n.uncommittedTail.foldl (fun n op =>
    if n.appending.has op || n.opDurablyAppended op then n
    else n.adoptAppend op (if n.isPrimary then .adoptVote op else .adoptAck op)) n

def truncateWalAboveAdoptedHead (n : Node S) : Node S :=
  let n := n.assertCommittedSurvives (n.op + 1) n.checkpointOp
  let (n, cancelled) := n.truncateWal n.op
  n.absorbWalCancellations cancelled

/-- Truncate the uncommitted tail at its first gap. -/
def truncateAtGap (n : Node S) (commitStar : OpNumber) : Node S :=
  match (List.range' (commitStar + 1) (n.op - commitStar)).find? fun op => !n.log.contains op with
  | none => n
  | some gap =>
    let n := n.assertCommittedSurvives gap n.checkpointOp
    { n with
      op := gap - 1
      log := n.log.filter fun op _ => decide (op ≤ gap - 1)
      repair := n.repair.filter fun op _ => decide (op ≤ gap - 1) }.clearIdleRepairRetry

/-- Raise each session's watermark to the requests the log holds. -/
def raiseSessionWatermarks (n : Node S) : Node S :=
  let raise (cs : OrdMap ClientId Session) (e : LogEntry) : OrdMap ClientId Session :=
    let s := (cs.get? e.client).getD {}
    cs.insert e.client { s with request := max s.request e.request }
  { n with clients := (n.log.filter fun op _ => decide (op ≤ n.op)).values.foldl raise n.clients }

/-- Open an in-flight record for an adopted op and append it. -/
def driveAdopted (n : Node S) (op : OpNumber) : Node S :=
  let prepareChecksum := match n.log.get? op with
    | some e => e.identity
    | none => 0
  { n with inflight := n.inflight.insert op ⟨∅, false, prepareChecksum⟩ }.adoptAppend op
    (.adoptVote op)

/-- The node leads the view it has formed. -/
def becomePrimary (n : Node S) : Node S :=
  { ({ n with logView := n.view }.setStatus .normal).event (.viewChanged n.view true) with
    viewChange := none, pendingForfeit := false }

/-- Ask for the bodies the adopted tail lacks and collect votes for the rest. -/
def driveAdoptedTail (n : Node S) (now : Instant) : Node S :=
  let repairingTail := (n.log.filter fun op e =>
    decide (n.commitMin < op) && decide (op ≤ n.op) && e.body.isRepairing).keys
  let n := repairingTail.foldl (fun n op => n.requestRepair now op) n
  let n := { n with inflight := .empty }
  (List.range' (n.commitMax + 1) (n.op - n.commitMax)).foldl driveAdopted n

variable [StateMachine S]

/-- `start_view_as_new_primary`: form the view from a quorum of votes. -/
def startViewAsNewPrimary (n : Node S) (now : Instant) (dvcs : List DoViewChange) : Node S :=
  let sel := Selection.select n.membership.quorumNackPrepare dvcs
  let n := n.assert (decide (sel.commitStar ≤ Selection.claimedHead dvcs))
  let n := (n.raiseLogFloor sel.floorStar).adoptLog sel.log sel.floorStar
  let supplied (op : OpNumber) : Bool := sel.log.any fun e => e.op == op
  let n := { n with
    op := sel.opHead
    commitMax := sel.commitStar
    repair := n.repair.filter fun op _ => !supplied op }.clearIdleRepairRetry
  match n.advanceCommit now sel.commitStar with
  | (n, .enteredRecovery) => n
  | (n, .proceed) =>
    let n := n.truncateAtGap sel.commitStar
    let n := n.truncateWalAboveAdoptedHead
    let n := n.raiseSessionWatermarks.reconcileSessionWatermarks.becomePrimary
    (n.driveAdoptedTail now).submitDurableView .startViewAsPrimary

/-- Count a vote for the view this node is forming. -/
def onDoViewChange (n : Node S) (now : Instant) (m : DoViewChange) : Node S :=
  if m.view ≠ n.view then n
  else n.withLocalSlot fun own =>
    match n.viewChange with
    | none => n
    | some vc =>
      if own ≠ n.membership.primary n.view || n.status ≠ .viewChange || vc.dvcQuorum then n
      else if n.membership.replicaCount ≤ m.replica then n
      else
        let n := n.recordPeerCheckpoint m.replica m.checkpointOp
        let votes := if vc.dvcFrom.contains own then vc.dvcFrom
          else vc.dvcFrom.insert own (n.ownDoViewChange own)
        let replace := match votes.get? m.replica with
          | some cur => decide (cur.logView < m.logView ∨ (cur.logView = m.logView ∧ cur.op < m.op))
          | none => true
        let votes := if replace then votes.insert m.replica m else votes
        let n := { n with viewChange := some { vc with dvcFrom := votes } }
        if n.membership.quorumViewChange ≤ votes.size then n.startViewAsNewPrimary now votes.values
        else n

/-- The formed view is durable: announce it. -/
def startViewParticipate (n : Node S) (now : Instant) : Node S :=
  if !n.isPrimary then n
  else
    match n.maybeAdoptInheritedFrontier.maybeEnterOrphanRepersistRecovery now with
    | (n, .enteredRecovery) => n
    | (n, .proceed) =>
      match n.repersistOrphanOwed with
      | (n, some _) => n.armTimers now
      | (n, none) =>
        let n := n.withLocalSlot fun slot => n.emit .backups (.startView (n.ownStartView slot))
        ((n.armTimers now).tryCommit now).1

/-- Adopt the head a primary advertises: StartView and RecoveryResponse both end here. -/
def adoptCanonicalHead (n : Node S) (now : Instant) (view : View)
    (op commit checkpointOp : OpNumber)
    (log : List PreparedEntry) : Node S × CommitFlow :=
  let n := (n.assert (decide (commit ≤ op))).assert (decide (n.commitMin ≤ op))
  let floor := min checkpointOp commit
  let n := ({ n with view }.raiseLogFloor floor).adoptLog log floor
  let n :=
    { n with op, repair := n.repair.filter fun op _ => !n.log.contains op }.clearIdleRepairRetry
  match n.advanceCommit now commit with
  | (n, .enteredRecovery) => (n, .enteredRecovery)
  | (n, .proceed) =>
    let (n, owed) := if n.status = .recoveringHead then n.repersistOrphanOwed else (n, none)
    if owed.isSome then (n.enterOrphanRepersistRecovery now, .enteredRecovery)
    else
      let n := { n with logView := view }.setStatus .normal
      let n := n.withLocalSlot fun slot =>
        n.event (.viewChanged view (slot == n.membership.primary view))
      let n := n.resetForViewTransition now
      let n := if 0 < floor then n.recordPeerCheckpoint (n.membership.primary view) floor else n
      let n := { n with viewChange := none }
      let n := n.assert (n.recover.all fun r =>
        r.pending.isEmpty && r.reads.isEmpty && r.checkpointReads.isEmpty)
      let n := { n with recover := none }.armTimers now
      (n.submitDurableView .adoptedStartView, .proceed)

def onStartView (n : Node S) (now : Instant) (m : StartView) : Node S :=
  if m.view < n.view || (m.view = n.view && n.status = .normal) then n
  else if m.replica ≠ n.membership.primary m.view then n
  else if n.syncRepersistRootStaged then n
  else
    match n.adoptCanonicalHead now m.view m.op m.commit m.checkpointOp m.log with
    | (n, .enteredRecovery) => n
    | (n, .proceed) => n.truncateWalAboveAdoptedHead

/-! ## Catching up to a view -/

def sendGetView (n : Node S) (now : Instant) : Node S :=
  n.withLocalSlot fun slot =>
    let n := n.emit (.toPeer (.replica (n.membership.primary n.view)))
      (.getView ⟨n.view, slot, n.nonce, n.membership.epoch, n.membership.configId⟩)
    { n with timers := { n.timers with getViewMessage := some (now + vcMessageRetransmit) } }

/-- Wait for the primary of the current view to supply its head. -/
def enterCatchUpPosture (n : Node S) (now : Instant) : Node S :=
  let n := n.setStatus .viewChange
  let n := { n with svcTarget := n.view }.resetForViewTransition now
  let n := { n with
    viewChange := some (.entering true)
    inflight := .empty
    buffer := .empty }.abandonPendingSb
  (n.armTimers now).sendGetView now

def catchUpToView (n : Node S) (now : Instant) (view : View) : Node S :=
  if n.syncRepersistRootStaged then n
  else if n.view + maxViewJump < view then n
  else
    let n := n.assert (decide (n.view < view))
    { n with view }.enterCatchUpPosture now

/-- Nobody confirmed the view: fall back to the newest view on the root timeline. -/
def revertCatchUpToEffectiveView (n : Node S) (now : Instant) (revertTo : View) : Node S :=
  let n := { n with
    view := revertTo
    svcTarget := revertTo
    svcFrom := ∅
    viewChange := none }.setStatus .normal
  let n := n.armTimers now
  if n.isPrimary then n.deferForfeit now else n

def timerDue (deadline : Option Instant) (now : Instant) : Bool :=
  deadline.any fun d => decide (d ≤ now)

/-- The view-change status timer of a replica that is catching up. -/
def countCatchupWindow (n : Node S) : Node S :=
  { n with viewChange := n.viewChange.map ViewChangeCollection.countWindow }

def viewChangeStatusTimeout (n : Node S) (now : Instant) : Node S :=
  let revertTo := max n.durableView n.storage.effectiveRoot.view
  let n := if n.catchingUp then n.countCatchupWindow else n
  if n.catchingUp
      && n.viewChange.any (fun vc => decide (catchUpValidationWindows ≤ vc.catchupWindows))
      && decide (revertTo < n.view) then n.revertCatchUpToEffectiveView now revertTo
  else (n.proposeNextView now).armTimers now

def viewChangeTimeouts (n : Node S) (now : Instant) : Node S :=
  let n := if timerDue n.timers.svcMessage now then
      let n := n.pushSvc n.svcTarget
      { n with timers := { n.timers with svcMessage := some (now + vcMessageRetransmit) } }
    else n
  let n := if n.durableView = n.view && timerDue n.timers.dvcMessage now then
      let n := n.sendDoViewChange
      { n with timers := { n.timers with dvcMessage := some (now + vcMessageRetransmit) } }
    else n
  let n := if timerDue n.timers.getViewMessage now then n.sendGetView now else n
  if timerDue n.timers.viewChangeStatus now then n.viewChangeStatusTimeout now else n

/-! ## Answering for the view -/

def onGetView (n : Node S) (m : GetView) : Node S :=
  match n.repersistOrphanOwed with
  | (n, some _) => n
  | (n, none) =>
    if n.participatesAsPrimary && m.view ≤ n.view then
      n.withLocalSlot fun slot =>
        n.emit (.toPeer (.replica m.replica)) (.startView (n.ownStartView slot))
    else n

def onRecovery (n : Node S) (m : Recovery) : Node S :=
  if n.status ≠ .normal || n.pendingDurableView then n
  else
    match n.repersistOrphanOwed with
    | (n, some _) => n
    | (n, none) =>
      if n.membership.nodeCount ≤ m.replica then n
      else n.withLocalSlot fun slot =>
        let primary := n.isPrimary
        n.emit (.toPeer (.replica m.replica)) (.recoveryResponse
          { view := n.view
            op := if primary then n.op else 0
            commit := if primary then n.commitMax else 0
            checkpointOp := if primary then n.logFloor else 0
            epoch := n.membership.epoch
            configId := n.membership.configId
            replica := slot
            nonce := m.nonce
            log := if primary then n.logEntries else [] })

def onRecoveryResponse (n : Node S) (now : Instant) (m : RecoveryResponse) : Node S :=
  if n.status ≠ .recoveringHead then n
  else if m.nonce ≠ n.nonce || m.view < n.view then n
  else if m.replica ≠ n.membership.primary m.view then n
  else if n.syncRepersistRootStaged then n
  else
    match n.adoptCanonicalHead now m.view m.op m.commit m.checkpointOp m.log with
    | (n, .enteredRecovery) => n
    | (n, .proceed) => n.truncateWalAboveAdoptedHead

end Node

end Viewstamp
