import Viewstamp.Holding
import Viewstamp.Run

/- The primary's retransmission, in batches.

   The window is sent as batches that are filled until the next entry would overflow a
   frame. What matters to a backup is the sequence of prepares: the batches of one tick
   carry the entries of the window that have a body, each once and in order, and a backup
   that is given the batches does what it would do if it were given the prepares. -/
namespace Viewstamp

open List

/-- The entries a message carries to a backup as prepares. -/
def Message.carried : Message → List PreparedEntry
  | .prepare p => [.ofBytes p.op p.client p.request p.body]
  | .prepareBatch m => m.log
  | _ => []

variable {S : Type}

namespace Node

/-! ## What is sent -/

/-- From `n` to `m` these messages were put on the wire, oldest first. -/
def Sends (n m : Node S) (sent : List Outgoing) : Prop :=
  m.emitted = sent.reverse ++ n.emitted

namespace Sends

variable {n m k : Node S} {sent sent' : List Outgoing}

theorem of_emitted_eq (h : m.emitted = n.emitted) : Sends n m [] := by
  simp [Sends, h]

theorem trans (h : Sends n m sent) (h' : Sends m k sent') : Sends n k (sent ++ sent') := by
  rw [Sends, h', h, reverse_append, append_assoc]

theorem emit (h : n.panicked = false) (recipient : Recipient) (msg : Message) :
    Sends n (n.emit recipient msg) [⟨recipient, msg⟩] := by
  simp [Sends, Node.emit, h]

end Sends

/-- Nothing that was sent carries a prepare. -/
def Unprepared (n m : Node S) : Prop :=
  ∃ sent, Sends n m sent ∧ ∀ o ∈ sent, o.msg.carried = []

namespace Unprepared

variable {n m k : Node S}

theorem of_emitted_eq (h : m.emitted = n.emitted) : Unprepared n m :=
  ⟨[], .of_emitted_eq h, nofun⟩

theorem trans (h : Unprepared n m) (h' : Unprepared m k) : Unprepared n k := by
  obtain ⟨sent, hs, hc⟩ := h
  obtain ⟨sent', hs', hc'⟩ := h'
  refine ⟨sent ++ sent', hs.trans hs', ?_⟩
  intro o ho
  exact (mem_append.mp ho).elim (hc o) (hc' o)

theorem emit (n : Node S) (recipient : Recipient) {msg : Message} (h : msg.carried = []) :
    Unprepared n (n.emit recipient msg) := by
  cases hp : n.panicked with
  | true =>
    apply of_emitted_eq
    simp [Node.emit, hp]
  | false =>
    refine ⟨_, .emit hp recipient msg, ?_⟩
    intro o ho
    rw [mem_singleton.mp ho]
    exact h

end Unprepared

variable (n : Node S) (now : Instant)

/-! ## Steps that send no prepare -/

theorem emitted_enterViewChange (v : View) : (n.enterViewChange now v).emitted = n.emitted := by
  have hemitted {m m' : Node S} (h : m'.still = m.still) : m'.emitted = m.emitted :=
    congrArg Prod.snd h
  simp [enterViewChange, submitDurableView, armTimers, hemitted (submitRoot_still _ _ _),
    hemitted (resetForViewTransition_still _ now), hemitted (setStatus_still _ _)]

theorem unprepared_maybeStartViewChange : Unprepared n (n.maybeStartViewChange now) := by
  apply Unprepared.of_emitted_eq
  simp only [maybeStartViewChange]
  split
  · split
    · rfl
    · rw [emitted_enterViewChange, Node.assert]
      split <;> rfl
  · rfl

theorem unprepared_pushSvc (v : View) : Unprepared n (n.pushSvc v) := by
  simp only [pushSvc, withLocalSlot]
  split
  · exact .emit n _ rfl
  · exact .of_emitted_eq rfl

theorem unprepared_joinSvc : Unprepared n (n.joinSvc now) := by
  simp only [joinSvc, withLocalSlot]
  split
  · rename_i slot _
    have hpush := unprepared_pushSvc { n with svcFrom := insert slot n.svcFrom } n.svcTarget
    exact (Unprepared.of_emitted_eq rfl).trans (hpush.trans (.of_emitted_eq rfl))
  · exact .of_emitted_eq rfl

theorem unprepared_proposeNextView : Unprepared n (n.proposeNextView now) := by
  simp only [proposeNextView]
  split
  · exact .of_emitted_eq rfl
  · split
    · have hraise : Unprepared n { n with svcTarget := n.view + 1, svcFrom := ∅ } :=
        .of_emitted_eq rfl
      exact hraise.trans ((unprepared_joinSvc _ now).trans (unprepared_maybeStartViewChange _ now))
    · exact (unprepared_joinSvc n now).trans (unprepared_maybeStartViewChange _ now)

theorem unprepared_maybeForfeit : Unprepared n (n.maybeForfeit now) := by
  simp only [maybeForfeit, forfeit]
  split
  · exact .of_emitted_eq rfl
  · split
    · exact .of_emitted_eq rfl
    · exact .of_emitted_eq rfl
    · split
      · exact (Unprepared.of_emitted_eq rfl).trans (unprepared_proposeNextView _ now)
      · exact .of_emitted_eq rfl

theorem unprepared_heartbeat : Unprepared n (n.heartbeat now) := by
  unfold heartbeat
  extract_lets timers armed beat
  have harmed : Unprepared n armed := by
    apply Unprepared.of_emitted_eq
    simp only [armed]
    split <;> rfl
  split
  · have hbeat : Unprepared armed beat := .emit armed _ rfl
    exact harmed.trans (hbeat.trans (.of_emitted_eq rfl))
  · exact harmed

/-! ## The window -/

/-- The ops `primary_timeouts` retransmits: none, unless its timer is due and the view settled. -/
def retransmitWindow (n : Node S) (now : Instant) : List OpNumber :=
  if n.pendingForfeit || n.pendingDurableView || !timerDue n.timers.prepare now then []
  else
    let lo := n.commitMin + 1
    let hi := min n.op (lo + prepareRetransmitWindow - 1)
    range' lo (hi + 1 - lo)

/-- The entry of an op, if its body is held. -/
def bodyBearing (n : Node S) (op : OpNumber) : Option PreparedEntry :=
  (n.log.get? op).bind fun e => e.bodyBytes.map (PreparedEntry.ofBytes op e.client e.request)

/-- The prepare of an op, as the primary sends it on its own. -/
def windowPrepare (n : Node S) (op : OpNumber) : Option Prepare :=
  (n.log.get? op).bind fun e => e.bodyBytes.map (n.ownPrepare op e.client e.request)

/-- The batch a primary in this state puts entries into. -/
def batchOf (n : Node S) (log : List PreparedEntry) : PrepareBatch :=
  { view := n.view, commit := n.commitMin, checkpointOp := n.checkpointOp
    epoch := n.membership.epoch, configId := n.membership.configId, log }

/-- The batches of one tick, oldest first, all to the backups. -/
def batchesTo (n : Node S) (batches : List (List PreparedEntry)) : List Outgoing :=
  batches.map fun log => ⟨.backups, .prepareBatch (n.batchOf log)⟩

/-- The loop sends the entries at hand and those of the ops to come, and changes nothing else. -/
theorem retransmit_sends (budget : Nat) (ops : List OpNumber) (running : Nat)
    (entries : List PreparedEntry) (n : Node S) (hp : n.panicked = false) :
    ∃ batches, Sends n (retransmit budget running entries ops n) (n.batchesTo batches) ∧
      batches.flatten = entries ++ ops.filterMap n.bodyBearing ∧
      ∃ said, retransmit budget running entries ops n = { n with emitted := said } := by
  induction ops generalizing running entries n with
  | nil =>
    simp only [retransmit]
    split
    · rename_i hempty
      refine ⟨[], .of_emitted_eq rfl, ?_, n.emitted, rfl⟩
      simp [isEmpty_iff.mp hempty]
    · refine ⟨[entries], .emit hp _ _, by simp, ?_⟩
      simp only [emitPrepareBatch, emit, hp]
      exact ⟨_, rfl⟩
  | cons op ops ih =>
    simp only [retransmit]
    split
    · rename_i hnone
      obtain ⟨batches, hsends, hflat, hrest⟩ := ih running entries n hp
      have hskip : n.bodyBearing op = none := by
        simpa [bodyBearing, Option.bind_eq_none_iff] using hnone
      exact ⟨batches, hsends, by rw [hflat, filterMap_cons_none hskip], hrest⟩
    · rename_i e body hsome
      have hbody : n.bodyBearing op = some (.ofBytes op e.client e.request body) := by
        obtain ⟨e', he, hb⟩ := Option.bind_eq_some_iff.mp hsome
        obtain ⟨b, hb, heq⟩ := Option.map_eq_some_iff.mp hb
        cases heq
        simp [bodyBearing, he, hb]
      split
      · -- the batch is full: it goes out, and the entry opens the next one
        have hsent : Sends n (n.emitPrepareBatch entries) (n.batchesTo [entries]) := .emit hp _ _
        have hsame : ∃ said, n.emitPrepareBatch entries = { n with emitted := said } := by
          simp only [emitPrepareBatch, emit, hp]
          exact ⟨_, rfl⟩
        obtain ⟨said, hsaid⟩ := hsame
        rw [hsaid] at hsent ⊢
        obtain ⟨batches, hsends, hflat, hrest⟩ := ih (presentEntryEncodedLen body.length)
          [.ofBytes op e.client e.request body] { n with emitted := said } hp
        refine ⟨entries :: batches, hsent.trans hsends, ?_, hrest⟩
        rw [flatten_cons, hflat, filterMap_cons_some hbody]
        rfl
      · obtain ⟨batches, hsends, hflat, hrest⟩ := ih (running + presentEntryEncodedLen body.length)
          (entries ++ [.ofBytes op e.client e.request body]) n hp
        refine ⟨batches, hsends, ?_, hrest⟩
        rw [hflat, filterMap_cons_some hbody, append_assoc]
        rfl

/-- A commit announcement is speech only. -/
theorem emitCommit_eq : ∃ said, n.emitCommit = { n with emitted := said } := by
  simp only [emitCommit, emit]
  split
  · exact ⟨n.emitted, rfl⟩
  · exact ⟨_, rfl⟩

/-- The heartbeat touches its own timer and speaks. -/
theorem heartbeat_eq : ∃ commit said,
    n.heartbeat now = { n with timers := { n.timers with commit }, emitted := said } := by
  simp only [heartbeat]
  split
  · split
    · obtain ⟨said, hsaid⟩ := emitCommit_eq
        { n with timers := { n.timers with commit := some (now + commitHeartbeat) } }
      exact ⟨_, said, by rw [hsaid]⟩
    · exact ⟨_, n.emitted, rfl⟩
  · split
    · obtain ⟨said, hsaid⟩ := emitCommit_eq n
      exact ⟨_, said, by rw [hsaid]⟩
    · exact ⟨n.timers.commit, n.emitted, rfl⟩

theorem retransmitPrepares_sends (hp : n.panicked = false)
    (hforfeit : n.pendingForfeit = false) (hview : n.pendingDurableView = false) :
    ∃ batches, Sends n (n.retransmitPrepares now) (n.batchesTo batches) ∧
      batches.flatten = (n.retransmitWindow now).filterMap n.bodyBearing := by
  have hwindow : n.retransmitWindow now = if !timerDue n.timers.prepare now then [] else
      range' (n.commitMin + 1)
        (min n.op (n.commitMin + 1 + prepareRetransmitWindow - 1) + 1 - (n.commitMin + 1)) := by
    simp [retransmitWindow, hforfeit, hview]
  rw [hwindow]
  unfold retransmitPrepares
  split
  · exact ⟨[], .of_emitted_eq rfl, rfl⟩
  · obtain ⟨batches, hsends, hflat, -⟩ := retransmit_sends
      (maxFrameLen - prepareBatchCarrierOverhead)
      (range' (n.commitMin + 1)
        (min n.op (n.commitMin + 1 + prepareRetransmitWindow - 1) + 1 - (n.commitMin + 1)))
      0 [] n hp
    refine ⟨batches, ?_, hflat⟩
    have hsame := hsends.trans (.of_emitted_eq rfl)
    rw [append_nil] at hsame
    exact hsame

/-- What the primary sends in one tick: the window in batches, and around it messages that carry
no prepare. -/
theorem primaryTimeouts_sends (hp : n.panicked = false) :
    ∃ before batches after,
      Sends n (n.primaryTimeouts now) (before ++ n.batchesTo batches ++ after) ∧
      (∀ o ∈ before, o.msg.carried = []) ∧ (∀ o ∈ after, o.msg.carried = []) ∧
      batches.flatten = (n.retransmitWindow now).filterMap n.bodyBearing := by
  have hquiet {m : Node S} (h : Unprepared n m) (hwindow : n.retransmitWindow now = []) :
      ∃ before batches after, Sends n m (before ++ n.batchesTo batches ++ after) ∧
        (∀ o ∈ before, o.msg.carried = []) ∧ (∀ o ∈ after, o.msg.carried = []) ∧
        batches.flatten = (n.retransmitWindow now).filterMap n.bodyBearing := by
    obtain ⟨sent, hsends, hcarried⟩ := h
    refine ⟨sent, [], [], ?_, hcarried, nofun, by rw [hwindow]; rfl⟩
    rw [batchesTo, map_nil, append_nil, append_nil]
    exact hsends
  unfold primaryTimeouts
  split
  · rename_i hforfeit
    have hwindow : n.retransmitWindow now = [] := by simp [retransmitWindow, hforfeit]
    refine hquiet ?_ hwindow
    extract_lets timers cleared
    have hcleared : Unprepared n cleared := .of_emitted_eq rfl
    split
    · exact hcleared.trans (unprepared_proposeNextView cleared now)
    · exact hcleared
  · rename_i hforfeit
    have hforfeit : n.pendingForfeit = false := by simpa using hforfeit
    split
    · rename_i hview
      exact hquiet (.of_emitted_eq rfl) (by simp [retransmitWindow, hview])
    · rename_i hview
      have hview : n.pendingDurableView = false := by simpa using hview
      obtain ⟨before, hbefore, hcarried⟩ := unprepared_heartbeat n now
      obtain ⟨commit, said, hbeat⟩ := heartbeat_eq n now
      obtain ⟨after, hafter, hcarried'⟩ :=
        unprepared_maybeForfeit ((n.heartbeat now).retransmitPrepares
        now) now
      rw [hbeat] at hbefore hafter ⊢
      obtain ⟨batches, hsends, hflat⟩ := retransmitPrepares_sends
        { n with timers := { n.timers with commit }, emitted := said } now hp hforfeit hview
      exact ⟨before, batches, after, (hbefore.trans hsends).trans hafter, hcarried,
        hcarried', hflat⟩

/-! ## The backup -/

variable [StateMachine S]

/-- What a retransmission does to a backup that is given it. -/
def takePrepares (b : Node S) (now : Instant) : Message → Node S
  | .prepare p => b.onPrepare now p
  | .prepareBatch m => b.onPrepareBatch now m
  | _ => b

theorem takePrepares_of_carried_nil (b : Node S) (now : Instant) {msg : Message}
    (h : msg.carried = []) : b.takePrepares now msg = b := by
  cases msg with
  | prepare p => cases h
  | prepareBatch m =>
    have hlog : m.log = [] := h
    simp only [takePrepares, onPrepareBatch, hlog]
    rfl
  | _ => rfl

theorem foldl_takePrepares_of_carried_nil (b : Node S) (now : Instant) {sent : List Outgoing}
    (h : ∀ o ∈ sent, o.msg.carried = []) :
    sent.foldl (fun b o => b.takePrepares now o.msg) b = b := by
  induction sent with
  | nil => rfl
  | cons o sent ih =>
    rw [foldl_cons, takePrepares_of_carried_nil b now (h o mem_cons_self)]
    exact ih fun o' ho' => h o' (mem_cons_of_mem o ho')

/-- Batches one after the other are one batch. -/
theorem foldl_batchesTo (n b : Node S) (now : Instant) (batches : List (List PreparedEntry)) :
    (n.batchesTo batches).foldl (fun b o => b.takePrepares now o.msg) b
      = b.onPrepareBatch now (n.batchOf batches.flatten) := by
  induction batches generalizing b with
  | nil => rfl
  | cons log batches ih =>
    rw [batchesTo, map_cons, foldl_cons]
    show (n.batchesTo batches).foldl _ (b.onPrepareBatch now (n.batchOf log)) = _
    rw [ih]
    simp only [onPrepareBatch, batchOf, flatten_cons, filterMap_append, foldl_append]

omit [StateMachine S] in
/-- The receiver rebuilds the prepare the primary would have sent. -/
theorem filterMap_batchedPrepare (ops : List OpNumber) :
    (ops.filterMap n.bodyBearing).filterMap (batchedPrepare n.view n.commitMin n.checkpointOp
      n.membership.epoch n.membership.configId) = ops.filterMap n.windowPrepare := by
  rw [filterMap_filterMap]
  congr 1
  funext op
  simp only [bodyBearing, windowPrepare]
  cases n.log.get? op with
  | none => rfl
  | some e => cases hb : e.bodyBytes with
    | none => simp [hb]
    | some body => simp [hb, batchedPrepare, PreparedEntry.ofBytes, Core.ownPrepare, Body.bodyBytes]

omit [StateMachine S] in
theorem bodyBearing_op {n : Node S} {op : OpNumber} {e : PreparedEntry}
    (h : n.bodyBearing op = some e) : e.op = op := by
  obtain ⟨entry, -, h⟩ := Option.bind_eq_some_iff.mp h
  obtain ⟨body, -, rfl⟩ := Option.map_eq_some_iff.mp h
  rfl

omit [StateMachine S] in
theorem retransmitWindow_ascending : (n.retransmitWindow now).Pairwise (· < ·) := by
  simp only [retransmitWindow]
  split
  · exact .nil
  · exact pairwise_lt_range'

/-- One tick of the primary carries the entries of its window that have a body, each once and in
the order of their ops. A batch does to a backup what its entries do one by one; so the tick does
to it what the prepares of the window would do. -/
theorem retransmission (hp : n.panicked = false) :
    ∃ sent, Sends n (n.primaryTimeouts now) sent ∧
      sent.flatMap (fun o => o.msg.carried) = (n.retransmitWindow now).filterMap n.bodyBearing ∧
      (sent.flatMap fun o => o.msg.carried).Pairwise (fun a b => a.op < b.op) ∧
      ∀ (b : Node S) (later : Instant),
        (∀ m : PrepareBatch, b.onPrepareBatch later m = (m.log.filterMap (batchedPrepare m.view
          m.commit m.checkpointOp m.epoch m.configId)).foldl (fun b p => b.onPrepare later p) b) ∧
        sent.foldl (fun b o => b.takePrepares later o.msg) b
          = ((n.retransmitWindow now).filterMap n.windowPrepare).foldl
            (fun b p => b.onPrepare later p) b := by
  obtain ⟨before, batches, after, hsends, hbefore, hafter, hflat⟩ := n.primaryTimeouts_sends now hp
  have hcarried : (before ++ n.batchesTo batches ++ after).flatMap (fun o => o.msg.carried)
      = (n.retransmitWindow now).filterMap n.bodyBearing := by
    rw [flatMap_append, flatMap_append, flatMap_eq_nil_iff.mpr hbefore,
      flatMap_eq_nil_iff.mpr hafter, ← hflat, nil_append, append_nil, batchesTo,
      flatMap_map]
    exact flatMap_id
  refine ⟨before ++ n.batchesTo batches ++ after, hsends, hcarried, ?_, ?_⟩
  · rw [hcarried, pairwise_filterMap]
    refine (n.retransmitWindow_ascending now).imp ?_
    intro op op' hlt e he e' he'
    rw [bodyBearing_op he, bodyBearing_op he']
    exact hlt
  · intro b later
    refine ⟨fun m => rfl, ?_⟩
    rw [foldl_append, foldl_append, foldl_takePrepares_of_carried_nil b later hbefore,
      foldl_batchesTo, foldl_takePrepares_of_carried_nil _ later hafter, hflat,
      ← filterMap_batchedPrepare]
    rfl

/-- The leader accepts a second request, and no vote arrives. -/
def leaderWaiting : Node Tally :=
  (leaderPrepared.step leaderBoot (.message 0 (.client 4) (.request ⟨4, 1, [8]⟩))).get
    (by decide +kernel)

theorem retransmission_leaderWaiting :
    leaderWaiting.panicked = false ∧
      (leaderWaiting.retransmitWindow 1000).filterMap leaderWaiting.bodyBearing
        = [.ofBytes 1 3 1 [9], .ofBytes 2 4 1 [8]] ∧
      ∃ sent, Sends leaderWaiting (leaderWaiting.primaryTimeouts 1000) sent ∧
        sent.flatMap (fun o => o.msg.carried)
          = (leaderWaiting.retransmitWindow 1000).filterMap leaderWaiting.bodyBearing := by
  obtain ⟨sent, hsends, hcarried, -⟩ := retransmission leaderWaiting 1000 (by decide +kernel)
  exact ⟨by decide +kernel, by decide +kernel, sent, hsends, hcarried⟩

end Node

end Viewstamp
