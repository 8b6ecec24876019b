import Viewstamp.Holding
import Viewstamp.Run

/- What a sender without a vote can do to a replica.

   A message passes two gates, one on who sent it and one on the configuration it
   speaks for. Both have openings: a repaired prepare may come from any member,
   a solicitation from a peer whose slot has shifted, a hint of a newer epoch from
   anyone. Behind the openings the handlers keep the replica's position in the
   protocol (`Stance`): nothing is counted, nothing voted, and the only thing
   written is the fill of a hole that is already open. -/
namespace Viewstamp

/-! ## Votes and claims -/

/-- The messages that count towards a quorum. -/
def Message.isVote : Message → Bool
  | .prepareOk _ | .startViewChange _ | .doViewChange _ => true
  | _ => false

/-- The slot a message says it comes from: its own field, or the primary of its view. -/
def Membership.claimedSlot (m : Membership) : Message → Option ReplicaId
  | .prepare p => some (m.primary p.view)
  | .commit c => some (m.primary c.view)
  | .prepareBatch b => some (m.primary b.view)
  | .prepareOk ok => some ok.replica
  | .startViewChange v => some v.replica
  | .doViewChange v => some v.replica
  | .startView v => some v.replica
  | .getView v => some v.replica
  | .requestPrepare r => some r.replica
  | .requestPrepareRange r => some r.replica
  | .nack x => some x.replica
  | .recovery r => some r.replica
  | .recoveryResponse r => some r.replica
  | .requestSync r => some r.replica
  | .syncCheckpoint c => some c.replica
  | .learnerStatus s => some s.replica
  | .requestLearnerProof r => some r.sender
  | .learnerProof p => some p.replica
  | .requestHealthProof r => some r.sender
  | .healthProof p => some p.replica
  | .request _ | .reply _ | .repairBatch _ | .epochAhead _ | .requestBlock _ | .blockResponse _ =>
    none

def Message.epoch : Message → Option Epoch
  | .prepare m => some m.epoch
  | .commit m => some m.epoch
  | .prepareBatch m => some m.epoch
  | .prepareOk m => some m.epoch
  | .startViewChange m => some m.epoch
  | .doViewChange m => some m.epoch
  | .startView m => some m.epoch
  | .getView m => some m.epoch
  | .recovery m => some m.epoch
  | .recoveryResponse m => some m.epoch
  | .syncCheckpoint m => some m.epoch
  | .learnerStatus m => some m.epoch
  | .epochAhead m => some m.epoch
  | .requestLearnerProof m => some m.epoch
  | .learnerProof m => some m.epoch
  | .requestHealthProof m => some m.epoch
  | .healthProof m => some m.epoch
  | .request _ | .reply _ | .requestPrepare _ | .requestPrepareRange _ | .nack _ | .requestSync _
  | .repairBatch _ | .requestBlock _ | .blockResponse _ => none

def Message.configId : Message → Option Checksum
  | .prepare m => some m.configId
  | .commit m => some m.configId
  | .prepareBatch m => some m.configId
  | .prepareOk m => some m.configId
  | .startViewChange m => some m.configId
  | .doViewChange m => some m.configId
  | .startView m => some m.configId
  | .getView m => some m.configId
  | .requestPrepare m => some m.configId
  | .requestPrepareRange m => some m.configId
  | .nack m => some m.configId
  | .recovery m => some m.configId
  | .recoveryResponse m => some m.configId
  | .requestSync m => some m.configId
  | .syncCheckpoint m => some m.configId
  | .repairBatch m => some m.configId
  | .learnerStatus m => some m.configId
  | .requestLearnerProof m => some m.configId
  | .learnerProof m => some m.configId
  | .requestHealthProof m => some m.configId
  | .healthProof m => some m.configId
  | .request _ | .reply _ | .epochAhead _ | .requestBlock _ | .blockResponse _ => none

/-- The position of a replica in the protocol. -/
structure Stance where
  view : View
  durableView : View
  logView : View
  status : Status
  op : OpNumber
  log : OrdMap Nat LogEntry
  commitMin : OpNumber
  commitMax : OpNumber
  membership : Membership
  inflight : OrdMap Nat Inflight
  svcFrom : Finset ReplicaId
  svcTarget : View
  viewChange : Option ViewChangeCollection
  peerCheckpoint : OrdMap MemberId OpNumber
  peersRecovering : Option (Finset ReplicaId)
  repair : OpSet

namespace Node

variable {S : Type}
variable {op : OpNumber} {claimed : ReplicaId}

def stance (n : Node S) : Stance where
  view := n.view
  durableView := n.durableView
  logView := n.logView
  status := n.status
  op := n.op
  log := n.log
  commitMin := n.commitMin
  commitMax := n.commitMax
  membership := n.membership
  inflight := n.inflight
  svcFrom := n.svcFrom
  svcTarget := n.svcTarget
  viewChange := n.viewChange
  peerCheckpoint := n.peerCheckpoint
  peersRecovering := n.recover.map (·.peersRecovering)
  repair := n.repair

/-- A sender that has no vote in the configuration of `n`, at least not with this message. -/
inductive Voteless (n : Node S) (msg : Message) : Peer → Prop
  | client (c : ClientId) : Voteless n msg (.client c)
  | quarantined (m : MemberId) : Voteless n msg (.member m)
  | nonVoter (r : ReplicaId) (h : n.membership.isVoter r = false) : Voteless n msg (.replica r)
  | impostor (r claimed : ReplicaId) (h : n.membership.claimedSlot msg = some claimed)
      (hne : claimed ≠ r) : Voteless n msg (.replica r)
  | otherEpoch (p : Peer) (e : Epoch) (h : msg.epoch = some e) (hne : e ≠ n.membership.epoch) :
      Voteless n msg p
  | otherConfig (p : Peer) (c : Checksum) (h : msg.configId = some c)
    (hout : n.inLineage c = false) :
      Voteless n msg p

/-- A hint of a newer epoch: a prepare, a commit or an EpochAhead of it. -/
def isEpochHint (n : Node S) (msg : Message) : Bool := (n.newerEpochCheckpoint msg).isSome

/-- The messages that are for anyone to send: requests, and the answers of a state sync. -/
def isOpen : Message → Bool
  | .request _ | .syncCheckpoint _ | .blockResponse _ => true
  | _ => false

/-- The replica keeps its position, votes for nothing, and writes at most the fill of a hole. -/
structure Unswayed (n n' : Node S) : Prop where
  stance : n'.stance = n.stance
  nacks : ∀ op, n'.nackVoters op ⊆ n.nackVoters op
  spoken : ∃ said, n'.emitted = said ++ n.emitted ∧ ∀ e ∈ said, e.msg.isVote = false
  written : ∀ w ∈ n'.storage.walWrites, w ∈ n.storage.walWrites ∨ n.repair.has w.op = true
  deferred : ∀ op d, n'.deferredAppends.get? op = some d →
    n.deferredAppends.get? op = some d ∨ n.repair.has op = true

namespace Unswayed

variable {n n' n'' : Node S}

theorem refl (n : Node S) : Unswayed n n :=
  ⟨rfl, fun _ => subset_rfl, ⟨[], rfl, by simp⟩, fun _ h => .inl h, fun _ _ h => .inl h⟩

theorem repair_eq (h : Unswayed n n') : n'.repair = n.repair := congrArg Stance.repair h.stance

theorem membership_eq (h : Unswayed n n') : n'.membership = n.membership :=
  congrArg Stance.membership h.stance

theorem trans (h : Unswayed n n') (h' : Unswayed n' n'') : Unswayed n n'' := by
  refine ⟨h'.stance.trans h.stance, fun op => (h'.nacks op).trans (h.nacks op), ?_, fun w hw => ?_,
    fun op d hd => ?_⟩
  · obtain ⟨said, hs, hv⟩ := h.spoken
    obtain ⟨said', hs', hv'⟩ := h'.spoken
    refine ⟨said' ++ said, by rw [hs', hs, List.append_assoc], fun e he => ?_⟩
    rcases List.mem_append.mp he with he | he
    · exact hv' e he
    · exact hv e he
  · rcases h'.written w hw with hw | hw
    · exact h.written w hw
    · exact .inr (h.repair_eq ▸ hw)
  · rcases h'.deferred op d hd with hd | hd
    · exact h.deferred op d hd
    · exact .inr (h.repair_eq ▸ hd)

theorem holding (h : Unswayed n n') : n'.holding = n.holding :=
  congrArg (fun s => (⟨s.op, s.log, s.commitMin, s.commitMax, s.membership⟩ : Holding)) h.stance

/-- A step that speaks to nobody and leaves the log's storage alone. -/
theorem of_eq (hs : n'.stance = n.stance) (hn : n'.nackFrom = n.nackFrom)
    (he : n'.emitted = n.emitted) (hw : n'.storage.walWrites = n.storage.walWrites)
    (hd : n'.deferredAppends = n.deferredAppends) : Unswayed n n' :=
  ⟨hs, fun op => by rw [nackVoters, nackVoters, hn], ⟨[], by rw [he]; rfl, by simp⟩,
    fun w h => .inl (hw ▸ h), fun op d h => .inl (hd ▸ h)⟩

end Unswayed

variable (n : Node S) (now : Instant) (sender : Peer) (msg : Message)

theorem panic_unswayed : Unswayed n n.panic := .of_eq rfl rfl rfl rfl rfl

theorem assert_unswayed (c : Bool) : Unswayed n (n.assert c) := by
  unfold assert
  split
  · exact .refl n
  · exact panic_unswayed n

theorem emit_unswayed (recipient : Recipient) {msg : Message} (h : msg.isVote = false) :
    Unswayed n (n.emit recipient msg) := by
  unfold emit
  split
  · exact .refl n
  · exact ⟨rfl, fun _ => subset_rfl, ⟨[_], rfl, by simpa using h⟩, fun _ h => .inl h,
      fun _ _ h => .inl h⟩

theorem withLocalSlot_unswayed {k : ReplicaId → Node S} (h : ∀ slot, Unswayed n (k slot)) :
    Unswayed n (n.withLocalSlot k) := by
  unfold withLocalSlot
  split
  · exact h _
  · exact panic_unswayed n

/-! ## Filling a hole -/

/-- Parking an append of an open hole. -/
theorem park_unswayed (hop : n.repair.has op = true) (d : DeferredAppend) {o : OpNumber}
    {d' : DeferredAppend} (h : (n.deferredAppends.insert op d).get? o = some d') :
    n.deferredAppends.get? o = some d' ∨ n.repair.has o = true := by
  rw [OrdMap.get?_insert] at h
  split at h
  · rename_i heq
    exact .inr (heq ▸ hop)
  · exact .inl h

theorem Storage.submitAppend_walWrites (s : Storage) (id : OpId) (op : OpNumber) (header : Header)
    (body : Bytes) {w : WalWrite} (hw : w ∈ (s.submitAppend id op header body).1.walWrites) :
    w ∈ s.walWrites ∨ w.op = op := by
  unfold Storage.submitAppend at hw
  split at hw
  · exact .inl hw
  · dsimp only at hw
    split at hw
    · exact .inl hw
    · rcases List.mem_append.mp hw with hw | hw
      · exact .inl hw
      · exact .inr (by rw [List.mem_singleton.mp hw])

theorem submitAppendAs_unswayed (hop : n.repair.has op = true) (header : Header) (body : Bytes)
    (kind : Pending) : Unswayed n (n.submitAppendAs op header body kind).1 := by
  have hwrites := fun w => Storage.submitAppend_walWrites n.storage n.nextId op header body (w := w)
  have hwritten : ∀ w ∈ (n.storage.submitAppend n.nextId op header body).1.walWrites,
      w ∈ n.storage.walWrites ∨ n.repair.has w.op = true := by
    intro w hw
    rcases hwrites w hw with h | h
    · exact .inl h
    · exact .inr (h ▸ hop)
  unfold submitAppendAs
  split
  · exact .refl n
  · dsimp only
    generalize n.storage.submitAppend n.nextId op header body = r at hwritten ⊢
    obtain ⟨storage, verdict⟩ := r
    cases verdict with
    | submitted =>
      exact ⟨rfl, fun _ => subset_rfl, ⟨[], rfl, by simp⟩, hwritten, fun _ _ h => .inl h⟩
    | slotFenced | quotaExhausted =>
      exact ⟨rfl, fun _ => subset_rfl, ⟨[], rfl, by simp⟩, hwritten,
        fun _ _ h => park_unswayed n hop _ h⟩

theorem submitOrDeferAppend_unswayed (hop : n.repair.has op = true) (header : Header) (body : Bytes)
    (kind : Pending) : Unswayed n (n.submitOrDeferAppend op header body kind) :=
  submitAppendAs_unswayed n hop header body kind

theorem fillRepair_unswayed (p : Prepare) : Unswayed n (n.fillRepair p).1 := by
  unfold fillRepair
  split
  · exact .refl n
  · rename_i hop
    split
    · exact .refl n
    · simp only []
      split
      · exact .refl n
      · split
        · exact .refl n
        · split
          · exact .refl n
          · have h := submitOrDeferAppend_unswayed n (by simpa using hop)
              (.ofBody p.op p.view p.client p.request p.body) p.body
              (.repairFill p.op (logEntryFromPrepare p))
            generalize n.submitOrDeferAppend p.op _ _ _ = m at h ⊢
            refine h.trans ⟨rfl, fun op => ?_, ⟨[], rfl, by simp⟩, fun _ h => .inl h,
              fun _ _ h => .inl h⟩
            simp only [nackVoters]
            rw [OrdMap.get?_erase]
            split
            · simp
            · exact subset_rfl

theorem onRepairBatch_unswayed (m : RepairBatch) : Unswayed n (n.onRepairBatch m) := by
  unfold onRepairBatch
  generalize m.log.filterMap _ = prepares
  induction prepares generalizing n with
  | nil => exact .refl n
  | cons p ps ih => exact (fillRepair_unswayed n p).trans (ih _)

/-! ## Solicitations

Serving a peer sends it something or starts a read; it never counts the peer. -/

theorem repersistOrphanOwed_unswayed : Unswayed n n.repersistOrphanOwed.1 := by
  unfold repersistOrphanOwed
  split
  · exact .refl n
  · split
    · exact .of_eq rfl rfl rfl rfl rfl
    · exact .refl n

theorem onGetView_unswayed (m : GetView) : Unswayed n (n.onGetView m) := by
  have howed := repersistOrphanOwed_unswayed n
  unfold onGetView
  generalize n.repersistOrphanOwed = r at howed ⊢
  obtain ⟨n', owed⟩ := r
  cases owed with
  | some _ => exact howed
  | none =>
    refine howed.trans ?_
    dsimp only
    split
    · exact withLocalSlot_unswayed _ fun _ => emit_unswayed _ _ rfl
    · exact .refl _

theorem onRecovery_unswayed (m : Recovery) : Unswayed n (n.onRecovery m) := by
  have howed := repersistOrphanOwed_unswayed n
  unfold onRecovery
  generalize n.repersistOrphanOwed = r at howed ⊢
  obtain ⟨n', owed⟩ := r
  split
  · exact .refl n
  · cases owed with
    | some _ => exact howed
    | none =>
      refine howed.trans ?_
      dsimp only
      split
      · exact .refl _
      · exact withLocalSlot_unswayed _ fun _ => emit_unswayed _ _ rfl

theorem onRequestPrepare_unswayed (m : RequestPrepare) :
    Unswayed n (n.onRequestPrepare sender m) := by
  unfold onRequestPrepare
  repeat' split
  all_goals first
    | exact .refl n
    | exact withLocalSlot_unswayed _ fun _ => emit_unswayed _ _ rfl
    | exact emit_unswayed _ _ rfl

theorem onRequestPrepareRange_unswayed (m : RequestPrepareRange) :
    Unswayed n (n.onRequestPrepareRange sender m) := by
  unfold onRequestPrepareRange
  dsimp only
  split
  · exact .refl n
  · split
    · split
      · exact .refl n
      · split
        · exact .refl n
        · exact emit_unswayed _ _ rfl
    · exact .refl n

theorem onRequestSync_unswayed (m : RequestSync) : Unswayed n (n.onRequestSync sender m) := by
  unfold onRequestSync submitOrRefreshServe
  repeat' split
  all_goals first
    | exact .refl n
    | exact .of_eq rfl rfl rfl rfl rfl

theorem onRequestBlock_unswayed (addr : BlockAddress) :
    Unswayed n (n.onRequestBlock sender addr) := by
  have hissue : Unswayed n (n.issueBlockJob (.serve sender addr)) := by
    have hmint : Unswayed n n.mintId := .of_eq rfl rfl rfl rfl rfl
    unfold issueBlockJob
    refine hmint.trans ?_
    refine (assert_unswayed _ (n.laneAdmits (.serve sender addr))).trans ?_
    dsimp only
    split
    · exact .refl _
    · exact .of_eq rfl rfl rfl rfl rfl
  unfold onRequestBlock
  repeat' split
  all_goals first
    | exact .refl n
    | exact hissue

theorem onLearnerStatus_unswayed (m : LearnerStatus) : Unswayed n (n.onLearnerStatus m) := by
  unfold onLearnerStatus
  split
  · exact .refl n
  · exact .of_eq rfl rfl rfl rfl rfl

theorem onRequestLearnerProof_unswayed (m : RequestLearnerProof) :
    Unswayed n (n.onRequestLearnerProof m) := by
  unfold onRequestLearnerProof
  split
  · exact .refl n
  · exact withLocalSlot_unswayed _ fun _ => emit_unswayed _ _ rfl

theorem onLearnerProof_unswayed (m : LearnerProof) : Unswayed n (n.onLearnerProof sender m) := by
  unfold onLearnerProof
  cases n.learnerProof with
  | none => exact .refl n
  | some challenge =>
    cases sender
    all_goals
      dsimp only
      repeat' split
      all_goals first
        | exact .refl n
        | exact .of_eq rfl rfl rfl rfl rfl

theorem onRequestHealthProof_unswayed (m : RequestHealthProof) :
    Unswayed n (n.onRequestHealthProof m) := by
  unfold onRequestHealthProof
  split
  · exact .refl n
  · exact withLocalSlot_unswayed _ fun _ => emit_unswayed _ _ rfl

theorem onHealthProof_unswayed (m : HealthProof) : Unswayed n (n.onHealthProof sender m) := by
  unfold onHealthProof
  repeat' split
  all_goals first
    | exact .refl n
    | exact .of_eq rfl rfl rfl rfl rfl

theorem maybeAnswerLowerEpoch_unswayed : Unswayed n (n.maybeAnswerLowerEpoch sender msg) := by
  unfold maybeAnswerLowerEpoch
  split
  · exact .refl n
  · split
    · exact emit_unswayed _ _ rfl
    · exact .refl n

theorem cancelStaleCrossEpochSync_unswayed : Unswayed n (n.cancelStaleCrossEpochSync msg) := by
  unfold cancelStaleCrossEpochSync
  dsimp only
  repeat' split
  all_goals first
    | exact .refl n
    | exact .of_eq rfl rfl rfl rfl rfl

/-! ## Where a voteless sender is turned away -/

theorem primary_isVoter (m : Membership) (v : View) : m.isVoter (m.primary v) = true := by
  exact decide_eq_true (Nat.mod_lt v m.valid.pos)

theorem onStartView_impostor [StateMachine S] {m : StartView}
    (h : m.replica ≠ n.membership.primary m.view) : n.onStartView now m = n := by
  unfold onStartView
  rw [if_pos h, ite_self]

theorem onRecoveryResponse_nonVoter [StateMachine S] {m : RecoveryResponse}
    (h : n.membership.isVoter m.replica = false) : n.onRecoveryResponse now m = n := by
  have hne : m.replica ≠ n.membership.primary m.view := by
    intro heq
    rw [heq, primary_isVoter] at h
    contradiction
  unfold onRecoveryResponse
  rw [if_pos hne, ite_self, ite_self]

theorem onNack_nonVoter {r : ReplicaId} (m : Nack) (h : n.membership.isVoter r = false) :
    n.onNack (.replica r) m = n := by
  unfold onNack
  dsimp only
  rw [h]
  simp

theorem onPrepare_unswayed [StateMachine S] {p : Prepare}
    (h : n.repair.has p.op = true ∨ p.epoch ≠ n.membership.epoch) :
    Unswayed n (n.onPrepare now p) := by
  have hfill := fillRepair_unswayed n p
  have hm := hfill.membership_eq
  have hr := hfill.repair_eq
  unfold onPrepare
  generalize n.fillRepair p = r at hfill hm hr ⊢
  obtain ⟨n', consumed⟩ := r
  cases consumed with
  | true => exact hfill
  | false =>
    dsimp only at hm hr ⊢
    rw [hm, hr]
    rcases h with h | h
    · rw [if_pos h]
      exact hfill
    · rw [if_pos h, ite_self]
      exact hfill

/-- A voter that speaks for itself in the receiver's configuration is not voteless. -/
theorem Voteless.elim {n : Node S} {msg : Message} {r : ReplicaId}
    (hv : Voteless n msg (.replica r))
    (hvoter : n.membership.isVoter r = true) (hclaim : n.membership.claimedSlot msg = some r)
    (hepoch : ∀ e, msg.epoch = some e → e = n.membership.epoch)
    (hconfig : ∀ c, msg.configId = some c → n.inLineage c = true) : False := by
  cases hv with
  | nonVoter _ h => simp [hvoter] at h
  | impostor _ claimed h hne => exact hne (Option.some.inj (h.symm.trans hclaim))
  | otherEpoch _ e h hne => exact hne (hepoch e h)
  | otherConfig _ c h hout => simp [hconfig c h] at hout

/-- The two gates, for the messages of which only a voter's count. -/
theorem Voteless.turnedAway {n : Node S} {msg : Message} {sender : Peer} {epoch : Epoch}
    {configId : Checksum} (hv : Voteless n msg sender)
    (hclaim : n.membership.claimedSlot msg = some claimed) (hepoch : msg.epoch = some epoch)
    (hconfig : msg.configId = some configId) (hvoter : n.membership.isVoter claimed = true)
    (hs : sender = .replica claimed)
    (ha : (epoch == n.membership.epoch && n.inLineage configId) = true) : False := by
  subst hs
  simp only [Bool.and_eq_true, beq_iff_eq] at ha
  refine hv.elim hvoter hclaim (fun e he => ?_) (fun c hc => ?_)
  · rw [hepoch] at he
    exact (Option.some.inj he).symm.trans ha.1
  · rw [hconfig] at hc
    exact Option.some.inj hc ▸ ha.2

theorem senderIsVoter_iff {n : Node S} {sender : Peer} :
    n.senderIsVoter sender claimed = true ↔
      n.membership.isVoter claimed = true ∧ sender = .replica claimed := by
  simp [senderIsVoter, Membership.isVoter]

theorem senderIsPrimaryOf_iff {n : Node S} {sender : Peer} {view : View} :
    n.senderIsPrimaryOf sender view = true ↔ sender = .replica (n.membership.primary view) := by
  simp [senderIsPrimaryOf]

theorem senderIsMember_eq {n : Node S} {sender : Peer} (h : n.senderIsMember sender claimed = true)
    : sender = .replica claimed := by
  simp only [senderIsMember, Bool.and_eq_true, beq_iff_eq] at h
  exact h.2

/-- A prepare that is heard from a voteless sender fills a hole or speaks of another epoch. -/
theorem Voteless.prepare {n : Node S} {p : Prepare} {sender : Peer}
    (hv : Voteless n (.prepare p) sender) (hs : n.senderMatches sender (.prepare p) = true)
    (ha : n.epochAuthorityAdmits (.prepare p) = true) :
    n.repair.has p.op = true ∨ p.epoch ≠ n.membership.epoch := by
  by_contra hneither
  obtain ⟨hrepair, hepoch⟩ := not_or.mp hneither
  have hprimary : n.senderIsPrimaryOf sender p.view = true := by
    simpa [senderMatches, hrepair] using hs
  refine hv.turnedAway rfl rfl rfl (primary_isVoter _ p.view) (senderIsPrimaryOf_iff.mp hprimary) ?_
  simpa [epochAuthorityAdmits, not_not.mp hepoch] using ha

/-- A member that speaks for itself in the receiver's configuration can only be a learner. -/
theorem Voteless.learner {n : Node S} {msg : Message} {sender : Peer} (hv : Voteless n msg sender)
    (hs : n.senderIsMember sender claimed = true)
    (hclaim : n.membership.claimedSlot msg = some claimed)
    (hepoch : ∀ e, msg.epoch = some e → e = n.membership.epoch)
    (hconfig : ∀ c, msg.configId = some c → n.inLineage c = true) :
    n.membership.isVoter claimed = false := by
  by_contra hvoter
  rw [senderIsMember_eq hs] at hv
  exact hv.elim (by simpa using hvoter) hclaim hepoch hconfig

theorem Voteless.nack {n : Node S} {m : Nack} {sender : Peer} (hv : Voteless n (.nack m) sender)
    (hs : n.senderMatches sender (.nack m) = true)
    (ha : n.epochAuthorityAdmits (.nack m) = true) : n.membership.isVoter m.replica = false :=
  hv.learner hs rfl (fun _ h => nomatch h) fun _ h => Option.some.inj h ▸ ha

theorem Voteless.recovery {n : Node S} {m : Recovery} {sender : Peer}
    (hv : Voteless n (.recovery m) sender) (hs : n.senderMatches sender (.recovery m) = true)
    (ha : n.epochAuthorityAdmits (.recovery m) = true) :
    n.membership.isVoter m.replica = false := by
  simp only [epochAuthorityAdmits, Bool.and_eq_true, beq_iff_eq] at ha
  exact hv.learner hs rfl (fun _ h => Option.some.inj h ▸ ha.1) fun _ h => Option.some.inj h ▸ ha.2

theorem Voteless.recoveryResponse {n : Node S} {m : RecoveryResponse} {sender : Peer}
    (hv : Voteless n (.recoveryResponse m) sender)
    (hs : n.senderMatches sender (.recoveryResponse m) = true)
    (ha : n.epochAuthorityAdmits (.recoveryResponse m) = true) :
    n.membership.isVoter m.replica = false := by
  simp only [epochAuthorityAdmits, Bool.and_eq_true, beq_iff_eq] at ha
  exact hv.learner hs rfl (fun _ h => Option.some.inj h ▸ ha.1) fun _ h => Option.some.inj h ▸ ha.2

theorem Voteless.startView {n : Node S} {m : StartView} {sender : Peer}
    (hv : Voteless n (.startView m) sender) (hs : n.senderMatches sender (.startView m) = true)
    (ha : n.epochAuthorityAdmits (.startView m) = true) :
    m.replica ≠ n.membership.primary m.view := by
  intro heq
  have hsender := senderIsPrimaryOf_iff.mp hs
  rw [← heq] at hsender
  exact hv.turnedAway rfl rfl rfl (heq ▸ primary_isVoter _ m.view) hsender ha

/-! ## Hints of a newer epoch

A hint may start a state sync, from any status; what the replica holds stays. -/

theorem escalateCheckpointToPeerFetch_holding (target : OpNumber) (requireCrossEpoch : Bool) :
    (n.escalateCheckpointToPeerFetch now target requireCrossEpoch).holding = n.holding := by
  unfold escalateCheckpointToPeerFetch
  dsimp only
  refine Eq.trans ?_ (assert_holding n (n.recover.all (·.checkpointReads.isEmpty)))
  split
  · exact armSync_holding _ now target true requireCrossEpoch
  · exact sendRequestSync_holding _ now

theorem enterCrossEpochPeerFetch_holding (checkpoint : OpNumber) :
    (n.enterCrossEpochPeerFetch now checkpoint).holding = n.holding := by
  unfold enterCrossEpochPeerFetch
  repeat' split
  all_goals try rfl
  dsimp only
  rw [escalateCheckpointToPeerFetch_holding]
  refine holding_eq ((setStatus_still _ .recovering).trans ?_)
  exact (abandonPendingSb_still _).trans (resetForViewTransition_still n now)

theorem armQuarantineProbe_holding : (n.armQuarantineProbe now).holding = n.holding := by
  unfold armQuarantineProbe
  split <;> rfl

theorem maybeRequestCrossEpochCatchup_holding :
    (n.maybeRequestCrossEpochCatchup now sender msg).holding = n.holding := by
  unfold maybeRequestCrossEpochCatchup
  split
  · rename_i checkpoint quarantined _ _
    dsimp only
    generalize hd : (if quarantined = true then _ else _ : Node S) = m
    have hm : m.holding = n.holding := by
      subst hd
      split
      · exact armQuarantineProbe_holding _ now
      · rfl
    split
    · exact (enterCrossEpochPeerFetch_holding _ now checkpoint).trans hm
    · split
      · rw [sendRequestSync_holding]
        split <;> exact hm
      · exact (armSync_holding _ now checkpoint true true).trans hm
  · rfl

theorem isEpochHint_iff {n : Node S} {msg : Message} : n.isEpochHint msg = true ↔
    (∃ p, msg = .prepare p ∧ n.membership.epoch < p.epoch) ∨
    (∃ c, msg = .commit c ∧ n.membership.epoch < c.epoch) ∨
    (∃ a, msg = .epochAhead a ∧ n.membership.epoch < a.epoch) := by
  cases msg <;> simp [isEpochHint, Core.newerEpochCheckpoint]

/-! ## Dispatch -/

theorem onRecoveringMessage_unswayed {msg : Message} (hopen : isOpen msg = false) :
    Unswayed n (n.onRecoveringMessage now sender msg) := by
  unfold onRecoveringMessage
  split
  · exact .refl n
  · split
    · exact nomatch hopen
    · exact nomatch hopen
    · exact .refl n

theorem Voteless.congr {n n' : Node S} {msg : Message} {sender : Peer} (hv : Voteless n msg sender)
    (hm : n'.membership = n.membership) (hl : n'.lineage = n.lineage) : Voteless n' msg sender := by
  cases hv with
  | client c => exact .client c
  | quarantined m => exact .quarantined m
  | nonVoter r h => exact .nonVoter r (hm ▸ h)
  | impostor r claimed h hne => exact .impostor r claimed (hm ▸ h) hne
  | otherEpoch _ e h hne => exact .otherEpoch _ e h (hm ▸ hne)
  | otherConfig _ c h hout =>
    refine .otherConfig _ c h ?_
    rwa [inLineage, hm, hl]

theorem senderMatches_congr {n n' : Node S} {sender : Peer} {msg : Message}
    (hm : n'.membership = n.membership) (hr : n'.repair = n.repair) (hopen : isOpen msg = false) :
    n'.senderMatches sender msg = n.senderMatches sender msg := by
  cases msg with
  | syncCheckpoint _ => exact nomatch hopen
  | _ =>
    simp only [senderMatches, senderIsVoter, senderIsMember, senderAdmitsSolicitation,
      foreignConfigPeer, senderIsPrimaryOf, senderIsAnyMember, hm, hr]

theorem epochAuthorityAdmits_congr {n n' : Node S} {msg : Message}
    (hm : n'.membership = n.membership) (hl : n'.lineage = n.lineage) (hopen : isOpen msg = false) :
    n'.epochAuthorityAdmits msg = n.epochAuthorityAdmits msg := by
  cases msg with
  | syncCheckpoint _ => exact nomatch hopen
  | _ => simp only [epochAuthorityAdmits, inLineage, hm, hl]

theorem maybeAnswerLowerEpoch_membership :
    (n.maybeAnswerLowerEpoch sender msg).membership = n.membership :=
  (maybeAnswerLowerEpoch_unswayed n sender msg).membership_eq

theorem maybeAnswerLowerEpoch_lineage :
    (n.maybeAnswerLowerEpoch sender msg).lineage = n.lineage := by
  unfold maybeAnswerLowerEpoch emit
  repeat' split
  all_goals rfl

theorem cancelStaleCrossEpochSync_lineage :
    (n.cancelStaleCrossEpochSync msg).lineage = n.lineage := by
  unfold cancelStaleCrossEpochSync
  dsimp only
  repeat' split
  all_goals rfl

/-- A message that is no hint of a newer epoch starts no crossing. -/
theorem maybeRequestCrossEpochCatchup_of_not_hint {msg : Message} (h : n.isEpochHint msg = false) :
    n.maybeRequestCrossEpochCatchup now sender msg = n := by
  have hnone : n.newerEpochCheckpoint msg = none := by simpa [isEpochHint] using h
  unfold maybeRequestCrossEpochCatchup
  rw [hnone]

section Dispatch

variable [StateMachine S]

theorem onActiveMessage_unswayed {sender : Peer} {msg : Message} (hv : Voteless n msg sender)
    (hopen : isOpen msg = false) (hs : n.senderMatches sender msg = true)
    (ha : n.epochAuthorityAdmits msg = true) : Unswayed n (n.onActiveMessage now sender msg) := by
  cases msg with
  | request _ | syncCheckpoint _ | blockResponse _ => exact nomatch hopen
  | reply _ | epochAhead _ => exact .refl n
  | prepare p => exact onPrepare_unswayed n now (hv.prepare hs ha)
  | prepareBatch m | commit m =>
    exact (hv.turnedAway rfl rfl rfl (primary_isVoter _ m.view)
      (senderIsPrimaryOf_iff.mp hs) ha).elim
  | prepareOk m | startViewChange m | doViewChange m =>
    obtain ⟨hvoter, hsender⟩ := senderIsVoter_iff.mp hs
    exact (hv.turnedAway rfl rfl rfl hvoter hsender ha).elim
  | startView m =>
    rw [onActiveMessage, onStartView_impostor n now (hv.startView hs ha)]
    exact .refl n
  | getView m => exact onGetView_unswayed n m
  | requestPrepare m => exact onRequestPrepare_unswayed n sender m
  | requestPrepareRange m => exact onRequestPrepareRange_unswayed n sender m
  | recovery m => exact onRecovery_unswayed n m
  | recoveryResponse m =>
    rw [onActiveMessage, onRecoveryResponse_nonVoter n now (hv.recoveryResponse hs ha)]
    exact .refl n
  | requestSync m => exact onRequestSync_unswayed n sender m
  | repairBatch m => exact onRepairBatch_unswayed n m
  | learnerStatus m => exact onLearnerStatus_unswayed n m
  | requestLearnerProof m => exact onRequestLearnerProof_unswayed n m
  | learnerProof m => exact onLearnerProof_unswayed n sender m
  | requestHealthProof m => exact onRequestHealthProof_unswayed n m
  | healthProof m => exact onHealthProof_unswayed n sender m
  | requestBlock addr => exact onRequestBlock_unswayed n sender addr
  | nack m =>
    rw [onActiveMessage, senderIsMember_eq hs, onNack_nonVoter n m (hv.nack hs ha)]
    exact .refl n

theorem onRecoveringHeadMessage_unswayed {sender : Peer} {msg : Message}
    (hv : Voteless n msg sender) (hs : n.senderMatches sender msg = true)
    (ha : n.epochAuthorityAdmits msg = true) : Unswayed n (n.onRecoveringHeadMessage now msg) := by
  unfold onRecoveringHeadMessage
  split
  · rw [onStartView_impostor n now (hv.startView hs ha)]
    exact .refl n
  · rw [onRecoveryResponse_nonVoter n now (hv.recoveryResponse hs ha)]
    exact .refl n
  · rw [hv.recovery hs ha]
    exact .refl n
  · exact .refl n

theorem handleMessage_unswayed {sender : Peer} {msg : Message} (hv : Voteless n msg sender)
    (hopen : isOpen msg = false) (hhint : n.isEpochHint msg = false) :
    Unswayed n (n.handleMessage now sender msg) := by
  have hanswer := maybeAnswerLowerEpoch_unswayed n sender msg
  have hv := hv.congr (maybeAnswerLowerEpoch_membership n sender msg)
    (maybeAnswerLowerEpoch_lineage n sender msg)
  unfold handleMessage
  rw [maybeRequestCrossEpochCatchup_of_not_hint n now sender hhint]
  generalize n.maybeAnswerLowerEpoch sender msg = heard at hanswer hv ⊢
  split
  · exact .refl n
  · dsimp only
    split
    · exact hanswer
    · split
      · exact hanswer
      · rename_i hs ha
        have hcancel := cancelStaleCrossEpochSync_unswayed heard msg
        have hm := hcancel.membership_eq
        have hl := cancelStaleCrossEpochSync_lineage heard msg
        have hv := hv.congr hm hl
        rw [← senderMatches_congr hm hcancel.repair_eq hopen, Bool.not_eq_true',
          Bool.not_eq_false] at hs
        rw [← epochAuthorityAdmits_congr hm hl hopen, Bool.not_eq_true', Bool.not_eq_false] at ha
        generalize heard.cancelStaleCrossEpochSync msg = m at hcancel hv hs ha ⊢
        refine hanswer.trans (hcancel.trans ?_)
        unfold dispatch
        split
        · exact onRecoveringMessage_unswayed m now sender hopen
        · exact onRecoveringHeadMessage_unswayed m now hv hs ha
        · exact onActiveMessage_unswayed m now hv hopen hs ha

theorem handleMessage_hint_holding {msg : Message} (hhint : n.isEpochHint msg = true) :
    (n.handleMessage now sender msg).holding = n.holding := by
  have hcatchup := maybeRequestCrossEpochCatchup_holding n now sender msg
  have hanswer := (maybeAnswerLowerEpoch_unswayed
    (n.maybeRequestCrossEpochCatchup now sender msg) sender msg).holding
  unfold handleMessage
  dsimp only
  generalize (n.maybeRequestCrossEpochCatchup now sender msg).maybeAnswerLowerEpoch sender msg =
    heard
    at hanswer ⊢
  have hheard : heard.holding = n.holding := hanswer.trans hcatchup
  have hm : heard.membership = n.membership := congrArg Holding.membership hheard
  have hcancel := cancelStaleCrossEpochSync_unswayed heard msg
  split
  · rfl
  · split
    · exact hheard
    · split
      · exact hheard
      · rename_i hs ha
        rcases isEpochHint_iff.mp hhint with ⟨p, rfl, hp⟩ | ⟨c, rfl, hc⟩ | ⟨a, rfl, -⟩
        · generalize heard.cancelStaleCrossEpochSync (.prepare p) = m at hcancel ⊢
          have hne : p.epoch ≠ m.membership.epoch := by
            rw [hcancel.membership_eq, hm]
            exact hp.ne'
          refine Eq.trans ?_ (hcancel.holding.trans hheard)
          unfold dispatch
          split
          · exact (onRecoveringMessage_unswayed m now sender rfl).holding
          · rfl
          · exact (onPrepare_unswayed m now (.inr hne)).holding
        · simp [epochAuthorityAdmits, hm, hc.ne'] at ha
        · simp [senderMatches] at hs

/-- A sender without a vote sways no replica, and no hint of a newer epoch touches what it holds. -/
theorem handleMessage_voteless :
    (Voteless n msg sender → isOpen msg = false → n.isEpochHint msg = false →
      Unswayed n (n.handleMessage now sender msg)) ∧
    (n.isEpochHint msg = true → (n.handleMessage now sender msg).holding = n.holding) :=
  ⟨handleMessage_unswayed n now, handleMessage_hint_holding n now sender⟩

end Dispatch

/-- The acknowledgement of the op that a leader waits for. -/
def firstAck (r : ReplicaId) : Message :=
  .prepareOk ⟨0, 1, r, 0, (LogEntry.mk 3 1 (.present [9])).identity, 0, trioMembership.configId⟩

/-- The op waits for votes. That of a voter counts, that of the learner does not sway the leader,
and neither does a client that tells of an epoch to come. -/
theorem handleMessage_voteless_trio :
    (leaderPrepared.handleMessage 3 (.replica 1) (firstAck 1)).inflight ≠ leaderPrepared.inflight ∧
    Unswayed leaderPrepared (leaderPrepared.handleMessage 3 (.replica 3) (firstAck 3)) ∧
    (leaderPrepared.handleMessage 3 (.client 5) (.epochAhead ⟨1, 0⟩)).holding
      = leaderPrepared.holding := by
  refine ⟨?_, (handleMessage_voteless _ 3 _ _).1 (.nonVoter 3 ?_) rfl rfl,
    (handleMessage_voteless _ 3 _ _).2 ?_⟩
  all_goals decide +kernel

end Node

end Viewstamp
