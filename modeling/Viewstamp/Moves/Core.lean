import Viewstamp.Moves.Act

/- One lemma per function of the endpoint up to the view change: what it does is a
   sequence of moves. Most functions only touch what the moves leave out, mint an id
   or can at most fail. The licences are carried where they matter: the commit path
   makes no log entry appear, whatever the licence. -/
namespace Viewstamp

namespace Node.Acts

variable {S : Type} [StateMachine S] {K : Licence}
variable (n : Node S) (now : Instant) (op : OpNumber)

/-! ## Common ground -/

theorem setStatus (s : Status) (hs : s ≠ .retired) : Acts K n (n.setStatus s) := by
  unfold Node.setStatus
  refine guard fun _ => ?_
  exact (single (.status s hs rfl) rfl : Acts K n { n with status := s }).trans (event _ rfl)

theorem recordPeerCheckpoint (hr : K.report) (n : Node S) (r : ReplicaId) (op : OpNumber) :
    Acts K n (n.recordPeerCheckpoint r op) := by
  unfold Node.recordPeerCheckpoint
  split
  · exact refl n
  · refine recount (.quiet rfl) rfl ⟨.inl hr, le_rfl, .inr rfl⟩ rfl fun h who => ?_
    have hwho := h who
    simp only [recomputeQuorumCheckpoint, OrdMap.get?_insert, greatest]
    split
    · rename_i heq
      rw [if_pos heq.symm, ← hwho, heq]
      rfl
    · rename_i hne
      rw [if_neg (Ne.symm hne), hwho]

theorem hear (hr : K.report) (n : Node S) : ∀ r, Acts K n (n.hear r)
  | none => refl n
  | some (slot, op) => recordPeerCheckpoint hr n slot op

theorem of_unheard {n n' : Node S} {msg : Message} (h : n.hears msg = none) (ha : Acts K n n') :
    Acts K (n.hear (n.hears msg)) n' := by
  rw [h]
  exact ha

theorem of_heard {n n' : Node S} {msg : Message} {slot : ReplicaId} {op : OpNumber}
    (h : n.hears msg = some (slot, op)) (ha : Acts K (n.recordPeerCheckpoint slot op) n') :
    Acts K (n.hear (n.hears msg)) n' := by
  rw [h]
  exact ha

theorem advanceCheckpointOp : Acts K n (n.advanceCheckpointOp op) := by
  have hraise (m : Node S) (hm : m.panicked = false → m.checkpointOp ≤ op) : Acts K m ({ m with
      checkpointOp := op
      inheritedFrontier := m.inheritedFrontier.filter fun owed => decide (op < owed)
      repersistOrphan := m.repersistOrphan.filter fun owed => decide (op < owed)
      }.raiseLogFloor op).recomputeQuorumCheckpoint :=
    recount (.checkpoint op hm rfl) rfl ⟨.inr (.inl ⟨rfl, rfl⟩), le_rfl, .inr rfl⟩ rfl id
  unfold Node.advanceCheckpointOp
  refine (assert n _).trans (hraise _ fun hp => ?_)
  by_cases hle : n.checkpointOp ≤ op
  · simp [Node.assert, hle]
  · simp [Node.assert, hle, Node.panic] at hp

theorem setCommitMin : Acts K n (n.setCommitMin op) := by
  unfold Node.setCommitMin
  exact (assert n _).trans (of_eq rfl)

theorem assertCommittedSurvives (op floor : OpNumber) :
    Acts K n (n.assertCommittedSurvives op floor) := assert n _

theorem armTimers : Acts K n (n.armTimers now) := of_eq rfl

theorem armPrimaryIdle : Acts K n (n.armPrimaryIdle now) := by
  unfold Node.armPrimaryIdle
  exact provided fun _ => of_eq rfl

theorem armQuarantineProbe : Acts K n (n.armQuarantineProbe now) := by
  unfold Node.armQuarantineProbe
  exact provided fun _ => of_eq rfl

theorem issueBlockJob (kind : BlockJobKind) : Acts K n (n.issueBlockJob kind) := by
  unfold Node.issueBlockJob
  dsimp only
  refine ((of_mint rfl : Acts K n n.mintId).trans (assert _ (n.laneAdmits kind))).trans ?_
  exact guard fun _ => of_eq rfl

/-! ## Storage -/

theorem releaseFreed (freed : Option OpNumber) : Acts K n (n.releaseFreed freed) := by
  cases freed with
  | none => exact refl n
  | some op => exact release n op

theorem submitRoot (role : RootRole) (state : Except VsrStateError VsrState) :
    Acts K n (n.submitRoot role state) := by
  unfold Node.submitRoot
  split
  · exact panic n
  · rename_i st
    refine (assert n (n.storage.rootAdmissible st)).trans ?_
    dsimp only
    generalize n.assert (n.storage.rootAdmissible st) = m
    exact guard fun _ => root m role st

theorem submitDurableView (action : PendingSbAction) : Acts K n (n.submitDurableView action) := by
  unfold Node.submitDurableView
  exact (submitRoot n _ _).trans (of_eq rfl)

theorem submitSwapEpoch (successor : Membership) : Acts K n (n.submitSwapEpoch op successor) := by
  unfold Node.submitSwapEpoch
  exact (submitRoot n _ _).trans (of_eq rfl)

/-! ## Configurations -/

theorem maybeSwapEpoch : Acts K n n.maybeSwapEpoch := by
  unfold Node.maybeSwapEpoch
  split
  · exact refl n
  · split
    · exact of_eq rfl
    · exact guard fun _ => guard fun _ => submitSwapEpoch n _ _

theorem stageEpochSwap (successor : Membership) : Acts K n (n.stageEpochSwap op successor) := by
  unfold Node.stageEpochSwap
  refine guard fun _ => ?_
  exact (of_eq rfl : Acts K n { n with
    reconfigureInflight := none, pendingSwap := some ⟨op, successor⟩ }).trans (maybeSwapEpoch _)

/-- Everything owed is forgotten and the status set in one move. -/
theorem retireFromMembership (hr : K.retire) (n : Node S) : Acts K n n.retireFromMembership := by
  refine single (.retire hr ?_) ?_
  · unfold Node.retireFromMembership Node.setStatus
    split
    · rename_i hs
      have hs : n.status = .retired := hs
      unfold face
      simp only [hs]
      rfl
    · unfold Node.event face ledger
      rfl
  · unfold Node.retireFromMembership Node.setStatus
    split <;> rfl

theorem retirePrimaryCadence : Acts K n n.retirePrimaryCadence := of_eq rfl

theorem retireBackupCadence : Acts K n n.retireBackupCadence := of_eq rfl

theorem swapMembershipInPlace (hr : K.retire) (n : Node S) (now : Instant)
    (successor : Membership) : Acts K n (n.swapMembershipInPlace now successor) := by
  unfold Node.swapMembershipInPlace
  extract_lets wasPrimary n1 n2 n3 n4 n5
  have h3 : Acts K n n3 := recount (.quiet rfl) rfl ⟨.inr (.inl ⟨rfl, rfl⟩), le_rfl, .inl hr⟩ rfl id
  have h4 : Acts K n3 n4 := by
    unfold n4
    exact provided fun _ => retirePrimaryCadence n3
  have h5 : Acts K n3 n5 := h4.trans (retireBackupCadence n4)
  refine h3.trans ?_
  split
  · split
    · exact h5.trans (retireFromMembership hr n5)
    · exact h5
  · exact provided fun _ => of_eq rfl

theorem installMembership (hr : K.retire) (n : Node S) (now : Instant)
    (op : Option OpNumber) (successor : Membership) :
    Acts K n (n.installMembership now op successor) := by
  unfold Node.installMembership
  refine guard fun _ => guard fun _ => ?_
  have hprev : ∀ (m : Node S) (e : Epoch), Acts K m { m with prevEpoch := e } :=
    fun _ _ => of_eq rfl
  have hpush : ∀ (m : Node S) (c : Checksum), Acts K m (m.pushLineage c) := fun _ _ => of_eq rfl
  have hinstall : ∀ (m : Node S) (op : OpNumber), Acts K m { m with configInstallOp := op } :=
    fun _ _ => of_eq rfl
  extract_lets n1 prior n2 n3
  have h1 : Acts K n n1 := assert n _
  have h2 : Acts K n1 n2 := (hprev n1 _).trans (swapMembershipInPlace hr _ now successor)
  have h3 : Acts K n n3 := (h1.trans h2).trans (hpush n2 prior)
  split
  · exact h3
  · exact (h3.trans (hinstall n3 _)).trans (event _ rfl)

theorem adoptLandedConfiguration (hr : K.retire) (n : Node S) (now : Instant)
    (state : VsrState) : Acts K n (n.adoptLandedConfiguration now state) := by
  unfold Node.adoptLandedConfiguration
  split
  · exact refl n
  · split
    · exact refl n
    · rename_i successor _ _
      extract_lets completedSwap n1 n2
      have h2 : Acts K n n2 := (swapMembershipInPlace hr n now successor).trans (of_eq rfl)
      cases completedSwap with
      | none => exact h2.trans (event n2 rfl)
      | some swap =>
        exact h2.trans ((of_eq rfl : Acts K n2 { n2 with pendingSwap := none }).trans (event _ rfl))

/-! ## Asking the peers -/

theorem issueWalk (purpose : WalkPurpose) (fetched : Option (BlockAddress × Bytes)) :
    Acts K n (n.issueWalk purpose fetched) := by
  unfold Node.issueWalk
  split
  · exact refl n
  · exact guard fun _ => of_mint rfl

theorem dropTransferBelowForcedTarget : Acts K n n.dropTransferBelowForcedTarget := by
  unfold Node.dropTransferBelowForcedTarget
  split
  · exact refl n
  · exact guard fun _ => provided fun _ => of_eq rfl

theorem sendRequestSync : Acts K n (n.sendRequestSync now) := by
  unfold Node.sendRequestSync
  extract_lets nonce recovery advertised
  refine withLocalSlot fun slot => ?_
  extract_lets request n1 n2
  have h1 : Acts K n n1 := emit n _ _ rfl
  have h2 : Acts K n1 n2 := by
    unfold n2
    split
    · exact emit n1 _ _ rfl
    · exact refl n1
  exact (h1.trans h2).trans (of_eq rfl)

theorem armSync (target : OpNumber) (forced cross : Bool) :
    Acts K n (n.armSync now target forced cross) := by
  unfold Node.armSync
  extract_lets nonce n1
  have h1 : Acts K n n1 := of_eq rfl
  exact (h1.trans (event n1 rfl)).trans (sendRequestSync _ now)

theorem downgradeStaleCrossEpochSync (target : OpNumber) :
    Acts K n (n.downgradeStaleCrossEpochSync target).1 := by
  unfold Node.downgradeStaleCrossEpochSync
  split
  · exact refl n
  · split
    · exact refl n
    · extract_lets n1
      have h1 : Acts K n n1 := of_eq rfl
      have h2 : Acts K n n1.dropTransferBelowForcedTarget :=
        h1.trans (dropTransferBelowForcedTarget n1)
      exact h2.trans (of_eq rfl)

theorem raiseOrArmForcedSync (target : OpNumber) :
    Acts K n (n.raiseOrArmForcedSync now target) := by
  unfold Node.raiseOrArmForcedSync
  have h := downgradeStaleCrossEpochSync (K := K) n target
  generalize n.downgradeStaleCrossEpochSync target = r at h
  obtain ⟨m, downgraded⟩ := r
  dsimp only at h ⊢
  split
  · exact h
  · split
    · rename_i s _
      split
      · refine Acts.trans ?_ (dropTransferBelowForcedTarget _)
        exact h.trans (of_eq rfl)
      · exact h
    · exact h.trans (armSync m now target true false)

theorem maybeRequestSync : Acts K n (n.maybeRequestSync now op) := by
  unfold Node.maybeRequestSync
  refine guard fun _ => guard fun _ => ?_
  split
  · exact armSync n now op false false
  · have h := downgradeStaleCrossEpochSync (K := K) n op
    generalize n.downgradeStaleCrossEpochSync op = r at h
    obtain ⟨m, downgraded⟩ := r
    dsimp only at h ⊢
    split
    · exact h
    · split
      · split
        · refine Acts.trans ?_ (dropTransferBelowForcedTarget _)
          exact h.trans (of_eq rfl)
        · exact h
      · exact h

theorem maybeSyncBelowRingWindow (pop checkpoint : OpNumber) :
    Acts K n (n.maybeSyncBelowRingWindow now pop checkpoint).1 := by
  unfold Node.maybeSyncBelowRingWindow
  split
  · exact refl n
  · split
    · exact raiseOrArmForcedSync n now checkpoint
    · exact refl n

theorem maybeForceSync : Acts K n (n.maybeForceSync now) := by
  unfold Node.maybeForceSync
  refine guard fun _ => ?_
  dsimp only
  refine guard fun _ => guard fun _ => ?_
  split
  · exact of_eq rfl
  · refine Acts.trans ?_ (raiseOrArmForcedSync _ now _)
    split <;> exact of_eq rfl

theorem cancelForcedSyncIfSatisfied : Acts K n n.cancelForcedSyncIfSatisfied := by
  unfold Node.cancelForcedSyncIfSatisfied
  exact guard fun _ => provided fun _ => of_eq rfl

theorem sendRequestPrepare : Acts K n (n.sendRequestPrepare op) :=
  withLocalSlot fun _ => emit n _ _ rfl

theorem sendRequestPrepareRange (lo hi : OpNumber) :
    Acts K n (n.sendRequestPrepareRange lo hi) := withLocalSlot fun _ => emit n _ _ rfl

theorem openHole : Acts K n (n.openHole op) := by
  unfold Node.openHole
  extract_lets n1
  have h1 : Acts K n n1 := by
    unfold n1
    exact guard fun _ => eraseLog n op
  refine Acts.trans ?_ (assertCommittedSurvives _ op _)
  exact h1.trans (of_eq rfl)

theorem armRepairRetry : Acts K n (n.armRepairRetry now) := of_eq rfl

theorem requestRepair : Acts K n (n.requestRepair now op) := by
  unfold Node.requestRepair
  have h : Acts K n ((n.openHole op).sendRequestPrepare op) :=
    (openHole n op).trans (sendRequestPrepare _ op)
  exact (h.trans (armRepairRetry _ now)).trans (maybeForceSync _ now)

theorem requestRepairRun (lo : OpNumber) : Acts K n (n.requestRepairRun now lo) := by
  unfold Node.requestRepairRun
  extract_lets ceiling hi n1 n2
  have h1 : Acts K n n1 := foldl openHole _ n
  have h2 : Acts K n n2 := (h1.trans (event n1 rfl)).trans (sendRequestPrepareRange _ lo hi)
  exact (h2.trans (armRepairRetry n2 now)).trans (maybeForceSync _ now)

theorem requestHoleRuns : ∀ (ops : List OpNumber) (lo hi : OpNumber) (n : Node S),
    Acts K n (Node.requestHoleRuns lo hi ops n)
  | [], lo, hi, n => sendRequestPrepareRange n lo hi
  | op :: ops, lo, hi, n => by
    unfold Node.requestHoleRuns
    split
    · exact requestHoleRuns ops lo op n
    · exact (sendRequestPrepareRange n lo hi).trans (requestHoleRuns ops op op _)

theorem repairTimeouts : Acts K n (n.repairTimeouts now) := by
  unfold Node.repairTimeouts
  refine guard fun _ => ?_
  split
  · exact of_eq rfl
  · extract_lets holes commitMax n1 n2
    have h1 : Acts K n n1 := foldl sendRequestPrepare _ n
    have h2 : Acts K n n2 := by
      unfold n2
      split
      · exact h1
      · exact h1.trans (requestHoleRuns _ _ _ n1)
    exact h2.trans (armRepairRetry n2 now)

theorem submitOrRefreshServe (requester : Peer) (nonce : Nat) :
    Acts K n (n.submitOrRefreshServe requester nonce) := by
  unfold Node.submitOrRefreshServe
  repeat' split
  all_goals first | exact refl n | exact of_eq rfl | exact of_mint rfl

theorem onRequestSync (sender : Peer) (m : RequestSync) : Acts K n (n.onRequestSync sender m) := by
  unfold Node.onRequestSync
  repeat' split
  all_goals first | exact refl n | exact submitOrRefreshServe n _ _

theorem serveSyncCheckpoint (id : OpId) (op : OpNumber) (snapshot : Bytes) :
    Acts K n (n.serveSyncCheckpoint id op snapshot) := by
  unfold Node.serveSyncCheckpoint
  split
  · exact refl n
  · rename_i requester serve _
    extract_lets n1 cid body
    have h1 : Acts K n n1 := of_eq rfl
    refine h1.trans ?_
    repeat' split
    all_goals first | exact refl n1 | exact withLocalSlot fun _ => emit n1 _ _ rfl

theorem onRequestBlock (sender : Peer) (addr : BlockAddress) :
    Acts K n (n.onRequestBlock sender addr) := by
  unfold Node.onRequestBlock
  repeat' split
  all_goals first | exact refl n | exact issueBlockJob n _

/-! ## Committing -/

theorem recordOwnVote : Acts K n (n.recordOwnVote op) := by
  unfold Node.recordOwnVote
  refine guard fun _ => ?_
  refine withLocalSlot fun slot => ?_
  split
  · exact refl n
  · exact of_eq rfl

theorem sendPrepareOk : Acts K n (n.sendPrepareOk op) := by
  unfold Node.sendPrepareOk
  exact guard fun _ => withLocalSlot fun _ => emit n _ _ rfl

theorem abandonRoot (role : RootRole) (id : OpId) : Acts K n (n.abandonRoot role id) := by
  unfold Node.abandonRoot
  refine guard fun _ => ?_
  have hs := Storage.sameWrites_abandonRoot n.storage role id
  exact forget (.quiet <| face_storage n hs) hs.landed
    (.of_floors rfl) (·.of_floors rfl) (Storage.roots_abandonRoot _ _ _) hs.checkpoints
    (fun _ ha => ha) rfl

theorem dropUnrootedCheckpoint : Acts K n n.dropUnrootedCheckpoint := by
  unfold Node.dropUnrootedCheckpoint
  split
  · exact unawait rfl rfl
  · rename_i id _ _
    have h : Acts K n (n.abandonRoot .checkpoint id) := abandonRoot n _ _
    exact h.trans (unawait rfl rfl)
  · exact unawait rfl rfl
  · exact refl n

theorem resetForViewTransition : Acts K n (n.resetForViewTransition now) := by
  unfold Node.resetForViewTransition
  extract_lets n1 n2 n3 n4 timers n5
  have h0 : Acts K n { n with pending := .empty, deferredAppends := .empty } :=
    single (.clear rfl) rfl
  have hforgets : Steady K { n with pending := .empty, deferredAppends := .empty } n1 :=
    ⟨.inr (.inr ⟨rfl, Nat.lt_succ_self _⟩), Nat.le_succ _, .inr rfl⟩
  have h1 : Acts K n n1 := h0.trans (recount (.quiet rfl) rfl hforgets rfl fun _ _ => rfl)
  have h2 : Acts K n n2 := h1.trans (touch n1 (SessionTable.Retouched.filter n1.clients))
  have h4 : Acts K n n4 := (h2.trans (dropUnrootedCheckpoint n2)).trans (of_eq rfl)
  have h5 : Acts K n4 n5 := by
    unfold n5
    repeat' split
    all_goals first | exact refl n4 | exact of_eq rfl
  exact (h4.trans h5).trans (of_eq rfl)

theorem abandonPendingSb : Acts K n n.abandonPendingSb := by
  unfold Node.abandonPendingSb
  split
  · refine Acts.trans ?_ (abandonRoot _ .durableView _)
    exact of_eq rfl
  · exact refl n

theorem submitTrackedCheckpointRead : Acts K n n.submitTrackedCheckpointRead := by
  unfold Node.submitTrackedCheckpointRead
  exact guard fun _ => of_mint rfl

theorem submitRecoverCheckpointRead : Acts K n (n.submitRecoverCheckpointRead now) :=
  (submitTrackedCheckpointRead n).trans (of_eq rfl)

theorem setRecover (r : Option RecoverState) : Acts K n { n with recover := r } :=
  of_eq rfl

theorem enterOrphanRepersistRecovery : Acts K n (n.enterOrphanRepersistRecovery now) := by
  unfold Node.enterOrphanRepersistRecovery
  extract_lets n1 n2 n3
  have h2 : Acts K n n2 := by
    refine Acts.trans ?_ (abandonPendingSb _)
    exact (resetForViewTransition n now).trans (of_eq rfl)
  have h3 : Acts K n n3 := by
    refine Acts.trans ?_ (setStatus _ .recovering nofun)
    exact h2.trans (of_eq rfl)
  refine Acts.trans ?_ (submitRecoverCheckpointRead _ now)
  exact h3.trans (setRecover n3 _)

theorem repersistOrphanOwed : Acts K n n.repersistOrphanOwed.1 := by
  unfold Node.repersistOrphanOwed
  split
  · exact refl n
  · split
    · exact of_eq rfl
    · exact refl n

theorem retargetRecoveryFetch (target : OpNumber) :
    Acts K n (n.retargetRecoveryFetch now target) := by
  unfold Node.retargetRecoveryFetch
  refine guard fun _ => ?_
  split
  · exact refl n
  · extract_lets satisfied n1 n2
    refine guard fun _ => ?_
    refine Acts.trans ?_ (sendRequestSync _ now)
    refine Acts.trans ?_ (dropTransferBelowForcedTarget _)
    unfold n2
    split <;> exact of_eq rfl

theorem maybeEnterOrphanRepersistRecovery :
    Acts K n (n.maybeEnterOrphanRepersistRecovery now).1 := by
  unfold Node.maybeEnterOrphanRepersistRecovery
  have h := repersistOrphanOwed (K := K) n
  generalize n.repersistOrphanOwed = r at h
  obtain ⟨m, owed⟩ := r
  cases owed with
  | none => exact h
  | some target =>
    dsimp only at h ⊢
    refine h.trans ?_
    repeat' split
    all_goals first
      | exact refl m
      | exact retargetRecoveryFetch m now target
      | exact enterOrphanRepersistRecovery m now

theorem maybeAdoptInheritedFrontier : Acts K n n.maybeAdoptInheritedFrontier := by
  unfold Node.maybeAdoptInheritedFrontier
  split
  · exact refl n
  · rename_i frontier _
    have h : Acts K n (n.advanceCheckpointOp frontier) := advanceCheckpointOp n frontier
    repeat' split
    all_goals first | exact refl n | exact h.trans (of_eq rfl)

theorem forceCheckpoint : Acts K n n.forceCheckpoint := by
  unfold Node.forceCheckpoint
  have h : Acts K n (n.issueBlockJob .materialize) := issueBlockJob n _
  repeat' split
  all_goals first | exact refl n | exact h.trans (unawait rfl rfl)

theorem maybeCheckpoint : Acts K n n.maybeCheckpoint := by
  unfold Node.maybeCheckpoint
  repeat' split
  all_goals first | exact refl n | exact forceCheckpoint n

theorem stageCommittedReconfigure (p : ReconfigurePayload) :
    Acts K n (n.stageCommittedReconfigure op p) := by
  unfold Node.stageCommittedReconfigure
  repeat' split
  all_goals first | exact refl n | exact panic n | exact stageEpochSwap n op _

/-- Passing over a reconfiguration. -/
theorem commitReconfigure (e : LogEntry) (p : ReconfigurePayload) (he : e.body = .reconfigure p) :
    Acts K n (n.commitReconfigure op e p) := by
  have hface : ((n.recordApplied op e p.encodeBody).noteSmAdvanced op).face
      = { n.face with
        ledger := ((n.recordApplied op e p.encodeBody).noteSmAdvanced op).ledger } := by
    unfold Node.recordApplied
    split <;> rfl
  have hrecord : ((n.recordApplied op e p.encodeBody).noteSmAdvanced op).ledger
      = n.ledger.configure op e.client e.request p.encodeBody := by
    have hbody : e.body.isReconfigure = true := by rw [he]; rfl
    unfold Node.recordApplied Ledger.configure Ledger.record Node.ledger
    cases hp : n.panicked <;> simp [hp, hbody, Node.noteSmAdvanced]
  have hswap : ∀ m : Node S, (m.setCommitMin op).noteSmAdvanced op
      = (m.noteSmAdvanced op).setCommitMin op := by
    intro m
    unfold Node.setCommitMin Node.assert Node.noteSmAdvanced
    dsimp only
    split <;> rfl
  unfold Node.commitReconfigure
  rw [hswap]
  extract_lets n1 n2
  have h1 : Acts K n n1 := by
    refine Acts.trans ?_ (setCommitMin _ op)
    rw [hrecord] at hface
    refine single (.post (.configure _ op _ _ _) hface) ?_
    unfold Node.recordApplied
    split <;> rfl
  have h2 : Acts K n n2 := h1.trans (of_eq rfl)
  exact h2.trans (stageCommittedReconfigure n2 op p)

/-- The two apply paths run the service, enter the session and answer the caller; `setCommitMin`
may fail between the two halves. -/
theorem of_applied {n m : Node S} (e : LogEntry) (body : Bytes) (ok : Bool)
    (hface : m.face = { n.face with ledger := m.ledger })
    (h : m.ledger =
      { n.ledger.apply op e.client e.request body with panicked := n.panicked || !ok })
    (hground : m.ground = n.ground) : Acts K n m := by
  cases ok with
  | true =>
    have hm : m.ledger = n.ledger.apply op e.client e.request body := by
      rw [h, Bool.not_true, Bool.or_false]
      rfl
    rw [hm] at hface
    exact single (.post (.apply _ op _ _ _) hface) hground
  | false =>
    have hm : m.ledger = { n.ledger.apply op e.client e.request body with panicked := true } := by
      rw [h, Bool.not_false, Bool.or_true]
    rw [hm] at hface
    -- the service runs first, in a state that differs from `n` in its ledger alone
    let a : Node S :=
      { n with
        applied := (n.ledger.apply op e.client e.request body).applied
        sm := (n.ledger.apply op e.client e.request body).sm
        smAt := op
        clients := (n.ledger.apply op e.client e.request body).clients
        events := .committed op e.client e.request (StateMachine.apply n.sm op body).2 :: n.events }
    have ha : Acts K n a := single (.post (.apply _ op _ _ _) rfl) rfl
    exact ha.trans (single (.post (.fail _) hface) hground)

theorem face_applyOp (e : LogEntry) (body : Bytes) :
    (n.applyOp op e body).1.face = { n.face with ledger := (n.applyOp op e body).1.ledger } := by
  unfold Node.applyOp Node.setCommitMin Node.assert Node.recordApplied
  dsimp only
  repeat' split
  all_goals rfl

theorem ground_applyOp (e : LogEntry) (body : Bytes) :
    (n.applyOp op e body).1.ground = n.ground := by
  unfold Node.applyOp Node.setCommitMin Node.assert Node.recordApplied
  dsimp only
  repeat' split
  all_goals rfl

theorem ledger_applyOp (e : LogEntry) (body : Bytes)
    (he : e.body = .present body) :
    (n.applyOp op e body).1.ledger =
      { n.ledger with
        applied := n.ledger.record ⟨n.incarnation, op, e.client, e.request, body, false⟩
        sm := (StateMachine.apply n.sm op body).1
        smAt := op
        panicked := n.panicked || !decide (n.commitMin ≤ op) } := by
  have hbody : e.body.isReconfigure = false := by rw [he]; rfl
  unfold Node.applyOp Node.setCommitMin Node.assert Node.recordApplied Ledger.record Node.ledger
  dsimp only
  cases hp : n.panicked <;> by_cases hc : n.commitMin ≤ op <;>
    simp [hp, hbody, hc, Node.noteSmAdvanced, Node.panic]

omit [StateMachine S] in
theorem face_noteAppliedSession (client : ClientId)
    (request : RequestNumber) (reply : Bytes) :
    (n.noteAppliedSession op client request reply).face =
      { n.face with ledger := (n.noteAppliedSession op client request reply).ledger } := by
  rw [Node.noteAppliedSession_eq]
  rfl

omit [StateMachine S] in
theorem ground_noteAppliedSession (client : ClientId) (request : RequestNumber) (reply : Bytes) :
    (n.noteAppliedSession op client request reply).ground = n.ground := by
  rw [Node.noteAppliedSession_eq]
  rfl

omit [StateMachine S] in
theorem ledger_noteAppliedSession (client : ClientId)
    (request : RequestNumber) (reply : Bytes) :
    (n.noteAppliedSession op client request reply).ledger = { n.ledger with
      clients :=
        SessionTable.noteApplied n.ledger.cap n.ledger.clients op client request reply } := by
  rw [Node.noteAppliedSession_eq]
  rfl

omit [StateMachine S] in
theorem ground_event (e : Event) : (n.event e).ground = n.ground := rfl

omit [StateMachine S] in
theorem ledger_event_committed (client : ClientId)
    (request : RequestNumber) (reply : Bytes) :
    (n.event (.committed op client request reply)).ledger =
      { n.ledger with answered := (op, client, request, reply) :: n.ledger.answered } := rfl

omit [StateMachine S] in
theorem face_event (e : Event) :
    (n.event e).face = { n.face with ledger := (n.event e).ledger } := rfl

theorem advanceOne : Acts K n (n.advanceOne now op).1 := by
  unfold Node.advanceOne
  split
  · exact requestRepairRun n now op
  · rename_i e _
    split
    · exact commitReconfigure n op e _ ‹_›
    · exact requestRepairRun n now op
    · rename_i body he
      apply of_applied op e body (decide (n.commitMin ≤ op))
      · rw [face_event, face_noteAppliedSession, face_applyOp]
      · rw [ledger_event_committed, ledger_noteAppliedSession, ledger_applyOp n op e body he]
        rfl
      · rw [ground_event, ground_noteAppliedSession, ground_applyOp]

theorem commitOp : Acts K n (n.commitOp now op).1 := by
  unfold Node.commitOp
  split
  · exact requestRepairRun n now op
  · rename_i e _
    split
    · exact commitReconfigure n op e _ ‹_›
    · exact requestRepairRun n now op
    · rename_i body he
      have hinflight : ∀ (m : Node S) (inflight : OrdMap Nat Inflight),
          { m with inflight := inflight }.ledger = m.ledger := fun _ _ => rfl
      have hface : ∀ (m : Node S) (inflight : OrdMap Nat Inflight),
          { m with inflight := inflight }.face = m.face := fun _ _ => rfl
      have hledger (m : Node S) : m.face.ledger = m.ledger := rfl
      refine of_applied op e body (decide (n.commitMin ≤ op)) ?_ ?_ ?_
      · dsimp only
        rw [face_event, face_emit, face_noteAppliedSession, hface, face_applyOp]
      · dsimp only
        rw [ledger_event_committed, ← hledger, face_emit, hledger,
          ledger_noteAppliedSession, hinflight, ledger_applyOp n op e body he]
        rfl
      · have hground : ∀ (m : Node S) (inflight : OrdMap Nat Inflight),
            { m with inflight := inflight }.ground = m.ground := fun _ _ => rfl
        rw [ground_event, ground_emit _ _ _ rfl, ground_noteAppliedSession, hground, ground_applyOp]

theorem advanceLoop : ∀ (room : Nat) (n : Node S), Acts K n (Node.advanceLoop now room n)
  | 0, n => refl n
  | room + 1, n => by
    unfold Node.advanceLoop
    have h := advanceOne (K := K) n now (n.commitMin + 1)
    generalize n.advanceOne now (n.commitMin + 1) = r at h
    obtain ⟨m, more⟩ := r
    dsimp only at h ⊢
    split
    · exact h.trans (advanceLoop room m)
    · exact h

theorem commitTail {pay : Node S → Node S} (hpay : ∀ n, Acts K n (pay n)) (n : Node S)
    (now : Instant) : Acts K n (Node.commitTail pay n now).1 := by
  unfold Node.commitTail
  have h1 : Acts K n n.cancelForcedSyncIfSatisfied.maybeAdoptInheritedFrontier :=
    (cancelForcedSyncIfSatisfied n).trans (maybeAdoptInheritedFrontier _)
  have h := h1.trans (maybeEnterOrphanRepersistRecovery _ now)
  dsimp only
  generalize Node.maybeEnterOrphanRepersistRecovery
    n.cancelForcedSyncIfSatisfied.maybeAdoptInheritedFrontier now = r at h
  obtain ⟨m, flow⟩ := r
  cases flow with
  | enteredRecovery => exact h
  | proceed =>
    have h' : Acts K n m := h
    exact ((h'.trans (maybeCheckpoint m)).trans (hpay _)).trans (maybeSwapEpoch _)

theorem advanceCommitWith {pay : Node S → Node S} (hpay : ∀ n, Acts K n (pay n)) (n : Node S)
    (now : Instant) (target : OpNumber) : Acts K n (Node.advanceCommitWith pay n now target).1 := by
  unfold Node.advanceCommitWith
  split
  · exact refl n
  · extract_lets n1
    have h1 : Acts K n n1 := of_eq rfl
    split
    · exact h1
    · exact (h1.trans (advanceLoop now _ n1)).trans (commitTail hpay _ now)

theorem payCheckpointDebtWith {advance : Node S → Node S × CommitFlow}
    (hadvance : ∀ n, Acts K n (advance n).1) (n : Node S) :
    Acts K n (Node.payCheckpointDebtWith advance n) := by
  have hsettle : ∀ m : Node S, Acts K m
      (if m.configInstallOp ≤ m.commitMin && m.pendingCheckpoint.isNone then m.forceCheckpoint
        else m) := by
    intro m
    exact provided fun _ => forceCheckpoint m
  unfold Node.payCheckpointDebtWith
  refine guard fun _ => guard fun _ => guard fun _ => ?_
  dsimp only
  split
  · exact hsettle n
  · have h := hadvance { n with payingCheckpointDebt := true }
    generalize advance { n with payingCheckpointDebt := true } = r at h
    obtain ⟨m, flow⟩ := r
    have h1 : Acts K n { n with payingCheckpointDebt := true } := of_eq rfl
    have h2 : Acts K n m := h1.trans h
    have h3 : Acts K n { m with payingCheckpointDebt := false } := h2.trans (of_eq rfl)
    dsimp only
    split
    · exact h3
    · exact h3.trans (hsettle _)

theorem advanceCommitPaying (target : OpNumber) : Acts K n (n.advanceCommitPaying now target).1 :=
  advanceCommitWith (payCheckpointDebtWith refl) n now target

theorem maybePayCheckpointDebt : Acts K n (n.maybePayCheckpointDebt now) :=
  payCheckpointDebtWith (fun m => advanceCommitPaying m now m.commitMax) n

theorem advanceCommit (target : OpNumber) : Acts K n (n.advanceCommit now target).1 :=
  advanceCommitWith (fun m => maybePayCheckpointDebt m now) n now target

theorem tryCommitLoop : ∀ (room : Nat) (n : Node S), Acts K n (Node.tryCommitLoop now room n).1
  | 0, n => refl n
  | room + 1, n => by
    unfold Node.tryCommitLoop
    split
    · have h := commitOp (K := K) n now (n.commitMin + 1)
      generalize n.commitOp now (n.commitMin + 1) = r at h
      obtain ⟨m, more⟩ := r
      cases more with
      | false => exact h
      | true =>
        have h' : Acts K n m := h
        exact h'.trans (tryCommitLoop room m)
    · exact refl n

theorem tryCommit : Acts K n (n.tryCommit now).1 := by
  unfold Node.tryCommit
  split
  · exact refl n
  · split
    · exact refl n
    · have h := tryCommitLoop (K := K) now n.inflight.size n
      generalize Node.tryCommitLoop now n.inflight.size n = r at h
      obtain ⟨m, advanced⟩ := r
      dsimp only at h ⊢
      refine Acts.trans ?_ (commitTail (fun k => maybePayCheckpointDebt k now) _ now)
      split
      · refine Acts.trans ?_ (emit _ _ _ rfl)
        exact h.trans (of_eq rfl)
      · exact h.trans (of_eq rfl)

/-! ## View changes -/

theorem pushSvc (view : View) : Acts K n (n.pushSvc view) :=
  withLocalSlot fun _ => emit n _ _ rfl

theorem joinSvc : Acts K n (n.joinSvc now) := by
  unfold Node.joinSvc
  refine withLocalSlot fun slot => ?_
  extract_lets n1
  have h : Acts K n { n with svcFrom := insert slot n.svcFrom } := of_eq rfl
  have h1 : Acts K n n1 := h.trans (pushSvc _ _)
  exact h1.trans (of_eq rfl)

theorem enterViewChange (view : View) : Acts K n (n.enterViewChange now view) := by
  unfold Node.enterViewChange
  extract_lets n1 n2 n3
  have h : Acts K n { n with view := view } := of_eq rfl
  have h1 : Acts K n n1 := h.trans (setStatus _ .viewChange nofun)
  have h' : Acts K n1 { n1 with svcTarget := view } := of_eq rfl
  have h2 : Acts K n n2 := (h1.trans h').trans (resetForViewTransition _ now)
  have h3 : Acts K n n3 := h2.trans (of_eq rfl)
  exact h3.trans (submitDurableView n3 _)

theorem maybeStartViewChange : Acts K n (n.maybeStartViewChange now) := by
  unfold Node.maybeStartViewChange
  exact provided fun _ => guard fun _ => (assert n _).trans (enterViewChange _ now _)

theorem proposeNextView : Acts K n (n.proposeNextView now) := by
  unfold Node.proposeNextView
  refine guard fun _ => ?_
  extract_lets n1
  have h1 : Acts K n n1 := by
    unfold n1
    exact provided fun _ => of_eq rfl
  exact (h1.trans (joinSvc n1 now)).trans (maybeStartViewChange _ now)

theorem maybeForfeit : Acts K n (n.maybeForfeit now) := by
  unfold Node.maybeForfeit
  split
  · exact of_eq rfl
  · dsimp only
    split
    · exact of_eq rfl
    · exact of_eq rfl
    · refine provided fun _ => ?_
      unfold Node.forfeit
      refine Acts.trans ?_ (proposeNextView _ now)
      exact of_eq rfl

theorem onStartViewChange (m : StartViewChange) : Acts K n (n.onStartViewChange now m) := by
  unfold Node.onStartViewChange
  refine guard fun _ => guard fun _ => guard fun _ => ?_
  extract_lets n1
  have h1 : Acts K n n1 := by
    unfold n1
    refine provided fun _ => ?_
    refine Acts.trans ?_ (joinSvc _ now)
    exact of_eq rfl
  refine h1.trans ?_
  refine provided fun _ => ?_
  refine Acts.trans ?_ (maybeStartViewChange _ now)
  exact of_eq rfl

theorem notePrimaryContact : Acts K n (n.notePrimaryContact now) := by
  unfold Node.notePrimaryContact
  exact provided fun _ => armPrimaryIdle n now

theorem sendDoViewChange : Acts K n n.sendDoViewChange := by
  unfold Node.sendDoViewChange
  exact guard fun _ => withLocalSlot fun _ => emit n _ _ rfl

theorem reconcileSessionWatermarks : Acts K n n.reconcileSessionWatermarks := by
  unfold Node.reconcileSessionWatermarks
  apply touch
  apply SessionTable.Retouched.mapVals
  exact fun _ _ => ⟨rfl, rfl⟩

theorem adoptLog (hK : K.insert) (n : Node S) (entries : List PreparedEntry) (floor : OpNumber) :
    Acts K n (n.adoptLog entries floor) := by
  unfold Node.adoptLog
  refine Acts.trans ?_ (reconcileSessionWatermarks _)
  exact (assertCommittedSurvives n floor floor).trans (writeLog hK _ _)

theorem clearIdleRepairRetry : Acts K n n.clearIdleRepairRetry := by
  unfold Node.clearIdleRepairRetry
  exact provided fun _ => of_eq rfl

theorem adoptAppend (kind : Pending) (hop : kind.op = op)
    (hlate : n.status = .retired → K.late) : Acts K n (n.adoptAppend op kind) := by
  unfold Node.adoptAppend
  split
  · exact refl n
  · split
    · exact refl n
    · refine guard fun _ => ?_
      extract_lets header n1
      have h1 : Acts K n n1 := submitOrDeferAppend n _ _ _ _ hop hlate
      exact h1.trans (of_eq rfl)

omit [StateMachine S] in
theorem adoptAppend_status (kind : Pending) : (n.adoptAppend op kind).status = n.status := by
  unfold Node.adoptAppend
  split
  · rfl
  · split
    · rfl
    · split
      · rfl
      · exact submitOrDeferAppend_status n _ _ _ _

/-- A loop of adopted appends; the status stays what it was. -/
theorem foldl_adopt {f : Node S → OpNumber → Node S}
    (step : ∀ n op, (n.status = .retired → K.late) →
      Acts K n (f n op) ∧ (f n op).status = n.status) :
    ∀ (ops : List OpNumber) (n : Node S), (n.status = .retired → K.late) →
      Acts K n (ops.foldl f n)
  | [], n, _ => refl n
  | op :: ops, n, hn => by
    obtain ⟨hmoves, hstatus⟩ := step n op hn
    exact hmoves.trans (foldl_adopt step ops _ (by rwa [hstatus]))

theorem startViewAcks (hlate : n.status = .retired → K.late) : Acts K n n.startViewAcks :=
  foldl_adopt (fun m op hm =>
    ⟨adoptAppend m op (.adoptAck op) rfl hm, adoptAppend_status m op _⟩) _ n hlate

/-- Only a serving replica retries. -/
theorem retryUnappendedAdoptedTail : Acts K n n.retryUnappendedAdoptedTail := by
  unfold Node.retryUnappendedAdoptedTail
  refine guard fun hguard => ?_
  have hserving : n.status = .retired → K.late := by
    intro h
    simp [h] at hguard
  refine foldl_adopt (fun m op hm => ?_) _ n hserving
  split
  · exact ⟨refl m, rfl⟩
  · refine ⟨?_, adoptAppend_status m op _⟩
    split <;> exact adoptAppend m op _ rfl hm

theorem truncateWalAboveAdoptedHead : Acts K n n.truncateWalAboveAdoptedHead := by
  unfold Node.truncateWalAboveAdoptedHead
  extract_lets n1
  have h1 : Acts K n n1 := assertCommittedSurvives n _ _
  exact h1.trans (truncate n1 n1.op)

theorem truncateAtGap (commitStar : OpNumber) : Acts K n (n.truncateAtGap commitStar) := by
  unfold Node.truncateAtGap
  split
  · exact refl n
  · refine Acts.trans ?_ (clearIdleRepairRetry _)
    exact ((assertCommittedSurvives n _ _).trans (filterLog _ _)).trans (of_eq rfl)

theorem retouched_raise : ∀ (es : List LogEntry) (t : SessionTable),
    SessionTable.Retouched t (es.foldl (fun cs e =>
      cs.insert e.client { (cs.get? e.client).getD {} with
        request := max ((cs.get? e.client).getD {}).request e.request }) t)
  | [], _ => fun h => ⟨h, rfl⟩
  | _ :: es, t => (SessionTable.Retouched.insert t _ _).trans (retouched_raise es _)

theorem raiseSessionWatermarks : Acts K n n.raiseSessionWatermarks :=
  touch n (retouched_raise _ n.clients)

theorem becomePrimary : Acts K n n.becomePrimary := by
  unfold Node.becomePrimary
  have h : Acts K n { n with logView := n.view } := of_eq rfl
  have h' :=
    (h.trans (setStatus _ .normal nofun)).trans (event _ (e := .viewChanged n.view true) rfl)
  exact h'.trans (of_eq rfl)

theorem driveAdopted (n : Node S) (op : OpNumber) (hn : Awake K n) :
    Acts K n (n.driveAdopted op) := by
  unfold Node.driveAdopted
  refine Acts.trans ?_ (adoptAppend _ op _ rfl fun h => hn (.inl h))
  exact of_eq rfl

theorem driveAdoptedTail (n : Node S) (now : Instant) (hn : Awake K n) :
    Acts K n (n.driveAdoptedTail now) := by
  unfold Node.driveAdoptedTail
  extract_lets tail n1 n2
  have h1 : Acts K n n1 := foldl (fun m op => requestRepair m now op) tail n
  have h2 : Acts K n n2 := h1.trans (of_eq rfl)
  exact h2.trans (foldl_awake driveAdopted _ n2 (h2.awake hn))

theorem startViewAsNewPrimary (hK : K.insert) (n : Node S) (now : Instant)
    (dvcs : List DoViewChange) (hn : Awake K n) : Acts K n (n.startViewAsNewPrimary now dvcs) := by
  unfold Node.startViewAsNewPrimary
  extract_lets sel n1 n2 supplied n3
  have h1 : Acts K n n1 := assert n _
  have h2 : Acts K n n2 := by
    refine Acts.trans ?_ (adoptLog hK _ sel.log sel.floorStar)
    exact h1.trans (of_eq rfl)
  have h3 : Acts K n n3 := by
    refine Acts.trans ?_ (clearIdleRepairRetry _)
    exact h2.trans (of_eq rfl)
  have h := h3.trans (advanceCommit n3 now sel.commitStar)
  generalize n3.advanceCommit now sel.commitStar = r at h
  obtain ⟨m, flow⟩ := r
  cases flow with
  | enteredRecovery => exact h
  | proceed =>
    have h : Acts K n m := h
    dsimp -zeta only
    extract_lets n5 n6 n7
    have h6 : Acts K m n6 := (truncateAtGap m sel.commitStar).trans (truncateWalAboveAdoptedHead n5)
    have h7 : Acts K n6 n7 :=
      ((raiseSessionWatermarks n6).trans (reconcileSessionWatermarks _)).trans (becomePrimary _)
    have h' : Acts K n n7 := h.trans (h6.trans h7)
    exact (h'.trans (driveAdoptedTail n7 now (h'.awake hn))).trans (submitDurableView _ _)

theorem onDoViewChange (hK : K.insert) (n : Node S) (now : Instant) (m : DoViewChange)
    (hn : Awake K n) : Acts K (n.hear (n.hears (.doViewChange m))) (n.onDoViewChange now m) := by
  unfold Node.onDoViewChange Node.withLocalSlot
  split
  · rename_i hview
    exact of_unheard (if_neg fun h => hview h.2.1) (refl n)
  · rename_i hview
    split
    · rename_i own hown
      beta_reduce
      split
      · rename_i hvc
        exact of_unheard (if_neg fun h => by simp [hvc] at h) (refl n)
      · rename_i vc hvc
        split
        · rename_i hforming
          refine of_unheard (if_neg fun h => ?_) (refl n)
          simp_all
        · rename_i hforming
          split
          · rename_i hslot
            exact of_unheard (if_neg fun h => Nat.not_lt.mpr hslot h.2.2.2.2) (refl n)
          · rename_i hslot
            extract_lets n1 votes replace votes' n2
            refine of_heard (if_pos ?_) ?_
            · simp_all
            · have hawake : Awake K n1 := by
                unfold n1 Node.recordPeerCheckpoint
                split <;> exact hn
              have h2 : Acts K n1 n2 := of_eq rfl
              split
              · exact h2.trans (startViewAsNewPrimary hK n2 now _ (h2.awake hawake))
              · exact h2
    · rename_i hown
      exact of_unheard (if_neg fun h => by simp [hown] at h) (panic n)

theorem startViewParticipate : Acts K n (n.startViewParticipate now) := by
  unfold Node.startViewParticipate
  refine guard fun _ => ?_
  have h := (maybeAdoptInheritedFrontier (K := K) n).trans (maybeEnterOrphanRepersistRecovery _ now)
  generalize n.maybeAdoptInheritedFrontier.maybeEnterOrphanRepersistRecovery now = r at h
  obtain ⟨m, flow⟩ := r
  cases flow with
  | enteredRecovery => exact h
  | proceed =>
    have h' := h.trans (repersistOrphanOwed m)
    dsimp only
    generalize m.repersistOrphanOwed = r at h'
    obtain ⟨k, owed⟩ := r
    have h' : Acts K n k := h'
    cases owed with
    | some _ => exact h'.trans (armTimers k now)
    | none =>
      dsimp only
      have hemit : Acts K k (k.withLocalSlot fun slot =>
          k.emit .backups (.startView (k.ownStartView slot))) :=
        withLocalSlot fun _ => emit k _ _ rfl
      exact ((h'.trans hemit).trans (armTimers _ now)).trans (tryCommit _ now)

theorem of_adopts {view : View} {floor : OpNumber} {n n' : Node S} (hr : K.report)
    (h : Adopts K view floor n n') : Acts K n n' := by
  rcases h with h | ⟨m, hm, -, h⟩
  · exact h
  · exact (hm.trans (recordPeerCheckpoint hr m _ _)).trans h

theorem adopts_trans {view : View} {floor : OpNumber} {n n' n'' : Node S}
    (h : Adopts K view floor n n') (h' : Acts K n' n'') : Adopts K view floor n n'' := by
  rcases h with h | ⟨m, hm, hforgot, h⟩
  · exact .inl (h.trans h')
  · exact .inr ⟨m, hm, hforgot, h.trans h'⟩

omit [StateMachine S] in
theorem reports_resetForViewTransition (n : Node S) (now : Instant) :
    (n.resetForViewTransition now).reports = [] ∧
      (n.resetForViewTransition now).resets = n.resets + 1 := by
  have hdrop (m : Node S) : m.dropUnrootedCheckpoint.floors = m.floors := by
    unfold Node.dropUnrootedCheckpoint Node.abandonRoot
    repeat' split
    all_goals rfl
  unfold Node.resetForViewTransition
  extract_lets n1 n2 n3 n4 timers n5
  have h5 : n5.floors = n2.floors := by
    refine Eq.trans ?_ (hdrop n2)
    unfold n5
    repeat' split
    all_goals rfl
  exact ⟨congrArg Floors.reports h5, congrArg Floors.resets h5⟩

theorem adoptCanonicalHead (hK : K.insert) (n : Node S) (now : Instant) (view : View)
    (op commit checkpointOp : OpNumber) (log : List PreparedEntry) :
    Adopts K view (min checkpointOp commit) n
      (n.adoptCanonicalHead now view op commit checkpointOp log).1 := by
  unfold Node.adoptCanonicalHead
  extract_lets n1 floor n2 n3
  have h1 : Acts K n n1 := (assert n _).trans (assert _ _)
  have h2 : Acts K n n2 := by
    refine Acts.trans ?_ (adoptLog hK _ log floor)
    exact h1.trans (of_eq rfl)
  have h3 : Acts K n n3 := by
    refine Acts.trans ?_ (clearIdleRepairRetry _)
    exact h2.trans (of_eq rfl)
  have h := h3.trans (advanceCommit n3 now commit)
  generalize n3.advanceCommit now commit = r at h
  obtain ⟨m, flow⟩ := r
  have h : Acts K n m := h
  cases flow with
  | enteredRecovery => exact .inl h
  | proceed =>
    dsimp -zeta only
    have hk :
        Acts K m (if m.status = .recoveringHead then m.repersistOrphanOwed else (m, none)).1 := by
      split
      · exact repersistOrphanOwed m
      · exact refl m
    generalize (if m.status = .recoveringHead then m.repersistOrphanOwed else (m, none)) = r at hk
    obtain ⟨k, owed⟩ := r
    have hk : Acts K n k := h.trans hk
    dsimp -zeta only
    split
    · exact .inl (hk.trans (enterOrphanRepersistRecovery k now))
    · extract_lets k1 k2 k3 k4 k5 k6 k7
      have e1 : Acts K n k1 := by
        refine Acts.trans ?_ (setStatus _ .normal nofun)
        exact hk.trans (of_eq rfl)
      have e2 : Acts K n k2 := e1.trans (withLocalSlot fun _ => event k1 rfl)
      have e3 : Acts K n k3 := e2.trans (resetForViewTransition k2 now)
      have e4 : Adopts K view floor n k4 := by
        unfold k4
        split
        · obtain ⟨hforgot, hreset⟩ := reports_resetForViewTransition k2 now
          have hlt : n.resets < k3.resets := hreset ▸ Nat.lt_succ_of_le e2.steady.resets
          exact .inr ⟨k3, e3, ⟨hforgot, hlt⟩, refl _⟩
        · exact .inl e3
      have e5 : Acts K k4 k5 := of_eq rfl
      have e6 : Acts K k4 k6 := e5.trans (assert k5 _)
      have e7 : Acts K k4 k7 := e6.trans (of_eq rfl)
      exact adopts_trans e4 (e7.trans (submitDurableView k7 _))

/-- Adopting a head ends with the WAL truncated above it. -/
theorem adoptAndTruncate (hK : K.insert) (n : Node S) (now : Instant) (view : View)
    (op commit checkpointOp : OpNumber) (log : List PreparedEntry) :
    Adopts K view (min checkpointOp commit) n
      (match n.adoptCanonicalHead now view op commit checkpointOp log with
      | (n, .enteredRecovery) => n
      | (n, .proceed) => n.truncateWalAboveAdoptedHead) := by
  have h := adoptCanonicalHead hK n now view op commit checkpointOp log
  generalize n.adoptCanonicalHead now view op commit checkpointOp log = r at h
  obtain ⟨m, flow⟩ := r
  cases flow with
  | enteredRecovery => exact h
  | proceed => exact adopts_trans h (truncateWalAboveAdoptedHead m)

theorem onStartView (hK : K.insert) (n : Node S) (now : Instant) (m : StartView) :
    Adopts K m.view (min m.checkpointOp m.commit) n (n.onStartView now m) := by
  unfold Node.onStartView
  split
  · exact .inl (refl n)
  · split
    · exact .inl (refl n)
    · split
      · exact .inl (refl n)
      · exact adoptAndTruncate hK n now _ _ _ _ _

theorem sendGetView : Acts K n (n.sendGetView now) := by
  unfold Node.sendGetView
  refine withLocalSlot fun slot => ?_
  extract_lets n1
  have h1 : Acts K n n1 := emit n _ _ rfl
  exact h1.trans (of_eq rfl)

theorem enterCatchUpPosture : Acts K n (n.enterCatchUpPosture now) := by
  unfold Node.enterCatchUpPosture
  extract_lets n1 n2 n3
  have h2 : Acts K n n2 := by
    refine Acts.trans ?_ (resetForViewTransition _ now)
    exact (setStatus n .viewChange nofun).trans (of_eq rfl)
  have h3 : Acts K n n3 := by
    refine Acts.trans ?_ (abandonPendingSb _)
    exact h2.trans (of_eq rfl)
  exact (h3.trans (armTimers n3 now)).trans (sendGetView _ now)

theorem catchUpToView (view : View) : Acts K n (n.catchUpToView now view) := by
  unfold Node.catchUpToView
  refine guard fun _ => guard fun _ => ?_
  refine Acts.trans ?_ (enterCatchUpPosture _ now)
  exact (assert n _).trans (of_eq rfl)

theorem revertCatchUpToEffectiveView (view : View) :
    Acts K n (n.revertCatchUpToEffectiveView now view) := by
  unfold Node.revertCatchUpToEffectiveView
  extract_lets n1 n2
  have h1 : Acts K n n1 := by
    refine Acts.trans ?_ (setStatus _ .normal nofun)
    exact of_eq rfl
  have h2 : Acts K n n2 := h1.trans (armTimers n1 now)
  split
  · exact h2.trans (of_eq rfl)
  · exact h2

theorem viewChangeStatusTimeout : Acts K n (n.viewChangeStatusTimeout now) := by
  unfold Node.viewChangeStatusTimeout
  extract_lets revertTo n1
  have h1 : Acts K n n1 := by
    unfold n1
    exact provided fun _ => of_eq rfl
  split
  · exact h1.trans (revertCatchUpToEffectiveView n1 now _)
  · exact (h1.trans (proposeNextView n1 now)).trans (armTimers _ now)

theorem viewChangeTimeouts : Acts K n (n.viewChangeTimeouts now) := by
  unfold Node.viewChangeTimeouts
  extract_lets n1 timers n2 n3 timers' n4 n5
  have h2 : Acts K n n2 := by
    unfold n2
    exact provided fun _ => (pushSvc n _).trans (of_eq rfl)
  have h4 : Acts K n2 n4 := by
    unfold n4
    exact provided fun _ => (sendDoViewChange n2).trans (of_eq rfl)
  have h5 : Acts K n4 n5 := by
    unfold n5
    exact provided fun _ => sendGetView n4 now
  refine (h2.trans (h4.trans h5)).trans ?_
  exact provided fun _ => viewChangeStatusTimeout n5 now

theorem onGetView (m : GetView) : Acts K n (n.onGetView m) := by
  unfold Node.onGetView
  have h := repersistOrphanOwed (K := K) n
  generalize n.repersistOrphanOwed = r at h
  obtain ⟨k, owed⟩ := r
  cases owed with
  | some _ => exact h
  | none =>
    refine Acts.trans h ?_
    dsimp only
    exact provided fun _ => withLocalSlot fun _ => emit k _ _ rfl

theorem onRecovery (m : Recovery) : Acts K n (n.onRecovery m) := by
  unfold Node.onRecovery
  refine guard fun _ => ?_
  have h := repersistOrphanOwed (K := K) n
  generalize n.repersistOrphanOwed = r at h
  obtain ⟨k, owed⟩ := r
  cases owed with
  | some _ => exact h
  | none =>
    refine Acts.trans h ?_
    dsimp only
    exact guard fun _ => withLocalSlot fun _ => emit k _ _ rfl

theorem onRecoveryResponse (hK : K.insert) (n : Node S) (now : Instant) (m : RecoveryResponse) :
    Adopts K m.view (min m.checkpointOp m.commit) n (n.onRecoveryResponse now m) := by
  unfold Node.onRecoveryResponse
  split
  · exact .inl (refl n)
  · split
    · exact .inl (refl n)
    · split
      · exact .inl (refl n)
      · split
        · exact .inl (refl n)
        · exact adoptAndTruncate hK n now _ _ _ _ _

end Node.Acts

end Viewstamp
