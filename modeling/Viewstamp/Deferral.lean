import Viewstamp.Ledger.Step
import Viewstamp.Moves.Fate

/- No parked append is forgotten.

   The moves of a step keep what is parked woken (`Moves.parking`); what is left is
   what happens between steps. A completion takes its write out of the ledger, which
   opens a slot, and the handler of the completion closes it: it releases the slot, or
   the replica has emptied its table on the way.

   There is one way around it. The root that an adopted StartView waits for is
   acknowledged without a look at the status, so a replica that has left its
   configuration appends once more, and a retired replica releases nothing. -/
namespace Viewstamp

open List

namespace Node

variable {S : Type}

/-! ## What waits for a root -/

/-- What waits for the root in flight still waits for it, or nothing does. -/
def Waits (n n' : Node S) : Prop := n'.pendingSb = n.pendingSb ∨ n'.pendingSb = none

variable (n : Node S) (now : Instant)

namespace Waits

theorem of_eq {n n' : Node S} (h : n'.pendingSb = n.pendingSb) : Waits n n' := .inl h

theorem refl : Waits n n := of_eq rfl

theorem trans {n n' n'' : Node S} (h : Waits n n') (h' : Waits n' n'') : Waits n n'' := by
  rcases h' with h' | h'
  · rw [Waits, h']
    exact h
  · exact .inr h'

theorem emit (r : Recipient) (m : Message) : Waits n (n.emit r m) := by
  unfold Node.emit
  split <;> exact of_eq rfl

theorem assert (c : Bool) : Waits n (n.assert c) := by
  unfold Node.assert
  split <;> exact of_eq rfl

theorem setStatus (s : Status) : Waits n (n.setStatus s) := by
  unfold Node.setStatus
  split <;> exact of_eq rfl

theorem sendRequestSync : Waits n (n.sendRequestSync now) := by
  unfold Node.sendRequestSync Node.withLocalSlot
  dsimp only
  split
  · split
    · exact (emit n _ _).trans ((emit _ _ _).trans (of_eq rfl))
    · exact (emit n _ _).trans (of_eq rfl)
  · exact of_eq rfl

theorem dropTransferBelowForcedTarget : Waits n n.dropTransferBelowForcedTarget := by
  unfold Node.dropTransferBelowForcedTarget
  repeat' split
  all_goals exact of_eq rfl

theorem retargetRecoveryFetch (target : OpNumber) :
    Waits n (n.retargetRecoveryFetch now target) := by
  have hdrop (m : Node S) (h : Waits n m) :
      Waits n (m.dropTransferBelowForcedTarget.sendRequestSync now) :=
    h.trans ((dropTransferBelowForcedTarget m).trans (sendRequestSync _ now))
  unfold Node.retargetRecoveryFetch
  split
  · exact refl n
  · split
    · exact refl n
    · dsimp only
      split
      · exact refl n
      · apply hdrop
        split <;> exact of_eq rfl

theorem repersistOrphanOwed : Waits n n.repersistOrphanOwed.1 := by
  unfold Node.repersistOrphanOwed
  split
  · exact refl n
  · split
    · exact of_eq rfl
    · exact refl n

theorem abandonPendingSb : Waits n n.abandonPendingSb := by
  unfold Node.abandonPendingSb
  split
  · unfold Node.abandonRoot
    split <;> exact .inr rfl
  · exact refl n

theorem submitTrackedCheckpointRead : Waits n n.submitTrackedCheckpointRead := by
  unfold Node.submitTrackedCheckpointRead
  split
  · exact refl n
  · exact of_eq rfl

theorem abandonRoot (role : RootRole) (id : OpId) : Waits n (n.abandonRoot role id) := by
  unfold Node.abandonRoot
  split <;> exact of_eq rfl

theorem dropUnrootedCheckpoint : Waits n n.dropUnrootedCheckpoint := by
  unfold Node.dropUnrootedCheckpoint
  split
  · exact of_eq rfl
  · exact (abandonRoot n .checkpoint _).trans (of_eq rfl)
  · exact of_eq rfl
  · exact refl n

theorem resetForViewTransition : Waits n (n.resetForViewTransition now) := by
  unfold Node.resetForViewTransition
  extract_lets n1 n2 n3 n4 timers n5
  have h4 : Waits n n4 := dropUnrootedCheckpoint n2
  have h5 : Waits n4 n5 := by
    unfold n5
    repeat' split
    all_goals exact of_eq rfl
  exact h4.trans h5

theorem enterOrphanRepersistRecovery : Waits n (n.enterOrphanRepersistRecovery now) := by
  unfold Node.enterOrphanRepersistRecovery
  extract_lets n1 n2 n3
  have h1 : Waits n n1 := resetForViewTransition n now
  have h2 : Waits n1 n2 := by
    refine Waits.trans ?_ (abandonPendingSb _)
    exact of_eq rfl
  have h3 : Waits n2 n3 := by
    refine Waits.trans ?_ (setStatus _ _)
    exact of_eq rfl
  refine (h1.trans (h2.trans h3)).trans ?_
  unfold Node.submitRecoverCheckpointRead
  refine Waits.trans ?_ (of_eq rfl)
  refine Waits.trans ?_ (submitTrackedCheckpointRead _)
  exact of_eq rfl

theorem maybeEnterOrphanRepersistRecovery :
    Waits n (n.maybeEnterOrphanRepersistRecovery now).1 := by
  have h := repersistOrphanOwed n
  unfold Node.maybeEnterOrphanRepersistRecovery
  generalize n.repersistOrphanOwed = r at h
  obtain ⟨m, owed⟩ := r
  cases owed with
  | none => exact h
  | some target =>
    dsimp only
    split
    · exact Waits.trans h (retargetRecoveryFetch m now target)
    · split
      · exact h
      · split
        · exact h
        · exact Waits.trans h (enterOrphanRepersistRecovery m now)

theorem maybeAdoptInheritedFrontier : Waits n n.maybeAdoptInheritedFrontier := by
  have hadvance (op : OpNumber) : Waits n { n.advanceCheckpointOp op with
      checkpointSmRoot := none, checkpointSessionsRoot := none } := by
    have h := assert n (decide (n.checkpointOp ≤ op))
    exact h
  unfold Node.maybeAdoptInheritedFrontier
  split
  · exact refl n
  · repeat' split
    all_goals first | exact refl n | exact hadvance _

theorem absorbUncorrelatedRoot (role : RootRole) (id : OpId) (state : VsrState) :
    Waits n (n.absorbUncorrelatedRoot now role id state) := by
  unfold Node.absorbUncorrelatedRoot
  extract_lets commitProven n1 raised n2 n3
  have h1 : Waits n n1 := by
    unfold n1
    split
    · exact of_eq rfl
    · exact refl n
  split
  · exact h1
  · have h3 : Waits n n3 := by
      unfold n3
      split <;> exact h1
    exact h3.trans
      ((maybeAdoptInheritedFrontier n3).trans (maybeEnterOrphanRepersistRecovery _ now))

end Waits

/-- A newer configuration retires the members it leaves out, and no one else. -/
theorem swapMembershipInPlace_left (successor : Membership) :
    (n.swapMembershipInPlace now successor).pendingSb = n.pendingSb ∧
      ((n.swapMembershipInPlace now successor).status = n.status ∨
        successor.slotOf n.config.localMember = none) := by
  unfold swapMembershipInPlace
  extract_lets wasPrimary n1 n2 n3 n4 n5
  have h5 : n5.pendingSb = n.pendingSb ∧ n5.status = n.status ∧
      n5.localSlotOpt = successor.slotOf n.config.localMember := by
    unfold n5 n4
    split <;> exact ⟨rfl, rfl, rfl⟩
  obtain ⟨hsb, hstatus, hslot⟩ := h5
  split
  · split
    · rename_i hnone
      refine ⟨?_, .inr ?_⟩
      · unfold retireFromMembership setStatus
        split <;> exact hsb
      · rw [← hslot]
        exact Option.isNone_iff_eq_none.mp hnone
    · exact ⟨hsb, .inl hstatus⟩
  · split <;> exact ⟨rfl, .inl rfl⟩

theorem adoptLandedConfiguration_left (state : VsrState) :
    (n.adoptLandedConfiguration now state).pendingSb = n.pendingSb ∧
      ((n.adoptLandedConfiguration now state).status = n.status ∨
        ∃ successor, state.membership = some successor ∧ n.membership.epoch < successor.epoch ∧
          successor.slotOf n.config.localMember = none) := by
  unfold adoptLandedConfiguration
  split
  · exact ⟨rfl, .inl rfl⟩
  · rename_i successor hsucc
    split
    · exact ⟨rfl, .inl rfl⟩
    · rename_i hepoch
      have hswap := swapMembershipInPlace_left n now successor
      dsimp only
      have hevent (m : Node S) (h : m.pendingSb = n.pendingSb ∧
          (m.status = n.status ∨ successor.slotOf n.config.localMember = none)) :
          m.pendingSb = n.pendingSb ∧ (m.status = n.status ∨
            ∃ s, state.membership = some s ∧ n.membership.epoch < s.epoch ∧
              s.slotOf n.config.localMember = none) :=
        ⟨h.1, h.2.imp_right fun hnone => ⟨successor, hsucc, Nat.lt_of_not_le hepoch, hnone⟩⟩
      split <;> exact hevent _ hswap

/-- Whoever waits for the landed root waited for it before, and is retired only if it was or if the
root leaves it out. -/
theorem onRootLanded_left {n : Node S} {now : Instant} {e : RootEntry} {action : PendingSbAction}
    (hsb : (n.onRootLanded now e).pendingSb = some (e.id, action)) :
    n.pendingSb = some (e.id, action) ∧
      ((n.onRootLanded now e).status = .retired → n.status = .retired ∨
        ∃ successor, e.state.membership = some successor ∧ n.membership.epoch < successor.epoch ∧
          successor.slotOf n.config.localMember = none) := by
  unfold onRootLanded at hsb ⊢
  extract_lets n1 n2 correlated at hsb
  obtain ⟨hsb2, hstatus2⟩ := adoptLandedConfiguration_left n1 now e.state
  split at hsb
  · rename_i hc
    rw [if_pos hc]
    refine ⟨hsb2.symm.trans hsb, fun hret => ?_⟩
    rcases hstatus2 with hsame | hleft
    · exact .inl (hsame.symm.trans hret)
    · exact .inr hleft
  · rename_i hc
    rcases Waits.absorbUncorrelatedRoot n2 now e.role e.id e.state with hw | hw
    · have hn2 : n2.pendingSb = some (e.id, action) := hw.symm.trans hsb
      have hcor : correlated = true := by
        unfold correlated
        simp [hn2]
      exact absurd hcor hc
    · rw [hw] at hsb
      cases hsb

/-! ## Entering recovery -/

theorem dropUnrootedCheckpoint_deferred :
    n.dropUnrootedCheckpoint.deferredAppends = n.deferredAppends := by
  unfold dropUnrootedCheckpoint abandonRoot
  repeat' split
  all_goals rfl

theorem resetForViewTransition_deferred :
    (n.resetForViewTransition now).deferredAppends = .empty := by
  unfold resetForViewTransition
  extract_lets n1 n2 n3 n4 timers n5
  have h4 : n4.deferredAppends = .empty := dropUnrootedCheckpoint_deferred n2
  have h5 : n5.deferredAppends = n4.deferredAppends := by
    unfold n5
    repeat' split
    all_goals rfl
  exact h5.trans h4

theorem abandonPendingSb_deferred : n.abandonPendingSb.deferredAppends = n.deferredAppends := by
  unfold abandonPendingSb abandonRoot
  repeat' split
  all_goals rfl

theorem setStatus_deferred (s : Status) : (n.setStatus s).deferredAppends = n.deferredAppends := by
  unfold setStatus
  split <;> rfl

theorem submitRecoverCheckpointRead_deferred :
    (n.submitRecoverCheckpointRead now).deferredAppends = n.deferredAppends := by
  unfold submitRecoverCheckpointRead submitTrackedCheckpointRead
  split <;> rfl

theorem enterOrphanRepersistRecovery_deferred :
    (n.enterOrphanRepersistRecovery now).deferredAppends = .empty := by
  unfold enterOrphanRepersistRecovery
  extract_lets n1 n2 n3
  have h1 : n1.deferredAppends = .empty := resetForViewTransition_deferred n now
  have h2 : n2.deferredAppends = n1.deferredAppends := abandonPendingSb_deferred _
  have h3 : n3.deferredAppends = n2.deferredAppends := setStatus_deferred _ _
  exact (submitRecoverCheckpointRead_deferred _ now).trans (h3.trans (h2.trans h1))

theorem maybeEnterOrphanRepersistRecovery_deferred {n m : Node S} {now : Instant}
    (h : n.maybeEnterOrphanRepersistRecovery now = (m, .enteredRecovery)) :
    m.deferredAppends = .empty := by
  unfold maybeEnterOrphanRepersistRecovery at h
  generalize n.repersistOrphanOwed = r at h
  obtain ⟨k, owed⟩ := r
  cases owed with
  | none => cases h
  | some target =>
    dsimp only at h
    split at h
    · cases h
    · split at h
      · cases h
      · split at h
        · cases h
        · cases h
          exact enterOrphanRepersistRecovery_deferred k now

theorem commitTail_deferred {pay : Node S → Node S} {n m : Node S} {now : Instant}
    (h : commitTail pay n now = (m, .enteredRecovery)) : m.deferredAppends = .empty := by
  unfold commitTail at h
  dsimp only at h
  split at h
  · rename_i k hk
    cases h
    exact maybeEnterOrphanRepersistRecovery_deferred hk
  · cases h

variable [StateMachine S]

theorem advanceCommit_deferred {n m : Node S} {now : Instant} {target : OpNumber}
    (h : n.advanceCommit now target = (m, .enteredRecovery)) : m.deferredAppends = .empty := by
  unfold advanceCommit advanceCommitWith at h
  split at h
  · cases h
  · dsimp only at h
    split at h
    · cases h
    · exact commitTail_deferred h

theorem tryCommit_deferred {n m : Node S} {now : Instant}
    (h : n.tryCommit now = (m, .enteredRecovery)) : m.deferredAppends = .empty := by
  unfold tryCommit at h
  split at h
  · cases h
  · split at h
    · cases h
    · exact commitTail_deferred h

/-- A completion that ends in a recovery leaves nothing parked. -/
theorem settleAppend_deferred {n m : Node S} {now : Instant} {p : Pending}
    (h : n.settleAppend now p = (m, .enteredRecovery)) : m.deferredAppends = .empty := by
  cases p with
  | ack op =>
    dsimp only [settleAppend] at h
    split at h
    · exact tryCommit_deferred h
    · cases h
  | adoptVote op => exact tryCommit_deferred h
  | adoptAck op => cases h
  | repairFill op e =>
    dsimp only [settleAppend] at h
    split at h
    · exact tryCommit_deferred h
    · exact advanceCommit_deferred h

end Node

/-- Everything a replica does but leave its configuration. -/
def Licence.serving : Licence := { Licence.all with retire := False, late := False }

/-- Everything but an append after having left. -/
def Licence.rooting : Licence := { Licence.all with late := False }

namespace Node

variable {S : Type} [StateMachine S]
variable {op : OpNumber}

/-! ## Completions -/

/-- Nothing is open. -/
abbrev Closed (n : Node S) : Prop := n.face.Parking (fun _ => False) False

theorem releaseDeferredAppend_closed {n m : Node S} (h : n.face.Parking (· = n.face.slot op) True)
    (hm : Moves .serving n m) : (m.releaseDeferredAppend op).Closed := by
  refine releaseDeferredAppend_parking (hm.parking id h) op fun k hk => .inr ?_
  rw [hk]
  unfold Face.slot
  rw [show m.face.capacity = n.face.capacity from hm.sameRing.capacity]

/-- The handler of a completed append closes the slot the completion opened. -/
theorem onAppended_closed {n : Node S} (now : Instant) (write : OpId)
    (h : n.face.Parking (· = n.face.slot op) True) : (n.onAppended now write (some op)).Closed := by
  unfold onAppended
  split
  · exact releaseDeferredAppend_closed h (Moves.refl n)
  · rename_i p hp
    extract_lets n1
    have h1 : Moves .serving n n1 := Moves.single (.settle write.seq rfl)
    have hsettle := h1.trans (Acts.settleAppend trivial n1 now p).moves
    split
    · rename_i m hm
      rw [hm] at hsettle
      have hempty := settleAppend_deferred hm
      refine (hsettle.parking id h).idle fun k => ?_
      rw [show m.face.deferredAppends = .empty from hempty]
      rfl
    · rename_i m hm
      rw [hm] at hsettle
      exact releaseDeferredAppend_closed h hsettle

/-- The handler of a completion closes the slot the completion opened. -/
theorem onWalDone_closed {n : Node S} (now : Instant) {done : WalDone}
    (hdone : done = .appended done.id ∨ done = .cancelled done.id)
    (h : n.face.Parking (· = n.face.slot op) True) : (n.onWalDone now done (some op)).Closed := by
  unfold onWalDone
  split
  · exact releaseDeferredAppend_closed h (Moves.refl n)
  · split
    · rcases hdone with hd | hd
      · rw [hd]
        exact releaseDeferredAppend_closed h (Moves.refl n)
      · rw [hd]
        exact releaseDeferredAppend_closed h (Moves.refl n)
    · split
      · rename_i hret
        cases hp : n.panicked with
        | true => exact ⟨h.fits, h.booked, fun hp' => absurd (hp.symm.trans hp') nofun⟩
        | false => exact h.idle ((h.parked hp).retired hret)
      · rename_i hret
        rcases hdone with hd | hd
        · rw [hd]
          exact onAppended_closed now done.id h
        · rw [hd]
          exact releaseDeferredAppend_closed h
            (Acts.onAppendCancelled n done.id fun hr => absurd hr hret).moves

end Node

/-- The write to the superblock an input reports. -/
def Input.wrote {S : Type} (s : Storage) : Input S → Option OpId
  | .rootDone _ => s.rootFront.map RootEntry.id
  | .checkpointDone _ id => some id
  | _ => none

namespace Node

variable {S : Type}
variable {n n' : Node S} {i : Input S} {id : OpId} {s s' : Storage} {done : WalDone} {boot : Boot S}

/-- The acknowledgements of an adopted StartView come due at a replica that has left its
configuration, or that the landing root leaves out. -/
def acksAfterLeaving (n : Node S) (i : Input S) : Bool :=
  match i.wrote n.storage, n.pendingSb with
  | some id, some (awaited, .adoptedStartView) =>
    id == awaited && (n.status == .retired ||
      n.storage.rootFront.any fun e => e.state.membership.any fun successor =>
        decide (n.membership.epoch < successor.epoch) &&
          (successor.slotOf n.config.localMember).isNone)
  | _, _ => false

/-- A replica that acknowledges is a member, and stays one. -/
theorem member_of_acks (h : n.acksAfterLeaving i = false)
    (hw : i.wrote n.storage = some id) (hsb : n.pendingSb = some (id, .adoptedStartView)) :
    n.status ≠ .retired ∧ ∀ e successor, n.storage.rootFront = some e →
      e.state.membership = some successor → n.membership.epoch < successor.epoch →
      successor.slotOf n.config.localMember ≠ none := by
  unfold acksAfterLeaving at h
  rw [hw, hsb] at h
  simp only [beq_self_eq_true, Bool.true_and, Bool.or_eq_false_iff, beq_eq_false_iff_ne] at h
  refine ⟨h.1, fun e successor he hm hlt hnone => ?_⟩
  have hno := h.2
  rw [he, Option.any_some, hm, Option.any_some, decide_eq_true hlt, hnone] at hno
  cases hno

variable [StateMachine S] in
/-- A running endpoint makes moves, once the device has done its part. -/
theorem handle_moves (h : n.handle i = some n') (hacks : n.acksAfterLeaving i = false) :
    Moves .rooting (n.received i) n' := by
  refine (handle_deeds (K := .rooting) trivial trivial h (fun _ => trivial) (fun _ => trivial)
    fun hlate => ?_).moves
  cases i with
  | rootDone now =>
    obtain ⟨e, hfront, hsb, hret⟩ := hlate
    have hwrote : (Input.rootDone now : Input S).wrote n.storage = some e.id := by
      rw [Input.wrote, hfront]
      rfl
    obtain ⟨hsb', hleft⟩ := onRootLanded_left hsb
    obtain ⟨hserving, hseated⟩ := member_of_acks hacks hwrote hsb'
    rcases hleft hret with hold | ⟨successor, hm, hepoch, hslot⟩
    · exact hserving hold
    · exact hseated e successor hfront hm hepoch hslot
  | checkpointDone now id =>
    obtain ⟨hsb, hret⟩ := hlate
    exact (member_of_acks hacks rfl hsb).1 hret
  | _ => exact hlate.elim

/-! ## One step -/

/-- The ring of the WAL has no bound, or it is smaller than the quota of the session. -/
def RingFits (n : Node S) : Prop :=
  n.storage.capacity = unboundedCapacity ∨ n.storage.capacity < n.storage.effectiveQuota

theorem RingFits.face (h : n.RingFits) : n.face.RingFits := by
  by_cases hunb : n.storage.capacity = unboundedCapacity
  · refine .inl fun a b hab => ?_
    unfold Face.slot at hab
    rwa [show n.face.capacity = unboundedCapacity from hunb, if_pos rfl, if_pos rfl] at hab
  · rcases Nat.eq_zero_or_pos n.storage.capacity with hzero | hpos
    · refine .inl fun a b hab => ?_
      unfold Face.slot at hab
      rw [show n.face.capacity = 0 from hzero, if_neg (by decide), if_neg (by decide)] at hab
      rwa [Nat.mod_zero, Nat.mod_zero] at hab
    · exact .inr ⟨hunb, hpos, h.resolve_left hunb⟩

theorem RingFits.of_sameRing (h : n.storage.SameRing n'.storage) (hr : n'.RingFits) :
    n.RingFits := by
  unfold RingFits at hr ⊢
  rwa [h.capacity, h.quota] at hr

/-- The device changes something else, at most the quota of a session that has not appended. -/
theorem parking_storage {X : Nat → Prop} {slack : Prop} (h : n.face.Parking X slack)
    (hc : s.capacity = n.storage.capacity) (hw : s.walWrites = n.storage.walWrites)
    (hq : s.appendQuota = n.storage.appendQuota) (hr : { n with storage := s }.RingFits) :
    { n with storage := s }.face.Parking X slack := by
  have hfits := hr.face
  have hface : { n with storage := s }.face = { n.face with quota := s.effectiveQuota } := by
    unfold face
    rw [hc, hw, hq]
    rfl
  rw [hface] at hfits ⊢
  refine ⟨hfits, ⟨h.booked.slots, h.booked.ids, h.booked.minted, s.effectiveQuota_pos, ?_⟩, ?_⟩
  · intro hne
    exact (if_pos (hq ▸ hne)).trans hq
  · intro hp
    have hpk := h.parked hp
    exact ⟨hpk.slot, hpk.quota, hpk.ring, hpk.retired⟩

/-- A write leaves the ledger: its slot is open. -/
theorem parking_retire (h : n.Closed) {w : WalWrite} (hw : w ∈ n.storage.walWrites)
    (hc : s.capacity = n.storage.capacity)
    (hws : s.walWrites = n.storage.walWrites.filter fun w' => w'.id ≠ w.id)
    (hq : s.appendQuota = n.storage.appendQuota) (hl : s.landed = n.storage.landed) :
    { n with storage := s }.face.Parking (· = { n with storage := s }.face.slot w.op) True := by
  have hquota : s.effectiveQuota = n.storage.effectiveQuota := by
    unfold Storage.effectiveQuota
    rw [hq, hl]
  have hface : { n with storage := s }.face = { n.face with
      walWrites := n.storage.walWrites.filter fun w' => w'.id ≠ w.id } := by
    unfold face
    rw [hc, hws, hq, hquota]
    rfl
  rw [hface]
  have hgone : ∀ w' ∈ n.face.walWrites,
      w' ∈ n.storage.walWrites.filter (fun w' => w'.id ≠ w.id) ∨ w' ∈ [w] := by
    intro w' hw'
    by_cases hid : w'.id = w.id
    · exact .inr (mem_singleton.mpr (inj_on_of_nodup_map h.booked.ids hw' hw hid))
    · exact .inl (mem_filter.mpr ⟨hw', decide_eq_true hid⟩)
  refine (h.retire filter_sublist hgone nofun).mono (fun k hk => ?_) fun _ => trivial
  obtain ⟨w', hw', hk⟩ := hk.resolve_left id
  rw [← hk, mem_singleton.mp hw']
  rfl

theorem completeAppend_eq {freed : Option OpNumber}
    (h : s.completeAppend id = some (s', done, freed)) :
    ∃ w ∈ s.walWrites, s' = ((s.land w).retireWalWrite w.id).1 ∧ done = .appended w.id ∧
      freed = some w.op := by
  unfold Storage.completeAppend at h
  split at h
  · cases h
  · rename_i w hw
    have hid : w.id = id := by simpa using find?_some hw
    subst hid
    cases h
    refine ⟨w, mem_of_find?_eq_some hw, rfl, rfl, ?_⟩
    show (s.walWrites.find? fun w' => w'.id = w.id).map (·.op) = some w.op
    rw [hw]
    rfl

theorem cancelAppend_eq {freed : Option OpNumber}
    (h : s.cancelAppend id = some (s', done, freed)) :
    ∃ w ∈ s.walWrites, s' = (s.retireWalWrite w.id).1 ∧ done = .cancelled w.id ∧
      freed = some w.op := by
  unfold Storage.cancelAppend at h
  split at h
  · rename_i hany
    obtain ⟨w, hw⟩ : ∃ w, s.walWrites.find? (fun w => w.id = id) = some w := by
      rw [← Option.isSome_iff_exists, find?_isSome]
      exact any_eq_true.mp hany
    have hid : w.id = id := by simpa using find?_some hw
    subst hid
    cases h
    refine ⟨w, mem_of_find?_eq_some hw, rfl, rfl, ?_⟩
    show (s.walWrites.find? fun w' => w'.id = w.id).map (·.op) = some w.op
    rw [hw]
    rfl
  · cases h

variable [StateMachine S]

/-- An input either completes an append, which opens a slot, or leaves the ledger alone. -/
theorem handle_closed (hn : n.Closed) (h : n.handle i = some n')
    (hacks : n.acksAfterLeaving i = false) (hr : n'.RingFits) :
    n'.Closed ∧ ∃ X slack, (n.received i).face.Parking X slack := by
  have hmoves := handle_moves h hacks
  have hfits : (n.received i).RingFits := hr.of_sameRing hmoves.sameRing
  have hsame (hi : i.endsAppend = false) :
      n'.Closed ∧ ∃ X slack, (n.received i).face.Parking X slack := by
    have hs := n.storage.settles_after i
    have hpark : (n.received i).Closed :=
      parking_storage hn hs.capacity (hs.appends hi) hs.appendQuota hfits
    exact ⟨hmoves.parking id hpark, _, _, hpark⟩
  cases i with
  | appendDone now id =>
    obtain ⟨⟨s, done, freed⟩, hs, rfl⟩ := Option.map_eq_some_iff.mp h
    obtain ⟨w, hw, rfl, rfl, rfl⟩ := completeAppend_eq hs
    have hpark := parking_retire hn hw (s := ((n.storage.land w).retireWalWrite w.id).1) rfl rfl
      rfl rfl
    refine ⟨onWalDone_closed now (.inl rfl) hpark, ?_⟩
    rw [received, Storage.after, hs]
    exact ⟨_, _, hpark⟩
  | appendCancelled now id =>
    obtain ⟨⟨s, done, freed⟩, hs, rfl⟩ := Option.map_eq_some_iff.mp h
    obtain ⟨w, hw, rfl, rfl, rfl⟩ := cancelAppend_eq hs
    have hpark := parking_retire hn hw (s := (n.storage.retireWalWrite w.id).1) rfl rfl rfl rfl
    refine ⟨onWalDone_closed now (.inr rfl) hpark, ?_⟩
    rw [received, Storage.after, hs]
    exact ⟨_, _, hpark⟩
  | _ => exact hsame rfl

/-! ## Runs -/

/-- The replica comes from one whose writes are booked and that has parked nothing. -/
def Fresh (n : Node S) : Prop :=
  ∃ e : Node S, e.face.Booked ∧ (∀ op, e.deferredAppends.get? op = none) ∧ Moves .rooting e n

theorem Fresh.booked (h : n.Fresh) : n.face.Booked := by
  obtain ⟨e, he, -, hmoves⟩ := h
  exact hmoves.booked he

theorem Fresh.closed (h : n.Fresh) (hr : n.RingFits) : n.Closed := by
  obtain ⟨e, he, hempty, hmoves⟩ := h
  refine hmoves.parking id ⟨(hr.of_sameRing hmoves.sameRing).face, he, fun _ => ?_⟩
  have hnone {op : OpNumber} {d : DeferredAppend} {p : Prop}
      (hd : e.face.deferredAppends.get? op = some d) : p :=
    absurd ((hempty op).symm.trans hd) nofun
  exact ⟨fun _ _ hd _ => hnone hd, fun _ _ hd _ => hnone hd, fun _ _ hd _ => hnone hd,
    fun _ => hempty⟩

omit [StateMachine S] in
/-- A new incarnation finds the writes of the old ones under their ids. -/
theorem empty_booked {config : Config} {membership : Membership} {sm : S} {nonce incarnation : Nat}
    {history : History} (hslots : (s.walWrites.map fun w => s.canonicalSlot w.op).Nodup)
    (hids : (s.walWrites.map WalWrite.id).Nodup)
    (hold : ∀ w ∈ s.walWrites, w.id.incarnation < incarnation) :
    (empty config membership sm nonce incarnation s history).face.Booked :=
  ⟨hslots, hids, fun w hw => .inl (hold w hw), s.effectiveQuota_pos, fun hne => if_pos hne⟩

theorem start_fresh (h : Start boot n) : n.Fresh := by
  obtain ⟨_, _, s, ⟨hnil, -, -⟩, hacts⟩ := h.acts (K := .rooting) trivial
  exact ⟨_, empty_booked (by simp [hnil]) (by simp [hnil]) (by simp [hnil]), fun _ => rfl,
    hacts.moves⟩

omit [StateMachine S] in
/-- The device changes something else and lets go of writes at most. -/
theorem booked_storage (hn : n.face.Booked) (hc : s.capacity = n.storage.capacity)
    (hws : s.walWrites.Sublist n.storage.walWrites) : { n with storage := s }.face.Booked where
  slots := by
    have hslot : { n with storage := s }.face.slot = n.face.slot := by
      funext op
      have hcapacity : { n with storage := s }.face.capacity = n.face.capacity := hc
      unfold Face.slot
      rw [hcapacity]
    rw [hslot]
    exact hn.slots.sublist (hws.map _)
  ids := hn.ids.sublist (hws.map _)
  minted w hw := hn.minted w (hws.subset hw)
  positive := s.effectiveQuota_pos
  latched hne := if_pos hne

theorem reboot_fresh {lane : List BlockJob} {nonce : Nat} (hn : n.face.Booked)
    (hc : s.capacity = n.storage.capacity) (hws : s.walWrites.Sublist n.storage.walWrites)
    (h : n.reboot boot s lane nonce = some n') : n'.Fresh := by
  obtain ⟨_, hacts⟩ := Acts.reboot (K := .rooting) trivial h
  have hs := booked_storage hn hc hws
  refine ⟨_, empty_booked (s := s.collapseParkedRoots) hs.slots hs.ids fun w hw => ?_,
    fun _ => rfl, hacts.moves⟩
  rcases hs.minted w hw with hlt | ⟨heq, -⟩
  · exact Nat.lt_succ_of_lt hlt
  · exact Nat.lt_succ_of_le heq.le

/-- In every state a replica reaches its writes in flight are booked. -/
theorem Reachable.booked (h : Reachable boot n) : n.face.Booked := by
  induction h with
  | start h => exact (start_fresh h).booked
  | @step n n' i _ hs ih =>
    have hhandle (h : (if n.panicked then none else n.handle i) = some n') : n'.face.Booked := by
      obtain ⟨-, h⟩ := Option.ite_none_left_eq_some.mp h
      have hdeeds := handle_deeds (K := .all) trivial trivial h (fun _ => trivial)
        (fun _ => trivial) fun _ => trivial
      have hsettles := n.storage.settles_after i
      exact hdeeds.moves.booked (booked_storage ih hsettles.capacity hsettles.walWrites)
    cases i with
    | rot | cancels =>
      cases hs
      exact booked_storage ih rfl (Sublist.refl _)
    | crash lands nonce =>
      exact (reboot_fresh (s := n.storage.crash lands) ih rfl (nil_sublist _) hs).booked
    | restart nonce => exact (reboot_fresh ih rfl (Sublist.refl _) hs).booked
    | _ => exact hhandle hs

theorem step_closed (hn : n.Closed) (h : n.step boot i = some n')
    (hacks : n.acksAfterLeaving i = false) (hr : n'.RingFits) : n'.Closed := by
  have hhandle (h : (if n.panicked then none else n.handle i) = some n') : n'.Closed := by
    obtain ⟨-, h⟩ := Option.ite_none_left_eq_some.mp h
    exact (handle_closed hn h hacks hr).1
  cases i with
  | rot | cancels =>
    cases h
    exact parking_storage hn rfl rfl rfl hr
  | crash lands nonce =>
    exact (reboot_fresh (s := n.storage.crash lands) hn.booked rfl (nil_sublist _) h).closed hr
  | restart nonce => exact (reboot_fresh hn.booked rfl (Sublist.refl _) h).closed hr
  | _ => exact hhandle h

/-- Each parked append has something in flight ahead of it. -/
structure Woken (n : Node S) : Prop where
  slot : ∀ op d, n.deferredAppends.get? op = some d → d.reason = .slot →
    n.storage.slotWriteInFlight op = true
  quota : ∀ op d, n.deferredAppends.get? op = some d → d.reason = .quota →
    n.storage.appendQuota ≠ 0 ∧ n.storage.appendQuota ≤ n.storage.walWrites.length

omit [StateMachine S] in
theorem Closed.woken (h : n.Closed) (hp : n.panicked = false) : n.Woken where
  slot op d hd hr := (fenced_iff n op).mp (((h.parked hp).slot op d hd hr).resolve_right id)
  quota op d hd hr := ((h.parked hp).quota op d hd hr).resolve_right id

omit [StateMachine S] in
/-- When nothing is ahead of an op any more, it is not parked. -/
theorem Woken.get?_eq_none (h : n.Woken) {op : OpNumber}
    (hslot : n.storage.slotWriteInFlight op = false)
    (hquota : n.storage.walWrites.length < n.storage.effectiveQuota) :
    n.deferredAppends.get? op = none := by
  cases hd : n.deferredAppends.get? op with
  | none => rfl
  | some d =>
    cases hr : d.reason with
    | slot =>
      have hfenced := h.slot op d hd hr
      rw [hslot] at hfenced
      cases hfenced
    | quota =>
      obtain ⟨hne, hle⟩ := h.quota op d hd hr
      rw [Storage.effectiveQuota, if_pos hne] at hquota
      exact absurd hquota (Nat.not_lt.mpr hle)

/-- The runs whose ring fits their quota and in which no replica acknowledges a view after it has
left its configuration. -/
inductive Orderly (boot : Boot S) : Node S → Prop
  | start {n : Node S} (h : Start boot n) (hr : n.RingFits) : Orderly boot n
  | step {n n' : Node S} (i : Input S) (h : Orderly boot n) (hs : n.step boot i = some n')
      (hacks : n.acksAfterLeaving i = false) (hr : n'.RingFits) : Orderly boot n'

theorem Orderly.reachable (h : Orderly boot n) : Reachable boot n := by
  induction h with
  | start h _ => exact .start h
  | step i _ hs _ _ ih => exact .step i ih hs

theorem Orderly.closed (h : Orderly boot n) : n.Closed := by
  induction h with
  | start h hr => exact (start_fresh h).closed hr
  | step i _ hs hacks hr ih => exact step_closed ih hs hacks hr

/-- No lost wake-up: what is parked for a slot has a write on that slot in flight, what is parked
for the quota finds it full, and a parked append leaves the table by being handed to the session,
the lower of two that share a slot first, or by a supersession with a name. -/
theorem deferred_appends_wake (h : Orderly boot n)
    (hp : n.panicked = false) :
    n.Woken ∧
    (∀ op, n.storage.slotWriteInFlight op = false →
      n.storage.walWrites.length < n.storage.effectiveQuota → n.deferredAppends.get? op = none) ∧
    ∀ i n', n.handle i = some n' → n.acksAfterLeaving i = false → n'.RingFits →
      n'.panicked = false → ∀ op d, n.deferredAppends.get? op = some d →
        n'.face.Keeps op d ∨ Leaves .all op d (n.received i) n' := by
  have hclosed := h.closed
  have hwoken := hclosed.woken hp
  refine ⟨hwoken, fun op hslot hquota => hwoken.get?_eq_none hslot hquota, ?_⟩
  intro i n' hi hacks hr hp' op d hd
  obtain ⟨-, X, slack, hpark⟩ := handle_closed hclosed hi hacks hr
  have hmoves := handle_moves hi hacks
  refine (hmoves.fate id hp' hpark hd).imp_right ?_
  rintro ⟨m, m', hm, hkept, hmove, hm', hleft⟩
  exact ⟨m, m', hm.mono (Licence.le_all _), hkept, hmove.mono (Licence.le_all _),
    hm'.mono (Licence.le_all _), hleft⟩

/-- Over every run, crashes and restarts included, no two appends in flight share a slot of the ring
or an id, and none has the id that the next write will get. -/
theorem appends_in_flight_apart (h : Reachable boot n) :
    (n.storage.walWrites.map fun w => n.storage.canonicalSlot w.op).Nodup ∧
      (n.storage.walWrites.map WalWrite.id).Nodup ∧
      ∀ w ∈ n.storage.walWrites, w.id ≠ n.nextId := by
  have hbooked := h.booked
  refine ⟨hbooked.slots, hbooked.ids, fun w hw hid => ?_⟩
  have hminted := hbooked.minted w hw
  rw [hid] at hminted
  rcases hminted with hlt | ⟨-, hlt⟩
  · exact lt_irrefl _ hlt
  · exact lt_irrefl _ hlt

/-! ## A parked append, and a stranded one -/

instance (n : Node S) : Decidable n.RingFits := inferInstanceAs (Decidable (_ ∨ _))

theorem Orderly.step_get (h : Orderly boot n) (i : Input S) (hs : (n.step boot i).isSome = true)
    (hacks : n.acksAfterLeaving i = false) (hr : ((n.step boot i).get hs).RingFits) :
    Orderly boot ((n.step boot i).get hs) :=
  .step i h (Option.some_get hs).symm hacks hr

/-- Member 9 of the group of three voters and a learner. -/
def backupBoot : Boot Tally := ⟨{ cluster := 1, localMember := 9 }, trioMembership, {}⟩

def backupStart : Node Tally := (genesis backupBoot 5 { capacity := 64 }).get (by decide +kernel)

/-- It takes op 1, -/
def backupPrepared : Node Tally :=
  (backupStart.step backupBoot (.message 0 (.replica 0)
    (.prepare ⟨0, 1, 0, 0, 0, trioMembership.configId, 21, 1, [5]⟩))).get (by decide +kernel)

/-- adopts view 1, which holds the same op, -/
def backupAdopted : Node Tally :=
  (backupPrepared.step backupBoot (.message 0 (.replica 1)
    (.startView ⟨1, 1, 0, 0, 0, trioMembership.configId, 1,
      [⟨1, 21, 1, .repairing (fnv1a128 [5])⟩]⟩))).get (by decide +kernel)

/-- and parks its second append of op 1 behind the first. -/
def backupParked : Node Tally :=
  (backupAdopted.step backupBoot (.rootDone 0)).get (by decide +kernel)

theorem orderly_backupParked : Orderly backupBoot backupParked := by
  have hstart : Orderly backupBoot backupStart :=
    .start (.genesis 5 _ _ rfl (Option.some_get _).symm) (by decide +kernel)
  have hprepared : Orderly backupBoot backupPrepared :=
    hstart.step_get _ _ (by decide +kernel) (by decide +kernel)
  have hadopted : Orderly backupBoot backupAdopted :=
    hprepared.step_get _ _ (by decide +kernel) (by decide +kernel)
  exact hadopted.step_get _ _ (by decide +kernel) (by decide +kernel)

theorem deferred_appends_wake_backup :
    backupParked.deferredAppends.contains 1 = true ∧ backupParked.panicked = false ∧
      backupParked.Woken :=
  ⟨by decide +kernel, by decide +kernel,
    (deferred_appends_wake orderly_backupParked (by decide +kernel)).1⟩

theorem appends_in_flight_apart_backup :
    backupParked.storage.walWrites.map WalWrite.op = [1] ∧
      ∀ w ∈ backupParked.storage.walWrites, w.id ≠ backupParked.nextId :=
  ⟨by decide +kernel, (appends_in_flight_apart orderly_backupParked.reachable).2.2⟩

/-- The learner of the same group. -/
def learnerBoot : Boot Tally := ⟨{ cluster := 1, localMember := 10 }, trioMembership, {}⟩

def learnerStart : Node Tally := (genesis learnerBoot 5 { capacity := 64 }).get (by decide +kernel)

/-- The group without its learner. -/
def dismissal : ReconfigurePayload :=
  .fromMembership ((trioMembership.applyDelta (.removeLearner 10)).toOption.get (by decide +kernel))
    trioMembership.configId

/-- The learner commits its own removal, adopts a view while the removal is on its way to the
medium, and acknowledges that view after the removal has landed: op 2 waits for a write that a
retired replica does not release. -/
def strandingRun : List (Input Tally) :=
  [.message 0 (.replica 0) (.prepare ⟨0, 1, 0, 0, 0, trioMembership.configId,
      ClientId.reconfiguration, 1, dismissal.encodeBody⟩),
    .appendDone 0 ⟨1, 1⟩,
    .message 0 (.replica 0) (.prepare ⟨0, 2, 1, 0, 0, trioMembership.configId, 21, 1, [5]⟩),
    .message 0 (.replica 1) (.startView ⟨1, 2, 1, 0, 0, trioMembership.configId, 1,
      [⟨1, ClientId.reconfiguration, 1, .reconfigure dismissal⟩,
        ⟨2, 21, 1, .repairing (fnv1a128 [5])⟩]⟩),
    .rootDone 0,
    .rootDone 0,
    .appendDone 0 ⟨1, 3⟩]

def strandedLearner : Node Tally :=
  (learnerStart.run learnerBoot strandingRun).get (by decide +kernel)

theorem retired_learner_strands_append :
    ∃ n : Node Tally, Reachable learnerBoot n ∧ n.panicked = false ∧ n.RingFits ∧
      n.storage.walWrites = [] ∧ ∃ d, n.deferredAppends.get? 2 = some d ∧ d.reason = .slot := by
  have hstart : Reachable learnerBoot learnerStart :=
    .start (.genesis 5 _ _ rfl (Option.some_get _).symm)
  refine ⟨strandedLearner, hstart.run strandingRun (Option.some_get _).symm, ?_⟩
  refine ⟨by decide +kernel, by decide +kernel, by decide +kernel, ?_⟩
  have hparked : (strandedLearner.deferredAppends.get? 2).map DeferredAppend.reason =
      some .slot := by
    decide +kernel
  obtain ⟨d, hd, hr⟩ := Option.map_eq_some_iff.mp hparked
  exact ⟨d, hd, hr⟩

end Node

end Viewstamp
