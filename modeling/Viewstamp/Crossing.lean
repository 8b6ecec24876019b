import Viewstamp.Run

/- Installing a configuration, in memory and on the medium.

   Four paths rebuild the same four fields: the landing of a root
   (`adoptLandedConfiguration`), the install of a synced checkpoint
   (`installSync`), the commit-first swap (`installMembership`), and a recovery
   from the root. Each path is summarised by the configuration it leaves, and the
   summaries are compared with the configuration its root records. -/
namespace Viewstamp

/-- The configuration fields of an endpoint. -/
structure Configuration where
  membership : Membership
  prevEpoch : Epoch
  lineage : Checksum × Checksum
  installOp : OpNumber
  deriving DecidableEq

/-- What a recovery reads back from a root. -/
def VsrState.configuration (st : VsrState) (fallback : Membership) : Configuration where
  membership := st.membership.getD fallback
  prevEpoch := st.prevEpoch
  lineage := Node.lineageOf (st.membership.getD fallback).configId st.priorConfigIds
  installOp := st.configInstallOp

namespace Node

variable {S : Type}
variable (n : Node S) (now : Instant) (install : PendingInstall) (op : OpNumber)
variable {successor : Membership} {verifiedPrev : Checksum} {installOp : OpNumber} {st : VsrState}

def configuration (n : Node S) : Configuration :=
  ⟨n.membership, n.prevEpoch, n.lineage, n.configInstallOp⟩

/-! ## What leaves the configuration alone -/

@[simp] theorem configuration_assert (c : Bool) : (n.assert c).configuration = n.configuration := by
  unfold assert
  split <;> rfl

@[simp] theorem configuration_setStatus (s : Status) :
    (n.setStatus s).configuration = n.configuration := by
  unfold setStatus
  split <;> rfl

@[simp] theorem configuration_retireFromMembership :
    n.retireFromMembership.configuration = n.configuration :=
  configuration_setStatus _ _

@[simp] theorem configuration_setCommitMin : (n.setCommitMin op).configuration = n.configuration :=
  configuration_assert n _

@[simp] theorem configuration_advanceCheckpointOp :
    (n.advanceCheckpointOp op).configuration = n.configuration :=
  configuration_assert n _

@[simp] theorem configuration_trimLogToCheckpoint (floor checkpointFloor : OpNumber) :
    (n.trimLogToCheckpoint floor checkpointFloor).configuration = n.configuration :=
  configuration_assert n _

@[simp] theorem configuration_clearIdleRepairRetry :
    n.clearIdleRepairRetry.configuration = n.configuration := by
  unfold clearIdleRepairRetry
  split <;> rfl

@[simp] theorem configuration_issueBlockJob (kind : BlockJobKind) :
    (n.issueBlockJob kind).configuration = n.configuration := by
  unfold issueBlockJob
  dsimp only
  split <;> exact configuration_assert _ _

@[simp] theorem configuration_issueSmRestore :
    n.issueSmRestore.configuration = n.configuration := by
  unfold issueSmRestore
  split
  · rfl
  · split
    · rfl
    · exact configuration_issueBlockJob n _

@[simp] theorem configuration_abandonPendingSb :
    n.abandonPendingSb.configuration = n.configuration := by
  unfold abandonPendingSb abandonRoot
  split
  · split <;> rfl
  · rfl

/-! ## The install paths -/

/-- The swap itself replaces the membership and nothing else of the configuration. -/
theorem configuration_swapMembershipInPlace (successor : Membership) :
    (n.swapMembershipInPlace now successor).configuration =
      { n.configuration with membership := successor } := by
  unfold swapMembershipInPlace
  extract_lets wasPrimary n1 n2 n3 n4 n5
  have h3 : n3.configuration = { n.configuration with membership := successor } := rfl
  have h5 : n5.configuration = n3.configuration := by
    unfold n5 n4
    split <;> rfl
  rw [← h3]
  split
  · split
    · exact (configuration_retireFromMembership _).trans h5
    · exact h5
  · split <;> rfl

theorem configuration_pushLineage (superseded : Checksum) :
    (n.pushLineage superseded).configuration =
      { n.configuration with lineage := (superseded, n.configuration.lineage.1) } := rfl

/-- An install that is not refused records the configuration it leaves and its epoch. -/
theorem configuration_installMembership (op : Option OpNumber)
    (hid : successor.configId ≠ n.membership.configId)
    (hepoch : n.membership.epoch < successor.epoch) :
    (n.installMembership now op successor).configuration =
      ⟨successor, n.membership.epoch, n.lineageAfterPush n.membership.configId,
        op.getD n.configInstallOp⟩ := by
  unfold installMembership
  rw [if_neg hid, if_neg (Nat.not_le.mpr hepoch)]
  extract_lets n1 prior n2 n3
  have h1 : n1.configuration = n.configuration := configuration_assert n _
  have hswap : n2.configuration = ⟨successor, n1.configuration.membership.epoch,
      n1.configuration.lineage, n1.configuration.installOp⟩ :=
    configuration_swapMembershipInPlace _ now successor
  have hpush : n3.configuration = { n2.configuration with
      lineage := (n1.configuration.membership.configId, n2.configuration.lineage.1) } :=
    configuration_pushLineage n2 prior
  rw [hswap, h1] at hpush
  cases op with
  | none => exact hpush
  | some op =>
    show { n3.configuration with installOp := op } = _
    rw [hpush]
    rfl

theorem configuration_installMembership_stale (op : Option OpNumber)
    (hepoch : successor.epoch ≤ n.membership.epoch) :
    (n.installMembership now op successor).configuration = n.configuration := by
  unfold installMembership
  rw [if_pos hepoch]
  split <;> rfl

/-- A landed root installs the configuration it records. -/
theorem configuration_adoptLandedConfiguration (st : VsrState)
    (hmember : st.membership = some successor) (hepoch : n.membership.epoch < successor.epoch) :
    (n.adoptLandedConfiguration now st).configuration = st.configuration n.membership := by
  unfold adoptLandedConfiguration VsrState.configuration
  rw [hmember]
  dsimp -zeta only
  rw [if_neg (Nat.not_le.mpr hepoch)]
  extract_lets completed n1 n2
  have h1 : n1.configuration = { n.configuration with membership := successor } :=
    configuration_swapMembershipInPlace n now successor
  have hmem : n1.membership = successor := congrArg Configuration.membership h1
  have h2 : n2.configuration = ⟨successor, st.prevEpoch, lineageOf successor.configId
      st.priorConfigIds, st.configInstallOp⟩ := by
    unfold n2 configuration
    rw [hmem]
  cases completed with
  | none | some => exact h2

/-- A root that does not advance the epoch installs nothing. -/
theorem configuration_adoptLandedConfiguration_stale (st : VsrState)
    (hmember : st.membership = some successor) (hepoch : successor.epoch ≤ n.membership.epoch) :
    (n.adoptLandedConfiguration now st).configuration = n.configuration := by
  unfold adoptLandedConfiguration
  rw [hmember]
  dsimp only
  rw [if_pos hepoch]

/-- The lineage of a crossing: the verified predecessor on top of the own configuration, which is
pushed once when the two are the same. -/
def crossingLineage (n : Node S) (verifiedPrev : Checksum) : Checksum × Checksum :=
  if verifiedPrev ≠ n.membership.configId then (verifiedPrev, n.membership.configId)
  else n.lineageAfterPush n.membership.configId

/-- The crossing part of an install that advances the epoch. -/
theorem configuration_installCrossing
    (hsucc : install.successor = some successor)
    (hprev : install.successorPrevConfigId = some verifiedPrev)
    (hop : install.successorInstallOp = some installOp)
    (hid : successor.configId ≠ n.membership.configId)
    (hepoch : n.membership.epoch < successor.epoch) :
    (n.installCrossing now install).configuration =
      ⟨successor, successor.epoch - 1, n.crossingLineage verifiedPrev, installOp⟩ := by
  unfold installCrossing
  rw [hsucc]
  dsimp -zeta only
  extract_lets n1 prior m1 m2 m3 n2 n3
  have hm1 : m1.configuration = ⟨successor, n.membership.epoch,
      n.lineageAfterPush n.membership.configId, n.configInstallOp⟩ :=
    configuration_installMembership n1 now none hid hepoch
  have hm2 : m2.configuration = ⟨successor, successor.epoch - 1,
      n.lineageAfterPush n.membership.configId, n.configInstallOp⟩ := by
    show { m1.configuration with prevEpoch := m1.configuration.membership.epoch - 1 } = _
    rw [hm1]
  have hm3 : m3.configuration = ⟨successor, successor.epoch - 1, n.crossingLineage verifiedPrev,
      n.configInstallOp⟩ := by
    unfold m3 crossingLineage
    rw [hprev]
    dsimp only
    split
    · rw [configuration_pushLineage, hm2]
      rfl
    · exact hm2
  have h2 : n2.configuration =
      ⟨successor, successor.epoch - 1, n.crossingLineage verifiedPrev, installOp⟩ := by
    unfold n2
    rw [if_pos (show n1.membership.epoch < successor.epoch from hepoch), hop]
    show { m3.configuration with installOp := installOp } = _
    rw [hm3]
  have h3 : n3.configuration = n2.configuration := rfl
  rw [← h2, ← h3]
  split
  · exact configuration_abandonPendingSb n3
  · rfl

/-- An install whose successor is not ahead leaves the configuration alone. -/
theorem configuration_installCrossing_stale (hsucc : install.successor = some successor)
    (hepoch : successor.epoch ≤ n.membership.epoch) :
    (n.installCrossing now install).configuration = n.configuration := by
  unfold installCrossing
  rw [hsucc]
  dsimp -zeta only
  extract_lets n1 _ _ _ _ n2 n3
  have h2 : n2.configuration = n.configuration := by
    unfold n2
    rw [if_neg (show ¬ n1.membership.epoch < successor.epoch from Nat.not_lt.mpr hepoch)]
    rfl
  have h3 : n3.configuration = n2.configuration := rfl
  rw [← h2, ← h3]
  split
  · exact configuration_abandonPendingSb n3
  · rfl

/-- The frontier of an install moves the node, not its configuration. -/
theorem configuration_installSync :
    ∃ m : Node S, m.configuration = n.configuration ∧
      (n.installSync now install).configuration =
        (m.installCrossing now install).configuration := by
  unfold installSync
  extract_lets cp n1 n2 n3 n4 n5 n6 recon
  refine ⟨n3, ?_, ?_⟩
  · have h1 : n1.configuration = n.configuration := configuration_setCommitMin n cp
    rw [← h1]
    unfold n3
    split <;> rfl
  · have h4 : n4.configuration = (n3.installCrossing now install).configuration :=
      configuration_advanceCheckpointOp _ cp
    have h5 : n5.configuration = n4.configuration := configuration_trimLogToCheckpoint _ _ _
    have h6 : n6.configuration = n5.configuration := configuration_clearIdleRepairRetry _
    rw [configuration_issueSmRestore, ← h4, ← h5, ← h6]
    rfl

/-- An install of a successor that is ahead, from any node of this configuration. -/
theorem configuration_installSync_ahead
    (hsucc : install.successor = some successor)
    (hprev : install.successorPrevConfigId = some verifiedPrev)
    (hop : install.successorInstallOp = some installOp)
    (hid : successor.configId ≠ n.membership.configId)
    (hepoch : n.membership.epoch < successor.epoch) :
    (n.installSync now install).configuration =
      ⟨successor, successor.epoch - 1, n.crossingLineage verifiedPrev, installOp⟩ := by
  obtain ⟨m, hm, heq⟩ := n.configuration_installSync now install
  have hmem : m.membership = n.membership := congrArg Configuration.membership hm
  have hlin : m.lineage = n.lineage := congrArg Configuration.lineage hm
  rw [heq, m.configuration_installCrossing now install hsucc hprev hop (hmem ▸ hid)
    (hmem ▸ hepoch)]
  unfold crossingLineage lineageAfterPush
  rw [hmem, hlin]

theorem configuration_installSync_stale (hsucc : install.successor = some successor)
    (hepoch : successor.epoch ≤ n.membership.epoch) :
    (n.installSync now install).configuration = n.configuration := by
  obtain ⟨m, hm, heq⟩ := n.configuration_installSync now install
  have hmem : m.membership = n.membership := congrArg Configuration.membership hm
  rw [heq, m.configuration_installCrossing_stale now install hsucc (hmem ▸ hepoch), hm]

/-! ## The roots -/

theorem configuration_of_tryNewV4 {view logView : View} {commit checkpointOp : OpNumber}
    {checkpointId : Checksum} {headers : List Header} {epoch prevEpoch : Epoch}
    {membership : Membership} {a b : Checksum} {installOp logFloor : OpNumber}
    {checkpointOps walCapacity : Nat}
    (h : VsrState.tryNewV4 view logView commit checkpointOp checkpointId headers epoch prevEpoch
      membership [a, b] installOp logFloor checkpointOps walCapacity = .ok st) :
    st.membership = some membership ∧
      ∀ fallback, st.configuration fallback = ⟨membership, prevEpoch, (a, b), installOp⟩ := by
  unfold VsrState.tryNewV4 at h
  repeat' split at h
  all_goals first | cases h; exact ⟨rfl, fun _ => rfl⟩ | cases h

/-- The root of a crossing records the configuration the crossing installs. -/
theorem configuration_durableRootWithSuccessor {n : Node S} {view logView : View}
    {commit checkpointOp : OpNumber} {checkpointId : Checksum} {headers : List Header}
    (h : n.durableRootWithSuccessor view logView commit checkpointOp checkpointId headers successor
      (some verifiedPrev) installOp = .ok st) :
    st.membership = some successor ∧ ∀ fallback, st.configuration fallback =
      ⟨successor, successor.epoch - 1, n.crossingLineage verifiedPrev, installOp⟩ :=
  configuration_of_tryNewV4 h

/-- A root that is submitted was built and goes to the superblock under the next id. -/
theorem submitRoot_alive {n : Node S} {role : RootRole} {root : Except VsrStateError VsrState}
    (h : (n.submitRoot role root).panicked = false) :
    ∃ st, root = .ok st ∧
      (n.submitRoot role root).storage = n.storage.submitRoot role n.nextId st := by
  unfold submitRoot at h ⊢
  split at h
  · cases h
  · rename_i st
    refine ⟨st, rfl, ?_⟩
    cases hroot : n.storage.rootAdmissible st with
    | false =>
      rw [hroot] at h
      cases h
    | true =>
      rw [hroot] at h
      simp only [assert, if_true] at h ⊢
      split at h
      · simp_all
      · rename_i halive
        rw [if_neg halive]

/-- The root `submit_swap_epoch` writes records the configuration the swap installs. -/
theorem configuration_swapRoot {n : Node S} {op : OpNumber} (h : n.swapRoot op successor = .ok st) :
    st.membership = some successor ∧ ∀ fallback, st.configuration fallback =
      ⟨successor, n.membership.epoch, n.lineageAfterPush n.membership.configId, op⟩ :=
  configuration_of_tryNewV4 h

/-! ## Reading a root back -/

@[simp] theorem configuration_submitRecoverRead (budget : Nat) :
    (n.submitRecoverRead op budget).configuration = n.configuration := by
  unfold submitRecoverRead
  split <;> rfl

theorem configuration_submitRecoverTailBatch (ops : List OpNumber) (n : Node S) :
    (n.submitRecoverTailBatch ops).configuration = n.configuration := by
  induction ops generalizing n with
  | nil => rfl
  | cons op ops ih =>
    unfold submitRecoverTailBatch
    dsimp only
    rw [ih, configuration_submitRecoverRead]
    split <;> rfl

@[simp] theorem configuration_submitTrackedCheckpointRead :
    n.submitTrackedCheckpointRead.configuration = n.configuration := by
  unfold submitTrackedCheckpointRead
  split <;> rfl

/-- Recovery starts in the configuration the landed root records. -/
theorem configuration_recovering (config : Config) (fallback : Membership) (slot : ReplicaId)
    (sm : S) (nonce incarnation : Nat) (s : Storage) (history : History) :
    (recovering config (s.landed.membership.getD fallback) slot sm nonce incarnation s
      history).configuration = s.landed.configuration fallback := by
  unfold recovering
  extract_lets landed effective cp canonicalTop hi op blank n1 n2
  have h2 : n2.configuration = s.landed.configuration fallback :=
    configuration_submitRecoverTailBatch _ n1
  split
  · exact (configuration_submitTrackedCheckpointRead n2).trans h2
  · exact h2

/-! ## Agreement -/

theorem configId_of_toMembershipVerified {p : ReconfigurePayload} {epoch : Epoch}
    {configId : Checksum} {s : Membership} (h : p.toMembershipVerified epoch configId = .ok s) :
    s.configId = configId := by
  unfold ReconfigurePayload.toMembershipVerified at h
  split at h
  · cases h
  · unfold ReconfigurePayload.toMembership Membership.fromDurableParts at h
    split at h
    · cases h; rfl
    · cases h

/-- A successor that the sync path verified is ahead of the node and is not its configuration. -/
theorem ahead_of_crossingSuccessor {n : Core} {m : SyncCheckpoint}
    (h : n.crossingSuccessor m = some (some (successor, verifiedPrev, installOp))) :
    n.membership.epoch < successor.epoch ∧ successor.configId ≠ n.membership.configId := by
  unfold Core.crossingSuccessor at h
  split at h
  · cases h
  · rename_i hcross
    split at h
    · cases h
    · split at h
      · cases h
      · rename_i payload _ found hfound
        dsimp only at h
        split at h
        · cases h
        · rename_i hahead
          have hsome : found = successor := by
            split at h
            · cases h
            · split at h
              · cases h
              · cases h; rfl
          subst hsome
          simp only [Bool.or_eq_true, not_or] at hahead
          simp only [Core.checkpointPresentsCrossing, Bool.not_eq_true', Bool.not_eq_false,
            Bool.and_eq_true, bne_iff_ne] at hcross
          refine ⟨by simpa using hahead.1, ?_⟩
          rw [configId_of_toMembershipVerified hfound]
          exact hcross.1

/-- Every order in which a landed root and its install run leaves the recorded configuration. -/
structure Agrees (n : Node S) (now : Instant) (st : VsrState)
    (install : Node S → Node S) : Prop where
  installed : ∀ fallback, (install n).configuration = st.configuration fallback
  landed : ∀ fallback, (n.adoptLandedConfiguration now st).configuration = st.configuration fallback
  landedFirst : ∀ fallback,
    (install (n.adoptLandedConfiguration now st)).configuration = st.configuration fallback
  installedFirst : ∀ fallback,
    ((install n).adoptLandedConfiguration now st).configuration = st.configuration fallback

theorem agrees_of_recorded {n : Node S} {now : Instant} {install : Node S → Node S}
    {recorded : Configuration} (hmember : st.membership = some successor)
    (hrec : ∀ fallback, st.configuration fallback = recorded)
    (hsucc : recorded.membership = successor) (hepoch : n.membership.epoch < successor.epoch)
    (hinstall : (install n).configuration = recorded)
    (hstale : ∀ m : Node S, successor.epoch ≤ m.membership.epoch →
      (install m).configuration = m.configuration) : Agrees n now st install := by
  have hlanded : (n.adoptLandedConfiguration now st).configuration = recorded := by
    rw [n.configuration_adoptLandedConfiguration now st hmember hepoch, hrec]
  have hahead {m : Node S} (hm : m.configuration = recorded) :
      successor.epoch ≤ m.membership.epoch := by
    have : m.membership = successor := (congrArg Configuration.membership hm).trans hsucc
    rw [this]
  refine ⟨?_, ?_, ?_, ?_⟩
  · intro fallback
    rw [hinstall, hrec]
  · intro fallback
    rw [hlanded, hrec]
  · intro fallback
    rw [hstale _ (hahead hlanded), hlanded, hrec]
  · intro fallback
    rw [configuration_adoptLandedConfiguration_stale _ now st hmember (hahead hinstall), hinstall,
      hrec]

/-- The configuration an install leaves in memory is the one its root records, whether the root's
landing or the install runs first, and the one a recovery from the root starts in. -/
theorem installed_configuration_recorded :
    (∀ (m : SyncCheckpoint) (install : PendingInstall) (successor : Membership)
      (verifiedPrev : Checksum) (installOp : OpNumber) (view logView : View)
      (commit checkpointOp : OpNumber) (checkpointId : Checksum) (headers : List Header)
      (st : VsrState),
      n.crossingSuccessor m = some (some (successor, verifiedPrev, installOp)) →
      install.successor = some successor → install.successorPrevConfigId = some verifiedPrev →
      install.successorInstallOp = some installOp →
      n.durableRootWithSuccessor view logView commit checkpointOp checkpointId headers successor
        (some verifiedPrev) installOp = .ok st →
      Agrees n now st fun n => n.installSync now install) ∧
    (∀ (op : OpNumber) (successor : Membership),
      n.membership.epoch < successor.epoch → successor.configId ≠ n.membership.configId →
      (n.submitSwapEpoch op successor).panicked = false →
      ∃ st, (n.submitSwapEpoch op successor).storage =
        n.storage.submitRoot .durableView n.nextId st ∧
        Agrees n now st fun n => n.installMembership now (some op) successor) ∧
    ∀ (config : Config) (fallback : Membership) (slot : ReplicaId) (sm : S)
      (nonce incarnation : Nat) (s : Storage) (history : History),
      (recovering config (s.landed.membership.getD fallback) slot sm nonce incarnation s
        history).configuration = s.landed.configuration fallback := by
  refine ⟨?_, ?_, ?_⟩
  · intro m install successor verifiedPrev installOp view logView commit checkpointOp checkpointId
      headers st hverified hsucc hprev hop hroot
    obtain ⟨hepoch, hid⟩ := ahead_of_crossingSuccessor hverified
    obtain ⟨hmember, hrec⟩ := configuration_durableRootWithSuccessor hroot
    exact agrees_of_recorded hmember hrec rfl hepoch
      (n.configuration_installSync_ahead now install hsucc hprev hop hid hepoch)
      fun m hm => m.configuration_installSync_stale now install hsucc hm
  · intro op successor hepoch hid halive
    obtain ⟨st, hroot, hsubmitted⟩ := submitRoot_alive halive
    obtain ⟨hmember, hrec⟩ := configuration_swapRoot hroot
    refine ⟨st, hsubmitted, ?_⟩
    exact agrees_of_recorded hmember hrec rfl hepoch
      (n.configuration_installMembership now (some op) hid hepoch)
      fun m hm => m.configuration_installMembership_stale now (some op) hm
  · intro config fallback slot sm nonce incarnation s history
    exact configuration_recovering config fallback slot sm nonce incarnation s history

/-- A member of the group of three and its learner, before anything happened. -/
def freshTrioNode : Node Tally :=
  .empty { cluster := 1, localMember := 7 } trioMembership {} 5 1 { capacity := 8 } {}

/-- The group after its learner was promoted. -/
def promotedTrio : Membership :=
  (trioMembership.applyDelta (.promoteLearner 10)).toOption.get (by decide +kernel)

/-- A donor's checkpoint of op 5 in the configuration that op 3 produced. -/
def promotedTrioCheckpoint : SyncCheckpoint where
  view := 0
  checkpointOp := 5
  checkpointId := 0
  epoch := 1
  configId := promotedTrio.configId
  replica := 1
  nonce := 5
  snapshot := []
  membership := (ReconfigurePayload.fromMembership promotedTrio trioMembership.configId).encodeBody
  configInstallOp := some 3

theorem installed_configuration_recorded_trio :
    (∃ st, freshTrioNode.durableRootWithSuccessor 0 0 5 5 0 [] promotedTrio
        (some trioMembership.configId) 3 = .ok st ∧
      Agrees freshTrioNode 9 st fun n => n.installSync 9
        ⟨5, 0, 0, false, some promotedTrio, some trioMembership.configId, some 3,
          promotedTrioCheckpoint, .replica 1⟩) ∧
    ∃ st, (freshTrioNode.submitSwapEpoch 3 promotedTrio).storage =
        freshTrioNode.storage.submitRoot .durableView freshTrioNode.nextId st ∧
      Agrees freshTrioNode 9 st fun n => n.installMembership 9 (some 3) promotedTrio := by
  have hfound {r : Except VsrStateError VsrState} (h : r.toOption.isSome = true) :
      ∃ st, r = .ok st := by
    cases r with
    | error e => cases h
    | ok st => exact ⟨st, rfl⟩
  refine ⟨?_, ?_⟩
  · obtain ⟨st, hst⟩ := hfound
      (r := freshTrioNode.durableRootWithSuccessor 0 0 5 5 0 [] promotedTrio
        (some trioMembership.configId) 3) (by decide +kernel)
    exact ⟨st, hst, (installed_configuration_recorded freshTrioNode 9).1 promotedTrioCheckpoint
      _ _ _ _ _ _ _ _ _ _ _ (by decide +kernel) rfl rfl rfl hst⟩
  · exact (installed_configuration_recorded freshTrioNode 9).2.1 3 promotedTrio (by decide +kernel)
      (by decide +kernel) (by decide +kernel)

end Node

end Viewstamp
