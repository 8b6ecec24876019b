import Viewstamp.Moves.Step

/- What one input makes a replica do.

   An input is a part of the device and a part of the endpoint. Once the device has
   done its part, everything the endpoint does is a sequence of deeds, and of acts
   unless it sends bodies; so is everything a recovery does to an empty endpoint.
   What an input may do that no other may (an image is put in place, the
   acknowledgements of a retired replica come due) is what its licence has to
   allow. -/
namespace Viewstamp

open List

namespace Licence

/-- What `K` allows a replica that stays in its configuration. -/
def seated (K : Licence) : Licence := { K with retire := False }

theorem seated_le (K : Licence) : K.seated.Le K :=
  ⟨False.elim, id, id, id, id⟩

end Licence

/-- The checkpoint image an input brings. -/
def Input.image {S : Type} : Input S → Option (S × SessionTable)
  | .blockDone _ (.restored image) => image
  | _ => none

/-- A new incarnation starts. -/
def Input.reboots {S : Type} : Input S → Bool
  | .crash _ _ | .restart _ => true
  | _ => false

/-- The endpoint may send bodies of its log. -/
def Input.serves {S : Type} : Input S → Bool
  | .message _ _ msg => msg.asksBodies
  | .timeout _ | .proposeMembership _ _ _ => true
  | _ => false

/-- The endpoint may take down the checkpoint of a peer. -/
def Input.reports {S : Type} : Input S → Bool
  | .message _ _ msg => msg.reports
  | _ => false

/-- The device's part of an input. -/
def Storage.after {S : Type} (s : Storage) : Input S → Storage
  | .appendDone _ id => ((s.completeAppend id).map Prod.fst).getD s
  | .appendCancelled _ id => ((s.cancelAppend id).map Prod.fst).getD s
  | .readDone _ id fault => ((s.completeRead id fault).map Prod.fst).getD s
  | .rootDone _ => (s.completeRoot.map Prod.fst).getD s
  | .checkpointDone _ id => (s.completeCheckpoint id).getD s
  | .checkpointReadDone _ id fault => ((s.completeCheckpointRead id fault).map Prod.fst).getD s
  | _ => s

/-- The input ends an append. -/
def Input.endsAppend {S : Type} : Input S → Bool
  | .appendDone _ _ | .appendCancelled _ _ => true
  | _ => false

namespace Storage

/-- Writes settle and none starts; appends do at their own inputs only. -/
structure Settles {S : Type} (i : Input S) (s s' : Storage) : Prop where
  roots : s'.roots ⊆ s.roots
  checkpoints : s'.checkpoints ⊆ s.checkpoints
  capacity : s'.capacity = s.capacity
  appendQuota : s'.appendQuota = s.appendQuota
  walWrites : s'.walWrites.Sublist s.walWrites
  appends : i.endsAppend = false → s'.walWrites = s.walWrites

theorem settles_after {S : Type} (s : Storage) (i : Input S) : Settles i s (s.after i) := by
  have keep {s' : Storage} (hr : s'.roots ⊆ s.roots) (hc : s'.checkpoints ⊆ s.checkpoints)
      (hk : s'.capacity = s.capacity) (hq : s'.appendQuota = s.appendQuota)
      (hw : s'.walWrites = s.walWrites) : Settles i s s' :=
    ⟨hr, hc, hk, hq, hw ▸ Sublist.refl _, fun _ => hw⟩
  have same : Settles i s s := keep (Subset.refl _) (Subset.refl _) rfl rfl rfl
  cases i with
  | appendDone now id =>
    dsimp only [after, completeAppend]
    split
    · exact same
    · exact ⟨Subset.refl _, Subset.refl _, rfl, rfl, filter_sublist, nofun⟩
  | appendCancelled now id =>
    dsimp only [after, cancelAppend]
    split
    · exact ⟨Subset.refl _, Subset.refl _, rfl, rfl, filter_sublist, nofun⟩
    · exact same
  | readDone now id fault =>
    dsimp only [after, completeRead]
    repeat' split
    all_goals exact keep (Subset.refl _) (Subset.refl _) rfl rfl rfl
  | rootDone now =>
    dsimp only [after, completeRoot]
    split
    · exact same
    · rename_i e he
      have hnext := sameWrites_releaseNextRoot { s with landed := e.state, rootFront := none }
      simp only [Option.map_some, Option.getD_some]
      refine keep (fun e he => ?_) ?_ hnext.capacity hnext.appendQuota hnext.walWrites
      · have he := roots_releaseNextRoot _ he
        simp_all [Media.roots]
      · rw [hnext.checkpoints]
        exact Subset.refl _
  | checkpointDone now id =>
    dsimp only [after, completeCheckpoint]
    split
    · exact same
    · exact keep (Subset.refl _) (filter_subset_self _) rfl rfl rfl
  | checkpointReadDone now id fault =>
    dsimp only [after, completeCheckpointRead]
    repeat' split
    all_goals exact keep (Subset.refl _) (Subset.refl _) rfl rfl rfl
  | _ => exact same

end Storage

namespace Node

variable {S : Type}
variable {n n' : Node S} {lane : List BlockJob} {i : Input S} {boot : Boot S}
    {nonce incarnation : Nat} {s : Storage} {history : History}

/-- The replica when the endpoint takes an input. -/
def received (n : Node S) (i : Input S) : Node S := { n with storage := n.storage.after i }

/-- The op whose image the next block completion puts in place: its job is a restore the node still
waits for. -/
def restoring (n : Node S) : Option OpNumber :=
  n.lane.head?.bind fun job =>
    if n.isForeignCompletion job.id then none
    else
      match job.kind with
      | .restore _ _ .syncedCheckpoint =>
        if n.smReconstruct.bind (·.restore) = some job.id then n.smReconstruct.map (·.checkpointOp)
        else none
      | .restore _ _ (.recoveredCheckpoint c) =>
        if n.recover.bind (·.reconstruct) = some job.id then some c.op else none
      | _ => none

/-- The image an input puts in place, with its op. -/
def restores (n : Node S) (i : Input S) : Option (OpNumber × S × SessionTable) :=
  n.restoring.bind fun op => i.image.map fun image => (op, image)

/-- The acknowledgements of an adopted StartView come due at a retired replica. -/
def AckedLate (n : Node S) : Input S → Prop
  | .rootDone now => ∃ e, n.storage.rootFront = some e ∧
      ((n.received (.rootDone now)).onRootLanded now e).pendingSb = some (e.id, .adoptedStartView) ∧
      ((n.received (.rootDone now)).onRootLanded now e).status = .retired
  | .checkpointDone _ id => n.pendingSb = some (id, .adoptedStartView) ∧ n.status = .retired
  | _ => False

theorem restoring_foreign {job : BlockJob} (hlane : n.lane = job :: lane)
    (h : n.isForeignCompletion job.id = true) : n.restoring = none := by
  unfold restoring
  rw [hlane]
  simp [h]

theorem restoring_own {job : BlockJob}
    (hlane : n.lane = job :: lane) (h : n.isForeignCompletion job.id = false) :
    n.restoring = match job.kind with
      | .restore _ _ .syncedCheckpoint =>
        if n.smReconstruct.bind (·.restore) = some job.id then n.smReconstruct.map (·.checkpointOp)
        else none
      | .restore _ _ (.recoveredCheckpoint c) =>
        if n.recover.bind (·.reconstruct) = some job.id then some c.op else none
      | _ => none := by
  unfold restoring
  rw [hlane]
  simp [h]

variable [StateMachine S] {K : Licence}

theorem Acts.onRecoveredCheckpointRestored_none (n : Node S) (now : Instant)
    (c : RecoveredCheckpoint) : Acts K n (n.onRecoveredCheckpointRestored now c none) := by
  unfold Node.onRecoveredCheckpointRestored
  exact Acts.mapRecover n _

theorem Acts.onBlockServed (n : Node S) (peer : Peer) (addr : BlockAddress)
    (block : Option Bytes) : Acts K n (n.onBlockServed peer addr block) :=
  Acts.emit n _ _ rfl

/-- The outcome of a walk is told to the probe and to the transfer that wait for it. -/
theorem Acts.onBlockDone_walk (n : Node S) (now : Instant) (id : OpId)
    (fetched : Option (BlockAddress × Bytes)) (purpose : WalkPurpose) (output : BlockJobOutput S) :
    Acts K n (n.onBlockDone now ⟨id, .walk fetched purpose⟩ output) := by
  have h := Acts.redriveDeferredRecoverProbe (K := K) n
  unfold Node.onBlockDone
  dsimp only
  split
  · exact h
  · cases output with
    | walked accepted next =>
      exact (h.trans (Acts.onWalked _ now id purpose accepted next)).trans
        (Acts.redeliverDeferredPin _ now)
    | _ => exact h

/-- A completion that brings no image restores nothing, whatever its job. -/
theorem Acts.onBlockDone (n : Node S) (now : Instant) (job : BlockJob) (output : BlockJobOutput S)
    (h : (Input.blockDone now output).image = none) : Acts K n (n.onBlockDone now job output) := by
  obtain ⟨id, kind⟩ := job
  cases kind with
  | walk f p => exact onBlockDone_walk n now id f p output
  | materialize =>
    unfold Node.onBlockDone
    dsimp only
    refine guard fun _ => ?_
    cases output with
    | materialized smRoot sessionsRoot flushed =>
      exact onCheckpointMaterialized n id smRoot sessionsRoot flushed
    | _ => exact refl n
  | flush smRoot sessionsRoot =>
    unfold Node.onBlockDone
    dsimp only
    refine guard fun _ => ?_
    cases output with
    | flushed ok => exact onCheckpointBlocksFlushed n now id ok
    | _ => exact refl n
  | gc =>
    unfold Node.onBlockDone
    dsimp only
    refine guard fun _ => ?_
    cases output <;> exact refl n
  | serve peer addr =>
    unfold Node.onBlockDone
    dsimp only
    refine guard fun _ => ?_
    cases output with
    | served block => exact onBlockServed n peer addr block
    | _ => exact refl n
  | restore smRoot sessionsRoot purpose =>
    unfold Node.onBlockDone
    dsimp only
    refine guard fun _ => ?_
    cases output with
    | restored image =>
      obtain rfl : image = none := h
      cases purpose with
      | syncedCheckpoint =>
        dsimp only
        exact guard fun _ => onSmRestored_none n now
      | recoveredCheckpoint c =>
        dsimp only
        exact guard fun _ => onRecoveredCheckpointRestored_none n now c
    | _ => cases purpose <;> exact refl n

/-- Nor does one whose image nobody waits for. -/
theorem Acts.onBlockDone_unawaited (n : Node S) (now : Instant) (job : BlockJob)
    (lane : List BlockJob) (hlane : n.lane = job :: lane) (h : n.restoring = none)
    (image : Option (S × SessionTable)) :
    Acts K n ({ n with lane := lane }.onBlockDone now job (.restored image)) := by
  have hlaned : Acts K n { n with lane := lane } := of_eq rfl
  obtain ⟨id, kind⟩ := job
  refine hlaned.trans ?_
  cases kind with
  | walk f p => exact onBlockDone_walk _ now id f p _
  | restore smRoot sessionsRoot purpose =>
    unfold Node.onBlockDone
    dsimp only
    refine guard fun hforeign => ?_
    rw [restoring_own hlane (by simpa using hforeign)] at h
    cases purpose with
    | syncedCheckpoint =>
      dsimp only at h ⊢
      refine guard fun hid => ?_
      rw [if_pos (not_not.mp hid)] at h
      rw [Option.map_eq_none_iff.mp h] at hid
      simp at hid
    | recoveredCheckpoint c =>
      dsimp only at h ⊢
      refine guard fun hid => ?_
      rw [if_pos (not_not.mp hid)] at h
      cases h
  | _ =>
    unfold Node.onBlockDone
    dsimp only
    split <;> exact refl _

/-- The image of a restore that is still waited for is put in place. -/
theorem Acts.onBlockDone_restored (n : Node S) (now : Instant) (job : BlockJob)
    (lane : List BlockJob) (hlane : n.lane = job :: lane) {op : OpNumber}
    (h : n.restoring = some op) (sm : S) (clients : SessionTable) :
    Acts K { n with sm := sm, clients := clients, smAt := op }
      ({ n with lane := lane }.onBlockDone now job (.restored (some (sm, clients)))) := by
  have hforeign : n.isForeignCompletion job.id = false := by
    by_contra hne
    rw [restoring_foreign hlane (by simpa using hne)] at h
    cases h
  rw [restoring_own hlane hforeign] at h
  obtain ⟨id, kind⟩ := job
  cases kind with
  | restore smRoot sessionsRoot purpose =>
    unfold Node.onBlockDone
    dsimp only at h ⊢
    rw [if_neg (by simpa using hforeign)]
    cases purpose with
    | syncedCheckpoint =>
      dsimp only at h ⊢
      split at h
      · rename_i hid
        obtain ⟨recon, hrecon, rfl⟩ := Option.map_eq_some_iff.mp h
        rw [if_neg (not_not.mpr hid)]
        have hp := onSmRestored (K := K) { n with lane := lane } now recon hrecon sm clients
        have hlaned : Acts K { n with sm := sm, clients := clients, smAt := recon.checkpointOp }
            { n with lane := lane, sm := sm, clients := clients, smAt := recon.checkpointOp } :=
          of_eq rfl
        exact hlaned.trans hp
      · cases h
    | recoveredCheckpoint c =>
      dsimp only at h ⊢
      split at h
      · rename_i hid
        cases h
        rw [if_neg (not_not.mpr hid)]
        have hlaned : Acts K { n with sm := sm, clients := clients, smAt := c.op }
            { n with lane := lane, sm := sm, clients := clients, smAt := c.op } := of_eq rfl
        exact hlaned.trans (onRecoveredCheckpointRestored { n with lane := lane } now c sm clients)
      · cases h
  | _ => cases h

/-- A block completion, with or without an image. -/
theorem Acts.onBlockDone_all (n : Node S) (now : Instant) (job : BlockJob) (lane : List BlockJob)
    (hlane : n.lane = job :: lane) (output : BlockJobOutput S)
    (hrestore : n.restores (.blockDone now output) ≠ none → K.restore) :
    Acts K n ({ n with lane := lane }.onBlockDone now job output) := by
  have hlaned : Acts K n { n with lane := lane } := Acts.of_eq rfl
  cases himage : (Input.blockDone now output).image with
  | none => exact hlaned.trans (Acts.onBlockDone { n with lane := lane } now job output himage)
  | some image =>
    obtain ⟨sm, clients⟩ := image
    obtain rfl : output = .restored (some (sm, clients)) := by
      cases output <;> simp_all [Input.image]
    cases hop : n.restoring with
    | none => exact Acts.onBlockDone_unawaited n now job lane hlane hop _
    | some op =>
      have hr : K.restore := hrestore (by simp [restores, hop, himage])
      have himaged : Acts K n { n with sm := sm, clients := clients, smAt := op } :=
        Acts.single (.restore sm op clients hr rfl) rfl
      exact himaged.trans (Acts.onBlockDone_restored n now job lane hlane hop sm clients)

/-- A running endpoint does acts, once the device has done its part, unless it is to send bodies of
its log. -/
theorem handle_acts (hK : K.insert) (hretire : K.retire) (h : n.handle i = some n')
    (hserves : i.serves = false) (hreports : i.reports = true → K.report)
    (hrestore : n.restores i ≠ none → K.restore) (hlate : n.AckedLate i → K.late) :
    Acts K (n.received i) n' := by
  cases i with
  | message now sender msg =>
    obtain ⟨-, h⟩ := Option.ite_none_left_eq_some.mp h
    cases h
    -- only a landed root can retire the replica
    exact (Acts.handleMessage (K := K.seated) hK False.elim n now sender msg hserves hreports).mono
      K.seated_le
  | timeout now => cases hserves
  | appendDone now id | appendCancelled now id =>
    obtain ⟨⟨s, done, freed⟩, hs, rfl⟩ := Option.map_eq_some_iff.mp h
    rw [received, Storage.after, hs]
    exact Acts.onWalDone hK _ now done freed
  | readDone now id fault =>
    obtain ⟨⟨s, done⟩, hs, rfl⟩ := Option.map_eq_some_iff.mp h
    rw [received, Storage.after, hs]
    exact Acts.onWalDone hK _ now done none
  | rootDone now =>
    obtain ⟨⟨s, e⟩, hs, rfl⟩ := Option.map_eq_some_iff.mp h
    have hfront : n.storage.rootFront = some e := by
      unfold Storage.completeRoot at hs
      split at hs
      · cases hs
      · rename_i e' he
        cases hs
        exact he
    have hreceived : n.received (.rootDone now) = { n with storage := s } := by
      rw [received, Storage.after, hs]
      rfl
    rw [hreceived]
    refine Acts.onSbDone hretire _ now _ (some e) fun id hid hsb hret => hlate ?_
    cases hid
    refine ⟨e, hfront, ?_⟩
    rw [hreceived]
    exact ⟨hsb, hret⟩
  | checkpointDone now id =>
    obtain ⟨s, hs, rfl⟩ := Option.map_eq_some_iff.mp h
    rw [received, Storage.after, hs]
    refine Acts.onSbDone hretire _ now _ none fun id' hid hsb hret => hlate ?_
    cases hid
    exact ⟨hsb, hret⟩
  | checkpointReadDone now id fault =>
    obtain ⟨⟨s, done⟩, hs, rfl⟩ := Option.map_eq_some_iff.mp h
    rw [received, Storage.after, hs]
    refine Acts.onSbDone hretire _ now done none fun id' hid _ _ => ?_
    unfold Storage.completeCheckpointRead at hs
    split at hs
    · dsimp only at hs
      split at hs <;> cases hs <;> cases hid
    · cases hs
  | blockDone now output =>
    unfold handle at h
    cases hlane : n.lane with
    | nil => rw [hlane] at h; cases h
    | cons job lane =>
      rw [hlane] at h
      cases h
      exact Acts.onBlockDone_all n now job lane hlane output hrestore
  | proposeMembership now delta accept => cases hserves
  | solicitHealthProofs now lifetime =>
    cases h
    exact Acts.solicitHealthProofs n now lifetime
  | sealCommittedFrontier =>
    cases h
    exact Acts.sealCommittedFrontier n
  | rot | cancels | crash | restart => cases h

/-- A running endpoint does deeds, once the device has done its part. -/
theorem handle_deeds (hK : K.insert) (hretire : K.retire) (h : n.handle i = some n')
    (hreports : i.reports = true → K.report) (hrestore : n.restores i ≠ none → K.restore)
    (hlate : n.AckedLate i → K.late) : Deeds K (n.received i) n' := by
  cases hserves : i.serves with
  | false => exact (handle_acts hK hretire h hserves hreports hrestore hlate).toDeeds
  | true =>
    cases i with
    | message now sender msg =>
      obtain ⟨-, h⟩ := Option.ite_none_left_eq_some.mp h
      cases h
      exact (Deeds.handleMessage (K := K.seated) hK False.elim n now sender msg hreports).mono
        K.seated_le
    | timeout now =>
      cases h
      exact (Retransmits.handleTimeout hK n now).deeds
    | proposeMembership now delta accept =>
      cases h
      exact (Deeds.proposeMembership (K := K.seated) hK False.elim n now delta accept).mono
        K.seated_le
    | _ => cases hserves

theorem Acts.submitRecoverTailBatch (hK : K.insert) : ∀ (ops : List OpNumber) (n : Node S),
    Acts K n (n.submitRecoverTailBatch ops)
  | [], n => refl n
  | op :: ops, n => by
    unfold Node.submitRecoverTailBatch
    extract_lets n1
    have h1 : Acts K n n1 := by
      unfold n1
      split
      · exact writeLog hK n _
      · exact refl n
    exact (h1.trans (submitRecoverRead n1 op _)).trans (submitRecoverTailBatch hK ops _)

theorem Acts.recovering (hK : K.insert) (config : Config) (membership : Membership)
    {slot : ReplicaId}
    (hslot : membership.slotOf config.localMember = some slot) (sm : S) (nonce incarnation : Nat)
    (s : Storage) (history : History) :
    Acts K (empty config membership sm nonce incarnation s history)
      (Node.recovering config membership slot sm nonce incarnation s history) := by
  unfold Node.recovering
  extract_lets landed effective cp canonicalTop hi op fresh n n'
  have hstatus : Acts K fresh { fresh with status := .recovering } :=
    single (.status .recovering nofun rfl) rfl
  have hcache : n.quorumCheckpoint = n.computeQuorumCheckpointOp := by
    have hvoter : n.isVoter = membership.isVoter slot := by
      unfold Core.isVoter Core.localSlotOpt
      exact congrArg (Option.any membership.isVoter) hslot
    rw [computeQuorumCheckpointOp_unheard n rfl, hvoter]
    rfl
  have hn : Acts K fresh n :=
    hstatus.trans (recount (.checkpoint cp (fun _ => Nat.zero_le _) rfl) rfl
      ⟨.inr (.inl ⟨rfl, rfl⟩), le_rfl, .inr rfl⟩ hcache id)
  have hn' := hn.trans (Acts.submitRecoverTailBatch hK (range' (cp + 1) (hi - cp)) n)
  split
  · exact (hn'.trans (Acts.submitTrackedCheckpointRead n')).trans (Acts.mapRecover _ _)
  · exact hn'

/-- A recovered endpoint starts from an empty one. -/
theorem Acts.recoverFrom (hK : K.insert)
    (h : Node.recoverFrom boot nonce incarnation s history lane = .ok (some n)) :
    ∃ membership, Acts K
      (empty boot.config membership boot.sm nonce incarnation s.collapseParkedRoots history) n := by
  obtain ⟨membership, slot, -, hslot, rfl⟩ := recoverFrom_eq h
  refine ⟨membership, ?_⟩
  have hm := Acts.recovering hK boot.config membership hslot boot.sm nonce incarnation
    s.collapseParkedRoots history
  have hlane (m : Node S) : Acts K m { m with lane } := Acts.of_eq rfl
  exact (hm.trans (hlane _)).trans (Acts.recoverProgress _ 0)

/-! ## Runs -/

/-- A first incarnation starts from an empty endpoint with nothing in flight. -/
theorem Start.acts (hK : K.insert) (h : Start boot n) : ∃ membership nonce s,
    (s.walWrites = [] ∧ s.roots = [] ∧ s.checkpoints = []) ∧
      Acts K (empty boot.config membership boot.sm nonce 1 s {}) n := by
  have hformat {s s' : Storage} (hs : format boot.config boot.membership s = .ok s') :
      s'.walWrites = s.walWrites ∧ s'.roots = s.roots ∧ s'.checkpoints = s.checkpoints := by
    unfold format at hs
    repeat' split at hs
    all_goals cases hs
    exact ⟨rfl, rfl, rfl⟩
  cases h with
  | genesis nonce s n blank h =>
    unfold Node.genesis at h
    split at h
    · rename_i s' _ hs _
      cases h
      have hidle := hformat hs
      rw [blank] at hidle
      exact ⟨_, _, s', hidle, .refl _⟩
    · cases h
  | recover nonce s n store h =>
    obtain ⟨membership, hacts⟩ := Acts.recoverFrom hK h
    refine ⟨membership, nonce, _, ?_, hacts⟩
    rcases store with hs | hs
    · rw [hs]
      exact ⟨rfl, rfl, rfl⟩
    · obtain ⟨hwrites, hroots, hcheckpoints⟩ := hformat hs
      refine ⟨hwrites, ?_, hcheckpoints⟩
      unfold Storage.collapseParkedRoots Media.roots at *
      simp_all

/-- A later one starts from an empty endpoint on what the medium has in flight. -/
theorem Acts.reboot (hK : K.insert) (h : n.reboot boot s lane nonce = some n') :
    ∃ membership, Acts K (empty boot.config membership boot.sm nonce (n.incarnation + 1)
      s.collapseParkedRoots n.history) n' := by
  unfold Node.reboot at h
  split at h
  · rename_i m hm
    subst h
    exact Acts.recoverFrom hK hm
  · cases h

omit [StateMachine S] in
/-- The device settles writes and starts none. -/
theorem Coherent.received (hn : n.Coherent) (i : Input S) : (n.received i).Coherent := by
  have hs := n.storage.settles_after i
  exact hn.of_subset ⟨rfl, le_refl _, id⟩ (hn.counted.of_floors rfl) hs.roots hs.checkpoints
    fun _ => id

omit [StateMachine S] in
/-- A new incarnation waits for nothing; the writes it finds are those of the old ones. -/
theorem coherent_empty {config : Config} {membership : Membership} {sm : S}
    (hroots : ∀ e ∈ s.roots, e.id.incarnation < incarnation)
    (hcheckpoints : ∀ c ∈ s.checkpoints, c.id.incarnation < incarnation) :
    (empty config membership sm nonce incarnation s history).Coherent where
  counted := by
    refine ⟨?_, fun _ => rfl⟩
    rw [computeQuorumCheckpointOp_unheard _ rfl]
    split <;> rfl
  roots e he := .inl (hroots e he)
  checkpoints c hc := .inl (hcheckpoints c hc)
  awaited _ id target ha := by cases ha

theorem coherent_start (h : Start boot n) : n.Coherent := by
  obtain ⟨_, _, s, ⟨-, hroots, hcheckpoints⟩, hacts⟩ := h.acts (K := .all) trivial
  exact hacts.coherent (coherent_empty (by simp [hroots]) (by simp [hcheckpoints]))

theorem Coherent.step (hn : n.Coherent) (h : n.step boot i = some n') : n'.Coherent := by
  have hhandle (h : (if n.panicked then none else n.handle i) = some n') : n'.Coherent := by
    obtain ⟨-, h⟩ := Option.ite_none_left_eq_some.mp h
    have hdeeds := handle_deeds (K := .all) trivial trivial h (fun _ => trivial)
      (fun _ => trivial) fun _ => trivial
    exact hdeeds.coherent (hn.received i)
  have hreboot {s : Storage} {lane : List BlockJob} {nonce : Nat}
      (hroots : s.roots ⊆ n.storage.roots) (hcheckpoints : s.checkpoints ⊆ n.storage.checkpoints)
      (h : n.reboot boot s lane nonce = some n') : n'.Coherent := by
    have hold {id : OpId} (hid : n.Minted id) : id.incarnation < n.incarnation + 1 := by
      unfold Minted at hid
      omega
    obtain ⟨_, hacts⟩ := Acts.reboot (K := .all) trivial h
    refine hacts.coherent (coherent_empty (fun e he => hold (hn.roots e (hroots ?_)))
      fun c hc => hold (hn.checkpoints c (hcheckpoints hc)))
    unfold Storage.collapseParkedRoots Media.roots at he
    unfold Media.roots
    simp_all
  cases i with
  | rot | cancels =>
    cases h
    exact hn.of_ground ⟨rfl, le_refl _, id⟩ rfl
  | crash lands nonce => exact hreboot (nil_subset _) (nil_subset _) h
  | restart nonce => exact hreboot (Subset.refl _) (Subset.refl _) h
  | _ => exact hhandle h

/-- Every state a replica reaches is coherent. -/
theorem Reachable.coherent (h : Reachable boot n) : n.Coherent := by
  induction h with
  | start h => exact coherent_start h
  | step i _ hs ih => exact ih.step hs

end Node

end Viewstamp
