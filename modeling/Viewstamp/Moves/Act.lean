import Viewstamp.Moves.Basic

/- The moves of a replica, and what stays coherent while it makes them.

   Beside the tables of its appends a replica keeps the checkpoints its peers have
   reported and, cached, the highest one a quorum has reached; and it waits for the
   root that makes its own next checkpoint durable. Acts are moves that leave no
   stale cache behind and never take one root for another: the ids of the writes at
   the superblock are its own, so the root a checkpoint waits for is the one that
   was written for it. What is on the medium changes only when the device says so.
   Few of the things a replica does send the bodies of its log; those are deeds. -/
namespace Viewstamp

open List

/-- The messages that carry bodies a client or an operator submitted. -/
def Message.carriesBodies : Message → Bool
  | request _ | prepare _ | prepareBatch _ | repairBatch _ => true
  | _ => false

/-- The messages that may bring the checkpoint of a peer. -/
def Message.reports : Message → Bool
  | prepareOk _ | commit _ | doViewChange _ | startView _ | recoveryResponse _ => true
  | _ => false

/-- What the quorum checkpoint is computed from, and its cache. -/
structure Floors where
  localMember : MemberId
  membership : Membership
  checkpointOp : OpNumber
  peerCheckpoint : OrdMap MemberId OpNumber
  reports : List (MemberId × OpNumber)
  resets : Nat
  quorumCheckpoint : OpNumber

/-- What coherence is about. -/
structure Ground where
  floors : Floors
  roots : List RootEntry
  checkpoints : List CheckpointWrite
  awaited : Option (OpId × OpNumber)
  landed : VsrState
  carriers : List Outgoing

namespace Storage

variable (s : Storage) (role : RootRole) (id : OpId)

theorem roots_releaseNextRoot : s.releaseNextRoot.roots ⊆ s.roots := by
  intro e he
  unfold releaseNextRoot at he
  repeat' split at he
  all_goals simp_all [Media.roots]
  all_goals tauto

theorem mem_roots_submitRoot {s : Storage} {role : RootRole} {id : OpId} {state : VsrState}
    {e : RootEntry} (h : e ∈ (s.submitRoot role id state).roots) :
    e ∈ s.roots ∨ e.id = id ∧ e.state = state := by
  cases role with
  | durableView =>
    have hparked := roots_releaseNextRoot _ h
    simp only [Media.roots, mem_append, Option.mem_toList] at hparked ⊢
    rcases hparked with (hfront | hparked) | hother
    · exact .inl (.inl (.inl hfront))
    · cases hparked
      exact .inr ⟨rfl, rfl⟩
    · exact .inl (.inr hother)
  | checkpoint =>
    have hparked := roots_releaseNextRoot _ h
    simp only [Media.roots, mem_append, Option.mem_toList] at hparked ⊢
    rcases hparked with (hfront | hother) | hparked
    · exact .inl (.inl (.inl hfront))
    · exact .inl (.inl (.inr hother))
    · cases hparked
      exact .inr ⟨rfl, rfl⟩

theorem roots_abandonRoot : (s.abandonRoot role id).roots ⊆ s.roots := by
  intro e he
  unfold abandonRoot at he
  repeat' split at he
  all_goals simp_all [Media.roots]
  all_goals tauto

end Storage

namespace Node

variable {S : Type}
variable {n n' : Node S}

def floors (n : Node S) : Floors where
  localMember := n.config.localMember
  membership := n.membership
  checkpointOp := n.checkpointOp
  peerCheckpoint := n.peerCheckpoint
  reports := n.reports
  resets := n.resets
  quorumCheckpoint := n.quorumCheckpoint

/-- The root a checkpoint waits for, and the op it is to make durable. -/
def awaited (n : Node S) : Option (OpId × OpNumber) :=
  match n.pendingCheckpoint with
  | some ⟨target, .awaitRoot id _, _⟩ => some (id, target)
  | _ => none

/-- What the replica has sent that carries bodies, the newest first. -/
def carriers (n : Node S) : List Outgoing :=
  n.emitted.filter fun e => e.msg.carriesBodies

def ground (n : Node S) : Ground where
  floors := n.floors
  roots := n.storage.roots
  checkpoints := n.storage.checkpoints
  awaited := n.awaited
  landed := n.storage.landed
  carriers := n.carriers

/-- What the acts are about. -/
def profile (n : Node S) : Face S × Ground := (n.face, n.ground)

/-- The highest report of a member, zero when there is none. -/
def greatest : List (MemberId × OpNumber) → MemberId → OpNumber
  | [], _ => 0
  | (member, op) :: rs, who => if member = who then max (greatest rs who) op else greatest rs who

/-- The table holds the highest report of each member. -/
def Tallied (n : Node S) : Prop :=
  ∀ who, (n.peerCheckpoint.get? who).getD 0 = greatest n.reports who

/-- The cache is what the reports say. -/
structure Counted (n : Node S) : Prop where
  cache : n.quorumCheckpoint = n.computeQuorumCheckpointOp
  tally : n.Tallied

theorem Counted.of_floors (hn : n.Counted) (h : n'.floors = n.floors) : n'.Counted := by
  have hlocal : n'.config.localMember = n.config.localMember := congrArg Floors.localMember h
  have hmembership : n'.membership = n.membership := congrArg Floors.membership h
  have hown : n'.checkpointOp = n.checkpointOp := congrArg Floors.checkpointOp h
  have hpeers : n'.peerCheckpoint = n.peerCheckpoint := congrArg Floors.peerCheckpoint h
  have hcache : n'.quorumCheckpoint = n.quorumCheckpoint := congrArg Floors.quorumCheckpoint h
  have hreports : n'.reports = n.reports := congrArg Floors.reports h
  obtain ⟨hn, htally⟩ := hn
  refine ⟨?_, fun who => by rw [hpeers, hreports, htally who]⟩
  unfold computeQuorumCheckpointOp voterCheckpoints Core.isVoter Core.localSlotOpt at hn ⊢
  rw [hlocal, hmembership, hown, hpeers, hcache]
  exact hn

/-- The checkpoint a message reports to a replica of this view, and the slot it is of: a voter
tells the primary with an acknowledgement, the primary tells the others with a commit, and a voter
tells the primary of a view that is being formed. -/
def hears (n : Node S) : Message → Option (ReplicaId × OpNumber)
  | .prepareOk ok =>
    if n.status = .normal ∧ n.isPrimary ∧ ok.view = n.view ∧
        ok.replica < n.membership.replicaCount then
      some (ok.replica, ok.checkpointOp)
    else none
  | .commit c =>
    if n.status = .normal ∧ ¬ n.isPrimary ∧ c.view = n.view then
      some (n.membership.primary n.view, c.checkpointOp)
    else none
  | .doViewChange m =>
    if n.status = .viewChange ∧ m.view = n.view ∧
        n.localSlotOpt = some (n.membership.primary n.view) ∧ n.viewChange.any (!·.dvcQuorum) ∧
        m.replica < n.membership.replicaCount then
      some (m.replica, m.checkpointOp)
    else none
  | _ => none

/-- The replica with a report taken down. -/
def hear (n : Node S) : Option (ReplicaId × OpNumber) → Node S
  | none => n
  | some (slot, op) => n.recordPeerCheckpoint slot op

/-- Nothing is reported: what was is kept, or a view transition has forgotten it. -/
def Hushed (n n' : Node S) : Prop :=
  n'.reports = n.reports ∧ n'.resets = n.resets ∨ n'.reports = [] ∧ n.resets < n'.resets

theorem Hushed.trans {n'' : Node S} (h : Hushed n n') (h' : Hushed n' n'') : Hushed n n'' := by
  rcases h' with ⟨hr', hs'⟩ | ⟨hr', hs'⟩
  · unfold Hushed
    rwa [hr', hs']
  · rcases h with ⟨-, hs⟩ | ⟨-, hs⟩
    · exact .inr ⟨hr', hs ▸ hs'⟩
    · exact .inr ⟨hr', hs.trans hs'⟩

/-- Reports are added only with a licence; the configuration is left only with one. -/
structure Steady (K : Licence) (n n' : Node S) : Prop where
  reports : K.report ∨ Hushed n n'
  resets : n.resets ≤ n'.resets
  membership : K.retire ∨ n'.membership = n.membership

namespace Steady

variable {K : Licence}

theorem of_floors (h : n'.floors = n.floors) : Steady K n n' :=
  ⟨.inr (.inl ⟨congrArg Floors.reports h, congrArg Floors.resets h⟩), (congrArg Floors.resets h).ge,
    .inr (congrArg Floors.membership h)⟩

theorem trans {n'' : Node S} (h : Steady K n n') (h' : Steady K n' n'') : Steady K n n'' where
  reports := by
    rcases h.reports with hK | hr
    · exact .inl hK
    · exact h'.reports.imp_right hr.trans
  resets := h.resets.trans h'.resets
  membership := by
    rcases h.membership with hK | hm
    · exact .inl hK
    · exact h'.membership.imp_right fun hm' => hm'.trans hm

end Steady

/-- Before any report only a replica that is a quorum by itself has a quorum checkpoint. -/
theorem computeQuorumCheckpointOp_unheard (n : Node S) (h : n.peerCheckpoint = .empty) :
    n.computeQuorumCheckpointOp =
      if n.membership.quorum = 1 && n.isVoter then n.checkpointOp else 0 := by
  obtain ⟨zeros, hzeros, hlist⟩ : ∃ zeros : List OpNumber, (∀ z ∈ zeros, z = 0) ∧
      n.voterCheckpoints = (if n.isVoter then [n.checkpointOp] else []) ++ zeros := by
    refine ⟨_, fun z hz => ?_, rfl⟩
    obtain ⟨m, -, rfl⟩ := mem_map.mp hz
    rw [h]
    rfl
  have hsorted : n.voterCheckpoints.Pairwise (· ≥ ·) := by
    have hz : zeros.Pairwise (· ≥ ·) := pairwise_of_forall_mem_list fun a ha b hb => by
      rw [hzeros a ha, hzeros b hb]
    rw [hlist]
    split
    · refine pairwise_cons.mpr ⟨fun z hz' => ?_, hz⟩
      rw [hzeros z hz']
      exact Nat.zero_le _
    · exact hz
  have hzero (i : Nat) : zeros[i]?.getD 0 = 0 := by
    cases hi : zeros[i]? with
    | none => rfl
    | some z => exact hzeros z (mem_of_getElem? hi)
  have hquorum : 0 < n.membership.quorum := Nat.succ_pos _
  unfold computeQuorumCheckpointOp
  rw [hsorted.insertionSort_eq, hlist]
  cases hv : n.isVoter with
  | false => simpa using hzero _
  | true =>
    by_cases hq : n.membership.quorum = 1
    · simp [hq]
    · obtain ⟨q, hq'⟩ : ∃ q, n.membership.quorum - 1 = q + 1 := ⟨n.membership.quorum - 2, by omega⟩
      simpa [hq, hq'] using hzero q

/-- The id was minted by this incarnation or by an earlier one. -/
def Minted (n : Node S) (id : OpId) : Prop :=
  id.incarnation < n.incarnation ∨ (id.incarnation = n.incarnation ∧ id.seq < n.nextOpId)

/-- Ids are minted upwards, and who has failed stays failed. -/
structure Later (n n' : Node S) : Prop where
  incarnation : n'.incarnation = n.incarnation
  nextOpId : n.nextOpId ≤ n'.nextOpId
  alive : n'.panicked = false → n.panicked = false

theorem Later.refl (n : Node S) : Later n n := ⟨rfl, le_refl _, id⟩

theorem Later.trans {n n' n'' : Node S} (h : Later n n') (h' : Later n' n'') : Later n n'' :=
  ⟨h'.incarnation.trans h.incarnation, h.nextOpId.trans h'.nextOpId,
    fun hp => h.alive (h'.alive hp)⟩

theorem Minted.later {id : OpId} (h : n.Minted id) (hl : Later n n') : n'.Minted id := by
  have hinc := hl.incarnation
  have hnext := hl.nextOpId
  unfold Minted at h ⊢
  omega

theorem Minted.ne_nextId {id : OpId} (h : n.Minted id) : id ≠ n.nextId := by
  rintro rfl
  unfold Minted Core.nextId at h
  simp at h

structure Coherent (n : Node S) : Prop where
  counted : n.Counted
  roots : ∀ e ∈ n.storage.roots, n.Minted e.id
  checkpoints : ∀ c ∈ n.storage.checkpoints, n.Minted c.id
  awaited : n.panicked = false → ∀ id target, n.awaited = some (id, target) →
    n.Minted id ∧ (∀ e ∈ n.storage.roots, e.id = id → e.state.checkpointOp = target) ∧
      ∀ c ∈ n.storage.checkpoints, c.id ≠ id

/-- Writes may settle and what waited may stop waiting. -/
theorem Coherent.of_subset (hn : n.Coherent) (hl : Later n n') (hc : n'.Counted)
    (hroots : n'.storage.roots ⊆ n.storage.roots)
    (hcheckpoints : n'.storage.checkpoints ⊆ n.storage.checkpoints)
    (hawaited : ∀ a, n'.awaited = some a → n.awaited = some a) : n'.Coherent where
  counted := hc
  roots e he := (hn.roots e (hroots he)).later hl
  checkpoints c hc := (hn.checkpoints c (hcheckpoints hc)).later hl
  awaited hp id target ha := by
    obtain ⟨hid, he, hc⟩ := hn.awaited (hl.alive hp) id target (hawaited _ ha)
    exact ⟨hid.later hl, fun e hmem => he e (hroots hmem), fun c hmem => hc c (hcheckpoints hmem)⟩

theorem Coherent.of_ground (hn : n.Coherent) (hl : Later n n') (hg : n'.ground = n.ground) :
    n'.Coherent := by
  have hroots : n'.storage.roots = n.storage.roots := congrArg Ground.roots hg
  have hcheckpoints : n'.storage.checkpoints = n.storage.checkpoints :=
    congrArg Ground.checkpoints hg
  have hawaited : n'.awaited = n.awaited := congrArg Ground.awaited hg
  apply hn.of_subset hl (hn.counted.of_floors (congrArg Ground.floors hg))
  · exact hroots ▸ Subset.refl _
  · exact hcheckpoints ▸ Subset.refl _
  · exact fun a ha => hawaited ▸ ha

theorem ground_submitAppendAs (n : Node S) (op : OpNumber) (header : Header) (body : Bytes)
    (kind : Pending) : (n.submitAppendAs op header body kind).1.ground = n.ground := by
  have hstorage : (n.storage.submitAppend n.nextId op header body).1.roots = n.storage.roots ∧
      (n.storage.submitAppend n.nextId op header body).1.checkpoints = n.storage.checkpoints ∧
      (n.storage.submitAppend n.nextId op header body).1.landed = n.storage.landed := by
    unfold Storage.submitAppend
    split
    · exact ⟨rfl, rfl, rfl⟩
    · dsimp only
      split <;> exact ⟨rfl, rfl, rfl⟩
  obtain ⟨hroots, hcheckpoints, hlanded⟩ := hstorage
  have heq {m : Node S} (hs : m.storage = (n.storage.submitAppend n.nextId op header body).1)
      (hf : m.floors = n.floors) (ha : m.awaited = n.awaited) (he : m.carriers = n.carriers) :
      m.ground = n.ground := by
    unfold ground
    rw [hs, hf, ha, he, hroots, hcheckpoints, hlanded]
  unfold Node.submitAppendAs
  split
  · rfl
  · dsimp only
    split <;> exact heq rfl rfl rfl rfl

theorem tending_ground : Tending fun n n' : Node S => n'.ground = n.ground where
  refl _ := rfl
  trans h h' := h'.trans h
  submit := ground_submitAppendAs
  edit _ _ _ _ := rfl

theorem ground_truncateWal (n : Node S) (above : OpNumber) :
    (n.truncateWal above).1.ground = n.ground := by
  unfold Node.truncateWal
  split <;> rfl

theorem ground_pruneWal (n : Node S) (below : OpNumber) :
    (n.pruneWal below).1.ground = n.ground := by
  unfold Node.pruneWal
  split <;> rfl

theorem face_emit (n : Node S) (r : Recipient) (m : Message) : (n.emit r m).face = n.face := by
  unfold Node.emit
  split <;> rfl

theorem carriers_emit (n : Node S) (r : Recipient) (m : Message) (h : m.carriesBodies = false) :
    (n.emit r m).carriers = n.carriers := by
  unfold Node.emit carriers
  split
  · rfl
  · simp only [filter_cons, h, Bool.false_eq_true, if_false]

theorem ground_emit_eq (n : Node S) (r : Recipient) (m : Message) :
    (n.emit r m).ground = { n.ground with carriers := (n.emit r m).carriers } := by
  unfold Node.emit
  split <;> rfl

theorem ground_emit (n : Node S) (r : Recipient) (m : Message) (h : m.carriesBodies = false) :
    (n.emit r m).ground = n.ground := by
  rw [ground_emit_eq, carriers_emit n r m h]
  rfl

variable [StateMachine S]

theorem Move.later {K : Licence} (h : Move K n n') : Later n n' :=
  ⟨h.incarnation_eq, h.nextOpId_le, h.alive⟩

theorem Moves.later {K : Licence} (h : Moves K n n') : Later n n' :=
  h.invariant (P := Later n) (fun _ _ hm hl => hl.trans hm.later) (.refl n)

/-- Moves that keep a replica coherent and touch nothing on the medium. Who waits for a root waited
for it before, or the root is new. -/
structure Deeds (K : Licence) (n n' : Node S) : Prop where
  moves : Moves K n n'
  landed : n'.storage.landed = n.storage.landed
  awaited : ∀ id target, n'.awaited = some (id, target) →
    n.awaited = some (id, target) ∨ ¬ n.Minted id
  steady : Steady K n n'
  coherent : n.Coherent → n'.Coherent

/-- Deeds that send no bodies. -/
structure Acts (K : Licence) (n n' : Node S) : Prop extends Deeds K n n' where
  mute : n'.carriers = n.carriers

/-- Acts, or a head is adopted: all reports are forgotten, and that of the primary who supplied the
head is taken down. -/
def Adopts (K : Licence) (view : View) (floor : OpNumber) (n n' : Node S) : Prop :=
  Acts K n n' ∨ ∃ m, Acts K n m ∧ (m.reports = [] ∧ n.resets < m.resets) ∧
    Acts K (m.recordPeerCheckpoint (m.membership.primary view) floor) n'

namespace Deeds

variable {K : Licence} {n n' n'' : Node S}

theorem refl (n : Node S) : Deeds K n n := ⟨.refl n, rfl, fun _ _ => .inl, .of_floors rfl, id⟩

theorem trans (h : Deeds K n n') (h' : Deeds K n' n'') : Deeds K n n'' where
  moves := h.moves.trans h'.moves
  landed := h'.landed.trans h.landed
  awaited id target ha := by
    rcases h'.awaited id target ha with hold | hnew
    · exact h.awaited id target hold
    · exact .inr fun hid => hnew (hid.later h.moves.later)
  steady := h.steady.trans h'.steady
  coherent hn := h'.coherent (h.coherent hn)

theorem mono {K' : Licence} (hK : K.Le K') (h : Deeds K n n') : Deeds K' n n' :=
  ⟨h.moves.mono hK, h.landed, h.awaited,
    ⟨h.steady.reports.imp_left hK.report, h.steady.resets,
      h.steady.membership.imp_left hK.retire⟩, h.coherent⟩

theorem emit (n : Node S) (r : Recipient) (m : Message) : Deeds K n (n.emit r m) := by
  have hg := ground_emit_eq n r m
  have hface := face_emit n r m
  have hroots : (n.emit r m).storage.roots = n.storage.roots := congrArg Ground.roots hg
  have hcheckpoints : (n.emit r m).storage.checkpoints = n.storage.checkpoints :=
    congrArg Ground.checkpoints hg
  have hawaited : (n.emit r m).awaited = n.awaited := congrArg Ground.awaited hg
  refine ⟨.of_eq hface, congrArg Ground.landed hg, fun _ _ ha => .inl (hawaited ▸ ha),
    .of_floors (congrArg Ground.floors hg), fun hn => ?_⟩
  apply hn.of_subset (Move.quiet (K := K) hface).later
    (hn.counted.of_floors (congrArg Ground.floors hg))
  · exact hroots ▸ Subset.refl _
  · exact hcheckpoints ▸ Subset.refl _
  · exact fun a ha => hawaited ▸ ha

end Deeds

namespace Acts

variable {K : Licence} {n n' n'' : Node S}

theorem refl (n : Node S) : Acts K n n := ⟨.refl n, rfl⟩

theorem trans (h : Acts K n n') (h' : Acts K n' n'') : Acts K n n'' :=
  ⟨h.toDeeds.trans h'.toDeeds, h'.mute.trans h.mute⟩

/-- A check that turns the step away leaves the node as it was. -/
theorem guard {c : Prop} {_ : Decidable c} (h : ¬ c → Acts K n n') :
    Acts K n (if c then n else n') := by
  split
  · exact refl n
  · exact h ‹_›

theorem provided {c : Prop} {_ : Decidable c} (h : c → Acts K n n') :
    Acts K n (if c then n' else n) := by
  split
  · exact h ‹_›
  · exact refl n

theorem single (h : Move K n n') (hg : n'.ground = n.ground) : Acts K n n' where
  moves := .single h
  landed := congrArg Ground.landed hg
  awaited _ _ ha := .inl ((congrArg Ground.awaited hg).symm.trans ha)
  steady := .of_floors (congrArg Ground.floors hg)
  coherent hn := hn.of_ground h.later hg
  mute := congrArg Ground.carriers hg

theorem of_eq (h : n'.profile = n.profile) : Acts K n n' :=
  single (.quiet (congrArg Prod.fst h)) (congrArg Prod.snd h)

theorem of_mint (h : n'.profile = ({ n.face with nextOpId := n.nextOpId + 1 }, n.ground)) :
    Acts K n n' :=
  single (.mint (congrArg Prod.fst h)) (congrArg Prod.snd h)

/-- Writes settle or are abandoned, and what waited for them stops waiting. -/
theorem forget (h : Move K n n') (hlanded : n'.storage.landed = n.storage.landed)
    (hsteady : Steady K n n') (hcounted : n.Counted → n'.Counted)
    (hroots : n'.storage.roots ⊆ n.storage.roots)
    (hcheckpoints : n'.storage.checkpoints = n.storage.checkpoints)
    (hawaited : ∀ a, n'.awaited = some a → n.awaited = some a)
    (hmute : n'.carriers = n.carriers) : Acts K n n' where
  moves := .single h
  landed := hlanded
  awaited _ _ ha := .inl (hawaited _ ha)
  steady := hsteady
  coherent hn := hn.of_subset h.later (hcounted hn.counted) hroots
    (hcheckpoints ▸ Subset.refl _) hawaited
  mute := hmute

/-- The reports, the configuration or the replica's own checkpoint change, and the cache is
computed again. -/
theorem recount (h : Move K n n') (hg : n'.ground = { n.ground with floors := n'.floors })
    (hsteady : Steady K n n') (hcache : n'.quorumCheckpoint = n'.computeQuorumCheckpointOp)
    (htally : n.Tallied → n'.Tallied) : Acts K n n' := by
  have hroots : n'.storage.roots = n.storage.roots := congrArg Ground.roots hg
  have hawaited : n'.awaited = n.awaited := congrArg Ground.awaited hg
  apply forget h (congrArg Ground.landed hg) hsteady fun hn => ⟨hcache, htally hn.tally⟩
  · exact hroots ▸ Subset.refl _
  · exact congrArg Ground.checkpoints hg
  · exact fun a ha => hawaited ▸ ha
  · exact congrArg Ground.carriers hg

/-- No checkpoint waits for a root any more. -/
theorem unawait (h : n'.face = n.face) (hg : n'.ground = { n.ground with awaited := none }) :
    Acts K n n' := by
  have hroots : n'.storage.roots = n.storage.roots := congrArg Ground.roots hg
  have hawaited : n'.awaited = none := congrArg Ground.awaited hg
  have hfloors : n'.floors = n.floors := congrArg Ground.floors hg
  apply forget (.quiet h) (congrArg Ground.landed hg) (.of_floors hfloors) (·.of_floors hfloors)
  · exact hroots ▸ Subset.refl _
  · exact congrArg Ground.checkpoints hg
  · intro a ha
    rw [hawaited] at ha
    cases ha
  · exact congrArg Ground.carriers hg

theorem mono {K' : Licence} (hK : K.Le K') (h : Acts K n n') : Acts K' n n' :=
  ⟨h.toDeeds.mono hK, h.mute⟩

/-! ## Writes to the superblock -/

/-- A root goes to the superblock under a fresh id, which nobody waits for. -/
theorem root (n : Node S) (role : RootRole) (st : VsrState) :
    Acts K n { n.mintId with storage := n.storage.submitRoot role n.nextId st } := by
  have hs := Storage.sameWrites_submitRoot n.storage role n.nextId st
  have hface : { n.mintId with storage := n.storage.submitRoot role n.nextId st }.face =
      { n.face with nextOpId := n.nextOpId + 1 } :=
    face_storage n.mintId hs
  have hmove : Move K n { n.mintId with storage := n.storage.submitRoot role n.nextId st } :=
    .mint hface
  have hfresh :
      { n.mintId with storage := n.storage.submitRoot role n.nextId st }.Minted n.nextId :=
    .inr ⟨rfl, Nat.lt_succ_self _⟩
  refine ⟨⟨.single hmove, hs.landed, fun _ _ => .inl, .of_floors rfl,
    fun hn => ⟨hn.counted.of_floors rfl, fun e he => ?_, fun c hc => ?_,
      fun hp id target ha => ?_⟩⟩, rfl⟩
  · rcases Storage.mem_roots_submitRoot he with hold | ⟨hid, -⟩
    · exact (hn.roots e hold).later hmove.later
    · rw [hid]
      exact hfresh
  · exact (hn.checkpoints c (hs.checkpoints ▸ hc)).later hmove.later
  · obtain ⟨hid, hroots, hcheckpoints⟩ := hn.awaited hp id target ha
    refine ⟨hid.later hmove.later, fun e he heq => ?_, fun c hc => ?_⟩
    · rcases Storage.mem_roots_submitRoot he with hold | ⟨hnew, -⟩
      · exact hroots e hold heq
      · exact absurd (heq.symm.trans hnew) hid.ne_nextId
    · exact hcheckpoints c (hs.checkpoints ▸ hc)

/-- A checkpoint waits for the root just written for it. -/
theorem awaitRoot (n : Node S) (st : VsrState) (pc : PendingCheckpoint) (dag : CheckpointDag)
    (hst : st.checkpointOp = pc.targetOp) :
    Acts K n { n.mintId with
      storage := n.storage.submitRoot .checkpoint n.nextId st
      pendingCheckpoint := some { pc with step := .awaitRoot n.nextId dag } } := by
  have h := root (K := K) n .checkpoint st
  refine ⟨⟨h.moves.trans (.of_eq rfl), h.landed, fun id target ha => ?_, .of_floors rfl,
    fun hn => ?_⟩, rfl⟩
  · cases ha
    exact .inr fun hid => hid.ne_nextId rfl
  have hm := h.coherent hn
  refine ⟨hm.counted.of_floors rfl, hm.roots, hm.checkpoints, fun _ id target ha => ?_⟩
  cases ha
  refine ⟨.inr ⟨rfl, Nat.lt_succ_self _⟩, fun e he heq => ?_, fun c hc => ?_⟩
  · rcases Storage.mem_roots_submitRoot he with hold | ⟨-, hstate⟩
    · exact absurd heq (hn.roots e hold).ne_nextId
    · rw [hstate, hst]
  · have hc : c ∈ n.storage.checkpoints :=
      (Storage.sameWrites_submitRoot n.storage .checkpoint n.nextId st).checkpoints ▸ hc
    exact (hn.checkpoints c hc).ne_nextId

/-- A failed replica may say that it waits. -/
theorem awaitFailed (n : Node S) (hp : n.panicked = true) (pc : PendingCheckpoint)
    (dag : CheckpointDag) :
    Acts K n { n with pendingCheckpoint := some { pc with step := .awaitRoot n.nextId dag } } := by
  refine ⟨⟨.of_eq rfl, rfl, fun id target ha => ?_, .of_floors rfl,
    fun hn => ⟨hn.counted.of_floors rfl, hn.roots, hn.checkpoints, ?_⟩⟩, rfl⟩
  · cases ha
    exact .inr fun hid => hid.ne_nextId rfl
  · intro hp'
    exact absurd (hp.symm.trans hp') nofun

/-- An envelope goes to the superblock; the checkpoint it belongs to has no root yet. -/
theorem envelope (n : Node S) {storage : Storage} (op : OpNumber) (snapshot : Bytes)
    (hs : n.storage.submitCheckpoint n.nextId op snapshot = some storage) (pc : PendingCheckpoint)
    (dag : CheckpointDag) :
    Acts K n { n.mintId with
      storage := storage
      pendingCheckpoint := some { pc with step := .awaitSnapshot n.nextId dag } } := by
  unfold Storage.submitCheckpoint at hs
  split at hs
  · cases hs
    refine ⟨⟨.of_mint rfl, rfl, nofun, .of_floors rfl, fun hn => ⟨hn.counted.of_floors rfl,
      fun e he => ?_, fun c hc => ?_, nofun⟩⟩, rfl⟩
    · exact (hn.roots e he).later ⟨rfl, Nat.le_succ _, id⟩
    · rw [mem_singleton.mp hc]
      exact .inr ⟨rfl, Nat.lt_succ_self _⟩
  · cases hs

/-! The moves that run a function of the storage leave the ground alone. -/

theorem submitOrDeferAppend (n : Node S) (op : OpNumber) (header : Header) (body : Bytes)
    (kind : Pending) (hop : kind.op = op) (hlate : n.status = .retired → K.late) :
    Acts K n (n.submitOrDeferAppend op header body kind) :=
  single (.append n op header body kind hop hlate) (ground_submitAppendAs n op header body kind)

theorem release (n : Node S) (op : OpNumber) : Acts K n (n.releaseDeferredAppend op) :=
  single (.release n op) (tending_ground.releaseDeferredAppend n op)

theorem truncate (n : Node S) (above : OpNumber) : Acts K n (n.truncateAbsorbing above) :=
  single (.truncate n above)
    ((tending_ground.absorbWalCancellations _ _).trans (ground_truncateWal n above))

theorem prune (n : Node S) (below : OpNumber) : Acts K n (n.pruneAbsorbing below) :=
  single (.prune n below)
    ((tending_ground.absorbWalCancellations _ _).trans (ground_pruneWal n below))

theorem gc (n : Node S) {floor : OpNumber} (hfloor : floor ≤ n.checkpointOp) :
    Acts K n (n.gcAbsorbing floor) :=
  single (.gc n floor hfloor) ((tending_ground.absorbWalCancellations _ _).trans
    ((tending_ground.dropSubsumedAppends _ _).trans (ground_pruneWal n (floor + 1))))

theorem nack (n : Node S) (gap : OpNumber) : Acts K n (n.nackTruncated gap) :=
  single (.nack n gap) rfl

theorem settle (seq : Nat)
    (h : n'.profile = ({ n.face with pending := n.pending.erase seq }, n.ground)) :
    Acts K n n' :=
  single (.settle seq (congrArg Prod.fst h)) (congrArg Prod.snd h)

/-- A loop does the acts its turns do. -/
theorem foldl {α : Type} {f : Node S → α → Node S} (step : ∀ n a, Acts K n (f n a)) :
    ∀ (as : List α) (n : Node S), Acts K n (as.foldl f n)
  | [], n => refl n
  | a :: as, n => (step n a).trans (foldl step as (f n a))

theorem awake (h : Acts K n n') (hn : Awake K n) : Awake K n' := h.moves.awake hn

/-- A loop whose turns may append. -/
theorem foldl_awake {α : Type} {f : Node S → α → Node S}
    (step : ∀ n a, Awake K n → Acts K n (f n a)) :
    ∀ (as : List α) (n : Node S), Awake K n → Acts K n (as.foldl f n)
  | [], n, _ => refl n
  | a :: as, n, hn =>
    (step n a hn).trans (foldl_awake step as (f n a) ((step n a hn).awake hn))

theorem panic (n : Node S) : Acts K n n.panic := single (.post (.fail n.ledger) rfl) rfl

theorem assert (n : Node S) (c : Bool) : Acts K n (n.assert c) := by
  unfold Node.assert
  split
  · exact refl n
  · exact panic n

theorem withLocalSlot {k : ReplicaId → Node S} (h : ∀ slot, Acts K n (k slot)) :
    Acts K n (n.withLocalSlot k) := by
  unfold Node.withLocalSlot
  split
  · exact h _
  · exact panic n

theorem emit (n : Node S) (r : Recipient) (m : Message) (hm : m.carriesBodies = false) :
    Acts K n (n.emit r m) :=
  ⟨.emit n r m, carriers_emit n r m hm⟩

theorem event (n : Node S) {e : Event} (h : e.answer = none) : Acts K n (n.event e) := by
  refine single (.quiet ?_) rfl
  unfold Node.event face ledger
  simp [h]

/-- The rows of accepted requests are rewritten. -/
theorem touch (n : Node S) {clients : SessionTable}
    (h : SessionTable.Retouched n.clients clients) : Acts K n { n with clients := clients } :=
  single (.post (.touch n.ledger clients h) rfl) rfl

/-- Entries of the log are dropped. -/
theorem dropLog (n : Node S) {log : OrdMap Nat LogEntry}
    (h : ∀ k e, log.get? k = some e → n.log.get? k = some e) : Acts K n { n with log := log } :=
  single (.log (fun k e he => .inl (h k e he)) rfl) rfl

theorem filterLog (n : Node S) (p : Nat → LogEntry → Bool) :
    Acts K n { n with log := n.log.filter p } := by
  apply dropLog
  intro k e he
  exact (OrdMap.get?_filter_eq_some.mp he).1

theorem eraseLog (n : Node S) (op : OpNumber) : Acts K n { n with log := n.log.erase op } := by
  apply dropLog
  intro k e he
  rw [OrdMap.get?_erase] at he
  split at he
  · cases he
  · exact he

theorem writeLog (hK : K.insert) (n : Node S) (log : OrdMap Nat LogEntry) :
    Acts K n { n with log := log } :=
  single (.log (fun _ _ _ => .inr hK) rfl) rfl

end Acts

end Node

end Viewstamp
