import Mathlib.Data.Finset.SymmDiff
import Viewstamp.Commit
import Viewstamp.Lib.Counting
import Viewstamp.Reconfigure.Plan

/- Single-voter deltas: when one applies, what the successor looks like, and how
   the quorums of the two configurations meet.

   A delta that moves a voter leaves one of the two directions of intersection
   open, by the parity of the predecessor's voter count. For a promotion the
   source closes it with the learner's proof of catch-up, for a demotion with
   the successor majority that the committing votes must contain. -/
namespace Viewstamp

open List

namespace Membership

variable {replicaCount learnerCount : Nat} {members : List MemberId} {m s : Membership}
    {who : MemberId} {d : SingleVoterDelta}

/-! ## Building a successor -/

theorem validateStructure_ok (h : Valid replicaCount learnerCount members) :
    ∃ valid, validateStructure replicaCount learnerCount members = .ok valid := by
  refine ⟨⟨h⟩, ?_⟩
  unfold validateStructure
  rw [dif_neg (Nat.ne_of_gt h.pos), dif_neg (Nat.not_lt.mpr h.voters),
    dif_neg (Nat.not_lt.mpr h.nodes), dif_neg (not_not.mpr h.length),
    dif_neg (not_not.mpr h.nodup)]

theorem exists_reconfigure_iff :
    (∃ s, m.reconfigure replicaCount learnerCount members = .ok s) ↔
      Valid replicaCount learnerCount members := by
  unfold reconfigure build fromDurableParts
  constructor
  · rintro ⟨s, h⟩
    split at h
    · rename_i hv _
      exact hv
    · cases h
  · intro hv
    obtain ⟨valid, hok⟩ := validateStructure_ok hv
    rw [hok]
    exact ⟨_, rfl⟩

/-- The successor's epoch follows its predecessor's, and its id chains from it. -/
theorem chained_of_reconfigure (h : m.reconfigure replicaCount learnerCount members = .ok s) :
    s.epoch = saturatingSucc m.epoch ∧
      s.configId = computeConfigId s.epoch s.replicaCount s.learnerCount s.members m.configId := by
  unfold reconfigure build fromDurableParts at h
  split at h
  · cases h
    refine ⟨rfl, ?_⟩
    dsimp only
  · cases h

/-- A rearrangement of the members is valid when the counts are. -/
theorem valid_of_perm (hperm : members.Perm m.members)
    (hcount : replicaCount + learnerCount = m.nodeCount) (hpos : 0 < replicaCount)
    (hcap : replicaCount ≤ maxVotingReplicas) : Valid replicaCount learnerCount members where
  pos := hpos
  voters := hcap
  nodes := hcount ▸ m.valid.nodes
  length := by rw [hperm.length_eq, m.valid.length, hcount]; rfl
  nodup := hperm.nodup_iff.mpr m.valid.nodup

/-! ## Voters and learners -/

def voterList (m : Membership) : List MemberId := m.members.take m.replicaCount
def learnerList (m : Membership) : List MemberId := m.members.drop m.replicaCount

theorem voterList_append (m : Membership) : m.voterList ++ m.learnerList = m.members :=
  take_append_drop _ _

theorem nodup_voterList (m : Membership) : m.voterList.Nodup :=
  m.valid.nodup.sublist (take_sublist _ _)

theorem nodup_learnerList (m : Membership) : m.learnerList.Nodup :=
  m.valid.nodup.sublist (drop_sublist _ _)

theorem disjoint_lists (m : Membership) : m.voterList.Disjoint m.learnerList :=
  disjoint_take_drop m.valid.nodup (le_refl _)

theorem length_voterList (m : Membership) : m.voterList.length = m.replicaCount := m.length_voters

theorem length_learnerList (m : Membership) : m.learnerList.length = m.learnerCount := by
  have := m.valid.length
  rw [learnerList, length_drop]
  omega

theorem card_voterSet (m : Membership) : m.voterSet.card = m.replicaCount := by
  have hcard := toFinset_card_of_nodup m.nodup_voterList
  rw [m.length_voterList] at hcard
  exact hcard

theorem slotOf_eq_none : m.slotOf who = none ↔ who ∉ m.members := by
  simp [slotOf, idxOf?_eq_none_iff]

/-- A member found at a slot is a voter or a learner by that slot. -/
theorem slotOf_kind {slot : ReplicaId}
    (h : m.slotOf who = some slot) :
    (m.isVoter slot = true ↔ who ∈ m.voterList) ∧
      (m.isLearner slot = true ↔ who ∈ m.learnerList) := by
  simp only [slotOf, idxOf?_eq_some_iff] at h
  obtain ⟨hlt, hget, -⟩ := h
  have hlen := m.valid.length
  have hdis := m.disjoint_lists
  have hget : m.members[slot] = who := by simpa using hget
  have hvoter : slot < m.replicaCount → who ∈ m.voterList := by
    intro hv
    rw [voterList, mem_take_iff_getElem]
    exact ⟨slot, lt_min hv hlt, hget⟩
  have hlearner : m.replicaCount ≤ slot → who ∈ m.learnerList := by
    intro hl
    rw [learnerList, mem_drop_iff_getElem]
    refine ⟨slot - m.replicaCount, by omega, ?_⟩
    rw [← hget]
    congr 1
    omega
  simp only [isVoter, isLearner, nodeCount, Bool.and_eq_true, decide_eq_true_eq]
  rcases Nat.lt_or_ge slot m.replicaCount with hv | hl
  · exact ⟨⟨fun _ => hvoter hv, fun _ => hv⟩,
      ⟨fun h => absurd h.1 (Nat.not_le.mpr hv), fun h => (hdis (hvoter hv) h).elim⟩⟩
  · exact ⟨⟨fun h => absurd h (Nat.not_lt.mpr hl), fun h => (hdis h (hlearner hl)).elim⟩,
      ⟨fun _ => hlearner hl, fun _ => ⟨hl, decide_eq_true (hlen ▸ hlt)⟩⟩⟩

theorem filter_ne_eq_erase {l : List MemberId} (h : l.Nodup) (who : MemberId) :
    l.filter (fun x => decide (x ≠ who)) = l.erase who := by
  rw [h.erase_eq_filter]
  congr 1
  funext x
  simp [bne, BEq.beq]

/-! ## When a delta applies -/

/-- The documented preconditions of the deltas. -/
def Admits (m : Membership) : SingleVoterDelta → Prop
  | .promoteLearner who => who ∈ m.learnerSet ∧ m.replicaCount < maxVotingReplicas
  | .demoteVoter who => who ∈ m.voterSet ∧ m.replicaCount ≠ 1
  | .addLearner who => who ∉ m.members ∧ m.nodeCount < 2 ^ 16 - 1
  | .removeLearner who => who ∈ m.learnerSet

instance (m : Membership) : (d : SingleVoterDelta) → Decidable (m.Admits d)
  | .promoteLearner _ => inferInstanceAs (Decidable (_ ∧ _))
  | .demoteVoter _ => inferInstanceAs (Decidable (_ ∧ _))
  | .addLearner _ => inferInstanceAs (Decidable (_ ∧ _))
  | .removeLearner who => inferInstanceAs (Decidable (who ∈ m.learnerSet))

theorem mem_learnerSet : who ∈ m.learnerSet ↔ who ∈ m.learnerList := mem_toFinset

theorem mem_voterSet : who ∈ m.voterSet ↔ who ∈ m.voterList := mem_toFinset

theorem applyDelta_promoteLearner (h : who ∈ m.learnerSet) :
    m.applyDelta (.promoteLearner who) = m.reconfigure (m.replicaCount + 1) (m.learnerCount - 1)
      (m.voterList ++ [who] ++ m.learnerList.erase who) := by
  rw [mem_learnerSet] at h
  rw [← filter_ne_eq_erase m.nodup_learnerList]
  cases hslot : m.slotOf who with
  | none => exact absurd (mem_of_mem_drop h) (slotOf_eq_none.mp hslot)
  | some slot =>
    have hkind := (slotOf_kind hslot).2.mpr h
    simp only [applyDelta, hslot, hkind]
    rfl

theorem applyDelta_demoteVoter (h : who ∈ m.voterSet)
    (hcount : m.replicaCount ≠ 1) :
    m.applyDelta (.demoteVoter who) = m.reconfigure (m.replicaCount - 1) (m.learnerCount + 1)
      (m.voterList.erase who ++ m.learnerList ++ [who]) := by
  rw [mem_voterSet] at h
  rw [← filter_ne_eq_erase m.nodup_voterList]
  cases hslot : m.slotOf who with
  | none => exact absurd (mem_of_mem_take h) (slotOf_eq_none.mp hslot)
  | some slot =>
    have hkind := (slotOf_kind hslot).1.mpr h
    simp only [applyDelta, hslot, hkind, if_neg hcount]
    rfl

theorem applyDelta_removeLearner (h : who ∈ m.learnerSet) :
    m.applyDelta (.removeLearner who) =
      m.reconfigure m.replicaCount (m.learnerCount - 1) (m.members.erase who) := by
  rw [mem_learnerSet] at h
  rw [← filter_ne_eq_erase m.valid.nodup]
  cases hslot : m.slotOf who with
  | none => exact absurd (mem_of_mem_drop h) (slotOf_eq_none.mp hslot)
  | some slot =>
    have hkind := (slotOf_kind hslot).2.mpr h
    simp only [applyDelta, hslot, hkind]
    rfl

theorem applyDelta_addLearner (h : who ∉ m.members) :
    m.applyDelta (.addLearner who) =
      m.reconfigure m.replicaCount (m.learnerCount + 1) (m.members ++ [who]) := by
  simp [applyDelta, h]

/-- The member a delta names is where the delta needs it. -/
def Seats (m : Membership) : SingleVoterDelta → Prop
  | .promoteLearner who => who ∈ m.learnerSet
  | .demoteVoter who => who ∈ m.voterSet ∧ m.replicaCount ≠ 1
  | .addLearner who => who ∉ m.members
  | .removeLearner who => who ∈ m.learnerSet

theorem seats_of_applyDelta (h : m.applyDelta d = .ok s) : m.Seats d := by
  cases d with
  | promoteLearner who =>
    simp only [applyDelta] at h
    split at h
    · cases h
    · rename_i slot hslot
      split at h
      · cases h
      · rename_i hkind
        exact mem_learnerSet.mpr ((slotOf_kind hslot).2.mp (by simpa using hkind))
  | demoteVoter who =>
    simp only [applyDelta] at h
    split at h
    · cases h
    · rename_i slot hslot
      split at h
      · cases h
      · rename_i hkind
        split at h
        · cases h
        · rename_i hcount
          exact ⟨mem_voterSet.mpr ((slotOf_kind hslot).1.mp (by simpa using hkind)), hcount⟩
  | addLearner who =>
    simp only [applyDelta] at h
    split at h
    · cases h
    · rename_i hmem
      have hnew : who ∉ m.members := by simpa using hmem
      exact hnew
  | removeLearner who =>
    simp only [applyDelta] at h
    split at h
    · cases h
    · rename_i slot hslot
      split at h
      · cases h
      · rename_i hkind
        exact mem_learnerSet.mpr ((slotOf_kind hslot).2.mp (by simpa using hkind))

theorem perm_promoted (h : who ∈ m.learnerSet) :
    (m.voterList ++ [who] ++ m.learnerList.erase who).Perm m.members := by
  have hcons := (perm_cons_erase (mem_learnerSet.mp h)).symm
  rw [append_assoc, singleton_append, ← m.voterList_append]
  exact hcons.append_left _

theorem perm_demoted (h : who ∈ m.voterSet) :
    (m.voterList.erase who ++ m.learnerList ++ [who]).Perm m.members := by
  have hcons := (perm_cons_erase (mem_voterSet.mp h)).symm
  refine (perm_append_comm).trans ?_
  rw [singleton_append, ← cons_append, ← m.voterList_append]
  exact hcons.append_right _

theorem learnerCount_pos (h : who ∈ m.learnerSet) : 0 < m.learnerCount := by
  rw [← m.length_learnerList]
  exact length_pos_of_mem (mem_learnerSet.mp h)

/-- A delta applies exactly under its documented preconditions. -/
theorem exists_applyDelta_iff : (∃ s, m.applyDelta d = .ok s) ↔ m.Admits d := by
  have hpos := m.valid.pos
  have hcap := m.valid.voters
  have hnodes := m.valid.nodes
  constructor
  · rintro ⟨s, h⟩
    have hseats := seats_of_applyDelta h
    cases d with
    | promoteLearner who =>
      rw [applyDelta_promoteLearner hseats] at h
      exact ⟨hseats, (exists_reconfigure_iff.mp ⟨s, h⟩).voters⟩
    | demoteVoter who => exact hseats
    | addLearner who =>
      rw [applyDelta_addLearner hseats] at h
      have hvalid := (exists_reconfigure_iff.mp ⟨s, h⟩).nodes
      exact ⟨hseats, by unfold nodeCount; omega⟩
    | removeLearner who => exact hseats
  · intro hadmits
    cases d with
    | promoteLearner who =>
      obtain ⟨hmem, hlt⟩ := hadmits
      have := learnerCount_pos hmem
      rw [applyDelta_promoteLearner hmem, exists_reconfigure_iff]
      exact valid_of_perm (perm_promoted hmem) (by unfold nodeCount; omega) (by omega) hlt
    | demoteVoter who =>
      obtain ⟨hmem, hcount⟩ := hadmits
      rw [applyDelta_demoteVoter hmem hcount, exists_reconfigure_iff]
      exact valid_of_perm (perm_demoted hmem) (by unfold nodeCount; omega) (by omega) (by omega)
    | addLearner who =>
      obtain ⟨hmem, hlt⟩ := hadmits
      rw [applyDelta_addLearner hmem, exists_reconfigure_iff]
      unfold nodeCount at hlt
      refine ⟨hpos, hcap, by omega, ?_, ?_⟩
      · rw [length_append, m.valid.length, length_singleton]
        omega
      · exact nodup_append.mpr ⟨m.valid.nodup, nodup_singleton who, by
          intro a ha b hb
          rw [mem_singleton.mp hb]
          rintro rfl
          exact hmem ha⟩
    | removeLearner who =>
      have hlearners := learnerCount_pos hadmits
      have hmem : who ∈ m.members := mem_of_mem_drop (mem_learnerSet.mp hadmits)
      rw [applyDelta_removeLearner hadmits, exists_reconfigure_iff]
      refine ⟨hpos, hcap, by omega, ?_, m.valid.nodup.erase who⟩
      rw [length_erase_of_mem hmem, m.valid.length]
      omega

/-! ## The successor's voters -/

theorem sets_of_reconfigure {voters rest : List MemberId}
    (h : m.reconfigure replicaCount learnerCount (voters ++ rest) = .ok s)
    (hlen : voters.length = replicaCount) :
    s.replicaCount = replicaCount ∧ s.voterSet = voters.toFinset ∧
      s.learnerSet = rest.toFinset := by
  obtain ⟨hcount, hmembers⟩ := reconfigure_ok h
  refine ⟨hcount, ?_, ?_⟩
  · rw [voterSet, hcount, hmembers, take_left' hlen]
  · rw [learnerSet, hcount, hmembers, drop_left' hlen]

theorem toFinset_erase_eq {l : List MemberId} (h : l.Nodup) (who : MemberId) :
    (l.erase who).toFinset = l.toFinset.erase who := by
  ext x
  rw [mem_toFinset, h.mem_erase_iff, Finset.mem_erase, mem_toFinset]

theorem chained_of_applyDelta
    (h : m.applyDelta d = .ok s) :
    s.epoch = saturatingSucc m.epoch ∧
      s.configId = computeConfigId s.epoch s.replicaCount s.learnerCount s.members m.configId := by
  have hseats := seats_of_applyDelta h
  cases d with
  | promoteLearner who => exact chained_of_reconfigure (applyDelta_promoteLearner hseats ▸ h)
  | demoteVoter who => exact chained_of_reconfigure (applyDelta_demoteVoter hseats.1 hseats.2 ▸ h)
  | addLearner who => exact chained_of_reconfigure (applyDelta_addLearner hseats ▸ h)
  | removeLearner who => exact chained_of_reconfigure (applyDelta_removeLearner hseats ▸ h)

/-- How a delta changes the voters and their count. -/
inductive Moves (m s : Membership) : SingleVoterDelta → Prop where
  | promoteLearner {who : MemberId} (mem : who ∈ m.learnerSet)
    (count : s.replicaCount = m.replicaCount + 1) (voters : s.voterSet = insert who m.voterSet) :
    Moves m s (.promoteLearner who)
  | demoteVoter {who : MemberId} (mem : who ∈ m.voterSet)
    (count : s.replicaCount + 1 = m.replicaCount) (voters : s.voterSet = m.voterSet.erase who) :
    Moves m s (.demoteVoter who)
  | addLearner {who : MemberId} (count : s.replicaCount = m.replicaCount)
    (voters : s.voterSet = m.voterSet) : Moves m s (.addLearner who)
  | removeLearner {who : MemberId} (count : s.replicaCount = m.replicaCount)
    (voters : s.voterSet = m.voterSet) : Moves m s (.removeLearner who)

/-- The learners after a delta. -/
def learnerSetAfter (lc : Finset MemberId) : SingleVoterDelta → Finset MemberId
  | .promoteLearner x | .removeLearner x => lc.erase x
  | .demoteVoter x | .addLearner x => insert x lc

theorem sets_of_applyDelta (h : m.applyDelta d = .ok s) :
    Moves m s d ∧ s.learnerSet = learnerSetAfter m.learnerSet d := by
  have hpos := m.valid.pos
  have hseats := seats_of_applyDelta h
  cases d with
  | promoteLearner who =>
    rw [applyDelta_promoteLearner hseats] at h
    obtain ⟨hcount, hvoters, hlearners⟩ := sets_of_reconfigure h (by
      rw [length_append, m.length_voterList, length_singleton])
    refine ⟨.promoteLearner hseats hcount ?_, ?_⟩
    · rw [hvoters]
      ext x
      simp [voterSet, voterList]
    · rw [hlearners, toFinset_erase_eq m.nodup_learnerList]
      rfl
  | demoteVoter who =>
    obtain ⟨hmem, hne⟩ := hseats
    rw [applyDelta_demoteVoter hmem hne, append_assoc] at h
    obtain ⟨hcount, hvoters, hlearners⟩ := sets_of_reconfigure h (by
      rw [length_erase_of_mem (mem_voterSet.mp hmem), m.length_voterList])
    refine ⟨.demoteVoter hmem (by omega) ?_, ?_⟩
    · rw [hvoters, toFinset_erase_eq m.nodup_voterList]
      rfl
    · rw [hlearners]
      ext x
      simp [learnerSetAfter, learnerSet, learnerList]
  | addLearner who =>
    rw [applyDelta_addLearner hseats, ← m.voterList_append, append_assoc] at h
    obtain ⟨hcount, hvoters, hlearners⟩ := sets_of_reconfigure h m.length_voterList
    refine ⟨.addLearner hcount hvoters, ?_⟩
    rw [hlearners]
    ext x
    simp [learnerSetAfter, learnerSet, learnerList]
  | removeLearner who =>
    have houtside : who ∉ m.voterList :=
      fun hv => m.disjoint_lists hv (mem_learnerSet.mp hseats)
    rw [applyDelta_removeLearner hseats, ← m.voterList_append,
      erase_append_right _ houtside] at h
    obtain ⟨hcount, hvoters, hlearners⟩ := sets_of_reconfigure h m.length_voterList
    refine ⟨.removeLearner hcount hvoters, ?_⟩
    rw [hlearners, toFinset_erase_eq m.nodup_learnerList]
    rfl

theorem moves_of_applyDelta (h : m.applyDelta d = .ok s) : Moves m s d := (sets_of_applyDelta h).1

theorem voterSet_subset (m : Membership) : m.voterSet ⊆ m.members.toFinset := by
  intro who hwho
  rw [mem_toFinset]
  exact mem_of_mem_take (mem_voterSet.mp hwho)

/-- Every voter of the successor is a member of the predecessor. -/
theorem Moves.firstNewVoter (h : Moves m s d) :
    m.firstNewVoter s.replicaCount s.members = none := by
  have hsub : s.voterSet ⊆ m.members.toFinset := by
    cases h with
    | promoteLearner mem _ voters =>
      rw [voters]
      refine Finset.insert_subset ?_ m.voterSet_subset
      rw [mem_toFinset]
      exact mem_of_mem_drop (mem_learnerSet.mp mem)
    | demoteVoter _ _ voters =>
      rw [voters]
      exact (Finset.erase_subset _ _).trans m.voterSet_subset
    | addLearner _ voters | removeLearner _ voters => exact voters ▸ m.voterSet_subset
  unfold Membership.firstNewVoter
  rw [find?_eq_none]
  intro who hwho
  have := hsub (mem_voterSet.mpr hwho)
  simpa using this

/-- The two voter sets differ in at most one member. -/
theorem Moves.card_symmDiff (h : Moves m s d) : (symmDiff m.voterSet s.voterSet).card ≤ 1 := by
  have hone (who : MemberId) (hsub : symmDiff m.voterSet s.voterSet ⊆ {who}) :
      (symmDiff m.voterSet s.voterSet).card ≤ 1 := by
    have := Finset.card_le_card hsub
    rwa [Finset.card_singleton] at this
  cases h with
  | @promoteLearner who _ _ voters | @demoteVoter who _ _ voters =>
    refine hone who ?_
    intro x hx
    rw [voters] at hx
    simp [Finset.mem_symmDiff] at hx ⊢
    tauto
  | addLearner _ voters | removeLearner _ voters => simp [voters]

/-! ## Quorums of the two configurations -/

/-- Every replication quorum of `m` meets every view-change quorum of `s`. -/
def QuorumsMeet (m s : Membership) : Prop :=
  ∀ votes ⊆ m.voterSet, m.quorum ≤ votes.card →
    ∀ change ⊆ s.voterSet, s.quorumViewChange ≤ change.card → (votes ∩ change).Nonempty

theorem quorum_le (m : Membership) : m.quorum ≤ m.voterSet.card := by
  have := m.valid.pos
  rw [card_voterSet, quorum]
  omega

theorem quorumViewChange_le (m : Membership) : m.quorumViewChange ≤ m.voterSet.card := by
  have := m.valid.pos
  rw [card_voterSet, quorumViewChange, quorum]
  omega

theorem quorumsMeet_iff_of_subset (h : m.voterSet ⊆ s.voterSet) :
    QuorumsMeet m s ↔ s.replicaCount < m.quorum + s.quorumViewChange := by
  rw [← s.card_voterSet]
  exact Counting.all_meet_iff h m.quorum_le

theorem quorumsMeet_iff_of_superset (h : s.voterSet ⊆ m.voterSet) :
    QuorumsMeet m s ↔ m.replicaCount < m.quorum + s.quorumViewChange := by
  rw [← m.card_voterSet, Nat.add_comm, ← Counting.all_meet_iff h s.quorumViewChange_le]
  constructor
  · intro hmeet change hchange hsize votes hvotes hquorum
    rw [Finset.inter_comm]
    exact hmeet votes hvotes hquorum change hchange hsize
  · intro hmeet votes hvotes hquorum change hchange hsize
    rw [Finset.inter_comm]
    exact hmeet change hchange hsize votes hvotes hquorum

end Membership

/-- The delta changes the voting set. -/
def SingleVoterDelta.movesVoter : SingleVoterDelta → Bool
  | promoteLearner _ | demoteVoter _ => true
  | addLearner _ | removeLearner _ => false

namespace Membership

variable {m s : Membership}

/-- The predecessor's commits reach the successor's view changes unless a voter moves out of or
into an odd group; the other way round, unless the group is even. -/
theorem Moves.quorumsMeet {d : SingleVoterDelta} (h : Moves m s d) :
    (QuorumsMeet m s ↔ (d.movesVoter = true → m.replicaCount % 2 = 0)) ∧
      (QuorumsMeet s m ↔ (d.movesVoter = true → m.replicaCount % 2 = 1)) := by
  have hpos := m.valid.pos
  have hpos' := s.valid.pos
  cases h with
  | promoteLearner _ count voters =>
    have hsub : m.voterSet ⊆ s.voterSet := voters ▸ Finset.subset_insert _ _
    rw [quorumsMeet_iff_of_subset hsub, quorumsMeet_iff_of_superset hsub]
    simp only [quorum, quorumViewChange, SingleVoterDelta.movesVoter, forall_const]
    omega
  | demoteVoter _ count voters =>
    have hsub : s.voterSet ⊆ m.voterSet := voters ▸ Finset.erase_subset _ _
    rw [quorumsMeet_iff_of_superset hsub, quorumsMeet_iff_of_subset hsub]
    simp only [quorum, quorumViewChange, SingleVoterDelta.movesVoter, forall_const]
    omega
  | addLearner count voters | removeLearner count voters =>
    rw [quorumsMeet_iff_of_subset voters.symm.subset, quorumsMeet_iff_of_subset voters.subset]
    simp [quorum, quorumViewChange, SingleVoterDelta.movesVoter]
    omega

/-- A majority of the successor meets each of its view-change quorums. -/
theorem meets_of_majority {votes change : Finset MemberId}
    (hvotes : s.quorum ≤ (votes ∩ s.voterSet).card) (hchange : change ⊆ s.voterSet)
    (hsize : s.quorumViewChange ≤ change.card) : (votes ∩ change).Nonempty := by
  have hpos := s.valid.pos
  have hmeet := Finset.inter_nonempty_of_card_lt_card_add_card
    (Finset.inter_subset_right : votes ∩ s.voterSet ⊆ s.voterSet) hchange (by
      rw [card_voterSet]
      unfold quorumViewChange at hsize
      unfold quorum at hsize hvotes
      omega)
  exact hmeet.mono (Finset.inter_subset_inter_right Finset.inter_subset_left)

/-- The members at a set of slots. -/
def seated (m : Membership) (slots : Finset ReplicaId) : Finset MemberId :=
  m.voterSet.filter fun who => ∃ slot ∈ slots, m.memberAt slot = some who

theorem memberAt_inj {a b : ReplicaId} {who : MemberId} (ha : m.memberAt a = some who)
    (hb : m.memberAt b = some who) : a = b := by
  unfold memberAt at ha hb
  obtain ⟨hlt, hget⟩ := List.getElem?_eq_some_iff.mp ha
  obtain ⟨hlt', hget'⟩ := List.getElem?_eq_some_iff.mp hb
  exact (m.valid.nodup.getElem_inj_iff).mp (hget.trans hget'.symm)

/-- Slots that hold members of a set of voters count at most the members they hold. -/
theorem card_le_seated {slots retained : Finset ReplicaId} {kept : Finset MemberId}
    (hsub : retained ⊆ slots)
    (hkept : ∀ slot ∈ retained, slot < m.replicaCount ∧ ∃ who ∈ kept, m.memberAt slot = some who) :
    retained.card ≤ (m.seated slots ∩ kept).card := by
  refine Finset.card_le_card_of_injOn (fun slot => (m.memberAt slot).getD 0) ?_ ?_
  · intro slot hslot
    obtain ⟨hlt, who, hwho, hat⟩ := hkept slot hslot
    have hvoter : who ∈ m.voterSet := by
      rw [mem_voterSet, voterList, mem_take_iff_getElem]
      obtain ⟨hlen, hget⟩ := List.getElem?_eq_some_iff.mp hat
      exact ⟨slot, lt_min hlt hlen, hget⟩
    simp only [hat, Option.getD_some]
    exact Finset.mem_inter.mpr ⟨Finset.mem_filter.mpr ⟨hvoter, slot, hsub hslot, hat⟩, hwho⟩
  · intro a ha b hb heq
    obtain ⟨-, who, -, hat⟩ := hkept a ha
    obtain ⟨-, who', -, hat'⟩ := hkept b hb
    simp only [hat, hat', Option.getD_some] at heq
    subst heq
    exact memberAt_inj hat hat'

end Membership

/-- Votes that satisfy the commit rule of a demotion hold a majority of the successor. -/
theorem majority_of_shrinkSuccessorQuorumMet {n : Core} {op : OpNumber} {e : LogEntry}
    {s : Membership} {who : MemberId} {prevConfigId : Checksum} {oks : Finset ReplicaId}
    (hentry : n.log.get? op = some e)
    (hbody : e.body = .reconfigure (.fromMembership s prevConfigId))
    (hdelta : n.membership.applyDelta (.demoteVoter who) = .ok s)
    (hmet : n.shrinkSuccessorQuorumMet op oks = true) :
    s.quorum ≤ (n.membership.seated oks ∩ s.voterSet).card := by
  have hless : s.replicaCount < n.membership.replicaCount := by
    cases Membership.moves_of_applyDelta hdelta with
    | demoteVoter _ count _ => omega
  have hpayload : (n.log.get? op).bind (·.body.asReconfigure) =
      some (.fromMembership s prevConfigId) := by
    rw [hentry, Option.bind_some, hbody]
    rfl
  unfold Core.shrinkSuccessorQuorumMet at hmet
  rw [hpayload] at hmet
  dsimp only [ReconfigurePayload.fromMembership] at hmet
  rw [if_neg (Nat.not_le.mpr hless), decide_eq_true_eq] at hmet
  refine Nat.le_trans hmet (Membership.card_le_seated (Finset.filter_subset _ _) ?_)
  intro slot hslot
  obtain ⟨-, hlt, hany⟩ := Finset.mem_filter.mp hslot
  obtain ⟨who', hat, hin⟩ := Option.any_eq_true _ _ |>.mp hany
  exact ⟨hlt, who', Membership.mem_voterSet.mpr (decide_eq_true_eq.mp hin), hat⟩

namespace Membership

/-- What a delta does, for every membership: when it applies, how the successor chains, and which
quorums of the two configurations meet. -/
theorem applyDelta_quorums (m : Membership) (d : SingleVoterDelta) :
    ((∃ s, m.applyDelta d = .ok s) ↔ m.Admits d) ∧
    ∀ s, m.applyDelta d = .ok s →
      (∃ valid, validateStructure s.replicaCount s.learnerCount s.members = .ok valid) ∧
      s.epoch = saturatingSucc m.epoch ∧
      s.configId = computeConfigId s.epoch s.replicaCount s.learnerCount s.members m.configId ∧
      m.firstNewVoter s.replicaCount s.members = none ∧
      (symmDiff m.voterSet s.voterSet).card ≤ 1 ∧
      (QuorumsMeet m s ↔ (d.movesVoter = true → m.replicaCount % 2 = 0)) ∧
      (QuorumsMeet s m ↔ (d.movesVoter = true → m.replicaCount % 2 = 1)) ∧
      (∀ votes change : Finset MemberId, s.quorum ≤ (votes ∩ s.voterSet).card →
        change ⊆ s.voterSet → s.quorumViewChange ≤ change.card → (votes ∩ change).Nonempty) ∧
      ∀ (n : Core) (op : OpNumber) (e : LogEntry) (who : MemberId) (prevConfigId : Checksum)
        (oks : Finset ReplicaId), d = .demoteVoter who → n.membership = m →
        n.log.get? op = some e → e.body = .reconfigure (.fromMembership s prevConfigId) →
        n.shrinkSuccessorQuorumMet op oks = true →
        s.quorum ≤ (m.seated oks ∩ s.voterSet).card := by
  refine ⟨exists_applyDelta_iff, ?_⟩
  intro s h
  have hmoves := moves_of_applyDelta h
  obtain ⟨hepoch, hid⟩ := chained_of_applyDelta h
  refine ⟨validateStructure_ok s.valid, hepoch, hid, hmoves.firstNewVoter, hmoves.card_symmDiff,
    hmoves.quorumsMeet.1, hmoves.quorumsMeet.2, ?_, ?_⟩
  · intro votes change hvotes hchange hsize
    exact meets_of_majority hvotes hchange hsize
  · rintro n op e who prevConfigId oks rfl rfl hentry hbody hmet
    exact majority_of_shrinkSuccessorQuorumMet hentry hbody h hmet

/-- A single voter and its learner. -/
def pairMembership : Membership := (genesis 1 1 [7, 8]).toOption.get (by decide +kernel)

/-- Promoting the learner of a single voter: the old voter alone commits, and the new one alone
changes the view. -/
theorem promoted_pair_quorums_miss :
    ∃ s, pairMembership.applyDelta (.promoteLearner 8) = .ok s ∧
      ¬ QuorumsMeet pairMembership s := by
  obtain ⟨s, hs⟩ := (exists_applyDelta_iff (m := pairMembership)
    (d := .promoteLearner 8)).mpr (by decide +kernel)
  refine ⟨s, hs, ?_⟩
  rw [(moves_of_applyDelta hs).quorumsMeet.1]
  decide +kernel

end Membership

end Viewstamp
