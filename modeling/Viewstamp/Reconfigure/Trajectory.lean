import Viewstamp.Reconfigure.Delta

/- Where a reconfiguration plan leads.

   The plan depends on the live configuration only through its two sets of members,
   so it is read here as a function of them (`Plan.steps`). `Due` says which delta
   may come next: the head of the plan, or any demotion once one is due. Every part
   of the planner's contract is a statement about one due step, carried along the
   plan by what remains of it: executing a due step leaves a plan that is one step
   shorter, and executing the head leaves the rest of the plan. -/
namespace Viewstamp

open Finset

variable {s : Finset MemberId}

/-! ## Walking a set in order -/

theorem coe_ascending (s : Finset MemberId) : (ascending s : Multiset MemberId) = s.val := by
  obtain ⟨m, hm⟩ := s
  induction m using Quot.inductionOn with
  | h l => exact Quot.sound (l.perm_insertionSort _)

theorem pairwise_ascending (s : Finset MemberId) : (ascending s).Pairwise (· ≤ ·) := by
  obtain ⟨m, hm⟩ := s
  induction m using Quot.inductionOn with
  | h l => exact l.pairwise_insertionSort _

theorem mem_ascending {x : MemberId} : x ∈ ascending s ↔ x ∈ s := by
  rw [← Multiset.mem_coe, coe_ascending]
  exact Iff.rfl

theorem length_ascending (s : Finset MemberId) : (ascending s).length = s.card := by
  rw [← Multiset.coe_card, coe_ascending]
  rfl

/-- The ascending walk is the only ordered one. -/
theorem eq_ascending {l : List MemberId} (hl : l.Pairwise (· ≤ ·))
    (h : (l : Multiset MemberId) = s.val) : l = ascending s :=
  List.Perm.eq_of_pairwise (fun _ _ _ _ => le_antisymm) hl (pairwise_ascending s)
    (Multiset.coe_eq_coe.mp (h.trans (coe_ascending s).symm))

theorem filter_ascending (s : Finset MemberId) (p : MemberId → Prop) [DecidablePred p] :
    (ascending s).filter (fun x => decide (p x)) = ascending (s.filter p) := by
  refine eq_ascending ((pairwise_ascending s).filter _) ?_
  rw [filter_val, ← coe_ascending s, Multiset.filter_coe]

theorem ascending_eq_nil : ascending s = [] ↔ s = ∅ := by
  rw [← List.length_eq_zero_iff, length_ascending, card_eq_zero]

theorem ascending_eq_cons {x : MemberId} {rest : List MemberId} (h : ascending s = x :: rest) :
    x ∈ s ∧ rest = ascending (s.erase x) := by
  have hmem : x ∈ s := mem_ascending.mp (h ▸ List.mem_cons_self)
  refine ⟨hmem, eq_ascending ?_ ?_⟩
  · exact (List.pairwise_cons.mp (h ▸ pairwise_ascending s)).2
  · rw [erase_val, ← coe_ascending s, h, ← Multiset.cons_coe, Multiset.erase_cons_head]

/-! ## The sets of a configuration -/

namespace Membership

variable {m s : Membership}

/-- The voter count less a majority: how many voters may be lost. -/
def faultTolerance (m : Membership) : Nat := (m.replicaCount - 1) / 2

theorem disjoint_sets (m : Membership) : Disjoint m.voterSet m.learnerSet := by
  rw [disjoint_left]
  intro x hv hl
  exact m.disjoint_lists (mem_voterSet.mp hv) (mem_learnerSet.mp hl)

theorem mem_members_iff {x : MemberId} : x ∈ m.members ↔ x ∈ m.voterSet ∪ m.learnerSet := by
  rw [mem_union, mem_voterSet, mem_learnerSet, ← List.mem_append, voterList_append]

theorem card_learnerSet (m : Membership) : m.learnerSet.card = m.learnerCount := by
  rw [← m.length_learnerList]
  exact List.toFinset_card_of_nodup m.nodup_learnerList

theorem nodeCount_eq (m : Membership) : m.nodeCount = (m.voterSet ∪ m.learnerSet).card := by
  rw [card_union_of_disjoint m.disjoint_sets, m.card_voterSet, m.card_learnerSet]
  rfl

/-- The voters after a delta. -/
def voterSetAfter (vc : Finset MemberId) : SingleVoterDelta → Finset MemberId
  | .promoteLearner x => insert x vc
  | .demoteVoter x => vc.erase x
  | .addLearner _ | .removeLearner _ => vc

theorem voterSet_applyDelta {d : SingleVoterDelta} (h : m.applyDelta d = .ok s) :
    s.voterSet = voterSetAfter m.voterSet d := by
  cases moves_of_applyDelta h with
  | promoteLearner _ _ voters | demoteVoter _ _ voters => exact voters
  | addLearner _ voters | removeLearner _ voters => exact voters

theorem learnerSet_applyDelta {d : SingleVoterDelta} (h : m.applyDelta d = .ok s) :
    s.learnerSet = learnerSetAfter m.learnerSet d := (sets_of_applyDelta h).2

/-- Fold `apply_delta` along a plan. -/
def applyDeltas (m : Membership) : List SingleVoterDelta → Except MembershipError Membership
  | [] => .ok m
  | d :: ds =>
    match m.applyDelta d with
    | .ok next => next.applyDeltas ds
    | .error e => .error e

end Membership

/-! ## The plan as a function of the sets -/

namespace Plan

variable {x : MemberId} {rest : List MemberId}

open Viewstamp.Membership

variable {vc lc : Finset MemberId} {t : MembershipTarget} {d : SingleVoterDelta}

/-- The interleaved promotions of `ps` and demotions of `ds` from a count of `n` voters. -/
def core (lt : Finset MemberId) (n : Nat) (ps ds : Finset MemberId) : List SingleVoterDelta :=
  interleave lt (ps.card + ds.card) n (ascending ps) (ascending ds)

def steps (vc lc : Finset MemberId) (t : MembershipTarget) : List SingleVoterDelta :=
  (ascending (lc \ (t.learners ∪ t.voters))).map .removeLearner
    ++ ((ascending (t.voters \ (vc ∪ lc))).map .addLearner
    ++ (core t.learners vc.card (t.voters \ vc) (vc \ t.voters)
    ++ (ascending (t.learners \ (lc ∪ vc))).map .addLearner))

/-- A member the minuend lacks makes no difference. -/
theorem sdiff_congr_of_notMem {s a b : Finset MemberId} (hx : x ∉ s)
    (h : ∀ y, y ≠ x → (y ∈ a ↔ y ∈ b)) : s \ a = s \ b := by
  ext y
  simp only [mem_sdiff]
  refine and_congr_right fun hy => not_congr (h y ?_)
  rintro rfl
  exact hx hy

theorem core_empty (lt : Finset MemberId) (n : Nat) : core lt n ∅ ∅ = [] := rfl

theorem core_promote {lt ps ds : Finset MemberId} {n : Nat} (hx : ascending ps = x :: rest)
    (hturn : ds = ∅ ∨ n % 2 = 1) :
    core lt n ps ds = .promoteLearner x :: core lt (n + 1) (ps.erase x) ds := by
  obtain ⟨hmem, hrest⟩ := ascending_eq_cons hx
  have hcard : ps.card + ds.card = (ps.erase x).card + ds.card + 1 := by
    rw [← card_erase_add_one hmem]
    omega
  unfold core
  rw [hcard, hx, hrest]
  cases hds : ascending ds with
  | nil => rfl
  | cons y ys =>
    have hodd : n % 2 = 1 := by
      refine hturn.resolve_left fun hempty => ?_
      rw [ascending_eq_nil.mpr hempty] at hds
      cases hds
    rw [interleave, if_pos hodd]

theorem core_demote {lt ps ds : Finset MemberId} {n : Nat} (hx : ascending ds = x :: rest)
    (hturn : ps = ∅ ∨ n % 2 ≠ 1) :
    core lt n ps ds = demotion lt x ++ core lt (n - 1) ps (ds.erase x) := by
  obtain ⟨hmem, hrest⟩ := ascending_eq_cons hx
  have hcard : ps.card + ds.card = ps.card + (ds.erase x).card + 1 := by
    rw [← card_erase_add_one hmem]
    omega
  unfold core
  rw [hcard, hx, hrest]
  cases hps : ascending ps with
  | nil => rfl
  | cons y ys =>
    have heven : n % 2 ≠ 1 := by
      refine hturn.resolve_left fun hempty => ?_
      rw [ascending_eq_nil.mpr hempty] at hps
      cases hps
    rw [interleave, if_neg heven]

/-- The deltas that may come next: a learner the target has no use for leaves, a new voter is
seated as a learner once those have left, a promotion or a demotion is made at the parity that
calls for it, and the target's other learners come last. -/
inductive Due (vc lc : Finset MemberId) (t : MembershipTarget) : SingleVoterDelta → Prop where
  | prune {x : MemberId} (mem : x ∈ lc) (learner : x ∉ t.learners) (voter : x ∉ t.voters) :
    Due vc lc t (.removeLearner x)
  | stage {x : MemberId} (pruned : lc ⊆ t.learners ∪ t.voters) (target : x ∈ t.voters)
    (voter : x ∉ vc) (learner : x ∉ lc) : Due vc lc t (.addLearner x)
  | promote {x : MemberId} (staged : t.voters ⊆ vc ∪ lc) (target : x ∈ t.voters)
    (voter : x ∉ vc) (turn : vc ⊆ t.voters ∨ vc.card % 2 = 1) : Due vc lc t (.promoteLearner x)
  | demote {x : MemberId} (staged : t.voters ⊆ vc ∪ lc) (voter : x ∈ vc)
    (target : x ∉ t.voters) (turn : t.voters ⊆ vc ∨ vc.card % 2 ≠ 1) : Due vc lc t (.demoteVoter x)
  | join {x : MemberId} (pruned : lc ⊆ t.learners ∪ t.voters) (voters : vc = t.voters)
    (target : x ∈ t.learners) (learner : x ∉ lc) (voter : x ∉ vc) : Due vc lc t (.addLearner x)

/-! ### The head of the plan -/

theorem steps_pruned (h : lc ⊆ t.learners ∪ t.voters) : steps vc lc t =
    (ascending (t.voters \ (vc ∪ lc))).map .addLearner
      ++ (core t.learners vc.card (t.voters \ vc) (vc \ t.voters)
      ++ (ascending (t.learners \ (lc ∪ vc))).map .addLearner) := by
  rw [steps, sdiff_eq_empty_iff_subset.mpr h]
  rfl

theorem steps_staged (h : lc ⊆ t.learners ∪ t.voters) (hstaged : t.voters ⊆ vc ∪ lc) :
    steps vc lc t = core t.learners vc.card (t.voters \ vc) (vc \ t.voters)
      ++ (ascending (t.learners \ (lc ∪ vc))).map .addLearner := by
  rw [steps_pruned h, sdiff_eq_empty_iff_subset.mpr hstaged]
  rfl

theorem steps_prune (hx : ascending (lc \ (t.learners ∪ t.voters)) = x :: rest) :
    steps vc lc t = .removeLearner x :: steps vc (lc.erase x) t := by
  obtain ⟨hmem, hrest⟩ := ascending_eq_cons hx
  simp only [mem_sdiff, mem_union, not_or] at hmem
  obtain ⟨hlc, hlt, hvt⟩ := hmem
  have hobsolete : (lc \ (t.learners ∪ t.voters)).erase x
      = lc.erase x \ (t.learners ∪ t.voters) := (erase_sdiff_comm ..).symm
  have hstage : t.voters \ (vc ∪ lc) = t.voters \ (vc ∪ lc.erase x) :=
    sdiff_congr_of_notMem hvt fun y hy => by simp [hy]
  have hjoin : t.learners \ (lc ∪ vc) = t.learners \ (lc.erase x ∪ vc) :=
    sdiff_congr_of_notMem hlt fun y hy => by simp [hy]
  unfold steps
  rw [hx, hrest, hobsolete, ← hstage, ← hjoin]
  rfl

theorem steps_stage (hdisjoint : Disjoint t.voters t.learners)
    (hpruned : lc ⊆ t.learners ∪ t.voters) (hx : ascending (t.voters \ (vc ∪ lc)) = x :: rest) :
    steps vc lc t = .addLearner x :: steps vc (insert x lc) t := by
  obtain ⟨hmem, hrest⟩ := ascending_eq_cons hx
  simp only [mem_sdiff, mem_union, not_or] at hmem
  obtain ⟨hvt, hvc, hlc⟩ := hmem
  have hpruned' : insert x lc ⊆ t.learners ∪ t.voters :=
    insert_subset (mem_union_right _ hvt) hpruned
  have hstage : (t.voters \ (vc ∪ lc)).erase x = t.voters \ (vc ∪ insert x lc) := by
    rw [union_insert, sdiff_insert]
  have hjoin : t.learners \ (lc ∪ vc) = t.learners \ (insert x lc ∪ vc) :=
    sdiff_congr_of_notMem (disjoint_left.mp hdisjoint hvt) fun y hy => by simp [hy]
  rw [steps_pruned hpruned, steps_pruned hpruned', hx, hrest, hstage, ← hjoin]
  rfl

theorem steps_promote (hdisjoint : Disjoint t.voters t.learners)
    (hpruned : lc ⊆ t.learners ∪ t.voters) (hstaged : t.voters ⊆ vc ∪ lc)
    (hx : ascending (t.voters \ vc) = x :: rest) (hturn : vc \ t.voters = ∅ ∨ vc.card % 2 = 1) :
    steps vc lc t = .promoteLearner x :: steps (insert x vc) (lc.erase x) t := by
  obtain ⟨hmem, -⟩ := ascending_eq_cons hx
  obtain ⟨hvt, hvc⟩ := mem_sdiff.mp hmem
  have hpruned' : lc.erase x ⊆ t.learners ∪ t.voters := (erase_subset _ _).trans hpruned
  have hstaged' : t.voters ⊆ insert x vc ∪ lc.erase x := by
    intro y hy
    have := mem_union.mp (hstaged hy)
    simp only [mem_union, mem_insert, mem_erase]
    tauto
  have hpromotes : (t.voters \ vc).erase x = t.voters \ insert x vc :=
    (sdiff_insert ..).symm
  have hdemotes : vc \ t.voters = insert x vc \ t.voters :=
    (insert_sdiff_of_mem _ hvt).symm
  have hjoin : t.learners \ (lc ∪ vc) = t.learners \ (lc.erase x ∪ insert x vc) :=
    sdiff_congr_of_notMem (disjoint_left.mp hdisjoint hvt) fun y hy => by simp [hy]
  rw [steps_staged hpruned hstaged, steps_staged hpruned' hstaged', core_promote hx hturn,
    hpromotes, ← hdemotes, ← hjoin, card_insert_of_notMem hvc]
  rfl

theorem steps_demote (hsets : Disjoint vc lc) (hpruned : lc ⊆ t.learners ∪ t.voters)
    (hstaged : t.voters ⊆ vc ∪ lc) (hx : ascending (vc \ t.voters) = x :: rest)
    (hturn : t.voters \ vc = ∅ ∨ vc.card % 2 ≠ 1) :
    steps vc lc t = .demoteVoter x :: steps (vc.erase x) (insert x lc) t := by
  obtain ⟨hmem, -⟩ := ascending_eq_cons hx
  obtain ⟨hvc, hvt⟩ := mem_sdiff.mp hmem
  have hlc : x ∉ lc := disjoint_left.mp hsets hvc
  have hne : ∀ y ∈ t.voters, y ≠ x := fun y hy heq => hvt (heq ▸ hy)
  have hpromotes : t.voters \ vc = t.voters \ vc.erase x :=
    sdiff_congr_of_notMem hvt fun y hy => by simp [hy]
  have hdemotes : (vc \ t.voters).erase x = vc.erase x \ t.voters :=
    (erase_sdiff_comm ..).symm
  have hcore : core t.learners vc.card (t.voters \ vc) (vc \ t.voters) = demotion t.learners x
      ++ core t.learners (vc.erase x).card (t.voters \ vc.erase x) (vc.erase x \ t.voters) := by
    rw [core_demote hx hturn, hdemotes, ← hpromotes, card_erase_of_mem hvc]
  rw [steps_staged hpruned hstaged, hcore]
  by_cases hlt : x ∈ t.learners
  · have hpruned' : insert x lc ⊆ t.learners ∪ t.voters :=
      insert_subset (mem_union_left _ hlt) hpruned
    have hstaged' : t.voters ⊆ vc.erase x ∪ insert x lc := by
      intro y hy
      have := mem_union.mp (hstaged hy)
      simp only [mem_union, mem_insert, mem_erase]
      tauto
    have hjoin : t.learners \ (lc ∪ vc) = t.learners \ (insert x lc ∪ vc.erase x) := by
      rw [insert_union, ← union_insert, insert_erase hvc]
    rw [steps_staged hpruned' hstaged', ← hjoin, demotion, if_pos hlt]
    rfl
  · -- the demoted voter is the one obsolete learner of what is left
    have hobsolete : insert x lc \ (t.learners ∪ t.voters) = {x} := by
      ext y
      simp only [mem_sdiff, mem_insert, mem_union, mem_singleton]
      constructor
      · rintro ⟨rfl | hy, hout⟩
        · rfl
        · exact absurd (mem_union.mp (hpruned hy)) hout
      · rintro rfl
        tauto
    have hwalk : ascending (insert x lc \ (t.learners ∪ t.voters)) = [x] := by
      rw [hobsolete]
      exact (eq_ascending (List.pairwise_singleton _ x) rfl).symm
    have hstaged' : t.voters ⊆ vc.erase x ∪ lc := by
      intro y hy
      have := mem_union.mp (hstaged hy)
      have := hne y hy
      simp only [mem_union, mem_erase]
      tauto
    have hjoin : t.learners \ (lc ∪ vc) = t.learners \ (lc ∪ vc.erase x) :=
      sdiff_congr_of_notMem hlt fun y hy => by simp [hy]
    rw [steps_prune hwalk, erase_insert hlc, steps_staged hpruned hstaged', ← hjoin,
      demotion, if_neg hlt]
    rfl

theorem steps_join (hvoters : vc = t.voters) (hpruned : lc ⊆ t.learners ∪ t.voters)
    (hx : ascending (t.learners \ (lc ∪ vc)) = x :: rest) :
    steps vc lc t = .addLearner x :: steps vc (insert x lc) t := by
  obtain ⟨hmem, hrest⟩ := ascending_eq_cons hx
  simp only [mem_sdiff, mem_union, not_or] at hmem
  have hpruned' : insert x lc ⊆ t.learners ∪ t.voters :=
    insert_subset (mem_union_left _ hmem.1) hpruned
  have hjoin : (t.learners \ (lc ∪ vc)).erase x = t.learners \ (insert x lc ∪ vc) := by
    rw [insert_union, sdiff_insert]
  rw [steps_staged hpruned (hvoters ▸ subset_union_left),
    steps_staged hpruned' (hvoters ▸ subset_union_left), hx, hrest, hjoin, hvoters,
    Finset.sdiff_self, core_empty]
  rfl

/-- Nothing is left to do exactly at the target. -/
theorem eq_target_of_steps_nil (hsets : Disjoint vc lc) (hdisjoint : Disjoint t.voters t.learners)
    (h : steps vc lc t = []) :
    vc = t.voters ∧ lc = t.learners := by
  simp only [steps, List.append_eq_nil_iff, List.map_eq_nil_iff, ascending_eq_nil,
    sdiff_eq_empty_iff_subset] at h
  obtain ⟨hpruned, hstaged, hcore, hjoin⟩ := h
  have hpromotes : t.voters \ vc = ∅ := by
    by_contra hne
    obtain ⟨x, rest, hx⟩ := List.exists_cons_of_ne_nil (mt ascending_eq_nil.mp hne)
    by_cases hturn : vc \ t.voters = ∅ ∨ vc.card % 2 = 1
    · rw [core_promote hx hturn] at hcore
      cases hcore
    · obtain ⟨hds, heven⟩ := not_or.mp hturn
      obtain ⟨y, ys, hy⟩ := List.exists_cons_of_ne_nil (mt ascending_eq_nil.mp hds)
      rw [core_demote hy (.inr heven)] at hcore
      cases hcore
  have hdemotes : vc \ t.voters = ∅ := by
    by_contra hne
    obtain ⟨x, rest, hx⟩ := List.exists_cons_of_ne_nil (mt ascending_eq_nil.mp hne)
    rw [core_demote hx (.inl hpromotes)] at hcore
    cases hcore
  have hvoters : vc = t.voters := Subset.antisymm
    (sdiff_eq_empty_iff_subset.mp hdemotes) (sdiff_eq_empty_iff_subset.mp hpromotes)
  refine ⟨hvoters, Subset.antisymm ?_ ?_⟩
  · intro y hy
    refine (mem_union.mp (hpruned hy)).resolve_right fun hv => ?_
    exact disjoint_left.mp hsets (hvoters ▸ hv) hy
  · intro y hy
    refine (mem_union.mp (hjoin hy)).resolve_right fun hv => ?_
    exact disjoint_left.mp hdisjoint (hvoters ▸ hv) hy

/-- The head of the plan is due, and what it leaves is planned as the rest. -/
theorem steps_cons (hsets : Disjoint vc lc) (hdisjoint : Disjoint t.voters t.learners)
    {rest : List SingleVoterDelta} (h : steps vc lc t = d :: rest) :
    Due vc lc t d ∧ steps (voterSetAfter vc d) (learnerSetAfter lc d) t = rest := by
  by_cases hpruned : lc \ (t.learners ∪ t.voters) = ∅
  swap
  · obtain ⟨x, xs, hx⟩ := List.exists_cons_of_ne_nil (mt ascending_eq_nil.mp hpruned)
    have hmem := (ascending_eq_cons hx).1
    simp only [mem_sdiff, mem_union, not_or] at hmem
    rw [steps_prune hx] at h
    cases h
    exact ⟨.prune hmem.1 hmem.2.1 hmem.2.2, rfl⟩
  rw [sdiff_eq_empty_iff_subset] at hpruned
  by_cases hstaged : t.voters \ (vc ∪ lc) = ∅
  swap
  · obtain ⟨x, xs, hx⟩ := List.exists_cons_of_ne_nil (mt ascending_eq_nil.mp hstaged)
    have hmem := (ascending_eq_cons hx).1
    simp only [mem_sdiff, mem_union, not_or] at hmem
    rw [steps_stage hdisjoint hpruned hx] at h
    cases h
    exact ⟨.stage hpruned hmem.1 hmem.2.1 hmem.2.2, rfl⟩
  rw [sdiff_eq_empty_iff_subset] at hstaged
  -- the core: the parity picks the side, the other one when a side has run out
  have hpromote (hps : t.voters \ vc ≠ ∅) (hturn : vc \ t.voters = ∅ ∨ vc.card % 2 = 1) :
      Due vc lc t d ∧ steps (voterSetAfter vc d) (learnerSetAfter lc d) t = rest := by
    obtain ⟨x, xs, hx⟩ := List.exists_cons_of_ne_nil (mt ascending_eq_nil.mp hps)
    obtain ⟨hvt, hvc⟩ := mem_sdiff.mp (ascending_eq_cons hx).1
    rw [steps_promote hdisjoint hpruned hstaged hx hturn] at h
    cases h
    exact ⟨.promote hstaged hvt hvc (hturn.imp_left sdiff_eq_empty_iff_subset.mp), rfl⟩
  have hdemote (hds : vc \ t.voters ≠ ∅) (hturn : t.voters \ vc = ∅ ∨ vc.card % 2 ≠ 1) :
      Due vc lc t d ∧ steps (voterSetAfter vc d) (learnerSetAfter lc d) t = rest := by
    obtain ⟨x, xs, hx⟩ := List.exists_cons_of_ne_nil (mt ascending_eq_nil.mp hds)
    obtain ⟨hvc, hvt⟩ := mem_sdiff.mp (ascending_eq_cons hx).1
    rw [steps_demote hsets hpruned hstaged hx hturn] at h
    cases h
    exact ⟨.demote hstaged hvc hvt (hturn.imp_left sdiff_eq_empty_iff_subset.mp), rfl⟩
  by_cases hps : t.voters \ vc = ∅
  · by_cases hds : vc \ t.voters = ∅
    · have hvoters : vc = t.voters := Subset.antisymm
        (sdiff_eq_empty_iff_subset.mp hds) (sdiff_eq_empty_iff_subset.mp hps)
      have hlast : t.learners \ (lc ∪ vc) ≠ ∅ := by
        intro hempty
        rw [steps_staged hpruned hstaged, hps, hds, core_empty, hempty] at h
        cases h
      obtain ⟨x, xs, hx⟩ := List.exists_cons_of_ne_nil (mt ascending_eq_nil.mp hlast)
      have hmem := (ascending_eq_cons hx).1
      simp only [mem_sdiff, mem_union, not_or] at hmem
      rw [steps_join hvoters hpruned hx] at h
      cases h
      exact ⟨.join hpruned hvoters hmem.1 hmem.2.1 hmem.2.2, rfl⟩
    · exact hdemote hds (.inl hps)
  · by_cases hodd : vc.card % 2 = 1
    · exact hpromote hps (.inr hodd)
    · by_cases hds : vc \ t.voters = ∅
      · exact hpromote hps (.inl hds)
      · exact hdemote hds (.inr hodd)

/-! ### How long the plan is -/

theorem length_interleave (lt : Finset MemberId) : ∀ (r n : Nat) (ps ds : List MemberId),
    r = ps.length + ds.length → (interleave lt r n ps ds).length
      = ps.length + ds.length + (ds.filter (fun x => decide (x ∉ lt))).length
  | 0, _, [], [], _ => rfl
  | 0, _, _ :: _, _, h => by simp at h; omega
  | 0, _, [], _ :: _, h => by simp at h
  | _ + 1, _, [], [], h => by simp at h
  | r + 1, n, p :: ps, [], h => by
    have := length_interleave lt r (n + 1) ps [] (by simp at h ⊢; omega)
    simp [interleave, this]
  | r + 1, n, [], d :: ds, h => by
    have := length_interleave lt r (n - 1) [] ds (by simp at h ⊢; omega)
    by_cases hd : d ∈ lt <;> simp [interleave, demotion, this, hd] <;> omega
  | r + 1, n, p :: ps, d :: ds, h => by
    by_cases hodd : n % 2 = 1
    · have := length_interleave lt r (n + 1) ps (d :: ds) (by simp at h ⊢; omega)
      rw [interleave, if_pos hodd, List.length_cons, this]
      simp
      omega
    · have := length_interleave lt r (n - 1) (p :: ps) ds (by simp at h ⊢; omega)
      rw [interleave, if_neg hodd, List.length_append, this]
      by_cases hd : d ∈ lt <;> simp [demotion, hd] <;> omega

theorem length_core (lt : Finset MemberId) (n : Nat) (ps ds : Finset MemberId) :
    (core lt n ps ds).length = ps.card + ds.card + (ds \ lt).card := by
  unfold core
  rw [length_interleave lt _ n _ _ (by rw [length_ascending, length_ascending]),
    filter_ascending, length_ascending, length_ascending, length_ascending,
    filter_notMem_eq_sdiff]

theorem length_steps (vc lc : Finset MemberId) (t : MembershipTarget) :
    (steps vc lc t).length = (lc \ (t.learners ∪ t.voters)).card + (t.voters \ (vc ∪ lc)).card
      + (t.voters \ vc).card + (vc \ t.voters).card + ((vc \ t.voters) \ t.learners).card
      + (t.learners \ (lc ∪ vc)).card := by
  simp only [steps, List.length_append, List.length_map, length_ascending, length_core]
  omega

/-- Whichever departing voter is demoted, one step less is left. -/
theorem length_steps_demote (hsets : Disjoint vc lc) (hvc : x ∈ vc) (hvt : x ∉ t.voters) :
    (steps (vc.erase x) (insert x lc) t).length + 1 = (steps vc lc t).length := by
  have hlc : x ∉ lc := disjoint_left.mp hsets hvc
  have hunion : vc.erase x ∪ insert x lc = vc ∪ lc := by
    rw [union_insert, ← insert_union, insert_erase hvc]
  have hpromotes : t.voters \ vc.erase x = t.voters \ vc :=
    sdiff_congr_of_notMem hvt fun y hy => by simp [hy]
  have hdemotes : vc.erase x \ t.voters = (vc \ t.voters).erase x := erase_sdiff_comm ..
  have hleave : x ∈ vc \ t.voters := mem_sdiff.mpr ⟨hvc, hvt⟩
  have hcount := card_erase_add_one hleave
  -- a voter the target drops is one removal, before or after its demotion
  have hremoval : (insert x lc \ (t.learners ∪ t.voters)).card
      + ((vc \ t.voters).erase x \ t.learners).card
      = (lc \ (t.learners ∪ t.voters)).card + ((vc \ t.voters) \ t.learners).card := by
    by_cases hlt : x ∈ t.learners
    · rw [insert_sdiff_of_mem _ (mem_union_left _ hlt), erase_sdiff_comm,
        erase_eq_of_notMem (fun h => (mem_sdiff.mp h).2 hlt)]
    · have hout : x ∉ t.learners ∪ t.voters := by simp [hlt, hvt]
      have hin : x ∈ (vc \ t.voters) \ t.learners := mem_sdiff.mpr ⟨hleave, hlt⟩
      have := card_erase_add_one hin
      rw [insert_sdiff_of_notMem _ hout, erase_sdiff_comm,
        card_insert_of_notMem (fun h => hlc (mem_sdiff.mp h).1)]
      omega
  rw [length_steps, length_steps, hunion, hpromotes, hdemotes, union_comm (insert x lc),
    hunion, union_comm lc]
  omega

/-! ### What a due step needs and what it leaves -/

/-- The target passes the planner's preflight. -/
structure Preflight (t : MembershipTarget) : Prop where
  disjoint : Disjoint t.voters t.learners
  nonempty : t.voters ≠ ∅
  cap : t.voters.card ≤ maxVotingReplicas

/-- The configurations on the way have room for their members. -/
def Roomy (vc lc : Finset MemberId) (t : MembershipTarget) : Prop :=
  (vc ∪ t.voters ∪ lc ∩ t.learners).card ≤ 2 ^ 16 - 1 ∧
    (t.voters ∪ t.learners).card ≤ 2 ^ 16 - 1

theorem Due.roomy (h : Due vc lc t d) (hroom : Roomy vc lc t) :
    Roomy (voterSetAfter vc d) (learnerSetAfter lc d) t := by
  obtain ⟨hway, htarget⟩ := hroom
  refine ⟨?_, htarget⟩
  have hwithin {s : Finset MemberId} (hs : s ⊆ vc ∪ t.voters ∪ lc ∩ t.learners) :
      s.card ≤ 2 ^ 16 - 1 := (card_le_card hs).trans hway
  cases h with
  | prune mem learner voter =>
    refine hwithin fun y hy => ?_
    simp only [voterSetAfter, learnerSetAfter, mem_union, mem_inter,
      mem_erase] at hy ⊢
    tauto
  | stage pruned target voter learner =>
    refine hwithin fun y hy => ?_
    simp only [voterSetAfter, learnerSetAfter, mem_union, mem_inter,
      mem_insert] at hy ⊢
    rcases hy with (hy | hy) | ⟨rfl | hy, hl⟩ <;> tauto
  | promote staged target voter turn =>
    refine hwithin fun y hy => ?_
    simp only [voterSetAfter, learnerSetAfter, mem_union, mem_inter,
      mem_insert, mem_erase] at hy ⊢
    rcases hy with ((rfl | hy) | hy) | hy <;> tauto
  | demote staged voter target turn =>
    refine hwithin fun y hy => ?_
    simp only [voterSetAfter, learnerSetAfter, mem_union, mem_inter,
      mem_insert, mem_erase] at hy ⊢
    rcases hy with (hy | hy) | ⟨rfl | hy, hl⟩ <;> tauto
  | join pruned voters target learner voter =>
    refine (card_le_card fun y hy => ?_).trans htarget
    simp only [voterSetAfter, learnerSetAfter, mem_union, mem_inter,
      mem_insert, voters] at hy ⊢
    tauto

/-- A due step meets the preconditions of its delta. -/
theorem Due.admits {m : Membership} (h : Due m.voterSet m.learnerSet t d) (ht : Preflight t)
    (hroom : Roomy m.voterSet m.learnerSet t) : m.Admits d := by
  have hcount := m.card_voterSet
  have hcap := m.valid.voters
  cases h with
  | prune mem => exact mem
  | @stage x pruned target voter learner =>
    have hout : x ∉ m.voterSet ∪ m.learnerSet := by simp [voter, learner]
    refine ⟨fun hx => hout (mem_members_iff.mp hx), ?_⟩
    rw [m.nodeCount_eq]
    refine lt_of_lt_of_le (card_lt_card ?_) hroom.1
    refine ssubset_iff_of_subset (fun y hy => ?_) |>.mpr ⟨x, by simp [target], hout⟩
    have := @pruned y
    simp only [mem_union, mem_inter] at this hy ⊢
    tauto
  | @promote x staged target voter turn =>
    refine ⟨(mem_union.mp (staged target)).resolve_left voter, ?_⟩
    rcases turn with hsub | hodd
    · have : m.voterSet.card < t.voters.card :=
        card_lt_card (ssubset_iff_of_subset hsub |>.mpr ⟨x, target, voter⟩)
      have := ht.cap
      omega
    · unfold maxVotingReplicas at hcap ⊢
      omega
  | @demote x staged voter target turn =>
    refine ⟨voter, fun hone => ?_⟩
    rcases turn with hsub | heven
    · have : t.voters.card < m.voterSet.card :=
        card_lt_card (ssubset_iff_of_subset hsub |>.mpr ⟨x, voter, target⟩)
      have := card_pos.mpr (nonempty_iff_ne_empty.mpr ht.nonempty)
      omega
    · omega
  | @join x pruned voters target learner voter =>
    have hout : x ∉ m.voterSet ∪ m.learnerSet := by simp [voter, learner]
    refine ⟨fun hx => hout (mem_members_iff.mp hx), ?_⟩
    rw [m.nodeCount_eq]
    refine lt_of_lt_of_le (card_lt_card ?_) hroom.2
    refine ssubset_iff_of_subset (fun y hy => ?_) |>.mpr ⟨x, by simp [target], hout⟩
    have := @pruned y
    rw [voters] at hy
    simp only [mem_union] at this hy ⊢
    tauto

/-! ### Fault tolerance -/

/-- Where the voter set stands between a start of tolerance `f` and the target: level with the
start, on its way up inside the target's voters, or on its way down to them. -/
def Level (f : Nat) (vc : Finset MemberId) (t : MembershipTarget) : Prop :=
  (vc.card - 1) / 2 = f ∨ (vc ⊆ t.voters ∧ f ≤ (vc.card - 1) / 2) ∨
    (t.voters ⊆ vc ∧ (vc.card - 1) / 2 ≤ f)

theorem Level.floor {f : Nat} (h : Level f vc t) :
    min f ((t.voters.card - 1) / 2) ≤ (vc.card - 1) / 2 := by
  rcases h with h | ⟨-, h⟩ | ⟨hsub, -⟩
  · omega
  · omega
  · have := card_le_card hsub
    omega

theorem Due.level {f : Nat} (h : Due vc lc t d) (hlevel : Level f vc t) :
    Level f (voterSetAfter vc d) t := by
  cases h with
  | prune | stage | join => exact hlevel
  | @promote x staged target voter turn =>
    have hcard := card_insert_of_notMem voter
    show Level f (insert x vc) t
    rcases hlevel with hlevel | ⟨hsub, hlevel⟩ | ⟨hsub, -⟩
    · rcases turn with hsub | hodd
      · exact .inr (.inl ⟨insert_subset target hsub, by omega⟩)
      · exact .inl (by omega)
    · exact .inr (.inl ⟨insert_subset target hsub, by omega⟩)
    · exact absurd (hsub target) voter
  | @demote x staged voter target turn =>
    have hcard := card_erase_add_one voter
    have hkeep (hsub : t.voters ⊆ vc) : t.voters ⊆ vc.erase x :=
      fun y hy => mem_erase.mpr ⟨fun heq => target (heq ▸ hy), hsub hy⟩
    show Level f (vc.erase x) t
    rcases hlevel with hlevel | ⟨hsub, -⟩ | ⟨hsub, hlevel⟩
    · rcases turn with hsub | heven
      · exact .inr (.inr ⟨hkeep hsub, by omega⟩)
      · exact .inl (by omega)
    · exact absurd (hsub voter) target
    · exact .inr (.inr ⟨hkeep hsub, by omega⟩)

/-- Only a target below the start takes a voter from an odd count. -/
theorem Due.lowers {f : Nat} (h : Due vc lc t (.demoteVoter x)) (ht : Preflight t)
    (hlevel : Level f vc t) (hodd : vc.card % 2 = 1) : (t.voters.card - 1) / 2 < f := by
  cases h with
  | demote staged voter target turn =>
    have hsub : t.voters ⊆ vc := turn.resolve_right fun heven => heven hodd
    have hlt : t.voters.card < vc.card :=
      card_lt_card (ssubset_iff_of_subset hsub |>.mpr ⟨x, voter, target⟩)
    have hpos := card_pos.mpr (nonempty_iff_ne_empty.mpr ht.nonempty)
    rcases hlevel with hlevel | ⟨hout, -⟩ | ⟨-, hlevel⟩
    · omega
    · exact absurd (hout voter) target
    · omega

/-! ### Acceptance -/

/-- The simulation accepts what applies: a configuration that exists is within both caps. -/
theorem simulate_ok_iff : ∀ {plan : List SingleVoterDelta} {m : Membership} {voters nodes : Nat},
    voters ≤ maxVotingReplicas → nodes ≤ 2 ^ 16 - 1 →
    (simulate voters nodes m plan = .ok () ↔ ∃ s, m.applyDeltas plan = .ok s)
  | [], m, voters, nodes, hvoters, hnodes => by
    rw [simulate, if_neg (Nat.not_lt.mpr hvoters), if_neg (Nat.not_lt.mpr hnodes)]
    exact ⟨fun _ => ⟨m, rfl⟩, fun _ => rfl⟩
  | d :: ds, m, voters, nodes, hvoters, hnodes => by
    unfold simulate applyDeltas
    cases hd : m.applyDelta d with
    | ok next =>
      exact simulate_ok_iff (max_le hvoters next.valid.voters) (max_le hnodes next.valid.nodes)
    | error e =>
      refine ⟨fun h => ?_, fun ⟨_, h⟩ => by cases h⟩
      split at h <;> first | cases h | (rename_i heq; cases heq)

end Plan

theorem planReconfiguration_ok_iff {m : Membership} {t : MembershipTarget}
    {plan : List SingleVoterDelta} : planReconfiguration m t = .ok plan ↔
      Plan.Preflight t ∧ plan = Plan.steps m.voterSet m.learnerSet t ∧
        ∃ s, m.applyDeltas plan = .ok s := by
  have hbuilt : ((ascending m.learnerSet).filter
        (fun x => x ∉ t.learners ∧ x ∉ t.voters)).map SingleVoterDelta.removeLearner
      ++ ((ascending t.voters).filter (fun x => x ∉ m.voterSet ∧ x ∉ m.learnerSet)).map .addLearner
      ++ Plan.interleave t.learners
        ((ascending (t.voters \ m.voterSet)).length + (ascending (m.voterSet \ t.voters)).length)
        m.voterSet.card (ascending (t.voters \ m.voterSet)) (ascending (m.voterSet \ t.voters))
      ++ ((ascending t.learners).filter
        (fun x => x ∉ m.learnerSet ∧ x ∉ m.voterSet)).map .addLearner
      = Plan.steps m.voterSet m.learnerSet t := by
    have hout (a b c : Finset MemberId) :
        (ascending a).filter (fun x => decide (x ∉ b ∧ x ∉ c)) = ascending (a \ (b ∪ c)) := by
      rw [filter_ascending]
      congr 1
      ext x
      simp [not_or]
    rw [hout, hout, hout, length_ascending, length_ascending, List.append_assoc, List.append_assoc]
    rfl
  unfold planReconfiguration
  dsimp only
  rw [hbuilt]
  by_cases hdisjoint : Disjoint t.voters t.learners
  swap
  · rw [if_pos hdisjoint]
    exact ⟨nofun, fun h => absurd h.1.disjoint hdisjoint⟩
  rw [if_neg (not_not.mpr hdisjoint)]
  by_cases hempty : t.voters = ∅
  · rw [if_pos hempty]
    exact ⟨nofun, fun h => absurd hempty h.1.nonempty⟩
  rw [if_neg hempty]
  by_cases hcap : t.voters.card > maxVotingReplicas
  · rw [if_pos hcap]
    exact ⟨nofun, fun h => absurd h.1.cap (Nat.not_le.mpr hcap)⟩
  rw [if_neg hcap]
  have hsim := @Plan.simulate_ok_iff (Plan.steps m.voterSet m.learnerSet t) m
    m.replicaCount m.nodeCount m.valid.voters m.valid.nodes
  constructor
  · intro h
    split at h
    · rename_i hok
      cases h
      exact ⟨⟨hdisjoint, hempty, Nat.not_lt.mp hcap⟩, rfl, hsim.mp hok⟩
    · cases h
  · rintro ⟨-, rfl, happly⟩
    rw [hsim.mpr happly]

namespace Plan

open Viewstamp.Membership

variable {t : MembershipTarget} {d : SingleVoterDelta} {m s : Membership}

theorem applyDeltas_cons_ok {ds : List SingleVoterDelta} :
    m.applyDeltas (d :: ds) = .ok s ↔
      ∃ next, m.applyDelta d = .ok next ∧ next.applyDeltas ds = .ok s := by
  rw [applyDeltas]
  cases hd : m.applyDelta d with
  | ok next => exact ⟨fun h => ⟨next, rfl, h⟩, fun ⟨_, heq, h⟩ => by cases heq; exact h⟩
  | error e => exact ⟨nofun, fun ⟨_, heq, _⟩ => by cases heq⟩

/-- A plan that applies has room on the way: its first configurations exist. -/
theorem roomy_of_applies (ht : Preflight t) : ∀ {plan : List SingleVoterDelta} {m s : Membership},
    plan = steps m.voterSet m.learnerSet t → m.applyDeltas plan = .ok s →
    Roomy m.voterSet m.learnerSet t
  | [], m, s, hplan, _ => by
    obtain ⟨hv, hl⟩ := eq_target_of_steps_nil m.disjoint_sets ht.disjoint hplan.symm
    have hnodes := m.valid.nodes
    have hcount := m.nodeCount_eq
    unfold nodeCount at hcount
    rw [hcount, hv, hl] at hnodes
    unfold Roomy
    rw [hv, hl, union_self, inter_self]
    exact ⟨hnodes, hnodes⟩
  | d :: ds, m, s, hplan, happly => by
    obtain ⟨next, hd, hrest⟩ := applyDeltas_cons_ok.mp happly
    obtain ⟨hdue, hsteps⟩ := steps_cons m.disjoint_sets ht.disjoint hplan.symm
    rw [← voterSet_applyDelta hd, ← learnerSet_applyDelta hd] at hsteps
    obtain ⟨hway, htarget⟩ := roomy_of_applies ht hsteps.symm hrest
    refine ⟨?_, htarget⟩
    rw [voterSet_applyDelta hd, learnerSet_applyDelta hd] at hway
    have hnodes : (m.voterSet ∪ m.learnerSet).card ≤ 2 ^ 16 - 1 :=
      m.nodeCount_eq ▸ m.valid.nodes
    cases hdue with
    | prune mem learner voter =>
      refine (card_le_card fun y hy => ?_).trans hway
      simp only [voterSetAfter, learnerSetAfter, mem_union, mem_inter,
        mem_erase] at hy ⊢
      rcases hy with hy | ⟨hy, hl⟩
      · exact .inl hy
      · exact .inr ⟨⟨fun heq => learner (heq ▸ hl), hy⟩, hl⟩
    | stage pruned target voter learner =>
      refine (card_le_card fun y hy => ?_).trans hway
      simp only [voterSetAfter, learnerSetAfter, mem_union, mem_inter,
        mem_insert] at hy ⊢
      tauto
    | promote staged target voter turn =>
      -- the new voters are seated already, so this configuration holds everyone counted
      refine (card_le_card fun y hy => ?_).trans hnodes
      have := @staged y
      simp only [mem_union, mem_inter] at this hy ⊢
      tauto
    | demote staged voter target turn =>
      refine (card_le_card fun y hy => ?_).trans hnodes
      have := @staged y
      simp only [mem_union, mem_inter] at this hy ⊢
      tauto
    | join pruned voters target learner voter =>
      refine (card_le_card fun y hy => ?_).trans hnodes
      rw [voters] at hy ⊢
      simp only [mem_union, mem_inter] at hy ⊢
      tauto

/-- Where there is room, the plan applies. -/
theorem applies_of_roomy (ht : Preflight t) : ∀ {plan : List SingleVoterDelta} {m : Membership},
    plan = steps m.voterSet m.learnerSet t → Roomy m.voterSet m.learnerSet t →
    ∃ s, m.applyDeltas plan = .ok s
  | [], m, _, _ => ⟨m, rfl⟩
  | d :: ds, m, hplan, hroom => by
    obtain ⟨hdue, hsteps⟩ := steps_cons m.disjoint_sets ht.disjoint hplan.symm
    obtain ⟨next, hd⟩ := exists_applyDelta_iff.mpr (hdue.admits ht hroom)
    have hroom' := hdue.roomy hroom
    rw [← voterSet_applyDelta hd, ← learnerSet_applyDelta hd] at hsteps hroom'
    obtain ⟨s, hrest⟩ := applies_of_roomy ht hsteps.symm hroom'
    exact ⟨s, applyDeltas_cons_ok.mpr ⟨next, hd, hrest⟩⟩

/-- A configuration the planner accepts: what is left to do and that there is room for it. -/
structure Planned (m : Membership) (t : MembershipTarget) : Prop where
  target : Preflight t
  room : Roomy m.voterSet m.learnerSet t

theorem Planned.plan (h : Planned m t) :
    planReconfiguration m t = .ok (steps m.voterSet m.learnerSet t) :=
  planReconfiguration_ok_iff.mpr ⟨h.target, rfl, applies_of_roomy h.target rfl h.room⟩

theorem planned_of_ok {plan : List SingleVoterDelta} (h : planReconfiguration m t = .ok plan) :
    Planned m t ∧ plan = steps m.voterSet m.learnerSet t := by
  obtain ⟨ht, hplan, s, happly⟩ := planReconfiguration_ok_iff.mp h
  exact ⟨⟨ht, roomy_of_applies ht hplan happly⟩, hplan⟩

/-- A due step applies and leaves a configuration the planner accepts. -/
theorem Planned.step (h : Planned m t) (hdue : Due m.voterSet m.learnerSet t d) :
    ∃ s, m.applyDelta d = .ok s ∧ Planned s t := by
  obtain ⟨s, hd⟩ := exists_applyDelta_iff.mpr (hdue.admits h.target h.room)
  refine ⟨s, hd, h.target, ?_⟩
  rw [voterSet_applyDelta hd, learnerSet_applyDelta hd]
  exact hdue.roomy h.room

/-! ### The candidates of a demotion -/

theorem mem_of_demote_mem_interleave {lt : Finset MemberId} {x : MemberId} :
    ∀ {r n : Nat} {ps ds : List MemberId},
    SingleVoterDelta.demoteVoter x ∈ interleave lt r n ps ds → x ∈ ds
  | 0, _, _, _, h => by cases h
  | _ + 1, _, [], [], h => by cases h
  | r + 1, n, p :: ps, [], h => by
    rw [interleave, List.mem_cons] at h
    exact mem_of_demote_mem_interleave (h.resolve_left nofun)
  | r + 1, n, [], d :: ds, h => by
    rw [interleave, List.mem_append] at h
    rcases h with h | h
    · exact mem_of_demote_mem_demotion h
    · exact List.mem_cons_of_mem _ (mem_of_demote_mem_interleave h)
  | r + 1, n, p :: ps, d :: ds, h => by
    rw [interleave] at h
    split at h
    · exact mem_of_demote_mem_interleave ((List.mem_cons.mp h).resolve_left nofun)
    · rcases List.mem_append.mp h with h | h
      · exact mem_of_demote_mem_demotion h
      · exact List.mem_cons_of_mem _ (mem_of_demote_mem_interleave h)
where
  mem_of_demote_mem_demotion {d : MemberId} {ds : List MemberId}
      (h : SingleVoterDelta.demoteVoter x ∈ demotion lt d) : x ∈ d :: ds := by
    unfold demotion at h
    rcases List.mem_cons.mp h with h | h
    · cases h
      exact List.mem_cons_self
    · split at h
      · cases h
      · cases List.mem_singleton.mp h

theorem mem_of_demote_mem_steps {vc lc : Finset MemberId} {x : MemberId}
    (h : SingleVoterDelta.demoteVoter x ∈ steps vc lc t) : x ∈ vc ∧ x ∉ t.voters := by
  simp only [steps, List.mem_append, List.mem_map, reduceCtorEq, and_false, exists_false,
    false_or, or_false] at h
  exact mem_sdiff.mp (mem_ascending.mp (mem_of_demote_mem_interleave h))

/-- Every candidate is due: nothing grows before the plan's first demotion. -/
theorem due_of_mem_shrinkCandidates {candidates : List SingleVoterDelta} (hm : Planned m t)
    (h : shrinkCandidates m t = .ok candidates) (hd : d ∈ candidates) :
    ∃ x, d = .demoteVoter x ∧ Due m.voterSet m.learnerSet t (.demoteVoter x) := by
  unfold shrinkCandidates at h
  rw [hm.plan] at h
  dsimp only at h
  split at h
  · cases h
    cases hd
  · split at h
    · cases h
      cases hd
    · rename_i hgrow
      cases h
      obtain ⟨hmem, hdemote⟩ := List.mem_filter.mp hd
      cases d with
      | promoteLearner | addLearner | removeLearner => cases hdemote
      | demoteVoter x =>
        obtain ⟨hvc, hvt⟩ := mem_of_demote_mem_steps hmem
        rw [steps, List.takeWhile_append_of_pos (by simp [SingleVoterDelta.isDemoteVoter]),
          List.takeWhile_append_of_pos (by simp [SingleVoterDelta.isDemoteVoter])] at hgrow
        simp only [List.any_append, Bool.or_eq_true, not_or] at hgrow
        obtain ⟨-, hstage, hcore⟩ := hgrow
        refine ⟨x, rfl, .demote ?_ hvc hvt ?_⟩
        · refine sdiff_eq_empty_iff_subset.mp (by_contra fun hne => hstage ?_)
          obtain ⟨y, ys, hy⟩ := List.exists_cons_of_ne_nil (mt ascending_eq_nil.mp hne)
          rw [hy]
          rfl
        · refine or_iff_not_imp_left.mpr fun hps hodd => hcore ?_
          obtain ⟨y, ys, hy⟩ := List.exists_cons_of_ne_nil
            (mt ascending_eq_nil.mp (mt sdiff_eq_empty_iff_subset.mp hps))
          rw [core_promote hy (.inr hodd)]
          rfl

end Plan

/-! ## Planning again after each step -/

/-- `plan_next_step`: the head of the plan, or none when the sets are the target's. -/
def planNextStep (current : Membership) (target : MembershipTarget) :
    Except PlanError (Option SingleVoterDelta) :=
  match planReconfiguration current target with
  | .error e => .error e
  | .ok plan => .ok plan.head?

/-- What a driver that plans again from the live configuration may execute next. -/
def Offered (t : MembershipTarget) (m : Membership) (d : SingleVoterDelta) : Prop :=
  planNextStep m t = .ok (some d) ∨ ∃ candidates, shrinkCandidates m t = .ok candidates ∧
    d ∈ candidates

/-- Executing one offered step after the other. -/
inductive Executes (t : MembershipTarget) : Membership → List SingleVoterDelta → Membership → Prop
  where
  | done (m : Membership) : Executes t m [] m
  | step {m next s : Membership} {d : SingleVoterDelta} {ds : List SingleVoterDelta}
    (offered : Offered t m d) (apply : m.applyDelta d = .ok next) (run : Executes t next ds s) :
    Executes t m (d :: ds) s

namespace Plan

open Viewstamp.Membership

variable {t : MembershipTarget} {d : SingleVoterDelta} {m s : Membership}

/-- An offered step is due, and it takes one step off the plan. -/
theorem Planned.offered (hm : Planned m t) (h : Offered t m d) :
    Due m.voterSet m.learnerSet t d ∧
      (steps (voterSetAfter m.voterSet d) (learnerSetAfter m.learnerSet d) t).length + 1
        = (steps m.voterSet m.learnerSet t).length := by
  rcases h with h | ⟨candidates, hc, hd⟩
  · unfold planNextStep at h
    rw [hm.plan] at h
    cases hsteps : steps m.voterSet m.learnerSet t with
    | nil => rw [hsteps] at h; cases h
    | cons e rest =>
      rw [hsteps] at h
      cases h
      obtain ⟨hdue, hrest⟩ := steps_cons m.disjoint_sets hm.target.disjoint hsteps
      exact ⟨hdue, by rw [hrest]; rfl⟩
  · obtain ⟨x, rfl, hdue⟩ := due_of_mem_shrinkCandidates hm hc hd
    cases hdue with
    | demote staged voter target turn =>
      exact ⟨.demote staged voter target turn, length_steps_demote m.disjoint_sets voter target⟩

/-- A run of offered steps keeps to configurations the planner accepts and shortens the plan by
its length. -/
theorem Planned.executes {ds : List SingleVoterDelta} (run : Executes t m ds s)
    (hm : Planned m t) : Planned s t ∧ ds.length + (steps s.voterSet s.learnerSet t).length
      = (steps m.voterSet m.learnerSet t).length := by
  induction run with
  | done m => exact ⟨hm, by simp⟩
  | @step m next s d ds offered apply run ih =>
    obtain ⟨hdue, hlength⟩ := hm.offered offered
    obtain ⟨next', hnext, hplanned⟩ := hm.step hdue
    rw [apply] at hnext
    cases hnext
    obtain ⟨hs, hrest⟩ := ih hplanned
    refine ⟨hs, ?_⟩
    rw [← hlength, ← voterSet_applyDelta apply, ← learnerSet_applyDelta apply, ← hrest,
      List.length_cons]
    omega

/-- Along the plan every configuration is level with the start or between it and the target, and
plans the rest. -/
theorem along_plan {f : Nat} (ht : Preflight t) : ∀ {pre post : List SingleVoterDelta}
    {m s : Membership}, steps m.voterSet m.learnerSet t = pre ++ post →
    m.applyDeltas pre = .ok s → Level f m.voterSet t →
    Level f s.voterSet t ∧ steps s.voterSet s.learnerSet t = post
  | [], post, m, s, hsteps, happly, hlevel => by
    cases happly
    exact ⟨hlevel, hsteps⟩
  | d :: pre, post, m, s, hsteps, happly, hlevel => by
    obtain ⟨next, hd, hrest⟩ := applyDeltas_cons_ok.mp happly
    obtain ⟨hdue, hnext⟩ := steps_cons m.disjoint_sets ht.disjoint hsteps
    rw [← voterSet_applyDelta hd, ← learnerSet_applyDelta hd] at hnext
    exact along_plan ht hnext hrest (voterSet_applyDelta hd ▸ hdue.level hlevel)

end Plan

/-- The planner's contract, for every configuration and target it accepts. The plan applies and
ends at the target; on the way the fault tolerance stays at or above the lower of the two ends and
the voters within the cap, and a voter is taken from an odd count only if the target tolerates
less; executing the first step leaves the rest of the plan to be planned; and planning again after
each step, with any candidate for a demotion, applies every step it offers, never takes more steps
than the plan has, and stops only at the target. -/
theorem planReconfiguration_contract (current : Membership) (t : MembershipTarget)
    (plan : List SingleVoterDelta) (h : planReconfiguration current t = .ok plan) :
    (∃ s, current.applyDeltas plan = .ok s ∧ s.voterSet = t.voters ∧ s.learnerSet = t.learners) ∧
    (∀ pre post s, plan = pre ++ post → current.applyDeltas pre = .ok s →
      min current.faultTolerance ((t.voters.card - 1) / 2) ≤ s.faultTolerance ∧
        s.replicaCount ≤ 64) ∧
    (∀ pre x post s, plan = pre ++ .demoteVoter x :: post → current.applyDeltas pre = .ok s →
      s.replicaCount % 2 = 1 → (t.voters.card - 1) / 2 < current.faultTolerance) ∧
    (∀ d rest, plan = d :: rest →
      ∃ s, current.applyDelta d = .ok s ∧ planReconfiguration s t = .ok rest) ∧
    ∀ ds m, Executes t current ds m →
      ds.length ≤ plan.length ∧
      (∀ d, Offered t m d → ∃ s, m.applyDelta d = .ok s) ∧
      ((∃ d, planNextStep m t = .ok (some d) ∧ ds.length < plan.length) ∨
        planNextStep m t = .ok none ∧ m.voterSet = t.voters ∧ m.learnerSet = t.learners) := by
  obtain ⟨hm, hplan⟩ := Plan.planned_of_ok h
  obtain ⟨-, -, s, happly⟩ := planReconfiguration_ok_iff.mp h
  have hlevel : Plan.Level current.faultTolerance current.voterSet t := by
    refine .inl ?_
    rw [current.card_voterSet]
    rfl
  subst hplan
  refine ⟨⟨s, happly, ?_⟩, ?_, ?_, ?_, ?_⟩
  · have hend := Plan.along_plan hm.target (List.append_nil _).symm happly hlevel
    exact Plan.eq_target_of_steps_nil s.disjoint_sets hm.target.disjoint hend.2
  · intro pre post s hsplit hpre
    have hs := (Plan.along_plan hm.target hsplit hpre hlevel).1.floor
    rw [s.card_voterSet] at hs
    exact ⟨hs, s.valid.voters⟩
  · intro pre x post s hsplit hpre hodd
    obtain ⟨hs, hrest⟩ := Plan.along_plan hm.target hsplit hpre hlevel
    have hdue := (Plan.steps_cons s.disjoint_sets hm.target.disjoint hrest).1
    rw [← s.card_voterSet] at hodd
    exact hdue.lowers hm.target hs hodd
  · intro d rest hsplit
    obtain ⟨hdue, hrest⟩ := Plan.steps_cons current.disjoint_sets hm.target.disjoint hsplit
    obtain ⟨s, hd, hs⟩ := hm.step hdue
    rw [← Membership.voterSet_applyDelta hd, ← Membership.learnerSet_applyDelta hd] at hrest
    exact ⟨s, hd, hrest ▸ hs.plan⟩
  · intro ds m run
    obtain ⟨hplanned, hlength⟩ := hm.executes run
    refine ⟨by omega, fun d hd => ?_, ?_⟩
    · obtain ⟨s, hs, -⟩ := hplanned.step (hplanned.offered hd).1
      exact ⟨s, hs⟩
    · unfold planNextStep
      rw [hplanned.plan]
      cases hsteps : Plan.steps m.voterSet m.learnerSet t with
      | nil =>
        exact .inr ⟨rfl, Plan.eq_target_of_steps_nil m.disjoint_sets hm.target.disjoint hsteps⟩
      | cons d rest =>
        rw [hsteps, List.length_cons] at hlength
        exact .inl ⟨d, rfl, by omega⟩

/-- One voter and one learner trade places while a third member becomes a voter. -/
theorem planReconfiguration_trade :
    planReconfiguration Membership.pairMembership ⟨{8, 9}, {7}⟩
      = .ok [.addLearner 9, .promoteLearner 8, .demoteVoter 7, .promoteLearner 9] ∧
    ∃ s, Membership.pairMembership.applyDeltas
        [.addLearner 9, .promoteLearner 8, .demoteVoter 7, .promoteLearner 9] = .ok s ∧
      s.voterSet = {8, 9} ∧ s.learnerSet = {7} := by
  have hplan : planReconfiguration Membership.pairMembership ⟨{8, 9}, {7}⟩
      = .ok [.addLearner 9, .promoteLearner 8, .demoteVoter 7, .promoteLearner 9] := by
    decide +kernel
  exact ⟨hplan, (planReconfiguration_contract _ _ _ hplan).1⟩

end Viewstamp
