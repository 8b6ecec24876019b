import Mathlib.Data.Finset.Sort
import Mathlib.Data.List.Sort
import Viewstamp.Types

/- The reconfiguration planner: from a live membership and a target, the sequence
   of single-member deltas that leads from one to the other.

   Sets of members are finite sets; where the source walks one it walks it in
   ascending order (`ascending`). -/
namespace Viewstamp

/-- The members of a set, in the order an ordered set is walked. -/
def ascending (s : Finset MemberId) : List MemberId :=
  Quot.lift (fun l : List MemberId => l.insertionSort (· ≤ ·))
    (fun l l' h => List.Perm.eq_of_pairwise (fun _ _ _ _ => le_antisymm)
      (l.pairwise_insertionSort (· ≤ ·)) (l'.pairwise_insertionSort (· ≤ ·))
      (((l.perm_insertionSort _).trans h).trans (l'.perm_insertionSort _).symm))
    s.val

structure MembershipTarget where
  voters : Finset MemberId
  learners : Finset MemberId
  deriving DecidableEq

def MembershipTarget.members (t : MembershipTarget) : Finset MemberId := t.voters ∪ t.learners

inductive PlanError where
  | emptyVoterSet
  | tooManyVoters (count : Nat)
  | intermediatePeakExceedsCap (peak : Nat)
  | intermediateNodePeakExceedsCap (peak : Nat)
  | removesLastVoter
  | voterLearnerOverlap
  | memberConcurrentlyRemoved (members : Finset MemberId)
  deriving DecidableEq

namespace Membership

variable {m : Membership} {who : MemberId}

def voterSet (m : Membership) : Finset MemberId := (m.members.take m.replicaCount).toFinset
def learnerSet (m : Membership) : Finset MemberId := (m.members.drop m.replicaCount).toFinset

theorem reconfigure_ok {m s : Membership} {replicaCount learnerCount : Nat}
    {members : List MemberId} (h : m.reconfigure replicaCount learnerCount members = .ok s) :
    s.replicaCount = replicaCount ∧ s.members = members := by
  unfold reconfigure build fromDurableParts at h
  split at h
  · cases h; exact ⟨rfl, rfl⟩
  · cases h

theorem length_voters (m : Membership) :
    (m.members.take m.replicaCount).length = m.replicaCount := by
  have := m.valid.length
  simp; omega

theorem slotOf_eq_some_iff {slot : ReplicaId} :
    m.slotOf who = some slot ↔ m.memberAt slot = some who := by
  unfold slotOf memberAt
  rw [List.idxOf?_eq_some_iff, List.getElem?_eq_some_iff]
  constructor
  · rintro ⟨hlt, hget, -⟩
    exact ⟨hlt, by simpa using hget⟩
  · rintro ⟨hlt, hget⟩
    refine ⟨hlt, by simpa using hget, fun j hj => ?_⟩
    have hj' : j < m.members.length := Nat.lt_trans hj hlt
    have hne : m.members[j] ≠ m.members[slot] := fun heq =>
      absurd ((m.valid.nodup.getElem_inj_iff).mp heq) (Nat.ne_of_lt hj)
    simpa [hget] using hne

theorem mem_voters_of_slotOf {slot : ReplicaId} (h : m.slotOf who = some slot)
    (hv : m.isVoter slot = true) : who ∈ m.members.take m.replicaCount := by
  have hat := slotOf_eq_some_iff.mp h
  obtain ⟨hlt, hget⟩ := List.getElem?_eq_some_iff.mp hat
  rw [List.mem_take_iff_getElem]
  exact ⟨slot, lt_min (of_decide_eq_true hv) hlt, hget⟩

theorem slotOf_of_mem_voters (h : who ∈ m.members.take m.replicaCount) :
    ∃ slot, m.slotOf who = some slot ∧ m.isVoter slot = true := by
  obtain ⟨slot, hslot, hget⟩ := List.mem_take_iff_getElem.mp h
  obtain ⟨hvoter, hlt⟩ := lt_min_iff.mp hslot
  exact ⟨slot, slotOf_eq_some_iff.mpr (List.getElem?_eq_some_iff.mpr ⟨hlt, hget⟩),
    decide_eq_true hvoter⟩

end Membership

namespace SingleVoterDelta

def member : SingleVoterDelta → MemberId
  | promoteLearner m | demoteVoter m | addLearner m | removeLearner m => m

def isDemoteVoter : SingleVoterDelta → Bool
  | demoteVoter _ => true
  | _ => false

def isRemoveLearner : SingleVoterDelta → Bool
  | removeLearner _ => true
  | _ => false

def isAddLearner : SingleVoterDelta → Bool
  | addLearner _ => true
  | _ => false

def isPromoteLearner : SingleVoterDelta → Bool
  | promoteLearner _ => true
  | _ => false

end SingleVoterDelta

namespace Plan

/-- The demotion of one voter, and its removal when the target does not keep it as a learner. -/
def demotion (lt : Finset MemberId) (x : MemberId) : List SingleVoterDelta :=
  .demoteVoter x :: if x ∈ lt then [] else [.removeLearner x]

/-- Promotions and demotions, interleaved by the parity of the voter count `n`: an odd count
promotes, an even one demotes, until one side runs out. Each round consumes one of the two lists,
so as many rounds as there are members in them walk both. -/
def interleave (lt : Finset MemberId) :
    (rounds n : Nat) → (promotes demotes : List MemberId) → List SingleVoterDelta
  | 0, _, _, _ => []
  | _ + 1, _, [], [] => []
  | r + 1, n, p :: ps, [] => .promoteLearner p :: interleave lt r (n + 1) ps []
  | r + 1, n, [], d :: ds => demotion lt d ++ interleave lt r (n - 1) [] ds
  | r + 1, n, p :: ps, d :: ds =>
    if n % 2 = 1 then .promoteLearner p :: interleave lt r (n + 1) ps (d :: ds)
    else demotion lt d ++ interleave lt r (n - 1) (p :: ps) ds

/-- Apply the deltas one after the other; the peaks of the voter and of the node count on the
way are compared with the caps at the end. -/
def simulate : (maxVoters maxNodes : Nat) → Membership → List SingleVoterDelta →
    Except PlanError Unit
  | maxVoters, maxNodes, _, [] =>
    if maxVoters > maxVotingReplicas then .error (.intermediatePeakExceedsCap maxVoters)
    else if maxNodes > 2 ^ 16 - 1 then .error (.intermediateNodePeakExceedsCap maxNodes)
    else .ok ()
  | maxVoters, maxNodes, sim, d :: ds =>
    match sim.applyDelta d with
    | .ok next => simulate (max maxVoters next.replicaCount) (max maxNodes next.nodeCount) next ds
    | .error .wouldRemoveLastVoter => .error .removesLastVoter
    | .error (.tooManyReplicas count) => .error (.intermediatePeakExceedsCap count)
    | .error (.tooManyNodes count) => .error (.intermediateNodePeakExceedsCap count)
    | .error _ => .error .removesLastVoter

end Plan

/-- `plan_reconfiguration`: obsolete learners leave, new voters join as learners, voters are
promoted and demoted in turn, and the target's other learners join. -/
def planReconfiguration (current : Membership) (target : MembershipTarget) :
    Except PlanError (List SingleVoterDelta) :=
  let vc := current.voterSet
  let lc := current.learnerSet
  let vt := target.voters
  let lt := target.learners
  if ¬ Disjoint vt lt then .error .voterLearnerOverlap
  else if vt = ∅ then .error .emptyVoterSet
  else if vt.card > maxVotingReplicas then .error (.tooManyVoters vt.card)
  else
    let promotes := ascending (vt \ vc)
    let demotes := ascending (vc \ vt)
    let plan :=
      ((ascending lc).filter (fun x => x ∉ lt ∧ x ∉ vt)).map .removeLearner
      ++ ((ascending vt).filter (fun x => x ∉ vc ∧ x ∉ lc)).map .addLearner
      ++ Plan.interleave lt (promotes.length + demotes.length) vc.card promotes demotes
      ++ ((ascending lt).filter (fun x => x ∉ lc ∧ x ∉ vc)).map .addLearner
    match Plan.simulate current.replicaCount current.nodeCount current plan with
    | .ok () => .ok plan
    | .error e => .error e

/-- `shrink_candidates`: every demotion of the plan, once nothing has to grow before the first. -/
def shrinkCandidates (current : Membership) (target : MembershipTarget) :
    Except PlanError (List SingleVoterDelta) :=
  match planReconfiguration current target with
  | .error e => .error e
  | .ok plan =>
    let beforeDemote := plan.takeWhile (!·.isDemoteVoter)
    if beforeDemote.length = plan.length then .ok []
    else if beforeDemote.any (fun d => d.isAddLearner || d.isPromoteLearner) then .ok []
    else .ok (plan.filter (·.isDemoteVoter))

end Viewstamp
