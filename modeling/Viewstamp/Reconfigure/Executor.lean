import Viewstamp.Reconfigure.Answer

/- A reconfiguration job whose backend installs what it is given.

   The job plans a step from the live membership, proposes it, and awaits its
   installation; each installation takes one step off the plan, so the job reaches
   its goal unless the deadline comes first. -/
namespace Viewstamp

open Finset

namespace ReconfigureJob

variable {target : MembershipTarget} {live : Membership} {j : ReconfigureJob} {l : Locals}
  {a : Advance}

/-! ## A backend that installs what it is given -/

section Installing

variable {health : HealthHint} {d : SingleVoterDelta} {s : Membership}

open Plan Viewstamp.Membership

/-- Candidates that all keep a proven quorum yield a demotion. -/
theorem exists_pick {candidates : List SingleVoterDelta} {fresh : Finset MemberId}
    (localMember : MemberId) (hne : candidates ≠ [])
    (hall : ∀ d ∈ candidates, health.keepsQuorum live fresh d.member = true) :
    ∃ d, pickFreshQuorumPreservingDemotion live candidates health fresh localMember = .ok d := by
  unfold pickFreshQuorumPreservingDemotion
  dsimp only
  split
  · exact ⟨_, rfl⟩
  · rename_i hfind
    obtain ⟨d, rest, rfl⟩ := List.exists_cons_of_ne_nil hne
    rw [List.find?_eq_none] at hfind
    have hd := hfind d ((List.mem_insertionSort _).mpr List.mem_cons_self)
    exact absurd (hall d List.mem_cons_self) hd

/-- With every live voter proven alive, a demotion that is due keeps a proven quorum. -/
theorem keepsQuorum_of_due {fresh : Finset MemberId} {x : MemberId} (hm : Planned live target)
    (hdue : Due live.voterSet live.learnerSet target (.demoteVoter x))
    (hdown : health.knownDown = ∅) (hfresh : live.voterSet ⊆ fresh) :
    health.keepsQuorum live fresh x = true := by
  obtain ⟨s, hs, -⟩ := hm.step hdue
  have hcard : 1 ≤ (live.successorVoters x).card := by
    rw [← voterSet_of_demoteVoter hs, s.card_voterSet]
    exact s.valid.pos
  have halive : live.successorVoters x ∩ (fresh \ health.knownDown) = live.successorVoters x := by
    rw [hdown, sdiff_empty]
    exact inter_eq_left.mpr ((erase_subset x _).trans hfresh)
  rw [keepsQuorum_iff, halive]
  omega

/-- A plan that leads with a demotion offers its demotions as candidates. -/
theorem shrinkCandidates_of_demote {step : SingleVoterDelta} {rest : List SingleVoterDelta}
    (hplan : planReconfiguration live target = .ok (step :: rest))
    (hstep : step.isDemoteVoter = true) :
    shrinkCandidates live target = .ok (step :: rest.filter (·.isDemoteVoter)) := by
  unfold shrinkCandidates
  rw [hplan]
  simp [List.takeWhile, hstep]

/-- What the executor assumes of its surroundings while it grows and shrinks the group. -/
structure Favoured (j : ReconfigureJob) : Prop where
  planned : Planned j.snapshot.live j.target
  down : j.health.knownDown = ∅
  member : j.localMember ∈ j.target.voters
  fresh : j.snapshot.live.voterSet ⊆ j.snapshot.fresh
  time : j.snapshot.capExhausted = false

/-- The lane of a planned step posts a step that the plan offers. -/
theorem Favoured.lane {step : SingleVoterDelta} {rest : List SingleVoterDelta} (h : Favoured j)
    (hplan : planReconfiguration j.snapshot.live j.target = .ok (step :: rest)) :
    ∃ d, Offered j.target j.snapshot.live d ∧ j.lane l step = .post l d := by
  have hnext : Offered j.target j.snapshot.live step := by
    refine .inl ?_
    unfold planNextStep
    rw [hplan]
    rfl
  unfold ReconfigureJob.lane
  dsimp only
  split
  · rename_i hdemote
    have hc := shrinkCandidates_of_demote hplan hdemote
    have hkeeps : ∀ d ∈ step :: rest.filter (·.isDemoteVoter),
        j.health.keepsQuorum j.snapshot.live j.snapshot.fresh d.member = true := by
      intro d hd
      obtain ⟨x, rfl, hdue⟩ := due_of_mem_shrinkCandidates h.planned hc hd
      exact keepsQuorum_of_due h.planned hdue h.down h.fresh
    obtain ⟨d, hd⟩ := exists_pick j.localMember (List.cons_ne_nil _ _) hkeeps
    refine ⟨d, .inr ⟨_, hc, (pickFreshQuorumPreservingDemotion_ok hd).1⟩, ?_⟩
    rw [hc]
    dsimp only
    rw [hd]
  · split
    · have hquorum : j.snapshot.live.quorum
          ≤ (j.snapshot.live.voterSet ∩ j.snapshot.fresh).card := by
        have hpos := j.snapshot.live.valid.pos
        rw [inter_eq_left.mpr h.fresh, j.snapshot.live.card_voterSet, quorum]
        omega
      rw [if_pos hquorum]
      exact ⟨step, hnext, rfl⟩
    · exact ⟨step, hnext, rfl⟩

/-- A turn under favourable conditions ends the job at its goal or posts an offered step. -/
theorem Favoured.turn (h : Favoured j)
    (hseen : l.membersSeen ⊆ j.snapshot.live.members.toFinset ∩ j.target.members) :
    (planReconfiguration j.snapshot.live j.target = .ok [] ∧ j.turn l = .finish (.ok ())) ∨
    ∃ l' d, l'.membersSeen ⊆ j.snapshot.live.members.toFinset ∩ j.target.members ∧
      Offered j.target j.snapshot.live d ∧ j.turn l = .post l' d := by
  have hpresent : l.membersSeen ∪ j.snapshot.live.members.toFinset ∩ j.target.members
      ⊆ j.snapshot.live.members.toFinset ∩ j.target.members :=
    union_subset hseen subset_rfl
  have hphantom : ((l.membersSeen ∪ j.snapshot.live.members.toFinset ∩ j.target.members)
      ∩ j.target.members) \ j.snapshot.live.members.toFinset = ∅ :=
    sdiff_eq_empty_iff_subset.mpr
      ((inter_subset_left.trans hpresent).trans inter_subset_left)
  unfold ReconfigureJob.turn
  dsimp only
  rw [if_neg (fun hne => hne hphantom)]
  cases hplan : planReconfiguration j.snapshot.live j.target with
  | error e =>
    rw [h.planned.plan] at hplan
    cases hplan
  | ok plan =>
    cases plan with
    | nil => exact .inl ⟨rfl, rfl⟩
    | cons step rest =>
      refine .inr ?_
      -- the local member stays a voter, so the plan never removes it
      have hself : step ≠ .removeLearner j.localMember := by
        rintro rfl
        obtain ⟨-, hsteps⟩ := planned_of_ok hplan
        have hdue := (steps_cons j.snapshot.live.disjoint_sets h.planned.target.disjoint
          hsteps.symm).1
        cases hdue with
        | prune mem learner voter => exact voter h.member
      let noted : Locals := { l with membersSeen :=
        l.membersSeen ∪ j.snapshot.live.members.toFinset ∩ j.target.members }
      obtain ⟨d, hoffered, hlane⟩ := h.lane (l := noted) hplan
      refine ⟨noted, d, hpresent, hoffered, ?_⟩
      simp only [hself, decide_false, Bool.and_false, Bool.false_eq_true, if_false, h.time]
      exact hlane

/-- The loop does not back off under favourable conditions. -/
theorem Favoured.runLoop (h : Favoured j) (ticks : Nat)
    (hseen : l.membersSeen ⊆ j.snapshot.live.members.toFinset ∩ j.target.members) :
    (planReconfiguration j.snapshot.live j.target = .ok [] ∧
      ReconfigureJob.runLoop ticks j l = j.finish (.ok ())) ∨
    ∃ l' d, l'.membersSeen ⊆ j.snapshot.live.members.toFinset ∩ j.target.members ∧
      Offered j.target j.snapshot.live d ∧ ReconfigureJob.runLoop ticks j l = j.post l' d := by
  rcases h.turn hseen with ⟨hplan, hturn⟩ | ⟨l', d, hseen', hoffered, hturn⟩
  · refine .inl ⟨hplan, ?_⟩
    unfold ReconfigureJob.runLoop
    rw [hturn]
  · refine .inr ⟨l', d, hseen', hoffered, ?_⟩
    unfold ReconfigureJob.runLoop
    rw [hturn]

/-- The target members seen so far are still there after a step that is due, with the one it
seats. -/
theorem seen_after {seen : Finset MemberId}
    (hdue : Due live.voterSet live.learnerSet target d) (hs : live.applyDelta d = .ok s)
    (hseen : seen ⊆ live.members.toFinset ∩ target.members) :
    (if d.isAddLearner || d.isPromoteLearner then insert d.member seen else seen)
      ⊆ s.members.toFinset ∩ target.members := by
  have hmembers : ∀ {m : Membership}, m.members.toFinset = m.voterSet ∪ m.learnerSet := by
    intro m
    ext x
    rw [List.mem_toFinset, mem_members_iff]
  rw [hmembers] at hseen
  rw [hmembers, voterSet_applyDelta hs, learnerSet_applyDelta hs]
  intro x hx
  cases hdue with
  | @prune y mem learner voter =>
    obtain ⟨hlive, htarget⟩ := mem_inter.mp (hseen hx)
    have hne : x ≠ y := by
      rintro rfl
      rcases mem_union.mp htarget with hv | hl
      · exact voter hv
      · exact learner hl
    refine mem_inter.mpr ⟨?_, htarget⟩
    rcases mem_union.mp hlive with hv | hl
    · exact mem_union_left _ hv
    · exact mem_union_right _ (mem_erase.mpr ⟨hne, hl⟩)
  | @stage y pruned htarget voter learner =>
    rcases mem_insert.mp hx with rfl | hx
    · exact mem_inter.mpr ⟨mem_union_right _ (mem_insert_self _ _),
        mem_union_left _ htarget⟩
    · obtain ⟨hlive, hx⟩ := mem_inter.mp (hseen hx)
      refine mem_inter.mpr ⟨?_, hx⟩
      exact union_subset_union_right (subset_insert _ _) hlive
  | @promote y staged htarget voter turn =>
    rcases mem_insert.mp hx with rfl | hx
    · exact mem_inter.mpr ⟨mem_union_left _ (mem_insert_self _ _),
        mem_union_left _ htarget⟩
    · obtain ⟨hlive, hx⟩ := mem_inter.mp (hseen hx)
      refine mem_inter.mpr ⟨?_, hx⟩
      simp only [voterSetAfter, learnerSetAfter, mem_union, mem_insert,
        mem_erase]
      rcases mem_union.mp hlive with hv | hl
      · exact .inl (.inr hv)
      · by_cases hxy : x = y
        · exact .inl (.inl hxy)
        · exact .inr ⟨hxy, hl⟩
  | @demote y staged voter htarget turn =>
    obtain ⟨hlive, hx⟩ := mem_inter.mp (hseen hx)
    refine mem_inter.mpr ⟨?_, hx⟩
    simp only [voterSetAfter, learnerSetAfter, mem_union, mem_insert,
      mem_erase]
    rcases mem_union.mp hlive with hv | hl
    · by_cases hxy : x = y
      · exact .inr (.inl hxy)
      · exact .inl ⟨hxy, hv⟩
    · exact .inr (.inr hl)
  | @join y pruned voters htarget learner voter =>
    rcases mem_insert.mp hx with rfl | hx
    · exact mem_inter.mpr ⟨mem_union_right _ (mem_insert_self _ _),
        mem_union_right _ htarget⟩
    · obtain ⟨hlive, hx⟩ := mem_inter.mp (hseen hx)
      refine mem_inter.mpr ⟨?_, hx⟩
      exact union_subset_union_right (subset_insert _ _) hlive

/-- The goal of a job that the backend and the probe favour: no voter is known to be down, and the
local member stays a voter. -/
structure Plainly (target : MembershipTarget) (j : ReconfigureJob) : Prop where
  goal : j.target = target
  down : j.health.knownDown = ∅
  member : j.localMember ∈ target.voters
  silent : j.reply = none

/-- The job awaits the installation of an accepted step that leads from `live` to `s`. -/
structure Awaiting (target : MembershipTarget) (live s : Membership) (d : SingleVoterDelta)
    (j : ReconfigureJob) : Prop extends Plainly target j where
  parked : ∃ l, j.fut = .proposing l d ∧
    l.membersSeen ⊆ live.members.toFinset ∩ target.members
  drained : j.proposal = none
  verdict : j.verdict = .waiting
  owed : j.pendingStepReply = true
  expected : j.expectedConfigId = some s.configId
  offered : Offered target live d
  apply : live.applyDelta d = .ok s

/-- What a job comes to at a membership: its goal, or a proposal of an offered step that it then
awaits. -/
def Proceeds (target : MembershipTarget) (live : Membership) (next : ReconfigureJob × Option Call) :
    Prop :=
  (planReconfiguration live target = .ok [] ∧ next.1.reply = some (.ok ()) ∧ next.2 = none) ∨
  ∃ s d ack, Awaiting target live s d next.1 ∧ next.2 = some ⟨d, ack⟩

/-- A posted step is accepted and awaited. -/
theorem proceeds_of_post (hj : Plainly target j)
    (hm : Planned a.live target) (hoffered : Offered target a.live d)
    (hseen : l.membersSeen ⊆ a.live.members.toFinset ∩ target.members)
    (haccepts : ∀ c, ∃ op, a.propose c = .ok op) :
    Proceeds target a.live
      ({ ((j.post l d).takeProposal a).1 with tick := true }, ((j.post l d).takeProposal a).2) := by
  obtain ⟨s, hs, -⟩ := hm.step (hm.offered hoffered).1
  obtain ⟨op, hop⟩ := haccepts ⟨d, (j.post l d).stepAck a.live d⟩
  refine .inr ⟨s, d, (j.post l d).stepAck a.live d, ?_, ?_⟩
  · simp only [takeProposal, post] at hop ⊢
    rw [hop]
    exact ⟨⟨hj.goal, hj.down, hj.member, hj.silent⟩, ⟨l, rfl, hseen⟩, rfl, rfl, rfl, by rw [hs],
      hoffered, hs⟩
  · simp only [takeProposal, post] at hop ⊢
    rw [hop]

/-- An advance that leads into the executor's loop proceeds. -/
theorem proceeds_of_runLoop (ticks : Nat) {q : ReconfigureJob}
    (hdue : ¬ j.deadline.getD (a.now + j.reconfigureTimeout) ≤ a.now)
    (hpoll : (j.prepared a).poll = runLoop ticks q l) (hq : Plainly target q)
    (hlive : q.snapshot.live = a.live) (hfresh : q.snapshot.fresh = a.fresh)
    (htime : q.snapshot.capExhausted = false) (hm : Planned a.live target)
    (hproven : a.live.voterSet ⊆ a.fresh)
    (hseen : l.membersSeen ⊆ a.live.members.toFinset ∩ target.members)
    (haccepts : ∀ c, ∃ op, a.propose c = .ok op) :
    Proceeds target a.live (j.advance a) := by
  have hfavoured : Favoured q := by
    refine ⟨?_, hq.down, hq.goal ▸ hq.member, ?_, htime⟩
    · rw [hlive, hq.goal]
      exact hm
    · rw [hlive, hfresh]
      exact hproven
  rw [advance_eq]
  dsimp only
  rw [if_neg hdue, hpoll]
  rw [← hlive, ← hq.goal] at hseen
  rcases hfavoured.runLoop ticks hseen with ⟨hplan, hrun⟩ | ⟨l', d, hseen', hoffered, hrun⟩
  · rw [hlive, hq.goal] at hplan
    rw [hrun]
    exact .inl ⟨hplan, rfl, rfl⟩
  · rw [hlive, hq.goal] at hseen' hoffered
    have hsilent : ¬ (q.post l' d).reply.isSome = true := by
      rw [show (q.post l' d).reply = none from hq.silent]
      simp
    rw [hrun, if_neg hsilent]
    exact proceeds_of_post hq hm hoffered hseen' haccepts

/-- While the step is not installed an advance changes nothing but the snapshot. -/
theorem Awaiting.idle (h : Awaiting target live s d j)
    (hdue : ¬ j.deadline.getD (a.now + j.reconfigureTimeout) ≤ a.now) (hlive : a.live = live)
    (hid : s.configId ≠ live.configId) :
    (j.advance a).1.reply = none ∧ (j.advance a).2 = none ∧
      Awaiting target live s d (j.advance a).1 := by
  obtain ⟨l, hfut, hseen⟩ := h.parked
  have hprep : j.prepared a = { j with
      deadline := some (j.deadline.getD (a.now + j.reconfigureTimeout))
      snapshot :=
        { j.snapshot with live := a.live, fresh := a.fresh, capExhausted := false } } := by
    unfold prepared detectInstall
    rw [if_neg]
    · rfl
    · rw [h.expected, hlive]
      exact fun heq => hid (Option.some.inj heq)
  have hpoll : (j.prepared a).poll = j.prepared a := by
    rw [hprep]
    unfold poll
    simp only [hfut, h.verdict]
  have hsilent : ¬ (j.prepared a).reply.isSome = true := by
    rw [hprep]
    simp [h.silent]
  rw [advance_eq]
  dsimp only
  rw [if_neg hdue, hpoll, if_neg hsilent, takeProposal_of_empty (by rw [hprep]; exact h.drained),
    hprep]
  exact ⟨h.silent, rfl, ⟨h.goal, h.down, h.member, h.silent⟩, ⟨l, hfut, hseen⟩,
    h.drained, h.verdict,
    h.owed, h.expected, h.offered, h.apply⟩

/-- The advance that shows the installation plans the next step. -/
theorem Awaiting.installed (h : Awaiting target live s d j) (hm : Planned live target)
    (hdue : ¬ j.deadline.getD (a.now + j.reconfigureTimeout) ≤ a.now) (hlive : a.live = s)
    (hproven : a.live.voterSet ⊆ a.fresh) (haccepts : ∀ c, ∃ op, a.propose c = .ok op) :
    Proceeds target a.live (j.advance a) := by
  obtain ⟨l, hfut, hseen⟩ := h.parked
  obtain ⟨hdelta, -⟩ := hm.offered h.offered
  have hafter := seen_after hdelta h.apply hseen
  obtain ⟨s', hs', hplanned⟩ := hm.step hdelta
  obtain rfl : s' = s := Except.ok.inj (hs'.symm.trans h.apply)
  have hprep : j.prepared a = { j with
      deadline := some (j.deadline.getD (a.now + j.reconfigureTimeout))
      expectedConfigId := none
      pendingOp := none
      verdict := .sent .installed
      pendingStepReply := false
      snapshot :=
        { j.snapshot with live := a.live, fresh := a.fresh, capExhausted := false } } := by
    unfold prepared detectInstall
    rw [if_pos]
    · simp only [h.owed]
      rfl
    · rw [h.expected, hlive]
  refine proceeds_of_runLoop (j.prepared a).tick.toNat (q := (j.prepared a).noteShrinkStall none)
    (l := { l with
      committedAny := true
      lastStall := none
      membersSeen := if d.isAddLearner || d.isPromoteLearner then insert d.member l.membersSeen
        else l.membersSeen }) hdue ?_ ?_ ?_ ?_ ?_ ?_ hproven ?_ haccepts
  · have hpfut : (j.prepared a).fut = .proposing l d := by
      rw [hprep]
      exact hfut
    have hpverdict : (j.prepared a).verdict = .sent .installed := by rw [hprep]
    rw [poll, hpfut]
    dsimp only
    rw [hpverdict]
    rfl
  · rw [hprep]
    exact ⟨h.goal, h.down, h.member, h.silent⟩
  · rw [hprep]
    rfl
  · rw [hprep]
    rfl
  · rw [hprep]
    rfl
  · rw [hlive]
    exact hplanned
  · rw [hlive]
    exact hafter

/-- The first advance plans the first step, unless the goal tolerates fewer crashes and the caller
did not acknowledge it. -/
theorem start_proceeds {timeout : Nat} {initialLive : Membership}
    {initialFresh : Finset MemberId} {localMember : MemberId} {ack : Bool}
    (hdown : health.knownDown = ∅) (hmember : localMember ∈ target.voters)
    (hack : fOf a.live.replicaCount ≤ fOf target.voters.card ∨ ack = true)
    (hdue : 0 < timeout) (hm : Planned a.live target) (hproven : a.live.voterSet ⊆ a.fresh)
    (haccepts : ∀ c, ∃ op, a.propose c = .ok op) :
    Proceeds target a.live
      ((start target health timeout initialLive initialFresh localMember ack).advance a) := by
  let j := start target health timeout initialLive initialFresh localMember ack
  have hprep : j.prepared a = { j with
      deadline := some (a.now + timeout)
      snapshot := { j.snapshot with live := a.live, fresh := a.fresh, capExhausted := false } } :=
    rfl
  refine proceeds_of_runLoop (j.prepared a).tick.toNat (q := j.prepared a)
    (l := { membersSeen := a.live.members.toFinset ∩ target.members }) ?_ ?_ ?_ rfl rfl rfl hm
    hproven subset_rfl haccepts
  · exact Nat.not_le.mpr (Nat.lt_add_of_pos_right hdue)
  · show (j.prepared a).begin = _
    unfold begin
    dsimp only
    rw [if_neg]
    · rfl
    · rintro ⟨-, -, hlower, hnot⟩
      rcases hack with hack | hack
      · exact absurd hlower (Nat.not_lt.mpr hack)
      · rw [show (j.prepared a).ack = ack from rfl, hack] at hnot
        cases hnot
  · exact ⟨rfl, hdown, hmember, rfl⟩

/-- A backend that installs what it is given. It accepts every proposal and owes it from then on;
the live membership stays as it is until the proposal owed is installed, which happens at last,
and until then the successor's id is not the live one. -/
structure Installs (j : ReconfigureJob) (as : Nat → Advance)
    (owed : Nat → Option SingleVoterDelta) : Prop where
  accepts : ∀ k c, ∃ op, (as k).propose c = .ok op
  fresh : ∀ k, (as k).live.voterSet ⊆ (as k).fresh
  clear : owed 0 = none
  moves : ∀ k d, ((j.callAt (fun i => .advance (as i)) k).map Call.delta).or (owed k) = some d →
    ((as (k + 1)).live = (as k).live ∧ owed (k + 1) = some d) ∨
      ((as k).live.applyDelta d = .ok (as (k + 1)).live ∧ owed (k + 1) = none)
  rests : ∀ k, ((j.callAt (fun i => .advance (as i)) k).map Call.delta).or (owed k) = none →
    (as (k + 1)).live = (as k).live ∧ owed (k + 1) = none
  lands : ∀ k, ∃ n, owed (k + n) = none
  shows : ∀ k d s, owed k = some d → (as k).live.applyDelta d = .ok s →
    s.configId ≠ (as k).live.configId

/-- A job on its way: the live membership can be planned from and is level with the start or
between it and the target, and the job is about to plan or awaits what the backend owes. -/
structure Underway (target : MembershipTarget) (f : Nat) (a : Advance)
    (owed : Option SingleVoterDelta) (j : ReconfigureJob) : Prop where
  planned : Planned a.live target
  level : Level f a.live.voterSet target
  phase : (owed = none ∧ Proceeds target a.live (j.advance a)) ∨
    ∃ s d, owed = some d ∧ Awaiting target a.live s d j

variable {as : Nat → Advance} {owed : Nat → Option SingleVoterDelta} {j0 : ReconfigureJob}
  {f k : Nat}

/-- The length of the plan from the live membership of an advance. -/
def remaining (target : MembershipTarget) (a : Advance) : Nat :=
  (steps a.live.voterSet a.live.learnerSet target).length

/-- A step the backend owes is still owed at the next advance, or installed there and taken off
the plan. -/
theorem Installs.arrives (h : Installs j0 as owed)
    (hm : Planned (as k).live target) (hlevel : Level f (as k).live.voterSet target)
    (hj : Awaiting target (as k).live s d j)
    (howed : ((j0.callAt (fun i => .advance (as i)) k).map Call.delta).or (owed k) = some d)
    (hdue : ¬ j.deadline.getD ((as (k + 1)).now + j.reconfigureTimeout) ≤ (as (k + 1)).now) :
    Underway target f (as (k + 1)) (owed (k + 1)) j ∧
      (((as (k + 1)).live = (as k).live ∧ owed (k + 1) ≠ none) ∨
        remaining target (as (k + 1)) < remaining target (as k)) := by
  rcases h.moves k d howed with ⟨hlive, hstill⟩ | ⟨hinstalled, hnone⟩
  · refine ⟨⟨?_, ?_, .inr ⟨s, d, hstill, ?_⟩⟩, .inl ⟨hlive, by rw [hstill]; simp⟩⟩
    · rw [hlive]
      exact hm
    · rw [hlive]
      exact hlevel
    · rw [hlive]
      exact hj
  · have hs : (as (k + 1)).live = s := Except.ok.inj (hinstalled.symm.trans hj.apply)
    obtain ⟨hdelta, hshorter⟩ := hm.offered hj.offered
    obtain ⟨s', hs', hplanned⟩ := hm.step hdelta
    obtain rfl : s' = s := Except.ok.inj (hs'.symm.trans hj.apply)
    refine ⟨⟨hs ▸ hplanned, ?_, .inl ⟨hnone, ?_⟩⟩, .inr ?_⟩
    · rw [hs, voterSet_applyDelta hj.apply]
      exact hdelta.level hlevel
    · exact hj.installed hm hdue hs (h.fresh (k + 1)) (h.accepts (k + 1))
    · rw [remaining, remaining, hs, voterSet_applyDelta hj.apply, learnerSet_applyDelta hj.apply]
      omega

/-- One advance of a job on its way: it answers that the goal is reached, or it stays on its way,
waits or has one step less to go. -/
theorem Installs.step (h : Installs j0 as owed)
    (htime : ∀ i, (as i).now < (as 0).now + j0.reconfigureTimeout) (hunarmed : j0.deadline = none)
    (hslot : j0.slotAt (fun i => .advance (as i)) k = some j)
    (hdue : ¬ j.deadline.getD ((as k).now + j.reconfigureTimeout) ≤ (as k).now)
    (hu : Underway target f (as k) (owed k) j) :
    j0.replyAt (fun i => .advance (as i)) k = some (.ok ()) ∨
    ∃ j', j0.slotAt (fun i => .advance (as i)) (k + 1) = some j' ∧
      Underway target f (as (k + 1)) (owed (k + 1)) j' ∧
      (((as (k + 1)).live = (as k).live ∧ owed (k + 1) ≠ none) ∨
        remaining target (as (k + 1)) < remaining target (as k)) := by
  have hnext : (j.advance (as k)).1.reply = none →
      j0.slotAt (fun i => .advance (as i)) (k + 1) = some (j.advance (as k)).1 ∧
      j0.callAt (fun i => .advance (as i)) k = (j.advance (as k)).2 ∧
      ¬ (j.advance (as k)).1.deadline.getD
        ((as (k + 1)).now + (j.advance (as k)).1.reconfigureTimeout) ≤ (as (k + 1)).now := by
    intro hreply
    have hslot' : j0.slotAt (fun i => .advance (as i)) (k + 1) = some (j.advance (as k)).1 := by
      rw [slotAt, hslot]
      simp only [turned, hreply]
    refine ⟨hslot', ?_, ?_⟩
    · rw [callAt, hslot]
      simp only [turned, hreply]
    · rw [slotAt_deadline hunarmed rfl hslot']
      exact Nat.not_le.mpr (htime (k + 1))
  rcases hu.phase with ⟨hnone, hgoal | ⟨s, d, ack, hawaits, hcall⟩⟩ | ⟨s, d, howed, hawaits⟩
  · refine .inl ?_
    rw [replyAt, hslot]
    simp only [turned, hgoal.2.1]
  · obtain ⟨hslot', hcallAt, hdue'⟩ := hnext hawaits.silent
    refine .inr ⟨_, hslot', h.arrives hu.planned hu.level hawaits ?_ hdue'⟩
    rw [hcallAt, hcall]
    rfl
  · obtain ⟨hreply, hcall, hawaits'⟩ :=
      hawaits.idle hdue rfl (h.shows k d s howed hawaits.apply)
    obtain ⟨hslot', hcallAt, hdue'⟩ := hnext hreply
    refine .inr ⟨_, hslot', h.arrives hu.planned hu.level hawaits' ?_ hdue'⟩
    rw [hcallAt, hcall, howed]
    rfl

/-- In every advance the goal was reached before, or the job is on its way. -/
theorem Installs.underway (h : Installs j0 as owed)
    (htime : ∀ i, (as i).now < (as 0).now + j0.reconfigureTimeout) (hunarmed : j0.deadline = none)
    (h0 : Underway target f (as 0) (owed 0) j0) : ∀ k,
    (∃ m < k, j0.replyAt (fun i => .advance (as i)) m = some (.ok ())) ∨
    ∃ j, j0.slotAt (fun i => .advance (as i)) k = some j ∧
      ¬ j.deadline.getD ((as k).now + j.reconfigureTimeout) ≤ (as k).now ∧
      Underway target f (as k) (owed k) j
  | 0 => by
    refine .inr ⟨j0, rfl, ?_, h0⟩
    rw [hunarmed]
    exact Nat.not_le.mpr (htime 0)
  | k + 1 => by
    rcases h.underway htime hunarmed h0 k with ⟨m, hm, hreply⟩ | ⟨j, hslot, hdue, hu⟩
    · exact .inl ⟨m, Nat.lt_succ_of_lt hm, hreply⟩
    · rcases h.step htime hunarmed hslot hdue hu with hreply | ⟨j', hslot', hu', -⟩
      · exact .inl ⟨k, Nat.lt_succ_self k, hreply⟩
      · refine .inr ⟨j', hslot', ?_, hu'⟩
        rw [slotAt_deadline hunarmed rfl hslot']
        exact Nat.not_le.mpr (htime (k + 1))

/-- A job that never answers has ever less to go: what it awaits is installed at last. -/
theorem Installs.descends (h : Installs j0 as owed)
    (htime : ∀ i, (as i).now < (as 0).now + j0.reconfigureTimeout) (hunarmed : j0.deadline = none)
    (h0 : Underway target f (as 0) (owed 0) j0)
    (hnever : ∀ m, j0.replyAt (fun i => .advance (as i)) m ≠ some (.ok ())) : ∀ n k,
    owed (k + 1 + n) = none → ∃ k', remaining target (as k') < remaining target (as k) := by
  have hstep : ∀ k, ((as (k + 1)).live = (as k).live ∧ owed (k + 1) ≠ none) ∨
      remaining target (as (k + 1)) < remaining target (as k) := by
    intro k
    rcases h.underway htime hunarmed h0 k with ⟨m, -, hreply⟩ | ⟨j, hslot, hdue, hu⟩
    · exact absurd hreply (hnever m)
    · rcases h.step htime hunarmed hslot hdue hu with hreply | ⟨j', -, -, hmoves⟩
      · exact absurd hreply (hnever k)
      · exact hmoves
  intro n
  induction n with
  | zero =>
    intro k hnone
    rcases hstep k with ⟨-, howed⟩ | hless
    · exact absurd hnone howed
    · exact ⟨k + 1, hless⟩
  | succ n ih =>
    intro k hnone
    rcases hstep k with ⟨hlive, -⟩ | hless
    · obtain ⟨k', hless⟩ := ih (k + 1) (by rw [← hnone]; congr 1; omega)
      refine ⟨k', ?_⟩
      rwa [remaining, remaining, hlive] at hless
    · exact ⟨k + 1, hless⟩

/-- The job reaches its goal. -/
theorem Installs.converges (h : Installs j0 as owed)
    (htime : ∀ i, (as i).now < (as 0).now + j0.reconfigureTimeout) (hunarmed : j0.deadline = none)
    (h0 : Underway target f (as 0) (owed 0) j0) :
    ∃ n, j0.replyAt (fun i => .advance (as i)) n = some (.ok ()) := by
  by_contra hnever
  push Not at hnever
  have hless : ∀ k, ∃ k', remaining target (as k') < remaining target (as k) := by
    intro k
    obtain ⟨n, hn⟩ := h.lands (k + 1)
    exact h.descends htime hunarmed h0 hnever n k hn
  -- no length of a plan is the smallest
  have hnone : ∀ length k, remaining target (as k) ≠ length := by
    intro length
    induction length using Nat.strong_induction_on with
    | _ length ih =>
      rintro k rfl
      obtain ⟨k', hk'⟩ := hless k
      exact ih _ hk' k' rfl
  exact hnone _ 0 rfl

/-- Toward a goal that tolerates no fewer crashes than the start no voter is taken from an odd
count. -/
theorem Installs.even (h : Installs j0 as owed)
    (htime : ∀ i, (as i).now < (as 0).now + j0.reconfigureTimeout) (hunarmed : j0.deadline = none)
    (h0 : Underway target f (as 0) (owed 0) j0) (hf : f ≤ fOf target.voters.card) {c : Call}
    {x : MemberId} (hcall : j0.callAt (fun i => .advance (as i)) k = some c)
    (hdemote : c.delta = .demoteVoter x) : (as k).live.replicaCount % 2 = 0 := by
  rcases h.underway htime hunarmed h0 k with ⟨m, hm, hreply⟩ | ⟨j, hslot, hdue, hu⟩
  · rw [callAt, slotAt_of_reply (by rw [hreply]; simp) hm] at hcall
    cases hcall
  · have hadvance : j0.callAt (fun i => .advance (as i)) k = (j.advance (as k)).2 := by
      rw [callAt, hslot, turned]
      split <;> rfl
    rw [hadvance] at hcall
    rcases hu.phase with ⟨-, hgoal | ⟨s, d, ack, hawaits, hposted⟩⟩ | ⟨s, d, howed, hawaits⟩
    · rw [hgoal.2.2] at hcall
      cases hcall
    · rw [hposted] at hcall
      cases hcall
      obtain rfl : d = .demoteVoter x := hdemote
      obtain ⟨hdelta, -⟩ := hu.planned.offered hawaits.offered
      by_contra hodd
      have hlower := hdelta.lowers hu.planned.target hu.level (by
        rw [(as k).live.card_voterSet]
        omega)
      exact absurd hlower (Nat.not_lt.mpr hf)
    · rw [(hawaits.idle hdue rfl (h.shows k d s howed hawaits.apply)).2.1] at hcall
      cases hcall

end Installing

/-- What a caller learns from a reconfiguration job, over every sequence of events. It is answered
at most once, and is answered once the endpoint retires or an advance comes at the deadline. The
answer is `Ok` only with exactly the target's sets live; an error that says that nothing was
changed comes only if no proposal was accepted; and a progress carries either a plan that is not
empty and leads to the target, or the reason why there is none. With a backend that installs what
it is given, all live voters proven alive and none known to be down, the local member among the
target's voters, a target that can be planned and a deadline not reached, the answer is `Ok`; and no
voter is taken from an odd count unless the target tolerates fewer crashes. -/
theorem reconfigure_outcomes (target : MembershipTarget) (health : HealthHint) (timeout : Nat)
    (initialLive : Membership) (initialFresh : Finset MemberId) (localMember : MemberId)
    (ack : Bool) (es : Nat → Event) :
    let j := start target health timeout initialLive initialFresh localMember ack
    (∀ i k, j.replyAt es i ≠ none → j.replyAt es k ≠ none → i = k) ∧
    (∀ k, ((∃ live member epoch, es k = .retire live member epoch) ∨
        ∃ a0 a, es 0 = .advance a0 ∧ es k = .advance a ∧ a0.now + timeout ≤ a.now) →
      ∃ n, j.replyAt es n ≠ none) ∧
    (∀ n, j.replyAt es n = some (.ok ()) →
      (es n).live.voterSet = target.voters ∧ (es n).live.learnerSet = target.learners) ∧
    (∀ n e, j.replyAt es n = some (.error e) →
      (e.isPreflight = true → ∀ i, ¬ j.AcceptedAt es i) ∧
      ∀ p, e.progress? = some p → p.live = (es n).live ∧ p.Resumable target) ∧
    ∀ as owed, j.Installs as owed → (∃ plan, planReconfiguration (as 0).live target = .ok plan) →
      health.knownDown = ∅ → localMember ∈ target.voters →
      (fOf (as 0).live.replicaCount ≤ fOf target.voters.card ∨ ack = true) →
      (∀ i, (as i).now < (as 0).now + timeout) →
      (∃ n, j.replyAt (fun i => .advance (as i)) n = some (.ok ())) ∧
      (fOf (as 0).live.replicaCount ≤ fOf target.voters.card →
        ∀ k c x, j.callAt (fun i => .advance (as i)) k = some c → c.delta = .demoteVoter x →
          (as k).live.replicaCount % 2 = 0) := by
  intro j
  have hkept : Kept target False j :=
    start_kept target health timeout initialLive initialFresh localMember ack
  refine ⟨fun i k => replyAt_unique, fun k h => exists_replyAt rfl h, ?_, ?_, ?_⟩
  · intro n hreply
    cases replyAt_answer hkept hreply with
    | reached plan => exact sets_of_plan_nil plan
  · intro n e hreply
    cases replyAt_answer hkept hreply with
    | preflight untouched he =>
      refine ⟨fun _ i hi => untouched ⟨i, hi⟩, fun p hp => ?_⟩
      rw [he] at hp
      cases hp
    | resumable he hlive hp late =>
      refine ⟨fun hpre => ?_, fun p' hp' => ?_⟩
      · rw [late] at hpre
        cases hpre
      · rw [he] at hp'
        cases hp'
        exact ⟨hlive, hp⟩
    | plain he late =>
      refine ⟨fun hpre => ?_, fun p hp => ?_⟩
      · rw [late] at hpre
        cases hpre
      · rw [he] at hp
        cases hp
  · intro as owed hinstalls ⟨plan, hplan⟩ hdown hmember hack htime
    have hm := (Plan.planned_of_ok hplan).1
    have hpos : 0 < timeout := Nat.pos_of_lt_add_right (htime 0)
    have hunderway : Underway target (fOf (as 0).live.replicaCount) (as 0) (owed 0) j := by
      refine ⟨hm, .inl ?_, .inl ⟨hinstalls.clear, ?_⟩⟩
      · rw [(as 0).live.card_voterSet]
        rfl
      · exact start_proceeds hdown hmember hack hpos hm (hinstalls.fresh 0) (hinstalls.accepts 0)
    exact ⟨hinstalls.converges htime rfl hunderway,
      fun hf k c x hcall hdemote => hinstalls.even htime rfl hunderway hf hcall hdemote⟩

/-- Four voters, of whom the last is to leave. -/
def quartet : Membership := (Membership.genesis 4 0 [7, 8, 9, 10]).toOption.get (by decide +kernel)

def leaveFourth : ReconfigureJob := start ⟨{7, 8, 9}, ∅⟩ {} 10 quartet {7, 8, 9, 10} 7 false

/-- The fourth voter is a learner, -/
def quartetDemoted : Membership :=
  (quartet.applyDelta (.demoteVoter 10)).toOption.get (by decide +kernel)

/-- and is gone. -/
def quartetLeft : Membership :=
  (quartetDemoted.applyDelta (.removeLearner 10)).toOption.get (by decide +kernel)

def leaving : Nat → Membership
  | 0 => quartet
  | 1 => quartetDemoted
  | _ => quartetLeft

/-- Advances of a driver whose group installs each step at once. -/
def leavingAdvance (k : Nat) : Advance := ⟨0, leaving k, {7, 8, 9, 10}, fun _ => .ok 1⟩

theorem leaveFourth_calls : ∀ k, leaveFourth.callAt (fun i => .advance (leavingAdvance i)) k
    = [Call.mk (.demoteVoter 10) false, ⟨.removeLearner 10, false⟩][k]?
  | 0 | 1 | 2 => by decide +kernel
  | k + 3 => by
    have hanswered : leaveFourth.slotAt (fun i => .advance (leavingAdvance i)) 3 = none := by
      decide +kernel
    have hempty := slotAt_none hanswered k
    rw [Nat.add_comm 3 k] at hempty
    rw [callAt, hempty]
    rfl

theorem leaveFourth_installs : leaveFourth.Installs leavingAdvance (fun _ => none) where
  accepts k c := ⟨1, rfl⟩
  fresh
    | 0 | 1 => by decide +kernel
    | _ + 2 => show quartetLeft.voterSet ⊆ {7, 8, 9, 10} by decide +kernel
  clear := rfl
  moves k d h := by
    rw [leaveFourth_calls] at h
    match k with
    | 0 | 1 =>
      cases h
      exact .inr ⟨by decide +kernel, rfl⟩
    | k + 2 => cases h
  rests k h := by
    rw [leaveFourth_calls] at h
    match k with
    | 0 | 1 => cases h
    | k + 2 => exact ⟨rfl, rfl⟩
  lands k := ⟨0, rfl⟩
  shows k d s h := by cases h

/-- The fourth voter is demoted and then removed. -/
theorem reconfigure_outcomes_leaveFourth :
    (leaveFourth.callAt (fun i => .advance (leavingAdvance i)) 0 = some ⟨.demoteVoter 10, false⟩ ∧
      leaveFourth.callAt (fun i => .advance (leavingAdvance i)) 1
        = some ⟨.removeLearner 10, false⟩) ∧
    ∃ n, leaveFourth.replyAt (fun i => .advance (leavingAdvance i)) n = some (.ok ()) := by
  have hplan : planReconfiguration quartet ⟨{7, 8, 9}, ∅⟩
      = .ok [.demoteVoter 10, .removeLearner 10] := by decide +kernel
  exact ⟨⟨leaveFourth_calls 0, leaveFourth_calls 1⟩,
    ((reconfigure_outcomes ⟨{7, 8, 9}, ∅⟩ {} 10 quartet {7, 8, 9, 10} 7 false
      (fun i => .advance (leavingAdvance i))).2.2.2.2 leavingAdvance (fun _ => none)
      leaveFourth_installs ⟨_, hplan⟩ rfl (by decide) (.inl (by decide +kernel))
      (fun _ => Nat.lt_add_of_pos_right (by decide))).1⟩

/-- A job that its first advance ends with an error proposes nothing and is not answered `Ok`. -/
theorem failed_at_once {e : ReconfigureError} (hreply : (j.advance a).1.reply = some (.error e))
    (hcall : (j.advance a).2 = none) :
    (∀ k, j.callAt (fun _ => .advance a) k = none) ∧
      ∀ n, j.replyAt (fun _ => .advance a) n ≠ some (.ok ()) := by
  have hturned : turned (some j) (.advance a) = ⟨none, none, some (.error e)⟩ := by
    simp only [turned, hreply, hcall]
  have hempty : ∀ k, j.slotAt (fun _ => .advance a) (k + 1) = none := by
    intro k
    refine slotAt_of_reply (i := 0) ?_ (Nat.succ_pos k)
    rw [replyAt, slotAt, hturned]
    simp
  constructor
  · rintro (_ | k)
    · rw [callAt, slotAt, hturned]
    · rw [callAt, hempty k]
      rfl
  · rintro (_ | n)
    · rw [replyAt, slotAt, hturned]
      simp
    · rw [replyAt, hempty n]
      simp [turned]

/-- A backend that is given nothing installs it all. -/
theorem installs_nothing (haccepts : ∀ c, ∃ op, a.propose c = .ok op)
    (hfresh : a.live.voterSet ⊆ a.fresh) (hcalls : ∀ k, j.callAt (fun _ => .advance a) k = none) :
    j.Installs (fun _ => a) (fun _ => none) where
  accepts _ := haccepts
  fresh _ := hfresh
  clear := rfl
  moves k d h := by
    rw [hcalls k] at h
    cases h
  rests k _ := ⟨rfl, rfl⟩
  lands k := ⟨0, rfl⟩
  shows k d s h := by cases h

/-- A second learner is to join a voter and a learner, in no time. -/
def joinThird : ReconfigureJob :=
  start ⟨{7}, {8, 9}⟩ {} 0 Membership.pairMembership {7} 7 false

def joiningAdvance : Advance := ⟨0, Membership.pairMembership, {7}, fun _ => .ok 1⟩

/-- A goal that lists a member twice. -/
def joinTwice : ReconfigureJob :=
  start ⟨{7}, {7, 8}⟩ {} 10 Membership.pairMembership {7} 7 false

/-- Favourable surroundings are not enough: a job whose deadline is due at once is answered
`Timeout` before it proposes anything, and a target with a member in both of its sets is refused,
though the backend would install every proposal. -/
theorem favoured_jobs_fail :
    (joinThird.Installs (fun _ => joiningAdvance) (fun _ => none) ∧
      ∀ n, joinThird.replyAt (fun _ => .advance joiningAdvance) n ≠ some (.ok ())) ∧
    joinTwice.Installs (fun _ => joiningAdvance) (fun _ => none) ∧
      ∀ n, joinTwice.replyAt (fun _ => .advance joiningAdvance) n ≠ some (.ok ()) := by
  have haccepts : ∀ c, ∃ op, joiningAdvance.propose c = .ok op := fun _ => ⟨1, rfl⟩
  have hfresh : joiningAdvance.live.voterSet ⊆ joiningAdvance.fresh := by decide +kernel
  have hlate : (joinThird.advance joiningAdvance).1.reply
      = some (.error (.timeout (.stall Membership.pairMembership [.addLearner 9]))) := by
    decide +kernel
  have hinvalid : (joinTwice.advance joiningAdvance).1.reply
      = some (.error (.invalidTarget .voterLearnerOverlap)) := by decide +kernel
  obtain ⟨hcalls, hnot⟩ := failed_at_once hlate (by decide +kernel)
  obtain ⟨hcalls', hnot'⟩ := failed_at_once hinvalid (by decide +kernel)
  exact ⟨⟨installs_nothing haccepts hfresh hcalls, hnot⟩,
    installs_nothing haccepts hfresh hcalls', hnot'⟩

end ReconfigureJob

end Viewstamp
