import Viewstamp.Reconfigure.Job
import Viewstamp.Reconfigure.Trajectory

/- What a reconfiguration job answers its caller.

   The driver holds one job in a slot, advances it once per iteration, and drops it
   when it is done or when the local endpoint retires. Over any sequence of such
   events the caller gets one answer, and the answer says what the job did: the
   goal is reached, or nothing was accepted, or how far it came and what is left. -/
namespace Viewstamp

namespace ReconfigureError

/-- The progress an error hands to the caller. -/
def progress? : ReconfigureError → Option ReconfigureProgress
  | planConflict p | timeout p | insufficientLiveness p _ | demotedSelf p => some p
  | _ => none

/-- An error by which the caller learns that the job changed nothing. -/
def isPreflight : ReconfigureError → Bool
  | invalidTarget _ | reducedFaultToleranceUnacknowledged _ _ => true
  | _ => false

end ReconfigureError

/-- A progress that can be resumed from: either a plan that is not empty and leads from its live
membership to the target, or the reason why there is none. -/
def ReconfigureProgress.Resumable (target : MembershipTarget) (p : ReconfigureProgress) : Prop :=
  (∃ plan s, p.remaining = some plan ∧ p.reason = none ∧ plan ≠ [] ∧
    p.live.applyDeltas plan = .ok s ∧ s.voterSet = target.voters ∧
      s.learnerSet = target.learners) ∨
  ∃ e, p.remaining = none ∧ p.reason = some e

/-- An empty plan means that the goal is reached. -/
theorem sets_of_plan_nil {live : Membership} {target : MembershipTarget}
    (h : planReconfiguration live target = .ok []) :
    live.voterSet = target.voters ∧ live.learnerSet = target.learners := by
  obtain ⟨hplanned, hsteps⟩ := Plan.planned_of_ok h
  exact Plan.eq_target_of_steps_nil live.disjoint_sets hplanned.target.disjoint hsteps.symm

theorem ReconfigureProgress.resumable_stall {live : Membership} {target : MembershipTarget}
    {plan : List SingleVoterDelta} (h : planReconfiguration live target = .ok plan)
    (hne : plan ≠ []) : (ReconfigureProgress.stall live plan).Resumable target := by
  obtain ⟨hplanned, rfl⟩ := Plan.planned_of_ok h
  obtain ⟨-, -, s, happly⟩ := planReconfiguration_ok_iff.mp h
  have hlevel : Plan.Level live.faultTolerance live.voterSet target := by
    refine .inl ?_
    rw [live.card_voterSet]
    rfl
  have hend := Plan.along_plan hplanned.target (List.append_nil _).symm happly hlevel
  obtain ⟨hv, hl⟩ :=
    Plan.eq_target_of_steps_nil s.disjoint_sets hplanned.target.disjoint hend.2
  exact .inl ⟨_, s, rfl, rfl, hne, happly, hv, hl⟩

/-- The locals a turn goes on with. -/
def JobTurn.locals? : JobTurn → Option Locals
  | .finish _ => none
  | .post l _ | .stall l _ | .backoff l => some l

/-- The executor holds a committed step in its locals. -/
def Fut.Committed : Fut → Prop
  | .unpolled | .finished => False
  | .proposing l _ | .retrying l _ | .backingOff l => l.committedAny = true

namespace ReconfigureJob

variable {j j0 : ReconfigureJob}

/-! ## The driver's slot -/

/-- What happens to the driver's job. -/
inductive Event where
  | advance (a : Advance)
  /-- The local endpoint retired. -/
  | retire (live : Membership) (localMember : MemberId) (epoch : Epoch)

/-- The live membership at an event. -/
def Event.live : Event → Membership
  | advance a => a.live
  | retire live _ _ => live

/-- `finish_on_retire`: the goal may be reached though the local member is gone. -/
def finishOnRetire (j : ReconfigureJob) (live : Membership) (localMember : MemberId)
    (epoch : Epoch) : Except ReconfigureError Unit :=
  match planReconfiguration live j.target with
  | .ok [] => .ok ()
  | _ => .error (.retired localMember epoch)

/-- What an event leaves in the slot, proposes and answers. -/
structure Turned where
  slot : Option ReconfigureJob
  call : Option Call
  reply : Option (Except ReconfigureError Unit)

/-- An event at the driver's slot: `advance_reconfigure` puts a job that is not done back, and
`finish_reconfigure_on_retire` empties the slot. -/
def turned : Option ReconfigureJob → Event → Turned
  | none, _ => ⟨none, none, none⟩
  | some j, .advance a =>
    match (j.advance a).1.reply with
    | some r => ⟨none, (j.advance a).2, some r⟩
    | none => ⟨some (j.advance a).1, (j.advance a).2, none⟩
  | some j, .retire live localMember epoch =>
    ⟨none, none, some (j.finishOnRetire live localMember epoch)⟩

/-- The slot before each event of a sequence. -/
def slotAt (j : ReconfigureJob) (es : Nat → Event) : Nat → Option ReconfigureJob
  | 0 => some j
  | k + 1 => (turned (slotAt j es k) (es k)).slot

/-- The proposal made in an event. -/
def callAt (j : ReconfigureJob) (es : Nat → Event) (k : Nat) : Option Call :=
  (turned (j.slotAt es k) (es k)).call

/-- The answer sent in an event. -/
def replyAt (j : ReconfigureJob) (es : Nat → Event) (k : Nat) :
    Option (Except ReconfigureError Unit) :=
  (turned (j.slotAt es k) (es k)).reply

/-- The backend accepted the proposal made in an event. -/
def AcceptedAt (j : ReconfigureJob) (es : Nat → Event) (k : Nat) : Prop :=
  ∃ a c op, es k = .advance a ∧ j.callAt es k = some c ∧ a.propose c = .ok op

/-- An answer empties the slot. -/
theorem slot_of_reply {slot : Option ReconfigureJob} {e : Event}
    (h : (turned slot e).reply ≠ none) : (turned slot e).slot = none := by
  cases slot with
  | none => rfl
  | some j =>
    cases e with
    | retire => rfl
    | advance a =>
      simp only [turned] at h ⊢
      split at h
      · rfl
      · exact absurd rfl h

variable {es : Nat → Event}

/-- Nothing comes back into an empty slot. -/
theorem slotAt_none {k : Nat} (h : j.slotAt es k = none) : ∀ n, j.slotAt es (k + n) = none
  | 0 => h
  | n + 1 => by
    rw [← Nat.add_assoc, slotAt, slotAt_none h n]
    rfl

/-- After an answer the slot is empty. -/
theorem slotAt_of_reply {i k : Nat} (h : j.replyAt es i ≠ none) (hlt : i < k) :
    j.slotAt es k = none := by
  have hempty : j.slotAt es (i + 1) = none := slot_of_reply h
  obtain ⟨n, rfl⟩ := Nat.exists_eq_add_of_le (Nat.succ_le_of_lt hlt)
  exact slotAt_none hempty n

/-- No second answer is sent. -/
theorem replyAt_unique {i k : Nat} (hi : j.replyAt es i ≠ none) (hk : j.replyAt es k ≠ none) :
    i = k := by
  have hlate : ∀ {i k : Nat}, i < k → j.replyAt es i ≠ none → j.replyAt es k = none := by
    intro i k hlt hi
    rw [replyAt, slotAt_of_reply hi hlt]
    rfl
  rcases Nat.lt_trichotomy i k with hlt | heq | hlt
  · exact absurd (hlate hlt hi) hk
  · exact heq
  · exact absurd (hlate hlt hk) hi

/-! ## Answers -/

/-- What an answer at `live` may be, given whether a proposal of the job was accepted. -/
inductive Answer (target : MembershipTarget) (live : Membership) (accepted : Prop) :
    Except ReconfigureError Unit → Prop
  | reached (plan : planReconfiguration live target = .ok []) : Answer target live accepted (.ok ())
  | preflight {e : ReconfigureError} (untouched : ¬ accepted) (he : e.progress? = none) :
    Answer target live accepted (.error e)
  | resumable {e : ReconfigureError} {p : ReconfigureProgress} (he : e.progress? = some p)
    (hlive : p.live = live) (hp : p.Resumable target) (late : e.isPreflight = false) :
    Answer target live accepted (.error e)
  | plain {e : ReconfigureError} (he : e.progress? = none) (late : e.isPreflight = false) :
    Answer target live accepted (.error e)

variable {target : MembershipTarget} {live : Membership} {accepted accepted' : Prop}
  {r : Except ReconfigureError Unit} {j : ReconfigureJob} {l : Locals} {a : Advance}

theorem Answer.mono (h : Answer target live accepted r) (himp : accepted' → accepted) :
    Answer target live accepted' r := by
  cases h with
  | reached plan => exact .reached plan
  | preflight untouched he => exact .preflight (fun ha => untouched (himp ha)) he
  | resumable he hlive hp late => exact .resumable he hlive hp late
  | plain he late => exact .plain he late

theorem planFailure_answer (l : Locals) (live : Membership) (e : PlanError) :
    Answer target live (l.committedAny = true) (.error (planFailure l live e)) := by
  unfold planFailure
  split
  · exact .resumable rfl rfl (.inr ⟨e, rfl, rfl⟩) rfl
  · rename_i hcommitted
    exact .preflight hcommitted rfl

theorem lane_answer {step : SingleVoterDelta} (h : j.lane l step = .finish r) :
    Answer j.target j.snapshot.live (l.committedAny = true) r := by
  unfold lane at h
  dsimp only at h
  split at h
  · split at h
    · cases h
      exact planFailure_answer _ _ _
    · cases h
    · split at h <;> cases h
  · split at h
    · split at h <;> cases h
    · cases h

/-- A turn of the loop ends the job with an answer that fits what was committed. -/
theorem turn_answer (h : j.turn l = .finish r) :
    Answer j.target j.snapshot.live (l.committedAny = true) r := by
  unfold turn at h
  dsimp only at h
  split at h
  · cases h
    exact planFailure_answer { l with membersSeen := _ } _ _
  · split at h
    · cases h
      exact planFailure_answer { l with membersSeen := _ } _ _
    · rename_i hplan
      cases h
      exact .reached hplan
    · rename_i step rest hplan
      have hresume := ReconfigureProgress.resumable_stall hplan (List.cons_ne_nil step rest)
      split at h
      · cases h
        exact .resumable rfl rfl hresume rfl
      · split at h
        · split at h
          · cases h
            exact .resumable rfl rfl hresume rfl
          · cases h
            exact .resumable rfl rfl hresume rfl
        · have hlane := lane_answer h
          exact hlane

/-- A turn commits nothing by itself. -/
theorem turn_locals {l' : Locals} (h : (j.turn l).locals? = some l') :
    l' = { l with membersSeen :=
      l.membersSeen ∪ j.snapshot.live.members.toFinset ∩ j.target.members } := by
  unfold turn at h
  dsimp only at h
  split at h
  · cases h
  · split at h
    · cases h
    · cases h
    · split at h
      · cases h
      · split at h
        · split at h <;> cases h
        · unfold lane at h
          dsimp only at h
          split at h
          · split at h
            · cases h
            · cases h; rfl
            · split at h <;> (cases h; rfl)
          · split at h
            · split at h <;> (cases h; rfl)
            · cases h; rfl

/-- A turn that goes on keeps what its locals say was committed. -/
theorem turn_committed {l' : Locals} (h : (j.turn l).locals? = some l') :
    l'.committedAny = l.committedAny := by
  rw [turn_locals h]

/-- What the loop ends with: an answer that fits its locals, or a suspension that keeps them. -/
theorem runLoop_answer (ticks : Nat) (j : ReconfigureJob) (l : Locals) (hr : j.reply = none) :
    (∀ r, (runLoop ticks j l).reply = some r →
      Answer j.target j.snapshot.live (l.committedAny = true) r) ∧
    ((runLoop ticks j l).reply = none → l.committedAny = true →
      (runLoop ticks j l).fut.Committed) := by
  fun_induction runLoop ticks j l with
  | case1 ticks j l result h =>
    refine ⟨fun r hreply => ?_, fun hreply => ?_⟩
    · cases hreply
      exact turn_answer h
    · cases hreply
  | case2 ticks j l l' step h =>
    have hkept := turn_committed (congrArg JobTurn.locals? h)
    refine ⟨fun r hreply => absurd hreply (by simp [post, hr]), fun _ hc => ?_⟩
    exact hkept.trans hc
  | case3 j l l' unproven h l1 j1 =>
    have hkept := turn_committed (congrArg JobTurn.locals? h)
    refine ⟨fun r hreply => absurd hreply (by simp [j1, noteShrinkStall, hr]), fun _ hc => ?_⟩
    exact hkept.trans hc
  | case4 j l l' unproven h l1 j1 ticks ih =>
    have hkept : l1.committedAny = l.committedAny := by
      rw [← turn_committed (congrArg JobTurn.locals? h)]
    obtain ⟨hanswer, hcommitted⟩ := ih hr
    exact ⟨fun r hreply => hkept ▸ hanswer r hreply, fun hreply hc =>
      hcommitted hreply (hkept.trans hc)⟩
  | case5 j l l' h =>
    have hkept := turn_committed (congrArg JobTurn.locals? h)
    refine ⟨fun r hreply => absurd hreply (by simp [hr]), fun _ hc => ?_⟩
    exact hkept.trans hc
  | case6 j l l' h ticks ih =>
    have hkept := turn_committed (congrArg JobTurn.locals? h)
    obtain ⟨hanswer, hcommitted⟩ := ih hr
    exact ⟨fun r hreply => hkept ▸ hanswer r hreply, fun hreply hc =>
      hcommitted hreply (hkept.trans hc)⟩

/-- The verdict the executor holds is one the driver gives: no error of it claims that nothing
was changed or carries a progress. -/
def Plain (v : Oneshot StepOutcome) : Prop :=
  ∀ e, v = .sent (.failed e) → e.progress? = none ∧ e.isPreflight = false

/-- A proposal was accepted: the executor awaits its installation, learns of it now, or learned of
it before. -/
def Touched (j : ReconfigureJob) : Prop :=
  j.fut.Committed ∨ (∃ l d, j.fut = .proposing l d) ∧
    (j.verdict = .waiting ∨ j.verdict = .sent .installed)

/-- An executor that awaits no verdict has committed what was accepted. -/
theorem committed_of_not_proposing {P : Prop}
    (h : j.fut.Committed ∨ (∃ l d, j.fut = .proposing l d) ∧ P)
    (hne : ∀ l d, j.fut ≠ .proposing l d) : j.fut.Committed :=
  h.resolve_right fun ⟨⟨l, d, hp⟩, _⟩ => hne l d hp

theorem begin_answer (hr : j.reply = none) (h : j.begin.reply = some r) :
    Answer j.target j.snapshot.live False r := by
  unfold begin at h
  dsimp only at h
  split at h
  · cases h
    exact .preflight id rfl
  · exact ((runLoop_answer _ _ _ hr).1 r h).mono False.elim

theorem stepInstalled_answer {step : SingleVoterDelta} (hr : j.reply = none) :
    (∀ r, (j.stepInstalled l step).reply = some r → Answer j.target j.snapshot.live True r) ∧
    ((j.stepInstalled l step).reply = none → (j.stepInstalled l step).fut.Committed) := by
  have hloop := runLoop_answer j.tick.toNat (j.noteShrinkStall none)
    { l with
      committedAny := true
      lastStall := none
      membersSeen := if step.isAddLearner || step.isPromoteLearner then
        insert step.member l.membersSeen else l.membersSeen } hr
  exact ⟨fun r h => (hloop.1 r h).mono fun _ => rfl, fun h => hloop.2 h rfl⟩

/-- An answer out of a poll fits what was accepted. -/
theorem poll_answer (hr : j.reply = none) (hv : Plain j.verdict) (ht : accepted → j.Touched)
    (h : j.poll.reply = some r) : Answer j.target j.snapshot.live accepted r := by
  unfold poll at h
  split at h
  · rename_i hfut
    refine (begin_answer hr h).mono fun ha => ?_
    have hc := committed_of_not_proposing (ht ha) (by simp [hfut])
    rw [hfut] at hc
    exact hc
  · split at h
    · rw [hr] at h
      cases h
    · exact ((stepInstalled_answer hr).1 r h).mono fun _ => trivial
    · unfold retryStep at h
      split at h
      · exact absurd (hr.symm.trans h) (by simp)
      · exact absurd (hr.symm.trans h) (by simp)
    · rename_i e he
      cases h
      obtain ⟨hprogress, hlate⟩ := hv e he
      exact .plain hprogress hlate
    · cases h
      exact .plain rfl rfl
  · unfold retryStep at h
    split at h
    · exact absurd (hr.symm.trans h) (by simp)
    · exact absurd (hr.symm.trans h) (by simp)
  · rename_i l hfut
    split at h
    · refine ((runLoop_answer 0 { j with tick := false } l hr).1 r h).mono fun ha => ?_
      have hc := committed_of_not_proposing (ht ha) (by simp [hfut])
      rw [hfut] at hc
      exact hc
    · rw [hr] at h
      cases h
  · rw [hr] at h
    cases h

/-- A poll that answers nothing keeps what was committed, and takes note of an installation. -/
theorem poll_committed (hr : j.reply = none) (h : j.poll.reply = none)
    (hc : j.fut.Committed ∨ (∃ l d, j.fut = .proposing l d) ∧ j.verdict = .sent .installed) :
    j.poll.fut.Committed := by
  have hcommitted : j.verdict ≠ .sent .installed → j.fut.Committed :=
    fun hv => hc.resolve_right fun hp => hv hp.2
  unfold poll at h ⊢
  split at h
  · rename_i hfut
    have hl := committed_of_not_proposing hc (by simp [hfut])
    rw [hfut] at hl
    exact hl.elim
  · rename_i l step hfut
    split at h
    · rename_i hv
      exact hcommitted (by simp [hv])
    · exact (stepInstalled_answer hr).2 h
    · rename_i hv
      have hl := hcommitted (by simp [hv])
      rw [hfut] at hl
      unfold retryStep
      split <;> exact hl
    · cases h
    · cases h
  · rename_i l step hfut
    have hl := committed_of_not_proposing hc (by simp [hfut])
    rw [hfut] at hl
    unfold retryStep
    split <;> exact hl
  · rename_i l hfut
    have hl := committed_of_not_proposing hc (by simp [hfut])
    rw [hfut] at hl
    split at h
    · rename_i htick
      rw [if_pos htick]
      exact (runLoop_answer 0 { j with tick := false } l hr).2 h hl
    · rename_i htick
      rw [if_neg htick, hfut]
      exact hl
  · rename_i hfut
    have hl := committed_of_not_proposing hc (by simp [hfut])
    rw [hfut] at hl
    exact hl.elim

/-- The parts of a job that its executor writes; the others stay. -/
def Frames (j r : ReconfigureJob) : Prop :=
  ∃ fut shrinkStall proposal verdict tick reply,
    r = { j with fut, snapshot := { j.snapshot with shrinkStall }, proposal, verdict, tick, reply }

theorem runLoop_frames (ticks : Nat) (j : ReconfigureJob) (l : Locals) :
    Frames j (runLoop ticks j l) := by
  fun_induction runLoop ticks j l with
  | case1 ticks j l result h => exact ⟨_, _, _, _, _, _, rfl⟩
  | case2 ticks j l l' step h => exact ⟨_, _, _, _, _, _, rfl⟩
  | case3 j l l' unproven h l1 j1 => exact ⟨_, _, _, _, _, _, rfl⟩
  | case4 j l l' unproven h l1 j1 ticks ih =>
    obtain ⟨fut, stall, proposal, verdict, tick, reply, heq⟩ := ih
    exact ⟨fut, stall, proposal, verdict, tick, reply, heq⟩
  | case5 j l l' h => exact ⟨_, _, _, _, _, _, rfl⟩
  | case6 j l l' h ticks ih =>
    obtain ⟨fut, stall, proposal, verdict, tick, reply, heq⟩ := ih
    exact ⟨fut, stall, proposal, verdict, tick, reply, heq⟩

theorem retryStep_frames (j : ReconfigureJob) (l : Locals) (step : SingleVoterDelta) :
    Frames j (j.retryStep l step) := by
  unfold retryStep
  split <;> exact ⟨_, _, _, _, _, _, rfl⟩

theorem poll_frames (j : ReconfigureJob) : Frames j j.poll := by
  have looped : ∀ {r : ReconfigureJob} (ticks : Nat) (l : Locals), Frames j r →
      Frames j (runLoop ticks r l) := by
    rintro _ ticks l ⟨fut, stall, proposal, verdict, tick, reply, rfl⟩
    obtain ⟨fut', stall', proposal', verdict', tick', reply', heq⟩ := runLoop_frames ticks _ l
    exact ⟨fut', stall', proposal', verdict', tick', reply', heq⟩
  unfold poll
  split
  · unfold begin
    dsimp only
    split
    · exact ⟨_, _, _, _, _, _, rfl⟩
    · exact runLoop_frames _ _ _
  · split
    · exact ⟨_, _, _, _, _, _, rfl⟩
    · exact looped _ _ ⟨_, _, _, _, _, _, rfl⟩
    · exact retryStep_frames _ _ _
    · exact ⟨_, _, _, _, _, _, rfl⟩
    · exact ⟨_, _, _, _, _, _, rfl⟩
  · exact retryStep_frames _ _ _
  · split
    · exact looped _ _ ⟨_, _, _, _, _, _, rfl⟩
    · exact ⟨_, _, _, _, _, _, rfl⟩
  · exact ⟨_, _, _, _, _, _, rfl⟩

/-- A poll leaves the verdict it read, or posts a step and awaits a new one. -/
theorem poll_verdict (j : ReconfigureJob) :
    j.poll.verdict = j.verdict ∨ j.poll.verdict = .waiting := by
  have looped : ∀ (ticks : Nat) (r : ReconfigureJob) (l : Locals),
      (runLoop ticks r l).verdict = r.verdict ∨ (runLoop ticks r l).verdict = .waiting := by
    intro ticks r l
    fun_induction runLoop ticks r l with
    | case1 => exact .inl rfl
    | case2 => exact .inr rfl
    | case3 => exact .inl rfl
    | case4 j l l' unproven h l1 j1 ticks ih => exact ih
    | case5 => exact .inl rfl
    | case6 j l l' h ticks ih => exact ih
  have retried : ∀ (l : Locals) (step : SingleVoterDelta),
      (j.retryStep l step).verdict = j.verdict ∨ (j.retryStep l step).verdict = .waiting := by
    intro l step
    unfold retryStep
    split
    · exact .inr rfl
    · exact .inl rfl
  unfold poll
  split
  · unfold begin
    dsimp only
    split
    · exact .inl rfl
    · exact looped _ _ _
  · split
    · exact .inl rfl
    · exact looped _ (j.noteShrinkStall none) _
    · exact retried _ _
    · exact .inl rfl
    · exact .inl rfl
  · exact retried _ _
  · split
    · exact looped 0 { j with tick := false } _
    · exact .inl rfl
  · exact .inl rfl

/-! ## Between advances -/

/-- A job between advances, after `accepted` says whether a proposal of it was accepted. -/
structure Kept (target : MembershipTarget) (accepted : Prop) (j : ReconfigureJob) : Prop where
  goal : j.target = target
  silent : j.reply = none
  drained : j.proposal = none
  plain : Plain j.verdict
  touched : accepted → j.Touched

theorem start_kept (target : MembershipTarget) (health : HealthHint) (timeout : Nat)
    (live : Membership) (fresh : Finset MemberId) (localMember : MemberId) (ack : Bool) :
    Kept target False (start target health timeout live fresh localMember ack) where
  goal := rfl
  silent := rfl
  drained := rfl
  plain e h := by cases h
  touched h := h.elim

/-- The advance's snapshot and an installation it shows change neither the goal nor the future. -/
theorem Kept.prepared (h : Kept target accepted j) (a : Advance) :
    Kept target accepted (j.prepared a) where
  goal := (prepared_sameGoal j a).1.trans h.goal
  silent := by
    unfold ReconfigureJob.prepared detectInstall
    split <;> exact h.silent
  drained := (prepared_proposal j a).trans h.drained
  plain := by
    unfold ReconfigureJob.prepared detectInstall
    split
    · intro e he
      dsimp only [refresh] at he
      split at he
      · cases he
      · exact h.plain e he
    · exact h.plain
  touched ha := by
    unfold ReconfigureJob.prepared detectInstall
    split
    · rcases h.touched ha with hc | ⟨hp, hv⟩
      · exact .inl hc
      · refine .inr ⟨hp, ?_⟩
        dsimp only [refresh]
        split
        · exact .inr rfl
        · exact hv
    · exact h.touched ha

/-- The answer at the deadline is the plan's own. -/
theorem capOutcome_answer (j : ReconfigureJob) (live : Membership) :
    Answer j.target live accepted (j.capOutcome live) := by
  unfold capOutcome
  split
  · rename_i hplan
    exact .reached hplan
  · rename_i remaining hne hplan
    have hresume := ReconfigureProgress.resumable_stall hplan fun hnil => hne (hnil ▸ rfl)
    split <;> exact .resumable rfl rfl hresume rfl
  · rename_i e hplan
    exact .resumable rfl rfl (.inr ⟨e, rfl, rfl⟩) rfl

theorem finishOnRetire_answer (j : ReconfigureJob) (live : Membership) (localMember : MemberId)
    (epoch : Epoch) :
    Answer j.target live accepted (j.finishOnRetire live localMember epoch) := by
  unfold finishOnRetire
  split
  · rename_i hplan
    exact .reached hplan
  · exact .plain rfl rfl

/-- The driver's verdicts are plain ones. -/
theorem takeProposal_plain (hv : Plain j.verdict) : Plain (j.takeProposal a).1.verdict := by
  unfold takeProposal
  split
  · exact hv
  · dsimp only
    split
    · exact hv
    · intro e he
      dsimp only at he
      split at he
      · cases he
      · split at he
        · cases he
          exact ⟨rfl, rfl⟩
        · cases he
          exact ⟨rfl, rfl⟩

/-- A job that was polled and has not answered: a step in the slot awaits its verdict, and what was
accepted is committed unless the executor still awaits its installation. -/
structure Polled (target : MembershipTarget) (accepted : Prop) (j : ReconfigureJob) : Prop where
  goal : j.target = target
  silent : j.reply = none
  plain : Plain j.verdict
  posted : ∀ d, j.proposal = some d → (∃ l, j.fut = .proposing l d) ∧ j.verdict = .waiting
  touched : accepted → j.fut.Committed ∨
    j.proposal = none ∧ (∃ l d, j.fut = .proposing l d) ∧ j.verdict = .waiting

theorem Kept.poll (h : Kept target accepted j) (hsilent : j.poll.reply = none) :
    Polled target accepted j.poll where
  goal := by
    obtain ⟨fut, stall, proposal, verdict, tick, reply, hframe⟩ := poll_frames j
    rw [hframe]
    exact h.goal
  silent := hsilent
  plain := by
    rcases poll_verdict j with hv | hv
    · rw [hv]
      exact h.plain
    · intro e he
      rw [hv] at he
      cases he
  posted d hd := by
    cases (poll_posted j).1 with
    | nothing hp hr =>
      rw [hp, h.drained] at hd
      cases hd
    | step l d' hf hp hv hj =>
      rw [hp] at hd
      cases hd
      exact ⟨⟨l, hf⟩, hv⟩
  touched ha := by
    rcases h.touched ha with hc | ⟨⟨l, d, hp⟩, hv | hv⟩
    · exact .inl (poll_committed h.silent hsilent (.inl hc))
    · have hidle : j.poll = j := by
        unfold ReconfigureJob.poll
        simp only [hp, hv]
      rw [hidle]
      exact .inr ⟨h.drained, ⟨l, d, hp⟩, hv⟩
    · exact .inl (poll_committed h.silent hsilent (.inr ⟨⟨l, d, hp⟩, hv⟩))

/-- The driver takes the posted step: it is refused with a verdict, or it is accepted and the
executor goes on waiting. -/
theorem Polled.takeProposal (h : Polled target accepted j) (a : Advance) :
    Kept target (accepted ∨ ∃ c op, (j.takeProposal a).2 = some c ∧ a.propose c = .ok op)
      { (j.takeProposal a).1 with tick := true } := by
  have hplain : Plain (j.takeProposal a).1.verdict := takeProposal_plain h.plain
  unfold ReconfigureJob.takeProposal at hplain ⊢
  cases hposted : j.proposal with
  | none =>
    refine ⟨h.goal, h.silent, hposted, h.plain, ?_⟩
    rintro (ha | ⟨c, op, hc, -⟩)
    · rcases h.touched ha with hc | ⟨-, hp, hv⟩
      · exact .inl hc
      · exact .inr ⟨hp, .inl hv⟩
    · cases hc
  | some d =>
    obtain ⟨⟨l, hf⟩, hv⟩ := h.posted d hposted
    rw [hposted] at hplain
    dsimp only at hplain ⊢
    cases hverdict : a.propose ⟨d, j.stepAck a.live d⟩ with
    | ok op => exact ⟨h.goal, h.silent, rfl, h.plain, fun _ => .inr ⟨⟨l, d, hf⟩, .inl hv⟩⟩
    | error e =>
      rw [hverdict] at hplain
      refine ⟨h.goal, h.silent, rfl, hplain, ?_⟩
      rintro (ha | ⟨c, op, hc, hok⟩)
      · rcases h.touched ha with hc | ⟨hnone, -⟩
        · exact .inl hc
        · rw [hposted] at hnone
          cases hnone
      · cases hc
        rw [hverdict] at hok
        cases hok

/-- What an advance makes of a job between advances: an answer that fits, or a job between
advances again that knows of the proposal just accepted. -/
theorem Kept.advance (h : Kept target accepted j) (a : Advance) :
    (∀ r, (j.advance a).1.reply = some r →
      Answer target a.live accepted r ∧ (j.advance a).2 = none) ∧
    ((j.advance a).1.reply = none →
      Kept target (accepted ∨ ∃ c op, (j.advance a).2 = some c ∧ a.propose c = .ok op)
        (j.advance a).1) := by
  have hprep := h.prepared a
  rw [advance_eq]
  dsimp only
  split_ifs with hcap hdone
  · refine ⟨fun r hreply => ?_, fun hreply => ?_⟩
    · cases hreply
      exact ⟨h.goal ▸ capOutcome_answer j a.live, rfl⟩
    · cases hreply
  · refine ⟨fun r hreply => ⟨?_, rfl⟩, fun hreply => ?_⟩
    · have hanswer := poll_answer hprep.silent hprep.plain hprep.touched hreply
      rwa [hprep.goal] at hanswer
    · rw [hreply] at hdone
      cases hdone
  · have hkept := (hprep.poll (Option.not_isSome_iff_eq_none.mp hdone)).takeProposal a
    refine ⟨fun r hreply => ?_, fun _ => hkept⟩
    rw [hkept.silent] at hreply
    cases hreply

/-! ## Every run of events -/

/-- A job that stays in the slot was advanced and has not answered. -/
theorem turned_slot {j' : ReconfigureJob} {e : Event} (h : (turned (some j) e).slot = some j') :
    ∃ a, e = .advance a ∧ j' = (j.advance a).1 ∧ (j.advance a).1.reply = none ∧
      (turned (some j) e).call = (j.advance a).2 := by
  cases e with
  | retire live localMember epoch => cases h
  | advance a =>
    cases hreply : (j.advance a).1.reply with
    | some r =>
      simp only [turned, hreply] at h
      cases h
    | none =>
      simp only [turned, hreply] at h ⊢
      cases h
      exact ⟨a, rfl, rfl, hreply, rfl⟩

theorem slotAt_kept (h0 : Kept target False j0) (es : Nat → Event) :
    ∀ {k : Nat} {j : ReconfigureJob}, j0.slotAt es k = some j →
      Kept target (∃ i < k, j0.AcceptedAt es i) j
  | 0, j, hj => by
    cases hj
    exact { h0 with touched := fun ⟨i, hi, _⟩ => absurd hi (Nat.not_lt_zero i) }
  | k + 1, j, hj => by
    rw [slotAt] at hj
    cases hslot : j0.slotAt es k with
    | none =>
      rw [hslot] at hj
      cases hj
    | some j' =>
      rw [hslot] at hj
      obtain ⟨a, he, rfl, hreply, hcall⟩ := turned_slot hj
      have hkept := ((slotAt_kept h0 es hslot).advance a).2 hreply
      refine { hkept with touched := fun ⟨i, hi, haccepted⟩ => hkept.touched ?_ }
      rcases Nat.lt_succ_iff_lt_or_eq.mp hi with hi | rfl
      · exact .inl ⟨i, hi, haccepted⟩
      · obtain ⟨a', c, op, he', hc, hok⟩ := haccepted
        rw [he] at he'
        cases he'
        rw [callAt, hslot, hcall] at hc
        exact .inr ⟨c, op, hc, hok⟩

/-- Whatever is answered fits what was accepted in the whole run. -/
theorem replyAt_answer (h0 : Kept target False j0) {k : Nat} (h : j0.replyAt es k = some r) :
    Answer target (es k).live (∃ i, j0.AcceptedAt es i) r := by
  -- nothing is proposed by the event that answers, nor after it
  have hbefore : (turned (j0.slotAt es k) (es k)).call = none →
      (∃ i, j0.AcceptedAt es i) → ∃ i < k, j0.AcceptedAt es i := by
    rintro hcall ⟨i, haccepted⟩
    refine ⟨i, ?_, haccepted⟩
    obtain ⟨a, c, op, -, hc, -⟩ := haccepted
    by_contra hle
    rcases (Nat.not_lt.mp hle).eq_or_lt with rfl | hlt
    · rw [callAt, hcall] at hc
      cases hc
    · rw [callAt, slotAt_of_reply (by rw [h]; simp) hlt] at hc
      cases hc
  rw [replyAt] at h
  cases hslot : j0.slotAt es k with
  | none =>
    rw [hslot] at h
    cases h
  | some j =>
    rw [hslot] at h hbefore
    have hkept := slotAt_kept h0 es hslot
    cases he : es k with
    | retire live localMember epoch =>
      rw [he] at h hbefore
      cases h
      exact (hkept.goal ▸ finishOnRetire_answer j live localMember epoch).mono (hbefore rfl)
    | advance a =>
      rw [he] at h hbefore
      cases hreply : (j.advance a).1.reply with
      | none =>
        simp only [turned, hreply] at h
        cases h
      | some r' =>
        simp only [turned, hreply] at h hbefore
        cases h
        obtain ⟨hanswer, hcall⟩ := (hkept.advance a).1 r hreply
        exact hanswer.mono (hbefore hcall)

/-! ## The deadline -/

theorem prepared_deadline (j : ReconfigureJob) (a : Advance) :
    (j.prepared a).deadline = some (j.deadline.getD (a.now + j.reconfigureTimeout)) := by
  unfold prepared detectInstall
  split <;> rfl

theorem takeProposal_deadline (j : ReconfigureJob) (a : Advance) :
    (j.takeProposal a).1.deadline = j.deadline := by
  unfold takeProposal
  split
  · rfl
  · dsimp only
    split <;> rfl

/-- The first advance arms the deadline, and every advance keeps it. -/
theorem advance_deadline (j : ReconfigureJob) (a : Advance) :
    (j.advance a).1.deadline = some (j.deadline.getD (a.now + j.reconfigureTimeout)) := by
  have hpoll : (j.prepared a).poll.deadline
      = some (j.deadline.getD (a.now + j.reconfigureTimeout)) := by
    obtain ⟨fut, stall, proposal, verdict, tick, reply, hframe⟩ := poll_frames (j.prepared a)
    rw [hframe]
    exact prepared_deadline j a
  rw [advance_eq]
  dsimp only
  split_ifs
  · rfl
  · exact hpoll
  · exact (takeProposal_deadline _ a).trans hpoll

/-- Until something is answered the job stays in the slot. -/
theorem slotAt_isSome :
    ∀ {k : Nat}, (∀ i < k, j0.replyAt es i = none) → ∃ j, j0.slotAt es k = some j
  | 0, _ => ⟨j0, rfl⟩
  | k + 1, h => by
    obtain ⟨j, hj⟩ := slotAt_isSome (k := k) fun i hi => h i (Nat.lt_succ_of_lt hi)
    have hreply := h k (Nat.lt_succ_self k)
    rw [replyAt, hj] at hreply
    rw [slotAt, hj]
    cases he : es k with
    | retire live localMember epoch =>
      rw [he] at hreply
      cases hreply
    | advance a =>
      rw [he] at hreply
      cases hr : (j.advance a).1.reply with
      | some r =>
        simp only [turned, hr] at hreply
        cases hreply
      | none =>
        simp only [turned, hr]
        exact ⟨_, rfl⟩

/-- From the first advance on the deadline is the one it armed. -/
theorem slotAt_deadline {a0 : Advance}
    (hunarmed : j0.deadline = none) (hfirst : es 0 = .advance a0) :
    ∀ {k : Nat} {j : ReconfigureJob}, j0.slotAt es (k + 1) = some j →
      j.deadline = some (a0.now + j0.reconfigureTimeout)
  | 0, j, hj => by
    obtain ⟨a, he, rfl, -, -⟩ := turned_slot (j := j0) (e := es 0) hj
    rw [hfirst] at he
    cases he
    rw [advance_deadline, hunarmed]
    rfl
  | k + 1, j, hj => by
    rw [slotAt] at hj
    cases hslot : j0.slotAt es (k + 1) with
    | none =>
      rw [hslot] at hj
      cases hj
    | some j' =>
      rw [hslot] at hj
      obtain ⟨a, -, rfl, -, -⟩ := turned_slot hj
      rw [advance_deadline, slotAt_deadline hunarmed hfirst hslot]
      rfl

/-- An advance at the deadline answers. -/
theorem advance_reply_of_deadline (h : j.deadline.getD (a.now + j.reconfigureTimeout) ≤ a.now) :
    (j.advance a).1.reply = some (j.capOutcome a.live) := by
  rw [advance_eq]
  dsimp only
  rw [if_pos h]

/-- The caller is answered once the local endpoint retires or the clock of an advance reaches the
deadline. -/
theorem exists_replyAt {k : Nat}
    (hunarmed : j0.deadline = none)
    (h : (∃ live localMember epoch, es k = .retire live localMember epoch) ∨
      ∃ a0 a, es 0 = .advance a0 ∧ es k = .advance a ∧
        a0.now + j0.reconfigureTimeout ≤ a.now) :
    ∃ n, j0.replyAt es n ≠ none := by
  by_contra hnone
  push Not at hnone
  obtain ⟨j, hj⟩ := slotAt_isSome (k := k) fun i _ => hnone i
  have hreply := hnone k
  rw [replyAt, hj] at hreply
  rcases h with ⟨live, localMember, epoch, he⟩ | ⟨a0, a, hfirst, he, hlate⟩
  · rw [he] at hreply
    cases hreply
  · have hdue : j.deadline.getD (a.now + j.reconfigureTimeout) ≤ a.now := by
      cases k with
      | zero =>
        cases hj
        rw [hfirst] at he
        cases he
        rw [hunarmed]
        exact hlate
      | succ k =>
        rw [slotAt_deadline hunarmed hfirst hj]
        exact hlate
    rw [he] at hreply
    simp only [turned, advance_reply_of_deadline hdue] at hreply
    cases hreply

end ReconfigureJob

end Viewstamp
