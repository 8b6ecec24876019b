import Mathlib.Data.Finset.Prod
import Mathlib.Data.Prod.Lex
import Viewstamp.Reconfigure.Plan
import Viewstamp.Driver.Handle
import Viewstamp.Normal

/- The reconfiguration job of a driver: a suspended executor that plans one step
   at a time from the latest snapshot, posts it for the driver to propose, and
   waits for its installation.

   The source's executor is an `async fn` that the driver polls once per
   `advance`. Its suspension points are the constructors of `Fut`; the shared
   cells (snapshot, proposal slot, tick, the step's reply channel) are fields of
   the job. -/
namespace Viewstamp

open List

/-- The operator's evidence of members that are down; it never counts in favour of one. -/
structure HealthHint where
  knownDown : Finset MemberId := ∅
  deriving DecidableEq

/-- How far a reconfiguration came: the live membership, and what remains or why no plan does. -/
structure ReconfigureProgress where
  live : Membership
  remaining : Option (List SingleVoterDelta)
  reason : Option PlanError
  deriving DecidableEq

namespace ReconfigureProgress

def stall (live : Membership) (remaining : List SingleVoterDelta) : ReconfigureProgress :=
  ⟨live, some remaining, none⟩

def failed (live : Membership) (reason : PlanError) : ReconfigureProgress :=
  ⟨live, none, some reason⟩

end ReconfigureProgress

inductive ReconfigureError where
  | invalidTarget (e : PlanError)
  | planConflict (progress : ReconfigureProgress)
  | timeout (progress : ReconfigureProgress)
  | insufficientLiveness (progress : ReconfigureProgress) (unproven : Finset MemberId)
  | reducedFaultToleranceUnacknowledged (fromVoters toVoters : Nat)
  | demotedSelf (progress : ReconfigureProgress)
  | notPrimary
  | driverGone
  | retired (localMember : MemberId) (epoch : Epoch)
  | propose (e : ProposeMembershipError)
  deriving DecidableEq

/-- Crash faults that `n` voters tolerate. -/
def fOf (n : Nat) : Nat := (n - 1) / 2

/-! ## Which voter to demote -/

/-- A voter that answered this round's probe and is not known to be down. -/
def HealthHint.isAlive (health : HealthHint) (fresh : Finset MemberId) (m : MemberId) : Bool :=
  m ∉ health.knownDown && m ∈ fresh

/-- The voters left when `x` is demoted. -/
def Membership.successorVoters (live : Membership) (x : MemberId) : Finset MemberId :=
  live.voterSet.erase x

/-- They are the voters of the configuration the demotion leads to. -/
theorem Membership.voterSet_of_demoteVoter {live s : Membership} {x : MemberId}
    (h : live.applyDelta (.demoteVoter x) = .ok s) : s.voterSet = live.successorVoters x := by
  unfold applyDelta at h
  dsimp only at h
  split at h
  · cases h
  · rename_i slot hslot
    split at h
    · cases h
    · rename_i hv
      split at h
      · cases h
      · obtain ⟨hcount, hmembers⟩ := reconfigure_ok h
        have hmem := mem_voters_of_slotOf hslot (by simpa using hv)
        have hnodup := live.valid.nodup.sublist (take_sublist live.replicaCount live.members)
        have hlen : ((live.members.take live.replicaCount).filter (· ≠ x)).length
            = live.replicaCount - 1 := by
          have herase := length_erase_of_mem hmem
          rw [hnodup.erase_eq_filter x, live.length_voters] at herase
          rw [← herase]
          congr 2
          funext m
          simp [bne, BEq.beq]
        rw [voterSet, successorVoters, voterSet, hcount, hmembers, append_assoc, take_left' hlen]
        ext m
        simp [and_comm]

/-- A majority of the voters left without `x` is alive. -/
def HealthHint.keepsQuorum (health : HealthHint) (live : Membership) (fresh : Finset MemberId)
    (x : MemberId) : Bool :=
  (live.successorVoters x).card / 2 + 1
    ≤ ((live.successorVoters x).filter (health.isAlive fresh ·)).card

/-- The rank of a candidate: the local member last, the unresponsive first, then by id. -/
def HealthHint.rank (health : HealthHint) (fresh : Finset MemberId) (localMember : MemberId)
    (d : SingleVoterDelta) : Bool ×ₗ Bool ×ₗ MemberId :=
  toLex (d.member == localMember, toLex (health.isAlive fresh d.member, d.member))

/-- `pick_fresh_quorum_preserving_demotion`: the best candidate whose successor keeps a proven
quorum, or the unproven voters of the most preferred one. -/
def pickFreshQuorumPreservingDemotion (live : Membership) (candidates : List SingleVoterDelta)
    (health : HealthHint) (fresh : Finset MemberId) (localMember : MemberId) :
    Except (Finset MemberId) SingleVoterDelta :=
  let ordered := candidates.insertionSort fun a b =>
    health.rank fresh localMember a ≤ health.rank fresh localMember b
  match ordered.find? fun d => health.keepsQuorum live fresh d.member with
  | some d => .ok d
  | none =>
    match ordered with
    | [] => .error ∅
    | preferred :: _ =>
      .error ((live.successorVoters preferred.member).filter (!health.isAlive fresh ·))

/-! ## The executor -/

/-- What the executor's loop keeps from one turn to the next. -/
structure Locals where
  lastStall : Option (Finset MemberId) := none
  membersSeen : Finset MemberId
  committedAny : Bool := false
  deriving DecidableEq

/-- Where the executor is suspended. -/
inductive Fut where
  | unpolled
  /-- Awaiting the verdict on a posted step. -/
  | proposing (l : Locals) (step : SingleVoterDelta)
  /-- Backing off after a retryable verdict on the step. -/
  | retrying (l : Locals) (step : SingleVoterDelta)
  /-- Backing off in the loop. -/
  | backingOff (l : Locals)
  | finished
  deriving DecidableEq

inductive StepOutcome where
  | installed
  | retry
  | failed (e : ReconfigureError)
  deriving DecidableEq

structure Snapshot where
  live : Membership
  fresh : Finset MemberId
  capExhausted : Bool
  shrinkStall : Option (Finset MemberId)
  deriving DecidableEq

structure ReconfigureJob where
  target : MembershipTarget
  health : HealthHint
  localMember : MemberId
  ack : Bool
  reconfigureTimeout : Nat
  fut : Fut
  snapshot : Snapshot
  proposal : Option SingleVoterDelta
  /-- The reply channel of the step posted last. -/
  verdict : Oneshot StepOutcome
  tick : Bool
  pendingOp : Option OpNumber
  expectedConfigId : Option Checksum
  pendingStepReply : Bool
  deadline : Option Instant
  /-- What the caller was answered. -/
  reply : Option (Except ReconfigureError Unit)

/-- What one turn of the executor's loop ends in. -/
inductive JobTurn where
  | finish (result : Except ReconfigureError Unit)
  | post (l : Locals) (step : SingleVoterDelta)
  /-- No step is proven safe: note the unproven voters and back off. -/
  | stall (l : Locals) (unproven : Finset MemberId)
  | backoff (l : Locals)

namespace ReconfigureJob

variable {candidates : List SingleVoterDelta}

/-- An unusable plan: the target's fault before anything was committed, a conflict after. -/
def planFailure (l : Locals) (live : Membership) (e : PlanError) : ReconfigureError :=
  if l.committedAny then .planConflict (.failed live e) else .invalidTarget e

/-- The lane of the next planned step: a demotion is chosen among all candidates by their
health, a removal needs a proven quorum of the live voters, the rest follows the plan. -/
def lane (j : ReconfigureJob) (l : Locals) (step : SingleVoterDelta) : JobTurn :=
  let live := j.snapshot.live
  let fresh := j.snapshot.fresh
  if step.isDemoteVoter then
    match shrinkCandidates live j.target with
    | .error e => .finish (.error (planFailure l live e))
    | .ok [] => .backoff l
    | .ok (d :: ds) =>
      match pickFreshQuorumPreservingDemotion live (d :: ds) j.health fresh j.localMember with
      | .ok demote => .post l demote
      | .error unproven => .stall l unproven
  else if step.isRemoveLearner then
    if live.quorum ≤ (live.voterSet ∩ fresh).card then .post l step
    else .stall l (live.voterSet \ fresh)
  else .post l step

/-- One turn of `run_reconfigure`'s loop, up to its await. -/
def turn (j : ReconfigureJob) (l : Locals) : JobTurn :=
  let live := j.snapshot.live
  let present := live.members.toFinset
  let l := { l with membersSeen := l.membersSeen ∪ present ∩ j.target.members }
  let phantom := (l.membersSeen ∩ j.target.members) \ present
  if phantom ≠ ∅ then .finish (.error (planFailure l live (.memberConcurrentlyRemoved phantom)))
  else
    match planReconfiguration live j.target with
    | .error e => .finish (.error (planFailure l live e))
    | .ok [] => .finish (.ok ())
    | .ok (step :: rest) =>
      -- a node that demoted itself cannot drive its own removal
      if l.committedAny && step = .removeLearner j.localMember then
        .finish (.error (.demotedSelf (.stall live (step :: rest))))
      else if j.snapshot.capExhausted then
        let progress := ReconfigureProgress.stall live (step :: rest)
        match l.lastStall with
        | some unproven => .finish (.error (.insufficientLiveness progress unproven))
        | none => .finish (.error (.timeout progress))
      else j.lane l step

def finish (j : ReconfigureJob) (result : Except ReconfigureError Unit) : ReconfigureJob :=
  { j with fut := .finished, reply := some result }

/-- Post a step and await its verdict. -/
def post (j : ReconfigureJob) (l : Locals) (step : SingleVoterDelta) : ReconfigureJob :=
  { j with fut := .proposing l step, proposal := some step, verdict := .waiting }

def noteShrinkStall (j : ReconfigureJob) (unproven : Option (Finset MemberId)) : ReconfigureJob :=
  { j with snapshot := { j.snapshot with shrinkStall := unproven } }

/-- The executor's loop: it ends, or suspends at a posted step, or suspends in a backoff that no
tick is ready for. -/
def runLoop : (ticks : Nat) → ReconfigureJob → Locals → ReconfigureJob
  | ticks, j, l =>
    match j.turn l with
    | .finish result => j.finish result
    | .post l step => j.post l step
    | .stall l unproven =>
      let l := { l with lastStall := some unproven }
      let j := j.noteShrinkStall (some unproven)
      match ticks with
      | 0 => { j with fut := .backingOff l }
      | ticks + 1 => runLoop ticks { j with tick := false } l
    | .backoff l =>
      match ticks with
      | 0 => { j with fut := .backingOff l }
      | ticks + 1 => runLoop ticks { j with tick := false } l

/-- The executor's body before its loop: a goal that tolerates fewer crashes has to be
acknowledged. -/
def begin (j : ReconfigureJob) : ReconfigureJob :=
  let before := j.snapshot.live.replicaCount
  let after := j.target.voters.card
  if 1 ≤ after ∧ after ≤ 64 ∧ fOf after < fOf before ∧ !j.ack then
    j.finish (.error (.reducedFaultToleranceUnacknowledged before after))
  else
    runLoop j.tick.toNat j { membersSeen := j.snapshot.live.members.toFinset ∩ j.target.members }

/-- The step is installed: the executor notes the progress and takes its next turn. -/
def stepInstalled (j : ReconfigureJob) (l : Locals) (step : SingleVoterDelta) : ReconfigureJob :=
  let seen := if step.isAddLearner || step.isPromoteLearner then insert step.member l.membersSeen
    else l.membersSeen
  let l := { l with committedAny := true, lastStall := none, membersSeen := seen }
  runLoop j.tick.toNat (j.noteShrinkStall none) l

/-- The backoff after a retryable verdict: at the next tick the same step is posted again. -/
def retryStep (j : ReconfigureJob) (l : Locals) (step : SingleVoterDelta) : ReconfigureJob :=
  if j.tick then { j with tick := false }.post l step else { j with fut := .retrying l step }

def poll (j : ReconfigureJob) : ReconfigureJob :=
  match j.fut with
  | .unpolled => j.begin
  | .proposing l step =>
    match j.verdict with
    | .waiting => j
    | .sent .installed => j.stepInstalled l step
    | .sent .retry => j.retryStep l step
    | .sent (.failed e) => j.finish (.error e)
    | .canceled => j.finish (.error .driverGone)
  | .retrying l step => j.retryStep l step
  | .backingOff l => if j.tick then runLoop 0 { j with tick := false } l else j
  | .finished => j

/-! ## The driver's side -/

/-- A call of the driver's proposal closure. -/
structure Call where
  delta : SingleVoterDelta
  ack : Bool
  deriving DecidableEq

/-- What the driver passes to one `advance`: the clock, the live membership, the voters the
probe proved live, and the verdict its proposal closure would give. -/
structure Advance where
  now : Instant
  live : Membership
  fresh : Finset MemberId
  propose : Call → Except ProposeMembershipError OpNumber

def start (target : MembershipTarget) (health : HealthHint) (reconfigureTimeout : Nat)
    (initialLive : Membership) (initialFresh : Finset MemberId) (localMember : MemberId)
    (ack : Bool) : ReconfigureJob where
  target := target
  health := health
  localMember := localMember
  ack := ack
  reconfigureTimeout := reconfigureTimeout
  fut := .unpolled
  snapshot := ⟨initialLive, initialFresh, false, none⟩
  proposal := none
  verdict := .waiting
  tick := false
  pendingOp := none
  expectedConfigId := none
  pendingStepReply := false
  deadline := none
  reply := none

/-- The deadline passed: answer with what the latest plan says. -/
def capOutcome (j : ReconfigureJob) (live : Membership) : Except ReconfigureError Unit :=
  match planReconfiguration live j.target with
  | .ok [] => .ok ()
  | .ok remaining =>
    match j.snapshot.shrinkStall with
    | some unproven => .error (.insufficientLiveness (.stall live remaining) unproven)
    | none => .error (.timeout (.stall live remaining))
  | .error e => .error (.timeout (.failed live e))

/-- The outstanding step is installed once its successor's id is live. -/
def detectInstall (j : ReconfigureJob) (live : Membership) : ReconfigureJob :=
  if j.expectedConfigId = some live.configId then
    { j with
      expectedConfigId := none
      pendingOp := none
      verdict := if j.pendingStepReply then .sent .installed else j.verdict
      pendingStepReply := false }
  else j

def refresh (j : ReconfigureJob) (live : Membership) (fresh : Finset MemberId)
    (capExhausted : Bool) : ReconfigureJob :=
  { j with snapshot := { j.snapshot with live, fresh, capExhausted } }

/-- The token travels with a demotion from an odd voter count only. -/
def stepAck (j : ReconfigureJob) (live : Membership) (delta : SingleVoterDelta) : Bool :=
  if delta.isDemoteVoter && live.replicaCount % 2 = 1 then j.ack else false

/-- A verdict after which the executor posts the same step again. -/
def retryable : ProposeMembershipError → Bool
  | .proofPending | .alreadyInFlight | .busy | .atCapacity | .notNormal => true
  | _ => false

/-- Take the posted step, if there is one, and propose it. -/
def takeProposal (j : ReconfigureJob) (a : Advance) : ReconfigureJob × Option Call :=
  match j.proposal with
  | none => (j, none)
  | some delta =>
    let call : Call := ⟨delta, j.stepAck a.live delta⟩
    let j := { j with proposal := none }
    match a.propose call with
    | .ok op =>
      let expected := match a.live.applyDelta delta with
        | .ok successor => some successor.configId
        | .error _ => none
      ({ j with pendingOp := some op, expectedConfigId := expected, pendingStepReply := true },
        some call)
    | .error e =>
      let outcome :=
        if retryable e then .retry
        else if e = .notPrimary then .failed .notPrimary
        else .failed (.propose e)
      ({ j with verdict := .sent outcome }, some call)

/-- `advance`: one iteration of the driver's loop, with the proposal it made. -/
def advance (j : ReconfigureJob) (a : Advance) : ReconfigureJob × Option Call :=
  let deadline := j.deadline.getD (a.now + j.reconfigureTimeout)
  let j := { j with deadline := some deadline }
  if deadline ≤ a.now then ({ j with reply := some (j.capOutcome a.live) }, none)
  else
    let j := ((j.detectInstall a.live).refresh a.live a.fresh false).poll
    if j.reply.isSome then (j, none)
    else
      let (j, call) := j.takeProposal a
      ({ j with tick := true }, call)

/-- The proposals of a sequence of advances, each with the advance that made it; the driver drops
the job once it is answered. -/
def proposals (j : ReconfigureJob) : List Advance → List (Advance × Option Call)
  | [] => []
  | a :: as =>
    let (j', call) := j.advance a
    (a, call) :: if j'.reply.isSome then [] else proposals j' as

/-! ## What justifies a proposal -/

/-- A delta that the plan from `live` leads with or may demote by now, and for which `fresh`,
without the members known to be down, holds the voters that have to survive it. -/
structure Justified (target : MembershipTarget) (health : HealthHint) (live : Membership)
    (fresh : Finset MemberId) (d : SingleVoterDelta) : Prop where
  planned : (∃ plan, planReconfiguration live target = .ok plan ∧ plan.head? = some d) ∨
    ∃ candidates, shrinkCandidates live target = .ok candidates ∧ d ∈ candidates
  demoted : ∀ x, d = .demoteVoter x →
    (live.successorVoters x).card / 2 + 1
      ≤ ((live.successorVoters x) ∩ (fresh \ health.knownDown)).card
  removed : ∀ x, d = .removeLearner x →
    live.quorum ≤ (live.voterSet ∩ (fresh \ health.knownDown)).card

/-- What the executor makes sure of: the removal of a learner may count on a member known to be
down. -/
structure Backed (target : MembershipTarget) (health : HealthHint) (live : Membership)
    (fresh : Finset MemberId) (d : SingleVoterDelta) : Prop where
  planned : (∃ plan, planReconfiguration live target = .ok plan ∧ plan.head? = some d) ∨
    ∃ candidates, shrinkCandidates live target = .ok candidates ∧ d ∈ candidates
  demoted : ∀ x, d = .demoteVoter x →
    (live.successorVoters x).card / 2 + 1
      ≤ ((live.successorVoters x) ∩ (fresh \ health.knownDown)).card
  removed : ∀ x, d = .removeLearner x → live.quorum ≤ (live.voterSet ∩ fresh).card

variable {target : MembershipTarget} {health : HealthHint} {live : Membership}
  {fresh fresh' : Finset MemberId} {d : SingleVoterDelta}

/-- More voters proven alive back no less. -/
theorem Backed.mono (h : Backed target health live fresh d) (hf : fresh ⊆ fresh') :
    Backed target health live fresh' d where
  planned := h.planned
  demoted x hx := (h.demoted x hx).trans (Finset.card_le_card (by gcongr))
  removed x hx := (h.removed x hx).trans (Finset.card_le_card (by gcongr))

theorem keepsQuorum_iff {x : MemberId} : health.keepsQuorum live fresh x = true ↔
    (live.successorVoters x).card / 2 + 1
      ≤ ((live.successorVoters x) ∩ (fresh \ health.knownDown)).card := by
  have hset : (live.successorVoters x).filter (health.isAlive fresh ·)
      = (live.successorVoters x) ∩ (fresh \ health.knownDown) := by
    ext m
    simp [HealthHint.isAlive, and_comm]
  simp [HealthHint.keepsQuorum, hset]

theorem pickFreshQuorumPreservingDemotion_ok {localMember : MemberId}
    (h : pickFreshQuorumPreservingDemotion live candidates health fresh localMember = .ok d) :
    d ∈ candidates ∧ health.keepsQuorum live fresh d.member = true := by
  unfold pickFreshQuorumPreservingDemotion at h
  dsimp only at h
  split at h
  · rename_i e he
    cases h
    refine ⟨?_, by simpa using find?_some he⟩
    exact (mem_insertionSort _).mp (mem_of_find?_eq_some he)
  · split at h <;> cases h

theorem isDemoteVoter_of_mem_shrinkCandidates (h : shrinkCandidates live target = .ok candidates)
    (hd : d ∈ candidates) : d.isDemoteVoter = true := by
  unfold shrinkCandidates at h
  split at h
  · cases h
  · dsimp only at h
    split at h
    · cases h; cases hd
    · split at h
      · cases h; cases hd
      · cases h
        exact (mem_filter.mp hd).2

theorem backed_of_shrinkCandidates (hc : shrinkCandidates live target = .ok candidates)
    (hd : d ∈ candidates) (hq : health.keepsQuorum live fresh d.member = true) :
    Backed target health live fresh d where
  planned := .inr ⟨candidates, hc, hd⟩
  demoted x hx := by
    subst hx
    exact keepsQuorum_iff.mp hq
  removed x hx := by
    subst hx
    have := isDemoteVoter_of_mem_shrinkCandidates hc hd
    simp [SingleVoterDelta.isDemoteVoter] at this

variable {j r : ReconfigureJob} {l l' : Locals}

theorem backed_of_lane {step : SingleVoterDelta} {rest : List SingleVoterDelta}
    (hp : planReconfiguration j.snapshot.live j.target = .ok (step :: rest))
    (h : j.lane l step = .post l' d) :
    Backed j.target j.health j.snapshot.live j.snapshot.fresh d := by
  have hplan : ∃ plan, planReconfiguration j.snapshot.live j.target = .ok plan ∧
      plan.head? = some step := ⟨_, hp, rfl⟩
  unfold lane at h
  dsimp only at h
  split at h
  · split at h
    · cases h
    · cases h
    · rename_i c cs hc
      split at h
      · rename_i demote hok
        cases h
        obtain ⟨hmem, hq⟩ := pickFreshQuorumPreservingDemotion_ok hok
        exact backed_of_shrinkCandidates hc hmem hq
      · cases h
  · rename_i hnd
    split at h
    · split at h
      · rename_i hquorum
        cases h
        refine ⟨.inl hplan, ?_, fun _ _ => hquorum⟩
        rintro x rfl
        simp [SingleVoterDelta.isDemoteVoter] at hnd
      · cases h
    · rename_i hnr
      cases h
      refine ⟨.inl hplan, ?_, ?_⟩
      · rintro x rfl
        simp [SingleVoterDelta.isDemoteVoter] at hnd
      · rintro x rfl
        simp [SingleVoterDelta.isRemoveLearner] at hnr

theorem backed_of_turn (h : j.turn l = .post l' d) :
    Backed j.target j.health j.snapshot.live j.snapshot.fresh d := by
  unfold turn at h
  dsimp only at h
  split at h
  · cases h
  · split at h
    · cases h
    · cases h
    · rename_i step rest hp
      split at h
      · cases h
      · split at h
        · split at h <;> cases h
        · exact backed_of_lane hp h

/-! ## One poll -/

/-- The executor will post `d` again: it holds a retryable verdict on it. -/
def Retrying (j : ReconfigureJob) (d : SingleVoterDelta) : Prop :=
  ∃ l, (j.fut = .proposing l d ∧ j.verdict = .sent .retry) ∨ j.fut = .retrying l d

/-- What a poll leaves: it posts nothing, and then owes a retry only for want of a tick, or it
posts a step that the snapshot backs or that it owed. -/
inductive Posted (j r : ReconfigureJob) : Prop where
  | nothing (hp : r.proposal = j.proposal) (hr : ∀ d, r.Retrying d → j.Retrying d ∧ j.tick = false)
  | step (l : Locals) (d : SingleVoterDelta) (hf : r.fut = .proposing l d)
      (hp : r.proposal = some d) (hv : r.verdict = .waiting)
      (hj : Backed j.target j.health j.snapshot.live j.snapshot.fresh d ∨ j.Retrying d)

/-- The goal of a job, which no step changes. -/
def SameGoal (j r : ReconfigureJob) : Prop :=
  r.target = j.target ∧ r.health = j.health

theorem SameGoal.refl (j : ReconfigureJob) : SameGoal j j := ⟨rfl, rfl⟩

theorem runLoop_sameGoal (ticks : Nat) (j : ReconfigureJob) (l : Locals) :
    SameGoal j (runLoop ticks j l) := by
  fun_induction runLoop ticks j l with
  | case1 | case2 | case3 | case5 => exact ⟨rfl, rfl⟩
  | case4 ticks j l l' unproven h l1 j1 ih => exact ih
  | case6 ticks j l l' h ih => exact ih

/-- The loop posts only what a turn of it plans; its own backoffs leave the snapshot as it is. -/
theorem runLoop_posted (ticks : Nat) (j : ReconfigureJob) (l : Locals) :
    (runLoop ticks j l).proposal = j.proposal ∧ (∀ d, ¬ (runLoop ticks j l).Retrying d) ∨
    ∃ l' d, (runLoop ticks j l).fut = .proposing l' d ∧ (runLoop ticks j l).proposal = some d ∧
      (runLoop ticks j l).verdict = .waiting ∧
      Backed j.target j.health j.snapshot.live j.snapshot.fresh d := by
  fun_induction runLoop ticks j l with
  | case1 ticks j l result h => exact .inl ⟨rfl, by simp [Retrying, finish]⟩
  | case2 ticks j l l' step h =>
    exact .inr ⟨l', step, rfl, rfl, rfl, backed_of_turn h⟩
  | case3 => exact .inl ⟨rfl, by simp [Retrying]⟩
  | case4 ticks j l l' unproven h l1 j1 ih => exact ih
  | case5 => exact .inl ⟨rfl, by simp [Retrying]⟩
  | case6 ticks j l l' h ih => exact ih

theorem posted_of_runLoop (ticks : Nat) (hj : SameGoal j r) (hs : r.snapshot.live = j.snapshot.live)
    (hf : r.snapshot.fresh = j.snapshot.fresh) (hp : r.proposal = j.proposal) :
    Posted j (runLoop ticks r l) := by
  rcases runLoop_posted ticks r l with ⟨hp', hr⟩ | ⟨l', d, hfut, hp', hv, hbacked⟩
  · exact .nothing (hp'.trans hp) (fun d hd => (hr d hd).elim)
  · rw [hj.1, hj.2, hs, hf] at hbacked
    exact .step l' d hfut hp' hv (.inl hbacked)

theorem begin_posted (j : ReconfigureJob) : Posted j j.begin ∧ SameGoal j j.begin := by
  unfold begin
  dsimp only
  split
  · exact ⟨.nothing rfl (by simp [Retrying, finish]), rfl, rfl⟩
  · exact ⟨posted_of_runLoop _ (.refl j) rfl rfl rfl, runLoop_sameGoal _ _ _⟩

theorem retryStep_posted {step : SingleVoterDelta} (h : j.Retrying step) :
    Posted j (j.retryStep l step) ∧ SameGoal j (j.retryStep l step) := by
  unfold retryStep
  split
  · exact ⟨.step l step rfl rfl rfl (.inr h), rfl, rfl⟩
  · rename_i htick
    refine ⟨.nothing rfl ?_, rfl, rfl⟩
    rintro d ⟨l', hl⟩
    simp only [reduceCtorEq, false_and, Fut.retrying.injEq, false_or] at hl
    exact ⟨hl.2 ▸ h, by simpa using htick⟩

/-- A poll posts a step that the snapshot backs, or posts one again that it owed. -/
theorem poll_posted (j : ReconfigureJob) : Posted j j.poll ∧ SameGoal j j.poll := by
  have stays : (∀ d, ¬ j.Retrying d) → Posted j j ∧ SameGoal j j := fun h =>
    ⟨.nothing rfl (fun d hd => (h d hd).elim), .refl j⟩
  have ends : ∀ result, Posted j (j.finish result) ∧ SameGoal j (j.finish result) := fun result =>
    ⟨.nothing rfl (by simp [Retrying, finish]), rfl, rfl⟩
  unfold poll
  split
  · exact begin_posted j
  · rename_i l step hfut
    split
    · rename_i hv
      exact stays (by simp [Retrying, hfut, hv])
    · exact ⟨posted_of_runLoop _ (.refl j) rfl rfl rfl, runLoop_sameGoal _ _ _⟩
    · rename_i hv
      exact retryStep_posted ⟨l, .inl ⟨hfut, hv⟩⟩
    · exact ends _
    · exact ends _
  · rename_i l step hfut
    exact retryStep_posted ⟨l, .inr hfut⟩
  · rename_i l hfut
    split
    · exact ⟨posted_of_runLoop _ (.refl j) rfl rfl rfl, runLoop_sameGoal _ _ _⟩
    · exact stays (by simp [Retrying, hfut])
  · rename_i hfut
    exact stays (by simp [Retrying, hfut])

/-! ## Runs of advances -/

/-- The verdict on the proposal of an advance is retryable. -/
def Refused (p : Advance × Option Call) (d : SingleVoterDelta) : Prop :=
  ∃ c e, p.2 = some c ∧ c.delta = d ∧ p.1.propose c = .error e ∧ retryable e = true

/-- Between advances: no step is left in the slot, and a step owed again was proposed by the
advance before, which backed it; the tick that has it posted again is set. -/
structure Resting (j : ReconfigureJob) (before : Option (Advance × Option Call)) : Prop where
  drained : j.proposal = none
  ticked : ∀ d, j.Retrying d → j.tick = true
  owed : ∀ d, j.Retrying d → ∃ p, before = some p ∧ Refused p d ∧
    Backed j.target j.health p.1.live p.1.fresh d

/-- A refused proposal is only tried again under the same live membership and with no voter gone
silent since. -/
def Unmoved (p q : Advance × Option Call) : Prop :=
  (∃ d, Refused p d) → q.1.live = p.1.live ∧ p.1.fresh ⊆ q.1.fresh

theorem start_resting (target : MembershipTarget) (health : HealthHint) (timeout : Nat)
    (live : Membership) (fresh : Finset MemberId) (localMember : MemberId) (ack : Bool) :
    Resting (start target health timeout live fresh localMember ack) none where
  drained := rfl
  ticked d h := by simp [Retrying, start] at h
  owed d h := by simp [Retrying, start] at h

/-- The job an advance polls: its snapshot is the one the advance brought. -/
def prepared (j : ReconfigureJob) (a : Advance) : ReconfigureJob :=
  ({ j with deadline := some (j.deadline.getD (a.now + j.reconfigureTimeout)) }.detectInstall
    a.live).refresh a.live a.fresh false

theorem prepared_sameGoal (j : ReconfigureJob) (a : Advance) : SameGoal j (j.prepared a) := by
  unfold prepared detectInstall
  split <;> exact ⟨rfl, rfl⟩

theorem prepared_proposal (j : ReconfigureJob) (a : Advance) :
    (j.prepared a).proposal = j.proposal := by
  unfold prepared detectInstall
  split <;> rfl

theorem prepared_tick (j : ReconfigureJob) (a : Advance) : (j.prepared a).tick = j.tick := by
  unfold prepared detectInstall
  split <;> rfl

variable {a : Advance}

/-- Detecting an installation answers the step, so it never leaves a retry owed. -/
theorem prepared_retrying (h : (j.prepared a).Retrying d) : j.Retrying d := by
  obtain ⟨l, h⟩ := h
  unfold prepared detectInstall at h
  split at h
  · rcases h with ⟨hf, hv⟩ | hf
    · refine ⟨l, .inl ⟨hf, ?_⟩⟩
      dsimp only [refresh] at hv
      split at hv
      · simp at hv
      · exact hv
    · exact ⟨l, .inr hf⟩
  · exact ⟨l, h⟩

theorem prepared_snapshot (j : ReconfigureJob) (a : Advance) :
    (j.prepared a).snapshot.live = a.live ∧ (j.prepared a).snapshot.fresh = a.fresh :=
  ⟨rfl, rfl⟩

theorem advance_eq (j : ReconfigureJob) (a : Advance) :
    let polled := (j.prepared a).poll
    j.advance a =
      if j.deadline.getD (a.now + j.reconfigureTimeout) ≤ a.now then
        ({ j with
          deadline := some (j.deadline.getD (a.now + j.reconfigureTimeout))
          reply := some (j.capOutcome a.live) }, none)
      else if polled.reply.isSome then (polled, none)
      else ({ (polled.takeProposal a).1 with tick := true }, (polled.takeProposal a).2) :=
  rfl

theorem takeProposal_of_empty (h : j.proposal = none) : j.takeProposal a = (j, none) := by
  simp [takeProposal, h]

/-- A posted step is proposed, with the token only on a demotion from an odd voter count; the
verdict is retryable exactly when the executor is left to post it again. -/
theorem takeProposal_of_posted (hf : j.fut = .proposing l d)
    (hp : j.proposal = some d) (hv : j.verdict = .waiting) :
    (j.takeProposal a).2 = some ⟨d, j.stepAck a.live d⟩ ∧
    SameGoal j (j.takeProposal a).1 ∧ (j.takeProposal a).1.proposal = none ∧
    ∀ d', (j.takeProposal a).1.Retrying d' → d' = d ∧ Refused (a, (j.takeProposal a).2) d := by
  unfold takeProposal
  simp only [hp]
  split
  · refine ⟨rfl, ⟨rfl, rfl⟩, rfl, ?_⟩
    rintro d' ⟨l', h⟩
    simp [hf, hv] at h
  · rename_i e he
    refine ⟨rfl, ⟨rfl, rfl⟩, rfl, ?_⟩
    rintro d' ⟨l', h⟩
    simp only [hf, Fut.proposing.injEq, reduceCtorEq, or_false] at h
    obtain ⟨⟨-, rfl⟩, hretry⟩ := h
    refine ⟨rfl, _, e, rfl, rfl, he, ?_⟩
    by_contra hne
    rw [if_neg hne] at hretry
    split at hretry <;> simp at hretry

/-- A token goes with a proposal only when it demotes a voter out of an odd number. -/
def Tokened (a : Advance) (c : Call) : Prop :=
  c.ack = true → (∃ x, c.delta = .demoteVoter x) ∧ a.live.replicaCount % 2 = 1

theorem stepAck_tokened (j : ReconfigureJob) (a : Advance) (d : SingleVoterDelta) :
    Tokened a ⟨d, j.stepAck a.live d⟩ := by
  intro h
  simp only [stepAck, Bool.if_false_right, Bool.and_eq_true, decide_eq_true_eq] at h
  obtain ⟨⟨hd, hodd⟩, -⟩ := h
  refine ⟨?_, hodd⟩
  cases d with
  | demoteVoter x => exact ⟨x, rfl⟩
  | _ => simp [SingleVoterDelta.isDemoteVoter] at hd

theorem Resting.backed {before : Option (Advance × Option Call)} (h : Resting j before)
    (hu : ∀ p, before = some p → Unmoved p (a, none)) (hd : (j.prepared a).Retrying d) :
    Backed j.target j.health a.live a.fresh d := by
  obtain ⟨p, hp, hrefused, hbacked⟩ := h.owed d (prepared_retrying hd)
  obtain ⟨hlive, hfresh⟩ := hu p hp ⟨d, hrefused⟩
  exact (hlive ▸ hbacked).mono hfresh

/-- One advance of a job at rest proposes only what its own snapshot backs, and leaves the
job at rest. -/
theorem Resting.advance {before : Option (Advance × Option Call)}
    (h : Resting j before) (hu : ∀ p, before = some p → Unmoved p (a, none)) :
    SameGoal j (j.advance a).1 ∧
    (∀ c, (j.advance a).2 = some c →
      Backed j.target j.health a.live a.fresh c.delta ∧ Tokened a c) ∧
    ((j.advance a).1.reply.isSome = false →
      Resting (j.advance a).1 (some (a, (j.advance a).2))) := by
  obtain ⟨hpost, hpolled⟩ := poll_posted (j.prepared a)
  have hprep := prepared_sameGoal j a
  have hgoal : SameGoal j (j.prepared a).poll :=
    ⟨hpolled.1.trans hprep.1, hpolled.2.trans hprep.2⟩
  rw [advance_eq]
  dsimp only
  split_ifs with hcap hdone
  · exact ⟨⟨rfl, rfl⟩, by simp, by simp⟩
  · exact ⟨hgoal, by simp, by simp [hdone]⟩
  · cases hpost with
    | nothing hp hr =>
      have hempty := hp.trans ((prepared_proposal j a).trans h.drained)
      have hquiet : ∀ d, ¬ (j.prepared a).poll.Retrying d := by
        intro d hd
        obtain ⟨howed, hno⟩ := hr d hd
        have htick := h.ticked d (prepared_retrying howed)
        rw [prepared_tick, htick] at hno
        cases hno
      rw [takeProposal_of_empty hempty]
      exact ⟨hgoal, by simp, fun _ => ⟨hempty, fun d hd => (hquiet d hd).elim,
        fun d hd => (hquiet d hd).elim⟩⟩
    | step l d hf hp hv hj =>
      obtain ⟨hcall, htake, hslot, hretry⟩ := takeProposal_of_posted (a := a) hf hp hv
      have hbacked : Backed j.target j.health a.live a.fresh d := by
        rcases hj with hj | hj
        · rw [hprep.1, hprep.2, (prepared_snapshot j a).1, (prepared_snapshot j a).2] at hj
          exact hj
        · exact h.backed hu hj
      have hnew := And.intro (htake.1.trans hgoal.1) (htake.2.trans hgoal.2)
      refine ⟨hnew, ?_, fun _ => ⟨hslot, fun _ _ => rfl, ?_⟩⟩
      · intro c hc
        rw [hcall] at hc
        cases hc
        exact ⟨hbacked, stepAck_tokened _ a d⟩
      · intro d' hd'
        obtain ⟨rfl, hrefused⟩ := hretry d' hd'
        exact ⟨_, rfl, hrefused, by rw [hnew.1, hnew.2]; exact hbacked⟩

/-- A run from a job at rest: every proposal is backed by the advance that makes it, as long
as what was refused is tried again under the same evidence. -/
theorem Resting.proposals (as : List Advance) : ∀ {j : ReconfigureJob}
    {before : Option (Advance × Option Call)}, Resting j before →
    (before.toList ++ j.proposals as).IsChain Unmoved →
    ∀ p ∈ j.proposals as, ∀ c, p.2 = some c →
      Backed j.target j.health p.1.live p.1.fresh c.delta ∧ Tokened p.1 c := by
  induction as with
  | nil => simp [ReconfigureJob.proposals]
  | cons a as ih =>
    intro j before h hchain p hp c hc
    rw [ReconfigureJob.proposals] at hchain hp
    dsimp only at hchain hp
    have hu : ∀ q, before = some q → Unmoved q (a, none) := by
      rintro q rfl
      have hnext : Unmoved q (a, (j.advance a).2) := rel_of_isChain_cons_cons hchain
      exact hnext
    obtain ⟨hgoal, hcall, hrest⟩ := h.advance hu
    rcases mem_cons.mp hp with rfl | hp
    · exact hcall c hc
    · split at hp
      · cases hp
      · rename_i hreply
        simp only [hreply] at hchain
        have htail := IsChain.right_of_append hchain
        have := ih (hrest (by simpa using hreply)) htail p hp c hc
        rwa [hgoal.1, hgoal.2] at this

/-- Where the plan leads with the removal of a learner and a quorum of the live voters has answered,
a quorum has answered that is not known to be down. -/
def Trusted (target : MembershipTarget) (health : HealthHint) (a : Advance) : Prop :=
  ∀ plan x, planReconfiguration a.live target = .ok plan → plan.head? = some (.removeLearner x) →
    a.live.quorum ≤ (a.live.voterSet ∩ a.fresh).card →
    a.live.quorum ≤ (a.live.voterSet ∩ (a.fresh \ health.knownDown)).card

theorem Backed.justified (h : Backed target health a.live a.fresh d)
    (ht : Trusted target health a) :
    Justified target health a.live a.fresh d where
  planned := h.planned
  demoted := h.demoted
  removed x hx := by
    subst hx
    rcases h.planned with ⟨plan, hplan, hhead⟩ | ⟨candidates, hc, hmem⟩
    · exact ht plan x hplan hhead (h.removed x rfl)
    · -- only demotions are candidates
      have hdemotes := isDemoteVoter_of_mem_shrinkCandidates hc hmem
      cases hdemotes

/-- Every proposal of a job is the step that its own advance's snapshot plans, with the voters
proven alive that the step needs, in every run in which a refused proposal is followed by an
advance with the same live membership and no voter gone silent, and in which the removal of a
learner can do without the voters known to be down. -/
theorem proposals_justified (target : MembershipTarget) (health : HealthHint)
    (reconfigureTimeout : Nat) (initialLive : Membership) (initialFresh : Finset MemberId)
    (localMember : MemberId) (ack : Bool) (as : List Advance)
    (h : ((start target health reconfigureTimeout initialLive initialFresh localMember
      ack).proposals as).IsChain Unmoved)
    (ht : ∀ p ∈ (start target health reconfigureTimeout initialLive initialFresh localMember
      ack).proposals as, Trusted target health p.1) :
    ∀ p ∈ (start target health reconfigureTimeout initialLive initialFresh localMember
      ack).proposals as, ∀ c, p.2 = some c →
      Justified target health p.1.live p.1.fresh c.delta ∧ Tokened p.1 c := by
  intro p hp c hc
  have hrest :=
    start_resting target health reconfigureTimeout initialLive initialFresh localMember ack
  obtain ⟨hbacked, htoken⟩ := hrest.proposals as h p hp c hc
  exact ⟨hbacked.justified (ht p hp), htoken⟩

/-- Four voters, of whom the goal keeps three. -/
def fourVoters : Membership where
  epoch := 0
  replicaCount := 4
  learnerCount := 0
  members := [1, 2, 3, 4]
  configId := Membership.computeConfigId 0 4 0 [1, 2, 3, 4] 0
  valid := ⟨by decide, by decide, by decide, rfl, by decide⟩

/-- A driver's advance over the four voters whose proposal closure answers `Busy`. -/
def busyAdvance (now : Instant) (fresh : Finset MemberId) : Advance :=
  ⟨now, fourVoters, fresh, fun _ => .error .busy⟩

def shrinkToThree : ReconfigureJob :=
  start ⟨{1, 2, 3}, ∅⟩ {} 100 fourVoters {1, 2, 3} 1 false

/-- When no advance was cut off, the proposals are listed by what each advance proposed. -/
theorem proposals_eq_zip (as : List Advance) : ∀ {j : ReconfigureJob} {cs : List (Option Call)},
    (j.proposals as).map (·.2) = cs → cs.length = as.length → j.proposals as = as.zip cs := by
  induction as with
  | nil => simp [ReconfigureJob.proposals]
  | cons a as ih =>
    rintro j _ rfl hlen
    rw [ReconfigureJob.proposals] at hlen ⊢
    dsimp only at hlen ⊢
    split
    · simp_all
    · rename_i hreply
      simp only [hreply, map_cons, length_cons, Nat.add_right_cancel_iff] at hlen
      simp only [map_cons, zip_cons_cons, cons.injEq, true_and]
      exact ih rfl hlen

theorem proposals_justified_busy :
    (shrinkToThree.proposals [busyAdvance 0 {1, 2, 3}, busyAdvance 1 {1, 2, 3}]).map (·.2)
      = [some ⟨.demoteVoter 4, false⟩, some ⟨.demoteVoter 4, false⟩] ∧
    ∀ p ∈ shrinkToThree.proposals [busyAdvance 0 {1, 2, 3}, busyAdvance 1 {1, 2, 3}],
      ∀ c, p.2 = some c →
        Justified ⟨{1, 2, 3}, ∅⟩ {} p.1.live p.1.fresh c.delta ∧ Tokened p.1 c := by
  have hcalls : (shrinkToThree.proposals
      [busyAdvance 0 {1, 2, 3}, busyAdvance 1 {1, 2, 3}]).map (·.2)
      = [some ⟨.demoteVoter 4, false⟩, some ⟨.demoteVoter 4, false⟩] := by decide +kernel
  refine ⟨hcalls,
    proposals_justified ⟨{1, 2, 3}, ∅⟩ {} 100 fourVoters {1, 2, 3} 1 false _ ?_ (by simp [Trusted])⟩
  have hrun := proposals_eq_zip _ hcalls rfl
  rw [shrinkToThree] at hrun
  rw [hrun]
  simp [Unmoved, busyAdvance]

/-- Three voters and a learner that the goal drops. -/
def threeAndLearner : Membership where
  epoch := 0
  replicaCount := 3
  learnerCount := 1
  members := [1, 2, 3, 4]
  configId := Membership.computeConfigId 0 3 1 [1, 2, 3, 4] 0
  valid := ⟨by decide, by decide, by decide, rfl, by decide⟩

def removalAdvance : Advance := ⟨0, threeAndLearner, {1, 2, 3}, fun _ => .ok 5⟩

/-- Two of the voters are known to be down. -/
def dropLearner : ReconfigureJob :=
  start ⟨{1, 2, 3}, ∅⟩ ⟨{2, 3}⟩ 100 threeAndLearner {1, 2, 3} 1 false

/-- A refused demotion is proposed again though nobody answers the probe any more: the evidence
of the first advance is not checked again. And a learner is removed with one voter left that is not
known to be down. -/
theorem proposed_without_evidence :
    (∃ p ∈ shrinkToThree.proposals [busyAdvance 0 {1, 2, 3}, busyAdvance 1 ∅], ∃ c, p.2 = some c ∧
      ¬ Justified ⟨{1, 2, 3}, ∅⟩ {} p.1.live p.1.fresh c.delta) ∧
    ∃ p ∈ dropLearner.proposals [removalAdvance], ∃ c, p.2 = some c ∧
      ¬ Justified ⟨{1, 2, 3}, ∅⟩ ⟨{2, 3}⟩ p.1.live p.1.fresh c.delta := by
  constructor
  · have hcalls : (shrinkToThree.proposals [busyAdvance 0 {1, 2, 3}, busyAdvance 1 ∅]).map (·.2)
        = [some ⟨.demoteVoter 4, false⟩, some ⟨.demoteVoter 4, false⟩] := by decide +kernel
    rw [proposals_eq_zip _ hcalls rfl]
    refine ⟨(busyAdvance 1 ∅, some ⟨.demoteVoter 4, false⟩), by simp, _, rfl, ?_⟩
    intro h
    have hmajority := h.demoted 4 rfl
    simp [busyAdvance] at hmajority
  · have hcalls : (dropLearner.proposals [removalAdvance]).map (·.2)
        = [some ⟨.removeLearner 4, false⟩] := by decide +kernel
    rw [proposals_eq_zip _ hcalls rfl]
    refine ⟨(removalAdvance, some ⟨.removeLearner 4, false⟩), by simp, _, rfl, ?_⟩
    intro h
    exact absurd (h.removed 4 rfl) (by decide +kernel)

end ReconfigureJob

end Viewstamp
