import Viewstamp.Ledger.Replay

/- What an endpoint tells its driver about the operations it applies.

   A driver answers its callers from the `Committed` events of its endpoint and from nothing
   else. The events of an incarnation are its applications, one each and in the same order: a
   reconfiguration is applied without an event, a restored checkpoint tells nothing of the
   operations below it, and after a restart the count begins anew. Each carries the reply that
   a replay of the operations from the start gives at its place, so replicas that ran the same
   operations never tell two answers to one. -/
namespace Viewstamp

open List

namespace Ledger

variable {S : Type} [StateMachine S]

/-- What the present incarnation has run through the service, the newest first. -/
def served (l : Ledger S) : List Applied :=
  l.applied.filter fun a => a.incarnation == l.incarnation && !a.reconfigure

/-- No record is of an incarnation to come. -/
def Past (l : Ledger S) : Prop := ∀ a ∈ l.applied, a.incarnation ≤ l.incarnation

theorem Past.posts {l l' : Ledger S} (hl : l.Past) (h : Relation.ReflTransGen Post l l') :
    l'.Past := by
  induction h with
  | refl => exact hl
  | @tail l1 _ _ hpost ih =>
    have hrecord (a : Applied) (ha : a.incarnation = l1.incarnation) :
        ∀ b ∈ l1.record a, b.incarnation ≤ l1.incarnation := by
      unfold record
      split
      · exact ih
      · exact forall_mem_cons.mpr ⟨ha.le, ih⟩
    cases hpost with
    | fail | touch => exact ih
    | apply | configure => exact hrecord _ rfl

end Ledger

namespace Node

variable {S : Type} [StateMachine S] {boot : Boot S} {ops : List Command}
variable {n : Node S}

/-- The event of op `op` in the replay of `ops`. -/
def replayed (boot : Boot S) (ops : List Command) (op : OpNumber) :
    Option (OpNumber × ClientId × RequestNumber × Bytes) :=
  ops[op - 1]?.map fun c =>
    let r := replay boot.config.maxClientSessions (boot.sm, .empty) 0 (ops.take (op - 1))
    (op, c.client, c.request, (StateMachine.apply r.1 op c.body).2)

def Told (boot : Boot S) (ops : List Command) (l : Ledger S) : Prop :=
  l.answered.map some = l.served.map fun a => replayed boot ops a.op

/-- One operation further in the replay. -/
theorem Follows.next {l l' : Ledger S} {c : Command} (h : Follows boot ops l)
    (hc : ops[l.smAt]? = some c) (hcap : l'.cap = l.cap) (hat : l'.smAt = l.smAt + 1)
    (hview : SessionTable.Sound l'.clients ∧ l'.view = execute l.cap l.view (l.smAt + 1) c) :
    Follows boot ops l' := by
  obtain ⟨hlt, -⟩ := List.getElem?_eq_some_iff.mp hc
  refine ⟨hcap.trans h.cap, hview.1, hat ▸ hlt, ?_⟩
  rw [hview.2, hat, h.cap, h.view, take_add_one, hc, replay_append, Nat.zero_add,
    length_take, Nat.min_eq_left h.smAt_le]
  rfl

/-- What is posted tells what the replay tells, when it is the next of `ops` each time. -/
theorem Told.posts {l l' : Ledger S} (h : Relation.ReflTransGen Post l l')
    (halive : l'.panicked = false) {cs : List Command} (hf : Follows boot ops l)
    (hl : Told boot ops l) (hcs : cs <+: ops.drop l.smAt)
    (happlied : l'.applied = (records l.incarnation l.smAt cs).reverse ++ l.applied) :
    Told boot ops l' := by
  induction h using Relation.ReflTransGen.head_induction_on generalizing cs with
  | refl => exact hl
  | @head l l1 hpost hrest ih =>
    obtain ⟨as, hr⟩ := Ledger.redone_of_posts hrest halive
    -- what is recorded first is the head of `cs`
    have hnext {a : Applied} (hrec : l1.applied = a :: l.applied) :
        a.op = l.smAt + 1 ∧ ops[l.smAt]? = some a.command ∧ ∃ ds, ds <+: ops.drop (l.smAt + 1) ∧
          l'.applied = (records l.incarnation (l.smAt + 1) ds).reverse ++ l1.applied := by
      have heq : records l.incarnation l.smAt cs = a :: as := by
        have happ := happlied.symm.trans hr.applied
        rw [hrec, ← singleton_append, ← append_assoc] at happ
        simpa using congrArg reverse (append_cancel_right happ)
      cases cs with
      | nil => cases heq
      | cons c ds =>
        obtain ⟨rfl, rfl⟩ := cons.inj heq
        obtain ⟨rest, hrest⟩ := hcs
        refine ⟨rfl, ?_, ds, ⟨rest, ?_⟩, hr.applied⟩
        · rw [← head?_drop, ← hrest]
          rfl
        · rw [← tail_drop, ← hrest]
          rfl
    cases hpost with
    | fail => cases hr.alive
    | touch clients kept =>
      obtain ⟨hsound, hproj⟩ := kept hf.sound
      exact ih ⟨hf.cap, hsound, hf.smAt_le, hf.view ▸ congrArg (Prod.mk l.sm) hproj⟩ hl hcs happlied
    | apply op client request body =>
      have hlive : l.panicked = false := hr.alive
      obtain ⟨rfl, hc, ds, hds, happ⟩ := hnext (if_neg (by simp [hlive]))
      refine ih (hf.next hc rfl rfl (Ledger.execute_apply (Nat.succ_pos _) hf.sound _ _ _))
        ?_ hds happ
      have hserved : (l.apply (l.smAt + 1) client request body).served =
          ⟨l.incarnation, l.smAt + 1, client, request, body, false⟩ :: l.served := by
        simp [Ledger.served, Ledger.apply, Ledger.record, hlive]
      have hreply : replayed boot ops (l.smAt + 1) = some (l.smAt + 1, client, request,
          (StateMachine.apply l.sm (l.smAt + 1) body).2) := by
        rw [replayed, Nat.add_sub_cancel, hc, ← hf.view]
        rfl
      rw [Told, hserved, map_cons, hreply]
      exact congrArg (_ :: ·) hl
    | configure op client request body =>
      have hlive : l.panicked = false := hr.alive
      obtain ⟨rfl, hc, ds, hds, happ⟩ := hnext (if_neg (by simp [hlive]))
      refine ih (hf.next hc rfl rfl ⟨hf.sound, rfl⟩) ?_ hds happ
      have hserved : (l.configure (l.smAt + 1) client request body).served = l.served := by
        simp [Ledger.served, Ledger.configure, Ledger.record, hlive]
      rw [Told, hserved]
      exact hl

/-- A new incarnation has told nothing, and nothing of what was applied is its own. -/
theorem Told.fresh {incarnation : Nat} {applied : List Applied}
    (h : ∀ a ∈ applied, a.incarnation < incarnation) :
    Told boot ops (Ledger.fresh boot incarnation applied) := by
  have hserved : (Ledger.fresh boot incarnation applied).served = [] := by
    refine filter_eq_nil_iff.mpr fun a ha => ?_
    simp [Ledger.fresh, (h a ha).ne]
  rw [Told, hserved]
  rfl

theorem told_posts {l : Ledger S} (hp : Relation.ReflTransGen Post l n.ledger) (took : Took ops l n)
    (hpast : l.Past) (hl : l.panicked = false → Follows boot ops l ∧ Told boot ops l) :
    n.ledger.Past ∧ (n.panicked = false → Told boot ops n.ledger) := by
  refine ⟨hpast.posts hp, fun halive => ?_⟩
  obtain ⟨as, hr⟩ := Ledger.redone_of_posts hp halive
  obtain ⟨hfollows, htold⟩ := hl hr.alive
  obtain ⟨cs, hcs, happlied⟩ := took
  have hinc : n.incarnation = l.incarnation := hr.incarnation
  exact .posts hp halive hfollows htold hcs (hinc ▸ happlied)

theorem told_step {n n' : Node S} {i : Input S} (hs : n.step boot i = some n')
    (took : Took ops (n.entry boot i) n')
    (hn : n.ledger.Past ∧ (n.panicked = false → Told boot ops n.ledger))
    (hf : (Ledger.opened n i).panicked = false → Follows boot ops (Ledger.opened n i)) :
    n'.ledger.Past ∧ (n'.panicked = false → Told boot ops n'.ledger) := by
  have hopened : (Ledger.opened n i).Past ∧
      ((Ledger.opened n i).panicked = false → Told boot ops (Ledger.opened n i)) := by
    unfold Ledger.opened
    split <;> exact hn
  have hp := step_posts hs
  unfold entry at hp took
  split at hp
  · rename_i hboot
    rw [if_pos hboot] at took
    have hold (a : Applied) (ha : a ∈ n.applied) : a.incarnation < n.incarnation + 1 :=
      Nat.lt_succ_of_le (hn.1 a ha)
    exact told_posts hp took (fun a ha => (hold a ha).le) fun _ =>
      ⟨.fresh boot ops _ _, .fresh hold⟩
  · rename_i hboot
    rw [if_neg hboot] at took
    exact told_posts hp took hopened.1 fun ha => ⟨hf ha, hopened.2 ha⟩

theorem Applies.told (h : Applies boot ops n) :
    n.ledger.Past ∧ (n.panicked = false → Told boot ops n.ledger) := by
  induction h with
  | @start boot ops n hs took =>
    have hnone (a : Applied) (ha : a ∈ []) : a.incarnation < 1 := absurd ha not_mem_nil
    exact told_posts (start_posts hs) took (fun a ha => (hnone a ha).le)
      fun _ => ⟨.fresh boot ops 1 [], .fresh hnone⟩
  | step i h hs plain took ih =>
    refine told_step hs took ih fun ha => ?_
    rw [opened_of_restores_eq_none plain] at ha ⊢
    exact h.follows ha
  | restore i h hs hdonor alive cap sm same image took ih _ =>
    refine told_step hs took ih fun ha => ?_
    rw [opened_of_restores image] at ha ⊢
    exact .restore (h.follows ha).cap (hdonor.follows alive) cap sm same

/-- In every run of an endpoint that applies `ops`, over crashes and restored checkpoints, its
`Committed` events are the operations this incarnation has put to the service: one event for each,
in the order they were applied, and each the event that a replay of `ops` gives at that op. -/
theorem committed_events_replayed (h : Applies boot ops n) (hp : n.panicked = false) :
    (n.events.filterMap Event.answer).map some =
      (n.applied.filter fun a => a.incarnation == n.incarnation && !a.reconfigure).map
        fun a => replayed boot ops a.op :=
  h.told.2 hp

theorem committed_events_replayed_solo :
    (soloApplied.events.filterMap Event.answer).map some = [some (1, 3, 1, [9])] :=
  (committed_events_replayed soloApplied_applies (by decide +kernel)).trans (by decide +kernel)

end Node

end Viewstamp
