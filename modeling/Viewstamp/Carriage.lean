import Viewstamp.Codec.Convert
import Viewstamp.FrameBudget
import Viewstamp.Retransmit

/- The batches a replica sends, and whether a peer can read them.

   A retransmission and a repair answer ship the bodies of the log as plain bytes, a
   reconfiguration among them: the typed entry is served by its encoding. A peer refuses a
   plain body under the reconfiguration client, and with it the whole batch. So a batch that
   an endpoint ever sends is read back exactly when no reconfiguration is in its window; the
   cap on the depth of a log never matters, since both windows are far below it. -/
namespace Viewstamp

namespace Node

variable {S : Type}

variable [StateMachine S]

theorem start_carriers {boot : Boot S} {n : Node S} (h : Start boot n) : n.carriers = [] := by
  obtain ⟨_, _, _, -, hacts⟩ := h.acts (K := .all) trivial
  exact hacts.mute

/-- Every batch a replica has ever sent is plain. -/
theorem Reachable.plainBatch {boot : Boot S} {n : Node S} (h : Reachable boot n) :
    ∀ e ∈ n.emitted, e.msg.PlainBatch := by
  have hcarriers : ∀ e ∈ n.carriers, e.msg.PlainBatch := by
    induction h with
    | start hs =>
      rw [start_carriers hs]
      exact fun e he => absurd he List.not_mem_nil
    | step i _ hs ih =>
      obtain ⟨sent, hsent, hshipped⟩ : Ships False _ _ := step_ships hs nofun nofun
      intro e he
      rw [hsent] at he
      exact (List.mem_append.mp he).elim (fun he => (hshipped e he).plain) (ih e)
  intro e he
  cases hbodies : e.msg.carriesBodies with
  | true => exact hcarriers e (List.mem_filter.mpr ⟨he, hbodies⟩)
  | false =>
    -- a message that carries no bodies is no batch
    intro log hlog
    cases hm : e.msg <;> simp_all [Message.batchLog, Message.carriesBodies]

end Node

/-! ## Reading a batch -/

/-- A plain log is sendable when no reconfiguration is in it. -/
theorem logSendable_plain {log : List PreparedEntry} (hids : ∀ p ∈ log, IsU128 p.client)
    (hdepth : log.length ≤ maxHeaderOnlyBandDepth)
    (hplain : ∀ p ∈ log, ∃ bs, p.body = .present bs) :
    LogSendable log ↔ ∀ p ∈ log, p.client ≠ ClientId.reconfiguration := by
  have hentry : ∀ p ∈ log, p.Sendable ↔ p.client ≠ ClientId.reconfiguration := by
    intro p hp
    obtain ⟨bs, hbs⟩ := hplain p hp
    rw [PreparedEntry.Sendable, hbs]
    exact and_iff_right (hids p hp)
  unfold LogSendable
  rw [and_iff_right hdepth]
  exact forall₂_congr hentry

/-- In every run of an endpoint, the log of each retransmission and repair batch it has ever sent is
within the depth cap, holds plain bodies only, and is read back by a peer exactly when no
reconfiguration is in it. A reconfiguration in a batch travels as plain bytes, which a peer refuses
under its client, and the whole batch with it. -/
theorem emitted_batch_read_iff {S : Type} [StateMachine S] {boot : Boot S} {n : Node S}
    (h : Node.Reachable boot n) {e : Outgoing} (he : e ∈ n.emitted) {log : List PreparedEntry}
    (hlog : e.msg.batchLog = some log) (hids : ∀ p ∈ log, IsU128 p.client) :
    log.length ≤ maxHeaderOnlyBandDepth ∧ (∀ p ∈ log, ∃ bs, p.body = .present bs) ∧
      (logFrom (logToPb log) = .ok log ↔ ∀ p ∈ log, p.client ≠ ClientId.reconfiguration) := by
  obtain ⟨hdepth, hplain⟩ := h.plainBatch e he log hlog
  have hwindow : repairWindow ≤ maxHeaderOnlyBandDepth := by decide
  refine ⟨hdepth.trans hwindow, hplain, ?_⟩
  rw [logFrom_eq_ok, and_iff_right rfl]
  exact logSendable_plain hids (hdepth.trans hwindow) hplain

/-- The leader of the group of three takes a request and adds a learner, and no vote arrives. -/
def reconfiguringLeader : Node Tally :=
  (Node.leaderStart.run Node.leaderBoot
    [.message 0 (.client 3) (.request ⟨3, 1, [9]⟩), .proposeMembership 0 (.addLearner 11) true,
     .timeout 1000]).get (by decide +kernel)

/-- What it retransmits then. -/
def reconfiguringLog : List PreparedEntry :=
  [.ofBytes 1 3 1 [9], .ofBytes 2 ClientId.reconfiguration 2
    (ReconfigurePayload.mk 3 2 [7, 8, 9, 10, 11] trioMembership.configId).encodeBody]

theorem emitted_batch_reconfiguring :
    (∃ e ∈ reconfiguringLeader.emitted, e.msg.batchLog = some reconfiguringLog) ∧
      logFrom (logToPb reconfiguringLog) ≠ .ok reconfiguringLog := by
  have hreach : Node.Reachable Node.leaderBoot reconfiguringLeader :=
    Node.Reachable.run _ (.start (.genesis 5 _ _ rfl (Option.some_get _).symm))
      (Option.some_get _).symm
  have hsent : ∃ e ∈ reconfiguringLeader.emitted,
      e.msg.batchLog = some reconfiguringLog := by decide +kernel
  refine ⟨hsent, ?_⟩
  obtain ⟨e, he, hlog⟩ := hsent
  rw [Ne, (emitted_batch_read_iff hreach he hlog (by decide)).2.2]
  decide

end Viewstamp
