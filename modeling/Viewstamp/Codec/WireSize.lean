import Mathlib.Algebra.BigOperators.Ring.List
import Viewstamp.Codec.Wire

/- The size bound covers the encoding.

   Every field of every message has a number below 16, so that its tag is one byte, and the
   lengths stay below `2 ^ 35` as long as the variable-length fields total less than `2 ^ 32`
   bytes: an entry of a log takes at most six times the bytes its own variable fields have. -/
namespace Viewstamp

open List

variable {e : PreparedEntry} {log : List PreparedEntry} {m : Message}

open Protobuf

/-! ## Arithmetic without saturation -/

theorem saturatingAdd_eq {a b : Nat} (h : a + b < usizeMax) : saturatingAdd a b = a + b :=
  min_eq_left h.le

theorem saturatingAdd_le (a b : Nat) : saturatingAdd a b ≤ a + b := min_le_left _ _

theorem fixedFieldsBound_eq {scalars ids : Nat} (hs : scalars ≤ 7) (hi : ids ≤ 2) :
    fixedFieldsBound scalars ids = 7 + scalars * 11 + ids * 18 := by
  have hmax : usizeMax = 18446744073709551615 := rfl
  simp only [fixedFieldsBound, saturatingAdd, saturatingMul, envelopeArmOverhead,
    worstUint64Field, worstIdField, hmax]
  omega

/-! ## Fields -/

@[simp] theorem worst_uint (n v : Nat) : (Field.uint n v).worst = 11 := rfl
@[simp] theorem worst_someUint (n v : Nat) : (Field.someUint n v).worst = 11 := rfl

@[simp] theorem worst_idField (n id : Nat) : (idField n id).worst = 18 := by
  simp [idField, Field.worst, lengthPrefix]

@[simp] theorem worst_id_delimited (n id : Nat) :
    (Field.delimited n (beBytes 16 id)).worst = 18 := by
  simp [Field.worst, lengthPrefix]

theorem worst_bytes_le (n : Nat) (v : Bytes) : (Field.bytes n v).worst ≤ 6 + v.length := by
  have := lengthPrefix_le v.length
  simp only [Field.worst]
  omega

theorem worst_delimited_le (n : Nat) (v : Bytes) :
    (Field.delimited n v).worst ≤ 6 + v.length :=
  worst_bytes_le n v

@[simp] theorem narrow_uint {n v : Nat} : (Field.uint n v).Narrow ↔ n < 16 := by
  simp [Field.Narrow, Field.number, Field.payload]

@[simp] theorem narrow_someUint {n v : Nat} : (Field.someUint n v).Narrow ↔ n < 16 := by
  simp [Field.Narrow, Field.number, Field.payload]

@[simp] theorem narrow_idField {n id : Nat} : (idField n id).Narrow ↔ n < 16 := by
  simp [idField, Field.Narrow, Field.number, Field.payload]

@[simp] theorem narrow_bytes {n : Nat} {v : Bytes} :
    (Field.bytes n v).Narrow ↔ n < 16 ∧ v.length < 2 ^ 35 := Iff.rfl

@[simp] theorem narrow_delimited {n : Nat} {v : Bytes} :
    (Field.delimited n v).Narrow ↔ n < 16 ∧ v.length < 2 ^ 35 := Iff.rfl

/-! ## Log entries -/

theorem length_pbReconfigure_le (p : ReconfigurePayload) :
    (encode (pbReconfigure p)).length ≤ 40 + 18 * p.members.length := by
  have hnarrow : ∀ f ∈ pbReconfigure p, f.Narrow := by
    intro f hf
    simp only [pbReconfigure, mem_append, mem_cons, mem_map, not_mem_nil,
      or_false] at hf
    rcases hf with ((rfl | rfl) | ⟨m, -, rfl⟩) | rfl <;> simp
  have hmembers : (p.members.map (Field.worst ∘ fun m => Field.delimited 3 (beBytes 16 m))).sum
      = 18 * p.members.length := by
    have hconst : (Field.worst ∘ fun m => Field.delimited 3 (beBytes 16 m)) = fun _ => 18 :=
      funext fun m => worst_id_delimited 3 m
    rw [hconst, map_const', sum_replicate_nat, Nat.mul_comm]
  calc (encode (pbReconfigure p)).length
      ≤ ((pbReconfigure p).map Field.worst).sum := length_encode_le hnarrow
    _ = 40 + 18 * p.members.length := by
        simp only [pbReconfigure, map_append, map_cons, map_nil, map_map,
          sum_append, hmembers, sum_cons, sum_nil, worst_uint, worst_idField]
        omega

theorem entryBound_le (e : PreparedEntry) : entryBound e ≤ 6 * e.variableLen := by
  have hmax : usizeMax = 18446744073709551615 := rfl
  unfold entryBound PreparedEntry.variableLen
  cases e.body with
  | present bs =>
    simp only [presentEntryEncodedLen, logEntryBodyOverhead, lenFieldOverhead, worstUint64Field,
      worstIdField, Body.variableLen]
    omega
  | repairing c =>
    show perHeaderEntryBytes ≤ 6 * (16 + 16)
    decide
  | reconfigure p =>
    simp only [reconfigureEntryWireSizeBound, saturatingAdd, saturatingMul, logEntryBodyOverhead,
      lenFieldOverhead, worstUint64Field, worstIdField, Body.variableLen, hmax]
    omega

/-- An entry of a log, with its own tag and length, takes at most its bound. -/
theorem worst_entry_le (n : Nat) (h : e.variableLen < 2 ^ 32) :
    (Field.delimited n (encode (pbEntry e))).worst ≤ entryBound e := by
  have hmax : usizeMax = 18446744073709551615 := rfl
  have hsum {f : Field} (hf : pbBodyState e.body = f) (hn : f.Narrow) :
      (encode (pbEntry e)).length ≤ 40 + f.worst := by
    have hnarrow : ∀ g ∈ pbEntry e, g.Narrow := by simp [pbEntry, hf, hn]
    refine (length_encode_le hnarrow).trans (le_of_eq ?_)
    simp only [pbEntry, hf, map_cons, map_nil, sum_cons, sum_nil, worst_uint,
      worst_idField]
    omega
  unfold entryBound PreparedEntry.variableLen at *
  cases hb : e.body with
  | present bs =>
    rw [hb, Body.variableLen] at h
    have hinner := hsum (f := .delimited 4 bs) (by rw [hb]; rfl) (by simp; omega)
    have hw := worst_delimited_le 4 bs
    have := worst_delimited_le n (encode (pbEntry e))
    simp only [presentEntryEncodedLen, logEntryBodyOverhead, lenFieldOverhead, worstUint64Field,
      worstIdField]
    omega
  | repairing c =>
    -- 58 bytes at most, so the length is a single byte
    have hinner := hsum (f := .delimited 5 (beBytes 16 c)) (by rw [hb]; rfl) (by simp)
    rw [worst_id_delimited] at hinner
    simp only [Field.worst, lengthPrefix, perHeaderEntryBytes, worstUint64Field, worstIdField]
    rw [if_pos (by omega)]
    omega
  | reconfigure p =>
    rw [hb, Body.variableLen] at h
    have hp := length_pbReconfigure_le p
    have hinner := hsum (f := .delimited 6 (encode (pbReconfigure p))) (by rw [hb]; rfl)
      (by simp; omega)
    have hw := worst_delimited_le 6 (encode (pbReconfigure p))
    have := worst_delimited_le n (encode (pbEntry e))
    simp only [reconfigureEntryWireSizeBound, saturatingAdd, saturatingMul, logEntryBodyOverhead,
      lenFieldOverhead, worstUint64Field, worstIdField, hmax]
    omega

/-! ## Logs -/

theorem variableLen_le_of_mem (h : e ∈ log) : e.variableLen ≤ logVariableLen log :=
  single_le_sum (by simp) _ (mem_map_of_mem h)

theorem sum_entryBound_le (log : List PreparedEntry) :
    (log.map entryBound).sum ≤ 6 * logVariableLen log := by
  rw [logVariableLen, ← sum_map_mul_left]
  apply sum_le_sum
  intro e _
  exact entryBound_le e

/-- The saturating fold is the sum, saturated once. -/
theorem logWireSizeBound_eq_min (log : List PreparedEntry) :
    logWireSizeBound log = min (log.map entryBound).sum usizeMax := by
  have hfold (acc : Nat) (hacc : acc ≤ usizeMax) (log : List PreparedEntry) :
      log.foldl (fun acc e => saturatingAdd acc (entryBound e)) acc
        = min (acc + (log.map entryBound).sum) usizeMax := by
    induction log generalizing acc with
    | nil => simpa using hacc
    | cons e log ih =>
      calc (e :: log).foldl (fun acc e => saturatingAdd acc (entryBound e)) acc
          = min (saturatingAdd acc (entryBound e) + (log.map entryBound).sum) usizeMax :=
            ih _ (min_le_right _ _)
        _ = min (acc + ((e :: log).map entryBound).sum) usizeMax := by
            rw [saturatingAdd, map_cons, sum_cons]
            omega
  have hzero := hfold 0 (Nat.zero_le _) log
  rwa [Nat.zero_add] at hzero

theorem logWireSizeBound_eq (h : (log.map entryBound).sum < usizeMax) :
    logWireSizeBound log = (log.map entryBound).sum := by
  rw [logWireSizeBound_eq_min, min_eq_left h.le]

theorem worst_pbLog_le (n : Nat) (h : logVariableLen log < 2 ^ 32) :
    ((pbLog n log).map Field.worst).sum ≤ (log.map entryBound).sum := by
  rw [pbLog, map_map]
  apply sum_le_sum
  intro e he
  exact worst_entry_le n (lt_of_le_of_lt (variableLen_le_of_mem he) h)

theorem narrow_pbLog {n : Nat} (hn : n < 16) (h : logVariableLen log < 2 ^ 32) :
    ∀ f ∈ pbLog n log, f.Narrow := by
  intro f hf
  obtain ⟨e, he, rfl⟩ := mem_map.mp hf
  have hlen := lt_of_le_of_lt (variableLen_le_of_mem he) h
  have hworst := (worst_entry_le n hlen).trans (entryBound_le e)
  refine ⟨hn, ?_⟩
  show (encode (pbEntry e)).length < 2 ^ 35
  simp only [Field.worst] at hworst
  omega

/-! ## Messages -/

/-- The fields of a message can be charged their worst case, and its bound has that charge. -/
structure Message.Charged (m : Message) : Prop where
  narrow : ∀ f ∈ (pbMessage m).2, f.Narrow
  charge : 7 + ((pbMessage m).2.map Field.worst).sum ≤ m.wireSizeBound
  small : m.wireSizeBound ≤ 6 * m.variableLen + 200

namespace Message.Charged

variable {m : Message}

/-- A message of scalars and ids. -/
theorem of_fixed (scalars ids : Nat) (hbound : m.wireSizeBound = fixedFieldsBound scalars ids)
    (hs : scalars ≤ 7) (hi : ids ≤ 2) (hnarrow : ∀ f ∈ (pbMessage m).2, f.Narrow)
    (hsum : ((pbMessage m).2.map Field.worst).sum = scalars * 11 + ids * 18) : m.Charged := by
  rw [fixedFieldsBound_eq hs hi] at hbound
  exact ⟨hnarrow, by omega, by omega⟩

/-- A message whose last field is a body: `head` are its other fields. -/
theorem of_body (head : List Field) (n : Nat) (body : Bytes) (overhead : Nat)
    (hfields : (pbMessage m).2 = head ++ [.bytes n body])
    (hbound : m.wireSizeBound = saturatingAdd overhead body.length)
    (hvar : m.variableLen = body.length) (hlen : body.length < 2 ^ 32) (hn : n < 16)
    (hhead : ∀ f ∈ head, f.Narrow) (hover : 7 + (head.map Field.worst).sum + 6 = overhead)
    (hsmall : overhead ≤ 200) : m.Charged := by
  have hmax : usizeMax = 18446744073709551615 := rfl
  have hbody := worst_bytes_le n body
  rw [saturatingAdd_eq (by omega)] at hbound
  refine ⟨?_, ?_, by omega⟩
  · rw [hfields]
    intro f hf
    rcases mem_append.mp hf with hf | hf
    · exact hhead f hf
    · rw [mem_singleton.mp hf, narrow_bytes]
      omega
  · rw [hfields, hbound, map_append, sum_append, map_singleton, sum_singleton]
    omega

/-- A message whose last field is a log. -/
theorem of_log (head : List Field) (n : Nat) (log : List PreparedEntry) (overhead : Nat)
    (hfields : (pbMessage m).2 = head ++ pbLog n log)
    (hbound : m.wireSizeBound = saturatingAdd overhead (logWireSizeBound log))
    (hvar : m.variableLen = logVariableLen log) (hlen : logVariableLen log < 2 ^ 32) (hn : n < 16)
    (hhead : ∀ f ∈ head, f.Narrow) (hover : 7 + (head.map Field.worst).sum = overhead)
    (hsmall : overhead ≤ 200) : m.Charged := by
  have hmax : usizeMax = 18446744073709551615 := rfl
  have hsum := sum_entryBound_le log
  have hworst := worst_pbLog_le n hlen
  rw [logWireSizeBound_eq (by omega), saturatingAdd_eq (by omega)] at hbound
  refine ⟨?_, ?_, by omega⟩
  · rw [hfields]
    intro f hf
    rcases mem_append.mp hf with hf | hf
    · exact hhead f hf
    · exact narrow_pbLog hn hlen f hf
  · rw [hfields, hbound, map_append, sum_append]
    omega

theorem syncCheckpoint (m : SyncCheckpoint) (h : m.snapshot.length + m.membership.length < 2 ^ 32) :
    (Message.syncCheckpoint m).Charged := by
  have hmax : usizeMax = 18446744073709551615 := rfl
  have hsnapshot := worst_bytes_le 8 m.snapshot
  have hmembership := worst_bytes_le 9 m.membership
  have hfixed : fixedFieldsBound 6 2 = 109 := by decide
  have hbound : (Message.syncCheckpoint m).wireSizeBound
      = 121 + m.snapshot.length + m.membership.length := by
    simp only [Message.wireSizeBound, hfixed, saturatingAdd, lenFieldOverhead, hmax]
    omega
  -- the install op is present or not
  have hop : ∀ f ∈ (m.configInstallOp.map (Field.someUint 10)).toList, f.Narrow ∧ f.worst = 11 := by
    cases m.configInstallOp <;> simp
  have hopSum : ((m.configInstallOp.map (Field.someUint 10)).toList.map Field.worst).sum ≤ 11 := by
    cases m.configInstallOp <;> simp
  refine ⟨?_, ?_, ?_⟩
  · intro f hf
    rcases mem_append.mp hf with hf | hf
    · simp only [mem_cons, not_mem_nil, or_false] at hf
      rcases hf with rfl | rfl | rfl | rfl | rfl | rfl | rfl | rfl | rfl <;> simp <;> omega
    · exact (hop f hf).1
  · rw [hbound]
    simp only [pbMessage, pbSyncCheckpoint, map_append, sum_append, map_cons,
      map_nil, sum_cons, sum_nil, worst_uint, worst_idField]
    omega
  · rw [hbound, Message.variableLen]
    omega

theorem blockResponse (m : BlockResponse) (h : (m.block.map length).getD 0 < 2 ^ 32) :
    (Message.blockResponse m).Charged := by
  have hmax : usizeMax = 18446744073709551615 := rfl
  have hfixed : fixedFieldsBound 0 1 = 25 := by decide
  obtain ⟨addr, block⟩ := m
  cases block with
  | none =>
    refine .of_fixed 0 1 rfl (by decide) (by decide) ?_ ?_ <;> simp [pbMessage, pbBlockResponse]
  | some b =>
    have hlen : b.length < 2 ^ 32 := h
    have hworst := worst_delimited_le 2 b
    have hbound : (Message.blockResponse ⟨addr, some b⟩).wireSizeBound = 31 + b.length := by
      simp only [Message.wireSizeBound, hfixed, saturatingAdd, lenFieldOverhead, hmax,
        Option.map_some, Option.getD_some]
      omega
    refine ⟨?_, ?_, ?_⟩
    · simp only [pbMessage, pbBlockResponse, Option.map_some, Option.toList_some,
        forall_mem_cons, narrow_idField, narrow_delimited]
      refine ⟨by decide, ⟨by decide, by omega⟩, by simp⟩
    · rw [hbound]
      simp only [pbMessage, pbBlockResponse, Option.map_some, Option.toList_some, map_cons,
        map_nil, sum_cons, sum_nil, worst_idField]
      omega
    · rw [hbound]
      simp only [Message.variableLen, Option.map_some, Option.getD_some]
      omega

end Message.Charged

theorem Message.charged (h : m.variableLen < 2 ^ 32) : m.Charged := by
  cases m with
  | request m =>
    exact .of_body [idField 1 m.client, .uint 2 m.request] 3 m.body requestEncodeOverhead rfl rfl
      rfl h (by decide) (by simp) (by simp; rfl) (by decide)
  | prepare m =>
    exact .of_body ((pbPrepare m).take 8) 9 m.body prepareEncodeOverhead rfl rfl rfl h (by decide)
      (by simp [pbPrepare]) (by simp [pbPrepare]; rfl) (by decide)
  | reply m =>
    exact .of_body ((pbReply m).take 3) 4 m.body replyEncodeOverhead rfl rfl rfl h (by decide)
      (by simp [pbReply]) (by simp [pbReply]; rfl) (by decide)
  | doViewChange m =>
    exact .of_log ((pbDoViewChange m).take 8) 9 m.log (fixedFieldsBound 7 1) rfl rfl rfl h
      (by decide)
      (by simp [pbDoViewChange]) (by simp [pbDoViewChange]; rfl) (by decide)
  | startView m =>
    exact .of_log ((pbStartView m).take 7) 8 m.log (fixedFieldsBound 6 1) rfl rfl rfl h (by decide)
      (by simp [pbStartView]) (by simp [pbStartView]; rfl) (by decide)
  | recoveryResponse m =>
    exact .of_log ((pbRecoveryResponse m).take 8) 9 m.log (fixedFieldsBound 7 1) rfl rfl rfl h
      (by decide)
      (by simp [pbRecoveryResponse]) (by simp [pbRecoveryResponse]; rfl) (by decide)
  | repairBatch m =>
    exact .of_log ((pbRepairBatch m).take 4) 5 m.log repairBatchCarrierOverhead rfl rfl rfl h
      (by decide)
      (by simp [pbRepairBatch]) (by simp [pbRepairBatch]; rfl) (by decide)
  | prepareBatch m =>
    exact .of_log ((pbPrepareBatch m).take 5) 6 m.log prepareBatchCarrierOverhead rfl rfl rfl h
      (by decide)
      (by simp [pbPrepareBatch]) (by simp [pbPrepareBatch]; rfl) (by decide)
  | syncCheckpoint m => exact .syncCheckpoint m h
  | blockResponse m => exact .blockResponse m h
  | prepareOk m =>
    refine .of_fixed 5 2 rfl (by decide) (by decide) ?_ ?_ <;> simp [pbMessage, pbPrepareOk]
  | commit m =>
    refine .of_fixed 4 1 rfl (by decide) (by decide) ?_ ?_ <;> simp [pbMessage, pbCommit]
  | startViewChange m =>
    refine .of_fixed 3 1 rfl (by decide) (by decide) ?_ ?_ <;> simp [pbMessage, pbStartViewChange]
  | getView m =>
    refine .of_fixed 4 1 rfl (by decide) (by decide) ?_ ?_ <;> simp [pbMessage, pbGetView]
  | requestPrepare m =>
    refine .of_fixed 3 1 rfl (by decide) (by decide) ?_ ?_ <;> simp [pbMessage, pbRequestPrepare]
  | recovery m =>
    refine .of_fixed 3 1 rfl (by decide) (by decide) ?_ ?_ <;> simp [pbMessage, pbRecovery]
  | requestSync m =>
    refine .of_fixed 5 1 rfl (by decide) (by decide) ?_ ?_ <;> simp [pbMessage, pbRequestSync]
  | requestPrepareRange m =>
    refine .of_fixed 4 1 rfl (by decide) (by decide) ?_ ?_ <;>
      simp [pbMessage, pbRequestPrepareRange]
  | learnerStatus m =>
    refine .of_fixed 4 1 rfl (by decide) (by decide) ?_ ?_ <;> simp [pbMessage, pbLearnerStatus]
  | epochAhead m =>
    refine .of_fixed 2 0 rfl (by decide) (by decide) ?_ ?_ <;> simp [pbMessage, pbEpochAhead]
  | requestLearnerProof m =>
    refine .of_fixed 4 1 rfl (by decide) (by decide) ?_ ?_ <;>
      simp [pbMessage, pbRequestLearnerProof]
  | learnerProof m =>
    refine .of_fixed 4 1 rfl (by decide) (by decide) ?_ ?_ <;> simp [pbMessage, pbLearnerProof]
  | requestHealthProof m =>
    refine .of_fixed 3 1 rfl (by decide) (by decide) ?_ ?_ <;>
      simp [pbMessage, pbRequestHealthProof]
  | healthProof m =>
    refine .of_fixed 3 1 rfl (by decide) (by decide) ?_ ?_ <;> simp [pbMessage, pbHealthProof]
  | requestBlock m =>
    refine .of_fixed 0 1 rfl (by decide) (by decide) ?_ ?_ <;> simp [pbMessage, pbRequestBlock]
  | nack m =>
    refine .of_fixed 3 1 rfl (by decide) (by decide) ?_ ?_ <;> simp [pbMessage, pbNack]

/-- The bound is at least the encoded length, and it is below the largest word: no addition in it
saturated. -/
theorem Message.length_encodeMessage_le (h : m.variableLen < 2 ^ 32) :
    (encodeMessage m).length ≤ m.wireSizeBound ∧ m.wireSizeBound < usizeMax := by
  have hmax : usizeMax = 18446744073709551615 := rfl
  obtain ⟨hnarrow, hcharge, hsmall⟩ := Message.charged h
  have hinner : (encode (pbMessage m).2).length ≤ ((pbMessage m).2.map Field.worst).sum :=
    length_encode_le hnarrow
  have harm : (pbMessage m).1 < 2048 := by
    cases m <;> simp [pbMessage]
  have hlen : (encode (pbMessage m).2).length < 2 ^ 35 := by omega
  have harmLen := length_encode_arm_le harm hlen
  refine ⟨?_, by omega⟩
  rw [encodeMessage]
  omega

/-! ## What the bound says of the message -/

theorem PreparedEntry.variableLen_le (h : entryBound e < usizeMax) :
    e.variableLen ≤ entryBound e := by
  unfold entryBound at h ⊢
  unfold PreparedEntry.variableLen
  cases hb : e.body with
  | present bs =>
    simp only [presentEntryEncodedLen, logEntryBodyOverhead, lenFieldOverhead, worstUint64Field,
      worstIdField, Body.variableLen]
    omega
  | repairing c =>
    show 16 + 16 ≤ perHeaderEntryBytes
    decide
  | reconfigure p =>
    rw [hb] at h
    simp only [reconfigureEntryWireSizeBound, saturatingAdd, saturatingMul, logEntryBodyOverhead,
      lenFieldOverhead, worstUint64Field, worstIdField, Body.variableLen] at h ⊢
    omega

theorem logVariableLen_le (h : logWireSizeBound log < usizeMax) :
    logVariableLen log ≤ logWireSizeBound log := by
  rw [logWireSizeBound_eq_min] at h
  have hsum : (log.map entryBound).sum < usizeMax := by omega
  rw [logWireSizeBound_eq hsum]
  apply sum_le_sum
  intro e he
  have hentry : entryBound e ≤ (log.map entryBound).sum :=
    single_le_sum (by simp) _ (mem_map_of_mem he)
  exact PreparedEntry.variableLen_le (lt_of_le_of_lt hentry hsum)

/-- A bound that has not saturated covers the variable-length fields. -/
theorem Message.variableLen_le (h : m.wireSizeBound < usizeMax) :
    m.variableLen ≤ m.wireSizeBound := by
  have hadd {a b : Nat} (h : saturatingAdd a b < usizeMax) : b ≤ saturatingAdd a b := by
    unfold saturatingAdd at h ⊢
    omega
  have hlog {a : Nat} {log : List PreparedEntry}
      (h : saturatingAdd a (logWireSizeBound log) < usizeMax) :
      logVariableLen log ≤ saturatingAdd a (logWireSizeBound log) := by
    have hb := hadd h
    exact (logVariableLen_le (lt_of_le_of_lt hb h)).trans hb
  cases m with
  | request | prepare | reply => exact hadd h
  | doViewChange | startView | recoveryResponse | repairBatch | prepareBatch => exact hlog h
  | syncCheckpoint m =>
    simp only [wireSizeBound, variableLen, saturatingAdd] at h ⊢
    omega
  | blockResponse m =>
    obtain ⟨addr, block⟩ := m
    cases block with
    | none => exact Nat.zero_le _
    | some b =>
      have hb := hadd h
      exact (hadd (lt_of_le_of_lt hb h)).trans hb
  | _ => exact Nat.zero_le _

end Viewstamp
