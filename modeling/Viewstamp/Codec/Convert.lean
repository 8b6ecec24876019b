import Viewstamp.Codec.Wire
import Viewstamp.Codec.Words

/- Logs between the domain and the generated wire types.

   A generated type holds an id as bytes of any length, a count as a 32-bit word and the state
   of a body as an optional arm. Filling one from a domain value always works. Reading one back
   checks what the domain types cannot hold, and three things they can: a log deeper than the
   deepest band of headers, a payload of more members than a count can name, and a plain body
   under the reconfiguration client. What passes is the wire form of exactly one log. -/
namespace Viewstamp

open List

namespace Pb

structure ReconfigurePayload where
  replicaCount : Nat
  learnerCount : Nat
  members : List Bytes
  prevConfigId : Bytes
  deriving DecidableEq

inductive BodyState where
  | present (body : Bytes)
  | repairingChecksum (checksum : Bytes)
  | reconfigure (payload : ReconfigurePayload)
  deriving DecidableEq

structure PreparedEntry where
  op : Nat
  client : Bytes
  request : Nat
  bodyState : Option BodyState
  deriving DecidableEq

end Pb

/-! ## To the wire -/

def u128Bytes (v : Nat) : Bytes := beBytes 16 v

def ReconfigurePayload.toPb (p : ReconfigurePayload) : Pb.ReconfigurePayload :=
  ⟨p.replicaCount, p.learnerCount, p.members.map u128Bytes, u128Bytes p.prevConfigId⟩

def Body.toPb : Body → Pb.BodyState
  | .present bs => .present bs
  | .repairing checksum => .repairingChecksum (u128Bytes checksum)
  | .reconfigure p => .reconfigure p.toPb

def PreparedEntry.toPb (e : PreparedEntry) : Pb.PreparedEntry :=
  ⟨e.op, u128Bytes e.client, e.request, some e.body.toPb⟩

def logToPb (log : List PreparedEntry) : List Pb.PreparedEntry := log.map PreparedEntry.toPb

/-! ## From the wire -/

/-- `u128_from`; an error names the field. -/
def u128From (b : Bytes) (what : String) : Except String Nat :=
  if b.length = 16 then .ok (ofBeBytes b) else .error what

def maxReconfigureMembers : Nat := 2 ^ 16 - 1

def reconfigureFrom (w : Pb.ReconfigurePayload) : Except String ReconfigurePayload :=
  if maxReconfigureMembers < w.members.length then .error "ReconfigurePayload.members"
  else if 2 ^ 8 ≤ w.replicaCount then .error "ReconfigurePayload.replica_count"
  else if 2 ^ 16 ≤ w.learnerCount then .error "ReconfigurePayload.learner_count"
  else do
    let prevConfigId ← u128From w.prevConfigId "ReconfigurePayload.prev_config_id"
    let members ← w.members.mapM fun m => u128From m "ReconfigurePayload.members"
    .ok ⟨w.replicaCount, w.learnerCount, members, prevConfigId⟩

def bodyFrom (client : ClientId) : Option Pb.BodyState → Except String Body
  | some (.present body) =>
    -- A reconfiguration is typed on the wire; an untyped one is refused.
    if client = ClientId.reconfiguration then .error "PreparedEntry.body_state"
    else .ok (.present body)
  | some (.repairingChecksum checksum) => do
    let checksum ← u128From checksum "PreparedEntry.repairing_checksum"
    .ok (.repairing checksum)
  | some (.reconfigure payload) => do
    let payload ← reconfigureFrom payload
    .ok (.reconfigure payload)
  | none => .error "PreparedEntry.body_state"

def entryFrom (w : Pb.PreparedEntry) : Except String PreparedEntry := do
  let client ← u128From w.client "PreparedEntry.client"
  let body ← bodyFrom client w.bodyState
  .ok ⟨w.op, client, w.request, body⟩

def logFrom (log : List Pb.PreparedEntry) : Except String (List PreparedEntry) :=
  if maxHeaderOnlyBandDepth < log.length then .error "Message.log" else log.mapM entryFrom

/-! ## What is accepted -/

/-- A value of a `u128`. -/
def IsU128 (v : Nat) : Prop := v < 2 ^ 128

instance (v : Nat) : Decidable (IsU128 v) := inferInstanceAs (Decidable (v < 2 ^ 128))

structure ReconfigurePayload.Sendable (p : ReconfigurePayload) : Prop where
  few : p.members.length ≤ maxReconfigureMembers
  replicaCount : p.replicaCount < 2 ^ 8
  learnerCount : p.learnerCount < 2 ^ 16
  members : ∀ m ∈ p.members, IsU128 m
  prevConfigId : IsU128 p.prevConfigId

def Body.Sendable (client : ClientId) : Body → Prop
  | .present _ => client ≠ ClientId.reconfiguration
  | .repairing checksum => IsU128 checksum
  | .reconfigure p => p.Sendable

def PreparedEntry.Sendable (e : PreparedEntry) : Prop := IsU128 e.client ∧ e.body.Sendable e.client

def LogSendable (log : List PreparedEntry) : Prop :=
  log.length ≤ maxHeaderOnlyBandDepth ∧ ∀ e ∈ log, e.Sendable

theorem bind_eq_ok {α β : Type} {x : Except String α} {f : α → Except String β} {b : β} :
    (x >>= f) = .ok b ↔ ∃ a, x = .ok a ∧ f a = .ok b := by
  cases x with
  | error | ok => simp [bind, Except.bind]

/-- Elements that are read back one by one are read back as a list. -/
theorem mapM_eq_ok {α β : Type} {f : α → Except String β} {g : β → α} {P : β → Prop}
    (h : ∀ a b, f a = .ok b ↔ g b = a ∧ P b) :
    ∀ {as : List α} {bs : List β}, as.mapM f = .ok bs ↔ bs.map g = as ∧ ∀ b ∈ bs, P b
  | [], bs => by
    constructor
    · intro hnil
      cases hnil
      exact ⟨rfl, fun _ hb => absurd hb not_mem_nil⟩
    · intro hnil
      rw [map_eq_nil_iff.mp hnil.1]
      rfl
  | a :: as, bs => by
    simp only [mapM_cons, bind_eq_ok, h, mapM_eq_ok h]
    constructor
    · rintro ⟨b, ⟨rfl, hb⟩, bs', ⟨rfl, hbs⟩, heq⟩
      cases heq
      exact ⟨rfl, forall_mem_cons.mpr ⟨hb, hbs⟩⟩
    · rintro ⟨hmap, hall⟩
      cases bs with
      | nil => cases hmap
      | cons b bs =>
        cases hmap
        obtain ⟨hb, hbs⟩ := forall_mem_cons.mp hall
        exact ⟨b, ⟨rfl, hb⟩, bs, ⟨rfl, hbs⟩, rfl⟩

theorem u128From_eq_ok {b : Bytes} {what : String} {v : Nat} :
    u128From b what = .ok v ↔ u128Bytes v = b ∧ IsU128 v := by
  have hpow : (2 : Nat) ^ 128 = 256 ^ 16 := by norm_num
  unfold u128From u128Bytes IsU128
  rw [hpow]
  constructor
  · intro h
    split at h
    · rename_i hlen
      cases h
      exact ⟨beBytes_ofBeBytes_of_length hlen, hlen ▸ ofBeBytes_lt b⟩
    · cases h
  · rintro ⟨rfl, hv⟩
    rw [if_pos (length_beBytes 16 v), ofBeBytes_beBytes hv]

theorem reconfigureFrom_eq_ok {w : Pb.ReconfigurePayload} {p : ReconfigurePayload} :
    reconfigureFrom w = .ok p ↔ p.toPb = w ∧ p.Sendable := by
  unfold reconfigureFrom
  constructor
  · intro h
    split at h
    · cases h
    rename_i hfew
    split at h
    · cases h
    rename_i hreplicas
    split at h
    · cases h
    rename_i hlearners
    simp only [bind_eq_ok, u128From_eq_ok, mapM_eq_ok fun _ _ => u128From_eq_ok] at h
    obtain ⟨prev, ⟨hprev, hid⟩, members, ⟨hmembers, hids⟩, heq⟩ := h
    cases heq
    refine ⟨?_, ?_, Nat.lt_of_not_le hreplicas, Nat.lt_of_not_le hlearners, hids, hid⟩
    · rw [ReconfigurePayload.toPb, hprev, hmembers]
    · rw [← hmembers, length_map] at hfew
      exact Nat.le_of_not_lt hfew
  · rintro ⟨rfl, h⟩
    have hfew : ¬ maxReconfigureMembers < p.toPb.members.length := by
      rw [ReconfigurePayload.toPb, length_map]
      exact Nat.not_lt.mpr h.few
    have hreplicas : ¬ 2 ^ 8 ≤ p.toPb.replicaCount := Nat.not_le.mpr h.replicaCount
    have hlearners : ¬ 2 ^ 16 ≤ p.toPb.learnerCount := Nat.not_le.mpr h.learnerCount
    rw [if_neg hfew, if_neg hreplicas, if_neg hlearners]
    simp only [bind_eq_ok, u128From_eq_ok, mapM_eq_ok fun _ _ => u128From_eq_ok]
    exact ⟨_, ⟨rfl, h.prevConfigId⟩, _, ⟨rfl, h.members⟩, rfl⟩

theorem bodyFrom_eq_ok {client : ClientId} {w : Option Pb.BodyState} {b : Body} :
    bodyFrom client w = .ok b ↔ some b.toPb = w ∧ b.Sendable client := by
  rcases w with _ | body | checksum | payload
  · simp [bodyFrom]
  · -- only here does the client matter
    by_cases hc : client = ClientId.reconfiguration <;>
      cases b <;> simp [bodyFrom, hc, Body.toPb, Body.Sendable, eq_comm]
  all_goals
    cases b <;> simp [bodyFrom, bind_eq_ok, u128From_eq_ok, reconfigureFrom_eq_ok, Body.toPb,
      Body.Sendable, and_comm]

theorem entryFrom_eq_ok {w : Pb.PreparedEntry} {e : PreparedEntry} :
    entryFrom w = .ok e ↔ e.toPb = w ∧ e.Sendable := by
  simp only [entryFrom, bind_eq_ok, u128From_eq_ok, bodyFrom_eq_ok]
  constructor
  · rintro ⟨client, ⟨hclient, hid⟩, body, ⟨hstate, hbody⟩, heq⟩
    cases heq
    refine ⟨?_, hid, hbody⟩
    rw [PreparedEntry.toPb, hclient, hstate]
  · rintro ⟨rfl, hid, hbody⟩
    exact ⟨_, ⟨rfl, hid⟩, _, ⟨rfl, hbody⟩, rfl⟩

theorem logFrom_eq_ok {ws : List Pb.PreparedEntry} {log : List PreparedEntry} :
    logFrom ws = .ok log ↔ logToPb log = ws ∧ LogSendable log := by
  unfold logFrom LogSendable logToPb
  constructor
  · intro h
    split at h
    · cases h
    · rename_i hdepth
      obtain ⟨rfl, hall⟩ := (mapM_eq_ok fun _ _ => entryFrom_eq_ok).mp h
      rw [length_map] at hdepth
      exact ⟨rfl, Nat.le_of_not_lt hdepth, hall⟩
  · rintro ⟨rfl, hdepth, hall⟩
    rw [if_neg (by rw [length_map]; exact Nat.not_lt.mpr hdepth)]
    exact (mapM_eq_ok fun _ _ => entryFrom_eq_ok).mpr ⟨rfl, hall⟩

/-- Logs and wire logs are converted without loss, both ways: a log comes back from its wire form
exactly when it is one a peer admits, and whatever wire log a peer admits is the wire form of the
log it reads. -/
theorem log_conversion_exact :
    (∀ log, logFrom (logToPb log) = .ok log ↔ LogSendable log) ∧
      ∀ ws log, logFrom ws = .ok log → logToPb log = ws ∧ LogSendable log := by
  refine ⟨fun log => ?_, fun ws log h => logFrom_eq_ok.mp h⟩
  rw [logFrom_eq_ok]
  exact ⟨And.right, fun h => ⟨rfl, h⟩⟩

end Viewstamp
