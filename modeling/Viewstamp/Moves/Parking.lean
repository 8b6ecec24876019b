import Viewstamp.Moves.Step

/- The appends a replica has parked.

   An append is parked when the slot it goes to has an unfinished write, or when the
   session has as many writes in flight as its quota allows. Nothing polls the table:
   a parked append is submitted when a write is retired and its slot released, so
   each of them must have something in flight ahead of it.

   While a completion is being handled this is not so: its write is gone from the
   ledger and its slot is released only at the end. The invariant therefore speaks of
   a set of open slots and of a slack in the quota, which a release closes. -/
namespace Viewstamp

open List

variable {S : Type}

namespace Face

/-- The place of an op in the ring. -/
def slot (f : Face S) (op : OpNumber) : Nat :=
  if f.capacity = unboundedCapacity then op else op % f.capacity

/-- A write on the slot of `op` is unfinished. -/
def Fenced (f : Face S) (op : OpNumber) : Prop := ∃ w ∈ f.walWrites, f.slot w.op = f.slot op

/-- The ledger is at its quota. -/
def Full (f : Face S) : Prop := f.appendQuota ≠ 0 ∧ f.appendQuota ≤ f.walWrites.length

/-- No two ops share a slot, or the ring is smaller than the quota. -/
def RingFits (f : Face S) : Prop :=
  Function.Injective f.slot ∨
    (f.capacity ≠ unboundedCapacity ∧ 0 < f.capacity ∧ f.capacity < f.quota)

/-- The ledger of writes in flight: one write a slot, each under an id of its own. -/
structure Booked (f : Face S) : Prop where
  slots : (f.walWrites.map fun w => f.slot w.op).Nodup
  ids : (f.walWrites.map WalWrite.id).Nodup
  minted : ∀ w ∈ f.walWrites, w.id.incarnation < f.ledger.incarnation ∨
    (w.id.incarnation = f.ledger.incarnation ∧ w.id.seq < f.nextOpId)
  positive : 0 < f.quota
  latched : f.appendQuota ≠ 0 → f.quota = f.appendQuota

/-- What is parked has something ahead of it, but for the open slots and the slack. -/
structure Parked (X : Nat → Prop) (slack : Prop) (f : Face S) : Prop where
  slot : ∀ op d, f.deferredAppends.get? op = some d → d.reason = .slot →
    f.Fenced op ∨ X (f.slot op)
  quota : ∀ op d, f.deferredAppends.get? op = some d → d.reason = .quota → f.Full ∨ slack
  ring : ∀ op d, f.deferredAppends.get? op = some d → d.reason = .quota → Function.Injective f.slot
  retired : f.status = .retired → ∀ op, f.deferredAppends.get? op = none

/-- A stopped replica owes nothing to what it has parked. -/
structure Parking (X : Nat → Prop) (slack : Prop) (f : Face S) : Prop where
  fits : f.RingFits
  booked : f.Booked
  parked : f.ledger.panicked = false → f.Parked X slack

variable {X Y : Nat → Prop} {slack slack' : Prop} {f f' : Face S}

theorem Parked.mono (h : f.Parked X slack) (hX : ∀ k, X k → Y k) (hs : slack → slack') :
    f.Parked Y slack' where
  slot op d hd hr := (h.slot op d hd hr).imp_right (hX _)
  quota op d hd hr := (h.quota op d hd hr).imp_right hs
  ring := h.ring
  retired := h.retired

theorem Parking.mono (h : f.Parking X slack) (hX : ∀ k, X k → Y k) (hs : slack → slack') :
    f.Parking Y slack' :=
  ⟨h.fits, h.booked, fun hp => (h.parked hp).mono hX hs⟩

theorem Booked.mint (h : f.Booked) : Booked { f with nextOpId := f.nextOpId + 1 } where
  slots := h.slots
  ids := h.ids
  minted w hw := by
    rcases h.minted w hw with hlt | ⟨heq, hlt⟩
    · exact .inl hlt
    · exact .inr ⟨heq, Nat.lt_succ_of_lt hlt⟩
  positive := h.positive
  latched := h.latched

/-- Writes leave the ledger. -/
theorem Booked.sublist (h : f.Booked) {ws : List WalWrite} (hws : ws.Sublist f.walWrites) :
    Booked { f with walWrites := ws } where
  slots := h.slots.sublist (hws.map _)
  ids := h.ids.sublist (hws.map _)
  minted w hw := h.minted w (hws.subset hw)
  positive := h.positive
  latched := h.latched

/-- In a ring smaller than the quota the ledger never fills. -/
theorem Booked.length_lt (h : f.Booked) (hring : f.RingFits) (hinj : ¬ Function.Injective f.slot) :
    f.walWrites.length < f.quota := by
  obtain hinj' | ⟨hunb, hpos, hlt⟩ := hring
  · exact absurd hinj' hinj
  refine Nat.lt_of_le_of_lt ?_ hlt
  have hsub : (f.walWrites.map fun w => f.slot w.op).toFinset ⊆ Finset.range f.capacity := by
    intro k hk
    obtain ⟨w, -, rfl⟩ := mem_map.mp (mem_toFinset.mp hk)
    rw [Finset.mem_range, slot, if_neg hunb]
    exact Nat.mod_lt _ hpos
  have hcard := Finset.card_le_card hsub
  rwa [toFinset_card_of_nodup h.slots, length_map, Finset.card_range] at hcard

/-- What handing an append to the session does: it is parked, or it is in flight. The flag is
false when the quota refuses. -/
inductive Submit (op : OpNumber) (header : Header) (body : Bytes) (kind : Pending) (f : Face S) :
    Face S → Bool → Prop
  | fenced (h : f.Fenced op) :
      Submit op header body kind f { f with
        nextOpId := f.nextOpId + 1
        deferredAppends := f.deferredAppends.insert op ⟨kind, header, body, .slot⟩ } true
  | exhausted (h : ¬ f.Fenced op) (hq : f.quota ≤ f.walWrites.length) :
      Submit op header body kind f { f with
        nextOpId := f.nextOpId + 1
        appendQuota := f.quota
        deferredAppends := f.deferredAppends.insert op ⟨kind, header, body, .quota⟩ } false
  | sent (h : ¬ f.Fenced op) (hq : f.walWrites.length < f.quota) :
      Submit op header body kind f { f with
        nextOpId := f.nextOpId + 1
        appendQuota := f.quota
        walWrites := f.walWrites ++ [⟨⟨f.ledger.incarnation, f.nextOpId⟩, op, header, body⟩]
        pending := f.pending.insert f.nextOpId kind } true

namespace Submit

variable {op : OpNumber} {header : Header} {body : Bytes} {kind : Pending} {b : Bool}

theorem slot_eq (h : Submit op header body kind f f' b) : f'.slot = f.slot := by
  cases h <;> rfl

theorem status_eq (h : Submit op header body kind f f' b) : f'.status = f.status := by
  cases h <;> rfl

theorem writes (h : Submit op header body kind f f' b) : f.walWrites ⊆ f'.walWrites := by
  cases h with
  | fenced | exhausted => exact Subset.refl _
  | sent => exact subset_append_left _ _

/-- Other parked appends stay as they are. -/
theorem get?_of_ne (h : Submit op header body kind f f' b) {op' : OpNumber} (hne : op' ≠ op) :
    f'.deferredAppends.get? op' = f.deferredAppends.get? op' := by
  cases h with
  | fenced | exhausted => exact OrdMap.get?_insert_of_ne _ _ hne
  | sent => rfl

theorem fits (h : Submit op header body kind f f' b) (hf : f.RingFits) : f'.RingFits := by
  cases h <;> exact hf

theorem booked (h : Submit op header body kind f f' b) (hf : f.Booked) : f'.Booked := by
  cases h with
  | fenced =>
    have hm := hf.mint
    exact ⟨hm.slots, hm.ids, hm.minted, hm.positive, hm.latched⟩
  | exhausted _ hq =>
    have hm := hf.mint
    exact ⟨hm.slots, hm.ids, hm.minted, hm.positive, fun _ => rfl⟩
  | sent hfree hq =>
    have hm := hf.mint
    refine ⟨?_, ?_, ?_, hf.positive, fun _ => rfl⟩
    · rw [map_append, nodup_append]
      refine ⟨hf.slots, nodup_singleton _, ?_⟩
      rintro _ ha _ hb rfl
      obtain ⟨w, hw, hslot⟩ := mem_map.mp ha
      exact hfree ⟨w, hw, hslot.trans (mem_singleton.mp hb)⟩
    · rw [map_append, nodup_append]
      refine ⟨hf.ids, nodup_singleton _, ?_⟩
      rintro _ ha _ hb rfl
      obtain ⟨w, hw, hid⟩ := mem_map.mp ha
      have hnew : w.id = ⟨f.ledger.incarnation, f.nextOpId⟩ :=
        hid.trans (mem_singleton.mp hb)
      have hold := hf.minted w hw
      rw [hnew] at hold
      rcases hold with hlt | ⟨-, hlt⟩
      · exact Nat.lt_irrefl _ hlt
      · exact Nat.lt_irrefl _ hlt
    · intro w hw
      rcases mem_append.mp hw with hw | hw
      · exact hm.minted w hw
      · rw [mem_singleton.mp hw]
        exact .inr ⟨rfl, Nat.lt_succ_self _⟩

theorem fenced_mono (h : Submit op header body kind f f' b) {op' : OpNumber}
    (hf : f.Fenced op') : f'.Fenced op' := by
  obtain ⟨w, hw, hslot⟩ := hf
  refine ⟨w, h.writes hw, ?_⟩
  rw [h.slot_eq]
  exact hslot

theorem full_mono (h : Submit op header body kind f f' b) (hf : f.Booked) (hfull : f.Full) :
    f'.Full := by
  obtain ⟨hne, hle⟩ := hfull
  have hquota := hf.latched hne
  cases h with
  | fenced => exact ⟨hne, hle⟩
  | exhausted _ hq => exact ⟨hf.positive.ne', hq⟩
  | sent _ hq =>
    exact absurd hq (Nat.not_lt.mpr (hquota.trans_le hle))

/-- An admitted append has a write on its slot: its own or the one it waits for. -/
theorem fenced_of_admitted (h : Submit op header body kind f f' true) : f'.Fenced op := by
  cases h with
  | fenced hf => exact hf
  | sent hfree hq => exact ⟨_, mem_append_right _ (mem_singleton.mpr rfl), rfl⟩

theorem full_of_refused (h : Submit op header body kind f f' false) (hf : f.Booked) : f'.Full := by
  cases h with
  | exhausted _ hq => exact ⟨hf.positive.ne', hq⟩

/-- A refusal means that the ring is no bound on the ledger. -/
theorem injective_of_refused (h : Submit op header body kind f f' false) (hfits : f.RingFits)
    (hf : f.Booked) : Function.Injective f.slot := by
  cases h with
  | exhausted _ hq =>
    by_contra hinj
    exact absurd (hf.length_lt hfits hinj) (Nat.not_lt.mpr hq)

/-- How `op` itself is parked afterwards. -/
theorem get?_self (h : Submit op header body kind f f' b) {d : DeferredAppend}
    (hd : f'.deferredAppends.get? op = some d) :
    (d.reason = .slot ∧ b = true) ∨ (d.reason = .quota ∧ b = false) ∨
      f.deferredAppends.get? op = some d := by
  cases h with
  | fenced =>
    rw [OrdMap.get?_insert_self] at hd
    cases hd
    exact .inl ⟨rfl, rfl⟩
  | exhausted =>
    rw [OrdMap.get?_insert_self] at hd
    cases hd
    exact .inr (.inl ⟨rfl, rfl⟩)
  | sent => exact .inr (.inr hd)

theorem parked (h : Submit op header body kind f f' b) (hfits : f.RingFits) (hb : f.Booked)
    (hs : f.status ≠ .retired) (hf : f.Parked X slack) : f'.Parked X slack where
  slot op' d hd hr := by
    rw [h.slot_eq]
    by_cases hop : op' = op
    · subst hop
      rcases h.get?_self hd with ⟨-, rfl⟩ | ⟨hq, -⟩ | hold
      · exact .inl h.fenced_of_admitted
      · rw [hr] at hq
        cases hq
      · exact (hf.slot _ d hold hr).imp_left h.fenced_mono
    · rw [h.get?_of_ne hop] at hd
      exact (hf.slot op' d hd hr).imp_left h.fenced_mono
  quota op' d hd hr := by
    by_cases hop : op' = op
    · subst hop
      rcases h.get?_self hd with ⟨hq, -⟩ | ⟨-, rfl⟩ | hold
      · rw [hr] at hq
        cases hq
      · exact .inl (h.full_of_refused hb)
      · exact (hf.quota _ d hold hr).imp_left (h.full_mono hb)
    · rw [h.get?_of_ne hop] at hd
      exact (hf.quota op' d hd hr).imp_left (h.full_mono hb)
  ring op' d hd hr := by
    rw [h.slot_eq]
    by_cases hop : op' = op
    · subst hop
      rcases h.get?_self hd with ⟨hq, -⟩ | ⟨-, rfl⟩ | hold
      · rw [hr] at hq
        cases hq
      · exact h.injective_of_refused hfits hb
      · exact hf.ring _ d hold hr
    · rw [h.get?_of_ne hop] at hd
      exact hf.ring op' d hd hr
  retired hret := absurd (h.status_eq.symm.trans hret) hs

end Submit

/-- The session is the same. -/
structure Kin (f f' : Face S) : Prop where
  capacity : f'.capacity = f.capacity
  walWrites : f'.walWrites = f.walWrites
  appendQuota : f'.appendQuota = f.appendQuota
  quota : f'.quota = f.quota
  nextOpId : f.nextOpId ≤ f'.nextOpId
  incarnation : f'.ledger.incarnation = f.ledger.incarnation

namespace Kin

theorem slot_eq (h : Kin f f') : f'.slot = f.slot := by
  funext op
  unfold Face.slot
  rw [h.capacity]

theorem fits (h : Kin f f') (hf : f.RingFits) : f'.RingFits := by
  unfold RingFits
  rw [h.slot_eq, h.capacity, h.quota]
  exact hf

theorem booked (h : Kin f f') (hf : f.Booked) : f'.Booked := by
  refine ⟨?_, ?_, fun w hw => ?_, ?_, ?_⟩
  · rw [h.walWrites, h.slot_eq]
    exact hf.slots
  · rw [h.walWrites]
    exact hf.ids
  · rw [h.incarnation]
    refine (hf.minted w (h.walWrites ▸ hw)).imp_right fun hold => ?_
    exact ⟨hold.1, hold.2.trans_le h.nextOpId⟩
  · rw [h.quota]
    exact hf.positive
  · rw [h.quota, h.appendQuota]
    exact hf.latched

end Kin

/-- Entries may leave the table, and a replica that retires has none left. -/
theorem Parking.of_kin (hf : f.Parking X slack) (h : Kin f f')
    (hd : ∀ op d, f'.deferredAppends.get? op = some d → f.deferredAppends.get? op = some d)
    (hp : f'.ledger.panicked = false → f.ledger.panicked = false)
    (hs : f'.status = .retired → f.status = .retired ∨ f'.deferredAppends = .empty) :
    f'.Parking X slack where
  fits := h.fits hf.fits
  booked := h.booked hf.booked
  parked halive := by
    have hpk := hf.parked (hp halive)
    refine ⟨fun op d he hr => ?_, fun op d he hr => ?_, fun op d he hr => ?_, fun hret op => ?_⟩
    · unfold Fenced
      rw [h.walWrites, h.slot_eq]
      exact hpk.slot op d (hd op d he) hr
    · unfold Full
      rw [h.walWrites, h.appendQuota]
      exact hpk.quota op d (hd op d he) hr
    · rw [h.slot_eq]
      exact hpk.ring op d (hd op d he) hr
    · rcases hs hret with hold | hempty
      · cases he : f'.deferredAppends.get? op with
        | none => rfl
        | some d =>
          have hnone := hpk.retired hold op
          rw [hd op d he] at hnone
          cases hnone
      · rw [hempty]
        rfl

/-- Nothing of what parking is about has changed. -/
theorem Parking.of_eq (h : f.Parking X slack) (hk : Kin f f')
    (hd : f'.deferredAppends = f.deferredAppends)
    (hp : f'.ledger.panicked = f.ledger.panicked) (hs : f'.status = f.status) :
    f'.Parking X slack := by
  refine h.of_kin hk (fun op d he => ?_) (fun halive => ?_) (fun hret => .inl ?_)
  · rwa [hd] at he
  · rwa [hp] at halive
  · rwa [hs] at hret

/-- Entries leave the table. -/
theorem Parking.drop (h : f.Parking X slack) {m : OrdMap Nat DeferredAppend}
    (hm : ∀ op d, m.get? op = some d → f.deferredAppends.get? op = some d) :
    Parking X slack { f with deferredAppends := m } :=
  h.of_kin ⟨rfl, rfl, rfl, rfl, le_refl _, rfl⟩ hm id .inl

/-- An empty table leaves nothing open. -/
theorem Parking.idle (h : f.Parking X slack) (hempty : ∀ op, f.deferredAppends.get? op = none) :
    f.Parking Y slack' where
  fits := h.fits
  booked := h.booked
  parked hp :=
    { slot := fun op _ hd => absurd ((hempty op).symm.trans hd) nofun
      quota := fun op _ hd => absurd ((hempty op).symm.trans hd) nofun
      ring := (h.parked hp).ring
      retired := fun _ => hempty }

/-- Writes leave the ledger: their slots are open, and the quota has slack if there are any. -/
theorem Parking.retire (h : f.Parking X slack) {ws gone : List WalWrite}
    (hws : ws.Sublist f.walWrites) (hgone : ∀ w ∈ f.walWrites, w ∈ ws ∨ w ∈ gone)
    (hkeep : gone = [] → ws = f.walWrites) :
    Parking (fun k => X k ∨ ∃ w ∈ gone, f.slot w.op = k) (slack ∨ gone ≠ [])
      { f with walWrites := ws } where
  fits := h.fits
  booked := h.booked.sublist hws
  parked hp := by
    have hpk := h.parked hp
    refine ⟨fun op d hd hr => ?_, fun op d hd hr => ?_, hpk.ring, hpk.retired⟩
    · rcases hpk.slot op d hd hr with ⟨w, hw, hslot⟩ | hopen
      · rcases hgone w hw with hw | hw
        · exact .inl ⟨w, hw, hslot⟩
        · exact .inr (.inr ⟨w, hw, hslot⟩)
      · exact .inr (.inl hopen)
    · rcases hpk.quota op d hd hr with hfull | hs
      · by_cases hnil : gone = []
        · rw [hkeep hnil]
          exact .inl hfull
        · exact .inr (.inr hnil)
      · exact .inr (.inl hs)

end Face

namespace Node

variable {X : Nat → Prop} {slack : Prop}
variable {n : Node S}

/-! ## The functions that submit -/

theorem Tables.slot_eq {n n' : Node S} (h : Tables n n') : n'.face.slot = n.face.slot := by
  funext op
  unfold Face.slot
  rw [show n'.face.capacity = n.face.capacity from h.sameRing.capacity]

theorem fenced_iff (n : Node S) (op : OpNumber) :
    n.face.Fenced op ↔ n.storage.slotWriteInFlight op = true := by
  unfold Face.Fenced Media.slotWriteInFlight
  rw [any_eq_true]
  constructor
  · rintro ⟨w, hw, h⟩
    exact ⟨w, hw, beq_iff_eq.mpr h⟩
  · rintro ⟨w, hw, h⟩
    exact ⟨w, hw, beq_iff_eq.mp h⟩

theorem face_eq_of_quota {f : Face S} (h : { n.face with quota := f.quota } = f)
    (hq : n.storage.effectiveQuota = f.quota) : n.face = f := by
  rw [← h, ← hq]
  rfl

/-- Handing an append to the session. -/
theorem submitAppendAs_submit (n : Node S) (hp : n.panicked = false) (op : OpNumber)
    (header : Header) (body : Bytes) (kind : Pending) :
    Face.Submit op header body kind n.face (n.submitAppendAs op header body kind).1.face
      (n.submitAppendAs op header body kind).2 := by
  have hstopped : ¬ n.panicked = true := by simp [hp]
  -- the verdict of the session, case by case
  by_cases hf : n.storage.slotWriteInFlight op = true
  · have hs : n.storage.submitAppend n.nextId op header body = (n.storage, .slotFenced) := if_pos hf
    simp only [submitAppendAs, if_neg hstopped, hs]
    exact .fenced ((fenced_iff n op).mpr hf)
  · have hfree : ¬ n.face.Fenced op := fun h => hf ((fenced_iff n op).mp h)
    by_cases hq : n.storage.effectiveQuota ≤ n.storage.walWrites.length
    · have hs : n.storage.submitAppend n.nextId op header body =
          ({ n.storage with appendQuota := n.storage.effectiveQuota }, .quotaExhausted) :=
        (if_neg hf).trans (if_pos hq)
      simp only [submitAppendAs, if_neg hstopped, hs]
      have h : Face.Submit op header body kind n.face _ false := .exhausted hfree hq
      convert h using 1
      exact face_eq_of_quota rfl (Storage.effectiveQuota_latched rfl)
    · have hs : n.storage.submitAppend n.nextId op header body =
          ({ n.storage with
            appendQuota := n.storage.effectiveQuota
            walWrites := n.storage.walWrites ++ [⟨n.nextId, op, header, body⟩] }, .submitted) :=
        (if_neg hf).trans (if_neg hq)
      simp only [submitAppendAs, if_neg hstopped, hs]
      have h : Face.Submit op header body kind n.face _ true := .sent hfree (Nat.lt_of_not_le hq)
      convert h using 1
      exact face_eq_of_quota rfl (Storage.effectiveQuota_latched rfl)

theorem resubmitDeferredAppend_submit (n : Node S) (hp : n.panicked = false) (op : OpNumber)
    (d : DeferredAppend) :
    Face.Submit op d.header d.body d.kind
      { n.face with deferredAppends := n.deferredAppends.erase op }
      (n.resubmitDeferredAppend op d).1.face (n.resubmitDeferredAppend op d).2 :=
  submitAppendAs_submit { n with deferredAppends := n.deferredAppends.erase op } hp op d.header
    d.body d.kind

/-- A stopped replica submits nothing. -/
theorem resubmitDeferredAppend_stopped (n : Node S) (hp : n.panicked = true) (op : OpNumber)
    (d : DeferredAppend) : n.resubmitDeferredAppend op d =
      ({ n with deferredAppends := n.deferredAppends.erase op }, false) :=
  if_pos hp

theorem parking_erase (h : n.face.Parking X slack) (op : OpNumber) :
    Face.Parking X slack { n.face with deferredAppends := n.deferredAppends.erase op } := by
  apply h.drop
  intro op' d hd
  rw [OrdMap.get?_erase] at hd
  split at hd
  · cases hd
  · exact hd

theorem resubmitDeferredAppend_parking (h : n.face.Parking X slack) {op : OpNumber}
    {d : DeferredAppend} (hd : n.deferredAppends.get? op = some d) :
    (n.resubmitDeferredAppend op d).1.face.Parking X slack := by
  have herase := parking_erase h op
  cases hp : n.panicked with
  | true =>
    rw [resubmitDeferredAppend_stopped n hp]
    exact herase
  | false =>
    have hs : n.status ≠ .retired := by
      intro hret
      have hnone := (h.parked hp).retired hret op
      rw [show n.face.deferredAppends.get? op = some d from hd] at hnone
      cases hnone
    have hsub := resubmitDeferredAppend_submit n hp op d
    refine ⟨hsub.fits herase.fits, hsub.booked herase.booked, fun hp' => ?_⟩
    exact hsub.parked herase.fits herase.booked hs (herase.parked hp)

end Node

namespace Face

variable {X : Nat → Prop} {slack : Prop} {f : Face S}

/-- The slack is gone when what waits for the quota finds it full. -/
theorem Parking.tighten (h : f.Parking X slack)
    (hq : f.ledger.panicked = false → ∀ op d, f.deferredAppends.get? op = some d →
      d.reason = .quota → f.Full) : f.Parking X False where
  fits := h.fits
  booked := h.booked
  parked hp :=
    { slot := (h.parked hp).slot
      quota := fun op d hd hr => .inl (hq hp op d hd hr)
      ring := (h.parked hp).ring
      retired := (h.parked hp).retired }

end Face

namespace Node

variable {X Y : Nat → Prop} {slack : Prop}
variable {n : Node S}

/-- The quota is given out until it refuses, so nothing waits for it while it has room. -/
theorem releaseQuotaFrom_parking : ∀ (ops : List OpNumber) (n : Node S), n.face.Parking X slack →
    (∀ op d, n.deferredAppends.get? op = some d → d.reason = .quota → n.face.Full ∨ op ∈ ops) →
    (releaseQuotaFrom ops n).face.Parking X False
  | [], n, h, hq => by
    apply h.tighten
    intro _ op d hd hr
    exact (hq op d hd hr).resolve_right not_mem_nil
  | op :: ops, n, h, hq => by
    unfold releaseQuotaFrom
    split
    · rename_i hnone
      refine releaseQuotaFrom_parking ops n h fun op' d hd hr => ?_
      refine (hq op' d hd hr).imp_right fun hmem => ?_
      rcases mem_cons.mp hmem with rfl | hmem
      · rw [hnone] at hd
        cases hd
      · exact hmem
    · rename_i d hd
      have hpark := resubmitDeferredAppend_parking h hd
      cases hp : n.panicked with
      | true =>
        rw [resubmitDeferredAppend_stopped n hp] at hpark ⊢
        exact hpark.tighten fun hp' => absurd (hp.symm.trans hp') nofun
      | false =>
        have hsub := resubmitDeferredAppend_submit n hp op d
        have hbooked := (parking_erase h op).booked
        generalize n.resubmitDeferredAppend op d = r at hpark hsub
        obtain ⟨m, admitted⟩ := r
        cases admitted with
        | false => exact hpark.tighten fun _ _ _ _ _ => hsub.full_of_refused hbooked
        | true =>
          refine releaseQuotaFrom_parking ops m hpark fun op' d' hd' hr => ?_
          by_cases hop : op' = op
          · subst hop
            rcases hsub.get?_self hd' with ⟨hslot, -⟩ | ⟨-, hno⟩ | hold
            · rw [hr] at hslot
              cases hslot
            · cases hno
            · simp at hold
          · have hd0 : n.deferredAppends.get? op' = some d' := by
              have hother := (hsub.get?_of_ne hop).symm.trans hd'
              rw [OrdMap.get?_erase, if_neg hop] at hother
              exact hother
            rcases hq op' d' hd0 hr with hfull | hmem
            · exact .inl (hsub.full_mono hbooked hfull)
            · exact .inr ((mem_cons.mp hmem).resolve_left hop)

theorem slotsAlias_iff (n : Node S) (a b : OpNumber) :
    slotsAlias n.storage.capacity a b = true ↔ n.face.slot a = n.face.slot b := by
  unfold slotsAlias Face.slot
  rw [show n.face.capacity = n.storage.capacity from rfl]
  by_cases hunb : n.storage.capacity = unboundedCapacity
  · simp [hunb]
  · simp only [hunb, if_false, Bool.or_eq_true, Bool.and_eq_true, beq_iff_eq,
      decide_eq_true_eq, ne_eq,
      not_false_eq_true, true_and]
    constructor
    · rintro (rfl | h)
      · rfl
      · exact h
    · exact Or.inr

theorem mem_quotaDeferred {op : OpNumber} {d : DeferredAppend}
    (hd : n.deferredAppends.get? op = some d) (hr : d.reason = .quota) : op ∈ n.quotaDeferred := by
  refine OrdMap.mem_keys.mpr ⟨d, OrdMap.get?_filter_eq_some.mpr ⟨hd, ?_⟩⟩
  simpa using hr

theorem releaseQuotaDeferredAppends_parking (h : n.face.Parking X slack) :
    n.releaseQuotaDeferredAppends.face.Parking X False :=
  releaseQuotaFrom_parking _ n h fun _ _ hd hr => .inr (mem_quotaDeferred hd hr)

/-- A release closes its slot and takes up the slack. -/
theorem releaseDeferredAppend_parking (h : n.face.Parking X slack) (op : OpNumber)
    (hY : ∀ k, X k → Y k ∨ k = n.face.slot op) :
    (n.releaseDeferredAppend op).face.Parking Y False := by
  unfold releaseDeferredAppend
  dsimp only
  split
  · rename_i op' d hfind
    obtain ⟨hd, halias, -⟩ := OrdMap.find?_entries_eq_some
      (p := fun k => slotsAlias n.storage.capacity k op) hfind
    have hslot : n.face.slot op' = n.face.slot op := (slotsAlias_iff n op' op).mp halias
    have hpark := resubmitDeferredAppend_parking h hd
    suffices hclosed : (n.resubmitDeferredAppend op' d).1.face.Parking Y slack from
      releaseQuotaDeferredAppends_parking hclosed
    refine ⟨hpark.fits, hpark.booked, fun hp' => ?_⟩
    cases hp : n.panicked with
    | true =>
      rw [resubmitDeferredAppend_stopped n hp] at hp'
      exact absurd (hp.symm.trans hp') nofun
    | false =>
      have hold := parking_erase h op'
      have hsub := resubmitDeferredAppend_submit n hp op' d
      have hpk := hpark.parked hp'
      generalize n.resubmitDeferredAppend op' d = r at hsub hpk
      obtain ⟨m, admitted⟩ := r
      refine ⟨fun k e he hr => ?_, hpk.quota, hpk.ring, hpk.retired⟩
      rcases hpk.slot k e he hr with hfence | hX
      · exact .inl hfence
      rw [hsub.slot_eq] at hX ⊢
      rcases hY _ hX with hYk | hk
      · exact .inr hYk
      -- the slot just released: whoever was resubmitted has a write on it, or it is its only user
      have hsame : m.face.slot k = m.face.slot op' := by
        rw [hsub.slot_eq]
        exact hk.trans hslot.symm
      cases admitted with
      | true =>
        obtain ⟨w, hw, hws⟩ := hsub.fenced_of_admitted
        exact .inl ⟨w, hw, hws.trans hsame.symm⟩
      | false =>
        have hinj := hsub.injective_of_refused hold.fits hold.booked
        obtain rfl : k = op' := hinj (hk.trans hslot.symm)
        rcases hsub.get?_self he with ⟨-, hno⟩ | ⟨hq, -⟩ | hgone
        · cases hno
        · rw [hr] at hq
          cases hq
        · simp at hgone
  · rename_i hnone
    suffices hclosed : n.face.Parking Y slack from releaseQuotaDeferredAppends_parking hclosed
    refine ⟨h.fits, h.booked, fun hp => ?_⟩
    have hpk := h.parked hp
    refine ⟨fun k e he hr => ?_, hpk.quota, hpk.ring, hpk.retired⟩
    rcases hpk.slot k e he hr with hfence | hX
    · exact .inl hfence
    · rcases hY _ hX with hYk | hk
      · exact .inr hYk
      · have hno := OrdMap.find?_entries_eq_none
          (p := fun k => slotsAlias n.storage.capacity k op) hnone he
        rw [(slotsAlias_iff n k op).mpr hk] at hno
        cases hno

/-- One cancelled write is settled and its slot released. -/
theorem absorbOne_parking {w : WalWrite} {ws : List WalWrite}
    (h : n.face.Parking (fun k => X k ∨ ∃ w' ∈ w :: ws, n.face.slot w'.op = k)
      (slack ∨ w :: ws ≠ [])) :
    ((n.settleCancelled w).releaseDeferredAppend w.op).face.Parking
      (fun k => X k ∨ ∃ w' ∈ ws, n.face.slot w'.op = k) False := by
  have hm := face_settleCancelled n w
  have hslot : (n.settleCancelled w).face.slot = n.face.slot :=
    (Tables.tending.settleCancelled n w).slot_eq
  generalize n.settleCancelled w = m at hm hslot
  have hpark : m.face.Parking (fun k => X k ∨ ∃ w' ∈ w :: ws, n.face.slot w'.op = k)
      (slack ∨ w :: ws ≠ []) := by
    rw [hm]
    exact h.of_eq ⟨rfl, rfl, rfl, rfl, le_refl _, rfl⟩ rfl rfl rfl
  refine releaseDeferredAppend_parking hpark w.op fun k hk => ?_
  rw [hslot]
  rcases hk with hk | ⟨w', hw', hk⟩
  · exact .inl (.inl hk)
  · rcases mem_cons.mp hw' with rfl | hw'
    · exact .inr hk.symm
    · exact .inl (.inr ⟨w', hw', hk⟩)

theorem absorbOne_slot (n : Node S) (w : WalWrite) :
    ((n.settleCancelled w).releaseDeferredAppend w.op).face.slot = n.face.slot :=
  ((Tables.tending.settleCancelled n w).trans (Tables.releaseDeferredAppend _ w.op)).slot_eq

theorem absorbWalCancellations_parking : ∀ (ws : List WalWrite) (n : Node S),
    n.face.Parking (fun k => X k ∨ ∃ w ∈ ws, n.face.slot w.op = k) (slack ∨ ws ≠ []) →
    (n.absorbWalCancellations ws).face.Parking X slack
  | [], n, h => by
    refine h.mono (fun k hk => ?_) (fun hs => ?_)
    · exact hk.resolve_right fun ⟨w, hw, _⟩ => not_mem_nil hw
    · exact hs.resolve_right fun hne => hne rfl
  | w :: ws, n, h => by
    rw [absorbWalCancellations_cons]
    refine absorbWalCancellations_parking ws _ ?_
    rw [absorbOne_slot]
    exact (absorbOne_parking h).mono (fun _ => id) False.elim

/-- Ops are released from the WAL: the writes that this cancels leave their slots open. -/
theorem release_parking (h : n.face.Parking X slack) (p : OpNumber → Bool) :
    { n with storage := n.storage.release p }.face.Parking
      (fun k => X k ∨ ∃ w ∈ n.storage.cancelled p, n.face.slot w.op = k)
      (slack ∨ n.storage.cancelled p ≠ []) := by
  apply h.retire filter_sublist
  · intro w hw
    by_cases hc : (p w.op && n.storage.cancels w.id) = true
    · exact .inr (mem_filter.mpr ⟨hw, hc⟩)
    · exact .inl (mem_filter.mpr ⟨hw, Bool.not_eq_true' _ ▸ Bool.eq_false_of_not_eq_true hc⟩)
  · intro hnil
    apply filter_eq_self.mpr
    intro w hw
    have hkept := filter_eq_nil_iff.mp hnil w hw
    rw [Bool.not_eq_true']
    exact Bool.eq_false_of_not_eq_true hkept

theorem truncateAbsorbing_parking (h : n.face.Parking X slack) (above : OpNumber) :
    (n.truncateAbsorbing above).face.Parking X slack := by
  unfold truncateAbsorbing truncateWal
  split
  · exact h
  · exact absorbWalCancellations_parking _ _ (release_parking h fun op => decide (above < op))

theorem pruneAbsorbing_parking (h : n.face.Parking X slack) (below : OpNumber) :
    (n.pruneAbsorbing below).face.Parking X slack := by
  unfold pruneAbsorbing pruneWal
  split
  · exact h
  · exact absorbWalCancellations_parking _ _ (release_parking h fun op => decide (op < below))

theorem dropSubsumedAppends_parking : ∀ (ops : List OpNumber) (n : Node S),
    n.face.Parking X slack → (ops.foldl dropSubsumedAppend n).face.Parking X slack
  | [], _, h => h
  | op :: ops, n, h => by
    apply dropSubsumedAppends_parking ops
    unfold dropSubsumedAppend
    dsimp only
    split <;> exact parking_erase h op

theorem gcAbsorbing_parking (h : n.face.Parking X slack) (floor : OpNumber) :
    (n.gcAbsorbing floor).face.Parking X slack := by
  have hslot := fun ops (m : Node S) => (Tables.tending.dropSubsumedAppends ops m).slot_eq
  unfold gcAbsorbing pruneWal
  split
  · exact dropSubsumedAppends_parking _ n h
  · apply absorbWalCancellations_parking
    rw [hslot]
    exact dropSubsumedAppends_parking _ _ (release_parking h fun op => decide (op < floor + 1))

theorem submitOrDeferAppend_parking (h : n.face.Parking X slack) (hs : n.status ≠ .retired)
    (op : OpNumber) (header : Header) (body : Bytes) (kind : Pending) :
    (n.submitOrDeferAppend op header body kind).face.Parking X slack := by
  unfold submitOrDeferAppend
  cases hp : n.panicked with
  | true =>
    rw [submitAppendAs, if_pos hp]
    exact h
  | false =>
    have hsub := submitAppendAs_submit n hp op header body kind
    exact ⟨hsub.fits h.fits, hsub.booked h.booked,
      fun _ => hsub.parked h.fits h.booked hs (h.parked hp)⟩

/-- What a nack truncation leaves is a part of what was there. -/
theorem nackTruncated_parking (h : n.face.Parking X slack) (gap : OpNumber) :
    (n.nackTruncated gap).face.Parking X slack := by
  refine h.of_kin ⟨rfl, rfl, rfl, rfl, le_refl _, rfl⟩ (fun op d hd => ?_) id .inl
  exact (OrdMap.get?_filter_eq_some.mp hd).1

theorem tending_booked : Tending fun n n' : Node S => n.face.Booked → n'.face.Booked where
  refl _ := id
  trans h h' hn := h' (h hn)
  submit n op header body kind hn := by
    cases hp : n.panicked with
    | true => rwa [submitAppendAs, if_pos hp]
    | false => exact (submitAppendAs_submit n hp op header body kind).booked hn
  edit _ _ _ _ hn := ⟨hn.slots, hn.ids, hn.minted, hn.positive, hn.latched⟩

end Node

variable [StateMachine S]

namespace Node

variable {X : Nat → Prop} {slack : Prop} {K : Licence}

/-- Whatever a replica does, its writes in flight are on slots and under ids of their own. -/
theorem Move.booked {n n' : Node S} (h : Move K n n') (hn : n.face.Booked) : n'.face.Booked := by
  have htend := tending_booked (S := S)
  cases h with
  | quiet h | status _ _ h | restore _ _ _ _ h | log _ h | settle _ h | checkpoint _ _ h | clear h
  | retire _ h =>
    rw [h]
    exact ⟨hn.slots, hn.ids, hn.minted, hn.positive, hn.latched⟩
  | mint h => exact h ▸ hn.mint
  | @post _ l hp h =>
    have hkin : Face.Kin n.face { n.face with ledger := l } :=
      ⟨rfl, rfl, rfl, rfl, le_refl _, hp.incarnation_eq⟩
    exact h ▸ hkin.booked hn
  | append op header body kind _ _ => exact htend.submit n op header body kind hn
  | release op => exact htend.releaseDeferredAppend n op hn
  | truncate above =>
    unfold truncateAbsorbing truncateWal
    split
    · exact hn
    · exact htend.absorbWalCancellations _ _ (hn.sublist filter_sublist)
  | prune below =>
    unfold pruneAbsorbing pruneWal
    split
    · exact hn
    · exact htend.absorbWalCancellations _ _ (hn.sublist filter_sublist)
  | gc floor _ =>
    refine htend.absorbWalCancellations _ _ (htend.dropSubsumedAppends _ _ ?_)
    unfold pruneWal
    split
    · exact hn
    · exact hn.sublist filter_sublist
  | nack gap => exact htend.edit n _ _ n.appending hn

theorem Moves.booked {n n' : Node S} (h : Moves K n n') : n.face.Booked → n'.face.Booked :=
  h.invariant (P := fun m => m.face.Booked) fun _ _ hm => hm.booked

/-- What is parked stays woken through every move, unless a replica appends after it has left its
configuration. -/
theorem Move.parking {n n' : Node S} (h : Move K n n') (hK : ¬ K.late)
    (hn : n.face.Parking X slack) : n'.face.Parking X slack := by
  cases h with
  | quiet h =>
    rw [h]
    exact hn
  | mint h =>
    rw [h]
    exact hn.of_eq ⟨rfl, rfl, rfl, rfl, Nat.le_succ _, rfl⟩ rfl rfl rfl
  | post hp h =>
    rw [h]
    exact hn.of_kin ⟨rfl, rfl, rfl, rfl, le_refl _, hp.incarnation_eq⟩ (fun _ _ => id)
      hp.alive .inl
  | status s hs h =>
    rw [h]
    exact hn.of_kin ⟨rfl, rfl, rfl, rfl, le_refl _, rfl⟩ (fun _ _ => id) id
      fun hret => absurd hret hs
  | restore _ _ _ _ h | log _ h | settle _ h | checkpoint _ _ h =>
    rw [h]
    exact hn.of_eq ⟨rfl, rfl, rfl, rfl, le_refl _, rfl⟩ rfl rfl rfl
  | append op header body kind _ hlate =>
    exact submitOrDeferAppend_parking hn (fun hret => hK (hlate hret)) op header body kind
  | release op =>
    exact (releaseDeferredAppend_parking hn op fun _ => .inl).mono (fun _ => id) False.elim
  | truncate above => exact truncateAbsorbing_parking hn above
  | prune below => exact pruneAbsorbing_parking hn below
  | gc floor _ => exact gcAbsorbing_parking hn floor
  | nack gap => exact nackTruncated_parking hn gap
  | clear h | retire _ h =>
    rw [h]
    exact hn.of_kin ⟨rfl, rfl, rfl, rfl, le_refl _, rfl⟩ nofun id fun _ => .inr rfl

theorem Moves.parking {n n' : Node S} (h : Moves K n n') (hK : ¬ K.late)
    (hn : n.face.Parking X slack) : n'.face.Parking X slack :=
  h.invariant (P := fun m => m.face.Parking X slack) (fun _ _ hm => hm.parking hK) hn

end Node

end Viewstamp
