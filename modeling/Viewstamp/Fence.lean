import Mathlib.Data.Finset.Card
import Viewstamp.Storage

/- The ledger of appends in flight, and the backend under it.

   `AppendLedger` is the session's own bookkeeping: the writes that have not finished
   and, as a second witness, the slots they occupy. An assertion that fails is `none`.
   `AppendSession` adds the backend: the writes it was handed, those whose bytes have reached
   their slot, and what the slots hold. Which write lands, completes or is cancelled
   when is the backend's choice; `Conforms` is its contract, that every write it was
   handed ends once. Endpoints come and go above the session; all they bring to it is
   a fresh id for each write. -/
namespace Viewstamp

open List

/-! ## The ledger -/

structure AppendLedger where
  capacity : Nat
  walWrites : List (OpId × OpNumber) := []
  walSlots : Finset Nat := ∅
  appendQuota : Nat := 0
  deriving DecidableEq

namespace AppendLedger

variable {held : List WalWrite}

def canonicalSlot (l : AppendLedger) (op : OpNumber) : Nat :=
  if l.capacity = unboundedCapacity then op else op % l.capacity

def slotWriteInFlight (l : AppendLedger) (op : OpNumber) : Bool :=
  decide (l.canonicalSlot op ∈ l.walSlots)

/-- `append_quota`: fixed at the first append, derived from the root until then. -/
def quota (l : AppendLedger) (checkpointOps : Nat) : Nat :=
  if l.appendQuota ≠ 0 then l.appendQuota else sessionAppendQuota checkpointOps

/-- Enter a write; an entry under the same id would be replaced. -/
def enter (l : AppendLedger) (id : OpId) (op : OpNumber) : AppendLedger :=
  { l with
    walWrites := l.walWrites.filter (fun x => x.1 ≠ id) ++ [(id, op)]
    walSlots := insert (l.canonicalSlot op) l.walSlots }

def submitAppend (l : AppendLedger) (checkpointOps : Nat) (id : OpId) (op : OpNumber) :
    Option (AppendLedger × AppendSubmission) :=
  if l.slotWriteInFlight op then some (l, .slotFenced)
  else
    let l := { l with appendQuota := l.quota checkpointOps }
    if l.appendQuota ≤ l.walWrites.length then some (l, .quotaExhausted)
    -- the assertion that the slot of an admitted append was vacant
    else if l.canonicalSlot op ∈ l.walSlots then none
    else some (l.enter id op, .submitted)

/-- `retire_wal_write`: the only way out of the ledger; the op whose slot it frees. -/
def retireWalWrite (l : AppendLedger) (id : OpId) : Option (AppendLedger × Option OpNumber) :=
  match l.walWrites.find? fun x => x.1 = id with
  | none => some (l, none)
  | some (_, op) =>
    -- the assertion that the slot of a retiring append was occupied
    if l.canonicalSlot op ∈ l.walSlots then
      some ({ l with
        walWrites := l.walWrites.filter fun x => x.1 ≠ id
        walSlots := l.walSlots.erase (l.canonicalSlot op) }, some op)
    else none

/-- Every cancellation names a write of the ledger, or the session stops. -/
def settleCancellations (l : AppendLedger) : List OpId →
    Option (AppendLedger × List (OpId × OpNumber))
  | [] => some (l, [])
  | id :: ids =>
    match l.retireWalWrite id with
    | some (l, some op) => (l.settleCancellations ids).map fun r => (r.1, (id, op) :: r.2)
    | _ => none

def pollWal (l : AppendLedger) (done : WalDone) : Option (AppendLedger × Option OpNumber) :=
  match done with
  | .appended id | .cancelled id => l.retireWalWrite id
  | _ => some (l, none)

/-! ### A ledger that lists the writes in flight -/

/-- The ledger lists exactly the writes `held`, under distinct ids and for distinct slots. -/
structure Lists (l : AppendLedger) (held : List WalWrite) : Prop where
  writes : l.walWrites = held.map fun w => (w.id, w.op)
  slots : l.walSlots = (held.map fun w => l.canonicalSlot w.op).toFinset
  apart : (held.map fun w => l.canonicalSlot w.op).Nodup
  ids : (held.map (·.id)).Nodup

/-- What a step of the ledger leaves alone. -/
structure Same (l l' : AppendLedger) : Prop where
  capacity : l'.capacity = l.capacity
  quota : l'.appendQuota = l.appendQuota

theorem Same.canonicalSlot {l l' : AppendLedger} (h : Same l l') (op : OpNumber) :
    l'.canonicalSlot op = l.canonicalSlot op := by
  unfold AppendLedger.canonicalSlot
  rw [h.capacity]

variable {l : AppendLedger}

theorem Lists.find (h : Lists l held) {w : WalWrite} (hw : w ∈ held) :
    l.walWrites.find? (fun x => x.1 = w.id) = some (w.id, w.op) := by
  rw [h.writes, find?_map]
  have hids := h.ids
  clear h
  induction held with
  | nil => cases hw
  | cons x held ih =>
    rw [map_cons, nodup_cons] at hids
    rcases mem_cons.mp hw with rfl | hw
    · simp
    · have hne : x.id ≠ w.id := fun heq => hids.1 (heq ▸ mem_map_of_mem hw)
      rw [find?_cons_of_neg (by simpa using hne)]
      exact ih hw hids.2

/-- A listed write can be retired; the others stay listed. -/
theorem Lists.retire (h : Lists l held) {w : WalWrite}
    (hw : w ∈ held) : ∃ l', l.retireWalWrite w.id = some (l', some w.op) ∧ Same l l' ∧
      Lists l' (held.filter fun x => decide (x.id ≠ w.id)) := by
  have hslot : l.canonicalSlot w.op ∈ l.walSlots := by
    rw [h.slots, mem_toFinset]
    exact mem_map_of_mem hw
  have hretire : l.retireWalWrite w.id = some ({ l with
      walWrites := l.walWrites.filter fun x => x.1 ≠ w.id
      walSlots := l.walSlots.erase (l.canonicalSlot w.op) }, some w.op) := by
    unfold retireWalWrite
    rw [h.find hw]
    exact if_pos hslot
  refine ⟨_, hretire, ⟨rfl, rfl⟩, ?_⟩
  have hsub : (held.filter fun x => decide (x.id ≠ w.id)).Sublist held := filter_sublist
  constructor
  case writes =>
    show l.walWrites.filter _ = _
    rw [h.writes, filter_map]
    rfl
  case slots =>
    show l.walSlots.erase (l.canonicalSlot w.op) = _
    rw [h.slots]
    ext k
    simp only [Finset.mem_erase, mem_toFinset, mem_map, mem_filter,
      decide_eq_true_eq]
    constructor
    · rintro ⟨hk, x, hx, rfl⟩
      exact ⟨x, ⟨hx, fun heq => hk (congrArg (fun w : WalWrite => l.canonicalSlot w.op)
        (inj_on_of_nodup_map h.ids hx hw heq))⟩, rfl⟩
    · rintro ⟨x, ⟨hx, hne⟩, rfl⟩
      refine ⟨fun heq => hne ?_, x, hx, rfl⟩
      exact congrArg WalWrite.id (inj_on_of_nodup_map h.apart hx hw heq)
  case apart => exact h.apart.sublist (hsub.map _)
  case ids => exact h.ids.sublist (hsub.map _)

/-- Distinct listed writes can all be cancelled. -/
theorem Lists.settle : ∀ {ids : List OpId} {l : AppendLedger} {held : List WalWrite},
    Lists l held → ids.Nodup → (∀ id ∈ ids, ∃ w ∈ held, w.id = id) →
    ∃ l' settled, l.settleCancellations ids = some (l', settled) ∧ Same l l' ∧
      Lists l' (held.filter fun x => decide (x.id ∉ ids))
  | [], l, held, h, _, _ => by
    refine ⟨l, [], rfl, ⟨rfl, rfl⟩, ?_⟩
    rw [filter_eq_self.mpr (by simp)]
    exact h
  | id :: ids, l, held, h, hnodup, hheld => by
    obtain ⟨hid, hids⟩ := nodup_cons.mp hnodup
    obtain ⟨w, hw, rfl⟩ := hheld id mem_cons_self
    obtain ⟨l1, hretire, hsame, hlists⟩ := h.retire hw
    have hrest : ∀ id ∈ ids, ∃ x ∈ held.filter (fun x => decide (x.id ≠ w.id)), x.id = id := by
      intro id hmem
      obtain ⟨x, hx, rfl⟩ := hheld id (mem_cons_of_mem _ hmem)
      exact ⟨x, mem_filter.mpr ⟨hx, decide_eq_true fun heq => hid (heq ▸ hmem)⟩, rfl⟩
    obtain ⟨l2, settled, hsettle, hsame', hlists'⟩ := hlists.settle hids hrest
    refine ⟨l2, (w.id, w.op) :: settled, ?_, ⟨hsame'.capacity.trans hsame.capacity,
      hsame'.quota.trans hsame.quota⟩, ?_⟩
    · rw [settleCancellations, hretire]
      dsimp only
      rw [hsettle]
      rfl
    · have hfilter :
          (held.filter fun x => decide (x.id ≠ w.id)).filter (fun x => decide (x.id ∉ ids))
            = held.filter fun x => decide (x.id ∉ w.id :: ids) := by
        rw [filter_filter]
        refine filter_congr fun x _ => ?_
        grind
      exact hfilter ▸ hlists'

/-- A write with a new id is refused, or listed for a slot of its own. -/
theorem Lists.submit (h : Lists l held)
    (checkpointOps : Nat) (w : WalWrite) (hfresh : ∀ x ∈ held, x.id ≠ w.id) :
    (∃ verdict, verdict ≠ .submitted ∧
      (l.submitAppend checkpointOps w.id w.op = some (l, verdict) ∨
        l.submitAppend checkpointOps w.id w.op
          = some ({ l with appendQuota := l.quota checkpointOps }, verdict))) ∨
    ∃ l', l.submitAppend checkpointOps w.id w.op = some (l', .submitted) ∧
      l'.capacity = l.capacity ∧ l'.appendQuota = l.quota checkpointOps ∧
      held.length < l'.appendQuota ∧ Lists l' (held ++ [w]) ∧
      ∀ x ∈ held, l.canonicalSlot x.op ≠ l.canonicalSlot w.op := by
  unfold submitAppend
  by_cases hfenced : l.slotWriteInFlight w.op = true
  · exact .inl ⟨.slotFenced, nofun, .inl (by rw [if_pos hfenced])⟩
  rw [if_neg hfenced]
  dsimp only
  by_cases hquota : l.quota checkpointOps ≤ l.walWrites.length
  · exact .inl ⟨.quotaExhausted, nofun, .inr (by rw [if_pos hquota])⟩
  rw [if_neg hquota]
  have hvacant : l.canonicalSlot w.op ∉ l.walSlots := by
    simpa [slotWriteInFlight] using hfenced
  have hapart : ∀ x ∈ held, l.canonicalSlot x.op ≠ l.canonicalSlot w.op := by
    intro x hx heq
    refine hvacant ?_
    rw [h.slots, mem_toFinset, ← heq]
    exact mem_map_of_mem hx
  have hkept : l.walWrites.filter (fun x => decide (x.1 ≠ w.id)) = l.walWrites := by
    rw [filter_eq_self, h.writes]
    intro x hx
    obtain ⟨y, hy, rfl⟩ := mem_map.mp hx
    exact decide_eq_true (hfresh y hy)
  refine .inr ⟨_, if_neg hvacant, rfl, rfl, ?_, ?_, hapart⟩
  · rw [h.writes, length_map] at hquota
    exact Nat.lt_of_not_le hquota
  · constructor
    case writes =>
      show l.walWrites.filter _ ++ [(w.id, w.op)] = _
      rw [hkept, h.writes, map_append]
      rfl
    case slots =>
      show insert (l.canonicalSlot w.op) l.walSlots = _
      rw [h.slots, map_append, toFinset_append, Finset.union_comm]
      rfl
    case apart =>
      rw [map_append]
      refine nodup_append.mpr ⟨h.apart, nodup_singleton _, ?_⟩
      rintro a ha b hb rfl
      obtain ⟨x, hx, rfl⟩ := mem_map.mp ha
      exact hapart x hx (mem_singleton.mp hb)
    case ids =>
      rw [map_append]
      refine nodup_append.mpr ⟨h.ids, nodup_singleton _, ?_⟩
      rintro a ha b hb rfl
      obtain ⟨x, hx, rfl⟩ := mem_map.mp ha
      exact hfresh x hx (mem_singleton.mp hb)

end AppendLedger

/-! ## The session over a backend -/

structure AppendSession where
  ledger : AppendLedger
  /-- The checkpoint interval the landed root records. -/
  checkpointOps : Nat
  /-- The live endpoint: its incarnation and the next number it mints. -/
  incarnation : Nat
  nextSeq : Nat
  /-- The writes the backend was handed and has not reported yet. -/
  held : List WalWrite := []
  /-- The write whose bytes each slot holds. -/
  slots : OrdMap Nat WalWrite := .empty
  -- histories: the writes handed over, newest first, those whose bytes have landed, those
  -- reported as completed or cancelled, and those a truncation or a prune has released
  submitted : List WalWrite := []
  landed : List OpId := []
  completed : List OpId := []
  cancelled : List OpId := []
  released : List OpId := []

inductive AppendEvent where
  | submit (skip : Nat) (op : OpNumber) (header : Header) (body : Bytes)
  /-- The bytes of a write reach its slot. -/
  | land (id : OpId)
  | poll (done : WalDone)
  | truncate (above : OpNumber) (cancels : List OpId)
  | prune (below : OpNumber) (cancels : List OpId)
  /-- A new endpoint takes over the session. -/
  | rebuild (skip : Nat)
  | root (checkpointOps : Nat)

namespace AppendSession

def start (capacity checkpointOps incarnation : Nat) : AppendSession :=
  { ledger := { capacity }, checkpointOps, incarnation, nextSeq := 1 }

def slotOf (s : AppendSession) (w : WalWrite) : Nat := s.ledger.canonicalSlot w.op

def submit (s : AppendSession) (skip : Nat) (op : OpNumber) (header : Header) (body : Bytes) :
    Option AppendSession :=
  let id : OpId := ⟨s.incarnation, s.nextSeq + skip⟩
  let s := { s with nextSeq := s.nextSeq + skip + 1 }
  match s.ledger.submitAppend s.checkpointOps id op with
  | none => none
  | some (ledger, .submitted) =>
    some { s with
      ledger
      held := s.held ++ [⟨id, op, header, body⟩]
      submitted := ⟨id, op, header, body⟩ :: s.submitted }
  | some (ledger, _) => some { s with ledger }

def land (s : AppendSession) (id : OpId) : AppendSession :=
  match s.held.find? fun w => w.id = id with
  | none => s
  | some w =>
    { s with slots := s.slots.insert (s.slotOf w) w, landed := id :: s.landed }

/-- The backend forgets the writes it has reported. -/
def forget (s : AppendSession) (ids : List OpId) : List WalWrite :=
  s.held.filter fun w => w.id ∉ ids

def poll (s : AppendSession) (done : WalDone) : Option AppendSession :=
  match s.ledger.pollWal done with
  | none => none
  | some (ledger, _) =>
    match done with
    | .appended id => some { s with ledger, held := s.forget [id], completed := id :: s.completed }
    | .cancelled id => some { s with ledger, held := s.forget [id], cancelled := id :: s.cancelled }
    | _ => some { s with ledger }

/-- Release the ops in `p`: their slots are dropped and the reported cancellations settled. -/
def release (s : AppendSession) (p : OpNumber → Bool) (cancels : List OpId) :
    Option AppendSession :=
  match s.ledger.settleCancellations cancels with
  | none => none
  | some (ledger, _) =>
    some { s with
      ledger
      held := s.forget cancels
      slots := s.slots.filter fun _ w => !p w.op
      cancelled := cancels ++ s.cancelled
      released := (s.submitted.filter fun w => p w.op).map (·.id) ++ s.released }

def step (s : AppendSession) : AppendEvent → Option AppendSession
  | .submit skip op header body => s.submit skip op header body
  | .land id => some (s.land id)
  | .poll done => s.poll done
  | .truncate above cancels => s.release (fun op => decide (above < op)) cancels
  | .prune below cancels => s.release (fun op => decide (op < below)) cancels
  | .rebuild skip => some { s with incarnation := s.incarnation + skip + 1, nextSeq := 1 }
  | .root checkpointOps => some { s with checkpointOps }

/-- A write the backend holds whose bytes have not landed, so that it can still be discarded. -/
def Queued (s : AppendSession) (id : OpId) : Prop := (∃ w ∈ s.held, w.id = id) ∧ id ∉ s.landed

/-- The backend's contract: it completes a write it holds once its bytes have landed, cancels one
it holds before, and reports each once. -/
def Conforms (s : AppendSession) : AppendEvent → Prop
  | .poll (.appended id) => (∃ w ∈ s.held, w.id = id) ∧ id ∈ s.landed
  | .poll (.cancelled id) => s.Queued id
  | .truncate _ cancels | .prune _ cancels => cancels.Nodup ∧ ∀ id ∈ cancels, s.Queued id
  | _ => True

/-- Every sequence of events over a backend that keeps its contract. -/
inductive Reach : AppendSession → Prop where
  | start (capacity checkpointOps incarnation : Nat) :
    Reach (start capacity checkpointOps incarnation)
  | step {s s' : AppendSession} {e : AppendEvent} (reach : Reach s) (conforms : s.Conforms e)
    (step : s.step e = some s') : Reach s'

/-- The last write handed over for a slot that was not cancelled. -/
def lastWrite (s : AppendSession) (slot : Nat) : Option WalWrite :=
  s.submitted.find? fun w => decide (s.slotOf w = slot ∧ w.id ∉ s.cancelled)

/-! ## The invariant -/

/-- An id the live endpoint or an earlier one has minted. -/
def Minted (s : AppendSession) (id : OpId) : Prop :=
  id.incarnation < s.incarnation ∨ id.incarnation = s.incarnation ∧ id.seq < s.nextSeq

structure Inv (s : AppendSession) : Prop where
  /-- The ledger lists the writes the backend holds. -/
  ledger : s.ledger.Lists s.held
  quota : s.held.length ≤ s.ledger.appendQuota
  minted : ∀ w ∈ s.submitted, s.Minted w.id
  unique : ∀ w ∈ s.submitted, ∀ x ∈ s.submitted, w.id = x.id → w = x
  /-- A write the backend holds is the newest one for its slot. -/
  newest : ∀ w ∈ s.held, s.submitted.find? (fun x => decide (s.slotOf x = s.slotOf w)) = some w
  held : ∀ w ∈ s.submitted, w ∈ s.held ↔ w.id ∉ s.completed ∧ w.id ∉ s.cancelled
  /-- What completed has landed, and nothing cancelled has. -/
  landed : ∀ id ∈ s.completed, id ∈ s.landed
  discarded : ∀ id ∈ s.landed, id ∉ s.cancelled
  known : ∀ id, id ∈ s.landed ∨ id ∈ s.cancelled → ∃ w ∈ s.submitted, w.id = id
  /-- A slot holds the newest write for it that has landed, unless that one was released. -/
  content : ∀ slot, match s.submitted.find?
      (fun w => decide (s.slotOf w = slot ∧ w.id ∈ s.landed)) with
    | none => s.slots.get? slot = none
    | some w => s.slots.get? slot = some w ∨ w.id ∈ s.released ∧ s.slots.get? slot = none

theorem Inv.start (capacity checkpointOps incarnation : Nat) :
    Inv (start capacity checkpointOps incarnation) where
  ledger := ⟨rfl, rfl, nodup_nil, nodup_nil⟩
  quota := Nat.zero_le _
  minted := nofun
  unique := nofun
  newest := nofun
  held := nofun
  landed := nofun
  discarded := nofun
  known := fun _ h => by rcases h with h | h <;> cases h
  content := fun _ => rfl

variable {s : AppendSession}

theorem Inv.mem_submitted (h : Inv s) {w : WalWrite} (hw : w ∈ s.held) :
    w ∈ s.submitted := mem_of_find?_eq_some (h.newest w hw)

/-- A number is minted once. -/
theorem Inv.fresh (h : Inv s) (skip : Nat) :
    ∀ w ∈ s.submitted, w.id ≠ ⟨s.incarnation, s.nextSeq + skip⟩ := by
  intro w hw heq
  have hminted := h.minted w hw
  rw [heq] at hminted
  rcases hminted with hlt | ⟨-, hlt⟩
  · exact Nat.lt_irrefl _ hlt
  · exact absurd hlt (Nat.not_lt.mpr (Nat.le_add_right _ _))

/-! ### Steps -/

/-- The first element that meets `p` is the first that meets a stronger `q` it meets too. -/
theorem find?_of_imp {α : Type} {p q : α → Bool} {w : α} : ∀ {l : List α}, l.find? p = some w →
    q w = true → (∀ x ∈ l, q x = true → p x = true) → l.find? q = some w
  | [], h, _, _ => by cases h
  | x :: l, h, hq, himp => by
    by_cases hp : p x = true
    · rw [find?_cons_of_pos hp] at h
      cases h
      exact find?_cons_of_pos hq
    · rw [find?_cons_of_neg hp] at h
      rw [find?_cons_of_neg fun hx => hp (himp x mem_cons_self hx)]
      exact find?_of_imp h hq fun y hy => himp y (mem_cons_of_mem _ hy)

theorem find?_congr {α : Type} {p q : α → Bool} : ∀ {l : List α}, (∀ x ∈ l, p x = q x) →
    l.find? p = l.find? q
  | [], _ => rfl
  | x :: l, h => by
    rw [find?_cons, find?_cons, h x mem_cons_self,
      find?_congr fun y hy => h y (mem_cons_of_mem _ hy)]

/-- The endpoint moves on and a refused append changes no more than the fixed quota. -/
theorem Inv.refused (h : Inv s) {incarnation nextSeq checkpointOps quota : Nat}
    (hmint : ∀ id, s.Minted id → id.incarnation < incarnation ∨
      id.incarnation = incarnation ∧ id.seq < nextSeq)
    (hquota : s.ledger.appendQuota ≤ quota) :
    Inv { s with
      incarnation, nextSeq, checkpointOps
      ledger := { s.ledger with appendQuota := quota } } where
  ledger := ⟨h.ledger.writes, h.ledger.slots, h.ledger.apart, h.ledger.ids⟩
  quota := h.quota.trans hquota
  minted := fun w hw => hmint _ (h.minted w hw)
  unique := h.unique
  newest := h.newest
  held := h.held
  landed := h.landed
  discarded := h.discarded
  known := h.known
  content := h.content

variable {l : AppendLedger}

/-- A new write goes to a slot no write in flight is for. -/
theorem Inv.handed (h : Inv s) {w : WalWrite}
    {nextSeq : Nat} (hcapacity : l.capacity = s.ledger.capacity)
    (hlists : l.Lists (s.held ++ [w])) (hroom : s.held.length < l.appendQuota)
    (hapart : ∀ x ∈ s.held, s.slotOf x ≠ s.slotOf w)
    (hfresh : ∀ x ∈ s.submitted, x.id ≠ w.id)
    (hmint : ∀ id, s.Minted id → id.incarnation < s.incarnation ∨
      id.incarnation = s.incarnation ∧ id.seq < nextSeq)
    (hown : w.id.incarnation = s.incarnation ∧ w.id.seq < nextSeq) :
    Inv { s with
      nextSeq, ledger := l, held := s.held ++ [w], submitted := w :: s.submitted } := by
  have hslot (x : WalWrite) : l.canonicalSlot x.op = s.slotOf x := by
    unfold slotOf AppendLedger.canonicalSlot
    rw [hcapacity]
  have hunseen (id : OpId) (hid : id ∈ s.landed ∨ id ∈ s.cancelled) : id ≠ w.id := by
    obtain ⟨x, hx, rfl⟩ := h.known id hid
    exact hfresh x hx
  have hopen : w.id ∉ s.completed ∧ w.id ∉ s.cancelled :=
    ⟨fun hc => hunseen _ (.inl (h.landed _ hc)) rfl, fun hc => hunseen _ (.inr hc) rfl⟩
  constructor
  case ledger => exact hlists
  case quota =>
    show (s.held ++ [w]).length ≤ l.appendQuota
    rw [length_append]
    exact hroom
  case minted =>
    intro x hx
    rcases mem_cons.mp hx with rfl | hx
    · exact .inr hown
    · exact hmint _ (h.minted x hx)
  case unique =>
    intro x hx y hy heq
    rcases mem_cons.mp hx with hxw | hx' <;> rcases mem_cons.mp hy with hyw | hy'
    · rw [hxw, hyw]
    · exact absurd (hxw ▸ heq.symm) (hfresh y hy')
    · exact absurd (hyw ▸ heq) (hfresh x hx')
    · exact h.unique x hx' y hy' heq
  case newest =>
    intro x hx
    show (w :: s.submitted).find?
      (fun y => decide (l.canonicalSlot y.op = l.canonicalSlot x.op)) = some x
    simp only [hslot]
    rcases mem_append.mp hx with hx | hx
    · rw [find?_cons_of_neg (by simpa using fun heq => hapart x hx heq.symm)]
      exact h.newest x hx
    · rw [mem_singleton.mp hx]
      exact find?_cons_of_pos (by simp)
  case held =>
    intro x hx
    show x ∈ s.held ++ [w] ↔ _
    rw [mem_append, mem_singleton]
    rcases mem_cons.mp hx with rfl | hx
    · exact ⟨fun _ => hopen, fun _ => .inr rfl⟩
    · rw [← h.held x hx]
      refine ⟨fun hmem => hmem.resolve_right fun heq => hfresh x hx (heq ▸ rfl), .inl⟩
  case landed => exact h.landed
  case discarded => exact h.discarded
  case known =>
    intro id hid
    obtain ⟨x, hx, hxid⟩ := h.known id hid
    exact ⟨x, mem_cons_of_mem _ hx, hxid⟩
  case content =>
    intro slot
    show match (w :: s.submitted).find?
      (fun y => decide (l.canonicalSlot y.op = slot ∧ y.id ∈ s.landed)) with
      | none => s.slots.get? slot = none
      | some y => s.slots.get? slot = some y ∨ y.id ∈ s.released ∧ s.slots.get? slot = none
    simp only [hslot]
    rw [find?_cons_of_neg (by
      simpa using fun _ hl => hunseen _ (.inl hl) rfl)]
    exact h.content slot

theorem Inv.submit (h : Inv s) (skip : Nat) (op : OpNumber) (header : Header) (body : Bytes) :
    ∃ s', s.submit skip op header body = some s' ∧ Inv s' := by
  have hmint : ∀ id, s.Minted id → id.incarnation < s.incarnation ∨
      id.incarnation = s.incarnation ∧ id.seq < s.nextSeq + skip + 1 := by
    rintro id (hlt | ⟨heq, hlt⟩)
    · exact .inl hlt
    · exact .inr ⟨heq, by omega⟩
  have hfresh := h.fresh skip
  rcases h.ledger.submit s.checkpointOps ⟨⟨s.incarnation, s.nextSeq + skip⟩, op, header, body⟩
      (fun x hx => hfresh x (h.mem_submitted hx)) with
    ⟨verdict, hverdict, hsubmit | hsubmit⟩ | ⟨l, hsubmit, hcapacity, -, hroom, hlists, hapart⟩
  · unfold AppendSession.submit
    dsimp only at hsubmit ⊢
    rw [hsubmit]
    refine ⟨{ s with nextSeq := s.nextSeq + skip + 1 }, ?_, h.refused hmint (Nat.le_refl _)⟩
    cases verdict with
    | submitted => exact absurd rfl hverdict
    | slotFenced | quotaExhausted => rfl
  · unfold AppendSession.submit
    dsimp only at hsubmit ⊢
    rw [hsubmit]
    have hquota : s.ledger.appendQuota ≤ s.ledger.quota s.checkpointOps := by
      unfold AppendLedger.quota
      split
      · exact Nat.le_refl _
      · rename_i hzero
        rw [not_not.mp hzero]
        exact Nat.zero_le _
    refine ⟨{ s with
      nextSeq := s.nextSeq + skip + 1
      ledger := { s.ledger with appendQuota := s.ledger.quota s.checkpointOps } }, ?_,
      h.refused hmint hquota⟩
    cases verdict with
    | submitted => exact absurd rfl hverdict
    | slotFenced | quotaExhausted => rfl
  · unfold AppendSession.submit
    dsimp only at hsubmit ⊢
    rw [hsubmit]
    exact ⟨_, rfl, h.handed hcapacity hlists hroom hapart hfresh hmint
      ⟨rfl, Nat.lt_succ_self _⟩⟩

/-- The bytes of a write in flight land over older ones. -/
theorem Inv.land (h : Inv s) (id : OpId) : Inv (s.land id) := by
  unfold AppendSession.land
  split
  · exact h
  · rename_i w hfind
    have hw : w ∈ s.held := mem_of_find?_eq_some hfind
    have hid : w.id = id := by simpa using find?_some hfind
    have hsubmitted := h.mem_submitted hw
    constructor
    case ledger => exact h.ledger
    case quota => exact h.quota
    case minted => exact h.minted
    case unique => exact h.unique
    case newest => exact h.newest
    case held => exact h.held
    case landed => exact fun i hi => mem_cons_of_mem _ (h.landed i hi)
    case discarded =>
      intro i hi
      rcases mem_cons.mp hi with rfl | hi
      · exact hid ▸ ((h.held w hsubmitted).mp hw).2
      · exact h.discarded i hi
    case known =>
      rintro i (hi | hi)
      · rcases mem_cons.mp hi with rfl | hi
        · exact ⟨w, hsubmitted, hid⟩
        · exact h.known i (.inl hi)
      · exact h.known i (.inr hi)
    case content =>
      intro slot
      show match s.submitted.find?
        (fun x => decide (s.slotOf x = slot ∧ x.id ∈ id :: s.landed)) with
        | none => (s.slots.insert (s.slotOf w) w).get? slot = none
        | some x => (s.slots.insert (s.slotOf w) w).get? slot = some x ∨
          x.id ∈ s.released ∧ (s.slots.insert (s.slotOf w) w).get? slot = none
      by_cases hslot : slot = s.slotOf w
      · subst hslot
        rw [find?_of_imp (h.newest w hw) (by simp [hid]) (fun x _ hx => by
          simp only [decide_eq_true_eq] at hx ⊢
          exact hx.1)]
        exact .inl (OrdMap.get?_insert_self _ _ _)
      · rw [OrdMap.get?_insert_of_ne _ _ hslot]
        have hsame : s.submitted.find? (fun x => decide (s.slotOf x = slot ∧ x.id ∈ id :: s.landed))
            = s.submitted.find? (fun x => decide (s.slotOf x = slot ∧ x.id ∈ s.landed)) := by
          refine find?_congr fun x hx => ?_
          have : s.slotOf x = slot → x.id ≠ id := by
            intro hxslot heq
            have := h.unique x hx w hsubmitted (heq.trans hid.symm)
            exact hslot (hxslot.symm.trans (this ▸ rfl))
          simp only [mem_cons]
          grind
        rw [hsame]
        exact h.content slot

/-- Writes leave the books when the backend reports them: as completed once they have landed, as
cancelled before. Slots of released ops are dropped at the same time. -/
theorem Inv.reported (h : Inv s) {ids completed cancelled : List OpId} (p : OpNumber → Bool)
    (hsame : s.ledger.Same l)
    (hlists : l.Lists (s.forget ids))
    (hcompleted : ∀ id ∈ completed, id ∈ s.landed ∧ id ∈ ids)
    (hcancelled : ∀ id ∈ cancelled, id ∉ s.landed ∧ id ∈ ids)
    (hreported : ∀ id ∈ ids, id ∈ completed ∨ id ∈ cancelled)
    (hheld : ∀ id ∈ ids, ∃ w ∈ s.held, w.id = id) :
    Inv { s with
      ledger := l
      held := s.forget ids
      completed := completed ++ s.completed
      cancelled := cancelled ++ s.cancelled
      slots := s.slots.filter fun _ w => !p w.op
      released := (s.submitted.filter fun w => p w.op).map (·.id) ++ s.released } := by
  have hslot (x : WalWrite) : l.canonicalSlot x.op = s.slotOf x := hsame.canonicalSlot x.op
  constructor
  case ledger => exact hlists
  case quota =>
    show (s.forget ids).length ≤ l.appendQuota
    rw [hsame.quota]
    exact (length_filter_le _ _).trans h.quota
  case minted => exact h.minted
  case unique => exact h.unique
  case newest =>
    intro x hx
    show s.submitted.find? (fun y => decide (l.canonicalSlot y.op = l.canonicalSlot x.op)) = some x
    simp only [hslot]
    exact h.newest x (mem_filter.mp hx).1
  case held =>
    intro x hx
    show x ∈ s.forget ids ↔ x.id ∉ completed ++ s.completed ∧ x.id ∉ cancelled ++ s.cancelled
    rw [forget, mem_filter, decide_eq_true_eq, h.held x hx, mem_append, mem_append]
    have hin : x.id ∈ ids ↔ x.id ∈ completed ∨ x.id ∈ cancelled :=
      ⟨hreported x.id,
        fun hr => hr.elim (fun hc => (hcompleted _ hc).2) fun hc => (hcancelled _ hc).2⟩
    rw [hin]
    tauto
  case landed =>
    intro id hid
    exact (mem_append.mp hid).elim (fun hc => (hcompleted id hc).1) (h.landed id)
  case discarded =>
    intro id hid hc
    exact (mem_append.mp hc).elim (fun hc => (hcancelled id hc).1 hid) (h.discarded id hid)
  case known =>
    rintro id (hid | hid)
    · exact h.known id (.inl hid)
    · rcases mem_append.mp hid with hc | hc
      · obtain ⟨w, hw, hwid⟩ := hheld id (hcancelled id hc).2
        exact ⟨w, h.mem_submitted hw, hwid⟩
      · exact h.known id (.inr hc)
  case content =>
    intro slot
    show match s.submitted.find?
      (fun y => decide (l.canonicalSlot y.op = slot ∧ y.id ∈ s.landed)) with
      | none => (s.slots.filter fun _ w => !p w.op).get? slot = none
      | some y => (s.slots.filter fun _ w => !p w.op).get? slot = some y ∨
        y.id ∈ (s.submitted.filter fun w => p w.op).map (·.id) ++ s.released ∧
          (s.slots.filter fun _ w => !p w.op).get? slot = none
    simp only [hslot, OrdMap.get?_filter]
    have hcontent := h.content slot
    split
    · rename_i hfind
      rw [hfind] at hcontent
      rw [show s.slots.get? slot = none from hcontent]
      rfl
    · rename_i w hfind
      rw [hfind] at hcontent
      rcases hcontent with hget | ⟨hreleased, hget⟩
      · rw [hget]
        by_cases hp : p w.op = true
        · refine .inr ⟨mem_append_left _ (mem_map_of_mem ?_), by simp [hp]⟩
          exact mem_filter.mpr ⟨mem_of_find?_eq_some hfind, hp⟩
        · exact .inl (by simp [hp])
      · rw [hget]
        exact .inr ⟨mem_append_right _ hreleased, rfl⟩

/-- A completion releases no op. -/
theorem Inv.reported_only (h : Inv s) {ids completed cancelled : List OpId}
    (hsame : s.ledger.Same l) (hlists : l.Lists (s.forget ids))
    (hcompleted : ∀ id ∈ completed, id ∈ s.landed ∧ id ∈ ids)
    (hcancelled : ∀ id ∈ cancelled, id ∉ s.landed ∧ id ∈ ids)
    (hreported : ∀ id ∈ ids, id ∈ completed ∨ id ∈ cancelled)
    (hheld : ∀ id ∈ ids, ∃ w ∈ s.held, w.id = id) :
    Inv { s with
      ledger := l
      held := s.forget ids
      completed := completed ++ s.completed
      cancelled := cancelled ++ s.cancelled } := by
  have hslots : (s.slots.filter fun _ _ => !false) = s.slots := by
    refine OrdMap.ext_get? fun k => ?_
    rw [OrdMap.get?_filter]
    cases s.slots.get? k <;> rfl
  have hnone : (s.submitted.filter fun _ => false).map (·.id) ++ s.released = s.released := by simp
  have := h.reported (fun _ => false) hsame hlists hcompleted hcancelled hreported hheld
  rwa [hslots, hnone] at this

theorem Inv.retire (h : Inv s) {id : OpId} (hw : ∃ w ∈ s.held, w.id = id) :
    ∃ l freed, s.ledger.retireWalWrite id = some (l, freed) ∧ s.ledger.Same l ∧
      l.Lists (s.forget [id]) := by
  obtain ⟨w, hmem, rfl⟩ := hw
  obtain ⟨l, hretire, hsame, hlists⟩ := h.ledger.retire hmem
  refine ⟨l, _, hretire, hsame, ?_⟩
  have hforget : s.forget [w.id] = s.held.filter fun x => decide (x.id ≠ w.id) := by
    refine filter_congr fun x _ => ?_
    simp
  rwa [hforget]

/-- A completion the contract allows retires its write. -/
theorem Inv.poll (h : Inv s) {done : WalDone} (hc : s.Conforms (.poll done)) :
    ∃ s', s.poll done = some s' ∧ Inv s' := by
  unfold AppendSession.poll AppendLedger.pollWal
  cases done with
  | appended id =>
    obtain ⟨hheld, hlanded⟩ := hc
    obtain ⟨l, freed, hretire, hsame, hlists⟩ := h.retire hheld
    dsimp only
    rw [hretire]
    refine ⟨_, rfl, h.reported_only hsame hlists (?_ : ∀ i ∈ [id], _)
      (nofun : ∀ i ∈ ([] : List OpId), _) ?_ ?_⟩
    · intro i hi
      rw [mem_singleton.mp hi]
      exact ⟨hlanded, mem_singleton_self _⟩
    · exact fun i hi => .inl hi
    · intro i hi
      rw [mem_singleton.mp hi]
      exact hheld
  | cancelled id =>
    obtain ⟨hheld, hlanded⟩ := hc
    obtain ⟨l, freed, hretire, hsame, hlists⟩ := h.retire hheld
    dsimp only
    rw [hretire]
    refine ⟨_, rfl, h.reported_only hsame hlists (nofun : ∀ i ∈ ([] : List OpId), _)
      (?_ : ∀ i ∈ [id], _) ?_ ?_⟩
    · intro i hi
      rw [mem_singleton.mp hi]
      exact ⟨hlanded, mem_singleton_self _⟩
    · exact fun i hi => .inr hi
    · intro i hi
      rw [mem_singleton.mp hi]
      exact hheld
  | readOk | absent | fault | bodyFaulty => exact ⟨s, rfl, h⟩

/-- A truncation or a prune settles what the backend cancelled. -/
theorem Inv.release (h : Inv s) (p : OpNumber → Bool) {cancels : List OpId} (hnodup : cancels.Nodup)
    (hqueued : ∀ id ∈ cancels, s.Queued id) : ∃ s', s.release p cancels = some s' ∧ Inv s' := by
  obtain ⟨l, settled, hsettle, hsame, hlists⟩ :=
    h.ledger.settle hnodup fun id hid => (hqueued id hid).1
  unfold AppendSession.release
  rw [hsettle]
  refine ⟨_, rfl, h.reported p hsame hlists (nofun : ∀ i ∈ ([] : List OpId), _) ?_ ?_ ?_⟩
  · exact fun id hid => ⟨(hqueued id hid).2, hid⟩
  · exact fun id hid => .inr hid
  · exact fun id hid => (hqueued id hid).1

/-- Whatever the backend may do, no assertion fails and the invariant is kept. -/
theorem Inv.step (h : Inv s) {e : AppendEvent} (hc : s.Conforms e) :
    ∃ s', s.step e = some s' ∧ Inv s' := by
  cases e with
  | submit skip op header body => exact h.submit skip op header body
  | land id => exact ⟨_, rfl, h.land id⟩
  | poll done => exact h.poll hc
  | truncate above cancels => exact h.release (fun op => decide (above < op)) hc.1 hc.2
  | prune below cancels => exact h.release (fun op => decide (op < below)) hc.1 hc.2
  | rebuild skip =>
    refine ⟨_, rfl, h.refused (fun id hid => .inl ?_) (Nat.le_refl _)⟩
    rcases hid with hlt | ⟨heq, -⟩
    · exact Nat.lt_succ_of_lt (Nat.lt_of_lt_of_le hlt (Nat.le_add_right _ _))
    · rw [heq]
      exact Nat.lt_succ_of_le (Nat.le_add_right _ _)
  | root checkpointOps => exact ⟨_, rfl, h.refused (fun _ hid => hid) (Nat.le_refl _)⟩

theorem Reach.inv (h : Reach s) : Inv s := by
  induction h with
  | start capacity checkpointOps incarnation => exact .start capacity checkpointOps incarnation
  | step _ hconforms hstep ih =>
    obtain ⟨s', hs', hinv⟩ := ih.step hconforms
    rw [hstep] at hs'
    cases hs'
    exact hinv

/-- With no write for a slot in flight, its newest write that was not cancelled has landed. -/
theorem Inv.lastWrite_eq (h : Inv s) {slot : Nat} (hidle : ∀ w ∈ s.held, s.slotOf w ≠ slot) :
    s.lastWrite slot = s.submitted.find? fun w => decide (s.slotOf w = slot ∧ w.id ∈ s.landed) := by
  refine find?_congr fun w hw => ?_
  by_cases hslot : s.slotOf w = slot
  · have hdone : w ∉ s.held := fun hheld => hidle w hheld hslot
    rw [h.held w hw] at hdone
    have hiff : w.id ∉ s.cancelled ↔ w.id ∈ s.landed :=
      ⟨fun hc => h.landed _ (by tauto), fun hl => h.discarded _ hl⟩
    simp only [hslot, hiff, true_and]
  · simp [hslot]

end AppendSession

/-- The append fence, over every sequence of events and a backend that reports each write it was
handed once. No two writes of the ledger are for one slot; they are within the quota; a write is in
the ledger from its submission until the backend reports it; no assertion fails; and a slot without
a write in flight holds the last write submitted to it that was not cancelled, or nothing when that
write was released. -/
theorem append_fence (s : AppendSession) (h : s.Reach) :
    (s.ledger.walWrites.map fun x => s.ledger.canonicalSlot x.2).Nodup ∧
    s.ledger.walWrites.length ≤ s.ledger.quota s.checkpointOps ∧
    (∀ id, (∃ op, (id, op) ∈ s.ledger.walWrites) ↔
      (∃ w ∈ s.submitted, w.id = id) ∧ id ∉ s.completed ∧ id ∉ s.cancelled) ∧
    (∀ e, s.Conforms e → (s.step e).isSome = true) ∧
    ∀ slot, (∀ x ∈ s.ledger.walWrites, s.ledger.canonicalSlot x.2 ≠ slot) →
      match s.lastWrite slot with
      | none => s.slots.get? slot = none
      | some w => s.slots.get? slot = some w ∨ w.id ∈ s.released ∧ s.slots.get? slot = none := by
  have hinv := h.inv
  refine ⟨?_, ?_, fun id => ?_, fun e he => ?_, fun slot hidle => ?_⟩
  · rw [hinv.ledger.writes, map_map]
    exact hinv.ledger.apart
  · rw [hinv.ledger.writes, length_map]
    refine hinv.quota.trans ?_
    unfold AppendLedger.quota
    split
    · exact Nat.le_refl _
    · rename_i hzero
      rw [not_not.mp hzero]
      exact Nat.zero_le _
  · rw [hinv.ledger.writes]
    constructor
    · rintro ⟨op, hmem⟩
      obtain ⟨w, hw, heq⟩ := mem_map.mp hmem
      cases heq
      have hsubmitted := hinv.mem_submitted hw
      exact ⟨⟨w, hsubmitted, rfl⟩, (hinv.held w hsubmitted).mp hw⟩
    · rintro ⟨⟨w, hw, rfl⟩, hopen⟩
      exact ⟨w.op, mem_map.mpr ⟨w, (hinv.held w hw).mpr hopen, rfl⟩⟩
  · obtain ⟨s', hs', -⟩ := hinv.step he
    rw [hs']
    rfl
  · have hslots : ∀ w ∈ s.held, s.slotOf w ≠ slot := by
      intro w hw
      refine hidle (w.id, w.op) ?_
      rw [hinv.ledger.writes]
      exact mem_map.mpr ⟨w, hw, rfl⟩
    rw [hinv.lastWrite_eq hslots]
    exact hinv.content slot

/-! ## A session of one write -/

namespace AppendSession

def run (s : AppendSession) : List AppendEvent → Option AppendSession
  | [] => some s
  | e :: es => (s.step e).bind (·.run es)

def firstSubmit : AppendEvent := .submit 0 1 (.ofBody 1 0 7 1 [9]) [9]

/-- A fresh endpoint's first append, and the session with its bytes landed. -/
def firstLanded : AppendSession :=
  ((start 4 1 1).run [firstSubmit, .land ⟨1, 1⟩]).get (by decide +kernel)

theorem reach_firstLanded : firstLanded.Reach := by
  have hsubmit : ((start 4 1 1).step firstSubmit).isSome = true := by decide +kernel
  have hreach : (((start 4 1 1).step firstSubmit).get hsubmit).Reach :=
    .step (e := firstSubmit) (.start 4 1 1) trivial (Option.some_get _).symm
  exact .step (e := .land ⟨1, 1⟩) hreach trivial rfl

end AppendSession

/-- The first append, landed and not yet reported: it is in the ledger and may complete. -/
theorem append_fence_first_write :
    AppendSession.firstLanded.ledger.walWrites = [(⟨1, 1⟩, 1)] ∧
    AppendSession.firstLanded.ledger.walWrites.length
      ≤ AppendSession.firstLanded.ledger.quota AppendSession.firstLanded.checkpointOps ∧
    (AppendSession.firstLanded.step (.poll (.appended ⟨1, 1⟩))).isSome = true := by
  have hfence := append_fence _ AppendSession.reach_firstLanded
  refine ⟨by decide +kernel, hfence.2.1, hfence.2.2.2.1 _ ?_⟩
  exact ⟨⟨⟨⟨1, 1⟩, 1, .ofBody 1 0 7 1 [9], [9]⟩, by decide +kernel, rfl⟩, by decide +kernel⟩

/-- A backend that reports a write it was handed a second time, as cancelled after its completion,
fails the assertion on cancellations; and a slot whose last write was cancelled keeps the bytes of
the write before. -/
theorem append_fence_outside_contract :
    (AppendSession.firstLanded.run [.poll (.appended ⟨1, 1⟩)]).isSome = true ∧
    (AppendSession.firstLanded.run [.poll (.appended ⟨1, 1⟩), .truncate 0 [⟨1, 1⟩]]).isNone = true ∧
    (AppendSession.firstLanded.run [.poll (.appended ⟨1, 1⟩),
        .submit 0 1 (.ofBody 1 0 7 2 [5]) [5], .poll (.cancelled ⟨1, 2⟩)]).map
      (fun s => (s.submitted.head?.map (·.body), s.ledger.walWrites, (s.slots.get? 1).map (·.body)))
      = some (some [5], [], some [9]) := by
  decide +kernel

/-! ## The storage of the node model -/

namespace Storage

/-- The ledger behind the writes a node's storage has in flight. -/
def ledger (s : Storage) : AppendLedger where
  capacity := s.capacity
  walWrites := s.walWrites.map fun w => (w.id, w.op)
  walSlots := (s.walWrites.map fun w => s.canonicalSlot w.op).toFinset
  appendQuota := s.appendQuota

theorem slotWriteInFlight_ledger (s : Storage) (op : OpNumber) :
    s.ledger.slotWriteInFlight op = s.slotWriteInFlight op := by
  rw [Bool.eq_iff_iff]
  simp only [AppendLedger.slotWriteInFlight, Media.slotWriteInFlight, decide_eq_true_eq,
    any_eq_true, beq_iff_eq, ledger, mem_toFinset, mem_map]
  rfl

/-- The node model's submission is the ledger's: the same verdict, and the ledger it leaves. -/
theorem submitAppend_ledger (s : Storage) {id : OpId} (op : OpNumber) (header : Header)
    (body : Bytes) (hfresh : ∀ w ∈ s.walWrites, w.id ≠ id) :
    s.ledger.submitAppend s.landed.checkpointOps id op = some
      ((s.submitAppend id op header body).1.ledger, (s.submitAppend id op header body).2) := by
  have hkept : (s.walWrites.map fun w => (w.id, w.op)).filter (fun x => decide (x.1 ≠ id))
      = s.walWrites.map fun w => (w.id, w.op) := by
    simpa [filter_eq_self] using hfresh
  unfold AppendLedger.submitAppend submitAppend
  rw [slotWriteInFlight_ledger]
  split
  · rfl
  · rename_i hopen
    have hvacant : s.ledger.canonicalSlot op ∉ s.ledger.walSlots := by
      simpa [← slotWriteInFlight_ledger, AppendLedger.slotWriteInFlight] using hopen
    have hquota : s.ledger.quota s.landed.checkpointOps = s.effectiveQuota := rfl
    have hlength : s.ledger.walWrites.length = s.walWrites.length := length_map _
    dsimp only
    rw [hquota, hlength]
    split
    · rfl
    · refine (if_neg hvacant).trans ?_
      simp only [AppendLedger.enter, ledger, hkept, map_append, toFinset_append, map_cons, map_nil,
        toFinset_cons, toFinset_nil, Finset.union_comm]
      rfl

end Storage

end Viewstamp
