import Mathlib.Tactic.Linarith
import Viewstamp.Aggregate.Progress

/- What a packed body meets in `Handle::submit`.

   The size half is arithmetic over two checks: what the queue admits alone, and
   what the open body takes on top. The budget half is about the driver, which
   answers a body in two steps (`answer` or `dropReply`, then `releaseOwed`): in
   between the pump may go on to its next body while the last one's reservation
   still counts. A cap with room for two bodies hides that, a tight one does not. -/
namespace Viewstamp

open List

variable {xs : List Submitted} {i : Nat} {h : Handle} {owes : Option Nat}

/-! ## The driver's side of a body -/

namespace Submitted

/-- The driver does not see whether the pump has taken the verdict. -/
def unsettle (x : Submitted) : Submitted := { x with settled := false }

/-- The reservation counts against the caps. -/
def held (x : Submitted) : Bool := x.accepted && !x.released

def heldCount (x : Submitted) : Nat := if x.held then 1 else 0
def heldBytes (x : Submitted) : Nat := if x.held then x.body.length else 0

/-- The command of the body is still in the channel. -/
def queuedCount (x : Submitted) : Nat := if x.accepted && !x.received then 1 else 0

variable {x : Submitted}

theorem heldCount_of_held (h : x.held = true) : x.heldCount = 1 := if_pos h

theorem heldCount_of_free (h : x.held = false) : x.heldCount = 0 := by
  simp [heldCount, h]

theorem heldBytes_of_held (h : x.held = true) : x.heldBytes = x.body.length := if_pos h

theorem heldBytes_of_free (h : x.held = false) : x.heldBytes = 0 := by
  simp [heldBytes, h]

theorem held_released (x : Submitted) : ({ x with released := true } : Submitted).held = false := by
  simp [held]

end Submitted

theorem sum_modify {α : Type} (g : α → Nat) (f : α → α) {xs : List α} {x : α} (h : xs[i]? = some x)
    : ((xs.modify i f).map g).sum + g x = (xs.map g).sum + g (f x) := by
  induction xs generalizing i with
  | nil => simp at h
  | cons y ys ih =>
    cases i with
    | zero =>
      obtain rfl : y = x := by simpa using h
      simp only [modify_zero_cons, map_cons, sum_cons]
      omega
    | succ i =>
      have := ih (i := i) (by simpa using h)
      simp only [modify_succ_cons, map_cons, sum_cons]
      omega

theorem sum_modify_same {α : Type} (g : α → Nat) (f : α → α) (hg : ∀ x, g (f x) = g x)
    (xs : List α) (i : Nat) : ((xs.modify i f).map g).sum = (xs.map g).sum := by
  cases hi : xs[i]? with
  | none => rw [modify_eq_self (by simpa using hi)]
  | some x =>
    have := sum_modify g f hi
    rw [hg] at this
    omega

theorem sum_map_eq_zero {g : Submitted → Nat} (h : ∀ x ∈ xs, g x = 0) : (xs.map g).sum = 0 := by
  refine List.sum_eq_zero_iff_forall_eq_nat.mpr fun n hn => ?_
  obtain ⟨x, hx, rfl⟩ := List.mem_map.mp hn
  exact h x hx

/-- The budget is what the bodies hold, and the driver is between the two steps of answering at
most one of them. -/
structure Kept (h : Handle) (owes : Option Nat) (xs : List Submitted) : Prop where
  count : h.budget.count = (xs.map Submitted.heldCount).sum
  bytes : h.budget.bytes = (xs.map Submitted.heldBytes).sum
  owed : ∀ i, owes = some i → ∃ x, xs[i]? = some x ∧ x.held = true ∧ x.reply ≠ .waiting
  owing : ∀ i x, xs[i]? = some x → x.held = true → x.reply ≠ .waiting → owes = some i
  received : ∀ x ∈ xs, x.accepted = true → x.reply ≠ .waiting → x.received = true
  queued : h.queued = (xs.map Submitted.queuedCount).sum

/-- All bodies are answered: only the one the driver is at still holds a reservation. -/
theorem Kept.answered (hk : Kept h owes xs)
    (hall : ∀ x ∈ xs, x.accepted = true → x.reply ≠ .waiting) :
    h.queued = 0 ∧
      (owes = none ∧ h.budget.count = 0 ∧ h.budget.bytes = 0 ∨
        owes ≠ none ∧ ∃ x ∈ xs, h.budget.count = 1 ∧ h.budget.bytes = x.body.length) := by
  have hheld : ∀ x ∈ xs, x.held = true → x.reply ≠ .waiting := by
    intro x hx hh
    exact hall x hx (by simp only [Submitted.held, Bool.and_eq_true] at hh; exact hh.1)
  constructor
  · rw [hk.queued]
    refine sum_map_eq_zero fun x hx => ?_
    have hreceived (hacc : x.accepted = true) := hk.received x hx hacc (hall x hx hacc)
    simpa [Submitted.queuedCount] using hreceived
  · cases owes with
    | none =>
      left
      have hnone : ∀ x ∈ xs, x.held = false := by
        intro x hx
        by_contra hh
        obtain ⟨i, hi⟩ := mem_iff_getElem?.mp hx
        have := hk.owing i x hi (by simpa using hh) (hheld x hx (by simpa using hh))
        cases this
      refine ⟨rfl, hk.count.trans (sum_map_eq_zero fun y hy => ?_),
        hk.bytes.trans (sum_map_eq_zero fun y hy => ?_)⟩
      · exact Submitted.heldCount_of_free (hnone y hy)
      · exact Submitted.heldBytes_of_free (hnone y hy)
    | some i =>
      right
      obtain ⟨x, hi, hh, -⟩ := hk.owed i rfl
      have hx : x ∈ xs := mem_of_getElem? hi
      -- released, nothing is held any more
      have hnone : ∀ y ∈ xs.modify i (fun x => { x with released := true }), y.held = false := by
        intro y hy
        obtain ⟨j, hj⟩ := mem_iff_getElem?.mp hy
        rw [getElem?_modify] at hj
        obtain ⟨z, hz, rfl⟩ := Option.map_eq_some_iff.mp hj
        split
        · exact Submitted.held_released z
        · rename_i hne
          by_contra hheldz
          have hmem := mem_of_getElem? hz
          have := hk.owing j z hz (by simpa using hheldz) (hheld z hmem (by simpa using hheldz))
          exact hne (Option.some.inj this)
      have hrel := Submitted.held_released x
      have hc := sum_modify Submitted.heldCount (fun x => { x with released := true }) hi
      have hb := sum_modify Submitted.heldBytes (fun x => { x with released := true }) hi
      rw [sum_map_eq_zero fun y hy => Submitted.heldCount_of_free (hnone y hy),
        Submitted.heldCount_of_free hrel, Submitted.heldCount_of_held hh] at hc
      rw [sum_map_eq_zero fun y hy => Submitted.heldBytes_of_free (hnone y hy),
        Submitted.heldBytes_of_free hrel, Submitted.heldBytes_of_held hh] at hb
      exact ⟨by simp, x, hx, by rw [hk.count]; omega, by rw [hk.bytes]; omega⟩

theorem kept_unsettle : Kept h owes (xs.map Submitted.unsettle) ↔ Kept h owes xs := by
  have hsums : (xs.map Submitted.unsettle).map Submitted.heldCount = xs.map Submitted.heldCount ∧
      (xs.map Submitted.unsettle).map Submitted.heldBytes = xs.map Submitted.heldBytes ∧
      (xs.map Submitted.unsettle).map Submitted.queuedCount = xs.map Submitted.queuedCount := by
    simp only [map_map]
    exact ⟨rfl, rfl, rfl⟩
  obtain ⟨hcount, hbytes, hqueued⟩ := hsums
  constructor
  · rintro ⟨hc, hb, howed, howing, hrec, hq⟩
    refine ⟨hcount ▸ hc, hbytes ▸ hb, fun i hi => ?_, fun i x hx => ?_, fun x hx => ?_,
      hqueued ▸ hq⟩
    · obtain ⟨_, hx, hp⟩ := howed i hi
      rw [getElem?_map] at hx
      obtain ⟨x, hxi, rfl⟩ := Option.map_eq_some_iff.mp hx
      exact ⟨x, hxi, hp⟩
    · exact howing i x.unsettle (by rw [getElem?_map, hx]; rfl)
    · exact hrec x.unsettle (mem_map_of_mem hx)
  · rintro ⟨hc, hb, howed, howing, hrec, hq⟩
    refine ⟨hcount ▸ hc, hbytes ▸ hb, fun i hi => ?_, fun i x hx => ?_, fun x hx => ?_,
      hqueued ▸ hq⟩
    · obtain ⟨x, hx, hp⟩ := howed i hi
      exact ⟨x.unsettle, by rw [getElem?_map, hx]; rfl, hp⟩
    · rw [getElem?_map] at hx
      obtain ⟨x, hxi, rfl⟩ := Option.map_eq_some_iff.mp hx
      exact howing i x hxi
    · obtain ⟨x, hmem, rfl⟩ := List.mem_map.mp hx
      exact hrec x hmem

theorem Kept.settleLast (hk : Kept h owes xs) : Kept h owes (Aggregator.settleLast xs) := by
  rw [← kept_unsettle] at hk ⊢
  rcases eq_nil_or_concat' xs with rfl | ⟨before, x, rfl⟩
  · exact hk
  · rw [Aggregator.settleLast_append]
    simpa [Submitted.unsettle] using hk

/-! ## The driver's steps -/

theorem getElem?_modify_some {i j : Nat} {f : Submitted → Submitted} {y : Submitted}
    (h : (xs.modify i f)[j]? = some y) :
    ∃ x, xs[j]? = some x ∧ (i = j ∧ y = f x ∨ i ≠ j ∧ y = x) := by
  rw [getElem?_modify] at h
  obtain ⟨x, hx, rfl⟩ := Option.map_eq_some_iff.mp h
  refine ⟨x, hx, ?_⟩
  split
  · exact .inl ⟨‹_›, rfl⟩
  · exact .inr ⟨‹_›, rfl⟩

/-- The command of a body leaves the channel, if it was still there. -/
theorem Kept.taken (hk : Kept h owes xs) {b : Submitted} (hi : xs[i]? = some b)
    (f : Submitted → Submitted) (hf : (f b).received = true) :
    h.queued - b.queuedCount = ((xs.modify i f).map Submitted.queuedCount).sum := by
  have hsum := sum_modify Submitted.queuedCount f hi
  rw [show (f b).queuedCount = 0 by simp [Submitted.queuedCount, hf], ← hk.queued] at hsum
  omega

theorem Kept.receive (hk : Kept h none xs) {b : Submitted} (hi : xs[i]? = some b) :
    Kept { h with queued := h.queued - b.queuedCount } none
      (xs.modify i fun x => { x with received := true }) := by
  refine ⟨?_, ?_, by simp, fun j y hj hh hr => ?_, fun y hy ha hr => ?_, hk.taken hi _ rfl⟩
  · refine hk.count.trans (sum_modify_same _ _ ?_ xs i).symm
    exact fun _ => rfl
  · refine hk.bytes.trans (sum_modify_same _ _ ?_ xs i).symm
    exact fun _ => rfl
  · obtain ⟨x, hx, ⟨-, rfl⟩ | ⟨-, rfl⟩⟩ := getElem?_modify_some hj
    · exact hk.owing j x hx hh hr
    · exact hk.owing j y hx hh hr
  · obtain ⟨j, hj⟩ := mem_iff_getElem?.mp hy
    obtain ⟨x, hx, ⟨-, rfl⟩ | ⟨-, rfl⟩⟩ := getElem?_modify_some hj
    · rfl
    · exact hk.received y (mem_of_getElem? hx) ha hr

/-- The driver answers or drops a body it was not done with. -/
theorem Kept.answer (hk : Kept h none xs) {b : Submitted} (hi : xs[i]? = some b)
    (hheld : b.held = true) (reply : Oneshot Bytes) (hreply : reply ≠ .waiting) :
    Kept { h with queued := h.queued - b.queuedCount } (some i)
      (xs.modify i fun x => { x with reply, received := true }) := by
  refine ⟨?_, ?_, ?_, fun j y hj hh hr => ?_, fun y hy ha hr => ?_, hk.taken hi _ rfl⟩
  · refine hk.count.trans (sum_modify_same _ _ ?_ xs i).symm
    exact fun _ => rfl
  · refine hk.bytes.trans (sum_modify_same _ _ ?_ xs i).symm
    exact fun _ => rfl
  · rintro _ ⟨⟩
    refine ⟨{ b with reply, received := true }, ?_, hheld, hreply⟩
    simp [hi]
  · obtain ⟨x, hx, ⟨rfl, rfl⟩ | ⟨-, rfl⟩⟩ := getElem?_modify_some hj
    · rfl
    · exact absurd (hk.owing j y hx hh hr) (by simp)
  · obtain ⟨j, hj⟩ := mem_iff_getElem?.mp hy
    obtain ⟨x, hx, ⟨-, rfl⟩ | ⟨-, rfl⟩⟩ := getElem?_modify_some hj
    · rfl
    · exact hk.received y (mem_of_getElem? hx) ha hr

theorem Kept.release (hk : Kept h (some i) xs) {b : Submitted} (hi : xs[i]? = some b) :
    Kept { h with budget := h.budget.release 1 b.body.length } none
      (xs.modify i fun x => { x with released := true }) := by
  obtain ⟨b', hi', hheld, -⟩ := hk.owed i rfl
  obtain rfl : b = b' := by simpa [hi] using hi'
  have hrel := Submitted.held_released b
  have hc := sum_modify Submitted.heldCount (fun x => { x with released := true }) hi
  have hb := sum_modify Submitted.heldBytes (fun x => { x with released := true }) hi
  rw [Submitted.heldCount_of_held hheld, Submitted.heldCount_of_free hrel] at hc
  rw [Submitted.heldBytes_of_held hheld, Submitted.heldBytes_of_free hrel] at hb
  refine ⟨?_, ?_, by simp, fun j y hj hh hr => ?_, fun y hy ha hr => ?_, ?_⟩
  · change h.budget.count - 1 = _
    rw [hk.count]
    omega
  · change h.budget.bytes - b.body.length = _
    rw [hk.bytes]
    omega
  · obtain ⟨x, hx, ⟨rfl, rfl⟩ | ⟨hne, rfl⟩⟩ := getElem?_modify_some hj
    · simp [Submitted.held] at hh
    · exact absurd (Option.some.inj (hk.owing j y hx hh hr)) hne
  · obtain ⟨j, hj⟩ := mem_iff_getElem?.mp hy
    obtain ⟨x, hx, ⟨-, rfl⟩ | ⟨-, rfl⟩⟩ := getElem?_modify_some hj
    · exact hk.received x (mem_of_getElem? hx) ha hr
    · exact hk.received y (mem_of_getElem? hx) ha hr
  · refine hk.queued.trans (sum_modify_same _ _ ?_ xs i).symm
    exact fun _ => rfl

/-! ## A new body -/

theorem getElem?_concat_some {x y : Submitted} (h : (xs ++ [x])[i]? = some y) :
    xs[i]? = some y ∨ y = x := by
  rw [getElem?_append] at h
  split at h
  · exact .inl h
  · exact .inr (by simpa using mem_of_getElem? h)

/-- A body is appended; it is not one that the driver has answered. -/
theorem Kept.concat (hk : Kept h owes xs) {x : Submitted}
    (hx : x.accepted = true → x.reply = .waiting) (h' : Handle)
    (hcount : h'.budget.count = h.budget.count + x.heldCount)
    (hbytes : h'.budget.bytes = h.budget.bytes + x.heldBytes)
    (hqueued : h'.queued = h.queued + x.queuedCount) : Kept h' owes (xs ++ [x]) := by
  refine ⟨?_, ?_, fun i hi => ?_, fun i y hy hh hr => ?_, fun y hy ha hr => ?_, ?_⟩
  · simp [hk.count, hcount]
  · simp [hk.bytes, hbytes]
  · obtain ⟨y, hy, hp⟩ := hk.owed i hi
    exact ⟨y, List.getElem?_append_left (List.getElem?_eq_some_iff.mp hy).1 ▸ hy, hp⟩
  · rcases getElem?_concat_some hy with hy | rfl
    · exact hk.owing i y hy hh hr
    · simp only [Submitted.held, Bool.and_eq_true] at hh
      exact absurd (hx hh.1) hr
  · rcases mem_append.mp hy with hy | hy
    · exact hk.received y hy ha hr
    · obtain rfl := mem_singleton.mp hy
      exact absurd (hx ha) hr
  · simp [hk.queued, hqueued]

/-! ## Submitting -/

theorem maxRequestBodyLen_le_budgetCap : maxRequestBodyLen ≤ budgetCap := by decide

/-- There is room for a second body while the first one's reservation is still held. -/
def Handle.Roomy (h : Handle) : Prop :=
  2 ≤ h.budget.maxCount ∧ 2 * h.submitByteLimit ≤ h.budget.maxBytes

instance (h : Handle) : Decidable h.Roomy := inferInstanceAs (Decidable (_ ∧ _))

theorem Handle.submit_eq_ok {h h' : Handle} {body : Bytes} (hs : h.submit body = .ok h') :
    h' = { h with
      budget := { h.budget with
        count := h.budget.count + 1, bytes := h.budget.bytes + body.length }
      queued := h.queued + 1 } := by
  unfold Handle.submit InflightBudget.tryAcquire InflightBudget.tryAcquireMany at hs
  grind

/-- A body within the limits is refused for its size or for the budget only when the channel is
full or the caps leave no room for it. -/
theorem Handle.submit_eq_error {body : Bytes} {e : DriverError}
    (hlen : body.length ≤ h.submitByteLimit) (hs : h.submit body = .error e) :
    e ≠ .requestTooLarge ∧ (e = .busy → h.cmdCap < h.queued ∨
      h.budget.maxCount < h.budget.count + 1 ∨
        h.budget.maxBytes < h.budget.bytes + body.length) := by
  unfold Handle.submitByteLimit at hlen
  unfold Handle.submit InflightBudget.tryAcquire InflightBudget.tryAcquireMany at hs
  grind

namespace Aggregator

/-! ## The invariant -/

/-- What holds of the bodies and of the body being packed; if `clear`, no body was refused for the
budget. -/
structure Fits (clear : Prop) (s : Aggregator) : Prop where
  kept : Kept s.handle s.owes s.bodies
  limit : s.limits.submitLimit = s.handle.submitByteLimit
  slots : 1 ≤ s.handle.budget.maxCount
  sized : ∀ x ∈ s.bodies, x.body.length ≤ s.limits.submitLimit ∧
    x.callers.length ≤ s.limits.maxUnits ∧ x.refusal ≠ some .requestTooLarge ∧
    (clear → x.refusal ≠ some .busy)
  faults : ∀ f ∈ s.faults, f = .submitFailure ∧ ¬clear
  answered : ¬Ending s.pump → ∀ x ∈ s.bodies, x.settled = true → x.accepted = true →
    x.reply ≠ .waiting
  packing : ∀ b es, s.pump = .packing b es → b.budget = s.limits.submitLimit ∧
    (b.bytesUsed ≤ b.budget ∨ es = []) ∧ (idsOf es).length ≤ s.limits.maxUnits

section
variable {clear : Prop} {s s' : Aggregator}
variable {b : BatchBuilder}

/-- Verdicts are taken and callers told; the driver's side and the faults stay. -/
structure Settles (s s' : Aggregator) : Prop where
  handle : s'.handle = s.handle
  owes : s'.owes = s.owes
  limits : s'.limits = s.limits
  faults : s'.faults = s.faults
  bodies : s'.bodies = settleLast s.bodies ∨ s'.bodies = s.bodies

theorem Settles.later (h : Settles s s') : Forall₂ Submitted.Later s.bodies s'.bodies := by
  rcases h.bodies with hb | hb
  · rw [hb]
    exact settleLast_later s.bodies
  · rw [hb]
    exact later_refl s.bodies

theorem Fits.settles (hf : Fits clear s) (hs : Settles s s')
    (hanswered : ¬Ending s'.pump → ∀ x ∈ s'.bodies, x.settled = true → x.accepted = true →
      x.reply ≠ .waiting)
    (hpacking : ∀ b es, s'.pump = .packing b es → b.budget = s.limits.submitLimit ∧
      (b.bytesUsed ≤ b.budget ∨ es = []) ∧ (idsOf es).length ≤ s.limits.maxUnits) :
    Fits clear s' := by
  refine ⟨?_, ?_, ?_, fun x' hx' => ?_, ?_, hanswered, ?_⟩
  · rw [hs.handle, hs.owes]
    rcases hs.bodies with hb | hb
    · rw [hb]
      exact hf.kept.settleLast
    · rw [hb]
      exact hf.kept
  · rw [hs.limits, hs.handle]
    exact hf.limit
  · rw [hs.handle]
    exact hf.slots
  · obtain ⟨x, hx, hl⟩ := exists_earlier hs.later hx'
    rw [hl.body, hl.callers, hl.refusal, hs.limits]
    exact hf.sized x hx
  · rw [hs.faults]
    exact hf.faults
  · rw [hs.limits]
    exact hpacking

theorem Fits.ends (hf : Fits clear s) (hs : Settles s s') (hp : Ending s'.pump) : Fits clear s' :=
  hf.settles hs (fun h => absurd hp h) (fun b es h => by rw [h] at hp; exact hp.elim)

/-- The verdict on the body in flight is in. -/
theorem Fits.lands (hf : Fits clear s) (h : Inv s) (hp : s.pump = .inFlight) {x : Submitted}
    (hx : s.bodies.getLast? = some x) (hr : x.reply ≠ .waiting) (hs : Settles s s')
    (hp' : s'.pump = .idle) : Fits clear s' := by
  refine hf.settles hs (fun _ y hy hset hacc => ?_) (by rw [hp']; simp)
  obtain ⟨before, z, hb, -, -, -, hsettled⟩ := h.flying hp
  obtain rfl : z = x := by simpa [hb] using hx
  have hold := hf.answered (by rw [hp]; exact id)
  have hbodies : y ∈ before ∨ y.reply = z.reply := by
    rcases hs.bodies with hbs | hbs
    · rw [hbs, hb, settleLast_append] at hy
      rcases mem_append.mp hy with hy | hy
      · exact .inl hy
      · exact .inr (by rw [mem_singleton.mp hy])
    · rw [hbs, hb] at hy
      rcases mem_append.mp hy with hy | hy
      · exact .inl hy
      · exact .inr (by rw [mem_singleton.mp hy])
  rcases hbodies with hy | hy
  · exact hold y (by rw [hb]; exact mem_append_left _ hy) (hsettled y hy) hacc
  · rw [hy]
    exact hr

theorem beginDrop_fits (hf : Fits clear s) : Fits clear s.beginDrop := by
  have hs : Settles s s.beginDrop := by
    unfold beginDrop
    dsimp only
    rw [(resolveEntries_eq _ _ _).choose_spec]
    exact ⟨rfl, rfl, rfl, rfl, .inl rfl⟩
  exact hf.ends hs trivial

theorem giveUp_fits (hf : Fits clear s) (told : Option BatchError) (r : RefusedReason) :
    Fits clear (s.giveUp told r) := by
  have hs : Settles s (s.giveUp told r) := by
    unfold giveUp
    dsimp only
    rw [(resolveEntries_eq _ _ _).choose_spec]
    cases told <;> exact ⟨rfl, rfl, rfl, rfl, .inl rfl⟩
  exact hf.ends hs trivial

theorem closeQueue_settles (s : Aggregator) (r : RefusedReason) :
    Settles s (s.closeQueue r) ∧ (s.closeQueue r).pump = s.pump := by
  unfold closeQueue
  rw [(resolveEntries_eq _ _ _).choose_spec]
  exact ⟨⟨rfl, rfl, rfl, rfl, .inr rfl⟩, rfl⟩

theorem await_fits (hf : Fits clear s) (h : Inv s) (hp : s.pump = .inFlight) (timer : Bool) :
    Fits clear (s.await timer) := by
  unfold await
  split
  · exact hf
  · rename_i x hx
    split
    · rename_i replyBody hr
      obtain ⟨resolved, heq⟩ := demux_eq s s.inFlight replyBody
      rw [heq]
      exact hf.lands h hp hx (by rw [hr]; simp) ⟨rfl, rfl, rfl, rfl, .inl rfl⟩ rfl
    · rename_i hr
      exact hf.lands h hp hx (by rw [hr]; simp) ⟨rfl, rfl, rfl, rfl, .inl rfl⟩ rfl
    · split
      · exact giveUp_fits hf _ _
      · split
        · exact giveUp_fits hf _ _
        · exact hf

theorem recv_fits (hf : Fits clear s) (hp : s.pump = .idle) : Fits clear s.recv := by
  have hold := hf.answered (by rw [hp]; exact id)
  have hcap : min s.limits.submitLimit budgetCap = s.limits.submitLimit := by
    refine min_eq_left ?_
    rw [hf.limit]
    exact (min_le_left _ _).trans maxRequestBodyLen_le_budgetCap
  have opened : ∀ d es, Fits clear { s with
      deferred := d, entries := es, pump := .packing (.new s.limits.submitLimit) [] } := by
    intro d es
    refine hf.settles ⟨rfl, rfl, rfl, rfl, .inr rfl⟩ (fun _ => hold) ?_
    rintro _ _ ⟨⟩
    exact ⟨hcap, .inr rfl, Nat.zero_le _⟩
  unfold recv
  dsimp only
  split
  · exact opened s.deferred s.entries
  · rename_i hd
    split
    · exact opened _ _
    · split
      · exact beginDrop_fits hf
      · exact hf

/-! ## Packing and submitting -/

theorem length_finish {units : List Bytes} (h : b.Builds units) {body : Bytes}
    (hb : b.finish = some body) : body.length = b.bytesUsed := by
  unfold BatchBuilder.finish at hb
  split at hb
  · cases hb
  · cases hb
    simp [BatchBuilder.bytesUsed, h.buf, batchCountOverhead, length_beBytes]
    omega

/-- The budget has room for a body when all others are answered, and the driver holds no
reservation of an answered one, or the caps allow for it. -/
theorem Fits.not_busy (hf : Fits clear s) (hclear : s.owes = none ∨ s.handle.Roomy)
    (hall : ∀ x ∈ s.bodies, x.accepted = true → x.reply ≠ .waiting) {body : Bytes}
    (hlen : body.length ≤ s.handle.submitByteLimit) : s.handle.submit body ≠ .error .busy := by
  intro hbusy
  have hslots := hf.slots
  have hbytes : s.handle.submitByteLimit ≤ s.handle.budget.maxBytes := min_le_right _ _
  obtain ⟨hqueued, hkept⟩ := hf.kept.answered hall
  rcases (Handle.submit_eq_error hlen hbusy).2 rfl with hfull | hfull
  · rw [hqueued] at hfull
    exact absurd hfull (Nat.not_lt_zero _)
  · rcases hkept with ⟨-, hc, hb⟩ | ⟨howes, x, hx, hc, hb⟩
    · omega
    · obtain ⟨hcount, hroom⟩ := hclear.resolve_left howes
      have hx := (hf.sized x hx).1
      rw [hf.limit] at hx
      omega

theorem ship_fits (hf : Fits clear s) (hclear : clear → s.owes = none ∨ s.handle.Roomy)
    {es : List Entry} (hp : s.pump = .packing b es) (hbuilds : b.Builds (unitsOf es))
    (hsettled : ∀ x ∈ s.bodies, x.settled = true) : Fits clear (s.ship b es) := by
  have hold : ∀ x ∈ s.bodies, x.accepted = true → x.reply ≠ .waiting :=
    fun x hx => hf.answered (by rw [hp]; exact id) x hx (hsettled x hx)
  obtain ⟨hbudget, hused, hunits⟩ := hf.packing b es hp
  unfold ship
  dsimp only
  split
  · exact hf.settles ⟨rfl, rfl, rfl, rfl, .inr rfl⟩ (fun _ x hx _ => hold x hx) (by simp)
  · rename_i hsome
    have hne : es ≠ [] := by
      rintro rfl
      exact hsome rfl
    have hcount : b.count ≠ 0 := by
      rw [hbuilds.count, length_unitsOf]
      intro hzero
      exact hsome (isEmpty_iff.mpr (length_eq_zero_iff.mp hzero))
    split
    · rename_i hfinish
      simp [BatchBuilder.finish, hcount] at hfinish
    · rename_i body hfinish
      have hlen : body.length ≤ s.limits.submitLimit := by
        rw [length_finish hbuilds hfinish, ← hbudget]
        exact hused.resolve_right hne
      have hlen' : body.length ≤ s.handle.submitByteLimit := hf.limit ▸ hlen
      obtain ⟨budget, hdrop⟩ := foldl_dropEntry_eq es s
      rw [hdrop]
      dsimp only
      split
      · rename_i e he
        obtain ⟨hlarge, -⟩ := Handle.submit_eq_error hlen' he
        have hbusy : clear → e ≠ .busy := by
          rintro hc rfl
          exact hf.not_busy (hclear hc) hold hlen' he
        refine ⟨?_, hf.limit, hf.slots, ?_, ?_, ?_, by simp [resolveAll]⟩
        · exact hf.kept.concat (fun h => by simp [Submitted.accepted] at h) _
            (by simp [Submitted.heldCount, Submitted.held, Submitted.accepted, resolveAll])
            (by simp [Submitted.heldBytes, Submitted.held, Submitted.accepted, resolveAll])
            (by simp [Submitted.queuedCount, Submitted.accepted, resolveAll])
        · intro x hx
          rcases mem_append.mp hx with hx | hx
          · exact hf.sized x hx
          · rw [mem_singleton.mp hx]
            refine ⟨hlen, hunits, ?_, fun hc => ?_⟩
            · simpa using hlarge
            · simpa using hbusy hc
        · intro f hmem
          simp only [resolveAll] at hmem
          split at hmem
          · rename_i hasserts
            rcases mem_cons.mp hmem with rfl | hmem
            · refine ⟨rfl, fun hc => ?_⟩
              cases e with
              | busy => exact hbusy hc rfl
              | requestTooLarge => exact hlarge rfl
              | _ => cases hasserts
            · exact hf.faults f hmem
          · exact hf.faults f hmem
        · intro _ x hx _ hacc
          rcases mem_append.mp hx with hx | hx
          · exact hold x hx hacc
          · rw [mem_singleton.mp hx] at hacc
            simp [Submitted.accepted] at hacc
      · rename_i handle hok
        obtain rfl := Handle.submit_eq_ok hok
        refine ⟨?_, hf.limit, hf.slots, ?_, hf.faults, ?_, by simp⟩
        · exact hf.kept.concat (fun _ => rfl) _
            (by simp [Submitted.heldCount, Submitted.held, Submitted.accepted])
            (by simp [Submitted.heldBytes, Submitted.held, Submitted.accepted])
            (by simp [Submitted.queuedCount, Submitted.accepted])
        · intro x hx
          rcases mem_append.mp hx with hx | hx
          · exact hf.sized x hx
          · rw [mem_singleton.mp hx]
            exact ⟨hlen, hunits, by simp, by simp⟩
        · intro _ x hx hset hacc
          rcases mem_append.mp hx with hx | hx
          · exact hold x hx hacc
          · rw [mem_singleton.mp hx] at hset
            cases hset

theorem pack_fits (hf : Fits clear s) (hclear : clear → s.owes = none ∨ s.handle.Roomy) (h : Inv s)
    (hadm : EntriesAdmitted s) {es : List Entry} (hp : s.pump = .packing b es) :
    Fits clear (s.pack b es) := by
  have hbuilds := h.builds b es hp
  have hsettled := (h.landed (by rw [hp]; simp)).2
  have hold := hf.answered (by rw [hp]; exact id)
  obtain ⟨hbudget, hused, hunits⟩ := hf.packing b es hp
  unfold pack
  split
  · exact ship_fits hf hclear hp hbuilds hsettled
  · rename_i e s' hpop
    obtain ⟨d, ws, rfl, hlist, -⟩ := popEntry_eq hpop
    have hmem : e ∈ s.enqueued := by
      refine h.order.subset ?_
      have he : e ∈ s.deferred ++ s.entries := by rw [hlist]; simp
      rw [append_assoc _ s.deferred]
      exact mem_append_right _ he
    have he := hadm e (mem_append_right _ hmem)
    split
    · exact hf.settles ⟨rfl, rfl, rfl, rfl, .inr rfl⟩ (fun _ => hold) hf.packing
    · split
      · rename_i hover
        split
        · rename_i hempty
          -- alone in a body, an admitted entry fits
          exfalso
          have hcount : (unitsOf es).length = 0 := by
            rw [← hbuilds.count]
            simpa [BatchBuilder.isEmpty] using hempty
          have hids : (es.flatMap Entry.ids).length = 0 := (length_unitsOf es).symm.trans hcount
          have hbytes : b.bytesUsed = batchCountOverhead := by
            rw [BatchBuilder.bytesUsed, hbuilds.buf, length_eq_zero_iff.mp hcount]
            simp [encodeUnits]
          have hlimit := he.bytes
          rw [← hbudget] at hlimit
          simp [BodyLimits.fitsOpenBody, hids, hbytes, he.units, hlimit] at hover
        · exact ship_fits (s := { s with deferred := e :: d, entries := ws }) { hf with } hclear hp
            hbuilds hsettled
      · rename_i hfits
        simp only [BodyLimits.fitsOpenBody, Bool.not_eq_true', Bool.and_eq_false_iff,
          decide_eq_false_iff_not, not_or, not_not] at hfits
        obtain ⟨b', hpush, -, hbudget', hused'⟩ := pushAll_of_fits e.units hbuilds hfits.2
        rw [hpush]
        refine hf.settles ⟨rfl, rfl, rfl, rfl, .inr rfl⟩ (fun _ => hold) ?_
        rintro _ _ ⟨⟩
        refine ⟨hbudget'.trans hbudget, .inl ?_, ?_⟩
        · rw [hused', hbudget']
          exact hfits.2
        · rw [idsOf_append, length_append, idsOf_cons, idsOf_nil, append_nil]
          simpa [Entry.ids, idsOf] using hfits.1

theorem stepPump_fits (hf : Fits clear s) (hclear : clear → s.owes = none ∨ s.handle.Roomy)
    (h : Inv s) (hadm : EntriesAdmitted s) (timer : Bool) : Fits clear (s.stepPump timer) := by
  unfold stepPump
  split
  · rename_i hp
    exact recv_fits hf hp
  · rename_i b es hp
    exact pack_fits hf hclear h hadm hp
  · rename_i hp
    exact await_fits hf h hp timer
  · rename_i reason hp
    obtain ⟨hs, hpump⟩ := closeQueue_settles s reason
    exact beginDrop_fits (hf.ends hs (by rw [hpump, hp]; trivial))
  · obtain ⟨hs, -⟩ := closeQueue_settles s .pumpGone
    exact hf.ends ⟨hs.handle, hs.owes, hs.limits, hs.faults, hs.bodies⟩ trivial
  · exact hf

/-! ## The driver -/

theorem modify_congr {xs : List Submitted} {i : Nat} {x : Submitted} {f g : Submitted → Submitted}
    (hx : xs[i]? = some x) (hfg : f x = g x) : xs.modify i f = xs.modify i g := by
  refine ext_getElem? fun j => ?_
  rw [getElem?_modify, getElem?_modify]
  by_cases hij : i = j
  · subst hij
    simp [hx, hfg]
  · simp [hij]

/-- The driver works on a body it was given. -/
theorem Fits.updateBody (hf : Fits clear s) (i : Nat) (f : Submitted → Submitted)
    (hl : ∀ x, s.bodies[i]? = some x → x.Later (f x) ∧ (f x).settled = x.settled ∧
      (x.reply ≠ .waiting → (f x).reply ≠ .waiting)) (handle : Handle) (owes : Option Nat)
    (hcaps : handle.budget.maxCount = s.handle.budget.maxCount ∧
      handle.budget.maxBytes = s.handle.budget.maxBytes)
    (hk : Kept handle owes (s.bodies.modify i f)) :
    Fits clear { s.updateBody i f with handle, owes } := by
  have hrel := forall₂_modify (R := fun x x' => x.Later x' ∧ x'.settled = x.settled ∧
      (x.reply ≠ .waiting → x'.reply ≠ .waiting))
    (fun x => ⟨⟨rfl, rfl, rfl, fun _ h => h⟩, rfl, id⟩) s.bodies i hl
  refine ⟨hk, ?_, ?_, fun x' hx' => ?_, hf.faults, fun hp x' hx' hset hacc => ?_, hf.packing⟩
  · refine hf.limit.trans ?_
    simp only [Handle.submitByteLimit, hcaps.2]
  · exact hcaps.1 ▸ hf.slots
  · obtain ⟨x, hx, hlx, -, -⟩ := exists_earlier hrel hx'
    rw [hlx.body, hlx.callers, hlx.refusal]
    exact hf.sized x hx
  · obtain ⟨x, hx, hlx, hsx, hrx⟩ := exists_earlier hrel hx'
    exact hrx (hf.answered hp x hx (hsx ▸ hset) (hlx.accepted ▸ hacc))

theorem receive_fits (hf : Fits clear s) (i : Nat) : Fits clear (s.receive i) := by
  unfold receive
  split
  · rename_i b howes hb
    split
    · rename_i hguard
      have hone : b.queuedCount = 1 := if_pos hguard
      refine hf.updateBody i _ ?_ _ s.owes ⟨rfl, rfl⟩ ?_
      · exact fun _ _ => ⟨⟨rfl, rfl, rfl, fun _ h => h⟩, rfl, id⟩
      · rw [howes, ← hone]
        exact (howes ▸ hf.kept).receive hb
    · exact hf
  · exact hf

theorem answer_fits (hf : Fits clear s) (i : Nat) (replyBody : Bytes) :
    Fits clear (s.answer i replyBody) := by
  unfold answer
  split
  · rename_i b howes hb
    split
    · rename_i hguard
      simp only [Bool.and_eq_true, decide_eq_true_eq, Bool.not_eq_true'] at hguard
      obtain ⟨⟨⟨hacc, hrec⟩, hwait⟩, hrel⟩ := hguard
      refine hf.updateBody i _ ?_ s.handle _ ⟨rfl, rfl⟩ ?_
      · intro x hx
        obtain rfl : b = x := by simpa [hb] using hx
        exact ⟨⟨rfl, rfl, rfl, fun c hc => by rw [hwait] at hc; cases hc⟩, rfl, by simp⟩
      · have hk : Kept s.handle none s.bodies := howes ▸ hf.kept
        rw [modify_congr (g := fun x => { x with reply := .sent replyBody, received := true }) hb
          (by simp [hrec])]
        have hnone : b.queuedCount = 0 := by simp [Submitted.queuedCount, hrec]
        simpa [hnone] using
          hk.answer hb (by simp [Submitted.held, hacc, hrel]) (.sent replyBody) (by simp)
    · exact hf
  · exact hf

theorem dropReply_fits (hf : Fits clear s) (i : Nat) : Fits clear (s.dropReply i) := by
  unfold dropReply
  split
  · rename_i b howes hb
    split
    · rename_i hguard
      simp only [Bool.and_eq_true, decide_eq_true_eq, Bool.not_eq_true'] at hguard
      obtain ⟨⟨hacc, hwait⟩, hrel⟩ := hguard
      have hk : Kept s.handle none s.bodies := howes ▸ hf.kept
      have hheld : b.held = true := by simp [Submitted.held, hacc, hrel]
      refine hf.updateBody i _ ?_ _ _ ?_ ?_
      · intro x hx
        obtain rfl : b = x := by simpa [hb] using hx
        exact ⟨⟨rfl, rfl, rfl, fun c hc => by rw [hwait] at hc; cases hc⟩, rfl, by simp⟩
      · split <;> exact ⟨rfl, rfl⟩
      · have hkept := hk.answer hb hheld .canceled (by simp)
        split
        · rename_i hrec
          simpa [Submitted.queuedCount, hrec] using hkept
        · rename_i hrec
          simpa [Submitted.queuedCount, hacc, hrec] using hkept
    · exact hf
  · exact hf

theorem releaseOwed_fits (hf : Fits clear s) : Fits clear s.releaseOwed := by
  unfold releaseOwed
  split
  · exact hf
  · rename_i i howes
    split
    · exact hf
    · rename_i b hb
      refine hf.updateBody i _ ?_ _ _ ⟨rfl, rfl⟩ ?_
      · exact fun _ _ => ⟨⟨rfl, rfl, rfl, fun _ h => h⟩, rfl, id⟩
      · have hk : Kept s.handle (some i) s.bodies := howes ▸ hf.kept
        exact hk.release hb

/-! ## Runs -/

/-- A pump step is clear of the driver when that holds no reservation of a body it has answered,
or when the caps have room for two bodies. -/
def ClearStep (s : Aggregator) : Input → Prop
  | .pump _ => s.owes = none ∨ s.handle.Roomy
  | _ => True

instance (s : Aggregator) : (i : Input) → Decidable (ClearStep s i)
  | .pump _ => inferInstanceAs (Decidable (_ ∨ _))
  | .submit _ | .submitGroup _ | .send _ | .cancel _ | .cloneHandle | .dropHandle | .dropPump
  | .receive _ | .answer _ _ | .dropReply _ | .releaseOwed | .retire _ _ | .disconnect =>
    inferInstanceAs (Decidable True)

def ClearRun : Aggregator → List Input → Prop
  | _, [] => True
  | s, i :: is => ClearStep s i ∧ ClearRun (s.step i) is

instance decidableClearRun : (s : Aggregator) → (is : List Input) → Decidable (ClearRun s is)
  | _, [] => inferInstanceAs (Decidable True)
  | s, i :: is =>
    have := decidableClearRun (s.step i) is
    inferInstanceAs (Decidable (_ ∧ _))

theorem step_fits (hf : Fits clear s) (h : Inv s) (hadm : EntriesAdmitted s) (i : Input)
    (hclear : clear → ClearStep s i) : Fits clear (s.step i) := by
  have reserved : ∀ units tooLarge, Fits clear (s.reserve units tooLarge) := by
    intro units tooLarge
    unfold reserve
    dsimp only
    split
    · exact { hf with }
    · split <;> exact { hf with }
  cases i with
  | submit unit =>
    simp only [step]
    split
    · exact hf
    · exact reserved _ _
  | submitGroup units =>
    simp only [step, submitGroup]
    split
    · exact hf
    · split
      · exact hf
      · exact reserved _ _
  | send i =>
    simp only [step, send]
    split
    · exact hf
    · split
      · rw [(resolveEntries_eq _ _ _).choose_spec]
        exact { hf with }
      · exact { hf with }
  | cancel u => exact { hf with }
  | cloneHandle =>
    simp only [step]
    split
    · exact hf
    · exact { hf with }
  | dropHandle => exact { hf with }
  | pump timer => exact stepPump_fits hf hclear h hadm timer
  | dropPump =>
    simp only [step, dropPump]
    split
    · exact beginDrop_fits hf
    · exact beginDrop_fits hf
    · exact hf
  | receive i => exact receive_fits hf i
  | answer i replyBody => exact answer_fits hf i replyBody
  | dropReply i => exact dropReply_fits hf i
  | releaseOwed => exact releaseOwed_fits hf
  | retire localMember epoch =>
    simp only [step, retire]
    split
    · exact hf
    · exact { hf with kept := { hf.kept with } }
  | disconnect => exact { hf with kept := { hf.kept with } }

theorem run_fits (is : List Input) : ∀ {s : Aggregator}, Fits clear s → Inv s →
    EntriesAdmitted s → (clear → ClearRun s is) → Fits clear (s.run is) := by
  induction is with
  | nil => exact fun hf _ _ _ => hf
  | cons i is ih =>
    intro s hf h hadm hclear
    exact ih (step_fits hf h hadm i fun hc => (hclear hc).1) (step_inv h i) (step_admitted hadm i)
      fun hc => (hclear hc).2

theorem run_limits (is : List Input) : ∀ s : Aggregator, (s.run is).limits = s.limits := by
  induction is with
  | nil => exact fun _ => rfl
  | cons i is ih => exact fun s => (ih (s.step i)).trans (step_grows s i).limits

end

/-- Replies of the largest length to as many units as a body may hold fit one reply body. -/
theorem replies_fit {n maxUnitReplyLen : Nat} (h : n ≤ maxUnitsPerBody maxUnitReplyLen) :
    batchCountOverhead + n * (batchUnitOverhead + maxUnitReplyLen) ≤ maxReplyBodyLen := by
  have hroom : batchCountOverhead ≤ maxReplyBodyLen := by decide
  have hmul : n * (maxUnitReplyLen + batchUnitOverhead) ≤ maxReplyBodyLen - batchCountOverhead :=
    (Nat.mul_le_mul_right _ h).trans (Nat.div_mul_le_self _ _)
  rw [Nat.add_comm batchUnitOverhead]
  omega

/-- With the pump as the only submitter of a fresh handle: no body is over the limits, no
expectation of the packing loop fails, and in a run whose pump steps are clear of the driver no
body is refused for the budget either. -/
theorem run_sizes (handle : Handle) (cfg : BatchConfig) (stall : Bool) (is : List Input)
    (hfresh : handle.budget.count = 0 ∧ handle.budget.bytes = 0 ∧ handle.queued = 0)
    (hslots : 1 ≤ handle.budget.maxCount) :
    (∀ x ∈ ((new handle cfg stall).run is).bodies, x.body.length ≤ handle.submitByteLimit ∧
      batchCountOverhead + x.callers.length * (batchUnitOverhead + cfg.maxUnitReplyLen)
        ≤ maxReplyBodyLen ∧ x.refusal ≠ some .requestTooLarge) ∧
    (∀ f ∈ ((new handle cfg stall).run is).faults, f = .submitFailure) ∧
    (ClearRun (new handle cfg stall) is → ((new handle cfg stall).run is).faults = [] ∧
      ∀ x ∈ ((new handle cfg stall).run is).bodies, x.refusal ≠ some .busy) := by
  obtain ⟨hc, hb, hqueued⟩ := hfresh
  have hnew : Fits (ClearRun (new handle cfg stall) is) (new handle cfg stall) := by
    refine ⟨⟨hc, hb, ?_, ?_, ?_, ?_⟩, rfl, hslots, ?_, ?_, ?_, ?_⟩ <;> simp [new, hqueued]
  have hf := run_fits is hnew (new_inv handle cfg stall) (by simp [EntriesAdmitted, new]) id
  have hlimits := run_limits is (new handle cfg stall)
  refine ⟨fun x hx => ?_, fun f hmem => (hf.faults f hmem).1, fun hclear => ⟨?_, fun x hx => ?_⟩⟩
  · obtain ⟨hlen, hunits, hlarge, -⟩ := hf.sized x hx
    rw [hlimits] at hlen hunits
    exact ⟨hlen, replies_fit hunits, hlarge⟩
  · exact eq_nil_iff_forall_not_mem.mpr fun f hmem => (hf.faults f hmem).2 hclear
  · exact (hf.sized x hx).2.2.2 hclear

/-- One unit from its submit to its verdict; the driver drops the reservation last. -/
def oneBody (i : Nat) (unit : Bytes) : List Input :=
  [.submit unit, .send 0, .pump false, .pump false, .pump false, .receive i, .answer i [],
    .releaseOwed, .pump false]

theorem run_sizes_in_turn :
    let handle : Handle := { budget := { maxCount := 1, maxBytes := 9 } }
    let s := (new handle { maxUnitReplyLen := 8 } false).run (oneBody 0 [1] ++ oneBody 1 [2])
    s.faults = [] ∧ (∀ x ∈ s.bodies, x.refusal ≠ some .busy) ∧ s.bodies.length = 2 :=
  have h := run_sizes { budget := { maxCount := 1, maxBytes := 9 } } { maxUnitReplyLen := 8 } false
    (oneBody 0 [1] ++ oneBody 1 [2]) ⟨rfl, rfl, rfl⟩ (by decide)
  have hclear := h.2.2 (by decide +kernel)
  ⟨hclear.1, hclear.2, by decide +kernel⟩

/-- The pump takes the verdict on the first body and submits a second one before the driver has
dropped the first one's reservation: the count cap of one refuses it. -/
theorem packed_body_refused_busy :
    let handle : Handle := { budget := { maxCount := 1, maxBytes := 1024 } }
    let s := (new handle { maxUnitReplyLen := 8 } false).run
      [.submit [1], .send 0, .pump false, .pump false, .pump false, .receive 0, .answer 0 [],
        .pump false, .submit [2], .send 0, .pump false, .pump false, .pump false]
    s.bodies.map (·.refusal) = [none, some .busy] ∧ s.faults = [.submitFailure] := by
  decide +kernel

end Aggregator

end Viewstamp
