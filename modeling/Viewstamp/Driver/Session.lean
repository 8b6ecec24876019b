import Mathlib.Data.List.Nodup
import Viewstamp.Driver.Handle

/- The submits of a driver, from the handle to their answer.

   A submit reserves its part of the budget and enters the command channel with its reply
   channel. The run loop takes it out, gives it the client's next request number and keeps it
   in the pending map, from where it is sent again whenever it has waited too long. It leaves
   the map by one of four doors: the commit answers it, a scan finds its caller gone, the
   replica retires, or the driver stops. Reservation and reply channel travel together, and an
   entry that has left is dropped in two strokes: its caller is told, then its reservation is
   released. Callers act in between. So the budget counts the submits on their way and the one
   whose caller has just been told, and a caller waits exactly while its own is on its way. A
   number that has left the map is never sent again. -/
namespace Viewstamp

open List

/-- The caller of a submit: what its reply channel holds, and whether it has dropped the future. -/
structure Caller where
  reply : Oneshot Bytes := .waiting
  gone : Bool := false
  deriving DecidableEq

/-- A submit on its way: whom it answers, and the body its reservation is for. -/
structure Ticket where
  caller : Nat
  body : Bytes
  deriving DecidableEq

structure PendingSubmit where
  ticket : Ticket
  request : Request
  lastSent : Instant
  deriving DecidableEq

/-- How a request left the pending map. -/
inductive Fate where
  | answered (reply : Bytes)
  | reaped
  | drained
  deriving DecidableEq

structure DriverSession where
  budget : InflightBudget
  client : ClientId
  nextRequest : Nat
  requestTimeout : Nat
  commands : List Ticket := []
  pending : List PendingSubmit := []
  /-- What the run loop has taken out and still drops, with what the callers are told. -/
  dropping : List (Ticket × Oneshot Bytes) := []
  /-- Its caller has been told and its reservation is still held. -/
  owed : Option Ticket := none
  nextPendingScan : Instant := 0
  retired : Option (MemberId × Epoch) := none
  /-- The run loop has not been left. -/
  running : Bool := true
  /-- The command channel admits. -/
  connected : Bool := true
  callers : List Caller := []
  /-- What was handed to the coordinator, the newest first. -/
  sent : List Request := []
  /-- What became of the requests that have left the map. -/
  fates : List (Request × Fate) := []
  deriving DecidableEq

/-- In nanoseconds, as every time here. -/
def pendingScanInterval (requestTimeout : Nat) : Nat :=
  max (min (requestTimeout / 8) 25000000) 1000000

namespace DriverSession

/-- A driver whose client has used the numbers up to `first`. -/
def new (client : ClientId) (first requestTimeout maxCount maxBytes : Nat) : DriverSession where
  budget := { maxCount, maxBytes }
  client
  nextRequest := first
  requestTimeout

/-- The run loop has dropped all it took out. -/
def idle (s : DriverSession) : Bool := s.owed.isNone && s.dropping.isEmpty

/-- The caller learns its outcome. -/
def tell (s : DriverSession) (t : Ticket) (reply : Oneshot Bytes) : DriverSession :=
  { s with callers := s.callers.modify t.caller fun c => { c with reply } }

def release (s : DriverSession) (t : Ticket) : DriverSession :=
  { s with budget := s.budget.release 1 t.body.length }

/-- The next stroke: the reply goes first, the reservation after it. -/
def drop (s : DriverSession) : DriverSession :=
  match s.owed, s.dropping with
  | some t, _ => { s.release t with owed := none }
  | none, (t, reply) :: rest => { s.tell t reply with owed := some t, dropping := rest }
  | none, [] => s

/-- Entries leave the pending map. -/
def leave (s : DriverSession) (fate : Fate) (reply : Oneshot Bytes) (out : PendingSubmit → Bool) :
    DriverSession :=
  let leaving := s.pending.filter out
  { s with
    pending := s.pending.filter fun p => !out p
    dropping := s.dropping ++ leaving.map fun p => (p.ticket, reply)
    fates := leaving.map (fun p => (p.request, fate)) ++ s.fates }

def drainPending (s : DriverSession) : DriverSession := s.leave .drained .canceled fun _ => true

def isCanceled (s : DriverSession) (t : Ticket) : Bool := (s.callers[t.caller]?).any Caller.gone

/-- With `queued` commands in the channel, those that are not submits among them. -/
def submit (s : DriverSession) (body : Bytes) (queued : Nat) : DriverSession :=
  match Handle.submit ⟨s.budget, s.retired, s.connected, queued⟩ body with
  | .error _ => s
  | .ok h => { s with
      budget := h.budget
      commands := s.commands ++ [⟨s.callers.length, body⟩]
      callers := s.callers ++ [⟨.waiting, false⟩] }

/-- The next command: a submit is dropped when the replica has retired or its caller is gone; else
it is numbered, kept and sent. Where the caller is gone the reservation goes first, but nobody sees
the reply. -/
def handleCommand (s : DriverSession) (now : Instant) : DriverSession :=
  match s.commands with
  | [] => s
  | t :: ts =>
    if s.retired.isSome then { s with commands := ts, dropping := s.dropping ++ [(t, .canceled)] }
    else if s.isCanceled t then { (s.release t).tell t .canceled with commands := ts }
    else
      let request : Request := ⟨s.client, s.nextRequest + 1, t.body⟩
      { s with
        commands := ts
        nextRequest := s.nextRequest + 1
        pending := s.pending ++ [⟨t, request, now⟩]
        sent := request :: s.sent }

/-- Reap the submits whose caller is gone and send again those that have waited too long. A caller
that leaves during the walk left before it or leaves after it. -/
def retransmitStale (s : DriverSession) (now : Instant) : DriverSession :=
  if now < s.nextPendingScan then s
  else
    let s := s.leave .reaped .canceled fun p => s.isCanceled p.ticket
    let stale (p : PendingSubmit) : Bool := decide (s.requestTimeout ≤ now - p.lastSent)
    { s with
      nextPendingScan := now + pendingScanInterval s.requestTimeout
      pending := s.pending.map fun p => { p with lastSent := if stale p then now else p.lastSent }
      sent := (s.pending.filter stale).map PendingSubmit.request ++ s.sent }

/-- A `Committed` event answers the entry under its key. -/
def deliverCommitted (s : DriverSession) (client : ClientId) (request : RequestNumber)
    (reply : Bytes) : DriverSession :=
  s.leave (.answered reply) (.sent reply) fun p =>
    p.request.client == client && p.request.request == request

/-- The first latch wins. -/
def retire (s : DriverSession) (localMember : MemberId) (epoch : Epoch) : DriverSession :=
  { s with retired := some (s.retired.getD (localMember, epoch)) }.drainPending

/-- The run loop is left. -/
def stop (s : DriverSession) : DriverSession := { s with running := false }.drainPending

/-- The channel is closed and what is in it dropped. -/
def close (s : DriverSession) : DriverSession :=
  { s with
    commands := []
    connected := false
    dropping := s.dropping ++ s.commands.map fun t => (t, .canceled) }

inductive Step where
  | submit (body : Bytes) (queued : Nat)
  | cancel (caller : Nat)
  | command (now : Instant)
  | scan (now : Instant)
  | committed (client : ClientId) (request : RequestNumber) (reply : Bytes)
  | retire (localMember : MemberId) (epoch : Epoch)
  | drop
  | stop
  | close

/-- Callers act at any time. The run loop first drops what it has taken out; then it acts while it
runs, and the channel is closed after it. -/
def step (s : DriverSession) : Step → DriverSession
  | .submit body queued => s.submit body queued
  | .cancel i => { s with callers := s.callers.modify i fun c => { c with gone := true } }
  | .drop => s.drop
  | .command now => if s.running && s.idle then s.handleCommand now else s
  | .scan now => if s.running && s.idle then s.retransmitStale now else s
  | .committed client request reply =>
    if s.running && s.idle then s.deliverCommitted client request reply else s
  | .retire localMember epoch => if s.running && s.idle then s.retire localMember epoch else s
  | .stop => if s.idle then s.stop else s
  | .close => if !s.running && s.idle then s.close else s

def run (s : DriverSession) (steps : List Step) : DriverSession := steps.foldl step s

/-! ## What is owed -/

/-- The submits whose callers have not been told. -/
def tickets (s : DriverSession) : List Ticket :=
  s.commands ++ (s.pending.map PendingSubmit.ticket ++ s.dropping.map Prod.fst)

/-- The budget counts the tickets and what is owed beside them, and a caller waits exactly when one
of the tickets is its own. -/
structure Holds (x : InflightBudget × List Caller) (owed ts : List Ticket) : Prop where
  count : x.1.count = owed.length + ts.length
  bytes : x.1.bytes = ((owed ++ ts).map fun t => t.body.length).sum
  count_le : x.1.count ≤ x.1.maxCount
  bytes_le : x.1.bytes ≤ x.1.maxBytes
  once : (ts.map Ticket.caller).Nodup
  waits : ∀ i, (∃ c, x.2[i]? = some c ∧ c.reply = .waiting) ↔ i ∈ ts.map Ticket.caller

namespace Holds

variable {b : InflightBudget} {callers : List Caller} {t : Ticket} {owed ts rest : List Ticket}

theorem perm (h : Holds (b, callers) owed ts) (hp : ts.Perm rest) :
    Holds (b, callers) owed rest where
  count := h.count.trans (congrArg (owed.length + ·) hp.length_eq)
  bytes := h.bytes.trans ((hp.append_left owed).map _).sum_eq
  count_le := h.count_le
  bytes_le := h.bytes_le
  once := (hp.map _).nodup_iff.mp h.once
  waits i := (h.waits i).trans (hp.map _).mem_iff

/-- The first stroke. -/
theorem tell {reply : Oneshot Bytes} (h : Holds (b, callers) [] (t :: ts)) (hr : reply ≠ .waiting) :
    Holds (b, callers.modify t.caller fun c => { c with reply }) [t] ts := by
  obtain ⟨hnot, honce⟩ := nodup_cons.mp h.once
  refine ⟨?_, h.bytes, h.count_le, h.bytes_le, honce, fun i => ?_⟩
  · rw [h.count, length_cons, length_nil, length_singleton]
    omega
  · rw [getElem?_modify]
    by_cases hi : t.caller = i
    · subst hi
      refine iff_of_false ?_ hnot
      rintro ⟨c, hc, hwait⟩
      simp only [if_true] at hc
      obtain ⟨c', -, rfl⟩ := Option.map_eq_some_iff.mp hc
      exact hr hwait
    · have h' := h.waits i
      rw [map_cons, mem_cons, or_iff_right (Ne.symm hi)] at h'
      simpa [hi] using h'

/-- The second stroke. -/
theorem release (h : Holds (b, callers) [t] ts) :
    Holds (b.release 1 t.body.length, callers) [] ts := by
  have hcount : b.count = 1 + ts.length := h.count
  have hbytes : b.bytes = t.body.length + (ts.map fun t => t.body.length).sum := h.bytes
  refine ⟨?_, ?_, (Nat.sub_le _ _).trans h.count_le, (Nat.sub_le _ _).trans h.bytes_le, h.once,
    h.waits⟩
  · rw [InflightBudget.release, hcount, length_nil, Nat.add_sub_cancel_left, Nat.zero_add]
  · rw [InflightBudget.release, hbytes, Nat.add_sub_cancel_left, nil_append]

/-- A submit that is let in. -/
theorem enter {h h' : Handle} {body : Bytes} (hx : Holds (h.budget, callers) owed ts)
    (hs : h.submit body = .ok h') :
    Holds (h'.budget, callers ++ [⟨.waiting, false⟩]) owed (⟨callers.length, body⟩ :: ts) := by
  have hbudget : h'.budget = { h.budget with
        count := h.budget.count + 1, bytes := h.budget.bytes + body.length } ∧
      h.budget.count + 1 ≤ h.budget.maxCount ∧
      h.budget.bytes + body.length ≤ h.budget.maxBytes := by
    unfold Handle.submit InflightBudget.tryAcquire InflightBudget.tryAcquireMany at hs
    grind
  obtain ⟨heq, hcount, hbytes⟩ := hbudget
  -- callers are numbered as they come, so no ticket has the number of the new one
  have hbelow (i : Nat) (hi : i ∈ ts.map Ticket.caller) : i < callers.length := by
    obtain ⟨c, hc, -⟩ := (hx.waits i).mpr hi
    exact (List.getElem?_eq_some_iff.mp hc).1
  rw [heq]
  refine ⟨congrArg (· + 1) hx.count, ?_, hcount, hbytes, ?_, fun i => ?_⟩
  · have hsum : h.budget.bytes = _ := hx.bytes
    simp only [hsum, map_append, map_cons, sum_append, sum_cons]
    omega
  · exact nodup_cons.mpr ⟨fun hmem => (hbelow _ hmem).ne rfl, hx.once⟩
  · rw [map_cons, mem_cons, ← hx.waits i]
    by_cases hi : i < callers.length
    · simp [getElem?_append_left hi, hi.ne]
    · have hle := Nat.le_of_not_lt hi
      simp [getElem?_append_right hle, getElem?_eq_none hle, getElem?_singleton]
      omega

end Holds

/-! ## Every run -/

variable {s : DriverSession} {first : Nat}

/-- Every number minted is pending or has left the map, only one of the two, and once. -/
def Numbered (first : Nat) (s : DriverSession) : Prop :=
  first ≤ s.nextRequest ∧
    (s.fates.map (fun f => f.1.request) ++ s.pending.map fun p => p.request.request).Perm
      (range' (first + 1) (s.nextRequest - first))

structure Sound (first : Nat) (s : DriverSession) : Prop where
  holds : Holds (s.budget, s.callers) s.owed.toList s.tickets
  told : ∀ d ∈ s.dropping, d.2 ≠ .waiting
  numbered : Numbered first s
  /-- A driver that sees no more commits keeps nothing waiting for one. -/
  drained : s.retired.isSome = true ∨ s.running = false → s.pending = []
  closed : s.connected = false → s.running = false ∧ s.commands = []

/-- What leaves the map is still to be dropped and has its number noted. -/
theorem sound_leave (hh : Holds (s.budget, s.callers) s.owed.toList s.tickets)
    (ht : ∀ d ∈ s.dropping, d.2 ≠ .waiting) (hn : Numbered first s)
    (hc : s.connected = false → s.running = false ∧ s.commands = []) (fate : Fate)
    (reply : Oneshot Bytes) (hr : reply ≠ .waiting) (out : PendingSubmit → Bool)
    (hi : s.retired.isSome = true ∨ s.running = false → s.pending.filter (fun p => !out p) = []) :
    Sound first (s.leave fate reply out) := by
  have hsplit := filter_append_perm out s.pending
  refine ⟨hh.perm (.append_left _ ?_), ?_, ⟨hn.1, .trans ?_ hn.2⟩, hi, hc⟩
  · have htickets := hsplit.map PendingSubmit.ticket
    simp only [leave, map_append, map_map, Function.comp_def] at htickets ⊢
    refine (htickets.symm.append_right _).trans ?_
    rw [append_assoc]
    exact perm_append_comm.trans (by rw [append_assoc])
  · refine forall_mem_append.mpr ⟨ht, fun d hd => ?_⟩
    obtain ⟨p, -, rfl⟩ := mem_map.mp hd
    exact hr
  · have hnumbers := hsplit.map fun p => p.request.request
    simp only [leave, map_append, map_map, Function.comp_def, append_assoc]
      at hnumbers ⊢
    exact (perm_append_comm_assoc _ _ _).trans (hnumbers.append_left _)

theorem idle_iff : s.idle = true ↔ s.owed = none ∧ s.dropping = [] := by
  rw [idle, Bool.and_eq_true, Option.isNone_iff_eq_none, List.isEmpty_iff]

theorem Sound.drop (h : Sound first s) : Sound first s.drop := by
  have hholds := h.holds
  unfold DriverSession.drop
  split
  · rename_i t _ howed
    rw [howed] at hholds
    exact ⟨hholds.release, h.told, h.numbered, h.drained, h.closed⟩
  · rename_i t reply rest howed hdropping
    obtain ⟨hr, hrest⟩ := forall_mem_cons.mp (hdropping ▸ h.told)
    rw [howed, tickets, hdropping, ← append_assoc] at hholds
    have htold := (hholds.perm perm_middle).tell hr
    rw [append_assoc] at htold
    exact ⟨htold, hrest, h.numbered, h.drained, h.closed⟩
  · exact h

/-- The next command of a loop that has dropped what it took out. -/
theorem Sound.handleCommand (h : Sound first s) (hrun : s.running = true) (hidle : s.idle = true)
    (now : Instant) : Sound first (s.handleCommand now) := by
  obtain ⟨howed, hdropping⟩ := idle_iff.mp hidle
  unfold DriverSession.handleCommand
  split
  · exact h
  · rename_i t ts hcommands
    have hholds := h.holds
    rw [howed, tickets, hcommands, hdropping, cons_append] at hholds
    have hclosed : s.connected = false → s.running = false ∧ ts = [] := by
      intro hc
      rw [(h.closed hc).1] at hrun
      cases hrun
    split
    · refine ⟨howed ▸ hholds.perm ?_, ?_, h.numbered, h.drained, hclosed⟩
      · simp only [tickets, hdropping, nil_append, map_cons, map_nil, append_nil,
          ← append_assoc]
        exact (perm_append_singleton t _).symm
      · rw [hdropping]
        exact forall_mem_singleton.mpr (by simp)
    · split
      · refine ⟨?_, h.told, h.numbered, h.drained, hclosed⟩
        have hcanceled : (.canceled : Oneshot Bytes) ≠ .waiting := by simp
        have hgone := (hholds.tell hcanceled).release
        rw [← hdropping] at hgone
        exact howed ▸ hgone
      · rename_i hlive _
        refine ⟨howed ▸ hholds.perm ?_, h.told, ⟨h.numbered.1.trans (Nat.le_succ _), ?_⟩,
          fun hi => ?_,
          hclosed⟩
        · simp only [tickets, hdropping, map_append, map_cons, map_nil, append_nil,
            ← append_assoc]
          exact (perm_append_singleton t _).symm
        · have hle := h.numbered.1
          have hrange : range' (first + 1) (s.nextRequest + 1 - first) =
              range' (first + 1) (s.nextRequest - first) ++ [s.nextRequest + 1] := by
            rw [Nat.succ_sub hle, range'_concat]
            congr 2
            omega
          simp only [map_append, map_cons, map_nil, ← append_assoc]
          exact hrange ▸ h.numbered.2.append_right _
        · grind

theorem Sound.step (h : Sound first s) (i : Step) : Sound first (s.step i) := by
  have hleave (fate : Fate) (reply : Oneshot Bytes) (hr : reply ≠ .waiting)
      (out : PendingSubmit → Bool) : Sound first (s.leave fate reply out) :=
    sound_leave h.holds h.told h.numbered h.closed fate reply hr out fun hi => by
      rw [h.drained hi]; rfl
  have hloop {c : Bool} {t : DriverSession} (hs : c = true → Sound first t) :
      Sound first (if c then t else s) := by
    split
    · exact hs ‹_›
    · exact h
  cases i with
  | submit body queued =>
    unfold DriverSession.step DriverSession.submit
    dsimp only
    split
    · exact h
    · rename_i handle hsubmit
      have hopen : s.connected = true := by
        unfold Handle.submit at hsubmit
        grind
      have hholds := Holds.enter (h := ⟨s.budget, s.retired, s.connected, queued⟩) h.holds hsubmit
      refine ⟨hholds.perm ?_, h.told, h.numbered, h.drained,
        fun hc => absurd hc (by simp [hopen])⟩
      rw [tickets, tickets, append_assoc]
      exact perm_middle.symm
  | cancel i =>
    refine ⟨⟨h.holds.count, h.holds.bytes, h.holds.count_le, h.holds.bytes_le, h.holds.once, ?_⟩,
      h.told, h.numbered, h.drained, h.closed⟩
    intro j
    refine Iff.trans ?_ (h.holds.waits j)
    simp only [DriverSession.step, getElem?_modify]
    cases s.callers[j]? <;> by_cases hj : i = j <;> simp [hj]
  | drop => exact h.drop
  | command now =>
    refine hloop fun hc => ?_
    obtain ⟨hrun, hidle⟩ := Bool.and_eq_true_iff.mp hc
    exact h.handleCommand hrun hidle now
  | scan now =>
    refine hloop fun _ => ?_
    unfold retransmitStale
    split
    · exact h
    · have hleft := hleave .reaped .canceled (by simp) fun p => s.isCanceled p.ticket
      refine ⟨?_, hleft.told, ?_, fun hi => ?_, hleft.closed⟩
      · simpa [tickets, Function.comp_def] using hleft.holds
      · simpa [Numbered, Function.comp_def] using hleft.numbered
      · exact map_eq_nil_iff.mpr (hleft.drained hi)
  | committed client request reply => exact hloop fun _ => hleave _ _ (by simp) _
  | retire localMember epoch =>
    exact hloop fun _ => sound_leave (s := { s with retired := some _ }) h.holds h.told h.numbered
      h.closed .drained .canceled (by simp) (fun _ => true) (by simp)
  | stop =>
    exact hloop fun _ => sound_leave (s := { s with running := false }) h.holds h.told h.numbered
      (fun hc => ⟨rfl, (h.closed hc).2⟩) .drained .canceled (by simp) (fun _ => true) (by simp)
  | close =>
    refine hloop fun hc => ?_
    have hstopped : s.running = false := by grind
    refine ⟨h.holds.perm ?_, ?_, h.numbered, h.drained, fun _ => ⟨hstopped, rfl⟩⟩
    · simp only [tickets, close, map_append, map_map, Function.comp_def, map_id',
        nil_append]
      exact perm_append_comm.trans (by rw [append_assoc])
    · refine forall_mem_append.mpr ⟨h.told, fun d hd => ?_⟩
      obtain ⟨t, -, rfl⟩ := mem_map.mp hd
      simp

theorem sound_run (steps : List Step) (h : Sound first s) : Sound first (s.run steps) := by
  induction steps generalizing s with
  | nil => exact h
  | cons i steps ih => exact ih (h.step i)

theorem sound_new (client : ClientId) (first timeout maxCount maxBytes : Nat) :
    Sound first (new client first timeout maxCount maxBytes) where
  holds := ⟨rfl, rfl, Nat.zero_le _, Nat.zero_le _, nodup_nil, by simp [new, tickets]⟩
  told := by simp [new]
  numbered := ⟨le_rfl, by simp [new]⟩
  drained _ := rfl
  closed h := by cases h

/-- One submit of five bytes is answered and not yet released when the next one comes. -/
def answered : DriverSession :=
  (new 3 0 1000000000 1 8).run
    [.submit [1, 2, 3, 4, 5] 0, .command 0, .committed 3 1 [9], .drop, .submit [6] 0]

/-- The numbers of the requests that have left the map. -/
def left (s : DriverSession) : List Nat := s.fates.map fun f => f.1.request

def sentUnder (s : DriverSession) (k : Nat) : List Request := s.sent.filter fun r => r.request == k

theorem Sound.not_pending (h : Sound first s) {k : Nat} (hk : k ∈ s.left) :
    k ≤ s.nextRequest ∧ ∀ p ∈ s.pending, p.request.request ≠ k := by
  obtain ⟨hle, hperm⟩ := h.numbered
  have hmem := hperm.subset (mem_append_left _ hk)
  rw [mem_range'_1] at hmem
  have hdisjoint := (nodup_append.mp (hperm.nodup_iff.mpr nodup_range')).2.2
  exact ⟨by omega, fun p hp heq => hdisjoint k hk _ (mem_map_of_mem hp) heq.symm⟩

/-- What has left stays away: only a new number or a pending one is sent. -/
theorem Sound.left_step (h : Sound first s) {k : Nat} (hk : k ∈ s.left) (i : Step) :
    k ∈ (s.step i).left ∧ (s.step i).sentUnder k = s.sentUnder k := by
  obtain ⟨hle, hpending⟩ := h.not_pending hk
  have hleave (more : List (Request × Fate)) : k ∈ (more ++ s.fates).map fun f => f.1.request := by
    rw [map_append]
    exact mem_append_right _ hk
  cases i with
  | command now =>
    unfold DriverSession.step DriverSession.handleCommand
    dsimp only
    repeat' split
    all_goals first | exact ⟨hk, rfl⟩ | refine ⟨hk, filter_cons_of_neg ?_⟩
    simpa using (Nat.lt_succ_of_le hle).ne'
  | scan now =>
    unfold DriverSession.step retransmitStale
    dsimp only
    repeat' split
    all_goals first | exact ⟨hk, rfl⟩ | refine ⟨hleave _, ?_⟩
    rw [sentUnder, filter_append]
    refine append_left_eq_self.mpr (filter_eq_nil_iff.mpr fun r hr => ?_)
    obtain ⟨p, hp, rfl⟩ := mem_map.mp hr
    simpa using hpending p (mem_of_mem_filter (mem_of_mem_filter hp))
  | submit _ _ | cancel _ | drop | committed _ _ _ | retire _ _ | stop | close =>
    unfold DriverSession.step
    try unfold DriverSession.submit
    try unfold DriverSession.drop
    dsimp only
    repeat' split
    all_goals first | exact ⟨hk, rfl⟩ | exact ⟨hleave _, rfl⟩

/-- Of the numbers a driver has minted each is pending or has left the pending map, once. In
whatever way it has left, also because a scan found its caller gone, it is never sent again, in no
later run; and the next number is minted all the same. -/
theorem left_numbers_never_resent (client : ClientId) (first timeout maxCount maxBytes : Nat)
    (steps later : List Step) :
    let s := (new client first timeout maxCount maxBytes).run steps
    (s.left ++ s.pending.map fun p => p.request.request).Perm
        (range' (first + 1) (s.nextRequest - first)) ∧
      ∀ k ∈ s.left, (s.run later).sentUnder k = s.sentUnder k := by
  intro s
  have h : Sound first s := sound_run steps (sound_new client first timeout maxCount maxBytes)
  refine ⟨h.numbered.2, fun k hk => ?_⟩
  suffices hrun : ∀ (later : List Step) (s : DriverSession), Sound first s → k ∈ s.left →
      (s.run later).sentUnder k = s.sentUnder k from hrun later s h hk
  intro later
  induction later with
  | nil => exact fun s _ _ => rfl
  | cons i later ih =>
    intro s h hk
    obtain ⟨hstays, hsame⟩ := h.left_step hk i
    exact (ih _ (h.step i) hstays).trans hsame

end DriverSession

end Viewstamp
