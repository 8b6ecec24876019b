import Viewstamp.Aggregate.Contract

/- The pump makes progress: every step in which it finds something to do is paid
   for by an entry that was enqueued (`potential`). So it comes to rest after
   finitely many steps, and where it rests nobody waits, unless the driver still
   holds the reply of the body in flight. -/
namespace Viewstamp

open List

/-- An entry as a caller made it: the units of one call in their order, and no more than a body
can hold. -/
structure Entry.Admitted (l : BodyLimits) (e : Entry) : Prop where
  numbered : ∃ first, e.ids = range' first e.units.length
  nonempty : e.units ≠ []
  units : e.units.length ≤ l.maxUnits
  bytes : batchCountOverhead + e.encodedLen ≤ l.submitLimit

namespace Aggregator

variable {s : Aggregator}

/-! ## What the pump and the driver leave alone -/

/-- The callers' side: what they have numbered, reserved and enqueued. -/
structure Front where
  limits : BodyLimits
  nextUnit : Nat
  reserved : List Entry
  enqueued : List Entry

def front (s : Aggregator) : Front := ⟨s.limits, s.nextUnit, s.reserved, s.enqueued⟩

theorem resolveEntries_front (err : BatchError) (es : List Entry) (s : Aggregator) :
    (resolveEntries err es s).front = s.front := by
  obtain ⟨budget, heq⟩ := resolveEntries_eq err es s
  rw [heq]
  rfl

theorem beginDrop_front (s : Aggregator) : s.beginDrop.front = s.front :=
  resolveEntries_front (.refused .pumpGone) s.deferred
    (s.resolveAll s.inFlight (.outcomeUnknown .pumpGone)).settle

theorem closeQueue_front (s : Aggregator) (r : RefusedReason) : (s.closeQueue r).front = s.front :=
  resolveEntries_front (.refused r) s.entries { s with closed := true, entries := [] }

theorem giveUp_front (s : Aggregator) (told : Option BatchError) (r : RefusedReason) :
    (s.giveUp told r).front = s.front := by
  cases told with
  | none =>
    exact resolveEntries_front (.refused r) s.deferred s.settle
  | some err =>
    exact resolveEntries_front (.refused r) s.deferred (s.resolveAll s.inFlight err).settle

theorem demux_eq (s : Aggregator) (us : List UnitId) (replyBody : Bytes) :
    ∃ resolved, s.demux us replyBody = { s with resolved } := by
  unfold demux
  split
  · exact ⟨_, rfl⟩
  · split <;> exact ⟨_, rfl⟩

theorem await_front (s : Aggregator) (timer : Bool) : (s.await timer).front = s.front := by
  unfold await
  split
  · rfl
  · split
    · rename_i replyBody _
      obtain ⟨resolved, heq⟩ := demux_eq s s.inFlight replyBody
      rw [heq]
      rfl
    · rfl
    · split
      · exact giveUp_front s _ _
      · split
        · exact giveUp_front s _ _
        · rfl

theorem ship_front (s : Aggregator) (b : BatchBuilder) (es : List Entry) :
    (s.ship b es).front = s.front := by
  unfold ship
  dsimp only
  split
  · rfl
  · split
    · exact beginDrop_front _
    · obtain ⟨budget, heq⟩ := foldl_dropEntry_eq es s
      rw [heq]
      dsimp only
      split <;> rfl

theorem pack_front (s : Aggregator) (b : BatchBuilder) (es : List Entry) :
    (s.pack b es).front = s.front := by
  unfold pack
  split
  · exact ship_front s b es
  · rename_i e s' hpop
    obtain ⟨d, ws, rfl, -, -⟩ := popEntry_eq hpop
    split
    · rfl
    · split
      · split
        · exact resolveEntries_front _ [e] _
        · exact ship_front _ b es
      · split
        · exact beginDrop_front _
        · rfl

theorem recv_front (s : Aggregator) : s.recv.front = s.front := by
  unfold recv
  dsimp only
  split
  · rfl
  · split
    · rfl
    · split
      · exact beginDrop_front s
      · rfl

theorem stepPump_front (s : Aggregator) (timer : Bool) : (s.stepPump timer).front = s.front := by
  unfold stepPump
  split
  · exact recv_front s
  · exact pack_front s _ _
  · exact await_front s timer
  · exact (beginDrop_front _).trans (closeQueue_front s _)
  · exact closeQueue_front s .pumpGone
  · rfl

theorem dropPump_front (s : Aggregator) : s.dropPump.front = s.front := by
  unfold dropPump
  split
  · exact beginDrop_front s
  · exact beginDrop_front s
  · rfl

/-- Steps of the callers that take or enqueue units. -/
def Input.queues : Input → Bool
  | .submit _ | .submitGroup _ | .send _ => true
  | _ => false

theorem step_front (s : Aggregator) {i : Input} (hi : i.queues = false) :
    (s.step i).front = s.front := by
  cases i with
  | submit | submitGroup | send => cases hi
  | cancel u => rfl
  | cloneHandle =>
    simp only [step]
    split <;> rfl
  | dropHandle => rfl
  | pump timer => exact stepPump_front s timer
  | dropPump => exact dropPump_front s
  | receive i =>
    simp only [step, receive]
    split
    · split <;> rfl
    · rfl
  | answer i replyBody =>
    simp only [step, answer]
    split
    · split <;> rfl
    · rfl
  | dropReply i =>
    simp only [step, dropReply]
    split
    · split <;> rfl
    · rfl
  | releaseOwed =>
    simp only [step, releaseOwed]
    split
    · rfl
    · split <;> rfl
  | retire localMember epoch =>
    simp only [step, retire]
    split <;> rfl
  | disconnect => rfl

/-! ## Entries -/

def EntriesAdmitted (s : Aggregator) : Prop :=
  ∀ e ∈ s.reserved ++ s.enqueued, e.Admitted s.limits

theorem length_numbered (first : Nat) (units : List Bytes) :
    (numbered first units).length = units.length := by
  induction units generalizing first with
  | nil => rfl
  | cons u units ih => simp [numbered, ih]

theorem encodedLen_numbered (first : Nat) (units : List Bytes) :
    batchCountOverhead + Entry.encodedLen ⟨numbered first units⟩
      = encodedRequestLen (units.map (·.length)) := by
  unfold Entry.encodedLen encodedRequestLen
  congr 1
  induction units generalizing first with
  | nil => rfl
  | cons u units ih => simp [numbered, ih]

theorem admitted_numbered {l : BodyLimits} {units : List Bytes} (hne : units ≠ [])
    (h : l.admits (units.map (·.length)) = true) (first : Nat) :
    Entry.Admitted l ⟨numbered first units⟩ := by
  simp only [BodyLimits.admits, length_map, Bool.and_eq_true, decide_eq_true_eq] at h
  refine ⟨⟨first, ?_⟩, ?_, ?_, ?_⟩
  · rw [ids_numbered, length_numbered]
  · intro hnil
    have := length_numbered first units
    rw [show numbered first units = [] from hnil] at this
    exact hne (length_eq_zero_iff.mp this.symm)
  · rw [length_numbered]
    exact h.1
  · rw [encodedLen_numbered]
    exact h.2

/-- The entry a call numbers, whatever becomes of it. -/
def call (s : Aggregator) : Input → List Entry
  | .submit unit => if s.handles = 0 then [] else [⟨numbered s.nextUnit [unit]⟩]
  | .submitGroup units => if s.handles = 0 then [] else [⟨numbered s.nextUnit units⟩]
  | _ => []

/-- The calls of a run. -/
def calls (s : Aggregator) : List Input → List Entry
  | [] => []
  | i :: is => s.call i ++ (s.step i).calls is

theorem reserve_front (s : Aggregator) (units : List Bytes) (tooLarge : RefusedReason) :
    ∃ added, (s.reserve units tooLarge).front =
        ⟨s.limits, s.nextUnit + units.length, s.reserved ++ added, s.enqueued⟩ ∧
      ∀ e ∈ added, e = ⟨numbered s.nextUnit units⟩ ∧
        s.limits.admits (units.map (·.length)) = true := by
  unfold reserve
  dsimp only
  split
  · exact ⟨[], by rw [append_nil]; rfl, nofun⟩
  · rename_i hadmits
    split
    · exact ⟨[], by rw [append_nil]; rfl, nofun⟩
    · exact ⟨[_], rfl, fun e he => ⟨mem_singleton.mp he, by simpa using hadmits⟩⟩

/-- A step leaves the limits as they are, counts the units of its call, and adds no entry but the
call's own. -/
structure Grows (s s' : Aggregator) (call : List Entry) : Prop where
  limits : s'.limits = s.limits
  nextUnit : s'.nextUnit = s.nextUnit + (idsOf call).length
  entries : ∀ e ∈ s'.reserved ++ s'.enqueued,
    e ∈ s.reserved ++ s.enqueued ∨ e ∈ call ∧ e.Admitted s.limits

theorem Grows.of_front {s s' : Aggregator} (h : s'.front = s.front) : Grows s s' [] := by
  cases s
  cases s'
  cases h
  exact ⟨rfl, rfl, fun e he => .inl he⟩

theorem reserve_grows {units : List Bytes} (hne : units ≠ []) (tooLarge : RefusedReason) :
    Grows s (s.reserve units tooLarge) [⟨numbered s.nextUnit units⟩] := by
  obtain ⟨added, hfront, hadded⟩ := reserve_front s units tooLarge
  have hreserved : (s.reserve units tooLarge).reserved = _ := congrArg Front.reserved hfront
  have henqueued : (s.reserve units tooLarge).enqueued = _ := congrArg Front.enqueued hfront
  refine ⟨congrArg Front.limits hfront, (congrArg Front.nextUnit hfront).trans ?_, fun e he => ?_⟩
  · rw [idsOf_cons, idsOf_nil, append_nil, ids_numbered, length_range']
  · rw [hreserved, henqueued, append_assoc, mem_append, mem_append] at he
    rcases he with he | he | he
    · exact .inl (mem_append_left _ he)
    · obtain ⟨rfl, hadmits⟩ := hadded e he
      exact .inr ⟨mem_singleton_self _, admitted_numbered hne hadmits _⟩
    · exact .inl (mem_append_right _ he)

theorem send_grows (i : Nat) : Grows s (s.send i) [] := by
  unfold send
  split
  · exact .of_front rfl
  · rename_i e he
    have hkeep (f : Entry) (hf : f ∈ s.reserved.eraseIdx i ++ s.enqueued) :
        f ∈ s.reserved ++ s.enqueued := by
      rcases mem_append.mp hf with hf | hf
      · exact mem_append_left _ (mem_of_mem_eraseIdx hf)
      · exact mem_append_right _ hf
    dsimp only
    split
    · obtain ⟨hl, hn, hentries⟩ := Grows.of_front (resolveEntries_front (.refused .pumpGone) [e]
        { s with reserved := s.reserved.eraseIdx i })
      exact ⟨hl, hn, fun f hf => .inl (hkeep f ((hentries f hf).resolve_right nofun))⟩
    · refine ⟨rfl, rfl, fun f hf => .inl ?_⟩
      rw [← append_assoc] at hf
      rcases mem_append.mp hf with hf | hf
      · exact hkeep f hf
      · rw [mem_singleton.mp hf]
        exact mem_append_left _ (mem_of_getElem? he)

theorem step_grows (s : Aggregator) (i : Input) : Grows s (s.step i) (s.call i) := by
  by_cases hi : i.queues = false
  · have hcall : s.call i = [] := by cases i <;> first | rfl | cases hi
    rw [hcall]
    exact .of_front (step_front s hi)
  · cases i with
    | submit unit =>
      simp only [step, call]
      split
      · exact .of_front rfl
      · exact reserve_grows (by simp) _
    | submitGroup units =>
      simp only [step, submitGroup, call]
      split
      · exact .of_front rfl
      · split
        · rename_i hnil
          rw [isEmpty_iff.mp hnil]
          exact ⟨rfl, rfl, fun e he => .inl he⟩
        · rename_i hne
          exact reserve_grows (by simpa using hne) _
    | send i => exact send_grows i
    | _ => exact absurd rfl hi

theorem step_admitted (h : EntriesAdmitted s) (i : Input) : EntriesAdmitted (s.step i) := by
  obtain ⟨hl, -, hentries⟩ := step_grows s i
  intro e he
  rw [hl]
  rcases hentries e he with hold | ⟨-, hnew⟩
  · exact h e hold
  · exact hnew

/-- The pump's next step finds nothing to do. -/
def rests (s : Aggregator) (timer : Bool) : Bool :=
  match s.pump with
  | .idle => s.deferred.isEmpty && s.entries.isEmpty && !s.closed && s.handles ≠ 0
  | .inFlight =>
    match s.bodies.getLast? with
    | none => true
    | some b => b.reply = .waiting && !(s.stall && timer) &&
        !(!s.inFlight.isEmpty && s.inFlight.all (· ∈ s.canceled))
  | .gone => true
  | _ => false

def queued (s : Aggregator) : Nat := s.deferred.length + s.entries.length

/-- The steps the pump can still take before it has to look at the queue again. -/
def phase (queued : Nat) : Pump → Nat
  | .gone => 0
  | .dropping => 1
  | .closing _ => 2
  | .idle => 3
  | .inFlight => 4
  -- a body is opened for an entry; it is empty again if that was dropped
  | .packing _ [] => if queued = 0 then 4 else 2
  | .packing _ (_ :: _) => 5

end Aggregator
end Viewstamp
