import Mathlib.Data.Finset.Basic
import Viewstamp.Driver.Handle

/- The aggregator: callers queue units, one pump packs them into bodies and
   submits one body at a time through the driver's handle.

   The model is the interleaving of three kinds of task. A caller checks the
   limits and reserves queue budget (`reserve`), then enqueues (`send`); it may
   give up at any time (`cancel`). The pump's step is its code from one access to
   shared state to the next; it can be dropped where it awaits. The driver answers
   a body, or drops its reply channel, and only then drops its reservation: the
   two are separate steps, since the pump runs on another thread.

   Wakers are left out: a step of the pump that finds nothing to do is a no-op.
   Reply channels of units are identified by the unit's number. -/
namespace Viewstamp

/-! ## Configuration, errors and entries -/

structure BatchConfig where
  maxQueuedUnits : Nat := 4096
  maxQueuedBytes : Nat := 128 * 1024 * 1024
  maxUnitReplyLen : Nat
  deriving DecidableEq

inductive RefusedReason where
  | queueFull
  | unitTooLarge
  | groupTooLarge
  | pumpGone
  | stalled
  | driverRefused
  deriving DecidableEq

inductive OutcomeUnknownReason where
  | replyDropped
  | stalled
  | driver
  | pumpGone
  deriving DecidableEq

inductive ReplyLostReason where
  | malformedReply
  | replyCountMismatch
  deriving DecidableEq

inductive BatchError where
  /-- Never handed to consensus: safe to submit again. -/
  | refused (reason : RefusedReason)
  /-- It may have committed. -/
  | outcomeUnknown (reason : OutcomeUnknownReason)
  /-- It committed, and the reply is unusable. -/
  | committedReplyLost (reason : ReplyLostReason)
  deriving DecidableEq

abbrev UnitId := Nat

structure PendingUnit where
  id : UnitId
  body : Bytes
  deriving DecidableEq

/-- The units one caller queued together. -/
structure Entry where
  units : List PendingUnit
  deriving DecidableEq

namespace Entry

def ids (e : Entry) : List UnitId := e.units.map (·.id)

/-- What the units add to a body; also the bytes of the entry's queue reservation. -/
def encodedLen (e : Entry) : Nat := (e.units.map fun u => batchUnitOverhead + u.body.length).sum

end Entry

/-- The length of a body with units of these lengths. -/
def encodedRequestLen (lens : List Nat) : Nat :=
  batchCountOverhead + (lens.map (batchUnitOverhead + ·)).sum

/-- As many units as replies of the largest length fit one reply body. -/
def maxUnitsPerBody (maxUnitReplyLen : Nat) : Nat :=
  (maxReplyBodyLen - batchCountOverhead) / (maxUnitReplyLen + batchUnitOverhead)

structure BodyLimits where
  submitLimit : Nat
  maxUnits : Nat
  deriving DecidableEq

namespace BodyLimits

def admits (l : BodyLimits) (lens : List Nat) : Bool :=
  lens.length ≤ l.maxUnits && encodedRequestLen lens ≤ l.submitLimit

def fitsOpenBody (l : BodyLimits) (builder : BatchBuilder) (packedUnits : Nat) (e : Entry) : Bool :=
  packedUnits + e.units.length ≤ l.maxUnits && builder.bytesUsed + e.encodedLen ≤ builder.budget

end BodyLimits

/-! ## The state -/

/-- A body as it was handed to `Handle::submit`, and what became of it. -/
structure Submitted where
  entries : List Entry
  body : Bytes
  /-- The error of the first poll; without one the driver has accepted the body. -/
  refusal : Option DriverError := none
  reply : Oneshot Bytes := .waiting
  /-- The driver has taken the command from the channel. -/
  received : Bool := false
  /-- The reservation has been dropped. -/
  released : Bool := false
  /-- The pump has taken the verdict, or has given the body up. -/
  settled : Bool := false
  deriving DecidableEq

namespace Submitted

def callers (b : Submitted) : List UnitId := b.entries.flatMap Entry.ids
def accepted (b : Submitted) : Bool := b.refusal.isNone

end Submitted

/-- Assertions and expectations of the pump's code that failed. -/
inductive Fault where
  | entryOverEmptyBody
  | pushExpect
  | finishExpect
  | submitFailure
  deriving DecidableEq

/-- Where the pump is. It awaits in `idle` and in `inFlight`. -/
inductive Pump where
  | idle
  | packing (builder : BatchBuilder) (packed : List Entry)
  | inFlight
  /-- About to close the queue; `reason` is why the entries left in it are refused. -/
  | closing (reason : RefusedReason)
  /-- Being dropped, with the queue still to be closed. -/
  | dropping
  | gone
  deriving DecidableEq

structure Aggregator where
  limits : BodyLimits
  /-- A stall timer is armed for every body. -/
  stall : Bool
  nextUnit : Nat := 0
  budget : InflightBudget
  /-- Entries whose callers hold a reservation and are about to enqueue them. -/
  reserved : List Entry := []
  entries : List Entry := []
  closed : Bool := false
  handles : Nat := 1
  deferred : List Entry := []
  inFlight : List UnitId := []
  pump : Pump := .idle
  handle : Handle
  /-- The body whose reply the driver has sent or dropped while it still holds the reservation. -/
  owes : Option Nat := none
  canceled : Finset UnitId := ∅
  /-- Every entry that was enqueued, in order. -/
  enqueued : List Entry := []
  /-- Every body that was submitted, in order. -/
  bodies : List Submitted := []
  /-- Every outcome a caller was given, in order. -/
  resolved : List (UnitId × Except BatchError Bytes) := []
  faults : List Fault := []

namespace Aggregator

/-- `aggregator` and `aggregator_with_stall`. -/
def new (handle : Handle) (cfg : BatchConfig) (stall : Bool) : Aggregator where
  limits := ⟨handle.submitByteLimit, maxUnitsPerBody cfg.maxUnitReplyLen⟩
  stall := stall
  budget := { maxCount := cfg.maxQueuedUnits, maxBytes := cfg.maxQueuedBytes }
  handle := handle

/-! ## Resolving -/

def resolveAll (s : Aggregator) (units : List UnitId) (err : BatchError) : Aggregator :=
  { s with resolved := s.resolved ++ units.map fun u => (u, .error err) }

/-- An entry is dropped, and its queue reservation with it. -/
def dropEntry (s : Aggregator) (e : Entry) : Aggregator :=
  { s with budget := s.budget.release e.units.length e.encodedLen }

def resolveEntries (err : BatchError) : List Entry → Aggregator → Aggregator
  | [], s => s
  | e :: es, s => resolveEntries err es ((s.resolveAll e.ids err).dropEntry e)

/-- Give every caller the unit of the reply at its own position. -/
def demux (s : Aggregator) (units : List UnitId) (replyBody : Bytes) : Aggregator :=
  match RawView.parse replyBody with
  | .error _ => s.resolveAll units (.committedReplyLost .malformedReply)
  | .ok view =>
    if view.count ≠ units.length then s.resolveAll units (.committedReplyLost .replyCountMismatch)
    else { s with
      resolved := s.resolved ++ (units.zip view.unitList).map fun r => (r.1, .ok r.2) }

def submitFailure : DriverError → BatchError
  | .driverGone | .busy | .requestTooLarge => .refused .driverRefused
  | .replyDropped => .outcomeUnknown .replyDropped
  | .retired _ _ => .outcomeUnknown .driver

/-- The assertion of `submit_failure`. -/
def submitFailureAsserts : DriverError → Bool
  | .busy | .requestTooLarge => true
  | _ => false

/-! ## Callers -/

def numbered (first : Nat) : List Bytes → List PendingUnit
  | [] => []
  | body :: bodies => ⟨first, body⟩ :: numbered (first + 1) bodies

/-- Check the limits and reserve queue budget for units that travel together. -/
def reserve (s : Aggregator) (units : List Bytes) (tooLarge : RefusedReason) : Aggregator :=
  let e : Entry := ⟨numbered s.nextUnit units⟩
  let s := { s with nextUnit := s.nextUnit + units.length }
  if !s.limits.admits (units.map (·.length)) then s.resolveAll e.ids (.refused tooLarge)
  else
    match s.budget.tryAcquireMany units.length e.encodedLen with
    | none => s.resolveAll e.ids (.refused .queueFull)
    | some budget => { s with budget, reserved := s.reserved ++ [e] }

def submit (s : Aggregator) (unit : Bytes) : Aggregator := s.reserve [unit] .unitTooLarge

def submitGroup (s : Aggregator) (units : List Bytes) : Aggregator :=
  if units.isEmpty then s else s.reserve units .groupTooLarge

/-- Enqueue a reserved entry, or refuse it when the pump is gone. -/
def send (s : Aggregator) (i : Nat) : Aggregator :=
  match s.reserved[i]? with
  | none => s
  | some e =>
    let s := { s with reserved := s.reserved.eraseIdx i }
    if s.closed then resolveEntries (.refused .pumpGone) [e] s
    else { s with entries := s.entries ++ [e], enqueued := s.enqueued ++ [e] }

/-! ## The pump -/

def fullyCanceled (s : Aggregator) (e : Entry) : Bool := e.units.all fun u => u.id ∈ s.canceled

def popEntry (s : Aggregator) : Option (Entry × Aggregator) :=
  match s.deferred with
  | e :: rest => some (e, { s with deferred := rest })
  | [] =>
    match s.entries with
    | e :: rest => some (e, { s with entries := rest })
    | [] => none

def pushAll : List PendingUnit → BatchBuilder → Except BatchFull BatchBuilder
  | [], b => .ok b
  | u :: us, b =>
    match b.push u.body with
    | .ok b => pushAll us b
    | .error e => .error e

/-- The verdict on the body in flight is in: it is settled. -/
def settle (s : Aggregator) : Aggregator :=
  { s with
    inFlight := []
    bodies :=
      s.bodies.dropLast ++ s.bodies.getLast?.toList.map fun b => { b with settled := true } }

/-- The beginning of the pump's destructor. -/
def beginDrop (s : Aggregator) : Aggregator :=
  let s := (s.resolveAll s.inFlight (.outcomeUnknown .pumpGone)).settle
  let s := resolveEntries (.refused .pumpGone) s.deferred s
  { s with deferred := [], pump := .dropping }

/-- Close the queue and refuse what is left in it. -/
def closeQueue (s : Aggregator) (reason : RefusedReason) : Aggregator :=
  resolveEntries (.refused reason) s.entries { s with closed := true, entries := [] }

/-- Wait for the first entry of the next body. -/
def recv (s : Aggregator) : Aggregator :=
  let ready (s : Aggregator) := { s with pump := .packing (.new s.limits.submitLimit) [] }
  match s.deferred with
  | _ :: _ => ready s
  | [] =>
    match s.entries with
    | e :: rest => ready { s with entries := rest, deferred := [e] }
    | [] => if s.closed || s.handles = 0 then s.beginDrop else s

/-- Submit the packed body. -/
def ship (s : Aggregator) (builder : BatchBuilder) (packed : List Entry) : Aggregator :=
  let callers := packed.flatMap Entry.ids
  if callers.isEmpty then { s with pump := .idle }
  else
    match builder.finish with
    | none => { s with faults := .finishExpect :: s.faults }.beginDrop
    | some body =>
      -- the queue reservations go once the first poll of the submit has run
      let s := packed.foldl dropEntry s
      match s.handle.submit body with
      | .error e =>
        let s : Aggregator := { s with
          bodies := s.bodies ++ [{ entries := packed, body, refusal := some e, settled := true }]
          faults := if submitFailureAsserts e then .submitFailure :: s.faults else s.faults
          pump := .idle }
        s.resolveAll callers (submitFailure e)
      | .ok handle =>
        { s with
          handle
          bodies := s.bodies ++ [{ entries := packed, body }]
          inFlight := callers
          pump := .inFlight }

/-- Pack one more entry, or submit when there is none or it does not fit. -/
def pack (s : Aggregator) (builder : BatchBuilder) (packed : List Entry) : Aggregator :=
  match s.popEntry with
  | none => s.ship builder packed
  | some (e, s) =>
    if s.fullyCanceled e then s.dropEntry e
    else if !s.limits.fitsOpenBody builder (packed.flatMap Entry.ids).length e then
      if builder.isEmpty then
        let reason := if 1 < e.units.length then .groupTooLarge else .unitTooLarge
        resolveEntries (.refused reason) [e]
          { s with faults := .entryOverEmptyBody :: s.faults }
      else { s with deferred := e :: s.deferred }.ship builder packed
    else
      match pushAll e.units builder with
      | .error _ => { s with faults := .pushExpect :: s.faults }.beginDrop
      | .ok builder => { s with pump := .packing builder (packed ++ [e]) }

/-- The body in flight is given up: its callers are told `told`, if anything, and everything
behind it is refused. -/
def giveUp (s : Aggregator) (told : Option BatchError) (reason : RefusedReason) : Aggregator :=
  let s := match told with
    | some e => s.resolveAll s.inFlight e
    | none => s
  let s := s.settle
  let s := resolveEntries (.refused reason) s.deferred s
  { s with deferred := [], pump := .closing reason }

/-- The await of the body in flight: its answer, the stall timer, or nobody left to answer. -/
def await (s : Aggregator) (timer : Bool) : Aggregator :=
  match s.bodies.getLast? with
  | none => s
  | some b =>
    match b.reply with
    | .sent replyBody => { (s.demux s.inFlight replyBody).settle with pump := .idle }
    | .canceled =>
      { (s.resolveAll s.inFlight (submitFailure s.handle.replyDroppedReason)).settle with
        pump := .idle }
    | .waiting =>
      if s.stall && timer then s.giveUp (some (.outcomeUnknown .stalled)) .stalled
      else if !s.inFlight.isEmpty && s.inFlight.all (· ∈ s.canceled) then
        s.giveUp none .pumpGone
      else s

/-- The next step of the pump; `timer` when the stall timer of the body in flight has fired. -/
def stepPump (s : Aggregator) (timer : Bool) : Aggregator :=
  match s.pump with
  | .idle => s.recv
  | .packing builder packed => s.pack builder packed
  | .inFlight => s.await timer
  | .closing reason => (s.closeQueue reason).beginDrop
  | .dropping => { s.closeQueue .pumpGone with pump := .gone }
  | .gone => s

/-- The pump, or its run future, is dropped where it awaits. -/
def dropPump (s : Aggregator) : Aggregator :=
  match s.pump with
  | .idle | .inFlight => s.beginDrop
  | _ => s

/-! ## The driver -/

def updateBody (s : Aggregator) (i : Nat) (f : Submitted → Submitted) : Aggregator :=
  { s with bodies := s.bodies.modify i f }

/-- The driver takes the command of a body from the channel. -/
def receive (s : Aggregator) (i : Nat) : Aggregator :=
  match s.owes, s.bodies[i]? with
  | none, some b =>
    if b.accepted && !b.received then
      { s.updateBody i fun b => { b with received := true } with
        handle := { s.handle with queued := s.handle.queued - 1 } }
    else s
  | _, _ => s

/-- `deliver_event` of the commit of a body: the reply is sent; the reservation is still held. -/
def answer (s : Aggregator) (i : Nat) (replyBody : Bytes) : Aggregator :=
  match s.owes, s.bodies[i]? with
  | none, some b =>
    if b.accepted && b.received && b.reply = .waiting && !b.released then
      { s.updateBody i fun b => { b with reply := .sent replyBody } with owes := some i }
    else s
  | _, _ => s

/-- The driver drops a command or a pending entry: first the reply channel. -/
def dropReply (s : Aggregator) (i : Nat) : Aggregator :=
  match s.owes, s.bodies[i]? with
  | none, some b =>
    if b.accepted && b.reply = .waiting && !b.released then
      { s.updateBody i fun b => { b with reply := .canceled, received := true } with
        handle := if b.received then s.handle else { s.handle with queued := s.handle.queued - 1 }
        owes := some i }
    else s
  | _, _ => s

/-- Then the reservation. -/
def releaseOwed (s : Aggregator) : Aggregator :=
  match s.owes with
  | none => s
  | some i =>
    match s.bodies[i]? with
    | none => s
    | some b =>
      { s.updateBody i fun b => { b with released := true } with
        handle := { s.handle with budget := s.handle.budget.release 1 b.body.length }
        owes := none }

def retire (s : Aggregator) (localMember : MemberId) (epoch : Epoch) : Aggregator :=
  match s.handle.retired with
  | some _ => s
  | none => { s with handle := { s.handle with retired := some (localMember, epoch) } }

def disconnect (s : Aggregator) : Aggregator :=
  { s with handle := { s.handle with connected := false } }

/-! ## Runs -/

inductive Input where
  | submit (unit : Bytes)
  | submitGroup (units : List Bytes)
  | send (i : Nat)
  | cancel (u : UnitId)
  | cloneHandle
  | dropHandle
  | pump (timer : Bool)
  | dropPump
  | receive (i : Nat)
  | answer (i : Nat) (replyBody : Bytes)
  | dropReply (i : Nat)
  | releaseOwed
  | retire (localMember : MemberId) (epoch : Epoch)
  | disconnect
  deriving DecidableEq

def step (s : Aggregator) : Input → Aggregator
  | .submit unit => if s.handles = 0 then s else s.submit unit
  | .submitGroup units => if s.handles = 0 then s else s.submitGroup units
  | .send i => s.send i
  | .cancel u => { s with canceled := insert u s.canceled }
  | .cloneHandle => if s.handles = 0 then s else { s with handles := s.handles + 1 }
  | .dropHandle => { s with handles := s.handles - 1 }
  | .pump timer => s.stepPump timer
  | .dropPump => s.dropPump
  | .receive i => s.receive i
  | .answer i replyBody => s.answer i replyBody
  | .dropReply i => s.dropReply i
  | .releaseOwed => s.releaseOwed
  | .retire localMember epoch => s.retire localMember epoch
  | .disconnect => s.disconnect

def run (s : Aggregator) (is : List Input) : Aggregator := is.foldl step s

end Aggregator

end Viewstamp
