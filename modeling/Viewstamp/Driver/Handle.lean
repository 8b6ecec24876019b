import Viewstamp.Batch

/- The handle through which an application submits to its driver: the in-flight
   budget, the command channel and the retirement latch. -/
namespace Viewstamp

/-- The receiving end of a reply channel. -/
inductive Oneshot (α : Type) where
  | waiting
  | sent (a : α)
  | canceled
  deriving DecidableEq

/-- The submits in flight, by number and by bytes, with their caps. -/
structure InflightBudget where
  count : Nat := 0
  bytes : Nat := 0
  maxCount : Nat
  maxBytes : Nat
  deriving DecidableEq

namespace InflightBudget

def tryAcquireMany (b : InflightBudget) (count bodyLen : Nat) : Option InflightBudget :=
  if b.count + count > b.maxCount ∨ b.bytes + bodyLen > b.maxBytes then none
  else some { b with count := b.count + count, bytes := b.bytes + bodyLen }

def tryAcquire (b : InflightBudget) (bodyLen : Nat) : Option InflightBudget :=
  b.tryAcquireMany 1 bodyLen

/-- A reservation is dropped. -/
def release (b : InflightBudget) (count bodyLen : Nat) : InflightBudget :=
  { b with count := b.count - count, bytes := b.bytes - bodyLen }

end InflightBudget

/-- The verdicts a submit can end in, other than its reply. -/
inductive DriverError where
  | driverGone
  | replyDropped
  | busy
  | requestTooLarge
  | retired (localMember : MemberId) (epoch : Epoch)
  deriving DecidableEq

/-- What a handle shares with its driver. -/
structure Handle where
  budget : InflightBudget
  retired : Option (MemberId × Epoch) := none
  /-- The driver still holds the receiving end of the command channel. -/
  connected : Bool := true
  /-- The commands that wait in the channel. -/
  queued : Nat := 0
  deriving DecidableEq

namespace Handle

/-- `DriverConfig::cmd_cap`: how many commands the channel buffers. A send over it still goes
through, but parks the sender until the driver takes a command. -/
def cmdCap (h : Handle) : Nat := h.budget.maxCount + 1

/-- `submit` up to its await: the command is with the driver, or the error says why not. A command
that cannot be sent is dropped, and its reservation with it. -/
def submit (h : Handle) (body : Bytes) : Except DriverError Handle :=
  match h.retired with
  | some (localMember, epoch) => .error (.retired localMember epoch)
  | none =>
    if maxRequestBodyLen < body.length then .error .requestTooLarge
    else
      match h.budget.tryAcquire body.length with
      | none => .error .busy
      | some budget =>
        if !h.connected then .error .driverGone
        else if h.cmdCap < h.queued then .error .busy
        else .ok { h with budget, queued := h.queued + 1 }

/-- What a submit ends in when the driver drops its reply channel. -/
def replyDroppedReason (h : Handle) : DriverError :=
  match h.retired with
  | some (localMember, epoch) => .retired localMember epoch
  | none => .replyDropped

/-- The largest body that can ever be admitted. -/
def submitByteLimit (h : Handle) : Nat := min maxRequestBodyLen h.budget.maxBytes

end Handle

end Viewstamp
