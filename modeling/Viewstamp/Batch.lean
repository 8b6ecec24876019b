import Viewstamp.Codec.Words
import Viewstamp.Message

/- The batch codec: several client units in one request body, several replies in
   one reply body. A body is a 4-byte count followed by the units, each with its
   own 4-byte length. -/
namespace Viewstamp

/-! ## What one frame can carry -/

def requestEncodeOverhead : Nat :=
  envelopeArmOverhead + worstIdField + worstUint64Field + lenFieldOverhead

def prepareEncodeOverhead : Nat :=
  envelopeArmOverhead + 6 * worstUint64Field + 2 * worstIdField + lenFieldOverhead

def replyEncodeOverhead : Nat :=
  envelopeArmOverhead + 2 * worstUint64Field + worstIdField + lenFieldOverhead

def maxRequestBodyOverhead : Nat :=
  max (max requestEncodeOverhead prepareEncodeOverhead)
    (max (repairBatchCarrierOverhead + logEntryBodyOverhead)
      (prepareBatchCarrierOverhead + logEntryBodyOverhead))

def maxRequestBodyLen : Nat := maxFrameLen - maxRequestBodyOverhead
def maxReplyBodyLen : Nat := maxFrameLen - replyEncodeOverhead

/-! ## Building -/

def batchCountOverhead : Nat := 4
def batchUnitOverhead : Nat := 4

/-- The encoded lengths are 32 bits wide. -/
def budgetCap : Nat := 2 ^ 32 - 1

structure BatchFull where
  bytesUsed : Nat
  unitLen : Nat
  budget : Nat
  deriving DecidableEq

/-- A batch under construction; the first four bytes of the buffer wait for the count. -/
structure BatchBuilder where
  buf : Bytes
  count : Nat
  budget : Nat
  deriving DecidableEq

namespace BatchBuilder

def new (budget : Nat) : BatchBuilder :=
  ⟨List.replicate batchCountOverhead 0, 0, min budget budgetCap⟩

def bytesUsed (b : BatchBuilder) : Nat := b.buf.length
def isEmpty (b : BatchBuilder) : Bool := b.count = 0

def push (b : BatchBuilder) (unit : Bytes) : Except BatchFull BatchBuilder :=
  if b.buf.length + batchUnitOverhead + unit.length ≤ b.budget then
    .ok { b with buf := b.buf ++ beBytes 4 unit.length ++ unit, count := b.count + 1 }
  else .error ⟨b.buf.length, unit.length, b.budget⟩

/-- The finished body; an empty batch has none. -/
def finish (b : BatchBuilder) : Option Bytes :=
  if b.count = 0 then none else some (beBytes 4 b.count ++ b.buf.drop batchCountOverhead)

end BatchBuilder

inductive ReplyPushError where
  | unitOverCeiling (len maxUnitLen : Nat)
  | full (e : BatchFull)
  deriving DecidableEq

/-- The same for replies, with a ceiling for each unit. -/
structure ReplyBuilder where
  inner : BatchBuilder
  maxUnitLen : Nat
  deriving DecidableEq

namespace ReplyBuilder

def new (budget maxUnitLen : Nat) : ReplyBuilder := ⟨.new budget, maxUnitLen⟩

def bytesUsed (b : ReplyBuilder) : Nat := b.inner.bytesUsed

/-- The ceiling is checked before the budget. -/
def push (b : ReplyBuilder) (unit : Bytes) : Except ReplyPushError ReplyBuilder :=
  if b.maxUnitLen < unit.length then .error (.unitOverCeiling unit.length b.maxUnitLen)
  else
    match b.inner.push unit with
    | .ok inner => .ok { b with inner }
    | .error e => .error (.full e)

def finish (b : ReplyBuilder) : Option Bytes := b.inner.finish

end ReplyBuilder

/-! ## Parsing -/

inductive BatchMalformed where
  | truncated (expected got : Nat)
  | zeroCount
  | countOverflow (count remaining : Nat)
  | lengthOverflow (len remaining : Nat)
  | trailingBytes (n : Nat)
  deriving DecidableEq

/-- A body that parsed: the bytes after the count, and the count. -/
structure RawView where
  units : Bytes
  count : Nat
  deriving DecidableEq

namespace RawView

/-- Walk the units; what follows the last one is trailing. -/
def walk : (left : Nat) → (tail : Bytes) → Except BatchMalformed Unit
  | 0, tail => if tail.isEmpty then .ok () else .error (.trailingBytes tail.length)
  | left + 1, tail =>
    if tail.length < batchUnitOverhead then .error (.truncated batchUnitOverhead tail.length)
    else
      let len := ofBeBytes (tail.take batchUnitOverhead)
      let rest := tail.drop batchUnitOverhead
      if rest.length < len then .error (.lengthOverflow len rest.length)
      else walk left (rest.drop len)

def parse (buf : Bytes) : Except BatchMalformed RawView :=
  if buf.length < batchCountOverhead then .error (.truncated batchCountOverhead buf.length)
  else
    let count := ofBeBytes (buf.take batchCountOverhead)
    let units := buf.drop batchCountOverhead
    if count = 0 then .error .zeroCount
    else if count * batchUnitOverhead > units.length then .error (.countOverflow count units.length)
    else
      match walk count units with
      | .ok () => .ok ⟨units, count⟩
      | .error e => .error e

/-- The iterator over the units of a view. -/
def unitsFrom : (remaining : Nat) → (tail : Bytes) → List Bytes
  | 0, _ => []
  | remaining + 1, tail =>
    if tail.length < batchUnitOverhead then []
    else
      let len := ofBeBytes (tail.take batchUnitOverhead)
      let rest := tail.drop batchUnitOverhead
      if rest.length < len then []
      else rest.take len :: unitsFrom remaining (rest.drop len)

def unitList (v : RawView) : List Bytes := unitsFrom v.count v.units

end RawView

/-! ## What the two sides agree on -/

theorem RawView.length_unitsFrom : ∀ (left : Nat) (tail : Bytes),
    RawView.walk left tail = .ok () → (RawView.unitsFrom left tail).length = left
  | 0, _, _ => rfl
  | left + 1, tail, h => by
    unfold RawView.walk at h
    unfold RawView.unitsFrom
    dsimp only at h ⊢
    split at h
    · cases h
    · rename_i hshort
      split at h
      · cases h
      · rename_i hlong
        rw [if_neg hshort, if_neg hlong, List.length_cons, RawView.length_unitsFrom left _ h]

/-- A view that parsed yields as many units as it counts. -/
theorem RawView.length_unitList {buf : Bytes} {v : RawView} (h : RawView.parse buf = .ok v) :
    v.unitList.length = v.count := by
  unfold RawView.parse at h
  dsimp only at h
  split at h
  · cases h
  · split at h
    · cases h
    · split at h
      · cases h
      · split at h
        · rename_i hwalk
          cases h
          exact RawView.length_unitsFrom _ _ hwalk
        · cases h

namespace BatchBuilder

theorem push_eq_ok {b b' : BatchBuilder} {unit : Bytes} (h : b.push unit = .ok b') :
    b.bytesUsed + batchUnitOverhead + unit.length ≤ b.budget ∧
    b' = { b with buf := b.buf ++ beBytes 4 unit.length ++ unit, count := b.count + 1 } := by
  unfold push at h
  split at h
  · rename_i hfits
    cases h
    exact ⟨hfits, rfl⟩
  · cases h

end BatchBuilder

end Viewstamp
