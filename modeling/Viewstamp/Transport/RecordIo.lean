import Viewstamp.Types

/- The record layer under a stream connection, and the causes for which a connection of
   either transport closes.

   A record layer turns wire bytes into plaintext and back; raw TCP, TLS and the
   labeled handshake over either share this contract. The methods that append to a
   caller's buffer return what they append. -/
namespace Viewstamp

/-- Why a connection closed. -/
inductive CloseCause where
  | recordRejected
  | frameTooLong
  | badFrame
  | truncatedFrame
  | peerClosed
  | outboundOverflow
  | identityRejected
  | authDeadline
  | acceptCapacity
  | idleTimeout
  | superseded
  deriving DecidableEq

/-- The outcome of feeding one transport read. -/
inductive Intake where
  | done
  /-- So many bytes were consumed; drain the plaintext, then feed the rest again. -/
  | pending (n : Nat)
  | failed
  deriving DecidableEq

/-- A record layer with states `R`. -/
structure RecordIo (R : Type) where
  handleTransportData : R → Bytes → Instant → Intake × R
  pollTransportTransmit : R → Bytes × R
  readPlaintext : R → Bytes × R
  /-- How many leading bytes were accepted. -/
  writePlaintext : R → Bytes → Nat × R
  bufferedOutbound : R → Nat
  isHandshaking : R → Bool
  peerIdentity : R → Option Peer
  peerHasClosed : R → Bool
  sendCloseNotify : R → R
  clearOutbound : R → R
  isSecure : Bool

/-- A record layer that delivers the peer's bytes in order: a transport read makes some plaintext
    arrive behind the plaintext that waits, a read drains all that waits, and nothing else
    touches it. -/
structure RecordIo.Delivers {R : Type} (io : RecordIo R) where
  waiting : R → Bytes
  arrives : R → Bytes → Instant → Bytes
  handle : ∀ r input now, (io.handleTransportData r input now).1 ≠ .failed →
    waiting (io.handleTransportData r input now).2 = waiting r ++ arrives r input now
  read : ∀ r, (io.readPlaintext r).1 = waiting r
  drained : ∀ r, waiting (io.readPlaintext r).2 = []
  poll : ∀ r, waiting (io.pollTransportTransmit r).2 = waiting r
  write : ∀ r bytes, waiting (io.writePlaintext r bytes).2 = waiting r
  close : ∀ r, waiting (io.sendCloseNotify r) = waiting r

/-! ## The raw pipe -/

/-- `Passthrough`: the wire bytes are the plaintext. -/
structure Passthrough where
  outbound : Bytes := []
  inbound : Bytes := []
  deriving DecidableEq

namespace Passthrough

def recvLimit : Nat := 256 * 1024
def sendLimit : Nat := 64 * 1024 * 1024

def io : RecordIo Passthrough where
  handleTransportData p input _now :=
    let room := recvLimit - p.inbound.length
    let take := min room input.length
    let p := { p with inbound := p.inbound ++ input.take take }
    if take < input.length then (.pending take, p) else (.done, p)
  pollTransportTransmit p := (p.outbound, { p with outbound := [] })
  readPlaintext p := (p.inbound, { p with inbound := [] })
  writePlaintext p plaintext :=
    let room := sendLimit - p.outbound.length
    let take := min room plaintext.length
    (take, { p with outbound := p.outbound ++ plaintext.take take })
  bufferedOutbound p := p.outbound.length
  isHandshaking _ := false
  peerIdentity _ := none
  peerHasClosed _ := false
  sendCloseNotify p := p
  clearOutbound p := { p with outbound := [] }
  isSecure := false

/-- The raw pipe delivers in order what it has room for. -/
def delivers : io.Delivers where
  waiting p := p.inbound
  arrives p input _now := input.take (min (recvLimit - p.inbound.length) input.length)
  handle p input now _ := by
    simp only [io]
    split <;> rfl
  read _ := rfl
  drained _ := rfl
  poll _ := rfl
  write _ _ := rfl
  close _ := rfl

end Passthrough

end Viewstamp
