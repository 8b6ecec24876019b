import Viewstamp.Transport.Frame
import Viewstamp.Transport.RecordIo

/- One stream connection: a record layer, the frame decoder over its plaintext, and the
   lifecycle that gates both.

   A connection decodes and sends application frames only while it is validated, and does
   nothing once it is closed. It never validates itself: the router does, after it has
   confirmed the identity. `firstCause` and `attested` are records for the proofs, which no
   function reads: what the connection was closed for first, and what the record layer had
   authenticated when an identity was bound. -/
namespace Viewstamp

/-- What `decode_message` makes of a frame. -/
inductive Decoded where
  | message (msg : Message)
  /-- A body this build does not know. -/
  | unknown
  | malformed

/-- The message codec, and the size bound a message is admitted by. -/
structure WireCodec where
  encode : Message → Bytes
  decode : Bytes → Decoded
  wireSizeBound : Message → Nat

inductive TransportError where
  | frameTooLong (len max : Nat)
  | truncatedFrame (remaining : Nat)
  | recordRejected
  | decode
  deriving DecidableEq

def CloseCause.ofError : TransportError → CloseCause
  | .frameTooLong _ _ => .frameTooLong
  | .truncatedFrame _ => .truncatedFrame
  | .recordRejected => .recordRejected
  | .decode => .badFrame

inductive ConnState where
  | handshaking
  | validated
  | closed (cause : CloseCause)
  deriving DecidableEq

structure Conn (R : Type) where
  r : R
  decoder : FrameDecoder := .new (.ofNat maxFrameLen)
  bound : Option Peer := none
  state : ConnState := .handshaking
  peerFinished : Bool := false
  firstCause : Option CloseCause := none
  attested : Option Peer := none

namespace Conn

variable {R : Type}

def fromParts (r : R) : Conn R := { r }

def closeCause (c : Conn R) : Option CloseCause :=
  match c.state with
  | .closed cause => some cause
  | _ => none

def isClosed (c : Conn R) : Bool := c.closeCause.isSome
def isValidated (c : Conn R) : Bool := c.state = .validated

/-- Every transition to the closed state. -/
def close (c : Conn R) (cause : CloseCause) : Conn R :=
  { c with state := .closed cause, firstCause := c.firstCause <|> some cause }

variable (io : RecordIo R)

def isHandshaking (c : Conn R) : Bool := io.isHandshaking c.r
def handshakeIdentity (c : Conn R) : Option Peer := io.peerIdentity c.r

def markValidated (c : Conn R) (identity : Peer) : Conn R :=
  if c.state = .handshaking then
    { c with bound := some identity, state := .validated, attested := c.handshakeIdentity io }
  else c

/-- The state is overwritten whatever it was. -/
def abort (c : Conn R) (cause : CloseCause) : Conn R :=
  { c with r := io.clearOutbound c.r }.close cause

/-- Drain the plaintext into the decoder; whether there was any. -/
def bufferPlaintext (c : Conn R) : Except TransportError Bool × Conn R :=
  let (plaintext, r) := io.readPlaintext c.r
  let c := { c with r }
  if plaintext.isEmpty then (.ok false, c)
  else match c.decoder.extend plaintext with
    | (.frameTooLong len max, decoder) => (.error (.frameTooLong len max), { c with decoder })
    -- `extend` drains its buffer first, so it cannot underflow
    | (_, decoder) => (.ok true, { c with decoder })

/-- The loop of `handle_data`; `none` while it has not come to its end. -/
def intake : Nat → Conn R → Bytes → Instant → Option (Except TransportError Unit × Conn R)
  | 0, _, _, _ => none
  | fuel + 1, c, bytes, now =>
    let (fed, r) := io.handleTransportData c.r bytes now
    let c := { c with r }
    match fed with
    | .failed => some (.error .recordRejected, c.close .recordRejected)
    | .done => match c.bufferPlaintext io with
      | (.error e, c) => some (.error e, c.close (.ofError e))
      | (.ok _, c) => some (.ok (), c)
    | .pending n => match c.bufferPlaintext io with
      | (.error e, c) => some (.error e, c.close (.ofError e))
      | (.ok drained, c) =>
        if n = 0 && !drained then
          if io.isHandshaking c.r then some (.error .recordRejected, c.close .recordRejected)
          else some (.ok (), c)
        else intake fuel c (bytes.drop n) now

/-- `handle_data`: whether the peer has finished. The fuel bounds the turns of the intake loop,
    which a record layer that always has more plaintext would keep going. -/
def handleData (fuel : Nat) (c : Conn R) (bytes : Bytes) (eof : Bool) (now : Instant) :
    Option (Except TransportError Bool × Conn R) :=
  if c.isClosed then some (.ok true, c)
  else match c.intake io fuel bytes now with
    | none => none
    | some (.error e, c) => some (.error e, c)
    | some (.ok _, c) =>
      let fin := eof || io.peerHasClosed c.r
      some (.ok fin, { c with peerFinished := c.peerFinished || fin })

/-- Close a connection whose peer has finished, once its frames are drained. -/
def finalize (c : Conn R) : Except TransportError Unit × Conn R :=
  if c.isClosed then (.ok (), c)
  else
    let remaining := c.decoder.partialFrame.length
    if 0 < remaining then (.error (.truncatedFrame remaining), c.close .truncatedFrame)
    else (.ok (), c.close .peerClosed)

/-- The loop of `poll_decoded`: the messages of the frames, the frames left, and whether a frame
    was malformed. -/
def decodeFrames (decode : Bytes → Decoded) : List Bytes → List Message × List Bytes × Bool
  | [] => ([], [], false)
  | frame :: ready => match decode frame with
    | .message msg =>
      let (msgs, rest, bad) := decodeFrames decode ready
      (msg :: msgs, rest, bad)
    | .unknown => decodeFrames decode ready
    | .malformed => ([], ready, true)

/-- What was decoded before a malformed frame is yielded all the same. -/
def pollDecoded (codec : WireCodec) (c : Conn R) :
    List (Peer × Message) × Except TransportError Unit × Conn R :=
  if c.state ≠ .validated then ([], .ok (), c)
  else match c.bound with
    | none => ([], .ok (), c)
    | some sender =>
      let (msgs, ready, bad) := decodeFrames codec.decode c.decoder.ready
      let c := { c with decoder := { c.decoder with ready } }
      let out := msgs.map fun msg => (sender, msg)
      if bad then (out, .error .decode, c.close (.ofError .decode)) else (out, .ok (), c)

/-- Queue a framed payload; whether a short write closed the connection. -/
def writeFramed (c : Conn R) (framed : Bytes) : Bool × Conn R :=
  if c.state ≠ .validated then (false, c)
  else
    let (accepted, r) := io.writePlaintext c.r framed
    let c := { c with r }
    if accepted < framed.length then (true, c.close .outboundOverflow) else (false, c)

def queuedOutbound (c : Conn R) : Nat := io.bufferedOutbound c.r

def pollTransmit (c : Conn R) : Bytes × Conn R :=
  if c.isClosed then ([], c)
  else
    let (out, r) := io.pollTransportTransmit c.r
    (out, { c with r })

/-! ## What a connection does by itself -/

/-- A connection goes on as it was, or closes for the first time; its identity stays. -/
structure Goes (c c' : Conn R) : Prop where
  bound : c'.bound = c.bound
  attested : c'.attested = c.attested
  state : (c'.state = c.state ∧ c'.firstCause = c.firstCause) ∨
    (c.isClosed = false ∧
      ∃ cause, c'.state = .closed cause ∧ c'.firstCause = (c.firstCause <|> some cause))

theorem isClosed_congr {c c' : Conn R} (h : c'.state = c.state) : c'.isClosed = c.isClosed := by
  rw [isClosed, isClosed, closeCause, closeCause, h]

variable {c : Conn R}

theorem isClosed_of_state {cause : CloseCause} (h : c.state = .closed cause) :
    c.isClosed = true := by
  rw [isClosed, closeCause, h]
  rfl

theorem isClosed_of_validated (h : c.isValidated = true) : c.isClosed = false := by
  have hs : c.state = .validated := of_decide_eq_true h
  rw [isClosed, closeCause, hs]
  rfl

namespace Goes

variable {c c' c'' : Conn R}

theorem of_eq (hb : c'.bound = c.bound) (ha : c'.attested = c.attested) (hs : c'.state = c.state)
    (hf : c'.firstCause = c.firstCause) : Goes c c' := ⟨hb, ha, .inl ⟨hs, hf⟩⟩

theorem refl (c : Conn R) : Goes c c := of_eq rfl rfl rfl rfl

theorem close (h : c.isClosed = false) (cause : CloseCause) : Goes c (c.close cause) :=
  ⟨rfl, rfl, .inr ⟨h, cause, rfl, rfl⟩⟩

theorem trans (h : Goes c c') (h' : Goes c' c'') : Goes c c'' := by
  refine ⟨h'.bound.trans h.bound, h'.attested.trans h.attested, ?_⟩
  obtain ⟨hs, hf⟩ | ⟨hopen, cause, hs, hf⟩ := h.state
  · obtain ⟨hs', hf'⟩ | ⟨hopen', cause, hs', hf'⟩ := h'.state
    · exact .inl ⟨hs'.trans hs, hf'.trans hf⟩
    · exact .inr ⟨(isClosed_congr hs).symm.trans hopen', cause, hs', by rw [hf', hf]⟩
  · obtain ⟨hs', hf'⟩ | ⟨hopen', -⟩ := h'.state
    · exact .inr ⟨hopen, cause, hs'.trans hs, hf'.trans hf⟩
    · rw [isClosed_of_state hs] at hopen'
      cases hopen'

/-- Closing after a step that left the connection open. -/
theorem thenClose (h : Goes c c') (hs : c'.state = c.state) (hopen : c.isClosed = false)
    (cause : CloseCause) : Goes c (c'.close cause) :=
  h.trans (.close ((isClosed_congr hs).trans hopen) cause)

/-- A closed connection stays as it was closed. -/
theorem of_closed (h : Goes c c') (hc : c.isClosed = true) : c'.state = c.state := by
  obtain ⟨hs, -⟩ | ⟨hopen, -⟩ := h.state
  · exact hs
  · rw [hc] at hopen
    cases hopen

theorem of_validated (h : Goes c c') (hv : c'.isValidated = true) : c.isValidated = true := by
  obtain ⟨hs, -⟩ | ⟨-, cause, hs, -⟩ := h.state
  · rw [isValidated, ← hs]
    exact hv
  · rw [isValidated, hs] at hv
    cases hv

theorem not_handshaking (h : Goes c c') (hs : c.state ≠ .handshaking) :
    c'.state ≠ .handshaking := by
  obtain ⟨hs', -⟩ | ⟨-, cause, hs', -⟩ := h.state
  · rwa [hs']
  · rw [hs']
    nofun

/-- The first cause is the one the state carries. -/
theorem firstCause (h : Goes c c') (hc : c.firstCause = c.closeCause) :
    c'.firstCause = c'.closeCause := by
  obtain ⟨hs, hf⟩ | ⟨hopen, cause, hs, hf⟩ := h.state
  · rw [hf, hc, closeCause, closeCause, hs]
  · rw [isClosed, Option.isSome_eq_false_iff, Option.isNone_iff_eq_none] at hopen
    rw [hf, hc, hopen, closeCause, hs]
    rfl

end Goes

theorem bufferPlaintext_goes (c : Conn R) : Goes c (c.bufferPlaintext io).2 ∧
    (c.bufferPlaintext io).2.state = c.state := by
  simp only [bufferPlaintext]
  split
  · exact ⟨.of_eq rfl rfl rfl rfl, rfl⟩
  · split <;> exact ⟨.of_eq rfl rfl rfl rfl, rfl⟩

theorem intake_goes {fuel : Nat} {bytes : Bytes} {now : Instant} (hopen : c.isClosed = false)
    {out : Except TransportError Unit × Conn R} (h : c.intake io fuel bytes now = some out) :
    Goes c out.2 := by
  induction fuel generalizing c bytes with
  | zero => cases h
  | succ fuel ih =>
    simp only [intake] at h
    -- the record layer's own step
    have hfed : Goes c { c with r := (io.handleTransportData c.r bytes now).2 } :=
      .of_eq rfl rfl rfl rfl
    obtain ⟨hread, hsame⟩ :=
      bufferPlaintext_goes io { c with r := (io.handleTransportData c.r bytes now).2 }
    revert h hread hsame
    generalize { c with r := (io.handleTransportData c.r bytes now).2 }.bufferPlaintext io = read
    intro h hread hsame
    obtain ⟨result, d⟩ := read
    have hd : Goes c d := hfed.trans hread
    have hstate : d.state = c.state := hsame
    split at h
    · obtain rfl := Option.some.inj h
      exact hfed.thenClose rfl hopen _
    · cases result with
      | error e =>
        obtain rfl := Option.some.inj h
        exact hd.thenClose hstate hopen _
      | ok drained =>
        obtain rfl := Option.some.inj h
        exact hd
    · cases result with
      | error e =>
        obtain rfl := Option.some.inj h
        exact hd.thenClose hstate hopen _
      | ok drained =>
        simp only at h
        split_ifs at h
        · obtain rfl := Option.some.inj h
          exact hd.thenClose hstate hopen _
        · obtain rfl := Option.some.inj h
          exact hd
        · exact hd.trans (ih ((isClosed_congr hstate).trans hopen) h)

theorem handleData_goes {fuel : Nat} {bytes : Bytes} {eof : Bool} {now : Instant}
    {out : Except TransportError Bool × Conn R} (h : c.handleData io fuel bytes eof now = some out)
    : Goes c out.2 := by
  rw [handleData] at h
  split_ifs at h with hclosed
  · obtain rfl := Option.some.inj h
    exact .refl c
  · have hopen : c.isClosed = false := Bool.eq_false_iff.mpr hclosed
    split at h
    · cases h
    · next e d hin =>
      obtain rfl := Option.some.inj h
      exact intake_goes io hopen hin
    · next u d hin =>
      obtain rfl := Option.some.inj h
      exact (intake_goes io hopen hin).trans (.of_eq rfl rfl rfl rfl)

theorem finalize_goes (c : Conn R) : Goes c c.finalize.2 := by
  simp only [finalize]
  split_ifs with hclosed
  · exact .refl c
  · exact .close (Bool.eq_false_iff.mpr hclosed) _
  · exact .close (Bool.eq_false_iff.mpr hclosed) _

theorem pollDecoded_goes (codec : WireCodec) (c : Conn R) : Goes c (c.pollDecoded codec).2.2 := by
  simp only [pollDecoded]
  split
  · exact .refl c
  · next hstate =>
    have hopen : c.isClosed = false :=
      isClosed_of_validated (decide_eq_true (not_not.mp hstate))
    split
    · exact .refl c
    · have hread : Goes c { c with
        decoder := { c.decoder with ready := (decodeFrames codec.decode c.decoder.ready).2.1 } } :=
        .of_eq rfl rfl rfl rfl
      split
      · exact hread.thenClose rfl hopen _
      · exact hread

theorem writeFramed_goes (c : Conn R) (framed : Bytes) : Goes c (c.writeFramed io framed).2 := by
  simp only [writeFramed]
  split_ifs with hstate hshort
  · exact .refl c
  · have hopen : c.isClosed = false :=
      isClosed_of_validated (decide_eq_true (not_not.mp hstate))
    have hwrite : Goes c { c with r := (io.writePlaintext c.r framed).2 } := .of_eq rfl rfl rfl rfl
    exact hwrite.thenClose rfl hopen _
  · exact .of_eq rfl rfl rfl rfl

theorem writeFramed_open {framed : Bytes} (h : c.isClosed = false)
    (hshort : (c.writeFramed io framed).1 = false) :
    (c.writeFramed io framed).2.isClosed = false := by
  simp only [writeFramed] at hshort ⊢
  split_ifs at hshort ⊢ with hstate hless
  · exact h
  · exact (isClosed_congr rfl).trans h

theorem pollTransmit_goes (c : Conn R) : Goes c (c.pollTransmit io).2 := by
  simp only [pollTransmit]
  split_ifs
  · exact .refl c
  · exact .of_eq rfl rfl rfl rfl

theorem pollTransmit_isClosed (c : Conn R) : (c.pollTransmit io).2.isClosed = c.isClosed := by
  simp only [pollTransmit]
  split_ifs <;> exact isClosed_congr rfl

theorem abort_goes (h : c.isClosed = false) (cause : CloseCause) : Goes c (c.abort io cause) :=
  have hclear : Goes c { c with r := io.clearOutbound c.r } := .of_eq rfl rfl rfl rfl
  hclear.thenClose rfl h cause

/-- Every message comes from a frame that was ready, in the name of the bound identity, and only
    while the connection is validated. -/
theorem mem_decodeFrames {decode : Bytes → Decoded} {ready : List Bytes} {msg : Message}
    (h : msg ∈ (decodeFrames decode ready).1) : ∃ frame ∈ ready, decode frame = .message msg := by
  induction ready with
  | nil => cases h
  | cons frame ready ih =>
    simp only [decodeFrames] at h
    split at h
    · next first hfirst =>
      rcases List.mem_cons.mp h with rfl | h
      · exact ⟨frame, List.mem_cons_self, hfirst⟩
      · obtain ⟨f, hf, hdecode⟩ := ih h
        exact ⟨f, List.mem_cons_of_mem _ hf, hdecode⟩
    · obtain ⟨f, hf, hdecode⟩ := ih h
      exact ⟨f, List.mem_cons_of_mem _ hf, hdecode⟩
    · cases h

theorem mem_pollDecoded {codec : WireCodec} {sender : Peer} {msg : Message}
    (h : (sender, msg) ∈ (c.pollDecoded codec).1) : c.isValidated = true ∧
      c.bound = some sender ∧ ∃ frame ∈ c.decoder.ready, codec.decode frame = .message msg := by
  simp only [pollDecoded] at h
  split at h
  · cases h
  · next hstate =>
    have hvalid : c.isValidated = true := decide_eq_true (not_not.mp hstate)
    split at h
    · cases h
    · next bound hbound =>
      have hmem : (sender, msg) ∈ (decodeFrames codec.decode c.decoder.ready).1.map
          fun msg => (bound, msg) := by
        split at h <;> exact h
      obtain ⟨m, hm, heq⟩ := List.mem_map.mp hmem
      obtain ⟨rfl, rfl⟩ := Prod.mk.inj heq
      exact ⟨hvalid, hbound, mem_decodeFrames hm⟩

end Conn

end Viewstamp
