import Viewstamp.Codec.Words
import Viewstamp.Transport.RecordIo

/- The cluster and identity handshake of a stream connection.

   A decorator over a record layer. Each side sends one hello of 35 bytes: the dialer
   at once, the acceptor when it has accepted the peer's. What arrives is held back
   until the peer's hello is complete; the bytes behind it are the application's.

   `handed` is a ghost: the writes made on the inner layer, in order, with what the
   inner layer accepted of each. -/
namespace Viewstamp

open List

variable {a buf : Bytes} {cluster n : Nat}

def helloTag : UInt8 := 0x0C
def helloVersion : UInt8 := 2
def peerReplica : UInt8 := 0
def peerClient : UInt8 := 1
def maxHelloLen : Nat := 1 + 1 + 16 + 1 + 16
def helloLen : Nat := maxHelloLen

/-- The identity a hello attests. -/
inductive HelloId where
  | replica (m : Nat)
  | client (c : ClientId)
  deriving DecidableEq

namespace HelloId

def fromPeer : Peer → HelloId
  | .member m => .replica m
  | .replica r => .replica r
  | .client c => .client c

def kind : HelloId → UInt8
  | .replica _ => peerReplica
  | .client _ => peerClient

/-- The id on the wire. -/
def get : HelloId → Nat
  | .replica m => m
  | .client c => c

/-- Whom the handshake reports. -/
def peer : HelloId → Peer
  | .replica m => .member m
  | .client c => .client c

end HelloId

def encodeHello (cluster : Nat) (id : HelloId) : Bytes :=
  [helloTag, helloVersion] ++ beBytes 16 cluster ++ [id.kind] ++ beBytes 16 id.get

inductive HelloOutcome where
  | accepted (id : HelloId) (consumed : Nat)
  | incomplete
  | rejected
  deriving DecidableEq

def classifyHello (buf : Bytes) (expectedCluster : Nat) : HelloOutcome :=
  if buf.length < 18 then
    if buf ≠ [] ∧ buf[0]? ≠ some helloTag then .rejected
    else if 2 ≤ buf.length ∧ buf[1]? ≠ some helloVersion then .rejected
    else .incomplete
  else if buf[0]? ≠ some helloTag ∨ buf[1]? ≠ some helloVersion then .rejected
  else if ofBeBytes ((buf.drop 2).take 16) ≠ expectedCluster then .rejected
  else match buf[18]? with
    | none => .incomplete
    | some kind =>
      if kind ≠ peerReplica ∧ kind ≠ peerClient then .rejected
      else if buf.length < helloLen then .incomplete
      else
        let id := ofBeBytes ((buf.drop 19).take 16)
        .accepted (if kind = peerReplica then .replica id else .client id) helloLen

/-- `LabelOptions`; the cluster and the identity are 128-bit numbers. -/
structure LabelOptions where
  cluster : Nat
  who : Peer
  cluster_lt : cluster < 2 ^ 128

/-- A write on the inner layer. -/
inductive Handed where
  | hello (bytes : Bytes) (accepted : Nat)
  | app (bytes : Bytes) (accepted : Nat)
  deriving DecidableEq

structure Labeled (R : Type) where
  inner : R
  cluster : Nat
  who : Peer
  outboundPrefix : Bytes := []
  prefixFlushed : Bool := false
  isAcceptor : Bool
  inboundRaw : Bytes := []
  peer : Option Peer := none
  postTail : Bytes := []
  aborted : Bool := false
  handed : List Handed := []

namespace Labeled

variable {R : Type} (io : RecordIo R)

def wrap (inner : R) (opts : LabelOptions) (isAcceptor : Bool) : Labeled R :=
  { inner, cluster := opts.cluster, who := opts.who, isAcceptor }

def queuePrefix (l : Labeled R) : Labeled R :=
  { l with
    outboundPrefix := l.outboundPrefix ++ encodeHello l.cluster (HelloId.fromPeer l.who) }

/-- A hello the inner layer does not take whole stays queued, and no one tries again. -/
def flushPrefixIntoInner (l : Labeled R) : Labeled R :=
  if l.prefixFlushed ∨ l.outboundPrefix = [] then l
  else
    let pre := l.outboundPrefix
    let (accepted, inner) := io.writePlaintext l.inner pre
    let l := { l with inner, handed := l.handed ++ [Handed.hello pre accepted] }
    if accepted = pre.length then { l with outboundPrefix := [], prefixFlushed := true }
    else { l with outboundPrefix := pre }

def dialer (inner : R) (opts : LabelOptions) : Labeled R :=
  (wrap inner opts false).queuePrefix.flushPrefixIntoInner io

def acceptor (inner : R) (opts : LabelOptions) : Labeled R := wrap inner opts true

def goTerminal (l : Labeled R) : Labeled R :=
  { l with
    aborted := true, outboundPrefix := [], inboundRaw := [], postTail := []
    inner := io.clearOutbound l.inner }

/-- Whether the handshake goes on, and the layer. -/
def consumeInbound (l : Labeled R) : Bool × Labeled R :=
  if l.peer.isSome then (true, l)
  else
    let (surfaced, inner) := io.readPlaintext l.inner
    let l := { l with inner }
    if surfaced = [] then (true, l)
    else
      let want := maxHelloLen - l.inboundRaw.length
      let take := min want surfaced.length
      let raw := l.inboundRaw ++ surfaced.take take
      let leftover := surfaced.drop take
      match classifyHello raw l.cluster with
      | .accepted claimed consumed =>
        let tail := raw.drop consumed ++ leftover
        let l := { l with
          inboundRaw := [], postTail := l.postTail ++ tail, peer := some claimed.peer }
        (true, if l.isAcceptor then l.queuePrefix.flushPrefixIntoInner io else l)
      | .incomplete =>
        (!(maxHelloLen ≤ raw.length || leftover ≠ []), { l with inboundRaw := raw })
      | .rejected => (false, { l with inboundRaw := raw })

def isHandshaking (l : Labeled R) : Bool :=
  l.aborted || l.peer.isNone || !l.prefixFlushed || io.isHandshaking l.inner

def handleTransportData (l : Labeled R) (input : Bytes) (now : Instant) : Intake × Labeled R :=
  if l.aborted then (.failed, l)
  else
    let (intake, inner) := io.handleTransportData l.inner input now
    let l := { l with inner }
    if intake = .failed then (.failed, l.goTerminal io)
    else
      let (ok, l) := l.consumeInbound io
      if ok then (intake, l) else (.failed, l.goTerminal io)

def pollTransportTransmit (l : Labeled R) : Bytes × Labeled R :=
  if l.aborted then ([], l)
  else
    let (out, inner) := io.pollTransportTransmit l.inner
    (out, { l with inner })

def readPlaintext (l : Labeled R) : Bytes × Labeled R :=
  if l.aborted then ([], l)
  else
    let (out, inner) := io.readPlaintext l.inner
    (l.postTail ++ out, { l with inner, postTail := [] })

def writePlaintext (l : Labeled R) (plaintext : Bytes) : Nat × Labeled R :=
  if l.aborted || l.isHandshaking io then (0, l)
  else
    let (accepted, inner) := io.writePlaintext l.inner plaintext
    (accepted, { l with inner, handed := l.handed ++ [Handed.app plaintext accepted] })

def peerIdentity (l : Labeled R) : Option Peer := if l.aborted then none else l.peer

def peerHasClosed (l : Labeled R) : Bool := if l.aborted then true else io.peerHasClosed l.inner

def sendCloseNotify (l : Labeled R) : Labeled R :=
  if l.aborted then l else { l with inner := io.sendCloseNotify l.inner }

/-- The decorator is a record layer again. -/
def layer : RecordIo (Labeled R) where
  handleTransportData := handleTransportData io
  pollTransportTransmit := pollTransportTransmit io
  readPlaintext := readPlaintext io
  writePlaintext := writePlaintext io
  bufferedOutbound l := io.bufferedOutbound l.inner
  isHandshaking := isHandshaking io
  peerIdentity := peerIdentity
  peerHasClosed := peerHasClosed io
  sendCloseNotify := sendCloseNotify io
  clearOutbound := goTerminal io
  isSecure := io.isSecure

end Labeled

/-! ## What the classifier accepts -/

/-- Nothing in the buffer is at odds with a hello of the cluster: the checks the classifier has
    the bytes for. -/
structure Consistent (buf : Bytes) (cluster : Nat) : Prop where
  tag : ∀ b, buf[0]? = some b → b = helloTag
  version : ∀ b, buf[1]? = some b → b = helloVersion
  cluster : 18 ≤ buf.length → ofBeBytes ((buf.drop 2).take 16) = cluster
  kind : ∀ b, buf[18]? = some b → b = peerReplica ∨ b = peerClient

theorem Consistent.of_append {a b : Bytes} (h : Consistent (a ++ b) cluster) :
    Consistent a cluster := by
  have hget {i : Nat} {x : UInt8} (hx : a[i]? = some x) : (a ++ b)[i]? = some x := by
    rw [List.getElem?_append_left (List.getElem?_eq_some_iff.mp hx).1, hx]
  refine ⟨fun x hx => h.tag x (hget hx), fun x hx => h.version x (hget hx), ?_,
    fun x hx => h.kind x (hget hx)⟩
  intro hlen
  have hcluster := h.cluster (by rw [length_append]; omega)
  rwa [drop_append_of_le_length (by omega),
    take_append_of_le_length (by rw [length_drop]; omega)] at hcluster

/-- The identity at its place. -/
def helloIdAt (buf : Bytes) : HelloId :=
  if buf[18]? = some peerReplica then .replica (ofBeBytes ((buf.drop 19).take 16))
  else .client (ofBeBytes ((buf.drop 19).take 16))

theorem eq_some_of_check {i : Nat} {v : UInt8} (hi : i < buf.length)
    (h : ∀ b, buf[i]? = some b → b = v) : buf[i]? = some v := by
  have hget := getElem?_eq_getElem hi
  rw [hget, h _ hget]

theorem classifyHello_consistent (h : Consistent buf cluster) :
    classifyHello buf cluster
      = if buf.length < helloLen then .incomplete else .accepted (helloIdAt buf) helloLen := by
  by_cases hlen : buf.length < 18
  · have htag : ¬ (buf ≠ [] ∧ buf[0]? ≠ some helloTag) := by
      rintro ⟨hne, htag⟩
      exact htag (eq_some_of_check (length_pos_of_ne_nil hne) h.tag)
    have hversion : ¬ (2 ≤ buf.length ∧ buf[1]? ≠ some helloVersion) := by
      rintro ⟨hle, hversion⟩
      exact hversion (eq_some_of_check hle h.version)
    have hhello : buf.length < helloLen := Nat.lt_trans hlen (by decide)
    rw [classifyHello, if_pos hlen, if_neg htag, if_neg hversion, if_pos hhello]
  · have htag := eq_some_of_check (by omega) h.tag
    have hversion := eq_some_of_check (by omega) h.version
    rw [classifyHello, if_neg hlen, if_neg (by simp [htag, hversion]),
      if_neg (not_not.mpr (h.cluster (by omega)))]
    cases hkind : buf[18]? with
    | none =>
      have hle : buf.length ≤ 18 := getElem?_eq_none_iff.mp hkind
      exact (if_pos (Nat.lt_of_le_of_lt hle (by decide))).symm
    | some kind =>
      have hk : ¬ (kind ≠ peerReplica ∧ kind ≠ peerClient) := by
        obtain rfl | rfl := h.kind kind hkind <;> decide
      simp only [if_neg hk, helloIdAt, hkind, Option.some.injEq]

theorem classifyHello_inconsistent (h : ¬ Consistent buf cluster) :
    classifyHello buf cluster = .rejected := by
  have hlt {i : Nat} {b : UInt8} (hb : buf[i]? = some b) : i < buf.length :=
    (List.getElem?_eq_some_iff.mp hb).1
  by_contra hne
  apply h
  rw [classifyHello] at hne
  split at hne
  next hlen =>
    split at hne
    · exact absurd rfl hne
    next htag =>
      split at hne
      · exact absurd rfl hne
      next hversion =>
        refine ⟨fun b hb => ?_, fun b hb => ?_, by omega, fun b hb => ?_⟩
        · have hnil : buf ≠ [] := ne_nil_of_length_pos (Nat.zero_lt_of_lt (hlt hb))
          rw [not_and_not_right.mp htag hnil] at hb
          exact (Option.some.inj hb).symm
        · rw [not_and_not_right.mp hversion (hlt hb)] at hb
          exact (Option.some.inj hb).symm
        · exact absurd (hlt hb) (by omega)
  next hlen =>
    split at hne
    · exact absurd rfl hne
    next hhead =>
      obtain ⟨htag, hversion⟩ := not_or.mp hhead
      rw [not_not] at htag hversion
      split at hne
      · exact absurd rfl hne
      next hcluster =>
        refine ⟨?_, ?_, fun _ => not_not.mp hcluster, ?_⟩
        · simp [htag]
        · simp [hversion]
        · intro b hb
          rw [hb] at hne
          by_contra hkind
          exact hne (if_pos (not_or.mp hkind))

/-! Prefixes of a stream -/

theorem classifyHello_rejected_append (h : classifyHello a cluster = .rejected) (b : Bytes) :
    classifyHello (a ++ b) cluster = .rejected := by
  apply classifyHello_inconsistent
  intro hab
  rw [classifyHello_consistent hab.of_append] at h
  split at h <;> cases h

/-- The fields of 35 bytes, and what is behind them. -/
theorem hello_fields (h : helloLen ≤ buf.length) :
    ∃ t v c k d e, buf = t :: v :: (c ++ k :: (d ++ e)) ∧ c.length = 16 ∧ d.length = 16 := by
  match buf, h with
  | t :: v :: rest, h =>
    have hrest : 33 ≤ rest.length := by simpa [helloLen, maxHelloLen] using h
    obtain ⟨k, tail, hk⟩ : ∃ k tail, rest.drop 16 = k :: tail :=
      exists_cons_of_length_pos (by rw [length_drop]; omega)
    have htail : 16 ≤ tail.length := by
      have hlen := congrArg length hk
      rw [length_drop, length_cons] at hlen
      omega
    refine ⟨t, v, rest.take 16, k, tail.take 16, tail.drop 16, ?_, ?_, ?_⟩
    · rw [take_append_drop, ← hk, take_append_drop]
    · rw [length_take]
      omega
    · rw [length_take]
      omega

/-- The classifier on 35 bytes or more: it reads the fields and nothing behind them. -/
theorem classifyHello_fields {t v k : UInt8} {c d e : Bytes} (hc : c.length = 16)
    (hd : d.length = 16) (cluster : Nat) :
    classifyHello (t :: v :: (c ++ k :: (d ++ e))) cluster =
      if t = helloTag ∧ v = helloVersion ∧ ofBeBytes c = cluster ∧
          (k = peerReplica ∨ k = peerClient) then
        .accepted
          (if k = peerReplica then .replica (ofBeBytes d) else .client (ofBeBytes d)) helloLen
      else .rejected := by
  have hlen : ¬ (t :: v :: (c ++ k :: (d ++ e))).length < 18 := by simp [hc]
  have hlong : ¬ (t :: v :: (c ++ k :: (d ++ e))).length < helloLen := by
    simp [hc, hd, helloLen, maxHelloLen]
    omega
  have hcluster : ((t :: v :: (c ++ k :: (d ++ e))).drop 2).take 16 = c := by
    simp [hc]
  have hkind : (t :: v :: (c ++ k :: (d ++ e)))[18]? = some k := by
    simp [hc]
  have hid : ((t :: v :: (c ++ k :: (d ++ e))).drop 19).take 16 = d := by
    simp [drop_append, take_append, hc, hd]
  rw [classifyHello, if_neg hlen, hcluster]
  simp only [hkind, hid, if_neg hlong, getElem?_cons_zero, getElem?_cons_succ, ne_eq,
    Option.some.injEq]
  by_cases ht : t = helloTag
  · by_cases hv : v = helloVersion
    · by_cases hcl : ofBeBytes c = cluster
      · by_cases hk : k = peerReplica ∨ k = peerClient
        · simp [ht, hv, hcl, hk, ← not_or]
        · simp [ht, hv, hcl, hk, ← not_or]
      · simp [ht, hv, hcl]
    · simp [hv]
  · simp [ht]

/-- Only the first 35 bytes count. -/
theorem classifyHello_append (cluster : Nat) (h : helloLen ≤ a.length) (b : Bytes) :
    classifyHello (a ++ b) cluster = classifyHello a cluster := by
  obtain ⟨t, v, c, k, d, e, rfl, hc, hd⟩ := hello_fields h
  have happ : t :: v :: (c ++ k :: (d ++ e)) ++ b = t :: v :: (c ++ k :: (d ++ (e ++ b))) := by simp
  rw [happ, classifyHello_fields hc hd, classifyHello_fields hc hd]

theorem classifyHello_take (buf : Bytes) (cluster : Nat) :
    classifyHello (buf.take helloLen) cluster = classifyHello buf cluster := by
  by_cases h : helloLen ≤ buf.length
  · conv_rhs => rw [← take_append_drop helloLen buf]
    rw [classifyHello_append cluster (by rw [length_take]; omega)]
  · rw [take_of_length_le (by omega)]

theorem encodeHello_length (cluster : Nat) (id : HelloId) :
    (encodeHello cluster id).length = helloLen := by
  simp [encodeHello, helloLen, maxHelloLen]

theorem length_lt_of_incomplete (h : classifyHello buf cluster = .incomplete) :
    buf.length < helloLen := by
  by_contra hlen
  obtain ⟨t, v, c, k, d, e, rfl, hc, hd⟩ := hello_fields (Nat.le_of_not_lt hlen)
  rw [classifyHello_fields hc hd] at h
  split at h <;> cases h

variable {id : HelloId}

theorem helloLen_le_of_accepted (h : classifyHello buf cluster = .accepted id n) :
    helloLen ≤ buf.length := by
  by_contra hlen
  have hcons : Consistent buf cluster := by
    by_contra hnot
    rw [classifyHello_inconsistent hnot] at h
    cases h
  rw [classifyHello_consistent hcons, if_pos (Nat.lt_of_not_le hlen)] at h
  cases h

theorem consumed_of_accepted (h : classifyHello buf cluster = .accepted id n) : n = helloLen := by
  obtain ⟨t, v, c, k, d, e, rfl, hc, hd⟩ := hello_fields (helloLen_le_of_accepted h)
  rw [classifyHello_fields hc hd] at h
  split at h
  · exact (HelloOutcome.accepted.inj h).2.symm
  · cases h

theorem take_hello_fields {t v k : UInt8} {c d e : Bytes} (hc : c.length = 16)
    (hd : d.length = 16) :
    (t :: v :: (c ++ k :: (d ++ e))).take helloLen = [t, v] ++ c ++ [k] ++ d := by
  simp [helloLen, maxHelloLen, take_append, hc, hd]

/-- What is accepted is a hello of this cluster, and whose. -/
theorem classifyHello_eq_accepted_iff (hcluster : cluster < 2 ^ 128) :
    classifyHello buf cluster = .accepted id n ↔
      n = helloLen ∧ id.get < 2 ^ 128 ∧ buf.take helloLen = encodeHello cluster id := by
  constructor
  · intro h
    obtain ⟨t, v, c, k, d, e, rfl, hc, hd⟩ := hello_fields (helloLen_le_of_accepted h)
    rw [classifyHello_fields hc hd] at h
    split at h
    next hfields =>
      obtain ⟨rfl, rfl, rfl, hk⟩ := hfields
      obtain ⟨hid, rfl⟩ := HelloOutcome.accepted.inj h
      have hlt : ofBeBytes d < 2 ^ 128 := by
        have := ofBeBytes_lt d
        rwa [hd] at this
      have hget : id.get = ofBeBytes d ∧ id.kind = k := by
        obtain rfl | rfl := hk
        · rw [← hid]
          exact ⟨rfl, rfl⟩
        · rw [← hid]
          exact ⟨rfl, rfl⟩
      refine ⟨rfl, hget.1 ▸ hlt, ?_⟩
      rw [take_hello_fields hc hd, encodeHello, hget.1, hget.2, beBytes_ofBeBytes_of_length hc,
        beBytes_ofBeBytes_of_length hd]
    · cases h
  · rintro ⟨rfl, hid, htake⟩
    have hbuf : buf = helloTag :: helloVersion :: (beBytes 16 cluster ++ id.kind ::
        (beBytes 16 id.get ++ buf.drop helloLen)) := by
      conv_lhs => rw [← take_append_drop helloLen buf, htake]
      simp [encodeHello]
    rw [hbuf, classifyHello_fields (length_beBytes ..) (length_beBytes ..),
      ofBeBytes_beBytes (by simpa using hcluster), ofBeBytes_beBytes (by simpa using hid)]
    cases id with
    | replica m => simp [HelloId.kind, HelloId.get]
    | client c => simp [HelloId.kind, HelloId.get, peerReplica, peerClient]

end Viewstamp
