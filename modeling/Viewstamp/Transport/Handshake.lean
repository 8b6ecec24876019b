import Viewstamp.Transport.Labeled

/- The labeled handshake over whole runs.

   Over an inner layer that delivers in order, what the layer has decided and what it
   gave to the application depend on the bytes that arrived and on nothing else: not
   on the reads they came in, nor on the calls made in between. Whatever the inner
   layer does, the local hello goes out whole before any application byte, an
   acceptor's only after the peer's, and a layer that failed or was cleared is silent. -/
namespace Viewstamp

open List

namespace Labeled

variable {x surfaced : Bytes} {cluster : Nat}

/-- The calls of the record-layer contract that change the layer. -/
inductive Call where
  | handleTransportData (input : Bytes) (now : Instant)
  | pollTransportTransmit
  | readPlaintext
  | writePlaintext (plaintext : Bytes)
  | sendCloseNotify
  | clearOutbound

variable {R : Type} (io : RecordIo R)

/-- The bytes a call surfaces, and the layer. -/
def call (l : Labeled R) : Call → Bytes × Labeled R
  | .handleTransportData input now => ([], (l.handleTransportData io input now).2)
  | .pollTransportTransmit => l.pollTransportTransmit io
  | .readPlaintext => l.readPlaintext io
  | .writePlaintext plaintext => ([], (l.writePlaintext io plaintext).2)
  | .sendCloseNotify => ([], l.sendCloseNotify io)
  | .clearOutbound => ([], l.goTerminal io)

def run (l : Labeled R) (calls : List Call) : Labeled R :=
  calls.foldl (fun l c => (l.call io c).2) l

/-- Either side of a connection, as it starts. -/
def start (inner : R) (opts : LabelOptions) (isAcceptor : Bool) : Labeled R :=
  if isAcceptor then acceptor inner opts else dialer io inner opts

/-- Two layers set up alike. -/
structure SameSetup (l l' : Labeled R) : Prop where
  cluster : l'.cluster = l.cluster
  who : l'.who = l.who
  isAcceptor : l'.isAcceptor = l.isAcceptor

theorem SameSetup.trans {l l' l'' : Labeled R} (h : SameSetup l l') (h' : SameSetup l' l'') :
    SameSetup l l'' :=
  ⟨h'.cluster.trans h.cluster, h'.who.trans h.who, h'.isAcceptor.trans h.isAcceptor⟩

theorem flushPrefixIntoInner_setup (l : Labeled R) : SameSetup l (l.flushPrefixIntoInner io) := by
  rw [flushPrefixIntoInner]
  split
  · exact ⟨rfl, rfl, rfl⟩
  · simp only
    split <;> exact ⟨rfl, rfl, rfl⟩

theorem consumeInbound_setup (l : Labeled R) : SameSetup l (l.consumeInbound io).2 := by
  simp only [consumeInbound]
  split
  · exact ⟨rfl, rfl, rfl⟩
  · split
    · exact ⟨rfl, rfl, rfl⟩
    · split
      · split
        · show SameSetup l (flushPrefixIntoInner io _)
          exact SameSetup.trans (by exact ⟨rfl, rfl, rfl⟩) (flushPrefixIntoInner_setup io _)
        · exact ⟨rfl, rfl, rfl⟩
      · exact ⟨rfl, rfl, rfl⟩
      · exact ⟨rfl, rfl, rfl⟩

theorem call_setup (l : Labeled R) (c : Call) : SameSetup l (l.call io c).2 := by
  cases c with
  | handleTransportData input now =>
    simp only [call, handleTransportData]
    split
    · exact ⟨rfl, rfl, rfl⟩
    · split
      · exact ⟨rfl, rfl, rfl⟩
      · have h := consumeInbound_setup io
          { l with inner := (io.handleTransportData l.inner input now).2 }
        split <;> exact ⟨h.cluster, h.who, h.isAcceptor⟩
  | pollTransportTransmit =>
    simp only [call, pollTransportTransmit]
    split <;> exact ⟨rfl, rfl, rfl⟩
  | readPlaintext =>
    simp only [call, readPlaintext]
    split <;> exact ⟨rfl, rfl, rfl⟩
  | writePlaintext plaintext =>
    simp only [call, writePlaintext]
    split <;> exact ⟨rfl, rfl, rfl⟩
  | sendCloseNotify =>
    simp only [call, sendCloseNotify]
    split <;> exact ⟨rfl, rfl, rfl⟩
  | clearOutbound => exact ⟨rfl, rfl, rfl⟩

/-! ## A terminal layer -/

/-- A terminal layer surfaces nothing, and nothing moves it. -/
theorem call_aborted {l : Labeled R} (h : l.aborted = true) (c : Call) :
    (l.call io c).1 = [] ∧ (l.call io c).2.aborted = true ∧ (l.call io c).2.peer = l.peer := by
  cases c with
  | clearOutbound => exact ⟨rfl, rfl, rfl⟩
  | _ => simp [call, handleTransportData, pollTransportTransmit, readPlaintext, writePlaintext,
      sendCloseNotify, h]

theorem run_aborted {l : Labeled R} (h : l.aborted = true) (calls : List Call) :
    (l.run io calls).aborted = true := by
  induction calls generalizing l with
  | nil => exact h
  | cons c calls ih => exact ih (call_aborted io h c).2.1

/-- A failure is terminal. -/
theorem aborted_of_failed {l : Labeled R} {input : Bytes} {now : Instant}
    (h : (l.handleTransportData io input now).1 = .failed) :
    (l.handleTransportData io input now).2.aborted = true := by
  rw [handleTransportData] at h ⊢
  split at h
  next haborted =>
    rw [if_pos haborted]
    exact haborted
  next haborted =>
    rw [if_neg haborted]
    simp only at h ⊢
    split at h
    next hinner =>
      rw [if_pos hinner]
      rfl
    next hinner =>
      split at h
      · exact absurd h hinner
      next hok =>
        rw [if_neg hinner, if_neg hok]
        rfl

/-! ## The peer's stream -/

inductive Verdict where
  | accepted (peer : Peer)
  | rejected
  | incomplete
  deriving DecidableEq

/-- What the layer shows of its decision: a terminal layer fails, an identity is reported, or
    neither. -/
def verdict (l : Labeled R) : Verdict :=
  if l.aborted then .rejected
  else match l.peerIdentity with
    | some peer => .accepted peer
    | none => .incomplete

/-- The decision a stream deserves. -/
def judge (cluster : Nat) (x : Bytes) : Verdict :=
  match classifyHello x cluster with
  | .accepted id _ => .accepted id.peer
  | .incomplete => .incomplete
  | .rejected => .rejected

/-- What the application is to see of a stream. -/
def application (cluster : Nat) (x : Bytes) : Bytes :=
  match classifyHello x cluster with
  | .accepted _ n => x.drop n
  | _ => []

variable {io} (D : io.Delivers)

/-- A layer in use: what the inner layer delivered, what the application has read, and whether
    the inner layer failed or the caller cleared the layer. -/
structure Use (R : Type) where
  layer : Labeled R
  delivered : Bytes := []
  surfaced : Bytes := []
  broken : Bool := false

def Use.call (u : Use R) (c : Call) : Use R where
  layer := (u.layer.call io c).2
  delivered := match c with
    | .handleTransportData input now =>
      if u.layer.aborted then u.delivered else u.delivered ++ D.arrives u.layer.inner input now
    | _ => u.delivered
  surfaced := match c with
    | .readPlaintext => u.surfaced ++ (u.layer.call io c).1
    | _ => u.surfaced
  broken := match c with
    | .handleTransportData input now =>
      u.broken || (!u.layer.aborted && (io.handleTransportData u.layer.inner input now).1 = .failed)
    | .clearOutbound => true
    | _ => u.broken

def Use.run (u : Use R) (calls : List Call) : Use R := calls.foldl (Use.call D) u

/-- Where a layer stands when these bytes have arrived. -/
inductive Stands (cluster : Nat) (x surfaced : Bytes) (l : Labeled R) : Prop where
  | hearing (aborted : l.aborted = false) (peer : l.peer = none) (raw : l.inboundRaw = x)
      (hello : classifyHello x cluster = .incomplete) (tail : l.postTail = [])
      (waiting : D.waiting l.inner = []) (surfaced : surfaced = [])
  | accepted (id : HelloId) (aborted : l.aborted = false) (peer : l.peer = some id.peer)
      (hello : classifyHello x cluster = .accepted id helloLen)
      (held : surfaced ++ (l.postTail ++ D.waiting l.inner) = x.drop helloLen)
  | rejected (aborted : l.aborted = true) (peer : l.peer = none)
      (hello : classifyHello x cluster = .rejected) (surfaced : surfaced = [])

/-- Sending the hello leaves the inbound side alone. -/
theorem flush_fields (l : Labeled R) :
    (l.flushPrefixIntoInner io).aborted = l.aborted ∧ (l.flushPrefixIntoInner io).peer = l.peer ∧
      (l.flushPrefixIntoInner io).postTail = l.postTail ∧
      (l.flushPrefixIntoInner io).inboundRaw = l.inboundRaw ∧
      D.waiting (l.flushPrefixIntoInner io).inner = D.waiting l.inner := by
  rw [flushPrefixIntoInner]
  split
  · exact ⟨rfl, rfl, rfl, rfl, rfl⟩
  · simp only
    split <;> exact ⟨rfl, rfl, rfl, rfl, D.write ..⟩

/-- The buffer takes the stream up to the length of a hello; the rest is left over. -/
theorem gather_hello (hx : x.length ≤ maxHelloLen) (a : Bytes) :
    x ++ a.take (min (maxHelloLen - x.length) a.length) = (x ++ a).take helloLen ∧
      a.drop (min (maxHelloLen - x.length) a.length) = (x ++ a).drop helloLen := by
  have htake : ∀ n, a.take (min n a.length) = a.take n := by
    intro n
    rw [← take_take, take_length]
  have hdrop : ∀ n, a.drop (min n a.length) = a.drop n := by
    intro n
    obtain h | h := Nat.le_total n a.length
    · rw [Nat.min_eq_left h]
    · rw [Nat.min_eq_right h, drop_length, drop_eq_nil_of_le h]
  rw [htake, hdrop, take_append, drop_append, helloLen, take_of_length_le hx,
    drop_eq_nil_of_le hx, nil_append]
  exact ⟨rfl, rfl⟩

/-- What waits in the inner layer is heard: the handshake goes on as the stream says. -/
theorem consumeInbound_stands {l : Labeled R}
    (haborted : l.aborted = false) (hpeer : l.peer = none) (hraw : l.inboundRaw = x)
    (hhello : classifyHello x cluster = .incomplete) (htail : l.postTail = [])
    (hcluster : l.cluster = cluster) :
    if (l.consumeInbound io).1 then
      Stands D cluster (x ++ D.waiting l.inner) [] (l.consumeInbound io).2
    else classifyHello (x ++ D.waiting l.inner) cluster = .rejected ∧
      (l.consumeInbound io).2.peer = none := by
  have hlt := length_lt_of_incomplete hhello
  obtain ⟨htake, hdrop⟩ := gather_hello (Nat.le_of_lt hlt) (D.waiting l.inner)
  simp only [consumeInbound, hpeer, Option.isSome_none, Bool.false_eq_true, if_false, D.read, hraw,
    htake, hdrop, hcluster, classifyHello_take]
  by_cases ha : D.waiting l.inner = []
  · rw [if_pos ha]
    simp only [if_true, ha, append_nil]
    exact .hearing haborted rfl rfl hhello htail (D.drained _) rfl
  · rw [if_neg ha]
    cases hclass : classifyHello (x ++ D.waiting l.inner) cluster with
    | accepted id n =>
      obtain rfl := consumed_of_accepted hclass
      have hbehind : l.postTail ++ (((x ++ D.waiting l.inner).take helloLen).drop helloLen
          ++ (x ++ D.waiting l.inner).drop helloLen) = (x ++ D.waiting l.inner).drop helloLen := by
        rw [htail, drop_take, Nat.sub_self, take_zero, nil_append, nil_append]
      simp only [if_true, hbehind]
      split
      · obtain ⟨h1, h2, h3, -, h5⟩ := flush_fields D (queuePrefix
          { l with
            inner := (io.readPlaintext l.inner).2, cluster, inboundRaw := [],
            postTail := (x ++ D.waiting l.inner).drop helloLen, peer := some id.peer })
        refine .accepted id (h1.trans haborted) h2 hclass ?_
        rw [h3, h5]
        simp only [queuePrefix, D.drained, append_nil, nil_append]
      · refine .accepted id haborted rfl hclass ?_
        simp only [D.drained, append_nil, nil_append]
    | incomplete =>
      have hshort := Nat.le_of_lt (length_lt_of_incomplete hclass)
      rw [take_of_length_le hshort, drop_eq_nil_of_le hshort]
      have hgoes : (!(decide (maxHelloLen ≤ (x ++ D.waiting l.inner).length)
          || decide (([] : Bytes) ≠ []))) = true := by
        have := length_lt_of_incomplete hclass
        simpa [helloLen] using this
      simp only [hgoes, if_true]
      exact .hearing haborted rfl rfl hclass htail (D.drained _) rfl
    | rejected => simp

/-- The layer stands where the stream says, unless it was broken. -/
structure Use.Tracks (cluster : Nat) (u : Use R) : Prop where
  setup : u.layer.cluster = cluster
  stands : u.broken = false → Stands D cluster u.delivered u.surfaced u.layer
  silenced : u.broken = true → u.layer.aborted = true
  heard : ∀ p, u.layer.peer = some p →
    ∃ id, classifyHello u.delivered cluster = .accepted id helloLen ∧ p = id.peer

variable {D}

theorem handle_stands {x surfaced input : Bytes} {now : Instant} {l : Labeled R}
    (h : Stands D cluster x surfaced l) (hcluster : l.cluster = cluster)
    (hinner : (io.handleTransportData l.inner input now).1 ≠ .failed) :
    Stands D cluster (if l.aborted then x else x ++ D.arrives l.inner input now) surfaced
      (l.handleTransportData io input now).2 := by
  have hwait := D.handle l.inner input now hinner
  cases h with
  | hearing haborted hpeer hraw hhello htail hwaiting hsurfaced =>
    subst hsurfaced
    have hstep := consumeInbound_stands D
      (l := { l with inner := (io.handleTransportData l.inner input now).2 })
      haborted hpeer hraw hhello htail hcluster
    rw [hwait, hwaiting, nil_append] at hstep
    rw [if_neg (by simp [haborted]), handleTransportData, if_neg (by simp [haborted])]
    simp only [if_neg hinner]
    split
    next hok =>
      rw [if_pos hok] at hstep
      exact hstep
    next hok =>
      rw [if_neg hok] at hstep
      exact .rejected rfl hstep.2 hstep.1 rfl
  | accepted id haborted hpeer hhello hheld =>
    rw [if_neg (by simp [haborted]), handleTransportData, if_neg (by simp [haborted])]
    simp only [if_neg hinner, consumeInbound, hpeer, Option.isSome_some, if_true]
    refine .accepted id haborted rfl ?_ ?_
    · rw [classifyHello_append _ (helloLen_le_of_accepted hhello), hhello]
    · rw [hwait, drop_append_of_le_length (helloLen_le_of_accepted hhello), ← hheld,
        append_assoc, append_assoc]
  | rejected haborted hpeer hhello hsurfaced =>
    simp only [handleTransportData, haborted, if_true]
    exact .rejected haborted hpeer hhello hsurfaced

/-- The calls that leave the inbound side alone. -/
theorem Stands.congr {l l' : Labeled R} (h : Stands D cluster x surfaced l)
    (haborted : l'.aborted = l.aborted) (hpeer : l'.peer = l.peer)
    (hraw : l'.inboundRaw = l.inboundRaw) (htail : l'.postTail = l.postTail)
    (hwaiting : D.waiting l'.inner = D.waiting l.inner) : Stands D cluster x surfaced l' := by
  cases h with
  | hearing h1 h2 h3 h4 h5 h6 h7 =>
    exact .hearing (haborted.trans h1) (hpeer.trans h2) (hraw.trans h3) h4 (htail.trans h5)
      (hwaiting.trans h6) h7
  | accepted id h1 h2 h3 h4 =>
    refine .accepted id (haborted.trans h1) (hpeer.trans h2) h3 ?_
    rw [htail, hwaiting]
    exact h4
  | rejected h1 h2 h3 h4 => exact .rejected (haborted.trans h1) (hpeer.trans h2) h3 h4

section Quiet

variable {cluster : Nat} {x surfaced : Bytes} {l : Labeled R}

theorem poll_stands (h : Stands D cluster x surfaced l) :
    Stands D cluster x surfaced (l.pollTransportTransmit io).2 := by
  rw [pollTransportTransmit]
  split
  · exact h
  · exact h.congr rfl rfl rfl rfl (D.poll _)

theorem write_stands (h : Stands D cluster x surfaced l) {plaintext : Bytes} :
    Stands D cluster x surfaced (l.writePlaintext io plaintext).2 := by
  rw [writePlaintext]
  split
  · exact h
  · exact h.congr rfl rfl rfl rfl (D.write ..)

theorem close_stands (h : Stands D cluster x surfaced l) :
    Stands D cluster x surfaced (l.sendCloseNotify io) := by
  rw [sendCloseNotify]
  split
  · exact h
  · exact h.congr rfl rfl rfl rfl (D.close _)

/-- A read surfaces all that is held of the stream. -/
theorem read_stands (h : Stands D cluster x surfaced l) :
    Stands D cluster x (surfaced ++ (l.readPlaintext io).1) (l.readPlaintext io).2 := by
  rw [readPlaintext]
  cases h with
  | hearing haborted hpeer hraw hhello htail hwaiting hsurfaced =>
    rw [if_neg (by simp [haborted])]
    refine .hearing haborted hpeer hraw hhello rfl (D.drained _) ?_
    simp [hsurfaced, htail, D.read, hwaiting]
  | accepted id haborted hpeer hhello hheld =>
    rw [if_neg (by simp [haborted])]
    refine .accepted id haborted hpeer hhello ?_
    simp [D.read, D.drained, hheld]
  | rejected haborted hpeer hhello hsurfaced =>
    rw [if_pos haborted]
    exact .rejected haborted hpeer hhello (by rw [hsurfaced]; rfl)

end Quiet

variable {u : Use R}

theorem Use.stands_call (hsetup : u.layer.cluster = cluster)
    (h : u.broken = false → Stands D cluster u.delivered u.surfaced u.layer) (c : Call)
    (hbroken : (u.call D c).broken = false) :
    Stands D cluster (u.call D c).delivered (u.call D c).surfaced (u.call D c).layer := by
  cases c with
  | handleTransportData input now =>
    simp only [Use.call, Bool.or_eq_false_iff, Bool.and_eq_false_iff, Bool.not_eq_false',
      decide_eq_false_iff_not] at hbroken
    have hstands := h hbroken.1
    obtain haborted | hinner := hbroken.2
    · simp only [Use.call, Labeled.call, handleTransportData, haborted, if_true]
      exact hstands
    · exact handle_stands hstands hsetup hinner
  | pollTransportTransmit => exact poll_stands (h hbroken)
  | readPlaintext => exact read_stands (h hbroken)
  | writePlaintext plaintext => exact write_stands (h hbroken)
  | sendCloseNotify => exact close_stands (h hbroken)
  | clearOutbound => cases hbroken

theorem Stands.heard {l : Labeled R} (h : Stands D cluster x surfaced l) (p : Peer)
    (hp : l.peer = some p) :
    ∃ id, classifyHello x cluster = .accepted id helloLen ∧ p = id.peer := by
  cases h with
  | hearing _ hpeer => simp [hpeer] at hp
  | accepted id _ hpeer hhello => exact ⟨id, hhello, Option.some.inj (hp.symm.trans hpeer)⟩
  | rejected _ hpeer => simp [hpeer] at hp

/-- A call that breaks the layer, or finds it broken, leaves it terminal with the peer it had. -/
theorem Use.call_broken (h : u.broken = true → u.layer.aborted = true) {c : Call}
    (hbroken : (u.call D c).broken = true) :
    (u.call D c).layer.aborted = true ∧ (u.call D c).layer.peer = u.layer.peer := by
  cases ha : u.layer.aborted with
  | true => exact (call_aborted io ha c).2
  | false =>
    have hwhole : u.broken = false := by
      cases hb : u.broken with
      | false => rfl
      | true => rw [h hb] at ha; cases ha
    cases c with
    | handleTransportData input now =>
      simp only [Use.call, hwhole, ha, Bool.false_or, Bool.not_false, Bool.true_and,
        decide_eq_true_eq] at hbroken
      simp only [Use.call, Labeled.call, handleTransportData, ha, Bool.false_eq_true, if_false,
        if_pos hbroken]
      exact ⟨rfl, rfl⟩
    | clearOutbound => exact ⟨rfl, rfl⟩
    | _ => simp [Use.call, hwhole] at hbroken

/-- The bytes that arrived only grow. -/
theorem Use.delivered_call (u : Use R) (c : Call) : u.delivered <+: (u.call D c).delivered := by
  cases c with
  | handleTransportData input now =>
    simp only [Use.call]
    split
    · exact prefix_rfl
    · exact prefix_append ..
  | _ => exact prefix_rfl

theorem Use.Tracks.call (h : u.Tracks D cluster) (c : Call) : (u.call D c).Tracks D cluster := by
  have hstands := Use.stands_call h.setup h.stands c
  refine ⟨(call_setup io u.layer c).cluster.trans h.setup, hstands, ?_, ?_⟩
  · intro hbroken
    exact (Use.call_broken h.silenced hbroken).1
  · intro p hp
    cases hbroken : (u.call D c).broken with
    | false => exact (hstands hbroken).heard p hp
    | true =>
      rw [(Use.call_broken h.silenced hbroken).2] at hp
      obtain ⟨id, hid, rfl⟩ := h.heard p hp
      obtain ⟨z, hz⟩ := Use.delivered_call (D := D) u c
      rw [← hz, classifyHello_append cluster (helloLen_le_of_accepted hid)]
      exact ⟨id, hid, rfl⟩

theorem classifyHello_nil (cluster : Nat) : classifyHello [] cluster = .incomplete := rfl

theorem Use.tracks_start {inner : R} (hinner : D.waiting inner = []) (opts : LabelOptions)
    (isAcceptor : Bool) :
    Use.Tracks D opts.cluster { layer := start io inner opts isAcceptor } := by
  have hwrap : ∀ acceptor, Stands D opts.cluster [] [] (wrap inner opts acceptor) := fun _ =>
    .hearing rfl rfl rfl (classifyHello_nil _) rfl hinner rfl
  have hstart : Stands D opts.cluster [] [] (start io inner opts isAcceptor) := by
    cases isAcceptor with
    | true => exact hwrap true
    | false =>
      obtain ⟨h1, h2, h3, h4, h5⟩ := flush_fields D (wrap inner opts false).queuePrefix
      exact (hwrap false).congr h1 h2 h4 h3 h5
  refine ⟨?_, fun _ => hstart, nofun, hstart.heard⟩
  cases isAcceptor with
  | true => rfl
  | false => exact (flushPrefixIntoInner_setup io (wrap inner opts false).queuePrefix).cluster

theorem Use.tracks_run (h : u.Tracks D cluster) (calls : List Call) :
    (u.run D calls).Tracks D cluster := by
  induction calls generalizing u with
  | nil => exact h
  | cons c calls ih => exact ih (h.call c)

/-- What stands for a stream is decided as the whole stream is, once the layer heard all of it or
    would not hear more. -/
theorem Stands.verdict_eq {x y surfaced : Bytes} {l : Labeled R} (h : Stands D cluster x surfaced l)
    (hxy : x <+: y) (hall : l.aborted = false → x = y) :
    l.verdict = judge cluster y ∧ surfaced ++ (l.readPlaintext io).1 = application cluster y := by
  cases h with
  | hearing haborted hpeer hraw hhello htail hwaiting hsurfaced =>
    obtain rfl := hall haborted
    constructor
    · simp [verdict, haborted, peerIdentity, hpeer, judge, hhello]
    · simp [readPlaintext, haborted, hsurfaced, htail, D.read, hwaiting, application, hhello]
  | accepted id haborted hpeer hhello hheld =>
    obtain rfl := hall haborted
    constructor
    · simp [verdict, haborted, peerIdentity, hpeer, judge, hhello]
    · simp [readPlaintext, haborted, D.read, hheld, application, hhello]
  | rejected haborted hpeer hhello hsurfaced =>
    obtain ⟨z, rfl⟩ := hxy
    have hreject := classifyHello_rejected_append hhello z
    constructor
    · simp [verdict, haborted, judge, hreject]
    · simp [readPlaintext, haborted, hsurfaced, application, hreject]

/-! ## The local hello -/

/-- What this side has to say first. -/
def localHello (l : Labeled R) : Bytes := encodeHello l.cluster (HelloId.fromPeer l.who)

/-- What was handed to the inner layer so far. -/
inductive Says (l : Labeled R) : Prop where
  | nothing (handed : l.handed = []) (queued : l.outboundPrefix = [])
      (flushed : l.prefixFlushed = false) (acceptor : l.isAcceptor = true)
  | short (n : Nat) (handed : l.handed = [.hello l.localHello n])
    (flushed : l.prefixFlushed = false)
      (heard : l.isAcceptor = true → l.peer.isSome = true)
  | whole (apps : List Handed) (handed : l.handed = .hello l.localHello helloLen :: apps)
      (apps : ∀ w ∈ apps, ∃ bytes n, w = .app bytes n)
      (heard : l.isAcceptor = true → l.peer.isSome = true)

namespace Says

variable {l l' : Labeled R}

theorem congr (h : l.Says) (hsetup : SameSetup l l') (hhanded : l'.handed = l.handed)
    (hflushed : l'.prefixFlushed = l.prefixFlushed)
    (hqueued : l.outboundPrefix = [] → l'.outboundPrefix = [])
    (hpeer : l.peer.isSome = true → l'.peer.isSome = true) : l'.Says := by
  have hlocal : l'.localHello = l.localHello := by rw [localHello, hsetup.cluster, hsetup.who]; rfl
  have hheard (hh : l.isAcceptor = true → l.peer.isSome = true) :
      l'.isAcceptor = true → l'.peer.isSome = true :=
    fun ha => hpeer (hh (hsetup.isAcceptor.symm.trans ha))
  cases h with
  | nothing h1 h2 h3 h4 =>
    exact .nothing (hhanded.trans h1) (hqueued h2) (hflushed.trans h3) (hsetup.isAcceptor.trans h4)
  | short n h1 h2 h3 =>
    exact .short n (by rw [hhanded, hlocal, h1]) (hflushed.trans h2) (hheard h3)
  | whole apps h1 h2 h3 => exact .whole apps (by rw [hhanded, hlocal, h1]) h2 (hheard h3)

/-- The hello is handed over: whole, or short and never again. -/
theorem flush (hqueued : l.outboundPrefix = l.localHello) (hflushed : l.prefixFlushed = false)
    (hhanded : l.handed = []) (hheard : l.isAcceptor = true → l.peer.isSome = true) :
    (l.flushPrefixIntoInner io).Says := by
  have hlen : l.localHello.length = helloLen := encodeHello_length ..
  have hne : l.outboundPrefix ≠ [] := by
    rw [hqueued]
    exact ne_nil_of_length_pos (by rw [hlen]; decide)
  rw [flushPrefixIntoInner, if_neg (by simp [hflushed, hne])]
  simp only
  split
  next hwhole =>
    refine .whole [] ?_ nofun hheard
    rw [hqueued, hlen] at hwhole
    simp only [hhanded, nil_append, hqueued, hwhole]
    rfl
  next hshort =>
    refine .short (io.writePlaintext l.inner l.outboundPrefix).1 ?_ hflushed hheard
    simp only [hhanded, nil_append, hqueued]
    rfl

theorem goTerminal (h : l.Says) : (l.goTerminal io).Says :=
  h.congr ⟨rfl, rfl, rfl⟩ rfl rfl (fun _ => rfl) id

theorem consumeInbound (h : l.Says) : (l.consumeInbound io).2.Says := by
  rw [Labeled.consumeInbound]
  split
  · exact h
  next hpeer =>
    simp only
    split
    · exact h.congr ⟨rfl, rfl, rfl⟩ rfl rfl id id
    · split
      · split
        next hacceptor =>
          -- An acceptor that has not heard the peer has said nothing.
          cases h with
          | nothing h1 h2 h3 h4 =>
            exact flush (by simp only [queuePrefix, h2, nil_append]; rfl) h3 h1 fun _ => rfl
          | short n h1 h2 h3 => exact absurd (h3 hacceptor) hpeer
          | whole apps h1 h2 h3 => exact absurd (h3 hacceptor) hpeer
        · exact h.congr ⟨rfl, rfl, rfl⟩ rfl rfl id fun _ => rfl
      · exact h.congr ⟨rfl, rfl, rfl⟩ rfl rfl id id
      · exact h.congr ⟨rfl, rfl, rfl⟩ rfl rfl id id

theorem handle (h : l.Says) (input : Bytes) (now : Instant) :
    (l.handleTransportData io input now).2.Says := by
  rw [handleTransportData]
  split
  · exact h
  · have hfed : Says { l with inner := (io.handleTransportData l.inner input now).2 } :=
      h.congr ⟨rfl, rfl, rfl⟩ rfl rfl id id
    simp only
    split
    · exact hfed.goTerminal
    · split
      · exact hfed.consumeInbound
      · exact hfed.consumeInbound.goTerminal

/-- Application bytes go in behind a whole hello only. -/
theorem write (h : l.Says) (plaintext : Bytes) : (l.writePlaintext io plaintext).2.Says := by
  rw [writePlaintext]
  split
  · exact h
  next hsettled =>
    have hflushed : l.prefixFlushed = true := by
      simp [isHandshaking] at hsettled
      tauto
    cases h with
    | nothing h1 h2 h3 h4 => rw [hflushed] at h3; cases h3
    | short n h1 h2 h3 => rw [hflushed] at h2; cases h2
    | whole apps h1 h2 h3 =>
      refine .whole (apps ++ [.app plaintext (io.writePlaintext l.inner plaintext).1]) ?_ ?_ h3
      · simp only [h1, cons_append]
        rfl
      · intro w hw
        obtain hw | hw := mem_append.mp hw
        · exact h2 w hw
        · exact ⟨_, _, mem_singleton.mp hw⟩

theorem call (h : l.Says) (c : Call) : (l.call io c).2.Says := by
  cases c with
  | handleTransportData input now => exact h.handle input now
  | pollTransportTransmit =>
    simp only [Labeled.call, pollTransportTransmit]
    split
    · exact h
    · exact h.congr ⟨rfl, rfl, rfl⟩ rfl rfl id id
  | readPlaintext =>
    simp only [Labeled.call, readPlaintext]
    split
    · exact h
    · exact h.congr ⟨rfl, rfl, rfl⟩ rfl rfl id id
  | writePlaintext plaintext => exact h.write plaintext
  | sendCloseNotify =>
    simp only [Labeled.call, sendCloseNotify]
    split
    · exact h
    · exact h.congr ⟨rfl, rfl, rfl⟩ rfl rfl id id
  | clearOutbound => exact h.goTerminal

end Says

theorem says_start (inner : R) (opts : LabelOptions) (isAcceptor : Bool) :
    (start io inner opts isAcceptor).Says := by
  cases isAcceptor with
  | true => exact .nothing rfl rfl rfl rfl
  | false =>
    exact Says.flush (l := (wrap inner opts false).queuePrefix) rfl rfl rfl fun h => by cases h

theorem says_run {l : Labeled R} (h : l.Says) (calls : List Call) : (l.run io calls).Says := by
  induction calls generalizing l with
  | nil => exact h
  | cons c calls ih => exact ih (h.call c)

theorem setup_run (l : Labeled R) (calls : List Call) : SameSetup l (l.run io calls) := by
  induction calls generalizing l with
  | nil => exact ⟨rfl, rfl, rfl⟩
  | cons c calls ih => exact (call_setup io l c).trans (ih _)

theorem start_setup (inner : R) (opts : LabelOptions) (isAcceptor : Bool) :
    SameSetup (wrap inner opts isAcceptor) (start io inner opts isAcceptor) := by
  cases isAcceptor with
  | true => exact ⟨rfl, rfl, rfl⟩
  | false =>
    have h := flushPrefixIntoInner_setup io (wrap inner opts false).queuePrefix
    exact ⟨h.cluster, h.who, h.isAcceptor⟩

/-- The layer of a use is the layer of its calls. -/
theorem Use.layer_run (u : Use R) (calls : List Call) :
    (u.run D calls).layer = u.layer.run io calls := by
  induction calls generalizing u with
  | nil => rfl
  | cons c calls ih => exact ih (u.call D c)

theorem judge_eq_accepted_iff (opts : LabelOptions) (x : Bytes) (p : Peer) :
    judge opts.cluster x = .accepted p ↔
      ∃ id : HelloId, id.get < 2 ^ 128 ∧ x.take helloLen = encodeHello opts.cluster id ∧
        p = id.peer := by
  constructor
  · intro h
    rw [judge] at h
    split at h
    next id n hid =>
      obtain ⟨-, hlt, htake⟩ := (classifyHello_eq_accepted_iff opts.cluster_lt).mp hid
      exact ⟨id, hlt, htake, (Verdict.accepted.inj h).symm⟩
    · cases h
    · cases h
  · rintro ⟨id, hlt, htake, rfl⟩
    rw [judge, (classifyHello_eq_accepted_iff opts.cluster_lt).mpr ⟨rfl, hlt, htake⟩]

theorem application_of_accepted {p : Peer} (h : judge cluster x = .accepted p) :
    application cluster x = x.drop helloLen := by
  rw [judge] at h
  rw [application]
  split at h
  next id n hid => rw [hid, consumed_of_accepted hid]
  · cases h
  · cases h

theorem application_of_not_accepted (h : ∀ p, judge cluster x ≠ .accepted p) :
    application cluster x = [] := by
  rw [application]
  split
  next id n hid =>
    refine absurd ?_ (h id.peer)
    rw [judge, hid]
  · rfl

theorem Says.first {l : Labeled R} (h : l.Says) : l.handed = [] ∨ ∃ n apps,
    l.handed = .hello l.localHello n :: apps ∧ (∀ w ∈ apps, ∃ bytes k, w = .app bytes k) ∧
      (apps ≠ [] → n = helloLen) := by
  cases h with
  | nothing h1 => exact .inl h1
  | short n h1 => exact .inr ⟨n, [], h1, nofun, fun h => absurd rfl h⟩
  | whole apps h1 h2 => exact .inr ⟨helloLen, apps, h1, h2, fun _ => rfl⟩

theorem Says.heard {l : Labeled R} (h : l.Says) (hacceptor : l.isAcceptor = true)
    (hhanded : l.handed ≠ []) : l.peer.isSome = true := by
  cases h with
  | nothing h1 => exact absurd h1 hhanded
  | short n _ _ h3 => exact h3 hacceptor
  | whole apps _ _ h3 => exact h3 hacceptor

/-- A terminal layer for good. -/
theorem terminal_of_aborted {l : Labeled R} (h : l.aborted = true) :
    (∀ c, (l.call io c).1 = []) ∧ (∀ input now, (l.handleTransportData io input now).1 = .failed) ∧
      (∀ plaintext, (l.writePlaintext io plaintext).1 = 0) ∧ l.peerIdentity = none ∧
      l.isHandshaking io = true := by
  refine ⟨fun c => (call_aborted io h c).1, ?_, ?_, ?_, ?_⟩
  · intro input now
    rw [handleTransportData, if_pos h]
  · intro plaintext
    rw [writePlaintext, if_pos (by simp [h])]
  · rw [peerIdentity, if_pos h]
  · simp [isHandshaking, h]

/-- The handshake over every run. Over an inner layer that delivers in order, the verdict and the
    plaintext are those of the stream, and the stream is accepted exactly when it starts with a
    hello of the cluster. The local hello is handed over whole before any application byte, an
    acceptor's only after it has accepted the peer's. A layer that failed or was cleared
    surfaces no byte, no identity and no settled handshake. -/
theorem handshake_of_stream (R : Type) (io : RecordIo R) (inner : R) (opts : LabelOptions)
    (isAcceptor : Bool) (calls : List Call) :
    (∀ (D : io.Delivers), D.waiting inner = [] →
      let u := Use.run D { layer := start io inner opts isAcceptor } calls;
      (∀ x, u.broken = false → u.delivered <+: x → (u.layer.aborted = false → u.delivered = x) →
        u.layer.verdict = judge opts.cluster x ∧
          u.surfaced <+: application opts.cluster x ∧
          (u.call D .readPlaintext).surfaced = application opts.cluster x) ∧
      (isAcceptor = true → u.layer.handed ≠ [] →
        ∃ p, judge opts.cluster u.delivered = .accepted p)) ∧
    (∀ x p, judge opts.cluster x = .accepted p ↔ ∃ id : HelloId,
      id.get < 2 ^ 128 ∧ x.take helloLen = encodeHello opts.cluster id ∧ p = id.peer) ∧
    (∀ x, (∀ p, judge opts.cluster x = .accepted p → application opts.cluster x = x.drop helloLen) ∧
      ((∀ p, judge opts.cluster x ≠ .accepted p) → application opts.cluster x = [])) ∧
    (let l := (start io inner opts isAcceptor).run io calls;
      (l.handed = [] ∨ ∃ n apps,
        l.handed = .hello (encodeHello opts.cluster (HelloId.fromPeer opts.who)) n :: apps ∧
          (∀ w ∈ apps, ∃ bytes k, w = .app bytes k) ∧ (apps ≠ [] → n = helloLen)) ∧
      (isAcceptor = true → l.handed ≠ [] → l.peer.isSome = true)) ∧
    (∀ (l : Labeled R) (c : Call), ((∃ input now, c = .handleTransportData input now ∧
        (l.handleTransportData io input now).1 = .failed) ∨ c = .clearOutbound) →
      let l' := l.run io (c :: calls);
      (∀ c', (l'.call io c').1 = []) ∧
        (∀ input now, (l'.handleTransportData io input now).1 = .failed) ∧
        (∀ plaintext, (l'.writePlaintext io plaintext).1 = 0) ∧ l'.peerIdentity = none ∧
        l'.isHandshaking io = true) := by
  have hsays : ((start io inner opts isAcceptor).run io calls).Says :=
    says_run (says_start inner opts isAcceptor) calls
  have hsetup : SameSetup (wrap inner opts isAcceptor)
      ((start io inner opts isAcceptor).run io calls) :=
    (start_setup inner opts isAcceptor).trans (setup_run _ calls)
  refine ⟨?_, fun x p => judge_eq_accepted_iff opts x p, fun x => ⟨fun p => application_of_accepted,
    application_of_not_accepted⟩, ⟨?_, ?_⟩, ?_⟩
  · intro D hinner
    have htracks := Use.tracks_run (Use.tracks_start hinner opts isAcceptor) calls
    refine ⟨?_, ?_⟩
    · intro x hbroken hx hall
      obtain ⟨hverdict, hread⟩ := (htracks.stands hbroken).verdict_eq hx hall
      exact ⟨hverdict, ⟨_, hread⟩, hread⟩
    · intro hacceptor hhanded
      rw [Use.layer_run] at hhanded
      have hpeer := hsays.heard (hsetup.isAcceptor.trans hacceptor) hhanded
      rw [← Use.layer_run (D := D) { layer := start io inner opts isAcceptor }] at hpeer
      obtain ⟨p, hp⟩ := Option.isSome_iff_exists.mp hpeer
      obtain ⟨id, hid, -⟩ := htracks.heard p hp
      exact ⟨id.peer, by rw [judge, hid]⟩
  · have hlocal : ((start io inner opts isAcceptor).run io calls).localHello
        = encodeHello opts.cluster (HelloId.fromPeer opts.who) := by
      rw [localHello, hsetup.cluster, hsetup.who]
      rfl
    rw [← hlocal]
    exact hsays.first
  · exact fun hacceptor => hsays.heard (hsetup.isAcceptor.trans hacceptor)
  · intro l c hc
    have haborted : (l.call io c).2.aborted = true := by
      obtain ⟨input, now, rfl, hfailed⟩ | rfl := hc
      · exact aborted_of_failed io hfailed
      · rfl
    exact terminal_of_aborted (run_aborted io haborted calls)

/-- A client's hello in two reads over the raw pipe, with two bytes behind it. -/
def clientCalls : List Call :=
  [.handleTransportData ((encodeHello 5 (.client 9)).take 20) 0, .readPlaintext,
    .handleTransportData ((encodeHello 5 (.client 9)).drop 20 ++ [1, 2]) 0]

theorem handshake_of_stream_client :
    let u := Use.run Passthrough.delivers
      { layer := start Passthrough.io {} ⟨5, .replica 0, by decide⟩ true } clientCalls
    (u.broken = false ∧ judge 5 u.delivered = .accepted (.client 9)) ∧
      u.layer.verdict = judge 5 u.delivered ∧
      (u.call Passthrough.delivers .readPlaintext).surfaced = [1, 2] ∧
      (u.layer.run Passthrough.io (.clearOutbound :: clientCalls)).peerIdentity = none := by
  intro u
  obtain ⟨hstream, -, hplain, -, hclosed⟩ := handshake_of_stream _ Passthrough.io {}
    ⟨5, .replica 0, by decide⟩ true clientCalls
  have hbroken : u.broken = false := by decide +kernel
  have haccepted : judge 5 u.delivered = .accepted (.client 9) := by decide +kernel
  have hrest : u.delivered.drop helloLen = [1, 2] := by decide +kernel
  obtain ⟨hverdict, -, hread⟩ := (hstream Passthrough.delivers rfl).1 u.delivered hbroken
    (prefix_refl _) fun _ => rfl
  refine ⟨⟨hbroken, haccepted⟩, hverdict, ?_, (hclosed u.layer _ (.inr rfl)).2.2.2.1⟩
  rw [hread, (hplain _).1 _ haccepted, hrest]

end Labeled

end Viewstamp
