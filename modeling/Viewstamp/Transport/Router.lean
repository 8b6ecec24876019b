import Mathlib.Data.Prod.Lex
import Viewstamp.Lib.OrdMap
import Viewstamp.Transport.Conn

/- The connections of a stream node and the routing of its peers.

   `conns` holds every connection until it is reaped, `peers` the one each peer is routed
   over. The last connection to be validated for a peer takes the route; the ones it
   displaces stay as standbys, and reaping a route promotes one of them. A connection can
   be closed long before it is reaped, so `peers` may point at a closed one in between.
   `removed` and `reported` are records for the proofs, which no function reads. -/
namespace Viewstamp

open List

/-- A monotonic handle, never used again. -/
abbrev ConnId := Nat

/-- The order the source derives: replicas, then clients, then members. -/
def Peer.rank : Peer → Nat ×ₗ Nat
  | .replica r => toLex (0, r)
  | .client c => toLex (1, c)
  | .member m => toLex (2, m)

theorem Peer.rank_injective : Function.Injective Peer.rank := by
  intro p q h
  cases p <;> cases q <;> simp_all [Peer.rank]

instance : LinearOrder Peer := LinearOrder.lift' Peer.rank Peer.rank_injective

def Peer.isReplica : Peer → Bool
  | .replica _ => true
  | _ => false

def Peer.isMember : Peer → Bool
  | .member _ => true
  | _ => false

structure PeerRouter.Entry (R : Type) where
  conn : Conn R
  peer : Peer
  dialed : Bool
  attestedMember : Option MemberId := none

/-- `DEFAULT_OUTBOUND_CAP`. -/
def defaultOutboundCap : Nat := 64 * 1024 * 1024

structure PeerRouter (R : Type) where
  conns : OrdMap ConnId (PeerRouter.Entry R) := .empty
  peers : OrdMap Peer ConnId := .empty
  next : ConnId := 0
  cursor : ConnId := 0
  outboundCap : Nat := defaultOutboundCap
  oversizedDropped : Nat := 0
  closed : List (ConnId × CloseCause) := []
  removed : List (ConnId × Conn R) := []
  reported : List (ConnId × CloseCause) := []

namespace PeerRouter

variable {R : Type}

def withOutboundCap (cap : Nat) : PeerRouter R := { outboundCap := cap }

def pollClosed (t : PeerRouter R) : Option (ConnId × CloseCause) × PeerRouter R :=
  match t.closed with
  | [] => (none, t)
  | report :: closed => (some report, { t with closed, reported := t.reported ++ [report] })

def authoritative (t : PeerRouter R) (peer : Peer) : Option ConnId := t.peers.get? peer

def conn (t : PeerRouter R) (id : ConnId) : Option (Conn R) := (t.conns.get? id).map (·.conn)

/-- `conn_mut`: change a connection in place, if there is one. -/
def modifyConn (t : PeerRouter R) (id : ConnId) (f : Conn R → Conn R) : PeerRouter R :=
  { t with conns := t.conns.modify id fun e => { e with conn := f e.conn } }

def ids (t : PeerRouter R) : List ConnId := t.conns.keys

variable (io : RecordIo R)

/-- Bind a routing key, and the member that attested it if one did, and route the key here. -/
def bindPeer (t : PeerRouter R) (id : ConnId) (peer : Peer) (member : Option MemberId) :
    PeerRouter R :=
  { t with
    conns := t.conns.modify id fun e =>
      { e with
        peer
        attestedMember := member <|> e.attestedMember
        conn := e.conn.markValidated io peer }
    peers := t.peers.insert peer id }

/-- The connections an identity may still be bound to: open, not bound yet, handshake settled. -/
def awaits (e : Entry R) : Bool :=
  !e.conn.isClosed && !e.conn.isValidated && !e.conn.isHandshaking io

/-- Only a client's identity is bound at this level. -/
def noteIdentity (t : PeerRouter R) (id : ConnId) (identity : Peer) : PeerRouter R :=
  match identity with
  | .replica _ | .member _ => t
  | .client _ => t.bindPeer io id identity none

def noteEstablished (t : PeerRouter R) (id : ConnId) : PeerRouter R :=
  match t.conns.get? id with
  | none => t
  | some e =>
    if !awaits io e then t
    else match e.conn.handshakeIdentity io, e.dialed with
      | some a, true =>
        if a ≠ e.peer then t.modifyConn id (·.abort io .identityRejected)
        else t.noteIdentity io id a
      | some a, false => t.noteIdentity io id a
      | none, _ => t.noteIdentity io id e.peer

def noteEstablishedMember (t : PeerRouter R) (id : ConnId) (member : MemberId)
    (resolvedSlot : ReplicaId) : PeerRouter R :=
  match t.conns.get? id with
  | none => t
  | some e =>
    if !awaits io e then t
    else
      let routingPeer := Peer.replica resolvedSlot
      if e.dialed && routingPeer ≠ e.peer then t.modifyConn id (·.abort io .identityRejected)
      else t.bindPeer io id routingPeer (some member)

/-- Quarantine is for accepted connections alone: a dialed one is a stale target. -/
def noteEstablishedQuarantined (t : PeerRouter R) (id : ConnId) (member : MemberId) :
    PeerRouter R :=
  match t.conns.get? id with
  | none => t
  | some e =>
    if !awaits io e then t
    else if e.dialed then t.modifyConn id (·.abort io .identityRejected)
    else t.bindPeer io id (.member member) (some member)

/-- `register_dialed` and `register_accepted`. -/
def register (t : PeerRouter R) (peer : Peer) (conn : Conn R) (dialed : Bool) :
    ConnId × PeerRouter R :=
  let id := t.next
  let t := { t with next := t.next + 1, conns := t.conns.insert id { conn, peer, dialed } }
  (id, t.noteEstablished io id)

def registerDialed (t : PeerRouter R) (peer : Peer) (conn : Conn R) : ConnId × PeerRouter R :=
  t.register io peer conn true

def registerAccepted (t : PeerRouter R) (peer : Peer) (conn : Conn R) : ConnId × PeerRouter R :=
  t.register io peer conn false

def validatedMemberConns (t : PeerRouter R) : List (ConnId × MemberId × Peer) :=
  t.conns.entries.filterMap fun (id, e) =>
    if e.conn.isValidated then e.attestedMember.map fun m => (id, m, e.peer) else none

/-! ## Reaping -/

/-- The first validated connection of a peer. -/
def standby (t : PeerRouter R) (peer : Peer) : Option ConnId :=
  (t.conns.entries.find? fun (_, e) => e.peer = peer && e.conn.isValidated).map Prod.fst

/-- Drop a route and promote a standby to it. -/
def promote (t : PeerRouter R) (peer : Peer) : PeerRouter R :=
  match t.standby peer with
  | some id => { t with peers := (t.peers.erase peer).insert peer id }
  | none => { t with peers := t.peers.erase peer }

/-- Take a connection out and queue its report. -/
def remove (t : PeerRouter R) (id : ConnId) (conn : Conn R) (cause : CloseCause) : PeerRouter R :=
  { t with
    conns := t.conns.erase id
    closed := t.closed ++ [(id, cause)]
    removed := t.removed ++ [(id, conn)] }

/-- Remove a connection if it is closed. -/
def reap (t : PeerRouter R) (id : ConnId) : PeerRouter R :=
  match t.conns.get? id with
  | none => t
  | some e => match e.conn.closeCause with
    | none => t
    | some cause =>
      let wasAuthoritative := t.peers.get? e.peer == some id
      let t := t.remove id e.conn cause
      if wasAuthoritative then t.promote e.peer else t

def reapClosed (t : PeerRouter R) : PeerRouter R := t.ids.foldl reap t

/-! ## Routing -/

def replicaConns (t : PeerRouter R) (except : Option ReplicaId) : List ConnId :=
  t.peers.entries.filterMap fun (peer, id) => match peer with
    | .replica r => if except ≠ some r then some id else none
    | _ => none

def resolve (t : PeerRouter R) (recipient : Recipient) (selfId : ReplicaId) :
    List ConnId :=
  match recipient with
  | .toPeer peer => (t.authoritative peer).toList
  | .backups => t.replicaConns (some selfId)
  | .allReplicas => t.replicaConns none

/-- One turn of the fan-out: send to a connection, closing it when its queue is full; how many
    were closed. -/
def sendTo (framed : Bytes) (t : PeerRouter R) (id : ConnId) : Nat × PeerRouter R :=
  match t.conns.get? id with
  | none => (0, t)
  | some e =>
    if !e.conn.isValidated then (0, t)
    else if t.outboundCap < e.conn.queuedOutbound io + framed.length then
      (1, t.modifyConn id (·.abort io .outboundOverflow))
    else
      let (short, conn) := e.conn.writeFramed io framed
      (if short then 1 else 0, t.modifyConn id fun _ => conn)

def fanOut (framed : Bytes) (t : PeerRouter R) (targets : List ConnId) : Nat × PeerRouter R :=
  targets.foldl (fun (dropped, t) id =>
    let (d, t) := t.sendTo io framed id
    (dropped + d, t)) (0, t)

def countOversized (t : PeerRouter R) : PeerRouter R :=
  { t with oversizedDropped := min (t.oversizedDropped + 1) (2 ^ 64 - 1) }

/-- `route`: frame a message once and send it to everyone it goes to; how many connections that
    closed. Those are reaped before it returns. -/
def route (codec : WireCodec) (t : PeerRouter R) (recipient : Recipient)
    (msg : Message) (selfId : ReplicaId) : Nat × PeerRouter R :=
  if maxFrameLen < codec.wireSizeBound msg then (0, t.countOversized)
  else
    let encoded := codec.encode msg
    if maxFrameLen < encoded.length then (0, t.countOversized)
    else
      let (dropped, t) := t.fanOut io (encodeFrame encoded) (t.resolve recipient selfId)
      (dropped, if 0 < dropped then t.reapClosed else t)

/-- The turns of `poll_transmit`: the first open connection with something to send. -/
def transmitFrom (t : PeerRouter R) : List ConnId → Option (ConnId × Bytes) × PeerRouter R
  | [] => (none, t)
  | id :: ids => match t.conns.get? id with
    | none => t.transmitFrom ids
    | some e =>
      if e.conn.isClosed then t.transmitFrom ids
      else
        let (out, conn) := e.conn.pollTransmit io
        let t := t.modifyConn id fun _ => conn
        if out.isEmpty then t.transmitFrom ids
        else (some (id, out), { t with cursor := (id + 1) % 2 ^ 64 })

def pollTransmit (t : PeerRouter R) : Option (ConnId × Bytes) × PeerRouter R :=
  t.transmitFrom io (t.ids.filter (t.cursor ≤ ·) ++ t.ids.filter (· < t.cursor))

end PeerRouter

namespace PeerRouter

variable {p : Peer}

/-! ## The invariant of the table -/

/-- A connection is reported for what it was first closed for; a bound one speaks for the key it
    is filed under, and only a member's attestation files it under a slot or in quarantine. -/
structure Entry.Sound {R : Type} (e : Entry R) : Prop where
  first : e.conn.firstCause = e.conn.closeCause
  bound : e.conn.isValidated = true → e.conn.bound = some e.peer
  seat : e.conn.isValidated = true → ∀ slot, e.peer = .replica slot →
    ∃ m, e.attestedMember = some m ∧ e.conn.attested = some (.member m)
  guest : e.conn.isValidated = true → ∀ m, e.peer = .member m →
    e.attestedMember = some m ∧ e.conn.attested = some (.member m)

/-- The entry after its connection has done something by itself. -/
structure Entry.Kept {R : Type} (e e' : Entry R) : Prop where
  peer : e'.peer = e.peer
  attestedMember : e'.attestedMember = e.attestedMember
  conn : e.conn.Goes e'.conn

theorem Entry.Kept.refl (e : Entry R) : e.Kept e := ⟨rfl, rfl, .refl _⟩

theorem Entry.Kept.trans {e e' e'' : Entry R} (h : e.Kept e') (h' : e'.Kept e'') : e.Kept e'' :=
  ⟨h'.peer.trans h.peer, h'.attestedMember.trans h.attestedMember, h.conn.trans h'.conn⟩

theorem Entry.Kept.sound {e e' : Entry R} (h : e.Kept e') (he : e.Sound) : e'.Sound where
  first := h.conn.firstCause he.first
  bound hv := by rw [h.conn.bound, h.peer, he.bound (h.conn.of_validated hv)]
  seat hv slot hslot := by
    rw [h.attestedMember, h.conn.attested]
    exact he.seat (h.conn.of_validated hv) slot (h.peer ▸ hslot)
  guest hv m hm := by
    rw [h.attestedMember, h.conn.attested]
    exact he.guest (h.conn.of_validated hv) m (h.peer ▸ hm)

variable {R : Type} {t t' t'' : PeerRouter R} {id k : ConnId} {e : Entry R}

/-- The table between two operations on it. A route may point at a closed connection; every
    handle given out is in the table or was removed, once, and is reported as such. -/
structure Table (t : PeerRouter R) : Prop where
  entries : ∀ {id e}, t.conns.get? id = some e → e.Sound
  fresh : ∀ {id e}, t.conns.get? id = some e → id < t.next
  mapped : ∀ {p id}, t.peers.get? p = some id →
    ∃ e, t.conns.get? id = some e ∧ e.peer = p ∧ e.conn.state ≠ .handshaking
  covered : ∀ {id e}, t.conns.get? id = some e → e.conn.isValidated = true →
    ∃ k, t.peers.get? e.peer = some k
  queued : t.removed.map (fun r => (r.1, r.2.firstCause)) =
    (t.reported ++ t.closed).map fun r => (r.1, some r.2)
  once : (t.removed.map Prod.fst).Nodup
  gone : ∀ id, id ∈ t.removed.map Prod.fst ↔ id < t.next ∧ t.conns.get? id = none

/-- The connections left are those that were there, after what they did by themselves. -/
structure Keeps (t t' : PeerRouter R) : Prop where
  table : t'.Table
  kept : ∀ {id e'}, t'.conns.get? id = some e' → ∃ e, t.conns.get? id = some e ∧ e.Kept e'

theorem Keeps.refl (h : t.Table) : Keeps t t := ⟨h, fun he => ⟨_, he, .refl _⟩⟩

theorem Keeps.trans (h : Keeps t t') (h' : Keeps t' t'') : Keeps t t'' := by
  refine ⟨h'.table, fun he'' => ?_⟩
  obtain ⟨e', he', hkept'⟩ := h'.kept he''
  obtain ⟨e, he, hkept⟩ := h.kept he'
  exact ⟨e, he, hkept.trans hkept'⟩

theorem get?_modifyConn (t : PeerRouter R) (id k : ConnId) (f : Conn R → Conn R) :
    (t.modifyConn id f).conns.get? k =
      if k = id then (t.conns.get? k).map fun e => { e with conn := f e.conn }
      else t.conns.get? k :=
  OrdMap.get?_modify _ _ _ _

/-- A connection does something by itself. -/
theorem Table.modifyConn (h : t.Table) {f : Conn R → Conn R}
    (hf : ∀ e, t.conns.get? id = some e → e.conn.Goes (f e.conn)) :
    Keeps t (t.modifyConn id f) := by
  -- what stands at a handle afterwards, and what stood there
  have hback {k : ConnId} {e' : Entry R} (he' : (t.modifyConn id f).conns.get? k = some e') :
      ∃ e, t.conns.get? k = some e ∧ e.Kept e' := by
    rw [get?_modifyConn] at he'
    split_ifs at he' with hk
    · subst hk
      obtain ⟨e, he, rfl⟩ := Option.map_eq_some_iff.mp he'
      exact ⟨e, he, rfl, rfl, hf e he⟩
    · exact ⟨e', he', .refl e'⟩
  have hforth {k : ConnId} {e : Entry R} (he : t.conns.get? k = some e) :
      ∃ e', (t.modifyConn id f).conns.get? k = some e' ∧ e.Kept e' := by
    rw [get?_modifyConn]
    split_ifs with hk
    · subst hk
      exact ⟨{ e with conn := f e.conn }, by rw [he]; rfl, rfl, rfl, hf e he⟩
    · exact ⟨e, he, .refl e⟩
  refine ⟨⟨fun he' => ?_, fun he' => ?_, fun hp => ?_, fun he' hv => ?_, h.queued, h.once,
    fun k => (h.gone k).trans (and_congr_right fun _ => ?_)⟩, hback⟩
  · obtain ⟨e, he, hkept⟩ := hback he'
    exact hkept.sound (h.entries he)
  · obtain ⟨e, he, -⟩ := hback he'
    exact h.fresh he
  · obtain ⟨e, he, hpeer, hstate⟩ := h.mapped hp
    obtain ⟨e', he', hkept⟩ := hforth he
    exact ⟨e', he', hkept.peer.trans hpeer, hkept.conn.not_handshaking hstate⟩
  · obtain ⟨e, he, hkept⟩ := hback he'
    rw [hkept.peer]
    exact h.covered he (hkept.conn.of_validated hv)
  · constructor
    · intro hnone
      rw [Option.eq_none_iff_forall_ne_some]
      intro e' he'
      obtain ⟨e, he, -⟩ := hback he'
      rw [hnone] at he
      cases he
    · intro hnone
      rw [Option.eq_none_iff_forall_ne_some]
      intro e he
      obtain ⟨e', he', -⟩ := hforth he
      rw [hnone] at he'
      cases he'

/-! ### Reaping -/

theorem standby_eq_some (h : t.standby p = some id) :
    ∃ e, t.conns.get? id = some e ∧ e.peer = p ∧ e.conn.isValidated = true := by
  obtain ⟨⟨k, e⟩, hfind, rfl⟩ := Option.map_eq_some_iff.mp h
  have hmem := OrdMap.mem_entries.mp (mem_of_find?_eq_some hfind)
  have hp := find?_some hfind
  simp only [Bool.and_eq_true, decide_eq_true_eq] at hp
  exact ⟨e, hmem, hp.1, hp.2⟩

theorem standby_eq_none (h : t.standby p = none) (he : t.conns.get? id = some e) (hp : e.peer = p) :
    e.conn.isValidated = false := by
  have hno := find?_eq_none.mp (Option.map_eq_none_iff.mp h) _ (OrdMap.mem_entries.mpr he)
  simpa [hp] using hno

theorem promote_conns (t : PeerRouter R) (p : Peer) : (t.promote p).conns = t.conns := by
  rw [promote]
  split <;> rfl

theorem get?_promote_peers (t : PeerRouter R) (p q : Peer) :
    (t.promote p).peers.get? q = if q = p then t.standby p else t.peers.get? q := by
  rw [promote]
  split
  · next k hk =>
    rw [OrdMap.get?_insert, OrdMap.get?_erase, hk]
    split_ifs <;> rfl
  · next hk =>
    rw [OrdMap.get?_erase, hk]
    split_ifs <;> rfl

theorem get?_remove (t : PeerRouter R) (id k : ConnId) (conn : Conn R) (cause : CloseCause) :
    (t.remove id conn cause).conns.get? k = if k = id then none else t.conns.get? k :=
  OrdMap.get?_erase _ _ _

/-- Everything but the routes after a closed connection is taken out: the route of its peer is
    another one's, or is promoted. -/
theorem Table.remove (h : t.Table) (he : t.conns.get? id = some e) {cause : CloseCause}
    (hc : e.conn.closeCause = some cause) (peers : OrdMap Peer ConnId)
    (hpeers : ∀ q, peers.get? q =
      if q = e.peer ∧ t.peers.get? e.peer = some id then (t.remove id e.conn cause).standby e.peer
      else t.peers.get? q) :
    Keeps t { t.remove id e.conn cause with peers } := by
  have hback {k : ConnId} {e' : Entry R}
      (he' : (t.remove id e.conn cause).conns.get? k = some e') :
      k ≠ id ∧ t.conns.get? k = some e' := by
    rw [get?_remove] at he'
    split_ifs at he' with hk
    exact ⟨hk, he'⟩
  have hclosed : e.conn.isClosed = true := by rw [Conn.isClosed, hc]; rfl
  refine ⟨⟨fun he' => h.entries (hback he').2, fun he' => h.fresh (hback he').2, fun hp => ?_,
    fun he' hv => ?_, ?_, ?_, fun k => ?_⟩, fun he' => ⟨_, (hback he').2, .refl _⟩⟩
  · rw [hpeers] at hp
    split_ifs at hp with hq
    · obtain ⟨x, hx, hpeer, hv⟩ := standby_eq_some hp
      refine ⟨x, hx, hpeer.trans hq.1.symm, fun hstate => ?_⟩
      rw [Conn.isValidated, hstate] at hv
      cases hv
    · obtain ⟨x, hx, hpeer, hstate⟩ := h.mapped hp
      refine ⟨x, ?_, hpeer, hstate⟩
      rw [get?_remove, if_neg, hx]
      rintro rfl
      rw [he] at hx
      obtain rfl := Option.some.inj hx
      exact hq ⟨hpeer.symm, hpeer ▸ hp⟩
  · obtain ⟨-, hx⟩ := hback he'
    rw [hpeers]
    split_ifs with hq
    · cases hstandby : (t.remove id e.conn cause).standby e.peer with
      | some k => exact ⟨k, rfl⟩
      | none =>
        rw [standby_eq_none hstandby he' hq.1] at hv
        cases hv
    · exact h.covered hx hv
  · show (t.removed ++ [(id, e.conn)]).map _ = (t.reported ++ (t.closed ++ [(id, cause)])).map _
    rw [← append_assoc, map_append, map_append, h.queued]
    simp [(h.entries he).first, hc]
  · show ((t.removed ++ [(id, e.conn)]).map Prod.fst).Nodup
    rw [map_append]
    refine nodup_append.mpr ⟨h.once, by simp, fun a ha b hb => ?_⟩
    obtain rfl : b = id := by simpa using hb
    rintro rfl
    have hnone := ((h.gone a).mp ha).2
    rw [he] at hnone
    cases hnone
  · show k ∈ (t.removed ++ [(id, e.conn)]).map Prod.fst ↔ k < t.next ∧ _
    rw [get?_remove, map_append, mem_append, h.gone k]
    by_cases hk : k = id
    · subst hk
      simp [h.fresh he]
    · simp [hk]

theorem Table.reap (h : t.Table) (id : ConnId) : Keeps t (t.reap id) := by
  rw [PeerRouter.reap]
  split
  · exact .refl h
  · next e he =>
    split
    · exact .refl h
    · next cause hc =>
      simp only [beq_iff_eq]
      split_ifs with hauth
      · have hpeers := get?_promote_peers (t.remove id e.conn cause) e.peer
        have hkeeps := h.remove he hc ((t.remove id e.conn cause).promote e.peer).peers
          (fun q => by rw [hpeers, hauth]; simp [PeerRouter.remove])
        have heq : { t.remove id e.conn cause with
            peers := ((t.remove id e.conn cause).promote e.peer).peers } =
            (t.remove id e.conn cause).promote e.peer := by
          rw [promote]
          split <;> rfl
        rwa [heq] at hkeeps
      · exact h.remove he hc t.peers fun q => by rw [if_neg fun hq => hauth hq.2]

/-- Reaping takes a closed connection out, and nothing else. -/
theorem get?_reap (t : PeerRouter R) (id k : ConnId) : (t.reap id).conns.get? k =
    if k = id then (t.conns.get? k).filter fun e => !e.conn.isClosed else t.conns.get? k := by
  rw [reap]
  split
  · next hnone =>
    split_ifs with hk
    · rw [hk, hnone]
      rfl
    · rfl
  · next e he =>
    split
    · next hc =>
      split_ifs with hk
      · rw [hk, he, Option.filter, Conn.isClosed, hc]
        rfl
      · rfl
    · next cause hc =>
      have hconns : ∀ b : Bool, (if b = true then (t.remove id e.conn cause).promote e.peer
          else t.remove id e.conn cause).conns = (t.remove id e.conn cause).conns := by
        intro b
        cases b
        · rfl
        · exact promote_conns _ _
      simp only [hconns]
      rw [get?_remove]
      split_ifs with hk
      · rw [hk, he, Option.filter, Conn.isClosed, hc]
        rfl
      · rfl

theorem Table.reapAll (ids : List ConnId) (h : t.Table) :
    Keeps t (ids.foldl PeerRouter.reap t) := by
  induction ids generalizing t with
  | nil => exact .refl h
  | cons id ids ih => exact (h.reap id).trans (ih (h.reap id).table)

theorem get?_reapAll (ids : List ConnId) (t : PeerRouter R) (k : ConnId) :
    (ids.foldl PeerRouter.reap t).conns.get? k =
      if k ∈ ids then (t.conns.get? k).filter fun e => !e.conn.isClosed else t.conns.get? k := by
  induction ids generalizing t with
  | nil => rfl
  | cons id ids ih =>
    rw [foldl_cons, ih, get?_reap]
    cases t.conns.get? k with
    | none => simp
    | some e =>
      -- a connection reaped twice is gone after the first time
      by_cases hid : k = id <;> by_cases hmem : k ∈ ids <;> cases hc : e.conn.isClosed <;>
        simp_all [Option.filter]

/-- No connection is closed. -/
def AllOpen (t : PeerRouter R) : Prop :=
  ∀ id e, t.conns.get? id = some e → e.conn.isClosed = false

theorem Table.reapClosed (h : t.Table) : Keeps t t.reapClosed := h.reapAll t.ids

theorem reapClosed_allOpen (t : PeerRouter R) : t.reapClosed.AllOpen := by
  intro k e he
  rw [reapClosed, get?_reapAll] at he
  split_ifs at he with hk
  · obtain ⟨-, hopen⟩ := Option.filter_eq_some_iff.mp he
    simpa using hopen
  · exact absurd (OrdMap.mem_keys.mpr ⟨e, he⟩) hk

/-! ### Routing -/

variable (io : RecordIo R)

theorem Table.sendTo (h : t.Table) (framed : Bytes) (id : ConnId) :
    Keeps t (t.sendTo io framed id).2 := by
  simp only [PeerRouter.sendTo]
  split
  · exact .refl h
  · next e he =>
    have hthe {x : Entry R} (hx : t.conns.get? id = some x) : x = e :=
      Option.some.inj (hx.symm.trans he)
    have hwrite : Keeps t (t.modifyConn id fun _ => (e.conn.writeFramed io framed).2) := by
      refine h.modifyConn fun x hx => ?_
      rw [hthe hx]
      exact Conn.writeFramed_goes io _ _
    split_ifs with hvalid hfull
    · exact .refl h
    · have habort : Keeps t (t.modifyConn id (·.abort io .outboundOverflow)) := by
        refine h.modifyConn fun x hx => ?_
        rw [hthe hx]
        exact Conn.abort_goes io (Conn.isClosed_of_validated (by simpa using hvalid)) _
      exact habort
    · exact hwrite
    · exact hwrite

/-- A turn that closes nothing leaves everything open. -/
theorem sendTo_allOpen {framed : Bytes} (h : t.AllOpen) (hd : (t.sendTo io framed id).1 = 0) :
    (t.sendTo io framed id).2.AllOpen := by
  simp only [sendTo] at hd ⊢
  cases he : t.conns.get? id with
  | none => exact h
  | some e =>
    rw [he] at hd
    dsimp only at hd ⊢
    split_ifs at hd ⊢ with hvalid hfull hshort
    · exact h
    · intro k x hx
      rw [get?_modifyConn] at hx
      split_ifs at hx with hk
      · rw [hk, he] at hx
        obtain rfl := Option.some.inj hx
        exact Conn.writeFramed_open io (h id e he) (Bool.eq_false_iff.mpr hshort)
      · exact h k x hx

/-- The fan-out from a running count. -/
theorem fanOut_from (framed : Bytes) (targets : List ConnId) (h : t.Table) (n : Nat)
    {out : Nat × PeerRouter R}
    (hout : targets.foldl (fun (acc : Nat × PeerRouter R) id =>
      (acc.1 + (acc.2.sendTo io framed id).1, (acc.2.sendTo io framed id).2)) (n, t) = out) :
    Keeps t out.2 ∧ n ≤ out.1 ∧ (out.1 = n → t.AllOpen → out.2.AllOpen) := by
  induction targets generalizing t n with
  | nil =>
    subst hout
    exact ⟨.refl h, le_refl n, fun _ hopen => hopen⟩
  | cons id targets ih =>
    have hsend := h.sendTo io framed id
    obtain ⟨hkeeps, hle, hopen⟩ := ih hsend.table (n + (t.sendTo io framed id).1) hout
    refine ⟨hsend.trans hkeeps, (Nat.le_add_right n _).trans hle, fun heq hall => ?_⟩
    have hzero : (t.sendTo io framed id).1 = 0 := by omega
    exact hopen (by omega) (sendTo_allOpen io hall hzero)

theorem Table.route (h : t.Table) (codec : WireCodec) (recipient : Recipient) (msg : Message)
    (selfId : ReplicaId) : Keeps t (t.route io codec recipient msg selfId).2 := by
  have hcount : Keeps t t.countOversized :=
    ⟨⟨h.entries, h.fresh, h.mapped, h.covered, h.queued, h.once, h.gone⟩,
      fun he => ⟨_, he, .refl _⟩⟩
  simp only [PeerRouter.route]
  split_ifs with hbound hlen hdropped
  · exact hcount
  · exact hcount
  · have hfan :=
      (fanOut_from io (encodeFrame (codec.encode msg)) (t.resolve recipient selfId) h 0 rfl).1
    exact hfan.trans hfan.table.reapClosed
  · exact (fanOut_from io (encodeFrame (codec.encode msg)) (t.resolve recipient selfId) h 0 rfl).1

/-- What a route closes, it reaps. -/
theorem route_allOpen (h : t.Table) (hopen : t.AllOpen) (codec : WireCodec) (recipient : Recipient)
    (msg : Message) (selfId : ReplicaId) : (t.route io codec recipient msg selfId).2.AllOpen := by
  simp only [route]
  split_ifs with hbound hlen hdropped
  · exact hopen
  · exact hopen
  · exact reapClosed_allOpen _
  · obtain ⟨-, -, hsame⟩ :=
      fanOut_from io (encodeFrame (codec.encode msg)) (t.resolve recipient selfId) h 0 rfl
    exact hsame (Nat.eq_zero_of_not_pos hdropped) hopen

theorem Table.transmitFrom (ids : List ConnId) (h : t.Table) :
    Keeps t (t.transmitFrom io ids).2 := by
  induction ids generalizing t with
  | nil => exact .refl h
  | cons id ids ih =>
    simp only [PeerRouter.transmitFrom]
    split
    · exact ih h
    · next e he =>
      split
      · exact ih h
      · have hpoll : Keeps t (t.modifyConn id fun _ => (e.conn.pollTransmit io).2) := by
          refine h.modifyConn fun x hx => ?_
          rw [he] at hx
          obtain rfl := Option.some.inj hx
          exact Conn.pollTransmit_goes io _
        split
        · exact hpoll.trans (ih hpoll.table)
        · obtain ⟨htable, hkept⟩ := hpoll
          exact ⟨⟨htable.entries, htable.fresh, htable.mapped, htable.covered, htable.queued,
            htable.once, htable.gone⟩, hkept⟩

theorem Table.pollTransmit (h : t.Table) : Keeps t (t.pollTransmit io).2 :=
  h.transmitFrom io _

theorem Table.pollClosed (h : t.Table) : Keeps t t.pollClosed.2 := by
  rw [PeerRouter.pollClosed]
  split
  · exact .refl h
  · next report closed hc =>
    refine ⟨⟨h.entries, h.fresh, h.mapped, h.covered, ?_, h.once, h.gone⟩,
      fun he => ⟨_, he, .refl _⟩⟩
    rw [h.queued, hc, append_assoc]
    rfl

/-! ### Binding -/

/-- An identity a connection may be bound to: a client's, or what a member has attested. -/
inductive Vouched (e : Entry R) : Peer → Option MemberId → Prop where
  | client (c : ClientId) : Vouched e (.client c) none
  | seat (m : MemberId) (slot : ReplicaId) (h : e.conn.handshakeIdentity io = some (.member m)) :
    Vouched e (.replica slot) (some m)
  | guest (m : MemberId) (h : e.conn.handshakeIdentity io = some (.member m)) :
    Vouched e (.member m) (some m)

theorem awaits_handshaking (h : awaits io e = true) : e.conn.state = .handshaking := by
  simp only [awaits, Conn.isClosed, Conn.closeCause, Conn.isValidated, Bool.and_eq_true] at h
  cases hs : e.conn.state with
  | handshaking => rfl
  | validated | closed => simp [hs] at h

/-- The entry once its identity is bound. -/
def boundEntry (e : Entry R) (p : Peer) (member : Option MemberId) : Entry R :=
  { e with
    peer := p
    attestedMember := member <|> e.attestedMember
    conn := e.conn.markValidated io p }

theorem get?_bindPeer (t : PeerRouter R) (id k : ConnId) (p : Peer) (member : Option MemberId) :
    (t.bindPeer io id p member).conns.get? k =
      if k = id then (t.conns.get? k).map (boundEntry io · p member) else t.conns.get? k :=
  OrdMap.get?_modify _ _ _ _

theorem boundEntry_validated (h : awaits io e = true) (p : Peer) (member : Option MemberId) :
    (boundEntry io e p member).conn.isValidated = true := by
  show (e.conn.markValidated io p).isValidated = true
  rw [Conn.markValidated, if_pos (awaits_handshaking io h)]
  rfl

theorem boundEntry_sound (he : e.Sound) (h : awaits io e = true) {member : Option MemberId}
    (hv : Vouched io e p member) : (boundEntry io e p member).Sound := by
  have hstate := awaits_handshaking io h
  have hconn : (boundEntry io e p member).conn = { e.conn with
      bound := some p, state := .validated, attested := e.conn.handshakeIdentity io } := by
    show e.conn.markValidated io p = _
    rw [Conn.markValidated, if_pos hstate]
  refine ⟨?_, fun _ => ?_, fun _ slot hslot => ?_, fun _ m hm => ?_⟩
  · rw [hconn]
    show e.conn.firstCause = none
    rw [he.first, Conn.closeCause, hstate]
  · rw [hconn]
    rfl
  · rw [hconn]
    cases hv with
    | client c => cases hslot
    | seat m slot' hm => exact ⟨m, rfl, hm⟩
    | guest m hm => cases hslot
  · rw [hconn]
    cases hv with
    | client | seat => cases hm
    | guest m' hid =>
      cases hm
      exact ⟨rfl, hid⟩

theorem Table.bindPeer (h : t.Table) (he : t.conns.get? id = some e) (hw : awaits io e = true)
    {member : Option MemberId} (hv : Vouched io e p member) :
    (t.bindPeer io id p member).Table := by
  have hpeers (q : Peer) : (t.bindPeer io id p member).peers.get? q =
      if q = p then some id else t.peers.get? q := by
    rw [PeerRouter.bindPeer, OrdMap.get?_insert]
    split_ifs <;> rfl
  refine ⟨fun {k x} hx => ?_, fun {k x} hx => ?_, fun {q k} hq => ?_, fun {k x} hx hvalid => ?_,
    h.queued, h.once, fun k => (h.gone k).trans (and_congr_right fun _ => ?_)⟩
  · rw [get?_bindPeer] at hx
    split_ifs at hx with hk
    · rw [hk, he] at hx
      obtain rfl := Option.some.inj hx
      exact boundEntry_sound io (h.entries he) hw hv
    · exact h.entries hx
  · rw [get?_bindPeer] at hx
    split_ifs at hx with hk
    · rw [hk]
      exact h.fresh he
    · exact h.fresh hx
  · rw [hpeers] at hq
    rw [get?_bindPeer]
    split_ifs at hq with hqp
    · obtain rfl := Option.some.inj hq
      refine ⟨boundEntry io e p member, by rw [if_pos rfl, he]; rfl, hqp.symm, fun hs => ?_⟩
      have hvalid := boundEntry_validated io hw p member
      rw [Conn.isValidated, hs] at hvalid
      cases hvalid
    · obtain ⟨x, hx, hpeer, hstate⟩ := h.mapped hq
      -- no route leads to a connection that still awaits its identity
      have hk : k ≠ id := by
        rintro rfl
        rw [he] at hx
        obtain rfl := Option.some.inj hx
        exact hstate (awaits_handshaking io hw)
      exact ⟨x, by rw [if_neg hk, hx], hpeer, hstate⟩
  · rw [hpeers]
    split_ifs with hxp
    · exact ⟨id, rfl⟩
    · rw [get?_bindPeer] at hx
      split_ifs at hx with hk
      · rw [hk, he] at hx
        obtain rfl := Option.some.inj hx
        exact absurd rfl hxp
      · exact h.covered hx hvalid
  · rw [get?_bindPeer]
    split_ifs with hk
    · rw [hk, he]
      simp
    · rfl

end PeerRouter

end Viewstamp
