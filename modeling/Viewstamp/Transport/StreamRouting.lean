import Viewstamp.Transport.Coordinator
import Viewstamp.Transport.Seats

/- Whom a stream node routes to.

   Between two calls a closed connection may still hold a route, and a membership may have
   seated a peer elsewhere; neither is so by the time a message is routed. One invariant is
   carried through every call: the table is in order, at most a few quarantined
   connections are validated, and every connection bound to a slot was attested by the
   member which the membership last reconciled with puts there. A reconciliation moves that
   membership to the endpoint's own and every pump begins by reaping, which is what makes
   the points of routing what they are. -/
namespace Viewstamp

open List

/-! ## What the endpoint's own calls leave alone -/

namespace Node

variable {S : Type}

@[simp] theorem membership_emit (n : Node S) (recipient : Recipient) (msg : Message) :
    (n.emit recipient msg).membership = n.membership := by
  rw [emit]
  split <;> rfl

@[simp] theorem membership_submitOrDeferAppend (n : Node S) (op : OpNumber) (header : Header)
    (body : Bytes) (kind : Pending) :
    (n.submitOrDeferAppend op header body kind).membership = n.membership := by
  rw [submitOrDeferAppend, submitAppendAs]
  split
  · rfl
  · dsimp only
    split <;> rfl

theorem membership_mintOp (n : Node S) (now : Instant) (client : ClientId)
    (request : RequestNumber) (bytes : Bytes) (body : Body) :
    (n.mintOp now client request bytes body).membership = n.membership := by
  simp [mintOp, armTimers]

theorem membership_onRequest (n : Node S) (now : Instant) (r : Request) :
    (n.onRequest now r).membership = n.membership := by
  have hanswer (admission : Option NewOpReject) :
      (n.admitRequest now r admission).membership = n.membership := by
    rw [admitRequest]
    split
    · rfl
    · exact membership_mintOp _ _ _ _ _ _
  simp only [onRequest]
  repeat' split
  all_goals first | rfl | exact hanswer _ | exact membership_emit _ _ _

theorem membership_withLocalSlot (n : Node S) {f : ReplicaId → Node S}
    (h : ∀ slot, (f slot).membership = n.membership) :
    (n.withLocalSlot f).membership = n.membership := by
  rw [withLocalSlot]
  split
  · exact h _
  · rfl

theorem membership_proposeMembership (n : Node S) (now : Instant) (delta : SingleVoterDelta)
    (accept : Bool) : (n.proposeMembership now delta accept).1.membership = n.membership := by
  have hmint (n : Node S) (successor : Membership) :
      (n.mintReconfigure now successor).membership = n.membership :=
    membership_mintOp n now _ _ _ _
  have hsolicit (target : MemberId) :
      (n.solicitLearnerProof target).membership = n.membership := by
    rw [solicitLearnerProof]
    split
    · rfl
    · dsimp only
      rw [membership_withLocalSlot]
      · split <;> rfl
      · intro slot
        exact membership_emit _ _ _
  simp only [proposeMembership]
  repeat' split
  all_goals first | rfl | exact hmint _ _ | exact hsolicit _

theorem membership_solicitHealthProofs (n : Node S) (now : Instant) (lifetime : Nat) :
    (n.solicitHealthProofs now lifetime).membership = n.membership := by
  have hfold (slots : List ReplicaId) (say : ReplicaId → Node S → Message) (n : Node S) :
      (slots.foldl (fun n slot => n.emit (.toPeer (.replica slot)) (say slot n)) n).membership =
        n.membership := by
    induction slots generalizing n with
    | nil => rfl
    | cons slot slots ih => exact (ih _).trans (membership_emit _ _ _)
  simp only [solicitHealthProofs]
  split
  · rfl
  · rw [membership_withLocalSlot]
    · split <;> rfl
    · intro slot
      exact hfold _ (fun _ n => _) _

variable [StateMachine S]

/-- A request installs nothing. -/
theorem membership_handleMessage_request (n : Node S) (now : Instant) (sender : Peer)
    (r : Request) : (n.handleMessage now sender (.request r)).membership = n.membership := by
  have hcatchup : n.maybeRequestCrossEpochCatchup now sender (.request r) = n := rfl
  have hanswer : n.maybeAnswerLowerEpoch sender (.request r) = n := by
    rw [maybeAnswerLowerEpoch]
    split <;> rfl
  have hcancel (n : Node S) : n.cancelStaleCrossEpochSync (.request r) = n := by
    rw [cancelStaleCrossEpochSync]
    simp [messageEpoch]
  have hrecovering : n.onRecoveringMessage now sender (.request r) = n := by
    simp [onRecoveringMessage]
  simp only [handleMessage, dispatch, hcatchup, hanswer, hcancel, hrecovering]
  split
  · rfl
  · split
    · rfl
    · split
      · rfl
      · split
        · rfl
        · rfl
        · exact membership_onRequest n now r
end Node

/-! ## The points of routing -/

/-- No two of these memberships share a configuration id. -/
def Membership.Distinct (ms : List Membership) : Prop :=
  ∀ m ∈ ms, ∀ m' ∈ ms, m.configId = m'.configId → m = m'

theorem Membership.Distinct.mono {ms ms' : List Membership} (h : Distinct ms') (hsub : ms ⊆ ms') :
    Distinct ms :=
  fun m hm m' hm' => h m (hsub hm) m' (hsub hm')

/-- Each key is routed over a validated connection bound to it, and no such key is left out. -/
structure RoutePoint.Routed {R : Type} (p : RoutePoint R) : Prop where
  bound : ∀ k id, p.router.peers.get? k = some id →
    ∃ e, p.router.conns.get? id = some e ∧ e.conn.isValidated = true ∧ e.peer = k
  mapped : ∀ id e, p.router.conns.get? id = some e → e.conn.isValidated = true →
    ∃ k, p.router.peers.get? e.peer = some k

/-- Each connection bound to a slot was attested by the member that has the slot. -/
def RoutePoint.Seated {R : Type} (p : RoutePoint R) : Prop :=
  ∀ id e slot, p.router.conns.get? id = some e → e.conn.isValidated = true →
    e.peer = .replica slot →
    ∃ m, e.conn.attested = some (.member m) ∧ p.membership.slotOf m = some slot

/-- The message was decoded from a frame of a validated connection, in the name it is bound to;
    or it is a request of the node's own application, in the name of its client. -/
def Delivery.Came {R : Type} (codec : WireCodec) (d : Delivery R) : Prop :=
  match d.decodedFrom with
  | some e => e.conn.isValidated = true ∧ d.sender = e.peer ∧
      ∃ frame ∈ e.conn.decoder.ready, codec.decode frame = .message d.msg
  | none => ∃ r, d.msg = .request r ∧ d.sender = .client r.client

namespace StreamCoordinator

variable {S R : Type} {io : RecordIo R} {codec : WireCodec} {c : StreamCoordinator S R}
variable {e : PeerRouter.Entry R}
  {M : Membership} {t : PeerRouter R} {id : ConnId} {m : MemberId} {p : Peer}

/-- What every call keeps, for the membership the routing was last reconciled with. -/
structure Good (codec : WireCodec) (c : StreamCoordinator S R) (M : Membership) : Prop where
  table : c.router.Table
  few : c.router.guests.card ≤ quarantineConnLimit
  seated : Membership.Distinct c.installed → c.router.Seated M
  last : c.lastReconciledConfigId = M.configId
  known : M ∈ c.installed
  routes : ∀ p ∈ c.routes, p.Routed ∧ (Membership.Distinct c.installed → p.Seated)
  delivered : ∀ d ∈ c.delivered, d.Came codec

theorem Good.new (endpoint : Node S) (polled cap : Nat) :
    Good codec (withOutboundCap endpoint polled cap : StreamCoordinator S R)
      endpoint.membership := by
  refine ⟨PeerRouter.table_empty cap, Nat.zero_le _, fun _ id e slot he => ?_, rfl,
    mem_singleton_self _, fun p hp => ?_, fun d hd => ?_⟩
  · have hnone : (PeerRouter.withOutboundCap cap : PeerRouter R).conns.get? id = none := rfl
    cases hnone.symm.trans he
  · cases hp
  · cases hd

/-- The endpoint and what was polled of it are not part of it. -/
theorem Good.endpoint (h : Good codec c M) (n : Node S) (polled : Nat) :
    Good codec { c with endpoint := n, polled } M :=
  ⟨h.table, h.few, h.seated, h.last, h.known, h.routes, h.delivered⟩

theorem Good.router (h : Good codec c M) (hk : c.router.Keeps t) :
    Good codec { c with router := t } M :=
  ⟨hk.table, (Finset.card_le_card hk.guests).trans h.few, fun hd => hk.seated (h.seated hd),
    h.last, h.known, h.routes, h.delivered⟩

/-! ## Routing -/

/-- With nothing closed, every route is as it should be. -/
theorem Good.routed (h : Good codec c M) (hopen : c.router.AllOpen)
    (hM : c.endpoint.membership = M) :
    RoutePoint.Routed ⟨c.router, c.endpoint.membership⟩ ∧
      (Membership.Distinct c.installed → RoutePoint.Seated ⟨c.router, c.endpoint.membership⟩) := by
  refine ⟨⟨fun k id hk => ?_, fun id e he hv => h.table.covered he hv⟩,
    fun hd id e slot he hv hp => ?_⟩
  · obtain ⟨e, he, hp, hstate⟩ := h.table.mapped hk
    have hno := hopen id e he
    refine ⟨e, he, ?_, hp⟩
    cases hs : e.conn.state with
    | handshaking => exact absurd hs hstate
    | validated => exact decide_eq_true hs
    | closed cause =>
      rw [Conn.isClosed_of_state hs] at hno
      cases hno
  · obtain ⟨m, -, hatt, hslot⟩ := h.seated hd id e slot he hv hp
    exact ⟨m, hatt, hM ▸ hslot⟩

/-- A call that ends with nothing closed, for the membership the endpoint has. -/
structure Settled (codec : WireCodec) (c : StreamCoordinator S R) : Prop where
  good : Good codec c c.endpoint.membership
  allOpen : c.router.AllOpen

theorem Settled.routeOne (h : Settled codec c) (selfId : ReplicaId) (o : Outgoing) :
    Settled codec (c.routeOne io codec selfId o) := by
  have hroute := h.good.table.route io codec o.recipient o.msg selfId
  refine ⟨⟨hroute.table, ?_, fun hd => hroute.seated (h.good.seated hd), h.good.last,
    h.good.known, fun p hp => ?_, h.good.delivered⟩,
    PeerRouter.route_allOpen io h.good.table h.allOpen codec o.recipient o.msg selfId⟩
  · exact (Finset.card_le_card hroute.guests).trans h.good.few
  · rcases mem_append.mp hp with hp | hp
    · exact h.good.routes p hp
    · obtain rfl := mem_singleton.mp hp
      exact h.good.routed h.allOpen rfl

theorem Settled.routeAll (outgoing : List Outgoing) (h : Settled codec c) (selfId : ReplicaId) :
    Settled codec (outgoing.foldl (StreamCoordinator.routeOne io codec selfId) c) := by
  induction outgoing generalizing c with
  | nil => exact h
  | cons o outgoing ih => exact ih (h.routeOne selfId o)

theorem Good.pump (h : Good codec c c.endpoint.membership) : Settled codec (c.pump io codec) := by
  have hreaped : Settled codec
      { c with router := c.router.reapClosed, polled := c.endpoint.emitted.length } :=
    ⟨(h.router h.table.reapClosed).endpoint c.endpoint _, c.router.reapClosed_allOpen⟩
  simp only [StreamCoordinator.pump]
  split
  · exact hreaped
  · exact hreaped.routeAll _ _

/-! ## Reconciling -/

/-- Bound elsewhere than the membership has the member. -/
def unfit (M : Membership) (bound : ConnId × MemberId × Peer) : Bool :=
  match M.slotOf bound.2.1 with
  | none => bound.2.2.isReplica
  | some newSlot => .replica newSlot ≠ bound.2.2

def unfits (M : Membership) (bounds : List (ConnId × MemberId × Peer)) : List ConnId :=
  (bounds.filter (unfit M)).map (·.1)

theorem foldl_reconcileConn (bounds : List (ConnId × MemberId × Peer))
    (c : StreamCoordinator S R) : bounds.foldl (reconcileConn io) c =
      { c with router := c.router.rejectAll io (unfits c.endpoint.membership bounds) } := by
  induction bounds generalizing c with
  | nil => rfl
  | cons bound bounds ih =>
    have hone : reconcileConn io c bound = if unfit c.endpoint.membership bound = true then
        c.closeConnById io bound.1 else c := by
      rw [unfit, reconcileConn]
      cases c.endpoint.membership.slotOf bound.2.1 with
      | none => rfl
      | some newSlot => simp
    rw [foldl_cons, hone, unfits, filter_cons]
    split_ifs with hunfit
    · rw [ih]
      rfl
    · exact ih c

/-- Every connection the reconciliation closes is open when it begins. -/
theorem mild_of_mem (h : (id, m, p) ∈ t.validatedMemberConns) : t.Mild id := by
  obtain ⟨e, he, hv, -, -⟩ := PeerRouter.mem_validatedMemberConns.mp h
  exact PeerRouter.mild_of_open he (Conn.isClosed_of_validated hv)

theorem Good.reconcile (h : Good codec c M) :
    Good codec (c.reconcileRouting io) c.endpoint.membership := by
  have hinstalled : c.installed ⊆ c.installed ++ [c.endpoint.membership] :=
    subset_append_left _ _
  have hroutes : ∀ p ∈ c.routes, p.Routed ∧
      (Membership.Distinct (c.installed ++ [c.endpoint.membership]) → p.Seated) :=
    fun p hp => ⟨(h.routes p hp).1, fun hd => (h.routes p hp).2 (hd.mono hinstalled)⟩
  have hknown : c.endpoint.membership ∈ c.installed ++ [c.endpoint.membership] :=
    mem_append_right _ mem_cons_self
  simp only [reconcileRouting]
  split_ifs with hid
  · refine ⟨h.table, h.few, fun hd => ?_, hid.symm, hknown, hroutes, h.delivered⟩
    have heq := hd M (hinstalled h.known) c.endpoint.membership hknown (h.last.symm.trans hid.symm)
    exact heq ▸ h.seated (hd.mono hinstalled)
  · rw [foldl_reconcileConn]
    dsimp only
    have hmild : ∀ k ∈ unfits c.endpoint.membership c.router.validatedMemberConns,
        c.router.Mild k := by
      intro k hk
      obtain ⟨bound, hbound, rfl⟩ := mem_map.mp hk
      exact mild_of_mem (mem_of_mem_filter hbound)
    have hkeeps := h.table.rejectAll io _ hmild
    refine ⟨hkeeps.table, (Finset.card_le_card hkeeps.guests).trans h.few,
      fun _ id e slot he hv hp => ?_, rfl, hknown, hroutes, h.delivered⟩
    obtain ⟨x, hx, hkept⟩ := hkeeps.kept he
    have hxv := hkept.conn.of_validated hv
    have hxp : x.peer = .replica slot := hkept.peer ▸ hp
    obtain ⟨m, hm, hatt⟩ := (h.table.entries hx).seat hxv slot hxp
    refine ⟨m, hkept.attestedMember.trans hm, hkept.conn.attested.trans hatt, ?_⟩
    -- had the membership put the member elsewhere, the connection would be closed
    by_contra hslot
    have hunfit : unfit c.endpoint.membership (id, m, .replica slot) = true := by
      rw [unfit]
      dsimp only
      cases hs : c.endpoint.membership.slotOf m with
      | none => rfl
      | some newSlot =>
        rw [hs] at hslot
        simp_all
    have hmem : id ∈ unfits c.endpoint.membership c.router.validatedMemberConns :=
      mem_map.mpr ⟨(id, m, .replica slot), mem_filter.mpr
        ⟨PeerRouter.mem_validatedMemberConns.mpr ⟨x, hx, hxv, hm, hxp⟩, hunfit⟩, rfl⟩
    have hclosed := PeerRouter.rejectAll_closed io _ h.table hmild hmem he
    rw [Conn.isClosed_of_validated hv] at hclosed
    cases hclosed

theorem reconcileRouting_endpoint (c : StreamCoordinator S R) :
    (c.reconcileRouting io).endpoint = c.endpoint := by
  simp only [reconcileRouting]
  split_ifs
  · rfl
  · rw [foldl_reconcileConn]

theorem Good.settle (h : Good codec c M) : Settled codec (c.settle io codec) := by
  have hrec : Good codec (c.reconcileRouting io) (c.reconcileRouting io).endpoint.membership := by
    rw [reconcileRouting_endpoint]
    exact h.reconcile
  exact hrec.pump

/-! ## Identities -/

/-- Making room in the quarantine closes none of the connections that still await an identity. -/
theorem evict_spec (h : Good codec c M) (he : c.router.conns.get? id = some e)
    (hw : PeerRouter.awaits io e = true) :
    ∃ t, c.evictQuarantinedIfFull io = { c with router := t } ∧ c.router.Keeps t ∧
      t.guests.card < quarantineConnLimit ∧ t.conns.get? id = some e := by
  have hlist : c.quarantined = c.router.guestList := PeerRouter.guestList_eq h.table
  rw [evictQuarantinedIfFull, hlist]
  split_ifs with hroom
  · exact ⟨c.router, rfl, .refl h.table, by rwa [PeerRouter.card_guests], he⟩
  · cases hmin : c.router.guestList.min? with
    | none =>
      rw [min?_eq_none_iff.mp hmin] at hroom
      exact absurd (by decide) hroom
    | some victim =>
      have hguest : victim ∈ c.router.guests := mem_toFinset.mpr (min?_mem hmin)
      obtain ⟨x, hx, hq⟩ := PeerRouter.mem_guests.mp hguest
      have hv := (PeerRouter.isQuarantined_iff.mp hq).1
      have hkeeps := h.table.reject io
        (PeerRouter.mild_of_open hx (Conn.isClosed_of_validated hv))
      refine ⟨_, rfl, hkeeps, ?_, ?_⟩
      · have hsub : (c.router.modifyConn victim (·.abort io .identityRejected)).guests ⊆
            c.router.guests.erase victim := by
          intro k hk
          refine Finset.mem_erase.mpr ⟨?_, hkeeps.guests hk⟩
          rintro rfl
          obtain ⟨y, hy, hyq⟩ := PeerRouter.mem_guests.mp hk
          rw [PeerRouter.get?_modifyConn, if_pos rfl] at hy
          obtain ⟨z, -, rfl⟩ := Option.map_eq_some_iff.mp hy
          cases (PeerRouter.isQuarantined_iff.mp hyq).1
        have hcard := Finset.card_le_card hsub
        rw [Finset.card_erase_of_mem hguest] at hcard
        have hpos : 0 < c.router.guests.card := Finset.card_pos.mpr ⟨victim, hguest⟩
        have hfew := h.few
        omega
      · rw [PeerRouter.get?_modifyConn, if_neg, he]
        rintro rfl
        obtain rfl := Option.some.inj (he.symm.trans hx)
        rw [Conn.isValidated, PeerRouter.awaits_handshaking io hw] at hv
        cases hv

theorem Good.notes (h : Good codec c M) {Q : Peer → Option MemberId → Prop}
    (hn : PeerRouter.Notes io c.router id Q t)
    (hvouched : ∀ e p member, c.router.conns.get? id = some e → Q p member →
      PeerRouter.Vouched io e p member)
    (hseat : ∀ e p member, c.router.conns.get? id = some e → Q p member → ∀ slot,
      p = .replica slot → ∃ m, member = some m ∧
        e.conn.handshakeIdentity io = some (.member m) ∧ M.slotOf m = some slot)
    (hfew : t.guests.card ≤ quarantineConnLimit) : Good codec { c with router := t } M :=
  ⟨hn.table io h.table hvouched, hfew, fun hd => hn.seated io h.table (h.seated hd) hseat, h.last,
    h.known, h.routes, h.delivered⟩

/-- A client's identity, or none. -/
theorem Good.noteEstablished (h : Good codec c M) (id : ConnId) :
    Good codec { c with router := c.router.noteEstablished io id } M := by
  have hn := PeerRouter.noteEstablished_notes io c.router id
  have hclient {p : Peer} (hp : ∃ c, p = .client c) : p.isMember = false := by
    obtain ⟨c, rfl⟩ := hp
    rfl
  refine h.notes hn (fun e p member he hQ => ?_) (fun e p member he hQ slot hp => ?_)
    ((Finset.card_le_card
      (hn.guests_of_not_member io h.table fun p member hQ => hclient hQ.1)).trans h.few)
  · obtain ⟨⟨client, rfl⟩, rfl⟩ := hQ
    exact .client client
  · obtain ⟨⟨client, rfl⟩, -⟩ := hQ
    cases hp

theorem Good.tryNote (h : Good codec c M) (hM : c.endpoint.membership = M) (id : ConnId) :
    Good codec (c.tryNoteEstablishedMember io id) M := by
  rw [tryNoteEstablishedMember]
  split
  · exact h
  · next e he =>
    split_ifs with hawait
    · exact h
    · have hw : PeerRouter.awaits io e = true := by simpa using hawait
      have hreject : Good codec (c.closeConnById io id) M :=
        h.router (h.table.reject io (PeerRouter.awaits_mild io he hw))
      have hthe {t : PeerRouter R} (ht : t.conns.get? id = some e) {x : PeerRouter.Entry R}
          (hx : t.conns.get? id = some x) : x = e := Option.some.inj (hx.symm.trans ht)
      split
      · next m hid =>
        split_ifs with hlocal
        · exact hreject
        · split
          · -- in quarantine, where there is now room
            next hslot =>
            obtain ⟨t, heq, hkeeps, hroom, het⟩ := evict_spec h he hw
            rw [heq]
            have hn := PeerRouter.noteEstablishedQuarantined_notes io t id m
            refine (h.router hkeeps).notes hn (fun x p member hx hQ => ?_)
              (fun x p member hx hQ slot hp => ?_) ?_
            · obtain ⟨rfl, rfl⟩ := hQ
              rw [hthe het hx]
              exact .guest m hid
            · obtain ⟨rfl, -⟩ := hQ
              cases hp
            · exact (Finset.card_le_card (hn.guests io hkeeps.table)).trans
                ((Finset.card_insert_le _ _).trans hroom)
          · next slot hslot =>
            have hn := PeerRouter.noteEstablishedMember_notes io c.router id m slot
            refine h.notes hn (fun x p member hx hQ => ?_) (fun x p member hx hQ slot' hp => ?_) ?_
            · obtain ⟨rfl, rfl⟩ := hQ
              rw [hthe he hx]
              exact .seat m slot hid
            · obtain ⟨rfl, rfl⟩ := hQ
              obtain rfl := Peer.replica.inj hp
              rw [hthe he hx]
              exact ⟨m, rfl, hid, hM ▸ hslot⟩
            · refine (Finset.card_le_card (hn.guests_of_not_member io h.table ?_)).trans h.few
              rintro p member ⟨rfl, -⟩
              rfl
      · exact h.noteEstablished id
      · exact hreject
      · exact hreject

/-! ## Deliveries -/

variable [StateMachine S]

theorem Good.hand (h : Good codec c M) (now : Instant) {d : Delivery R} (hd : d.Came codec) :
    Good codec (c.hand now d) M := by
  refine ⟨h.table, h.few, h.seated, h.last, h.known, h.routes, fun x hx => ?_⟩
  rcases mem_append.mp hx with hx | hx
  · exact h.delivered x hx
  · rw [mem_singleton.mp hx]
    exact hd

theorem Good.deliverInbound (h : Good codec c M) (now : Instant) {inbound : Peer × Message}
    (hcame : ∀ handed, Delivery.Came codec ⟨some e, handed, inbound.1, inbound.2⟩) :
    Good codec (c.deliverInbound id e now inbound) M := by
  have hhand := h.hand now (hcame (c.router.conns.get? id))
  simp only [StreamCoordinator.deliverInbound]
  split
  · split_ifs
    · exact h
    · exact hhand
  · exact hhand

theorem Good.deliverAll (decoded : List (Peer × Message)) (h : Good codec c M) (now : Instant)
    (hcame : ∀ inbound ∈ decoded, ∀ handed,
      Delivery.Came codec ⟨some e, handed, inbound.1, inbound.2⟩) :
    Good codec (decoded.foldl (StreamCoordinator.deliverInbound id e now) c) M := by
  induction decoded generalizing c with
  | nil => exact h
  | cons inbound decoded ih =>
    exact ih (h.deliverInbound now (hcame inbound mem_cons_self))
      fun x hx => hcame x (mem_cons_of_mem _ hx)

theorem Good.deliverDecoded (h : Good codec c M) (id : ConnId) (now : Instant) :
    Good codec (c.deliverDecoded codec id now) M := by
  simp only [StreamCoordinator.deliverDecoded]
  split
  · exact h
  · next e he =>
    have hkeeps : c.router.Keeps
        (c.router.modifyConn id fun _ => (e.conn.pollDecoded codec).2.2) := by
      refine h.table.modifyConn fun x hx => ?_
      obtain rfl := Option.some.inj (hx.symm.trans he)
      exact Conn.pollDecoded_goes codec _
    refine (h.router hkeeps).deliverAll _ now fun inbound hin handed => ?_
    have hin : (inbound.1, inbound.2) ∈ (e.conn.pollDecoded codec).1 := hin
    obtain ⟨hv, hbound, hframe⟩ := Conn.mem_pollDecoded hin
    rw [(h.table.entries he).bound hv] at hbound
    exact ⟨hv, (Option.some.inj hbound).symm, hframe⟩

/-! ## Calls -/

/-- Between two calls: what may be closed already is closed for a rejected identity. -/
structure Idle (codec : WireCodec) (c : StreamCoordinator S R) : Prop where
  good : Good codec c c.endpoint.membership
  mild : ∀ k, c.router.Mild k

omit [StateMachine S] in
theorem Settled.idle (h : Settled codec c) : Idle codec c :=
  ⟨h.good, fun k e he hc => by
    rw [h.allOpen k e he] at hc
    cases hc⟩

theorem Idle.handleChunk (h : Idle codec c) (he : c.router.conns.get? id = some e) {conn : Conn R}
    (hconn : e.conn.Goes conn) (peerFinished : Bool) (now : Instant) :
    Settled codec (c.handleChunk io codec id conn peerFinished now) := by
  have hkeeps : c.router.Keeps (c.router.modifyConn id fun _ => conn) := by
    refine h.good.table.modifyConn fun x hx => ?_
    rw [Option.some.inj (hx.symm.trans he)]
    exact hconn
  have hnoted : Good codec (tryNoteEstablishedMember io
      { c with router := c.router.modifyConn id fun _ => conn } id) c.endpoint.membership :=
    (h.good.router hkeeps).tryNote rfl id
  have hdelivered := hnoted.deliverDecoded id now
  simp only [StreamCoordinator.handleChunk]
  split_ifs
  · exact (hdelivered.router (hdelivered.table.modifyConn fun x _ => x.conn.finalize_goes)).settle
  · exact hdelivered.settle

theorem Idle.dataLoop (intakeFuel : Nat) (id : ConnId) (eof : Bool) (now : Instant) (fuel : Nat)
    (h : Idle codec c) (rest : Bytes) :
    Idle codec (c.dataLoop io codec intakeFuel id eof now fuel rest) := by
  induction fuel generalizing c rest with
  | zero => exact h
  | succ fuel ih =>
    simp only [StreamCoordinator.dataLoop]
    split
    · exact h
    · next e he =>
      split
      · exact h.good.pump.idle
      · split
        · exact h
        · next result conn hdata =>
          have hchunk (peerFinished : Bool) :
              Settled codec (c.handleChunk io codec id conn peerFinished now) :=
            h.handleChunk he (Conn.handleData_goes io hdata) peerFinished now
          split
          · exact (hchunk _).good.pump.idle
          · exact ih (hchunk _).idle _

theorem Idle.submitClientRequest (h : Idle codec c) (now : Instant) (request : Request) :
    Idle codec (c.submitClientRequest io codec now request) := by
  simp only [StreamCoordinator.submitClientRequest]
  split_ifs
  · exact h
  · split
    · exact h
    · next selfId _ =>
      have hcame : Delivery.Came (R := R) codec
          ⟨none, none, .client request.client, .request request⟩ := ⟨request, rfl, rfl⟩
      have hhand := h.good.hand now hcame
      -- the endpoint's membership is the one the routing was reconciled with
      have hsame := Node.membership_handleMessage_request c.endpoint now (.client request.client)
        request
      have hroute := hhand.router
        (hhand.table.route io codec .backups (.request request) selfId)
      rw [← hsame] at hroute
      exact hroute.pump.idle

omit [StateMachine S] in
theorem Idle.register (h : Idle codec c) (peer : Peer) (r : R) (dialed : Bool) :
    Idle codec { c with router := (c.router.register io peer (.fromParts r) dialed).2 } := by
  have harrive : Good codec { c with router := c.router.arrive peer r dialed }
      c.endpoint.membership :=
    ⟨h.good.table.arrive peer r dialed,
      (Finset.card_le_card (PeerRouter.guests_arrive _ peer r dialed)).trans h.good.few,
      fun hd => (h.good.seated hd).arrive peer r dialed, h.good.last, h.good.known, h.good.routes,
      h.good.delivered⟩
  exact ⟨harrive.noteEstablished c.router.next,
    (PeerRouter.noteEstablished_notes io _ c.router.next).mild io
      fun k => (h.mild k).arrive peer r dialed⟩

omit [StateMachine S] in
theorem Idle.reconcileRouting (h : Idle codec c) : Idle codec (c.reconcileRouting io) := by
  refine ⟨?_, fun k => ?_⟩
  · rw [reconcileRouting_endpoint]
    exact h.good.reconcile
  · simp only [StreamCoordinator.reconcileRouting]
    split_ifs
    · exact h.mild k
    · rw [foldl_reconcileConn]
      exact (h.mild k).rejectAll io _

theorem Idle.step (h : Idle codec c) (call : Call S R) : Idle codec (c.step io codec call) := by
  cases call with
  | registerDialed peer r => exact h.register peer r true
  | registerAccepted peer r => exact h.register peer r false
  | handleConnData id bytes eof now intakeFuel => exact h.dataLoop intakeFuel id eof now _ bytes
  | handleTimeout | handleStorage => exact (h.good.endpoint _ _).settle.idle
  | submitClientRequest now request => exact h.submitClientRequest now request
  | proposeMembership now delta accept =>
    refine ⟨?_, h.mild⟩
    show Good codec _ (c.endpoint.proposeMembership now delta accept).1.membership
    rw [Node.membership_proposeMembership]
    exact h.good.endpoint _ _
  | solicitHealthProofs now lifetime =>
    refine ⟨?_, h.mild⟩
    show Good codec _ (c.endpoint.solicitHealthProofs now lifetime).membership
    rw [Node.membership_solicitHealthProofs]
    exact h.good.endpoint _ _
  | reconcileRouting => exact h.reconcileRouting
  | closeConnById id =>
    exact ⟨h.good.router (h.good.table.reject io (h.mild id)), fun k => (h.mild k).reject io id⟩
  | pollConnTransmit =>
    exact ⟨h.good.router (h.good.table.pollTransmit io),
      fun k => (h.mild k).transmitFrom io _⟩
  | pollConnClosed =>
    refine ⟨h.good.router h.good.table.pollClosed, fun k => ?_⟩
    show c.router.pollClosed.2.Mild k
    rw [PeerRouter.pollClosed]
    split <;> exact h.mild k

theorem Idle.run (calls : List (Call S R)) (h : Idle codec c) :
    Idle codec (c.run io codec calls) := by
  induction calls generalizing c with
  | nil => exact h
  | cons call calls ih => exact ih (h.step call)

omit [StateMachine S] in
theorem idle_new (endpoint : Node S) (polled cap : Nat) :
    Idle codec (withOutboundCap endpoint polled cap : StreamCoordinator S R) :=
  ⟨.new endpoint polled cap, fun _ _ he => nomatch he⟩

/-! ## The results -/

variable (io codec) in
/-- Whatever calls a coordinator takes. Where `pump` routes a message, each key leads to a
    validated connection bound to it and every such key is mapped, and, as long as the
    configuration ids tell the installed memberships apart, a connection bound to a slot was
    attested by the member that has it. A removed connection is reported once, with the cause
    it was first closed for. The quarantine is bounded. What the endpoint is handed was decoded
    from a validated connection, in the name of the identity bound to it, or is the node's own
    request. -/
theorem routing_of_calls (endpoint : Node S) (polled cap : Nat) (calls : List (Call S R)) :
    let c := run io codec (withOutboundCap endpoint polled cap) calls;
    (∀ p ∈ c.routes, p.Routed) ∧
    (Membership.Distinct c.installed → ∀ p ∈ c.routes, p.Seated) ∧
    (∀ id, id < c.router.next → c.router.conns.get? id = none →
      ∃ conn cause, (id, conn) ∈ c.router.removed ∧ conn.firstCause = some cause ∧
        ((c.router.reported ++ c.router.closed).filter fun r => r.1 = id) = [(id, cause)]) ∧
    (∀ r ∈ c.router.reported ++ c.router.closed,
      r.1 < c.router.next ∧ c.router.conns.get? r.1 = none) ∧
    c.router.conns.values.countP PeerRouter.Entry.isQuarantined ≤ quarantineConnLimit ∧
    ∀ d ∈ c.delivered, d.Came codec := by
  intro c
  have hgood : Good codec c c.endpoint.membership :=
    ((idle_new endpoint polled cap).run calls).good
  refine ⟨fun p hp => (hgood.routes p hp).1, fun hd p hp => (hgood.routes p hp).2 hd,
    fun id hnext hnone => hgood.table.reported_once hnext hnone,
    fun r hr => hgood.table.reported_gone hr, ?_, hgood.delivered⟩
  have hfew := hgood.few
  rwa [PeerRouter.card_guests, PeerRouter.guestList_length] at hfew

/-! ## Exceptions -/

/-- A codec under which the frame of a zero byte is a request, and every other frame malformed. -/
def zeroCodec : WireCodec where
  encode _ := []
  decode frame := if frame = [0] then .message (.request ⟨3, 1, [9]⟩) else .malformed
  wireSizeBound _ := 0

/-- The leader of the group of three voters and a learner, with no connection yet. -/
def host : StreamCoordinator Tally Passthrough := new Node.leaderStart 0

/-- A record layer on which every peer is member 8. -/
def eighthIo : RecordIo Passthrough :=
  { Passthrough.io with peerIdentity := fun _ => some (.member 8) }

/-- The members of two slots change places, and the configuration id does not tell. -/
def swappedTrio : Membership :=
  (Membership.fromDurableParts 1 3 1 [7, 9, 8, 10] trioMembership.configId).toOption.get
    (by decide +kernel)

/-- Member 8 is connected, the root of that configuration lands, and a heartbeat is routed. -/
def swappedHost : StreamCoordinator Tally Passthrough :=
  run eighthIo zeroCodec (new (Node.leaderPrepared.submitSwapEpoch 1 swappedTrio) 1)
    [.registerAccepted (.member 8) {}, .handleConnData 0 [] false 0 1, .handleStorage [.rootDone 0],
     .handleTimeout 1000]

/-- A request of the node's own application reaches the endpoint over no connection at all, and
    what a client sent before a malformed frame reaches it after that frame closed the
    connection. A membership that shares its id with the one before is not reconciled with, and
    a connection stays bound to the slot its member has lost. -/
theorem routing_exceptions :
    (let c := run Passthrough.io zeroCodec host [.submitClientRequest 0 ⟨3, 1, [9]⟩];
      c.router.next = 0 ∧
      ∃ d ∈ c.delivered, d.handedFrom.isNone = true ∧ d.sender = .client 3) ∧
    (let c := run Passthrough.io zeroCodec host [.registerAccepted (.client 3) {},
        .handleConnData 0 (encodeFrame [0] ++ encodeFrame [1]) false 0 4];
      ∃ d ∈ c.delivered, d.sender = .client 3 ∧
        d.handedFrom.any (fun e => e.conn.closeCause = some .badFrame) = true) ∧
    ∃ p ∈ swappedHost.routes, ¬ p.Seated := by
  refine ⟨by decide +kernel, by decide +kernel, ?_⟩
  have hbound : ∃ p ∈ swappedHost.routes, p.membership.slotOf 8 = some 2 ∧
      ∃ e ∈ p.router.conns.get? 0, e.conn.isValidated = true ∧ e.peer = .replica 1 ∧
        e.conn.attested = some (.member 8) := by decide +kernel
  obtain ⟨p, hp, hslot, e, he, hvalid, hpeer, hattested⟩ := hbound
  refine ⟨p, hp, fun hseated => ?_⟩
  obtain ⟨m, hm, hslot'⟩ := hseated 0 e 1 he hvalid hpeer
  cases hattested.symm.trans hm
  cases hslot.symm.trans hslot'

-- A connection that attests member 8 is bound to its slot, and a prepare is routed over it.
example : let c := run eighthIo zeroCodec host [.registerAccepted (.member 8) {},
      .handleConnData 0 [] false 0 1, .submitClientRequest 0 ⟨3, 1, [9]⟩];
    c.routes.map (fun p => p.router.peers.get? (.replica 1)) = [some 0] := by
  decide +kernel

end StreamCoordinator

end Viewstamp
