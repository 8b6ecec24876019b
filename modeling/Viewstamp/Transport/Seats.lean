import Mathlib.Data.Finset.Card
import Viewstamp.Transport.Router

/- Who holds a place in the table of connections.

   A connection bound to a slot holds the seat of a member, one bound under a member's own
   key is a guest in quarantine. Each operation of the router says what it does to the two:
   closing only takes places away, binding an identity gives one, registering gives none.
   Rejecting is the one close that may meet a connection closed before, and then it must
   have been a rejection too, or the cause first recorded would be lost. -/
namespace Viewstamp

open List

/-- Where a key occurs once, filtering for it leaves its pair. -/
theorem filter_fst_eq {K V : Type} [DecidableEq K] {xs : List (K × V)} {x : K × V}
    (h : (xs.map Prod.fst).Nodup) (hx : x ∈ xs) : (xs.filter fun y => y.1 = x.1) = [x] := by
  induction xs with
  | nil => cases hx
  | cons y ys ih =>
    rw [map_cons, nodup_cons] at h
    rw [filter_cons]
    rcases mem_cons.mp hx with rfl | hmem
    · have hnone : (ys.filter fun y => y.1 = x.1) = [] := by
        refine filter_eq_nil_iff.mpr fun z hz hzx => h.1 ?_
        exact mem_map.mpr ⟨z, hz, of_decide_eq_true hzx⟩
      simp [hnone]
    · have hne : y.1 ≠ x.1 := by
        intro heq
        exact h.1 (mem_map.mpr ⟨x, hmem, heq.symm⟩)
      simp [hne, ih h.2 hmem]

namespace PeerRouter

variable {R : Type} {t t' : PeerRouter R} {id k : ConnId} {e : Entry R} {M : Membership}

/-! ## Seats and quarantine -/

def Entry.isQuarantined (e : Entry R) : Bool := e.conn.isValidated && e.peer.isMember

/-- Every connection bound to a slot was attested by the member that has it. -/
def Seated (t : PeerRouter R) (M : Membership) : Prop :=
  ∀ id e slot, t.conns.get? id = some e → e.conn.isValidated = true → e.peer = .replica slot →
    ∃ m, e.attestedMember = some m ∧ e.conn.attested = some (.member m) ∧ M.slotOf m = some slot

/-- The validated connections in quarantine. -/
def guestList (t : PeerRouter R) : List ConnId :=
  (t.conns.entries.filter fun x => x.2.isQuarantined).map Prod.fst

def guests (t : PeerRouter R) : Finset ConnId := t.guestList.toFinset

theorem mem_guests : id ∈ t.guests ↔ ∃ e, t.conns.get? id = some e ∧ e.isQuarantined = true := by
  simp [guests, guestList, OrdMap.mem_entries]

theorem guestList_nodup (t : PeerRouter R) : t.guestList.Nodup := by
  have hsorted : (t.conns.entries.map Prod.fst).Pairwise (· < ·) :=
    pairwise_map.mpr t.conns.sorted
  have hsub : Sublist t.guestList (t.conns.entries.map Prod.fst) :=
    filter_sublist.map Prod.fst
  exact ((hsorted.sublist hsub).imp fun h => ne_of_lt h)

theorem card_guests (t : PeerRouter R) : t.guests.card = t.guestList.length :=
  toFinset_card_of_nodup t.guestList_nodup

theorem guestList_length (t : PeerRouter R) :
    t.guestList.length = t.conns.values.countP Entry.isQuarantined := by
  rw [guestList, length_map, OrdMap.values, countP_map, countP_eq_length_filter]
  rfl

theorem isQuarantined_iff :
    e.isQuarantined = true ↔ e.conn.isValidated = true ∧ ∃ m, e.peer = .member m := by
  rw [Entry.isQuarantined, Bool.and_eq_true]
  refine and_congr_right fun _ => ?_
  cases e.peer <;> simp [Peer.isMember]

theorem Keeps.seated (h : Keeps t t') (hs : t.Seated M) : t'.Seated M := by
  intro id e' slot he' hv hp
  obtain ⟨e, he, hkept⟩ := h.kept he'
  rw [hkept.attestedMember, hkept.conn.attested]
  exact hs id e slot he (hkept.conn.of_validated hv) (hkept.peer ▸ hp)

theorem Keeps.guests (h : Keeps t t') : t'.guests ⊆ t.guests := by
  intro id hid
  obtain ⟨e', he', hq⟩ := mem_guests.mp hid
  obtain ⟨e, he, hkept⟩ := h.kept he'
  obtain ⟨hv, m, hm⟩ := isQuarantined_iff.mp hq
  exact mem_guests.mpr
    ⟨e, he, isQuarantined_iff.mpr ⟨hkept.conn.of_validated hv, m, hkept.peer ▸ hm⟩⟩

theorem mem_validatedMemberConns {m : MemberId} {p : Peer} :
    (id, m, p) ∈ t.validatedMemberConns ↔ ∃ e, t.conns.get? id = some e ∧
      e.conn.isValidated = true ∧ e.attestedMember = some m ∧ e.peer = p := by
  rw [validatedMemberConns, mem_filterMap]
  constructor
  · rintro ⟨⟨k, e⟩, hmem, hx⟩
    dsimp only at hx
    split_ifs at hx with hv
    obtain ⟨m', hm, heq⟩ := Option.map_eq_some_iff.mp hx
    obtain ⟨rfl, rfl, rfl⟩ : k = id ∧ m' = m ∧ e.peer = p := by simpa using heq
    exact ⟨e, OrdMap.mem_entries.mp hmem, hv, hm, rfl⟩
  · rintro ⟨e, he, hv, hm, rfl⟩
    exact ⟨(id, e), OrdMap.mem_entries.mpr he, by simp [hv, hm]⟩

/-- The members' connections of the quarantine, as the coordinator lists them. -/
theorem guestList_eq (h : t.Table) :
    (t.validatedMemberConns.filter fun x => x.2.2.isMember).map (·.1) = t.guestList := by
  rw [validatedMemberConns, guestList, filter_filterMap, map_filterMap,
    ← filterMap_eq_map, filterMap_filter]
  apply filterMap_congr
  intro x hx
  have hsound : x.2.Sound := h.entries (OrdMap.mem_entries.mp hx)
  cases hv : x.2.conn.isValidated with
  | false => simp [hv, Entry.isQuarantined]
  | true =>
    cases hp : x.2.peer with
    | member m => simp [hv, hp, (hsound.guest hv m hp).1, Entry.isQuarantined, Peer.isMember]
    | replica | client => cases hm : x.2.attestedMember <;>
        simp [hv, hp, hm, Entry.isQuarantined, Peer.isMember]

theorem table_empty (cap : Nat) : (withOutboundCap cap : PeerRouter R).Table := by
  have hconns (id : ConnId) : (withOutboundCap cap : PeerRouter R).conns.get? id = none := rfl
  have hpeers (p : Peer) : (withOutboundCap cap : PeerRouter R).peers.get? p = none := rfl
  refine ⟨fun he => ?_, fun he => ?_, fun hp => ?_, fun he => ?_, rfl, nodup_nil, fun id => ?_⟩
  · cases (hconns _).symm.trans he
  · cases (hconns _).symm.trans he
  · cases (hpeers _).symm.trans hp
  · cases (hconns _).symm.trans he
  · constructor
    · intro h
      cases h
    · intro h
      exact absurd h.1 (Nat.not_lt_zero id)

/-! ## Reports -/

/-- What is reported of a connection that is gone is its removal, once. -/
theorem Table.reported_once (h : t.Table) (hnext : id < t.next) (hnone : t.conns.get? id = none) :
    ∃ conn cause, (id, conn) ∈ t.removed ∧ conn.firstCause = some cause ∧
      ((t.reported ++ t.closed).filter fun r => r.1 = id) = [(id, cause)] := by
  have hkeys : t.removed.map Prod.fst = (t.reported ++ t.closed).map Prod.fst := by
    have hmap := congrArg (map Prod.fst) h.queued
    simpa only [map_map, Function.comp_def] using hmap
  obtain ⟨⟨k, conn⟩, hmem, rfl⟩ := mem_map.mp ((h.gone id).mpr ⟨hnext, hnone⟩)
  have hreport : (k, conn.firstCause) ∈ (t.reported ++ t.closed).map fun r => (r.1, some r.2) := by
    rw [← h.queued]
    exact mem_map.mpr ⟨(k, conn), hmem, rfl⟩
  obtain ⟨⟨j, cause⟩, hr, heq⟩ := mem_map.mp hreport
  obtain ⟨rfl, hcause⟩ := Prod.mk.inj heq
  refine ⟨conn, cause, hmem, hcause.symm, ?_⟩
  have honce := h.once
  rw [hkeys] at honce
  exact filter_fst_eq honce hr

theorem Table.reported_gone (h : t.Table) {r : ConnId × CloseCause}
    (hr : r ∈ t.reported ++ t.closed) : r.1 < t.next ∧ t.conns.get? r.1 = none := by
  apply (h.gone r.1).mp
  have hreport : (r.1, some r.2) ∈ t.removed.map fun r => (r.1, r.2.firstCause) := by
    rw [h.queued]
    exact mem_map.mpr ⟨r, hr, rfl⟩
  obtain ⟨x, hx, heq⟩ := mem_map.mp hreport
  exact mem_map.mpr ⟨x, hx, congrArg Prod.fst heq⟩

/-! ## Closing -/

variable (io : RecordIo R)

/-- Closed, if at all, for a rejected identity. -/
def Mild (t : PeerRouter R) (id : ConnId) : Prop :=
  ∀ e, t.conns.get? id = some e → e.conn.isClosed = true → e.conn.state = .closed .identityRejected

theorem mild_of_open (he : t.conns.get? id = some e) (h : e.conn.isClosed = false) : t.Mild id := by
  intro x hx hc
  rw [he] at hx
  obtain rfl := Option.some.inj hx
  rw [h] at hc
  cases hc

/-- Closing for a rejected identity, also when that was done before. -/
theorem Table.reject (h : t.Table) (hm : t.Mild id) :
    Keeps t (t.modifyConn id (·.abort io .identityRejected)) := by
  refine h.modifyConn fun e he => ?_
  cases hc : e.conn.isClosed with
  | false => exact Conn.abort_goes io hc _
  | true =>
    have hstate := hm e he hc
    have hfirst : e.conn.firstCause = some .identityRejected := by
      rw [(h.entries he).first, Conn.closeCause, hstate]
    refine .of_eq rfl rfl hstate.symm ?_
    show (e.conn.firstCause <|> some CloseCause.identityRejected) = e.conn.firstCause
    rw [hfirst]
    rfl

theorem Mild.reject (hm : t.Mild k) (id : ConnId) :
    (t.modifyConn id (·.abort io .identityRejected)).Mild k := by
  intro e he hc
  rw [get?_modifyConn] at he
  split_ifs at he
  · obtain ⟨x, -, rfl⟩ := Option.map_eq_some_iff.mp he
    rfl
  · exact hm e he hc

/-- Close a list of connections. -/
def rejectAll (t : PeerRouter R) (ids : List ConnId) : PeerRouter R :=
  ids.foldl (fun t id => t.modifyConn id (·.abort io .identityRejected)) t

theorem Table.rejectAll (ids : List ConnId) (h : t.Table) (hm : ∀ id ∈ ids, t.Mild id) :
    Keeps t (t.rejectAll io ids) := by
  induction ids generalizing t with
  | nil => exact .refl h
  | cons id ids ih =>
    have hfirst := h.reject io (hm id mem_cons_self)
    exact hfirst.trans (ih hfirst.table fun k hk =>
      (hm k (mem_cons_of_mem _ hk)).reject io id)

theorem Mild.rejectAll (ids : List ConnId) (hm : t.Mild k) : (t.rejectAll io ids).Mild k := by
  induction ids generalizing t with
  | nil => exact hm
  | cons id ids ih => exact ih (hm.reject io id)

theorem rejectAll_closed (ids : List ConnId) (h : t.Table) (hm : ∀ id ∈ ids, t.Mild id)
    (hk : k ∈ ids) (he : (t.rejectAll io ids).conns.get? k = some e) : e.conn.isClosed = true := by
  induction ids generalizing t with
  | nil => cases hk
  | cons id ids ih =>
    have hfirst := h.reject io (hm id mem_cons_self)
    have hrest : ∀ j ∈ ids, (t.modifyConn id (·.abort io .identityRejected)).Mild j :=
      fun j hj => (hm j (mem_cons_of_mem _ hj)).reject io id
    rcases mem_cons.mp hk with rfl | hk
    · -- it was closed here, and a closed connection stays closed
      obtain ⟨x, hx, hkept⟩ := (hfirst.table.rejectAll io ids hrest).kept he
      rw [get?_modifyConn, if_pos rfl] at hx
      obtain ⟨y, -, rfl⟩ := Option.map_eq_some_iff.mp hx
      rw [Conn.isClosed_congr (hkept.conn.of_closed rfl)]
      rfl
    · exact ih hfirst.table hrest hk he

/-- Draining what is queued closes nothing. -/
theorem Mild.transmitFrom (ids : List ConnId) (hm : t.Mild k) :
    (t.transmitFrom io ids).2.Mild k := by
  induction ids generalizing t with
  | nil => exact hm
  | cons id ids ih =>
    simp only [PeerRouter.transmitFrom]
    split
    · exact ih hm
    · next e he =>
      split
      · exact ih hm
      · next hopen =>
        have hpoll : (t.modifyConn id fun _ => (e.conn.pollTransmit io).2).Mild k := by
          intro x hx hc
          rw [get?_modifyConn] at hx
          split_ifs at hx with hk
          · rw [hk, he] at hx
            obtain rfl := Option.some.inj hx
            refine absurd ?_ hopen
            rw [← Conn.pollTransmit_isClosed io]
            exact hc
          · exact hm x hx hc
        split
        · exact ih hpoll
        · exact hpoll

/-! ## Binding -/

/-- What noting an identity comes to: nothing, a rejection, or a binding as `Q` says. -/
inductive Notes (t : PeerRouter R) (id : ConnId) (Q : Peer → Option MemberId → Prop) :
    PeerRouter R → Prop where
  | same : Notes t id Q t
  | reject {e : Entry R} (he : t.conns.get? id = some e) (hw : awaits io e = true) :
    Notes t id Q (t.modifyConn id (·.abort io .identityRejected))
  | bind {e : Entry R} {p : Peer} {member : Option MemberId} (he : t.conns.get? id = some e)
    (hw : awaits io e = true) (hQ : Q p member) : Notes t id Q (t.bindPeer io id p member)

variable {Q : Peer → Option MemberId → Prop}

theorem noteIdentity_notes (he : t.conns.get? id = some e) (hw : awaits io e = true) (p : Peer) :
    Notes io t id (fun p member => (∃ c, p = .client c) ∧ member = none)
      (t.noteIdentity io id p) := by
  cases p with
  | client c => exact .bind he hw ⟨⟨c, rfl⟩, rfl⟩
  | replica | member => exact .same

theorem noteEstablished_notes (t : PeerRouter R) (id : ConnId) :
    Notes io t id (fun p member => (∃ c, p = .client c) ∧ member = none)
      (t.noteEstablished io id) := by
  rw [noteEstablished]
  split
  · exact .same
  · next e he =>
    split_ifs with hw
    · exact .same
    · have hw : awaits io e = true := by simpa using hw
      split
      · split_ifs
        · exact .reject he hw
        · exact noteIdentity_notes io he hw _
      · exact noteIdentity_notes io he hw _
      · exact noteIdentity_notes io he hw _

theorem noteEstablishedMember_notes (t : PeerRouter R) (id : ConnId) (m : MemberId)
    (slot : ReplicaId) : Notes io t id (fun p member => p = .replica slot ∧ member = some m)
      (t.noteEstablishedMember io id m slot) := by
  simp only [noteEstablishedMember]
  split
  · exact .same
  · next e he =>
    split_ifs with hw hdialed
    · exact .same
    · exact .reject he (by simpa using hw)
    · exact .bind he (by simpa using hw) ⟨rfl, rfl⟩

theorem noteEstablishedQuarantined_notes (t : PeerRouter R) (id : ConnId) (m : MemberId) :
    Notes io t id (fun p member => p = .member m ∧ member = some m)
      (t.noteEstablishedQuarantined io id m) := by
  rw [noteEstablishedQuarantined]
  split
  · exact .same
  · next e he =>
    split_ifs with hw hdialed
    · exact .same
    · exact .reject he (by simpa using hw)
    · exact .bind he (by simpa using hw) ⟨rfl, rfl⟩

theorem awaits_open (hw : awaits io e = true) : e.conn.isClosed = false := by
  rw [Conn.isClosed, Conn.closeCause, awaits_handshaking io hw]
  rfl

theorem awaits_mild (he : t.conns.get? id = some e) (hw : awaits io e = true) : t.Mild id :=
  mild_of_open he (awaits_open io hw)

namespace Notes

theorem table (h : Notes io t id Q t') (ht : t.Table)
    (hQ : ∀ e p member, t.conns.get? id = some e → Q p member → Vouched io e p member) :
    t'.Table := by
  cases h with
  | same => exact ht
  | reject he hw => exact (ht.reject io (awaits_mild io he hw)).table
  | bind he hw hq => exact ht.bindPeer io he hw (hQ _ _ _ he hq)

theorem seated (h : Notes io t id Q t') (ht : t.Table) (hs : t.Seated M)
    (hQ : ∀ e p member, t.conns.get? id = some e → Q p member → ∀ slot, p = .replica slot →
      ∃ m, member = some m ∧ e.conn.handshakeIdentity io = some (.member m) ∧
        M.slotOf m = some slot) : t'.Seated M := by
  cases h with
  | same => exact hs
  | reject he hw => exact (ht.reject io (awaits_mild io he hw)).seated hs
  | bind he hw hq =>
    intro k x slot hx hv hp
    rw [get?_bindPeer] at hx
    split_ifs at hx with hk
    · rw [hk, he] at hx
      obtain rfl := Option.some.inj hx
      obtain ⟨m, rfl, hid, hslot⟩ := hQ _ _ _ he hq slot hp
      refine ⟨m, rfl, ?_, hslot⟩
      show (Conn.markValidated io _ _).attested = _
      rw [Conn.markValidated, if_pos (awaits_handshaking io hw)]
      exact hid
    · exact hs k x slot hx hv hp

/-- At most the connection itself enters the quarantine. -/
theorem guests (h : Notes io t id Q t') (ht : t.Table) : t'.guests ⊆ insert id t.guests := by
  cases h with
  | same => exact Finset.subset_insert _ _
  | reject he hw =>
    exact (ht.reject io (awaits_mild io he hw)).guests.trans (Finset.subset_insert _ _)
  | bind he hw hq =>
    intro k hk
    obtain ⟨x, hx, hquar⟩ := mem_guests.mp hk
    rw [get?_bindPeer] at hx
    split_ifs at hx with hkid
    · exact Finset.mem_insert.mpr (.inl hkid)
    · exact Finset.mem_insert_of_mem (mem_guests.mpr ⟨x, hx, hquar⟩)

/-- Nothing enters the quarantine under another key than a member's. -/
theorem guests_of_not_member (h : Notes io t id Q t') (ht : t.Table)
    (hQ : ∀ p member, Q p member → p.isMember = false) : t'.guests ⊆ t.guests := by
  cases h with
  | same => exact Finset.Subset.refl _
  | reject he hw => exact (ht.reject io (awaits_mild io he hw)).guests
  | @bind e p member he hw hq =>
    intro k hk
    obtain ⟨x, hx, hquar⟩ := mem_guests.mp hk
    rw [get?_bindPeer] at hx
    split_ifs at hx with hkid
    · rw [hkid, he] at hx
      obtain rfl := Option.some.inj hx
      obtain ⟨-, m, hm⟩ := isQuarantined_iff.mp hquar
      have hp : p = .member m := hm
      have hno := hQ p member hq
      rw [hp] at hno
      cases hno
    · exact mem_guests.mpr ⟨x, hx, hquar⟩

theorem mild (h : Notes io t id Q t') (hm : ∀ k, t.Mild k) (k : ConnId) : t'.Mild k := by
  cases h with
  | same => exact hm k
  | reject he hw => exact (hm k).reject io id
  | bind he hw hq =>
    intro x hx hc
    rw [get?_bindPeer] at hx
    split_ifs at hx with hkid
    · rw [hkid, he] at hx
      obtain rfl := Option.some.inj hx
      rw [Conn.isClosed_of_validated (boundEntry_validated io hw _ _)] at hc
      cases hc
    · exact hm k x hx hc

end Notes

/-! ## Registering -/

/-- The table with a connection that has just come in. -/
def arrive (t : PeerRouter R) (peer : Peer) (r : R) (dialed : Bool) : PeerRouter R :=
  { t with
    next := t.next + 1
    conns := t.conns.insert t.next { conn := .fromParts r, peer, dialed } }

theorem get?_arrive (t : PeerRouter R) (peer : Peer) (r : R) (dialed : Bool) (k : ConnId) :
    (t.arrive peer r dialed).conns.get? k =
      if k = t.next then some { conn := .fromParts r, peer, dialed } else t.conns.get? k :=
  OrdMap.get?_insert _ _ _ _

theorem Table.arrive (h : t.Table) (peer : Peer) (r : R) (dialed : Bool) :
    (t.arrive peer r dialed).Table := by
  have hnew : t.conns.get? t.next = none := by
    rw [Option.eq_none_iff_forall_ne_some]
    intro e he
    exact lt_irrefl _ (h.fresh he)
  refine ⟨fun {k x} hx => ?_, fun {k x} hx => ?_, fun {q k} hq => ?_, fun {k x} hx hv => ?_,
    h.queued, h.once, fun k => ?_⟩
  · rw [get?_arrive] at hx
    split_ifs at hx with hk
    · obtain rfl := Option.some.inj hx
      exact ⟨rfl, nofun, nofun, nofun⟩
    · exact h.entries hx
  · rw [get?_arrive] at hx
    split_ifs at hx with hk
    · rw [hk]
      exact Nat.lt_succ_self _
    · exact Nat.lt_succ_of_lt (h.fresh hx)
  · obtain ⟨x, hx, hpeer, hstate⟩ := h.mapped hq
    refine ⟨x, ?_, hpeer, hstate⟩
    rw [get?_arrive, if_neg (ne_of_lt (h.fresh hx)), hx]
  · rw [get?_arrive] at hx
    split_ifs at hx with hk
    · obtain rfl := Option.some.inj hx
      cases hv
    · exact h.covered hx hv
  · show k ∈ t.removed.map Prod.fst ↔ k < t.next + 1 ∧ _
    rw [h.gone k, get?_arrive]
    by_cases hk : k = t.next
    · simp [hk]
    · rw [if_neg hk, Nat.lt_succ_iff_lt_or_eq]
      simp [hk]

theorem Seated.arrive (hs : t.Seated M) (peer : Peer) (r : R) (dialed : Bool) :
    (t.arrive peer r dialed).Seated M := by
  intro k x slot hx hv hp
  rw [get?_arrive] at hx
  split_ifs at hx with hk
  · obtain rfl := Option.some.inj hx
    cases hv
  · exact hs k x slot hx hv hp

theorem guests_arrive (t : PeerRouter R) (peer : Peer) (r : R) (dialed : Bool) :
    (t.arrive peer r dialed).guests ⊆ t.guests := by
  intro k hk
  obtain ⟨x, hx, hq⟩ := mem_guests.mp hk
  rw [get?_arrive] at hx
  split_ifs at hx with hkn
  · obtain rfl := Option.some.inj hx
    cases hq
  · exact mem_guests.mpr ⟨x, hx, hq⟩

theorem Mild.arrive (hm : t.Mild k) (peer : Peer) (r : R) (dialed : Bool) :
    (t.arrive peer r dialed).Mild k := by
  intro x hx hc
  rw [get?_arrive] at hx
  split_ifs at hx with hkn
  · obtain rfl := Option.some.inj hx
    cases hc
  · exact hm x hx hc

end PeerRouter

end Viewstamp
