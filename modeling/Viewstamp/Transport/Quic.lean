import Mathlib.Data.List.Sort
import Viewstamp.Lib.OrdMap
import Viewstamp.Transport.RecordIo

/- The connections of a QUIC node and the routing of its peers.

   `conns` holds every connection until quinn has drained it, `by_peer` the one each
   peer is routed over. A peer may hold several connections at once: both sides dial,
   and a reconnect overlaps with what it replaces. Validation routes the peer over the
   new connection and closes the oldest others beyond the limit; a close routes it over
   the newest one left. Creation order is not validation order, so the connection that
   was just validated may be the oldest of its peer. -/
namespace Viewstamp

namespace Quic

/-- `ConnectionHandle`: a slab index, used again once its connection is drained. -/
abbrev Handle := Nat

inductive Phase where
  | handshaking
  | authenticating
  | validated
  | closed
  deriving DecidableEq

structure ConnEntry where
  phase : Phase := .handshaking
  peer : Option Peer := none
  authDeadline : Option Instant := none
  seq : Nat := 0
  deriving DecidableEq

namespace ConnEntry

def isClosed (e : ConnEntry) : Bool := e.phase = .closed
def isValidated (e : ConnEntry) : Bool := e.phase = .validated

/-- Bound to the peer, and not closed. -/
def liveFor (e : ConnEntry) (p : Peer) : Bool := e.peer = some p && !e.isClosed

end ConnEntry

structure ConnTable where
  conns : OrdMap Handle ConnEntry := .empty
  byPeer : Peer → Option Handle := fun _ => none
  nextSeq : Nat := 0

def perPeerConnLimit : Nat := 3
/-- `AUTH_DEADLINE`, in milliseconds. -/
def authDeadline : Nat := 5000

namespace ConnTable

def insert (t : ConnTable) (h : Handle) (entry : ConnEntry) : ConnTable :=
  { t with
    conns := t.conns.insert h { entry with seq := t.nextSeq }
    nextSeq := t.nextSeq + 1 }

def bindPeer (t : ConnTable) (h : Handle) (p : Peer) : ConnTable :=
  { t with
    byPeer := Function.update t.byPeer p (some h)
    conns := t.conns.modify h fun e => { e with peer := some p } }

/-- The connections of a peer that are not closed. -/
def liveConns (t : ConnTable) (p : Peer) : List (Handle × ConnEntry) :=
  t.conns.entries.filter fun c => c.2.liveFor p

/-- The oldest of the peer's other connections, so many that `limit` are left with `keep`. -/
def excessPeerConns (t : ConnTable) (p : Peer) (keep : Handle) (limit : Nat) : List Handle :=
  let live := ((t.liveConns p).filter fun c => c.1 ≠ keep).map fun c => (c.2.seq, c.1)
  let othersBudget := limit - 1
  if live.length ≤ othersBudget then []
  else
    let live := live.insertionSort fun a b => a.1 ≤ b.1
    (live.take (live.length - othersBudget)).map Prod.snd

def validateRouting (t : ConnTable) (h : Handle) (p : Peer) (limit : Nat) :
    List Handle × ConnTable :=
  let t := t.bindPeer h p
  (t.excessPeerConns p h limit, t)

/-- The one of two connections with the higher `seq`. -/
def newerOf (best : Option (Handle × ConnEntry)) (c : Handle × ConnEntry) :
    Option (Handle × ConnEntry) :=
  match best with
  | some b => if b.2.seq ≤ c.2.seq then some c else some b
  | none => some c

/-- The newest of the peer's connections that are not closed. -/
def newestLive (t : ConnTable) (p : Peer) : Option Handle :=
  ((t.liveConns p).foldl newerOf none).map Prod.fst

def promoteRoutingIfUnbound (t : ConnTable) (p : Peer) : ConnTable :=
  if (t.byPeer p).isSome then t
  else match t.newestLive p with
    | some h => { t with byPeer := Function.update t.byPeer p (some h) }
    | none => t

def routingIsLive (t : ConnTable) (p : Peer) : Bool :=
  match t.byPeer p with
  | some bound => (t.conns.get? bound).any (·.liveFor p)
  | none => !t.conns.values.any (·.liveFor p)

def livePeerCount (t : ConnTable) (p : Peer) : Nat := t.conns.values.countP (·.liveFor p)

def remove (t : ConnTable) (h : Handle) : ConnTable :=
  match t.conns.get? h with
  | none => t
  | some entry =>
    let t := { t with conns := t.conns.erase h }
    match entry.peer with
    | some p =>
      if t.byPeer p = some h then { t with byPeer := Function.update t.byPeer p none } else t
    | none => t

def unbind (t : ConnTable) (h : Handle) : ConnTable :=
  match (t.conns.get? h).bind (·.peer) with
  | some p =>
    if t.byPeer p = some h then { t with byPeer := Function.update t.byPeer p none } else t
  | none => t

end ConnTable

/-! ## The bridge -/

structure Bridge where
  table : ConnTable := {}
  lost : List Handle := []
  closeCounts : CloseCause → Nat := fun _ => 0

namespace Bridge

def markClosedUnbindPush (b : Bridge) (h : Handle) (cause : CloseCause) : Bridge :=
  let entry := b.table.conns.get? h
  let peer := entry.bind (·.peer)
  let closeCounts := if entry.any fun e => !e.isClosed then
      Function.update b.closeCounts cause (b.closeCounts cause + 1) else b.closeCounts
  let table := { b.table with
    conns := b.table.conns.modify h fun e => { e with phase := .closed, authDeadline := none } }
  let table := table.unbind h
  let table := match peer with
    | some p => table.promoteRoutingIfUnbound p
    | none => table
  { table, lost := b.lost ++ [h], closeCounts }

def closeLocal (b : Bridge) (h : Handle) (cause : CloseCause) : Bridge :=
  if (b.table.conns.get? h).any (·.isClosed) then b else b.markClosedUnbindPush h cause

/-- `tailError`: the bytes retained behind the hello do not decode at the final cap. -/
def bindValidated (b : Bridge) (h : Handle) (peer : Peer) (tailError : Bool) : Bridge :=
  match b.table.conns.get? h with
  | none => b
  | some e =>
    if e.isValidated || e.isClosed then b
    else
      let (stale, table) := b.table.validateRouting h peer perPeerConnLimit
      let table := { table with
        conns := table.conns.modify h fun e =>
          { e with phase := .validated, authDeadline := none } }
      let b := { b with table }
      if tailError then b
      else
        let b := stale.foldl (fun b h => b.closeLocal h .superseded) b
        { b with table := b.table.promoteRoutingIfUnbound peer }

/-- `Event::Connected`. -/
def onConnected (b : Bridge) (h : Handle) (now : Instant) : Bridge :=
  { b with table := { b.table with
    conns := b.table.conns.modify h fun e =>
      { e with phase := .authenticating, authDeadline := some (now + authDeadline) } } }

end Bridge

/-! ## Live connections and routing -/

namespace ConnTable

variable {t : ConnTable} {p q : Peer} {h k : Handle}

/-- A connection that is bound to the peer and not closed. -/
def Live (t : ConnTable) (p : Peer) (h : Handle) : Prop :=
  ∃ e, t.conns.get? h = some e ∧ e.liveFor p = true

theorem mem_liveConns {e : ConnEntry} :
    (h, e) ∈ t.liveConns p ↔ t.conns.get? h = some e ∧ e.liveFor p = true := by
  rw [liveConns, List.mem_filter, OrdMap.mem_entries]

/-- The peer is routed over one of its live connections, or has none. -/
theorem routingIsLive_iff : t.routingIsLive p = true ↔
    (∀ h, t.byPeer p = some h → t.Live p h) ∧ (t.byPeer p = none → ∀ h, ¬ t.Live p h) := by
  rw [routingIsLive]
  cases hb : t.byPeer p with
  | some bound => simp [Live, Option.any_eq_true]
  | none =>
    simp only [Bool.not_eq_true', List.any_eq_false, OrdMap.mem_values, reduceCtorEq,
      false_implies, implies_true, true_and, Live]
    constructor
    · rintro hv - h ⟨e, hget, hlive⟩
      exact hv e ⟨h, hget⟩ hlive
    · rintro hv e ⟨h, hget⟩ hlive
      exact hv trivial h ⟨e, hget, hlive⟩

/-- Every peer is. -/
def Routed (t : ConnTable) : Prop := ∀ p, t.routingIsLive p = true

theorem newerOf_isSome (best : Option (Handle × ConnEntry)) (c : Handle × ConnEntry) :
    ∃ b, newerOf best c = some b ∧ (some b = best ∨ b = c) := by
  cases best with
  | none => exact ⟨c, rfl, .inr rfl⟩
  | some b =>
    simp only [newerOf]
    split
    · exact ⟨c, rfl, .inr rfl⟩
    · exact ⟨b, rfl, .inl rfl⟩

/-- The pick is one of the list, and there is one unless the list is empty. -/
theorem foldl_newerOf (cs : List (Handle × ConnEntry)) (best : Option (Handle × ConnEntry)) :
    (∀ c, cs.foldl newerOf best = some c → some c = best ∨ c ∈ cs) ∧
      (cs.foldl newerOf best = none → best = none ∧ cs = []) := by
  induction cs generalizing best with
  | nil => simp [eq_comm]
  | cons c cs ih =>
    obtain ⟨b, hb, hfrom⟩ := newerOf_isSome best c
    obtain ⟨hsome, hnone⟩ := ih (some b)
    rw [List.foldl_cons, hb]
    refine ⟨fun d hd => ?_, fun hd => nomatch (hnone hd).1⟩
    obtain hd | hd := hsome d hd
    · cases hd
      obtain hbest | rfl := hfrom
      · exact .inl hbest
      · exact .inr List.mem_cons_self
    · exact .inr (List.mem_cons_of_mem c hd)

theorem newestLive_eq_some (hn : t.newestLive p = some h) : t.Live p h := by
  obtain ⟨⟨h', e⟩, hfold, rfl⟩ := Option.map_eq_some_iff.mp hn
  obtain hc | hc := (foldl_newerOf _ none).1 _ hfold
  · cases hc
  · exact ⟨e, mem_liveConns.mp hc⟩

theorem newestLive_eq_none (hn : t.newestLive p = none) (h : Handle) : ¬ t.Live p h := by
  rintro ⟨e, he⟩
  have hnil := ((foldl_newerOf _ none).2 (Option.map_eq_none_iff.mp hn)).2
  have hmem := mem_liveConns.mpr he
  rw [hnil] at hmem
  cases hmem

/-! Promotion -/

theorem promote_conns (t : ConnTable) (p : Peer) :
    (t.promoteRoutingIfUnbound p).conns = t.conns := by
  rw [promoteRoutingIfUnbound]
  split
  · rfl
  · split <;> rfl

theorem live_congr {t' : ConnTable} (hc : t'.conns = t.conns) : t'.Live p h ↔ t.Live p h := by
  rw [Live, Live, hc]

theorem promote_byPeer_of_ne (t : ConnTable) (hq : q ≠ p) :
    (t.promoteRoutingIfUnbound p).byPeer q = t.byPeer q := by
  rw [promoteRoutingIfUnbound]
  split
  · rfl
  · split
    · exact Function.update_of_ne hq ..
    · rfl

/-- A slot that points nowhere wrong is routed after a promotion. -/
theorem promote_routes (hslot : ∀ h, t.byPeer p = some h → t.Live p h) :
    (t.promoteRoutingIfUnbound p).routingIsLive p = true := by
  rw [routingIsLive_iff]
  simp only [live_congr (promote_conns t p)]
  rw [promoteRoutingIfUnbound]
  cases hb : t.byPeer p with
  | some bound =>
    simp only [Option.isSome_some, if_true]
    exact ⟨hslot, fun h => nomatch hb.symm.trans h⟩
  | none =>
    simp only [Option.isSome_none, Bool.false_eq_true, if_false]
    cases hn : t.newestLive p with
    | some h =>
      simp only [Function.update_self, Option.some.injEq, forall_eq', reduceCtorEq, false_implies,
        and_true]
      exact newestLive_eq_some hn
    | none => exact ⟨hslot, fun _ => newestLive_eq_none hn⟩

/-- Promotion does no harm to the other peers. -/
theorem promote_routed (hslot : ∀ h, t.byPeer p = some h → t.Live p h)
    (hothers : ∀ q, q ≠ p → t.routingIsLive q = true) : (t.promoteRoutingIfUnbound p).Routed := by
  intro q
  by_cases hq : q = p
  · subst hq
    exact promote_routes hslot
  · have hq' := routingIsLive_iff.mp (hothers q hq)
    rw [routingIsLive_iff, promote_byPeer_of_ne t hq]
    simp only [live_congr (promote_conns t p)]
    exact hq'

/-! Closing -/

/-- Mark a connection closed. -/
def close (t : ConnTable) (h : Handle) : ConnTable :=
  { t with conns := t.conns.modify h fun e => { e with phase := .closed, authDeadline := none } }

theorem live_close : (t.close h).Live p k ↔ t.Live p k ∧ k ≠ h := by
  simp only [Live, close, OrdMap.get?_modify]
  by_cases hk : k = h
  · simp only [hk, if_true, Option.map_eq_some_iff, ne_eq, not_true_eq_false, and_false, iff_false]
    rintro ⟨e, ⟨e', -, rfl⟩, hlive⟩
    simp [ConnEntry.liveFor, ConnEntry.isClosed] at hlive
  · simp [hk]

theorem unbind_conns (t : ConnTable) (h : Handle) : (t.unbind h).conns = t.conns := by
  rw [unbind]
  split
  · split <;> rfl
  · rfl

theorem byPeer_unbind (t : ConnTable) (h : Handle) (q : Peer) : (t.unbind h).byPeer q =
    if (t.conns.get? h).bind (·.peer) = some q ∧ t.byPeer q = some h then none else t.byPeer q := by
  rw [unbind]
  cases hp : (t.conns.get? h).bind (·.peer) with
  | none => simp
  | some p =>
    by_cases hq : p = q
    · subst hq
      by_cases hb : t.byPeer p = some h
      · simp [hb]
      · simp [hb]
    · simp only [Option.some.injEq, hq, false_and, if_false]
      split
      · exact Function.update_of_ne (Ne.symm hq) ..
      · rfl

theorem Live.peer (hl : t.Live p h) : (t.conns.get? h).bind (·.peer) = some p := by
  obtain ⟨e, hget, hlive⟩ := hl
  simp only [ConnEntry.liveFor, Bool.and_eq_true, decide_eq_true_eq] at hlive
  rw [hget]
  exact hlive.1

theorem unbind_nextSeq (t : ConnTable) (h : Handle) : (t.unbind h).nextSeq = t.nextSeq := by
  rw [unbind]
  split
  · split <;> rfl
  · rfl

theorem promote_nextSeq (t : ConnTable) (p : Peer) :
    (t.promoteRoutingIfUnbound p).nextSeq = t.nextSeq := by
  rw [promoteRoutingIfUnbound]
  split
  · rfl
  · split <;> rfl

theorem close_peer (t : ConnTable) (h : Handle) :
    ((t.close h).conns.get? h).bind (·.peer) = (t.conns.get? h).bind (·.peer) := by
  rw [close, OrdMap.get?_modify, if_pos rfl]
  cases t.conns.get? h <;> rfl

/-- After the close and the unbinding every slot is right, and only the slot of the closed
    connection's peer may be missing. -/
theorem close_unbind_slots (hr : t.Routed) :
    (∀ q k, ((t.close h).unbind h).byPeer q = some k → ((t.close h).unbind h).Live q k) ∧
      ∀ q, (t.conns.get? h).bind (·.peer) ≠ some q →
        ((t.close h).unbind h).byPeer q = none → ∀ k, ¬ ((t.close h).unbind h).Live q k := by
  have hbyPeer : (t.close h).byPeer = t.byPeer := rfl
  simp only [live_congr (unbind_conns _ _), live_close, byPeer_unbind, close_peer, hbyPeer]
  refine ⟨?_, ?_⟩
  · intro q k hslot
    split at hslot
    · cases hslot
    next hkept =>
      have hlive := (routingIsLive_iff.mp (hr q)).1 k hslot
      refine ⟨hlive, ?_⟩
      rintro rfl
      exact hkept ⟨hlive.peer, hslot⟩
  · intro q hq hslot k
    rw [if_neg (fun h => hq h.1)] at hslot
    exact fun hlive => (routingIsLive_iff.mp (hr q)).2 hslot k hlive.1

end ConnTable

end Quic

end Viewstamp
