import Viewstamp.Lib.Counting
import Viewstamp.Transport.Quic

/- The routing of a QUIC node over every run.

   Each call is described by what it does to the live connections: a close takes one
   away, a validation adds one and takes the excess away, a dial, a drained handle and
   its reuse change nothing. Routing and the limit per peer are read off these
   equations and off one more fact, that entries are told apart by their creation. -/
namespace Viewstamp

open List

namespace Quic

/-! ## The excess -/

namespace ConnTable

variable {t : ConnTable} {p : Peer} {h k : Handle}

/-- The entries are told apart by their creation, only validated ones were ever bound, and the
    deadline is there exactly while a connection authenticates. -/
structure Coherent (t : ConnTable) : Prop where
  older : ∀ h e, t.conns.get? h = some e → e.seq < t.nextSeq
  distinct : ∀ h h' e e', t.conns.get? h = some e → t.conns.get? h' = some e' →
    e.seq = e'.seq → h = h'
  bound : ∀ h e p, t.conns.get? h = some e → e.peer = some p →
    e.phase = .validated ∨ e.phase = .closed
  deadline : ∀ h e, t.conns.get? h = some e →
    (e.authDeadline.isSome = true ↔ e.phase = .authenticating)

/-- Changing one entry keeps the table coherent, if the entry stays coherent and keeps its age. -/
theorem Coherent.modify (hc : t.Coherent) {f : ConnEntry → ConnEntry}
    (hseq : ∀ e, (f e).seq = e.seq)
    (hbound : ∀ e p, t.conns.get? h = some e → (f e).peer = some p →
      (f e).phase = .validated ∨ (f e).phase = .closed)
    (hdeadline : ∀ e, t.conns.get? h = some e →
      ((f e).authDeadline.isSome = true ↔ (f e).phase = .authenticating)) :
    ({ t with conns := t.conns.modify h f } : ConnTable).Coherent := by
  -- Every entry is an old one of the same age.
  have hold : ∀ k e, (t.conns.modify h f).get? k = some e →
      ∃ e0, t.conns.get? k = some e0 ∧ e.seq = e0.seq ∧ (k = h ∧ e = f e0 ∨ k ≠ h ∧ e = e0) := by
    intro k e he
    rw [OrdMap.get?_modify] at he
    split at he
    next hk =>
      obtain ⟨e0, hget, rfl⟩ := Option.map_eq_some_iff.mp he
      exact ⟨e0, hget, hseq e0, .inl ⟨hk, rfl⟩⟩
    next hk => exact ⟨e, he, rfl, .inr ⟨hk, rfl⟩⟩
  constructor
  · intro k e he
    obtain ⟨e0, hget, hs, -⟩ := hold k e he
    rw [hs]
    exact hc.older k e0 hget
  · intro k k' e e' he he' heq
    obtain ⟨e0, hget, hs, -⟩ := hold k e he
    obtain ⟨e1, hget', hs', -⟩ := hold k' e' he'
    exact hc.distinct k k' e0 e1 hget hget' (by rw [← hs, ← hs', heq])
  · intro k e q he hq
    obtain ⟨e0, hget, -, ⟨rfl, rfl⟩ | ⟨hk, rfl⟩⟩ := hold k e he
    · exact hbound e0 q hget hq
    · exact hc.bound k e q hget hq
  · intro k e he
    obtain ⟨e0, hget, -, ⟨rfl, rfl⟩ | ⟨hk, rfl⟩⟩ := hold k e he
    · exact hdeadline e0 hget
    · exact hc.deadline k e hget

theorem Coherent.congr {t' : ConnTable} (hc : t.Coherent) (hconns : t'.conns = t.conns)
    (hseq : t'.nextSeq = t.nextSeq) : t'.Coherent := by
  constructor
  · rw [hconns, hseq]
    exact hc.older
  · rw [hconns]
    exact hc.distinct
  · rw [hconns]
    exact hc.bound
  · rw [hconns]
    exact hc.deadline

theorem Coherent.close (hc : t.Coherent) (h : Handle) : (t.close h).Coherent :=
  hc.modify (fun _ => rfl) (fun _ _ _ _ => .inr rfl) fun _ _ => by simp

/-- The other live connections of the peer. -/
def others (t : ConnTable) (p : Peer) (keep : Handle) : List (Handle × ConnEntry) :=
  (t.liveConns p).filter fun c => c.1 ≠ keep

/-- The others by creation. -/
def byAge (t : ConnTable) (p : Peer) (keep : Handle) : List (Nat × Handle) :=
  ((t.others p keep).map fun c => (c.2.seq, c.1)).insertionSort fun a b => a.1 ≤ b.1

theorem excessPeerConns_eq (t : ConnTable) (p : Peer) (keep : Handle) (limit : Nat) :
    t.excessPeerConns p keep limit =
      ((t.byAge p keep).take ((t.byAge p keep).length - (limit - 1))).map Prod.snd := by
  simp only [excessPeerConns]
  split
  next hle =>
    rw [byAge, length_insertionSort, others, Nat.sub_eq_zero_of_le hle]
    rfl
  · rfl

theorem mem_others {e : ConnEntry} :
    (k, e) ∈ t.others p h ↔ t.conns.get? k = some e ∧ e.liveFor p = true ∧ k ≠ h := by
  rw [others, mem_filter, mem_liveConns, and_assoc]
  simp

theorem mem_byAge {s : Nat} : (s, k) ∈ t.byAge p h ↔
    ∃ e, t.conns.get? k = some e ∧ e.liveFor p = true ∧ k ≠ h ∧ s = e.seq := by
  rw [byAge, (perm_insertionSort ..).mem_iff, mem_map]
  constructor
  · rintro ⟨⟨k', e⟩, hmem, heq⟩
    obtain ⟨rfl, rfl⟩ := Prod.mk.inj heq
    obtain ⟨hget, hlive, hne⟩ := mem_others.mp hmem
    exact ⟨e, hget, hlive, hne, rfl⟩
  · rintro ⟨e, hget, hlive, hne, rfl⟩
    exact ⟨(k, e), mem_others.mpr ⟨hget, hlive, hne⟩, rfl⟩

/-- Creation is a strict order. -/
theorem Coherent.byAge_increasing (hc : t.Coherent) :
    (t.byAge p h).Pairwise fun a b => a.1 < b.1 := by
  have : Std.Total fun a b : Nat × Handle => a.1 ≤ b.1 := ⟨fun a b => Nat.le_total a.1 b.1⟩
  have : IsTrans (Nat × Handle) fun a b => a.1 ≤ b.1 := ⟨fun _ _ _ => Nat.le_trans⟩
  have hsorted : (t.byAge p h).Pairwise fun a b => a.1 ≤ b.1 := pairwise_insertionSort ..
  have hnodup : (t.byAge p h).Nodup := by
    rw [byAge, (perm_insertionSort ..).nodup_iff, Nodup, pairwise_map]
    refine ((t.conns.sorted.filter _).filter _).imp ?_
    intro a b hab heq
    exact absurd (Prod.mk.inj heq).2 hab.ne
  refine (hsorted.and hnodup).imp_of_mem ?_
  rintro ⟨s, k⟩ ⟨s', k'⟩ hk hk' ⟨hle, hne⟩
  refine Nat.lt_of_le_of_ne hle ?_
  rintro rfl
  obtain ⟨e, hget, -, -, hs⟩ := mem_byAge.mp hk
  obtain ⟨e', hget', -, -, hs'⟩ := mem_byAge.mp hk'
  exact hne (by rw [hc.distinct k k' e e' hget hget' (hs.symm.trans hs')])

/-- The excess are those of the others that enough of the others are newer than. -/
theorem Coherent.mem_excess (hc : t.Coherent) {limit : Nat} {e : ConnEntry}
    (hk : (k, e) ∈ t.others p h) : k ∈ t.excessPeerConns p h limit ↔
      limit - 1 ≤ ((t.others p h).filter fun c => e.seq < c.2.seq).length := by
  obtain ⟨hget, hlive, hne⟩ := mem_others.mp hk
  have hmem : (e.seq, k) ∈ t.byAge p h := mem_byAge.mpr ⟨e, hget, hlive, hne, rfl⟩
  have hcount : ((t.byAge p h).filter fun y => e.seq < y.1).length
      = ((t.others p h).filter fun c => e.seq < c.2.seq).length := by
    rw [byAge, ((perm_insertionSort ..).filter _).length_eq, filter_map, length_map]
    rfl
  rw [← hcount, ← Counting.mem_take_iff_of_increasing hc.byAge_increasing hmem,
    excessPeerConns_eq, mem_map]
  constructor
  · rintro ⟨⟨s, k'⟩, htake, rfl⟩
    obtain ⟨e', hget', -, -, rfl⟩ := mem_byAge.mp (mem_of_mem_take htake)
    obtain rfl := Option.some.inj (hget.symm.trans hget')
    exact htake
  · exact fun htake => ⟨_, htake, rfl⟩

/-- At most `limit - 1` of the others are not excess. -/
theorem others_left_le (t : ConnTable) (p : Peer) (h : Handle) (limit : Nat) {ks : List Handle}
    (hks : ks.Nodup) (hleft : ∀ k ∈ ks, k ≠ h → t.Live p k ∧ k ∉ t.excessPeerConns p h limit) :
    ks.length ≤ 1 + (limit - 1) := by
  have hsub : ks ⊆ h ::
      ((t.byAge p h).drop ((t.byAge p h).length - (limit - 1))).map Prod.snd := by
    intro k hk
    by_cases hne : k = h
    · exact hne ▸ mem_cons_self
    · obtain ⟨⟨e, hget, hlive⟩, hexcess⟩ := hleft k hk hne
      have hmem : (e.seq, k) ∈ t.byAge p h := mem_byAge.mpr ⟨e, hget, hlive, hne, rfl⟩
      rw [← take_append_drop ((t.byAge p h).length - (limit - 1)) (t.byAge p h)] at hmem
      obtain htake | hdrop := mem_append.mp hmem
      · rw [excessPeerConns_eq] at hexcess
        exact absurd (mem_map.mpr ⟨_, htake, rfl⟩) hexcess
      · exact mem_cons_of_mem h (mem_map.mpr ⟨_, hdrop, rfl⟩)
  have hlen := (subperm_of_subset hks hsub).length_le
  rw [length_cons, length_map, length_drop] at hlen
  omega

theorem livePeerCount_eq (t : ConnTable) (p : Peer) :
    t.livePeerCount p = ((t.liveConns p).map Prod.fst).length := by
  rw [livePeerCount, OrdMap.values, countP_map, countP_eq_length_filter, length_map]
  rfl

theorem liveConns_nodup (t : ConnTable) (p : Peer) : ((t.liveConns p).map Prod.fst).Nodup := by
  rw [Nodup, pairwise_map]
  exact (t.conns.sorted.filter _).imp fun hab => hab.ne

theorem mem_liveConns_keys : k ∈ (t.liveConns p).map Prod.fst ↔ t.Live p k := by
  rw [mem_map]
  constructor
  · rintro ⟨⟨k', e⟩, hmem, rfl⟩
    exact ⟨e, mem_liveConns.mp hmem⟩
  · rintro ⟨e, he⟩
    exact ⟨(k, e), mem_liveConns.mpr he, rfl⟩

end ConnTable

namespace Bridge

variable {b : Bridge}

/-- A teardown closes the connection and routes its peer over another one that is live. -/
theorem markClosedUnbindPush_spec (b : Bridge) (h : Handle) (cause : CloseCause)
    (hr : b.table.Routed) : (b.markClosedUnbindPush h cause).table.Routed ∧
      (b.markClosedUnbindPush h cause).table.conns = (b.table.close h).conns ∧
      (b.markClosedUnbindPush h cause).table.nextSeq = b.table.nextSeq := by
  obtain ⟨hslots, hnone⟩ := ConnTable.close_unbind_slots (h := h) hr
  unfold markClosedUnbindPush
  dsimp only
  cases hp : (b.table.conns.get? h).bind (·.peer) with
  | none =>
    refine ⟨fun q => ?_, ConnTable.unbind_conns .., ConnTable.unbind_nextSeq ..⟩
    exact ConnTable.routingIsLive_iff.mpr
      ⟨hslots q, hnone q (by rw [hp]; exact (Option.some_ne_none q).symm)⟩
  | some p =>
    refine ⟨ConnTable.promote_routed (hslots p) fun q hq => ?_, ?_, ?_⟩
    · exact ConnTable.routingIsLive_iff.mpr
        ⟨hslots q, hnone q (by rw [hp]; exact fun h => hq (Option.some.inj h).symm)⟩
    · exact (ConnTable.promote_conns ..).trans (ConnTable.unbind_conns ..)
    · exact (ConnTable.promote_nextSeq ..).trans (ConnTable.unbind_nextSeq ..)

/-- The table is sound: coherent, and every peer routed. -/
structure Sound (t : ConnTable) : Prop where
  routed : t.Routed
  coherent : t.Coherent

theorem markClosedUnbindPush_sound (hs : Sound b.table) (h : Handle)
    (cause : CloseCause) : Sound (b.markClosedUnbindPush h cause).table ∧
      ∀ p k, (b.markClosedUnbindPush h cause).table.Live p k ↔ b.table.Live p k ∧ k ≠ h := by
  obtain ⟨hrouted, hconns, hseq⟩ := markClosedUnbindPush_spec b h cause hs.routed
  refine ⟨⟨hrouted, (hs.coherent.close h).congr hconns hseq⟩, fun p k => ?_⟩
  rw [ConnTable.live_congr hconns, ConnTable.live_close]

/-- A local close closes the connection, if it was not. -/
theorem closeLocal_sound (hs : Sound b.table) (h : Handle) (cause : CloseCause) :
    Sound (b.closeLocal h cause).table ∧
      ∀ p k, (b.closeLocal h cause).table.Live p k ↔ b.table.Live p k ∧ k ≠ h := by
  rw [closeLocal]
  split
  next hclosed =>
    refine ⟨hs, fun p k => ⟨fun hl => ⟨hl, ?_⟩, fun hl => hl.1⟩⟩
    rintro rfl
    obtain ⟨e, hget, hlive⟩ := hl
    simp [hget] at hclosed
    simp [ConnEntry.liveFor, hclosed] at hlive
  · exact markClosedUnbindPush_sound hs h cause

/-- So do closes one after another. -/
theorem closeAll_sound (stale : List Handle) (hs : Sound b.table) :
    Sound (stale.foldl (fun b h => b.closeLocal h .superseded) b).table ∧
      ∀ p k, (stale.foldl (fun b h => b.closeLocal h .superseded) b).table.Live p k ↔
        b.table.Live p k ∧ k ∉ stale := by
  induction stale generalizing b with
  | nil => exact ⟨hs, by simp⟩
  | cons h stale ih =>
    obtain ⟨hs', hlive⟩ := closeLocal_sound hs h .superseded
    obtain ⟨hs'', hlive'⟩ := ih hs'
    refine ⟨hs'', fun p k => ?_⟩
    rw [foldl_cons, hlive', hlive, mem_cons, not_or, and_assoc]

theorem promote_sound {t : ConnTable} (hs : Sound t) (p : Peer) :
    Sound (t.promoteRoutingIfUnbound p) :=
  ⟨ConnTable.promote_routed (ConnTable.routingIsLive_iff.mp (hs.routed p)).1 fun q _ => hs.routed q,
    hs.coherent.congr (ConnTable.promote_conns ..) (ConnTable.promote_nextSeq ..)⟩

end Bridge

/-! ## Validation -/

namespace ConnTable

variable {t : ConnTable} {p q : Peer} {h k : Handle} {e : ConnEntry}

/-- The connection bound to the peer and validated. -/
def validate (t : ConnTable) (h : Handle) (p : Peer) : ConnTable :=
  { t.bindPeer h p with
    conns := (t.bindPeer h p).conns.modify h fun e =>
      { e with phase := .validated, authDeadline := none } }

theorem get?_validate : (t.validate h p).conns.get? k = if k = h then (t.conns.get? h).map fun e =>
    { e with peer := some p, phase := .validated, authDeadline := none } else t.conns.get? k := by
  simp only [validate, bindPeer, OrdMap.get?_modify]
  by_cases hk : k = h
  · subst hk
    simp [Function.comp_def]
  · simp [hk]

/-- A connection that is neither validated nor closed is nobody's. -/
theorem Coherent.peer_eq_none (hc : t.Coherent) (hget : t.conns.get? h = some e)
    (hv : e.isValidated = false) (hcl : e.isClosed = false) : e.peer = none := by
  cases hp : e.peer with
  | none => rfl
  | some p =>
    simp only [ConnEntry.isValidated, ConnEntry.isClosed, decide_eq_false_iff_not] at hv hcl
    obtain h | h := hc.bound h e p hget hp
    · exact absurd h hv
    · exact absurd h hcl

theorem live_validate (hget : t.conns.get? h = some e) (hpeer : e.peer = none) :
    (t.validate h p).Live q k ↔ t.Live q k ∨ q = p ∧ k = h := by
  simp only [Live, get?_validate]
  by_cases hk : k = h
  · subst hk
    simp only [if_true, hget, Option.map_some, Option.some.injEq, exists_eq_left']
    simp [ConnEntry.liveFor, ConnEntry.isClosed, hpeer, eq_comm]
  · simp [hk]

theorem validate_routed (hr : t.Routed) (hget : t.conns.get? h = some e) (hpeer : e.peer = none) :
    (t.validate h p).Routed := by
  intro q
  rw [routingIsLive_iff]
  simp only [live_validate hget hpeer]
  have hbyPeer : (t.validate h p).byPeer = Function.update t.byPeer p (some h) := rfl
  rw [hbyPeer]
  by_cases hq : q = p
  · subst hq
    simp only [Function.update_self, Option.some.injEq, reduceCtorEq, false_implies, and_true]
    exact fun k hk => .inr ⟨trivial, hk.symm⟩
  · rw [Function.update_of_ne hq]
    obtain ⟨hslot, hnone⟩ := routingIsLive_iff.mp (hr q)
    exact ⟨fun k hk => .inl (hslot k hk),
      fun hb k hk => hnone hb k (hk.resolve_right fun h => hq h.1)⟩

theorem Coherent.validate (hc : t.Coherent) : (t.validate h p).Coherent := by
  have hmod := hc.modify (h := h)
    (f := fun e => { e with peer := some p, phase := .validated, authDeadline := none })
    (fun _ => rfl) (fun _ _ _ _ => .inl rfl) fun _ _ => by simp
  refine hmod.congr (OrdMap.ext_get? fun k => ?_) rfl
  rw [get?_validate, OrdMap.get?_modify]
  by_cases hk : k = h
  · rw [hk]
  · rw [if_neg hk, if_neg hk]

theorem others_eq (t : ConnTable) (p : Peer) (h : Handle) :
    t.others p h = (t.conns.filter fun k e => decide (k ≠ h) && e.liveFor p).entries := by
  rw [others, liveConns, filter_filter]
  rfl

/-- Binding the connection does not change the others. -/
theorem others_bindPeer (t : ConnTable) (h : Handle) (p : Peer) :
    (t.bindPeer h p).others p h = t.others p h := by
  rw [others_eq, others_eq]
  congr 1
  refine OrdMap.ext_get? fun k => Option.ext fun e => ?_
  rw [OrdMap.get?_filter_eq_some, OrdMap.get?_filter_eq_some, bindPeer, OrdMap.get?_modify]
  by_cases hk : k = h
  · simp [hk]
  · simp [hk]

theorem excess_bindPeer (t : ConnTable) (h : Handle) (p : Peer) (limit : Nat) :
    (t.bindPeer h p).excessPeerConns p h limit = t.excessPeerConns p h limit := by
  rw [excessPeerConns_eq, excessPeerConns_eq, byAge, byAge, others_bindPeer]

/-- The connection that was just validated is not excess. -/
theorem notMem_excess (t : ConnTable) (p : Peer) (h : Handle) (limit : Nat) :
    h ∉ t.excessPeerConns p h limit := by
  rw [excessPeerConns_eq, mem_map]
  rintro ⟨⟨s, k⟩, htake, rfl⟩
  obtain ⟨e, -, -, hne, -⟩ := mem_byAge.mp (mem_of_mem_take htake)
  exact hne rfl

end ConnTable

namespace Bridge

variable {b : Bridge} {h : Handle} {e : ConnEntry}

theorem validate_sound (hs : Sound b.table) (hget : b.table.conns.get? h = some e)
    (hpeer : e.peer = none) (p : Peer) : Sound (b.table.validate h p) :=
  ⟨ConnTable.validate_routed hs.routed hget hpeer, hs.coherent.validate⟩

/-- A validation that runs to its end: the connection is live, and of the others those that were
    not excess. -/
theorem bindValidated_sound (hs : Sound b.table) (hget : b.table.conns.get? h = some e)
    (hv : e.isValidated = false) (hc : e.isClosed = false) (p : Peer) :
    Sound (b.bindValidated h p false).table ∧ ∀ q k, (b.bindValidated h p false).table.Live q k ↔
      (b.table.Live q k ∨ q = p ∧ k = h) ∧
        k ∉ b.table.excessPeerConns p h perPeerConnLimit := by
  have hpeer := hs.coherent.peer_eq_none hget hv hc
  have hrun : (b.bindValidated h p false).table
      = ((b.table.excessPeerConns p h perPeerConnLimit).foldl
          (fun (b : Bridge) h => b.closeLocal h .superseded)
          { b with table := b.table.validate h p }).table.promoteRoutingIfUnbound p := by
    simp only [bindValidated, hget, hv, hc, Bool.or_self, Bool.false_eq_true, if_false,
      ConnTable.validateRouting, ConnTable.excess_bindPeer]
    rfl
  rw [hrun]
  obtain ⟨hsound, hlive⟩ := closeAll_sound (b.table.excessPeerConns p h perPeerConnLimit)
    (b := { b with table := b.table.validate h p }) (validate_sound hs hget hpeer p)
  refine ⟨promote_sound hsound p, fun q k => ?_⟩
  rw [ConnTable.live_congr (ConnTable.promote_conns ..), hlive,
    ConnTable.live_validate hget hpeer]

/-- Any validation, also one that ends at the bytes behind the hello or does not start. -/
theorem bindValidated_sound_any (hs : Sound b.table) (h : Handle) (p : Peer) (tailError : Bool) :
    Sound (b.bindValidated h p tailError).table := by
  cases hget : b.table.conns.get? h with
  | none =>
    simp only [bindValidated, hget]
    exact hs
  | some e =>
    cases hv : e.isValidated with
    | true =>
      simp only [bindValidated, hget, hv, Bool.true_or, if_true]
      exact hs
    | false =>
      cases hc : e.isClosed with
      | true =>
        simp only [bindValidated, hget, hv, hc, Bool.or_true, if_true]
        exact hs
      | false =>
        cases tailError with
        | false => exact (bindValidated_sound hs hget hv hc p).1
        | true =>
          simp only [bindValidated, hget, hv, hc, Bool.or_self, Bool.false_eq_true,
            if_false, if_true]
          exact validate_sound hs hget (hs.coherent.peer_eq_none hget hv hc) p

end Bridge

/-! ## Runs -/

/-- What happens to the connections of a node. -/
inductive Op where
  /-- A dial or an accept. -/
  | insert (h : Handle)
  | connected (h : Handle) (now : Instant)
  | bindValidated (h : Handle) (p : Peer) (tailError : Bool)
  | closeLocal (h : Handle) (cause : CloseCause)
  /-- `Event::ConnectionLost`. -/
  | connectionLost (h : Handle) (cause : CloseCause)
  /-- `EndpointEvent::Drained`. -/
  | drained (h : Handle)

namespace Bridge

variable {b : Bridge} {h : Handle}

def step (b : Bridge) : Op → Bridge
  | .insert h => { b with table := b.table.insert h {} }
  | .connected h now => b.onConnected h now
  | .bindValidated h p tailError => b.bindValidated h p tailError
  | .closeLocal h cause => b.closeLocal h cause
  | .connectionLost h cause => b.markClosedUnbindPush h cause
  | .drained h => { b with table := b.table.remove h }

/-- What quinn keeps to: a new connection gets a handle that is free, the handshake of a connection
    completes before its peer is bound, and only a closed connection is drained. -/
def Allowed (b : Bridge) : Op → Bool
  | .insert h => !b.table.conns.contains h
  | .connected h _ => (b.table.conns.get? h).all (·.peer.isNone)
  | .drained h => (b.table.conns.get? h).all (·.isClosed)
  | _ => true

inductive Reachable : Bridge → Prop where
  | new : Reachable {}
  | step {b : Bridge} {op : Op} (hb : Reachable b) (hop : b.Allowed op = true) :
    Reachable (b.step op)

theorem sound_new : Sound ({} : Bridge).table := by
  refine ⟨fun p => rfl, ⟨?_, ?_, ?_, ?_⟩⟩ <;> exact nofun

theorem routed_congr {t t' : ConnTable} (hr : t.Routed) (hbyPeer : t'.byPeer = t.byPeer)
    (hlive : ∀ p k, t'.Live p k ↔ t.Live p k) : t'.Routed := by
  intro p
  rw [ConnTable.routingIsLive_iff, hbyPeer]
  simp only [hlive]
  exact ConnTable.routingIsLive_iff.mp (hr p)

theorem insert_sound (hs : Sound b.table) (hfree : b.table.conns.get? h = none) :
    Sound (b.table.insert h {}) := by
  have hget : ∀ k, (b.table.insert h {}).conns.get? k
      = if k = h then some { seq := b.table.nextSeq } else b.table.conns.get? k :=
    fun k => OrdMap.get?_insert ..
  -- Every entry is the new one or an old one.
  have hcases : ∀ k e, (b.table.insert h {}).conns.get? k = some e →
      k = h ∧ e = { seq := b.table.nextSeq } ∨ k ≠ h ∧ b.table.conns.get? k = some e := by
    intro k e he
    rw [hget] at he
    split at he
    next hk => exact .inl ⟨hk, (Option.some.inj he).symm⟩
    next hk => exact .inr ⟨hk, he⟩
  constructor
  · refine routed_congr hs.routed ?_ fun p k => ?_
    · rfl
    · simp only [ConnTable.Live, hget]
      by_cases hk : k = h
      · simp [hk, hfree, ConnEntry.liveFor]
      · simp [hk]
  · constructor
    · intro k e he
      obtain ⟨-, rfl⟩ | ⟨-, he⟩ := hcases k e he
      · exact Nat.lt_succ_self _
      · exact Nat.lt_succ_of_lt (hs.coherent.older k e he)
    · intro k k' e e' he he' heq
      obtain ⟨rfl, rfl⟩ | ⟨-, he⟩ := hcases k e he
      · obtain ⟨rfl, -⟩ | ⟨-, he'⟩ := hcases k' e' he'
        · rfl
        · exact absurd heq (hs.coherent.older k' e' he').ne'
      · obtain ⟨-, rfl⟩ | ⟨-, he'⟩ := hcases k' e' he'
        · exact absurd heq (hs.coherent.older k e he).ne
        · exact hs.coherent.distinct k k' e e' he he' heq
    · intro k e p he hp
      obtain ⟨-, rfl⟩ | ⟨-, he⟩ := hcases k e he
      · cases hp
      · exact hs.coherent.bound k e p he hp
    · intro k e he
      obtain ⟨-, rfl⟩ | ⟨-, he⟩ := hcases k e he
      · simp
      · exact hs.coherent.deadline k e he

theorem connected_sound (hs : Sound b.table) (now : Instant)
    (hpeer : ∀ e, b.table.conns.get? h = some e → e.peer = none) :
    Sound (b.onConnected h now).table := by
  constructor
  · refine routed_congr hs.routed ?_ fun p k => ?_
    · rfl
    · simp only [ConnTable.Live, onConnected, OrdMap.get?_modify]
      by_cases hk : k = h
      · subst hk
        cases hget : b.table.conns.get? k with
        | none => simp
        | some e => simp [ConnEntry.liveFor, hpeer e hget]
      · simp [hk]
  · refine hs.coherent.modify (fun _ => rfl) (fun e p hget hp => ?_) fun e _ => by simp
    cases (hpeer e hget).symm.trans hp

theorem remove_sound (hs : Sound b.table)
    (hclosed : ∀ e, b.table.conns.get? h = some e → e.phase = .closed) :
    Sound (b.table.remove h) := by
  rw [ConnTable.remove]
  cases hget : b.table.conns.get? h with
  | none => exact hs
  | some e =>
    have hdead : ∀ p, ¬ b.table.Live p h := by
      rintro p ⟨e', hget', hlive⟩
      obtain rfl := Option.some.inj (hget.symm.trans hget')
      simp [ConnEntry.liveFor, ConnEntry.isClosed, hclosed e hget] at hlive
    have herased : Sound { b.table with conns := b.table.conns.erase h } := by
      have hold : ∀ k e, (b.table.conns.erase h).get? k = some e →
          b.table.conns.get? k = some e := by
        intro k e he
        rw [OrdMap.get?_erase] at he
        split at he
        · cases he
        · exact he
      constructor
      · refine routed_congr hs.routed ?_ fun p k => ?_
        · rfl
        · constructor
          · rintro ⟨e, he, hlive⟩
            exact ⟨e, hold k e he, hlive⟩
          · rintro ⟨e, he, hlive⟩
            have hk : k ≠ h := by
              rintro rfl
              exact hdead p ⟨e, he, hlive⟩
            exact ⟨e, by rw [OrdMap.get?_erase, if_neg hk, he], hlive⟩
      · exact ⟨fun k e he => hs.coherent.older k e (hold k e he),
          fun k k' e e' he he' => hs.coherent.distinct k k' e e' (hold k e he) (hold k' e' he'),
          fun k e p he => hs.coherent.bound k e p (hold k e he),
          fun k e he => hs.coherent.deadline k e (hold k e he)⟩
    simp only
    split
    next p _ =>
      -- The slot of a closed connection's peer points elsewhere.
      rw [if_neg fun hslot => hdead p ((ConnTable.routingIsLive_iff.mp (hs.routed p)).1 h hslot)]
      exact herased
    · exact herased

theorem step_sound (hs : Sound b.table) {op : Op} (hop : b.Allowed op = true) :
    Sound (b.step op).table := by
  cases op with
  | insert h => exact insert_sound hs (by simpa [Allowed, OrdMap.contains] using hop)
  | connected h now =>
    refine connected_sound hs now fun e hget => ?_
    simpa [Allowed, hget] using hop
  | bindValidated h p tailError => exact bindValidated_sound_any hs h p tailError
  | closeLocal h cause => exact (closeLocal_sound hs h cause).1
  | connectionLost h cause => exact (markClosedUnbindPush_sound hs h cause).1
  | drained h =>
    refine remove_sound hs fun e hget => ?_
    simpa [Allowed, hget, ConnEntry.isClosed] using hop

theorem Reachable.sound (hb : Reachable b) : Sound b.table := by
  induction hb with
  | new => exact sound_new
  | step hb hop ih => exact step_sound ih hop

/-- In every reachable state each peer is routed over a live connection of its own, or has none.
    A validation never selects its own connection for reaping, and leaves its peer with at most
    `PER_PEER_CONN_LIMIT` live connections: its own, and those of the others that fewer than
    `PER_PEER_CONN_LIMIT - 1` others are newer than. -/
theorem routing_reachable (hb : Reachable b) :
    (∀ p, b.table.routingIsLive p = true) ∧
      ∀ h p e, b.table.conns.get? h = some e → e.isValidated = false → e.isClosed = false →
        h ∉ (b.table.validateRouting h p perPeerConnLimit).1 ∧
        (b.bindValidated h p false).table.livePeerCount p ≤ perPeerConnLimit ∧
        ∀ k, (b.bindValidated h p false).table.Live p k ↔ k = h ∨ ∃ e',
          (k, e') ∈ b.table.others p h ∧
            ((b.table.others p h).filter fun c => e'.seq < c.2.seq).length
              < perPeerConnLimit - 1 := by
  have hs := hb.sound
  refine ⟨hs.routed, fun h p e hget hv hc => ?_⟩
  obtain ⟨-, hlive⟩ := bindValidated_sound hs hget hv hc p
  have hpeer := hs.coherent.peer_eq_none hget hv hc
  have hkeep := ConnTable.notMem_excess b.table p h perPeerConnLimit
  have hlive' : ∀ k, (b.bindValidated h p false).table.Live p k ↔ k = h ∨
      k ≠ h ∧ b.table.Live p k ∧ k ∉ b.table.excessPeerConns p h perPeerConnLimit := by
    intro k
    rw [hlive]
    by_cases hk : k = h
    · simp [hk, hkeep]
    · simp [hk]
  refine ⟨?_, ?_, fun k => ?_⟩
  · exact ConnTable.notMem_excess (b.table.bindPeer h p) p h perPeerConnLimit
  · rw [ConnTable.livePeerCount_eq]
    refine ConnTable.others_left_le b.table p h perPeerConnLimit (ConnTable.liveConns_nodup ..) ?_
    intro k hk hne
    exact (((hlive' k).mp (ConnTable.mem_liveConns_keys.mp hk)).resolve_left hne).2
  · rw [hlive' k]
    refine or_congr_right ⟨?_, ?_⟩
    · rintro ⟨hne, ⟨e', hget', hlive⟩, hexcess⟩
      have hmem := ConnTable.mem_others.mpr ⟨hget', hlive, hne⟩
      rw [hs.coherent.mem_excess hmem, Nat.not_le] at hexcess
      exact ⟨e', hmem, hexcess⟩
    · rintro ⟨e', hmem, hnewer⟩
      obtain ⟨hget', hlive, hne⟩ := ConnTable.mem_others.mp hmem
      refine ⟨hne, ⟨e', hget', hlive⟩, ?_⟩
      rw [hs.coherent.mem_excess hmem, Nat.not_le]
      exact hnewer

/-- Do one thing after another, as long as quinn allows it. -/
def run (b : Bridge) : List Op → Option Bridge
  | [] => some b
  | op :: ops => if b.Allowed op then (b.step op).run ops else none

theorem Reachable.run {b b' : Bridge} (hb : Reachable b) {ops : List Op}
    (h : b.run ops = some b') : Reachable b' := by
  induction ops generalizing b with
  | nil => exact Option.some.inj h ▸ hb
  | cons op ops ih =>
    rw [Bridge.run] at h
    split at h
    next hop => exact ih (hb.step hop) h
    · cases h

/-- Three connections of a peer are validated while an older one is not; the handle of one that
    was drained is in use again. -/
def crowded : List Op :=
  [.insert 0, .insert 1, .insert 2, .bindValidated 1 (.replica 7) false,
    .bindValidated 2 (.replica 7) false, .closeLocal 2 .frameTooLong, .drained 2, .insert 3,
    .bindValidated 3 (.replica 7) false, .insert 2, .bindValidated 2 (.replica 7) false]

/-- The oldest is validated last and stays; the second oldest goes. -/
theorem routing_reachable_crowded :
    (({} : Bridge).run crowded).any (fun b => b.table.routingIsLive (.replica 7) = true ∧
        0 ∉ (b.table.validateRouting 0 (.replica 7) perPeerConnLimit).1 ∧
        (b.bindValidated 0 (.replica 7) false).table.livePeerCount (.replica 7)
          ≤ perPeerConnLimit) = true ∧
      (({} : Bridge).run crowded).any (fun b =>
        (b.table.validateRouting 0 (.replica 7) perPeerConnLimit).1 = [1]) = true := by
  refine ⟨?_, by decide +kernel⟩
  obtain ⟨b, hb⟩ : ∃ b, ({} : Bridge).run crowded = some b :=
    Option.isSome_iff_exists.mp (by decide +kernel)
  obtain ⟨hrouted, hvalidated⟩ := routing_reachable (Reachable.new.run hb)
  have hentry : (({} : Bridge).run crowded).any
      (fun b => b.table.conns.get? 0 = some { seq := 0 }) = true := by decide +kernel
  rw [hb] at hentry ⊢
  simp only [Option.any_some, decide_eq_true_eq] at hentry ⊢
  obtain ⟨hkeep, hcount, -⟩ := hvalidated 0 (.replica 7) _ hentry rfl rfl
  exact ⟨hrouted _, hkeep, hcount⟩

end Bridge

end Quic

end Viewstamp
