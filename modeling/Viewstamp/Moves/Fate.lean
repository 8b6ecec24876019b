import Viewstamp.Moves.Parking

/- What becomes of a parked append.

   An append leaves the table in one of few ways: it is handed to the session, a
   newer append of its op takes its place, a nack truncation or a checkpoint makes it
   void, or the whole table is emptied by a change of view or configuration. Of two
   that share a slot the lower goes first: when the higher is handed over, the lower
   is no longer there. -/
namespace Viewstamp

variable {S : Type}

namespace Face

/-- The append is parked, for whatever reason. -/
def Keeps (f : Face S) (op : OpNumber) (d : DeferredAppend) : Prop :=
  ∃ reason, f.deferredAppends.get? op = some { d with reason := reason }

/-- The append is in flight. -/
def Flies (f : Face S) (op : OpNumber) (d : DeferredAppend) : Prop :=
  ∃ w ∈ f.walWrites, w.op = op ∧ w.header = d.header ∧ w.body = d.body

/-- No lower op waits for the slot of `op`. -/
def Lowest (f : Face S) (op : OpNumber) : Prop :=
  ∀ op' < op, f.slot op' = f.slot op → f.deferredAppends.get? op' = none

/-- The append is in flight, and no lower op waits for its slot. -/
def Sends (f : Face S) (op : OpNumber) (d : DeferredAppend) : Prop := f.Flies op d ∧ f.Lowest op

/-- Parked appends are handed over, and nothing else; in order where that is asked for. -/
structure Sheds (ordered : Prop) (f f' : Face S) : Prop where
  slot_eq : f'.slot = f.slot
  writes : f.walWrites ⊆ f'.walWrites
  keys : ∀ op, f.deferredAppends.get? op = none → f'.deferredAppends.get? op = none
  fate : ∀ op d, f.deferredAppends.get? op = some d →
    f'.Keeps op d ∨ (f'.Flies op d ∧ (ordered → f'.Lowest op))

namespace Sheds

variable {ordered : Prop} {f f' f'' : Face S}

theorem of_eq (hslot : f'.slot = f.slot) (hw : f'.walWrites = f.walWrites)
    (hd : f'.deferredAppends = f.deferredAppends) : Sheds ordered f f' where
  slot_eq := hslot
  writes := by
    rw [hw]
    exact List.Subset.refl _
  keys op hop := by rwa [hd]
  fate op d hop := .inl ⟨d.reason, by rwa [hd]⟩

theorem refl (f : Face S) : Sheds ordered f f := of_eq rfl rfl rfl

/-- What is in flight stays in flight, and nothing comes back to the table. -/
theorem trans (h : Sheds ordered f f') (h' : Sheds ordered f' f'') : Sheds ordered f f'' where
  slot_eq := h'.slot_eq.trans h.slot_eq
  writes := List.Subset.trans h.writes h'.writes
  keys op hop := h'.keys op (h.keys op hop)
  fate op d hop := by
    rcases h.fate op d hop with ⟨reason, hkept⟩ | ⟨⟨w, hw, hsent⟩, hlow⟩
    · exact h'.fate op { d with reason := reason } hkept
    · refine .inr ⟨⟨w, h'.writes hw, hsent⟩, fun ho op' hlt hslot => ?_⟩
      rw [h'.slot_eq] at hslot
      exact h'.keys op' (hlow ho op' hlt hslot)

end Sheds

/-- The lowest of the appends that share a slot is taken out and handed over. -/
theorem Submit.sheds {ordered : Prop} {f f' : Face S} {op : OpNumber}
    {d : DeferredAppend} {b : Bool}
    (hd : f.deferredAppends.get? op = some d)
    (h : Submit op d.header d.body d.kind
      { f with deferredAppends := f.deferredAppends.erase op } f' b)
    (hlow : ordered → f.Lowest op) : Sheds ordered f f' where
  slot_eq := h.slot_eq
  writes := h.writes
  keys op' hop := by
    have hne : op' ≠ op := by
      rintro rfl
      rw [hd] at hop
      cases hop
    rw [h.get?_of_ne hne, OrdMap.get?_erase, if_neg hne]
    exact hop
  fate op' d' hop := by
    by_cases hne : op' = op
    · subst hne
      obtain rfl : d = d' := Option.some.inj (hd.symm.trans hop)
      cases h with
      | fenced => exact .inl ⟨.slot, OrdMap.get?_insert_self _ _ _⟩
      | exhausted => exact .inl ⟨.quota, OrdMap.get?_insert_self _ _ _⟩
      | sent =>
        refine .inr ⟨⟨_, List.mem_append_right _ (List.mem_singleton.mpr rfl), rfl, rfl, rfl⟩, ?_⟩
        intro ho op'' hlt hslot
        show (f.deferredAppends.erase op').get? op'' = none
        rw [OrdMap.get?_erase, if_neg hlt.ne]
        exact hlow ho op'' hlt hslot
    · refine .inl ⟨d'.reason, ?_⟩
      rw [h.get?_of_ne hne, OrdMap.get?_erase, if_neg hne]
      exact hop

end Face

namespace Node

variable {ordered : Prop} {X : Nat → Prop} {slack : Prop}
variable {n : Node S} {op : OpNumber} {d : DeferredAppend}

theorem resubmitDeferredAppend_sheds (hp : n.panicked = false)
    (hd : n.deferredAppends.get? op = some d) (hlow : ordered → n.face.Lowest op) :
    n.face.Sheds ordered (n.resubmitDeferredAppend op d).1.face :=
  Face.Submit.sheds hd (resubmitDeferredAppend_submit n hp op d) hlow

theorem releaseQuotaFrom_sheds : ∀ (ops : List OpNumber) (n : Node S), n.panicked = false →
    (ordered → ∀ op ∈ ops, Function.Injective n.face.slot) →
    n.face.Sheds ordered (releaseQuotaFrom ops n).face
  | [], n, _, _ => .refl _
  | op :: ops, n, hp, hinj => by
    unfold releaseQuotaFrom
    split
    · exact releaseQuotaFrom_sheds ops n hp fun ho op' hmem =>
        hinj ho op' (List.mem_cons_of_mem op hmem)
    · rename_i d hd
      have hslots := fun ho => hinj ho op List.mem_cons_self
      have hshed := resubmitDeferredAppend_sheds hp hd fun ho op' hlt heq =>
        absurd (hslots ho heq) hlt.ne
      have hp' := (Tables.tending.resubmitDeferredAppend n op d).panicked_eq.trans hp
      dsimp only
      split
      · refine hshed.trans (releaseQuotaFrom_sheds ops _ hp' fun ho op' _ => ?_)
        rw [hshed.slot_eq]
        exact hslots ho
      · exact hshed

theorem releaseQuotaDeferredAppends_sheds (h : ordered → n.face.Parking X slack)
    (hp : n.panicked = false) : n.face.Sheds ordered n.releaseQuotaDeferredAppends.face := by
  refine releaseQuotaFrom_sheds _ n hp fun ho op hop => ?_
  obtain ⟨d, hd⟩ := OrdMap.mem_keys.mp hop
  obtain ⟨hd, hr⟩ := OrdMap.get?_filter_eq_some.mp hd
  exact ((h ho).parked hp).ring op d hd (by simpa using hr)

theorem releaseDeferredAppend_sheds (h : ordered → n.face.Parking X slack) (hp : n.panicked = false)
    (op : OpNumber) : n.face.Sheds ordered (n.releaseDeferredAppend op).face := by
  unfold releaseDeferredAppend
  dsimp only
  split
  · rename_i op' d hfind
    obtain ⟨hd, halias, hleast⟩ := OrdMap.find?_entries_eq_some
      (p := fun k => slotsAlias n.storage.capacity k op) hfind
    have hslot : n.face.slot op' = n.face.slot op := (slotsAlias_iff n op' op).mp halias
    have hlow : n.face.Lowest op' := by
      intro op'' hlt heq
      cases hlower : n.deferredAppends.get? op'' with
      | none => exact hlower
      | some e =>
        have hle := hleast op'' e hlower ((slotsAlias_iff n op'' op).mpr (heq.trans hslot))
        exact absurd hlt (not_lt_of_ge hle)
    have hshed : n.face.Sheds ordered (n.resubmitDeferredAppend op' d).1.face :=
      resubmitDeferredAppend_sheds hp hd fun _ => hlow
    have hp' := (Tables.tending.resubmitDeferredAppend n op' d).panicked_eq.trans hp
    exact hshed.trans
      (releaseQuotaDeferredAppends_sheds (fun ho => resubmitDeferredAppend_parking (h ho) hd) hp')
  · exact releaseQuotaDeferredAppends_sheds h hp

theorem settleCancelled_sheds (n : Node S) (w : WalWrite) :
    n.face.Sheds ordered (n.settleCancelled w).face := by
  rw [face_settleCancelled]
  exact .of_eq rfl rfl rfl

theorem absorbWalCancellations_sheds : ∀ (ws : List WalWrite) (n : Node S),
    (ordered → n.face.Parking (fun k => X k ∨ ∃ w ∈ ws, n.face.slot w.op = k)
      (slack ∨ ws ≠ [])) →
    n.panicked = false → n.face.Sheds ordered (n.absorbWalCancellations ws).face
  | [], n, _, _ => .refl _
  | w :: ws, n, h, hp => by
    rw [absorbWalCancellations_cons]
    have hp' := (Tables.tending.settleCancelled n w).panicked_eq.trans hp
    have hp'' := (Tables.releaseDeferredAppend (n.settleCancelled w) w.op).panicked_eq.trans hp'
    have hpark (ho : ordered) : (n.settleCancelled w).face.Parking
        (fun k => X k ∨ ∃ w' ∈ w :: ws, n.face.slot w'.op = k) (slack ∨ w :: ws ≠ []) := by
      rw [face_settleCancelled]
      exact (h ho).of_eq ⟨rfl, rfl, rfl, rfl, le_refl _, rfl⟩ rfl rfl rfl
    have hone := (settleCancelled_sheds n w).trans (releaseDeferredAppend_sheds hpark hp' w.op)
    refine hone.trans (absorbWalCancellations_sheds ws _ (fun ho => ?_) hp'')
    rw [absorbOne_slot]
    exact (absorbOne_parking (h ho)).mono (fun _ => id) False.elim

/-- Ops are released from the WAL and what that cancels is settled. -/
theorem releasedAbsorbing_sheds (h : ordered → n.face.Parking X slack) (hp : n.panicked = false)
    (p : OpNumber → Bool) : { n with storage := n.storage.release p }.face.Sheds ordered
      ({ n with storage := n.storage.release p }.absorbWalCancellations
        (n.storage.cancelled p)).face :=
  absorbWalCancellations_sheds _ _ (fun ho => release_parking (h ho) p) hp

/-! ## Supersession -/

/-- The moves that make a parked append void, by name. -/
inductive Superseded (op : OpNumber) : Node S → Node S → Prop
  /-- a newer append of the op takes its place -/
  | again (n : Node S) (header : Header) (body : Bytes) (kind : Pending) :
      Superseded op n (n.submitOrDeferAppend op header body kind)
  /-- the op is truncated on the word of a nack quorum -/
  | truncated (n : Node S) (gap : OpNumber) (h : gap ≤ op) : Superseded op n (n.nackTruncated gap)
  /-- the replica's checkpoint covers the op -/
  | subsumed (n : Node S) (floor : OpNumber) (h : op ≤ floor) (hfloor : floor ≤ n.checkpointOp) :
      Superseded op n (n.gcAbsorbing floor)
  /-- a new view or a synced checkpoint starts with empty tables -/
  | reset {n n' : Node S}
      (h : n'.face = { n.face with pending := .empty, deferredAppends := .empty }) :
      Superseded op n n'
  /-- the replica leaves its configuration -/
  | left {n n' : Node S}
      (h : n'.face =
        { n.face with pending := .empty, deferredAppends := .empty, status := .retired }) :
      Superseded op n n'

theorem get?_dropSubsumedAppends : ∀ (ops : List OpNumber) (n : Node S) {op : OpNumber}, op ∉ ops →
    (ops.foldl dropSubsumedAppend n).deferredAppends.get? op = n.deferredAppends.get? op
  | [], _, _, _ => rfl
  | k :: ops, n, op, hop => by
    rw [List.foldl_cons, get?_dropSubsumedAppends ops _ fun h => hop (List.mem_cons_of_mem k h)]
    have herase : (n.dropSubsumedAppend k).deferredAppends = n.deferredAppends.erase k := by
      unfold dropSubsumedAppend
      dsimp only
      split <;> rfl
    rw [herase, OrdMap.get?_erase, if_neg]
    rintro rfl
    exact hop List.mem_cons_self

/-- A checkpoint leaves what is parked above it. -/
theorem gcAbsorbing_fate (h : n.face.Parking X slack) (hp : n.panicked = false)
    {floor op : OpNumber} (hd : n.deferredAppends.get? op = some d) (hlt : floor < op) :
    (n.gcAbsorbing floor).face.Keeps op d ∨ (n.gcAbsorbing floor).face.Sends op d := by
  unfold gcAbsorbing pruneWal
  rw [if_neg (by simp [hp])]
  dsimp only [Storage.prune]
  have hdrop := dropSubsumedAppends_parking
    (n.deferredAppends.filter fun op _ => decide (op ≤ floor)).keys _
    (release_parking h fun op => decide (op < floor + 1))
  have hslot := (Tables.tending.dropSubsumedAppends
    (n.deferredAppends.filter fun op _ => decide (op ≤ floor)).keys
    { n with storage := n.storage.release fun op => decide (op < floor + 1) }).slot_eq
  rw [show n.face.slot = _ from hslot.symm] at hdrop
  refine ((absorbWalCancellations_sheds _ _ (fun _ => hdrop) ?_).fate op d ?_).imp_right
    fun hsent => ⟨hsent.1, hsent.2 trivial⟩
  · exact (Tables.tending.dropSubsumedAppends _ _).panicked_eq.trans hp
  · refine (get?_dropSubsumedAppends _ _ fun hmem => ?_).trans hd
    obtain ⟨e, he⟩ := OrdMap.mem_keys.mp hmem
    have hle := (OrdMap.get?_filter_eq_some.mp he).2
    exact absurd hlt (Nat.not_lt.mpr (of_decide_eq_true hle))

theorem submitOrDeferAppend_get?_of_ne (op : OpNumber) (header : Header) (body : Bytes)
    (kind : Pending) {op' : OpNumber} (hne : op' ≠ op) :
    (n.submitOrDeferAppend op header body kind).deferredAppends.get? op' =
      n.deferredAppends.get? op' := by
  unfold submitOrDeferAppend
  cases hp : n.panicked with
  | true => rw [submitAppendAs, if_pos hp]
  | false => exact (submitAppendAs_submit n hp op header body kind).get?_of_ne hne

variable [StateMachine S] {K : Licence}

/-- A move keeps a parked append, hands it over, or supersedes it. -/
theorem Move.fate {n n' : Node S} (h : Move K n n') (hp : n'.panicked = false)
    (hn : n.face.Parking X slack) (hd : n.deferredAppends.get? op = some d) :
    n'.face.Keeps op d ∨ n'.face.Sends op d ∨ Superseded op n n' := by
  have halive := h.alive hp
  -- the table is the one it was
  have keep (hsame : n'.face.deferredAppends = n.face.deferredAppends) :
      n'.face.Keeps op d ∨ n'.face.Sends op d ∨ Superseded op n n' :=
    .inl ⟨d.reason, by rw [hsame]; exact hd⟩
  -- appends were handed over
  have shed {m : Node S} (hm : m.deferredAppends.get? op = some d)
      (hshed : m.face.Sheds True n'.face) :
      n'.face.Keeps op d ∨ n'.face.Sends op d ∨ Superseded op n n' :=
    (hshed.fate op d hm).imp_right fun hsent => .inl ⟨hsent.1, hsent.2 trivial⟩
  cases h with
  | quiet h | mint h | post _ h | restore _ _ _ _ h | status _ _ h | log _ h | settle _ h
  | checkpoint _ _ h => exact keep (by rw [h])
  | append op' header body kind _ _ =>
    by_cases hop : op = op'
    · subst hop
      exact .inr (.inr (.again n header body kind))
    · refine .inl ⟨d.reason, ?_⟩
      exact (submitOrDeferAppend_get?_of_ne op' header body kind hop).trans hd
  | release op' => exact shed hd (releaseDeferredAppend_sheds (fun _ => hn) halive op')
  | truncate above =>
    refine shed (m := { n with storage := n.storage.release fun op => decide (above < op) }) hd ?_
    unfold truncateAbsorbing truncateWal
    rw [if_neg (by simp [halive])]
    exact releasedAbsorbing_sheds (fun _ => hn) halive _
  | prune below =>
    refine shed (m := { n with storage := n.storage.release fun op => decide (op < below) }) hd ?_
    unfold pruneAbsorbing pruneWal
    rw [if_neg (by simp [halive])]
    exact releasedAbsorbing_sheds (fun _ => hn) halive _
  | gc floor hfloor =>
    by_cases hop : op ≤ floor
    · exact .inr (.inr (.subsumed n floor hop hfloor))
    · exact (gcAbsorbing_fate hn halive hd (Nat.lt_of_not_le hop)).imp_right .inl
  | nack gap =>
    by_cases hop : gap ≤ op
    · exact .inr (.inr (.truncated n gap hop))
    · refine .inl ⟨d.reason, OrdMap.get?_filter_eq_some.mpr ⟨hd, ?_⟩⟩
      exact decide_eq_true (Nat.lt_of_not_le hop)
  | clear h => exact .inr (.inr (.reset h))
  | retire _ h => exact .inr (.inr (.left h))

/-- Somewhere between two states the append was handed over or superseded. -/
def Leaves (K : Licence) (op : OpNumber) (d : DeferredAppend) (n n' : Node S) : Prop :=
  ∃ m m', Moves K n m ∧ m.face.Keeps op d ∧ Move K m m' ∧ Moves K m' n' ∧
    (m'.face.Sends op d ∨ Superseded op m m')

theorem Moves.fate {n n' : Node S} (h : Moves K n n') (hK : ¬ K.late) (hp : n'.panicked = false)
    (hn : n.face.Parking X slack) (hd : n.deferredAppends.get? op = some d) :
    n'.face.Keeps op d ∨ Leaves K op d n n' := by
  induction h with
  | refl => exact .inl ⟨d.reason, hd⟩
  | @tail m n' hm hstep ih =>
    have halive := hstep.alive hp
    rcases ih halive with ⟨reason, hkept⟩ | ⟨k, k', hk, hkept, hmove, hk', hleft⟩
    · have hpark := Moves.parking hm hK hn
      rcases hstep.fate hp hpark hkept with hkeep | hleft
      · exact .inl hkeep
      · exact .inr ⟨m, n', hm, ⟨reason, hkept⟩, hstep, Moves.refl n', hleft⟩
    · exact .inr ⟨k, k', hk, hkept, hmove, Moves.trans hk' (Moves.single hstep), hleft⟩

end Node

end Viewstamp
