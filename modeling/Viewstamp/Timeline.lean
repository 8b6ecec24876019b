import Viewstamp.Storage

/- The root timeline of a storage session, over a superblock that completes the
   writes it was handed, in order.

   A root waits in the cell of its role until the device is free. Submissions
   overwrite the cell of their role, and a parked root may be withdrawn, so what
   reaches the medium is a subsequence of what was submitted. The cells and the
   front are read as one list in stamp order (`timeline`); every call appends to
   that list, deletes from its parked part or takes its head, and each invariant
   of the session is an invariant of the list. -/
namespace Viewstamp

open List

namespace Media

variable {d c : Option RootEntry}

/-- Two parked roots in the order they are released. -/
def inStampOrder : Option RootEntry → Option RootEntry → List RootEntry
  | none, none => []
  | some d, none => [d]
  | none, some c => [c]
  | some d, some c => if d.stamp ≤ c.stamp then [d, c] else [c, d]

def parkedRoots (s : Media) : List RootEntry := inStampOrder s.parkedDurableView s.parkedCheckpoint

/-- The unsettled roots in the order they land. -/
def timeline (s : Media) : List RootEntry := s.rootFront.toList ++ s.parkedRoots

def cell (s : Media) : RootRole → Option RootEntry
  | .durableView => s.parkedDurableView
  | .checkpoint => s.parkedCheckpoint

theorem foldl_later_eq {front d c : Option RootEntry}
    (h : (front.toList ++ inStampOrder d c).Pairwise fun a b => a.stamp < b.stamp) :
    (front.toList ++ d.toList ++ c.toList).foldl later none =
      (front.toList ++ inStampOrder d c).getLast? := by
  cases front with
  | none =>
    cases d with
    | none => cases c <;> rfl
    | some d =>
      cases c with
      | none => rfl
      | some c =>
        simp only [inStampOrder, Option.toList, nil_append, cons_append, foldl, later]
        split <;> rfl
  | some f =>
    cases d with
    | none =>
      cases c with
      | none => rfl
      | some c =>
        have hlt : f.stamp < c.stamp := by simpa [inStampOrder] using h
        simp [inStampOrder, later, Nat.le_of_lt hlt]
    | some d =>
      cases c with
      | none =>
        have hlt : f.stamp < d.stamp := by simpa [inStampOrder] using h
        simp [inStampOrder, later, Nat.le_of_lt hlt]
      | some c =>
        have hlt : f.stamp < d.stamp := by
          refine (pairwise_cons.mp h).1 d ?_
          simp only [inStampOrder]
          split <;> simp
        simp only [inStampOrder, Option.toList, cons_append, nil_append, foldl, later,
          if_pos (Nat.le_of_lt hlt)]
        split <;> rfl

theorem filter_inStampOrder
    (h : (inStampOrder d c).Pairwise fun a b => a.stamp < b.stamp) :
    (inStampOrder d c).filter (fun e => decide (e.stamp ∉ d.toList.map RootEntry.stamp)) =
        inStampOrder none c ∧
      (inStampOrder d c).filter (fun e => decide (e.stamp ∉ c.toList.map RootEntry.stamp)) =
        inStampOrder d none := by
  cases d <;> cases c <;> simp only [inStampOrder] at h ⊢
  · simp
  · simp
  · simp
  · rename_i d c
    by_cases hle : d.stamp ≤ c.stamp
    · rw [if_pos hle] at h ⊢
      have hlt : d.stamp < c.stamp := by simpa using h
      simp [Nat.ne_of_gt hlt, Nat.ne_of_lt hlt]
    · rw [if_neg hle]
      have hlt := Nat.not_le.mp hle
      simp [Nat.ne_of_gt hlt, Nat.ne_of_lt hlt]

/-- With the stamps in order, the effective root is the last of the timeline. -/
theorem effectiveRoot_eq {s : Media} (h : s.timeline.Pairwise fun a b => a.stamp < b.stamp) :
    s.effectiveRoot = (s.timeline.getLast?.map RootEntry.state).getD s.landed := by
  have hlatest : s.latestRoot = s.timeline.getLast? := foldl_later_eq h
  unfold effectiveRoot
  rw [hlatest]
  cases s.timeline.getLast? <;> rfl

end Media

namespace Storage

variable {s : Storage} {e : RootEntry}

def setCell (s : Storage) (role : RootRole) (e : Option RootEntry) : Storage :=
  match role with
  | .durableView => { s with parkedDurableView := e }
  | .checkpoint => { s with parkedCheckpoint := e }

@[simp] theorem rootFront_setCell (s : Storage) (role : RootRole) (e : Option RootEntry) :
    (s.setCell role e).rootFront = s.rootFront := by
  cases role <;> rfl

@[simp] theorem landed_setCell (s : Storage) (role : RootRole) (e : Option RootEntry) :
    (s.setCell role e).landed = s.landed := by
  cases role <;> rfl

@[simp] theorem nextRootStamp_setCell (s : Storage) (role : RootRole) (e : Option RootEntry) :
    (s.setCell role e).nextRootStamp = s.nextRootStamp := by
  cases role <;> rfl

/-- Releasing moves the head of the parked roots to the device. -/
theorem releaseNextRoot_of_parked {rest : List RootEntry}
    (hfront : s.rootFront = none) (h : s.parkedRoots = e :: rest) :
    s.releaseNextRoot.rootFront = some e ∧ s.releaseNextRoot.parkedRoots = rest ∧
      s.releaseNextRoot.landed = s.landed ∧
      s.releaseNextRoot.nextRootStamp = s.nextRootStamp := by
  unfold Media.parkedRoots Media.inStampOrder at h
  unfold releaseNextRoot
  cases hd : s.parkedDurableView with
  | none =>
    cases hc : s.parkedCheckpoint with
    | none => simp [hd, hc] at h
    | some c =>
      obtain ⟨rfl, rfl⟩ : c = e ∧ [] = rest := by simpa [hd, hc] using h
      simp [hfront, Media.parkedRoots, Media.inStampOrder]
  | some d =>
    cases hc : s.parkedCheckpoint with
    | none =>
      obtain ⟨rfl, rfl⟩ : d = e ∧ [] = rest := by simpa [hd, hc] using h
      simp [hfront, Media.parkedRoots, Media.inStampOrder]
    | some c =>
      simp only [hd, hc] at h
      split at h
      · rename_i hle
        cases h
        simp [hfront, hle, Media.parkedRoots, Media.inStampOrder]
      · rename_i hle
        cases h
        simp [hfront, hle, Media.parkedRoots, Media.inStampOrder]

theorem releaseNextRoot_of_empty (h : s.parkedRoots = []) : s.releaseNextRoot = s := by
  obtain ⟨hd, hc⟩ : s.parkedDurableView = none ∧ s.parkedCheckpoint = none := by
    unfold Media.parkedRoots Media.inStampOrder at h
    cases hd : s.parkedDurableView with
    | none =>
      cases hc : s.parkedCheckpoint with
      | none => exact ⟨rfl, rfl⟩
      | some c => simp [hd, hc] at h
    | some d =>
      cases hc : s.parkedCheckpoint with
      | none => simp [hd, hc] at h
      | some c =>
        simp only [hd, hc] at h
        split at h <;> cases h
  unfold releaseNextRoot
  cases s.rootFront with
  | none => simp only [hd, hc]
  | some e => rfl

/-- The parked roots without the one in a cell. -/
def parkedExcept (s : Storage) (role : RootRole) : List RootEntry :=
  s.parkedRoots.filter fun e => decide (e.stamp ∉ (s.cell role).toList.map RootEntry.stamp)

theorem parkedRoots_setCell_none (h : s.parkedRoots.Pairwise fun a b => a.stamp < b.stamp)
    (role : RootRole) : (s.setCell role none).parkedRoots = s.parkedExcept role := by
  cases role with
  | durableView => exact (Media.filter_inStampOrder h).1.symm
  | checkpoint => exact (Media.filter_inStampOrder h).2.symm

/-- A root stamped after all others goes to the end. -/
theorem parkedRoots_setCell_some (h : s.parkedRoots.Pairwise fun a b => a.stamp < b.stamp)
    (role : RootRole) (hlast : ∀ x ∈ s.parkedRoots, x.stamp < e.stamp) :
    (s.setCell role (some e)).parkedRoots = s.parkedExcept role ++ [e] := by
  rw [← parkedRoots_setCell_none h role]
  unfold Media.parkedRoots at *
  cases role with
  | durableView =>
    simp only [setCell]
    generalize s.parkedDurableView = d at h hlast ⊢
    generalize s.parkedCheckpoint = c at h hlast ⊢
    cases c with
    | none => rfl
    | some c =>
      have hlt : c.stamp < e.stamp := by
        refine hlast c ?_
        cases d <;> simp only [Media.inStampOrder]
        · simp
        · split <;> simp
      simp [Media.inStampOrder, Nat.not_le.mpr hlt]
  | checkpoint =>
    simp only [setCell]
    generalize s.parkedDurableView = d at h hlast ⊢
    generalize s.parkedCheckpoint = c at h hlast ⊢
    cases d with
    | none => rfl
    | some d =>
      have hlt : d.stamp < e.stamp := by
        refine hlast d ?_
        cases c <;> simp only [Media.inStampOrder]
        · simp
        · split <;> simp
      simp [Media.inStampOrder, Nat.le_of_lt hlt]

theorem cell_subset {role : RootRole} (h : s.cell role = some e) : e ∈ s.parkedRoots := by
  unfold Media.parkedRoots
  cases role <;> simp only [Media.cell] at h <;> rw [h]
  · cases s.parkedCheckpoint <;> simp only [Media.inStampOrder]
    · simp
    · split <;> simp
  · cases s.parkedDurableView <;> simp only [Media.inStampOrder]
    · simp
    · split <;> simp

end Storage

/-! ## Sessions over an ordered superblock -/

/-- A session and its superblock. `writes` are with the backend, `completed` are durable and wait to
be polled. The last four fields are histories, oldest first. -/
structure RootSession where
  store : Storage
  writes : List RootEntry := []
  completed : List RootEntry := []
  submitted : List RootEntry := []
  handed : List RootEntry := []
  dropped : List Nat := []
  durable : List VsrState

/-- What happens to a root timeline: the calls of an endpoint, its rebuild, and the medium taking
the oldest write. -/
inductive RootCall where
  | submit (role : RootRole) (id : OpId) (state : VsrState)
  | abandon (role : RootRole) (id : OpId)
  | collapse
  | rebuild
  | land
  | poll

/-- The calls without which nothing lands: the medium's step, and polling it. -/
def RootCall.settles : RootCall → Bool
  | .land | .poll => true
  | _ => false

/-- The panics of the session. -/
inductive RootFault where
  | rewinds
  | parkedCompleted
  | neverSubmitted
  deriving DecidableEq

namespace RootSession

/-- A session over a medium with nothing in flight. -/
def opened (store : Storage) : RootSession := { store, durable := [store.landed] }

/-- `release_next_root`: hand the oldest parked root to the backend once nothing is outstanding. -/
def release (s : RootSession) : RootSession :=
  match s.store.rootFront with
  | some _ => s
  | none =>
    let store := s.store.releaseNextRoot
    { s with
      store
      writes := s.writes ++ store.rootFront.toList
      handed := s.handed ++ store.rootFront.toList }

def submit (s : RootSession) (role : RootRole) (id : OpId) (state : VsrState) : RootSession :=
  let entry : RootEntry := ⟨role, id, state, s.store.nextRootStamp⟩
  { s with
    store := { s.store with nextRootStamp := s.store.nextRootStamp + 1 }.setCell role (some entry)
    submitted := s.submitted ++ [entry]
    dropped := s.dropped ++ (s.store.cell role).toList.map RootEntry.stamp }.release

/-- Take the root out of a cell. -/
def clear (s : RootSession) (role : RootRole) : RootSession :=
  { s with
    store := s.store.setCell role none
    dropped := s.dropped ++ (s.store.cell role).toList.map RootEntry.stamp }

def abandon (s : RootSession) (role : RootRole) (id : OpId) : RootSession :=
  if (s.store.cell role).any (fun e => e.id = id) then s.clear role else s

def collapse (s : RootSession) : RootSession := (s.clear .durableView).clear .checkpoint

/-- The medium makes the oldest write durable. -/
def land (s : RootSession) : RootSession :=
  match s.writes with
  | [] => s
  | e :: rest =>
    { s with
      store := { s.store with landed := e.state }
      writes := rest
      completed := s.completed ++ [e]
      durable := s.durable ++ [e.state] }

/-- `poll_sb` on the completion of a root write. -/
def poll (s : RootSession) : Except RootFault RootSession :=
  match s.completed with
  | [] => .ok s
  | e :: rest =>
    if s.store.rootFront.any (fun f => f.id = e.id) then
      .ok { s with store := { s.store with rootFront := none }, completed := rest }.release
    else if s.store.checkpoints.any (fun c => c.id = e.id) then
      .ok { s with
        store := { s.store with checkpoints := s.store.checkpoints.filter fun c => c.id ≠ e.id }
        completed := rest }
    else if s.store.parkedRoots.any (fun f => f.id = e.id) then .error .parkedCompleted
    else .error .neverSubmitted

def step (s : RootSession) : RootCall → Except RootFault RootSession
  | .submit role id state =>
    if s.store.rootAdmissible state then .ok (s.submit role id state) else .error .rewinds
  | .abandon role id => .ok (s.abandon role id)
  | .collapse => .ok s.collapse
  | .rebuild => .ok s.collapse
  | .land => .ok s.land
  | .poll => s.poll

def run (s : RootSession) (calls : List RootCall) : Except RootFault RootSession :=
  calls.foldlM step s

/-! ### The session is the storage of the endpoint -/

variable {s t : RootSession}

theorem release_of_some {e : RootEntry} (h : s.store.rootFront = some e) : s.release = s := by
  unfold release
  rw [h]

theorem release_of_none (h : s.store.rootFront = none) :
    s.release = { s with
      store := s.store.releaseNextRoot
      writes := s.writes ++ s.store.releaseNextRoot.rootFront.toList
      handed := s.handed ++ s.store.releaseNextRoot.rootFront.toList } := by
  unfold release
  rw [h]

/-! ### What every session keeps -/

/-- The roots of a session in terms of its histories: what was submitted and not withdrawn was
handed to the backend or is parked, in submission order. -/
structure Tracked (s : RootSession) : Prop where
  device : s.completed ++ s.writes = s.store.rootFront.toList
  front : ∀ e, s.store.rootFront = some e → s.handed.getLast? = some e
  stamped : ∀ e ∈ s.submitted, e.stamp < s.store.nextRootStamp
  ordered : s.submitted.Pairwise fun a b => a.stamp < b.stamp
  withdrawn : ∀ x ∈ s.dropped, x < s.store.nextRootStamp
  released : s.submitted.filter (fun e => decide (e.stamp ∉ s.dropped)) =
    s.handed ++ s.store.parkedRoots
  landed : s.durable.getLast? = some s.store.landed
  settled : ∀ e ∈ s.completed, s.store.landed = e.state

/-- Between calls roots are parked only behind an outstanding one. -/
structure Sound (s : RootSession) : Prop extends Tracked s where
  idle : s.store.rootFront = none → s.store.parkedRoots = []

namespace Tracked

variable {s : RootSession}

/-- Handed and parked roots are in stamp order. -/
theorem sorted (h : Tracked s) :
    (s.handed ++ s.store.parkedRoots).Pairwise fun a b => a.stamp < b.stamp := by
  rw [← h.released]
  exact h.ordered.filter _

theorem parked_sorted (h : Tracked s) :
    s.store.parkedRoots.Pairwise fun a b => a.stamp < b.stamp :=
  (pairwise_append.mp h.sorted).2.1

theorem timeline_sorted (h : Tracked s) :
    s.store.timeline.Pairwise fun a b => a.stamp < b.stamp := by
  unfold Media.timeline
  cases hfront : s.store.rootFront with
  | none => exact h.parked_sorted
  | some e =>
    have hmem : e ∈ s.handed := mem_of_getLast? (h.front e hfront)
    refine pairwise_cons.mpr ⟨?_, h.parked_sorted⟩
    intro x hx
    exact (pairwise_append.mp h.sorted).2.2 e hmem x hx

theorem parked_stamped (h : Tracked s) :
    ∀ e ∈ s.store.parkedRoots, e.stamp < s.store.nextRootStamp := by
  intro e he
  have hmem : e ∈ s.submitted.filter (fun e => decide (e.stamp ∉ s.dropped)) := by
    rw [h.released]
    exact mem_append_right _ he
  exact h.stamped e (mem_of_mem_filter hmem)

/-- The stamp in a cell is that of a parked root. -/
theorem cell_parked {role : RootRole} {x : Nat}
    (hx : x ∈ (s.store.cell role).toList.map RootEntry.stamp) :
    ∃ e ∈ s.store.parkedRoots, e.stamp = x := by
  rw [mem_map] at hx
  obtain ⟨e, he, rfl⟩ := hx
  exact ⟨e, Storage.cell_subset (Option.mem_toList.mp he), rfl⟩

/-- Withdrawing the root in a cell leaves the handed ones and the other parked ones. -/
theorem released_except (h : Tracked s) (role : RootRole) :
    s.submitted.filter (fun e => decide
        (e.stamp ∉ s.dropped ++ (s.store.cell role).toList.map RootEntry.stamp)) =
      s.handed ++ s.store.parkedExcept role := by
  have hsplit : s.submitted.filter (fun e => decide
        (e.stamp ∉ s.dropped ++ (s.store.cell role).toList.map RootEntry.stamp)) =
      (s.submitted.filter fun e => decide (e.stamp ∉ s.dropped)).filter
        fun e => decide (e.stamp ∉ (s.store.cell role).toList.map RootEntry.stamp) := by
    rw [filter_filter]
    congr 1
    funext e
    simp [mem_append, not_or, Bool.and_comm]
  rw [hsplit, h.released, filter_append]
  congr 1
  rw [filter_eq_self]
  intro e he
  rw [decide_eq_true_eq]
  intro hin
  obtain ⟨x, hx, heq⟩ := cell_parked hin
  have hlt := (pairwise_append.mp h.sorted).2.2 e he x hx
  omega

/-- Releasing restores the rule on parked roots and keeps the timeline. -/
theorem release (h : Tracked s) :
    Sound s.release ∧ s.release.store.timeline = s.store.timeline := by
  cases hfront : s.store.rootFront with
  | some e =>
    rw [release_of_some hfront]
    refine ⟨⟨h, ?_⟩, rfl⟩
    intro hnone
    rw [hfront] at hnone
    cases hnone
  | none =>
    have hdevice := h.device
    rw [hfront] at hdevice
    obtain ⟨hcompleted, hwrites⟩ := append_eq_nil_iff.mp hdevice
    rw [release_of_none hfront]
    cases hparked : s.store.parkedRoots with
    | nil =>
      rw [Storage.releaseNextRoot_of_empty hparked, hfront]
      simp only [Option.toList_none, append_nil]
      exact ⟨⟨h, fun _ => hparked⟩, trivial⟩
    | cons e rest =>
      obtain ⟨hf, hp, hl, hs⟩ := Storage.releaseNextRoot_of_parked hfront hparked
      refine ⟨⟨⟨?_, ?_, ?_, h.ordered, ?_, ?_, ?_, ?_⟩, ?_⟩, ?_⟩
      · simp [hcompleted, hwrites]
      · intro x hx
        simp [show s.store.releaseNextRoot.rootFront = some x from hx]
      · intro x hx
        show x.stamp < s.store.releaseNextRoot.nextRootStamp
        exact hs ▸ h.stamped x hx
      · intro x hx
        show x < s.store.releaseNextRoot.nextRootStamp
        exact hs ▸ h.withdrawn x hx
      · show _ = (s.handed ++ s.store.releaseNextRoot.rootFront.toList) ++
          s.store.releaseNextRoot.parkedRoots
        rw [h.released, hparked, hp, hf]
        simp
      · show s.durable.getLast? = some s.store.releaseNextRoot.landed
        exact hl ▸ h.landed
      · simp [hcompleted]
      · intro hnone
        rw [hf] at hnone
        cases hnone
      · rw [Media.timeline, Media.timeline, hf, hp, hfront, hparked]
        rfl

end Tracked

namespace Sound

variable {s : RootSession}

theorem opened {store : Storage} (h : store.timeline = []) : Sound (opened store) := by
  obtain ⟨hfront, hparked⟩ := append_eq_nil_iff.mp h
  have hnone : store.rootFront = none := by simpa using hfront
  refine ⟨⟨?_, ?_, by simp [RootSession.opened], by simp [RootSession.opened],
    by simp [RootSession.opened], ?_, rfl, by simp [RootSession.opened]⟩, fun _ => hparked⟩
  · simp [RootSession.opened, hnone]
  · intro e he
    rw [RootSession.opened, hnone] at he
    cases he
  · simp [RootSession.opened, hparked]

theorem submit (h : Sound s) (role : RootRole) (id : OpId) (state : VsrState) :
    Sound (s.submit role id state) ∧ (s.submit role id state).store.timeline =
      s.store.rootFront.toList ++ s.store.parkedExcept role ++
        [⟨role, id, state, s.store.nextRootStamp⟩] := by
  let entry : RootEntry := ⟨role, id, state, s.store.nextRootStamp⟩
  let parked : RootSession := { s with
    store := { s.store with nextRootStamp := s.store.nextRootStamp + 1 }.setCell role (some entry)
    submitted := s.submitted ++ [entry]
    dropped := s.dropped ++ (s.store.cell role).toList.map RootEntry.stamp }
  have hparked : parked.store.parkedRoots = s.store.parkedExcept role ++ [entry] :=
    Storage.parkedRoots_setCell_some
      (s := { s.store with nextRootStamp := s.store.nextRootStamp + 1 })
      h.parked_sorted role h.parked_stamped
  have hgone : ∀ x ∈ parked.dropped, x < s.store.nextRootStamp := by
    intro x hx
    rcases mem_append.mp hx with hx | hx
    · exact h.withdrawn x hx
    · obtain ⟨e, he, rfl⟩ := Tracked.cell_parked hx
      exact h.parked_stamped e he
  have htracked : Tracked parked := by
    refine ⟨?_, ?_, ?_, ?_, ?_, ?_, ?_, ?_⟩
    · simpa [parked] using h.device
    · simpa [parked] using h.front
    · intro e he
      have hnext : parked.store.nextRootStamp = s.store.nextRootStamp + 1 := by simp [parked]
      rw [hnext]
      rcases mem_append.mp he with he | he
      · exact Nat.lt_succ_of_lt (h.stamped e he)
      · rw [mem_singleton.mp he]
        exact Nat.lt_succ_self _
    · refine pairwise_append.mpr ⟨h.ordered, pairwise_singleton _ _, ?_⟩
      intro a ha b hb
      rw [mem_singleton.mp hb]
      exact h.stamped a ha
    · intro x hx
      have hnext : parked.store.nextRootStamp = s.store.nextRootStamp + 1 := by simp [parked]
      rw [hnext]
      exact Nat.lt_succ_of_lt (hgone x hx)
    · show (s.submitted ++ [entry]).filter (fun e => decide (e.stamp ∉ parked.dropped)) = _
      have hnew : entry.stamp ∉ parked.dropped := fun hin => Nat.lt_irrefl _ (hgone _ hin)
      rw [filter_append, hparked, ← append_assoc]
      congr 1
      · exact h.released_except role
      · simp [hnew]
    · simpa [parked] using h.landed
    · simpa [parked] using h.settled
  obtain ⟨hsound, hline⟩ := htracked.release
  refine ⟨hsound, hline.trans ?_⟩
  rw [Media.timeline, hparked, append_assoc]
  simp [parked, entry]

theorem parkedExcept_eq_nil (h : Sound s) (role : RootRole) (hfront : s.store.rootFront = none) :
    s.store.parkedExcept role = [] := by
  unfold Storage.parkedExcept
  rw [h.idle hfront]
  rfl

theorem clear (h : Sound s) (role : RootRole) :
    Sound (s.clear role) ∧
      (s.clear role).store.timeline = s.store.rootFront.toList ++ s.store.parkedExcept role := by
  have hparked : (s.clear role).store.parkedRoots = s.store.parkedExcept role :=
    Storage.parkedRoots_setCell_none h.parked_sorted role
  have hfront : (s.clear role).store.rootFront = s.store.rootFront :=
    Storage.rootFront_setCell _ _ _
  have hstamp : (s.clear role).store.nextRootStamp = s.store.nextRootStamp :=
    Storage.nextRootStamp_setCell _ _ _
  have hlanded : (s.clear role).store.landed = s.store.landed := Storage.landed_setCell _ _ _
  refine ⟨⟨⟨?_, ?_, ?_, h.ordered, ?_, ?_, ?_, ?_⟩, ?_⟩, ?_⟩
  · rw [hfront]
    exact h.device
  · rw [hfront]
    exact h.front
  · rw [hstamp]
    exact h.stamped
  · intro x hx
    rw [hstamp]
    rcases mem_append.mp hx with hx | hx
    · exact h.withdrawn x hx
    · obtain ⟨e, he, rfl⟩ := Tracked.cell_parked hx
      exact h.parked_stamped e he
  · rw [hparked]
    exact h.released_except role
  · rw [hlanded]
    exact h.landed
  · rw [hlanded]
    exact h.settled
  · intro hnone
    rw [hparked]
    exact h.parkedExcept_eq_nil role (hfront ▸ hnone)
  · rw [Media.timeline, hfront, hparked]

theorem clear_sublist (h : Sound s) (role : RootRole) :
    (s.clear role).store.timeline.Sublist s.store.timeline := by
  rw [(h.clear role).2]
  exact Sublist.append_left filter_sublist _

theorem abandon (h : Sound s) (role : RootRole) (id : OpId) :
    Sound (s.abandon role id) ∧ (s.abandon role id).store.timeline.Sublist s.store.timeline := by
  unfold RootSession.abandon
  split
  · exact ⟨(h.clear role).1, h.clear_sublist role⟩
  · exact ⟨h, Sublist.refl _⟩

theorem collapse (h : Sound s) :
    Sound s.collapse ∧ s.collapse.store.timeline.Sublist s.store.timeline := by
  have hview := (h.clear .durableView).1
  exact ⟨(hview.clear .checkpoint).1,
    (hview.clear_sublist .checkpoint).trans (h.clear_sublist .durableView)⟩

/-- A write with the backend is the front, and nothing waits to be polled. -/
theorem writing (h : Sound s) {e : RootEntry} {rest : List RootEntry} (hw : s.writes = e :: rest) :
    s.store.rootFront = some e ∧ rest = [] ∧ s.completed = [] := by
  have hdevice := h.device
  cases hfront : s.store.rootFront <;> cases hc : s.completed <;>
    simp [hw, hfront, hc] at hdevice
  exact ⟨by rw [hdevice.1], hdevice.2, rfl⟩

/-- A completed write is the front, and nothing is with the backend. -/
theorem settling (h : Sound s) {e : RootEntry} {rest : List RootEntry}
    (hc : s.completed = e :: rest) :
    s.store.rootFront = some e ∧ rest = [] ∧ s.writes = [] := by
  have hdevice := h.device
  cases hfront : s.store.rootFront <;> simp [hc, hfront] at hdevice
  exact ⟨by rw [hdevice.1], hdevice.2.1, hdevice.2.2⟩

theorem land (h : Sound s) : Sound s.land ∧ s.land.store.timeline = s.store.timeline := by
  unfold RootSession.land
  cases hw : s.writes with
  | nil => exact ⟨h, rfl⟩
  | cons e rest =>
    obtain ⟨hfront, hrest, hcompleted⟩ := h.writing hw
    refine ⟨⟨⟨?_, h.front, h.stamped, h.ordered, h.withdrawn, h.released, ?_, ?_⟩, h.idle⟩, rfl⟩
    · simp [hfront, hrest, hcompleted]
    · simp
    · simp [hcompleted]

/-- The front's completion takes it off the timeline, and neither panic arm is reached. -/
theorem poll (h : Sound s) : ∃ t, s.poll = .ok t ∧ Sound t ∧ t.durable = s.durable ∧
    t.store.timeline = s.store.timeline.drop s.completed.length := by
  unfold RootSession.poll
  cases hc : s.completed with
  | nil => exact ⟨s, rfl, h, rfl, rfl⟩
  | cons e rest =>
    obtain ⟨hfront, hrest, hwrites⟩ := h.settling hc
    have htracked : Tracked { s with
        store := { s.store with rootFront := none }, completed := rest } := by
      refine ⟨?_, ?_, h.stamped, h.ordered, h.withdrawn, h.released, h.landed, ?_⟩
      · simp [hrest, hwrites]
      · intro x hx
        cases hx
      · simp [hrest]
    obtain ⟨hsound, hline⟩ := htracked.release
    refine ⟨_, by simp [hfront], hsound, ?_, ?_⟩
    · rw [release_of_none rfl]
    · rw [hline, Media.timeline, Media.timeline, hfront, hrest]
      rfl

end Sound

/-! ### The durable states and those to come -/

/-- What the medium held, then what it will hold. -/
def line (s : RootSession) : List VsrState := s.durable ++ s.store.timeline.map RootEntry.state

theorem Tracked.getLast?_line (h : Tracked s) : s.line.getLast? = some s.store.effectiveRoot := by
  rw [Media.effectiveRoot_eq h.timeline_sorted, line, getLast?_append, getLast?_map,
    h.landed]
  cases s.store.timeline.getLast? <;> rfl

section Chain

variable {R : VsrState → VsrState → Prop} {s t : RootSession}

/-- What follows the last of a chain extends the chain. -/
theorem pairwise_append_singleton (htrans : ∀ {a b c}, R a b → R b c → R a c)
    {states : List VsrState} {last state : VsrState} (h : states.Pairwise R)
    (hlast : states.getLast? = some last) (hnext : R last state) :
    (states ++ [state]).Pairwise R := by
  refine pairwise_append.mpr ⟨h, pairwise_singleton _ _, ?_⟩
  intro x hx y hy
  rw [mem_singleton.mp hy]
  obtain ⟨front, rfl⟩ := getLast?_eq_some_iff.mp hlast
  rcases mem_append.mp hx with hx | hx
  · exact htrans ((pairwise_append.mp h).2.2 x hx last (mem_singleton_self _)) hnext
  · rw [mem_singleton.mp hx]
    exact hnext

theorem durable_release (s : RootSession) : s.release.durable = s.durable := by
  cases h : s.store.rootFront with
  | some e => rw [release_of_some h]
  | none => rw [release_of_none h]

theorem line_sublist (hdurable : t.durable = s.durable)
    (h : t.store.timeline.Sublist s.store.timeline) : t.line.Sublist s.line := by
  unfold line
  rw [hdurable]
  exact Sublist.append_left (h.map _) _

theorem Sound.line_submit (h : Sound s) (role : RootRole) (id : OpId) (state : VsrState) :
    (s.submit role id state).line.Sublist (s.line ++ [state]) := by
  have hdurable : (s.submit role id state).durable = s.durable := durable_release _
  have hexcept : (s.store.parkedExcept role).Sublist s.store.parkedRoots := filter_sublist
  unfold line
  rw [hdurable, (h.submit role id state).2, Media.timeline]
  simp only [map_append, append_assoc, map_cons, map_nil]
  exact Sublist.append_left (Sublist.append_left
    (Sublist.append_right (hexcept.map _) _) _) _

theorem Sound.line_land (h : Sound s) {e : RootEntry} {rest : List RootEntry}
    (hw : s.writes = e :: rest) :
    s.line = s.durable ++ e.state :: s.store.parkedRoots.map RootEntry.state ∧
      s.land.line = s.durable ++ e.state :: e.state :: s.store.parkedRoots.map RootEntry.state := by
  have hfront := (h.writing hw).1
  have hland : s.land.durable = s.durable ++ [e.state] := by
    unfold RootSession.land
    rw [hw]
  unfold line
  rw [hland, h.land.2, Media.timeline, hfront]
  simp

/-- One call keeps a chain. -/
theorem Sound.line_step (h : Sound s) (hrefl : ∀ a, R a a)
    (htrans : ∀ {a b c}, R a b → R b c → R a c) {call : RootCall} (hstep : s.step call = .ok t)
    (hnext : ∀ role id state, call = .submit role id state →
      s.store.rootAdmissible state = true → R s.store.effectiveRoot state)
    (hline : s.line.Pairwise R) : t.line.Pairwise R := by
  cases call with
  | submit role id state =>
    simp only [step] at hstep
    split at hstep
    · rename_i hadmissible
      cases hstep
      refine Pairwise.sublist (h.line_submit role id state) ?_
      exact pairwise_append_singleton (R := R) htrans hline h.getLast?_line
        (hnext role id state rfl hadmissible)
    · cases hstep
  | abandon role id =>
    cases hstep
    refine hline.sublist (line_sublist ?_ (h.abandon role id).2)
    unfold RootSession.abandon
    split <;> rfl
  | collapse | rebuild =>
    cases hstep
    exact hline.sublist (line_sublist (s := s) rfl h.collapse.2)
  | land =>
    cases hstep
    cases hw : s.writes with
    | nil =>
      have hidle : s.land = s := by
        unfold RootSession.land
        rw [hw]
      rw [hidle]
      exact hline
    | cons e rest =>
      -- the landed state stands twice: durable, and at the front until it is polled
      obtain ⟨hbefore, hafter⟩ := h.line_land hw
      rw [hbefore] at hline
      rw [hafter]
      obtain ⟨hdurable, hrest, hcross⟩ := pairwise_append.mp hline
      refine pairwise_append.mpr ⟨hdurable, pairwise_cons.mpr ⟨?_, hrest⟩, ?_⟩
      · intro x hx
        rcases mem_cons.mp hx with rfl | hx
        · exact hrefl _
        · exact (pairwise_cons.mp hrest).1 x hx
      · intro x hx y hy
        rcases mem_cons.mp hy with rfl | hy
        · exact hcross x hx _ (mem_cons_self ..)
        · exact hcross x hx y hy
  | poll =>
    obtain ⟨u, hpoll, _, hdurable, htimeline⟩ := h.poll
    have heq : u = t := by
      have := hpoll.symm.trans hstep
      cases this
      rfl
    subst heq
    refine hline.sublist (line_sublist hdurable ?_)
    rw [htimeline]
    exact drop_sublist _ _

end Chain

variable {call : RootCall}

theorem Sound.step (h : Sound s) (hstep : s.step call = .ok t) : Sound t := by
  cases call with
  | submit role id state =>
    simp only [RootSession.step] at hstep
    split at hstep
    · cases hstep
      exact (h.submit role id state).1
    · cases hstep
  | abandon role id =>
    cases hstep
    exact (h.abandon role id).1
  | collapse | rebuild =>
    cases hstep
    exact h.collapse.1
  | land =>
    cases hstep
    exact h.land.1
  | poll =>
    obtain ⟨u, hpoll, hsound, _⟩ := h.poll
    cases hpoll.symm.trans hstep
    exact hsound

/-- The no-rewind assertions are the only panic. -/
theorem Sound.fault (h : Sound s) {fault : RootFault} (hstep : s.step call = .error fault) :
    fault = .rewinds := by
  cases call with
  | submit role id state =>
    simp only [RootSession.step] at hstep
    split at hstep
    · cases hstep
    · cases hstep
      rfl
  | poll =>
    obtain ⟨u, hpoll, _⟩ := h.poll
    cases hpoll.symm.trans hstep
  | abandon | collapse | rebuild | land => cases hstep

theorem run_cons (s : RootSession) (call : RootCall) (calls : List RootCall) :
    s.run (call :: calls) = s.step call >>= fun t => t.run calls := rfl

variable {calls : List RootCall}

/-- A run keeps a chain that every admitted submission extends. -/
theorem Sound.run {R : VsrState → VsrState → Prop} (hrefl : ∀ a, R a a)
    (htrans : ∀ {a b c}, R a b → R b c → R a c)
    (hnext : ∀ (store : Storage) role id state, RootCall.submit role id state ∈ calls →
      store.rootAdmissible state = true → R store.effectiveRoot state)
    (h : Sound s) (hrun : s.run calls = .ok t) (hline : s.line.Pairwise R) :
    Sound t ∧ t.line.Pairwise R := by
  induction calls generalizing s with
  | nil =>
    cases hrun
    exact ⟨h, hline⟩
  | cons call calls ih =>
    rw [run_cons] at hrun
    cases hstep : s.step call with
    | error fault =>
      rw [hstep] at hrun
      cases hrun
    | ok u =>
      rw [hstep] at hrun
      refine ih ?_ (h.step hstep) hrun (h.line_step hrefl htrans hstep ?_ hline)
      · intro store role id state hmem
        exact hnext store role id state (mem_cons_of_mem _ hmem)
      · intro role id state hcall
        exact hnext s.store role id state (hcall ▸ mem_cons_self ..)

theorem Sound.run_fault {fault : RootFault} (h : Sound s) (hrun : s.run calls = .error fault) :
    fault = .rewinds := by
  induction calls generalizing s with
  | nil => cases hrun
  | cons call calls ih =>
    rw [run_cons] at hrun
    cases hstep : s.step call with
    | error fault =>
      rw [hstep] at hrun
      cases hrun
      exact h.fault hstep
    | ok u =>
      rw [hstep] at hrun
      exact ih (h.step hstep) hrun

/-! ### Draining -/

theorem Sound.completed_line (h : Sound s) {e : RootEntry} {rest : List RootEntry}
    (hc : s.completed = e :: rest) :
    s.line.getLast? = (s.durable ++ s.store.parkedRoots.map RootEntry.state).getLast? := by
  have hfront := (h.settling hc).1
  have hstate : s.store.landed = e.state := h.settled e (hc ▸ mem_cons_self ..)
  unfold line
  rw [Media.timeline, hfront]
  simp only [Option.toList_some, cons_append, nil_append, map_cons,
    getLast?_append, getLast?_cons, h.landed, hstate]
  cases (s.store.parkedRoots.map RootEntry.state).getLast? <;> rfl

/-- Settling moves roots from the timeline to the medium and changes nothing to come. -/
theorem Sound.settle (h : Sound s) (hcall : call.settles = true) :
    ∃ t, s.step call = .ok t ∧ t.store.effectiveRoot = s.store.effectiveRoot := by
  have hroot : ∀ {t : RootSession}, Sound t → t.line.getLast? = s.line.getLast? →
      t.store.effectiveRoot = s.store.effectiveRoot := by
    intro t ht hlast
    rw [ht.getLast?_line, h.getLast?_line] at hlast
    exact Option.some.inj hlast
  cases call with
  | submit | abandon | collapse | rebuild => cases hcall
  | land =>
    refine ⟨s.land, rfl, hroot h.land.1 ?_⟩
    cases hw : s.writes with
    | nil =>
      unfold RootSession.land
      rw [hw]
    | cons e rest =>
      obtain ⟨hbefore, hafter⟩ := h.line_land hw
      rw [hbefore, hafter]
      simp
  | poll =>
    obtain ⟨t, hpoll, hsound, hdurable, htimeline⟩ := h.poll
    refine ⟨t, hpoll, hroot hsound ?_⟩
    cases hc : s.completed with
    | nil =>
      rw [hc] at htimeline
      unfold line
      rw [hdurable, htimeline]
      rfl
    | cons e rest =>
      obtain ⟨hfront, hrest, _⟩ := h.settling hc
      rw [h.completed_line hc]
      unfold line
      rw [hdurable, htimeline, hc, hrest, Media.timeline, hfront]
      rfl

theorem Sound.run_settle (h : Sound s) (hcalls : ∀ call ∈ calls, call.settles = true) :
    ∃ t, s.run calls = .ok t ∧ Sound t ∧ t.store.effectiveRoot = s.store.effectiveRoot := by
  induction calls generalizing s with
  | nil => exact ⟨s, rfl, h, rfl⟩
  | cons call calls ih =>
    obtain ⟨u, hstep, hroot⟩ := h.settle (hcalls call (mem_cons_self ..))
    obtain ⟨t, hrun, hsound, hrest⟩ :=
      ih (h.step hstep) fun call hmem => hcalls call (mem_cons_of_mem _ hmem)
    refine ⟨t, ?_, hsound, hrest.trans hroot⟩
    rw [run_cons, hstep]
    exact hrun

/-- A drained session holds its effective root. -/
theorem effectiveRoot_of_drained (h : s.store.timeline = []) :
    s.store.effectiveRoot = s.store.landed := by
  have hsorted : s.store.timeline.Pairwise fun a b => a.stamp < b.stamp := h ▸ Pairwise.nil
  rw [Media.effectiveRoot_eq hsorted, h]
  rfl

/-- The medium's step and a poll take one root off the timeline. -/
theorem Sound.settle_one (h : Sound s) :
    ∃ t, s.run [.land, .poll] = .ok t ∧ Sound t ∧ t.store.timeline = s.store.timeline.drop 1 := by
  obtain ⟨hland, hline⟩ := h.land
  obtain ⟨t, hpoll, hsound, _, htimeline⟩ := hland.poll
  refine ⟨t, ?_, hsound, ?_⟩
  · show (s.land.poll >>= fun t => pure t) = _
    rw [hpoll]
    rfl
  · rw [htimeline, hline]
    cases hw : s.writes with
    | cons e rest =>
      have hcompleted := (h.writing hw).2.2
      simp [RootSession.land, hw, hcompleted]
    | nil =>
      have hidle : s.land.completed = s.completed := by
        unfold RootSession.land
        rw [hw]
      rw [hidle]
      cases hc : s.completed with
      | cons e rest =>
        rw [(h.settling hc).2.1]
        rfl
      | nil =>
        have hfront : s.store.rootFront = none := by
          have hdevice := h.device
          rw [hc, hw] at hdevice
          cases hf : s.store.rootFront with
          | none => rfl
          | some f =>
            rw [hf] at hdevice
            cases hdevice
        have hempty : s.store.timeline = [] := by
          rw [Media.timeline, hfront, h.idle hfront]
          rfl
        rw [hempty]
        rfl

theorem run_append (h : s.run calls = .ok t) (more : List RootCall) :
    s.run (calls ++ more) = t.run more := by
  unfold RootSession.run at h ⊢
  rw [foldlM_append, h]
  rfl

theorem Sound.settle_all (h : Sound s) (n : Nat) :
    ∃ t, s.run (replicate n [RootCall.land, RootCall.poll]).flatten = .ok t ∧
      t.store.timeline = s.store.timeline.drop n := by
  induction n generalizing s with
  | zero => exact ⟨s, rfl, rfl⟩
  | succ n ih =>
    obtain ⟨u, hone, hsound, hline⟩ := h.settle_one
    obtain ⟨t, hrest, hlast⟩ := ih hsound
    refine ⟨t, ?_, ?_⟩
    · rw [replicate_succ, flatten_cons, run_append hone]
      exact hrest
    · rw [hlast, hline, drop_drop, Nat.add_comm]

theorem Sound.writes_length (h : Sound s) : (s.completed ++ s.writes).length ≤ 1 := by
  rw [h.device]
  cases s.store.rootFront <;> simp

end RootSession

theorem Media.parkedRoots_length (s : Media) : s.parkedRoots.length ≤ 2 := by
  unfold parkedRoots inStampOrder
  split
  · simp
  · simp
  · simp
  · split <;> simp

theorem Media.timeline_length (s : Media) : s.timeline.length ≤ 3 := by
  have hparked := s.parkedRoots_length
  unfold timeline
  cases s.rootFront with
  | none => simpa using Nat.le_succ_of_le hparked
  | some e => simpa using Nat.succ_le_succ hparked

/-! ## What lands never rewinds -/

namespace VsrState

/-- The part of a root that no later root lowers. -/
structure Advances (a b : VsrState) : Prop where
  view : a.view ≤ b.view
  checkpointOp : a.checkpointOp ≤ b.checkpointOp
  epoch : a.epoch ≤ b.epoch

/-- A root after one that carries a configuration carries it on, or one of a later epoch. -/
structure Follows (a b : VsrState) : Prop extends Advances a b where
  installed : a.membership.isSome → a.configInstallOp ≤ b.configInstallOp
  carried : a.membership.isSome → b.membership.isSome
  unchanged : a.epoch = b.epoch → a.membership.isSome →
    a.membership.map Membership.configId = b.membership.map Membership.configId

theorem Advances.refl (a : VsrState) : Advances a a := ⟨le_rfl, le_rfl, le_rfl⟩

theorem Advances.trans {a b c : VsrState} (h : Advances a b) (h' : Advances b c) : Advances a c :=
  ⟨Nat.le_trans h.view h'.view, Nat.le_trans h.checkpointOp h'.checkpointOp,
    Nat.le_trans h.epoch h'.epoch⟩

theorem Follows.refl (a : VsrState) : Follows a a :=
  ⟨.refl a, fun _ => le_rfl, id, fun _ _ => rfl⟩

theorem Follows.trans {a b c : VsrState} (h : Follows a b) (h' : Follows b c) : Follows a c := by
  refine ⟨Advances.trans h.toAdvances h'.toAdvances, ?_, fun ha => h'.carried (h.carried ha), ?_⟩
  · intro ha
    exact Nat.le_trans (h.installed ha) (h'.installed (h.carried ha))
  · intro hepoch ha
    -- the epoch in between is squeezed
    have hab : a.epoch = b.epoch := le_antisymm h.epoch (hepoch ▸ h'.epoch)
    have hbc : b.epoch = c.epoch := hab.symm.trans hepoch
    exact (h.unchanged hab ha).trans (h'.unchanged hbc (h.carried ha))

end VsrState

namespace Media

variable {s : Media} {state : VsrState}

theorem advances_of_rootAdmissible (h : s.rootAdmissible state = true) :
    s.effectiveRoot.Advances state := by
  unfold rootAdmissible at h
  simp only [Bool.and_eq_true, decide_eq_true_eq] at h
  exact ⟨h.1.1.1.1, h.1.1.1.2, h.1.1.2⟩

theorem follows_of_rootAdmissible (h : s.rootAdmissible state = true)
    (hstate : state.membership.isSome) : s.effectiveRoot.Follows state := by
  refine ⟨advances_of_rootAdmissible h, ?_, fun _ => hstate, ?_⟩
  · intro hcur
    unfold rootAdmissible at h
    simp only [Bool.and_eq_true, Bool.or_eq_true, decide_eq_true_eq] at h
    rcases h.2 with hnone | hle
    · rw [Option.isNone_iff_eq_none] at hnone
      rw [hnone] at hcur
      cases hcur
    · exact hle
  · intro hepoch hcur
    obtain ⟨cur, hcur⟩ := Option.isSome_iff_exists.mp hcur
    obtain ⟨new, hnew⟩ := Option.isSome_iff_exists.mp hstate
    unfold rootAdmissible at h
    simp only [Bool.and_eq_true, Bool.or_eq_true, decide_eq_true_eq, hcur, hnew] at h
    rcases h.1.2 with hne | heq
    · exact absurd hepoch.symm hne
    · rw [hcur, hnew]
      simpa using (beq_iff_eq.mp heq).symm

end Media

/-- Every root the calls submit carries a membership. -/
def Configured (calls : List RootCall) : Prop :=
  ∀ role id state, RootCall.submit role id state ∈ calls → state.membership.isSome

open RootSession in
/-- The root timeline: what lands never rewinds, one root is written at a time and at most two wait,
the roots are written in the order of their submission, a drained session holds its effective root,
and the only panic is that of a rewinding submission. -/
theorem root_timeline (store : Storage) (hopen : store.timeline = []) (calls : List RootCall) :
    match (opened store).run calls with
    | .error fault => fault = .rewinds
    | .ok s =>
      s.durable.Pairwise VsrState.Advances ∧
      (Configured calls → s.durable.Pairwise VsrState.Follows) ∧
      (s.completed ++ s.writes).length ≤ 1 ∧ s.store.parkedRoots.length ≤ 2 ∧
      s.submitted.Pairwise (fun a b => a.stamp < b.stamp) ∧
      s.submitted.filter (fun e => decide (e.stamp ∉ s.dropped)) =
        s.handed ++ s.store.parkedRoots ∧
      (∀ rest : List RootCall, (∀ call ∈ rest, call.settles = true) → ∃ t, s.run rest = .ok t ∧
        (t.store.timeline = [] → t.store.landed = s.store.effectiveRoot)) ∧
      ∃ rest : List RootCall, (∀ call ∈ rest, call.settles = true) ∧
        ∃ t, s.run rest = .ok t ∧ t.store.timeline = [] := by
  have hsound : Sound (opened store) := .opened hopen
  have hline : (opened store).line = [store.landed] := by
    rw [line, opened, hopen]
    rfl
  cases hrun : (opened store).run calls with
  | error fault => exact hsound.run_fault hrun
  | ok s =>
    have hstart : ∀ R : VsrState → VsrState → Prop, (opened store).line.Pairwise R := by
      intro R
      rw [hline]
      exact pairwise_singleton _ _
    obtain ⟨h, hadvances⟩ := hsound.run VsrState.Advances.refl VsrState.Advances.trans
      (fun _ _ _ _ _ => Media.advances_of_rootAdmissible) hrun (hstart _)
    refine ⟨(pairwise_append.mp hadvances).1, ?_, h.writes_length, s.store.parkedRoots_length,
      h.ordered, h.released, ?_, ?_⟩
    · intro hconfigured
      have hfollows := (hsound.run VsrState.Follows.refl VsrState.Follows.trans
        (fun _ role id state hmem hadmissible =>
          Media.follows_of_rootAdmissible hadmissible (hconfigured role id state hmem))
        hrun (hstart _)).2
      exact (pairwise_append.mp hfollows).1
    · intro rest hrest
      obtain ⟨t, hsettled, _, hroot⟩ := h.run_settle hrest
      refine ⟨t, hsettled, ?_⟩
      intro hdrained
      rw [← hroot, effectiveRoot_of_drained hdrained]
    · obtain ⟨t, hsettled, htimeline⟩ := h.settle_all 3
      refine ⟨_, ?_, t, hsettled, ?_⟩
      · decide
      · rw [htimeline, drop_eq_nil_of_le s.store.timeline_length]

/-- A root of the first epoch with the configuration of the given members. -/
def rootOf (members : List MemberId) (checkpointOp configInstallOp : OpNumber) : Option VsrState :=
  (Membership.genesis members.length 0 members).toOption.bind fun m =>
    (VsrState.tryNewV4 0 0 checkpointOp checkpointOp 0 [] 0 0 m [] configInstallOp checkpointOp
      0 0).toOption

def firstRoot : VsrState := (rootOf [7] 0 5).get (by decide +kernel)

def bareRoot : VsrState := (VsrState.tryNew 0 0 5 5 0 []).toOption.get (by decide +kernel)

def secondRoot : VsrState := (rootOf [8] 5 0).get (by decide +kernel)

open RootSession in
theorem root_timeline_configured :
    (opened { capacity := 8 }).store.timeline = [] ∧
    match (opened { capacity := 8 }).run
      [.submit .durableView ⟨1, 1⟩ firstRoot, .submit .checkpoint ⟨1, 2⟩ firstRoot,
       .land, .poll] with
    | .error fault => fault = .rewinds
    | .ok s =>
      s.durable.Pairwise VsrState.Advances ∧ s.durable.Pairwise VsrState.Follows := by
  have hcalls : Configured [.submit .durableView ⟨1, 1⟩ firstRoot,
      .submit .checkpoint ⟨1, 2⟩ firstRoot, .land, .poll] := by
    intro role id state hmem
    simp at hmem
    rcases hmem with ⟨_, _, rfl⟩ | ⟨_, _, rfl⟩ <;> decide +kernel
  have h := root_timeline { capacity := 8 } rfl [.submit .durableView ⟨1, 1⟩ firstRoot,
    .submit .checkpoint ⟨1, 2⟩ firstRoot, .land, .poll]
  refine ⟨rfl, ?_⟩
  split
  · rename_i hrun
    rw [hrun] at h
    exact h
  · rename_i hrun
    rw [hrun] at h
    exact ⟨h.1, h.2.1 hcalls⟩

open RootSession in
/-- A root without a membership between two with one: the install op falls, and the configuration
changes within an epoch. -/
theorem bare_root_rewinds :
    ((opened { capacity := 8 }).run
        [.submit .durableView ⟨1, 1⟩ firstRoot, .land, .poll, .submit .checkpoint ⟨1, 2⟩ bareRoot,
          .land, .poll, .submit .durableView ⟨1, 3⟩ secondRoot,
          .land, .poll]).toOption.map durable =
      some [.blank, firstRoot, bareRoot, secondRoot] ∧
    secondRoot.configInstallOp < firstRoot.configInstallOp ∧
    secondRoot.epoch = firstRoot.epoch ∧
    secondRoot.membership.map Membership.configId ≠
      firstRoot.membership.map Membership.configId := by
  decide +kernel

end Viewstamp
