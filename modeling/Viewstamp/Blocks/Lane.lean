import Viewstamp.Endpoint

/- The block lane.

   An endpoint issues block jobs into the front of the lane and an executor takes them
   from it, runs them and hands their completions back. The front belongs to the
   storage session, so it outlives the endpoint: a successor finds what its predecessor
   queued. It bounds its depth by one cell for each kind of job, and by a set of ids for
   the serves, and it accepts completions in issue order only.

   `Site` puts the parties together: the front, the endpoint that mints the ids, and the
   executor with the jobs it has taken, the completions it has not delivered and its
   cursor. The histories at its end are ghosts: the ids of the jobs admitted, taken,
   executed and settled, oldest first, and the last sweep the front did not refuse. -/
namespace Viewstamp.Lane

open List

/-! ## Jobs -/

inductive BlockJobTag where
  | materialize
  | flush
  | gc
  | serve
  | restore
  | walk
  deriving DecidableEq

/-- What a job carries. The image, the seed and the frontiers are opaque to the lane. -/
inductive BlockJobKind (Image Seed Walks : Type) where
  | materialize (image : Image)
  | flush (smRoot sessionsRoot : BlockAddress)
  | gc (smRoots sessionRoots : List BlockAddress)
  | serve (peer : Peer) (addr : BlockAddress)
  | restore (smRoot sessionsRoot : BlockAddress) (seed : Seed) (purpose : RestorePurpose)
  | walk (walks : Walks) (fetched : Option (BlockAddress × Bytes)) (purpose : WalkPurpose)
  deriving DecidableEq

section
variable {Image Seed Walks : Type}

def BlockJobKind.tag : BlockJobKind Image Seed Walks → BlockJobTag
  | .materialize _ => .materialize
  | .flush _ _ => .flush
  | .gc _ _ => .gc
  | .serve _ _ => .serve
  | .restore _ _ _ _ => .restore
  | .walk _ _ _ => .walk

end

structure BlockJob (Image Seed Walks : Type) where
  id : OpId
  kind : BlockJobKind Image Seed Walks
  deriving DecidableEq

/-- What the lane reads of a completion. -/
structure BlockJobDone where
  id : OpId
  tag : BlockJobTag
  deriving DecidableEq

variable {Image Seed Walks : Type}

/-- `execute_block_job` answers a job under its id, with the output of its kind. -/
def BlockJob.done (j : BlockJob Image Seed Walks) : BlockJobDone := ⟨j.id, j.kind.tag⟩

/-! ## The front -/

def singletonKinds : Nat := 5

def maxBlockJobsInFlight : Nat := singletonKinds + maxOutstandingBlockServes

def materializeSlot : Fin singletonKinds := ⟨0, by decide⟩
def flushSlot : Fin singletonKinds := ⟨1, by decide⟩
def gcSlot : Fin singletonKinds := ⟨2, by decide⟩
def restoreSlot : Fin singletonKinds := ⟨3, by decide⟩
def walkSlot : Fin singletonKinds := ⟨4, by decide⟩

/-- The cell a kind occupies and the name the assertions call it by; a serve has none. -/
def singleton : BlockJobTag → Option (Fin singletonKinds × String)
  | .materialize => some (materializeSlot, "image capture")
  | .flush => some (flushSlot, "durability barrier")
  | .gc => some (gcSlot, "sweep")
  | .restore => some (restoreSlot, "reconstruct")
  | .walk => some (walkSlot, "frontier walk")
  | .serve => none

/-- The assertions of the lane and of its cursor. -/
inductive LaneFault where
  /-- A serve was queued past the cap. -/
  | serveCap
  /-- A second job of the kind was queued while the lane still owes one. -/
  | secondQueued (noun : String) (held : OpId)
  /-- A completion out of issue order. -/
  | outOfOrder (expected : Option OpId)
  /-- The lane never admitted the job this completion answers. -/
  | neverAdmitted (noun : String)
  /-- A job was executed out of issue order. -/
  | executedOutOfOrder (next last : OpId)
  deriving DecidableEq

structure LaneFront (Image Seed Walks : Type) where
  jobs : List (BlockJob Image Seed Walks) := []
  outstanding : List OpId := []
  singletons : Fin singletonKinds → Option OpId := fun _ => none
  serves : List OpId := []
  sweepsCoalesced : Nat := 0
  sweepsDropped : Nat := 0

/-- Give the queued job of this id another payload; `none` when no such job is queued. -/
def replaceKind (id : OpId) (kind : BlockJobKind Image Seed Walks) :
    List (BlockJob Image Seed Walks) → Option (List (BlockJob Image Seed Walks))
  | [] => none
  | j :: js =>
    if j.id = id then some ({ j with kind := kind } :: js)
    else (replaceKind id kind js).map (j :: ·)

namespace LaneFront

def owesCompletion (f : LaneFront Image Seed Walks) : Bool := !f.outstanding.isEmpty
def materializeOwed (f : LaneFront Image Seed Walks) : Bool := (f.singletons materializeSlot).isSome
def flushOwed (f : LaneFront Image Seed Walks) : Bool := (f.singletons flushSlot).isSome
def restoreOwed (f : LaneFront Image Seed Walks) : Bool := (f.singletons restoreSlot).isSome
def walkOwed (f : LaneFront Image Seed Walks) : Bool := (f.singletons walkSlot).isSome
def servesOutstanding (f : LaneFront Image Seed Walks) : Nat := f.serves.length

/-- The tail every admitted job passes through. -/
def queue (f : LaneFront Image Seed Walks) (job : BlockJob Image Seed Walks) :
    LaneFront Image Seed Walks :=
  { f with outstanding := f.outstanding ++ [job.id], jobs := f.jobs ++ [job] }

/-- Take the cell of a kind and queue its job. -/
def occupy (f : LaneFront Image Seed Walks) (slot : Fin singletonKinds)
    (job : BlockJob Image Seed Walks) : LaneFront Image Seed Walks :=
  { f with singletons := Function.update f.singletons slot (some job.id) }.queue job

/-- The sweep has no gate: a queued one takes the newer roots, a running one drops them. -/
def enqueueSweep (f : LaneFront Image Seed Walks) (job : BlockJob Image Seed Walks) :
    LaneFront Image Seed Walks :=
  match f.singletons gcSlot with
  | none => f.occupy gcSlot job
  | some queued =>
    match replaceKind queued job.kind f.jobs with
    | some jobs => { f with jobs, sweepsCoalesced := saturatingSucc f.sweepsCoalesced }
    | none => { f with sweepsDropped := saturatingSucc f.sweepsDropped }

def enqueue (f : LaneFront Image Seed Walks) (id : OpId) (kind : BlockJobKind Image Seed Walks) :
    Except LaneFault (LaneFront Image Seed Walks) :=
  let job : BlockJob Image Seed Walks := ⟨id, kind⟩
  match singleton kind.tag with
  | none =>
    if f.serves.length < maxOutstandingBlockServes then
      .ok ({ f with serves := f.serves ++ [id] }.queue job)
    else .error .serveCap
  | some (slot, noun) =>
    if slot = gcSlot then .ok (f.enqueueSweep job)
    else
      match f.singletons slot with
      | none => .ok (f.occupy slot job)
      | some held => .error (.secondQueued noun held)

def poll (f : LaneFront Image Seed Walks) :
    Option (BlockJob Image Seed Walks × LaneFront Image Seed Walks) :=
  match f.jobs with
  | [] => none
  | job :: jobs => some (job, { f with jobs })

/-- Free the cell, or the cap entry, that the completed job held. -/
def release (f : LaneFront Image Seed Walks) (done : BlockJobDone) :
    Except LaneFault (LaneFront Image Seed Walks) :=
  match singleton done.tag with
  | some (slot, noun) =>
    if f.singletons slot = some done.id then
      .ok { f with singletons := Function.update f.singletons slot none }
    else .error (.neverAdmitted noun)
  | none =>
    if done.id ∈ f.serves then .ok { f with serves := f.serves.erase done.id }
    else .error (.neverAdmitted "serve")

def settle (f : LaneFront Image Seed Walks) (done : BlockJobDone) :
    Except LaneFault (LaneFront Image Seed Walks) :=
  match f.outstanding with
  | [] => .error (.outOfOrder none)
  | expected :: outstanding =>
    if expected = done.id then { f with outstanding }.release done
    else .error (.outOfOrder (some expected))

end LaneFront

/-- The order of `(incarnation, sequence)` pairs. -/
def Before (a b : OpId) : Prop :=
  a.incarnation < b.incarnation ∨ (a.incarnation = b.incarnation ∧ a.seq < b.seq)

instance : DecidableRel Before := fun _ _ => inferInstanceAs (Decidable (_ ∨ _))

structure BlockJobCursor where
  last : Option OpId := none
  deriving DecidableEq

def BlockJobCursor.admitJob (c : BlockJobCursor) (id : OpId) : Except LaneFault BlockJobCursor :=
  match c.last with
  | none => .ok ⟨some id⟩
  | some last => if Before last id then .ok ⟨some id⟩ else .error (.executedOutOfOrder id last)

/-! ## A store with its endpoint and its executor -/

structure Site (Image Seed Walks : Type) where
  front : LaneFront Image Seed Walks := {}
  incarnation : Nat
  nextOpId : Nat := 1
  taken : List (BlockJob Image Seed Walks) := []
  answers : List BlockJobDone := []
  cursor : BlockJobCursor := {}
  issued : List OpId := []
  polled : List OpId := []
  executed : List OpId := []
  settled : List OpId := []
  lastSweep : Option (BlockJobKind Image Seed Walks) := none

inductive Call (Image Seed Walks : Type) where
  /-- The endpoint mints an id for a write or a read. -/
  | mint
  | enqueue (kind : BlockJobKind Image Seed Walks)
  | poll
  /-- The executor runs the oldest job it has taken. -/
  | execute
  | settle (done : BlockJobDone)
  /-- A new endpoint takes over the session. -/
  | rebuild (incarnation : Nat)

namespace Site

variable (s : Site Image Seed Walks)

/-- A sweep has been taken and not settled. -/
def sweepRunning : Bool :=
  (s.answers ++ s.taken.map BlockJob.done).any fun d => d.tag == .gc

/-- What the callers see to: the gates of the kinds, the order of the completions, and fresh
incarnations. -/
def Allows : Call Image Seed Walks → Prop
  | .mint | .poll | .execute => True
  | .enqueue kind =>
    match kind.tag with
    | .materialize => s.front.materializeOwed = false
    | .flush => s.front.flushOwed = false
    | .gc => True
    | .serve => s.front.servesOutstanding < maxOutstandingBlockServes
    | .restore => s.front.restoreOwed = false
    | .walk => s.front.walkOwed = false
  | .settle done => s.answers.head? = some done
  | .rebuild incarnation => s.incarnation < incarnation

def step : Call Image Seed Walks → Except LaneFault (Site Image Seed Walks)
  | .mint => .ok { s with nextOpId := s.nextOpId + 1 }
  | .enqueue kind => do
    let front ← s.front.enqueue ⟨s.incarnation, s.nextOpId⟩ kind
    .ok { s with
      front
      nextOpId := s.nextOpId + 1
      issued := s.issued ++ (front.jobs.drop s.front.jobs.length).map BlockJob.id
      lastSweep := if kind.tag = .gc && !s.sweepRunning then some kind else s.lastSweep }
  | .poll =>
    match s.front.poll with
    | none => .ok s
    | some (job, front) =>
      .ok { s with front, taken := s.taken ++ [job], polled := s.polled ++ [job.id] }
  | .execute =>
    match s.taken with
    | [] => .ok s
    | job :: taken => do
      let cursor ← s.cursor.admitJob job.id
      .ok { s with
        cursor, taken, answers := s.answers ++ [job.done], executed := s.executed ++ [job.id] }
  | .settle done => do
    let front ← s.front.settle done
    .ok { s with front, answers := s.answers.tail, settled := s.settled ++ [done.id] }
  | .rebuild incarnation => .ok { s with incarnation, nextOpId := 1 }

end Site

theorem replaceKind_eq_some {id : OpId} {kind : BlockJobKind Image Seed Walks} :
    ∀ {jobs jobs' : List (BlockJob Image Seed Walks)}, replaceKind id kind jobs = some jobs' →
      ∃ before j after, jobs = before ++ j :: after ∧ j.id = id ∧
        jobs' = before ++ { j with kind } :: after
  | [], _, h => nomatch h
  | j :: js, jobs', h => by
    unfold replaceKind at h
    split at h
    · rename_i hid
      cases h
      exact ⟨[], j, js, rfl, hid, rfl⟩
    · obtain ⟨js', hjs, rfl⟩ := Option.map_eq_some_iff.mp h
      obtain ⟨before, k, after, rfl, hid, rfl⟩ := replaceKind_eq_some hjs
      exact ⟨j :: before, k, after, rfl, hid, rfl⟩

theorem replaceKind_eq_none {id : OpId} {kind : BlockJobKind Image Seed Walks} :
    ∀ {jobs : List (BlockJob Image Seed Walks)}, replaceKind id kind jobs = none →
      ∀ j ∈ jobs, j.id ≠ id
  | [], _, _, hj => nomatch hj
  | k :: js, h, j, hj => by
    unfold replaceKind at h
    split at h
    · cases h
    · rename_i hid
      rcases mem_cons.mp hj with rfl | hj
      · exact hid
      · exact replaceKind_eq_none (Option.map_eq_none_iff.mp h) j hj

/-- The ways a job can fare at the front. -/
inductive Enqueued (f : LaneFront Image Seed Walks) (job : BlockJob Image Seed Walks) :
    LaneFront Image Seed Walks → Prop
  | serve (ht : job.kind.tag = .serve) (hcap : f.serves.length < maxOutstandingBlockServes) :
      Enqueued f job ({ f with serves := f.serves ++ [job.id] }.queue job)
  | cell {slot : Fin singletonKinds} {noun : String}
      (ht : singleton job.kind.tag = some (slot, noun)) (hfree : f.singletons slot = none) :
      Enqueued f job (f.occupy slot job)
  | coalesced {queued : OpId} {jobs : List (BlockJob Image Seed Walks)} (ht : job.kind.tag = .gc)
      (hq : f.singletons gcSlot = some queued)
      (hr : replaceKind queued job.kind f.jobs = some jobs) :
      Enqueued f job { f with jobs, sweepsCoalesced := saturatingSucc f.sweepsCoalesced }
  | dropped {queued : OpId} (ht : job.kind.tag = .gc) (hq : f.singletons gcSlot = some queued)
      (hr : replaceKind queued job.kind f.jobs = none) :
      Enqueued f job { f with sweepsDropped := saturatingSucc f.sweepsDropped }

/-- No two kinds share a cell. -/
theorem singleton_injective {a b : BlockJobTag} {slot : Fin singletonKinds} {noun noun' : String}
    (ha : singleton a = some (slot, noun)) (hb : singleton b = some (slot, noun')) : a = b := by
  have hcell : (singleton a).map Prod.fst = (singleton b).map Prod.fst := by rw [ha, hb]; rfl
  have hsome : (singleton a).isSome = true := by rw [ha]; rfl
  clear ha hb
  revert hcell hsome
  cases a <;> cases b <;> decide

namespace LaneFront

variable {f f' : LaneFront Image Seed Walks}

theorem enqueueSweep_enqueued {job : BlockJob Image Seed Walks} (ht : job.kind.tag = .gc) :
    Enqueued f job (f.enqueueSweep job) := by
  unfold enqueueSweep
  split
  · rename_i hfree
    have hcell : singleton job.kind.tag = some (gcSlot, "sweep") := by
      rw [ht]
      rfl
    exact .cell hcell hfree
  · rename_i queued hq
    split
    · rename_i jobs hr
      exact .coalesced ht hq hr
    · rename_i hr
      exact .dropped ht hq hr

theorem enqueue_enqueued {id : OpId} {kind : BlockJobKind Image Seed Walks}
    (h : f.enqueue id kind = .ok f') : Enqueued f ⟨id, kind⟩ f' := by
  unfold enqueue at h
  dsimp only at h
  split at h
  · rename_i ht
    split at h
    · rename_i hcap
      cases h
      refine .serve ?_ hcap
      show kind.tag = .serve
      cases hk : kind.tag <;> rw [hk] at ht <;> first | rfl | cases ht
    · cases h
  · rename_i slot noun ht
    split at h
    · rename_i hslot
      cases h
      subst hslot
      exact enqueueSweep_enqueued (singleton_injective ht (b := .gc) rfl)
    · split at h
      · rename_i hfree
        cases h
        exact .cell ht hfree
      · cases h

end LaneFront

/-! ## The books of the front -/

theorem Before.irrefl (a : OpId) : ¬ Before a a := by
  rintro (h | ⟨-, h⟩)
  · exact Nat.lt_irrefl _ h
  · exact Nat.lt_irrefl _ h

theorem Before.trans {a b c : OpId} (h : Before a b) (h' : Before b c) : Before a c := by
  rcases h with h | ⟨he, h⟩ <;> rcases h' with h' | ⟨he', h'⟩
  · exact .inl (h.trans h')
  · exact .inl (he' ▸ h)
  · exact .inl (he ▸ h')
  · exact .inr ⟨he.trans he', h.trans h'⟩

theorem nodup_of_ascending {ids : List OpId} (h : ids.Pairwise Before) : ids.Nodup := by
  refine h.imp ?_
  rintro a _ hab rfl
  exact Before.irrefl a hab

/-- The front accounts for these jobs, oldest first. -/
structure Accounts (f : LaneFront Image Seed Walks) (held : List BlockJobDone) : Prop where
  outstanding : f.outstanding = held.map BlockJobDone.id
  cells : ∀ tag slot noun, singleton tag = some (slot, noun) → ∀ id,
    f.singletons slot = some id ↔ ⟨id, tag⟩ ∈ held
  serves : f.serves = (held.filter fun d => d.tag = .serve).map BlockJobDone.id
  cap : f.serves.length ≤ maxOutstandingBlockServes

namespace Accounts

variable {f f' : LaneFront Image Seed Walks} {held : List BlockJobDone}
variable {noun : String}

theorem congr (h : Accounts f held) (ho : f'.outstanding = f.outstanding)
    (hc : f'.singletons = f.singletons) (hs : f'.serves = f.serves) : Accounts f' held := by
  refine ⟨ho.trans h.outstanding, ?_, hs.trans h.serves, hs ▸ h.cap⟩
  rw [hc]
  exact h.cells

variable {slot : Fin singletonKinds}

/-- An empty cell says that no such job is held. -/
theorem free {tag : BlockJobTag} (h : Accounts f held) (ht : singleton tag = some (slot, noun)) :
    f.singletons slot = none ↔ ∀ d ∈ held, d.tag ≠ tag := by
  constructor
  · rintro hnone ⟨id, _⟩ hd rfl
    rw [← h.cells _ _ _ ht, hnone] at hd
    cases hd
  · intro hno
    cases hcell : f.singletons slot with
    | none => rfl
    | some id => exact absurd rfl (hno _ ((h.cells tag slot noun ht id).mp hcell))

/-- Two held jobs of one single-slot kind have one id. -/
theorem id_eq {tag : BlockJobTag} {a b : OpId} (h : Accounts f held)
    (ht : singleton tag = some (slot, noun)) (ha : ⟨a, tag⟩ ∈ held) (hb : ⟨b, tag⟩ ∈ held) :
    a = b := by
  rw [← h.cells _ _ _ ht] at ha hb
  exact Option.some.inj (ha.symm.trans hb)

theorem serve {job : BlockJob Image Seed Walks} (h : Accounts f held)
    (ht : job.kind.tag = .serve) (hcap : f.serves.length < maxOutstandingBlockServes) :
    Accounts ({ f with serves := f.serves ++ [job.id] }.queue job) (held ++ [job.done]) where
  outstanding := by simp [LaneFront.queue, h.outstanding, BlockJob.done]
  cells tag slot noun htag id := by
    have hne : tag ≠ job.kind.tag := by
      rintro rfl
      rw [ht] at htag
      cases htag
    rw [mem_append, mem_singleton]
    constructor
    · exact fun hcell => .inl ((h.cells tag slot noun htag id).mp hcell)
    · rintro (hold | hnew)
      · exact (h.cells tag slot noun htag id).mpr hold
      · exact absurd (congrArg BlockJobDone.tag hnew) hne
  serves := by simp [LaneFront.queue, h.serves, BlockJob.done, ht]
  cap := by
    show (f.serves ++ [job.id]).length ≤ _
    rw [length_append]
    exact hcap

theorem occupy {job : BlockJob Image Seed Walks} (h : Accounts f held)
    (ht : singleton job.kind.tag = some (slot, noun)) (hfree : f.singletons slot = none) :
    Accounts (f.occupy slot job) (held ++ [job.done]) where
  outstanding := by simp [LaneFront.occupy, LaneFront.queue, h.outstanding, BlockJob.done]
  cells tag slot' noun' htag id := by
    show Function.update f.singletons slot (some job.id) slot' = some id ↔ _
    rw [mem_append, mem_singleton]
    by_cases hslot : slot' = slot
    · subst hslot
      obtain rfl := singleton_injective htag ht
      have hno := (h.free ht).mp hfree
      rw [Function.update_self]
      constructor
      · intro hid
        cases hid
        exact .inr rfl
      · rintro (hold | hnew)
        · exact absurd rfl (hno _ hold)
        · exact congrArg (fun d => some d.id) hnew.symm
    · rw [Function.update_of_ne hslot, h.cells tag slot' noun' htag id]
      refine ⟨.inl, fun hmem => hmem.resolve_right fun hnew => hslot ?_⟩
      have htag' : tag = job.kind.tag := congrArg BlockJobDone.tag hnew
      rw [htag', ht] at htag
      exact (congrArg Prod.fst (Option.some.inj htag)).symm
  serves := by
    have hne : job.kind.tag ≠ .serve := by
      intro hserve
      rw [hserve] at ht
      cases ht
    show f.serves = _
    rw [h.serves]
    simp [BlockJob.done, hne]
  cap := h.cap

/-- The oldest job is settled: it frees what it held, and no assertion fires. -/
theorem settle {d : BlockJobDone} (h : Accounts f (d :: held))
    (hids : ((d :: held).map BlockJobDone.id).Nodup) :
    ∃ f', f.settle d = .ok f' ∧ Accounts f' held ∧ f'.jobs = f.jobs := by
  have hfresh : ∀ d' ∈ held, d'.id ≠ d.id := by
    intro d' hd' heq
    exact (nodup_cons.mp hids).1 (mem_map.mpr ⟨d', hd', heq⟩)
  have hout : f.outstanding = d.id :: held.map BlockJobDone.id := h.outstanding
  have hsettle : f.settle d =
      { f with outstanding := held.map BlockJobDone.id }.release d := by
    unfold LaneFront.settle
    rw [hout]
    exact if_pos rfl
  rw [hsettle]
  unfold LaneFront.release
  cases ht : singleton d.tag with
  | some cell =>
    obtain ⟨slot, noun⟩ := cell
    have hcell : f.singletons slot = some d.id :=
      (h.cells d.tag slot noun ht d.id).mpr mem_cons_self
    refine ⟨_, if_pos hcell, ⟨rfl, ?_, ?_, h.cap⟩, rfl⟩
    · intro tag slot' noun' htag id
      show Function.update f.singletons slot none slot' = some id ↔ _
      by_cases hslot : slot' = slot
      · subst hslot
        obtain rfl := singleton_injective ht htag
        rw [Function.update_self]
        refine ⟨nofun, fun hmem => ?_⟩
        have heq := h.id_eq ht (mem_cons_self (a := d)) (mem_cons_of_mem d hmem)
        exact absurd heq.symm (hfresh _ hmem)
      · rw [Function.update_of_ne hslot, h.cells tag slot' noun' htag id, mem_cons]
        refine ⟨fun hmem => hmem.resolve_left fun heq => hslot ?_, .inr⟩
        have htag' : tag = d.tag := congrArg BlockJobDone.tag heq
        rw [htag', ht] at htag
        exact (congrArg Prod.fst (Option.some.inj htag)).symm
    · have hne : d.tag ≠ .serve := by
        intro hserve
        rw [hserve] at ht
        cases ht
      show f.serves = _
      rw [h.serves]
      simp [hne]
  | none =>
    have hserve : d.tag = .serve := by
      cases htag : d.tag <;> rw [htag] at ht <;> first | rfl | cases ht
    have hserves : f.serves =
        d.id :: (held.filter fun d => d.tag = .serve).map BlockJobDone.id := by
      rw [h.serves]
      simp [hserve]
    have hmem : d.id ∈ f.serves := hserves ▸ mem_cons_self
    refine ⟨_, if_pos hmem, ⟨rfl, ?_, ?_, ?_⟩, rfl⟩
    · intro tag slot noun htag id
      show f.singletons slot = some id ↔ _
      rw [h.cells tag slot noun htag id, mem_cons]
      refine ⟨fun hmem => hmem.resolve_left fun heq => ?_, .inr⟩
      rw [show tag = d.tag from congrArg BlockJobDone.tag heq, ht] at htag
      cases htag
    · show f.serves.erase d.id = _
      rw [hserves, erase_cons_head]
    · show (f.serves.erase d.id).length ≤ _
      exact (length_erase_le).trans h.cap

end Accounts

namespace Site

variable {s s' : Site Image Seed Walks}

/-- The jobs whose completion the lane is owed, oldest first. -/
def held (s : Site Image Seed Walks) : List BlockJobDone :=
  s.answers ++ s.taken.map BlockJob.done ++ s.front.jobs.map BlockJob.done

structure Books (s : Site Image Seed Walks) : Prop where
  accounts : Accounts s.front s.held
  issued : s.issued = s.settled ++ s.held.map BlockJobDone.id
  polled : s.polled = s.settled ++ (s.answers ++ s.taken.map BlockJob.done).map BlockJobDone.id
  executed : s.executed = s.settled ++ s.answers.map BlockJobDone.id
  ascending : s.issued.Pairwise Before
  minted : ∀ id ∈ s.issued, Before id ⟨s.incarnation, s.nextOpId⟩
  cursor : s.cursor.last = s.executed.getLast?
  sweep : ∀ j ∈ s.front.jobs, j.kind.tag = .gc → s.lastSweep = some j.kind

namespace Books

theorem ids_nodup (h : s.Books) : (s.held.map BlockJobDone.id).Nodup := by
  have hids := nodup_of_ascending h.ascending
  rw [h.issued] at hids
  exact (nodup_append.mp hids).2.1

theorem jobs_nodup (h : s.Books) : (s.front.jobs.map BlockJob.id).Nodup := by
  have hall := h.ids_nodup
  rw [held, map_append] at hall
  simpa [Function.comp_def, BlockJob.done] using (nodup_append.mp hall).2.1

/-- A held job is known by its id. -/
theorem eq_of_id (h : s.Books) {a b : BlockJobDone} (ha : a ∈ s.held) (hb : b ∈ s.held)
    (hid : a.id = b.id) : a = b :=
  inj_on_of_nodup_map h.ids_nodup ha hb hid

variable {j job : BlockJob Image Seed Walks}

/-- A job is not both queued and taken. -/
theorem queued_not_taken (h : s.Books) (hj : j ∈ s.front.jobs) {d : BlockJobDone}
    (hd : d ∈ s.answers ++ s.taken.map BlockJob.done) : d.id ≠ j.id := by
  have hids := h.ids_nodup
  rw [held, map_append] at hids
  have hdisj := (nodup_append.mp hids).2.2
  exact hdisj d.id (mem_map_of_mem hd) j.id
    (mem_map.mpr ⟨j.done, mem_map_of_mem hj, rfl⟩)

theorem sweepRunning_iff (s : Site Image Seed Walks) : s.sweepRunning = true ↔
    ∃ id, (⟨id, .gc⟩ : BlockJobDone) ∈ s.answers ++ s.taken.map BlockJob.done := by
  unfold sweepRunning
  rw [any_eq_true]
  constructor
  · rintro ⟨⟨id, tag⟩, hd, htag⟩
    obtain rfl : tag = .gc := by simpa using htag
    exact ⟨id, hd⟩
  · rintro ⟨id, hd⟩
    exact ⟨_, hd, rfl⟩

/-- While a sweep is queued none is running, and it is the only one queued. -/
theorem queued_sweep (h : s.Books) (hj : j ∈ s.front.jobs) (ht : j.kind.tag = .gc) :
    s.front.singletons gcSlot = some j.id ∧ s.sweepRunning = false := by
  have hheld : (⟨j.id, .gc⟩ : BlockJobDone) ∈ s.held := by
    rw [← ht]
    exact mem_append_right _ (mem_map_of_mem hj)
  refine ⟨(h.accounts.cells .gc gcSlot "sweep" rfl j.id).mpr hheld, ?_⟩
  rw [← Bool.not_eq_true, sweepRunning_iff]
  rintro ⟨id, hd⟩
  have hid := h.accounts.id_eq (show singleton .gc = some (gcSlot, "sweep") from rfl)
    (mem_append_left _ hd) hheld
  exact h.queued_not_taken hj hd hid

theorem only_sweep (h : s.Books) {before after : List (BlockJob Image Seed Walks)}
    (hjobs : s.front.jobs = before ++ j :: after) (ht : j.kind.tag = .gc)
    (k : BlockJob Image Seed Walks) (hk : k ∈ before ++ after) : k.kind.tag ≠ .gc := by
  intro hgc
  have hperm : Perm s.front.jobs (j :: (before ++ after)) := hjobs ▸ perm_middle
  have hcell (i : BlockJob Image Seed Walks) (hi : i ∈ j :: (before ++ after))
      (hgc : i.kind.tag = .gc) : s.front.singletons gcSlot = some i.id :=
    (h.queued_sweep (hperm.mem_iff.mpr hi) hgc).1
  have hsame : some k.id = some j.id :=
    (hcell k (mem_cons_of_mem j hk) hgc).symm.trans (hcell j mem_cons_self ht)
  have hnodup := (hperm.map BlockJob.id).nodup_iff.mp h.jobs_nodup
  rw [map_cons] at hnodup
  exact (nodup_cons.mp hnodup).1 (mem_map.mpr ⟨k, hk, Option.some.inj hsame⟩)

variable {front : LaneFront Image Seed Walks}

/-- A job joins the queue under the id just minted. -/
theorem enqueue_admitted (h : s.Books)
    {lastSweep : Option (BlockJobKind Image Seed Walks)}
    (hid : job.id = ⟨s.incarnation, s.nextOpId⟩) (hjobs : front.jobs = s.front.jobs ++ [job])
    (hacc : Accounts front (s.held ++ [job.done]))
    (hsweep : ∀ j ∈ front.jobs, j.kind.tag = .gc → lastSweep = some j.kind) :
    Books { s with
      front
      nextOpId := s.nextOpId + 1
      issued := s.issued ++ (front.jobs.drop s.front.jobs.length).map BlockJob.id
      lastSweep } := by
  have hheld : s.answers ++ s.taken.map BlockJob.done ++ front.jobs.map BlockJob.done =
      s.held ++ [job.done] := by
    simp [held, hjobs]
  have hdrop : (front.jobs.drop s.front.jobs.length).map BlockJob.id = [job.id] := by
    simp [hjobs]
  rw [hdrop]
  have hnext (id : OpId) (hmem : id ∈ s.issued ++ [job.id]) :
      Before id ⟨s.incarnation, s.nextOpId + 1⟩ := by
    have hlast : Before ⟨s.incarnation, s.nextOpId⟩ ⟨s.incarnation, s.nextOpId + 1⟩ :=
      .inr ⟨rfl, Nat.lt_succ_self _⟩
    rcases mem_append.mp hmem with hold | hnew
    · exact (h.minted id hold).trans hlast
    · rw [mem_singleton.mp hnew, hid]
      exact hlast
  refine ⟨?_, ?_, h.polled, h.executed, ?_, hnext, h.cursor, hsweep⟩
  · rw [← hheld] at hacc
    exact hacc
  · show s.issued ++ [job.id] = s.settled ++ map BlockJobDone.id
      (s.answers ++ s.taken.map BlockJob.done ++ front.jobs.map BlockJob.done)
    rw [hheld, map_append, ← append_assoc, ← h.issued]
    rfl
  · refine pairwise_append.mpr ⟨h.ascending, pairwise_singleton _ _, ?_⟩
    intro a ha b hb
    rw [mem_singleton.mp hb, hid]
    exact h.minted a ha

/-- A call that admits nothing spends an id. -/
theorem spend (h : s.Books)
    {lastSweep : Option (BlockJobKind Image Seed Walks)}
    (hjobs : front.jobs.map BlockJob.done = s.front.jobs.map BlockJob.done)
    (hacc : Accounts front s.held)
    (hsweep : ∀ j ∈ front.jobs, j.kind.tag = .gc → lastSweep = some j.kind) :
    Books { s with
      front
      nextOpId := s.nextOpId + 1
      issued := s.issued ++ (front.jobs.drop s.front.jobs.length).map BlockJob.id
      lastSweep } := by
  have hlen : front.jobs.length = s.front.jobs.length := by
    simpa using congrArg length hjobs
  have hdrop : (front.jobs.drop s.front.jobs.length).map BlockJob.id = [] := by
    rw [← hlen, drop_length, map_nil]
  have hheld : s.answers ++ s.taken.map BlockJob.done ++ front.jobs.map BlockJob.done = s.held := by
    rw [held, hjobs]
  rw [hdrop, append_nil]
  refine ⟨?_, ?_, h.polled, h.executed, h.ascending, ?_, h.cursor, hsweep⟩
  · rw [← hheld] at hacc
    exact hacc
  · have hissued := h.issued
    rw [← hheld] at hissued
    exact hissued
  · intro id hmem
    exact (h.minted id hmem).trans (.inr ⟨rfl, Nat.lt_succ_self _⟩)

theorem enqueued (h : s.Books) {kind : BlockJobKind Image Seed Walks}
    (he : Enqueued s.front ⟨⟨s.incarnation, s.nextOpId⟩, kind⟩ front) :
    Books { s with
      front
      nextOpId := s.nextOpId + 1
      issued := s.issued ++ (front.jobs.drop s.front.jobs.length).map BlockJob.id
      lastSweep := if kind.tag = .gc && !s.sweepRunning then some kind else s.lastSweep } := by
  cases he with
  | serve ht hcap =>
    change kind.tag = .serve at ht
    refine h.enqueue_admitted rfl rfl (h.accounts.serve ht hcap) fun j hj hgc => ?_
    rw [ht]
    rcases mem_append.mp hj with hold | hnew
    · exact h.sweep j hold hgc
    · rw [mem_singleton.mp hnew] at hgc
      exact absurd (ht.symm.trans hgc) nofun
  | @cell slot noun ht hfree =>
    change singleton kind.tag = some (slot, noun) at ht
    refine h.enqueue_admitted rfl rfl (h.accounts.occupy ht hfree) fun j hj hgc => ?_
    have hno := (h.accounts.free ht).mp hfree
    rcases mem_append.mp hj with hold | hnew
    · -- a queued sweep would hold the cell this job takes
      have hne : kind.tag ≠ .gc := by
        intro hkind
        have hmem : j.done ∈ s.held := mem_append_right _ (mem_map_of_mem hold)
        exact hno _ hmem (hgc.trans hkind.symm)
      rw [if_neg (by simp [hne])]
      exact h.sweep j hold hgc
    · rw [mem_singleton.mp hnew] at hgc ⊢
      change kind.tag = .gc at hgc
      have hidle : s.sweepRunning = false := by
        rw [← Bool.not_eq_true, sweepRunning_iff]
        rintro ⟨id, hd⟩
        exact hno _ (mem_append_left _ hd) hgc.symm
      rw [if_pos (by simp [hgc, hidle])]
  | @coalesced queued jobs ht hq hr =>
    change kind.tag = .gc at ht
    obtain ⟨before, j, after, hjobs, hid, rfl⟩ := replaceKind_eq_some hr
    have hj : j ∈ s.front.jobs := by rw [hjobs]; simp
    have hheld : (⟨queued, .gc⟩ : BlockJobDone) ∈ s.held :=
      (h.accounts.cells .gc gcSlot "sweep" rfl queued).mp hq
    have hjgc : j.kind.tag = .gc := by
      have hdone := h.eq_of_id (mem_append_right _ (mem_map_of_mem hj)) hheld hid
      exact congrArg BlockJobDone.tag hdone
    have hidle := (h.queued_sweep hj hjgc).2
    refine h.spend ?_ (h.accounts.congr rfl rfl rfl) fun k hk hgc => ?_
    · rw [hjobs]
      simp [BlockJob.done, ht, hjgc]
    · rw [if_pos (by simp [ht, hidle])]
      have hother := h.only_sweep hjobs hjgc k
      rcases mem_append.mp hk with hm | hm
      · exact absurd hgc (hother (mem_append_left _ hm))
      · rcases mem_cons.mp hm with rfl | hm
        · rfl
        · exact absurd hgc (hother (mem_append_right _ hm))
  | @dropped queued ht hq hr =>
    change kind.tag = .gc at ht
    have hrunning : s.sweepRunning = true := by
      rw [sweepRunning_iff]
      refine ⟨queued, ?_⟩
      have hheld := (h.accounts.cells .gc gcSlot "sweep" rfl queued).mp hq
      rcases mem_append.mp hheld with hd | hd
      · exact hd
      · obtain ⟨j, hj, hdone⟩ := mem_map.mp hd
        exact absurd (congrArg BlockJobDone.id hdone) (replaceKind_eq_none hr j hj)
    refine h.spend rfl (h.accounts.congr rfl rfl rfl) fun k hk hgc => ?_
    rw [if_neg (by simp [hrunning])]
    exact h.sweep k hk hgc

theorem start (incarnation : Nat) : Books ({ incarnation } : Site Image Seed Walks) where
  accounts := ⟨rfl, fun _ _ _ _ _ => ⟨nofun, nofun⟩, rfl, Nat.zero_le _⟩
  issued := rfl
  polled := rfl
  executed := rfl
  ascending := .nil
  minted := nofun
  cursor := rfl
  sweep := nofun

theorem poll (h : s.Books) (hpoll : s.front.poll = some (job, front)) :
    Books { s with front, taken := s.taken ++ [job], polled := s.polled ++ [job.id] } := by
  unfold LaneFront.poll at hpoll
  split at hpoll
  · cases hpoll
  · rename_i job' jobs hjobs
    cases hpoll
    have hheld : s.answers ++ (s.taken ++ [job]).map BlockJob.done ++ jobs.map BlockJob.done =
        s.held := by
      simp [held, hjobs]
    refine ⟨?_, ?_, ?_, h.executed, h.ascending, h.minted, h.cursor, ?_⟩
    · have hacc := h.accounts.congr
        (show ({ s.front with jobs } : LaneFront Image Seed Walks).outstanding
          = s.front.outstanding from rfl) rfl rfl
      rw [← hheld] at hacc
      exact hacc
    · have hissued := h.issued
      rw [← hheld] at hissued
      exact hissued
    · show s.polled ++ [job.id] = _
      rw [h.polled]
      simp [BlockJob.done]
    · exact fun j hj => h.sweep j (hjobs ▸ mem_cons_of_mem job hj)

/-- The cursor admits the oldest job taken. -/
theorem follows (h : s.Books) {taken : List (BlockJob Image Seed Walks)}
    (htaken : s.taken = job :: taken) : s.cursor.admitJob job.id = .ok ⟨some job.id⟩ := by
  have hasc := h.ascending
  have hissued : s.issued = s.executed ++ (job.id :: (taken.map BlockJob.done ++
      s.front.jobs.map BlockJob.done).map BlockJobDone.id) := by
    rw [h.issued, h.executed, held, htaken]
    simp [BlockJob.done]
  rw [hissued] at hasc
  unfold BlockJobCursor.admitJob
  split
  · rfl
  · rename_i last hlast
    have hmem : last ∈ s.executed := mem_of_getLast? (h.cursor.symm.trans hlast)
    exact if_pos ((pairwise_append.mp hasc).2.2 last hmem job.id mem_cons_self)

theorem execute (h : s.Books)
    {taken : List (BlockJob Image Seed Walks)} (htaken : s.taken = job :: taken) :
    Books { s with
      cursor := ⟨some job.id⟩
      taken
      answers := s.answers ++ [job.done]
      executed := s.executed ++ [job.id] } := by
  have hall : s.answers ++ [job.done] ++ taken.map BlockJob.done =
      s.answers ++ s.taken.map BlockJob.done := by
    simp [htaken]
  have hheld : s.answers ++ [job.done] ++ taken.map BlockJob.done ++
      s.front.jobs.map BlockJob.done = s.held := by
    rw [hall, held]
  refine ⟨?_, ?_, ?_, ?_, h.ascending, h.minted, ?_, h.sweep⟩
  · have hacc := h.accounts
    rw [← hheld] at hacc
    exact hacc
  · have hissued := h.issued
    rw [← hheld] at hissued
    exact hissued
  · have hpolled := h.polled
    rw [← hall] at hpolled
    exact hpolled
  · show s.executed ++ [job.id] = _
    rw [h.executed]
    simp [BlockJob.done]
  · show some job.id = (s.executed ++ [job.id]).getLast?
    rw [getLast?_concat]

theorem settle (h : s.Books) {done : BlockJobDone} (hdone : s.answers.head? = some done) :
    ∃ front, s.front.settle done = .ok front ∧
      Books { s with front, answers := s.answers.tail, settled := s.settled ++ [done.id] } := by
  obtain ⟨answers, hanswers⟩ : ∃ answers, s.answers = done :: answers :=
    head?_eq_some_iff.mp hdone
  have hheld : s.held = done :: (answers ++ s.taken.map BlockJob.done ++
      s.front.jobs.map BlockJob.done) := by
    rw [held, hanswers]
    rfl
  have hacc := h.accounts
  have hids := h.ids_nodup
  rw [hheld] at hacc hids
  obtain ⟨front, hfront, hacc', hjobs⟩ := hacc.settle hids
  refine ⟨front, hfront, ?_⟩
  rw [hanswers, tail_cons]
  refine ⟨?_, ?_, ?_, ?_, h.ascending, h.minted, h.cursor, ?_⟩
  · rw [← hjobs] at hacc'
    exact hacc'
  · show s.issued = (s.settled ++ [done.id]) ++ map BlockJobDone.id
      (answers ++ s.taken.map BlockJob.done ++ front.jobs.map BlockJob.done)
    rw [h.issued, hheld, hjobs]
    simp
  · show s.polled = _
    rw [h.polled, hanswers]
    simp
  · show s.executed = _
    rw [h.executed, hanswers]
    simp
  · intro j hj
    exact h.sweep j (hjobs ▸ hj)

theorem rebuild (h : s.Books) {incarnation : Nat} (hlt : s.incarnation < incarnation) :
    Books { s with incarnation, nextOpId := 1 } :=
  ⟨h.accounts, h.issued, h.polled, h.executed, h.ascending,
    fun id hid => by
      rcases h.minted id hid with hinc | ⟨hinc, -⟩
      · exact .inl (hinc.trans hlt)
      · exact .inl (hinc.trans_lt hlt),
    h.cursor, h.sweep⟩

theorem mint (h : s.Books) : Books { s with nextOpId := s.nextOpId + 1 } :=
  ⟨h.accounts, h.issued, h.polled, h.executed, h.ascending,
    fun id hid => (h.minted id hid).trans (.inr ⟨rfl, Nat.lt_succ_self _⟩), h.cursor, h.sweep⟩

end Books

theorem enqueue_ok {kind : BlockJobKind Image Seed Walks} (hc : s.Allows (.enqueue kind))
    (id : OpId) : ∃ front, s.front.enqueue id kind = .ok front := by
  have hcell {slot : Fin singletonKinds} (h : (s.front.singletons slot).isSome = false) :
      s.front.singletons slot = none := by
    simpa using h
  unfold Allows at hc
  unfold LaneFront.enqueue
  cases kind with
  | materialize image =>
    have hfree : s.front.singletons materializeSlot = none := hcell hc
    simp only [BlockJobKind.tag, singleton, hfree]
    exact ⟨_, rfl⟩
  | flush smRoot sessionsRoot =>
    have hfree : s.front.singletons flushSlot = none := hcell hc
    simp only [BlockJobKind.tag, singleton, hfree]
    exact ⟨_, rfl⟩
  | gc smRoots sessionRoots => exact ⟨_, rfl⟩
  | serve peer addr => exact ⟨_, if_pos hc⟩
  | restore smRoot sessionsRoot seed purpose =>
    have hfree : s.front.singletons restoreSlot = none := hcell hc
    simp only [BlockJobKind.tag, singleton, hfree]
    exact ⟨_, rfl⟩
  | walk walks fetched purpose =>
    have hfree : s.front.singletons walkSlot = none := hcell hc
    simp only [BlockJobKind.tag, singleton, hfree]
    exact ⟨_, rfl⟩

/-- An allowed call fires no assertion and keeps the books. -/
theorem Books.step (h : s.Books) {c : Call Image Seed Walks} (hc : s.Allows c) :
    ∃ s', s.step c = .ok s' ∧ s'.Books := by
  cases c with
  | mint => exact ⟨_, rfl, h.mint⟩
  | enqueue kind =>
    obtain ⟨front, hfront⟩ := enqueue_ok hc ⟨s.incarnation, s.nextOpId⟩
    refine ⟨_, ?_, h.enqueued (LaneFront.enqueue_enqueued hfront)⟩
    unfold Site.step
    dsimp only
    rw [hfront]
    rfl
  | poll =>
    unfold Site.step
    cases hpoll : s.front.poll with
    | none => exact ⟨s, rfl, h⟩
    | some taken => exact ⟨_, rfl, h.poll hpoll⟩
  | execute =>
    unfold Site.step
    cases htaken : s.taken with
    | nil => exact ⟨s, rfl, h⟩
    | cons job taken =>
      refine ⟨_, ?_, h.execute htaken⟩
      dsimp only
      rw [h.follows htaken]
      rfl
  | settle done =>
    obtain ⟨front, hfront, hbooks⟩ := h.settle hc
    refine ⟨_, ?_, hbooks⟩
    unfold Site.step
    dsimp only
    rw [hfront]
    rfl
  | rebuild incarnation => exact ⟨_, rfl, h.rebuild hc⟩

end Site

namespace Accounts

variable {f : LaneFront Image Seed Walks} {held : List BlockJobDone}

theorem count_le_one {tag : BlockJobTag} (h : Accounts f held)
    (hids : (held.map BlockJobDone.id).Nodup) (htag : tag ≠ .serve) :
    (held.filter fun d => d.tag = tag).length ≤ 1 := by
  obtain ⟨slot, noun, ht⟩ : ∃ slot noun, singleton tag = some (slot, noun) := by
    cases tag with
    | serve => exact absurd rfl htag
    | _ => exact ⟨_, _, rfl⟩
  have hnodup : ((held.filter fun d => d.tag = tag).map BlockJobDone.id).Nodup :=
    hids.sublist (filter_sublist.map _)
  generalize hfilter : (held.filter fun d => d.tag = tag) = found at hnodup ⊢
  rcases found with _ | ⟨a, _ | ⟨b, rest⟩⟩
  · exact Nat.zero_le 1
  · exact Nat.le_refl 1
  · have hmem (d : BlockJobDone) (hd : d ∈ a :: b :: rest) : ⟨d.id, tag⟩ ∈ held := by
      rw [← hfilter] at hd
      obtain ⟨hd, htag⟩ := mem_filter.mp hd
      have hsame : d.tag = tag := by simpa using htag
      rwa [← hsame]
    have hab := h.id_eq ht (hmem a (by simp)) (hmem b (by simp))
    simp [hab] at hnodup

theorem length_eq_sum (held : List BlockJobDone) :
    held.length = (held.filter fun d => d.tag = .materialize).length +
      (held.filter fun d => d.tag = .flush).length + (held.filter fun d => d.tag = .gc).length +
      (held.filter fun d => d.tag = .restore).length + (held.filter fun d => d.tag = .walk).length +
      (held.filter fun d => d.tag = .serve).length := by
  induction held with
  | nil => rfl
  | cons d held ih =>
    obtain ⟨id, tag⟩ := d
    rw [length_cons, ih]
    cases tag <;> simp <;> omega

theorem length_le (h : Accounts f held) (hids : (held.map BlockJobDone.id).Nodup) :
    f.outstanding.length ≤ maxBlockJobsInFlight := by
  have hone (tag : BlockJobTag) (htag : tag ≠ .serve) := h.count_le_one hids htag
  have hmaterialize := hone .materialize nofun
  have hflush := hone .flush nofun
  have hgc := hone .gc nofun
  have hrestore := hone .restore nofun
  have hwalk := hone .walk nofun
  have hserves : (held.filter fun d => d.tag = .serve).length ≤ maxOutstandingBlockServes := by
    have hcap := h.cap
    rwa [h.serves, length_map] at hcap
  have hsum := length_eq_sum held
  rw [h.outstanding, length_map]
  unfold maxBlockJobsInFlight singletonKinds
  omega

end Accounts

namespace Site

variable {s : Site Image Seed Walks}

/-- A sweep offered while one is running is dropped. -/
theorem Books.drop (h : s.Books) (hrun : s.sweepRunning = true) (id : OpId)
    {kind : BlockJobKind Image Seed Walks} (hkind : kind.tag = .gc) :
    s.front.enqueue id kind =
      .ok { s.front with sweepsDropped := saturatingSucc s.front.sweepsDropped } := by
  obtain ⟨queued, hqueued⟩ := (Books.sweepRunning_iff s).mp hrun
  have hcell : s.front.singletons gcSlot = some queued :=
    (h.accounts.cells .gc gcSlot "sweep" rfl queued).mpr (mem_append_left _ hqueued)
  have hsweep : s.front.enqueue id kind = .ok (s.front.enqueueSweep ⟨id, kind⟩) := by
    unfold LaneFront.enqueue
    rw [hkind]
    rfl
  rw [hsweep]
  unfold LaneFront.enqueueSweep
  rw [hcell]
  cases hr : replaceKind queued kind s.front.jobs with
  | none => dsimp only; rw [hr]
  | some jobs =>
    obtain ⟨before, k, after, hjobs, hid, -⟩ := replaceKind_eq_some hr
    have hk : k ∈ s.front.jobs := by rw [hjobs]; simp
    exact absurd hid.symm (h.queued_not_taken hk hqueued)

end Site

end Viewstamp.Lane
