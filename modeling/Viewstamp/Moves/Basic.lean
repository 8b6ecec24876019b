import Viewstamp.Ledger.Basic

/- What a replica does to the tables its appends live in, in small moves.

   A step of the endpoint runs to completion and passes through many states. The
   invariants of the appends (what is owed, what is parked, what is in flight) hold
   in all of them, but only if the step is cut at the right places: a truncation
   and the settlement of what it cancelled are one move, and so are the two tables
   that a nack truncation empties. `Move` names these cuts, `Moves` is a
   sequence of them, and every function of the endpoint is shown once to be one.

   A `Licence` says which of the rarer moves a stretch of code may make: leaving the
   configuration, appending after having left it, restoring a service image, taking
   down a peer's checkpoint, and adding log entries. -/
namespace Viewstamp

structure Licence where
  retire : Prop
  late : Prop
  restore : Prop
  report : Prop
  insert : Prop

namespace Licence

/-- Everything the code can do. -/
def all : Licence := ⟨True, True, True, True, True⟩

/-- What `K` allows, `K'` allows. -/
structure Le (K K' : Licence) : Prop where
  retire : K.retire → K'.retire
  late : K.late → K'.late
  restore : K.restore → K'.restore
  report : K.report → K'.report
  insert : K.insert → K'.insert

theorem le_all (K : Licence) : K.Le all :=
  ⟨fun _ => trivial, fun _ => trivial, fun _ => trivial, fun _ => trivial, fun _ => trivial⟩

end Licence

/-- What the moves are about. -/
structure Face (S : Type) where
  ledger : Ledger S
  nextOpId : Nat
  status : Status
  log : OrdMap Nat LogEntry
  pending : OrdMap Nat Pending
  deferredAppends : OrdMap Nat DeferredAppend
  capacity : Nat
  walWrites : List WalWrite
  appendQuota : Nat
  quota : Nat
  checkpointOp : OpNumber

namespace Storage

variable (s : Storage)

/-- Only the roots in flight differ. -/
structure SameWrites (s s' : Storage) : Prop where
  capacity : s'.capacity = s.capacity
  walWrites : s'.walWrites = s.walWrites
  appendQuota : s'.appendQuota = s.appendQuota
  landed : s'.landed = s.landed
  checkpoints : s'.checkpoints = s.checkpoints

theorem SameWrites.quota {s s' : Storage} (h : SameWrites s s') :
    s'.effectiveQuota = s.effectiveQuota := by
  unfold effectiveQuota
  rw [h.appendQuota, h.landed]

theorem sameWrites_releaseNextRoot : SameWrites s s.releaseNextRoot := by
  unfold releaseNextRoot
  repeat' split
  all_goals exact ⟨rfl, rfl, rfl, rfl, rfl⟩

theorem sameWrites_submitRoot (role : RootRole) (id : OpId) (state : VsrState) :
    SameWrites s (s.submitRoot role id state) := by
  unfold submitRoot releaseNextRoot
  cases role with
  | durableView | checkpoint =>
    dsimp only
    repeat' split
    all_goals exact ⟨rfl, rfl, rfl, rfl, rfl⟩

theorem sameWrites_abandonRoot (role : RootRole) (id : OpId) :
    SameWrites s (s.abandonRoot role id) := by
  unfold abandonRoot
  repeat' split
  all_goals exact ⟨rfl, rfl, rfl, rfl, rfl⟩

theorem effectiveQuota_pos : 0 < s.effectiveQuota := by
  unfold effectiveQuota
  split
  · rename_i h
    exact Nat.pos_of_ne_zero h
  · unfold sessionAppendQuota maxPipeline
    omega

/-- Latching the quota does not change it. -/
theorem effectiveQuota_latched {s s' : Storage} (h : s'.appendQuota = s.effectiveQuota) :
    s'.effectiveQuota = s.effectiveQuota := by
  have hne : s'.appendQuota ≠ 0 := by
    rw [h]
    exact s.effectiveQuota_pos.ne'
  exact (if_pos hne).trans h

/-- The ring and the quota are what they were. -/
structure SameRing (s s' : Storage) : Prop where
  capacity : s'.capacity = s.capacity
  quota : s'.effectiveQuota = s.effectiveQuota

theorem SameRing.refl : SameRing s s := ⟨rfl, rfl⟩

theorem SameRing.trans {s s' s'' : Storage} (h : SameRing s s') (h' : SameRing s' s'') :
    SameRing s s'' :=
  ⟨h'.capacity.trans h.capacity, h'.quota.trans h.quota⟩

theorem sameRing_submitAppend (id : OpId) (op : OpNumber) (header : Header) (body : Bytes) :
    SameRing s (s.submitAppend id op header body).1 := by
  unfold submitAppend
  split
  · exact .refl s
  · dsimp only
    split <;> exact ⟨rfl, effectiveQuota_latched rfl⟩

end Storage

namespace Node

variable {S : Type}
variable {n n' : Node S}

def face (n : Node S) : Face S where
  ledger := n.ledger
  nextOpId := n.nextOpId
  status := n.status
  log := n.log
  pending := n.pending
  deferredAppends := n.deferredAppends
  capacity := n.storage.capacity
  walWrites := n.storage.walWrites
  appendQuota := n.storage.appendQuota
  quota := n.storage.effectiveQuota
  checkpointOp := n.checkpointOp

theorem face_storage (n : Node S) {s : Storage} (h : n.storage.SameWrites s) :
    { n with storage := s }.face = n.face := by
  unfold face
  rw [h.capacity, h.walWrites, h.appendQuota, h.quota]
  rfl

/-- An append may be issued: the replica is in its configuration and stays there, or the licence
does not care. -/
def Awake (K : Licence) (n : Node S) : Prop := n.status = .retired ∨ K.retire → K.late

/-- A cancelled append is no longer owed. -/
def settleCancelled (n : Node S) (w : WalWrite) : Node S :=
  if n.isForeignCompletion w.id then n
  else
    match n.pending.get? w.id.seq with
    | none => n
    | some p =>
      let n := { n with pending := n.pending.erase w.id.seq }
      if n.deferredAppends.contains p.op then n
      else { n with appending := n.appending.erase p.op }

theorem absorbWalCancellations_cons (n : Node S) (w : WalWrite) (ws : List WalWrite) :
    n.absorbWalCancellations (w :: ws) =
      ((n.settleCancelled w).releaseDeferredAppend w.op).absorbWalCancellations ws :=
  rfl

theorem face_settleCancelled (n : Node S) (w : WalWrite) :
    (n.settleCancelled w).face = { n.face with pending := (n.settleCancelled w).pending } := by
  unfold settleCancelled
  split
  · rfl
  · split
    · rfl
    · dsimp only
      split <;> rfl

/-- Truncate the WAL and settle what that cancels. -/
def truncateAbsorbing (n : Node S) (above : OpNumber) : Node S :=
  (n.truncateWal above).1.absorbWalCancellations (n.truncateWal above).2

/-- Prune the WAL and settle what that cancels. -/
def pruneAbsorbing (n : Node S) (below : OpNumber) : Node S :=
  (n.pruneWal below).1.absorbWalCancellations (n.pruneWal below).2

/-- Prune the WAL below a checkpoint: what is parked there is subsumed, what is cancelled is
settled. -/
def gcAbsorbing (n : Node S) (floor : OpNumber) : Node S :=
  let m := (n.pruneWal (floor + 1)).1
  ((m.deferredAppends.filter fun op _ => decide (op ≤ floor)).keys.foldl dropSubsumedAppend
    m).absorbWalCancellations (n.pruneWal (floor + 1)).2

/-- Nothing is owed for the ops from `gap` on. -/
def nackTruncated (n : Node S) (gap : OpNumber) : Node S :=
  { n with
    pending := n.pending.filter fun _ p => decide (p.op < gap)
    deferredAppends := n.deferredAppends.filter fun op _ => decide (op < gap) }

/-- A relation that handing an append to the session and editing the tables respect. Whatever runs
through the parked appends then respects it. -/
structure Tending (R : Node S → Node S → Prop) : Prop where
  refl : ∀ n, R n n
  trans : ∀ {n n' n''}, R n n' → R n' n'' → R n n''
  submit : ∀ n op header body kind, R n (n.submitAppendAs op header body kind).1
  edit : ∀ n pending deferred appending, R n { n with
    pending := pending, deferredAppends := deferred, appending := appending }

namespace Tending

variable {R : Node S → Node S → Prop}

theorem resubmitDeferredAppend (h : Tending R) (n : Node S) (op : OpNumber) (d : DeferredAppend) :
    R n (n.resubmitDeferredAppend op d).1 :=
  h.trans (h.edit n n.pending (n.deferredAppends.erase op) n.appending)
    (h.submit _ op d.header d.body d.kind)

theorem releaseQuotaFrom (h : Tending R) : ∀ (ops : List OpNumber) (n : Node S),
    R n (Node.releaseQuotaFrom ops n)
  | [], n => h.refl n
  | op :: ops, n => by
    unfold Node.releaseQuotaFrom
    split
    · exact releaseQuotaFrom h ops n
    · rename_i d _
      dsimp only
      split
      · exact h.trans (h.resubmitDeferredAppend n op d) (releaseQuotaFrom h ops _)
      · exact h.resubmitDeferredAppend n op d

theorem releaseDeferredAppend (h : Tending R) (n : Node S) (quiesced : OpNumber) :
    R n (n.releaseDeferredAppend quiesced) := by
  unfold Node.releaseDeferredAppend
  dsimp only
  split
  · exact h.trans (h.resubmitDeferredAppend n _ _) (h.releaseQuotaFrom _ _)
  · exact h.releaseQuotaFrom _ n

theorem settleCancelled (h : Tending R) (n : Node S) (w : WalWrite) :
    R n (n.settleCancelled w) := by
  unfold Node.settleCancelled
  split
  · exact h.refl n
  · split
    · exact h.refl n
    · dsimp only
      split
      · exact h.edit n _ n.deferredAppends n.appending
      · exact h.edit n _ n.deferredAppends _

theorem absorbWalCancellations (h : Tending R) : ∀ (ws : List WalWrite) (n : Node S),
    R n (n.absorbWalCancellations ws)
  | [], n => h.refl n
  | w :: ws, n => by
    rw [absorbWalCancellations_cons]
    exact h.trans (h.settleCancelled n w)
      (h.trans (h.releaseDeferredAppend _ w.op) (absorbWalCancellations h ws _))

theorem dropSubsumedAppends (h : Tending R) : ∀ (ops : List OpNumber) (n : Node S),
    R n (ops.foldl dropSubsumedAppend n)
  | [], n => h.refl n
  | op :: ops, n => by
    refine h.trans ?_ (dropSubsumedAppends h ops _)
    unfold Node.dropSubsumedAppend
    dsimp only
    split
    · exact h.edit n n.pending _ n.appending
    · exact h.edit n n.pending _ _

end Tending

/-- Only the tables of the appends differ. -/
def Tables (n n' : Node S) : Prop :=
  ∃ (id : Nat) (storage : Storage) (pending : OrdMap Nat Pending)
    (deferred : OrdMap Nat DeferredAppend) (appending : OpSet),
    n.storage.SameRing storage ∧
    n' = { n with
      nextOpId := id
      storage := storage
      pending := pending
      deferredAppends := deferred
      appending := appending }

namespace Tables

variable {n n' n'' : Node S}

/-- The storage does not change at all. -/
theorem of_eq {id : Nat} {pending : OrdMap Nat Pending} {deferred : OrdMap Nat DeferredAppend}
    {appending : OpSet}
    (h : n' = { n with
      nextOpId := id
      pending := pending
      deferredAppends := deferred
      appending := appending }) : Tables n n' :=
  ⟨id, n.storage, pending, deferred, appending, .refl _, h⟩

theorem refl (n : Node S) : Tables n n := of_eq rfl

theorem trans (h : Tables n n') (h' : Tables n' n'') : Tables n n'' := by
  obtain ⟨_, _, _, _, _, hs, rfl⟩ := h
  obtain ⟨_, _, _, _, _, hs', rfl⟩ := h'
  exact ⟨_, _, _, _, _, hs.trans hs', rfl⟩

theorem submitAppendAs (n : Node S) (op : OpNumber) (header : Header) (body : Bytes)
    (kind : Pending) : Tables n (n.submitAppendAs op header body kind).1 := by
  have hs := Storage.sameRing_submitAppend n.storage n.nextId op header body
  unfold Node.submitAppendAs
  split
  · exact refl n
  · dsimp only
    split
    · exact ⟨_, _, _, _, _, hs, rfl⟩
    · exact ⟨_, _, _, _, _, hs, rfl⟩
    · exact ⟨_, _, _, _, _, hs, rfl⟩

theorem tending : Tending (Tables (S := S)) where
  refl := refl
  trans := trans
  submit := submitAppendAs
  edit _ _ _ _ := of_eq rfl

theorem releaseDeferredAppend (n : Node S) (quiesced : OpNumber) :
    Tables n (n.releaseDeferredAppend quiesced) :=
  tending.releaseDeferredAppend n quiesced

theorem truncateWal (n : Node S) (above : OpNumber) : Tables n (n.truncateWal above).1 := by
  unfold Node.truncateWal
  split
  · exact refl n
  · exact ⟨_, (n.storage.truncate above).1, _, _, _, ⟨rfl, rfl⟩, rfl⟩

theorem pruneWal (n : Node S) (below : OpNumber) : Tables n (n.pruneWal below).1 := by
  unfold Node.pruneWal
  split
  · exact refl n
  · exact ⟨_, (n.storage.prune below).1, _, _, _, ⟨rfl, rfl⟩, rfl⟩

theorem truncateAbsorbing (n : Node S) (above : OpNumber) : Tables n (n.truncateAbsorbing above) :=
  (truncateWal n above).trans (tending.absorbWalCancellations _ _)

theorem pruneAbsorbing (n : Node S) (below : OpNumber) : Tables n (n.pruneAbsorbing below) :=
  (pruneWal n below).trans (tending.absorbWalCancellations _ _)

theorem gcAbsorbing (n : Node S) (floor : OpNumber) : Tables n (n.gcAbsorbing floor) :=
  ((pruneWal n _).trans (tending.dropSubsumedAppends _ _)).trans
    (tending.absorbWalCancellations _ _)

theorem status_eq (h : Tables n n') : n'.status = n.status := by
  obtain ⟨_, _, _, _, _, -, rfl⟩ := h
  rfl

theorem sameRing (h : Tables n n') : n.storage.SameRing n'.storage := by
  obtain ⟨_, _, _, _, _, hs, rfl⟩ := h
  exact hs

theorem ledger_eq (h : Tables n n') : n'.ledger = n.ledger := by
  obtain ⟨_, _, _, _, _, -, rfl⟩ := h
  rfl

theorem panicked_eq (h : Tables n n') : n'.panicked = n.panicked :=
  congrArg Ledger.panicked h.ledger_eq

end Tables

theorem submitOrDeferAppend_status (n : Node S) (op : OpNumber) (header : Header) (body : Bytes)
    (kind : Pending) : (n.submitOrDeferAppend op header body kind).status = n.status :=
  (Tables.submitAppendAs n op header body kind).status_eq

theorem submitOrDeferAppend_ledger (n : Node S) (op : OpNumber) (header : Header) (body : Bytes)
    (kind : Pending) : (n.submitOrDeferAppend op header body kind).ledger = n.ledger :=
  (Tables.submitAppendAs n op header body kind).ledger_eq

theorem tending_nextOpId : Tending fun n n' : Node S => n.nextOpId ≤ n'.nextOpId where
  refl _ := le_refl _
  trans := le_trans
  submit n op header body kind := by
    unfold Node.submitAppendAs
    split
    · exact le_refl _
    · dsimp only
      split <;> exact Nat.le_succ _
  edit _ _ _ _ := le_refl _

variable [StateMachine S]

/-- One move, in a state and into a state that show the faces given. -/
inductive Move (K : Licence) : Node S → Node S → Prop
  | quiet {n n' : Node S} (h : n'.face = n.face) : Move K n n'
  | mint {n n' : Node S} (h : n'.face = { n.face with nextOpId := n.nextOpId + 1 }) : Move K n n'
  | post {n n' : Node S} {l : Ledger S} (hp : Post n.ledger l)
      (h : n'.face = { n.face with ledger := l }) : Move K n n'
  | restore {n n' : Node S} (sm : S) (smAt : OpNumber) (clients : SessionTable) (hK : K.restore)
      (h : n'.face = { n.face with ledger :=
        { n.ledger with sm := sm, smAt := smAt, clients := clients } }) : Move K n n'
  | status {n n' : Node S} (s : Status) (hs : s ≠ .retired)
      (h : n'.face = { n.face with status := s }) : Move K n n'
  | log {n n' : Node S} {log : OrdMap Nat LogEntry}
      (hlog : ∀ k e, log.get? k = some e → n.log.get? k = some e ∨ K.insert)
      (h : n'.face = { n.face with log := log }) : Move K n n'
  | checkpoint {n n' : Node S} (op : OpNumber) (hle : n.panicked = false → n.checkpointOp ≤ op)
      (h : n'.face = { n.face with checkpointOp := op }) : Move K n n'
  | append (n : Node S) (op : OpNumber) (header : Header) (body : Bytes) (kind : Pending)
      (hop : kind.op = op) (hlate : n.status = .retired → K.late) :
      Move K n (n.submitOrDeferAppend op header body kind)
  | release (n : Node S) (op : OpNumber) : Move K n (n.releaseDeferredAppend op)
  | truncate (n : Node S) (above : OpNumber) : Move K n (n.truncateAbsorbing above)
  | prune (n : Node S) (below : OpNumber) : Move K n (n.pruneAbsorbing below)
  | gc (n : Node S) (floor : OpNumber) (hfloor : floor ≤ n.checkpointOp) :
      Move K n (n.gcAbsorbing floor)
  | nack (n : Node S) (gap : OpNumber) : Move K n (n.nackTruncated gap)
  | clear {n n' : Node S}
      (h : n'.face = { n.face with pending := .empty, deferredAppends := .empty }) : Move K n n'
  | retire {n n' : Node S} (hK : K.retire)
      (h : n'.face =
        { n.face with pending := .empty, deferredAppends := .empty, status := .retired }) :
      Move K n n'
  | settle {n n' : Node S} (seq : Nat)
      (h : n'.face = { n.face with pending := n.pending.erase seq }) : Move K n n'

theorem Move.mono {K K' : Licence} (hK : K.Le K') (h : Move K n n') : Move K' n n' := by
  cases h with
  | quiet h => exact .quiet h
  | mint h => exact .mint h
  | post hp h => exact .post hp h
  | restore sm smAt clients hr h => exact .restore sm smAt clients (hK.restore hr) h
  | status s hs h => exact .status s hs h
  | log hlog h => exact .log (fun k e he => (hlog k e he).imp_right hK.insert) h
  | checkpoint op hle h => exact .checkpoint op hle h
  | append op header body kind hop hlate =>
    exact .append n op header body kind hop fun hret => hK.late (hlate hret)
  | release op => exact .release n op
  | truncate above => exact .truncate n above
  | prune below => exact .prune n below
  | gc floor hfloor => exact .gc n floor hfloor
  | nack gap => exact .nack n gap
  | clear h => exact .clear h
  | retire hr h => exact .retire (hK.retire hr) h
  | settle seq h => exact .settle seq h

variable {K : Licence}

/-- A move keeps the ledger, posts on it, or restores an image. -/
theorem Move.ledger_cases (h : Move K n n') :
    n'.ledger = n.ledger ∨ Post n.ledger n'.ledger ∨ K.restore ∧ ∃ sm smAt clients,
      n'.ledger = { n.ledger with sm := sm, smAt := smAt, clients := clients } := by
  cases h with
  | quiet h | mint h | status _ _ h | log _ h | clear h | settle _ h | retire _ h
  | checkpoint _ _ h =>
    exact .inl (congrArg Face.ledger h)
  | @post _ l hp h =>
    have hledger : n'.ledger = l := congrArg Face.ledger h
    exact .inr (.inl (hledger ▸ hp))
  | restore sm smAt clients hr h =>
    exact .inr (.inr ⟨hr, sm, smAt, clients, congrArg Face.ledger h⟩)
  | append op header body kind _ _ => exact .inl (submitOrDeferAppend_ledger n op header body kind)
  | release op => exact .inl (Tables.releaseDeferredAppend n op).ledger_eq
  | truncate above => exact .inl (Tables.truncateAbsorbing n above).ledger_eq
  | prune below => exact .inl (Tables.pruneAbsorbing n below).ledger_eq
  | gc floor _ => exact .inl (Tables.gcAbsorbing n floor).ledger_eq
  | nack gap => exact .inl rfl

/-- A failed replica stays failed. -/
theorem Move.alive (h : Move K n n') (hp : n'.panicked = false) : n.panicked = false := by
  have hledger : n'.ledger.panicked = false := hp
  rcases h.ledger_cases with hsame | hpost | ⟨-, sm, smAt, clients, himage⟩
  · rw [hsame] at hledger
    exact hledger
  · exact hpost.alive hledger
  · rw [himage] at hledger
    exact hledger

theorem Move.incarnation_eq (h : Move K n n') : n'.incarnation = n.incarnation := by
  have hledger : n'.ledger.incarnation = n.ledger.incarnation := by
    rcases h.ledger_cases with hsame | hpost | ⟨-, sm, smAt, clients, himage⟩
    · rw [hsame]
    · exact hpost.incarnation_eq
    · rw [himage]
  exact hledger

/-- Ids are minted upwards. -/
theorem Move.nextOpId_le (h : Move K n n') : n.nextOpId ≤ n'.nextOpId := by
  have keep (hid : n'.nextOpId = n.nextOpId) : n.nextOpId ≤ n'.nextOpId := hid.ge
  have htend := tending_nextOpId (S := S)
  cases h with
  | quiet h | post _ h | restore _ _ _ _ h | status _ _ h | log _ h | clear h | settle _ h
  | retire _ h | checkpoint _ _ h =>
    exact keep (congrArg Face.nextOpId h)
  | mint h =>
    have hid : n'.nextOpId = n.nextOpId + 1 := congrArg Face.nextOpId h
    omega
  | append op header body kind _ _ => exact htend.submit n op header body kind
  | release op => exact htend.releaseDeferredAppend n op
  | truncate above =>
    refine le_trans ?_ (htend.absorbWalCancellations _ _)
    unfold Node.truncateWal
    split <;> exact le_refl _
  | prune below =>
    refine le_trans ?_ (htend.absorbWalCancellations _ _)
    unfold Node.pruneWal
    split <;> exact le_refl _
  | gc floor _ =>
    refine le_trans ?_ (htend.absorbWalCancellations _ _)
    refine le_trans ?_ (htend.dropSubsumedAppends _ _)
    unfold Node.pruneWal
    split <;> exact le_refl _
  | nack gap => exact keep rfl

/-- No move touches the geometry of the session. -/
theorem Move.sameRing (h : Move K n n') : n.storage.SameRing n'.storage := by
  have keep {f : Face S} (hf : n'.face = f) (hc : f.capacity = n.face.capacity)
      (hq : f.quota = n.face.quota) : n.storage.SameRing n'.storage :=
    ⟨(congrArg Face.capacity hf).trans hc, (congrArg Face.quota hf).trans hq⟩
  cases h with
  | quiet h | mint h | post _ h | restore _ _ _ _ h | status _ _ h | log _ h | clear h
  | retire _ h | settle _ h | checkpoint _ _ h =>
    exact keep h rfl rfl
  | append op header body kind _ _ => exact (Tables.submitAppendAs n op header body kind).sameRing
  | release op => exact (Tables.releaseDeferredAppend n op).sameRing
  | truncate above => exact (Tables.truncateAbsorbing n above).sameRing
  | prune below => exact (Tables.pruneAbsorbing n below).sameRing
  | gc floor _ => exact (Tables.gcAbsorbing n floor).sameRing
  | nack gap => exact .refl _

def Moves (K : Licence) : Node S → Node S → Prop := Relation.ReflTransGen (Move K)

namespace Moves

variable {K : Licence} {n n' n'' : Node S}

theorem refl (n : Node S) : Moves K n n := Relation.ReflTransGen.refl

theorem trans (h : Moves K n n') (h' : Moves K n' n'') : Moves K n n'' :=
  Relation.ReflTransGen.trans h h'

theorem single (h : Move K n n') : Moves K n n' := Relation.ReflTransGen.single h

theorem of_eq (h : n'.face = n.face) : Moves K n n' := single (.quiet h)

theorem of_mint (h : n'.face = { n.face with nextOpId := n.nextOpId + 1 }) : Moves K n n' :=
  single (.mint h)

/-- What every move preserves, a sequence of them preserves. -/
theorem invariant {P : Node S → Prop} (step : ∀ n n', Move K n n' → P n → P n')
    (h : Moves K n n') (hn : P n) : P n' := by
  induction h with
  | refl => exact hn
  | tail _ hstep ih => exact step _ _ hstep ih

theorem mono {K' : Licence} (hK : K.Le K') (h : Moves K n n') : Moves K' n n' := by
  induction h with
  | refl => exact refl n
  | tail _ hstep ih => exact ih.trans (single (hstep.mono hK))

theorem sameRing (h : Moves K n n') : n.storage.SameRing n'.storage :=
  h.invariant (P := fun m => n.storage.SameRing m.storage) (fun _ _ hm ih => ih.trans hm.sameRing)
    (.refl _)

/-- Which moves can retire the replica is the licence's matter, so it stays awake. -/
theorem awake (h : Moves K n n') (hn : Awake K n) : Awake K n' := by
  refine invariant (P := Awake K) (fun m m' hm ih => ?_) h hn
  have keep (hs : m'.status = m.status) : Awake K m' := by
    unfold Awake
    rwa [hs]
  cases hm with
  | quiet h | mint h | post _ h | restore _ _ _ _ h | log _ h | clear h | settle _ h
  | checkpoint _ _ h =>
    exact keep (congrArg Face.status h)
  | status s hs h =>
    have hstatus : m'.status = s := congrArg Face.status h
    rintro (hret | hret)
    · exact absurd (hstatus.symm.trans hret) hs
    · exact ih (.inr hret)
  | retire hK h => exact fun _ => ih (.inr hK)
  | append op header body kind _ _ => exact keep (submitOrDeferAppend_status m op header body kind)
  | release op => exact keep (Tables.releaseDeferredAppend m op).status_eq
  | truncate above => exact keep (Tables.truncateAbsorbing m above).status_eq
  | prune below => exact keep (Tables.pruneAbsorbing m below).status_eq
  | gc floor _ => exact keep (Tables.gcAbsorbing m floor).status_eq
  | nack gap => exact keep rfl

end Moves

end Node

end Viewstamp
