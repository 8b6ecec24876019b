import Viewstamp.Lib.Counting
import Viewstamp.Moves.Handle
import Viewstamp.Reconfigure.Plan

/- What a replica may forget.

   The quorum checkpoint is an order statistic of the checkpoints the voters have
   reported, cached so that every request can read it. Nothing a replica does leaves
   the cache stale (`Reachable.coherent`), so in every state it is the largest op
   that a quorum has reported. A report is what a message says of its sender's
   checkpoint; a view transition forgets them all. `run_gc` prunes the log and the WAL when the root
   of an ordinary checkpoint has landed: what it drops is at or below the checkpoint
   that root made durable, and on a primary at or below the quorum checkpoint too. -/
namespace Viewstamp

namespace Node

variable {S : Type}
variable {n m : Node S}

/-! ## The quorum checkpoint -/

/-- The checkpoint a member is known to have. A replica knows its own; of another member it knows
the highest report, and one that was never heard counts as zero. -/
def reported (n : Node S) (who : MemberId) : OpNumber :=
  if who = n.config.localMember then n.checkpointOp else greatest n.reports who

/-- The cache is the largest op that a quorum of voters has reported. -/
def AtQuorum (n : Node S) : Prop :=
  IsGreatest {c | n.membership.quorum ≤
    (n.membership.voterSet.filter fun who => c ≤ n.reported who).card} n.quorumCheckpoint

theorem isVoter_iff (n : Node S) : n.isVoter = true ↔
    n.config.localMember ∈ n.membership.members.take n.membership.replicaCount := by
  unfold Core.isVoter Core.localSlotOpt
  rw [Option.any_eq_true]
  constructor
  · rintro ⟨slot, hslot, hv⟩
    exact Membership.mem_voters_of_slotOf hslot hv
  · exact Membership.slotOf_of_mem_voters

/-- The list that is sorted holds the report of each voter once. -/
theorem voterCheckpoints_perm (h : n.Tallied) : n.voterCheckpoints.Perm
    ((n.membership.members.take n.membership.replicaCount).map n.reported) := by
  have hnodup : (n.membership.members.take n.membership.replicaCount).Nodup :=
    n.membership.valid.nodup.sublist (List.take_sublist _ _)
  have hvoter := n.isVoter_iff
  unfold voterCheckpoints
  revert hnodup hvoter
  generalize n.membership.members.take n.membership.replicaCount = voters
  intro hnodup hvoter
  have hothers : (voters.filter (· ≠ n.config.localMember)).map n.reported =
      (voters.filter (· ≠ n.config.localMember)).map
        fun m => (n.peerCheckpoint.get? m).getD 0 := by
    apply List.map_congr_left
    intro m hm
    rw [h m]
    exact if_neg (by simpa using (List.mem_filter.mp hm).2)
  rw [← hothers]
  by_cases hv : n.config.localMember ∈ voters
  · have hown : n.reported n.config.localMember = n.checkpointOp := if_pos rfl
    have herase : voters.filter (· ≠ n.config.localMember) = voters.erase n.config.localMember := by
      rw [hnodup.erase_eq_filter]
      exact List.filter_congr fun m _ => by simp [bne, beq_eq_decide]
    rw [if_pos (hvoter.mpr hv), ← hown, herase]
    exact ((List.perm_cons_erase hv).map n.reported).symm
  · have hall : voters.filter (· ≠ n.config.localMember) = voters := by
      rw [List.filter_eq_self]
      intro m hm
      simp only [ne_eq, decide_eq_true_iff]
      rintro rfl
      exact hv hm
    rw [if_neg fun h => hv (hvoter.mp h), hall]
    exact List.Perm.refl _

/-- How many voters have reported a checkpoint at or above an op. -/
theorem countP_voterCheckpoints (h : n.Tallied) (c : OpNumber) :
    n.voterCheckpoints.countP (fun op => decide (c ≤ op)) =
      (n.membership.voterSet.filter fun who => c ≤ n.reported who).card := by
  have hnodup : (n.membership.members.take n.membership.replicaCount).Nodup :=
    n.membership.valid.nodup.sublist (List.take_sublist _ _)
  rw [(voterCheckpoints_perm h).countP_eq, List.countP_map, List.countP_eq_length_filter,
    ← List.toFinset_card_of_nodup (hnodup.filter _), List.toFinset_filter]
  unfold Membership.voterSet
  congr 1
  exact Finset.filter_congr fun who _ => by simp

theorem Counted.atQuorum (h : n.Counted) : n.AtQuorum := by
  have hpos := n.membership.valid.pos
  have hquorum : 0 < n.membership.quorum := Nat.succ_pos _
  have hlength : n.voterCheckpoints.length = n.membership.replicaCount := by
    rw [(voterCheckpoints_perm h.tally).length_eq, List.length_map, Membership.length_voters]
  -- a quorum is no larger than the group, so there is such a report
  obtain ⟨d, hd⟩ : ∃ d, (n.voterCheckpoints.insertionSort (· ≥ ·))[n.membership.quorum - 1]? =
      some d := by
    refine ⟨_, List.getElem?_eq_getElem ?_⟩
    rw [List.length_insertionSort, hlength]
    unfold Membership.quorum
    omega
  have hcache : n.quorumCheckpoint = d := by
    rw [h.cache, computeQuorumCheckpointOp, hd]
    rfl
  have hcount (c : OpNumber) : n.membership.quorum ≤
      (n.membership.voterSet.filter fun who => c ≤ n.reported who).card ↔ c ≤ d := by
    rw [← countP_voterCheckpoints h.tally, ← Counting.lt_countP_ge_iff hd c]
    omega
  rw [AtQuorum, hcache]
  exact ⟨(hcount d).mpr (le_refl d), fun c hc => (hcount c).mp hc⟩

/-! ## What `run_gc` drops -/

/-- The op was in the log or in the WAL, and is no longer. -/
inductive Dropped (n n' : Node S) (op : OpNumber) : Prop
  | log (e : LogEntry) (h : n.log.get? op = some e) (h' : n'.log.get? op ≠ some e)
  | record (k : Nat) (slot : Slot) (hop : slot.header.op = op)
      (h : n.storage.slots.get? k = some slot) (h' : n'.storage.slots.get? k ≠ some slot)
  | write (w : WalWrite) (hop : w.op = op) (h : w ∈ n.storage.walWrites)
      (h' : w ∉ n'.storage.walWrites)

/-- The log and the WAL are as they were; writes may have been added. -/
structure Holds (n n' : Node S) : Prop where
  log : n'.log = n.log
  slots : n'.storage.slots = n.storage.slots
  writes : n.storage.walWrites ⊆ n'.storage.walWrites

theorem tending_holds : Tending (Holds (S := S)) where
  refl _ := ⟨rfl, rfl, List.Subset.refl _⟩
  trans h h' := ⟨h'.log.trans h.log, h'.slots.trans h.slots, fun _ hw => h'.writes (h.writes hw)⟩
  submit n op header body kind := by
    have hstorage : (n.storage.submitAppend n.nextId op header body).1.slots = n.storage.slots ∧
        n.storage.walWrites ⊆ (n.storage.submitAppend n.nextId op header body).1.walWrites := by
      unfold Storage.submitAppend
      split
      · exact ⟨rfl, List.Subset.refl _⟩
      · dsimp only
        split
        · exact ⟨rfl, List.Subset.refl _⟩
        · exact ⟨rfl, List.subset_append_left _ _⟩
    unfold submitAppendAs
    split
    · exact ⟨rfl, rfl, List.Subset.refl _⟩
    · dsimp only
      split <;> exact ⟨rfl, hstorage.1, hstorage.2⟩
  edit _ _ _ _ := ⟨rfl, rfl, List.Subset.refl _⟩

theorem gcFloor_le_quorum (n : Node S) (h : n.isPrimary = true) :
    n.gcFloor ≤ n.quorumCheckpoint := by
  unfold gcFloor pruneFloor
  rw [if_pos h]
  exact min_le_right _ _

/-- Pruning the WAL drops what lies below, and nothing else. -/
theorem Dropped.pruneWal {below op : OpNumber} (h : Dropped n (n.pruneWal below).1 op) :
    op < below := by
  by_contra hle
  unfold Node.pruneWal at h
  split at h
  · cases h with
    | log e h h' => exact h' h
    | record k slot hop h h' => exact h' h
    | write w hop h h' => exact h' h
  · cases h with
    | log e h h' => exact h' h
    | record k slot hop h h' =>
      apply h'
      refine OrdMap.get?_filter_eq_some.mpr ⟨h, ?_⟩
      simp only [hop, Bool.not_eq_true', decide_eq_false_iff_not]
      exact hle
    | write w hop h h' =>
      apply h'
      refine List.mem_filter.mpr ⟨h, ?_⟩
      have hop : ¬ w.op < below := hop ▸ hle
      simp [hop]

theorem Dropped.of_holds {n m n' : Node S} {op : OpNumber} (h : Dropped n n' op) (hm : Holds m n') :
    Dropped n m op := by
  cases h with
  | log e h h' => exact .log e h (hm.log ▸ h')
  | record k slot hop h h' => exact .record k slot hop h (hm.slots ▸ h')
  | write w hop h h' => exact .write w hop h fun hw => h' (hm.writes hw)

/-- `run_gc` prunes the WAL, settles what that cancels, and trims the log. -/
theorem runGc_shape (n : Node S) (h : n.gcFloor ≠ 0) :
    ∃ m, Holds (n.pruneWal (n.gcFloor + 1)).1 m ∧ n.runGc.storage = m.storage ∧
      n.runGc.log = m.log.filter fun op _ => decide (n.gcFloor < op) := by
  have htrim (m : Node S) (floor checkpoint : OpNumber) :
      (m.trimLogToCheckpoint floor checkpoint).storage = m.storage ∧
        (m.trimLogToCheckpoint floor checkpoint).log =
          m.log.filter fun op _ => decide (floor < op) := by
    unfold trimLogToCheckpoint assertCommittedSurvives Node.assert
    split <;> exact ⟨rfl, rfl⟩
  unfold runGc
  rw [show (if n.isPrimary then n.pruneFloor else n.checkpointOp) = n.gcFloor from rfl, if_neg h]
  dsimp only
  refine ⟨_, ?_, (htrim _ _ _).1, (htrim _ _ _).2⟩
  refine tending_holds.trans ?_ (tending_holds.absorbWalCancellations _ _)
  refine tending_holds.trans ?_ (tending_holds.dropSubsumedAppends _ _)
  exact ⟨rfl, rfl, List.Subset.refl _⟩

/-- `run_gc` drops nothing above its floor. -/
theorem Dropped.runGc {op : OpNumber} (h : Dropped n n.runGc op) : op ≤ n.gcFloor := by
  by_cases hfloor : n.gcFloor = 0
  · have hkept : n.runGc = n := if_pos hfloor
    rw [hkept] at h
    cases h with
    | log e h h' => exact absurd h h'
    | record k slot hop h h' => exact absurd h h'
    | write w hop h h' => exact absurd h h'
  · obtain ⟨m, hm, hstorage, hlog⟩ := n.runGc_shape hfloor
    have hpruned (hd : Dropped n m op) : op ≤ n.gcFloor :=
      Nat.le_of_lt_succ (hd.of_holds hm).pruneWal
    cases h with
    | log e h h' =>
      by_contra hlt
      refine hlt (hpruned (.log e h fun hm => h' ?_))
      rw [hlog]
      exact OrdMap.get?_filter_eq_some.mpr ⟨hm, decide_eq_true (Nat.not_le.mp hlt)⟩
    | record k slot hop h h' => exact hpruned (.record k slot hop h (hstorage ▸ h'))
    | write w hop h h' => exact hpruned (.write w hop h (hstorage ▸ h'))

/-! ## What is reported -/

/-- A report of the member that holds a slot. -/
def ofSlot (n : Node S) (r : Option (ReplicaId × OpNumber)) : List (MemberId × OpNumber) :=
  r.toList.filterMap fun (slot, op) => (n.membership.memberAt slot).map (·, op)

/-- The head a primary supplies reports its floor. -/
def adopts (n : Node S) : Message → Option (ReplicaId × OpNumber)
  | .startView m => some (n.membership.primary m.view, min m.checkpointOp m.commit)
  | .recoveryResponse m => some (n.membership.primary m.view, min m.checkpointOp m.commit)
  | _ => none

theorem reports_hear (n : Node S) (r : Option (ReplicaId × OpNumber)) :
    (n.hear r).reports = n.ofSlot r ++ n.reports := by
  cases r with
  | none => rfl
  | some r =>
    unfold hear recordPeerCheckpoint ofSlot
    cases h : n.membership.memberAt r.1 <;> simp [h, recomputeQuorumCheckpoint]

/-- Nothing is taken down. -/
def deaf : Licence := { Licence.all with report := False }

theorem resets_hear (n : Node S) (r : Option (ReplicaId × OpNumber)) :
    (n.hear r).resets = n.resets := by
  cases r with
  | none => rfl
  | some r =>
    unfold hear recordPeerCheckpoint
    dsimp only
    split <;> rfl

theorem Steady.hush {K : Licence} (h : Steady K n m) (hK : ¬ K.report) : Hushed n m :=
  h.reports.resolve_left hK

/-! ## When `run_gc` runs -/

variable [StateMachine S]

/-- A completed write is the root an ordinary checkpoint waits for: the replica advances to that
checkpoint and runs `run_gc` in the state given here. -/
def rootsCheckpoint (n : Node S) (now : Instant) (id : OpId) (landed : Option RootEntry) :
    Option (Node S) :=
  let n := n.landRoot now landed
  match n.pendingCheckpoint with
  | some ⟨target, .awaitRoot root dag, .ordinary⟩ =>
    if root = id && !n.isForeignCompletion id && n.pendingSb.all fun p => p.1 ≠ id then
      some (({ n with
        pendingCheckpoint := none
        checkpointSmRoot := some dag.smRoot
        checkpointSessionsRoot := some dag.sessionsRoot }.advanceCheckpointOp target).event
          (.checkpointDurable target))
    else none
  | _ => none

/-- The state in which an input makes the replica run `run_gc`. -/
def collecting (n : Node S) (i : Input S) : Option (Node S) :=
  if n.panicked then none
  else
    match i with
    | .rootDone now => n.storage.completeRoot.bind fun (s, e) =>
        { n with storage := s }.rootsCheckpoint now e.id (some e)
    | .checkpointDone now id => (n.storage.completeCheckpoint id).bind fun s =>
        { n with storage := s }.rootsCheckpoint now id none
    | _ => none

theorem onSbDone_rootsCheckpoint {now : Instant} {id : OpId}
    {landed : Option RootEntry} (h : n.rootsCheckpoint now id landed = some m) :
    n.onSbDone now (.wrote id) landed =
      (m.runGc.gcBlocks.retryUnappendedAdoptedTail).maybeSwapEpoch := by
  have hland : n.onSbDone now (.wrote id) landed =
      (n.landRoot now landed).onSbDone now (.wrote id) none := by
    cases landed <;> rfl
  unfold rootsCheckpoint at h
  rw [hland]
  generalize n.landRoot now landed = l at h
  unfold onSbDone
  dsimp only at h ⊢
  split at h
  · rename_i target root dag hpc
    split at h
    · rename_i hroot
      cases h
      simp only [Bool.and_eq_true, Bool.not_eq_true', decide_eq_true_eq] at hroot
      obtain ⟨⟨rfl, hforeign⟩, hsb⟩ := hroot
      have hforeign : l.isForeignCompletion (SuperblockDone.wrote root).id = false := hforeign
      have hstaged :
          l.pendingCheckpoint.any (fun pc => decide (pc.step.writeId = some root)) = true := by
        rw [hpc]
        exact decide_eq_true rfl
      have hwrote : l.onCheckpointWrote now root = l.checkpointRooted now
          ⟨target, .awaitRoot root dag, .ordinary⟩ dag := by
        unfold onCheckpointWrote
        rw [hpc]
        exact if_pos rfl
      rw [hforeign, hstaged]
      simp only [Bool.false_eq_true, if_false, Bool.not_true, Bool.and_false]
      refine Eq.trans ?_ hwrote
      cases hp : l.pendingSb with
      | none => rfl
      | some p =>
        rw [hp] at hsb
        exact if_neg (by simpa using hsb)
    · cases h
  · cases h

/-- The step runs `run_gc` in that state. -/
theorem step_collecting {boot : Boot S} {i : Input S} (h : n.collecting i = some m) :
    n.step boot i = some ((m.runGc.gcBlocks.retryUnappendedAdoptedTail).maybeSwapEpoch) := by
  obtain ⟨hp, h⟩ := Option.ite_none_left_eq_some.mp h
  cases i with
  | rootDone now =>
    obtain ⟨⟨s, e⟩, hs, h⟩ := Option.bind_eq_some_iff.mp h
    show (if n.panicked then none else n.storage.completeRoot.map _) = _
    rw [if_neg hp, hs]
    exact congrArg some (onSbDone_rootsCheckpoint h)
  | checkpointDone now id =>
    obtain ⟨s, hs, h⟩ := Option.bind_eq_some_iff.mp h
    show (if n.panicked then none else (n.storage.completeCheckpoint id).map _) = _
    rw [if_neg hp, hs]
    exact congrArg some (onSbDone_rootsCheckpoint h)
  | _ => cases h

/-- The checkpoint the replica advances to is the one it waited for, and its cache is fresh. -/
theorem rootsCheckpoint_awaited {now : Instant} {id : OpId}
    {landed : Option RootEntry} (h : n.rootsCheckpoint now id landed = some m) :
    (n.landRoot now landed).awaited = some (id, m.checkpointOp) ∧
      ((n.landRoot now landed).Tallied → m.Counted) ∧
      m.storage.landed = (n.landRoot now landed).storage.landed := by
  unfold rootsCheckpoint at h
  generalize n.landRoot now landed = l at h ⊢
  dsimp only at h
  split at h
  · rename_i target root dag hpc
    obtain ⟨hroot, h⟩ := Option.ite_none_right_eq_some.mp h
    cases h
    simp only [Bool.and_eq_true, decide_eq_true_eq] at hroot
    refine ⟨?_, fun hl => ⟨rfl, ?_⟩, ?_⟩
    · unfold awaited
      rw [hpc, hroot.1.1]
      rfl
    · unfold advanceCheckpointOp Node.assert
      split <;> exact hl
    · unfold advanceCheckpointOp Node.assert
      split <;> rfl
  · cases h

/-- The root that makes `run_gc` run is the one that made the replica's checkpoint durable. -/
theorem Coherent.collecting {i : Input S} (hn : n.Coherent) (h : n.collecting i = some m) :
    m.Counted ∧ m.checkpointOp = m.storage.landed.checkpointOp := by
  obtain ⟨hp, h⟩ := Option.ite_none_left_eq_some.mp h
  have halive : n.panicked = false := by simpa using hp
  cases i with
  | rootDone now =>
    obtain ⟨⟨s, e⟩, hs, h⟩ := Option.bind_eq_some_iff.mp h
    obtain ⟨hfront, hlanded⟩ : n.storage.rootFront = some e ∧ s.landed = e.state := by
      unfold Storage.completeRoot at hs
      split at hs
      · cases hs
      · rename_i e' he
        cases hs
        exact ⟨he, (Storage.sameWrites_releaseNextRoot _).landed⟩
    have he : e ∈ n.storage.roots := by
      unfold Media.roots
      simp [hfront]
    obtain ⟨hawaited, hcounted, hmedium⟩ := rootsCheckpoint_awaited h
    have hacts :
        Acts .all { n with storage := s } ({ n with storage := s }.landRoot now (some e)) :=
      Acts.onRootLanded (K := .all) trivial _ now e
    have hreceived : n.received (.rootDone now) = { n with storage := s } := by
      rw [Node.received, Storage.after, hs]
      rfl
    refine ⟨hcounted (hacts.coherent (hreceived ▸ hn.received (.rootDone now))).counted.tally, ?_⟩
    rw [hmedium, hacts.landed.trans hlanded]
    -- nobody can wait for a root that is yet to be written, and this one has landed
    rcases hacts.awaited _ _ hawaited with hold | hnew
    · exact ((hn.awaited halive _ _ hold).2.1 e he rfl).symm
    · exact absurd (hn.roots e he) hnew
  | checkpointDone now id =>
    obtain ⟨s, hs, h⟩ := Option.bind_eq_some_iff.mp h
    obtain ⟨hawaited, -, -⟩ := rootsCheckpoint_awaited h
    unfold Storage.completeCheckpoint at hs
    split at hs
    · cases hs
    · rename_i c hc
      have hid : c.id = id := by simpa using List.find?_some hc
      exact absurd hid ((hn.awaited halive _ _ hawaited).2.2 c (List.mem_of_find?_eq_some hc))
  | _ => cases h

/-! ## What an input reports -/

/-- What an input tells the replica of the checkpoint of another one. -/
def heardBy (n : Node S) : Input S → List (MemberId × OpNumber)
  | .message now sender msg => (n.admits now sender msg).elim [] fun m => m.ofSlot (m.hears msg)
  | _ => []

def adoptedBy (n : Node S) : Input S → List (MemberId × OpNumber)
  | .message now sender msg => (n.admits now sender msg).elim [] fun m => m.ofSlot (m.adopts msg)
  | _ => []

/-- The reports after an input. It adds what it tells. Only a view transition, before or after that,
forgets reports, and the head it adopts is the first of the new ones; a replica that starts over has
none. -/
inductive Reports (n : Node S) (i : Input S) (m : Node S) : Prop
  | heard (h : m.reports = n.heardBy i ++ n.reports) (hs : m.resets = n.resets)
  | afresh (h : m.reports = n.heardBy i) (hs : n.resets < m.resets)
  | adopted (h : m.reports = n.adoptedBy i) (hs : n.resets < m.resets)
  | forgotten (h : m.reports = []) (hs : n.resets < m.resets)
  | restarted (h : m.reports = []) (hs : n.incarnation < m.incarnation)

omit [StateMachine S] in
theorem Reports.quiet {i : Input S} (hi : n.heardBy i = []) (hm : Hushed n m) : Reports n i m := by
  rcases hm with ⟨hm, hs⟩ | ⟨hm, hs⟩
  · refine .heard ?_ hs
    rw [hi, hm]
    rfl
  · exact .forgotten hm hs

/-- The reports after a message that has reached the replica. -/
def Apprised (n : Node S) (msg : Message) (m : Node S) : Prop :=
  Hushed (n.hear (n.hears msg)) m ∨
    m.reports = n.ofSlot (n.adopts msg) ∧ n.resets < m.resets

theorem Adopts.reports {view : View} {floor : OpNumber} (h : Adopts deaf.seated view floor n m) :
    Hushed n m ∨ m.reports = n.ofSlot (some (n.membership.primary view, floor)) ∧
      n.resets < m.resets := by
  rcases h with h | ⟨k, hk, ⟨hforgot, hlt⟩, h⟩
  · exact .inl (h.steady.hush id)
  · have hseat : k.membership = n.membership := hk.steady.membership.resolve_left id
    have hsteady := reports_hear k (some (k.membership.primary view, floor))
    have hresets := resets_hear k (some (k.membership.primary view, floor))
    rw [hforgot, List.append_nil, ofSlot, hseat, ← ofSlot] at hsteady
    rw [hseat] at h hresets
    rcases h.steady.hush id with ⟨h, hs⟩ | ⟨h, hs⟩
    · exact .inr ⟨h.trans hsteady, hlt.trans_le (hs.trans hresets).ge⟩
    · exact .inl (.inr ⟨h, hlt.trans (hresets ▸ hs)⟩)

/-- The replica that takes a message adds what the message tells it. -/
theorem dispatch_reports (n : Node S) (now : Instant) (sender : Peer) {msg : Message}
    (hmsg : msg.reports = true) (hn : Awake deaf.seated n) :
    Apprised n msg (n.dispatch now sender msg) := by
  have hheard {m : Node S} (h : Acts deaf.seated (n.hear (n.hears msg)) m) : Apprised n msg m :=
    .inl (h.steady.hush id)
  unfold dispatch
  split
  · rename_i hstatus
    refine hheard (.of_unheard ?_ (.onRecoveringMessage n now sender msg))
    cases msg <;> simp [hears, hstatus]
  · rename_i hstatus
    cases msg with
    | startView m => exact (Acts.onStartView (K := deaf.seated) trivial n now m).reports
    | recoveryResponse m =>
      exact (Acts.onRecoveryResponse (K := deaf.seated) trivial n now m).reports
    | prepareOk | commit | doViewChange =>
      exact hheard (.of_unheard (by simp [hears, hstatus]) (.refl n))
    | _ => cases hmsg
  · cases msg with
    | prepareOk ok => exact hheard (.onPrepareOk n now ok)
    | commit c => exact hheard (.onCommit n now c)
    | doViewChange m => exact hheard (.onDoViewChange trivial n now m hn)
    | startView m => exact (Acts.onStartView (K := deaf.seated) trivial n now m).reports
    | recoveryResponse m =>
      exact (Acts.onRecoveryResponse (K := deaf.seated) trivial n now m).reports
    | _ => cases hmsg

theorem handleMessage_reports (n : Node S) (now : Instant) (sender : Peer) (msg : Message) :
    Reports n (.message now sender msg) (n.handleMessage now sender msg) := by
  cases hmsg : msg.reports with
  | false =>
    have hdeeds :=
      Deeds.handleMessage (K := deaf.seated) trivial False.elim n now sender msg (by simp [hmsg])
    refine .quiet ?_ (hdeeds.steady.hush id)
    cases h : n.admits now sender msg with
    | none => rw [heardBy, h]; rfl
    | some m =>
      rw [heardBy, h]
      cases msg <;> first | rfl | cases hmsg
  | true =>
    rcases Acts.handleMessage_admits (K := deaf.seated) False.elim n now sender msg with
      ⟨hnone, h⟩ | ⟨m, hsome, hm, hawake, heq⟩
    · exact .quiet (by rw [heardBy, hnone]; rfl) (h.steady.hush id)
    · have hheard : n.heardBy (.message now sender msg) = m.ofSlot (m.hears msg) := by
        rw [heardBy, hsome]
        rfl
      have hadopted : n.adoptedBy (.message now sender msg) = m.ofSlot (m.adopts msg) := by
        rw [adoptedBy, hsome]
        rfl
      have hle := hm.steady.resets
      have hresets := resets_hear m (m.hears msg)
      rw [heq]
      rcases dispatch_reports m now sender hmsg hawake with (⟨h, hs⟩ | ⟨h, hs⟩) | ⟨h, hs⟩
      · rw [reports_hear, ← hheard] at h
        rcases hm.steady.hush id with ⟨hm, hs'⟩ | ⟨hm, hs'⟩
        · exact .heard (hm ▸ h) (hs.trans (hresets.trans hs'))
        · rw [hm, List.append_nil] at h
          exact .afresh h (hs'.trans_le (hs.trans hresets).ge)
      · exact .forgotten h (hle.trans_lt (hresets ▸ hs))
      · exact .adopted (h.trans hadopted.symm) (hle.trans_lt hs)

theorem step_reports {boot : Boot S} {i : Input S} (h : n.step boot i = some m) :
    Reports n i m := by
  have hreboot {s : Storage} {lane : List BlockJob} {nonce : Nat}
      (h : n.reboot boot s lane nonce = some m) : Reports n i m := by
    obtain ⟨_, hacts⟩ := Acts.reboot (K := deaf) trivial h
    have hnone : m.reports = [] := (hacts.steady.hush id).elim And.left And.left
    have hincarnation : m.incarnation = n.incarnation + 1 := hacts.moves.later.incarnation
    exact .restarted hnone (hincarnation ▸ Nat.lt_succ_self _)
  have hhandle (hi : i.reports = false) (hheard : n.heardBy i = [])
      (h : (if n.panicked then none else n.handle i) = some m) : Reports n i m := by
    obtain ⟨-, h⟩ := Option.ite_none_left_eq_some.mp h
    have hdeeds := handle_deeds (K := deaf) trivial trivial h (by simp [hi]) (fun _ => trivial)
      fun _ => trivial
    exact .quiet hheard (hdeeds.steady.hush id)
  cases i with
  | message now sender msg =>
    obtain ⟨-, h⟩ := Option.ite_none_left_eq_some.mp h
    obtain ⟨-, h⟩ := Option.ite_none_left_eq_some.mp h
    cases h
    exact handleMessage_reports n now sender msg
  | rot | cancels =>
    cases h
    exact .quiet rfl (.inl ⟨rfl, rfl⟩)
  | crash | restart => exact hreboot h
  | _ => exact hhandle rfl rfl h

/-- **A replica forgets only what its durable checkpoint covers.** In every state it reaches, the
quorum checkpoint it keeps is the largest op that a quorum of the voters has reported since the last
view transition; and whenever `run_gc` runs, the checkpoint it prunes to is the one the landed root
holds. -/
theorem quorum_checkpoint_and_pruning {boot : Boot S} (h : Reachable boot n) :
    n.AtQuorum ∧
      (∀ i m, n.step boot i = some m → Reports n i m) ∧
      ∀ i m, n.collecting i = some m →
        n.step boot i = some ((m.runGc.gcBlocks.retryUnappendedAdoptedTail).maybeSwapEpoch) ∧
        m.AtQuorum ∧
        m.checkpointOp = m.storage.landed.checkpointOp ∧
        ∀ op, Dropped m m.runGc op →
          op ≤ m.storage.landed.checkpointOp ∧ (m.isPrimary = true → op ≤ m.quorumCheckpoint) := by
  refine ⟨h.coherent.counted.atQuorum, fun i m => step_reports, fun i m hm => ?_⟩
  obtain ⟨hcounted, hdurable⟩ := h.coherent.collecting hm
  refine ⟨step_collecting hm, hcounted.atQuorum, hdurable, fun op hop => ⟨?_, fun hprimary => ?_⟩⟩
  · rw [← hdurable]
    exact hop.runGc.trans m.gcFloor_le
  · exact hop.runGc.trans (m.gcFloor_le_quorum hprimary)

/-- The leader of a group of three that checkpoints after every op. -/
def thriftyBoot : Boot Tally :=
  ⟨{ cluster := 1, localMember := 7, checkpointOps := 1 }, trioMembership, {}⟩

def thriftyStart : Node Tally := (genesis thriftyBoot 5 { capacity := 64 }).get (by decide +kernel)

/-- The second voter acknowledges the first op, and says what it has checkpointed. -/
def thriftyVote (checkpoint : OpNumber) : Input Tally :=
  .message 0 (.replica 1) (.prepareOk
    ⟨0, 1, 1, checkpoint, (LogEntry.mk 3 1 (.present [9])).identity, 0, trioMembership.configId⟩)

/-- The leader applies the request, and the root of the checkpoint it takes is at the device; the
other voter has checkpointed by then. -/
def thriftyRooting : Node Tally :=
  (thriftyStart.run thriftyBoot
    [.message 0 (.client 3) (.request ⟨3, 1, [9]⟩), .appendDone 0 ⟨1, 1⟩, thriftyVote 0,
     .blockDone 0 (.materialized 40 41 true), .checkpointDone 0 ⟨1, 3⟩, thriftyVote 1]).get
    (by decide +kernel)

/-- When the root lands two of three have checkpointed the op, and it leaves the log. -/
theorem quorum_checkpoint_and_pruning_thrifty :
    thriftyRooting.reports = [(8, 1), (8, 0)] ∧
      ((thriftyRooting.collecting (.rootDone 0)).map fun m =>
        (m.quorumCheckpoint, m.log.keys, m.runGc.log.keys)) = some (1, [1], []) ∧
      thriftyRooting.AtQuorum :=
  have hstart : Reachable thriftyBoot thriftyStart :=
    .start (.genesis 5 _ _ rfl (Option.some_get _).symm)
  ⟨by decide +kernel, by decide +kernel,
    (quorum_checkpoint_and_pruning (hstart.run _ (Option.some_get _).symm)).1⟩

end Node

end Viewstamp
