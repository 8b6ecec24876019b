import Viewstamp.Dispatch

/- Starting, restarting and running one replica.

   A replica starts on a formatted store and then takes inputs one at a time: a
   message, a timer tick, a completion the device chooses, a call of the
   embedder, or a restart. A crash keeps what the device completed; a restart in
   place keeps the storage session with everything in flight. Any input may come
   at any time: what the network loses, repeats, reorders or makes up, what the
   clock says and which write completes next are all the environment's choice. -/
namespace Viewstamp

/-- What the embedder passes to every incarnation of a replica. -/
structure Boot (S : Type) where
  config : Config
  membership : Membership
  sm : S

inductive RecoverError where
  | walCapacityBelowMinimum (capacity minimum : Nat)
  | checkpointOpsChanged (stored configured : Nat)
  | walCapacityChanged (stored reported : Nat)
  | geometryNotRecorded (checkpointOps walCapacity : Nat)
  | unformattedVoter
  deriving DecidableEq

inductive FormatError where
  | alreadyInitialized
  | walCapacityBelowMinimum (capacity minimum : Nat)
  deriving DecidableEq

/-- `genesis_root`: the root of a formatted store. -/
def genesisRoot (config : Config) (membership : Membership) (walCapacity : Nat) : VsrState where
  view := 0
  logView := 0
  commit := 0
  checkpointOp := 0
  checkpointId := 0
  committedHeaders := []
  epoch := membership.epoch
  prevEpoch := membership.epoch
  membership := some membership
  priorConfigIds := [membership.configId, membership.configId]
  configInstallOp := 0
  logFloor := 0
  checkpointOps := config.checkpointOps
  walCapacity := walCapacity
  logView_le := VsrState.blank.logView_le
  checkpointOp_le := VsrState.blank.checkpointOp_le
  headers_band := trivial
  epoch_eq := by simp
  logFloor_ge := VsrState.blank.logFloor_ge

/-- `format`: write the genesis root to a blank store. -/
def format (config : Config) (membership : Membership) (s : Storage) : Except FormatError Storage :=
  if s.landed ≠ .blank then .error .alreadyInitialized
  else if s.capacity < config.minimumWalCapacity then
    .error (.walCapacityBelowMinimum s.capacity config.minimumWalCapacity)
  else .ok { s with landed := genesisRoot config membership s.capacity }

/-- What a replica has done over all its incarnations. -/
structure History where
  emitted : List Outgoing := []
  applied : List Applied := []

namespace Storage

/-- The highest op within the ring above the checkpoint that the header index holds. -/
def scanHead (s : Storage) (checkpointOp checkpointOps : Nat) : OpNumber :=
  ((List.range' (checkpointOp + 1) (effectiveWalCapacity s.capacity checkpointOps)).reverse.find?
    fun op => (s.header op).isSome).getD checkpointOp

end Storage

namespace Node

variable {S : Type}

def history (n : Node S) : History := ⟨n.emitted, n.applied⟩

/-- An endpoint with nothing in it: the fields every constructor leaves at their defaults. -/
def empty (config : Config) (membership : Membership) (sm : S) (nonce incarnation : Nat)
    (storage : Storage) (history : History) : Node S where
  config := config
  walCapacity := storage.capacity
  membership := membership
  prevEpoch := membership.epoch
  lineage := (membership.configId, membership.configId)
  configInstallOp := 0
  status := .normal
  view := 0
  durableView := 0
  op := 0
  commitMin := 0
  smAt := 0
  commitMax := 0
  logView := 0
  viewChange := none
  log := .empty
  inflight := .empty
  buffer := .empty
  sm := sm
  incarnation := incarnation
  nextOpId := 1
  pending := .empty
  deferredAppends := .empty
  walPruned := 0
  appending := .empty
  pendingSb := none
  inheritedFrontier := none
  repersistOrphan := none
  pendingCheckpoint := none
  checkpointOp := 0
  logFloor := 0
  peerCheckpoint := .empty
  reports := []
  resets := 0
  nackFrom := .empty
  quorumCheckpoint := 0
  recover := none
  syncCarriedFaulty := .empty
  repair := .empty
  reconfigureInflight := none
  pendingSwap := none
  storage := storage
  panicked := false
  emitted := history.emitted
  applied := history.applied
  svcFrom := ∅
  svcTarget := 0
  nonce := nonce
  clients := .empty
  events := []
  timers := {}
  checkpointSmRoot := none
  checkpointSessionsRoot := none
  sync := none
  crossEpochIntent := none
  quarantinedDonor := none
  quarantineProbeDeadline := none
  quarantineProbeProgressMark := 0
  syncFetchProgress := 0
  pendingInstall := none
  syncServing := []
  blockFetch := none
  deferredPin := none
  smReconstruct := none
  pendingForfeit := false
  payingCheckpointDebt := false
  peerProgress := .empty
  learnerProof := none
  healthProbe := none
  lane := []

/-- `Genesis::commit`: format the store and start in view zero. The member must have a slot. -/
def genesis (boot : Boot S) (nonce : Nat) (s : Storage) : Option (Node S) :=
  match format boot.config boot.membership s, boot.membership.slotOf boot.config.localMember with
  | .ok s, some _ => some (empty boot.config boot.membership boot.sm nonce 1 s {})
  | _, _ => none

/-- Read every slot of the tail back; the header index seeds the log with placeholders. -/
def submitRecoverTailBatch (n : Node S) : List OpNumber → Node S
  | [] => n
  | op :: ops =>
    let n := match n.storage.header op with
      | some h => { n with log := n.log.insert op (.present h.client h.request []) }
      | none => n
    (n.submitRecoverRead op recoverReadRetries).submitRecoverTailBatch ops

def canonicalOf (headers : List Header) : OrdMap Nat (ClientId × RequestNumber × Checksum) :=
  headers.foldl (fun m h => m.insert h.op h.slotIdentity) .empty

/-- The checks of `recover` that refuse a store. -/
def recoverRefuses (config : Config) (s : Storage) : Option RecoverError :=
  let landed := s.landed
  if s.capacity < config.minimumWalCapacity then
    some (.walCapacityBelowMinimum s.capacity config.minimumWalCapacity)
  else if landed = .blank then none
  else if landed.checkpointOps = 0 || landed.walCapacity = 0 then
    some (.geometryNotRecorded landed.checkpointOps landed.walCapacity)
  else if landed.checkpointOps ≠ config.checkpointOps then
    some (.checkpointOpsChanged landed.checkpointOps config.checkpointOps)
  else if landed.walCapacity ≠ s.capacity then
    some (.walCapacityChanged landed.walCapacity s.capacity)
  else none

/-- The endpoint a store is recovered into, before its reads have answered. -/
def recovering (config : Config) (membership : Membership) (slot : ReplicaId) (sm : S)
    (nonce incarnation : Nat) (s : Storage) (history : History) : Node S :=
  let landed := s.landed
  let effective := s.effectiveRoot
  let cp := landed.checkpointOp
  let canonicalTop := match landed.committedHeaders.getLast? with
    | some h => h.op
    | none => cp
  let hi := max (s.scanHead cp config.checkpointOps) canonicalTop
  let op := max hi cp
  let n : Node S := { empty config membership sm nonce incarnation s history with
    prevEpoch := landed.prevEpoch
    lineage := lineageOf membership.configId landed.priorConfigIds
    configInstallOp := landed.configInstallOp
    status := .recovering
    view := effective.view
    durableView := landed.view
    op := op
    commitMin := cp
    commitMax := effective.commit
    logView := effective.logView
    svcTarget := effective.view
    checkpointOp := cp
    logFloor := min landed.logFloor op
    quorumCheckpoint := if membership.quorum = 1 && membership.isVoter slot then cp else 0
    recover := some
      { formatted := decide (landed.checkpointOps ≠ 0)
        canonical := canonicalOf landed.committedHeaders } }
  let n := n.submitRecoverTailBatch (List.range' (cp + 1) (hi - cp))
  if 0 < cp then
    n.submitTrackedCheckpointRead.mapRecover fun r =>
      { r with checkpointRetries := recoverReadRetries }
  else n

variable [StateMachine S]

/-- `recover`: `none` when the durable membership no longer seats this member. -/
def recoverFrom (boot : Boot S) (nonce incarnation : Nat) (s : Storage) (history : History)
    (lane : List BlockJob) : Except RecoverError (Option (Node S)) :=
  let s := s.collapseParkedRoots
  match recoverRefuses boot.config s with
  | some e => .error e
  | none =>
    let membership := s.landed.membership.getD boot.membership
    match membership.slotOf boot.config.localMember with
    | none => .ok none
    | some slot =>
      if s.landed = .blank && membership.isVoter slot then .error .unformattedVoter
      else
        let n := recovering boot.config membership slot boot.sm nonce incarnation s history
        .ok (some ({ n with lane }.recoverProgress 0))

/-- The endpoint a recovery builds. -/
theorem recoverFrom_eq {boot : Boot S} {nonce incarnation : Nat} {s : Storage} {history : History}
    {lane : List BlockJob} {n : Node S}
    (h : recoverFrom boot nonce incarnation s history lane = .ok (some n)) :
    ∃ membership slot, membership = s.collapseParkedRoots.landed.membership.getD boot.membership ∧
      membership.slotOf boot.config.localMember = some slot ∧
      n = { recovering boot.config membership slot boot.sm nonce incarnation s.collapseParkedRoots
        history with lane }.recoverProgress 0 := by
  unfold recoverFrom at h
  dsimp only at h
  split at h
  · cases h
  · split at h
    · cases h
    · rename_i slot hslot
      split at h
      · cases h
      · cases h
        exact ⟨_, slot, rfl, hslot, rfl⟩

end Node

/-! ## Runs of one replica -/

/-- One thing that can happen to a replica. -/
inductive Input (S : Type) where
  | message (now : Instant) (sender : Peer) (msg : Message)
  | timeout (now : Instant)
  | appendDone (now : Instant) (id : OpId)
  | appendCancelled (now : Instant) (id : OpId)
  | readDone (now : Instant) (id : OpId) (fault : Bool)
  | rootDone (now : Instant)
  | checkpointDone (now : Instant) (id : OpId)
  | checkpointReadDone (now : Instant) (id : OpId) (fault : Bool)
  | blockDone (now : Instant) (output : Node.BlockJobOutput S)
  | proposeMembership (now : Instant) (delta : SingleVoterDelta) (accept : Bool)
  | solicitHealthProofs (now : Instant) (lifetime : Nat)
  | sealCommittedFrontier
  | rot (op : OpNumber)
  | cancels (choice : OpId → Bool)
  | crash (lands : OpId → Bool) (nonce : Nat)
  | restart (nonce : Nat)

/-- The transport never hands a replica its own messages. -/
def Core.isSelf (n : Core) : Peer → Bool
  | .replica r => n.localSlotOpt == some r
  | .member m => m == n.config.localMember
  | .client _ => false

namespace Node

variable {S : Type} [StateMachine S]

/-- What a running endpoint does with an input; `none` when the input cannot come. -/
def handle (n : Node S) : Input S → Option (Node S)
  | .message now sender msg =>
    if n.isSelf sender then none else some (n.handleMessage now sender msg)
  | .timeout now => some (n.handleTimeout now)
  | .appendDone now id =>
    (n.storage.completeAppend id).map fun (s, done, freed) =>
      { n with storage := s }.onWalDone now done freed
  | .appendCancelled now id =>
    (n.storage.cancelAppend id).map fun (s, done, freed) =>
      { n with storage := s }.onWalDone now done freed
  | .readDone now id fault =>
    (n.storage.completeRead id fault).map fun (s, done) =>
      { n with storage := s }.onWalDone now done none
  | .rootDone now =>
    n.storage.completeRoot.map fun (s, e) =>
      { n with storage := s }.onSbDone now (.wrote e.id) (some e)
  | .checkpointDone now id =>
    (n.storage.completeCheckpoint id).map fun s =>
      { n with storage := s }.onSbDone now (.wrote id) none
  | .checkpointReadDone now id fault =>
    (n.storage.completeCheckpointRead id fault).map fun (s, done) =>
      { n with storage := s }.onSbDone now done none
  | .blockDone now output =>
    match n.lane with
    | [] => none
    | job :: lane => some ({ n with lane }.onBlockDone now job output)
  | .proposeMembership now delta accept => some (n.proposeMembership now delta accept).1
  | .solicitHealthProofs now lifetime => some (n.solicitHealthProofs now lifetime)
  | .sealCommittedFrontier => some n.sealCommittedFrontier
  | .rot _ | .cancels _ | .crash _ _ | .restart _ => none

/-- A restart on `s`; `none` when `recover` builds no endpoint. -/
def reboot (boot : Boot S) (n : Node S) (s : Storage) (lane : List BlockJob) (nonce : Nat) :
    Option (Node S) :=
  match recoverFrom boot nonce (n.incarnation + 1) s n.history lane with
  | .ok m => m
  | .error _ => none

/-- One step of a replica's life. A panicked endpoint can only be restarted. -/
def step (boot : Boot S) (n : Node S) (i : Input S) : Option (Node S) :=
  match i with
  | .rot op => some { n with storage := n.storage.rot op }
  | .cancels choice => some { n with storage := { n.storage with cancels := choice } }
  | .crash lands nonce => n.reboot boot (n.storage.crash lands) [] nonce
  | .restart nonce => n.reboot boot n.storage n.lane nonce
  | i => if n.panicked then none else n.handle i

/-- Take a list of inputs. -/
def run (boot : Boot S) (n : Node S) : List (Input S) → Option (Node S)
  | [] => some n
  | i :: is => (n.step boot i).bind fun n => n.run boot is

/-- The ways a replica comes into being: a genesis commit, or a recovery of a formatted store or,
for a learner, of a blank one. -/
inductive Start (boot : Boot S) : Node S → Prop
  | genesis (nonce : Nat) (s : Storage) (n : Node S) (blank : s = { capacity := s.capacity })
      (h : genesis boot nonce s = some n) : Start boot n
  | recover (nonce : Nat) (s : Storage) (n : Node S)
      (store : s = { capacity := s.capacity } ∨
        format boot.config boot.membership { capacity := s.capacity } = .ok s)
      (h : recoverFrom boot nonce 1 s {} [] = .ok (some n)) : Start boot n

/-- The states a replica can reach. -/
inductive Reachable (boot : Boot S) : Node S → Prop
  | start {n : Node S} (h : Start boot n) : Reachable boot n
  | step {n n' : Node S} (i : Input S) (h : Reachable boot n) (hs : n.step boot i = some n') :
      Reachable boot n'

theorem Reachable.run {boot : Boot S} {n' : Node S} :
    ∀ (is : List (Input S)) {n : Node S}, Reachable boot n → n.run boot is = some n' →
      Reachable boot n'
  | [], _, h, hr => by
    cases hr
    exact h
  | i :: is, n, h, hr => by
    unfold Node.run at hr
    obtain ⟨m, hm, hr⟩ := Option.bind_eq_some_iff.mp hr
    exact Reachable.run is (.step i h hm) hr

end Node

/-! ## Small groups -/

/-- A service that counts what it applies and echoes it. -/
structure Tally where
  count : Nat := 0
  deriving DecidableEq

instance : StateMachine Tally := ⟨fun s _ body => (⟨s.count + 1⟩, body)⟩

/-- A group of one voter. -/
def soloMembership : Membership := (Membership.genesis 1 0 [7]).toOption.get (by decide +kernel)

/-- A group of three voters and one learner. -/
def trioMembership : Membership :=
  (Membership.genesis 3 1 [7, 8, 9, 10]).toOption.get (by decide +kernel)

/-- Member 7 of the group of three voters and a learner, which leads view 0. -/
def Node.leaderBoot : Boot Tally := ⟨{ cluster := 1, localMember := 7 }, trioMembership, {}⟩

def Node.leaderStart : Node Tally :=
  (Node.genesis Node.leaderBoot 5 { capacity := 64 }).get (by decide +kernel)

/-- It has sent its first request, and no vote has arrived. -/
def Node.leaderPrepared : Node Tally :=
  (Node.leaderStart.step Node.leaderBoot (.message 0 (.client 3) (.request ⟨3, 1, [9]⟩))).get
    (by decide +kernel)

end Viewstamp
