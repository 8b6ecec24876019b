import Viewstamp.Ledger.Step

/- Two replicas that applied the same operations hold the same session table.

   `replay` is the abstract replica: it starts with an empty table, runs one
   operation after the other and has no accepted rows, no watermarks and no
   restarts. An endpoint follows it (`Applies.replayed`): whatever posts a run
   makes, its service and the committed part of its table are those of the
   replay of the operations it has applied. -/
namespace Viewstamp

open List

/-- An operation as the log hands it to a replica. -/
structure Command where
  client : ClientId
  request : RequestNumber
  body : Bytes
  reconfigure : Bool
  deriving DecidableEq

def Applied.command (a : Applied) : Command := ⟨a.client, a.request, a.body, a.reconfigure⟩

section Replay

variable {S : Type} [StateMachine S]
variable {start : OpNumber}

/-- Run one operation: a reconfiguration passes the service and the table by. -/
def execute (cap : Nat) (r : S × SessionTable) (op : OpNumber) (c : Command) : S × SessionTable :=
  if c.reconfigure then r
  else
    let out := StateMachine.apply r.1 op c.body
    (out.1, SessionTable.noteApplied cap r.2 op c.client c.request out.2)

/-- Run operations after op `start`. -/
def replay (cap : Nat) (r : S × SessionTable) (start : OpNumber) : List Command → S × SessionTable
  | [] => r
  | c :: cs => replay cap (execute cap r (start + 1) c) (start + 1) cs

theorem replay_append (cap : Nat) (r : S × SessionTable) (start : OpNumber) (cs ds : List Command) :
    replay cap r start (cs ++ ds) = replay cap (replay cap r start cs) (start + cs.length) ds := by
  induction cs generalizing r start with
  | nil => rfl
  | cons c cs ih =>
    rw [cons_append, replay, replay, ih, length_cons, Nat.add_right_comm, Nat.add_assoc]

/-- A replay keeps its table within the cap. -/
theorem replay_tidy {cap : Nat} (hcap : 0 < cap) {r : S × SessionTable} (h : r.2.Tidy cap start)
    (cs : List Command) : (replay cap r start cs).2.Tidy cap (start + cs.length) := by
  induction cs generalizing r start with
  | nil => exact h
  | cons c cs ih =>
    rw [replay, length_cons, ← Nat.add_assoc, Nat.add_right_comm]
    apply ih
    unfold execute
    split
    · exact ⟨fun k s hg => ⟨(h.row k s hg).1, Nat.le_succ_of_le (h.row k s hg).2⟩, h.size_le⟩
    · exact (h.noteApplied hcap c.client c.request _).1

/-- The client of the last operation has a row. -/
theorem replay_concat_row {cap : Nat} (hcap : 0 < cap) {r : S × SessionTable}
    (h : r.2.Tidy cap start) (cs : List Command) {c : Command} (hc : c.reconfigure = false) :
    ((replay cap r start (cs ++ [c])).2.get? c.client).isSome = true := by
  rw [replay_append]
  have ht := replay_tidy hcap h cs
  simp only [replay, execute, hc]
  exact (ht.noteApplied hcap c.client c.request _).2

/-- Operations by the records of their application. -/
def redo (cap : Nat) (r : S × SessionTable) (as : List Applied) : S × SessionTable :=
  as.foldl (fun r a => execute cap r a.op a.command) r

/-- The records of `cs`, applied one after the other above `start`. -/
def records (incarnation : Nat) (start : OpNumber) : List Command → List Applied
  | [] => []
  | c :: cs => ⟨incarnation, start + 1, c.client, c.request, c.body, c.reconfigure⟩ ::
      records incarnation (start + 1) cs

theorem redo_records (cap : Nat) (r : S × SessionTable) (incarnation : Nat) (start : OpNumber)
    (cs : List Command) : redo cap r (records incarnation start cs) = replay cap r start cs := by
  induction cs generalizing r start with
  | nil => rfl
  | cons c cs ih => exact ih (execute cap r (start + 1) c) (start + 1)

theorem records_pos {incarnation : Nat} {cs : List Command} :
    ∀ a ∈ records incarnation start cs, 0 < a.op := by
  induction cs generalizing start with
  | nil => simp [records]
  | cons c cs ih =>
    intro a ha
    rcases mem_cons.mp ha with rfl | ha
    · exact Nat.succ_pos start
    · exact ih a ha

/-- The op a list of records ends at. -/
def lastApplied (start : OpNumber) (as : List Applied) : OpNumber :=
  as.foldl (fun _ a => a.op) start

theorem lastApplied_records (incarnation : Nat) (start : OpNumber) (cs : List Command) :
    lastApplied start (records incarnation start cs) = start + cs.length := by
  induction cs generalizing start with
  | nil => rfl
  | cons c cs ih =>
    have h := ih (start + 1)
    rw [length_cons, ← Nat.add_assoc, Nat.add_right_comm]
    exact h

end Replay

/-! ## Posts replay -/

namespace Ledger

variable {S : Type} [StateMachine S]

/-- The service and the committed part of the table. -/
def view (l : Ledger S) : S × SessionTable := (l.sm, SessionTable.project l.clients)

/-- `l'` is `l` after the operations recorded in `as`. -/
structure Redone (l l' : Ledger S) (as : List Applied) : Prop where
  alive : l.panicked = false
  cap : l'.cap = l.cap
  incarnation : l'.incarnation = l.incarnation
  applied : l'.applied = as.reverse ++ l.applied
  smAt : l'.smAt = lastApplied l.smAt as
  view : (∀ a ∈ as, 0 < a.op) → SessionTable.Sound l.clients →
    SessionTable.Sound l'.clients ∧ l'.view = redo l.cap l.view as

theorem Redone.refl {l : Ledger S} (h : l.panicked = false) : Redone l l [] :=
  ⟨h, rfl, rfl, rfl, rfl, fun _ hs => ⟨hs, rfl⟩⟩

/-- One more operation. -/
theorem Redone.concat {l l' l'' : Ledger S} {as : List Applied} (h : Redone l l' as) {a : Applied}
    (hcap : l''.cap = l'.cap) (hinc : l''.incarnation = l'.incarnation)
    (happlied : l''.applied = a :: l'.applied) (hat : l''.smAt = a.op)
    (hview : 0 < a.op → SessionTable.Sound l'.clients →
      SessionTable.Sound l''.clients ∧ l''.view = execute l'.cap l'.view a.op a.command) :
    Redone l l'' (as ++ [a]) where
  alive := h.alive
  cap := hcap.trans h.cap
  incarnation := hinc.trans h.incarnation
  applied := by rw [happlied, h.applied, reverse_append]; rfl
  smAt := by rw [hat, lastApplied, foldl_append]; rfl
  view := by
    intro hpos hs
    obtain ⟨hs', hv'⟩ := h.view (fun x hx => hpos x (mem_append_left _ hx)) hs
    obtain ⟨hs'', hv''⟩ := hview (hpos a (by simp)) hs'
    refine ⟨hs'', ?_⟩
    rw [hv'', hv', h.cap, redo, redo, foldl_append]
    rfl

theorem execute_apply {l : Ledger S} {op : OpNumber} (hop : 0 < op)
    (hs : SessionTable.Sound l.clients) (client : ClientId) (request : RequestNumber)
    (body : Bytes) :
    SessionTable.Sound (l.apply op client request body).clients ∧
      (l.apply op client request body).view
        = execute l.cap l.view op ⟨client, request, body, false⟩ := by
  refine ⟨hs.noteApplied l.cap hop client request _, ?_⟩
  unfold view apply execute
  dsimp only
  rw [SessionTable.project_noteApplied hs l.cap hop]
  rfl

/-- What was posted is redone by its records, as long as the node has not failed. -/
theorem redone_of_posts {l l' : Ledger S} (h : Relation.ReflTransGen Post l l')
    (halive : l'.panicked = false) : ∃ as, Redone l l' as := by
  induction h with
  | refl => exact ⟨[], Redone.refl halive⟩
  | @tail l1 _ _ hpost ih =>
    cases hpost with
    | fail => cases halive
    | apply op client request body =>
      have hlive : l1.panicked = false := halive
      obtain ⟨as, h⟩ := ih hlive
      have hrec : l1.record ⟨l1.incarnation, op, client, request, body, false⟩
          = ⟨l1.incarnation, op, client, request, body, false⟩ :: l1.applied := by
        unfold record
        rw [if_neg (by simpa using hlive)]
      exact ⟨_, h.concat rfl rfl hrec rfl fun hop hs => execute_apply hop hs client request body⟩
    | configure op client request body =>
      have hlive : l1.panicked = false := halive
      obtain ⟨as, h⟩ := ih hlive
      have hrec : l1.record ⟨l1.incarnation, op, client, request, body, true⟩
          = ⟨l1.incarnation, op, client, request, body, true⟩ :: l1.applied := by
        unfold record
        rw [if_neg (by simpa using hlive)]
      exact ⟨_, h.concat rfl rfl hrec rfl fun _ hs => ⟨hs, rfl⟩⟩
    | touch clients kept =>
      obtain ⟨as, h⟩ := ih halive
      refine ⟨as, { h with view := fun hpos hs => ?_ }⟩
      obtain ⟨hs1, hv⟩ := h.view hpos hs
      obtain ⟨hs', hproj⟩ := kept hs1
      refine ⟨hs', ?_⟩
      rw [← hv, view, view, hproj]

end Ledger

/-! ## Endpoints that follow a list of operations -/

namespace Node

variable {S : Type} [StateMachine S]
variable {boot : Boot S}

/-- What a step works on: the ledger of a new incarnation, or the present one with the image the
input brings. -/
def entry (boot : Boot S) (n : Node S) (i : Input S) : Ledger S :=
  if i.reboots then Ledger.fresh boot (n.incarnation + 1) n.applied else Ledger.opened n i

theorem step_posts {n n' : Node S} {i : Input S} (h : n.step boot i = some n') :
    Relation.ReflTransGen Post (n.entry boot i) n'.ledger := by
  have hhandle (hi : i.reboots = false) (h : (if n.panicked then none else n.handle i) = some n') :
      Relation.ReflTransGen Post (n.entry boot i) n'.ledger := by
    obtain ⟨-, h⟩ := Option.ite_none_left_eq_some.mp h
    rw [entry, hi]
    exact handle_posts h
  cases i with
  | rot | cancels =>
    cases h
    rw [entry, if_neg (by simp [Input.reboots]), opened_of_image_eq_none rfl]
    exact .refl
  | crash | restart => exact reboot_posts h
  | _ => exact hhandle rfl h

/-- In reaching `n'` from `l` the operations of `ops` that come next were applied, in order. -/
def Took (ops : List Command) (l : Ledger S) (n' : Node S) : Prop :=
  ∃ cs, cs <+: ops.drop l.smAt ∧
    n'.applied = (records n'.incarnation l.smAt cs).reverse ++ l.applied

/-- A replica whose service ran `ops`, as far as it got: every operation it applies is the next of
`ops`, and every image it restores is the state of a replica that ran the same operations. -/
inductive Applies : Boot S → List Command → Node S → Prop
  | start {boot : Boot S} {ops : List Command} {n : Node S} (h : Start boot n)
      (took : Took ops (Ledger.fresh boot 1 []) n) : Applies boot ops n
  | step {boot : Boot S} {ops : List Command} {n n' : Node S} (i : Input S)
      (h : Applies boot ops n) (hs : n.step boot i = some n') (plain : n.restores i = none)
      (took : Took ops (n.entry boot i) n') : Applies boot ops n'
  | restore {boot boot' : Boot S} {ops ops' : List Command} {n n' donor : Node S} (i : Input S)
      (h : Applies boot ops n) (hs : n.step boot i = some n') (hdonor : Applies boot' ops' donor)
      (alive : donor.panicked = false)
      (cap : boot'.config.maxClientSessions = boot.config.maxClientSessions)
      (sm : boot'.sm = boot.sm) (same : ops'.take donor.smAt = ops.take donor.smAt)
      (image : n.restores i = some (donor.smAt, donor.sm, SessionTable.project donor.clients))
      (took : Took ops (n.entry boot i) n') : Applies boot ops n'

/-- A ledger at its place in the replay of `ops`. -/
structure Follows (boot : Boot S) (ops : List Command) (l : Ledger S) : Prop where
  cap : l.cap = boot.config.maxClientSessions
  sound : SessionTable.Sound l.clients
  smAt_le : l.smAt ≤ ops.length
  view : l.view = replay boot.config.maxClientSessions (boot.sm, .empty) 0 (ops.take l.smAt)

theorem Follows.fresh (boot : Boot S) (ops : List Command) (incarnation : Nat)
    (applied : List Applied) : Follows boot ops (Ledger.fresh boot incarnation applied) :=
  ⟨rfl, SessionTable.Sound.empty, Nat.zero_le _, rfl⟩

variable {ops : List Command}

/-- What is posted on a ledger that follows `ops` follows `ops`. -/
theorem Follows.posts {l : Ledger S} {n' : Node S} (h : Follows boot ops l)
    (hp : Relation.ReflTransGen Post l n'.ledger) (halive : n'.panicked = false)
    (htook : Took ops l n') : Follows boot ops n'.ledger := by
  obtain ⟨as, hr⟩ := Ledger.redone_of_posts hp halive
  obtain ⟨cs, hcs, happlied⟩ := htook
  obtain rfl : as = records n'.incarnation l.smAt cs := by
    have := hr.applied.symm.trans happlied
    exact reverse_injective (append_cancel_right this)
  have hat : n'.ledger.smAt = l.smAt + cs.length := by
    rw [hr.smAt, lastApplied_records]
  obtain ⟨hsound, hview⟩ := hr.view records_pos h.sound
  refine ⟨hr.cap.trans h.cap, hsound, ?_, ?_⟩
  · have hle := hcs.length_le
    have hl := h.smAt_le
    rw [length_drop] at hle
    rw [hat]
    exact Nat.add_le_of_le_sub' hl hle
  · have htake : ops.take (l.smAt + cs.length) = ops.take l.smAt ++ cs := by
      rw [take_add, ← prefix_iff_eq_take.mp hcs]
    rw [hview, redo_records, h.cap, h.view, hat, htake, replay_append, Nat.zero_add,
      length_take, Nat.min_eq_left h.smAt_le]

/-- The state of a replica that ran the same operations is a place in the replay. -/
theorem Follows.restore {boot boot' : Boot S} {ops ops' : List Command} {l : Ledger S}
    {donor : Node S} (hcap : l.cap = boot.config.maxClientSessions)
    (h : Follows boot' ops' donor.ledger)
    (cap : boot'.config.maxClientSessions = boot.config.maxClientSessions)
    (sm : boot'.sm = boot.sm) (same : ops'.take donor.smAt = ops.take donor.smAt) :
    Follows boot ops (l.restore donor.smAt donor.sm (SessionTable.project donor.clients)) where
  cap := hcap
  sound := h.sound.project
  smAt_le := by
    have hle : donor.smAt ≤ ops'.length := h.smAt_le
    have hlen := congrArg length same
    rw [length_take, length_take, Nat.min_eq_left hle] at hlen
    rw [Ledger.restore, hlen]
    exact Nat.min_le_right _ _
  view := by
    have hview : (donor.sm, SessionTable.project donor.clients)
        = replay boot'.config.maxClientSessions (boot'.sm, .empty) 0 (ops'.take donor.smAt) :=
    h.view
    rw [Ledger.view, Ledger.restore, SessionTable.project_project, hview, cap, sm, same]

/-- An endpoint's service and the committed part of its table are those of the replay. -/
theorem Applies.follows {n : Node S} (h : Applies boot ops n) :
    n.panicked = false → Follows boot ops n.ledger := by
  induction h with
  | @start boot ops n h took =>
    intro halive
    exact (Follows.fresh boot ops 1 []).posts (start_posts h) halive took
  | @step boot ops n n' i h hs plain took ih =>
    intro halive
    have hp := step_posts hs
    refine Follows.posts ?_ hp halive took
    obtain ⟨as, hr⟩ := Ledger.redone_of_posts hp halive
    have hentry := hr.alive
    unfold entry at hentry ⊢
    split
    · exact Follows.fresh boot ops _ _
    · rename_i hboot
      rw [if_neg hboot] at hentry
      rw [opened_of_restores_eq_none plain] at hentry ⊢
      exact ih hentry
  | @restore boot boot' ops ops' n n' donor i h hs hdonor alive cap sm same image took ih ihdonor =>
    intro halive
    have hp := step_posts hs
    refine Follows.posts ?_ hp halive took
    obtain ⟨as, hr⟩ := Ledger.redone_of_posts hp halive
    have hentry := hr.alive
    unfold entry at hentry ⊢
    split
    · exact Follows.fresh boot ops _ _
    · rename_i hboot
      rw [if_neg hboot] at hentry
      rw [opened_of_restores image] at hentry ⊢
      exact Follows.restore (ih hentry).cap (ihdonor alive) cap sm same

/-- Endpoints with one cap that applied the same operations, through whatever accepted rows,
watermarks, rollbacks and restores, project to the same table. The table fits the cap and holds the
client of the last operation, and resuming from the projection at an earlier op leads to it. -/
theorem session_projection_determined {bootA bootB : Boot S} {opsA opsB : List Command}
    {a b : Node S} (ha : Applies bootA opsA a) (hb : Applies bootB opsB b)
    (alive : a.panicked = false ∧ b.panicked = false)
    (cap : bootA.config.maxClientSessions = bootB.config.maxClientSessions)
    (sm : bootA.sm = bootB.sm) (same : opsA.take a.smAt = opsB.take b.smAt) :
    SessionTable.project a.clients = SessionTable.project b.clients ∧
      (SessionTable.project a.clients).size ≤ bootA.config.maxClientSessions ∧
      (∀ c, (opsA.take a.smAt).getLast? = some c → c.reconfigure = false →
        (SessionTable.project a.clients).contains c.client = true) ∧
      ∀ (bootD : Boot S) (opsD : List Command) (d : Node S), Applies bootD opsD d →
        d.panicked = false → bootD.config.maxClientSessions = bootA.config.maxClientSessions →
        bootD.sm = bootA.sm → d.smAt ≤ a.smAt → opsD.take d.smAt = opsA.take d.smAt →
        replay bootA.config.maxClientSessions (d.sm, SessionTable.project d.clients) d.smAt
          ((opsA.take a.smAt).drop d.smAt) = (a.sm, SessionTable.project a.clients) := by
  have hfa := ha.follows alive.1
  have hfb := hb.follows alive.2
  have hview : (a.sm, SessionTable.project a.clients)
      = replay bootA.config.maxClientSessions (bootA.sm, .empty) 0 (opsA.take a.smAt) := hfa.view
  have hclients := congrArg Prod.snd hview
  dsimp only at hclients
  have hcap := bootA.config.maxClientSessions_pos
  have htidy := SessionTable.Tidy.empty bootA.config.maxClientSessions 0
  refine ⟨?_, ?_, ?_, ?_⟩
  · have hviewB : (b.sm, SessionTable.project b.clients)
        = replay bootB.config.maxClientSessions (bootB.sm, .empty) 0 (opsB.take b.smAt) := hfb.view
    rw [← cap, ← sm, ← same, ← hview] at hviewB
    exact (congrArg Prod.snd hviewB).symm
  · rw [hclients]
    exact (replay_tidy hcap htidy _).size_le
  · intro c hlast hc
    obtain ⟨cs, hcs⟩ := getLast?_eq_some_iff.mp hlast
    rw [hclients, hcs]
    exact replay_concat_row hcap htidy cs hc
  · intro bootD opsD d hd aliveD capD smD hle sameD
    have hfd := hd.follows aliveD
    have hviewD : (d.sm, SessionTable.project d.clients)
        = replay bootD.config.maxClientSessions (bootD.sm, .empty) 0 (opsD.take d.smAt) := hfd.view
    have hlen : (opsA.take d.smAt).length = d.smAt := by
      have hled : d.smAt ≤ opsD.length := hfd.smAt_le
      rw [← sameD, length_take, Nat.min_eq_left hled]
    have hsplit : opsA.take a.smAt = opsA.take d.smAt ++ (opsA.take a.smAt).drop d.smAt := by
      conv_lhs => rw [← take_append_drop d.smAt (opsA.take a.smAt), take_take,
        Nat.min_eq_left hle]
    rw [hviewD, capD, smD, sameD, hview]
    conv_rhs => rw [hsplit, replay_append, Nat.zero_add, hlen]

/-- The inputs come one after the other, restore nothing and put nothing to the service. -/
def idles (boot : Boot S) : Node S → List (Input S) → Bool
  | _, [] => true
  | n, i :: is => (n.restores i).isNone && (n.step boot i).any fun n' =>
      n'.applied == (n.entry boot i).applied && n'.idles boot is

theorem Applies.run_idle {n' : Node S} : ∀ {n : Node S} (is : List (Input S)), Applies boot ops n →
    n.idles boot is = true → n.run boot is = some n' → Applies boot ops n'
  | _, [], h, _, hr => by
    cases hr
    exact h
  | n, i :: is, h, hidle, hr => by
    simp only [idles, Bool.and_eq_true, Option.isNone_iff_eq_none, Option.any_eq_true,
      beq_iff_eq] at hidle
    obtain ⟨plain, m, hm, happlied, hidle⟩ := hidle
    have hrest : m.run boot is = some n' := by rwa [Node.run, hm] at hr
    exact (h.step i hm plain ⟨[], nil_prefix, happlied⟩).run_idle is hidle hrest

/-- A lone voter with room for one session, which checkpoints at every op. -/
def soloBoot : Boot Tally :=
  ⟨{ cluster := 1, localMember := 7, maxClientSessions := 1, checkpointOps := 1 },
    soloMembership, {}⟩

def soloStart : Node Tally := (genesis soloBoot 5 { capacity := 64 }).get (by decide +kernel)

/-- The voter accepts a request of client 3. -/
def soloAccepted : Node Tally :=
  (soloStart.step soloBoot (.message 0 (.client 3) (.request ⟨3, 1, [9]⟩))).get (by decide +kernel)

/-- It applies the request. -/
def soloApplied : Node Tally :=
  (soloAccepted.step soloBoot (.appendDone 0 ⟨1, 1⟩)).get (by decide +kernel)

/-- Or it first accepts a request of client 4, -/
def soloCrowded : Node Tally :=
  (soloAccepted.step soloBoot (.message 0 (.client 4) (.request ⟨4, 1, [8]⟩))).get
    (by decide +kernel)

/-- and applies that of client 3 then. -/
def soloCrowdedApplied : Node Tally :=
  (soloCrowded.step soloBoot (.appendDone 0 ⟨1, 1⟩)).get (by decide +kernel)

/-- What follows the first application: its checkpoint lands, the voter crashes, and finds the
checkpoint's blocks when it is back. -/
def soloCrash : List (Input Tally) :=
  [.blockDone 0 (.materialized 40 41 true), .checkpointDone 0 ⟨1, 3⟩, .rootDone 0,
   .crash (fun _ => true) 6, .checkpointReadDone 0 ⟨2, 1⟩ false,
   .blockDone 0 (.walked true (some none))]

def soloCrashed : Node Tally := (soloApplied.run soloBoot soloCrash).get (by decide +kernel)

/-- The image of that checkpoint. -/
def soloImage : Input Tally :=
  .blockDone 0 (.restored (some (soloApplied.sm, SessionTable.project soloApplied.clients)))

def soloRestored : Node Tally := (soloCrashed.step soloBoot soloImage).get (by decide +kernel)

def soloOps : List Command := [⟨3, 1, [9], false⟩]

theorem Applies.step_get {n : Node S} (h : Applies boot ops n) (i : Input S)
    (hs : (n.step boot i).isSome = true) (plain : n.restores i = none)
    (took : Took ops (n.entry boot i) ((n.step boot i).get hs)) :
    Applies boot ops ((n.step boot i).get hs) :=
  Applies.step i h (Option.some_get hs).symm plain took

theorem soloAccepted_applies : Applies soloBoot soloOps soloAccepted := by
  have hstart : Applies soloBoot soloOps soloStart :=
    .start (.genesis 5 _ _ rfl (Option.some_get _).symm) ⟨[], nil_prefix, by decide +kernel⟩
  exact hstart.step_get _ _ rfl ⟨[], nil_prefix, by decide +kernel⟩

theorem soloApplied_applies : Applies soloBoot soloOps soloApplied :=
  soloAccepted_applies.step_get _ _ rfl ⟨soloOps, by decide +kernel, by decide +kernel⟩

theorem soloCrowdedApplied_applies : Applies soloBoot soloOps soloCrowdedApplied := by
  have hcrowded : Applies soloBoot soloOps soloCrowded :=
    soloAccepted_applies.step_get _ _ rfl ⟨[], nil_prefix, by decide +kernel⟩
  exact hcrowded.step_get _ _ rfl ⟨soloOps, by decide +kernel, by decide +kernel⟩

theorem soloRestored_applies : Applies soloBoot soloOps soloRestored := by
  have hcrashed : Applies soloBoot soloOps soloCrashed :=
    soloApplied_applies.run_idle soloCrash (by decide +kernel) (Option.some_get _).symm
  exact hcrashed.restore soloImage (Option.some_get _).symm soloApplied_applies (by decide +kernel)
    rfl rfl rfl (by decide +kernel) ⟨[], nil_prefix, by decide +kernel⟩

/-- The voter back from its crash, with the restored checkpoint, and the one that did not crash: the
request that is only accepted shows in one table and in neither projection. -/
theorem session_projection_determined_solo :
    soloRestored.incarnation = 2 ∧ soloRestored.smAt = 1 ∧
      soloRestored.clients ≠ soloCrowdedApplied.clients ∧
      SessionTable.project soloRestored.clients = SessionTable.project soloCrowdedApplied.clients ∧
      (SessionTable.project soloRestored.clients).size ≤ 1 :=
  have h := session_projection_determined soloRestored_applies soloCrowdedApplied_applies
    ⟨by decide +kernel, by decide +kernel⟩ rfl rfl (by decide +kernel)
  ⟨by decide +kernel, by decide +kernel, by decide +kernel, h.1, h.2.1⟩

end Node

end Viewstamp
