import Viewstamp.Moves.Handle

/- What one step of a replica posts on its ledger.

   No move but the restore of a checkpoint image does anything to the ledger that is
   not a post, so the posts of a step are read off its moves. The image itself comes
   with a block completion: the ledger it opens is the one the step then posts on. -/
namespace Viewstamp

/-- Everything but the restore of an image. -/
def Licence.posting : Licence := { Licence.all with restore := False }

namespace Node

variable {S : Type} [StateMachine S] {K : Licence}

/-- Without a restore, moves are posts. -/
theorem Move.posts {n n' : Node S} (h : Move K n n') (hK : ¬ K.restore) : Posts n n' := by
  rcases h.ledger_cases with hsame | hpost | ⟨hr, -⟩
  · exact Posts.of_eq hsame
  · exact Posts.single hpost
  · exact absurd hr hK

theorem Moves.posts {n n' : Node S} (h : Moves K n n') (hK : ¬ K.restore) : Posts n n' := by
  induction h with
  | refl => exact Posts.refl n
  | tail _ hstep ih => exact ih.trans (hstep.posts hK)

end Node

namespace Ledger

variable {S : Type}

/-- The service and the table are those of a checkpoint image. -/
def restore (l : Ledger S) (op : OpNumber) (sm : S) (clients : SessionTable) : Ledger S :=
  { l with sm := sm, clients := clients, smAt := op }

/-- The ledger of a new incarnation. -/
def fresh (boot : Boot S) (incarnation : Nat) (applied : List Applied) : Ledger S where
  cap := boot.config.maxClientSessions
  incarnation := incarnation
  panicked := false
  applied := applied
  sm := boot.sm
  smAt := 0
  clients := .empty
  answered := []

/-- The ledger an input starts from. -/
def opened (n : Node S) (i : Input S) : Ledger S :=
  match n.restores i with
  | some (op, sm, clients) => n.ledger.restore op sm clients
  | none => n.ledger

end Ledger

namespace Node

variable {S : Type} [StateMachine S]
variable {n : Node S} {i : Input S} {boot : Boot S}

omit [StateMachine S] in
/-- A job that restores nothing leaves the ledger where it was. -/
theorem opened_of_restoring_eq_none (h : n.restoring = none) (i : Input S) :
    Ledger.opened n i = n.ledger := by
  unfold Ledger.opened restores
  rw [h]
  rfl

omit [StateMachine S] in
theorem opened_of_restores_eq_none (h : n.restores i = none) : Ledger.opened n i = n.ledger := by
  unfold Ledger.opened
  rw [h]

omit [StateMachine S] in
theorem opened_of_restores {op : OpNumber} {sm : S} {clients : SessionTable}
    (h : n.restores i = some (op, sm, clients)) :
    Ledger.opened n i = n.ledger.restore op sm clients := by
  unfold Ledger.opened
  rw [h]

omit [StateMachine S] in
theorem opened_of_image_eq_none (h : i.image = none) : Ledger.opened n i = n.ledger := by
  unfold Ledger.opened restores
  rw [h]
  cases n.restoring <;> rfl

omit [StateMachine S] in
theorem opened_of_restoring {op : OpNumber} {sm : S} {clients : SessionTable}
    (h : n.restoring = some op) (hi : i.image = some (sm, clients)) :
    Ledger.opened n i = n.ledger.restore op sm clients := by
  unfold Ledger.opened restores
  rw [h, hi]
  rfl

variable {K : Licence}

/-- A block completion posts on the ledger its image opens. -/
theorem onBlockDone_posts (n : Node S) (now : Instant) (job : BlockJob) (lane : List BlockJob)
    (hlane : n.lane = job :: lane) (output : BlockJobOutput S) :
    Relation.ReflTransGen Post (Ledger.opened n (.blockDone now output))
      ({ n with lane := lane }.onBlockDone now job output).ledger := by
  cases himage : (Input.blockDone now output).image with
  | none =>
    rw [opened_of_image_eq_none himage]
    have hm := Acts.onBlockDone (K := .posting) { n with lane := lane } now job output himage
    exact hm.moves.posts id
  | some image =>
    obtain ⟨sm, clients⟩ := image
    obtain rfl : output = .restored (some (sm, clients)) := by
      cases output <;> simp_all [Input.image]
    cases hop : n.restoring with
    | none =>
      rw [opened_of_restoring_eq_none hop]
      have hm := Acts.onBlockDone_unawaited (K := .posting) n now job lane hlane hop
        (some (sm, clients))
      exact hm.moves.posts id
    | some op =>
      rw [opened_of_restoring hop himage]
      have hm := Acts.onBlockDone_restored (K := .posting) n now job lane hlane hop sm clients
      exact hm.moves.posts id

/-! ## Steps -/

/-- A running endpoint posts on the ledger its input opens. -/
theorem handle_posts {n n' : Node S} (h : n.handle i = some n') :
    Relation.ReflTransGen Post (Ledger.opened n i) n'.ledger := by
  cases himage : n.restores i with
  | none =>
    rw [opened_of_restores_eq_none himage]
    have hm := handle_deeds (K := .posting) trivial trivial h
      (fun _ => trivial) (fun hne => absurd himage hne) fun _ => trivial
    exact hm.moves.posts id
  | some image =>
    -- only a block completion brings an image
    cases i with
    | blockDone now output =>
      unfold handle at h
      cases hlane : n.lane with
      | nil => rw [hlane] at h; cases h
      | cons job lane =>
        rw [hlane] at h
        cases h
        exact onBlockDone_posts n now job lane hlane output
    | _ => simp [restores, Input.image] at himage

theorem start_posts (h : Start boot n) :
    Relation.ReflTransGen Post (Ledger.fresh boot 1 []) n.ledger := by
  obtain ⟨_, _, _, -, hm⟩ := h.acts (K := .posting) trivial
  exact hm.moves.posts id

theorem reboot_posts {n n' : Node S} {s : Storage} {lane : List BlockJob} {nonce : Nat}
    (h : n.reboot boot s lane nonce = some n') :
    Relation.ReflTransGen Post (Ledger.fresh boot (n.incarnation + 1) n.applied) n'.ledger := by
  obtain ⟨_, hm⟩ := Acts.reboot (K := .posting) trivial h
  exact hm.moves.posts id

end Node

end Viewstamp
