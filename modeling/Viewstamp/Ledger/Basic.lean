import Mathlib.Logic.Relation
import Viewstamp.Run
import Viewstamp.Sessions

/- The ledger of a replica: the service, how far it has been run, the session
   table, and what was applied and answered.

   Between two checkpoint restores the code changes the ledger in few ways
   (`Post`): an operation is applied, a reconfiguration is passed over, the rows of
   requests that are only accepted are rewritten. `Posts` is a sequence of them. -/
namespace Viewstamp

/-- The answer an event carries to a caller. -/
def Event.answer : Event → Option (OpNumber × ClientId × RequestNumber × Bytes)
  | .committed op client request reply => some (op, client, request, reply)
  | _ => none

structure Ledger (S : Type) where
  cap : Nat
  incarnation : Nat
  panicked : Bool
  applied : List Applied
  sm : S
  smAt : OpNumber
  clients : SessionTable
  answered : List (OpNumber × ClientId × RequestNumber × Bytes)

namespace SessionTable

/-- The committed part of the table is untouched. -/
def Retouched (t t' : SessionTable) : Prop := Sound t → Sound t' ∧ project t' = project t

theorem Retouched.trans {t t' t'' : SessionTable} (h : Retouched t t') (h' : Retouched t' t'') :
    Retouched t t'' := by
  intro hs
  obtain ⟨hs', he⟩ := h hs
  obtain ⟨hs'', he'⟩ := h' hs'
  exact ⟨hs'', he'.trans he⟩

/-- A client without a row counts as one with an empty row. -/
def row (t : SessionTable) (c : ClientId) : Session := (t.get? c).getD {}

theorem get?_project_eq_row (t : SessionTable) (c : ClientId) :
    (project t).get? c = (row t c).committed := by
  rw [get?_project, row]
  cases t.get? c <;> rfl

theorem sound_iff_row {t : SessionTable} :
    Sound t ↔ ∀ c, (row t c).reply.isSome = true ↔ 0 < (row t c).lastOp := by
  constructor
  · intro h c
    unfold row
    cases hg : t.get? c with
    | none => simp
    | some s => exact h c s hg
  · intro h c s hg
    simpa only [row, hg, Option.getD_some] using h c

/-- A table whose rows keep their reply and their last op. -/
theorem Retouched.of_rows {t t' : SessionTable}
    (h : Sound t → ∀ c, (row t' c).reply = (row t c).reply ∧ (row t' c).lastOp = (row t c).lastOp) :
    Retouched t t' := by
  intro hs
  have hrow := h hs
  constructor
  · rw [sound_iff_row]
    intro c
    rw [(hrow c).1, (hrow c).2]
    exact sound_iff_row.mp hs c
  · apply OrdMap.ext_get?
    intro c
    rw [get?_project_eq_row, get?_project_eq_row, Session.committed, Session.committed,
      (hrow c).1, (hrow c).2]

/-- Only the watermarks of the rows change. -/
theorem Retouched.mapVals (t : SessionTable) {f : ClientId → Session → Session}
    (h : ∀ c s, (f c s).reply = s.reply ∧ (f c s).lastOp = s.lastOp) :
    Retouched t (t.mapVals f) := by
  apply of_rows
  intro _ c
  unfold row
  rw [OrdMap.get?_mapVals]
  cases t.get? c with
  | none => exact ⟨rfl, rfl⟩
  | some s => exact h c s

/-- Only the watermark of one row changes. -/
theorem Retouched.insert (t : SessionTable) (c : ClientId) (request : RequestNumber) :
    Retouched t (t.insert c { (t.get? c).getD {} with request := request }) := by
  apply of_rows
  intro _ c'
  unfold row
  rw [OrdMap.get?_insert]
  split
  · rename_i h
    subst h
    exact ⟨rfl, rfl⟩
  · exact ⟨rfl, rfl⟩

/-- Rows of accepted requests are dropped. -/
theorem Retouched.filter (t : SessionTable) :
    Retouched t (t.filter fun _ s => decide (0 < s.lastOp)) := by
  apply of_rows
  intro hs c
  unfold row
  rw [OrdMap.get?_filter]
  cases hg : t.get? c with
  | none => exact ⟨rfl, rfl⟩
  | some s =>
    by_cases hlast : 0 < s.lastOp
    · simp [Option.filter, hlast]
    · have hreply : s.reply = none := by
        have h := (not_congr (hs c s hg)).mpr hlast
        simpa using h
      have hzero : s.lastOp = 0 := by lia
      simp [Option.filter, hreply, hzero]

end SessionTable

namespace Ledger

variable {S : Type}

/-- A failed node records nothing. -/
def record (l : Ledger S) (a : Applied) : List Applied :=
  if l.panicked then l.applied else a :: l.applied

/-- An operation of the service is applied and its caller answered. -/
def apply [StateMachine S] (l : Ledger S) (op : OpNumber) (client : ClientId)
    (request : RequestNumber) (body : Bytes) : Ledger S :=
  let r := StateMachine.apply l.sm op body
  { l with
    applied := l.record ⟨l.incarnation, op, client, request, body, false⟩
    sm := r.1
    smAt := op
    clients := SessionTable.noteApplied l.cap l.clients op client request r.2
    answered := (op, client, request, r.2) :: l.answered }

/-- A reconfiguration is passed over: the service does not see it and no session changes. -/
def configure (l : Ledger S) (op : OpNumber) (client : ClientId) (request : RequestNumber)
    (body : Bytes) : Ledger S :=
  { l with
    applied := l.record ⟨l.incarnation, op, client, request, body, true⟩
    smAt := op }

end Ledger

/-- What the code does to a ledger outside a restore. -/
inductive Post {S : Type} [StateMachine S] : Ledger S → Ledger S → Prop
  | fail (l : Ledger S) : Post l { l with panicked := true }
  | apply (l : Ledger S) (op : OpNumber) (client : ClientId) (request : RequestNumber)
      (body : Bytes) : Post l (l.apply op client request body)
  | configure (l : Ledger S) (op : OpNumber) (client : ClientId) (request : RequestNumber)
      (body : Bytes) : Post l (l.configure op client request body)
  | touch (l : Ledger S) (clients : SessionTable)
      (kept : SessionTable.Retouched l.clients clients) : Post l { l with clients := clients }

theorem Post.alive {S : Type} [StateMachine S] {l l' : Ledger S} (h : Post l l')
    (halive : l'.panicked = false) : l.panicked = false := by
  cases h with
  | fail => cases halive
  | apply | configure | touch => exact halive

theorem Post.incarnation_eq {S : Type} [StateMachine S] {l l' : Ledger S} (h : Post l l') :
    l'.incarnation = l.incarnation := by
  cases h <;> rfl

namespace Node

variable {S : Type}

def ledger (n : Node S) : Ledger S where
  cap := n.config.maxClientSessions
  incarnation := n.incarnation
  panicked := n.panicked
  applied := n.applied
  sm := n.sm
  smAt := n.smAt
  clients := n.clients
  answered := n.events.filterMap Event.answer

variable [StateMachine S]

def Posts (n n' : Node S) : Prop := Relation.ReflTransGen Post n.ledger n'.ledger

namespace Posts

variable {n n' n'' : Node S}

theorem refl (n : Node S) : Posts n n := Relation.ReflTransGen.refl

theorem trans (h : Posts n n') (h' : Posts n' n'') : Posts n n'' :=
  Relation.ReflTransGen.trans h h'

theorem single (h : Post n.ledger n'.ledger) : Posts n n' := Relation.ReflTransGen.single h

theorem of_eq (h : n'.ledger = n.ledger) : Posts n n' := by
  rw [Posts, h]

end Posts

end Node

end Viewstamp
