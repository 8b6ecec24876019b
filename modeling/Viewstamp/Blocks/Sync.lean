import Viewstamp.Lib.Worklist
import Viewstamp.Types

/- The missing-block frontier of a checkpoint transfer.

   A checkpoint is two graphs of content-addressed blocks, the state machine's and the
   session table's. A walk starts at a root, follows the blocks the local store holds and
   verifies, and stops at the first it does not hold; the transfer pulls that block from
   a donor and feeds the answer to both walks.

   The address of a block is its hash. Nothing is assumed of it here: the address
   function and the resolvers that read the references out of a block are parameters. A
   walk remembers as ghosts the addresses it pushed, in order, and the bytes each address
   had when the walk verified it. -/
namespace Viewstamp.Blocks

open List

open Worklist

variable {A : Type} [DecidableEq A]

/-- A block store: what a read of an address returns, good or bad. -/
abbrev BlockStore (A : Type) := A → Option Bytes

def maxReachableBlocks : Nat := 2 ^ 20

section Store
variable (address : Bytes → A)

/-- `read_verified_block`: a block whose bytes do not hash to its address reads as absent. -/
def readVerifiedBlock (store : BlockStore A) (addr : A) : Option Bytes :=
  match store addr with
  | none => none
  | some bytes => if address bytes = addr then some bytes else none

/-- `BlockStore::put`: a block is stored under its own address. -/
def put (store : BlockStore A) (bytes : Bytes) : BlockStore A :=
  Function.update store (address bytes) (some bytes)

end Store

inductive BlockOutcome where
  | accepted
  | nonFrontier
  deriving DecidableEq

inductive BlockSyncError (A : Type) where
  | addressMismatch (requested computed : A)
  | tooManyBlocks
  deriving DecidableEq

/-- One walk. `pushed` and `verified` are ghosts. -/
structure BlockSync (A : Type) where
  frontier : List A
  visited : Finset A
  pushed : List A
  verified : A → Option Bytes

namespace BlockSync

def new (root : A) : BlockSync A := ⟨[root], {root}, [root], fun _ => none⟩

/-- `enqueue_children`; false when the bound is crossed. -/
def enqueueChildren (s : BlockSync A) : List A → BlockSync A × Bool
  | [] => (s, true)
  | child :: children =>
    if child ∈ s.visited then s.enqueueChildren children
    else
      let s := { s with visited := insert child s.visited }
      if maxReachableBlocks < s.visited.card then (s, false)
      else { s with
        frontier := s.frontier ++ [child], pushed := s.pushed ++ [child] }.enqueueChildren children

/-- The front has been read or written: drop it. -/
def popFront (s : BlockSync A) (addr : A) (bytes : Bytes) : BlockSync A :=
  { s with frontier := s.frontier.tail, verified := Function.update s.verified addr (some bytes) }

variable (address : Bytes → A) (refs : Bytes → List A)

/-- The loop of `advance`, for at most so many turns. -/
def advanceWith (store : BlockStore A) : Nat → BlockSync A → BlockSync A × Bool
  | 0, s => (s, true)
  | turns + 1, s =>
    match s.frontier with
    | [] => (s, true)
    | addr :: _ =>
      match readVerifiedBlock address store addr with
      | none => (s, true)
      | some bytes =>
        match (s.popFront addr bytes).enqueueChildren (refs bytes) with
        | (s, true) => advanceWith store turns s
        | (s, false) => (s, false)

/-- Every turn drops a block, and no more are pushed than the bound leaves room for. -/
def turns (s : BlockSync A) : Nat := s.frontier.length + (maxReachableBlocks - s.visited.card)

def advance (s : BlockSync A) (store : BlockStore A) : BlockSync A × Bool :=
  advanceWith address refs store s.turns s

def nextRequest (s : BlockSync A) (store : BlockStore A) :
    BlockSync A × Except (BlockSyncError A) (Option A) :=
  match s.advance address refs store with
  | (s, true) => (s, .ok s.frontier.head?)
  | (s, false) => (s, .error .tooManyBlocks)

def onBlock (s : BlockSync A) (addr : A) (bytes : Bytes) (store : BlockStore A) :
    BlockSync A × BlockStore A × Except (BlockSyncError A) BlockOutcome :=
  if s.frontier.head? ≠ some addr then (s, store, .ok .nonFrontier)
  else if address bytes ≠ addr then (s, store, .error (.addressMismatch addr (address bytes)))
  else
    let store := put address store bytes
    match (s.popFront addr bytes).enqueueChildren (refs bytes) with
    | (s, false) => (s, store, .error .tooManyBlocks)
    | (s, true) =>
      match s.advance address refs store with
      | (s, false) => (s, store, .error .tooManyBlocks)
      | (s, true) => (s, store, .ok .accepted)

end BlockSync

/-- The walks of one transfer. -/
structure BlockWalks (A : Type) where
  sm : BlockSync A
  session : BlockSync A

namespace BlockWalks

def new (smRoot sessionsRoot : A) : BlockWalks A := ⟨.new smRoot, .new sessionsRoot⟩

variable (address : Bytes → A) (smRefs sessionRefs : Bytes → List A)

/-- What the outcomes of the two walks come to: accepted by either, unless one is over its bound. -/
def acceptVerdict (sm session : Except (BlockSyncError A) BlockOutcome) : Except Unit Bool :=
  match sm, session with
  | .error .tooManyBlocks, _ | _, .error .tooManyBlocks => .error ()
  | .ok .accepted, _ | _, .ok .accepted => .ok true
  | _, _ => .ok false

/-- `accept`: feed a fetched block to both walks; fails when either crosses its bound. -/
def accept (w : BlockWalks A) (addr : A) (bytes : Bytes) (store : BlockStore A) :
    BlockWalks A × BlockStore A × Except Unit Bool :=
  let (sm, store, smOutcome) := w.sm.onBlock address smRefs addr bytes store
  let (session, store, sessionOutcome) := w.session.onBlock address sessionRefs addr bytes store
  (⟨sm, session⟩, store, acceptVerdict smOutcome sessionOutcome)

/-- `next_missing`: the next block to pull, across the two graphs. -/
def nextMissing (w : BlockWalks A) (store : BlockStore A) :
    BlockWalks A × Except Unit (Option A) :=
  match w.sm.nextRequest address smRefs store with
  | (sm, .error _) => ({ w with sm }, .error ())
  | (sm, .ok (some addr)) => ({ w with sm }, .ok (some addr))
  | (sm, .ok none) =>
    match w.session.nextRequest address sessionRefs store with
    | (session, .error _) => (⟨sm, session⟩, .error ())
    | (session, .ok next) => (⟨sm, session⟩, .ok next)

end BlockWalks

/-! ## One walk -/

section Read
variable {address : Bytes → A} {store : BlockStore A} {addr : A} {bytes : Bytes}

theorem readVerifiedBlock_eq_some : readVerifiedBlock address store addr = some bytes ↔
    store addr = some bytes ∧ address bytes = addr := by
  unfold readVerifiedBlock
  split
  · rename_i hnone
    simp [hnone]
  · rename_i held hheld
    rw [hheld]
    split
    · rename_i haddr
      constructor
      · intro h
        cases h
        exact ⟨rfl, haddr⟩
      · exact fun h => h.1
    · rename_i haddr
      refine ⟨nofun, fun h => ?_⟩
      cases h.1
      exact absurd h.2 haddr

theorem readVerifiedBlock_put_self (address : Bytes → A) (store : BlockStore A) (bytes : Bytes) :
    readVerifiedBlock address (put address store bytes) (address bytes) = some bytes :=
  readVerifiedBlock_eq_some.mpr ⟨Function.update_self _ _ _, rfl⟩

theorem readVerifiedBlock_put_of_ne (h : addr ≠ address bytes) :
    readVerifiedBlock address (put address store bytes) addr =
      readVerifiedBlock address store addr := by
  unfold readVerifiedBlock put
  rw [Function.update_of_ne h]

/-- A write hides no verified block. -/
theorem readVerifiedBlock_put_isSome (h : (readVerifiedBlock address store addr).isSome = true) :
    (readVerifiedBlock address (put address store bytes) addr).isSome = true := by
  by_cases heq : addr = address bytes
  · rw [heq, readVerifiedBlock_put_self]
    rfl
  · rwa [readVerifiedBlock_put_of_ne heq]

end Read

/-- More addresses can be reached from the root than the bound admits. -/
def Oversized {A : Type} (refs : Bytes → List A) (root : A) (known : A → Option Bytes) : Prop :=
  ∃ found : Finset A, maxReachableBlocks < found.card ∧
    ∀ b ∈ found, Reach (fun a => (known a).map refs) root b

namespace BlockSync

theorem enqueueChildren_ok : ∀ {children : List A} {s s' : BlockSync A},
    s.enqueueChildren children = (s', true) → ∃ new : List A, new.Nodup ∧
      (∀ b ∈ new, b ∈ children ∧ b ∉ s.visited) ∧ (∀ b ∈ children, b ∈ s.visited ∨ b ∈ new) ∧
      s' = { s with
        frontier := s.frontier ++ new
        visited := s.visited ∪ new.toFinset
        pushed := s.pushed ++ new } ∧
      (s.visited.card ≤ maxReachableBlocks → s'.visited.card ≤ maxReachableBlocks)
  | [], s, s', h => by
    cases h
    exact ⟨[], nodup_nil, nofun, nofun, by simp, id⟩
  | child :: children, s, s', h => by
    unfold enqueueChildren at h
    split at h
    · rename_i hseen
      obtain ⟨new, hnodup, hnew, hall, hs, hcard⟩ := enqueueChildren_ok h
      refine ⟨new, hnodup, fun b hb => ⟨mem_cons_of_mem child (hnew b hb).1, (hnew b hb).2⟩,
        fun b hb => ?_, hs, hcard⟩
      rcases mem_cons.mp hb with rfl | hb
      · exact .inl hseen
      · exact hall b hb
    · rename_i hfresh
      dsimp only at h
      split at h
      · cases h
      · rename_i hroom
        obtain ⟨new, hnodup, hnew, hall, hs, hcard⟩ := enqueueChildren_ok h
        have hnot (b : A) (hb : b ∈ new) : b ≠ child ∧ b ∉ s.visited := by
          have h := (hnew b hb).2
          rwa [Finset.mem_insert, not_or] at h
        refine ⟨child :: new, nodup_cons.mpr ⟨fun hmem => (hnot child hmem).1 rfl, hnodup⟩,
          fun b hb => ?_, fun b hb => ?_, ?_, fun _ => hcard (Nat.not_lt.mp hroom)⟩
        · rcases mem_cons.mp hb with rfl | hb
          · exact ⟨mem_cons_self, hfresh⟩
          · exact ⟨mem_cons_of_mem child (hnew b hb).1, (hnot b hb).2⟩
        · rcases mem_cons.mp hb with rfl | hb
          · exact .inr mem_cons_self
          · rcases hall b hb with hold | hnew'
            · rcases Finset.mem_insert.mp hold with rfl | hold
              · exact .inr mem_cons_self
              · exact .inl hold
            · exact .inr (mem_cons_of_mem child hnew')
        · rw [hs]
          simp [Finset.insert_union]

/-- A walk that is stopped has discovered more than the bound, all of it before or among the
children. -/
theorem enqueueChildren_capped : ∀ {children : List A} {s s' : BlockSync A},
    s.enqueueChildren children = (s', false) → maxReachableBlocks < s'.visited.card ∧
      ∀ b ∈ s'.visited, b ∈ s.visited ∨ b ∈ children
  | [], s, s', h => by cases h
  | child :: children, s, s', h => by
    unfold enqueueChildren at h
    split at h
    · obtain ⟨hcard, hsub⟩ := enqueueChildren_capped h
      exact ⟨hcard, fun b hb => (hsub b hb).imp_right (mem_cons_of_mem child)⟩
    · have hinsert (b : A) (hb : b ∈ insert child s.visited) :
          b ∈ s.visited ∨ b ∈ child :: children := by
        rcases Finset.mem_insert.mp hb with rfl | hb
        · exact .inr mem_cons_self
        · exact .inl hb
      dsimp only at h
      split at h
      · rename_i hover
        cases h
        exact ⟨hover, hinsert⟩
      · obtain ⟨hcard, hsub⟩ := enqueueChildren_capped h
        refine ⟨hcard, fun b hb => ?_⟩
        rcases hsub b hb with hold | hnew
        · exact hinsert b hold
        · exact .inr (mem_cons_of_mem child hnew)

variable {address : Bytes → A} {refs : Bytes → List A} {root : A}

/-- What the walk knows of an address: the bytes it verified, or what a verified read gives. -/
def known (address : Bytes → A) (s : BlockSync A) (store : BlockStore A) (a : A) : Option Bytes :=
  (s.verified a).or (readVerifiedBlock address store a)

/-- The invariant of a walk over a store. -/
structure Walking (address : Bytes → A) (refs : Bytes → List A) (root : A) (store : BlockStore A)
    (s : BlockSync A) : Prop where
  covers : Covers (fun a => (s.verified a).map refs) root s.visited s.frontier
  walked : ∀ a, (s.verified a).isSome = true ↔ a ∈ s.visited ∧ a ∉ s.frontier
  bound : s.visited.card ≤ maxReachableBlocks
  pushed_nodup : s.pushed.Nodup
  pushed_eq : s.pushed.toFinset = s.visited
  held : ∀ a b, s.verified a = some b →
    address b = a ∧ (readVerifiedBlock address store a).isSome = true

namespace Walking

variable {store store' : BlockStore A} {s s' : BlockSync A} {a : A} {bytes : Bytes}
variable {rest : List A}

theorem new (address : Bytes → A) (refs : Bytes → List A) (root : A) (store : BlockStore A) :
    Walking address refs root store (new root) where
  covers := Covers.start _ root
  walked a := by simp [BlockSync.new]
  bound := by
    show ({root} : Finset A).card ≤ _
    rw [Finset.card_singleton]
    decide
  pushed_nodup := nodup_singleton root
  pushed_eq := rfl
  held := nofun

/-- The store changes and keeps what the walk verified readable. -/
theorem store_change (h : Walking address refs root store s)
    (hs : ∀ a, (readVerifiedBlock address store a).isSome = true →
      (readVerifiedBlock address store' a).isSome = true) : Walking address refs root store' s :=
  ⟨h.covers, h.walked, h.bound, h.pushed_nodup, h.pushed_eq,
    fun a b hb => ⟨(h.held a b hb).1, hs a (h.held a b hb).2⟩⟩

theorem unverified_front (h : Walking address refs root store s) (hf : s.frontier = a :: rest) :
    s.verified a = none := by
  cases hv : s.verified a with
  | none => rfl
  | some b =>
    have hw := (h.walked a).mp (by rw [hv]; rfl)
    exact absurd (hf ▸ mem_cons_self) hw.2

/-- Ghost edges are known edges. -/
theorem known_of_verified (address : Bytes → A) (s : BlockSync A) (store : BlockStore A)
    (a : A) (bs : List A) (h : (s.verified a).map refs = some bs) :
    (s.known address store a).map refs = some bs := by
  obtain ⟨b, hb, rfl⟩ := Option.map_eq_some_iff.mp h
  rw [known, hb]
  rfl

theorem reach (h : Walking address refs root store s) (ha : a ∈ s.visited) :
    Reach (fun a => (s.known address store a).map refs) root a :=
  (h.covers.reach a ha).mono (known_of_verified address s store)

/-- The front is dropped and its children enqueued. -/
theorem pop (h : Walking address refs root store s) (hf : s.frontier = a :: rest)
    (hread : readVerifiedBlock address store a = some bytes)
    (hs : (s.popFront a bytes).enqueueChildren (refs bytes) = (s', true)) :
    Walking address refs root store s' ∧ s'.turns < s.turns ∧
      s'.known address store = s.known address store := by
  obtain ⟨new, hnodup, hnew, hall, rfl, hcard⟩ := enqueueChildren_ok hs
  have hnone := h.unverified_front hf
  have hcovers := h.covers
  rw [hf] at hcovers
  have hexp := hcovers.expand (by simp [hnone]) hnew hnodup hall
  have hbound := hcard h.bound
  have hdisj : Disjoint s.visited new.toFinset := by
    rw [Finset.disjoint_left]
    intro b hb hb'
    exact (hnew b (mem_toFinset.mp hb')).2 hb
  have hsize : (s.visited ∪ new.toFinset).card = s.visited.card + new.length := by
    rw [Finset.card_union_of_disjoint hdisj, toFinset_card_of_nodup hnodup]
  refine ⟨⟨?_, ?_, hbound, ?_, ?_, ?_⟩, ?_, ?_⟩
  · have hedges : (fun b => (Function.update s.verified a (some bytes) b).map refs) =
        Function.update (fun b => (s.verified b).map refs) a (some (refs bytes)) := by
      funext b
      by_cases hb : b = a
      · subst hb
        rw [Function.update_self, Function.update_self]
        rfl
      · rw [Function.update_of_ne hb, Function.update_of_ne hb]
    show Covers (fun b => (Function.update s.verified a (some bytes) b).map refs) root
      (s.visited ∪ new.toFinset) (s.frontier.tail ++ new)
    rw [hedges, hf]
    exact hexp
  · intro b
    show (Function.update s.verified a (some bytes) b).isSome = true ↔
      b ∈ s.visited ∪ new.toFinset ∧ b ∉ s.frontier.tail ++ new
    have ha : a ∈ s.visited := hcovers.frontier_sub a mem_cons_self
    rw [hf, tail_cons, Finset.mem_union, mem_toFinset, mem_append]
    by_cases hb : b = a
    · subst hb
      have hrest : b ∉ rest := (nodup_cons.mp hcovers.frontier_nodup).1
      have hfresh : b ∉ new := fun hmem => (hnew b hmem).2 ha
      simp [ha, hrest, hfresh]
    · rw [Function.update_of_ne hb, h.walked b, hf, mem_cons]
      by_cases hmem : b ∈ new
      · have hfresh : b ∉ s.visited := (hnew b hmem).2
        simp [hmem, hfresh]
      · simp [hmem, hb]
  · refine nodup_append.mpr ⟨h.pushed_nodup, hnodup, ?_⟩
    rintro b hb _ hb' rfl
    exact (hnew b hb').2 (h.pushed_eq ▸ mem_toFinset.mpr hb)
  · show (s.pushed ++ new).toFinset = _
    rw [toFinset_append, h.pushed_eq]
    rfl
  · intro b c hc
    change Function.update s.verified a (some bytes) b = some c at hc
    by_cases hb : b = a
    · subst hb
      rw [Function.update_self] at hc
      cases hc
      exact ⟨(readVerifiedBlock_eq_some.mp hread).2, by rw [hread]; rfl⟩
    · rw [Function.update_of_ne hb] at hc
      exact h.held b c hc
  · show (s.frontier.tail ++ new).length + (maxReachableBlocks - (s.visited ∪ new.toFinset).card) <
      s.frontier.length + (maxReachableBlocks - s.visited.card)
    have hle : (s.visited ∪ new.toFinset).card ≤ maxReachableBlocks := hbound
    rw [hsize] at hle ⊢
    rw [hf, tail_cons, length_append, length_cons]
    omega
  · funext b
    show (Function.update s.verified a (some bytes) b).or (readVerifiedBlock address store b) =
      (s.verified b).or (readVerifiedBlock address store b)
    by_cases hb : b = a
    · subst hb
      rw [Function.update_self, hnone, hread]
      rfl
    · rw [Function.update_of_ne hb]

/-- The children of the front take the walk over its bound: so many addresses are reachable. -/
theorem pop_capped (h : Walking address refs root store s)
    (hf : s.frontier = a :: rest) (hread : readVerifiedBlock address store a = some bytes)
    (hs : (s.popFront a bytes).enqueueChildren (refs bytes) = (s', false)) :
    Oversized refs root (s.known address store) := by
  obtain ⟨hcard, hsub⟩ := enqueueChildren_capped hs
  refine ⟨s'.visited, hcard, fun b hb => ?_⟩
  rcases hsub b hb with hold | hchild
  · exact h.reach hold
  · have ha : a ∈ s.visited := h.covers.frontier_sub a (hf ▸ mem_cons_self)
    refine (h.reach ha).tail ⟨refs bytes, ?_, hchild⟩
    show (s.known address store a).map refs = _
    rw [known, h.unverified_front hf, hread]
    rfl

/-- The loop ends by its own condition: the front is missing, or there is none. -/
theorem advanceWith : ∀ {turns : Nat} {s s' : BlockSync A}, Walking address refs root store s →
    s.turns ≤ turns → BlockSync.advanceWith address refs store turns s = (s', true) →
    Walking address refs root store s' ∧ s'.known address store = s.known address store ∧
      s'.turns ≤ s.turns ∧
      ∀ a, s'.frontier.head? = some a → readVerifiedBlock address store a = none
  | 0, s, s', h, ht, hs => by
    cases hs
    have hnil : s.frontier = [] := by
      have hlen : s.frontier.length ≤ 0 := (Nat.le_add_right _ _).trans ht
      exact length_eq_zero_iff.mp (Nat.le_zero.mp hlen)
    refine ⟨h, rfl, Nat.le_refl _, fun a ha => ?_⟩
    rw [hnil] at ha
    cases ha
  | turns + 1, s, s', h, ht, hs => by
    unfold BlockSync.advanceWith at hs
    split at hs
    · rename_i hnil
      cases hs
      refine ⟨h, rfl, Nat.le_refl _, fun a ha => ?_⟩
      rw [hnil] at ha
      cases ha
    · rename_i addr rest hf
      split at hs
      · rename_i hmissing
        cases hs
        refine ⟨h, rfl, Nat.le_refl _, fun a ha => ?_⟩
        rw [hf] at ha
        cases ha
        exact hmissing
      · rename_i bytes hread
        split at hs
        · rename_i s1 hpop
          obtain ⟨h1, hlt, hknown⟩ := h.pop hf hread hpop
          obtain ⟨h', hknown', hle, hfront⟩ :=
            advanceWith h1 (Nat.le_of_lt_succ (hlt.trans_le ht)) hs
          exact ⟨h', hknown'.trans hknown, hle.trans hlt.le, hfront⟩
        · cases hs

theorem advanceWith_capped : ∀ {turns : Nat} {s s' : BlockSync A},
    Walking address refs root store s →
    BlockSync.advanceWith address refs store turns s = (s', false) →
    Oversized refs root (s.known address store)
  | 0, s, s', _, hs => by cases hs
  | turns + 1, s, s', h, hs => by
    unfold BlockSync.advanceWith at hs
    split at hs
    · cases hs
    · rename_i addr rest hf
      split at hs
      · cases hs
      · rename_i bytes hread
        split at hs
        · rename_i s1 hpop
          obtain ⟨h1, -, hknown⟩ := h.pop hf hread hpop
          have hcapped := advanceWith_capped h1 hs
          rwa [hknown] at hcapped
        · rename_i s1 hpop
          exact h.pop_capped hf hread hpop

theorem nextRequest {next : Option A} (h : Walking address refs root store s)
    (hs : s.nextRequest address refs store = (s', .ok next)) :
    Walking address refs root store s' ∧ s'.known address store = s.known address store ∧
      s'.turns ≤ s.turns ∧ next = s'.frontier.head? ∧
      ∀ a, s'.frontier.head? = some a → readVerifiedBlock address store a = none := by
  unfold BlockSync.nextRequest BlockSync.advance at hs
  split at hs
  · rename_i s1 hadv
    cases hs
    obtain ⟨h', hknown, hle, hfront⟩ := h.advanceWith (Nat.le_refl _) hadv
    exact ⟨h', hknown, hle, rfl, hfront⟩
  · cases hs

theorem nextRequest_error {e : BlockSyncError A} (h : Walking address refs root store s)
    (hs : s.nextRequest address refs store = (s', .error e)) :
    Oversized refs root (s.known address store) := by
  unfold BlockSync.nextRequest BlockSync.advance at hs
  split at hs
  · cases hs
  · rename_i s1 hadv
    exact h.advanceWith_capped hadv

/-- A drained walk has discovered exactly what is reachable, and all of it is present. -/
theorem drained (h : Walking address refs root store s) (hnil : s.frontier = []) :
    (∀ a, Reach (fun a => (s.known address store a).map refs) root a ↔ a ∈ s.visited) ∧
      ∀ a ∈ s.visited, (readVerifiedBlock address store a).isSome = true := by
  have hcovers := h.covers
  rw [hnil] at hcovers
  refine ⟨fun a => ⟨fun hr => hcovers.mem_of_reach (known_of_verified address s store) hr, h.reach⟩,
    fun a ha => ?_⟩
  have hv := (h.walked a).mpr ⟨ha, by rw [hnil]; exact not_mem_nil⟩
  obtain ⟨b, hb⟩ := Option.isSome_iff_exists.mp hv
  exact (h.held a b hb).2

end Walking

/-- Everything reachable is present, and there is not too much of it. -/
def Complete (address : Bytes → A) (refs : Bytes → List A) (root : A) (store : BlockStore A)
    (s : BlockSync A) : Prop :=
  ∃ all : Finset A, all.card ≤ maxReachableBlocks ∧ ∀ a,
    (Reach (fun a => (s.known address store a).map refs) root a ↔ a ∈ all) ∧
      (a ∈ all → (readVerifiedBlock address store a).isSome = true)

/-- A request is absent exactly when the walk is complete. -/
theorem Walking.nextRequest_none_iff {store : BlockStore A} {s : BlockSync A}
    (h : Walking address refs root store s) :
    (s.nextRequest address refs store).2 = .ok none ↔ Complete address refs root store s := by
  generalize hs : s.nextRequest address refs store = r
  obtain ⟨s', verdict⟩ := r
  constructor
  · intro hnone
    change verdict = .ok none at hnone
    subst hnone
    obtain ⟨h', hknown, -, hnext, -⟩ := h.nextRequest hs
    have hnil : s'.frontier = [] := head?_eq_none_iff.mp hnext.symm
    obtain ⟨hreach, hheld⟩ := h'.drained hnil
    rw [hknown] at hreach
    exact ⟨s'.visited, h'.bound, fun a => ⟨hreach a, hheld a⟩⟩
  · rintro ⟨all, hcard, hall⟩
    show verdict = .ok none
    match verdict, hs with
    | .error e, hs =>
      obtain ⟨found, hover, hreach⟩ := h.nextRequest_error hs
      have hsub : found ⊆ all := fun b hb => (hall b).1.mp (hreach b hb)
      exact absurd (Finset.card_le_card hsub) (Nat.not_le.mpr (hcard.trans_lt hover))
    | .ok (some a), hs =>
      obtain ⟨h', hknown, -, hnext, hmissing⟩ := h.nextRequest hs
      have ha : a ∈ s'.visited :=
        h'.covers.frontier_sub a (mem_of_mem_head? (Option.mem_def.mpr hnext.symm))
      have hr := h'.reach ha
      rw [hknown] at hr
      have hheld := (hall a).2 ((hall a).1.mp hr)
      rw [hmissing a hnext.symm] at hheld
      cases hheld
    | .ok none, _ => rfl

/-- A fetched block: it is stored only when it was at the front and under the address it hashes to;
an accepted one moves the walk on, a refused one changes nothing, and the walk is aborted only over
its bound. -/
theorem Walking.onBlock {store store' : BlockStore A} {s s' : BlockSync A} {addr : A}
    {bytes : Bytes}
    {verdict : Except (BlockSyncError A) BlockOutcome} (h : Walking address refs root store s)
    (hs : s.onBlock address refs addr bytes store = (s', store', verdict)) :
    (s' = s ∧ store' = store ∧ verdict ≠ .ok .accepted ∧ verdict ≠ .error .tooManyBlocks) ∨
    (s.frontier.head? = some addr ∧ address bytes = addr ∧ store' = put address store bytes) ∧
      ((verdict = .error .tooManyBlocks ∧ Oversized refs root (s.known address store')) ∨
        verdict = .ok .accepted ∧ Walking address refs root store' s' ∧ s'.turns < s.turns) := by
  unfold BlockSync.onBlock at hs
  split at hs
  · cases hs
    exact .inl ⟨rfl, rfl, nofun, nofun⟩
  · rename_i hfront
    have hhead : s.frontier.head? = some addr := not_not.mp hfront
    split at hs
    · cases hs
      exact .inl ⟨rfl, rfl, nofun, nofun⟩
    · rename_i haddr
      obtain rfl := not_not.mp haddr
      obtain ⟨rest, hf⟩ := head?_eq_some_iff.mp hhead
      have hput : Walking address refs root (put address store bytes) s :=
        h.store_change fun _ => readVerifiedBlock_put_isSome
      have hread := readVerifiedBlock_put_self address store bytes
      dsimp only at hs
      split at hs
      · rename_i s1 hpop
        cases hs
        exact .inr ⟨⟨hhead, rfl, rfl⟩, .inl ⟨rfl, hput.pop_capped hf hread hpop⟩⟩
      · rename_i s1 hpop
        obtain ⟨h1, hlt, hknown⟩ := hput.pop hf hread hpop
        split at hs
        · rename_i s2 hadv
          cases hs
          have hover := h1.advanceWith_capped hadv
          rw [hknown] at hover
          exact .inr ⟨⟨hhead, rfl, rfl⟩, .inl ⟨rfl, hover⟩⟩
        · rename_i s2 hadv
          cases hs
          obtain ⟨h2, -, hle, -⟩ := h1.advanceWith (Nat.le_refl _) hadv
          exact .inr ⟨⟨hhead, rfl, rfl⟩, .inr ⟨rfl, h2, hle.trans_lt hlt⟩⟩

/-- Where no two contents share an address, what a walk knows is what the store holds. -/
theorem Walking.known_eq {store : BlockStore A} {s : BlockSync A}
    (h : Walking address refs root store s) (hinj : Function.Injective address) (a : A) :
    s.known address store a = readVerifiedBlock address store a := by
  unfold known
  cases hv : s.verified a with
  | none => rfl
  | some b =>
    obtain ⟨haddr, hheld⟩ := h.held a b hv
    obtain ⟨c, hc⟩ := Option.isSome_iff_exists.mp hheld
    have hbc : b = c := hinj (haddr.trans (readVerifiedBlock_eq_some.mp hc).2.symm)
    rw [hc, hbc]
    rfl

end BlockSync

/-! ## A transfer -/

section Transfer
variable (address : Bytes → A) (smRefs sessionRefs : Bytes → List A) (smRoot sessionsRoot : A)

/-- The walks of a transfer that no call has aborted, over the store it fills: any responses in any
order, pulls in between, and blocks written by other jobs. -/
inductive Transfer : BlockWalks A → BlockStore A → Prop
  | start (store : BlockStore A) : Transfer (.new smRoot sessionsRoot) store
  | accept {w w' : BlockWalks A} {store store' : BlockStore A} {accepted : Bool}
      (h : Transfer w store) (addr : A) (bytes : Bytes)
      (hs : w.accept address smRefs sessionRefs addr bytes store = (w', store', .ok accepted)) :
      Transfer w' store'
  | next {w w' : BlockWalks A} {store : BlockStore A} {missing : Option A} (h : Transfer w store)
      (hs : w.nextMissing address smRefs sessionRefs store = (w', .ok missing)) : Transfer w' store
  | write {w : BlockWalks A} {store : BlockStore A} (h : Transfer w store) (bytes : Bytes) :
      Transfer w (put address store bytes)

end Transfer

variable {address : Bytes → A} {smRefs sessionRefs : Bytes → List A} {smRoot sessionsRoot : A}

namespace BlockWalks

variable {w w' : BlockWalks A} {store store' : BlockStore A}

/-- Both walks keep their invariant. -/
structure Walking (address : Bytes → A) (smRefs sessionRefs : Bytes → List A)
    (smRoot sessionsRoot : A) (store : BlockStore A) (w : BlockWalks A) : Prop where
  sm : w.sm.Walking address smRefs smRoot store
  session : w.session.Walking address sessionRefs sessionsRoot store

/-- The pushes the two walks have room for. -/
def turns (w : BlockWalks A) : Nat := w.sm.turns + w.session.turns

namespace Walking

variable (h : Walking address smRefs sessionRefs smRoot sessionsRoot store w)

include h

theorem put_store (bytes : Bytes) :
    Walking address smRefs sessionRefs smRoot sessionsRoot (put address store bytes) w :=
  ⟨h.sm.store_change fun _ => readVerifiedBlock_put_isSome,
    h.session.store_change fun _ => readVerifiedBlock_put_isSome⟩

/-- What feeding a block does to the store and to the walks: neither walk asked for it, or one did
and it is stored. -/
theorem accept {addr : A} {bytes : Bytes} {verdict : Except Unit Bool}
    (hs : w.accept address smRefs sessionRefs addr bytes store = (w', store', verdict)) :
    (verdict = .ok false ∧ w' = w ∧ store' = store) ∨
    ((w.sm.frontier.head? = some addr ∨ w.session.frontier.head? = some addr) ∧
      address bytes = addr ∧ store' = put address store bytes) ∧
      ((verdict = .error () ∧ (Oversized smRefs smRoot (w.sm.known address store') ∨
          Oversized sessionRefs sessionsRoot (w.session.known address store'))) ∨
        verdict = .ok true ∧ w'.turns < w.turns ∧
          Walking address smRefs sessionRefs smRoot sessionsRoot store' w') := by
  unfold BlockWalks.accept at hs
  generalize hsm : w.sm.onBlock address smRefs addr bytes store = r at hs
  obtain ⟨sm, store1, smOutcome⟩ := r
  dsimp only at hs
  generalize hsession : w.session.onBlock address sessionRefs addr bytes store1 = r at hs
  obtain ⟨session, store2, sessionOutcome⟩ := r
  cases hs
  -- both walks write the same bytes
  have hput : put address (put address store bytes) bytes = put address store bytes :=
    Function.update_idem _ _ _
  rcases h.sm.onBlock hsm with ⟨rfl, rfl, hno, hok⟩ | ⟨⟨hhead, haddr, rfl⟩, hsm'⟩
  · -- the first walk did not ask for the block
    rcases h.session.onBlock hsession with ⟨rfl, rfl, hno', hok'⟩ | ⟨⟨hhead, haddr, rfl⟩, hsession'⟩
    · exact .inl ⟨by unfold acceptVerdict; split <;> simp_all, rfl, rfl⟩
    · refine .inr ⟨⟨.inr hhead, haddr, rfl⟩, ?_⟩
      rcases hsession' with ⟨rfl, hover⟩ | ⟨rfl, hw, hlt⟩
      · exact .inl ⟨by unfold acceptVerdict; split <;> simp_all, .inr hover⟩
      · exact .inr ⟨by unfold acceptVerdict; split <;> simp_all, Nat.add_lt_add_left hlt _,
          (h.put_store bytes).sm, hw⟩
  · rcases (h.put_store bytes).session.onBlock hsession with
      ⟨rfl, rfl, hno', hok'⟩ | ⟨⟨hhead', -, rfl⟩, hsession'⟩
    · refine .inr ⟨⟨.inl hhead, haddr, rfl⟩, ?_⟩
      rcases hsm' with ⟨rfl, hover⟩ | ⟨rfl, hw, hlt⟩
      · exact .inl ⟨rfl, .inl hover⟩
      · exact .inr ⟨by unfold acceptVerdict; split <;> simp_all, Nat.add_lt_add_right hlt _,
          hw, (h.put_store bytes).session⟩
    · rw [hput] at hsession' ⊢
      refine .inr ⟨⟨.inl hhead, haddr, rfl⟩, ?_⟩
      rcases hsm' with ⟨rfl, hover⟩ | ⟨rfl, hw, hlt⟩
      · exact .inl ⟨rfl, .inl hover⟩
      · rcases hsession' with ⟨rfl, hover⟩ | ⟨rfl, hw', hlt'⟩
        · exact .inl ⟨rfl, .inr hover⟩
        · exact .inr ⟨rfl, Nat.add_lt_add hlt hlt', hw, hw'⟩

theorem next {missing : Option A}
    (hs : w.nextMissing address smRefs sessionRefs store = (w', .ok missing)) :
    Walking address smRefs sessionRefs smRoot sessionsRoot store w' ∧ w'.turns ≤ w.turns ∧
      ∀ a, missing = some a → readVerifiedBlock address store a = none ∧
        (w'.sm.frontier.head? = some a ∨ w'.session.frontier.head? = some a) ∧
        (Reach (fun a => (w.sm.known address store a).map smRefs) smRoot a ∨
          Reach (fun a => (w.session.known address store a).map sessionRefs) sessionsRoot a) := by
  have front {s s' : BlockSync A} {refs : Bytes → List A} {root a : A}
      (h' : s'.Walking address refs root store)
      (hknown : s'.known address store = s.known address store)
      (ha : s'.frontier.head? = some a) :
      Reach (fun a => (s.known address store a).map refs) root a := by
    rw [← hknown]
    exact h'.reach (h'.covers.frontier_sub a (mem_of_mem_head? (Option.mem_def.mpr ha)))
  unfold nextMissing at hs
  split at hs
  · cases hs
  · rename_i sm addr hsm
    cases hs
    obtain ⟨h', hknown, hle, hnext, hmissing⟩ := h.sm.nextRequest hsm
    refine ⟨⟨h', h.session⟩, Nat.add_le_add_right hle _, fun a ha => ?_⟩
    cases ha
    exact ⟨hmissing addr hnext.symm, .inl hnext.symm, .inl (front h' hknown hnext.symm)⟩
  · rename_i sm hsm
    obtain ⟨h', -, hle, -, -⟩ := h.sm.nextRequest hsm
    split at hs
    · cases hs
    · rename_i session next hsession
      cases hs
      obtain ⟨h'', hknown, hle', hnext, hmissing⟩ := h.session.nextRequest hsession
      refine ⟨⟨h', h''⟩, Nat.add_le_add hle hle', fun a ha => ?_⟩
      subst ha
      exact ⟨hmissing a hnext.symm, .inr hnext.symm, .inr (front h'' hknown hnext.symm)⟩

theorem next_error {e : Unit}
    (hs : (w.nextMissing address smRefs sessionRefs store).2 = .error e) :
    Oversized smRefs smRoot (w.sm.known address store) ∨
      Oversized sessionRefs sessionsRoot (w.session.known address store) := by
  unfold nextMissing at hs
  split at hs
  · rename_i sm e' hsm
    exact .inl (h.sm.nextRequest_error hsm)
  · cases hs
  · split at hs
    · rename_i session e' hsession
      exact .inr (h.session.nextRequest_error hsession)
    · cases hs

theorem next_none_iff : (w.nextMissing address smRefs sessionRefs store).2 = .ok none ↔
    w.sm.Complete address smRefs smRoot store ∧
      w.session.Complete address sessionRefs sessionsRoot store := by
  rw [← h.sm.nextRequest_none_iff, ← h.session.nextRequest_none_iff]
  unfold nextMissing
  generalize w.sm.nextRequest address smRefs store = r
  generalize w.session.nextRequest address sessionRefs store = r'
  obtain ⟨sm, verdict⟩ := r
  obtain ⟨session, verdict'⟩ := r'
  rcases verdict with e | (_ | a)
  · simp
  · rcases verdict' with e | next <;> simp
  · simp

end Walking

end BlockWalks

theorem Transfer.walking {w : BlockWalks A} {store : BlockStore A}
    (h : Transfer address smRefs sessionRefs smRoot sessionsRoot w store) :
    w.Walking address smRefs sessionRefs smRoot sessionsRoot store := by
  induction h with
  | start store =>
    exact ⟨.new address smRefs smRoot store, .new address sessionRefs sessionsRoot store⟩
  | accept _ addr bytes hs ih =>
    rcases ih.accept hs with ⟨-, rfl, rfl⟩ | ⟨-, ⟨herr, -⟩ | ⟨-, -, hw⟩⟩
    · exact ih
    · cases herr
    · exact hw
  | next _ hs ih => exact (ih.next hs).1
  | write _ bytes ih => exact ih.put_store bytes

/-- A transfer stores a fetched block only when it is the one to pull and under the address it
hashes to, pulls only what is missing and reachable, discovers an address once, has nothing to pull
exactly when both graphs are complete, moves on with every block it accepts, and is aborted only
when more blocks are reachable than the bound admits. -/
theorem transfer_walks {w : BlockWalks A} {store : BlockStore A}
    (h : Transfer address smRefs sessionRefs smRoot sessionsRoot w store) :
    -- what a response does
    (∀ addr bytes w' store' verdict,
      w.accept address smRefs sessionRefs addr bytes store = (w', store', verdict) →
        (∀ a, store' a ≠ store a → a = addr ∧ address bytes = addr ∧ store' a = some bytes ∧
          (w.sm.frontier.head? = some addr ∨ w.session.frontier.head? = some addr)) ∧
        (verdict = .ok true → address bytes = addr ∧ store' addr = some bytes ∧
          (w.sm.frontier.head? = some addr ∨ w.session.frontier.head? = some addr) ∧
          w'.turns < w.turns) ∧
        (verdict = .ok false → w' = w ∧ store' = store) ∧
        (verdict = .error () → Oversized smRefs smRoot (w.sm.known address store') ∨
          Oversized sessionRefs sessionsRoot (w.session.known address store'))) ∧
    -- what is pulled
    (∀ w' missing, w.nextMissing address smRefs sessionRefs store = (w', .ok missing) →
      w'.turns ≤ w.turns ∧ ∀ a, missing = some a → readVerifiedBlock address store a = none ∧
        (w'.sm.frontier.head? = some a ∨ w'.session.frontier.head? = some a) ∧
        (Reach (fun a => (w.sm.known address store a).map smRefs) smRoot a ∨
          Reach (fun a => (w.session.known address store a).map sessionRefs) sessionsRoot a)) ∧
    -- each address is discovered once, and boundedly many are
    ((w.sm.pushed.Nodup ∧ w.sm.pushed.length ≤ maxReachableBlocks) ∧
      w.session.pushed.Nodup ∧ w.session.pushed.length ≤ maxReachableBlocks) ∧
    -- nothing is pulled exactly when everything reachable is there, within the bound
    ((w.sm.nextRequest address smRefs store).2 = .ok none ↔
        w.sm.Complete address smRefs smRoot store) ∧
    ((w.session.nextRequest address sessionRefs store).2 = .ok none ↔
        w.session.Complete address sessionRefs sessionsRoot store) ∧
    ((w.nextMissing address smRefs sessionRefs store).2 = .ok none ↔
      w.sm.Complete address smRefs smRoot store ∧
        w.session.Complete address sessionRefs sessionsRoot store) ∧
    ((w.nextMissing address smRefs sessionRefs store).2 = .error () →
      Oversized smRefs smRoot (w.sm.known address store) ∨
        Oversized sessionRefs sessionsRoot (w.session.known address store)) ∧
    -- what the walks know is what the store holds, where contents have addresses of their own
    (Function.Injective address → ∀ a,
      w.sm.known address store a = readVerifiedBlock address store a ∧
        w.session.known address store a = readVerifiedBlock address store a) := by
  have hw := h.walking
  have hpushed {s : BlockSync A} {refs : Bytes → List A} {root : A}
      (hs : s.Walking address refs root store) :
      s.pushed.Nodup ∧ s.pushed.length ≤ maxReachableBlocks := by
    refine ⟨hs.pushed_nodup, ?_⟩
    rw [← toFinset_card_of_nodup hs.pushed_nodup, hs.pushed_eq]
    exact hs.bound
  refine ⟨?_, fun w' missing hs => (hw.next hs).2, ⟨hpushed hw.sm, hpushed hw.session⟩,
    hw.sm.nextRequest_none_iff, hw.session.nextRequest_none_iff, hw.next_none_iff, hw.next_error,
    fun hinj a => ⟨hw.sm.known_eq hinj a, hw.session.known_eq hinj a⟩⟩
  intro addr bytes w' store' verdict hs
  rcases hw.accept hs with ⟨rfl, rfl, rfl⟩ | ⟨⟨hfront, rfl, rfl⟩, hverdict⟩
  · exact ⟨fun a hne => absurd rfl hne, nofun, fun _ => ⟨rfl, rfl⟩, nofun⟩
  · have hself := Function.update_self (address bytes) (some bytes) store
    refine ⟨fun a hne => ?_, fun hok => ?_, fun hok => ?_, fun herr => ?_⟩
    · by_cases ha : a = address bytes
      · subst ha
        exact ⟨rfl, rfl, hself, hfront⟩
      · exact absurd (Function.update_of_ne ha _ _) hne
    all_goals rcases hverdict with ⟨rfl, hover⟩ | ⟨rfl, hlt, -⟩
    · cases hok
    · exact ⟨rfl, hself, hfront, hlt⟩
    · cases hok
    · cases hok
    · exact hover
    · cases herr

/-! ## A small transfer, and one over the bound -/

/-- Blocks addressed by their length; the empty block refers to the blocks of length one and two,
and the state machine's and the session table's graphs are alike. -/
def forkRefs : Bytes → List Nat
  | [] => [1, 2]
  | _ => []

/-- The store holds the empty block only. -/
def rootStore : BlockStore Nat := fun a => if a = 0 then some [] else none

/-- The walks after the first pull, which asks for block one. -/
def pulledWalks : BlockWalks Nat :=
  (BlockWalks.nextMissing length forkRefs forkRefs (.new 0 0) rootStore).1

/-- A donor has sent block one, and both walks have taken it. -/
def fedWalks : BlockWalks Nat :=
  (pulledWalks.accept length forkRefs forkRefs 1 [7] rootStore).1

/-- The block is stored, the walks have moved on to block two, and a block nobody asked for changes
nothing. -/
theorem transfer_walks_fork :
    (pulledWalks.accept length forkRefs forkRefs 1 [7] rootStore).2.2 = .ok true ∧
      fedWalks.turns < pulledWalks.turns ∧
      put length rootStore [7] 1 = some [7] ∧
      (fedWalks.nextMissing length forkRefs forkRefs (put length rootStore [7])).2 =
        .ok (some 2) ∧
      (fedWalks.accept length forkRefs forkRefs 5 [0, 0, 0, 0, 0]
        (put length rootStore [7])).2.1 = put length rootStore [7] := by
  have hpulled : Transfer length forkRefs forkRefs 0 0 pulledWalks rootStore :=
    .next (.start rootStore)
      (Prod.ext rfl (by decide) : _ = (_, Except.ok (some 1)))
  have haccept : pulledWalks.accept length forkRefs forkRefs 1 [7] rootStore =
      (fedWalks, put length rootStore [7], .ok true) :=
    Prod.ext rfl (Prod.ext rfl (by decide))
  have hfed : Transfer length forkRefs forkRefs 0 0 fedWalks (put length rootStore [7]) :=
    hpulled.accept 1 [7] haccept
  obtain ⟨-, hstored, -, hlt⟩ := ((transfer_walks hpulled).1 1 [7] _ _ _ haccept).2.1 rfl
  exact ⟨by decide, hlt, hstored, by decide,
    (((transfer_walks hfed).1 5 [0, 0, 0, 0, 0] _ _ (.ok false) (Prod.ext rfl
      (Prod.ext rfl (by decide)))).2.2.1 rfl).2⟩

/-- Every address holds its block. -/
def fullStore : BlockStore Nat := fun a => some (replicate a 0)

/-- The empty block refers to one block more than the bound admits. -/
def fanRefs : Bytes → List Nat
  | [] => range' 1 (maxReachableBlocks + 1)
  | _ => []

theorem readVerifiedBlock_fullStore (a : Nat) :
    readVerifiedBlock length fullStore a = some (replicate a 0) :=
  readVerifiedBlock_eq_some.mpr ⟨rfl, length_replicate⟩

/-- Everything reachable is present and there is still something wrong: too much of it. -/
theorem oversized_transfer_aborts :
    (∀ a, (readVerifiedBlock length fullStore a).isSome = true) ∧
      (BlockWalks.nextMissing length fanRefs fanRefs (.new 0 0) fullStore).2 = .error () := by
  have hpresent (a : Nat) : (readVerifiedBlock length fullStore a).isSome = true := by
    rw [readVerifiedBlock_fullStore]
    rfl
  refine ⟨hpresent, ?_⟩
  have hw : (BlockWalks.new 0 0).Walking length fanRefs fanRefs 0 0 fullStore :=
    (Transfer.start fullStore).walking
  have hreach (b : Nat) (hb : b ∈ range' 1 (maxReachableBlocks + 1)) :
      Reach (fun a => ((BlockSync.new 0).known length fullStore a).map fanRefs) 0 b :=
    .single ⟨_, rfl, hb⟩
  generalize hs : BlockWalks.nextMissing length fanRefs fanRefs (.new 0 0) fullStore = r
  obtain ⟨w', verdict⟩ := r
  rcases verdict with e | (_ | a)
  · rfl
  · have hnone : (BlockWalks.nextMissing length fanRefs fanRefs (.new 0 0) fullStore).2 =
        .ok none := by
      rw [hs]
    obtain ⟨⟨all, hcard, hall⟩, -⟩ := hw.next_none_iff.mp hnone
    have hsub : (range' 1 (maxReachableBlocks + 1)).toFinset ⊆ all := by
      intro b hb
      exact (hall b).1.mp (hreach b (mem_toFinset.mp hb))
    have hle := (Finset.card_le_card hsub).trans hcard
    rw [toFinset_card_of_nodup nodup_range', length_range'] at hle
    exact absurd hle (Nat.not_succ_le_self _)
  · have hmissing := ((hw.next hs).2.2 a rfl).1
    rw [readVerifiedBlock_fullStore] at hmissing
    cases hmissing

end Viewstamp.Blocks
