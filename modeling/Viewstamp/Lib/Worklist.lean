import Mathlib.Data.Finset.Card
import Mathlib.Data.Finset.Insert
import Mathlib.Data.List.Nodup
import Mathlib.Logic.Relation

/- Exploring a graph with a worklist.

   The edges of a vertex are known or not. A worklist keeps the vertices it has
   discovered and, among them, a list of those it has not expanded yet; it expands a
   vertex once its edges are known and discovers what they lead to. When nothing is
   left to expand, what was discovered is what can be reached. -/
namespace Worklist

variable {A : Type}

/-- An edge of a vertex whose edges are known. -/
def Edge (edges : A → Option (List A)) (a b : A) : Prop := ∃ bs, edges a = some bs ∧ b ∈ bs

def Reach (edges : A → Option (List A)) (root : A) : A → Prop :=
  Relation.ReflTransGen (Edge edges) root

theorem Reach.mono {edges known : A → Option (List A)}
    (h : ∀ a bs, edges a = some bs → known a = some bs) {root a : A} (hr : Reach edges root a) :
    Reach known root a := by
  induction hr with
  | refl => exact .refl
  | tail _ hstep ih =>
    obtain ⟨bs, hbs, hmem⟩ := hstep
    exact ih.tail ⟨bs, h _ bs hbs, hmem⟩

variable [DecidableEq A]

/-- A worklist over the vertices expanded so far: what it discovered is reachable, and what it
expanded leads to nothing it has not discovered. -/
structure Covers (edges : A → Option (List A)) (root : A) (visited : Finset A) (frontier : List A) :
    Prop where
  root_mem : root ∈ visited
  frontier_sub : ∀ a ∈ frontier, a ∈ visited
  frontier_nodup : frontier.Nodup
  reach : ∀ a ∈ visited, Reach edges root a
  expanded : ∀ a ∈ visited, a ∉ frontier → ∃ bs, edges a = some bs ∧ ∀ b ∈ bs, b ∈ visited

namespace Covers

variable {edges known : A → Option (List A)} {root a : A} {visited : Finset A} {frontier : List A}

omit [DecidableEq A] in
theorem start (edges : A → Option (List A)) (root : A) : Covers edges root {root} [root] where
  root_mem := Finset.mem_singleton_self root
  frontier_sub _ h := Finset.mem_singleton.mpr (List.mem_singleton.mp h)
  frontier_nodup := List.nodup_singleton root
  reach a h := by
    rw [Finset.mem_singleton.mp h]
    exact .refl
  expanded a h hno := absurd (List.mem_singleton.mpr (Finset.mem_singleton.mp h)) hno

/-- The first vertex of the list is expanded: its edges are known now, and the new vertices among
them join the list. -/
theorem expand (h : Covers edges root visited (a :: frontier)) (hnone : edges a = none)
    {bs new : List A} (hnew : ∀ b ∈ new, b ∈ bs ∧ b ∉ visited) (hnodup : new.Nodup)
    (hall : ∀ b ∈ bs, b ∈ visited ∨ b ∈ new) :
    Covers (Function.update edges a (some bs)) root (visited ∪ new.toFinset) (frontier ++ new) := by
  have hkeep (x : A) (xs : List A) (hx : edges x = some xs) :
      Function.update edges a (some bs) x = some xs := by
    rw [Function.update_of_ne _ _ edges, hx]
    rintro rfl
    rw [hnone] at hx
    cases hx
  have hreach (x : A) (hx : x ∈ visited) : Reach (Function.update edges a (some bs)) root x :=
    (h.reach x hx).mono hkeep
  have ha : a ∈ visited := h.frontier_sub a List.mem_cons_self
  have hmem (x : A) : x ∈ visited ∪ new.toFinset ↔ x ∈ visited ∨ x ∈ new := by
    rw [Finset.mem_union, List.mem_toFinset]
  constructor
  · exact (hmem root).mpr (.inl h.root_mem)
  · intro x hx
    rcases List.mem_append.mp hx with hx | hx
    · exact (hmem x).mpr (.inl (h.frontier_sub x (List.mem_cons_of_mem a hx)))
    · exact (hmem x).mpr (.inr hx)
  · refine List.nodup_append.mpr ⟨(List.nodup_cons.mp h.frontier_nodup).2, hnodup, ?_⟩
    rintro x hx _ hy rfl
    exact (hnew x hy).2 (h.frontier_sub x (List.mem_cons_of_mem a hx))
  · intro x hx
    rcases (hmem x).mp hx with hx | hx
    · exact hreach x hx
    · exact (hreach a ha).tail ⟨bs, Function.update_self a _ edges, (hnew x hx).1⟩
  · intro x hx hno
    rw [List.mem_append, not_or] at hno
    by_cases hxa : x = a
    · subst hxa
      refine ⟨bs, Function.update_self x _ edges, fun b hb => (hmem b).mpr (hall b hb)⟩
    · have hxv : x ∈ visited := ((hmem x).mp hx).resolve_right hno.2
      have hxf : x ∉ a :: frontier := by
        rw [List.mem_cons, not_or]
        exact ⟨hxa, hno.1⟩
      obtain ⟨xs, hxs, hsub⟩ := h.expanded x hxv hxf
      exact ⟨xs, hkeep x xs hxs, fun b hb => (hmem b).mpr (.inl (hsub b hb))⟩

omit [DecidableEq A] in
/-- With nothing left to expand, everything reachable is discovered, whatever else is known. -/
theorem mem_of_reach (h : Covers edges root visited [])
    (hk : ∀ a bs, edges a = some bs → known a = some bs) (hr : Reach known root a) :
    a ∈ visited := by
  induction hr with
  | refl => exact h.root_mem
  | @tail b c _ hstep ih =>
    obtain ⟨bs, hbs, hsub⟩ := h.expanded b ih List.not_mem_nil
    obtain ⟨cs, hcs, hmem⟩ := hstep
    have heq : some bs = some cs := (hk b bs hbs).symm.trans hcs
    cases heq
    exact hsub c hmem

end Covers

end Worklist
