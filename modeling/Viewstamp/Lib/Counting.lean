import Mathlib.Data.Finset.Card
import Mathlib.Data.List.Sort

/- Counting arguments over votes. An order statistic of a list answers how many
   of its elements lie below a bound; two families of large enough subsets of a
   common set always meet, and the size bound is exactly what makes them meet. -/
namespace Counting

variable {α : Type}

/-! ## Order statistics -/

/-- In a list whose elements satisfying `p` come first, more than `i` elements satisfy it exactly
when the one at `i` does. -/
theorem lt_countP_iff_of_first {l : List α} {p : α → Bool} (hs : l.Pairwise fun a b => p b → p a)
    {i : Nat} {d : α} (h : l[i]? = some d) : i < l.countP p ↔ p d := by
  induction l generalizing i with
  | nil => simp at h
  | cons x l ih =>
    obtain ⟨hx, hs⟩ := List.pairwise_cons.mp hs
    by_cases hp : p x
    · rw [List.countP_cons_of_pos hp]
      cases i with
      | zero =>
        obtain rfl : x = d := by simpa using h
        simp [hp]
      | succ i => rw [Nat.add_lt_add_iff_right, ih hs (by simpa using h)]
    · -- what does not come first does not come at all
      have hz : (x :: l).countP p = 0 := by
        rw [List.countP_eq_zero]
        intro y hy
        rcases List.mem_cons.mp hy with rfl | hy
        · exact hp
        · exact fun hpy => hp (hx y hy hpy)
      have hd : ¬ p d := List.countP_eq_zero.mp hz d (List.mem_of_getElem? h)
      simp [hz, hd]

/-- All but the last `n` of a list in increasing order are the elements that at least `n` others
are greater than. -/
theorem mem_take_iff_of_increasing {key : α → Nat} {l : List α}
    (hs : l.Pairwise fun a b => key a < key b) {x : α} (hx : x ∈ l) (n : Nat) :
    x ∈ l.take (l.length - n) ↔ n ≤ (l.filter fun y => key x < key y).length := by
  induction l with
  | nil => cases hx
  | cons a l ih =>
    obtain ⟨ha, hs⟩ := List.pairwise_cons.mp hs
    have hle : (l.filter fun y => key x < key y).length ≤ l.length := List.length_filter_le ..
    obtain rfl | hx := List.mem_cons.mp hx
    · -- The least element: all others are greater.
      have hall : l.filter (fun y => key x < key y) = l :=
        List.filter_eq_self.mpr fun y hy => by simpa using ha y hy
      rw [List.filter_cons_of_neg (by simp), hall, List.length_cons]
      obtain hn | hn := Nat.lt_or_ge l.length n
      · rw [Nat.sub_eq_zero_of_le hn]
        simpa using hn
      · rw [Nat.succ_sub hn, List.take_succ_cons]
        simpa using hn
    · have hax := ha x hx
      have hne : x ≠ a := by
        rintro rfl
        exact Nat.lt_irrefl _ hax
      rw [List.filter_cons_of_neg (by simpa using hax.le), ← ih hs hx, List.length_cons]
      obtain hn | hn := Nat.lt_or_ge l.length n
      · rw [Nat.sub_eq_zero_of_le hn, Nat.sub_eq_zero_of_le hn.le, List.take_zero, List.take_zero,
          List.mem_nil_iff]
      · rw [Nat.succ_sub hn, List.take_succ_cons, List.mem_cons]
        simp [hne]

section Order
variable [LinearOrder α]

/-- The element at `i` of the sorted list, read as a count over the list itself. -/
theorem lt_countP_iff {l : List α} {i : Nat} {d : α}
    (h : (l.insertionSort (· ≤ ·))[i]? = some d) (k : α) :
    i < l.countP (fun y => decide (y < k)) ↔ d < k := by
  rw [← (l.perm_insertionSort (· ≤ ·)).countP_eq, lt_countP_iff_of_first ?_ h, decide_eq_true_iff]
  refine (l.pairwise_insertionSort (· ≤ ·)).imp fun {a b} hab hb => ?_
  simp only [decide_eq_true_iff] at hb ⊢
  exact hab.trans_lt hb

/-- The same for the list sorted downwards: more than `i` elements reach `k` exactly when the one
at `i` does. -/
theorem lt_countP_ge_iff {l : List α} {i : Nat} {d : α}
    (h : (l.insertionSort (· ≥ ·))[i]? = some d) (k : α) :
    i < l.countP (fun y => decide (k ≤ y)) ↔ k ≤ d := by
  rw [← (l.perm_insertionSort (· ≥ ·)).countP_eq, lt_countP_iff_of_first ?_ h, decide_eq_true_iff]
  refine (l.pairwise_insertionSort (· ≥ ·)).imp fun {a b} hab hb => ?_
  simp only [decide_eq_true_iff] at hb ⊢
  exact hb.trans hab

end Order

/-! ## Intersecting families -/

section Sets
variable [DecidableEq α]

/-- Subsets of `V` with `a` elements all meet subsets of `W` with `b` elements exactly when
`a` and `b` together exceed the larger of the two sets. -/
theorem all_meet_iff {V W : Finset α} (h : V ⊆ W) {a b : Nat} (ha : a ≤ V.card) :
    (∀ A ⊆ V, a ≤ A.card → ∀ B ⊆ W, b ≤ B.card → (A ∩ B).Nonempty) ↔ W.card < a + b := by
  constructor
  · intro hmeet
    by_contra hle
    obtain ⟨A, hA, hAcard⟩ := Finset.exists_subset_card_eq ha
    have hrest : b ≤ (W \ A).card := by
      rw [Finset.card_sdiff_of_subset (hA.trans h)]
      omega
    obtain ⟨B, hB, hBcard⟩ := Finset.exists_subset_card_eq hrest
    obtain ⟨x, hx⟩ := hmeet A hA (by omega) B (hB.trans Finset.sdiff_subset) (by omega)
    rw [Finset.mem_inter] at hx
    exact (Finset.mem_sdiff.mp (hB hx.2)).2 hx.1
  · intro hlt A hA ha B hB hb
    exact Finset.inter_nonempty_of_card_lt_card_add_card (hA.trans h) hB (by omega)

end Sets

end Counting
