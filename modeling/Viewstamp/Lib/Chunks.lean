import Mathlib.Data.List.Basic
import Mathlib.Tactic.ByContra

/- A list cut into pieces of a fixed length, the last one shorter. -/
namespace Chunks

variable {α : Type}
variable {n : Nat}

def chunks (n : Nat) (xs : List α) : List (List α) :=
  if n = 0 ∨ xs = [] then [] else xs.take n :: chunks n (xs.drop n)
termination_by xs.length
decreasing_by
  rename_i h
  obtain ⟨hn, hxs⟩ := not_or.mp h
  have hpos : 0 < xs.length := List.length_pos_iff.mpr hxs
  simp only [List.length_drop]
  omega

theorem flatten_chunks (hn : n ≠ 0) (xs : List α) : (chunks n xs).flatten = xs := by
  fun_induction chunks n xs with
  | case1 xs h => simpa using (h.resolve_left hn).symm
  | case2 xs _ ih => rw [List.flatten_cons, ih, List.take_append_drop]

theorem length_le_of_mem {xs c : List α} (h : c ∈ chunks n xs) : c.length ≤ n := by
  fun_induction chunks n xs with
  | case1 xs _ => simp at h
  | case2 xs _ ih =>
    rcases List.mem_cons.mp h with rfl | h
    · exact List.length_take_le n xs
    · exact ih h

theorem ne_nil_of_mem {xs c : List α} (h : c ∈ chunks n xs) : c ≠ [] := by
  fun_induction chunks n xs with
  | case1 xs _ => simp at h
  | case2 xs hno ih =>
    rcases List.mem_cons.mp h with rfl | h
    · simpa [List.take_eq_nil_iff] using hno
    · exact ih h

theorem chunks_ne_nil (hn : n ≠ 0) {xs : List α} (h : xs ≠ []) : chunks n xs ≠ [] := by
  intro hnil
  apply h
  rw [← flatten_chunks hn xs, hnil, List.flatten_nil]

/-- Only the last piece is short. -/
theorem length_chunks_mul (n : Nat) (xs : List α) :
    (chunks n xs).length * n ≤ xs.length + (n - 1) := by
  fun_induction chunks n xs with
  | case1 xs _ => simp
  | case2 xs hno ih =>
    obtain ⟨hn, hxs⟩ := not_or.mp hno
    have hpos : 0 < xs.length := List.length_pos_iff.mpr hxs
    rw [List.length_cons, Nat.add_mul, Nat.one_mul]
    rw [List.length_drop] at ih
    rcases Nat.le_total n xs.length with hle | hle
    · omega
    · -- the only piece there is
      have hzero : xs.length - n = 0 := by omega
      have hlast : (chunks n (xs.drop n)).length = 0 := by
        rw [List.drop_eq_nil_of_le hle, chunks, if_pos (.inr rfl), List.length_nil]
      rw [hlast]
      omega

theorem length_chunks_lt {xs : List α} (hn : 1 < n) (h : n < xs.length) :
    (chunks n xs).length < xs.length := by
  have hmul := length_chunks_mul n xs
  by_contra hle
  have hge : xs.length * n ≤ (chunks n xs).length * n :=
    Nat.mul_le_mul_right n (Nat.not_lt.mp hle)
  have htwo : xs.length * 2 ≤ xs.length * n := Nat.mul_le_mul_left _ hn
  omega

end Chunks
