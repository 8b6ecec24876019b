import Mathlib.Algebra.Group.Nat.Defs
import Mathlib.Data.List.Basic
import Mathlib.Data.Nat.Basic
import Mathlib.Order.Lattice

/- Finite maps with ordered keys, as the strictly sorted list of their entries.
   This is what an ordered map (a B-tree map) is to its clients: lookup, insert,
   remove, retain, the greatest key, and iteration in key order. The list is kept
   sorted by a field of the structure, so two maps with the same lookups are equal
   (`ext_get?`). Every operation is a structural recursion on the entry list and
   therefore evaluates in the kernel. -/
namespace OrdMap

variable {K V : Type}

/-- Entries in strictly increasing key order. -/
def Sorted [LinearOrder K] (es : List (K × V)) : Prop :=
  es.Pairwise (fun a b => a.1 < b.1)

section Entries
variable [LinearOrder K]
variable {es : List (K × V)} {k : K}

def lookupEntry (k : K) : List (K × V) → Option V
  | [] => none
  | (k', v) :: es => if k = k' then some v else lookupEntry k es

def insertEntry (k : K) (v : V) : List (K × V) → List (K × V)
  | [] => [(k, v)]
  | (k', v') :: es =>
    if k < k' then (k, v) :: (k', v') :: es
    else if k = k' then (k, v) :: es
    else (k', v') :: insertEntry k v es

theorem Sorted.tail {e : K × V} (h : Sorted (e :: es)) : Sorted es :=
  (List.pairwise_cons.mp h).2

theorem Sorted.head_lt {e : K × V} (h : Sorted (e :: es)) : ∀ x ∈ es, e.1 < x.1 :=
  (List.pairwise_cons.mp h).1

theorem mem_insertEntry {v : V} {x : K × V} (h : x ∈ insertEntry k v es) : x = (k, v) ∨ x ∈ es := by
  induction es with
  | nil => simpa [insertEntry] using h
  | cons e es ih =>
    obtain ⟨k', v'⟩ := e
    simp only [insertEntry] at h
    split at h
    · simpa using h
    · split at h
      · rcases List.mem_cons.mp h with h | h
        · exact .inl h
        · exact .inr (List.mem_cons_of_mem _ h)
      · rcases List.mem_cons.mp h with h | h
        · exact .inr (h ▸ List.mem_cons_self)
        · exact (ih h).imp id (List.mem_cons_of_mem _)

theorem Sorted.insertEntry (h : Sorted es) (k : K) (v : V) : Sorted (insertEntry k v es) := by
  induction es with
  | nil => simp [OrdMap.insertEntry, Sorted]
  | cons e es ih =>
    obtain ⟨k', v'⟩ := e
    simp only [OrdMap.insertEntry]
    split
    · rename_i hlt
      refine List.pairwise_cons.mpr ⟨?_, h⟩
      intro x hx
      rcases List.mem_cons.mp hx with rfl | hx
      · exact hlt
      · exact lt_trans hlt (h.head_lt x hx)
    · split
      · rename_i heq
        subst heq
        exact List.pairwise_cons.mpr ⟨h.head_lt, h.tail⟩
      · rename_i hnlt hne
        refine List.pairwise_cons.mpr ⟨?_, ih h.tail⟩
        intro x hx
        rcases mem_insertEntry hx with rfl | hx
        · exact lt_of_le_of_ne (not_lt.mp hnlt) (Ne.symm hne)
        · exact h.head_lt x hx

theorem lookupEntry_insertEntry {k j : K} {v : V} :
    lookupEntry j (insertEntry k v es) = if j = k then some v else lookupEntry j es := by
  induction es with
  | nil => simp [insertEntry, lookupEntry]
  | cons e es ih =>
    obtain ⟨k', v'⟩ := e
    simp only [insertEntry]
    split
    · simp [lookupEntry]
    · split
      · rename_i heq
        subst heq
        simp only [lookupEntry]
        split <;> rfl
      · rename_i hne
        simp only [lookupEntry, ih]
        by_cases hj : j = k'
        · subst hj
          simp [Ne.symm hne]
        · simp [hj]

theorem length_insertEntry_le (k : K) (v : V) (es : List (K × V)) :
    (insertEntry k v es).length ≤ es.length + 1 := by
  induction es with
  | nil => simp [insertEntry]
  | cons e es ih =>
    simp only [insertEntry]
    split
    · simp
    · split
      · simp
      · simpa using ih

theorem length_insertEntry_of_mem {v w : V} (hs : Sorted es) (h : (k, w) ∈ es) :
    (insertEntry k v es).length = es.length := by
  induction es with
  | nil => cases h
  | cons e es ih =>
    simp only [insertEntry]
    rcases List.mem_cons.mp h with rfl | h
    · simp
    · have hlt : e.1 < k := hs.head_lt (k, w) h
      simp [not_lt.mpr (le_of_lt hlt), ne_of_gt hlt, ih hs.tail h]

/-- A lookup above every key of a sorted list finds nothing. -/
theorem lookupEntry_eq_none (h : ∀ x ∈ es, x.1 ≠ k) : lookupEntry k es = none := by
  induction es with
  | nil => rfl
  | cons e es ih =>
    have hne : k ≠ e.1 := (h e List.mem_cons_self).symm
    simp only [lookupEntry, hne, if_false]
    exact ih (fun x hx => h x (List.mem_cons_of_mem _ hx))

theorem lookupEntry_eq_some {v : V} (hs : Sorted es) : lookupEntry k es = some v ↔ (k, v) ∈ es := by
  induction es with
  | nil => simp [lookupEntry]
  | cons e es ih =>
    obtain ⟨k', v'⟩ := e
    simp only [lookupEntry, List.mem_cons, Prod.mk.injEq]
    by_cases hk : k = k'
    · subst hk
      have hnot : (k, v) ∉ es := fun hm => lt_irrefl k (hs.head_lt (k, v) hm)
      simp [hnot, eq_comm]
    · simp [hk, ih hs.tail]

theorem lookupEntry_filter {p : K → V → Bool} (hs : Sorted es) :
    lookupEntry k (es.filter fun e => p e.1 e.2) = (lookupEntry k es).filter (p k) := by
  induction es with
  | nil => rfl
  | cons e es ih =>
    obtain ⟨k', v'⟩ := e
    have ih := ih hs.tail
    by_cases hk : k = k'
    · subst hk
      have hnone : lookupEntry k es = none :=
        lookupEntry_eq_none (fun x hx => (ne_of_lt (hs.head_lt x hx)).symm)
      cases hp : p k v' <;> simp [List.filter, lookupEntry, hp, ih, hnone, Option.filter]
    · cases hp : p k' v' <;> simp [List.filter, lookupEntry, hp, hk, ih]

theorem sorted_ext {es fs : List (K × V)} (hs : Sorted es) (ht : Sorted fs)
    (h : ∀ x, x ∈ es ↔ x ∈ fs) : es = fs := by
  have hperm : es.Perm fs := by
    refine (List.perm_ext_iff_of_nodup ?_ ?_).mpr h
    · exact hs.imp (fun hlt heq => by rw [heq] at hlt; exact lt_irrefl _ hlt)
    · exact ht.imp (fun hlt heq => by rw [heq] at hlt; exact lt_irrefl _ hlt)
  exact hperm.eq_of_pairwise (fun a b _ _ h1 h2 => (lt_asymm h1 h2).elim) hs ht

end Entries

end OrdMap

/-- A finite map from ordered keys, in key order. -/
structure OrdMap (K V : Type) [LinearOrder K] where
  entries : List (K × V)
  sorted : OrdMap.Sorted entries

namespace OrdMap

variable {K V W : Type} [LinearOrder K]
variable {k : K} {v : V}

def empty : OrdMap K V := ⟨[], List.Pairwise.nil⟩

instance [DecidableEq V] : DecidableEq (OrdMap K V) := fun a b =>
  decidable_of_iff (a.entries = b.entries) (by cases a; cases b; simp)

def get? (m : OrdMap K V) (k : K) : Option V := lookupEntry k m.entries

def insert (m : OrdMap K V) (k : K) (v : V) : OrdMap K V :=
  ⟨insertEntry k v m.entries, m.sorted.insertEntry k v⟩

/-- Keep the entries that satisfy `p`. -/
def filter (m : OrdMap K V) (p : K → V → Bool) : OrdMap K V :=
  ⟨m.entries.filter fun e => p e.1 e.2, m.sorted.filter _⟩

def erase (m : OrdMap K V) (k : K) : OrdMap K V := m.filter fun j _ => j ≠ k

def mapVals (m : OrdMap K V) (f : K → V → W) : OrdMap K W :=
  ⟨m.entries.map fun e => (e.1, f e.1 e.2), List.pairwise_map.mpr (m.sorted.imp id)⟩

/-- Keep and change the values on which `f` is defined. -/
def filterMap (m : OrdMap K V) (f : K → V → Option W) : OrdMap K W :=
  ⟨m.entries.filterMap fun e => (f e.1 e.2).map (e.1, ·), by
    refine List.Pairwise.filterMap _ (fun a b hab x hx y hy => ?_) m.sorted
    simp only [Option.map_eq_some_iff] at hx hy
    obtain ⟨_, _, rfl⟩ := hx
    obtain ⟨_, _, rfl⟩ := hy
    exact hab⟩

def contains (m : OrdMap K V) (k : K) : Bool := (m.get? k).isSome
def isEmpty (m : OrdMap K V) : Bool := m.entries.isEmpty
def size (m : OrdMap K V) : Nat := m.entries.length
def keys (m : OrdMap K V) : List K := m.entries.map Prod.fst
def values (m : OrdMap K V) : List V := m.entries.map Prod.snd
def maxKey? (m : OrdMap K V) : Option K := m.keys.getLast?
def minKey? (m : OrdMap K V) : Option K := m.keys.head?

/-- Replace the value at `k`, if there is one. -/
def modify (m : OrdMap K V) (k : K) (f : V → V) : OrdMap K V :=
  m.mapVals fun j v => if j = k then f v else v

variable {m : OrdMap K V}

theorem mem_entries : (k, v) ∈ m.entries ↔ m.get? k = some v :=
  (lookupEntry_eq_some m.sorted).symm

theorem ext_get? {m n : OrdMap K V} (h : ∀ k, m.get? k = n.get? k) : m = n := by
  have hes : m.entries = n.entries := by
    refine sorted_ext m.sorted n.sorted ?_
    rintro ⟨k, v⟩
    rw [mem_entries, mem_entries, h k]
  cases m; cases n; simp_all

@[simp] theorem get?_empty (k : K) : (empty : OrdMap K V).get? k = none := rfl

theorem get?_insert (m : OrdMap K V) (k j : K) (v : V) :
    (m.insert k v).get? j = if j = k then some v else m.get? j :=
  lookupEntry_insertEntry

@[simp] theorem get?_insert_self (m : OrdMap K V) (k : K) (v : V) :
    (m.insert k v).get? k = some v := by simp [get?_insert]

theorem get?_insert_of_ne (m : OrdMap K V) {k j : K} (v : V) (h : j ≠ k) :
    (m.insert k v).get? j = m.get? j := by simp [get?_insert, h]

@[simp] theorem get?_filter (m : OrdMap K V) (p : K → V → Bool) (k : K) :
    (m.filter p).get? k = (m.get? k).filter (p k) :=
  lookupEntry_filter m.sorted

theorem get?_filter_eq_some {p : K → V → Bool} :
    (m.filter p).get? k = some v ↔ m.get? k = some v ∧ p k v = true := by
  simp [Option.filter_eq_some_iff]

theorem get?_erase (m : OrdMap K V) (k j : K) :
    (m.erase k).get? j = if j = k then none else m.get? j := by
  rw [erase, get?_filter]
  cases hm : m.get? j with
  | none => simp
  | some v =>
    by_cases hj : j = k <;> simp [Option.filter, hj]

@[simp] theorem get?_erase_self (m : OrdMap K V) (k : K) : (m.erase k).get? k = none := by
  simp [get?_erase]

theorem get?_filterMap (m : OrdMap K V) (f : K → V → Option W) (k : K) :
    (m.filterMap f).get? k = (m.get? k).bind (f k) := by
  have hmem : ∀ w, (m.filterMap f).get? k = some w ↔ (m.get? k).bind (f k) = some w := by
    intro w
    rw [← mem_entries]
    simp only [filterMap, List.mem_filterMap, Option.map_eq_some_iff, Prod.mk.injEq,
      Option.bind_eq_some_iff]
    constructor
    · rintro ⟨e, he, v, hv, rfl, rfl⟩
      exact ⟨e.2, mem_entries.mp he, hv⟩
    · rintro ⟨v, hv, hw⟩
      exact ⟨(k, v), mem_entries.mpr hv, w, hw, rfl, rfl⟩
  exact Option.ext hmem

theorem get?_mapVals (m : OrdMap K V) (f : K → V → W) (k : K) :
    (m.mapVals f).get? k = (m.get? k).map (f k) := by
  obtain ⟨es, hs⟩ := m
  simp only [get?, mapVals]
  clear hs
  induction es with
  | nil => rfl
  | cons e es ih =>
    simp only [List.map_cons, lookupEntry]
    split
    · rename_i hk
      subst hk
      rfl
    · exact ih

theorem get?_modify (m : OrdMap K V) (k j : K) (f : V → V) :
    (m.modify k f).get? j = if j = k then (m.get? j).map f else m.get? j := by
  rw [modify, get?_mapVals]
  by_cases hj : j = k
  · simp [hj]
  · simp [hj]

theorem contains_iff : m.contains k = true ↔ ∃ v, m.get? k = some v := by
  simp [contains, Option.isSome_iff_exists]

theorem size_insert_of_contains (h : m.contains k = true) (v : V) :
    (m.insert k v).size = m.size := by
  obtain ⟨w, hw⟩ := contains_iff.mp h
  exact length_insertEntry_of_mem m.sorted (mem_entries.mpr hw)

theorem size_insert_le (m : OrdMap K V) (k : K) (v : V) : (m.insert k v).size ≤ m.size + 1 :=
  length_insertEntry_le k v m.entries

theorem size_erase_lt (h : m.contains k = true) : (m.erase k).size < m.size := by
  obtain ⟨w, hw⟩ := contains_iff.mp h
  exact List.length_filter_lt_length_iff_exists.mpr ⟨(k, w), mem_entries.mpr hw, by simp⟩

theorem mem_keys : k ∈ m.keys ↔ ∃ v, m.get? k = some v := by
  simp [keys, ← mem_entries]

/-- The first entry found is the one with the least key. -/
theorem find?_entries_eq_some {p : K → Bool} (h : m.entries.find? (fun e => p e.1) = some (k, v)) :
    m.get? k = some v ∧ p k = true ∧ ∀ j w, m.get? j = some w → p j = true → k ≤ j := by
  obtain ⟨hk, before, after, hsplit, hbefore⟩ := List.find?_eq_some_iff_append.mp h
  have hmem : (k, v) ∈ m.entries := by
    rw [hsplit]
    exact List.mem_append_right _ List.mem_cons_self
  refine ⟨mem_entries.mp hmem, hk, fun j w hj hpj => ?_⟩
  have hj' : (j, w) ∈ before ++ (k, v) :: after := hsplit ▸ mem_entries.mpr hj
  rcases List.mem_append.mp hj' with hin | hin
  · have hno := hbefore _ hin
    simp [hpj] at hno
  · rcases List.mem_cons.mp hin with heq | hin
    · cases heq
      exact le_refl _
    · have hs : Sorted (before ++ (k, v) :: after) := hsplit ▸ m.sorted
      have htail := (List.pairwise_append.mp hs).2.1
      exact le_of_lt ((List.pairwise_cons.mp htail).1 _ hin)

theorem find?_entries_eq_none {p : K → Bool} (h : m.entries.find? (fun e => p e.1) = none)
    (hk : m.get? k = some v) : p k = false := by
  have hno := List.find?_eq_none.mp h _ (mem_entries.mpr hk)
  simpa using hno

theorem mem_values : v ∈ m.values ↔ ∃ k, m.get? k = some v := by
  simp [values, ← mem_entries]

end OrdMap
