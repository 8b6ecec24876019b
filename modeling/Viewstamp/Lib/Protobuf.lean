import Mathlib.Algebra.GroupWithZero.Nat
import Mathlib.Data.List.Basic
import Mathlib.Algebra.Order.BigOperators.Group.List
import Mathlib.Algebra.Order.Group.Nat

/- The protobuf wire format, as far as encoded sizes go.

   A message is a list of fields. A field is a tag, which is the varint of its number and wire
   type, and a value: a varint, or a varint length followed by that many bytes. A scalar with its
   default value and an empty byte field are left out; a field with explicit presence, an element
   of a repeated field and an arm of a `oneof` are written whatever they hold. -/
namespace Protobuf

/-! ## Encoders -/

/-- Base 128, least significant group first, the top bit set on every byte but the last. -/
def groups : (more : Nat) → Nat → List UInt8
  | 0, n => [UInt8.ofNat n]
  | more + 1, n =>
    if n < 128 then [UInt8.ofNat n] else UInt8.ofNat (n % 128 + 128) :: groups more (n / 128)

/-- The varint of a 64-bit value: ten groups hold any of them. -/
def varint (n : Nat) : List UInt8 := groups 9 n

def tag (number wireType : Nat) : List UInt8 := varint (number * 8 + wireType)

inductive Field where
  | uint (number value : Nat)
  | bytes (number : Nat) (value : List UInt8)
  /-- An `optional` scalar that is present. -/
  | someUint (number value : Nat)
  /-- A length-delimited value with presence: an arm of a `oneof`, an element of a repeated
  field, a present `optional`. -/
  | delimited (number : Nat) (value : List UInt8)

namespace Field

def number : Field → Nat
  | uint n _ | bytes n _ | someUint n _ | delimited n _ => n

/-- The bytes a length-delimited field carries. -/
def payload : Field → List UInt8
  | bytes _ v | delimited _ v => v
  | uint _ _ | someUint _ _ => []

def encode : Field → List UInt8
  | uint n v => if v = 0 then [] else tag n 0 ++ varint v
  | someUint n v => tag n 0 ++ varint v
  | bytes n v => if v = [] then [] else tag n 2 ++ varint v.length ++ v
  | delimited n v => tag n 2 ++ varint v.length ++ v

end Field

def encode (fields : List Field) : List UInt8 := fields.flatMap Field.encode

/-! ## Sizes -/

/-- The most bytes a length takes, when it is below `2 ^ 35`. -/
def lengthPrefix (n : Nat) : Nat := if n < 128 then 1 else 5

namespace Field

/-- The most bytes a field with a one-byte tag takes. -/
def worst : Field → Nat
  | uint _ _ | someUint _ _ => 1 + 10
  | bytes _ v | delimited _ v => 1 + lengthPrefix v.length + v.length

/-- The tag is one byte, and the length prefix at most five. -/
def Narrow (f : Field) : Prop := f.number < 16 ∧ f.payload.length < 2 ^ 35

end Field

theorem length_groups_le (more n : Nat) : (groups more n).length ≤ more + 1 := by
  induction more generalizing n with
  | zero => simp [groups]
  | succ more ih =>
    rw [groups]
    split
    · simp
    · have := ih (n / 128)
      rw [List.length_cons]
      omega

/-- A value of `k` groups takes `k` bytes. -/
theorem length_groups_le_of_lt {more k n : Nat} (h : n < 128 ^ (k + 1)) :
    (groups more n).length ≤ k + 1 := by
  induction k generalizing more n with
  | zero =>
    cases more with
    | zero => simp [groups]
    | succ more => rw [groups, if_pos (by simpa using h)]; simp
  | succ k ih =>
    cases more with
    | zero => simp [groups]
    | succ more =>
      rw [groups]
      split
      · simp
      · have hdiv : n / 128 < 128 ^ (k + 1) := by
          rw [Nat.div_lt_iff_lt_mul (by decide), ← Nat.pow_succ]
          exact h
        have hrest : (groups more (n / 128)).length ≤ k + 1 := ih hdiv
        rw [List.length_cons]
        omega

theorem length_varint_le (n : Nat) : (varint n).length ≤ 10 := length_groups_le 9 n

theorem length_varint_le_lengthPrefix {n : Nat} (h : n < 2 ^ 35) :
    (varint n).length ≤ lengthPrefix n := by
  rw [lengthPrefix]
  split
  · exact length_groups_le_of_lt (by omega)
  · exact length_groups_le_of_lt (by simpa using h)

theorem lengthPrefix_le (n : Nat) : lengthPrefix n ≤ 5 := by
  rw [lengthPrefix]
  split <;> omega

theorem length_tag_le {number wireType : Nat} (h : number < 16) (hw : wireType < 8) :
    (tag number wireType).length ≤ 1 :=
  length_groups_le_of_lt (by omega)

theorem Field.length_encode_le {f : Field} (h : f.Narrow) : f.encode.length ≤ f.worst := by
  obtain ⟨hnum, hlen⟩ := h
  have hscalar (n v : Nat) (hn : n < 16) : (tag n 0 ++ varint v).length ≤ 1 + 10 := by
    have ht : (tag n 0).length ≤ 1 := length_tag_le hn (by decide)
    have hv := length_varint_le v
    rw [List.length_append]
    omega
  have hdelim (n : Nat) (v : List UInt8) (hn : n < 16) (hv : v.length < 2 ^ 35) :
      (tag n 2 ++ varint v.length ++ v).length ≤ 1 + lengthPrefix v.length + v.length := by
    have ht : (tag n 2).length ≤ 1 := length_tag_le hn (by decide)
    have hv := length_varint_le_lengthPrefix hv
    rw [List.length_append, List.length_append]
    omega
  cases f with
  | uint n v =>
    rw [encode]
    split
    · simp
    · exact hscalar n v hnum
  | someUint n v => exact hscalar n v hnum
  | bytes n v =>
    rw [encode]
    split
    · simp
    · exact hdelim n v hnum hlen
  | delimited n v => exact hdelim n v hnum hlen

theorem length_encode_le {fields : List Field} (h : ∀ f ∈ fields, f.Narrow) :
    (encode fields).length ≤ (fields.map Field.worst).sum := by
  rw [encode, List.length_flatMap]
  exact List.sum_le_sum fun f hf => f.length_encode_le (h f hf)

/-- An arm of a `oneof` numbered up to 2047 has a tag of two bytes. -/
theorem length_encode_arm_le {number : Nat} {value : List UInt8} (h : number < 2048)
    (hlen : value.length < 2 ^ 35) :
    (encode [.delimited number value]).length ≤ 2 + 5 + value.length := by
  have hv := (length_varint_le_lengthPrefix hlen).trans (lengthPrefix_le _)
  have ht : (tag number 2).length ≤ 2 := length_groups_le_of_lt (by omega)
  rw [encode, List.flatMap_singleton, Field.encode, List.length_append, List.length_append]
  omega

end Protobuf
