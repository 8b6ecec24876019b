import Viewstamp.Lib.Bits
import Viewstamp.Reconfigure.Delta

/- Votes across a change of slots.

   A vote is a bit at the slot of the member that cast it, and a configuration change
   moves members between slots. `rekeySlotBits` is the loop that carries a word of votes
   from one layout to the next; read as a set of slots it is `Core.rekeySlotBitset`, the
   form the rest of the model uses. What it keeps is described member by member. -/
namespace Viewstamp

namespace Membership

variable {m successor : Membership} {who : MemberId} {bits r : BitVec 64}

/-- `1u64 << k`, which fails for a shift by the width or more. -/
def voteBit (k : Nat) : Option (BitVec 64) := if k < 64 then some (1#64 <<< k) else none

/-- The loop of `rekey_slot_bitset`: the lowest set bit is taken off and placed again at its
member's voter slot of the successor, if it has one. -/
def rekeyLoop (m successor : Membership) : (rounds : Nat) → (rest remapped : BitVec 64) →
    Option (BitVec 64)
  | 0, _, _ => none
  | rounds + 1, rest, remapped =>
    if rest = 0#64 then some remapped
    else
      let oldSlot := rest.ctz.toNat
      let rest := rest &&& (rest - 1#64)
      match (m.memberAt oldSlot).bind successor.slotOf with
      | none => m.rekeyLoop successor rounds rest remapped
      | some newSlot =>
        if successor.isVoter newSlot then
          match voteBit newSlot with
          | none => none
          | some bit => m.rekeyLoop successor rounds rest (remapped ||| bit)
        else m.rekeyLoop successor rounds rest remapped

/-- `rekey_slot_bitset`; a word has at most 64 bits to take off. -/
def rekeySlotBits (m : Membership) (bits : BitVec 64) (successor : Membership) :
    Option (BitVec 64) :=
  m.rekeyLoop successor 65 bits 0#64

/-! ## Slots and members -/

/-- A voter's slot is a bit of the word. -/
theorem lt_of_isVoter {slot : ReplicaId} (h : m.isVoter slot = true) : slot < 64 :=
  Nat.lt_of_lt_of_le (of_decide_eq_true h) m.valid.voters

theorem mem_voterSet_of_isVoter {slot : ReplicaId} (hat : m.memberAt slot = some who)
    (hv : m.isVoter slot = true) : who ∈ m.voterSet :=
  mem_voterSet.mpr (mem_voters_of_slotOf (slotOf_eq_some_iff.mpr hat) hv)

/-! ## The loop -/

/-- The slot a vote moves to, if its member votes in the successor. -/
def newSlots (m successor : Membership) (slot : ReplicaId) : Finset ReplicaId :=
  match (m.memberAt slot).bind successor.slotOf with
  | some slot => if successor.isVoter slot then {slot} else ∅
  | none => ∅

theorem mem_newSlots {i j : ReplicaId} :
    j ∈ m.newSlots successor i ↔
      successor.isVoter j = true ∧
        ∃ who, m.memberAt i = some who ∧ successor.memberAt j = some who := by
  unfold newSlots
  cases hat : m.memberAt i with
  | none => simp
  | some who =>
    cases hslot : successor.slotOf who with
    | none =>
      have hnone : successor.memberAt j ≠ some who := fun h => by
        rw [slotOf_eq_some_iff.mpr h] at hslot
        cases hslot
      simp [hslot, hnone]
    | some slot =>
      have hiff : j = slot ↔ successor.memberAt j = some who := by
        rw [← slotOf_eq_some_iff, hslot, Option.some_inj, eq_comm]
      by_cases hv : successor.isVoter slot = true
      · simp only [Option.bind_some, hslot, hv, if_true, Finset.mem_singleton, Option.some_inj,
          exists_eq_left', ← hiff]
        exact ⟨fun h => ⟨h ▸ hv, h⟩, And.right⟩
      · simp only [Option.bind_some, hslot, hv, Option.some_inj, exists_eq_left', ← hiff]
        exact ⟨nofun, fun ⟨hj, h⟩ => absurd (h ▸ hj) hv⟩

/-- With a round for every bit left, the loop ends, and adds the moved slots of those bits. -/
theorem rekeyLoop_eq (m successor : Membership) : ∀ (rounds : Nat) (rest remapped : BitVec 64),
    (Bits.positions rest).card < rounds → ∃ r, m.rekeyLoop successor rounds rest remapped = some r ∧
      Bits.positions r
        = Bits.positions remapped ∪ (Bits.positions rest).biUnion (m.newSlots successor)
  | 0, _, _, h => absurd h (Nat.not_lt_zero _)
  | rounds + 1, rest, remapped, h => by
    by_cases hzero : rest = 0#64
    · subst hzero
      exact ⟨remapped, by rw [rekeyLoop, if_pos rfl], by simp⟩
    · have hlow := Bits.ctz_mem_positions hzero
      have hclear := Bits.positions_clear_lowest hzero
      have hfewer : (Bits.positions (rest &&& (rest - 1#64))).card < rounds := by
        rw [hclear, Finset.card_erase_of_mem hlow]
        have := Finset.card_pos.mpr ⟨_, hlow⟩
        omega
      -- the bits of the round are the lowest one and those the recursion takes off
      have hsplit : (Bits.positions rest).biUnion (m.newSlots successor)
          = m.newSlots successor rest.ctz.toNat
            ∪ (Bits.positions (rest &&& (rest - 1#64))).biUnion (m.newSlots successor) := by
        rw [hclear, ← Finset.biUnion_insert, Finset.insert_erase hlow]
      rw [hsplit, rekeyLoop, if_neg hzero]
      dsimp only
      cases hslot : (m.memberAt rest.ctz.toNat).bind successor.slotOf with
      | none =>
        have hnone : m.newSlots successor rest.ctz.toNat = ∅ := by rw [newSlots, hslot]
        rw [hnone, Finset.empty_union]
        exact rekeyLoop_eq m successor rounds _ remapped hfewer
      | some slot =>
        by_cases hv : successor.isVoter slot = true
        · have hone : m.newSlots successor rest.ctz.toNat = {slot} := by
            rw [newSlots, hslot]
            exact if_pos hv
          have hlt := lt_of_isVoter hv
          simp only [hv, if_true, voteBit, hlt]
          obtain ⟨r, hr, hpositions⟩ :=
            rekeyLoop_eq m successor rounds (rest &&& (rest - 1#64))
              (remapped ||| 1#64 <<< slot) hfewer
          refine ⟨r, hr, ?_⟩
          rw [hpositions, Bits.positions_or, Bits.positions_one_shiftLeft hlt, hone,
            Finset.union_assoc]
        · have hnone : m.newSlots successor rest.ctz.toNat = ∅ := by
            rw [newSlots, hslot]
            exact if_neg hv
          simp only [hv, hnone, Finset.empty_union]
          exact rekeyLoop_eq m successor rounds _ remapped hfewer

/-- The loop never fails, and its result is the set of moved slots. -/
theorem rekeySlotBits_eq (m successor : Membership) (bits : BitVec 64) :
    ∃ r, m.rekeySlotBits bits successor = some r ∧
      Bits.positions r = (Bits.positions bits).biUnion (m.newSlots successor) := by
  have hfew : (Bits.positions bits).card < 65 := by
    have := Finset.card_le_card
      (Finset.filter_subset (fun i => bits.getLsbD i = true) (Finset.range 64))
    rw [Finset.card_range] at this
    exact Nat.lt_succ_of_le this
  obtain ⟨r, hr, hpositions⟩ := rekeyLoop_eq m successor 65 bits 0#64 hfew
  exact ⟨r, hr, by rw [hpositions, Bits.positions_zero, Finset.empty_union]⟩

theorem getLsbD_rekeySlotBits
    (h : m.rekeySlotBits bits successor = some r) (j : Nat) : r.getLsbD j = true ↔
      successor.isVoter j = true ∧ ∃ who i, successor.memberAt j = some who ∧
        m.memberAt i = some who ∧ bits.getLsbD i = true := by
  obtain ⟨r', hr, hpositions⟩ := m.rekeySlotBits_eq successor bits
  rw [h] at hr
  cases hr
  rw [← Bits.mem_positions, hpositions, Finset.mem_biUnion]
  simp only [mem_newSlots, Bits.mem_positions]
  constructor
  · rintro ⟨i, hi, hv, who, hat, hto⟩
    exact ⟨hv, who, i, hto, hat, hi⟩
  · rintro ⟨hv, who, i, hto, hat, hi⟩
    exact ⟨i, hi, hv, who, hat, hto⟩

/-- A vote follows its member: the bit at the member's new slot is the one at its old slot. -/
theorem getLsbD_rekeySlotBits_of_member (h : m.rekeySlotBits bits successor = some r)
    {i j : ReplicaId} (hold : m.memberAt i = some who) (hnew : successor.memberAt j = some who)
    (hv : successor.isVoter j = true) : r.getLsbD j = bits.getLsbD i := by
  rw [Bool.eq_iff_iff, getLsbD_rekeySlotBits h]
  constructor
  · rintro ⟨-, who', i', hto, hat, hbit⟩
    rw [hnew] at hto
    cases hto
    rwa [memberAt_inj hold hat]
  · intro hbit
    exact ⟨hv, who, i, hnew, hold, hbit⟩

/-- Each surviving vote comes from a vote of its own. -/
theorem card_rekeySlotBits_le (h : m.rekeySlotBits bits successor = some r) :
    r.cpop.toNat ≤ bits.cpop.toNat := by
  rw [← Bits.card_positions, ← Bits.card_positions]
  have hsource (j : Nat) (hj : j ∈ Bits.positions r) : ∃ i ∈ Bits.positions bits,
      ∃ who, successor.memberAt j = some who ∧ m.memberAt i = some who := by
    obtain ⟨-, who, i, hto, hat, hbit⟩ := (getLsbD_rekeySlotBits h j).mp (Bits.mem_positions.mp hj)
    exact ⟨i, Bits.mem_positions.mpr hbit, who, hto, hat⟩
  choose! source hmem hwho using hsource
  refine Finset.card_le_card_of_injOn source (fun j hj => hmem j hj) ?_
  intro a ha b hb heq
  obtain ⟨who, hto, hat⟩ := hwho a ha
  obtain ⟨who', hto', hat'⟩ := hwho b hb
  rw [heq, hat'] at hat
  cases hat
  exact memberAt_inj hto hto'

/-- Through a configuration in between, a vote arrives exactly if it arrives directly and its
member votes in between. -/
theorem getLsbD_rekeySlotBits_trans {m between successor : Membership}
    {bits half direct through : BitVec 64} (hhalf : m.rekeySlotBits bits between = some half)
    (hdirect : m.rekeySlotBits bits successor = some direct)
    (hthrough : between.rekeySlotBits half successor = some through) {j : ReplicaId}
    (hat : successor.memberAt j = some who) :
    through.getLsbD j = true ↔ direct.getLsbD j = true ∧ who ∈ between.voterSet := by
  rw [getLsbD_rekeySlotBits hthrough, getLsbD_rekeySlotBits hdirect]
  constructor
  · rintro ⟨hv, who', i, hto, hmid, hbit⟩
    rw [hat] at hto
    cases hto
    obtain ⟨hvoter, who', k, hto, hold, hset⟩ := (getLsbD_rekeySlotBits hhalf i).mp hbit
    rw [hmid] at hto
    cases hto
    exact ⟨⟨hv, who, k, hat, hold, hset⟩, mem_voterSet_of_isVoter hmid hvoter⟩
  · rintro ⟨⟨hv, who', k, hto, hold, hset⟩, hmem⟩
    rw [hat] at hto
    cases hto
    obtain ⟨i, hi, hmid⟩ : ∃ i, between.isVoter i = true ∧ between.memberAt i = some who := by
      obtain ⟨i, hlt, hget⟩ := List.mem_take_iff_getElem.mp (mem_voterSet.mp hmem)
      have hlen := lt_min_iff.mp hlt
      exact ⟨i, decide_eq_true hlen.1, List.getElem?_eq_some_iff.mpr ⟨hlen.2, hget⟩⟩
    exact ⟨hv, who, i, hat, hmid,
      (getLsbD_rekeySlotBits hhalf i).mpr ⟨hi, who, k, hmid, hold, hset⟩⟩

end Membership

/-- The word the loop returns is the set of slots the rest of the model works with. -/
theorem Core.positions_rekeySlotBits (n : Core) (bits : BitVec 64) (successor : Membership) :
    ∃ r, n.membership.rekeySlotBits bits successor = some r ∧
      Bits.positions r = n.rekeySlotBitset (Bits.positions bits) successor :=
  n.membership.rekeySlotBits_eq successor bits

/-- Re-keying votes for a successor configuration. It always returns, so no shift leaves the word;
bit `j` is set exactly when the member at voter slot `j` had its bit set in the old layout. So the
count never grows, no member without a vote in the successor keeps one, a vote follows its member,
and going through a configuration in between changes nothing for the members that vote there. -/
theorem rekeySlotBits_exact (m successor : Membership) (bits : BitVec 64) :
    ∃ r, m.rekeySlotBits bits successor = some r ∧
      (∀ j, r.getLsbD j = true ↔ successor.isVoter j = true ∧ ∃ who i,
        successor.memberAt j = some who ∧ m.memberAt i = some who ∧ bits.getLsbD i = true) ∧
      r.cpop.toNat ≤ bits.cpop.toNat ∧
      (∀ who j, successor.memberAt j = some who → who ∉ successor.voterSet →
        r.getLsbD j = false) ∧
      (∀ who i j, m.memberAt i = some who → successor.memberAt j = some who →
        successor.isVoter j = true → r.getLsbD j = bits.getLsbD i) ∧
      (∀ later, ∃ direct through, m.rekeySlotBits bits later = some direct ∧
        successor.rekeySlotBits r later = some through ∧
        ∀ who j, later.memberAt j = some who → who ∈ successor.voterSet →
          through.getLsbD j = direct.getLsbD j) ∧
      ∀ slot, successor.isVoter slot = true → slot ≤ 63 := by
  obtain ⟨r, hr, -⟩ := m.rekeySlotBits_eq successor bits
  refine ⟨r, hr, Membership.getLsbD_rekeySlotBits hr, Membership.card_rekeySlotBits_le hr,
    fun who j hat hout => ?_, fun who i j hold hnew hv => ?_, fun later => ?_, fun slot hv => ?_⟩
  · refine Bool.eq_false_iff.mpr fun hbit => hout ?_
    exact Membership.mem_voterSet_of_isVoter hat ((Membership.getLsbD_rekeySlotBits hr j).mp hbit).1
  · exact Membership.getLsbD_rekeySlotBits_of_member hr hold hnew hv
  · obtain ⟨direct, hdirect, -⟩ := m.rekeySlotBits_eq later bits
    obtain ⟨through, hthrough, -⟩ := successor.rekeySlotBits_eq later r
    refine ⟨direct, through, hdirect, hthrough, fun who j hat hv => ?_⟩
    rw [Bool.eq_iff_iff, Membership.getLsbD_rekeySlotBits_trans hr hdirect hthrough hat]
    exact and_iff_left hv
  · exact Nat.le_of_lt_succ (Membership.lt_of_isVoter hv)

namespace Membership

def threeVoters : Membership := (genesis 3 0 [1, 2, 3]).toOption.get (by decide +kernel)
def thirdDemoted : Membership := (genesis 2 1 [1, 2, 3]).toOption.get (by decide +kernel)

end Membership

/-- Member 3 is a member of all three configurations but only learns in the second, so its vote
arrives directly and is lost on the way through. -/
theorem rekeySlotBits_demoted_between :
    (3 ∈ Membership.threeVoters.members ∧ 3 ∈ Membership.thirdDemoted.members) ∧
    Membership.threeVoters.memberAt 2 = some 3 ∧
    Membership.threeVoters.rekeySlotBits 4#64 Membership.threeVoters = some 4#64 ∧
    (Membership.threeVoters.rekeySlotBits 4#64 Membership.thirdDemoted).bind
      (Membership.thirdDemoted.rekeySlotBits · Membership.threeVoters) = some 0#64 := by
  decide +kernel

end Viewstamp
