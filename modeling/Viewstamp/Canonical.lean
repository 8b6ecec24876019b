import Viewstamp.Lib.Counting
import Viewstamp.Holding
import Viewstamp.Run

/- The canonical log of a view change: what the selection over a quorum of votes
   keeps and what it may drop.

   The head is cut at the first op that a nack quorum of voters does not reach.
   The source computes that op from the sorted heads; it replaces a scan over the
   ops themselves, and the two are compared here first. Then an op that a quorum
   recorded is followed through the selection, the union of the canonical logs
   and the truncation at the first gap. -/
namespace Viewstamp

open List

namespace Selection

variable {α : Type} {threshold : Nat} {donorOps : List Nat} {dvcs : List DoViewChange}
    {floor head : OpNumber}

/-! ## The greatest value of a list -/

theorem le_foldl_max (f : α → Nat) (xs : List α) (acc : Nat) :
    acc ≤ xs.foldl (fun acc x => max acc (f x)) acc ∧
      ∀ x ∈ xs, f x ≤ xs.foldl (fun acc x => max acc (f x)) acc := by
  induction xs generalizing acc with
  | nil => simp
  | cons y ys ih =>
    obtain ⟨hacc, hys⟩ := ih (max acc (f y))
    refine ⟨(Nat.le_max_left _ _).trans hacc, ?_⟩
    intro x hx
    rcases mem_cons.mp hx with rfl | hx
    · exact (Nat.le_max_right _ _).trans hacc
    · exact hys x hx

theorem le_maxOf {f : α → Nat} {xs : List α} {x : α} (h : x ∈ xs) : f x ≤ maxOf f xs :=
  (le_foldl_max f xs 0).2 x h

theorem foldl_max_mem (f : α → Nat) (xs : List α) (acc : Nat) :
    xs.foldl (fun acc x => max acc (f x)) acc = acc ∨
      ∃ x ∈ xs, xs.foldl (fun acc x => max acc (f x)) acc = f x := by
  induction xs generalizing acc with
  | nil => exact .inl rfl
  | cons y ys ih =>
    rcases ih (max acc (f y)) with h | ⟨x, hx, h⟩
    · rw [foldl_cons, h]
      rcases Nat.le_total (f y) acc with hle | hle
      · exact .inl (Nat.max_eq_left hle)
      · exact .inr ⟨y, mem_cons_self, Nat.max_eq_right hle⟩
    · exact .inr ⟨x, mem_cons_of_mem _ hx, h⟩

/-- The greatest value is zero or taken. -/
theorem maxOf_mem (f : α → Nat) (xs : List α) : maxOf f xs = 0 ∨ ∃ x ∈ xs, maxOf f xs = f x :=
  foldl_max_mem f xs 0

theorem maxOf_le {f : α → Nat} {xs : List α} {b : Nat} (h : ∀ x ∈ xs, f x ≤ b) :
    maxOf f xs ≤ b := by
  rcases maxOf_mem f xs with h0 | ⟨x, hx, heq⟩
  · omega
  · rw [heq]
    exact h x hx

/-! ## The nack scan -/

/-- The nacks against an op: the votes whose log ends below it. -/
def nacks (donorOps : List OpNumber) (op : OpNumber) : Nat :=
  donorOps.countP fun d => decide (d < op)

/-- The head by scanning: walk up from the greatest commit and stop below the first op with a
nack quorum. -/
def scannedHead (threshold : Nat) (donorOps : List OpNumber) (commitStar opHead : OpNumber) :
    OpNumber :=
  match (range' (commitStar + 1) (opHead - commitStar)).find?
      fun op => decide (threshold ≤ nacks donorOps op) with
  | some op => op - 1
  | none => opHead

theorem find?_above (x c len : Nat) :
    (range' (c + 1) len).find? (fun op => decide (x < op)) =
      if max x c < c + len then some (max x c + 1) else none := by
  induction len generalizing c with
  | zero =>
    rw [if_neg (by omega)]
    rfl
  | succ len ih =>
    rw [range'_succ, find?_cons]
    by_cases hx : x < c + 1
    · rw [decide_eq_true hx, if_pos (by omega)]
      simp only [Option.some.injEq]
      omega
    · rw [decide_eq_false hx]
      simp only [ih (c + 1)]
      rw [show max x (c + 1) = max x c by omega, show c + 1 + len = c + (len + 1) by omega]

/-- With the threshold within the list, the scan stops at the threshold-th smallest head. -/
theorem scannedHead_of_statistic {donorOp : Nat}
    (hpos : 1 ≤ threshold)
    (h : (donorOps.insertionSort (· ≤ ·))[threshold - 1]? = some donorOp)
    (commitStar opHead : Nat) :
    scannedHead threshold donorOps commitStar opHead =
      if max donorOp commitStar < opHead then max donorOp commitStar else opHead := by
  have hcross : (fun op => decide (threshold ≤ nacks donorOps op)) =
      fun op => decide (donorOp < op) := by
    funext op
    have hstat : threshold - 1 < nacks donorOps op ↔ donorOp < op := Counting.lt_countP_iff h op
    rw [decide_eq_decide, ← hstat]
    omega
  unfold scannedHead
  rw [hcross, find?_above]
  by_cases hle : commitStar ≤ opHead
  · rw [show commitStar + (opHead - commitStar) = opHead by omega]
    by_cases hlt : max donorOp commitStar < opHead
    · rw [if_pos hlt, if_pos hlt]
      rfl
    · rw [if_neg hlt, if_neg hlt]
  · have h1 : ¬ max donorOp commitStar < opHead := by omega
    have h2 : ¬ max donorOp commitStar < commitStar + (opHead - commitStar) := by omega
    rw [if_neg h1, if_neg h2]

theorem scannedHead_of_few (h : donorOps.length < threshold) (commitStar opHead : Nat) :
    scannedHead threshold donorOps commitStar opHead = opHead := by
  unfold scannedHead
  rw [find?_eq_none.mpr]
  intro op _
  have : nacks donorOps op ≤ donorOps.length := countP_le_length
  simp
  omega

theorem scannedHead_zero (donorOps : List Nat) (commitStar opHead : Nat) :
    scannedHead 0 donorOps commitStar opHead =
      if commitStar < opHead then commitStar else opHead := by
  unfold scannedHead
  simp only [Nat.zero_le, decide_true]
  cases hlen : opHead - commitStar with
  | zero => rw [if_neg (by omega)]; rfl
  | succ len => rw [if_pos (by omega)]; rfl

theorem getElem?_sorted_of_few (h : donorOps.length < threshold) :
    (donorOps.insertionSort (· ≤ ·))[threshold - 1]? = none := by
  rw [getElem?_eq_none_iff, length_insertionSort]
  omega

theorem exists_statistic (hpos : 1 ≤ threshold) (hlen : threshold ≤ donorOps.length) :
    ∃ d ∈ donorOps, (donorOps.insertionSort (· ≤ ·))[threshold - 1]? = some d := by
  have hlt : threshold - 1 < (donorOps.insertionSort (· ≤ ·)).length := by
    rw [length_insertionSort]
    omega
  refine ⟨_, ?_, getElem?_eq_getElem hlt⟩
  exact (donorOps.perm_insertionSort (· ≤ ·)).mem_iff.mp (getElem_mem hlt)

theorem nackedHead_of_statistic {donorOp : Nat}
    (hpos : 1 ≤ threshold)
    (h : (donorOps.insertionSort (· ≤ ·))[threshold - 1]? = some donorOp)
    (commitStar opHead : Nat) :
    nackedHead threshold donorOps commitStar opHead =
      if min (max donorOp commitStar + 1) u64Max ≤ opHead then
        min (max donorOp commitStar + 1) u64Max - 1 else opHead := by
  have hcross : max (saturatingSucc donorOp) (saturatingSucc commitStar) =
      min (max donorOp commitStar + 1) u64Max := by
    unfold saturatingSucc
    omega
  unfold nackedHead
  rw [h]
  simp only [hpos, if_true, hcross]

theorem nackedHead_of_few (h : donorOps.length < threshold) (commitStar opHead : Nat) :
    nackedHead threshold donorOps commitStar opHead = opHead := by
  unfold nackedHead
  rw [getElem?_sorted_of_few h]

theorem nackedHead_zero (donorOps : List Nat) (commitStar opHead : Nat) :
    nackedHead 0 donorOps commitStar opHead = opHead := by
  unfold nackedHead
  split <;> rfl

/-- Where the direct computation and the scan disagree: at a zero threshold, and at the top of the
number range, where the successor of a head saturates. -/
theorem nackedHead_eq_scannedHead_iff
    {commitStar opHead : Nat} (hdonors : ∀ d ∈ donorOps, d ≤ u64Max) (hcommit : commitStar ≤ u64Max)
    (hhead : opHead ≤ u64Max) :
    nackedHead threshold donorOps commitStar opHead =
        scannedHead threshold donorOps commitStar opHead ↔
      (threshold = 0 → opHead ≤ commitStar) ∧
      (opHead = u64Max → 1 ≤ threshold → threshold ≤ donorOps.length →
        commitStar < u64Max ∧ threshold ≤ nacks donorOps u64Max) := by
  have hu : 0 < u64Max := by decide
  rcases Nat.eq_zero_or_pos threshold with rfl | hpos
  · rw [nackedHead_zero, scannedHead_zero]
    constructor
    · intro h
      refine ⟨fun _ => ?_, fun _ h => absurd h (by omega)⟩
      split at h <;> lia
    · intro h
      rw [if_neg (Nat.not_lt.mpr (h.1 rfl))]
  rcases Nat.lt_or_ge donorOps.length threshold with hfew | hlen
  · rw [nackedHead_of_few hfew, scannedHead_of_few hfew]
    exact ⟨fun _ => ⟨by omega, fun _ _ h => absurd h (by omega)⟩, fun _ => rfl⟩
  · obtain ⟨d, hd, hstat⟩ := exists_statistic hpos hlen
    have hcount : threshold - 1 < nacks donorOps u64Max ↔ d < u64Max :=
      Counting.lt_countP_iff hstat u64Max
    have hdle := hdonors d hd
    -- with the threshold met, both sides only depend on the higher of `d` and the commit
    have hcond : (opHead = u64Max → max d commitStar < u64Max) ↔
        (threshold = 0 → opHead ≤ commitStar) ∧
        (opHead = u64Max → 1 ≤ threshold → threshold ≤ donorOps.length →
          commitStar < u64Max ∧ threshold ≤ nacks donorOps u64Max) := by
      constructor
      · intro h
        refine ⟨by omega, ?_⟩
        intro htop _ _
        have := h htop
        omega
      · intro h htop
        have := h.2 htop hpos hlen
        omega
    have hle : max d commitStar ≤ u64Max := by omega
    rw [← hcond, nackedHead_of_statistic hpos hstat, scannedHead_of_statistic hpos hstat]
    generalize max d commitStar = x at hle ⊢
    rcases Nat.lt_or_eq_of_le hle with hlt | rfl
    · rw [show min (x + 1) u64Max = x + 1 by omega]
      simp only [hlt, Nat.add_one_le_iff, Nat.add_sub_cancel, implies_true]
    · rw [show min (u64Max + 1) u64Max = u64Max by omega, if_neg (by omega : ¬ u64Max < opHead)]
      rcases Nat.lt_or_eq_of_le hhead with hbelow | rfl
      · rw [if_neg (by omega)]
        exact ⟨fun _ h => by omega, fun _ => rfl⟩
      · rw [if_pos (by omega)]
        exact ⟨fun h => by lia, fun h => by have := h rfl; omega⟩

/-- Below the top of the range the selection cuts at the threshold-th smallest head. -/
theorem le_nackedHead {commitStar opHead op : Nat} (hhead : opHead < u64Max) (hop : op ≤ opHead)
    (hheld : op ≤ commitStar ∨ nacks donorOps op < threshold) :
    op ≤ nackedHead threshold donorOps commitStar opHead := by
  rcases Nat.eq_zero_or_pos threshold with rfl | hpos
  · rw [nackedHead_zero]
    exact hop
  rcases Nat.lt_or_ge donorOps.length threshold with hfew | hlen
  · rw [nackedHead_of_few hfew]
    exact hop
  · obtain ⟨d, hd, hstat⟩ := exists_statistic hpos hlen
    have hcount : threshold - 1 < nacks donorOps op ↔ d < op := Counting.lt_countP_iff hstat op
    have hle : op ≤ max d commitStar := by omega
    rw [nackedHead_of_statistic hpos hstat]
    generalize max d commitStar = x at hle ⊢
    split <;> omega

/-- A quorum of the least size holds the head among its votes, so only saturation can cut it. -/
theorem opHead_of_least_quorum {m : Membership} (hlen : dvcs.length = m.quorumViewChange)
    (hops : ∀ d ∈ dvcs, d.op ≤ u64Max) (hhead : maxOf DoViewChange.op dvcs = claimedHead dvcs) :
    (select m.quorumNackPrepare dvcs).opHead = claimedHead dvcs ↔ claimedHead dvcs < u64Max := by
  have hpos : 1 ≤ m.quorumNackPrepare := Nat.succ_pos _
  have hthreshold : (dvcs.map DoViewChange.op).length = m.quorumNackPrepare := by
    rw [length_map, hlen]
    rfl
  obtain ⟨d, hd, hstat⟩ := exists_statistic hpos (Nat.le_of_eq hthreshold.symm)
  have hu : 0 < u64Max := by decide
  have htop : claimedHead dvcs ≤ u64Max := hhead ▸ maxOf_le hops
  have hdle : d ≤ u64Max := by
    obtain ⟨v, hv, rfl⟩ := mem_map.mp hd
    exact hops v hv
  -- all votes below the head would leave nobody to hold it
  have hlast : claimedHead dvcs ≤ d := by
    by_contra hlt
    have hcount : m.quorumNackPrepare - 1 < nacks (dvcs.map DoViewChange.op) (claimedHead dvcs) :=
      (Counting.lt_countP_iff hstat (claimedHead dvcs)).mpr (Nat.not_le.mp hlt)
    have hfull : nacks (dvcs.map DoViewChange.op) (claimedHead dvcs) =
        (dvcs.map DoViewChange.op).length :=
      Nat.le_antisymm countP_le_length (by lia)
    have hall := countP_eq_length.mp hfull
    rcases maxOf_mem DoViewChange.op dvcs with h0 | ⟨v, hv, heq⟩
    · rw [← hhead, h0] at hlt
      exact hlt (Nat.zero_le _)
    · have := hall _ (mem_map_of_mem hv)
      rw [decide_eq_true_eq, ← heq, hhead] at this
      exact Nat.lt_irrefl _ this
  change nackedHead m.quorumNackPrepare (dvcs.map DoViewChange.op)
    (maxOf DoViewChange.commit dvcs) (claimedHead dvcs) = claimedHead dvcs ↔ _
  rw [nackedHead_of_statistic hpos hstat]
  have hmax : d ≤ max d (maxOf DoViewChange.commit dvcs) := Nat.le_max_left _ _
  generalize max d (maxOf DoViewChange.commit dvcs) = x at hmax ⊢
  generalize claimedHead dvcs = head at htop hlast ⊢
  rcases Nat.lt_or_eq_of_le htop with hlt | rfl
  · rw [if_neg (by lia)]
    exact ⟨fun _ => hlt, fun _ => rfl⟩
  · rw [if_pos (by omega)]
    exact ⟨fun h => by lia, fun h => Nat.lt_irrefl _ h |>.elim⟩

/-- The direct computation against the scan for every input of the number range, and the head a
quorum of the least size keeps. -/
theorem nack_scan_agreement (threshold : Nat) (donorOps : List Nat) (commitStar opHead : Nat)
    (m : Membership) (dvcs : List DoViewChange) :
    ((∀ d ∈ donorOps, d ≤ u64Max) → commitStar ≤ u64Max → opHead ≤ u64Max →
      (nackedHead threshold donorOps commitStar opHead =
          scannedHead threshold donorOps commitStar opHead ↔
        (threshold = 0 → opHead ≤ commitStar) ∧
        (opHead = u64Max → 1 ≤ threshold → threshold ≤ donorOps.length →
          commitStar < u64Max ∧ threshold ≤ nacks donorOps u64Max))) ∧
    (dvcs.length = m.quorumViewChange → (∀ d ∈ dvcs, ∀ d' ∈ dvcs, d.logView = d'.logView) →
      (∀ d ∈ dvcs, d.op ≤ u64Max) → maxOf DoViewChange.op dvcs = claimedHead dvcs →
      ((select m.quorumNackPrepare dvcs).opHead = claimedHead dvcs ↔
        claimedHead dvcs < u64Max)) := by
  refine ⟨?_, ?_⟩
  · intro hdonors hcommit hhead
    exact nackedHead_eq_scannedHead_iff hdonors hcommit hhead
  · intro hlen _ hops hhead
    exact opHead_of_least_quorum hlen hops hhead

/-- Three votes up to op 7, and a quorum of two with heads 3 and 2. -/
theorem nack_scan_agreement_small :
    nackedHead 2 [5, 3, 7] 1 7 = scannedHead 2 [5, 3, 7] 1 7 ∧
    (select trioMembership.quorumNackPrepare
      [⟨2, 1, 3, 0, 0, 0, 0, 0, [.ofBytes 3 9 1 []]⟩,
       ⟨2, 1, 2, 0, 0, 0, 0, 1, []⟩]).opHead = 3 := by
  have h := nack_scan_agreement 2 [5, 3, 7] 1 7 trioMembership
    [⟨2, 1, 3, 0, 0, 0, 0, 0, [.ofBytes 3 9 1 []]⟩, ⟨2, 1, 2, 0, 0, 0, 0, 1, []⟩]
  exact ⟨(h.1 (by decide) (by decide) (by decide)).mpr (by decide),
    (h.2 (by decide) (by decide) (by decide) (by decide)).mpr (by decide)⟩

/-- At the top of the range the direct computation gives up an op that every voter holds. -/
theorem nack_scan_saturates :
    nackedHead 2 [u64Max, u64Max, u64Max] (u64Max - 1) u64Max ≠
      scannedHead 2 [u64Max, u64Max, u64Max] (u64Max - 1) u64Max ∧
    (select trioMembership.quorumNackPrepare
      [⟨2, 1, u64Max, 0, 0, 0, 0, 0, [.ofBytes u64Max 9 1 []]⟩,
        ⟨2, 1, u64Max, 0, 0, 0, 0, 1, [.ofBytes u64Max 9 1 []]⟩]).opHead = u64Max - 1 := by
  decide +kernel

/-! ## The union of the canonical logs -/

/-- Every key of the union lies between floor and head and holds an entry of its op. -/
def Between (floor head : OpNumber) (es : List PreparedEntry) (merged : OrdMap Nat PreparedEntry) :
    Prop :=
  ∀ k e, merged.get? k = some e → e.op = k ∧ floor < k ∧ k ≤ head ∧ e ∈ es

theorem Between.mergeEntry {es : List PreparedEntry} {merged : OrdMap Nat PreparedEntry}
    (h : Between floor head es merged) {x : PreparedEntry} (hx : x ∈ es) :
    Between floor head es (mergeEntry floor head merged x) := by
  have hins : floor < x.op → x.op ≤ head → Between floor head es (merged.insert x.op x) := by
    intro hlo hhi k e hk
    rw [OrdMap.get?_insert] at hk
    split at hk
    · subst k
      cases hk
      exact ⟨rfl, hlo, hhi, hx⟩
    · exact h k e hk
  unfold Selection.mergeEntry
  split
  · rename_i hrange
    simp only [Bool.and_eq_true, decide_eq_true_eq] at hrange
    split
    · exact hins hrange.1 hrange.2
    · split
      · exact hins hrange.1 hrange.2
      · exact h
  · exact h

theorem get?_mergeEntry_isSome {merged : OrdMap Nat PreparedEntry} (x : PreparedEntry)
    {k : OpNumber} (h : (merged.get? k).isSome ∨ (x.op = k ∧ floor < k ∧ k ≤ head)) :
    ((mergeEntry floor head merged x).get? k).isSome := by
  have hins : (merged.get? k).isSome ∨ x.op = k → ((merged.insert x.op x).get? k).isSome := by
    intro h
    rw [OrdMap.get?_insert]
    split
    · rfl
    · rcases h with h | rfl
      · exact h
      · contradiction
  unfold mergeEntry
  split
  · split
    · exact hins (h.imp id And.left)
    · split
      · exact hins (h.imp id And.left)
      · rename_i cur hcur _
        rcases h with h | ⟨rfl, _⟩
        · exact h
        · rw [hcur]; rfl
  · rename_i hrange
    rcases h with h | ⟨rfl, hlo, hhi⟩
    · exact h
    · simp [hlo, hhi] at hrange

theorem between_foldl {es : List PreparedEntry} (xs : List PreparedEntry) (hsub : ∀ x ∈ xs, x ∈ es)
    (merged : OrdMap Nat PreparedEntry) (h : Between floor head es merged) :
    Between floor head es (xs.foldl (mergeEntry floor head) merged) := by
  induction xs generalizing merged with
  | nil => exact h
  | cons x xs ih =>
    exact ih (fun y hy => hsub y (mem_cons_of_mem _ hy)) _
      (h.mergeEntry (hsub x mem_cons_self))

theorem get?_foldl_mergeEntry_isSome {k : OpNumber} (xs : List PreparedEntry)
    (merged : OrdMap Nat PreparedEntry)
    (h : (merged.get? k).isSome ∨ ∃ x ∈ xs, x.op = k ∧ floor < k ∧ k ≤ head) :
    ((xs.foldl (mergeEntry floor head) merged).get? k).isSome := by
  induction xs generalizing merged with
  | nil => simpa using h
  | cons x xs ih =>
    refine ih _ ?_
    rcases h with h | ⟨y, hy, hk⟩
    · exact .inl (get?_mergeEntry_isSome x (.inl h))
    · rcases mem_cons.mp hy with rfl | hy
      · exact .inl (get?_mergeEntry_isSome y (.inr hk))
      · exact .inr ⟨y, hy, hk⟩

/-- The union the selection returns, before it is flattened. -/
def union (threshold : Nat) (dvcs : List DoViewChange) : OrdMap Nat PreparedEntry :=
  ((canonicalVotes dvcs).flatMap DoViewChange.log).foldl
    (mergeEntry (select threshold dvcs).floorStar (select threshold dvcs).opHead) .empty

theorem log_eq_values (threshold : Nat) (dvcs : List DoViewChange) :
    (select threshold dvcs).log = (union threshold dvcs).values := rfl

theorem between_union (threshold : Nat) (dvcs : List DoViewChange) :
    Between (select threshold dvcs).floorStar (select threshold dvcs).opHead
      ((canonicalVotes dvcs).flatMap DoViewChange.log) (union threshold dvcs) :=
  between_foldl _ (fun _ h => h) _ (fun k e h => by simp at h)

/-- What the selected log holds comes from a canonical vote. -/
theorem mem_log {e : PreparedEntry}
    (h : e ∈ (select threshold dvcs).log) :
    (∃ d ∈ canonicalVotes dvcs, e ∈ d.log) ∧
      (select threshold dvcs).floorStar < e.op ∧ e.op ≤ (select threshold dvcs).opHead := by
  rw [log_eq_values, OrdMap.mem_values] at h
  obtain ⟨k, hk⟩ := h
  obtain ⟨rfl, hlo, hhi, hmem⟩ := between_union threshold dvcs k e hk
  exact ⟨mem_flatMap.mp hmem, hlo, hhi⟩

/-- An op some canonical vote lists is in the selected log, unless floor or head exclude it. -/
theorem exists_mem_log {d : DoViewChange} (hd : d ∈ canonicalVotes dvcs) {e : PreparedEntry}
    (he : e ∈ d.log) (hlo : (select threshold dvcs).floorStar < e.op)
    (hhi : e.op ≤ (select threshold dvcs).opHead) :
    ∃ e' ∈ (select threshold dvcs).log, e'.op = e.op := by
  have hsome : ((union threshold dvcs).get? e.op).isSome :=
    get?_foldl_mergeEntry_isSome _ _
      (.inr ⟨e, mem_flatMap.mpr ⟨d, hd, he⟩, rfl, hlo, hhi⟩)
  obtain ⟨e', he'⟩ := Option.isSome_iff_exists.mp hsome
  refine ⟨e', ?_, (between_union threshold dvcs _ e' he').1⟩
  rw [log_eq_values, OrdMap.mem_values]
  exact ⟨_, he'⟩

theorem log_sorted (threshold : Nat) (dvcs : List DoViewChange) :
    (select threshold dvcs).log.Pairwise fun a b => a.op < b.op := by
  rw [log_eq_values, OrdMap.values, pairwise_map]
  refine (union threshold dvcs).sorted.imp_of_mem ?_
  intro a b ha hb hlt
  have hkey (x : Nat × PreparedEntry) (hx : x ∈ (union threshold dvcs).entries) : x.2.op = x.1 :=
    (between_union threshold dvcs x.1 x.2 (OrdMap.mem_entries.mp hx)).1
  rw [hkey a ha, hkey b hb]
  exact hlt

end Selection

open Selection

/-! ## Votes and the ops they vouch for -/

/-- What two replicas compare an entry by. -/
abbrev Operation := ClientId × RequestNumber × Checksum

def PreparedEntry.operation (e : PreparedEntry) : Operation := (e.client, e.request, e.bodyChecksum)
def LogEntry.operation (e : LogEntry) : Operation := (e.client, e.request, e.bodyChecksum)

/-- The vote lists the operation, or its checkpoint holds the op. -/
def DoViewChange.Covers (d : DoViewChange) (op : OpNumber) (x : Operation) : Prop :=
  (∃ e ∈ d.log, e.op = op ∧ e.operation = x) ∨ op ≤ d.checkpointOp

instance (d : DoViewChange) (op : OpNumber) (x : Operation) : Decidable (d.Covers op x) :=
  inferInstanceAs (Decidable (_ ∨ _))

/-- Votes of distinct voters, a view-change quorum of them, each with a head that covers what the
vote lists; votes of one log view agree on the operations they list. -/
@[mk_iff] structure Votes (m : Membership) (dvcs : List DoViewChange) : Prop where
  distinct : (dvcs.map DoViewChange.replica).Nodup
  voters : ∀ d ∈ dvcs, d.replica < m.replicaCount
  quorum : m.quorumViewChange ≤ dvcs.length
  listed : ∀ d ∈ dvcs, ∀ e ∈ d.log, e.op ≤ d.op
  commit : ∀ d ∈ dvcs, d.commit ≤ d.op
  checkpoint : ∀ d ∈ dvcs, d.checkpointOp ≤ d.op
  agree : ∀ d ∈ dvcs, ∀ d' ∈ dvcs, d.logView = d'.logView →
    ∀ e ∈ d.log, ∀ e' ∈ d'.log, e.op = e'.op → e.operation = e'.operation

instance (m : Membership) (dvcs : List DoViewChange) : Decidable (Votes m dvcs) :=
  decidable_of_iff' _ (votes_iff m dvcs)

/-- A quorum of voters recorded the operation in a view no later than the latest log view, and the
votes of that quorum still cover it. -/
def Recorded (m : Membership) (dvcs : List DoViewChange) (op : OpNumber) (x : Operation) : Prop :=
  ∃ (voters : Finset ReplicaId) (view : View),
    voters ⊆ Finset.range m.replicaCount ∧ m.quorum ≤ voters.card ∧
    view ≤ maxOf DoViewChange.logView dvcs ∧
    ∀ d ∈ dvcs, d.replica ∈ voters → view ≤ d.logView ∧ d.Covers op x

/-- As `Recorded`, and every log of a later view carried the operation over. -/
def CarriedOver (m : Membership) (dvcs : List DoViewChange) (op : OpNumber) (x : Operation) :
    Prop :=
  ∃ (voters : Finset ReplicaId) (view : View),
    voters ⊆ Finset.range m.replicaCount ∧ m.quorum ≤ voters.card ∧
    view ≤ maxOf DoViewChange.logView dvcs ∧
    (∀ d ∈ dvcs, d.replica ∈ voters → view ≤ d.logView ∧ d.Covers op x) ∧
    ∀ d ∈ dvcs, view < d.logView → d.Covers op x

/-- The op is at or below the floor, or the log holds the operation there. -/
def Selection.Holds (sel : Selection) (op : OpNumber) (x : Operation) : Prop :=
  op ≤ sel.floorStar ∨ ∃ e ∈ sel.log, e.op = op ∧ e.operation = x

instance (sel : Selection) (op : OpNumber) (x : Operation) : Decidable (sel.Holds op x) :=
  inferInstanceAs (Decidable (_ ∨ _))

/-- The node's log and head are what a selection left. -/
structure Node.Adopted {S : Type} (n : Node S) (sel : Selection) : Prop where
  head : n.op = sel.opHead
  held : ∀ e ∈ sel.log, ∃ own, n.log.get? e.op = some own ∧ own.operation = e.operation

/-- What the selection and the node that forms the view from it promise for one operation. -/
structure Survives (m : Membership) (dvcs : List DoViewChange) (op : OpNumber) (x : Operation) :
    Prop where
  committed : (select m.quorumNackPrepare dvcs).commitStar ≤ claimedHead dvcs
  head : (select m.quorumNackPrepare dvcs).commitStar ≤
    (select m.quorumNackPrepare dvcs).opHead
  holds : (select m.quorumNackPrepare dvcs).Holds op x
  sorted : (select m.quorumNackPrepare dvcs).log.Pairwise fun a b => a.op < b.op
  within : ∀ e ∈ (select m.quorumNackPrepare dvcs).log,
    (select m.quorumNackPrepare dvcs).floorStar < e.op ∧
      e.op ≤ (select m.quorumNackPrepare dvcs).opHead
  ungapped : ∀ {S : Type} [StateMachine S] (n : Node S) (now : Instant), n.membership = m →
    op ≤ (select m.quorumNackPrepare dvcs).floorStar ∨
    op ≤ (n.startViewAsNewPrimary now dvcs).op ∧
    ∃ own, (n.startViewAsNewPrimary now dvcs).log.get? op = some own ∧ own.operation = x

namespace Node

variable {S : Type}

theorem Adopted.congr {n n' : Node S} {sel : Selection} (ha : n.Adopted sel)
    (h : n'.record = n.record) : n'.Adopted sel := by
  have hop : n'.op = n.op := congrArg Prod.fst h
  have hlog : n'.log = n.log := congrArg Prod.snd h
  exact ⟨hop.trans ha.head, hlog ▸ ha.held⟩

theorem get?_foldl_insert (f : PreparedEntry → LogEntry) {e : PreparedEntry}
    (es : List PreparedEntry) (hs : es.Pairwise fun a b => a.op < b.op)
    (log : OrdMap Nat LogEntry) (h : e ∈ es ∨ log.get? e.op = some (f e) ∧ ∀ x ∈ es, x.op ≠ e.op) :
    (es.foldl (fun log e => log.insert e.op (f e)) log).get? e.op = some (f e) := by
  induction es generalizing log with
  | nil => exact (h.resolve_left not_mem_nil).1
  | cons x es ih =>
    obtain ⟨hx, hs⟩ := pairwise_cons.mp hs
    apply ih hs
    rcases h with h | ⟨hget, hne⟩
    · rcases mem_cons.mp h with rfl | h
      · exact .inr ⟨OrdMap.get?_insert_self _ _ _, fun y hy => (hx y hy).ne'⟩
      · exact .inl h
    · refine .inr ⟨?_, fun y hy => hne y (mem_cons_of_mem _ hy)⟩
      rw [OrdMap.get?_insert_of_ne _ _ (hne x mem_cons_self).symm]
      exact hget

/-- An adoption keeps the operation it is told, also where it keeps its own body. -/
theorem operation_adoptedEntry (n : Core) (e : PreparedEntry) :
    (n.adoptedEntry e).operation = e.operation := by
  unfold Core.adoptedEntry
  split
  · split
    · split
      · rename_i hsame
        have := (Bool.and_eq_true _ _ ▸ hsame).2
        exact congrArg (fun c => (e.client, e.request, c)) (eq_of_beq this)
      · rfl
    · rfl
  · rfl

/-- The adoption of a log in order leaves every entry of it in the log. -/
theorem get?_adoptLog (n : Node S) {es : List PreparedEntry}
    (hs : es.Pairwise fun a b => a.op < b.op) (floor : OpNumber) {e : PreparedEntry} (he : e ∈ es) :
    ∃ own, (n.adoptLog es floor).log.get? e.op = some own ∧ own.operation = e.operation :=
  ⟨_, get?_foldl_insert (Core.adoptedEntry _) es hs _ (.inl he), operation_adoptedEntry _ e⟩

theorem clearIdleRepairRetry_holding (n : Node S) :
    n.clearIdleRepairRetry.holding = n.holding := by
  unfold clearIdleRepairRetry
  split <;> rfl

/-- The truncation keeps the log up to a head below the first gap. -/
theorem get?_truncateAtGap (n : Node S) {commitStar op : OpNumber} (hop : op ≤ n.op)
    (hgap : ∀ gap, commitStar < gap → n.log.contains gap = false → op < gap) :
    op ≤ (n.truncateAtGap commitStar).op ∧
      (n.truncateAtGap commitStar).log.get? op = n.log.get? op := by
  unfold truncateAtGap
  split
  · exact ⟨hop, rfl⟩
  · rename_i gap hfind
    have hrange := mem_of_find?_eq_some hfind
    have hopen : n.log.contains gap = false := by simpa using find?_some hfind
    rw [mem_range'_1] at hrange
    have hle : op ≤ gap - 1 := Nat.le_sub_one_of_lt (hgap gap hrange.1 hopen)
    have hlog : (n.assertCommittedSurvives gap n.checkpointOp).log = n.log :=
      congrArg Holding.log (assert_holding n _)
    have hclear (m : Node S) := Prod.mk.inj (record_eq (clearIdleRepairRetry_holding m))
    rw [(hclear _).1, (hclear _).2]
    refine ⟨hle, ?_⟩
    rw [OrdMap.get?_filter, hlog]
    simp only [hle, decide_true]
    cases n.log.get? op <;> rfl

theorem driveAdoptedTail_record (n : Node S) (now : Instant) :
    (n.driveAdoptedTail now).record = n.record := by
  have hdrive (m : Node S) (op : OpNumber) : (m.driveAdopted op).record = m.record :=
    record_eq (adoptAppend_holding _ op _)
  refine (foldl_record _ _ fun op _ m _ => hdrive m op).trans ?_
  refine foldl_record _ n fun op hop m hm => requestRepair_record m now ?_
  rw [isHole_congr hm]
  obtain ⟨e, he⟩ := OrdMap.mem_keys.mp hop
  obtain ⟨hget, hrepairing⟩ := OrdMap.get?_filter_eq_some.mp he
  simp_all [Core.isHole, Body.isBodyBearing]

variable [StateMachine S]

/-- Forming a view from votes adopts what the selection leaves. From there the log and the head are
kept, or cut at the first gap. -/
theorem startViewAsNewPrimary_adopted (n : Node S) (now : Instant) (dvcs : List DoViewChange) :
    ∃ m : Node S, m.Adopted (select n.membership.quorumNackPrepare dvcs) ∧
      ((n.startViewAsNewPrimary now dvcs).record = m.record ∨
        (n.startViewAsNewPrimary now dvcs).record = (m.truncateAtGap
          (select n.membership.quorumNackPrepare dvcs).commitStar).record) := by
  unfold startViewAsNewPrimary
  extract_lets sel asserted adopted supplied formed
  have hheld : adopted.log = formed.log ∧ formed.op = sel.opHead := by
    have hclear : formed.record = (sel.opHead, adopted.log) :=
      record_eq (clearIdleRepairRetry_holding _)
    exact ⟨(congrArg Prod.snd hclear).symm, congrArg Prod.fst hclear⟩
  have hadopted : formed.Adopted sel := by
    refine ⟨hheld.2, fun e he => ?_⟩
    rw [← hheld.1]
    exact get?_adoptLog _ (log_sorted _ _) _ he
  have hcommit := advanceCommit_record formed now sel.commitStar
  split
  · rename_i k heq
    rw [heq] at hcommit
    exact ⟨k, hadopted.congr hcommit, .inl rfl⟩
  · rename_i k heq
    rw [heq] at hcommit
    refine ⟨k, hadopted.congr hcommit, .inr ?_⟩
    have hsubmit (m : Node S) (action : PendingSbAction) :
        (m.submitDurableView action).holding = m.holding := holding_eq (submitRoot_still m _ _)
    have hprimary (m : Node S) : m.becomePrimary.holding = m.holding :=
      holding_eq (setStatus_still { m with logView := m.view } .normal)
    have hraise (m : Node S) :
        m.raiseSessionWatermarks.reconcileSessionWatermarks.holding = m.holding := rfl
    refine (record_eq (hsubmit _ _)).trans ?_
    refine (driveAdoptedTail_record _ now).trans (record_eq ?_)
    exact (hprimary _).trans ((hraise _).trans (truncateWalAboveAdoptedHead_holding _))

end Node

section Survival

variable {m : Membership} {dvcs : List DoViewChange}
variable {d : DoViewChange} {op : OpNumber}

variable {x : Operation}

theorem Votes.covered_le (hv : Votes m dvcs) (hd : d ∈ dvcs) (h : d.Covers op x) : op ≤ d.op := by
  rcases h with ⟨e, he, rfl, _⟩ | h
  · exact hv.listed d hd e he
  · exact h.trans (hv.checkpoint d hd)

theorem mem_canonicalVotes : d ∈ canonicalVotes dvcs ↔
    d ∈ dvcs ∧ d.logView = maxOf DoViewChange.logView dvcs := by
  simp [canonicalVotes]

theorem Votes.ne_nil (hv : Votes m dvcs) : dvcs ≠ [] := by
  have hq : 0 < m.quorumViewChange := Nat.succ_pos _
  have := hv.quorum
  intro h
  rw [h, length_nil] at this
  omega

/-- Some vote has the greatest log view. -/
theorem Votes.exists_canonical (hv : Votes m dvcs) : ∃ d, d ∈ canonicalVotes dvcs := by
  rcases maxOf_mem DoViewChange.logView dvcs with h0 | ⟨d, hd, heq⟩
  · obtain ⟨d, hd⟩ := exists_mem_of_ne_nil dvcs hv.ne_nil
    have hle : d.logView ≤ maxOf DoViewChange.logView dvcs := le_maxOf hd
    exact ⟨d, mem_canonicalVotes.mpr ⟨hd, by lia⟩⟩
  · exact ⟨d, mem_canonicalVotes.mpr ⟨hd, heq.symm⟩⟩

/-- A replication quorum and the votes share a voter. -/
theorem Votes.exists_mem_quorum (hv : Votes m dvcs) {voters : Finset ReplicaId}
    (hsub : voters ⊆ Finset.range m.replicaCount) (hq : m.quorum ≤ voters.card) :
    ∃ d ∈ dvcs, d.replica ∈ voters := by
  have hsenders : (dvcs.map DoViewChange.replica).toFinset ⊆ Finset.range m.replicaCount := by
    intro r hr
    rw [mem_toFinset, mem_map] at hr
    obtain ⟨d, hd, rfl⟩ := hr
    exact Finset.mem_range.mpr (hv.voters d hd)
  have hcard : (dvcs.map DoViewChange.replica).toFinset.card = dvcs.length := by
    rw [toFinset_card_of_nodup hv.distinct, length_map]
  have hmeet := Finset.inter_nonempty_of_card_lt_card_add_card hsub hsenders (by
    have := hv.quorum
    have hn := m.valid.pos
    unfold Membership.quorumViewChange at this
    unfold Membership.quorum at this hq
    rw [Finset.card_range, hcard]
    omega)
  obtain ⟨r, hr⟩ := hmeet
  rw [Finset.mem_inter, mem_toFinset, mem_map] at hr
  obtain ⟨hr, d, hd, rfl⟩ := hr
  exact ⟨d, hd, hr⟩

/-- An operation carried over is covered by a vote of the greatest log view. -/
theorem CarriedOver.canonical (hv : Votes m dvcs) (h : CarriedOver m dvcs op x) :
    ∃ d ∈ canonicalVotes dvcs, d.Covers op x := by
  obtain ⟨voters, view, hsub, hq, hview, hmine, hlater⟩ := h
  rcases Nat.lt_or_eq_of_le hview with hlt | heq
  · obtain ⟨d, hd⟩ := hv.exists_canonical
    obtain ⟨hmem, hstar⟩ := mem_canonicalVotes.mp hd
    exact ⟨d, hd, hlater d hmem (hstar ▸ hlt)⟩
  · -- the recording view is the greatest one, so the shared voter's vote is canonical
    obtain ⟨d, hd, hvoter⟩ := hv.exists_mem_quorum hsub hq
    obtain ⟨hge, hcov⟩ := hmine d hd hvoter
    have hle : d.logView ≤ maxOf DoViewChange.logView dvcs := le_maxOf hd
    exact ⟨d, mem_canonicalVotes.mpr ⟨hd, by lia⟩, hcov⟩

/-- Too few votes end below an operation that a quorum recorded. -/
theorem CarriedOver.nacks_lt (hv : Votes m dvcs) (h : CarriedOver m dvcs op x) :
    nacks (dvcs.map DoViewChange.op) op < m.quorumNackPrepare := by
  obtain ⟨voters, view, hsub, hq, _, hmine, _⟩ := h
  -- a voter whose log ends below the op is outside the recording quorum
  let below := dvcs.filter fun d => decide (d.op < op)
  have hcount : nacks (dvcs.map DoViewChange.op) op = below.length := by
    rw [nacks, countP_map, countP_eq_length_filter]
    rfl
  have hnodup : (below.map DoViewChange.replica).Nodup :=
    hv.distinct.sublist (filter_sublist.map _)
  have houtside : (below.map DoViewChange.replica).toFinset ⊆
      Finset.range m.replicaCount \ voters := by
    intro r hr
    rw [mem_toFinset, mem_map] at hr
    obtain ⟨d, hd, rfl⟩ := hr
    obtain ⟨hmem, hlt⟩ := mem_filter.mp hd
    rw [decide_eq_true_eq] at hlt
    refine Finset.mem_sdiff.mpr ⟨Finset.mem_range.mpr (hv.voters d hmem), ?_⟩
    intro hin
    exact Nat.not_le.mpr hlt (hv.covered_le hmem (hmine d hmem hin).2)
  have hle := Finset.card_le_card houtside
  rw [toFinset_card_of_nodup hnodup, length_map,
    Finset.card_sdiff_of_subset hsub, Finset.card_range] at hle
  rw [hcount]
  unfold Membership.quorumNackPrepare
  omega

/-- No vote advertises a checkpoint above its commit, and no head is at the top of the range. -/
structure Sane (dvcs : List DoViewChange) : Prop where
  checkpoint : ∀ d ∈ dvcs, d.checkpointOp ≤ d.commit
  range : ∀ d ∈ dvcs, d.op < u64Max

theorem Sane.checkpoint_le (hs : Sane dvcs) (hd : d ∈ dvcs) :
    d.checkpointOp ≤ maxOf DoViewChange.commit dvcs :=
  (hs.checkpoint d hd).trans (le_maxOf hd)

theorem claimedHead_lt (hs : Sane dvcs) :
    claimedHead dvcs < u64Max := by
  have hle : maxOf DoViewChange.op (canonicalVotes dvcs) ≤ u64Max - 1 :=
    maxOf_le fun d hd =>
      Nat.le_sub_one_of_lt (hs.range d (mem_canonicalVotes.mp hd).1)
  have hu : 0 < u64Max := by decide
  exact Nat.lt_of_le_of_lt ((Nat.min_le_left _ _).trans hle) (by omega)

/-- What a canonical vote covers is within the claimed head. -/
theorem le_claimedHead (hv : Votes m dvcs) (hs : Sane dvcs) (hd : d ∈ canonicalVotes dvcs)
    (h : d.Covers op x) : op ≤ claimedHead dvcs := by
  have hmem := (mem_canonicalVotes.mp hd).1
  refine Nat.le_min.mpr ⟨(hv.covered_le hmem h).trans (le_maxOf hd), ?_⟩
  rcases h with ⟨e, he, rfl, _⟩ | h
  · exact (le_maxOf (mem_flatMap.mpr ⟨d, hd, he⟩)).trans (Nat.le_max_left _ _)
  · exact (h.trans (hs.checkpoint_le hmem)).trans (Nat.le_max_right _ _)

theorem CarriedOver.le_opHead (hv : Votes m dvcs) (hs : Sane dvcs) (h : CarriedOver m dvcs op x) :
    op ≤ (select m.quorumNackPrepare dvcs).opHead := by
  obtain ⟨d, hd, hcov⟩ := h.canonical hv
  exact le_nackedHead (claimedHead_lt hs) (le_claimedHead hv hs hd hcov)
    (.inr (h.nacks_lt hv))

/-- The selection holds every operation that was carried over. -/
theorem CarriedOver.holds (hv : Votes m dvcs) (hs : Sane dvcs) (h : CarriedOver m dvcs op x) :
    (select m.quorumNackPrepare dvcs).Holds op x := by
  obtain ⟨d, hd, hcov⟩ := h.canonical hv
  obtain ⟨hmem, hstar⟩ := mem_canonicalVotes.mp hd
  rcases Nat.lt_or_ge (select m.quorumNackPrepare dvcs).floorStar op with hlo | hlo
  · rcases hcov with ⟨e, he, rfl, hx⟩ | hcov
    · obtain ⟨e', he', hop⟩ := exists_mem_log hd he hlo (h.le_opHead hv hs)
      obtain ⟨⟨d', hd', hin⟩, -⟩ := mem_log he'
      obtain ⟨hmem', hstar'⟩ := mem_canonicalVotes.mp hd'
      refine .inr ⟨e', he', hop, ?_⟩
      rw [hv.agree d' hmem' d hmem (hstar'.trans hstar.symm) e' hin e he hop, hx]
    · -- a checkpoint over the op would have lifted the floor over it
      have hfloor : op ≤ (select m.quorumNackPrepare dvcs).floorStar :=
        Nat.le_min.mpr ⟨hcov.trans (le_maxOf hd), hcov.trans (hs.checkpoint_le hmem)⟩
      exact .inl hfloor
  · exact .inl hlo

/-- The ops from the greatest commit up to `op` were all carried over. -/
def Unbroken (m : Membership) (dvcs : List DoViewChange) (op : OpNumber) : Prop :=
  ∀ j, 0 < j → maxOf DoViewChange.commit dvcs ≤ j →
    j ≤ op ∨ j = maxOf DoViewChange.commit dvcs → ∃ y, CarriedOver m dvcs j y

theorem Unbroken.commitStar_le (hv : Votes m dvcs) (hs : Sane dvcs) (h : Unbroken m dvcs op) :
    maxOf DoViewChange.commit dvcs ≤ claimedHead dvcs := by
  rcases Nat.eq_zero_or_pos (maxOf DoViewChange.commit dvcs) with h0 | hpos
  · rw [h0]
    exact Nat.zero_le _
  · obtain ⟨y, hy⟩ := h _ hpos (le_refl _) (.inr rfl)
    obtain ⟨d, hd, hcov⟩ := hy.canonical hv
    exact le_claimedHead hv hs hd hcov

/-- No gap opens above the greatest commit up to an op that was carried over without a break. -/
theorem Unbroken.lt_gap (hv : Votes m dvcs) (hs : Sane dvcs) (h : Unbroken m dvcs op) {S : Type}
    {n : Node S} (ha : n.Adopted (select m.quorumNackPrepare dvcs)) {gap : OpNumber}
    (hgap : maxOf DoViewChange.commit dvcs < gap) (hopen : n.log.contains gap = false) :
    op < gap := by
  by_contra hle
  obtain ⟨y, hy⟩ := h gap (by omega) (Nat.le_of_lt hgap) (.inl (Nat.not_lt.mp hle))
  rcases hy.holds hv hs with hfloor | ⟨e, he, rfl, _⟩
  · have hcap : (select m.quorumNackPrepare dvcs).floorStar ≤
        maxOf DoViewChange.commit dvcs := Nat.min_le_right _ _
    exact Nat.not_le.mpr hgap (hfloor.trans hcap)
  · obtain ⟨own, hown, _⟩ := ha.held e he
    rw [OrdMap.contains, hown] at hopen
    cases hopen

theorem Unbroken.ungapped (hv : Votes m dvcs) (hs : Sane dvcs)
    (h : Unbroken m dvcs op) (hop : CarriedOver m dvcs op x) {S : Type} [StateMachine S]
    (n : Node S) (now : Instant) (hn : n.membership = m) :
    op ≤ (select m.quorumNackPrepare dvcs).floorStar ∨
    op ≤ (n.startViewAsNewPrimary now dvcs).op ∧
    ∃ own, (n.startViewAsNewPrimary now dvcs).log.get? op = some own ∧ own.operation = x := by
  subst hn
  rcases hop.holds hv hs with hfloor | ⟨e, he, rfl, hx⟩
  · exact .inl hfloor
  right
  obtain ⟨k, ha, hformed⟩ := n.startViewAsNewPrimary_adopted now dvcs
  obtain ⟨own, hown, hop'⟩ := ha.held e he
  have hle := hop.le_opHead hv hs
  rw [← ha.head] at hle
  rcases hformed with hkept | hcut
  · obtain ⟨hhead, hlog⟩ := Prod.mk.inj hkept
    exact ⟨hhead ▸ hle, own, hlog ▸ hown, hop'.trans hx⟩
  · obtain ⟨hhead, hlog⟩ := Prod.mk.inj hcut
    have hkept := k.get?_truncateAtGap hle fun gap hgap hopen => h.lt_gap hv hs ha hgap hopen
    rw [hhead, hlog]
    exact ⟨hkept.1, own, hkept.2.trans hown, hop'.trans hx⟩

/-- An operation that a quorum recorded and later logs carried over, with no break down to the
greatest commit, survives the selection and is in the log of the node that forms the view. -/
theorem committed_op_survives (hv : Votes m dvcs) (hs : Sane dvcs) (hop : CarriedOver m dvcs op x)
    (hu : Unbroken m dvcs op) : Survives m dvcs op x where
  committed := hu.commitStar_le hv hs
  head := le_nackedHead (claimedHead_lt hs) (hu.commitStar_le hv hs) (.inl (le_refl _))
  holds := hop.holds hv hs
  sorted := log_sorted _ _
  within := fun _ he => (mem_log he).2
  ungapped := fun n now hn => hu.ungapped hv hs hop n now hn

end Survival

/-- A vote of the group of three, in view three. -/
def trioVote (replica : ReplicaId) (logView : View) (op commit checkpointOp : OpNumber)
    (ops : List OpNumber) : DoViewChange :=
  ⟨3, logView, op, commit, checkpointOp, 0, trioMembership.configId, replica,
    ops.map fun op => .ofBytes op 9 op []⟩

def trioOperation (op : OpNumber) : Operation := (PreparedEntry.ofBytes op 9 op []).operation

/-- Two voters list ops 1 and 2, which the third did not get. -/
theorem committed_op_survives_trio :
    Survives trioMembership [trioVote 0 1 2 0 0 [1, 2], trioVote 1 1 2 0 0 [1, 2]] 2
      (trioOperation 2) := by
  have hcarried (op : OpNumber) (hop : op = 1 ∨ op = 2) : CarriedOver trioMembership
      [trioVote 0 1 2 0 0 [1, 2], trioVote 1 1 2 0 0 [1, 2]] op (trioOperation op) := by
    rcases hop with rfl | rfl
    all_goals
      exact ⟨{0, 1}, 1, by decide, by decide, by decide, by decide +kernel, by decide +kernel⟩
  refine committed_op_survives (by decide +kernel) ⟨by decide, by decide⟩ (hcarried 2 (.inr rfl)) ?_
  intro j hpos _ hle
  have h0 : maxOf DoViewChange.commit
    [trioVote 0 1 2 0 0 [1, 2], trioVote 1 1 2 0 0 [1, 2]] = 0 := by decide
  exact ⟨_, hcarried j (by lia)⟩

/-- A member of the group of three with an empty log. -/
def blankReplica : Node Tally :=
  .empty { cluster := 1, localMember := 7 } trioMembership {} 5 1 { capacity := 8 } {}

/-- Recorded by a quorum alone, an operation may still be lost: to a vote of a later log view that
does not list it, to a checkpoint above every commit, to a commit above the canonical heads, and
to a gap below it. -/
theorem recorded_op_lost :
    (let dvcs := [trioVote 0 1 1 0 0 [1], trioVote 2 2 0 0 0 []];
      Votes trioMembership dvcs ∧ Recorded trioMembership dvcs 1 (trioOperation 1) ∧
      ¬ Survives trioMembership dvcs 1 (trioOperation 1)) ∧
    (let dvcs := [trioVote 0 1 1 0 1 [], trioVote 1 1 1 0 1 []];
      Votes trioMembership dvcs ∧ Recorded trioMembership dvcs 1 (trioOperation 1) ∧
      ¬ Survives trioMembership dvcs 1 (trioOperation 1)) ∧
    (let dvcs := [trioVote 0 1 2 2 0 [1, 2], trioVote 2 2 1 0 0 [1]];
      Votes trioMembership dvcs ∧ Recorded trioMembership dvcs 1 (trioOperation 1) ∧
      ¬ Survives trioMembership dvcs 1 (trioOperation 1)) ∧
    (let dvcs := [trioVote 0 1 2 0 0 [2], trioVote 1 1 2 0 0 [2]];
      Votes trioMembership dvcs ∧ Recorded trioMembership dvcs 2 (trioOperation 2) ∧
      ¬ Survives trioMembership dvcs 2 (trioOperation 2)) := by
  refine ⟨⟨by decide +kernel, ?_, ?_⟩, ⟨by decide +kernel, ?_, ?_⟩, ⟨by decide +kernel, ?_, ?_⟩,
    ⟨by decide +kernel, ?_, ?_⟩⟩
  · exact ⟨{0, 1}, 1, by decide, by decide, by decide, by decide +kernel⟩
  · exact fun h => absurd h.holds (by decide +kernel)
  · exact ⟨{0, 1}, 1, by decide, by decide, by decide, by decide +kernel⟩
  · exact fun h => absurd h.holds (by decide +kernel)
  · exact ⟨{0, 1}, 1, by decide, by decide, by decide, by decide +kernel⟩
  · exact fun h => absurd h.committed (by decide +kernel)
  · exact ⟨{0, 1}, 1, by decide, by decide, by decide, by decide +kernel⟩
  · intro h
    rcases h.ungapped blankReplica 0 rfl with hfloor | ⟨hop, -⟩
    · exact absurd hfloor (by decide +kernel)
    · exact absurd hop (by decide +kernel)

end Viewstamp
