import Viewstamp.Blocks.SessionTree

/- A session table, written and read back.

   The decoder walks the tree of a table leaf by leaf. It gives up when it has visited
   more blocks than a checkpoint is allowed to reach, so a table is read back exactly as
   long as its leaves and index blocks stay within that bound. -/
namespace Viewstamp.Blocks

open List

open Chunks Worklist

section
variable {address : Bytes → BlockAddress}
variable {a : BlockAddress} {store : BlockStore BlockAddress}

/-! ## The leaves in order -/

theorem fresh_insert {nodes : List BlockAddress} {visited : Finset BlockAddress} (hnot : a ∉ nodes)
    (hfresh : ∀ c ∈ a :: nodes, c ∉ visited) : ∀ c ∈ nodes, c ∉ insert a visited := by
  intro c hc
  rw [Finset.mem_insert, not_or]
  exact ⟨fun heq => hnot (heq ▸ hc), hfresh c (mem_cons_of_mem a hc)⟩

/-- The walk finds its leaves, unless it visits too many blocks. -/
theorem orderedLeavesFrom_walk
    {stack leaves nodes : List BlockAddress}
    (h : Walk (readVerifiedBlock address store) stack leaves nodes) (hnodup : nodes.Nodup)
    {visited : Finset BlockAddress} (hfresh : ∀ a ∈ nodes, a ∉ visited)
    (hbound : visited.card ≤ maxReachableBlocks) (out : List BlockAddress) :
    orderedLeavesFrom address store visited stack out
      = .ok (if visited.card + nodes.length ≤ maxReachableBlocks then some (out ++ leaves)
        else none) := by
  induction h generalizing visited out with
  | done =>
    rw [orderedLeavesFrom, length_nil, Nat.add_zero, if_pos hbound, append_nil]
  | @leaf a b stack leaves nodes hread hkind rest ih =>
    obtain ⟨hnot, hnodup⟩ := nodup_cons.mp hnodup
    have hnew : a ∉ visited := hfresh a mem_cons_self
    have hcard := Finset.card_insert_of_notMem hnew
    rw [orderedLeavesFrom, if_neg hnew, length_cons]
    by_cases hover : maxReachableBlocks < (insert a visited).card
    · rw [if_pos hover, if_neg (by omega)]
    · have hrest := ih hnodup (fresh_insert hnot hfresh) (Nat.not_lt.mp hover) (out ++ [a])
      have hleaf : (some tagLeaf : Option UInt8) ≠ some tagIndex := by decide
      rw [if_neg hover]
      simp only [hread, hkind, hleaf, if_false, if_true, hrest, hcard]
      rw [append_assoc, singleton_append, Nat.add_assoc, Nat.add_comm 1]
  | @index a b children stack leaves nodes hread hkind hchildren rest ih =>
    obtain ⟨hnot, hnodup⟩ := nodup_cons.mp hnodup
    have hnew : a ∉ visited := hfresh a mem_cons_self
    have hcard := Finset.card_insert_of_notMem hnew
    rw [orderedLeavesFrom, if_neg hnew, length_cons]
    by_cases hover : maxReachableBlocks < (insert a visited).card
    · rw [if_pos hover, if_neg (by omega)]
    · have hrest := ih hnodup (fresh_insert hnot hfresh) (Nat.not_lt.mp hover) out
      rw [if_neg hover]
      simp only [hread, hkind, if_true, hchildren, hrest, hcard]
      rw [Nat.add_assoc, Nat.add_comm 1]

/-! ## The table -/

theorem foldl_insert_get? (es : List (ClientId × Session)) (hkeys : (es.map Prod.fst).Nodup)
    (m : OrdMap ClientId Session) (k : ClientId) :
    (es.foldl (fun m e => m.insert e.1 e.2) m).get? k
      = (OrdMap.lookupEntry k es).or (m.get? k) := by
  induction es generalizing m with
  | nil => rfl
  | cons e es ih =>
    obtain ⟨hnot, hkeys⟩ := nodup_cons.mp hkeys
    rw [foldl_cons, ih hkeys, OrdMap.lookupEntry, OrdMap.get?_insert]
    by_cases hk : k = e.1
    · have hnone : OrdMap.lookupEntry k es = none := by
        refine OrdMap.lookupEntry_eq_none fun x hx hxk => hnot ?_
        rw [← hk, ← hxk]
        exact mem_map_of_mem hx
      rw [if_pos hk, if_pos hk, hnone]
      rfl
    · rw [if_neg hk, if_neg hk]

theorem foldl_insert_entries (t : OrdMap ClientId Session)
    (hkeys : (t.entries.map Prod.fst).Nodup) :
    t.entries.foldl (fun m e => m.insert e.1 e.2) .empty = t := by
  apply OrdMap.ext_get?
  intro k
  rw [foldl_insert_get? t.entries hkeys, OrdMap.get?_empty, Option.or_none]
  rfl

theorem decodeLeaves_groups
    (groups : List (List (ClientId × Session)))
    (hread : ∀ g ∈ groups, readVerifiedBlock address store (address (leafBlock address g))
      = some (leafBlock address g))
    (fits : ∀ e ∈ groups.flatten, RecordFits e)
    (hbody : ∀ e ∈ groups.flatten, ∀ b ∈ externalBlocks e,
      readVerifiedBlock address store (address b) = some b) (sessions : OrdMap ClientId Session) :
    decodeLeaves address store ((groups.map (leafBlock address)).map address) sessions
      = some (groups.flatten.foldl (fun m e => m.insert e.1 e.2) sessions) := by
  induction groups generalizing sessions with
  | nil => rfl
  | cons g groups ih =>
    have hg (e : ClientId × Session) (he : e ∈ g) : e ∈ (g :: groups).flatten :=
      mem_flatten_of_mem mem_cons_self he
    have hrest (e : ClientId × Session) (he : e ∈ groups.flatten) : e ∈ (g :: groups).flatten :=
      mem_append_right g he
    have hpayload := decodeRecords_leafPayload address g (fun e he => fits e (hg e he))
      (fun e he => hbody e (hg e he)) sessions
    have hkind : blockKind (leafBlock address g) = some tagLeaf := blockKind_block _ _
    have hdrop : (leafBlock address g).drop headerLen = leafPayload address g := drop_block _ _
    simp only [map_cons, decodeLeaves, hread g mem_cons_self, hkind, hdrop, hpayload,
      ne_eq, not_true_eq_false, if_false]
    rw [ih (fun g' h => hread g' (mem_cons_of_mem g h)) (fun e he => fits e (hrest e he))
      (fun e he => hbody e (hrest e he)), flatten_cons, foldl_append]

/-! ## The leaves of a table -/

/-- A leaf opens with the client of its first record. -/
theorem leafBlock_injective {e f : ClientId × Session} {es fs : List (ClientId × Session)}
    (he : RecordFits e) (hf : RecordFits f)
    (h : leafBlock address (e :: es) = leafBlock address (f :: fs)) : e.1 = f.1 := by
  have hpayload : record address e ++ leafPayload address es
      = record address f ++ leafPayload address fs := block_injective h
  obtain ⟨p, hp⟩ := record_client address e
  obtain ⟨q, hq⟩ := record_client address f
  rw [hp, hq, append_assoc, append_assoc] at hpayload
  have hclient := (append_inj hpayload (by simp)).1
  have hword := congrArg ofBeBytes hclient
  rw [ofBeBytes_beBytes (lt_of_lt_of_eq he.client (by norm_num)),
    ofBeBytes_beBytes (lt_of_lt_of_eq hf.client (by norm_num))] at hword
  exact hword

theorem grown_leaves {read : BlockAddress → Option Bytes}
    {groups : List (List (ClientId × Session))} (hne : ∀ g ∈ groups, g ≠ [])
    (fits : ∀ e ∈ groups.flatten, RecordFits e) (hkeys : (groups.flatten.map Prod.fst).Nodup)
    (hholds : Holds address read (groups.map (leafBlock address))) :
    Grown read ((groups.map (leafBlock address)).map address)
      ((groups.map (leafBlock address)).map address)
      ((groups.map (leafBlock address)).map address) := by
  have hread {a : BlockAddress} (ha : a ∈ (groups.map (leafBlock address)).map address) :
      ∃ b, read a = some b ∧ blockKind b = some tagLeaf := by
    obtain ⟨b, hb, rfl⟩ := mem_map.mp ha
    obtain ⟨g, hg, rfl⟩ := mem_map.mp hb
    exact ⟨_, hholds _ hb, blockKind_block _ _⟩
  refine ⟨?_, ?_, ?_⟩
  · generalize (groups.map (leafBlock address)).map address = leaves at hread
    induction leaves with
    | nil => exact .done
    | cons a leaves ih =>
      obtain ⟨b, hb, hkind⟩ := hread mem_cons_self
      exact .leaf hb hkind (ih fun ha => hread (mem_cons_of_mem a ha))
  · -- two leaves under one address would share their first client
    have hdisjoint := (nodup_flatten.mp (hkeys.of_map _)).2
    rw [map_map, Nodup, pairwise_map]
    refine hdisjoint.imp_of_mem ?_
    intro g g' hg hg' hgg heq
    have hblocks : leafBlock address g = leafBlock address g' :=
      hholds.injective (mem_map_of_mem hg) (mem_map_of_mem hg') heq
    obtain ⟨e, es, rfl⟩ := exists_cons_of_ne_nil (hne g hg)
    obtain ⟨f, fs, rfl⟩ := exists_cons_of_ne_nil (hne g' hg')
    have he : e ∈ groups.flatten := mem_flatten_of_mem hg mem_cons_self
    have hf : f ∈ groups.flatten := mem_flatten_of_mem hg' mem_cons_self
    have hclient := leafBlock_injective (fits e he) (fits f hf) hblocks
    have hsame : e = f := inj_on_of_nodup_map hkeys he hf hclient
    exact hgg mem_cons_self (hsame ▸ mem_cons_self)
  · intro a ha b children hb hok
    obtain ⟨b', hb', hkind⟩ := hread ha
    rw [hb] at hb'
    cases hb'
    rw [indexChildren_of_leaf hkind] at hok
    cases hok
    nofun

/-! ## What the root leads to -/

variable (address) in
/-- The references of a block that reads and verifies. -/
def references (store : BlockStore BlockAddress) (a : BlockAddress) : Option (List BlockAddress) :=
  (readVerifiedBlock address store a).bind fun b => (sessionBlockReferences b).toOption

theorem references_index {b : Bytes} {children : List BlockAddress}
    (hread : readVerifiedBlock address store a = some b) (hkind : blockKind b = some tagIndex)
    (hchildren : indexChildren b = .ok children) : references address store a = some children := by
  simp only [references, hread, Option.bind_some, sessionBlockReferences, hkind, if_true, hchildren]
  rfl

theorem references_leaf {g : List (ClientId × Session)}
    (hread : readVerifiedBlock address store (address (leafBlock address g))
      = some (leafBlock address g)) (fits : ∀ e ∈ g, RecordFits e) :
    references address store (address (leafBlock address g))
      = some (g.flatMap fun e => (externalBlocks e).map address) := by
  have hkind : blockKind (leafBlock address g) = some tagLeaf := blockKind_block _ _
  have hlength : ¬ (leafBlock address g).length < headerLen := by
    rw [leafBlock, length_block]
    omega
  have hdrop : (leafBlock address g).drop headerLen = leafPayload address g := drop_block _ _
  have hne : (some tagLeaf : Option UInt8) ≠ some tagIndex := by decide
  simp only [references, hread, Option.bind_some, sessionBlockReferences, leafBodyRefs, hkind, hne,
    if_false, if_true, ne_eq, not_true_eq_false, hlength, hdrop,
    leafBodyRefsFrom_leafPayload address g fits]
  rfl

theorem references_body {b : Bytes} (hread : readVerifiedBlock address store a = some b)
    (hkind : blockKind b = some tagBody) : references address store a = some [] := by
  have hindex : (some tagBody : Option UInt8) ≠ some tagIndex := by decide
  have hleaf : (some tagBody : Option UInt8) ≠ some tagLeaf := by decide
  simp only [references, hread, Option.bind_some, sessionBlockReferences, hkind, hindex, hleaf,
    if_false]
  rfl

/-- Whatever a walk visits can be reached from where it starts. -/
theorem Walk.reach {stack leaves nodes : List BlockAddress}
    (h : Walk (readVerifiedBlock address store) stack leaves nodes) (ha : a ∈ nodes) :
    ∃ r ∈ stack, Reach (references address store) r a := by
  induction h with
  | done => cases ha
  | leaf _ _ _ ih =>
    rcases mem_cons.mp ha with rfl | ha
    · exact ⟨a, mem_cons_self, .refl⟩
    · obtain ⟨r, hr, hreach⟩ := ih ha
      exact ⟨r, mem_cons_of_mem _ hr, hreach⟩
  | index hread hkind hchildren _ ih =>
    rcases mem_cons.mp ha with rfl | ha
    · exact ⟨a, mem_cons_self, .refl⟩
    · obtain ⟨r, hr, hreach⟩ := ih ha
      rcases mem_append.mp hr with hr | hr
      · have hedge := references_index hread hkind hchildren
        exact ⟨_, mem_cons_self, .head ⟨_, hedge, hr⟩ hreach⟩
      · exact ⟨r, mem_cons_of_mem _ hr, hreach⟩

theorem keys_nodup (t : OrdMap ClientId Session) : (t.entries.map Prod.fst).Nodup := by
  rw [Nodup, pairwise_map]
  exact t.sorted.imp fun h => Nat.ne_of_lt h

/-! ## A table and its blocks -/

variable (address) in
/-- How a table was written: its groups of records, the blocks of the packing, the index blocks. -/
structure Written (t : OrdMap ClientId Session) (root : BlockAddress)
    (groups : List (List (ClientId × Session))) (packs index : List Bytes) : Prop where
  fits : ∀ e ∈ t.entries, RecordFits e
  packed : Packed address t.entries groups [] packs
  builds : Builds address ((groups.map (leafBlock address)).map address) root index

variable (address) in
theorem exists_written {t : OrdMap ClientId Session} (fits : ∀ e ∈ t.entries, RecordFits e) :
    ∃ root groups packs index, Written address t root groups packs index ∧
      ∀ store, encodeSessions address t ⟨store, []⟩
        = (root, ⟨(packs ++ index).foldl (put address) store, packs ++ index⟩) := by
  obtain ⟨groups, packs, hpacked, hpack⟩ := exists_packed address fits
  obtain ⟨root, index, hbuilds, hbuild⟩ :=
    exists_builds address ((groups.map (leafBlock address)).map address)
  refine ⟨root, groups, packs, index, ⟨fits, hpacked, hbuilds⟩, ?_⟩
  intro store
  simp only [encodeSessions, hpack, packing, hbuild, Sink.puts_eq, nil_append,
    foldl_append]

namespace Written

variable {t : OrdMap ClientId Session} {root : BlockAddress}
  {groups : List (List (ClientId × Session))} {packs index : List Bytes}
  {store : BlockStore BlockAddress}

theorem flatten (h : Written address t root groups packs index) : groups.flatten = t.entries := by
  have hsplit := h.packed.split
  rwa [append_nil] at hsplit

theorem leaf_mem (h : Written address t root groups packs index) {g : List (ClientId × Session)}
    (hg : g ∈ groups) : leafBlock address g ∈ packs := by
  have hmem : leafBlock address g ∈ packs.filter isTree := by
    rw [h.packed.tree]
    exact mem_map_of_mem hg
  exact (mem_filter.mp hmem).1

theorem body_mem (h : Written address t root groups packs index) {e : ClientId × Session}
    (he : e ∈ t.entries) {b : Bytes} (hb : b ∈ externalBlocks e) : b ∈ packs :=
  ((h.packed.body b).mpr ⟨e, he, hb⟩).1

theorem size (h : Written address t root groups packs index) :
    ∀ b ∈ packs ++ index, b.length ≤ sessionBlockBudget := by
  intro b hb
  rcases mem_append.mp hb with hb | hb
  · cases htree : isTree b with
    | true =>
      have hmem : b ∈ packs.filter isTree := mem_filter.mpr ⟨hb, htree⟩
      rw [h.packed.tree] at hmem
      obtain ⟨g, hg, rfl⟩ := mem_map.mp hmem
      have hlen := (h.packed.closed g hg).2
      rw [leafBlock, length_block]
      simp only [leafBudget, sessionBlockBudget, headerLen] at hlen ⊢
      omega
    | false =>
      obtain ⟨e, -, hext⟩ := (h.packed.body b).mp ⟨hb, htree⟩
      exact (externalBlocks_size hext).2
  · exact (h.builds.size b hb).2

theorem tree_blocks (h : Written address t root groups packs index) :
    (packs ++ index).filter isTree = groups.map (leafBlock address) ++ index := by
  have hindex : index.filter isTree = index := by
    refine filter_eq_self.mpr fun b hb => ?_
    rw [isTree, (h.builds.size b hb).1]
    decide
  rw [filter_append, h.packed.tree, hindex]

/-- The decoder's walk over what was written: the leaves in order, every tree block once. -/
theorem walk (h : Written address t root groups packs index)
    (hholds : Holds address (readVerifiedBlock address store) (packs ++ index)) :
    ∃ nodes, Walk (readVerifiedBlock address store) [root]
        ((groups.map (leafBlock address)).map address) nodes
      ∧ nodes.Nodup ∧ nodes.Perm (((packs ++ index).filter isTree).map address) := by
  have hleaves := grown_leaves (fun g hg => (h.packed.closed g hg).1)
    (fun e he => h.fits e (h.flatten ▸ he)) (h.flatten.symm ▸ keys_nodup t)
    (fun b hb => by
      obtain ⟨g, hg, rfl⟩ := mem_map.mp hb
      exact hholds _ (mem_append_left _ (h.leaf_mem hg)))
  obtain ⟨nodes, hwalk, hnodup, hperm⟩ := h.builds.walk
    (fun b hb => hholds b (mem_append_right _ hb)) hleaves
  refine ⟨nodes, hwalk, hnodup, hperm.trans ?_⟩
  rw [h.tree_blocks, map_append]
  exact perm_append_comm

theorem decode (h : Written address t root groups packs index)
    (hholds : Holds address (readVerifiedBlock address store) (packs ++ index)) :
    decodeSessions address store root
      = .ok (if ((packs ++ index).filter isTree).length ≤ maxReachableBlocks then some t
        else none) := by
  obtain ⟨nodes, hwalk, hnodup, hperm⟩ := h.walk hholds
  have hlength : nodes.length = ((packs ++ index).filter isTree).length := by
    rw [hperm.length_eq, length_map]
  have hordered := orderedLeavesFrom_walk hwalk hnodup (fun a _ => Finset.notMem_empty a)
    (Nat.zero_le _) []
  have hleaves := decodeLeaves_groups groups
    (fun g hg => hholds _ (mem_append_left _ (h.leaf_mem hg)))
    (fun e he => h.fits e (h.flatten ▸ he))
    (fun e he b hb => hholds b (mem_append_left _ (h.body_mem (h.flatten ▸ he) hb))) .empty
  rw [h.flatten, foldl_insert_entries t (keys_nodup t)] at hleaves
  rw [Finset.card_empty, Nat.zero_add, hlength, nil_append] at hordered
  simp only [decodeSessions, hordered]
  by_cases hbound : ((packs ++ index).filter isTree).length ≤ maxReachableBlocks
  · simp only [hbound, if_true, hleaves]
  · simp only [hbound, if_false]

theorem group_fits (h : Written address t root groups packs index) {g : List (ClientId × Session)}
    (hg : g ∈ groups) : ∀ e ∈ g, RecordFits e :=
  fun e he => h.fits e (h.flatten ▸ mem_flatten_of_mem hg he)

/-- What a written block refers to was written too. -/
theorem reference_mem (h : Written address t root groups packs index)
    (hholds : Holds address (readVerifiedBlock address store) (packs ++ index))
    {leaves nodes refs : List BlockAddress}
    (hwalk : Walk (readVerifiedBlock address store) [root] leaves nodes)
    (hperm : nodes.Perm (((packs ++ index).filter isTree).map address)) {b : Bytes}
    (hb : b ∈ packs ++ index) (hrefs : references address store (address b) = some refs)
    {c : BlockAddress} (hc : c ∈ refs) : ∃ b ∈ packs ++ index, address b = c := by
  cases htree : isTree b with
  | false =>
    have hkind : blockKind b = some tagBody := by simpa [isTree] using htree
    rw [references_body (hholds b hb) hkind] at hrefs
    cases hrefs
    cases hc
  | true =>
    have hmem : b ∈ (packs ++ index).filter isTree := mem_filter.mpr ⟨hb, htree⟩
    have hnode : address b ∈ nodes := hperm.mem_iff.mpr (mem_map_of_mem hmem)
    rw [h.tree_blocks] at hmem
    rcases mem_append.mp hmem with hleaf | hindex
    · obtain ⟨g, hg, rfl⟩ := mem_map.mp hleaf
      rw [references_leaf (hholds _ hb) (h.group_fits hg)] at hrefs
      cases hrefs
      obtain ⟨e, heg, hc⟩ := mem_flatMap.mp hc
      obtain ⟨b', hb', rfl⟩ := mem_map.mp hc
      have he : e ∈ t.entries := h.flatten ▸ mem_flatten_of_mem hg heg
      exact ⟨b', mem_append_left _ (h.body_mem he hb'), rfl⟩
    · obtain ⟨children, hchildren⟩ := indexChildren_ok b
      rw [references_index (hholds b hb) (h.builds.size b hindex).1 hchildren] at hrefs
      cases hrefs
      have hchild := hwalk.closed hnode (hholds b hb) hchildren hc
      obtain ⟨b', hb', rfl⟩ := mem_map.mp (hperm.mem_iff.mp hchild)
      exact ⟨b', (mem_filter.mp hb').1, rfl⟩

/-- The root leads to the blocks written for it and to nothing else. -/
theorem reach_iff (h : Written address t root groups packs index)
    (hholds : Holds address (readVerifiedBlock address store) (packs ++ index)) (a : BlockAddress) :
    Reach (references address store) root a ↔ ∃ b ∈ packs ++ index, address b = a := by
  obtain ⟨nodes, hwalk, hnodup, hperm⟩ := h.walk hholds
  have hnode {b : Bytes} (hb : b ∈ packs ++ index) (htree : isTree b = true) : address b ∈ nodes :=
    hperm.mem_iff.mpr (mem_map_of_mem (mem_filter.mpr ⟨hb, htree⟩))
  have hblock {a : BlockAddress} (ha : a ∈ nodes) :
      ∃ b ∈ packs ++ index, isTree b = true ∧ address b = a := by
    obtain ⟨b, hb, rfl⟩ := mem_map.mp (hperm.mem_iff.mp ha)
    obtain ⟨hmem, htree⟩ := mem_filter.mp hb
    exact ⟨b, hmem, htree, rfl⟩
  have hdown {b : Bytes} (hb : b ∈ packs ++ index) (htree : isTree b = true) :
      Reach (references address store) root (address b) := by
    obtain ⟨r, hr, hreach⟩ := hwalk.reach (hnode hb htree)
    rwa [mem_singleton.mp hr] at hreach
  constructor
  · intro hreach
    induction hreach with
    | refl =>
      obtain ⟨b, hb, -, heq⟩ := hblock (hwalk.stack_sublist.subset mem_cons_self)
      exact ⟨b, hb, heq⟩
    | @tail x c _ hedge ih =>
      obtain ⟨b, hb, rfl⟩ := ih
      obtain ⟨refs, hrefs, hc⟩ := hedge
      exact h.reference_mem hholds hwalk hperm hb hrefs hc
  · rintro ⟨b, hb, rfl⟩
    cases htree : isTree b with
    | true => exact hdown hb htree
    | false =>
      -- a body chunk hangs off the leaf its record is in
      have hpack : b ∈ packs := by
        refine (mem_append.mp hb).resolve_right fun hindex => ?_
        rw [isTree, (h.builds.size b hindex).1] at htree
        cases htree
      obtain ⟨e, he, hext⟩ := (h.packed.body b).mp ⟨hpack, htree⟩
      rw [← h.flatten] at he
      obtain ⟨g, hg, heg⟩ := mem_flatten.mp he
      have hleaf : leafBlock address g ∈ packs ++ index := mem_append_left _ (h.leaf_mem hg)
      have hrefs := references_leaf (hholds _ hleaf) (h.group_fits hg)
      exact (hdown hleaf (isTree_leafBlock address g)).tail
        ⟨_, hrefs, mem_flatMap.mpr ⟨e, heg, mem_map_of_mem hext⟩⟩

end Written

/-- A table is written in blocks within the budget under a root that depends on the table alone.
If the blocks have different addresses, the root leads to them and to nothing else, and the table
is read back from it as long as its leaves and index blocks are not too many; it is refused
otherwise. A decode of anything else ends without a panic. -/
theorem session_codec (address : Bytes → BlockAddress) :
    (∀ t : OrdMap ClientId Session, (∀ e ∈ t.entries, RecordFits e) → ∃ root blocks,
      (∀ store, encodeSessions address t ⟨store, []⟩
        = (root, ⟨blocks.foldl (put address) store, blocks⟩)) ∧
      (∀ b ∈ blocks, b.length ≤ sessionBlockBudget) ∧
      (Set.InjOn address {b | b ∈ blocks} → ∀ store,
        decodeSessions address (blocks.foldl (put address) store) root
          = .ok (if (blocks.filter isTree).length ≤ maxReachableBlocks then some t else none) ∧
        ∀ a, Reach (references address (blocks.foldl (put address) store)) root a ↔
          ∃ b ∈ blocks, address b = a)) ∧
    (∀ store root, ∃ sessions, decodeSessions address store root = .ok sessions) := by
  refine ⟨?_, decodeSessions_ok address⟩
  intro t fits
  obtain ⟨root, groups, packs, index, h, hencode⟩ := exists_written address fits
  refine ⟨root, packs ++ index, hencode, h.size, ?_⟩
  intro hinj store
  have hholds := holds_foldl_put address hinj store
  exact ⟨h.decode hholds, h.reach_iff hholds⟩

end

/-- One client with a short reply. -/
def oneClient : OrdMap ClientId Session :=
  OrdMap.empty.insert 5 { request := 1, reply := some (1, [7]), lastOp := 2 }

def hashed (b : Bytes) : BlockAddress := ⟨beBytes 16 (fnv1a128 b), length_beBytes 16 _⟩

theorem oneClient_fits : ∀ e ∈ oneClient.entries, RecordFits e := by
  intro e he
  obtain rfl : e = (5, { request := 1, reply := some (1, [7]), lastOp := 2 }) := by
    simpa [oneClient, OrdMap.empty, OrdMap.insert, OrdMap.insertEntry] using he
  refine ⟨by decide, by decide, by decide, ?_⟩
  intro rn body h
  cases h
  decide

/-- The blocks written for it, a leaf and the root. -/
def oneClientBlocks : List Bytes := (encodeSessions hashed oneClient ⟨fun _ => none, []⟩).2.written

theorem session_codec_oneClient :
    (∀ e ∈ oneClient.entries, RecordFits e) ∧ Set.InjOn hashed {b | b ∈ oneClientBlocks} ∧
      decodeSessions hashed (oneClientBlocks.foldl (put hashed) fun _ => none)
        (encodeSessions hashed oneClient ⟨fun _ => none, []⟩).1 = .ok (some oneClient) := by
  have hinj : Set.InjOn hashed {b | b ∈ oneClientBlocks} := by
    have hall : ∀ b ∈ oneClientBlocks, ∀ c ∈ oneClientBlocks, hashed b = hashed c → b = c := by
      decide +kernel
    exact fun b hb c hc => hall b hb c hc
  have hbound : (oneClientBlocks.filter isTree).length ≤ maxReachableBlocks := by decide +kernel
  obtain ⟨root, blocks, hencode, -, hdecode⟩ := (session_codec hashed).1 oneClient oneClient_fits
  have hblocks : oneClientBlocks = blocks := by
    rw [oneClientBlocks, hencode]
  subst hblocks
  have hdecoded := (hdecode hinj fun _ => none).1
  rw [if_pos hbound] at hdecoded
  refine ⟨oneClient_fits, hinj, ?_⟩
  rw [hencode]
  exact hdecoded

/-! ### A table that is too large

Each client has a reply that fills a leaf. One client more than a walk may visit blocks, and the
table is refused. -/

/-- The bytes of a record besides its reply. -/
def inlineOverhead : Nat := 16 + 8 + 8 + 1 + 8 + 4

def fullLeaf (body : Bytes) (client : ClientId) : ClientId × Session :=
  (client, { request := 0, reply := some (0, body), lastOp := 0 })

def crowd (body : Bytes) (n : Nat) : OrdMap ClientId Session where
  entries := (range n).map (fullLeaf body)
  sorted := by
    rw [OrdMap.Sorted, pairwise_map]
    exact pairwise_lt_range

section
variable {body : Bytes} (hbody : body.length + inlineOverhead = leafBudget) {n : Nat}
variable {groups : List (List (ClientId × Session))} {root : BlockAddress}
    {packs index : List Bytes}

include hbody in
theorem fullLeaf_length (address : Bytes → BlockAddress) (client : ClientId) :
    externalBlocks (fullLeaf body client) = []
      ∧ (record address (fullLeaf body client)).length = leafBudget := by
  have hinline : (pushRecord client (fullLeaf body client).2 []).length = leafBudget := by
    simp only [pushRecord, fullLeaf, if_true, length_append, length_beBytes, length_cons]
    rw [← hbody, inlineOverhead]
    omega
  have hnone : externalBlocks (fullLeaf body client) = [] := by
    rw [externalBlocks]
    exact if_pos (Nat.le_of_eq hinline)
  refine ⟨hnone, ?_⟩
  rw [record, hnone]
  exact hinline

theorem mem_crowd {e : ClientId × Session} (h : e ∈ (crowd body n).entries) :
    ∃ client < n, e = fullLeaf body client := by
  obtain ⟨client, hclient, rfl⟩ := mem_map.mp h
  exact ⟨client, mem_range.mp hclient, rfl⟩

include hbody in
theorem crowd_fits (hn : n ≤ 2 ^ 120) : ∀ e ∈ (crowd body n).entries, RecordFits e := by
  have hlen : body.length < 2 ^ 32 := by
    simp only [leafBudget, sessionBlockBudget, headerLen, inlineOverhead] at hbody
    omega
  intro e he
  obtain ⟨client, hlt, rfl⟩ := mem_crowd he
  refine ⟨lt_of_lt_of_le hlt (le_trans hn (by decide)), Nat.two_pow_pos 64, Nat.two_pow_pos 64, ?_⟩
  intro rn body' h
  cases h
  exact ⟨Nat.two_pow_pos 64, hlen⟩

theorem eq_map_singleton_of_forall {α : Type} {groups : List (List α)}
    (h : ∀ g ∈ groups, ∃ e, g = [e]) : groups = groups.flatten.map fun e => [e] := by
  induction groups with
  | nil => rfl
  | cons g groups ih =>
    obtain ⟨e, rfl⟩ := h g mem_cons_self
    rw [flatten_cons, map_append, ← ih fun g' hg' => h g' (mem_cons_of_mem _ hg')]
    rfl

include hbody in
/-- A leaf has no room for a second record of that size. -/
theorem crowd_groups {address : Bytes → BlockAddress}
    (h : Written address (crowd body n) root groups packs index) :
    groups = (crowd body n).entries.map fun e => [e] := by
  rw [← h.flatten]
  apply eq_map_singleton_of_forall
  intro g hg
  obtain ⟨hne, hroom⟩ := h.packed.closed g hg
  have hlength (e : ClientId × Session) (he : e ∈ g) : (record address e).length = leafBudget := by
    have hmem : e ∈ (crowd body n).entries := h.flatten ▸ mem_flatten_of_mem hg he
    obtain ⟨client, -, rfl⟩ := mem_crowd hmem
    exact (fullLeaf_length hbody address client).2
  match g, hne with
  | [e], _ => exact ⟨e, rfl⟩
  | e :: f :: rest, _ =>
    have he := hlength e mem_cons_self
    have hf := hlength f (mem_cons_of_mem e mem_cons_self)
    simp only [leafPayload, flatMap_cons, length_append, he, hf] at hroom
    have hpos : 0 < leafBudget := by decide
    omega

/-- The level of a block in the first byte, then the first client below it. -/
def bump : Bytes → Bytes
  | [] => []
  | x :: xs => (x + 1) :: xs

def padded (bs : Bytes) : BlockAddress := ⟨(bs ++ replicate 16 0).take 16, by simp⟩

/-- An address for the blocks of such a table that tells them apart. -/
def spread (b : Bytes) : BlockAddress :=
  if blockKind b = some tagIndex then padded (bump ((b.drop (headerLen + 4)).take 16))
  else padded ((b.drop headerLen).take 16)

theorem padded_bytes {bs : Bytes} (h : bs.length = 16) : (padded bs).bytes = bs :=
  take_left' h

theorem spread_leaf (body : Bytes) {c : ClientId} (hc : c < 2 ^ 120) :
    (spread (leafBlock spread [fullLeaf body c])).bytes = 0 :: beBytes 15 c := by
  have hkind : blockKind (leafBlock spread [fullLeaf body c]) ≠ some tagIndex := by
    rw [leafBlock, blockKind_block]
    decide
  obtain ⟨tail, htail⟩ := record_client spread (fullLeaf body c)
  have htake : ((leafBlock spread [fullLeaf body c]).drop headerLen).take 16 = beBytes 16 c := by
    rw [leafBlock, drop_block, leafPayload_singleton, htail]
    exact take_left' (length_beBytes 16 c)
  rw [spread, if_neg hkind, htake, padded_bytes (length_beBytes 16 c), beBytes,
    Nat.div_eq_of_lt (lt_of_lt_of_eq hc (by norm_num))]
  rfl

theorem spread_index (a : BlockAddress) (as : List BlockAddress) :
    (spread (indexBlock (a :: as))).bytes = bump a.bytes := by
  have hkind : blockKind (indexBlock (a :: as)) = some tagIndex := blockKind_block _ _
  have htake : ((indexBlock (a :: as)).drop (headerLen + 4)).take 16 = a.bytes := by
    rw [← drop_drop, indexBlock, drop_block, drop_left' (length_beBytes 4 _),
      flatMap_cons, take_left' a.length_eq]
  have hbump : (bump a.bytes).length = 16 := by
    have hlen := a.length_eq
    cases ha : a.bytes with
    | nil => simp [ha] at hlen
    | cons x xs => simpa [bump, ha] using hlen
  rw [spread, if_pos hkind, htake, padded_bytes hbump]

theorem spread_leaf_injective {c d : ClientId} (hc : c < 2 ^ 120) (hd : d < 2 ^ 120)
    (h : spread (leafBlock spread [fullLeaf body c]) =
      spread (leafBlock spread [fullLeaf body d])) :
    c = d := by
  have hbytes := congrArg BlockAddress.bytes h
  rw [spread_leaf body hc, spread_leaf body hd] at hbytes
  have hword := congrArg ofBeBytes (cons.inj hbytes).2
  rwa [ofBeBytes_beBytes (lt_of_lt_of_eq hc (by norm_num)),
    ofBeBytes_beBytes (lt_of_lt_of_eq hd (by norm_num))] at hword

/-- The addresses of the leaves. -/
def crowdLevel (body : Bytes) (n : Nat) : List BlockAddress :=
  (range n).map fun c => spread (leafBlock spread [fullLeaf body c])

theorem crowdLevel_nodup (hn : n ≤ 2 ^ 120) : (crowdLevel body n).Nodup := by
  refine Nodup.map_on ?_ nodup_range
  intro c hc d hd h
  exact spread_leaf_injective (lt_of_lt_of_le (mem_range.mp hc) hn)
    (lt_of_lt_of_le (mem_range.mp hd) hn) h

include hbody in
/-- The blocks of a table with one level of index blocks below the root. -/
theorem crowd_blocks (h : Written spread (crowd body n) root groups packs index)
    (hlong : indexFanout < n) (hshort : n ≤ 2 ^ 30) {b : Bytes} (hb : b ∈ packs ++ index) :
    (∃ c < n, b = leafBlock spread [fullLeaf body c]) ∨
      (∃ p ∈ chunks indexFanout (crowdLevel body n), b = indexBlock p) ∨
      b = indexBlock (((chunks indexFanout (crowdLevel body n)).map indexBlock).map spread) := by
  have hgroups := crowd_groups hbody h
  have hlevel : (groups.map (leafBlock spread)).map spread = crowdLevel body n := by
    rw [hgroups, crowd, crowdLevel, map_map, map_map, map_map]
    rfl
  rcases mem_append.mp hb with hb | hb
  · left
    cases htree : isTree b with
    | true =>
      have hmem : b ∈ packs.filter isTree := mem_filter.mpr ⟨hb, htree⟩
      rw [h.packed.tree, hgroups] at hmem
      obtain ⟨g, hg, rfl⟩ := mem_map.mp hmem
      obtain ⟨e, he, rfl⟩ := mem_map.mp hg
      obtain ⟨c, hc, rfl⟩ := mem_crowd he
      exact ⟨c, hc, rfl⟩
    | false =>
      obtain ⟨e, he, hext⟩ := (h.packed.body b).mp ⟨hb, htree⟩
      obtain ⟨c, -, rfl⟩ := mem_crowd he
      rw [(fullLeaf_length hbody spread c).1] at hext
      cases hext
  · right
    have hbuilds := h.builds
    rw [hlevel] at hbuilds
    have hn : (crowdLevel body n).length = n := by
      rw [crowdLevel, length_map, length_range]
    have hmul := length_chunks_mul indexFanout (crowdLevel body n)
    generalize crowdLevel body n = level at hbuilds hn hmul ⊢
    cases hbuilds with
    | top hle => omega
    | up _ rest =>
      rcases mem_append.mp hb with hb | hb
      · obtain ⟨p, hp, rfl⟩ := mem_map.mp hb
        exact .inl ⟨p, hp, rfl⟩
      · right
        generalize hnext : ((chunks indexFanout level).map indexBlock).map spread = next at rest
        have hlen : next.length = (chunks indexFanout level).length := by
          rw [← hnext, length_map, length_map]
        cases rest with
        | top _ => exact mem_singleton.mp hb
        | up hlt _ =>
          simp only [indexFanout, sessionBlockBudget, headerLen] at hmul hlt hlen
          omega

/-- The first byte of an address is the level of its block. -/
theorem spread_level (hn : n ≤ 2 ^ 120) {p : List BlockAddress} (hp : p ≠ [])
    (hsub : ∀ a ∈ p, a ∈ crowdLevel body n) :
    ∃ a xs, a ∈ p ∧ a.bytes = 0 :: xs ∧ (spread (indexBlock p)).bytes = 1 :: xs := by
  obtain ⟨a, as, rfl⟩ := exists_cons_of_ne_nil hp
  obtain ⟨c, hc, rfl⟩ := mem_map.mp (hsub a mem_cons_self)
  have hleaf := spread_leaf body (lt_of_lt_of_le (mem_range.mp hc) hn)
  refine ⟨_, _, mem_cons_self, hleaf, ?_⟩
  rw [spread_index, hleaf]
  rfl

include hbody in
theorem crowd_injective (h : Written spread (crowd body n) root groups packs index)
    (hlong : indexFanout < n) (hshort : n ≤ 2 ^ 30) :
    Set.InjOn spread {b | b ∈ packs ++ index} := by
  have hn : n ≤ 2 ^ 120 := le_trans hshort (by decide)
  have hfanout : indexFanout ≠ 0 := by decide
  have hflat := flatten_chunks hfanout (crowdLevel body n)
  have hsub (p : List BlockAddress) (hp : p ∈ chunks indexFanout (crowdLevel body n)) :
      ∀ a ∈ p, a ∈ crowdLevel body n := by
    intro a ha
    rw [← hflat]
    exact mem_flatten_of_mem hp ha
  have hmid (p : List BlockAddress) (hp : p ∈ chunks indexFanout (crowdLevel body n)) :=
    spread_level hn (ne_nil_of_mem hp) (hsub p hp)
  have htop : ∃ xs, (spread (indexBlock
      (((chunks indexFanout (crowdLevel body n)).map indexBlock).map spread))).bytes = 2 :: xs := by
    have hlevel : crowdLevel body n ≠ [] := by
      rw [crowdLevel, Ne, map_eq_nil_iff, range_eq_nil]
      omega
    obtain ⟨p, ps, hps⟩ := exists_cons_of_ne_nil (chunks_ne_nil hfanout hlevel)
    obtain ⟨a, xs, -, -, hbytes⟩ := hmid p (hps ▸ mem_cons_self)
    refine ⟨xs, ?_⟩
    rw [hps, map_cons, map_cons, spread_index, hbytes]
    rfl
  intro b hb c hc heq
  have hbytes := congrArg BlockAddress.bytes heq
  rcases crowd_blocks hbody h hlong hshort hb with ⟨x, hx, rfl⟩ | ⟨p, hp, rfl⟩ | rfl
    <;> rcases crowd_blocks hbody h hlong hshort hc with ⟨y, hy, rfl⟩ | ⟨q, hq, rfl⟩ | rfl
  · rw [spread_leaf_injective (lt_of_lt_of_le hx hn) (lt_of_lt_of_le hy hn) heq]
  · obtain ⟨a, xs, -, -, hq⟩ := hmid q hq
    rw [spread_leaf body (lt_of_lt_of_le hx hn), hq] at hbytes
    exact absurd (cons.inj hbytes).1 (by decide)
  · obtain ⟨xs, hxs⟩ := htop
    rw [spread_leaf body (lt_of_lt_of_le hx hn), hxs] at hbytes
    exact absurd (cons.inj hbytes).1 (by decide)
  · obtain ⟨a, xs, -, -, hp⟩ := hmid p hp
    rw [spread_leaf body (lt_of_lt_of_le hy hn), hp] at hbytes
    exact absurd (cons.inj hbytes).1 (by decide)
  · -- two index blocks with the same first leaf are the same
    obtain ⟨a, xs, ha, hax, hpx⟩ := hmid p hp
    obtain ⟨a', ys, ha', hay, hqy⟩ := hmid q hq
    rw [hpx, hqy] at hbytes
    have hsame : a = a' := by
      obtain ⟨abytes, alength⟩ := a
      obtain ⟨abytes', alength'⟩ := a'
      rw [BlockAddress.mk.injEq]
      exact hax.trans ((congrArg (0 :: ·) (cons.inj hbytes).2).trans hay.symm)
    by_contra hne
    have hpq : p ≠ q := fun heq => hne (heq ▸ rfl)
    have hdisjoint := (nodup_flatten.mp (hflat.symm ▸ crowdLevel_nodup hn)).2
    have hsymm : Std.Symm (@Disjoint BlockAddress) := ⟨fun _ _ h => h.symm⟩
    exact hdisjoint.forall hp hq hpq ha (hsame ▸ ha')
  · obtain ⟨a, xs, -, -, hp⟩ := hmid p hp
    obtain ⟨ys, hys⟩ := htop
    rw [hp, hys] at hbytes
    exact absurd (cons.inj hbytes).1 (by decide)
  · obtain ⟨xs, hxs⟩ := htop
    rw [spread_leaf body (lt_of_lt_of_le hy hn), hxs] at hbytes
    exact absurd (cons.inj hbytes).1 (by decide)
  · obtain ⟨a, xs, -, -, hq⟩ := hmid q hq
    obtain ⟨ys, hys⟩ := htop
    rw [hq, hys] at hbytes
    exact absurd (cons.inj hbytes).1 (by decide)
  · rfl

end

/-- A table of `2 ^ 20 + 1` full leaves is written, but not read back. -/
theorem crowd_not_decoded :
    ∃ (address : Bytes → BlockAddress) (t : OrdMap ClientId Session) (root : BlockAddress)
      (blocks : List Bytes), (∀ e ∈ t.entries, RecordFits e) ∧
      (∀ store, encodeSessions address t ⟨store, []⟩
        = (root, ⟨blocks.foldl (put address) store, blocks⟩)) ∧
      Set.InjOn address {b | b ∈ blocks} ∧
      ∀ store, decodeSessions address (blocks.foldl (put address) store) root = .ok none := by
  obtain ⟨n, hn⟩ : ∃ n, n = maxReachableBlocks + 1 := ⟨_, rfl⟩
  obtain ⟨body, hbody⟩ : ∃ body : Bytes, body.length + inlineOverhead = leafBudget :=
    ⟨replicate (leafBudget - inlineOverhead) 0, by rw [length_replicate]; decide⟩
  have hlong : indexFanout < n := by
    rw [hn]
    decide
  have hshort : n ≤ 2 ^ 30 := by
    rw [hn]
    decide
  have fits := crowd_fits hbody (le_trans hshort (by decide))
  obtain ⟨root, groups, packs, index, h, hencode⟩ := exists_written spread fits
  have hinj := crowd_injective hbody h hlong hshort
  refine ⟨spread, crowd body n, root, packs ++ index, fits, hencode, hinj, ?_⟩
  intro store
  have hmany : ¬ ((packs ++ index).filter isTree).length ≤ maxReachableBlocks := by
    rw [h.tree_blocks, length_append, length_map, crowd_groups hbody h, length_map,
      crowd, length_map, length_range]
    omega
  have hdecode := h.decode (holds_foldl_put spread hinj store)
  rwa [if_neg hmany] at hdecode

end Viewstamp.Blocks
