import Mathlib.Data.Set.Function
import Viewstamp.Blocks.SessionRecords

/- The graph a session table is written as.

   Packing cuts the records into groups, one leaf each. The index blocks over the leaves
   form a tree: every block of it is written under an address of its own, so the walk
   that looks for the leaves meets each block once, in the order of the records. -/
namespace Viewstamp.Blocks

open List

open Chunks Worklist

/-- Leaves and index blocks: the blocks that the walk of the decoder visits. -/
def isTree (b : Bytes) : Bool := blockKind b != some tagBody

section
variable (address : Bytes → BlockAddress)
variable {bs : List Bytes} {current es : List (ClientId × Session)}
    {groups : List (List (ClientId × Session))}

def leafBlock (es : List (ClientId × Session)) : Bytes := block tagLeaf (leafPayload address es)

/-! ## The sink -/

namespace Sink

theorem puts_append (sink : Sink) (bs cs : List Bytes) :
    sink.puts address (bs ++ cs) = (sink.puts address bs).puts address cs :=
  foldl_append

theorem puts_eq (sink : Sink) (bs : List Bytes) :
    sink.puts address bs = ⟨bs.foldl (Blocks.put address) sink.store, sink.written ++ bs⟩ := by
  induction bs generalizing sink with
  | nil => simp [puts]
  | cons b bs ih =>
    show (sink.put address b).puts address bs = _
    rw [ih]
    simp [Sink.put]

end Sink

/-- Every one of these blocks reads back under its own address. -/
def Holds (read : BlockAddress → Option Bytes) (bs : List Bytes) : Prop :=
  ∀ b ∈ bs, read (address b) = some b

variable {address} in
theorem Holds.injective {read : BlockAddress → Option Bytes} (h : Holds address read bs)
    {b c : Bytes} (hb : b ∈ bs) (hc : c ∈ bs) (heq : address b = address c) : b = c := by
  have hsome := h b hb
  rw [heq, h c hc] at hsome
  exact (Option.some.inj hsome).symm

theorem foldl_put_of_ne (store : BlockStore BlockAddress) (bs : List Bytes) (a : BlockAddress)
    (h : ∀ b ∈ bs, address b ≠ a) : bs.foldl (put address) store a = store a := by
  induction bs generalizing store with
  | nil => rfl
  | cons b bs ih =>
    rw [foldl_cons, ih _ fun c hc => h c (mem_cons_of_mem b hc)]
    exact Function.update_of_ne (h b mem_cons_self).symm _ _

/-- Blocks whose addresses do not collide are all there in the end. -/
theorem holds_foldl_put (hinj : Set.InjOn address {b | b ∈ bs}) (store : BlockStore BlockAddress) :
    Holds address (readVerifiedBlock address (bs.foldl (put address) store)) bs := by
  have hstored : ∀ b ∈ bs, bs.foldl (put address) store (address b) = some b := by
    induction bs generalizing store with
    | nil => nofun
    | cons c bs ih =>
      intro b hb
      have hinj' : Set.InjOn address {b | b ∈ bs} :=
        hinj.mono fun x hx => mem_cons_of_mem c hx
      by_cases hmem : b ∈ bs
      · exact ih hinj' _ b hmem
      · obtain rfl : b = c := (mem_cons.mp hb).resolve_right hmem
        rw [foldl_cons, foldl_put_of_ne]
        · exact Function.update_self _ _ _
        · intro d hd heq
          have hdb := hinj (mem_cons_of_mem b hd) mem_cons_self heq
          exact hmem (hdb ▸ hd)
  intro b hb
  simp only [readVerifiedBlock, hstored b hb, if_true]

/-! ## Packing -/

/-- What the loop has done with the records so far, whatever it writes into. -/
structure Packed (es : List (ClientId × Session)) (groups : List (List (ClientId × Session)))
    (current : List (ClientId × Session)) (bs : List Bytes) : Prop where
  split : groups.flatten ++ current = es
  closed : ∀ g ∈ groups, g ≠ [] ∧ (leafPayload address g).length ≤ leafBudget
  room : (leafPayload address current).length ≤ leafBudget
  tree : bs.filter isTree = groups.map (leafBlock address)
  body : ∀ b, b ∈ bs ∧ isTree b = false ↔ ∃ e ∈ es, b ∈ externalBlocks e

/-- The state of the loop that belongs to it. -/
def packing (sink : Sink) (groups : List (List (ClientId × Session)))
    (current : List (ClientId × Session)) (bs : List Bytes) : Packing :=
  ⟨leafPayload address current, (groups.map (leafBlock address)).map address,
    sink.puts address bs⟩

theorem filter_externalBlocks (e : ClientId × Session) : (externalBlocks e).filter isTree = [] := by
  refine filter_eq_nil_iff.mpr fun b hb => ?_
  rw [isTree, (externalBlocks_size hb).1]
  decide

theorem isTree_leafBlock (g : List (ClientId × Session)) : isTree (leafBlock address g) = true := by
  rw [isTree, leafBlock, blockKind_block]
  decide

theorem length_leafPayload_eq_zero (es : List (ClientId × Session)) :
    (leafPayload address es).length = 0 ↔ es = [] := by
  cases es with
  | nil => simp [leafPayload]
  | cons e es =>
    simpa using leafPayload_cons_ne_nil address e es

theorem leafPayload_append (es fs : List (ClientId × Session)) :
    leafPayload address (es ++ fs) = leafPayload address es ++ leafPayload address fs :=
  flatMap_append

theorem leafPayload_singleton (e : ClientId × Session) :
    leafPayload address [e] = record address e := by
  rw [leafPayload, flatMap_cons, flatMap_nil, append_nil]

theorem packing_flushLeaf (sink : Sink) (groups : List (List (ClientId × Session)))
    (bs : List Bytes) (h : current ≠ []) :
    (packing address sink groups current bs).flushLeaf address
      = packing address sink (groups ++ [current]) [] (bs ++ [leafBlock address current]) := by
  have hne : (leafPayload address current).length ≠ 0 :=
    fun h0 => h ((length_leafPayload_eq_zero address current).mp h0)
  rw [Packing.flushLeaf, packing, if_neg hne, packing, map_append, map_append,
    Sink.puts_append]
  rfl

variable {address}

theorem Packed.flush (h : Packed address es groups current bs) (hne : current ≠ []) :
    Packed address es (groups ++ [current]) [] (bs ++ [leafBlock address current]) where
  split := by
    rw [flatten_append, flatten_singleton, append_nil]
    exact h.split
  closed g hg := by
    rcases mem_append.mp hg with hg | hg
    · exact h.closed g hg
    · rw [mem_singleton.mp hg]
      exact ⟨hne, h.room⟩
  room := Nat.zero_le _
  tree := by
    rw [filter_append, h.tree, map_append, filter_singleton, isTree_leafBlock]
    rfl
  body b := by
    rw [← h.body b, mem_append, mem_singleton]
    constructor
    · rintro ⟨hb | rfl, hbody⟩
      · exact ⟨hb, hbody⟩
      · rw [isTree_leafBlock] at hbody
        cases hbody
    · exact fun hb => ⟨.inl hb.1, hb.2⟩

theorem Packed.snoc (h : Packed address es groups current bs) {e : ClientId × Session}
    (hroom : (leafPayload address (current ++ [e])).length ≤ leafBudget) :
    Packed address (es ++ [e]) groups (current ++ [e]) (bs ++ externalBlocks e) where
  split := by rw [← append_assoc, h.split]
  closed := h.closed
  room := hroom
  tree := by rw [filter_append, filter_externalBlocks, append_nil, h.tree]
  body b := by
    have hold := h.body b
    have hnew : b ∈ externalBlocks e → isTree b = false := by
      intro hb
      rw [isTree, (externalBlocks_size hb).1]
      decide
    simp only [mem_append, mem_singleton]
    constructor
    · rintro ⟨hb | hb, hbody⟩
      · obtain ⟨e', he', hb'⟩ := hold.mp ⟨hb, hbody⟩
        exact ⟨e', .inl he', hb'⟩
      · exact ⟨e, .inr rfl, hb⟩
    · rintro ⟨e', he' | rfl, hb⟩
      · obtain ⟨hmem, hbody⟩ := hold.mpr ⟨e', he', hb⟩
        exact ⟨.inl hmem, hbody⟩
      · exact ⟨.inr hb, hnew hb⟩

/-- The order of the writes matters to the tree blocks only. -/
theorem Packed.congr {bs cs : List Bytes} (h : Packed address es groups current bs)
    (htree : cs.filter isTree = bs.filter isTree) (hmem : ∀ b, b ∈ cs ↔ b ∈ bs) :
    Packed address es groups current cs where
  split := h.split
  closed := h.closed
  room := h.room
  tree := htree.trans h.tree
  body b := by rw [hmem b, h.body b]

theorem Packed.start : Packed address [] [] [] [] where
  split := rfl
  closed := nofun
  room := Nat.zero_le _
  tree := rfl
  body b := by simp

theorem Packed.pack (h : Packed address es groups current bs)
    {e : ClientId × Session} (fits : RecordFits e) :
    ∃ groups' current' bs', Packed address (es ++ [e]) groups' current' bs' ∧
      ∀ sink, (packing address sink groups current bs).pack address e.1 e.2
        = packing address sink groups' current' bs' := by
  have hrecord := record_length_le address fits
  by_cases hflush : (leafPayload address current).length ≠ 0
      ∧ leafBudget < (leafPayload address current).length + (record address e).length
  · -- the leaf is closed, after the chunks of the new record have been written
    have hne : current ≠ [] := fun h0 => hflush.1 ((length_leafPayload_eq_zero _ _).mpr h0)
    have hsingle : (leafPayload address ([] ++ [e])).length ≤ leafBudget := by
      rw [nil_append, leafPayload_singleton]
      exact hrecord
    refine ⟨groups ++ [current], [e], bs ++ externalBlocks e ++ [leafBlock address current], ?_, ?_⟩
    · refine ((h.flush hne).snoc hsingle).congr ?_ ?_
      · simp only [filter_append, filter_externalBlocks, append_nil]
      · intro b
        simp only [mem_append, mem_singleton]
        exact or_right_comm
    · intro sink
      have hclose := packing_flushLeaf address sink groups (bs ++ externalBlocks e) hne
      rw [packing, Sink.puts_append] at hclose
      simp only [Packing.pack, encodeRecord_eq]
      rw [packing, if_pos hflush, hclose, packing, packing, leafPayload_singleton]
      rfl
  · refine ⟨groups, current ++ [e], bs ++ externalBlocks e, h.snoc ?_, ?_⟩
    · rw [leafPayload_append, leafPayload_singleton, length_append]
      rcases Nat.eq_zero_or_pos (leafPayload address current).length with h0 | hpos
      · omega
      · have hle := fun hlt => hflush ⟨Nat.ne_of_gt hpos, hlt⟩
        omega
    · intro sink
      simp only [Packing.pack, encodeRecord_eq]
      rw [packing, if_neg hflush, packing, Sink.puts_append, leafPayload_append,
        leafPayload_singleton]

theorem Packed.packAll (h : Packed address es groups current bs)
    {rest : List (ClientId × Session)} (fits : ∀ e ∈ rest, RecordFits e) :
    ∃ groups' current' bs', Packed address (es ++ rest) groups' current' bs' ∧
      ∀ sink, (packing address sink groups current bs).packAll address rest
        = packing address sink groups' current' bs' := by
  induction rest generalizing es groups current bs with
  | nil =>
    refine ⟨groups, current, bs, ?_, fun sink => rfl⟩
    rw [append_nil]
    exact h
  | cons e rest ih =>
    obtain ⟨groups1, current1, bs1, h1, hpack⟩ := h.pack (fits e mem_cons_self)
    obtain ⟨groups2, current2, bs2, h2, hall⟩ := ih h1 fun e' he' => fits e' (mem_cons_of_mem e he')
    refine ⟨groups2, current2, bs2, ?_, ?_⟩
    · rw [append_assoc] at h2
      exact h2
    · intro sink
      rw [← hall sink, ← hpack sink]
      rfl

variable (address) in
/-- The records of a table, cut into leaves. -/
theorem exists_packed (fits : ∀ e ∈ es, RecordFits e) :
    ∃ groups bs, Packed address es groups [] bs ∧ ∀ sink,
      ((⟨[], [], sink⟩ : Packing).packAll address es).flushLeaf address
        = packing address sink groups [] bs := by
  have hstart : Packed address [] [] [] [] := .start
  obtain ⟨groups, current, bs, h, hall⟩ := hstart.packAll fits
  have hall' (sink : Sink) : (⟨[], [], sink⟩ : Packing).packAll address es
      = packing address sink groups current bs := hall sink
  rw [nil_append] at h
  by_cases hcurrent : current = []
  · refine ⟨groups, bs, hcurrent ▸ h, ?_⟩
    intro sink
    rw [hall', hcurrent]
    rfl
  · refine ⟨groups ++ [current], bs ++ [leafBlock address current], h.flush hcurrent, ?_⟩
    intro sink
    rw [hall', packing_flushLeaf address sink groups bs hcurrent]

/-! ## The index tree -/

variable (address) in
/-- The index blocks over a level, from the lowest level to the root. -/
inductive Builds : List BlockAddress → BlockAddress → List Bytes → Prop where
  | top {level : List BlockAddress} (h : level.length ≤ indexFanout) :
      Builds level (address (indexBlock level)) [indexBlock level]
  | up {level : List BlockAddress} {root : BlockAddress} {bs : List Bytes}
      (h : indexFanout < level.length)
      (rest : Builds (((chunks indexFanout level).map indexBlock).map address) root bs) :
      Builds level root ((chunks indexFanout level).map indexBlock ++ bs)

variable (address) in
theorem exists_builds (level : List BlockAddress) : ∃ root bs, Builds address level root bs ∧
    ∀ sink, buildIndexTree address level sink = (root, sink.puts address bs) := by
  induction hn : level.length using Nat.strongRecOn generalizing level with
  | ind n ih =>
    rcases Nat.lt_or_ge indexFanout level.length with hlong | hshort
    · have hlt := length_chunks_lt (by decide) hlong
      obtain ⟨root, bs, hbuilds, hbuild⟩ := ih _ (by rw [← hn]; simpa using hlt)
        (((chunks indexFanout level).map indexBlock).map address) rfl
      refine ⟨root, (chunks indexFanout level).map indexBlock ++ bs, .up hlong hbuilds, ?_⟩
      intro sink
      rw [buildIndexTree, if_neg (Nat.not_le.mpr hlong), writeBlocks_eq, hbuild, Sink.puts_append]
    · refine ⟨address (indexBlock level), [indexBlock level], .top hshort, ?_⟩
      intro sink
      rw [buildIndexTree, if_pos hshort]
      rfl

theorem Builds.size {level : List BlockAddress} {root : BlockAddress}
    (h : Builds address level root bs) :
    ∀ b ∈ bs, blockKind b = some tagIndex ∧ b.length ≤ sessionBlockBudget := by
  have hsize (children : List BlockAddress) (hlen : children.length ≤ indexFanout) :
      blockKind (indexBlock children) = some tagIndex
        ∧ (indexBlock children).length ≤ sessionBlockBudget := by
    refine ⟨blockKind_block _ _, ?_⟩
    rw [indexBlock, length_block, length_append, length_beBytes, length_addresses]
    simp only [indexFanout, sessionBlockBudget, headerLen] at hlen ⊢
    omega
  induction h with
  | top h =>
    intro b hb
    rw [mem_singleton.mp hb]
    exact hsize _ h
  | up h _ ih =>
    intro b hb
    rcases mem_append.mp hb with hb | hb
    · obtain ⟨c, hc, rfl⟩ := mem_map.mp hb
      exact hsize c (length_le_of_mem hc)
    · exact ih b hb

/-! ## The walk -/

/-- A walk that meets no block twice: the addresses still to expand, the leaves it finds and all
blocks it visits, both in order. -/
inductive Walk (read : BlockAddress → Option Bytes) :
    List BlockAddress → List BlockAddress → List BlockAddress → Prop where
  | done : Walk read [] [] []
  | leaf {a : BlockAddress} {b : Bytes} {stack leaves nodes : List BlockAddress}
      (hread : read a = some b) (hkind : blockKind b = some tagLeaf)
      (rest : Walk read stack leaves nodes) : Walk read (a :: stack) (a :: leaves) (a :: nodes)
  | index {a : BlockAddress} {b : Bytes} {children stack leaves nodes : List BlockAddress}
      (hread : read a = some b) (hkind : blockKind b = some tagIndex)
      (hchildren : indexChildren b = .ok children)
      (rest : Walk read (children ++ stack) leaves nodes) :
      Walk read (a :: stack) leaves (a :: nodes)

theorem indexChildren_of_leaf {b : Bytes} (h : blockKind b = some tagLeaf) :
    indexChildren b = .ok [] := by
  have hne : (some tagLeaf : Option UInt8) ≠ some tagIndex := by decide
  simp only [indexChildren, h]
  rw [if_pos hne]

namespace Walk

variable {read : BlockAddress → Option Bytes} {stack leaves nodes : List BlockAddress}

theorem stack_sublist (h : Walk read stack leaves nodes) : stack.Sublist nodes := by
  induction h with
  | done => exact .slnil
  | leaf _ _ _ ih => exact ih.cons_cons _
  | index _ _ _ _ ih => exact ((sublist_append_right _ _).trans ih).cons_cons _

/-- The children of a visited block are visited. -/
theorem closed (h : Walk read stack leaves nodes) {a c : BlockAddress} {b : Bytes}
    {children : List BlockAddress} (ha : a ∈ nodes) (hread : read a = some b)
    (hchildren : indexChildren b = .ok children) (hc : c ∈ children) : c ∈ nodes := by
  induction h with
  | done => cases ha
  | leaf hread' hkind rest ih =>
    rcases mem_cons.mp ha with rfl | ha
    · rw [hread] at hread'
      cases hread'
      rw [indexChildren_of_leaf hkind] at hchildren
      cases hchildren
      cases hc
    · exact mem_cons_of_mem _ (ih ha)
  | index hread' hkind hchildren' rest ih =>
    rcases mem_cons.mp ha with rfl | ha
    · rw [hread] at hread'
      cases hread'
      rw [hchildren] at hchildren'
      cases hchildren'
      exact mem_cons_of_mem _ (rest.stack_sublist.subset (mem_append_left _ hc))
    · exact mem_cons_of_mem _ (ih ha)

theorem append (h : Walk read stack leaves nodes) {stack' leaves' nodes' : List BlockAddress}
    (h' : Walk read stack' leaves' nodes') :
    Walk read (stack ++ stack') (leaves ++ leaves') (nodes ++ nodes') := by
  induction h with
  | done => exact h'
  | leaf hread hkind _ ih => exact .leaf hread hkind ih
  | index hread hkind hchildren _ ih =>
    rw [append_assoc] at ih
    exact .index hread hkind hchildren ih

theorem split (first second : List BlockAddress) (h : Walk read (first ++ second) leaves nodes) :
    ∃ l1 l2 n1 n2, Walk read first l1 n1 ∧ Walk read second l2 n2
      ∧ leaves = l1 ++ l2 ∧ nodes = n1 ++ n2 := by
  generalize hstack : first ++ second = stack at h
  induction h generalizing first with
  | done =>
    obtain ⟨rfl, rfl⟩ := append_eq_nil_iff.mp hstack
    exact ⟨[], [], [], [], .done, .done, rfl, rfl⟩
  | @leaf a b stack leaves nodes hread hkind rest ih =>
    cases first with
    | nil =>
      rw [nil_append] at hstack
      subst hstack
      exact ⟨[], _, [], _, .done, .leaf hread hkind rest, rfl, rfl⟩
    | cons a' first =>
      rw [cons_append] at hstack
      obtain ⟨rfl, htail⟩ := cons.inj hstack
      obtain ⟨l1, l2, n1, n2, h1, h2, rfl, rfl⟩ := ih first htail
      exact ⟨_, l2, _, n2, .leaf hread hkind h1, h2, rfl, rfl⟩
  | @index a b children stack leaves nodes hread hkind hchildren rest ih =>
    cases first with
    | nil =>
      rw [nil_append] at hstack
      subst hstack
      exact ⟨[], _, [], _, .done, .index hread hkind hchildren rest, rfl, rfl⟩
    | cons a' first =>
      rw [cons_append] at hstack
      obtain ⟨rfl, htail⟩ := cons.inj hstack
      obtain ⟨l1, l2, n1, n2, h1, h2, rfl, rfl⟩ := ih (children ++ first) (by
        rw [append_assoc, htail])
      exact ⟨l1, l2, _, n2, .index hread hkind hchildren h1, h2, rfl, rfl⟩

/-- One level up: index blocks over pieces of the stack. -/
theorem up (pieces : List (List BlockAddress)) (hshort : ∀ p ∈ pieces, p.length ≤ indexFanout)
    (hholds : Holds address read (pieces.map indexBlock))
    (h : Walk read pieces.flatten leaves nodes) :
    ∃ nodes', Walk read ((pieces.map indexBlock).map address) leaves nodes'
      ∧ nodes'.Perm ((pieces.map indexBlock).map address ++ nodes) := by
  induction pieces generalizing leaves nodes with
  | nil =>
    cases h
    exact ⟨[], .done, .refl _⟩
  | cons p pieces ih =>
    obtain ⟨l1, l2, n1, n2, h1, h2, rfl, rfl⟩ := split p pieces.flatten h
    obtain ⟨nodes', hwalk, hperm⟩ := ih (fun q hq => hshort q (mem_cons_of_mem p hq))
      (fun b hb => hholds b (mem_cons_of_mem _ hb)) h2
    have hchildren : indexChildren (indexBlock p) = .ok p :=
      indexChildren_indexBlock (Nat.lt_of_le_of_lt (hshort p mem_cons_self) (by decide))
    refine ⟨address (indexBlock p) :: (n1 ++ nodes'), .index (hholds _ mem_cons_self)
      (blockKind_block _ _) hchildren (h1.append hwalk), ?_⟩
    have hswap : (n1 ++ ((pieces.map indexBlock).map address ++ n2)).Perm
        ((pieces.map indexBlock).map address ++ (n1 ++ n2)) := by
      rw [← append_assoc, ← append_assoc]
      exact Perm.append_right n2 perm_append_comm
    exact Perm.cons _ ((Perm.append_left n1 hperm).trans hswap)

end Walk

/-- A level whose blocks nothing points to, over a walk that meets no block twice. -/
structure Grown (read : BlockAddress → Option Bytes) (level leaves nodes : List BlockAddress) :
    Prop where
  walk : Walk read level leaves nodes
  nodup : nodes.Nodup
  top : ∀ a ∈ nodes, ∀ b children, read a = some b → indexChildren b = .ok children →
    ∀ c ∈ children, c ∉ level

namespace Grown

variable {read : BlockAddress → Option Bytes} {level leaves nodes : List BlockAddress}

/-- Index blocks over pieces of the level are new, and nothing points to them yet. -/
theorem up (h : Grown read level leaves nodes) {pieces : List (List BlockAddress)}
    (hflat : pieces.flatten = level) (hne : ∀ p ∈ pieces, p ≠ [])
    (hshort : ∀ p ∈ pieces, p.length ≤ indexFanout)
    (hholds : Holds address read (pieces.map indexBlock)) :
    ∃ nodes', Grown read ((pieces.map indexBlock).map address) leaves nodes'
      ∧ nodes'.Perm ((pieces.map indexBlock).map address ++ nodes) := by
  subst hflat
  obtain ⟨nodes', hwalk, hperm⟩ := Walk.up pieces hshort hholds h.walk
  have hchildren (p : List BlockAddress) (hp : p ∈ pieces) : indexChildren (indexBlock p) = .ok p :=
    indexChildren_indexBlock (Nat.lt_of_le_of_lt (hshort p hp) (by decide))
  have hread (p : List BlockAddress) (hp : p ∈ pieces) :
      read (address (indexBlock p)) = some (indexBlock p) := hholds _ (mem_map_of_mem hp)
  have hmem {a : BlockAddress} (ha : a ∈ (pieces.map indexBlock).map address) :
      ∃ p ∈ pieces, a = address (indexBlock p) := by
    obtain ⟨b, hb, rfl⟩ := mem_map.mp ha
    obtain ⟨p, hp, rfl⟩ := mem_map.mp hb
    exact ⟨p, hp, rfl⟩
  -- an index block with these children would already point into the level
  have hnew : ∀ a ∈ (pieces.map indexBlock).map address, a ∉ nodes := by
    intro a ha hnode
    obtain ⟨p, hp, rfl⟩ := hmem ha
    obtain ⟨c, hc⟩ := exists_mem_of_ne_nil p (hne p hp)
    exact h.top _ hnode _ p (hread p hp) (hchildren p hp) c hc (mem_flatten_of_mem hp hc)
  have hdistinct : ((pieces.map indexBlock).map address).Nodup := by
    have hlevel : pieces.flatten.Nodup := h.nodup.sublist h.walk.stack_sublist
    have hdisjoint := (nodup_flatten.mp hlevel).2
    rw [map_map, Nodup, pairwise_map]
    refine hdisjoint.imp_of_mem ?_
    intro p q hp hq hpq heq
    have hblocks : indexBlock p = indexBlock q :=
      hholds.injective (mem_map_of_mem hp) (mem_map_of_mem hq) heq
    have hsame : p = q := by
      have hok := hchildren p hp
      rw [hblocks, hchildren q hq] at hok
      exact (Except.ok.inj hok).symm
    obtain ⟨c, hc⟩ := exists_mem_of_ne_nil p (hne p hp)
    exact hpq hc (hsame ▸ hc)
  refine ⟨nodes', ⟨hwalk, ?_, ?_⟩, hperm⟩
  · rw [hperm.nodup_iff, nodup_append']
    exact ⟨hdistinct, h.nodup, fun a ha hnode => hnew a ha hnode⟩
  · intro a ha b children hb hok c hc
    have hbelow : c ∈ nodes := by
      rcases mem_append.mp (hperm.mem_iff.mp ha) with ha | ha
      · obtain ⟨p, hp, rfl⟩ := hmem ha
        rw [hread p hp] at hb
        cases hb
        rw [hchildren p hp] at hok
        cases hok
        exact h.walk.stack_sublist.subset (mem_flatten_of_mem hp hc)
      · exact h.walk.closed ha hb hok hc
    exact fun hlevel => hnew c hlevel hbelow

end Grown

/-- The walk from the root meets every index block and everything below the level once. -/
theorem Builds.walk {read : BlockAddress → Option Bytes} {level leaves nodes : List BlockAddress}
    {root : BlockAddress} (hbuilds : Builds address level root bs)
    (hholds : Holds address read bs) (hgrown : Grown read level leaves nodes) :
    ∃ nodes', Walk read [root] leaves nodes' ∧ nodes'.Nodup
      ∧ nodes'.Perm (bs.map address ++ nodes) := by
  induction hbuilds generalizing nodes with
  | @top level hshort =>
    cases hlevel : level with
    | nil =>
      subst hlevel
      cases hgrown.walk
      have hempty : indexChildren (indexBlock []) = .ok [] := indexChildren_indexBlock (by decide)
      exact ⟨_, .index (hholds _ mem_cons_self) (blockKind_block _ _) hempty .done,
        nodup_singleton _, .refl _⟩
    | cons a rest =>
      have hflat : [level].flatten = level := flatten_singleton
      obtain ⟨nodes', h, hperm⟩ := hgrown.up hflat (by simp [hlevel]) (by simpa using hshort) hholds
      rw [← hlevel]
      exact ⟨nodes', h.walk, h.nodup, hperm⟩
  | up hlong _ ih =>
    obtain ⟨nodes1, h1, hperm1⟩ := hgrown.up (flatten_chunks (by decide) _)
      (fun p hp => ne_nil_of_mem hp) (fun p hp => length_le_of_mem hp)
      (fun b hb => hholds b (mem_append_left _ hb))
    obtain ⟨nodes2, hwalk, hnodup, hperm2⟩ := ih (fun b hb => hholds b (mem_append_right _ hb)) h1
    refine ⟨nodes2, hwalk, hnodup, hperm2.trans ?_⟩
    rw [map_append]
    refine (Perm.append_left _ hperm1).trans ?_
    rw [← append_assoc]
    exact Perm.append_right _ perm_append_comm

end

end Viewstamp.Blocks
