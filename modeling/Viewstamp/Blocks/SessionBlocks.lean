import Viewstamp.Blocks.Sync
import Viewstamp.Codec.Words
import Viewstamp.Lib.Chunks
import Viewstamp.State

/- The session table as a graph of blocks.

   Records are packed into leaves in the order of their clients; a reply that does not
   fit a leaf is cut into body chunks that its record names; index blocks are stacked
   over the leaves until one is left, the root. A block begins with a magic and a tag.

   The encoder writes into a store. A `Sink` is the store with a ghost, the blocks
   written so far. The decoder reads through the verified path and gives up (`none`) at
   the first block that is missing, corrupt or malformed. The few accesses the source
   makes without a check can panic, and are modelled so. -/
namespace Viewstamp.Blocks

open Chunks

/-- `BlockAddress`: sixteen bytes. -/
structure BlockAddress where
  bytes : Bytes
  length_eq : bytes.length = 16
  deriving DecidableEq

/-- What an unchecked access ends in. -/
inductive Panic where
  | slice
  | width
  deriving DecidableEq

/-! ## Blocks and their references -/

def sessionBlockBudget : Nat := 2 ^ 20

/-- The bytes `vSeS`. -/
def magic : Bytes := [0x76, 0x53, 0x65, 0x53]

def headerLen : Nat := 4 + 1

def tagLeaf : UInt8 := 0
def tagBody : UInt8 := 1
def tagIndex : UInt8 := 2

/-- Magic, tag and payload: the layout of every session block. -/
def block (tag : UInt8) (payload : Bytes) : Bytes := magic ++ tag :: payload

def blockKind (b : Bytes) : Option UInt8 := if b.take 4 = magic then b[4]? else none

/-- `&b[i..i + n]`. -/
def slice (b : Bytes) (i n : Nat) : Except Panic Bytes :=
  if i + n ≤ b.length then .ok ((b.drop i).take n) else .error .slice

/-- `BlockAddress::from_bytes` of a slice that has to have its width. -/
def BlockAddress.fromBytes (raw : Bytes) : Except Panic BlockAddress :=
  if h : raw.length = 16 then .ok ⟨raw, h⟩ else .error .width

/-- The loop of `index_children`: so many addresses from an offset on. -/
def childrenFrom (b : Bytes) (i : Nat) : Nat → Except Panic (List BlockAddress)
  | 0 => .ok []
  | count + 1 => do
    let raw ← slice b i 16
    let child ← BlockAddress.fromBytes raw
    let children ← childrenFrom b (i + 16) count
    .ok (child :: children)

def indexChildren (b : Bytes) : Except Panic (List BlockAddress) :=
  if blockKind b ≠ some tagIndex then .ok []
  else if b.length < headerLen + 4 then .ok []
  else
    let count := ofBeBytes ((b.drop headerLen).take 4)
    let remaining := b.length - (headerLen + 4)
    -- an untrusted count: the addresses must fit the bytes present
    if remaining < count * 16 then .ok [] else childrenFrom b (headerLen + 4) count

/-! ## The cursor -/

abbrev Decoder := StateT Bytes Option

namespace Decoder

def take (n : Nat) : Decoder Bytes := fun bs =>
  if n ≤ bs.length then some (bs.take n, bs.drop n) else none

def word (w : Nat) : Decoder Nat := do
  let raw ← take w
  pure (ofBeBytes raw)

def addr : Decoder BlockAddress := do
  let raw ← take 16
  if h : raw.length = 16 then pure ⟨raw, h⟩ else failure

end Decoder

open Decoder

/-- The addresses an external reply names; those read before a truncation stay collected. -/
def collectAddrs : Nat → Bytes → List BlockAddress × Option Bytes
  | 0, bs => ([], some bs)
  | count + 1, bs =>
    match addr bs with
    | none => ([], none)
    | some (a, rest) => (a :: (collectAddrs count rest).1, (collectAddrs count rest).2)

/-- The fixed fields of a record, up to the kind of its reply. -/
def skipToKind : Decoder Nat := do
  let _ ← word 16
  let _ ← word 8
  let _ ← word 8
  word 1

/-- `skip_record_collecting_body_refs`: the addresses it pushed and what is left, if it succeeds. -/
def skipRecord (bs : Bytes) : List BlockAddress × Option Bytes :=
  match skipToKind bs with
  | none => ([], none)
  | some (0, rest) => ([], some rest)
  | some (1, rest) =>
    let inline : Decoder Unit := do
      let _ ← word 8
      let len ← word 4
      let _ ← take len
      pure ()
    ([], (inline rest).map Prod.snd)
  | some (2, rest) =>
    let external : Decoder Nat := do
      let _ ← word 8
      word 4
    match external rest with
    | none => ([], none)
    | some (count, rest) => collectAddrs count rest
  | some (_, _) => ([], none)

/-! ## Encoding -/

section
variable (address : Bytes → BlockAddress)

/-- A store and, as a ghost, what was written into it. -/
structure Sink where
  store : BlockStore BlockAddress
  written : List Bytes

def Sink.put (sink : Sink) (b : Bytes) : Sink :=
  ⟨Blocks.put address sink.store b, sink.written ++ [b]⟩

def pushRecord (client : ClientId) (session : Session) (replyExternal : List BlockAddress) :
    Bytes :=
  beBytes 16 client ++ (beBytes 8 session.request ++ (beBytes 8 session.lastOp
    ++ match session.reply with
      | none => [0]
      | some (rn, body) =>
        if replyExternal = [] then
          1 :: (beBytes 8 rn ++ (beBytes 4 body.length ++ body))
        else
          2 :: (beBytes 8 rn ++ (beBytes 4 replyExternal.length
            ++ replyExternal.flatMap BlockAddress.bytes))))

def bodyChunkPayload : Nat := sessionBlockBudget - headerLen
def leafBudget : Nat := sessionBlockBudget - headerLen

/-- Write blocks one after the other and return their addresses in order. -/
def writeBlocks (sink : Sink) : List Bytes → List BlockAddress × Sink
  | [] => ([], sink)
  | b :: bs =>
    let (rest, sink) := writeBlocks (sink.put address b) bs
    (address b :: rest, sink)

def writeBodyChunks (body : Bytes) (sink : Sink) : List BlockAddress × Sink :=
  writeBlocks address sink ((chunks bodyChunkPayload body).map (block tagBody))

/-- The encoder's loop: the open leaf, the addresses of the closed ones, the store. -/
structure Packing where
  leaf : Bytes
  leaves : List BlockAddress
  sink : Sink

def Packing.flushLeaf (p : Packing) : Packing :=
  if p.leaf.length = 0 then p
  else
    let b := block tagLeaf p.leaf
    { leaf := [], leaves := p.leaves ++ [address b], sink := p.sink.put address b }

/-- The bytes of a record, with its reply written out of line if it would overflow a leaf. -/
def encodeRecord (client : ClientId) (session : Session) (sink : Sink) : Bytes × Sink :=
  let inline := pushRecord client session []
  if inline.length ≤ leafBudget then (inline, sink)
  else
    let body := (session.reply.map Prod.snd).getD []
    let (chunks, sink) := writeBodyChunks address body sink
    (pushRecord client session chunks, sink)

def Packing.pack (p : Packing) (client : ClientId) (session : Session) : Packing :=
  let (record, sink) := encodeRecord address client session p.sink
  let p := { p with sink }
  let p := if p.leaf.length ≠ 0 ∧ leafBudget < p.leaf.length + record.length then
    p.flushLeaf address else p
  { p with leaf := p.leaf ++ record }

def indexFanout : Nat := (sessionBlockBudget - headerLen - 4) / 16

def indexBlock (children : List BlockAddress) : Bytes :=
  block tagIndex (beBytes 4 children.length ++ children.flatMap BlockAddress.bytes)

theorem length_writeBlocks (sink : Sink) (bs : List Bytes) :
    (writeBlocks address sink bs).1.length = bs.length := by
  induction bs generalizing sink with
  | nil => rfl
  | cons b bs ih => exact congrArg Nat.succ (ih (sink.put address b))

/-- Index blocks are stacked over a level until one is left. -/
def buildIndexTree (level : List BlockAddress) (sink : Sink) : BlockAddress × Sink :=
  if level.length ≤ indexFanout then
    (address (indexBlock level), sink.put address (indexBlock level))
  else
    let next := writeBlocks address sink ((chunks indexFanout level).map indexBlock)
    buildIndexTree next.1 next.2
termination_by level.length
decreasing_by
  rename_i h
  rw [length_writeBlocks, List.length_map]
  exact length_chunks_lt (by decide) (Nat.not_le.mp h)

def Packing.packAll (p : Packing) (records : List (ClientId × Session)) : Packing :=
  records.foldl (fun p e => p.pack address e.1 e.2) p

def encodeSessions (sessions : OrdMap ClientId Session) (sink : Sink) : BlockAddress × Sink :=
  let start : Packing := ⟨[], [], sink⟩
  let packed := (start.packAll address sessions.entries).flushLeaf address
  buildIndexTree address packed.leaves packed.sink

/-! ## Decoding -/

/-- One chunk of an external reply, read through the verified path. -/
def chunkPayload (store : BlockStore BlockAddress) (a : BlockAddress) : Option Bytes :=
  match readVerifiedBlock address store a with
  | none => none
  | some chunk => if blockKind chunk = some tagBody then some (chunk.drop headerLen) else none

def readChunks (store : BlockStore BlockAddress) : Nat → Decoder Bytes
  | 0 => pure []
  | count + 1 => do
    let a ← addr
    let payload ← StateT.lift (chunkPayload address store a)
    let rest ← readChunks store count
    pure (payload ++ rest)

def readReply (store : BlockStore BlockAddress) : Nat → Decoder (Option (RequestNumber × Bytes))
  | 0 => pure none
  | 1 => do
    let rn ← word 8
    let len ← word 4
    let body ← take len
    pure (some (rn, body))
  | 2 => do
    let rn ← word 8
    let count ← word 4
    let body ← readChunks address store count
    pure (some (rn, body))
  | _ => failure

def decodeRecord (store : BlockStore BlockAddress) : Decoder (ClientId × Session) := do
  let client ← word 16
  let request ← word 8
  let lastOp ← word 8
  let kind ← word 1
  let reply ← readReply address store kind
  pure (client, { request, reply, lastOp })

end

/-! ### A cursor only moves forward -/

namespace Decoder

variable {α β : Type}

/-- No run leaves more bytes than it found. -/
def Shrinks (d : Decoder α) : Prop := ∀ bs a rest, d bs = some (a, rest) → rest.length ≤ bs.length

theorem bind_eq_some {d : Decoder α} {f : α → Decoder β} {bs rest : Bytes} {b : β} :
    (d >>= f) bs = some (b, rest) ↔ ∃ a mid, d bs = some (a, mid) ∧ f a mid = some (b, rest) := by
  show (d bs).bind (fun p => f p.1 p.2) = some (b, rest) ↔ _
  simp only [Option.bind_eq_some_iff, Prod.exists]

theorem take_eq_some {n : Nat} {bs b rest : Bytes} (h : take n bs = some (b, rest)) :
    b.length = n ∧ bs = b ++ rest := by
  simp only [take] at h
  split at h
  · rename_i hle
    cases h
    exact ⟨List.length_take_of_le hle, (List.take_append_drop n bs).symm⟩
  · cases h

theorem shrinks_pure (a : α) : Shrinks (pure a : Decoder α) := by
  intro bs b rest h
  cases h
  exact Nat.le_refl _

theorem shrinks_failure : Shrinks (failure : Decoder α) := nofun

theorem shrinks_lift (x : Option α) : Shrinks (StateT.lift x : Decoder α) := by
  intro bs b rest h
  obtain ⟨a, -, h⟩ := Option.bind_eq_some_iff.mp h
  cases h
  exact Nat.le_refl _

theorem Shrinks.bind {d : Decoder α} {f : α → Decoder β} (hd : Shrinks d)
    (hf : ∀ a, Shrinks (f a)) :
    Shrinks (d >>= f) := by
  intro bs b rest h
  obtain ⟨a, mid, ha, hb⟩ := bind_eq_some.mp h
  exact Nat.le_trans (hf a mid b rest hb) (hd bs a mid ha)

theorem shrinks_take (n : Nat) : Shrinks (take n) := by
  intro bs b rest h
  obtain ⟨-, rfl⟩ := take_eq_some h
  rw [List.length_append]
  omega

theorem shrinks_word (w : Nat) : Shrinks (word w) :=
  (shrinks_take w).bind fun raw => shrinks_pure (ofBeBytes raw)

theorem shrinks_addr : Shrinks addr := by
  refine (shrinks_take 16).bind fun raw => ?_
  split
  · exact shrinks_pure _
  · exact shrinks_failure

/-- A word that was read is gone. -/
theorem word_lt {w n : Nat} {bs rest : Bytes} (hw : 0 < w) (h : word w bs = some (n, rest)) :
    rest.length < bs.length := by
  obtain ⟨raw, mid, hraw, h⟩ := bind_eq_some.mp h
  cases h
  obtain ⟨hlen, rfl⟩ := take_eq_some hraw
  rw [List.length_append]
  omega

end Decoder

section
variable (address : Bytes → BlockAddress) (store : BlockStore BlockAddress)
variable {bs rest : Bytes}

theorem shrinks_readChunks (count : Nat) : Shrinks (readChunks address store count) := by
  induction count with
  | zero => exact shrinks_pure _
  | succ count ih =>
    exact shrinks_addr.bind fun a => (shrinks_lift _).bind fun payload =>
      ih.bind fun rest => shrinks_pure _

theorem shrinks_readReply (kind : Nat) : Shrinks (readReply address store kind) := by
  match kind with
  | 0 => exact shrinks_pure _
  | 1 => exact (shrinks_word 8).bind fun rn => (shrinks_word 4).bind fun len =>
      (shrinks_take len).bind fun body => shrinks_pure _
  | 2 => exact (shrinks_word 8).bind fun rn => (shrinks_word 4).bind fun count =>
      (shrinks_readChunks address store count).bind fun body => shrinks_pure _
  | n + 3 => exact shrinks_failure

theorem decodeRecord_lt {e : ClientId × Session}
    (h : decodeRecord address store bs = some (e, rest)) : rest.length < bs.length := by
  obtain ⟨client, mid, hclient, h⟩ := bind_eq_some.mp h
  have hrest : rest.length ≤ mid.length := by
    refine (shrinks_word 8).bind (fun request => (shrinks_word 8).bind fun lastOp =>
      (shrinks_word 1).bind fun kind => (shrinks_readReply address store kind).bind fun reply =>
        shrinks_pure _) mid e rest h
  exact Nat.lt_of_le_of_lt hrest (word_lt (by decide) hclient)

theorem collectAddrs_le {count : Nat} (h : (collectAddrs count bs).2 = some rest) :
    rest.length ≤ bs.length := by
  induction count generalizing bs with
  | zero =>
    cases h
    exact Nat.le_refl _
  | succ count ih =>
    simp only [collectAddrs] at h
    split at h
    · cases h
    · rename_i a mid ha
      exact Nat.le_trans (ih h) (shrinks_addr bs a mid ha)

theorem skipRecord_lt (h : (skipRecord bs).2 = some rest) : rest.length < bs.length := by
  have hhead (kind : Nat) (mid : Bytes) (h : skipToKind bs = some (kind, mid)) :
      mid.length < bs.length := by
    obtain ⟨client, next, hclient, h⟩ := bind_eq_some.mp h
    have hle := (shrinks_word 8).bind (fun _ => (shrinks_word 8).bind fun _ => shrinks_word 1)
      next kind mid h
    exact Nat.lt_of_le_of_lt hle (word_lt (by decide) hclient)
  simp only [skipRecord] at h
  split at h
  · cases h
  · rename_i mid hmid
    cases h
    exact hhead 0 _ hmid
  · rename_i mid hmid
    obtain ⟨⟨u, tail⟩, hinline, h⟩ := Option.map_eq_some_iff.mp h
    cases h
    have hle := (shrinks_word 8).bind (fun _ => (shrinks_word 4).bind fun len =>
      (shrinks_take len).bind fun _ => shrinks_pure ()) mid u tail hinline
    exact Nat.lt_of_le_of_lt hle (hhead 1 mid hmid)
  · rename_i mid hmid
    split at h
    · cases h
    · rename_i count tail hcount
      have hle := (shrinks_word 8).bind (fun _ => shrinks_word 4) mid count tail hcount
      exact Nat.lt_of_le_of_lt (Nat.le_trans (collectAddrs_le h) hle) (hhead 2 mid hmid)
  · cases h

/-- The loop of `leaf_body_refs`, which stops at a malformed record. -/
def leafBodyRefsFrom (bs : Bytes) : List BlockAddress :=
  if bs = [] then []
  else match _h : (skipRecord bs).2 with
    | none => (skipRecord bs).1
    | some rest => (skipRecord bs).1 ++ leafBodyRefsFrom rest
termination_by bs.length
decreasing_by exact skipRecord_lt _h

def leafBodyRefs (b : Bytes) : Except Panic (List BlockAddress) :=
  if blockKind b ≠ some tagLeaf then .ok []
  else if b.length < headerLen then .error .slice
  else .ok (leafBodyRefsFrom (b.drop headerLen))

def sessionBlockReferences (b : Bytes) : Except Panic (List BlockAddress) :=
  if blockKind b = some tagIndex then indexChildren b
  else if blockKind b = some tagLeaf then leafBodyRefs b
  else .ok []

/-- The records of one leaf, entered into the table read so far. -/
def decodeRecords (bs : Bytes) (sessions : OrdMap ClientId Session) :
    Option (OrdMap ClientId Session) :=
  if bs = [] then some sessions
  else match _h : decodeRecord address store bs with
    | none => none
    | some (e, rest) => decodeRecords rest (sessions.insert e.1 e.2)
termination_by bs.length
decreasing_by exact decodeRecord_lt address store _h

/-- The walk of `ordered_leaves`: the addresses seen, those to expand, the leaves found. -/
def orderedLeavesFrom (visited : Finset BlockAddress) (stack out : List BlockAddress) :
    Except Panic (Option (List BlockAddress)) :=
  match stack with
  | [] => .ok (some out)
  | a :: stack =>
    if a ∈ visited then orderedLeavesFrom visited stack out
    else if maxReachableBlocks < (insert a visited).card then .ok none
    else match readVerifiedBlock address store a with
      | none => .ok none
      | some b =>
        if blockKind b = some tagIndex then
          match indexChildren b with
          | .error p => .error p
          | .ok children => orderedLeavesFrom (insert a visited) (children ++ stack) out
        else if blockKind b = some tagLeaf then
          orderedLeavesFrom (insert a visited) stack (out ++ [a])
        else .ok none
termination_by (maxReachableBlocks - visited.card, stack.length)
decreasing_by
  · exact .right _ (Nat.lt_succ_self _)
  all_goals
    have hcard := Finset.card_insert_of_notMem ‹a ∉ visited›
    exact .left _ _ (by omega)

def decodeLeaves : List BlockAddress → OrdMap ClientId Session → Option (OrdMap ClientId Session)
  | [], sessions => some sessions
  | a :: leaves, sessions =>
    match readVerifiedBlock address store a with
    | none => none
    | some b =>
      if blockKind b ≠ some tagLeaf then none
      else match decodeRecords address store (b.drop headerLen) sessions with
        | none => none
        | some sessions => decodeLeaves leaves sessions

def decodeSessions (root : BlockAddress) : Except Panic (Option (OrdMap ClientId Session)) :=
  match orderedLeavesFrom address store ∅ [root] [] with
  | .error p => .error p
  | .ok none => .ok none
  | .ok (some leaves) => .ok (decodeLeaves address store leaves .empty)

end

end Viewstamp.Blocks
