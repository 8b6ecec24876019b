import Viewstamp.Blocks.SessionBlocks

/- Session records and the blocks that hold them: what is written is read back, and no
   block outgrows the budget. -/
namespace Viewstamp.Blocks

open List

open Chunks Decoder

/-! ## Blocks -/

@[simp] theorem blockKind_block (tag : UInt8) (payload : Bytes) :
    blockKind (block tag payload) = some tag := by
  simp [blockKind, block, magic]

@[simp] theorem drop_block (tag : UInt8) (payload : Bytes) :
    (block tag payload).drop headerLen = payload := by
  simp [block, magic, headerLen]

@[simp] theorem length_block (tag : UInt8) (payload : Bytes) :
    (block tag payload).length = headerLen + payload.length := by
  simp [block, magic, headerLen]
  omega

theorem block_injective {tag : UInt8} {p q : Bytes} (h : block tag p = block tag q) : p = q := by
  simpa [block] using h

theorem length_addresses (as : List BlockAddress) :
    (as.flatMap BlockAddress.bytes).length = as.length * 16 := by
  induction as with
  | nil => rfl
  | cons a as ih =>
    rw [flatMap_cons, length_append, a.length_eq, ih, length_cons]
    omega

@[simp] theorem BlockAddress.fromBytes_bytes (a : BlockAddress) :
    BlockAddress.fromBytes a.bytes = .ok a := by
  rw [BlockAddress.fromBytes, dif_pos a.length_eq]

/-- The addresses are where the loop looks for them. -/
theorem childrenFrom_append (as : List BlockAddress) (before after : Bytes) :
    childrenFrom (before ++ (as.flatMap BlockAddress.bytes ++ after)) before.length as.length
      = .ok as := by
  induction as generalizing before with
  | nil => rfl
  | cons a as ih =>
    have hslice : slice (before ++ (a.bytes ++ (as.flatMap BlockAddress.bytes ++ after)))
        before.length 16 = .ok a.bytes := by
      rw [slice, if_pos (by simp only [length_append, a.length_eq]; omega),
        drop_left, take_left' a.length_eq]
    have hnext := ih (before ++ a.bytes)
    rw [append_assoc, length_append, a.length_eq] at hnext
    simp only [flatMap_cons, append_assoc, length_cons, childrenFrom, hslice, hnext,
      bind, Except.bind, BlockAddress.fromBytes_bytes]

theorem indexChildren_indexBlock {children : List BlockAddress} (h : children.length < 2 ^ 32) :
    indexChildren (indexBlock children) = .ok children := by
  have hlen : (indexBlock children).length = headerLen + 4 + children.length * 16 := by
    rw [indexBlock, length_block, length_append, length_beBytes, length_addresses]
    omega
  have hcount : ofBeBytes (((indexBlock children).drop headerLen).take 4) = children.length := by
    rw [indexBlock, drop_block, take_left' (length_beBytes 4 _)]
    exact ofBeBytes_beBytes (lt_of_lt_of_eq h (by norm_num))
  have hfrom := childrenFrom_append children (magic ++ tagIndex :: beBytes 4 children.length) []
  have hkind : blockKind (indexBlock children) = some tagIndex := blockKind_block _ _
  simp only [indexChildren, hkind, hlen, hcount, ne_eq, not_true_eq_false, if_false]
  rw [if_neg (by omega), if_neg (by omega)]
  simpa [indexBlock, block, magic, headerLen] using hfrom

/-- The loop stays inside the block. -/
theorem childrenFrom_ok {b : Bytes} {i count : Nat} (h : i + count * 16 ≤ b.length) :
    ∃ children, childrenFrom b i count = .ok children := by
  induction count generalizing i with
  | zero => exact ⟨[], rfl⟩
  | succ count ih =>
    obtain ⟨children, hchildren⟩ := ih (i := i + 16) (by omega)
    have hwidth : ((b.drop i).take 16).length = 16 := by
      rw [length_take, length_drop]
      omega
    refine ⟨⟨(b.drop i).take 16, hwidth⟩ :: children, ?_⟩
    simp only [childrenFrom, slice, BlockAddress.fromBytes, hchildren]
    rw [if_pos (by omega)]
    simp only [bind, Except.bind, hwidth, dite_true]

theorem indexChildren_ok (b : Bytes) : ∃ children, indexChildren b = .ok children := by
  simp only [indexChildren]
  split
  · exact ⟨[], rfl⟩
  split
  · exact ⟨[], rfl⟩
  split
  · exact ⟨[], rfl⟩
  · exact childrenFrom_ok (by omega)

/-- A decode of whatever the store holds ends, and not in a panic. -/
theorem decodeSessions_ok (address : Bytes → BlockAddress) (store : BlockStore BlockAddress)
    (root : BlockAddress) : ∃ sessions, decodeSessions address store root = .ok sessions := by
  have hwalk : ∀ visited stack out, ∃ leaves,
      orderedLeavesFrom address store visited stack out = .ok leaves := by
    intro visited stack out
    fun_induction orderedLeavesFrom address store visited stack out with
    | case5 _ _ _ _ _ _ b _ _ p hp =>
      obtain ⟨children, hok⟩ := indexChildren_ok b
      rw [hp] at hok
      cases hok
    | case2 | case6 | case7 => assumption
    | _ => exact ⟨_, rfl⟩
  obtain ⟨leaves, hleaves⟩ := hwalk ∅ [root] []
  simp only [decodeSessions, hleaves]
  cases leaves with
  | none => exact ⟨none, rfl⟩
  | some leaves => exact ⟨_, rfl⟩

/-! ## The cursor reads back -/

namespace Decoder

variable {α β : Type}

theorem bind_of_some {d : Decoder α} {f : α → Decoder β} {bs mid : Bytes} {a : α}
    (h : d bs = some (a, mid)) : (d >>= f) bs = f a mid := by
  show (d bs).bind (fun p => f p.1 p.2) = _
  rw [h, Option.bind_some]

theorem take_append {n : Nat} {b : Bytes} (h : b.length = n) (rest : Bytes) :
    take n (b ++ rest) = some (b, rest) := by
  rw [take, if_pos (by rw [length_append]; omega), take_left' h, drop_left' h]

theorem word_append {w n : Nat} (h : n < 256 ^ w) (rest : Bytes) :
    word w (beBytes w n ++ rest) = some (n, rest) := by
  rw [word, bind_of_some (take_append (length_beBytes w n) rest), ofBeBytes_beBytes h]
  rfl

theorem word_byte (kind : UInt8) (rest : Bytes) :
    word 1 (kind :: rest) = some (kind.toNat, rest) := by
  have htake : take 1 (kind :: rest) = some ([kind], rest) := take_append (b := [kind]) rfl rest
  rw [word, bind_of_some htake]
  show some (ofBeBytes [kind], rest) = some (kind.toNat, rest)
  simp [ofBeBytes]

theorem addr_append (a : BlockAddress) (rest : Bytes) :
    addr (a.bytes ++ rest) = some (a, rest) := by
  rw [addr, bind_of_some (take_append a.length_eq rest), dif_pos a.length_eq]
  rfl

end Decoder

/-! ## Records -/

/-- The fields are as wide as the source's types, and the reply has a length that fits its field. -/
structure RecordFits (e : ClientId × Session) : Prop where
  client : e.1 < 2 ^ 128
  request : e.2.request < 2 ^ 64
  lastOp : e.2.lastOp < 2 ^ 64
  reply : ∀ rn body, e.2.reply = some (rn, body) → rn < 2 ^ 64 ∧ body.length < 2 ^ 32

/-- The body chunks of a record's reply, none when it is kept in line. -/
def externalBlocks (e : ClientId × Session) : List Bytes :=
  if (pushRecord e.1 e.2 []).length ≤ leafBudget then []
  else (chunks bodyChunkPayload ((e.2.reply.map Prod.snd).getD [])).map (block tagBody)

section
variable (address : Bytes → BlockAddress)
variable {e : ClientId × Session} {store : BlockStore BlockAddress}

def record (e : ClientId × Session) : Bytes :=
  pushRecord e.1 e.2 ((externalBlocks e).map address)

def Sink.puts (sink : Sink) (bs : List Bytes) : Sink :=
  bs.foldl (fun sink b => sink.put address b) sink

theorem writeBlocks_eq (sink : Sink) (bs : List Bytes) :
    writeBlocks address sink bs = (bs.map address, sink.puts address bs) := by
  induction bs generalizing sink with
  | nil => rfl
  | cons b bs ih =>
    simp only [writeBlocks, ih]
    rfl

theorem encodeRecord_eq (client : ClientId) (session : Session) (sink : Sink) :
    encodeRecord address client session sink
      = (record address (client, session),
        sink.puts address (externalBlocks (client, session))) := by
  simp only [encodeRecord, record, externalBlocks, writeBodyChunks, writeBlocks_eq]
  split <;> rfl

/-- The fixed part of a record, and the three forms its reply can have. -/
theorem record_cases (e : ClientId × Session) :
    (e.2.reply = none ∧ externalBlocks e = []
      ∧ record address e =
        beBytes 16 e.1 ++ (beBytes 8 e.2.request ++ (beBytes 8 e.2.lastOp ++ [0])))
    ∨ (∃ rn body, e.2.reply = some (rn, body) ∧ externalBlocks e = []
      ∧ record address e = beBytes 16 e.1 ++ (beBytes 8 e.2.request ++ (beBytes 8 e.2.lastOp
        ++ 1 :: (beBytes 8 rn ++ (beBytes 4 body.length ++ body))))
      ∧ (record address e).length ≤ leafBudget)
    ∨ (∃ rn body, e.2.reply = some (rn, body) ∧ externalBlocks e ≠ []
      ∧ externalBlocks e = (chunks bodyChunkPayload body).map (block tagBody)
      ∧ record address e = beBytes 16 e.1 ++ (beBytes 8 e.2.request ++ (beBytes 8 e.2.lastOp
        ++ 2 :: (beBytes 8 rn ++ (beBytes 4 (externalBlocks e).length
          ++ ((externalBlocks e).map address).flatMap BlockAddress.bytes))))) := by
  cases hreply : e.2.reply with
  | none =>
    left
    have hnone : externalBlocks e = [] := by
      rw [externalBlocks, if_pos]
      simp [pushRecord, hreply, leafBudget, sessionBlockBudget, headerLen]
    refine ⟨rfl, hnone, ?_⟩
    simp only [record, pushRecord, hreply]
  | some r =>
    obtain ⟨rn, body⟩ := r
    right
    rcases Nat.lt_or_ge leafBudget (pushRecord e.1 e.2 []).length with hlong | hshort
    · right
      have hext : externalBlocks e = (chunks bodyChunkPayload body).map (block tagBody) := by
        rw [externalBlocks, if_neg (Nat.not_le.mpr hlong), hreply]
        rfl
      have hbody : body ≠ [] := by
        rintro rfl
        simp [pushRecord, hreply, leafBudget, sessionBlockBudget, headerLen] at hlong
      have hne : externalBlocks e ≠ [] := by
        rw [hext]
        simpa using chunks_ne_nil (by decide) hbody
      refine ⟨rn, body, rfl, hne, hext, ?_⟩
      simp only [record, pushRecord, hreply, map_eq_nil_iff, hne, if_false, length_map]
    · left
      have hext : externalBlocks e = [] := by
        rw [externalBlocks, if_pos hshort]
      have hrec : record address e = pushRecord e.1 e.2 [] := by
        rw [record, hext, map_nil]
      refine ⟨rn, body, rfl, hext, ?_, hrec ▸ hshort⟩
      simp only [hrec, pushRecord, hreply, if_true]

/-- Every record opens with its client. -/
theorem record_client (e : ClientId × Session) :
    ∃ tail, record address e = beBytes 16 e.1 ++ tail := by
  rcases record_cases address e with ⟨-, -, h⟩ | ⟨_, _, -, -, h, -⟩ | ⟨_, _, -, -, -, h⟩
  all_goals exact ⟨_, h⟩

theorem record_length_pos (e : ClientId × Session) : 0 < (record address e).length := by
  obtain ⟨tail, htail⟩ := record_client address e
  rw [htail, length_append, length_beBytes]
  omega

/-- A record fits a leaf: the addresses of the chunks of the longest reply do. -/
theorem record_length_le (fits : RecordFits e) : (record address e).length ≤ leafBudget := by
  rcases record_cases address e with ⟨-, -, h⟩ | ⟨_, _, -, -, -, h⟩
    | ⟨rn, body, hreply, -, hext, h⟩
  · rw [h]
    simp [leafBudget, sessionBlockBudget, headerLen]
  · exact h
  · have hbody := (fits.reply rn body hreply).2
    have hmul := length_chunks_mul bodyChunkPayload body
    have hlen : (externalBlocks e).length = (chunks bodyChunkPayload body).length := by
      rw [hext, length_map]
    rw [h]
    simp only [length_append, length_beBytes, length_cons, length_addresses,
      length_map, hlen]
    simp only [leafBudget, bodyChunkPayload, sessionBlockBudget, headerLen] at hmul ⊢
    omega

theorem externalBlocks_length (fits : RecordFits e) : (externalBlocks e).length < 2 ^ 32 := by
  simp only [externalBlocks]
  split
  · decide
  · have hbody : ((e.2.reply.map Prod.snd).getD []).length < 2 ^ 32 := by
      cases hreply : e.2.reply with
      | none => decide
      | some r => exact (fits.reply r.1 r.2 hreply).2
    have hmul := length_chunks_mul bodyChunkPayload ((e.2.reply.map Prod.snd).getD [])
    rw [length_map]
    simp only [bodyChunkPayload, sessionBlockBudget, headerLen] at hmul ⊢
    omega

theorem externalBlocks_size {b : Bytes} (h : b ∈ externalBlocks e) :
    blockKind b = some tagBody ∧ b.length ≤ sessionBlockBudget := by
  simp only [externalBlocks] at h
  split at h
  · cases h
  · obtain ⟨c, hc, rfl⟩ := mem_map.mp h
    have hlen := length_le_of_mem hc
    refine ⟨blockKind_block _ _, ?_⟩
    rw [length_block]
    simp only [bodyChunkPayload, sessionBlockBudget, headerLen] at hlen ⊢
    omega

variable {address} in
theorem chunkPayload_of_read {a : BlockAddress} {payload : Bytes}
    (h : readVerifiedBlock address store a = some (block tagBody payload)) :
    chunkPayload address store a = some payload := by
  simp only [chunkPayload, h, blockKind_block, if_true, drop_block]

theorem readChunks_append (cs : List Bytes)
    (hread : ∀ c ∈ cs, readVerifiedBlock address store (address (block tagBody c))
      = some (block tagBody c)) (rest : Bytes) :
    readChunks address store cs.length
      (((cs.map (block tagBody)).map address).flatMap BlockAddress.bytes ++ rest)
      = some (cs.flatten, rest) := by
  induction cs with
  | nil => rfl
  | cons c cs ih =>
    have hc := chunkPayload_of_read (hread c mem_cons_self)
    have hrest := ih fun c' hc' => hread c' (mem_cons_of_mem c hc')
    simp only [map_cons, flatMap_cons, append_assoc, length_cons, readChunks]
    rw [bind_of_some (addr_append _ _), bind_of_some (a := c) (by rw [hc]; rfl), bind_of_some hrest]
    rfl

theorem decodeRecord_append (fits : RecordFits e)
    (hread : ∀ b ∈ externalBlocks e, readVerifiedBlock address store (address b) = some b)
    (rest : Bytes) : decodeRecord address store (record address e ++ rest) = some (e, rest) := by
  have hclient : e.1 < 256 ^ 16 := lt_of_lt_of_eq fits.client (by norm_num)
  have hrequest : e.2.request < 256 ^ 8 := lt_of_lt_of_eq fits.request (by norm_num)
  have hlastOp : e.2.lastOp < 256 ^ 8 := lt_of_lt_of_eq fits.lastOp (by norm_num)
  rcases record_cases address e with ⟨hreply, -, h⟩ | ⟨rn, body, hreply, -, h, -⟩
    | ⟨rn, body, hreply, -, hext, h⟩
  · rw [h]
    simp only [append_assoc, cons_append, nil_append]
    rw [decodeRecord, bind_of_some (word_append hclient _), bind_of_some (word_append hrequest _),
      bind_of_some (word_append hlastOp _), bind_of_some (word_byte 0 _)]
    show some ((e.1, ({ request := _, reply := none, lastOp := _ } : Session)), rest) = _
    rw [← hreply]
  · obtain ⟨hrn, hlen⟩ := fits.reply rn body hreply
    have hrn : rn < 256 ^ 8 := lt_of_lt_of_eq hrn (by norm_num)
    have hlen : body.length < 256 ^ 4 := lt_of_lt_of_eq hlen (by norm_num)
    rw [h]
    simp only [append_assoc, cons_append]
    rw [decodeRecord, bind_of_some (word_append hclient _), bind_of_some (word_append hrequest _),
      bind_of_some (word_append hlastOp _), bind_of_some (word_byte 1 _)]
    have hbody : readReply address store (1 : UInt8).toNat
        (beBytes 8 rn ++ (beBytes 4 body.length ++ (body ++ rest))) =
          some (some (rn, body), rest) := by
      show readReply address store 1 _ = _
      rw [readReply, bind_of_some (word_append hrn _), bind_of_some (word_append hlen _),
        bind_of_some (take_append rfl rest)]
      rfl
    rw [bind_of_some hbody, ← hreply]
    rfl
  · obtain ⟨hrn, hlen⟩ := fits.reply rn body hreply
    have hrn : rn < 256 ^ 8 := lt_of_lt_of_eq hrn (by norm_num)
    have hcount : (externalBlocks e).length < 256 ^ 4 :=
      lt_of_lt_of_eq (externalBlocks_length fits) (by norm_num)
    rw [h]
    simp only [append_assoc, cons_append]
    rw [decodeRecord, bind_of_some (word_append hclient _), bind_of_some (word_append hrequest _),
      bind_of_some (word_append hlastOp _), bind_of_some (word_byte 2 _)]
    have hchunks := readChunks_append address (chunks bodyChunkPayload body)
      (fun c hc => hread _ (by rw [hext]; exact mem_map_of_mem hc)) rest
    rw [flatten_chunks (by decide), ← hext] at hchunks
    have hbody : readReply address store (2 : UInt8).toNat
        (beBytes 8 rn ++ (beBytes 4 (externalBlocks e).length
          ++ (((externalBlocks e).map address).flatMap BlockAddress.bytes ++ rest)))
        = some (some (rn, body), rest) := by
      show readReply address store 2 _ = _
      rw [readReply, bind_of_some (word_append hrn _), bind_of_some (word_append hcount _)]
      have hlength : (externalBlocks e).length = (chunks bodyChunkPayload body).length := by
        rw [hext, length_map]
      rw [hlength, bind_of_some hchunks]
      rfl
    rw [bind_of_some hbody, ← hreply]
    rfl

theorem collectAddrs_append (as : List BlockAddress) (rest : Bytes) :
    collectAddrs as.length (as.flatMap BlockAddress.bytes ++ rest) = (as, some rest) := by
  induction as with
  | nil => rfl
  | cons a as ih =>
    simp only [flatMap_cons, append_assoc, length_cons, collectAddrs, addr_append, ih]

theorem skipRecord_append (fits : RecordFits e) (rest : Bytes) :
    skipRecord (record address e ++ rest) = ((externalBlocks e).map address, some rest) := by
  have hclient : e.1 < 256 ^ 16 := lt_of_lt_of_eq fits.client (by norm_num)
  have hrequest : e.2.request < 256 ^ 8 := lt_of_lt_of_eq fits.request (by norm_num)
  have hlastOp : e.2.lastOp < 256 ^ 8 := lt_of_lt_of_eq fits.lastOp (by norm_num)
  have hhead (kind : UInt8) (tail : Bytes) : skipToKind (beBytes 16 e.1 ++ (beBytes 8 e.2.request
      ++ (beBytes 8 e.2.lastOp ++ kind :: tail))) = some (kind.toNat, tail) := by
    rw [skipToKind, bind_of_some (word_append hclient _), bind_of_some (word_append hrequest _),
      bind_of_some (word_append hlastOp _), word_byte]
  rcases record_cases address e with ⟨hreply, hext, h⟩ | ⟨rn, body, hreply, hext, h, -⟩
    | ⟨rn, body, hreply, -, -, h⟩
  · rw [h, hext]
    simp only [append_assoc, cons_append, nil_append, skipRecord, hhead]
    rfl
  · obtain ⟨hrn, hlen⟩ := fits.reply rn body hreply
    have hrn : rn < 256 ^ 8 := lt_of_lt_of_eq hrn (by norm_num)
    have hlen : body.length < 256 ^ 4 := lt_of_lt_of_eq hlen (by norm_num)
    rw [h, hext]
    simp only [append_assoc, cons_append, skipRecord, hhead]
    show (([] : List BlockAddress), Option.map Prod.snd ((do
      let _ ← word 8
      let len ← word 4
      let _ ← take len
      pure () : Decoder Unit) _)) = _
    rw [bind_of_some (word_append hrn _), bind_of_some (word_append hlen _),
      bind_of_some (take_append rfl rest)]
    rfl
  · obtain ⟨hrn, -⟩ := fits.reply rn body hreply
    have hrn : rn < 256 ^ 8 := lt_of_lt_of_eq hrn (by norm_num)
    have hcount : (externalBlocks e).length < 256 ^ 4 :=
      lt_of_lt_of_eq (externalBlocks_length fits) (by norm_num)
    have hnext : (word 8 >>= fun _ => word 4 : Decoder Nat) (beBytes 8 rn
        ++ (beBytes 4 (externalBlocks e).length
          ++ (((externalBlocks e).map address).flatMap BlockAddress.bytes ++ rest)))
        = some ((externalBlocks e).length,
          ((externalBlocks e).map address).flatMap BlockAddress.bytes ++ rest) := by
      rw [bind_of_some (word_append hrn _), word_append hcount]
    have hcollect := collectAddrs_append ((externalBlocks e).map address) rest
    rw [length_map] at hcollect
    have htwo : (2 : UInt8).toNat = 2 := rfl
    rw [h]
    simp only [append_assoc, cons_append, skipRecord, hhead, htwo, hnext, hcollect]

/-! ## Leaves -/

/-- The payload of a leaf over these records. -/
def leafPayload (es : List (ClientId × Session)) : Bytes := es.flatMap (record address)

theorem leafPayload_cons_ne_nil (e : ClientId × Session) (es : List (ClientId × Session)) :
    leafPayload address (e :: es) ≠ [] := by
  have hpos := record_length_pos address e
  intro hnil
  have hlen := congrArg length hnil
  rw [leafPayload, flatMap_cons, length_append, length_nil] at hlen
  omega

theorem decodeRecords_leafPayload (es : List (ClientId × Session))
    (fits : ∀ e ∈ es, RecordFits e) (hread : ∀ e ∈ es, ∀ b ∈ externalBlocks e,
      readVerifiedBlock address store (address b) = some b) (sessions : OrdMap ClientId Session) :
    decodeRecords address store (leafPayload address es) sessions
      = some (es.foldl (fun m e => m.insert e.1 e.2) sessions) := by
  induction es generalizing sessions with
  | nil =>
    rw [leafPayload, flatMap_nil, decodeRecords, if_pos rfl]
    rfl
  | cons e es ih =>
    have hfirst := decodeRecord_append address (fits e mem_cons_self)
      (hread e mem_cons_self) (leafPayload address es)
    have hrest := ih (fun e' h => fits e' (mem_cons_of_mem e h))
      (fun e' h => hread e' (mem_cons_of_mem e h)) (sessions.insert e.1 e.2)
    have hcons : leafPayload address (e :: es) = record address e ++ leafPayload address es := rfl
    rw [decodeRecords, if_neg (leafPayload_cons_ne_nil address e es), hcons]
    split
    · rename_i hnone
      rw [hfirst] at hnone
      cases hnone
    · rename_i e' rest hsome
      rw [hfirst] at hsome
      cases hsome
      exact hrest

theorem leafBodyRefsFrom_leafPayload (es : List (ClientId × Session))
    (fits : ∀ e ∈ es, RecordFits e) :
    leafBodyRefsFrom (leafPayload address es)
      = es.flatMap fun e => (externalBlocks e).map address := by
  induction es with
  | nil =>
    rw [leafPayload, flatMap_nil, leafBodyRefsFrom, if_pos rfl]
    rfl
  | cons e es ih =>
    have hfirst := skipRecord_append address (fits e mem_cons_self) (leafPayload address es)
    have hrest := ih fun e' h => fits e' (mem_cons_of_mem e h)
    have hcons : leafPayload address (e :: es) = record address e ++ leafPayload address es := rfl
    rw [leafBodyRefsFrom, if_neg (leafPayload_cons_ne_nil address e es), hcons, flatMap_cons]
    split
    · rename_i hnone
      rw [hfirst] at hnone
      cases hnone
    · rename_i rest hsome
      rw [hfirst] at hsome
      cases hsome
      rw [hfirst, hrest]

end

end Viewstamp.Blocks
