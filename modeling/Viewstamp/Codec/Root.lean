import Viewstamp.Codec.Words

/- The durable root on disk.

   A root is a version, the scalars of the replica, the headers of the committed band
   in fixed blocks, the epochs, the membership behind a flag, the lineage, and the
   scalars that were added later. Decoding rebuilds the root through its constructors,
   so what it returns carries their proofs.

   A header is written in words of sixteen bytes although most of its fields have
   eight, and its block is padded. The decoder does not look at the padding and drops
   the upper half of the words of `op`, `view` and `request`; these are the bits that
   `clear` sets to zero. -/
namespace Viewstamp

variable {n : Nat} {bs rest : Bytes}

open Reader

/-- Read on only under this version. -/
def Reader.expectVersion (expected reported found : Nat) : Reader Unit :=
  if found = expected then pure () else fail (.unknownVersion reported)

/-! ## Headers -/

def headerEncodedLen : Nat := 128
def headerCanonicalLen : Nat := 6 * 16

namespace Header

def encode (h : Header) : Bytes :=
  beBytes 16 h.checksum ++ h.canonical
    ++ List.replicate (headerEncodedLen - (16 + headerCanonicalLen)) 0

/-- `Header::decode`, on the cursor. The words are narrowed to the width of their fields. -/
def read : Reader Header := do
  let checksum ← word 16
  let versionRaw ← word 16
  expectVersion headerVersion (min versionRaw (2 ^ 16 - 1)) versionRaw
  let op ← word 16
  let view ← word 16
  let client ← word 16
  let request ← word 16
  let bodyChecksum ← word 16
  let _ ← take (headerEncodedLen - (16 + headerCanonicalLen))
  finish
  pure {
    version := headerVersion
    checksum
    op := op % 2 ^ 64
    view := view % 2 ^ 64
    client
    request := request % 2 ^ 64
    bodyChecksum }

def decode (raw : Bytes) : Except CodecError Header := (read raw).map Prod.fst

/-- The fields are as wide as the source's types, under the version every header is built with. -/
structure Fits (h : Header) : Prop where
  version : h.version = headerVersion
  checksum : h.checksum < 2 ^ 128
  op : h.op < 2 ^ 64
  view : h.view < 2 ^ 64
  client : h.client < 2 ^ 128
  request : h.request < 2 ^ 64
  bodyChecksum : h.bodyChecksum < 2 ^ 128

/-- The block with the bits no decoder reads set to zero. -/
def clearReserved (raw : Bytes) : Bytes :=
  let w (i : Nat) : Nat := ofBeBytes ((raw.drop (16 * i)).take 16)
  [w 0, w 1, w 2 % 2 ^ 64, w 3 % 2 ^ 64, w 4, w 5 % 2 ^ 64, w 6].flatMap (beBytes 16)
    ++ List.replicate 16 0

end Header

/-! ## Roots -/

def superblockVersion : Nat := 2

/-- One block of the committed band. -/
def Header.readBlock : Reader Header := do
  let raw ← take headerEncodedLen
  ofResult id (Header.decode raw)

namespace Membership

def encode (m : Membership) : Bytes :=
  beBytes 16 m.configId ++ beBytes 8 m.epoch ++ beBytes 1 m.replicaCount
    ++ beBytes 2 m.learnerCount ++ beBytes 4 m.members.length ++ m.members.flatMap (beBytes 16)

/-- The membership block of a root: the id is trusted, the structure is checked. -/
def read : Reader Membership := do
  let configId ← word 16
  let epoch ← word 8
  let replicaCount ← word 1
  let learnerCount ← word 2
  let memberCount ← seqLen 16
  let members ← many (word 16) memberCount
  ofResult (fun e => .invalidVsrState (.invalidMembership e))
    (fromDurableParts epoch replicaCount learnerCount members configId)

structure Fits (m : Membership) : Prop where
  configId : m.configId < 2 ^ 128
  epoch : m.epoch < 2 ^ 64
  members : ∀ member ∈ m.members, member < 2 ^ 128

end Membership

namespace VsrState

theorem headersInBand_of_not_not {lo hi : OpNumber} {hs : List Header}
    (h : ¬ ¬ HeadersInBand lo hi hs) : HeadersInBand lo hi hs := Decidable.not_not.mp h

/-- `try_new`, with what a decoded root without a membership carries besides. -/
def tryNewCarrying (view logView : View) (commit checkpointOp : OpNumber)
    (checkpointId : Checksum) (committedHeaders : List Header) (epoch prevEpoch : Epoch)
    (priorConfigIds : List Checksum) (configInstallOp logFloor : OpNumber)
    (checkpointOps walCapacity : Nat) : Except VsrStateError VsrState :=
  if h1 : view < logView then .error .logViewAboveView
  else if h2 : commit < checkpointOp then .error .commitBelowCheckpoint
  else if h3 : ¬ HeadersInBand checkpointOp commit committedHeaders then
    .error (headerError checkpointOp checkpointOp commit committedHeaders)
  else if h4 : logFloor < checkpointOp then .error .logFloorBelowCheckpoint
  else .ok {
    view, logView, commit, checkpointOp, checkpointId, committedHeaders, epoch, prevEpoch,
    membership := none
    priorConfigIds, configInstallOp, logFloor, checkpointOps, walCapacity
    logView_le := Nat.le_of_not_lt h1
    checkpointOp_le := Nat.le_of_not_lt h2
    headers_band := headersInBand_of_not_not h3
    epoch_eq := by simp
    logFloor_ge := Nat.le_of_not_lt h4 }

/-- The constructor a decoded root goes through. -/
def rebuild (view logView : View) (commit checkpointOp : OpNumber) (checkpointId : Checksum)
    (committedHeaders : List Header) (epoch prevEpoch : Epoch) (membership : Option Membership)
    (priorConfigIds : List Checksum) (configInstallOp logFloor : OpNumber)
    (checkpointOps walCapacity : Nat) : Except VsrStateError VsrState :=
  match membership with
  | some m => tryNewV4 view logView commit checkpointOp checkpointId committedHeaders epoch
      prevEpoch m priorConfigIds configInstallOp logFloor checkpointOps walCapacity
  | none => tryNewCarrying view logView commit checkpointOp checkpointId committedHeaders epoch
      prevEpoch priorConfigIds configInstallOp logFloor checkpointOps walCapacity

def encodeMembership : Option Membership → Bytes
  | none => beBytes 1 0
  | some m => beBytes 1 1 ++ m.encode

def encode (s : VsrState) : Bytes :=
  beBytes 2 superblockVersion ++ (beBytes 8 s.view ++ (beBytes 8 s.logView
    ++ (beBytes 8 s.commit ++ (beBytes 8 s.checkpointOp ++ (beBytes 16 s.checkpointId
    ++ (beBytes 4 s.committedHeaders.length ++ (s.committedHeaders.flatMap Header.encode
    ++ (beBytes 8 s.epoch ++ (beBytes 8 s.prevEpoch ++ (encodeMembership s.membership
    ++ (beBytes 4 s.priorConfigIds.length ++ (s.priorConfigIds.flatMap (beBytes 16)
    ++ (beBytes 8 s.configInstallOp ++ (beBytes 8 s.logFloor ++ (beBytes 8 s.checkpointOps
    ++ beBytes 8 s.walCapacity)))))))))))))))

/-- What follows the flag of the membership block. -/
def readMembershipAfter : Nat → Reader (Option Membership)
  | 0 => pure none
  | 1 => do
    let m ← Membership.read
    pure (some m)
  | other => fail (.invalidMembershipPresent other)

def readMembership : Reader (Option Membership) := do
  let flag ← word 1
  readMembershipAfter flag

def read : Reader VsrState := do
  let version ← word 2
  expectVersion superblockVersion version version
  let view ← word 8
  let logView ← word 8
  let commit ← word 8
  let checkpointOp ← word 8
  let checkpointId ← word 16
  let count ← seqLen headerEncodedLen
  let committedHeaders ← many Header.readBlock count
  let epoch ← word 8
  let prevEpoch ← word 8
  let membership ← readMembership
  let lineageCount ← seqLen 16
  let priorConfigIds ← many (word 16) lineageCount
  let configInstallOp ← word 8
  let logFloor ← word 8
  let checkpointOps ← word 8
  let walCapacity ← word 8
  finish
  ofResult .invalidVsrState (rebuild view logView commit checkpointOp checkpointId committedHeaders
    epoch prevEpoch membership priorConfigIds configInstallOp logFloor checkpointOps walCapacity)

def decode (b : Bytes) : Except CodecError VsrState := (read b).map Prod.fst

/-- The fields are as wide as the source's types, and no list is longer than its count can say. -/
structure Fits (s : VsrState) : Prop where
  view : s.view < 2 ^ 64
  logView : s.logView < 2 ^ 64
  commit : s.commit < 2 ^ 64
  checkpointOp : s.checkpointOp < 2 ^ 64
  checkpointId : s.checkpointId < 2 ^ 128
  headers : ∀ h ∈ s.committedHeaders, h.Fits
  headerCount : s.committedHeaders.length < 2 ^ 32
  epoch : s.epoch < 2 ^ 64
  prevEpoch : s.prevEpoch < 2 ^ 64
  membership : ∀ m ∈ s.membership, m.Fits
  priorConfigIds : ∀ id ∈ s.priorConfigIds, id < 2 ^ 128
  lineageCount : s.priorConfigIds.length < 2 ^ 32
  configInstallOp : s.configInstallOp < 2 ^ 64
  logFloor : s.logFloor < 2 ^ 64
  checkpointOps : s.checkpointOps < 2 ^ 64
  walCapacity : s.walCapacity < 2 ^ 64

/-- The first bytes of a sequence of header blocks, with the reserved bits cleared. -/
def clearBlocks : Nat → Bytes → Bytes
  | 0, b => b
  | n + 1, b =>
    Header.clearReserved (b.take headerEncodedLen) ++ clearBlocks n (b.drop headerEncodedLen)

/-- The bytes before the header blocks: the version, four words, the checkpoint id and the count. -/
def headersOffset : Nat := 2 + 4 * 8 + 16 + 4

def headerCount (b : Bytes) : Nat := ofBeBytes ((b.drop (headersOffset - 4)).take 4)

/-- A root's bytes with the reserved bits of its header blocks cleared. -/
def clear (b : Bytes) : Bytes :=
  b.take headersOffset ++ clearBlocks (headerCount b) (b.drop headersOffset)

end VsrState

/-! ## Reading back what was written -/

theorem Reader.word8_append (h : n < 2 ^ 64) (rest : Bytes) :
    word 8 (beBytes 8 n ++ rest) = .ok (n, rest) :=
  word_append (lt_of_lt_of_eq h (by norm_num)) rest

theorem Reader.word16_append (h : n < 2 ^ 128) (rest : Bytes) :
    word 16 (beBytes 16 n ++ rest) = .ok (n, rest) :=
  word_append (lt_of_lt_of_eq h (by norm_num)) rest

theorem Reader.word8_eq_ok (h : word 8 bs = .ok (n, rest)) :
    n < 2 ^ 64 ∧ bs = beBytes 8 n ++ rest := by
  obtain ⟨hlt, hbs⟩ := word_eq_ok h
  exact ⟨lt_of_lt_of_eq hlt (by norm_num), hbs⟩

theorem Reader.word16_eq_ok (h : word 16 bs = .ok (n, rest)) :
    n < 2 ^ 128 ∧ bs = beBytes 16 n ++ rest := by
  obtain ⟨hlt, hbs⟩ := word_eq_ok h
  exact ⟨lt_of_lt_of_eq hlt (by norm_num), hbs⟩

theorem Reader.expectVersion_self (v reported : Nat) (bs : Bytes) :
    expectVersion v reported v bs = .ok ((), bs) := by
  rw [expectVersion, if_pos rfl]
  rfl

theorem Reader.expectVersion_eq_ok {v reported found : Nat} {u : Unit}
    (h : expectVersion v reported found bs = .ok (u, rest)) : found = v ∧ bs = rest := by
  unfold expectVersion at h
  split at h
  · rename_i hv
    exact ⟨hv, (pure_eq_ok.mp h).2⟩
  · cases h

namespace Header

variable {h : Header}

@[simp] theorem length_encode (h : Header) : h.encode.length = headerEncodedLen := by
  simp [encode, canonical, headerEncodedLen, headerCanonicalLen]

theorem read_encode (fits : h.Fits) : read h.encode = .ok (h, []) := by
  have hop : h.op % 2 ^ 64 = h.op := Nat.mod_eq_of_lt fits.op
  have hview : h.view % 2 ^ 64 = h.view := Nat.mod_eq_of_lt fits.view
  have hrequest : h.request % 2 ^ 64 = h.request := Nat.mod_eq_of_lt fits.request
  have wide {n : Nat} (hn : n < 2 ^ 64) : n < 2 ^ 128 := lt_of_lt_of_le hn (by decide)
  simp only [encode, canonical, List.flatMap_cons, List.flatMap_nil, List.append_nil,
    List.append_assoc]
  unfold read
  rw [bind_of_ok (word16_append fits.checksum _), fits.version,
    bind_of_ok (word16_append (by norm_num [headerVersion]) _),
    bind_of_ok (expectVersion_self _ _ _), bind_of_ok (word16_append (wide fits.op) _),
    bind_of_ok (word16_append (wide fits.view) _), bind_of_ok (word16_append fits.client _),
    bind_of_ok (word16_append (wide fits.request) _),
    bind_of_ok (word16_append fits.bodyChecksum _)]
  have hpad : take (headerEncodedLen - (16 + headerCanonicalLen))
      (List.replicate (headerEncodedLen - (16 + headerCanonicalLen)) 0)
      = .ok (List.replicate (headerEncodedLen - (16 + headerCanonicalLen)) 0, []) := rfl
  rw [bind_of_ok hpad, bind_of_ok (show finish [] = .ok ((), []) from rfl), hop, hview, hrequest,
    ← fits.version]
  rfl

theorem readBlock_append (fits : h.Fits) (rest : Bytes) :
    readBlock (h.encode ++ rest) = .ok (h, rest) := by
  unfold readBlock
  rw [bind_of_ok (take_append h.length_encode), decode, read_encode fits]
  rfl

/-- The words of a row are at the multiples of their width. -/
theorem take_drop_words (ws : List Nat) (rest : Bytes) {i : Nat} (hi : i < ws.length) :
    ((ws.flatMap (beBytes 16) ++ rest).drop (16 * i)).take 16 = beBytes 16 ws[i] := by
  induction ws generalizing i with
  | nil => exact absurd hi (Nat.not_lt_zero i)
  | cons w ws ih =>
    rw [List.flatMap_cons, List.append_assoc]
    cases i with
    | zero => exact List.take_left' (length_beBytes 16 w)
    | succ i =>
      rw [Nat.mul_succ, Nat.add_comm, ← List.drop_drop, List.drop_left' (length_beBytes 16 w)]
      exact ih (Nat.lt_of_succ_lt_succ hi)

/-- A block that decodes is the header's own encoding up to the bits that are not read. -/
theorem of_decode_eq_ok {raw : Bytes} (hok : decode raw = .ok h) :
    h.Fits ∧ h.encode = clearReserved raw := by
  obtain ⟨rest, hread⟩ : ∃ rest, read raw = .ok (h, rest) := by
    unfold decode at hok
    cases hr : read raw with
    | error e =>
      rw [hr] at hok
      cases hok
    | ok p =>
      rw [hr] at hok
      exact ⟨p.2, congrArg Except.ok (Prod.ext (Except.ok.inj hok) rfl)⟩
  unfold read at hread
  obtain ⟨checksum, _, h1, hread⟩ := bind_eq_ok.mp hread
  obtain ⟨version, _, h2, hread⟩ := bind_eq_ok.mp hread
  obtain ⟨_, _, h3, hread⟩ := bind_eq_ok.mp hread
  obtain ⟨op, _, h4, hread⟩ := bind_eq_ok.mp hread
  obtain ⟨view, _, h5, hread⟩ := bind_eq_ok.mp hread
  obtain ⟨client, _, h6, hread⟩ := bind_eq_ok.mp hread
  obtain ⟨request, _, h7, hread⟩ := bind_eq_ok.mp hread
  obtain ⟨bodyChecksum, _, h8, hread⟩ := bind_eq_ok.mp hread
  obtain ⟨pad, _, h9, hread⟩ := bind_eq_ok.mp hread
  obtain ⟨_, _, h10, hread⟩ := bind_eq_ok.mp hread
  obtain ⟨hchecksum, rfl⟩ := word16_eq_ok h1
  obtain ⟨-, rfl⟩ := word16_eq_ok h2
  obtain ⟨rfl, rfl⟩ := expectVersion_eq_ok h3
  obtain ⟨hop, rfl⟩ := word16_eq_ok h4
  obtain ⟨hview, rfl⟩ := word16_eq_ok h5
  obtain ⟨hclient, rfl⟩ := word16_eq_ok h6
  obtain ⟨hrequest, rfl⟩ := word16_eq_ok h7
  obtain ⟨hbody, rfl⟩ := word16_eq_ok h8
  obtain ⟨hpad, rfl⟩ := take_eq_ok h9
  obtain ⟨rfl, rfl⟩ := finish_eq_ok h10
  obtain ⟨rfl, -⟩ := pure_eq_ok.mp hread
  refine ⟨⟨rfl, hchecksum, Nat.mod_lt _ (by norm_num), Nat.mod_lt _ (by norm_num), hclient,
    Nat.mod_lt _ (by norm_num), hbody⟩, ?_⟩
  -- each word of the block is found at its own multiple of sixteen
  have hraw : beBytes 16 checksum ++ (beBytes 16 headerVersion ++ (beBytes 16 op
      ++ (beBytes 16 view ++ (beBytes 16 client ++ (beBytes 16 request
      ++ (beBytes 16 bodyChecksum ++ (pad ++ [])))))))
      = [checksum, headerVersion, op, view, client, request, bodyChecksum].flatMap (beBytes 16)
        ++ pad := by
    simp only [List.flatMap_cons, List.flatMap_nil, List.append_nil, List.append_assoc]
  have narrow {n : Nat} (hn : n < 2 ^ 128) : ofBeBytes (beBytes 16 n) = n :=
    ofBeBytes_beBytes (lt_of_lt_of_eq hn (by norm_num))
  have hword (i : Nat) (hi : i < 7) := take_drop_words
    [checksum, headerVersion, op, view, client, request, bodyChecksum] pad hi
  rw [hraw, clearReserved]
  dsimp only
  rw [hword 0 (by decide), hword 1 (by decide), hword 2 (by decide), hword 3 (by decide),
    hword 4 (by decide), hword 5 (by decide), hword 6 (by decide)]
  simp only [List.getElem_cons_zero, List.getElem_cons_succ]
  rw [narrow hchecksum, narrow hop, narrow hview, narrow hclient, narrow hrequest, narrow hbody,
    narrow (show headerVersion < 2 ^ 128 by decide)]
  rfl

theorem of_readBlock (bs rest : Bytes) (h : Header) (hok : readBlock bs = .ok (h, rest)) :
    ∃ raw, bs = raw ++ rest ∧ raw.length = headerEncodedLen ∧ h.Fits
      ∧ h.encode = clearReserved raw := by
  unfold readBlock at hok
  obtain ⟨raw, mid, htake, hok⟩ := bind_eq_ok.mp hok
  obtain ⟨hdecode, rfl⟩ := ofResult_eq_ok.mp hok
  obtain ⟨hlen, rfl⟩ := take_eq_ok htake
  exact ⟨raw, rfl, hlen, of_decode_eq_ok hdecode⟩

end Header

/-- The length of a row of ids. -/
theorem length_flatMap_words (ids : List Nat) :
    (ids.flatMap (beBytes 16)).length = ids.length * 16 := by
  induction ids with
  | nil => rfl
  | cons id ids ih =>
    rw [List.flatMap_cons, List.length_append, length_beBytes, ih, List.length_cons]
    omega

theorem Reader.many_words_eq_ok {ids : List Nat} (h : many (word 16) n bs = .ok (ids, rest)) :
    (∀ id ∈ ids, id < 2 ^ 128) ∧ ids.length = n ∧ bs = ids.flatMap (beBytes 16) ++ rest := by
  obtain ⟨hlen, blocks, rfl, hall⟩ := many_eq_ok
    (P := fun id block => id < 2 ^ 128 ∧ block = beBytes 16 id)
    (fun bs rest id hid => ⟨beBytes 16 id, (word16_eq_ok hid).2, (word16_eq_ok hid).1, rfl⟩) h
  have hids : (∀ id ∈ ids, id < 2 ^ 128) ∧ blocks.flatten = ids.flatMap (beBytes 16) := by
    clear h hlen
    induction hall with
    | nil => exact ⟨nofun, rfl⟩
    | cons hid _ ih =>
      refine ⟨List.forall_mem_cons.mpr ⟨hid.1, ih.1⟩, ?_⟩
      rw [List.flatten_cons, List.flatMap_cons, ih.2, hid.2]
  exact ⟨hids.1, hlen, by rw [hids.2]⟩

namespace Membership

variable {m : Membership}

theorem validateStructure_of_valid {replicaCount learnerCount : Nat} {members : List MemberId}
    (h : Valid replicaCount learnerCount members) :
    validateStructure replicaCount learnerCount members = .ok ⟨h⟩ := by
  unfold validateStructure
  rw [dif_neg (Nat.ne_of_gt h.pos), dif_neg (Nat.not_lt.mpr h.voters),
    dif_neg (Nat.not_lt.mpr h.nodes), dif_neg (not_not.mpr h.length),
    dif_neg (not_not.mpr h.nodup)]

theorem fromDurableParts_self (m : Membership) :
    fromDurableParts m.epoch m.replicaCount m.learnerCount m.members m.configId = .ok m := by
  unfold fromDurableParts
  rw [validateStructure_of_valid m.valid]

theorem of_fromDurableParts {epoch : Epoch} {replicaCount learnerCount : Nat}
    {members : List MemberId} {configId : Checksum}
    (h : fromDurableParts epoch replicaCount learnerCount members configId = .ok m) :
    m.epoch = epoch ∧ m.replicaCount = replicaCount ∧ m.learnerCount = learnerCount
      ∧ m.members = members ∧ m.configId = configId := by
  unfold fromDurableParts at h
  split at h
  · cases h
    exact ⟨rfl, rfl, rfl, rfl, rfl⟩
  · cases h

theorem read_append (fits : m.Fits) (rest : Bytes) : read (m.encode ++ rest) = .ok (m, rest) := by
  have hnodes := m.valid.nodes
  have hvoters : m.replicaCount ≤ 64 := m.valid.voters
  have hlen := m.valid.length
  simp only [encode, List.append_assoc]
  unfold read
  rw [bind_of_ok (word16_append fits.configId _), bind_of_ok (word8_append fits.epoch _),
    bind_of_ok (word_append (show m.replicaCount < 256 ^ 1 by omega) _),
    bind_of_ok (word_append (show m.learnerCount < 256 ^ 2 by omega) _),
    bind_of_ok (seqLen_append (show m.members.length < 256 ^ 4 by omega) (by
      rw [List.length_append, length_flatMap_words]
      omega)),
    bind_of_ok (many_append (fun id hid => word16_append (fits.members id hid)) rest),
    fromDurableParts_self]
  rfl

theorem of_read_eq_ok {bs rest : Bytes} (h : read bs = .ok (m, rest)) :
    m.Fits ∧ bs = m.encode ++ rest := by
  unfold read at h
  obtain ⟨configId, _, h1, h⟩ := bind_eq_ok.mp h
  obtain ⟨epoch, _, h2, h⟩ := bind_eq_ok.mp h
  obtain ⟨replicaCount, _, h3, h⟩ := bind_eq_ok.mp h
  obtain ⟨learnerCount, _, h4, h⟩ := bind_eq_ok.mp h
  obtain ⟨count, _, h5, h⟩ := bind_eq_ok.mp h
  obtain ⟨members, _, h6, h⟩ := bind_eq_ok.mp h
  obtain ⟨hparts, rfl⟩ := ofResult_eq_ok.mp h
  obtain ⟨hid, rfl⟩ := word16_eq_ok h1
  obtain ⟨hepoch, rfl⟩ := word8_eq_ok h2
  obtain ⟨-, rfl⟩ := word_eq_ok h3
  obtain ⟨-, rfl⟩ := word_eq_ok h4
  obtain ⟨-, rfl⟩ := seqLen_eq_ok h5
  obtain ⟨hmembers, hlen, rfl⟩ := many_words_eq_ok h6
  obtain ⟨rfl, rfl, rfl, rfl, rfl⟩ := of_fromDurableParts hparts
  refine ⟨⟨hid, hepoch, hmembers⟩, ?_⟩
  simp only [encode, List.append_assoc, hlen]

end Membership

namespace VsrState

variable {s : VsrState}

theorem rebuild_self (s : VsrState) :
    rebuild s.view s.logView s.commit s.checkpointOp s.checkpointId s.committedHeaders s.epoch
      s.prevEpoch s.membership s.priorConfigIds s.configInstallOp s.logFloor s.checkpointOps
      s.walCapacity = .ok s := by
  obtain ⟨view, logView, commit, checkpointOp, checkpointId, headers, epoch, prevEpoch, membership,
    prior, installOp, logFloor, checkpointOps, walCapacity, hview, hcommit, hband, hepoch,
    hfloor⟩ := s
  cases membership with
  | none =>
    dsimp only [rebuild, tryNewCarrying]
    rw [dif_neg (Nat.not_lt.mpr hview), dif_neg (Nat.not_lt.mpr hcommit),
      dif_neg (not_not.mpr hband), dif_neg (Nat.not_lt.mpr hfloor)]
  | some m =>
    dsimp only [rebuild, tryNewV4]
    rw [dif_neg (not_not.mpr (hepoch m rfl)), dif_neg (Nat.not_lt.mpr hview),
      dif_neg (Nat.not_lt.mpr hcommit), dif_neg (not_not.mpr hband),
      dif_neg (Nat.not_lt.mpr hfloor)]

/-- A root that was rebuilt has the parts it was rebuilt from. -/
theorem of_rebuild {view logView : View} {commit checkpointOp : OpNumber}
    {checkpointId : Checksum} {headers : List Header} {epoch prevEpoch : Epoch}
    {membership : Option Membership} {prior : List Checksum} {installOp logFloor : OpNumber}
    {checkpointOps walCapacity : Nat}
    (h : rebuild view logView commit checkpointOp checkpointId headers epoch prevEpoch membership
      prior installOp logFloor checkpointOps walCapacity = .ok s) :
    view = s.view ∧ logView = s.logView ∧ commit = s.commit ∧ checkpointOp = s.checkpointOp
      ∧ checkpointId = s.checkpointId ∧ headers = s.committedHeaders ∧ epoch = s.epoch
      ∧ prevEpoch = s.prevEpoch ∧ membership = s.membership ∧ prior = s.priorConfigIds
      ∧ installOp = s.configInstallOp ∧ logFloor = s.logFloor ∧ checkpointOps = s.checkpointOps
      ∧ walCapacity = s.walCapacity := by
  cases membership with
  | none =>
    unfold rebuild tryNewCarrying at h
    split_ifs at h
    cases h
    exact ⟨rfl, rfl, rfl, rfl, rfl, rfl, rfl, rfl, rfl, rfl, rfl, rfl, rfl, rfl⟩
  | some m =>
    rw [rebuild, tryNewV4] at h
    rcases Decidable.em (m.epoch ≠ epoch) with hne | heq
    · rw [dif_pos hne] at h
      cases h
    rw [dif_neg heq] at h
    split_ifs at h
    cases h
    exact ⟨rfl, rfl, rfl, rfl, rfl, rfl, rfl, rfl, rfl, rfl, rfl, rfl, rfl, rfl⟩

theorem readMembership_append {mo : Option Membership} (fits : ∀ m ∈ mo, m.Fits) (rest : Bytes) :
    readMembership (encodeMembership mo ++ rest) = .ok (mo, rest) := by
  cases mo with
  | none =>
    unfold readMembership encodeMembership
    rw [bind_of_ok (word_append (by decide) rest)]
    rfl
  | some m =>
    unfold readMembership encodeMembership
    rw [List.append_assoc, bind_of_ok (word_append (by decide) _), readMembershipAfter,
      bind_of_ok (Membership.read_append (fits m rfl) rest)]
    rfl

theorem of_readMembership {mo : Option Membership} {bs rest : Bytes}
    (h : readMembership bs = .ok (mo, rest)) :
    (∀ m ∈ mo, m.Fits) ∧ bs = encodeMembership mo ++ rest := by
  unfold readMembership at h
  obtain ⟨flag, mid, hflag, hrest⟩ := bind_eq_ok.mp h
  obtain ⟨-, rfl⟩ := word_eq_ok hflag
  unfold readMembershipAfter at hrest
  split at hrest
  · obtain ⟨rfl, rfl⟩ := pure_eq_ok.mp hrest
    exact ⟨fun _ hm => absurd hm (Option.not_mem_none _), rfl⟩
  · obtain ⟨m, _, hm, hrest⟩ := bind_eq_ok.mp hrest
    obtain ⟨rfl, rfl⟩ := pure_eq_ok.mp hrest
    obtain ⟨hfits, rfl⟩ := Membership.of_read_eq_ok hm
    refine ⟨?_, ?_⟩
    · intro m' hm'
      cases hm'
      exact hfits
    · rw [encodeMembership, List.append_assoc]
  · cases hrest

theorem length_flatMap_encode (hs : List Header) :
    (hs.flatMap Header.encode).length = hs.length * headerEncodedLen := by
  induction hs with
  | nil => rw [List.flatMap_nil, List.length_nil, List.length_nil, Nat.zero_mul]
  | cons h hs ih =>
    rw [List.flatMap_cons, List.length_append, Header.length_encode, ih, List.length_cons,
      Nat.succ_mul, Nat.add_comm]

/-- What is written is read back. -/
theorem read_encode (fits : s.Fits) : read s.encode = .ok (s, []) := by
  have hheaders := fits.headerCount
  have hlineage := fits.lineageCount
  have hlast := word8_append fits.walCapacity []
  rw [List.append_nil] at hlast
  unfold read encode
  rw [bind_of_ok (word_append (by decide) _), bind_of_ok (expectVersion_self _ _ _),
    bind_of_ok (word8_append fits.view _), bind_of_ok (word8_append fits.logView _),
    bind_of_ok (word8_append fits.commit _), bind_of_ok (word8_append fits.checkpointOp _),
    bind_of_ok (word16_append fits.checkpointId _),
    bind_of_ok (seqLen_append (lt_of_lt_of_eq hheaders (by norm_num)) (by
      rw [List.length_append, length_flatMap_encode]
      exact Nat.le_add_right _ _)),
    bind_of_ok (many_append (fun h hh => Header.readBlock_append (fits.headers h hh)) _),
    bind_of_ok (word8_append fits.epoch _), bind_of_ok (word8_append fits.prevEpoch _),
    bind_of_ok (readMembership_append fits.membership _),
    bind_of_ok (seqLen_append (lt_of_lt_of_eq hlineage (by norm_num)) (by
      rw [List.length_append, length_flatMap_words]
      exact Nat.le_add_right _ _)),
    bind_of_ok (many_append (fun id hid => word16_append (fits.priorConfigIds id hid)) _),
    bind_of_ok (word8_append fits.configInstallOp _), bind_of_ok (word8_append fits.logFloor _),
    bind_of_ok (word8_append fits.checkpointOps _), bind_of_ok hlast,
    bind_of_ok (show finish [] = .ok ((), []) from rfl), rebuild_self]
  rfl

/-- The blocks of a band, cleared, are the encodings of its headers. -/
theorem clearBlocks_flatten {hs : List Header} {blocks : List Bytes}
    (hall : List.Forall₂ (fun h raw => raw.length = headerEncodedLen ∧ h.Fits
      ∧ h.encode = Header.clearReserved raw) hs blocks) (tail : Bytes) :
    clearBlocks hs.length (blocks.flatten ++ tail) = hs.flatMap Header.encode ++ tail := by
  induction hall with
  | nil => rfl
  | cons hraw _ ih =>
    rw [List.flatten_cons, List.append_assoc, List.length_cons, clearBlocks,
      List.take_left' hraw.1, List.drop_left' hraw.1, ih, List.flatMap_cons, List.append_assoc,
      hraw.2.2]

theorem fits_of_blocks {hs : List Header} {blocks : List Bytes}
    (hall : List.Forall₂ (fun h raw => raw.length = headerEncodedLen ∧ h.Fits
      ∧ h.encode = Header.clearReserved raw) hs blocks) : ∀ h ∈ hs, h.Fits := by
  induction hall with
  | nil => nofun
  | cons hraw _ ih => exact List.forall_mem_cons.mpr ⟨hraw.2.1, ih⟩

/-- Clearing changes nothing before the header blocks. -/
theorem clear_append {fixed : Bytes} {count : Nat} (hlen : fixed.length = headersOffset - 4)
    (hcount : count < 256 ^ 4) (rest : Bytes) :
    clear (fixed ++ (beBytes 4 count ++ rest))
      = fixed ++ (beBytes 4 count ++ clearBlocks count rest) := by
  have hboth : (fixed ++ beBytes 4 count).length = headersOffset := by
    rw [List.length_append, hlen, length_beBytes]
    rfl
  have hnumber : headerCount (fixed ++ (beBytes 4 count ++ rest)) = count := by
    rw [headerCount, List.drop_left' hlen, List.take_left' (length_beBytes 4 count),
      ofBeBytes_beBytes hcount]
  rw [clear, hnumber, ← List.append_assoc, List.take_left' hboth, List.drop_left' hboth,
    List.append_assoc]

/-- What is read is a root, and the bytes are its own up to the reserved bits of its headers. -/
theorem of_read_eq_ok {b rest : Bytes} (h : read b = .ok (s, rest)) :
    s.Fits ∧ s.encode = clear b := by
  unfold read at h
  obtain ⟨version, _, h1, h⟩ := bind_eq_ok.mp h
  obtain ⟨_, _, h2, h⟩ := bind_eq_ok.mp h
  obtain ⟨view, _, h3, h⟩ := bind_eq_ok.mp h
  obtain ⟨logView, _, h4, h⟩ := bind_eq_ok.mp h
  obtain ⟨commit, _, h5, h⟩ := bind_eq_ok.mp h
  obtain ⟨checkpointOp, _, h6, h⟩ := bind_eq_ok.mp h
  obtain ⟨checkpointId, _, h7, h⟩ := bind_eq_ok.mp h
  obtain ⟨count, _, h8, h⟩ := bind_eq_ok.mp h
  obtain ⟨headers, _, h9, h⟩ := bind_eq_ok.mp h
  obtain ⟨epoch, _, h10, h⟩ := bind_eq_ok.mp h
  obtain ⟨prevEpoch, _, h11, h⟩ := bind_eq_ok.mp h
  obtain ⟨membership, _, h12, h⟩ := bind_eq_ok.mp h
  obtain ⟨lineageCount, _, h13, h⟩ := bind_eq_ok.mp h
  obtain ⟨prior, _, h14, h⟩ := bind_eq_ok.mp h
  obtain ⟨installOp, _, h15, h⟩ := bind_eq_ok.mp h
  obtain ⟨logFloor, _, h16, h⟩ := bind_eq_ok.mp h
  obtain ⟨checkpointOps, _, h17, h⟩ := bind_eq_ok.mp h
  obtain ⟨walCapacity, _, h18, h⟩ := bind_eq_ok.mp h
  obtain ⟨_, _, h19, h⟩ := bind_eq_ok.mp h
  obtain ⟨hbuilt, -⟩ := ofResult_eq_ok.mp h
  obtain ⟨rfl, rfl, rfl, rfl, rfl, rfl, rfl, rfl, rfl, rfl, rfl, rfl, rfl, rfl⟩ := of_rebuild hbuilt
  obtain ⟨-, rfl⟩ := word_eq_ok h1
  obtain ⟨rfl, rfl⟩ := expectVersion_eq_ok h2
  obtain ⟨hview, rfl⟩ := word8_eq_ok h3
  obtain ⟨hlogView, rfl⟩ := word8_eq_ok h4
  obtain ⟨hcommit, rfl⟩ := word8_eq_ok h5
  obtain ⟨hcheckpointOp, rfl⟩ := word8_eq_ok h6
  obtain ⟨hcheckpointId, rfl⟩ := word16_eq_ok h7
  obtain ⟨hcount, rfl⟩ := seqLen_eq_ok h8
  obtain ⟨hlen, blocks, rfl, hall⟩ := many_eq_ok Header.of_readBlock h9
  obtain ⟨hepoch, rfl⟩ := word8_eq_ok h10
  obtain ⟨hprevEpoch, rfl⟩ := word8_eq_ok h11
  obtain ⟨hmembership, rfl⟩ := of_readMembership h12
  obtain ⟨hlineage, rfl⟩ := seqLen_eq_ok h13
  obtain ⟨hprior, hpriorLen, rfl⟩ := many_words_eq_ok h14
  obtain ⟨hinstall, rfl⟩ := word8_eq_ok h15
  obtain ⟨hfloor, rfl⟩ := word8_eq_ok h16
  obtain ⟨hops, rfl⟩ := word8_eq_ok h17
  obtain ⟨hwal, rfl⟩ := word8_eq_ok h18
  obtain ⟨rfl, -⟩ := finish_eq_ok h19
  refine ⟨⟨hview, hlogView, hcommit, hcheckpointOp, hcheckpointId, fits_of_blocks hall, ?_, hepoch,
    hprevEpoch, hmembership, hprior, ?_, hinstall, hfloor, hops, hwal⟩, ?_⟩
  · rw [hlen]
    exact lt_of_lt_of_eq hcount (by norm_num)
  · rw [hpriorLen]
    exact lt_of_lt_of_eq hlineage (by norm_num)
  · have hlength : (beBytes 2 superblockVersion ++ (beBytes 8 s.view ++ (beBytes 8 s.logView
        ++ (beBytes 8 s.commit ++ (beBytes 8 s.checkpointOp
        ++ beBytes 16 s.checkpointId))))).length = headersOffset - 4 := by
      simp only [List.length_append, length_beBytes]
      rfl
    have hfixed := clear_append hlength hcount
    simp only [List.append_assoc] at hfixed
    rw [hfixed, ← hlen, clearBlocks_flatten hall, encode, hpriorLen, List.append_nil]

theorem decode_eq_ok {b : Bytes} (h : decode b = .ok s) : ∃ rest, read b = .ok (s, rest) := by
  unfold decode at h
  cases hr : read b with
  | error e =>
    rw [hr] at h
    cases h
  | ok p =>
    rw [hr] at h
    exact ⟨p.2, congrArg Except.ok (Prod.ext (Except.ok.inj h) rfl)⟩

theorem decode_encode (fits : s.Fits) : decode s.encode = .ok s := by
  rw [decode, read_encode fits]
  rfl

/-- Every root is read back from its bytes. What decodes meets every check of the
constructors, and it is written as the bytes it was read from with the reserved bits
cleared: bytes that differ elsewhere do not decode to one root. -/
theorem root_codec :
    (∀ s : VsrState, s.Fits → decode s.encode = .ok s) ∧
    (∀ (b : Bytes) (s : VsrState), decode b = .ok s →
      (s.logView ≤ s.view ∧ s.checkpointOp ≤ s.commit
        ∧ HeadersInBand s.checkpointOp s.commit s.committedHeaders
        ∧ (∀ m ∈ s.membership, m.epoch = s.epoch
          ∧ Membership.Valid m.replicaCount m.learnerCount m.members)
        ∧ s.checkpointOp ≤ s.logFloor)
      ∧ s.Fits ∧ s.encode = clear b ∧ decode (clear b) = .ok s) ∧
    (∀ (b b' : Bytes) (s : VsrState), decode b = .ok s → decode b' = .ok s →
      clear b = clear b') := by
  have inv (b : Bytes) (s : VsrState) (h : decode b = .ok s) : s.Fits ∧ s.encode = clear b := by
    obtain ⟨rest, hread⟩ := decode_eq_ok h
    exact of_read_eq_ok hread
  refine ⟨fun s fits => decode_encode fits, ?_, ?_⟩
  · intro b s h
    obtain ⟨hfits, hencode⟩ := inv b s h
    refine ⟨⟨s.logView_le, s.checkpointOp_le, s.headers_band, ?_, s.logFloor_ge⟩, hfits,
      hencode, ?_⟩
    · exact fun m hm => ⟨s.epoch_eq m hm, m.valid⟩
    · rw [← hencode]
      exact decode_encode hfits
  · intro b b' s h h'
    rw [← (inv b s h).2, ← (inv b' s h').2]

theorem singleVoter_valid : Membership.Valid 1 0 [4] :=
  ⟨by decide, by decide, by decide, rfl, by decide⟩

/-- A root over one committed header, under a group of one. -/
def oneHeader : VsrState where
  view := 3
  logView := 2
  commit := 1
  checkpointOp := 0
  checkpointId := 9
  committedHeaders := [Header.ofBody 1 2 5 1 [7]]
  epoch := 0
  prevEpoch := 0
  membership := some ⟨0, 1, 0, [4], 6, singleVoter_valid⟩
  priorConfigIds := [6, 6]
  configInstallOp := 0
  logFloor := 1
  checkpointOps := 4
  walCapacity := 8
  logView_le := by decide
  checkpointOp_le := by decide
  headers_band := by decide
  epoch_eq := by simp
  logFloor_ge := by decide

theorem oneHeader_fits : oneHeader.Fits := by
  refine ⟨by decide, by decide, by decide, by decide, by decide, ?_, by decide, by decide,
    by decide, ?_, by decide, by decide, by decide, by decide, by decide, by decide⟩
  · intro h hh
    cases List.mem_singleton.mp hh
    constructor <;> decide +kernel
  · intro m hm
    cases hm
    exact ⟨by decide, by decide, by decide⟩

theorem root_codec_oneHeader :
    decode oneHeader.encode = .ok oneHeader ∧ oneHeader.encode = clear oneHeader.encode := by
  have hok := root_codec.1 oneHeader oneHeader_fits
  exact ⟨hok, (root_codec.2.1 oneHeader.encode oneHeader hok).2.2.1⟩

/-- The last byte of the one header block is padding; a byte flipped there decodes to the same
root. And a lineage of `2 ^ 32` ids has no count it could be written under. -/
theorem root_codec_not_injective :
    (decode (oneHeader.encode.set (headersOffset + 127) 1) = .ok oneHeader
      ∧ decode oneHeader.encode = .ok oneHeader
      ∧ oneHeader.encode.set (headersOffset + 127) 1 ≠ oneHeader.encode) ∧
    ∃ s : VsrState, tryNewV4 0 0 0 0 0 [] 0 0 ⟨0, 1, 0, [4], 6, singleVoter_valid⟩
        (List.replicate (2 ^ 32) 6) 0 0 1 1 = .ok s ∧ decode s.encode ≠ .ok s := by
  refine ⟨⟨by decide +kernel, by decide +kernel, by decide +kernel⟩, ?_⟩
  let s : VsrState := {
    view := 0, logView := 0, commit := 0, checkpointOp := 0, checkpointId := 0
    committedHeaders := [], epoch := 0, prevEpoch := 0
    membership := some ⟨0, 1, 0, [4], 6, singleVoter_valid⟩
    priorConfigIds := List.replicate (2 ^ 32) 6
    configInstallOp := 0, logFloor := 0, checkpointOps := 1, walCapacity := 1
    logView_le := Nat.le_refl 0, checkpointOp_le := Nat.le_refl 0, headers_band := trivial
    epoch_eq := by simp
    logFloor_ge := Nat.le_refl 0 }
  refine ⟨s, rebuild_self s, ?_⟩
  intro hok
  obtain ⟨rest, hread⟩ := decode_eq_ok hok
  have hcount : (List.replicate (2 ^ 32) 6).length < 2 ^ 32 := (of_read_eq_ok hread).1.lineageCount
  rw [List.length_replicate] at hcount
  exact Nat.lt_irrefl _ hcount

end VsrState

end Viewstamp
