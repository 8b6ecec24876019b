import Mathlib.Data.UInt
import Viewstamp.Codec.Words
import Viewstamp.Lib.Drain
import Viewstamp.Message

/- The framing of a plaintext stream: a 32-bit length, then the payload.

   The decoder is fed whatever a read happened to return. It keeps the bytes of one
   frame that is not complete yet, except before authentication: there it decodes the
   hello alone and keeps everything behind it raw, to be decoded once the cap is
   raised. Three loops work on the one buffer: `drain_buffered` over what it holds,
   `extend` over fresh bytes, `buffer_capped_tail` over the raw tail. What they are to
   compute does not mention reads at all: it is the frames of the stream, taken off its
   front one by one (`frames`). -/
namespace Viewstamp

open List

def lenPrefix : Nat := 4

/-- `encode_frame`: the length, cut to 32 bits, and the payload. -/
def encodeFrame (payload : Bytes) : Bytes := beBytes 4 payload.length ++ payload

def encodeFrames (payloads : List Bytes) : Bytes := payloads.flatMap encodeFrame

theorem encodeFrames_cons (payload : Bytes) (payloads : List Bytes) :
    encodeFrames (payload :: payloads) = encodeFrame payload ++ encodeFrames payloads := rfl

/-- How a call on the decoder ends. -/
inductive FeedResult where
  | ok
  | frameTooLong (len max : Nat)
  /-- A subtraction went below zero. -/
  | underflow
  deriving DecidableEq

structure FrameDecoder where
  partialFrame : Bytes := []
  ready : List Bytes := []
  max : UInt32
  deriving DecidableEq

namespace FrameDecoder

def new (max : UInt32) : FrameDecoder := { max }

/-- The length the first four bytes declare. -/
def declared (bytes : Bytes) : Nat := ofBeBytes (bytes.take lenPrefix)

/-- The loop of `drain_buffered`. -/
def drainLoop : Nat → FrameDecoder → FeedResult × FrameDecoder
  | 0, d => (.ok, d)
  | fuel + 1, d =>
    if d.partialFrame.length < lenPrefix then (.ok, d)
    else
      let len := declared d.partialFrame
      if d.max.toNat < len then (.frameTooLong len d.max.toNat, d)
      else
        let total := lenPrefix + len
        if d.partialFrame.length < total then (.ok, d)
        else
          let frame := (d.partialFrame.take total).drop lenPrefix
          drainLoop fuel { d with
            partialFrame := d.partialFrame.drop total, ready := d.ready ++ [frame] }

/-- Every turn takes a prefix at least, so the bytes themselves are enough fuel. -/
def drainBuffered (d : FrameDecoder) : FeedResult × FrameDecoder :=
  drainLoop d.partialFrame.length d

/-- One frame gathered from the buffer and fresh bytes, or the buffer as it is left. -/
inductive Gathered where
  | waiting (buf : Bytes)
  | tooLong (len : Nat) (buf : Bytes)
  | underflow (buf : Bytes)
  | whole (frame rest : Bytes)

/-- Check the length the prefix declares, then complete the body. -/
def gatherBody (max : UInt32) (buf bytes : Bytes) : Gathered :=
  let len := declared buf
  if max.toNat < len then .tooLong len buf
  else
    let total := lenPrefix + len
    if total < buf.length then .underflow buf
    else
      let take := min (total - buf.length) bytes.length
      let buf := buf ++ bytes.take take
      if buf.length = total then .whole (buf.drop lenPrefix) (bytes.drop take) else .waiting buf

/-- Complete the prefix, then the body: a turn of the loop of `extend`, and `extend_first` on
    the hello. -/
def gather (max : UInt32) (buf bytes : Bytes) : Gathered :=
  if buf.length < lenPrefix then
    let take := min (lenPrefix - buf.length) bytes.length
    let buf := buf ++ bytes.take take
    if buf.length < lenPrefix then .waiting buf else gatherBody max buf (bytes.drop take)
  else gatherBody max buf bytes

/-- The loop of `extend`. -/
def extendLoop : Nat → FrameDecoder → Bytes → FeedResult × FrameDecoder
  | 0, d, _ => (.ok, d)
  | fuel + 1, d, bytes =>
    if bytes = [] then (.ok, d)
    else match gather d.max d.partialFrame bytes with
      | .waiting buf => (.ok, { d with partialFrame := buf })
      | .tooLong len buf => (.frameTooLong len d.max.toNat, { d with partialFrame := buf })
      | .underflow buf => (.underflow, { d with partialFrame := buf })
      | .whole frame rest =>
        extendLoop fuel { d with partialFrame := [], ready := d.ready ++ [frame] } rest

/-- Every turn but a last one takes a byte at least. -/
def extend (d : FrameDecoder) (bytes : Bytes) : FeedResult × FrameDecoder :=
  match d.drainBuffered with
  | (.ok, d) => extendLoop (bytes.length + 1) d bytes
  | r => r

/-- The loop of `buffer_capped_tail`, from an offset on. -/
def tailLoop : Nat → FrameDecoder → Nat → FeedResult × FrameDecoder
  | 0, d, _ => (.ok, d)
  | fuel + 1, d, off =>
    if off + lenPrefix ≤ d.partialFrame.length then
      let len := declared (d.partialFrame.drop off)
      if maxFrameLen < len then
        (.frameTooLong len maxFrameLen,
          { d with partialFrame := d.partialFrame.take (off + lenPrefix) })
      else
        let next := off + lenPrefix + len
        if d.partialFrame.length < next then (.ok, d) else tailLoop fuel d next
    else (.ok, d)

def bufferCappedTail (d : FrameDecoder) (bytes : Bytes) : FeedResult × FrameDecoder :=
  let d := { d with partialFrame := d.partialFrame ++ bytes }
  tailLoop d.partialFrame.length d 0

/-- Before authentication: the hello is decoded, everything behind it is kept raw. -/
def extendFirst (d : FrameDecoder) (bytes : Bytes) : FeedResult × FrameDecoder :=
  if d.ready ≠ [] then d.bufferCappedTail bytes
  else match gather d.max d.partialFrame bytes with
    | .waiting buf => (.ok, { d with partialFrame := buf })
    | .tooLong len buf => (.frameTooLong len d.max.toNat, { d with partialFrame := buf })
    | .underflow buf => (.underflow, { d with partialFrame := buf })
    | .whole frame rest =>
      { d with partialFrame := [], ready := d.ready ++ [frame] }.bufferCappedTail rest

def nextFrame (d : FrameDecoder) : Option Bytes × FrameDecoder :=
  match d.ready with
  | frame :: ready => (some frame, { d with ready })
  | [] => (none, d)

def setMax (d : FrameDecoder) (max : UInt32) : FrameDecoder := { d with max }

/-! ## The frames of a stream -/

theorem declared_append {x : Bytes} (h : lenPrefix ≤ x.length) (y : Bytes) :
    declared (x ++ y) = declared x := by
  rw [declared, declared, take_append_of_le_length h]

theorem declared_take (x : Bytes) : declared (x.take lenPrefix) = declared x := by
  rw [declared, declared, take_take, Nat.min_self]

/-- A frame cut off its stream declares what it did there. -/
theorem declared_take_whole {x : Bytes} (h : lenPrefix + declared x ≤ x.length) :
    (x.take (lenPrefix + declared x)).length
      = lenPrefix + declared (x.take (lenPrefix + declared x)) := by
  have hdecl : declared (x.take (lenPrefix + declared x)) = declared x := by
    rw [← declared_take, take_take, Nat.min_eq_left (Nat.le_add_right _ _), declared_take]
  rw [hdecl, length_take, Nat.min_eq_left h]

/-- The front of a stream under a cap. A length over the cap is bad as soon as it is complete. -/
def frames (max : Nat) : Drain.Parser UInt8 Bytes Nat where
  front bytes :=
    if bytes.length < lenPrefix then .more
    else if max < declared bytes then .bad (declared bytes) (bytes.take lenPrefix)
    else if bytes.length < lenPrefix + declared bytes then .more
    else .item ((bytes.drop lenPrefix).take (declared bytes))
      (bytes.drop (lenPrefix + declared bytes))
  shrinks {xs b rest} h := by
    split_ifs at h with h1 h2 h3
    obtain ⟨-, rfl⟩ := Drain.Front.item.inj h
    rw [length_drop]
    simp only [lenPrefix] at h1 ⊢
    omega
  item_append {xs b rest} ys h := by
    split_ifs at h with h1 h2 h3
    obtain ⟨rfl, rfl⟩ := Drain.Front.item.inj h
    rw [declared_append (by omega), length_append, if_neg (by omega), if_neg h2,
      if_neg (by omega), drop_append_of_le_length (by omega),
      drop_append_of_le_length (by omega),
      take_append_of_le_length (by rw [length_drop]; omega)]
  bad_append {xs e kept} ys h := by
    split_ifs at h with h1 h2 h3
    obtain ⟨rfl, rfl⟩ := Drain.Front.bad.inj h
    rw [declared_append (by omega), length_append, if_neg (by omega), if_pos h2,
      take_append_of_le_length (by omega)]
  bad_kept {xs e kept} h := by
    split_ifs at h with h1 h2 h3
    obtain ⟨rfl, rfl⟩ := Drain.Front.bad.inj h
    rw [declared_take, if_neg (by rw [length_take]; omega), if_pos h2, take_take,
      Nat.min_self]

section Front

variable {max : Nat} {x : Bytes}

theorem front_short (h : x.length < lenPrefix) : (frames max).front x = .more := if_pos h

theorem front_over (h : lenPrefix ≤ x.length) (hover : max < declared x) :
    (frames max).front x = .bad (declared x) (x.take lenPrefix) := by
  show (if _ then _ else _) = _
  rw [if_neg (by omega), if_pos hover]

theorem front_unfinished (hcap : declared x ≤ max) (h : x.length < lenPrefix + declared x) :
    (frames max).front x = .more := by
  by_cases hshort : x.length < lenPrefix
  · exact front_short hshort
  · simp only [frames, if_neg hshort, if_neg (Nat.not_lt.mpr hcap), if_pos h]

theorem front_whole (hcap : declared x ≤ max) (h : lenPrefix + declared x ≤ x.length) :
    (frames max).front x = .item ((x.drop lenPrefix).take (declared x))
      (x.drop (lenPrefix + declared x)) := by
  show (if _ then _ else _) = _
  rw [if_neg (by omega), if_neg (by omega), if_neg (by omega)]

/-- More bytes are needed: the prefix is not complete, or it is within the cap and the body not. -/
theorem front_eq_more (h : (frames max).front x = .more) :
    x.length < lenPrefix ∨ declared x ≤ max ∧ x.length < lenPrefix + declared x := by
  change (if _ then _ else _) = _ at h
  split_ifs at h with h1 h2 h3
  · exact .inl h1
  · exact .inr ⟨by omega, h3⟩

end Front

/-- Two buffers from which every continuation decodes alike. -/
def Alike (max : Nat) (x y : Bytes) : Prop :=
  ∀ more, (frames max).drain (x ++ more) = (frames max).drain (y ++ more)

/-- What a call returns for the error that ended the frames. -/
def resultOf (max : UInt32) : Option Nat → FeedResult
  | none => .ok
  | some len => .frameTooLong len max.toNat

namespace Alike

variable {max : Nat} {x y z : Bytes}

theorem refl (x : Bytes) : Alike max x x := fun _ => rfl

theorem symm (h : Alike max x y) : Alike max y x := fun more => (h more).symm

theorem trans (h : Alike max x y) (h' : Alike max y z) : Alike max x z :=
  fun more => (h more).trans (h' more)

theorem append (h : Alike max x y) (w : Bytes) : Alike max (x ++ w) (y ++ w) := by
  intro more
  rw [append_assoc, append_assoc]
  exact h (w ++ more)

/-- Behind a bad prefix nothing matters. -/
theorem of_bad {e : Nat} {kept : Bytes} (h : (frames max).front x = .bad e kept) :
    Alike max x kept := by
  intro more
  rw [Drain.Parser.drain_bad ((frames max).bad_append more h),
    Drain.Parser.drain_bad ((frames max).bad_append more ((frames max).bad_kept h))]

/-- Behind a whole frame only what is alike behind it matters. -/
theorem behind {w : Bytes} (hw : w.length = lenPrefix + declared w) (h : Alike max x y) :
    Alike max (w ++ x) (w ++ y) := by
  intro more
  rw [append_assoc, append_assoc]
  by_cases hcap : declared w ≤ max
  · have hfront := front_whole hcap hw.ge
    rw [drop_eq_nil_of_le hw.le] at hfront
    rw [Drain.Parser.drain_item ((frames max).item_append (x ++ more) hfront),
      Drain.Parser.drain_item ((frames max).item_append (y ++ more) hfront), nil_append,
      nil_append, h more]
  · have hfront := front_over (x := w) (by omega) (Nat.lt_of_not_le hcap)
    rw [Drain.Parser.drain_bad ((frames max).bad_append (x ++ more) hfront),
      Drain.Parser.drain_bad ((frames max).bad_append (y ++ more) hfront)]

end Alike

/-! ## The loops of `extend` -/

/-- The outcome of a drain from a buffer. -/
abbrev outcome (d : FrameDecoder) (bytes : Bytes) : Drain.Outcome UInt8 Bytes Nat :=
  (frames d.max.toNat).drain (d.partialFrame ++ bytes)

/-- What a call that decodes `bytes` behind the buffer has to do. On an error a raw tail may
    stay behind the bad prefix, where nothing looks at it. -/
structure Decodes (d : FrameDecoder) (bytes : Bytes) (r : FeedResult × FrameDecoder) : Prop where
  result : r.1 = resultOf d.max (d.outcome bytes).error
  ready : r.2.ready = d.ready ++ (d.outcome bytes).items
  max : r.2.max = d.max
  left : (frames d.max.toNat).Settled d.partialFrame → r.2.partialFrame = (d.outcome bytes).left
  drained : (d.outcome bytes).error = none → r.2.partialFrame = (d.outcome bytes).left
  alike : Alike d.max.toNat r.2.partialFrame (d.outcome bytes).left

namespace Decodes

variable {d d' : FrameDecoder} {bytes : Bytes} {r : FeedResult × FrameDecoder}

/-- The buffer cannot be decoded any further. -/
theorem of_more (h : (frames d.max.toNat).front (d.partialFrame ++ bytes) = .more)
    (hbuf : r.2 = { d with partialFrame := d.partialFrame ++ bytes }) (hr : r.1 = .ok) :
    d.Decodes bytes r := by
  have ho : d.outcome bytes = ⟨[], d.partialFrame ++ bytes, none⟩ := Drain.Parser.drain_more h
  constructor
  · rw [ho, hr]
    rfl
  · rw [ho, hbuf, append_nil]
  · rw [hbuf]
  · rw [ho, hbuf]
    exact fun _ => rfl
  · rw [ho, hbuf]
    exact fun _ => rfl
  · rw [ho, hbuf]
    exact .refl _

/-- The buffer, or as much of it as was taken, ends in a bad prefix. -/
theorem of_bad {len : Nat} {kept buf : Bytes}
    (h : (frames d.max.toNat).front (d.partialFrame ++ bytes) = .bad len kept)
    (hbuf : r.2 = { d with partialFrame := buf }) (halike : Alike d.max.toNat buf kept)
    (hkept : (frames d.max.toNat).Settled d.partialFrame → buf = kept)
    (hr : r.1 = .frameTooLong len d.max.toNat) : d.Decodes bytes r := by
  have ho : d.outcome bytes = ⟨[], kept, some len⟩ := Drain.Parser.drain_bad h
  constructor
  · rw [ho, hr]
    rfl
  · rw [ho, hbuf, append_nil]
  · rw [hbuf]
  · rw [ho, hbuf]
    exact hkept
  · rw [ho]
    exact nofun
  · rw [ho, hbuf]
    exact halike

/-- A frame was taken and the rest is decoded. -/
theorem of_item {frame rest bytes' : Bytes}
    (h : (frames d.max.toNat).front (d.partialFrame ++ bytes) = .item frame rest)
    (hready : d'.ready = d.ready ++ [frame]) (hmax : d'.max = d.max)
    (hrest : d'.partialFrame ++ bytes' = rest)
    (hsettled : (frames d.max.toNat).Settled d.partialFrame →
      (frames d.max.toNat).Settled d'.partialFrame)
    (hd : d'.Decodes bytes' r) : d.Decodes bytes r := by
  have ho : d.outcome bytes
      = { d'.outcome bytes' with items := frame :: (d'.outcome bytes').items } := by
    rw [outcome, Drain.Parser.drain_item h, outcome, hrest, hmax]
  constructor
  · rw [hd.result, hmax, ho]
  · rw [hd.ready, hready, ho, append_assoc, singleton_append]
  · rw [hd.max, hmax]
  · rw [ho]
    intro h
    apply hd.left
    rw [hmax]
    exact hsettled h
  · rw [ho]
    exact hd.drained
  · rw [ho, ← hmax]
    exact hd.alike

end Decodes

theorem drainLoop_decodes {fuel : Nat} {d : FrameDecoder} (hfuel : d.partialFrame.length ≤ fuel) :
    d.Decodes [] (drainLoop fuel d) := by
  induction fuel generalizing d with
  | zero =>
    have hnil : d.partialFrame = [] := eq_nil_of_length_eq_zero (by omega)
    apply Decodes.of_more _ _ rfl
    · rw [hnil]
      exact front_short (by decide)
    · rw [append_nil]
      rfl
  | succ fuel ih =>
    have hbuf : d.partialFrame ++ [] = d.partialFrame := append_nil _
    simp only [drainLoop]
    split_ifs with hshort hover hpart
    · exact .of_more (by rw [hbuf]; exact front_short hshort) (by rw [hbuf]) rfl
    · have hfront := front_over (Nat.le_of_not_lt hshort) hover
      refine .of_bad (by rw [hbuf]; exact hfront) rfl (.of_bad hfront) ?_ rfl
      rintro (h | ⟨e, h⟩) <;> rw [h] at hfront
      · cases hfront
      · exact (Drain.Front.bad.inj hfront).2
    · have hfront := front_unfinished (Nat.le_of_not_lt hover) hpart
      exact .of_more (by rw [hbuf]; exact hfront) (by rw [hbuf]) rfl
    · have hfront := front_whole (Nat.le_of_not_lt hover) (Nat.le_of_not_lt hpart)
      rw [← hbuf] at hfront
      refine .of_item hfront ?_ ?_ ?_ ?_ (ih ?_)
      · rw [hbuf, drop_take, Nat.add_sub_cancel_left]
      · rfl
      · rw [hbuf, append_nil]
      · rw [hbuf] at hfront
        rintro (h | ⟨e, h⟩) <;> rw [h] at hfront <;> cases hfront
      · simp only [length_drop, lenPrefix] at hshort ⊢
        omega

/-- What one gathering finds at the front of the buffer and the bytes behind it. -/
def Gathered.Finds (max : UInt32) (x : Bytes) (g : Gathered) (n : Nat) : Prop :=
  match g with
  | .waiting buf => buf = x ∧ (frames max.toNat).front x = .more
  | .tooLong len buf => (frames max.toNat).front x = .bad len buf
  | .underflow _ => False
  | .whole frame rest => (frames max.toNat).front x = .item frame rest ∧ rest.length < n

theorem gatherBody_finds {max : UInt32} {buf : Bytes} (bytes : Bytes) {n : Nat}
    (hlen : lenPrefix ≤ buf.length) (hover : max.toNat < declared buf → buf.length = lenPrefix)
    (hcap : declared buf ≤ max.toNat → buf.length ≤ lenPrefix + declared buf)
    (hn : bytes.length < n ∨ buf.length < lenPrefix + declared buf ∧ bytes.length ≤ n) :
    (gatherBody max buf bytes).Finds max (buf ++ bytes) n := by
  have hdecl : declared (buf ++ bytes) = declared buf := declared_append hlen bytes
  have hle : lenPrefix ≤ (buf ++ bytes).length := by
    rw [length_append]
    omega
  simp only [gatherBody]
  split_ifs with hmax hunder htotal
  · have hfront := front_over hle (hdecl ▸ hmax)
    rwa [hdecl, take_append_of_le_length hlen, take_of_length_le (hover hmax).le]
      at hfront
  · exact absurd (hcap (Nat.le_of_not_lt hmax)) (Nat.not_le.mpr hunder)
  · rw [length_append, length_take] at htotal
    have htake : min (lenPrefix + declared buf - buf.length) bytes.length
        = lenPrefix + declared buf - buf.length := by omega
    have hfront := front_whole (x := buf ++ bytes) (hdecl ▸ Nat.le_of_not_lt hmax)
      (by rw [hdecl, length_append]; omega)
    rw [htake]
    refine ⟨?_, ?_⟩
    · have hframe : buf ++ bytes.take (lenPrefix + declared buf - buf.length)
          = (buf ++ bytes).take (lenPrefix + declared buf) := by
        rw [take_append, take_of_length_le (Nat.le_of_not_lt hunder)]
      have hrest : bytes.drop (lenPrefix + declared buf - buf.length)
          = (buf ++ bytes).drop (lenPrefix + declared buf) := by
        rw [drop_append, drop_eq_nil_of_le (Nat.le_of_not_lt hunder), nil_append]
      rw [hframe, hrest, hfront, hdecl, drop_take, Nat.add_sub_cancel_left]
    · rw [length_drop]
      omega
  · rw [length_append, length_take] at htotal
    have htake : min (lenPrefix + declared buf - buf.length) bytes.length = bytes.length := by
      omega
    rw [htake, take_length]
    refine ⟨rfl, front_unfinished (hdecl ▸ Nat.le_of_not_lt hmax) ?_⟩
    rw [hdecl, length_append]
    omega

theorem gather_finds {max : UInt32} {buf : Bytes} (bytes : Bytes)
    (hmore : (frames max.toNat).front buf = .more) :
    (gather max buf bytes).Finds max (buf ++ bytes) bytes.length := by
  simp only [gather]
  split_ifs with hlt hshort
  · rw [length_append, length_take] at hshort
    have htake : min (lenPrefix - buf.length) bytes.length = bytes.length := by omega
    rw [htake, take_length]
    refine ⟨rfl, front_short ?_⟩
    rw [length_append]
    omega
  · have hbuf : (buf ++ bytes.take (min (lenPrefix - buf.length) bytes.length)).length
        = lenPrefix := by
      rw [length_append, length_take] at hshort ⊢
      omega
    have hrest : (bytes.drop (min (lenPrefix - buf.length) bytes.length)).length <
        bytes.length := by
      rw [length_append, length_take] at hbuf
      rw [length_drop]
      omega
    have hfinds : Gathered.Finds max _ _ bytes.length :=
      gatherBody_finds _ hbuf.ge (fun _ => hbuf) (fun _ => by omega) (.inl hrest)
    rwa [append_assoc, take_append_drop] at hfinds
  · obtain hlt' | ⟨hcap, hpart⟩ := front_eq_more hmore
    · exact absurd hlt' hlt
    · exact gatherBody_finds bytes (Nat.le_of_not_lt hlt) (by omega) (fun _ => hpart.le)
        (.inr ⟨hpart, le_rfl⟩)

/-- The loop of `extend` starts from a buffer `drain_buffered` is done with. -/
theorem extendLoop_decodes {fuel : Nat} {d : FrameDecoder} {bytes : Bytes}
    (hfuel : bytes.length < fuel) (hmore : (frames d.max.toNat).front d.partialFrame = .more) :
    d.Decodes bytes (extendLoop fuel d bytes) := by
  induction fuel generalizing d bytes with
  | zero => omega
  | succ fuel ih =>
    rw [extendLoop]
    split
    next hnil =>
      rw [hnil]
      exact .of_more (by rwa [append_nil]) (by rw [append_nil]) rfl
    next hne =>
      have hfinds := gather_finds bytes hmore
      cases hg : gather d.max d.partialFrame bytes with rw [hg] at hfinds
      | waiting buf =>
        obtain ⟨rfl, hfront⟩ := hfinds
        exact .of_more hfront rfl rfl
      | tooLong len buf => exact .of_bad hfinds rfl (.refl _) (fun _ => rfl) rfl
      | underflow buf => exact hfinds.elim
      | whole frame rest =>
        obtain ⟨hfront, hlt⟩ := hfinds
        have hnil : (frames d.max.toNat).front [] = .more := front_short (by decide)
        refine .of_item hfront ?_ ?_ ?_ (fun _ => .inl hnil) (ih ?_ ?_)
        · rfl
        · rfl
        · rfl
        · omega
        · exact hnil

/-- `extend` decodes, whatever the buffer holds. -/
theorem extend_decodes (d : FrameDecoder) (bytes : Bytes) : d.Decodes bytes (d.extend bytes) := by
  have hdrain : d.Decodes [] d.drainBuffered := drainLoop_decodes le_rfl
  obtain ⟨r, d', hr⟩ : ∃ r d', d.drainBuffered = (r, d') := ⟨_, _, rfl⟩
  rw [hr] at hdrain
  obtain ⟨hresult, hready, hmax, hleft, hdrained, halike⟩ := hdrain
  simp only [outcome, append_nil] at hresult hready hleft hdrained halike
  simp only [extend, hr]
  cases he : ((frames d.max.toNat).drain d.partialFrame).error with
  | none =>
    -- The buffer is down to one frame at most, and the loop decodes behind it.
    rw [he] at hresult
    obtain rfl : r = .ok := hresult
    have hmore : (frames d'.max.toNat).front d'.partialFrame = .more := by
      rw [hdrained he, hmax]
      exact Drain.Parser.front_left he
    have hd : d'.Decodes bytes (extendLoop (bytes.length + 1) d' bytes) :=
      extendLoop_decodes (Nat.lt_succ_self _) hmore
    have ho : d.outcome bytes = { d'.outcome bytes with items :=
        ((frames d.max.toNat).drain d.partialFrame).items ++ (d'.outcome bytes).items } := by
      rw [outcome, Drain.Parser.drain_append, outcome, hdrained he, hmax]
    constructor
    · rw [hd.result, ho, hmax]
    · rw [hd.ready, hready, ho, append_assoc]
    · rw [hd.max, hmax]
    · rw [ho]
      exact fun _ => hd.left (.inl hmore)
    · rw [ho]
      exact hd.drained
    · rw [ho, ← hmax]
      exact hd.alike
  | some len =>
    rw [he] at hresult
    obtain rfl : r = .frameTooLong len d.max.toNat := hresult
    have ho : d.outcome bytes = (frames d.max.toNat).drain d.partialFrame :=
      Drain.Parser.drain_append_of_error he bytes
    constructor
    · rw [ho, he]
      rfl
    · rw [ho, hready]
    · exact hmax
    · rw [ho]
      exact hleft
    · rw [ho]
      exact hdrained
    · rw [ho]
      exact halike

/-! ## The raw tail behind the hello -/

/-- The walk over the tail only cuts behind a prefix over the final cap. -/
theorem tailLoop_alike {max : Nat} (hmax : max ≤ maxFrameLen) (fuel : Nat) (d : FrameDecoder)
    (off : Nat) :
    ∃ t, (tailLoop fuel d off).2 = { d with partialFrame := d.partialFrame.take off ++ t } ∧
      Alike max t (d.partialFrame.drop off) ∧ (tailLoop fuel d off).1 ≠ .underflow := by
  induction fuel generalizing off with
  | zero => exact ⟨d.partialFrame.drop off, by rw [take_append_drop]; rfl, .refl _, nofun⟩
  | succ fuel ih =>
    simp only [tailLoop]
    split_ifs with hoff hover hnext
    · -- A prefix over the final cap is over every cap below it.
      refine ⟨(d.partialFrame.drop off).take lenPrefix, ?_, ?_, nofun⟩
      · rw [take_add]
      · have hfront := front_over (x := d.partialFrame.drop off) (by rw [length_drop]; omega)
          (Nat.lt_of_le_of_lt hmax hover)
        exact (Alike.of_bad hfront).symm
    · exact ⟨d.partialFrame.drop off, by rw [take_append_drop], .refl _, nofun⟩
    · obtain ⟨t, ht, halike, hok⟩ := ih (off + lenPrefix + declared (d.partialFrame.drop off))
      rw [Nat.add_assoc] at ht halike hok hnext ⊢
      rw [← drop_drop] at halike
      refine ⟨(d.partialFrame.drop off).take (lenPrefix + declared (d.partialFrame.drop off)) ++ t,
        ?_, ?_, hok⟩
      · rw [ht, take_add, append_assoc]
      · have hw := declared_take_whole (x := d.partialFrame.drop off)
          (by rw [length_drop]; omega)
        have hbehind := halike.behind hw
        rwa [take_append_drop] at hbehind
    · exact ⟨d.partialFrame.drop off, by rw [take_append_drop], .refl _, nofun⟩

theorem bufferCappedTail_alike {max : Nat} (d : FrameDecoder) (bytes : Bytes)
    (hmax : max ≤ maxFrameLen) :
    ∃ t, (d.bufferCappedTail bytes).2 = { d with partialFrame := t } ∧
      Alike max t (d.partialFrame ++ bytes) ∧ (d.bufferCappedTail bytes).1 ≠ .underflow := by
  exact tailLoop_alike hmax (d.partialFrame ++ bytes).length
    { d with partialFrame := d.partialFrame ++ bytes } 0

end FrameDecoder

end Viewstamp
