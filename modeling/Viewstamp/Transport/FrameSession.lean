import Viewstamp.Transport.Frame

/- A decoder in use, from its first byte on.

   A session is the calls a connection makes on its decoder: it feeds reads, takes
   frames, and a QUIC connection decodes its hello under a small cap before it raises
   it. Past the hello a session follows the stream: at every moment what it has
   yielded, what it retains and its verdict are those of the bytes fed so far. Under
   the hello's cap it does not follow yet, but it holds all it needs to (`Serves`), and
   the first `extend` catches up. -/
namespace Viewstamp

open List

namespace FrameDecoder

variable {hello cap : UInt32} {x rest : Bytes} {len : Nat}

/-- The calls a connection makes on its decoder. -/
inductive Call where
  | extend (bytes : Bytes)
  | extendFirst (bytes : Bytes)
  | setMax (max : UInt32)
  | nextFrame

/-- A decoder in use: what its feeding calls returned and the frames taken from it. -/
structure Session where
  decoder : FrameDecoder
  results : List FeedResult := []
  popped : List Bytes := []

namespace Session

def call (s : Session) : Call → Session
  | .extend bytes =>
    let r := s.decoder.extend bytes
    { s with decoder := r.2, results := s.results ++ [r.1] }
  | .extendFirst bytes =>
    let r := s.decoder.extendFirst bytes
    { s with decoder := r.2, results := s.results ++ [r.1] }
  | .setMax max => { s with decoder := s.decoder.setMax max }
  | .nextFrame =>
    let r := s.decoder.nextFrame
    { s with decoder := r.2, popped := s.popped ++ r.1.toList }

def run (s : Session) (calls : List Call) : Session := calls.foldl call s

/-- All frames so far, those still queued included. -/
def yielded (s : Session) : List Bytes := s.popped ++ s.decoder.ready

/-- What the latest feeding call returned. -/
def verdict (s : Session) : FeedResult := s.results.getLastD .ok

end Session

/-- The calls of a connection past its hello, each with the bytes it feeds. -/
def Call.fed : Call → Bytes
  | .extend bytes => bytes
  | _ => []

/-- The bytes these calls feed to `extend`. -/
def fed (calls : List Call) : Bytes := calls.flatMap Call.fed

/-- Only `extend` and `next_frame`. -/
def Steady : Call → Prop
  | .extend _ | .nextFrame => True
  | _ => False

/-! ## Whole sessions -/

/-- From here on the session serves the frames of the stream: what it has yielded and what its
    buffer holds are the stream so far, however it goes on. -/
structure Session.Serves (cap : UInt32) (x : Bytes) (s : Session) : Prop where
  max : s.decoder.max = cap
  served : ∀ more, s.yielded ++ ((frames cap.toNat).drain (s.decoder.partialFrame ++ more)).items
    = ((frames cap.toNat).drain (x ++ more)).items
  failing : ∀ more, ((frames cap.toNat).drain (s.decoder.partialFrame ++ more)).error
    = ((frames cap.toNat).drain (x ++ more)).error
  sound : .underflow ∉ s.results

/-- The session has yielded all frames of the stream so far and has seen its error. -/
structure Session.Caught (cap : UInt32) (x : Bytes) (s : Session) : Prop extends
    Session.Serves cap x s where
  yielded : s.yielded = ((frames cap.toNat).drain x).items
  verdict : s.verdict = resultOf cap ((frames cap.toNat).drain x).error

/-- It has, and its buffer is what is left of the stream. -/
structure Session.Follows (cap : UInt32) (x : Bytes) (s : Session) : Prop extends
    Session.Caught cap x s where
  left : s.decoder.partialFrame = ((frames cap.toNat).drain x).left

theorem resultOf_ne_underflow (max : UInt32) (e : Option Nat) : resultOf max e ≠ .underflow := by
  cases e <;> exact nofun

namespace Session

variable {cap : UInt32} {x : Bytes} {s : Session}

theorem yielded_nextFrame (s : Session) : (s.call .nextFrame).yielded = s.yielded := by
  simp only [call, nextFrame, yielded]
  cases hr : s.decoder.ready with simp [hr]

theorem partialFrame_nextFrame (s : Session) :
    (s.call .nextFrame).decoder.partialFrame = s.decoder.partialFrame := by
  simp only [call, nextFrame]
  split <;> rfl

theorem max_nextFrame (s : Session) : (s.call .nextFrame).decoder.max = s.decoder.max := by
  simp only [call, nextFrame]
  split <;> rfl

theorem Serves.nextFrame (h : s.Serves cap x) : (s.call .nextFrame).Serves cap x := by
  constructor
  · rw [max_nextFrame, h.max]
  · intro more
    rw [yielded_nextFrame, partialFrame_nextFrame, h.served]
  · intro more
    rw [partialFrame_nextFrame, h.failing]
  · exact h.sound

theorem Caught.nextFrame (h : s.Caught cap x) : (s.call .nextFrame).Caught cap x :=
  ⟨h.toServes.nextFrame, (yielded_nextFrame s).trans h.yielded, h.verdict⟩

theorem Follows.nextFrame (h : s.Follows cap x) : (s.call .nextFrame).Follows cap x :=
  ⟨h.toCaught.nextFrame, (partialFrame_nextFrame s).trans h.left⟩

/-- A call of `extend` catches up with the stream. -/
theorem Serves.extend (h : s.Serves cap x) (bytes : Bytes) :
    (s.call (.extend bytes)).Caught cap (x ++ bytes) := by
  have hd := extend_decodes s.decoder bytes
  have hresult := hd.result
  have hready := hd.ready
  have halike := hd.alike
  simp only [outcome, h.max] at hresult hready halike
  have hyield : (s.call (.extend bytes)).yielded
      = s.yielded ++ ((frames cap.toNat).drain (s.decoder.partialFrame ++ bytes)).items := by
    simp only [call, Session.yielded, hready, append_assoc]
  have hmore : ∀ more, (frames cap.toNat).drain (s.decoder.partialFrame ++ (bytes ++ more)) =
      { (frames cap.toNat).drain ((s.call (.extend bytes)).decoder.partialFrame ++ more) with
        items := ((frames cap.toNat).drain (s.decoder.partialFrame ++ bytes)).items ++
          ((frames cap.toNat).drain
            ((s.call (.extend bytes)).decoder.partialFrame ++ more)).items } := by
    intro more
    rw [← append_assoc, Drain.Parser.drain_append, ← halike more]
    rfl
  refine ⟨⟨?_, ?_, ?_, ?_⟩, ?_, ?_⟩
  · rw [← h.max]
    exact hd.max
  · intro more
    rw [append_assoc, ← h.served, hmore, hyield, append_assoc]
  · intro more
    rw [append_assoc, ← h.failing, hmore]
  · simp only [call, mem_append, mem_singleton, not_or]
    refine ⟨h.sound, ?_⟩
    rw [hresult]
    exact (resultOf_ne_underflow _ _).symm
  · rw [hyield, h.served]
  · rw [← h.failing, ← hresult]
    simp [call, Session.verdict]

theorem Follows.extend (h : s.Follows cap x) (bytes : Bytes) :
    (s.call (.extend bytes)).Follows cap (x ++ bytes) := by
  refine ⟨h.toServes.extend bytes, ?_⟩
  have hsettled : (frames s.decoder.max.toNat).Settled s.decoder.partialFrame := by
    rw [h.max, h.left]
    exact (frames cap.toNat).settled_left x
  have hleft := (extend_decodes s.decoder bytes).left hsettled
  rw [outcome, h.max, h.left] at hleft
  rw [Drain.Parser.drain_append]
  exact hleft

variable {calls : List Call}

/-- What every call past the hello keeps, a session of them keeps. -/
theorem run_steady {P : Bytes → Session → Prop}
    (hextend : ∀ x s bytes, P x s → P (x ++ bytes) (s.call (.extend bytes)))
    (hnext : ∀ x s, P x s → P x (s.call .nextFrame)) (h : P x s) (hsteady : ∀ c ∈ calls, Steady c) :
    P (x ++ fed calls) (s.run calls) := by
  induction calls generalizing s x with
  | nil => simpa [fed, Session.run] using h
  | cons c calls ih =>
    have hrest := fun c' hc' => hsteady c' (mem_cons_of_mem c hc')
    cases c with
    | extend bytes =>
      have hrun := ih (hextend x s bytes h) hrest
      rwa [append_assoc] at hrun
    | nextFrame => exact ih (hnext x s h) hrest
    | extendFirst | setMax => exact (hsteady _ (mem_cons_self ..)).elim

/-- The first call of `extend` catches up, and the session keeps up from there. -/
theorem Serves.run (h : s.Serves cap x) (hsteady : ∀ c ∈ calls, Steady c)
    (hextend : ∃ bytes, .extend bytes ∈ calls) : (s.run calls).Caught cap (x ++ fed calls) := by
  induction calls generalizing s with
  | nil =>
    obtain ⟨bytes, hmem⟩ := hextend
    cases hmem
  | cons c calls ih =>
    have hrest := fun c' hc' => hsteady c' (mem_cons_of_mem c hc')
    cases c with
    | extend bytes =>
      have hrun := run_steady (P := Caught cap) (fun _ _ bytes h => h.toServes.extend bytes)
        (fun _ _ h => h.nextFrame) (h.extend bytes) hrest
      rwa [append_assoc] at hrun
    | nextFrame =>
      obtain ⟨bytes, hmem⟩ := hextend
      obtain hmem | hmem := mem_cons.mp hmem
      · cases hmem
      · exact ih h.nextFrame hrest ⟨bytes, hmem⟩
    | extendFirst | setMax => exact (hsteady _ (mem_cons_self ..)).elim

theorem follows_start (cap : UInt32) : Follows cap [] { decoder := new cap } := by
  have hnil : (frames cap.toNat).drain [] = ⟨[], [], none⟩ :=
    Drain.Parser.drain_more (front_short (by decide))
  refine ⟨⟨⟨rfl, fun _ => rfl, fun _ => rfl, nofun⟩, ?_, ?_⟩, ?_⟩ <;> rw [hnil] <;> rfl

/-- A session of `extend` and `next_frame` follows the stream. -/
theorem follows_run (cap : UInt32) (hsteady : ∀ c ∈ calls, Steady c) :
    (run { decoder := new cap } calls).Follows cap (fed calls) :=
  run_steady (P := Follows cap) (fun _ _ bytes h => h.extend bytes) (fun _ _ h => h.nextFrame)
    (follows_start cap) hsteady

end Session

/-! ## The hello first -/

/-- The first frame of the stream, if its length has arrived, fits the hello's cap. -/
def FirstFits (hello : UInt32) (x : Bytes) : Prop :=
  x.length < lenPrefix ∨ declared x ≤ hello.toNat

instance (hello : UInt32) (x : Bytes) : Decidable (FirstFits hello x) :=
  inferInstanceAs (Decidable (_ ∨ _))

theorem FirstFits.of_append {x y : Bytes} (h : FirstFits hello (x ++ y)) : FirstFits hello x := by
  by_cases hshort : x.length < lenPrefix
  · exact .inl hshort
  · obtain h | h := h
    · rw [length_append] at h
      omega
    · rw [declared_append (Nat.le_of_not_lt hshort)] at h
      exact .inr h

theorem front_item_of_le {max cap : Nat} {x frame rest : Bytes} (hle : max ≤ cap)
    (h : (frames max).front x = .item frame rest) : (frames cap).front x = .item frame rest := by
  change (if _ then _ else _) = _ at h
  split_ifs at h with hshort hover hpart
  rw [← h]
  exact front_whole (by omega) (Nat.le_of_not_lt hpart)

theorem FirstFits.front_ne_bad (h : FirstFits hello x) {kept : Bytes} :
    (frames hello.toNat).front x ≠ .bad len kept := by
  intro hbad
  change (if _ then _ else _) = _ at hbad
  split_ifs at hbad with hshort hover
  obtain h | h := h <;> omega

/-- Under the hello's cap: the hello is still coming, or it is decoded and the buffer is as good
    as everything behind it. -/
structure Greets (hello cap : UInt32) (x : Bytes) (d : FrameDecoder) : Prop where
  max : d.max = hello
  buffered : (d.ready = [] ∧ d.partialFrame = x ∧ (frames hello.toNat).front x = .more) ∨
    ∃ frame rest, (frames cap.toNat).front x = .item frame rest ∧ d.ready = [frame] ∧
      Alike cap.toNat d.partialFrame rest

namespace Greets

variable {hello cap : UInt32} {x : Bytes} {d : FrameDecoder}

/-- The tail is kept raw. -/
theorem tail {frame rest : Bytes} (hmax : d.max = hello) (hcap : cap.toNat ≤ maxFrameLen)
    (hready : d.ready = [frame]) {bytes : Bytes}
    (hfront : (frames cap.toNat).front x = .item frame rest)
    (halike : Alike cap.toNat (d.partialFrame ++ bytes) rest) :
    Greets hello cap x (d.bufferCappedTail bytes).2 ∧
      (d.bufferCappedTail bytes).1 ≠ .underflow := by
  obtain ⟨t, ht, htail, hok⟩ := bufferCappedTail_alike d bytes hcap
  refine ⟨?_, hok⟩
  rw [ht]
  exact ⟨hmax, .inr ⟨frame, rest, hfront, hready, htail.trans halike⟩⟩

theorem extendFirst (h : Greets hello cap x d) (hle : hello.toNat ≤ cap.toNat)
    (hcap : cap.toNat ≤ maxFrameLen) {bytes : Bytes} (hfits : FirstFits hello (x ++ bytes)) :
    Greets hello cap (x ++ bytes) (d.extendFirst bytes).2 ∧
      (d.extendFirst bytes).1 ≠ .underflow := by
  obtain ⟨hmax, ⟨hready, rfl, hmore⟩ | ⟨frame, rest, hfront, hready, halike⟩⟩ := h
  · -- The hello is still coming: gather it.
    have hfinds := gather_finds bytes hmore
    simp only [FrameDecoder.extendFirst, hready, ne_eq, not_true_eq_false, if_false, hmax]
    cases hg : gather hello d.partialFrame bytes with rw [hg] at hfinds
    | waiting buf =>
      obtain ⟨rfl, hfront⟩ := hfinds
      exact ⟨⟨rfl, .inl ⟨rfl, rfl, hfront⟩⟩, nofun⟩
    | tooLong len buf => exact (hfits.front_ne_bad hfinds).elim
    | underflow buf => exact hfinds.elim
    | whole frame rest =>
      refine tail ?_ hcap ?_ (front_item_of_le hle hfinds.1) ?_
      · rfl
      · rfl
      · exact .refl _
  · rw [FrameDecoder.extendFirst, if_pos (by rw [hready]; exact nofun)]
    exact tail hmax hcap hready ((frames cap.toNat).item_append bytes hfront) (halike.append bytes)

end Greets

namespace Session

variable {hello cap : UInt32} {x : Bytes} {s : Session}

/-- Whatever reads the hello and what follows it come in, the decoder greets the stream. -/
theorem greets_run (hle : hello.toNat ≤ cap.toNat) (hcap : cap.toNat ≤ maxFrameLen)
    (chunks : List Bytes) (hgreets : Greets hello cap x s.decoder) (hsound : .underflow ∉ s.results)
    (hpopped : s.popped = []) (hfits : FirstFits hello (x ++ chunks.flatten)) :
    Greets hello cap (x ++ chunks.flatten) (s.run (chunks.map .extendFirst)).decoder ∧
      .underflow ∉ (s.run (chunks.map .extendFirst)).results ∧
      (s.run (chunks.map .extendFirst)).popped = [] := by
  induction chunks generalizing s x with
  | nil => simpa [Session.run] using ⟨hgreets, hsound, hpopped⟩
  | cons chunk chunks ih =>
    rw [flatten_cons, ← append_assoc] at hfits ⊢
    obtain ⟨hstep, hok⟩ := hgreets.extendFirst hle hcap hfits.of_append
    apply ih (s := s.call (.extendFirst chunk)) hstep _ hpopped hfits
    simp only [call, mem_append, mem_singleton, not_or]
    exact ⟨hsound, hok.symm⟩

/-- Once the cap is raised, the session serves the frames of the whole stream. -/
theorem serves_setMax (hgreets : Greets hello cap x s.decoder) (hsound : .underflow ∉ s.results)
    (hpopped : s.popped = []) : (s.call (.setMax cap)).Serves cap x := by
  obtain ⟨-, ⟨hready, hbuf, -⟩ | ⟨frame, rest, hfront, hready, halike⟩⟩ := hgreets
  · refine ⟨rfl, ?_, ?_, hsound⟩
    · intro more
      simp only [call, setMax, yielded, hpopped, hready, hbuf, nil_append]
    · intro more
      simp only [call, setMax, hbuf]
  · have hdrain : ∀ more, (frames cap.toNat).drain (x ++ more) =
        { (frames cap.toNat).drain (s.decoder.partialFrame ++ more) with items :=
          frame :: ((frames cap.toNat).drain (s.decoder.partialFrame ++ more)).items } := by
      intro more
      rw [Drain.Parser.drain_item ((frames cap.toNat).item_append more hfront), halike more]
    refine ⟨rfl, ?_, ?_, hsound⟩
    · intro more
      rw [hdrain]
      simp only [call, setMax, yielded, hpopped, hready, nil_append, singleton_append]
    · intro more
      rw [hdrain]
      rfl

end Session

/-! ## Encoded streams -/

theorem declared_beBytes (h : len < 2 ^ 32) (more : Bytes) :
    declared (beBytes lenPrefix len ++ more) = len := by
  rw [declared, take_append_of_le_length (by rw [length_beBytes]),
    take_of_length_le (by rw [length_beBytes])]
  exact ofBeBytes_beBytes (by simpa [lenPrefix] using h)

theorem declared_lt (x : Bytes) (h : lenPrefix ≤ x.length) : declared x < 2 ^ 32 := by
  have hlt := ofBeBytes_lt (x.take lenPrefix)
  rwa [length_take, Nat.min_eq_left h] at hlt

theorem beBytes_declared (h : lenPrefix ≤ x.length) :
    beBytes lenPrefix (declared x) = x.take lenPrefix :=
  beBytes_ofBeBytes_of_length (by rw [length_take, Nat.min_eq_left h])

/-- A frame at the front of a stream is one that was encoded there. -/
theorem front_eq_item_iff {x frame rest : Bytes} :
    (frames cap.toNat).front x = .item frame rest ↔
      x = encodeFrame frame ++ rest ∧ frame.length ≤ cap.toNat := by
  constructor
  · intro h
    change (if _ then _ else _) = _ at h
    split_ifs at h with hshort hover hpart
    obtain ⟨rfl, rfl⟩ := Drain.Front.item.inj h
    have hlen : ((x.drop lenPrefix).take (declared x)).length = declared x := by
      rw [length_take, length_drop]
      omega
    have hx : x.take lenPrefix ++ ((x.drop lenPrefix).take (declared x)
        ++ (x.drop lenPrefix).drop (declared x)) = x := by
      rw [take_append_drop, take_append_drop]
    constructor
    · rw [encodeFrame, hlen, ← lenPrefix, beBytes_declared (by omega), ← drop_drop,
        append_assoc, hx]
    · omega
  · rintro ⟨rfl, hcap⟩
    have h32 : frame.length < 2 ^ 32 := Nat.lt_of_le_of_lt hcap cap.toNat_lt
    have hdecl : declared (encodeFrame frame ++ rest) = frame.length := by
      rw [encodeFrame, append_assoc]
      exact declared_beBytes h32 _
    rw [front_whole (by rw [hdecl]; exact hcap)
      (by rw [hdecl]; simp [encodeFrame, lenPrefix]), hdecl]
    simp [encodeFrame, lenPrefix, drop_append]

/-- A bad front is a length over the cap. -/
theorem front_eq_bad_iff {x kept : Bytes} :
    (frames cap.toNat).front x = .bad len kept ↔
      kept = beBytes lenPrefix len ∧ cap.toNat < len ∧ len < 2 ^ 32 ∧ ∃ more, x = kept ++ more := by
  constructor
  · intro h
    change (if _ then _ else _) = _ at h
    split_ifs at h with hshort hover hpart
    obtain ⟨rfl, rfl⟩ := Drain.Front.bad.inj h
    have hlen := Nat.le_of_not_lt hshort
    exact ⟨(beBytes_declared hlen).symm, hover, declared_lt x hlen, x.drop lenPrefix,
      (take_append_drop ..).symm⟩
  · rintro ⟨rfl, hover, h32, more, rfl⟩
    have hdecl := declared_beBytes h32 more
    rw [front_over (by simp) (by rw [hdecl]; exact hover), hdecl,
      take_append_of_le_length (by rw [length_beBytes]),
      take_of_length_le (by rw [length_beBytes])]

/-- Encoded payloads within the cap are taken off the front in order. -/
theorem drain_encodeFrames {payloads : List Bytes}
    (hcap : ∀ p ∈ payloads, p.length ≤ cap.toNat) (rest : Bytes) :
    (frames cap.toNat).drain (encodeFrames payloads ++ rest) =
      { (frames cap.toNat).drain rest with
        items := payloads ++ ((frames cap.toNat).drain rest).items } := by
  induction payloads with
  | nil => rfl
  | cons payload payloads ih =>
    have hfront : (frames cap.toNat).front (encodeFrame payload ++ (encodeFrames payloads ++ rest))
        = .item payload (encodeFrames payloads ++ rest) :=
      front_eq_item_iff.mpr ⟨rfl, hcap payload (mem_cons_self ..)⟩
    rw [encodeFrames_cons, append_assoc, Drain.Parser.drain_item hfront,
      ih fun p hp => hcap p (mem_cons_of_mem _ hp), cons_append]

/-- A stream fails at a length over the cap behind frames within it, and only there. -/
theorem drain_error
    (h : ((frames cap.toNat).drain x).error = some len) : ∃ payloads more,
    (∀ p ∈ payloads, p.length ≤ cap.toNat) ∧ cap.toNat < len ∧ len < 2 ^ 32 ∧
      x = encodeFrames payloads ++ (beBytes lenPrefix len ++ more) := by
  induction x using (frames cap.toNat).drain_induction with
  | item x frame rest hf ih =>
    rw [Drain.Parser.drain_item hf] at h
    obtain ⟨payloads, more, hcap, hover, h32, rfl⟩ := ih h
    obtain ⟨rfl, hframe⟩ := front_eq_item_iff.mp hf
    refine ⟨frame :: payloads, more, ?_, hover, h32, ?_⟩
    · exact forall_mem_cons.mpr ⟨hframe, hcap⟩
    · rw [encodeFrames_cons, append_assoc]
  | more x hf =>
    rw [Drain.Parser.drain_more hf] at h
    cases h
  | bad x e kept hf =>
    rw [Drain.Parser.drain_bad hf] at h
    cases h
    obtain ⟨rfl, hover, h32, more, rfl⟩ := front_eq_bad_iff.mp hf
    exact ⟨[], more, nofun, hover, h32, rfl⟩

/-! ## The decoder is exact -/

/-- A decoder in use from the start on. -/
def use (cap : UInt32) (calls : List Call) : Session := Session.run { decoder := new cap } calls

/-- A connection's decoder until its peer is authenticated, and from there on. -/
def useFirst (hello cap : UInt32) (chunks : List Bytes) (calls : List Call) : Session :=
  use hello (chunks.map .extendFirst ++ .setMax cap :: calls)

variable {calls : List Call}

/-- Encoded payloads within the cap come out as they went in. -/
theorem use_encodeFrames {payloads : List Bytes}
    (hcap : ∀ p ∈ payloads, p.length ≤ cap.toNat) (hsteady : ∀ c ∈ calls, Steady c)
    (hfed : fed calls = encodeFrames payloads) :
    (use cap calls).yielded = payloads ∧ (use cap calls).verdict = .ok ∧
      (use cap calls).decoder.partialFrame = [] := by
  have hf := Session.follows_run cap hsteady
  have hdrain := drain_encodeFrames hcap []
  have hnil : (frames cap.toNat).drain [] = ⟨[], [], none⟩ :=
    Drain.Parser.drain_more (front_short (by decide))
  rw [append_nil, hnil, append_nil, ← hfed] at hdrain
  refine ⟨hf.yielded.trans ?_, hf.verdict.trans ?_, hf.left.trans ?_⟩ <;> rw [hdrain]
  rfl

/-- The verdict on encoded payloads within the cap, then a length over it, is that length. -/
theorem use_verdict_iff (hsteady : ∀ c ∈ calls, Steady c)
    {len max : Nat} : (use cap calls).verdict = .frameTooLong len max ↔
      max = cap.toNat ∧ cap.toNat < len ∧ len < 2 ^ 32 ∧ ∃ payloads more,
        (∀ p ∈ payloads, p.length ≤ cap.toNat) ∧
          fed calls = encodeFrames payloads ++ (beBytes lenPrefix len ++ more) := by
  have hf := Session.follows_run cap hsteady
  rw [use, hf.verdict]
  constructor
  · intro h
    cases he : ((frames cap.toNat).drain (fed calls)).error with rw [he] at h
    | none => cases h
    | some e =>
      cases h
      obtain ⟨payloads, more, hcap, hover, h32, hfed⟩ := drain_error he
      exact ⟨rfl, hover, h32, payloads, more, hcap, hfed⟩
  · rintro ⟨rfl, hover, h32, payloads, more, hcap, hfed⟩
    have hbad := front_eq_bad_iff.mpr ⟨rfl, hover, h32, more, rfl⟩
    rw [hfed, drain_encodeFrames hcap, Drain.Parser.drain_bad hbad]
    rfl

theorem fed_append (calls calls' : List Call) : fed (calls ++ calls') = fed calls ++ fed calls' :=
  flatMap_append

/-- A decoder that failed keeps failing. -/
theorem use_append_of_error {calls later : List Call} (hsteady : ∀ c ∈ calls ++ later, Steady c)
    (h : (use cap calls).verdict ≠ .ok) :
    (use cap (calls ++ later)).verdict = (use cap calls).verdict := by
  have hf := Session.follows_run cap hsteady
  have hf' := Session.follows_run cap fun c hc => hsteady c (mem_append_left later hc)
  rw [use, hf'.verdict] at h
  rw [use, use, hf.verdict, hf'.verdict, fed_append]
  cases he : ((frames cap.toNat).drain (fed calls)).error with
  | none =>
    rw [he] at h
    exact (h rfl).elim
  | some e => rw [Drain.Parser.drain_append_of_error he, he]

/-- The hello first, then the rest at the final cap, is the stream at that cap. -/
theorem useFirst_caught {chunks : List Bytes} (hle : hello ≤ cap) (hcap : cap.toNat ≤ maxFrameLen)
    (hsteady : ∀ c ∈ calls, Steady c) (hextend : ∃ bytes, .extend bytes ∈ calls)
    (hfits : FirstFits hello (chunks.flatten ++ fed calls)) :
    (useFirst hello cap chunks calls).Caught cap (chunks.flatten ++ fed calls) := by
  have hstart : Greets hello cap [] (new hello) :=
    ⟨rfl, .inl ⟨rfl, rfl, front_short (by decide)⟩⟩
  obtain ⟨hgreets, hsound, hpopped⟩ := Session.greets_run (s := { decoder := new hello })
    (UInt32.le_iff_toNat_le.mp hle) hcap chunks hstart (by exact nofun) rfl hfits.of_append
  rw [useFirst, use, Session.run, foldl_append]
  exact (Session.serves_setMax hgreets hsound hpopped).run hsteady hextend

/-- The decoder is exact. However a stream comes in and whenever frames are taken, `extend`
    yields the frames of the stream, and encoded payloads within the cap come out as they went
    in. It fails once a length over the cap is complete, and from there on. A connection that
    decodes its hello under a smaller cap and the rest at a cap of at most `MAX_FRAME_LEN`
    yields what `extend` alone yields at that cap. No subtraction goes below zero. -/
theorem frames_of_stream :
    (∀ (cap : UInt32) (payloads : List Bytes) (calls : List Call),
      (∀ p ∈ payloads, p.length ≤ cap.toNat) → (∀ c ∈ calls, Steady c) →
      fed calls = encodeFrames payloads →
        (use cap calls).yielded = payloads ∧ (use cap calls).verdict = .ok ∧
          (use cap calls).decoder.partialFrame = []) ∧
    (∀ (cap : UInt32) (calls calls' : List Call), (∀ c ∈ calls, Steady c) →
      (∀ c ∈ calls', Steady c) → fed calls = fed calls' →
        (use cap calls).yielded = (use cap calls').yielded ∧
          (use cap calls).decoder.partialFrame = (use cap calls').decoder.partialFrame ∧
          (use cap calls).verdict = (use cap calls').verdict) ∧
    (∀ (cap : UInt32) (calls : List Call), (∀ c ∈ calls, Steady c) →
      .underflow ∉ (use cap calls).results ∧
      (∀ len max, (use cap calls).verdict = .frameTooLong len max ↔
        max = cap.toNat ∧ cap.toNat < len ∧ len < 2 ^ 32 ∧ ∃ payloads more,
          (∀ p ∈ payloads, p.length ≤ cap.toNat) ∧
            fed calls = encodeFrames payloads ++ (beBytes lenPrefix len ++ more)) ∧
      ∀ later, (∀ c ∈ later, Steady c) → (use cap calls).verdict ≠ .ok →
        (use cap (calls ++ later)).verdict = (use cap calls).verdict) ∧
    (∀ (hello cap : UInt32) (chunks : List Bytes) (calls alone : List Call), hello ≤ cap →
      cap.toNat ≤ maxFrameLen → (∀ c ∈ calls, Steady c) → (∃ bytes, .extend bytes ∈ calls) →
      (∀ c ∈ alone, Steady c) → fed alone = chunks.flatten ++ fed calls →
      FirstFits hello (fed alone) →
        (useFirst hello cap chunks calls).yielded = (use cap alone).yielded ∧
          (useFirst hello cap chunks calls).verdict = (use cap alone).verdict ∧
          .underflow ∉ (useFirst hello cap chunks calls).results) := by
  refine ⟨?_, ?_, ?_, ?_⟩
  · intro cap payloads calls hcap hsteady hfed
    exact use_encodeFrames hcap hsteady hfed
  · intro cap calls calls' hsteady hsteady' hfed
    have hf := Session.follows_run cap hsteady
    have hf' := Session.follows_run cap hsteady'
    rw [hfed] at hf
    exact ⟨hf.yielded.trans hf'.yielded.symm, hf.left.trans hf'.left.symm,
      hf.verdict.trans hf'.verdict.symm⟩
  · intro cap calls hsteady
    refine ⟨(Session.follows_run cap hsteady).sound, fun _ _ => use_verdict_iff hsteady, ?_⟩
    intro later hlater
    exact use_append_of_error (forall_mem_append.mpr ⟨hsteady, hlater⟩)
  · intro hello cap chunks calls alone hle hcap hsteady hextend halone hfed hfits
    have hc := useFirst_caught hle hcap hsteady hextend (hfed ▸ hfits)
    have hf := Session.follows_run cap halone
    rw [hfed] at hf
    exact ⟨hc.yielded.trans hf.yielded.symm, hc.verdict.trans hf.verdict.symm, hc.sound⟩

/-- A peer's first read: an empty hello, then the prefix of a frame one byte over
    `MAX_FRAME_LEN` and the first byte of that frame. -/
def overFinal : Bytes := [0, 0, 0, 0] ++ beBytes lenPrefix (maxFrameLen + 1) ++ [7]

/-- The walk over the tail drops that byte. -/
theorem overFinal_first : use 0 [.extendFirst overFinal, .setMax (2 ^ 25)] =
    { decoder := ⟨beBytes lenPrefix (maxFrameLen + 1), [[]], 2 ^ 25⟩
      results := [.frameTooLong (maxFrameLen + 1) maxFrameLen] } := rfl

/-- So at a higher cap the frame is never complete. -/
theorem useFirst_overFinal (hrest : rest.length = maxFrameLen) :
    (useFirst 0 (2 ^ 25) [overFinal] [.extend rest]).yielded = [[]] := by
  have hd := (extend_decodes ⟨beBytes lenPrefix (maxFrameLen + 1), [[]], 2 ^ 25⟩ rest).ready
  have hdecl : declared (beBytes lenPrefix (maxFrameLen + 1) ++ rest) = maxFrameLen + 1 :=
    declared_beBytes (by decide) rest
  have hfront : (frames (2 ^ 25 : UInt32).toNat).front
      (beBytes lenPrefix (maxFrameLen + 1) ++ rest) = .more := by
    apply front_unfinished <;> rw [hdecl]
    · decide
    · rw [length_append, length_beBytes, hrest]
      omega
  rw [outcome, Drain.Parser.drain_more hfront] at hd
  have hrun : useFirst 0 (2 ^ 25) [overFinal] [.extend rest]
      = (use 0 [.extendFirst overFinal, .setMax (2 ^ 25)]).call (.extend rest) := rfl
  rw [hrun, overFinal_first]
  exact hd

/-- `extend` alone completes it. -/
theorem use_overFinal (hrest : rest.length = maxFrameLen) :
    (use (2 ^ 25) [.extend (overFinal ++ rest)]).yielded = [[], 7 :: rest] := by
  have hfed : fed [.extend (overFinal ++ rest)] = encodeFrames [[], 7 :: rest] := by
    simp [fed, Call.fed, overFinal, encodeFrames, encodeFrame, hrest, lenPrefix]
    rfl
  refine (use_encodeFrames ?_ (by simp [Steady]) hfed).1
  simp [hrest]
  decide

/-- At a cap above `MAX_FRAME_LEN` the hello's tail loses a frame that `extend` alone yields. -/
theorem tail_over_final_lost : ∃ (chunks : List Bytes) (calls alone : List Call),
    (∀ c ∈ calls, Steady c) ∧ (∃ bytes, .extend bytes ∈ calls) ∧ (∀ c ∈ alone, Steady c) ∧
      fed alone = chunks.flatten ++ fed calls ∧ FirstFits 0 (fed alone) ∧
      (useFirst 0 (2 ^ 25) chunks calls).yielded ≠ (use (2 ^ 25) alone).yielded := by
  obtain ⟨rest, hrest⟩ : ∃ rest : Bytes, rest.length = maxFrameLen :=
    ⟨replicate maxFrameLen 0, length_replicate⟩
  refine ⟨[overFinal], [.extend rest], [.extend (overFinal ++ rest)], ?_, ?_, ?_, ?_, ?_, ?_⟩
  · simp [Steady]
  · exact ⟨rest, mem_singleton.mpr rfl⟩
  · simp [Steady]
  · simp [fed, Call.fed]
  · right
    simp [fed, Call.fed, overFinal, declared, lenPrefix, ofBeBytes]
  · rw [useFirst_overFinal hrest, use_overFinal hrest]
    simp

end FrameDecoder

end Viewstamp
