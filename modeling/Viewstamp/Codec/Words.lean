import Mathlib.Tactic.Positivity
import Mathlib.Tactic.Ring
import Viewstamp.Storage

/- Big-endian words and the cursor that reads them.

   Every durable format of the replica is made of words of a fixed width and of
   sequences of them behind a count. A reader takes the bytes that are left and returns
   a value with the bytes it did not need, or says what is wrong; it never looks behind
   the end. Each primitive comes with two lemmas: it reads back what was written, and
   what it read is what was there. -/
namespace Viewstamp

open List

/-! ## Words -/

theorem ofBeBytes_cons (b : UInt8) (bs : Bytes) :
    ofBeBytes (b :: bs) = b.toNat * 256 ^ bs.length + ofBeBytes bs := by
  have hfold : ∀ (bs : Bytes) (acc : Nat), bs.foldl (fun acc b => acc * 256 + b.toNat) acc
      = acc * 256 ^ bs.length + bs.foldl (fun acc b => acc * 256 + b.toNat) 0 := by
    intro bs
    induction bs with
    | nil =>
      intro acc
      simp
    | cons b bs ih =>
      intro acc
      rw [foldl_cons, ih, foldl_cons, ih (0 * 256 + b.toNat), length_cons, pow_succ]
      ring
  rw [ofBeBytes, foldl_cons, hfold, ofBeBytes]
  ring

theorem ofBeBytes_lt (bs : Bytes) : ofBeBytes bs < 256 ^ bs.length := by
  induction bs with
  | nil => simp [ofBeBytes]
  | cons b bs ih =>
    have hb : b.toNat < 256 := b.toNat_lt
    rw [ofBeBytes_cons, length_cons, pow_succ]
    have hmul : b.toNat * 256 ^ bs.length ≤ 255 * 256 ^ bs.length :=
      Nat.mul_le_mul_right _ (by omega)
    omega

theorem beBytes_add_mul (w a n : Nat) : beBytes w (a * 256 ^ w + n) = beBytes w n := by
  induction w generalizing a with
  | zero => rfl
  | succ w ih =>
    have hdiv : (a * 256 ^ (w + 1) + n) / 256 ^ w = a * 256 + n / 256 ^ w := by
      rw [pow_succ, show a * (256 ^ w * 256) + n = n + 256 ^ w * (a * 256) by ring,
        Nat.add_mul_div_left _ _ (by positivity)]
      ring
    have htail : beBytes w (a * 256 ^ (w + 1) + n) = beBytes w n := by
      rw [pow_succ, show a * (256 ^ w * 256) = (a * 256) * 256 ^ w by ring]
      exact ih (a * 256)
    have hhead : UInt8.ofNat (a * 256 + n / 256 ^ w) = UInt8.ofNat (n / 256 ^ w) := by
      apply UInt8.toNat_inj.mp
      simp only [UInt8.toNat_ofNat']
      omega
    rw [beBytes, beBytes, hdiv, htail, hhead]

/-- A byte string is the encoding of the number it stands for. -/
theorem beBytes_ofBeBytes (bs : Bytes) : beBytes bs.length (ofBeBytes bs) = bs := by
  induction bs with
  | nil => rfl
  | cons b bs ih =>
    have hdiv : ofBeBytes (b :: bs) / 256 ^ bs.length = b.toNat := by
      rw [ofBeBytes_cons, Nat.add_comm, Nat.add_mul_div_right _ _ (by positivity),
        Nat.div_eq_of_lt (ofBeBytes_lt bs), Nat.zero_add]
    rw [length_cons, beBytes, hdiv, ofBeBytes_cons, beBytes_add_mul, ih, UInt8.ofNat_toNat]

theorem beBytes_ofBeBytes_of_length {w : Nat} {bs : Bytes} (h : bs.length = w) :
    beBytes w (ofBeBytes bs) = bs := by
  rw [← h]
  exact beBytes_ofBeBytes bs

@[simp] theorem length_beBytes (w n : Nat) : (beBytes w n).length = w := by
  induction w with
  | zero => rfl
  | succ w ih => rw [beBytes, length_cons, ih]

/-- A number that fits is what its encoding stands for. -/
theorem ofBeBytes_beBytes {w n : Nat} (h : n < 256 ^ w) : ofBeBytes (beBytes w n) = n := by
  induction w generalizing n with
  | zero =>
    have hn : n = 0 := by simpa using h
    rw [hn]
    rfl
  | succ w ih =>
    have hdiv : n / 256 ^ w < 256 := by
      rw [pow_succ] at h
      exact Nat.div_lt_of_lt_mul h
    have hmod : beBytes w n = beBytes w (n % 256 ^ w) := by
      conv_lhs => rw [← Nat.div_add_mod n (256 ^ w), Nat.mul_comm]
      exact beBytes_add_mul w (n / 256 ^ w) (n % 256 ^ w)
    rw [beBytes, ofBeBytes_cons, length_beBytes, hmod, ih (Nat.mod_lt _ (by positivity)),
      UInt8.toNat_ofNat', Nat.mod_eq_of_lt hdiv, Nat.mul_comm]
    exact Nat.div_add_mod n (256 ^ w)

/-! ## The reader -/

inductive CodecError where
  | truncated (expected got : Nat)
  | unknownVersion (version : Nat)
  | lengthOverflow (len remaining : Nat)
  | trailingBytes (n : Nat)
  | invalidVsrState (e : VsrStateError)
  | invalidMembershipPresent (flag : Nat)
  deriving DecidableEq

/-- A reader takes the bytes that are left. -/
def Reader (α : Type) := Bytes → Except CodecError (α × Bytes)

namespace Reader

variable {α β : Type}
variable {bs rest : Bytes}

instance : Monad Reader where
  pure a := fun bs => .ok (a, bs)
  bind x f := fun bs =>
    match x bs with
    | .ok (a, rest) => f a rest
    | .error e => .error e

def fail (e : CodecError) : Reader α := fun _ => .error e

/-- A check on what was read; its refusal is reported under the codec's own errors. -/
def ofResult {ε : Type} (report : ε → CodecError) : Except ε α → Reader α
  | .ok a => pure a
  | .error e => fail (report e)

def take (n : Nat) : Reader Bytes := fun bs =>
  if n ≤ bs.length then .ok (bs.take n, bs.drop n) else .error (.truncated n bs.length)

/-- `u8`, `u16`, `u32`, `u64` and `u128`: a big-endian word of so many bytes. -/
def word (w : Nat) : Reader Nat := fun bs =>
  match take w bs with
  | .ok (b, rest) => .ok (ofBeBytes b, rest)
  | .error e => .error e

/-- `seq_len`: a count, refused when the bytes left cannot hold so many elements. -/
def seqLen (minElemLen : Nat) : Reader Nat := fun bs =>
  match word 4 bs with
  | .ok (count, rest) =>
    if rest.length < count * minElemLen then
      .error (.lengthOverflow (count * minElemLen) rest.length)
    else .ok (count, rest)
  | .error e => .error e

def finish : Reader Unit := fun bs =>
  if bs.length = 0 then .ok ((), bs) else .error (.trailingBytes bs.length)

/-- So many values in a row. -/
def many (r : Reader α) : Nat → Reader (List α)
  | 0 => pure []
  | n + 1 => do
    let a ← r
    let as ← many r n
    pure (a :: as)

theorem bind_eq_ok {x : Reader α} {f : α → Reader β} {b : β} :
    (x >>= f) bs = .ok (b, rest) ↔ ∃ a mid, x bs = .ok (a, mid) ∧ f a mid = .ok (b, rest) := by
  show (match x bs with
    | .ok (a, mid) => f a mid
    | .error e => .error e) = .ok (b, rest) ↔ _
  constructor
  · intro h
    split at h
    · rename_i a mid hx
      exact ⟨a, mid, hx, h⟩
    · cases h
  · rintro ⟨a, mid, hx, hf⟩
    rw [hx]
    exact hf

/-- A read that succeeds is followed by the rest. -/
theorem bind_of_ok {x : Reader α} {f : α → Reader β} {bs mid : Bytes} {a : α}
    (h : x bs = .ok (a, mid)) : (x >>= f) bs = f a mid := by
  show (match x bs with
    | .ok (a, mid) => f a mid
    | .error e => .error e) = _
  rw [h]

theorem pure_eq_ok {a b : α} : (pure a : Reader α) bs = .ok (b, rest) ↔ a = b ∧ bs = rest := by
  constructor
  · intro h
    cases h
    exact ⟨rfl, rfl⟩
  · rintro ⟨rfl, rfl⟩
    rfl

theorem ofResult_eq_ok {ε : Type} {report : ε → CodecError} {x : Except ε α} {a : α} :
    ofResult report x bs = .ok (a, rest) ↔ x = .ok a ∧ bs = rest := by
  cases x with
  | ok b =>
    rw [ofResult, pure_eq_ok]
    exact ⟨fun h => ⟨congrArg _ h.1, h.2⟩, fun h => ⟨Except.ok.inj h.1, h.2⟩⟩
  | error e => exact ⟨nofun, fun h => nomatch h.1⟩

theorem take_append {n : Nat} {b rest : Bytes} (h : b.length = n) :
    take n (b ++ rest) = .ok (b, rest) := by
  unfold take
  rw [if_pos (by rw [length_append]; omega), take_left' h, drop_left' h]

theorem take_eq_ok {n : Nat} {b bs rest : Bytes} (h : take n bs = .ok (b, rest)) :
    b.length = n ∧ bs = b ++ rest := by
  unfold take at h
  split at h
  · rename_i hle
    cases h
    exact ⟨length_take_of_le hle, (take_append_drop n bs).symm⟩
  · cases h

theorem word_append {w n : Nat} (h : n < 256 ^ w) (rest : Bytes) :
    word w (beBytes w n ++ rest) = .ok (n, rest) := by
  unfold word
  rw [take_append (length_beBytes w n)]
  dsimp only
  rw [ofBeBytes_beBytes h]

theorem word_eq_ok {w n : Nat} (h : word w bs = .ok (n, rest)) :
    n < 256 ^ w ∧ bs = beBytes w n ++ rest := by
  unfold word at h
  split at h
  · rename_i b rest' htake
    cases h
    obtain ⟨hlen, rfl⟩ := take_eq_ok htake
    rw [beBytes_ofBeBytes_of_length hlen]
    refine ⟨?_, rfl⟩
    have hlt := ofBeBytes_lt b
    rwa [hlen] at hlt
  · cases h

theorem seqLen_append {minElemLen count : Nat} (h : count < 256 ^ 4)
    (hfit : count * minElemLen ≤ rest.length) :
    seqLen minElemLen (beBytes 4 count ++ rest) = .ok (count, rest) := by
  unfold seqLen
  rw [word_append h]
  exact if_neg (Nat.not_lt.mpr hfit)

theorem seqLen_eq_ok {minElemLen count : Nat} (h : seqLen minElemLen bs = .ok (count, rest)) :
    count < 256 ^ 4 ∧ bs = beBytes 4 count ++ rest := by
  unfold seqLen at h
  split at h
  · rename_i count' rest' hword
    split at h
    · cases h
    · cases h
      exact word_eq_ok hword
  · cases h

theorem finish_eq_ok {u : Unit} (h : finish bs = .ok (u, rest)) : bs = [] ∧ rest = [] := by
  unfold finish at h
  split at h
  · rename_i hnil
    cases h
    exact ⟨length_eq_zero_iff.mp hnil, length_eq_zero_iff.mp hnil⟩
  · cases h

/-- A row is read back when each of its elements is. -/
theorem many_append {r : Reader α} {put : α → Bytes} :
    ∀ {as : List α}, (∀ a ∈ as, ∀ rest, r (put a ++ rest) = .ok (a, rest)) → ∀ rest : Bytes,
      many r as.length (as.flatMap put ++ rest) = .ok (as, rest)
  | [], _, rest => rfl
  | a :: as, h, rest => by
    rw [flatMap_cons, append_assoc, length_cons]
    unfold many
    rw [bind_of_ok (h a mem_cons_self _), bind_of_ok (many_append
      (fun b hb => h b (mem_cons_of_mem a hb)) rest)]
    rfl

/-- What a row read is what its elements read, one after the other. -/
theorem many_eq_ok {r : Reader α} {P : α → Bytes → Prop}
    (hr : ∀ bs rest a, r bs = .ok (a, rest) → ∃ b, bs = b ++ rest ∧ P a b) :
    ∀ {n : Nat} {bs rest : Bytes} {as : List α}, many r n bs = .ok (as, rest) →
      as.length = n ∧ ∃ blocks : List Bytes, bs = blocks.flatten ++ rest ∧ Forall₂ P as blocks
  | 0, bs, rest, as, h => by
    obtain ⟨rfl, rfl⟩ := pure_eq_ok.mp h
    exact ⟨rfl, [], rfl, .nil⟩
  | n + 1, bs, rest, as, h => by
    unfold many at h
    obtain ⟨a, mid, ha, h⟩ := bind_eq_ok.mp h
    obtain ⟨as', rest', has, h⟩ := bind_eq_ok.mp h
    obtain ⟨rfl, rfl⟩ := pure_eq_ok.mp h
    obtain ⟨b, rfl, hb⟩ := hr bs mid a ha
    obtain ⟨hlen, blocks, rfl, hall⟩ := many_eq_ok hr has
    refine ⟨by rw [length_cons, hlen], b :: blocks, ?_, .cons hb hall⟩
    rw [flatten_cons, append_assoc]

end Reader

end Viewstamp
