import Viewstamp.Batch

/- The batch codec is exact.

   A builder, in place, either takes a unit or refuses it and stays as it was; its
   budget bounds every length it writes, so nothing it writes is cut short. The parser
   accepts the layout of a non-empty list of units and nothing else: a body is the
   encoding of the units its iterator yields. -/
namespace Viewstamp

open List

variable {units : List Bytes}

/-! ## The layout -/

/-- The units of a body after its count, each behind its length. -/
def encodeUnits (units : List Bytes) : Bytes := units.flatMap fun u => beBytes 4 u.length ++ u

/-- The builder holds these units. -/
structure BatchBuilder.Builds (b : BatchBuilder) (units : List Bytes) : Prop where
  buf : b.buf = replicate batchCountOverhead 0 ++ encodeUnits units
  count : b.count = units.length

theorem BatchBuilder.builds_new (budget : Nat) : (BatchBuilder.new budget).Builds [] :=
  ⟨by simp [BatchBuilder.new, encodeUnits], rfl⟩

theorem BatchBuilder.Builds.push {b b' : BatchBuilder} {unit : Bytes} (h : b.Builds units)
    (hp : b.push unit = .ok b') : b'.Builds (units ++ [unit]) := by
  obtain ⟨-, rfl⟩ := push_eq_ok hp
  exact ⟨by simp [h.buf, encodeUnits], by simp [h.count]⟩

theorem BatchBuilder.Builds.finish {b : BatchBuilder} (h : b.Builds units) (hne : units ≠ []) :
    b.finish = some (beBytes 4 units.length ++ encodeUnits units) := by
  simp [BatchBuilder.finish, h.buf, h.count, hne]

/-- A body: the count, then the units. -/
def encodeBatch (units : List Bytes) : Bytes := beBytes 4 units.length ++ encodeUnits units

/-- The count and every length fit the 32 bits they are written in. -/
structure Encodable (units : List Bytes) : Prop where
  count : units.length < 2 ^ 32
  lengths : ∀ u ∈ units, u.length < 2 ^ 32

@[simp] theorem encodeUnits_cons (u : Bytes) (us : List Bytes) :
    encodeUnits (u :: us) = beBytes 4 u.length ++ u ++ encodeUnits us := rfl

/-- Every unit costs at least its length. -/
theorem length_mul_le_encodeUnits (units : List Bytes) :
    units.length * batchUnitOverhead ≤ (encodeUnits units).length := by
  induction units with
  | nil => simp
  | cons u us ih =>
    simp only [length_cons, encodeUnits_cons, length_append, length_beBytes,
      batchUnitOverhead] at ih ⊢
    omega

theorem length_le_encodeUnits {u : Bytes} (h : u ∈ units) :
    u.length ≤ (encodeUnits units).length := by
  induction units with
  | nil => cases h
  | cons v vs ih =>
    simp only [encodeUnits_cons, length_append]
    rcases mem_cons.mp h with rfl | h
    · omega
    · have hle := ih h
      omega

/-! ## Parsing an encoding -/

namespace RawView

variable {units : List Bytes}

theorem walk_encodeUnits (h : ∀ u ∈ units, u.length < 2 ^ 32) :
    walk units.length (encodeUnits units) = .ok () ∧
      unitsFrom units.length (encodeUnits units) = units := by
  induction units with
  | nil => exact ⟨rfl, rfl⟩
  | cons u us ih =>
    obtain ⟨hwalk, hunits⟩ := ih fun v hv => h v (mem_cons_of_mem u hv)
    have hlen : ofBeBytes (beBytes 4 u.length) = u.length :=
      ofBeBytes_beBytes (h u mem_cons_self)
    have hprefix : (beBytes 4 u.length).length = batchUnitOverhead := length_beBytes 4 _
    have htake : (encodeUnits (u :: us)).take batchUnitOverhead = beBytes 4 u.length := by
      rw [encodeUnits_cons, append_assoc, take_left' hprefix]
    have hdrop : (encodeUnits (u :: us)).drop batchUnitOverhead = u ++ encodeUnits us := by
      rw [encodeUnits_cons, append_assoc, drop_left' hprefix]
    have hlong : ¬ (encodeUnits (u :: us)).length < batchUnitOverhead := by
      simp [batchUnitOverhead]
    simp only [length_cons, walk, unitsFrom, if_neg hlong, htake, hdrop, hlen]
    simp [hwalk, hunits]

/-- What a walk accepts is the encoding of the units the iterator yields. -/
theorem encodeUnits_unitsFrom : ∀ (left : Nat) (tail : Bytes), walk left tail = .ok () →
    encodeUnits (unitsFrom left tail) = tail ∧ ∀ u ∈ unitsFrom left tail, u.length < 2 ^ 32
  | 0, tail, h => by
    unfold walk at h
    split at h
    · rename_i hempty
      rw [isEmpty_iff.mp hempty]
      exact ⟨rfl, fun _ hu => absurd hu not_mem_nil⟩
    · cases h
  | left + 1, tail, h => by
    unfold walk at h
    dsimp only at h
    split at h
    · cases h
    · rename_i hshort
      split at h
      · cases h
      · rename_i hlong
        obtain ⟨ih, hlengths⟩ := encodeUnits_unitsFrom left _ h
        have hword : (tail.take batchUnitOverhead).length = 4 := by
          rw [length_take]
          simp only [batchUnitOverhead] at hshort ⊢
          omega
        have hbound : ofBeBytes (tail.take batchUnitOverhead) < 2 ^ 32 := by
          have hlt := ofBeBytes_lt (tail.take batchUnitOverhead)
          rwa [hword] at hlt
        have hunit : ((tail.drop batchUnitOverhead).take
            (ofBeBytes (tail.take batchUnitOverhead))).length =
              ofBeBytes (tail.take batchUnitOverhead) := by
          rw [length_take]
          omega
        unfold unitsFrom
        rw [if_neg hshort]
        dsimp only
        rw [if_neg hlong]
        refine ⟨?_, fun u hu => ?_⟩
        · rw [encodeUnits_cons, ih, hunit, beBytes_ofBeBytes_of_length hword, append_assoc,
            take_append_drop, take_append_drop]
        · rcases mem_cons.mp hu with rfl | hu
          · rw [hunit]
            exact hbound
          · exact hlengths u hu

theorem parse_encodeBatch (hne : units ≠ []) (h : Encodable units) :
    parse (encodeBatch units) = .ok ⟨encodeUnits units, units.length⟩ := by
  have hprefix : (beBytes 4 units.length).length = batchCountOverhead := length_beBytes 4 _
  have hcount : ofBeBytes (beBytes 4 units.length) = units.length := ofBeBytes_beBytes h.count
  have hlong : ¬ (encodeBatch units).length < batchCountOverhead := by
    simp [encodeBatch, batchCountOverhead]
  have hpos : units.length ≠ 0 := fun h0 => hne (length_eq_zero_iff.mp h0)
  have hfloor : ¬ units.length * batchUnitOverhead > (encodeUnits units).length :=
    Nat.not_lt.mpr (length_mul_le_encodeUnits units)
  unfold parse
  rw [if_neg hlong, encodeBatch, take_left' hprefix, drop_left' hprefix, hcount]
  dsimp only
  rw [if_neg hpos, if_neg hfloor, (walk_encodeUnits h.lengths).1]

/-- An accepted body is the encoding of the units its view yields. -/
theorem encodeBatch_unitList {body : Bytes} {v : RawView} (h : parse body = .ok v) :
    v.unitList ≠ [] ∧ Encodable v.unitList ∧ encodeBatch v.unitList = body := by
  have hlength := length_unitList h
  unfold parse at h
  dsimp only at h
  split at h
  · cases h
  · rename_i hshort
    split at h
    · cases h
    · rename_i hpos
      split at h
      · cases h
      · split at h
        · rename_i hwalk
          cases h
          obtain ⟨henc, hlengths⟩ := encodeUnits_unitsFrom _ _ hwalk
          have hword : (body.take batchCountOverhead).length = 4 := by
            rw [length_take]
            simp only [batchCountOverhead] at hshort ⊢
            omega
          have hbound := ofBeBytes_lt (body.take batchCountOverhead)
          rw [hword] at hbound
          dsimp only at hlength
          refine ⟨fun hnil => ?_, ⟨?_, hlengths⟩, ?_⟩
          · rw [hnil] at hlength
            exact hpos hlength.symm
          · rw [hlength]
            exact hbound
          · unfold encodeBatch
            rw [hlength, beBytes_ofBeBytes_of_length hword]
            unfold unitList
            rw [henc, take_append_drop]
        · cases h

theorem unitList_encodeBatch (hne : units ≠ []) (h : Encodable units) {v : RawView}
    (hv : parse (encodeBatch units) = .ok v) : v.unitList = units := by
  rw [parse_encodeBatch hne h] at hv
  cases hv
  exact (walk_encodeUnits h.lengths).2

end RawView

/-! ## Builders in place -/

/-- `push` on the builder itself: it is written to only after the check. -/
def BatchBuilder.pushInPlace (b : BatchBuilder) (unit : Bytes) :
    Except BatchFull Unit × BatchBuilder :=
  if b.buf.length + batchUnitOverhead + unit.length ≤ b.budget then
    let b := { b with buf := b.buf ++ beBytes 4 unit.length }
    let b := { b with buf := b.buf ++ unit }
    (.ok (), { b with count := b.count + 1 })
  else (.error ⟨b.buf.length, unit.length, b.budget⟩, b)

def ReplyBuilder.pushInPlace (b : ReplyBuilder) (unit : Bytes) :
    Except ReplyPushError Unit × ReplyBuilder :=
  if b.maxUnitLen < unit.length then (.error (.unitOverCeiling unit.length b.maxUnitLen), b)
  else
    match b.inner.pushInPlace unit with
    | (.ok (), inner) => (.ok (), { b with inner })
    | (.error e, inner) => (.error (.full e), { b with inner })

/-- Push a sequence of units; the second component is what was accepted. -/
def feed {B E : Type} (push : B → Bytes → Except E Unit × B) : B → List Bytes → B × List Bytes
  | b, [] => (b, [])
  | b, unit :: units =>
    match push b unit with
    | (.ok (), b) => ((feed push b units).1, unit :: (feed push b units).2)
    | (.error _, b) => feed push b units

namespace BatchBuilder

variable {b : BatchBuilder} {units : List Bytes}

theorem pushInPlace_eq (b : BatchBuilder) (unit : Bytes) :
    b.pushInPlace unit = match b.push unit with
      | .ok b' => (.ok (), b')
      | .error e => (.error e, b) := by
  unfold pushInPlace push
  split <;> rfl

/-- The builder holds the units, and what it holds is within its budget. -/
structure Packs (b : BatchBuilder) (units : List Bytes) : Prop where
  builds : b.Builds units
  cap : b.budget ≤ budgetCap
  within : units ≠ [] → b.bytesUsed ≤ b.budget

theorem packs_new (budget : Nat) : (new budget).Packs [] :=
  ⟨builds_new budget, Nat.min_le_right _ _, absurd rfl⟩

theorem Packs.push {b b' : BatchBuilder} {unit : Bytes} (h : b.Packs units)
    (hp : b.push unit = .ok b') : b'.Packs (units ++ [unit]) ∧ b'.budget = b.budget := by
  have hbuilds := h.builds.push hp
  obtain ⟨hfits, rfl⟩ := push_eq_ok hp
  refine ⟨⟨hbuilds, h.cap, fun _ => ?_⟩, rfl⟩
  simp only [bytesUsed, length_append, length_beBytes, batchUnitOverhead] at hfits ⊢
  omega

theorem Packs.bytesUsed_eq (h : b.Packs units) :
    b.bytesUsed = batchCountOverhead + (encodeUnits units).length := by
  unfold bytesUsed
  rw [h.builds.buf, length_append, length_replicate]

/-- The budget is small enough for every length to fit its prefix. -/
theorem Packs.encodable (h : b.Packs units) (hne : units ≠ []) : Encodable units := by
  have hused := h.bytesUsed_eq
  have hwithin := h.within hne
  have hcap := h.cap
  have hcount := length_mul_le_encodeUnits units
  simp only [batchCountOverhead, batchUnitOverhead, budgetCap] at hused hcap hcount
  refine ⟨by omega, fun u hu => ?_⟩
  have hunit := length_le_encodeUnits hu
  omega

theorem Packs.finish (h : b.Packs units) :
    b.finish = if units = [] then none else some (encodeBatch units) := by
  split
  · rename_i hnil
    have hcount := h.builds.count
    rw [hnil] at hcount
    exact if_pos hcount
  · rename_i hne
    exact h.builds.finish hne

end BatchBuilder

/-- What a builder that took these units finishes with: nothing, or a body within the budget that
parses to them. -/
structure Finishes (budget : Nat) (units : List Bytes) (bytesUsed : Nat) (finished : Option Bytes) :
    Prop where
  empty : finished = none ↔ units = []
  parses : ∀ body, finished = some body → body.length = bytesUsed ∧ bytesUsed ≤ budget ∧
    ∃ v, RawView.parse body = .ok v ∧ v.unitList = units

theorem BatchBuilder.Packs.finishes {b : BatchBuilder} (h : b.Packs units) :
    Finishes b.budget units b.bytesUsed b.finish := by
  refine ⟨by simp [h.finish], fun body hf => ?_⟩
  rw [h.finish] at hf
  obtain ⟨hne, hf⟩ := Option.ite_none_left_eq_some.mp hf
  cases hf
  have hparse := RawView.parse_encodeBatch hne (h.encodable hne)
  refine ⟨?_, h.within hne, _, hparse, RawView.unitList_encodeBatch hne (h.encodable hne) hparse⟩
  rw [h.bytesUsed_eq]
  simp [encodeBatch, batchCountOverhead]

/-! ## Feeding a builder -/

/-- A push that takes every unit that is within the ceiling and fits what `inner` has left, and
otherwise changes nothing. -/
structure Pushes {B E : Type} (push : B → Bytes → Except E Unit × B) (inner : B → BatchBuilder)
    (ceiling : B → Nat) : Prop where
  accepts : ∀ b unit, (push b unit).1 = .ok () ↔ unit.length ≤ ceiling b ∧
    (inner b).bytesUsed + batchUnitOverhead + unit.length ≤ (inner b).budget
  taken : ∀ {b b' : B} {unit : Bytes}, push b unit = (.ok (), b') →
    (inner b).push unit = .ok (inner b') ∧ ceiling b' = ceiling b
  refused : ∀ {b b' : B} {unit : Bytes} {e : E}, push b unit = (.error e, b') → b' = b

theorem BatchBuilder.pushes : Pushes pushInPlace id budget where
  accepts b unit := by
    unfold pushInPlace bytesUsed id
    split
    · simp only [true_iff]
      omega
    · simp only [reduceCtorEq, false_iff]
      omega
  taken h := by
    rw [pushInPlace_eq] at h
    split at h <;> cases h
    rename_i hp
    obtain ⟨-, rfl⟩ := push_eq_ok hp
    exact ⟨hp, rfl⟩
  refused h := by
    rw [pushInPlace_eq] at h
    split at h <;> cases h
    rfl

theorem ReplyBuilder.pushes : Pushes pushInPlace inner maxUnitLen where
  accepts b unit := by
    have hinner := BatchBuilder.pushes.accepts b.inner unit
    unfold pushInPlace
    split
    · simp only [reduceCtorEq, false_iff]
      omega
    · generalize b.inner.pushInPlace unit = r at hinner ⊢
      obtain ⟨_ | _, _⟩ := r <;> simp only [reduceCtorEq, true_iff, false_iff, id] at hinner ⊢ <;>
        omega
  taken h := by
    unfold pushInPlace at h
    repeat' split at h
    all_goals cases h
    exact ⟨(BatchBuilder.pushes.taken ‹_›).1, rfl⟩
  refused h := by
    unfold pushInPlace at h
    repeat' split at h
    all_goals cases h
    · rfl
    · rename_i hp
      rw [BatchBuilder.pushes.refused hp]

namespace Pushes

variable {B E : Type} {push : B → Bytes → Except E Unit × B} {inner : B → BatchBuilder}
  {ceiling : B → Nat}

/-- What was fed and accepted is what the builder holds beside what it held. -/
theorem packs (h : Pushes push inner ceiling) : ∀ (units : List Bytes) {b : B} {held : List Bytes},
    (inner b).Packs held → (inner (feed push b units).1).Packs (held ++ (feed push b units).2) ∧
      (inner (feed push b units).1).budget = (inner b).budget
  | [], b, held, hb => by
    rw [feed, append_nil]
    exact ⟨hb, rfl⟩
  | unit :: units, b, held, hb => by
    rw [feed]
    split
    · rename_i b' hp
      obtain ⟨hpushed, hbudget⟩ := hb.push (h.taken hp).1
      obtain ⟨ih, hih⟩ := packs h units hpushed
      rw [append_assoc, singleton_append] at ih
      exact ⟨ih, hih.trans hbudget⟩
    · rename_i e b' hp
      rw [h.refused hp]
      exact packs h units hb

/-- With room for all of them, all units are accepted. -/
theorem accepts_all (h : Pushes push inner ceiling) : ∀ (units : List Bytes) {b : B}
    {held : List Bytes}, (inner b).Packs held → (∀ u ∈ units, u.length ≤ ceiling b) →
    batchCountOverhead + (encodeUnits (held ++ units)).length ≤ (inner b).budget →
    (feed push b units).2 = units
  | [], b, held, _, _, _ => rfl
  | unit :: units, b, held, hb, hceiling, hroom => by
    have hused := hb.bytesUsed_eq
    have hfits : (inner b).bytesUsed + batchUnitOverhead + unit.length ≤ (inner b).budget := by
      simp only [encodeUnits, flatMap_append, flatMap_cons, length_append, length_beBytes,
        batchUnitOverhead] at hroom hused ⊢
      omega
    have hok := (h.accepts b unit).mpr ⟨hceiling unit mem_cons_self, hfits⟩
    rw [feed]
    split
    · rename_i b' hp
      obtain ⟨hpush, hsame⟩ := h.taken hp
      obtain ⟨hpacks, hbudget⟩ := hb.push hpush
      rw [accepts_all h units hpacks (fun u hu => hsame ▸ hceiling u (mem_cons_of_mem _ hu))
        (by rwa [hbudget, append_assoc])]
    · rename_i hp
      rw [hp] at hok
      cases hok

/-- A fresh builder finishes with what it was fed and accepted; with room, with all of it. -/
theorem finishes (h : Pushes push inner ceiling) {b : B} {budget : Nat} (hb : inner b = .new budget)
    (units : List Bytes) :
    Finishes budget (feed push b units).2 (inner (feed push b units).1).bytesUsed
        (inner (feed push b units).1).finish ∧
      (units ≠ [] → (∀ u ∈ units, u.length ≤ ceiling b) →
        (encodeBatch units).length ≤ min budget budgetCap →
        (inner (feed push b units).1).finish = some (encodeBatch units)) := by
  have hnew : (inner b).Packs [] := hb ▸ BatchBuilder.packs_new budget
  have hbudget : (inner b).budget = min budget budgetCap := hb ▸ rfl
  obtain ⟨hpacks, hsame⟩ := h.packs units hnew
  have hfinishes := hpacks.finishes
  refine ⟨⟨hfinishes.empty, fun body hbody => ?_⟩, fun hne hceiling hroom => ?_⟩
  · obtain ⟨hlen, hle, hview⟩ := hfinishes.parses body hbody
    rw [hsame, hbudget] at hle
    exact ⟨hlen, hle.trans (Nat.min_le_left _ _), hview⟩
  · have hall : (feed push b units).2 = units := by
      refine h.accepts_all units hnew hceiling (hbudget ▸ ?_)
      simpa [encodeBatch, batchCountOverhead] using hroom
    rw [hpacks.finish, hall]
    exact if_neg hne

end Pushes

/-! ## The codec -/

/-- **The batch codec loses nothing and accepts nothing else.** A builder takes a unit exactly if it
fits, and a refusal leaves it as it was. Whatever is pushed into it, the finished body, of the
length the builder reports and within the budget, parses to the accepted units in order; with room
for all of them it is their encoding. A byte string parses exactly if it is the encoding of a
non-empty list of units; the list is unique, it is what the iterator yields, and two bodies with the
same units are the same body. -/
theorem batch_codec_exact :
    (∀ (b : BatchBuilder) (unit : Bytes), ((b.pushInPlace unit).1 = .ok () ↔
        b.bytesUsed + batchUnitOverhead + unit.length ≤ b.budget) ∧
      ∀ (b' : BatchBuilder) (e : BatchFull), b.pushInPlace unit = (.error e, b') → b' = b) ∧
    (∀ (b : ReplyBuilder) (unit : Bytes), ((b.pushInPlace unit).1 = .ok () ↔
        unit.length ≤ b.maxUnitLen ∧
          b.bytesUsed + batchUnitOverhead + unit.length ≤ b.inner.budget) ∧
      ∀ (b' : ReplyBuilder) (e : ReplyPushError), b.pushInPlace unit = (.error e, b') → b' = b) ∧
    (∀ (budget : Nat) (units : List Bytes) (b : BatchBuilder) (accepted : List Bytes),
      feed BatchBuilder.pushInPlace (.new budget) units = (b, accepted) →
        Finishes budget accepted b.bytesUsed b.finish ∧
        (units ≠ [] → (encodeBatch units).length ≤ min budget budgetCap →
          b.finish = some (encodeBatch units))) ∧
    (∀ (budget maxUnitLen : Nat) (units : List Bytes) (b : ReplyBuilder) (accepted : List Bytes),
      feed ReplyBuilder.pushInPlace (.new budget maxUnitLen) units = (b, accepted) →
        Finishes budget accepted b.bytesUsed b.finish ∧
        (units ≠ [] → (∀ u ∈ units, u.length ≤ maxUnitLen) →
          (encodeBatch units).length ≤ min budget budgetCap →
          b.finish = some (encodeBatch units))) ∧
    (∀ body, (∃ v, RawView.parse body = .ok v) ↔
      ∃ units, units ≠ [] ∧ Encodable units ∧ encodeBatch units = body) ∧
    (∀ body v, RawView.parse body = .ok v → v.unitList.length = v.count ∧
      ∀ units, units ≠ [] → Encodable units → encodeBatch units = body → units = v.unitList) ∧
    ∀ body body' v v', RawView.parse body = .ok v → RawView.parse body' = .ok v' →
      v.unitList = v'.unitList → body = body' := by
  refine ⟨fun b unit => ⟨?_, fun b' e => BatchBuilder.pushes.refused⟩,
    fun b unit => ⟨ReplyBuilder.pushes.accepts b unit, fun b' e => ReplyBuilder.pushes.refused⟩,
    ?_, ?_, ?_, ?_, ?_⟩
  · rw [BatchBuilder.pushes.accepts]
    exact and_iff_right_of_imp fun hfits => (Nat.le_add_left _ _).trans hfits
  · intro budget units b accepted h
    obtain ⟨hfinishes, hwhole⟩ := BatchBuilder.pushes.finishes (b := .new budget) rfl units
    rw [h] at hfinishes hwhole
    refine ⟨hfinishes, fun hne hroom => hwhole hne (fun u hu => ?_) hroom⟩
    refine le_trans ((length_le_encodeUnits hu).trans ?_) hroom
    simp [encodeBatch]
  · intro budget maxUnitLen units b accepted h
    obtain ⟨hfinishes, hwhole⟩ :=
      ReplyBuilder.pushes.finishes (b := .new budget maxUnitLen) rfl units
    rw [h] at hfinishes hwhole
    exact ⟨hfinishes, hwhole⟩
  · intro body
    constructor
    · rintro ⟨v, hv⟩
      exact ⟨v.unitList, RawView.encodeBatch_unitList hv⟩
    · rintro ⟨units, hne, henc, rfl⟩
      exact ⟨_, RawView.parse_encodeBatch hne henc⟩
  · intro body v hv
    refine ⟨RawView.length_unitList hv, ?_⟩
    rintro units hne henc rfl
    exact (RawView.unitList_encodeBatch hne henc hv).symm
  · intro body body' v v' hv hv' heq
    rw [← (RawView.encodeBatch_unitList hv).2.2, heq, (RawView.encodeBatch_unitList hv').2.2]

/-- Two units in a builder with room for both, and their body read back. -/
theorem batch_codec_exact_pair :
    (feed BatchBuilder.pushInPlace (.new 32) [[1], [2, 3]]).1.finish =
      some (encodeBatch [[1], [2, 3]]) ∧
    ∃ v, RawView.parse (encodeBatch [[1], [2, 3]]) = .ok v ∧ v.unitList = [[1], [2, 3]] := by
  obtain ⟨hfinishes, hwhole⟩ := batch_codec_exact.2.2.1 32 [[1], [2, 3]] _ _ rfl
  have hbody := hwhole (by decide) (by decide)
  exact ⟨hbody, (hfinishes.parses _ hbody).2.2⟩

end Viewstamp
