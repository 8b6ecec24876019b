import Mathlib.Data.List.Count
import Mathlib.Algebra.Order.Group.Nat
import Viewstamp.Aggregate.Pump
import Viewstamp.BatchCodec

/- What the aggregator owes its callers, over every interleaving.

   A unit is at one place at a time: with its caller, in the queue, deferred, in
   the body being packed, in the body in flight, or answered. The places are
   counted (`waits`, `inFlight`, `told`); a unit that is nowhere has a caller who
   gave up. A second count (`rode`) is of the bodies a unit was packed into: a
   unit that still waits has been in none, which is why a refusal is safe. -/
namespace Viewstamp

open List

/-- A unit was answered with the unit at its own position of a reply that the driver sent for its
body, with as many units as the body has. -/
def Submitted.Answers (x : Submitted) (u : UnitId) (b : Bytes) : Prop :=
  x.accepted = true ∧ ∃ (replyBody : Bytes) (view : RawView) (i : Nat), x.reply = .sent replyBody ∧
    RawView.parse replyBody = .ok view ∧ view.count = x.callers.length ∧
    x.callers[i]? = some u ∧ view.unitList[i]? = some b

/-- A body as the driver and the pump see it later. -/
structure Submitted.Later (x x' : Submitted) : Prop where
  entries : x'.entries = x.entries
  body : x'.body = x.body
  refusal : x'.refusal = x.refusal
  sent : ∀ b, x.reply = .sent b → x'.reply = .sent b

theorem Submitted.Later.callers {x x' : Submitted} (h : Submitted.Later x x') :
    x'.callers = x.callers := by
  rw [Submitted.callers, h.entries, Submitted.callers]

theorem Submitted.Later.accepted {x x' : Submitted} (h : Submitted.Later x x') :
    x'.accepted = x.accepted := by
  rw [Submitted.accepted, h.refusal, Submitted.accepted]

namespace Aggregator

variable {s s' : Aggregator} {R : Submitted → Submitted → Prop} {bs bs' : List Submitted}
    {x : Submitted} {es : List Entry} {b : BatchBuilder}

/-! ## Places -/

def idsOf (es : List Entry) : List UnitId := es.flatMap Entry.ids
def unitsOf (es : List Entry) : List Bytes := es.flatMap fun e => e.units.map (·.body)

@[simp] theorem idsOf_nil : idsOf [] = [] := rfl
@[simp] theorem idsOf_append (es fs : List Entry) : idsOf (es ++ fs) = idsOf es ++ idsOf fs :=
  flatMap_append
@[simp] theorem idsOf_cons (e : Entry) (es : List Entry) : idsOf (e :: es) = e.ids ++ idsOf es :=
  rfl

def packedBy : Pump → List Entry
  | .packing _ packed => packed
  | _ => []

@[simp] theorem packedBy_idle : packedBy .idle = [] := rfl
@[simp] theorem packedBy_inFlight : packedBy .inFlight = [] := rfl
@[simp] theorem packedBy_gone : packedBy .gone = [] := rfl
@[simp] theorem packedBy_packing (b : BatchBuilder) (es : List Entry) :
    packedBy (.packing b es) = es := rfl

def packed (s : Aggregator) : List Entry := packedBy s.pump

/-- The entries that are in no body yet. -/
def waiting (s : Aggregator) : List Entry := s.reserved ++ s.packed ++ s.deferred ++ s.entries

def waits (s : Aggregator) (u : UnitId) : Nat := (idsOf s.waiting).count u
def told (s : Aggregator) (u : UnitId) : Nat := (s.resolved.map (·.1)).count u
def rode (s : Aggregator) (u : UnitId) : Nat := (s.bodies.flatMap Submitted.callers).count u

theorem waits_eq (s : Aggregator) (u : UnitId) :
    s.waits u = (idsOf s.reserved).count u + (idsOf s.packed).count u + (idsOf s.deferred).count u
      + (idsOf s.entries).count u := by
  simp [waits, waiting, count_append, Nat.add_assoc]

/-- The places a unit is at. -/
def places (s : Aggregator) (u : UnitId) : Nat := s.waits u + s.inFlight.count u + s.told u

/-- Every unit is accounted for. -/
structure Counted (s : Aggregator) : Prop where
  /-- A unit is at most at one place, and is there unless its caller gave up. -/
  once : ∀ u : Nat, s.places u ≤ 1
  kept : ∀ u : Nat, u < s.nextUnit → u ∉ s.canceled → s.places u = 1
  fresh : ∀ u : Nat, s.nextUnit ≤ u → s.places u = 0 ∧ s.rode u = 0
  /-- A unit that waits has been in no body, and none is in two. -/
  apart : ∀ u : Nat, s.waits u + s.rode u ≤ 1

/-- A step that moves units between places and loses only those whose callers gave up. -/
structure Conserves (s s' : Aggregator) : Prop where
  next : s'.nextUnit = s.nextUnit
  canceled : s.canceled ⊆ s'.canceled
  places_le : ∀ u, s'.places u ≤ s.places u
  places_eq : ∀ u, u ∉ s'.canceled → s'.places u = s.places u
  rides : ∀ u, s'.waits u + s'.rode u ≤ s.waits u + s.rode u

theorem Counted.of_conserves (h : Counted s) (hc : Conserves s s') : Counted s' where
  once u := (hc.places_le u).trans (h.once u)
  kept u hu hn := by
    rw [hc.places_eq u hn]
    exact h.kept u (hc.next ▸ hu) (fun hm => hn (hc.canceled hm))
  fresh u hu := by
    obtain ⟨hp, hr⟩ := h.fresh u (hc.next ▸ hu)
    have h1 := hc.places_le u
    have h2 := hc.rides u
    have h3 : s.waits u ≤ s.places u := by unfold places; omega
    omega
  apart u := (hc.rides u).trans (h.apart u)

/-- New units are at one place each. -/
theorem Counted.of_new (h : Counted s) (n : Nat) (hn : s'.nextUnit = s.nextUnit + n)
    (hc : s'.canceled = s.canceled)
    (hp : ∀ u, s'.places u = s.places u + (range' s.nextUnit n).count u)
    (hw : ∀ u, s'.waits u ≤ s.waits u + (range' s.nextUnit n).count u)
    (hr : ∀ u, s'.rode u = s.rode u) : Counted s' := by
  have hcount : ∀ u : Nat, (range' s.nextUnit n).count u
      = if s.nextUnit ≤ u ∧ u < s.nextUnit + n then 1 else 0 := by
    intro u
    split
    · rename_i hu
      exact count_eq_one_of_mem nodup_range' (mem_range'_1.mpr hu)
    · rename_i hu
      exact count_eq_zero.mpr (fun hm => hu (mem_range'_1.mp hm))
  refine ⟨fun u => ?_, fun u hu hnc => ?_, fun u hu => ?_, fun u => ?_⟩
  · have h1 := h.once u
    have h2 := h.fresh u
    rw [hp, hcount]
    split <;> omega
  · rw [hp, hcount]
    by_cases hlt : u < s.nextUnit
    · rw [h.kept u hlt (hc ▸ hnc)]
      split <;> omega
    · obtain ⟨hz, -⟩ := h.fresh u (Nat.le_of_not_lt hlt)
      rw [hz, if_pos ⟨Nat.le_of_not_lt hlt, hn ▸ hu⟩]
  · obtain ⟨hz, hz'⟩ := h.fresh u (by omega)
    rw [hp, hcount, hr, hz, hz']
    split <;> omega
  · have h1 := h.apart u
    have h2 := h.fresh u
    have h3 := hw u
    rw [hr]
    rw [hcount] at h3
    have h4 : s.waits u ≤ s.places u := by unfold places; omega
    split at h3 <;> omega

/-! ## The invariant -/

/-- What callers were told is so. -/
structure Outcomes (s : Aggregator) : Prop where
  answered : ∀ u b, (u, .ok b) ∈ s.resolved → ∃ x ∈ s.bodies, x.Answers u b
  refused : ∀ u r, (u, .error (.refused r)) ∈ s.resolved →
    ∀ x ∈ s.bodies, x.accepted = true → u ∉ x.callers

/-- The pump is past its last body. -/
def Ending : Pump → Prop
  | .closing _ | .dropping | .gone => True
  | _ => False

/-- How the queue, the bodies and the pump hang together. -/
structure Shape (s : Aggregator) : Prop where
  /-- Entries are packed whole, in the order in which they were enqueued. -/
  order : (s.bodies.flatMap Submitted.entries ++ s.packed ++ s.deferred ++ s.entries).Sublist
    s.enqueued
  encoded : ∀ x ∈ s.bodies,
    x.body = beBytes 4 (unitsOf x.entries).length ++ encodeUnits (unitsOf x.entries)
  builds : ∀ b packed, s.pump = .packing b packed → b.Builds (unitsOf packed)
  flying : s.pump = .inFlight → ∃ before x, s.bodies = before ++ [x] ∧ x.accepted = true ∧
    x.settled = false ∧ s.inFlight = x.callers ∧ ∀ y ∈ before, y.settled = true
  landed : s.pump ≠ .inFlight → s.inFlight = [] ∧ ∀ x ∈ s.bodies, x.settled = true
  shut : s.closed = true → s.entries = []
  ending : Ending s.pump → s.deferred = []
  gone : s.pump = .gone → s.closed = true

structure Inv (s : Aggregator) : Prop extends Counted s, Outcomes s, Shape s

theorem new_inv (handle : Handle) (cfg : BatchConfig) (stall : Bool) :
    Inv (new handle cfg stall) := by
  refine ⟨⟨?_, ?_, ?_, ?_⟩, ⟨?_, ?_⟩, ⟨?_, ?_, ?_, ?_, ?_, ?_, ?_, ?_⟩⟩ <;>
    simp [new, places, waits, waiting, packed, told, rode]

/-! ## Resolving entries -/

/-- Outcomes are added; nothing else that the invariant speaks of changes. -/
theorem resolveEntries_eq (err : BatchError) (es : List Entry) (s : Aggregator) :
    ∃ budget, resolveEntries err es s = { s with
      resolved := s.resolved ++ (idsOf es).map fun u => (u, .error err)
      budget := budget } := by
  induction es generalizing s with
  | nil => exact ⟨s.budget, by simp [resolveEntries]⟩
  | cons e es ih =>
    obtain ⟨budget, h⟩ := ih ((s.resolveAll e.ids err).dropEntry e)
    exact ⟨budget, by rw [resolveEntries, h]; simp [resolveAll, dropEntry]⟩

theorem foldl_dropEntry_eq (es : List Entry) (s : Aggregator) :
    ∃ budget, es.foldl dropEntry s = { s with budget := budget } := by
  induction es generalizing s with
  | nil => exact ⟨s.budget, rfl⟩
  | cons e es ih =>
    obtain ⟨budget, h⟩ := ih (s.dropEntry e)
    exact ⟨budget, by rw [foldl_cons, h]; rfl⟩

/-- A unit that waits is in no body. -/
theorem Counted.not_rode (h : Counted s) {u : UnitId} (hw : 0 < s.waits u) :
    ∀ x ∈ s.bodies, u ∉ x.callers := by
  intro x hx hu
  have hrode : 0 < s.rode u :=
    count_pos_iff.mpr (mem_flatMap.mpr ⟨x, hx, hu⟩)
  have := h.apart u
  omega

theorem exists_later (h : Forall₂ R bs bs') (hx : x ∈ bs) : ∃ x' ∈ bs', R x x' := by
  induction h with
  | nil => cases hx
  | cons hl _ ih =>
    rcases mem_cons.mp hx with rfl | hx
    · exact ⟨_, mem_cons_self, hl⟩
    · obtain ⟨x', hx', hl'⟩ := ih hx
      exact ⟨x', mem_cons_of_mem _ hx', hl'⟩

theorem exists_earlier (h : Forall₂ R bs bs') {x' : Submitted} (hx : x' ∈ bs') :
    ∃ x ∈ bs, R x x' := by
  induction h with
  | nil => cases hx
  | cons hl _ ih =>
    rcases mem_cons.mp hx with rfl | hx
    · exact ⟨_, mem_cons_self, hl⟩
    · obtain ⟨x, hx, hl'⟩ := ih hx
      exact ⟨x, mem_cons_of_mem _ hx, hl'⟩

/-- Callers are told an error; a refusal must be one that no accepted body belies. -/
theorem Outcomes.tell (h : Outcomes s) {us : List UnitId} {err : BatchError}
    (hb : Forall₂ Submitted.Later s.bodies s'.bodies)
    (hr : s'.resolved = s.resolved ++ us.map fun u => (u, .error err))
    (hsafe : ∀ r, err = .refused r → ∀ u ∈ us, ∀ x ∈ s.bodies, x.accepted = true → u ∉ x.callers) :
    Outcomes s' := by
  refine ⟨fun u b hm => ?_, fun u r hm x' hx' ha => ?_⟩
  · rw [hr] at hm
    have hold : (u, Except.ok b) ∈ s.resolved := by simpa using hm
    obtain ⟨x, hx, hacc, replyBody, view, i, hsent, hrest⟩ := h.answered u b hold
    obtain ⟨x', hx', hl⟩ := exists_later hb hx
    refine ⟨x', hx', hl.accepted ▸ hacc, replyBody, view, i, hl.sent _ hsent, ?_⟩
    rw [hl.callers]
    exact hrest
  · obtain ⟨x, hx, hl⟩ := exists_earlier hb hx'
    rw [hl.callers]
    rw [hl.accepted] at ha
    rw [hr, mem_append] at hm
    rcases hm with hm | hm
    · exact h.refused u r hm x hx ha
    · obtain ⟨v, hv, heq⟩ := mem_map.mp hm
      simp only [Prod.mk.injEq, Except.error.injEq] at heq
      obtain ⟨rfl, herr⟩ := heq
      exact hsafe r herr v hv x hx ha

theorem later_refl (bs : List Submitted) : Forall₂ Submitted.Later bs bs :=
  forall₂_same.mpr fun _ _ => ⟨rfl, rfl, rfl, fun _ h => h⟩

theorem told_append {us : List UnitId} {err : BatchError}
    (h : s'.resolved = s.resolved ++ us.map fun v => (v, .error err)) (u : UnitId) :
    s'.told u = s.told u + us.count u := by
  simp [told, h, count_append, Function.comp_def]

/-- Entries that wait are refused. -/
theorem Inv.refuseEntries (h : Inv s) (es : List Entry) (r : RefusedReason)
    (hr : s'.resolved = s.resolved ++ (idsOf es).map fun u => (u, .error (.refused r)))
    (hw : ∀ u, s.waits u = s'.waits u + (idsOf es).count u) (hn : s'.nextUnit = s.nextUnit)
    (hc : s'.canceled = s.canceled) (hb : s'.bodies = s.bodies) (hf : s'.inFlight = s.inFlight)
    (hs : Shape s') : Inv s' := by
  have hplaces : ∀ u, s'.places u = s.places u := by
    intro u
    have := hw u
    rw [places, places, hf, told_append hr]
    omega
  refine ⟨h.toCounted.of_conserves ⟨hn, hc ▸ subset_rfl, fun u => (hplaces u).le,
    fun u _ => hplaces u, fun u => ?_⟩, h.toOutcomes.tell (hb ▸ later_refl _) hr ?_, hs⟩
  · have := hw u
    rw [rode, rode, hb]
    omega
  · intro r' _ u hu x hx _
    refine h.toCounted.not_rode ?_ x hx
    have := hw u
    have := count_pos_iff.mpr hu
    omega

/-! ## Callers -/

@[simp] theorem ids_numbered (first : Nat) (bodies : List Bytes) :
    Entry.ids ⟨numbered first bodies⟩ = range' first bodies.length := by
  induction bodies generalizing first with
  | nil => rfl
  | cons b bodies ih => simpa [Entry.ids, numbered, range'_succ] using ih (first + 1)

/-- New units are refused at once, or reserved. -/
theorem reserve_inv (h : Inv s) (units : List Bytes) (tooLarge : RefusedReason) :
    Inv (s.reserve units tooLarge) := by
  have refuse : ∀ r, Inv ({ s with nextUnit := s.nextUnit + units.length }.resolveAll
      (range' s.nextUnit units.length) (.refused r)) := by
    intro r
    refine ⟨h.toCounted.of_new units.length rfl rfl (fun u => ?_) (fun u => Nat.le_add_right _ _)
      (fun _ => rfl), h.toOutcomes.tell (later_refl _) rfl ?_, { h.toShape with }⟩
    · rw [places, told_append rfl]
      exact (Nat.add_assoc _ _ _).symm
    · intro r' _ u hu x hx _ hm
      have hnew : s.nextUnit ≤ u := (mem_range'_1.mp hu).1
      have hzero := (h.fresh u hnew).2
      exact absurd (count_pos_iff.mpr (mem_flatMap.mpr ⟨x, hx, hm⟩)) (by
        rw [rode] at hzero
        omega)
  unfold reserve
  dsimp only
  rw [ids_numbered]
  split
  · exact refuse tooLarge
  · split
    · exact refuse .queueFull
    · refine ⟨h.toCounted.of_new units.length rfl rfl (fun u => ?_) (fun u => ?_) (fun _ => rfl),
        { h.toOutcomes with }, { h.toShape with }⟩
      all_goals
        simp only [places, waits_eq, told, idsOf_append, idsOf_cons, idsOf_nil, ids_numbered,
          append_nil, count_append, packed]
        omega

theorem count_eraseIdx {i : Nat} {e : Entry} (h : es[i]? = some e) (u : UnitId) :
    (idsOf es).count u = e.ids.count u + (idsOf (es.eraseIdx i)).count u := by
  obtain ⟨hi, rfl⟩ := List.getElem?_eq_some_iff.mp h
  have hperm := (getElem_cons_eraseIdx_perm hi).flatMap_right Entry.ids
  rw [idsOf, ← hperm.count_eq u, flatMap_cons, count_append, idsOf]

theorem send_inv (h : Inv s) (i : Nat) : Inv (s.send i) := by
  unfold send
  split
  · exact h
  · rename_i e he
    have hcount := count_eraseIdx he
    dsimp only
    split
    · obtain ⟨budget, heq⟩ := resolveEntries_eq (.refused .pumpGone) [e]
        { s with reserved := s.reserved.eraseIdx i }
      rw [heq]
      refine h.refuseEntries [e] .pumpGone rfl (fun u => ?_) rfl rfl rfl rfl { h.toShape with }
      have := hcount u
      simp only [waits_eq, idsOf_cons, idsOf_nil, append_nil, packed]
      omega
    · rename_i hopen
      refine ⟨h.toCounted.of_conserves ⟨rfl, subset_rfl, fun u => ?_, fun u _ => ?_, fun u => ?_⟩,
        { h.toOutcomes with }, { h.toShape with order := ?_, shut := fun hc => absurd hc hopen }⟩
      case refine_4 =>
        simpa [packed, append_assoc] using h.order.append (Sublist.refl [e])
      all_goals
        have := hcount u
        simp only [places, waits_eq, told, rode, idsOf_append, idsOf_cons, idsOf_nil,
          append_nil, count_append, packed]
        omega

theorem cancel_inv (h : Inv s) (u : UnitId) : Inv { s with canceled := insert u s.canceled } :=
  ⟨h.toCounted.of_conserves ⟨rfl, Finset.subset_insert _ _, fun _ => le_rfl, fun _ _ => rfl,
    fun _ => le_rfl⟩, { h.toOutcomes with }, { h.toShape with }⟩

/-! ## The pump's ends -/

theorem closeQueue_inv (h : Inv s) (r : RefusedReason) :
    Inv (s.closeQueue r) ∧ (s.closeQueue r).pump = s.pump ∧ (s.closeQueue r).closed = true := by
  obtain ⟨budget, heq⟩ := resolveEntries_eq (.refused r) s.entries
    { s with closed := true, entries := [] }
  rw [closeQueue, heq]
  refine ⟨h.refuseEntries s.entries r rfl (fun u => ?_) rfl rfl rfl rfl
    { h.toShape with order := ?_, shut := fun _ => rfl, gone := fun _ => rfl }, rfl, rfl⟩
  · simp only [waits_eq, idsOf_nil, count_nil, packed]
    omega
  · exact (Sublist.append_left (nil_sublist _) _).trans h.order

def settleLast (bs : List Submitted) : List Submitted :=
  bs.dropLast ++ bs.getLast?.toList.map fun b => { b with settled := true }

theorem settleLast_append (before : List Submitted) (x : Submitted) :
    settleLast (before ++ [x]) = before ++ [{ x with settled := true }] := by
  simp [settleLast]

theorem settleLast_later (bs : List Submitted) :
    Forall₂ Submitted.Later bs (settleLast bs) := by
  rcases eq_nil_or_concat' bs with rfl | ⟨before, x, rfl⟩
  · exact .nil
  · rw [settleLast_append]
    exact rel_append (later_refl before) (.cons ⟨rfl, rfl, rfl, fun _ h => h⟩ .nil)

theorem flatMap_callers_later
    (h : Forall₂ Submitted.Later bs bs') :
    bs'.flatMap Submitted.callers = bs.flatMap Submitted.callers ∧
      bs'.flatMap Submitted.entries = bs.flatMap Submitted.entries := by
  induction h with
  | nil => exact ⟨rfl, rfl⟩
  | cons hl _ ih => simp [hl.callers, hl.entries, ih.1, ih.2]

theorem Shape.encoded_later (h : Shape s) (hb : Forall₂ Submitted.Later s.bodies bs) :
    ∀ x ∈ bs, x.body = beBytes 4 (unitsOf x.entries).length ++ encodeUnits (unitsOf x.entries) := by
  intro x' hx'
  obtain ⟨x, hx, hl⟩ := exists_earlier hb hx'
  rw [hl.body, hl.entries]
  exact h.encoded x hx

theorem Shape.settled (h : Shape s) : ∀ x ∈ settleLast s.bodies, x.settled = true := by
  by_cases hp : s.pump = .inFlight
  · obtain ⟨before, x, hb, -, -, -, hsettled⟩ := h.flying hp
    rw [hb, settleLast_append]
    intro y hy
    rcases mem_append.mp hy with hy | hy
    · exact hsettled y hy
    · rw [mem_singleton.mp hy]
  · have hall := (h.landed hp).2
    rcases eq_nil_or_concat' s.bodies with hb | ⟨before, x, hb⟩
    · rw [hb]
      simp [settleLast]
    · rw [hb] at hall ⊢
      rw [settleLast_append]
      intro y hy
      rcases mem_append.mp hy with hy | hy
      · exact hall y (mem_append_left _ hy)
      · rw [mem_singleton.mp hy]

/-- The body in flight is resolved with `rs`; its callers who gave up may be left out. -/
theorem Inv.land (h : Inv s) (hp : s.packed = [])
    (rs : List (UnitId × Except BatchError Bytes))
    (hle : ∀ u, (rs.map (·.1)).count u ≤ s.inFlight.count u)
    (heq : ∀ u, u ∉ s.canceled → (rs.map (·.1)).count u = s.inFlight.count u)
    (hok : ∀ u b, (u, .ok b) ∈ rs → ∃ x ∈ s.bodies, x.Answers u b)
    (href : ∀ u r, (u, .error (.refused r)) ∉ rs) :
    Inv { s with
      resolved := s.resolved ++ rs
      inFlight := []
      bodies := settleLast s.bodies
      pump := .idle } := by
  have hlater := settleLast_later s.bodies
  have hflat := flatMap_callers_later hlater
  have hwaits : ∀ u, waits { s with
      resolved := s.resolved ++ rs, inFlight := [], bodies := settleLast s.bodies, pump := .idle } u
      = s.waits u := by
    intro u
    simp only [waits_eq, hp]
    rfl
  have htold : ∀ u, told { s with
      resolved := s.resolved ++ rs, inFlight := [], bodies := settleLast s.bodies, pump := .idle } u
      = s.told u + (rs.map (·.1)).count u := by
    intro u
    simp only [told, map_append, count_append]
  refine ⟨h.toCounted.of_conserves ⟨rfl, subset_rfl, fun u => ?_, fun u hu => ?_, fun u => ?_⟩,
    ⟨fun u b hm => ?_, fun u r hm x' hx' ha => ?_⟩, ?_⟩
  · have := hle u
    simp only [places, hwaits, htold, count_nil]
    omega
  · have := heq u hu
    simp only [places, hwaits, htold, count_nil]
    omega
  · rw [hwaits, rode, hflat.1, rode]
  · have hx : ∃ x ∈ s.bodies, x.Answers u b := by
      rcases mem_append.mp hm with hm | hm
      · exact h.answered u b hm
      · exact hok u b hm
    obtain ⟨x, hx, hacc, replyBody, view, i, hsent, hrest⟩ := hx
    obtain ⟨x', hx', hl⟩ := exists_later hlater hx
    refine ⟨x', hx', hl.accepted ▸ hacc, replyBody, view, i, hl.sent _ hsent, ?_⟩
    rw [hl.callers]
    exact hrest
  · obtain ⟨x, hx, hl⟩ := exists_earlier hlater hx'
    rw [hl.callers]
    rw [hl.accepted] at ha
    rcases mem_append.mp hm with hm | hm
    · exact h.refused u r hm x hx ha
    · exact absurd hm (href u r)
  · refine ⟨?_, h.encoded_later hlater, by simp, by simp, fun _ => ⟨rfl, h.settled⟩, h.shut,
      False.elim, by simp⟩
    have := h.order
    rw [hp] at this
    simpa [hflat.2, packed] using this

/-- The pump leaves its loop: what it had deferred is refused. -/
theorem Inv.endWith (h : Inv { s with pump := .idle }) (r : RefusedReason) (p : Pump)
    (hp : p = .dropping ∨ p = .closing r) :
    Inv { resolveEntries (.refused r) s.deferred s with deferred := [], pump := p } := by
  obtain ⟨budget, heq⟩ := resolveEntries_eq (.refused r) s.deferred s
  have hpacked : packedBy p = [] := by rcases hp with rfl | rfl <;> rfl
  rw [heq]
  refine h.refuseEntries s.deferred r rfl (fun u => ?_) rfl rfl rfl rfl ?_
  · simp only [waits_eq, packed, hpacked, packedBy_idle, idsOf_nil, count_nil]
    omega
  · refine ⟨?_, h.encoded, ?_, ?_, fun _ => h.landed (by simp), h.shut, fun _ => rfl, ?_⟩
    · refine Sublist.trans ?_ h.order
      simp [packed, hpacked]
    all_goals rcases hp with rfl | rfl <;> simp

theorem Inv.tellInFlight (h : Inv s) (hp : s.packed = []) (err : BatchError)
    (hne : ∀ r, err ≠ .refused r) :
    Inv { (s.resolveAll s.inFlight err).settle with pump := .idle } := by
  refine h.land hp (s.inFlight.map fun u => (u, .error err)) (fun u => ?_) (fun u _ => ?_)
    (by simp) ?_
  · simp [Function.comp_def]
  · simp [Function.comp_def]
  · intro u r hm
    simp only [mem_map, Prod.mk.injEq, Except.error.injEq] at hm
    obtain ⟨-, -, -, herr⟩ := hm
    exact hne r herr

theorem beginDrop_inv (h : Inv s) (hp : s.packed = []) : Inv s.beginDrop :=
  Inv.endWith (s := (s.resolveAll s.inFlight (.outcomeUnknown .pumpGone)).settle)
    (h.tellInFlight hp _ (by simp)) .pumpGone .dropping (.inl rfl)

theorem giveUp_inv (h : Inv s) (hp : s.packed = []) (r : RefusedReason) :
    Inv (s.giveUp (some (.outcomeUnknown .stalled)) r) :=
  Inv.endWith (s := (s.resolveAll s.inFlight (.outcomeUnknown .stalled)).settle)
    (h.tellInFlight hp _ (by simp)) r _ (.inr rfl)

theorem abandon_inv (h : Inv s) (hp : s.packed = []) (r : RefusedReason)
    (hc : ∀ u ∈ s.inFlight, u ∈ s.canceled) : Inv (s.giveUp none r) := by
  refine Inv.endWith (s := s.settle) ?_ r _ (.inr rfl)
  have := h.land hp [] (by simp) (fun u hu => ?_) (by simp) (by simp)
  · simpa [settle, settleLast] using this
  · exact (count_eq_zero.mpr (fun hm => hu (hc u hm))).symm

/-! ## The body in flight -/

theorem demux_land (h : Inv s) (hp : s.pump = .inFlight) (hx : s.bodies.getLast? = some x)
    {replyBody : Bytes} (hr : x.reply = .sent replyBody) :
    Inv { (s.demux s.inFlight replyBody).settle with pump := .idle } := by
  have hpacked : s.packed = [] := by rw [packed, hp]; rfl
  obtain ⟨before, y, hb, hacc, -, hfly, -⟩ := h.flying hp
  obtain rfl : y = x := by simpa [hb] using hx
  have hmem : y ∈ s.bodies := by simp [hb]
  unfold demux
  split
  · exact h.tellInFlight hpacked _ (by simp)
  · rename_i view hview
    split
    · exact h.tellInFlight hpacked _ (by simp)
    · rename_i hcount
      have hcount : view.count = s.inFlight.length := not_not.mp hcount
      have hlen := RawView.length_unitList hview
      have hfst : ((s.inFlight.zip view.unitList).map
          fun r => (r.1, (Except.ok r.2 : Except BatchError Bytes))).map (·.1) = s.inFlight := by
        rw [map_map]
        exact map_fst_zip (by omega)
      refine h.land hpacked ((s.inFlight.zip view.unitList).map fun r => (r.1, .ok r.2))
        (fun u => by rw [hfst]) (fun u _ => by rw [hfst]) (fun u b hm => ?_) (by simp)
      obtain ⟨⟨v, c⟩, hz, heq⟩ := mem_map.mp hm
      cases heq
      obtain ⟨i, hi⟩ := mem_iff_getElem?.mp hz
      obtain ⟨hi1, hi2⟩ := getElem?_zip_eq_some.mp hi
      exact ⟨y, hmem, hacc, replyBody, view, i, hr, hview, by rw [hcount, hfly], hfly ▸ hi1, hi2⟩

theorem await_inv (h : Inv s) (hp : s.pump = .inFlight) (timer : Bool) : Inv (s.await timer) := by
  have hpacked : s.packed = [] := by rw [packed, hp]; rfl
  unfold await
  split
  · exact h
  · rename_i x hx
    split
    · rename_i replyBody hr
      exact demux_land h hp hx hr
    · refine h.tellInFlight hpacked _ ?_
      intro r
      unfold Handle.replyDroppedReason
      split <;> simp [submitFailure]
    · split
      · exact giveUp_inv h hpacked _
      · split
        · rename_i hall
          simp only [Bool.and_eq_true, all_eq_true, decide_eq_true_eq] at hall
          exact abandon_inv h hpacked _ hall.2
        · exact h

/-! ## Packing -/

theorem popEntry_eq {e : Entry} (h : s.popEntry = some (e, s')) :
    ∃ d es, s' = { s with deferred := d, entries := es } ∧
      s.deferred ++ s.entries = e :: (d ++ es) ∧ (s.entries = [] → es = []) := by
  unfold popEntry at h
  split at h
  · rename_i e' rest hd
    cases h
    exact ⟨rest, s.entries, rfl, by rw [hd]; rfl, fun he => he⟩
  · rename_i hd
    split at h
    · rename_i e' rest he
      cases h
      exact ⟨s.deferred, rest, rfl, by rw [hd, he]; rfl, by rw [he]; simp⟩
    · cases h

theorem pushAll_of_fits (us : List PendingUnit) : ∀ {b : BatchBuilder} {units : List Bytes},
    b.Builds units →
    b.bytesUsed + (us.map fun u => batchUnitOverhead + u.body.length).sum ≤ b.budget →
    ∃ b', pushAll us b = .ok b' ∧ b'.Builds (units ++ us.map (·.body)) ∧ b'.budget = b.budget ∧
      b'.bytesUsed = b.bytesUsed + (us.map fun u => batchUnitOverhead + u.body.length).sum := by
  induction us with
  | nil =>
    intro b units hb _
    exact ⟨b, rfl, by simpa using hb, rfl, by simp⟩
  | cons u us ih =>
    intro b units hb hfits
    simp only [map_cons, sum_cons] at hfits
    obtain ⟨b1, hpush⟩ : ∃ b1, b.push u.body = .ok b1 := by
      unfold BatchBuilder.push
      rw [if_pos (by unfold BatchBuilder.bytesUsed at hfits; omega)]
      exact ⟨_, rfl⟩
    have hbuilds := hb.push hpush
    obtain ⟨-, rfl⟩ := BatchBuilder.push_eq_ok hpush
    have hused : BatchBuilder.bytesUsed { b with
        buf := b.buf ++ beBytes 4 u.body.length ++ u.body, count := b.count + 1 }
        = b.bytesUsed + (batchUnitOverhead + u.body.length) := by
      simp [BatchBuilder.bytesUsed, batchUnitOverhead]
    obtain ⟨b', hall, hb', hbudget, hused'⟩ := ih hbuilds (by
      rw [hused]
      change _ ≤ b.budget
      omega)
    refine ⟨b', by rw [pushAll, hpush]; exact hall, by simpa using hb', hbudget, ?_⟩
    rw [hused', hused]
    simp only [map_cons, sum_cons]
    omega

theorem length_unitsOf (es : List Entry) : (unitsOf es).length = (idsOf es).length := by
  simp [unitsOf, idsOf, Entry.ids, length_flatMap]

/-- A unit in the body being packed has not been told anything. -/
theorem Counted.not_told (h : Counted s) {u : UnitId} {r : Except BatchError Bytes}
    (hr : (u, r) ∈ s.resolved) : u ∉ idsOf s.packed := by
  intro hu
  have htold : 0 < s.told u := count_pos_iff.mpr (mem_map.mpr ⟨_, hr, rfl⟩)
  have hpacked := count_pos_iff.mpr hu
  have honce := h.once u
  rw [places, waits_eq] at honce
  omega

/-- A body the driver did not take: its callers are told why. -/
theorem ship_refused (h : Inv s)
    (hp : s.pump = .packing b es) {body : Bytes}
    (hbody : body = beBytes 4 (unitsOf es).length ++ encodeUnits (unitsOf es)) (e : DriverError)
    (budget : InflightBudget) (faults : List Fault) :
    Inv { s with
      budget, faults
      bodies := s.bodies ++ [{ entries := es, body, refusal := some e, settled := true }]
      resolved := s.resolved ++ (idsOf es).map fun u => (u, .error (submitFailure e))
      pump := .idle } := by
  have hes : s.packed = es := by rw [packed, hp]; rfl
  obtain ⟨hfly, hsettled⟩ := h.landed (by rw [hp]; simp)
  have hmem : ∀ x ∈ s.bodies ++ [{ entries := es, body, refusal := some e, settled := true }],
      x.accepted = true → x ∈ s.bodies := by
    intro x hx ha
    rcases mem_append.mp hx with hx | hx
    · exact hx
    · rw [mem_singleton.mp hx] at ha
      simp [Submitted.accepted] at ha
  refine ⟨h.toCounted.of_conserves ⟨rfl, subset_rfl, fun u => ?_, fun u _ => ?_, fun u => ?_⟩,
    ⟨fun u c hm => ?_, fun u r hm x hx ha => ?_⟩, ?_⟩
  · rw [places, places, told_append rfl]
    simp only [waits_eq, packed, hp, packedBy_idle, packedBy_packing, idsOf_nil, count_nil]
    omega
  · rw [places, places, told_append rfl]
    simp only [waits_eq, packed, hp, packedBy_idle, packedBy_packing, idsOf_nil, count_nil]
    omega
  · simp only [waits_eq, rode, packed, hp, packedBy_idle, packedBy_packing,
      count_nil, flatMap_append, count_append, flatMap_cons, flatMap_nil,
      append_nil, Submitted.callers, idsOf]
    omega
  · have hold : (u, Except.ok c) ∈ s.resolved := by simpa using hm
    obtain ⟨x, hx, hans⟩ := h.answered u c hold
    exact ⟨x, mem_append_left _ hx, hans⟩
  · have hx := hmem x hx ha
    rcases mem_append.mp hm with hm | hm
    · exact h.refused u r hm x hx ha
    · obtain ⟨v, hv, heq⟩ := mem_map.mp hm
      obtain rfl : v = u := congrArg Prod.fst heq
      refine h.toCounted.not_rode ?_ x hx
      rw [waits_eq, hes]
      have := count_pos_iff.mpr hv
      omega
  · refine ⟨?_, ?_, by simp, by simp, fun _ => ⟨hfly, ?_⟩, h.shut, False.elim, by simp⟩
    · have := h.order
      rw [hes] at this
      simpa [packed] using this
    · intro x hx
      rcases mem_append.mp hx with hx | hx
      · exact h.encoded x hx
      · rw [mem_singleton.mp hx]
        exact hbody
    · intro x hx
      rcases mem_append.mp hx with hx | hx
      · exact hsettled x hx
      · rw [mem_singleton.mp hx]

/-- A body the driver took is in flight. -/
theorem ship_accepted (h : Inv s)
    (hp : s.pump = .packing b es) {body : Bytes}
    (hbody : body = beBytes 4 (unitsOf es).length ++ encodeUnits (unitsOf es)) (handle : Handle)
    (budget : InflightBudget) :
    Inv { s with
      budget, handle
      bodies := s.bodies ++ [{ entries := es, body }]
      inFlight := idsOf es
      pump := .inFlight } := by
  have hes : s.packed = es := by rw [packed, hp]; rfl
  obtain ⟨hfly, hsettled⟩ := h.landed (by rw [hp]; simp)
  refine ⟨h.toCounted.of_conserves ⟨rfl, subset_rfl, fun u => ?_, fun u _ => ?_, fun u => ?_⟩,
    ⟨fun u c hm => ?_, fun u r hm x hx ha => ?_⟩, ?_⟩
  · simp only [places, told, waits_eq, packed, hp, hfly, packedBy_inFlight, packedBy_packing,
      idsOf_nil, count_nil]
    omega
  · simp only [places, told, waits_eq, packed, hp, hfly, packedBy_inFlight, packedBy_packing,
      idsOf_nil, count_nil]
    omega
  · simp only [waits_eq, rode, packed, hp, packedBy_inFlight, packedBy_packing,
      count_nil, flatMap_append, count_append, flatMap_cons, flatMap_nil,
      append_nil, Submitted.callers, idsOf]
    omega
  · obtain ⟨x, hx, hans⟩ := h.answered u c hm
    exact ⟨x, mem_append_left _ hx, hans⟩
  · rcases mem_append.mp hx with hx | hx
    · exact h.refused u r hm x hx ha
    · rw [mem_singleton.mp hx]
      exact hes ▸ h.toCounted.not_told hm
  · refine ⟨?_, ?_, by simp, fun _ => ⟨s.bodies, _, rfl, rfl, rfl, rfl, hsettled⟩, by simp, h.shut,
      False.elim, by simp⟩
    · have := h.order
      rw [hes] at this
      simpa [packed] using this
    · intro x hx
      rcases mem_append.mp hx with hx | hx
      · exact h.encoded x hx
      · rw [mem_singleton.mp hx]
        exact hbody

theorem ship_inv (h : Inv s) (hp : s.pump = .packing b es) : Inv (s.ship b es) := by
  have hes : s.packed = es := by rw [packed, hp]; rfl
  unfold ship
  dsimp only
  split
  · rename_i hnone
    have hids : idsOf es = [] := isEmpty_iff.mp hnone
    refine ⟨h.toCounted.of_conserves ⟨rfl, subset_rfl, fun u => ?_, fun u _ => ?_, fun u => ?_⟩,
      { h.toOutcomes with },
      ⟨?_, h.encoded, by simp, by simp, fun _ => h.landed (by rw [hp]; simp), h.shut, False.elim,
        by simp⟩⟩
    case refine_4 =>
      refine Sublist.trans ?_ h.order
      simp [packed]
    all_goals
      simp only [places, told, rode, waits_eq, packed, hp, packedBy_idle, packedBy_packing, hids,
        idsOf_nil, count_nil, le_refl]
  · rename_i hsome
    have hunits : unitsOf es ≠ [] := by
      intro hnil
      have := length_unitsOf es
      rw [hnil] at this
      exact hsome (isEmpty_iff.mpr (length_eq_zero_iff.mp this.symm))
    rw [(h.builds b es hp).finish hunits]
    dsimp only
    obtain ⟨budget, hbudget⟩ := foldl_dropEntry_eq es s
    rw [hbudget]
    dsimp only
    split
    · exact ship_refused h hp rfl _ _ _
    · exact ship_accepted h hp rfl _ _

theorem pack_inv (h : Inv s) (hp : s.pump = .packing b es) : Inv (s.pack b es) := by
  unfold pack
  split
  · exact ship_inv h hp
  · rename_i e s' hpop
    obtain ⟨d, ws, rfl, hlist, hshut⟩ := popEntry_eq hpop
    have hcount : ∀ u, (idsOf s.deferred).count u + (idsOf s.entries).count u
        = e.ids.count u + (idsOf d).count u + (idsOf ws).count u := by
      intro u
      have := congrArg (fun l => (idsOf l).count u) hlist
      simp only [idsOf_append, idsOf_cons, count_append] at this
      omega
    have horder : (s.bodies.flatMap Submitted.entries ++ es ++ (e :: (d ++ ws))).Sublist
        s.enqueued := by
      have := h.order
      rwa [packed, hp, packedBy_packing, append_assoc _ s.deferred, hlist] at this
    have hdrop : (s.bodies.flatMap Submitted.entries ++ es ++ d ++ ws).Sublist s.enqueued := by
      refine Sublist.trans ?_ horder
      rw [append_assoc _ d ws]
      exact Sublist.append_left (sublist_cons_self _ _) _
    have hflat : s.pump ≠ .inFlight := by rw [hp]; simp
    -- the state after the pop, wherever the entry goes next
    have hshape : Shape { s with deferred := d, entries := ws } :=
      { h.toShape with
        order := by rw [packed, hp]; exact hdrop
        shut := fun hc => hshut (h.shut hc)
        ending := by rw [hp]; exact False.elim }
    split
    · rename_i hcanceled
      have hall : ∀ u ∈ e.ids, u ∈ s.canceled := by
        simpa [fullyCanceled, Entry.ids] using hcanceled
      refine ⟨h.toCounted.of_conserves ⟨rfl, subset_rfl, fun u => ?_, fun u hu => ?_, fun u => ?_⟩,
        { h.toOutcomes with }, { hshape with }⟩
      · have := hcount u
        simp only [places, told, waits_eq, packed, dropEntry]
        omega
      · have := hcount u
        have hzero : e.ids.count u = 0 := count_eq_zero.mpr (fun hm => hu (hall u hm))
        simp only [places, told, waits_eq, packed, dropEntry]
        omega
      · have := hcount u
        simp only [rode, waits_eq, packed, dropEntry]
        omega
    · split
      · split
        · obtain ⟨budget, heq⟩ := resolveEntries_eq
            (.refused (if 1 < e.units.length then .groupTooLarge else .unitTooLarge)) [e]
            { s with deferred := d, entries := ws, faults := .entryOverEmptyBody :: s.faults }
          rw [heq]
          refine h.refuseEntries [e] _ rfl (fun u => ?_) rfl rfl rfl rfl { hshape with }
          have := hcount u
          simp only [waits_eq, idsOf_cons, idsOf_nil, append_nil, packed]
          omega
        · refine ship_inv ?_ hp
          refine ⟨h.toCounted.of_conserves ⟨rfl, subset_rfl, fun u => ?_, fun u _ => ?_,
            fun u => ?_⟩, { h.toOutcomes with }, { hshape with order := ?_, ending := ?_ }⟩
          case refine_4 =>
            rw [packed, hp]
            simpa using horder
          case refine_5 => rw [hp]; exact False.elim
          all_goals
            have := hcount u
            simp only [places, told, rode, waits_eq, packed, idsOf_cons, count_append]
            omega
      · rename_i hfits
        have hfits : b.bytesUsed + e.encodedLen ≤ b.budget := by
          simp only [BodyLimits.fitsOpenBody, Bool.not_eq_true', Bool.and_eq_false_iff,
            decide_eq_false_iff_not, not_or, not_not] at hfits
          exact hfits.2
        obtain ⟨b', hpush, hbuilds, -, -⟩ := pushAll_of_fits e.units (h.builds b es hp) hfits
        rw [hpush]
        refine ⟨h.toCounted.of_conserves ⟨rfl, subset_rfl, fun u => ?_, fun u _ => ?_,
          fun u => ?_⟩, { h.toOutcomes with }, ?_⟩
        case refine_4 =>
          refine ⟨?_, h.encoded, ?_, by simp, fun _ => h.landed hflat,
            fun hc => hshut (h.shut hc), False.elim, by simp⟩
          · simpa [packed] using horder
          · rintro _ _ ⟨⟩
            simpa [unitsOf] using hbuilds
        all_goals
          have := hcount u
          simp only [places, told, rode, waits_eq, packed, hp, packedBy_packing, idsOf_append,
            idsOf_cons, idsOf_nil, append_nil, count_append]
          omega

theorem recv_inv (h : Inv s) (hp : s.pump = .idle) : Inv s.recv := by
  have hpacked : s.packed = [] := by rw [packed, hp]; rfl
  have hflat : s.pump ≠ .inFlight := by rw [hp]; simp
  -- an empty body is open, with the same entries behind it
  have opened : ∀ d es, s.deferred ++ s.entries = d ++ es → (s.closed = true → es = []) →
      Inv { s with
        deferred := d, entries := es, pump := .packing (.new s.limits.submitLimit) [] } := by
    intro d es hlist hshut
    have hcount : ∀ u, (idsOf s.deferred).count u + (idsOf s.entries).count u
        = (idsOf d).count u + (idsOf es).count u := by
      intro u
      have := congrArg (fun l => (idsOf l).count u) hlist
      simpa only [idsOf_append, count_append] using this
    refine ⟨h.toCounted.of_conserves ⟨rfl, subset_rfl, fun u => ?_, fun u _ => ?_, fun u => ?_⟩,
      { h.toOutcomes with }, ⟨?_, h.encoded, ?_, by simp, fun _ => h.landed hflat, hshut,
        False.elim, by simp⟩⟩
    case refine_4 =>
      have := h.order
      rw [packed, hp, packedBy_idle, append_assoc _ s.deferred, hlist] at this
      simpa [packed] using this
    case refine_5 =>
      rintro _ _ ⟨⟩
      exact BatchBuilder.builds_new _
    all_goals
      have := hcount u
      simp only [places, told, rode, waits_eq, packed, hp, packedBy_packing, packedBy_idle]
      omega
  unfold recv
  dsimp only
  split
  · exact opened s.deferred s.entries rfl h.shut
  · rename_i hd
    split
    · rename_i e rest he
      refine opened [e] rest (by rw [hd, he]; rfl) (fun hc => ?_)
      have := h.shut hc
      rw [he] at this
      cases this
    · split
      · exact beginDrop_inv h hpacked
      · exact h

theorem stepPump_inv (h : Inv s) (timer : Bool) : Inv (s.stepPump timer) := by
  unfold stepPump
  split
  · rename_i hp
    exact recv_inv h hp
  · rename_i b es hp
    exact pack_inv h hp
  · rename_i hp
    exact await_inv h hp timer
  · rename_i reason hp
    obtain ⟨hinv, hpump, -⟩ := closeQueue_inv h reason
    exact beginDrop_inv hinv (by rw [packed, hpump, hp]; rfl)
  · rename_i hp
    obtain ⟨hinv, hpump, hclosed⟩ := closeQueue_inv h .pumpGone
    have hpacked : packedBy (s.closeQueue .pumpGone).pump = [] := by rw [hpump, hp]; rfl
    have hland := hinv.landed (by rw [hpump, hp]; simp)
    have hending := hinv.ending (by rw [hpump, hp]; trivial)
    refine ⟨hinv.toCounted.of_conserves ⟨rfl, subset_rfl, fun u => ?_, fun u _ => ?_, fun u => ?_⟩,
      { hinv.toOutcomes with }, ⟨?_, hinv.encoded, by simp, by simp, fun _ => hland, hinv.shut,
        fun _ => hending, fun _ => hclosed⟩⟩
    case refine_4 =>
      have := hinv.order
      rwa [packed, hpacked] at this
    all_goals
      simp only [places, told, rode, waits_eq, packed, hpacked, packedBy_gone, le_refl]
  · exact h

theorem dropPump_inv (h : Inv s) : Inv s.dropPump := by
  unfold dropPump
  split
  · rename_i hp
    exact beginDrop_inv h (by rw [packed, hp]; rfl)
  · rename_i hp
    exact beginDrop_inv h (by rw [packed, hp]; rfl)
  · exact h

/-! ## The driver -/

theorem forall₂_concat (h : Forall₂ R (bs ++ [x]) bs') :
    ∃ cs x', bs' = cs ++ [x'] ∧ Forall₂ R bs cs ∧ R x x' := by
  induction bs generalizing bs' with
  | nil =>
    cases h with
    | cons hx hnil =>
      cases hnil
      exact ⟨[], _, rfl, .nil, hx⟩
  | cons b bs ih =>
    cases h with
    | cons hb htail =>
      obtain ⟨cs, x', rfl, hcs, hx⟩ := ih htail
      exact ⟨_ :: cs, x', rfl, .cons hb hcs, hx⟩

/-- The driver works on bodies it was given, without touching what the pump holds. -/
theorem Inv.updateBodies (h : Inv s)
    (hb : Forall₂ (fun x x' => x.Later x' ∧ x'.settled = x.settled) s.bodies bs)
    (handle : Handle) (owes : Option Nat) : Inv { s with bodies := bs, handle, owes } := by
  have hlater : Forall₂ Submitted.Later s.bodies bs := hb.imp fun _ _ hx => hx.1
  have hflat := flatMap_callers_later hlater
  have hr : s.resolved = s.resolved ++
      ([] : List UnitId).map fun u => (u, .error (.outcomeUnknown .driver)) := by simp
  refine ⟨h.toCounted.of_conserves ⟨rfl, subset_rfl, fun u => le_rfl, fun u _ => rfl, fun u => ?_⟩,
    h.toOutcomes.tell hlater hr (by simp), ?_⟩
  · rw [rode, hflat.1, rode]
    exact le_rfl
  · refine { h.toShape with
      order := ?_, encoded := h.encoded_later hlater, flying := fun hp => ?_,
      landed := fun hp => ?_ }
    · rw [hflat.2]
      exact h.order
    · obtain ⟨before, x, hbodies, hacc, hopen, hfly, hsettled⟩ := h.flying hp
      rw [hbodies] at hb
      obtain ⟨cs, x', rfl, hcs, hx⟩ := forall₂_concat hb
      refine ⟨cs, x', rfl, hx.1.accepted ▸ hacc, hx.2 ▸ hopen, by rw [hx.1.callers]; exact hfly, ?_⟩
      intro y' hy'
      obtain ⟨y, hy, hyy⟩ := exists_earlier hcs hy'
      exact hyy.2 ▸ hsettled y hy
    · obtain ⟨hfly, hsettled⟩ := h.landed hp
      refine ⟨hfly, fun x' hx' => ?_⟩
      obtain ⟨x, hx, hxx⟩ := exists_earlier hb hx'
      exact hxx.2 ▸ hsettled x hx

theorem forall₂_modify (hrefl : ∀ x, R x x) {f : Submitted → Submitted} (bs : List Submitted)
    (i : Nat) (hf : ∀ x, bs[i]? = some x → R x (f x)) : Forall₂ R bs (bs.modify i f) := by
  induction bs generalizing i with
  | nil => simp
  | cons b bs ih =>
    cases i with
    | zero => exact .cons (hf b rfl) (forall₂_same.mpr fun x _ => hrefl x)
    | succ i => exact .cons (hrefl b) (ih i (fun x hx => hf x (by simpa using hx)))

theorem Inv.updateBody (h : Inv s) (i : Nat) (f : Submitted → Submitted)
    (hf : ∀ x, s.bodies[i]? = some x → x.Later (f x) ∧ (f x).settled = x.settled) (handle : Handle)
    (owes : Option Nat) : Inv { s.updateBody i f with handle, owes } :=
  h.updateBodies (forall₂_modify (fun _ => ⟨⟨rfl, rfl, rfl, fun _ h => h⟩, rfl⟩) s.bodies i hf)
    handle owes

theorem receive_inv (h : Inv s) (i : Nat) : Inv (s.receive i) := by
  unfold receive
  split
  · split
    · refine h.updateBody i _ ?_ _ _
      exact fun _ _ => ⟨⟨rfl, rfl, rfl, fun _ h => h⟩, rfl⟩
    · exact h
  · exact h

theorem answer_inv (h : Inv s) (i : Nat) (replyBody : Bytes) : Inv (s.answer i replyBody) := by
  unfold answer
  split
  · rename_i b _ hb
    split
    · rename_i hguard
      have hwait : b.reply = .waiting := by simp_all
      refine h.updateBody i _ ?_ _ _
      refine fun x hx => ⟨⟨rfl, rfl, rfl, fun c hc => ?_⟩, rfl⟩
      obtain rfl : b = x := by simpa [hb] using hx
      rw [hwait] at hc
      cases hc
    · exact h
  · exact h

theorem dropReply_inv (h : Inv s) (i : Nat) : Inv (s.dropReply i) := by
  unfold dropReply
  split
  · rename_i b _ hb
    split
    · rename_i hguard
      have hwait : b.reply = .waiting := by simp_all
      refine h.updateBody i _ ?_ _ _
      refine fun x hx => ⟨⟨rfl, rfl, rfl, fun c hc => ?_⟩, rfl⟩
      obtain rfl : b = x := by simpa [hb] using hx
      rw [hwait] at hc
      cases hc
    · exact h
  · exact h

theorem releaseOwed_inv (h : Inv s) : Inv s.releaseOwed := by
  unfold releaseOwed
  split
  · exact h
  · split
    · exact h
    · refine h.updateBody _ _ ?_ _ _
      exact fun _ _ => ⟨⟨rfl, rfl, rfl, fun _ h => h⟩, rfl⟩

/-! ## Runs -/

theorem step_inv (h : Inv s) (i : Input) : Inv (s.step i) := by
  cases i with
  | submit unit =>
    simp only [step]
    split
    · exact h
    · exact reserve_inv h _ _
  | submitGroup units =>
    simp only [step, submitGroup]
    split
    · exact h
    · split
      · exact h
      · exact reserve_inv h _ _
  | send i => exact send_inv h i
  | cancel u => exact cancel_inv h u
  | cloneHandle =>
    simp only [step]
    split
    · exact h
    · exact { h with }
  | dropHandle => exact { h with }
  | pump timer => exact stepPump_inv h timer
  | dropPump => exact dropPump_inv h
  | receive i => exact receive_inv h i
  | answer i replyBody => exact answer_inv h i replyBody
  | dropReply i => exact dropReply_inv h i
  | releaseOwed => exact releaseOwed_inv h
  | retire localMember epoch =>
    simp only [step, retire]
    split
    · exact h
    · exact { h with }
  | disconnect => exact { h with }

end Aggregator

end Viewstamp
