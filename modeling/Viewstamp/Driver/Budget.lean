import Viewstamp.Driver.Handle

/- The in-flight budget under concurrency.

   Handles share two counters and nothing else. A reservation adds to the one, then
   to the other, and then compares the two sums it has seen with the caps; if either
   is over, it takes both amounts back, again one after the other. Between these
   steps any other thread may run. A thread is modelled by where it stands between
   two of its atomic steps, so a state says what every thread has added and not yet
   taken back; `advance` runs one step of one thread. The counters are machine words
   and wrap.

   A reserver judges by the sum it saw at its own addition. What keeps the committed
   reservations within the caps is that the sum included every earlier addition that
   can still be committed (`Within`). -/
namespace Viewstamp

open List

/-- What a guard holds. -/
structure Reservation where
  count : Nat
  bytes : Nat
  deriving DecidableEq

/-- Where a thread stands in `try_acquire_many` or in the drop of a guard. -/
inductive Phase where
  | idle
  /-- The slots are added; the sum was `newCount`. -/
  | counted (r : Reservation) (newCount : Nat)
  /-- Both amounts are added; the sums were `newCount` and `newBytes`. -/
  | added (r : Reservation) (newCount newBytes : Nat)
  | rollingBack (r : Reservation)
  | rollingBackBytes (r : Reservation)
  | dropping (r : Reservation)
  | droppingBytes (r : Reservation)
  deriving DecidableEq

/-- The counters, the threads and the guards that are alive. A guard may be moved from one thread
to another, so it belongs to none. -/
structure SharedBudget where
  budget : InflightBudget
  threads : List Phase
  guards : List Reservation := []
  deriving DecidableEq

namespace SharedBudget

/-- Nothing is reserved, and `threads` threads share the budget. -/
def new (maxCount maxBytes threads : Nat) : SharedBudget where
  budget := { maxCount, maxBytes }
  threads := replicate threads .idle

/-- `fetch_add` on a word of `word` values. -/
def fetchAdd (word counter amount : Nat) : Nat := (counter + amount) % word

/-- `fetch_sub` on a word of `word` values. -/
def fetchSub (word counter amount : Nat) : Nat := (counter + (word - amount % word)) % word

inductive Action where
  /-- A thread enters `try_acquire_many` and adds the slots. -/
  | acquire (thread : Nat) (r : Reservation)
  /-- A thread starts to drop a guard. -/
  | drop (thread guard : Nat)
  /-- A thread takes the next step of what it is doing. -/
  | advance (thread : Nat)
  deriving DecidableEq

/-- The next atomic step of a thread that stands at `p`. -/
def advance (word : Nat) (s : SharedBudget) (thread : Nat) : Phase → Option SharedBudget
  | .idle => none
  | .counted r newCount =>
    let bytes := fetchAdd word s.budget.bytes r.bytes
    some { s with
      budget := { s.budget with bytes }
      threads := s.threads.set thread (.added r newCount bytes) }
  | .added r newCount newBytes =>
    if newCount > s.budget.maxCount ∨ newBytes > s.budget.maxBytes then
      some { s with threads := s.threads.set thread (.rollingBack r) }
    else some { s with threads := s.threads.set thread .idle, guards := r :: s.guards }
  | .rollingBack r =>
    some { s with
      budget := { s.budget with count := fetchSub word s.budget.count r.count }
      threads := s.threads.set thread (.rollingBackBytes r) }
  | .rollingBackBytes r =>
    some { s with
      budget := { s.budget with bytes := fetchSub word s.budget.bytes r.bytes }
      threads := s.threads.set thread .idle }
  | .dropping r =>
    some { s with
      budget := { s.budget with count := fetchSub word s.budget.count r.count }
      threads := s.threads.set thread (.droppingBytes r) }
  | .droppingBytes r =>
    some { s with
      budget := { s.budget with bytes := fetchSub word s.budget.bytes r.bytes }
      threads := s.threads.set thread .idle }

/-- One atomic step of one thread. -/
def step (word : Nat) (s : SharedBudget) : Action → Option SharedBudget
  | .acquire thread r =>
    if s.threads[thread]? = some .idle then
      let count := fetchAdd word s.budget.count r.count
      some { s with
        budget := { s.budget with count }
        threads := s.threads.set thread (.counted r count) }
    else none
  | .drop thread guard =>
    match s.guards[guard]? with
    | some r =>
      if s.threads[thread]? = some .idle then
        some { s with
          threads := s.threads.set thread (.dropping r)
          guards := s.guards.eraseIdx guard }
      else none
    | none => none
  | .advance thread => (s.threads[thread]?).bind (s.advance word thread)

end SharedBudget

/-! ## What each counter stands for -/

/-- The two counters are kept in the same way. -/
inductive Counter where
  | count
  | bytes
  deriving DecidableEq

def Reservation.amount (r : Reservation) : Counter → Nat
  | .count => r.count
  | .bytes => r.bytes

def InflightBudget.value (b : InflightBudget) : Counter → Nat
  | .count => b.count
  | .bytes => b.bytes

def InflightBudget.cap (b : InflightBudget) : Counter → Nat
  | .count => b.maxCount
  | .bytes => b.maxBytes

namespace Phase

/-- What an acquisition has added to a counter and not taken back. -/
def acquiring : Phase → Counter → Nat
  | .counted r _, .count => r.count
  | .added r _ _, c => r.amount c
  | .rollingBack r, c => r.amount c
  | .rollingBackBytes r, .bytes => r.bytes
  | _, _ => 0

/-- What a drop has yet to take from a counter. -/
def releasing : Phase → Counter → Nat
  | .dropping r, c => r.amount c
  | .droppingBytes r, .bytes => r.bytes
  | _, _ => 0

/-- What an acquisition has added to a counter with a sum that was within the cap: it may still
keep it. -/
def passing (cap : Nat) : Phase → Counter → Nat
  | .counted r newCount, .count => if newCount ≤ cap then r.count else 0
  | .added r newCount _, .count => if newCount ≤ cap then r.count else 0
  | .added r _ newBytes, .bytes => if newBytes ≤ cap then r.bytes else 0
  | _, _ => 0

/-- What the next step of the thread subtracts, if it subtracts. -/
def subtracts : Phase → Option (Counter × Nat)
  | .rollingBack r | .dropping r => some (.count, r.count)
  | .rollingBackBytes r | .droppingBytes r => some (.bytes, r.bytes)
  | _ => none

theorem passing_le (p : Phase) (cap : Nat) (c : Counter) : p.passing cap c ≤ p.acquiring c := by
  cases p <;> cases c <;> simp only [passing, acquiring, Reservation.amount] <;>
    first | exact le_refl _ | exact Nat.zero_le _ | (split <;> simp)

end Phase

namespace SharedBudget

variable {word amount i bits maxCount maxBytes : Nat}

/-- The total of the live guards. -/
def live (s : SharedBudget) (c : Counter) : Nat := (s.guards.map (·.amount c)).sum

def acquiring (s : SharedBudget) (c : Counter) : Nat := (s.threads.map (·.acquiring c)).sum

def releasing (s : SharedBudget) (c : Counter) : Nat := (s.threads.map (·.releasing c)).sum

def passing (s : SharedBudget) (c : Counter) : Nat :=
  (s.threads.map fun p => p.passing (s.budget.cap c) c).sum

/-- What is reserved in all. -/
def total (s : SharedBudget) (c : Counter) : Nat := s.live c + s.acquiring c + s.releasing c

/-- The totals are below the machine word size. -/
def Fits (word : Nat) (s : SharedBudget) : Prop := ∀ c, s.total c < word

/-- The states any interleaving of the threads reaches, as long as the totals fit a word of `bits`
bits. -/
inductive Reachable (bits maxCount maxBytes : Nat) : SharedBudget → Prop
  | new (threads : Nat) : Reachable bits maxCount maxBytes (.new maxCount maxBytes threads)
  | step {s s' : SharedBudget} (a : Action) (h : Reachable bits maxCount maxBytes s)
      (hs : s.step (2 ^ bits) a = some s') (fits : s'.Fits (2 ^ bits)) :
      Reachable bits maxCount maxBytes s'

/-! ## The accounts balance -/

section Sums

variable {α : Type} (f : α → Nat) {x y : α} {l : List α}

theorem sum_map_eraseIdx (h : l[i]? = some y) :
    ((l.eraseIdx i).map f).sum + f y = (l.map f).sum := by
  obtain ⟨hi, rfl⟩ := List.getElem?_eq_some_iff.mp h
  rw [← ((getElem_cons_eraseIdx_perm hi).map f).sum_eq, map_cons, sum_cons, Nat.add_comm]

theorem sum_map_set (x : α) (h : l[i]? = some y) :
    ((l.set i x).map f).sum + f y = (l.map f).sum + f x := by
  obtain ⟨hi, -⟩ := List.getElem?_eq_some_iff.mp h
  rw [((set_perm_cons_eraseIdx hi x).map f).sum_eq, map_cons, sum_cons, ← sum_map_eraseIdx f h]
  omega

end Sums

theorem fetchAdd_eq {word counter amount total : Nat} (h : counter + amount = total)
    (fits : total < word) : fetchAdd word counter amount = total := by
  rw [fetchAdd, h, Nat.mod_eq_of_lt fits]

/-- A subtraction that does not go below zero is exact. -/
theorem fetchSub_eq {word counter amount total : Nat} (h : counter = total + amount)
    (fits : counter < word) : fetchSub word counter amount = total := by
  have hamount : amount % word = amount := Nat.mod_eq_of_lt (by omega)
  have hsum : counter + (word - amount) = total + word := by omega
  rw [fetchSub, hamount, hsum, Nat.add_mod_right, Nat.mod_eq_of_lt (by omega)]

/-- The counters are the totals, and what is kept or may still be kept is within the caps. -/
structure Balanced (word : Nat) (s : SharedBudget) : Prop where
  fits : s.Fits word
  value : ∀ c, s.budget.value c = s.total c
  within : ∀ c, s.live c + s.releasing c + s.passing c ≤ s.budget.cap c

variable {s s' : SharedBudget} {p p' : Phase}

theorem total_le_acquiring_add (h : s.threads[i]? = some p) (c : Counter) :
    p.acquiring c + p.releasing c ≤ s.total c := by
  have hp := mem_of_getElem? h
  have ha := single_le_sum (fun _ _ => Nat.zero_le _) _
    (mem_map_of_mem (f := (·.acquiring c)) hp)
  have hr := single_le_sum (fun _ _ => Nat.zero_le _) _
    (mem_map_of_mem (f := (·.releasing c)) hp)
  unfold total acquiring releasing
  omega

/-- A subtraction takes back what the thread has added or its guard has held. -/
theorem Balanced.subtracts (hs : s.Balanced word) (h : s.threads[i]? = some p) {c : Counter}
    (hp : p.subtracts = some (c, amount)) : amount ≤ s.budget.value c := by
  have hle := total_le_acquiring_add h c
  rw [hs.value c]
  refine le_trans (le_of_eq ?_) hle
  cases p <;> simp only [Phase.subtracts, Option.some.injEq, Prod.mk.injEq, reduceCtorEq] at hp
  all_goals
    obtain ⟨rfl, rfl⟩ := hp
    simp [Phase.acquiring, Phase.releasing, Reservation.amount]

theorem balanced_new (hword : 0 < word) (maxCount maxBytes threads : Nat) :
    (new maxCount maxBytes threads).Balanced word := by
  have hzero (c : Counter) : (new maxCount maxBytes threads).total c = 0 ∧
      (new maxCount maxBytes threads).passing c = 0 := by
    unfold new total live acquiring releasing passing
    simp [Phase.acquiring, Phase.releasing, Phase.passing]
  refine ⟨fun c => (hzero c).1 ▸ hword, fun c => ?_, fun c => ?_⟩
  · rw [(hzero c).1]
    cases c <;> rfl
  · have h := hzero c
    unfold total at h
    omega

/-- A thread goes from phase `p` to phase `p'`. -/
structure Moved (s s' : SharedBudget) (i : Nat) (p p' : Phase) : Prop where
  phase : s.threads[i]? = some p
  threads : s'.threads = s.threads.set i p'
  cap : ∀ c, s'.budget.cap c = s.budget.cap c

/-- The totals change by what the thread and the guards contribute. -/
theorem Moved.total (h : Moved s s' i p p')
    (c : Counter) :
    s'.total c + (s.live c + p.acquiring c + p.releasing c) =
      s.total c + (s'.live c + p'.acquiring c + p'.releasing c) := by
  have hacquiring := sum_map_set (·.acquiring c) p' h.phase
  have hreleasing := sum_map_set (·.releasing c) p' h.phase
  unfold SharedBudget.total acquiring releasing
  rw [h.threads]
  omega

/-- What has to be checked of a step is what its thread contributes. The claim on the cap grows only
with a sum that is within it. -/
theorem Balanced.moved (hs : s.Balanced word)
    (fits : s'.Fits word) (h : Moved s s' i p p')
    (hvalue : ∀ c, s'.budget.value c = s'.total c)
    (hwithin : ∀ c, s'.live c + p'.releasing c + p'.passing (s.budget.cap c) c ≤
        s.live c + p.releasing c + p.passing (s.budget.cap c) c ∨
      s'.total c ≤ s.budget.cap c) : s'.Balanced word := by
  refine ⟨fits, hvalue, fun c => ?_⟩
  have hpassing := sum_map_set (·.passing (s.budget.cap c) c) p' h.phase
  have hreleasing := sum_map_set (·.releasing c) p' h.phase
  have hle : s'.passing c ≤ s'.acquiring c := sum_le_sum fun p _ => Phase.passing_le p _ c
  have hold := hs.within c
  rw [h.cap c]
  rcases hwithin c with hc | hc
  · unfold passing releasing at hold ⊢
    rw [h.threads, h.cap c]
    omega
  · unfold SharedBudget.total at hc
    omega

/-- An addition to a counter. The reserver that sees a sum within the cap has seen everything that
may still be kept. -/
theorem Balanced.add (hs : s.Balanced word)
    (fits : s'.Fits word) (h : Moved s s' i p p')
    (hguards : s'.guards = s.guards) (c0 : Counter) (amount : Nat)
    (hvalue : s'.budget.value c0 = fetchAdd word (s.budget.value c0) amount)
    (hacquiring : p'.acquiring c0 = p.acquiring c0 + amount)
    (hreleasing : ∀ c, p'.releasing c = p.releasing c)
    (hpassing : s.budget.cap c0 < s'.budget.value c0 →
      p'.passing (s.budget.cap c0) c0 ≤ p.passing (s.budget.cap c0) c0)
    (hother : ∀ c ≠ c0, s'.budget.value c = s.budget.value c ∧ p'.acquiring c = p.acquiring c ∧
      p'.passing (s.budget.cap c) c = p.passing (s.budget.cap c) c) : s'.Balanced word := by
  have hlive (c : Counter) : s'.live c = s.live c := by
    unfold live
    rw [hguards]
  have hnew : s'.budget.value c0 = s'.total c0 := by
    have htotal := h.total c0
    have hold := hs.value c0
    rw [hlive, hacquiring, hreleasing] at htotal
    rw [hvalue]
    exact fetchAdd_eq (by omega) (fits c0)
  refine hs.moved fits h (fun c => ?_) fun c => ?_
  · by_cases hc : c = c0
    · exact hc ▸ hnew
    · obtain ⟨hsame, hacquiring, -⟩ := hother c hc
      have htotal := h.total c
      have hold := hs.value c
      rw [hlive, hacquiring, hreleasing] at htotal
      omega
  · rw [hlive, hreleasing]
    by_cases hc : c = c0
    · subst hc
      by_cases hcap : s'.total c ≤ s.budget.cap c
      · exact .inr hcap
      · have hle := hpassing (by omega)
        exact .inl (by omega)
    · rw [(hother c hc).2.2]
      exact .inl (le_refl _)

/-- A subtraction from a counter takes back what the thread accounts for. -/
theorem Balanced.sub (hs : s.Balanced word)
    (fits : s'.Fits word) (h : Moved s s' i p p')
    (hguards : s'.guards = s.guards) (c0 : Counter) (amount : Nat)
    (hvalue : s'.budget.value c0 = fetchSub word (s.budget.value c0) amount)
    (hsum : p.acquiring c0 + p.releasing c0 = p'.acquiring c0 + p'.releasing c0 + amount)
    (hreleasing : ∀ c, p'.releasing c ≤ p.releasing c)
    (hpassing : ∀ c, p'.passing (s.budget.cap c) c = 0)
    (hother : ∀ c ≠ c0, s'.budget.value c = s.budget.value c ∧
      p'.acquiring c + p'.releasing c = p.acquiring c + p.releasing c) : s'.Balanced word := by
  have hlive (c : Counter) : s'.live c = s.live c := by
    unfold live
    rw [hguards]
  refine hs.moved fits h (fun c => ?_) fun c => ?_
  · have htotal := h.total c
    have hold := hs.value c
    rw [hlive] at htotal
    by_cases hc : c = c0
    · subst hc
      rw [hvalue]
      have hfits := hs.fits c
      exact fetchSub_eq (by omega) (by omega)
    · obtain ⟨hsame, hsum⟩ := hother c hc
      omega
  · have hle := hreleasing c
    rw [hlive, hpassing c]
    exact .inl (by omega)

/-! ## Every step keeps the balance -/

variable {r : Reservation}

theorem Balanced.acquire (hs : s.Balanced word) (h : s.step word (.acquire i r) = some s')
    (fits : s'.Fits word) : s'.Balanced word := by
  obtain ⟨hidle, h⟩ := Option.ite_none_right_eq_some.mp h
  have hmoved : Moved s s' i .idle (.counted r (fetchAdd word s.budget.count r.count)) := by
    cases h
    exact ⟨hidle, rfl, fun _ => rfl⟩
  cases h
  refine hs.add fits hmoved rfl .count r.count rfl ?_ (fun _ => rfl) (fun hover => ?_)
    fun c hc => ?_
  · exact (Nat.zero_add _).symm
  · exact (if_neg (Nat.not_le.mpr hover)).le
  · cases c with
    | count => exact absurd rfl hc
    | bytes => exact ⟨rfl, rfl, rfl⟩

theorem Balanced.drop (hs : s.Balanced word) {i g : Nat} (h : s.step word (.drop i g) = some s')
    (fits : s'.Fits word) : s'.Balanced word := by
  unfold step at h
  dsimp only at h
  split at h
  · rename_i r hguard
    obtain ⟨hidle, h⟩ := Option.ite_none_right_eq_some.mp h
    have hmoved : Moved s s' i .idle (.dropping r) := by
      cases h
      exact ⟨hidle, rfl, fun _ => rfl⟩
    have hlive (c : Counter) : s'.live c + r.amount c = s.live c := by
      cases h
      exact sum_map_eraseIdx (·.amount c) hguard
    have hvalue (c : Counter) : s'.budget.value c = s.budget.value c := by
      cases h
      rfl
    refine hs.moved fits hmoved (fun c => ?_) fun c => .inl ?_
    · have htotal := hmoved.total c
      have hold := hs.value c
      have hlive := hlive c
      simp only [Phase.acquiring, Phase.releasing] at htotal
      rw [hvalue]
      omega
    · have hlive := hlive c
      simp only [Phase.releasing, Phase.passing]
      omega
  · cases h

/-- The verdict: the reservation is kept as a guard, or it is to be taken back. -/
theorem Balanced.decided (hs : s.Balanced word) {newCount newBytes : Nat}
    (hp : s.threads[i]? = some (.added r newCount newBytes))
    (h : s.advance word i (.added r newCount newBytes) = some s') (fits : s'.Fits word) :
    s'.Balanced word := by
  have hvalue (c : Counter) : s'.budget.value c = s.budget.value c := by
    unfold SharedBudget.advance at h
    dsimp only at h
    split at h <;> cases h <;> rfl
  unfold SharedBudget.advance at h
  dsimp only at h
  split at h
  · have hmoved : Moved s s' i (.added r newCount newBytes) (.rollingBack r) := by
      cases h
      exact ⟨hp, rfl, fun _ => rfl⟩
    have hlive (c : Counter) : s'.live c = s.live c := by
      cases h
      rfl
    refine hs.moved fits hmoved (fun c => ?_) fun c => .inl ?_
    · have htotal := hmoved.total c
      have hold := hs.value c
      simp only [Phase.acquiring, Phase.releasing, hlive] at htotal
      rw [hvalue]
      omega
    · simp only [hlive, Phase.releasing, Phase.passing]
      omega
  · rename_i hkept
    have hmoved : Moved s s' i (.added r newCount newBytes) .idle := by
      cases h
      exact ⟨hp, rfl, fun _ => rfl⟩
    have hlive (c : Counter) : s'.live c = r.amount c + s.live c := by
      cases h
      rfl
    refine hs.moved fits hmoved (fun c => ?_) fun c => .inl ?_
    · have htotal := hmoved.total c
      have hold := hs.value c
      simp only [Phase.acquiring, Phase.releasing, hlive] at htotal
      rw [hvalue]
      omega
    · -- both sums were within the caps, so the thread already claimed what the guard holds
      rw [hlive]
      cases c with
      | count =>
        have hcap : newCount ≤ s.budget.cap .count := Nat.not_lt.mp fun h => hkept (.inl h)
        simp only [Phase.releasing, Phase.passing, if_pos hcap, Reservation.amount]
        omega
      | bytes =>
        have hcap : newBytes ≤ s.budget.cap .bytes := Nat.not_lt.mp fun h => hkept (.inr h)
        simp only [Phase.releasing, Phase.passing, if_pos hcap, Reservation.amount]
        omega

/-- A thread that has nothing left to add only gives back: first the slots. -/
theorem Balanced.giveCount (hs : s.Balanced word) (fits : s'.Fits word) (hmoved : Moved s s' i p p')
    (hp : p = .rollingBack r ∧ p' = .rollingBackBytes r ∨ p = .dropping r ∧ p' = .droppingBytes r)
    (hguards : s'.guards = s.guards)
    (hcount : s'.budget.value .count = fetchSub word (s.budget.value .count) r.count)
    (hbytes : s'.budget.value .bytes = s.budget.value .bytes) : s'.Balanced word := by
  refine hs.sub fits hmoved hguards .count r.count hcount ?_ (fun c => ?_) (fun c => ?_)
    fun c hc => ?_
  · rcases hp with ⟨rfl, rfl⟩ | ⟨rfl, rfl⟩ <;>
      simp [Phase.acquiring, Phase.releasing, Reservation.amount]
  · rcases hp with ⟨rfl, rfl⟩ | ⟨rfl, rfl⟩ <;> cases c <;>
      simp [Phase.releasing, Reservation.amount]
  · rcases hp with ⟨rfl, rfl⟩ | ⟨rfl, rfl⟩ <;> rfl
  · cases c with
    | count => exact absurd rfl hc
    | bytes => rcases hp with ⟨rfl, rfl⟩ | ⟨rfl, rfl⟩ <;> exact ⟨hbytes, rfl⟩

/-- Then the bytes. -/
theorem Balanced.giveBytes (hs : s.Balanced word) (fits : s'.Fits word)
    (hmoved : Moved s s' i p .idle) (hp : p = .rollingBackBytes r ∨ p = .droppingBytes r)
    (hguards : s'.guards = s.guards)
    (hbytes : s'.budget.value .bytes = fetchSub word (s.budget.value .bytes) r.bytes)
    (hcount : s'.budget.value .count = s.budget.value .count) : s'.Balanced word := by
  refine hs.sub fits hmoved hguards .bytes r.bytes hbytes ?_ (fun c => ?_) (fun c => rfl)
    fun c hc => ?_
  · rcases hp with rfl | rfl <;> simp [Phase.acquiring, Phase.releasing]
  · exact Nat.zero_le _
  · cases c with
    | bytes => exact absurd rfl hc
    | count => rcases hp with rfl | rfl <;> exact ⟨hcount, rfl⟩

theorem Balanced.advance (hs : s.Balanced word) (hp : s.threads[i]? = some p)
    (h : s.advance word i p = some s') (fits : s'.Fits word) : s'.Balanced word := by
  cases p with
  | idle => cases h
  | counted r newCount =>
    have hmoved : Moved s s' i (.counted r newCount)
        (.added r newCount (fetchAdd word s.budget.bytes r.bytes)) := by
      cases h
      exact ⟨hp, rfl, fun c => by cases c <;> rfl⟩
    cases h
    refine hs.add fits hmoved rfl .bytes r.bytes rfl ?_ (fun _ => rfl) (fun hover => ?_)
      fun c hc => ?_
    · exact (Nat.zero_add _).symm
    · exact (if_neg (Nat.not_le.mpr hover)).le
    · cases c with
      | count => exact ⟨rfl, rfl, rfl⟩
      | bytes => exact absurd rfl hc
  | added r newCount newBytes => exact hs.decided hp h fits
  | rollingBack r =>
    have hmoved : Moved s s' i (.rollingBack r) (.rollingBackBytes r) := by
      cases h
      exact ⟨hp, rfl, fun c => by cases c <;> rfl⟩
    cases h
    exact hs.giveCount fits hmoved (.inl ⟨rfl, rfl⟩) rfl rfl rfl
  | rollingBackBytes r =>
    have hmoved : Moved s s' i (.rollingBackBytes r) .idle := by
      cases h
      exact ⟨hp, rfl, fun c => by cases c <;> rfl⟩
    cases h
    exact hs.giveBytes fits hmoved (.inl rfl) rfl rfl rfl
  | dropping r =>
    have hmoved : Moved s s' i (.dropping r) (.droppingBytes r) := by
      cases h
      exact ⟨hp, rfl, fun c => by cases c <;> rfl⟩
    cases h
    exact hs.giveCount fits hmoved (.inr ⟨rfl, rfl⟩) rfl rfl rfl
  | droppingBytes r =>
    have hmoved : Moved s s' i (.droppingBytes r) .idle := by
      cases h
      exact ⟨hp, rfl, fun c => by cases c <;> rfl⟩
    cases h
    exact hs.giveBytes fits hmoved (.inr rfl) rfl rfl rfl

theorem Balanced.step (hs : s.Balanced word) {a : Action} (h : s.step word a = some s')
    (fits : s'.Fits word) : s'.Balanced word := by
  cases a with
  | acquire i r => exact hs.acquire h fits
  | drop i g => exact hs.drop h fits
  | advance i =>
    obtain ⟨p, hp, h⟩ := Option.bind_eq_some_iff.mp h
    exact hs.advance hp h fits

theorem caps_step {a : Action} (h : s.step word a = some s') :
    s'.budget.maxCount = s.budget.maxCount ∧ s'.budget.maxBytes = s.budget.maxBytes := by
  cases a with
  | acquire i r =>
    obtain ⟨-, h⟩ := Option.ite_none_right_eq_some.mp h
    cases h
    exact ⟨rfl, rfl⟩
  | drop i g =>
    unfold step at h
    dsimp only at h
    split at h
    · obtain ⟨-, h⟩ := Option.ite_none_right_eq_some.mp h
      cases h
      exact ⟨rfl, rfl⟩
    · cases h
  | advance i =>
    obtain ⟨p, -, h⟩ := Option.bind_eq_some_iff.mp h
    cases p with
    | idle => cases h
    | added r newCount newBytes =>
      unfold SharedBudget.advance at h
      dsimp only at h
      split at h <;> cases h <;> exact ⟨rfl, rfl⟩
    | _ =>
      cases h
      exact ⟨rfl, rfl⟩

theorem Reachable.balanced (h : Reachable bits maxCount maxBytes s) :
    s.Balanced (2 ^ bits) ∧ s.budget.maxCount = maxCount ∧ s.budget.maxBytes = maxBytes := by
  induction h with
  | new threads => exact ⟨balanced_new (Nat.two_pow_pos bits) _ _ _, rfl, rfl⟩
  | step a _ hs fits ih =>
    obtain ⟨hbalanced, hcount, hbytes⟩ := ih
    obtain ⟨hcount', hbytes'⟩ := caps_step hs
    exact ⟨hbalanced.step hs fits, hcount'.trans hcount, hbytes'.trans hbytes⟩

/-! ## Schedules -/

instance (word : Nat) (s : SharedBudget) : Decidable (s.Fits word) :=
  decidable_of_iff (s.total .count < word ∧ s.total .bytes < word)
    ⟨fun h c => by cases c; exacts [h.1, h.2], fun h => ⟨h .count, h .bytes⟩⟩

/-- Run a schedule, as long as the totals fit a word of `bits` bits. -/
def run (bits : Nat) : List Action → SharedBudget → Option SharedBudget
  | [], s => some s
  | a :: as, s => (s.step (2 ^ bits) a).bind fun s' =>
    if s'.Fits (2 ^ bits) then run bits as s' else none

theorem Reachable.run :
    ∀ (as : List Action) {s : SharedBudget}, Reachable bits maxCount maxBytes s →
      s.run bits as = some s' → Reachable bits maxCount maxBytes s'
  | [], _, h, hr => by
    cases hr
    exact h
  | a :: as, s, h, hr => by
    unfold SharedBudget.run at hr
    obtain ⟨m, hm, hr⟩ := Option.bind_eq_some_iff.mp hr
    obtain ⟨fits, hr⟩ := Option.ite_none_right_eq_some.mp hr
    exact Reachable.run as (h.step a hm fits) hr

/-- **The budget is kept by every interleaving.** In every state the live guards, with what dropped
guards have yet to give back, are within the caps; each counter is the total of the live guards, of
the acquisitions in progress or rolling back and of the drops that have yet to reach it; no
subtraction goes below zero; and when no thread is in the middle of an acquisition or of a drop, the
counters are the live totals. -/
theorem interleaved_budget
    (h : Reachable bits maxCount maxBytes s) :
    (s.live .count + s.releasing .count ≤ maxCount ∧
      s.live .bytes + s.releasing .bytes ≤ maxBytes) ∧
      (∀ c, s.budget.value c = s.live c + s.acquiring c + s.releasing c) ∧
      (∀ (i : Nat) (p : Phase) (c : Counter) (amount : Nat), s.threads[i]? = some p →
        p.subtracts = some (c, amount) → amount ≤ s.budget.value c) ∧
      ((∀ p ∈ s.threads, p = .idle) → ∀ c, s.budget.value c = s.live c) := by
  obtain ⟨hs, rfl, rfl⟩ := h.balanced
  refine ⟨⟨?_, ?_⟩, hs.value, fun i p c amount hp hsub => hs.subtracts hp hsub, fun hidle c => ?_⟩
  · have hwithin : _ ≤ s.budget.maxCount := hs.within .count
    omega
  · have hwithin : _ ≤ s.budget.maxBytes := hs.within .bytes
    omega
  · have hacquiring : s.acquiring c = 0 := sum_eq_zero fun x hx => by
      obtain ⟨p, hp, rfl⟩ := mem_map.mp hx
      rw [hidle p hp]
      rfl
    have hreleasing : s.releasing c = 0 := sum_eq_zero fun x hx => by
      obtain ⟨p, hp, rfl⟩ := mem_map.mp hx
      rw [hidle p hp]
      rfl
    rw [hs.value c, total, hacquiring, hreleasing, Nat.add_zero]

/-- Two reservers of one slot, and the second has seen the first. -/
def contended : SharedBudget :=
  ((new 1 8 2).run 64
    [.acquire 0 ⟨1, 5⟩, .acquire 1 ⟨1, 3⟩, .advance 1, .advance 0, .advance 0, .advance 1]).get
      (by decide +kernel)

/-- The counters are over the cap, the guards are not. -/
theorem interleaved_budget_contended :
    (contended.threads = [.idle, .rollingBack ⟨1, 3⟩] ∧ contended.guards = [⟨1, 5⟩]) ∧
      (contended.budget.count = 2 ∧ contended.budget.maxCount = 1) ∧
      contended.live .count + contended.releasing .count ≤ 1 :=
  have hreachable : Reachable 64 1 8 contended := (Reachable.new 2).run _ (Option.some_get _).symm
  ⟨by decide +kernel, by decide +kernel, (interleaved_budget hreachable).1.1⟩

/-- A guard of five bytes is being dropped: its slot is given back, its bytes are not. -/
def halfDropped : SharedBudget :=
  ((new 1 8 1).run 64
    [.acquire 0 ⟨1, 5⟩, .advance 0, .advance 0, .drop 0 0, .advance 0]).get (by decide +kernel)

/-- No acquisition is in progress, and the counters are the totals neither without the guard nor
with it. -/
theorem half_dropped_counters :
    Reachable 64 1 8 halfDropped ∧ halfDropped.threads = [.droppingBytes ⟨1, 5⟩] ∧
      halfDropped.guards = [] ∧
      (∀ c, halfDropped.acquiring c = 0) ∧
      halfDropped.budget.value .bytes ≠ halfDropped.live .bytes ∧
      halfDropped.budget.value .count ≠ halfDropped.live .count + 1 :=
  ⟨(Reachable.new 1).run _ (Option.some_get _).symm, by decide +kernel, by decide +kernel,
    fun c => by cases c <;> decide +kernel, by decide +kernel, by decide +kernel⟩

/-! ## A thread that is not disturbed -/

/-- While its sums stay below the word, an acquisition that nothing interrupts is the one a session
makes in a single step: it is kept as a guard, or it is taken back and leaves no trace. -/
theorem acquire_alone (r : Reservation)
    (hidle : s.threads[i]? = some .idle) (hcount : s.budget.count + r.count < word)
    (hbytes : s.budget.bytes + r.bytes < word) :
    match s.budget.tryAcquireMany r.count r.bytes with
    | some b => [Action.acquire i r, .advance i, .advance i].foldlM (step word) s =
        some { s with budget := b, guards := r :: s.guards }
    | none => [Action.acquire i r, .advance i, .advance i, .advance i, .advance i].foldlM
        (step word) s = some s := by
  obtain ⟨hi, hget⟩ := List.getElem?_eq_some_iff.mp hidle
  have hback : s.threads.set i .idle = s.threads := by
    rw [← hget, set_getElem_self]
  have hsub {value amount : Nat} (h : value + amount < word) :
      fetchSub word (value + amount) amount = value := fetchSub_eq rfl h
  unfold InflightBudget.tryAcquireMany
  split
  · rename_i hkept
    obtain ⟨hcap, hb⟩ := Option.ite_none_left_eq_some.mp hkept
    cases hb
    simp [step, hget, fetchAdd, Nat.mod_eq_of_lt hcount, Nat.mod_eq_of_lt hbytes, hi,
      advance, hback]
    omega
  · rename_i hover
    simp only [ite_eq_left_iff, reduceCtorEq, imp_false, not_not] at hover
    simp [step, hget, fetchAdd, Nat.mod_eq_of_lt hcount, Nat.mod_eq_of_lt hbytes, hi,
      advance, hover,
      hsub hcount, hsub hbytes, hback]

end SharedBudget

end Viewstamp
