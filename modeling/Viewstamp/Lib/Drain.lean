import Mathlib.Data.List.Basic

/- Incremental parsing.

   The front of an input is one item, too little to tell, or bad. An item and a bad
   front are recognised however the input goes on, so taking items off the front
   until there is none left gives the same result whether the input comes at once or
   in parts: what matters of the parts already seen is what is left of them. -/
namespace Drain

/-- The front of an input. Of a bad front only `kept` is looked at again. -/
inductive Front (α β ε : Type) where
  | item (b : β) (rest : List α)
  | more
  | bad (e : ε) (kept : List α)

structure Parser (α β ε : Type) where
  front : List α → Front α β ε
  shrinks : ∀ {xs b rest}, front xs = .item b rest → rest.length < xs.length
  item_append : ∀ {xs b rest} (ys : List α), front xs = .item b rest →
    front (xs ++ ys) = .item b (rest ++ ys)
  bad_append : ∀ {xs e kept} (ys : List α), front xs = .bad e kept →
    front (xs ++ ys) = .bad e kept
  bad_kept : ∀ {xs e kept}, front xs = .bad e kept → front kept = .bad e kept

variable {α β ε : Type}

/-- What a stream of inputs comes to: the items, what is left, and the error that ended it. -/
structure Outcome (α β ε : Type) where
  items : List β
  left : List α
  error : Option ε

namespace Parser

/-- Take items off the front as long as there are any. -/
def drain (p : Parser α β ε) (xs : List α) : Outcome α β ε :=
  match _h : p.front xs with
  | .item b rest => let o := p.drain rest; { o with items := b :: o.items }
  | .more => ⟨[], xs, none⟩
  | .bad e kept => ⟨[], kept, some e⟩
termination_by xs.length
decreasing_by exact p.shrinks _h

variable {p : Parser α β ε} {xs : List α}

theorem drain_eq (p : Parser α β ε) (xs : List α) : p.drain xs =
    match p.front xs with
    | .item b rest => { p.drain rest with items := b :: (p.drain rest).items }
    | .more => ⟨[], xs, none⟩
    | .bad e kept => ⟨[], kept, some e⟩ := by
  rw [drain]
  split <;> rename_i h <;> rw [h]

theorem drain_item {b : β} {rest : List α} (h : p.front xs = .item b rest) :
    p.drain xs = { p.drain rest with items := b :: (p.drain rest).items } := by
  rw [drain_eq, h]

theorem drain_more (h : p.front xs = .more) : p.drain xs = ⟨[], xs, none⟩ := by
  rw [drain_eq, h]

theorem drain_bad {e : ε} {kept : List α} (h : p.front xs = .bad e kept) :
    p.drain xs = ⟨[], kept, some e⟩ := by
  rw [drain_eq, h]

/-- Take one item after another: the induction rule of `drain`. -/
theorem drain_induction (p : Parser α β ε) {P : List α → Prop}
    (item : ∀ xs b rest, p.front xs = .item b rest → P rest → P xs)
    (more : ∀ xs, p.front xs = .more → P xs)
    (bad : ∀ xs e kept, p.front xs = .bad e kept → P xs) : ∀ xs, P xs := by
  intro xs
  induction hn : xs.length using Nat.strongRecOn generalizing xs with
  | ind n ih =>
    cases h : p.front xs with
    | item b rest => exact item xs b rest h (ih _ (hn ▸ p.shrinks h) rest rfl)
    | more => exact more xs h
    | bad e kept => exact bad xs e kept h

/-- What is left has nothing more in it. -/
theorem drain_left (p : Parser α β ε) (xs : List α) : p.drain (p.drain xs).left =
    ⟨[], (p.drain xs).left, (p.drain xs).error⟩ := by
  induction xs using p.drain_induction with
  | item xs b rest h ih =>
    rw [drain_item h]
    exact ih
  | more xs h =>
    rw [drain_more h]
    exact drain_more h
  | bad xs e kept h =>
    rw [drain_bad h]
    exact drain_bad (p.bad_kept h)

/-- There is no item at the front, and a bad front is all there is. -/
def Settled (p : Parser α β ε) (xs : List α) : Prop :=
  p.front xs = .more ∨ ∃ e, p.front xs = .bad e xs

theorem settled_left (p : Parser α β ε) (xs : List α) : p.Settled (p.drain xs).left := by
  induction xs using p.drain_induction with
  | item xs b rest h ih =>
    rw [drain_item h]
    exact ih
  | more xs h =>
    rw [drain_more h]
    exact .inl h
  | bad xs e kept h =>
    rw [drain_bad h]
    exact .inr ⟨e, p.bad_kept h⟩

theorem front_left (h : (p.drain xs).error = none) : p.front (p.drain xs).left = .more := by
  obtain hmore | ⟨e, hbad⟩ := p.settled_left xs
  · exact hmore
  · have herr := congrArg Outcome.error (p.drain_left xs)
    rw [drain_bad hbad, h] at herr
    cases herr

/-- The input may come in two parts. -/
theorem drain_append (xs ys : List α) : p.drain (xs ++ ys) =
    { p.drain ((p.drain xs).left ++ ys) with
      items := (p.drain xs).items ++ (p.drain ((p.drain xs).left ++ ys)).items } := by
  induction xs using p.drain_induction with
  | item xs b rest h ih => rw [drain_item h, drain_item (p.item_append ys h), ih, List.cons_append]
  | more xs h =>
    rw [drain_more h]
    rfl
  | bad xs e kept h =>
    rw [drain_bad h, drain_bad (p.bad_append ys h), drain_bad (p.bad_append ys (p.bad_kept h))]
    rfl

/-- Nothing that comes later undoes an error. -/
theorem drain_append_of_error {e : ε} (h : (p.drain xs).error = some e) (ys : List α) :
    p.drain (xs ++ ys) = p.drain xs := by
  induction xs using p.drain_induction with
  | item xs b rest hf ih =>
    rw [drain_item hf] at h ⊢
    rw [drain_item (p.item_append ys hf), ih h]
  | more xs hf =>
    rw [drain_more hf] at h
    cases h
  | bad xs e kept hf => rw [drain_bad hf, drain_bad (p.bad_append ys hf)]

end Parser

end Drain
