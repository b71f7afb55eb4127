import Mathlib.Logic.Basic

/-! Causes and exits. A failed effect ends in a tree of causes; the combinators
that recover from errors look for the leftmost `fail` of that tree and leave a
tree without one alone. Some of them also look for defects, and turn the errors
of a tree that has one into defects too. `E` is the type of expected errors, `U`
the type of thrown values (defects). -/

namespace EffectWorker.Effect

inductive Cause (E U : Type)
  | empty
  | fail (error : E)
  | die (defect : U)
  | interrupt (fiberId : Nat)
  | sequential (left right : Cause E U)
  | parallel (left right : Cause E U)
  deriving DecidableEq, Repr

inductive Exit (E U A : Type)
  | success (value : A)
  | failure (cause : Cause E U)
  deriving DecidableEq, Repr

/-- Any value can be thrown: an expected error as the value of a defect. -/
class Throwable (E U : Type) where
  thrown : E → U

instance {E : Type} : Throwable E E := ⟨id⟩

instance {E E' U : Type} [Throwable E U] [Throwable E' U] : Throwable (E ⊕ E') U :=
  ⟨Sum.elim Throwable.thrown Throwable.thrown⟩

namespace Cause

variable {E E' U : Type}

/-- Some leaf of the tree is an expected error. -/
def HasFail : Cause E U → Prop
  | .fail _ => True
  | .sequential l r | .parallel l r => l.HasFail ∨ r.HasFail
  | .empty | .die _ | .interrupt _ => False

/-- Some leaf of the tree is a defect. -/
def HasDie : Cause E U → Prop
  | .die _ => True
  | .sequential l r | .parallel l r => l.HasDie ∨ r.HasDie
  | .empty | .fail _ | .interrupt _ => False

/-- The leftmost expected error. -/
def failureOption : Cause E U → Option E
  | .fail e => some e
  | .sequential l r | .parallel l r => l.failureOption.or r.failureOption
  | .empty | .die _ | .interrupt _ => none

/-- The same tree at another error type. On a tree without an expected error
nothing is lost, which is how the combinators use it. -/
def stripFailures : Cause E U → Cause E' U
  | .empty | .fail _ => .empty
  | .die d => .die d
  | .interrupt n => .interrupt n
  | .sequential l r => .sequential l.stripFailures r.stripFailures
  | .parallel l r => .parallel l.stripFailures r.stripFailures

/-- The same tree with every expected error become a defect. -/
def electFailures [Throwable E U] : Cause E U → Cause E' U
  | .empty => .empty
  | .fail e => .die (Throwable.thrown e)
  | .die d => .die d
  | .interrupt n => .interrupt n
  | .sequential l r => .sequential l.electFailures r.electFailures
  | .parallel l r => .parallel l.electFailures r.electFailures

/-- Rename every expected error, keeping the shape of the tree. -/
def map (f : E → E') : Cause E U → Cause E' U
  | .empty => .empty
  | .fail e => .fail (f e)
  | .die d => .die d
  | .interrupt n => .interrupt n
  | .sequential l r => .sequential (l.map f) (r.map f)
  | .parallel l r => .parallel (l.map f) (r.map f)

theorem failureOption_isSome_iff (c : Cause E U) :
    c.failureOption.isSome ↔ c.HasFail := by
  induction c with
  | empty | fail _ | die _ | interrupt _ => simp [failureOption, HasFail]
  | sequential l r ihl ihr | parallel l r ihl ihr =>
      simp only [failureOption, HasFail, Option.isSome_or, Bool.or_eq_true, ihl, ihr]

theorem failureOption_eq_none_iff (c : Cause E U) :
    c.failureOption = none ↔ ¬ c.HasFail := by
  rw [← failureOption_isSome_iff, Option.isSome_iff_ne_none, not_not]

theorem HasFail.exists_error {c : Cause E U} (h : c.HasFail) : ∃ e, c.failureOption = some e :=
  Option.isSome_iff_exists.mp ((failureOption_isSome_iff c).mpr h)

theorem hasFail_of_error {c : Cause E U} {e : E} (h : c.failureOption = some e) : c.HasFail := by
  rw [← failureOption_isSome_iff, h]
  rfl

@[simp] theorem failureOption_map (f : E → E') (c : Cause E U) :
    (c.map f).failureOption = c.failureOption.map f := by
  induction c with
  | empty | fail _ | die _ | interrupt _ => rfl
  | sequential l r ihl ihr | parallel l r ihl ihr =>
      simp only [map, failureOption, ihl, ihr]
      cases l.failureOption <;> rfl

@[simp] theorem failureOption_stripFailures (c : Cause E U) :
    (c.stripFailures : Cause E' U).failureOption = none := by
  induction c with
  | empty | fail _ | die _ | interrupt _ => rfl
  | sequential l r ihl ihr | parallel l r ihl ihr =>
      simp only [stripFailures, failureOption, ihl, ihr, Option.or_none]

@[simp] theorem stripFailures_stripFailures {E'' : Type} (c : Cause E U) :
    ((c.stripFailures : Cause E' U).stripFailures : Cause E'' U) = c.stripFailures := by
  induction c with
  | empty | fail _ | die _ | interrupt _ => rfl
  | sequential l r ihl ihr | parallel l r ihl ihr => simp only [stripFailures, ihl, ihr]

@[simp] theorem failureOption_electFailures [Throwable E U] (c : Cause E U) :
    (c.electFailures : Cause E' U).failureOption = none := by
  induction c with
  | empty | fail _ | die _ | interrupt _ => rfl
  | sequential l r ihl ihr | parallel l r ihl ihr =>
      simp only [electFailures, failureOption, ihl, ihr, Option.or_none]

@[simp] theorem map_electFailures {E'' : Type} [Throwable E U] (f : E' → E'') (c : Cause E U) :
    (c.electFailures : Cause E' U).map f = c.electFailures := by
  induction c with
  | empty | fail _ | die _ | interrupt _ => rfl
  | sequential l r ihl ihr | parallel l r ihl ihr => simp only [electFailures, map, ihl, ihr]

/-- Renamed errors are thrown as they were. -/
theorem electFailures_map {E'' : Type} [Throwable E U] [Throwable E' U] {f : E → E'}
    (hf : ∀ e, (Throwable.thrown (f e) : U) = Throwable.thrown e) (c : Cause E U) :
    ((c.map f).electFailures : Cause E'' U) = c.electFailures := by
  induction c with
  | empty | die _ | interrupt _ => rfl
  | fail e => exact congrArg die (hf e)
  | sequential l r ihl ihr | parallel l r ihl ihr => simp only [electFailures, map, ihl, ihr]

/-- Without an expected error there is nothing to turn into a defect. -/
theorem electFailures_of_not_hasFail [Throwable E U] {c : Cause E U} (h : ¬ c.HasFail) :
    (c.electFailures : Cause E' U) = c.stripFailures := by
  induction c with
  | empty | die _ | interrupt _ => rfl
  | fail e => exact absurd trivial h
  | sequential l r ihl ihr | parallel l r ihl ihr =>
      obtain ⟨hl, hr⟩ := not_or.mp h
      simp only [electFailures, stripFailures, ihl hl, ihr hr]

@[simp] theorem electFailures_stripFailures {E'' : Type} [Throwable E' U] (c : Cause E U) :
    ((c.stripFailures : Cause E' U).electFailures : Cause E'' U) = c.stripFailures := by
  rw [electFailures_of_not_hasFail, stripFailures_stripFailures]
  rw [← failureOption_eq_none_iff, failureOption_stripFailures]

@[simp] theorem hasFail_map (f : E → E') (c : Cause E U) : (c.map f).HasFail ↔ c.HasFail := by
  rw [← failureOption_isSome_iff, ← failureOption_isSome_iff, failureOption_map,
    Option.isSome_map]

@[simp] theorem hasDie_map (f : E → E') (c : Cause E U) : (c.map f).HasDie ↔ c.HasDie := by
  induction c with
  | empty | fail _ | die _ | interrupt _ => rfl
  | sequential l r ihl ihr | parallel l r ihl ihr => simp only [map, HasDie, ihl, ihr]

instance decidableHasFail (c : Cause E U) : Decidable c.HasFail :=
  decidable_of_iff _ (failureOption_isSome_iff c)

instance decidableHasDie : (c : Cause E U) → Decidable c.HasDie
  | .die _ => .isTrue trivial
  | .empty | .fail _ | .interrupt _ => .isFalse id
  | .sequential l r | .parallel l r =>
    have := decidableHasDie l
    have := decidableHasDie r
    inferInstanceAs (Decidable (l.HasDie ∨ r.HasDie))

/-- A cause that `catchAll` recovers from: it has an expected error and no defect. -/
def Caught (c : Cause E U) : Prop := c.HasFail ∧ ¬ c.HasDie

instance decidableCaught (c : Cause E U) : Decidable c.Caught :=
  inferInstanceAs (Decidable (c.HasFail ∧ ¬ c.HasDie))

@[simp] theorem caught_map (f : E → E') (c : Cause E U) : (c.map f).Caught ↔ c.Caught := by
  simp only [Caught, hasFail_map, hasDie_map]

@[simp] theorem caught_fail (e : E) : (fail e : Cause E U).Caught := ⟨trivial, id⟩

end Cause

namespace Exit

variable {E E' U A : Type}

/-- Widen the error type of an exit. -/
def mapFail (f : E → E') : Exit E U A → Exit E' U A
  | .success a => .success a
  | .failure c => .failure (c.map f)

/-- The same exit with its errors and its value renamed. -/
def rename {B : Type} (f : E → E') (g : A → B) : Exit E U A → Exit E' U B
  | .success a => .success (g a)
  | .failure c => .failure (c.map f)

theorem rename_eq_success {B : Type} {f : E → E'} {g : A → B} {x : Exit E U A} {b : B}
    (h : x.rename f g = .success b) : ∃ a, x = .success a ∧ g a = b := by
  cases x with
  | success a => exact ⟨a, rfl, success.inj h⟩
  | failure c => cases h

/-- The cause of a failure. -/
def causes : Exit E U A → List (Cause E U)
  | .success _ => []
  | .failure c => [c]

def causeOption : Exit E U A → Option (Cause E U)
  | .success _ => none
  | .failure c => some c

/-- A failure that no expected error explains: only defects and interrupts. -/
def Unrecoverable : Exit E U A → Prop
  | .success _ => False
  | .failure c => ¬ c.HasFail

instance decidableUnrecoverable (x : Exit E U A) : Decidable x.Unrecoverable :=
  match x with
  | .success _ => .isFalse id
  | .failure c => inferInstanceAs (Decidable (¬ c.HasFail))

/-- A failure that `catchAll` passes on. -/
def Uncaught : Exit E U A → Prop
  | .success _ => False
  | .failure c => ¬ c.Caught

instance decidableUncaught (x : Exit E U A) : Decidable x.Uncaught :=
  match x with
  | .success _ => .isFalse id
  | .failure c => inferInstanceAs (Decidable (¬ c.Caught))

end Exit

end EffectWorker.Effect
