import EffectWorker.Effect.Cause

/-! Programs as trees of operations. A program has exited, or it performs an
operation and goes on with the answer; the combinators are functions on these
trees, so composing them leaves only operations and exits. `catchIf` and
`mapError` look at the leftmost expected error of a cause, whatever else the
cause holds, and pass on a cause that has none; `catchAll` recovers only from a
cause without defects, and turns the errors of one with defects into defects. -/

namespace EffectWorker.Effect

/-- The operations a program may perform, each with the type of its answers. -/
structure Sig where
  Op : Type
  Ans : Op → Type

inductive Eff (S : Sig) (E U A : Type)
  | exit (result : Exit E U A)
  | perform (op : S.Op) (k : S.Ans op → Eff S E U A)

/-- An operation together with the answer it was given. -/
abbrev Answered (S : Sig) := (op : S.Op) × S.Ans op

namespace Eff

variable {S : Sig} {E E' U A B : Type}

def succeed (value : A) : Eff S E U A := .exit (.success value)
def failCause (cause : Cause E U) : Eff S E U A := .exit (.failure cause)
def fail (error : E) : Eff S E U A := failCause (.fail error)

/-- Perform one operation and return its answer. -/
def op (o : S.Op) : Eff S E U (S.Ans o) := .perform o succeed

def matchCauseEffect (onFailure : Cause E U → Eff S E' U B) (onSuccess : A → Eff S E' U B) :
    Eff S E U A → Eff S E' U B
  | .exit (.success a) => onSuccess a
  | .exit (.failure c) => onFailure c
  | .perform o k => .perform o fun r => (k r).matchCauseEffect onFailure onSuccess

def flatMap (self : Eff S E U A) (f : A → Eff S E U B) : Eff S E U B :=
  self.matchCauseEffect failCause f

def map (self : Eff S E U A) (f : A → B) : Eff S E U B := self.flatMap fun a => succeed (f a)

/-- Run `f` after a success and keep the first value. -/
def tap (self : Eff S E U A) (f : A → Eff S E U B) : Eff S E U A :=
  self.flatMap fun a => (f a).flatMap fun _ => succeed a

/-- Run `f` on the cause of a failure and keep the cause. -/
def tapErrorCause (self : Eff S E U A) (f : Cause E U → Eff S E U B) : Eff S E U A :=
  self.matchCauseEffect (fun c => (f c).flatMap fun _ => failCause c) succeed

def mapError (self : Eff S E U A) (f : E → E') : Eff S E' U A :=
  self.matchCauseEffect
    (fun c => match c.failureOption with
      | some e => fail (f e)
      | none => failCause c.stripFailures)
    succeed

def catchIf (self : Eff S E U A) (p : E → Bool) (f : E → Eff S E U A) : Eff S E U A :=
  self.matchCauseEffect
    (fun c => match c.failureOption with
      | some e => if p e then f e else failCause c
      | none => failCause c)
    succeed

def catchAll [Throwable E U] (self : Eff S E U A) (f : E → Eff S E' U A) : Eff S E' U A :=
  self.matchCauseEffect
    (fun c => if c.HasDie then failCause c.electFailures else
      match c.failureOption with
      | some e => f e
      | none => failCause c.stripFailures)
    succeed

/-- `catchIf` on the `_tag` of the error. -/
def catchTag (self : Eff S E U A) (tagOf : E → Option String) (tag : String)
    (f : E → Eff S E U A) : Eff S E U A :=
  self.catchIf (fun e => tagOf e = some tag) f

/-- The same program with its errors and its value renamed. -/
def rename (f : E → E') (g : A → B) (self : Eff S E U A) : Eff S E' U B :=
  self.matchCauseEffect (fun c => failCause (c.map f)) (fun a => succeed (g a))

@[simp] theorem matchCauseEffect_success (f : Cause E U → Eff S E' U B)
    (g : A → Eff S E' U B) (a : A) :
    (Eff.exit (.success a)).matchCauseEffect f g = g a := rfl

@[simp] theorem matchCauseEffect_failure (f : Cause E U → Eff S E' U B)
    (g : A → Eff S E' U B) (c : Cause E U) :
    (Eff.exit (.failure c)).matchCauseEffect f g = f c := rfl

@[simp] theorem matchCauseEffect_perform (f : Cause E U → Eff S E' U B)
    (g : A → Eff S E' U B) (o : S.Op) (k : S.Ans o → Eff S E U A) :
    (Eff.perform o k).matchCauseEffect f g =
      .perform o fun r => (k r).matchCauseEffect f g := rfl

@[simp] theorem rename_exit (f : E → E') (g : A → B) (x : Exit E U A) :
    (Eff.exit x : Eff S E U A).rename f g = .exit (x.rename f g) := by
  cases x <;> rfl

theorem rename_perform (f : E → E') (g : A → B) (o : S.Op) (res : S.Ans o → Exit E U A) :
    (Eff.perform o fun r => .exit (res r)).rename f g =
      .perform o fun r => .exit ((res r).rename f g) :=
  congrArg (Eff.perform o) (funext fun r => rename_exit f g (res r))

theorem catchAll_caught [Throwable E U] {c : Cause E U} (h : c.Caught) {e : E}
    (he : c.failureOption = some e) (f : E → Eff S E' U A) :
    (Eff.exit (.failure c) : Eff S E U A).catchAll f = f e := by
  unfold catchAll
  rw [matchCauseEffect_failure, if_neg h.2, he]

theorem catchAll_uncaught [Throwable E U] {c : Cause E U} (h : ¬ c.Caught)
    (f : E → Eff S E' U A) :
    (Eff.exit (.failure c) : Eff S E U A).catchAll f = failCause c.electFailures := by
  unfold catchAll
  rw [matchCauseEffect_failure]
  by_cases hdie : c.HasDie
  · rw [if_pos hdie]
  · have hfail : ¬ c.HasFail := fun hfail => h ⟨hfail, hdie⟩
    rw [if_neg hdie, (Cause.failureOption_eq_none_iff c).mpr hfail,
      Cause.electFailures_of_not_hasFail hfail]

/-- To recover with one program from all errors is to ask for an error in a
cause without defects. -/
theorem catchAll_failure [Throwable E U] (c : Cause E U) (p : Eff S E' U A) :
    ((Eff.exit (.failure c) : Eff S E U A).catchAll fun _ => p) =
      if c.Caught then p else failCause c.electFailures := by
  by_cases h : c.Caught
  · obtain ⟨e, he⟩ := h.1.exists_error
    rw [catchAll_caught h he, if_pos h]
  · rw [catchAll_uncaught h, if_neg h]

/-- The exit of a program whose operations are all answered by `answer`. -/
def run (answer : (o : S.Op) → S.Ans o) : Eff S E U A → Exit E U A
  | .exit x => x
  | .perform o k => (k (answer o)).run answer

/-- A program alone on a state: `answer` says what each operation is answered
and the state it leaves. -/
def runState {σ : Type} (answer : σ → (o : S.Op) → S.Ans o × σ) :
    Eff S E U A → σ → Exit E U A × σ
  | .exit x, s => (x, s)
  | .perform o k, s => (k (answer s o).1).runState answer (answer s o).2

/-! ## Executions -/

/-- `Path p as q`: answered by `as`, in this order, `p` has become `q`. -/
inductive Path : Eff S E U A → List (Answered S) → Eff S E U A → Prop
  | nil (p) : Path p [] p
  | cons {o k q} (r : S.Ans o) {as} : Path (k r) as q → Path (.perform o k) (⟨o, r⟩ :: as) q

theorem path_snoc {p : Eff S E U A} {as : List (Answered S)} {o : S.Op}
    {k : S.Ans o → Eff S E U A} (h : Path p as (.perform o k)) (r : S.Ans o) :
    Path p (as ++ [⟨o, r⟩]) (k r) := by
  generalize hq : Eff.perform o k = q at h
  induction h with
  | nil p => subst hq; exact .cons r (.nil _)
  | cons r' _ ih => exact .cons r' (ih hq)

theorem path_exit {x : Exit E U A} {as : List (Answered S)} {q : Eff S E U A}
    (h : Path (.exit x) as q) : as = [] ∧ q = .exit x := by
  cases h
  exact ⟨rfl, rfl⟩

/-- A path from an operation either stops there or answers it first. -/
theorem path_perform {o : S.Op} {k : S.Ans o → Eff S E U A} {as : List (Answered S)}
    {q : Eff S E U A} (h : Path (.perform o k) as q) :
    (as = [] ∧ q = .perform o k) ∨
      ∃ r as', as = ⟨o, r⟩ :: as' ∧ Path (k r) as' q := by
  cases h with
  | nil => exact .inl ⟨rfl, rfl⟩
  | cons r h => exact .inr ⟨r, _, rfl, h⟩

/-- Answers lead a program to one place only. -/
theorem path_unique {p q q' : Eff S E U A} {as : List (Answered S)} (h : Path p as q)
    (h' : Path p as q') : q = q' := by
  induction h with
  | nil p =>
    cases h'
    rfl
  | cons r _ ih =>
    cases h' with
    | cons _ h' => exact ih h'

/-- No execution of the program answers more than `d` operations. -/
inductive Within : Nat → Eff S E U A → Prop
  | exit (d x) : Within d (.exit x)
  | perform {d o k} : (∀ r, Within d (k r)) → Within (d + 1) (.perform o k)

theorem Within.perform_inv {d : Nat} {o : S.Op} {k : S.Ans o → Eff S E U A}
    (h : Within d (.perform o k)) : ∃ d', d = d' + 1 ∧ ∀ r, Within d' (k r) := by
  cases h with
  | perform hk => exact ⟨_, rfl, hk⟩

theorem Within.mono {p : Eff S E U A} {d d' : Nat} (h : Within d p) (hd : d ≤ d') :
    Within d' p := by
  induction h generalizing d' with
  | exit d x => exact .exit d' x
  | @perform d o k _ ih =>
    obtain ⟨m, rfl⟩ : ∃ m, d' = m + 1 := ⟨d' - 1, by omega⟩
    exact .perform fun r => ih r (by omega)

end Eff

end EffectWorker.Effect
