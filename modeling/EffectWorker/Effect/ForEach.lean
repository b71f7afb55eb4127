import Mathlib.Data.Fintype.Card
import Mathlib.Algebra.BigOperators.Fin
import Mathlib.Algebra.Order.BigOperators.Group.Finset
import EffectWorker.Effect.Program
import EffectWorker.Effect.Runs

/-! `forEach` with discarded results and bounded concurrency. Every element has
a fiber; elements start in order, at most `slots` of them at a time, and none
starts once one has failed. From then on the fibers still in flight may be
interrupted. The loop exits when every element has succeeded, or when one has
failed and no fiber is left in flight. A step belongs to one fiber, so what a
single fiber can do alone is proved once (`FiberRun`) and holds in every
interleaving (`run_fiber`). -/

namespace EffectWorker.Effect

inductive Fiber (S : Sig) (E U A : Type)
  | waiting
  | ready (rest : Eff S E U A)
  | busy (o : S.Op) (k : S.Ans o → Eff S E U A)
  | ended (result : Exit E U A)

def Fiber.active {S : Sig} {E U A : Type} : Fiber S E U A → Bool
  | .ready _ | .busy _ _ => true
  | .waiting | .ended _ => false

def Fiber.hasEnded {S : Sig} {E U A : Type} : Fiber S E U A → Bool
  | .ended _ => true
  | .waiting | .ready _ | .busy _ _ => false

/-- `begins` and `answers` delimit an operation; `works` is an operation in
progress acting on the services it was given. -/
inductive Event (S : Sig) (E U A : Type)
  | starts
  | begins (o : S.Op)
  | works (o : S.Op)
  | answers (o : S.Op) (r : S.Ans o)
  | ends (result : Exit E U A)
  | interrupted

def Event.isWork {S : Sig} {E U A : Type} : Event S E U A → Bool
  | .works _ => true
  | _ => false

section Fibers

variable {S : Sig} {E U A : Type}

/-- The exit of a fiber that was interrupted from outside. -/
def interruptedExit : Exit E U A := .failure (.interrupt 0)

inductive FiberStep (allowed : (o : S.Op) → S.Ans o → Prop) (body : Eff S E U A) :
    Fiber S E U A → Event S E U A → Fiber S E U A → Prop
  | starts : FiberStep allowed body .waiting .starts (.ready body)
  | begins (o k) : FiberStep allowed body (.ready (.perform o k)) (.begins o) (.busy o k)
  | works (o k) : FiberStep allowed body (.busy o k) (.works o) (.busy o k)
  | answers (o k r) : allowed o r →
      FiberStep allowed body (.busy o k) (.answers o r) (.ready (k r))
  | ends (x) : FiberStep allowed body (.ready (.exit x)) (.ends x) (.ended x)
  | interrupted (f) : f.active = true →
      FiberStep allowed body f .interrupted (.ended interruptedExit)

theorem fiberStep_mono {allowed allowed' : (o : S.Op) → S.Ans o → Prop} {body : Eff S E U A}
    {f f' : Fiber S E U A} {e : Event S E U A} (h : ∀ o r, allowed o r → allowed' o r)
    (hs : FiberStep allowed body f e f') : FiberStep allowed' body f e f' := by
  cases hs with
  | starts => exact .starts
  | begins o k => exact .begins o k
  | works o k => exact .works o k
  | answers o k r ha => exact .answers o k r (h o r ha)
  | ends x => exact .ends x
  | interrupted f hf => exact .interrupted f hf

/-- A fiber with nothing more to begin: once the operation it waits for is
answered, it exits. -/
def Fiber.Finishing : Fiber S E U A → Prop
  | .waiting => False
  | .ready p => ∃ x, p = .exit x
  | .busy _ k => ∀ a, ∃ x, k a = .exit x
  | .ended _ => True

theorem Fiber.finishing_of_hasEnded {f : Fiber S E U A} (h : f.hasEnded = true) :
    f.Finishing := by
  cases f with
  | ended x => trivial
  | waiting | ready p | busy o k => cases h

theorem fiberStep_finishing {allowed : (o : S.Op) → S.Ans o → Prop} {body : Eff S E U A}
    {f f' : Fiber S E U A} {e : Event S E U A} (hs : FiberStep allowed body f e f')
    (hf : f.Finishing) : f'.Finishing := by
  cases hs with
  | starts => exact hf.elim
  | begins o k =>
    obtain ⟨x, hx⟩ := hf
    cases hx
  | works => exact hf
  | answers o k a _ => exact hf a
  | ends | interrupted => trivial

theorem fiberStep_unique {allowed : (o : S.Op) → S.Ans o → Prop} {body : Eff S E U A}
    {f f₁ f₂ : Fiber S E U A} {e : Event S E U A} (h₁ : FiberStep allowed body f e f₁)
    (h₂ : FiberStep allowed body f e f₂) : f₁ = f₂ := by
  cases h₁ <;> cases h₂ <;> rfl

/-- A fiber on its own, with the events it has gone through. -/
abbrev FiberRun (allowed : (o : S.Op) → S.Ans o → Prop) (body : Eff S E U A) :
    List (Event S E U A) → Fiber S E U A → Prop :=
  Runs (FiberStep allowed body) .waiting

theorem fiberRun_unique {allowed : (o : S.Op) → S.Ans o → Prop} {body : Eff S E U A}
    {t : List (Event S E U A)} {f f' : Fiber S E U A} (h : FiberRun allowed body t f)
    (h' : FiberRun allowed body t f') : f = f' := by
  refine Runs.unique ?_ h h'
  exact fun _ _ _ _ => fiberStep_unique

/-- The operations a history has answered. -/
def answered : List (Event S E U A) → List (Answered S) :=
  List.filterMap fun e => match e with
    | .answers o r => some ⟨o, r⟩
    | _ => none

@[simp] theorem answered_append (h h' : List (Event S E U A)) :
    answered (h ++ h') = answered h ++ answered h' := List.filterMap_append

theorem mem_answered {h : List (Event S E U A)} {o : S.Op} {r : S.Ans o} :
    (⟨o, r⟩ : Answered S) ∈ answered h ↔ .answers o r ∈ h := by
  simp only [answered, List.mem_filterMap]
  constructor
  · rintro ⟨e, he, hr⟩
    cases e <;> simp only [reduceCtorEq, Option.some.injEq, Sigma.mk.injEq] at hr
    obtain ⟨rfl, hr⟩ := hr
    cases hr
    exact he
  · intro h
    exact ⟨_, h, rfl⟩

/-- What a fiber's state says about the operations answered so far. -/
def Fiber.Agrees (body : Eff S E U A) (as : List (Answered S)) : Fiber S E U A → Prop
  | .waiting => as = []
  | .ready p => Eff.Path body as p
  | .busy o k => Eff.Path body as (.perform o k)
  | .ended x => Eff.Path body as (.exit x) ∨ (x = interruptedExit ∧ ∃ p, Eff.Path body as p)

theorem fiberStep_agrees {allowed : (o : S.Op) → S.Ans o → Prop} {body : Eff S E U A}
    {f f' : Fiber S E U A} {e : Event S E U A} {as : List (Answered S)}
    (hs : FiberStep allowed body f e f') (ha : f.Agrees body as) :
    f'.Agrees body (as ++ answered [e]) := by
  cases hs with
  | starts =>
    subst ha
    exact .nil _
  | begins o k => simpa [answered, Fiber.Agrees] using ha
  | works o k => simpa [answered, Fiber.Agrees] using ha
  | answers o k r _ => exact Eff.path_snoc ha r
  | ends x => exact .inl (by simpa [answered, Fiber.Agrees] using ha)
  | interrupted _ hf =>
    refine .inr ⟨rfl, ?_⟩
    cases f with
    | ready p => exact ⟨p, by simpa [answered, Fiber.Agrees] using ha⟩
    | busy o k => exact ⟨_, by simpa [answered, Fiber.Agrees] using ha⟩
    | waiting | ended _ => simp [Fiber.active] at hf

theorem fiberRun_agrees {allowed : (o : S.Op) → S.Ans o → Prop} {body : Eff S E U A}
    {h : List (Event S E U A)} {f : Fiber S E U A} (hr : FiberRun allowed body h f) :
    f.Agrees body (answered h) := by
  induction hr with
  | nil => rfl
  | snoc _ hs ih =>
    rw [answered_append]
    exact fiberStep_agrees hs ih

/-- Whatever a fiber has answered is an execution of its body, up to where the
fiber is now; only an interrupted one has ended somewhere else. -/
theorem fiberRun_path {allowed : (o : S.Op) → S.Ans o → Prop} {body : Eff S E U A}
    {h : List (Event S E U A)} {f : Fiber S E U A} (hr : FiberRun allowed body h f) :
    ∃ p, Eff.Path body (answered h) p ∧ (∀ q, f = .ready q → p = q) ∧
      ∀ x, f = .ended x → x ≠ interruptedExit → p = .exit x := by
  have ha := fiberRun_agrees hr
  cases f with
  | waiting =>
    rw [show answered h = [] from ha]
    exact ⟨_, .nil _, by simp, by simp⟩
  | ready p =>
    refine ⟨_, ha, fun q hq => ?_, by simp⟩
    cases hq
    rfl
  | busy o k => exact ⟨_, ha, by simp, by simp⟩
  | ended x =>
    rcases ha with hp | ⟨rfl, p, hp⟩
    · refine ⟨_, hp, by simp, fun y hy _ => ?_⟩
      cases hy
      rfl
    · refine ⟨p, hp, by simp, fun y hy hne => ?_⟩
      cases hy
      exact absurd rfl hne

theorem fiberRun_allowed {allowed : (o : S.Op) → S.Ans o → Prop} {body : Eff S E U A}
    {h : List (Event S E U A)} {f : Fiber S E U A} (hr : FiberRun allowed body h f)
    {o : S.Op} {r : S.Ans o} (hm : .answers o r ∈ h) : allowed o r := by
  induction hr with
  | nil => simp at hm
  | snoc _ hs ih =>
    rcases List.mem_append.mp hm with hm | hm
    · exact ih hm
    · rw [List.mem_singleton] at hm
      subst hm
      cases hs with
      | answers _ _ _ ha => exact ha

/-- The operations a history has begun. -/
def begun : List (Event S E U A) → List S.Op :=
  List.filterMap fun e => match e with
    | .begins o => some o
    | _ => none

@[simp] theorem begun_append (h h' : List (Event S E U A)) :
    begun (h ++ h') = begun h ++ begun h' := List.filterMap_append

/-- The operation a fiber is in the middle of. -/
def Fiber.pending : Fiber S E U A → List S.Op
  | .busy o _ => [o]
  | _ => []

/-- The exit an event ends its fiber with. -/
def Event.ending : Event S E U A → Option (Exit E U A)
  | .ends x => some x
  | .interrupted => some interruptedExit
  | .starts | .begins _ | .works _ | .answers _ _ => none

theorem fiberStep_ending {allowed : (o : S.Op) → S.Ans o → Prop} {body : Eff S E U A}
    {f f' : Fiber S E U A} {e : Event S E U A} (hs : FiberStep allowed body f e f')
    (x : Exit E U A) : e.ending = some x ↔ f' = .ended x := by
  cases hs with
  | starts | begins | works | answers => simp [Event.ending]
  | ends | interrupted => simp [Event.ending, eq_comm]

/-- Only an active fiber takes a step, or one that starts. -/
theorem fiberStep_active {allowed : (o : S.Op) → S.Ans o → Prop} {body : Eff S E U A}
    {f f' : Fiber S E U A} {e : Event S E U A} (hs : FiberStep allowed body f e f') :
    f.active = true ∨ (f = .waiting ∧ e = .starts) := by
  cases hs with
  | starts => exact .inr ⟨rfl, rfl⟩
  | interrupted f hf => exact .inl hf
  | begins | works | answers | ends => exact .inl rfl

/-- A fiber that takes a step had not ended. -/
theorem fiberStep_hasEnded {allowed : (o : S.Op) → S.Ans o → Prop} {body : Eff S E U A}
    {f f' : Fiber S E U A} {e : Event S E U A} (hs : FiberStep allowed body f e f') :
    f.hasEnded = false ∧ f'.hasEnded = e.ending.isSome := by
  cases hs with
  | interrupted f hf => cases f <;> simp [Fiber.active, Fiber.hasEnded, Event.ending] at hf ⊢
  | starts | begins | works | answers | ends => exact ⟨rfl, rfl⟩

/-- A fiber ends for good, and has ended once one of its events says so. -/
theorem fiberRun_ending {allowed : (o : S.Op) → S.Ans o → Prop} {body : Eff S E U A}
    {h : List (Event S E U A)} {f : Fiber S E U A} (hr : FiberRun allowed body h f)
    (x : Exit E U A) : (∃ e ∈ h, e.ending = some x) ↔ f = .ended x := by
  induction hr with
  | nil => simp
  | @snoc h f e f' _ hs ih =>
    simp only [List.mem_append, List.mem_singleton, or_and_right, exists_or, ih, exists_eq_left,
      fiberStep_ending hs x]
    constructor
    · rintro (rfl | hf')
      · cases hs with
        | interrupted _ ha => simp [Fiber.active] at ha
      · exact hf'
    · exact .inr

/-- Interruption ends a fiber for good. -/
theorem fiberRun_interrupted {allowed : (o : S.Op) → S.Ans o → Prop} {body : Eff S E U A}
    {h : List (Event S E U A)} {f : Fiber S E U A} (hr : FiberRun allowed body h f)
    (hi : .interrupted ∈ h) : f = .ended interruptedExit :=
  (fiberRun_ending hr interruptedExit).mp ⟨_, hi, rfl⟩

/-- A fiber that ends by itself has come to an exit of its body. -/
theorem fiberRun_ends {allowed : (o : S.Op) → S.Ans o → Prop} {body : Eff S E U A}
    {h : List (Event S E U A)} {f : Fiber S E U A} (hr : FiberRun allowed body h f)
    {x : Exit E U A} (hx : .ends x ∈ h) : Eff.Path body (answered h) (.exit x) := by
  induction hr with
  | nil => cases hx
  | @snoc h f e f' hr hs ih =>
    rcases List.mem_append.mp hx with hx | hx
    · rw [(fiberRun_ending hr x).mp ⟨_, hx, rfl⟩] at hs
      cases hs with
      | interrupted _ ha => cases ha
    · rw [← List.mem_singleton.mp hx] at hs ⊢
      cases hs with
      | ends _ =>
        have ha : Eff.Path body (answered h) (.exit x) := fiberRun_agrees hr
        simpa [answered] using ha

/-- The operation an event belongs to. -/
def Event.operation : Event S E U A → Option S.Op
  | .begins o | .works o | .answers o _ => some o
  | .starts | .ends _ | .interrupted => none

/-- A fiber acts on an operation when its body has come to it. -/
theorem fiberStep_operation {allowed : (o : S.Op) → S.Ans o → Prop} {body : Eff S E U A}
    {f f' : Fiber S E U A} {e : Event S E U A} {as : List (Answered S)} {o : S.Op}
    (hs : FiberStep allowed body f e f') (ha : f.Agrees body as) (ho : e.operation = some o) :
    f.active = true ∧ ∃ k, Eff.Path body as (.perform o k) := by
  cases hs with
  | begins o' k | works o' k | answers o' k r _ =>
    cases ho
    exact ⟨rfl, k, ha⟩
  | starts | ends | interrupted => cases ho

/-- Unless it was interrupted, a fiber has answered what it has begun, except
for the operation it is in the middle of. -/
theorem fiberRun_begun {allowed : (o : S.Op) → S.Ans o → Prop} {body : Eff S E U A}
    {h : List (Event S E U A)} {f : Fiber S E U A} (hr : FiberRun allowed body h f)
    (hi : .interrupted ∉ h) : begun h = (answered h).map Sigma.fst ++ f.pending := by
  induction hr with
  | nil => rfl
  | snoc _ hs ih =>
    have ih := ih fun hm => hi (List.mem_append_left _ hm)
    rw [begun_append, answered_append, ih]
    cases hs with
    | interrupted _ _ => simp at hi
    | starts | begins | works | answers | ends => simp [begun, answered, Fiber.pending]

/-- Whatever a fiber has begun it has answered, or come to without an answer. -/
theorem fiberRun_begun_path {allowed : (o : S.Op) → S.Ans o → Prop} {body : Eff S E U A}
    {h : List (Event S E U A)} {f : Fiber S E U A} (hr : FiberRun allowed body h f) {o : S.Op}
    (ho : o ∈ begun h) :
    o ∈ (answered h).map Sigma.fst ∨ ∃ k, Eff.Path body (answered h) (.perform o k) := by
  induction hr with
  | nil => cases ho
  | @snoc h f e f' hr hs ih =>
    rw [begun_append] at ho
    rw [answered_append]
    have ha := fiberRun_agrees hr
    cases hs with
    | starts | works | ends | interrupted =>
      rw [show begun [_] = [] from rfl, List.append_nil] at ho
      rw [show answered [_] = [] from rfl, List.append_nil]
      exact ih ho
    | begins o' k =>
      rw [show answered [_] = [] from rfl, List.append_nil]
      rcases List.mem_append.mp ho with ho | ho
      · exact ih ho
      · rw [List.mem_singleton.mp ho]
        exact .inr ⟨k, ha⟩
    | answers o' k r _ =>
      rw [show begun [_] = [] from rfl, List.append_nil] at ho
      refine .inl ?_
      rw [List.map_append, List.mem_append]
      rcases ih ho with hm | ⟨k', hk'⟩
      · exact .inl hm
      · -- the fiber is where it waits for this answer
        cases Eff.path_unique hk' ha
        exact .inr List.mem_cons_self

/-- The events of a history other than work in progress. -/
def effort (h : List (Event S E U A)) : Nat := (h.filter fun e => !e.isWork).length

/-- How much effort is left in a fiber whose body answers at most `d` operations. -/
def Fiber.Left (d : Nat) : Fiber S E U A → Nat → Prop
  | .waiting, n => n = 2 * d + 2
  | .ready p, n => ∃ m, p.Within m ∧ n = 2 * m + 1
  | .busy _ k, n => ∃ m, (∀ r, (k r).Within m) ∧ n = 2 * m + 2
  | .ended _, n => n = 0

theorem fiberStep_left {allowed : (o : S.Op) → S.Ans o → Prop} {body : Eff S E U A} {d : Nat}
    (hb : body.Within d) {f f' : Fiber S E U A} {e : Event S E U A} {n : Nat}
    (hs : FiberStep allowed body f e f') (hl : f.Left d n) :
    ∃ n', f'.Left d n' ∧ n' + effort [e] ≤ n := by
  cases hs with
  | starts =>
    simp only [Fiber.Left] at hl
    exact ⟨2 * d + 1, ⟨d, hb, rfl⟩, by simp [effort, Event.isWork]; omega⟩
  | begins o k =>
    obtain ⟨m, hm, rfl⟩ := hl
    obtain ⟨m', rfl, hk⟩ := hm.perform_inv
    exact ⟨2 * m' + 2, ⟨m', hk, rfl⟩, by simp [effort, Event.isWork]; omega⟩
  | works o k => exact ⟨n, hl, by simp [effort, Event.isWork]⟩
  | answers o k r _ =>
    obtain ⟨m, hm, rfl⟩ := hl
    exact ⟨2 * m + 1, ⟨m, hm r, rfl⟩, by simp [effort, Event.isWork]⟩
  | ends x =>
    obtain ⟨m, _, rfl⟩ := hl
    exact ⟨0, rfl, by simp [effort, Event.isWork]⟩
  | interrupted _ hf =>
    refine ⟨0, rfl, ?_⟩
    cases f with
    | ready p =>
      obtain ⟨m, _, rfl⟩ := hl
      simp [effort, Event.isWork]
    | busy o k =>
      obtain ⟨m, _, rfl⟩ := hl
      simp [effort, Event.isWork]
    | waiting | ended _ => simp [Fiber.active] at hf

/-- A fiber goes through a bounded number of events, work in progress aside. -/
theorem fiberRun_effort {allowed : (o : S.Op) → S.Ans o → Prop} {body : Eff S E U A} {d : Nat}
    (hb : body.Within d) {h : List (Event S E U A)} {f : Fiber S E U A}
    (hr : FiberRun allowed body h f) : effort h ≤ 2 * d + 2 := by
  have key : ∃ n, f.Left d n ∧ effort h + n ≤ 2 * d + 2 := by
    induction hr with
    | nil => exact ⟨2 * d + 2, rfl, by simp [effort]⟩
    | snoc _ hs ih =>
      obtain ⟨n, hl, hn⟩ := ih
      obtain ⟨n', hl', hn'⟩ := fiberStep_left hb hs hl
      refine ⟨n', hl', ?_⟩
      simp only [effort, List.filter_append, List.length_append] at hn hn' ⊢
      omega
  obtain ⟨n, _, hn⟩ := key
  omega

end Fibers

/-! ## The loop -/

structure Loop (S : Sig) (E U A : Type) (n : Nat) where
  body : Fin n → Eff S E U A
  /-- The answers the environment may give to the operations of an element. -/
  allowed : Fin n → (o : S.Op) → S.Ans o → Prop
  slots : Nat

section Loops

variable {S : Sig} {E U A : Type} {n : Nat}

def Failing (fs : Fin n → Fiber S E U A) : Prop := ∃ i c, fs i = .ended (.failure c)

def inFlight (fs : Fin n → Fiber S E U A) : Nat :=
  (Finset.univ.filter fun i => (fs i).active = true).card

/-- The part of a step's condition that looks at the other fibers. -/
def Loop.Guard (L : Loop S E U A n) (fs : Fin n → Fiber S E U A) (i : Fin n) :
    Event S E U A → Prop
  | .starts => ¬ Failing fs ∧ (∀ j < i, fs j ≠ .waiting) ∧ inFlight fs < L.slots
  | .interrupted => Failing fs
  | _ => True

inductive Loop.Step (L : Loop S E U A n) :
    (Fin n → Fiber S E U A) → Fin n × Event S E U A → (Fin n → Fiber S E U A) → Prop
  | fiber {fs i e f'} : FiberStep (L.allowed i) (L.body i) (fs i) e f' → L.Guard fs i e →
      Step L fs (i, e) (Function.update fs i f')

abbrev Loop.Run (L : Loop S E U A n) :
    List (Fin n × Event S E U A) → (Fin n → Fiber S E U A) → Prop :=
  Runs L.Step fun _ => .waiting

inductive Loop.Exits : (Fin n → Fiber S E U A) → Exit E U Unit → Prop
  | success {fs : Fin n → Fiber S E U A} : (∀ i, ∃ a, fs i = .ended (.success a)) →
      Exits fs (.success ())
  | failure {fs : Fin n → Fiber S E U A} {i c} : fs i = .ended (.failure c) →
      (∀ j, (fs j).active = false) → Exits fs (.failure c)

theorem Loop.Exits.inactive {fs : Fin n → Fiber S E U A} {x : Exit E U Unit}
    (h : Loop.Exits fs x) (i : Fin n) : (fs i).active = false := by
  cases h with
  | success hall =>
    obtain ⟨a, ha⟩ := hall i
    rw [ha]
    rfl
  | failure _ hidle => exact hidle i

/-- The events of one element. -/
def history (i : Fin n) : List (Fin n × Event S E U A) → List (Event S E U A) :=
  List.filterMap fun e => if e.1 = i then some e.2 else none

@[simp] theorem history_nil (i : Fin n) :
    history i ([] : List (Fin n × Event S E U A)) = [] := rfl

@[simp] theorem history_append (i : Fin n) (t t' : List (Fin n × Event S E U A)) :
    history i (t ++ t') = history i t ++ history i t' := List.filterMap_append

theorem history_cons (i : Fin n) (e : Fin n × Event S E U A)
    (t : List (Fin n × Event S E U A)) :
    history i (e :: t) = if e.1 = i then e.2 :: history i t else history i t := by
  by_cases h : e.1 = i <;> simp [history, h]

theorem mem_history {i : Fin n} {t : List (Fin n × Event S E U A)} {e : Event S E U A} :
    e ∈ history i t ↔ (i, e) ∈ t := by
  simp only [history, List.mem_filterMap, Option.ite_none_right_eq_some, Option.some.injEq]
  constructor
  · rintro ⟨⟨j, e'⟩, hm, rfl, rfl⟩
    exact hm
  · intro hm
    exact ⟨(i, e), hm, rfl, rfl⟩

/-- In every interleaving each element goes through a run of its own fiber. -/
theorem Loop.run_fiber {L : Loop S E U A n} {t : List (Fin n × Event S E U A)}
    {fs : Fin n → Fiber S E U A} (h : L.Run t fs) (i : Fin n) :
    FiberRun (L.allowed i) (L.body i) (history i t) (fs i) := by
  induction h with
  | nil => exact .nil
  | @snoc t fs e fs' _ hs ih =>
    cases hs with
    | @fiber j e f' hstep _ =>
      rw [history_append, history_cons]
      by_cases hj : j = i
      · subst hj
        simpa using Runs.snoc ih hstep
      · simpa [hj, Function.update_of_ne (Ne.symm hj)] using ih

/-- A step stays one in an environment that allows more answers. -/
theorem Loop.step_mono {L : Loop S E U A n} {allowed' : Fin n → (o : S.Op) → S.Ans o → Prop}
    (h : ∀ i o r, L.allowed i o r → allowed' i o r) {fs fs' : Fin n → Fiber S E U A}
    {e : Fin n × Event S E U A} (hs : L.Step fs e fs') :
    Loop.Step { L with allowed := allowed' } fs e fs' := by
  cases hs with
  | @fiber i e f' hstep hguard =>
    refine .fiber (fiberStep_mono (h i) hstep) ?_
    cases e <;> exact hguard

/-- If no element can come to a failure by itself, none ever fails: the first
failure of a run is never an interruption. -/
theorem Loop.run_not_failing {L : Loop S E U A n}
    (hgood : ∀ i h c, ¬ FiberRun (L.allowed i) (L.body i) h (.ready (.exit (.failure c))))
    {t : List (Fin n × Event S E U A)} {fs : Fin n → Fiber S E U A} (h : L.Run t fs) :
    ¬ Failing fs := by
  induction h with
  | nil => simp [Failing]
  | @snoc t fs e fs' hr hs ih =>
    rintro ⟨j, c, hj⟩
    cases hs with
    | @fiber i e f' hstep hguard =>
      by_cases hij : j = i
      · subst hij
        rw [Function.update_self] at hj
        subst hj
        have hrun := Loop.run_fiber hr j
        generalize hfj : fs j = f at hstep hrun
        cases hstep with
        | ends x => exact hgood j _ c hrun
        | interrupted _ _ => exact ih hguard
      · rw [Function.update_of_ne hij] at hj
        exact ih ⟨j, c, hj⟩

theorem Loop.step_of {L : Loop S E U A n} {fs : Fin n → Fiber S E U A} {i : Fin n}
    {f f' : Fiber S E U A} {e : Event S E U A} (hf : fs i = f)
    (hs : FiberStep (L.allowed i) (L.body i) f e f') (hg : L.Guard fs i e) :
    L.Step fs (i, e) (Function.update fs i f') := by
  subst hf
  exact .fiber hs hg

/-- The loop is never stuck: some fiber can do more than work in progress, or
the loop exits. -/
theorem Loop.progress (L : Loop S E U A n) (hslots : 0 < L.slots)
    (hans : ∀ i o, ∃ r, L.allowed i o r) (fs : Fin n → Fiber S E U A) :
    (∃ e fs', L.Step fs e fs' ∧ e.2.isWork = false) ∨ ∃ x, Loop.Exits fs x := by
  by_cases hact : ∃ i, (fs i).active = true
  · obtain ⟨i, hi⟩ := hact
    refine .inl ?_
    cases hf : fs i with
    | waiting | ended _ => simp [hf, Fiber.active] at hi
    | ready p =>
      cases p with
      | exit x => exact ⟨_, _, Loop.step_of hf (.ends x) trivial, rfl⟩
      | perform o k => exact ⟨_, _, Loop.step_of hf (.begins o k) trivial, rfl⟩
    | busy o k =>
      obtain ⟨r, hr⟩ := hans i o
      exact ⟨_, _, Loop.step_of hf (.answers o k r hr) trivial, rfl⟩
  · have hidle : ∀ j, (fs j).active = false := fun j => by
      rw [← Bool.not_eq_true]
      exact fun h => hact ⟨j, h⟩
    by_cases hfail : Failing fs
    · obtain ⟨i, c, hc⟩ := hfail
      exact .inr ⟨_, .failure hc hidle⟩
    by_cases hwait : ∃ i, fs i = .waiting
    · obtain ⟨i, hi, hmin⟩ := WellFounded.has_min (wellFounded_lt (α := Fin n))
        {i | fs i = .waiting} hwait
      have hguard : L.Guard fs i .starts :=
        ⟨hfail, fun j hj hw => hmin j hw hj, by simpa [inFlight, hidle] using hslots⟩
      exact .inl ⟨_, _, Loop.step_of hi .starts hguard, rfl⟩
    · refine .inr ⟨_, .success fun i => ?_⟩
      cases hf : fs i with
      | waiting => exact absurd ⟨i, hf⟩ hwait
      | ready p => simpa [hf, Fiber.active] using hidle i
      | busy o k => simpa [hf, Fiber.active] using hidle i
      | ended x =>
        cases x with
        | success a => exact ⟨a, rfl⟩
        | failure c => exact absurd ⟨i, c, hf⟩ hfail

private theorem length_filter_eq_sum (q : Event S E U A → Bool)
    (t : List (Fin n × Event S E U A)) :
    (t.filter fun e => q e.2).length = ∑ i, ((history i t).filter q).length := by
  induction t with
  | nil => simp
  | cons e t ih =>
    have hone : ∀ i, ((history i (e :: t)).filter q).length =
        (if e.1 = i then (if q e.2 then 1 else 0) else 0) + ((history i t).filter q).length := by
      intro i
      rw [history_cons]
      by_cases hi : e.1 = i <;> by_cases hq : q e.2 = true <;>
        simp [hi, hq, Nat.add_comm]
    simp only [hone, Finset.sum_add_distrib, ← ih]
    by_cases hq : q e.2 = true <;> simp [hq, Nat.add_comm]

/-- A bound for each element is one for the whole trace. -/
theorem length_filter_le {b : Nat} (q : Event S E U A → Bool) (t : List (Fin n × Event S E U A))
    (h : ∀ i, ((history i t).filter q).length ≤ b) :
    (t.filter fun e => q e.2).length ≤ n * b := by
  rw [length_filter_eq_sum q]
  calc ∑ i, ((history i t).filter q).length
      ≤ ∑ _i : Fin n, b := Finset.sum_le_sum fun i _ => h i
    _ = n * b := by simp

/-- Work in progress aside, a run takes a bounded number of steps. -/
theorem Loop.run_effort {L : Loop S E U A n} {d : Nat} (hb : ∀ i, (L.body i).Within d)
    {t : List (Fin n × Event S E U A)} {fs : Fin n → Fiber S E U A} (h : L.Run t fs) :
    (t.filter fun e => !e.2.isWork).length ≤ n * (2 * d + 2) := by
  exact length_filter_le (fun e => !e.isWork) t fun i => fiberRun_effort (hb i) (L.run_fiber h i)

end Loops

end EffectWorker.Effect
