import Mathlib.Data.List.Basic
import EffectWorker.Effect.Program
import EffectWorker.Effect.Runs
import EffectWorker.Services

/-! Background tasks. `waitUntil` starts an effect as a promise and leaves the
promise to the execution context; the effect goes on beside the handler, logs
the cause if it fails, and is meant to swallow its errors. -/

namespace EffectWorker.Worker

open Effect

/-- The operations of a task: those of its effect, and logging a cause. -/
inductive TaskOp (O : Sig) (E U : Type)
  | own (o : O.Op)
  | logError (cause : Cause E U)

@[reducible] def TaskOp.Ans {O : Sig} {E U : Type} : TaskOp O E U → Type
  | .own o => O.Ans o
  | .logError _ => Unit

abbrev TaskSig (O : Sig) (E U : Type) : Sig := ⟨TaskOp O E U, TaskOp.Ans⟩

section Programs

variable {O : Sig} {E U A : Type}

/-- An effect as a part of a task. -/
def ofEffect : Eff O E U A → Eff (TaskSig O E U) E U A
  | .exit x => .exit x
  | .perform o k => Eff.perform (S := TaskSig O E U) (.own o) fun r => ofEffect (k r)

def logError (cause : Cause E U) : Eff (TaskSig O E U) E U Unit :=
  Eff.op (S := TaskSig O E U) (.logError cause)

/-- What the effect of a task was answered. -/
def ownAnswers : List (Answered (TaskSig O E U)) → List (Answered O) :=
  List.filterMap fun a => match a with
    | ⟨.own o, r⟩ => some ⟨o, r⟩
    | ⟨.logError _, _⟩ => none

/-- The causes a task has logged. -/
def loggedCauses : List (Answered (TaskSig O E U)) → List (Cause E U) :=
  List.filterMap fun a => match a with
    | ⟨.own _, _⟩ => none
    | ⟨.logError c, _⟩ => some c

/-- The operations of `waitUntil`: the service it reads, `Effect.runPromise`,
which answers the number of the promise, and `ctx.waitUntil`. -/
inductive HostOp (O : Sig) (E U A : Type)
  | CloudflareBindings
  | runPromise (effect : Eff (TaskSig O E U) Empty U (Option A))
  | waitUntil (ctx : ExecutionContext) (promise : Nat)

@[reducible] def HostOp.Ans {O : Sig} {E U A : Type} : HostOp O E U A → Type
  | .CloudflareBindings => EffectWorker.CloudflareBindings
  | .runPromise _ => Nat
  | .waitUntil _ _ => Unit

abbrev HostSig (O : Sig) (E U A : Type) : Sig := ⟨HostOp O E U A, HostOp.Ans⟩

variable [Throwable E U]

/-- What `waitUntil` makes of its effect; the value is one of type `A` or none. -/
def backgroundTask (effect : Eff O E U A) : Eff (TaskSig O E U) Empty U (Option A) :=
  (((ofEffect effect).tapErrorCause logError).map some).catchAll fun _ => Eff.succeed none

def waitUntil (effect : Eff O E U A) : Eff (HostSig O E U A) Empty U Unit :=
  (Eff.op (S := HostSig O E U A) .CloudflareBindings).flatMap fun bindings =>
    (Eff.op (S := HostSig O E U A) (.runPromise (backgroundTask effect))).flatMap fun promise =>
      Eff.op (S := HostSig O E U A) (.waitUntil bindings.ctx promise)

/-! ## What a task does -/

/-- How a task ends, from how its effect does. -/
def taskExit : Exit E U A → Exit Empty U (Option A)
  | .success a => .success (some a)
  | .failure c => if c.Caught then .success none else .failure c.electFailures

/-- What is left of a task when its effect has come to an exit. -/
def conclude : Exit E U A → Eff (TaskSig O E U) Empty U (Option A)
  | .success a => .exit (.success (some a))
  | .failure c => Eff.perform (S := TaskSig O E U) (.logError c) fun _ =>
      .exit (taskExit (.failure c))

theorem backgroundTask_exit (x : Exit E U A) :
    backgroundTask (.exit x : Eff O E U A) = conclude x := by
  cases x with
  | success a => rfl
  | failure c =>
    refine congrArg (Eff.perform (S := TaskSig O E U) (.logError c)) (funext fun _ => ?_)
    change (Eff.exit (.failure c)).catchAll (fun _ => Eff.succeed none) = _
    rw [Eff.catchAll_failure, taskExit]
    by_cases hc : c.Caught
    · rw [if_pos hc, if_pos hc]
      rfl
    · rw [if_neg hc, if_neg hc]
      rfl

theorem backgroundTask_perform (o : O.Op) (k : O.Ans o → Eff O E U A) :
    backgroundTask (Eff.perform o k) =
      Eff.perform (S := TaskSig O E U) (.own o) fun r => backgroundTask (k r) := rfl

/-- A task that has ended went through its effect, then logged its cause. -/
theorem backgroundTask_path {effect : Eff O E U A} {as : List (Answered (TaskSig O E U))}
    {x : Exit Empty U (Option A)} (h : Eff.Path (backgroundTask effect) as (.exit x)) :
    ∃ x₀, Eff.Path effect (ownAnswers as) (.exit x₀) ∧ loggedCauses as = x₀.causes ∧
      x = taskExit x₀ := by
  induction effect generalizing as with
  | exit x₀ =>
    rw [backgroundTask_exit] at h
    cases x₀ with
    | success a =>
      obtain ⟨rfl, hx⟩ := Eff.path_exit h
      exact ⟨_, .nil _, rfl, Eff.exit.inj hx⟩
    | failure c =>
      rcases Eff.path_perform h with ⟨-, hx⟩ | ⟨r, as', rfl, hrest⟩
      · cases hx
      · obtain ⟨rfl, hx⟩ := Eff.path_exit hrest
        exact ⟨_, .nil _, rfl, Eff.exit.inj hx⟩
  | perform o k ih =>
    rw [backgroundTask_perform] at h
    rcases Eff.path_perform h with ⟨-, hx⟩ | ⟨r, as', rfl, hrest⟩
    · cases hx
    · obtain ⟨x₀, hpath, hlogged, hx⟩ := ih r hrest
      exact ⟨x₀, .cons (S := O) r hpath, hlogged, hx⟩

/-- Whatever its effect does, a task can do. -/
theorem backgroundTask_ends {effect : Eff O E U A} {as : List (Answered O)} {x : Exit E U A}
    (h : Eff.Path effect as (.exit x)) :
    ∃ as', Eff.Path (backgroundTask effect) as' (.exit (taskExit x)) := by
  generalize hq : Eff.exit x = q at h
  induction h with
  | nil p =>
    subst hq
    rw [backgroundTask_exit]
    cases x with
    | success a => exact ⟨[], .nil _⟩
    | failure c =>
      exact ⟨_, .cons (S := TaskSig O E U) (o := .logError c) (k := fun _ => _) () (.nil _)⟩
  | @cons o k q r as h ih =>
    obtain ⟨as', hrest⟩ := ih hq
    exact ⟨_, .cons (S := TaskSig O E U) (o := .own o) (k := fun r => backgroundTask (k r)) r
      hrest⟩

end Programs

/-! ## The host

The fiber that calls `waitUntil` and the promises go on independently of each
other. -/

inductive Promise (O : Sig) (E U A : Type)
  | running (rest : Eff (TaskSig O E U) Empty U (Option A))
  | settled (result : Exit Empty U (Option A))

structure Host (O : Sig) (E U A : Type) where
  bindings : CloudflareBindings
  fiber : Eff (HostSig O E U A) Empty U Unit
  promises : List (Promise O E U A)
  /-- What `ctx.waitUntil` was given, oldest first. -/
  registered : List (ExecutionContext × Nat)

inductive HostEvent (O : Sig) (E U A : Type)
  | fiber (o : HostOp O E U A)
  | task (promise : Nat) (o : TaskOp O E U) (r : o.Ans)
  | settled (promise : Nat)

section Hosts

variable {O : Sig} {E U A : Type}

/-- `runPromise` rejects if and only if its effect fails. -/
def Promise.Rejected : Promise O E U A → Prop
  | .running _ | .settled (.success _) => False
  | .settled (.failure _) => True

def HostEvent.isFiber : HostEvent O E U A → Bool
  | .fiber _ => true
  | .task _ _ _ | .settled _ => false

inductive Host.Step : Host O E U A → HostEvent O E U A → Host O E U A → Prop
  | CloudflareBindings (w : Host O E U A) (k) :
      w.fiber = Eff.perform (S := HostSig O E U A) .CloudflareBindings k →
      Step w (.fiber .CloudflareBindings) { w with fiber := k w.bindings }
  | runPromise (w : Host O E U A) (effect k) :
      w.fiber = Eff.perform (S := HostSig O E U A) (.runPromise effect) k →
      Step w (.fiber (.runPromise effect)) { w with
        fiber := k w.promises.length
        promises := w.promises ++ [.running effect] }
  | waitUntil (w : Host O E U A) (ctx promise k) :
      w.fiber = Eff.perform (S := HostSig O E U A) (.waitUntil ctx promise) k →
      Step w (.fiber (.waitUntil ctx promise)) { w with
        fiber := k ()
        registered := w.registered ++ [(ctx, promise)] }
  | task (w : Host O E U A) (promise o k r) :
      w.promises[promise]? = some (.running (Eff.perform (S := TaskSig O E U) o k)) →
      Step w (.task promise o r) { w with
        promises := w.promises.set promise (.running (k r)) }
  | settled (w : Host O E U A) (promise x) : w.promises[promise]? = some (.running (.exit x)) →
      Step w (.settled promise) { w with promises := w.promises.set promise (.settled x) }

/-- A run from `w₀`. -/
abbrev Host.Run (w₀ : Host O E U A) : List (HostEvent O E U A) → Host O E U A → Prop :=
  Runs Host.Step w₀

/-- What a promise was answered. -/
def taskTrace (promise : Nat) : List (HostEvent O E U A) → List (Answered (TaskSig O E U)) :=
  List.filterMap fun e => match e with
    | .task promise' o r => if promise' = promise then some ⟨o, r⟩ else none
    | .fiber _ | .settled _ => none

variable {w₀ w w' : Host O E U A} {log : List (HostEvent O E U A)} {e : HostEvent O E U A}

theorem taskTrace_other {promise : Nat} (h : ∀ o r, e ≠ .task promise o r) :
    taskTrace promise (log ++ [e]) = taskTrace promise log := by
  have hnone : taskTrace promise [e] = [] := by
    cases e with
    | fiber | settled => rfl
    | task promise' o r =>
      by_cases hp : promise' = promise
      · subst hp
        exact absurd rfl (h o r)
      · simp [taskTrace, hp]
  unfold taskTrace at hnone ⊢
  rw [List.filterMap_append, hnone, List.append_nil]

theorem taskTrace_self (promise : Nat) (o : TaskOp O E U) (r : o.Ans) :
    taskTrace promise (log ++ [.task promise o r]) = taskTrace promise log ++ [⟨o, r⟩] := by
  simp [taskTrace]

theorem countP_fiber (o : HostOp O E U A) :
    (log ++ [HostEvent.fiber o]).countP HostEvent.isFiber = log.countP HostEvent.isFiber + 1 := by
  rw [List.countP_append]
  rfl

theorem countP_other (h : e.isFiber = false) :
    (log ++ [e]).countP HostEvent.isFiber = log.countP HostEvent.isFiber := by
  rw [List.countP_append, List.countP_singleton, h]
  rfl

theorem taskTrace_fiber (promise : Nat) (o : HostOp O E U A) :
    taskTrace promise (log ++ [HostEvent.fiber o]) = taskTrace promise log :=
  taskTrace_other fun _ _ h => by cases h

/-- A promise can go through any execution of its task. -/
theorem task_run {promise : Nat} {p q : Eff (TaskSig O E U) Empty U (Option A)}
    {as : List (Answered (TaskSig O E U))} (h : Host.Run w₀ log w)
    (hp : w.promises[promise]? = some (.running p)) (hpath : Eff.Path p as q) :
    ∃ log' w', Host.Run w₀ log' w' ∧ w'.promises[promise]? = some (.running q) := by
  induction hpath generalizing log w with
  | nil p => exact ⟨log, w, h, hp⟩
  | cons r _ ih =>
    have hlt : promise < w.promises.length := (List.getElem?_eq_some_iff.mp hp).1
    exact ih (h.snoc (.task w promise _ _ r hp)) (List.getElem?_set_self hlt)

/-! ## Containment -/

/-- What `waitUntil effect`, called in `w₀`, has done when the host is in `w`. -/
structure Contained (effect : Eff O E U A) (w₀ : Host O E U A) (log : List (HostEvent O E U A))
    (w : Host O E U A) : Prop where
  /-- It never waits: it is done or can go on, after three steps at most. -/
  proceeds : (∃ x, w.fiber = .exit x) ∨ ∃ e w', e.isFiber = true ∧ Host.Step w e w'
  steps : log.countP HostEvent.isFiber ≤ 3
  succeeds : ∀ x, w.fiber = .exit x → x = .success ()
  registered : ∀ x, w.fiber = .exit x → w.promises.length = w₀.promises.length + 1 ∧
    w.registered = w₀.registered ++ [(w₀.bindings.ctx, w₀.promises.length)]
  unregistered : (∀ x, w.fiber ≠ .exit x) → w.registered = w₀.registered
  /-- The promise never rejects. -/
  fulfills : ∀ p, w.promises[w₀.promises.length]? = some p → ¬ p.Rejected
  /-- When it has settled, the cause has been logged once, or nothing has. -/
  logged : ∀ result, w.promises[w₀.promises.length]? = some (.settled result) →
    ∃ x, Eff.Path effect (ownAnswers (taskTrace w₀.promises.length log)) (.exit x) ∧
      loggedCauses (taskTrace w₀.promises.length log) = x.causes

variable [Throwable E U] {effect : Eff O E U A}

/-- The same host, about to run `waitUntil effect`. -/
def Host.call (w : Host O E U A) (effect : Eff O E U A) : Host O E U A :=
  { w with fiber := waitUntil effect }

/-- How far `waitUntil effect` is: its steps, what is left of it, the number of
promises and what is registered. -/
inductive Phase (effect : Eff O E U A) (w₀ : Host O E U A) :
    Nat → Eff (HostSig O E U A) Empty U Unit → Nat → List (ExecutionContext × Nat) → Prop
  | called : Phase effect w₀ 0 (waitUntil effect) w₀.promises.length w₀.registered
  | bound : Phase effect w₀ 1
      ((Eff.op (S := HostSig O E U A) (.runPromise (backgroundTask effect))).flatMap fun promise =>
        Eff.op (S := HostSig O E U A) (.waitUntil w₀.bindings.ctx promise))
      w₀.promises.length w₀.registered
  | started : Phase effect w₀ 2
      (Eff.op (S := HostSig O E U A) (.waitUntil w₀.bindings.ctx w₀.promises.length))
      (w₀.promises.length + 1) w₀.registered
  | done : Phase effect w₀ 3 (.exit (.success ())) (w₀.promises.length + 1)
      (w₀.registered ++ [(w₀.bindings.ctx, w₀.promises.length)])

/-- The promise has come to where its answers lead its task. -/
def Promise.Follows (effect : Eff O E U A) (as : List (Answered (TaskSig O E U))) :
    Promise O E U A → Prop
  | .running rest => Eff.Path (backgroundTask effect) as rest
  | .settled result => Eff.Path (backgroundTask effect) as (.exit result)

structure HostSound (effect : Eff O E U A) (w₀ : Host O E U A) (log : List (HostEvent O E U A))
    (w : Host O E U A) : Prop where
  bindings : w.bindings = w₀.bindings
  phase : Phase effect w₀ (log.countP HostEvent.isFiber) w.fiber w.promises.length w.registered
  promise : ∀ p, w.promises[w₀.promises.length]? = some p →
    p.Follows effect (taskTrace w₀.promises.length log)
  unstarted : w.promises.length ≤ w₀.promises.length →
    taskTrace w₀.promises.length log = []

theorem phase_CloudflareBindings {i n : Nat} {k} {registered : List (ExecutionContext × Nat)}
    (h : Phase effect w₀ i (Eff.perform (S := HostSig O E U A) .CloudflareBindings k) n
      registered) :
    Phase effect w₀ (i + 1) (k w₀.bindings) n registered := by
  generalize hp : Eff.perform (S := HostSig O E U A) .CloudflareBindings k = p at h
  cases h with
  | called =>
    cases hp
    exact .bound
  | bound | started | done => cases hp

theorem phase_runPromise {i n : Nat} {task k} {registered : List (ExecutionContext × Nat)}
    (h : Phase effect w₀ i (Eff.perform (S := HostSig O E U A) (.runPromise task) k) n
      registered) :
    task = backgroundTask effect ∧ n = w₀.promises.length ∧
      Phase effect w₀ (i + 1) (k n) (n + 1) registered := by
  generalize hp : Eff.perform (S := HostSig O E U A) (.runPromise task) k = p at h
  cases h with
  | bound =>
    cases hp
    exact ⟨rfl, rfl, .started⟩
  | called | started | done => cases hp

theorem phase_waitUntil {i n promise : Nat} {ctx k} {registered : List (ExecutionContext × Nat)}
    (h : Phase effect w₀ i (Eff.perform (S := HostSig O E U A) (.waitUntil ctx promise) k) n
      registered) :
    Phase effect w₀ (i + 1) (k ()) n (registered ++ [(ctx, promise)]) := by
  generalize hp : Eff.perform (S := HostSig O E U A) (.waitUntil ctx promise) k = p at h
  cases h with
  | started =>
    cases hp
    exact .done
  | called | bound | done => cases hp

/-- A step of the fiber that starts no promise. -/
theorem hostSound_fiber {o : HostOp O E U A} {fiber : Eff (HostSig O E U A) Empty U Unit}
    {registered : List (ExecutionContext × Nat)} (hsound : HostSound effect w₀ log w)
    (hphase : Phase effect w₀ (log.countP HostEvent.isFiber + 1) fiber w.promises.length
      registered) :
    HostSound effect w₀ (log ++ [.fiber o])
      { w with fiber := fiber, registered := registered } := by
  refine ⟨hsound.bindings, ?_, ?_, ?_⟩
  · rw [countP_fiber]
    exact hphase
  · rw [taskTrace_fiber]
    exact hsound.promise
  · rw [taskTrace_fiber]
    exact hsound.unstarted

/-- A step of a promise that is there leaves the others as they are. -/
theorem hostSound_promise {promise : Nat} {old new : Promise O E U A}
    (hsound : HostSound effect w₀ log w) (hold : w.promises[promise]? = some old)
    (hfiber : e.isFiber = false) (hother : ∀ j o r, j ≠ promise → e ≠ .task j o r)
    (hnew : promise = w₀.promises.length →
      new.Follows effect (taskTrace w₀.promises.length (log ++ [e]))) :
    HostSound effect w₀ (log ++ [e]) { w with promises := w.promises.set promise new } := by
  have hlt : promise < w.promises.length := (List.getElem?_eq_some_iff.mp hold).1
  constructor
  case bindings => exact hsound.bindings
  case phase =>
    rw [countP_other hfiber, List.length_set]
    exact hsound.phase
  case promise =>
    intro p hp
    change (w.promises.set promise new)[w₀.promises.length]? = some p at hp
    by_cases hself : promise = w₀.promises.length
    · subst hself
      rw [List.getElem?_set_self hlt] at hp
      cases hp
      exact hnew rfl
    · rw [List.getElem?_set_ne hself] at hp
      rw [taskTrace_other (hother _ · · (Ne.symm hself))]
      exact hsound.promise p hp
  case unstarted =>
    intro hle
    change (w.promises.set promise new).length ≤ _ at hle
    rw [List.length_set] at hle
    rw [taskTrace_other (hother _ · · (by omega))]
    exact hsound.unstarted hle

theorem hostSound_step (hsound : HostSound effect w₀ log w) (hs : Host.Step w e w') :
    HostSound effect w₀ (log ++ [e]) w' := by
  have hphase := hsound.phase
  cases hs with
  | CloudflareBindings k hfiber =>
    rw [hfiber] at hphase
    have hnext := phase_CloudflareBindings hphase
    rw [← hsound.bindings] at hnext
    exact hostSound_fiber hsound hnext
  | runPromise task k hfiber =>
    rw [hfiber] at hphase
    obtain ⟨rfl, hlength, hnext⟩ := phase_runPromise hphase
    have hempty := hsound.unstarted (Nat.le_of_eq hlength)
    refine ⟨hsound.bindings, ?_, ?_, ?_⟩
    · rw [countP_fiber, List.length_append]
      exact hnext
    · intro p hp
      change (w.promises ++ [.running (backgroundTask effect)])[w₀.promises.length]? = some p at hp
      rw [← hlength, List.getElem?_concat_length] at hp
      cases hp
      rw [taskTrace_fiber, hempty]
      exact .nil _
    · intro _
      rw [taskTrace_fiber]
      exact hempty
  | waitUntil ctx promise k hfiber =>
    rw [hfiber] at hphase
    exact hostSound_fiber hsound (phase_waitUntil hphase)
  | task promise o k r hrest =>
    refine hostSound_promise hsound hrest rfl (fun j _ _ hj h => ?_) fun hself => ?_
    · exact hj (HostEvent.task.inj h).1.symm
    · subst hself
      rw [taskTrace_self]
      exact Eff.path_snoc (hsound.promise _ hrest) r
  | settled promise x hrest =>
    refine hostSound_promise hsound hrest rfl (fun j _ _ _ h => ?_) fun hself => ?_
    · cases h
    · subst hself
      rw [taskTrace_other (fun _ _ h => by cases h)]
      exact hsound.promise (.running (.exit x)) hrest

theorem hostSound (h : Host.Run (w₀.call effect) log w) : HostSound effect w₀ log w := by
  induction h with
  | nil =>
    refine ⟨rfl, .called, fun p hp => ?_, fun _ => rfl⟩
    change w₀.promises[w₀.promises.length]? = some p at hp
    rw [List.getElem?_eq_none (Nat.le_refl _)] at hp
    cases hp
  | snoc _ hs ih => exact hostSound_step ih hs

theorem phase_proceeds {i n : Nat} {registered : List (ExecutionContext × Nat)}
    (h : Phase effect w₀ i w.fiber n registered) :
    (∃ x, w.fiber = .exit x) ∨ ∃ e w', HostEvent.isFiber e = true ∧ Host.Step w e w' := by
  generalize hp : w.fiber = p at h
  cases h with
  | called => exact .inr ⟨_, _, rfl, .CloudflareBindings w _ hp⟩
  | bound => exact .inr ⟨_, _, rfl, .runPromise w _ _ hp⟩
  | started => exact .inr ⟨_, _, rfl, .waitUntil w _ _ _ hp⟩
  | done => exact .inl ⟨_, rfl⟩

theorem phase_le {i n : Nat} {p} {registered : List (ExecutionContext × Nat)}
    (h : Phase effect w₀ i p n registered) : i ≤ 3 := by
  cases h <;> omega

theorem phase_exit {i n : Nat} {x} {registered : List (ExecutionContext × Nat)}
    (h : Phase effect w₀ i (.exit x) n registered) :
    x = .success () ∧ n = w₀.promises.length + 1 ∧
      registered = w₀.registered ++ [(w₀.bindings.ctx, w₀.promises.length)] := by
  generalize hp : Eff.exit x = p at h
  cases h with
  | done =>
    cases hp
    exact ⟨rfl, rfl, rfl⟩
  | called | bound | started => cases hp

theorem phase_unregistered {i n : Nat} {p} {registered : List (ExecutionContext × Nat)}
    (h : Phase effect w₀ i p n registered) (hp : ∀ x, p ≠ .exit x) :
    registered = w₀.registered := by
  cases h with
  | called | bound | started => rfl
  | done => exact absurd rfl (hp _)

/-- A task fails exactly if its effect fails in a way that `catchAll` passes on. -/
theorem taskExit_failure_iff (x : Exit E U A) :
    (∃ c, taskExit x = .failure c) ↔ x.Uncaught := by
  cases x with
  | success a => simp [taskExit, Exit.Uncaught]
  | failure c => by_cases hc : c.Caught <;> simp [taskExit, Exit.Uncaught, hc]

/-- A promise that has settled did so by the exit of its effect. -/
theorem settled_exit (hsound : HostSound effect w₀ log w) {result : Exit Empty U (Option A)}
    (h : w.promises[w₀.promises.length]? = some (.settled result)) :
    ∃ x, Eff.Path effect (ownAnswers (taskTrace w₀.promises.length log)) (.exit x) ∧
      loggedCauses (taskTrace w₀.promises.length log) = x.causes ∧ result = taskExit x :=
  backgroundTask_path (hsound.promise _ h)

theorem contained_iff_caught (h : Host.Run (w₀.call effect) log w) :
    Contained effect w₀ log w ↔
      ∀ result x, w.promises[w₀.promises.length]? = some (.settled result) →
        Eff.Path effect (ownAnswers (taskTrace w₀.promises.length log)) (.exit x) →
        ¬ x.Uncaught := by
  have hsound := hostSound h
  constructor
  · intro hcontained result x hsettled hpath hx
    obtain ⟨x', hpath', -, rfl⟩ := settled_exit hsound hsettled
    obtain rfl := Eff.exit.inj (Eff.path_unique hpath hpath')
    obtain ⟨c, hc⟩ := (taskExit_failure_iff x).mpr hx
    rw [hc] at hsettled
    exact hcontained.fulfills _ hsettled trivial
  · intro hcaught
    constructor
    case proceeds => exact phase_proceeds hsound.phase
    case steps => exact phase_le hsound.phase
    case succeeds =>
      intro x hx
      have hphase := hsound.phase
      rw [hx] at hphase
      exact (phase_exit hphase).1
    case registered =>
      intro x hx
      have hphase := hsound.phase
      rw [hx] at hphase
      exact (phase_exit hphase).2
    case unregistered => exact phase_unregistered hsound.phase
    case fulfills =>
      intro p hp hrejected
      cases p with
      | running rest => exact hrejected
      | settled result =>
        cases result with
        | success a => exact hrejected
        | failure c =>
          obtain ⟨x, hpath, -, hx⟩ := settled_exit hsound hp
          exact hcaught _ x hp hpath ((taskExit_failure_iff x).mp ⟨c, hx.symm⟩)
    case logged =>
      intro result hsettled
      obtain ⟨x, hpath, hlogged, -⟩ := settled_exit hsound hsettled
      exact ⟨x, hpath, hlogged⟩

/-! ## Every exit is reached -/

/-- The call can run to its end before its promise does anything. -/
theorem call_run (effect : Eff O E U A) (w₀ : Host O E U A) :
    ∃ log w, Host.Run (w₀.call effect) log w ∧
      w.promises[w₀.promises.length]? = some (.running (backgroundTask effect)) := by
  have h₁ := Runs.single (Host.Step.CloudflareBindings (w₀.call effect) _ rfl)
  have h₂ := h₁.snoc (.runPromise _ _ _ rfl)
  exact ⟨_, _, h₂, List.getElem?_concat_length⟩

/-- Every exit of the effect settles the promise in some run. -/
theorem settled_run (w₀ : Host O E U A) {as : List (Answered O)} {x : Exit E U A}
    (hpath : Eff.Path effect as (.exit x)) :
    ∃ log w, Host.Run (w₀.call effect) log w ∧
      w.promises[w₀.promises.length]? = some (.settled (taskExit x)) := by
  obtain ⟨log₁, w₁, h₁, hp₁⟩ := call_run effect w₀
  obtain ⟨as', hpath'⟩ := backgroundTask_ends hpath
  obtain ⟨log₂, w₂, h₂, hp₂⟩ := task_run h₁ hp₁ hpath'
  have hlt : w₀.promises.length < w₂.promises.length := (List.getElem?_eq_some_iff.mp hp₂).1
  exact ⟨_, _, h₂.snoc (.settled w₂ _ _ hp₂), List.getElem?_set_self hlt⟩

/-- Background tasks are contained if and only if every failure of the effect
has an expected error and no defect; in a single run, if the effect did not end
in another one when its promise settled. -/
theorem contained_iff (effect : Eff O E U A) (w₀ : Host O E U A) :
    (∀ log w, Host.Run (w₀.call effect) log w →
      (Contained effect w₀ log w ↔
        ∀ result x, w.promises[w₀.promises.length]? = some (.settled result) →
          Eff.Path effect (ownAnswers (taskTrace w₀.promises.length log)) (.exit x) →
          ¬ x.Uncaught)) ∧
    ((∀ log w, Host.Run (w₀.call effect) log w → Contained effect w₀ log w) ↔
      ∀ as x, Eff.Path effect as (.exit x) → ¬ x.Uncaught) := by
  refine ⟨fun log w h => contained_iff_caught h, ?_⟩
  constructor
  · intro hcontained as x hpath hx
    obtain ⟨log, w, h, hsettled⟩ := settled_run w₀ hpath
    obtain ⟨c, hc⟩ := (taskExit_failure_iff x).mpr hx
    rw [hc] at hsettled
    exact (hcontained log w h).fulfills _ hsettled trivial
  · intro hexits log w h
    exact (contained_iff_caught h).mpr fun _ x _ hpath => hexits _ x hpath

end Hosts

/-! ## A task that dies -/

/-- An effect without operations that throws. -/
def throwing : Eff ⟨Empty, fun _ => Empty⟩ String String Unit := Eff.failCause (.die "unexpected")

def idleHost : Host ⟨Empty, fun _ => Empty⟩ String String Unit where
  bindings := ⟨localEnv, ⟨0⟩⟩
  fiber := .exit (.success ())
  promises := []
  registered := []

/-- The promise of an effect that throws rejects. -/
theorem throwing_notContained :
    ¬ ∀ log w, Host.Run (idleHost.call throwing) log w → Contained throwing idleHost log w := by
  intro hcontained
  obtain ⟨log, w, h, hsettled⟩ := settled_run idleHost (.nil throwing)
  exact (hcontained log w h).fulfills _ hsettled trivial

end EffectWorker.Worker
