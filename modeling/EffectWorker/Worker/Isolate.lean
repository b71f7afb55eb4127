import EffectWorker.Effect.Runs
import EffectWorker.Worker.Bindings

/-! One isolate: any number of invocations of `fetch` and `queue`, and the two
managed runtimes they share. A runtime builds its layers once, in a fiber of its
own, when it is first needed; every fetch invocation then starts with the values
that build left behind and enters its own region. Queue invocations run on the
default runtime. All fibers interleave freely. -/

namespace EffectWorker.Worker

open Effect

inductive RuntimeName
  | runtime
  | rpcRuntime
  deriving DecidableEq, Repr

/-- What an entry point runs; only the batch effect is given the bindings there. -/
inductive Entry (O : Sig) (X : Type)
  | handleRequest (body : Body O X false)
  | handleRpcRequest (body : Body O X false)
  | queue (body : Body O X true)

structure Invocation (O : Sig) (X : Type) where
  entry : Entry O X
  env : Env
  ctx : ExecutionContext

inductive Owner
  | invocation (i : Nat)
  | layers (rt : RuntimeName)
  deriving DecidableEq, Repr

inductive RuntimeState
  | unbuilt
  | building (n : Nat)
  | built (fiberRefs : (ref : BindingsRef) → ref.Val)

/-- `root` marks the fiber an invocation or a build was started with. -/
structure Task (O : Sig) (X : Type) where
  owner : Owner
  root : Bool
  fiber : RefFiber BindingsRef.Val (WorkerSig O) X

abbrev WorkerEvent (O : Sig) (X : Type) := RefEvent BindingsRef.Val (WorkerSig O) X

structure Isolate (O : Sig) (X : Type) where
  tasks : Nat → Option (Task O X)
  runtimes : RuntimeName → RuntimeState
  started : Nat → Bool
  log : List (Owner × WorkerEvent O X)

section Isolates

variable {O : Sig} {X : Type}

def Isolate.initial : Isolate O X := ⟨fun _ => none, fun _ => .unbuilt, fun _ => false, []⟩

/-- The managed runtime an entry point runs its effect on. -/
def Entry.runtime : Entry O X → Option RuntimeName
  | .handleRequest _ => some .runtime
  | .handleRpcRequest _ => some .rpcRuntime
  | .queue _ => none

/-- `Layer.succeed(CloudflareBindings, ...)` of a batch layer. -/
def makeBatchLayer (env : Env) (ctx : ExecutionContext) : CloudflareBindings :=
  { env := env, ctx := ctx }

/-- The effect that is run for an invocation, around which its region is put. -/
def Invocation.inner (inv : Invocation O X) : WorkerEff O X :=
  match inv.entry with
  | .handleRequest body | .handleRpcRequest body => body.effect
  | .queue body => provideBindings (makeBatchLayer inv.env inv.ctx) body.effect .exit

def Invocation.effect (inv : Invocation O X) : WorkerEff O X :=
  withCloudflareBindings inv.env inv.ctx inv.inner

/-- A fiber of its own, that nothing has forked. -/
def rootFiber (refs : (ref : BindingsRef) → ref.Val) (code : WorkerEff O X) :
    RefFiber BindingsRef.Val (WorkerSig O) X :=
  ⟨refs, code, []⟩

def Isolate.spawn (w : Isolate O X) (n : Nat) (task : Task O X) : Isolate O X :=
  { w with tasks := Function.update w.tasks n (some task) }

/-- `layers rt` is what building the layers of a runtime runs. -/
inductive Isolate.Step (layers : RuntimeName → Body O X false)
    (invocations : Nat → Invocation O X) :
    Isolate O X → Isolate O X → Prop
  | build (w : Isolate O X) (rt n) : w.runtimes rt = .unbuilt → w.tasks n = none →
      Step layers invocations w
        { w.spawn n ⟨.layers rt, true, rootFiber initialRefs (layers rt).effect⟩ with
          runtimes := Function.update w.runtimes rt (.building n) }
  | built (w : Isolate O X) (rt n) (task : Task O X) (x) : w.runtimes rt = .building n →
      w.tasks n = some task → task.fiber.code = .exit x → task.fiber.frames = [] →
      Step layers invocations w
        { w with runtimes := Function.update w.runtimes rt (.built task.fiber.refs) }
  | fetch (w : Isolate O X) (i n rt refs) : w.started i = false → w.tasks n = none →
      (invocations i).entry.runtime = some rt → w.runtimes rt = .built refs →
      Step layers invocations w
        { w.spawn n ⟨.invocation i, true, rootFiber refs (invocations i).effect⟩ with
          started := Function.update w.started i true }
  | queue (w : Isolate O X) (i n) : w.started i = false → w.tasks n = none →
      (invocations i).entry.runtime = none →
      Step layers invocations w
        { w.spawn n ⟨.invocation i, true, rootFiber initialRefs (invocations i).effect⟩ with
          started := Function.update w.started i true }
  | run (w : Isolate O X) (n) (task : Task O X) (e f) : w.tasks n = some task →
      RefStep task.fiber e f none →
      Step layers invocations w
        { w.spawn n { task with fiber := f } with log := w.log ++ [(task.owner, e)] }
  | fork (w : Isolate O X) (n m) (task : Task O X) (e f child) : w.tasks n = some task →
      w.tasks m = none → RefStep task.fiber e f (some child) →
      Step layers invocations w
        { (w.spawn n { task with fiber := f }).spawn m ⟨task.owner, false, child⟩ with
          log := w.log ++ [(task.owner, e)] }

inductive Isolate.Reachable (layers : RuntimeName → Body O X false)
    (invocations : Nat → Invocation O X) : Isolate O X → Prop
  | initial : Reachable layers invocations .initial
  | step {w w'} : Reachable layers invocations w → w.Step layers invocations w' →
      Reachable layers invocations w'

/-! ## The invariant -/

variable {layers : RuntimeName → Body O X false} {invocations : Nat → Invocation O X}

/-- The `env` that a fiber of this owner sees. -/
def Owner.env (invocations : Nat → Invocation O X) : Owner → Option Env
  | .invocation i => some (invocations i).env
  | .layers _ => none

def Owner.ctx (invocations : Nat → Invocation O X) : Owner → Option ExecutionContext
  | .invocation i => some (invocations i).ctx
  | .layers _ => none

/-- What a fiber of this owner may read. -/
abbrev Owner.Shows (invocations : Nat → Invocation O X) (owner : Owner) :
    (ref : BindingsRef) → ref.Val → Prop :=
  Worker.Shows (owner.env invocations) (owner.ctx invocations)

abbrev Owner.ShowsOnly (invocations : Nat → Invocation O X) (owner : Owner) : WorkerOp O → Prop :=
  Worker.ShowsOnly (owner.env invocations) (owner.ctx invocations)

/-- The task sees only what its owner may see, and a root task is left with the
initial values once it is outside every region. -/
structure Task.Confined (invocations : Nat → Invocation O X) (task : Task O X) : Prop where
  reads : task.fiber.Reads (task.owner.Shows invocations) (task.owner.ShowsOnly invocations)
  root : task.root = true → task.fiber.base = initialRefs

def EventConfined (invocations : Nat → Invocation O X) (owner : Owner) (e : WorkerEvent O X) :
    Prop :=
  (∀ ref value, e = .got ref value → owner.Shows invocations ref value) ∧
    ∀ o r, e = .performed o r → owner.ShowsOnly invocations o

structure Isolate.Confined (invocations : Nat → Invocation O X) (w : Isolate O X) : Prop where
  tasks : ∀ n task, w.tasks n = some task → task.Confined invocations
  events : ∀ owner e, (owner, e) ∈ w.log → EventConfined invocations owner e
  built : ∀ rt refs, w.runtimes rt = .built refs → refs = initialRefs
  building : ∀ rt n, w.runtimes rt = .building n → ∃ task, w.tasks n = some task ∧ task.root = true

theorem inner_reads (inv : Invocation O X) {refs : (ref : BindingsRef) → ref.Val}
    (h : Provides (some inv.env) (some inv.ctx) false refs) :
    Reads (Shows (some inv.env) (some inv.ctx)) (ShowsOnly (some inv.env) (some inv.ctx)) refs
      inv.inner := by
  unfold Invocation.inner
  cases inv.entry with
  | handleRequest body | handleRpcRequest body => exact body_reads body h
  | queue body => exact ⟨body_reads body (h.bound rfl), fun _ => trivial⟩

theorem invocation_confined (i : Nat) :
    Task.Confined invocations
      ⟨.invocation i, true, rootFiber initialRefs (invocations i).effect⟩ :=
  ⟨⟨withCloudflareBindings_reads _ _ _ fun _ => inner_reads (invocations i), trivial⟩,
    fun _ => rfl⟩

theorem layers_confined (layers : RuntimeName → Body O X false) (rt : RuntimeName) :
    Task.Confined invocations ⟨.layers rt, true, rootFiber initialRefs (layers rt).effect⟩ :=
  ⟨⟨body_reads _ ⟨rfl, rfl, by simp⟩, trivial⟩, fun _ => rfl⟩

/-- A step of one task confines it, what it forks and what it logs. -/
theorem task_step_confined {task : Task O X} {e : WorkerEvent O X}
    {f : RefFiber BindingsRef.Val (WorkerSig O) X}
    {child : Option (RefFiber BindingsRef.Val (WorkerSig O) X)} (h : task.Confined invocations)
    (hs : RefStep task.fiber e f child) :
    Task.Confined invocations { task with fiber := f } ∧
    (∀ c, child = some c → Task.Confined invocations ⟨task.owner, false, c⟩) ∧
    EventConfined invocations task.owner e := by
  obtain ⟨hf, hchild, hgot, hperformed⟩ := refStep_reads hs h.reads
  refine ⟨⟨hf, fun hroot => ?_⟩, fun c hc => ⟨hchild c hc, by simp⟩, hgot, hperformed⟩
  exact (refStep_base hs).trans (h.root hroot)

theorem spawn_cases {w : Isolate O X} {n n' : Nat} {task task' : Task O X}
    (h : (w.spawn n task).tasks n' = some task') :
    (n' = n ∧ task' = task) ∨ (n' ≠ n ∧ w.tasks n' = some task') := by
  change Function.update w.tasks n (some task) n' = some task' at h
  by_cases hn : n' = n
  · subst hn
    rw [Function.update_self] at h
    exact .inl ⟨rfl, (Option.some.inj h).symm⟩
  · rw [Function.update_of_ne hn] at h
    exact .inr ⟨hn, h⟩

/-- The root task of a build stays where it is. -/
theorem root_spawn {w : Isolate O X} {n n' : Nat} {task : Task O X}
    (h : ∃ task, w.tasks n' = some task ∧ task.root = true)
    (hn : ∀ task', w.tasks n = some task' → task.root = task'.root) :
    ∃ task', (w.spawn n task).tasks n' = some task' ∧ task'.root = true := by
  obtain ⟨task₀, htask, hroot⟩ := h
  change ∃ task', Function.update w.tasks n (some task) n' = some task' ∧ task'.root = true
  by_cases hnn : n' = n
  · subst hnn
    rw [Function.update_self]
    exact ⟨task, rfl, (hn task₀ htask).trans hroot⟩
  · rw [Function.update_of_ne hnn]
    exact ⟨task₀, htask, hroot⟩

theorem confined_spawn {w : Isolate O X} {n : Nat} {task : Task O X}
    (h : ∀ n task, w.tasks n = some task → task.Confined invocations)
    (ht : task.Confined invocations) :
    ∀ n' task', (w.spawn n task).tasks n' = some task' → task'.Confined invocations := by
  intro n' task' hn
  rcases spawn_cases hn with ⟨-, rfl⟩ | ⟨-, hn⟩
  · exact ht
  · exact h n' task' hn

private theorem confined_log {log : List (Owner × WorkerEvent O X)} {owner : Owner}
    {e : WorkerEvent O X} (h : ∀ owner e, (owner, e) ∈ log → EventConfined invocations owner e)
    (he : EventConfined invocations owner e) :
    ∀ owner' e', (owner', e') ∈ log ++ [(owner, e)] → EventConfined invocations owner' e' := by
  intro owner' e' hm
  rcases List.mem_append.mp hm with hm | hm
  · exact h owner' e' hm
  · cases List.mem_singleton.mp hm
    exact he

private theorem not_used {w : Isolate O X} {n : Nat} {task : Task O X} (h : w.tasks n = none) :
    ∀ task', w.tasks n = some task' → task.root = task'.root := by
  intro task' hn
  rw [h] at hn
  cases hn

private theorem same_root {w : Isolate O X} {n : Nat} {task : Task O X}
    {f : RefFiber BindingsRef.Val (WorkerSig O) X} (h : w.tasks n = some task) :
    ∀ task', w.tasks n = some task' → Task.root { task with fiber := f } = task'.root := by
  intro task' hn
  rw [h] at hn
  cases hn
  rfl

theorem update_runtime {w : Isolate O X} {rt rt' : RuntimeName} {s s' : RuntimeState}
    (h : Function.update w.runtimes rt s rt' = s') :
    (rt' = rt ∧ s = s') ∨ (rt' ≠ rt ∧ w.runtimes rt' = s') := by
  by_cases hrt : rt' = rt
  · subst hrt
    rw [Function.update_self] at h
    exact .inl ⟨rfl, h⟩
  · rw [Function.update_of_ne hrt] at h
    exact .inr ⟨hrt, h⟩

theorem step_confined {w w' : Isolate O X} (h : w.Confined invocations)
    (hs : w.Step layers invocations w') : w'.Confined invocations := by
  cases hs with
  | build rt n hunbuilt hfree =>
    refine ⟨confined_spawn h.tasks (layers_confined layers rt), h.events, fun rt' refs hb => ?_,
      fun rt' n' hb => ?_⟩
    · rcases update_runtime hb with ⟨-, hb⟩ | ⟨-, hb⟩
      · cases hb
      · exact h.built rt' refs hb
    · rcases update_runtime hb with ⟨-, hb⟩ | ⟨-, hb⟩
      · cases hb
        exact ⟨_, Function.update_self .., rfl⟩
      · exact root_spawn (h.building rt' n' hb) (not_used hfree)
  | built rt n task x hbuilding hn hcode hframes =>
    refine ⟨h.tasks, h.events, fun rt' refs hb => ?_, fun rt' n' hb => ?_⟩
    · rcases update_runtime hb with ⟨-, hb⟩ | ⟨-, hb⟩
      · cases hb
        obtain ⟨task', hn', hroot⟩ := h.building rt n hbuilding
        rw [hn] at hn'
        cases hn'
        rw [← base_of_unwound hframes]
        exact (h.tasks n task hn).root hroot
      · exact h.built rt' refs hb
    · rcases update_runtime hb with ⟨-, hb⟩ | ⟨-, hb⟩
      · cases hb
      · exact h.building rt' n' hb
  | fetch i n rt refs hstarted hfree hrt hb =>
    -- the fiber starts with what the build left behind, which are the initial values
    rw [h.built rt refs hb]
    exact ⟨confined_spawn h.tasks (invocation_confined i), h.events, h.built,
      fun rt' n' hb' => root_spawn (h.building rt' n' hb') (not_used hfree)⟩
  | queue i n hstarted hfree hrt =>
    exact ⟨confined_spawn h.tasks (invocation_confined i), h.events, h.built,
      fun rt' n' hb' => root_spawn (h.building rt' n' hb') (not_used hfree)⟩
  | run n task e f hn hstep =>
    obtain ⟨hf, -, he⟩ := task_step_confined (h.tasks n task hn) hstep
    exact ⟨confined_spawn h.tasks hf, confined_log h.events he, h.built,
      fun rt' n' hb => root_spawn (h.building rt' n' hb) (same_root hn)⟩
  | fork n m task e f child hn hfree hstep =>
    obtain ⟨hf, hchild, he⟩ := task_step_confined (h.tasks n task hn) hstep
    have hmn : m ≠ n := by
      rintro rfl
      rw [hfree] at hn
      cases hn
    have hfree' : (w.spawn n { task with fiber := f }).tasks m = none :=
      (Function.update_of_ne hmn ..).trans hfree
    exact ⟨confined_spawn (confined_spawn h.tasks hf) (hchild child rfl),
      confined_log h.events he, h.built, fun rt' n' hb =>
        root_spawn (root_spawn (h.building rt' n' hb) (same_root hn)) (not_used hfree')⟩

theorem reachable_confined {w : Isolate O X} (h : w.Reachable layers invocations) :
    w.Confined invocations := by
  induction h with
  | initial =>
    constructor
    · intro n task hn
      cases hn
    · intro owner e he
      cases he
    · intro rt refs hb
      cases hb
    · intro rt n hb
      cases hb
  | step _ hs ih => exact step_confined ih hs

/-! ## Isolation -/

/-- Every read on behalf of invocation `i` returns what `i` was called with;
every middleware it runs finds the bindings, and comes to `i`'s; a handler that
asks for the service goes on with `i`'s pair; what layers see while they are
built, what is left of it in the runtimes, and what is outside the regions, are
nulls. -/
structure BindingsIsolated (invocations : Nat → Invocation O X) (w : Isolate O X) : Prop where
  currentEnv : ∀ i value, (.invocation i, .got .currentEnv value) ∈ w.log →
    value = some (invocations i).env
  currentCtx : ∀ i value, (.invocation i, .got .currentCtx value) ∈ w.log →
    value = some (invocations i).ctx
  bindings : ∀ i m result r, (.invocation i, .performed (WorkerOp.bindings m result) r) ∈ w.log →
    result = .ok { env := (invocations i).env, ctx := (invocations i).ctx }
  connection : ∀ i m result r,
    (.invocation i, .performed (WorkerOp.connection m result) r) ∈ w.log →
    result = .ok (invocations i).env.connectionString
  service : ∀ i value, (.invocation i, .got .currentContext value) ∈ w.log →
    value = some { env := (invocations i).env, ctx := (invocations i).ctx }
  handler : ∀ n task i missing (k : CloudflareBindings → Body O X true), w.tasks n = some task →
    task.owner = .invocation i → task.fiber.code = (Body.service missing k).effect →
    ∀ e f child, RefStep task.fiber e f child → (∀ x, e ≠ .aborted x) →
      f.code = (k { env := (invocations i).env, ctx := (invocations i).ctx }).effect
  layers : ∀ rt ref value, (.layers rt, .got ref value) ∈ w.log → value = initialRefs ref
  runtimes : ∀ rt refs, w.runtimes rt = .built refs → refs = initialRefs
  outside : ∀ n task, w.tasks n = some task → task.root = true → task.fiber.frames = [] →
    task.fiber.refs = initialRefs

theorem shows_service {env : Env} {ctx : ExecutionContext} {value : Option CloudflareBindings}
    (h : Shows (some env) (some ctx) .currentContext value) :
    value = some { env := env, ctx := ctx } := by
  obtain ⟨bindings, rfl, hok⟩ := h
  exact congrArg some (Except.ok.inj hok).symm

/-- A confined fiber that asks for the service goes on with the pair. -/
theorem service_received {env : Env} {ctx : ExecutionContext}
    {f f' : RefFiber BindingsRef.Val (WorkerSig O) X} {e : WorkerEvent O X}
    {child : Option (RefFiber BindingsRef.Val (WorkerSig O) X)} {missing : X}
    {k : CloudflareBindings → Body O X true}
    (h : Reads (Shows (some env) (some ctx)) (ShowsOnly (some env) (some ctx)) f.refs f.code)
    (hcode : f.code = (Body.service missing k).effect) (hs : RefStep f e f' child)
    (hnot : ∀ x, e ≠ .aborted x) : f'.code = (k { env := env, ctx := ctx }).effect := by
  obtain ⟨refs, code, frames⟩ := f
  obtain rfl : code = (Body.service missing k).effect := hcode
  cases hs with
  | got =>
    have hservice : refs .currentContext = some { env := env, ctx := ctx } := shows_service h.1
    change (refs .currentContext).elim _ _ = _
    rw [hservice]
    rfl
  | aborted _ _ _ x => exact absurd rfl (hnot x)

theorem bindings_isolated {layers : RuntimeName → Body O X false}
    {invocations : Nat → Invocation O X} {w : Isolate O X}
    (h : w.Reachable layers invocations) : BindingsIsolated invocations w := by
  have hc := reachable_confined h
  constructor
  case currentEnv => exact fun i value hm => (hc.events _ _ hm).1 _ _ rfl
  case currentCtx => exact fun i value hm => (hc.events _ _ hm).1 _ _ rfl
  case bindings => exact fun i m result r hm => (hc.events _ _ hm).2 _ _ rfl
  case connection => exact fun i m result r hm => (hc.events _ _ hm).2 _ _ rfl
  case service => exact fun i value hm => shows_service ((hc.events _ _ hm).1 _ _ rfl)
  case handler =>
    intro n task i missing k hn howner hcode e f child hs hnot
    have hreads := (hc.tasks n task hn).reads.code
    rw [howner] at hreads
    exact service_received hreads hcode hs hnot
  case layers =>
    intro rt ref value hm
    have hshown := (hc.events _ _ hm).1 _ _ rfl
    cases ref with
    | currentEnv | currentCtx => exact hshown
    | currentContext =>
      obtain ⟨bindings, -, hok⟩ := hshown
      cases hok
  case runtimes => exact hc.built
  case outside =>
    intro n task hn hroot hframes
    rw [← base_of_unwound hframes]
    exact (hc.tasks n task hn).root hroot

/-- A fiber that forks nothing goes on while all others stay where they are. -/
theorem reachable_runs {w : Isolate O X} {n : Nat} {task : Task O X}
    {events : List (WorkerEvent O X)} {f : RefFiber BindingsRef.Val (WorkerSig O) X}
    (h : w.Reachable layers invocations) (hn : w.tasks n = some task)
    (hr : Runs (fun f e f' => RefStep f e f' none) task.fiber events f) :
    ∃ w' : Isolate O X, w'.Reachable layers invocations ∧
      w'.tasks = Function.update w.tasks n (some { task with fiber := f }) ∧
      w'.log = w.log ++ events.map (Prod.mk task.owner) := by
  induction hr with
  | nil =>
    refine ⟨w, h, ?_, (List.append_nil _).symm⟩
    rw [← hn, Function.update_eq_self]
  | @snoc events f e f' _ hs ih =>
    obtain ⟨w', h', htasks, hlog⟩ := ih
    refine ⟨_, h'.step (.run w' n { task with fiber := f } e f' ?_ hs), ?_, ?_⟩
    · rw [htasks, Function.update_self]
    · change Function.update w'.tasks n _ = _
      rw [htasks, Function.update_idem]
    · rw [hlog, List.map_append, List.append_assoc]
      rfl

theorem reachable_forks {w : Isolate O X} {n m : Nat} {task : Task O X} {e : WorkerEvent O X}
    {f child : RefFiber BindingsRef.Val (WorkerSig O) X} (h : w.Reachable layers invocations)
    (hn : w.tasks n = some task) (hm : w.tasks m = none)
    (hs : RefStep task.fiber e f (some child)) :
    ∃ w' : Isolate O X, w'.Reachable layers invocations ∧
      w'.tasks = Function.update (Function.update w.tasks n (some { task with fiber := f })) m
        (some ⟨task.owner, false, child⟩) ∧
      w'.log = w.log ++ [(task.owner, e)] :=
  ⟨_, h.step (.fork w n m task e f child hn hm hs), rfl, rfl⟩

end Isolates

/-! ## Two requests -/

abbrev HealthExit := Exit CloudflareBindingsError String HealthResponse

def productionEnv : Env := { DATABASE_URL := none, ENVIRONMENT := some "production" }

/-- A health check behind the middleware that provides the bindings. -/
def checkedHealth (m : BindingsMiddleware) : Body ClockSig HealthExit false :=
  .bindings m (fun error => .failure (.fail error))
    (HealthGroupLive "Service not found: CloudflareBindings") .exit

def plainLayers : RuntimeName → Body ClockSig HealthExit false := fun _ => .exit (.failure .empty)

/-- A health check over HTTP, and RPC bodies of two, each with its own bindings. -/
def healthInvocations : Nat → Invocation ClockSig HealthExit
  | 0 =>
    { entry := .handleRequest (checkedHealth .CloudflareBindingsMiddleware)
      env := productionEnv
      ctx := { id := 0 } }
  | i + 1 =>
    { entry := .handleRpcRequest
        (.fork (checkedHealth .RpcCloudflareMiddleware) (checkedHealth .RpcCloudflareMiddleware))
      env := localEnv
      ctx := { id := i + 1 } }

/-- Both runtimes are built and both requests have come in. -/
theorem twoRequests_fetched : ∃ w : Isolate ClockSig HealthExit,
    w.Reachable plainLayers healthInvocations ∧
    w.tasks 1 = some ⟨.invocation 0, true, rootFiber initialRefs (healthInvocations 0).effect⟩ ∧
    w.tasks 3 = some ⟨.invocation 1, true, rootFiber initialRefs (healthInvocations 1).effect⟩ ∧
    w.tasks 4 = none ∧ w.log = [] := by
  have h := Isolate.Reachable.initial.step
    (.build .initial .runtime 0 rfl rfl : Isolate.Step plainLayers healthInvocations _ _)
  have h := h.step (.built _ .runtime 0 _ _ rfl rfl rfl rfl)
  have h := h.step (.fetch _ 0 1 .runtime initialRefs rfl rfl rfl rfl)
  have h := h.step (.build _ .rpcRuntime 2 rfl rfl)
  have h := h.step (.built _ .rpcRuntime 2 _ _ rfl rfl rfl rfl)
  have h := h.step (.fetch _ 1 3 .rpcRuntime initialRefs rfl rfl rfl rfl)
  exact ⟨_, h, rfl, rfl, rfl, rfl⟩

/-- The two requests run at a time: the second forks a fiber for its first call,
and in between both get as far as their handlers, each of which is given the
bindings of its own request. -/
theorem bindings_isolated_twoRequests : ∃ w : Isolate ClockSig HealthExit,
    BindingsIsolated healthInvocations w ∧ (.invocation 1, .forked) ∈ w.log ∧
    (.invocation 0, .performed (WorkerOp.bindings .CloudflareBindingsMiddleware
      (.ok ⟨productionEnv, { id := 0 }⟩)) ()) ∈ w.log ∧
    (.invocation 0, .got .currentContext (some ⟨productionEnv, { id := 0 }⟩)) ∈ w.log ∧
    (.invocation 1, .got .currentContext (some ⟨localEnv, { id := 1 }⟩)) ∈ w.log := by
  obtain ⟨w, h, hhttp, hrpc, hfree, hlog⟩ := twoRequests_fetched
  obtain ⟨w₁, h₁, ht₁, hl₁⟩ := reachable_runs h hhttp
    (.snoc (.snoc .nil (.entered ..)) (.entered ..))
  obtain ⟨w₂, h₂, ht₂, hl₂⟩ := reachable_runs (n := 3) h₁ (by simp [ht₁, hrpc]; rfl)
    (.snoc (.snoc .nil (.entered ..)) (.entered ..))
  obtain ⟨w₃, h₃, ht₃, hl₃⟩ := reachable_forks (n := 3) (m := 4) h₂ (by simp [ht₂]; rfl)
    (by simp [ht₂, ht₁, hfree]) (.forked ..)
  -- both read the references, provide what they have read and ask for it
  obtain ⟨w₄, h₄, ht₄, hl₄⟩ := reachable_runs (n := 1) h₃ (by simp [ht₃, ht₂, ht₁]; rfl)
    (.snoc .nil (.got ..))
  obtain ⟨w₅, h₅, ht₅, hl₅⟩ := reachable_runs (n := 4) h₄ (by simp [ht₄, ht₃]; rfl)
    (.snoc (.snoc (.snoc (.snoc (.snoc .nil (.got ..)) (.got ..)) (.performed _ _ _ _ ()))
      (.entered ..)) (.got ..))
  obtain ⟨w₆, h₆, -, hl₆⟩ := reachable_runs (n := 1) h₅ (by simp [ht₅, ht₄]; rfl)
    (.snoc (.snoc (.snoc (.snoc .nil (.got ..)) (.performed _ _ _ _ ())) (.entered ..)) (.got ..))
  refine ⟨w₆, bindings_isolated h₆, ?_, ?_, ?_, ?_⟩
  · simp [hl₆, hl₅, hl₄, hl₃]
  · simp [hl₆, healthInvocations, bindingsOf]
  · simp [hl₆, healthInvocations]
  · simp [hl₆, hl₅, healthInvocations]

end EffectWorker.Worker
