import EffectWorker.Effect.FiberRef
import EffectWorker.Services

/-! The Cloudflare bindings: the two references that carry them from the entry
points, the region that sets them, the four middlewares that read them, and the
service that handlers are given. What runs inside the region is arbitrary,
except that nothing but `withCloudflareBindings` ever sets the two references
and nothing but a middleware or a batch layer provides the service. -/

namespace EffectWorker.Worker

open Effect

/-- `currentContext` is where a fiber keeps its services; only the bindings are
told apart. -/
inductive BindingsRef
  | currentEnv
  | currentCtx
  | currentContext
  deriving DecidableEq, Repr

@[reducible] def BindingsRef.Val : BindingsRef → Type
  | .currentEnv => Option Env
  | .currentCtx => Option ExecutionContext
  | .currentContext => Option CloudflareBindings

/-- `FiberRef.unsafeMake(null)`, twice, and no service. -/
def initialRefs : (ref : BindingsRef) → ref.Val
  | .currentEnv => none
  | .currentCtx => none
  | .currentContext => none

/-! ## Middlewares -/

structure CloudflareBindingsError where
  message : String
  deriving DecidableEq, Repr

structure DatabaseConnectionError where
  message : String
  deriving DecidableEq, Repr

/-- The middlewares that provide the bindings. -/
inductive BindingsMiddleware
  | CloudflareBindingsMiddleware
  | RpcCloudflareMiddleware
  deriving DecidableEq, Repr

/-- The middlewares that connect to the database. -/
inductive ConnectionMiddleware
  | DatabaseMiddleware
  | RpcDatabaseMiddleware
  deriving DecidableEq, Repr

def bindingsOf (env : Option Env) (ctx : Option ExecutionContext) :
    Except CloudflareBindingsError CloudflareBindings :=
  match env, ctx with
  | some env, some ctx => .ok { env := env, ctx := ctx }
  | _, _ => .error
    ⟨"Cloudflare bindings not available. Ensure withCloudflareBindings() wraps the handler."⟩

def connectionStringOf (env : Option Env) : Except DatabaseConnectionError String :=
  match env with
  | some env => .ok env.connectionString
  | none => .error
    ⟨"Cloudflare env not available. Ensure withCloudflareBindings() wraps the handler."⟩

/-- The operations of an effect: whatever it does besides the references, and a
middleware handing on its result, which is the bindings it provides or the
connection string it goes on to connect with. -/
inductive WorkerOp (O : Sig)
  | other (o : O.Op)
  | bindings (m : BindingsMiddleware) (result : Except CloudflareBindingsError CloudflareBindings)
  | connection (m : ConnectionMiddleware) (result : Except DatabaseConnectionError String)

@[reducible] def WorkerOp.Ans {O : Sig} : WorkerOp O → Type
  | .other o => O.Ans o
  | .bindings _ _ | .connection _ _ => Unit

abbrev WorkerSig (O : Sig) : Sig := ⟨WorkerOp O, WorkerOp.Ans⟩

section Effects

variable {O : Sig} {X : Type}

abbrev WorkerEff (O : Sig) (X : Type) := RefEff BindingsRef.Val (WorkerSig O) X

def readBindings (m : BindingsMiddleware) (failed : CloudflareBindingsError → WorkerEff O X)
    (k : CloudflareBindings → WorkerEff O X) : WorkerEff O X :=
  .get .currentEnv fun env => .get .currentCtx fun ctx =>
    RefEff.perform (S := WorkerSig O) (.bindings m (bindingsOf env ctx)) fun _ =>
      match bindingsOf env ctx with
      | .error error => failed error
      | .ok bindings => k bindings

def readConnectionString (m : ConnectionMiddleware)
    (k : Except DatabaseConnectionError String → WorkerEff O X) : WorkerEff O X :=
  .get .currentEnv fun env =>
    RefEff.perform (S := WorkerSig O) (.connection m (connectionStringOf env)) fun _ =>
      k (connectionStringOf env)

def CloudflareBindingsMiddlewareLive (failed : CloudflareBindingsError → WorkerEff O X)
    (k : CloudflareBindings → WorkerEff O X) : WorkerEff O X :=
  readBindings .CloudflareBindingsMiddleware failed k

def DatabaseMiddlewareLive (k : Except DatabaseConnectionError String → WorkerEff O X) :
    WorkerEff O X :=
  readConnectionString .DatabaseMiddleware k

def RpcCloudflareMiddlewareLive (failed : CloudflareBindingsError → WorkerEff O X)
    (k : CloudflareBindings → WorkerEff O X) : WorkerEff O X :=
  readBindings .RpcCloudflareMiddleware failed k

def RpcDatabaseMiddlewareLive (k : Except DatabaseConnectionError String → WorkerEff O X) :
    WorkerEff O X :=
  readConnectionString .RpcDatabaseMiddleware k

def BindingsMiddleware.live : BindingsMiddleware → (CloudflareBindingsError → WorkerEff O X) →
    (CloudflareBindings → WorkerEff O X) → WorkerEff O X
  | .CloudflareBindingsMiddleware => CloudflareBindingsMiddlewareLive
  | .RpcCloudflareMiddleware => RpcCloudflareMiddlewareLive

def ConnectionMiddleware.live : ConnectionMiddleware →
    (Except DatabaseConnectionError String → WorkerEff O X) → WorkerEff O X
  | .DatabaseMiddleware => DatabaseMiddlewareLive
  | .RpcDatabaseMiddleware => RpcDatabaseMiddlewareLive

/-- What the entry points and the layers run: routers, servers and handlers of
any shape, which read the references, fork fibers and use middlewares. Those of
type `Body O X true` may ask for the bindings, which have to be provided for
them. `service` is `yield* CloudflareBindings`; it would exit with `missing` in a
context without. -/
inductive Body (O : Sig) (X : Type) : Bool → Type
  | exit {provided} (x : X) : Body O X provided
  | getEnv {provided} (k : Option Env → Body O X provided) : Body O X provided
  | getCtx {provided} (k : Option ExecutionContext → Body O X provided) : Body O X provided
  | service (missing : X) (k : CloudflareBindings → Body O X true) : Body O X true
  | other {provided} (o : O.Op) (k : O.Ans o → Body O X provided) : Body O X provided
  | fork {provided} (child rest : Body O X provided) : Body O X provided
  | bindings {provided} (m : BindingsMiddleware) (failed : CloudflareBindingsError → X)
      (handler : Body O X true) (rest : X → Body O X provided) : Body O X provided
  | connection {provided} (m : ConnectionMiddleware)
      (k : Except DatabaseConnectionError String → Body O X provided) : Body O X provided

/-- Run an effect with the bindings as a service. -/
def provideBindings (bindings : CloudflareBindings) (effect : WorkerEff O X)
    (rest : X → WorkerEff O X) : WorkerEff O X :=
  .locally .currentContext (some bindings) effect rest

def Body.effect {provided : Bool} : Body O X provided → WorkerEff O X
  | .exit x => .exit x
  | .getEnv k => .get .currentEnv fun env => (k env).effect
  | .getCtx k => .get .currentCtx fun ctx => (k ctx).effect
  | .service missing k =>
    .get .currentContext fun service => service.elim (.exit missing) fun pair => (k pair).effect
  | .other o k => RefEff.perform (S := WorkerSig O) (.other o) fun r => (k r).effect
  | .fork child rest => .fork child.effect rest.effect
  | .bindings m failed handler rest => m.live (fun error => (rest (failed error)).effect)
    fun pair => provideBindings pair handler.effect fun x => (rest x).effect
  | .connection m k => m.live fun result => (k result).effect

def withCloudflareBindings (env : Env) (ctx : ExecutionContext) (effect : WorkerEff O X) :
    WorkerEff O X :=
  .locally .currentCtx (some ctx) (.locally .currentEnv (some env) effect .exit) .exit

/-! ## What is read -/

/-- What may be read where the references are `env` and `ctx`; whoever asks for
the service gets the pair. -/
def Shows (env : Option Env) (ctx : Option ExecutionContext) : (ref : BindingsRef) → ref.Val → Prop
  | .currentEnv, value => value = env
  | .currentCtx, value => value = ctx
  | .currentContext, value => ∃ bindings, value = some bindings ∧ bindingsOf env ctx = .ok bindings

/-- Operations that show no other values than `env` and `ctx`. -/
def ShowsOnly (env : Option Env) (ctx : Option ExecutionContext) : WorkerOp O → Prop
  | .other _ => True
  | .bindings _ result => result = bindingsOf env ctx
  | .connection _ result => result = connectionStringOf env

/-- The references are `env` and `ctx`, and the service is provided where it has to be. -/
structure Provides (env : Option Env) (ctx : Option ExecutionContext) (provided : Bool)
    (refs : (ref : BindingsRef) → ref.Val) : Prop where
  currentEnv : refs .currentEnv = env
  currentCtx : refs .currentCtx = ctx
  service : provided = true → Shows env ctx .currentContext (refs .currentContext)

section Reading

variable {env : Option Env} {ctx : Option ExecutionContext} {provided : Bool}
  {refs : (ref : BindingsRef) → ref.Val}

theorem Provides.bound (h : Provides env ctx provided refs) {bindings : CloudflareBindings}
    (hok : bindingsOf env ctx = .ok bindings) :
    Provides env ctx true (Function.update refs .currentContext (some bindings)) := by
  refine ⟨?_, ?_, fun _ => ?_⟩
  · rw [Function.update_of_ne (by decide)]
    exact h.currentEnv
  · rw [Function.update_of_ne (by decide)]
    exact h.currentCtx
  · rw [Function.update_self]
    exact ⟨bindings, rfl, hok⟩

theorem readBindings_reads (h : Provides env ctx provided refs) (m : BindingsMiddleware)
    {failed : CloudflareBindingsError → WorkerEff O X} {k : CloudflareBindings → WorkerEff O X}
    (hfailed : ∀ error, Reads (Shows env ctx) (ShowsOnly env ctx) refs (failed error))
    (hk : ∀ bindings, bindingsOf env ctx = .ok bindings →
      Reads (Shows env ctx) (ShowsOnly env ctx) refs (k bindings)) :
    Reads (Shows env ctx) (ShowsOnly env ctx) refs (m.live failed k) := by
  have hread : Reads (Shows env ctx) (ShowsOnly env ctx) refs (readBindings m failed k) := by
    refine ⟨h.currentEnv, h.currentCtx, ?_⟩
    rw [h.currentEnv, h.currentCtx]
    refine ⟨rfl, fun _ => ?_⟩
    cases hresult : bindingsOf env ctx with
    | error error => exact hfailed error
    | ok bindings => exact hk bindings hresult
  cases m <;> exact hread

theorem readConnectionString_reads (h : Provides env ctx provided refs) (m : ConnectionMiddleware)
    {k : Except DatabaseConnectionError String → WorkerEff O X}
    (hk : Reads (Shows env ctx) (ShowsOnly env ctx) refs (k (connectionStringOf env))) :
    Reads (Shows env ctx) (ShowsOnly env ctx) refs (m.live k) := by
  have hread : Reads (Shows env ctx) (ShowsOnly env ctx) refs (readConnectionString m k) := by
    refine ⟨h.currentEnv, ?_⟩
    rw [h.currentEnv]
    exact ⟨rfl, fun _ => hk⟩
  cases m <;> exact hread

/-- A body never sees other values than those it is started with, and where it
asks for the service the service is there. -/
theorem body_reads (body : Body O X provided) (h : Provides env ctx provided refs) :
    Reads (Shows env ctx) (ShowsOnly env ctx) refs body.effect := by
  induction body generalizing refs with
  | exit x => trivial
  | getEnv k ih => exact ⟨h.currentEnv, ih _ h⟩
  | getCtx k ih => exact ⟨h.currentCtx, ih _ h⟩
  | service missing k ih =>
    obtain ⟨bindings, hsome, hok⟩ := h.service rfl
    refine ⟨⟨bindings, hsome, hok⟩, ?_⟩
    rw [hsome]
    exact ih bindings h
  | other o k ih => exact ⟨trivial, fun r => ih r h⟩
  | fork child rest ihc ihr => exact ⟨ihc h, ihr h⟩
  | bindings m failed handler rest ihh ihr =>
    refine readBindings_reads h m (fun error => ihr _ h) fun bindings hok => ?_
    exact ⟨ihh (h.bound hok), fun x => ihr x h⟩
  | connection m k ih => exact readConnectionString_reads h m (ih _ h)

end Reading

/-- Inside the region the effect sees the pair that was bound, wherever the
region is entered from. -/
theorem withCloudflareBindings_reads (refs : (ref : BindingsRef) → ref.Val) (env : Env)
    (ctx : ExecutionContext) {effect : WorkerEff O X}
    (h : ∀ refs, Provides (some env) (some ctx) false refs →
      Reads (Shows (some env) (some ctx)) (ShowsOnly (some env) (some ctx)) refs effect) :
    Reads (Shows (some env) (some ctx)) (ShowsOnly (some env) (some ctx)) refs
      (withCloudflareBindings env ctx effect) := by
  refine ⟨⟨h _ ⟨Function.update_self .., ?_, by simp⟩, fun _ => trivial⟩, fun _ => trivial⟩
  rw [Function.update_of_ne (by decide), Function.update_self]

end Effects

/-! ## The health check -/

structure HealthResponse where
  status : String
  timestamp : String
  environment : String
  deriving DecidableEq, Repr

/-- `new Date().toISOString()`. -/
inductive ClockOp
  | now

abbrev ClockSig : Sig := ⟨ClockOp, fun _ => String⟩

/-- The handler of `check`, which is given the bindings by its middleware. -/
def HealthGroupLive {E U : Type} (missing : U) :
    Body ClockSig (Exit E U HealthResponse) true :=
  .service (.failure (.die missing)) fun { env, .. } => .other .now fun timestamp =>
    .exit (.success
      { status := "ok"
        timestamp := timestamp
        environment := match env.ENVIRONMENT with
          | none | some "" => "development"
          | some environment => environment })

end EffectWorker.Worker
