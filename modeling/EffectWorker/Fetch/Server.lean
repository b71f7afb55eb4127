import EffectWorker.Effect.ForEach
import EffectWorker.Fetch.Calls

/-! One request inside the scope that `Effect.scoped` opens for it. An HTTP
request is one call and its scope closes when the call is over. The scope of an
RPC request holds the server and every call of the body; the response is there
with the first call that ends, and `Effect.scoped` closes the scope right away.
The finalizers run last in, first out: the server was there first, so
connections are released before the calls are interrupted. -/

namespace EffectWorker.Fetch

open Effect Worker

inductive Request (S : Sig) (E U A : Type)
  | http (env : Option Env) (handler : Eff S E U A)
  | rpc (env : Option Env) (calls : List (Eff S E U A))

/-- `disconnect` is the app telling the server that its client is gone. -/
inductive Finalizer
  | release (conn : Connection)
  | disconnect
  | interruptCalls
  deriving DecidableEq, Repr

inductive ScopeState
  | unopened
  | opened (finalizers : List Finalizer)
  | closing (finalizers : List Finalizer)
  | closed
  deriving DecidableEq, Repr

def ScopeState.finalizers : ScopeState → List Finalizer
  | .opened fs | .closing fs => fs
  | .unopened | .closed => []

namespace Request

variable {S : Sig} {E U A : Type}

def env : Request S E U A → Option Env
  | .http env _ | .rpc env _ => env

def handlers : Request S E U A → List (Eff S E U A)
  | .http _ handler => [handler]
  | .rpc _ calls => calls

/-- The calls of the request. -/
abbrev Index (r : Request S E U A) := Fin r.handlers.length

def program (r : Request S E U A) (middleware : MiddlewareEffect S U) (c : r.Index) :
    Eff (CallSig S U) (CallError E) U A :=
  callProgram middleware r.env (r.handlers.get c)

/-- `RpcServer.toHttpApp` adds the finalizer of its server and the app that of
its client, before any call runs. -/
def initialFinalizers : Request S E U A → List Finalizer
  | .http _ _ => []
  | .rpc _ _ => [.disconnect, .interruptCalls]

/-- Calls can be active: the HTTP call as long as its scope is open, those of an
RPC body until the server has interrupted its calls. -/
def Serving (r : Request S E U A) (scope : ScopeState) : Prop :=
  match r with
  | .http _ _ => ∃ fs, scope = .opened fs
  | .rpc _ _ => .interruptCalls ∈ scope.finalizers

end Request

section Requests

variable {S : Sig} {E U A : Type}

abbrev CallEvent (S : Sig) (E U A : Type) := Event (CallSig S U) (CallError E) U A

/-- `releasing` is the call of `pool.end()`: the pool refuses new statements
from then on, keeps the client of a statement in progress, and the finalizer
waits for it in the time until the next event. -/
inductive RequestEvent (r : Request S E U A)
  | opened
  | call (c : r.Index) (e : CallEvent S E U A)
  | responded
  | exited
  | releasing (conn : Connection)
  | disconnected
  | interruptedCalls
  | closed

/-- `late` are the connections made while the scope was closing, which the calls
that made them have to release at once; `failed` is whether a finalizer has
failed, so that the promise of `fetch` will reject. -/
structure RequestState (r : Request S E U A) where
  scope : ScopeState
  fibers : r.Index → Fiber (CallSig S U) (CallError E) U A
  late : List (r.Index × Connection)
  failed : Bool

def RequestState.initial (r : Request S E U A) : RequestState r :=
  ⟨.unopened, fun _ => .waiting, [], false⟩

/-- The connection an event acquires. -/
def acquired : CallEvent S E U A → Option Connection
  | .answers (.pgClientMake _) (.success conn) => some conn
  | _ => none

/-- A connection that has been acquired is released with the scope. -/
def scopeAfter (e : CallEvent S E U A) : ScopeState → ScopeState
  | .opened fs => .opened ((acquired e).toList.map .release ++ fs)
  | scope => scope

/-- A finalizer added to a scope that is closing runs at once. -/
def lateAfter {I : Type} (c : I) (e : CallEvent S E U A) (late : List (I × Connection)) :
    ScopeState → List (I × Connection)
  | .closing _ => (acquired e).toList.map (Prod.mk c) ++ late
  | _ => late

def RequestState.afterCall {r : Request S E U A} (s : RequestState r) (c : r.Index)
    (e : CallEvent S E U A) (f : Fiber (CallSig S U) (CallError E) U A) : RequestState r where
  scope := scopeAfter e s.scope
  fibers := Function.update s.fibers c f
  late := lateAfter c e s.late s.scope
  failed := s.failed

/-- Calls start while the scope is open, and acquiring a connection cannot be
interrupted, nor can its release by the call that made it. -/
def CallGuard (r : Request S E U A) (s : RequestState r) (c : r.Index) (e : CallEvent S E U A) :
    Prop :=
  (∀ conn, (c, conn) ∉ s.late) ∧
    match e with
    | .starts => ∃ fs, s.scope = .opened fs
    | .interrupted => ∀ url k, s.fibers c ≠ .busy (.pgClientMake url) k
    | _ => True

/-- The server has its response with the first call that ends, or without any
call, and it has started all calls of the body before it looks. -/
def Responds {r : Request S E U A} (s : RequestState r) : Prop :=
  (∀ c, s.fibers c ≠ .waiting) ∧ (r.handlers = [] ∨ ∃ c, (s.fibers c).hasEnded = true)

/-- Telling the server that the client is gone fails while the client, which has
sent all it has to send, still has calls. -/
def disconnectFails {r : Request S E U A} (s : RequestState r) : Bool :=
  !decide (∀ c, (s.fibers c).hasEnded = true)

inductive RequestStep (middleware : MiddlewareEffect S U) (r : Request S E U A) :
    RequestState r → RequestEvent r → RequestState r → Prop
  | opened (s : RequestState r) : s.scope = .unopened →
      RequestStep middleware r s .opened { s with scope := .opened r.initialFinalizers }
  | call (s : RequestState r) (c e f) :
      FiberStep (fun _ _ => True) (r.program middleware c) (s.fibers c) e f → CallGuard r s c e →
      RequestStep middleware r s (.call c e) (s.afterCall c e f)
  | responded (s : RequestState r) (fs env calls) : r = .rpc env calls → s.scope = .opened fs →
      Responds s → RequestStep middleware r s .responded { s with scope := .closing fs }
  | exited (s : RequestState r) (fs env handler) : r = .http env handler → s.scope = .opened fs →
      (∀ c, (s.fibers c).active = false) →
      RequestStep middleware r s .exited { s with scope := .closing fs }
  | releasing (s : RequestState r) (conn fs) : s.scope = .closing (.release conn :: fs) →
      RequestStep middleware r s (.releasing conn) { s with scope := .closing fs }
  | releasingLate (s : RequestState r) (c conn before after) :
      s.late = before ++ (c, conn) :: after →
      RequestStep middleware r s (.releasing conn) { s with late := before ++ after }
  | disconnected (s : RequestState r) (fs) : s.scope = .closing (.disconnect :: fs) →
      RequestStep middleware r s .disconnected
        { s with scope := .closing fs, failed := s.failed || disconnectFails s }
  | interruptedCalls (s : RequestState r) (fs) : s.scope = .closing (.interruptCalls :: fs) →
      (∀ c, (s.fibers c).active = false) →
      RequestStep middleware r s .interruptedCalls { s with scope := .closing fs }
  | closed (s : RequestState r) : s.scope = .closing [] →
      RequestStep middleware r s .closed { s with scope := .closed }

/-- A run of one request. -/
abbrev RequestRun (middleware : MiddlewareEffect S U) (r : Request S E U A) :
    List (RequestEvent r) → RequestState r → Prop :=
  Runs (RequestStep middleware r) (.initial r)

/-- The events of the calls, without the life of the scope. -/
def callTrace {r : Request S E U A} : List (RequestEvent r) → List (r.Index × CallEvent S E U A) :=
  List.filterMap fun e => match e with
    | .call c e => some (c, e)
    | _ => none

@[simp] theorem callTrace_append {r : Request S E U A} (log log' : List (RequestEvent r)) :
    callTrace (log ++ log') = callTrace log ++ callTrace log' := List.filterMap_append

theorem mem_callTrace {r : Request S E U A} {log : List (RequestEvent r)} {c : r.Index}
    {e : CallEvent S E U A} : (c, e) ∈ callTrace log ↔ .call c e ∈ log := by
  simp only [callTrace, List.mem_filterMap]
  constructor
  · rintro ⟨b, hb, he⟩
    cases b <;> simp only [reduceCtorEq, Option.some.injEq, Prod.mk.injEq] at he
    obtain ⟨rfl, rfl⟩ := he
    exact hb
  · intro hb
    exact ⟨_, hb, rfl⟩

/-- The events of one call. -/
def callHistory {r : Request S E U A} (c : r.Index) (log : List (RequestEvent r)) :
    List (CallEvent S E U A) := history c (callTrace log)

theorem mem_callHistory {r : Request S E U A} {log : List (RequestEvent r)} {c : r.Index}
    {e : CallEvent S E U A} : e ∈ callHistory c log ↔ .call c e ∈ log := by
  rw [callHistory, mem_history, mem_callTrace]

variable {middleware : MiddlewareEffect S U} {r : Request S E U A}
  {log before after : List (RequestEvent r)} {s s' : RequestState r} {e : RequestEvent r}

/-- A step leaves the fibers alone, or it is a step of one of them. -/
theorem requestStep_fibers (hs : RequestStep middleware r s e s') :
    (s'.fibers = s.fibers ∧ ∀ c e', e ≠ .call c e') ∨ ∃ c e' f, e = .call c e' ∧
      FiberStep (fun _ _ => True) (r.program middleware c) (s.fibers c) e' f ∧
      CallGuard r s c e' ∧ s' = s.afterCall c e' f := by
  cases hs with
  | call c e' f hstep hguard => exact .inr ⟨c, e', f, rfl, hstep, hguard, rfl⟩
  | opened | responded | exited | releasing | releasingLate | disconnected | interruptedCalls
  | closed =>
    exact .inl ⟨rfl, fun c e' he => by cases he⟩

/-- In every interleaving each call goes through a run of its own program. -/
theorem requestRun_fiber (h : RequestRun middleware r log s) (c : r.Index) :
    FiberRun (fun _ _ => True) (r.program middleware c) (callHistory c log) (s.fibers c) := by
  induction h with
  | nil => exact .nil
  | @snoc log s e s' _ hs ih =>
    rcases requestStep_fibers hs with ⟨hfibers, hcall⟩ | ⟨c', e', f, rfl, hstep, -, rfl⟩
    · have hlog : callHistory c (log ++ [e]) = callHistory c log := by
        cases e with
        | call c' e' => exact absurd rfl (hcall c' e')
        | _ => simp [callHistory, callTrace]
      rw [hlog, hfibers]
      exact ih
    · have hlog : callHistory c (log ++ [.call c' e']) =
          callHistory c log ++ if c' = c then [e'] else [] := by
        simp [callHistory, callTrace, history_cons]
      rw [hlog]
      by_cases hc : c' = c
      · subst hc
        simpa [RequestState.afterCall] using Runs.snoc ih hstep
      · simpa [RequestState.afterCall, hc, Function.update_of_ne (Ne.symm hc)] using ih

/-- The call `c` has ended, with an exit or by interruption. -/
def HasEnded (c : r.Index) (log : List (RequestEvent r)) : Prop :=
  ∃ e, .call c e ∈ log ∧ e.ending.isSome

theorem hasEnded_iff (h : RequestRun middleware r log s) (c : r.Index) :
    HasEnded c log ↔ (s.fibers c).hasEnded = true := by
  have hending := fiberRun_ending (requestRun_fiber h c)
  simp only [HasEnded, ← mem_callHistory]
  constructor
  · rintro ⟨e, hm, he⟩
    obtain ⟨x, hx⟩ := Option.isSome_iff_exists.mp he
    rw [(hending x).mp ⟨e, hm, hx⟩]
    rfl
  · intro hf
    cases hx : s.fibers c with
    | ended x =>
      obtain ⟨e, hm, he⟩ := (hending x).mpr hx
      exact ⟨e, hm, by rw [he]; rfl⟩
    | waiting | ready _ | busy _ _ => simp [hx, Fiber.hasEnded] at hf

/-! ## Two ways a call can go -/

theorem requestRun_call (h : RequestRun middleware r log s) {c : r.Index}
    {f f' : Fiber (CallSig S U) (CallError E) U A} {e : CallEvent S E U A} (hf : s.fibers c = f)
    (hs : FiberStep (fun _ _ => True) (r.program middleware c) f e f') (hg : CallGuard r s c e) :
    RequestRun middleware r (log ++ [.call c e]) (s.afterCall c e f') := by
  subst hf
  exact .snoc h (.call s c e f' hs hg)

theorem requestRun_answers (h : RequestRun middleware r log s) {c : r.Index} {o : CallOp S}
    {k : CallOp.Ans U o → Eff (CallSig S U) (CallError E) U A} (hf : s.fibers c = .busy o k)
    (hlate : ∀ conn, (c, conn) ∉ s.late) (a : CallOp.Ans U o) :
    RequestRun middleware r (log ++ [.call c (.answers o a)])
      (s.afterCall c (.answers o a) (.ready (k a))) :=
  requestRun_call h hf (.answers (S := CallSig S U) o k a trivial) ⟨hlate, trivial⟩

/-- A call from its start until it connects. -/
def connectingCall (c : r.Index) (url : String) : List (RequestEvent r) :=
  [.call c .starts, .call c (.begins (.pgClientMake url))]

variable {c : r.Index} {env : Env} {url : String} {fs : List Finalizer}
  {fibers : r.Index → Fiber (CallSig S U) (CallError E) U A} {failed : Bool}
  {k : Exit SqlError U Connection → Eff (CallSig S U) (CallError E) U A}

section Middleware

variable [Throwable SqlError U]

/-- A call that connects until its connection has been refused. -/
def refusedCall (string : DatabaseConnectionError ⊕ SqlError → String) (c : r.Index) (url : String)
    (cause : Cause SqlError U) : List (RequestEvent r) :=
  [.call c (.answers (.pgClientMake url) (.failure cause)),
    .call c (.ends (.failure (connectionCause string cause)))]

/-- A call that connects until its handler has the connection. -/
def connectedCall (c : r.Index) (url : String) (conn : Connection) : List (RequestEvent r) :=
  [.call c (.answers (.pgClientMake url) (.success conn)),
    .call c (.begins (.pgDrizzleMake conn)), .call c (.answers (.pgDrizzleMake conn) (.success ()))]

variable [Throwable DatabaseConnectionError U]
  {string : DatabaseConnectionError ⊕ SqlError → String}

theorem requestRun_connecting
    (h : RequestRun (databaseMiddleware string) r log ⟨.opened fs, fibers, [], failed⟩)
    (henv : r.env = some env) (hc : fibers c = .waiting) :
    ∃ k, Connects string (r.handlers.get c) k ∧
      RequestRun (databaseMiddleware string) r (log ++ connectingCall c env.connectionString)
        ⟨.opened fs, Function.update fibers c (.busy (.pgClientMake env.connectionString) k), [],
          failed⟩ := by
  obtain ⟨k, hprogram, hk⟩ := callProgram_some string env (r.handlers.get c)
  rw [← henv] at hprogram
  have h := requestRun_call h hc .starts ⟨by simp, fs, rfl⟩
  have h := requestRun_call h ((Function.update_self ..).trans (congrArg Fiber.ready hprogram))
    (.begins _ k) ⟨by simp [RequestState.afterCall, lateAfter, scopeAfter], trivial⟩
  refine ⟨k, hk, ?_⟩
  simpa [RequestState.afterCall, connectingCall, scopeAfter, lateAfter, acquired] using h

theorem requestRun_refused
    (h : RequestRun (databaseMiddleware string) r log ⟨.opened fs, fibers, [], failed⟩)
    (hc : fibers c = .busy (.pgClientMake url) k)
    (hk : Connects string (r.handlers.get c) k) (cause : Cause SqlError U) :
    RequestRun (databaseMiddleware string) r
      (log ++ refusedCall string c url cause)
      ⟨.opened fs,
        Function.update fibers c (.ended (.failure (connectionCause string cause))),
        [], failed⟩ := by
  have h := requestRun_answers h hc (by simp) (.failure cause)
  have h := requestRun_call h
    ((Function.update_self ..).trans (congrArg Fiber.ready (hk.refused cause))) (.ends _)
    ⟨by simp [RequestState.afterCall, lateAfter, scopeAfter], trivial⟩
  simpa [RequestState.afterCall, refusedCall, scopeAfter, lateAfter, acquired] using h

theorem requestRun_connected
    (h : RequestRun (databaseMiddleware string) r log ⟨.opened fs, fibers, [], failed⟩)
    (hc : fibers c = .busy (.pgClientMake url) k)
    (hk : Connects string (r.handlers.get c) k) (conn : Connection) :
    RequestRun (databaseMiddleware string) r (log ++ connectedCall c url conn)
      ⟨.opened (.release conn :: fs),
        Function.update fibers c (.ready (provideDatabase conn (r.handlers.get c))), [],
        failed⟩ := by
  obtain ⟨k', hdrizzle, hsuccess, -⟩ := hk.connected conn
  have h := requestRun_answers h hc (by simp) (.success conn)
  have h := requestRun_call h (f := .ready (.perform (.pgDrizzleMake conn) k'))
    ((Function.update_self ..).trans (congrArg Fiber.ready hdrizzle)) (.begins _ k')
    ⟨by simp [RequestState.afterCall, lateAfter, scopeAfter], trivial⟩
  have h := requestRun_answers h (o := .pgDrizzleMake conn) (k := k') (Function.update_self ..)
    (by simp [RequestState.afterCall, lateAfter, scopeAfter]) (.success ())
  rw [hsuccess] at h
  simpa [RequestState.afterCall, connectedCall, scopeAfter, lateAfter, acquired] using h

end Middleware

end Requests

end EffectWorker.Fetch
