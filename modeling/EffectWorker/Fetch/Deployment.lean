import Mathlib.Data.Nat.Pairing
import EffectWorker.Fetch.Runtimes
import EffectWorker.Users.Runs

/-! The worker with its table: both runtimes, all requests with their scopes,
their connections and their fibers, and the users handlers behind them. An
interrupted call may leave the statement it was waiting for with the database,
which finishes it when it likes. -/

namespace EffectWorker.Fetch

open Effect Worker Users

section Deployments

variable {U : Type}

/-- Only the statements of the handlers touch the table. -/
inductive TableStep (t : Table) : CallEvent (DbSig U) ApiError U Reply → Table → Prop
  | statement (conn o r t') : Answers t o r t' → TableStep t (.answers (.handler conn o) r) t'
  | other (e) : (∀ conn o r, e ≠ .answers (.handler conn o) r) → TableStep t e t

/-- The statement an interruption leaves with the database. -/
def orphaned (f : Fiber (CallSig (DbSig U) U) (CallError ApiError) U Reply) :
    CallEvent (DbSig U) ApiError U Reply → Option DbOp
  | .interrupted =>
    match f with
    | .busy (.handler _ o) _ => some o
    | _ => none
  | _ => none

/-- A request by what it asks of the users handlers. -/
inductive Incoming
  | http (env : Option Env) (call : Users.Request)
  | rpc (env : Option Env) (calls : List Users.Request)

def Incoming.calls : Incoming → List Users.Request
  | .http _ call => [call]
  | .rpc _ calls => calls

def Incoming.request [Throwable SqlError U] : Incoming → Request (DbSig U) ApiError U Reply
  | .http env call => .http env call.program
  | .rpc env calls => .rpc env (calls.map Users.Request.program)

/-- The runtime whose handlers serve a request. -/
def servedBy : Users.Request → Runtime
  | .httpList | .httpGet _ | .httpCreate _ => .runtime
  | .rpcListUsers | .rpcGetUser _ | .rpcCreateUser _ => .rpcRuntime

theorem request_handlers [Throwable SqlError U] (incoming : Incoming) :
    (incoming.request : Request (DbSig U) ApiError U Reply).handlers =
      incoming.calls.map Users.Request.program := by
  cases incoming <;> rfl

/-- `orphans` are the statements of interrupted calls that are still with the
database. -/
structure Deployment (U : Type) where
  world : World (DbSig U) ApiError U Reply
  table : Table
  orphans : Nat → Option DbOp

def Deployment.start (t : Table) : Deployment U := ⟨.empty, t, fun _ => none⟩

inductive DeploymentEvent (U : Type)
  | built (rt : Runtime)
  | fetched (k : Nat) (incoming : Incoming)
  | call (k c : Nat) (e : CallEvent (DbSig U) ApiError U Reply)
  /-- The scope of request `k`, or its response. -/
  | scoped (k : Nat)
  /-- The database finishes a statement that nobody waits for any more. -/
  | orphan (n : Nat) (o : DbOp) (r : Exit SqlError U (List Row))

/-- The call `c` of request `k` in the runs of the handlers. -/
def callId (k c : Nat) : Nat := Nat.pair k c

theorem callId_ne {k k' c c' : Nat} (h : k ≠ k' ∨ c ≠ c') : callId k c ≠ callId k' c' := by
  intro he
  obtain ⟨hk, hc⟩ := Nat.pair_eq_pair.mp he
  omega

/-- The world after an event of request `k`. -/
def World.advanced (w : World (DbSig U) ApiError U Reply) (k : Nat)
    (inv : Invocation (DbSig U) ApiError U Reply) (e : RequestEvent inv.request)
    (state : RequestState inv.request) : World (DbSig U) ApiError U Reply :=
  { w with
    requests := Function.update w.requests k (some (inv.advance e state))
    nextConnection := w.nextConnection + (acquisitions [e]).length }

theorem advanced_keeps {d : Deployment U} {k k' : Nat}
    {inv inv' : Invocation (DbSig U) ApiError U Reply} {re : RequestEvent inv'.request}
    {state : RequestState inv'.request}
    (hs : RequestStep inv'.middleware inv'.request inv'.state re state)
    (hk : d.world.requests k = some inv) (hk' : d.world.requests k' = some inv') :
    (d.world.advanced k' inv' re state).requests k = some inv ∨
      ∃ e s, RequestStep inv.middleware inv.request inv.state e s ∧
        (d.world.advanced k' inv' re state).requests k = some (inv.advance e s) := by
  by_cases hkk : k = k'
  · subst hkk
    rw [hk] at hk'
    cases hk'
    exact .inr ⟨re, state, hs, Function.update_self ..⟩
  · exact .inl ((Function.update_of_ne hkk ..).trans hk)

section Steps

variable [Throwable SqlError U] [Throwable DatabaseConnectionError U]

/-- The steps of the world, with what they do to the table. -/
inductive Deployment.Step (string : DatabaseConnectionError ⊕ SqlError → String) :
    Deployment U → DeploymentEvent U → Deployment U → Prop
  | build (d : Deployment U) (rt as middleware) : d.world.memo rt = none →
      Eff.Path (rt.layer string) as (.exit (.success middleware)) →
      Step string d (.built rt) { d with
        world := { d.world with
          memo := Function.update d.world.memo rt (some middleware)
          built := d.world.built ++ as } }
  | fetch (d : Deployment U) (k) (incoming : Incoming) (rt middleware) :
      d.world.requests k = none → rt = (incoming.request : Request (DbSig U) _ U Reply).runtime →
      d.world.memo rt = some middleware → (∀ q ∈ incoming.calls, servedBy q = rt) →
      Step string d (.fetched k incoming) { d with
        world := { d.world with
          requests := Function.update d.world.requests k
            (some (.start incoming.request middleware)) } }
  | call (d : Deployment U) (k inv) (c : inv.request.Index) (e state t') :
      d.world.requests k = some inv →
      RequestStep inv.middleware inv.request inv.state (.call c e) state →
      (∀ c' conn, (RequestEvent.call c e).acquires = some (c', conn) →
        conn = d.world.nextConnection) →
      TableStep d.table e t' →
      Step string d (.call k c e) ⟨d.world.advanced k inv (.call c e) state, t',
        Function.update d.orphans (callId k c) (orphaned (inv.state.fibers c) e)⟩
  | scope (d : Deployment U) (k inv e state) : d.world.requests k = some inv →
      RequestStep inv.middleware inv.request inv.state e state → (∀ c e', e ≠ .call c e') →
      (∀ c conn, e.acquires = some (c, conn) → conn = d.world.nextConnection) →
      Step string d (.scoped k) { d with world := d.world.advanced k inv e state }
  | orphan (d : Deployment U) (n o r t') : d.orphans n = some o → Answers d.table o r t' →
      Step string d (.orphan n o r)
        { d with table := t', orphans := Function.update d.orphans n none }

/-- A run of the worker that starts with the table `t₀`. -/
abbrev Deployment.Run (string : DatabaseConnectionError ⊕ SqlError → String) (t₀ : Table) :
    List (DeploymentEvent U) → Deployment U → Prop :=
  Runs (Deployment.Step string) (.start t₀)

variable {string : DatabaseConnectionError ⊕ SqlError → String} {d d' : Deployment U}
  {events : List (DeploymentEvent U)} {event : DeploymentEvent U}

/-- The table aside, the worker is the world of both runtimes. -/
theorem deploymentStep_world (hreach : World.Reachable string d.world)
    (hs : Deployment.Step string d event d') : World.Reachable string d'.world := by
  cases hs with
  | build rt as middleware hmemo hpath => exact hreach.step (.build _ rt as middleware hmemo hpath)
  | fetch k incoming rt middleware hk hrt hmemo _ =>
    subst hrt
    exact hreach.step (.fetch _ k incoming.request middleware hk hmemo)
  | call k inv c e state t' hk hstep hfresh _ =>
    exact hreach.step (.request _ k inv (.call c e) state hk hstep hfresh)
  | scope k inv e state hk hstep _ hfresh =>
    exact hreach.step (.request _ k inv e state hk hstep hfresh)
  | orphan => exact hreach

theorem deploymentRun_world (h : Deployment.Run string t₀ events d) :
    World.Reachable string d.world := by
  induction h with
  | nil => exact .empty
  | snoc _ hs ih => exact deploymentStep_world ih hs

/-! ## Requests -/

/-- A step leaves a request alone, or it is an event of that request. -/
theorem step_keeps {k : Nat} {inv : Invocation (DbSig U) ApiError U Reply}
    (hs : Deployment.Step string d event d') (hk : d.world.requests k = some inv) :
    d'.world.requests k = some inv ∨
      ∃ e s, RequestStep inv.middleware inv.request inv.state e s ∧
        d'.world.requests k = some (inv.advance e s) := by
  cases hs with
  | build | orphan => exact .inl hk
  | call k' inv' c e state t' hk' hstep => exact advanced_keeps hstep hk hk'
  | scope k' inv' re state hk' hstep => exact advanced_keeps hstep hk hk'
  | fetch k' incoming rt middleware hnone =>
    have hkk : k ≠ k' := by
      rintro rfl
      rw [hnone] at hk
      cases hk
    exact .inl ((Function.update_of_ne hkk ..).trans hk)

end Steps

end Deployments

end EffectWorker.Fetch
