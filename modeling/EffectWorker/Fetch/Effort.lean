import Mathlib.Tactic.Ring
import EffectWorker.Fetch.Refinement
import EffectWorker.Users.Directory

/-! How much a request does. Waiting for the database aside, a call of the users
handlers goes through eight events at most, and the scope through one for each
connection and five more. No request goes on for ever. -/

namespace EffectWorker.Fetch

open Effect Worker Users

section Effort

variable {S : Sig} {E U A : Type} {middleware : MiddlewareEffect S U} {r : Request S E U A}
  {log : List (RequestEvent r)} {s s' : RequestState r} {e : RequestEvent r} {d : Nat}

def RequestEvent.isWork : RequestEvent r → Bool
  | .call _ e => e.isWork
  | _ => false

/-- The events of a request other than work in progress. -/
def requestEffort (log : List (RequestEvent r)) : Nat := (log.filter fun e => !e.isWork).length

def RequestEvent.isScoped : RequestEvent r → Bool
  | .call _ _ => false
  | _ => true

/-- The events of the scope, and the response. -/
def scopeEffort (log : List (RequestEvent r)) : Nat := (log.filter RequestEvent.isScoped).length

theorem requestEffort_cons (e : RequestEvent r) (log : List (RequestEvent r)) :
    requestEffort (e :: log) = (if e.isWork then 0 else 1) + requestEffort log := by
  cases he : e.isWork <;> simp [requestEffort, he, Nat.add_comm]

theorem scopeEffort_cons (e : RequestEvent r) (log : List (RequestEvent r)) :
    scopeEffort (e :: log) = (if e.isScoped then 1 else 0) + scopeEffort log := by
  cases he : e.isScoped <;> simp [scopeEffort, he, Nat.add_comm]

theorem scopeEffort_singleton (e : RequestEvent r) :
    scopeEffort [e] = if e.isScoped then 1 else 0 := scopeEffort_cons e []

theorem requestEffort_eq (log : List (RequestEvent r)) :
    requestEffort log =
      ((callTrace log).filter fun e => !e.2.isWork).length + scopeEffort log := by
  induction log with
  | nil => rfl
  | cons e log ih =>
    rw [requestEffort_cons, scopeEffort_cons, ih]
    cases e with
    | call c e =>
      change _ = (((c, e) :: callTrace log).filter fun e => !e.2.isWork).length + _
      cases hwork : e.isWork <;>
        simp [RequestEvent.isWork, RequestEvent.isScoped, hwork, Nat.add_comm, Nat.add_left_comm]
    | _ => exact Nat.add_left_comm ..

/-! ## Calls -/

theorem provideDatabase_within (conn : Connection) {p : Eff S E U A} (h : p.Within d) :
    (provideDatabase conn p).Within d := by
  induction h with
  | exit d x => exact .exit d _
  | perform _ ih => exact .perform ih

/-- The middleware adds two operations to those of the handler. -/
theorem callProgram_within [Throwable SqlError U] [Throwable DatabaseConnectionError U]
    (string : DatabaseConnectionError ⊕ SqlError → String) (env : Option Env)
    {handler : Eff S E U A} (h : handler.Within d) :
    (callProgram (databaseMiddleware string) env handler).Within (d + 2) := by
  cases env with
  | none => exact .exit _ _
  | some env =>
    obtain ⟨k, hprogram, hk⟩ := callProgram_some string env handler
    rw [hprogram]
    refine .perform fun a => ?_
    cases a with
    | failure cause =>
      rw [hk.refused]
      exact .exit _ _
    | success conn =>
      obtain ⟨k', hdrizzle, hconnected, hfailed⟩ := hk.connected conn
      rw [hdrizzle]
      refine .perform fun a => ?_
      cases a with
      | failure cause =>
        obtain ⟨cause', hcause⟩ := hfailed cause
        rw [hcause]
        exact .exit _ _
      | success a =>
        exact hconnected ▸ provideDatabase_within conn h

/-! ## The scope -/

/-- What a scope has still to go through. -/
def ScopeState.left : ScopeState → Nat
  | .unopened => 5
  | .opened fs => fs.length + 2
  | .closing fs => fs.length + 1
  | .closed => 0

/-- The connections made too late have to be released besides. -/
def RequestState.left (s : RequestState r) : Nat := s.scope.left + s.late.length

theorem left_afterCall (c : r.Index) (e : CallEvent S E U A)
    (f : Fiber (CallSig S U) (CallError E) U A) :
    (s.afterCall c e f).left ≤ s.left + (acquired e).toList.length := by
  rw [RequestState.left, RequestState.left, RequestState.afterCall]
  cases s.scope <;> simp [scopeAfter, lateAfter, ScopeState.left] <;> omega

theorem requestStep_left (hs : RequestStep middleware r s e s') :
    s'.left + scopeEffort [e] ≤ s.left + (acquisitions [e]).length := by
  rw [scopeEffort_singleton, acquisitions_singleton]
  cases hs with
  | opened hscope =>
    rw [RequestState.left, RequestState.left, hscope]
    cases r <;> simp [Request.initialFinalizers, ScopeState.left, RequestEvent.isScoped] <;> omega
  | call c e f _ _ =>
    have hacquires : ((RequestEvent.call c e).acquires).toList.length =
        (acquired e).toList.length := by
      cases h : acquired e <;> simp [RequestEvent.acquires, h]
    rw [hacquires]
    exact left_afterCall c e f
  | releasingLate c conn before after hlate =>
    simp [RequestState.left, hlate, RequestEvent.isScoped, Nat.add_assoc]
  | responded fs _ _ _ hscope | exited fs _ _ _ hscope | releasing _ _ hscope
  | disconnected _ hscope | interruptedCalls _ hscope | closed hscope =>
    simp [RequestState.left, hscope, ScopeState.left, RequestEvent.isScoped]
    omega

theorem requestRun_left (h : RequestRun middleware r log s) :
    s.left + scopeEffort log ≤ 5 + (acquisitions log).length := by
  induction h with
  | nil =>
    simp [RequestState.initial, RequestState.left, ScopeState.left, scopeEffort, acquisitions]
  | @snoc log s e s' _ hs ih =>
    have hstep := requestStep_left hs
    have happend : scopeEffort (log ++ [e]) = scopeEffort log + scopeEffort [e] := by
      simp [scopeEffort]
    rw [happend, acquisitions_append, List.length_append]
    omega

theorem acquisitions_eq (log : List (RequestEvent r)) :
    (acquisitions log).length =
      ((callTrace log).filter fun e => (acquired e.2).isSome).length := by
  induction log with
  | nil => rfl
  | cons e log ih =>
    rw [show e :: log = [e] ++ log from rfl, acquisitions_append, callTrace_append,
      List.filter_append, List.length_append, List.length_append, ih, acquisitions_singleton]
    congr 1
    cases e with
    | call c e =>
      cases hacquired : acquired e <;> simp [RequestEvent.acquires, callTrace, hacquired]
    | _ => rfl

/-- Each call acquires one connection at most. -/
theorem acquisitions_length [Throwable SqlError U] [Throwable DatabaseConnectionError U]
    (string : DatabaseConnectionError ⊕ SqlError → String)
    (h : RequestRun (databaseMiddleware string) r log s) :
    (acquisitions log).length ≤ r.handlers.length := by
  have hone : ∀ c, ((callHistory c log).filter fun e => (acquired e).isSome).length ≤ 1 := by
    intro c
    rw [← List.countP_eq_length_filter, ← List.length_filterMap_eq_countP]
    exact requestRun_single h c
  rw [acquisitions_eq]
  simpa using length_filter_le (fun e => (acquired e).isSome) (callTrace log) hone

/-! ## Requests -/

theorem requestRun_effort [Throwable SqlError U] [Throwable DatabaseConnectionError U]
    {string : DatabaseConnectionError ⊕ SqlError → String}
    (h : RequestRun (databaseMiddleware string) r log s)
    (hd : ∀ handler ∈ r.handlers, handler.Within d) :
    requestEffort log ≤ r.handlers.length * (2 * d + 7) + 5 := by
  have hcalls : ((callTrace log).filter fun e => !e.2.isWork).length ≤
      r.handlers.length * (2 * (d + 2) + 2) :=
    length_filter_le (fun e => !e.isWork) _ fun c =>
      fiberRun_effort (callProgram_within string _ (hd _ (List.get_mem _ c)))
        (requestRun_fiber h c)
  have hscope := requestRun_left h
  have hacquired := acquisitions_length string h
  rw [requestEffort_eq]
  calc ((callTrace log).filter fun e => !e.2.isWork).length + scopeEffort log
      ≤ r.handlers.length * (2 * (d + 2) + 2) + (5 + r.handlers.length) := by omega
    _ = r.handlers.length * (2 * d + 7) + 5 := by ring

end Effort

section Deployments

variable {U : Type} [Throwable SqlError U] [Throwable DatabaseConnectionError U]
  {string : DatabaseConnectionError ⊕ SqlError → String} {t₀ : Table} {d : Deployment U}
  {events : List (DeploymentEvent U)}

/-- Every request of the worker goes through a bounded number of events: nine
for each of its calls and five more, waiting aside, in any run and whatever the
database answers. -/
theorem deployment_bounded (h : Deployment.Run string t₀ events d) :
    ∀ k inv, d.world.requests k = some inv →
      requestEffort inv.log ≤ 9 * inv.request.handlers.length + 5 := by
  intro k inv hk
  obtain ⟨log, w, -, hsim⟩ := deployment_simulates h
  obtain ⟨incoming, -, hhandlers, -⟩ := hsim.calls k inv hk
  obtain ⟨-, hrun⟩ := (reachable_sound (deploymentRun_world h)).run k inv hk
  have hwithin : ∀ handler ∈ inv.request.handlers, handler.Within 1 := by
    intro handler hhandler
    rw [hhandlers] at hhandler
    obtain ⟨q, -, rfl⟩ := List.mem_map.mp hhandler
    exact program_within q
  have heffort := requestRun_effort hrun hwithin
  omega

end Deployments

theorem deployment_bounded_annServed : ∃ (events : List (DeploymentEvent String))
    (d : Deployment String), AnnServed events ∧ ∀ k inv, d.world.requests k = some inv →
      requestEffort inv.log ≤ 9 * inv.request.handlers.length + 5 := by
  obtain ⟨events, d, hrun, -, hserved⟩ := annServed_run (U := String) fun _ => "refused"
  exact ⟨events, d, hserved, deployment_bounded hrun⟩

end EffectWorker.Fetch
