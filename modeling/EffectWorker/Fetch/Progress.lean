import EffectWorker.Fetch.Effort
import EffectWorker.Fetch.Serving

/-! Requests do not wait for each other. As long as its scope is not closed,
there is something a request does next: the next operation of a call, the
database's answer to one, or the next finalizer. Since it does a bounded number
of things, only the database can keep it from its end, and of a closed request
nothing is left. -/

namespace EffectWorker.Fetch

open Effect Worker Users

section Progress

variable {U : Type} [Throwable SqlError U] [Throwable DatabaseConnectionError U]
  {string : DatabaseConnectionError ⊕ SqlError → String}

/-- Request `k` can go on by the event `e` of its own, with no other request
moving. Waiting does not count, nor does interrupting calls of an open scope. -/
structure Deployment.Next (string : DatabaseConnectionError ⊕ SqlError → String) (d : Deployment U)
    (k : Nat) (inv : Invocation (DbSig U) ApiError U Reply) (e : RequestEvent inv.request)
    (d' : Deployment U) : Prop where
  step : Deployment.Step string d (e.deployed k) d'
  alone : ∃ state,
    d'.world.requests = Function.update d.world.requests k (some (inv.advance e state))
  counts : e.isWork = false
  uninterrupted : inv.state.scope.isClosing = false → ∀ c, e ≠ .call c .interrupted

/-- Nothing is left of request `k`, and nothing more will happen in it. -/
structure Deployment.Finished (string : DatabaseConnectionError ⊕ SqlError → String)
    (d : Deployment U) (k : Nat) (inv : Invocation (DbSig U) ApiError U Reply) : Prop where
  idle : ∀ c, (inv.state.fibers c).active = false
  released : ∀ c conn, conn ∈ opens c inv.log → .releasing conn ∈ inv.log
  remains : ∀ events d', Runs (Deployment.Step string) d events d' →
    d'.world.requests k = some inv

variable {t₀ t' : Table} {d d' : Deployment U} {events : List (DeploymentEvent U)} {k : Nat}
  {inv : Invocation (DbSig U) ApiError U Reply} {c : inv.request.Index}

theorem next_scope {e : RequestEvent inv.request} {s' : RequestState inv.request}
    (hk : d.world.requests k = some inv)
    (hs : RequestStep inv.middleware inv.request inv.state e s') (hcall : ∀ c e', e ≠ .call c e') :
    ∃ d', d.Next string k inv e d' := by
  have hwork : e.isWork = false := by
    cases e with
    | call c e' => exact absurd rfl (hcall c e')
    | _ => rfl
  refine ⟨{ d with world := d.world.advanced k inv e s' }, ?_, ⟨s', rfl⟩, hwork,
    fun _ c => hcall c _⟩
  rw [deployed_of_scoped hcall]
  exact .scope d k inv e s' hk hs hcall (by simp [acquires_of_scoped hcall])

theorem next_call {e : CallEvent (DbSig U) ApiError U Reply}
    {f : Fiber (CallSig (DbSig U) U) (CallError ApiError) U Reply}
    (hk : d.world.requests k = some inv)
    (hs : FiberStep (fun _ _ => True) (inv.request.program inv.middleware c)
      (inv.state.fibers c) e f)
    (hguard : CallGuard inv.request inv.state c e)
    (hfresh : ∀ conn, acquired e = some conn → conn = d.world.nextConnection)
    (htable : TableStep d.table e t') (hwork : e.isWork = false)
    (hnot : inv.state.scope.isClosing = false → e ≠ .interrupted) :
    ∃ d', d.Next string k inv (.call c e) d' := by
  refine ⟨_, .call d k inv c e _ t' hk (.call inv.state c e f hs hguard) (acquires_call hfresh)
    htable, ⟨_, rfl⟩, hwork, fun hopen c' he => ?_⟩
  exact hnot hopen (RequestEvent.call.inj he).2

/-! ## Calls -/

/-- Whatever an operation is, the database can answer it. -/
theorem busy_next {o : CallOp (DbSig U)}
    {q : CallOp.Ans U o → Eff (CallSig (DbSig U) U) (CallError ApiError) U Reply}
    (hk : d.world.requests k = some inv) (hlate : inv.state.late = [])
    (hf : inv.state.fibers c = .busy o q) : ∃ e d', d.Next string k inv e d' := by
  have answer : ∀ (a : CallOp.Ans U o) (t' : Table),
      (∀ conn, acquired (.answers o a : CallEvent (DbSig U) ApiError U Reply) = some conn →
        conn = d.world.nextConnection) →
      TableStep d.table (.answers o a : CallEvent (DbSig U) ApiError U Reply) t' →
      ∃ e d', d.Next string k inv e d' := by
    intro a t' hfresh htable
    have hstep : FiberStep (fun _ _ => True) (inv.request.program inv.middleware c)
        (inv.state.fibers c) (.answers o a) (.ready (q a)) :=
      hf ▸ .answers (S := CallSig (DbSig U) U) o q a trivial
    exact ⟨_, next_call hk hstep ⟨by simp [hlate], trivial⟩ hfresh htable rfl (by simp)⟩
  cases o with
  | pgClientMake url =>
    exact answer (Exit.success d.world.nextConnection) d.table
      (fun conn hconn => (Option.some.inj hconn).symm) (.other _ (by simp))
  | pgDrizzleMake conn =>
    exact answer (Exit.success ()) d.table (by simp [acquired]) (.other _ (by simp))
  | handler conn o =>
    exact answer (.failure (.fail ⟨"Failed to execute statement"⟩)) d.table (by simp [acquired])
      (.statement conn o _ _ (.failed d.table o _))

theorem active_next (hk : d.world.requests k = some inv) (hlate : inv.state.late = [])
    (hc : (inv.state.fibers c).active = true) : ∃ e d', d.Next string k inv e d' := by
  cases hf : inv.state.fibers c with
  | waiting | ended x =>
    rw [hf] at hc
    cases hc
  | busy o q => exact busy_next hk hlate hf
  | ready p =>
    cases p with
    | exit x =>
      exact ⟨_, next_call hk (by rw [hf]; exact .ends x) ⟨by simp [hlate], trivial⟩
        (by simp [acquired]) (.other _ (by simp)) rfl (by simp)⟩
    | perform o q =>
      exact ⟨_, next_call hk (by rw [hf]; exact .begins o q) ⟨by simp [hlate], trivial⟩
        (by simp [acquired]) (.other _ (by simp)) rfl (by simp)⟩

/-- A call that the server interrupts ends, or gets the connection it waits for. -/
theorem interrupted_next (hk : d.world.requests k = some inv) (hlate : inv.state.late = [])
    (hclosing : inv.state.scope.isClosing = true) (hc : (inv.state.fibers c).active = true) :
    ∃ e d', d.Next string k inv e d' := by
  by_cases hconnecting : ∃ url q, inv.state.fibers c = .busy (.pgClientMake url) q
  · obtain ⟨url, q, hf⟩ := hconnecting
    exact busy_next hk hlate hf
  · refine ⟨_, next_call hk (.interrupted _ hc) ⟨by simp [hlate], fun url q hf => ?_⟩
      (by simp [acquired]) (.other _ (by simp)) rfl fun hopen => ?_⟩
    · exact hconnecting ⟨url, q, hf⟩
    · rw [hclosing] at hopen
      cases hopen

/-! ## Scopes -/

theorem opened_next {fs : List Finalizer} (hk : d.world.requests k = some inv)
    (hlate : inv.state.late = []) (hscope : inv.state.scope = .opened fs) :
    ∃ e d', d.Next string k inv e d' := by
  by_cases hactive : ∃ c, (inv.state.fibers c).active = true
  · obtain ⟨c, hc⟩ := hactive
    exact active_next hk hlate hc
  by_cases hwaiting : ∃ c, inv.state.fibers c = .waiting
  · obtain ⟨c, hc⟩ := hwaiting
    have hstep : FiberStep (fun _ _ => True) (inv.request.program inv.middleware c)
        (inv.state.fibers c) .starts (.ready (inv.request.program inv.middleware c)) := hc ▸ .starts
    exact ⟨_, next_call hk hstep ⟨by simp [hlate], fs, hscope⟩ (by simp [acquired])
      (.other _ (by simp)) rfl (by simp)⟩
  -- every call has ended
  have hidle : ∀ c, (inv.state.fibers c).active = false := fun c => by
    simpa using fun hc => hactive ⟨c, hc⟩
  have hkind : (∃ env handler, inv.request = .http env handler) ∨
      ∃ env calls, inv.request = .rpc env calls := by
    cases inv.request with
    | http env handler => exact .inl ⟨env, handler, rfl⟩
    | rpc env calls => exact .inr ⟨env, calls, rfl⟩
  rcases hkind with ⟨env, handler, hr⟩ | ⟨env, calls, hr⟩
  · exact ⟨_, next_scope hk (.exited inv.state fs env handler hr hscope hidle) (by simp)⟩
  · have hended : ∀ c, (inv.state.fibers c).hasEnded = true := by
      intro c
      cases hf : inv.state.fibers c with
      | waiting => exact absurd ⟨c, hf⟩ hwaiting
      | ended x => rfl
      | ready p | busy o q =>
        have hc := hidle c
        rw [hf] at hc
        cases hc
    have hresponds : inv.request.handlers = [] ∨ ∃ c, (inv.state.fibers c).hasEnded = true := by
      rcases List.eq_nil_or_concat inv.request.handlers with hnil | ⟨calls', call, hcalls⟩
      · exact .inl hnil
      · exact .inr ⟨⟨0, by simp [hcalls]⟩, hended _⟩
    exact ⟨_, next_scope hk (.responded inv.state fs env calls hr hscope
      ⟨fun c hc => hwaiting ⟨c, hc⟩, hresponds⟩) (by simp)⟩

theorem closing_next {fs : List Finalizer} (hk : d.world.requests k = some inv)
    (hscope : inv.state.scope = .closing fs) : ∃ e d', d.Next string k inv e d' := by
  cases hlate : inv.state.late with
  | cons a late =>
    exact ⟨_, next_scope hk (.releasingLate inv.state a.1 a.2 [] late hlate) (by simp)⟩
  | nil =>
    cases fs with
    | nil => exact ⟨_, next_scope hk (.closed inv.state hscope) (by simp)⟩
    | cons f fs =>
      cases f with
      | release conn =>
        exact ⟨_, next_scope hk (.releasing inv.state conn fs hscope) (by simp)⟩
      | disconnect => exact ⟨_, next_scope hk (.disconnected inv.state fs hscope) (by simp)⟩
      | interruptCalls =>
        by_cases hactive : ∃ c, (inv.state.fibers c).active = true
        · obtain ⟨c, hc⟩ := hactive
          exact interrupted_next hk hlate (by rw [hscope]; rfl) hc
        · have hidle : ∀ c, (inv.state.fibers c).active = false := fun c => by
            simpa using fun hc => hactive ⟨c, hc⟩
          exact ⟨_, next_scope hk (.interruptedCalls inv.state fs hscope hidle) (by simp)⟩

/-! ## Requests -/

theorem request_next (hk : d.world.requests k = some inv)
    (hrun : RequestRun (databaseMiddleware string) inv.request inv.log inv.state)
    (hopen : inv.state.scope ≠ .closed) : ∃ e d', d.Next string k inv e d' := by
  cases hscope : inv.state.scope with
  | unopened => exact ⟨_, next_scope hk (.opened inv.state hscope) (by simp)⟩
  | closing fs => exact closing_next hk hscope
  | closed => exact absurd hscope hopen
  | opened fs =>
    have hlate : inv.state.late = [] := by
      refine List.eq_nil_iff_forall_not_mem.mpr fun a ha => ?_
      have hclosing := (requestRun_late hrun ha).2
      rw [hscope] at hclosing
      cases hclosing
    exact opened_next hk hlate hscope

/-- A request whose scope is closed takes no step any more. -/
theorem run_closed (h : Deployment.Run string t₀ events d) (hk : d.world.requests k = some inv)
    (hclosed : inv.state.scope = .closed) {later : List (DeploymentEvent U)}
    (hlater : Runs (Deployment.Step string) d later d') : d'.world.requests k = some inv := by
  have hrun := ((reachable_sound (deploymentRun_world h)).run k inv hk).2
  refine hlater.invariant (I := fun d => d.world.requests k = some inv) hk ?_
  intro d₁ e d₂ hk₁ hs
  rcases step_keeps hs hk₁ with hsame | ⟨e, s, hstep, -⟩
  · exact hsame
  · rw [((reachable_sound (deploymentRun_world h)).run k inv hk).1] at hstep
    exact absurd hclosed (requestStep_not_closed hrun hstep)

theorem request_finished (h : Deployment.Run string t₀ events d)
    (hk : d.world.requests k = some inv) (hclosed : inv.state.scope = .closed) :
    d.Finished string k inv := by
  have hrun := ((reachable_sound (deploymentRun_world h)).run k inv hk).2
  constructor
  case idle =>
    intro c
    by_contra hactive
    have hserving := requestRun_serving hrun c (by simpa using hactive)
    exact not_serving_closed (hclosed ▸ hserving)
  case released => exact fun c conn hc => requestRun_released_all hrun hclosed hc
  case remains => exact fun later d' hlater => run_closed h hk hclosed hlater

/-- What a request still has to do gets less with each of its events. -/
theorem request_goesOn (h : Deployment.Run string t₀ events d)
    (hk : d.world.requests k = some inv) (hopen : inv.state.scope ≠ .closed) :
    ∃ e d', d.Next string k inv e d' ∧
      requestEffort (inv.log ++ [e]) = requestEffort inv.log + 1 ∧
      requestEffort inv.log < 9 * inv.request.handlers.length + 5 := by
  have hrun := ((reachable_sound (deploymentRun_world h)).run k inv hk).2
  obtain ⟨e, d', hnext⟩ := request_next hk hrun hopen
  obtain ⟨state, hstate⟩ := hnext.alone
  have hbound : requestEffort (inv.log ++ [e]) ≤ 9 * inv.request.handlers.length + 5 :=
    deployment_bounded (h.snoc hnext.step) k (inv.advance e state)
      (by rw [hstate]; exact Function.update_self ..)
  have heffort : requestEffort (inv.log ++ [e]) = requestEffort inv.log + 1 := by
    simp [requestEffort, hnext.counts]
  exact ⟨e, d', hnext, heffort, by omega⟩

/-- Going on by events of its own, a request comes to its end. -/
theorem request_completes (h : Deployment.Run string t₀ events d)
    (hk : d.world.requests k = some inv) : ∃ later d' inv',
    Deployment.Run string t₀ (events ++ later) d' ∧ d'.world.requests k = some inv' ∧
      inv'.state.scope = .closed := by
  -- on the events it can still go through
  generalize hleft : 9 * inv.request.handlers.length + 5 - requestEffort inv.log = left
  induction left generalizing events d inv with
  | zero =>
    refine ⟨[], d, inv, by rwa [List.append_nil], hk, ?_⟩
    by_contra hopen
    obtain ⟨e, d', -, -, hbound⟩ := request_goesOn h hk hopen
    omega
  | succ left ih =>
    by_cases hclosed : inv.state.scope = .closed
    · exact ⟨[], d, inv, by rwa [List.append_nil], hk, hclosed⟩
    obtain ⟨e, d₁, hnext, heffort, -⟩ := request_goesOn h hk hclosed
    obtain ⟨state, hstate⟩ := hnext.alone
    have hk₁ : d₁.world.requests k = some (inv.advance e state) := by
      rw [hstate, Function.update_self]
    obtain ⟨later, d', inv', hrun, hk', hclosed'⟩ := ih (h.snoc hnext.step) hk₁
      (by simp only [Invocation.advance, heffort]; omega)
    exact ⟨e.deployed k :: later, d', inv', by rwa [List.append_cons], hk', hclosed'⟩

/-- Whatever the worker has done and is in the middle of, each of its requests
is finished or goes on by an event of its own, of which a bounded number can
come. -/
theorem deployment_progresses (h : Deployment.Run string t₀ events d)
    (hk : d.world.requests k = some inv) :
    (inv.state.scope = .closed → d.Finished string k inv) ∧
      (inv.state.scope ≠ .closed → (∃ e d', d.Next string k inv e d') ∧
        requestEffort inv.log < 9 * inv.request.handlers.length + 5) := by
  refine ⟨request_finished h hk, fun hopen => ?_⟩
  obtain ⟨e, d', hnext, -, hbound⟩ := request_goesOn h hk hopen
  exact ⟨⟨e, d', hnext⟩, hbound⟩

end Progress

/-- A request for all users goes on from when it comes in, and it is finished in
some run. -/
theorem deployment_progresses_listFetched : ∃ (events : List (DeploymentEvent String))
    (d₁ d₂ d₃ : Deployment String) (inv₁ inv₃ : Invocation (DbSig String) ApiError String Reply)
    (e : RequestEvent inv₁.request),
    Deployment.Run errorString annTable
      [.built .runtime, .fetched 0 (.http (some localEnv) .httpList)] d₁ ∧
    d₁.Next errorString 0 inv₁ e d₂ ∧
    requestEffort inv₁.log < 9 * inv₁.request.handlers.length + 5 ∧
    Deployment.Run errorString annTable
      ([.built .runtime, .fetched 0 (.http (some localEnv) .httpList)] ++ events) d₃ ∧
    d₃.world.requests 0 = some inv₃ ∧ d₃.Finished errorString 0 inv₃ := by
  obtain ⟨d₁, hrun, hk⟩ := listFetched_run (U := String) errorString annTable
  obtain ⟨⟨e, d₂, hnext⟩, hbound⟩ := (deployment_progresses hrun hk).2 fun h => by cases h
  obtain ⟨events, d₃, inv₃, hrun₃, hk₃, hclosed⟩ := request_completes hrun hk
  exact ⟨events, d₁, d₂, d₃, _, inv₃, e, hrun, hnext, hbound, hrun₃, hk₃,
    (deployment_progresses hrun₃ hk₃).1 hclosed⟩

end EffectWorker.Fetch
