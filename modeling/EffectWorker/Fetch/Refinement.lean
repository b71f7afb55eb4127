import EffectWorker.Fetch.Serving

/-! The worker refines its handlers: what the table goes through is a run of the
two sets of handlers, in which calls whose connection is refused make no
statement and interrupted calls stay where they were. -/

namespace EffectWorker.Fetch

open Effect Worker Users

/-! ## One call and its handler -/

section Calls

variable {S : Sig} {E U A : Type}

/-- The expected errors of a call whose connection is refused. -/
def Refusal (cause : Cause (CallError E) U) : Prop :=
  ∀ error, cause.failureOption = some error →
    ∃ message, error = .inl ⟨"Database connection failed: " ++ message⟩

/-- Before its handler has a connection a call acts on connections only. -/
inductive Opens (handler : Eff S E U A) : Eff (CallSig S U) (CallError E) U A → Prop
  | perform (o : CallOp S) (k) : (∀ conn o', o ≠ .handler conn o') →
      (∀ r, Opens handler (k r)) → Opens handler (.perform o k)
  | failed (cause) : Refusal cause → Opens handler (.exit (.failure cause))
  | connected (conn) : Opens handler (provideDatabase conn handler)

/-- The program an active fiber has left. -/
def rest : Fiber S E U A → Option (Eff S E U A)
  | .ready p => some p
  | .busy o k => some (.perform o k)
  | .waiting | .ended _ => none

variable [Throwable SqlError U]

/-- However the attempt to connect fails, the middleware turns it into its own error. -/
theorem opens_refused (string : DatabaseConnectionError ⊕ SqlError → String)
    (cause : Cause SqlError U) (handler : Eff S E U A)
    {p : Eff (CallSig S U) (CallError E) U A}
    (hp : p = .exit (.failure (connectionCause string cause))) : Opens handler p :=
  hp ▸ .failed _ fun _ => connectionCause_error

theorem callProgram_opens [Throwable DatabaseConnectionError U]
    (string : DatabaseConnectionError ⊕ SqlError → String) (env : Option Env)
    (handler : Eff S E U A) :
    Opens handler (callProgram (databaseMiddleware string) env handler) := by
  cases env with
  | none =>
    refine .failed _ fun error herror => ?_
    exact ⟨_, (Option.some.inj herror).symm⟩
  | some env =>
    refine .perform (.pgClientMake env.connectionString) _ (by simp) fun r => ?_
    cases r with
    | failure cause =>
      exact opens_refused string cause handler (callProgram_refused string cause _)
    | success conn =>
      refine .perform (.pgDrizzleMake conn) _ (by simp) fun r => ?_
      cases r with
      | failure cause =>
        exact opens_refused string (cause.map Empty.elim) handler (callProgram_refused string _ _)
      | success _ => exact .connected conn

end Calls

section Deployments

variable {U : Type}

theorem tableStep_other {t t' : Table} {e : CallEvent (DbSig U) ApiError U Reply}
    (h : TableStep t e t') (he : ∀ conn o r, e ≠ .answers (.handler conn o) r) : t' = t := by
  cases h with
  | statement conn o r t' _ => exact absurd rfl (he conn o r)
  | other => rfl

section Advanced

variable {d : Deployment U} {k k' : Nat} {inv inv' : Invocation (DbSig U) ApiError U Reply}
  {re : RequestEvent inv.request} {state : RequestState inv.request}

theorem advanced_requests (hk : (d.world.advanced k inv re state).requests k' = some inv') :
    (k' = k ∧ inv' = inv.advance re state) ∨ (k' ≠ k ∧ d.world.requests k' = some inv') := by
  by_cases hkk : k' = k
  · subst hkk
    simp only [World.advanced, Function.update_self, Option.some.injEq] at hk
    exact .inl ⟨rfl, hk.symm⟩
  · exact .inr ⟨hkk, by simpa [World.advanced, Function.update_of_ne hkk] using hk⟩

theorem advanced_none (hk : (d.world.advanced k inv re state).requests k' = none) :
    k' ≠ k ∧ d.world.requests k' = none := by
  by_cases hkk : k' = k
  · subst hkk
    simp [World.advanced] at hk
  · exact ⟨hkk, by simpa [World.advanced, Function.update_of_ne hkk] using hk⟩

/-- What an event makes of the requests has the calls that they had. -/
theorem advanced_owned {n : Nat} (hk : d.world.requests k = some inv)
    (hn : ∃ k' inv', ∃ c : inv'.request.Index, d.world.requests k' = some inv' ∧
      n = callId k' c) :
    ∃ k' inv', ∃ c : inv'.request.Index,
      (d.world.advanced k inv re state).requests k' = some inv' ∧ n = callId k' c := by
  obtain ⟨k', inv', c, hk', rfl⟩ := hn
  by_cases hkk : k' = k
  · subst hkk
    rw [hk, Option.some.injEq] at hk'
    subst hk'
    exact ⟨k', inv.advance re state, c, by simp [World.advanced], rfl⟩
  · exact ⟨k', inv', c, by simpa [World.advanced, Function.update_of_ne hkk] using hk', rfl⟩

end Advanced

variable [Throwable SqlError U]

/-- How far a call of the worker is in the run of its handler, and the
statement that it left with the database. -/
inductive CallRelated (q : Users.Request) :
    Fiber (CallSig (DbSig U) U) (CallError ApiError) U Reply →
      Call (DbSig U) Users.Request ApiError U Reply → Option DbOp → Prop
  | waiting : CallRelated q .waiting .unused none
  | opening (f p) : rest f = some p → Opens q.program p →
      CallRelated q f (.running q q.program) none
  | serving (f conn p) : rest f = some (provideDatabase conn p) →
      CallRelated q f (.running q p) none
  | returned (x) : CallRelated q (.ended (x.mapFail .inr)) (.done q x) none
  | refused (cause) : CallRelated q (.ended (.failure cause)) (.running q q.program) none
  | interrupted (p) : CallRelated q (.ended interruptedExit) (.running q p) none
  | orphaned (o : DbOp) (k) : CallRelated q (.ended interruptedExit)
      (.running q (Eff.perform (S := DbSig U) o k)) (some o)

/-- What an event of call `n` shows of the handlers. -/
inductive Shows (q : Users.Request) (n : Nat) (log : List (ApiEvent U)) :
    CallEvent (DbSig U) ApiError U Reply → List (ApiEvent U) → Prop
  | starts : Shows q n log .starts [.started n q]
  | answers (conn o r) : Shows q n log (.answers (.handler conn o) r) [.answered n o r]
  | ends (x) : Shows q n log (.ends (x.mapFail .inr)) [.returned n x]
  | refused (cause) : Refusal cause → Effect.callTrace n log = [] →
      Shows q n log (.ends (.failure cause)) []
  | other (e) : e ≠ .starts → (∀ x, e ≠ .ends x) →
      (∀ conn o r, e ≠ .answers (.handler conn o) r) → Shows q n log e []

/-- A program that has come back to its beginning has performed nothing. -/
theorem program_path_self {q : Users.Request} {as : List (Answered (DbSig U))}
    (h : Eff.Path (q.program : DbEff U ApiError Reply) as q.program) : as = [] := by
  rcases program_eq (U := U) q with ⟨-, e, hp⟩ | ⟨o, -, hp⟩
  · rw [hp] at h
    exact (Eff.path_exit h).1
  · rw [hp] at h
    rcases Eff.path_perform h with ⟨has, -⟩ | ⟨r, as', -, hrest⟩
    · exact has
    · cases (Eff.path_exit hrest).2

variable {t₀ t' : Table} {log : List (ApiEvent U)} {w : ApiState U} {q : Users.Request} {n : Nat}
  {body : Eff (CallSig (DbSig U) U) (CallError ApiError) U Reply}
  {f f' : Fiber (CallSig (DbSig U) U) (CallError ApiError) U Reply}
  {e : CallEvent (DbSig U) ApiError U Reply}

/-- What a step of a call amounts to: the handlers' run goes on by what it
shows, and the call stays related to it. -/
structure Simulated (t₀ t' : Table) (log : List (ApiEvent U)) (w : ApiState U)
    (q : Users.Request) (n : Nat) (f : Fiber (CallSig (DbSig U) U) (CallError ApiError) U Reply)
    (e : CallEvent (DbSig U) ApiError U Reply)
    (f' : Fiber (CallSig (DbSig U) U) (CallError ApiError) U Reply)
    (shown : List (ApiEvent U)) (w' : ApiState U) : Prop where
  run : ApiRun t₀ (log ++ shown) w'
  state : w'.state = t'
  related : CallRelated q f' (w'.calls n) (orphaned f e)
  others : ∀ m, m ≠ n → w'.calls m = w.calls m
  shows : Shows q n log e shown

theorem simulated_silent (hr : ApiRun t₀ log w) (htable : TableStep w.state e t')
    (hrelated : CallRelated q f' (w.calls n) (orphaned f e)) (hshows : Shows q n log e [])
    (he : ∀ conn o r, e ≠ .answers (.handler conn o) r) :
    ∃ shown w', Simulated t₀ t' log w q n f e f' shown w' :=
  ⟨[], w, by rwa [List.append_nil], (tableStep_other htable he).symm, hrelated, fun _ _ => rfl,
    hshows⟩

theorem simulated_step {e' : ApiEvent U} {w' : ApiState U} {c : Call _ _ _ _ _}
    (hr : ApiRun t₀ log w) (hs : (usersService U).Step w e' w') (hstate : w'.state = t')
    (hcalls : w'.calls = Function.update w.calls n c) (hrelated : CallRelated q f' c (orphaned f e))
    (hshows : Shows q n log e [e']) : ∃ shown w', Simulated t₀ t' log w q n f e f' shown w' := by
  refine ⟨[e'], w', hr.snoc hs, hstate, ?_, fun m hm => ?_, hshows⟩
  · rw [hcalls, Function.update_self]
    exact hrelated
  · rw [hcalls, Function.update_of_ne hm]

/-- A call with a connection does what its handler does. -/
theorem serving_simulated {conn : Connection} {p : DbEff U ApiError Reply}
    (hr : ApiRun t₀ log w) (hf : rest f = some (provideDatabase conn p))
    (hcall : w.calls n = .running q p) (hs : FiberStep (fun _ _ => True) body f e f')
    (htable : TableStep w.state e t') : ∃ shown w', Simulated t₀ t' log w q n f e f' shown w' := by
  cases hs with
  | starts => cases hf
  | begins o k | works o k =>
    refine simulated_silent hr htable ?_ (.other _ (by simp) (by simp) (by simp)) (by simp)
    rw [hcall]
    exact .serving _ conn p hf
  | interrupted f hactive =>
    refine simulated_silent hr htable ?_ (.other _ (by simp) (by simp) (by simp)) (by simp)
    rw [hcall]
    cases f with
    | waiting | ended _ => cases hf
    | ready _ => exact .interrupted p
    | busy o k =>
      cases p with
      | exit y => cases hf
      | perform o' k' =>
        cases hf
        exact .orphaned o' k'
  | ends x =>
    cases p with
    | perform o k => cases hf
    | exit y =>
      cases hf
      exact simulated_step hr (.returned w n q y hcall) (tableStep_other htable (by simp)).symm rfl
        (.returned y) (.ends y)
  | answers o k r _ =>
    cases p with
    | exit y => cases hf
    | perform o' k' =>
      cases hf
      have hanswers : Answers w.state o' r t' := by
        cases htable with
        | statement _ _ _ _ hans => exact hans
        | other _ hne => exact absurd rfl (hne conn o' r)
      exact simulated_step hr (.answered w n q o' k' r t' hcall hanswers) rfl rfl
        (.serving _ conn (k' r) rfl) (.answers conn o' r)

theorem opening_simulated {p : Eff (CallSig (DbSig U) U) (CallError ApiError) U Reply}
    (hr : ApiRun t₀ log w) (hf : rest f = some p) (hopens : Opens q.program p)
    (hcall : w.calls n = .running q q.program) (hs : FiberStep (fun _ _ => True) body f e f')
    (htable : TableStep w.state e t') : ∃ shown w', Simulated t₀ t' log w q n f e f' shown w' := by
  cases hopens with
  | connected conn => exact serving_simulated hr hf hcall hs htable
  | failed cause hrefusal =>
    cases hs with
    | starts | begins | works | answers => cases hf
    | interrupted f hactive =>
      refine simulated_silent hr htable ?_ (.other _ (by simp) (by simp) (by simp)) (by simp)
      rw [hcall]
      cases f with
      | waiting | ended _ | busy _ _ => cases hf
      | ready _ => exact .interrupted _
    | ends x =>
      cases hf
      have hnone : Effect.callTrace n log = [] := by
        have hsound := hr.sound n
        rw [hcall] at hsound
        exact program_path_self hsound.2.2
      refine simulated_silent hr htable ?_ (.refused cause hrefusal hnone) (by simp)
      rw [hcall]
      exact .refused cause
  | perform o k hsilent hopens =>
    cases hs with
    | starts | ends => cases hf
    | begins o' k' | works o' k' =>
      refine simulated_silent hr htable ?_ (.other _ (by simp) (by simp) (by simp)) (by simp)
      rw [hcall]
      cases hf
      exact .opening _ _ rfl (.perform o k hsilent hopens)
    | interrupted f hactive =>
      refine simulated_silent hr htable ?_ (.other _ (by simp) (by simp) (by simp)) (by simp)
      rw [hcall]
      cases f with
      | waiting | ended _ => cases hf
      | ready _ => exact .interrupted _
      | busy o' k' =>
        cases hf
        cases o with
        | handler conn o => exact absurd rfl (hsilent conn o)
        | pgClientMake _ | pgDrizzleMake _ => exact .interrupted _
    | answers o' k' r _ =>
      cases hf
      have hother : ∀ conn o' r', (Event.answers o r :
          CallEvent (DbSig U) ApiError U Reply) ≠ .answers (.handler conn o') r' := by
        intro conn o' r' he
        cases he
        exact hsilent conn o' rfl
      refine simulated_silent hr htable ?_ (.other _ (by simp) (by simp) hother) hother
      rw [hcall]
      exact .opening _ _ rfl (hopens r)

/-- Each step of a call is nothing or one step of its handler. -/
theorem call_simulated (hr : ApiRun t₀ log w) (hbody : Opens q.program body)
    {pending : Option DbOp} (hrelated : CallRelated q f (w.calls n) pending)
    (hs : FiberStep (fun _ _ => True) body f e f')
    (htable : TableStep w.state e t') : ∃ shown w', Simulated t₀ t' log w q n f e f' shown w' := by
  generalize hcall : w.calls n = c at hrelated
  cases hrelated with
  | opening _ p hf hopens => exact opening_simulated hr hf hopens hcall hs htable
  | serving _ conn p hf => exact serving_simulated hr hf hcall hs htable
  | waiting =>
    cases hs with
    | starts =>
      exact simulated_step hr (.started w n q hcall) (tableStep_other htable (by simp)).symm rfl
        (.opening _ body rfl hbody) .starts
    | interrupted _ hactive => cases hactive
  | returned | refused | interrupted | orphaned =>
    cases hs with
    | interrupted _ hactive => cases hactive

variable {d d' : Deployment U} {events : List (DeploymentEvent U)} {event : DeploymentEvent U}

/-! ## What it does to the table -/

/-- The run of the handlers in a run of the worker: event by event, in the same
order, what the calls of each request show of them. -/
inductive Projects : List (DeploymentEvent U) → List (ApiEvent U) → Prop
  | nil : Projects [] []
  | call (es : List (DeploymentEvent U)) (as : List (ApiEvent U)) (k c incoming) (a : Users.Request)
      (ev shown) : Projects es as → .fetched k incoming ∈ es → incoming.calls[c]? = some a →
      Shows a (callId k c) as ev shown → Projects (es ++ [.call k c ev]) (as ++ shown)
  | orphan (es : List (DeploymentEvent U)) (as : List (ApiEvent U)) (n o r) : Projects es as →
      Projects (es ++ [.orphan n o r]) (as ++ [.answered n o r])
  | other (es : List (DeploymentEvent U)) (as : List (ApiEvent U)) (ev) : Projects es as →
      (∀ k c e, ev ≠ .call k c e) → (∀ n o r, ev ≠ .orphan n o r) → Projects (es ++ [ev]) as

/-- The calls of request `k` and its calls in the handlers' run. -/
def RequestRelated (events : List (DeploymentEvent U)) (orphans : Nat → Option DbOp)
    (w : ApiState U) (k : Nat) (inv : Invocation (DbSig U) ApiError U Reply) : Prop :=
  ∃ incoming, .fetched k incoming ∈ events ∧
    inv.request.handlers = incoming.calls.map Users.Request.program ∧
    ∀ c : inv.request.Index, ∃ q, incoming.calls[c.val]? = some q ∧
      inv.request.handlers.get c = q.program ∧
      CallRelated q (inv.state.fibers c) (w.calls (callId k c)) (orphans (callId k c))

/-- The calls of the requests and the calls of the handlers' run. -/
structure Simulates (events : List (DeploymentEvent U)) (d : Deployment U)
    (log : List (ApiEvent U)) (w : ApiState U) : Prop where
  projects : Projects events log
  table : w.state = d.table
  unused : ∀ k, d.world.requests k = none → ∀ c, w.calls (callId k c) = .unused
  owned : ∀ n o, d.orphans n = some o → ∃ k inv, ∃ c : inv.request.Index,
    d.world.requests k = some inv ∧ n = callId k c
  calls : ∀ k inv, d.world.requests k = some inv → RequestRelated events d.orphans w k inv

theorem simulates_start (t₀ : Table) :
    Simulates [] (.start t₀) [] (.start t₀ : ApiState U) := by
  refine ⟨.nil, rfl, fun k _ c => rfl, fun n o hn => ?_, fun k inv hk => ?_⟩
  · cases hn
  · cases hk

/-- Requests that an event does not belong to stay related. -/
theorem related_other {k : Nat} {inv : Invocation (DbSig U) ApiError U Reply}
    {orphans orphans' : Nat → Option DbOp} {w' : ApiState U}
    (h : RequestRelated events orphans w k inv)
    (hcalls : ∀ c, w'.calls (callId k c) = w.calls (callId k c))
    (horphans : ∀ c, orphans' (callId k c) = orphans (callId k c)) :
    RequestRelated (events ++ [event]) orphans' w' k inv := by
  obtain ⟨incoming, hm, hhandlers, hrelated⟩ := h
  refine ⟨incoming, List.mem_append_left _ hm, hhandlers, fun c => ?_⟩
  obtain ⟨q, hq, hget, hr⟩ := hrelated c
  exact ⟨q, hq, hget, by rw [hcalls, horphans]; exact hr⟩

theorem orphans_unused {k : Nat} (hsim : Simulates events d log w)
    (hk : d.world.requests k = none) (c : Nat) : d.orphans (callId k c) = none := by
  cases ho : d.orphans (callId k c) with
  | none => rfl
  | some o =>
    obtain ⟨k', inv, c', hk', hn⟩ := hsim.owned _ o ho
    obtain ⟨rfl, -⟩ := Nat.pair_eq_pair.mp hn
    rw [hk] at hk'
    cases hk'

/-- A new request has its calls before it. -/
theorem simulates_fetch {k : Nat} {incoming : Incoming} {middleware : MiddlewareEffect (DbSig U) U}
    (hsim : Simulates events d log w) (hk : d.world.requests k = none) :
    Simulates (events ++ [.fetched k incoming]) { d with
      world := { d.world with
        requests := Function.update d.world.requests k
          (some (.start incoming.request middleware)) } } log w := by
  refine ⟨.other _ _ _ hsim.projects (by simp) (by simp), hsim.table, fun k' hk' c => ?_,
    fun n o hn => ?_, fun k' inv hk' => ?_⟩
  · by_cases hkk : k' = k
    · subst hkk
      simp at hk'
    · exact hsim.unused k' (by simpa [Function.update_of_ne hkk] using hk') c
  · obtain ⟨k', inv, c, hk', hn⟩ := hsim.owned n o hn
    have hkk : k' ≠ k := by
      rintro rfl
      rw [hk] at hk'
      cases hk'
    exact ⟨k', inv, c, by simpa [Function.update_of_ne hkk] using hk', hn⟩
  · by_cases hkk : k' = k
    · subst hkk
      simp only [Function.update_self, Option.some.injEq] at hk'
      subst hk'
      refine ⟨incoming, by simp, request_handlers incoming, fun c => ?_⟩
      have hlength : c.val < incoming.calls.length := by
        have hc := c.isLt
        change c.val < (incoming.request : Request (DbSig U) _ U Reply).handlers.length at hc
        rwa [request_handlers, List.length_map] at hc
      refine ⟨incoming.calls[c.val], List.getElem?_eq_getElem hlength, ?_, ?_⟩
      · change (incoming.request : Request (DbSig U) _ U Reply).handlers[c.val] = _
        simp [request_handlers]
      · rw [hsim.unused k' hk, orphans_unused hsim hk]
        exact .waiting
    · exact related_other (hsim.calls k' inv (by simpa [Function.update_of_ne hkk] using hk'))
        (fun _ => rfl) fun _ => rfl

/-- The life of a scope is nothing to the handlers. -/
theorem simulates_scope {k : Nat} {inv : Invocation (DbSig U) ApiError U Reply}
    {e : RequestEvent inv.request} {state : RequestState inv.request}
    (hsim : Simulates events d log w) (hk : d.world.requests k = some inv)
    (hstep : RequestStep inv.middleware inv.request inv.state e state)
    (hcall : ∀ c e', e ≠ .call c e') :
    Simulates (events ++ [.scoped k]) { d with world := d.world.advanced k inv e state } log w := by
  refine ⟨.other _ _ _ hsim.projects (by simp) (by simp), hsim.table, fun k' hk' => ?_,
    fun n o hn => advanced_owned hk (hsim.owned n o hn), fun k' inv' hk' => ?_⟩
  · exact hsim.unused k' (advanced_none hk').2
  rcases advanced_requests hk' with ⟨rfl, rfl⟩ | ⟨-, hk'⟩
  · obtain ⟨incoming, hm, hhandlers, hrelated⟩ := hsim.calls k' inv hk
    refine ⟨incoming, List.mem_append_left _ hm, hhandlers, fun c => ?_⟩
    rcases requestStep_fibers hstep with ⟨hfibers, -⟩ | ⟨c', e', f, he, -⟩
    · have hc := hrelated c
      rw [← hfibers] at hc
      exact hc
    · exact absurd he (hcall c' e')
  · exact related_other (hsim.calls k' inv' hk') (fun _ => rfl) fun _ => rfl

theorem callRelated_orphan {c : Call (DbSig U) Users.Request ApiError U Reply} {o : DbOp}
    (h : CallRelated q f c (some o)) : f = .ended interruptedExit ∧
      ∃ k, c = .running q (Eff.perform (S := DbSig U) o k) := by
  cases h with
  | orphaned _ k => exact ⟨rfl, k, rfl⟩

/-- The statement of an interrupted call is still the next one of its handler. -/
theorem simulates_orphan {o : DbOp} {r : Exit SqlError U (List Row)} (hr : ApiRun t₀ log w)
    (hsim : Simulates events d log w) (ho : d.orphans n = some o)
    (hanswers : Answers d.table o r t') : ∃ w', ApiRun t₀ (log ++ [.answered n o r]) w' ∧
      Simulates (events ++ [.orphan n o r])
        { d with table := t', orphans := Function.update d.orphans n none }
        (log ++ [.answered n o r]) w' := by
  obtain ⟨k, inv, c, hk, rfl⟩ := hsim.owned n o ho
  obtain ⟨incoming, hm, hhandlers, hrelated⟩ := hsim.calls k inv hk
  obtain ⟨q, hq, hget, hfiber⟩ := hrelated c
  rw [ho] at hfiber
  obtain ⟨hended, k', hcall⟩ := callRelated_orphan hfiber
  rw [← hsim.table] at hanswers
  refine ⟨_, hr.snoc (.answered w (callId k c) q o k' r t' hcall hanswers),
    .orphan _ _ _ o r hsim.projects, rfl, fun k₁ hk₁ c₁ => ?_, fun n o' hn => ?_,
    fun k₁ inv₁ hk₁ => ?_⟩
  · have hne : k₁ ≠ k := by
      rintro rfl
      rw [hk] at hk₁
      cases hk₁
    exact (Function.update_of_ne (callId_ne (.inl hne)) _ _).trans (hsim.unused k₁ hk₁ c₁)
  · have hne : n ≠ callId k c := by
      rintro rfl
      simp at hn
    exact hsim.owned n o' (by simpa [Function.update_of_ne hne] using hn)
  by_cases hkk : k₁ = k
  · subst hkk
    rw [hk, Option.some.injEq] at hk₁
    subst hk₁
    refine ⟨incoming, List.mem_append_left _ hm, hhandlers, fun c₁ => ?_⟩
    by_cases hc : c₁ = c
    · subst hc
      refine ⟨q, hq, hget, ?_⟩
      simp only [Function.update_self, hended]
      exact .interrupted _
    · obtain ⟨q₁, hq₁, hget₁, hfiber₁⟩ := hrelated c₁
      have hne : callId k₁ c₁ ≠ callId k₁ c := callId_ne (.inr fun he => hc (Fin.ext he))
      refine ⟨q₁, hq₁, hget₁, ?_⟩
      simp only [Function.update_of_ne hne]
      exact hfiber₁
  · exact related_other (hsim.calls k₁ inv₁ hk₁)
      (fun c₁ => Function.update_of_ne (callId_ne (.inl hkk)) _ _)
      fun c₁ => Function.update_of_ne (callId_ne (.inl hkk)) _ _

variable [Throwable DatabaseConnectionError U]
  {string : DatabaseConnectionError ⊕ SqlError → String}

/-- A step of a call is nothing or a step of its handler, and the other calls
stay where they are. -/
theorem simulates_call {k : Nat} {inv : Invocation (DbSig U) ApiError U Reply}
    {c : inv.request.Index} {state : RequestState inv.request} (hr : ApiRun t₀ log w)
    (hsim : Simulates events d log w) (hsound : d.world.Sound string)
    (hk : d.world.requests k = some inv)
    (hstep : RequestStep inv.middleware inv.request inv.state (.call c e) state)
    (htable : TableStep d.table e t') : ∃ shown w', ApiRun t₀ (log ++ shown) w' ∧
      Simulates (events ++ [.call k c e]) ⟨d.world.advanced k inv (.call c e) state, t',
          Function.update d.orphans (callId k c) (orphaned (inv.state.fibers c) e)⟩
        (log ++ shown) w' := by
  obtain ⟨incoming, hm, hhandlers, hrelated⟩ := hsim.calls k inv hk
  obtain ⟨q, hq, hget, hfiber⟩ := hrelated c
  rcases requestStep_fibers hstep with ⟨-, hcall⟩ | ⟨c', e', f, he, hs, -, rfl⟩
  · exact absurd rfl (hcall c e)
  cases he
  have hbody : Opens q.program (inv.request.program inv.middleware c) := by
    rw [(hsound.run k inv hk).1, Request.program, hget]
    exact callProgram_opens string _ _
  rw [← hsim.table] at htable
  obtain ⟨shown, w', hsimulated⟩ := call_simulated hr hbody hfiber hs htable
  refine ⟨shown, w', hsimulated.run, ?_⟩
  refine ⟨.call _ _ k c incoming q e shown hsim.projects hm hq hsimulated.shows, hsimulated.state,
    fun k' hk' c' => ?_, fun n o hn => ?_, fun k' inv' hk' => ?_⟩
  · obtain ⟨hkk, hk'⟩ := advanced_none hk'
    rw [hsimulated.others _ (callId_ne (.inl hkk))]
    exact hsim.unused k' hk' c'
  · refine advanced_owned hk ?_
    by_cases hnk : n = callId k c
    · exact ⟨k, inv, c, hk, hnk⟩
    · exact hsim.owned n o (by simpa [Function.update_of_ne hnk] using hn)
  rcases advanced_requests hk' with ⟨rfl, rfl⟩ | ⟨hkk, hk'⟩
  · have hafter : ∀ c' : inv.request.Index, ∃ q, incoming.calls[c'.val]? = some q ∧
        inv.request.handlers.get c' = q.program ∧
        CallRelated q (Function.update inv.state.fibers c f c') (w'.calls (callId k' c'))
          (Function.update d.orphans (callId k' c) (orphaned (inv.state.fibers c) e)
            (callId k' c')) := by
      intro c'
      by_cases hc : c' = c
      · subst hc
        rw [Function.update_self, Function.update_self]
        exact ⟨q, hq, hget, hsimulated.related⟩
      · obtain ⟨q', hq', hget', hfiber'⟩ := hrelated c'
        have hne : callId k' c' ≠ callId k' c := callId_ne (.inr fun he => hc (Fin.ext he))
        rw [Function.update_of_ne hc, Function.update_of_ne hne, hsimulated.others _ hne]
        exact ⟨q', hq', hget', hfiber'⟩
    exact ⟨incoming, List.mem_append_left _ hm, hhandlers, hafter⟩
  · exact related_other (hsim.calls k' inv' hk')
      (fun c' => hsimulated.others _ (callId_ne (.inl hkk)))
      fun c' => Function.update_of_ne (callId_ne (.inl hkk)) _ _

theorem deployment_simulates (h : Deployment.Run string t₀ events d) :
    ∃ log w, ApiRun t₀ log w ∧ Simulates events d log w := by
  induction h with
  | nil => exact ⟨[], .start t₀, .nil, simulates_start t₀⟩
  | @snoc events d event d' hrun hs ih =>
    obtain ⟨log, w, hr, hsim⟩ := ih
    have hsound := reachable_sound (deploymentRun_world hrun)
    cases hs with
    | build rt as middleware _ _ =>
      exact ⟨log, w, hr, .other _ _ _ hsim.projects (by simp) (by simp), hsim.table, hsim.unused,
        hsim.owned, fun k inv hk => related_other (hsim.calls k inv hk) (fun _ => rfl) fun _ => rfl⟩
    | fetch k incoming rt middleware hk _ _ _ => exact ⟨log, w, hr, simulates_fetch hsim hk⟩
    | scope k inv e state hk hstep hcall _ =>
      exact ⟨log, w, hr, simulates_scope hsim hk hstep hcall⟩
    | call k inv c e state t' hk hstep _ htable =>
      obtain ⟨shown, w', hr', hsim'⟩ := simulates_call hr hsim hsound hk hstep htable
      exact ⟨_, w', hr', hsim'⟩
    | orphan n o r t' ho hanswers =>
      obtain ⟨w', hr', hsim'⟩ := simulates_orphan hr hsim ho hanswers
      exact ⟨_, w', hr', hsim'⟩

/-- The worker refines its handlers: whatever requests it is given, in whatever
order their calls connect, fail to connect, run, are interrupted and answer,
the table has gone through a run of the handlers, which is in the events of the
worker in their order. A call that could not connect made no statement, and a
statement that an interrupted call left with the database counts for that call
whenever the database finishes it. -/
theorem deployment_refines (h : Deployment.Run string t₀ events d) :
    ∃ log w, ApiRun t₀ log w ∧ w.state = d.table ∧ Projects events log := by
  obtain ⟨log, w, hr, hsim⟩ := deployment_simulates h
  exact ⟨log, w, hr, hsim.table, hsim.projects⟩

end Deployments

theorem deployment_refines_annServed :
    ∃ (events : List (DeploymentEvent String)) (log : List (ApiEvent String)) (w : ApiState String),
      AnnServed events ∧ ApiRun .empty log w ∧ w.state = annTable ∧ Projects events log := by
  obtain ⟨events, d, hrun, htable, hserved⟩ := annServed_run (U := String) fun _ => "refused"
  obtain ⟨log, w, hr, hstate, hprojects⟩ := deployment_refines hrun
  exact ⟨events, log, w, hserved, hr, hstate.trans htable, hprojects⟩

end EffectWorker.Fetch
