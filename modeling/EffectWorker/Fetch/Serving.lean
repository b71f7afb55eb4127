import EffectWorker.Fetch.Deployment

/-! One request at a time. What a request of the worker can come to by steps of
its own, and how a call that finds its database gets its answer. -/

namespace EffectWorker.Fetch

open Effect Worker Users

section Serving

variable {U : Type}

/-- An event of request `k` as the worker sees it. -/
def RequestEvent.deployed (k : Nat) {r : Request (DbSig U) ApiError U Reply} :
    RequestEvent r → DeploymentEvent U
  | .call c e => .call k c e
  | .opened | .responded | .exited | .releasing _ | .disconnected | .interruptedCalls
  | .closed => .scoped k

theorem deployed_of_scoped {k : Nat} {r : Request (DbSig U) ApiError U Reply} {e : RequestEvent r}
    (hcall : ∀ c e', e ≠ .call c e') : e.deployed k = .scoped k := by
  cases e with
  | call c e' => exact absurd rfl (hcall c e')
  | _ => rfl

variable {k : Nat} {r : Request (DbSig U) ApiError U Reply} {s s' s'' : RequestState r}
  {log added added' : List (RequestEvent r)} {c : r.Index}
  {f f' : Fiber (CallSig (DbSig U) U) (CallError ApiError) U Reply}
  {e : CallEvent (DbSig U) ApiError U Reply}

/-! ## Calls of an open scope -/

theorem afterCall_ready {s : RequestState r} {e : CallEvent (DbSig U) ApiError U Reply}
    {p p' : Eff (CallSig (DbSig U) U) (CallError ApiError) U Reply} (hp : p = p') :
    (s.afterCall c e (.ready p)).fibers c = .ready p' :=
  hp ▸ Function.update_self ..

/-- The scope of the request has not started to close. -/
structure IsOpen (s : RequestState r) : Prop where
  scope : ∃ fs, s.scope = .opened fs
  late : s.late = []

theorem IsOpen.guard (h : IsOpen s) (hnot : e ≠ .interrupted) : CallGuard r s c e := by
  refine ⟨by simp [h.late], ?_⟩
  cases e with
  | starts => exact h.scope
  | interrupted => exact absurd rfl hnot
  | begins | works | answers | ends => trivial

theorem IsOpen.afterCall (h : IsOpen s) : IsOpen (s.afterCall c e f) := by
  obtain ⟨fs, hscope⟩ := h.scope
  refine ⟨⟨_, by rw [RequestState.afterCall, hscope, scopeAfter]⟩, ?_⟩
  rw [RequestState.afterCall, hscope, h.late]
  rfl

section Throwing

variable [Throwable SqlError U]

/-- A call of `q` from its start to its end, on the connection `conn`. -/
def servedCall (c : r.Index) (url : String) (conn : Connection) (o : DbOp)
    (a : Exit SqlError U (List Row)) (q : Users.Request) : List (RequestEvent r) :=
  connectingCall c url ++ connectedCall c url conn ++ [.call c (.begins (.handler conn o)),
    .call c (.answers (.handler conn o) a), .call c (.ends ((q.exit a).mapFail .inr))]

theorem served_ends (c : r.Index) (url : String) (conn : Connection) (o : DbOp)
    (a : Exit SqlError U (List Row)) (q : Users.Request) :
    .call k c (.ends ((q.exit a).mapFail .inr)) ∈
      (servedCall c url conn o a q).map (RequestEvent.deployed k) :=
  List.mem_map.mpr ⟨.call c (.ends ((q.exit a).mapFail .inr)), by simp [servedCall], rfl⟩

variable [Throwable DatabaseConnectionError U]
  {string : DatabaseConnectionError ⊕ SqlError → String} {t₀ t' : Table} {d d' d'' : Deployment U}
  {events : List (DeploymentEvent U)}

/-! ## Steps of one request -/

/-- Request `k` is `r`, with the events `log` behind it, in the state `s`. -/
def Deployment.Holds (string : DatabaseConnectionError ⊕ SqlError → String) (d : Deployment U)
    (k : Nat) (log : List (RequestEvent r)) (s : RequestState r) : Prop :=
  d.world.requests k = some ⟨r, databaseMiddleware string, log, s⟩

/-- Request `k` alone can go on by the events `added` and come to the state
`s'`, none of its calls interrupted. -/
structure Deployment.Reaches (string : DatabaseConnectionError ⊕ SqlError → String)
    (d : Deployment U) (k : Nat) (log added : List (RequestEvent r)) (s' : RequestState r)
    (d' : Deployment U) : Prop where
  steps : Runs (Deployment.Step string) d (added.map (RequestEvent.deployed k)) d'
  uninterrupted : ∀ c, .call c .interrupted ∉ added
  holds : d'.Holds string k (log ++ added) s'
  memo : d'.world.memo = d.world.memo
  others : ∀ k', k' ≠ k → d'.world.requests k' = d.world.requests k'

theorem Deployment.Reaches.trans (h : d.Reaches string k log added s' d')
    (h' : d'.Reaches string k (log ++ added) added' s'' d'') :
    d.Reaches string k log (added ++ added') s'' d'' := by
  refine ⟨?_, fun c hc => ?_, ?_, h'.memo.trans h.memo,
    fun k' hk' => (h'.others k' hk').trans (h.others k' hk')⟩
  · rw [List.map_append]
    exact h.steps.trans h'.steps
  · rcases List.mem_append.mp hc with hc | hc
    · exact h.uninterrupted c hc
    · exact h'.uninterrupted c hc
  · rw [← List.append_assoc]
    exact h'.holds

theorem reaches_scope {re : RequestEvent r} (h : d.Holds string k log s)
    (hs : RequestStep (databaseMiddleware string) r s re s') (hcall : ∀ c e, re ≠ .call c e) :
    ∃ d', d.Reaches string k log [re] s' d' ∧ d'.table = d.table := by
  have hacquires : ∀ c conn, re.acquires = some (c, conn) → conn = d.world.nextConnection := by
    simp [acquires_of_scoped hcall]
  refine ⟨{ d with world := d.world.advanced k ⟨r, databaseMiddleware string, log, s⟩ re s' },
    ⟨?_, fun c hc => ?_, Function.update_self .., rfl, fun k' hk' => Function.update_of_ne hk' ..⟩,
    rfl⟩
  · rw [List.map_singleton, deployed_of_scoped hcall]
    exact .single (.scope d k _ re s' h hs hcall hacquires)
  · exact hcall c _ (List.mem_singleton.mp hc).symm

theorem reaches_call (h : d.Holds string k log s) (hf : s.fibers c = f)
    (hs : FiberStep (fun _ _ => True) (r.program (databaseMiddleware string) c) f e f')
    (hguard : CallGuard r s c e) (hnot : e ≠ .interrupted)
    (hfresh : ∀ conn, acquired e = some conn → conn = d.world.nextConnection)
    (htable : TableStep d.table e t') :
    ∃ d', d.Reaches string k log [.call c e] (s.afterCall c e f') d' ∧ d'.table = t' := by
  subst hf
  refine ⟨⟨d.world.advanced k ⟨r, databaseMiddleware string, log, s⟩ (.call c e)
      (s.afterCall c e f'), t', Function.update d.orphans (callId k c) (orphaned (s.fibers c) e)⟩,
    ⟨.single (.call d k _ c e _ t' h (.call s c e f' hs hguard) (acquires_call hfresh) htable),
      fun c' hc' => ?_, Function.update_self .., rfl, fun k' hk' => Function.update_of_ne hk' ..⟩,
    rfl⟩
  exact hnot (RequestEvent.call.inj (List.mem_singleton.mp hc')).2.symm

/-! ## A call that is served -/

/-- A call that waits can get a connection. -/
theorem call_connected {env : Env} (h : d.Holds string k log s) (hopen : IsOpen s)
    (hc : s.fibers c = .waiting) (henv : r.env = some env) : ∃ conn s' d',
      d.Reaches string k log (connectingCall c env.connectionString ++
        connectedCall c env.connectionString conn) s' d' ∧
      IsOpen s' ∧ s'.fibers c = .ready (provideDatabase conn (r.handlers.get c)) ∧
      d'.table = d.table := by
  obtain ⟨m, hprogram, hm⟩ := callProgram_some string env (r.handlers.get c)
  rw [← henv] at hprogram
  obtain ⟨d₁, h₁, ht₁⟩ := reaches_call h hc .starts (hopen.guard (by simp)) (by simp)
    (by simp [acquired]) (.other _ (by simp))
  obtain ⟨d₂, h₂, ht₂⟩ := reaches_call h₁.holds (afterCall_ready hprogram) (.begins _ m)
    (hopen.afterCall.guard (by simp)) (by simp) (by simp [acquired]) (.other _ (by simp))
  obtain ⟨m', hdrizzle, hconnected, -⟩ := hm.connected d₂.world.nextConnection
  obtain ⟨d₃, h₃, ht₃⟩ := reaches_call h₂.holds (Function.update_self ..)
    (.answers _ m (.success d₂.world.nextConnection) trivial)
    (hopen.afterCall.afterCall.guard (by simp)) (by simp)
    (fun conn hconn => (Option.some.inj hconn).symm) (.other _ (by simp))
  obtain ⟨d₄, h₄, ht₄⟩ := reaches_call h₃.holds (afterCall_ready hdrizzle) (.begins _ m')
    (hopen.afterCall.afterCall.afterCall.guard (by simp)) (by simp) (by simp [acquired])
    (.other _ (by simp))
  obtain ⟨d₅, h₅, ht₅⟩ := reaches_call h₄.holds (Function.update_self ..)
    (.answers _ m' (Exit.success ()) trivial)
    (hopen.afterCall.afterCall.afterCall.afterCall.guard (by simp)) (by simp)
    (by simp [acquired]) (.other _ (by simp))
  have hall := h₁.trans (h₂.trans (h₃.trans (h₄.trans h₅)))
  exact ⟨_, _, d₅, hall, hopen.afterCall.afterCall.afterCall.afterCall.afterCall,
    afterCall_ready hconnected, by rw [ht₅, ht₄, ht₃, ht₂, ht₁]⟩

/-- A call that waits can be served, with any answer the table allows. -/
theorem call_served {q : Users.Request} {o : DbOp} {a : Exit SqlError U (List Row)} {env : Env}
    (h : d.Holds string k log s) (hopen : IsOpen s) (hc : s.fibers c = .waiting)
    (henv : r.env = some env) (hget : r.handlers.get c = q.program) (hq : q.statement = some o)
    (ha : Answers d.table o a t') : ∃ conn s' d',
      d.Reaches string k log (servedCall c env.connectionString conn o a q) s' d' ∧
      d'.table = t' := by
  obtain ⟨conn, s₀, d₀, h₀, hopen₀, hready, ht₀⟩ := call_connected h hopen hc henv
  rw [hget, program_performs hq] at hready
  obtain ⟨d₁, h₁, ht₁⟩ := reaches_call h₀.holds hready (.begins _ _) (hopen₀.guard (by simp))
    (by simp) (by simp [acquired]) (.other _ (by simp))
  have htable : d₁.table = d.table := ht₁.trans ht₀
  obtain ⟨d₂, h₂, ht₂⟩ := reaches_call h₁.holds (Function.update_self ..)
    (.answers _ _ a trivial) (hopen₀.afterCall.guard (by simp)) (by simp) (by simp [acquired])
    (.statement conn o a t' (htable ▸ ha))
  obtain ⟨d₃, h₃, ht₃⟩ := reaches_call h₂.holds (Function.update_self ..) (.ends _)
    (hopen₀.afterCall.afterCall.guard (by simp)) (by simp) (by simp [acquired])
    (.other _ (by simp))
  have hall := h₀.trans (h₁.trans (h₂.trans h₃))
  exact ⟨conn, _, d₃, hall, ht₃.trans ht₂⟩

/-- An HTTP request has one call. -/
theorem served_http {env : Option Env} {q : Users.Request} {rt : Runtime} (h : servedBy q = rt) :
    ∀ q' ∈ (Incoming.http env q).calls, servedBy q' = rt := by
  intro q' hq'
  rw [List.mem_singleton.mp hq']
  exact h

/-- The call of an HTTP request. -/
def httpCall (env : Option Env) (q : Users.Request) :
    ((Incoming.http env q).request : Request (DbSig U) ApiError U Reply).Index :=
  ⟨0, Nat.one_pos⟩

/-- An HTTP request that comes in can be served at any time. -/
theorem http_served {q : Users.Request} {o : DbOp} {a : Exit SqlError U (List Row)}
    {t₀ : Table} (env : Env) (h : Deployment.Run string t₀ events d)
    (hmemo : d.world.memo .runtime = some (databaseMiddleware string))
    (hk : d.world.requests k = none) (hserved : servedBy q = .runtime)
    (hq : q.statement = some o) (ha : Answers d.table o a t') : ∃ conn d',
      Deployment.Run string t₀ (events ++ .fetched k (.http (some env) q) :: .scoped k ::
        (servedCall (httpCall (some env) q) env.connectionString conn o a q).map
          (RequestEvent.deployed k)) d' ∧
      d'.table = t' ∧ d'.world.memo = d.world.memo ∧
      ∀ k', k' ≠ k → d'.world.requests k' = d.world.requests k' := by
  have hfetched :=
    h.snoc (.fetch d k (.http (some env) q) .runtime _ hk rfl hmemo (served_http hserved))
  have hholds : Deployment.Holds string { d with
      world := { d.world with
        requests := Function.update d.world.requests k
          (some (.start (Incoming.http (some env) q).request (databaseMiddleware string))) } }
      k [] (.initial (Incoming.http (some env) q).request) := Function.update_self ..
  obtain ⟨d₁, h₁, ht₁⟩ := reaches_scope hholds (.opened _ rfl) (by simp)
  obtain ⟨conn, s', d₂, h₂, ht₂⟩ := call_served (c := httpCall (some env) q) h₁.holds
    ⟨⟨_, rfl⟩, rfl⟩ rfl rfl rfl hq (ht₁ ▸ ha)
  have hall := h₁.trans h₂
  refine ⟨conn, d₂, ?_, ht₂, hall.memo, fun k' hk' => ?_⟩
  · have hrun := hfetched.trans hall.steps
    rw [List.append_assoc] at hrun
    exact hrun
  · rw [hall.others k' hk']
    exact Function.update_of_ne hk' ..

/-! ## Two runs -/

theorem built_run (string : DatabaseConnectionError ⊕ SqlError → String) (t₀ : Table) :
    ∃ d : Deployment U, Deployment.Run string t₀ [.built .runtime] d ∧ d.table = t₀ ∧
      d.world.memo .runtime = some (databaseMiddleware string) ∧ ∀ k, d.world.requests k = none :=
  ⟨_, .snoc .nil (.build (.start t₀) .runtime [] (databaseMiddleware string) rfl (.nil _)), rfl,
    rfl, fun _ => rfl⟩

/-- The layers of `runtime` are built and a request for all users comes in. -/
theorem listFetched_run (string : DatabaseConnectionError ⊕ SqlError → String) (t₀ : Table) :
    ∃ d : Deployment U, Deployment.Run string t₀
      [.built .runtime, .fetched 0 (.http (some localEnv) .httpList)] d ∧
      d.world.requests 0 = some (.start (Incoming.http (some localEnv) .httpList).request
        (databaseMiddleware string)) := by
  obtain ⟨d, hbuilt, -, hmemo, hnone⟩ := built_run (U := U) string t₀
  exact ⟨_, hbuilt.snoc (.fetch d 0 _ .runtime _ (hnone 0) rfl hmemo (served_http rfl)),
    Function.update_self 0 _ d.world.requests⟩

def annPayload : CreateUser where
  email := ann.email
  name := ann.name
  email_pattern := by decide
  name_minLength := by decide

/-- Ann is created by one request and listed by the next. -/
structure AnnServed (events : List (DeploymentEvent U)) : Prop where
  created : .call 0 0 (.ends (.success (.user (Http.toUser ann)))) ∈ events
  listed : .call 1 0 (.ends (.success (.list { users := [Http.toUser ann], total := 1 }))) ∈ events

theorem annServed_run (string : DatabaseConnectionError ⊕ SqlError → String) :
    ∃ (events : List (DeploymentEvent U)) (d : Deployment U),
      Deployment.Run string .empty events d ∧ d.table = annTable ∧ AnnServed events := by
  obtain ⟨d₀, h₀, ht₀, hmemo₀, hnone₀⟩ := built_run (U := U) string .empty
  obtain ⟨conn₁, d₁, h₁, ht₁, hmemo₁, hothers₁⟩ := http_served localEnv h₀ (k := 0)
    (q := .httpCreate annPayload) hmemo₀ (hnone₀ 0) rfl rfl
    (by rw [ht₀]; exact .insert .empty ann _ _ ann_accepted ann_stored.1 ann_stored.2)
  have hnone₁ : d₁.world.requests 1 = none := by rw [hothers₁ 1 (by decide), hnone₀]
  obtain ⟨conn₂, d₂, h₂, ht₂, -, -⟩ := http_served localEnv h₁ (k := 1) (q := .httpList)
    (by rw [hmemo₁, hmemo₀]) hnone₁ rfl rfl (.select d₁.table [ann] (by rw [ht₁]; exact .refl _))
  refine ⟨_, d₂, h₂, ht₂.trans ht₁, ?_, ?_⟩
  · refine List.mem_append_left _ (List.mem_append_right _ (List.mem_cons_of_mem _ ?_))
    refine List.mem_cons_of_mem _ ?_
    exact served_ends (httpCall (some localEnv) (.httpCreate annPayload)) _ _ _ _
      (.httpCreate annPayload)
  · refine List.mem_append_right _ (List.mem_cons_of_mem _ (List.mem_cons_of_mem _ ?_))
    exact served_ends (httpCall (some localEnv) .httpList) _ _ _ _ .httpList

end Throwing

end Serving

end EffectWorker.Fetch
