import EffectWorker.Effect.Numbering
import EffectWorker.Fetch.Connections
import EffectWorker.Users.Results

/-! The isolate: the two shared runtimes and any number of requests at a time.
A runtime builds its layers once and keeps what they yield, and every request
runs with what was kept. Nothing is opened while the layers are built, so no
connection belongs to a runtime; each belongs to one call of one request. -/

namespace EffectWorker.Fetch

open Effect Worker Users

inductive Runtime
  | runtime
  | rpcRuntime
  deriving DecidableEq, Repr

section Runtimes

variable {S : Sig} {E U A : Type}

def Request.runtime : Request S E U A → Runtime
  | .http _ _ => .runtime
  | .rpc _ _ => .rpcRuntime

/-- The part of `MiddlewareLive` and of `RpcMiddlewareLive` that makes connections. -/
def Runtime.layer [Throwable SqlError U] [Throwable DatabaseConnectionError U]
    (string : DatabaseConnectionError ⊕ SqlError → String) :
    Runtime → Eff (CallSig S U) Empty U (MiddlewareEffect S U)
  | .runtime => DatabaseMiddlewareLive string
  | .rpcRuntime => RpcDatabaseMiddlewareLive string

structure Invocation (S : Sig) (E U A : Type) where
  request : Request S E U A
  middleware : MiddlewareEffect S U
  log : List (RequestEvent request)
  state : RequestState request

/-- `memo` is what the runtimes have built, `built` what building has performed. -/
structure World (S : Sig) (E U A : Type) where
  memo : Runtime → Option (MiddlewareEffect S U)
  built : List (Answered (CallSig S U))
  requests : Nat → Option (Invocation S E U A)
  nextConnection : Connection

def World.empty : World S E U A := ⟨fun _ => none, [], fun _ => none, 0⟩

def Invocation.start (request : Request S E U A) (middleware : MiddlewareEffect S U) :
    Invocation S E U A := ⟨request, middleware, [], .initial request⟩

def Invocation.advance (inv : Invocation S E U A) (e : RequestEvent inv.request)
    (state : RequestState inv.request) : Invocation S E U A :=
  { inv with log := inv.log ++ [e], state := state }

/-- The connections a request has opened, oldest first. -/
def Invocation.connections (inv : Invocation S E U A) : List Connection :=
  (acquisitions inv.log).map Prod.snd

theorem advance_connections (inv : Invocation S E U A) (e : RequestEvent inv.request)
    (state : RequestState inv.request) : (inv.advance e state).connections =
      inv.connections ++ (acquisitions [e]).map Prod.snd := by
  change (acquisitions (inv.log ++ [e])).map Prod.snd = _
  rw [acquisitions_append, List.map_append]
  rfl

/-- What each request has opened. -/
def World.owned (w : World S E U A) (k : Nat) : List Connection :=
  (w.requests k).elim [] Invocation.connections

theorem owned_update (w : World S E U A) (k : Nat) (inv : Invocation S E U A) (next : Connection) :
    World.owned { w with
      requests := Function.update w.requests k (some inv)
      nextConnection := next } = Function.update w.owned k inv.connections := by
  funext k'
  by_cases hk : k' = k
  · subst hk
    simp [World.owned]
  · simp [World.owned, Function.update_of_ne hk]

/-- The connections of a log that has grown by one event are numbered from zero
if they were before and the event opens at most the next one. -/
private theorem acquisitions_range {r : Request S E U A} {log : List (RequestEvent r)}
    {e : RequestEvent r} (h : (acquisitions (log ++ [e])).map Prod.snd =
      List.range (acquisitions (log ++ [e])).length) :
    (acquisitions log).map Prod.snd = List.range (acquisitions log).length ∧
      ∀ c conn, e.acquires = some (c, conn) → conn = (acquisitions log).length := by
  rw [acquisitions_append, acquisitions_singleton] at h
  cases hacq : e.acquires with
  | none =>
    rw [hacq, Option.toList_none, List.append_nil] at h
    exact ⟨h, fun c conn hc => by cases hc⟩
  | some a =>
    rw [hacq, Option.toList_some, List.length_append, List.length_singleton, List.range_succ,
      List.map_append] at h
    obtain ⟨hlog, hlast⟩ := List.append_inj' h rfl
    refine ⟨hlog, fun c conn hc => ?_⟩
    cases hc
    exact List.singleton_inj.mp hlast

section Worlds

variable [Throwable SqlError U] [Throwable DatabaseConnectionError U]

inductive World.Step (string : DatabaseConnectionError ⊕ SqlError → String) :
    World S E U A → World S E U A → Prop
  | build (w : World S E U A) (rt as middleware) : w.memo rt = none →
      Eff.Path (rt.layer string) as (.exit (.success middleware)) →
      Step string w { w with
        memo := Function.update w.memo rt (some middleware)
        built := w.built ++ as }
  | fetch (w : World S E U A) (k) (request : Request S E U A) (middleware) :
      w.requests k = none → w.memo request.runtime = some middleware →
      Step string w { w with
        requests := Function.update w.requests k (some (.start request middleware)) }
  | request (w : World S E U A) (k inv e state) : w.requests k = some inv →
      RequestStep inv.middleware inv.request inv.state e state →
      (∀ c conn, e.acquires = some (c, conn) → conn = w.nextConnection) →
      Step string w { w with
        requests := Function.update w.requests k (some (inv.advance e state))
        nextConnection := w.nextConnection + (acquisitions [e]).length }

inductive World.Reachable (string : DatabaseConnectionError ⊕ SqlError → String) :
    World S E U A → Prop
  | empty : Reachable string .empty
  | step {w w'} : Reachable string w → World.Step string w w' → Reachable string w'

variable {string : DatabaseConnectionError ⊕ SqlError → String} {w w' : World S E U A}

/-! ## Every request runs on its own -/

structure World.Sound (string : DatabaseConnectionError ⊕ SqlError → String)
    (w : World S E U A) : Prop where
  memo : ∀ rt middleware, w.memo rt = some middleware → middleware = databaseMiddleware string
  built : w.built = []
  run : ∀ k inv, w.requests k = some inv → inv.middleware = databaseMiddleware string ∧
    RequestRun (databaseMiddleware string) inv.request inv.log inv.state

/-- Building a layer yields the middleware's effect and performs nothing. -/
theorem layer_path {rt : Runtime} {as : List (Answered (CallSig S U))}
    {middleware : MiddlewareEffect S U}
    (h : Eff.Path (rt.layer string) as (.exit (.success middleware))) :
    as = [] ∧ middleware = databaseMiddleware string := by
  cases rt <;>
  · obtain ⟨rfl, hq⟩ := Eff.path_exit h
    cases hq
    exact ⟨rfl, rfl⟩

theorem step_sound (hs : World.Step string w w') (hw : w.Sound string) : w'.Sound string := by
  cases hs with
  | build rt as middleware _ hpath =>
    obtain ⟨rfl, rfl⟩ := layer_path hpath
    refine ⟨fun rt' middleware' hm => ?_, by simpa using hw.built, hw.run⟩
    by_cases hrt : rt' = rt
    · subst hrt
      simpa [eq_comm] using hm
    · exact hw.memo rt' middleware' (by simpa [Function.update_of_ne hrt] using hm)
  | fetch k request middleware _ hmemo =>
    refine ⟨hw.memo, hw.built, fun k' inv hk => ?_⟩
    by_cases hkk : k' = k
    · subst hkk
      simp only [Function.update_self, Option.some.injEq] at hk
      subst hk
      exact ⟨hw.memo _ _ hmemo, .nil⟩
    · exact hw.run k' inv (by simpa [Function.update_of_ne hkk] using hk)
  | request k inv e state hk hstep _ =>
    refine ⟨hw.memo, hw.built, fun k' inv' hk' => ?_⟩
    by_cases hkk : k' = k
    · subst hkk
      simp only [Function.update_self, Option.some.injEq] at hk'
      subst hk'
      obtain ⟨hmiddleware, hrun⟩ := hw.run k' inv hk
      rw [hmiddleware] at hstep
      exact ⟨hmiddleware, .snoc hrun hstep⟩
    · exact hw.run k' inv' (by simpa [Function.update_of_ne hkk] using hk')

theorem reachable_sound (h : World.Reachable string w) : w.Sound string := by
  induction h with
  | empty =>
    refine ⟨?_, rfl, ?_⟩
    · intro rt middleware hm
      cases hm
    · intro k inv hk
      cases hk
  | step _ hs ih => exact step_sound hs ih

/-! ## Connections are numbered in the order they are made -/

theorem step_numbered (hs : World.Step string w w') (h : Numbered w.owned w.nextConnection) :
    Numbered w'.owned w'.nextConnection := by
  cases hs with
  | build rt as middleware _ _ => exact h
  | fetch k request middleware hk _ =>
    rw [owned_update, Function.update_eq_self_iff.mpr]
    · exact h
    · simp [World.owned, hk, Invocation.start, Invocation.connections, acquisitions]
  | request k inv e state hk _ hfresh =>
    have hinv : inv.connections = w.owned k := by simp [World.owned, hk]
    rw [owned_update, advance_connections, hinv, acquisitions_singleton]
    cases hacq : e.acquires with
    | none =>
      rw [Option.toList_none, List.map_nil, List.append_nil, Function.update_eq_self]
      exact h
    | some a =>
      rw [Option.toList_some, List.map_singleton, hfresh a.1 a.2 hacq]
      exact h.snoc k

theorem reachable_numbered (h : World.Reachable string w) : Numbered w.owned w.nextConnection := by
  induction h with
  | empty => exact .nil 0
  | step _ hs ih => exact step_numbered hs ih

/-! ## What the connections promise -/

structure World.ConnectionsPrivate (string : DatabaseConnectionError ⊕ SqlError → String)
    (w : World S E U A) : Prop where
  /-- No connection is made where the runtimes keep their layers. -/
  built : w.built = []
  lifetimes : ∀ k inv, w.requests k = some inv → ConnectionLifetimes string inv.log
  refused : ∀ k inv, w.requests k = some inv → RefusedWithError inv.log
  used : ∀ k inv, w.requests k = some inv → UsedWhileOpen inv.log
  isolated : ∀ k k' inv inv' c c' conn, w.requests k = some inv → w.requests k' = some inv' →
    conn ∈ opens c inv.log → conn ∈ opens c' inv'.log → k = k'
  /-- Whatever a request has done, its scope can be closed. -/
  closable : ∀ k inv, w.requests k = some inv → inv.state.scope ≠ .unopened →
    ∃ log state, RequestRun inv.middleware inv.request (inv.log ++ log) state ∧
      state.scope = .closed

/-- In every interleaving of any number of requests, connections are private to
their calls and released once. A call without one ends with the middleware's
error, when attempts to connect fail with errors; statements begin on open
connections, when no RPC scope starts to close before its calls have begun their
last operation. -/
theorem fetchConnections_private (h : World.Reachable string w)
    (hfails : ∀ k inv, w.requests k = some inv → FailsWithErrors inv.log)
    (hcloses : ∀ k inv, w.requests k = some inv →
      ClosesAfterStatements (databaseMiddleware string) inv.log) :
    w.ConnectionsPrivate string := by
  have hsound := reachable_sound h
  have hnumbered := reachable_numbered h
  have howned : ∀ k inv, w.requests k = some inv → w.owned k = inv.connections :=
    fun k inv hk => by simp [World.owned, hk]
  constructor
  case built => exact hsound.built
  case lifetimes =>
    intro k inv hk
    have hnodup : inv.connections.Nodup := howned k inv hk ▸ hnumbered.nodup k
    exact requestRun_lifetimes (hsound.run k inv hk).2 hnodup
  case refused =>
    intro k inv hk
    exact requestRun_refusedWithError (hsound.run k inv hk).2 (hfails k inv hk)
  case used =>
    intro k inv hk
    exact requestRun_usedWhileOpen (hsound.run k inv hk).2 (hcloses k inv hk)
  case isolated =>
    intro k k' inv inv' c c' conn hk hk' hc hc'
    refine hnumbered.distinct k k' conn ?_ ?_
    · rw [howned k inv hk]
      exact List.mem_map_of_mem (f := Prod.snd) (mem_opens.mp hc)
    · rw [howned k' inv' hk']
      exact List.mem_map_of_mem (f := Prod.snd) (mem_opens.mp hc')
  case closable =>
    intro k inv hk hopen
    obtain ⟨hmiddleware, hrun⟩ := hsound.run k inv hk
    rw [hmiddleware]
    exact requestRun_closable hrun hopen

/-- A run of one request, with its connections numbered from zero, is a run of
a worker that gets no other request. -/
theorem reachable_of_run {r : Request S E U A} {log : List (RequestEvent r)} {s : RequestState r}
    (h : RequestRun (databaseMiddleware string) r log s)
    (hlog : (acquisitions log).map Prod.snd = List.range (acquisitions log).length) :
    ∃ w : World S E U A, World.Reachable string w ∧ w.nextConnection = (acquisitions log).length ∧
      w.requests = Function.update (fun _ => none) 0
        (some ⟨r, databaseMiddleware string, log, s⟩) := by
  induction h with
  | nil =>
    have hpath : Eff.Path (r.runtime.layer (S := S) (U := U) string) []
        (.exit (.success (databaseMiddleware string))) := by
      cases r <;> exact .nil _
    have hbuilt := (World.Reachable.empty (S := S) (E := E) (U := U) (A := A)).step
      (.build _ _ _ _ rfl hpath)
    exact ⟨_, hbuilt.step (.fetch _ 0 r _ rfl (Function.update_self ..)), rfl, rfl⟩
  | @snoc log s e s' hr hs ih =>
    obtain ⟨hbefore, hnext⟩ := acquisitions_range hlog
    obtain ⟨w, hw, hwn, hrequests⟩ := ih hbefore
    have hk : w.requests 0 = some ⟨r, databaseMiddleware string, log, s⟩ := by
      rw [hrequests, Function.update_self]
    refine ⟨_, hw.step (.request w 0 _ e s' hk hs (by rw [hwn]; exact hnext)), ?_, ?_⟩
    · change w.nextConnection + (acquisitions [e]).length = _
      rw [hwn, acquisitions_append, List.length_append]
    · change Function.update w.requests 0 _ = _
      rw [hrequests, Function.update_idem]
      rfl

end Worlds

end Runtimes


/-! ## A body with two calls and a body with three -/

/-- `String` on the two errors. -/
def errorString : DatabaseConnectionError ⊕ SqlError → String
  | .inl error => "DatabaseConnectionError: " ++ error.message
  | .inr error => "SqlError: " ++ error.message

def failedToConnect : Cause SqlError String := .fail ⟨"PgClient: Failed to connect"⟩

def noRows : Exit SqlError String (List Row) := .success []

def emptyList : Exit (CallError RpcError) String UsersList := .success ⟨[], 0⟩

def refusedExit : Exit (CallError RpcError) String UsersList :=
  .failure (connectionCause errorString failedToConnect)

/-- An RPC request with `n` calls that list the users. -/
def lists (n : Nat) : Request (DbSig String) RpcError String UsersList :=
  .rpc (some localEnv) (List.replicate n Rpc.listUsers)

theorem lists_opened (n : Nat) : RequestRun (databaseMiddleware errorString) (lists n) [.opened]
    ⟨.opened [.disconnect, .interruptCalls], fun _ => .waiting, [], false⟩ :=
  .single (.opened _ rfl)

def firstOfTwo : (lists 2).Index := ⟨0, Nat.zero_lt_two⟩

def secondOfTwo : (lists 2).Index := ⟨1, Nat.one_lt_two⟩

theorem first_or_second : ∀ c : (lists 2).Index, c = firstOfTwo ∨ c = secondOfTwo := by decide

/-- The second call makes its statement, and the first one fails to connect. -/
def refusedLog : List (RequestEvent (lists 2)) :=
  .opened :: connectingCall firstOfTwo LOCAL_DATABASE_URL ++
    connectingCall secondOfTwo LOCAL_DATABASE_URL ++
    connectedCall secondOfTwo LOCAL_DATABASE_URL 0 ++
    [.call secondOfTwo (.begins (.handler 0 .select))] ++
    refusedCall errorString firstOfTwo LOCAL_DATABASE_URL failedToConnect

/-- That is enough for the response; the pool waits for the statement. -/
def waitedLog : List (RequestEvent (lists 2)) :=
  refusedLog ++ .responded :: [.releasing 0,
    .call secondOfTwo (.answers (.handler 0 .select) noRows), .call secondOfTwo (.ends emptyList),
    .disconnected, .interruptedCalls, .closed]

/-- A call that lists the users once it has its connection. -/
def listing (conn : Connection) : Eff (CallSig (DbSig String) String) (CallError RpcError) String
    UsersList :=
  .perform (.handler conn .select) fun r => .exit ((allRows r).mapFail .inr)

theorem provideDatabase_listUsers (conn : Connection) :
    provideDatabase conn (Rpc.listUsers : DbEff String RpcError UsersList) = listing conn := by
  rw [rpc_listUsers_eq]
  rfl

theorem requestRun_listing {n : Nat} {log : List (RequestEvent (lists n))} {c : (lists n).Index}
    {fs : List Finalizer}
    {fibers : (lists n).Index → Fiber (CallSig (DbSig String) String) (CallError RpcError) String
      UsersList}
    {k : Exit SqlError String Connection → Eff (CallSig (DbSig String) String) (CallError RpcError)
      String UsersList}
    (h : RequestRun (databaseMiddleware errorString) (lists n) log ⟨.opened fs, fibers, [], false⟩)
    (hc : fibers c = .busy (.pgClientMake LOCAL_DATABASE_URL) k)
    (hk : Connects errorString ((lists n).handlers.get c) k) (conn : Connection) :
    RequestRun (databaseMiddleware errorString) (lists n)
      (log ++ connectedCall c LOCAL_DATABASE_URL conn ++
        [.call c (.begins (.handler conn .select))])
      ⟨.opened (.release conn :: fs), Function.update fibers c (.busy (.handler conn .select)
        fun r => .exit ((allRows r).mapFail .inr)), [], false⟩ := by
  have hhandler : (lists n).handlers.get c = Rpc.listUsers := List.getElem_replicate ..
  have h := requestRun_connected h hc hk conn
  rw [hhandler, provideDatabase_listUsers] at h
  have h := requestRun_call h (Function.update_self ..) (.begins _ _) ⟨by simp, trivial⟩
  simpa [RequestState.afterCall, scopeAfter, lateAfter, acquired] using h

theorem refused_run : ∃ fibers, RequestRun (databaseMiddleware errorString) (lists 2) refusedLog
      ⟨.opened [.release 0, .disconnect, .interruptCalls], fibers, [], false⟩ ∧
    fibers firstOfTwo = .ended refusedExit ∧
    fibers secondOfTwo = .busy (.handler 0 .select) fun r => .exit ((allRows r).mapFail .inr) := by
  have h := lists_opened 2
  obtain ⟨k₀, hk₀, h⟩ := requestRun_connecting h rfl (c := firstOfTwo) rfl
  obtain ⟨k₁, hk₁, h⟩ := requestRun_connecting h rfl (c := secondOfTwo) rfl
  have h := requestRun_listing h (c := secondOfTwo) rfl hk₁ 0
  have h := requestRun_refused h (c := firstOfTwo) rfl hk₀ failedToConnect
  exact ⟨_, by simpa [refusedLog] using h, rfl, rfl⟩

theorem waited_run : ∃ s, RequestRun (databaseMiddleware errorString) (lists 2) waitedLog s ∧
    s.scope = .closed ∧ s.failed = false ∧ s.fibers firstOfTwo = .ended refusedExit ∧
    s.fibers secondOfTwo = .ended emptyList := by
  obtain ⟨fibers, h, hfirst, hsecond⟩ := refused_run
  have hstarted : ∀ c, fibers c ≠ .waiting := by
    intro c hc
    rcases first_or_second c with rfl | rfl
    · rw [hc] at hfirst
      cases hfirst
    · rw [hsecond] at hc
      cases hc
  have hresponds : Responds (r := lists 2)
      ⟨.opened [.release 0, .disconnect, .interruptCalls], fibers, [], false⟩ :=
    ⟨hstarted, .inr ⟨firstOfTwo, (congrArg Fiber.hasEnded hfirst).trans rfl⟩⟩
  have h := h.snoc (.responded _ _ _ _ rfl rfl hresponds)
  have h := h.snoc (.releasing _ _ _ rfl)
  have h := requestRun_answers h hsecond (by simp) noRows
  have h := requestRun_call h (Function.update_self ..) (.ends emptyList)
    ⟨by simp [RequestState.afterCall, lateAfter, acquired], trivial⟩
  change RequestRun _ _ _ ⟨.closing [.disconnect, .interruptCalls],
    Function.update (Function.update fibers secondOfTwo _) secondOfTwo (.ended emptyList), [],
    false⟩ at h
  rw [Function.update_idem] at h
  have hended : ∀ c, (Function.update fibers secondOfTwo (.ended emptyList) c).hasEnded = true := by
    intro c
    rcases first_or_second c with rfl | rfl
    · exact (congrArg Fiber.hasEnded hfirst).trans rfl
    · rfl
  have h := h.snoc (.disconnected _ _ rfl)
  have h := h.snoc (.interruptedCalls _ _ rfl fun c => active_of_hasEnded (hended c))
  have h := h.snoc (.closed _ rfl)
  exact ⟨_, by simpa [waitedLog] using h, rfl, by simp [disconnectFails, hended], hfirst, rfl⟩

theorem waitedLog_closes : ClosesAfterStatements (databaseMiddleware errorString) waitedLog := by
  obtain ⟨fibers, h, hfirst, hsecond⟩ := refused_run
  refine closesAfterStatements_of_split ?_ ?_ h fun c => ?_
  · simp [refusedLog, connectingCall, connectedCall, refusedCall, RequestEvent.closes]
  · simp [RequestEvent.closes]
  · rcases first_or_second c with rfl | rfl
    · exact Fiber.finishing_of_hasEnded ((congrArg Fiber.hasEnded hfirst).trans rfl)
    · change (fibers secondOfTwo).Finishing
      rw [hsecond]
      exact fun a => ⟨_, rfl⟩

theorem waitedLog_fails : FailsWithErrors waitedLog := by
  intro c url cause hm
  obtain ⟨-, -, rfl⟩ : c = firstOfTwo ∧ url = LOCAL_DATABASE_URL ∧ cause = failedToConnect := by
    simpa [waitedLog, refusedLog, connectingCall, connectedCall, refusedCall] using hm
  exact Cause.caught_fail _

/-- The one call keeps its connection until its statement is answered, although
the scope of its body has been closing since before. -/
theorem fetchConnections_private_waited :
    ∃ (w : World (DbSig String) RpcError String UsersList) (s : _),
      w.requests 0 = some ⟨lists 2, databaseMiddleware errorString, waitedLog, s⟩ ∧
      w.ConnectionsPrivate errorString := by
  obtain ⟨s, hrun, -⟩ := waited_run
  obtain ⟨w, hw, -, hrequests⟩ := reachable_of_run hrun rfl
  have honly : ∀ k inv, w.requests k = some inv →
      inv = ⟨lists 2, databaseMiddleware errorString, waitedLog, s⟩ := by
    intro k inv hk
    rw [hrequests] at hk
    by_cases h0 : k = 0
    · subst h0
      rw [Function.update_self] at hk
      exact (Option.some.inj hk).symm
    · rw [Function.update_of_ne h0] at hk
      cases hk
  refine ⟨w, s, by rw [hrequests, Function.update_self], fetchConnections_private hw ?_ ?_⟩
  · intro k inv hk
    obtain rfl := honly k inv hk
    exact waitedLog_fails
  · intro k inv hk
    obtain rfl := honly k inv hk
    exact waitedLog_closes

def firstOfThree : (lists 3).Index := ⟨0, by decide⟩

def secondOfThree : (lists 3).Index := ⟨1, by decide⟩

def thirdOfThree : (lists 3).Index := ⟨2, by decide⟩

/-- The first call fails to connect while the second makes its statement and the
third connects. -/
def overlappingLog : List (RequestEvent (lists 3)) :=
  .opened :: connectingCall firstOfThree LOCAL_DATABASE_URL ++
    connectingCall secondOfThree LOCAL_DATABASE_URL ++
    connectingCall thirdOfThree LOCAL_DATABASE_URL ++
    connectedCall secondOfThree LOCAL_DATABASE_URL 0 ++
    [.call secondOfThree (.begins (.handler 0 .select))] ++
    refusedCall errorString firstOfThree LOCAL_DATABASE_URL failedToConnect

/-- The pool of the second call waits for the statement. Meanwhile the third
call gets a connection, which has to be released at once. -/
def lateLog : List (RequestEvent (lists 3)) :=
  overlappingLog ++ [.responded, .releasing 0,
    .call thirdOfThree (.answers (.pgClientMake LOCAL_DATABASE_URL) (.success 1)), .releasing 1,
    .call thirdOfThree (.begins (.pgDrizzleMake 1)),
    .call thirdOfThree (.answers (.pgDrizzleMake 1) (.success ()))]

/-- The third call then makes its statement. -/
def lateStatement : RequestEvent (lists 3) := .call thirdOfThree (.begins (.handler 1 .select))

theorem overlapping_run : ∃ fibers k, RequestRun (databaseMiddleware errorString) (lists 3)
      overlappingLog ⟨.opened [.release 0, .disconnect, .interruptCalls], fibers, [], false⟩ ∧
    (∀ c, fibers c ≠ .waiting) ∧ (fibers firstOfThree).hasEnded = true ∧
    fibers thirdOfThree = .busy (.pgClientMake LOCAL_DATABASE_URL) k ∧
    Connects errorString ((lists 3).handlers.get thirdOfThree) k := by
  have h := lists_opened 3
  obtain ⟨k₀, hk₀, h⟩ := requestRun_connecting h rfl (c := firstOfThree) rfl
  obtain ⟨k₁, hk₁, h⟩ := requestRun_connecting h rfl (c := secondOfThree) rfl
  obtain ⟨k₂, hk₂, h⟩ := requestRun_connecting h rfl (c := thirdOfThree) rfl
  have h := requestRun_listing h (c := secondOfThree) rfl hk₁ 0
  have h := requestRun_refused h (c := firstOfThree) rfl hk₀ failedToConnect
  refine ⟨_, k₂, by simpa [overlappingLog] using h, fun c hc => ?_, rfl, rfl, hk₂⟩
  have hall : ∀ c : (lists 3).Index, c = firstOfThree ∨ c = secondOfThree ∨ c = thirdOfThree := by
    decide
  rcases hall c with rfl | rfl | rfl
  · change Fiber.ended _ = _ at hc
    cases hc
  · change Fiber.busy _ _ = _ at hc
    cases hc
  · change Fiber.busy _ _ = _ at hc
    cases hc

theorem late_run :
    ∃ s, RequestRun (databaseMiddleware errorString) (lists 3) (lateLog ++ [lateStatement]) s := by
  obtain ⟨fibers, k, h, hstarted, hfirst, hthird, hk⟩ := overlapping_run
  obtain ⟨k', hdrizzle, hsuccess, -⟩ := hk.connected 1
  have h := h.snoc (.responded _ _ _ _ rfl rfl ⟨hstarted, .inr ⟨firstOfThree, hfirst⟩⟩)
  have h := h.snoc (.releasing _ _ _ rfl)
  have h := requestRun_answers h hthird (by simp) (.success 1 : Exit SqlError String Connection)
  have h := h.snoc (.releasingLate _ thirdOfThree 1 [] [] rfl)
  change RequestRun _ _ _ ⟨.closing [.disconnect, .interruptCalls], _, [], false⟩ at h
  have h := requestRun_call h (f := .ready (.perform (.pgDrizzleMake 1) k'))
    ((Function.update_self ..).trans (congrArg Fiber.ready hdrizzle)) (.begins _ k')
    ⟨by simp, trivial⟩
  change RequestRun _ _ _ ⟨.closing [.disconnect, .interruptCalls], _, [], false⟩ at h
  have h := requestRun_answers h (o := .pgDrizzleMake 1) (k := k') (Function.update_self ..)
    (by simp) (.success ())
  change RequestRun _ _ _ ⟨.closing [.disconnect, .interruptCalls], _, [], false⟩ at h
  have hhandler : (lists 3).handlers.get thirdOfThree = Rpc.listUsers := List.getElem_replicate ..
  rw [hsuccess, hhandler, provideDatabase_listUsers] at h
  have h := requestRun_call h (Function.update_self ..) (.begins _ _) ⟨by simp, trivial⟩
  exact ⟨_, by simpa [lateLog, lateStatement] using h⟩

theorem overlappingCalls_notPrivate :
    ∃ (w : World (DbSig String) RpcError String UsersList) (s : _),
    World.Reachable errorString w ∧
    w.requests 0 =
      some ⟨lists 3, databaseMiddleware errorString, lateLog ++ [lateStatement], s⟩ ∧
    ¬ w.ConnectionsPrivate errorString := by
  obtain ⟨s, hrun⟩ := late_run
  obtain ⟨w, hw, -, hrequests⟩ := reachable_of_run hrun rfl
  have h0 : w.requests 0 =
      some ⟨lists 3, databaseMiddleware errorString, lateLog ++ [lateStatement], s⟩ := by
    rw [hrequests, Function.update_self]
  refine ⟨w, s, hw, h0, fun hprivate => ?_⟩
  exact hprivate.used 0 _ h0 lateLog thirdOfThree 1 .select [] rfl (by simp [lateLog])

end EffectWorker.Fetch
