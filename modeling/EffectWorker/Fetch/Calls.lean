import EffectWorker.Worker.Bindings

/-! One call: an HTTP request to the users group or one call of an RPC body.
The middleware runs first and opens the connection, the handler runs with the
connection it was given. Both live layers only build the middleware's effect;
nothing is opened until a call runs it. -/

namespace EffectWorker.Fetch

open Effect Worker

/-- The operations of a call. What the handler does is tagged with the
connection that its context provides. -/
inductive CallOp (S : Sig)
  | pgClientMake (url : String)
  | pgDrizzleMake (conn : Connection)
  | handler (conn : Connection) (o : S.Op)

@[reducible] def CallOp.Ans {S : Sig} (U : Type) : CallOp S → Type
  | .pgClientMake _ => Exit SqlError U Connection
  | .pgDrizzleMake _ => Exit Empty U Unit
  | .handler _ o => S.Ans o

abbrev CallSig (S : Sig) (U : Type) : Sig := ⟨CallOp S, CallOp.Ans U⟩

/-- The connection an operation uses. -/
def CallOp.connection {S : Sig} : CallOp S → Option Connection
  | .pgClientMake _ => none
  | .pgDrizzleMake conn | .handler conn _ => some conn

/-- The error of a call: its middleware's or its handler's. -/
abbrev CallError (E : Type) := DatabaseConnectionError ⊕ E

section Calls

variable {S : Sig} {E U A : Type}

instance : Throwable DatabaseConnectionError String := ⟨DatabaseConnectionError.message⟩

def makeDatabaseConnection (connectionString : String) :
    Eff (CallSig S U) SqlError U Connection :=
  .perform (.pgClientMake connectionString) fun
    | .failure cause => .failCause cause
    | .success pgClient => .perform (.pgDrizzleMake pgClient) fun
      | .failure cause => .failCause (cause.map Empty.elim)
      | .success _ => .succeed pgClient

/-- An effect that reads `currentEnv` of the fiber it runs in. -/
abbrev MiddlewareEffect (S : Sig) (U : Type) :=
  Option Env → Eff (CallSig S U) DatabaseConnectionError U Connection

section Middleware

variable [Throwable DatabaseConnectionError U] [Throwable SqlError U]

/-- What both layers hold. `string` is the built-in `String` on the two errors. -/
def databaseMiddleware (string : DatabaseConnectionError ⊕ SqlError → String) :
    MiddlewareEffect S U := fun env =>
  Eff.catchAll
    (match connectionStringOf env with
      | .error error => .fail (.inl error)
      | .ok connectionString => (makeDatabaseConnection connectionString).rename .inr id)
    fun error => .fail ⟨"Database connection failed: " ++ string error⟩

def DatabaseMiddlewareLive (string : DatabaseConnectionError ⊕ SqlError → String) :
    Eff (CallSig S U) Empty U (MiddlewareEffect S U) :=
  .succeed (databaseMiddleware string)

def RpcDatabaseMiddlewareLive (string : DatabaseConnectionError ⊕ SqlError → String) :
    Eff (CallSig S U) Empty U (MiddlewareEffect S U) :=
  .succeed (databaseMiddleware string)

end Middleware

def provideDatabase (conn : Connection) :
    Eff S E U A → Eff (CallSig S U) (CallError E) U A
  | .exit x => .exit (x.mapFail .inr)
  | .perform o k => .perform (.handler conn o) fun r => provideDatabase conn (k r)

/-- The handler with the middleware's effect in front of it. -/
def callProgram (middleware : MiddlewareEffect S U) (env : Option Env) (handler : Eff S E U A) :
    Eff (CallSig S U) (CallError E) U A :=
  (middleware env).matchCauseEffect (fun cause => .failCause (cause.map .inl))
    fun conn => provideDatabase conn handler

/-! ## What a call goes through -/

/-- How a call ends whose connection could not be made. -/
def connectionCause [Throwable SqlError U] (string : DatabaseConnectionError ⊕ SqlError → String)
    (cause : Cause SqlError U) : Cause (CallError E) U :=
  match cause.failureOption with
  | some error =>
    if cause.HasDie then cause.electFailures
    else .fail (.inl ⟨"Database connection failed: " ++ string (.inr error)⟩)
  | none => cause.electFailures

theorem connectionCause_caught [Throwable SqlError U]
    (string : DatabaseConnectionError ⊕ SqlError → String) {cause : Cause SqlError U}
    (h : cause.Caught) {error : SqlError} (herror : cause.failureOption = some error) :
    (connectionCause string cause : Cause (CallError E) U) =
      .fail (.inl ⟨"Database connection failed: " ++ string (.inr error)⟩) := by
  unfold connectionCause
  rw [herror]
  exact if_neg h.2

theorem connectionCause_uncaught [Throwable SqlError U]
    (string : DatabaseConnectionError ⊕ SqlError → String) {cause : Cause SqlError U}
    (h : ¬ cause.Caught) :
    (connectionCause string cause : Cause (CallError E) U) = cause.electFailures := by
  unfold connectionCause
  cases herror : cause.failureOption with
  | none => rfl
  | some error =>
    have hdie : cause.HasDie := by
      by_contra hdie
      exact h ⟨Cause.hasFail_of_error herror, hdie⟩
    exact if_pos hdie

/-- The answers a call has had, and what it has become. -/
inductive CallPath [Throwable SqlError U] (string : DatabaseConnectionError ⊕ SqlError → String) :
    List (Answered (CallSig S U)) → Eff (CallSig S U) (CallError E) U A → Prop
  | unavailable (error) : CallPath string [] (.exit (.failure (.fail (.inl error))))
  | start (url k) : CallPath string [] (.perform (.pgClientMake url) k)
  | refused (url cause) : CallPath string [⟨.pgClientMake url, .failure cause⟩]
      (.exit (.failure (connectionCause string cause)))
  | connected (url conn as q) : (∀ a ∈ as, a.1.connection = some conn) →
      (∀ o k, q = .perform o k → o.connection = some conn) →
      CallPath string (⟨.pgClientMake url, .success conn⟩ :: as) q

theorem provideDatabase_path (conn : Connection) (p : Eff S E U A)
    {as : List (Answered (CallSig S U))} {q : Eff (CallSig S U) (CallError E) U A}
    (h : Eff.Path (provideDatabase conn p) as q) :
    (∀ a ∈ as, a.1.connection = some conn) ∧
      ∀ o k, q = .perform o k → o.connection = some conn := by
  induction p generalizing as with
  | exit x =>
    obtain ⟨rfl, rfl⟩ := Eff.path_exit h
    exact ⟨by simp, fun o k hq => by cases hq⟩
  | perform o k ih =>
    rcases Eff.path_perform h with ⟨rfl, rfl⟩ | ⟨r, as', rfl, htail⟩
    · refine ⟨by simp, fun o' k' hq => ?_⟩
      cases hq
      rfl
    · obtain ⟨has, hq⟩ := ih r htail
      refine ⟨fun a ha => ?_, hq⟩
      rcases List.mem_cons.mp ha with rfl | ha
      · rfl
      · exact has a ha

section Middleware

variable [Throwable DatabaseConnectionError U] [Throwable SqlError U]

/-- The middleware turns a failed attempt into its own error. -/
theorem callProgram_refused (string : DatabaseConnectionError ⊕ SqlError → String)
    (cause : Cause SqlError U) (next : Connection → Eff (CallSig S U) (CallError E) U A) :
    ((((Eff.failCause cause : Eff (CallSig S U) SqlError U Connection).rename .inr id).catchAll
      fun error => Eff.fail ⟨"Database connection failed: " ++ string error⟩).matchCauseEffect
        (fun cause => .failCause (cause.map .inl)) next) =
      .exit (.failure (connectionCause string cause)) := by
  rw [Eff.failCause, Eff.rename_exit, Exit.rename]
  by_cases hcaught : cause.Caught
  · obtain ⟨error, herror⟩ := hcaught.1.exists_error
    have hmapped : (cause.map (.inr : _ → DatabaseConnectionError ⊕ SqlError)).failureOption =
        some (.inr error) := by
      rw [Cause.failureOption_map, herror]
      rfl
    rw [Eff.catchAll_caught ((Cause.caught_map ..).mpr hcaught) hmapped,
      connectionCause_caught string hcaught herror]
    rfl
  · rw [Eff.catchAll_uncaught (by rwa [Cause.caught_map]), connectionCause_uncaught string hcaught,
      Cause.electFailures_map (f := (Sum.inr : _ → DatabaseConnectionError ⊕ _)) fun _ => rfl]
    simp [Eff.failCause]

/-- What comes after the attempt to connect. -/
structure Connects (string : DatabaseConnectionError ⊕ SqlError → String) (handler : Eff S E U A)
    (k : Exit SqlError U Connection → Eff (CallSig S U) (CallError E) U A) : Prop where
  refused : ∀ cause, k (.failure cause) = .exit (.failure (connectionCause string cause))
  connected : ∀ conn, ∃ k' : (CallSig S U).Ans (.pgDrizzleMake conn) →
    Eff (CallSig S U) (CallError E) U A, k (.success conn) = .perform (.pgDrizzleMake conn) k' ∧
      (k' (.success ()) = provideDatabase conn handler) ∧
      ∀ cause, ∃ cause', k' (.failure cause) = .exit (.failure cause')

theorem callProgram_some (string : DatabaseConnectionError ⊕ SqlError → String) (env : Env)
    (handler : Eff S E U A) :
    ∃ k, callProgram (databaseMiddleware string) (some env) handler =
      .perform (.pgClientMake env.connectionString) k ∧ Connects string handler k := by
  refine ⟨_, rfl, fun cause => ?_, fun conn => ⟨_, rfl, rfl, fun cause => ?_⟩⟩
  · exact callProgram_refused string cause _
  · exact ⟨_, callProgram_refused string (cause.map Empty.elim) _⟩

theorem callProgram_path {string : DatabaseConnectionError ⊕ SqlError → String}
    (env : Option Env) (handler : Eff S E U A) {as : List (Answered (CallSig S U))}
    {q : Eff (CallSig S U) (CallError E) U A}
    (h : Eff.Path (callProgram (databaseMiddleware string) env handler) as q) :
    CallPath string as q := by
  cases env with
  | none =>
    obtain ⟨rfl, rfl⟩ := Eff.path_exit h
    exact .unavailable _
  | some env =>
    obtain ⟨k, hprogram, hk⟩ := callProgram_some string env handler
    rw [hprogram] at h
    rcases Eff.path_perform h with ⟨rfl, rfl⟩ | ⟨r, as', rfl, hmade⟩
    · exact .start _ _
    cases r with
    | failure cause =>
      rw [hk.refused] at hmade
      obtain ⟨rfl, rfl⟩ := Eff.path_exit hmade
      exact .refused _ _
    | success conn =>
      suffices hrest : (∀ a ∈ as', a.1.connection = some conn) ∧
          ∀ o k, q = .perform o k → o.connection = some conn from
        .connected _ _ _ _ hrest.1 hrest.2
      obtain ⟨k', hdrizzle, hsuccess, hfailure⟩ := hk.connected conn
      rw [hdrizzle] at hmade
      rcases Eff.path_perform hmade with ⟨rfl, rfl⟩ | ⟨r, as'', rfl, hrest⟩
      · refine ⟨by simp, fun o k hq => ?_⟩
        cases hq
        rfl
      cases r with
      | failure cause =>
        obtain ⟨cause', hexit⟩ := hfailure cause
        rw [hexit] at hrest
        obtain ⟨rfl, rfl⟩ := Eff.path_exit hrest
        exact ⟨by simp [CallOp.connection], fun o k hq => by cases hq⟩
      | success _ =>
        rw [hsuccess] at hrest
        obtain ⟨has, hq⟩ := provideDatabase_path conn handler hrest
        refine ⟨fun a ha => ?_, hq⟩
        rcases List.mem_cons.mp ha with rfl | ha
        · rfl
        · exact has a ha

end Middleware

end Calls

end EffectWorker.Fetch
