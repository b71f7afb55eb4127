import EffectWorker.Fetch.Runtimes

/-! The answers of an RPC request. The server writes the exit of each call to the
mailbox of its client, also while the scope is closing, and the body of the
response is what is in the mailbox. But the response is there with the first
call that ends; if another call has not ended when the app tells the server that
the client is gone, `fetch` rejects and all answers are lost. -/

namespace EffectWorker.Fetch

open Effect Worker Users

/-- A message to the client. -/
inductive Message (I E U A : Type)
  | exit (call : I) (result : Exit (CallError E) U A)
  | defect

/-- What has been written for a client, and the calls it still has. The body of
the response ends when there are none. -/
structure Mailbox (I E U A : Type) where
  messages : List (Message I E U A)
  left : List I

section Mailboxes

variable {I E U A : Type}

/-- Whether the exit is written as a defect, which names no call. -/
def writtenAsDefect (fatal : Cause (CallError E) U → Bool) : Exit (CallError E) U A → Bool
  | .success _ => false
  | .failure cause => fatal cause

def Mailbox.write [DecidableEq I] (fatal : Cause (CallError E) U → Bool) (m : Mailbox I E U A)
    (c : I) (x : Exit (CallError E) U A) : Mailbox I E U A where
  messages := m.messages ++ [if writtenAsDefect fatal x then .defect else .exit c x]
  left := m.left.erase c

def Message.isExitOf [DecidableEq I] (c : I) : Message I E U A → Bool
  | .exit c' _ => c' = c
  | .defect => false

/-- One exit for each call, and an end. -/
structure Mailbox.Complete [DecidableEq I] (m : Mailbox I E U A) : Prop where
  exits : ∀ c, m.messages.countP (Message.isExitOf c) = 1
  ended : m.left = []

end Mailboxes

section Answers

variable {S : Sig} {E U A : Type} {r : Request S E U A} {log before after : List (RequestEvent r)}
  {s s' : RequestState r} {e : RequestEvent r}

def RequestEvent.post (fatal : Cause (CallError E) U → Bool) (m : Mailbox r.Index E U A) :
    RequestEvent r → Mailbox r.Index E U A
  | .call c e =>
    match e.ending with
    | some x => m.write fatal c x
    | none => m
  | _ => m

/-- The mailbox of the client after the events. -/
def mailbox (fatal : Cause (CallError E) U → Bool) (log : List (RequestEvent r)) :
    Mailbox r.Index E U A :=
  log.foldl (RequestEvent.post fatal) ⟨[], List.finRange _⟩

/-- What the promise of `fetch` comes to once the scope is closed: the body of
the response, or nothing when it rejects. -/
def settled (fatal : Cause (CallError E) U → Bool) (log : List (RequestEvent r))
    (s : RequestState r) : Option (Mailbox r.Index E U A) :=
  if s.failed then none else some (mailbox fatal log)

/-- The client gets one exit for each of its calls, and an end. -/
def AllAnswered (fatal : Cause (CallError E) U → Bool) (log : List (RequestEvent r))
    (s : RequestState r) : Prop :=
  ∃ m, settled fatal log s = some m ∧ m.Complete

/-- Every call has ended before the server is told that the client is gone. -/
def EndsInTime (log : List (RequestEvent r)) : Prop :=
  ∀ before after, log = before ++ .disconnected :: after → ∀ c, HasEnded c before

/-- No call has ended in a cause that is written as a defect. -/
def EndsCleanly (fatal : Cause (CallError E) U → Bool) (log : List (RequestEvent r)) : Prop :=
  ∀ c e x, .call c e ∈ log → e.ending = some x → writtenAsDefect fatal x = false

/-! ## The mailbox -/

variable {middleware : MiddlewareEffect S U} {fatal : Cause (CallError E) U → Bool}

theorem mailbox_snoc (log : List (RequestEvent r)) (e : RequestEvent r) :
    mailbox fatal (log ++ [e]) = e.post fatal (mailbox fatal log) := by
  simp [mailbox, List.foldl_append]

/-- How many exits are written for a call. -/
def written (fatal : Cause (CallError E) U → Bool) :
    Fiber (CallSig S U) (CallError E) U A → Nat
  | .ended x => if writtenAsDefect fatal x then 0 else 1
  | .waiting | .ready _ | .busy _ _ => 0

theorem written_of_running {f : Fiber (CallSig S U) (CallError E) U A} (h : f.hasEnded = false) :
    written fatal f = 0 := by
  cases f with
  | ended x => cases h
  | waiting | ready p | busy o k => rfl

/-- The mailbox has an exit for each call that has ended and still has the others. -/
structure MailboxSound (fatal : Cause (CallError E) U → Bool) (m : Mailbox r.Index E U A)
    (s : RequestState r) : Prop where
  exits : ∀ c, m.messages.countP (Message.isExitOf c) = written fatal (s.fibers c)
  left : ∀ c, c ∈ m.left ↔ (s.fibers c).hasEnded = false
  nodup : m.left.Nodup

theorem mailboxSound_write {m : Mailbox r.Index E U A} (h : MailboxSound fatal m s)
    {c : r.Index} (hc : (s.fibers c).hasEnded = false) (x : Exit (CallError E) U A)
    (hfibers : s'.fibers = Function.update s.fibers c (.ended x)) :
    MailboxSound fatal (m.write fatal c x) s' := by
  have hexit : ∀ c', Message.isExitOf c' (if writtenAsDefect fatal x then .defect
      else .exit c x : Message r.Index E U A) =
        (decide (c = c') && !writtenAsDefect fatal x) := by
    intro c'
    cases writtenAsDefect fatal x <;> simp [Message.isExitOf]
  refine ⟨fun c' => ?_, fun c' => ?_, h.nodup.erase c⟩
  · rw [Mailbox.write, List.countP_append, h.exits c', hfibers, List.countP_singleton, hexit]
    by_cases hcc : c = c'
    · subst hcc
      rw [Function.update_self, written_of_running hc, written]
      cases writtenAsDefect fatal x <;> simp
    · simp [Function.update_of_ne (Ne.symm hcc), hcc]
  · rw [Mailbox.write, h.nodup.mem_erase_iff, h.left c', hfibers]
    by_cases hcc : c' = c
    · subst hcc
      simp [Fiber.hasEnded]
    · simp [hcc]

theorem requestRun_mailbox (h : RequestRun middleware r log s) :
    MailboxSound fatal (mailbox fatal log) s := by
  induction h with
  | nil => exact ⟨fun c => rfl, fun c => by simp [mailbox, RequestState.initial, Fiber.hasEnded],
      List.nodup_finRange _⟩
  | @snoc log s e s' _ hs ih =>
    rw [mailbox_snoc]
    rcases requestStep_fibers hs with ⟨hfibers, hcall⟩ | ⟨c, e', f, rfl, hstep, -, rfl⟩
    · have hpost : e.post fatal (mailbox fatal log) = mailbox fatal log := by
        cases e with
        | call c e' => exact absurd rfl (hcall c e')
        | _ => rfl
      rw [hpost]
      exact ⟨fun c => by rw [ih.exits, hfibers], fun c => by rw [ih.left, hfibers], ih.nodup⟩
    · have hrunning := (fiberStep_hasEnded hstep).1
      rw [RequestEvent.post]
      cases hending : e'.ending with
      | some x =>
        refine mailboxSound_write ih hrunning x ?_
        rw [RequestState.afterCall, (fiberStep_ending hstep x).mp hending]
      | none =>
        have hf : f.hasEnded = false := by
          rw [(fiberStep_hasEnded hstep).2, hending]
          rfl
        refine ⟨fun c' => ?_, fun c' => ?_, ih.nodup⟩ <;> by_cases hc : c' = c
        · subst hc
          simp [ih.exits, RequestState.afterCall, written_of_running hf,
            written_of_running hrunning]
        · simp [ih.exits, RequestState.afterCall, Function.update_of_ne hc]
        · subst hc
          simp [ih.left, RequestState.afterCall, hf, hrunning]
        · simp [ih.left, RequestState.afterCall, Function.update_of_ne hc]

/-! ## When the promise rejects -/

theorem endsInTime_snoc (log : List (RequestEvent r)) (e : RequestEvent r) :
    EndsInTime (log ++ [e]) ↔ EndsInTime log ∧ (e = .disconnected → ∀ c, HasEnded c log) := by
  constructor
  · refine fun h => ⟨fun before after hlog => ?_, fun he => h log [] (by rw [he])⟩
    exact h before (after ++ [e]) (by rw [hlog, List.append_assoc, List.cons_append])
  · rintro ⟨hlog, he⟩ before after hsplit
    rcases snoc_eq_append_cons hsplit with ⟨rfl, rfl, -⟩ | ⟨after', -, hbefore⟩
    · exact he rfl
    · exact hlog before after' hbefore

/-- A finalizer fails if and only if a call had not ended when it ran. -/
theorem requestRun_failed (h : RequestRun middleware r log s) :
    s.failed = false ↔ EndsInTime log := by
  induction h with
  | nil => simp [RequestState.initial, EndsInTime]
  | @snoc log s e s' hr hs ih =>
    rw [endsInTime_snoc, ← ih]
    cases hs with
    | disconnected fs hscope =>
      simp [disconnectFails, hasEnded_iff hr]
    | opened | call | responded | exited | releasing | releasingLate | interruptedCalls | closed =>
      simp [RequestState.afterCall]

/-- The app tells the server before the scope of an RPC request is closed. -/
theorem requestRun_disconnects {env : Option Env} {calls : List (Eff S E U A)}
    {log : List (RequestEvent (.rpc env calls))} {s : RequestState (.rpc env calls)}
    (h : RequestRun middleware (.rpc env calls) log s) :
    s.scope = .unopened ∨ .disconnect ∈ s.scope.finalizers ∨ .disconnected ∈ log := by
  induction h with
  | nil => exact .inl rfl
  | @snoc log s e s' hr hs ih =>
    have later : .disconnected ∈ log → .disconnected ∈ log ++ [e] := List.mem_append_left _
    cases hs with
    | opened => exact .inr (.inl (List.mem_cons_self ..))
    | call c e' f hstep hguard =>
      rcases ih with hscope | hfinalizer | hm
      · exact .inl (by simp [RequestState.afterCall, hscope, scopeAfter])
      · refine .inr (.inl ?_)
        change .disconnect ∈ (scopeAfter e' s.scope).finalizers
        cases hscope : s.scope with
        | unopened | closed => simp [hscope, ScopeState.finalizers] at hfinalizer
        | opened fs =>
          rw [hscope] at hfinalizer
          exact List.mem_append_right _ hfinalizer
        | closing fs =>
          rw [hscope] at hfinalizer
          exact hfinalizer
      · exact .inr (.inr (later hm))
    | disconnected => exact .inr (.inr (List.mem_append_right _ (List.mem_singleton_self _)))
    | releasingLate => exact ih.imp_right (Or.imp_right later)
    | responded fs _ _ _ hscope | exited fs _ _ _ hscope | closed hscope =>
      simp only [hscope, ScopeState.finalizers, reduceCtorEq, false_or] at ih
      exact .inr (ih.imp id later)
    | releasing _ _ hscope | interruptedCalls _ hscope =>
      simp only [hscope, ScopeState.finalizers, reduceCtorEq, List.mem_cons, false_or] at ih
      exact .inr (ih.imp id later)

theorem endsCleanly_iff (h : RequestRun middleware r log s) :
    EndsCleanly fatal log ↔ ∀ c x, s.fibers c = .ended x → writtenAsDefect fatal x = false := by
  simp only [← fiberRun_ending (requestRun_fiber h _), mem_callHistory]
  exact ⟨fun hclean c x ⟨e, hm, he⟩ => hclean c e x hm he,
    fun hclean c e x hm he => hclean c x ⟨e, hm, he⟩⟩

/-- The client gets all its answers if and only if every call had ended in time,
and none in a defect. -/
theorem requestRun_answered {env : Option Env} {calls : List (Eff S E U A)}
    {log : List (RequestEvent (.rpc env calls))} {s : RequestState (.rpc env calls)}
    (h : RequestRun middleware (.rpc env calls) log s) (hclosed : s.scope = .closed) :
    AllAnswered fatal log s ↔ EndsInTime log ∧ EndsCleanly fatal log := by
  have hmailbox : MailboxSound fatal (mailbox fatal log) s := requestRun_mailbox h
  rw [← requestRun_failed h, endsCleanly_iff h, AllAnswered, settled]
  constructor
  · rintro ⟨m, hm, hcomplete⟩
    cases hfailed : s.failed with
    | true => simp [hfailed] at hm
    | false =>
      simp only [hfailed, Bool.false_eq_true, if_false, Option.some.injEq] at hm
      subst hm
      refine ⟨rfl, fun c x hx => ?_⟩
      have hexits := hcomplete.exits c
      rw [hmailbox.exits, hx, written] at hexits
      cases hdefect : writtenAsDefect fatal x with
      | false => rfl
      | true => simp [hdefect] at hexits
  · rintro ⟨hfailed, hclean⟩
    have hended : ∀ c, (s.fibers c).hasEnded = true := by
      intro c
      have hdisconnected : .disconnected ∈ log := by
        simpa [hclosed, ScopeState.finalizers] using requestRun_disconnects h
      obtain ⟨before, after, hlog⟩ := List.append_of_mem hdisconnected
      obtain ⟨e, hm, he⟩ := (requestRun_failed h).mp hfailed before after hlog c
      refine (hasEnded_iff h c).mp ⟨e, ?_, he⟩
      rw [hlog]
      exact List.mem_append_left _ hm
    refine ⟨mailbox fatal log, by simp [hfailed], fun c => ?_, ?_⟩
    · rw [hmailbox.exits]
      cases hx : s.fibers c with
      | ended x => simp [written, hclean c x hx]
      | waiting | ready p | busy o k =>
        have hc := hended c
        simp [hx, Fiber.hasEnded] at hc
    · refine List.eq_nil_iff_forall_not_mem.mpr fun c hc => ?_
      rw [hmailbox.left, hended] at hc
      cases hc

/-! ## Which bodies are always answered -/

/-- The scope of an RPC request starts to close when a call has ended. -/
theorem requestRun_responded {env : Option Env} {calls : List (Eff S E U A)}
    {log : List (RequestEvent (.rpc env calls))} {s : RequestState (.rpc env calls)}
    (h : RequestRun middleware (.rpc env calls) log s) (hclosing : s.scope.isClosing = true) :
    calls = [] ∨ ∃ c, HasEnded c log := by
  rcases requestRun_closes h with ⟨hopen, -⟩ | ⟨-, e, he, hcl⟩
  · rw [hclosing] at hopen
    cases hopen
  obtain ⟨before, after, rfl⟩ := List.append_of_mem he
  obtain ⟨s₁, s₂, hbefore, hstep, -⟩ := h.split
  cases hstep with
  | responded fs env' calls' hr hscope hresponds =>
    refine hresponds.2.imp id fun ⟨c, hc⟩ => ?_
    obtain ⟨e, hm, hending⟩ := (hasEnded_iff hbefore c).mpr hc
    exact ⟨c, e, List.mem_append_left _ hm, hending⟩
  | exited fs env' handler hr => cases hr
  | opened | call | releasing | releasingLate | disconnected | interruptedCalls | closed =>
    cases hcl

/-- A single call has ended once the scope closes. -/
theorem requestRun_endsInTime {env : Option Env} {calls : List (Eff S E U A)}
    {log : List (RequestEvent (.rpc env calls))} {s : RequestState (.rpc env calls)}
    (h : RequestRun middleware (.rpc env calls) log s) (hfew : calls.length ≤ 1) :
    EndsInTime log := by
  intro before after hlog c
  subst hlog
  have hc : c.val < calls.length := c.isLt
  obtain ⟨s₁, s₂, hbefore, hstep, -⟩ := h.split
  have hclosing : s₁.scope.isClosing = true := by
    cases hstep with
    | disconnected fs hscope =>
      rw [hscope]
      rfl
  rcases requestRun_responded hbefore hclosing with rfl | ⟨c', hended⟩
  · exact c.elim0
  · have hc' : c'.val < calls.length := c'.isLt
    rwa [show c = c' from Fin.ext (by omega)]

variable [Throwable SqlError U] {string : DatabaseConnectionError ⊕ SqlError → String}

/-- A request whose first call has been refused its connection while the others run. -/
structure FirstRefused (string : DatabaseConnectionError ⊕ SqlError → String) (first : r.Index)
    (s : RequestState r) : Prop where
  scope : s.scope = .opened [.disconnect, .interruptCalls]
  late : s.late = []
  refused : s.fibers first = .ended (.failure (connectionCause string
    (.fail ⟨"PgClient: Failed to connect"⟩)))
  others : ∀ c ≠ first, (s.fibers c).active = true

theorem FirstRefused.responds {first : r.Index} (h : FirstRefused string first s) :
    Responds s := by
  refine ⟨fun c hc => ?_, .inr ⟨first, by rw [h.refused]; rfl⟩⟩
  by_cases hcc : c = first
  · rw [hcc, h.refused] at hc
    cases hc
  · simpa [hc, Fiber.active] using h.others c hcc

theorem FirstRefused.clean {first : r.Index} (h : FirstRefused string first s)
    (hfatal : ∀ cause, fatal cause = true → cause.HasDie) {c : r.Index}
    {x : Exit (CallError E) U A} (hx : s.fibers c = .ended x) :
    writtenAsDefect fatal x = false := by
  by_cases hc : c = first
  · rw [hc, h.refused] at hx
    cases hx
    exact Bool.eq_false_iff.mpr fun hdefect => hfatal _ hdefect
  · simpa [hx, Fiber.active] using h.others c hc

variable [Throwable DatabaseConnectionError U]

theorem requestRun_firstRefused (string : DatabaseConnectionError ⊕ SqlError → String)
    {env : Env} {calls : List (Eff S E U A)} (first : (Request.rpc (some env) calls).Index) :
    ∃ log s, RequestRun (databaseMiddleware string) (.rpc (some env) calls) log s ∧
      FirstRefused string first s := by
  have h : RequestRun (databaseMiddleware string) (.rpc (some env) calls) [.opened]
      ⟨.opened [.disconnect, .interruptCalls], fun _ => .waiting, [], false⟩ :=
    .single (.opened _ rfl)
  obtain ⟨k, hk, h⟩ := requestRun_connecting h rfl (c := first) rfl
  obtain ⟨log, ⟨scope, fibers, late, failed⟩, h, ⟨rfl, rfl, rfl, hfibers⟩, hstarted⟩ :=
    requestRun_started h rfl rfl
  dsimp only at hfibers hstarted
  have hfirst : fibers first = .busy (.pgClientMake env.connectionString) k := by
    simpa using hfibers first
  refine ⟨_, _, requestRun_refused h hfirst hk (.fail ⟨"PgClient: Failed to connect"⟩), rfl, rfl,
    Function.update_self .., fun c hc => ?_⟩
  dsimp only
  rw [Function.update_of_ne hc]
  rcases hfibers c with hsame | ⟨-, hactive⟩
  · rw [Function.update_of_ne hc] at hsame
    exact absurd hsame (hstarted c)
  · exact hactive

/-- Of two calls one may still be running when the end of the other one closes
the scope. -/
theorem rpc_rejected (env : Env) {calls : List (Eff S E U A)} (hcalls : 1 < calls.length)
    (string : DatabaseConnectionError ⊕ SqlError → String)
    (hfatal : ∀ cause, fatal cause = true → cause.HasDie) :
    ∃ (log : List (RequestEvent (.rpc (some env) calls))) (s : _),
      RequestRun (databaseMiddleware string) (.rpc (some env) calls) log s ∧
      s.scope = .closed ∧ EndsCleanly fatal log ∧ settled fatal log s = none := by
  let first : (Request.rpc (some env) calls).Index := ⟨0, Nat.lt_of_succ_lt hcalls⟩
  let second : (Request.rpc (some env) calls).Index := ⟨1, hcalls⟩
  have hne : second ≠ first := fun h => absurd (congrArg Fin.val h) Nat.one_ne_zero
  obtain ⟨before, s₁, hbefore, hrefused⟩ := requestRun_firstRefused string first
  have hresponded := hbefore.snoc (.responded s₁ _ _ _ rfl hrefused.scope hrefused.responds)
  have hdisconnected := hresponded.snoc (.disconnected _ _ rfl)
  obtain ⟨after, s, hrun, hinterrupted, hidle⟩ := requestRun_idle hdisconnected hrefused.late
  have hfinished :=
    (hrun.snoc (.interruptedCalls s _ hinterrupted.scope hidle)).snoc (.closed _ rfl)
  refine ⟨_, _, hfinished, rfl, (endsCleanly_iff hfinished).mpr fun c x hx => ?_, ?_⟩
  · rcases hinterrupted.ended c x hx with hold | rfl
    · exact hrefused.clean hfatal hold
    · exact Bool.eq_false_iff.mpr fun hdefect => hfatal _ hdefect
  · have hrunning : (s₁.fibers second).hasEnded = false := by
      have hactive := hrefused.others second hne
      cases hf : s₁.fibers second <;> simp [hf, Fiber.active, Fiber.hasEnded] at hactive ⊢
    refine if_pos (by_contra fun hfailed => ?_)
    have hintime := (requestRun_failed hfinished).mp (Bool.eq_false_iff.mpr hfailed)
    have hended := hintime (before ++ [.responded]) (after ++ [.interruptedCalls, .closed])
      (by simp) second
    rw [hasEnded_iff hresponded, hrunning] at hended
    cases hended

/-- When the scope of an RPC request is closed, its client has one exit for each
call and an end if and only if every call had ended before the server was told
that the client is gone, and none in a defect. Defects aside, this is so in every
order and timing for the bodies with at most one call, and for no others. -/
theorem rpcAnswers_complete_iff (fatal : Cause (CallError E) U → Bool)
    (hfatal : ∀ cause, fatal cause = true → cause.HasDie)
    (string : DatabaseConnectionError ⊕ SqlError → String) (env : Env)
    (calls : List (Eff S E U A)) :
    (∀ (log : List (RequestEvent (.rpc (some env) calls))) (s : _),
      RequestRun (databaseMiddleware string) (.rpc (some env) calls) log s → s.scope = .closed →
      (AllAnswered fatal log s ↔ EndsInTime log ∧ EndsCleanly fatal log)) ∧
    ((∀ (log : List (RequestEvent (.rpc (some env) calls))) (s : _),
      RequestRun (databaseMiddleware string) (.rpc (some env) calls) log s → s.scope = .closed →
      EndsCleanly fatal log → AllAnswered fatal log s) ↔ calls.length ≤ 1) := by
  refine ⟨fun log s h hclosed => requestRun_answered h hclosed, fun hall => ?_,
    fun hfew log s h hclosed hclean => ?_⟩
  · by_contra hmany
    obtain ⟨log, s, h, hclosed, hclean, hnone⟩ :=
      rpc_rejected env (not_le.mp hmany) string hfatal
    obtain ⟨m, hm, -⟩ := hall log s h hclosed hclean
    rw [hnone] at hm
    cases hm
  · exact (requestRun_answered h hclosed).mpr ⟨requestRun_endsInTime h hfew, hclean⟩

end Answers

/-- Causes with a defect are written as defects. -/
def hasDefect (cause : Cause (CallError RpcError) String) : Bool := decide cause.HasDie

/-- The pool waits for the statement, and both calls are answered. -/
theorem rpcAnswers_complete_waited : ∃ s,
    RequestRun (databaseMiddleware errorString) (lists 2) waitedLog s ∧
    s.scope = .closed ∧ AllAnswered hasDefect waitedLog s := by
  obtain ⟨s, hrun, hclosed, hfailed, hfirst, hsecond⟩ := waited_run
  have hclean : EndsCleanly hasDefect waitedLog := by
    refine (endsCleanly_iff hrun).mpr fun c x hx => ?_
    rcases first_or_second c with rfl | rfl
    · rw [hfirst] at hx
      cases hx
      rfl
    · rw [hsecond] at hx
      cases hx
      rfl
  exact ⟨s, hrun, hclosed, ((rpcAnswers_complete_iff hasDefect (fun _ => of_decide_eq_true)
    errorString localEnv (List.replicate 2 Rpc.listUsers)).1 waitedLog s hrun hclosed).mpr
      ⟨(requestRun_failed hrun).mp hfailed, hclean⟩⟩

/-- The first call fails to connect while the second one is still trying. -/
def connectingLog : List (RequestEvent (lists 2)) :=
  .opened :: connectingCall firstOfTwo LOCAL_DATABASE_URL ++
    connectingCall secondOfTwo LOCAL_DATABASE_URL ++
    refusedCall errorString firstOfTwo LOCAL_DATABASE_URL failedToConnect

def rejectedLog : List (RequestEvent (lists 2)) :=
  connectingLog ++ .responded :: [.disconnected,
    .call secondOfTwo (.answers (.pgClientMake LOCAL_DATABASE_URL) (.failure failedToConnect)),
    .call secondOfTwo .interrupted, .interruptedCalls, .closed]

theorem connecting_run : ∃ fibers k, RequestRun (databaseMiddleware errorString) (lists 2)
      connectingLog ⟨.opened [.disconnect, .interruptCalls], fibers, [], false⟩ ∧
    fibers firstOfTwo = .ended refusedExit ∧
    fibers secondOfTwo = .busy (.pgClientMake LOCAL_DATABASE_URL) k := by
  have h := lists_opened 2
  obtain ⟨k₀, hk₀, h⟩ := requestRun_connecting h rfl (c := firstOfTwo) rfl
  obtain ⟨k₁, hk₁, h⟩ := requestRun_connecting h rfl (c := secondOfTwo) rfl
  have h := requestRun_refused h (c := firstOfTwo) rfl hk₀ failedToConnect
  exact ⟨_, k₁, by simpa [connectingLog] using h, rfl, rfl⟩

/-- The promise rejects, and the exit of the first call is lost with the second's. -/
theorem overlappingCalls_rejected : ∃ s,
    RequestRun (databaseMiddleware errorString) (lists 2) rejectedLog s ∧ s.scope = .closed ∧
    EndsCleanly hasDefect rejectedLog ∧ settled hasDefect rejectedLog s = none ∧
    ¬ AllAnswered hasDefect rejectedLog s := by
  obtain ⟨fibers, k, h, hfirst, hsecond⟩ := connecting_run
  have hresponds : Responds (r := lists 2)
      ⟨.opened [.disconnect, .interruptCalls], fibers, [], false⟩ := by
    refine ⟨fun c hc => ?_, .inr ⟨firstOfTwo, (congrArg Fiber.hasEnded hfirst).trans rfl⟩⟩
    rcases first_or_second c with rfl | rfl
    · cases hfirst.symm.trans hc
    · cases hsecond.symm.trans hc
  have hfails : disconnectFails (r := lists 2)
      ⟨.closing [.disconnect, .interruptCalls], fibers, [], false⟩ = true := by
    have hrunning : (fibers secondOfTwo).hasEnded = false := by
      rw [hsecond]
      rfl
    simpa [disconnectFails] using ⟨secondOfTwo, hrunning⟩
  have h := h.snoc (.responded _ _ _ _ rfl rfl hresponds)
  have h := h.snoc (.disconnected _ _ rfl)
  have h := requestRun_answers h hsecond (by simp) (.failure failedToConnect)
  let refused : Fiber (CallSig (DbSig String) String) (CallError RpcError) String UsersList :=
    .ready (k (.failure failedToConnect))
  change RequestRun _ _ _ ⟨.closing [.interruptCalls], Function.update fibers secondOfTwo refused,
    [], false || disconnectFails _⟩ at h
  rw [hfails] at h
  have h := requestRun_call h (c := secondOfTwo) (f := refused)
    (Function.update_self secondOfTwo refused fibers) (.interrupted _ rfl)
    ⟨by simp, by simp [refused]⟩
  change RequestRun _ _ _ ⟨.closing [.interruptCalls], Function.update (Function.update fibers
    secondOfTwo refused) secondOfTwo (.ended interruptedExit), [], true⟩ at h
  rw [Function.update_idem] at h
  have hended : ∀ c, ∃ x, Function.update fibers secondOfTwo (.ended interruptedExit) c = .ended x ∧
      (x = refusedExit ∨ x = interruptedExit) := by
    intro c
    rcases first_or_second c with rfl | rfl
    · exact ⟨_, hfirst, .inl rfl⟩
    · exact ⟨_, rfl, .inr rfl⟩
  have h := h.snoc (.interruptedCalls _ _ rfl fun c => by
    obtain ⟨x, hx, -⟩ := hended c
    exact congrArg Fiber.active hx)
  have h := h.snoc (.closed _ rfl)
  refine ⟨_, by simpa [rejectedLog] using h, rfl, (endsCleanly_iff h).mpr fun c x hx => ?_, rfl, ?_⟩
  · obtain ⟨y, hy, rfl | rfl⟩ := hended c
    · cases hy.symm.trans hx
      rfl
    · cases hy.symm.trans hx
      rfl
  · rintro ⟨m, hm, -⟩
    cases hm

end EffectWorker.Fetch
