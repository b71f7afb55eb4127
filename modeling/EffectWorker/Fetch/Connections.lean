import Mathlib.Data.List.Nodup
import EffectWorker.Fetch.Finalizers

/-! The connections of the requests. A call opens one at most, uses no other,
and it is released exactly once. Statements begin on open connections only when
no RPC scope starts to close before the calls of its body have begun their last
operation; of a scope that closes earlier a call may still get a connection, and
it is released at once, under the handler that goes on to use it. -/

namespace EffectWorker.Fetch

open Effect Worker

section Lifetimes

variable {S : Sig} {E U A : Type} {r : Request S E U A} {log before after : List (RequestEvent r)}
  {s s' : RequestState r}

/-- The connections a call has opened. -/
def opens (c : r.Index) (log : List (RequestEvent r)) : List Connection :=
  (callHistory c log).filterMap acquired

/-- The event is the call `c` doing something with the connection. -/
def RequestEvent.Uses (c : r.Index) (conn : Connection) : RequestEvent r → Prop
  | .call c' e => c' = c ∧ ∃ o, e.operation = some o ∧ o.connection = some conn
  | _ => False

structure ConnectionLifetimes [Throwable SqlError U]
    (string : DatabaseConnectionError ⊕ SqlError → String) (log : List (RequestEvent r)) :
    Prop where
  single : ∀ c, (opens c log).length ≤ 1
  /-- A call uses the connection it has opened itself. -/
  own : ∀ before c conn e after, log = before ++ e :: after → e.Uses c conn →
    conn ∈ opens c before
  distinct : ∀ c c' conn, conn ∈ opens c log → conn ∈ opens c' log → c = c'
  released : ∀ before conn after, log = before ++ .releasing conn :: after →
    (∃ c, conn ∈ opens c before) ∧ .releasing conn ∉ before
  /-- Whatever was opened has been released when the scope is closed. -/
  closed : ∀ before after, log = before ++ .closed :: after →
    after = [] ∧ ∀ c conn, conn ∈ opens c before → .releasing conn ∈ before
  /-- Without a connection the handler does nothing, and only the middleware fails. -/
  unconnected : ∀ c, opens c log = [] → (∀ conn, ∀ e ∈ log, ¬ e.Uses c conn) ∧
    ∀ x, .call c (.ends x) ∈ log → ∃ cause, x = .failure cause ∧
      ∀ error, cause.failureOption = some error → ∃ e, error = .inl e
  refused : ∀ c url cause, .call c (.answers (.pgClientMake url) (.failure cause)) ∈ log →
    opens c log = [] ∧
      ∀ x, .call c (.ends x) ∈ log → x = .failure (connectionCause string cause)

/-- A call that ends without having opened a connection ends with the error of
the middleware. -/
def RefusedWithError (log : List (RequestEvent r)) : Prop :=
  ∀ c, opens c log = [] → ∀ x, .call c (.ends x) ∈ log →
    ∃ error : DatabaseConnectionError, x = .failure (.fail (.inl error))

/-- A statement begins only while its connection is open. -/
def UsedWhileOpen (log : List (RequestEvent r)) : Prop :=
  ∀ before c conn o after, log = before ++ .call c (.begins (.handler conn o)) :: after →
    .releasing conn ∉ before

/-- Where an attempt to connect fails, it fails with an error and without a defect. -/
def FailsWithErrors (log : List (RequestEvent r)) : Prop :=
  ∀ c url cause, .call c (.answers (.pgClientMake url) (.failure cause)) ∈ log → cause.Caught

/-- No scope of an RPC request starts to close before every call of its body has
ended or has only its operation in progress left. -/
def ClosesAfterStatements (middleware : MiddlewareEffect S U) (log : List (RequestEvent r)) :
    Prop :=
  ∀ env calls, r = .rpc env calls → ∀ before e after s, log = before ++ e :: after →
    e.closes = true → RequestRun middleware r before s → ∀ c, (s.fibers c).Finishing

/-! ## What a call opens and uses -/

/-- The connection an answer hands out. -/
def connectionMade : Answered (CallSig S U) → Option Connection
  | ⟨.pgClientMake _, .success conn⟩ => some conn
  | _ => none

theorem connectionMade_of_connection {a : Answered (CallSig S U)} {conn : Connection}
    (h : a.1.connection = some conn) : connectionMade a = none := by
  obtain ⟨o, x⟩ := a
  cases o with
  | pgClientMake url => cases h
  | pgDrizzleMake | handler => rfl

theorem opens_eq (c : r.Index) (log : List (RequestEvent r)) :
    opens c log = (answered (callHistory c log)).filterMap connectionMade := by
  rw [opens, answered, List.filterMap_filterMap]
  congr 1
  funext e
  cases e with
  | answers o x =>
    cases o with
    | pgClientMake url => cases x <;> rfl
    | pgDrizzleMake | handler => rfl
  | _ => rfl

theorem mem_opens {c : r.Index} {conn : Connection} :
    conn ∈ opens c log ↔ (c, conn) ∈ acquisitions log := by
  rw [mem_acquisitions, opens, List.mem_filterMap]
  constructor
  · rintro ⟨e, he, hacq⟩
    rw [mem_callHistory] at he
    refine mem_acquisitions.mp (List.mem_filterMap.mpr ⟨_, he, ?_⟩)
    rw [RequestEvent.acquires, hacq]
    rfl
  · rintro ⟨url, he⟩
    exact ⟨_, mem_callHistory.mpr he, rfl⟩

theorem opens_append_left {c : r.Index} {conn : Connection} (h : conn ∈ opens c before)
    (after : List (RequestEvent r)) : conn ∈ opens c (before ++ after) := by
  rw [mem_opens] at h ⊢
  rw [acquisitions_append]
  exact List.mem_append_left _ h

/-- What is released had been acquired, and not been released yet. -/
theorem requestRun_released {middleware : MiddlewareEffect S U} {conn : Connection}
    (h : RequestRun middleware r (log ++ [.releasing conn]) s)
    (hfresh : ((acquisitions log).map Prod.snd).Nodup) :
    (∃ c, conn ∈ opens c log) ∧ .releasing conn ∉ log := by
  have haccounts : ((acquisitions log).map Prod.snd).Perm (releases log ++ conn :: s.pending) := by
    have hall := requestRun_accounts h
    rw [acquisitions_append, releases_append, List.append_assoc] at hall
    rwa [show acquisitions [(.releasing conn : RequestEvent r)] = [] from rfl,
      List.append_nil] at hall
  constructor
  · have hmem : conn ∈ (acquisitions log).map Prod.snd := haccounts.mem_iff.mpr (by simp)
    obtain ⟨⟨c, conn'⟩, hm, rfl⟩ := List.mem_map.mp hmem
    exact ⟨c, mem_opens.mpr hm⟩
  · intro hm
    have hnodup := haccounts.nodup_iff.mp hfresh
    exact (List.nodup_append.mp hnodup).2.2 conn (mem_releases.mpr hm) conn List.mem_cons_self rfl

/-- Nothing is left of the connections of a closed scope. -/
theorem requestRun_released_all {middleware : MiddlewareEffect S U}
    (h : RequestRun middleware r log s) (hscope : s.scope = .closed) {c : r.Index}
    {conn : Connection} (hc : conn ∈ opens c log) : .releasing conn ∈ log := by
  have hlate : s.late = [] := by
    refine List.eq_nil_iff_forall_not_mem.mpr fun a ha => ?_
    have hserving := requestRun_serving h a.1 (requestRun_late h ha).1
    exact not_serving_closed (hscope ▸ hserving)
  have hmem : conn ∈ releases log ++ s.pending :=
    (requestRun_accounts h).mem_iff.mp (List.mem_map_of_mem (f := Prod.snd) (mem_opens.mp hc))
  rw [RequestState.pending, hscope, hlate] at hmem
  exact mem_releases.mp (by simpa [ScopeState.pending, ScopeState.finalizers] using hmem)

/-- A closed scope has released everything, and nothing happens after it. -/
theorem requestRun_closed {middleware : MiddlewareEffect S U}
    (h : RequestRun middleware r (before ++ .closed :: after) s) :
    after = [] ∧ ∀ c conn, conn ∈ opens c before → .releasing conn ∈ before := by
  obtain ⟨s₁, s₂, hbefore, hstep, hafter⟩ := h.split
  have hrun := hbefore.snoc hstep
  have hclosed : s₂.scope = .closed := by
    cases hstep with
    | closed => rfl
  constructor
  · cases after with
    | nil => rfl
    | cons e after =>
      obtain ⟨s₃, s₄, hnil, hnext, -⟩ := (show Runs _ s₂ ([] ++ e :: after) s from hafter).split
      obtain rfl := hnil.nil_inv
      exact absurd hclosed (requestStep_not_closed hrun hnext)
  · intro c conn hc
    have hm := requestRun_released_all hrun hclosed (opens_append_left hc [.closed])
    simpa using hm

section Middleware

variable [Throwable SqlError U] {string : DatabaseConnectionError ⊕ SqlError → String}

/-- What a call opens along its path: nothing, or the one connection it then uses. -/
theorem callPath_opens {as : List (Answered (CallSig S U))}
    {q : Eff (CallSig S U) (CallError E) U A} (h : CallPath string as q) :
    (as.filterMap connectionMade).length ≤ 1 ∧
      ∀ o k conn, q = .perform o k → o.connection = some conn →
        conn ∈ as.filterMap connectionMade := by
  cases h with
  | unavailable error => exact ⟨by simp, fun o k conn hq => by cases hq⟩
  | start url k =>
    refine ⟨by simp, fun o k' conn hq ho => ?_⟩
    cases hq
    cases ho
  | refused url cause => exact ⟨Nat.zero_le 1, fun o k conn hq => by cases hq⟩
  | connected url conn as q has hnext =>
    have hnone : as.filterMap connectionMade = [] :=
      List.filterMap_eq_nil_iff.mpr fun a ha => connectionMade_of_connection (has a ha)
    have hopens : List.filterMap connectionMade (⟨.pgClientMake url, .success conn⟩ :: as) =
        conn :: as.filterMap connectionMade := rfl
    rw [hopens, hnone]
    refine ⟨le_refl _, fun o k conn' hq ho => ?_⟩
    rw [hnext o k hq] at ho
    cases ho
    exact List.mem_singleton_self _

/-- A call whose attempt failed has opened nothing. -/
theorem callPath_refused {as : List (Answered (CallSig S U))}
    {q : Eff (CallSig S U) (CallError E) U A} (h : CallPath string as q) {url : String}
    {cause : Cause SqlError U}
    (hm : (⟨.pgClientMake url, .failure cause⟩ : Answered (CallSig S U)) ∈ as) :
    as.filterMap connectionMade = [] ∧
      ∀ x, q = .exit x → x = .failure (connectionCause string cause) := by
  cases h with
  | unavailable | start => cases hm
  | refused url' cause' =>
    cases List.mem_singleton.mp hm
    refine ⟨rfl, fun x hx => ?_⟩
    cases hx
    rfl
  | connected url' conn as q has _ =>
    rcases List.mem_cons.mp hm with he | hm
    · cases he
    · cases has _ hm

theorem connectionCause_error {cause : Cause SqlError U} {error : CallError E}
    (h : (connectionCause string cause).failureOption = some error) :
    ∃ message, error = .inl ⟨"Database connection failed: " ++ message⟩ := by
  by_cases hcaught : cause.Caught
  · obtain ⟨e, he⟩ := hcaught.1.exists_error
    rw [connectionCause_caught string hcaught he] at h
    exact ⟨_, (Option.some.inj h).symm⟩
  · rw [connectionCause_uncaught string hcaught, Cause.failureOption_electFailures] at h
    cases h

/-- A call that ends without having opened a connection fails in the middleware. -/
theorem callPath_unconnected {as : List (Answered (CallSig S U))}
    {x : Exit (CallError E) U A} (h : CallPath string as (.exit x))
    (hnone : as.filterMap connectionMade = []) : ∃ cause, x = .failure cause ∧
      ∀ error, cause.failureOption = some error → ∃ e, error = .inl e := by
  cases h with
  | unavailable error =>
    refine ⟨_, rfl, fun error' h => ?_⟩
    cases h
    exact ⟨error, rfl⟩
  | refused url cause =>
    refine ⟨_, rfl, fun error h => ?_⟩
    obtain ⟨message, herror⟩ := connectionCause_error h
    exact ⟨_, herror⟩
  | connected url conn as _ _ _ => cases hnone

/-- It fails with the middleware's error if the attempt failed with an error. -/
theorem callPath_refusedWithError {as : List (Answered (CallSig S U))}
    {x : Exit (CallError E) U A} (h : CallPath string as (.exit x))
    (hnone : as.filterMap connectionMade = [])
    (hcaught : ∀ url cause, (⟨.pgClientMake url, .failure cause⟩ : Answered (CallSig S U)) ∈ as →
      cause.Caught) :
    ∃ error : DatabaseConnectionError, x = .failure (.fail (.inl error)) := by
  cases h with
  | unavailable error => exact ⟨error, rfl⟩
  | refused url cause =>
    have hcause := hcaught url cause (List.mem_singleton_self _)
    obtain ⟨e, he⟩ := hcause.1.exists_error
    rw [connectionCause_caught string hcause he]
    exact ⟨_, rfl⟩
  | connected url conn as _ _ _ => cases hnone

variable [Throwable DatabaseConnectionError U]

theorem requestRun_single (h : RequestRun (databaseMiddleware string) r log s) (c : r.Index) :
    (opens c log).length ≤ 1 := by
  obtain ⟨p, hp, -⟩ := fiberRun_path (requestRun_fiber h c)
  rw [opens_eq]
  exact (callPath_opens (callProgram_path _ _ hp)).1

/-- A call that uses a connection is active and has opened it. -/
theorem requestRun_uses (h : RequestRun (databaseMiddleware string) r log s)
    (hlog : log = before ++ e :: after) {c : r.Index} {conn : Connection} (hu : e.Uses c conn) :
    conn ∈ opens c before ∧ ∃ s₁, RequestRun (databaseMiddleware string) r before s₁ ∧
      (s₁.fibers c).active = true := by
  subst hlog
  obtain ⟨s₁, s₂, hbefore, hstep, -⟩ := h.split
  cases hstep with
  | call c' e' f hfiber _ =>
    obtain ⟨rfl, o, ho, hconn⟩ := hu
    obtain ⟨hactive, k, hpath⟩ :=
      fiberStep_operation hfiber (fiberRun_agrees (requestRun_fiber hbefore c')) ho
    refine ⟨?_, s₁, hbefore, hactive⟩
    rw [opens_eq]
    exact (callPath_opens (callProgram_path _ _ hpath)).2 o k conn rfl hconn
  | _ => cases hu

/-! ## The lifetimes in a run of one request -/

/-- Whatever happens in the scope of a request, its connections are its own and
are released once. The numbers of what it acquired are all different. -/
theorem requestRun_lifetimes (h : RequestRun (databaseMiddleware string) r log s)
    (hfresh : ((acquisitions log).map Prod.snd).Nodup) : ConnectionLifetimes string log := by
  constructor
  case single => exact requestRun_single h
  case own =>
    intro before c conn e after hlog hu
    exact (requestRun_uses h hlog hu).1
  case distinct =>
    intro c c' conn hc hc'
    have heq := List.inj_on_of_nodup_map hfresh (mem_opens.mp hc) (mem_opens.mp hc') rfl
    exact congrArg Prod.fst heq
  case released =>
    intro before conn after hlog
    subst hlog
    obtain ⟨s₁, s₂, hbefore, hstep, -⟩ := h.split
    refine requestRun_released (hbefore.snoc hstep) ?_
    rw [acquisitions_append, List.map_append] at hfresh
    exact hfresh.of_append_left
  case closed =>
    intro before after hlog
    subst hlog
    exact requestRun_closed h
  case unconnected =>
    intro c hnone
    refine ⟨fun conn e he hu => ?_, fun x hx => ?_⟩
    · obtain ⟨before, after, hlog⟩ := List.append_of_mem he
      have hopens := opens_append_left (requestRun_uses h hlog hu).1 (e :: after)
      rw [← hlog, hnone] at hopens
      cases hopens
    · have hpath := fiberRun_ends (requestRun_fiber h c) (mem_callHistory.mpr hx)
      rw [opens_eq] at hnone
      exact callPath_unconnected (callProgram_path _ _ hpath) hnone
  case refused =>
    intro c url cause hm
    have hans := mem_answered.mpr (mem_callHistory.mpr hm)
    refine ⟨?_, fun x hx => ?_⟩
    · obtain ⟨p, hp, -⟩ := fiberRun_path (requestRun_fiber h c)
      rw [opens_eq]
      exact (callPath_refused (callProgram_path _ _ hp) hans).1
    · have hpath := fiberRun_ends (requestRun_fiber h c) (mem_callHistory.mpr hx)
      exact (callPath_refused (callProgram_path _ _ hpath) hans).2 x rfl

theorem requestRun_refusedWithError (h : RequestRun (databaseMiddleware string) r log s)
    (hfails : FailsWithErrors log) : RefusedWithError log := by
  intro c hnone x hx
  have hpath := fiberRun_ends (requestRun_fiber h c) (mem_callHistory.mpr hx)
  rw [opens_eq] at hnone
  refine callPath_refusedWithError (callProgram_path _ _ hpath) hnone fun url cause hm => ?_
  exact hfails c url cause (mem_callHistory.mp (mem_answered.mp hm))

end Middleware

/-! ## Statements on open connections -/

variable {middleware : MiddlewareEffect S U} {e : RequestEvent r}

/-- Calls that have nothing more to begin never do. -/
theorem requestStep_finishing (hs : RequestStep middleware r s e s')
    (hfinishing : ∀ c, (s.fibers c).Finishing) : ∀ c, (s'.fibers c).Finishing := by
  intro c
  rcases requestStep_fibers hs with ⟨hfibers, -⟩ | ⟨c', e', f, -, hstep, -, rfl⟩
  · rw [hfibers]
    exact hfinishing c
  · by_cases hc : c = c'
    · subst hc
      simpa [RequestState.afterCall] using fiberStep_finishing hstep (hfinishing c)
    · simpa [RequestState.afterCall, Function.update_of_ne hc] using hfinishing c

/-- A call that begins an operation is served, and it was not finishing. -/
theorem requestStep_begins {c : r.Index} {o : CallOp S} (h : RequestRun middleware r log s)
    (hs : RequestStep middleware r s (.call c (.begins o)) s') :
    r.Serving s.scope ∧ ¬ (s.fibers c).Finishing := by
  refine ⟨requestStep_serving h hs, fun hfinishing => ?_⟩
  cases hs with
  | call _ _ f hstep _ =>
    generalize s.fibers c = g at hstep hfinishing
    cases hstep with
    | begins o k =>
      obtain ⟨x, hx⟩ := hfinishing
      cases hx

/-- When its scope starts to close after their last operations have begun, the
calls of a request use open connections only. -/
theorem requestRun_usedWhileOpen (h : RequestRun middleware r log s)
    (hcloses : ClosesAfterStatements middleware log) : UsedWhileOpen log := by
  intro before c conn o after hlog hreleased
  subst hlog
  obtain ⟨s₁, s₂, hbefore, hstep, -⟩ := h.split
  obtain ⟨hserving, hbegins⟩ := requestStep_begins hbefore hstep
  rcases requestRun_closes hbefore with ⟨-, hnone⟩ | ⟨hclosing, e', he', hcl⟩
  · have hm := mem_releases.mpr hreleased
    rw [hnone] at hm
    cases hm
  cases hr : r with
  | http env handler =>
    -- the scope of an HTTP request is open as long as its call is active
    subst hr
    obtain ⟨fs, hopen⟩ := hserving
    rw [hopen] at hclosing
    cases hclosing
  | rpc env calls =>
    obtain ⟨b₁, b₂, rfl⟩ := List.append_of_mem he'
    obtain ⟨t₁, t₂, hrun₁, hclose, hrun₂⟩ := hbefore.split
    have hfinishing : ∀ c, (t₁.fibers c).Finishing :=
      hcloses env calls hr b₁ e' (b₂ ++ .call c (.begins (.handler conn o)) :: after) t₁
        (by simp) hcl hrun₁
    refine hbegins (hrun₂.invariant (I := fun t => ∀ c, (t.fibers c).Finishing) ?_ ?_ c)
    · exact requestStep_finishing hclose hfinishing
    · exact fun t e t' ht hs => requestStep_finishing hs ht

/-- A log leads the calls of a request to one place only. -/
theorem requestRun_fibers_unique (h : RequestRun middleware r log s)
    (h' : RequestRun middleware r log s') : s.fibers = s'.fibers :=
  funext fun c => fiberRun_unique (requestRun_fiber h c) (requestRun_fiber h' c)

/-- The one event with which a scope starts to close decides. -/
theorem closesAfterStatements_of_split (hbefore : ∀ e ∈ before, e.closes = false)
    (hafter : ∀ e ∈ after, e.closes = false) (hrun : RequestRun middleware r before s)
    (hfinishing : ∀ c, (s.fibers c).Finishing) :
    ClosesAfterStatements middleware (before ++ e :: after) := by
  intro env calls _ before' e' after' s' hlog hcl hrun'
  rcases List.append_eq_append_iff.mp hlog with ⟨as, rfl, hrest⟩ | ⟨bs, rfl, hrest⟩
  · cases as with
    | nil =>
      rw [List.append_nil] at hrun'
      rwa [← requestRun_fibers_unique hrun hrun']
    | cons a as =>
      have hmem : e' ∈ after := by
        rw [(List.cons.inj hrest).2]
        simp
      rw [hafter e' hmem] at hcl
      cases hcl
  · cases bs with
    | nil =>
      rw [List.append_nil] at hrun
      rwa [← requestRun_fibers_unique hrun hrun']
    | cons b bs =>
      have hmem : e' ∈ before' ++ b :: bs := by
        rw [(List.cons.inj hrest).1]
        simp
      rw [hbefore e' hmem] at hcl
      cases hcl

end Lifetimes

end EffectWorker.Fetch
