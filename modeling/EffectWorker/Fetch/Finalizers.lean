import EffectWorker.Fetch.Server

/-! The scope of a request keeps account of its connections: what was acquired
and not yet released is still to be released, by one of its finalizers or by the
call that acquired it too late. A call is only ever active while the scope
serves it, so nothing is acquired that nobody will release. -/

namespace EffectWorker.Fetch

open Effect Worker

section Finalizers

variable {S : Sig} {E U A : Type} {middleware : MiddlewareEffect S U} {r : Request S E U A}
  {log before after : List (RequestEvent r)} {s s' : RequestState r} {e : RequestEvent r}

/-- The connection an event of a request acquires, with the call that made it. -/
def RequestEvent.acquires : RequestEvent r → Option (r.Index × Connection)
  | .call c e => (acquired e).map fun conn => (c, conn)
  | _ => none

def acquisitions (log : List (RequestEvent r)) : List (r.Index × Connection) :=
  log.filterMap RequestEvent.acquires

def RequestEvent.releases : RequestEvent r → Option Connection
  | .releasing conn => some conn
  | _ => none

def releases (log : List (RequestEvent r)) : List Connection :=
  log.filterMap RequestEvent.releases

def Finalizer.releases : Finalizer → Option Connection
  | .release conn => some conn
  | .disconnect | .interruptCalls => none

/-- The connections a scope has still to release. -/
def ScopeState.pending (scope : ScopeState) : List Connection :=
  scope.finalizers.filterMap Finalizer.releases

/-- The connections that have still to be released. -/
def RequestState.pending (s : RequestState r) : List Connection :=
  s.scope.pending ++ s.late.map Prod.snd

/-- The events with which a scope starts to close. -/
def RequestEvent.closes : RequestEvent r → Bool
  | .responded | .exited => true
  | _ => false

def ScopeState.isClosing : ScopeState → Bool
  | .closing _ | .closed => true
  | .unopened | .opened _ => false

@[simp] theorem acquisitions_append (log log' : List (RequestEvent r)) :
    acquisitions (log ++ log') = acquisitions log ++ acquisitions log' := List.filterMap_append

theorem acquisitions_singleton (e : RequestEvent r) : acquisitions [e] = e.acquires.toList := by
  cases hacq : e.acquires <;> simp [acquisitions, hacq]

/-- The events of the scope acquire nothing. -/
theorem acquires_of_scoped (hcall : ∀ c e', e ≠ .call c e') : e.acquires = none := by
  cases e with
  | call c e' => exact absurd rfl (hcall c e')
  | _ => rfl

theorem acquires_call {c : r.Index} {e : CallEvent S E U A} {n : Connection}
    (hfresh : ∀ conn, acquired e = some conn → conn = n) :
    ∀ c' conn, (.call c e : RequestEvent r).acquires = some (c', conn) → conn = n := by
  intro c' conn hconn
  obtain ⟨conn', hacquired, he⟩ := Option.map_eq_some_iff.mp hconn
  cases he
  exact hfresh conn hacquired

@[simp] theorem releases_append (log log' : List (RequestEvent r)) :
    releases (log ++ log') = releases log ++ releases log' := List.filterMap_append

theorem mem_releases {conn : Connection} : conn ∈ releases log ↔ .releasing conn ∈ log := by
  simp only [releases, List.mem_filterMap]
  constructor
  · rintro ⟨e, he, hc⟩
    cases e <;> simp only [RequestEvent.releases, reduceCtorEq, Option.some.injEq] at hc
    subst hc
    exact he
  · intro h
    exact ⟨_, h, rfl⟩

theorem mem_acquisitions {c : r.Index} {conn : Connection} :
    (c, conn) ∈ acquisitions log ↔
      ∃ url, .call c (.answers (.pgClientMake url) (.success conn)) ∈ log := by
  simp only [acquisitions, List.mem_filterMap]
  constructor
  · rintro ⟨e, he, hc⟩
    cases e with
    | call c' e' =>
      simp only [RequestEvent.acquires, Option.map_eq_some_iff, Prod.mk.injEq] at hc
      obtain ⟨conn', hacq, rfl, rfl⟩ := hc
      unfold acquired at hacq
      split at hacq
      · cases hacq
        exact ⟨_, he⟩
      · cases hacq
    | _ => cases hc
  · rintro ⟨url, he⟩
    exact ⟨_, he, rfl⟩

/-! ## The scope serves what is active -/

theorem isClosing_scopeAfter (e : CallEvent S E U A) (scope : ScopeState) :
    (scopeAfter e scope).isClosing = scope.isClosing := by
  cases scope <;> rfl

theorem serving_scopeAfter {scope : ScopeState} (e : CallEvent S E U A) (h : r.Serving scope) :
    r.Serving (scopeAfter e scope) := by
  cases r with
  | http env handler =>
    obtain ⟨fs, rfl⟩ := h
    exact ⟨_, rfl⟩
  | rpc env calls =>
    cases scope with
    | opened fs => exact List.mem_append_right _ h
    | closing fs => exact h
    | unopened | closed => cases h

theorem not_serving_unopened : ¬ r.Serving .unopened := by
  cases r <;> simp [Request.Serving, ScopeState.finalizers]

theorem not_serving_closed : ¬ r.Serving .closed := by
  cases r <;> simp [Request.Serving, ScopeState.finalizers]

/-- A finalizer that has run was not the one that interrupts the calls. -/
theorem serving_finalized {f : Finalizer} {fs : List Finalizer} (hf : f ≠ .interruptCalls)
    (h : r.Serving (.closing (f :: fs))) : r.Serving (.closing fs) := by
  cases r with
  | http env handler =>
    obtain ⟨fs', h⟩ := h
    cases h
  | rpc env calls => exact (List.mem_cons.mp h).resolve_left fun he => hf he.symm

/-- An open scope serves the calls of its request. -/
theorem requestRun_opened {fs : List Finalizer} (h : RequestRun middleware r log s)
    (hscope : s.scope = .opened fs) : r.Serving s.scope := by
  induction h generalizing fs with
  | nil => cases hscope
  | @snoc log s e s' _ hs ih =>
    cases hs with
    | opened =>
      cases r with
      | http env handler => exact ⟨_, rfl⟩
      | rpc env calls => exact List.mem_cons_of_mem _ (List.mem_singleton_self _)
    | call c e' f _ _ =>
      cases hbefore : s.scope with
      | opened fs' =>
        have hserving := ih hbefore
        exact serving_scopeAfter e' hserving
      | unopened | closing fs' | closed =>
        change scopeAfter e' s.scope = .opened fs at hscope
        rw [hbefore] at hscope
        cases hscope
    | releasingLate => exact ih hscope
    | responded | exited | releasing | disconnected | interruptedCalls | closed => cases hscope

/-- A call takes a step only while the scope serves it. -/
theorem requestRun_serving (h : RequestRun middleware r log s) (c : r.Index)
    (hc : (s.fibers c).active = true) : r.Serving s.scope := by
  induction h generalizing c with
  | nil => cases hc
  | @snoc log s e s' hr hs ih =>
    cases hs with
    | call c' e' f hstep hguard =>
      have hserving : r.Serving s.scope := by
        rcases fiberStep_active hstep with ha | ⟨-, rfl⟩
        · exact ih c' ha
        · obtain ⟨fs, hscope⟩ := hguard.2
          exact requestRun_opened hr hscope
      exact serving_scopeAfter e' hserving
    | opened hscope => exact absurd (hscope ▸ ih c hc) not_serving_unopened
    | responded fs env calls hrpc hscope _ =>
      subst hrpc
      have hserving := ih c hc
      rw [hscope] at hserving
      exact hserving
    | exited fs _ _ _ _ hidle => simp [hidle c] at hc
    | releasing conn fs hscope => exact serving_finalized (by simp) (hscope ▸ ih c hc)
    | releasingLate => exact ih c hc
    | disconnected fs hscope => exact serving_finalized (by simp) (hscope ▸ ih c hc)
    | interruptedCalls fs hscope hidle => simp [hidle c] at hc
    | closed hscope =>
      have hserving := ih c hc
      cases r <;> simp [Request.Serving, hscope, ScopeState.finalizers] at hserving

/-- Whatever a call does, the scope was serving it. -/
theorem requestStep_serving (h : RequestRun middleware r log s) {c : r.Index}
    {e : CallEvent S E U A} (hs : RequestStep middleware r s (.call c e) s') :
    r.Serving s.scope := by
  cases hs with
  | call _ _ f hstep hguard =>
    rcases fiberStep_active hstep with ha | ⟨-, rfl⟩
    · exact requestRun_serving h c ha
    · obtain ⟨fs, hscope⟩ := hguard.2
      exact requestRun_opened h hscope

/-- A call that has still to release its connection does nothing else. -/
theorem requestRun_late (h : RequestRun middleware r log s) {c : r.Index} {conn : Connection}
    (hlate : (c, conn) ∈ s.late) : (s.fibers c).active = true ∧ s.scope.isClosing = true := by
  induction h with
  | nil => cases hlate
  | @snoc log s e s' _ hs ih =>
    cases hs with
    | opened hscope =>
      have hclosing := (ih hlate).2
      rw [hscope] at hclosing
      cases hclosing
    | call c' e' f hstep hguard =>
      by_cases hold : (c, conn) ∈ s.late
      · have hc : c ≠ c' := by
          rintro rfl
          exact hguard.1 conn hold
        obtain ⟨hactive, hclosing⟩ := ih hold
        refine ⟨?_, (isClosing_scopeAfter e' s.scope).trans hclosing⟩
        exact (congrArg Fiber.active (Function.update_of_ne hc ..)).trans hactive
      change (c, conn) ∈ lateAfter c' e' s.late s.scope at hlate
      cases hscope : s.scope with
      | unopened | opened | closed =>
        rw [hscope] at hlate
        exact absurd hlate hold
      | closing fs =>
        rw [hscope] at hlate
        obtain ⟨conn', hacquired, heq⟩ :=
          List.mem_map.mp ((List.mem_append.mp hlate).resolve_right hold)
        cases heq
        refine ⟨?_, by simp [RequestState.afterCall, hscope, scopeAfter, ScopeState.isClosing]⟩
        change (Function.update s.fibers c f c).active = true
        rw [Function.update_self]
        generalize s.fibers c = g at hstep
        cases hstep with
        | answers => rfl
        | starts | begins | works | ends | interrupted => simp [acquired] at hacquired
    | releasingLate c' conn' before after hbefore =>
      refine ih ?_
      rw [hbefore]
      exact List.mem_append.mpr ((List.mem_append.mp hlate).imp id (List.mem_cons_of_mem _))
    | responded _ _ _ _ hscope _ | exited _ _ _ _ hscope _ =>
      have hclosing := (ih hlate).2
      rw [hscope] at hclosing
      cases hclosing
    | releasing | disconnected | interruptedCalls | closed => exact ⟨(ih hlate).1, rfl⟩

/-- A closed scope is the end of its request. -/
theorem requestStep_not_closed (h : RequestRun middleware r log s)
    (hs : RequestStep middleware r s e s') : s.scope ≠ .closed := by
  intro hclosed
  cases hs with
  | call c e' f hstep hguard =>
    have hserving := requestStep_serving h (.call s c e' f hstep hguard)
    exact not_serving_closed (hclosed ▸ hserving)
  | releasingLate c conn before after hlate =>
    have hactive := (requestRun_late h (show (c, conn) ∈ s.late by simp [hlate])).1
    exact not_serving_closed (hclosed ▸ requestRun_serving h c hactive)
  | opened hscope | responded _ _ _ _ hscope _ | exited _ _ _ _ hscope _ | releasing _ _ hscope
  | disconnected _ hscope | interruptedCalls _ hscope _ | closed hscope =>
    rw [hclosed] at hscope
    cases hscope

/-! ## The account -/

/-- What a call acquires is added to what has to be released. -/
theorem pending_afterCall (h : r.Serving s.scope) (c : r.Index) (e : CallEvent S E U A)
    (f : Fiber (CallSig S U) (CallError E) U A) :
    (s.afterCall c e f).pending.Perm ((acquired e).toList ++ s.pending) := by
  cases hscope : s.scope with
  | unopened => exact absurd (hscope ▸ h) not_serving_unopened
  | closed => exact absurd (hscope ▸ h) not_serving_closed
  | opened fs | closing fs =>
    cases hacquired : acquired e with
    | none =>
      simp [RequestState.afterCall, RequestState.pending, hscope, scopeAfter, lateAfter, hacquired]
    | some conn =>
      simp [RequestState.afterCall, RequestState.pending, ScopeState.pending, hscope, scopeAfter,
        lateAfter, hacquired, ScopeState.finalizers, Finalizer.releases, List.perm_middle]

/-- Besides the calls, only a release moves a connection in the account. -/
theorem requestStep_pending (hs : RequestStep middleware r s e s')
    (hcall : ∀ c e', e ≠ .call c e') : s.pending.Perm (releases [e] ++ s'.pending) := by
  cases hs with
  | call c e' _ _ _ => exact absurd rfl (hcall c e')
  | opened hscope =>
    rw [RequestState.pending, hscope]
    cases r <;> exact .refl _
  | releasingLate c conn before after hlate =>
    simp only [RequestState.pending, hlate, List.map_append, List.map_cons, ← List.append_assoc]
    exact List.perm_middle
  | responded _ _ _ _ hscope _ | exited _ _ _ _ hscope _ | releasing _ _ hscope
  | disconnected _ hscope | interruptedCalls _ hscope _ | closed hscope =>
    rw [RequestState.pending, hscope]
    exact .refl _

/-- Acquired is what was released and what is still to be released. -/
theorem requestRun_accounts (h : RequestRun middleware r log s) :
    ((acquisitions log).map Prod.snd).Perm (releases log ++ s.pending) := by
  induction h with
  | nil => exact .nil
  | @snoc log s e s' hr hs ih =>
    rw [acquisitions_append, releases_append, List.map_append]
    by_cases hcall : ∃ c e', e = .call c e'
    · obtain ⟨c, e', rfl⟩ := hcall
      have hserving := requestStep_serving hr hs
      have hacq : (acquisitions [(.call c e' : RequestEvent r)]).map Prod.snd =
          (acquired e').toList := by
        rw [acquisitions_singleton, RequestEvent.acquires]
        cases acquired e' <;> rfl
      have hrel : releases [(.call c e' : RequestEvent r)] = [] := rfl
      cases hs with
      | call _ _ f _ _ =>
        have hpending := pending_afterCall hserving c e' f
        rw [hacq, hrel, List.append_nil]
        calc ((acquisitions log).map Prod.snd ++ (acquired e').toList).Perm
              ((releases log ++ s.pending) ++ (acquired e').toList) := ih.append_right _
          _ = releases log ++ (s.pending ++ (acquired e').toList) := List.append_assoc ..
          List.Perm _ (releases log ++ ((acquired e').toList ++ s.pending)) :=
            List.perm_append_comm.append_left _
          List.Perm _ _ := hpending.symm.append_left _
    · have hscoped : ∀ c e', e ≠ .call c e' := fun c e' he => hcall ⟨c, e', he⟩
      have hacq : acquisitions [e] = [] := by
        rw [acquisitions_singleton, acquires_of_scoped hscoped]
        rfl
      have hstep := requestStep_pending hs hscoped
      rw [hacq, List.map_nil, List.append_nil, List.append_assoc]
      exact ih.trans (hstep.append_left _)

/-- Nothing is released before the scope starts to close. -/
theorem requestRun_closes (h : RequestRun middleware r log s) :
    (s.scope.isClosing = false ∧ releases log = []) ∨
      (s.scope.isClosing = true ∧ ∃ e ∈ log, e.closes = true) := by
  induction h with
  | nil => exact .inl ⟨rfl, rfl⟩
  | @snoc log s e s' hr hs ih =>
    have later : (∃ e' ∈ log, e'.closes = true) → ∃ e' ∈ log ++ [e], e'.closes = true :=
      fun ⟨e', he, hc⟩ => ⟨e', List.mem_append_left _ he, hc⟩
    cases hs with
    | call c e' f _ _ =>
      have hsame := isClosing_scopeAfter e' s.scope
      rcases ih with ⟨hopen, hrel⟩ | ⟨hclosing, hlog⟩
      · exact .inl ⟨hsame.trans hopen, by rw [releases_append, hrel]; rfl⟩
      · exact .inr ⟨hsame.trans hclosing, later hlog⟩
    | opened hscope =>
      rcases ih with ⟨-, hrel⟩ | ⟨hclosing, -⟩
      · exact .inl ⟨rfl, by rw [releases_append, hrel]; rfl⟩
      · rw [hscope] at hclosing
        cases hclosing
    | responded | exited =>
      exact .inr ⟨rfl, _, List.mem_append_right _ (List.mem_singleton_self _), rfl⟩
    | releasingLate c conn before after hlate =>
      have hclosing := (requestRun_late hr (show (c, conn) ∈ s.late by simp [hlate])).2
      rcases ih with ⟨hopen, -⟩ | ⟨-, hlog⟩
      · rw [hclosing] at hopen
        cases hopen
      · exact .inr ⟨hclosing, later hlog⟩
    | releasing _ _ hscope | disconnected _ hscope | interruptedCalls _ hscope _ | closed hscope =>
      rcases ih with ⟨hopen, -⟩ | ⟨-, hlog⟩
      · rw [hscope] at hopen
        cases hopen
      · exact .inr ⟨rfl, later hlog⟩

/-! ## Every scope can be closed -/

/-- The connections that were made too late are released one after the other. -/
theorem requestRun_punctual (h : RequestRun middleware r log s) :
    ∃ log', RequestRun middleware r (log ++ log') { s with late := [] } := by
  obtain ⟨scope, fibers, late, failed⟩ := s
  induction late generalizing log with
  | nil => exact ⟨[], by rwa [List.append_nil]⟩
  | cons a late ih =>
    obtain ⟨log', hrun⟩ := ih (h.snoc (.releasingLate _ a.1 a.2 [] late rfl))
    exact ⟨_, by rwa [List.append_assoc] at hrun⟩

/-- What one call can come to while the others stay where they are, all calls
can, one after the other. -/
theorem requestRun_each {P : Fiber (CallSig S U) (CallError E) U A → Prop}
    {I : RequestState r → Prop}
    (hone : ∀ {log s}, RequestRun middleware r log s → I s → ∀ c, ∃ log' s',
      RequestRun middleware r (log ++ log') s' ∧ I s' ∧ P (s'.fibers c) ∧
        ∀ c' ≠ c, s'.fibers c' = s.fibers c')
    (h : RequestRun middleware r log s) (hs : I s) : ∃ log' s',
      RequestRun middleware r (log ++ log') s' ∧ I s' ∧ ∀ c, P (s'.fibers c) := by
  suffices hlist : ∀ cs : List r.Index, ∃ log' s', RequestRun middleware r (log ++ log') s' ∧
      I s' ∧ ∀ c ∈ cs, P (s'.fibers c) by
    obtain ⟨log', s', hrun, hs', hcome⟩ := hlist (List.finRange _)
    exact ⟨log', s', hrun, hs', fun c => hcome c (List.mem_finRange c)⟩
  intro cs
  induction cs with
  | nil => exact ⟨[], s, by rwa [List.append_nil], hs, by simp⟩
  | cons c cs ih =>
    obtain ⟨log₁, s₁, hrun₁, hs₁, hcome₁⟩ := ih
    obtain ⟨log₂, s₂, hrun₂, hs₂, hcome₂, hothers⟩ := hone hrun₁ hs₁ c
    refine ⟨log₁ ++ log₂, s₂, by rwa [← List.append_assoc], hs₂, fun c' hc' => ?_⟩
    by_cases hc : c' = c
    · rw [hc]
      exact hcome₂
    · rw [hothers c' hc]
      exact hcome₁ c' ((List.mem_cons.mp hc').resolve_left hc)

theorem active_of_hasEnded {f : Fiber (CallSig S U) (CallError E) U A} (h : f.hasEnded = true) :
    f.active = false := by
  cases f with
  | ended x => rfl
  | waiting | ready p | busy o q => cases h

/-- A call can be interrupted at any time; while it is connecting, once that has failed. -/
theorem requestRun_interrupted (h : RequestRun middleware r log s) (hlate : s.late = [])
    {c : r.Index} (hc : s.fibers c ≠ .waiting) : ∃ log' s',
      RequestRun middleware r (log ++ log') s' ∧ s'.scope = s.scope ∧ s'.late = [] ∧
        (∃ x, s'.fibers c = .ended x ∧ (s.fibers c = .ended x ∨ x = interruptedExit)) ∧
        ∀ c' ≠ c, s'.fibers c' = s.fibers c' := by
  have keeps : ∀ (s : RequestState r) (e : CallEvent S E U A)
      (f : Fiber (CallSig S U) (CallError E) U A), acquired e = none → s.late = [] →
      (s.afterCall c e f).scope = s.scope ∧ (s.afterCall c e f).late = [] := by
    rintro ⟨scope, fibers, late, failed⟩ e f hacquired rfl
    cases scope <;> simp [RequestState.afterCall, scopeAfter, lateAfter, hacquired]
  have interrupt : ∀ {log s}, RequestRun middleware r log s → s.late = [] →
      (s.fibers c).active = true → (∀ url k, s.fibers c ≠ .busy (.pgClientMake url) k) →
      ∃ s', RequestRun middleware r (log ++ [.call c .interrupted]) s' ∧ s'.scope = s.scope ∧
        s'.late = [] ∧ s'.fibers c = .ended interruptedExit ∧
          ∀ c' ≠ c, s'.fibers c' = s.fibers c' := by
    intro log s h hlate hactive hguard
    obtain ⟨hscope, hlate'⟩ := keeps s .interrupted (.ended interruptedExit) rfl hlate
    refine ⟨_, requestRun_call h rfl (.interrupted _ hactive) ⟨by simp [hlate], hguard⟩, hscope,
      hlate', Function.update_self .., fun c' hc' => Function.update_of_ne hc' ..⟩
  cases hf : s.fibers c with
  | waiting => exact absurd hf hc
  | ended x =>
    exact ⟨[], s, by rwa [List.append_nil], rfl, hlate, ⟨x, hf, .inl rfl⟩, fun _ _ => rfl⟩
  | ready p =>
    obtain ⟨s', hrun, hscope, hlate', hended, hothers⟩ :=
      interrupt h hlate (by rw [hf]; rfl) (by simp [hf])
    exact ⟨_, s', hrun, hscope, hlate', ⟨_, hended, .inr rfl⟩, hothers⟩
  | busy o k =>
    cases o with
    | pgClientMake url =>
      let refused : Exit SqlError U Connection := .failure (.fail ⟨"PgClient: Failed to connect"⟩)
      have hrun := requestRun_answers h hf (by simp [hlate]) refused
      obtain ⟨hscope, hlate'⟩ :=
        keeps s (.answers (.pgClientMake url) refused) (.ready (k refused)) rfl hlate
      obtain ⟨s', hrun', hscope', hlate'', hended, hothers⟩ := interrupt hrun hlate'
        (by simp [RequestState.afterCall, Fiber.active]) (by simp [RequestState.afterCall])
      rw [List.append_assoc] at hrun'
      refine ⟨_, s', hrun', hscope'.trans hscope, hlate'', ⟨_, hended, .inr rfl⟩, fun c' hc' => ?_⟩
      rw [hothers c' hc']
      exact Function.update_of_ne hc' ..
    | pgDrizzleMake | handler =>
      obtain ⟨s', hrun, hscope, hlate', hended, hothers⟩ :=
        interrupt h hlate (by rw [hf]; rfl) (by simp [hf])
      exact ⟨_, s', hrun, hscope, hlate', ⟨_, hended, .inr rfl⟩, hothers⟩

/-- What calls have come to by being interrupted. -/
structure CallsInterrupted (s s' : RequestState r) : Prop where
  scope : s'.scope = s.scope
  late : s'.late = []
  ended : ∀ c x, s'.fibers c = .ended x → s.fibers c = .ended x ∨ x = interruptedExit

theorem requestRun_idle (h : RequestRun middleware r log s) (hlate : s.late = []) : ∃ log' s',
    RequestRun middleware r (log ++ log') s' ∧ CallsInterrupted s s' ∧
      ∀ c, (s'.fibers c).active = false := by
  refine requestRun_each (P := fun f => f.active = false) (fun {log s'} hrun hs' c => ?_) h
    ⟨rfl, hlate, fun _ _ => .inl⟩
  by_cases hc : s'.fibers c = .waiting
  · exact ⟨[], s', by rwa [List.append_nil], hs', by rw [hc]; rfl, fun _ _ => rfl⟩
  · obtain ⟨log', s'', hrun', hscope, hlate', ⟨x, hx, hold⟩, hothers⟩ :=
      requestRun_interrupted hrun hs'.late hc
    refine ⟨log', s'', hrun', ⟨hscope.trans hs'.scope, hlate', fun c' x' hx' => ?_⟩,
      by rw [hx]; rfl, hothers⟩
    by_cases hcc : c' = c
    · subst hcc
      obtain rfl := Fiber.ended.inj (hx.symm.trans hx')
      exact hold.elim (hs'.ended c' x) .inr
    · exact hs'.ended c' x' (by rwa [← hothers c' hcc])

/-- What calls have come to by being started. -/
structure CallsStarted (fs : List Finalizer) (s s' : RequestState r) : Prop where
  scope : s'.scope = .opened fs
  late : s'.late = []
  failed : s'.failed = s.failed
  fibers : ∀ c, s'.fibers c = s.fibers c ∨
    s.fibers c = .waiting ∧ (s'.fibers c).active = true

/-- All calls of an open scope can start. -/
theorem requestRun_started {fs : List Finalizer} (h : RequestRun middleware r log s)
    (hscope : s.scope = .opened fs) (hlate : s.late = []) :
    ∃ log' s', RequestRun middleware r (log ++ log') s' ∧ CallsStarted fs s s' ∧
      ∀ c, s'.fibers c ≠ .waiting := by
  refine requestRun_each (P := fun f => f ≠ .waiting) (fun {log s'} hrun hs' c => ?_) h
    ⟨hscope, hlate, rfl, fun _ => .inl rfl⟩
  by_cases hc : s'.fibers c = .waiting
  · refine ⟨_, _, requestRun_call hrun hc .starts ⟨by simp [hs'.late], fs, hs'.scope⟩,
      ⟨?_, ?_, hs'.failed, fun c' => ?_⟩, ?_, fun c' hc' => Function.update_of_ne hc' ..⟩
    · simp [RequestState.afterCall, hs'.scope, scopeAfter, acquired]
    · simp [RequestState.afterCall, hs'.scope, hs'.late, lateAfter]
    · by_cases hcc : c' = c
      · subst hcc
        refine .inr ⟨?_, by simp [RequestState.afterCall, Fiber.active]⟩
        rcases hs'.fibers c' with hsame | ⟨-, hactive⟩
        · exact hsame ▸ hc
        · rw [hc] at hactive
          cases hactive
      · have hsame : (s'.afterCall c .starts (.ready (r.program middleware c))).fibers c' =
            s'.fibers c' := Function.update_of_ne hcc ..
        rw [hsame]
        exact hs'.fibers c'
    · simp [RequestState.afterCall]
  · exact ⟨[], s', by rwa [List.append_nil], hs', hc, fun _ _ => rfl⟩

/-- With no call active, the finalizers run one after the other. -/
theorem requestRun_finalized {fs : List Finalizer} (h : RequestRun middleware r log s)
    (hscope : s.scope = .closing fs) (hidle : ∀ c, (s.fibers c).active = false) :
    ∃ log' s', RequestRun middleware r (log ++ log') s' ∧ s'.scope = .closed := by
  induction fs generalizing log s with
  | nil => exact ⟨_, _, .snoc h (.closed s hscope), rfl⟩
  | cons f fs ih =>
    have hnext : ∃ e s', RequestStep middleware r s e s' ∧ s'.scope = .closing fs ∧
        s'.fibers = s.fibers := by
      cases f with
      | release conn => exact ⟨_, _, .releasing s conn fs hscope, rfl, rfl⟩
      | disconnect => exact ⟨_, _, .disconnected s fs hscope, rfl, rfl⟩
      | interruptCalls => exact ⟨_, _, .interruptedCalls s fs hscope hidle, rfl, rfl⟩
    obtain ⟨e, s', hs, hscope', hfibers⟩ := hnext
    obtain ⟨log', s'', hrun, hclosed⟩ := ih (.snoc h hs) hscope' (by rwa [hfibers])
    exact ⟨e :: log', s'', by rw [List.append_cons]; exact hrun, hclosed⟩

theorem requestRun_closing_closable (h : RequestRun middleware r log s) {fs : List Finalizer}
    (hscope : s.scope = .closing fs) :
    ∃ log' s', RequestRun middleware r (log ++ log') s' ∧ s'.scope = .closed := by
  obtain ⟨log₁, hrun₁⟩ := requestRun_punctual h
  obtain ⟨log₂, s₂, hrun₂, hinterrupted, hidle⟩ := requestRun_idle hrun₁ rfl
  obtain ⟨log₃, s₃, hrun₃, hclosed⟩ :=
    requestRun_finalized hrun₂ (hinterrupted.scope.trans hscope) hidle
  exact ⟨log₁ ++ (log₂ ++ log₃), s₃, by simpa only [List.append_assoc] using hrun₃, hclosed⟩

/-- Whatever has happened in a scope, it can start to close. -/
theorem requestRun_opened_closing (h : RequestRun middleware r log s) {fs : List Finalizer}
    (hscope : s.scope = .opened fs) :
    ∃ log' s', RequestRun middleware r (log ++ log') s' ∧ s'.scope = .closing fs := by
  obtain ⟨log₁, hrun₁⟩ := requestRun_punctual h
  cases r with
  | http env handler =>
    obtain ⟨log₂, s₂, hrun₂, hinterrupted, hidle⟩ := requestRun_idle hrun₁ rfl
    have hexited :=
      hrun₂.snoc (.exited s₂ fs env handler rfl (hinterrupted.scope.trans hscope) hidle)
    exact ⟨log₁ ++ (log₂ ++ [.exited]), _, by simpa only [List.append_assoc] using hexited, rfl⟩
  | rpc env calls =>
    obtain ⟨log₂, s₂, hrun₂, hstarts, hstarted⟩ := requestRun_started hrun₁ hscope rfl
    have hended : ∃ log₃ s₃,
        RequestRun middleware (.rpc env calls) (log ++ log₁ ++ log₂ ++ log₃) s₃ ∧
          s₃.scope = .opened fs ∧ Responds s₃ := by
      cases hcalls : (Request.rpc env calls).handlers with
      | nil => exact ⟨[], s₂, by rwa [List.append_nil], hstarts.scope, hstarted, .inl hcalls⟩
      | cons call rest =>
        have hlength : 0 < (Request.rpc env calls).handlers.length := by simp [hcalls]
        obtain ⟨log₃, s₃, hrun₃, hscope₃, -, ⟨x, hended, -⟩, hothers⟩ :=
          requestRun_interrupted hrun₂ hstarts.late (hstarted ⟨0, hlength⟩)
        refine ⟨log₃, s₃, hrun₃, hscope₃.trans hstarts.scope, fun c => ?_,
          .inr ⟨_, by rw [hended]; rfl⟩⟩
        by_cases hc : c = ⟨0, hlength⟩
        · rw [hc, hended]
          exact fun h => by cases h
        · rw [hothers c hc]
          exact hstarted c
    obtain ⟨log₃, s₃, hrun₃, hscope₃, hresponds⟩ := hended
    have hresponded := hrun₃.snoc (.responded s₃ fs env calls rfl hscope₃ hresponds)
    exact ⟨log₁ ++ (log₂ ++ (log₃ ++ [.responded])), _,
      by simpa only [List.append_assoc] using hresponded, rfl⟩

/-- Whatever has happened in a scope, it can be closed. -/
theorem requestRun_closable (h : RequestRun middleware r log s) (hopen : s.scope ≠ .unopened) :
    ∃ log' s', RequestRun middleware r (log ++ log') s' ∧ s'.scope = .closed := by
  cases hscope : s.scope with
  | unopened => exact absurd hscope hopen
  | closed => exact ⟨[], s, by rwa [List.append_nil], hscope⟩
  | closing fs => exact requestRun_closing_closable h hscope
  | opened fs =>
    obtain ⟨log₁, s₁, hrun₁, hscope₁⟩ := requestRun_opened_closing h hscope
    obtain ⟨log₂, s₂, hrun₂, hclosed⟩ := requestRun_closing_closable hrun₁ hscope₁
    exact ⟨log₁ ++ log₂, s₂, by rwa [← List.append_assoc], hclosed⟩

end Finalizers

end EffectWorker.Fetch
