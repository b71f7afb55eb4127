import EffectWorker.Fetch.Refinement
import EffectWorker.Users.Seen

/-! What the clients of the worker see. Whoever has been in the answer of any
call, of any request and either API, is in every later answer that comes from
the table, however the requests overlap and whatever becomes of the others. An
answer is what the handler ends with, before it is encoded. -/

namespace EffectWorker.Fetch

open Effect Worker Users

section Visibility

variable {U : Type} {t₀ : Table} {d d' : Deployment U}
  {events before after : List (DeploymentEvent U)} {event : DeploymentEvent U}
  {log : List (ApiEvent U)} {k c : Nat} {q q' : Users.Request}
  {e : CallEvent (DbSig U) ApiError U Reply}

/-! ## Events in their order -/

/-- A beginning of the events that have grown by one is all of them, or was a
beginning before. -/
theorem projects_cut {shown : List (ApiEvent U)}
    (hall : Projects (events ++ [event]) (log ++ shown))
    (hevents : before ++ after = events ++ [event])
    (ih : ∀ {after}, before ++ after = events → ∃ as as', log = as ++ as' ∧ Projects before as) :
    ∃ as as', log ++ shown = as ++ as' ∧ Projects before as := by
  rcases List.eq_nil_or_concat after with rfl | ⟨after', last, rfl⟩
  · rw [List.append_nil] at hevents
    exact ⟨_, [], (List.append_nil _).symm, hevents ▸ hall⟩
  · rw [List.concat_eq_append, ← List.append_assoc] at hevents
    obtain ⟨as, as', rfl, hprefix⟩ := ih (List.append_inj' hevents rfl).1
    exact ⟨as, as' ++ shown, List.append_assoc .., hprefix⟩

theorem projects_prefix (h : Projects (before ++ after) log) :
    ∃ as as', log = as ++ as' ∧ Projects before as := by
  generalize hevents : before ++ after = events at h
  induction h generalizing after with
  | nil =>
    obtain ⟨rfl, -⟩ := List.append_eq_nil_iff.mp hevents
    exact ⟨[], [], rfl, .nil⟩
  | call es as k c incoming a ev shown hes hm ha hshows ih =>
    exact projects_cut (.call es as k c incoming a ev shown hes hm ha hshows) hevents ih
  | orphan es as n o r hes ih => exact projects_cut (.orphan es as n o r hes) hevents ih
  | other es as ev hes hcall horphan ih =>
    have hall := Projects.other es as ev hes hcall horphan
    rw [← List.append_nil as] at hall ⊢
    exact projects_cut hall hevents ih

/-- The call `c` of request `k` is a call of `q`. -/
def Asked (events : List (DeploymentEvent U)) (k c : Nat) (q : Users.Request) : Prop :=
  ∃ incoming, .fetched k incoming ∈ events ∧ incoming.calls[c]? = some q

theorem projects_call (h : Projects (before ++ .call k c e :: after) log) :
    ∃ as shown as' q, log = as ++ shown ++ as' ∧ Projects before as ∧ Asked before k c q ∧
      Shows q (callId k c) as e shown := by
  rw [List.append_cons] at h
  obtain ⟨as, as', rfl, hprefix⟩ := projects_prefix h
  generalize hevents : before ++ [.call k c e] = events at hprefix
  cases hprefix with
  | nil => simp at hevents
  | call es as k' c' incoming a ev shown hes hm ha hshows =>
    obtain ⟨rfl, he⟩ := List.append_inj' hevents rfl
    cases he
    exact ⟨as, shown, as', a, rfl, hes, ⟨incoming, hm, ha⟩, hshows⟩
  | orphan es as n o r hes =>
    obtain ⟨rfl, he⟩ := List.append_inj' hevents rfl
    cases he
  | other es as ev hes hcall =>
    obtain ⟨rfl, he⟩ := List.append_inj' hevents rfl
    cases he
    exact absurd rfl (hcall k c e)

/-- A call of the handlers' run is a call of a request that has come in. -/
theorem projects_started (h : Projects events log) (hm : .started (callId k c) q ∈ log) :
    Asked events k c q := by
  have later : ∀ {events : List (DeploymentEvent U)} {event}, Asked events k c q →
      Asked (events ++ [event]) k c q := by
    rintro events event ⟨incoming, hfetched, hcall⟩
    exact ⟨incoming, List.mem_append_left _ hfetched, hcall⟩
  induction h with
  | nil => cases hm
  | other es as ev hes hcall horphan ih => exact later (ih hm)
  | orphan es as n o r hes ih =>
    rcases List.mem_append.mp hm with hm | hm
    · exact later (ih hm)
    · cases List.mem_singleton.mp hm
  | call es as k' c' incoming a ev shown hes hfetched ha hshows ih =>
    rcases List.mem_append.mp hm with hm | hm
    · exact later (ih hm)
    cases hshows with
    | answers | ends => cases List.mem_singleton.mp hm
    | refused | other => cases hm
    | starts =>
      obtain ⟨hid, rfl⟩ := CallEvent.started.inj (List.mem_singleton.mp hm)
      obtain ⟨rfl, rfl⟩ := Nat.pair_eq_pair.mp hid
      exact later ⟨incoming, hfetched, ha⟩

theorem mapFail_eq_success {x : Exit ApiError U Reply} {reply : Reply}
    (h : (x.mapFail .inr : Exit (CallError ApiError) U Reply) = .success reply) :
    x = .success reply := by
  cases x with
  | success a => exact congrArg Exit.success (Exit.success.inj h)
  | failure c => cases h

theorem shows_success {n : Nat} {reply : Reply} {shown : List (ApiEvent U)}
    (h : Shows q n log (.ends (.success reply)) shown) :
    shown = [.returned n (.success reply)] := by
  generalize he : (Event.ends (.success reply) : CallEvent (DbSig U) ApiError U Reply) = e at h
  cases h with
  | starts | answers => cases he
  | refused cause => cases he
  | other _ _ hends => exact absurd he.symm (hends _)
  | ends x =>
    rw [mapFail_eq_success (Event.ends.inj he).symm]

theorem projects_answered {conn : Connection} {o : DbOp} {r : Exit SqlError U (List Row)}
    (h : Projects events log) (hm : .call k c (.answers (.handler conn o) r) ∈ events) :
    .answered (callId k c) o r ∈ log := by
  obtain ⟨before, after, rfl⟩ := List.append_of_mem hm
  obtain ⟨as, shown, as', q, rfl, -, -, hshows⟩ := projects_call h
  generalize he : (Event.answers (.handler conn o) r : CallEvent (DbSig U) ApiError U Reply) = e
    at hshows
  cases hshows with
  | starts | ends | refused => cases he
  | answers conn' o' r' =>
    cases he
    simp
  | other _ _ _ hanswers => exact absurd he.symm (hanswers conn o r)

/-- Some call has ended with the user. -/
def SeenBy (events : List (DeploymentEvent U)) (u : User) : Prop :=
  ∃ k c reply, .call k c (.ends (.success reply)) ∈ events ∧
    Shown u (.success reply : Exit ApiError U Reply)

theorem seenBy_seen (h : Projects events log) {u : User} (hu : SeenBy events u) : Seen log u := by
  obtain ⟨k, c, reply, hm, hshown⟩ := hu
  obtain ⟨before, after, rfl⟩ := List.append_of_mem hm
  obtain ⟨as, shown, as', q, rfl, -, -, hshows⟩ := projects_call h
  rw [shows_success hshows]
  exact ⟨callId k c, .success reply, by simp, hshown⟩

variable [Throwable SqlError U]

/-- A call that was answered its rows met no database error. -/
theorem undisturbed_of_rows {w : ApiState U} {n : Nat} {x : Exit ApiError U Reply} {o : DbOp}
    {rows : List Row} (h : ApiRun t₀ log w) (hx : .returned n x ∈ log)
    (hans : .answered n o (.success rows) ∈ log) : Undisturbed log n := by
  intro o' cause hfailed
  obtain ⟨q, hstarted, -⟩ := h.returned hx
  cases answered_once program_within h ((hstarted q).mpr rfl) hans hfailed

variable [Throwable DatabaseConnectionError U]
  {string : DatabaseConnectionError ⊕ SqlError → String}

/-- A request that has come in is still there. -/
theorem fetched_held {incoming : Incoming} (h : Deployment.Run string t₀ events d)
    (hm : .fetched k incoming ∈ events) : ∃ inv, d.world.requests k = some inv := by
  induction h with
  | nil => cases hm
  | @snoc events d e d' _ hs ih =>
    rcases List.mem_append.mp hm with hm | hm
    · obtain ⟨inv, hk⟩ := ih hm
      rcases step_keeps hs hk with hk | ⟨re, state, -, hk⟩
      · exact ⟨inv, hk⟩
      · exact ⟨inv.advance re state, hk⟩
    · rw [List.mem_singleton] at hm
      subst hm
      cases hs with
      | fetch => exact ⟨_, Function.update_self ..⟩

theorem fetched_unique {incoming incoming' : Incoming} (h : Deployment.Run string t₀ events d)
    (hm : .fetched k incoming ∈ events) (hm' : .fetched k incoming' ∈ events) :
    incoming = incoming' := by
  induction h with
  | nil => cases hm
  | @snoc events d e d' hrun hs ih =>
    have fresh : ∀ {incoming incoming' : Incoming}, .fetched k incoming ∈ events →
        e ≠ .fetched k incoming' := by
      rintro incoming incoming' hbefore rfl
      obtain ⟨inv, hk⟩ := fetched_held hrun hbefore
      cases hs with
      | fetch _ _ _ _ hnone =>
        rw [hnone] at hk
        cases hk
    rcases List.mem_append.mp hm with hm | hm <;> rcases List.mem_append.mp hm' with hm' | hm'
    · exact ih hm hm'
    · exact absurd (List.mem_singleton.mp hm').symm (fresh hm)
    · exact absurd (List.mem_singleton.mp hm).symm (fresh hm')
    · have heq := (List.mem_singleton.mp hm).trans (List.mem_singleton.mp hm').symm
      exact (DeploymentEvent.fetched.inj heq).2

theorem asked_unique (h : Deployment.Run string t₀ events d) (hq : Asked events k c q)
    (hq' : Asked events k c q') : q = q' := by
  obtain ⟨incoming, hm, hc⟩ := hq
  obtain ⟨incoming', hm', hc'⟩ := hq'
  rw [fetched_unique h hm hm', hc'] at hc
  exact (Option.some.inj hc).symm

/-- A call that has returned was started with the request that it is of. -/
theorem returned_started {w : ApiState U} {x : Exit ApiError U Reply}
    (h : Deployment.Run string t₀ events d) (hprojects : Projects events log) (hr : ApiRun t₀ log w)
    (hq : Asked events k c q) (hx : .returned (callId k c) x ∈ log) :
    .started (callId k c) q ∈ log := by
  obtain ⟨q', hstarted, -⟩ := hr.returned hx
  have hm := (hstarted q').mpr rfl
  obtain rfl := asked_unique h hq (projects_started hprojects hm)
  exact hm

/-! ## Calls end once -/

/-- What a call does is in the log of its request. -/
theorem call_logged (h : Deployment.Run string t₀ events d) (hm : .call k c e ∈ events) :
    ∃ inv, d.world.requests k = some inv ∧
      ∃ c' : inv.request.Index, c'.val = c ∧ .call c' e ∈ inv.log := by
  induction h with
  | nil => cases hm
  | @snoc events d event d' _ hs ih =>
    rcases List.mem_append.mp hm with hm | hm
    · obtain ⟨inv, hk, c', hc', hlog⟩ := ih hm
      rcases step_keeps hs hk with hk | ⟨re, state, -, hk⟩
      · exact ⟨inv, hk, c', hc', hlog⟩
      · exact ⟨inv.advance re state, hk, c', hc', List.mem_append_left _ hlog⟩
    · rw [List.mem_singleton] at hm
      subst hm
      cases hs with
      | call _ inv c' _ state t' =>
        exact ⟨_, Function.update_self .., c', rfl,
          List.mem_append_right _ (List.mem_singleton_self _)⟩

/-- A call does nothing after its end. -/
theorem call_last {last : CallEvent (DbSig U) ApiError U Reply} (hlast : last.ending.isSome)
    (h : Deployment.Run string t₀ events d) (hevents : events = before ++ .call k c last :: after) :
    .call k c e ∉ after := by
  induction h generalizing after with
  | nil => simp at hevents
  | @snoc events d event d' hrun hs ih =>
    rcases snoc_eq_append_cons hevents with ⟨-, -, rfl⟩ | ⟨after', rfl, hlog⟩
    · simp
    intro hm
    rcases List.mem_append.mp hm with hm | hm
    · exact ih hlog hm
    rw [List.mem_singleton] at hm
    subst hm
    have hbefore : .call k c last ∈ events := by
      rw [hlog]
      simp
    obtain ⟨inv, hk, c', hc', hm⟩ := call_logged hrun hbefore
    have hended : (inv.state.fibers c').hasEnded = true :=
      (hasEnded_iff ((reachable_sound (deploymentRun_world hrun)).run k inv hk).2 c').mp
        ⟨_, hm, hlast⟩
    cases hs with
    | call _ inv' c'' _ state t' hk' hstep =>
      rw [hk] at hk'
      cases hk'
      obtain rfl : c' = c'' := Fin.ext hc'
      rcases requestStep_fibers hstep with ⟨-, hcall⟩ | ⟨c₁, e₁, f, he, hfiber, -⟩
      · exact hcall c' e rfl
      · cases he
        rw [(fiberStep_hasEnded hfiber).1] at hended
        cases hended

/-! ## Reads -/

/-- A call that has ended was refused its connection, before it made a
statement, or has returned what its handler returned. -/
theorem projects_ends {x : Exit (CallError ApiError) U Reply}
    (hrun : Deployment.Run string t₀ events d) (h : Projects events log)
    (hx : .call k c (.ends x) ∈ events) :
    (∃ cause, x = .failure cause ∧ Refusal cause ∧
      ∀ conn o r, .call k c (.answers (.handler conn o) r) ∉ events) ∨
    ∃ x', x = x'.mapFail .inr ∧ .returned (callId k c) x' ∈ log := by
  obtain ⟨before, after, hevents⟩ := List.append_of_mem hx
  have hlast : ∀ conn o r, .call k c (.answers (.handler conn o) r) ∈ events →
      .call k c (.answers (.handler conn o) r) ∈ before := by
    intro conn o r hm
    rw [hevents] at hm
    rcases List.mem_append.mp hm with hm | hm
    · exact hm
    · rcases List.mem_cons.mp hm with he | hm
      · cases he
      · exact absurd hm (call_last rfl hrun hevents)
  rw [hevents] at h
  obtain ⟨as, shown, as', q, rfl, hprefix, -, hshows⟩ := projects_call h
  generalize he : (Event.ends x : CallEvent (DbSig U) ApiError U Reply) = e at hshows
  cases hshows with
  | starts | answers => cases he
  | ends x' => exact .inr ⟨x', Event.ends.inj he, by simp⟩
  | refused cause hrefusal hnone =>
    refine .inl ⟨cause, Event.ends.inj he, hrefusal, fun conn o r hm => ?_⟩
    have hanswered := Effect.mem_callTrace.mpr (projects_answered hprefix (hlast conn o r hm))
    rw [hnone] at hanswered
    cases hanswered
  | other _ _ hends => exact absurd he.symm (hends x)

/-- What every client of the worker can rely on: whoever has been in an answer
is in each answer that a call started later has got from the table. -/
structure WorkerReadsMonotonic (events : List (DeploymentEvent U)) : Prop where
  get : ∀ before after k c q u conn o rows x, events = before ++ .call k c .starts :: after →
    Asked events k c q → SeenBy before u → q.Gets u.id →
    .call k c (.answers (.handler conn o) (.success rows)) ∈ events →
    .call k c (.ends x) ∈ events → x = .success (.user u)
  list : ∀ before after k c q u conn o rows x, events = before ++ .call k c .starts :: after →
    Asked events k c q → SeenBy before u → q.IsList →
    .call k c (.answers (.handler conn o) (.success rows)) ∈ events →
    .call k c (.ends x) ∈ events →
    ∃ list, x = .success (.list list) ∧ list.users.filter (fun v => v.id = u.id) = [u]

/-- A call as a call of the handlers' run. -/
theorem read_projected {conn : Connection} {o : DbOp} {rows : List Row} {u : User}
    {x : Exit (CallError ApiError) U Reply} {w : ApiState U}
    (hrun : Deployment.Run string t₀ events d) (h : Projects events log) (hr : ApiRun t₀ log w)
    (hevents : events = before ++ .call k c .starts :: after) (hq : Asked events k c q)
    (hu : SeenBy before u)
    (hm : .call k c (.answers (.handler conn o) (.success rows)) ∈ events)
    (hx : .call k c (.ends x) ∈ events) :
    ∃ as as' x', log = as ++ .started (callId k c) q :: as' ∧ Seen as u ∧
      Undisturbed log (callId k c) ∧ .returned (callId k c) x' ∈ log ∧ x = x'.mapFail .inr := by
  obtain ⟨cause, -, -, hnone⟩ | ⟨x', hx', hreturned⟩ := projects_ends hrun h hx
  · exact absurd hm (hnone conn o (.success rows))
  have hundisturbed := undisturbed_of_rows hr hreturned (projects_answered h hm)
  have hsplit := h
  rw [hevents] at hsplit
  obtain ⟨as, shown, as', q', hlog, hprefix, hq', hshows⟩ := projects_call hsplit
  obtain rfl : q = q' := by
    refine asked_unique hrun hq ?_
    obtain ⟨incoming, hfetched, hcall⟩ := hq'
    exact ⟨incoming, by rw [hevents]; exact List.mem_append_left _ hfetched, hcall⟩
  have hshown : shown = [.started (callId k c) q] := by
    generalize he : (Event.starts : CallEvent (DbSig U) ApiError U Reply) = e at hshows
    cases hshows with
    | starts => rfl
    | answers | ends | refused => cases he
    | other _ hstarts => exact absurd he.symm hstarts
  refine ⟨as, as', x', ?_, seenBy_seen hprefix hu, hundisturbed, hreturned, hx'⟩
  rw [hlog, hshown, List.append_assoc]
  rfl

/-- Reads of the whole worker never go back, whatever requests overlap, connect
or fail to connect, are interrupted or leave statements behind. -/
theorem deployment_readsMonotonic (h : Deployment.Run string t₀ events d) :
    WorkerReadsMonotonic events := by
  obtain ⟨log, w, hr, hsim⟩ := deployment_simulates h
  constructor
  case get =>
    intro before after k c q u conn o rows x hevents hq hu hgets hm hx
    obtain ⟨as, as', x', rfl, hseen, hno, hreturned, rfl⟩ :=
      read_projected h hsim.projects hr hevents hq hu hm hx
    rw [get_seen hr hseen hgets hno hreturned]
    rfl
  case list =>
    intro before after k c q u conn o rows x hevents hq hu hlists hm hx
    obtain ⟨as, as', x', rfl, hseen, hno, hreturned, rfl⟩ :=
      read_projected h hsim.projects hr hevents hq hu hm hx
    obtain ⟨list, rfl, hfilter⟩ := list_seen hr hseen hlists hno hreturned
    exact ⟨list, rfl, hfilter⟩

end Visibility

theorem deployment_readsMonotonic_annServed : ∃ events : List (DeploymentEvent String),
    AnnServed events ∧ WorkerReadsMonotonic events := by
  obtain ⟨events, d, hrun, -, hserved⟩ := annServed_run (U := String) fun _ => "refused"
  exact ⟨events, hserved, deployment_readsMonotonic hrun⟩

end EffectWorker.Fetch
