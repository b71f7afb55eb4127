import EffectWorker.Effect.Numbering
import EffectWorker.Queue.Layers
import EffectWorker.Queue.Turns

/-! The connection of a batch. Each invocation makes one attempt to connect
before it looks at a message, every fiber of its batch uses the connection that
attempt opened, and the connection is closed once, when no fiber is active any
more. No two invocations ever see one connection. -/

namespace EffectWorker.Queue

open Effect

section Lifecycle

variable {U T : Type}

/-- The life of a batch's connection, as the events of the batch show it. -/
structure ConnectionLifetime {n : Nat} (env : Env) (log : List (BatchEvent U T n))
    (s : BatchState U T n) : Prop where
  /-- One attempt, before everything else. -/
  attempted : log = [] ∨ ∃ rest, log = .connecting env.connectionString :: rest ∧
    ∀ url, .connecting url ∉ rest
  single : ∀ conn conn', .connected conn ∈ log → .connected conn' ∈ log → conn = conn'
  /-- A fiber runs with the connection open. -/
  used : ∀ before conn i e after, log = before ++ .fiber conn i e :: after →
    .connected conn ∈ before ∧ ∀ conn', .closed conn' ∉ before
  /-- The close is the last event, the only one of its kind, and finds no fiber active. -/
  closed : ∀ before conn after, log = before ++ .closed conn :: after →
    .connected conn ∈ before ∧ (∀ conn', .closed conn' ∉ before) ∧ after = [] ∧
      ∀ i, (s.fibers i).active = false
  released : ∀ y conn, s.phase = .settled y → .connected conn ∈ log → .closed conn ∈ log
  /-- A failed attempt leaves the messages alone and rejects the promise. -/
  failed : ∀ cause, .connectFailed cause ∈ log →
    (∀ conn i e, .fiber conn i e ∉ log) ∧ (∀ i, calls log i = [] ∧ handlerRuns log i = []) ∧
      s.phase = .settled (.failure (cause.map .connection))

/-- The events of a batch with a connection open: the attempt, and events of
that one connection. -/
private theorem mem_connected {n : Nat} {conn : Connection}
    {t : List (Fin n × Event (QueueSig U T) (ProcessError U) U Unit)}
    {tail : List (BatchEvent U T n)}
    (htail : ∀ e ∈ tail, (∃ x, e = .exited x) ∨ e = .closed conn)
    {e : BatchEvent U T n} (h : e ∈ opened env conn t ++ tail) :
    e = .connecting env.connectionString ∨ e = .connected conn ∨
      (∃ i e', e = .fiber conn i e') ∨ (∃ x, e = .exited x) ∨ e = .closed conn := by
  rcases List.mem_append.mp h with h | h
  · rcases mem_opened h with he | he | he
    · exact .inl he
    · exact .inr (.inl he)
    · exact .inr (.inr (.inl he))
  · exact .inr (.inr (.inr (htail e h)))

/-- Connections are numbered in the order they are opened. -/
structure World.Fresh (w : World U T) : Prop where
  bounded : ∀ k inv conn, w.invocations k = some inv → .connected conn ∈ inv.log →
    conn < w.nextConnection
  distinct : ∀ k k' inv inv' conn, w.invocations k = some inv → w.invocations k' = some inv' →
    .connected conn ∈ inv.log → .connected conn ∈ inv'.log → k = k'

/-- The connections a batch has opened. -/
def connections {n : Nat} : List (BatchEvent U T n) → List Connection :=
  List.filterMap fun e => match e with
    | .connected conn => some conn
    | _ => none

theorem mem_connections {n : Nat} {log : List (BatchEvent U T n)} {conn : Connection} :
    conn ∈ connections log ↔ .connected conn ∈ log := by
  simp only [connections, List.mem_filterMap]
  constructor
  · rintro ⟨e, he, hc⟩
    cases e <;> simp only [reduceCtorEq, Option.some.injEq] at hc
    subst hc
    exact he
  · intro h
    exact ⟨_, h, rfl⟩

/-- What each invocation has opened. -/
def World.owned (w : World U T) (k : Nat) : List Connection :=
  (w.invocations k).elim [] fun inv => connections inv.log

private theorem owned_update (w : World U T) (k : Nat) (inv : Invocation U T)
    (location : String → Location) (next : Connection) :
    World.owned {
      location := location
      invocations := Function.update w.invocations k (some inv)
      nextConnection := next } = Function.update w.owned k (connections inv.log) := by
  funext k'
  by_cases hk : k' = k
  · subst hk
    simp [World.owned]
  · simp [World.owned, Function.update_of_ne hk]

private theorem update_owned_self {w : World U T} {k : Nat} {conns : List Connection}
    (h : w.owned k = conns) : Function.update w.owned k conns = w.owned := by
  rw [← h, Function.update_eq_self]

variable [Throwable (ProcessError U) U] {config : QueueHandlerConfig U T} {body : String → U}
variable {messages : List (Message U)} {env : Env}
  {hx : Fin messages.length → Exit (HandlerError U) U Unit → Prop}
  {log : List (BatchEvent U T messages.length)} {s : BatchState U T messages.length}

/-- A batch has not connected yet, has failed to, or has opened a connection;
in the last case whatever follows the fibers' events is its end. -/
theorem batchRun_cases (h : BatchRun config messages env hx log s) :
    (log <+: [.connecting env.connectionString] ∧ ∀ y, s.phase ≠ .settled y) ∨
    (∃ cause, log = [.connecting env.connectionString, .connectFailed cause] ∧
      s.phase = .settled (.failure (cause.map .connection))) ∨
    ∃ conn t tail, log = opened env conn t ++ tail ∧
      (∀ e ∈ tail, (∃ x, e = .exited x) ∨ e = .closed conn) ∧
      ∀ y, s.phase = .settled y → .closed conn ∈ tail := by
  have hshape := batchRun_shape h
  unfold Shape at hshape
  cases hp : s.phase with
  | idle =>
    simp only [hp] at hshape
    exact .inl ⟨by rw [hshape.1]; exact List.nil_prefix, by simp⟩
  | connecting =>
    simp only [hp] at hshape
    exact .inl ⟨by rw [hshape.1], by simp⟩
  | running conn =>
    simp only [hp] at hshape
    exact .inr (.inr ⟨conn, _, [], by rw [List.append_nil]; exact hshape, by simp, by simp⟩)
  | closing conn x =>
    simp only [hp] at hshape
    exact .inr (.inr ⟨conn, _, _, hshape.1, by simp, by simp⟩)
  | settled y =>
    simp only [hp] at hshape
    rcases hshape with ⟨cause, hlog, rfl, -⟩ | ⟨conn, x, hlog, -, -⟩
    · exact .inr (.inl ⟨cause, hlog, rfl⟩)
    · exact .inr (.inr ⟨conn, _, _, hlog, by simp, by simp⟩)

/-- One attempt to connect, before everything else. -/
theorem batchRun_attempted (h : BatchRun config messages env hx log s) :
    log = [] ∨ ∃ rest, log = .connecting env.connectionString :: rest ∧
      ∀ url, .connecting url ∉ rest := by
  rcases batchRun_cases h with ⟨hpre, -⟩ | ⟨cause, rfl, -⟩ | ⟨conn, t, tail, rfl, htail, -⟩
  · rcases List.prefix_cons_iff.mp hpre with rfl | ⟨t, rfl, ht⟩
    · exact .inl rfl
    · refine .inr ⟨[], by rw [List.prefix_nil.mp ht], by simp⟩
  · exact .inr ⟨_, rfl, by simp⟩
  · refine .inr ⟨_, rfl, fun url hm => ?_⟩
    rcases List.mem_cons.mp hm with he | hm
    · cases he
    rcases List.mem_append.mp hm with hm | hm
    · simp at hm
    · rcases htail _ hm with ⟨x, he⟩ | he <;> cases he

/-- A batch that has connected goes on with that connection only. -/
theorem batchRun_connected (h : BatchRun config messages env hx log s) {conn : Connection}
    (hc : .connected conn ∈ log) : ∃ t tail, log = opened env conn t ++ tail ∧
      (∀ e ∈ tail, (∃ x, e = .exited x) ∨ e = .closed conn) ∧
      ∀ y, s.phase = .settled y → .closed conn ∈ tail := by
  rcases batchRun_cases h with ⟨hpre, -⟩ | ⟨cause, rfl, -⟩ | ⟨conn₀, t, tail, rfl, htail, hend⟩
  · have := hpre.subset hc
    simp at this
  · simp at hc
  · rcases mem_connected htail hc with he | he | ⟨_, _, he⟩ | ⟨_, he⟩ | he <;> cases he
    exact ⟨t, tail, rfl, htail, hend⟩

theorem batchRun_single (h : BatchRun config messages env hx log s) {conn conn' : Connection}
    (hc : .connected conn ∈ log) (hc' : .connected conn' ∈ log) : conn = conn' := by
  obtain ⟨t, tail, rfl, htail, -⟩ := batchRun_connected h hc
  rcases mem_connected htail hc' with he | he | ⟨_, _, he⟩ | ⟨_, he⟩ | he <;> cases he
  rfl

/-- A fiber runs with the connection open. -/
theorem batchRun_used (h : BatchRun config messages env hx log s)
    {before after : List (BatchEvent U T messages.length)} {conn : Connection}
    {i : Fin messages.length} {e : Event (QueueSig U T) (ProcessError U) U Unit}
    (hlog : log = before ++ .fiber conn i e :: after) :
    .connected conn ∈ before ∧ ∀ conn', .closed conn' ∉ before := by
  subst hlog
  obtain ⟨s₁, s₂, hbefore, hstep, -⟩ := h.split
  cases hstep with
  | fiber fs _ _ _ fs' _ =>
    have hshape : before = opened env conn _ := batchRun_shape hbefore
    rw [hshape]
    refine ⟨by simp [opened], fun conn' hm => ?_⟩
    rcases mem_opened hm with he | he | ⟨_, _, he⟩ <;> cases he

/-- The close is the last event and finds no fiber active. -/
theorem batchRun_closed (h : BatchRun config messages env hx log s)
    {before after : List (BatchEvent U T messages.length)} {conn : Connection}
    (hlog : log = before ++ .closed conn :: after) :
    .connected conn ∈ before ∧ (∀ conn', .closed conn' ∉ before) ∧ after = [] ∧
      ∀ i, (s.fibers i).active = false := by
  subst hlog
  obtain ⟨s₁, s₂, hbefore, hstep, hafter⟩ := h.split
  cases hstep with
  | closed fs _ x =>
    have hshape : before = opened env conn _ ++ [.exited x] ∧ Loop.Exits fs x :=
      batchRun_shape hbefore
    obtain ⟨hbefore, hexit⟩ := hshape
    obtain ⟨rfl, rfl⟩ := hafter.eq_of_stuck fun e s' hs => by cases hs
    rw [hbefore]
    refine ⟨by simp [opened], fun conn' hm => ?_, rfl, hexit.inactive⟩
    rcases List.mem_append.mp hm with hm | hm
    · rcases mem_opened hm with he | he | ⟨_, _, he⟩ <;> cases he
    · simp at hm

/-- A failed attempt leaves the messages alone and rejects the promise. -/
theorem batchRun_connectFailed (h : BatchRun config messages env hx log s)
    {cause : Cause SqlError U} (hfail : .connectFailed cause ∈ log) :
    (∀ conn i e, .fiber conn i e ∉ log) ∧ (∀ i, calls log i = [] ∧ handlerRuns log i = []) ∧
      s.phase = .settled (.failure (cause.map .connection)) := by
  rcases batchRun_cases h with ⟨hpre, -⟩ | ⟨cause', rfl, hphase⟩ | ⟨conn₀, t, tail, rfl, htail, -⟩
  · have := hpre.subset hfail
    simp at this
  · have hcause : cause = cause' := by simpa using hfail
    subst hcause
    exact ⟨by simp, fun i => ⟨rfl, rfl⟩, hphase⟩
  · rcases mem_connected htail hfail with he | he | ⟨_, _, he⟩ | ⟨_, he⟩ | he <;> cases he

theorem batchRun_lifetime (h : BatchRun config messages env hx log s) :
    ConnectionLifetime env log s := by
  constructor
  case attempted => exact batchRun_attempted h
  case single => exact fun conn conn' => batchRun_single h
  case used => exact fun before conn i e after => batchRun_used h
  case closed => exact fun before conn after => batchRun_closed h
  case released =>
    intro y conn hy hc
    obtain ⟨t, tail, rfl, -, hend⟩ := batchRun_connected h hc
    exact List.mem_append_right _ (hend y hy)
  case failed => exact fun cause => batchRun_connectFailed h

/-! ## Across invocations -/

theorem step_numbered {w w' : World U T} (hs : World.Step config body w w')
    (h : Numbered w.owned w.nextConnection) : Numbered w'.owned w'.nextConnection := by
  have owned_of : ∀ {k inv}, w.invocations k = some inv → w.owned k = connections inv.log :=
    fun hk => by simp [World.owned, hk]
  cases hs with
  | send | redeliverable => exact h
  | deliver k ids env hk _ _ =>
    rw [owned_update, update_owned_self (by rw [World.owned, hk]; rfl)]
    exact h
  | fulfilled k inv hk _ _ | rejected k inv _ hk _ _ | killed k inv hk _ =>
    have hlog : w.owned k = connections inv.finish.log := by
      rw [owned_of hk]
      rfl
    rw [owned_update, update_owned_self hlog]
    exact h
  | run k inv e state hk _ _ hfresh =>
    have hlog : connections (inv.advance e state).log = w.owned k ++ connections [e] := by
      rw [owned_of hk]
      exact List.filterMap_append
    rw [owned_update, hlog]
    cases e with
    | connected conn =>
      rw [hfresh conn rfl]
      exact h.snoc k
    | connecting | connectFailed | fiber | exited | closed =>
      rw [show connections [_] = [] from rfl, List.append_nil, Function.update_eq_self]
      exact h

theorem reachable_numbered {w : World U T} (h : World.Reachable config body w) :
    Numbered w.owned w.nextConnection := by
  induction h with
  | empty => exact .nil 0
  | step _ hs ih => exact step_numbered hs ih

theorem reachable_fresh {w : World U T} (h : World.Reachable config body w) : w.Fresh := by
  have hnumbered := reachable_numbered h
  have owned_of : ∀ {k inv conn}, w.invocations k = some inv → .connected conn ∈ inv.log →
      conn ∈ w.owned k := fun hk hm => by simpa [World.owned, hk] using mem_connections.mpr hm
  constructor
  case bounded =>
    intro k inv conn hk hm
    exact hnumbered.bounded k conn (owned_of hk hm)
  case distinct =>
    intro k k' inv inv' conn hk hk' hm hm'
    exact hnumbered.distinct k k' conn (owned_of hk hm) (owned_of hk' hm')

/-- What an invocation has gone through is a log of the effect that the handler
composes, and when its promise has settled a log with which that effect exits. -/
structure Invocation.Composed (config : QueueHandlerConfig U T) (inv : Invocation U T)
    (ctx : ExecutionContext) : Prop where
  ran : (batchEffect config inv.messages ⟨inv.env, ctx⟩ fun _ _ => True).ran inv.log
  exits : ∀ y, inv.state.phase = .settled y →
    (batchEffect config inv.messages ⟨inv.env, ctx⟩ fun _ _ => True).exits inv.log y []

/-- Every log of the effect `forEach(…).pipe(provide(batchLayer), scoped)` shows one
connection with the right lifetime, whatever the handlers end with. In every
reachable world the invocations run that effect; no two of them share a
connection, and every batch can be run to the end. -/
theorem batchConnection_lifetime {config : QueueHandlerConfig U T} {body : String → U}
    {w : World U T} (h : World.Reachable config body w) :
    (∀ messages bindings hx log, (batchEffect config messages bindings hx).ran log →
      ∃ s, BatchRun config messages bindings.env hx log s ∧
        ConnectionLifetime bindings.env log s) ∧
    (∀ k inv, w.invocations k = some inv →
      (∀ ctx, inv.Composed config ctx) ∧ ConnectionLifetime inv.env inv.log inv.state ∧
      ∃ log state y, BatchRun config inv.messages inv.env (fun _ _ => True)
        (inv.log ++ log) state ∧ state.phase = .settled y) ∧
    ∀ k k' inv inv' conn, w.invocations k = some inv → w.invocations k' = some inv' →
      .connected conn ∈ inv.log → .connected conn ∈ inv'.log → k = k' := by
  refine ⟨fun messages bindings hx log hran => ?_, fun k inv hk => ?_,
    (reachable_fresh h).distinct⟩
  · obtain ⟨s, hrun⟩ := (batchEffect_ran_iff bindings).mp hran
    exact ⟨s, hrun, batchRun_lifetime hrun⟩
  · have hsound := reachable_sound h hk
    obtain ⟨log, state, y, hrun, hy, -⟩ :=
      batch_completes (fun _ => ⟨.success (), trivial⟩) hsound.run
    refine ⟨fun ctx => ⟨?_, fun y hy => ?_⟩, batchRun_lifetime hsound.run, log, state, y, hrun, hy⟩
    · exact (batchEffect_ran_iff ⟨inv.env, ctx⟩).mpr ⟨_, hsound.run⟩
    · exact (batchEffect_exits_iff ⟨inv.env, ctx⟩ y []).mpr ⟨rfl, _, hsound.run, hy⟩

end Lifecycle

set_option maxRecDepth 4000 in
/-- A batch that has opened its connection, used and closed it. -/
theorem batchConnection_lifetime_finished :
    ∃ inv, finishedWorld.invocations 0 = some inv ∧
      .connected 0 ∈ inv.log ∧ (∃ i, .fiber 0 i (.answers .ack ()) ∈ inv.log) ∧
      .closed 0 ∈ inv.log ∧ (∃ y, inv.state.phase = .settled y) ∧
      (∀ ctx, inv.Composed echoConfig ctx) ∧ ConnectionLifetime inv.env inv.log inv.state :=
  have hresult := (batchConnection_lifetime finishedWorld_reachable).2.1 0 _ rfl
  ⟨_, rfl, List.mem_of_getElem? (i := 1) rfl,
    ⟨⟨0, by decide⟩, List.mem_of_getElem? (i := 8) rfl⟩, List.mem_of_getElem? (i := 32) rfl,
    ⟨_, rfl⟩, hresult.1, hresult.2.1⟩

end EffectWorker.Queue
