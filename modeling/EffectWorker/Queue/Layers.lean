import EffectWorker.Effect.Scope
import EffectWorker.Queue.Batch

/-! The effect that `makeQueueHandler` hands to `Effect.runPromise`, composed as
the source composes it: the loop over the messages, provided with the batch
layer, in a scope. Its logs and exits are those of a batch's runs, so the phases
of a batch, and when its connection is opened and closed, are what `provide`,
`scoped` and `Layer.scoped` make of the loop. -/

namespace EffectWorker.Queue

open Effect

section Layers

variable {U T : Type} {n : Nat}

/-- Opening a connection: an attempt, and what comes of it. -/
def connect (url : String) : Process (BatchEvent U T n) (Exit SqlError U Connection) where
  ran t := t <+: [.connecting url] ∨ (∃ conn, t = [.connecting url, .connected conn]) ∨
    ∃ cause, t = [.connecting url, .connectFailed cause]
  exits t x fs := fs = [] ∧
    ((∃ conn, t = [.connecting url, .connected conn] ∧ x = .success conn) ∨
      ∃ cause, t = [.connecting url, .connectFailed cause] ∧ x = .failure cause)
  ran_of_exits := by
    rintro t x fs ⟨-, ⟨conn, rfl, -⟩ | ⟨cause, rfl, -⟩⟩
    · exact .inr (.inl ⟨conn, rfl⟩)
    · exact .inr (.inr ⟨cause, rfl⟩)

/-- The client registers the end of its pool in the scope it is made in. -/
def makeDatabaseConnection (url : String) :
    Process (BatchEvent U T n) (Exit SqlError U Connection) :=
  (connect url).acquireRelease .closed

def makeDatabaseLayer (env : Env) : Layer (BatchEvent U T n) SqlError U Connection :=
  Layer.scoped (makeDatabaseConnection env.connectionString)

def makeBatchLayer (bindings : CloudflareBindings) :
    Layer (BatchEvent U T n) SqlError U (CloudflareBindings × Connection) :=
  Layer.merge (Layer.succeed bindings) (makeDatabaseLayer bindings.env)

theorem makeBatchLayer_ran_iff (bindings : CloudflareBindings) (t : List (BatchEvent U T n)) :
    (makeBatchLayer bindings).ran t ↔ (connect bindings.env.connectionString).ran t := by
  refine (Layer.merge_succeed_ran_iff ..).trans ⟨?_, .inr⟩
  rintro (rfl | h)
  · exact .inl List.nil_prefix
  · exact h

theorem makeBatchLayer_success_iff (bindings : CloudflareBindings) (t fs : List (BatchEvent U T n))
    (services : CloudflareBindings × Connection) :
    (makeBatchLayer bindings).exits t (.success services) fs ↔
      t = [.connecting bindings.env.connectionString, .connected services.2] ∧
        fs = [.closed services.2] ∧ services.1 = bindings := by
  rw [makeBatchLayer, Layer.merge_succeed_exits_iff, Process.map_exits_success_iff]
  constructor
  · rintro ⟨conn, ⟨c, -, hc⟩ | ⟨conn', fs', ⟨rfl, ⟨conn'', rfl, hx⟩ | ⟨cause, -, hx⟩⟩, hx', rfl⟩,
      rfl⟩
    · cases hc
    · cases hx
      cases hx'
      exact ⟨rfl, rfl, rfl⟩
    · cases hx
  · rintro ⟨rfl, rfl, rfl⟩
    exact ⟨services.2, .inr ⟨services.2, [], ⟨rfl, .inl ⟨_, rfl, rfl⟩⟩, rfl, rfl⟩, rfl⟩

/-- The layer as part of the whole effect, when the connection opens. -/
theorem makeBatchLayer_opens (bindings : CloudflareBindings) (conn : Connection) :
    Process.exits (ε := BatchEvent U T n)
      ((makeBatchLayer bindings).mapFail (BatchError.connection (U := U)))
      [.connecting bindings.env.connectionString, .connected conn] (.success (bindings, conn))
      [.closed conn] :=
  ⟨_, (makeBatchLayer_success_iff _ _ _ (bindings, conn)).mpr ⟨rfl, rfl, rfl⟩, rfl⟩

theorem makeBatchLayer_failure_iff (bindings : CloudflareBindings) (t fs : List (BatchEvent U T n))
    (cause : Cause SqlError U) :
    (makeBatchLayer bindings).exits t (.failure cause) fs ↔
      t = [.connecting bindings.env.connectionString, .connectFailed cause] ∧ fs = [] := by
  rw [makeBatchLayer, Layer.merge_succeed_exits_iff, Process.map_exits_failure_iff]
  constructor
  · rintro (⟨c, ⟨rfl, ⟨conn, -, hx⟩ | ⟨cause', rfl, hx⟩⟩, hc⟩ | ⟨conn, fs', -, hc, -⟩)
    · cases hx
    · cases hx
      cases hc
      exact ⟨rfl, rfl⟩
    · cases hc
  · rintro ⟨rfl, rfl⟩
    exact .inl ⟨cause, ⟨rfl, .inr ⟨cause, rfl, rfl⟩⟩, rfl⟩

/-- The events of a batch whose connection is open. -/
def opened (env : Env) (conn : Connection) {n : Nat}
    (t : List (Fin n × Event (QueueSig U T) (ProcessError U) U Unit)) :
    List (BatchEvent U T n) :=
  .connecting env.connectionString :: .connected conn :: t.map fun e => .fiber conn e.1 e.2

theorem mem_opened {n : Nat} {conn : Connection}
    {t : List (Fin n × Event (QueueSig U T) (ProcessError U) U Unit)} {e : BatchEvent U T n}
    (h : e ∈ opened env conn t) : e = .connecting env.connectionString ∨ e = .connected conn ∨
      ∃ i e', e = .fiber conn i e' := by
  rcases List.mem_cons.mp h with rfl | h
  · exact .inl rfl
  rcases List.mem_cons.mp h with rfl | h
  · exact .inr (.inl rfl)
  · obtain ⟨⟨i, e'⟩, -, rfl⟩ := List.mem_map.mp h
    exact .inr (.inr ⟨i, e', rfl⟩)

variable [Throwable (ProcessError U) U]

/-- The loop, with the services of its context: every fiber has the connection
that was provided to the loop. -/
def forEachProcess (config : QueueHandlerConfig U T) (messages : List (Message U))
    (hx : Fin messages.length → Exit (HandlerError U) U Unit → Prop)
    (services : CloudflareBindings × Connection) :
    Process (BatchEvent U T messages.length) (Exit (ProcessError U) U Unit) where
  ran t := ∃ trace fs, (forEachMessage config messages hx).Run trace fs ∧
    (t = trace.map (fun e => .fiber services.2 e.1 e.2) ∨
      ∃ x, Loop.Exits fs x ∧ t = trace.map (fun e => .fiber services.2 e.1 e.2) ++ [.exited x])
  exits t x left := left = [] ∧ ∃ trace fs, (forEachMessage config messages hx).Run trace fs ∧
    Loop.Exits fs x ∧ t = trace.map (fun e => .fiber services.2 e.1 e.2) ++ [.exited x]
  ran_of_exits := by
    rintro t x left ⟨-, trace, fs, hrun, hexits, rfl⟩
    exact ⟨trace, fs, hrun, .inr ⟨x, hexits, rfl⟩⟩

/-- The effect a batch is: `forEach`, with the batch layer provided, scoped. -/
def batchEffect (config : QueueHandlerConfig U T) (messages : List (Message U))
    (bindings : CloudflareBindings)
    (hx : Fin messages.length → Exit (HandlerError U) U Unit → Prop) :
    Process (BatchEvent U T messages.length) (Exit (BatchError U) U Unit) :=
  (Process.provide (fun services => (forEachProcess config messages hx services).mapFail .process)
    ((makeBatchLayer bindings).mapFail .connection)).scoped

/-! ## Its logs -/

variable {config : QueueHandlerConfig U T} {messages : List (Message U)}
  {hx : Fin messages.length → Exit (HandlerError U) U Unit → Prop}
  {log : List (BatchEvent U T messages.length)} {s : BatchState U T messages.length}

/-- With the connection opened a batch can go through any run of its loop. -/
theorem batchRun_of_loop (env : Env) (conn : Connection)
    {t : List (Fin messages.length × Event (QueueSig U T) (ProcessError U) U Unit)}
    {fs : Fin messages.length → Fiber (QueueSig U T) (ProcessError U) U Unit}
    (h : (forEachMessage config messages hx).Run t fs) :
    BatchRun config messages env hx (opened env conn t) ⟨.running conn, fs⟩ := by
  induction h with
  | nil => exact (Runs.single (.connecting _)).snoc (.connected _ conn)
  | @snoc t fs e fs' _ hs ih =>
    obtain ⟨i, e⟩ := e
    have hnext := ih.snoc (.fiber fs conn i e fs' hs)
    simpa [opened] using hnext

/-- The connection was opened, the loop runs or has exited, and behind its exit
the connection may have been closed. -/
theorem batchRun_of_exits (env : Env) (conn : Connection)
    {t : List (Fin messages.length × Event (QueueSig U T) (ProcessError U) U Unit)}
    {fs : Fin messages.length → Fiber (QueueSig U T) (ProcessError U) U Unit}
    {x : Exit (ProcessError U) U Unit} (h : (forEachMessage config messages hx).Run t fs)
    (hexits : Loop.Exits fs x) :
    BatchRun config messages env hx (opened env conn t ++ [.exited x]) ⟨.closing conn x, fs⟩ ∧
      BatchRun config messages env hx (opened env conn t ++ [.exited x] ++ [.closed conn])
        ⟨.settled (x.mapFail .process), fs⟩ := by
  have hexited := (batchRun_of_loop env conn h).snoc (.exited fs conn x hexits)
  exact ⟨hexited, hexited.snoc (.closed fs conn x)⟩

theorem batchRun_of_connect (env : Env) (h : (connect env.connectionString).ran log) :
    ∃ s, BatchRun config messages env hx log s := by
  have hattempt : BatchRun config messages env hx [.connecting env.connectionString]
      ⟨.connecting, fun _ => .waiting⟩ := .snoc .nil (.connecting _)
  rcases h with h | ⟨conn, rfl⟩ | ⟨cause, rfl⟩
  · rcases List.prefix_cons_iff.mp h with rfl | ⟨t, rfl, ht⟩
    · exact ⟨_, .nil⟩
    · rw [List.prefix_nil.mp ht]
      exact ⟨_, hattempt⟩
  · exact ⟨_, hattempt.snoc (.connected _ conn)⟩
  · exact ⟨_, hattempt.snoc (.connectFailed _ cause)⟩

theorem unscoped_forEach (services : CloudflareBindings × Connection) :
    ((forEachProcess config messages hx services).mapFail
      (.process : ProcessError U → BatchError U)).Unscoped := by
  rintro t x fs ⟨y, ⟨rfl, -⟩, -⟩
  rfl

/-- The logs of the effect are those of a batch's runs. -/
theorem batchEffect_ran_iff (bindings : CloudflareBindings) :
    (batchEffect config messages bindings hx).ran log ↔
      ∃ s, BatchRun config messages bindings.env hx log s := by
  rw [batchEffect, Process.scoped_ran_iff (Process.unscoped_provide _ _),
    Process.provide_ran_iff unscoped_forEach]
  constructor
  · rintro (h | ⟨t₁, c, fs, t₂, ⟨y, hl, hy⟩, hpre, rfl⟩ |
      ⟨t₁, services, fs, t₂, ⟨y, hl, hy⟩, h, rfl⟩ |
      ⟨t₁, services, fs, t₂, x, t₃, ⟨y, hl, hy⟩, h, hpre, rfl⟩)
    · exact batchRun_of_connect _ ((makeBatchLayer_ran_iff ..).mp h)
    · cases y with
      | success _ => cases hy
      | failure cause =>
        obtain ⟨rfl, rfl⟩ := (makeBatchLayer_failure_iff ..).mp hl
        rw [List.prefix_nil.mp hpre, List.append_nil]
        exact batchRun_of_connect _ (.inr (.inr ⟨cause, rfl⟩))
    · cases y with
      | failure _ => cases hy
      | success services' =>
        cases hy
        obtain ⟨rfl, -, -⟩ := (makeBatchLayer_success_iff ..).mp hl
        obtain ⟨trace, gs, hrun, rfl | ⟨x, hexits, rfl⟩⟩ := h
        · exact ⟨_, batchRun_of_loop bindings.env services.2 hrun⟩
        · exact ⟨_, (batchRun_of_exits bindings.env services.2 hrun hexits).1⟩
    · cases y with
      | failure _ => cases hy
      | success services' =>
        cases hy
        obtain ⟨rfl, rfl, -⟩ := (makeBatchLayer_success_iff ..).mp hl
        obtain ⟨x', ⟨-, trace, gs, hrun, hexits, rfl⟩, -⟩ := h
        rcases List.prefix_cons_iff.mp hpre with rfl | ⟨t, rfl, ht⟩
        · rw [List.append_nil]
          exact ⟨_, (batchRun_of_exits bindings.env services.2 hrun hexits).1⟩
        · rw [List.prefix_nil.mp ht]
          exact ⟨_, (batchRun_of_exits bindings.env services.2 hrun hexits).2⟩
  · rintro ⟨s, h⟩
    have hlayer := makeBatchLayer_opens (U := U) (T := T) (n := messages.length) bindings
    have hshape := batchRun_shape h
    unfold Shape at hshape
    cases hp : s.phase with
    | idle =>
      simp only [hp] at hshape
      rw [hshape.1]
      exact .inl ((makeBatchLayer_ran_iff ..).mpr (.inl List.nil_prefix))
    | connecting =>
      simp only [hp] at hshape
      rw [hshape.1]
      exact .inl ((makeBatchLayer_ran_iff ..).mpr (.inl List.prefix_rfl))
    | running conn =>
      simp only [hp] at hshape
      rw [hshape]
      exact .inr (.inr (.inl ⟨_, _, _, _, hlayer conn, ⟨_, _, batchRun_loop h, .inl rfl⟩, rfl⟩))
    | closing conn x =>
      simp only [hp] at hshape
      rw [hshape.1]
      exact .inr (.inr (.inl ⟨_, _, _, _, hlayer conn,
        ⟨_, _, batchRun_loop h, .inr ⟨x, hshape.2, rfl⟩⟩, rfl⟩))
    | settled y =>
      simp only [hp] at hshape
      rcases hshape with ⟨cause, hlog, -, -⟩ | ⟨conn, x, hlog, -, hexits⟩
      · rw [hlog]
        exact .inl ((makeBatchLayer_ran_iff ..).mpr (.inr (.inr ⟨cause, rfl⟩)))
      · rw [hlog]
        refine .inr (.inr (.inr ⟨_, _, _, _, x.mapFail .process, [.closed conn], hlayer conn,
          ⟨x, ⟨rfl, _, _, batchRun_loop h, hexits, rfl⟩, rfl⟩, List.prefix_rfl, ?_⟩))
        simp

/-- It exits as a batch settles its promise, and leaves nothing behind. -/
theorem batchEffect_exits_iff (bindings : CloudflareBindings) (y : Exit (BatchError U) U Unit)
    (left : List (BatchEvent U T messages.length)) :
    (batchEffect config messages bindings hx).exits log y left ↔
      left = [] ∧ ∃ s, BatchRun config messages bindings.env hx log s ∧ s.phase = .settled y := by
  rw [batchEffect, Process.scoped_exits_iff (Process.unscoped_provide _ _),
    Process.provide_exits_iff unscoped_forEach]
  refine and_congr_right fun _ => ⟨?_, ?_⟩
  · rintro (⟨t₁, c, fs, ⟨y', hl, hy⟩, rfl, rfl⟩ | ⟨t₁, services, fs, t₂, ⟨y', hl, hy⟩, h, rfl⟩)
    · cases y' with
      | success _ => cases hy
      | failure cause =>
        cases hy
        obtain ⟨rfl, rfl⟩ := (makeBatchLayer_failure_iff ..).mp hl
        exact ⟨_, (Runs.single (.connecting _)).snoc (.connectFailed _ cause), rfl⟩
    · cases y' with
      | failure _ => cases hy
      | success services' =>
        cases hy
        obtain ⟨rfl, rfl, -⟩ := (makeBatchLayer_success_iff ..).mp hl
        obtain ⟨x, ⟨-, trace, gs, hrun, hexits, rfl⟩, rfl⟩ := h
        exact ⟨_, (batchRun_of_exits bindings.env services.2 hrun hexits).2, rfl⟩
  · rintro ⟨s, h, hp⟩
    have hshape := batchRun_shape h
    unfold Shape at hshape
    simp only [hp] at hshape
    rcases hshape with ⟨cause, rfl, rfl, -⟩ | ⟨conn, x, hlog, rfl, hexits⟩
    · exact .inl ⟨_, _, [], ⟨_, (makeBatchLayer_failure_iff ..).mpr ⟨rfl, rfl⟩, rfl⟩, rfl, by simp⟩
    · rw [hlog]
      refine .inr ⟨_, (bindings, conn), [.closed conn], _,
        makeBatchLayer_opens bindings conn, ⟨x, ⟨rfl, _, _, batchRun_loop h, hexits, rfl⟩, rfl⟩, ?_⟩
      simp

end Layers

end EffectWorker.Queue
