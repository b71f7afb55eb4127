import EffectWorker.Effect.ForEach
import EffectWorker.Queue.Handler
import EffectWorker.Services

/-! One invocation of the function `makeQueueHandler` returns, one event after
the other. The batch layer is built around the whole loop: one connection is
opened before any message is looked at and closed after the loop has exited, and
the promise is settled by the exit that is left. That these are the runs of the
effect which the function composes is shown in `Queue.Layers`. -/

namespace EffectWorker.Queue

open Effect

inductive BatchError (U : Type)
  | connection (error : SqlError)
  | process (error : ProcessError U)
  deriving DecidableEq, Repr

/-- How far `Effect.runPromise(effect)` has come. -/
inductive Phase (U : Type)
  | idle
  | connecting
  | running (conn : Connection)
  | closing (conn : Connection) (result : Exit (ProcessError U) U Unit)
  | settled (result : Exit (BatchError U) U Unit)

/-- A fiber's event carries the connection that the context of the loop
provides to it. -/
inductive BatchEvent (U T : Type) (n : Nat)
  | connecting (url : String)
  | connected (conn : Connection)
  | connectFailed (cause : Cause SqlError U)
  | fiber (conn : Connection) (i : Fin n) (e : Event (QueueSig U T) (ProcessError U) U Unit)
  | exited (result : Exit (ProcessError U) U Unit)
  | closed (conn : Connection)

structure BatchState (U T : Type) (n : Nat) where
  phase : Phase U
  fibers : Fin n → Fiber (QueueSig U T) (ProcessError U) U Unit

section Batches

variable {U T : Type}

def initial (n : Nat) : BatchState U T n := ⟨.idle, fun _ => .waiting⟩

/-- The answers of one message's environment: the body decodes as the schema
says, and the handler ends with one of the exits `hx` allows. -/
def allowed (config : QueueHandlerConfig U T) (hx : Exit (HandlerError U) U Unit → Prop) :
    (o : QueueOp U T) → o.Ans → Prop
  | .decodeUnknown body, d => d = config.schema body
  | .handler _, x => hx x
  | .logError _ _, _ | .ack, _ | .retry, _ => True

/-- The events of the fibers, without the life of the connection. -/
def loopTrace {n : Nat} : List (BatchEvent U T n) →
    List (Fin n × Event (QueueSig U T) (ProcessError U) U Unit) :=
  List.filterMap fun e => match e with
    | .fiber _ i e => some (i, e)
    | _ => none

@[simp] theorem loopTrace_append {n : Nat} (log log' : List (BatchEvent U T n)) :
    loopTrace (log ++ log') = loopTrace log ++ loopTrace log' := List.filterMap_append

def Settlement.of : QueueOp U T → Option Settlement
  | .ack => some .ack
  | .retry => some .retry
  | _ => none

def settlements (as : List (Answered (QueueSig U T))) : List Settlement :=
  as.filterMap fun a => Settlement.of a.1

/-- The events of one message's fiber. -/
def messageHistory {n : Nat} (log : List (BatchEvent U T n)) (i : Fin n) :
    List (Event (QueueSig U T) (ProcessError U) U Unit) :=
  history i (loopTrace log)

/-- The calls made on one message, oldest first. -/
def calls {n : Nat} (log : List (BatchEvent U T n)) (i : Fin n) : List Settlement :=
  settlements (answered (messageHistory log i))

def QueueOp.handled : QueueOp U T → Option T
  | .handler v => some v
  | _ => none

/-- The values the handler has been started on for one message. -/
def handlerRuns {n : Nat} (log : List (BatchEvent U T n)) (i : Fin n) : List T :=
  (begun (messageHistory log i)).filterMap QueueOp.handled

theorem settlements_execution (config : QueueHandlerConfig U T) (msg : Message U)
    (d : Exit ParseError U T) (x : Exit (HandlerError U) U Unit) :
    settlements (execution config msg d x) = (settlement config (outcome msg d x)).toList := by
  have hc : ∀ o : Outcome U, settlements (conclusion config o) = (settlement config o).toList := by
    intro o
    simp only [settlements, conclusion, List.filterMap_append]
    cases settlement config o with
    | none => cases o <;> simp [Settlement.of]
    | some s => cases o <;> cases s <;> simp [Settlement.of, Settlement.answered]
  cases d <;> simpa [settlements, execution, Settlement.of] using hc _

theorem handled_execution (config : QueueHandlerConfig U T) (msg : Message U)
    (d : Exit ParseError U T) (x : Exit (HandlerError U) U Unit) :
    ((execution config msg d x).map Sigma.fst).filterMap QueueOp.handled =
      match d with
      | .success v => [v]
      | .failure _ => [] := by
  have hc : ∀ o : Outcome U,
      ((conclusion config o).map Sigma.fst).filterMap QueueOp.handled = [] := by
    intro o
    simp only [conclusion, List.map_append, List.filterMap_append]
    cases settlement config o with
    | none => cases o <;> simp [QueueOp.handled]
    | some c => cases o <;> cases c <;> simp [QueueOp.handled, Settlement.answered]
  cases d with
  | success v => exact congrArg (v :: ·) (hc (outcome msg (.success v) x))
  | failure c => exact hc _

/-- What the log of a batch looks like in each phase: the connection events
enclose the events of the fibers, which all carry the one connection. -/
def Shape {n : Nat} (env : Env) (log : List (BatchEvent U T n)) (s : BatchState U T n) : Prop :=
  let opened conn := .connecting env.connectionString :: .connected conn ::
    (loopTrace log).map fun e => .fiber conn e.1 e.2
  match s.phase with
  | .idle => log = [] ∧ s.fibers = fun _ => .waiting
  | .connecting => log = [.connecting env.connectionString] ∧ s.fibers = fun _ => .waiting
  | .running conn => log = opened conn
  | .closing conn x => log = opened conn ++ [.exited x] ∧ Loop.Exits s.fibers x
  | .settled y =>
    (∃ cause, log = [.connecting env.connectionString, .connectFailed cause] ∧
      y = .failure (cause.map .connection) ∧ s.fibers = fun _ => .waiting) ∨
    ∃ conn x, log = opened conn ++ [.exited x, .closed conn] ∧ y = x.mapFail .process ∧
      Loop.Exits s.fibers x

private theorem finished_of_settled {config : QueueHandlerConfig U T} {msg : Message U}
    {d : Exit ParseError U T} {x : Exit (HandlerError U) U Unit}
    {as : List (Answered (QueueSig U T))}
    (hpre : as <+: execution config msg d x) (hs : settlements as ≠ []) :
    ⟨.decodeUnknown msg.body, d⟩ ∈ as ∧ ∀ v, d = .success v → ⟨.handler v, x⟩ ∈ as := by
  cases as with
  | nil => exact absurd rfl hs
  | cons a as =>
    obtain ⟨rfl, htail⟩ := List.cons_prefix_cons.mp hpre
    refine ⟨List.mem_cons_self, fun v hv => ?_⟩
    subst hv
    cases as with
    | nil => exact absurd rfl hs
    | cons b bs =>
      obtain ⟨rfl, -⟩ := List.cons_prefix_cons.mp htail
      simp

def BatchEvent.isWork {n : Nat} : BatchEvent U T n → Bool
  | .fiber _ _ e => e.isWork
  | _ => false

def batchEffort {n : Nat} (log : List (BatchEvent U T n)) : Nat :=
  (log.filter fun e => !e.isWork).length

theorem batchEffort_append {n : Nat} (log log' : List (BatchEvent U T n)) :
    batchEffort (log ++ log') = batchEffort log + batchEffort log' := by
  simp [batchEffort]

theorem batchEffort_cons {n : Nat} (e : BatchEvent U T n) (log : List (BatchEvent U T n)) :
    batchEffort (e :: log) = (if e.isWork then 0 else 1) + batchEffort log := by
  cases he : e.isWork <;> simp [batchEffort, he, Nat.add_comm]

variable [Throwable (ProcessError U) U]

/-- `Effect.forEach(batch.messages, processWithAckRetry, { concurrency, discard })`;
a concurrency below two means one element at a time. -/
def forEachMessage (config : QueueHandlerConfig U T) (messages : List (Message U))
    (hx : Fin messages.length → Exit (HandlerError U) U Unit → Prop) :
    Loop (QueueSig U T) (ProcessError U) U Unit messages.length where
  body i := processWithAckRetry config (messages.get i)
  allowed i := allowed config (hx i)
  slots := max 1 config.concurrencyOrDefault

inductive BatchStep (config : QueueHandlerConfig U T) (messages : List (Message U)) (env : Env)
    (hx : Fin messages.length → Exit (HandlerError U) U Unit → Prop) :
    BatchState U T messages.length → BatchEvent U T messages.length →
      BatchState U T messages.length → Prop
  | connecting (fs) : BatchStep config messages env hx ⟨.idle, fs⟩
      (.connecting env.connectionString) ⟨.connecting, fs⟩
  | connected (fs conn) : BatchStep config messages env hx ⟨.connecting, fs⟩
      (.connected conn) ⟨.running conn, fs⟩
  | connectFailed (fs cause) : BatchStep config messages env hx ⟨.connecting, fs⟩
      (.connectFailed cause) ⟨.settled (.failure (cause.map .connection)), fs⟩
  | fiber (fs conn i e fs') : (forEachMessage config messages hx).Step fs (i, e) fs' →
      BatchStep config messages env hx ⟨.running conn, fs⟩ (.fiber conn i e) ⟨.running conn, fs'⟩
  | exited (fs conn x) : Loop.Exits fs x →
      BatchStep config messages env hx ⟨.running conn, fs⟩ (.exited x) ⟨.closing conn x, fs⟩
  | closed (fs conn x) : BatchStep config messages env hx ⟨.closing conn x, fs⟩
      (.closed conn) ⟨.settled (x.mapFail .process), fs⟩

/-- A run of one invocation. -/
abbrev BatchRun (config : QueueHandlerConfig U T) (messages : List (Message U)) (env : Env)
    (hx : Fin messages.length → Exit (HandlerError U) U Unit → Prop) :
    List (BatchEvent U T messages.length) → BatchState U T messages.length → Prop :=
  Runs (BatchStep config messages env hx) (initial _)

variable {config : QueueHandlerConfig U T} {messages : List (Message U)} {env : Env}
  {hx : Fin messages.length → Exit (HandlerError U) U Unit → Prop}
  {log : List (BatchEvent U T messages.length)} {s : BatchState U T messages.length}

/-- The fibers of a batch go through a run of the loop. -/
theorem batchRun_loop (h : BatchRun config messages env hx log s) :
    (forEachMessage config messages hx).Run (loopTrace log) s.fibers := by
  induction h with
  | nil => exact .nil
  | snoc _ hs ih =>
    rw [loopTrace_append]
    cases hs with
    | fiber fs conn i e fs' hstep => exact .snoc ih hstep
    | connecting | connected | connectFailed | exited | closed => simpa [loopTrace] using ih

/-- A run stays one where the handlers may end with more. -/
theorem batchRun_mono {hx' : Fin messages.length → Exit (HandlerError U) U Unit → Prop}
    (hmono : ∀ i x, hx i x → hx' i x) (h : BatchRun config messages env hx log s) :
    BatchRun config messages env hx' log s := by
  refine Runs.mono (fun s e s' hs => ?_) h
  cases hs with
  | connecting fs => exact .connecting fs
  | connected fs conn => exact .connected fs conn
  | connectFailed fs cause => exact .connectFailed fs cause
  | exited fs conn x hexit => exact .exited fs conn x hexit
  | closed fs conn x => exact .closed fs conn x
  | fiber fs conn i e fs' hstep =>
    refine .fiber fs conn i e fs' ?_
    refine Loop.step_mono (L := forEachMessage config messages hx) (fun j o r hr => ?_) hstep
    cases o with
    | decodeUnknown body => exact hr
    | handler v => exact hmono j r hr
    | logError _ _ | ack | retry => trivial

theorem batchRun_shape (h : BatchRun config messages env hx log s) : Shape env log s := by
  induction h with
  | nil => exact ⟨rfl, rfl⟩
  | @snoc log s e s' _ hs ih =>
    unfold Shape at ih ⊢
    simp only [loopTrace_append]
    cases hs with
    | connecting fs =>
      obtain ⟨rfl, hf⟩ := ih
      exact ⟨rfl, hf⟩
    | connected fs conn =>
      obtain ⟨rfl, _⟩ := ih
      rfl
    | connectFailed fs cause =>
      obtain ⟨rfl, hf⟩ := ih
      exact .inl ⟨cause, rfl, rfl, hf⟩
    | fiber fs conn i e fs' _ =>
      simp only at ih ⊢
      rw [List.map_append]
      nth_rewrite 1 [ih]
      rfl
    | exited fs conn x hexit =>
      simp only at ih ⊢
      refine ⟨?_, hexit⟩
      nth_rewrite 1 [ih]
      simp [loopTrace]
    | closed fs conn x =>
      simp only at ih ⊢
      obtain ⟨hlog, hexit⟩ := ih
      refine .inr ⟨conn, x, ?_, rfl, hexit⟩
      nth_rewrite 1 [hlog]
      simp [loopTrace]

/-! ## One message of a batch -/

/-- The answers given to a message's fiber are a prefix of the execution that
its own body and its own handler exit determine; a fiber with an exit has gone
through all of it. -/
theorem fiberRun_execution {msg : Message U} {hm : Exit (HandlerError U) U Unit → Prop}
    {h : List (Event (QueueSig U T) (ProcessError U) U Unit)}
    {f : Fiber (QueueSig U T) (ProcessError U) U Unit}
    (hr : FiberRun (S := QueueSig U T) (allowed config hm) (processWithAckRetry config msg) h f) :
    ∃ x, answered h <+: execution config msg (config.schema msg.body) x ∧
      ∀ y, (f = .ready (.exit y) ∨ f = .ended y ∧ y ≠ interruptedExit) →
        answered h = execution config msg (config.schema msg.body) x ∧
        ∃ c, c.failureOption = none ∧ y = (outcome msg (config.schema msg.body) x).exit c := by
  obtain ⟨p, hp, hready, hended⟩ := fiberRun_path hr
  obtain ⟨d, x, hpre, hexit⟩ := processWithAckRetry_path hp
  have hall : ∀ y, (f = .ready (.exit y) ∨ f = .ended y ∧ y ≠ interruptedExit) →
      answered h = execution config msg d x ∧
        ∃ c, c.failureOption = none ∧ y = (outcome msg d x).exit c := by
    rintro y (hy | ⟨hy, hne⟩)
    · exact hexit y (hready _ hy)
    · exact hexit y (hended y hy hne)
  cases has : answered h with
  | nil =>
    refine ⟨x, List.nil_prefix, fun y hy => ?_⟩
    have hnil := (hall y hy).1
    simp [has, execution] at hnil
  | cons a as =>
    -- the first answer is the decoding's, and the schema gives it
    have ha : a = ⟨.decodeUnknown msg.body, d⟩ := by
      rw [has] at hpre
      exact (List.cons_prefix_cons.mp hpre).1
    have hd : d = config.schema msg.body := by
      have hm : (⟨.decodeUnknown msg.body, d⟩ : Answered (QueueSig U T)) ∈ answered h := by
        rw [has, ha]
        exact List.mem_cons_self
      exact fiberRun_allowed hr (mem_answered.mp hm)
    subst hd
    rw [← has]
    exact ⟨x, hpre, hall⟩

theorem messageHistory_fiberRun (h : BatchRun config messages env hx log s)
    (i : Fin messages.length) :
    FiberRun (S := QueueSig U T) (allowed config (hx i))
      (processWithAckRetry config (messages.get i)) (messageHistory log i) (s.fibers i) :=
  Loop.run_fiber (batchRun_loop h) i

/-- A message whose fiber has succeeded went through the whole execution of a
recoverable outcome. -/
theorem messageHistory_success (h : BatchRun config messages env hx log s)
    {i : Fin messages.length} (hi : s.fibers i = .ended (.success ())) :
    ∃ x, answered (messageHistory log i) =
        execution config (messages.get i) (config.schema (messages.get i).body) x ∧
      outcome (messages.get i) (config.schema (messages.get i).body) x ≠ .unrecoverable := by
  obtain ⟨x, -, hall⟩ := fiberRun_execution (messageHistory_fiberRun h i)
  obtain ⟨has, c, -, hy⟩ := hall _ (.inr ⟨hi, by simp [interruptedExit]⟩)
  refine ⟨x, has, fun ho => ?_⟩
  rw [ho] at hy
  simp [Outcome.exit] at hy

/-- A message on which a call was made had its decoding and its handler finish
before, and the call is the one their exits determine. -/
theorem calls_spec (h : BatchRun config messages env hx log s) (i : Fin messages.length) :
    calls log i = [] ∨
      .answers (.decodeUnknown (messages.get i).body) (config.schema (messages.get i).body) ∈
        messageHistory log i ∧
      ∃ x, (∀ v, config.schema (messages.get i).body = .success v →
          hx i x ∧ .answers (.handler v) x ∈ messageHistory log i) ∧
        calls log i = (settlement config
          (outcome (messages.get i) (config.schema (messages.get i).body) x)).toList := by
  obtain ⟨x, hpre, -⟩ := fiberRun_execution (messageHistory_fiberRun h i)
  by_cases hs : calls log i = []
  · exact .inl hs
  obtain ⟨hd, hh⟩ := finished_of_settled hpre hs
  refine .inr ⟨mem_answered.mp hd, x, fun v hv => ?_, ?_⟩
  · have hm := mem_answered.mp (hh v hv)
    exact ⟨fiberRun_allowed (messageHistory_fiberRun h i) hm, hm⟩
  · have hcalls : calls log i <+: (settlement config
        (outcome (messages.get i) (config.schema (messages.get i).body) x)).toList := by
      rw [← settlements_execution]
      exact hpre.filterMap _
    cases ho : settlement config
        (outcome (messages.get i) (config.schema (messages.get i).body) x) with
    | none =>
      rw [ho] at hcalls
      exact List.prefix_nil.mp hcalls
    | some c =>
      rw [ho] at hcalls
      rcases List.prefix_cons_iff.mp hcalls with hnil | ⟨t, ht, hpt⟩
      · exact absurd hnil hs
      · rw [ht, List.prefix_nil.mp hpt]
        rfl

/-! ## Progress and termination -/

/-- Handlers at work aside, a batch takes a bounded number of steps. -/
theorem batchRun_effort (h : BatchRun config messages env hx log s) :
    batchEffort log ≤ messages.length * 10 + 4 := by
  have hloop := Loop.run_effort (fun i => processWithAckRetry_within config (messages.get i))
    (batchRun_loop h)
  have hopened : ∀ conn, batchEffort (.connecting env.connectionString :: .connected conn ::
      (loopTrace log).map fun e => .fiber conn e.1 e.2) ≤ messages.length * 10 + 2 := by
    intro conn
    have hfibers : batchEffort ((loopTrace log).map fun e => .fiber conn e.1 e.2) ≤
        messages.length * 10 := by
      rw [batchEffort, List.filter_map, List.length_map]
      exact hloop
    simp only [batchEffort_cons, BatchEvent.isWork, Bool.false_eq_true, ↓reduceIte]
    omega
  have hshape := batchRun_shape h
  unfold Shape at hshape
  cases hp : s.phase with
  | idle =>
    simp only [hp] at hshape
    rw [hshape.1]
    simp [batchEffort]
  | connecting =>
    simp only [hp] at hshape
    rw [hshape.1]
    simp [batchEffort, BatchEvent.isWork]
  | running conn =>
    simp only [hp] at hshape
    rw [hshape]
    exact (hopened conn).trans (Nat.add_le_add_left (by decide) _)
  | closing conn x =>
    simp only [hp] at hshape
    rw [hshape.1, batchEffort_append]
    calc _ ≤ messages.length * 10 + 2 + 2 :=
          Nat.add_le_add (hopened conn) (by simp [batchEffort, BatchEvent.isWork])
      _ = messages.length * 10 + 4 := rfl
  | settled y =>
    simp only [hp] at hshape
    rcases hshape with ⟨cause, hlog, -, -⟩ | ⟨conn, x, hlog, -, -⟩
    · rw [hlog]
      simp [batchEffort, BatchEvent.isWork]
    · rw [hlog, batchEffort_append]
      calc _ ≤ messages.length * 10 + 2 + 2 :=
            Nat.add_le_add (hopened conn) (by simp [batchEffort, BatchEvent.isWork])
        _ = messages.length * 10 + 4 := rfl

/-- A batch whose promise is not settled is never stuck, nor does it depend on
the connection failing or on a handler going on working. -/
theorem batch_progress (config : QueueHandlerConfig U T) (env : Env) (hans : ∀ i, ∃ x, hx i x)
    (s : BatchState U T messages.length) (hopen : ∀ y, s.phase ≠ .settled y) :
    ∃ e s', BatchStep config messages env hx s e s' ∧ e.isWork = false ∧
      ∀ cause, e ≠ .connectFailed cause := by
  obtain ⟨phase, fs⟩ := s
  cases phase with
  | idle => exact ⟨_, _, .connecting fs, rfl, by simp⟩
  | connecting => exact ⟨_, _, .connected fs 0, rfl, by simp⟩
  | running conn =>
    have hallowed : ∀ i o, ∃ r, (forEachMessage config messages hx).allowed i o r := by
      intro i o
      cases o with
      | decodeUnknown body => exact ⟨config.schema body, rfl⟩
      | handler v => exact hans i
      | logError _ _ | ack | retry => exact ⟨(), trivial⟩
    have hslots : 0 < (forEachMessage config messages hx).slots := by
      simp [forEachMessage]
    rcases Loop.progress _ hslots hallowed fs with ⟨⟨i, e⟩, fs', hstep, hw⟩ | ⟨x, hexit⟩
    · exact ⟨_, _, .fiber fs conn i e fs' hstep, hw, by simp⟩
    · exact ⟨_, _, .exited fs conn x hexit, rfl, by simp⟩
  | closing conn x => exact ⟨_, _, .closed fs conn x, rfl, by simp⟩
  | settled y => exact absurd rfl (hopen y)

/-- Every run can be continued until the promise is settled. -/
theorem batch_completes (hans : ∀ i, ∃ x, hx i x) (h : BatchRun config messages env hx log s) :
    ∃ log' s' y, BatchRun config messages env hx (log ++ log') s' ∧ s'.phase = .settled y ∧
      ∀ cause, .connectFailed cause ∉ log' := by
  -- the effort still available shrinks with every step that is not handler work
  generalize hk : messages.length * 10 + 4 - batchEffort log = k
  induction k using Nat.strong_induction_on generalizing log s with
  | _ k ih =>
    by_cases hdone : ∃ y, s.phase = .settled y
    · obtain ⟨y, hy⟩ := hdone
      exact ⟨[], s, y, by simpa using h, hy, by simp⟩
    · obtain ⟨e, s', hstep, hw, hne⟩ := batch_progress config env hans s fun y hy => hdone ⟨y, hy⟩
      have hnext := Runs.snoc h hstep
      have heff : batchEffort (log ++ [e]) = batchEffort log + 1 := by
        rw [batchEffort_append, batchEffort_cons, hw]
        rfl
      have hbound := batchRun_effort hnext
      obtain ⟨log', s'', y, hrun, hy, hfail⟩ := ih _ (by omega) hnext rfl
      refine ⟨e :: log', s'', y, by simpa using hrun, hy, fun cause hm => ?_⟩
      rcases List.mem_cons.mp hm with he | hm
      · exact hne cause he.symm
      · exact hfail cause hm

/-- Every batch has a run that settles its promise with the connection opened. -/
theorem batch_completes_initial (config : QueueHandlerConfig U T) (env : Env)
    (hans : ∀ i, ∃ x, hx i x) :
    ∃ log s y, BatchRun config messages env hx log s ∧ s.phase = .settled y ∧
      ∀ cause, .connectFailed cause ∉ log := by
  obtain ⟨log, s, y, h, hy, hopen⟩ :=
    batch_completes hans (.nil : BatchRun config messages env hx _ _)
  exact ⟨log, s, y, h, hy, hopen⟩

end Batches

end EffectWorker.Queue
