import EffectWorker.Queue.Audit
import EffectWorker.Queue.Order
import EffectWorker.Queue.Settlement

/-! The queue this worker deploys: the schema `ExampleEvent`, the handler
`handleExampleEvent`, five messages at a time. -/

namespace EffectWorker.Queue

open Effect

/-- A message body as the schema looks at it. `P` is whatever is neither
`undefined` nor a string nor a record, arrays among it. -/
inductive Value (P : Type)
  | undefined
  | string (text : String)
  | record (fields : List (String × Value P))
  | other (value : P)

structure ExampleEvent (P : Type) where
  type : String
  payload : Value P

section Example

variable {P : Type}

/-- `input[name]`, which is `undefined` where there is no such property. -/
def property (fields : List (String × Value P)) (name : String) : Value P :=
  ((fields.find? fun f => f.1 = name).map Prod.snd).getD .undefined

/-- `S.decodeUnknown(ExampleEvent)`; `message` is the text of the parse error.
Other properties are ignored, and a payload may be missing. -/
def decodeExampleEvent (message : Value P → String) (body : Value P) :
    Exit ParseError (Value P) (ExampleEvent P) :=
  match body with
  | .record fields =>
    match property fields "type" with
    | .string type => .success ⟨type, property fields "payload"⟩
    | _ => .failure (.fail ⟨message body⟩)
  | _ => .failure (.fail ⟨message body⟩)

/-- A thrown error is a value like others. -/
instance : Throwable (ProcessError (Value P)) (Value P) where
  thrown
    | .decode e => .record [("_tag", .string "QueueMessageDecodeError"),
        ("message", .string e.message), ("messageId", .string e.messageId)]
    | .handler (.processing e) => .record [("_tag", .string "QueueProcessingError"),
        ("message", .string e.message), ("messageId", .string e.messageId)]
    | .handler (.unexpected value) => value

inductive LogOp (P : Type)
  | log (text : String) (event : ExampleEvent P)

abbrev LogSig (P : Type) : Sig := ⟨LogOp P, fun _ => Unit⟩

def handleExampleEvent (event : ExampleEvent P) :
    Eff (LogSig P) (HandlerError (Value P)) (Value P) Unit :=
  Eff.op (S := LogSig P) (.log "Processing queue message" event)

def exampleConfig (message : Value P → String) :
    QueueHandlerConfig (Value P) (ExampleEvent P) where
  schema := decodeExampleEvent message
  concurrency := some 5

/-- The handler's exits: what `handleExampleEvent` comes to on the event. -/
def exampleExits (message : Value P → String) (messages : List (Message (Value P)))
    (i : Fin messages.length) (x : Exit (HandlerError (Value P)) (Value P) Unit) : Prop :=
  ∀ event, decodeExampleEvent message (messages.get i).body = .success event →
    x = (handleExampleEvent event).run fun _ => ()

/-- A body decodes, or fails with the one parse error of the schema. -/
theorem decodeExampleEvent_cases (message : Value P → String) (body : Value P) :
    (∃ event, decodeExampleEvent message body = .success event) ∨
      decodeExampleEvent message body = .failure (.fail ⟨message body⟩) := by
  cases body with
  | undefined | string _ | other _ => exact .inr rfl
  | record fields =>
    cases hp : property fields "type" with
    | string type => exact .inl ⟨_, by simp only [decodeExampleEvent, hp]; rfl⟩
    | undefined | record _ | other _ => exact .inr (by simp only [decodeExampleEvent, hp])

variable {message : Value P → String} {messages : List (Message (Value P))} {env : Env}
  {log : List (BatchEvent (Value P) (ExampleEvent P) messages.length)}
  {s : BatchState (Value P) (ExampleEvent P) messages.length}

theorem example_recoverable (i : Fin messages.length)
    (x : Exit (HandlerError (Value P)) (Value P) Unit) (hx : exampleExits message messages i x) :
    Recoverable (exampleConfig message) (messages.get i) x := by
  constructor
  · change ¬ (decodeExampleEvent message (messages.get i).body).Unrecoverable
    rcases decodeExampleEvent_cases message (messages.get i).body with ⟨event, hd⟩ | hd
    · rw [hd]
      exact fun hf => hf
    · rw [hd]
      exact not_not.mpr trivial
  · intro event hd
    rw [hx event hd]
    exact ⟨fun hf => hf, fun hf => hf⟩

theorem example_exits (i : Fin messages.length) :
    ∃ x, exampleExits message messages i x :=
  ⟨.success (), fun _ _ => rfl⟩

/-- How a message of this queue comes out: done, or with its parse error. -/
theorem example_outcome (i : Fin messages.length)
    {x : Exit (HandlerError (Value P)) (Value P) Unit} (hx : exampleExits message messages i x) :
    (∃ event, decodeExampleEvent message (messages.get i).body = .success event ∧
      outcome (messages.get i) ((exampleConfig message).schema (messages.get i).body) x = .done) ∨
    (decodeExampleEvent message (messages.get i).body =
        .failure (.fail ⟨message (messages.get i).body⟩) ∧
      outcome (messages.get i) ((exampleConfig message).schema (messages.get i).body) x =
        .failed (.decode (decodeError (messages.get i) ⟨message (messages.get i).body⟩))) := by
  change (∃ event, _ ∧ outcome _ (decodeExampleEvent message (messages.get i).body) x = _) ∨
    (_ ∧ outcome _ (decodeExampleEvent message (messages.get i).body) x = _)
  rcases decodeExampleEvent_cases message (messages.get i).body with ⟨event, hd⟩ | hd
  · refine .inl ⟨event, hd, ?_⟩
    rw [hd, hx event hd]
    rfl
  · refine .inr ⟨hd, ?_⟩
    rw [hd]
    rfl

/-- What is on record of a message once its batch is over: it was acked once,
after its handler, or after one line about its parse error. -/
structure Consumed (message : Value P → String) (messages : List (Message (Value P)))
    (log : List (BatchEvent (Value P) (ExampleEvent P) messages.length))
    (i : Fin messages.length) : Prop where
  acked : calls log i = [.ack]
  handled : ∀ event, decodeExampleEvent message (messages.get i).body = .success event →
    handlerRuns log i = [event] ∧ errorLog log i = []
  dropped : ∀ c, decodeExampleEvent message (messages.get i).body = .failure c →
    handlerRuns log i = [] ∧ errorLog log i = [("Message decode failed", .decode {
      message := "Failed to decode message: " ++ message (messages.get i).body
      messageId := (messages.get i).id
      cause := ⟨message (messages.get i).body⟩ })]

theorem example_consumed
    (h : BatchRun (exampleConfig message) messages env (exampleExits message messages) log s)
    (hopen : ∀ cause, .connectFailed cause ∉ log) {y : Exit (BatchError (Value P)) (Value P) Unit}
    (hy : s.phase = .settled y) (i : Fin messages.length) : Consumed message messages log i := by
  have hend := (batchRun_fulfilled example_recoverable example_exits h hopen hy).2 i
  obtain ⟨-, -, -, -, hruns⟩ := batchRun_settled example_recoverable example_exits h hopen hy i
  rw [show (exampleConfig message).schema (messages.get i).body =
    decodeExampleEvent message (messages.get i).body from rfl] at hruns
  obtain ⟨x, has, -⟩ := messageHistory_success h hend
  have hcalls : calls log i = (settlement (exampleConfig message) (outcome (messages.get i)
      ((exampleConfig message).schema (messages.get i).body) x)).toList := by
    rw [calls, has, settlements_execution]
  have hlines : errorLog log i = (outcome (messages.get i)
      ((exampleConfig message).schema (messages.get i).body) x).report := by
    rw [errorLog, has, lines_execution]
  have hx : exampleExits message messages i x := by
    intro event hd
    have hd' : (exampleConfig message).schema (messages.get i).body = .success event := hd
    have hm : .answers (.handler event) x ∈ messageHistory log i := by
      rw [← mem_answered, has, hd']
      simp [execution]
    exact fiberRun_allowed (messageHistory_fiberRun h i) hm event hd
  rcases example_outcome i hx with ⟨event, hd, ho⟩ | ⟨hd, ho⟩
  · rw [ho] at hcalls hlines
    rw [hd] at hruns
    constructor
    case acked => exact hcalls
    case handled =>
      intro event' hd'
      rw [hd] at hd'
      cases hd'
      exact ⟨hruns, hlines⟩
    case dropped =>
      intro c hd'
      rw [hd] at hd'
      cases hd'
  · rw [ho] at hcalls hlines
    rw [hd] at hruns
    constructor
    case acked => exact hcalls
    case handled =>
      intro event hd'
      rw [hd] at hd'
      cases hd'
    case dropped => exact fun c _ => ⟨hruns, hlines⟩

/-- The deployed queue: never more than five messages in progress, never a
`retry()`, nothing interrupted; and once the promise of a batch that had its
connection settles it is fulfilled, with every message consumed. -/
theorem exampleQueue_consumes
    (h : BatchRun (exampleConfig message) messages env (exampleExits message messages) log s)
    (hopen : ∀ cause, .connectFailed cause ∉ log) :
    inFlight s.fibers ≤ 5 ∧
    (∀ i, .retry ∉ calls log i ∧ ∀ conn, .fiber conn i .interrupted ∉ log) ∧
    ∀ y, s.phase = .settled y → y = .success () ∧ ∀ i, Consumed message messages log i := by
  refine ⟨(batchRun_scheduled h).bounded, fun i => ⟨fun hretry => ?_, fun conn hm => ?_⟩,
    fun y hy => ⟨(batchRun_fulfilled example_recoverable example_exits h hopen hy).1,
      example_consumed h hopen hy⟩⟩
  · rcases calls_spec h i with hnil | ⟨-, x, hh, hcalls⟩
    · rw [hnil] at hretry
      cases hretry
    · have hx : exampleExits message messages i x := fun event hd => (hh event hd).1 event hd
      rw [hcalls, Option.mem_toList] at hretry
      rcases example_outcome i hx with ⟨event, -, ho⟩ | ⟨-, ho⟩
      · rw [ho] at hretry
        cases hretry
      · rw [ho] at hretry
        cases hretry
  · obtain ⟨before, after, hlog⟩ := List.append_of_mem hm
    obtain ⟨conn', j, c, -, hfail⟩ := (batchRun_scheduled h).interrupted before conn i after hlog
    have hfailing : Failing s.fibers := by
      rw [run_failing_iff (batchRun_loop h)]
      refine ⟨j, c, mem_loopTrace.mpr ⟨conn', ?_⟩⟩
      rw [hlog]
      exact List.mem_append_left _ hfail
    exact batchRun_not_failing example_recoverable example_exits h hfailing

/-- An event and a body that is none, in one batch. -/
def exampleMessages : List (Message (Value Unit)) :=
  [⟨"m1", .record [("type", .string "user.created")]⟩, ⟨"m2", .string "not an event"⟩]

theorem exampleQueue_consumes_both :
    ∃ log, ∀ i, Consumed (fun _ => "Expected an event") exampleMessages log i := by
  have hexits : ∀ i, ∃ x, exampleExits (fun _ => "Expected an event") exampleMessages i x :=
    example_exits
  obtain ⟨log, s, y, h, hy, hopen⟩ := batch_completes_initial (exampleConfig _) localEnv hexits
  exact ⟨log, ((exampleQueue_consumes h hopen).2.2 y hy).2⟩

end Example

end EffectWorker.Queue
