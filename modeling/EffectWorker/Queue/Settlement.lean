import EffectWorker.Queue.Batch

/-! When a batch settles every message once, by the message's own outcome. What
decides it is whether some exit is unrecoverable: a cause without an expected
error, or with a defect beside an error that is not the declared one, passes all
three recoveries, fails the loop and takes the other messages with it. -/

namespace EffectWorker.Queue

open Effect

section Settlements

variable {U T : Type}

/-- A handler's failure with an error other than the declared one, and with a
defect beside it. -/
def UnexpectedWithDefect : Exit (HandlerError U) U Unit → Prop
  | .success _ => False
  | .failure c => c.HasDie ∧ ∃ v, c.failureOption = some (.unexpected v)

/-- Decoding and handler of one message end in success or in a cause with an
expected error; and if that is not the declared error of a handler, without a
defect beside it. -/
def Recoverable (config : QueueHandlerConfig U T) (msg : Message U)
    (x : Exit (HandlerError U) U Unit) : Prop :=
  ¬ (config.schema msg.body).Unrecoverable ∧
    ∀ v, config.schema msg.body = .success v → ¬ x.Unrecoverable ∧ ¬ UnexpectedWithDefect x

theorem handlerOutcome_unrecoverable_iff (c : Cause (HandlerError U) U) :
    handlerOutcome c = .unrecoverable ↔
      ¬ c.HasFail ∨ c.HasDie ∧ ∃ v, c.failureOption = some (.unexpected v) := by
  cases hc : c.failureOption with
  | none => simp [handlerOutcome, hc, (Cause.failureOption_eq_none_iff c).mp hc]
  | some e =>
    have hfail := Cause.hasFail_of_error hc
    cases e with
    | processing e => simp [handlerOutcome, hc, hfail]
    | unexpected v => by_cases hdie : c.HasDie <;> simp [handlerOutcome, hc, hfail, hdie]

theorem outcome_unrecoverable_iff (config : QueueHandlerConfig U T) (msg : Message U)
    (x : Exit (HandlerError U) U Unit) :
    outcome msg (config.schema msg.body) x = .unrecoverable ↔ ¬ Recoverable config msg x := by
  unfold Recoverable
  cases hd : config.schema msg.body with
  | failure c =>
    cases hc : c.failureOption with
    | none => simp [outcome, hc, Exit.Unrecoverable, (Cause.failureOption_eq_none_iff c).mp hc]
    | some e =>
      simp [outcome, hc, Exit.Unrecoverable, Cause.hasFail_of_error hc]
  | success v =>
    cases x with
    | success _ => simp [outcome, Exit.Unrecoverable, UnexpectedWithDefect]
    | failure c =>
      simp only [outcome, handlerOutcome_unrecoverable_iff, Exit.Unrecoverable,
        UnexpectedWithDefect, not_false_eq_true, Exit.success.injEq, forall_eq', true_and, not_not]
      tauto

/-- The handler's exit does not matter for a body that does not decode. -/
theorem outcome_congr (config : QueueHandlerConfig U T) (msg : Message U)
    {x x' : Exit (HandlerError U) U Unit} (h : ∀ v, config.schema msg.body = .success v → x = x') :
    outcome msg (config.schema msg.body) x = outcome msg (config.schema msg.body) x' := by
  cases hd : config.schema msg.body with
  | failure c => rfl
  | success v => rw [h v hd]

theorem recoverable_congr (config : QueueHandlerConfig U T) {msg : Message U}
    {x x' : Exit (HandlerError U) U Unit} (h : ∀ v, config.schema msg.body = .success v → x = x') :
    Recoverable config msg x ↔ Recoverable config msg x' :=
  and_congr_right fun _ => forall_congr' fun v => forall_congr' fun hv => by rw [h v hv]

variable [Throwable (ProcessError U) U]

variable {config : QueueHandlerConfig U T} {messages : List (Message U)} {env : Env}
  {hx : Fin messages.length → Exit (HandlerError U) U Unit → Prop}
  {log : List (BatchEvent U T messages.length)} {s : BatchState U T messages.length}

/-- If every exit that can occur is recoverable, no fiber fails. -/
theorem batchRun_not_failing (hgood : ∀ i x, hx i x → Recoverable config (messages.get i) x)
    (hans : ∀ i, ∃ x, hx i x) (h : BatchRun config messages env hx log s) :
    ¬ Failing s.fibers := by
  refine Loop.run_not_failing ?_ (batchRun_loop h)
  intro i hist c hr
  change FiberRun (S := QueueSig U T) (allowed config (hx i))
    (processWithAckRetry config (messages.get i)) hist _ at hr
  obtain ⟨x, -, hexit⟩ := fiberRun_execution hr
  obtain ⟨has, c', -, hy⟩ := hexit _ (.inl rfl)
  have hrec : Recoverable config (messages.get i) x := by
    obtain ⟨x₀, hx₀⟩ := hans i
    refine ⟨(hgood i x₀ hx₀).1, fun v hv => ?_⟩
    have hm : (⟨.handler v, x⟩ : Answered (QueueSig U T)) ∈ answered hist := by
      rw [has, hv]
      simp [execution]
    exact (hgood i x (fiberRun_allowed hr (mem_answered.mp hm))).2 v hv
  have hne := mt (outcome_unrecoverable_iff config (messages.get i) x).mp (not_not.mpr hrec)
  cases ho : outcome (messages.get i) (config.schema (messages.get i).body) x with
  | unrecoverable => exact hne ho
  | done | failed _ =>
    rw [ho] at hy
    simp [Outcome.exit] at hy

/-- A promise that settles after recoverable exits only is fulfilled, and every
fiber has succeeded. -/
theorem batchRun_fulfilled (hgood : ∀ i x, hx i x → Recoverable config (messages.get i) x)
    (hans : ∀ i, ∃ x, hx i x) (h : BatchRun config messages env hx log s)
    (hopen : ∀ cause, .connectFailed cause ∉ log) {y : Exit (BatchError U) U Unit}
    (hy : s.phase = .settled y) :
    y = .success () ∧ ∀ i, s.fibers i = .ended (.success ()) := by
  have hshape := batchRun_shape h
  unfold Shape at hshape
  simp only [hy] at hshape
  rcases hshape with ⟨cause, hlog, -, -⟩ | ⟨conn, x, -, rfl, hexit⟩
  · exact absurd (by rw [hlog]; simp) (hopen cause)
  · cases hexit with
    | success hall => exact ⟨rfl, fun i => (hall i).elim fun _ hi => hi⟩
    | failure hi _ => exact absurd ⟨_, _, hi⟩ (batchRun_not_failing hgood hans h)

/-- Every fiber of a batch whose promise is fulfilled has succeeded. -/
theorem batchRun_success (h : BatchRun config messages env hx log s)
    (hopen : ∀ cause, .connectFailed cause ∉ log) (hy : s.phase = .settled (.success ()))
    (i : Fin messages.length) : s.fibers i = .ended (.success ()) := by
  have hshape := batchRun_shape h
  unfold Shape at hshape
  simp only [hy] at hshape
  rcases hshape with ⟨cause, hlog, -, -⟩ | ⟨conn, x, -, hx, hexit⟩
  · exact absurd (by rw [hlog]; simp) (hopen cause)
  · cases hexit with
    | failure _ _ => simp [Exit.mapFail] at hx
    | success hall => exact (hall i).elim fun _ hi => hi

/-- When the promise has settled after recoverable exits, every message has had
its handler run once, if it decodes, and the one call its exits determine. -/
theorem batchRun_settled (hgood : ∀ i x, hx i x → Recoverable config (messages.get i) x)
    (hans : ∀ i, ∃ x, hx i x) (h : BatchRun config messages env hx log s)
    (hopen : ∀ cause, .connectFailed cause ∉ log) {y : Exit (BatchError U) U Unit}
    (hy : s.phase = .settled y) (i : Fin messages.length) :
    ∃ x, (∀ v, config.schema (messages.get i).body = .success v →
        hx i x ∧ .answers (.handler v) x ∈ messageHistory log i) ∧
      calls log i = (settlement config
        (outcome (messages.get i) (config.schema (messages.get i).body) x)).toList ∧
      outcome (messages.get i) (config.schema (messages.get i).body) x ≠ .unrecoverable ∧
      handlerRuns log i = (match config.schema (messages.get i).body with
        | .success v => [v]
        | .failure _ => []) := by
  have hi := (batchRun_fulfilled hgood hans h hopen hy).2 i
  have hr := messageHistory_fiberRun h i
  obtain ⟨x, has, hne⟩ := messageHistory_success h hi
  refine ⟨x, fun v hv => ?_, ?_, hne, ?_⟩
  · have hm : .answers (.handler v) x ∈ messageHistory log i := by
      rw [← mem_answered, has, hv]
      simp [execution]
    exact ⟨fiberRun_allowed hr hm, hm⟩
  · rw [calls, has, settlements_execution]
  · -- an interrupted fiber would not have succeeded, so all it began was answered
    have hint : .interrupted ∉ messageHistory log i := by
      intro hm
      have hend := fiberRun_interrupted hr hm
      rw [hi] at hend
      simp [interruptedExit] at hend
    rw [handlerRuns, fiberRun_begun hr hint, hi, has, List.filterMap_append, handled_execution]
    cases config.schema (messages.get i).body <;> rfl

/-! ## Every message once -/

/-- At most one call on each message, and none before its decoding and its
handler have finished, whatever the handlers end with. -/
def CallsAtMostOnce (config : QueueHandlerConfig U T) (messages : List (Message U)) : Prop :=
  ∀ env log s, BatchRun config messages env (fun _ _ => True) log s → ∀ i,
    (calls log i).length ≤ 1 ∧
    (calls log i ≠ [] →
      .answers (.decodeUnknown (messages.get i).body) (config.schema (messages.get i).body) ∈
        messageHistory log i ∧
      ∀ v, config.schema (messages.get i).body = .success v →
        ∃ x, .answers (.handler v) x ∈ messageHistory log i)

def handlerSettlement : HandlerError U → Settlement
  | .processing e => if e.retryable then .retry else .ack
  | .unexpected _ => .retry

/-- One handler run if the body decodes and none if it does not, and one call,
by the exit of the message's own handler or decoding. -/
def SettledByOwnOutcome (config : QueueHandlerConfig U T) (messages : List (Message U))
    (log : List (BatchEvent U T messages.length)) (i : Fin messages.length) : Prop :=
  match config.schema (messages.get i).body with
  | .failure _ =>
    handlerRuns log i = [] ∧
      calls log i = [if config.onDecodeErrorOrDefault = .deadLetter then .ack else .retry]
  | .success v =>
    handlerRuns log i = [v] ∧ ∃ x, .answers (.handler v) x ∈ messageHistory log i ∧
      match x with
      | .success _ => calls log i = [.ack]
      | .failure c => ∃ e, c.failureOption = some e ∧ calls log i = [handlerSettlement e]

/-- What the handler runs of a batch may end with: always in something, and
never in a cause without an expected error. -/
structure HandlerExits (U : Type) (n : Nat) where
  may : Fin n → Exit (HandlerError U) U Unit → Prop
  ends : ∀ i, ∃ x, may i x
  expected : ∀ i x, may i x → ¬ x.Unrecoverable

/-- With the connection opened and the handlers ending as they may: the batch
comes to an end, its promise is fulfilled, and each message is settled by its
own outcome. -/
def EachSettledOnce (config : QueueHandlerConfig U T) (messages : List (Message U))
    (handlers : HandlerExits U messages.length) : Prop :=
  ∀ env log s, BatchRun config messages env handlers.may log s →
    (∀ cause, .connectFailed cause ∉ log) →
    batchEffort log ≤ messages.length * 10 + 4 ∧
    ((∃ y, s.phase = .settled y) ∨
      ∃ e s', BatchStep config messages env handlers.may s e s' ∧
        e.isWork = false ∧ ∀ cause, e ≠ .connectFailed cause) ∧
    ∀ y, s.phase = .settled y → y = .success () ∧ ∀ i, SettledByOwnOutcome config messages log i

def SettlesEachOnce (config : QueueHandlerConfig U T) (messages : List (Message U))
    (handlers : HandlerExits U messages.length) : Prop :=
  CallsAtMostOnce config messages ∧ EachSettledOnce config messages handlers

private theorem callsAtMostOnce (config : QueueHandlerConfig U T) (messages : List (Message U)) :
    CallsAtMostOnce config messages := by
  intro env log s h i
  rcases calls_spec h i with hnil | ⟨hd, x, hh, hcalls⟩
  · simp [hnil]
  · refine ⟨?_, fun _ => ⟨hd, fun v hv => ⟨x, (hh v hv).2⟩⟩⟩
    rw [hcalls]
    exact Option.length_toList_le

private theorem eachSettledOnce {handlers : HandlerExits U messages.length}
    (hgood : ∀ i x, handlers.may i x → Recoverable config (messages.get i) x) :
    EachSettledOnce config messages handlers := by
  intro env log s h hopen
  refine ⟨batchRun_effort h, ?_, fun y hy =>
    ⟨(batchRun_fulfilled hgood handlers.ends h hopen hy).1, fun i => ?_⟩⟩
  · by_cases hdone : ∃ y, s.phase = .settled y
    · exact .inl hdone
    · exact .inr (batch_progress config env handlers.ends s fun y hy => hdone ⟨y, hy⟩)
  obtain ⟨x, hh, hcalls, hne, hruns⟩ := batchRun_settled hgood handlers.ends h hopen hy i
  unfold SettledByOwnOutcome
  cases hd : config.schema (messages.get i).body with
  | failure c =>
    rw [hd] at hcalls hruns hne
    refine ⟨hruns, ?_⟩
    rw [hcalls]
    cases he : c.failureOption with
    | none => exact absurd (by simp [outcome, he]) hne
    | some e => simp [outcome, he, settlement]
  | success v =>
    rw [hd] at hcalls hruns hne
    refine ⟨hruns, x, (hh v hd).2, ?_⟩
    cases x with
    | success _ =>
      rw [hcalls]
      rfl
    | failure c =>
      change handlerOutcome c ≠ .unrecoverable at hne
      change calls log i = (settlement config (handlerOutcome c)).toList at hcalls
      rw [hcalls]
      unfold handlerOutcome at hne ⊢
      cases he : c.failureOption with
      | none => simp [he] at hne
      | some e =>
        refine ⟨e, he, ?_⟩
        cases e with
        | processing e => rfl
        | unexpected v =>
          have hdie : ¬ c.HasDie := fun hdie => by simp [he, hdie] at hne
          simp [hdie, settlement, handlerSettlement]

/-- An exit that a handler may end with and that nothing recovers from is not
settled in some run, and the promise of that run is not fulfilled. -/
private theorem not_eachSettledOnce {handlers : HandlerExits U messages.length}
    {i : Fin messages.length} {x : Exit (HandlerError U) U Unit} (hx : handlers.may i x)
    (hbad : ¬ Recoverable config (messages.get i) x) :
    ¬ EachSettledOnce config messages handlers := by
  intro hall
  -- the run in which the handler of this message ends with this exit
  let chosen : Fin messages.length → Exit (HandlerError U) U Unit → Prop :=
    fun j y => handlers.may j y ∧ (j = i → y = x)
  have hans : ∀ j, ∃ y, chosen j y := by
    intro j
    by_cases hj : j = i
    · subst hj
      exact ⟨x, hx, fun _ => rfl⟩
    · obtain ⟨y, hy⟩ := handlers.ends j
      exact ⟨y, hy, fun h => absurd h hj⟩
  obtain ⟨log, s, y, h, hy, hopen⟩ := batch_completes_initial config localEnv hans
  obtain ⟨rfl, -⟩ := (hall _ _ _ (batchRun_mono (fun _ _ h => h.1) h) hopen).2.2 y hy
  have hends := batchRun_success h hopen hy i
  obtain ⟨x', has, hne⟩ := messageHistory_success h hends
  refine hne ((outcome_unrecoverable_iff config _ x').mpr ?_)
  rwa [recoverable_congr config fun v hv => ?_]
  have hm : .answers (.handler v) x' ∈ messageHistory log i := by
    rw [← mem_answered, has, hv]
    simp [execution]
  exact (fiberRun_allowed (messageHistory_fiberRun h i) hm).2 rfl

/-- Each message of a batch is settled exactly once by its own outcome if and
only if no decoding ends in a cause without an expected error, and no handler
run in one with a defect beside an error that is not the declared one. -/
theorem settlesEachOnce_iff (config : QueueHandlerConfig U T) (messages : List (Message U))
    (handlers : HandlerExits U messages.length) :
    SettlesEachOnce config messages handlers ↔
      (∀ m ∈ messages, ¬ (config.schema m.body).Unrecoverable) ∧
      ∀ i v x, config.schema (messages.get i).body = .success v → handlers.may i x →
        ¬ UnexpectedWithDefect x := by
  constructor
  · intro h
    have hrec : ∀ i x, handlers.may i x → Recoverable config (messages.get i) x := by
      intro i x hx
      by_contra hbad
      exact not_eachSettledOnce hx hbad h.2
    refine ⟨fun m hm => ?_, fun i v x hv hx => ((hrec i x hx).2 v hv).2⟩
    obtain ⟨i, hi, rfl⟩ := List.getElem_of_mem hm
    obtain ⟨x, hx⟩ := handlers.ends ⟨i, hi⟩
    exact (hrec ⟨i, hi⟩ x hx).1
  · rintro ⟨hdecode, hhandlers⟩
    refine ⟨callsAtMostOnce config messages, eachSettledOnce fun i x hx => ?_⟩
    exact ⟨hdecode _ (List.get_mem ..),
      fun v hv => ⟨handlers.expected i x hx, hhandlers i v x hv hx⟩⟩

/-- A schema with a transformation that throws. -/
def throwingConfig : QueueHandlerConfig String String where
  schema _ := .failure (.die "transformation threw")

/-- Handlers that succeed. -/
def succeeding (n : Nat) : HandlerExits String n where
  may _ x := x = .success ()
  ends _ := ⟨_, rfl⟩
  expected := by
    rintro i x rfl
    exact id

theorem throwingSchema_notSettled :
    ¬ SettlesEachOnce throwingConfig [{ id := "m1", body := "payload" }] (succeeding 1) := by
  intro h
  have hthrows : (throwingConfig.schema "payload").Unrecoverable := by decide
  exact not_eachSettledOnce (i := 0) rfl (fun hrec => hrec.1 hthrows) h.2

end Settlements

end EffectWorker.Queue
