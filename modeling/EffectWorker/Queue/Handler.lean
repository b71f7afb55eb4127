import EffectWorker.Effect.Program

/-! The program `makeQueueHandler` runs for one message: decode the body, run
the handler on the decoded value, and settle the message by what came out. The
handler is the caller's: running it is one operation, answered by the exit it
ends with. `U` is the type of unknown values (bodies, thrown values, causes),
`T` the type a body decodes to. -/

namespace EffectWorker.Queue

open Effect

/-! ## Errors -/

structure ParseError where
  message : String
  deriving DecidableEq, Repr

structure QueueMessageDecodeError where
  message : String
  messageId : String
  cause : ParseError
  deriving DecidableEq, Repr

structure QueueProcessingError (U : Type) where
  message : String
  messageId : String
  cause : U
  retryable : Bool
  deriving DecidableEq, Repr

/-- What a handler fails with: its declared error, or a value whose `_tag` is
neither of the two the recovery looks for. -/
inductive HandlerError (U : Type)
  | processing (error : QueueProcessingError U)
  | unexpected (value : U)
  deriving DecidableEq, Repr

inductive ProcessError (U : Type)
  | decode (error : QueueMessageDecodeError)
  | handler (error : HandlerError U)
  deriving DecidableEq, Repr

def ProcessError.tag {U : Type} : ProcessError U → Option String
  | .decode _ => some "QueueMessageDecodeError"
  | .handler (.processing _) => some "QueueProcessingError"
  | .handler (.unexpected _) => none

def ProcessError.retryable {U : Type} : ProcessError U → Bool
  | .handler (.processing e) => e.retryable
  | _ => false

/-- Where the unknown values are texts, an error is thrown as its message. -/
instance : Throwable (ProcessError String) String where
  thrown
    | .decode e => e.message
    | .handler (.processing e) => e.message
    | .handler (.unexpected value) => value

/-! ## Configuration -/

inductive OnDecodeError
  | deadLetter
  | retry
  deriving DecidableEq, Repr

/-- `schema` is how the configured schema decodes a body: a transformation may
throw, so a defect is among its exits. -/
structure QueueHandlerConfig (U T : Type) where
  schema : U → Exit ParseError U T
  concurrency : Option Nat := none
  onDecodeError : Option OnDecodeError := none

def QueueHandlerConfig.concurrencyOrDefault {U T : Type} (config : QueueHandlerConfig U T) : Nat :=
  config.concurrency.getD 1

def QueueHandlerConfig.onDecodeErrorOrDefault {U T : Type} (config : QueueHandlerConfig U T) :
    OnDecodeError :=
  config.onDecodeError.getD .deadLetter

structure Message (U : Type) where
  id : String
  body : U
  deriving DecidableEq, Repr

/-! ## Programs -/

inductive QueueOp (U T : Type)
  | decodeUnknown (body : U)
  | handler (message : T)
  | logError (text : String) (error : ProcessError U)
  | ack
  | retry

@[reducible] def QueueOp.Ans {U T : Type} : QueueOp U T → Type
  | .decodeUnknown _ => Exit ParseError U T
  | .handler _ => Exit (HandlerError U) U Unit
  | .logError _ _ | .ack | .retry => Unit

abbrev QueueSig (U T : Type) : Sig := ⟨QueueOp U T, QueueOp.Ans⟩

section Programs

variable {U T : Type}

abbrev QueueEff (U T E A : Type) := Eff (QueueSig U T) E U A

def decodeUnknown (body : U) : QueueEff U T ParseError T :=
  Eff.perform (S := QueueSig U T) (.decodeUnknown body) .exit

def handler (message : T) : QueueEff U T (ProcessError U) Unit :=
  Eff.perform (S := QueueSig U T) (.handler message) fun x => .exit (Exit.mapFail .handler x)

def logError (text : String) (error : ProcessError U) : QueueEff U T (ProcessError U) Unit :=
  Eff.op (S := QueueSig U T) (.logError text error)

def ack : QueueEff U T (ProcessError U) Unit := Eff.op (S := QueueSig U T) .ack
def retry : QueueEff U T (ProcessError U) Unit := Eff.op (S := QueueSig U T) .retry

def decodeError (msg : Message U) (error : ParseError) : QueueMessageDecodeError :=
  { message := "Failed to decode message: " ++ error.message
    messageId := msg.id
    cause := error }

def processMessage (msg : Message U) : QueueEff U T (ProcessError U) Unit :=
  ((decodeUnknown msg.body).mapError fun error => .decode (decodeError msg error)).flatMap
    fun decoded => handler decoded

def processWithAckRetry [Throwable (ProcessError U) U] (config : QueueHandlerConfig U T)
    (msg : Message U) : QueueEff U T (ProcessError U) Unit :=
  ((((processMessage msg).tap fun _ => ack).catchTag ProcessError.tag "QueueMessageDecodeError"
    fun error => (logError "Message decode failed" error).flatMap fun _ =>
      if config.onDecodeErrorOrDefault = .deadLetter then ack else retry).catchTag
        ProcessError.tag "QueueProcessingError"
    fun error => (logError "Message processing failed" error).flatMap fun _ =>
      if error.retryable then retry else ack).catchAll
    fun error => (logError "Unexpected error processing message" error).flatMap fun _ => retry

end Programs

/-! ## What the program does -/

inductive Settlement
  | ack
  | retry
  deriving DecidableEq, Repr

/-- How processing a message came out, before it is settled. -/
inductive Outcome (U : Type)
  | done
  | failed (error : ProcessError U)
  | unrecoverable
  deriving DecidableEq

section Outcomes

variable {U T : Type}

/-- What a handler's failure comes to. Its declared error is recovered from by
its tag, whatever else the cause holds; another one only by the catch-all, which
passes a cause with defects on. -/
def handlerOutcome (c : Cause (HandlerError U) U) : Outcome U :=
  match c.failureOption with
  | some (.processing e) => .failed (.handler (.processing e))
  | some (.unexpected v) => if c.HasDie then .unrecoverable else .failed (.handler (.unexpected v))
  | none => .unrecoverable

theorem handlerOutcome_ne_done (c : Cause (HandlerError U) U) : handlerOutcome c ≠ .done := by
  unfold handlerOutcome
  split
  · simp
  · split <;> simp
  · simp

/-- A failure is reported as its leftmost error. -/
theorem handlerOutcome_failed {c : Cause (HandlerError U) U} {e : ProcessError U}
    (h : handlerOutcome c = .failed e) : ∃ p, c.failureOption = some p ∧ e = .handler p := by
  unfold handlerOutcome at h
  split at h
  · next p hp => exact ⟨_, hp, (Outcome.failed.inj h).symm⟩
  · next v hv =>
      split at h
      · cases h
      · exact ⟨_, hv, (Outcome.failed.inj h).symm⟩
  · cases h

/-- The outcome, from the exit `d` of the decoding and the exit `x` the handler
ends with (which matters only if the body decodes). -/
def outcome (msg : Message U) (d : Exit ParseError U T) (x : Exit (HandlerError U) U Unit) :
    Outcome U :=
  match d with
  | .success _ =>
    match x with
    | .success _ => .done
    | .failure c => handlerOutcome c
  | .failure c =>
    (c.failureOption.map fun e => .failed (.decode (decodeError msg e))).getD .unrecoverable

def settlement (config : QueueHandlerConfig U T) : Outcome U → Option Settlement
  | .done => some .ack
  | .failed (.decode _) =>
    some (if config.onDecodeErrorOrDefault = .deadLetter then .ack else .retry)
  | .failed (.handler (.processing e)) => some (if e.retryable then .retry else .ack)
  | .failed (.handler (.unexpected _)) => some .retry
  | .unrecoverable => none

theorem settlement_eq_none_iff (config : QueueHandlerConfig U T) (o : Outcome U) :
    settlement config o = none ↔ o = .unrecoverable := by
  cases o with
  | done | unrecoverable => simp [settlement]
  | failed e =>
    cases e with
    | decode _ => simp [settlement]
    | handler e => cases e <;> simp [settlement]

def Settlement.op : Settlement → QueueOp U T
  | .ack => .ack
  | .retry => .retry

def Settlement.answered : Settlement → Answered (QueueSig U T)
  | .ack => ⟨QueueOp.ack, ()⟩
  | .retry => ⟨QueueOp.retry, ()⟩

def recoveryText : ProcessError U → String
  | .decode _ => "Message decode failed"
  | .handler (.processing _) => "Message processing failed"
  | .handler (.unexpected _) => "Unexpected error processing message"

/-- The operations that follow the processing. -/
def conclusion (config : QueueHandlerConfig U T) (o : Outcome U) : List (Answered (QueueSig U T)) :=
  (match o with
    | .failed e => [⟨QueueOp.logError (recoveryText e) e, ()⟩]
    | _ => []) ++ ((settlement config o).map Settlement.answered).toList

/-- All operations of one uninterrupted run. -/
def execution (config : QueueHandlerConfig U T) (msg : Message U) (d : Exit ParseError U T)
    (x : Exit (HandlerError U) U Unit) : List (Answered (QueueSig U T)) :=
  ⟨QueueOp.decodeUnknown msg.body, d⟩ ::
    (match d with
      | .success v => [⟨QueueOp.handler v, x⟩]
      | .failure _ => []) ++ conclusion config (outcome msg d x)

/-- The exit of the program: a failure passes through only when it is
unrecoverable, as a cause without expected errors. -/
def Outcome.exit (c : Cause (ProcessError U) U) : Outcome U → Exit (ProcessError U) U Unit
  | .unrecoverable => .failure c
  | .done | .failed _ => .success ()

/-- The program that is left once decoding and handler have finished. -/
def conclude (config : QueueHandlerConfig U T) (o : Outcome U) (c : Cause (ProcessError U) U) :
    QueueEff U T (ProcessError U) Unit :=
  let settled : QueueEff U T (ProcessError U) Unit :=
    match settlement config o with
    | some s => Eff.perform (S := QueueSig U T) s.op fun _ => .exit (o.exit c)
    | none => .exit (o.exit c)
  match o with
  | .failed e => Eff.perform (S := QueueSig U T) (.logError (recoveryText e) e) fun _ => settled
  | _ => settled

/-- The cause that is passed on when the handler's exit is unrecoverable. -/
def passedOn [Throwable (ProcessError U) U] :
    Exit (HandlerError U) U Unit → Cause (ProcessError U) U
  | .success _ => .empty
  | .failure c => (c.map ProcessError.handler).electFailures

theorem failureOption_passedOn [Throwable (ProcessError U) U]
    (x : Exit (HandlerError U) U Unit) : (passedOn x).failureOption = none := by
  cases x with
  | success _ => rfl
  | failure c => exact Cause.failureOption_electFailures _

def afterDecode [Throwable (ProcessError U) U] (config : QueueHandlerConfig U T)
    (msg : Message U) : Exit ParseError U T → QueueEff U T (ProcessError U) Unit
  | .success v => Eff.perform (S := QueueSig U T) (.handler v) fun x =>
      conclude config (outcome msg (.success v) x) (passedOn x)
  | .failure c => conclude config (outcome (T := T) msg (.failure c) (.success ())) c.stripFailures

/-- What the three recoveries make of a handler's failure. -/
private theorem recoveries_handler [Throwable (ProcessError U) U]
    (config : QueueHandlerConfig U T) (c : Cause (HandlerError U) U) :
    (((Eff.exit (.failure (c.map ProcessError.handler)) :
        QueueEff U T (ProcessError U) Unit).catchTag ProcessError.tag "QueueMessageDecodeError"
      fun error => (logError "Message decode failed" error).flatMap fun _ =>
        if config.onDecodeErrorOrDefault = .deadLetter then ack else retry).catchTag
          ProcessError.tag "QueueProcessingError"
      fun error => (logError "Message processing failed" error).flatMap fun _ =>
        if error.retryable then retry else ack).catchAll
      (fun error => (logError "Unexpected error processing message" error).flatMap fun _ => retry) =
      conclude config (handlerOutcome c) (c.map ProcessError.handler).electFailures := by
  simp only [Eff.catchTag, Eff.catchIf, Eff.catchAll, Eff.matchCauseEffect_failure,
    Cause.failureOption_map, handlerOutcome]
  -- the leftmost error decides which of the three recoveries sees the cause
  cases h : c.failureOption with
  | none =>
    have hfail : ¬ (c.map ProcessError.handler).HasFail := by
      rw [Cause.hasFail_map, ← Cause.failureOption_eq_none_iff, h]
    simp only [Option.map_none, Eff.failCause, Eff.matchCauseEffect_failure,
      Cause.failureOption_map, h]
    split
    · rfl
    · rw [← Cause.electFailures_of_not_hasFail hfail]
      rfl
  | some e =>
    cases e with
    | processing e =>
      cases hr : e.retryable <;>
        simp [h, hr, Eff.failCause, ProcessError.tag, ProcessError.retryable, conclude,
          settlement] <;> rfl
    | unexpected v =>
      by_cases hdie : c.HasDie
      · simp [h, hdie, Eff.failCause, ProcessError.tag, conclude, settlement, Outcome.exit]
      · simp [h, hdie, Eff.failCause, ProcessError.tag]
        rfl

/-- The four stacked combinators, evaluated: one decoding, one handler run, and
the conclusion of their outcome. -/
theorem processWithAckRetry_eq [Throwable (ProcessError U) U] (config : QueueHandlerConfig U T)
    (msg : Message U) : processWithAckRetry config msg =
      Eff.perform (S := QueueSig U T) (.decodeUnknown msg.body) (afterDecode config msg) := by
  unfold processWithAckRetry processMessage decodeUnknown
  simp only [Eff.tap, Eff.catchTag, Eff.catchIf, Eff.catchAll, Eff.mapError, Eff.flatMap,
    Eff.matchCauseEffect_perform]
  refine congrArg (Eff.perform (S := QueueSig U T) (.decodeUnknown msg.body)) (funext fun d => ?_)
  cases d with
  | success v =>
    simp only [Eff.matchCauseEffect_success, handler, afterDecode]
    refine congrArg (Eff.perform (S := QueueSig U T) (.handler v)) (funext fun x => ?_)
    cases x with
    | success _ => rfl
    | failure c => exact recoveries_handler config c
  | failure c =>
    simp only [Eff.matchCauseEffect_failure, outcome, afterDecode]
    cases h : c.failureOption with
    | none =>
      simp only [Eff.failCause, Eff.matchCauseEffect_failure, Cause.failureOption_stripFailures,
        Cause.electFailures_stripFailures, Cause.stripFailures_stripFailures, ite_self]
      rfl
    | some e =>
      cases hd : config.onDecodeErrorOrDefault <;>
        simp [hd, Eff.fail, Eff.failCause, Cause.failureOption, ProcessError.tag, conclude,
          settlement] <;> rfl

private theorem conclude_path {config : QueueHandlerConfig U T} {o : Outcome U}
    {c : Cause (ProcessError U) U} {as : List (Answered (QueueSig U T))}
    {q : QueueEff U T (ProcessError U) Unit} (h : Eff.Path (conclude config o c) as q) :
    as <+: conclusion config o ∧
      ∀ y, q = .exit y → as = conclusion config o ∧ y = o.exit c := by
  have settled : ∀ {as : List (Answered (QueueSig U T))} (s : Settlement),
      Eff.Path (Eff.perform (S := QueueSig U T) s.op fun _ => .exit (o.exit c)) as q →
      as <+: [s.answered] ∧ ∀ y, q = .exit y → as = [s.answered] ∧ y = o.exit c := by
    intro as s h
    cases s <;> rcases Eff.path_perform h with ⟨rfl, rfl⟩ | ⟨r, as', rfl, h'⟩
    all_goals first
      | exact ⟨List.nil_prefix, by simp⟩
      | obtain ⟨rfl, rfl⟩ := Eff.path_exit h'
        exact ⟨List.prefix_rfl, fun y hy => ⟨rfl, (Eff.exit.inj hy).symm⟩⟩
  cases o with
  | done => exact settled .ack h
  | unrecoverable =>
    obtain ⟨rfl, rfl⟩ := Eff.path_exit h
    exact ⟨List.nil_prefix, by simp [conclusion, settlement]⟩
  | failed e =>
    obtain ⟨s, hs⟩ : ∃ s, settlement config (.failed e) = some s := by
      cases e with
      | decode _ => exact ⟨_, rfl⟩
      | handler e => cases e <;> exact ⟨_, rfl⟩
    have hc : conclusion config (.failed e) =
        [⟨QueueOp.logError (recoveryText e) e, ()⟩, s.answered] := by
      simp [conclusion, hs]
    simp only [conclude, hs] at h
    rw [hc]
    rcases Eff.path_perform h with ⟨rfl, rfl⟩ | ⟨r, as', rfl, h'⟩
    · exact ⟨List.nil_prefix, by simp⟩
    · obtain ⟨hp, he⟩ := settled s h'
      refine ⟨List.prefix_cons_inj _ |>.mpr hp, fun y hy => ?_⟩
      obtain ⟨rfl, hy⟩ := he y hy
      exact ⟨rfl, hy⟩

/-- Every execution is a prefix of one determined by the two exits, and an
execution that has come to an exit is all of it. -/
theorem processWithAckRetry_path [Throwable (ProcessError U) U]
    {config : QueueHandlerConfig U T} {msg : Message U}
    {as : List (Answered (QueueSig U T))} {q : QueueEff U T (ProcessError U) Unit}
    (h : Eff.Path (processWithAckRetry config msg) as q) :
    ∃ d x, as <+: execution config msg d x ∧
      ∀ y, q = .exit y → as = execution config msg d x ∧
        ∃ c, c.failureOption = none ∧ y = (outcome msg d x).exit c := by
  rw [processWithAckRetry_eq] at h
  rcases Eff.path_perform h with ⟨rfl, rfl⟩ | ⟨d, as', rfl, hd⟩
  · exact ⟨.failure .empty, .success (), List.nil_prefix, by simp⟩
  cases d with
  | failure c =>
    obtain ⟨hp, he⟩ := conclude_path hd
    refine ⟨.failure c, .success (), List.prefix_cons_inj _ |>.mpr hp, fun y hy => ?_⟩
    obtain ⟨rfl, rfl⟩ := he y hy
    exact ⟨rfl, _, Cause.failureOption_stripFailures c, rfl⟩
  | success v =>
    rcases Eff.path_perform hd with ⟨rfl, rfl⟩ | ⟨x, as'', rfl, hx⟩
    · exact ⟨.success v, .success (), by simp [execution], by simp⟩
    obtain ⟨hp, he⟩ := conclude_path hx
    refine ⟨.success v, x, ?_, fun y hy => ?_⟩
    · exact List.prefix_cons_inj _ |>.mpr (List.prefix_cons_inj _ |>.mpr hp)
    · obtain ⟨rfl, rfl⟩ := he y hy
      exact ⟨rfl, _, failureOption_passedOn x, rfl⟩

theorem processWithAckRetry_within [Throwable (ProcessError U) U]
    (config : QueueHandlerConfig U T) (msg : Message U) :
    (processWithAckRetry config msg).Within 4 := by
  have hc : ∀ (o : Outcome U) c, (conclude config o c).Within 2 := by
    intro o c
    cases o with
    | done => exact .perform fun _ => .exit _ _
    | unrecoverable => exact .exit _ _
    | failed e =>
      refine .perform fun _ => ?_
      split
      · exact .perform fun _ => .exit _ _
      · exact .exit _ _
  rw [processWithAckRetry_eq]
  refine .perform fun d => ?_
  cases d with
  | success v => exact .perform fun x => hc _ _
  | failure c => exact .mono (hc _ _) (by omega)

end Outcomes

end EffectWorker.Queue
