import EffectWorker.Queue.Settlement

/-! Whether one message's unexpected failure leaves the others alone. Runs are
compared across batches: a batch against the same batch without the failing
messages, and two assignments of handler outcomes that agree on one message.
`outcomes i` is the exit the handler ends with on message `i`. -/

namespace EffectWorker.Queue

open Effect

section Isolation

variable {U T : Type}

/-- Processing ends in an error that is neither a decode error nor a
`QueueProcessingError`: some other error, or nothing that is recovered from. -/
def Unexpected (config : QueueHandlerConfig U T) (msg : Message U)
    (x : Exit (HandlerError U) U Unit) : Prop :=
  match outcome msg (config.schema msg.body) x with
  | .unrecoverable | .failed (.handler (.unexpected _)) => True
  | .done | .failed _ => False

/-- `messages'` with its outcomes is the batch without the unexpectedly failing
messages: `f` embeds it in order and hits exactly the others. -/
structure WithoutFailing (config : QueueHandlerConfig U T) (messages : List (Message U))
    (outcomes : Fin messages.length → Exit (HandlerError U) U Unit) (messages' : List (Message U))
    (outcomes' : Fin messages'.length → Exit (HandlerError U) U Unit)
    (f : Fin messages'.length ↪o Fin messages.length) : Prop where
  same : ∀ j, (messages'.get j) = (messages.get (f j)) ∧ outcomes' j = outcomes (f j)
  range : ∀ i, (∃ j, f j = i) ↔ ¬ Unexpected config (messages.get i) (outcomes i)

private theorem unexpected_of_unrecoverable {msg : Message U} {x : Exit (HandlerError U) U Unit}
    (h : ¬ Recoverable config msg x) : Unexpected config msg x := by
  rw [Unexpected, (outcome_unrecoverable_iff config msg x).mpr h]
  trivial

/-- An unexpected but recoverable failure reaches the catch-all. -/
private theorem settlement_unexpected {config : QueueHandlerConfig U T} {msg : Message U}
    {x : Exit (HandlerError U) U Unit}
    (hrec : Recoverable config msg x) (h : Unexpected config msg x) :
    settlement config (outcome msg (config.schema msg.body) x) = some .retry := by
  unfold Unexpected at h
  cases ho : outcome msg (config.schema msg.body) x with
  | done => simp [ho] at h
  | unrecoverable => exact absurd hrec ((outcome_unrecoverable_iff _ _ _).mp ho)
  | failed e =>
    cases e with
    | decode _ => simp [ho] at h
    | handler e =>
      cases e with
      | processing _ => simp [ho] at h
      | unexpected _ => rfl

/-- Beyond the exits only the body and the policy for decode errors matter. -/
private theorem settlement_body {config config' : QueueHandlerConfig U T} {msg msg' : Message U}
    (hschema : config'.schema = config.schema)
    (hpolicy : config'.onDecodeErrorOrDefault = config.onDecodeErrorOrDefault)
    (hbody : msg.body = msg'.body) (x : Exit (HandlerError U) U Unit) :
    settlement config (outcome msg (config.schema msg.body) x) =
      settlement config' (outcome msg' (config'.schema msg'.body) x) := by
  rw [hschema, hbody]
  cases config.schema msg'.body with
  | failure c => cases hc : c.failureOption <;> simp [outcome, hc, settlement, hpolicy]
  | success v =>
    cases x with
    | success _ => rfl
    | failure c =>
      change settlement config (handlerOutcome c) = settlement config' (handlerOutcome c)
      unfold handlerOutcome
      cases c.failureOption with
      | none => rfl
      | some e =>
        cases e with
        | processing _ => rfl
        | unexpected _ => by_cases hdie : c.HasDie <;> simp [hdie, settlement]

variable [Throwable (ProcessError U) U]

/-- A run whose promise has settled, with the connection opened and every
handler ending as `outcomes` says. -/
structure CompleteRun (config : QueueHandlerConfig U T) (messages : List (Message U))
    (outcomes : Fin messages.length → Exit (HandlerError U) U Unit)
    (log : List (BatchEvent U T messages.length)) : Prop where
  run : ∃ env s y, BatchRun config messages env (fun i x => x = outcomes i) log s ∧
    s.phase = .settled y
  opened : ∀ cause, .connectFailed cause ∉ log

/-- Each unexpectedly failing message is retried; every other one has its
handler run to completion and the calls it has without the failing ones. -/
def FailuresIsolated (config : QueueHandlerConfig U T) (messages : List (Message U))
    (outcomes : Fin messages.length → Exit (HandlerError U) U Unit) : Prop :=
  ∀ log, CompleteRun config messages outcomes log →
    (∀ i, Unexpected config (messages.get i) (outcomes i) → calls log i = [.retry]) ∧
    ∀ i, ¬ Unexpected config (messages.get i) (outcomes i) →
      (∀ v, config.schema (messages.get i).body = .success v →
        .answers (.handler v) (outcomes i) ∈ messageHistory log i) ∧
      ∀ messages' outcomes' f, WithoutFailing config messages outcomes messages' outcomes' f →
        ∀ log', CompleteRun config messages' outcomes' log' →
          ∀ j, f j = i → calls log' j = calls log i

variable {config : QueueHandlerConfig U T} {messages : List (Message U)}
  {outcomes : Fin messages.length → Exit (HandlerError U) U Unit}
  {log : List (BatchEvent U T messages.length)}

/-- With recoverable outcomes a message's calls are a function of its own body
and its own handler exit. -/
theorem completeRun_calls
    (hgood : ∀ i : Fin messages.length, Recoverable config (messages.get i) (outcomes i))
    (h : CompleteRun config messages outcomes log) (i : Fin messages.length) :
    calls log i = (settlement config
      (outcome (messages.get i) (config.schema (messages.get i).body) (outcomes i))).toList ∧
    ∀ v, config.schema (messages.get i).body = .success v →
      .answers (.handler v) (outcomes i) ∈ messageHistory log i := by
  obtain ⟨env, s, y, hrun, hy⟩ := h.run
  obtain ⟨x, hh, hcalls, -, -⟩ := batchRun_settled
    (fun i x (hxi : x = outcomes i) => hxi ▸ hgood i) (fun i => ⟨outcomes i, rfl⟩) hrun
    h.opened hy i
  rw [outcome_congr config (messages.get i) fun v hv => (hh v hv).1] at hcalls
  exact ⟨hcalls, fun v hv => (hh v hv).1 ▸ (hh v hv).2⟩

/-- A message with an unrecoverable outcome is never settled by a call. -/
theorem completeRun_calls_unrecoverable {i : Fin messages.length}
    (hbad : ¬ Recoverable config (messages.get i) (outcomes i))
    (h : CompleteRun config messages outcomes log) : calls log i = [] := by
  obtain ⟨env, s, y, hrun, -⟩ := h.run
  rcases calls_spec hrun i with hnil | ⟨-, x, hh, hcalls⟩
  · exact hnil
  · rw [outcome_congr config (messages.get i) fun v hv => (hh v hv).1,
      (outcome_unrecoverable_iff config (messages.get i) _).mpr hbad] at hcalls
    exact hcalls

theorem completeRun_exists (config : QueueHandlerConfig U T) (messages : List (Message U))
    (outcomes : Fin messages.length → Exit (HandlerError U) U Unit) :
    ∃ log, CompleteRun config messages outcomes log := by
  have hans : ∀ i, ∃ x, x = outcomes i := fun i => ⟨outcomes i, rfl⟩
  obtain ⟨log, s, y, h, hy, hopen⟩ := batch_completes_initial config localEnv hans
  exact ⟨log, ⟨⟨_, s, y, h, hy⟩, hopen⟩⟩

private theorem not_failuresIsolated {i : Fin messages.length}
    (hbad : ¬ Recoverable config (messages.get i) (outcomes i)) :
    ¬ FailuresIsolated config messages outcomes := by
  intro hall
  obtain ⟨log, h⟩ := completeRun_exists config messages outcomes
  have hretry := (hall log h).1 i (unexpected_of_unrecoverable hbad)
  rw [completeRun_calls_unrecoverable hbad h] at hretry
  simp at hretry

private theorem failuresIsolated
    (hgood : ∀ i : Fin messages.length, Recoverable config (messages.get i) (outcomes i)) :
    FailuresIsolated config messages outcomes := by
  intro log h
  refine ⟨fun i hu => ?_, fun i _ => ⟨(completeRun_calls hgood h i).2, ?_⟩⟩
  · rw [(completeRun_calls hgood h i).1, settlement_unexpected (hgood i) hu]
    rfl
  · intro messages' outcomes' f hw log' h' j hj
    subst hj
    have hgood' : ∀ j : Fin messages'.length,
        Recoverable config (messages'.get j) (outcomes' j) := by
      intro j
      rw [(hw.same j).1, (hw.same j).2]
      exact hgood (f j)
    rw [(completeRun_calls hgood h (f j)).1, (completeRun_calls hgood' h' j).1,
      (hw.same j).1, (hw.same j).2]

/-- Failures are isolated if and only if all of them are recoverable; and
then the calls on a message depend on its own body and handler outcome only,
whatever the other messages, their outcomes, the schedule and the concurrency. -/
theorem failuresIsolated_iff (config : QueueHandlerConfig U T) (messages : List (Message U))
    (outcomes : Fin messages.length → Exit (HandlerError U) U Unit) :
    (FailuresIsolated config messages outcomes ↔
      ∀ i : Fin messages.length, Recoverable config (messages.get i) (outcomes i)) ∧
    ((∀ i : Fin messages.length, Recoverable config (messages.get i) (outcomes i)) →
      ∀ (concurrency' : Option Nat) (messages' : List (Message U))
        (outcomes' : Fin messages'.length → Exit (HandlerError U) U Unit),
        (∀ j : Fin messages'.length, Recoverable config (messages'.get j) (outcomes' j)) →
        ∀ log log', CompleteRun config messages outcomes log →
          CompleteRun { config with concurrency := concurrency' } messages' outcomes' log' →
          ∀ i j, (messages.get i).body = (messages'.get j).body → outcomes i = outcomes' j →
            calls log i = calls log' j) := by
  refine ⟨⟨fun h i => ?_, failuresIsolated⟩, ?_⟩
  · by_contra hbad
    exact not_failuresIsolated hbad h
  · intro hgood concurrency' messages' outcomes' hgood' log log' h h' i j hbody hx
    have hgood'' : ∀ j : Fin messages'.length,
        Recoverable { config with concurrency := concurrency' } (messages'.get j) (outcomes' j) :=
      hgood'
    rw [(completeRun_calls hgood h i).1, (completeRun_calls hgood'' h' j).1, hx]
    exact congrArg Option.toList (settlement_body rfl rfl hbody _)

/-- A schema that decodes every body to itself. -/
def plainConfig : QueueHandlerConfig String String where
  schema body := .success body

/-- Two messages, delivered one at a time; the handler dies on the first. -/
theorem dyingHandler_notIsolated :
    ¬ FailuresIsolated plainConfig [{ id := "m1", body := "a" }, { id := "m2", body := "b" }]
      (fun i => if i = 0 then .failure (.die "handler died") else .success ()) := by
  apply not_failuresIsolated (i := 0)
  intro hrec
  exact (hrec.2 "a" rfl).1 (fun hf : False => hf)

end Isolation

end EffectWorker.Queue
