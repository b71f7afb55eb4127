import EffectWorker.Effect.Slots
import EffectWorker.Queue.Lifecycle
import EffectWorker.Queue.NoLoss
import EffectWorker.Queue.Turns

/-! What the `concurrency` of a queue handler means for its batches: how many
messages are in progress at once, in which order they are taken up, and what a
failure that nothing recovers from does to the messages behind it. -/

namespace EffectWorker.Queue

open Effect

section Order

variable {U T : Type} {messages : List (Message U)} {log : List (BatchEvent U T messages.length)}

/-! ## A batch and its loop -/

theorem loopTrace_cons_fiber {n : Nat} (conn : Connection) (i : Fin n)
    (e : Event (QueueSig U T) (ProcessError U) U Unit) (log : List (BatchEvent U T n)) :
    loopTrace (.fiber conn i e :: log) = (i, e) :: loopTrace log := rfl

theorem loopTrace_split {before after : List (BatchEvent U T messages.length)} {conn : Connection}
    {i : Fin messages.length} {e : Event (QueueSig U T) (ProcessError U) U Unit}
    (hlog : log = before ++ .fiber conn i e :: after) :
    loopTrace log = loopTrace before ++ (i, e) :: loopTrace after := by
  rw [hlog, loopTrace_append, loopTrace_cons_fiber]

theorem mem_loopTrace {n : Nat} {log : List (BatchEvent U T n)} {i : Fin n}
    {e : Event (QueueSig U T) (ProcessError U) U Unit} :
    (i, e) ∈ loopTrace log ↔ ∃ conn, .fiber conn i e ∈ log := by
  simp only [loopTrace, List.mem_filterMap]
  constructor
  · rintro ⟨b, hb, he⟩
    cases b <;> simp only [reduceCtorEq, Option.some.injEq, Prod.mk.injEq] at he
    obtain ⟨rfl, rfl⟩ := he
    exact ⟨_, hb⟩
  · rintro ⟨conn, hb⟩
    exact ⟨_, hb, rfl⟩

theorem loopTrace_opened {n : Nat} (env : Env) (conn : Connection)
    (t : List (Fin n × Event (QueueSig U T) (ProcessError U) U Unit)) :
    loopTrace (opened env conn t) = t := by
  change loopTrace (t.map fun e => .fiber conn e.1 e.2) = t
  induction t with
  | nil => rfl
  | cons e t ih =>
    obtain ⟨i, e⟩ := e
    rw [List.map_cons, loopTrace_cons_fiber, ih]

/-! ## Every run -/

/-- How a batch is gone through: no more messages in progress than allowed,
taken up in the order of the batch, none behind a failure, and none interrupted
without one. When the promise has settled, a message is without a call only if
it failed itself, or if another one did and it was interrupted or not begun. -/
structure Scheduled (config : QueueHandlerConfig U T) {n : Nat} (log : List (BatchEvent U T n))
    (s : BatchState U T n) : Prop where
  bounded : inFlight s.fibers ≤ max 1 config.concurrencyOrDefault
  ordered : ∀ before conn i e after, log = before ++ .fiber conn i e :: after →
    ∀ j < i, ∃ conn', .fiber conn' j .starts ∈ before
  failFast : ∀ before conn i c after, log = before ++ .fiber conn i (.ends (.failure c)) :: after →
    c.failureOption = none ∧ calls log i = [] ∧ ∀ conn' j, .fiber conn' j .starts ∉ after
  interrupted : ∀ before conn i after, log = before ++ .fiber conn i .interrupted :: after →
    ∃ conn' j c, j ≠ i ∧ .fiber conn' j (.ends (.failure c)) ∈ before
  uncalled : ∀ y i, s.phase = .settled y → (∀ cause, .connectFailed cause ∉ log) →
    calls log i = [] →
    ∃ conn' j c, .fiber conn' j (.ends (.failure c)) ∈ log ∧
      (j = i ∨ (∃ conn, .fiber conn i .interrupted ∈ log) ∨ ∀ conn e, .fiber conn i e ∉ log)

variable [Throwable (ProcessError U) U] {config : QueueHandlerConfig U T} {env : Env}
  {hx : Fin messages.length → Exit (HandlerError U) U Unit → Prop}
  {s : BatchState U T messages.length}

/-- A message whose fiber fails by itself had no error left to recover from,
and no call made on it. -/
theorem batchRun_failure (h : BatchRun config messages env hx log s) {conn : Connection}
    {i : Fin messages.length} {c : Cause (ProcessError U) U}
    (hm : .fiber conn i (.ends (.failure c)) ∈ log) :
    c.failureOption = none ∧ calls log i = [] := by
  have hends : .ends (.failure c) ∈ messageHistory log i :=
    mem_history.mpr (mem_loopTrace.mpr ⟨conn, hm⟩)
  obtain ⟨d, x, -, hexit⟩ :=
    processWithAckRetry_path (fiberRun_ends (messageHistory_fiberRun h i) hends)
  obtain ⟨has, c', hc', hy⟩ := hexit _ rfl
  cases ho : outcome (messages.get i) d x with
  | done | failed _ =>
    rw [ho] at hy
    cases hy
  | unrecoverable =>
    rw [ho] at hy
    cases hy
    refine ⟨hc', ?_⟩
    rw [calls, has, settlements_execution, ho]
    rfl

/-- Once no fiber is active, a message without a call has failed itself, was
interrupted or was not begun. -/
theorem batchRun_uncalled (h : BatchRun config messages env hx log s) {i : Fin messages.length}
    (hidle : (s.fibers i).active = false) (hcalls : calls log i = []) :
    (∃ conn c, .fiber conn i (.ends (.failure c)) ∈ log) ∨
      (∃ conn, .fiber conn i .interrupted ∈ log) ∨ ∀ conn e, .fiber conn i e ∉ log := by
  cases hf : s.fibers i with
  | ready _ | busy _ _ => simp [hf, Fiber.active] at hidle
  | waiting =>
    refine .inr (.inr fun conn e hm => ?_)
    exact run_event_started (batchRun_loop h) (mem_loopTrace.mpr ⟨conn, hm⟩) hf
  | ended x =>
    cases x with
    | success _ =>
      -- a fiber that has succeeded has made its call
      obtain ⟨x, has, hne⟩ := messageHistory_success h hf
      rw [calls, has, settlements_execution, Option.toList_eq_nil_iff,
        settlement_eq_none_iff] at hcalls
      exact absurd hcalls hne
    | failure c =>
      obtain ⟨e, he, hending⟩ := (fiberRun_ending (messageHistory_fiberRun h i) _).mpr hf
      obtain ⟨conn, hm⟩ := mem_loopTrace.mp (mem_history.mp he)
      cases e with
      | ends x =>
        cases hending
        exact .inl ⟨conn, c, hm⟩
      | interrupted => exact .inr (.inl ⟨conn, hm⟩)
      | starts | begins | works | answers => cases hending

theorem batchRun_scheduled (h : BatchRun config messages env hx log s) :
    Scheduled config log s := by
  have hloop := batchRun_loop h
  constructor
  case bounded => exact run_inFlight hloop
  case ordered =>
    intro before conn i e after hlog j hj
    exact mem_loopTrace.mp (run_inOrder hloop (loopTrace_split hlog) hj)
  case failFast =>
    intro before conn i c after hlog
    have hm : .fiber conn i (.ends (.failure c)) ∈ log := by
      rw [hlog]
      exact List.mem_append_right _ List.mem_cons_self
    obtain ⟨hc, hcalls⟩ := batchRun_failure h hm
    refine ⟨hc, hcalls, fun conn' j hstart => ?_⟩
    exact run_failFast hloop (loopTrace_split hlog) j (mem_loopTrace.mpr ⟨conn', hstart⟩)
  case interrupted =>
    intro before conn i after hlog
    obtain ⟨j, c, hj, hm⟩ := run_interrupted hloop (loopTrace_split hlog)
    obtain ⟨conn', hm⟩ := mem_loopTrace.mp hm
    exact ⟨conn', j, c, hj, hm⟩
  case uncalled =>
    intro y i hy hopen hcalls
    have hshape := batchRun_shape h
    unfold Shape at hshape
    simp only [hy] at hshape
    rcases hshape with ⟨cause, hlog, -, -⟩ | ⟨conn, x, -, -, hexits⟩
    · exact absurd (by rw [hlog]; simp) (hopen cause)
    have hcase := batchRun_uncalled h (hexits.inactive i) hcalls
    by_cases hfailing : Failing s.fibers
    · obtain ⟨j, c, hm⟩ := (run_failing_iff hloop).mp hfailing
      obtain ⟨conn', hm⟩ := mem_loopTrace.mp hm
      rcases hcase with ⟨conn₁, c₁, hself⟩ | hother
      · exact ⟨conn₁, i, c₁, hself, .inl rfl⟩
      · exact ⟨conn', j, c, hm, .inr hother⟩
    · -- without a failure all have succeeded, and made their calls
      cases hexits with
      | failure hi _ => exact absurd ⟨_, _, hi⟩ hfailing
      | success hall =>
        obtain ⟨a, ha⟩ := hall i
        obtain ⟨x, has, hne⟩ := messageHistory_success h ha
        rw [calls, has, settlements_execution, Option.toList_eq_nil_iff,
          settlement_eq_none_iff] at hcalls
        exact absurd hcalls hne

/-- In every reachable world every invocation goes through its batch as the
configured concurrency says; and when it is over no message is left with it:
what its batch made no call on has left the queue or is back in it. -/
theorem invocations_scheduled {body : String → U} {w : World U T}
    (h : World.Reachable config body w) (k : Nat) (inv : Invocation U T)
    (hk : w.invocations k = some inv) :
    Scheduled config inv.log inv.state ∧
      (inv.isOver = true → ∀ id, w.location id ≠ .delivered k) := by
  refine ⟨batchRun_scheduled (reachable_sound h hk).run, fun hover id hloc => ?_⟩
  obtain ⟨inv', hk', hlive, -⟩ := (reachable_kept h).held id k hloc
  rw [hk] at hk'
  cases hk'
  rw [hover] at hlive
  cases hlive

set_option maxRecDepth 4000 in
/-- A batch in which one message dies and another one is interrupted. -/
theorem invocations_scheduled_finished :
    ∃ inv, finishedWorld.invocations 0 = some inv ∧ inv.isOver = true ∧
      (∃ i, .fiber 0 i (.ends (.failure (.die "handler died"))) ∈ inv.log) ∧
      (∃ i, .fiber 0 i .interrupted ∈ inv.log) ∧
      Scheduled echoConfig inv.log inv.state ∧ ∀ id, finishedWorld.location id ≠ .delivered 0 :=
  have hresult := invocations_scheduled finishedWorld_reachable 0 _ rfl
  ⟨_, rfl, rfl, ⟨⟨2, by decide⟩, List.mem_of_getElem? (i := 29) rfl⟩,
    ⟨⟨3, by decide⟩, List.mem_of_getElem? (i := 30) rfl⟩, hresult.1, hresult.2 rfl⟩

/-! ## The exact concurrency -/

/-- One message after the other: no event of an earlier one behind an event of
a later one. -/
def Sequential (config : QueueHandlerConfig U T) (messages : List (Message U)) : Prop :=
  ∀ env hx log s, BatchRun config messages env hx log s →
    ((loopTrace log).map Prod.fst).Pairwise (· ≤ ·)

private theorem sequential_of_le (h : config.concurrencyOrDefault ≤ 1 ∨ messages.length ≤ 1) :
    Sequential config messages := by
  intro env hx log s hr
  rcases h with hone | hshort
  · exact run_sequential (Nat.max_eq_left hone) (batchRun_loop hr)
  · exact List.pairwise_of_forall fun i j => by omega

/-- With room for two, the second message may start before the first is done. -/
private theorem not_sequential (hconc : 2 ≤ config.concurrencyOrDefault)
    (hlong : 2 ≤ messages.length) : ¬ Sequential config messages := by
  intro hseq
  let L := forEachMessage config messages fun _ _ => True
  obtain ⟨t, ht⟩ := run_fill L hlong (hconc.trans (Nat.le_max_right _ _))
  let first : Fin messages.length := ⟨0, by omega⟩
  have hfirst : startedUpTo L 2 first = .ready (.perform (S := QueueSig U T)
      (.decodeUnknown (messages.get first).body) (afterDecode config (messages.get first))) := by
    rw [← processWithAckRetry_eq]
    rfl
  have hnext := ht.snoc (Loop.step_of hfirst (.begins _ _) trivial)
  have hsecond : ((⟨1, by omega⟩ : Fin messages.length), .starts) ∈ t := by
    rw [← run_started_iff ht]
    simp [startedUpTo]
  have hpair := hseq localEnv _ _ _ (batchRun_of_loop localEnv 0 hnext)
  rw [loopTrace_opened, List.map_append, List.pairwise_append] at hpair
  have hle : (1 : Nat) ≤ 0 := hpair.2.2 _ (List.mem_map_of_mem hsecond) _ List.mem_cons_self
  omega

/-- As many messages as the configured concurrency and the batch allow can be
in progress at once and never more; and messages are gone through one after the
other if and only if the concurrency is one or there are no two of them. -/
theorem concurrency_iff (config : QueueHandlerConfig U T) (messages : List (Message U)) :
    (∀ k, (∀ env hx log s, BatchRun config messages env hx log s → inFlight s.fibers ≤ k) ↔
      min (max 1 config.concurrencyOrDefault) messages.length ≤ k) ∧
    (Sequential config messages ↔
      config.concurrencyOrDefault ≤ 1 ∨ messages.length ≤ 1) := by
  refine ⟨fun k => ⟨fun h => ?_, fun hk env hx log s hr => ?_⟩, fun h => ?_, sequential_of_le⟩
  · let L := forEachMessage config messages fun _ _ => True
    let m := min (max 1 config.concurrencyOrDefault) messages.length
    have hm : m ≤ messages.length := Nat.min_le_right _ _
    obtain ⟨t, ht⟩ := run_fill L hm (Nat.min_le_left _ _)
    have hbound := h _ _ _ _ (batchRun_of_loop localEnv 0 ht)
    rwa [inFlight_startedUpTo L hm] at hbound
  · have hslots := (batchRun_scheduled hr).bounded
    have hcard := inFlight_le_card s.fibers
    omega
  · by_contra hbig
    exact not_sequential (by omega) (by omega) h

end Order

end EffectWorker.Queue
