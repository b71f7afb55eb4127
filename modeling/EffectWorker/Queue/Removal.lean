import EffectWorker.Queue.NoLoss
import EffectWorker.Queue.Order
import EffectWorker.Queue.Settlement

/-! Which messages can leave the queue at all. A message whose body decodes
always still can, for its handler may succeed on the next delivery. A message
whose body does not is for ever in the queue under the policy `retry`, and so
is one on whose body the decoding itself breaks. -/

namespace EffectWorker.Queue

open Effect

section Removal

variable {U T : Type} {config : QueueHandlerConfig U T}

def Removable (config : QueueHandlerConfig U T) (body : U) : Prop :=
  match config.schema body with
  | .success _ => True
  | .failure c => c.HasFail ∧ config.onDecodeErrorOrDefault = .deadLetter

theorem react_stays_gone (inv : Invocation U T) (k : Nat) {location : String → Location}
    (e : BatchEvent U T inv.messages.length) {id : String} (h : location id = .gone) :
    inv.react k location e id = .gone := by
  rcases react_cases inv k location e with
    ⟨hreact, -⟩ | ⟨conn, i, -, ⟨-, hreact⟩ | ⟨-, hreact⟩⟩
  · rw [hreact, h]
  · rw [hreact]
    by_cases hid : id = (inv.messages.get i).id
    · rw [hid, Function.update_self]
    · rw [Function.update_of_ne hid, h]
  · rw [hreact]
    split
    · rename_i hheld
      by_cases hid : id = (inv.messages.get i).id
      · rw [← hid, h] at hheld
        cases hheld
      · rw [Function.update_of_ne hid, h]
    · exact h

theorem handler_notMem_execution {msg : Message U} {c : Cause ParseError U} {v : T}
    {x x' : Exit (HandlerError U) U Unit} :
    (⟨.handler v, x⟩ : Answered (QueueSig U T)) ∉ execution config msg (.failure c) x' := by
  intro hm
  have hv : v ∈ ((execution config msg (.failure c) x').map Sigma.fst).filterMap
      QueueOp.handled := List.mem_filterMap.mpr ⟨_, List.mem_map_of_mem hm, rfl⟩
  rw [handled_execution] at hv
  cases hv

variable [Throwable (ProcessError U) U] {body : String → U} {w w' : World U T}

/-! ## Who is delivered what -/

theorem reachable_bodies (h : World.Reachable config body w) {k : Nat} {inv : Invocation U T}
    (hk : w.invocations k = some inv) : ∀ m ∈ inv.messages, m.body = body m.id := by
  induction h generalizing inv with
  | empty => cases hk
  | step _ hs ih =>
    rcases step_invocations hs hk with ⟨inv₀, hk₀, hn⟩ | ⟨ids, env, -, rfl⟩
    · have hbefore := ih hk₀
      cases hn with
      | same | finish _ | advance e state _ _ _ => exact hbefore
    · intro m hm
      obtain ⟨id, -, rfl⟩ := List.mem_map.mp hm
      rfl

/-- There is always a number that no invocation has had. -/
theorem reachable_unused (h : World.Reachable config body w) :
    ∃ bound, ∀ k, bound ≤ k → w.invocations k = none := by
  induction h with
  | empty => exact ⟨0, fun _ _ => rfl⟩
  | @step w w' _ hs ih =>
    obtain ⟨bound, hbound⟩ := ih
    have update : ∀ k₀ inv, ∃ bound, ∀ k, bound ≤ k →
        Function.update w.invocations k₀ inv k = none := by
      intro k₀ inv
      refine ⟨max bound (k₀ + 1), fun k hk => ?_⟩
      rw [Function.update_of_ne (by omega)]
      exact hbound k (by omega)
    cases hs with
    | send | redeliverable => exact ⟨bound, hbound⟩
    | deliver k₀ | run k₀ | fulfilled k₀ | rejected k₀ | killed k₀ => exact update k₀ _

/-- What has left the queue was removable. -/
theorem removable_of_gone (h : World.Reachable config body w) {id : String}
    (hgone : w.location id = .gone) : Removable config (body id) := by
  obtain ⟨k, inv, hk, i, hid, hd⟩ := (reachable_kept h).disposed id hgone
  have hbody : (inv.messages.get i).body = body id := by
    rw [← hid]
    exact reachable_bodies h hk _ (List.get_mem ..)
  unfold Disposed at hd
  unfold Removable
  rw [hbody] at hd
  cases hs : config.schema (body id) with
  | success v => trivial
  | failure c =>
    rw [hs] at hd
    exact hd.2

/-! ## A delivery that removes its message -/

/-- Alone in its batch a removable message can be acked. -/
theorem run_acks (msg : Message U) (h : Removable config msg.body) :
    ∃ t fs, (forEachMessage config [msg] fun _ _ => True).Run t fs ∧
      .ack ∈ settlements (answered (history (0 : Fin 1) t)) := by
  have hdecode : ¬ (config.schema msg.body).Unrecoverable := by
    unfold Removable at h
    cases hs : config.schema msg.body with
    | success v => exact fun hf => hf
    | failure c =>
      rw [hs] at h
      exact not_not.mpr h.1
  let hx : Fin [msg].length → Exit (HandlerError U) U Unit → Prop := fun _ x => x = .success ()
  have hans : ∀ i, ∃ x, hx i x := fun _ => ⟨_, rfl⟩
  have hgood : ∀ i x, hx i x → Recoverable config ([msg].get i) x := by
    intro i x hxi
    rw [show [msg].get i = msg from List.mem_singleton.mp (List.get_mem ..)]
    refine ⟨hdecode, fun _ _ => ?_⟩
    rw [show x = .success () from hxi]
    exact ⟨fun hf => hf, fun hf => hf⟩
  obtain ⟨log, s, y, hrun, hy, hopen⟩ := batch_completes_initial config localEnv hans
  obtain ⟨x, hh, hcalls, -, -⟩ := batchRun_settled hgood hans hrun hopen hy 0
  refine ⟨_, _, batchRun_loop (batchRun_mono (fun _ _ _ => trivial) hrun), ?_⟩
  change .ack ∈ calls log 0
  rw [hcalls, Option.mem_toList]
  change settlement config (outcome msg (config.schema msg.body) x) = some .ack
  unfold Removable at h
  cases hs : config.schema msg.body with
  | success v =>
    rw [show x = .success () from (hh v hs).1]
    rfl
  | failure c =>
    rw [hs] at h
    obtain ⟨e, he⟩ := h.1.exists_error
    simp [outcome, he, settlement, h.2]

/-- The platform lets an invocation open its connection. -/
theorem steps_opened (config : QueueHandlerConfig U T) (body : String → U) {k : Nat}
    {messages : List (Message U)} {env : Env}
    (hk : w.invocations k = some (.start messages env)) :
    ∃ w', World.Steps config body w w' ∧ w'.location = w.location ∧
      w'.invocations k = some ⟨messages, env, opened env w.nextConnection [],
        ⟨.running w.nextConnection, fun _ => .waiting⟩, false⟩ := by
  obtain ⟨w₁, hfirst, hk₁, hloc, hnext⟩ : ∃ w₁, World.Step config body w w₁ ∧
      w₁.invocations k = some ⟨messages, env, [.connecting env.connectionString],
        ⟨.connecting, fun _ => .waiting⟩, false⟩ ∧
      w₁.location = w.location ∧ w₁.nextConnection = w.nextConnection :=
    ⟨_, .run w k _ (.connecting env.connectionString) _ hk rfl (.connecting _)
      (fun conn h => by cases h), Function.update_self .., rfl, rfl⟩
  refine ⟨_, (Relation.ReflTransGen.single hfirst).tail (.run w₁ k _
    (.connected w.nextConnection) _ hk₁ rfl (.connected _ _) fun conn h => ?_), hloc,
    Function.update_self ..⟩
  cases h
  exact hnext.symm

/-- It lets a connected invocation go through any run of its loop, and takes
out the messages acked on the way. -/
theorem steps_loop (body : String → U) {k : Nat} {messages : List (Message U)} {env : Env}
    {conn : Connection}
    (hk : w.invocations k = some ⟨messages, env, opened env conn [],
      ⟨.running conn, fun _ => .waiting⟩, false⟩)
    {t : List (Fin messages.length × Event (QueueSig U T) (ProcessError U) U Unit)}
    {fs : Fin messages.length → Fiber (QueueSig U T) (ProcessError U) U Unit}
    (h : (forEachMessage config messages fun _ _ => True).Run t fs) :
    ∃ w', World.Steps config body w w' ∧
      w'.invocations k = some ⟨messages, env, opened env conn t, ⟨.running conn, fs⟩, false⟩ ∧
      ∀ i, .ack ∈ settlements (answered (history i t)) →
        w'.location (messages.get i).id = .gone := by
  induction h with
  | nil => exact ⟨w, .refl, hk, fun i hi => by cases hi⟩
  | @snoc t fs e fs' _ hs ih =>
    obtain ⟨i, e⟩ := e
    obtain ⟨w₁, hsteps, hk₁, hgone⟩ := ih
    let inv : Invocation U T := ⟨messages, env, opened env conn t, ⟨.running conn, fs⟩, false⟩
    have hstep : World.Step config body w₁ _ := .run w₁ k inv _ _ hk₁ rfl
      (.fiber fs conn i e fs' hs) (fun conn' h => by cases h)
    have hlog : opened env conn t ++ [.fiber conn i e] = opened env conn (t ++ [(i, e)]) := by
      simp [opened]
    refine ⟨_, hsteps.tail hstep, ?_, fun j hj => ?_⟩
    · rw [← hlog]
      exact Function.update_self ..
    · change inv.react k w₁.location (.fiber conn i e) (messages.get j).id = .gone
      rw [history_append, answered_append, settlements, List.filterMap_append] at hj
      rcases List.mem_append.mp hj with hj | hj
      · exact react_stays_gone inv k _ (hgone j hj)
      · -- the last event is the `ack()` of message `j`
        rw [history_cons] at hj
        split at hj
        · rename_i hij
          have hij : i = j := hij
          subst hij
          cases e with
          | answers o r =>
            cases o with
            | ack => exact Function.update_self ..
            | decodeUnknown | handler | logError | retry =>
              simp [answered, Settlement.of] at hj
          | starts | begins | works | ends | interrupted => simp [answered] at hj
        · cases hj

/-- From wherever it is now, a removable message can leave the queue. -/
theorem steps_gone (h : World.Reachable config body w) {id : String}
    (hsent : w.location id ≠ .absent) (hremovable : Removable config (body id)) :
    ∃ w', World.Steps config body w w' ∧ w'.location id = .gone := by
  have queued : ∀ {w₁ : World U T}, World.Reachable config body w₁ → w₁.location id = .queued →
      ∃ w', World.Steps config body w₁ w' ∧ w'.location id = .gone := by
    intro w₁ hr hloc
    obtain ⟨bound, hbound⟩ := reachable_unused hr
    obtain ⟨w₂, hdeliver, hk₂⟩ : ∃ w₂, World.Step config body w₁ w₂ ∧
        w₂.invocations bound = some (.start [⟨id, body id⟩] localEnv) :=
      ⟨_, .deliver w₁ bound [id] localEnv (hbound bound le_rfl) (List.nodup_singleton id)
        (fun id' hid => by rw [List.mem_singleton.mp hid, hloc]), Function.update_self ..⟩
    obtain ⟨t, fs, hrun, hack⟩ := run_acks ⟨id, body id⟩ hremovable
    obtain ⟨w₃, hopened, -, hk₃⟩ := steps_opened config body hk₂
    obtain ⟨w₄, hsteps, -, hgone⟩ := steps_loop body hk₃ hrun
    exact ⟨w₄, ((Relation.ReflTransGen.single hdeliver).trans hopened).trans hsteps,
      hgone 0 hack⟩
  cases hloc : w.location id with
  | absent => exact absurd hloc hsent
  | gone => exact ⟨w, .refl, hloc⟩
  | queued => exact queued h hloc
  | delivered k =>
    have hback : World.Step config body w _ := .redeliverable w id k hloc
    obtain ⟨w', hsteps, hgone⟩ := queued (h.step hback) (Function.update_self ..)
    exact ⟨w', (Relation.ReflTransGen.single hback).trans hsteps, hgone⟩

/-! ## The handler and undecodable bodies -/

/-- The handler is not run on a body that does not decode. -/
theorem handlerRuns_undecodable {messages : List (Message U)} {env : Env}
    {hx : Fin messages.length → Exit (HandlerError U) U Unit → Prop}
    {log : List (BatchEvent U T messages.length)} {s : BatchState U T messages.length}
    (h : BatchRun config messages env hx log s) {i : Fin messages.length}
    {c : Cause ParseError U} (hd : config.schema (messages.get i).body = .failure c) :
    handlerRuns log i = [] := by
  have hr := messageHistory_fiberRun h i
  obtain ⟨x, hpre, -⟩ := fiberRun_execution hr
  rw [hd] at hpre
  rw [handlerRuns, List.filterMap_eq_nil_iff]
  intro o ho
  cases o with
  | decodeUnknown | logError | ack | retry => rfl
  | handler v =>
    rcases fiberRun_begun_path hr ho with hm | ⟨k, hpath⟩
    · obtain ⟨⟨o, r⟩, hm, hv⟩ := List.mem_map.mp hm
      cases hv
      exact absurd (hpre.subset hm) handler_notMem_execution
    · -- given an answer here, the execution would contain the handler's
      obtain ⟨d, x', hpre', -⟩ := processWithAckRetry_path (Eff.path_snoc hpath (.success ()))
      cases has : answered (messageHistory log i) with
      | nil =>
        rw [has] at hpre'
        cases (List.cons_prefix_cons.mp hpre').1
      | cons a as =>
        rw [has] at hpre hpre'
        have hfirst := (List.cons_prefix_cons.mp hpre').1
        rw [(List.cons_prefix_cons.mp hpre).1] at hfirst
        cases hfirst
        exact absurd (hpre'.subset (List.mem_append_right _ List.mem_cons_self))
          handler_notMem_execution

theorem call_undecodable {messages : List (Message U)} {env : Env}
    {hx : Fin messages.length → Exit (HandlerError U) U Unit → Prop}
    {log : List (BatchEvent U T messages.length)} {s : BatchState U T messages.length}
    (h : BatchRun config messages env hx log s) {i : Fin messages.length}
    {c : Cause ParseError U} (hd : config.schema (messages.get i).body = .failure c)
    {call : Settlement} (hc : call ∈ calls log i) :
    call = if config.onDecodeErrorOrDefault = .deadLetter then .ack else .retry := by
  rcases calls_spec h i with hnil | ⟨-, x, -, hcalls⟩
  · rw [hnil] at hc
    cases hc
  rw [hcalls, hd, Option.mem_toList] at hc
  cases hf : c.failureOption with
  | none => simp [outcome, hf, settlement] at hc
  | some e => simpa [outcome, hf, settlement] using hc.symm

/-- A message that was sent can still leave the queue, from whatever world has
been reached, if and only if its body decodes or its parse error is one the
handler dead-letters. If the body does not decode, no delivery ever runs the
handler on it, and the only call made on it is the policy's. -/
theorem leavesQueue_iff (h : World.Reachable config body w) {id : String}
    (hsent : w.location id ≠ .absent) :
    ((∃ w', World.Steps config body w w' ∧ w'.location id = .gone) ↔
      Removable config (body id)) ∧
    ∀ c, config.schema (body id) = .failure c → ∀ k inv, w.invocations k = some inv →
      ∀ i : Fin inv.messages.length, (inv.messages.get i).id = id →
        handlerRuns inv.log i = [] ∧ ∀ call ∈ calls inv.log i,
          call = if config.onDecodeErrorOrDefault = .deadLetter then .ack else .retry := by
  refine ⟨⟨?_, steps_gone h hsent⟩, ?_⟩
  · rintro ⟨w', hsteps, hgone⟩
    exact removable_of_gone (steps_reachable h hsteps) hgone
  · rintro c hd k inv hk i rfl
    have hrun := (reachable_sound h hk).run
    rw [← reachable_bodies h hk _ (List.get_mem ..)] at hd
    exact ⟨handlerRuns_undecodable hrun hd, fun call => call_undecodable hrun hd⟩

theorem leavesQueue_delivered :
    ∃ w', World.Steps echoConfig (fun _ => "payload") deliveredWorld w' ∧
      w'.location "m1" = .gone :=
  (leavesQueue_iff (sentWorld_reachable.step deliveredWorld_step) (by decide)).1.mpr trivial

end Removal

end EffectWorker.Queue
