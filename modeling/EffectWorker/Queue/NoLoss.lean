import Mathlib.Logic.Relation
import EffectWorker.Queue.Turns

/-! No message is lost. A message leaves the queue only after one of its
deliveries has disposed of it: the handler ran to success on it, or it was
dead-lettered by the rule for its error. Until then it is queued, or with an
invocation that is still running and has not settled it. -/

namespace EffectWorker.Queue

open Effect

section NoLoss

variable {U T : Type} {config : QueueHandlerConfig U T}

/-- The delivery of message `i` recorded in `log` has disposed of it. -/
def Disposed (config : QueueHandlerConfig U T) (messages : List (Message U))
    (log : List (BatchEvent U T messages.length)) (i : Fin messages.length) : Prop :=
  match config.schema (messages.get i).body with
  | .success v =>
    .answers (.handler v) (.success ()) ∈ messageHistory log i ∨
      ∃ c e, .answers (.handler v) (.failure c) ∈ messageHistory log i ∧
        c.failureOption = some (.processing e) ∧ e.retryable = false
  | .failure c =>
    .answers (.decodeUnknown (messages.get i).body) (.failure c) ∈ messageHistory log i ∧
      c.HasFail ∧ config.onDecodeErrorOrDefault = .deadLetter

/-- Some delivery of the message has disposed of it. -/
def World.Disposed (config : QueueHandlerConfig U T) (w : World U T) (id : String) : Prop :=
  ∃ k inv, w.invocations k = some inv ∧ ∃ i : Fin inv.messages.length,
    (inv.messages.get i).id = id ∧ Queue.Disposed config inv.messages inv.log i

theorem messageHistory_append {n : Nat} (log log' : List (BatchEvent U T n)) (i : Fin n) :
    messageHistory (log ++ log') i = messageHistory log i ++ messageHistory log' i := by
  simp [messageHistory]

theorem disposed_append {messages : List (Message U)}
    {log : List (BatchEvent U T messages.length)} (log' : List (BatchEvent U T messages.length))
    {i : Fin messages.length} (h : Disposed config messages log i) :
    Disposed config messages (log ++ log') i := by
  unfold Disposed at h ⊢
  rw [messageHistory_append]
  cases hd : config.schema (messages.get i).body with
  | success v =>
    rw [hd] at h
    rcases h with h | ⟨c, e, h, he⟩
    · exact .inl (List.mem_append_left _ h)
    · exact .inr ⟨c, e, List.mem_append_left _ h, he⟩
  | failure c =>
    rw [hd] at h
    exact ⟨List.mem_append_left _ h.1, h.2⟩

/-- Where a message that was sent may be. -/
def World.Accounted (config : QueueHandlerConfig U T) (w : World U T) (id : String) : Prop :=
  w.location id = .queued ∨
  (∃ k inv, w.location id = .delivered k ∧ w.invocations k = some inv ∧ inv.isOver = false ∧
    inv.unsettled id) ∨
  (w.location id = .gone ∧ w.Disposed config id)

/-! ## What an event adds to the calls -/

def BatchEvent.call {n : Nat} (i : Fin n) : BatchEvent U T n → List Settlement
  | .fiber _ j e => if j = i then settlements (answered [e]) else []
  | _ => []

theorem calls_snoc {n : Nat} (log : List (BatchEvent U T n)) (e : BatchEvent U T n) (i : Fin n) :
    calls (log ++ [e]) i = calls log i ++ e.call i := by
  have hone : settlements (answered (messageHistory [e] i)) = e.call i := by
    cases e with
    | connecting | connected | connectFailed | exited | closed => rfl
    | fiber conn j e =>
      have hhist : messageHistory [.fiber conn j e] i = if j = i then [e] else [] :=
        history_cons i (j, e) []
      rw [hhist, BatchEvent.call]
      by_cases hj : j = i
      · rw [if_pos hj, if_pos hj]
      · rw [if_neg hj, if_neg hj]
        rfl
  rw [← hone, calls, messageHistory_append, answered_append, settlements, List.filterMap_append]
  rfl

/-- An event that makes no call leaves the queue as it is; an `ack()` takes its
message out, a `retry()` puts it back if it is still with this invocation. -/
theorem react_cases (inv : Invocation U T) (k : Nat) (location : String → Location)
    (e : BatchEvent U T inv.messages.length) :
    (inv.react k location e = location ∧ ∀ i, e.call i = []) ∨
    ∃ conn i, (∀ j, j ≠ i → e.call j = []) ∧
      ((e = .fiber conn i (.answers .ack ()) ∧
        inv.react k location e = Function.update location (inv.messages.get i).id .gone) ∨
      (e = .fiber conn i (.answers .retry ()) ∧
        inv.react k location e = if location (inv.messages.get i).id = .delivered k then
          Function.update location (inv.messages.get i).id .queued else location)) := by
  have others : ∀ (conn : Connection) (i : Fin inv.messages.length)
      (e : Event (QueueSig U T) (ProcessError U) U Unit) (j : Fin inv.messages.length), j ≠ i →
      (BatchEvent.fiber conn i e).call j = [] := fun _ _ _ _ hj => if_neg (Ne.symm hj)
  have silent : ∀ (conn : Connection) (i : Fin inv.messages.length)
      (e : Event (QueueSig U T) (ProcessError U) U Unit), settlements (answered [e]) = [] →
      ∀ j, (BatchEvent.fiber conn i e).call j = [] := by
    intro conn i e he j
    change (if i = j then settlements (answered [e]) else []) = []
    rw [he, ite_self]
  cases e with
  | connecting | connected | connectFailed | exited | closed => exact .inl ⟨rfl, fun _ => rfl⟩
  | fiber conn i e =>
    cases e with
    | starts | begins | works | ends | interrupted => exact .inl ⟨rfl, silent conn i _ rfl⟩
    | answers o r =>
      cases o with
      | decodeUnknown | handler | logError => exact .inl ⟨rfl, silent conn i _ rfl⟩
      | ack => exact .inr ⟨conn, i, others conn i _, .inl ⟨rfl, rfl⟩⟩
      | retry => exact .inr ⟨conn, i, others conn i _, .inr ⟨rfl, rfl⟩⟩

/-- A delivered message is with a live invocation that has not settled it, and
a message that has left the queue is disposed of. -/
structure World.Kept (config : QueueHandlerConfig U T) (w : World U T) : Prop where
  held : ∀ id k, w.location id = .delivered k →
    ∃ inv, w.invocations k = some inv ∧ inv.isOver = false ∧ inv.unsettled id
  disposed : ∀ id, w.location id = .gone → w.Disposed config id

private theorem of_update {location : String → Location} {id id' : String} {loc loc' : Location}
    (h : Function.update location id loc id' = loc') (hne : loc ≠ loc') :
    id' ≠ id ∧ location id' = loc' := by
  by_cases hid : id' = id
  · rw [hid, Function.update_self] at h
    exact absurd h hne
  · rw [Function.update_of_ne hid] at h
    exact ⟨hid, h⟩

theorem run_unsettled {inv : Invocation U T} {e : BatchEvent U T inv.messages.length}
    {state : BatchState U T inv.messages.length} {id : String} (h : inv.unsettled id)
    (hcall : ∀ i : Fin inv.messages.length, (inv.messages.get i).id = id → e.call i = []) :
    (inv.advance e state).unsettled id := by
  obtain ⟨i, hid, hc⟩ := h
  refine ⟨i, hid, ?_⟩
  have hsnoc := calls_snoc inv.log e i
  rw [hc, hcall i hid] at hsnoc
  exact hsnoc

/-- A message still delivered after an event was so before, and got no call. -/
private theorem react_delivered {inv : Invocation U T} {k k' : Nat} {location : String → Location}
    {e : BatchEvent U T inv.messages.length} {id : String}
    (hloc : inv.react k location e id = .delivered k') :
    location id = .delivered k' ∧
      (k' = k → ∀ i : Fin inv.messages.length, (inv.messages.get i).id = id → e.call i = []) := by
  rcases react_cases inv k location e with
    ⟨hreact, hcall⟩ | ⟨conn, i, hcall, ⟨-, hreact⟩ | ⟨-, hreact⟩⟩
  · rw [hreact] at hloc
    exact ⟨hloc, fun _ i _ => hcall i⟩
  · rw [hreact] at hloc
    obtain ⟨hid, hloc⟩ := of_update hloc (by simp)
    refine ⟨hloc, fun _ j hj => hcall j ?_⟩
    rintro rfl
    exact hid hj.symm
  · rw [hreact] at hloc
    by_cases hheld : location (inv.messages.get i).id = .delivered k
    · rw [if_pos hheld] at hloc
      obtain ⟨hid, hloc⟩ := of_update hloc (by simp)
      refine ⟨hloc, fun _ j hj => hcall j ?_⟩
      rintro rfl
      exact hid hj.symm
    · rw [if_neg hheld] at hloc
      refine ⟨hloc, fun hkk j hj => hcall j ?_⟩
      rintro rfl
      rw [hj, ← hkk] at hheld
      exact hheld hloc

/-- A message is gone after an event because it was gone before, or by an `ack()`. -/
private theorem react_gone {inv : Invocation U T} {k : Nat} {location : String → Location}
    {e : BatchEvent U T inv.messages.length} {id : String}
    (hloc : inv.react k location e id = .gone) (hbefore : location id ≠ .gone) :
    ∃ conn i, (inv.messages.get i).id = id ∧ e = .fiber conn i (.answers .ack ()) := by
  rcases react_cases inv k location e with
    ⟨hreact, -⟩ | ⟨conn, i, -, ⟨rfl, hreact⟩ | ⟨-, hreact⟩⟩
  · rw [hreact] at hloc
    exact absurd hloc hbefore
  · rw [hreact] at hloc
    by_cases hid : id = (inv.messages.get i).id
    · exact ⟨conn, i, hid.symm, rfl⟩
    · rw [Function.update_of_ne hid] at hloc
      exact absurd hloc hbefore
  · rw [hreact] at hloc
    split at hloc
    · exact absurd (of_update hloc (by simp)).2 hbefore
    · exact absurd hloc hbefore

variable [Throwable (ProcessError U) U] {body : String → U}

/-- An `ack()` is called only on a message that is disposed of. -/
theorem disposed_of_ack {messages : List (Message U)} {env : Env}
    {hx : Fin messages.length → Exit (HandlerError U) U Unit → Prop}
    {log : List (BatchEvent U T messages.length)} {s : BatchState U T messages.length}
    (h : BatchRun config messages env hx log s) {i : Fin messages.length}
    (hack : .ack ∈ calls log i) : Disposed config messages log i := by
  rcases calls_spec h i with hnil | ⟨hdecode, x, hh, hcalls⟩
  · rw [hnil] at hack
    cases hack
  rw [hcalls, Option.mem_toList] at hack
  unfold Disposed
  cases hd : config.schema (messages.get i).body with
  | failure c =>
    rw [hd] at hack hdecode
    cases hc : c.failureOption with
    | none => simp [outcome, hc, settlement] at hack
    | some e =>
      refine ⟨hdecode, Cause.hasFail_of_error hc, ?_⟩
      by_contra hpolicy
      simp [outcome, hc, settlement, hpolicy] at hack
  | success v =>
    rw [hd] at hack
    obtain ⟨-, hm⟩ := hh v hd
    cases x with
    | success _ => exact .inl hm
    | failure c =>
      refine .inr ⟨c, ?_⟩
      cases hc : c.failureOption with
      | none => simp [outcome, handlerOutcome, hc, settlement] at hack
      | some e =>
        cases e with
        | unexpected _ =>
          by_cases hdie : c.HasDie <;>
            simp [outcome, handlerOutcome, hc, hdie, settlement] at hack
        | processing e =>
          refine ⟨e, hm, rfl, ?_⟩
          by_contra hretry
          simp [outcome, handlerOutcome, hc, settlement, hretry] at hack

/-! ## The invariant -/

theorem step_disposed {w w' : World U T} (hs : World.Step config body w w') {id : String}
    (h : w.Disposed config id) : w'.Disposed config id := by
  obtain ⟨k, inv, hk, i, hid, hd⟩ := h
  obtain ⟨inv', hk', hn⟩ := step_persists hs hk
  cases hn with
  | same => exact ⟨k, inv, hk', i, hid, hd⟩
  | finish _ => exact ⟨k, _, hk', i, hid, hd⟩
  | advance e state _ _ _ => exact ⟨k, _, hk', i, hid, disposed_append [e] hd⟩

/-- A fulfilled promise leaves no message without a call, so the platform's
implicit `ack()` finds nothing to do. -/
theorem not_unsettled_of_fulfilled {inv : Invocation U T} (h : inv.Sound config)
    (hphase : inv.state.phase = .settled (.success ())) (id : String) : ¬ inv.unsettled id := by
  rintro ⟨i, -, hcalls⟩
  have hshape := batchRun_shape h.run
  unfold Shape at hshape
  simp only [hphase] at hshape
  rcases hshape with ⟨cause, -, hfail, -⟩ | ⟨conn, x, -, hx, hexit⟩
  · cases hfail
  cases hexit with
  | failure _ _ => cases hx
  | success hends =>
    obtain ⟨_, hend⟩ := hends i
    obtain ⟨x, has, hne⟩ := messageHistory_success h.run hend
    rw [calls, has, settlements_execution, Option.toList_eq_nil_iff] at hcalls
    exact hne ((settlement_eq_none_iff config _).mp hcalls)

private theorem kept_run {w : World U T} {body : String → U} {k : Nat} {inv : Invocation U T}
    {e : BatchEvent U T inv.messages.length} {state : BatchState U T inv.messages.length}
    (h : w.Kept config) (hsound : inv.Sound config) (hk : w.invocations k = some inv)
    (hover : inv.isOver = false)
    (hs : World.Step config body w {
      location := inv.react k w.location e
      invocations := Function.update w.invocations k (some (inv.advance e state))
      nextConnection := connectionsAfter w.nextConnection e })
    (hstep : BatchStep config inv.messages inv.env (fun _ _ => True) inv.state e state) :
    World.Kept config {
      location := inv.react k w.location e
      invocations := Function.update w.invocations k (some (inv.advance e state))
      nextConnection := connectionsAfter w.nextConnection e } := by
  constructor
  · intro id k' hloc
    obtain ⟨hbefore, hcall⟩ := react_delivered hloc
    obtain ⟨inv', hk', hover', hun⟩ := h.held id k' hbefore
    by_cases hkk : k' = k
    · subst hkk
      rw [hk] at hk'
      cases hk'
      exact ⟨_, Function.update_self .., hover, run_unsettled hun (hcall rfl)⟩
    · exact ⟨inv', by rw [← hk']; exact Function.update_of_ne hkk .., hover', hun⟩
  · intro id hloc
    by_cases hgone : w.location id = .gone
    · exact step_disposed hs (h.disposed id hgone)
    · obtain ⟨conn, i, hid, rfl⟩ := react_gone hloc hgone
      refine ⟨k, _, Function.update_self .., i, hid, disposed_of_ack (hsound.run.snoc hstep) ?_⟩
      rw [calls_snoc, BatchEvent.call, if_pos rfl]
      exact List.mem_append_right _ List.mem_cons_self

/-- An invocation that is over gives back what it still held. -/
private theorem kept_putBack {w : World U T} {body : String → U} {k : Nat} {inv : Invocation U T}
    (h : w.Kept config) (hk : w.invocations k = some inv)
    (hs : World.Step config body w { w with
      location := inv.putBack k w.location
      invocations := Function.update w.invocations k (some inv.finish) }) :
    World.Kept config { w with
      location := inv.putBack k w.location
      invocations := Function.update w.invocations k (some inv.finish) } := by
  have unchanged : ∀ id loc, loc ≠ .queued → inv.putBack k w.location id = loc →
      w.location id = loc ∧ ¬ (w.location id = .delivered k ∧ inv.unsettled id) := by
    intro id loc hloc hput
    by_cases hback : w.location id = .delivered k ∧ inv.unsettled id
    · rw [Invocation.putBack, if_pos hback] at hput
      exact absurd hput.symm hloc
    · rw [Invocation.putBack, if_neg hback] at hput
      exact ⟨hput, hback⟩
  constructor
  · intro id k' hloc
    obtain ⟨hbefore, hnot⟩ := unchanged id _ (by simp) hloc
    obtain ⟨inv', hk', hover', hun⟩ := h.held id k' hbefore
    have hkk : k' ≠ k := by
      rintro rfl
      rw [hk] at hk'
      cases hk'
      exact hnot ⟨hbefore, hun⟩
    exact ⟨inv', by rw [← hk']; exact Function.update_of_ne hkk .., hover', hun⟩
  · intro id hloc
    exact step_disposed hs (h.disposed id (unchanged id _ (by simp) hloc).1)

theorem step_kept {w w' : World U T} {body : String → U} (h : w.Kept config)
    (hsound : ∀ k inv, w.invocations k = some inv → inv.Sound config)
    (hs : World.Step config body w w') : w'.Kept config := by
  have hs' := hs
  cases hs with
  | send id _ | redeliverable id _ _ =>
    refine ⟨fun id' k hloc => ?_, fun id' hloc => ?_⟩
    · exact h.held id' k (of_update hloc (by simp)).2
    · exact step_disposed hs' (h.disposed id' (of_update hloc (by simp)).2)
  | deliver k ids env hfree hnodup hqueued =>
    refine ⟨fun id k' hloc => ?_, fun id hloc => ?_⟩
    · by_cases hid : id ∈ ids
      · simp only [hid, if_true, Location.delivered.injEq] at hloc
        subst hloc
        obtain ⟨i, hi, hget⟩ := List.getElem_of_mem hid
        refine ⟨_, Function.update_self .., rfl, ⟨i, by simpa [Invocation.start] using hi⟩, ?_, rfl⟩
        simp [Invocation.start, hget]
      · simp only [hid, if_false] at hloc
        obtain ⟨inv', hk', hover', hun⟩ := h.held id k' hloc
        have hkk : k' ≠ k := by
          rintro rfl
          rw [hfree] at hk'
          cases hk'
        exact ⟨inv', by rw [← hk']; exact Function.update_of_ne hkk .., hover', hun⟩
    · by_cases hid : id ∈ ids
      · simp [hid] at hloc
      · simp only [hid, if_false] at hloc
        exact step_disposed hs' (h.disposed id hloc)
  | run k inv e state hk hover hstep hfresh =>
    exact kept_run h (hsound k inv hk) hk hover hs' hstep
  | fulfilled k inv hk hover hphase =>
    have hnone := not_unsettled_of_fulfilled (hsound k inv hk) hphase
    have hsame : inv.implicitAck w.location = w.location := by
      funext id
      exact if_neg (hnone id)
    rw [hsame] at hs' ⊢
    refine ⟨fun id k' hloc => ?_, fun id hloc => step_disposed hs' (h.disposed id hloc)⟩
    obtain ⟨inv', hk', hover', hun⟩ := h.held id k' hloc
    have hkk : k' ≠ k := by
      rintro rfl
      rw [hk] at hk'
      cases hk'
      exact hnone id hun
    exact ⟨inv', by rw [← hk']; exact Function.update_of_ne hkk .., hover', hun⟩
  | rejected k inv cause hk hover hphase => exact kept_putBack h hk hs'
  | killed k inv hk hover => exact kept_putBack h hk hs'

theorem reachable_kept {w : World U T} {body : String → U} (h : World.Reachable config body w) :
    w.Kept config := by
  induction h with
  | empty =>
    constructor
    · intro id k hloc
      cases hloc
    · intro id hloc
      cases hloc
  | step hr hs ih => exact step_kept ih (fun k inv hk => reachable_sound hr hk) hs

/-! ## No loss -/

theorem step_sent {w w' : World U T} {body : String → U} (hs : World.Step config body w w')
    {id : String} (h : w.location id ≠ .absent) : w'.location id ≠ .absent := by
  have update : ∀ id' loc, loc ≠ .absent →
      Function.update w.location id' loc id ≠ Location.absent := by
    intro id' loc hloc
    by_cases hid : id = id'
    · rw [hid, Function.update_self]
      exact hloc
    · rw [Function.update_of_ne hid]
      exact h
  cases hs with
  | send id' _ => exact update id' _ (by simp)
  | redeliverable id' k _ => exact update id' _ (by simp)
  | deliver k ids env _ _ _ =>
    by_cases hid : id ∈ ids <;> simp [hid, h]
  | run k inv e state _ _ _ _ =>
    change inv.react k w.location e id ≠ .absent
    rcases react_cases inv k w.location e with
      ⟨hreact, -⟩ | ⟨conn, i, -, ⟨-, hreact⟩ | ⟨-, hreact⟩⟩
    · rw [hreact]
      exact h
    · rw [hreact]
      exact update _ _ (by simp)
    · rw [hreact]
      split
      · exact update _ _ (by simp)
      · exact h
  | fulfilled k inv _ _ _ =>
    change (if inv.unsettled id then Location.gone else w.location id) ≠ .absent
    split <;> simp [h]
  | rejected k inv _ _ _ _ | killed k inv _ _ =>
    change (if w.location id = .delivered k ∧ inv.unsettled id then Location.queued
      else w.location id) ≠ .absent
    split <;> simp [h]

/-- No message is lost: once sent, it is for ever after queued, with a live
invocation that has not settled it, or disposed of by one of its deliveries. -/
theorem sentMessage_neverLost {config : QueueHandlerConfig U T} {body : String → U}
    {w w' : World U T} {id : String} (h : World.Reachable config body w)
    (hsent : w.location id ≠ .absent)
    (hsteps : Relation.ReflTransGen (World.Step config body) w w') : w'.Accounted config id := by
  have hlater : World.Reachable config body w' ∧ w'.location id ≠ .absent := by
    induction hsteps with
    | refl => exact ⟨h, hsent⟩
    | tail _ hs ih => exact ⟨ih.1.step hs, step_sent hs ih.2⟩
  obtain ⟨hr, hne⟩ := hlater
  have hkept := reachable_kept hr
  unfold World.Accounted
  cases hloc : w'.location id with
  | absent => exact absurd hloc hne
  | queued => exact .inl rfl
  | delivered k =>
    obtain ⟨inv, hk, hover, hun⟩ := hkept.held id k hloc
    exact .inr (.inl ⟨k, inv, rfl, hk, hover, hun⟩)
  | gone => exact .inr (.inr ⟨rfl, hkept.disposed id hloc⟩)

end NoLoss

set_option maxRecDepth 4000 in
/-- After a batch with an acked, a retried, a failed and an interrupted message. -/
theorem sentMessage_neverLost_finished :
    ["m1", "m2", "m3", "m4"].map finishedWorld.location = [.gone, .queued, .queued, .queued] ∧
      finishedWorld.Accounted echoConfig "m1" ∧ finishedWorld.Accounted echoConfig "m4" :=
  ⟨rfl, sentMessage_neverLost sentWorld_reachable (by decide) finishedWorld_steps,
    sentMessage_neverLost sentWorld_reachable (by decide) finishedWorld_steps⟩

end EffectWorker.Queue
