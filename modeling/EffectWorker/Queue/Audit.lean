import EffectWorker.Queue.Lifecycle
import EffectWorker.Queue.NoLoss

/-! What the error log says about the messages of the queue. A message is
settled after a success that leaves the error log alone, or after one line that
names its own failure; so a message that has left the queue was handled, or the
log says why it was dropped. -/

namespace EffectWorker.Queue

open Effect

section Audit

variable {U T : Type} {messages : List (Message U)} {log : List (BatchEvent U T messages.length)}
  {i : Fin messages.length}

/-! ## The lines of an execution -/

def QueueOp.line : QueueOp U T → Option (String × ProcessError U)
  | .logError text error => some (text, error)
  | _ => none

def lines (as : List (Answered (QueueSig U T))) : List (String × ProcessError U) :=
  as.filterMap fun a => a.1.line

/-- The lines `Effect.logError` has written for one message, oldest first. -/
def errorLog {n : Nat} (log : List (BatchEvent U T n)) (i : Fin n) :
    List (String × ProcessError U) :=
  lines (answered (messageHistory log i))

def Outcome.report : Outcome U → List (String × ProcessError U)
  | .failed e => [(recoveryText e, e)]
  | .done | .unrecoverable => []

/-- Decoding and handler, the part of an execution that `processMessage` is. -/
def attempt (msg : Message U) (d : Exit ParseError U T) (x : Exit (HandlerError U) U Unit) :
    List (Answered (QueueSig U T)) :=
  ⟨QueueOp.decodeUnknown msg.body, d⟩ ::
    match d with
    | .success v => [⟨QueueOp.handler v, x⟩]
    | .failure _ => []

def reported (o : Outcome U) : List (Answered (QueueSig U T)) :=
  o.report.map fun l => ⟨QueueOp.logError l.1 l.2, ()⟩

theorem execution_parts (config : QueueHandlerConfig U T) (msg : Message U)
    (d : Exit ParseError U T) (x : Exit (HandlerError U) U Unit) :
    execution config msg d x = attempt msg d x ++ (reported (outcome msg d x) ++
      ((settlement config (outcome msg d x)).map Settlement.answered).toList) := by
  have hc : ∀ o : Outcome U, conclusion config o = reported o ++
      ((settlement config o).map Settlement.answered).toList := by
    intro o
    cases o <;> rfl
  rw [← hc]
  cases d <;> rfl

theorem lines_attempt (msg : Message U) (d : Exit ParseError U T)
    (x : Exit (HandlerError U) U Unit) : lines (attempt msg d x) = [] := by
  cases d <;> rfl

theorem lines_reported (o : Outcome U) : lines (reported (T := T) o) = o.report := by
  cases o <;> rfl

theorem lines_append (as as' : List (Answered (QueueSig U T))) :
    lines (as ++ as') = lines as ++ lines as' := List.filterMap_append

theorem lines_settled (o : Option Settlement) :
    lines (o.map (Settlement.answered (U := U) (T := T))).toList = [] := by
  cases o with
  | none => rfl
  | some s => cases s <;> rfl

theorem lines_execution (config : QueueHandlerConfig U T) (msg : Message U)
    (d : Exit ParseError U T) (x : Exit (HandlerError U) U Unit) :
    lines (execution config msg d x) = (outcome msg d x).report := by
  rw [execution_parts, lines_append, lines_append, lines_attempt, lines_reported, lines_settled]
  simp

theorem settled_notMem_attempt (s : Settlement) (msg : Message U) (d : Exit ParseError U T)
    (x : Exit (HandlerError U) U Unit) : s.answered ∉ attempt msg d x := by
  cases s <;> cases d <;> simp [attempt, Settlement.answered]

theorem settled_notMem_reported (s : Settlement) (o : Outcome U) :
    s.answered ∉ reported (T := T) o := by
  cases s <;> cases o <;> simp [reported, Outcome.report, Settlement.answered]

/-- A prefix that reaches past a part of the list contains that part. -/
theorem prefix_of_mem {α : Type} {l tail as : List α} {a : α} (h : as <+: l ++ tail)
    (ha : a ∈ as) (hl : a ∉ l) : l <+: as := by
  rcases List.prefix_or_prefix_of_prefix h (List.prefix_append l tail) with hshort | hlong
  · exact absurd (hshort.subset ha) hl
  · exact hlong

/-- An execution settles its message only at its end, after the report. -/
theorem execution_settled {config : QueueHandlerConfig U T} {msg : Message U}
    {d : Exit ParseError U T} {x : Exit (HandlerError U) U Unit} {c : Settlement}
    {as : List (Answered (QueueSig U T))} (h : as ++ [c.answered] <+: execution config msg d x) :
    as = attempt msg d x ++ reported (outcome msg d x) ∧
      settlement config (outcome msg d x) = some c := by
  rw [execution_parts, ← List.append_assoc] at h
  generalize hp : attempt msg d x ++ reported (outcome msg d x) = p at h
  have hfree : c.answered ∉ p := by
    rw [← hp]
    intro hm
    rcases List.mem_append.mp hm with hm | hm
    · exact settled_notMem_attempt c msg d x hm
    · exact settled_notMem_reported c _ hm
  have hbefore : p <+: as := by
    have hreach := prefix_of_mem h (List.mem_append_right _ List.mem_cons_self) hfree
    rcases List.prefix_concat_iff.mp hreach with rfl | hpre
    · exact absurd (List.mem_append_right _ List.mem_cons_self) hfree
    · exact hpre
  obtain ⟨r, rfl⟩ := hbefore
  rw [List.append_assoc, List.prefix_append_right_inj] at h
  cases hs : settlement config (outcome msg d x) with
  | none =>
    rw [hs] at h
    have hnil := List.prefix_nil.mp h
    simp at hnil
  | some c' =>
    rw [hs] at h
    cases r with
    | nil =>
      have hcc : c.answered = c'.answered := (List.cons_prefix_cons.mp h).1
      refine ⟨List.append_nil p, ?_⟩
      cases c <;> cases c' <;> first | rfl | (simp [Settlement.answered] at hcc)
    | cons a r =>
      have hnil := List.prefix_nil.mp (List.cons_prefix_cons.mp h).2
      simp at hnil

/-! ## The lines of a batch -/

/-- What message `i` has failed with: its body did not decode, or its handler
ended in a cause whose leftmost error this is. -/
def FailedWith (messages : List (Message U)) (log : List (BatchEvent U T messages.length))
    (i : Fin messages.length) : ProcessError U → Prop
  | .decode e => ∃ c p, c.failureOption = some p ∧ e = decodeError (messages.get i) p ∧
      .answers (.decodeUnknown (messages.get i).body) (.failure c) ∈ messageHistory log i
  | .handler e => ∃ v c, c.failureOption = some e ∧
      .answers (.handler v) (.failure c) ∈ messageHistory log i

def Succeeded {n : Nat} (log : List (BatchEvent U T n)) (i : Fin n) : Prop :=
  ∃ v, .answers (.handler v) (.success ()) ∈ messageHistory log i

/-- The delivery of message `i` is on record: at most one line is written for
it, about its own failure, and a call on it comes after a success without a
line, or after the line about the error that asks for this call. -/
structure Audited (config : QueueHandlerConfig U T) (messages : List (Message U))
    (log : List (BatchEvent U T messages.length)) (i : Fin messages.length) : Prop where
  reports : errorLog log i = [] ∨
    ∃ e, errorLog log i = [(recoveryText e, e)] ∧ FailedWith messages log i e
  acked : ∀ before conn after, log = before ++ .fiber conn i (.answers .ack ()) :: after →
    errorLog log i = errorLog before i ∧
    ((Succeeded before i ∧ errorLog before i = []) ∨
      ∃ e, errorLog before i = [(recoveryText e, e)] ∧ FailedWith messages before i e ∧
        settlement config (.failed e) = some .ack)
  retried : ∀ before conn after, log = before ++ .fiber conn i (.answers .retry ()) :: after →
    errorLog log i = errorLog before i ∧
    ∃ e, errorLog before i = [(recoveryText e, e)] ∧ FailedWith messages before i e ∧
      settlement config (.failed e) = some .retry

/-- An outcome that fails comes from a failure among the attempt's answers. -/
theorem failedWith_of_attempt {config : QueueHandlerConfig U T}
    {x : Exit (HandlerError U) U Unit} {e : ProcessError U}
    (hattempt : attempt (messages.get i) (config.schema (messages.get i).body) x <+:
      answered (messageHistory log i))
    (ho : outcome (messages.get i) (config.schema (messages.get i).body) x = .failed e) :
    FailedWith messages log i e := by
  cases hd : config.schema (messages.get i).body with
  | failure c =>
    rw [hd] at hattempt ho
    cases hc : c.failureOption with
    | none => simp [outcome, hc] at ho
    | some p =>
      have he : e = .decode (decodeError (messages.get i) p) := by simpa [outcome, hc] using ho.symm
      subst he
      exact ⟨c, p, hc, rfl, mem_answered.mp (hattempt.subset List.mem_cons_self)⟩
  | success v =>
    rw [hd] at hattempt ho
    cases x with
    | success _ => simp [outcome] at ho
    | failure c =>
      obtain ⟨p, hc, rfl⟩ := handlerOutcome_failed ho
      exact ⟨v, c, hc, mem_answered.mp (hattempt.subset (by simp [attempt]))⟩

theorem succeeded_of_attempt {config : QueueHandlerConfig U T}
    {x : Exit (HandlerError U) U Unit}
    (hattempt : attempt (messages.get i) (config.schema (messages.get i).body) x <+:
      answered (messageHistory log i))
    (ho : outcome (messages.get i) (config.schema (messages.get i).body) x = .done) :
    Succeeded log i := by
  cases hd : config.schema (messages.get i).body with
  | failure c =>
    rw [hd] at ho
    cases hc : c.failureOption <;> simp [outcome, hc] at ho
  | success v =>
    rw [hd] at hattempt ho
    cases x with
    | success _ => exact ⟨v, mem_answered.mp (hattempt.subset (by simp [attempt]))⟩
    | failure c => exact absurd ho (handlerOutcome_ne_done c)

/-- Some delivery of the message has called `ack()` on it. -/
def World.Acked (w : World U T) (id : String) : Prop :=
  ∃ k inv, w.invocations k = some inv ∧ ∃ i : Fin inv.messages.length,
    (inv.messages.get i).id = id ∧ ∃ conn, .fiber conn i (.answers .ack ()) ∈ inv.log

variable [Throwable (ProcessError U) U] {config : QueueHandlerConfig U T} {env : Env}
  {hx : Fin messages.length → Exit (HandlerError U) U Unit → Prop}
  {s : BatchState U T messages.length}

/-- At most one line, and it is about the message's own failure. -/
theorem batchRun_reports (h : BatchRun config messages env hx log s) (i : Fin messages.length) :
    errorLog log i = [] ∨
      ∃ e, errorLog log i = [(recoveryText e, e)] ∧ FailedWith messages log i e := by
  obtain ⟨x, hpre, -⟩ := fiberRun_execution (messageHistory_fiberRun h i)
  have hlines : errorLog log i <+:
      (outcome (messages.get i) (config.schema (messages.get i).body) x).report := by
    rw [← lines_execution config]
    exact hpre.filterMap _
  by_cases hnil : errorLog log i = []
  · exact .inl hnil
  cases ho : outcome (messages.get i) (config.schema (messages.get i).body) x with
  | done | unrecoverable =>
    rw [ho] at hlines
    exact absurd (List.prefix_nil.mp hlines) hnil
  | failed e =>
    rw [ho] at hlines
    have hline : errorLog log i = [(recoveryText e, e)] := by
      rcases List.prefix_cons_iff.mp hlines with hnil' | ⟨t, ht, hpt⟩
      · exact absurd hnil' hnil
      · rw [ht, List.prefix_nil.mp hpt]
    refine .inr ⟨e, hline, failedWith_of_attempt ?_ ho⟩
    -- the line stands behind the attempt, so the attempt has been answered
    obtain ⟨a, ha, hline⟩ := List.mem_filterMap.mp (hline ▸ List.mem_cons_self)
    rw [execution_parts] at hpre
    refine prefix_of_mem hpre ha fun hm => ?_
    have hlines : (recoveryText e, e) ∈ lines (attempt (messages.get i)
        (config.schema (messages.get i).body) x) := List.mem_filterMap.mpr ⟨a, hm, hline⟩
    rw [lines_attempt] at hlines
    cases hlines

/-- At a call on a message all there is to say about it has been logged. -/
theorem batchRun_call (h : BatchRun config messages env hx log s) {conn : Connection}
    {before after : List (BatchEvent U T messages.length)} {c : Settlement} {o : QueueOp U T}
    {r : o.Ans} (hc : c.answered = ⟨o, r⟩)
    (hlog : log = before ++ .fiber conn i (.answers o r) :: after) :
    ∃ out, errorLog before i = out.report ∧ errorLog log i = out.report ∧
      settlement config out = some c ∧ (out = .done → Succeeded before i) ∧
      ∀ e, out = .failed e → FailedWith messages before i e := by
  obtain ⟨x, hpre, -⟩ := fiberRun_execution (messageHistory_fiberRun h i)
  have hhist : answered (messageHistory log i) = answered (messageHistory before i) ++
      c.answered :: answered (messageHistory after i) := by
    have hone : messageHistory (.fiber conn i (.answers o r) :: after) i =
        .answers o r :: messageHistory after i := by
      change history i ((i, .answers o r) :: loopTrace after) = _
      rw [history_cons, if_pos rfl]
      rfl
    rw [hlog, messageHistory_append, hone, answered_append, hc]
    rfl
  have hupto : answered (messageHistory before i) ++ [c.answered] <+:
      execution config (messages.get i) (config.schema (messages.get i).body) x := by
    refine List.IsPrefix.trans ?_ hpre
    rw [hhist]
    exact ⟨answered (messageHistory after i), by simp⟩
  obtain ⟨hbefore, hsettled⟩ := execution_settled hupto
  have hlines : errorLog before i =
      (outcome (messages.get i) (config.schema (messages.get i).body) x).report := by
    rw [errorLog, hbefore, lines_append, lines_attempt, lines_reported, List.nil_append]
  have hattempt : attempt (messages.get i) (config.schema (messages.get i).body) x <+:
      answered (messageHistory before i) := by
    rw [hbefore]
    exact List.prefix_append _ _
  refine ⟨_, hlines, ?_, hsettled, succeeded_of_attempt hattempt,
    fun e => failedWith_of_attempt hattempt⟩
  -- what is logged lies between what was logged before the call and the whole report
  have hupper : errorLog log i <+:
      (outcome (messages.get i) (config.schema (messages.get i).body) x).report := by
    rw [← lines_execution config]
    exact hpre.filterMap _
  have hlower : errorLog before i <+: errorLog log i := by
    rw [errorLog, errorLog, hhist, lines_append]
    exact List.prefix_append _ _
  rw [hlines] at hlower
  exact hupper.eq_of_length_le hlower.length_le

theorem batchRun_audited (h : BatchRun config messages env hx log s) (i : Fin messages.length) :
    Audited config messages log i := by
  constructor
  case reports => exact batchRun_reports h i
  case acked =>
    intro before conn after hlog
    obtain ⟨out, hbefore, hwhole, hset, hdone, hfail⟩ := batchRun_call (c := .ack) h rfl hlog
    refine ⟨hwhole.trans hbefore.symm, ?_⟩
    cases out with
    | done => exact .inl ⟨hdone rfl, hbefore⟩
    | failed e => exact .inr ⟨e, hbefore, hfail e rfl, hset⟩
    | unrecoverable => cases hset
  case retried =>
    intro before conn after hlog
    obtain ⟨out, hbefore, hwhole, hset, -, hfail⟩ := batchRun_call (c := .retry) h rfl hlog
    refine ⟨hwhole.trans hbefore.symm, ?_⟩
    cases out with
    | done | unrecoverable => cases hset
    | failed e => exact ⟨e, hbefore, hfail e rfl, hset⟩

/-! ## The queue -/

variable {body : String → U}

theorem step_acked {w w' : World U T} (hs : World.Step config body w w') {id : String}
    (h : w.Acked id) : w'.Acked id := by
  obtain ⟨k, inv, hk, i, hid, conn, hm⟩ := h
  obtain ⟨inv', hk', hn⟩ := step_persists hs hk
  cases hn with
  | same | finish _ => exact ⟨k, _, hk', i, hid, conn, hm⟩
  | advance e state _ _ _ => exact ⟨k, _, hk', i, hid, conn, List.mem_append_left _ hm⟩

/-- A step takes a message out of the queue by an `ack()` only. -/
theorem step_gone {w w' : World U T} (hs : World.Step config body w w')
    (hsound : ∀ k inv, w.invocations k = some inv → inv.Sound config) {id : String}
    (hgone : w'.location id = .gone) : w.location id = .gone ∨ w'.Acked id := by
  cases hs with
  | send id' hloc | redeliverable id' k hloc =>
    refine .inl ?_
    by_cases hid : id = id'
    · subst hid
      simp at hgone
    · simpa [Function.update_of_ne hid] using hgone
  | deliver k ids env _ _ _ =>
    refine .inl ?_
    by_cases hid : id ∈ ids
    · simp [hid] at hgone
    · simpa [hid] using hgone
  | run k inv e state hk _ _ _ =>
    change inv.react k w.location e id = .gone at hgone
    rcases react_cases inv k w.location e with
      ⟨hreact, -⟩ | ⟨conn, i, -, ⟨rfl, hreact⟩ | ⟨-, hreact⟩⟩
    · rw [hreact] at hgone
      exact .inl hgone
    · rw [hreact] at hgone
      by_cases hid : id = (inv.messages.get i).id
      · exact .inr ⟨k, _, Function.update_self .., i, hid.symm, conn,
          List.mem_append_right _ List.mem_cons_self⟩
      · rw [Function.update_of_ne hid] at hgone
        exact .inl hgone
    · rw [hreact] at hgone
      split at hgone
      · by_cases hid : id = (inv.messages.get i).id
        · rw [hid, Function.update_self] at hgone
          cases hgone
        · rw [Function.update_of_ne hid] at hgone
          exact .inl hgone
      · exact .inl hgone
  | fulfilled k inv hk _ hphase =>
    have hnone := not_unsettled_of_fulfilled (hsound k inv hk) hphase id
    change (if inv.unsettled id then Location.gone else w.location id) = .gone at hgone
    rw [if_neg hnone] at hgone
    exact .inl hgone
  | rejected k inv _ _ _ _ | killed k inv _ _ =>
    change (if w.location id = .delivered k ∧ inv.unsettled id then Location.queued
      else w.location id) = .gone at hgone
    split at hgone
    · cases hgone
    · exact .inl hgone

theorem reachable_acked {w : World U T} (h : World.Reachable config body w) {id : String}
    (hgone : w.location id = .gone) : w.Acked id := by
  induction h with
  | empty => cases hgone
  | step hr hs ih =>
    rcases step_gone hs (fun k inv hk => reachable_sound hr hk) hgone with hbefore | hacked
    · exact step_acked hs (ih hbefore)
    · exact hacked

/-- The error log is complete: whatever has become of the messages, every
delivery is on record, and a message that has left the queue was handled, or
the log of one of its deliveries names the error it was dropped for. -/
theorem errorLog_complete {w : World U T} (h : World.Reachable config body w) :
    (∀ k inv, w.invocations k = some inv → ∀ i, Audited config inv.messages inv.log i) ∧
    ∀ id, w.location id = .gone → ∃ k inv, w.invocations k = some inv ∧
      ∃ i : Fin inv.messages.length, (inv.messages.get i).id = id ∧
        ((Succeeded inv.log i ∧ errorLog inv.log i = []) ∨
          ∃ e, errorLog inv.log i = [(recoveryText e, e)] ∧ FailedWith inv.messages inv.log i e ∧
            settlement config (.failed e) = some .ack) := by
  have haudited : ∀ k inv, w.invocations k = some inv →
      ∀ i, Audited config inv.messages inv.log i :=
    fun k inv hk i => batchRun_audited (reachable_sound h hk).run i
  refine ⟨haudited, fun id hgone => ?_⟩
  obtain ⟨k, inv, hk, i, hid, conn, hm⟩ := reachable_acked h hgone
  refine ⟨k, inv, hk, i, hid, ?_⟩
  have hrecord := haudited k inv hk i
  obtain ⟨before, after, hlog⟩ := List.append_of_mem hm
  obtain ⟨hsame, hcase⟩ := hrecord.acked before conn after hlog
  have hpart : ∀ e, e ∈ messageHistory before i → e ∈ messageHistory inv.log i := by
    intro e he
    rw [hlog, messageHistory_append]
    exact List.mem_append_left _ he
  rcases hcase with ⟨⟨v, hv⟩, hnil⟩ | ⟨e, hline, -, hset⟩
  · exact .inl ⟨⟨v, hpart _ hv⟩, hsame.trans hnil⟩
  · have hwhole := hsame.trans hline
    rcases hrecord.reports with hnil | ⟨e', hline', hfail⟩
    · rw [hwhole] at hnil
      cases hnil
    · rw [hwhole] at hline'
      obtain ⟨-, rfl⟩ : recoveryText e = recoveryText e' ∧ e = e' := by simpa using hline'
      exact .inr ⟨e, hwhole, hfail, hset⟩

end Audit

set_option maxRecDepth 4000 in
/-- A batch with a message that is acked and one that is retried after its line. -/
theorem errorLog_complete_finished :
    ∃ inv, finishedWorld.invocations 0 = some inv ∧
      (List.finRange inv.messages.length).map (calls inv.log) = [[.ack], [.retry], [], []] ∧
      (List.finRange inv.messages.length).map (errorLog inv.log) =
        [[], [("Message processing failed",
          .handler (.processing ⟨"busy", "m2", "timeout", true⟩))], [], []] ∧
      ∀ i, Audited echoConfig inv.messages inv.log i :=
  ⟨_, rfl, rfl, rfl, (errorLog_complete finishedWorld_reachable).1 0 _ rfl⟩

end EffectWorker.Queue
