import EffectWorker.Queue.Platform

/-! Batches played through. A turn says which fiber of a batch goes on and what
its handler ends with; a world computes what the turn leads to, and stays as it
is where the turn cannot be taken. Every turn is a step of the world. -/

namespace EffectWorker.Queue

open Effect

section Turns

variable {U T : Type} {n : Nat}

/-- What happens next in a batch. -/
inductive Turn (U : Type)
  | connect
  | fiber (i : Nat) (x : Exit (HandlerError U) U Unit)
  | interrupt (i : Nat)
  | exit
  | close

/-! ## Fibers and loops -/

/-- The next step of a fiber; a handler it waits for ends with `x`. -/
def fiberTurn (config : QueueHandlerConfig U T) (x : Exit (HandlerError U) U Unit)
    (body : QueueEff U T (ProcessError U) Unit) : Fiber (QueueSig U T) (ProcessError U) U Unit →
      Option (Event (QueueSig U T) (ProcessError U) U Unit ×
        Fiber (QueueSig U T) (ProcessError U) U Unit)
  | .waiting => some (.starts, .ready body)
  | .ready (.perform o k) => some (.begins o, .busy o k)
  | .ready (.exit y) => some (.ends y, .ended y)
  | .busy (.decodeUnknown b) k =>
    some (.answers (.decodeUnknown b) (config.schema b), .ready (k (config.schema b)))
  | .busy (.handler v) k => some (.answers (.handler v) x, .ready (k x))
  | .busy (.logError text e) k => some (.answers (.logError text e) (), .ready (k ()))
  | .busy .ack k => some (.answers .ack (), .ready (k ()))
  | .busy .retry k => some (.answers .retry (), .ready (k ()))
  | .ended _ => none

theorem fiberTurn_step {config : QueueHandlerConfig U T} {x : Exit (HandlerError U) U Unit}
    {body : QueueEff U T (ProcessError U) Unit}
    {f f' : Fiber (QueueSig U T) (ProcessError U) U Unit}
    {e : Event (QueueSig U T) (ProcessError U) U Unit}
    (h : fiberTurn config x body f = some (e, f')) :
    FiberStep (S := QueueSig U T) (allowed config fun _ => True) body f e f' := by
  cases f with
  | waiting =>
    cases h
    exact .starts
  | ended _ => cases h
  | ready p =>
    cases p with
    | exit y =>
      cases h
      exact .ends y
    | perform o k =>
      cases h
      exact .begins o k
  | busy o k =>
    cases o with
    | decodeUnknown b =>
      cases h
      exact .answers (S := QueueSig U T) (.decodeUnknown b) k _ rfl
    | handler v =>
      cases h
      exact .answers (S := QueueSig U T) (.handler v) k x trivial
    | logError text e =>
      cases h
      exact .answers (S := QueueSig U T) (.logError text e) k () trivial
    | ack =>
      cases h
      exact .answers (S := QueueSig U T) .ack k () trivial
    | retry =>
      cases h
      exact .answers (S := QueueSig U T) .retry k () trivial

def failureOf : Fiber (QueueSig U T) (ProcessError U) U Unit → Option (Cause (ProcessError U) U)
  | .ended (.failure c) => some c
  | _ => none

theorem failureOf_eq_some_iff {f : Fiber (QueueSig U T) (ProcessError U) U Unit}
    {c : Cause (ProcessError U) U} : failureOf f = some c ↔ f = .ended (.failure c) := by
  cases f with
  | ended x => cases x <;> simp [failureOf]
  | waiting | ready _ | busy _ _ => simp [failureOf]

instance decidableFailing (fs : Fin n → Fiber (QueueSig U T) (ProcessError U) U Unit) :
    Decidable (Failing fs) :=
  decidable_of_iff (∃ i, (failureOf (fs i)).isSome) <| by
    simp only [Failing, Option.isSome_iff_exists, failureOf_eq_some_iff]

instance decidableGuard (L : Loop (QueueSig U T) (ProcessError U) U Unit n)
    (fs : Fin n → Fiber (QueueSig U T) (ProcessError U) U Unit) (i : Fin n) :
    (e : Event (QueueSig U T) (ProcessError U) U Unit) → Decidable (L.Guard fs i e)
  | .starts =>
    have : Decidable (∀ j < i, fs j ≠ .waiting) :=
      decidable_of_iff (∀ j < i, (fs j).active = true ∨ (fs j).hasEnded = true) <|
        forall₂_congr fun j _ => by cases fs j <;> simp [Fiber.active, Fiber.hasEnded]
    inferInstanceAs (Decidable (¬ Failing fs ∧ (∀ j < i, fs j ≠ .waiting) ∧ inFlight fs < L.slots))
  | .interrupted => inferInstanceAs (Decidable (Failing fs))
  | .begins _ | .works _ | .answers _ _ | .ends _ => .isTrue trivial

/-- The exit the loop comes to, if it can. -/
def loopExit (fs : Fin n → Fiber (QueueSig U T) (ProcessError U) U Unit) :
    Option (Exit (ProcessError U) U Unit) :=
  if ∀ i, (fs i).hasEnded = true ∧ (failureOf (fs i)).isNone then some (.success ())
  else if ∀ i, (fs i).active = false then
    ((List.finRange n).findSome? fun i => failureOf (fs i)).map .failure
  else none

theorem loopExit_exits {fs : Fin n → Fiber (QueueSig U T) (ProcessError U) U Unit}
    {x : Exit (ProcessError U) U Unit} (h : loopExit fs = some x) : Loop.Exits fs x := by
  unfold loopExit at h
  split at h
  · next hall =>
      cases h
      refine .success fun i => ?_
      obtain ⟨hended, hnone⟩ := hall i
      cases hf : fs i with
      | waiting | ready _ | busy _ _ => simp [hf, Fiber.hasEnded] at hended
      | ended x =>
        cases x with
        | success a => exact ⟨a, rfl⟩
        | failure c => simp [hf, failureOf] at hnone
  · split at h
    · next hidle =>
        obtain ⟨c, hc, rfl⟩ := Option.map_eq_some_iff.mp h
        obtain ⟨i, -, hi⟩ := List.exists_of_findSome?_eq_some hc
        exact .failure (failureOf_eq_some_iff.mp hi) hidle
    · cases h

/-! ## Batches and worlds -/

variable [Throwable (ProcessError U) U]

/-- Message `i` has the event `e`, if its turn has come. -/
def BatchState.fiberEvent (config : QueueHandlerConfig U T) (messages : List (Message U))
    (s : BatchState U T messages.length) (conn : Connection) (i : Fin messages.length)
    (next : Event (QueueSig U T) (ProcessError U) U Unit ×
      Fiber (QueueSig U T) (ProcessError U) U Unit) :
    Option (BatchEvent U T messages.length × BatchState U T messages.length) :=
  if (forEachMessage config messages fun _ _ => True).Guard s.fibers i next.1 then
    some (.fiber conn i next.1, ⟨s.phase, Function.update s.fibers i next.2⟩)
  else none

/-- What a turn leads to; a connection that is opened gets the number `next`. -/
def BatchState.turn (config : QueueHandlerConfig U T) (messages : List (Message U)) (env : Env)
    (next : Connection) (s : BatchState U T messages.length) :
    Turn U → Option (BatchEvent U T messages.length × BatchState U T messages.length)
  | .connect =>
    match s.phase with
    | .idle => some (.connecting env.connectionString, ⟨.connecting, s.fibers⟩)
    | .connecting => some (.connected next, ⟨.running next, s.fibers⟩)
    | _ => none
  | .fiber i x =>
    match s.phase with
    | .running conn =>
      if hi : i < messages.length then
        (fiberTurn config x (processWithAckRetry config (messages.get ⟨i, hi⟩))
          (s.fibers ⟨i, hi⟩)).bind (s.fiberEvent config messages conn ⟨i, hi⟩)
      else none
    | _ => none
  | .interrupt i =>
    match s.phase with
    | .running conn =>
      if hi : ∃ hi : i < messages.length, (s.fibers ⟨i, hi⟩).active = true then
        s.fiberEvent config messages conn ⟨i, hi.fst⟩ (.interrupted, .ended interruptedExit)
      else none
    | _ => none
  | .exit =>
    match s.phase with
    | .running conn => (loopExit s.fibers).map fun x => (.exited x, ⟨.closing conn x, s.fibers⟩)
    | _ => none
  | .close =>
    match s.phase with
    | .closing conn x => some (.closed conn, ⟨.settled (x.mapFail .process), s.fibers⟩)
    | _ => none

variable {config : QueueHandlerConfig U T} {messages : List (Message U)} {env : Env}
  {next : Connection}

theorem fiberEvent_step {fs : Fin messages.length → Fiber (QueueSig U T) (ProcessError U) U Unit}
    {conn : Connection} {i : Fin messages.length}
    {e : Event (QueueSig U T) (ProcessError U) U Unit}
    {f' : Fiber (QueueSig U T) (ProcessError U) U Unit} {b : BatchEvent U T messages.length}
    {s' : BatchState U T messages.length}
    (hstep : FiberStep (S := QueueSig U T) (allowed config fun _ => True)
      (processWithAckRetry config (messages.get i)) (fs i) e f')
    (h : BatchState.fiberEvent config messages ⟨.running conn, fs⟩ conn i (e, f') = some (b, s')) :
    BatchStep config messages env (fun _ _ => True) ⟨.running conn, fs⟩ b s' ∧
      ∀ conn', b ≠ .connected conn' := by
  unfold BatchState.fiberEvent at h
  split at h
  · next hguard =>
      cases h
      exact ⟨.fiber fs conn i e _ (.fiber hstep hguard), by simp⟩
  · cases h

theorem turn_step {s s' : BatchState U T messages.length} {t : Turn U}
    {e : BatchEvent U T messages.length} (h : s.turn config messages env next t = some (e, s')) :
    BatchStep config messages env (fun _ _ => True) s e s' ∧
      ∀ conn, e = .connected conn → conn = next := by
  obtain ⟨phase, fs⟩ := s
  cases t with
  | connect =>
    cases phase with
    | idle =>
      cases h
      exact ⟨.connecting fs, by simp⟩
    | connecting =>
      cases h
      exact ⟨.connected fs next, fun conn hc => (BatchEvent.connected.inj hc).symm⟩
    | running _ | closing _ _ | settled _ => cases h
  | fiber i x =>
    cases phase with
    | running conn =>
      simp only [BatchState.turn] at h
      split at h
      · obtain ⟨⟨e', f'⟩, hturn, hevent⟩ := Option.bind_eq_some_iff.mp h
        obtain ⟨hstep, hne⟩ := fiberEvent_step (fiberTurn_step hturn) hevent
        exact ⟨hstep, fun conn' hc => absurd hc (hne conn')⟩
      · cases h
    | idle | connecting | closing _ _ | settled _ => cases h
  | interrupt i =>
    cases phase with
    | running conn =>
      simp only [BatchState.turn] at h
      split at h
      · next hactive =>
          obtain ⟨hstep, hne⟩ := fiberEvent_step (.interrupted _ hactive.snd) h
          exact ⟨hstep, fun conn' hc => absurd hc (hne conn')⟩
      · cases h
    | idle | connecting | closing _ _ | settled _ => cases h
  | exit =>
    cases phase with
    | running conn =>
      obtain ⟨x, hx, he⟩ := Option.map_eq_some_iff.mp h
      cases he
      exact ⟨.exited fs conn x (loopExit_exits hx), by simp⟩
    | idle | connecting | closing _ _ | settled _ => cases h
  | close =>
    cases phase with
    | closing conn x =>
      cases h
      exact ⟨.closed fs conn x, by simp⟩
    | idle | connecting | running _ | settled _ => cases h

/-- The invocation `k` takes its turn. -/
def World.turn (config : QueueHandlerConfig U T) (k : Nat) (w : World U T) (t : Turn U) :
    World U T :=
  match w.invocations k with
  | none => w
  | some inv =>
    if inv.isOver then w else
      match inv.state.turn config inv.messages inv.env w.nextConnection t with
      | none => w
      | some (e, state) => {
          location := inv.react k w.location e
          invocations := Function.update w.invocations k (some (inv.advance e state))
          nextConnection := connectionsAfter w.nextConnection e }

/-- The platform sees what the promise of invocation `k` has settled with. -/
def World.settle (k : Nat) (w : World U T) : World U T :=
  match w.invocations k with
  | none => w
  | some inv =>
    if inv.isOver then w else
      match inv.state.phase with
      | .settled (.success _) => { w with
          location := inv.implicitAck w.location
          invocations := Function.update w.invocations k (some inv.finish) }
      | .settled (.failure _) => { w with
          location := inv.putBack k w.location
          invocations := Function.update w.invocations k (some inv.finish) }
      | _ => w

variable {body : String → U} {w : World U T}

theorem turn_steps (k : Nat) (t : Turn U) : World.Steps config body w (w.turn config k t) := by
  unfold World.turn
  split
  · exact .refl
  · next inv hk =>
      split
      · exact .refl
      · next hover =>
          split
          · exact .refl
          · next e state hturn =>
              obtain ⟨hstep, hfresh⟩ := turn_step hturn
              exact .single (.run w k inv e state hk (by simpa using hover) hstep hfresh)

theorem turns_steps (k : Nat) (ts : List (Turn U)) :
    World.Steps config body w (ts.foldl (World.turn config k) w) := by
  induction ts generalizing w with
  | nil => exact .refl
  | cons t ts ih => exact (turn_steps k t).trans ih

theorem settle_steps (k : Nat) : World.Steps config body w (w.settle k) := by
  unfold World.settle
  split
  · exact .refl
  · next inv hk =>
      split
      · exact .refl
      · next hover =>
          have hlive : inv.isOver = false := by simpa using hover
          split
          · next hp => exact .single (.fulfilled w k inv hk hlive hp)
          · next cause hp => exact .single (.rejected w k inv cause hk hlive hp)
          · exact .refl

end Turns

/-! ## A batch with every kind of end -/

/-- The turns of one message: its start, its decoding and its handler, which
ends with `x`, and `rest` more. -/
def processed (i : Nat) (x : Exit (HandlerError String) String Unit) (rest : Nat) :
    List (Turn String) := List.replicate (5 + rest) (.fiber i x)

/-- The first message succeeds, the second fails and asks for a retry, the
third dies while the fourth is in its handler, which is interrupted. -/
def finishedTurns : List (Turn String) :=
  [.connect, .connect] ++ processed 0 (.success ()) 3 ++
    processed 1 (.failure (.fail (.processing ⟨"busy", "m2", "timeout", true⟩))) 5 ++
    List.replicate 4 (.fiber 2 (.success ())) ++ List.replicate 4 (.fiber 3 (.success ())) ++
    List.replicate 2 (.fiber 2 (.failure (.die "handler died"))) ++
    [.interrupt 3, .exit, .close]

/-- The batch of `deliveredWorld` when its promise has rejected. -/
def finishedWorld : World String String :=
  (finishedTurns.foldl (World.turn echoConfig 0) deliveredWorld).settle 0

theorem finishedWorld_steps :
    World.Steps echoConfig (fun _ => "payload") sentWorld finishedWorld :=
  .head deliveredWorld_step ((turns_steps 0 finishedTurns).trans (settle_steps 0))

theorem finishedWorld_reachable :
    World.Reachable echoConfig (fun _ => "payload") finishedWorld :=
  steps_reachable sentWorld_reachable finishedWorld_steps

end EffectWorker.Queue
