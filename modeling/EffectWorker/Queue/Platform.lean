import EffectWorker.Queue.Batch

/-! The queue and all invocations of the consumer, at once. Deliveries overlap
freely, a delivered message may be handed out again while its first delivery is
still running, and an invocation may be killed at any point. The platform takes
a message out of the queue for an `ack()`, and for a fulfilled promise that
left it without a call. -/

namespace EffectWorker.Queue

open Effect

/-- Where a message is; `delivered k` means with invocation `k`. -/
inductive Location
  | absent
  | queued
  | delivered (k : Nat)
  | gone
  deriving DecidableEq, Repr

structure Invocation (U T : Type) where
  messages : List (Message U)
  env : Env
  log : List (BatchEvent U T messages.length)
  state : BatchState U T messages.length
  /-- The promise has been seen to settle, or the isolate was killed. -/
  isOver : Bool

structure World (U T : Type) where
  location : String → Location
  invocations : Nat → Option (Invocation U T)
  nextConnection : Connection

section Platform

variable {U T : Type}

def World.empty : World U T := ⟨fun _ => .absent, fun _ => none, 0⟩

/-- `m` belongs to the batch and neither `ack()` nor `retry()` was called on it. -/
def Invocation.unsettled (inv : Invocation U T) (id : String) : Prop :=
  ∃ i : Fin inv.messages.length, (inv.messages.get i).id = id ∧ calls inv.log i = []

instance decidableUnsettled (inv : Invocation U T) (id : String) :
    Decidable (inv.unsettled id) :=
  Fintype.decidableExistsFintype

/-- What an event of invocation `k` does to the queue. -/
def Invocation.react (inv : Invocation U T) (k : Nat) (location : String → Location) :
    BatchEvent U T inv.messages.length → String → Location
  | .fiber _ i (.answers .ack _) => Function.update location (inv.messages.get i).id .gone
  | .fiber _ i (.answers .retry _) =>
    if location (inv.messages.get i).id = .delivered k then
      Function.update location (inv.messages.get i).id .queued
    else location
  | _ => location

def Invocation.implicitAck (inv : Invocation U T) (location : String → Location) :
    String → Location :=
  fun id => if inv.unsettled id then .gone else location id

def Invocation.putBack (inv : Invocation U T) (k : Nat) (location : String → Location) :
    String → Location :=
  fun id => if location id = .delivered k ∧ inv.unsettled id then .queued else location id

def Invocation.advance (inv : Invocation U T) (e : BatchEvent U T inv.messages.length)
    (state : BatchState U T inv.messages.length) : Invocation U T :=
  { inv with log := inv.log ++ [e], state := state }

def Invocation.finish (inv : Invocation U T) : Invocation U T := { inv with isOver := true }

def Invocation.start (messages : List (Message U)) (env : Env) : Invocation U T :=
  ⟨messages, env, [], initial _, false⟩

def connectionsAfter {n : Nat} (next : Connection) : BatchEvent U T n → Connection
  | .connected _ => next + 1
  | _ => next

variable [Throwable (ProcessError U) U]

/-- `body id` is the body the message was sent with. A new connection gets the
next number; otherwise each invocation steps on its own. -/
inductive World.Step (config : QueueHandlerConfig U T) (body : String → U) :
    World U T → World U T → Prop
  | send (w : World U T) (id) : w.location id = .absent →
      Step config body w { w with location := Function.update w.location id .queued }
  | deliver (w : World U T) (k) (ids : List String) (env) : w.invocations k = none →
      ids.Nodup → (∀ id ∈ ids, w.location id = .queued) →
      Step config body w { w with
        location := fun id => if id ∈ ids then .delivered k else w.location id
        invocations := Function.update w.invocations k
          (some (.start (ids.map fun id => ⟨id, body id⟩) env)) }
  | run (w : World U T) (k inv e state) : w.invocations k = some inv → inv.isOver = false →
      BatchStep config inv.messages inv.env (fun _ _ => True) inv.state e state →
      (∀ conn, e = .connected conn → conn = w.nextConnection) →
      Step config body w {
        location := inv.react k w.location e
        invocations := Function.update w.invocations k (some (inv.advance e state))
        nextConnection := connectionsAfter w.nextConnection e }
  | fulfilled (w : World U T) (k inv) : w.invocations k = some inv → inv.isOver = false →
      inv.state.phase = .settled (.success ()) →
      Step config body w { w with
        location := inv.implicitAck w.location
        invocations := Function.update w.invocations k (some inv.finish) }
  | rejected (w : World U T) (k inv cause) : w.invocations k = some inv → inv.isOver = false →
      inv.state.phase = .settled (.failure cause) →
      Step config body w { w with
        location := inv.putBack k w.location
        invocations := Function.update w.invocations k (some inv.finish) }
  | killed (w : World U T) (k inv) : w.invocations k = some inv → inv.isOver = false →
      Step config body w { w with
        location := inv.putBack k w.location
        invocations := Function.update w.invocations k (some inv.finish) }
  | redeliverable (w : World U T) (id k) : w.location id = .delivered k →
      Step config body w { w with location := Function.update w.location id .queued }

inductive World.Reachable (config : QueueHandlerConfig U T) (body : String → U) :
    World U T → Prop
  | empty : Reachable config body .empty
  | step {w w'} : Reachable config body w → World.Step config body w w' →
      Reachable config body w'

abbrev World.Steps (config : QueueHandlerConfig U T) (body : String → U) :
    World U T → World U T → Prop :=
  Relation.ReflTransGen (World.Step config body)

theorem steps_reachable {config : QueueHandlerConfig U T} {body : String → U} {w w' : World U T}
    (h : World.Reachable config body w) (hs : World.Steps config body w w') :
    World.Reachable config body w' := by
  induction hs with
  | refl => exact h
  | tail _ hs ih => exact ih.step hs

/-! ## What a step does to an invocation -/

/-- The life of one invocation: it appears, takes steps of its own, and is over. -/
inductive Invocation.Next (config : QueueHandlerConfig U T) (next : Connection) :
    Invocation U T → Invocation U T → Prop
  | same (inv) : Next config next inv inv
  | finish (inv) : inv.isOver = false → Next config next inv inv.finish
  | advance (inv e state) : inv.isOver = false →
      BatchStep config inv.messages inv.env (fun _ _ => True) inv.state e state →
      (∀ conn, e = .connected conn → conn = next) →
      Next config next inv (inv.advance e state)

theorem step_at {config : QueueHandlerConfig U T} {body : String → U} {w w' : World U T}
    (hs : World.Step config body w w') (k : Nat) :
    w'.invocations k = w.invocations k ∨
    (∃ inv inv', w.invocations k = some inv ∧ w'.invocations k = some inv' ∧
      inv.Next config w.nextConnection inv') ∨
    w.invocations k = none ∧ ∃ (ids : List String) (env : Env), ids.Nodup ∧
      w'.invocations k = some (.start (ids.map fun id => ⟨id, body id⟩) env) := by
  have update : ∀ {k₀ inv inv'}, w.invocations k₀ = some inv →
      Invocation.Next config w.nextConnection inv inv' →
      Function.update w.invocations k₀ (some inv') k = w.invocations k ∨
      ∃ inv inv'', w.invocations k = some inv ∧
        Function.update w.invocations k₀ (some inv') k = some inv'' ∧
        inv.Next config w.nextConnection inv'' := by
    intro k₀ inv inv' hk hn
    by_cases hkk : k = k₀
    · subst hkk
      exact .inr ⟨inv, inv', hk, Function.update_self .., hn⟩
    · exact .inl (Function.update_of_ne hkk ..)
  rw [← or_assoc]
  cases hs with
  | send id _ => exact .inl (.inl rfl)
  | redeliverable id k₀ _ => exact .inl (.inl rfl)
  | deliver k₀ ids env hk hnodup _ =>
    by_cases hkk : k = k₀
    · subst hkk
      exact .inr ⟨hk, ids, env, hnodup, Function.update_self ..⟩
    · exact .inl (.inl (Function.update_of_ne hkk ..))
  | run k₀ inv e state hk hover hstep hfresh =>
    exact .inl (update hk (.advance inv e state hover hstep hfresh))
  | fulfilled k₀ inv hk hover _ => exact .inl (update hk (.finish inv hover))
  | rejected k₀ inv _ hk hover _ => exact .inl (update hk (.finish inv hover))
  | killed k₀ inv hk hover => exact .inl (update hk (.finish inv hover))

theorem step_invocations {config : QueueHandlerConfig U T} {body : String → U} {w w' : World U T}
    (hs : World.Step config body w w') {k : Nat} {inv' : Invocation U T}
    (h : w'.invocations k = some inv') :
    (∃ inv, w.invocations k = some inv ∧ inv.Next config w.nextConnection inv') ∨
      ∃ (ids : List String) (env : Env), ids.Nodup ∧
        inv' = .start (ids.map fun id => ⟨id, body id⟩) env := by
  rcases step_at hs k with hsame | ⟨inv, inv₁, hk, hk', hn⟩ | ⟨-, ids, env, hnodup, hk'⟩
  · exact .inl ⟨inv', by rw [← hsame, h], .same _⟩
  · rw [h] at hk'
    cases hk'
    exact .inl ⟨inv, hk, hn⟩
  · rw [h] at hk'
    cases hk'
    exact .inr ⟨ids, env, hnodup, rfl⟩

/-- No invocation ever disappears. -/
theorem step_persists {config : QueueHandlerConfig U T} {body : String → U} {w w' : World U T}
    (hs : World.Step config body w w') {k : Nat} {inv : Invocation U T}
    (h : w.invocations k = some inv) :
    ∃ inv', w'.invocations k = some inv' ∧ inv.Next config w.nextConnection inv' := by
  rcases step_at hs k with hsame | ⟨inv₁, inv', hk, hk', hn⟩ | ⟨hk, -⟩
  · exact ⟨inv, by rw [hsame, h], .same _⟩
  · rw [h] at hk
    cases hk
    exact ⟨inv', hk', hn⟩
  · rw [h] at hk
    cases hk

/-- An invocation whose log is a run of its batch, with distinct messages. -/
structure Invocation.Sound (config : QueueHandlerConfig U T) (inv : Invocation U T) : Prop where
  run : BatchRun config inv.messages inv.env (fun _ _ => True) inv.log inv.state
  distinct : (inv.messages.map Message.id).Nodup

theorem next_sound {config : QueueHandlerConfig U T} {next : Connection}
    {inv inv' : Invocation U T} (h : inv.Sound config) (hn : inv.Next config next inv') :
    inv'.Sound config := by
  cases hn with
  | same => exact h
  | finish _ => exact ⟨h.run, h.distinct⟩
  | advance e state _ hstep _ => exact ⟨h.run.snoc hstep, h.distinct⟩

theorem reachable_sound {config : QueueHandlerConfig U T} {body : String → U} {w : World U T}
    (h : World.Reachable config body w) {k : Nat} {inv : Invocation U T}
    (hk : w.invocations k = some inv) : inv.Sound config := by
  induction h generalizing inv with
  | empty => simp [World.empty] at hk
  | step _ hs ih =>
    rcases step_invocations hs hk with ⟨inv₀, hk₀, hn⟩ | ⟨ids, env, hnodup, rfl⟩
    · exact next_sound (ih hk₀) hn
    · refine ⟨.nil, ?_⟩
      simpa [Invocation.start, Function.comp_def] using hnodup

end Platform

/-! ## A short run -/

/-- A schema that decodes every text to itself, and four messages at a time. -/
def echoConfig : QueueHandlerConfig String String where
  schema body := .success body
  concurrency := some 4

def World.sent (w : World String String) (id : String) : World String String :=
  { w with location := Function.update w.location id .queued }

def sentWorld : World String String := ["m1", "m2", "m3", "m4"].foldl World.sent .empty

/-- The messages of `sentWorld`, with an invocation that has just been started. -/
def deliveredWorld : World String String :=
  { sentWorld with
    location := fun id =>
      if id ∈ ["m1", "m2", "m3", "m4"] then .delivered 0 else sentWorld.location id
    invocations := Function.update sentWorld.invocations 0
      (some (.start (["m1", "m2", "m3", "m4"].map fun id => ⟨id, "payload"⟩)
        localEnv)) }

theorem sentWorld_reachable : World.Reachable echoConfig (fun _ => "payload") sentWorld :=
  .step (.step (.step (.step .empty (.send .empty "m1" rfl)) (.send _ "m2" (by decide)))
    (.send _ "m3" (by decide))) (.send _ "m4" (by decide))

theorem deliveredWorld_step :
    World.Step echoConfig (fun _ => "payload") sentWorld deliveredWorld :=
  .deliver sentWorld 0 ["m1", "m2", "m3", "m4"] localEnv rfl (by decide)
    (by decide)

end EffectWorker.Queue
