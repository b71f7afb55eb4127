import Mathlib.Data.List.Nodup
import EffectWorker.Effect.Shared

/-! Linearization. When every program performs at most one operation, a call
takes effect at once: at its operation, or at its start if it has none. In that
order the calls of a run might as well have been made one after the other, and
a call that was started after another had returned comes after it. -/

namespace EffectWorker.Effect

/-- A call that has taken effect, with the result it returns. -/
structure Entry (Q E U A : Type) where
  call : Nat
  request : Q
  result : Exit E U A

section Sequences

variable {σ τ Q E U A : Type}

/-- Calls one after the other; `effect e s s'` says how one moves the state. -/
inductive Sequential (effect : Entry Q E U A → σ → σ → Prop) (s : σ) :
    List (Entry Q E U A) → σ → Prop
  | nil : Sequential effect s [] s
  | snoc {order s₁ e s'} : Sequential effect s order s₁ → effect e s₁ s' →
      Sequential effect s (order ++ [e]) s'

/-- The same calls on an abstraction of the state. -/
theorem Sequential.refines {effect : Entry Q E U A → σ → σ → Prop}
    {effect' : Entry Q E U A → τ → τ → Prop} {abstract : σ → τ} {s s' : σ}
    {order : List (Entry Q E U A)} (h : Sequential effect s order s')
    (hstep : ∀ e ∈ order, ∀ s s', effect e s s' → effect' e (abstract s) (abstract s')) :
    Sequential effect' (abstract s) order (abstract s') := by
  induction h with
  | nil => exact .nil
  | snoc _ he ih =>
    have hbefore := ih fun e he => hstep e (List.mem_append_left _ he)
    exact .snoc hbefore (hstep _ (List.mem_append_right _ (List.mem_singleton_self _)) _ _ he)

end Sequences

section Services

variable {S : Sig} {σ τ Q E U A : Type}

/-- Call `k` had returned when call `k'` was started. -/
def Precedes (log : List (CallEvent S Q E U A)) (k k' : Nat) : Prop :=
  ∃ before after x q, log = before ++ .returned k x :: after ∧ .started k' q ∈ after

/-- An order of calls that explains a run from `s` to `s'`: the calls that have
returned, with their results, and some of those that are still running. -/
structure Linearizes (effect : Entry Q E U A → σ → σ → Prop) (log : List (CallEvent S Q E U A))
    (s : σ) (order : List (Entry Q E U A)) (s' : σ) : Prop where
  sequential : Sequential effect s order s'
  once : (order.map Entry.call).Nodup
  started : ∀ e ∈ order, .started e.call e.request ∈ log
  returned : ∀ k x, .returned k x ∈ log → ∃ q, ⟨k, q, x⟩ ∈ order
  realTime : ∀ e ∈ order, ∀ e' ∈ order, Precedes log e.call e'.call → [e, e'].Sublist order

theorem Linearizes.refines {effect : Entry Q E U A → σ → σ → Prop}
    {effect' : Entry Q E U A → τ → τ → Prop} {abstract : σ → τ}
    {log : List (CallEvent S Q E U A)} {s s' : σ} {order : List (Entry Q E U A)}
    (h : Linearizes effect log s order s')
    (hstep : ∀ e ∈ order, ∀ s s', effect e s s' → effect' e (abstract s) (abstract s')) :
    Linearizes effect' log (abstract s) order (abstract s') :=
  ⟨h.sequential.refines hstep, h.once, h.started, h.returned, h.realTime⟩

/-- A call without an operation changes nothing; the others are answered from
the state as it is, and what they return is decided by the answer. -/
inductive Service.TakesEffect (V : Service S σ Q E U A) (log : List (CallEvent S Q E U A)) :
    Entry Q E U A → σ → σ → Prop
  | pure {k q x s} : V.program q = .exit x → TakesEffect V log ⟨k, q, x⟩ s s
  | operation {k q o cont r x s s'} : V.program q = .perform o cont → cont r = .exit x →
      .answered k o r ∈ log → V.answers s o r s' → TakesEffect V log ⟨k, q, x⟩ s s'

variable {V : Service S σ Q E U A} {s : σ} {log : List (CallEvent S Q E U A)}
  {w : Shared S σ Q E U A} {order : List (Entry Q E U A)}

theorem takesEffect_append {e : Entry Q E U A} {s s' : σ} (h : V.TakesEffect log e s s')
    (last : CallEvent S Q E U A) : V.TakesEffect (log ++ [last]) e s s' := by
  cases h with
  | pure hprogram => exact .pure hprogram
  | operation hprogram hexit hanswered hans =>
    exact .operation hprogram hexit (List.mem_append_left _ hanswered) hans

theorem sequential_append {s s' : σ} (h : Sequential (V.TakesEffect log) s order s')
    (last : CallEvent S Q E U A) :
    Sequential (V.TakesEffect (log ++ [last])) s order s' :=
  Sequential.refines h (fun _ _ _ _ he => takesEffect_append he last)

/-! ## Precedence -/

theorem precedes_returned {k k' : Nat} (h : Precedes log k k') : ∃ x, .returned k x ∈ log := by
  obtain ⟨before, after, x, q, rfl, -⟩ := h
  exact ⟨x, by simp⟩

/-- One more event adds to the order of the calls only by starting a call. -/
theorem precedes_snoc {k k' : Nat} {e : CallEvent S Q E U A} (h : Precedes (log ++ [e]) k k') :
    Precedes log k k' ∨ ∃ q, e = .started k' q := by
  obtain ⟨before, after, x, q, hlog, hq⟩ := h
  rcases List.eq_nil_or_concat after with rfl | ⟨after', last, rfl⟩
  · cases hq
  rw [List.concat_eq_append] at hlog hq
  rw [← List.cons_append, ← List.append_assoc] at hlog
  obtain ⟨rfl, he⟩ := List.append_inj' hlog rfl
  obtain rfl := List.singleton_inj.mp he
  rcases List.mem_append.mp hq with hq | hq
  · exact .inl ⟨before, after', x, q, rfl, hq⟩
  · exact .inr ⟨q, (List.mem_singleton.mp hq).symm⟩

/-! ## Placing the calls -/

/-- A call is in the order once it has taken effect. -/
def Call.Placed (k : Nat) (order : List (Entry Q E U A)) : Call S Q E U A → Prop
  | .unused | .running _ (.perform _ _) => k ∉ order.map Entry.call
  | .running q (.exit x) | .done q x => ⟨k, q, x⟩ ∈ order

theorem placed_append {k : Nat} {c : Call S Q E U A} {e : Entry Q E U A} (he : e.call ≠ k)
    (h : c.Placed k order) : c.Placed k (order ++ [e]) := by
  have hother : k ∉ order.map Entry.call → k ∉ (order ++ [e]).map Entry.call := by
    intro hk hm
    rw [List.map_append, List.mem_append, List.map_singleton, List.mem_singleton] at hm
    rcases hm with hm | hm
    · exact hk hm
    · exact he hm.symm
  cases c with
  | unused => exact hother h
  | done q x => exact List.mem_append_left _ h
  | running q p =>
    cases p with
    | exit x => exact List.mem_append_left _ h
    | perform o cont => exact hother h

/-- The order goes on to explain the run when an event neither returns a call
nor starts one that the order has. -/
theorem Linearizes.log_snoc {s s' : σ} (h : Linearizes (V.TakesEffect log) log s order s')
    {e : CallEvent S Q E U A} (hreturned : ∀ k x, e = .returned k x → ∃ q, ⟨k, q, x⟩ ∈ order)
    (hstarted : ∀ k q, e = .started k q → k ∉ order.map Entry.call) :
    Linearizes (V.TakesEffect (log ++ [e])) (log ++ [e]) s order s' := by
  refine ⟨sequential_append h.sequential e, h.once,
    fun e' he => List.mem_append_left _ (h.started e' he), fun k x hx => ?_,
    fun a ha b hb hab => ?_⟩
  · rcases List.mem_append.mp hx with hx | hx
    · exact h.returned k x hx
    · exact hreturned k x (List.mem_singleton.mp hx).symm
  · rcases precedes_snoc hab with hab | ⟨q, rfl⟩
    · exact h.realTime a ha b hb hab
    · exact absurd (List.mem_map_of_mem hb) (hstarted _ q rfl)

/-- A call that takes effect and has not returned may be put last. -/
theorem Linearizes.place {s s₁ s' : σ} {e : Entry Q E U A}
    (h : Linearizes (V.TakesEffect log) log s order s₁) (heffect : V.TakesEffect log e s₁ s')
    (hfresh : e.call ∉ order.map Entry.call) (hstarted : .started e.call e.request ∈ log)
    (hrunning : ∀ x, .returned e.call x ∉ log) :
    Linearizes (V.TakesEffect log) log s (order ++ [e]) s' := by
  refine ⟨.snoc h.sequential heffect, ?_, fun e' he => ?_, fun k x hx => ?_,
    fun a ha b hb hab => ?_⟩
  · rw [List.map_append, List.map_singleton]
    exact h.once.append (List.nodup_singleton _) (by simpa using hfresh)
  · rcases List.mem_append.mp he with he | he
    · exact h.started e' he
    · rw [List.mem_singleton.mp he]
      exact hstarted
  · obtain ⟨q, hq⟩ := h.returned k x hx
    exact ⟨q, List.mem_append_left _ hq⟩
  · rcases List.mem_append.mp ha with ha | ha
    · rcases List.mem_append.mp hb with hb | hb
      · exact (h.realTime a ha b hb hab).trans (List.sublist_append_left _ _)
      · rw [List.mem_singleton.mp hb]
        exact (List.singleton_sublist.mpr ha).append (List.Sublist.refl _)
    · obtain ⟨x, hx⟩ := precedes_returned hab
      rw [List.mem_singleton.mp ha] at hx
      exact absurd hx (hrunning x)

theorem exit_of_within_zero {p : Eff S E U A} (h : p.Within 0) : ∃ x, p = .exit x := by
  cases h with
  | exit _ x => exact ⟨x, rfl⟩

theorem within_path {p q : Eff S E U A} {as : List (Answered S)} {d : Nat} (h : Eff.Path p as q)
    (hp : p.Within d) : ∃ d', q.Within d' ∧ d' + as.length = d := by
  induction h generalizing d with
  | nil p => exact ⟨d, hp, rfl⟩
  | cons r _ ih =>
    obtain ⟨d₁, rfl, hk⟩ := hp.perform_inv
    obtain ⟨d', hq, hd⟩ := ih (hk r)
    exact ⟨d', hq, by rw [List.length_cons]; omega⟩

/-- A call that is about to perform an operation has performed none, and exits
with its answer. -/
theorem running_perform (hone : ∀ q, (V.program q).Within 1) (h : V.Run s log w) {k : Nat} {q : Q}
    {o : S.Op} {cont : S.Ans o → Eff S E U A} (hcall : w.calls k = .running q (.perform o cont)) :
    V.program q = .perform o cont ∧ ∀ r, ∃ x, cont r = .exit x := by
  have hsound := h.sound k
  rw [hcall] at hsound
  obtain ⟨d, hwithin, hlength⟩ := within_path hsound.2.2 (hone q)
  obtain ⟨d', rfl, hcont⟩ := hwithin.perform_inv
  have htrace : callTrace k log = [] := List.eq_nil_of_length_eq_zero (by omega)
  have hpath := hsound.2.2
  rw [htrace] at hpath
  have hzero : d' = 0 := by omega
  subst hzero
  exact ⟨Eff.path_unique (.nil _) hpath, fun r => exit_of_within_zero (hcont r)⟩

/-- A call moves on, and is put last if it has taken effect. -/
theorem placed_update {calls : Nat → Call S Q E U A} {k : Nat} {c : Call S Q E U A}
    {order' : List (Entry Q E U A)} (h : ∀ j, (calls j).Placed j order) (hc : c.Placed k order')
    (horder : order' = order ∨ ∃ e : Entry Q E U A, e.call = k ∧ order' = order ++ [e]) (j : Nat) :
    (Function.update calls k c j).Placed j order' := by
  by_cases hj : j = k
  · subst hj
    rw [Function.update_self]
    exact hc
  · rw [Function.update_of_ne hj]
    rcases horder with rfl | ⟨e, he, rfl⟩
    · exact h j
    · exact placed_append (fun hej => hj (hej.symm.trans he)) (h j)

/-- A call that has just taken effect with the event `e` is put last. -/
theorem Linearizes.place_snoc {k : Nat} {q : Q} {x : Exit E U A} {s s₁ s' : σ}
    {e : CallEvent S Q E U A} (h : Linearizes (V.TakesEffect log) log s order s₁)
    (hfresh : k ∉ order.map Entry.call) (hold : ∀ k x, e ≠ .returned k x)
    (hstarts : ∀ k' q, e = .started k' q → k' = k) (hstarted : .started k q ∈ log ++ [e])
    (hrunning : ∀ x, .returned k x ∉ log)
    (heffect : V.TakesEffect (log ++ [e]) ⟨k, q, x⟩ s₁ s') :
    Linearizes (V.TakesEffect (log ++ [e])) (log ++ [e]) s (order ++ [⟨k, q, x⟩]) s' := by
  have hlog := h.log_snoc (e := e) (fun k x he => absurd he (hold k x))
    (fun k' q he => hstarts k' q he ▸ hfresh)
  refine hlog.place heffect hfresh hstarted fun x' hx' => ?_
  rcases List.mem_append.mp hx' with hx' | hx'
  · exact hrunning x' hx'
  · exact hold k x' (List.mem_singleton.mp hx').symm

/-- A call that has been started goes through its program. -/
theorem Service.Run.trace (h : V.Run s log w) {k : Nat} {q : Q} (hq : .started k q ∈ log) :
    ∃ p, Eff.Path (V.program q) (callTrace k log) p := by
  have hsound := h.sound k
  cases hc : w.calls k with
  | unused =>
    rw [hc] at hsound
    exact absurd rfl (hsound _ hq)
  | running q' p =>
    rw [hc] at hsound
    obtain rfl := (hsound.1 q).mp hq
    exact ⟨p, hsound.2.2⟩
  | done q' x =>
    rw [hc] at hsound
    obtain rfl := (hsound.1 q).mp hq
    exact ⟨.exit x, hsound.2.2⟩

/-- A call has one request. -/
theorem Service.Run.started_unique (h : V.Run s log w) {k : Nat} {q q' : Q}
    (hq : .started k q ∈ log) (hq' : .started k q' ∈ log) : q = q' := by
  have hsound := h.sound k
  cases hc : w.calls k with
  | unused =>
    rw [hc] at hsound
    exact absurd rfl (hsound _ hq)
  | running q₀ p =>
    rw [hc] at hsound
    exact ((hsound.1 q).mp hq).trans ((hsound.1 q').mp hq').symm
  | done q₀ x =>
    rw [hc] at hsound
    exact ((hsound.1 q).mp hq).trans ((hsound.1 q').mp hq').symm

theorem callTrace_length (hone : ∀ q, (V.program q).Within 1) (h : V.Run s log w) {k : Nat} {q : Q}
    (hq : .started k q ∈ log) : (callTrace k log).length ≤ 1 := by
  obtain ⟨p, hpath⟩ := h.trace hq
  obtain ⟨d, -, hd⟩ := within_path hpath (hone q)
  omega

/-- A call is answered once. -/
theorem answered_once (hone : ∀ q, (V.program q).Within 1) (h : V.Run s log w) {k : Nat} {q : Q}
    (hq : .started k q ∈ log) {o o' : S.Op} {r : S.Ans o} {r' : S.Ans o'}
    (ha : .answered k o r ∈ log) (ha' : .answered k o' r' ∈ log) :
    (⟨o, r⟩ : Answered S) = ⟨o', r'⟩ := by
  have hlength := callTrace_length hone h hq
  have hm := mem_callTrace.mpr ha
  have hm' := mem_callTrace.mpr ha'
  cases htrace : callTrace k log with
  | nil =>
    rw [htrace] at hm
    cases hm
  | cons a as =>
    rw [htrace] at hm hm' hlength
    have has : as = [] := List.eq_nil_of_length_eq_zero (by simpa using hlength)
    subst has
    exact (List.mem_singleton.mp hm).trans (List.mem_singleton.mp hm').symm

/-- The calls of a run in the order in which they took effect. -/
theorem Service.Run.placed (hone : ∀ q, (V.program q).Within 1) (h : V.Run s log w) :
    ∃ order, Linearizes (V.TakesEffect log) log s order w.state ∧
      ∀ k, (w.calls k).Placed k order := by
  induction h with
  | nil =>
    refine ⟨[], ⟨.nil, List.nodup_nil, by simp, by simp, by simp⟩, fun k => ?_⟩
    exact List.not_mem_nil
  | @snoc log w e w' hr hs ih =>
    obtain ⟨order, hlin, hplaced⟩ := ih
    cases hs with
    | started k q hunused =>
      have hfresh : k ∉ order.map Entry.call := by
        have hk := hplaced k
        rwa [hunused] at hk
      have hnone : ∀ x, .returned k x ∉ log := by
        intro x hx
        have hsound := Service.Run.sound hr k
        rw [hunused] at hsound
        exact hsound _ hx rfl
      have hstarts : ∀ k' q', (.started k q : CallEvent S Q E U A) = .started k' q' →
          k' = k := by
        intro k' q' he
        exact (CallEvent.started.inj he).1.symm
      cases hprogram : V.program q with
      | exit x =>
        refine ⟨_, hlin.place_snoc hfresh (by simp) hstarts (by simp) hnone
          (.pure hprogram), placed_update hplaced ?_ (.inr ⟨⟨k, q, x⟩, rfl, rfl⟩)⟩
        exact List.mem_append_right _ (List.mem_singleton_self _)
      | perform o cont =>
        refine ⟨order, hlin.log_snoc (by simp) fun k' q' he => hstarts k' q' he ▸ hfresh,
          placed_update hplaced ?_ (.inl rfl)⟩
        exact hfresh
    | answered k q o cont r s' hcall hans =>
      obtain ⟨hprogram, hcont⟩ := running_perform hone hr hcall
      obtain ⟨x, hx⟩ := hcont r
      have hfresh : k ∉ order.map Entry.call := by
        have hk := hplaced k
        rwa [hcall] at hk
      have hsound := Service.Run.sound hr k
      rw [hcall] at hsound
      have hstarted : .started k q ∈ log := (hsound.1 q).mpr rfl
      refine ⟨_, hlin.place_snoc hfresh (by simp) (by simp) (List.mem_append_left _ hstarted)
        hsound.2.1 (.operation hprogram hx (by simp) hans),
        placed_update hplaced ?_ (.inr ⟨⟨k, q, x⟩, rfl, rfl⟩)⟩
      rw [hx]
      exact List.mem_append_right _ (List.mem_singleton_self _)
    | returned k q x hcall =>
      have hk := hplaced k
      rw [hcall] at hk
      refine ⟨order, hlin.log_snoc (fun k' x' he => ?_) (by simp),
        placed_update hplaced hk (.inl rfl)⟩
      obtain ⟨rfl, rfl⟩ := CallEvent.returned.inj he
      exact ⟨q, hk⟩

end Services

end EffectWorker.Effect
