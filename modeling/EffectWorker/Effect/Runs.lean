import Mathlib.Data.List.Induction

/-! Runs of labelled steps, with their events, oldest first. Every system of
this development moves by a relation between states labelled with events; what
is true of runs whatever the steps are is stated here once. -/

namespace EffectWorker.Effect

section Runs

variable {σ ε : Type}

inductive Runs (step : σ → ε → σ → Prop) (start : σ) : List ε → σ → Prop
  | nil : Runs step start [] start
  | snoc {log s e s'} : Runs step start log s → step s e s' → Runs step start (log ++ [e]) s'

/-- An event of a log that has grown by one is the new one, or was there before. -/
theorem snoc_eq_append_cons {log before after : List ε} {x e : ε}
    (h : log ++ [x] = before ++ e :: after) : (log = before ∧ x = e ∧ after = []) ∨
      ∃ after', after = after' ++ [x] ∧ log = before ++ e :: after' := by
  rcases List.eq_nil_or_concat after with rfl | ⟨after', last, rfl⟩
  · obtain ⟨hlog, he⟩ := List.append_inj' h rfl
    exact .inl ⟨hlog, List.singleton_inj.mp he, rfl⟩
  · rw [List.concat_eq_append, ← List.cons_append, ← List.append_assoc] at h
    obtain ⟨hlog, he⟩ := List.append_inj' h rfl
    exact .inr ⟨after', by rw [List.concat_eq_append, List.singleton_inj.mp he], hlog⟩

variable {step : σ → ε → σ → Prop} {start s s' : σ} {log log' before after : List ε} {e : ε}

namespace Runs

theorem single (hs : step start e s) : Runs step start [e] s := .snoc .nil hs

theorem trans (h : Runs step start log s) (h' : Runs step s log' s') :
    Runs step start (log ++ log') s' := by
  induction h' with
  | nil => rwa [List.append_nil]
  | snoc _ hs ih =>
    rw [← List.append_assoc]
    exact .snoc ih hs

theorem nil_inv (h : Runs step start [] s) : s = start := by
  generalize hlog : [] = log at h
  cases h with
  | nil => rfl
  | snoc => simp at hlog

theorem snoc_inv (h : Runs step start (log ++ [e]) s') :
    ∃ s, Runs step start log s ∧ step s e s' := by
  generalize hlog : log ++ [e] = log' at h
  cases h with
  | nil => simp at hlog
  | snoc hr hs =>
    obtain ⟨rfl, he⟩ := List.append_inj' hlog rfl
    cases he
    exact ⟨_, hr, hs⟩

/-- A run goes through the states its prefixes lead to. -/
theorem append_inv (h : Runs step start (before ++ after) s) :
    ∃ s₁, Runs step start before s₁ ∧ Runs step s₁ after s := by
  induction after using List.reverseRecOn generalizing s with
  | nil => exact ⟨s, by simpa using h, .nil⟩
  | append_singleton after e ih =>
    rw [← List.append_assoc] at h
    obtain ⟨s', hr, hs⟩ := h.snoc_inv
    obtain ⟨s₁, hbefore, hafter⟩ := ih hr
    exact ⟨s₁, hbefore, .snoc hafter hs⟩

/-- Every event of a run is a step from the state its predecessors lead to. -/
theorem split (h : Runs step start (before ++ e :: after) s) :
    ∃ s₁ s₂, Runs step start before s₁ ∧ step s₁ e s₂ ∧ Runs step s₂ after s := by
  rw [List.append_cons] at h
  obtain ⟨s₂, h₂, hafter⟩ := h.append_inv
  obtain ⟨s₁, hbefore, hs⟩ := h₂.snoc_inv
  exact ⟨s₁, s₂, hbefore, hs, hafter⟩

/-- What holds at the start and is kept by every step holds at the end. -/
theorem invariant {I : σ → Prop} (h : Runs step start log s) (hstart : I start)
    (hstep : ∀ s e s', I s → step s e s' → I s') : I s := by
  induction h with
  | nil => exact hstart
  | snoc _ hs ih => exact hstep _ _ _ ih hs

/-- A state moves along every preorder that its steps do. -/
theorem move {R : σ → σ → Prop} (h : Runs step start log s) (hrefl : ∀ s, R s s)
    (htrans : ∀ s₁ s₂ s₃, R s₁ s₂ → R s₂ s₃ → R s₁ s₃) (hstep : ∀ s e s', step s e s' → R s s') :
    R start s := by
  induction h with
  | nil => exact hrefl _
  | snoc _ hs ih => exact htrans _ _ _ ih (hstep _ _ _ hs)

/-- When an event leads a state to one place only, a log leads a run to one. -/
theorem unique (hdet : ∀ s e s₁ s₂, step s e s₁ → step s e s₂ → s₁ = s₂)
    (h : Runs step start log s) (h' : Runs step start log s') : s = s' := by
  induction h generalizing s' with
  | nil => exact h'.nil_inv.symm
  | snoc _ hs ih =>
    obtain ⟨s₁, hr, hs'⟩ := h'.snoc_inv
    obtain rfl := ih hr
    exact hdet _ _ _ _ hs hs'

theorem mono {step' : σ → ε → σ → Prop} (hstep : ∀ s e s', step s e s' → step' s e s')
    (h : Runs step start log s) : Runs step' start log s := by
  induction h with
  | nil => exact .nil
  | snoc _ hs ih => exact .snoc ih (hstep _ _ _ hs)

/-- A run from a state without steps stays there. -/
theorem eq_of_stuck (h : Runs step start log s) (hstuck : ∀ e s', ¬ step start e s') :
    log = [] ∧ s = start := by
  induction h with
  | nil => exact ⟨rfl, rfl⟩
  | snoc _ hs ih =>
    obtain ⟨-, rfl⟩ := ih
    exact absurd hs (hstuck _ _)

end Runs

end Runs

end EffectWorker.Effect
