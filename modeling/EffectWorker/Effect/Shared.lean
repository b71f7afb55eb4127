import Mathlib.Logic.Function.Basic
import Mathlib.Data.List.Basic
import EffectWorker.Effect.Program
import EffectWorker.Effect.Runs

/-! Calls that share a state. Any number of them run at once; each runs the
program of its request, and every operation is answered atomically from the
shared state. What one call does is a path of its own program in every
interleaving, and what each step does to the state holds along the run. -/

namespace EffectWorker.Effect

/-- `answers s o r s'`: in state `s` the operation `o` may be answered by `r`,
which leaves the state `s'`. -/
structure Service (S : Sig) (σ Q E U A : Type) where
  program : Q → Eff S E U A
  answers : σ → (o : S.Op) → S.Ans o → σ → Prop

inductive Call (S : Sig) (Q E U A : Type)
  | unused
  | running (request : Q) (rest : Eff S E U A)
  | done (request : Q) (result : Exit E U A)

structure Shared (S : Sig) (σ Q E U A : Type) where
  state : σ
  calls : Nat → Call S Q E U A

inductive CallEvent (S : Sig) (Q E U A : Type)
  | started (k : Nat) (request : Q)
  | answered (k : Nat) (o : S.Op) (r : S.Ans o)
  | returned (k : Nat) (result : Exit E U A)

section Services

variable {S : Sig} {σ Q E U A : Type}

def CallEvent.call : CallEvent S Q E U A → Nat
  | .started k _ | .answered k _ _ | .returned k _ => k

inductive Service.Step (V : Service S σ Q E U A) :
    Shared S σ Q E U A → CallEvent S Q E U A → Shared S σ Q E U A → Prop
  | started (w : Shared S σ Q E U A) (k q) : w.calls k = .unused →
      Step V w (.started k q)
        { w with calls := Function.update w.calls k (.running q (V.program q)) }
  | answered (w : Shared S σ Q E U A) (k q o) (cont : S.Ans o → Eff S E U A) (r s') :
      w.calls k = .running q (.perform o cont) → V.answers w.state o r s' →
      Step V w (.answered k o r)
        { state := s', calls := Function.update w.calls k (.running q (cont r)) }
  | returned (w : Shared S σ Q E U A) (k q x) : w.calls k = .running q (.exit x) →
      Step V w (.returned k x) { w with calls := Function.update w.calls k (.done q x) }

def Shared.start (s : σ) : Shared S σ Q E U A := ⟨s, fun _ => .unused⟩

/-- A run from the state `s`. -/
abbrev Service.Run (V : Service S σ Q E U A) (s : σ) :
    List (CallEvent S Q E U A) → Shared S σ Q E U A → Prop :=
  Runs V.Step (.start s)

variable {V : Service S σ Q E U A} {s : σ} {log before after : List (CallEvent S Q E U A)}
  {w : Shared S σ Q E U A}

/-- A preorder that every answer respects; the state only moves along it. -/
structure Service.Respects (V : Service S σ Q E U A) (R : σ → σ → Prop) : Prop where
  refl : ∀ s, R s s
  trans : ∀ s₁ s₂ s₃, R s₁ s₂ → R s₂ s₃ → R s₁ s₃
  answers : ∀ s o r s', V.answers s o r s' → R s s'

theorem Service.Respects.step {R : σ → σ → Prop} (hR : V.Respects R) {w w' : Shared S σ Q E U A}
    {e : CallEvent S Q E U A} (h : V.Step w e w') : R w.state w'.state := by
  cases h with
  | started | returned => exact hR.refl _
  | answered k q o cont r s' _ hans => exact hR.answers _ _ _ _ hans

theorem Service.Respects.runs {R : σ → σ → Prop} (hR : V.Respects R) {w₁ w₂ : Shared S σ Q E U A}
    (h : Runs V.Step w₁ log w₂) : R w₁.state w₂.state :=
  h.move (R := fun w w' => R w.state w'.state) (fun _ => hR.refl _)
    (fun _ _ _ => hR.trans _ _ _) fun _ _ _ => hR.step

/-- The operations of one call that have been answered. -/
def callTrace (k : Nat) : List (CallEvent S Q E U A) → List (Answered S) :=
  List.filterMap fun e => match e with
    | .answered k' o r => if k' = k then some ⟨o, r⟩ else none
    | _ => none

@[simp] theorem callTrace_append (k : Nat) (log log' : List (CallEvent S Q E U A)) :
    callTrace k (log ++ log') = callTrace k log ++ callTrace k log' := List.filterMap_append

theorem mem_callTrace {k : Nat} {o : S.Op} {r : S.Ans o} :
    (⟨o, r⟩ : Answered S) ∈ callTrace k log ↔ .answered k o r ∈ log := by
  simp only [callTrace, List.mem_filterMap]
  constructor
  · rintro ⟨e, he, hr⟩
    cases e with
    | started | returned => cases hr
    | answered k' o' r' =>
      by_cases hk : k' = k
      · subst hk
        simp only [if_true, Option.some.injEq, Sigma.mk.injEq] at hr
        obtain ⟨rfl, hr⟩ := hr
        cases hr
        exact he
      · simp [hk] at hr
  · intro he
    exact ⟨_, he, if_pos rfl⟩

theorem callTrace_eq_nil {k : Nat} (h : ∀ e ∈ log, e.call ≠ k) : callTrace k log = [] := by
  refine List.filterMap_eq_nil_iff.mpr fun e he => ?_
  have hk := h e he
  cases e with
  | started | returned => rfl
  | answered k' o r => exact if_neg hk

/-- What the log says about a call, by how far the call has come. -/
def CallSound (V : Service S σ Q E U A) (log : List (CallEvent S Q E U A)) (k : Nat) :
    Call S Q E U A → Prop
  | .unused => ∀ e ∈ log, e.call ≠ k
  | .running q p => (∀ q', .started k q' ∈ log ↔ q' = q) ∧ (∀ x, .returned k x ∉ log) ∧
      Eff.Path (V.program q) (callTrace k log) p
  | .done q x => (∀ q', .started k q' ∈ log ↔ q' = q) ∧ (∀ x', .returned k x' ∈ log ↔ x' = x) ∧
      Eff.Path (V.program q) (callTrace k log) (.exit x)

theorem callSound_other {k : Nat} {e : CallEvent S Q E U A} (he : e.call ≠ k)
    {c : Call S Q E U A} (h : CallSound V log k c) : CallSound V (log ++ [e]) k c := by
  have htrace : callTrace k (log ++ [e]) = callTrace k log := by
    have hnone : ∀ e' ∈ [e], e'.call ≠ k := by simpa using he
    rw [callTrace_append, callTrace_eq_nil hnone, List.append_nil]
  have hmem : ∀ e' : CallEvent S Q E U A, e'.call = k → (e' ∈ log ++ [e] ↔ e' ∈ log) := by
    intro e' hk
    rw [List.mem_append, List.mem_singleton, or_iff_left]
    rintro rfl
    exact he hk
  cases c with
  | unused =>
    intro e' he'
    rcases List.mem_append.mp he' with he' | he'
    · exact h e' he'
    · rw [List.mem_singleton.mp he']
      exact he
  | running q p =>
    refine ⟨fun q' => by rw [hmem _ rfl, h.1], fun x hx => h.2.1 x ((hmem _ rfl).mp hx), ?_⟩
    rw [htrace]
    exact h.2.2
  | done q x =>
    refine ⟨fun q' => by rw [hmem _ rfl, h.1], fun x' => by rw [hmem _ rfl, h.2.1], ?_⟩
    rw [htrace]
    exact h.2.2

theorem callSound_started {k : Nat} (q : Q) (h : CallSound V log k .unused) :
    CallSound V (log ++ [.started k q]) k (.running q (V.program q)) := by
  refine ⟨fun q' => ?_, fun x hx => ?_, ?_⟩
  · rw [List.mem_append, List.mem_singleton, CallEvent.started.injEq]
    constructor
    · rintro (hm | ⟨-, rfl⟩)
      · exact absurd rfl (h _ hm)
      · rfl
    · rintro rfl
      exact .inr ⟨rfl, rfl⟩
  · rcases List.mem_append.mp hx with hm | hm
    · exact h _ hm rfl
    · simp at hm
  · rw [callTrace_append, callTrace_eq_nil h]
    exact .nil _

theorem callSound_answered {k : Nat} {q : Q} {o : S.Op} {cont : S.Ans o → Eff S E U A}
    (r : S.Ans o) (h : CallSound V log k (.running q (.perform o cont))) :
    CallSound V (log ++ [.answered k o r]) k (.running q (cont r)) := by
  refine ⟨fun q' => ?_, fun x hx => ?_, ?_⟩
  · rw [← h.1 q']
    simp
  · rcases List.mem_append.mp hx with hm | hm
    · exact h.2.1 x hm
    · simp at hm
  · have hone : callTrace k [(.answered k o r : CallEvent S Q E U A)] = [⟨o, r⟩] := by
      simp [callTrace]
    rw [callTrace_append, hone]
    exact Eff.path_snoc h.2.2 r

theorem callSound_returned {k : Nat} {q : Q} {x : Exit E U A}
    (h : CallSound V log k (.running q (.exit x))) :
    CallSound V (log ++ [.returned k x]) k (.done q x) := by
  refine ⟨fun q' => ?_, fun x' => ?_, ?_⟩
  · rw [← h.1 q']
    simp
  · rw [List.mem_append, List.mem_singleton, CallEvent.returned.injEq]
    constructor
    · rintro (hm | ⟨-, rfl⟩)
      · exact absurd hm (h.2.1 x')
      · rfl
    · rintro rfl
      exact .inr ⟨rfl, rfl⟩
  · have hone : callTrace k [(.returned k x : CallEvent S Q E U A)] = [] := rfl
    rw [callTrace_append, hone, List.append_nil]
    exact h.2.2

theorem callSound_update {k : Nat} {calls : Nat → Call S Q E U A} {c : Call S Q E U A}
    (h : CallSound V log k c) : CallSound V log k (Function.update calls k c k) := by
  rw [Function.update_self]
  exact h

theorem Service.Run.sound (h : V.Run s log w) (k : Nat) : CallSound V log k (w.calls k) := by
  induction h with
  | nil =>
    intro e he
    cases he
  | @snoc log w e w' _ hs ih =>
    by_cases hk : e.call = k
    · subst hk
      cases hs with
      | started k q hunused =>
        change CallSound V log k (w.calls k) at ih
        rw [hunused] at ih
        exact callSound_update (callSound_started q ih)
      | answered k q o cont r s' hcall hans =>
        change CallSound V log k (w.calls k) at ih
        rw [hcall] at ih
        exact callSound_update (callSound_answered r ih)
      | returned k q x hcall =>
        change CallSound V log k (w.calls k) at ih
        rw [hcall] at ih
        exact callSound_update (callSound_returned ih)
    · have hother : w'.calls k = w.calls k := by
        cases hs with
        | started k' q _ => exact Function.update_of_ne (Ne.symm hk) ..
        | answered k' q o cont r s' _ _ => exact Function.update_of_ne (Ne.symm hk) ..
        | returned k' q x _ => exact Function.update_of_ne (Ne.symm hk) ..
      rw [hother]
      exact callSound_other hk ih

/-- A call that has returned went through the whole of its request's program. -/
theorem Service.Run.returned (h : V.Run s log w) {k : Nat} {x : Exit E U A}
    (hx : .returned k x ∈ log) :
    ∃ q, (∀ q', .started k q' ∈ log ↔ q' = q) ∧
      Eff.Path (V.program q) (callTrace k log) (.exit x) := by
  have hsound := h.sound k
  cases hc : w.calls k with
  | unused =>
    rw [hc] at hsound
    exact absurd rfl (hsound _ hx)
  | running q p =>
    rw [hc] at hsound
    exact absurd hx (hsound.2.1 x)
  | done q x' =>
    rw [hc] at hsound
    obtain rfl := (hsound.2.1 x).mp hx
    exact ⟨q, hsound.1, hsound.2.2⟩

/-- Nothing happens in a call before it is started. -/
theorem Service.Run.fresh {k : Nat} {q : Q} (h : V.Run s (before ++ .started k q :: after) w) :
    ∀ e ∈ before, e.call ≠ k := by
  obtain ⟨w₁, w₂, hr, hs, -⟩ := h.split
  have hsound := Service.Run.sound hr k
  cases hs with
  | started _ _ hunused =>
    rw [hunused] at hsound
    exact hsound

/-- An answer was given from the state its predecessors lead to, to a call
whose program had come to that operation. -/
theorem Service.Run.answered {R : σ → σ → Prop} (hR : V.Respects R) {k : Nat} {o : S.Op}
    {r : S.Ans o} (h : V.Run s (before ++ .answered k o r :: after) w) :
    ∃ w₁ s', V.Run s before w₁ ∧ V.answers w₁.state o r s' ∧ R s' w.state ∧
      ∃ q cont, .started k q ∈ before ∧
        Eff.Path (V.program q) (callTrace k before) (.perform o cont) := by
  obtain ⟨w₁, w₂, hr, hs, hafter⟩ := h.split
  have hsound := Service.Run.sound hr k
  cases hs with
  | answered _ q _ cont _ s' hcall hans =>
    rw [hcall] at hsound
    exact ⟨w₁, s', hr, hans, hR.runs hafter, q, cont, (hsound.1 q).mpr rfl, hsound.2.2⟩

end Services

end EffectWorker.Effect
