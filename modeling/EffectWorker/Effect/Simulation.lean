import Mathlib.Data.List.Forall2
import EffectWorker.Effect.Shared

/-! Replacing the programs of a run. Programs that perform the same operations
whatever they are answered cannot be told apart by the state they share; only
what they return can differ, and by no more than a given relation. -/

namespace EffectWorker.Effect

section Programs

variable {S : Sig} {E E' E'' U U' A A' B : Type}

/-- The same operations under the same answers, with results related by `R`. -/
inductive Eff.Similar (R : Exit E U A → Exit E' U' A' → Prop) :
    Eff S E U A → Eff S E' U' A' → Prop
  | exit {x x'} : R x x' → Similar R (.exit x) (.exit x')
  | perform {o k k'} : (∀ r, Similar R (k r) (k' r)) → Similar R (.perform o k) (.perform o k')

theorem Eff.Similar.refl {R : Exit E U A → Exit E U A → Prop} (hR : ∀ x, R x x)
    (p : Eff S E U A) : Similar R p p := by
  induction p with
  | exit x => exact .exit (hR x)
  | perform o k ih => exact .perform ih

theorem Eff.Similar.mono {R R' : Exit E U A → Exit E' U' A' → Prop} {p : Eff S E U A}
    {p' : Eff S E' U' A'} (h : Similar R p p') (hR : ∀ x x', R x x' → R' x x') :
    Similar R' p p' := by
  induction h with
  | exit hx => exact .exit (hR _ _ hx)
  | perform _ ih => exact .perform ih

/-- Programs that become the same when their results are renamed. -/
theorem Eff.Similar.of_rename {f : E → E''} {g : A → B} {f' : E' → E''} {g' : A' → B}
    {p : Eff S E U A} {p' : Eff S E' U A'} (h : p.rename f g = p'.rename f' g') :
    Similar (fun x x' => x.rename f g = x'.rename f' g') p p' := by
  induction p generalizing p' with
  | exit x =>
    cases p' with
    | exit x' =>
      rw [Eff.rename_exit, Eff.rename_exit] at h
      exact .exit (Eff.exit.inj h)
    | perform o' k' =>
      rw [Eff.rename_exit] at h
      cases h
  | perform o k ih =>
    cases p' with
    | exit x' =>
      rw [Eff.rename_exit] at h
      cases h
    | perform o' k' =>
      obtain ⟨ho, hk⟩ := Eff.perform.inj h
      cases ho
      exact .perform fun r => ih r (congrFun (eq_of_heq hk) r)

end Programs

section Replacements

variable {S : Sig} {σ Q Q' E E' U U' A A' : Type} {V : Service S σ Q E U A}
  {V' : Service S σ Q' E' U' A'} {s : σ}

/-- How requests of one service may be replaced by requests of another, on the
same state: `Replaces q q'` if `q'` may stand where `q` stood, and `Results` for
what becomes of its result. -/
structure Replacement (V : Service S σ Q E U A) (V' : Service S σ Q' E' U' A') where
  Replaces : Q → Q' → Prop
  Results : Q → Q' → Exit E U A → Exit E' U' A' → Prop
  similar : ∀ q q', Replaces q q' → Eff.Similar (Results q q') (V.program q) (V'.program q')
  answers : ∀ s o r s', V.answers s o r s' → V'.answers s o r s'

namespace Replacement

/-- A call and its replacement by `q'` are equally far. -/
inductive SameCall (F : Replacement V V') (q' : Q') :
    Call S Q E U A → Call S Q' E' U' A' → Prop
  | unused : SameCall F q' .unused .unused
  | running {q p p'} : Eff.Similar (F.Results q q') p p' →
      SameCall F q' (.running q p) (.running q' p')
  | done {q x x'} : F.Results q q' x x' → SameCall F q' (.done q x) (.done q' x')

/-- The same state, and every call `k` replaced by `requests k`. -/
structure SameState (F : Replacement V V') (requests : Nat → Q') (w : Shared S σ Q E U A)
    (w' : Shared S σ Q' E' U' A') : Prop where
  state : w'.state = w.state
  calls : ∀ k, F.SameCall (requests k) (w.calls k) (w'.calls k)

/-- The event that stands for an event of the run with the events `log`. -/
inductive SameEvent (F : Replacement V V') (requests : Nat → Q')
    (log : List (CallEvent S Q E U A)) :
    CallEvent S Q E U A → CallEvent S Q' E' U' A' → Prop
  | started (k q) : SameEvent F requests log (.started k q) (.started k (requests k))
  | answered (k o r) : SameEvent F requests log (.answered k o r) (.answered k o r)
  | returned {k q x x'} : .started k q ∈ log → F.Results q (requests k) x x' →
      SameEvent F requests log (.returned k x) (.returned k x')

variable {F : Replacement V V'} {requests : Nat → Q'} {log : List (CallEvent S Q E U A)}
  {w w₁ : Shared S σ Q E U A} {w' : Shared S σ Q' E' U' A'}

theorem SameEvent.append {e : CallEvent S Q E U A} {e' : CallEvent S Q' E' U' A'}
    (h : F.SameEvent requests log e e') (last : CallEvent S Q E U A) :
    F.SameEvent requests (log ++ [last]) e e' := by
  cases h with
  | started k q => exact .started k q
  | answered k o r => exact .answered k o r
  | returned hq hx => exact .returned (List.mem_append_left _ hq) hx

theorem SameState.update {s : σ} {k : Nat} {c : Call S Q E U A} {c' : Call S Q' E' U' A'}
    (h : F.SameState requests w w') (hc : F.SameCall (requests k) c c') :
    F.SameState requests ⟨s, Function.update w.calls k c⟩ ⟨s, Function.update w'.calls k c'⟩ := by
  refine ⟨rfl, fun j => ?_⟩
  change F.SameCall _ (Function.update w.calls k c j) (Function.update w'.calls k c' j)
  by_cases hj : j = k
  · subst hj
    rw [Function.update_self, Function.update_self]
    exact hc
  · rw [Function.update_of_ne hj, Function.update_of_ne hj]
    exact h.calls j

theorem SameState.unused {k : Nat} (h : F.SameState requests w w')
    (hk : w.calls k = .unused) : w'.calls k = .unused := by
  have hcall := h.calls k
  rw [hk] at hcall
  generalize hc' : w'.calls k = c' at hcall
  cases hcall with
  | unused => rfl

theorem SameState.running {k : Nat} {q : Q} {p : Eff S E U A} (h : F.SameState requests w w')
    (hk : w.calls k = .running q p) : ∃ p', w'.calls k = .running (requests k) p' ∧
      Eff.Similar (F.Results q (requests k)) p p' := by
  have hcall := h.calls k
  rw [hk] at hcall
  generalize hc' : w'.calls k = c' at hcall
  cases hcall with
  | running hsim => exact ⟨_, rfl, hsim⟩

/-- One step of the run is one step of the replaced run. -/
theorem step {e : CallEvent S Q E U A} (hr : V.Run s log w) (hs : V.Step w e w₁)
    (hreplaces : ∀ k q, e = .started k q → F.Replaces q (requests k))
    (hsame : F.SameState requests w w') :
    ∃ e' w₁', V'.Step w' e' w₁' ∧ F.SameState requests w₁ w₁' ∧
      F.SameEvent requests log e e' := by
  cases hs with
  | started k q hunused =>
    refine ⟨_, _, .started w' k (requests k) (hsame.unused hunused), ?_, .started k q⟩
    rw [hsame.state]
    exact hsame.update (.running (F.similar q _ (hreplaces k q rfl)))
  | answered k q o cont r s' hcall hans =>
    obtain ⟨p', hcall', hsim⟩ := hsame.running hcall
    cases hsim with
    | perform hk =>
      have hans' := F.answers _ _ _ _ hans
      rw [← hsame.state] at hans'
      exact ⟨_, _, .answered w' k (requests k) o _ r s' hcall' hans',
        hsame.update (.running (hk r)), .answered k o r⟩
  | returned k q x hcall =>
    obtain ⟨p', hcall', hsim⟩ := hsame.running hcall
    have hsound := hr.sound k
    rw [hcall] at hsound
    cases hsim with
    | exit hx =>
      refine ⟨_, _, .returned w' k (requests k) _ hcall', ?_,
        .returned ((hsound.1 q).mpr rfl) hx⟩
      rw [hsame.state]
      exact hsame.update (.done hx)

/-- A run with some of its requests replaced goes through the same states. -/
theorem run (F : Replacement V V') (requests : Nat → Q') (hr : V.Run s log w)
    (hreplaces : ∀ k q, .started k q ∈ log → F.Replaces q (requests k)) :
    ∃ log' w', V'.Run s log' w' ∧ F.SameState requests w w' ∧
      List.Forall₂ (F.SameEvent requests log) log log' := by
  induction hr with
  | nil => exact ⟨[], .start s, .nil, ⟨rfl, fun k => .unused⟩, .nil⟩
  | @snoc log w e w₁ hr hs ih =>
    obtain ⟨log', w', hr', hsame, hevents⟩ :=
      ih fun k q hq => hreplaces k q (List.mem_append_left _ hq)
    have hlast : ∀ k q, e = .started k q → F.Replaces q (requests k) := by
      rintro k q rfl
      exact hreplaces k q (List.mem_append_right _ (List.mem_singleton_self _))
    obtain ⟨e', w₁', hs', hsame', hevent⟩ := step hr hs hlast hsame
    refine ⟨log' ++ [e'], w₁', hr'.snoc hs', hsame', ?_⟩
    exact List.rel_append (hevents.imp fun _ _ h => h.append e) (.cons (hevent.append e) .nil)

end Replacement

end Replacements

end EffectWorker.Effect
