import Mathlib.Data.List.Basic
import EffectWorker.Effect.Cause

/-! Scopes, layers and what is run in them, as sets of logs. A process says what
an effect may have done so far and how it may have exited; the combinators build
the processes of larger effects from those of their parts, so that the order of
acquisition, use and release is what follows from how they are composed. -/

namespace EffectWorker.Effect

/-- An effect being run. `ran` holds of the events it may have had so far,
`exits` of those with which it exits, of its exit, and of the finalizers it
leaves to the scope it was run in, the last one added first. A finalizer is the
event as which it happens. -/
structure Process (ε X : Type) where
  ran : List ε → Prop
  exits : List ε → X → List ε → Prop
  ran_of_exits : ∀ {t x fs}, exits t x fs → ran t

section Processes

variable {ε X E E' U A B R R' : Type}

def Process.succeed (value : A) : Process ε (Exit E U A) where
  ran t := t = []
  exits t x fs := t = [] ∧ x = .success value ∧ fs = []
  ran_of_exits h := h.1

def Process.mapFail (f : E → E') (self : Process ε (Exit E U A)) : Process ε (Exit E' U A) where
  ran := self.ran
  exits t x fs := ∃ y, self.exits t y fs ∧ x = y.mapFail f
  ran_of_exits := by
    rintro t x fs ⟨y, hy, -⟩
    exact self.ran_of_exits hy

/-- One effect after the success of another, in the same scope. -/
def Process.flatMap (self : Process ε (Exit E U A)) (f : A → Process ε (Exit E U B)) :
    Process ε (Exit E U B) where
  ran t := self.ran t ∨
    ∃ t₁ a fs t₂, self.exits t₁ (.success a) fs ∧ (f a).ran t₂ ∧ t = t₁ ++ t₂
  exits t x fs := (∃ c, self.exits t (.failure c) fs ∧ x = .failure c) ∨
    ∃ t₁ a fs₁ t₂ fs₂, self.exits t₁ (.success a) fs₁ ∧ (f a).exits t₂ x fs₂ ∧
      t = t₁ ++ t₂ ∧ fs = fs₂ ++ fs₁
  ran_of_exits := by
    rintro t x fs (⟨c, h, -⟩ | ⟨t₁, a, fs₁, t₂, fs₂, h₁, h₂, rfl, -⟩)
    · exact .inl (self.ran_of_exits h)
    · exact .inr ⟨t₁, a, fs₁, t₂, h₁, (f a).ran_of_exits h₂, rfl⟩

def Process.map (self : Process ε (Exit E U A)) (f : A → B) : Process ε (Exit E U B) :=
  self.flatMap fun a => succeed (f a)

/-- A value that was acquired leaves its release to the scope. -/
def Process.acquireRelease (acquire : Process ε (Exit E U A)) (release : A → ε) :
    Process ε (Exit E U A) where
  ran := acquire.ran
  exits t x fs := (∃ c, acquire.exits t (.failure c) fs ∧ x = .failure c) ∨
    ∃ a fs', acquire.exits t (.success a) fs' ∧ x = .success a ∧ fs = release a :: fs'
  ran_of_exits := by
    rintro t x fs (⟨c, h, -⟩ | ⟨a, fs', h, -⟩) <;> exact acquire.ran_of_exits h

/-- Run in a scope of its own: when the effect has exited its finalizers run,
the last one added first, and only then the whole exits. -/
def Process.scoped (self : Process ε X) : Process ε X where
  ran t := self.ran t ∨ ∃ t₁ x fs t₂, self.exits t₁ x fs ∧ t₂ <+: fs ∧ t = t₁ ++ t₂
  exits t x fs := fs = [] ∧ ∃ t₁ fs₁, self.exits t₁ x fs₁ ∧ t = t₁ ++ fs₁
  ran_of_exits := by
    rintro t x fs ⟨-, t₁, fs₁, h, rfl⟩
    exact .inr ⟨t₁, x, fs₁, fs₁, h, List.prefix_rfl, rfl⟩

/-! ## Layers -/

/-- A layer, built in a scope: it exits with the services it makes. -/
abbrev Layer (ε E U R : Type) := Process ε (Exit E U R)

def Layer.succeed (service : R) : Layer ε E U R := Process.succeed service

/-- The scope of the effect is the one the layer is built in. -/
def Layer.scoped (effect : Process ε (Exit E U R)) : Layer ε E U R := effect

/-- Two layers in one. They are built side by side, which is one after the
other where the first of them takes no step. -/
def Layer.merge (self : Layer ε E U R) (that : Layer ε E U R') : Layer ε E U (R × R') :=
  Process.flatMap self fun r => Process.map that fun r' => (r, r')

/-- Build the layer in a new scope, run the effect with its services, and close
that scope when the effect has exited. -/
def Process.provide (self : R → Process ε (Exit E U A)) (layer : Layer ε E U R) :
    Process ε (Exit E U A) :=
  (Process.flatMap layer self).scoped

/-! ## What the combinators come to -/

namespace Process

/-- It leaves nothing to the scope it is run in. -/
def Unscoped (self : Process ε X) : Prop := ∀ t x fs, self.exits t x fs → fs = []

theorem unscoped_provide (self : R → Process ε (Exit E U A)) (layer : Layer ε E U R) :
    (provide self layer).Unscoped := fun _ _ _ h => h.1

/-- Another scope around an effect that needs none changes nothing. -/
theorem scoped_ran_iff {self : Process ε X} (h : self.Unscoped) (t : List ε) :
    self.scoped.ran t ↔ self.ran t := by
  constructor
  · rintro (hran | ⟨t₁, x, fs, t₂, hexits, hpre, rfl⟩)
    · exact hran
    · obtain rfl := h _ _ _ hexits
      rw [List.prefix_nil.mp hpre, List.append_nil]
      exact self.ran_of_exits hexits
  · exact .inl

theorem scoped_exits_iff {self : Process ε X} (h : self.Unscoped) (t : List ε) (x : X)
    (fs : List ε) : self.scoped.exits t x fs ↔ self.exits t x fs := by
  constructor
  · rintro ⟨rfl, t₁, fs₁, hexits, rfl⟩
    obtain rfl := h _ _ _ hexits
    rwa [List.append_nil]
  · intro hexits
    obtain rfl := h _ _ _ hexits
    exact ⟨rfl, t, [], hexits, (List.append_nil t).symm⟩

theorem map_exits_success_iff (self : Process ε (Exit E U A)) (f : A → B) (t : List ε) (b : B)
    (fs : List ε) : (self.map f).exits t (.success b) fs ↔
      ∃ a, self.exits t (.success a) fs ∧ f a = b := by
  constructor
  · rintro (⟨c, -, h⟩ | ⟨t₁, a, fs₁, t₂, fs₂, h, ⟨rfl, hb, rfl⟩, rfl, rfl⟩)
    · cases h
    · rw [List.append_nil]
      exact ⟨a, h, (Exit.success.inj hb).symm⟩
  · rintro ⟨a, h, rfl⟩
    exact .inr ⟨t, a, fs, [], [], h, ⟨rfl, rfl, rfl⟩, (List.append_nil t).symm, rfl⟩

theorem map_exits_failure_iff (self : Process ε (Exit E U A)) (f : A → B) (t : List ε)
    (c : Cause E U) (fs : List ε) : (self.map f).exits t (.failure c) fs ↔
      self.exits t (.failure c) fs := by
  constructor
  · rintro (⟨c', h, hc⟩ | ⟨t₁, a, fs₁, t₂, fs₂, -, ⟨-, hc, -⟩, -⟩)
    · cases hc
      exact h
    · cases hc
  · exact fun h => .inl ⟨c, h, rfl⟩

theorem map_ran_iff (self : Process ε (Exit E U A)) (f : A → B) (t : List ε) :
    (self.map f).ran t ↔ self.ran t := by
  constructor
  · rintro (h | ⟨t₁, a, fs, t₂, h, rfl, rfl⟩)
    · exact h
    · rw [List.append_nil]
      exact self.ran_of_exits h
  · exact .inl

/-- An effect with a layer: while the layer is built; when it could not be;
while the effect runs; and when it has exited, with what the layer acquired
being released behind it. -/
theorem provide_ran_iff {self : R → Process ε (Exit E U A)} {layer : Layer ε E U R}
    (huse : ∀ r, (self r).Unscoped) (t : List ε) : (provide self layer).ran t ↔
      layer.ran t ∨
      (∃ t₁ c fs t₂, layer.exits t₁ (.failure c) fs ∧ t₂ <+: fs ∧ t = t₁ ++ t₂) ∨
      (∃ t₁ r fs t₂, layer.exits t₁ (.success r) fs ∧ (self r).ran t₂ ∧ t = t₁ ++ t₂) ∨
      ∃ t₁ r fs t₂ x t₃, layer.exits t₁ (.success r) fs ∧ (self r).exits t₂ x [] ∧ t₃ <+: fs ∧
        t = t₁ ++ t₂ ++ t₃ := by
  constructor
  · rintro ((h | ⟨t₁, r, fs, t₂, hl, hr, rfl⟩) | ⟨t₁, x, fs, t₂, h, hpre, rfl⟩)
    · exact .inl h
    · exact .inr (.inr (.inl ⟨t₁, r, fs, t₂, hl, hr, rfl⟩))
    · rcases h with ⟨c, hl, rfl⟩ | ⟨t₁, r, fs₁, t₁', fs₂, hl, hr, rfl, rfl⟩
      · exact .inr (.inl ⟨t₁, c, fs, t₂, hl, hpre, rfl⟩)
      · obtain rfl := huse r _ _ _ hr
        exact .inr (.inr (.inr ⟨t₁, r, fs₁, t₁', x, t₂, hl, hr, hpre, rfl⟩))
  · rintro (h | ⟨t₁, c, fs, t₂, hl, hpre, rfl⟩ | ⟨t₁, r, fs, t₂, hl, hr, rfl⟩ |
      ⟨t₁, r, fs, t₂, x, t₃, hl, hr, hpre, rfl⟩)
    · exact .inl (.inl h)
    · exact .inr ⟨t₁, .failure c, fs, t₂, .inl ⟨c, hl, rfl⟩, hpre, rfl⟩
    · exact .inl (.inr ⟨t₁, r, fs, t₂, hl, hr, rfl⟩)
    · exact .inr ⟨t₁ ++ t₂, x, fs, t₃, .inr ⟨t₁, r, fs, t₂, [], hl, hr, rfl, rfl⟩, hpre, rfl⟩

theorem provide_exits_iff {self : R → Process ε (Exit E U A)} {layer : Layer ε E U R}
    (huse : ∀ r, (self r).Unscoped) (t : List ε) (x : Exit E U A) (left : List ε) :
    (provide self layer).exits t x left ↔ left = [] ∧
      ((∃ t₁ c fs, layer.exits t₁ (.failure c) fs ∧ x = .failure c ∧ t = t₁ ++ fs) ∨
      ∃ t₁ r fs t₂, layer.exits t₁ (.success r) fs ∧ (self r).exits t₂ x [] ∧
        t = t₁ ++ t₂ ++ fs) := by
  refine and_congr_right fun _ => ⟨?_, ?_⟩
  · rintro ⟨t₁, fs, ⟨c, hl, rfl⟩ | ⟨t₁, r, fs₁, t₂, fs₂, hl, hr, rfl, rfl⟩, rfl⟩
    · exact .inl ⟨t₁, c, fs, hl, rfl, rfl⟩
    · obtain rfl := huse r _ _ _ hr
      exact .inr ⟨t₁, r, fs₁, t₂, hl, hr, rfl⟩
  · rintro (⟨t₁, c, fs, hl, rfl, rfl⟩ | ⟨t₁, r, fs, t₂, hl, hr, rfl⟩)
    · exact ⟨t₁, fs, .inl ⟨c, hl, rfl⟩, rfl⟩
    · exact ⟨t₁ ++ t₂, fs, .inr ⟨t₁, r, fs, t₂, [], hl, hr, rfl, rfl⟩, rfl⟩

end Process

/-! Beside a service that is there already, a layer is built as it is alone. -/

namespace Layer

theorem merge_succeed_ran_iff (r : R) (layer : Layer ε E U R') (t : List ε) :
    (Layer.merge (.succeed r) layer).ran t ↔ t = [] ∨ layer.ran t := by
  constructor
  · rintro (rfl | ⟨t₁, r', fs, t₂, ⟨rfl, -, rfl⟩, h, rfl⟩)
    · exact .inl rfl
    · exact .inr ((Process.map_ran_iff ..).mp h)
  · rintro (rfl | h)
    · exact .inl rfl
    · exact .inr ⟨[], r, [], t, ⟨rfl, rfl, rfl⟩, (Process.map_ran_iff ..).mpr h, rfl⟩

theorem merge_succeed_exits_iff (r : R) (layer : Layer ε E U R') (t : List ε)
    (x : Exit E U (R × R')) (fs : List ε) :
    (Layer.merge (.succeed r) layer).exits t x fs ↔
      (Process.map layer fun r' => (r, r')).exits t x fs := by
  constructor
  · rintro (⟨c, ⟨-, hc, -⟩, -⟩ | ⟨t₁, r', fs₁, t₂, fs₂, ⟨rfl, hr, rfl⟩, h, rfl, rfl⟩)
    · cases hc
    · cases hr
      rwa [List.append_nil]
  · intro h
    exact .inr ⟨[], r, [], t, fs, ⟨rfl, rfl, rfl⟩, h, rfl, (List.append_nil fs).symm⟩

end Layer

end Processes

end EffectWorker.Effect
