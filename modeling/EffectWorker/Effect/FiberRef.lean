import Mathlib.Logic.Function.Basic
import EffectWorker.Effect.Program

/-! Fiber-local references. Every fiber has its own value of each reference; a
forked fiber starts with the values of its parent; `locally` sets a reference
around a body and restores it on every exit of the body, be it a value, a
failure, a defect or an interruption. What a program reads when it is started
with given values (`Reads`) is preserved by each step of its fiber and handed to
the fibers it forks. -/

namespace EffectWorker.Effect

/-- Programs over the references `Ref`, with operations `S` and exits `X`. -/
inductive RefEff {Ref : Type} (Val : Ref → Type) (S : Sig) (X : Type)
  | exit (x : X)
  | get (ref : Ref) (k : Val ref → RefEff Val S X)
  | perform (o : S.Op) (k : S.Ans o → RefEff Val S X)
  | fork (child : RefEff Val S X) (rest : RefEff Val S X)
  | locally (ref : Ref) (value : Val ref) (body : RefEff Val S X) (k : X → RefEff Val S X)

/-- What `locally` leaves to be done when its body has exited. -/
structure RefFrame {Ref : Type} (Val : Ref → Type) (S : Sig) (X : Type) where
  ref : Ref
  old : Val ref
  k : X → RefEff Val S X

structure RefFiber {Ref : Type} (Val : Ref → Type) (S : Sig) (X : Type) where
  refs : (ref : Ref) → Val ref
  code : RefEff Val S X
  frames : List (RefFrame Val S X)

inductive RefEvent {Ref : Type} (Val : Ref → Type) (S : Sig) (X : Type)
  | got (ref : Ref) (value : Val ref)
  | performed (o : S.Op) (r : S.Ans o)
  | forked
  | entered (ref : Ref) (value : Val ref)
  | left (ref : Ref) (x : X)
  | aborted (x : X)

section FiberRefs

variable {Ref : Type} [DecidableEq Ref] {Val : Ref → Type} {S : Sig} {X : Type}

/-- One step of a fiber, and the fiber it has forked. A defect or an
interruption may end the code at any point. -/
inductive RefStep : RefFiber Val S X → RefEvent Val S X → RefFiber Val S X →
    Option (RefFiber Val S X) → Prop
  | got (refs ref k frames) : RefStep ⟨refs, .get ref k, frames⟩ (.got ref (refs ref))
      ⟨refs, k (refs ref), frames⟩ none
  | performed (refs o k frames r) : RefStep ⟨refs, .perform o k, frames⟩ (.performed o r)
      ⟨refs, k r, frames⟩ none
  | forked (refs child rest frames) : RefStep ⟨refs, .fork child rest, frames⟩ .forked
      ⟨refs, rest, frames⟩ (some ⟨refs, child, []⟩)
  | entered (refs ref value body k frames) :
      RefStep ⟨refs, .locally ref value body k, frames⟩ (.entered ref value)
        ⟨Function.update refs ref value, body, ⟨ref, refs ref, k⟩ :: frames⟩ none
  | left (refs x) (frame : RefFrame Val S X) (frames) :
      RefStep ⟨refs, .exit x, frame :: frames⟩ (.left frame.ref x)
        ⟨Function.update refs frame.ref frame.old, frame.k x, frames⟩ none
  | aborted (refs code frames x) : RefStep ⟨refs, code, frames⟩ (.aborted x)
      ⟨refs, .exit x, frames⟩ none

/-- All a program reads is in `P`, and all it performs in `Q`, in its own fiber
and in those it forks, when it is started with the values `refs`. -/
def Reads (P : (ref : Ref) → Val ref → Prop) (Q : S.Op → Prop) :
    ((ref : Ref) → Val ref) → RefEff Val S X → Prop
  | _, .exit _ => True
  | refs, .get ref k => P ref (refs ref) ∧ Reads P Q refs (k (refs ref))
  | refs, .perform o k => Q o ∧ ∀ r, Reads P Q refs (k r)
  | refs, .fork child rest => Reads P Q refs child ∧ Reads P Q refs rest
  | refs, .locally ref value body k =>
    Reads P Q (Function.update refs ref value) body ∧ ∀ x, Reads P Q refs (k x)

/-- The same of what the frames leave to be done, each with the values that are
restored before it. -/
def FramesRead (P : (ref : Ref) → Val ref → Prop) (Q : S.Op → Prop) :
    ((ref : Ref) → Val ref) → List (RefFrame Val S X) → Prop
  | _, [] => True
  | refs, frame :: frames =>
    (∀ x, Reads P Q (Function.update refs frame.ref frame.old) (frame.k x)) ∧
      FramesRead P Q (Function.update refs frame.ref frame.old) frames

structure RefFiber.Reads (P : (ref : Ref) → Val ref → Prop) (Q : S.Op → Prop)
    (f : RefFiber Val S X) : Prop where
  code : Effect.Reads P Q f.refs f.code
  frames : FramesRead P Q f.refs f.frames

/-- The values a fiber is left with once all its frames have been unwound. -/
def base : ((ref : Ref) → Val ref) → List (RefFrame Val S X) → (ref : Ref) → Val ref
  | refs, [] => refs
  | refs, frame :: frames => base (Function.update refs frame.ref frame.old) frames

def RefFiber.base (f : RefFiber Val S X) : (ref : Ref) → Val ref := Effect.base f.refs f.frames

private theorem update_restore (refs : (ref : Ref) → Val ref) (ref : Ref) (value : Val ref) :
    Function.update (Function.update refs ref value) ref (refs ref) = refs := by
  rw [Function.update_idem, Function.update_eq_self]

/-- One step keeps what a fiber reads, and hands it to the fiber it forks. -/
theorem refStep_reads {P : (ref : Ref) → Val ref → Prop} {Q : S.Op → Prop}
    {f f' : RefFiber Val S X} {e : RefEvent Val S X} {child : Option (RefFiber Val S X)}
    (hs : RefStep f e f' child) (h : f.Reads P Q) :
    f'.Reads P Q ∧ (∀ c, child = some c → c.Reads P Q) ∧
      (∀ ref value, e = .got ref value → P ref value) ∧
      ∀ o r, e = .performed o r → Q o := by
  obtain ⟨hcode, hframes⟩ := h
  cases hs with
  | got refs ref k frames =>
    refine ⟨⟨hcode.2, hframes⟩, by simp, fun ref' value he => ?_, by simp⟩
    cases he
    exact hcode.1
  | performed refs o k frames r =>
    refine ⟨⟨hcode.2 r, hframes⟩, by simp, by simp, fun o' r' he => ?_⟩
    cases he
    exact hcode.1
  | forked refs child rest frames =>
    refine ⟨⟨hcode.2, hframes⟩, fun c hc => ?_, by simp, by simp⟩
    cases hc
    exact ⟨hcode.1, trivial⟩
  | entered refs ref value body k frames =>
    refine ⟨⟨hcode.1, ?_, ?_⟩, by simp, by simp, by simp⟩
    · intro x
      rw [update_restore]
      exact hcode.2 x
    · rw [update_restore]
      exact hframes
  | left refs x frame frames =>
    exact ⟨⟨hframes.1 x, hframes.2⟩, by simp, by simp, by simp⟩
  | aborted refs code frames x => exact ⟨⟨trivial, hframes⟩, by simp, by simp, by simp⟩

/-- One step does not change what the fiber will be left with. -/
theorem refStep_base {f f' : RefFiber Val S X} {e : RefEvent Val S X}
    {child : Option (RefFiber Val S X)} (hs : RefStep f e f' child) : f'.base = f.base := by
  cases hs with
  | got | performed | forked | left | aborted => rfl
  | entered refs ref value body k frames =>
    change Effect.base (Function.update (Function.update refs ref value) ref (refs ref)) frames = _
    rw [update_restore]
    rfl

/-- Outside every `locally` a fiber has the values it started with. -/
theorem base_of_unwound {f : RefFiber Val S X} (h : f.frames = []) : f.base = f.refs := by
  unfold RefFiber.base
  rw [h]
  rfl

end FiberRefs

end EffectWorker.Effect
