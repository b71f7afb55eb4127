import Mathlib.Data.List.Nodup
import Mathlib.Logic.Function.Basic

/-! Numbers handed out in order, each to one owner. Whatever the owners do with
them, no number has two owners and no owner has a number twice. -/

namespace EffectWorker.Effect

section Numbering

variable {ι : Type} {owned : ι → List Nat} {next : Nat}

/-- `owned i` is what `i` has been given; `next` is the next number. -/
structure Numbered (owned : ι → List Nat) (next : Nat) : Prop where
  bounded : ∀ i, ∀ n ∈ owned i, n < next
  nodup : ∀ i, (owned i).Nodup
  distinct : ∀ i j n, n ∈ owned i → n ∈ owned j → i = j

theorem Numbered.nil (next : Nat) : Numbered (fun _ : ι => []) next :=
  ⟨by simp, by simp, by simp⟩

theorem mem_update_snoc [DecidableEq ι] {i j : ι} {n : Nat} :
    n ∈ Function.update owned i (owned i ++ [next]) j ↔ n ∈ owned j ∨ (j = i ∧ n = next) := by
  by_cases hj : j = i
  · subst hj
    simp
  · simp [hj]

/-- Handing out the next number. -/
theorem Numbered.snoc [DecidableEq ι] (h : Numbered owned next) (i : ι) :
    Numbered (Function.update owned i (owned i ++ [next])) (next + 1) := by
  constructor
  case bounded =>
    intro j n hn
    rcases mem_update_snoc.mp hn with hn | ⟨-, rfl⟩
    · have := h.bounded j n hn
      omega
    · omega
  case nodup =>
    intro j
    by_cases hj : j = i
    · subst hj
      rw [Function.update_self]
      refine (h.nodup j).append (List.nodup_singleton _) fun n hn hn' => ?_
      have := h.bounded j n hn
      rw [List.mem_singleton] at hn'
      omega
    · rw [Function.update_of_ne hj]
      exact h.nodup j
  case distinct =>
    intro j j' n hn hn'
    rcases mem_update_snoc.mp hn with hold | ⟨rfl, rfl⟩ <;>
      rcases mem_update_snoc.mp hn' with hold' | ⟨rfl, hnext⟩
    · exact h.distinct j j' n hold hold'
    · have := h.bounded j n hold
      omega
    · have := h.bounded j' _ hold'
      omega
    · rfl

end Numbering

end EffectWorker.Effect
