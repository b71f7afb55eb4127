import EffectWorker.Effect.Program

/-! Straight programs. Such a program goes through a script, one operation
after the other, whatever it is answered, and the first operation that fails is
its last. What it has performed at any time is a beginning of the script. -/

namespace EffectWorker.Effect

/-- `label` says what an operation is in the script, `failed` whether an answer
is a failure. -/
inductive Straight {S : Sig} {L E U A : Type} (label : S.Op → L)
    (failed : Answered S → Option (Cause E U)) : List L → Eff S E U A → Prop
  | exit (a) : Straight label failed [] (.exit (.success a))
  | perform (o k script) : (∀ r, failed ⟨o, r⟩ = none → Straight label failed script (k r)) →
      (∀ r c, failed ⟨o, r⟩ = some c → k r = .exit (.failure c)) →
      Straight label failed (label o :: script) (.perform o k)

section Straight

variable {S : Sig} {L E U A B : Type} {label : S.Op → L} {failed : Answered S → Option (Cause E U)}
  {script script' : List L} {p q : Eff S E U A} {as : List (Answered S)}

/-- One script after the other. -/
theorem Straight.flatMap {f : A → Eff S E U B} (h : Straight label failed script p)
    (hf : ∀ a, Straight label failed script' (f a)) :
    Straight label failed (script ++ script') (p.flatMap f) := by
  induction h with
  | exit a => exact hf a
  | perform o k script hok hfailed ih =>
    refine .perform o _ _ (fun r hr => ih r hr) fun r c hr => ?_
    change (k r).flatMap f = _
    rw [hfailed r c hr]
    rfl

/-- An operation that fails the program when it fails. -/
theorem straight_perform (o : S.Op) (exit : S.Ans o → Exit E U A)
    (hfailed : ∀ r, failed ⟨o, r⟩ = (exit r).causeOption) :
    Straight label failed [label o] (.perform o fun r => .exit (exit r) : Eff S E U A) := by
  refine .perform o _ [] (fun r hr => ?_) fun r c hr => ?_
  · rw [hfailed] at hr
    cases hx : exit r with
    | success a => exact .exit a
    | failure c =>
      rw [hx] at hr
      cases hr
  · rw [hfailed] at hr
    cases hx : exit r with
    | success a =>
      rw [hx] at hr
      cases hr
    | failure c' =>
      rw [hx] at hr
      cases hr
      rfl

/-- How far a straight program has come: it is in the middle of its script, or
its last operation has failed. -/
inductive Progress (label : S.Op → L) (failed : Answered S → Option (Cause E U)) (script : List L)
    (as : List (Answered S)) (q : Eff S E U A) : Prop
  | going (rest) : script = as.map (label ·.1) ++ rest → (∀ a ∈ as, failed a = none) →
      Straight label failed rest q → Progress label failed script as q
  | stopped (before a c) : as = before ++ [a] → as.map (label ·.1) <+: script →
      (∀ a ∈ before, failed a = none) → failed a = some c → q = .exit (.failure c) →
      Progress label failed script as q

theorem Progress.cons {a : Answered S} (h : Progress label failed script as q)
    (ha : failed a = none) : Progress label failed (label a.1 :: script) (a :: as) q := by
  cases h with
  | going rest hscript hok hrest =>
    refine .going rest (by rw [hscript]; rfl) (fun b hb => ?_) hrest
    rcases List.mem_cons.mp hb with rfl | hb
    · exact ha
    · exact hok b hb
  | stopped before b c has hprefix hok hb hq =>
    refine .stopped (a :: before) b c (by rw [has]; rfl) ?_ (fun b hb => ?_) hb hq
    · exact (List.prefix_cons_inj _).mpr hprefix
    · rcases List.mem_cons.mp hb with rfl | hb
      · exact ha
      · exact hok b hb

theorem straight_path (h : Straight label failed script p) (hp : Eff.Path p as q) :
    Progress label failed script as q := by
  induction h generalizing as with
  | exit a =>
    obtain ⟨rfl, rfl⟩ := Eff.path_exit hp
    exact .going [] rfl (by simp) (.exit a)
  | perform o k script hok hfailed ih =>
    rcases Eff.path_perform hp with ⟨rfl, rfl⟩ | ⟨r, as', rfl, htail⟩
    · exact .going _ rfl (by simp) (.perform o k script hok hfailed)
    cases hr : failed ⟨o, r⟩ with
    | none => exact (ih r hr htail).cons hr
    | some c =>
      rw [hfailed r c hr] at htail
      obtain ⟨rfl, rfl⟩ := Eff.path_exit htail
      exact .stopped [] _ c rfl (by simp) (by simp) hr rfl

/-- What was performed is a beginning of the script. -/
theorem Progress.prefix (h : Progress label failed script as q) :
    as.map (label ·.1) <+: script := by
  cases h with
  | going rest hscript _ _ => exact ⟨rest, hscript.symm⟩
  | stopped _ _ _ _ hprefix _ _ _ => exact hprefix

/-- A straight program succeeds at the end of its script and nowhere else. -/
theorem Progress.exit {x : Exit E U A} (h : Progress label failed script as (.exit x)) :
    (script = as.map (label ·.1) ∧ (∀ a ∈ as, failed a = none) ∧ ∃ a, x = .success a) ∨
      ∃ before a c, as = before ++ [a] ∧ (∀ a ∈ before, failed a = none) ∧
        failed a = some c ∧ x = .failure c := by
  cases h with
  | going rest hscript hok hrest =>
    cases hrest with
    | exit a => exact .inl ⟨by simpa using hscript, hok, a, rfl⟩
  | stopped before a c has _ hok ha hq => exact .inr ⟨before, a, c, has, hok, ha, Eff.exit.inj hq⟩

/-- Before any other operation that was performed, nothing had failed. -/
theorem Progress.before {before after : List (Answered S)} {a : Answered S}
    (h : Progress label failed script as q) (has : as = before ++ a :: after) :
    (∀ b ∈ before, failed b = none) ∧
      ∃ rest, script = before.map (label ·.1) ++ label a.1 :: rest := by
  have hprefix := h.prefix
  refine ⟨fun b hb => ?_, ?_⟩
  · cases h with
    | going _ _ hok _ => exact hok b (by rw [has]; exact List.mem_append_left _ hb)
    | stopped before' a' c has' _ hok _ _ =>
      have hsplit := has.symm.trans has'
      refine hok b ?_
      have hlast : before ++ (a :: after).dropLast = before' := by
        have hd := congrArg List.dropLast hsplit
        rwa [List.dropLast_append_of_ne_nil (by simp), List.dropLast_concat] at hd
      rw [← hlast]
      exact List.mem_append_left _ hb
  · obtain ⟨rest, hrest⟩ := hprefix
    refine ⟨after.map (label ·.1) ++ rest, ?_⟩
    rw [← hrest, has]
    simp

end Straight

end EffectWorker.Effect
