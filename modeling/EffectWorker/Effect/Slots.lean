import EffectWorker.Effect.ForEach

/-! What the slots of a loop promise. No more fibers are in flight than there
are slots, the elements start in order, none starts after a failure, and with a
single slot the elements are gone through one after the other. -/

namespace EffectWorker.Effect

section Slots

variable {S : Sig} {E U A : Type} {n : Nat} {L : Loop S E U A n}
  {t : List (Fin n × Event S E U A)} {fs fs' : Fin n → Fiber S E U A} {i j : Fin n}
  {e : Event S E U A}

theorem fiberStep_started {allowed : (o : S.Op) → S.Ans o → Prop} {body : Eff S E U A}
    {f f' : Fiber S E U A} (hs : FiberStep allowed body f e f') : f' ≠ .waiting := by
  cases hs <;> exact fun hf => by cases hf

/-- A step moves one fiber, and only a start makes it active. -/
theorem loopStep_cases (hs : L.Step fs (i, e) fs') : ∃ f', fs' = Function.update fs i f' ∧
    f' ≠ .waiting ∧ L.Guard fs i e ∧
    ((fs i).active = true ∨ (fs i = .waiting ∧ e = .starts)) := by
  cases hs with
  | fiber hstep hguard =>
    exact ⟨_, rfl, fiberStep_started hstep, hguard, fiberStep_active hstep⟩

/-! ## The bound -/

theorem inFlight_update (fs : Fin n → Fiber S E U A) (i : Fin n) (f : Fiber S E U A) :
    inFlight (Function.update fs i f) + (if (fs i).active then 1 else 0) =
      inFlight fs + (if f.active then 1 else 0) := by
  have hsplit : ∀ gs : Fin n → Fiber S E U A, inFlight gs =
      (if (gs i).active then 1 else 0) + ∑ j ∈ Finset.univ.erase i,
        (if (gs j).active then 1 else 0) := by
    intro gs
    rw [inFlight, Finset.card_filter]
    exact (Finset.add_sum_erase _ _ (Finset.mem_univ i)).symm
  have hrest : ∑ j ∈ Finset.univ.erase i, (if (Function.update fs i f j).active then 1 else 0) =
      ∑ j ∈ Finset.univ.erase i, (if (fs j).active then 1 else 0) := by
    refine Finset.sum_congr rfl fun j hj => ?_
    rw [Function.update_of_ne (Finset.ne_of_mem_erase hj)]
  rw [hsplit fs, hsplit (Function.update fs i f), hrest, Function.update_self]
  omega

theorem run_inFlight (h : L.Run t fs) : inFlight fs ≤ L.slots := by
  induction h with
  | nil => simp [inFlight, Fiber.active]
  | @snoc t fs e fs' _ hs ih =>
    obtain ⟨i, e⟩ := e
    obtain ⟨f', rfl, -, hguard, hactive⟩ := loopStep_cases hs
    have hcount := inFlight_update fs i f'
    have hone : (if f'.active = true then 1 else 0) ≤ 1 := by split <;> omega
    rcases hactive with hactive | ⟨hwaiting, rfl⟩
    · rw [if_pos hactive] at hcount
      omega
    · have hfree := hguard.2.2
      omega

/-! ## The order of the starts -/

/-- Whoever has started, all before have. -/
theorem run_startsInOrder (h : L.Run t fs) (hj : j ≤ i) (hi : fs i ≠ .waiting) :
    fs j ≠ .waiting := by
  induction h generalizing i j with
  | nil => exact absurd rfl hi
  | @snoc t fs e fs' _ hs ih =>
    obtain ⟨k, e⟩ := e
    obtain ⟨f', rfl, hf', hguard, hactive⟩ := loopStep_cases hs
    by_cases hjk : j = k
    · subst hjk
      rw [Function.update_self]
      exact hf'
    · rw [Function.update_of_ne hjk]
      by_cases hik : i = k
      · subst hik
        rcases hactive with hactive | ⟨-, rfl⟩
        · refine ih hj fun hw => ?_
          rw [hw] at hactive
          cases hactive
        · exact hguard.2.1 j (lt_of_le_of_ne hj hjk)
      · rw [Function.update_of_ne hik] at hi
        exact ih hj hi

theorem run_event_started (h : L.Run t fs) (he : (i, e) ∈ t) : fs i ≠ .waiting := by
  induction h with
  | nil => cases he
  | @snoc t fs e' fs' _ hs ih =>
    obtain ⟨k, e'⟩ := e'
    obtain ⟨f', rfl, hf', -⟩ := loopStep_cases hs
    by_cases hik : i = k
    · subst hik
      rw [Function.update_self]
      exact hf'
    · rw [Function.update_of_ne hik]
      refine ih ?_
      rcases List.mem_append.mp he with he | he
      · exact he
      · exact absurd (congrArg Prod.fst (List.mem_singleton.mp he)) hik

/-- An element that waits is behind all that have had an event. -/
theorem run_before_waiting (h : L.Run t fs) (hj : fs j = .waiting) (he : (i, e) ∈ t) : i < j := by
  by_contra hlt
  exact run_startsInOrder h (le_of_not_gt hlt) (run_event_started h he) hj

theorem run_started_iff (h : L.Run t fs) (j : Fin n) : fs j ≠ .waiting ↔ (j, .starts) ∈ t := by
  refine ⟨fun hj => ?_, run_event_started h⟩
  induction h with
  | nil => exact absurd rfl hj
  | @snoc t fs e fs' _ hs ih =>
    obtain ⟨k, e⟩ := e
    obtain ⟨f', rfl, -, -, hactive⟩ := loopStep_cases hs
    by_cases hjk : j = k
    · subst hjk
      rcases hactive with hactive | ⟨-, rfl⟩
      · refine List.mem_append_left _ (ih fun hw => ?_)
        rw [hw] at hactive
        cases hactive
      · exact List.mem_append_right _ List.mem_cons_self
    · rw [Function.update_of_ne hjk] at hj
      exact List.mem_append_left _ (ih hj)

/-- Before an element has its first event, all before it have started. -/
theorem run_inOrder {before after : List (Fin n × Event S E U A)} (h : L.Run t fs)
    (ht : t = before ++ (i, e) :: after) (hj : j < i) : (j, .starts) ∈ before := by
  subst ht
  obtain ⟨gs, gs', hbefore, hs, -⟩ := h.split
  obtain ⟨f', -, -, hguard, hactive⟩ := loopStep_cases hs
  rw [← run_started_iff hbefore]
  rcases hactive with hactive | ⟨-, rfl⟩
  · refine run_startsInOrder hbefore (le_of_lt hj) fun hw => ?_
    rw [hw] at hactive
    cases hactive
  · exact hguard.2.1 j hj

/-! ## Failures -/

/-- After a failure nothing starts, and the failure stays. -/
theorem step_failing (hs : L.Step fs (i, e) fs') (h : Failing fs) : Failing fs' ∧ e ≠ .starts := by
  obtain ⟨f', rfl, -, hguard, hactive⟩ := loopStep_cases hs
  obtain ⟨j, c, hj⟩ := h
  constructor
  · refine ⟨j, c, ?_⟩
    by_cases hji : j = i
    · subst hji
      rw [hj] at hactive
      rcases hactive with hactive | ⟨hwaiting, -⟩
      · cases hactive
      · cases hwaiting
    · rw [Function.update_of_ne hji]
      exact hj
  · rintro rfl
    exact hguard.1 ⟨j, c, hj⟩

/-- The first failure is not an interruption. -/
theorem run_failing_iff (h : L.Run t fs) : Failing fs ↔ ∃ j c, (j, .ends (.failure c)) ∈ t := by
  constructor
  · intro hf
    induction h with
    | nil => simp [Failing] at hf
    | @snoc t fs e fs' hr hs ih =>
      by_cases hbefore : Failing fs
      · obtain ⟨j, c, hm⟩ := ih hbefore
        exact ⟨j, c, List.mem_append_left _ hm⟩
      · obtain ⟨j, c, hj⟩ := hf
        obtain ⟨e', he', hending⟩ := (fiberRun_ending (L.run_fiber (hr.snoc hs) j) _).mpr hj
        rcases List.mem_append.mp (mem_history.mp he') with hm | hm
        · exact absurd ⟨j, c, (fiberRun_ending (L.run_fiber hr j) _).mp
            ⟨e', mem_history.mpr hm, hending⟩⟩ hbefore
        · rw [← List.mem_singleton.mp hm] at hs ⊢
          cases e' with
          | ends x =>
            cases hending
            exact ⟨j, c, List.mem_append_right _ List.mem_cons_self⟩
          | interrupted =>
            obtain ⟨f', -, -, hguard, -⟩ := loopStep_cases hs
            exact absurd hguard hbefore
          | starts | begins | works | answers => cases hending
  · rintro ⟨j, c, hm⟩
    exact ⟨j, c, (fiberRun_ending (L.run_fiber h j) _).mp ⟨_, mem_history.mpr hm, rfl⟩⟩

/-- Nothing starts behind a failure. -/
theorem run_failFast {before after : List (Fin n × Event S E U A)} {c : Cause E U}
    (h : L.Run t fs) (ht : t = before ++ (i, .ends (.failure c)) :: after) (j : Fin n) :
    (j, .starts) ∉ after := by
  induction h generalizing after with
  | nil => simp at ht
  | @snoc t fs last fs' hr hs ih =>
    rcases snoc_eq_append_cons ht with ⟨rfl, rfl, rfl⟩ | ⟨after', rfl, hbefore⟩
    · exact List.not_mem_nil
    · intro hm
      rcases List.mem_append.mp hm with hm | hm
      · exact ih hbefore hm
      · have hfailing : Failing fs := by
          rw [run_failing_iff hr]
          exact ⟨i, c, by rw [hbefore]; exact List.mem_append_right _ List.mem_cons_self⟩
        rw [← List.mem_singleton.mp hm] at hs
        exact (step_failing hs hfailing).2 rfl

/-- An element is interrupted only after another has failed. -/
theorem run_interrupted {before after : List (Fin n × Event S E U A)} (h : L.Run t fs)
    (ht : t = before ++ (i, .interrupted) :: after) :
    ∃ j c, j ≠ i ∧ (j, .ends (.failure c)) ∈ before := by
  subst ht
  obtain ⟨gs, gs', hbefore, hs, -⟩ := h.split
  obtain ⟨f', -, -, hguard, hactive⟩ := loopStep_cases hs
  obtain ⟨j, c, hm⟩ := (run_failing_iff hbefore).mp hguard
  refine ⟨j, c, ?_, hm⟩
  rintro rfl
  have hended := (fiberRun_ending (L.run_fiber hbefore j) (.failure c)).mp
    ⟨_, mem_history.mpr hm, rfl⟩
  rw [hended] at hactive
  rcases hactive with hactive | ⟨hwaiting, -⟩
  · cases hactive
  · cases hwaiting

/-! ## The bound is reached -/

/-- The fibers of the first `m` elements started, the others waiting. -/
def startedUpTo (L : Loop S E U A n) (m : Nat) (i : Fin n) : Fiber S E U A :=
  if i.val < m then .ready (L.body i) else .waiting

theorem inFlight_startedUpTo (L : Loop S E U A n) {m : Nat} (hm : m ≤ n) :
    inFlight (startedUpTo L m) = m := by
  have hactive : ∀ i, (startedUpTo L m i).active = true ↔ i.val < m := by
    intro i
    by_cases hi : i.val < m <;> simp [startedUpTo, hi, Fiber.active]
  rw [inFlight, Finset.filter_congr fun i _ => hactive i]
  rw [Fin.card_filter_val_lt, Nat.min_eq_right hm]

/-- As many elements as there are slots for can be started at once. -/
theorem run_fill (L : Loop S E U A n) {m : Nat} (hm : m ≤ n) (hslots : m ≤ L.slots) :
    ∃ t, L.Run t (startedUpTo L m) := by
  induction m with
  | zero => exact ⟨[], .nil⟩
  | succ m ih =>
    obtain ⟨t, ht⟩ := ih (by omega) (by omega)
    have hwaiting : startedUpTo L m ⟨m, hm⟩ = .waiting := if_neg (lt_irrefl m)
    have hguard : L.Guard (startedUpTo L m) ⟨m, hm⟩ .starts := by
      refine ⟨?_, fun j hj hw => ?_, ?_⟩
      · rintro ⟨j, c, hj⟩
        by_cases hjm : j.val < m <;> simp [startedUpTo, hjm] at hj
      · simp [startedUpTo, show j.val < m from hj] at hw
      · rw [inFlight_startedUpTo L (by omega)]
        omega
    have hs := Loop.step_of hwaiting .starts hguard
    have hnext : Function.update (startedUpTo L m) ⟨m, hm⟩ (.ready (L.body ⟨m, hm⟩)) =
        startedUpTo L (m + 1) := by
      funext j
      by_cases hj : j = ⟨m, hm⟩
      · subst hj
        simp [startedUpTo]
      · have hne : j.val ≠ m := fun he => hj (Fin.ext he)
        rw [Function.update_of_ne hj]
        by_cases hlt : j.val < m
        · simp [startedUpTo, hlt, Nat.lt_succ_of_lt hlt]
        · simp [startedUpTo, hlt, show ¬ j.val < m + 1 by omega]
    rw [hnext] at hs
    exact ⟨_, ht.snoc hs⟩

theorem inFlight_le_card (fs : Fin n → Fiber S E U A) : inFlight fs ≤ n := by
  refine (Finset.card_filter_le _ _).trans ?_
  rw [Finset.card_univ, Fintype.card_fin]

/-! ## One slot -/

theorem active_unique (h : inFlight fs ≤ 1) (hi : (fs i).active = true)
    (hj : (fs j).active = true) : i = j := by
  rw [inFlight] at h
  exact Finset.card_le_one.mp h i (by simpa using hi) j (by simpa using hj)

theorem inFlight_pos (hi : (fs i).active = true) : 0 < inFlight fs :=
  Finset.card_pos.mpr ⟨i, by simpa using hi⟩

/-- With one slot every event so far belongs to an element up to the active one. -/
theorem run_upTo_active (hslots : L.slots = 1) (h : L.Run t fs) (hj : (fs j).active = true)
    (he : (i, e) ∈ t) : i ≤ j := by
  induction h generalizing i j e with
  | nil => cases he
  | @snoc t fs last fs' hr hs ih =>
    obtain ⟨k, last⟩ := last
    obtain ⟨f', rfl, -, hguard, hactive⟩ := loopStep_cases hs
    have hbound := hslots ▸ run_inFlight hr
    by_cases hjk : j = k
    · subst hjk
      rcases List.mem_append.mp he with he | he
      · rcases hactive with hactive | ⟨hwaiting, -⟩
        · exact ih hactive he
        · exact le_of_lt (run_before_waiting hr hwaiting he)
      · exact le_of_eq (congrArg Prod.fst (List.mem_singleton.mp he))
    · rw [Function.update_of_ne hjk] at hj
      rcases List.mem_append.mp he with he | he
      · exact ih hj he
      · rcases hactive with hactive | ⟨-, rfl⟩
        · exact absurd (active_unique hbound hj hactive) hjk
        · have hfree := hguard.2.2
          have hbusy := inFlight_pos hj
          omega

/-- With one slot the elements are gone through one after the other. -/
theorem run_sequential (hslots : L.slots = 1) (h : L.Run t fs) :
    (t.map Prod.fst).Pairwise (· ≤ ·) := by
  induction h with
  | nil => exact List.Pairwise.nil
  | @snoc t fs last fs' hr hs ih =>
    obtain ⟨k, last⟩ := last
    rw [List.map_append, List.pairwise_append]
    refine ⟨ih, List.pairwise_singleton _ _, fun i hi j hj => ?_⟩
    rw [List.map_singleton, List.mem_singleton] at hj
    subst hj
    obtain ⟨⟨i, e⟩, he, rfl⟩ := List.mem_map.mp hi
    obtain ⟨-, -, -, -, hactive⟩ := loopStep_cases hs
    rcases hactive with hactive | ⟨hwaiting, -⟩
    · exact run_upTo_active hslots hr hactive he
    · exact le_of_lt (run_before_waiting hr hwaiting he)

end Slots

end EffectWorker.Effect
