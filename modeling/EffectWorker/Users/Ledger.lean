import EffectWorker.Users.Directory

/-! The table as a ledger of the run. Its rows are the first ones and then those
the creates have inserted, one each; a create is told of its row, and only a
create that is told of a row can have inserted one. The latter is where the
table's assumption comes in that a statement the client sees fail has changed
nothing. -/

namespace EffectWorker.Users

open Effect Text

section Ledger

variable {U : Type} {t₀ : Table} {log before after : List (ApiEvent U)} {w : ApiState U}

/-- The row an event inserts, with the call that asked for it. -/
def inserted : ApiEvent U → Option (Nat × Row)
  | .answered k (.insert _ _) (.success [row]) => some (k, row)
  | _ => none

/-- The rows a run has inserted, oldest first. -/
def insertions (log : List (ApiEvent U)) : List (Nat × Row) := log.filterMap inserted

@[simp] theorem insertions_append (log log' : List (ApiEvent U)) :
    insertions (log ++ log') = insertions log ++ insertions log' := List.filterMap_append

theorem inserted_eq_some {e : ApiEvent U} {k : Nat} {row : Row} (h : inserted e = some (k, row)) :
    ∃ email name, e = .answered k (.insert email name) (.success [row]) := by
  unfold inserted at h
  split at h
  · cases h
    exact ⟨_, _, rfl⟩
  · cases h

theorem mem_insertions {k : Nat} {row : Row} :
    (k, row) ∈ insertions log ↔
      ∃ email name, .answered k (.insert email name) (.success [row]) ∈ log := by
  rw [insertions, List.mem_filterMap]
  constructor
  · rintro ⟨e, he, hrow⟩
    obtain ⟨email, name, rfl⟩ := inserted_eq_some hrow
    exact ⟨email, name, he⟩
  · rintro ⟨email, name, he⟩
    exact ⟨_, he, rfl⟩

/-- An answer adds to the table what it adds to the insertions. -/
theorem answers_rows {t t' : Table} {o : DbOp} {r : Exit SqlError U (List Row)}
    (h : Answers t o r t') (k : Nat) :
    t'.rows = t.rows ++ (insertions [(.answered k o r : ApiEvent U)]).map Prod.snd := by
  cases h with
  | select rows hperm => exact (List.append_nil _).symm
  | selectWhereId n => exact (List.append_nil _).symm
  | insert => rfl
  | failed o c => cases o <;> exact (List.append_nil _).symm

variable [Throwable SqlError U]

theorem rows_insertions (h : ApiRun t₀ log w) :
    w.state.rows = t₀.rows ++ (insertions log).map Prod.snd := by
  induction h with
  | nil => exact (List.append_nil _).symm
  | snoc _ hs ih =>
    rw [insertions_append, List.map_append, ← List.append_assoc, ← ih]
    cases hs with
    | started | returned => exact (List.append_nil _).symm
    | answered k q o cont r s' _ hans => exact answers_rows hans k

/-- A call that is about to be answered has inserted nothing. -/
theorem insertions_fresh (h : ApiRun t₀ log w) {k : Nat} {q : Request} {o : DbOp}
    {cont : Exit SqlError U (List Row) → DbEff U ApiError Reply}
    (hcall : w.calls k = .running q (Eff.perform (S := DbSig U) o cont)) :
    k ∉ (insertions log).map Prod.fst := by
  intro hk
  obtain ⟨⟨k, row⟩, hmem, rfl⟩ := List.mem_map.mp hk
  obtain ⟨email, name, hans⟩ := mem_insertions.mp hmem
  obtain ⟨hprogram, hcont⟩ := running_perform program_within h hcall
  have hsound := h.sound k
  rw [hcall] at hsound
  have htrace := mem_callTrace.mpr hans
  have hpath := hsound.2.2
  rw [hprogram] at hpath
  rcases Eff.path_perform hpath with ⟨hnil, -⟩ | ⟨r, as', -, hrest⟩
  · rw [hnil] at htrace
    cases htrace
  · obtain ⟨x, hx⟩ := hcont r
    rw [hx] at hrest
    cases (Eff.path_exit hrest).2

theorem insertions_nodup (h : ApiRun t₀ log w) : ((insertions log).map Prod.fst).Nodup := by
  induction h with
  | nil => exact List.nodup_nil
  | @snoc log w e w' hr hs ih =>
    rw [insertions_append, List.map_append, List.nodup_append]
    refine ⟨ih, ?_, ?_⟩
    · cases hrow : inserted e <;> simp [insertions, hrow]
    · intro j hj i hi hji
      subst hji
      obtain ⟨⟨_, row⟩, hrow, rfl⟩ := List.mem_map.mp hi
      obtain ⟨email, name, he⟩ := mem_insertions.mp hrow
      rw [← List.mem_singleton.mp he] at hs
      cases hs with
      | answered _ q _ cont _ s' hcall _ => exact insertions_fresh hr hcall hj

/-- What is inserted was asked for, and holds what the columns make of that. -/
theorem insertion_asked (h : ApiRun t₀ log w) {k : Nat} {row : Row}
    (hrow : (k, row) ∈ insertions log) : ∃ q email name, .started k q ∈ log ∧
      q.statement = some (.insert email name) ∧
      .answered k (.insert email name) (.success [row]) ∈ log ∧ stored email = some row.email ∧
      stored name = some row.name := by
  obtain ⟨email, name, hans⟩ := mem_insertions.mp hrow
  obtain ⟨before, after, rfl⟩ := List.append_of_mem hans
  obtain ⟨w₁, t', -, hanswers, -, q, cont, hq, hpath⟩ := h.answered respects_prefix
  have hstatement := program_path_perform hpath
  cases hanswers with
  | insert _ _ _ _ hemail hname =>
    exact ⟨q, email, name, List.mem_append_left _ hq, hstatement, hans, hemail, hname⟩

/-- A create that inserted is told of its row. -/
theorem insertion_told (h : ApiRun t₀ log w) {k : Nat} {row : Row} {x : Exit ApiError U Reply}
    (hrow : (k, row) ∈ insertions log) (hx : .returned k x ∈ log) :
    x = .success (.user (Http.toUser row)) := by
  obtain ⟨q, _, _, hq, hstatement, hans, -⟩ := insertion_asked h hrow
  rcases returned_cases h hq hx with ⟨hnone, -⟩ | ⟨o, r, ho, hans', rfl⟩
  · rw [hstatement] at hnone
    cases hnone
  · cases answered_once program_within h hq hans hans'
    exact (creates_of_insert hstatement).2 row []

/-- A create that is told of a user has inserted that user's row. -/
theorem created_inserted (h : ApiRun t₀ log w) {k : Nat} {u : User} (hc : CreatedBy log k u) :
    ∃ row, (k, row) ∈ insertions log ∧ u = Http.toUser row := by
  obtain ⟨row, _, _, hu, hans⟩ := createdBy_row h hc
  exact ⟨row, mem_insertions.mpr ⟨_, _, hans⟩, hu⟩

/-- The insertions and the creates that are told of a user are the same. -/
structure Accounted (t₀ : Table) (log : List (ApiEvent U)) (w : ApiState U) : Prop where
  rows : w.state.rows = t₀.rows ++ (insertions log).map Prod.snd
  once : ((insertions log).map Prod.fst).Nodup
  asked : ∀ k row, (k, row) ∈ insertions log →
    ∃ q, .started k q ∈ log ∧ q.Stores row.email row.name
  told : ∀ k row x, (k, row) ∈ insertions log → .returned k x ∈ log →
    x = .success (.user (Http.toUser row))
  kept : ∀ k u, CreatedBy log k u → ∃ row, (k, row) ∈ insertions log ∧ u = Http.toUser row

/-- No create is lost and none is made twice: in every run the table holds its
first rows and one row for each create that inserted, which holds what its
columns make of the payload; a create that inserted returns that user and
nothing else, no statement having been lost on its way back; and whoever is told
that a user was created finds the row in the table. -/
theorem apiRun_accounted {t₀ : Table} {log : List (ApiEvent U)} {w : ApiState U}
    (h : ApiRun t₀ log w) : Accounted t₀ log w := by
  constructor
  case rows => exact rows_insertions h
  case once => exact insertions_nodup h
  case asked =>
    intro k row hrow
    obtain ⟨q, email, name, hq, hstatement, -, hemail, hname⟩ := insertion_asked h hrow
    exact ⟨q, hq, email, name, creates_of_statement hstatement, hemail, hname⟩
  case told => exact fun k row x hrow hx => insertion_told h hrow hx
  case kept => exact fun k u hc => created_inserted h hc

theorem annLog_accounted : ∃ w : ApiState String, Accounted .empty annLog w := by
  obtain ⟨w, h⟩ := annLog_run
  exact ⟨w, apiRun_accounted h⟩

end Ledger

end EffectWorker.Users
