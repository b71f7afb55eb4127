import EffectWorker.Users.Readable

/-! Whether a user has one id. An id is read as a number and the user is shown
under that number, printed again; several strings of digits denote one number,
and all of them are let through. -/

namespace EffectWorker.Users

open Effect Text

section Identity

variable {U E : Type} {t : Table} [Throwable SqlError U]

/-- Selecting the row of an existing id returns it. -/
def Database.FindsRows (db : Database U t) : Prop :=
  ∀ row ∈ t.rows, db.answer (.selectWhereId (.finite row.id)) = .success [row]

/-- One of the APIs returns `u` for the id `s`. -/
def Shows (db : Database U t) (s : String) (u : User) : Prop :=
  (∃ h : UserIdSchema s = true, (Http.get ⟨s, h⟩).run db.answer = .success u) ∨
    (Rpc.getUser s).run db.answer = .success u

/-- The user that is returned for a number is the row with that number. -/
theorem denotes_of_firstRow (db : Database U t) {s : String} {n : Number} {u : User}
    {rejected missing : E} (hparse : (matchNumericId s).map parseInt = some n)
    (h : firstRow rejected missing (db.answer (.selectWhereId n)) = .success u) :
    ∃ row ∈ t.rows, Denotes s row.id ∧ u = Http.toUser row := by
  obtain ⟨row, rows, hans, hu⟩ := firstRow_success h
  have hmem : row ∈ t.whereId n := by
    rw [← db.selectWhereId_rows hans]
    exact List.mem_cons_self
  obtain ⟨hrow, hid⟩ := Table.mem_whereId.mp hmem
  subst hid
  exact ⟨row, hrow, (parseInt_matchNumericId_iff s (t.valid row hrow).id_lt).mp hparse, hu⟩

theorem shows_iff (db : Database U t) (hdb : db.FindsRows) (s : String) (u : User) :
    Shows db s u ↔ ∃ row ∈ t.rows, Denotes s row.id ∧ u = Http.toUser row := by
  constructor
  · rintro (⟨hs, h⟩ | h)
    · rw [http_get_eq] at h
      cases hparse : (matchNumericId s).map parseInt with
      | none =>
        rw [hparse] at h
        cases h
      | some n =>
        rw [hparse] at h
        exact denotes_of_firstRow db hparse h
    · rw [rpc_getUser_eq] at h
      cases hparse : (matchNumericId s).map parseInt with
      | none =>
        rw [hparse] at h
        cases h
      | some n =>
        rw [hparse] at h
        exact denotes_of_firstRow db hparse h
  · rintro ⟨row, hrow, hid, rfl⟩
    refine .inr ?_
    rw [run_getUser db hrow hid, hdb row hrow]
    rfl

/-- A user is shown under an id of its own if and only if that id is written
without a leading zero; so a stored user is never shown under one string only. -/
theorem oneId_iff (db : Database U t) (hdb : db.FindsRows) :
    (∀ s, (∀ u, Shows db s u → u.id = s) ↔
      ¬ (hasLeadingZero s = true ∧ ∃ row ∈ t.rows, Denotes s row.id)) ∧
    ((∀ row ∈ t.rows, ∃! s, Shows db s (Http.toUser row)) ↔ t.rows = []) := by
  constructor
  · intro s
    constructor
    · rintro hown ⟨hzero, row, hrow, hid⟩
      have hprint := hown _ ((shows_iff db hdb s _).mpr ⟨row, hrow, hid, rfl⟩)
      rw [(toUserId_eq_iff hid).mp hprint] at hzero
      cases hzero
    · intro hno u hshows
      obtain ⟨row, hrow, hid, rfl⟩ := (shows_iff db hdb s u).mp hshows
      refine (toUserId_eq_iff hid).mpr (Bool.eq_false_iff.mpr fun hzero => ?_)
      exact hno ⟨hzero, row, hrow, hid⟩
  · constructor
    · intro hone
      refine List.eq_nil_iff_forall_not_mem.mpr fun row hrow => ?_
      obtain ⟨s, -, hunique⟩ := hone row hrow
      obtain ⟨hpad, hzero⟩ := padded_denotes row.id
      have hprinted := hunique (Http.toUserId row.id)
        ((shows_iff db hdb _ _).mpr ⟨row, hrow, toUserId_denotes row.id, rfl⟩)
      have hpadded := hunique ("usr_0" ++ toString row.id)
        ((shows_iff db hdb _ _).mpr ⟨row, hrow, hpad, rfl⟩)
      have hsame := (toUserId_eq_iff hpad).mp (hprinted.trans hpadded.symm)
      rw [hsame] at hzero
      cases hzero
    · intro hempty row hrow
      rw [hempty] at hrow
      cases hrow

end Identity

theorem healthyDatabase_findsRows (U : Type) (t : Table) : (healthyDatabase U t).FindsRows := by
  intro row hrow
  change Exit.success (t.whereId (.finite row.id)) = _
  rw [Table.whereId_of_mem hrow]

theorem annTable_oneId : hasLeadingZero "usr_1" = false ∧
    ∀ u, Shows (healthyDatabase String annTable) "usr_1" u → u.id = "usr_1" := by
  have hno : hasLeadingZero "usr_1" = false := by decide
  refine ⟨hno, ((oneId_iff _ (healthyDatabase_findsRows String annTable)).1 "usr_1").mpr ?_⟩
  rw [hno]
  rintro ⟨hzero, -⟩
  cases hzero

/-- Ann is shown as `usr_1` to who asks for `usr_01`. -/
theorem annTable_notOneId :
    ¬ ∀ u, Shows (healthyDatabase String annTable) "usr_01" u → u.id = "usr_01" := by
  intro hown
  have hshows := (shows_iff _ (healthyDatabase_findsRows String annTable) "usr_01" _).mpr
    ⟨ann, List.mem_singleton_self _, (padded_denotes 1).1, rfl⟩
  exact absurd (hown _ hshows) (by decide)

end EffectWorker.Users
