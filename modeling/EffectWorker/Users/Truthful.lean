import EffectWorker.Users.Results

/-! Whether the read endpoints tell the truth about the table when the database
misbehaves. Both copies recover from every expected database error, `get` with
"not found" and `list` with no rows, so an error hides what is there. -/

namespace EffectWorker.Users

open Effect Text

/-- A database that answers each statement from table `t` or fails it. -/
structure Database (U : Type) (t : Table) where
  answer : DbOp → Exit SqlError U (List Row)
  correct : ∀ o rows, answer o = .success rows →
    ∃ t', Answers t o (.success rows : Exit SqlError U _) t'

section Truthful

variable {U E : Type} {t : Table}

theorem Database.select_rows (db : Database U t) {rows : List Row}
    (h : db.answer .select = .success rows) : rows.Perm t.rows := by
  obtain ⟨t', hans⟩ := db.correct _ _ h
  cases hans with
  | select _ hperm => exact hperm

theorem Database.selectWhereId_rows (db : Database U t) {n : Number} {rows : List Row}
    (h : db.answer (.selectWhereId n) = .success rows) : rows = t.whereId n := by
  obtain ⟨t', hans⟩ := db.correct _ _ h
  cases hans with
  | selectWhereId _ => rfl

def HttpError.IsNotFound : HttpError → Prop
  | .UserNotFoundError _ _ => True
  | .UserCreationError _ _ => False

def RpcError.IsNotFound : RpcError → Prop
  | .UserNotFound _ _ => True
  | .DuplicateEmail _ | .ValidationError _ => False

/-- "Not found" is answered only if no row has the id that the string denotes. -/
def GetTruthful (t : Table) (id : String) (isNotFound : E → Prop) (result : Exit E U User) : Prop :=
  ∀ c e, result = .failure c → c.failureOption = some e → isNotFound e →
    ¬ ∃ row ∈ t.rows, Denotes id row.id

/-- A list that is answered holds the rows of the table, as the statement
returned them, and their number. -/
def ListTruthful (db : Database U t) (result : Exit E U UsersList) : Prop :=
  ∀ list, result = .success list → ∃ rows, rows.Perm t.rows ∧
    list = { users := rows.map Http.toUser, total := rows.length } ∧
    ∀ rows', db.answer .select = .success rows' → rows = rows'

variable [Throwable SqlError U]

/-- The reads of both APIs are true, of all users and of the one with this id. -/
structure ReadsTruthful (db : Database U t) (id : String) : Prop where
  get : ∀ h : UserIdSchema id = true,
    GetTruthful t id HttpError.IsNotFound ((Http.get ⟨id, h⟩).run db.answer)
  getUser : GetTruthful t id RpcError.IsNotFound ((Rpc.getUser id).run db.answer)
  list : ListTruthful db (Http.list.run db.answer : Exit HttpError U UsersList)
  listUsers : ListTruthful db (Rpc.listUsers.run db.answer : Exit RpcError U UsersList)

/-- The row the id denotes exists, and selecting it ends in a database error. -/
def GetMasked (db : Database U t) (id : String) : Prop :=
  ∃ row ∈ t.rows, Denotes id row.id ∧
    ∃ c, db.answer (.selectWhereId (.finite row.id)) = .failure c ∧ c.Caught

/-- There are rows, and selecting them ends in a database error. -/
def ListMasked (db : Database U t) : Prop :=
  t.rows ≠ [] ∧ ∃ c, db.answer .select = .failure c ∧ c.Caught

/-- The string that denotes a row's id is parsed as that id. -/
theorem parse_of_denotes {row : Row} (h : row ∈ t.rows) {id : String} (hid : Denotes id row.id) :
    (matchNumericId id).map parseInt = some (.finite row.id) :=
  (parseInt_matchNumericId_iff id (t.valid row h).id_lt).mpr hid

/-- With the statement for an existing row's id, the first row is that row. -/
theorem firstRow_of_mem (db : Database U t) {row : Row} (h : row ∈ t.rows) (rejected missing : E) :
    (db.answer (.selectWhereId (.finite row.id)) = .success [row] ∧
      firstRow rejected missing (db.answer (.selectWhereId (.finite row.id))) =
        .success (Http.toUser row)) ∨
    ∃ c, db.answer (.selectWhereId (.finite row.id)) = .failure c ∧
      firstRow rejected missing (db.answer (.selectWhereId (.finite row.id))) =
        if c.Caught then .failure (.fail rejected) else .failure c.electFailures := by
  cases hans : db.answer (.selectWhereId (.finite row.id)) with
  | success rows =>
    rw [db.selectWhereId_rows hans, Table.whereId_of_mem h]
    exact .inl ⟨rfl, rfl⟩
  | failure c => exact .inr ⟨c, rfl, rfl⟩

/-- A copy of `get` that answers an existing row's id by the first row of its
statement is true exactly when the statement does not end in a database error. -/
private theorem getTruthful_iff (db : Database U t) (id : String) {isNotFound : E → Prop}
    {notFound : E} (hnot : isNotFound notFound) {result : Exit E U User}
    (hresult : ∀ row ∈ t.rows, Denotes id row.id → result =
      firstRow notFound notFound (db.answer (.selectWhereId (.finite row.id)))) :
    GetTruthful t id isNotFound result ↔ ¬ GetMasked db id := by
  constructor
  · rintro htrue ⟨row, hrow, hid, c, hc, hfail⟩
    refine htrue (.fail notFound) notFound ?_ rfl hnot ⟨row, hrow, hid⟩
    rw [hresult row hrow hid, hc, firstRow, if_pos hfail]
  · rintro hmask c e hfailed he hnf ⟨row, hrow, hid⟩
    rw [hresult row hrow hid] at hfailed
    rcases firstRow_of_mem db hrow notFound notFound with ⟨-, hfirst⟩ | ⟨c', hc', hfirst⟩
    · rw [hfirst] at hfailed
      cases hfailed
    · have hnofail : ¬ c'.Caught := fun h => hmask ⟨row, hrow, hid, c', hc', h⟩
      rw [hfirst, if_neg hnofail] at hfailed
      cases hfailed
      rw [Cause.failureOption_electFailures] at he
      cases he

private theorem listTruthful_iff (db : Database U t) :
    ListTruthful db (allRows (db.answer .select) : Exit E U UsersList) ↔ ¬ ListMasked db := by
  constructor
  · rintro htrue ⟨hrows, c, hc, hfail⟩
    obtain ⟨rows, hperm, hlist, -⟩ := htrue { users := [], total := 0 } (by
      rw [hc, allRows, if_pos hfail])
    have hlen : rows.length = 0 := (congrArg UsersList.total hlist).symm
    exact hrows (List.eq_nil_of_length_eq_zero (by rw [← hperm.length_eq, hlen]))
  · intro hmask list hlist
    rcases allRows_success hlist with ⟨rows, hans, rfl⟩ | ⟨⟨c, hans, hfail⟩, rfl⟩
    · refine ⟨rows, db.select_rows hans, rfl, fun rows' h => ?_⟩
      rw [hans] at h
      exact Exit.success.inj h
    · have hempty : t.rows = [] := by
        by_contra hne
        exact hmask ⟨hne, c, hans, hfail⟩
      refine ⟨[], by rw [hempty], rfl, fun rows' h => ?_⟩
      rw [hans] at h
      cases h

theorem run_get (db : Database U t) {id : String} (h : UserIdSchema id = true) {row : Row}
    (hrow : row ∈ t.rows) (hid : Denotes id row.id) :
    (Http.get ⟨id, h⟩).run db.answer = firstRow (.UserNotFoundError id ("User not found: " ++ id))
      (.UserNotFoundError id ("User not found: " ++ id))
      (db.answer (.selectWhereId (.finite row.id))) := by
  rw [http_get_eq, parse_of_denotes hrow hid]
  rfl

theorem run_getUser (db : Database U t) {id : String} {row : Row}
    (hrow : row ∈ t.rows) (hid : Denotes id row.id) :
    (Rpc.getUser id).run db.answer = firstRow (.UserNotFound id ("User not found: " ++ id))
      (.UserNotFound id ("User not found: " ++ id))
      (db.answer (.selectWhereId (.finite row.id))) := by
  rw [rpc_getUser_eq, parse_of_denotes hrow hid]
  rfl

/-- The reads of both APIs are true if and only if no database error hides
rows: neither the row of the id that is asked for, nor those of the list. -/
theorem readsTruthful_iff (db : Database U t) (id : String) :
    ReadsTruthful db id ↔ ¬ GetMasked db id ∧ ¬ ListMasked db := by
  have hget : ∀ h : UserIdSchema id = true,
      GetTruthful t id HttpError.IsNotFound ((Http.get ⟨id, h⟩).run db.answer) ↔
        ¬ GetMasked db id := by
    intro h
    exact getTruthful_iff db id trivial fun row hrow hid => run_get db h hrow hid
  have hgetUser : GetTruthful t id RpcError.IsNotFound ((Rpc.getUser id).run db.answer) ↔
      ¬ GetMasked db id :=
    getTruthful_iff db id trivial fun row hrow hid => run_getUser db hrow hid
  have hlist : ListTruthful db (Http.list.run db.answer : Exit HttpError U UsersList) ↔
      ¬ ListMasked db := by
    rw [http_list_eq]
    exact listTruthful_iff db
  have hlistUsers : ListTruthful db (Rpc.listUsers.run db.answer : Exit RpcError U UsersList) ↔
      ¬ ListMasked db := by
    rw [rpc_listUsers_eq]
    exact listTruthful_iff db
  constructor
  · intro h
    exact ⟨hgetUser.mp h.getUser, hlist.mp h.list⟩
  · rintro ⟨hnoget, hnolist⟩
    exact ⟨fun h => (hget h).mpr hnoget, hgetUser.mpr hnoget, hlist.mpr hnolist,
      hlistUsers.mpr hnolist⟩

end Truthful

/-- A database that has gone away. -/
def failingDatabase : Database String annTable where
  answer _ := .failure (.fail ⟨"connection terminated"⟩)
  correct := by
    intro o rows h
    cases h

/-- Ann is in the table, but is reported as not found. -/
theorem failingDatabase_notTruthful : ¬ ReadsTruthful failingDatabase "usr_1" := by
  intro h
  refine h.getUser _ _ rfl rfl trivial ⟨ann, List.mem_singleton_self _, ?_⟩
  exact toUserId_denotes 1

end EffectWorker.Users
