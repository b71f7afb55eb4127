import EffectWorker.Users.Http
import EffectWorker.Users.Rpc

/-! What the handlers make of the exit of their statement. Each of the six makes
at most one, and its exit decides theirs: they recover from an expected database
error, and from nothing that has a defect. -/

namespace EffectWorker.Users

open Effect Text

section Results

variable {U E : Type} [Throwable SqlError U]

/-- All rows; none after a database error. -/
def allRows : Exit SqlError U (List Row) → Exit E U UsersList
  | .success rows => .success { users := rows.map Http.toUser, total := rows.length }
  | .failure c =>
    if c.Caught then .success { users := [], total := 0 } else .failure c.electFailures

/-- The first row; `missing` when there is none, `rejected` after a database error. -/
def firstRow (rejected missing : E) : Exit SqlError U (List Row) → Exit E U User
  | .success [] => .failure (.fail missing)
  | .success (row :: _) => .success (Http.toUser row)
  | .failure c => if c.Caught then .failure (.fail rejected) else .failure c.electFailures

private theorem statement_list (o : DbOp) :
    (((statement o).catchAll fun _ => Eff.succeed []).flatMap fun rows =>
      Eff.succeed { users := rows.map Http.toUser, total := rows.length } : DbEff U E UsersList) =
      Eff.perform (S := DbSig U) o fun r => .exit (allRows r) := by
  refine congrArg (Eff.perform (S := DbSig U) o) (funext fun r => ?_)
  change ((Eff.exit r).catchAll fun _ => Eff.succeed []).flatMap _ = _
  cases r with
  | success rows => rfl
  | failure c =>
    rw [Eff.catchAll_failure, allRows]
    by_cases hc : c.Caught
    · rw [if_pos hc, if_pos hc]
      rfl
    · rw [if_neg hc, if_neg hc]
      rfl

private theorem statement_first (o : DbOp) (rejected missing : E) :
    (((statement o).catchAll fun _ => Eff.fail rejected).flatMap fun rows =>
      match rows.head? with
      | none => Eff.fail missing
      | some row => Eff.succeed (Http.toUser row) : DbEff U E User) =
      Eff.perform (S := DbSig U) o fun r => .exit (firstRow rejected missing r) := by
  refine congrArg (Eff.perform (S := DbSig U) o) (funext fun r => ?_)
  change ((Eff.exit r).catchAll fun _ => Eff.fail rejected).flatMap _ = _
  cases r with
  | success rows => cases rows <;> rfl
  | failure c =>
    rw [Eff.catchAll_failure, firstRow]
    by_cases hc : c.Caught
    · rw [if_pos hc, if_pos hc]
      rfl
    · rw [if_neg hc, if_neg hc]
      rfl

theorem http_list_eq :
    (Http.list : DbEff U HttpError UsersList) =
      Eff.perform (S := DbSig U) .select fun r => .exit (allRows r) := by
  rw [← statement_list]
  simp [Http.list]

theorem rpc_listUsers_eq :
    (Rpc.listUsers : DbEff U RpcError UsersList) =
      Eff.perform (S := DbSig U) .select fun r => .exit (allRows r) :=
  statement_list .select

theorem http_create_eq (payload : CreateUser) :
    (Http.create payload : DbEff U HttpError User) =
      Eff.perform (S := DbSig U) (.insert payload.email payload.name) fun r =>
        .exit (firstRow (.UserCreationError payload.email payload.name)
          (.UserCreationError payload.email payload.name) r) :=
  statement_first _ _ _

theorem rpc_createUser_eq (payload : CreateUserRpc) :
    (Rpc.createUser payload : DbEff U RpcError User) =
      Eff.perform (S := DbSig U) (.insert payload.email payload.name) fun r =>
        .exit (firstRow (.DuplicateEmail payload.email)
          (.ValidationError "Failed to create user") r) :=
  statement_first _ _ _

theorem http_get_eq (id : UserId) :
    (Http.get id : DbEff U HttpError User) =
      match (matchNumericId id.val).map parseInt with
      | none => .exit (.failure (.fail
          (.UserNotFoundError id.val ("Invalid user ID format: " ++ id.val))))
      | some n => Eff.perform (S := DbSig U) (.selectWhereId n) fun r => .exit
          (firstRow (.UserNotFoundError id.val ("User not found: " ++ id.val))
            (.UserNotFoundError id.val ("User not found: " ++ id.val)) r) := by
  unfold Http.get Http.parseUserId
  cases (matchNumericId id.val).map parseInt with
  | none => rfl
  | some n => exact statement_first _ _ _

theorem rpc_getUser_eq (id : String) :
    (Rpc.getUser id : DbEff U RpcError User) =
      match (matchNumericId id).map parseInt with
      | none => .exit (.failure (.fail (.UserNotFound id ("Invalid user ID format: " ++ id))))
      | some n => Eff.perform (S := DbSig U) (.selectWhereId n) fun r => .exit
          (firstRow (.UserNotFound id ("User not found: " ++ id))
            (.UserNotFound id ("User not found: " ++ id)) r) := by
  unfold Rpc.getUser Rpc.parseUserId
  cases (matchNumericId id).map parseInt with
  | none => rfl
  | some n => exact statement_first _ _ _

/-- A user that is returned is the first row of the answer. -/
theorem firstRow_success {rejected missing : E} {r : Exit SqlError U (List Row)} {u : User}
    (h : firstRow rejected missing r = .success u) :
    ∃ row rows, r = .success (row :: rows) ∧ u = Http.toUser row := by
  cases r with
  | success rows =>
    cases rows with
    | nil => cases h
    | cons row rows =>
      cases h
      exact ⟨row, rows, rfl, rfl⟩
  | failure c => by_cases hc : c.Caught <;> simp [firstRow, hc] at h

/-- A list that is returned holds all rows, or an error has emptied it. -/
theorem allRows_success {r : Exit SqlError U (List Row)} {list : UsersList}
    (h : (allRows r : Exit E U UsersList) = .success list) :
    (∃ rows, r = .success rows ∧
      list = { users := rows.map Http.toUser, total := rows.length }) ∨
    (∃ c, r = .failure c ∧ c.Caught) ∧ list = { users := [], total := 0 } := by
  cases r with
  | success rows =>
    cases h
    exact .inl ⟨rows, rfl, rfl⟩
  | failure c =>
    rw [allRows] at h
    by_cases hc : c.Caught
    · rw [if_pos hc] at h
      cases h
      exact .inr ⟨⟨c, rfl, hc⟩, rfl⟩
    · rw [if_neg hc] at h
      cases h

end Results

end EffectWorker.Users
