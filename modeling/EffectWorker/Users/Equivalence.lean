import EffectWorker.Effect.Simulation
import EffectWorker.Users.Runs

/-! The two APIs do the same. Their handlers are separate copies with errors of
their own; with the errors put side by side they are the same programs, so one
call may stand for the other in any run. -/

namespace EffectWorker.Users

open Effect Text

section Calls

variable {U A : Type} [Throwable SqlError U]

/-- What the database does in each table: the answer and the table it leaves. -/
abbrev TableDb (U : Type) := Table → DbOp → Exit SqlError U (List Row) × Table

/-- Some statement on `t` ends in `c`, which is not just an expected error. -/
def TableDb.Dies (db : TableDb U) (t : Table) (c : Cause SqlError U) : Prop :=
  ¬ c.Caught ∧ ∃ o, (db t o).1 = .failure c

/-- The same value, errors that are put side by side by `same`, or the defect in
which the statement ended. -/
inductive SameResult (db : TableDb U) (t : Table) (same : HttpError → RpcError → Prop) :
    Exit HttpError U A → Exit RpcError U A → Prop
  | success (a) : SameResult db t same (.success a) (.success a)
  | failure (e e') : same e e' → SameResult db t same (.failure (.fail e)) (.failure (.fail e'))
  | defect (c) : db.Dies t c →
      SameResult db t same (.failure c.electFailures) (.failure c.electFailures)

theorem allRows_same (db : TableDb U) (same : HttpError → RpcError → Prop) (t : Table)
    (o : DbOp) : SameResult db t same (allRows (db t o).1) (allRows (db t o).1) := by
  cases hans : (db t o).1 with
  | success rows => exact .success _
  | failure c =>
    rw [allRows, allRows]
    by_cases hc : c.Caught
    · rw [if_pos hc, if_pos hc]
      exact .success _
    · rw [if_neg hc, if_neg hc]
      exact .defect c ⟨hc, o, hans⟩

theorem firstRow_same (db : TableDb U) {same : HttpError → RpcError → Prop} (t : Table)
    (o : DbOp) {rejected missing : HttpError} {rejected' missing' : RpcError}
    (hrejected : same rejected rejected') (hmissing : same missing missing') :
    SameResult db t same (firstRow rejected missing (db t o).1)
      (firstRow rejected' missing' (db t o).1) := by
  cases hans : (db t o).1 with
  | success rows =>
    cases rows with
    | nil => exact .failure _ _ hmissing
    | cons row rows => exact .success _
  | failure c =>
    rw [firstRow, firstRow]
    by_cases hc : c.Caught
    · rw [if_pos hc, if_pos hc]
      exact .failure _ _ hrejected
    · rw [if_neg hc, if_neg hc]
      exact .defect c ⟨hc, o, hans⟩

/-- A call and its counterpart in the other API, on the same table and with the
same database: their results and the tables they leave. -/
structure CallsAlike (db : TableDb U) (t : Table) : Prop where
  get : ∀ id : UserId, SameResult db t
    (fun e e' => ∃ message, e = .UserNotFoundError id.val message ∧
      e' = .UserNotFound id.val message)
    ((Http.get id).runState db t).1 ((Rpc.getUser id.val).runState db t).1
  get_table : ∀ id : UserId,
    ((Http.get id : DbEff U HttpError User).runState db t).2 =
      ((Rpc.getUser id.val : DbEff U RpcError User).runState db t).2
  list : SameResult db t (fun _ _ => False) (Http.list.runState db t).1
    (Rpc.listUsers.runState db t).1
  list_table : ((Http.list : DbEff U HttpError UsersList).runState db t).2 =
    ((Rpc.listUsers : DbEff U RpcError UsersList).runState db t).2
  create : ∀ payload : CreateUser, SameResult db t
    (fun e e' => e = .UserCreationError payload.email payload.name ∧
      (e' = .DuplicateEmail payload.email ∨ e' = .ValidationError "Failed to create user"))
    ((Http.create payload).runState db t).1
    ((Rpc.createUser { email := payload.email, name := payload.name }).runState db t).1
  create_table : ∀ payload : CreateUser,
    ((Http.create payload : DbEff U HttpError User).runState db t).2 =
      ((Rpc.createUser { email := payload.email, name := payload.name } :
        DbEff U RpcError User).runState db t).2

theorem callsAlike (db : TableDb U) (t : Table) : CallsAlike db t := by
  constructor
  case get =>
    intro id
    rw [http_get_eq, rpc_getUser_eq]
    cases (matchNumericId id.val).map parseInt with
    | none => exact .failure _ _ ⟨_, rfl, rfl⟩
    | some n => exact firstRow_same db t _ ⟨_, rfl, rfl⟩ ⟨_, rfl, rfl⟩
  case get_table =>
    intro id
    rw [http_get_eq, rpc_getUser_eq]
    cases (matchNumericId id.val).map parseInt <;> rfl
  case list =>
    rw [http_list_eq, rpc_listUsers_eq]
    exact allRows_same db _ t _
  case list_table => rw [http_list_eq, rpc_listUsers_eq]; rfl
  case create =>
    intro payload
    rw [http_create_eq, rpc_createUser_eq]
    exact firstRow_same db t _ ⟨rfl, .inl rfl⟩ ⟨rfl, .inr rfl⟩
  case create_table =>
    intro payload
    rw [http_create_eq, rpc_createUser_eq]
    rfl

end Calls

/-! ## Runs -/

/-- What an error of either API says. -/
inductive Problem
  | notFound (id : String) (message : String)
  | notCreated
  deriving DecidableEq, Repr

def HttpError.problem : HttpError → Problem
  | .UserCreationError _ _ => .notCreated
  | .UserNotFoundError id message => .notFound id message

def RpcError.problem : RpcError → Problem
  | .UserNotFound id message => .notFound id message
  | .DuplicateEmail _ | .ValidationError _ => .notCreated

def ApiError.problem : ApiError → Problem
  | .http e => e.problem
  | .rpc e => e.problem

/-- The same request, made to the RPC API. -/
def Request.toRpc : Request → Request
  | .httpList => .rpcListUsers
  | .httpGet id => .rpcGetUser id.val
  | .httpCreate payload => .rpcCreateUser { email := payload.email, name := payload.name }
  | .rpcListUsers => .rpcListUsers
  | .rpcGetUser id => .rpcGetUser id
  | .rpcCreateUser payload => .rpcCreateUser payload

section Runs

variable {U : Type}

/-- The same reply, or the same failure up to whose error it is. -/
def Alike (x x' : Exit ApiError U Reply) : Prop :=
  x.rename ApiError.problem id = x'.rename ApiError.problem id

private theorem perform_problem {E E' A A' : Type} {f : E → ApiError} {f' : E' → ApiError}
    {g : A → Reply} {g' : A' → Reply} (o : DbOp) {res : Exit SqlError U (List Row) → Exit E U A}
    {res' : Exit SqlError U (List Row) → Exit E' U A'}
    (h : ∀ r, Alike ((res r).rename f g) ((res' r).rename f' g')) :
    ((Eff.perform (S := DbSig U) o fun r => .exit (res r)).rename f g).rename
        ApiError.problem id =
      ((Eff.perform (S := DbSig U) o fun r => .exit (res' r)).rename f' g').rename
        ApiError.problem id := by
  rw [Eff.rename_perform, Eff.rename_perform, Eff.rename_perform, Eff.rename_perform]
  exact congrArg (Eff.perform (S := DbSig U) o) (funext fun r => congrArg Eff.exit (h r))

variable [Throwable SqlError U]

theorem firstRow_alike {E E' : Type} {f : E → ApiError} {f' : E' → ApiError}
    {rejected missing : E} {rejected' missing' : E'}
    (hrejected : (f rejected).problem = (f' rejected').problem)
    (hmissing : (f missing).problem = (f' missing').problem) (r : Exit SqlError U (List Row)) :
    Alike ((firstRow rejected missing r).rename f .user)
      ((firstRow rejected' missing' r).rename f' .user) := by
  unfold Alike
  cases r with
  | success rows => cases rows <;> simp [firstRow, Exit.rename, Cause.map, hmissing]
  | failure c => by_cases hc : c.Caught <;> simp [firstRow, hc, Exit.rename, Cause.map, hrejected]

theorem allRows_alike {E E' : Type} (f : E → ApiError) (f' : E' → ApiError)
    (r : Exit SqlError U (List Row)) :
    Alike ((allRows r).rename f .list) ((allRows r).rename f' .list) := by
  unfold Alike
  cases r with
  | success rows => rfl
  | failure c => by_cases hc : c.Caught <;> simp [allRows, hc, Exit.rename]

/-- Up to their errors a request and its counterpart are one program. -/
theorem program_toRpc (q : Request) :
    (q.program : DbEff U ApiError Reply).rename ApiError.problem id =
      (q.toRpc.program : DbEff U ApiError Reply).rename ApiError.problem id := by
  cases q with
  | rpcListUsers | rpcGetUser | rpcCreateUser => rfl
  | httpList =>
    rw [Request.toRpc, Request.program, Request.program, http_list_eq, rpc_listUsers_eq]
    exact perform_problem _ (allRows_alike _ _)
  | httpGet id =>
    rw [Request.toRpc, Request.program, Request.program, http_get_eq, rpc_getUser_eq]
    cases (matchNumericId id.val).map parseInt with
    | none => rfl
    | some n => exact perform_problem _ (firstRow_alike rfl rfl)
  | httpCreate payload =>
    rw [Request.toRpc, Request.program, Request.program, http_create_eq, rpc_createUser_eq]
    exact perform_problem _ (firstRow_alike rfl rfl)

/-- Requests that are the same request to the two APIs stand for each other; the
result of a request that stays is not touched. -/
def interchange (U : Type) [Throwable SqlError U] :
    Replacement (usersService U) (usersService U) where
  Replaces q q' := q.toRpc = q'.toRpc
  Results q q' x x' := Alike x x' ∧ (q = q' → x = x')
  similar q q' h := by
    by_cases hq : q = q'
    · subst hq
      exact .refl (fun x => ⟨rfl, fun _ => rfl⟩) _
    · have hprogram : ((usersService U).program q).rename ApiError.problem id =
          ((usersService U).program q').rename ApiError.problem id :=
        (program_toRpc q).trans (h ▸ (program_toRpc q').symm)
      exact (Eff.Similar.of_rename hprogram).mono fun x x' hx => ⟨hx, fun h => absurd h hq⟩
  answers _ _ _ _ h := h

/-- Any requests of a run may be made to the other API instead: there is a run
with the same answers, the same table and the same results. -/
def RunsAlike (U : Type) [Throwable SqlError U] : Prop :=
  ∀ (t₀ : Table) (log : List (ApiEvent U)) (w : ApiState U), ApiRun t₀ log w →
    ∀ requests : Nat → Request,
      (∀ k q, .started k q ∈ log → q.toRpc = (requests k).toRpc) →
      ∃ log' w', ApiRun t₀ log' w' ∧ w'.state = w.state ∧
        List.Forall₂ ((interchange U).SameEvent requests log) log log'

theorem runsAlike (U : Type) [Throwable SqlError U] : RunsAlike U := by
  intro t₀ log w h requests hrequests
  obtain ⟨log', w', h', hsame, hevents⟩ := (interchange U).run requests h hrequests
  exact ⟨log', w', h', hsame.state, hevents⟩

/-- The handlers of the two APIs are equivalent, call by call and in every run. -/
theorem handlers_equivalent (U : Type) [Throwable SqlError U] :
    (∀ (db : TableDb U) (t : Table), CallsAlike db t) ∧ RunsAlike U :=
  ⟨callsAlike, runsAlike U⟩

end Runs

end EffectWorker.Users
