import EffectWorker.Effect.Shared
import EffectWorker.Users.Results

/-! Both APIs at work on one table: any number of requests at once, their
statements interleaved in any way. -/

namespace EffectWorker.Users

open Effect Text

inductive Request
  | httpList
  | httpGet (id : UserId)
  | httpCreate (payload : CreateUser)
  | rpcListUsers
  | rpcGetUser (id : String)
  | rpcCreateUser (payload : CreateUserRpc)

inductive ApiError
  | http (error : HttpError)
  | rpc (error : RpcError)
  deriving DecidableEq, Repr

/-- The value of a handler, before it is encoded. -/
inductive Reply
  | user (user : User)
  | list (list : UsersList)
  deriving DecidableEq, Repr

section Runs

variable {U : Type}

def Request.program [Throwable SqlError U] : Request → DbEff U ApiError Reply
  | .httpList => Http.list.rename .http .list
  | .httpGet id => (Http.get id).rename .http .user
  | .httpCreate payload => (Http.create payload).rename .http .user
  | .rpcListUsers => Rpc.listUsers.rename .rpc .list
  | .rpcGetUser id => (Rpc.getUser id).rename .rpc .user
  | .rpcCreateUser payload => (Rpc.createUser payload).rename .rpc .user

def usersService (U : Type) [Throwable SqlError U] :
    Service (DbSig U) Table Request ApiError U Reply where
  program := Request.program
  answers := Answers

abbrev ApiEvent (U : Type) := CallEvent (DbSig U) Request ApiError U Reply
abbrev ApiState (U : Type) := Shared (DbSig U) Table Request ApiError U Reply

/-- A run of both APIs that starts with the table `t₀`. -/
abbrev ApiRun [Throwable SqlError U] (t₀ : Table) (log : List (ApiEvent U)) (w : ApiState U) :
    Prop :=
  (usersService U).Run t₀ log w

/-! ## What a request does -/

/-- The statement the request makes, if its id is numeric. -/
def Request.statement : Request → Option DbOp
  | .httpList | .rpcListUsers => some .select
  | .httpGet id => ((matchNumericId id.val).map parseInt).map .selectWhereId
  | .rpcGetUser id => ((matchNumericId id).map parseInt).map .selectWhereId
  | .httpCreate payload => some (.insert payload.email payload.name)
  | .rpcCreateUser payload => some (.insert payload.email payload.name)

def Request.Creates (email name : String) : Request → Prop
  | .httpCreate payload => payload.email = email ∧ payload.name = name
  | .rpcCreateUser payload => payload.email = email ∧ payload.name = name
  | _ => False

/-- The request creates a user, whose columns hold this email and this name. -/
def Request.Stores (q : Request) (email name : String) : Prop :=
  ∃ email' name', q.Creates email' name' ∧ stored email' = some email ∧ stored name' = some name

theorem creates_of_statement {q : Request} {email name : String}
    (h : q.statement = some (.insert email name)) : q.Creates email name := by
  cases q with
  | httpList | rpcListUsers => cases h
  | httpGet id | rpcGetUser id =>
    obtain ⟨n, -, hsame⟩ := Option.map_eq_some_iff.mp h
    cases hsame
  | httpCreate payload | rpcCreateUser payload => exact DbOp.insert.inj (Option.some.inj h)

variable [Throwable SqlError U]

/-- Its exit, from the exit of its statement. -/
def Request.exit : Request → Exit SqlError U (List Row) → Exit ApiError U Reply
  | .httpList, r => (allRows r : Exit HttpError U _).rename .http .list
  | .httpGet id, r => (firstRow (.UserNotFoundError id.val ("User not found: " ++ id.val))
      (.UserNotFoundError id.val ("User not found: " ++ id.val)) r).rename .http .user
  | .httpCreate payload, r => (firstRow (.UserCreationError payload.email payload.name)
      (.UserCreationError payload.email payload.name) r).rename .http .user
  | .rpcListUsers, r => (allRows r : Exit RpcError U _).rename .rpc .list
  | .rpcGetUser id, r => (firstRow (.UserNotFound id ("User not found: " ++ id))
      (.UserNotFound id ("User not found: " ++ id)) r).rename .rpc .user
  | .rpcCreateUser payload, r => (firstRow (.DuplicateEmail payload.email)
      (.ValidationError "Failed to create user") r).rename .rpc .user

/-- A request makes one statement and exits by it, or it makes none and fails. -/
theorem program_eq (q : Request) :
    (q.statement = none ∧ ∃ e, (q.program : DbEff U ApiError Reply) = .exit (.failure (.fail e))) ∨
    ∃ o, q.statement = some o ∧
      q.program = Eff.perform (S := DbSig U) o fun r => .exit (q.exit r) := by
  cases q with
  | httpList => exact .inr ⟨_, rfl, by rw [Request.program, http_list_eq, Eff.rename_perform]; rfl⟩
  | rpcListUsers =>
    exact .inr ⟨_, rfl, by rw [Request.program, rpc_listUsers_eq, Eff.rename_perform]; rfl⟩
  | httpCreate payload =>
    exact .inr ⟨_, rfl, by rw [Request.program, http_create_eq, Eff.rename_perform]; rfl⟩
  | rpcCreateUser payload =>
    exact .inr ⟨_, rfl, by rw [Request.program, rpc_createUser_eq, Eff.rename_perform]; rfl⟩
  | httpGet id =>
    cases hn : (matchNumericId id.val).map parseInt with
    | none =>
      refine .inl ⟨by rw [Request.statement, hn]; rfl,
        .http (.UserNotFoundError id.val ("Invalid user ID format: " ++ id.val)), ?_⟩
      rw [Request.program, http_get_eq, hn]
      rfl
    | some n =>
      refine .inr ⟨.selectWhereId n, by rw [Request.statement, hn]; rfl, ?_⟩
      rw [Request.program, http_get_eq, hn]
      exact Eff.rename_perform _ _ _ _
  | rpcGetUser id =>
    cases hn : (matchNumericId id).map parseInt with
    | none =>
      refine .inl ⟨by rw [Request.statement, hn]; rfl,
        .rpc (.UserNotFound id ("Invalid user ID format: " ++ id)), ?_⟩
      rw [Request.program, rpc_getUser_eq, hn]
      rfl
    | some n =>
      refine .inr ⟨.selectWhereId n, by rw [Request.statement, hn]; rfl, ?_⟩
      rw [Request.program, rpc_getUser_eq, hn]
      exact Eff.rename_perform _ _ _ _

theorem program_performs {q : Request} {o : DbOp} (hq : q.statement = some o) :
    (q.program : DbEff U ApiError Reply) =
      Eff.perform (S := DbSig U) o fun a => .exit (q.exit a) := by
  rcases program_eq (U := U) q with ⟨hnone, -⟩ | ⟨o', ho, hp⟩
  · rw [hnone] at hq
    cases hq
  · rw [hq] at ho
    cases ho
    exact hp

/-- A request that makes no statement has an id that is not numeric. -/
theorem noStatement_cases {q : Request} {e : ApiError} (hq : q.statement = none)
    (hprogram : (q.program : DbEff U ApiError Reply) = .exit (.failure (.fail e))) :
    (∃ id, q = .httpGet id ∧ (matchNumericId id.val).map parseInt = none ∧
      e = .http (.UserNotFoundError id.val ("Invalid user ID format: " ++ id.val))) ∨
    ∃ id, q = .rpcGetUser id ∧ (matchNumericId id).map parseInt = none ∧
      e = .rpc (.UserNotFound id ("Invalid user ID format: " ++ id)) := by
  cases q with
  | httpList | rpcListUsers | httpCreate | rpcCreateUser => cases hq
  | httpGet id =>
    have hs := Option.map_eq_none_iff.mp hq
    rw [Request.program, http_get_eq, hs] at hprogram
    cases hprogram
    exact .inl ⟨id, rfl, hs, rfl⟩
  | rpcGetUser id =>
    have hs := Option.map_eq_none_iff.mp hq
    rw [Request.program, rpc_getUser_eq, hs] at hprogram
    cases hprogram
    exact .inr ⟨id, rfl, hs, rfl⟩

theorem program_path_exit {q : Request} {as : List (Answered (DbSig U))}
    {x : Exit ApiError U Reply} (h : Eff.Path q.program as (.exit x)) :
    (q.statement = none ∧ as = [] ∧ ∃ e, x = .failure (.fail e)) ∨
    ∃ o r, q.statement = some o ∧ as = [⟨o, r⟩] ∧ x = q.exit r := by
  rcases program_eq (U := U) q with ⟨hnone, e, hp⟩ | ⟨o, ho, hp⟩
  · rw [hp] at h
    obtain ⟨has, hx⟩ := Eff.path_exit h
    exact .inl ⟨hnone, has, e, Eff.exit.inj hx⟩
  · rw [hp] at h
    rcases Eff.path_perform h with ⟨-, hx⟩ | ⟨r, as', rfl, hrest⟩
    · cases hx
    · obtain ⟨rfl, hx⟩ := Eff.path_exit hrest
      exact .inr ⟨o, r, ho, rfl, Eff.exit.inj hx⟩

theorem program_path_perform {q : Request} {as : List (Answered (DbSig U))} {o : DbOp}
    {cont : Exit SqlError U (List Row) → DbEff U ApiError Reply}
    (h : Eff.Path q.program as (Eff.perform (S := DbSig U) o cont)) : q.statement = some o := by
  rcases program_eq (U := U) q with ⟨-, e, hp⟩ | ⟨o', ho, hp⟩
  · rw [hp] at h
    cases (Eff.path_exit h).2
  · rw [hp] at h
    rcases Eff.path_perform h with ⟨-, hx⟩ | ⟨r, as', -, hrest⟩
    · cases hx
      exact ho
    · cases (Eff.path_exit hrest).2

/-! ## What a run does to the table -/

theorem respects_prefix :
    (usersService U).Respects fun t t' : Table => t.rows <+: t'.rows where
  refl _ := List.prefix_rfl
  trans _ _ _ h h' := h.trans h'
  answers _ _ _ _ h := answers_prefix h

variable {t₀ : Table} {log before after : List (ApiEvent U)} {w : ApiState U}

/-- Every new row of the table holds what a create request of the run asked for. -/
theorem row_inserted (h : ApiRun t₀ log w) {row : Row} (hrow : row ∈ w.state.rows) :
    row ∈ t₀.rows ∨
    ∃ k q, .started k q ∈ log ∧ q.Stores row.email row.name := by
  induction h with
  | nil => exact .inl hrow
  | @snoc log w e w' hr hs ih =>
    have old : row ∈ w.state.rows → row ∈ t₀.rows ∨ ∃ k q, .started k q ∈ log ++ [e] ∧
        q.Stores row.email row.name := by
      intro hm
      rcases ih hm with hm | ⟨k, q, hq, hst⟩
      · exact .inl hm
      · exact .inr ⟨k, q, List.mem_append_left _ hq, hst⟩
    cases hs with
    | started | returned => exact old hrow
    | answered k q o cont r s' hcall hans =>
      cases hans with
      | select | selectWhereId | failed => exact old hrow
      | insert row' email name haccepts hemail hname =>
        rcases List.mem_append.mp hrow with hm | hm
        · exact old hm
        · rw [List.mem_singleton] at hm
          subst hm
          have hsound := Service.Run.sound hr k
          rw [hcall] at hsound
          exact .inr ⟨k, q, List.mem_append_left _ ((hsound.1 q).mpr rfl), email, name,
            creates_of_statement (program_path_perform hsound.2.2), hemail, hname⟩

/-- A row whose insert has been answered is in the table from then on. -/
theorem inserted_mem {k : Nat} {email name : String} {row : Row} (h : ApiRun t₀ log w)
    (hans : .answered k (.insert email name) (.success [row]) ∈ log) : row ∈ w.state.rows := by
  obtain ⟨before, after, rfl⟩ := List.append_of_mem hans
  obtain ⟨w₁, t', -, hanswer, hmove, -⟩ := h.answered respects_prefix
  cases hanswer with
  | insert => exact hmove.subset (by simp)

/-- A request that makes a statement can be served at any time, by any answer
the database may give. -/
theorem serve (h : ApiRun t₀ log w) {k : Nat} (hk : w.calls k = .unused) {q : Request} {o : DbOp}
    {r : Exit SqlError U (List Row)} {t : Table} (hq : q.statement = some o)
    (hanswer : Answers w.state o r t) :
    ∃ w', ApiRun t₀ (log ++ [.started k q, .answered k o r, .returned k (q.exit r)]) w' ∧
      w'.state = t ∧ ∀ j, j ≠ k → w'.calls j = w.calls j := by
  have h₁ := Runs.snoc h (.started w k q hk)
  have hcall : Function.update w.calls k (.running q ((usersService U).program q)) k =
      .running q (Eff.perform (S := DbSig U) o fun r => .exit (q.exit r)) := by
    rw [Function.update_self]
    exact congrArg (Call.running q) (program_performs hq)
  have hanswer' : (usersService U).answers w.state o r t := hanswer
  have h₂ := h₁.snoc (.answered _ k q o _ r t hcall hanswer')
  have h₃ := h₂.snoc (.returned _ k q (q.exit r) (Function.update_self ..))
  refine ⟨_, by simpa only [List.append_assoc, List.cons_append, List.nil_append] using h₃, rfl,
    fun j hj => ?_⟩
  simp [Function.update_of_ne hj]

end Runs

end EffectWorker.Users
