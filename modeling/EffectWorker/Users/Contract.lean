import EffectWorker.Users.Directory

/-! What the endpoints promise. A call fails with errors that its endpoint
declares, about what the call itself asked for, and what it returns is of the
kind that it was asked for. Two declared cases never come up: a list has no
error of its own, and no INSERT succeeds without its row. -/

namespace EffectWorker.Users

open Effect Text

section Contract

variable {U : Type}

/-- The message of a get that finds nobody. -/
def notFoundMessage (id : String) : String :=
  if (matchNumericId id).isSome then "User not found: " ++ id else "Invalid user ID format: " ++ id

/-- The expected errors of a request. -/
inductive Request.Declares : Request → ApiError → Prop
  | httpGet (id : UserId) :
      Declares (.httpGet id) (.http (.UserNotFoundError id.val (notFoundMessage id.val)))
  | httpCreate (payload : CreateUser) :
      Declares (.httpCreate payload) (.http (.UserCreationError payload.email payload.name))
  | rpcGetUser (id : String) :
      Declares (.rpcGetUser id) (.rpc (.UserNotFound id (notFoundMessage id)))
  | rpcCreateUser (payload : CreateUserRpc) :
      Declares (.rpcCreateUser payload) (.rpc (.DuplicateEmail payload.email))

/-- The replies of a request. -/
inductive Request.Returns : Request → Reply → Prop
  | list {q list} : q.IsList → list.total = list.users.length →
      (∀ u ∈ list.users, UserIdSchema u.id = true) → Returns q (.list list)
  | get {q id u} (n) : q.Gets id → Denotes id n → u.id = Http.toUserId n → Returns q (.user u)
  | create {q u} : q.Stores u.email u.name → UserIdSchema u.id = true → Returns q (.user u)

/-- Encoding through the schema of the error: `UserNotFoundError` has a pattern to pass. -/
def ApiError.encodes : ApiError → Bool
  | .http (.UserNotFoundError id _) => UserIdSchema id
  | .http (.UserCreationError _ _) | .rpc _ => true

theorem declares_encodes {q : Request} {e : ApiError} (h : q.Declares e) : e.encodes = true := by
  cases h with
  | httpGet id => exact id.property
  | httpCreate | rpcGetUser | rpcCreateUser => rfl

/-- The user an HTTP create returns passes the schema of its response. -/
theorem created_encodes {payload : CreateUser} {u : User}
    (h : (Request.httpCreate payload).Returns (.user u)) : UserSchema.encodes u = true := by
  cases h with
  | get n hgets => exact hgets.elim
  | create hstores hid =>
    obtain ⟨email, name, ⟨rfl, -⟩, hemail, -⟩ := hstores
    rw [UserSchema.encodes, Bool.and_eq_true,
      stored_of_noSpace (email_noSpace payload.email_pattern) hemail]
    exact ⟨hid, payload.email_pattern⟩

/-! ## Errors -/

section Errors

variable {E A B : Type}

theorem rename_error {x : Exit E U A} {f : E → ApiError} {g : A → B} {cause : Cause ApiError U}
    {e : ApiError} (h : x.rename f g = .failure cause) (he : cause.failureOption = some e) :
    ∃ cause' error, x = .failure cause' ∧ cause'.failureOption = some error ∧ e = f error := by
  cases x with
  | success a => cases h
  | failure c =>
    cases h
    rw [Cause.failureOption_map, Option.map_eq_some_iff] at he
    obtain ⟨error, herror, hf⟩ := he
    exact ⟨c, error, rfl, herror, hf.symm⟩

variable [Throwable SqlError U]

/-- The error of a first row that is not there. -/
theorem firstRow_error {rejected missing error : E} {r : Exit SqlError U (List Row)}
    {cause : Cause E U} (h : firstRow rejected missing r = .failure cause)
    (he : cause.failureOption = some error) :
    (r = .success [] ∧ error = missing) ∨ ((∃ c, r = .failure c) ∧ error = rejected) := by
  cases r with
  | success rows =>
    cases rows with
    | nil =>
      cases h
      exact .inl ⟨rfl, (Option.some.inj he).symm⟩
    | cons row rows => cases h
  | failure c =>
    rw [firstRow] at h
    by_cases hc : c.Caught
    · rw [if_pos hc] at h
      cases h
      exact .inr ⟨⟨c, rfl⟩, (Option.some.inj he).symm⟩
    · rw [if_neg hc] at h
      cases h
      simp at he

theorem firstRow_sameError {expected error : E} {r : Exit SqlError U (List Row)}
    {cause : Cause E U} (h : firstRow expected expected r = .failure cause)
    (he : cause.failureOption = some error) : error = expected := by
  rcases firstRow_error h he with ⟨-, herror⟩ | ⟨-, herror⟩ <;> exact herror

theorem allRows_error {r : Exit SqlError U (List Row)} {cause : Cause E U}
    (h : allRows r = .failure cause) : cause.failureOption = none := by
  cases r with
  | success rows => cases h
  | failure c =>
    rw [allRows] at h
    by_cases hc : c.Caught
    · rw [if_pos hc] at h
      cases h
    · rw [if_neg hc] at h
      cases h
      simp

end Errors

variable {t t' : Table} {q : Request} {o : DbOp}

theorem notFoundMessage_numeric {id : String} {n : Number}
    (h : (matchNumericId id).map parseInt = some n) :
    notFoundMessage id = "User not found: " ++ id := by
  obtain ⟨digits, hdigits, -⟩ := Option.map_eq_some_iff.mp h
  rw [notFoundMessage, hdigits]
  rfl

theorem notFoundMessage_other {id : String} (h : (matchNumericId id).map parseInt = none) :
    notFoundMessage id = "Invalid user ID format: " ++ id := by
  rw [notFoundMessage, Option.map_eq_none_iff.mp h]
  rfl

theorem insert_answers_row {email name : String} :
    ¬ Answers t (.insert email name) (.success [] : Exit SqlError U (List Row)) t' := by
  generalize hr : (.success [] : Exit SqlError U (List Row)) = r
  intro h
  cases h with
  | insert | failed => cases hr

/-- What a request returns is of its kind. -/
theorem returns_of_serves {d d' : Directory} {reply : Reply}
    (h : d.Serves q (.success reply : Exit ApiError U Reply) d') : q.Returns reply := by
  generalize hx : (.success reply : Exit ApiError U Reply) = x at h
  cases h with
  | misses => cases hx
  | gets hgets hdenotes _ =>
    cases hx
    exact .get _ hgets hdenotes rfl
  | creates hcreates _ _ =>
    cases hx
    exact .create hcreates (toUserId_schema _)
  | lists hlist _ htotal hlisted =>
    cases hx
    refine .list hlist htotal fun u hu => ?_
    obtain ⟨n, p, -, rfl⟩ := (hlisted u).mp hu
    exact toUserId_schema n

variable [Throwable SqlError U]

/-- A request that makes no statement fails with its own error. -/
theorem declares_of_noStatement {e : ApiError} (hq : q.statement = none)
    (hprogram : (q.program : DbEff U ApiError Reply) = .exit (.failure (.fail e))) :
    q.Declares e := by
  rcases noStatement_cases hq hprogram with ⟨id, rfl, hs, rfl⟩ | ⟨id, rfl, hs, rfl⟩
  · rw [← notFoundMessage_other hs]
    exact .httpGet id
  · rw [← notFoundMessage_other hs]
    exact .rpcGetUser id

/-- However a statement is answered, its request fails with its own error, if
with any. -/
theorem declares_of_answers {r : Exit SqlError U (List Row)} (hq : q.statement = some o)
    (h : Answers t o r t') {cause : Cause ApiError U} {e : ApiError}
    (hx : q.exit r = .failure cause) (he : cause.failureOption = some e) : q.Declares e := by
  cases q with
  | httpList | rpcListUsers =>
    obtain ⟨cause', error, hall, herror, -⟩ := rename_error hx he
    rw [allRows_error hall] at herror
    cases herror
  | httpGet id =>
    obtain ⟨n, hn, -⟩ := Option.map_eq_some_iff.mp hq
    obtain ⟨cause', error, hfirst, herror, rfl⟩ := rename_error hx he
    rw [firstRow_sameError hfirst herror, ← notFoundMessage_numeric hn]
    exact .httpGet id
  | rpcGetUser id =>
    obtain ⟨n, hn, -⟩ := Option.map_eq_some_iff.mp hq
    obtain ⟨cause', error, hfirst, herror, rfl⟩ := rename_error hx he
    rw [firstRow_sameError hfirst herror, ← notFoundMessage_numeric hn]
    exact .rpcGetUser id
  | httpCreate payload =>
    obtain ⟨cause', error, hfirst, herror, rfl⟩ := rename_error hx he
    rw [firstRow_sameError hfirst herror]
    exact .httpCreate payload
  | rpcCreateUser payload =>
    obtain ⟨cause', error, hfirst, herror, rfl⟩ := rename_error hx he
    obtain ⟨rfl, -⟩ | ⟨-, rfl⟩ := firstRow_error hfirst herror
    · -- `returning()` gives the row of an INSERT that has succeeded
      cases Option.some.inj hq
      exact (insert_answers_row h).elim
    · exact .rpcCreateUser payload

/-- What a request returns is of its kind, however its statement is answered. -/
theorem returns_of_answers {r : Exit SqlError U (List Row)} (hq : q.statement = some o)
    (h : Answers t o r t') {reply : Reply}
    (hx : q.exit r = (.success reply : Exit ApiError U Reply)) : q.Returns reply := by
  cases r with
  | success rows =>
    have hserves := serves_of_answers hq h
    rw [hx] at hserves
    exact returns_of_serves hserves
  | failure cause =>
    cases reply with
    | user u =>
      obtain ⟨row, rows, hr, -⟩ := exit_user hx
      cases hr
    | list list =>
      obtain ⟨hlist, ⟨rows, hr, -⟩ | ⟨-, rfl⟩⟩ := exit_list hx
      · cases hr
      · exact .list hlist rfl (by simp)

/-! ## Calls -/

/-- The result of a request keeps to what its endpoint promises. -/
structure Request.Conforms (q : Request) (x : Exit ApiError U Reply) : Prop where
  errors : ∀ cause e, x = .failure cause → cause.failureOption = some e → q.Declares e
  replies : ∀ reply, x = .success reply → q.Returns reply

/-- In every run of both APIs each call keeps to its endpoint. -/
theorem returned_conforms {t₀ : Table} {log : List (ApiEvent U)} {w : ApiState U}
    (h : ApiRun t₀ log w) {k : Nat} (hq : .started k q ∈ log) {x : Exit ApiError U Reply}
    (hx : .returned k x ∈ log) : q.Conforms x := by
  obtain ⟨q', hstarted, hpath⟩ := h.returned hx
  obtain rfl := (hstarted q).mp hq
  rcases program_eq (U := U) q with ⟨hnone, e, hprogram⟩ | ⟨o, ho, -⟩
  · change Eff.Path q.program _ _ at hpath
    rw [hprogram] at hpath
    obtain rfl := Eff.exit.inj (Eff.path_exit hpath).2
    refine ⟨fun cause e' hcause he => ?_, fun reply hreply => by cases hreply⟩
    cases hcause
    cases he
    exact declares_of_noStatement hnone hprogram
  · rcases returned_cases h hq hx with ⟨hnone, -⟩ | ⟨o', r, ho', hans, rfl⟩
    · rw [hnone] at ho
      cases ho
    obtain ⟨before, after, hlog⟩ := List.append_of_mem hans
    rw [hlog] at h
    obtain ⟨w₁, t', -, hanswer, -, -⟩ := h.answered respects_prefix
    exact ⟨fun cause e hcause he => declares_of_answers ho' hanswer hcause he,
      fun reply hreply => returns_of_answers ho' hanswer hreply⟩

end Contract

end EffectWorker.Users
