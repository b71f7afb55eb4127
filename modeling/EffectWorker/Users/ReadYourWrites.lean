import EffectWorker.Users.Runs

/-! Read your writes, across both APIs and all interleavings. A row is inserted
once, under an id no other row ever has, and never changes, so whoever asks for
that id or for the list afterwards is given that row. -/

namespace EffectWorker.Users

open Effect Text

def Request.IsCreate : Request → Prop
  | .httpCreate _ | .rpcCreateUser _ => True
  | _ => False

def Request.IsList : Request → Prop
  | .httpList | .rpcListUsers => True
  | _ => False

def Request.Gets (id : String) : Request → Prop
  | .httpGet id' => id'.val = id
  | .rpcGetUser id' => id' = id
  | _ => False

section ReadYourWrites

variable {U : Type}

/-- Call `k` is a create that has returned `u`. -/
def CreatedBy (log : List (ApiEvent U)) (k : Nat) (u : User) : Prop :=
  ∃ q, .started k q ∈ log ∧ q.IsCreate ∧ .returned k (.success (.user u)) ∈ log

/-- Call `k` was not answered with a database error. -/
def Undisturbed (log : List (ApiEvent U)) (k : Nat) : Prop :=
  ∀ o c, .answered k o (.failure c) ∉ log

structure ReadsYourWrites (log : List (ApiEvent U)) : Prop where
  get : ∀ before after k u k' q x, log = before ++ .started k' q :: after → CreatedBy before k u →
    q.Gets u.id → Undisturbed log k' → .returned k' x ∈ log → x = .success (.user u)
  list : ∀ before after k u k' q x, log = before ++ .started k' q :: after → CreatedBy before k u →
    q.IsList → Undisturbed log k' → .returned k' x ∈ log →
    ∃ list, x = .success (.list list) ∧ list.users.filter (fun v => v.id = u.id) = [u]
  distinct : ∀ k k' u u', CreatedBy log k u → CreatedBy log k' u' → u.id = u'.id → k = k'
  lists : ∀ k list, .returned k (.success (.list list)) ∈ log →
    (list.users.map User.id).Nodup ∧ (list.users.map User.email).Nodup ∧
      list.total = list.users.length

variable {t₀ : Table} {log before after : List (ApiEvent U)} {w : ApiState U}
  [Throwable SqlError U]

/-- A request that exits with a user was answered with that user's row first. -/
theorem exit_user {q : Request} {r : Exit SqlError U (List Row)} {u : User}
    (h : q.exit r = .success (.user u)) : ∃ row rows, r = .success (row :: rows) ∧
      u = Http.toUser row := by
  cases q with
  | httpList | rpcListUsers =>
    obtain ⟨list, -, hreply⟩ := Exit.rename_eq_success h
    cases hreply
  | httpGet | httpCreate | rpcGetUser | rpcCreateUser =>
    obtain ⟨v, hv, hreply⟩ := Exit.rename_eq_success h
    cases hreply
    exact firstRow_success hv

/-- A request that exits with a list was answered with its rows, or the
database failed and the list is empty. -/
theorem exit_list {q : Request} {r : Exit SqlError U (List Row)} {list : UsersList}
    (h : q.exit r = .success (.list list)) : q.IsList ∧
      ((∃ rows, r = .success rows ∧
        list = { users := rows.map Http.toUser, total := rows.length }) ∨
      (∃ c, r = .failure c ∧ c.Caught) ∧ list = { users := [], total := 0 }) := by
  cases q with
  | httpList | rpcListUsers =>
    obtain ⟨l, hl, hreply⟩ := Exit.rename_eq_success h
    cases hreply
    exact ⟨trivial, allRows_success hl⟩
  | httpGet | httpCreate | rpcGetUser | rpcCreateUser =>
    obtain ⟨v, -, hreply⟩ := Exit.rename_eq_success h
    cases hreply

/-! ## Writes -/

/-- A call that has returned was answered the one statement of its request. -/
theorem returned_cases (h : ApiRun t₀ log w) {k : Nat} {q : Request} (hq : .started k q ∈ log)
    {x : Exit ApiError U Reply} (hx : .returned k x ∈ log) :
    (q.statement = none ∧ ∃ e, x = .failure (.fail e)) ∨
    ∃ o r, q.statement = some o ∧ .answered k o r ∈ log ∧ x = q.exit r := by
  obtain ⟨q', hstarted, hpath⟩ := h.returned hx
  obtain rfl := (hstarted q).mp hq
  rcases program_path_exit hpath with ⟨hnone, -, e, he⟩ | ⟨o, r, ho, htrace, hxr⟩
  · exact .inl ⟨hnone, e, he⟩
  · refine .inr ⟨o, r, ho, mem_callTrace.mp ?_, hxr⟩
    rw [htrace]
    exact List.mem_singleton_self _

/-- A create that has returned `u` inserted the row `u` shows. -/
theorem createdBy_row (h : ApiRun t₀ log w) {k : Nat} {u : User} (hc : CreatedBy log k u) :
    ∃ row email name, u = Http.toUser row ∧
      .answered k (.insert email name) (.success [row]) ∈ log := by
  obtain ⟨q, hq, hcreate, hx⟩ := hc
  rcases returned_cases h hq hx with ⟨-, e, he⟩ | ⟨o, r, ho, hans, hxr⟩
  · cases he
  obtain ⟨row, rows, rfl, hu⟩ := exit_user hxr.symm
  have hinsert : ∃ email name, o = .insert email name := by
    cases q with
    | httpCreate payload | rpcCreateUser payload => exact ⟨_, _, (Option.some.inj ho).symm⟩
    | httpList | httpGet | rpcListUsers | rpcGetUser => exact hcreate.elim
  obtain ⟨email, name, rfl⟩ := hinsert
  obtain ⟨before, after, hlog⟩ := List.append_of_mem hans
  rw [hlog] at h
  obtain ⟨w₁, t', -, hanswer, -, -⟩ := h.answered respects_prefix
  cases hanswer with
  | insert => exact ⟨row, email, name, hu, hans⟩

/-- The id of a row is fresh when the row is inserted. -/
theorem inserted_fresh {k k' : Nat} {email email' name name' : String} {row row' : Row}
    (h : ApiRun t₀ (before ++ .answered k' (.insert email' name') (.success [row']) :: after) w)
    (hans : .answered k (.insert email name) (.success [row]) ∈ before) : row.id ≠ row'.id := by
  obtain ⟨w₁, t', hr, hanswer, -, -⟩ := h.answered respects_prefix
  have hrow : row ∈ w₁.state.rows := inserted_mem hr hans
  cases hanswer with
  | insert _ _ _ haccepts =>
    intro hid
    exact haccepts.fresh (hid ▸ List.mem_map_of_mem hrow)

theorem inserted_unique {k k' : Nat} {email email' name name' : String} {row row' : Row}
    (h : ApiRun t₀ log w) (hans : .answered k (.insert email name) (.success [row]) ∈ log)
    (hans' : .answered k' (.insert email' name') (.success [row']) ∈ log)
    (hid : row.id = row'.id) : k = k' := by
  obtain ⟨before, after, rfl⟩ := List.append_of_mem hans'
  rcases List.mem_append.mp hans with hm | hm
  · exact absurd hid (inserted_fresh h hm)
  rcases List.mem_cons.mp hm with he | hm
  · exact (CallEvent.answered.inj he).1
  · obtain ⟨a, b, rfl⟩ := List.append_of_mem hm
    rw [← List.cons_append, ← List.append_assoc] at h
    exact absurd hid.symm (inserted_fresh h (List.mem_append_right _ List.mem_cons_self))

/-! ## Reads -/

/-- A call is answered after it was started. -/
theorem answered_since {k : Nat} {q : Request} {o : DbOp} {r : Exit SqlError U (List Row)}
    (h : ApiRun t₀ (before ++ .started k q :: after) w)
    (hans : .answered k o r ∈ before ++ .started k q :: after) :
    ∃ rest w₁ t', ApiRun t₀ (before ++ rest) w₁ ∧ Answers w₁.state o r t' := by
  have hafter : .answered k o r ∈ after := by
    rcases List.mem_append.mp hans with hm | hm
    · exact absurd rfl (h.fresh _ hm)
    · rcases List.mem_cons.mp hm with he | hm
      · cases he
      · exact hm
  obtain ⟨a, b, rfl⟩ := List.append_of_mem hafter
  rw [← List.cons_append, ← List.append_assoc] at h
  obtain ⟨w₁, t', hr, hanswers, -, -⟩ := h.answered respects_prefix
  exact ⟨_, w₁, t', hr, hanswers⟩

/-- A call that returns exits by the answer to its statement. -/
theorem returned_answered {k : Nat} {q : Request} {x : Exit ApiError U Reply} {o : DbOp}
    (h : ApiRun t₀ (before ++ .started k q :: after) w) (hq : q.statement = some o)
    (hx : .returned k x ∈ before ++ .started k q :: after) :
    ∃ r, x = q.exit r ∧ .answered k o r ∈ before ++ .started k q :: after := by
  have hstarted : .started k q ∈ before ++ .started k q :: after :=
    List.mem_append_right _ List.mem_cons_self
  rcases returned_cases h hstarted hx with ⟨hnone, -⟩ | ⟨o', r, ho, hans, hxr⟩
  · rw [hnone] at hq
    cases hq
  · rw [hq] at ho
    cases ho
    exact ⟨r, hxr, hans⟩

/-- A read started after a row was inserted is answered from a table that has
the row. -/
theorem read_after {k' : Nat} {q : Request} {x : Exit ApiError U Reply} {o : DbOp} {row : Row}
    (h : ApiRun t₀ (before ++ .started k' q :: after) w)
    (hrow : ∃ k email name, .answered k (.insert email name) (.success [row]) ∈ before)
    (hq : q.statement = some o) (hx : .returned k' x ∈ before ++ .started k' q :: after) :
    ∃ (t t' : Table) (r : Exit SqlError U (List Row)), Answers t o r t' ∧ row ∈ t.rows ∧
      x = q.exit r ∧ .answered k' o r ∈ before ++ .started k' q :: after := by
  obtain ⟨r, hxr, hans⟩ := returned_answered h hq hx
  -- the answer came after the start, hence after the insert
  obtain ⟨rest, w₁, t', hr, hanswer⟩ := answered_since h hans
  obtain ⟨k, email, name, hinsert⟩ := hrow
  exact ⟨w₁.state, t', r, hanswer, inserted_mem hr (List.mem_append_left _ hinsert), hxr, hans⟩

theorem statement_of_gets {q : Request} {row : Row} (hvalid : row.Valid)
    (h : q.Gets (Http.toUser row).id) :
    q.statement = some (.selectWhereId (.finite row.id)) := by
  have hparse := (parseInt_matchNumericId_iff _ hvalid.id_lt).mpr (toUserId_denotes row.id)
  cases q with
  | httpGet id =>
    change id.val = Http.toUserId row.id at h
    rw [Request.statement, h, hparse]
    rfl
  | rpcGetUser id =>
    change id = Http.toUserId row.id at h
    rw [Request.statement, h, hparse]
    rfl
  | httpList | httpCreate | rpcListUsers | rpcCreateUser => exact h.elim

/-- Selecting by id and selecting everything agree on what one id shows. -/
theorem filter_users {t : Table} {rows : List Row} (hperm : rows.Perm t.rows) {row : Row}
    (hrow : row ∈ t.rows) :
    (rows.map Http.toUser).filter (fun v => v.id = (Http.toUser row).id) =
      [Http.toUser row] := by
  have hpred : (fun v : User => decide (v.id = (Http.toUser row).id)) ∘ Http.toUser =
      fun r => decide (Number.finite r.id = .finite row.id) := by
    funext r
    have hinj : Http.toUserId r.id = Http.toUserId row.id ↔ r.id = row.id :=
      toUserId_injective.eq_iff
    simp [Http.toUser, hinj]
  have hone : (rows.filter fun r => Number.finite r.id = .finite row.id) = [row] := by
    have hp := hperm.filter fun r => decide (Number.finite r.id = .finite row.id)
    rw [show t.rows.filter _ = [row] from Table.whereId_of_mem hrow] at hp
    exact List.perm_singleton.mp hp
  rw [List.filter_map, hpred, hone]
  rfl

/-- A user that a create has returned is a row that was inserted before. -/
theorem createdBy_inserted (h : ApiRun t₀ (before ++ after) w) {k : Nat} {u : User}
    (hc : CreatedBy before k u) : ∃ row, u = Http.toUser row ∧ row.Valid ∧
      ∃ k email name, .answered k (.insert email name) (.success [row]) ∈ before := by
  obtain ⟨w₁, hr, -⟩ := h.append_inv
  obtain ⟨row, email, name, hu, hans⟩ := createdBy_row hr hc
  exact ⟨row, hu, w₁.state.valid row (inserted_mem hr hans), k, _, _, hans⟩

theorem statement_of_lists {q : Request} (h : q.IsList) : q.statement = some .select := by
  cases q with
  | httpList | rpcListUsers => rfl
  | httpGet | httpCreate | rpcGetUser | rpcCreateUser => exact h.elim

/-- A get of a created user shows that user. -/
theorem get_after {k k' : Nat} {u : User} {q : Request} {x : Exit ApiError U Reply}
    (h : ApiRun t₀ (before ++ .started k' q :: after) w) (hc : CreatedBy before k u)
    (hgets : q.Gets u.id)
    (hno : Undisturbed (before ++ .started k' q :: after) k')
    (hx : .returned k' x ∈ before ++ .started k' q :: after) : x = .success (.user u) := by
  obtain ⟨row, rfl, hvalid, hins⟩ := createdBy_inserted h hc
  obtain ⟨t, t', r, hanswer, hrow, rfl, hans⟩ :=
    read_after h hins (statement_of_gets hvalid hgets) hx
  cases hanswer with
  | failed _ c => exact absurd hans (hno _ c)
  | selectWhereId =>
    rw [Table.whereId_of_mem hrow]
    cases q with
    | httpGet | rpcGetUser => rfl
    | httpList | httpCreate | rpcListUsers | rpcCreateUser => exact hgets.elim

/-- A list shows a created user exactly once. -/
theorem list_after {k k' : Nat} {u : User} {q : Request} {x : Exit ApiError U Reply}
    (h : ApiRun t₀ (before ++ .started k' q :: after) w) (hc : CreatedBy before k u)
    (hlists : q.IsList)
    (hno : Undisturbed (before ++ .started k' q :: after) k')
    (hx : .returned k' x ∈ before ++ .started k' q :: after) :
    ∃ list, x = .success (.list list) ∧ list.users.filter (fun v => v.id = u.id) = [u] := by
  obtain ⟨row, rfl, -, hins⟩ := createdBy_inserted h hc
  obtain ⟨t, t', r, hanswer, hrow, rfl, hans⟩ := read_after h hins (statement_of_lists hlists) hx
  cases hanswer with
  | failed _ c => exact absurd hans (hno _ c)
  | select rows hperm =>
    refine ⟨{ users := rows.map Http.toUser, total := rows.length }, ?_,
      filter_users hperm hrow⟩
    cases q with
    | httpList | rpcListUsers => rfl
    | httpGet | httpCreate | rpcGetUser | rpcCreateUser => exact hlists.elim

/-- The rows of a table, in any order, make a list without duplicates. -/
theorem listed_nodup {t : Table} {rows : List Row} (hperm : rows.Perm t.rows) :
    ((rows.map Http.toUser).map User.id).Nodup ∧ ((rows.map Http.toUser).map User.email).Nodup := by
  have hids : (rows.map Row.id).Nodup := (hperm.map Row.id).nodup_iff.mpr t.ids_nodup
  have hemails : (rows.map Row.email).Nodup := (hperm.map Row.email).nodup_iff.mpr t.emails_nodup
  constructor
  · rw [List.map_map, show User.id ∘ Http.toUser = Http.toUserId ∘ Row.id from rfl,
      ← List.map_map]
    exact hids.map toUserId_injective
  · rw [List.map_map]
    exact hemails

/-- Every list that is returned is without duplicates, and its total is its length. -/
theorem returned_list {k : Nat} {list : UsersList} (h : ApiRun t₀ log w)
    (hx : .returned k (.success (.list list)) ∈ log) :
    (list.users.map User.id).Nodup ∧ (list.users.map User.email).Nodup ∧
      list.total = list.users.length := by
  obtain ⟨q, hstarted, -⟩ := h.returned hx
  rcases returned_cases h ((hstarted q).mpr rfl) hx with ⟨-, e, he⟩ | ⟨o, r, ho, hans, hxr⟩
  · cases he
  obtain ⟨hlists, ⟨rows, rfl, rfl⟩ | ⟨-, rfl⟩⟩ := exit_list hxr.symm
  · obtain ⟨before, after, rfl⟩ := List.append_of_mem hans
    obtain ⟨w₁, t', -, hanswer, -, -⟩ := h.answered respects_prefix
    rw [statement_of_lists hlists] at ho
    cases ho
    cases hanswer with
    | select _ hperm =>
      obtain ⟨hids, hemails⟩ := listed_nodup hperm
      exact ⟨hids, hemails, by simp⟩
  · exact ⟨List.nodup_nil, List.nodup_nil, rfl⟩

/-- Once a create of either API has returned a user, every later read of either
API that meets no database error shows exactly that user. -/
theorem apiRun_readsYourWrites {t₀ : Table} {log : List (ApiEvent U)} {w : ApiState U}
    (h : ApiRun t₀ log w) :
    ReadsYourWrites log := by
  constructor
  case get =>
    intro before after k u k' q x hlog hc hgets hno hx
    subst hlog
    exact get_after h hc hgets hno hx
  case list =>
    intro before after k u k' q x hlog hc hlists hno hx
    subst hlog
    exact list_after h hc hlists hno hx
  case distinct =>
    intro k k' u u' hc hc' hid
    obtain ⟨row, _, _, rfl, hans⟩ := createdBy_row h hc
    obtain ⟨row', _, _, rfl, hans'⟩ := createdBy_row h hc'
    exact inserted_unique h hans hans' (toUserId_injective hid)
  case lists =>
    intro k list hx
    exact returned_list h hx

/-- Ann is created through one API and listed through the other. -/
def annLog : List (ApiEvent String) :=
  [.started 0 (.rpcCreateUser { email := ann.email, name := ann.name }),
    .answered 0 (.insert ann.email ann.name) (.success [ann]),
    .returned 0 (.success (.user (Http.toUser ann))),
    .started 1 .httpList,
    .answered 1 .select (.success [ann]),
    .returned 1 (.success (.list { users := [Http.toUser ann], total := 1 }))]

theorem annLog_run : ∃ w, ApiRun .empty annLog w := by
  obtain ⟨w₁, h₁, hstate, hcalls⟩ := serve (U := String) .nil (k := 0) rfl
    (q := .rpcCreateUser { email := ann.email, name := ann.name }) rfl
    (.insert .empty ann _ _ ann_accepted ann_stored.1 ann_stored.2)
  obtain ⟨w₂, h₂, -, -⟩ := serve h₁ (k := 1) (hcalls 1 (by decide)) (q := .httpList) rfl
    (.select w₁.state [ann] (by rw [hstate]; exact List.Perm.refl _))
  exact ⟨w₂, h₂⟩

theorem annLog_readsYourWrites : ReadsYourWrites annLog := by
  obtain ⟨w, h⟩ := annLog_run
  exact apiRun_readsYourWrites h

end ReadYourWrites

end EffectWorker.Users
