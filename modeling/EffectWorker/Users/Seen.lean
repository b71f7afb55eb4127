import EffectWorker.Users.Ledger

/-! What has been seen stays. A user that any call of either API has shown is a
row of the table, so every later read shows the same user, and nobody else can
be created with that email. Results are those of the handlers, before a response
is encoded: the encoding of an HTTP response may still refuse one. -/

namespace EffectWorker.Users

open Effect Text

section Seen

variable {U : Type} {t₀ : Table} {log before after : List (ApiEvent U)} {w : ApiState U}

/-- The result shows the user, alone or in a list. -/
def Shown (u : User) : Exit ApiError U Reply → Prop
  | .success (.user v) => v = u
  | .success (.list list) => u ∈ list.users
  | .failure _ => False

/-- Some call has returned with the user. -/
def Seen (log : List (ApiEvent U)) (u : User) : Prop := ∃ k x, .returned k x ∈ log ∧ Shown u x

/-- The rows there are after a run from `t₀` with the events `log`. -/
def rowsAfter (t₀ : Table) (log : List (ApiEvent U)) : List Row :=
  t₀.rows ++ (insertions log).map Prod.snd

theorem rowsAfter_append {row : Row} (h : row ∈ rowsAfter t₀ before) :
    row ∈ rowsAfter t₀ (before ++ after) := by
  unfold rowsAfter at h ⊢
  rw [insertions_append, List.map_append, ← List.append_assoc]
  exact List.mem_append_left _ h

theorem answers_mem {t t' : Table} {o : DbOp} {rows : List Row}
    (h : Answers t o (.success rows : Exit SqlError U (List Row)) t') {row : Row}
    (hrow : row ∈ rows) : row ∈ t'.rows := by
  cases h with
  | select _ hperm => exact hperm.subset hrow
  | selectWhereId n => exact (Table.mem_whereId.mp hrow).1
  | insert =>
    rw [List.mem_singleton.mp hrow]
    exact List.mem_append_right _ (List.mem_singleton_self _)

variable [Throwable SqlError U]

/-- A result that shows a user comes of an answer with the user's row. -/
theorem shown_row {q : Request} {r : Exit SqlError U (List Row)} {u : User}
    (h : Shown u (q.exit r)) : ∃ rows row, r = .success rows ∧ row ∈ rows ∧
      u = Http.toUser row := by
  cases hx : q.exit r with
  | failure c =>
    rw [hx] at h
    exact h.elim
  | success reply =>
    rw [hx] at h
    cases reply with
    | user v =>
      obtain ⟨row, rows, hr, hu⟩ := exit_user hx
      exact ⟨row :: rows, row, hr, List.mem_cons_self, h ▸ hu⟩
    | list list =>
      obtain ⟨-, ⟨rows, hr, rfl⟩ | ⟨-, rfl⟩⟩ := exit_list hx
      · obtain ⟨row, hrow, hu⟩ := List.mem_map.mp h
        exact ⟨rows, row, hr, hrow, hu.symm⟩
      · cases h

/-- Who has been seen has a row. -/
theorem seen_row (h : ApiRun t₀ log w) {u : User} (hu : Seen log u) :
    ∃ row ∈ rowsAfter t₀ log, u = Http.toUser row := by
  obtain ⟨k, x, hx, hshown⟩ := hu
  obtain ⟨q, hq, -⟩ := h.returned hx
  rcases returned_cases h ((hq q).mpr rfl) hx with ⟨-, e, rfl⟩ | ⟨o, r, -, hans, rfl⟩
  · exact hshown.elim
  obtain ⟨rows, row, rfl, hrow, rfl⟩ := shown_row hshown
  obtain ⟨before, after, rfl⟩ := List.append_of_mem hans
  obtain ⟨w₁, t', -, hanswers, hmove, -⟩ := h.answered respects_prefix
  refine ⟨row, ?_, rfl⟩
  rw [rowsAfter, ← rows_insertions h]
  exact hmove.subset (answers_mem hanswers hrow)

/-- A call is answered from a table that has all the rows there were when it
was started. -/
theorem answer_later {k : Nat} {q : Request} {o : DbOp} {r : Exit SqlError U (List Row)}
    (h : ApiRun t₀ (before ++ .started k q :: after) w)
    (hans : .answered k o r ∈ before ++ .started k q :: after) :
    ∃ t t' : Table, Answers t o r t' ∧ ∀ row ∈ rowsAfter t₀ before, row ∈ t.rows := by
  obtain ⟨rest, w₁, t', hr, hanswers⟩ := answered_since h hans
  refine ⟨w₁.state, t', hanswers, fun row hrow => ?_⟩
  rw [rows_insertions hr]
  exact rowsAfter_append hrow

theorem returned_later {k : Nat} {q : Request} {x : Exit ApiError U Reply} {o : DbOp}
    (h : ApiRun t₀ (before ++ .started k q :: after) w) (hq : q.statement = some o)
    (hx : .returned k x ∈ before ++ .started k q :: after) :
    ∃ (t t' : Table) (r : Exit SqlError U (List Row)), Answers t o r t' ∧ x = q.exit r ∧
      .answered k o r ∈ before ++ .started k q :: after ∧
      ∀ row ∈ rowsAfter t₀ before, row ∈ t.rows := by
  obtain ⟨r, hxr, hans⟩ := returned_answered h hq hx
  obtain ⟨t, t', hanswers, hrows⟩ := answer_later h hans
  exact ⟨t, t', r, hanswers, hxr, hans, hrows⟩

theorem rowsAfter_valid (h : ApiRun t₀ (before ++ after) w) {row : Row}
    (hrow : row ∈ rowsAfter t₀ before) : row.Valid := by
  obtain ⟨w₁, hr, -⟩ := h.append_inv
  rw [rowsAfter, ← rows_insertions hr] at hrow
  exact w₁.state.valid row hrow

theorem seen_before (h : ApiRun t₀ (before ++ after) w) {u : User} (hu : Seen before u) :
    ∃ row ∈ rowsAfter t₀ before, u = Http.toUser row := by
  obtain ⟨w₁, hr, -⟩ := h.append_inv
  exact seen_row hr hu

/-! ## Reads -/

/-- Users once seen are seen by every later read, and all of them were in the
first table or were asked for by a create that had been started. -/
structure ReadsMonotonic (t₀ : Table) (log : List (ApiEvent U)) : Prop where
  get : ∀ before after u k q x, log = before ++ .started k q :: after → Seen before u →
    q.Gets u.id → Undisturbed log k → .returned k x ∈ log → x = .success (.user u)
  list : ∀ before after u k q x, log = before ++ .started k q :: after → Seen before u →
    q.IsList → Undisturbed log k → .returned k x ∈ log →
    ∃ list, x = .success (.list list) ∧ list.users.filter (fun v => v.id = u.id) = [u]
  origin : ∀ u, Seen log u → (∃ row ∈ t₀.rows, u = Http.toUser row) ∨
    ∃ k q, .started k q ∈ log ∧ q.Stores u.email u.name

theorem get_seen {k : Nat} {q : Request} {x : Exit ApiError U Reply} {u : User}
    (h : ApiRun t₀ (before ++ .started k q :: after) w) (hu : Seen before u) (hgets : q.Gets u.id)
    (hno : Undisturbed (before ++ .started k q :: after) k)
    (hx : .returned k x ∈ before ++ .started k q :: after) : x = .success (.user u) := by
  obtain ⟨row, hrow, rfl⟩ := seen_before h hu
  have hstatement := statement_of_gets (rowsAfter_valid h hrow) hgets
  obtain ⟨t, t', r, hanswers, rfl, hans, hrows⟩ := returned_later h hstatement hx
  cases hanswers with
  | failed _ c => exact absurd hans (hno _ c)
  | selectWhereId =>
    rw [Table.whereId_of_mem (hrows row hrow)]
    obtain ⟨s, e, message, -, -, -, -, hfound⟩ := gets_of_selectWhereId (U := U) hstatement
    exact hfound row []

theorem list_seen {k : Nat} {q : Request} {x : Exit ApiError U Reply} {u : User}
    (h : ApiRun t₀ (before ++ .started k q :: after) w) (hu : Seen before u) (hlists : q.IsList)
    (hno : Undisturbed (before ++ .started k q :: after) k)
    (hx : .returned k x ∈ before ++ .started k q :: after) :
    ∃ list, x = .success (.list list) ∧ list.users.filter (fun v => v.id = u.id) = [u] := by
  obtain ⟨row, hrow, rfl⟩ := seen_before h hu
  have hstatement := statement_of_lists hlists
  obtain ⟨t, t', r, hanswers, rfl, hans, hrows⟩ := returned_later h hstatement hx
  cases hanswers with
  | failed _ c => exact absurd hans (hno _ c)
  | select rows hperm =>
    exact ⟨_, (lists_of_select hstatement).2 rows, filter_users hperm (hrows row hrow)⟩

/-- A row that has been seen was there from the start or was asked for. -/
theorem seen_origin (h : ApiRun t₀ log w) {u : User} (hu : Seen log u) :
    (∃ row ∈ t₀.rows, u = Http.toUser row) ∨
      ∃ k q, .started k q ∈ log ∧ q.Stores u.email u.name := by
  obtain ⟨row, hrow, rfl⟩ := seen_row h hu
  rcases List.mem_append.mp hrow with hrow | hrow
  · exact .inl ⟨row, hrow, rfl⟩
  · obtain ⟨⟨k, row⟩, hk, rfl⟩ := List.mem_map.mp hrow
    obtain ⟨q, email, name, hq, hstatement, -, hemail, hname⟩ := insertion_asked h hk
    exact .inr ⟨k, q, hq, email, name, creates_of_statement hstatement, hemail, hname⟩

/-- Reads never go back: a user that any call of either API has shown is shown,
unchanged, by every later read that meets no database error; and nobody is ever
shown whom the first table did not have and no create asked for. -/
theorem apiRun_readsMonotonic {t₀ : Table} {log : List (ApiEvent U)} {w : ApiState U}
    (h : ApiRun t₀ log w) : ReadsMonotonic t₀ log := by
  constructor
  case get =>
    intro before after u k q x hlog hu hgets hno hx
    subst hlog
    exact get_seen h hu hgets hno hx
  case list =>
    intro before after u k q x hlog hu hlists hno hx
    subst hlog
    exact list_seen h hu hlists hno hx
  case origin => exact fun u hu => seen_origin h hu

theorem annLog_readsMonotonic : ReadsMonotonic .empty annLog := by
  obtain ⟨w, h⟩ := annLog_run
  exact apiRun_readsMonotonic h

/-! ## Emails -/

/-- The error of a create that is refused; it names what was asked for. -/
def Request.Refuses : Request → ApiError → Prop
  | .httpCreate payload, e => e = .http (.UserCreationError payload.email payload.name)
  | .rpcCreateUser payload, e => e = .rpc (.DuplicateEmail payload.email)
  | _, _ => False

/-- The email, as its column holds it, belongs to a user of the first table or to
one that has been seen. -/
def EmailTaken (t₀ : Table) (log : List (ApiEvent U)) (email : String) : Prop :=
  ∃ e, stored email = some e ∧ (e ∈ t₀.rows.map Row.email ∨ ∃ u, Seen log u ∧ u.email = e)

structure EmailsOwned (t₀ : Table) (log : List (ApiEvent U)) : Prop where
  distinct : ∀ k k' u u', CreatedBy log k u → CreatedBy log k' u' → u.email = u'.email → k = k'
  refused : ∀ before after k q email name x, log = before ++ .started k q :: after →
    q.Creates email name → EmailTaken t₀ before email → .returned k x ∈ log →
    ∃ c, x = .failure c ∧ ∀ e, c.failureOption = some e → q.Refuses e
  untouched : ∀ before after k q email name row, log = before ++ .started k q :: after →
    q.Creates email name → EmailTaken t₀ before email → (k, row) ∉ insertions log

theorem statement_of_creates {q : Request} {email name : String} (h : q.Creates email name) :
    q.statement = some (.insert email name) := by
  cases q with
  | httpCreate payload | rpcCreateUser payload =>
    obtain ⟨rfl, rfl⟩ := h
    rfl
  | httpList | httpGet | rpcListUsers | rpcGetUser => exact h.elim

theorem emailTaken_row (h : ApiRun t₀ (before ++ after) w) {email : String}
    (ht : EmailTaken t₀ before email) :
    ∃ row ∈ rowsAfter t₀ before, stored email = some row.email := by
  obtain ⟨e, hstored, ht | ⟨u, hu, rfl⟩⟩ := ht
  · obtain ⟨row, hrow, rfl⟩ := List.mem_map.mp ht
    exact ⟨row, List.mem_append_left _ hrow, hstored⟩
  · obtain ⟨row, hrow, rfl⟩ := seen_before h hu
    exact ⟨row, hrow, hstored⟩

/-- A create whose statement fails is refused, or dies with the statement. -/
theorem refuses_of_failure {q : Request} {email name : String} (hq : q.Creates email name)
    (c : Cause SqlError U) : ∃ c', q.exit (.failure c) = .failure c' ∧
      ∀ e, c'.failureOption = some e → q.Refuses e := by
  cases q with
  | httpList | httpGet | rpcListUsers | rpcGetUser => exact hq.elim
  | httpCreate payload | rpcCreateUser payload =>
    by_cases hc : c.Caught
    · simp only [Request.exit, firstRow, if_pos hc]
      refine ⟨_, rfl, fun e he => ?_⟩
      exact (Option.some.inj he).symm
    · simp only [Request.exit, firstRow, if_neg hc]
      refine ⟨_, rfl, fun e he => ?_⟩
      simp at he

/-- An email that is taken cannot be inserted again. -/
theorem insert_refused {k : Nat} {q : Request} {email name : String}
    (h : ApiRun t₀ (before ++ .started k q :: after) w) (ht : EmailTaken t₀ before email)
    {t t' : Table} {r : Exit SqlError U (List Row)} (hanswers : Answers t (.insert email name) r t')
    (hrows : ∀ row ∈ rowsAfter t₀ before, row ∈ t.rows) : ∃ c, r = .failure c := by
  obtain ⟨row, hrow, hemail⟩ := emailTaken_row h ht
  cases hanswers with
  | failed _ c => exact ⟨c, rfl⟩
  | insert row' _ _ haccepts hemail' =>
    have hsame : row.email = row'.email := Option.some.inj (hemail.symm.trans hemail')
    exact absurd (hsame ▸ List.mem_map_of_mem (hrows row hrow)) haccepts.unique

theorem create_refused {k : Nat} {q : Request} {email name : String} {x : Exit ApiError U Reply}
    (h : ApiRun t₀ (before ++ .started k q :: after) w) (hq : q.Creates email name)
    (ht : EmailTaken t₀ before email) (hx : .returned k x ∈ before ++ .started k q :: after) :
    ∃ c, x = .failure c ∧ ∀ e, c.failureOption = some e → q.Refuses e := by
  obtain ⟨t, t', r, hanswers, rfl, -, hrows⟩ := returned_later h (statement_of_creates hq) hx
  obtain ⟨c, rfl⟩ := insert_refused h ht hanswers hrows
  exact refuses_of_failure hq c

theorem create_untouched {k : Nat} {q : Request} {email name : String} {row : Row}
    (h : ApiRun t₀ (before ++ .started k q :: after) w) (hq : q.Creates email name)
    (ht : EmailTaken t₀ before email) :
    (k, row) ∉ insertions (before ++ .started k q :: after) := by
  intro hrow
  obtain ⟨q', _, _, hq', hstatement, hans, -⟩ := insertion_asked h hrow
  obtain rfl := h.started_unique (List.mem_append_right _ List.mem_cons_self) hq'
  rw [statement_of_creates hq] at hstatement
  obtain ⟨rfl, rfl⟩ := DbOp.insert.inj (Option.some.inj hstatement)
  obtain ⟨t, t', hanswers, hrows⟩ := answer_later h hans
  obtain ⟨c, hc⟩ := insert_refused h ht hanswers hrows
  cases hc

/-- An email has one owner: no two creates of either API succeed with the same
email, and a create that is started once somebody has been seen with its email
is refused, inserts nothing, and is told so in the terms of its API. -/
theorem apiRun_emailsOwned {t₀ : Table} {log : List (ApiEvent U)} {w : ApiState U}
    (h : ApiRun t₀ log w) : EmailsOwned t₀ log := by
  constructor
  case distinct =>
    intro k k' u u' hc hc' hemail
    obtain ⟨row, _, _, rfl, hans⟩ := createdBy_row h hc
    obtain ⟨row', _, _, rfl, hans'⟩ := createdBy_row h hc'
    have hsame : row = row' := List.inj_on_of_nodup_map w.state.emails_nodup
      (inserted_mem h hans) (inserted_mem h hans') hemail
    exact inserted_unique h hans hans' (congrArg Row.id hsame)
  case refused =>
    intro before after k q email name x hlog hq ht hx
    subst hlog
    exact create_refused h hq ht hx
  case untouched =>
    intro before after k q email name row hlog hq ht
    subst hlog
    exact create_untouched h hq ht

/-- Once Ann has been listed, a second Ann is refused. -/
def annTwiceLog : List (ApiEvent String) :=
  annLog ++ [.started 2 (.rpcCreateUser { email := ann.email, name := "Anna" }),
    .answered 2 (.insert ann.email "Anna") (.failure (.fail ⟨"duplicate key value"⟩)),
    .returned 2 (.failure (.fail (.rpc (.DuplicateEmail ann.email))))]

theorem annTwiceLog_emailsOwned : EmailsOwned .empty annTwiceLog := by
  obtain ⟨w₁, h₁, hstate, hcalls₁⟩ := serve (U := String) .nil (k := 0) rfl
    (q := .rpcCreateUser { email := ann.email, name := ann.name }) rfl
    (.insert .empty ann _ _ ann_accepted ann_stored.1 ann_stored.2)
  obtain ⟨w₂, h₂, -, hcalls₂⟩ := serve h₁ (k := 1) (hcalls₁ 1 (by decide)) (q := .httpList) rfl
    (.select w₁.state [ann] (by rw [hstate]; exact List.Perm.refl _))
  have hunused : w₂.calls 2 = .unused := (hcalls₂ 2 (by decide)).trans (hcalls₁ 2 (by decide))
  obtain ⟨w₃, h₃, -, -⟩ := serve h₂ hunused
    (q := .rpcCreateUser { email := ann.email, name := "Anna" }) rfl
    (.failed w₂.state _ (.fail ⟨"duplicate key value"⟩))
  exact apiRun_emailsOwned h₃

end Seen

end EffectWorker.Users
