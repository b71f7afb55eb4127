import EffectWorker.Users.Runs
import EffectWorker.Users.Truthful

/-! Whether every stored user can be read through the HTTP API. Its responses
are encoded through the patterns of its own schemas, but rows are also written
by the `createUser` procedure, whose payload schema takes any string for an
email. -/

namespace EffectWorker.Users

open Effect Text

section Readable

variable {U : Type} {t t₀ : Table} {log : List (ApiEvent U)} {w : ApiState U}

/-- The row passes the schema of the HTTP responses. -/
structure Row.Readable (r : Row) : Prop where
  id : UserIdSchema (Http.toUserId r.id) = true
  email : EmailSchema r.email = true

/-- The statements of the read endpoints do not fail. -/
structure Database.Healthy (db : Database U t) : Prop where
  select : ∀ c, db.answer .select ≠ .failure c
  selectWhereId : ∀ n c, db.answer (.selectWhereId n) ≠ .failure c

/-- With a healthy database, `list` and the `get` of every existing row end in
values that can be encoded. -/
structure HttpReadsEncode (U : Type) [Throwable SqlError U] (t : Table) : Prop where
  list : ∀ db : Database U t, db.Healthy →
    ∃ list, Http.list.run db.answer = .success list ∧ UsersListSchema.encodes list = true
  get : ∀ db : Database U t, db.Healthy → ∀ row ∈ t.rows, ∀ id : UserId, Denotes id.val row.id →
    ∃ user, (Http.get id).run db.answer = .success user ∧ UserSchema.encodes user = true

structure UsersReadable (U : Type) [Throwable SqlError U] (t : Table) : Prop where
  rows : ∀ r ∈ t.rows, r.Readable
  reads : HttpReadsEncode U t

theorem encodes_toUser {r : Row} (h : r.Readable) : UserSchema.encodes (Http.toUser r) = true := by
  unfold UserSchema.encodes
  rw [Bool.and_eq_true]
  exact ⟨h.id, h.email⟩

variable [Throwable SqlError U]

theorem httpReadsEncode (h : ∀ r ∈ t.rows, r.Readable) : HttpReadsEncode U t := by
  constructor
  · intro db hdb
    cases hans : db.answer .select with
    | failure c => exact absurd hans (hdb.select c)
    | success rows =>
      refine ⟨{ users := rows.map Http.toUser, total := rows.length }, ?_, ?_⟩
      · rw [http_list_eq]
        change allRows (db.answer .select) = _
        rw [hans]
        rfl
      · refine List.all_eq_true.mpr fun user hu => ?_
        obtain ⟨r, hr, rfl⟩ := List.mem_map.mp hu
        exact encodes_toUser (h r ((db.select_rows hans).subset hr))
  · intro db hdb row hrow id hid
    rw [run_get db id.property hrow hid]
    rcases firstRow_of_mem db hrow
      (HttpError.UserNotFoundError id.val ("User not found: " ++ id.val))
      (HttpError.UserNotFoundError id.val ("User not found: " ++ id.val)) with
      ⟨-, hfirst⟩ | ⟨c, hc, -⟩
    · exact ⟨_, hfirst, encodes_toUser (h row hrow)⟩
    · exact absurd hc (hdb.selectWhereId _ c)

/-- The only source of unreadable rows: every row was written by an HTTP create,
whose payload matched the pattern, or by an RPC create. An email that matches
has no spaces, so its column holds it as it is. -/
theorem row_readable (h : ApiRun .empty log w)
    (hrpc : ∀ k p email name, .started k (.rpcCreateUser p) ∈ log → stored p.email = some email →
      stored p.name = some name → EmailSchema email = true) {row : Row}
    (hrow : row ∈ w.state.rows) : row.Readable := by
  refine ⟨toUserId_schema row.id, ?_⟩
  rcases row_inserted h hrow with hm | ⟨k, q, hq, email, name, hcreates, hemail, hname⟩
  · cases hm
  cases q with
  | httpList | httpGet | rpcListUsers | rpcGetUser => exact hcreates.elim
  | httpCreate payload =>
    obtain ⟨rfl, -⟩ := hcreates
    rw [stored_of_noSpace (email_noSpace payload.email_pattern) hemail]
    exact payload.email_pattern
  | rpcCreateUser payload =>
    obtain ⟨rfl, rfl⟩ := hcreates
    exact hrpc k payload _ _ hq hemail hname

/-- The first row of a table. -/
def firstRowOf (email name : String) : Row where
  id := 1
  email := email
  name := name
  createdAt := ⟨0⟩

theorem firstRowOf_accepted {p : CreateUserRpc} {email name : String}
    (hemail : stored p.email = some email) (hname : stored p.name = some name) :
    Table.empty.Accepts (firstRowOf email name) :=
  ⟨⟨Nat.one_pos, show 1 ≤ 2147483647 by decide, stored_stored hemail, stored_stored hname⟩,
    by simp [Table.empty], by simp [Table.empty]⟩

/-- Any RPC payload that its columns take can become the first row. -/
theorem rpcCreate_run (U : Type) [Throwable SqlError U] {p : CreateUserRpc} {email name : String}
    (hemail : stored p.email = some email) (hname : stored p.name = some name) :
    ∃ log w, ApiRun (U := U) .empty log w ∧ w.state.rows = [firstRowOf email name] ∧
      ∀ k q, .started k q ∈ log → q = .rpcCreateUser p := by
  obtain ⟨w, h, hstate, -⟩ := serve (U := U) .nil (k := 0) rfl (q := .rpcCreateUser p) rfl
    (.insert .empty (firstRowOf email name) _ _ (firstRowOf_accepted hemail hname) hemail hname)
  refine ⟨_, w, h, ?_, fun k q hq => ?_⟩
  · rw [hstate]
    rfl
  · simp only [List.nil_append, List.mem_cons, CallEvent.started.injEq, reduceCtorEq,
      List.not_mem_nil, or_false] at hq
    exact hq.2

/-- In every run from an empty table whose RPC payloads are taken from `P`, all
stored users are readable, if and only if whatever the columns take of `P` has an
email that matches, as it is stored, the pattern of the HTTP API. -/
theorem usersReadable_iff (P : CreateUserRpc → Prop) :
    (∀ (log : List (ApiEvent U)) (w : ApiState U), ApiRun .empty log w →
      (∀ k p, .started k (.rpcCreateUser p) ∈ log → P p) → UsersReadable U w.state) ↔
    ∀ p email name, P p → stored p.email = some email → stored p.name = some name →
      EmailSchema email = true := by
  constructor
  · intro hall p email name hp hemail hname
    obtain ⟨log, w, h, hrows, honly⟩ := rpcCreate_run U hemail hname
    have hreadable := hall log w h fun k p' hp' => by
      cases honly k _ hp'
      exact hp
    have hmem : firstRowOf email name ∈ w.state.rows := by
      rw [hrows]
      exact List.mem_singleton_self _
    exact (hreadable.rows _ hmem).email
  · intro hP log w h hpayloads
    have hrows : ∀ r ∈ w.state.rows, r.Readable := fun r hr =>
      row_readable h (fun k p email name hp => hP p email name (hpayloads k p hp)) hr
    exact ⟨hrows, httpReadsEncode hrows⟩

/-- A database that answers every read from the table. -/
def healthyDatabase (U : Type) (t : Table) : Database U t where
  answer
    | .select => .success t.rows
    | .selectWhereId n => .success (t.whereId n)
    | .insert _ _ => .failure (.fail ⟨"read only"⟩)
  correct := by
    intro o rows h
    cases o with
    | select =>
      cases h
      exact ⟨t, .select t t.rows (List.Perm.refl _)⟩
    | selectWhereId n =>
      cases h
      exact ⟨t, .selectWhereId t n⟩
    | insert _ _ => cases h

theorem healthyDatabase_healthy (U : Type) (t : Table) : (healthyDatabase U t).Healthy := by
  constructor
  · intro c h
    cases h
  · intro n c h
    cases h

/-- An RPC create with the email `bob` leaves a row that breaks the HTTP list. -/
theorem plainEmail_notReadable :
    ∃ (log : List (ApiEvent String)) (w : ApiState String), ApiRun .empty log w ∧
      (∀ k q, .started k q ∈ log → q = .rpcCreateUser { email := "bob", name := "Bob" }) ∧
      ¬ UsersReadable String w.state ∧ ¬ HttpReadsEncode String w.state := by
  have hemail : stored "bob" = some "bob" := by decide
  have hname : stored "Bob" = some "Bob" := by decide
  obtain ⟨log, w, h, hrows, honly⟩ :=
    rpcCreate_run String (p := { email := "bob", name := "Bob" }) hemail hname
  refine ⟨log, w, h, honly, fun hread => ?_, fun hread => ?_⟩
  · have hpattern := (hread.rows _ (by rw [hrows]; exact List.mem_singleton_self _)).email
    exact absurd hpattern (by decide)
  · obtain ⟨list, hlist, hencodes⟩ := hread.list _ (healthyDatabase_healthy String w.state)
    have hlist' : (.success list : Exit HttpError String UsersList) =
        .success { users := w.state.rows.map Http.toUser, total := w.state.rows.length } := by
      rw [← hlist, http_list_eq]
      rfl
    cases hlist'
    rw [hrows] at hencodes
    exact absurd hencodes (by decide)

end Readable

end EffectWorker.Users
