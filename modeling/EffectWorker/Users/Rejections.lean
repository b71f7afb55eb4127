import EffectWorker.Users.Results

/-! How `createUser` reports that its INSERT was rejected. The database tells
apart a taken email, a value too long for its column and whatever else can go
wrong; the procedure recovers from all of them in one place. -/

namespace EffectWorker.Users

open Effect Text

/-- Why the database rejects the INSERT of a user. -/
inductive Rejection
  /-- The unique constraint of the email. -/
  | uniqueViolation
  | valueTooLong
  | other
  deriving DecidableEq, Repr

inductive InsertOutcome (U : Type)
  | inserted (row : Row)
  | rejected (reason : Rejection) (cause : Cause SqlError U)

section Rejections

variable {U : Type} {t t' : Table} {p : CreateUserRpc}

def InsertOutcome.exit : InsertOutcome U → Exit SqlError U (List Row)
  | .inserted row => .success [row]
  | .rejected _ c => .failure c

/-- Some row has the email, as its column holds it. -/
def Table.Taken (t : Table) (email : String) : Prop :=
  ∃ e, stored email = some e ∧ e ∈ t.rows.map Row.email

/-- The outcomes that the INSERT of a payload may have in a table. -/
def InsertOutcome.Possible (t : Table) (p : CreateUserRpc) : InsertOutcome U → Prop
  | .inserted row => t.Accepts row ∧ stored p.email = some row.email ∧ stored p.name = some row.name
  | .rejected .uniqueViolation c => t.Taken p.email ∧ c.Caught
  | .rejected .valueTooLong c => (tooLong p.email = true ∨ tooLong p.name = true) ∧ c.Caught
  | .rejected .other _ => True

/-- The outcomes are the answers of the database, told apart. -/
theorem possible_iff_answers (t : Table) (p : CreateUserRpc) (r : Exit SqlError U (List Row)) :
    (∃ o : InsertOutcome U, o.Possible t p ∧ o.exit = r) ↔
      ∃ t', Answers t (.insert p.email p.name) r t' := by
  constructor
  · rintro ⟨o, hpossible, rfl⟩
    cases o with
    | inserted row =>
      obtain ⟨haccepts, hemail, hname⟩ := hpossible
      exact ⟨t.insert row haccepts, .insert t row _ _ haccepts hemail hname⟩
    | rejected reason c => exact ⟨t, .failed t _ c⟩
  · rintro ⟨t', hanswer⟩
    generalize ho : DbOp.insert p.email p.name = o at hanswer
    cases hanswer with
    | select | selectWhereId => cases ho
    | insert row email name haccepts hemail hname =>
      obtain ⟨rfl, rfl⟩ := DbOp.insert.inj ho
      exact ⟨.inserted row, ⟨haccepts, hemail, hname⟩, rfl⟩
    | failed _ c => exact ⟨.rejected .other c, trivial, rfl⟩

/-- The caller is told that the email is taken. -/
def IsDuplicate (result : Exit RpcError U User) : Prop :=
  ∃ c email, result = .failure c ∧ c.failureOption = some (.DuplicateEmail email)

/-- Taken emails are reported as such, other rejections as other errors. -/
structure CreateClassified (t : Table) (p : CreateUserRpc) (o : InsertOutcome U)
    (result : Exit RpcError U User) : Prop where
  duplicate : IsDuplicate result ↔ t.Taken p.email ∧ ∃ c, o = .rejected .uniqueViolation c
  rejected : ∀ reason c, o = .rejected reason c → ∃ c', result = .failure c'
  fresh : ¬ t.Taken p.email → ¬ IsDuplicate result

variable [Throwable SqlError U]

theorem run_createUser (p : CreateUserRpc) (o : InsertOutcome U) :
    (Rpc.createUser p).run (fun _ => o.exit) =
      firstRow (.DuplicateEmail p.email) (.ValidationError "Failed to create user") o.exit := by
  rw [rpc_createUser_eq]
  rfl

/-- Every expected database error is reported as a taken email, nothing else is. -/
theorem isDuplicate_iff (p : CreateUserRpc) (o : InsertOutcome U) :
    IsDuplicate ((Rpc.createUser p).run fun _ => o.exit) ↔
      ∃ reason c, o = .rejected reason c ∧ c.Caught := by
  rw [run_createUser]
  constructor
  · rintro ⟨c, email, hresult, herror⟩
    cases o with
    | inserted row => cases hresult
    | rejected reason c₀ =>
      refine ⟨reason, c₀, rfl, ?_⟩
      by_contra hno
      rw [InsertOutcome.exit, firstRow, if_neg hno] at hresult
      cases hresult
      rw [Cause.failureOption_electFailures] at herror
      cases herror
  · rintro ⟨reason, c, rfl, hfail⟩
    refine ⟨.fail (.DuplicateEmail p.email), p.email, ?_, rfl⟩
    rw [InsertOutcome.exit, firstRow, if_pos hfail]

theorem rejected_fails (p : CreateUserRpc) (reason : Rejection) (c : Cause SqlError U) :
    ∃ c', (Rpc.createUser p).run (fun _ => (InsertOutcome.rejected reason c).exit) =
      .failure c' := by
  rw [run_createUser, InsertOutcome.exit, firstRow]
  by_cases hfail : c.Caught
  · exact ⟨_, if_pos hfail⟩
  · exact ⟨_, if_neg hfail⟩

/-- The failures of `createUser` are classified correctly if and only if no
database error other than the violation of the unique email rejects the INSERT. -/
theorem createUser_classified_iff (t : Table) (p : CreateUserRpc) (o : InsertOutcome U)
    (ho : o.Possible t p) :
    CreateClassified t p o ((Rpc.createUser p).run fun _ => o.exit) ↔
      ¬ ∃ reason c, o = .rejected reason c ∧ reason ≠ .uniqueViolation ∧ c.Caught := by
  constructor
  · rintro hclass ⟨reason, c, rfl, hreason, hfail⟩
    obtain ⟨-, c', hsame⟩ := hclass.duplicate.mp
      ((isDuplicate_iff p _).mpr ⟨reason, c, rfl, hfail⟩)
    cases hsame
    exact hreason rfl
  · intro hno
    have hduplicate : IsDuplicate ((Rpc.createUser p).run fun _ => o.exit) ↔
        t.Taken p.email ∧ ∃ c, o = .rejected .uniqueViolation c := by
      rw [isDuplicate_iff]
      constructor
      · rintro ⟨reason, c, rfl, hfail⟩
        cases reason with
        | uniqueViolation => exact ⟨ho.1, c, rfl⟩
        | valueTooLong => exact absurd ⟨_, c, rfl, by decide, hfail⟩ hno
        | other => exact absurd ⟨_, c, rfl, by decide, hfail⟩ hno
      · rintro ⟨-, c, rfl⟩
        exact ⟨.uniqueViolation, c, rfl, ho.2⟩
    constructor
    case duplicate => exact hduplicate
    case rejected =>
      rintro reason c rfl
      exact rejected_fails p reason c
    case fresh =>
      intro hfresh hdup
      exact hfresh (hduplicate.mp hdup).1

end Rejections

/-- A second user with Ann's email. -/
def annAgain : CreateUserRpc where
  email := ann.email
  name := "Anna"

def emailTaken : InsertOutcome String :=
  .rejected .uniqueViolation (.fail ⟨"duplicate key value"⟩)

theorem annAgain_classified : emailTaken.Possible annTable annAgain ∧
    CreateClassified annTable annAgain emailTaken
      ((Rpc.createUser annAgain).run fun _ => emailTaken.exit) := by
  have hpossible : emailTaken.Possible annTable annAgain :=
    ⟨⟨ann.email, ann_stored.1, List.mem_singleton_self _⟩, Cause.caught_fail _⟩
  refine ⟨hpossible, (createUser_classified_iff _ _ _ hpossible).mpr ?_⟩
  rintro ⟨reason, c, hsame, hreason, -⟩
  cases hsame
  exact hreason rfl

/-- A user whose name does not fit its column. -/
def longName : CreateUserRpc where
  email := "bob@example.org"
  name := String.ofList (List.replicate 256 'b')

def nameTooLong : InsertOutcome String := .rejected .valueTooLong (.fail ⟨"value too long"⟩)

/-- The email is fresh, yet it is reported as taken. -/
theorem longName_notClassified : nameTooLong.Possible .empty longName ∧
    ¬ CreateClassified .empty longName nameTooLong
      ((Rpc.createUser longName).run fun _ => nameTooLong.exit) := by
  constructor
  · refine ⟨.inr ?_, Cause.caught_fail _⟩
    rw [tooLong, longName, String.toList_ofList, List.drop_replicate]
    decide
  · intro hclass
    have hfresh : ¬ Table.empty.Taken longName.email := by
      rintro ⟨_, -, hmem⟩
      exact List.not_mem_nil hmem
    exact hclass.fresh hfresh ⟨.fail (.DuplicateEmail longName.email), longName.email, rfl, rfl⟩

end EffectWorker.Users
