import EffectWorker.Text.Pattern

/-! The schemas of the users endpoints and of the users procedures. A payload
or a path parameter that has been decoded carries the proof that it matches its
pattern; the fields of a user that is about to be encoded carry none, since the
handlers only cast them. -/

namespace EffectWorker.Users

open Text

/-! ## Patterns -/

/-- The class `\s`. -/
def isSpace (c : Char) : Bool :=
  let n := c.toNat
  (9 ≤ n && n ≤ 13) || n == 0x20 || n == 0xa0 || n == 0x1680 || (0x2000 ≤ n && n ≤ 0x200a) ||
    n == 0x2028 || n == 0x2029 || n == 0x202f || n == 0x205f || n == 0x3000 || n == 0xfeff

/-- The class `[^\s@]`. -/
def isAddressChar (c : Char) : Bool := !isSpace c && c != '@'

/-- `/^usr_[a-zA-Z0-9]+$/` -/
def userIdPattern : Pattern := Pattern.lit ['u', 's', 'r', '_'] ++ [.many Char.isAlphanum]

/-- `/^usr_(\d+)$/` -/
def numericIdPattern : Pattern := Pattern.lit ['u', 's', 'r', '_'] ++ [.many Char.isDigit]

/-- `/^[^\s@]+@[^\s@]+\.[^\s@]+$/` -/
def emailPattern : Pattern :=
  [.many isAddressChar, .one (· == '@'), .many isAddressChar, .one (· == '.'),
    .many isAddressChar]

def UserIdSchema (s : String) : Bool := userIdPattern.test s.toList
def EmailSchema (s : String) : Bool := emailPattern.test s.toList

theorem email_noSpace {s : String} (h : EmailSchema s = true) : ' ' ∉ s.toList := by
  intro hspace
  obtain ⟨p, hp, hcls⟩ := Pattern.mem_of_matches ((Pattern.test_iff _ _).mp h) hspace
  have hnone : ∀ p ∈ emailPattern, p.cls ' ' = false := by decide
  rw [hnone p hp] at hcls
  cases hcls

/-- A decoded path parameter. -/
abbrev UserId := { s : String // UserIdSchema s = true }

/-! ## Users -/

structure Date where
  time : Int
  deriving DecidableEq, Repr

structure DateTimeUtc where
  epochMillis : Int
  deriving DecidableEq, Repr

/-- `DateTime.unsafeFromDate`, on a date that is not invalid. -/
def unsafeFromDate (date : Date) : DateTimeUtc := ⟨date.time⟩

structure User where
  id : String
  email : String
  name : String
  createdAt : DateTimeUtc
  deriving DecidableEq, Repr

structure UsersList where
  users : List User
  total : Nat
  deriving DecidableEq, Repr

/-- Encoding through `UserSchema` succeeds: only the two patterns can refuse. -/
def UserSchema.encodes (user : User) : Bool := UserIdSchema user.id && EmailSchema user.email

def UsersListSchema.encodes (list : UsersList) : Bool := list.users.all UserSchema.encodes

/-! ## Payloads -/

/-- A payload decoded by `CreateUserSchema`. -/
structure CreateUser where
  email : String
  name : String
  email_pattern : EmailSchema email = true
  name_minLength : name ≠ ""

/-- A payload decoded by the schema of the `createUser` procedure. -/
structure CreateUserRpc where
  email : String
  name : String
  deriving DecidableEq, Repr

/-! ## Errors -/

inductive HttpError
  | UserCreationError (email : String) (name : String)
  | UserNotFoundError (id : String) (message : String)
  deriving DecidableEq, Repr

inductive RpcError
  | UserNotFound (id : String) (message : String)
  | DuplicateEmail (email : String)
  | ValidationError (message : String)
  deriving DecidableEq, Repr

example : EmailSchema "ann@example.org" = true ∧ EmailSchema "ann" = false := by decide

end EffectWorker.Users
