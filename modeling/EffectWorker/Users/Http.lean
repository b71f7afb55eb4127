import EffectWorker.Users.IdCodec
import EffectWorker.Users.Table

/-! The handlers of the HTTP users group, as programs over the statements they
make. -/

namespace EffectWorker.Users.Http

open Effect Text

variable {U : Type} [Throwable SqlError U]

def toUser (u : Row) : User where
  id := toUserId u.id
  email := u.email
  name := u.name
  createdAt := unsafeFromDate u.createdAt

def list : DbEff U HttpError UsersList :=
  ((statement .select).catchAll fun _ => Eff.succeed []).flatMap fun dbUsers =>
    let userList := dbUsers.map toUser
    Eff.succeed { users := userList, total := userList.length }

def get (id : UserId) : DbEff U HttpError User :=
  match parseUserId id with
  | none => Eff.fail (.UserNotFoundError id.val ("Invalid user ID format: " ++ id.val))
  | some dbId =>
    ((statement (.selectWhereId dbId)).catchAll fun _ =>
      Eff.fail (.UserNotFoundError id.val ("User not found: " ++ id.val))).flatMap fun rows =>
        match rows.head? with
        | none => Eff.fail (.UserNotFoundError id.val ("User not found: " ++ id.val))
        | some dbUser => Eff.succeed (toUser dbUser)

def create (payload : CreateUser) : DbEff U HttpError User :=
  ((statement (.insert payload.email payload.name)).catchAll fun _ =>
    Eff.fail (.UserCreationError payload.email payload.name)).flatMap fun rows =>
      match rows.head? with
      | none => Eff.fail (.UserCreationError payload.email payload.name)
      | some newUser => Eff.succeed (toUser newUser)

end EffectWorker.Users.Http
