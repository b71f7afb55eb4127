import EffectWorker.Users.IdCodec
import EffectWorker.Users.Table

/-! The handlers of the users procedures, as programs over the statements they
make. -/

namespace EffectWorker.Users.Rpc

open Effect Text

variable {U : Type} [Throwable SqlError U]

def toUser (u : Row) : User where
  id := toUserId u.id
  email := u.email
  name := u.name
  createdAt := unsafeFromDate u.createdAt

def getUser (id : String) : DbEff U RpcError User :=
  match parseUserId id with
  | none => Eff.fail (.UserNotFound id ("Invalid user ID format: " ++ id))
  | some dbId =>
    ((statement (.selectWhereId dbId)).catchAll fun _ =>
      Eff.fail (.UserNotFound id ("User not found: " ++ id))).flatMap fun rows =>
        match rows.head? with
        | none => Eff.fail (.UserNotFound id ("User not found: " ++ id))
        | some dbUser => Eff.succeed (toUser dbUser)

def listUsers : DbEff U RpcError UsersList :=
  ((statement .select).catchAll fun _ => Eff.succeed []).flatMap fun dbUsers =>
    Eff.succeed { users := dbUsers.map toUser, total := dbUsers.length }

def createUser (payload : CreateUserRpc) : DbEff U RpcError User :=
  ((statement (.insert payload.email payload.name)).catchAll fun _ =>
    Eff.fail (.DuplicateEmail payload.email)).flatMap fun rows =>
      match rows.head? with
      | none => Eff.fail (.ValidationError "Failed to create user")
      | some newUser => Eff.succeed (toUser newUser)

end EffectWorker.Users.Rpc
