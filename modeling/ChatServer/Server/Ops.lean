import ChatServer.Lib.Prog
import ChatServer.Server.World

/-! The atomic operations of the server: every mutex-protected call, every access
to an atomic connection field and every call of `send_frame` is one operation. -/

namespace ChatServer

open Lib

inductive RepoOp : Type
  | findUserById : Nat → RepoOp
  | findUserByUsername : String → RepoOp
  | createUser : String → String → RepoOp
  | updateLastSeen : Nat → Int → RepoOp
  | insertSession : String → Nat → Int → RepoOp
  | deleteSession : String → RepoOp
  | findRoomByName : String → RepoOp
  | createRoom : String → RepoOp
  | joinRoom : Nat → Nat → RepoOp
  | leaveRoom : Nat → Nat → RepoOp
  | listRoomsForUser : Nat → RepoOp
  | listRoomMembers : Nat → RepoOp
  | insertDm : Nat → Nat → String → Int → RepoOp
  | insertRoomMsg : Nat → Nat → String → Int → RepoOp
  | historyDm : Nat → Nat → Nat → Nat → RepoOp
  | historyRoom : Nat → Nat → Nat → RepoOp
  | updateMessageStatus : Nat → Nat → RepoOp
  | enqueueUndelivered : Nat → Nat → RepoOp
  | drainUndelivered : Nat → RepoOp
  deriving DecidableEq

abbrev RepoOp.Ret : RepoOp → Type
  | .findUserById _ => Option User
  | .findUserByUsername _ => Except OutOfRange (Option User)
  | .createUser _ _ => Option Nat
  | .updateLastSeen _ _ => Unit
  | .insertSession _ _ _ => Unit
  | .deleteSession _ => Unit
  | .findRoomByName _ => Except OutOfRange (Option Room)
  | .createRoom _ => Option Nat
  | .joinRoom _ _ => Bool
  | .leaveRoom _ _ => Bool
  | .listRoomsForUser _ => Except OutOfRange (List Room)
  | .listRoomMembers _ => Finset Nat
  | .insertDm _ _ _ _ => Option Nat
  | .insertRoomMsg _ _ _ _ => Option Nat
  | .historyDm _ _ _ _ => List Message
  | .historyRoom _ _ _ => List Message
  | .updateMessageStatus _ _ => Unit
  | .enqueueUndelivered _ _ => Unit
  | .drainUndelivered _ => List Message

inductive Caller : Type
  | deliver | echo | fanOut | replay
  deriving DecidableEq

/-- The place of a `send_frame` call: the reply of a handler, or the loop over the
connections of a user, with the connections the loop has not come to yet. -/
inductive Site : Type
  | reply : Site
  | loop : Caller → Nat → List Nat → Site
  deriving DecidableEq

inductive Op : Type
  | now : Op
  | randomBytes : Nat → Op
  | userId : Nat → Op
  | setUserId : Nat → Nat → Op
  | sessionToken : Nat → Op
  | setSessionToken : Nat → String → Op
  | sendFrame : Site → Nat → Json → Op
  | beginClose : Nat → Op
  | finishClose : Nat → Op
  | cachePut : String → SessionInfo → Op
  | validate : String → Op
  | cacheErase : String → Op
  | bindSlot : Nat → Nat → Op
  | unbindSlot : Nat → Nat → Op
  | connectionsOf : Caller → Nat → Op
  | isOnline : Nat → Op
  | isMember : Nat → Nat → Op
  | membersOf : Nat → Op
  | onJoin : Nat → Nat → Op
  | onLeave : Nat → Nat → Op
  | repo : RepoOp → Op

abbrev Op.Ret : Op → Type
  | .now => Int
  | .randomBytes _ => List UInt8
  | .userId _ => Nat
  | .setUserId _ _ => Unit
  | .sessionToken _ => String
  | .setSessionToken _ _ => Unit
  | .sendFrame _ _ _ => Unit
  | .beginClose _ => Bool
  | .finishClose _ => Bool
  | .cachePut _ _ => Unit
  | .validate _ => Option SessionInfo
  | .cacheErase _ => Unit
  | .bindSlot _ _ => Bool
  | .unbindSlot _ _ => Bool
  | .connectionsOf _ _ => List Nat
  | .isOnline _ => Bool
  | .isMember _ _ => Bool
  | .membersOf _ => List Nat
  | .onJoin _ _ => Unit
  | .onLeave _ _ => Unit
  | .repo o => o.Ret

abbrev Backend := (o : RepoOp) → World → o.Ret × World

def World.setStore (w : World) (s : Store) : World := { w with store := s }

def memory (env : Env) : Backend
  | .findUserById id, w => (w.store.findUserById id, w)
  | .findUserByUsername n, w => (w.store.findUserByUsername n, w)
  | .createUser n h, w =>
    ((w.store.createUser n h (env.clock w.ticks)).1,
      { w with store := (w.store.createUser n h (env.clock w.ticks)).2, ticks := w.ticks + 1 })
  | .updateLastSeen id ts, w => ((), w.setStore (w.store.updateLastSeen id ts))
  | .insertSession tok uid ts, w => ((), w.setStore (w.store.insertSession tok uid ts))
  | .deleteSession tok, w => ((), w.setStore (w.store.deleteSession tok))
  | .findRoomByName n, w => (w.store.findRoomByName n, w)
  | .createRoom n, w =>
    ((w.store.createRoom n (env.clock w.ticks)).1,
      { w with store := (w.store.createRoom n (env.clock w.ticks)).2, ticks := w.ticks + 1 })
  | .joinRoom r u, w => ((w.store.joinRoom r u).1, w.setStore (w.store.joinRoom r u).2)
  | .leaveRoom r u, w => ((w.store.leaveRoom r u).1, w.setStore (w.store.leaveRoom r u).2)
  | .listRoomsForUser u, w =>
    (w.store.listRoomsForUser (env.order w.walks) u, { w with walks := w.walks + 1 })
  | .listRoomMembers r, w => (w.store.members r, w)
  | .insertDm s r c ts, w =>
      ((w.store.insertDm s r c ts).1, w.setStore (w.store.insertDm s r c ts).2)
  | .insertRoomMsg s r c ts, w =>
    ((w.store.insertRoomMsg s r c ts).1, w.setStore (w.store.insertRoomMsg s r c ts).2)
  | .historyDm a b before lim, w => (w.store.historyDm a b before lim, w)
  | .historyRoom r before lim, w => (w.store.historyRoom r before lim, w)
  | .updateMessageStatus id st, w => ((), w.setStore (w.store.updateMessageStatus id st))
  | .enqueueUndelivered mid u, w => ((), w.setStore (w.store.enqueueUndelivered mid u))
  | .drainUndelivered u, w =>
    ((w.store.drainUndelivered u).1, w.setStore (w.store.drainUndelivered u).2)

def ensureLoaded (backend : Backend) (r : Nat) (w : World) : World :=
  if r ∈ w.rooms.loaded then w
  else
    let (ms, w') := backend (.listRoomMembers r) w
    { w' with rooms := w'.rooms.load r ms }

section Exec

variable (env : Env) (backend : Backend)

def exec : (o : Op) → World → o.Ret × World
  | .now, w => (env.clock w.ticks, { w with ticks := w.ticks + 1 })
  | .randomBytes n, w => (env.entropy w.draws n, { w with draws := w.draws + 1 })
  | .userId c, w => ((w.conns c).userId, w)
  | .setUserId c u, w => ((), w.setConn c { w.conns c with userId := u })
  | .sessionToken c, w => ((w.conns c).token, w)
  | .setSessionToken c t, w => ((), w.setConn c { w.conns c with token := t })
  | .sendFrame _ c j, w => ((), w.setConn c ((w.conns c).sendFrame env j))
  | .beginClose c, w => (!(w.conns c).closing, w.setConn c { w.conns c with closing := true })
  | .finishClose c, w => (!(w.conns c).closed, w.setConn c { w.conns c with closed := true })
  | .cachePut t info, w => ((), { w with sessions := w.sessions.insert t info })
  | .validate t, w =>
    ((SessionManager.validate w.sessions (env.clock w.ticks) t).1,
      { w with
        sessions := (SessionManager.validate w.sessions (env.clock w.ticks) t).2
        ticks := w.ticks + 1 })
  | .cacheErase t, w => ((), { w with sessions := w.sessions.erase t })
  | .bindSlot u c, w =>
    ((Presence.bindSlot w.presence u c).1,
      { w with presence := (Presence.bindSlot w.presence u c).2 })
  | .unbindSlot u c, w =>
    ((Presence.unbindSlot w.presence u c).1,
      { w with presence := (Presence.unbindSlot w.presence u c).2 })
  | .connectionsOf _ u, w => (env.order w.walks (w.slot u), { w with walks := w.walks + 1 })
  | .isOnline u, w => (Presence.isOnline w.presence u, w)
  | .isMember r u, w =>
    (u ∈ (ensureLoaded backend r w).rooms.members r, ensureLoaded backend r w)
  | .membersOf r, w =>
    (env.order (ensureLoaded backend r w).walks ((ensureLoaded backend r w).rooms.members r),
      { ensureLoaded backend r w with walks := (ensureLoaded backend r w).walks + 1 })
  | .onJoin r u, w =>
    ((), { ensureLoaded backend r w with rooms := (ensureLoaded backend r w).rooms.join r u })
  | .onLeave r u, w => ((), { w with rooms := w.rooms.onLeave r u })
  | .repo o, w => backend o w

end Exec

end ChatServer
