import ChatServer.Lib.Interleave
import ChatServer.Server.Router

namespace ChatServer

open Lib Lib.Prog

namespace handlers

abbrev Handler := Nat → Json → Option Int → ServerM Unit

def send (c : Nat) (j : Json) : ServerM Unit := call (.sendFrame .reply c j)

/-- The user bound to the connection, or else the one its token proves; 0 after an
error reply. -/
def requireAuth (c : Nat) (req : Json) (id : Option Int) : ServerM Nat := do
  let uid ← call (.userId c)
  if uid ≠ 0 then pure uid
  else do
    let tok := getStr req "token"
    if tok = "" then do
      send c (makeError id errcode.kUnauthorized "missing session token")
      pure 0
    else do
      match ← call (.validate tok) with
      | none => do
        send c (makeError id errcode.kUnauthorized "invalid or expired token")
        pure 0
      | some info => do
        call (.setUserId c info.userId)
        call (.setSessionToken c tok)
        let _ ← Presence.bind info.userId c
        pure info.userId

def withAuth (c : Nat) (req : Json) (id : Option Int) (act : Nat → ServerM Unit) :
    ServerM Unit := do
  let uid ← requireAuth c req id
  if uid = 0 then pure () else act uid

def handleRegister (env : Env) : Handler := fun c req id => do
  let user := getStr req "username"
  let pass := getStr req "password"
  if user = "" ∨ pass = "" ∨ 64 < user.utf8ByteSize ∨ pass.utf8ByteSize < 4 then
    send c (makeError id errcode.kBadRequest "username/password invalid")
  else do
    let salt ← call (.randomBytes 16)
    let hash := env.makePasswordHash pass env.pbkdf2Iter salt
    match ← call (.repo (.createUser user hash)) with
    | none => send c (makeError id errcode.kConflict "username already taken")
    | some newId =>
      send c (makeAck id (Fields.assign [] [("user_id", .uint newId), ("username", .str user)]))

def loginReply (env : Env) (id : Option Int) (u : User) (token : String) : Json :=
  makeAck id (Fields.assign [] [("user_id", .uint u.id), ("username", .str u.username),
    ("token", .str token), ("ttl_s", .int (SessionManager.ttlSeconds env))])

def handleLogin (env : Env) : Handler := fun c req id => do
  let user := getStr req "username"
  let pass := getStr req "password"
  match ← call (.repo (.findUserByUsername user)) with
  | .error _ => .throw
  | .ok none => send c (makeError id errcode.kUnauthorized "bad credentials")
  | .ok (some u) =>
    if env.verifyPasswordHash pass u.passwordHash then do
      let token ← SessionManager.create env u.id
      call (.setUserId c u.id)
      call (.setSessionToken c token)
      let _ ← Presence.bind u.id c
      send c (loginReply env id u token)
    else send c (makeError id errcode.kUnauthorized "bad credentials")

def handleLogout : Handler := fun c _ id => do
  let tok ← call (.sessionToken c)
  (if tok ≠ "" then SessionManager.revoke tok else pure () : ServerM Unit)
  let uid ← call (.userId c)
  (if uid ≠ 0 then do
      let _ ← Presence.unbind uid c
      pure ()
    else pure () : ServerM Unit)
  call (.setUserId c 0)
  call (.setSessionToken c "")
  send c (makeAck id [])

def sentReply (id : Option Int) (msgId : Nat) (now : Int) : Json :=
  makeAck id (Fields.assign [] [("msg_id", .uint msgId), ("timestamp", .int now)])

def handleSendDm (env : Env) : Handler := fun c req id =>
  withAuth c req id fun sender => do
    let receiver := toU64 (getI64 req "receiver_id" 0)
    let content := getStr req "content"
    if receiver = 0 ∨ content = "" then
      send c (makeError id errcode.kBadRequest "receiver_id and content required")
    else if env.maxMessage < content.utf8ByteSize then
      send c (makeError id errcode.kBadRequest "content too large")
    else do
      match ← call (.repo (.findUserById receiver)) with
      | none => send c (makeError id errcode.kNotFound "receiver does not exist")
      | some _ => do
        let msgId ← MessageRouter.sendDm sender receiver content
        if msgId = 0 then
          send c (makeError id errcode.kInternal "failed to persist message")
        else do
          let now ← call .now
          send c (sentReply id msgId now)

def handleSendRoom (env : Env) : Handler := fun c req id =>
  withAuth c req id fun sender => do
    let room := toU64 (getI64 req "room_id" 0)
    let content := getStr req "content"
    if room = 0 ∨ content = "" then
      send c (makeError id errcode.kBadRequest "room_id and content required")
    else if env.maxMessage < content.utf8ByteSize then
      send c (makeError id errcode.kBadRequest "content too large")
    else do
      let msgId ← MessageRouter.sendRoom sender room content
      if msgId = 0 then
        send c (makeError id errcode.kBadRequest "not a member of room or room missing")
      else do
        let now ← call .now
        send c (sentReply id msgId now)

def enterRoom (c : Nat) (id : Option Int) (name : String) (rid uid : Nat) : ServerM Unit := do
  let _ ← call (.repo (.joinRoom rid uid))
  call (.onJoin rid uid)
  send c (makeAck id (Fields.assign [] [("room_id", .uint rid), ("name", .str name)]))

def handleCreateRoom : Handler := fun c req id =>
  withAuth c req id fun uid => do
    let name := getStr req "name"
    if name = "" ∨ 128 < name.utf8ByteSize then
      send c (makeError id errcode.kBadRequest "invalid name")
    else do
      match ← call (.repo (.createRoom name)) with
      | some rid => enterRoom c id name rid uid
      | none => do
        match ← call (.repo (.findRoomByName name)) with
        | .error _ => .throw
        | .ok (some existing) => enterRoom c id name existing.id uid
        | .ok none => send c (makeError id errcode.kInternal "create_room failed")

def roomOf (req : Json) : ServerM Nat := do
  let rid := toU64 (getI64 req "room_id" 0)
  let name := getStr req "name"
  if rid = 0 ∧ name ≠ "" then do
    match ← call (.repo (.findRoomByName name)) with
    | .error _ => .throw
    | .ok (some r) => pure r.id
    | .ok none => pure rid
  else pure rid

def handleJoinRoom : Handler := fun c req id =>
  withAuth c req id fun uid => do
    let rid ← roomOf req
    if rid = 0 then send c (makeError id errcode.kNotFound "room not found")
    else do
      if ← call (.repo (.joinRoom rid uid)) then do
        call (.onJoin rid uid)
        send c (makeAck id (Fields.assign [] [("room_id", .uint rid)]))
      else send c (makeError id errcode.kInternal "join failed")

def handleLeaveRoom : Handler := fun c req id =>
  withAuth c req id fun uid => do
    let rid := toU64 (getI64 req "room_id" 0)
    if rid = 0 then send c (makeError id errcode.kBadRequest "room_id required")
    else do
      let _ ← call (.repo (.leaveRoom rid uid))
      call (.onLeave rid uid)
      send c (makeAck id [])

def roomEntry (r : Room) : Json :=
  .obj (Fields.assign [] [("id", .uint r.id), ("name", .str r.name),
    ("created_at", .int r.createdAtMs)])

def handleListRooms : Handler := fun c req id =>
  withAuth c req id fun uid => do
    match ← call (.repo (.listRoomsForUser uid)) with
    | .error _ => .throw
    | .ok rooms =>
      send c (makeAck id (Fields.assign [] [("rooms", .arr (rooms.map roomEntry))]))

def historyEntry (target : List (String × Json)) (m : Message) : Json :=
  .obj (Fields.assign [] ([("id", .uint m.id), ("sender_id", .uint m.senderId)] ++ target ++
    [("content", .str m.content), ("status", .uint m.status), ("timestamp", .int m.createdAtMs)]))

def dmEntry (m : Message) : Json :=
  historyEntry (match m.receiverId with
    | some r => [("receiver_id", .uint r)]
    | none => []) m

def roomMsgEntry (m : Message) : Json :=
  historyEntry (match m.roomId with
    | some r => [("room_id", .uint r)]
    | none => []) m

def historyReply (id : Option Int) (entries : List Json) : Json :=
  makeAck id (Fields.assign [] [("messages", .arr entries)])

def handleHistoryDm : Handler := fun c req id =>
  withAuth c req id fun uid => do
    let other := toU64 (getI64 req "user_id" 0)
    let before := toU64 (getI64 req "before_id" 0)
    let limit := toU32 (getI64 req "limit" 50)
    if other = 0 then send c (makeError id errcode.kBadRequest "user_id required")
    else do
      let msgs ← call (.repo (.historyDm uid other before limit))
      send c (historyReply id (msgs.map dmEntry))

def handleHistoryRoom : Handler := fun c req id =>
  withAuth c req id fun uid => do
    let room := toU64 (getI64 req "room_id" 0)
    let before := toU64 (getI64 req "before_id" 0)
    let limit := toU32 (getI64 req "limit" 50)
    if room = 0 then send c (makeError id errcode.kBadRequest "room_id required")
    else do
      if ← call (.isMember room uid) then do
        let msgs ← call (.repo (.historyRoom room before limit))
        send c (historyReply id (msgs.map roomMsgEntry))
      else send c (makeError id errcode.kUnauthorized "not a member of this room")

def handlePresence : Handler := fun c req id =>
  withAuth c req id fun _ => do
    let target := toU64 (getI64 req "user_id" 0)
    if target = 0 then send c (makeError id errcode.kBadRequest "user_id required")
    else do
      match ← call (.repo (.findUserById target)) with
      | none => send c (makeError id errcode.kNotFound "user not found")
      | some u => do
        let online ← call (.isOnline u.id)
        send c (makeAck id (Fields.assign [] [("user_id", .uint u.id),
          ("username", .str u.username), ("online", .bool online),
            ("last_seen", .int u.lastSeenMs)]))

def makePong (id : Option Int) (now : Int) : Json :=
  match makeAck id (Fields.assign [] [("t", .int now)]) with
  | .obj fs => .obj (Fields.set "type" (.str types.kPong) fs)
  | j => j

def handlePing : Handler := fun c _ id => do
  let now ← call .now
  send c (makePong id now)

def table (env : Env) : List (String × Handler) :=
  [(types.kRegister, handleRegister env),
   (types.kLogin, handleLogin env),
   (types.kLogout, handleLogout),
   (types.kSendDM, handleSendDm env),
   (types.kSendRoom, handleSendRoom env),
   (types.kCreateRoom, handleCreateRoom),
   (types.kJoinRoom, handleJoinRoom),
   (types.kLeaveRoom, handleLeaveRoom),
   (types.kListRooms, handleListRooms),
   (types.kHistoryDM, handleHistoryDm),
   (types.kHistoryRoom, handleHistoryRoom),
   (types.kPresence, handlePresence),
   (types.kPing, handlePing)]

def dispatch (env : Env) (c : Nat) (payload : List UInt8) : ServerM Unit :=
  match env.parse payload with
  | none => send c (makeError none errcode.kBadRequest "malformed JSON")
  | some req =>
    let id := requestId req
    let type := getStr req "type"
    if type = "" then send c (makeError id errcode.kBadRequest "missing 'type'")
    else
      match (table env).lookup type with
      | none => send c (makeError id errcode.kBadRequest ("unknown type: " ++ type))
      | some h => (h c req id).tryCatch (send c (makeError id errcode.kInternal "internal error"))

end handlers

/-- What reaches the server: a frame of a connection, handed to a worker, or the
close of a connection, run by the reactor. -/
inductive Input : Type
  | request : Nat → List UInt8 → Input
  | close : Nat → Input
  deriving DecidableEq

def Input.conn : Input → Nat
  | .request c _ => c
  | .close c => c

def body (env : Env) : Input → ServerM Unit
  | .request c payload => handlers.dispatch env c payload
  | .close c => Connection.close c

end ChatServer
