import ChatServer.Protocol.Size
import ChatServer.Server.Handlers

/-! The answer each request is due, as a function of the request and of the state it
is served in.  Nothing here runs a handler: the text of a request and the state
before it decide. -/

namespace ChatServer

namespace due

inductive Answer : Type
  | refused : String → String → Answer
  | done : Answer
  | registered : Nat → String → Answer
  | session : User → String → Answer
  | stored : Nat → Int → Answer
  | entered : Nat → String → Answer
  | joined : Nat → Answer
  | rooms : List Room → Answer
  | dms : List Message → Answer
  | roomMsgs : List Message → Answer
  | presence : User → Bool → Answer
  | pong : Int → Answer

namespace Answer

def type : Answer → String
  | .refused _ _ => types.kError
  | .pong _ => types.kPong
  | _ => types.kAck

def data (env : Env) : Answer → Fields
  | .refused code message => [("code", .str code), ("message", .str message)]
  | .done => []
  | .registered uid name => [("user_id", .uint uid), ("username", .str name)]
  | .session u token =>
    [("user_id", .uint u.id), ("username", .str u.username), ("token", .str token),
      ("ttl_s", .int (SessionManager.ttlSeconds env))]
  | .stored msgId now => [("msg_id", .uint msgId), ("timestamp", .int now)]
  | .entered rid name => [("room_id", .uint rid), ("name", .str name)]
  | .joined rid => [("room_id", .uint rid)]
  | .rooms rs => [("rooms", .arr (rs.map handlers.roomEntry))]
  | .dms ms => [("messages", .arr (ms.map handlers.dmEntry))]
  | .roomMsgs ms => [("messages", .arr (ms.map handlers.roomMsgEntry))]
  | .presence u online =>
    [("user_id", .uint u.id), ("username", .str u.username), ("online", .bool online),
      ("last_seen", .int u.lastSeenMs)]
  | .pong t => [("t", .int t)]

def json (env : Env) (id : Option Int) : Answer → Json
  | .refused code message => makeError id code message
  | .pong t => handlers.makePong id t
  | a => makeAck id (Fields.assign [] (a.data env))

def fields (env : Env) (id : Option Int) (a : Answer) : Fields :=
  [("type", .str a.type)] ++ optField "id" id ++ a.data env

def size (env : Env) (id : Option Int) (a : Answer) : Nat :=
  1 + ((a.fields env id).map (Json.fieldSize env.showFloat)).sum

section Laws

variable (env : Env) (id : Option Int) (a : Answer)

theorem fields_nodup : ((a.fields env id).map Prod.fst).Nodup := by
  cases a <;> cases id <;> simp [fields, data, optField]

theorem makeAck_perm (h : ((a.fields env id).map Prod.fst).Nodup) (hack : a.type = types.kAck) :
    ∃ fs, makeAck id (Fields.assign [] (a.data env)) = .obj fs ∧ fs.Perm (a.fields env id) := by
  rw [fields, hack] at h ⊢
  have hdata : (Fields.assign [] (a.data env)).Perm (a.data env) := by
    have hnodup := (List.nodup_append.mp (List.map_append ▸ h)).2.1
    simpa using Fields.assign_perm [] (a.data env) (by simpa using hnodup)
  have hall := hdata.append_left ([("type", .str types.kAck)] ++ optField "id" id)
  exact ⟨_, rfl, (Fields.assign_perm _ _ (by rwa [(hall.map Prod.fst).nodup_iff])).trans hall⟩

theorem json_perm : ∃ fs, a.json env id = .obj fs ∧ fs.Perm (a.fields env id) := by
  have hnodup := fields_nodup env id a
  cases a with
  | refused code message =>
    let text : Fields := [("code", .str code), ("message", .str message)]
    let head : Fields := [("type", .str types.kError)]
    have hmoved : (head ++ (text ++ optField "id" id)).Perm (head ++ (optField "id" id ++ text)) :=
      List.perm_append_comm.append_left _
    have hassigned := Fields.assign_perm [] (head ++ (text ++ optField "id" id))
    rw [List.append_nil, (hmoved.map Prod.fst).nodup_iff] at hassigned
    exact ⟨_, rfl, (hassigned hnodup).trans hmoved⟩
  | pong t =>
    have hjson : handlers.makePong id t =
        .obj ((optField "id" id ++ [("t", .int t)]) ++ [("type", .str types.kPong)]) := by
      cases id <;> simp only [handlers.makePong, makeAck, Fields.assign, Fields.set,
        optField, List.foldl, List.cons_append, List.nil_append, List.append_nil, String.reduceLT,
          String.reduceEq, reduceIte]
    exact ⟨_, hjson, List.perm_append_comm⟩
  | _ => exact makeAck_perm env id _ hnodup rfl

theorem size_json : (a.json env id).size env.showFloat = a.size env id := by
  obtain ⟨fs, hjson, hperm⟩ := json_perm env id a
  have hne : fs ≠ [] := by
    rintro rfl
    simp [fields] at hperm
  rw [hjson, Json.size_obj env.showFloat hne, size, (hperm.map _).sum_nat]

theorem json_find {k : String} {v : Json} (h : (k, v) ∈ a.fields env id) :
    (a.json env id).find k = some v := by
  obtain ⟨fs, hjson, hperm⟩ := json_perm env id a
  rw [hjson]
  apply Fields.lookup_of_mem
  · rw [(hperm.map Prod.fst).nodup_iff]
    exact fields_nodup env id a
  · exact hperm.mem_iff.mpr h

theorem json_type : getStr (a.json env id) "type" = a.type := by
  rw [getStr, json_find env id a (v := .str a.type) (by simp [fields])]

theorem json_id (n : Int) : (a.json env (some n)).find "id" = some (.int n) :=
  json_find env (some n) a (by simp [fields, optField])

end Laws

end Answer

def auth (env : Env) (w : World) (c : Nat) (req : Json) : Except String Nat :=
  if (w.conns c).userId ≠ 0 then .ok (w.conns c).userId
  else if getStr req "token" = "" then .error "missing session token"
  else
    match (SessionManager.validate w.sessions (env.clock w.ticks) (getStr req "token")).1 with
    | none => .error "invalid or expired token"
    | some info => .ok info.userId

/-- The state a handler sees after `require_auth`: binding a connection by its token reads
the clock, puts the connection into the slot of the user and, when that brings the user
online with messages waiting, walks over the connections of the user. -/
def authed (env : Env) (w : World) (c : Nat) (req : Json) : World :=
  if (w.conns c).userId ≠ 0 then w
  else
    match auth env w c req with
    | .error _ => w
    | .ok uid =>
      { w with
        ticks := w.ticks + 1
        presence := (Presence.bindSlot w.presence uid c).2
        walks := if w.slot uid = ∅ ∧ (w.store.drainUndelivered uid).1 ≠ [] then w.walks +
          1 else w.walks }

def isMember (w : World) (r u : Nat) : Prop :=
  u ∈ if r ∈ w.rooms.loaded then w.rooms.members r else w.store.members r

instance (w : World) (r u : Nat) : Decidable (isMember w r u) := inferInstanceAs (Decidable (_ ∈ _))

section Handlers

variable (env : Env) (w : World) (req : Json)

def register : Answer :=
  let user := getStr req "username"
  let pass := getStr req "password"
  if user = "" ∨ pass = "" ∨ 64 < user.utf8ByteSize ∨ pass.utf8ByteSize < 4 then
    .refused errcode.kBadRequest "username/password invalid"
  else
    match w.store.usernameIdx.lookup user with
    | some _ => .refused errcode.kConflict "username already taken"
    | none => .registered w.store.nextUserId user

def login : Option Answer :=
  match w.store.findUserByUsername (getStr req "username") with
  | .error _ => none
  | .ok none => some (.refused errcode.kUnauthorized "bad credentials")
  | .ok (some u) =>
    if env.verifyPasswordHash (getStr req "password") u.passwordHash then
      some (.session u (util.hexEncode (env.entropy w.draws 32)))
    else some (.refused errcode.kUnauthorized "bad credentials")

def sent (code message : String) : Answer :=
  if w.store.nextMsgId = 0 then .refused code message
  else .stored w.store.nextMsgId (env.clock (w.ticks + 1))

def sendDm : Answer :=
  let receiver := toU64 (getI64 req "receiver_id" 0)
  let content := getStr req "content"
  if receiver = 0 ∨ content = "" then
    .refused errcode.kBadRequest "receiver_id and content required"
  else if env.maxMessage < content.utf8ByteSize then
    .refused errcode.kBadRequest "content too large"
  else
    match w.store.findUserById receiver with
    | none => .refused errcode.kNotFound "receiver does not exist"
    | some _ => sent env w errcode.kInternal "failed to persist message"

def sendRoom (uid : Nat) : Answer :=
  let room := toU64 (getI64 req "room_id" 0)
  let content := getStr req "content"
  if room = 0 ∨ content = "" then
    .refused errcode.kBadRequest "room_id and content required"
  else if env.maxMessage < content.utf8ByteSize then
    .refused errcode.kBadRequest "content too large"
  else if isMember w room uid then
    sent env w errcode.kBadRequest "not a member of room or room missing"
  else .refused errcode.kBadRequest "not a member of room or room missing"

def createRoom : Option Answer :=
  let name := getStr req "name"
  if name = "" ∨ 128 < name.utf8ByteSize then some (.refused errcode.kBadRequest "invalid name")
  else
    match w.store.roomNameIdx.lookup name with
    | none => some (.entered w.store.nextRoomId name)
    | some rid =>
      match w.store.rooms.lookup rid with
      | none => none
      | some room => some (.entered room.id name)

def joinedRoom (rid : Nat) : Answer :=
  if rid = 0 then .refused errcode.kNotFound "room not found"
  else
    match w.store.rooms.lookup rid with
    | some _ => .joined rid
    | none => .refused errcode.kInternal "join failed"

def joinRoom : Option Answer :=
  let rid := toU64 (getI64 req "room_id" 0)
  let name := getStr req "name"
  if rid = 0 ∧ name ≠ "" then
    match w.store.findRoomByName name with
    | .error _ => none
    | .ok (some r) => some (joinedRoom w r.id)
    | .ok none => some (joinedRoom w rid)
  else some (joinedRoom w rid)

def leaveRoom : Answer :=
  if toU64 (getI64 req "room_id" 0) = 0 then .refused errcode.kBadRequest "room_id required"
  else .done

def listRooms (uid : Nat) : Option Answer :=
  match w.store.listRoomsForUser (env.order w.walks) uid with
  | .error _ => none
  | .ok rooms => some (.rooms rooms)

def historyDm (uid : Nat) : Answer :=
  let other := toU64 (getI64 req "user_id" 0)
  if other = 0 then .refused errcode.kBadRequest "user_id required"
  else
    .dms (w.store.historyDm uid other (toU64 (getI64 req "before_id" 0))
      (toU32 (getI64 req "limit" 50)))

def historyRoom (uid : Nat) : Answer :=
  let room := toU64 (getI64 req "room_id" 0)
  if room = 0 then .refused errcode.kBadRequest "room_id required"
  else if isMember w room uid then
    .roomMsgs (w.store.historyRoom room (toU64 (getI64 req "before_id" 0))
      (toU32 (getI64 req "limit" 50)))
  else .refused errcode.kUnauthorized "not a member of this room"

def presence : Answer :=
  let target := toU64 (getI64 req "user_id" 0)
  if target = 0 then .refused errcode.kBadRequest "user_id required"
  else
    match w.store.findUserById target with
    | none => .refused errcode.kNotFound "user not found"
    | some u => .presence u (Presence.isOnline w.presence u.id)

def acting (c : Nat) (act : World → Nat → Option Answer) : Option Answer :=
  match auth env w c req with
  | .error message => some (.refused errcode.kUnauthorized message)
  | .ok uid => act (authed env w c req) uid

end Handlers

abbrev Reply := World → Nat → Json → Option Answer

def table (env : Env) : List (String × Reply) :=
  [(types.kRegister, fun w _ req => some (register w req)),
   (types.kLogin, fun w _ req => login env w req),
   (types.kLogout, fun _ _ _ => some .done),
   (types.kSendDM, fun w c req => acting env w req c fun w _ => some (sendDm env w req)),
   (types.kSendRoom, fun w c req => acting env w req c fun w uid => some (sendRoom env w req uid)),
   (types.kCreateRoom, fun w c req => acting env w req c fun w _ => createRoom w req),
   (types.kJoinRoom, fun w c req => acting env w req c fun w _ => joinRoom w req),
   (types.kLeaveRoom, fun w c req => acting env w req c fun _ _ => some (leaveRoom req)),
   (types.kListRooms, fun w c req => acting env w req c fun w uid => listRooms env w uid),
   (types.kHistoryDM, fun w c req => acting env w req c fun w uid => some (historyDm w req uid)),
   (types.kHistoryRoom, fun w c req => acting env w req c fun w uid =>
     some (historyRoom w req uid)),
   (types.kPresence, fun w c req => acting env w req c fun w _ => some (presence w req)),
   (types.kPing, fun w _ _ => some (.pong (env.clock w.ticks)))]

def answer (env : Env) (w : World) (c : Nat) (payload : List UInt8) : Answer :=
  match env.parse payload with
  | none => .refused errcode.kBadRequest "malformed JSON"
  | some req =>
    let type := getStr req "type"
    if type = "" then .refused errcode.kBadRequest "missing 'type'"
    else
      match (table env).lookup type with
      | none => .refused errcode.kBadRequest ("unknown type: " ++ type)
      | some f => (f w c req).getD (.refused errcode.kInternal "internal error")

def echo (env : Env) (payload : List UInt8) : Option Int := (env.parse payload).bind requestId

def reply (env : Env) (w : World) (c : Nat) (payload : List UInt8) : Json :=
  (answer env w c payload).json env (echo env payload)

end due

end ChatServer
