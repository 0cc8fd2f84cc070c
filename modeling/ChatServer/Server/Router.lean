import ChatServer.Server.Ops

namespace ChatServer

open Lib Lib.Prog

abbrev ServerM := Prog Op.Ret

abbrev call (o : Op) : ServerM o.Ret := Prog.call o

namespace util

def hexEncode (bytes : List UInt8) : String :=
  String.ofList (bytes.flatMap fun b =>
    [Json.hexDigit (b.toNat / 16), Json.hexDigit (b.toNat % 16)])

end util

def Message.event (m : Message) : Json :=
  makeEventMessage (toI64 m.id) (toI64 m.senderId) (m.receiverId.map toI64) (m.roomId.map toI64)
    m.content m.createdAtMs

structure Message.CarriedBy (m : Message) (j : Json) : Prop where
  type : j.find "type" = some (.str "event_message")
  msgId : j.find "msg_id" = some (.int (toI64 m.id))
  senderId : j.find "sender_id" = some (.int (toI64 m.senderId))
  receiverId : j.find "receiver_id" = m.receiverId.map fun r => .int (toI64 r)
  roomId : j.find "room_id" = m.roomId.map fun r => .int (toI64 r)
  content : j.find "content" = some (.str m.content)
  timestamp : j.find "timestamp" = some (.int m.createdAtMs)

theorem Message.carriedBy_event (m : Message) : m.CarriedBy m.event := by
  constructor <;> rw [Message.event, event_find] <;>
    cases m.receiverId <;> cases m.roomId <;> rfl

def sendEach (caller : Caller) (uid : Nat) (event : Json) : List Nat → ServerM Unit
  | [] => pure ()
  | c :: cs => do
    call (.sendFrame (.loop caller uid cs) c event)
    sendEach caller uid event cs

namespace MessageRouter

def sendDm (sender receiver : Nat) (content : String) : ServerM Nat := do
  let ts ← call .now
  match ← call (.repo (.insertDm sender receiver content ts)) with
  | none => pure 0
  | some id =>
    let event := makeEventMessage (toI64 id) (toI64 sender) (some (toI64 receiver)) none content ts
    let conns ← call (.connectionsOf .deliver receiver)
    (if conns.isEmpty then call (.repo (.enqueueUndelivered id receiver))
      else do
        sendEach .deliver receiver event conns
        call (.repo (.updateMessageStatus id 1)) : ServerM Unit)
    let own ← call (.connectionsOf .echo sender)
    sendEach .echo sender event own
    pure id

def fanOut (id sender : Nat) (event : Json) : List Nat → ServerM Unit
  | [] => pure ()
  | uid :: uids => do
    let conns ← call (.connectionsOf .fanOut uid)
    (if conns.isEmpty then
        if uid ≠ sender then call (.repo (.enqueueUndelivered id uid)) else pure ()
      else sendEach .fanOut uid event conns : ServerM Unit)
    fanOut id sender event uids

def sendRoom (sender room : Nat) (content : String) : ServerM Nat := do
  if ← call (.isMember room sender) then
    let ts ← call .now
    match ← call (.repo (.insertRoomMsg sender room content ts)) with
    | none => pure 0
    | some id =>
      let event := makeEventMessage (toI64 id) (toI64 sender) none (some (toI64 room)) content ts
      let members ← call (.membersOf room)
      fanOut id sender event members
      pure id
  else pure 0

def replayEach (userId : Nat) (conns : List Nat) : List Message → ServerM Unit
  | [] => pure ()
  | m :: ms => do
    sendEach .replay userId m.event conns
    replayEach userId conns ms

def replayOffline (userId : Nat) : ServerM Unit := do
  let pending ← call (.repo (.drainUndelivered userId))
  if pending.isEmpty then pure ()
  else do
    let conns ← call (.connectionsOf .replay userId)
    if conns.isEmpty then pure () else replayEach userId conns pending

end MessageRouter

def onTransition (uid : Nat) (online : Bool) : ServerM Unit :=
  if online then MessageRouter.replayOffline uid
  else do
    let now ← call .now
    call (.repo (.updateLastSeen uid now))

namespace Presence

def bind (uid c : Nat) : ServerM Bool := do
  let transitioned ← call (.bindSlot uid c)
  (if transitioned then onTransition uid true else pure () : ServerM Unit)
  pure transitioned

def unbind (uid c : Nat) : ServerM Bool := do
  let wentOffline ← call (.unbindSlot uid c)
  (if wentOffline then onTransition uid false else pure () : ServerM Unit)
  pure wentOffline

end Presence

namespace SessionManager

def makeSessionToken : ServerM String := do
  let buf ← call (.randomBytes 32)
  pure (util.hexEncode buf)

def create (env : Env) (userId : Nat) : ServerM String := do
  let token ← makeSessionToken
  let now ← call .now
  call (.cachePut token ⟨userId, now + ttlSeconds env * 1000⟩)
  call (.repo (.insertSession token userId now))
  pure token

def revoke (token : String) : ServerM Unit := do
  call (.cacheErase token)
  call (.repo (.deleteSession token))

end SessionManager

def onClose (c : Nat) : ServerM Unit := do
  let uid ← call (.userId c)
  if uid ≠ 0 then do
    let _ ← Presence.unbind uid c
    pure ()
  else pure ()

namespace Connection

/-- The posted half of a close.  Exceptions of the close callback are swallowed. -/
def deliverClose (c : Nat) : ServerM Unit := do
  let first ← call (.finishClose c)
  if first then (onClose c).tryCatch (pure ()) else pure ()

def close (c : Nat) : ServerM Unit := do
  let first ← call (.beginClose c)
  if first then deliverClose c else pure ()

end Connection

end ChatServer
