import ChatServer.Protocol.RoundTrip
import ChatServer.Server.Handlers

namespace ChatServer

open Lib

namespace handlers

def handleRequest (env : Env) (c : Nat) (req : Json) : ServerM Unit :=
  let id := requestId req
  let type := getStr req "type"
  if type = "" then send c (makeError id errcode.kBadRequest "missing 'type'")
  else
    match (table env).lookup type with
    | none => send c (makeError id errcode.kBadRequest ("unknown type: " ++ type))
    | some h => (h c req id).tryCatch (send c (makeError id errcode.kInternal "internal error"))

theorem dispatch_eq (env : Env) (c : Nat) (payload : List UInt8) {req : Json}
    (h : env.parse payload = some req) : dispatch env c payload = handleRequest env c req := by
  rw [dispatch, h]
  rfl

theorem dispatch_named {env : Env} {c : Nat} {payload : List UInt8} {req : Json} {type : String}
    {handler : Handler}
    (hreq : env.parse payload = some req) (htype : getStr req "type" = type) (hne : type ≠ "")
    (hl : (table env).lookup type = some handler) :
    dispatch env c payload = (handler c req (requestId req)).tryCatch
      (send c (makeError (requestId req) errcode.kInternal "internal error")) := by
  simp only [dispatch, hreq, htype, hl, if_neg hne]

section Canon

variable {strtod : List UInt8 → UInt64} {showFloat : UInt64 → String} {req : Json}

theorem withAuth_canon (c : Nat) (id : Option Int) (act : Nat → ServerM Unit) :
    withAuth c req.canon id act = withAuth c req id act := by
  rw [withAuth, requireAuth, getStr_canon]
  rfl

theorem table_canon (env : Env) (h : req.Representable strtod showFloat) {type : String}
    {handler : Handler} (hmem : (type, handler) ∈ table env) (c : Nat) (id : Option Int) :
    handler c req.canon id = handler c req id := by
  simp only [table, List.mem_cons, Prod.mk.injEq, List.not_mem_nil, or_false] at hmem
  obtain ⟨-, rfl⟩ | ⟨-, rfl⟩ | ⟨-, rfl⟩ | ⟨-, rfl⟩ | ⟨-, rfl⟩ | ⟨-, rfl⟩ | ⟨-, rfl⟩ | ⟨-, rfl⟩ | ⟨-,
    rfl⟩ | ⟨-, rfl⟩ |
    ⟨-, rfl⟩ | ⟨-, rfl⟩ | ⟨-, rfl⟩ := hmem
  · rw [handleRegister, getStr_canon _ "username", getStr_canon _ "password"]
    rfl
  · rw [handleLogin, getStr_canon _ "username", getStr_canon _ "password"]
    rfl
  · rfl
  · rw [handleSendDm, withAuth_canon, getI64_canon h, getStr_canon]
    rfl
  · rw [handleSendRoom, withAuth_canon, getI64_canon h, getStr_canon]
    rfl
  · rw [handleCreateRoom, withAuth_canon, getStr_canon]
    rfl
  · rw [handleJoinRoom, withAuth_canon, roomOf, getI64_canon h, getStr_canon]
    rfl
  · rw [handleLeaveRoom, withAuth_canon, getI64_canon h]
    rfl
  · rw [handleListRooms, withAuth_canon]
    rfl
  · rw [handleHistoryDm, withAuth_canon, getI64_canon h "user_id", getI64_canon h "before_id",
      getI64_canon h "limit"]
    rfl
  · rw [handleHistoryRoom, withAuth_canon, getI64_canon h "room_id", getI64_canon h "before_id",
      getI64_canon h "limit"]
    rfl
  · rw [handlePresence, withAuth_canon, getI64_canon h]
    rfl
  · rfl

theorem handleRequest_canon (env : Env) (h : req.Representable strtod showFloat) (c : Nat) :
    handleRequest env c req.canon = handleRequest env c req := by
  simp only [handleRequest, requestId_canon h, getStr_canon]
  split
  · rfl
  split
  · rfl
  next handler hlookup =>
    obtain ⟨l, r, htable, -⟩ := List.lookup_eq_some_iff.mp hlookup
    have hmem : (getStr req "type", handler) ∈ table env :=
      htable ▸ List.mem_append_right l (.head r)
    rw [table_canon env h hmem]

theorem dispatch_spelled (env : Env) (henv : env.parse = parse strtod)
    (h : req.Representable strtod showFloat)
    {text : List UInt8} (htext : JsonText strtod text req.canon) (c : Nat) :
    dispatch env c text = handleRequest env c req := by
  rw [dispatch_eq env c text (henv ▸ htext.parse_eq), handleRequest_canon env h]

end Canon

end handlers

end ChatServer
