import ChatServer.Protocol.Json

namespace ChatServer

namespace types

def kRegister : String := "register"
def kLogin : String := "login"
def kLogout : String := "logout"
def kSendDM : String := "send_dm"
def kSendRoom : String := "send_room"
def kCreateRoom : String := "create_room"
def kJoinRoom : String := "join_room"
def kLeaveRoom : String := "leave_room"
def kListRooms : String := "list_rooms"
def kHistoryDM : String := "history_dm"
def kHistoryRoom : String := "history_room"
def kPresence : String := "presence"
def kPing : String := "ping"
def kEventMessage : String := "event_message"
def kAck : String := "ack"
def kError : String := "error"
def kPong : String := "pong"

end types

namespace errcode

def kBadRequest : String := "bad_request"
def kUnauthorized : String := "unauthorized"
def kNotFound : String := "not_found"
def kConflict : String := "conflict"
def kInternal : String := "internal_error"

end errcode

def Fields.assign (fs : Fields) (as : List (String × Json)) : Fields :=
  as.foldl (fun fs f => Fields.set f.1 f.2 fs) fs

def optField (k : String) : Option Int → List (String × Json)
  | some n => [(k, .int n)]
  | none => []

def makeAck (id : Option Int) (data : Fields) : Json :=
  .obj (Fields.assign data ([("type", .str types.kAck)] ++ optField "id" id))

def makeError (id : Option Int) (code message : String) : Json :=
  .obj (Fields.assign [] ([("type", .str types.kError), ("code", .str code),
    ("message", .str message)] ++ optField "id" id))

def makeEventMessage (msgId senderId : Int) (receiverId roomId : Option Int) (content : String)
    (createdAtMs : Int) : Json :=
  .obj (Fields.assign [] ([("type", .str types.kEventMessage), ("msg_id", .int msgId),
    ("sender_id", .int senderId)] ++ optField "receiver_id" receiverId ++
    optField "room_id" roomId ++ [("content", .str content), ("timestamp", .int createdAtMs)]))

def getStr (j : Json) (k : String) : String :=
  match j.find k with
  | some (.str s) => s
  | _ => ""

def isSpace (c : Char) : Bool :=
  c = ' ' || c = '\t' || c = '\n' || c = '\r' || c.toNat = 11 || c.toNat = 12

def digitsValue (cs : List Char) : Nat :=
  cs.foldl (fun n c => n * 10 + (c.toNat - '0'.toNat)) 0

/-- The standard library's string to integer conversion: leading blanks, a sign
and the longest run of digits.  It throws without digits and out of range. -/
def stoll (s : String) : Option Int :=
  let cs := s.toList.dropWhile isSpace
  let (neg, ds) := match cs with
    | '-' :: r => (true, r)
    | '+' :: r => (false, r)
    | r => (false, r)
  let digits := ds.takeWhile Char.isDigit
  let v : Int := if neg then -(digitsValue digits : Int) else digitsValue digits
  if digits.isEmpty then none
  else if v < -2 ^ 63 ∨ 2 ^ 63 ≤ v then none
  else some v

def getI64 (j : Json) (k : String) (dflt : Int) : Int :=
  match j.find k with
  | none => dflt
  | some (.int n) => n
  | some (.uint n) => toI64 n
  | some (.float b) => floatToI64 b
  | some (.str s) => (stoll s).getD dflt
  | some _ => dflt

def requestId (req : Json) : Option Int :=
  match req.find "id" with
  | some (.int n) => some n
  | some (.uint n) => some (toI64 n)
  | _ => none

namespace Fields

@[simp] theorem lookup_set_self (fs : Fields) (k : String) (v : Json) :
    (Fields.set k v fs).lookup k = some v := by
  induction fs with
  | nil => simp [Fields.set]
  | cons f fs ih =>
    obtain ⟨k', v'⟩ := f
    simp only [Fields.set]
    split
    · simp
    · split
      · simp
      · rename_i hne
        have hb : (k == k') = false := by simpa using hne
        simp [List.lookup_cons, hb, ih]

theorem lookup_set_ne (fs : Fields) {k l : String} (v : Json) (h : l ≠ k) :
    (Fields.set k v fs).lookup l = fs.lookup l := by
  have hb : (l == k) = false := by simpa using h
  induction fs with
  | nil => simp [Fields.set, List.lookup_cons, hb]
  | cons f fs ih =>
    obtain ⟨k', v'⟩ := f
    simp only [Fields.set]
    split
    · simp [List.lookup_cons, hb]
    · split
      · rename_i heq
        subst heq
        simp [List.lookup_cons, hb]
      · simp only [List.lookup_cons, ih]

theorem lookup_assign (fs : Fields) (as : List (String × Json)) (k : String) :
    (Fields.assign fs as).lookup k = (as.reverse.lookup k).or (fs.lookup k) := by
  induction as generalizing fs with
  | nil => rfl
  | cons a as ih =>
    obtain ⟨l, v⟩ := a
    change (Fields.assign (Fields.set l v fs) as).lookup k = _
    rw [ih, List.reverse_cons, List.lookup_append, Option.or_assoc]
    congr 1
    by_cases h : k = l
    · subst h
      simp
    · have hb : (k == l) = false := by simpa using h
      rw [lookup_set_ne _ _ h]
      simp [List.lookup_cons, hb]

end Fields

section Builders

variable (msgId senderId ts : Int) (receiverId roomId : Option Int) (content : String)

theorem event_find (k : String) :
    (makeEventMessage msgId senderId receiverId roomId content ts).find k =
      ([("timestamp", .int ts), ("content", .str content)] ++ optField "room_id" roomId ++
        optField "receiver_id" receiverId ++ [("sender_id", .int senderId), ("msg_id", .int msgId),
        ("type", .str types.kEventMessage)] : Fields).lookup k := by
  simp only [makeEventMessage, Json.find, Fields.lookup_assign]
  cases receiverId <;> cases roomId <;> simp [optField]

theorem event_type :
    getStr (makeEventMessage msgId senderId receiverId roomId content ts) "type" =
      types.kEventMessage := by
  rw [getStr, event_find]
  cases receiverId <;> cases roomId <;> rfl

end Builders

end ChatServer
