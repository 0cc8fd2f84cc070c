import Mathlib.Data.Finset.Basic
import Mathlib.Data.Finset.Insert
import Mathlib.Data.List.AList

/-! The in-memory backing store of `Repositories`.  Hash maps are association
lists with distinct keys and hash sets are finite sets; the order in which they
are iterated is supplied by the caller. -/

namespace ChatServer

abbrev Dict (K V : Type) := AList (fun _ : K => V)

inductive OutOfRange : Type
  | missing : OutOfRange
  deriving DecidableEq

structure User where
  id : Nat
  username : String
  passwordHash : String
  createdAtMs : Int
  lastSeenMs : Int
  deriving DecidableEq

structure SessionRow where
  token : String
  userId : Nat
  lastActiveMs : Int
  deriving DecidableEq

structure Room where
  id : Nat
  name : String
  createdAtMs : Int
  deriving DecidableEq

structure Message where
  id : Nat
  senderId : Nat
  receiverId : Option Nat
  roomId : Option Nat
  content : String
  status : Nat
  createdAtMs : Int
  deriving DecidableEq

structure Store where
  nextUserId : Nat
  nextRoomId : Nat
  nextMsgId : Nat
  users : Dict Nat User
  usernameIdx : Dict String Nat
  sessions : List SessionRow
  rooms : Dict Nat Room
  roomNameIdx : Dict String Nat
  roomMembers : Dict Nat (Finset Nat)
  messages : List Message
  undelivered : Dict Nat (List Nat)

namespace Store

def empty : Store := ⟨1, 1, 1, ∅, ∅, [], ∅, ∅, ∅, [], ∅⟩

def findUserById (s : Store) (id : Nat) : Option User := s.users.lookup id

def findUserByUsername (s : Store) (n : String) : Except OutOfRange (Option User) :=
  match s.usernameIdx.lookup n with
  | none => .ok none
  | some id =>
    match s.users.lookup id with
    | some u => .ok (some u)
    | none => .error .missing

def createUser (s : Store) (n h : String) (now : Int) : Option Nat × Store :=
  match s.usernameIdx.lookup n with
  | some _ => (none, s)
  | none =>
    (some s.nextUserId, { s with
      nextUserId := s.nextUserId + 1
      users := s.users.insert s.nextUserId ⟨s.nextUserId, n, h, now, 0⟩
      usernameIdx := s.usernameIdx.insert n s.nextUserId })

def updateLastSeen (s : Store) (id : Nat) (ts : Int) : Store :=
  match s.users.lookup id with
  | some u => { s with users := s.users.insert id { u with lastSeenMs := ts } }
  | none => s

def upsertSession (tok : String) (uid : Nat) (ts : Int) : List SessionRow → List SessionRow
  | [] => [⟨tok, uid, ts⟩]
  | r :: rs =>
    if r.token = tok then { r with userId := uid, lastActiveMs := ts } :: rs
    else r :: upsertSession tok uid ts rs

def insertSession (s : Store) (tok : String) (uid : Nat) (ts : Int) : Store :=
  { s with sessions := upsertSession tok uid ts s.sessions }

def deleteSession (s : Store) (tok : String) : Store :=
  { s with sessions := s.sessions.filter (fun r => r.token ≠ tok) }

def findRoomByName (s : Store) (n : String) : Except OutOfRange (Option Room) :=
  match s.roomNameIdx.lookup n with
  | none => .ok none
  | some id =>
    match s.rooms.lookup id with
    | some r => .ok (some r)
    | none => .error .missing

def createRoom (s : Store) (n : String) (now : Int) : Option Nat × Store :=
  match s.roomNameIdx.lookup n with
  | some _ => (none, s)
  | none =>
    (some s.nextRoomId, { s with
      nextRoomId := s.nextRoomId + 1
      rooms := s.rooms.insert s.nextRoomId ⟨s.nextRoomId, n, now⟩
      roomNameIdx := s.roomNameIdx.insert n s.nextRoomId })

def members (s : Store) (r : Nat) : Finset Nat := (s.roomMembers.lookup r).getD ∅

def joinRoom (s : Store) (r u : Nat) : Bool × Store :=
  match s.rooms.lookup r with
  | none => (false, s)
  | some _ => (true, { s with roomMembers := s.roomMembers.insert r (insert u (s.members r)) })

def leaveRoom (s : Store) (r u : Nat) : Bool × Store :=
  match s.roomMembers.lookup r with
  | none => (false, s)
  | some ms => (true, { s with roomMembers := s.roomMembers.insert r (ms.erase u) })

def collectRooms (s : Store) (u : Nat) : List Nat → Except OutOfRange (List Room)
  | [] => .ok []
  | r :: rs =>
    if u ∈ s.members r then
      match s.rooms.lookup r, collectRooms s u rs with
      | some room, .ok out => .ok (room :: out)
      | _, _ => .error .missing
    else collectRooms s u rs

def listRoomsForUser (s : Store) (order : Finset Nat → List Nat) (u : Nat) :
    Except OutOfRange (List Room) :=
  s.collectRooms u (order s.roomMembers.keys.toFinset)

def insertDm (s : Store) (sender receiver : Nat) (content : String) (ts : Int) :
    Option Nat × Store :=
  (some s.nextMsgId, { s with
    nextMsgId := s.nextMsgId + 1
    messages := s.messages ++ [⟨s.nextMsgId, sender, some receiver, none, content, 0, ts⟩] })

def insertRoomMsg (s : Store) (sender room : Nat) (content : String) (ts : Int) :
    Option Nat × Store :=
  (some s.nextMsgId, { s with
    nextMsgId := s.nextMsgId + 1
    messages := s.messages ++ [⟨s.nextMsgId, sender, none, some room, content, 0, ts⟩] })

/-- The backward scan shared by the two history queries. -/
def scan (keep : Message → Bool) (before lim : Nat) : List Message → List Message → List Message
  | out, [] => out
  | out, m :: ms =>
    if lim ≤ out.length then out
    else if before ≠ 0 ∧ before ≤ m.id then scan keep before lim out ms
    else if keep m then scan keep before lim (out ++ [m]) ms
    else scan keep before lim out ms

def historyDm (s : Store) (a b before lim : Nat) : List Message :=
  (scan (fun m => (m.senderId = a ∧ m.receiverId = some b) ∨
    (m.senderId = b ∧ m.receiverId = some a))
    before lim [] s.messages.reverse).reverse

def historyRoom (s : Store) (r before lim : Nat) : List Message :=
  (scan (fun m => m.roomId = some r) before lim [] s.messages.reverse).reverse

def setStatus (id st : Nat) : List Message → List Message
  | [] => []
  | m :: ms => if m.id = id then { m with status := st } :: ms else m :: setStatus id st ms

def updateMessageStatus (s : Store) (id st : Nat) : Store :=
  { s with messages := setStatus id st s.messages }

def queue (s : Store) (u : Nat) : List Nat := (s.undelivered.lookup u).getD []

def enqueueUndelivered (s : Store) (mid u : Nat) : Store :=
  { s with undelivered := s.undelivered.insert u (s.queue u ++ [mid]) }

def findMessage (s : Store) (mid : Nat) : Option Message := s.messages.find? (fun m => m.id = mid)

def drainUndelivered (s : Store) (u : Nat) : List Message × Store :=
  match s.undelivered.lookup u with
  | none => ([], s)
  | some mids => (mids.filterMap s.findMessage, { s with undelivered := s.undelivered.erase u })

end Store

end ChatServer
