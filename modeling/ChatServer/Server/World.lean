import ChatServer.Db.Store
import ChatServer.Protocol.Messages

namespace ChatServer

/-- What the server is configured with and what it calls outside its own state:
the successive readings of the clock, the successive results of `random_bytes`,
the order in which a hash container is walked, the JSON parser, the text of a
double, and the password hashing scheme. -/
structure Env where
  maxFrame : Nat
  maxMessage : Nat
  pbkdf2Iter : Nat
  sessionTtlSeconds : Int
  clock : Nat → Int
  entropy : Nat → Nat → List UInt8
  entropy_length : ∀ k n, (entropy k n).length = n
  order : Nat → Finset Nat → List Nat
  order_nodup : ∀ k s, (order k s).Nodup
  mem_order : ∀ k s x, x ∈ order k s ↔ x ∈ s
  parse : List UInt8 → Option Json
  showFloat : UInt64 → String
  makePasswordHash : String → Nat → List UInt8 → String
  verifyPasswordHash : String → String → Bool

structure SessionInfo where
  userId : Nat
  expiresAtMs : Int
  deriving DecidableEq

namespace SessionManager

abbrev Cache := Dict String SessionInfo

def ttlSeconds (env : Env) : Int :=
  if 0 < env.sessionTtlSeconds then env.sessionTtlSeconds else 86400

def validate (cache : Cache) (now : Int) (tok : String) : Option SessionInfo × Cache :=
  match cache.lookup tok with
  | none => (none, cache)
  | some info => if info.expiresAtMs ≤ now then (none, cache.erase tok) else (some info, cache)

end SessionManager

namespace Presence

abbrev Slots := Dict Nat (Finset Nat)

def slot (map : Slots) (u : Nat) : Finset Nat := (map.lookup u).getD ∅

def bindSlot (map : Slots) (u c : Nat) : Bool × Slots :=
  (slot map u = ∅, map.insert u (insert c (slot map u)))

def unbindSlot (map : Slots) (u c : Nat) : Bool × Slots :=
  match map.lookup u with
  | none => (false, map)
  | some cs => if cs.erase c = ∅ then (true, map.erase u) else (false, map.insert u (cs.erase c))

def isOnline (map : Slots) (u : Nat) : Bool := (map.lookup u).isSome

end Presence

structure RoomManager where
  cache : Dict Nat (Finset Nat)
  loaded : Finset Nat

namespace RoomManager

def empty : RoomManager := ⟨∅, ∅⟩

def load (rm : RoomManager) (r : Nat) (members : Finset Nat) : RoomManager :=
  ⟨rm.cache.insert r members, insert r rm.loaded⟩

def members (rm : RoomManager) (r : Nat) : Finset Nat := (rm.cache.lookup r).getD ∅

def join (rm : RoomManager) (r u : Nat) : RoomManager :=
  { rm with cache := rm.cache.insert r (insert u (rm.members r)) }

def onLeave (rm : RoomManager) (r u : Nat) : RoomManager :=
  match rm.cache.lookup r with
  | some ms => { rm with cache := rm.cache.insert r (ms.erase u) }
  | none => rm

end RoomManager

/-- A connection.  `out` lists the frames appended to its write buffer so far,
each by the JSON value it carries. -/
structure Conn where
  userId : Nat
  token : String
  closing : Bool
  closed : Bool
  out : List Json

namespace Conn

def fresh : Conn := ⟨0, "", false, false, []⟩

def isOpen (k : Conn) : Bool := !k.closing && !k.closed

end Conn

def fits (env : Env) (j : Json) : Bool := (j.dump env.showFloat).utf8ByteSize ≤ env.maxFrame

def Conn.accepts (env : Env) (k : Conn) (j : Json) : Bool := k.isOpen && fits env j

def Conn.sendFrame (env : Env) (k : Conn) (j : Json) : Conn :=
  if k.accepts env j then { k with out := k.out ++ [j] } else k

/-- Connections that were never used are fresh ones.  `ticks`, `draws`, `walks`
and `calls` count the readings of the clock, the random draws, the container
walks and the repository calls made so far. -/
structure World where
  store : Store
  sessions : SessionManager.Cache
  presence : Presence.Slots
  rooms : RoomManager
  conns : Nat → Conn
  ticks : Nat
  draws : Nat
  walks : Nat
  calls : Nat

namespace World

def init : World := ⟨.empty, ∅, ∅, .empty, fun _ => .fresh, 0, 0, 0, 0⟩

def setConn (w : World) (c : Nat) (k : Conn) : World :=
  { w with conns := Function.update w.conns c k }

def slot (w : World) (u : Nat) : Finset Nat := Presence.slot w.presence u

end World

end ChatServer
