import Mathlib.Data.Rat.Defs
import Mathlib.Tactic.FieldSimp
import Mathlib.Tactic.Linarith
import ChatServer.Auth.Password
import ChatServer.Common.Decimal
import ChatServer.Db.Store

/-! The message rows of the MySQL backend, `db/repositories.cpp`.  What the database does
with a statement is assumed: `FROM_UNIXTIME` and `TIMESTAMP(3)` are exact to the
millisecond, and `UNIX_TIMESTAMP(created_at)*1000` prints the stored value. -/

namespace ChatServer.mysql

structure Decimal where
  units : Nat
  scale : Nat
  deriving DecidableEq

def Decimal.value (d : Decimal) : ℚ := d.units / 10 ^ d.scale

def Decimal.millis (d : Decimal) : Nat := d.units * 10 ^ 3 / 10 ^ d.scale

def decimalLiteral (s : List Char) : Option Decimal :=
  let whole := s.takeWhile Char.isDigit
  match s.dropWhile Char.isDigit with
  | '.' :: frac =>
    if whole = [] ∨ frac = [] ∨ frac.all Char.isDigit = false then none
    else some ⟨digitsValue (whole ++ frac), frac.length⟩
  | _ => none

def intText (n : Int) : List Char := (toString n).toList

def unixtimeLiteral (ts : Int) : List Char :=
  intText (ts.tdiv 1000) ++ '.' :: intText (ts.tmod 1000)

structure MessageRow where
  id : UInt64
  senderId : UInt64
  receiverId : Option UInt64
  roomId : Option UInt64
  content : String
  status : UInt8
  createdAt : Nat
  deriving DecidableEq

inductive Target : Type
  | receiver : Target
  | room : Target
  deriving DecidableEq

structure Insert where
  target : Target
  senderId : UInt64
  targetId : UInt64
  content : String
  literal : List Char

namespace Insert

def row (id : UInt64) (q : Insert) : Option MessageRow :=
  (decimalLiteral q.literal).map fun d =>
    { id, senderId := q.senderId,
      receiverId := if q.target = .receiver then some q.targetId else none,
      roomId := if q.target = .room then some q.targetId else none,
      content := q.content, status := 0, createdAt := d.millis }

end Insert

structure Database where
  nextId : UInt64
  messages : List MessageRow

/-- What a call finds of the database: no connection of the pool is free, or the query is
refused, or it is run. -/
inductive Answer : Type
  | noLease : Answer
  | refused : Answer
  | runs : Answer
  deriving DecidableEq

section Insertion

variable (db : Database) (answer : Answer) (s : UInt64)

def insertMsg (target : Target) (targetId : UInt64) (content : String) (ts : Int) :
    Option UInt64 × Database :=
  let q : Insert := ⟨target, s, targetId, content, unixtimeLiteral ts⟩
  match answer, q.row db.nextId with
  | .runs, some row => (some db.nextId, ⟨db.nextId + 1, db.messages ++ [row]⟩)
  | _, _ => (none, db)

def insertDm (r : UInt64) (content : String) (ts : Int) : Option UInt64 × Database :=
  insertMsg db answer s .receiver r content ts

def insertRoomMsg (room : UInt64) (content : String) (ts : Int) : Option UInt64 × Database :=
  insertMsg db answer s .room room content ts

end Insertion

structure Row where
  id : Option (List Char)
  senderId : Option (List Char)
  receiverId : Option (List Char)
  roomId : Option (List Char)
  content : Option (List Char)
  status : Option (List Char)
  createdAtMs : Option (List Char)

def MessageRow.fetch (m : MessageRow) : Row where
  id := some (Nat.toDigits 10 m.id.toNat)
  senderId := some (Nat.toDigits 10 m.senderId.toNat)
  receiverId := m.receiverId.map fun r => Nat.toDigits 10 r.toNat
  roomId := m.roomId.map fun r => Nat.toDigits 10 r.toNat
  content := some m.content.toList
  status := some (Nat.toDigits 10 m.status.toNat)
  createdAtMs := some (Nat.toDigits 10 m.createdAt ++ ".000".toList)

def column {V : Type} (read : List Char → Option V) (dflt : V) : Option (List Char) → Option V
  | none => some dflt
  | some text => read text

/-- One pass of the loop of `read_messages`; the content ends at the first null
character. -/
def readMessage (row : Row) : Option Message := do
  let id ← column auth.stoul 0 row.id
  let senderId ← column auth.stoul 0 row.senderId
  let receiverId ← column (fun t => (auth.stoul t).map some) none row.receiverId
  let roomId ← column (fun t => (auth.stoul t).map some) none row.roomId
  let status ← column (fun t => stoi (String.ofList t)) 0 row.status
  let createdAtMs ← column (fun t => stoll (String.ofList t)) 0 row.createdAtMs
  return {
    id, senderId, receiverId, roomId,
    content := String.ofList ((row.content.getD []).takeWhile fun ch => ch ≠ '\x00'),
    status := (status % 256).toNat, createdAtMs }

def readMessages : Option (List Row) → Option (List Message)
  | none => some []
  | some rows => rows.mapM readMessage

section Literal

variable (ts : Nat)

def Padded : Prop := ts % 1000 = 0 ∨ 100 ≤ ts % 1000

theorem intText_natCast (n : Nat) : intText n = Nat.toDigits 10 n := by
  change n.repr.toList = _
  rw [Nat.repr, String.toList_ofList]

theorem unixtimeLiteral_natCast :
    unixtimeLiteral ts = Nat.toDigits 10 (ts / 1000) ++ '.' :: Nat.toDigits 10 (ts % 1000) := by
  have hwhole : (ts : Int).tdiv 1000 = (ts / 1000 : Nat) := (Int.ofNat_tdiv ts 1000).symm
  have hfrac : (ts : Int).tmod 1000 = (ts % 1000 : Nat) := (Int.ofNat_tmod ts 1000).symm
  rw [unixtimeLiteral, hwhole, hfrac, intText_natCast, intText_natCast]

theorem decimalLiteral_toDigits (a b : Nat) :
    decimalLiteral (Nat.toDigits 10 a ++ '.' :: Nat.toDigits 10 b) =
      some ⟨a * 10 ^ (Nat.toDigits 10 b).length + b, (Nat.toDigits 10 b).length⟩ := by
  have hdigits {n : Nat} : ∀ ch ∈ Nat.toDigits 10 n, ch.isDigit = true :=
    fun ch => isDigit_of_mem_toDigits
  have hwhole : (Nat.toDigits 10 a ++ '.' :: Nat.toDigits 10 b).takeWhile Char.isDigit =
      Nat.toDigits 10 a := by
    rw [List.takeWhile_append_of_pos hdigits, List.takeWhile_cons_of_neg (by decide),
      List.append_nil]
  have hfrac : (Nat.toDigits 10 a ++ '.' :: Nat.toDigits 10 b).dropWhile Char.isDigit =
      '.' :: Nat.toDigits 10 b := by
    rw [List.dropWhile_append_of_pos hdigits, List.dropWhile_cons_of_neg (by decide)]
  have hall : (Nat.toDigits 10 b).all Char.isDigit = true := List.all_eq_true.mpr hdigits
  have hwell : ¬(Nat.toDigits 10 a = [] ∨ Nat.toDigits 10 b = [] ∨
      (Nat.toDigits 10 b).all Char.isDigit = false) := by
    simp [hall, Nat.toDigits_ne_nil]
  simp only [decimalLiteral, hwhole, hfrac]
  rw [if_neg hwell, digitsValue_append, digitsValue_toDigits, digitsValue_toDigits]

theorem length_toDigits_remainder {r : Nat} (hr : r < 1000) :
    (Nat.toDigits 10 r).length ≤ 3 ∧ ((Nat.toDigits 10 r).length = 3 ↔ 100 ≤ r) := by
  have hthree : (Nat.toDigits 10 r).length ≤ 3 ↔ r < 10 ^ 3 :=
    Nat.length_toDigits_le_iff (by decide) (by decide)
  have htwo : (Nat.toDigits 10 r).length ≤ 2 ↔ r < 10 ^ 2 :=
    Nat.length_toDigits_le_iff (by decide) (by decide)
  omega

theorem Decimal.millis_eq_mul {d : Decimal} (hd : d.scale ≤ 3) :
    d.millis = d.units * 10 ^ (3 - d.scale) := by
  have hpow : 10 ^ 3 = 10 ^ (3 - d.scale) * 10 ^ d.scale := by
    rw [← Nat.pow_add, Nat.sub_add_cancel hd]
  rw [millis, hpow, ← Nat.mul_assoc, Nat.mul_div_cancel _ (Nat.pow_pos (by decide))]

theorem Decimal.value_eq_iff {d : Decimal} (hd : d.scale ≤ 3) :
    d.value = ts / 1000 ↔ d.millis = ts := by
  have hpow : (1000 : ℚ) = 10 ^ (3 - d.scale) * 10 ^ d.scale := by
    rw [← pow_add, Nat.sub_add_cancel hd]
    norm_num
  have hvalue : d.value * 1000 = d.millis := by
    rw [value, millis_eq_mul hd, hpow]
    push_cast
    field_simp
  rw [eq_div_iff (by norm_num), hvalue, Nat.cast_inj]

theorem decimalLiteral_unixtimeLiteral :
    ∃ d, decimalLiteral (unixtimeLiteral ts) = some d ∧ d.scale ≤ 3 ∧
    (d.millis = ts ↔ Padded ts) := by
  obtain ⟨hle, hthree⟩ := length_toDigits_remainder (Nat.mod_lt ts (by decide : 0 < 1000))
  refine ⟨_, by rw [unixtimeLiteral_natCast, decimalLiteral_toDigits], hle, ?_⟩
  rw [Decimal.millis_eq_mul hle, Padded, ← hthree]
  dsimp only
  generalize (Nat.toDigits 10 (ts % 1000)).length = n at hle
  interval_cases n <;> omega

end Literal

def MessageRow.message (m : MessageRow) : Message where
  id := m.id.toNat
  senderId := m.senderId.toNat
  receiverId := m.receiverId.map UInt64.toNat
  roomId := m.roomId.map UInt64.toNat
  content := String.ofList (m.content.toList.takeWhile fun ch => ch ≠ '\x00')
  status := m.status.toNat
  createdAtMs := m.createdAt

theorem stoul_toDigits_toNat (n : UInt64) : auth.stoul (Nat.toDigits 10 n.toNat) = some n.toNat :=
  auth.stoul_toDigits n.toNat_lt

theorem stoi_toDigits_toNat (n : UInt8) :
    stoi (String.ofList (Nat.toDigits 10 n.toNat)) = some (n.toNat : Int) := by
  have hn := n.toNat_lt
  rw [stoi, stoll_toDigits, if_pos (by omega), Option.filter_some, if_pos (by simp; omega)]

theorem readMessage_fetch (m : MessageRow) :
    readMessage m.fetch = if m.createdAt < 2 ^ 63 then some m.message else none := by
  have hstatus : ((m.status.toNat : Int) % 256).toNat = m.status.toNat := by
    have := m.status.toNat_lt
    omega
  have hoptional (r : Option UInt64) :
      column (fun t => (auth.stoul t).map some) none (r.map fun r => Nat.toDigits 10 r.toNat) =
        some (r.map UInt64.toNat) := by
    cases r with
    | none => rfl
    | some r => simp [column, stoul_toDigits_toNat]
  have htime : stoll (String.ofList (Nat.toDigits 10 m.createdAt ++ ".000".toList)) =
      if m.createdAt < 2 ^ 63 then some (m.createdAt : Int) else none :=
    stoll_toDigits_append _ _ (by simp)
  simp only [readMessage, MessageRow.fetch, hoptional]
  simp only [column, stoul_toDigits_toNat, stoi_toDigits_toNat, htime]
  split <;> simp [MessageRow.message, hstatus]

theorem insertMsg_runs (db : Database) (s : UInt64) (target : Target) (t : UInt64)
    (content : String) (ts : Nat) :
    ∃ row, insertMsg db .runs s target t content ts =
      (some db.nextId, ⟨db.nextId + 1, db.messages ++ [row]⟩) ∧
      (row.createdAt = ts ↔ Padded ts) := by
  obtain ⟨d, hd, -, hmillis⟩ := decimalLiteral_unixtimeLiteral ts
  obtain ⟨row, hrow, htime⟩ :
    ∃ row, Insert.row db.nextId ⟨target, s, t, content, unixtimeLiteral ts⟩ = some row ∧
      row.createdAt = d.millis := by
    rw [Insert.row, hd]
    exact ⟨_, rfl, rfl⟩
  exact ⟨row, by simp only [insertMsg, hrow], by rw [htime, hmillis]⟩

theorem timestamp_survives_iff (db : Database) (s t : UInt64) (content : String) {ts : Nat}
    (hts : ts < 2 ^ 63) :
    (∃ d, decimalLiteral (unixtimeLiteral ts) = some d ∧ (d.value = ts / 1000 ↔ Padded ts)) ∧
    ∀ insert ∈ [insertDm db .runs s, insertRoomMsg db .runs s], ∃ row,
      insert t content ts = (some db.nextId, ⟨db.nextId + 1, db.messages ++ [row]⟩) ∧
      ((readMessages (some [row.fetch])).map (fun ms => ms.map Message.createdAtMs) =
        some [(ts : Int)] ↔ Padded ts) := by
  have hread (row : MessageRow) :
      (readMessages (some [row.fetch])).map (fun ms => ms.map Message.createdAtMs) =
        some [(ts : Int)] ↔
        row.createdAt = ts := by
    rw [readMessages, List.mapM_cons, readMessage_fetch]
    split
    · simp [MessageRow.message]
    · have hlarge : row.createdAt ≠ ts := by omega
      simp [hlarge]
  constructor
  · obtain ⟨d, hd, hscale, hmillis⟩ := decimalLiteral_unixtimeLiteral ts
    exact ⟨d, hd, (Decimal.value_eq_iff ts hscale).trans hmillis⟩
  · intro insert hinsert
    obtain ⟨target, htarget⟩ : ∃ target, insert = insertMsg db .runs s target := by
      rw [List.mem_cons, List.mem_singleton] at hinsert
      obtain rfl | rfl := hinsert
      · exact ⟨.receiver, rfl⟩
      · exact ⟨.room, rfl⟩
    obtain ⟨row, hrow, htime⟩ := insertMsg_runs db s target t content ts
    exact ⟨row, by rw [htarget, hrow], (hread row).trans htime⟩

theorem timestamp_survives_123 : ∃ d, decimalLiteral (unixtimeLiteral 1700000000123) = some d ∧
    d.value = 1700000000123 / 1000 := by
  have hts : 1700000000123 < 2 ^ 63 := by decide
  obtain ⟨d, hd, hvalue⟩ := (timestamp_survives_iff ⟨1, []⟩ 1 2 "hello" hts).1
  exact ⟨d, hd, hvalue.mpr (.inr (by decide))⟩

theorem timestamp_lost_005 :
    unixtimeLiteral 1700000000005 = "1700000000.5".toList ∧
    (insertDm ⟨1, []⟩ .runs 1 2 "hello" 1700000000005).1 = some 1 ∧
    readMessages (some ((insertDm ⟨1, []⟩ .runs 1 2 "hello" 1700000000005).2.messages.map
      MessageRow.fetch)) =
      some [⟨1, 1, some 2, none, "hello", 0, 1700000000500⟩] := by
  decide +kernel

end ChatServer.mysql
