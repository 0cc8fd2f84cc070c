import ChatServer.Server.RoomCache

/-! `Repositories` over a database that can fail.  What a statement does when it is carried
out is left to the database, up to a few laws; what the methods make of a failure is not. -/

namespace ChatServer

open Lib Lib.Prog

/-- The statement of a call that fails: the first one, or a missing lease before it; or the
second one, which only `drain_undelivered` has. -/
inductive Fault : Type
  | first | second
  deriving DecidableEq

def RepoOp.failed : (o : RepoOp) → o.Ret
  | .findUserById _ => none
  | .findUserByUsername _ => .ok none
  | .createUser _ _ => none
  | .updateLastSeen _ _ => ()
  | .insertSession _ _ _ => ()
  | .deleteSession _ => ()
  | .findRoomByName _ => .ok none
  | .createRoom _ => none
  | .joinRoom _ _ => false
  | .leaveRoom _ _ => false
  | .listRoomsForUser _ => .ok []
  | .listRoomMembers _ => ∅
  | .insertDm _ _ _ _ => none
  | .insertRoomMsg _ _ _ _ => none
  | .historyDm _ _ _ _ => []
  | .historyRoom _ _ _ => []
  | .updateMessageStatus _ _ => ()
  | .enqueueUndelivered _ _ => ()
  | .drainUndelivered _ => []

/-- Which calls fail in which state; the state counts the calls made so far, so this can
be any pattern of failures. -/
abbrev Faults := RepoOp → World → Option Fault

def RepoOp.fails (fault : Faults) (o : RepoOp) (w : World) : Bool :=
  match fault o w, o with
  | some .first, _ => true
  | some .second, .drainUndelivered _ => true
  | _, _ => false

/-- What the calls do when all their statements are carried out.  `INSERT IGNORE` may leave
the row out, and reports success in any case. -/
structure Database where
  run : (o : RepoOp) → Store → o.Ret × Store
  joinRoom_ok : ∀ s r u, (run (.joinRoom r u) s).1 = true
  leaveRoom_ok : ∀ s r u, (run (.leaveRoom r u) s).1 = true
  insertDm_ok : ∀ s a b content ts, ∃ id, (run (.insertDm a b content ts) s).1 = some id ∧ id ≠ 0
  findUserByUsername_ok : ∀ s n, ∃ found, (run (.findUserByUsername n) s).1 = .ok found
  findRoomByName_ok : ∀ s n, ∃ found, (run (.findRoomByName n) s).1 = .ok found
  listRoomsForUser_ok : ∀ s u, ∃ rooms, (run (.listRoomsForUser u) s).1 = .ok rooms
  listRoomMembers_ok : ∀ s r, (run (.listRoomMembers r) s).1 = s.members r
  members_joinRoom : ∀ s r u r', (run (.joinRoom r u) s).2.members r' = s.members r' ∨
    (r = r' ∧ (run (.joinRoom r u) s).2.members r' = insert u (s.members r'))
  members_leaveRoom : ∀ s r u r', (run (.leaveRoom r u) s).2.members r' =
    if r = r' then (s.members r').erase u else s.members r'
  members_other : ∀ o s r', o.kind ≠ .membership → (run o s).2.members r' = s.members r'

namespace Database

variable (db : Database) (fault : Faults)

def answer (o : RepoOp) (w : World) : o.Ret :=
  if fault o w = some .first then o.failed else (db.run o w.store).1

def stored (o : RepoOp) (w : World) : Store :=
  if o.fails fault w then w.store else (db.run o w.store).2

def backend : Backend := fun o w =>
  (db.answer fault o w, { w with store := db.stored fault o w, calls := w.calls + 1 })

abbrev exec (env : Env) : (o : Op) → World → o.Ret × World := ChatServer.exec env (db.backend fault)

end Database

def Op.query (w : World) : Op → Option RepoOp
  | .repo o => some o
  | .isMember r _ => if r ∈ w.rooms.loaded then none else some (.listRoomMembers r)
  | .membersOf r => if r ∈ w.rooms.loaded then none else some (.listRoomMembers r)
  | .onJoin r _ => if r ∈ w.rooms.loaded then none else some (.listRoomMembers r)
  | _ => none

def Op.fails (fault : Faults) (w : World) (o : Op) : Bool :=
  match o.query w with
  | some ro => ro.fails fault w
  | none => false

section Answers

variable {db : Database} {fault : Faults} {w : World}

theorem RepoOp.fails_iff {o : RepoOp} (ho : ∀ u, o ≠ .drainUndelivered u) :
    o.fails fault w = true ↔ fault o w = some .first := by
  unfold RepoOp.fails
  split
  · simp [*]
  · exact absurd rfl (ho _)
  · simp_all

theorem Database.answer_of_fails {o : RepoOp} (ho : ∀ u, o ≠ .drainUndelivered u)
    (h : o.fails fault w = true) :
    db.answer fault o w = o.failed := if_pos ((RepoOp.fails_iff ho).mp h)

theorem Database.answer_of_not_fails {o : RepoOp} (h : o.fails fault w = false) :
    db.answer fault o w = (db.run o w.store).1 := by
  refine if_neg fun hfirst => ?_
  simp [RepoOp.fails, hfirst] at h

end Answers

section Sample

def runTables : (o : RepoOp) → Store → o.Ret × Store
  | .findUserById id, s => (s.findUserById id, s)
  | .findUserByUsername n, s => (.ok ((s.usernameIdx.lookup n).bind s.findUserById), s)
  | .createUser n h, s => s.createUser n h 0
  | .updateLastSeen id ts, s => ((), s.updateLastSeen id (ts / 1000 * 1000))
  | .insertSession tok uid ts, s =>
    ((), { s with
      sessions :=
        if s.sessions.any (·.token = tok) then
          s.sessions.map fun row =>
            if row.token = tok then { row with lastActiveMs := ts / 1000 * 1000 } else row
        else s.sessions ++ [⟨tok, uid, ts / 1000 * 1000⟩] })
  | .deleteSession tok, s => ((), s.deleteSession tok)
  | .findRoomByName n, s => (.ok ((s.roomNameIdx.lookup n).bind s.rooms.lookup), s)
  | .createRoom n, s => s.createRoom n 0
  | .joinRoom r u, s => (true, if (s.findUserById u).isSome then (s.joinRoom r u).2 else s)
  | .leaveRoom r u, s => (true, (s.leaveRoom r u).2)
  | .listRoomsForUser u, s =>
    (.ok ((s.roomMembers.keys.filter fun r => u ∈ s.members r).filterMap s.rooms.lookup), s)
  | .listRoomMembers r, s => (s.members r, s)
  | .insertDm a b content ts, s =>
    (some (s.messages.length + 1),
      { s with
        messages := s.messages ++ [⟨s.messages.length + 1, a, some b, none, content, 0, ts⟩] })
  | .insertRoomMsg a r content ts, s =>
    (some (s.messages.length + 1),
      { s with
        messages := s.messages ++ [⟨s.messages.length + 1, a, none, some r, content, 0, ts⟩] })
  | .historyDm a b before lim, s => (s.historyDm a b before (min lim 200), s)
  | .historyRoom r before lim, s => (s.historyRoom r before (min lim 200), s)
  | .updateMessageStatus id st, s => ((), s.updateMessageStatus id st)
  | .enqueueUndelivered mid u, s =>
    ((), if (s.findMessage mid).isSome ∧ (s.findUserById u).isSome ∧ mid ∉ s.queue u then
        s.enqueueUndelivered mid u
      else s)
  | .drainUndelivered u, s =>
    (s.messages.filter fun m => m.id ∈ s.queue u, { s with undelivered := s.undelivered.erase u })

def tables : Database where
  run := runTables
  joinRoom_ok _ _ _ := rfl
  leaveRoom_ok _ _ _ := rfl
  insertDm_ok s _ _ _ _ := ⟨_, rfl, Nat.succ_ne_zero _⟩
  findUserByUsername_ok _ _ := ⟨_, rfl⟩
  findRoomByName_ok _ _ := ⟨_, rfl⟩
  listRoomsForUser_ok _ _ := ⟨_, rfl⟩
  listRoomMembers_ok _ _ := rfl
  members_joinRoom s r u r' := by
    simp only [runTables]
    split
    · rw [Store.members_joinRoom]
      split
      · rename_i h
        exact .inr ⟨h.1, rfl⟩
      · exact .inl rfl
    · exact .inl rfl
  members_leaveRoom s r u r' := Store.members_leaveRoom s r' r u
  members_other o s r' ho := by
    cases o with
    | joinRoom r u => exact absurd rfl ho
    | leaveRoom r u => exact absurd rfl ho
    | createUser n h =>
      simp only [runTables, Store.createUser]
      split <;> rfl
    | updateLastSeen id ts =>
      simp only [runTables, Store.updateLastSeen]
      split <;> rfl
    | createRoom n =>
      simp only [runTables, Store.createRoom]
      split <;> rfl
    | enqueueUndelivered mid u =>
      simp only [runTables]
      split <;> rfl
    | _ => rfl

def failing (calls : List Nat) : Faults := fun _ w => if w.calls ∈ calls then some .first else none

end Sample

end ChatServer
