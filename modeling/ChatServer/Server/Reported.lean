import ChatServer.Server.Database
import ChatServer.Server.DueReply

namespace ChatServer

open Lib Lib.Prog

def isInternal (j : Json) : Bool :=
  getStr j "type" = types.kError ∧ getStr j "code" = errcode.kInternal

def due.Answer.isInternal : due.Answer → Bool
  | .refused code _ => code = errcode.kInternal
  | _ => false

theorem isInternal_json (env : Env) (id : Option Int) (a : due.Answer) :
    isInternal (a.json env id) = a.isInternal := by
  unfold isInternal
  rw [due.Answer.json_type]
  cases a with
  | refused code message =>
    have hcode : getStr ((due.Answer.refused code message).json env id) "code" = code := by
      rw [getStr, due.Answer.json_find env id (.refused code message) (v := .str code)
        (by simp [due.Answer.fields, due.Answer.data])]
    rw [hcode]
    simp [due.Answer.type, due.Answer.isInternal]
  | _ => simp [due.Answer.type, due.Answer.isInternal, types.kAck, types.kPong, types.kError]

def requestType (env : Env) (payload : List UInt8) : String :=
  match env.parse payload with
  | none => ""
  | some req => getStr req "type"

structure Report where
  loud : Bool
  out : List Json

namespace Report

def start : Report := ⟨false, []⟩

def after (type : String) (t : Report) : (o : Op) → o.Ret → Report
  | .repo (.insertDm _ _ _ _), none => { t with loud := true }
  | .repo (.joinRoom _ _), false => { t with loud := t.loud || type = types.kJoinRoom }
  | .repo (.findRoomByName _), .ok none => { t with loud := t.loud || type = types.kCreateRoom }
  | .sendFrame .reply _ j, _ => { t with out := t.out ++ [j] }
  | _, _ => t

def possible : (o : Op) → o.Ret → Prop
  | .repo (.insertDm _ _ _ _), some id => id ≠ 0
  | .repo (.findUserByUsername _), .error _ => False
  | .repo (.findRoomByName _), .error _ => False
  | .repo (.listRoomsForUser _), .error _ => False
  | _, _ => True

/-- The one response is an internal error if and only if such a call has failed. -/
def Fair (t : Report) : Prop :=
  (t.out = [] ∧ t.loud = false) ∨ ∃ j, t.out = [j] ∧ isInternal j = t.loud

end Report

def reporting (type : String) : Contract Op.Ret Report where
  allows _ _ := True
  next t o r t' := Report.possible o r ∧ t' = t.after type o r

section Programs

variable {type : String} {c : Nat} {t : Report} {α : Type}

abbrev Reports (type : String) (t : Report) (x : ServerM Unit) : Prop :=
  x.Follows (reporting type) t (fun _ t' => t'.Fair) (fun _ => False)

structure Silent (type : String) (ks : List Kind) : Prop where
  reply : .reply ∉ ks
  dm : .storeDm ∉ ks
  own : .own ∈ ks → type ≠ types.kCreateRoom
  membership : .membership ∈ ks → type ≠ types.kJoinRoom

theorem reporting_neutral {ks : List Kind} (hks : Silent type ks) (c : Nat) (t : Report) :
    Neutral (reporting type) (· = t) c ks := by
  rintro o ⟨hk, -⟩ _ rfl
  refine ⟨trivial, ?_⟩
  rintro r t' ⟨-, rfl⟩
  refine ⟨?_, trivial⟩
  unfold Report.after
  split
  · exact absurd hk hks.dm
  · simp [hks.membership hk]
  · simp [hks.own hk]
  · exact absurd hk hks.reply
  · rfl

theorem silent_follows {ks : List Kind} {x : ServerM α} (hx : Uses c ks x) (hthrow : x.NoThrow)
    (hks : Silent type ks) : x.Follows (reporting type) t (fun _ t' => t' = t)
    (fun _ => False) := by
  apply hthrow.follows
  exact hx.keeps (reporting_neutral hks c t) (List.Subset.refl _) t rfl

theorem silent_bind {ks : List Kind} {x : ServerM α} {f : α → ServerM Unit} (hx : Uses c ks x)
    (hthrow : x.NoThrow) (hks : Silent type ks) (hf : ∀ a, Reports type t (f a)) :
    Reports type t (x >>= f) := by
  apply (follows_bind ..).mpr
  apply (silent_follows hx hthrow hks).mono
  · rintro a _ rfl
    exact hf a
  · exact fun _ h => h

theorem call_reports {o : Op} {f : o.Ret → ServerM Unit}
    (hf : ∀ r, Report.possible o r → Reports type (t.after type o r) (f r)) :
    Reports type t (call o >>= f) := by
  refine ⟨trivial, ?_⟩
  rintro r t' ⟨hr, rfl⟩
  exact hf r hr

theorem send_reports (env : Env) {id : Option Int} (a : due.Answer) (ht : t.out = [])
    (ha : a.isInternal = t.loud) : Reports type t (handlers.send c (a.json env id)) := by
  refine ⟨trivial, ?_⟩
  rintro r t' ⟨-, rfl⟩
  refine .inr ⟨a.json env id, ?_, (isInternal_json env id a).trans ha⟩
  change t.out ++ _ = _
  rw [ht, List.nil_append]

theorem requireAuth_reports (env : Env) (req : Json) (id : Option Int) :
    (handlers.requireAuth c req id).Follows (reporting type) .start
      (fun uid t' => t' = .start ∨ (uid = 0 ∧ t'.Fair)) (fun _ => False) := by
  have hrefuse (message : String) :
      ((handlers.send c (makeError id errcode.kUnauthorized message)).bind
        fun _ => (.ret 0 : ServerM Nat)).Follows
        (reporting type) .start (fun uid t' => t' = .start ∨ (uid = 0 ∧ t'.Fair))
          (fun _ => False) := by
    have hsend : Reports type .start
        (handlers.send c (makeError id errcode.kUnauthorized message)) :=
      send_reports env (.refused errcode.kUnauthorized message) rfl rfl
    apply (follows_bind ..).mpr
    apply hsend.mono
    · exact fun _ _ h => .inr ⟨rfl, h⟩
    · exact fun _ h => h
  refine ⟨trivial, ?_⟩
  rintro uid t' ⟨-, rfl⟩
  dsimp only [ret_bind]
  split
  · exact .inl rfl
  · split
    · exact hrefuse _
    · refine ⟨trivial, ?_⟩
      rintro info t' ⟨-, rfl⟩
      cases info with
      | none => exact hrefuse _
      | some info =>
        refine ⟨trivial, ?_⟩
        rintro r t' ⟨-, rfl⟩
        refine ⟨trivial, ?_⟩
        rintro r t' ⟨-, rfl⟩
        have hbind : Uses c [.bind, .replay] (Presence.bind info.userId c) := by simp
        dsimp only [ret_bind]
        apply (follows_bind ..).mpr
        apply (silent_follows hbind (bind_noThrow info.userId c) ⟨by simp, by simp,
          by simp, by simp⟩).mono
        · exact fun _ _ h => .inl h
        · exact fun _ h => h

theorem withAuth_reports (env : Env) {req : Json} {id : Option Int} {act : Nat → ServerM Unit}
    (hact : ∀ uid, Reports type .start (act uid)) :
    Reports type .start (handlers.withAuth c req id act) := by
  apply (follows_bind ..).mpr
  apply (requireAuth_reports env req id).mono
  · rintro uid t' (rfl | ⟨rfl, hfair⟩)
    · split
      · exact .inl ⟨rfl, rfl⟩
      · exact hact uid
    · exact hfair
  · exact fun _ h => h

theorem sendDm_reports {sender receiver : Nat} {content : String} {f : Nat → ServerM Unit}
    (hlost : Reports type ⟨true, []⟩ (f 0))
    (hsent : ∀ msgId, msgId ≠ 0 → Reports type .start (f msgId)) :
    Reports type .start (MessageRouter.sendDm sender receiver content >>= f) := by
  refine ⟨trivial, ?_⟩
  rintro ts t' ⟨-, rfl⟩
  refine ⟨trivial, ?_⟩
  rintro stored t' ⟨hstored, rfl⟩
  cases stored with
  | none => exact hlost
  | some msgId =>
    simp only [bind_eq_bind, Prog.call, op_bind, ret_bind]
    rw [← op_bind, follows_bind]
    have hdeliver {x : ServerM Nat} (hx : Uses 0 [.dm, .queue] x) (hthrow : x.NoThrow)
      (hid : x.Yields (· = msgId)) :
        x.Follows (reporting type) .start (fun a t' =>
          (f a).Follows (reporting type) t' (fun _ t' => t'.Fair) fun _ => False)
          fun _ => False := by
      apply (hid.follows (silent_follows hx hthrow ⟨by simp, by simp, by simp, by simp⟩)).mono
      · rintro _ _ ⟨rfl, rfl⟩
        exact hsent _ hstored
      · exact fun _ h => h
    apply hdeliver
    · refine (uses_op _ _).mpr ⟨by simp, fun conns => Uses.bind ?_ fun _ => ?_⟩
      · simp
      · simp
    · simp
    · exact fun conns => Yields.bind _ fun _ => fun own => Yields.bind _ fun _ => rfl

theorem sendRoom_noThrow (sender room : Nat) (content : String) :
    (MessageRouter.sendRoom sender room content).NoThrow := by
  simp [MessageRouter.sendRoom, Option.forall, fanOut_noThrow]

theorem enterRoom_reports (env : Env) {id : Option Int} (name : String) (rid uid : Nat) :
    Reports types.kCreateRoom .start (handlers.enterRoom c id name rid uid) := by
  refine call_reports fun joined _ => ?_
  cases joined <;> exact call_reports fun _ _ => send_reports env (.entered rid name) rfl rfl

theorem joining_reports (env : Env) {id : Option Int} (rid uid : Nat) :
    Reports types.kJoinRoom .start (do
      if rid = 0 then handlers.send c (makeError id errcode.kNotFound "room not found")
      else do
        if ← call (.repo (.joinRoom rid uid)) then do
          call (.onJoin rid uid)
          handlers.send c (makeAck id (Fields.assign [] [("room_id", .uint rid)]))
        else handlers.send c (makeError id errcode.kInternal "join failed")) := by
  split
  · exact send_reports env (.refused errcode.kNotFound _) rfl rfl
  · refine call_reports fun joined _ => ?_
    cases joined with
    | true => exact call_reports fun _ _ => send_reports env (.joined rid) rfl rfl
    | false => exact send_reports env (.refused errcode.kInternal _) rfl rfl

namespace handlers

variable (c) (req : Json) (id : Option Int) (env : Env)

include env

theorem handleRegister_reports : Reports type .start (handleRegister env c req id) := by
  unfold handleRegister
  dsimp only
  split
  · exact send_reports env (.refused errcode.kBadRequest _) rfl rfl
  · refine call_reports fun salt _ => call_reports fun stored _ => ?_
    cases stored with
    | none => exact send_reports env (.refused errcode.kConflict _) rfl rfl
    | some newId => exact send_reports env (.registered newId _) rfl rfl

theorem handleLogin_reports : Reports types.kLogin .start (handleLogin env c req id) := by
  refine call_reports fun found hfound => ?_
  rcases found with _ | (_ | u)
  · exact hfound.elim
  · exact send_reports env (.refused errcode.kUnauthorized _) rfl rfl
  · have hcreate : Uses c [.own, .session, .issue] (SessionManager.create env u.id) := by simp
    have hbind : Uses c [.bind, .replay] (Presence.bind u.id c) := by simp
    dsimp only
    split
    · refine silent_bind hcreate (create_noThrow env u.id) ⟨by simp, by simp, fun _ => by decide,
        by simp⟩ fun token => ?_
      refine call_reports fun _ _ => call_reports fun _ _ => ?_
      refine silent_bind hbind (bind_noThrow u.id c) ⟨by simp, by simp, by simp, by simp⟩
        fun _ => ?_
      exact send_reports env (.session u token) rfl rfl
    · exact send_reports env (.refused errcode.kUnauthorized _) rfl rfl

theorem handleLogout_reports : Reports types.kLogout .start (handleLogout c req id) := by
  refine call_reports fun tok _ => ?_
  have hrevoke : Uses c [.session] (if tok ≠ "" then SessionManager.revoke tok else pure () :
      ServerM Unit) := by
    simp
  have hrevokes : (if tok ≠ "" then SessionManager.revoke tok else pure () :
    ServerM Unit).NoThrow := by simp
  refine silent_bind hrevoke hrevokes ⟨by simp, by simp, by simp, by simp⟩ fun _ =>
    call_reports fun uid _ => ?_
  have hunbind : Uses c [.unbind, .own]
      (if uid ≠ 0 then (Presence.unbind uid c).bind fun _ => pure () else pure () :
        ServerM Unit) := by simp
  have hunbinds : (if uid ≠ 0 then (Presence.unbind uid c).bind fun _ => pure () else pure () :
      ServerM Unit).NoThrow := by simp
  refine silent_bind hunbind hunbinds ⟨by simp, by simp, fun _ => by decide, by simp⟩ fun _ => ?_
  refine call_reports fun _ _ => call_reports fun _ _ => ?_
  exact send_reports env .done rfl rfl

theorem handleSendDm_reports : Reports types.kSendDM .start (handleSendDm env c req id) := by
  refine withAuth_reports env fun sender => ?_
  dsimp only
  split
  · exact send_reports env (.refused errcode.kBadRequest _) rfl rfl
  · split
    · exact send_reports env (.refused errcode.kBadRequest _) rfl rfl
    · refine call_reports fun found _ => ?_
      cases found with
      | none => exact send_reports env (.refused errcode.kNotFound _) rfl rfl
      | some _ =>
        refine sendDm_reports (send_reports env (.refused errcode.kInternal _) rfl rfl)
          fun msgId hne => ?_
        rw [if_neg hne]
        exact call_reports fun now _ => send_reports env (.stored msgId now) rfl rfl

theorem handleSendRoom_reports : Reports types.kSendRoom .start (handleSendRoom env c req id) := by
  refine withAuth_reports env fun sender => ?_
  dsimp only
  split
  · exact send_reports env (.refused errcode.kBadRequest _) rfl rfl
  · split
    · exact send_reports env (.refused errcode.kBadRequest _) rfl rfl
    · refine silent_bind (c := c) (MessageRouter.sendRoom_uses ..) (sendRoom_noThrow sender _ _)
        ⟨by simp, by simp, fun _ => by decide, by simp⟩ fun msgId => ?_
      split
      · exact send_reports env (.refused errcode.kBadRequest _) rfl rfl
      · exact call_reports fun now _ => send_reports env (.stored msgId now) rfl rfl

theorem handleCreateRoom_reports :
    Reports types.kCreateRoom .start (handleCreateRoom c req id) := by
  refine withAuth_reports env fun uid => ?_
  dsimp only
  split
  · exact send_reports env (.refused errcode.kBadRequest _) rfl rfl
  · refine call_reports fun made _ => ?_
    cases made with
    | some rid => exact enterRoom_reports env (getStr req "name") rid uid
    | none =>
      refine call_reports fun found hfound => ?_
      rcases found with _ | (_ | room)
      · exact hfound.elim
      · exact send_reports env (.refused errcode.kInternal _) rfl rfl
      · exact enterRoom_reports env (getStr req "name") room.id uid

theorem handleJoinRoom_reports : Reports types.kJoinRoom .start (handleJoinRoom c req id) := by
  refine withAuth_reports env fun uid => ?_
  unfold roomOf
  dsimp only
  split
  · refine ⟨trivial, ?_⟩
    rintro found t' ⟨hfound, rfl⟩
    rcases found with _ | (_ | room)
    · exact hfound.elim
    · exact joining_reports env _ uid
    · exact joining_reports env room.id uid
  · exact joining_reports env _ uid

theorem handleLeaveRoom_reports : Reports types.kLeaveRoom .start (handleLeaveRoom c req id) := by
  refine withAuth_reports env fun uid => ?_
  dsimp only
  split
  · exact send_reports env (.refused errcode.kBadRequest _) rfl rfl
  · exact call_reports fun _ _ => call_reports fun _ _ => send_reports env .done rfl rfl

theorem handleListRooms_reports : Reports types.kListRooms .start (handleListRooms c req id) := by
  refine withAuth_reports env fun uid => call_reports fun found hfound => ?_
  cases found with
  | error _ => exact hfound.elim
  | ok rooms => exact send_reports env (.rooms rooms) rfl rfl

theorem handleHistoryDm_reports : Reports types.kHistoryDM .start (handleHistoryDm c req id) := by
  refine withAuth_reports env fun uid => ?_
  dsimp only
  split
  · exact send_reports env (.refused errcode.kBadRequest _) rfl rfl
  · exact call_reports fun ms _ => send_reports env (.dms ms) rfl rfl

theorem handleHistoryRoom_reports :
    Reports types.kHistoryRoom .start (handleHistoryRoom c req id) := by
  refine withAuth_reports env fun uid => ?_
  dsimp only
  split
  · exact send_reports env (.refused errcode.kBadRequest _) rfl rfl
  · refine call_reports fun isMember _ => ?_
    cases isMember with
    | true => exact call_reports fun ms _ => send_reports env (.roomMsgs ms) rfl rfl
    | false => exact send_reports env (.refused errcode.kUnauthorized _) rfl rfl

theorem handlePresence_reports : Reports types.kPresence .start (handlePresence c req id) := by
  refine withAuth_reports env fun _ => ?_
  dsimp only
  split
  · exact send_reports env (.refused errcode.kBadRequest _) rfl rfl
  · refine call_reports fun found _ => ?_
    cases found with
    | none => exact send_reports env (.refused errcode.kNotFound _) rfl rfl
    | some u => exact call_reports fun online _ => send_reports env (.presence u online) rfl rfl

theorem handlePing_reports : Reports types.kPing .start (handlePing c req id) :=
  call_reports fun now _ => send_reports env (.pong now) rfl rfl

theorem dispatch_reports (payload : List UInt8) :
    Reports (requestType env payload) .start (dispatch env c payload) := by
  unfold dispatch requestType
  cases env.parse payload with
  | none => exact send_reports env (.refused errcode.kBadRequest _) rfl rfl
  | some req =>
    dsimp only
    split
    · exact send_reports env (.refused errcode.kBadRequest _) rfl rfl
    · cases hl : (table env).lookup (getStr req "type") with
      | none => exact send_reports env (.refused errcode.kBadRequest _) rfl rfl
      | some h =>
        apply (follows_tryCatch ..).mpr
        have hh : Reports (getStr req "type") .start (h c req (requestId req)) :=
          table_cases (M := fun type h => Reports type .start (h c req (requestId req)))
            (handleRegister_reports ..) (handleLogin_reports ..) (handleLogout_reports _ _ _ env)
            (handleSendDm_reports ..) (handleSendRoom_reports ..)
              (handleCreateRoom_reports _ _ _ env)
            (handleJoinRoom_reports _ _ _ env) (handleLeaveRoom_reports _ _ _ env)
            (handleListRooms_reports _ _ _ env) (handleHistoryDm_reports _ _ _ env)
            (handleHistoryRoom_reports _ _ _ env) (handlePresence_reports _ _ _ env)
            (handlePing_reports _ _ _ env) hl
        exact hh.mono (fun _ _ h => h) (fun _ h => h.elim)

end handlers

def Input.requestType (env : Env) : Input → String
  | .request _ payload => ChatServer.requestType env payload
  | .close _ => ""

theorem body_reports (env : Env) (input : Input) :
    Reports (input.requestType env) .start (body env input) := by
  cases input with
  | request c payload => exact handlers.dispatch_reports c env payload
  | close c =>
    have hthrow : (Connection.close c).NoThrow := by
      simp [Connection.close, Connection.deliverClose, (onClose_noThrow c).tryCatch,
        onClose_noThrow]
    have hsilent : Silent "" [.close, .ident, .unbind, .own] :=
      ⟨by simp, by simp, fun _ => by decide, by simp⟩
    apply (silent_follows close_uses hthrow hsilent).mono
    · rintro _ _ rfl
      exact .inl ⟨rfl, rfl⟩
    · exact fun _ h => h

end Programs

def Database.lacksRoom (db : Database) (name : String) (s : Store) : Bool :=
  match (db.run (.findRoomByName name) s).1 with
  | .ok none => true
  | _ => false

/-- The failures that are reported: a direct message is not stored, the request to join a
room is not carried out, and the room to be created is neither created nor found. -/
def Op.decisive (db : Database) (fault : Faults) (type : String) (w : World) : Op → Bool
  | .repo (.insertDm a b content ts) => (RepoOp.insertDm a b content ts).fails fault w
  | .repo (.joinRoom r u) => (RepoOp.joinRoom r u).fails fault w ∧ type = types.kJoinRoom
  | .repo (.findRoomByName n) =>
    ((RepoOp.findRoomByName n).fails fault w ∨ db.lacksRoom n w.store) ∧ type = types.kCreateRoom
  | _ => false

section Answers

variable {db : Database} {fault : Faults} {env : Env} {type : String} {t : Report} {w : World}

variable (db fault w) in
theorem findRoomByName_answer (n : String) :
    ∃ found, db.answer fault (.findRoomByName n) w = .ok found ∧
    found.isNone = ((RepoOp.findRoomByName n).fails fault w || db.lacksRoom n w.store) := by
  cases hfails : (RepoOp.findRoomByName n).fails fault w with
  | true => exact ⟨none, Database.answer_of_fails (by simp) hfails, rfl⟩
  | false =>
    obtain ⟨found, hfound⟩ := db.findRoomByName_ok w.store n
    refine ⟨found, (Database.answer_of_not_fails hfails).trans hfound, ?_⟩
    unfold Database.lacksRoom
    rw [hfound]
    cases found <;> rfl

variable (db fault w) in
theorem insertDm_answer (a b : Nat) (content : String) (ts : Int) :
    (db.answer fault (.insertDm a b content ts) w = none ∧
      (RepoOp.insertDm a b content ts).fails fault w = true) ∨
      ∃ id, db.answer fault (.insertDm a b content ts) w = some id ∧ id ≠ 0 ∧
        (RepoOp.insertDm a b content ts).fails fault w = false := by
  cases hfails : (RepoOp.insertDm a b content ts).fails fault w with
  | true => exact .inl ⟨Database.answer_of_fails (by simp) hfails, rfl⟩
  | false =>
    obtain ⟨id, hid, hne⟩ := db.insertDm_ok w.store a b content ts
    exact .inr ⟨id, (Database.answer_of_not_fails hfails).trans hid, hne, rfl⟩

theorem joinRoom_answer (r u : Nat) :
    db.answer fault (.joinRoom r u) w = !(RepoOp.joinRoom r u).fails fault w := by
  cases hfails : (RepoOp.joinRoom r u).fails fault w with
  | true => exact Database.answer_of_fails (by simp) hfails
  | false => exact (Database.answer_of_not_fails hfails).trans (db.joinRoom_ok w.store r u)

theorem possible_exec (o : Op) : Report.possible o (db.exec fault env o w).1 := by
  cases o with
  | repo o =>
    change Report.possible (.repo o) (db.answer fault o w)
    cases o with
    | insertDm a b content ts =>
      obtain ⟨h, -⟩ | ⟨id, h, hne, -⟩ := insertDm_answer db fault w a b content ts
      · rw [h]
        trivial
      · rw [h]
        exact hne
    | findUserByUsername n =>
      unfold Database.answer
      split
      · trivial
      · obtain ⟨found, h⟩ := db.findUserByUsername_ok w.store n
        rw [h]
        trivial
    | findRoomByName n =>
      obtain ⟨found, h, -⟩ := findRoomByName_answer db fault w n
      rw [h]
      trivial
    | listRoomsForUser u =>
      unfold Database.answer
      split
      · trivial
      · obtain ⟨rooms, h⟩ := db.listRoomsForUser_ok w.store u
        rw [h]
        trivial
    | _ => trivial
  | _ => trivial

theorem loud_after (o : Op) :
    (t.after type o (db.exec fault env o w).1).loud = (t.loud || o.decisive db fault type w) := by
  cases o with
  | repo o =>
    change (t.after type (.repo o) (db.answer fault o w)).loud = _
    cases o with
    | insertDm a b content ts =>
      obtain ⟨h, hfails⟩ | ⟨id, h, -, hfails⟩ := insertDm_answer db fault w a b content ts
      · simp [h, Report.after, Op.decisive, hfails]
      · simp [h, Report.after, Op.decisive, hfails]
    | joinRoom r u =>
      rw [joinRoom_answer]
      cases hfails : (RepoOp.joinRoom r u).fails fault w <;>
        simp [Report.after, Op.decisive, hfails]
    | findRoomByName n =>
      obtain ⟨found, h, hnone⟩ := findRoomByName_answer db fault w n
      rw [h]
      cases found <;> simp_all [Report.after, Op.decisive]
    | _ => simp [Report.after, Op.decisive]
  | sendFrame origin c j => cases origin <;> simp [Report.after, Op.decisive]
  | _ => simp [Report.after, Op.decisive]

theorem out_after (o : Op) (r : o.Ret) : (t.after type o r).out = t.out ++ o.reply.toList := by
  unfold Report.after
  split
  · simp [Op.reply]
  · simp [Op.reply]
  · simp [Op.reply]
  · simp [Op.reply]
  · rename_i hreply
    cases o with
    | sendFrame origin c j =>
      cases origin with
      | reply => exact (hreply c j r rfl HEq.rfl).elim
      | loop _ _ _ => simp [Op.reply]
    | _ => simp [Op.reply]

end Answers

def Log.ofTask (log : Log) (i : Nat) : Log := log.filter (·.task = i)

def Log.responses (log : Log) : List Json := log.filterMap (·.op.reply)

structure Reflects (db : Database) (fault : Faults) (type : String) (log : Log) (t : Report) :
    Prop where
  out : log.responses = t.out
  loud : t.loud = log.any fun e => e.op.decisive db fault type e.before

section Runs

variable {db : Database} {fault : Faults} {env : Env} {g : Sys} {ts : Nat → Report}

theorem Reflects.perform {type : String} {log : Log} {t : Report} (h : Reflects db fault type log t)
    (i : Nat) (j : Input) (o : Op) (w : World) :
    Reflects db fault type (log ++ [⟨i, j, o, w⟩]) (t.after type o (db.exec fault env o w).1) where
  out := by
    rw [out_after, ← h.out]
    cases hr : o.reply <;> simp [Log.responses, List.filterMap_append, hr]
  loud := by
    rw [loud_after, h.loud]
    simp

def Reporting (db : Database) (fault : Faults) (env : Env) (g : Sys) (ts : Nat → Report) : Prop :=
  ∀ i, match g.tasks i with
    | .fresh => Log.ofTask g.hist.log i = []
    | .busy j _ => Reflects db fault (j.requestType env) (Log.ofTask g.hist.log i) (ts i)

theorem Reporting.start (h : Reporting db fault env g ts) {i : Nat}
    (hi : g.tasks i = .fresh) (j : Input) :
    Reporting db fault env { g with tasks := Function.update g.tasks i (.busy j (body env j)) }
      (Function.update ts i .start) := by
  intro n
  by_cases hn : n = i
  · subst hn
    have hnone := h n
    rw [hi] at hnone
    simp only [Function.update_self]
    rw [hnone]
    exact ⟨rfl, rfl⟩
  · simp only [Function.update_of_ne hn]
    exact h n

theorem Reporting.perform (h : Reporting db fault env g ts) {i : Nat} {j : Input} {o : Op}
    {k : o.Ret → ServerM Unit} (hp : g.tasks i = .busy j (.op o k)) :
    Reporting db fault env (g.perform (db.exec fault env) i j o k)
      (Function.update ts i ((ts i).after (j.requestType env) o
        (db.exec fault env o g.hist.state).1)) := by
  intro n
  by_cases hn : n = i
  · subst hn
    have hi := h n
    rw [hp] at hi
    simpa [Config.perform, Log.ofTask] using hi.perform n j o g.hist.state
  · have hlog : Log.ofTask (g.perform (db.exec fault env) i j o k).hist.log n =
        Log.ofTask g.hist.log n := by
      simp [Config.perform, Log.ofTask, Ne.symm hn]
    rw [hlog, Config.tasks_perform_ne g hn, Function.update_of_ne hn]
    exact h n

theorem Report.Fair.internal_iff {t : Report} (h : t.Fair) :
    (∃ j, t.out = [j] ∧ isInternal j = true) ↔ t.loud = true := by
  obtain ⟨hout, hquiet⟩ | ⟨j, hout, hj⟩ := h
  · simp [hout, hquiet]
  · simp [hout, hj]

/-- In any interleaving, the failures of a request are reported exactly if none of its
calls fails or a decisive one does. -/
theorem failure_reported_iff {w : World}
    (hg : Config.Reach (db.exec fault env) (body env) (fun _ _ => True) (Config.idle w) g)
    {i c : Nat} {payload : List UInt8} (hi : g.handled i (.request c payload) = true) :
    ((∃ e ∈ Log.ofTask g.hist.log i, e.op.fails fault e.before = true) →
        ∃ j, (Log.ofTask g.hist.log i).responses = [j] ∧ isInternal j = true) ↔
      (∀ e ∈ Log.ofTask g.hist.log i, e.op.fails fault e.before = false) ∨
        ∃ e ∈ Log.ofTask g.hist.log i, e.op.decisive db fault (requestType env payload)
          e.before = true := by
  have hidle : Config.Tracked (fun j : Input => reporting (j.requestType env)) Report.Fair
    (Config.idle w)
      (fun _ => .start) := fun _ => Or.inl ⟨rfl, rfl⟩
  obtain ⟨ts, ht, hI⟩ :=
    Config.Reach.invariant (Reporting db fault env) (fun _ => .start) (fun _ => .start)
    hidle (fun _ => rfl) (fun j => (body_reports env j).mono (fun _ _ h => h) fun _ h => h.elim)
    (fun g ts i j _ hI _ hi => hI.start hi j)
    (fun g ts i j o k _ hI _ hp _ => ⟨_, ⟨possible_exec o, rfl⟩, hI.perform hp⟩) hg
  have hreflects := hI i
  obtain ⟨x, htask, hx⟩ := Sys.busy_of_handled hi
  rw [htask] at hreflects
  have hfair : (ts i).Fair := ht.done (by rw [htask]; exact hx)
  rw [hreflects.out, hfair.internal_iff, hreflects.loud, List.any_eq_true, imp_iff_not_or]
  simp only [not_exists, not_and, Bool.not_eq_true]
  rfl

def clubCall : List (Move Input) :=
  begin 0 (ask 1 (registerReq "alice" "wonder")) 3 ++
    begin 1 (ask 1 (loginReq "alice" "wonder")) 10 ++
  begin 2 (ask 1 (joinRoomReq 1)) 3

theorem failure_reported_clubCall :
    ∃ g : Sys, Config.Reach (tables.exec (failing [4]) clubEnv) (body clubEnv)
    (fun _ _ => True) Sys.start g ∧
      g.handled 2 (ask 1 (joinRoomReq 1)) = true ∧
      (∃ e ∈ Log.ofTask g.hist.log 2, e.op.fails (failing [4]) e.before = true) ∧
      ∃ j, (Log.ofTask g.hist.log 2).responses = [j] ∧ isInternal j = true := by
  have hrun : (Sys.start.steps (tables.exec (failing [4]) clubEnv) (body clubEnv)
    (fun _ _ => true) clubCall).map
      (fun g : Sys => (g.handled 2 (ask 1 (joinRoomReq 1)),
        (Log.ofTask g.hist.log 2).any fun e => e.op.fails (failing [4]) e.before,
        (Log.ofTask g.hist.log 2).any fun e => e.op.decisive tables (failing [4])
          (requestType clubEnv (payloadOf (joinRoomReq 1))) e.before)) =
            some (true, true, true) := by
    decide +kernel
  obtain ⟨g, hreach, heq⟩ := Config.Reach.of_steps (fun _ _ _ => trivial) hrun
  simp only [Prod.mk.injEq, List.any_eq_true] at heq
  obtain ⟨hhandled, hfails, hdecisive⟩ := heq
  exact ⟨g, hreach, hhandled, hfails,
    (failure_reported_iff hreach hhandled).mpr (.inr hdecisive) hfails⟩

theorem failure_unreported_register :
    ∃ g : Sys, Config.Reach (tables.exec (failing [0]) clubEnv) (body clubEnv)
    (fun _ _ => True) Sys.start g ∧
      g.handled 0 (ask 1 (registerReq "alice" "wonder")) = true ∧
      (∃ e ∈ Log.ofTask g.hist.log 0, e.op.fails (failing [0]) e.before = true) ∧
      (Log.ofTask g.hist.log 0).responses =
        [makeError none errcode.kConflict "username already taken"] ∧
      ¬∃ j, (Log.ofTask g.hist.log 0).responses = [j] ∧ isInternal j = true := by
  -- The row of the user is not written, and Alice is told that the name is taken.
  have hrun : (Sys.start.steps (tables.exec (failing [0]) clubEnv) (body clubEnv) (fun _ _ => true)
      (begin 0 (ask 1 (registerReq "alice" "wonder")) 3)).map
      (fun g : Sys => (g.handled 0 (ask 1 (registerReq "alice" "wonder")),
        (Log.ofTask g.hist.log 0).any fun e => e.op.fails (failing [0]) e.before,
        (Log.ofTask g.hist.log 0).responses)) =
          some (true, true, [makeError none errcode.kConflict "username already taken"]) := by
    rfl
  obtain ⟨g, hreach, heq⟩ := Config.Reach.of_steps (fun _ _ _ => trivial) hrun
  simp only [Prod.mk.injEq, List.any_eq_true] at heq
  obtain ⟨hhandled, hfails, hresponses⟩ := heq
  refine ⟨g, hreach, hhandled, hfails, hresponses, ?_⟩
  rintro ⟨j, hj, hinternal⟩
  rw [hresponses] at hj
  cases hj
  exact absurd hinternal (by decide)

end Runs

end ChatServer
