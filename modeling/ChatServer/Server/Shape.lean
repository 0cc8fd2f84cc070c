import ChatServer.Server.Handlers

namespace ChatServer

open Lib Lib.Prog

inductive Kind : Type
  | own | reply | ident | assume | session | validate | issue | bind | unbind | close | storeDm | dm
  | storeRoomMsg | roomMsg | queue | replay | membership
  deriving DecidableEq

@[simp, reducible] def RepoOp.kind : RepoOp → Kind
  | .insertSession _ _ _ | .deleteSession _ => .session
  | .joinRoom _ _ | .leaveRoom _ _ => .membership
  | .insertDm _ _ _ _ => .storeDm
  | .insertRoomMsg _ _ _ _ => .storeRoomMsg
  | .updateMessageStatus _ _ => .dm
  | .enqueueUndelivered _ _ => .queue
  | .drainUndelivered _ => .replay
  | _ => .own

@[simp, reducible] def Caller.kind : Caller → Kind
  | .deliver | .echo => .dm
  | .fanOut => .roomMsg
  | .replay => .replay

@[simp, reducible] def Op.kind : Op → Kind
  | .userId _ | .sessionToken _ | .setSessionToken _ _ => .ident
  | .setUserId _ _ => .assume
  | .sendFrame .reply _ _ => .reply
  | .sendFrame (.loop k _ _) _ _ => k.kind
  | .connectionsOf k _ => k.kind
  | .beginClose _ | .finishClose _ => .close
  | .validate _ => .validate
  | .cacheErase _ => .session
  | .cachePut _ _ => .issue
  | .bindSlot _ _ => .bind
  | .unbindSlot _ _ => .unbind
  | .onJoin _ _ | .onLeave _ _ => .membership
  | .repo o => o.kind
  | _ => .own

@[simp, reducible] def Op.concerns (c : Nat) : Op → Prop
  | .userId c' | .setUserId c' _ | .sessionToken c' | .setSessionToken c' _ => c' = c
  | .sendFrame .reply c' _ => c' = c
  | .beginClose c' | .finishClose c' => c' = c
  | .bindSlot _ c' | .unbindSlot _ c' => c' = c
  | _ => True

/-- The program, run for connection `c`, calls operations of the listed kinds only. -/
def Uses {α : Type} (c : Nat) (ks : List Kind) (x : ServerM α) : Prop :=
  x.Only (fun o => o.kind ∈ ks ∧ o.concerns c)

variable {α β : Type} {c : Nat} {ks ks' : List Kind}

@[simp] theorem uses_ret (a : α) : Uses c ks (.ret a) := trivial

@[simp] theorem uses_throw : Uses c ks (.throw : ServerM α) := trivial

@[simp] theorem uses_op (o : Op) (k : o.Ret → ServerM α) :
    Uses c ks (.op o k) ↔ (o.kind ∈ ks ∧ o.concerns c) ∧ ∀ r, Uses c ks (k r) := Iff.rfl

@[simp] theorem uses_ite {a : Prop} [Decidable a] (x y : ServerM α) :
    Uses c ks (if a then x else y) ↔ (a → Uses c ks x) ∧ (¬a → Uses c ks y) := only_ite x y

@[simp] theorem Uses.bind {x : ServerM α} {f : α → ServerM β} (hx : Uses c ks x)
    (hf : ∀ a, Uses c ks (f a)) : Uses c ks (x.bind f) := Only.bind hx hf

@[simp] theorem Uses.tryCatch {x h : ServerM α} (hx : Uses c ks x) (hh : Uses c ks h) :
    Uses c ks (x.tryCatch h) := Only.tryCatch hx hh

theorem Uses.mono {x : ServerM α} (h : Uses c ks x) (hks : ks ⊆ ks') : Uses c ks' x :=
  Only.mono h fun _ ho => ⟨hks ho.1, ho.2⟩

@[simp] theorem sendEach_uses {caller : Caller} (h : caller.kind ∈ ks) (u : Nat) (event : Json)
    (cs : List Nat) : Uses c ks (sendEach caller u event cs) := by
  induction cs with
  | nil => simp [sendEach]
  | cons d cs ih =>
    cases caller <;> simp_all [sendEach]

section Keeps

variable {τ : Type} {P : Contract Op.Ret τ} {Rest : τ → Prop}

def Neutral (P : Contract Op.Ret τ) (Rest : τ → Prop) (c : Nat) (ks : List Kind) : Prop :=
  ∀ o : Op, (o.kind ∈ ks ∧ o.concerns c) → Answers P Rest o fun _ => True

theorem Neutral.op {o : Op} {k : o.Ret → ServerM α} (h : Neutral P Rest c ks)
    (ho : o.kind ∈ ks ∧ o.concerns c) (hk : ∀ r, Keeps P Rest (k r)) : Keeps P Rest (.op o k) :=
  (h o ho).op fun r _ => hk r

theorem Uses.keeps {x : ServerM α} (h : Uses c ks x) (hks : Neutral P Rest c ks')
    (hsub : ks ⊆ ks') : Keeps P Rest x :=
  Only.keeps (h.mono hsub) hks

end Keeps

namespace MessageRouter

@[simp] theorem replayEach_uses (h : .replay ∈ ks) (u : Nat) (conns : List Nat)
    (ms : List Message) : Uses c ks (replayEach u conns ms) := by
  induction ms with
  | nil => simp [replayEach]
  | cons m ms ih => simp [replayEach, ih, h]

@[simp] theorem replayOffline_uses (h : .replay ∈ ks) (u : Nat) : Uses c ks (replayOffline u) := by
  simp [replayOffline, h]

theorem sendDm_uses (sender receiver : Nat) (content : String) :
    Uses c [.own, .storeDm, .dm, .queue] (sendDm sender receiver content) := by
  simp only [sendDm, bind_eq_bind, Prog.call, op_bind, ret_bind, uses_op]
  refine ⟨by simp, fun ts => ⟨by simp, fun id => ?_⟩⟩
  cases id with
  | none => simp
  | some id =>
    rw [uses_op]
    refine ⟨by simp, fun conns => Uses.bind ?_ fun _ => ?_⟩
    · simp
    · simp

@[simp] theorem fanOut_uses (h : .roomMsg ∈ ks) (hq : .queue ∈ ks) (id sender : Nat) (event : Json)
    (us : List Nat) : Uses c ks (fanOut id sender event us) := by
  induction us with
  | nil => simp [fanOut]
  | cons u us ih => simp [fanOut, ih, h, hq]

theorem sendRoom_uses (sender room : Nat) (content : String) :
    Uses c [.own, .storeRoomMsg, .roomMsg, .queue] (sendRoom sender room content) := by
  simp [sendRoom, Option.forall]

end MessageRouter

namespace Presence

@[simp] theorem bind_uses (hp : .bind ∈ ks) (hr : .replay ∈ ks) (u : Nat) :
    Uses c ks (Presence.bind u c) := by
  simp [Presence.bind, onTransition, hp, hr]

@[simp] theorem unbind_uses (hp : .unbind ∈ ks) (ho : .own ∈ ks) (u : Nat) :
    Uses c ks (Presence.unbind u c) := by
  simp [Presence.unbind, onTransition, hp, ho]

end Presence

namespace SessionManager

@[simp] theorem create_uses (env : Env) (ho : .own ∈ ks) (hs : .session ∈ ks) (hi : .issue ∈ ks)
    (u : Nat) : Uses c ks (create env u) := by
  simp [create, makeSessionToken, ho, hs, hi]

@[simp] theorem revoke_uses (hs : .session ∈ ks) (tok : String) : Uses c ks (revoke tok) := by
  simp [revoke, hs]

end SessionManager

section NoThrow

@[simp] theorem sendEach_noThrow (caller : Caller) (u : Nat) (event : Json) (cs : List Nat) :
    (sendEach caller u event cs).NoThrow := by
  induction cs with
  | nil => simp [sendEach]
  | cons d cs ih => simp [sendEach, ih]

@[simp] theorem replayEach_noThrow (u : Nat) (conns : List Nat) (ms : List Message) :
    (MessageRouter.replayEach u conns ms).NoThrow := by
  induction ms with
  | nil => simp [MessageRouter.replayEach]
  | cons m ms ih => simp [MessageRouter.replayEach, ih]

theorem fanOut_noThrow (id sender : Nat) (event : Json) (us : List Nat) :
    (MessageRouter.fanOut id sender event us).NoThrow := by
  induction us with
  | nil => trivial
  | cons u us ih => simp [MessageRouter.fanOut, ih]

@[simp] theorem bind_noThrow (u c : Nat) : (Presence.bind u c).NoThrow := by
  simp [Presence.bind, onTransition, MessageRouter.replayOffline]

@[simp] theorem unbind_noThrow (u c : Nat) : (Presence.unbind u c).NoThrow := by
  simp [Presence.unbind, onTransition]

@[simp] theorem create_noThrow (env : Env) (u : Nat) : (SessionManager.create env u).NoThrow := by
  simp [SessionManager.create, SessionManager.makeSessionToken]

@[simp] theorem revoke_noThrow (tok : String) : (SessionManager.revoke tok).NoThrow := by
  simp [SessionManager.revoke]

theorem onClose_noThrow (c : Nat) : (onClose c).NoThrow := by
  simp [onClose]

theorem requireAuth_noThrow (c : Nat) (req : Json) (id : Option Int) :
    (handlers.requireAuth c req id).NoThrow := by
  simp [handlers.requireAuth, handlers.send, Option.forall]

end NoThrow

theorem close_uses : Uses c [.close, .ident, .unbind, .own] (Connection.close c) := by
  have h : Uses c [.close, .ident, .unbind, .own] (onClose c) := by simp [onClose]
  simp [Connection.close, Connection.deliverClose, h]

namespace handlers

theorem requireAuth_uses (req : Json) (id : Option Int) :
    Uses c [.ident, .assume, .reply, .validate, .bind, .replay] (requireAuth c req id) := by
  simp [requireAuth, send, Option.forall]

def Acts (h : Handler) (ks : List Kind) : Prop :=
  ∀ c req id, ∃ act, h c req id = withAuth c req id act ∧ ∀ uid, Uses c ks (act uid)

theorem handleRegister_uses (env : Env) (req : Json) (id : Option Int) :
    Uses c [.own, .reply] (handleRegister env c req id) := by
  simp [handleRegister, send, Option.forall]

theorem handleLogin_uses (env : Env) (req : Json) (id : Option Int) :
    Uses c [.own, .reply, .ident, .assume, .session, .issue, .bind, .replay]
    (handleLogin env c req id) := by
  simp only [handleLogin, bind_eq_bind, Prog.call, op_bind, ret_bind, uses_op]
  refine ⟨by simp, fun r => ?_⟩
  rcases r with e | (_ | u)
  · simp
  · simp [send]
  · refine (uses_ite _ _).mpr ⟨fun _ => Uses.bind (by simp) fun token =>
      ?_, fun _ => by simp [send]⟩
    simp [send]

theorem handleLogout_uses (req : Json) (id : Option Int) :
    Uses c [.own, .reply, .ident, .assume, .session, .unbind] (handleLogout c req id) := by
  simp only [handleLogout, bind_eq_bind, Prog.call, op_bind, ret_bind, uses_op]
  refine ⟨by simp, fun tok => Uses.bind (by simp) fun _ => ?_⟩
  refine (uses_op _ _).mpr ⟨by simp, fun uid => Uses.bind (by simp) fun _ => ?_⟩
  simp [send]

theorem handleSendDm_acts (env : Env) :
    Acts (handleSendDm env) [.own, .reply, .storeDm, .dm, .queue] := by
  intro c req id
  refine ⟨_, rfl, fun uid => ?_⟩
  have h := fun r s => (MessageRouter.sendDm_uses (c := c) uid r s).mono
    (show [.own, .storeDm, .dm, .queue] ⊆ [Kind.own, .reply, .storeDm, .dm, .queue] by decide)
  simp [send, Option.forall, h]

theorem handleSendRoom_acts (env : Env) :
    Acts (handleSendRoom env) [.own, .reply, .storeRoomMsg, .roomMsg, .queue] := by
  intro c req id
  refine ⟨_, rfl, fun uid => ?_⟩
  have h := fun r s => (MessageRouter.sendRoom_uses (c := c) uid r s).mono
    (show [.own, .storeRoomMsg, .roomMsg, .queue] ⊆ [Kind.own, .reply, .storeRoomMsg, .roomMsg,
      .queue] by decide)
  simp [send, h]

theorem handleCreateRoom_acts : Acts handleCreateRoom [.own, .reply, .membership] := by
  intro c req id
  refine ⟨_, rfl, fun uid => ?_⟩
  simp only [uses_ite, bind_eq_bind, Prog.call, op_bind, ret_bind, uses_op]
  refine ⟨fun _ => by simp [send], fun _ => ⟨by simp, fun r => ?_⟩⟩
  rcases r with _ | rid
  · rw [uses_op]
    refine ⟨by simp, fun r => ?_⟩
    rcases r with e | (_ | room) <;> simp [send, enterRoom]
  · simp [enterRoom, send]

theorem roomOf_uses (req : Json) : Uses c [.own] (roomOf req) := by
  simp only [roomOf, bind_eq_bind, Prog.call, op_bind, ret_bind, uses_ite, uses_op]
  refine ⟨fun _ => ⟨by simp, fun r => ?_⟩, fun _ => trivial⟩
  rcases r with e | (_ | room) <;> simp

theorem handleJoinRoom_acts : Acts handleJoinRoom [.own, .reply, .membership] := by
  intro c req id
  refine ⟨_, rfl, fun uid => ?_⟩
  have h := (roomOf_uses (c := c) req).mono
    (show [.own] ⊆ [Kind.own, .reply, .membership] by decide)
  simp [send, h]

theorem handleLeaveRoom_acts : Acts handleLeaveRoom [.own, .reply, .membership] := by
  intro c req id
  refine ⟨_, rfl, fun uid => ?_⟩
  simp [send]

theorem handleListRooms_acts : Acts handleListRooms [.own, .reply] := by
  intro c req id
  refine ⟨_, rfl, fun uid => ?_⟩
  simp only [bind_eq_bind, Prog.call, op_bind, ret_bind, uses_op]
  refine ⟨by simp, fun r => ?_⟩
  rcases r with e | rooms <;> simp [send]

theorem handleHistoryDm_acts : Acts handleHistoryDm [.own, .reply] := by
  intro c req id
  refine ⟨_, rfl, fun uid => ?_⟩
  simp [send]

theorem handleHistoryRoom_acts : Acts handleHistoryRoom [.own, .reply] := by
  intro c req id
  refine ⟨_, rfl, fun uid => ?_⟩
  simp [send]

theorem handlePresence_acts : Acts handlePresence [.own, .reply] := by
  intro c req id
  refine ⟨_, rfl, fun uid => ?_⟩
  simp [send, Option.forall]

theorem handlePing_uses (req : Json) (id : Option Int) :
    Uses c [.own, .reply] (handlePing c req id) := by
  simp [handlePing, send]

theorem table_cases {env : Env} {M : String → Handler → Prop}
    (hregister : M types.kRegister (handleRegister env)) (hlogin : M types.kLogin (handleLogin env))
    (hlogout : M types.kLogout handleLogout) (hsendDm : M types.kSendDM (handleSendDm env))
    (hsendRoom : M types.kSendRoom (handleSendRoom env))
    (hcreateRoom : M types.kCreateRoom handleCreateRoom)
    (hjoinRoom : M types.kJoinRoom handleJoinRoom) (hleaveRoom : M types.kLeaveRoom handleLeaveRoom)
    (hlistRooms : M types.kListRooms handleListRooms)
    (hhistoryDm : M types.kHistoryDM handleHistoryDm)
    (hhistoryRoom : M types.kHistoryRoom handleHistoryRoom)
    (hpresence : M types.kPresence handlePresence) (hping : M types.kPing handlePing)
    {type : String} {h : Handler} (hl : (table env).lookup type = some h) : M type h := by
  have hm : (type, h) ∈ table env := by
    obtain ⟨l₁, l₂, heq, -⟩ := List.lookup_eq_some_iff.mp hl
    simp [heq]
  simp only [table, List.mem_cons, Prod.mk.injEq, List.not_mem_nil, or_false] at hm
  rcases hm with ⟨rfl, rfl⟩ | ⟨rfl, rfl⟩ | ⟨rfl, rfl⟩ | ⟨rfl, rfl⟩ | ⟨rfl, rfl⟩ | ⟨rfl, rfl⟩ |
    ⟨rfl, rfl⟩ | ⟨rfl, rfl⟩ | ⟨rfl, rfl⟩ | ⟨rfl, rfl⟩ | ⟨rfl, rfl⟩ | ⟨rfl, rfl⟩ | ⟨rfl, rfl⟩ <;>
  assumption

theorem dispatch_cases {env : Env} {payload : List UInt8} {Q : ServerM Unit → Prop}
    (hsend : ∀ j, Q (send c j)) (hcall : ∀ req h, env.parse payload = some req →
      (table env).lookup (getStr req "type") = some h →
      Q ((h c req (requestId req)).tryCatch
        (send c (makeError (requestId req) errcode.kInternal "internal error")))) :
    Q (dispatch env c payload) := by
  simp only [dispatch]
  split
  · exact hsend _
  · rename_i req hreq
    split
    · exact hsend _
    · split
      · exact hsend _
      · rename_i h hl
        exact hcall req h hreq hl

theorem Acts.uses {h : Handler} (hh : Acts h ks) (hsub : ks ⊆ ks')
    (hauth : [.ident, .assume, .reply, .validate, .bind, .replay] ⊆ ks') (req : Json)
    (id : Option Int) : Uses c ks' (h c req id) := by
  obtain ⟨act, heq, hact⟩ := hh c req id
  rw [heq]
  apply Uses.bind ((requireAuth_uses req id).mono hauth)
  intro uid
  split
  · exact uses_ret ()
  · exact (hact uid).mono hsub

theorem dispatch_uses (env : Env) (payload : List UInt8) :
    Uses c [.own, .reply, .ident, .assume, .session, .validate, .issue, .bind,
      .unbind, .storeDm, .dm, .storeRoomMsg, .roomMsg, .queue, .replay, .membership]
        (dispatch env c payload) := by
  apply dispatch_cases
  · simp [send]
  · intro req h _ hl
    apply Uses.tryCatch _ (by simp [send])
    refine table_cases (M := fun _ h => Uses c _ (h c req _))
      ((handleRegister_uses env req _).mono ?_)
      ((handleLogin_uses env req _).mono ?_) ((handleLogout_uses req _).mono ?_)
      ((handleSendDm_acts env).uses ?_ ?_ req _) ((handleSendRoom_acts env).uses ?_ ?_ req _)
      (handleCreateRoom_acts.uses ?_ ?_ req _) (handleJoinRoom_acts.uses ?_ ?_ req _)
      (handleLeaveRoom_acts.uses ?_ ?_ req _) (handleListRooms_acts.uses ?_ ?_ req _)
      (handleHistoryDm_acts.uses ?_ ?_ req _) (handleHistoryRoom_acts.uses ?_ ?_ req _)
      (handlePresence_acts.uses ?_ ?_ req _) ((handlePing_uses req _).mono ?_) hl <;> decide

section Logout

variable (c)

theorem revoke_uses (tok : String) :
    Uses c [.session] (if tok ≠ "" then SessionManager.revoke tok else pure () : ServerM Unit) := by
  simp

theorem unbind_uses (uid : Nat) : Uses c [.own, .unbind]
    (if uid ≠ 0 then Presence.unbind uid c >>= fun _ => pure () else pure () : ServerM Unit) := by
  simp

end Logout

section Keeps

variable {τ : Type} {P : Contract Op.Ret τ} {Rest : τ → Prop} {env : Env}

variable {G : Nat → Prop} (hks : Neutral P Rest c ks)

include hks

theorem send_keeps (hown : [.own, .reply] ⊆ ks) (j : Json) : Keeps P Rest (send c j) :=
  hks.op (o := .sendFrame .reply c j) ⟨hown (by simp), rfl⟩ fun _ => keeps_ret _

theorem requireAuth_keeps_of_error {id : Option Int} (hident : [.ident, .assume] ⊆ ks)
    (herror : ∀ message, Keeps P Rest (send c (makeError id errcode.kUnauthorized message)))
    (hvalidate : ∀ tok, Answers P Rest (.validate tok) fun r => ∀ info, r = some info →
      G info.userId)
    (hbind : ∀ u, G u → Keeps P Rest (Presence.bind u c)) (req : Json) :
    Keeps P Rest (requireAuth c req id) := by
  refine hks.op ⟨hident (by simp), rfl⟩ fun uid => ?_
  dsimp only [ret_bind]
  split
  · exact keeps_ret uid
  · split
    · exact (herror _).bind fun _ => keeps_ret 0
    · refine (hvalidate _).op fun info hinfo => ?_
      cases info with
      | none => exact (herror _).bind fun _ => keeps_ret 0
      | some info =>
        refine hks.op ⟨hident (by simp), rfl⟩ fun _ => hks.op ⟨hident (by simp), rfl⟩ fun _ => ?_
        exact (hbind _ (hinfo info rfl)).bind fun _ => keeps_ret _

theorem requireAuth_keeps (hown : [.own, .reply] ⊆ ks) (hident : [.ident, .assume] ⊆ ks)
    (hvalidate : ∀ tok, Answers P Rest (.validate tok) fun r => ∀ info, r = some info →
      G info.userId)
    (hbind : ∀ u, G u → Keeps P Rest (Presence.bind u c)) (req : Json) (id : Option Int) :
    Keeps P Rest (requireAuth c req id) :=
  requireAuth_keeps_of_error hks hident (fun _ => send_keeps hks hown _) hvalidate hbind req

theorem handleLogin_keeps (hown : [.own, .reply] ⊆ ks) (hident : [.ident, .assume] ⊆ ks)
    (hfind : ∀ n, Answers P Rest (.repo (.findUserByUsername n)) fun r =>
      ∀ u, r = .ok (some u) → G u.id)
    (hcreate : ∀ u, G u → Keeps P Rest (SessionManager.create env u))
    (hbind : ∀ u, G u → Keeps P Rest (Presence.bind u c)) (req : Json) (id : Option Int) :
    Keeps P Rest (handleLogin env c req id) := by
  refine (hfind _).op fun found hfound => ?_
  rcases found with e | (_ | u)
  · exact keeps_throw
  · exact send_keeps hks hown _
  · have hu := hfound u rfl
    dsimp only [ret_bind]
    split
    · refine (hcreate u.id hu).bind fun token => ?_
      refine hks.op ⟨hident (by simp), rfl⟩ fun _ => hks.op ⟨hident (by simp), rfl⟩ fun _ => ?_
      exact (hbind u.id hu).bind fun _ => send_keeps hks hown _
    · exact send_keeps hks hown _

theorem handleLogout_keeps (hsub : [.own, .reply, .ident, .session, .unbind] ⊆ ks)
    (hreset : Answers P Rest (.setUserId c 0) fun _ => True) (req : Json) (id : Option Int) :
    Keeps P Rest (handleLogout c req id) := by
  have hwithin {ks' : List Kind} (h : ks' ⊆ [.own, .reply, .ident, .session, .unbind]) : ks' ⊆ ks :=
    fun _ hk => hsub (h hk)
  refine hks.op (o := .sessionToken c) ⟨hsub (by simp), rfl⟩ fun tok => ?_
  refine ((revoke_uses c tok).keeps hks (hwithin (by decide))).bind fun _ => ?_
  refine hks.op (o := .userId c) ⟨hsub (by simp), rfl⟩ fun uid => ?_
  refine ((unbind_uses c uid).keeps hks (hwithin (by decide))).bind fun _ => ?_
  refine hreset.op fun _ _ => ?_
  refine hks.op (o := .setSessionToken c "") ⟨hsub (by simp), rfl⟩ fun _ => ?_
  exact send_keeps hks (hwithin (by decide)) _

omit hks

theorem withAuth_keeps {req : Json} {id : Option Int} {act : Nat → ServerM Unit}
    (hauth : Keeps P Rest (requireAuth c req id)) (hact : ∀ uid, uid ≠ 0 → Keeps P Rest (act uid)) :
    Keeps P Rest (withAuth c req id act) := by
  refine hauth.bind fun uid => ?_
  split
  · exact keeps_ret ()
  · exact hact uid ‹_›

theorem Acts.keeps {h : Handler} (hh : Acts h ks) (hks : Neutral P Rest c ks') (hsub : ks ⊆ ks')
    {req : Json} {id : Option Int} (hauth : Keeps P Rest (requireAuth c req id)) :
    Keeps P Rest (h c req id) := by
  obtain ⟨act, heq, hact⟩ := hh c req id
  rw [heq]
  exact withAuth_keeps hauth fun uid _ => (hact uid).keeps hks hsub

theorem sentReply_keeps (hks : Neutral P Rest c ks) (hown : [.own, .reply] ⊆ ks) (id : Option Int)
    (j : Json) (msgId : Nat) :
    Keeps P Rest (if msgId = 0 then send c j else call .now >>= fun now =>
      send c (sentReply id msgId now)) := by
  split
  · exact send_keeps hks hown _
  · exact hks.op (o := .now) ⟨hown (by simp), trivial⟩ fun now => send_keeps hks hown _

theorem handleSendDm_act (env : Env) (c : Nat) (req : Json) (id : Option Int) :
    ∃ act, handleSendDm env c req id = withAuth c req id act ∧
      ∀ {τ : Type} {P : Contract Op.Ret τ} {R : τ → Prop} {ks : List Kind} (sender : Nat),
        Neutral P R c ks → [.own, .reply] ⊆ ks →
        (∀ receiver content, content.utf8ByteSize ≤ env.maxMessage →
          Keeps P R (MessageRouter.sendDm sender receiver content)) →
        Keeps P R (act sender) := by
  refine ⟨_, rfl, ?_⟩
  intro τ P R ks sender hks hown hsendDm
  have hsend := send_keeps hks hown
  dsimp only
  split
  · exact hsend _
  · split
    · exact hsend _
    · rename_i hsize
      refine hks.op ⟨hown (by simp), trivial⟩ fun found => ?_
      cases found with
      | none => exact hsend _
      | some _ =>
        exact (hsendDm _ _ (Nat.le_of_not_lt hsize)).bind fun msgId =>
          sentReply_keeps hks hown id _ msgId

theorem handleSendRoom_act (env : Env) (c : Nat) (req : Json) (id : Option Int) :
    ∃ act, handleSendRoom env c req id = withAuth c req id act ∧
      ∀ {τ : Type} {P : Contract Op.Ret τ} {R : τ → Prop} {ks : List Kind} (sender : Nat),
        Neutral P R c ks → [.own, .reply] ⊆ ks →
        (∀ room content, content.utf8ByteSize ≤ env.maxMessage →
          Keeps P R (MessageRouter.sendRoom sender room content)) →
        Keeps P R (act sender) := by
  refine ⟨_, rfl, ?_⟩
  intro τ P R ks sender hks hown hsendRoom
  have hsend := send_keeps hks hown
  dsimp only
  split
  · exact hsend _
  · split
    · exact hsend _
    · rename_i hsize
      exact (hsendRoom _ _ (Nat.le_of_not_lt hsize)).bind fun msgId =>
        sentReply_keeps hks hown id _ msgId

theorem dispatch_keeps {payload : List UInt8} (hks : Neutral P Rest c ks)
    (hown : [.own, .reply] ⊆ ks)
    (hauth : ∀ req, env.parse payload = some req → Keeps P Rest (requireAuth c req (requestId req)))
    (hlogin : ∀ req, env.parse payload = some req → getStr req "type" = types.kLogin →
      Keeps P Rest (handleLogin env c req (requestId req)))
    (hlogout : ∀ req, env.parse payload = some req →
      Keeps P Rest (handleLogout c req (requestId req)))
    (hdm : ∀ req, env.parse payload = some req →
      Keeps P Rest (handleSendDm env c req (requestId req)))
    (hroom : ∀ req, env.parse payload = some req →
      Keeps P Rest (handleSendRoom env c req (requestId req)))
    (hcreate : ∀ req, env.parse payload = some req →
      Keeps P Rest (handleCreateRoom c req (requestId req)))
    (hjoin : ∀ req, env.parse payload = some req →
      Keeps P Rest (handleJoinRoom c req (requestId req)))
    (hleave : ∀ req, env.parse payload = some req →
      Keeps P Rest (handleLeaveRoom c req (requestId req))) :
    Keeps P Rest (dispatch env c payload) := by
  have hsend := send_keeps hks hown
  apply dispatch_cases hsend
  intro req h hreq hl
  have hauth := hauth req hreq
  refine Keeps.tryCatch ?_ (hsend _)
  refine table_cases (M := fun type h => getStr req "type" = type → Keeps P Rest (h c req _))
    ?_ (hlogin req hreq) ?_ ?_ ?_ ?_ ?_ ?_ ?_ ?_ ?_ ?_ ?_ hl rfl <;> intro _
  · exact (handleRegister_uses env req _).keeps hks hown
  · exact hlogout req hreq
  · exact hdm req hreq
  · exact hroom req hreq
  · exact hcreate req hreq
  · exact hjoin req hreq
  · exact hleave req hreq
  · exact handleListRooms_acts.keeps hks hown hauth
  · exact handleHistoryDm_acts.keeps hks hown hauth
  · exact handleHistoryRoom_acts.keeps hks hown hauth
  · exact handlePresence_acts.keeps hks hown hauth
  · exact (handlePing_uses req _).keeps hks hown

theorem dispatch_keeps_accepted {payload : List UInt8} (hks : Neutral P Rest c ks)
    (hsub : [.own, .reply, .ident, .assume, .session, .validate, .issue, .unbind, .membership] ⊆ ks)
    (hbind : ∀ u, Keeps P Rest (Presence.bind u c))
    (hdm : ∀ sender receiver content, content.utf8ByteSize ≤ env.maxMessage →
      Keeps P Rest (MessageRouter.sendDm sender receiver content))
    (hroom : ∀ sender room content, content.utf8ByteSize ≤ env.maxMessage →
      Keeps P Rest (MessageRouter.sendRoom sender room content)) :
    Keeps P Rest (dispatch env c payload) := by
  have hwithin {ks' : List Kind}
      (h : ks' ⊆ [.own, .reply, .ident, .assume, .session, .validate, .issue, .unbind,
        .membership]) : ks' ⊆ ks :=
    fun _ hk => hsub (h hk)
  have hown : [.own, .reply] ⊆ ks := hwithin (by decide)
  have hfree {o : Op} {F : o.Ret → Prop} (ho : o.kind ∈ ks ∧ o.concerns c) (hF : ∀ r, F r) :
      Answers P Rest o F :=
    fun t ht => ⟨(hks o ho t ht).1, fun r t' h => ⟨((hks o ho t ht).2 r t' h).1, hF r⟩⟩
  have hauth : ∀ req id, Keeps P Rest (requireAuth c req id) :=
    requireAuth_keeps (G := fun _ => True) hks hown (hwithin (by decide))
      (fun tok => hfree ⟨hsub (by simp), trivial⟩ fun _ _ _ => trivial) fun u _ => hbind u
  have hcreate (u : Nat) : Uses c [.own, .session, .issue] (SessionManager.create env u) := by simp
  refine dispatch_keeps hks hown (fun req _ => hauth req _) (fun req _ _ => ?_)
    (fun req _ => (handleLogout_uses req _).keeps hks (hwithin (by decide))) (fun req _ => ?_)
      (fun req _ => ?_)
    (fun req _ => handleCreateRoom_acts.keeps hks (hwithin (by decide)) (hauth req _))
    (fun req _ => handleJoinRoom_acts.keeps hks (hwithin (by decide)) (hauth req _))
    (fun req _ => handleLeaveRoom_acts.keeps hks (hwithin (by decide)) (hauth req _))
  · exact handleLogin_keeps (G := fun _ => True) hks hown (hwithin (by decide))
      (fun n => hfree ⟨hown (by simp), trivial⟩ fun _ _ _ => trivial)
      (fun u _ => (hcreate u).keeps hks (hwithin (by decide))) (fun u _ => hbind u) req _
  · obtain ⟨act, heq, hact⟩ := handleSendDm_act env c req (requestId req)
    rw [heq]
    exact withAuth_keeps (hauth req _) fun sender _ => hact sender hks hown (hdm sender)
  · obtain ⟨act, heq, hact⟩ := handleSendRoom_act env c req (requestId req)
    rw [heq]
    exact withAuth_keeps (hauth req _) fun sender _ => hact sender hks hown (hroom sender)

theorem dispatch_keeps_routing {payload : List UInt8} (hks : Neutral P Rest c ks)
    (hsub : [.own, .reply, .ident, .assume, .session, .validate, .issue, .unbind, .membership] ⊆ ks)
    (hbind : ∀ u, Keeps P Rest (Presence.bind u c))
    (hdm : ∀ sender receiver content, Keeps P Rest (MessageRouter.sendDm sender receiver content))
    (hroom : ∀ sender room content, Keeps P Rest (MessageRouter.sendRoom sender room content)) :
    Keeps P Rest (dispatch env c payload) :=
  dispatch_keeps_accepted hks hsub hbind (fun s r content _ => hdm s r content)
    fun s r content _ => hroom s r content

end Keeps

end handlers

end ChatServer
