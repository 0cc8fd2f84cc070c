import ChatServer.Server.Due
import ChatServer.Server.Effects

namespace ChatServer

open Lib Lib.Prog

def Op.reply : Op → Option Json
  | .sendFrame .reply _ j => some j
  | _ => none

def replies {α : Type} (env : Env) (x : ServerM α) (w : World) : List Json :=
  (x.trace (memExec env) w).filterMap Op.reply

/-- The program sends the one answer and returns, or none and throws. -/
structure Says (env : Env) (id : Option Int) (x : ServerM Unit) (w : World)
    (r : Option due.Answer) : Prop where
  replies : replies env x w = (r.map (due.Answer.json env id)).toList
  result : (x.run (memExec env) w).1.isSome = r.isSome

section Rules

variable {env : Env} {id : Option Int} {w : World} {α : Type} {c : Nat} {ks : List Kind}
  {r : Option due.Answer}

theorem replies_bind {β : Type} {x : ServerM α} {f : α → ServerM β} {a : α} {w' : World}
    (hrun : x.run (memExec env) w = (some a, w')) :
    replies env (x.bind f) w = replies env x w ++ replies env (f a) w' := by
  rw [replies, trace_bind, hrun, List.filterMap_append]
  rfl

theorem Uses.replies {x : ServerM α} (hx : Uses c ks x) (hks : .reply ∉ ks) :
    replies env x w = [] := by
  rw [ChatServer.replies, List.filterMap_eq_nil_iff]
  intro o ho
  obtain ⟨hk, -⟩ := hx.trace (memExec env) w o ho
  cases o with
  | sendFrame site d j =>
    cases site with
    | reply => exact absurd hk hks
    | loop => rfl
  | _ => rfl

theorem says_send {a : due.Answer} {j : Json} (hj : j = a.json env id) :
    Says env id (handlers.send c j) w (some a) := by
  subst hj
  exact ⟨rfl, rfl⟩

theorem says_throw : Says env id .throw w none := ⟨rfl, rfl⟩

theorem Says.call {o : Op} {f : o.Ret → ServerM Unit} (ho : o.reply = none)
    (h : Says env id (f (memExec env o w).1) (memExec env o w).2 r) :
    Says env id ((ChatServer.call o).bind f) w r where
  replies := by
    rw [ChatServer.replies, ChatServer.call, Prog.call, op_bind, trace_op,
      List.filterMap_cons_none ho]
    exact h.replies
  result := h.result

theorem Says.answer {o : Op} {f : o.Ret → ServerM Unit} {a : o.Ret} (ho : o.reply = none)
    (ha : (memExec env o w).1 = a) (h : Says env id (f a) (memExec env o w).2 r) :
    Says env id ((ChatServer.call o).bind f) w r := by
  subst ha
  exact h.call ho

theorem Says.seq {x : ServerM α} {f : α → ServerM Unit} {a : α} {w' : World}
    (hrun : x.run (memExec env) w = (some a, w')) (hquiet : ChatServer.replies env x w = [])
    (h : Says env id (f a) w' r) : Says env id (x.bind f) w r where
  replies := by rw [replies_bind hrun, hquiet, h.replies, List.nil_append]
  result := by rw [run_bind, hrun]; exact h.result

theorem Says.quiet {x : ServerM α} {f : α → ServerM Unit} (hx : Uses c ks x) (hks : .reply ∉ ks)
    (hthrow : x.NoThrow) (h : ∀ a w', x.run (memExec env) w = (some a, w') →
      Says env id (f a) w' r) :
    Says env id (x.bind f) w r := by
  obtain ⟨a, ha⟩ := hthrow.run (memExec env) w
  exact (h a _ ha).seq ha (hx.replies hks)

theorem Says.tryCatch {x : ServerM Unit} (h : Says env id x w r) (a : due.Answer) :
    ChatServer.replies env (x.tryCatch (handlers.send c (a.json env id))) w =
      [(r.getD a).json env id] := by
  have hreplies := h.replies
  have hresult := h.result
  rw [ChatServer.replies] at hreplies
  rw [ChatServer.replies, trace_tryCatch, List.filterMap_append, hreplies]
  cases hrun : x.run (memExec env) w with
  | mk res w' =>
    rw [hrun] at hresult
    cases res <;> cases r <;> first | rfl | cases hresult

end Rules

section Unbound

variable (env : Env) (w : World) (c : Nat) (req : Json) (id : Option Int)

theorem handleRegister_says :
    Says env id (handlers.handleRegister env c req id) w (some (due.register w req)) := by
  unfold handlers.handleRegister due.register
  dsimp only
  split
  · exact says_send rfl
  · cases hl : w.store.usernameIdx.lookup (getStr req "username") with
    | none =>
      refine Says.call rfl (Says.answer (a := some w.store.nextUserId) rfl ?_ (says_send rfl))
      simp [exec, memory, Store.createUser, hl]
    | some u =>
      refine Says.call rfl (Says.answer (a := none) rfl ?_ (says_send rfl))
      simp [exec, memory, Store.createUser, hl]

theorem handleLogin_says :
    Says env id (handlers.handleLogin env c req id) w (due.login env w req) := by
  unfold handlers.handleLogin due.login
  apply Says.answer (a := w.store.findUserByUsername (getStr req "username")) rfl rfl
  cases w.store.findUserByUsername (getStr req "username") with
  | error e => exact says_throw
  | ok found =>
    cases found with
    | none => exact says_send rfl
    | some u =>
      dsimp only
      split
      · refine Says.call rfl (Says.call rfl
          (Says.call rfl (Says.call rfl (Says.call rfl (Says.call rfl ?_)))))
        have hbind : Uses c [.bind, .replay] (Presence.bind u.id c) := by simp
        exact Says.quiet hbind (by decide) (bind_noThrow u.id c) fun _ _ _ => says_send rfl
      · exact says_send rfl

theorem handleLogout_says :
    Says env id (handlers.handleLogout c req id) w (some .done) := by
  refine Says.call rfl (Says.quiet (handlers.revoke_uses c _) (by decide) (by simp) fun _ _ _ => ?_)
  refine Says.call rfl (Says.quiet (handlers.unbind_uses c _) (by decide) (by simp) fun _ _ _ => ?_)
  exact Says.call rfl (Says.call rfl (says_send rfl))

theorem handlePing_says :
    Says env id (handlers.handlePing c req id) w (some (.pong (env.clock w.ticks))) :=
  Says.call rfl (says_send rfl)

end Unbound

structure SeenAs (w v : World) : Prop where
  store : ∃ queues, w.store = { v.store with undelivered := queues }
  rooms : w.rooms = v.rooms
  presence : w.presence = v.presence
  ticks : w.ticks = v.ticks
  walks : w.walks = v.walks

section Auth

variable {env : Env} {w v : World} {c : Nat}

theorem SeenAs.refl (w : World) : SeenAs w w := ⟨⟨_, rfl⟩, rfl, rfl, rfl, rfl⟩

theorem SeenAs.trans {u : World} (h : SeenAs w v) (h' : SeenAs v u) : SeenAs w u where
  store := by
    obtain ⟨q, hq⟩ := h.store
    obtain ⟨q', hq'⟩ := h'.store
    exact ⟨q, by rw [hq, hq']⟩
  rooms := h.rooms.trans h'.rooms
  presence := h.presence.trans h'.presence
  ticks := h.ticks.trans h'.ticks
  walks := h.walks.trans h'.walks

theorem seenAs_frames {α : Type} {x : ServerM α}
    (hx : x.Only fun o => ∃ site d j, o = .sendFrame site d j)
    (w : World) : SeenAs (x.run (memExec env) w).2 w := by
  apply Only.run (R := fun w w' => SeenAs w' w) SeenAs.refl (fun _ _ _ h h' => h'.trans h) _ hx
  rintro o w ⟨site, d, j, rfl⟩
  exact ⟨⟨_, rfl⟩, rfl, rfl, rfl, rfl⟩

theorem sendEach_frames (caller : Caller) (u : Nat) (event : Json) (cs : List Nat) :
    (sendEach caller u event cs).Only fun o => ∃ site d j, o = .sendFrame site d j := by
  induction cs with
  | nil => trivial
  | cons d cs ih => exact ⟨⟨_, _, _, rfl⟩, fun _ => ih⟩

theorem replayEach_frames (u : Nat) (conns : List Nat) (ms : List Message) :
    (MessageRouter.replayEach u conns ms).Only fun o => ∃ site d j, o = .sendFrame site d j := by
  induction ms with
  | nil => trivial
  | cons m ms ih => exact (sendEach_frames ..).bind fun _ => ih

theorem mem_slot_bindSlot (env : Env) (w : World) (u c : Nat) :
    c ∈ (memExec env (.bindSlot u c) w).2.slot u := by
  rw [memExec_slot]
  simp [Op.onSlot]

theorem replayOffline_seenAs (env : Env) (w : World) (u : Nat) (hslot : (w.slot u).Nonempty) :
    SeenAs ((MessageRouter.replayOffline u).run (memExec env) w).2
      { w with walks := if (w.store.drainUndelivered u).1 ≠ [] then w.walks + 1 else w.walks } := by
  have hdrained : SeenAs (memExec env (.repo (.drainUndelivered u)) w).2 w := by
    refine ⟨⟨(w.store.drainUndelivered u).2.undelivered, ?_⟩, rfl, rfl, rfl, rfl⟩
    change (w.store.drainUndelivered u).2 = _
    unfold Store.drainUndelivered
    split <;> rfl
  unfold MessageRouter.replayOffline
  simp only [bind_eq_bind, Prog.call, op_bind, ret_bind, run_op, pure_eq_ret]
  rw [show (memExec env (.repo (.drainUndelivered u)) w).1 =
    (w.store.drainUndelivered u).1 from rfl]
  cases hpending : (w.store.drainUndelivered u).1 with
  | nil => simpa using hdrained
  | cons m ms =>
    have hconns : (memExec env (.connectionsOf .replay u)
        (memExec env (.repo (.drainUndelivered u)) w).2).1 ≠ [] := by
      obtain ⟨d, hd⟩ := hslot
      exact List.ne_nil_of_mem ((env.mem_order _ _ d).mpr hd)
    simp only [List.isEmpty_cons, Bool.false_eq_true, if_false, run_op, List.isEmpty_iff, hconns,
      ne_eq, reduceCtorEq, not_false_eq_true, if_true]
    refine (seenAs_frames (replayEach_frames ..) _).trans ?_
    exact ⟨hdrained.store, hdrained.rooms, hdrained.presence, hdrained.ticks,
      congrArg (· + 1) hdrained.walks⟩

theorem bind_seenAs (env : Env) (w : World) (u c : Nat) :
    SeenAs ((Presence.bind u c).run (memExec env) w).2
      { w with
        presence := (Presence.bindSlot w.presence u c).2
        walks := if w.slot u = ∅ ∧ (w.store.drainUndelivered u).1 ≠ [] then w.walks +
          1 else w.walks } := by
  unfold Presence.bind
  simp only [bind_eq_bind, Prog.call, op_bind, ret_bind, run_op, pure_eq_ret]
  rw [run_bind_ret (memExec env) _ (fun _ => (memExec env (.bindSlot u c) w).1)]
  by_cases hslot : w.slot u = ∅
  · have hfirst : (memExec env (.bindSlot u c) w).1 = true := by
      simpa [exec, Presence.bindSlot, World.slot] using hslot
    rw [hfirst, if_pos rfl]
    exact (replayOffline_seenAs env _ u ⟨c, mem_slot_bindSlot env w u c⟩).trans
      ⟨⟨_, rfl⟩, rfl, rfl, rfl, by simp [exec, hslot]⟩
  · have hfirst : (memExec env (.bindSlot u c) w).1 = false := by
      simpa [exec, Presence.bindSlot, World.slot] using hslot
    rw [hfirst, if_neg (by decide)]
    exact ⟨⟨_, rfl⟩, rfl, rfl, rfl, by simp [exec, hslot]⟩

variable (req : Json) (id : Option Int)

theorem requireAuth_refuses {message : String} (h : due.auth env w c req = .error message) :
    replies env (handlers.requireAuth c req id) w = [makeError id errcode.kUnauthorized message] ∧
      ((handlers.requireAuth c req id).run (memExec env) w).1 = some 0 := by
  unfold handlers.requireAuth
  simp only [replies, bind_eq_bind, Prog.call, op_bind, ret_bind, run_op, trace_op, pure_eq_ret]
  rw [show (memExec env (.userId c) w).1 = (w.conns c).userId from rfl]
  rw [show (memExec env (.userId c) w).2 = w from rfl]
  unfold due.auth at h
  split at h
  · cases h
  · rename_i huser
    rw [if_neg huser]
    split at h
    · rename_i htok
      cases h
      rw [if_pos htok]
      exact ⟨rfl, rfl⟩
    · rename_i htok
      rw [if_neg htok, run_op, trace_op]
      rw [show (memExec env (.validate (getStr req "token")) w).1 =
        (SessionManager.validate w.sessions (env.clock w.ticks) (getStr req "token")).1 from rfl]
      cases hv : (SessionManager.validate w.sessions (env.clock w.ticks)
          (getStr req "token")).1 with
      | none =>
        rw [hv] at h
        cases h
        exact ⟨rfl, rfl⟩
      | some info =>
        rw [hv] at h
        cases h

theorem requireAuth_accepts {uid : Nat} (h : due.auth env w c req = .ok uid) :
    replies env (handlers.requireAuth c req id) w = [] ∧
      ∃ w', (handlers.requireAuth c req id).run (memExec env) w = (some uid, w') ∧
        SeenAs w' (due.authed env w c req) := by
  have hauthed := h
  unfold handlers.requireAuth due.authed
  simp only [replies, bind_eq_bind, Prog.call, op_bind, ret_bind, run_op, trace_op, pure_eq_ret]
  rw [show (memExec env (.userId c) w).1 = (w.conns c).userId from rfl]
  rw [show (memExec env (.userId c) w).2 = w from rfl]
  unfold due.auth at h
  split at h
  · rename_i huser
    cases h
    rw [if_pos huser, if_pos huser]
    exact ⟨rfl, w, rfl, SeenAs.refl w⟩
  · rename_i huser
    rw [if_neg huser, if_neg huser, hauthed]
    split at h
    · cases h
    · rename_i htok
      rw [if_neg htok, run_op, trace_op]
      rw [show (memExec env (.validate (getStr req "token")) w).1 =
        (SessionManager.validate w.sessions (env.clock w.ticks) (getStr req "token")).1 from rfl]
      cases hv : (SessionManager.validate w.sessions (env.clock w.ticks)
          (getStr req "token")).1 with
      | none =>
        rw [hv] at h
        cases h
      | some info =>
        rw [hv] at h
        cases h
        simp only [run_op, trace_op]
        obtain ⟨v, hv⟩ : ∃ v, v = (memExec env (.setSessionToken c (getStr req "token"))
            (memExec env (.setUserId c info.userId)
              (memExec env (.validate (getStr req "token")) w).2).2).2 := ⟨_, rfl⟩
        rw [← hv]
        obtain ⟨a, ha⟩ := (bind_noThrow info.userId c).run (memExec env) v
        have hquiet : replies env (Presence.bind info.userId c) v = [] :=
          Uses.replies (show Uses c [.bind, .replay] _ by simp) (by decide)
        refine ⟨?_, ((Presence.bind info.userId c).run (memExec env) v).2, ?_, ?_⟩
        · simp only [List.filterMap_cons, Op.reply]
          exact (replies_bind ha).trans (by rw [hquiet]; rfl)
        · rw [run_bind, ha]
          rfl
        · rw [hv]
          exact (bind_seenAs env _ info.userId c).trans ⟨⟨_, rfl⟩, rfl, rfl, rfl, rfl⟩

variable {act : Nat → ServerM Unit} {f : World → Nat → Option due.Answer}

theorem withAuth_says (hzero : due.auth env w c req ≠ .ok 0)
    (hact : ∀ uid w' v, SeenAs w' v → Says env id (act uid) w' (f v uid)) :
    Says env id (handlers.withAuth c req id act) w (due.acting env w req c f) := by
  unfold handlers.withAuth due.acting
  cases hauth : due.auth env w c req with
  | error message =>
    obtain ⟨hreplies, hzero⟩ := requireAuth_refuses req id hauth
    have hrun : (handlers.requireAuth c req id).run (memExec env) w =
        (some 0, ((handlers.requireAuth c req id).run (memExec env) w).2) := by
      rw [← hzero]
    constructor
    · exact (replies_bind hrun).trans (by rw [hreplies]; rfl)
    · rw [bind_eq_bind, run_bind, hrun]
      rfl
  | ok uid =>
    obtain ⟨hquiet, w', hrun, hseen⟩ := requireAuth_accepts req id hauth
    have huid : uid ≠ 0 := by
      rintro rfl
      exact hzero hauth
    refine Says.seq hrun hquiet ?_
    rw [if_neg huid]
    exact hact uid w' _ hseen

end Auth

section Sending

variable {env : Env} {w : World} {c : Nat}

theorem Uses.ticks {α : Type} {x : ServerM α} (hx : Uses c [.dm, .roomMsg, .queue] x) (w : World) :
    (x.run (memExec env) w).2.ticks = w.ticks := by
  apply Only.run (R := fun v v' => v'.ticks = v.ticks) _ _ _ hx w
  · exact fun _ => rfl
  · intro v v' v'' h h'
    exact h'.trans h
  · rintro o v ⟨hk, -⟩
    cases o with
    | repo o => cases o <;> first | rfl | simp at hk
    | _ => first | rfl | simp at hk

theorem tail_run {x : ServerM Nat} {id : Nat} (hx : Uses c [.dm, .roomMsg, .queue] x)
    (hthrow : x.NoThrow) (hid : x.Yields (· = id)) {w : World} {n : Nat} (hn : w.ticks = n) :
    ∃ w', x.run (memExec env) w = (some id, w') ∧ w'.ticks = n := by
  obtain ⟨a, ha⟩ := hthrow.run (memExec env) w
  cases hid.run (memExec env) ha
  exact ⟨_, ha, (hx.ticks w).trans hn⟩

variable (env w) in
theorem sendDm_run (sender receiver : Nat) (content : String) :
    ∃ w', (MessageRouter.sendDm sender receiver content).run (memExec env) w =
      (some w.store.nextMsgId, w') ∧ w'.ticks = w.ticks + 1 := by
  unfold MessageRouter.sendDm
  simp only [bind_eq_bind, Prog.call, op_bind, ret_bind, run_op]
  rw [show (memExec env (.repo (.insertDm sender receiver content (memExec env .now w).1))
    (memExec env .now w).2).1 = some w.store.nextMsgId from rfl]
  dsimp only
  refine tail_run (c := 0) ((uses_op _ _).mpr ⟨by simp, fun conns => Uses.bind ?_ fun _ => ?_⟩) ?_
    ?_ rfl
  · simp
  · simp
  · simp
  · exact fun conns => Yields.bind _ fun _ => fun own => Yields.bind _ fun _ => rfl

theorem isMember_answer (r u : Nat) :
    (memExec env (.isMember r u) w).1 = decide (due.isMember w r u) := by
  simp only [exec, ensureLoaded_memory, due.isMember]
  congr 1
  split <;> simp [RoomManager.load, RoomManager.members]

variable (env w) in
theorem sendRoom_run (sender room : Nat) (content : String) :
    ∃ w', (MessageRouter.sendRoom sender room content).run (memExec env) w =
      (some (if due.isMember w room sender then w.store.nextMsgId else 0), w') ∧
        (due.isMember w room sender → w'.ticks = w.ticks + 1) := by
  unfold MessageRouter.sendRoom
  simp only [bind_eq_bind, Prog.call, op_bind, ret_bind, run_op]
  rw [isMember_answer]
  by_cases hmember : due.isMember w room sender
  · have hloaded : (memExec env (.isMember room sender) w).2.ticks = w.ticks ∧
        (memExec env (.isMember room sender) w).2.store = w.store := by
      simp [exec, ensureLoaded_memory]
    simp only [hmember, decide_true, if_true, run_op, forall_const]
    generalize (memExec env (.isMember room sender) w).2 = v at hloaded
    rw [show (memExec env (.repo (.insertRoomMsg sender room content (memExec env .now v).1))
      (memExec env .now v).2).1 = some v.store.nextMsgId from rfl, ← hloaded.1, ← hloaded.2]
    dsimp only
    rw [run_op]
    refine tail_run (c := 0) (Uses.bind (by simp) fun _ => uses_ret _)
      ((fanOut_noThrow ..).bind fun _ => trivial) (Yields.bind _ fun _ => rfl) ?_
    simp [exec, ensureLoaded_memory, memory, World.setStore]
  · simp [hmember]

end Sending

section Acting

variable {env : Env} {w v : World} {c : Nat} {req : Json} {id : Option Int}

namespace SeenAs

variable (h : SeenAs w v)

include h

theorem findUserById (env : Env) (u : Nat) :
    (memExec env (.repo (.findUserById u)) w).1 = v.store.findUserById u := by
  change w.store.findUserById u = _
  obtain ⟨q, hq⟩ := h.store
  rw [hq]
  rfl

theorem nextMsgId : w.store.nextMsgId = v.store.nextMsgId := by
  obtain ⟨q, hq⟩ := h.store
  rw [hq]

theorem messages : w.store.messages = v.store.messages := by
  obtain ⟨q, hq⟩ := h.store
  rw [hq]

theorem findRoomByName (env : Env) (name : String) :
    (memExec env (.repo (.findRoomByName name)) w).1 = v.store.findRoomByName name := by
  change w.store.findRoomByName name = _
  obtain ⟨q, hq⟩ := h.store
  rw [hq]
  rfl

theorem storeRooms : w.store.rooms = v.store.rooms := by
  obtain ⟨q, hq⟩ := h.store
  rw [hq]

theorem members (r : Nat) : w.store.members r = v.store.members r := by
  obtain ⟨q, hq⟩ := h.store
  rw [hq]
  rfl

theorem isMember_iff (r u : Nat) : due.isMember w r u ↔ due.isMember v r u := by
  rw [due.isMember, due.isMember, h.rooms, h.members]

theorem listRoomsForUser (order : Finset Nat → List Nat) (u : Nat) :
    w.store.listRoomsForUser order u = v.store.listRoomsForUser order u := by
  have hcollect (rs : List Nat) : w.store.collectRooms u rs = v.store.collectRooms u rs := by
    induction rs with
    | nil => rfl
    | cons r rs ih => rw [Store.collectRooms, Store.collectRooms, h.members, h.storeRooms, ih]
  obtain ⟨q, hq⟩ := h.store
  rw [Store.listRoomsForUser, hcollect, hq]
  rfl

end SeenAs

theorem sent_says {msgId : Nat} {message code : String} (hid : msgId = v.store.nextMsgId)
    (hticks : w.ticks = v.ticks + 1) :
    Says env id (if msgId = 0 then handlers.send c (makeError id code message)
      else do
        let now ← call .now
        handlers.send c (handlers.sentReply id msgId now)) w
          (some (due.sent env v code message)) := by
  subst hid
  unfold due.sent
  split
  · exact says_send rfl
  · rw [← hticks]
    exact Says.call rfl (says_send rfl)

theorem handleSendDm_says (hzero : due.auth env w c req ≠ .ok 0) :
    Says env id (handlers.handleSendDm env c req id) w
      (due.acting env w req c fun w _ => some (due.sendDm env w req)) := by
  apply withAuth_says req id hzero
  intro uid w v hseen
  unfold due.sendDm
  dsimp only
  generalize toU64 (getI64 req "receiver_id" 0) = receiver
  generalize getStr req "content" = content
  split
  · exact says_send rfl
  · split
    · exact says_send rfl
    · apply Says.answer rfl (hseen.findUserById env receiver)
      cases v.store.findUserById receiver with
      | none => exact says_send rfl
      | some u =>
        obtain ⟨w', hrun, hticks⟩ := sendDm_run env w uid receiver content
        apply Says.seq hrun ((MessageRouter.sendDm_uses (c := c) uid receiver content).replies
          (by decide))
        exact sent_says hseen.nextMsgId (by rw [hticks, hseen.ticks])

theorem handleSendRoom_says (hzero : due.auth env w c req ≠ .ok 0) :
    Says env id (handlers.handleSendRoom env c req id) w
      (due.acting env w req c fun w uid => some (due.sendRoom env w req uid)) := by
  apply withAuth_says req id hzero
  intro uid w v hseen
  unfold due.sendRoom
  dsimp only
  generalize toU64 (getI64 req "room_id" 0) = room
  generalize getStr req "content" = content
  split
  · exact says_send rfl
  · split
    · exact says_send rfl
    · obtain ⟨w', hrun, hticks⟩ := sendRoom_run env w uid room content
      apply Says.seq hrun ((MessageRouter.sendRoom_uses (c := c) uid room content).replies
        (by decide))
      simp only [hseen.isMember_iff] at hticks ⊢
      split
      · exact sent_says hseen.nextMsgId (by rw [hticks ‹_›, hseen.ticks])
      · exact says_send rfl

theorem enterRoom_says (name : String) (rid uid : Nat) :
    Says env id (handlers.enterRoom c id name rid uid) w (some (.entered rid name)) :=
  Says.call rfl (Says.call rfl (says_send rfl))

theorem handleCreateRoom_says (hzero : due.auth env w c req ≠ .ok 0) :
    Says env id (handlers.handleCreateRoom c req id) w
      (due.acting env w req c fun w _ => due.createRoom w req) := by
  apply withAuth_says req id hzero
  intro uid w v hseen
  unfold due.createRoom
  dsimp only
  generalize getStr req "name" = name
  split
  · exact says_send rfl
  · obtain ⟨q, hq⟩ := hseen.store
    cases hl : v.store.roomNameIdx.lookup name with
    | none =>
      apply Says.answer (a := some v.store.nextRoomId) rfl
      · simp [exec, memory, Store.createRoom, hq, hl]
      · exact enterRoom_says ..
    | some rid =>
      apply Says.answer (a := none) rfl
      · simp [exec, memory, Store.createRoom, hq, hl]
      · dsimp only
        cases hroom : v.store.rooms.lookup rid with
        | none =>
          apply Says.answer (a := Except.error OutOfRange.missing) rfl
          · simp [exec, memory, Store.createRoom, Store.findRoomByName, hq, hl, hroom]
          · exact says_throw
        | some room =>
          apply Says.answer (a := Except.ok (some room)) rfl
          · simp [exec, memory, Store.createRoom, Store.findRoomByName, hq, hl, hroom]
          · exact enterRoom_says ..

theorem joined_says (hseen : SeenAs w v) (rid uid : Nat) :
    Says env id (if rid = 0 then handlers.send c (makeError id errcode.kNotFound "room not found")
      else do
        if ← call (.repo (.joinRoom rid uid)) then do
          call (.onJoin rid uid)
          handlers.send c (makeAck id (Fields.assign [] [("room_id", .uint rid)]))
        else handlers.send c (makeError id errcode.kInternal "join failed")) w
      (some (due.joinedRoom v rid)) := by
  unfold due.joinedRoom
  split
  · exact says_send rfl
  · cases hroom : v.store.rooms.lookup rid with
    | none =>
      apply Says.answer (a := false) rfl
      · simp [exec, memory, Store.joinRoom, hseen.storeRooms, hroom]
      · exact says_send rfl
    | some room =>
      apply Says.answer (a := true) rfl
      · simp [exec, memory, Store.joinRoom, hseen.storeRooms, hroom]
      · exact Says.call rfl (says_send rfl)

theorem handleJoinRoom_says (hzero : due.auth env w c req ≠ .ok 0) :
    Says env id (handlers.handleJoinRoom c req id) w
      (due.acting env w req c fun w _ => due.joinRoom w req) := by
  apply withAuth_says req id hzero
  intro uid w v hseen
  unfold due.joinRoom handlers.roomOf
  dsimp only
  split
  · refine Says.answer rfl (hseen.findRoomByName env (getStr req "name")) ?_
    rcases v.store.findRoomByName (getStr req "name") with e | (_ | room)
    · exact says_throw
    · exact joined_says hseen ..
    · exact joined_says hseen ..
  · exact joined_says hseen ..

theorem handleLeaveRoom_says (hzero : due.auth env w c req ≠ .ok 0) :
    Says env id (handlers.handleLeaveRoom c req id) w
      (due.acting env w req c fun _ _ => some (due.leaveRoom req)) := by
  apply withAuth_says req id hzero
  intro uid w v hseen
  unfold due.leaveRoom
  dsimp only
  split
  · exact says_send rfl
  · exact Says.call rfl (Says.call rfl (says_send rfl))

theorem handleListRooms_says (hzero : due.auth env w c req ≠ .ok 0) :
    Says env id (handlers.handleListRooms c req id) w
      (due.acting env w req c fun w uid => due.listRooms env w uid) := by
  apply withAuth_says req id hzero
  intro uid w v hseen
  unfold due.listRooms
  apply Says.answer (a := v.store.listRoomsForUser (env.order v.walks) uid) rfl
  · rw [← hseen.walks, ← hseen.listRoomsForUser]
    rfl
  · cases v.store.listRoomsForUser (env.order v.walks) uid with
    | error e => exact says_throw
    | ok rooms => exact says_send rfl

theorem handleHistoryDm_says (hzero : due.auth env w c req ≠ .ok 0) :
    Says env id (handlers.handleHistoryDm c req id) w
      (due.acting env w req c fun w uid => some (due.historyDm w req uid)) := by
  apply withAuth_says req id hzero
  intro uid w v hseen
  unfold due.historyDm
  dsimp only
  split
  · exact says_send rfl
  · rw [Store.historyDm, ← hseen.messages]
    exact Says.call rfl (says_send rfl)

theorem handleHistoryRoom_says (hzero : due.auth env w c req ≠ .ok 0) :
    Says env id (handlers.handleHistoryRoom c req id) w
      (due.acting env w req c fun w uid => some (due.historyRoom w req uid)) := by
  apply withAuth_says req id hzero
  intro uid w v hseen
  unfold due.historyRoom
  dsimp only
  generalize toU64 (getI64 req "room_id" 0) = room
  split
  · exact says_send rfl
  · apply Says.answer rfl (isMember_answer room uid)
    by_cases hmember : due.isMember v room uid
    · have hw := (hseen.isMember_iff room uid).mpr hmember
      rw [Store.historyRoom, ← hseen.messages]
      simp only [hmember, hw, decide_true, if_true]
      exact Says.answer rfl (by simp [exec, memory, Store.historyRoom]) (says_send rfl)
    · have hw := (hseen.isMember_iff room uid).not.mpr hmember
      simp only [hmember, hw, decide_false, Bool.false_eq_true, if_false]
      exact says_send rfl

theorem handlePresence_says (hzero : due.auth env w c req ≠ .ok 0) :
    Says env id (handlers.handlePresence c req id) w
      (due.acting env w req c fun w _ => some (due.presence w req)) := by
  apply withAuth_says req id hzero
  intro uid w v hseen
  unfold due.presence
  dsimp only
  generalize toU64 (getI64 req "user_id" 0) = target
  split
  · exact says_send rfl
  · apply Says.answer rfl (hseen.findUserById env target)
    cases v.store.findUserById target with
    | none => exact says_send rfl
    | some u =>
      dsimp only
      rw [← hseen.presence]
      exact Says.call rfl (says_send rfl)

end Acting

section Dispatch

variable (env : Env)

theorem lookup_related {α β : Type} {R : α → β → Prop} {l : List (String × α)}
    {l' : List (String × β)}
    (h : List.Forall₂ (fun p q => p.1 = q.1 ∧ R p.2 q.2) l l') (k : String) :
    Option.Rel R (l.lookup k) (l'.lookup k) := by
  induction h with
  | nil => exact .none
  | @cons p q l l' hpq _ ih =>
    obtain ⟨p, a⟩ := p
    obtain ⟨q, b⟩ := q
    obtain ⟨rfl, hab⟩ := hpq
    simp only [List.lookup_cons]
    cases k == p with
    | true => exact .some hab
    | false => exact ih

def Answering (h : handlers.Handler) (f : due.Reply) : Prop :=
  ∀ w c req id, due.auth env w c req ≠ .ok 0 → Says env id (h c req id) w (f w c req)

theorem table_answering :
    List.Forall₂ (fun p q => p.1 = q.1 ∧ Answering env p.2 q.2) (handlers.table env)
    (due.table env) := by
  refine .cons ⟨rfl, fun w c req id _ => handleRegister_says ..⟩ ?_
  refine .cons ⟨rfl, fun w c req id _ => handleLogin_says ..⟩ ?_
  refine .cons ⟨rfl, fun w c req id _ => handleLogout_says env w c req id⟩ ?_
  refine .cons ⟨rfl, fun w c req id h => handleSendDm_says h⟩ ?_
  refine .cons ⟨rfl, fun w c req id h => handleSendRoom_says h⟩ ?_
  refine .cons ⟨rfl, fun w c req id h => handleCreateRoom_says h⟩ ?_
  refine .cons ⟨rfl, fun w c req id h => handleJoinRoom_says h⟩ ?_
  refine .cons ⟨rfl, fun w c req id h => handleLeaveRoom_says h⟩ ?_
  refine .cons ⟨rfl, fun w c req id h => handleListRooms_says h⟩ ?_
  refine .cons ⟨rfl, fun w c req id h => handleHistoryDm_says h⟩ ?_
  refine .cons ⟨rfl, fun w c req id h => handleHistoryRoom_says h⟩ ?_
  refine .cons ⟨rfl, fun w c req id h => handlePresence_says h⟩ ?_
  exact .cons ⟨rfl, fun w c req id _ => handlePing_says env w c req id⟩ .nil

variable {env} {w : World} {c : Nat} {payload : List UInt8}

theorem dispatch_replies (hzero : ∀ req, due.auth env w c req ≠ .ok 0) :
    replies env (handlers.dispatch env c payload) w = [due.reply env w c payload] := by
  unfold handlers.dispatch due.reply due.answer due.echo
  cases env.parse payload with
  | none => rfl
  | some req =>
    dsimp only
    split
    · rfl
    · have hrel := lookup_related (table_answering env) (getStr req "type")
      generalize (handlers.table env).lookup (getStr req "type") = found at hrel ⊢
      generalize (due.table env).lookup (getStr req "type") = spec at hrel ⊢
      cases hrel with
      | none => rfl
      | some hanswers =>
        have hsays := hanswers w c req (requestId req) (hzero req)
        exact hsays.tryCatch (.refused errcode.kInternal "internal error")

end Dispatch

end ChatServer
