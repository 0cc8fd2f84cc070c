import ChatServer.Server.RoomCache

namespace ChatServer

open Lib Lib.Prog

structure Pushes (env : Env) (w w' : World) (frames : List (Nat × Json)) : Prop where
  presence : w'.presence = w.presence
  sessions : w'.sessions = w.sessions
  conns : ∀ d, w'.conns d =
    (frames.filter (fun p => p.1 = d)).foldl (fun k p => k.sendFrame env p.2) (w.conns d)

namespace Pushes

variable {env : Env} {w w' w'' : World} {frames frames' : List (Nat × Json)}

theorem refl : Pushes env w w [] := ⟨rfl, rfl, fun _ => rfl⟩

theorem trans (h : Pushes env w w' frames) (h' : Pushes env w' w'' frames') :
    Pushes env w w'' (frames ++ frames') where
  presence := h'.presence.trans h.presence
  sessions := h'.sessions.trans h.sessions
  conns d := by rw [List.filter_append, List.foldl_append, ← h.conns, h'.conns]

def kinds : List Kind :=
  [.own, .reply, .storeDm, .dm, .storeRoomMsg, .roomMsg, .queue, .replay, .membership]

theorem op {o : Op} (ho : o.kind ∈ kinds) : Pushes env w (memExec env o w).2 o.sent.toList := by
  refine ⟨?_, ?_, fun d => ?_⟩
  · cases o <;> simp_all [kinds, exec, World.setConn]
  · cases o <;> simp_all [kinds, exec, World.setConn]
  · rw [memExec_conn]
    cases o with
    | sendFrame site c j => by_cases hc : c = d <;> simp [Op.onConn, Op.sent, hc]
    | setUserId c u => simp [kinds] at ho
    | setSessionToken c t => simp [kinds] at ho
    | beginClose c => simp [kinds] at ho
    | finishClose c => simp [kinds] at ho
    | _ => rfl

theorem run {α : Type} {c : Nat} {x : ServerM α} (hx : Uses c kinds x) :
    Pushes env w (x.run (memExec env) w).2 (sent env x w) := by
  induction x generalizing w with
  | ret a => exact refl
  | throw => exact refl
  | op o k ih =>
    have hsent : sent env (.op o k) w =
        o.sent.toList ++ sent env (k (memExec env o w).1) (memExec env o w).2 := by
      cases ho : o.sent <;> simp [sent, ho]
    rw [hsent]
    exact (op hx.1.1).trans (ih _ (hx.2 _))

end Pushes

section Members

structure Offered (id sender : Nat) (event : Json) (us : List Nat) (w w' : World)
    (frames : List (Nat × Json)) : Prop where
  queue : ∀ u, w'.store.queue u =
    w.store.queue u ++ if u ∈ us ∧ u ≠ sender ∧ w.slot u = ∅ then [id] else []
  pairs : ∃ pairs : List (Nat × Nat), pairs.Nodup ∧
    (∀ u c, (u, c) ∈ pairs ↔ u ∈ us ∧ c ∈ w.slot u) ∧ frames = pairs.map fun p => (p.2, event)

def MessageRouter.offer (id sender : Nat) (event : Json) (uid : Nat) (conns : List Nat) :
    ServerM Unit :=
  if conns.isEmpty then
    if uid ≠ sender then call (.repo (.enqueueUndelivered id uid)) else pure ()
  else sendEach .fanOut uid event conns

open MessageRouter

variable {env : Env} {id sender : Nat} {event : Json} {w : World}

theorem fanOut_cons (u : Nat) (us : List Nat) :
    fanOut id sender event (u :: us) = .op (.connectionsOf .fanOut u) fun conns =>
      (offer id sender event u conns).bind fun _ => fanOut id sender event us := rfl

theorem offer_uses (c u : Nat) (conns : List Nat) :
    Uses c [.roomMsg, .queue] (offer id sender event u conns) := by
  simp [offer]

theorem offer_noThrow (u : Nat) (conns : List Nat) : (offer id sender event u conns).NoThrow := by
  simp [offer]

def OnlyQueues (w w' : World) : Prop :=
  w'.store = { w.store with undelivered := w'.store.undelivered } ∧ w'.rooms = w.rooms

theorem OnlyQueues.trans {w' w'' : World} (h : OnlyQueues w w') (h' : OnlyQueues w' w'') :
    OnlyQueues w w'' := by
  refine ⟨?_, h'.2.trans h.2⟩
  rw [h'.1, h.1]

theorem onlyQueues_run {α : Type} {c : Nat} {x : ServerM α} (hx : Uses c [.roomMsg, .queue] x) :
    OnlyQueues w (x.run (memExec env) w).2 := by
  refine Only.run (R := OnlyQueues) (fun _ => ⟨rfl, rfl⟩) (fun _ _ _ => OnlyQueues.trans) ?_ hx w
  rintro o s ⟨ho, -⟩
  cases o with
  | repo o =>
    cases o with
    | enqueueUndelivered mid u => exact ⟨rfl, rfl⟩
    | _ => simp at ho
  | sendFrame site c j => exact ⟨rfl, rfl⟩
  | connectionsOf caller u => exact ⟨rfl, rfl⟩
  | _ => simp at ho

theorem slot_run {α : Type} {c : Nat} {x : ServerM α} (hx : Uses c Pushes.kinds x) (u : Nat) :
    (x.run (memExec env) w).2.slot u = w.slot u := by
  rw [World.slot, World.slot, (Pushes.run hx).presence]

theorem sendEach_store {caller : Caller} (u : Nat) (cs : List Nat) :
    ((sendEach caller u event cs).run (memExec env) w).2.store = w.store := by
  induction cs generalizing w with
  | nil => rfl
  | cons c cs ih => exact ih

theorem offered_offer {u : Nat} {conns : List Nat} (hnodup : conns.Nodup)
    (hmem : ∀ c, c ∈ conns ↔ c ∈ w.slot u) :
    Offered id sender event [u] w ((offer id sender event u conns).run (memExec env) w).2
      (sent env (offer id sender event u conns) w) := by
  cases conns with
  | nil =>
    have hoff : w.slot u = ∅ :=
      Finset.eq_empty_of_forall_notMem fun c hc => by simpa using (hmem c).mpr hc
    have hpairs : ∃ pairs : List (Nat × Nat), pairs.Nodup ∧
        (∀ v c, (v, c) ∈ pairs ↔ v ∈ [u] ∧ c ∈ w.slot v) ∧ [] = pairs.map fun p =>
          (p.2, event) := by
      refine ⟨[], List.nodup_nil, fun v c => ?_, rfl⟩
      simp only [List.not_mem_nil, List.mem_singleton, false_iff, not_and]
      rintro rfl
      simp [hoff]
    by_cases hs : u = sender
    · rw [show offer id sender event u [] = .ret () by simp [offer, hs]]
      refine ⟨fun v => ?_, hpairs⟩
      simp only [List.mem_singleton, run_ret]
      grind
    · rw [show offer id sender event u [] = call (.repo (.enqueueUndelivered id u)) by
        simp [offer, hs]]
      refine ⟨fun v => ?_, hpairs⟩
      change (memory env (.enqueueUndelivered id u) w).2.store.queue v = _
      rw [memory_queue, RepoOp.onQueue]
      simp only [List.mem_singleton]
      grind
  | cons c cs =>
    have hon : w.slot u ≠ ∅ := Finset.ne_empty_of_mem ((hmem c).mp (List.mem_cons_self ..))
    rw [show offer id sender event u (c :: cs) = sendEach .fanOut u event (c :: cs) from rfl]
    refine ⟨fun v => ?_, (c :: cs).map (Prod.mk u), ?_, fun v d => ?_, ?_⟩
    · rw [sendEach_store]
      simp only [List.mem_singleton]
      grind
    · exact hnodup.map (Prod.mk_right_injective u)
    · simp only [List.mem_map, Prod.mk.injEq, List.mem_singleton]
      constructor
      · rintro ⟨d', hd', rfl, rfl⟩
        exact ⟨rfl, (hmem d').mp hd'⟩
      · rintro ⟨rfl, hd⟩
        exact ⟨d, (hmem d).mpr hd, rfl, rfl⟩
    · rw [sent_sendEach, List.map_map]
      rfl

theorem Offered.cons {u : Nat} {us : List Nat} {w' w'' : World} {frames frames' : List (Nat × Json)}
    (hu : u ∉ us) (hslot : ∀ v, w'.slot v = w.slot v) (h : Offered id sender event [u] w w' frames)
    (h' : Offered id sender event us w' w'' frames') :
    Offered id sender event (u :: us) w w'' (frames ++ frames') where
  queue v := by
    rw [h'.queue, h.queue, hslot]
    simp only [List.mem_cons, List.not_mem_nil, or_false]
    by_cases hv : v = u
    · subst hv
      simp [hu]
    · simp [hv]
  pairs := by
    obtain ⟨ps, hps, hmem, rfl⟩ := h.pairs
    obtain ⟨ps', hps', hmem', rfl⟩ := h'.pairs
    refine ⟨ps ++ ps', hps.append hps' ?_, fun v c => ?_, (List.map_append).symm⟩
    · rintro ⟨v, c⟩ hp hp'
      have hv := List.mem_singleton.mp ((hmem v c).mp hp).1
      exact hu (hv ▸ ((hmem' v c).mp hp').1)
    · rw [List.mem_append, hmem, hmem', hslot, List.mem_singleton, List.mem_cons]
      tauto

theorem offered_fanOut {us : List Nat} (hnodup : us.Nodup) :
    Offered id sender event us w ((fanOut id sender event us).run (memExec env) w).2
      (sent env (fanOut id sender event us) w) := by
  induction us generalizing w with
  | nil => exact ⟨fun u => by simp [fanOut], [], List.nodup_nil, fun u c => by simp, rfl⟩
  | cons u us ih =>
    obtain ⟨hu, hus⟩ := List.nodup_cons.mp hnodup
    rw [fanOut_cons, run_op, sent_call env rfl]
    let w₁ := (memExec env (.connectionsOf .fanOut u) w).2
    let conns := (memExec env (.connectionsOf .fanOut u) w).1
    have hfirst : Offered id sender event [u] w₁
      ((offer id sender event u conns).run (memExec env) w₁).2
        (sent env (offer id sender event u conns) w₁) :=
      offered_offer (env.order_nodup ..) fun c => env.mem_order ..
    have huses : Uses 0 Pushes.kinds (offer id sender event u conns) :=
      (offer_uses 0 u conns).mono (by decide)
    obtain ⟨a, ha, hrun⟩ :=
      (offer_noThrow u conns).run_bind (memExec env) (fun _ => fanOut id sender event us) w₁
    rw [hrun, sent_bind_some env ha]
    obtain ⟨hqueue, hpairs⟩ := Offered.cons hu (slot_run huses) hfirst (ih hus)
    exact ⟨hqueue, hpairs⟩

end Members

section Room

variable {env : Env} {s r : Nat} {content : String} {w : World}

/-- One run of `send_room` with the message `m` for the given members. -/
structure FansOut (env : Env) (m : Message) (members : Finset Nat) (w w' : World)
    (frames : List (Nat × Json)) : Prop where
  positive : 0 < m.id
  fresh : ∀ m' ∈ w.store.messages, m'.id < m.id
  store : w'.store = { w.store with
    nextMsgId := m.id + 1
    messages := w.store.messages ++ [m]
    undelivered := w'.store.undelivered }
  rooms : ∀ r, m.roomId = some r → w'.rooms = w.rooms.ensure r members
  queue : ∀ u, w'.store.queue u =
    w.store.queue u ++ if u ∈ members ∧ u ≠ m.senderId ∧ w.slot u = ∅ then [m.id] else []
  pairs : ∃ pairs : List (Nat × Nat), pairs.Nodup ∧
    (∀ u c, (u, c) ∈ pairs ↔ u ∈ members ∧ c ∈ w.slot u) ∧
      frames = pairs.map fun p => (p.2, m.event)
  pushes : Pushes env w w' frames

theorem isMember_eq (hw : CacheAgrees w) :
    (memExec env (.isMember r s) w).1 = decide (s ∈ w.store.members r) := by
  change decide (s ∈ (ensureLoaded (memory env) r w).rooms.members r) = _
  rw [ensureLoaded_memory]
  exact congrArg (fun ms => decide (s ∈ ms)) (hw.members_ensure r)

theorem mem_membersOf (hw : CacheAgrees w) (u : Nat) :
    u ∈ (memExec env (.membersOf r) w).1 ↔ u ∈ w.store.members r := by
  have hmembers : (ensureLoaded (memory env) r w).rooms.members r = w.store.members r := by
    rw [ensureLoaded_memory]
    exact hw.members_ensure r
  rw [← hmembers]
  exact env.mem_order ..

variable (env content) in
theorem sendRoom_stranger (hanswer : (memExec env (.isMember r s) w).1 = false) :
    (MessageRouter.sendRoom s r content).run (memExec env) w =
      (some 0, (memExec env (.isMember r s) w).2) ∧
      sent env (MessageRouter.sendRoom s r content) w = [] := by
  constructor
  · change (Prog.run (memExec env) (Prog.op (.isMember r s) _) w) = _
    rw [run_op, hanswer]
    rfl
  · refine (sent_call env rfl).trans ?_
    rw [hanswer]
    rfl

def roomMessage (env : Env) (s r : Nat) (content : String) (w : World) : Message :=
  ⟨w.store.nextMsgId, s, none, some r, content, 0, env.clock w.ticks⟩

variable (env content) in
theorem sendRoom_member (hanswer : (memExec env (.isMember r s) w).1 = true) :
    ∃ (w' : World) (members : List Nat), members.Nodup ∧
      (CacheAgrees w → ∀ u, u ∈ members ↔ u ∈ w.store.members r) ∧
      w'.store = (w.store.insertRoomMsg s r content (env.clock w.ticks)).2 ∧
      w'.rooms = w.rooms.ensure r (w.store.members r) ∧ (∀ u, w'.slot u = w.slot u) ∧
      (MessageRouter.sendRoom s r content).run (memExec env) w =
        (some w.store.nextMsgId,
          ((MessageRouter.fanOut w.store.nextMsgId s (roomMessage env s r content w).event
          members).run (memExec env) w').2) ∧
      sent env (MessageRouter.sendRoom s r content) w =
        sent env (MessageRouter.fanOut w.store.nextMsgId s (roomMessage env s r content w).event
          members) w' := by
  let w₁ := (memExec env (.isMember r s) w).2
  have hstore : w₁.store = w.store := memExec_store env _ _ (by simp)
  have hticks : w₁.ticks = w.ticks := by
    change (ensureLoaded (memory env) r w).ticks = w.ticks
    rw [ensureLoaded_memory]
  let w₂ := (memExec env (.repo (.insertRoomMsg s r content (env.clock w₁.ticks)))
    (memExec env .now w₁).2).2
  have hagrees (hw : CacheAgrees w) : CacheAgrees w₂ :=
    ((hw.op fun _ _ => id).op fun _ _ => id).op fun _ _ => id
  have hstore₂ : w₂.store = (w.store.insertRoomMsg s r content (env.clock w.ticks)).2 := by
    rw [← hstore, ← hticks]
    rfl
  let members := (memExec env (.membersOf r) w₂).1
  let x := MessageRouter.fanOut w.store.nextMsgId s (roomMessage env s r content w).event members
  obtain ⟨hsent, hrun⟩ : sent env (MessageRouter.sendRoom s r content) w =
      sent env (x.bind fun _ => .ret w.store.nextMsgId) (memExec env (.membersOf r) w₂).2 ∧
    (MessageRouter.sendRoom s r content).run (memExec env) w =
      (x.bind fun _ => .ret w.store.nextMsgId).run (memExec env)
        (memExec env (.membersOf r) w₂).2 := by
    simp only [x, roomMessage, ← hstore, ← hticks]
    constructor
    · refine (sent_call env rfl).trans ?_
      rw [hanswer]
      exact (sent_call env rfl).trans ((sent_call env rfl).trans (sent_call env rfl))
    · refine (run_op ..).trans ?_
      rw [hanswer]
      rfl
  refine ⟨(memExec env (.membersOf r) w₂).2, members, env.order_nodup .., fun hw u => ?_, ?_, ?_,
    fun u => ?_, ?_, ?_⟩
  · rw [mem_membersOf (hagrees hw), hstore₂]
    rfl
  · rw [memExec_store env _ _ (by simp), hstore₂]
  · simp only [w₂, w₁, memExec_rooms, Op.onRooms, RoomManager.ensure_ensure]
  · simp only [w₂, w₁, memExec_slot, Op.onSlot]
  · obtain ⟨a, -, hbind⟩ :=
      (fanOut_noThrow _ _ _ members).run_bind (memExec env) (fun _ => .ret w.store.nextMsgId)
      (memExec env (.membersOf r) w₂).2
    rw [hrun, hbind]
    rfl
  · rw [hsent, sent_bind_ret]

variable (env content) in
theorem sendRoom_offers (hanswer : (memExec env (.isMember r s) w).1 = true) :
    ∃ members : List Nat, (CacheAgrees w → ∀ u, u ∈ members ↔ u ∈ w.store.members r) ∧
      ((MessageRouter.sendRoom s r content).run (memExec env) w).1 = some w.store.nextMsgId ∧
      ((MessageRouter.sendRoom s r content).run (memExec env) w).2.store =
        { (w.store.insertRoomMsg s r content (env.clock w.ticks)).2 with
          undelivered := ((MessageRouter.sendRoom s r content).run (memExec env)
            w).2.store.undelivered } ∧
      ((MessageRouter.sendRoom s r content).run (memExec env) w).2.rooms = w.rooms.ensure r
        (w.store.members r) ∧
      Offered w.store.nextMsgId s (roomMessage env s r content w).event members w
        ((MessageRouter.sendRoom s r content).run (memExec env) w).2
        (sent env (MessageRouter.sendRoom s r content) w) := by
  obtain ⟨w', members, hnodup, hmem, hstore, hrooms, hslot, hrun, hsent⟩ :=
    sendRoom_member env content hanswer
  rw [hrun, hsent]
  let x := MessageRouter.fanOut w.store.nextMsgId s (roomMessage env s r content w).event members
  have honly : OnlyQueues w' (x.run (memExec env) w').2 :=
    onlyQueues_run (c := 0) (MessageRouter.fanOut_uses (by decide) (by decide) ..)
  have hoffered : Offered w.store.nextMsgId s (roomMessage env s r content w).event members w'
      (x.run (memExec env) w').2 (sent env x w') := offered_fanOut hnodup
  refine ⟨members, hmem, rfl, honly.1.trans (by rw [hstore]), honly.2.trans hrooms, fun u => ?_, ?_⟩
  · have hqueue : w'.store.queue u = w.store.queue u := by
      rw [hstore]
      rfl
    rw [hoffered.queue, hqueue]
    simp only [hslot]
  · simpa only [hslot] using hoffered.pairs

theorem serveAll_freshIds (env : Env) (inputs : List Input) :
    (serveAll env inputs).state.store.FreshIds ∧
    0 < (serveAll env inputs).state.store.nextMsgId := by
  refine serveAll_keeps (P := fun _ _ => True) (I := fun w => w.store.FreshIds ∧
    0 < w.store.nextMsgId)
    ?_ ⟨⟨List.nodup_nil, by simp [World.init, Store.empty]⟩, Nat.one_pos⟩ inputs fun _ _ _ _ =>
      trivial
  intro w input hw _
  refine run_keeps _ (I := fun w => w.store.FreshIds ∧ 0 < w.store.nextMsgId)
    (fun o v hv => ?_) _ w hw
  exact ⟨memExec_freshIds hv.1, hv.2.trans_le (memExec_nextMsgId_le ..)⟩

theorem fansOut_sendRoom (hw : CacheAgrees w) (hfresh : w.store.FreshIds)
    (hpos : 0 < w.store.nextMsgId) (hs : s ∈ w.store.members r) :
    FansOut env (roomMessage env s r content w) (w.store.members r) w
      ((MessageRouter.sendRoom s r content).run (memExec env) w).2
      (sent env (MessageRouter.sendRoom s r content) w) := by
  have hpushes : Pushes env w ((MessageRouter.sendRoom s r content).run (memExec env) w).2
      (sent env (MessageRouter.sendRoom s r content) w) :=
    Pushes.run (c := 0) ((MessageRouter.sendRoom_uses s r content).mono (by decide))
  have hanswer : (memExec env (.isMember r s) w).1 = true := by simp [isMember_eq hw, hs]
  obtain ⟨members, hmem, -, hstore, hrooms, hqueue, hpairs⟩ := sendRoom_offers env content hanswer
  refine ⟨hpos, fun m hm => hfresh.lt hm, hstore, ?_, fun u => ?_, ?_, hpushes⟩
  · rintro r' ⟨⟩
    exact hrooms
  · rw [hqueue]
    simp only [hmem hw]
    rfl
  · simpa only [hmem hw] using hpairs

end Room

theorem send_room_exact (env : Env) (inputs : List Input) (s r : Nat) (content : String) :
    let w := (serveAll env inputs).state
    let ran := (MessageRouter.sendRoom s r content).run (memExec env) w
    let frames := sent env (MessageRouter.sendRoom s r content) w
    (s ∉ w.store.members r →
      ran.1 = some 0 ∧ ran.2.store = w.store ∧ ran.2.presence = w.presence ∧
        ran.2.conns = w.conns ∧ frames = []) ∧
    (s ∈ w.store.members r →
      ran.1 = some w.store.nextMsgId ∧
        FansOut env ⟨w.store.nextMsgId, s, none, some r, content, 0, env.clock w.ticks⟩
          (w.store.members r) w ran.2 frames ∧
        ∀ f ∈ frames, Message.CarriedBy
          ⟨w.store.nextMsgId, s, none, some r, content, 0, env.clock w.ticks⟩ f.2) := by
  intro w ran frames
  have hw : CacheAgrees w := (aligned_serveAll env inputs).cacheAgrees
  constructor
  · intro hs
    have hanswer : (memExec env (.isMember r s) w).1 = false := by simp [isMember_eq hw, hs]
    obtain ⟨hrun, hsent⟩ := sendRoom_stranger env content hanswer
    have hpushes : Pushes env w (memExec env (.isMember r s) w).2 [] :=
      Pushes.op (o := .isMember r s) (by simp [Pushes.kinds])
    have hran : ran.2 = (memExec env (.isMember r s) w).2 := congrArg Prod.snd hrun
    rw [hran]
    exact ⟨congrArg Prod.fst hrun, memExec_store env _ _ (by simp), hpushes.presence,
      funext hpushes.conns, hsent⟩
  · intro hs
    have hanswer : (memExec env (.isMember r s) w).1 = true := by simp [isMember_eq hw, hs]
    obtain ⟨members, -, hreturns, -⟩ := sendRoom_offers env content hanswer
    obtain ⟨hfresh, hpos⟩ := serveAll_freshIds env inputs
    have hfans : FansOut env ⟨w.store.nextMsgId, s, none, some r, content, 0, env.clock w.ticks⟩
        (w.store.members r) w ran.2 frames := fansOut_sendRoom hw hfresh hpos hs
    refine ⟨hreturns, hfans, fun f hf => ?_⟩
    obtain ⟨pairs, -, -, hframes⟩ := hfans.pairs
    obtain ⟨p, -, rfl⟩ := List.mem_map.mp (hframes ▸ hf)
    exact Message.carriedBy_event _

def loungeEnv : Env :=
  sampleEnv [registerReq "alice" "wonder", registerReq "bob" "builder", loginReq "alice" "wonder",
    loginReq "bob" "builder", createRoomReq "club", joinRoomReq 1]

def loungeServed : List Input :=
  [ask 1 (registerReq "alice" "wonder"), ask 2 (registerReq "bob" "builder"),
    ask 1 (loginReq "alice" "wonder"), ask 2 (loginReq "bob" "builder"),
    ask 1 (createRoomReq "club"), ask 2 (joinRoomReq 1), .close 2]

theorem send_room_exact_lounge :
    ∃ inputs, (serveAll loungeEnv inputs).state.store.members 1 = {1, 2} ∧
      (serveAll loungeEnv inputs).state.slot 2 = ∅ ∧
      ((MessageRouter.sendRoom 1 1 "hi").run (memExec loungeEnv)
        (serveAll loungeEnv inputs).state).2.store.queue 2 = [1] ∧
      ∃ f, sent loungeEnv (MessageRouter.sendRoom 1 1 "hi")
      (serveAll loungeEnv inputs).state = [(1, f)] ∧
        f.find "content" = some (.str "hi") := by
  obtain ⟨inputs, hmembers, hslot, hslot', hqueue, hid⟩ : ∃ inputs,
      (serveAll loungeEnv inputs).state.store.members 1 = {1, 2} ∧
      (serveAll loungeEnv inputs).state.slot 1 = {1} ∧
        (serveAll loungeEnv inputs).state.slot 2 = ∅ ∧
      (serveAll loungeEnv inputs).state.store.queue 2 = [] ∧
      (serveAll loungeEnv inputs).state.store.nextMsgId = 1 := ⟨loungeServed, by decide +kernel⟩
  obtain ⟨-, hfans, hcarried⟩ := (send_room_exact loungeEnv inputs 1 1 "hi").2 (by simp [hmembers])
  obtain ⟨pairs, hnodup, hpairs, hframes⟩ := hfans.pairs
  have hone : pairs = [(1, 1)] := by
    rw [← List.perm_singleton, List.perm_ext_iff_of_nodup hnodup (List.nodup_singleton _)]
    rintro ⟨u, c⟩
    rw [hpairs, hmembers]
    by_cases hu : u = 1
    · subst hu
      simp [hslot]
    · by_cases hu' : u = 2 <;> simp_all
  refine ⟨inputs, hmembers, hslot', ?_, _, hframes.trans (by rw [hone]; rfl), ?_⟩
  · rw [hfans.queue, hqueue, if_pos (by simp [hmembers, hslot']), hid]
    rfl
  · exact (hcarried _ (by rw [hframes, hone]; exact List.mem_singleton.mpr rfl)).content

end ChatServer
