import ChatServer.Server.FanOut

namespace ChatServer

open Lib Lib.Prog

section Direct

def dmMessage (env : Env) (s r : Nat) (content : String) (w : World) : Message :=
  ⟨w.store.nextMsgId, s, some r, none, content, 0, env.clock w.ticks⟩

def Store.settle (st : Store) (id r : Nat) (offline : Prop) [Decidable offline] : Store :=
  if offline then st.enqueueUndelivered id r else st.updateMessageStatus id 1

def MessageRouter.deliver (id receiver : Nat) (event : Json) (conns : List Nat) : ServerM Unit :=
  if conns.isEmpty then call (.repo (.enqueueUndelivered id receiver))
  else do
    sendEach .deliver receiver event conns
    call (.repo (.updateMessageStatus id 1))

open MessageRouter

variable {env : Env} {id r : Nat} {event : Json} {conns : List Nat} {w : World}

theorem deliver_noThrow : (deliver id r event conns).NoThrow := by
  simp [deliver]

theorem deliver_uses (c : Nat) : Uses c [.dm, .queue] (deliver id r event conns) := by
  simp [deliver]

theorem deliver_routes (hmem : ∀ c, c ∈ conns ↔ c ∈ w.slot r) :
    ((deliver id r event conns).run (memExec env) w).2.store = w.store.settle id r (w.slot r = ∅) ∧
      sent env (deliver id r event conns) w = conns.map fun c => (c, event) := by
  cases conns with
  | nil =>
    have hoff : w.slot r = ∅ :=
      Finset.eq_empty_of_forall_notMem fun c hc => by simpa using (hmem c).mpr hc
    rw [Store.settle, if_pos hoff]
    exact ⟨rfl, rfl⟩
  | cons c cs =>
    have hon : w.slot r ≠ ∅ := Finset.ne_empty_of_mem ((hmem c).mp (List.mem_cons_self ..))
    obtain ⟨a, ha, hrun⟩ := (sendEach_noThrow .deliver r event (c :: cs)).run_bind (memExec env)
      (fun _ => call (.repo (.updateMessageStatus id 1))) w
    rw [Store.settle, if_neg hon]
    constructor
    · refine (congrArg (fun p => p.2.store) hrun).trans ?_
      change ((sendEach .deliver r event (c :: cs)).run (memExec env) w).2.store.updateMessageStatus
        id 1 = _
      rw [sendEach_store]
    · refine (sent_bind_some env ha).trans ?_
      rw [sent_sendEach]
      exact List.append_nil _

variable (env) in
theorem sendDm_routes (s r : Nat) (content : String) (w : World) :
    ∃ cs cs' : List Nat, cs.Nodup ∧ (∀ c, c ∈ cs ↔ c ∈ w.slot r) ∧ cs'.Nodup ∧
      (∀ c, c ∈ cs' ↔ c ∈ w.slot s) ∧
      sent env (sendDm s r content) w = (cs ++ cs').map (fun c =>
        (c, (dmMessage env s r content w).event)) ∧
      ((sendDm s r content).run (memExec env) w).2.store =
        (w.store.insertDm s r content (env.clock w.ticks)).2.settle w.store.nextMsgId r
          (w.slot r = ∅) := by
  let m := dmMessage env s r content w
  let w₁ := (memExec env (.repo (.insertDm s r content (env.clock w.ticks)))
    (memExec env .now w).2).2
  let w₂ := (memExec env (.connectionsOf .deliver r) w₁).2
  let cs := (memExec env (.connectionsOf .deliver r) w₁).1
  have hcs (c : Nat) : c ∈ cs ↔ c ∈ w.slot r := env.mem_order ..
  obtain ⟨hstore, hsent⟩ : ((deliver m.id r m.event cs).run (memExec env) w₂).2.store = _ ∧
      sent env (deliver m.id r m.event cs) w₂ = _ := deliver_routes hcs
  let w₃ := ((deliver m.id r m.event cs).run (memExec env) w₂).2
  let cs' := (memExec env (.connectionsOf .echo s) w₃).1
  let w₄ := (memExec env (.connectionsOf .echo s) w₃).2
  have hcs' (c : Nat) : c ∈ cs' ↔ c ∈ w.slot s := by
    have hslot : w₃.slot s = w.slot s := slot_run (c := 0) ((deliver_uses 0).mono (by decide)) s
    rw [← hslot]
    exact env.mem_order ..
  let echo : ServerM Nat := .op (.connectionsOf .echo s) fun own =>
    (sendEach .echo s m.event own).bind fun _ => .ret m.id
  have hreturns : (deliver m.id r m.event cs).NoThrow := deliver_noThrow
  obtain ⟨a, ha, hrun⟩ := hreturns.run_bind (memExec env) (fun _ => echo) w₂
  refine ⟨cs, cs', env.order_nodup .., hcs, env.order_nodup .., hcs', ?_, ?_⟩
  · calc
      sent env (sendDm s r content) w = sent env ((deliver m.id r m.event cs).bind fun _ => echo)
        w₂ :=
        (sent_call env rfl).trans ((sent_call env rfl).trans (sent_call env rfl))
      _ = cs.map (fun c => (c, m.event)) ++ sent env echo w₃ := by rw [sent_bind_some env ha, hsent]
      _ = cs.map (fun c => (c, m.event)) ++ cs'.map fun c => (c, m.event) := by
        rw [sent_call env rfl, sent_bind_ret, sent_sendEach]
      _ = (cs ++ cs').map fun c => (c, m.event) := List.map_append.symm
  · calc
      ((sendDm s r content).run (memExec env) w).2.store = (echo.run (memExec env) w₃).2.store :=
        congrArg (fun p => p.2.store) hrun
      _ = w₃.store := by
        rw [run_op, run_bind_ret, sendEach_store]
        rfl
      _ = _ := hstore

theorem queue_settle (st : Store) (id r u : Nat) (offline : Prop) [Decidable offline] :
    (st.settle id r offline).queue u = st.queue u ++ if r = u ∧ offline then [id] else [] := by
  unfold Store.settle
  split
  · rename_i hoff
    rw [Store.queue_enqueue]
    grind
  · rename_i hon
    rw [if_neg fun h => hon h.2]
    exact (List.append_nil _).symm

theorem setStatus_append {ms : List Message} {m : Message} (hfresh : ∀ x ∈ ms, x.id ≠ m.id)
    (st : Nat) : Store.setStatus m.id st (ms ++ [m]) = ms ++ [{ m with status := st }] := by
  induction ms with
  | nil => simp [Store.setStatus]
  | cons x ms ih =>
    have hx : x.id ≠ m.id := hfresh x (List.mem_cons_self ..)
    have hms : ∀ y ∈ ms, y.id ≠ m.id := fun y hy => hfresh y (List.mem_cons_of_mem _ hy)
    simp only [List.cons_append, Store.setStatus, hx, if_false, ih hms]

theorem nextMsgId_settle (st : Store) (id r : Nat) (offline : Prop) [Decidable offline] :
    (st.settle id r offline).nextMsgId = st.nextMsgId := by
  unfold Store.settle
  split <;> rfl

theorem offered_sendDm {s r : Nat} (hne : s ≠ r) (content : String) :
    Offered w.store.nextMsgId s (dmMessage env s r content w).event [r, s] w
      ((sendDm s r content).run (memExec env) w).2 (sent env (sendDm s r content) w) := by
  obtain ⟨cs, cs', hnodup, hmem, hnodup', hmem', hsent, hstore⟩ := sendDm_routes env s r content w
  refine ⟨fun u => ?_, cs.map (Prod.mk r) ++ cs'.map (Prod.mk s), ?_, fun u c => ?_, ?_⟩
  · rw [hstore, queue_settle]
    congr 1
    simp only [List.mem_cons, List.not_mem_nil, or_false]
    grind
  · apply List.Nodup.append (hnodup.map (Prod.mk_right_injective r))
      (hnodup'.map (Prod.mk_right_injective s))
    rintro ⟨u, c⟩ hp hp'
    obtain ⟨d, -, heq⟩ := List.mem_map.mp hp
    obtain ⟨d', -, heq'⟩ := List.mem_map.mp hp'
    cases heq
    cases heq'
    exact hne rfl
  · simp only [List.mem_append, List.mem_map, Prod.mk.injEq, List.mem_cons,
      List.not_mem_nil, or_false]
    grind
  · rw [hsent, List.map_append, List.map_append, List.map_map, List.map_map]
    rfl

end Direct

section Replay

variable (env : Env) {w : World} {u c : Nat}

theorem sent_replayEach (ms : List Message) :
    sent env (MessageRouter.replayEach u [c] ms) w = ms.map fun m => (c, m.event) := by
  induction ms generalizing w with
  | nil => rfl
  | cons m ms ih => exact congrArg (List.cons (c, m.event)) ih

theorem sent_replayOffline (hslot : w.slot u = {c}) :
    sent env (MessageRouter.replayOffline u) w = (w.store.drainUndelivered u).1.map fun m =>
    (c, m.event) := by
  refine (sent_call env rfl).trans ?_
  let w' := (memExec env (.repo (.drainUndelivered u)) w).2
  have hconns : (memExec env (.connectionsOf .replay u) w').1 = [c] := by
    change env.order w'.walks (w'.slot u) = [c]
    rw [show w'.slot u = w.slot u from memExec_slot .., hslot, order_singleton]
  have hpending : (memExec env (.repo (.drainUndelivered u)) w).1 =
    (w.store.drainUndelivered u).1 := rfl
  rw [hpending]
  dsimp only [ret_bind]
  cases (w.store.drainUndelivered u).1 with
  | nil => rfl
  | cons m ms =>
    refine (sent_call env rfl).trans ?_
    rw [hconns]
    exact sent_replayEach env (m :: ms)

theorem sent_bind (hoff : w.slot u = ∅) :
    sent env (Presence.bind u c) w = (w.store.drainUndelivered u).1.map fun m => (c, m.event) := by
  refine (sent_call env rfl).trans ?_
  have hslot : (memExec env (.bindSlot u c) w).2.slot u = {c} := by
    simp [memExec_slot, Op.onSlot, hoff]
  have honline : (memExec env (.bindSlot u c) w).1 = true := decide_eq_true hoff
  have hrest : sent env (MessageRouter.replayOffline u) (memExec env (.bindSlot u c) w).2 =
      (w.store.drainUndelivered u).1.map fun m => (c, m.event) := sent_replayOffline env hslot
  rw [honline, ← hrest]
  exact sent_bind_ret env

theorem replayEach_store (conns : List Nat) (ms : List Message) :
    ((MessageRouter.replayEach u conns ms).run (memExec env) w).2.store = w.store := by
  induction ms generalizing w with
  | nil => rfl
  | cons m ms ih =>
    obtain ⟨a, -, hrun⟩ := (sendEach_noThrow .replay u m.event conns).run_bind (memExec env)
      (fun _ => MessageRouter.replayEach u conns ms) w
    refine (congrArg (fun p => p.2.store) hrun).trans ?_
    rw [ih, sendEach_store]

theorem replayOffline_store :
    ((MessageRouter.replayOffline u).run (memExec env) w).2.store =
      (w.store.drainUndelivered u).2 := by
  unfold MessageRouter.replayOffline
  simp only [bind_eq_bind, Prog.call, op_bind, ret_bind, run_op]
  split
  · rfl
  · rw [run_op]
    split
    · rfl
    · exact replayEach_store env ..

def Presence.announce (u : Nat) (transitioned : Bool) : ServerM Bool := do
  (if transitioned then onTransition u true else pure () : ServerM Unit)
  pure transitioned

theorem bind_eq_op : Presence.bind u c = .op (.bindSlot u c) (Presence.announce u) := rfl

theorem announce_uses (d : Nat) (b : Bool) : Uses d [.replay] (Presence.announce u b) := by
  simp [Presence.announce, onTransition]

theorem bind_store : ((Presence.bind u c).run (memExec env) w).2.store =
    if w.slot u = ∅ then (w.store.drainUndelivered u).2 else w.store := by
  unfold Presence.bind
  simp only [bind_eq_bind, Prog.call, op_bind, ret_bind, run_op, pure_eq_ret]
  rw [run_bind_ret (memExec env) _ (fun _ => (memExec env (.bindSlot u c) w).1)]
  by_cases hoff : w.slot u = ∅
  · rw [show (memExec env (.bindSlot u c) w).1 = true from decide_eq_true hoff,
      if_pos rfl, if_pos hoff]
    exact replayOffline_store env
  · rw [show (memExec env (.bindSlot u c) w).1 = false from decide_eq_false hoff, if_neg hoff]
    rfl

theorem sent_bind_online (hon : w.slot u ≠ ∅) : sent env (Presence.bind u c) w = [] := by
  refine (sent_call env rfl).trans ?_
  rw [show (memExec env (.bindSlot u c) w).1 = false from decide_eq_false hon]
  rfl

theorem bind_slot (v : Nat) : ((Presence.bind u c).run (memExec env) w).2.slot v =
    if u = v then insert c (w.slot v) else w.slot v := by
  rw [bind_eq_op, run_op, slot_run ((announce_uses c _).mono (by decide))]
  exact memExec_slot ..

end Replay

end ChatServer
