import ChatServer.Server.DueReply
import ChatServer.Server.OfflineDelivery
import ChatServer.Server.Routed

namespace ChatServer

open Lib Lib.Prog

def Op.pushed : Op → Option (Nat × Json)
  | .sendFrame (.loop _ _ _) d j => some (d, j)
  | _ => none

def isEventOf (m : Nat) (j : Json) : Bool :=
  getStr j "type" = types.kEventMessage ∧ getI64 j "msg_id" 0 = toI64 m

def isCopy (c m : Nat) (p : Nat × Json) : Bool := p.1 = c ∧ isEventOf m p.2

/-- How often the event of message `m` was passed to `send_frame` on connection `c`. -/
def copies (c m : Nat) (log : Log) : Nat := (log.filterMap fun e => e.op.pushed).countP (isCopy c m)

section Numbers

theorem toI64_inj {a b : Nat} : toI64 a = toI64 b ↔ a % 2 ^ 64 = b % 2 ^ 64 := by
  unfold toI64
  split <;> split <;> omega

theorem isEventOf_event (m : Nat) (x : Message) :
    isEventOf m x.event = decide (x.id % 2 ^ 64 = m % 2 ^ 64) := by
  have hid : getI64 x.event "msg_id" 0 = toI64 x.id := by
    rw [Message.event, getI64, event_find]
    cases x.receiverId <;> cases x.roomId <;> rfl
  rw [isEventOf, hid, Message.event, event_type]
  simp only [true_and, toI64_inj]

theorem copies_congr {c a b : Nat} (log : Log) (h : a % 2 ^ 64 = b % 2 ^ 64) :
    copies c a log = copies c b log := by
  unfold copies isCopy isEventOf
  simp only [toI64_inj.mpr h]

end Numbers

section Calls

variable {α : Type} (env : Env) {x : ServerM α}

theorem trace_pushed {d : Nat} {ks : List Kind} (hx : Uses d ks x) (hks : .reply ∉ ks) (w : World) :
    (x.trace (memExec env) w).filterMap Op.pushed = sent env x w := by
  apply List.filterMap_congr
  intro o ho
  obtain ⟨hkind, -⟩ := Only.trace (memExec env) hx w o ho
  cases o with
  | sendFrame site c j =>
    cases site with
    | reply => exact absurd hkind hks
    | loop caller u cs => rfl
  | _ => rfl

theorem copies_call {d : Nat} {ks : List Kind} (hx : Uses d ks x) (hks : .reply ∉ ks) (i : Nat)
    (j : Input) (h : Hist) (c m : Nat) : copies c m (h.run (memExec env) i j x).2.log =
      copies c m h.log + (sent env x h.state).countP (isCopy c m) := by
  rw [copies, History.run_log, List.filterMap_append, List.countP_append, copies,
    ← trace_pushed env hx hks, ← History.map_op_events (memExec env) i j, List.filterMap_map]
  rfl

end Calls

section Routine

def routine : List Kind :=
  [.own, .reply, .ident, .assume, .session, .validate, .issue, .unbind, .close, .membership]

variable {env : Env} {o : Op} {w : World}

theorem routine_pushed (hk : o.kind ∈ routine) : o.pushed = none := by
  cases o with
  | sendFrame site d j =>
    cases site with
    | reply => rfl
    | loop caller u cs => cases caller <;> simp [routine] at hk
  | _ => rfl

theorem routine_slot (hk : o.kind ∈ routine) {c v : Nat} (hc : c ∈ (memExec env o w).2.slot v) :
    c ∈ w.slot v := by
  rw [memExec_slot] at hc
  cases o with
  | unbindSlot u d =>
    simp only [Op.onSlot] at hc
    split at hc
    · exact Finset.mem_of_mem_erase hc
    · exact hc
  | bindSlot u d => simp [routine] at hk
  | _ => exact hc

variable (env) in
theorem routine_store (hk : o.kind ∈ routine) (w : World) :
    (memExec env o w).2.store.messages = w.store.messages ∧
      (memExec env o w).2.store.nextMsgId = w.store.nextMsgId ∧
      ∀ u, (memExec env o w).2.store.queue u = w.store.queue u := by
  cases o with
  | repo o =>
    simp only [memExec_repo, memory_messages, memory_nextMsgId, memory_queue]
    cases o <;> simp [routine] at hk <;> exact ⟨rfl, rfl, fun _ => rfl⟩
  | _ => simp [memExec_store env _ _]

end Routine

def Op.selfSent : Op → Bool
  | .repo (.insertDm a b _ _) => a = b
  | _ => false

/-- In what has happened so far the connection was bound to the one user at most, no user
has written to the own account, and the numbers of the messages fit into 64 bits. -/
structure Plain (c u : Nat) (h : Hist) : Prop where
  single : ∀ v, Bound h.log v c → v = u
  others : ∀ e ∈ h.log, e.op.selfSent = false
  fits : h.state.store.nextMsgId ≤ 2 ^ 64

structure Unrepeated (c u : Nat) (h : Hist) : Prop where
  bound : ∀ v, c ∈ h.state.slot v → v = u
  once : ∀ m, copies c m h.log ≤ 1
  unseen : ∀ m, h.state.store.nextMsgId ≤ m → m < 2 ^ 64 → copies c m h.log = 0
  waiting : ∀ m ∈ h.state.store.queue u, copies c m h.log = 0
  queue_lt : ∀ m ∈ h.state.store.queue u, m < h.state.store.nextMsgId
  queue_nodup : (h.state.store.queue u).Nodup

section Steps

variable {α : Type} {env : Env} {c u : Nat} {h h' : Hist}

theorem nextMsgId_run_le (env : Env) (x : ServerM α) (w : World) :
    w.store.nextMsgId ≤ (x.run (memExec env) w).2.store.nextMsgId :=
  run_keeps (memExec env) (I := fun v => w.store.nextMsgId ≤ v.store.nextMsgId)
    (fun _ _ hv => hv.trans (memExec_nextMsgId_le ..)) x w le_rfl

theorem Plain.of_run {i : Nat} {j : Input} {x : ServerM α}
    (hp : Plain c u (h.run (memExec env) i j x).2) : Plain c u h := by
  obtain ⟨hsingle, hothers, hfits⟩ := hp
  rw [History.run_log] at hsingle hothers
  rw [(h.run_state (memExec env) i j x).2] at hfits
  refine ⟨?_, fun e he => hothers e (List.mem_append_left _ he),
    (nextMsgId_run_le env x _).trans hfits⟩
  rintro v ⟨e, he, hop⟩
  exact hsingle v ⟨e, List.mem_append_left _ he, hop⟩

namespace Unrepeated

theorem start : Unrepeated c u Hist.start := by
  refine ⟨?_, ?_, ?_, ?_, ?_, ?_⟩ <;>
    simp [Hist.start, World.init, Store.empty, Store.queue, copies, World.slot, Presence.slot]

theorem still (hu : Unrepeated c u h) (hbound : ∀ v, c ∈ h'.state.slot v → v = u)
    (hcopies : ∀ m, copies c m h'.log = copies c m h.log)
    (hnext : h'.state.store.nextMsgId = h.state.store.nextMsgId)
    (hqueue : (h'.state.store.queue u).Sublist (h.state.store.queue u)) : Unrepeated c u h' where
  bound := hbound
  once m := (hcopies m).trans_le (hu.once m)
  unseen m hm hlt := (hcopies m).trans (hu.unseen m (hnext ▸ hm) hlt)
  waiting m hm := (hcopies m).trans (hu.waiting m (hqueue.mem hm))
  queue_lt m hm := hnext ▸ hu.queue_lt m (hqueue.mem hm)
  queue_nodup := hqueue.nodup hu.queue_nodup

theorem countP_pairs (hu : Unrepeated c u h) {pairs : List (Nat × Nat)} (hnodup : pairs.Nodup)
    (hpairs : ∀ v d, (v, d) ∈ pairs → d ∈ h.state.slot v) (x : Message) (m : Nat) :
    (pairs.map fun p => (p.2, x.event)).countP (isCopy c m) ≤
      if c ∈ h.state.slot u ∧ x.id % 2 ^ 64 = m % 2 ^ 64 then 1 else 0 := by
  have hcopy (p : Nat × Nat) (hp : p ∈ pairs) (hc : isCopy c m (p.2, x.event) = true) :
      p = (u, c) ∧ c ∈ h.state.slot u ∧ x.id % 2 ^ 64 = m % 2 ^ 64 := by
    simp only [isCopy, isEventOf_event, decide_eq_true_eq] at hc
    obtain ⟨rfl, hid⟩ := hc
    have hslot := hpairs p.1 p.2 hp
    have huser := hu.bound p.1 hslot
    exact ⟨by rw [← huser], huser ▸ hslot, hid⟩
  rw [List.countP_map]
  split
  · rename_i hboth
    calc
      pairs.countP (isCopy c m ∘ fun p => (p.2, x.event)) ≤ pairs.countP (· == (u, c)) :=
        List.countP_mono_left fun p hp hc => beq_iff_eq.mpr (hcopy p hp hc).1
      _ ≤ 1 := List.nodup_iff_count_le_one.mp hnodup (u, c)
  · rename_i hnot
    exact (List.countP_eq_zero.mpr fun p hp hc => hnot (hcopy p hp hc).2).le

theorem routed (hu : Unrepeated c u h) {x : Message} {s : Nat} {us : List Nat}
    {frames : List (Nat × Json)} (hid : x.id = h.state.store.nextMsgId)
    (hoffered : Offered h.state.store.nextMsgId s x.event us h.state h'.state frames)
    (hcopies : ∀ m, copies c m h'.log = copies c m h.log + frames.countP (isCopy c m))
    (hnext : h'.state.store.nextMsgId = h.state.store.nextMsgId + 1)
    (hfits : h'.state.store.nextMsgId ≤ 2 ^ 64)
    (hslot : ∀ v, h'.state.slot v = h.state.slot v) : Unrepeated c u h' := by
  rw [hnext] at hfits
  obtain ⟨pairs, hnodup, hpairs, rfl⟩ := hoffered.pairs
  have hcount (m : Nat) := hu.countP_pairs hnodup (fun v d hp => ((hpairs v d).mp hp).2) x m
  have hqueue := hoffered.queue u
  have hold (m : Nat) (hm : m < 2 ^ 64) (hne : m ≠ h.state.store.nextMsgId) :
      copies c m h'.log = copies c m h.log := by
    have hzero := hcount m
    rw [if_neg (by omega), Nat.le_zero] at hzero
    rw [hcopies, hzero, Nat.add_zero]
  have hnew := hu.unseen h.state.store.nextMsgId le_rfl hfits
  refine ⟨fun v hv => hu.bound v (hslot v ▸ hv), fun m => ?_, fun m hm hlt => ?_, fun m hm => ?_,
    fun m hm => ?_, ?_⟩
  · rw [hcopies]
    by_cases hsame : x.id % 2 ^ 64 = m % 2 ^ 64
    · rw [← copies_congr h.log hsame, hid, hnew, Nat.zero_add]
      exact (hcount m).trans (by split <;> decide)
    · have hzero := hcount m
      rw [if_neg fun hboth => hsame hboth.2, Nat.le_zero] at hzero
      rw [hzero]
      exact hu.once m
  · rw [hnext] at hm
    rw [hold m hlt (by omega), hu.unseen m (by omega) hlt]
  · rw [hqueue] at hm
    rcases List.mem_append.mp hm with hm | hm
    · have hlt := hu.queue_lt m hm
      rw [hold m (by omega) (by omega), hu.waiting m hm]
    · split at hm
      · rename_i hoff
        obtain rfl := List.mem_singleton.mp hm
        have hzero := hcount h.state.store.nextMsgId
        rw [if_neg (by simp [hoff.2.2]), Nat.le_zero] at hzero
        rw [hcopies, hnew, hzero]
      · cases hm
  · rw [hqueue] at hm
    rw [hnext]
    rcases List.mem_append.mp hm with hm | hm
    · exact Nat.lt_succ_of_lt (hu.queue_lt m hm)
    · split at hm
      · exact Nat.lt_succ_of_le (List.mem_singleton.mp hm).le
      · cases hm
  · rw [hqueue]
    apply hu.queue_nodup.append
    · split <;> simp
    · intro m hm hm'
      have hlt := hu.queue_lt m hm
      split at hm'
      · exact absurd (List.mem_singleton.mp hm') hlt.ne
      · cases hm'

theorem countP_drained (hu : Unrepeated c u h) (hfits : h.state.store.nextMsgId ≤ 2 ^ 64)
    (m : Nat) :
    ((h.state.store.drainUndelivered u).1.map fun x => (c, x.event)).countP (isCopy c m) ≤
      (h.state.store.queue u).count (m % 2 ^ 64) := by
  rw [Store.drain_messages, List.countP_map, List.countP_filterMap]
  apply List.countP_mono_left
  intro mid hmid hcopy
  obtain ⟨x, hfind, hx⟩ : ∃ x, h.state.store.findMessage mid = some x ∧
      isCopy c m (c, x.event) = true := by
    cases hfind : h.state.store.findMessage mid with
    | none => simp [hfind] at hcopy
    | some x => exact ⟨x, rfl, by simpa [hfind] using hcopy⟩
  have hid : x.id = mid := by simpa using List.find?_some hfind
  have hlt := hu.queue_lt mid hmid
  simp only [isCopy, isEventOf_event, decide_eq_true_eq, true_and, hid] at hx
  rw [beq_iff_eq, ← hx, Nat.mod_eq_of_lt (by omega)]

theorem replayed (hu : Unrepeated c u h) (hfits : h.state.store.nextMsgId ≤ 2 ^ 64)
    (hbound : ∀ v, c ∈ h'.state.slot v → v = u)
    (hcopies : ∀ m, copies c m h'.log = copies c m h.log +
      ((h.state.store.drainUndelivered u).1.map fun x => (c, x.event)).countP (isCopy c m))
    (hnext : h'.state.store.nextMsgId = h.state.store.nextMsgId)
    (hqueue : h'.state.store.queue u = []) : Unrepeated c u h' := by
  have hcount (m : Nat) := hu.countP_drained hfits m
  have hnone (m : Nat) (hm : m % 2 ^ 64 ∉ h.state.store.queue u) :
      copies c m h'.log = copies c m h.log := by
    have hzero := hcount m
    rw [List.count_eq_zero.mpr hm, Nat.le_zero] at hzero
    rw [hcopies, hzero, Nat.add_zero]
  refine ⟨hbound, fun m => ?_, fun m hm hlt => ?_, by simp [hqueue], by simp [hqueue],
    by simp [hqueue]⟩
  · by_cases hm : m % 2 ^ 64 ∈ h.state.store.queue u
    · rw [hcopies, ← copies_congr h.log (Nat.mod_mod m _), hu.waiting _ hm, Nat.zero_add]
      exact (hcount m).trans (List.nodup_iff_count_le_one.mp hu.queue_nodup _)
    · rw [hnone m hm]
      exact hu.once m
  · rw [hnext] at hm
    rw [hnone m, hu.unseen m hm hlt]
    intro hqueued
    rw [Nat.mod_eq_of_lt hlt] at hqueued
    exact absurd (hu.queue_lt m hqueued) (by omega)

theorem bind (hu : Unrepeated c u h) (hfits : h.state.store.nextMsgId ≤ 2 ^ 64) {v d : Nat}
    (hd : d = c → v = u) (hcopies : ∀ m, copies c m h'.log =
      copies c m h.log + (sent env (Presence.bind v d) h.state).countP (isCopy c m))
    (hstate : h'.state = ((Presence.bind v d).run (memExec env) h.state).2) :
    Unrepeated c u h' := by
  have hbound (v' : Nat) (hv : c ∈ h'.state.slot v') : v' = u := by
    rw [hstate, bind_slot] at hv
    split at hv
    · rename_i heq
      rcases Finset.mem_insert.mp hv with heq' | hv
      · exact heq ▸ hd heq'.symm
      · exact hu.bound v' hv
    · exact hu.bound v' hv
  have hstore : h'.state.store = _ := (congrArg World.store hstate).trans (bind_store env)
  by_cases hon : h.state.slot v = ∅
  · rw [if_pos hon] at hstore
    have hnext : h'.state.store.nextMsgId = h.state.store.nextMsgId := by
      rw [hstore, Store.drain_store_nextMsgId]
    have hqueue : h'.state.store.queue u = if v = u then [] else h.state.store.queue u := by
      rw [hstore, Store.queue_drain]
    by_cases hc : d = c
    · obtain rfl := hc
      obtain rfl := hd rfl
      rw [if_pos rfl] at hqueue
      refine hu.replayed hfits hbound (fun m => ?_) hnext hqueue
      rw [hcopies, sent_bind env hon]
    · have hother (m : Nat) : (sent env (Presence.bind v d) h.state).countP (isCopy c m) = 0 := by
        rw [sent_bind env hon, List.countP_map]
        exact List.countP_eq_zero.mpr fun x _ => by simp [isCopy, hc]
      refine hu.still hbound (fun m => by rw [hcopies, hother, Nat.add_zero]) hnext ?_
      rw [hqueue]
      split
      · exact List.nil_sublist _
      · exact List.Sublist.refl _
  · rw [if_neg hon] at hstore
    refine hu.still hbound (fun m => ?_) (by rw [hstore]) (by rw [hstore])
    rw [hcopies, sent_bind_online env hon]
    rfl

end Unrepeated

def Once (c u : Nat) (h : Hist) : Prop := Plain c u h → Unrepeated c u h

theorem once_call {i : Nat} {j : Input} {x : ServerM α}
    (hx : ∀ h, Unrepeated c u h → Plain c u (h.run (memExec env) i j x).2 →
      Unrepeated c u (h.run (memExec env) i j x).2) :
    Keeps (History.alone (memExec env) i j) (Once c u) x :=
  keeps_actual fun h hh hplain => hx h (hh hplain.of_run) hplain

theorem once_neutral (i : Nat) (j : Input) (d : Nat) :
    Neutral (History.alone (memExec env) i j) (Once c u) d routine := by
  rintro o ⟨hk, -⟩ h hh
  refine ⟨trivial, ?_⟩
  rintro r h' ⟨rfl, rfl⟩
  refine ⟨fun hplain => ?_, trivial⟩
  have hu := hh (Plain.of_run (x := call o) hplain)
  obtain ⟨-, hnext, hqueue⟩ := routine_store env hk h.state
  refine hu.still (fun v hv => hu.bound v (routine_slot hk hv)) (fun m => ?_) hnext ?_
  · simp [copies, routine_pushed hk]
  · rw [History.record_state, hqueue]

theorem sendDm_once (i : Nat) (j : Input) (sender receiver : Nat) (content : String) :
    Keeps (History.alone (memExec env) i j) (Once c u)
    (MessageRouter.sendDm sender receiver content) := by
  refine once_call fun h hu hplain => ?_
  have huses := MessageRouter.sendDm_uses (c := 0) sender receiver content
  have hstate := (h.run_state (memExec env) i j (MessageRouter.sendDm sender receiver content)).2
  have hne : sender ≠ receiver := by
    have hlog := hplain.others
    rw [History.run_log] at hlog
    -- the message is stored right after the clock is read
    exact of_decide_eq_false (hlog _
      (List.mem_append_right _ (List.mem_cons_of_mem _ (List.mem_cons_self ..))))
  refine hu.routed (x := dmMessage env sender receiver content h.state) rfl
    (hstate.symm ▸ offered_sendDm hne content) (fun m =>
      copies_call env huses (by decide) i j h c m) ?_ hplain.fits ?_
  · obtain ⟨cs, cs', -, -, -, -, -, hstore⟩ := sendDm_routes env sender receiver content h.state
    rw [hstate, hstore, nextMsgId_settle]
    rfl
  · intro v
    rw [hstate]
    exact slot_run (c := 0) (huses.mono (by decide)) v

theorem sendRoom_once (i : Nat) (j : Input) (sender room : Nat) (content : String) :
    Keeps (History.alone (memExec env) i j) (Once c u)
    (MessageRouter.sendRoom sender room content) := by
  refine once_call fun h hu hplain => ?_
  have huses := MessageRouter.sendRoom_uses (c := 0) sender room content
  have hstate := (h.run_state (memExec env) i j (MessageRouter.sendRoom sender room content)).2
  have hcopies (m : Nat) := copies_call env huses (by decide) i j h c m
  have hslot (v : Nat) :
    (h.run (memExec env) i j (MessageRouter.sendRoom sender room content)).2.state.slot v =
      h.state.slot v := by
    rw [hstate]
    exact slot_run (c := 0) (huses.mono (by decide)) v
  cases hanswer : (memExec env (.isMember room sender) h.state).1 with
  | false =>
    obtain ⟨hrun, hsent⟩ := sendRoom_stranger env content hanswer
    have hstore :
      (h.run (memExec env) i j (MessageRouter.sendRoom sender room content)).2.state.store =
        h.state.store := by
      rw [hstate, hrun]
      exact memExec_store env _ _ (by simp)
    refine hu.still (fun v hv => hu.bound v (hslot v ▸ hv)) (fun m => ?_) (by rw [hstore])
      (by rw [hstore])
    rw [hcopies, hsent]
    rfl
  | true =>
    obtain ⟨members, -, -, hstore, -, hoffered⟩ := sendRoom_offers env content hanswer
    refine hu.routed (x := roomMessage env sender room content h.state) rfl
      (hstate.symm ▸ hoffered) hcopies ?_
      hplain.fits hslot
    rw [hstate, hstore]
    rfl

theorem bind_once (i : Nat) (j : Input) (v d : Nat) :
    Keeps (History.alone (memExec env) i j) (Once c u) (Presence.bind v d) := by
  refine once_call fun h hu hplain => ?_
  have huses : Uses d [.bind, .replay] (Presence.bind v d) := by simp
  have hstate := (h.run_state (memExec env) i j (Presence.bind v d)).2
  refine hu.bind hplain.of_run.fits ?_ (fun m => copies_call env huses (by decide) i j h c m) hstate
  rintro rfl
  have hsingle := hplain.single v
  rw [History.run_log] at hsingle
  exact hsingle ⟨_, List.mem_append_right _ (List.mem_cons_self ..), rfl⟩

theorem body_once (i : Nat) (j : Input) :
    Keeps (History.alone (memExec env) i j) (Once c u) (body env j) := by
  cases j with
  | close d => exact close_uses.keeps (once_neutral i _ d) (by decide)
  | request d payload =>
    exact handlers.dispatch_keeps_routing (once_neutral i _ d) (by decide)
      (fun v => bind_once i _ v d)
      (sendDm_once i _) (sendRoom_once i _)

end Steps

def selfAddressed (env : Env) (w : World) : Input → Bool
  | .request c payload =>
    match env.parse payload with
    | some req =>
      getStr req "type" = types.kSendDM ∧
        (due.auth env w c req).toOption = some (toU64 (getI64 req "receiver_id" 0))
    | none => false
  | .close _ => false

section Inputs

variable {env : Env} {w : World}

theorem selfSent_of_kind {o : Op} (h : o.kind ≠ .storeDm) : o.selfSent = false := by
  unfold Op.selfSent
  split
  · exact absurd rfl h
  · rfl

theorem Uses.others {α : Type} {c : Nat} {ks : List Kind} {x : ServerM α} (hx : Uses c ks x)
    (hks : .storeDm ∉ ks) : x.Only fun o => o.selfSent = false := by
  refine Only.mono hx fun o ho => selfSent_of_kind ?_
  rintro heq
  exact hks (heq ▸ ho.1)

theorem sendDm_others {s r : Nat} (hne : s ≠ r) (content : String) :
    (MessageRouter.sendDm s r content).Only fun o => o.selfSent = false := by
  refine ⟨rfl, fun ts => ⟨decide_eq_false hne, fun id => ?_⟩⟩
  cases id with
  | none => trivial
  | some id =>
    refine ⟨rfl, fun conns => Only.bind (x := MessageRouter.deliver id r _ conns) ?_
      fun _ => ⟨rfl, fun own => ?_⟩⟩
    · exact (deliver_uses 0).others (by decide)
    · have hecho : Uses 0 [.dm] (do
          sendEach .echo s
            (makeEventMessage (toI64 id) (toI64 s) (some (toI64 r)) none content ts) own
          pure id) := by
        simp
      exact hecho.others (by decide)

theorem handleSendDm_others {c : Nat} {req : Json} (id : Option Int)
    (hother : (due.auth env w c req).toOption ≠ some (toU64 (getI64 req "receiver_id" 0))) :
    ∀ o ∈ (handlers.handleSendDm env c req id).trace (memExec env) w, o.selfSent = false := by
  have hauth : (handlers.requireAuth c req id).Only fun o => o.selfSent = false :=
    (handlers.requireAuth_uses req id).others (by decide)
  have hreply (j : Json) : (handlers.send c j).Only fun o => o.selfSent = false :=
    ⟨rfl, fun _ => trivial⟩
  intro o ho
  rw [handlers.handleSendDm, handlers.withAuth, bind_eq_bind, trace_bind] at ho
  rcases List.mem_append.mp ho with ho | ho
  · exact hauth.trace (memExec env) w o ho
  · cases hacts : due.auth env w c req with
    | error message =>
      obtain ⟨-, hzero⟩ := requireAuth_refuses req id hacts
      split at ho
      · rename_i hrun
        rw [hrun] at hzero
        cases hzero
        cases ho
      · cases ho
    | ok uid =>
      obtain ⟨-, w', hrun, -⟩ := requireAuth_accepts req id hacts
      rw [hrun] at ho
      refine Only.trace (memExec env) (p := fun o => o.selfSent = false) ?_ w' o ho
      rw [hacts] at hother
      have hne : uid ≠ toU64 (getI64 req "receiver_id" 0) := fun heq => hother (congrArg some heq)
      dsimp only
      split
      · trivial
      · split
        · exact hreply _
        · split
          · exact hreply _
          · refine ⟨rfl, fun found => ?_⟩
            cases found with
            | none => exact hreply _
            | some _ =>
              dsimp only [ret_bind]
              refine Only.bind (sendDm_others hne _) fun msgId => ?_
              split
              · exact hreply _
              · exact ⟨rfl, fun _ => hreply _⟩

open handlers in
theorem body_others {input : Input} (h : selfAddressed env w input = false) :
    ∀ o ∈ (body env input).trace (memExec env) w, o.selfSent = false := by
  cases input with
  | close c => exact (close_uses.others (by decide)).trace (memExec env) w
  | request c payload =>
    have hreply (j : Json) : (handlers.send c j).Only fun o => o.selfSent = false :=
      ⟨rfl, fun _ => trivial⟩
    apply handlers.dispatch_cases (Q := fun x => ∀ o ∈ x.trace (memExec env) w, o.selfSent = false)
    · exact fun j => (hreply j).trace (memExec env) w
    · intro req h' hreq hl o ho
      rw [trace_tryCatch] at ho
      rcases List.mem_append.mp ho with ho | ho
      · have hothers {x : ServerM Unit}
            (hx : Uses c [.own, .reply, .ident, .assume, .session, .validate, .issue, .bind,
              .unbind, .storeRoomMsg, .roomMsg, .queue, .replay, .membership] x) :
            ∀ o ∈ x.trace (memExec env) w, o.selfSent = false :=
              (hx.others (by decide)).trace (memExec env) w
        refine table_cases (M := fun type h => getStr req "type" = type →
            ∀ o ∈ (h c req (requestId req)).trace (memExec env) w, o.selfSent = false)
          (fun _ => hothers ((handleRegister_uses env req _).mono ?_))
          (fun _ => hothers ((handleLogin_uses env req _).mono ?_))
          (fun _ => hothers ((handleLogout_uses req _).mono ?_)) ?_
          (fun _ => hothers ((handleSendRoom_acts env).uses ?_ ?_ req _))
          (fun _ => hothers (handleCreateRoom_acts.uses ?_ ?_ req _))
          (fun _ => hothers (handleJoinRoom_acts.uses ?_ ?_ req _))
          (fun _ => hothers (handleLeaveRoom_acts.uses ?_ ?_ req _))
          (fun _ => hothers (handleListRooms_acts.uses ?_ ?_ req _))
          (fun _ => hothers (handleHistoryDm_acts.uses ?_ ?_ req _))
          (fun _ => hothers (handleHistoryRoom_acts.uses ?_ ?_ req _))
          (fun _ => hothers (handlePresence_acts.uses ?_ ?_ req _))
          (fun _ => hothers ((handlePing_uses req _).mono ?_)) hl rfl o ho
        rotate_left 3
        · intro htype
          apply handleSendDm_others
          intro hself
          simp [selfAddressed, hreq, htype, hself] at h
        all_goals decide
      · split at ho
        · cases ho
        · exact (hreply _).trace (memExec env) _ o ho

end Inputs

theorem event_at_most_once {env : Env} {inputs : List Input}
    (hself : Each env (fun w input => selfAddressed env w input = false) inputs)
    (hfits : (serveAll env inputs).state.store.nextMsgId ≤ 2 ^ 64) {c : Nat}
    (hsingle : ∀ u v, Bound (serveAll env inputs).log u c → Bound (serveAll env inputs).log v c →
      u = v) (m : Nat) :
    copies c m (serveAll env inputs).log ≤ 1 := by
  obtain ⟨u, hu⟩ : ∃ u, ∀ v, Bound (serveAll env inputs).log v c → v = u := by
    by_cases hbound : ∃ u, Bound (serveAll env inputs).log u c
    · obtain ⟨u, hu⟩ := hbound
      exact ⟨u, fun v hv => hsingle v u hv hu⟩
    · exact ⟨0, fun v hv => absurd ⟨v, hv⟩ hbound⟩
  have honce : Once c u (serveAll env inputs) :=
    History.serveAll_alone (memExec env) (body env) body_once (fun _ => .start) inputs
  refine (honce ⟨hu, fun e he => ?_, hfits⟩).once m
  obtain ⟨pre, input, post, heq, hop⟩ := mem_log_serveAll he
  exact body_others (hself pre input post heq) e.op hop

theorem single_of_boundUsers {c u : Nat} {log : Log} (h : boundUsers c log = [u]) (v v' : Nat)
    (hv : Bound log v c) (hv' : Bound log v' c) : v = v' := by
  have hmem := mem_boundUsers hv
  have hmem' := mem_boundUsers hv'
  rw [h, List.mem_singleton] at hmem hmem'
  rw [hmem, hmem']

theorem event_at_most_once_bobBack :
    ∃ inputs, Each mailEnv (fun w input => selfAddressed mailEnv w input = false) inputs ∧
      boundUsers 2 (serveAll mailEnv inputs).log = [2] ∧
      0 < copies 2 1 (serveAll mailEnv inputs).log ∧
      copies 2 1 (serveAll mailEnv inputs).log ≤ 1 := by
  obtain ⟨inputs, hcheck, hfits, hbound, hcopy⟩ : ∃ inputs,
      eachCheck mailEnv (fun w input => !selfAddressed mailEnv w input) .init inputs = true ∧
      (serveAll mailEnv inputs).state.store.nextMsgId ≤ 2 ^ 64 ∧
        boundUsers 2 (serveAll mailEnv inputs).log = [2] ∧
      0 < copies 2 1 (serveAll mailEnv inputs).log := ⟨bobBack, by decide +kernel⟩
  have hself := each_of_check (P := fun w input => selfAddressed mailEnv w input = false) _
    (fun w input h => by simpa using h) hcheck
  exact ⟨inputs, hself, hbound, hcopy,
    event_at_most_once hself hfits (single_of_boundUsers hbound) 1⟩

theorem event_repeated_sharedRun :
    (∀ u v, Bound (serveAll sharedEnv sharedRun).log u 1 →
      Bound (serveAll sharedEnv sharedRun).log v 1 → u = v) ∧
      copies 1 1 (serveAll sharedEnv sharedRun).log = 2 := by
  -- Alice writes to Alice: the delivery and the echo reach the same connection.
  have hrun : boundUsers 1 (serveAll sharedEnv sharedRun).log = [1] ∧
      copies 1 1 (serveAll sharedEnv sharedRun).log = 2 := by decide +kernel
  exact ⟨single_of_boundUsers hrun.1, hrun.2⟩

end ChatServer
