import ChatServer.Db.StoreLaws
import ChatServer.Server.Shape

namespace ChatServer

open Lib

abbrev memExec (env : Env) : (o : Op) → World → o.Ret × World := exec env (memory env)

def Op.sent : Op → Option (Nat × Json)
  | .sendFrame _ d j => some (d, j)
  | _ => none

def sent {α : Type} (env : Env) (x : ServerM α) (w : World) : List (Nat × Json) :=
  (x.trace (memExec env) w).filterMap Op.sent

section Walks

variable (env : Env) (k : Nat)

theorem order_eq_nil {s : Finset Nat} : env.order k s = [] ↔ s = ∅ := by
  simp only [List.eq_nil_iff_forall_not_mem, env.mem_order, Finset.eq_empty_iff_forall_notMem]

theorem order_singleton (c : Nat) : env.order k {c} = [c] := by
  have hmem (x : Nat) : x ∈ env.order k {c} ↔ x = c := (env.mem_order ..).trans Finset.mem_singleton
  have hperm : (env.order k {c}).Perm [c] :=
    (List.perm_ext_iff_of_nodup (env.order_nodup ..) (List.nodup_singleton c)).mpr fun x => by
      simp [hmem]
  exact List.perm_singleton.mp hperm

end Walks

section Sent

variable {α β : Type} (env : Env) {w : World}

theorem sent_call {o : Op} {k : o.Ret → ServerM α} (ho : o.sent = none) :
    sent env (.op o k) w = sent env (k (memExec env o w).1) (memExec env o w).2 := by
  simp [sent, ho]

theorem sent_bind_some {x : ServerM α} {f : α → ServerM β} {a : α} {w' : World}
    (hx : x.run (memExec env) w = (some a, w')) :
    sent env (x.bind f) w = sent env x w ++ sent env (f a) w' := by
  rw [sent, Prog.trace_bind, hx, List.filterMap_append]
  rfl

theorem sent_bind_ret {x : ServerM α} {b : β} :
    sent env (x.bind fun _ => .ret b) w = sent env x w := by
  rw [sent, Prog.trace_bind]
  split <;> simp [sent]

theorem sent_sendEach (caller : Caller) (u : Nat) (event : Json) (cs : List Nat) :
    sent env (sendEach caller u event cs) w = cs.map fun c => (c, event) := by
  induction cs generalizing w with
  | nil => rfl
  | cons c cs ih => exact congrArg (List.cons (c, event)) ih

end Sent

section Frames

variable (env : Env) (o : RepoOp) (w : World)

@[simp] theorem memory_conns : (memory env o w).2.conns = w.conns := by cases o <;> rfl

@[simp] theorem memory_presence : (memory env o w).2.presence = w.presence := by cases o <;> rfl

@[simp] theorem memory_sessions : (memory env o w).2.sessions = w.sessions := by cases o <;> rfl

@[simp] theorem memory_rooms : (memory env o w).2.rooms = w.rooms := by cases o <;> rfl

end Frames

section Loading

variable (env : Env) (r : Nat) (w : World)

theorem ensureLoaded_memory :
    ensureLoaded (memory env) r w =
      { w with
        rooms := if r ∈ w.rooms.loaded then w.rooms else w.rooms.load r (w.store.members r) } := by
  simp only [ensureLoaded, memory]
  split <;> rfl

@[simp] theorem ensureLoaded_conns : (ensureLoaded (memory env) r w).conns = w.conns := by
  rw [ensureLoaded_memory]

@[simp] theorem ensureLoaded_presence : (ensureLoaded (memory env) r w).presence = w.presence := by
  rw [ensureLoaded_memory]

@[simp] theorem ensureLoaded_sessions : (ensureLoaded (memory env) r w).sessions = w.sessions := by
  rw [ensureLoaded_memory]

@[simp] theorem ensureLoaded_store : (ensureLoaded (memory env) r w).store = w.store := by
  rw [ensureLoaded_memory]

end Loading

def Op.onConn (env : Env) (c : Nat) : Op → Conn → Conn
  | .setUserId c' u, k => if c' = c then { k with userId := u } else k
  | .setSessionToken c' t, k => if c' = c then { k with token := t } else k
  | .sendFrame _ c' j, k => if c' = c then k.sendFrame env j else k
  | .beginClose c', k => if c' = c then { k with closing := true } else k
  | .finishClose c', k => if c' = c then { k with closed := true } else k
  | _, k => k

def Op.onSlot (u : Nat) : Op → Finset Nat → Finset Nat
  | .bindSlot u' c, s => if u' = u then insert c s else s
  | .unbindSlot u' c, s => if u' = u then s.erase c else s
  | _, s => s

namespace World

theorem setConn_conns (w : World) (c d : Nat) (k : Conn) :
    (w.setConn c k).conns d = if c = d then k else w.conns d := by
  simp only [setConn, Function.update_apply, eq_comm]

end World

theorem memExec_conn (env : Env) (o : Op) (w : World) (c : Nat) :
    (memExec env o w).2.conns c = o.onConn env c (w.conns c) := by
  cases o <;> simp only [exec, Op.onConn, World.setConn_conns, memory_conns, ensureLoaded_conns] <;>
    split <;> simp_all

theorem memExec_userId {env : Env} {o : Op} {w : World} {c : Nat} (ho : ∀ x, o ≠ .setUserId c x) :
    ((memExec env o w).2.conns c).userId = (w.conns c).userId := by
  rw [memExec_conn]
  cases o with
  | setUserId d x =>
    have hd : d ≠ c := by
      rintro rfl
      exact ho x rfl
    simp [Op.onConn, hd]
  | _ => simp only [Op.onConn, Conn.sendFrame] <;> grind

namespace Presence

theorem slot_bindSlot (map : Slots) (u v c : Nat) :
    slot (bindSlot map u c).2 v = if u = v then insert c (slot map v) else slot map v := by
  simp only [bindSlot, slot]
  split
  · rename_i h
    subst h
    simp
  · rename_i h
    rw [AList.lookup_insert_ne (Ne.symm h)]

theorem slot_unbindSlot (map : Slots) (u v c : Nat) :
    slot (unbindSlot map u c).2 v = if u = v then (slot map v).erase c else slot map v := by
  by_cases h : u = v
  · subst h
    cases hl : map.lookup u with
    | none => simp [unbindSlot, slot, hl]
    | some cs => by_cases he : cs.erase c = ∅ <;> simp [unbindSlot, slot, hl, he]
  · cases hl : map.lookup u with
    | none => simp [unbindSlot, slot, hl, h]
    | some cs =>
      by_cases he : cs.erase c = ∅
      · simp [unbindSlot, slot, hl, he, h, AList.lookup_erase_ne (Ne.symm h)]
      · simp [unbindSlot, slot, hl, he, h, AList.lookup_insert_ne (Ne.symm h)]

end Presence

theorem memExec_slot (env : Env) (o : Op) (w : World) (u : Nat) :
    (memExec env o w).2.slot u = o.onSlot u (w.slot u) := by
  cases o <;> simp only [exec, Op.onSlot, World.slot, World.setConn, memory_presence,
    ensureLoaded_presence, Presence.slot_bindSlot, Presence.slot_unbindSlot]

theorem memExec_store (env : Env) (o : Op) (w : World) (h : ∀ r, o ≠ .repo r) :
    (memExec env o w).2.store = w.store := by
  cases o <;> simp_all [exec, World.setConn]

theorem memExec_repo (env : Env) (o : RepoOp) (w : World) :
    memExec env (.repo o) w = memory env o w := rfl

def RepoOp.onMessages (s : Store) : RepoOp → List Message
  | .insertDm a b content ts => s.messages ++ [⟨s.nextMsgId, a, some b, none, content, 0, ts⟩]
  | .insertRoomMsg a r content ts => s.messages ++ [⟨s.nextMsgId, a, none, some r, content, 0, ts⟩]
  | .updateMessageStatus id st => Store.setStatus id st s.messages
  | _ => s.messages

def RepoOp.stores (s : Store) : RepoOp → Option Message
  | .insertDm a b content ts => some ⟨s.nextMsgId, a, some b, none, content, 0, ts⟩
  | .insertRoomMsg a r content ts => some ⟨s.nextMsgId, a, none, some r, content, 0, ts⟩
  | _ => none

def RepoOp.onQueue (s : Store) (u : Nat) : RepoOp → List Nat
  | .enqueueUndelivered mid v => if v = u then s.queue u ++ [mid] else s.queue u
  | .drainUndelivered v => if v = u then [] else s.queue u
  | _ => s.queue u

section Repo

variable (env : Env) (o : RepoOp) (w : World)

theorem memory_messages : (memory env o w).2.store.messages = o.onMessages w.store := by
  cases o <;> simp only [memory, RepoOp.onMessages, World.setStore, Store.createUser,
    Store.updateLastSeen, Store.createRoom, Store.joinRoom, Store.leaveRoom, Store.insertDm,
    Store.insertRoomMsg, Store.drain_store_messages] <;> (try split) <;> rfl

theorem core_messages :
    (memory env o w).2.store.messages.map Message.core =
      w.store.messages.map Message.core ++ (o.stores w.store).toList := by
  rw [memory_messages]
  cases o with
  | updateMessageStatus id st => simp [RepoOp.onMessages, RepoOp.stores, Store.core_setStatus]
  | _ => simp [RepoOp.onMessages, RepoOp.stores, Message.core]

theorem mem_messages_memory {m : Message} (hm : m ∈ (memory env o w).2.store.messages) :
    (∃ m' ∈ w.store.messages, m'.core = m.core) ∨ o.stores w.store = some m.core := by
  have hcore : m.core ∈ (memory env o w).2.store.messages.map Message.core := List.mem_map_of_mem hm
  rw [core_messages, List.mem_append, List.mem_map, Option.mem_toList] at hcore
  exact hcore

theorem memory_queue (u : Nat) : (memory env o w).2.store.queue u = o.onQueue w.store u := by
  cases o <;> simp only [memory, RepoOp.onQueue, World.setStore, Store.createUser,
    Store.updateLastSeen, Store.createRoom, Store.joinRoom, Store.leaveRoom,
    Store.queue_enqueue, Store.queue_drain] <;> (try split) <;> rfl

theorem memory_nextMsgId :
    (memory env o w).2.store.nextMsgId = w.store.nextMsgId + (o.stores w.store).toList.length := by
  cases o <;> simp only [memory, RepoOp.stores, World.setStore, Store.createUser,
    Store.updateLastSeen, Store.createRoom, Store.joinRoom, Store.leaveRoom,
      Store.drain_store_nextMsgId] <;> (try split) <;> rfl

theorem memory_freshIds {w : World} (h : w.store.FreshIds) : (memory env o w).2.store.FreshIds := by
  cases o with
  | insertDm a b content ts => exact h.add _ rfl
  | insertRoomMsg a r content ts => exact h.add _ rfl
  | updateMessageStatus id st => exact h.congr (Store.ids_setStatus id st _) rfl
  | drainUndelivered u => exact h.congr (by rw [memory_messages]; rfl) (memory_nextMsgId ..)
  | createUser n p => exact h.congr (by rw [memory_messages]; rfl) (memory_nextMsgId ..)
  | updateLastSeen u ts => exact h.congr (by rw [memory_messages]; rfl) (memory_nextMsgId ..)
  | createRoom n => exact h.congr (by rw [memory_messages]; rfl) (memory_nextMsgId ..)
  | joinRoom r u => exact h.congr (by rw [memory_messages]; rfl) (memory_nextMsgId ..)
  | leaveRoom r u => exact h.congr (by rw [memory_messages]; rfl) (memory_nextMsgId ..)
  | _ => exact ⟨h.nodup, h.below⟩

theorem memory_usersOk {w : World} (h : w.store.UsersOk) : (memory env o w).2.store.UsersOk := by
  cases o with
  | createUser n p => exact h.createUser n p _
  | updateLastSeen u ts => exact h.updateLastSeen u ts
  | createRoom n =>
    simp only [memory, Store.createRoom]
    split
    · exact h
    · exact h.congr rfl rfl rfl
  | joinRoom r u =>
    simp only [memory, World.setStore, Store.joinRoom]
    split
    · exact h
    · exact h.congr rfl rfl rfl
  | leaveRoom r u =>
    simp only [memory, World.setStore, Store.leaveRoom]
    split
    · exact h
    · exact h.congr rfl rfl rfl
  | drainUndelivered u =>
    simp only [memory, World.setStore, Store.drainUndelivered]
    split
    · exact h
    · exact h.congr rfl rfl rfl
  | _ => exact h.congr rfl rfl rfl

end Repo

theorem mem_messages_memExec {env : Env} {o : Op} {w : World} {m : Message}
    (hm : m ∈ (memExec env o w).2.store.messages) :
    (∃ m' ∈ w.store.messages, m'.core = m.core) ∨
      ∃ r, o = .repo r ∧ r.stores w.store = some m.core := by
  cases o with
  | repo r => exact (mem_messages_memory env r w hm).imp_right fun h => ⟨r, rfl, h⟩
  | _ =>
    rw [memExec_store env _ _ (by simp)] at hm
    exact .inl ⟨m, hm, rfl⟩

def Store.Has (s : Store) (m : Message) : Prop := m.core ∈ s.messages.map Message.core

theorem Store.has_of_mem {s : Store} {m : Message} (h : m ∈ s.messages) : s.Has m :=
  List.mem_map_of_mem h

theorem memExec_has {env : Env} {o : Op} {w : World} {m : Message} (h : w.store.Has m) :
    (memExec env o w).2.store.Has m := by
  cases o with
  | repo o =>
    rw [Store.Has, memExec_repo, core_messages]
    exact List.mem_append_left _ h
  | _ => rwa [memExec_store env _ _ (by simp)]

theorem memExec_has_stores {env : Env} {o : RepoOp} {w : World} {m : Message}
    (h : o.stores w.store = some m.core) : (memExec env (.repo o) w).2.store.Has m := by
  rw [Store.Has, memExec_repo, core_messages, h]
  exact List.mem_append_right _ (List.mem_singleton.mpr rfl)

theorem memExec_freshIds {env : Env} {o : Op} {w : World} (h : w.store.FreshIds) :
    (memExec env o w).2.store.FreshIds := by
  cases o with
  | repo o => exact memory_freshIds env o h
  | _ => rwa [memExec_store env _ _ (by simp)]

theorem memExec_nextMsgId_le (env : Env) (o : Op) (w : World) :
    w.store.nextMsgId ≤ (memExec env o w).2.store.nextMsgId := by
  cases o with
  | repo o =>
    rw [memExec_repo, memory_nextMsgId]
    exact Nat.le_add_right ..
  | _ => rw [memExec_store env _ _ (by simp)]

theorem memExec_usersOk {env : Env} {w : World} (o : Op) (h : w.store.UsersOk) :
    (memExec env o w).2.store.UsersOk := by
  cases o with
  | repo o => exact memory_usersOk env o h
  | _ => rw [memExec_store env _ _ (by simp)]; exact h

end ChatServer
