import ChatServer.Lib.Index
import ChatServer.Db.Store

namespace ChatServer

def Message.core (m : Message) : Message := { m with status := 0 }

theorem Message.eq_of_core {m m' : Message} (h : m'.core = m.core) :
    m' = { m with status := m'.status } := by
  cases m
  cases m'
  simp_all [core]

namespace Store

theorem core_setStatus (id st : Nat) (ms : List Message) :
    (setStatus id st ms).map Message.core = ms.map Message.core := by
  induction ms with
  | nil => rfl
  | cons m ms ih =>
    simp only [setStatus]
    split
    · rfl
    · simp only [List.map_cons, ih]

theorem ids_setStatus (id st : Nat) (ms : List Message) :
    (setStatus id st ms).map Message.id = ms.map Message.id := by
  have hcore := congrArg (List.map Message.id) (core_setStatus id st ms)
  rwa [List.map_map, List.map_map] at hcore

theorem mem_scan {keep : Message → Bool} {before lim : Nat} {out ms : List Message} {m : Message}
    (h : m ∈ scan keep before lim out ms) : m ∈ out ∨ (m ∈ ms ∧ keep m = true) := by
  induction ms generalizing out with
  | nil => exact .inl h
  | cons a ms ih =>
    simp only [scan] at h
    split at h
    · exact .inl h
    · split at h
      · exact (ih h).imp_right fun ⟨hm, hk⟩ => ⟨List.mem_cons_of_mem _ hm, hk⟩
      · split at h
        · rename_i hkeep
          rcases ih h with hout | ⟨hm, hk⟩
          · rcases List.mem_append.mp hout with hout | hout
            · exact .inl hout
            · obtain rfl := List.mem_singleton.mp hout
              exact .inr ⟨List.mem_cons_self .., hkeep⟩
          · exact .inr ⟨List.mem_cons_of_mem _ hm, hk⟩
        · exact (ih h).imp_right fun ⟨hm, hk⟩ => ⟨List.mem_cons_of_mem _ hm, hk⟩

theorem mem_historyDm {s : Store} {a b before lim : Nat} {m : Message}
    (h : m ∈ s.historyDm a b before lim) : m ∈ s.messages ∧
      ((m.senderId = a ∧ m.receiverId = some b) ∨ (m.senderId = b ∧ m.receiverId = some a)) := by
  simpa using (mem_scan (List.mem_reverse.mp h)).resolve_left List.not_mem_nil

theorem mem_historyRoom {s : Store} {r before lim : Nat} {m : Message}
    (h : m ∈ s.historyRoom r before lim) : m ∈ s.messages ∧ m.roomId = some r := by
  simpa using (mem_scan (List.mem_reverse.mp h)).resolve_left List.not_mem_nil

structure FreshIds (s : Store) : Prop where
  nodup : (s.messages.map Message.id).Nodup
  below : ∀ id ∈ s.messages.map Message.id, id < s.nextMsgId

theorem FreshIds.lt {s : Store} (h : s.FreshIds) {m : Message} (hm : m ∈ s.messages) :
    m.id < s.nextMsgId :=
  h.below m.id (List.mem_map_of_mem hm)

theorem FreshIds.add {s : Store} (h : s.FreshIds) (m : Message) (hm : m.id = s.nextMsgId) :
    FreshIds { s with nextMsgId := s.nextMsgId + 1, messages := s.messages ++ [m] } where
  nodup := by
    rw [List.map_append, List.nodup_append]
    refine ⟨h.nodup, List.nodup_singleton _, ?_⟩
    intro a ha b hb
    have hlt := h.below a ha
    simp only [List.map_cons, List.map_nil, List.mem_singleton] at hb
    omega
  below := by
    intro id hid
    simp only [List.map_append, List.map_cons, List.map_nil, List.mem_append,
      List.mem_singleton] at hid
    rcases hid with hid | hid
    · exact Nat.lt_succ_of_lt (h.below id hid)
    · exact Nat.lt_succ_of_le (le_of_eq (hid.trans hm))

theorem FreshIds.congr {s s' : Store} (h : s.FreshIds)
    (hm : s'.messages.map Message.id = s.messages.map Message.id)
    (hn : s'.nextMsgId = s.nextMsgId) : s'.FreshIds :=
  ⟨by rw [hm]; exact h.nodup, by rw [hm, hn]; exact h.below⟩

theorem FreshIds.find {s : Store} (h : s.FreshIds) {m : Message} (hm : m ∈ s.messages) :
    s.findMessage m.id = some m := by
  obtain ⟨m', hm'⟩ : ∃ m', s.findMessage m.id = some m' := by
    rw [← Option.isSome_iff_exists, findMessage, List.find?_isSome]
    exact ⟨m, hm, by simp⟩
  have hid : m'.id = m.id := by simpa using List.find?_some hm'
  rw [hm', List.inj_on_of_nodup_map h.nodup (List.mem_of_find?_eq_some hm') hm hid]

theorem queue_enqueue (s : Store) (mid u v : Nat) :
    (s.enqueueUndelivered mid u).queue v = if u = v then s.queue v ++ [mid] else s.queue v := by
  simp only [enqueueUndelivered, queue]
  split
  · rename_i h
    subst h
    simp
  · rename_i h
    rw [AList.lookup_insert_ne (Ne.symm h)]

theorem queue_drain (s : Store) (u v : Nat) :
    (s.drainUndelivered u).2.queue v = if u = v then [] else s.queue v := by
  by_cases h : u = v
  · subst h
    cases hl : s.undelivered.lookup u <;> simp [drainUndelivered, queue, hl]
  · cases hl : s.undelivered.lookup u <;>
      simp [drainUndelivered, queue, hl, h, AList.lookup_erase_ne (Ne.symm h)]

theorem drain_messages (s : Store) (u : Nat) :
    (s.drainUndelivered u).1 = (s.queue u).filterMap s.findMessage := by
  cases hl : s.undelivered.lookup u <;> simp [drainUndelivered, queue, hl]

theorem mem_drained {s : Store} {u : Nat} {m : Message} (h : m ∈ (s.drainUndelivered u).1) :
    m ∈ s.messages ∧ m.id ∈ s.queue u := by
  rw [drain_messages] at h
  obtain ⟨mid, hmid, hfind⟩ := List.mem_filterMap.mp h
  have hid : m.id = mid := by simpa using List.find?_some hfind
  exact ⟨List.mem_of_find?_eq_some hfind, hid ▸ hmid⟩

@[simp] theorem drain_store_messages (s : Store) (u : Nat) :
    (s.drainUndelivered u).2.messages = s.messages := by
  cases hl : s.undelivered.lookup u <;> simp [drainUndelivered, hl]

@[simp] theorem drain_store_nextMsgId (s : Store) (u : Nat) :
    (s.drainUndelivered u).2.nextMsgId = s.nextMsgId := by
  cases hl : s.undelivered.lookup u <;> simp [drainUndelivered, hl]

abbrev UsersOk (s : Store) : Prop :=
  Lib.Indexed User.id User.username s.nextUserId s.users s.usernameIdx

theorem usersOk_empty : empty.UsersOk := .empty

theorem UsersOk.congr {s s' : Store} (h : s.UsersOk) (hn : s'.nextUserId = s.nextUserId)
    (hu : s'.users = s.users) (hi : s'.usernameIdx = s.usernameIdx) : s'.UsersOk := by
  rwa [UsersOk, hn, hu, hi]

theorem UsersOk.createUser {s : Store} (h : s.UsersOk) (n p : String) (now : Int) :
    (s.createUser n p now).2.UsersOk := by
  unfold Store.createUser
  split
  · exact h
  · rename_i hn
    exact h.insert rfl hn

theorem UsersOk.updateLastSeen {s : Store} (h : s.UsersOk) (v : Nat) (ts : Int) :
    (s.updateLastSeen v ts).UsersOk := by
  unfold Store.updateLastSeen
  split
  · rename_i u hu
    exact h.update hu rfl rfl
  · exact h

theorem UsersOk.find {s : Store} (h : s.UsersOk) {n : String} {u : User}
    (hf : s.findUserByUsername n = .ok (some u)) :
    u.username = n ∧ s.findUserById u.id = some u ∧ u.id ≠ 0 := by
  simp only [findUserByUsername] at hf
  split at hf
  · cases hf
  · rename_i id hid
    obtain ⟨u', hu', hname⟩ := h.named n id hid
    rw [hu'] at hf
    obtain rfl : u' = u := by simpa using hf
    obtain ⟨hrow, hpos, -⟩ := h.row id u' hu'
    exact ⟨hname, by rw [findUserById, hrow]; exact hu', by omega⟩

end Store

end ChatServer
