import ChatServer.Db.StoreLaws

namespace ChatServer

open Lib

namespace Store

structure Sound (s : Store) : Prop where
  users : s.UsersOk
  rooms : Indexed Room.id Room.name s.nextRoomId s.rooms s.roomNameIdx
  members : ∀ r ∈ s.roomMembers, r ∈ s.rooms
  counted : 1 ≤ s.nextMsgId
  ordered : (s.messages.map Message.id).Pairwise (· < ·)
  bounded : ∀ m ∈ s.messages, 1 ≤ m.id ∧ m.id < s.nextMsgId
  addressed : ∀ m ∈ s.messages, m.receiverId.isSome ≠ m.roomId.isSome
  tokens : (s.sessions.map SessionRow.token).Nodup

structure Queued (s : Store) : Prop where
  once : ∀ u, (s.queue u).Nodup
  stored : ∀ u, ∀ id ∈ s.queue u, ∃ m ∈ s.messages, m.id = id

theorem sound_empty : empty.Sound where
  users := .empty
  rooms := .empty
  members r h := absurd h (AList.notMem_empty r)
  counted := Nat.le_refl 1
  ordered := .nil
  bounded _ h := absurd h List.not_mem_nil
  addressed _ h := absurd h List.not_mem_nil
  tokens := .nil

theorem queued_empty : empty.Queued where
  once u := by simp [queue, empty]
  stored u id h := by simp [queue, empty] at h

section Operations

variable {s : Store}

theorem Sound.createUser (h : s.Sound) (n p : String) (now : Int) :
    (s.createUser n p now).2.Sound := by
  have husers := h.users.createUser n p now
  unfold Store.createUser at husers ⊢
  split at husers
  · exact h
  · exact { h with users := husers }

theorem Sound.updateLastSeen (h : s.Sound) (id : Nat) (ts : Int) :
    (s.updateLastSeen id ts).Sound := by
  have husers := h.users.updateLastSeen id ts
  unfold Store.updateLastSeen at husers ⊢
  split at husers
  · exact { h with users := husers }
  · exact h

theorem Sound.createRoom (h : s.Sound) (n : String) (now : Int) : (s.createRoom n now).2.Sound := by
  unfold Store.createRoom
  split
  · exact h
  · rename_i hn
    refine { h with rooms := h.rooms.insert rfl hn, members := ?_ }
    intro r hr
    rw [AList.mem_insert]
    exact .inr (h.members r hr)

theorem Sound.joinRoom (h : s.Sound) (r u : Nat) : (s.joinRoom r u).2.Sound := by
  unfold Store.joinRoom
  split
  · exact h
  · rename_i room hroom
    refine { h with members := ?_ }
    intro r' hr'
    rcases AList.mem_insert _ |>.mp hr' with rfl | hr'
    · exact AList.lookup_isSome.mp (by rw [hroom]; rfl)
    · exact h.members r' hr'

theorem Sound.leaveRoom (h : s.Sound) (r u : Nat) : (s.leaveRoom r u).2.Sound := by
  unfold Store.leaveRoom
  split
  · exact h
  · rename_i ms hms
    refine { h with members := ?_ }
    intro r' hr'
    rcases AList.mem_insert _ |>.mp hr' with rfl | hr'
    · exact h.members _ (AList.lookup_isSome.mp (by rw [hms]; rfl))
    · exact h.members r' hr'

theorem Sound.addMessage (h : s.Sound) {m : Message} (hid : m.id = s.nextMsgId)
    (hto : m.receiverId.isSome ≠ m.roomId.isSome) :
    Sound { s with nextMsgId := s.nextMsgId + 1, messages := s.messages ++ [m] } := by
  refine { h with counted := Nat.le_add_left .., ordered := ?_, bounded := ?_, addressed := ?_ }
  · rw [List.map_append, List.pairwise_append]
    refine ⟨h.ordered, List.pairwise_singleton .., ?_⟩
    intro a ha b hb
    obtain ⟨m', hm', rfl⟩ := List.mem_map.mp ha
    obtain rfl : b = m.id := by simpa using hb
    rw [hid]
    exact (h.bounded m' hm').2
  · intro m' hm'
    rcases List.mem_append.mp hm' with hm' | hm'
    · exact ⟨(h.bounded m' hm').1, Nat.lt_succ_of_lt (h.bounded m' hm').2⟩
    · rw [List.mem_singleton.mp hm', hid]
      exact ⟨h.counted, Nat.lt_succ_self _⟩
  · intro m' hm'
    rcases List.mem_append.mp hm' with hm' | hm'
    · exact h.addressed m' hm'
    · rwa [List.mem_singleton.mp hm']

theorem Sound.updateMessageStatus (h : s.Sound) (id st : Nat) :
    (s.updateMessageStatus id st).Sound := by
  have hold {m : Message} (hm : m ∈ setStatus id st s.messages) :
      ∃ m' ∈ s.messages, m'.core = m.core := by
    have hcore : m.core ∈ (setStatus id st s.messages).map Message.core := List.mem_map_of_mem hm
    rwa [core_setStatus, List.mem_map] at hcore
  refine { h with ordered := ?_, bounded := ?_, addressed := ?_ }
  · exact (ids_setStatus id st s.messages).symm ▸ h.ordered
  · intro m hm
    obtain ⟨m', hm', hcore⟩ := hold hm
    rw [Message.eq_of_core hcore.symm]
    exact h.bounded m' hm'
  · intro m hm
    obtain ⟨m', hm', hcore⟩ := hold hm
    rw [Message.eq_of_core hcore.symm]
    exact h.addressed m' hm'

theorem tokens_upsertSession (tok : String) (uid : Nat) (ts : Int) (rows : List SessionRow) :
    (upsertSession tok uid ts rows).map SessionRow.token =
      if tok ∈ rows.map SessionRow.token then rows.map SessionRow.token else rows.map
        SessionRow.token ++ [tok] := by
  induction rows with
  | nil => rfl
  | cons r rows ih =>
    unfold upsertSession
    split
    · rename_i heq
      simp [heq]
    · rename_i hne
      rw [List.map_cons, ih]
      have hiff : tok ∈ (r :: rows).map SessionRow.token ↔ tok ∈ rows.map SessionRow.token := by
        simp [Ne.symm hne]
      simp only [hiff]
      split <;> rfl

theorem tokens_insertSession (h : (s.sessions.map SessionRow.token).Nodup) (tok : String)
    (uid : Nat) (ts : Int) :
    ((s.insertSession tok uid ts).sessions.map SessionRow.token).Nodup := by
  simp only [Store.insertSession, tokens_upsertSession]
  split
  · exact h
  · rename_i hnew
    refine h.append (List.nodup_singleton tok) ?_
    simpa [List.disjoint_singleton] using hnew

theorem tokens_deleteSession (h : (s.sessions.map SessionRow.token).Nodup) (tok : String) :
    ((s.deleteSession tok).sessions.map SessionRow.token).Nodup :=
  h.sublist (List.filter_sublist.map _)

theorem Sound.insertSession (h : s.Sound) (tok : String) (uid : Nat) (ts : Int) :
    (s.insertSession tok uid ts).Sound :=
  { h with tokens := tokens_insertSession h.tokens tok uid ts }

theorem Sound.deleteSession (h : s.Sound) (tok : String) : (s.deleteSession tok).Sound :=
  { h with tokens := tokens_deleteSession h.tokens tok }

theorem Sound.drainUndelivered (h : s.Sound) (u : Nat) : (s.drainUndelivered u).2.Sound := by
  unfold Store.drainUndelivered
  split
  · exact h
  · exact { h with }

end Operations

section Lookups

variable {s : Store}

theorem Sound.findUserByUsername (h : s.Sound) (n : String) :
    ∃ found, s.findUserByUsername n = .ok found := by
  unfold Store.findUserByUsername
  cases hid : s.usernameIdx.lookup n with
  | none => exact ⟨none, rfl⟩
  | some id =>
    obtain ⟨u, hu, -⟩ := h.users.named n id hid
    exact ⟨some u, by simp only [hu]⟩

theorem Sound.findRoomByName (h : s.Sound) (n : String) :
    ∃ found, s.findRoomByName n = .ok found := by
  unfold Store.findRoomByName
  cases hid : s.roomNameIdx.lookup n with
  | none => exact ⟨none, rfl⟩
  | some id =>
    obtain ⟨room, hroom, -⟩ := h.rooms.named n id hid
    exact ⟨some room, by simp only [hroom]⟩

theorem Sound.collectRooms (h : s.Sound) (u : Nat) (rs : List Nat) :
    ∃ out, s.collectRooms u rs = .ok out := by
  induction rs with
  | nil => exact ⟨[], rfl⟩
  | cons r rs ih =>
    obtain ⟨out, hout⟩ := ih
    unfold Store.collectRooms
    by_cases hmem : u ∈ s.members r
    · -- a room with a member has an entry, so it exists
      have hentry : r ∈ s.roomMembers := by
        rw [← AList.lookup_isSome]
        by_contra hnone
        rw [Bool.not_eq_true, Option.isSome_eq_false_iff, Option.isNone_iff_eq_none] at hnone
        simp [Store.members, hnone] at hmem
      obtain ⟨room, hroom⟩ :=
        Option.isSome_iff_exists.mp (AList.lookup_isSome.mpr (h.members r hentry))
      rw [if_pos hmem, hroom, hout]
      exact ⟨room :: out, rfl⟩
    · rw [if_neg hmem]
      exact ⟨out, hout⟩

theorem Queued.drainUndelivered (h : s.Queued) (u : Nat) :
    (s.drainUndelivered u).1.map Message.id = s.queue u := by
  rw [drain_messages]
  have hstored := h.stored u
  generalize s.queue u = ids at hstored
  induction ids with
  | nil => rfl
  | cons id ids ih =>
    obtain ⟨m, hm, hid⟩ := hstored id (List.mem_cons_self ..)
    obtain ⟨found, hfound⟩ : ∃ found, s.findMessage id = some found := by
      rw [← Option.isSome_iff_exists, findMessage, List.find?_isSome]
      exact ⟨m, hm, by simp [hid]⟩
    have hsame : found.id = id := by simpa using List.find?_some hfound
    rw [List.filterMap_cons_some hfound, List.map_cons, hsame,
      ih fun id' hid' => hstored id' (List.mem_cons_of_mem _ hid')]

end Lookups

end Store

end ChatServer
