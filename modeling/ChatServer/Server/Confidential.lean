import ChatServer.Server.Evidence
import ChatServer.Server.Mirror
import ChatServer.Server.Replies
import ChatServer.Server.RoomCache

namespace ChatServer

open Lib Lib.Prog

def Json.entries (j : Json) : List Json :=
  match j.find "messages" with
  | some (.arr items) => items
  | _ => []

def Message.isDmOf (m : Message) (u : Nat) : Prop :=
  ∃ r, m.receiverId = some r ∧ (u = m.senderId ∨ u = r)

def Shows (w : World) (member : Nat → Nat → Prop) (u : Nat) (entry : Json) : Prop :=
  ∃ m ∈ w.store.messages, (entry = handlers.dmEntry m ∧ m.isDmOf u) ∨
    (entry = handlers.roomMsgEntry m ∧ ∃ r, m.roomId = some r ∧ member r u)

def repliesTo (w : World) : Op → Prop
  | .sendFrame .reply c j => getStr j "type" ≠ types.kEventMessage ∧
      ∀ entry ∈ j.entries, (w.conns c).userId ≠ 0 ∧
        Shows w (due.isMember w) (w.conns c).userId entry
  | _ => True

section Entries

theorem event_entries (m : Message) : m.event.entries = [] := by
  rw [Json.entries, Message.event, event_find]
  cases m.receiverId <;> cases m.roomId <;> rfl

namespace due

def Answer.entries : Answer → List Json
  | .dms ms => ms.map handlers.dmEntry
  | .roomMsgs ms => ms.map handlers.roomMsgEntry
  | _ => []

theorem Answer.entries_json (env : Env) (id : Option Int) (a : Answer) :
    (a.json env id).entries = a.entries := by
  have hnone (h : "messages" ∉ (a.fields env id).map Prod.fst) : (a.json env id).entries = [] := by
    obtain ⟨fs, hjson, hperm⟩ := json_perm env id a
    have hlookup : fs.lookup "messages" = none := by
      rw [List.lookup_eq_none_iff]
      rintro ⟨k, v⟩ hk
      rw [bne_iff_ne]
      rintro rfl
      exact h (List.mem_map_of_mem (hperm.mem_iff.mp hk))
    rw [hjson, Json.entries, Json.find, hlookup]
  cases a with
  | dms ms =>
    rw [Json.entries, json_find env id (.dms ms)
      (List.mem_append_right _ (List.mem_singleton.mpr rfl))]
    rfl
  | roomMsgs ms =>
    rw [Json.entries, json_find env id (.roomMsgs ms)
      (List.mem_append_right _ (List.mem_singleton.mpr rfl))]
    rfl
  | _ => exact hnone (by cases id <;> simp [fields, data, optField])

theorem acting_entries {env : Env} {w : World} {req : Json} {c : Nat}
    {act : World → Nat → Option Answer}
    {a : Answer} (hact : ∀ w uid, act w uid = some a → a.entries = [])
    (h : acting env w req c act = some a) : a.entries = [] := by
  unfold acting at h
  split at h
  · cases h
    rfl
  · exact hact _ _ h

theorem table_entries (env : Env) {type : String} {f : Reply} (hf : (type, f) ∈ table env)
    (hdm : type ≠ types.kHistoryDM) (hroom : type ≠ types.kHistoryRoom) {w : World}
    {c : Nat} {req : Json} {a : Answer} (ha : f w c req = some a) : a.entries = [] := by
  simp only [table, List.mem_cons, Prod.mk.injEq, List.not_mem_nil, or_false] at hf
  rcases hf with ⟨rfl, rfl⟩ | ⟨rfl, rfl⟩ | ⟨rfl, rfl⟩ | ⟨rfl, rfl⟩ | ⟨rfl, rfl⟩ | ⟨rfl,
    rfl⟩ | ⟨rfl, rfl⟩ |
    ⟨rfl, rfl⟩ | ⟨rfl, rfl⟩ | ⟨rfl, rfl⟩ | ⟨rfl, rfl⟩ | ⟨rfl, rfl⟩ | ⟨rfl, rfl⟩
  · grind [register, Answer.entries]
  · grind [login, Answer.entries]
  · grind [Answer.entries]
  · exact acting_entries (by grind [sendDm, sent, Answer.entries]) ha
  · exact acting_entries (by grind [sendRoom, sent, Answer.entries]) ha
  · exact acting_entries (by grind [createRoom, Answer.entries]) ha
  · exact acting_entries (by grind [joinRoom, joinedRoom, Answer.entries]) ha
  · exact acting_entries (by grind [leaveRoom, Answer.entries]) ha
  · exact acting_entries (by grind [listRooms, Answer.entries]) ha
  · exact absurd rfl hdm
  · exact absurd rfl hroom
  · exact acting_entries (by grind [presence, Answer.entries]) ha
  · grind [Answer.entries]

theorem answer_entries {env : Env} {w : World} {c : Nat} {payload : List UInt8}
    (h : ∀ req, env.parse payload = some req →
      getStr req "type" ≠ types.kHistoryDM ∧ getStr req "type" ≠ types.kHistoryRoom) :
    (answer env w c payload).entries = [] := by
  unfold answer
  cases hreq : env.parse payload with
  | none => rfl
  | some req =>
    obtain ⟨hdm, hroom⟩ := h req hreq
    dsimp only
    split
    · rfl
    · cases hf : (table env).lookup (getStr req "type") with
      | none => rfl
      | some f =>
        dsimp only
        cases ha : f w c req with
        | none => rfl
        | some a =>
          obtain ⟨l₁, l₂, heq, -⟩ := List.lookup_eq_some_iff.mp hf
          exact table_entries env (by simp [heq]) hdm hroom ha

end due

end Entries

section Replying

variable {env : Env} {w : World} {c : Nat}

theorem type_ne_event {j : Json} (h : isResponse j = true) :
    getStr j "type" ≠ types.kEventMessage := by
  intro htype
  rw [isResponse, htype] at h
  exact absurd h (by decide)

theorem dispatch_replying {payload : List UInt8} (hw : AccountsOk w)
    (h : (due.answer env w c payload).entries = []) :
    (handlers.dispatch env c payload).Follows (.actual (memExec env) repliesTo) w (fun _ _ => True)
      (fun _ => True) := by
  apply follows_actual
  intro o ho w'
  cases o with
  | sendFrame site d j =>
    cases site with
    | reply =>
      have hj : j ∈ replies env (handlers.dispatch env c payload) w :=
        List.mem_filterMap.mpr ⟨_, ho, rfl⟩
      rw [dispatch_replies hw.auth_ne_zero, List.mem_singleton] at hj
      refine ⟨type_ne_event (hj ▸ isResponse_json ..), ?_⟩
      rw [hj, due.reply, due.Answer.entries_json, h]
      simp
    | loop caller u cs => trivial
  | _ => trivial

variable (env c) in
theorem repliesTo_neutral (u : Nat) :
    Neutral (.actual (memExec env) repliesTo) (fun w => (w.conns c).userId = u) c
      [.own, .ident, .session, .validate, .bind, .replay] := by
  rintro o ⟨hk, -⟩ w hw
  refine ⟨?_, ?_⟩
  · change repliesTo w o
    unfold repliesTo
    split <;> simp_all
  · rintro r w' ⟨rfl, rfl⟩
    refine ⟨(memExec_userId ?_).trans hw, trivial⟩
    rintro v rfl
    simp at hk

theorem answer_replying (id : Option Int) (a : due.Answer)
    (h : ∀ entry ∈ a.entries, (w.conns c).userId ≠ 0 ∧
      Shows w (due.isMember w) (w.conns c).userId entry) :
    (handlers.send c (a.json env id)).Follows (.actual (memExec env) repliesTo) w (fun _ _ => True)
      (fun _ => True) := by
  refine ⟨⟨type_ne_event (isResponse_json id a), ?_⟩, fun _ _ _ => trivial⟩
  rw [due.Answer.entries_json]
  exact h

theorem error_replying (id : Option Int) (code message : String) (w : World) :
    (handlers.send c (makeError id code message)).Follows (.actual (memExec env) repliesTo) w
      (fun _ _ => True) (fun _ => True) :=
  answer_replying id (.refused code message) (by simp [due.Answer.entries])

theorem requireAuth_replying (req : Json) (id : Option Int) (w : World) :
    (handlers.requireAuth c req id).Follows (.actual (memExec env) repliesTo) w
      (fun uid w' => uid = 0 ∨ (w'.conns c).userId = uid) (fun _ => True) := by
  have herror (message : String) (w : World) :
      ((handlers.send c (makeError id errcode.kUnauthorized message)).bind
        fun _ => (.ret 0 : ServerM Nat)).Follows
        (.actual (memExec env) repliesTo) w (fun uid w' => uid = 0 ∨ (w'.conns c).userId = uid)
        (fun _ => True) := by
    apply (follows_bind ..).mpr
    exact (error_replying id errcode.kUnauthorized message w).mono (fun _ _ _ => .inl rfl)
      fun _ h => h
  refine ⟨trivial, ?_⟩
  rintro uid w' ⟨rfl, rfl⟩
  dsimp only [ret_bind]
  split
  · exact .inr rfl
  · split
    · exact herror _ _
    · refine ⟨trivial, ?_⟩
      rintro info w' ⟨-, rfl⟩
      cases info with
      | none => exact herror _ _
      | some info =>
        refine ⟨trivial, ?_⟩
        rintro r w' ⟨-, rfl⟩
        refine ⟨trivial, ?_⟩
        rintro r w' ⟨-, rfl⟩
        have hbind : Uses c [.bind, .replay] (Presence.bind info.userId c) := by simp
        dsimp only [ret_bind]
        apply (follows_bind ..).mpr
        apply (hbind.keeps (repliesTo_neutral env c info.userId) (by decide) _ _).mono
        · exact fun _ _ h => .inr h
        · exact fun _ _ => trivial
        · simp [exec, World.setConn]

theorem withAuth_replying {req : Json} {id : Option Int} {act : Nat → ServerM Unit}
    (hact : ∀ w, (w.conns c).userId ≠ 0 →
      (act (w.conns c).userId).Follows (.actual (memExec env) repliesTo) w
      (fun _ _ => True) (fun _ => True)) (w : World) :
    (handlers.withAuth c req id act).Follows (.actual (memExec env) repliesTo) w (fun _ _ => True)
      (fun _ => True) := by
  apply (follows_bind ..).mpr
  apply (requireAuth_replying req id w).mono
  · intro uid w' huid
    split
    · trivial
    · rename_i hne
      obtain rfl := huid.resolve_left hne
      exact hact w' hne
  · exact fun _ h => h

theorem handleHistoryDm_replying (req : Json) (id : Option Int) :
    ∀ w, (handlers.handleHistoryDm c req id).Follows (.actual (memExec env) repliesTo) w
      (fun _ _ => True)
      (fun _ => True) := by
  apply withAuth_replying
  intro w huser
  dsimp only
  split
  · exact error_replying ..
  · refine ⟨trivial, ?_⟩
    rintro ms w' ⟨rfl, rfl⟩
    apply answer_replying id (.dms _)
    intro entry hentry
    obtain ⟨m, hm, rfl⟩ := List.mem_map.mp hentry
    obtain ⟨hmem, hdm⟩ := Store.mem_historyDm hm
    refine ⟨huser, m, hmem, .inl ⟨rfl, ?_⟩⟩
    rcases hdm with ⟨hs, hr⟩ | ⟨hs, hr⟩
    · exact ⟨_, hr, .inl hs.symm⟩
    · exact ⟨_, hr, .inr rfl⟩

theorem isMember_after (env : Env) {r u v : Nat} :
    due.isMember (memExec env (.isMember r u) w).2 r v ↔ due.isMember w r v := by
  simp only [due.isMember, memExec_rooms, memExec_members, Op.onRooms, Op.onMembers,
    RoomManager.ensure]
  split <;> simp_all [RoomManager.load, RoomManager.members]

theorem handleHistoryRoom_replying (req : Json) (id : Option Int) :
    ∀ w, (handlers.handleHistoryRoom c req id).Follows (.actual (memExec env) repliesTo) w
      (fun _ _ => True)
      (fun _ => True) := by
  apply withAuth_replying
  intro w huser
  dsimp only
  generalize toU64 (getI64 req "room_id" 0) = room
  generalize hu : (w.conns c).userId = u at huser ⊢
  split
  · exact error_replying ..
  · refine ⟨trivial, ?_⟩
    rintro member w' ⟨hmember, rfl⟩
    cases member with
    | false => exact error_replying ..
    | true =>
      rw [isMember_answer, eq_comm, decide_eq_true_iff] at hmember
      have hcached := (isMember_after env (u := u)).mpr hmember
      have huid : ((memExec env (.isMember room u) w).2.conns c).userId = u :=
        (memExec_userId (by simp)).trans hu
      generalize (memExec env (.isMember room u) w).2 = w at hcached huid ⊢
      obtain rfl := huid
      refine ⟨trivial, ?_⟩
      rintro ms w' ⟨rfl, rfl⟩
      apply answer_replying id (.roomMsgs _)
      intro entry hentry
      obtain ⟨m, hm, rfl⟩ := List.mem_map.mp hentry
      obtain ⟨hmem, hroom⟩ := Store.mem_historyRoom hm
      exact ⟨huser, m, hmem, .inr ⟨rfl, room, hroom, hcached⟩⟩

variable (env) in
theorem body_replying (hw : AccountsOk w) (input : Input) :
    (body env input).Follows (.actual (memExec env) repliesTo) w (fun _ _ => True)
    (fun _ => True) := by
  cases input with
  | close c =>
    apply follows_actual
    intro o ho w'
    obtain ⟨hk, -⟩ := close_uses.trace (memExec env) w o ho
    unfold repliesTo
    split <;> simp_all
  | request c payload =>
    have hcatch {x : ServerM Unit} {id : Option Int}
      (hx : x.Follows (.actual (memExec env) repliesTo) w
        (fun _ _ => True) (fun _ => True)) :
        (x.tryCatch (handlers.send c (makeError id errcode.kInternal "internal error"))).Follows
          (.actual (memExec env) repliesTo) w (fun _ _ => True) (fun _ => True) :=
      (follows_tryCatch ..).mpr (hx.mono (fun _ _ h => h) fun w' _ => error_replying ..)
    by_cases h : ∃ req, env.parse payload = some req ∧
        (getStr req "type" = types.kHistoryDM ∨ getStr req "type" = types.kHistoryRoom)
    · obtain ⟨req, hreq, htype⟩ := h
      simp only [body, handlers.dispatch, hreq]
      rcases htype with htype | htype
      · rw [htype]
        exact hcatch (handleHistoryDm_replying req _ w)
      · rw [htype]
        exact hcatch (handleHistoryRoom_replying req _ w)
    · apply dispatch_replying hw
      apply due.answer_entries
      intro req hreq
      constructor
      · exact fun htype => h ⟨req, hreq, .inl htype⟩
      · exact fun htype => h ⟨req, hreq, .inr htype⟩

end Replying

def Authenticated (env : Env) (log : Log) (c u : Nat) : Prop :=
  Proved env log c u ∧ ∃ e ∈ log, e.op = .setUserId c u

/-- The message has been stored, as a direct message of `u` or in a room that `u` was a
member of at that moment. -/
def Entitled (log : Log) (u : Nat) (m : Message) : Prop :=
  ∃ e ∈ log, Stores e m ∧ (m.isDmOf u ∨ ∃ r, m.roomId = some r ∧ u ∈ e.before.store.members r)

/-- What a frame shows is meant for a user the connection has been authenticated as. -/
def Discreet (env : Env) (pre : Log) (e : Event Input Op World) : Prop :=
  ∀ site c j, e.op = .sendFrame site c j →
    (getStr j "type" = types.kEventMessage →
      ∃ u m, Authenticated env pre c u ∧ Message.event m = j ∧ Entitled pre u m) ∧
    ∀ entry ∈ j.entries, ∃ u, Authenticated env pre c u ∧
      Shows e.before (fun r u => u ∈ e.before.store.members r) u entry

structure Warranted (env : Env) (h : Hist) (i : Nat) (j : Input) (t : Warrant) : Prop where
  users : h.state.store.UsersOk
  sessions : ∀ tok info, h.state.sessions.lookup tok = some info → Standing h.log tok info
  granted : ∀ u ∈ t.granted, Proved env h.log j.conn u
  acting : ∀ u, t.acting = some u → ActsAs h.log i j.conn u
  became : ∀ u ∈ t.became, ∃ e ∈ h.log, e.op = .setUserId j.conn u
  attested : Attested env h
  seated : ∀ c, (h.state.conns c).userId ≠ 0 →
    ∃ e ∈ h.log, e.op = .setUserId c (h.state.conns c).userId
  slots : ∀ u, ∀ c ∈ h.state.slot u, Authenticated env h.log c u

structure Cleared (env : Env) (h : Hist) (t : Clearance) : Prop where
  reach : ∀ u c, (u, c) ∈ t.reach → Authenticated env h.log c u
  may : ∀ u m, (u, m) ∈ t.may → Entitled h.log u m ∧ h.state.store.Has m
  posted : ∀ m ∈ t.posted, h.state.store.Has m ∧
    ∃ e ∈ h.log, Stores e m ∧ ∀ r, e.before.store.members r = h.state.store.members r

structure Queues (h : Hist) : Prop where
  ids : h.state.store.FreshIds
  queued : ∀ u, ∀ id ∈ h.state.store.queue u, ∃ m, m.id = id ∧ h.state.store.Has m ∧
    Entitled h.log u m

section Mono

variable {env : Env} {log : Log} {c u : Nat} {m m' : Message} {e : Event Input Op World}

theorem Authenticated.mono (h : Authenticated env log c u) :
    Authenticated env (log ++ [e]) c u := by
  obtain ⟨hproved, e', he', hop⟩ := h
  exact ⟨hproved.mono, e', List.mem_append_left _ he', hop⟩

theorem Entitled.mono (h : Entitled log u m) : Entitled (log ++ [e]) u m := by
  obtain ⟨e', he', hsees⟩ := h
  exact ⟨e', List.mem_append_left _ he', hsees⟩

theorem Entitled.core (h : Entitled log u m) (hcore : m'.core = m.core) : Entitled log u m' := by
  obtain ⟨e, he, ⟨o, ho, hst⟩, hsees⟩ := h
  refine ⟨e, he, ⟨o, ho, by rw [hst, hcore]⟩, ?_⟩
  rw [Message.eq_of_core hcore]
  exact hsees

end Mono

section Alone

variable {env : Env} {h : Hist} {i : Nat} {j : Input} {o : Op}

theorem Warranted.fresh {t : Warrant} (hw : Warranted env h i j t) (i' : Nat) (j' : Input) :
    Warranted env h i' j' .none :=
  { hw with
    granted := by
      simp [Warrant.none], acting := by simp [Warrant.none], became := by simp [Warrant.none] }

theorem mem_append_of_mem {log : Log} {P : Event Input Op World → Prop} {e : Event Input Op World}
    (h : ∃ e ∈ log, P e) : ∃ e' ∈ log ++ [e], P e' := by
  obtain ⟨e', he', hP⟩ := h
  exact ⟨e', List.mem_append_left _ he', hP⟩

theorem became_after {t : Warrant} {r : o.Ret} (ho : ∀ c v, o ≠ .setUserId c v) :
    (t.after env j o r).became = t.became := by
  unfold Warrant.after
  split <;> simp_all

theorem Warranted.record {t : Warrant} (hw : Warranted env h i j t)
    (ha : (warrants env j).allows t o) :
    Warranted env (h.record (memExec env) i j o).2 i j
      (t.after env j o (memExec env o h.state).1) where
  users := memExec_usersOk o hw.users
  sessions _ _ hl := standing_step i j o hw.sessions hl
  granted _ hu := granted_step i j o hw.users hw.sessions hw.granted ha.2 hu
  acting _ hu := acting_step i j o ha.1 hw.acting hu
  became u hu := by
    rw [History.record_log]
    by_cases ho : ∃ c v, o = .setUserId c v
    · obtain ⟨c, v, rfl⟩ := ho
      obtain rfl : c = j.conn := ha.1
      rcases hu with rfl | hu
      · exact ⟨_, List.mem_append_right _ (List.mem_singleton.mpr rfl), rfl⟩
      · exact mem_append_of_mem (hw.became u hu)
    · rw [became_after (by simpa using ho)] at hu
      exact mem_append_of_mem (hw.became u hu)
  attested := attested_step i j o ha.2 ha.1 hw.granted hw.acting hw.attested
  seated c hc := by
    rw [History.record_state] at hc ⊢
    rw [History.record_log]
    by_cases ho : ∃ v, o = .setUserId c v
    · obtain ⟨v, rfl⟩ := ho
      refine ⟨_, List.mem_append_right _ (List.mem_singleton.mpr rfl), ?_⟩
      simp [exec, World.setConn]
    · rw [memExec_userId (by simpa using ho)] at hc ⊢
      exact mem_append_of_mem (hw.seated c hc)
  slots u c hc := by
    rw [History.record_state, memExec_slot] at hc
    rw [History.record_log]
    have hold (h' : c ∈ h.state.slot u) : Authenticated env (h.log ++ [⟨i, j, o, h.state⟩]) c u :=
      (hw.slots u c h').mono
    cases o with
    | bindSlot v d =>
      simp only [Op.onSlot] at hc
      split at hc
      · rename_i heq
        subst heq
        rcases Finset.mem_insert.mp hc with rfl | hc
        · obtain ⟨rfl, hgranted, hbecame⟩ := ha
          exact ⟨(hw.granted v hgranted).mono, mem_append_of_mem (hw.became v hbecame)⟩
        · exact hold hc
      · exact hold hc
    | unbindSlot v d =>
      simp only [Op.onSlot] at hc
      split at hc
      · exact hold (Finset.mem_of_mem_erase hc)
      · exact hold hc
    | _ => exact hold hc

theorem Cleared.moved {t : Clearance} (hc : Cleared env h t) :
    Cleared env (h.record (memExec env) i j o).2 { t with posted := ∅ } where
  reach u c hmem := (hc.reach u c hmem).mono
  may u m hmem := ⟨(hc.may u m hmem).1.mono, memExec_has (hc.may u m hmem).2⟩
  posted := by simp

theorem Cleared.old {t : Clearance} (hc : Cleared env h t)
    (ho : ∀ r ms, Op.onMembers h.state.store r o ms = ms) :
    Cleared env (h.record (memExec env) i j o).2 t where
  reach := hc.moved.reach
  may := hc.moved.may
  posted m hm := by
    obtain ⟨hhas, e, he, hstores, hmembers⟩ := hc.posted m hm
    refine ⟨memExec_has hhas, e, List.mem_append_left _ he, hstores, fun r => ?_⟩
    rw [hmembers, History.record_state, memExec_members, ho]

theorem Queues.drained {u : Nat} {m : Message} (hq : Queues h)
    (hm : m ∈ (memExec env (.repo (.drainUndelivered u)) h.state).1) :
    Entitled h.log u m ∧ h.state.store.Has m := by
  rw [memExec_repo] at hm
  simp only [memory, Store.drain_messages] at hm
  obtain ⟨id, hid, hfind⟩ := List.mem_filterMap.mp hm
  obtain ⟨m₀, rfl, hhas, hentitled⟩ := hq.queued u id hid
  obtain ⟨m₁, hm₁, hcore⟩ := List.mem_map.mp hhas
  have hsame : m₁.id = m₀.id := by rw [Message.eq_of_core hcore]
  rw [← hsame, hq.ids.find hm₁, Option.some.injEq] at hfind
  subst hfind
  exact ⟨hentitled.core hcore, Store.has_of_mem hm₁⟩

theorem Cleared.record {t : Clearance} {tw : Warrant} {tr : Roll} (hc : Cleared env h t)
    (hw : Warranted env h i j tw) (hal : Aligned h.state tr) (hroll : tr.allows o) (hq : Queues h) :
    Cleared env (h.record (memExec env) i j o).2 (t.after o (memExec env o h.state).1) := by
  cases o with
  | connectionsOf caller u =>
    refine { hc.old fun _ _ => rfl with reach := ?_ }
    rintro v c (hmem | ⟨rfl, hmem⟩)
    · exact hc.moved.reach v c hmem
    · exact (hw.slots _ c ((env.mem_order ..).mp hmem)).mono
  | membersOf r =>
    refine { hc.old fun _ _ => rfl with may := ?_ }
    rintro u m (hmem | ⟨hu, hm, hroom⟩)
    · exact hc.moved.may u m hmem
    · obtain ⟨hhas, e, he, hstores, hmembers⟩ := hc.posted m hm
      refine ⟨⟨e, List.mem_append_left _ he, hstores, .inr ⟨r, hroom, ?_⟩⟩, memExec_has hhas⟩
      rw [hmembers]
      exact (hal.mem_membersOf hroll).mp hu
  | repo o =>
    cases o with
    | insertDm s r content ts =>
      refine { hc.old fun _ _ => rfl with may := ?_ }
      rintro u m (hmem | hmem)
      · exact hc.moved.may u m hmem
      · have hnew : m.isDmOf u ∧ (RepoOp.insertDm s r content ts).stores h.state.store =
            some m.core := by
          rcases hmem with hmem | hmem <;> cases hmem
          · exact ⟨⟨r, rfl, .inl rfl⟩, rfl⟩
          · exact ⟨⟨_, rfl, .inr rfl⟩, rfl⟩
        refine ⟨⟨_, List.mem_append_right _ (List.mem_singleton.mpr rfl), ⟨_, rfl, hnew.2⟩,
          .inl hnew.1⟩, ?_⟩
        exact memExec_has_stores hnew.2
    | insertRoomMsg s r content ts =>
      refine { hc.old fun _ _ => rfl with posted := ?_ }
      rintro m (rfl | hm)
      · refine ⟨memExec_has_stores rfl, _, List.mem_append_right _ (List.mem_singleton.mpr rfl),
          ⟨_, rfl, rfl⟩, ?_⟩
        exact fun r' => (memExec_members env (.repo (.insertRoomMsg s r content ts))
          h.state r').symm
      · exact (hc.old fun _ _ => rfl).posted m hm
    | drainUndelivered v =>
      refine { hc.old fun _ _ => rfl with may := ?_ }
      rintro u m (hmem | ⟨rfl, hm⟩)
      · exact hc.moved.may u m hmem
      · obtain ⟨hentitled, hhas⟩ := hq.drained hm
        exact ⟨hentitled.mono, memExec_has hhas⟩
    | joinRoom r u => exact hc.moved
    | leaveRoom r u => exact hc.moved
    | _ => exact hc.old fun _ _ => rfl
  | _ => exact hc.old fun _ _ => rfl

theorem Queues.record {t : Clearance} (hq : Queues h) (hc : Cleared env h t) (ha : t.allows o) :
    Queues (h.record (memExec env) i j o).2 where
  ids := memExec_freshIds hq.ids
  queued u id hid := by
    have hold (h' : id ∈ h.state.store.queue u) : ∃ m, m.id = id ∧
        (memExec env o h.state).2.store.Has m ∧ Entitled (h.log ++ [⟨i, j, o, h.state⟩]) u m := by
      obtain ⟨m, hm, hhas, hentitled⟩ := hq.queued u id h'
      exact ⟨m, hm, memExec_has hhas, hentitled.mono⟩
    rw [History.record_state] at hid
    cases o with
    | repo o =>
      rw [memExec_repo, memory_queue] at hid
      cases o with
      | enqueueUndelivered mid v =>
        simp only [RepoOp.onQueue] at hid
        split at hid
        · rename_i heq
          subst heq
          rcases List.mem_append.mp hid with hid | hid
          · exact hold hid
          · obtain rfl := List.mem_singleton.mp hid
            obtain ⟨m, hm, hmay⟩ := ha
            obtain ⟨hentitled, hhas⟩ := hc.may v m hmay
            exact ⟨m, hm, memExec_has hhas, hentitled.mono⟩
        · exact hold hid
      | drainUndelivered v =>
        simp only [RepoOp.onQueue] at hid
        split at hid
        · cases hid
        · exact hold hid
      | _ => exact hold hid
    | _ =>
      rw [memExec_store env _ _ (by simp)] at hid
      exact hold hid

theorem discreet_step {t : Clearance} {tw : Warrant} {tr : Roll} (hc : Cleared env h t)
    (hw : Warranted env h i j tw) (hal : Aligned h.state tr) (hroll : tr.allows o) (ha : t.allows o)
    (hreply : repliesTo h.state o) : Discreet env h.log ⟨i, j, o, h.state⟩ := by
  rintro site c f rfl
  cases site with
  | reply =>
    obtain ⟨htype, hentries⟩ := hreply
    refine ⟨fun h => absurd h htype, fun entry hentry => ?_⟩
    obtain ⟨huser, m, hm, hshows⟩ := hentries entry hentry
    refine ⟨_, ⟨hw.attested.users c huser, hw.seated c huser⟩, m, hm, ?_⟩
    apply hshows.imp_right
    rintro ⟨hentry, r, hroom, hmember⟩
    refine ⟨hentry, r, hroom, ?_⟩
    unfold due.isMember at hmember
    split at hmember
    · rename_i hloaded
      have hagree : Agree (memExec env (.sendFrame .reply c f) h.state).2 r
          (h.state.conns c).userId :=
        hal.agree_op hroll (fun h => h) (by rwa [memExec_rooms])
      rw [Agree, memExec_rooms, memExec_members] at hagree
      exact hagree.mp hmember
    · exact hmember
  | loop caller u cs =>
    obtain ⟨hreach, m, hmay, rfl⟩ := ha
    refine ⟨fun _ => ⟨u, m, hc.reach u c hreach, rfl, (hc.may u m hmay).1⟩, ?_⟩
    rw [event_entries]
    simp

structure Private (env : Env) (h : Hist) : Prop where
  accounts : AccountsOk h.state
  warranted : ∀ i j, Warranted env h i j .none
  aligned : Aligned h.state .empty
  queues : Queues h
  discreet : Throughout (Discreet env) h.log

structure Guarding (env : Env) (i : Nat) (j : Input) (h : Hist)
    (t : ((Warrant × Roll) × Clearance) × World) : Prop where
  state : t.2 = h.state
  warranted : Warranted env h i j t.1.1.1
  aligned : Aligned h.state t.1.1.2
  cleared : Cleared env h t.1.2
  queues : Queues h
  discreet : Throughout (Discreet env) h.log

theorem Private.serve (hp : Private env h) (i : Nat) (j : Input) :
    Private env (h.serve (memExec env) (body env) i j) := by
  have hfollows := (((body_warrants env j .none).prod (body_rolls env j .empty rfl)).prod
    (body_cleared env j .none trivial)).prod (body_replying env hp.accounts j)
  have hrun := hfollows.run (fun o h => History.record (memExec env) i j o h) (Guarding env i j) ?_
    ⟨rfl, hp.warranted i j, hp.aligned, ⟨by simp [Clearance.none], by simp [Clearance.none],
      by simp [Clearance.none]⟩, hp.queues, hp.discreet⟩
  · obtain ⟨t, hI, hend⟩ := hrun
    have hsettled : t.1.1.2.Settled := by
      split at hend
      · exact hend.1.1.2
      · exact hend.1.1.2
    refine ⟨?_, hI.warranted.fresh, hI.aligned.fresh hsettled, hI.queues, hI.discreet⟩
    rw [History.serve_state]
    exact hp.accounts.step
  · rintro h ⟨⟨⟨tw, tr⟩, tc⟩, w⟩ o hg ⟨⟨⟨hwarrant, hroll⟩, hclear⟩, hreply⟩
    obtain rfl : w = h.state := hg.state
    refine ⟨(((tw.after env j o _, tr.after o _), tc.after o _), _),
      ⟨⟨⟨rfl, rfl⟩, rfl⟩, rfl, rfl⟩, ?_⟩
    exact ⟨rfl, hg.warranted.record hwarrant, hg.aligned.op hroll,
      hg.cleared.record hg.warranted hg.aligned hroll hg.queues, hg.queues.record hg.cleared hclear,
      hg.discreet.concat (discreet_step hg.cleared hg.warranted hg.aligned hroll hclear hreply)⟩

end Alone

theorem private_start (env : Env) : Private env Hist.start where
  accounts := accountsOk_init
  warranted i j := by
    refine ⟨Store.usersOk_empty, ?_, ?_, ?_, ?_, attested_init env, ?_, ?_⟩ <;>
      simp [Warrant.none, Hist.start, World.init, Conn.fresh, World.slot, Presence.slot]
  aligned := aligned_init
  queues := by
    refine ⟨⟨?_, ?_⟩, ?_⟩ <;> simp [Hist.start, World.init, Store.empty, Store.queue]
  discreet := throughout_nil _

theorem messages_confidential (env : Env) (inputs : List Input) :
    Throughout (Discreet env) (serveAll env inputs).log :=
  (History.serveAll_invariant (memExec env) (body env) (fun i _ j hp => hp.serve i j) 0
    (private_start env)
    inputs).discreet

end ChatServer
