import ChatServer.Server.Evidence
import ChatServer.Server.RoomCache
import ChatServer.Server.Tickets

namespace ChatServer

open Lib Lib.Prog

structure RoomRequest where
  conn : Nat
  id : Option Int
  name : String
  deriving DecidableEq

def Input.createsRoom (env : Env) : Input → Option RoomRequest
  | .request c payload =>
    match env.parse payload with
    | some req =>
      if getStr req "type" = types.kCreateRoom ∧ getStr req "name" ≠ "" ∧
        (getStr req "name").utf8ByteSize ≤ 128 then
        some ⟨c, requestId req, getStr req "name"⟩
      else none
    | none => none
  | .close _ => none

def RoomRequest.ack (q : RoomRequest) (r : Nat) : Json :=
  makeAck q.id (Fields.assign [] [("room_id", .uint r), ("name", .str q.name)])

inductive Entry : Type
  | asking : Entry
  | refused : Entry
  | acting : Nat → Entry
  | taken : Nat → Entry
  | found : Nat → Nat → Entry
  | joined : Nat → Nat → Entry
  | entered : Nat → Nat → Entry
  | answered : Nat → Nat → Entry

namespace Entry

def user : Entry → Option Nat
  | asking | refused => none
  | acting u | taken u | found u _ | joined u _ | entered u _ | answered u _ => some u

def room : Entry → Option Nat
  | asking | refused | acting _ | taken _ => none
  | found _ r | joined _ r | entered _ r | answered _ r => some r

def ofUser (u : Nat) : Entry := if u = 0 then .asking else .acting u

def answer : Entry → Entry
  | entered u r => answered u r
  | _ => refused

def allows (q : RoomRequest) (t : Entry) : Op → Prop
  | .userId _ | .setUserId _ _ => t = .asking
  | .sendFrame .reply d j => t = .asking ∨ ∃ u r, t = .entered u r ∧ d = q.conn ∧ j = q.ack r
  | .repo (.createRoom n) => n = q.name ∧ ∃ u, t = .acting u
  | .repo (.findRoomByName n) => n = q.name ∧ ∃ u, t = .taken u
  | .repo (.joinRoom r u) => t = .found u r
  | .onJoin r u => t = .joined u r
  | _ => True

def next (t : Entry) : (o : Op) → o.Ret → Entry → Prop
  | .userId _, u, t' => t' = ofUser u
  | .setUserId _ u, _, t' => t' = ofUser u
  | .sendFrame .reply _ _, _, t' => t' = t.answer
  | .repo (.createRoom _), some r, t' => ∃ u, t = .acting u ∧ t' = .found u r
  | .repo (.createRoom _), none, t' => ∃ u, t = .acting u ∧ t' = .taken u
  -- after a creation that was refused the room is there
  | .repo (.findRoomByName _), answer, t' =>
    ∃ u room, t = .taken u ∧ answer = .ok (some room) ∧ t' = .found u room.id
  | .repo (.joinRoom r u), _, t' => t' = .joined u r
  | .onJoin r u, _, t' => t' = .entered u r
  | _, _, t' => t' = t

def Done (t : Entry) : Prop := t = .asking ∨ t = .refused ∨ ∃ u r, t = .answered u r

theorem ofUser_known (u : Nat) : if u = 0 then (ofUser u).Done else ofUser u = .acting u := by
  unfold ofUser
  split
  · exact .inl rfl
  · rfl

end Entry

def entering (q : RoomRequest) : Contract Op.Ret Entry where
  allows := Entry.allows q
  next := Entry.next

def Input.enters (env : Env) (j : Input) : Contract Op.Ret Entry :=
  match j.createsRoom env with
  | some q => entering q
  | none => { allows := fun _ _ => True, next := fun t _ _ t' => t' = t }

section Programs

variable {q : RoomRequest}

theorem entering_neutral (q : RoomRequest) (t : Entry) :
    Neutral (entering q) (fun t' => t' = t) q.conn [.validate, .bind, .replay] := by
  rintro o ⟨hk, -⟩ t' rfl
  refine ⟨?_, fun r t'' h => ⟨?_, trivial⟩⟩
  · change Entry.allows q t' o
    unfold Entry.allows
    split <;> simp_all
  · change Entry.next t' o r t'' at h
    unfold Entry.next at h
    split at h <;> simp_all

theorem requireAuth_entering (req : Json) (id : Option Int) :
    (handlers.requireAuth q.conn req id).Follows (entering q) .asking
      (fun u t => if u = 0 then t.Done else t = .acting u) (fun _ => False) := by
  have hrefuse (message : String) :
    ((handlers.send q.conn (makeError id errcode.kUnauthorized message)).bind
      fun _ => Prog.ret 0).Follows (entering q) .asking (fun u t =>
        if u = 0 then t.Done else t = .acting u)
      (fun _ => False) := by
    refine ⟨.inl rfl, ?_⟩
    rintro r t rfl
    exact .inr (.inl rfl)
  refine ⟨rfl, ?_⟩
  rintro uid t rfl
  dsimp only [ret_bind]
  split
  · exact Entry.ofUser_known uid
  · rename_i huid
    rw [not_not] at huid
    subst huid
    split
    · exact hrefuse _
    · refine ⟨trivial, ?_⟩
      rintro info t rfl
      cases info with
      | none => exact hrefuse _
      | some info =>
        refine ⟨rfl, ?_⟩
        rintro r t rfl
        refine ⟨trivial, ?_⟩
        rintro r t rfl
        have hbind : Uses q.conn [.bind, .replay] (Presence.bind info.userId q.conn) := by simp
        dsimp only [ret_bind]
        apply (follows_bind ..).mpr
        apply (bind_noThrow info.userId q.conn).follows
        refine (hbind.keeps (entering_neutral q _) (by decide) _ rfl).mono ?_ fun _ h => h
        rintro b t rfl
        exact Entry.ofUser_known info.userId

theorem enterRoom_entering (r u : Nat) :
    (handlers.enterRoom q.conn q.id q.name r u).Follows (entering q) (.found u r)
    (fun _ t => t.Done)
      (fun _ => False) := by
  refine ⟨rfl, ?_⟩
  rintro joined t rfl
  refine ⟨rfl, ?_⟩
  rintro a t rfl
  refine ⟨.inr ⟨u, r, rfl, rfl, rfl⟩, ?_⟩
  rintro a t rfl
  exact .inr (.inr ⟨u, r, rfl⟩)

theorem handleCreateRoom_entering {req : Json} (hname : getStr req "name" = q.name)
    (hne : q.name ≠ "") (hlen : q.name.utf8ByteSize ≤ 128) :
    (handlers.handleCreateRoom q.conn req q.id).Follows (entering q) .asking (fun _ t => t.Done)
      (fun _ => False) := by
  apply (follows_bind ..).mpr
  refine (requireAuth_entering req q.id).mono ?_ fun _ h => h
  intro uid t ht
  split
  · rename_i huid
    rwa [if_pos huid] at ht
  · rename_i huid
    rw [if_neg huid] at ht
    subst ht
    dsimp only
    rw [hname, if_neg (by simp [hne, hlen])]
    refine ⟨⟨rfl, uid, rfl⟩, ?_⟩
    intro rid t ht
    cases rid with
    | some rid =>
      obtain ⟨u, hu, rfl⟩ := ht
      cases hu
      exact enterRoom_entering rid uid
    | none =>
      obtain ⟨u, hu, rfl⟩ := ht
      cases hu
      refine ⟨⟨rfl, uid, rfl⟩, ?_⟩
      rintro answer t ⟨u, room, hu, rfl, rfl⟩
      cases hu
      exact enterRoom_entering room.id uid

theorem createsRoom_request {env : Env} {input : Input} (h : input.createsRoom env = some q) :
    ∃ payload req, input = .request q.conn payload ∧ env.parse payload = some req ∧
      getStr req "type" = types.kCreateRoom ∧ requestId req = q.id ∧ getStr req "name" = q.name ∧
      q.name ≠ "" ∧
      q.name.utf8ByteSize ≤ 128 := by
  unfold Input.createsRoom at h
  split at h
  · rename_i c payload
    split at h
    · rename_i req hreq
      split at h
      · rename_i hvalid
        cases h
        exact ⟨payload, req, rfl, hreq, hvalid.1, rfl, rfl, hvalid.2⟩
      · cases h
    · cases h
  · cases h

theorem body_enters (env : Env) (input : Input) :
    (body env input).Follows (input.enters env) .asking (fun _ t => t.Done) Entry.Done := by
  unfold Input.enters
  cases hq : input.createsRoom env with
  | none =>
    refine keeps_of_answers (fun o t ht => ⟨trivial, ?_⟩) _ _ (.inl rfl)
    rintro r t' rfl
    exact ⟨ht, trivial⟩
  | some q =>
    obtain ⟨payload, req, rfl, hreq, htype, hid, hname, hne, hlen⟩ := createsRoom_request hq
    have hl : (handlers.table env).lookup types.kCreateRoom = some handlers.handleCreateRoom := rfl
    have htype' : types.kCreateRoom ≠ "" := by decide
    simp only [body, handlers.dispatch, hreq, htype, hl, htype', if_false, hid]
    apply (follows_tryCatch ..).mpr
    exact (handleCreateRoom_entering hname hne hlen).mono (fun _ _ h => h) fun _ h => h.elim

end Programs

def Op.leaves (r u : Nat) : Op → Prop
  | .repo (.leaveRoom r' u') => r' = r ∧ u' = u
  | .onLeave r' u' => r' = r ∧ u' = u
  | _ => False

def JoinedBefore (log : Log) (i r u : Nat) (mid : Log) : Prop :=
  ∃ pre e, log = pre ++ e :: mid ∧ e.task = i ∧ e.op = .repo (.joinRoom r u)

def LeftSince (log : Log) (i r u : Nat) : Prop :=
  ∃ mid, JoinedBefore log i r u mid ∧ ∃ e ∈ mid, e.op.leaves r u

/-- Every reply of task `i` is the ack for room `r`, at a time when `u` is a member in the
store and in the cache, if nobody has left for `u` meanwhile. -/
def AckedOnly (log : Log) (i : Nat) (q : RoomRequest) (u r : Nat) : Prop :=
  Throughout (fun pre e => e.task = i → ∀ d j, e.op = .sendFrame .reply d j →
    d = q.conn ∧ j = q.ack r ∧
    (¬LeftSince pre i r u → u ∈ e.before.store.members r ∧ u ∈ e.before.rooms.members r)) log

structure Progress (h : Hist) (i : Nat) (q : RoomRequest) (t : Entry) : Prop where
  user : ∀ u, u ≠ 0 → ActsAs h.log i q.conn u → t.user = some u
  taken : ∀ u, t = .taken u → (h.state.store.roomNameIdx.lookup q.name).isSome = true
  room : ∀ r, t.room = some r → h.state.store.roomNameIdx.lookup q.name = some r
  joined : ∀ u r, t = .joined u r ∨ t = .entered u r → (∃ mid, JoinedBefore h.log i r u mid) ∧
    (¬LeftSince h.log i r u → u ∈ h.state.store.members r)
  entered : ∀ u r, t = .entered u r → ¬LeftSince h.log i r u → u ∈ h.state.rooms.members r
  silent : t ≠ .refused → (∀ u r, t ≠ .answered u r) → ∀ e ∈ h.log, e.task = i →
    ∀ d j, e.op ≠ .sendFrame .reply d j
  answered : ∀ u r, t = .answered u r → AckedOnly h.log i q u r ∧
    ∃ e ∈ h.log, e.task = i ∧ e.op = .sendFrame .reply q.conn (q.ack r)

section Frames

variable {env : Env} {o : Op} {w : World} {r u : Nat}

theorem Store.createRoom_named (s : Store) (n : String) (now : Int) :
    (s.createRoom n now).1 = none ∧ (s.roomNameIdx.lookup n).isSome = true ∧
      (s.createRoom n now).2 = s ∨
      ∃ rid, (s.createRoom n now).1 = some rid ∧ s.roomNameIdx.lookup n = none ∧
        (s.createRoom n now).2.roomNameIdx = s.roomNameIdx.insert n rid := by
  unfold createRoom
  split
  · rename_i hn
    exact .inl ⟨rfl, by simp [hn], rfl⟩
  · rename_i hn
    exact .inr ⟨_, rfl, hn, rfl⟩

theorem roomNameIdx_kept {n : String} (h : w.store.roomNameIdx.lookup n = some r) :
    (memExec env o w).2.store.roomNameIdx.lookup n = some r := by
  by_cases ho : ∃ n', o = .repo (.createRoom n')
  · obtain ⟨n', rfl⟩ := ho
    change (w.store.createRoom n' _).2.roomNameIdx.lookup n = some r
    rcases w.store.createRoom_named n' (env.clock w.ticks) with ⟨-, -, hsame⟩ | ⟨rid,
      -, hnone, hidx⟩
    · rw [hsame, h]
    · have hne : n ≠ n' := by
        rintro rfl
        rw [h] at hnone
        cases hnone
      rw [hidx, AList.lookup_insert_ne hne, h]
  · rw [(memExec_storeRooms (by simpa using ho)).2, h]

theorem members_kept (hu : u ∈ w.store.members r) (ho : ¬o.leaves r u) :
    u ∈ (memExec env o w).2.store.members r := by
  rw [memExec_members]
  cases o with
  | repo o =>
    cases o with
    | joinRoom r' u' =>
      simp only [Op.onMembers]
      split
      · exact Finset.mem_insert_of_mem hu
      · exact hu
    | leaveRoom r' u' =>
      have hne : r' = r → u' ≠ u := fun h h' => ho ⟨h, h'⟩
      simp only [Op.onMembers]
      grind
    | _ => exact hu
  | _ => exact hu

theorem RoomManager.mem_ensure {rm : RoomManager} {ms : Nat → Finset Nat} (hu : u ∈ rm.members r)
    (hms : u ∈ ms r) (r' : Nat) : u ∈ (rm.ensure r' (ms r')).members r := by
  unfold ensure
  split
  · exact hu
  · by_cases hr : r' = r
    · subst hr
      simpa [load, members] using hms
    · simpa [load, members, AList.lookup_insert_ne (Ne.symm hr)] using hu

theorem cached_kept (hu : u ∈ w.rooms.members r) (hs : u ∈ w.store.members r) (ho : ¬o.leaves r u) :
    u ∈ (memExec env o w).2.rooms.members r := by
  rw [memExec_rooms]
  cases o with
  | isMember r' u' => exact RoomManager.mem_ensure hu hs r'
  | membersOf r' => exact RoomManager.mem_ensure hu hs r'
  | onJoin r' u' =>
    have hkept := RoomManager.mem_ensure hu hs r'
    rw [Op.onRooms, RoomManager.members_join]
    split
    · exact Finset.mem_insert_of_mem hkept
    · exact hkept
  | onLeave r' u' =>
    have hne : r' = r → u' ≠ u := fun h h' => ho ⟨h, h'⟩
    rw [Op.onRooms, RoomManager.members_onLeave]
    grind
  | _ => exact hu

end Frames

section Steps

variable {env : Env} {h : Hist} {i r u : Nat} {q : RoomRequest} {t : Entry} {log : Log}
    {e : Event Input Op World}

theorem JoinedBefore.concat {mid : Log} (hjoin : JoinedBefore log i r u mid)
    (e : Event Input Op World) : JoinedBefore (log ++ [e]) i r u (mid ++ [e]) := by
  obtain ⟨pre, e₀, rfl, he₀⟩ := hjoin
  exact ⟨pre, e₀, by simp, he₀⟩

theorem LeftSince.mono (hleft : LeftSince log i r u) (e : Event Input Op World) :
    LeftSince (log ++ [e]) i r u := by
  obtain ⟨mid, hjoin, e', he', hleaves⟩ := hleft
  exact ⟨mid ++ [e], hjoin.concat e, e', List.mem_append_left _ he', hleaves⟩

theorem stayed_concat (hjoin : ∃ mid, JoinedBefore log i r u mid)
    (hstay : ¬LeftSince (log ++ [e]) i r u) : ¬LeftSince log i r u ∧ ¬e.op.leaves r u := by
  refine ⟨fun hleft => hstay (hleft.mono e), fun hleaves => hstay ?_⟩
  obtain ⟨mid, hmid⟩ := hjoin
  exact ⟨mid ++ [e], hmid.concat e, e, List.mem_append_right _ (List.mem_singleton.mpr rfl),
    hleaves⟩

theorem ActsAs.of_concat {c : Nat} (hacts : ActsAs (log ++ [e]) i c u)
    (he : e.task = i → (∀ c, e.op ≠ .userId c) ∧ ∀ c u, e.op ≠ .setUserId c u) :
    ActsAs log i c u := by
  obtain ⟨e', hmem, htask, hop⟩ := hacts
  rcases List.mem_append.mp hmem with hmem | hmem
  · exact ⟨e', hmem, htask, hop⟩
  · obtain rfl := List.mem_singleton.mp hmem
    rcases hop with ⟨hop, -⟩ | hop
    · exact absurd hop ((he htask).1 c)
    · exact absurd hop ((he htask).2 c u)

namespace Progress

theorem keep (hp : Progress h i q t) (n : Nat) (j : Input) (o : Op)
    (hacts : n = i → (∀ c, o ≠ .userId c) ∧ ∀ c u, o ≠ .setUserId c u)
    (hreply : n = i → ∀ d j, o ≠ .sendFrame .reply d j) :
    Progress (h.record (memExec env) n j o).2 i q t where
  user u hu h := hp.user u hu (h.of_concat hacts)
  taken u ht := by
    obtain ⟨r, hr⟩ := Option.isSome_iff_exists.mp (hp.taken u ht)
    exact Option.isSome_iff_exists.mpr ⟨r, roomNameIdx_kept hr⟩
  room r hr := roomNameIdx_kept (hp.room r hr)
  joined u r ht := by
    obtain ⟨hjoin, hmem⟩ := hp.joined u r ht
    constructor
    · obtain ⟨mid, hmid⟩ := hjoin
      exact ⟨_, hmid.concat _⟩
    · intro hstay
      obtain ⟨hstay, hleaves⟩ := stayed_concat hjoin hstay
      exact members_kept (hmem hstay) hleaves
  entered u r ht hstay := by
    obtain ⟨hjoin, hmem⟩ := hp.joined u r (.inr ht)
    obtain ⟨hstay, hleaves⟩ := stayed_concat hjoin hstay
    exact cached_kept (hp.entered u r ht hstay) (hmem hstay) hleaves
  silent hopen hopen' e he htask := by
    rcases List.mem_append.mp he with he | he
    · exact hp.silent hopen hopen' e he htask
    · obtain rfl := List.mem_singleton.mp he
      exact hreply htask
  answered u r ht := by
    obtain ⟨honly, e, he, hack⟩ := hp.answered u r ht
    refine ⟨honly.concat fun htask d j hop => absurd hop (hreply htask d j), e,
      List.mem_append_left _ he, hack⟩

theorem outside (hroom : t.room = none) (htaken : ∀ u, t ≠ .taken u)
    (huser : ∀ u, u ≠ 0 → ActsAs h.log i q.conn u → t.user = some u)
    (hsilent : t ≠ .refused → ∀ e ∈ h.log, e.task = i → ∀ d j, e.op ≠ .sendFrame .reply d j) :
    Progress h i q t where
  user := huser
  taken u ht := absurd ht (htaken u)
  room r hr := by
    rw [hroom] at hr
    cases hr
  joined u r ht := by rcases ht with rfl | rfl <;> cases hroom
  entered u r ht := by
    subst ht
    cases hroom
  silent hopen _ := hsilent hopen
  answered u r ht := by
    subst ht
    cases hroom

theorem ask (hp : Progress h i q .asking) (j : Input) {o : Op} {u : Nat}
    (ho : (∃ c, o = .userId c ∧ (h.state.conns c).userId = u) ∨ ∃ c, o = .setUserId c u) :
    Progress (h.record (memExec env) i j o).2 i q (.ofUser u) := by
  have huser (v : Nat) (hv : v ≠ 0) (h : ActsAs (h.record (memExec env) i j o).2.log i q.conn v) :
      u = v := by
    obtain ⟨e, he, htask, hop⟩ := h
    rcases List.mem_append.mp he with he | he
    · cases hp.user v hv ⟨e, he, htask, hop⟩
    · obtain rfl := List.mem_singleton.mp he
      rcases ho with ⟨c, rfl, rfl⟩ | ⟨c, rfl⟩ <;> rcases hop with ⟨hop, hval⟩ | hop <;> cases hop
      · exact hval
      · rfl
  apply outside
  · unfold Entry.ofUser
    split <;> rfl
  · unfold Entry.ofUser
    split <;> simp
  · intro v hv hacts
    rw [huser v hv hacts, Entry.ofUser, if_neg hv, Entry.user]
  · intro _ e he htask
    rcases List.mem_append.mp he with he | he
    · exact hp.silent (by simp) (by simp) e he htask
    · obtain rfl := List.mem_singleton.mp he
      rcases ho with ⟨c, rfl, -⟩ | ⟨c, rfl⟩ <;> simp

theorem refuse (hp : Progress h i q .asking) (j : Input) (d : Nat) (json : Json) :
    Progress (h.record (memExec env) i j (.sendFrame .reply d json)).2 i q .refused := by
  refine outside rfl (by simp) ?_ fun hopen => absurd rfl hopen
  intro u hu hacts
  cases hp.user u hu (hacts.of_concat fun _ => ⟨by simp, by simp⟩)

theorem ack (hp : Progress h i q (.entered u r)) (j : Input) :
    Progress (h.record (memExec env) i j (.sendFrame .reply q.conn (q.ack r))).2 i q
      (.answered u r) where
  user v hv h := hp.user v hv (h.of_concat fun _ => ⟨by simp, by simp⟩)
  taken _ ht := nomatch ht
  room r' hr := roomNameIdx_kept (hp.room r' hr)
  joined _ _ ht := by simp at ht
  entered _ _ ht := nomatch ht
  silent _ hopen := absurd rfl (hopen u r)
  answered u' r' ht := by
    cases ht
    have hsilent : AckedOnly h.log i q u r := by
      intro pre e post hlog htask d j hop
      refine absurd hop (hp.silent (by simp) (by simp) e ?_ htask d j)
      simp [hlog]
    refine ⟨hsilent.concat ?_, _, List.mem_append_right _ (List.mem_singleton.mpr rfl), rfl, rfl⟩
    intro _ d j hop
    cases hop
    exact ⟨rfl, rfl, fun hstay => ⟨(hp.joined u r (.inr rfl)).2 hstay, hp.entered u r rfl hstay⟩⟩

theorem goOn (hp : Progress h i q t) (hopen : t ≠ .refused ∧ ∀ u r, t ≠ .answered u r) {t' : Entry}
    (huser : t'.user = t.user) (hopen' : ∀ u r, t' ≠ .answered u r)
    (htaken : ∀ u, t' = .taken u → (h.state.store.roomNameIdx.lookup q.name).isSome = true)
    (hroom : ∀ r, t'.room = some r → h.state.store.roomNameIdx.lookup q.name = some r)
    (hjoined : ∀ u r, t' = .joined u r ∨ t' = .entered u r → (∃ mid, JoinedBefore h.log i r u mid) ∧
      (¬LeftSince h.log i r u → u ∈ h.state.store.members r))
    (hentered : ∀ u r, t' = .entered u r → ¬LeftSince h.log i r u → u ∈ h.state.rooms.members r) :
    Progress h i q t' where
  user u hu hacts := huser.trans (hp.user u hu hacts)
  taken := htaken
  room := hroom
  joined := hjoined
  entered := hentered
  silent _ _ := hp.silent hopen.1 hopen.2
  answered u r ht := absurd ht (hopen' u r)

theorem create (hp : Progress h i q (.acting u)) (j : Input) :
    ∃ t, Entry.next (.acting u) (.repo (.createRoom q.name))
    (memExec env (.repo (.createRoom q.name)) h.state).1 t ∧
      Progress (h.record (memExec env) i j (.repo (.createRoom q.name))).2 i q t := by
  have hk : Progress (h.record (memExec env) i j (.repo (.createRoom q.name))).2 i q (.acting u) :=
    hp.keep i j _ (by simp) (by simp)
  rcases h.state.store.createRoom_named q.name (env.clock h.state.ticks) with
    ⟨hnone, hsome, hsame⟩ | ⟨rid, hrid, -, hidx⟩
  · refine ⟨.taken u, ?_, ?_⟩
    · rw [show (memExec env (.repo (.createRoom q.name)) h.state).1 = none from hnone]
      exact ⟨u, rfl, rfl⟩
    · refine hk.goOn (by simp) rfl (by simp) (fun v _ => ?_) nofun (by simp) nofun
      rw [History.record_state, show (memExec env (.repo (.createRoom q.name)) h.state).2.store =
        _ from hsame]
      exact hsome
  · refine ⟨.found u rid, ?_, ?_⟩
    · rw [show (memExec env (.repo (.createRoom q.name)) h.state).1 = some rid from hrid]
      exact ⟨u, rfl, rfl⟩
    · refine hk.goOn (by simp) rfl (by simp) nofun (fun r hr => ?_) (by simp) nofun
      cases hr
      rw [History.record_state,
        show (memExec env (.repo (.createRoom q.name)) h.state).2.store.roomNameIdx = _ from hidx]
      exact AList.lookup_insert _

theorem find (hp : Progress h i q (.taken u)) (hs : h.state.store.Sound) (j : Input) :
    ∃ t, Entry.next (.taken u) (.repo (.findRoomByName q.name))
        (memExec env (.repo (.findRoomByName q.name)) h.state).1 t ∧
      Progress (h.record (memExec env) i j (.repo (.findRoomByName q.name))).2 i q t := by
  have hk : Progress (h.record (memExec env) i j (.repo (.findRoomByName q.name))).2 i
      q (.taken u) :=
    hp.keep i j _ (by simp) (by simp)
  obtain ⟨r, hr⟩ := Option.isSome_iff_exists.mp (hp.taken u rfl)
  obtain ⟨room, hrow, -⟩ := hs.rooms.named q.name r hr
  have hid : room.id = r := (hs.rooms.row r room hrow).1
  have hfind : h.state.store.findRoomByName q.name = .ok (some room) := by
    simp [Store.findRoomByName, hr, hrow]
  refine ⟨.found u room.id, ⟨u, room, rfl, hfind, rfl⟩, ?_⟩
  refine hk.goOn (by simp) rfl (by simp) nofun (fun r' hr' => ?_) (by simp) nofun
  cases hr'
  rw [hid]
  exact hr

theorem join (hp : Progress h i q (.found u r)) (hs : h.state.store.Sound) (j : Input) :
    Progress (h.record (memExec env) i j (.repo (.joinRoom r u))).2 i q (.joined u r) := by
  have hk : Progress (h.record (memExec env) i j (.repo (.joinRoom r u))).2 i q (.found u r) :=
    hp.keep i j _ (by simp) (by simp)
  refine hk.goOn (by simp) rfl (by simp) nofun hk.room ?_ nofun
  intro u' r' ht
  rcases ht with ht | ht <;> cases ht
  refine ⟨⟨[], h.log, _, rfl, rfl, rfl⟩, fun _ => ?_⟩
  obtain ⟨room, hrow, -⟩ := hs.rooms.named q.name r (hp.room r rfl)
  rw [History.record_state, memExec_members, Op.onMembers, if_pos ⟨rfl, by simp [hrow]⟩]
  exact Finset.mem_insert_self ..

theorem enter (hp : Progress h i q (.joined u r)) (j : Input) :
    Progress (h.record (memExec env) i j (.onJoin r u)).2 i q (.entered u r) := by
  have hk : Progress (h.record (memExec env) i j (.onJoin r u)).2 i q (.joined u r) :=
    hp.keep i j _ (by simp) (by simp)
  refine hk.goOn (by simp) rfl (by simp) nofun hk.room ?_ ?_
  · intro u' r' ht
    rcases ht with ht | ht <;> cases ht
    exact hk.joined u r (.inl rfl)
  · intro u' r' ht _
    cases ht
    rw [History.record_state, memExec_rooms, Op.onRooms, RoomManager.members_join, if_pos rfl]
    exact Finset.mem_insert_self ..

theorem own (hp : Progress h i q t) (hs : h.state.store.Sound) (j : Input) {o : Op}
    (ha : Entry.allows q t o) :
    ∃ t', Entry.next t o (memExec env o h.state).1 t' ∧
    Progress (h.record (memExec env) i j o).2 i q t' := by
  unfold Entry.allows at ha
  split at ha
  · subst ha
    exact ⟨_, rfl, hp.ask j (.inl ⟨_, rfl, rfl⟩)⟩
  · subst ha
    exact ⟨_, rfl, hp.ask j (.inr ⟨_, rfl⟩)⟩
  · rcases ha with rfl | ⟨u, r, rfl, rfl, rfl⟩
    · exact ⟨_, rfl, hp.refuse j _ _⟩
    · exact ⟨_, rfl, hp.ack j⟩
  · obtain ⟨rfl, u, rfl⟩ := ha
    exact hp.create j
  · obtain ⟨rfl, u, rfl⟩ := ha
    exact hp.find hs j
  · subst ha
    exact ⟨_, rfl, hp.join hs j⟩
  · subst ha
    exact ⟨_, rfl, hp.enter j⟩
  · rename_i huser hset hreply _ _ _ _
    refine ⟨t, ?_, hp.keep i j o (fun _ => ⟨huser, hset⟩) fun _ => hreply⟩
    unfold Entry.next
    split <;> simp_all

end Progress

end Steps

structure Racing (env : Env) (g : Sys) (ts : Nat → Entry) : Prop where
  sound : g.hist.state.store.Sound
  fresh : ∀ i, g.tasks i = .fresh → ∀ e ∈ g.hist.log, e.task ≠ i
  progress : ∀ i j x, g.tasks i = .busy j x → ∀ q, j.createsRoom env = some q →
    Progress g.hist i q (ts i)

section Runs

variable {env : Env} {g : Sys} {ts : Nat → Entry} {i : Nat} {j : Input}

theorem racing_start (env : Env) : Racing env Sys.start fun _ => .asking where
  sound := Store.sound_empty
  fresh _ _ := by simp [Sys.start, Config.idle]
  progress _ _ _ h := nomatch h

theorem Racing.start (hg : Racing env g ts) (hi : g.tasks i = .fresh) :
    Racing env { g with tasks := Function.update g.tasks i (.busy j (body env j)) }
    (Function.update ts i .asking) where
  sound := hg.sound
  fresh n hn := by
    have hne : n ≠ i := by
      rintro rfl
      simp at hn
    exact hg.fresh n (by simpa [Function.update_of_ne hne] using hn)
  progress := by
    refine Config.forall_busy_update
      (Q := fun n (j : Input) (t : Entry) => ∀ q, j.createsRoom env = some q →
        Progress g.hist n q t)
      (fun q _ => ?_) fun n j' x _ hn => hg.progress n j' x hn
    refine .outside rfl (by simp) ?_ fun _ e he htask => absurd htask (hg.fresh i hi e he)
    rintro u - ⟨e, he, htask, -⟩
    exact absurd htask (hg.fresh i hi e he)

theorem Racing.perform {o : Op} {k : o.Ret → ServerM Unit} (hg : Racing env g ts)
    (hi : g.tasks i = .busy j (.op o k)) (ha : (j.enters env).allows (ts i) o) :
    ∃ t', (j.enters env).next (ts i) o (memExec env o g.hist.state).1 t' ∧
      Racing env (g.perform (memExec env) i j o k) (Function.update ts i t') := by
  obtain ⟨t', hnext, hown⟩ : ∃ t', (j.enters env).next (ts i) o (memExec env o g.hist.state).1 t' ∧
      ∀ q, j.createsRoom env = some q → Progress (g.perform (memExec env) i j o k).hist i q t' := by
    unfold Input.enters at ha ⊢
    cases hq : j.createsRoom env with
    | none => exact ⟨ts i, rfl, nofun⟩
    | some q =>
      rw [hq] at ha
      obtain ⟨t', hnext, hprogress⟩ := (hg.progress i j _ hi q hq).own hg.sound j ha
      refine ⟨t', hnext, ?_⟩
      rintro q' ⟨⟩
      exact hprogress
  refine ⟨t', hnext, memExec_sound env o hg.sound, ?_, ?_⟩
  · intro n hn e he
    have hne : n ≠ i := by
      rintro rfl
      simp [Config.perform] at hn
    rw [Config.tasks_perform_ne g hne] at hn
    rcases List.mem_append.mp he with he | he
    · exact hg.fresh n hn e he
    · rw [List.mem_singleton.mp he]
      exact hne.symm
  · refine Config.forall_busy_update
      (Q := fun n (j' : Input) (t : Entry) => ∀ q, j'.createsRoom env = some q →
        Progress (g.perform (memExec env) i j o k).hist n q t)
      hown fun n j' x hne hn q hq => ?_
    exact (hg.progress n j' x hn q hq).keep i j o (fun h => absurd h.symm hne) fun h =>
      absurd h.symm hne

theorem racing_reachable (hg : Reachable env (fun _ _ => True) g) :
    ∃ ts, Config.Tracked (Input.enters env) Entry.Done g ts ∧ Racing env g ts := by
  refine Config.Reach.invariant (Racing env) (fun _ => .asking) (fun _ => .asking) (fun _ => ?_)
    (racing_start env)
    (body_enters env) (fun _ _ _ _ _ hI _ hi => hI.start hi)
      (fun _ _ _ _ _ _ _ hI _ hi ha => hI.perform hi ha) hg
  exact Or.inl rfl

/-- In any interleaving a name has one room at most, every authenticated request to create
it is acked with that room and with nothing else, and its user is a member then, in the
store and in the cache, unless somebody leaves for the user meanwhile.  Every task can
come to its end. -/
theorem create_room_idempotent (hg : Reachable env (fun _ _ => True) g) (name : String) :
    (∀ r r' room room', g.hist.state.store.rooms.lookup r = some room →
        g.hist.state.store.rooms.lookup r' = some room' → room.name = name →
        room'.name = name → r = r') ∧
      (∃ r, ∀ i j x q u, g.tasks i = .busy j x → j.createsRoom env = some q →
        q.name = name → u ≠ 0 →
        ActsAs g.hist.log i q.conn u → AckedOnly g.hist.log i q u r ∧
          (x.finished = true → (∃ e ∈ g.hist.log, e.task = i ∧
            e.op = .sendFrame .reply q.conn (q.ack r)) ∧
            ∃ room, g.hist.state.store.rooms.lookup r = some room ∧ room.name = name)) ∧
      ∀ i, ∃ g', Config.Reach (memExec env) (body env) (fun _ m => m = .advance i) g g' ∧
        (g'.tasks i).finished = true := by
  obtain ⟨ts, ht, hI⟩ := racing_reachable hg
  refine ⟨?_, ⟨(g.hist.state.store.roomNameIdx.lookup name).getD 0, ?_⟩, Config.Reach.to_end g⟩
  · intro r r' room room' hr hr' hname hname'
    have hidx := hI.sound.rooms.indexed r room hr
    have hidx' := hI.sound.rooms.indexed r' room' hr'
    rw [hname] at hidx
    rw [hname', hidx] at hidx'
    exact Option.some.inj hidx'
  · rintro i j x q u hi hq rfl hu hacts
    have hp := hI.progress i j x hi q hq
    have huser := hp.user u hu hacts
    by_cases hanswered : ∃ u' r, ts i = .answered u' r
    · obtain ⟨u', r, hti⟩ := hanswered
      rw [hti] at hp huser
      obtain rfl : u' = u := Option.some.inj huser
      obtain ⟨honly, hack⟩ := hp.answered u' r rfl
      rw [hp.room r rfl]
      exact ⟨honly, fun _ => ⟨hack, hI.sound.rooms.named q.name r (hp.room r rfl)⟩⟩
    · have hopen : ts i ≠ .refused := by
        intro hti
        rw [hti] at huser
        cases huser
      constructor
      · intro pre e post hlog htask d j hop
        refine absurd hop (hp.silent hopen (by simpa using hanswered) e ?_ htask d j)
        simp [hlog]
      · intro hx
        have hdone : (ts i).Done := ht.done (by rw [hi]; exact hx)
        rcases hdone with hti | hti | hti
        · rw [hti] at huser
          cases huser
        · exact absurd hti hopen
        · exact absurd hti hanswered

def clubRace : List (Move Input) :=
  begin 0 (ask 1 (registerReq "alice" "wonder")) 3 ++
  begin 1 (ask 1 (loginReq "alice" "wonder")) 10 ++
  begin 2 (ask 2 (loginReq "alice" "wonder")) 9 ++
  begin 3 (ask 1 (createRoomReq "club")) 2 ++ begin 4 (ask 2 (createRoomReq "club")) 6 ++
  List.replicate 3 (.advance 3)

def askedUser (log : Log) (i c u : Nat) : Bool :=
  log.any fun e => match e.op with
    | .userId c' => e.task = i ∧ c' = c ∧ (e.before.conns c).userId = u
    | _ => false

theorem actsAs_of_askedUser {log : Log} {i c u : Nat} (h : askedUser log i c u = true) :
    ActsAs log i c u := by
  obtain ⟨e, he, hop⟩ := List.any_eq_true.mp h
  split at hop
  · rename_i hc
    obtain ⟨htask, rfl, hu⟩ := of_decide_eq_true hop
    exact ⟨e, he, htask, .inl ⟨hc, hu⟩⟩
  · cases hop

theorem create_room_idempotent_clubRace :
    ∃ g, Reachable clubEnv (fun _ _ => True) g ∧
      ∃ r room, g.hist.state.store.rooms.lookup r = some room ∧
      room.name = "club" ∧
      (∃ e ∈ g.hist.log, e.task = 3 ∧
        e.op = .sendFrame .reply 1 (RoomRequest.ack ⟨1, none, "club"⟩ r)) ∧
      ∃ e ∈ g.hist.log, e.task = 4 ∧
      e.op = .sendFrame .reply 2 (RoomRequest.ack ⟨2, none, "club"⟩ r) := by
  have hrun : (Sys.start.steps (memExec clubEnv) (body clubEnv) (fun _ _ => true) clubRace).map
      (fun g : Sys => (g.handled 3 (ask 1 (createRoomReq "club")),
        g.handled 4 (ask 2 (createRoomReq "club")), askedUser g.hist.log 3 1 1,
          askedUser g.hist.log 4 2 1)) = some (true, true, true, true) := by
    decide +kernel
  have hask (c : Nat) (hc : c = 1 ∨ c = 2) :
      (ask c (createRoomReq "club")).createsRoom clubEnv = some ⟨c, none, "club"⟩ := by
    rcases hc with rfl | rfl <;> decide +kernel
  obtain ⟨g, hreach, heq⟩ := Config.Reach.of_steps (fun _ _ _ => trivial) hrun
  simp only [Prod.mk.injEq] at heq
  obtain ⟨hfirst, hsecond, hacts, hacts'⟩ := heq
  obtain ⟨x, hx, hfin⟩ := Sys.busy_of_handled hfirst
  obtain ⟨x', hx', hfin'⟩ := Sys.busy_of_handled hsecond
  obtain ⟨-, ⟨r, hr⟩, -⟩ := create_room_idempotent hreach "club"
  have hmine := hr 3 _ x _ 1 hx (hask 1 (.inl rfl)) rfl Nat.one_ne_zero (actsAs_of_askedUser hacts)
  have hother := hr 4 _ x' _ 1 hx' (hask 2 (.inr rfl)) rfl Nat.one_ne_zero
    (actsAs_of_askedUser hacts')
  obtain ⟨hack, room, hroom⟩ := hmine.2 hfin
  exact ⟨g, hreach, r, room, hroom.1, hroom.2, hack, (hother.2 hfin').1⟩

end Runs

end ChatServer
