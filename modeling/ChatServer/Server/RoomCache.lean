import ChatServer.Server.System

namespace ChatServer

open Lib Lib.Prog

def RoomManager.ensure (rm : RoomManager) (r : Nat) (ms : Finset Nat) : RoomManager :=
  if r ∈ rm.loaded then rm else rm.load r ms

def Op.onRooms (members : Nat → Finset Nat) : Op → RoomManager → RoomManager
  | .isMember r _, rm => rm.ensure r (members r)
  | .membersOf r, rm => rm.ensure r (members r)
  | .onJoin r u, rm => (rm.ensure r (members r)).join r u
  | .onLeave r u, rm => rm.onLeave r u
  | _, rm => rm

def Op.onMembers (s : Store) (r : Nat) : Op → Finset Nat → Finset Nat
  | .repo (.joinRoom r' u), ms => if r' = r ∧ (s.rooms.lookup r').isSome then insert u ms else ms
  | .repo (.leaveRoom r' u), ms => if r' = r then ms.erase u else ms
  | _, ms => ms

theorem memExec_rooms (env : Env) (o : Op) (w : World) :
    (memExec env o w).2.rooms = o.onRooms w.store.members w.rooms := by
  cases o <;>
    simp only [exec, Op.onRooms, RoomManager.ensure, World.setConn, memory_rooms,
      ensureLoaded_memory]

namespace Store

theorem members_joinRoom (s : Store) (r r' u : Nat) :
    (s.joinRoom r' u).2.members r =
      if r' = r ∧ (s.rooms.lookup r').isSome then insert u (s.members r) else s.members r := by
  unfold joinRoom
  cases hl : s.rooms.lookup r' with
  | none => simp
  | some room =>
    by_cases hr : r' = r
    · subst hr
      simp [members]
    · simp [members, hr, AList.lookup_insert_ne (Ne.symm hr)]

theorem members_leaveRoom (s : Store) (r r' u : Nat) :
    (s.leaveRoom r' u).2.members r = if r' = r then (s.members r).erase u else s.members r := by
  unfold leaveRoom
  by_cases hr : r' = r
  · subst hr
    cases hl : s.roomMembers.lookup r' <;> simp [members, hl]
  · cases hl : s.roomMembers.lookup r' with
    | none => simp [hr]
    | some ms => simp [members, hr, AList.lookup_insert_ne (Ne.symm hr)]

theorem joinRoom_fst (s : Store) (r u : Nat) : (s.joinRoom r u).1 = (s.rooms.lookup r).isSome := by
  unfold joinRoom
  cases s.rooms.lookup r <;> rfl

end Store

theorem memExec_members (env : Env) (o : Op) (w : World) (r : Nat) :
    (memExec env o w).2.store.members r = o.onMembers w.store r (w.store.members r) := by
  cases o with
  | repo o =>
    rw [memExec_repo]
    cases o with
    | joinRoom r' u => exact Store.members_joinRoom ..
    | leaveRoom r' u => exact Store.members_leaveRoom ..
    | createUser n h =>
      simp only [memory, Op.onMembers, Store.createUser]
      split <;> rfl
    | updateLastSeen u ts =>
      simp only [memory, World.setStore, Op.onMembers, Store.updateLastSeen]
      split <;> rfl
    | createRoom n =>
      simp only [memory, Op.onMembers, Store.createRoom]
      split <;> rfl
    | drainUndelivered u =>
      simp only [memory, World.setStore, Op.onMembers, Store.drainUndelivered]
      split <;> rfl
    | _ => rfl
  | _ =>
    rw [memExec_store env _ _ (by simp)]
    rfl

namespace RoomManager

theorem ensure_cases {rm : RoomManager} {r r' : Nat} {ms : Finset Nat}
    (h : r ∈ (rm.ensure r' ms).loaded) :
    (r' = r ∧ r ∉ rm.loaded ∧ (rm.ensure r' ms).members r = ms) ∨
      (r ∈ rm.loaded ∧ (rm.ensure r' ms).members r = rm.members r) := by
  unfold ensure at h ⊢
  split at h
  · rename_i hl
    simp [hl, h]
  · rename_i hl
    by_cases hr : r' = r
    · subst hr
      simp [hl, load, members]
    · simp only [load, Finset.mem_insert] at h
      simp [hl, load, members, h.resolve_left (Ne.symm hr), AList.lookup_insert_ne (Ne.symm hr)]

theorem ensure_ensure (rm : RoomManager) (r : Nat) (ms ms' : Finset Nat) :
    (rm.ensure r ms).ensure r ms' = rm.ensure r ms := by
  unfold ensure
  by_cases hl : r ∈ rm.loaded
  · simp [hl]
  · simp [hl, load]

theorem members_join (rm : RoomManager) (r r' u : Nat) :
    (rm.join r' u).members r = if r' = r then insert u (rm.members r) else rm.members r := by
  by_cases hr : r' = r
  · subst hr
    simp [join, members]
  · simp [join, members, hr, AList.lookup_insert_ne (Ne.symm hr)]

theorem members_onLeave (rm : RoomManager) (r r' u : Nat) :
    (rm.onLeave r' u).members r = if r' = r then (rm.members r).erase u else rm.members r := by
  unfold onLeave
  by_cases hr : r' = r
  · subst hr
    cases hl : rm.cache.lookup r' <;> simp [members, hl]
  · cases hl : rm.cache.lookup r' with
    | none => simp [hr]
    | some ms => simp [members, hr, AList.lookup_insert_ne (Ne.symm hr)]

theorem loaded_onLeave (rm : RoomManager) (r u : Nat) : (rm.onLeave r u).loaded = rm.loaded := by
  unfold onLeave
  split <;> rfl

end RoomManager

def Agree (w : World) (r u : Nat) : Prop := u ∈ w.rooms.members r ↔ u ∈ w.store.members r

def Op.touches (r u : Nat) : Op → Prop
  | .repo (.joinRoom r' u') => r' = r ∧ u' = u
  | .repo (.leaveRoom r' u') => r' = r ∧ u' = u
  | .onJoin r' u' => r' = r ∧ u' = u
  | .onLeave r' u' => r' = r ∧ u' = u
  | _ => False

def Op.loads (r : Nat) : Op → Prop
  | .isMember r' _ => r' = r
  | .membersOf r' => r' = r
  | .onJoin r' _ => r' = r
  | _ => False

theorem agree_frame_of {o : Op} {w w' : World} {r u : Nat} {listed : Nat → Finset Nat}
    (hrooms : w'.rooms = o.onRooms listed w.rooms)
    (hmembers : u ∈ w'.store.members r ↔ u ∈ w.store.members r)
    (hlisted : o.loads r → r ∉ w.rooms.loaded → (u ∈ listed r ↔ u ∈ w.store.members r))
    (ho : ¬o.touches r u) (hl : r ∈ w'.rooms.loaded) : Agree w' r u ∨
    (r ∈ w.rooms.loaded ∧ (Agree w' r u ↔ Agree w r u)) := by
  simp only [Agree, hrooms, hmembers] at hl ⊢
  cases o with
  | isMember r' u' =>
    rcases RoomManager.ensure_cases hl with ⟨rfl, hnew, hms⟩ | ⟨hold, hms⟩
    · simp [Op.onRooms, hms, hlisted rfl hnew]
    · simp [Op.onRooms, hms, hold]
  | membersOf r' =>
    rcases RoomManager.ensure_cases hl with ⟨rfl, hnew, hms⟩ | ⟨hold, hms⟩
    · simp [Op.onRooms, hms, hlisted rfl hnew]
    · simp [Op.onRooms, hms, hold]
  | onJoin r' u' =>
    have hne : r' = r → u' ≠ u := fun h h' => ho ⟨h, h'⟩
    rcases RoomManager.ensure_cases (show r ∈ (w.rooms.ensure r' _).loaded from hl) with
      ⟨rfl, hnew, hms⟩ | ⟨hold, hms⟩
    · simp [Op.onRooms, RoomManager.members_join, hms, (hne rfl).symm, hlisted rfl hnew]
    · simp only [Op.onRooms, RoomManager.members_join, hms, hold]
      grind
  | onLeave r' u' =>
    have hne : r' = r → u' ≠ u := fun h h' => ho ⟨h, h'⟩
    simp only [Op.onRooms, RoomManager.loaded_onLeave] at hl
    simp only [Op.onRooms, RoomManager.members_onLeave, hl]
    grind
  | _ => exact .inr ⟨hl, Iff.rfl⟩

theorem agree_frame {env : Env} {o : Op} {w : World} {r u : Nat} (ho : ¬o.touches r u)
    (hl : r ∈ (memExec env o w).2.rooms.loaded) :
    Agree (memExec env o w).2 r u ∨
      (r ∈ w.rooms.loaded ∧ (Agree (memExec env o w).2 r u ↔ Agree w r u)) := by
  refine agree_frame_of (memExec_rooms env o w) ?_ (fun _ _ => Iff.rfl) ho hl
  rw [memExec_members]
  cases o with
  | repo o =>
    cases o with
    | joinRoom r' u' =>
      have hne : r' = r → u' ≠ u := fun h h' => ho ⟨h, h'⟩
      simp only [Op.onMembers]
      grind
    | leaveRoom r' u' =>
      have hne : r' = r → u' ≠ u := fun h h' => ho ⟨h, h'⟩
      simp only [Op.onMembers]
      grind
    | _ => rfl
  | _ => rfl

/-- What a task still owes the cache: `tried` stands for a join that the store refused. -/
inductive Due : Type
  | rest : Due
  | join : Nat → Nat → Due
  | tried : Nat → Nat → Due
  | leave : Nat → Nat → Due

structure Roll where
  known : Set Nat
  due : Due

namespace Roll

def empty : Roll := ⟨∅, .rest⟩

def allows (t : Roll) : Op → Prop
  | .onJoin r u => t.due = .join r u ∨ (t.due = .tried r u ∧ r ∈ t.known)
  | .onLeave r u => t.due = .leave r u
  | _ => t.due = .rest ∨ ∃ r u, t.due = .tried r u

def after (t : Roll) : (o : Op) → o.Ret → Roll
  | .repo (.createRoom _), some rid => ⟨insert rid t.known, .rest⟩
  | .repo (.findRoomByName _), .ok (some room) => ⟨insert room.id t.known, .rest⟩
  | .repo (.joinRoom r u), joined => ⟨t.known, if joined then .join r u else .tried r u⟩
  | .repo (.leaveRoom r u), _ => ⟨t.known, .leave r u⟩
  | _, _ => ⟨t.known, .rest⟩

end Roll

theorem Roll.not_due {t : Roll} {o : Op} {r u : Nat} (ha : t.allows o) (ho : ¬o.touches r u) :
    ¬(t.due = .join r u ∨ t.due = .leave r u) := by
  intro hdue
  unfold Roll.allows at ha
  split at ha
  · rcases hdue with hdue | hdue <;> simp_all [Op.touches]
  · rcases hdue with hdue | hdue <;> simp_all [Op.touches]
  · rcases hdue with hdue | hdue <;> simp_all

def rolls : Contract Op.Ret Roll where
  allows := Roll.allows
  next t o r t' := t' = t.after o r

def Roll.Settled (t : Roll) : Prop := t.due = .rest

section Programs

variable {c : Nat}

theorem rolls_neutral : Neutral rolls Roll.Settled c [.own, .reply, .ident, .assume, .session,
    .validate, .issue, .bind, .unbind, .close, .storeDm, .dm, .storeRoomMsg, .roomMsg,
    .queue, .replay] := by
  rintro o ⟨hk, -⟩ t ht
  refine ⟨?_, ?_⟩
  · change t.allows o
    unfold Roll.allows
    split <;> simp_all [Roll.Settled]
  · rintro r t' rfl
    refine ⟨?_, trivial⟩
    unfold Roll.after
    split <;> simp_all [Roll.Settled]

theorem enterRoom_rolls {t : Roll} {rid : Nat} (ht : t.Settled) (hknown : rid ∈ t.known)
    (id : Option Int) (name : String) (uid : Nat) :
    (handlers.enterRoom c id name rid uid).Follows rolls t (fun _ t' => t'.Settled)
      Roll.Settled := by
  refine ⟨.inl ht, ?_⟩
  rintro joined t' rfl
  refine ⟨?_, ?_⟩
  · cases joined with
    | true => exact .inl rfl
    | false => exact .inr ⟨rfl, hknown⟩
  · rintro r t' rfl
    exact handlers.send_keeps (c := c) rolls_neutral (by decide) _ _ rfl

theorem handleCreateRoom_rolls (req : Json) (id : Option Int) :
    Keeps rolls Roll.Settled (handlers.handleCreateRoom c req id) := by
  have hks := rolls_neutral (c := c)
  have hsend := handlers.send_keeps hks (by decide)
  refine handlers.withAuth_keeps ((handlers.requireAuth_uses req id).keeps hks (by decide))
    fun uid _ => ?_
  dsimp only
  split
  · exact hsend _
  · intro t ht
    refine ⟨.inl ht, ?_⟩
    rintro rid t' rfl
    cases rid with
    | some rid =>
      apply enterRoom_rolls
      · rfl
      · exact Set.mem_insert ..
    | none =>
      refine ⟨.inl rfl, ?_⟩
      rintro found t' rfl
      rcases found with e | (_ | room)
      · rfl
      · exact hsend _ _ rfl
      · apply enterRoom_rolls
        · rfl
        · exact Set.mem_insert ..

theorem handleJoinRoom_rolls (req : Json) (id : Option Int) :
    Keeps rolls Roll.Settled (handlers.handleJoinRoom c req id) := by
  have hks := rolls_neutral (c := c)
  have hsend := handlers.send_keeps hks (by decide)
  refine handlers.withAuth_keeps ((handlers.requireAuth_uses req id).keeps hks (by decide))
    fun uid _ => ?_
  refine ((handlers.roomOf_uses req).keeps hks (by decide)).bind fun rid => ?_
  split
  · exact hsend _
  · intro t ht
    refine ⟨.inl ht, ?_⟩
    rintro joined t' rfl
    cases joined with
    | true =>
      refine ⟨.inl rfl, ?_⟩
      rintro r t' rfl
      exact hsend _ _ rfl
    | false =>
      refine ⟨.inr ⟨rid, uid, rfl⟩, ?_⟩
      rintro r t' rfl
      rfl

theorem handleLeaveRoom_rolls (req : Json) (id : Option Int) :
    Keeps rolls Roll.Settled (handlers.handleLeaveRoom c req id) := by
  have hks := rolls_neutral (c := c)
  have hsend := handlers.send_keeps hks (by decide)
  refine handlers.withAuth_keeps ((handlers.requireAuth_uses req id).keeps hks (by decide))
    fun uid _ => ?_
  dsimp only
  split
  · exact hsend _
  · intro t ht
    refine ⟨.inl ht, ?_⟩
    rintro left t' rfl
    refine ⟨rfl, ?_⟩
    rintro r t' rfl
    exact hsend _ _ rfl

theorem body_rolls (env : Env) (input : Input) : Keeps rolls Roll.Settled (body env input) := by
  cases input with
  | close c => exact close_uses.keeps (rolls_neutral (c := c)) (by decide)
  | request c payload =>
    have hks := rolls_neutral (c := c)
    have hauth (req : Json) :
        Keeps rolls Roll.Settled (handlers.requireAuth c req (requestId req)) :=
      (handlers.requireAuth_uses req _).keeps hks (by decide)
    exact handlers.dispatch_keeps hks (by decide) (fun req _ => hauth req)
      (fun req _ _ => (handlers.handleLogin_uses env req _).keeps hks (by decide))
      (fun req _ => (handlers.handleLogout_uses req _).keeps hks (by decide))
      (fun req _ => (handlers.handleSendDm_acts env).keeps hks (by decide) (hauth req))
      (fun req _ => (handlers.handleSendRoom_acts env).keeps hks (by decide) (hauth req))
      (fun req _ => handleCreateRoom_rolls req _)
      (fun req _ => handleJoinRoom_rolls req _)
      (fun req _ => handleLeaveRoom_rolls req _)

end Programs

def Owes (g : Sys) (n r u : Nat) : Prop :=
  g.nextOp n = some (.onJoin r u) ∨ g.nextOp n = some (.onLeave r u)

/-- The cache update comes while its store update still stands, unless another task is
about to update the same entry. -/
def standsFor (g : Sys) (i : Nat) : Op → Prop
  | .onJoin r u => u ∈ g.hist.state.store.members r ∨ ∃ n, n ≠ i ∧ Owes g n r u
  | .onLeave r u => u ∉ g.hist.state.store.members r ∨ r ∉ g.hist.state.rooms.loaded ∨
      ∃ n, n ≠ i ∧ Owes g n r u
  | _ => True

def stepStandsFor (g : Sys) : Move Input → Prop
  | .start _ _ => True
  | .advance i => ∀ o, g.nextOp i = some o → standsFor g i o

/-- Cache and store agree about every loaded room, but for the entries tasks still owe. -/
def Coherent (g : Sys) : Prop :=
  ∀ r ∈ g.hist.state.rooms.loaded, ∀ u, Agree g.hist.state r u ∨ ∃ n, Owes g n r u

section Steps

variable {env : Env} {g : Sys} {i : Nat} {j : Input} {o : Op} {k : o.Ret → ServerM Unit} {r u : Nat}

theorem Owes.perform {n : Nat} (h : Owes g n r u) (hn : n ≠ i) :
    Owes (g.perform (memExec env) i j o k) n r u := by
  rw [Owes, Config.nextOp_perform_ne g hn]
  exact h

theorem Roll.nextOp_of_follows {t : Roll} {x : ServerM Unit}
    (h : x.Follows rolls t (fun _ t' => t'.Settled) Roll.Settled)
    (ht : t.due = .join r u ∨ t.due = .leave r u) :
    x.nextOp = some (.onJoin r u) ∨ x.nextOp = some (.onLeave r u) := by
  cases x with
  | ret a => simp_all [Roll.Settled]
  | throw => simp_all [Roll.Settled]
  | op o k =>
    have ha : t.allows o := h.1
    unfold Roll.allows at ha
    split at ha
    · rcases ht with ht | ht <;> simp_all
    · rcases ht with ht | ht <;> simp_all
    · rcases ht with ht | ht <;> simp_all

theorem Coherent.perform (hg : Coherent g) (hp : g.tasks i = .busy j (.op o k)) {t : Roll}
    (ht : (Prog.op o k).Follows rolls t (fun _ t' => t'.Settled) Roll.Settled)
    (hok : standsFor g i o) : Coherent (g.perform (memExec env) i j o k) := by
  intro r hr u
  change r ∈ (memExec env o g.hist.state).2.rooms.loaded at hr
  have hnext : (g.perform (memExec env) i j o k).nextOp i =
      (k (memExec env o g.hist.state).1).nextOp :=
    Config.nextOp_perform_self g i j o k
  have helse (h : ∃ n, n ≠ i ∧ Owes g n r u) :
      ∃ n, Owes (g.perform (memExec env) i j o k) n r u := by
    obtain ⟨n, hn, howes⟩ := h
    exact ⟨n, howes.perform hn⟩
  have hown (hdue : (t.after o (memExec env o g.hist.state).1).due = .join r u ∨
      (t.after o (memExec env o g.hist.state).1).due = .leave r u) :
      ∃ n, Owes (g.perform (memExec env) i j o k) n r u := by
    refine ⟨i, ?_⟩
    rw [Owes, hnext]
    exact Roll.nextOp_of_follows (ht.2 _ _ rfl) hdue
  by_cases htouch : o.touches r u
  · change Agree (memExec env o g.hist.state).2 r u ∨ _
    cases o with
    | repo o =>
      cases o with
      | joinRoom r' u' =>
        obtain ⟨rfl, rfl⟩ := htouch
        cases hjoined : (memExec env (.repo (.joinRoom r' u')) g.hist.state).1 with
        | true => exact .inr (hown (.inl (by simp [Roll.after, hjoined])))
        | false =>
          have hnone : (g.hist.state.store.rooms.lookup r').isSome = false :=
            (Store.joinRoom_fst ..).symm.trans hjoined
          simp only [Agree, memExec_rooms, memExec_members, Op.onRooms, Op.onMembers, hnone,
            Bool.false_eq_true, and_false, if_false] at hr ⊢
          refine (hg r' hr u').imp_right fun ⟨n, howes⟩ => helse ⟨n, ?_, howes⟩
          rintro rfl
          rw [Owes, Config.nextOp_eq hp] at howes
          rcases howes with h | h <;> cases h
      | leaveRoom r' u' =>
        obtain ⟨rfl, rfl⟩ := htouch
        exact .inr (hown (.inr rfl))
      | _ => exact htouch.elim
    | onJoin r' u' =>
      obtain ⟨rfl, rfl⟩ := htouch
      refine hok.imp (fun hmem => ?_) helse
      simp [Agree, memExec_rooms, memExec_members, Op.onRooms, Op.onMembers,
        RoomManager.members_join, hmem]
    | onLeave r' u' =>
      obtain ⟨rfl, rfl⟩ := htouch
      simp only [Agree, memExec_rooms, memExec_members, Op.onRooms, Op.onMembers,
        RoomManager.members_onLeave, RoomManager.loaded_onLeave] at hr ⊢
      rcases hok with hmem | hload | hother
      · simp [hmem]
      · exact absurd hr hload
      · exact .inr (helse hother)
    | _ => exact htouch.elim
  · rcases agree_frame htouch hr with hagree | ⟨hold, hiff⟩
    · exact .inl hagree
    · refine (hg r hold u).imp hiff.mpr ?_
      rintro ⟨n, howes⟩
      refine helse ⟨n, ?_, howes⟩
      rintro rfl
      rw [Owes, Config.nextOp_eq hp] at howes
      rcases howes with h | h <;> cases h <;> exact htouch ⟨rfl, rfl⟩

theorem coherent_reachable (hg : Reachable env stepStandsFor g) :
    ∃ ts, Config.Tracked (fun _ => rolls) Roll.Settled g ts ∧ Coherent g := by
  refine Config.Reach.invariant (fun g _ => Coherent g) (fun _ => Roll.empty) (fun _ => Roll.empty)
    (fun _ => rfl) ?_ (fun input => body_rolls env input _ rfl) ?_ ?_ hg
  · simp [Coherent, Sys.start, Config.idle, World.init, RoomManager.empty]
  · intro g ts i input _ hI _ hf r hr u
    refine (hI r hr u).imp_right fun ⟨n, hn⟩ => ⟨n, ?_⟩
    exact hn.imp (Config.nextOp_start hf) (Config.nextOp_start hf)
  · intro g ts i input o k ht hI hok hp _
    have hi := ht i
    rw [hp] at hi
    exact ⟨_, rfl, hI.perform hp hi (hok o (Config.nextOp_eq hp))⟩

end Steps

def CacheAgrees (w : World) : Prop := ∀ r ∈ w.rooms.loaded, w.rooms.members r = w.store.members r

theorem room_cache_agrees {env : Env} {g : Sys} (hg : Reachable env stepStandsFor g)
    (hq : g.quiet) : CacheAgrees g.hist.state := by
  obtain ⟨ts, -, hc⟩ := coherent_reachable hg
  intro r hr
  ext u
  rcases hc r hr u with hagree | ⟨n, hn⟩
  · exact hagree
  · have hidle := hq n
    rw [Owes, Config.nextOp] at hn
    cases ht : g.tasks n with
    | fresh => simp [ht] at hn
    | busy input x =>
      rw [ht] at hn hidle
      cases x with
      | op o k => cases hidle
      | _ => simp [Prog.nextOp] at hn

section Alone

def Store.RoomsOk (s : Store) : Prop := ∀ id room, s.rooms.lookup id = some room → room.id = id

structure Aligned (w : World) (t : Roll) : Prop where
  rooms : w.store.RoomsOk
  known : ∀ r ∈ t.known, (w.store.rooms.lookup r).isSome
  agree : ∀ r ∈ w.rooms.loaded, ∀ u, Agree w r u ∨ t.due = .join r u ∨ t.due = .leave r u
  joined : ∀ r u, t.due = .join r u → u ∈ w.store.members r
  refused : ∀ r u, t.due = .tried r u → w.store.rooms.lookup r = none
  left : ∀ r u, t.due = .leave r u → u ∉ w.store.members r

variable {env : Env} {w : World} {t : Roll} {o : Op}

theorem aligned_init : Aligned .init .empty := by
  refine ⟨?_, ?_, ?_, ?_, ?_, ?_⟩ <;>
    simp [Store.RoomsOk, World.init, Store.empty, RoomManager.empty, Roll.empty]

theorem Aligned.fresh (hw : Aligned w t) (ht : t.Settled) : Aligned w .empty where
  rooms := hw.rooms
  known := by simp [Roll.empty]
  agree r hr u := .inl (by simpa [show t.due = .rest from ht] using hw.agree r hr u)
  joined := by simp [Roll.empty]
  refused := by simp [Roll.empty]
  left := by simp [Roll.empty]

theorem memExec_storeRooms (ho : ∀ n, o ≠ .repo (.createRoom n)) :
    (memExec env o w).2.store.rooms = w.store.rooms ∧
      (memExec env o w).2.store.roomNameIdx = w.store.roomNameIdx := by
  cases o with
  | repo o =>
    rw [memExec_repo]
    cases o with
    | createRoom n => exact absurd rfl (ho n)
    | createUser n h =>
      simp only [memory, Store.createUser]
      split <;> exact ⟨rfl, rfl⟩
    | updateLastSeen u ts =>
      simp only [memory, World.setStore, Store.updateLastSeen]
      split <;> exact ⟨rfl, rfl⟩
    | joinRoom r u =>
      simp only [memory, World.setStore, Store.joinRoom]
      split <;> exact ⟨rfl, rfl⟩
    | leaveRoom r u =>
      simp only [memory, World.setStore, Store.leaveRoom]
      split <;> exact ⟨rfl, rfl⟩
    | drainUndelivered u =>
      simp only [memory, World.setStore, Store.drainUndelivered]
      split <;> exact ⟨rfl, rfl⟩
    | _ => exact ⟨rfl, rfl⟩
  | _ =>
    rw [memExec_store env _ _ (by simp)]
    exact ⟨rfl, rfl⟩

theorem createRoom_rooms (s : Store) (n : String) (now : Int) :
    (s.createRoom n now).2.rooms = match (s.createRoom n now).1 with
      | some rid => s.rooms.insert rid ⟨rid, n, now⟩
      | none => s.rooms := by
  unfold Store.createRoom
  split <;> rfl

theorem findRoomByName_rooms {s : Store} (hs : s.RoomsOk) {n : String} {room : Room}
    (h : s.findRoomByName n = .ok (some room)) : (s.rooms.lookup room.id).isSome := by
  unfold Store.findRoomByName at h
  split at h
  · cases h
  · rename_i rid _
    cases hl : s.rooms.lookup rid with
    | none =>
      rw [hl] at h
      cases h
    | some r =>
      rw [hl] at h
      cases h
      rw [hs rid room hl, hl]
      rfl

theorem memExec_roomsOk (h : w.store.RoomsOk) : (memExec env o w).2.store.RoomsOk := by
  by_cases ho : ∃ n, o = .repo (.createRoom n)
  · obtain ⟨n, rfl⟩ := ho
    intro id room hl
    rw [memExec_repo] at hl
    simp only [memory, createRoom_rooms] at hl
    split at hl
    · rename_i rid _
      by_cases hid : id = rid
      · subst hid
        rw [AList.lookup_insert] at hl
        cases hl
        rfl
      · rw [AList.lookup_insert_ne hid] at hl
        exact h id room hl
    · exact h id room hl
  · intro id room hl
    rw [(memExec_storeRooms (by simpa using ho)).1] at hl
    exact h id room hl

theorem memExec_room_isSome {r : Nat} (h : (w.store.rooms.lookup r).isSome) :
    ((memExec env o w).2.store.rooms.lookup r).isSome := by
  by_cases ho : ∃ n, o = .repo (.createRoom n)
  · obtain ⟨n, rfl⟩ := ho
    rw [memExec_repo]
    simp only [memory, createRoom_rooms]
    split
    · rename_i rid _
      by_cases hr : r = rid
      · rw [hr, AList.lookup_insert]
        rfl
      · rwa [AList.lookup_insert_ne hr]
    · exact h
  · rwa [(memExec_storeRooms (by simpa using ho)).1]

theorem Aligned.known_after (hw : Aligned w t) {r : Nat}
    (hr : r ∈ (t.after o (memExec env o w).1).known) :
    ((memExec env o w).2.store.rooms.lookup r).isSome := by
  have hold (h : r ∈ t.known) : ((memExec env o w).2.store.rooms.lookup r).isSome :=
    memExec_room_isSome (hw.known r h)
  cases o with
  | repo o =>
    cases o with
    | createRoom n =>
      cases hc : (memExec env (.repo (.createRoom n)) w).1 with
      | none =>
        rw [hc] at hr
        exact hold hr
      | some rid =>
        rw [hc] at hr
        rcases hr with rfl | hr
        · rw [memExec_repo] at hc ⊢
          simp only [memory] at hc ⊢
          rw [createRoom_rooms, hc, AList.lookup_insert]
          rfl
        · exact hold hr
    | findRoomByName n =>
      cases hf : (memExec env (.repo (.findRoomByName n)) w).1 with
      | error _ =>
        rw [hf] at hr
        exact hold hr
      | ok found =>
        rw [hf] at hr
        cases found with
        | none => exact hold hr
        | some room =>
          rcases hr with rfl | hr
          · exact memExec_room_isSome (findRoomByName_rooms hw.rooms hf)
          · exact hold hr
    | _ => exact hold hr
  | _ => exact hold hr

theorem Aligned.agree_op {r u : Nat} (hw : Aligned w t) (ha : t.allows o) (ho : ¬o.touches r u)
    (hl : r ∈ (memExec env o w).2.rooms.loaded) : Agree (memExec env o w).2 r u := by
  rcases agree_frame ho hl with hagree | ⟨hold, hiff⟩
  · exact hagree
  · rw [hiff]
    exact (hw.agree r hold u).resolve_right (Roll.not_due ha ho)

theorem Aligned.settle (hw : Aligned w t) (ha : t.allows o)
    (hdue : (t.after o (memExec env o w).1).due = .rest)
    (ht : ∀ r u, o.touches r u → Agree (memExec env o w).2 r u) :
    Aligned (memExec env o w).2 (t.after o (memExec env o w).1) where
  rooms := memExec_roomsOk hw.rooms
  known _ hr := hw.known_after hr
  agree r hr u := by
    by_cases ho : o.touches r u
    · exact .inl (ht r u ho)
    · exact .inl (hw.agree_op ha ho hr)
  joined := by simp [hdue]
  refused := by simp [hdue]
  left := by simp [hdue]

theorem Aligned.joinRoom {r u : Nat} (hw : Aligned w t) (ha : t.allows (.repo (.joinRoom r u))) :
    Aligned (memExec env (.repo (.joinRoom r u)) w).2
      (t.after (.repo (.joinRoom r u)) (memExec env (.repo (.joinRoom r u)) w).1) := by
  have hanswer : (memExec env (.repo (.joinRoom r u)) w).1 = (w.store.rooms.lookup r).isSome :=
    Store.joinRoom_fst ..
  have hmembers (r' : Nat) := memExec_members env (.repo (.joinRoom r u)) w r'
  refine ⟨memExec_roomsOk hw.rooms, fun _ hr => hw.known_after hr, ?_, ?_, ?_, ?_⟩
  · intro r' hr' u'
    by_cases ho : Op.touches r' u' (.repo (.joinRoom r u))
    · obtain ⟨rfl, rfl⟩ := ho
      cases hl : (w.store.rooms.lookup r).isSome with
      | true => exact .inr (.inl (by simp [Roll.after, hanswer, hl]))
      | false =>
        -- a join that the store refuses changes nothing
        left
        rw [Agree, hmembers, memExec_rooms]
        simp only [Op.onMembers, Op.onRooms, hl, Bool.false_eq_true, and_false, if_false]
        apply (hw.agree r hr' u).resolve_right
        simp only [Roll.allows] at ha
        rintro (hdue | hdue) <;> simp [hdue] at ha
    · exact .inl (hw.agree_op ha ho hr')
  · intro r' u' hdue
    cases hl : (w.store.rooms.lookup r).isSome <;> rw [hanswer, hl] at hdue <;> cases hdue
    simp [hmembers, Op.onMembers, hl]
  · intro r' u' hdue
    cases hl : (w.store.rooms.lookup r).isSome <;> rw [hanswer, hl] at hdue <;> cases hdue
    rw [(memExec_storeRooms (by simp)).1]
    simpa using hl
  · intro r' u' hdue
    cases hl : (w.store.rooms.lookup r).isSome <;> rw [hanswer, hl] at hdue <;> cases hdue

theorem Aligned.op (hw : Aligned w t) (ha : t.allows o) :
    Aligned (memExec env o w).2 (t.after o (memExec env o w).1) := by
  cases o with
  | onJoin r u =>
    apply hw.settle ha rfl
    rintro _ _ ⟨rfl, rfl⟩
    have hmem : u ∈ w.store.members r := by
      rcases ha with hdue | ⟨hdue, hknown⟩
      · exact hw.joined r u hdue
      · have hsome := hw.known r hknown
        rw [hw.refused r u hdue] at hsome
        cases hsome
    simp [Agree, memExec_rooms, memExec_members, Op.onRooms, Op.onMembers,
      RoomManager.members_join, hmem]
  | onLeave r u =>
    apply hw.settle ha rfl
    rintro _ _ ⟨rfl, rfl⟩
    have hmem := hw.left r u ha
    simp [Agree, memExec_rooms, memExec_members, Op.onRooms, Op.onMembers,
      RoomManager.members_onLeave, hmem]
  | repo o =>
    cases o with
    | joinRoom r u => exact hw.joinRoom ha
    | leaveRoom r u =>
      refine ⟨memExec_roomsOk hw.rooms, fun _ hr => hw.known_after hr, ?_, ?_, ?_, ?_⟩
      · intro r' hr' u'
        by_cases ho : Op.touches r' u' (.repo (.leaveRoom r u))
        · obtain ⟨rfl, rfl⟩ := ho
          exact .inr (.inr rfl)
        · exact .inl (hw.agree_op ha ho hr')
      · simp [Roll.after]
      · simp [Roll.after]
      · rintro _ _ ⟨⟩
        simp [memExec_members, Op.onMembers]
    | createRoom n =>
      apply hw.settle ha
      · cases (memExec env (.repo (.createRoom n)) w).1 <;> rfl
      · exact fun _ _ h => h.elim
    | findRoomByName n =>
      apply hw.settle ha
      · rcases (memExec env (.repo (.findRoomByName n)) w).1 with _ | (_ | _) <;> rfl
      · exact fun _ _ h => h.elim
    | _ => exact hw.settle ha rfl fun _ _ h => h.elim
  | _ => exact hw.settle ha rfl fun _ _ h => h.elim

theorem Aligned.mem_membersOf {r u : Nat} (hw : Aligned w t) (ha : t.allows (.membersOf r)) :
    u ∈ (memExec env (.membersOf r) w).1 ↔ u ∈ w.store.members r := by
  have hloaded : r ∈ (memExec env (.membersOf r) w).2.rooms.loaded := by
    rw [memExec_rooms, Op.onRooms, RoomManager.ensure]
    split
    · assumption
    · exact Finset.mem_insert_self ..
  have hcached : u ∈ (memExec env (.membersOf r) w).1 ↔
      u ∈ (memExec env (.membersOf r) w).2.rooms.members r :=
    env.mem_order ..
  have hstored := hw.agree_op ha (fun h => h) hloaded (u := u)
  rw [Agree, memExec_members] at hstored
  exact hcached.trans hstored

theorem Aligned.cacheAgrees (hw : Aligned w .empty) : CacheAgrees w := by
  intro r hr
  ext u
  simpa [Roll.empty, Agree] using hw.agree r hr u

theorem aligned_serveAll (env : Env) (inputs : List Input) :
    Aligned (serveAll env inputs).state .empty := by
  apply serveAll_keeps (P := fun _ _ => True) (I := fun w => Aligned w .empty) _ aligned_init inputs
    fun _ _ _ _ => trivial
  intro w input hw _
  obtain ⟨t, ht, hsettled⟩ := (body_rolls env input .empty rfl).run (memExec env) Aligned
    (fun _ _ _ hw ha => ⟨_, rfl, hw.op ha⟩) hw
  apply ht.fresh
  split at hsettled <;> exact hsettled

theorem CacheAgrees.op (hw : CacheAgrees w) (ho : ∀ r u, ¬o.touches r u) :
    CacheAgrees (memExec env o w).2 := by
  intro r hr
  ext u
  rcases agree_frame (ho r u) hr with hagree | ⟨hold, hiff⟩
  · exact hagree
  · exact hiff.mpr (by rw [Agree, hw r hold])

theorem CacheAgrees.members_ensure (hw : CacheAgrees w) (r : Nat) :
    (w.rooms.ensure r (w.store.members r)).members r = w.store.members r := by
  unfold RoomManager.ensure
  split
  · exact hw r ‹_›
  · simp [RoomManager.load, RoomManager.members]

end Alone

section Runs

def createRoomReq (name : String) : Json :=
  .obj [("name", .str name), ("type", .str types.kCreateRoom)]

def joinRoomReq (r : Nat) : Json := .obj [("room_id", .uint r), ("type", .str types.kJoinRoom)]

def leaveRoomReq (r : Nat) : Json := .obj [("room_id", .uint r), ("type", .str types.kLeaveRoom)]

def clubEnv : Env :=
  sampleEnv [registerReq "alice" "wonder", loginReq "alice" "wonder", createRoomReq "club",
    joinRoomReq 1, leaveRoomReq 1]

def clubMade : List (Move Input) :=
  begin 0 (ask 1 (registerReq "alice" "wonder")) 3 ++
  begin 1 (ask 1 (loginReq "alice" "wonder")) 10 ++
  begin 2 (ask 2 (loginReq "alice" "wonder")) 9 ++
  begin 3 (ask 1 (createRoomReq "club")) 5 ++
  begin 4 (ask 1 (leaveRoomReq 1)) 4

def clubRun (n : Nat) : List (Move Input) :=
  clubMade ++ begin 5 (ask 1 (joinRoomReq 1)) n ++ begin 6 (ask 2 (leaveRoomReq 1)) 4 ++
  List.replicate (4 - n) (.advance 5)

def stepStandsForCheck (g : Sys) : Move Input → Bool
  | .start _ _ => true
  | .advance i =>
    match g.nextOp i with
    | some (.onJoin r u) => u ∈ g.hist.state.store.members r
    | some (.onLeave r u) => u ∉ g.hist.state.store.members r
    | _ => true

theorem stepStandsFor_of_check (g : Sys) (m : Move Input) (h : stepStandsForCheck g m = true) :
    stepStandsFor g m := by
  cases m with
  | start i input => trivial
  | advance i =>
    intro o ho
    simp only [stepStandsForCheck, ho] at h
    unfold standsFor
    split
    · exact .inl (by simpa using h)
    · exact .inl (by simpa using h)
    · trivial

theorem room_cache_agrees_clubRun :
    ∃ g, Reachable clubEnv stepStandsFor g ∧ g.quiet ∧ 1 ∈ g.hist.state.rooms.loaded ∧
      CacheAgrees g.hist.state := by
  have hrun : (Sys.start.steps (memExec clubEnv) (body clubEnv) stepStandsForCheck (clubRun 4)).map
      (fun g => ((List.range 7).all fun i => (g.tasks i).finished,
        (1 ∈ g.hist.state.rooms.loaded : Bool))) = some (true, true) := by decide +kernel
  obtain ⟨g, hreach, hquiet, hload⟩ :=
    Config.Reach.quiet_of_steps stepStandsFor_of_check 7 (by decide) hrun
  exact ⟨g, hreach, hquiet, of_decide_eq_true hload, room_cache_agrees hreach hquiet⟩

theorem room_cache_disagrees_clubRun :
    ∃ g, Reachable clubEnv (fun _ _ => True) g ∧ g.quiet ∧ ¬CacheAgrees g.hist.state := by
  -- The leave runs between the two halves of the join.
  have hrun : (Sys.start.steps (memExec clubEnv) (body clubEnv) (fun _ _ => true) (clubRun 2)).map
      (fun g => ((List.range 7).all fun i => (g.tasks i).finished,
        (1 ∈ g.hist.state.rooms.loaded : Bool), (1 ∈ g.hist.state.rooms.members 1 : Bool),
        (1 ∈ g.hist.state.store.members 1 : Bool))) = some (true, true, true, false) := by
          decide +kernel
  obtain ⟨g, hreach, hquiet, heq⟩ :=
    Config.Reach.quiet_of_steps (fun _ _ _ => trivial) 7 (by decide) hrun
  simp only [Prod.mk.injEq, decide_eq_true_eq, decide_eq_false_iff_not] at heq
  obtain ⟨hload, hcache, hstore⟩ := heq
  refine ⟨g, hreach, hquiet, fun hagrees => hstore ?_⟩
  rwa [← hagrees 1 hload]

end Runs

end ChatServer
