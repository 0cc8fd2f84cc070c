import ChatServer.Server.Database

namespace ChatServer

open Lib Lib.Prog

def Database.serveAll (db : Database) (fault : Faults) (env : Env) (s : Store)
    (inputs : List Input) : Hist :=
  History.serveAll (db.exec fault env) (body env) 0 ⟨{ World.init with store := s }, []⟩ inputs

/-- The cache is updated after the database has been, and not filled by a call that fails
to list the members there are. -/
def Op.keepsUp (fault : Faults) (w : World) : Op → Bool
  | .onJoin r u => u ∈ w.store.members r ∧
      (r ∈ w.rooms.loaded ∨ (RepoOp.listRoomMembers r).fails fault w = false ∨
        w.store.members r = {u})
  | .onLeave r u => u ∉ w.store.members r ∨ r ∉ w.rooms.loaded
  | .isMember r _ =>
    r ∈ w.rooms.loaded ∨ (RepoOp.listRoomMembers r).fails fault w = false ∨ w.store.members r = ∅
  | .membersOf r =>
    r ∈ w.rooms.loaded ∨ (RepoOp.listRoomMembers r).fails fault w = false ∨ w.store.members r = ∅
  | _ => true

section Effects

variable {db : Database} {fault : Faults} {env : Env} {o : Op} {w : World} {r u : Nat}

variable (db fault env o w) in
theorem Database.exec_rooms :
    (db.exec fault env o w).2.rooms =
      o.onRooms (fun r => db.answer fault (.listRoomMembers r) w) w.rooms := by
  have hload (r : Nat) : (ensureLoaded (db.backend fault) r w).rooms =
      w.rooms.ensure r (db.answer fault (.listRoomMembers r) w) := by
    unfold ensureLoaded RoomManager.ensure
    split <;> rfl
  cases o with
  | isMember r u => exact hload r
  | membersOf r => exact hload r
  | onJoin r u => exact congrArg (RoomManager.join · r u) (hload r)
  | _ => rfl

theorem Database.members_stored {o : RepoOp} (ho : o.kind ≠ .membership) :
    (db.stored fault o w).members r = w.store.members r := by
  unfold Database.stored
  split
  · rfl
  · exact db.members_other o w.store r ho

theorem Database.members_exec (ho : ∀ ro, o = .repo ro → ro.kind ≠ .membership) :
    (db.exec fault env o w).2.store.members r = w.store.members r := by
  have hload (r' : Nat) :
      (ensureLoaded (db.backend fault) r' w).store.members r = w.store.members r := by
    unfold ensureLoaded
    split
    · rfl
    · exact members_stored (by simp)
  cases o with
  | isMember r' u' => exact hload r'
  | membersOf r' => exact hload r'
  | onJoin r' u' => exact hload r'
  | repo o => exact members_stored (ho o rfl)
  | _ => rfl

theorem Database.mem_exec_members (ho : ¬o.touches r u) :
    u ∈ (db.exec fault env o w).2.store.members r ↔ u ∈ w.store.members r := by
  by_cases hkind : ∃ ro, o = .repo ro ∧ ro.kind = .membership
  · obtain ⟨ro, rfl, hkind⟩ := hkind
    change u ∈ (db.stored fault ro w).members r ↔ _
    unfold Database.stored
    split
    · rfl
    · cases ro with
      | joinRoom r' u' =>
        rcases db.members_joinRoom w.store r' u' r with heq | ⟨rfl, heq⟩
        · rw [heq]
        · have hne : u ≠ u' := fun h => ho ⟨rfl, h.symm⟩
          rw [heq, Finset.mem_insert, or_iff_right hne]
      | leaveRoom r' u' =>
        rw [db.members_leaveRoom]
        split
        · rename_i hr
          have hne : u ≠ u' := fun h => ho ⟨hr, h.symm⟩
          rw [Finset.mem_erase, and_iff_right hne]
        · rfl
      | _ => cases hkind
  · rw [members_exec fun ro ho hmembership => hkind ⟨ro, ho, hmembership⟩]

theorem Database.mem_listed (hlist : (RepoOp.listRoomMembers r).fails fault w = false ∨
      u ∉ w.store.members r) :
    u ∈ db.answer fault (.listRoomMembers r) w ↔ u ∈ w.store.members r := by
  cases hfails : (RepoOp.listRoomMembers r).fails fault w with
  | false => rw [answer_of_not_fails hfails, db.listRoomMembers_ok]
  | true =>
    have hnot := hlist.resolve_left (by simp [hfails])
    rw [answer_of_fails (by simp) hfails]
    exact iff_of_false (Finset.notMem_empty u) hnot

end Effects

def Abreast (w : World) (t : Roll) : Prop :=
  ∀ r ∈ w.rooms.loaded, ∀ u, Agree w r u ∨ t.due = .join r u ∨ t.due = .leave r u

section Steps

variable {db : Database} {fault : Faults} {env : Env} {o : Op} {w : World} {t : Roll} {r u : Nat}

theorem keepsUp_listed (hk : o.keepsUp fault w = true) (ho : ¬o.touches r u) (hloads : o.loads r)
    (hnew : r ∉ w.rooms.loaded) :
    u ∈ db.answer fault (.listRoomMembers r) w ↔ u ∈ w.store.members r := by
  apply Database.mem_listed
  cases o with
  | isMember r' u' =>
    obtain rfl : r' = r := hloads
    refine ((of_decide_eq_true hk).resolve_left hnew).imp_right fun hempty => ?_
    simp [hempty]
  | membersOf r' =>
    obtain rfl : r' = r := hloads
    refine ((of_decide_eq_true hk).resolve_left hnew).imp_right fun hempty => ?_
    simp [hempty]
  | onJoin r' u' =>
    obtain rfl : r' = r := hloads
    refine ((of_decide_eq_true hk).2.resolve_left hnew).imp_right fun hsingle => ?_
    rw [hsingle, Finset.mem_singleton]
    exact fun h => ho ⟨rfl, h.symm⟩
  | _ => exact hloads.elim

theorem Abreast.touched (h : Abreast w t) (ha : t.allows o) (hk : o.keepsUp fault w = true)
    (ho : o.touches r u) (hr : r ∈ (db.exec fault env o w).2.rooms.loaded) :
    Agree (db.exec fault env o w).2 r u ∨ (t.after o (db.exec fault env o w).1).due = .join r u ∨
      (t.after o (db.exec fault env o w).1).due = .leave r u := by
  rw [Database.exec_rooms] at hr
  cases o with
  | repo o =>
    cases o with
    | joinRoom r' u' =>
      obtain ⟨rfl, rfl⟩ := ho
      have hanswer : (db.exec fault env (.repo (.joinRoom r' u')) w).1 =
          db.answer fault (.joinRoom r' u') w := rfl
      cases hfails : (RepoOp.joinRoom r' u').fails fault w with
      | false =>
        rw [hanswer, Database.answer_of_not_fails hfails, db.joinRoom_ok]
        exact .inr (.inl rfl)
      | true =>
        -- a join that fails changes nothing
        left
        have hstored : (db.exec fault env (.repo (.joinRoom r' u')) w).2.store = w.store :=
          if_pos hfails
        rw [Agree, hstored]
        refine (h r' hr u').resolve_right ?_
        simp only [Roll.allows] at ha
        rintro (hdue | hdue) <;> simp [hdue] at ha
    | leaveRoom r' u' =>
      obtain ⟨rfl, rfl⟩ := ho
      exact .inr (.inr rfl)
    | _ => exact ho.elim
  | onJoin r' u' =>
    obtain ⟨rfl, rfl⟩ := ho
    have hmem : u' ∈ w.store.members r' := (of_decide_eq_true hk).1
    left
    rw [Agree, Database.exec_rooms, Database.members_exec (by simp)]
    simp [Op.onRooms, RoomManager.members_join, hmem]
  | onLeave r' u' =>
    obtain ⟨rfl, rfl⟩ := ho
    rw [Op.onRooms, RoomManager.loaded_onLeave] at hr
    have hmem : u' ∉ w.store.members r' := (of_decide_eq_true hk).resolve_right (not_not.mpr hr)
    left
    rw [Agree, Database.exec_rooms, Database.members_exec (by simp)]
    simp [Op.onRooms, RoomManager.members_onLeave, hmem]
  | _ => exact ho.elim

theorem Abreast.op (h : Abreast w t) (ha : t.allows o) (hk : o.keepsUp fault w = true) :
    Abreast (db.exec fault env o w).2 (t.after o (db.exec fault env o w).1) := by
  intro r hr u
  by_cases ho : o.touches r u
  · exact h.touched ha hk ho hr
  · left
    rcases agree_frame_of (db.exec_rooms fault env o w) (Database.mem_exec_members ho)
      (keepsUp_listed hk ho) ho hr with hagree | ⟨hold, hiff⟩
    · exact hagree
    · rw [hiff]
      apply (h r hold u).resolve_right
      exact Roll.not_due ha ho

end Steps

section Runs

variable (db : Database) (fault : Faults) (env : Env)

variable {db fault env} in
theorem Abreast.serve {h : Hist} (i : Nat) (j : Input)
    (hh : (∀ e ∈ h.log, e.op.keepsUp fault e.before = true) → Abreast h.state .empty) :
    (∀ e ∈ (h.serve (db.exec fault env) (body env) i j).log, e.op.keepsUp fault e.before = true) →
      Abreast (h.serve (db.exec fault env) (body env) i j).state .empty := by
  have hrun := (body_rolls env j .empty rfl).run (fun o h =>
    History.record (db.exec fault env) i j o h)
    (fun h t => (∀ e ∈ h.log, e.op.keepsUp fault e.before = true) → Abreast h.state t) ?_ hh
  · obtain ⟨t, hI, hend⟩ := hrun
    have hsettled : t.Settled := by
      split at hend
      · exact hend
      · exact hend
    intro hk r hr u
    have hagree := hI hk r hr u
    rwa [show t.due = .rest from hsettled] at hagree
  · intro h t o hI ha
    refine ⟨_, rfl, fun hk => ?_⟩
    rw [History.record_log] at hk
    have hold : Abreast h.state t := hI fun e he => hk e (List.mem_append_left _ he)
    exact hold.op ha (hk _ (List.mem_append_right _ (List.mem_singleton.mpr rfl)))

theorem abreast_serveAll (s : Store) (inputs : List Input)
    (hk : ∀ e ∈ (db.serveAll fault env s inputs).log, e.op.keepsUp fault e.before = true) :
    Abreast (db.serveAll fault env s inputs).state .empty := by
  refine History.serveAll_invariant
    (I := fun h => (∀ e ∈ h.log, e.op.keepsUp fault e.before = true) → Abreast h.state .empty)
    (db.exec fault env) (body env) (fun i h j hh => Abreast.serve i j hh) 0 ?_ inputs hk
  intro _ r hr
  simp [World.init, RoomManager.empty] at hr

theorem room_cache_survives (s : Store) (inputs : List Input)
    (hk : ∀ e ∈ (db.serveAll fault env s inputs).log, e.op.keepsUp fault e.before = true) :
    CacheAgrees (db.serveAll fault env s inputs).state ∧
      ∀ r u, (RepoOp.listRoomMembers r).fails fault (db.serveAll fault env s inputs).state = false →
        (db.exec fault env (.isMember r u) (db.serveAll fault env s inputs).state).1 =
          decide (u ∈ (db.serveAll fault env s inputs).state.store.members r) := by
  have habreast := abreast_serveAll db fault env s inputs hk
  generalize (db.serveAll fault env s inputs).state = w at habreast ⊢
  have hagrees : CacheAgrees w := by
    intro r hr
    ext u
    simpa [Roll.empty, Agree] using habreast r hr u
  refine ⟨hagrees, fun r u hlist => ?_⟩
  have hanswer : (db.exec fault env (.isMember r u) w).1 =
      decide (u ∈ (db.exec fault env (.isMember r u) w).2.rooms.members r) := rfl
  rw [hanswer, Database.exec_rooms, Op.onRooms, RoomManager.ensure]
  split
  · rename_i hr
    rw [hagrees r hr]
  · rw [Database.answer_of_not_fails hlist, db.listRoomMembers_ok]
    simp [RoomManager.load, RoomManager.members]

def clubVisit : List Input :=
  [ask 1 (registerReq "alice" "wonder"), ask 1 (loginReq "alice" "wonder"),
    ask 1 (createRoomReq "club"), ask 1 (leaveRoomReq 1), ask 1 (joinRoomReq 1)]

theorem room_cache_survives_clubVisit :
    1 ∈ (tables.serveAll (failing [8]) clubEnv .empty clubVisit).state.rooms.loaded ∧
      CacheAgrees (tables.serveAll (failing [8]) clubEnv .empty clubVisit).state := by
  have hrun : 1 ∈ (tables.serveAll (failing [8]) clubEnv .empty clubVisit).state.rooms.loaded ∧
      (tables.serveAll (failing [8]) clubEnv .empty clubVisit).log.all
        (fun e => e.op.keepsUp (failing [8]) e.before) = true := by decide +kernel
  have hsurvives := room_cache_survives tables (failing [8]) clubEnv .empty clubVisit
  generalize tables.serveAll (failing [8]) clubEnv .empty clubVisit = h at hrun hsurvives ⊢
  exact ⟨hrun.1, (hsurvives (List.all_eq_true.mp hrun.2)).1⟩

theorem room_cache_astray :
    (tables.serveAll (failing [7]) clubEnv .empty (clubVisit.take 4)).state.rooms.members 1 = ∅ ∧
      (tables.serveAll (failing [7]) clubEnv .empty (clubVisit.take 4)).state.store.members 1 =
        {1} ∧
      ¬CacheAgrees (tables.serveAll (failing [7]) clubEnv .empty (clubVisit.take 4)).state := by
  -- Leaving the room fails, and Alice is gone from the cache only.
  have hrun : 1 ∈ (tables.serveAll (failing [7]) clubEnv .empty
    (clubVisit.take 4)).state.rooms.loaded ∧
      (tables.serveAll (failing [7]) clubEnv .empty (clubVisit.take 4)).state.rooms.members 1 = ∅ ∧
      (tables.serveAll (failing [7]) clubEnv .empty (clubVisit.take 4)).state.store.members 1 =
        {1} := by
    decide +kernel
  generalize (tables.serveAll (failing [7]) clubEnv .empty (clubVisit.take 4)).state = w at hrun ⊢
  obtain ⟨hloaded, hcache, hstore⟩ := hrun
  refine ⟨hcache, hstore, fun hagrees => ?_⟩
  have heq := hagrees 1 hloaded
  rw [hcache, hstore] at heq
  exact absurd heq (by decide)

end Runs

end ChatServer
