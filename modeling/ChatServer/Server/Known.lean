import Mathlib.Data.Set.Insert
import ChatServer.Server.Identity
import ChatServer.Server.RoomCache

namespace ChatServer

open Lib Lib.Prog

def World.hasUser (w : World) (u : Nat) : Bool := (w.store.findUserById u).isSome

abbrev Known := Set Nat

namespace Known

def allows (t : Known) : Op → Prop
  | .setUserId _ u => u = 0 ∨ u ∈ t
  | .cachePut _ info => info.userId ∈ t
  | .repo (.joinRoom _ u) => u ∈ t
  | .repo (.insertDm _ u _ _) => u ∈ t
  | _ => True

def after (t : Known) : (o : Op) → o.Ret → Known
  | .userId _, u => {v | v ∈ t ∨ (v = u ∧ u ≠ 0)}
  | .validate _, some info => insert info.userId t
  | .repo (.findUserByUsername _), .ok (some user) => insert user.id t
  | .repo (.findUserById u), some _ => insert u t
  | _, _ => t

theorem subset_after (t : Known) (o : Op) (r : o.Ret) : t ⊆ t.after o r := by
  intro u hu
  unfold after
  split
  · exact .inl hu
  · exact .inr hu
  · exact .inr hu
  · exact .inr hu
  · exact hu

end Known

def knowing : Contract Op.Ret Known where
  allows := Known.allows
  next t o r t' := t' = t.after o r

section Programs

variable {env : Env} {c : Nat}

theorem knowing_neutral (c : Nat) (K : Known) :
    Neutral knowing (fun t => K ⊆ t) c [.own, .reply, .ident, .session, .validate, .bind,
      .unbind, .close, .dm, .storeRoomMsg, .roomMsg, .queue, .replay] := by
  rintro o ⟨hk, -⟩ t ht
  refine ⟨?_, ?_⟩
  · change Known.allows t o
    unfold Known.allows
    split <;> trivial
  · rintro r t' rfl
    exact ⟨ht.trans (t.subset_after o r), trivial⟩

theorem requireAuth_knowing (req : Json) (id : Option Int) (t : Known) :
    (handlers.requireAuth c req id).Follows knowing t (fun uid t' => uid = 0 ∨ uid ∈ t')
    (fun _ => True) := by
  have hsend (j : Json) (t : Known) :
      ((handlers.send c j).bind fun _ => (.ret 0 : ServerM Nat)).Follows knowing t
        (fun uid t' => uid = 0 ∨ uid ∈ t') (fun _ => True) := by
    refine ⟨trivial, ?_⟩
    rintro r t' rfl
    exact .inl rfl
  refine ⟨trivial, ?_⟩
  rintro uid t' rfl
  dsimp only [ret_bind]
  split
  · rename_i hne
    exact .inr (.inr ⟨rfl, hne⟩)
  · split
    · exact hsend _ _
    · refine ⟨trivial, ?_⟩
      rintro info t' rfl
      cases info with
      | none => exact hsend _ _
      | some info =>
        refine ⟨.inr (Set.mem_insert ..), ?_⟩
        rintro r t' rfl
        refine ⟨trivial, ?_⟩
        rintro r t' rfl
        dsimp only [ret_bind]
        apply (follows_bind ..).mpr
        have hbind : Uses c [.bind, .replay] (Presence.bind info.userId c) := by simp
        apply (hbind.keeps (knowing_neutral c {info.userId}) (by decide) _ _).mono
        · exact fun _ t' h => .inr (h rfl)
        · exact fun _ _ => trivial
        · exact Set.singleton_subset_iff.mpr (Set.mem_insert ..)

theorem withAuth_knowing {req : Json} {id : Option Int} {act : Nat → ServerM Unit}
    (hact : ∀ uid, Keeps knowing (fun t => {uid} ⊆ t) (act uid)) :
    Keeps knowing (fun t => ∅ ⊆ t) (handlers.withAuth c req id act) := by
  intro t _
  apply (follows_bind ..).mpr
  apply (requireAuth_knowing req id t).mono
  · intro uid t' h
    split
    · exact Set.empty_subset _
    · rename_i hne
      apply (hact uid t' (Set.singleton_subset_iff.mpr (h.resolve_left hne))).mono
      · exact fun _ _ _ => Set.empty_subset _
      · exact fun _ _ => Set.empty_subset _
  · exact fun _ _ => Set.empty_subset _

theorem handleLogin_knowing (req : Json) (id : Option Int) :
    Keeps knowing (fun t => ∅ ⊆ t) (handlers.handleLogin env c req id) := by
  have hks := knowing_neutral c ∅
  have hsend := handlers.send_keeps hks (by decide)
  intro t ht
  refine ⟨trivial, ?_⟩
  rintro found t' rfl
  rcases found with e | (_ | u)
  · exact ht
  · exact hsend _ _ ht
  · dsimp only [ret_bind]
    split
    · apply (follows_bind ..).mpr
      refine ⟨trivial, ?_⟩
      rintro bytes t' rfl
      refine ⟨trivial, ?_⟩
      rintro now t' rfl
      refine ⟨Set.mem_insert .., ?_⟩
      rintro r t' rfl
      refine ⟨trivial, ?_⟩
      rintro r t' rfl
      refine ⟨.inr (Set.mem_insert ..), ?_⟩
      rintro r t' rfl
      refine ⟨trivial, ?_⟩
      rintro r t' rfl
      dsimp only [ret_bind]
      have hbind : Uses c [.bind, .replay] (Presence.bind u.id c) := by simp
      exact (hbind.keeps hks (by decide)).bind (fun _ => hsend _) _ (Set.empty_subset _)
    · exact hsend _ _ (Set.empty_subset _)

theorem handleLogout_knowing (req : Json) (id : Option Int) :
    Keeps knowing (fun t => ∅ ⊆ t) (handlers.handleLogout c req id) := by
  refine handlers.handleLogout_keeps (knowing_neutral c ∅) (by decide) ?_ req id
  exact fun t _ => ⟨.inl rfl, fun _ t' _ => ⟨Set.empty_subset t', trivial⟩⟩

theorem handleSendDm_knowing (req : Json) (id : Option Int) :
    Keeps knowing (fun t => ∅ ⊆ t) (handlers.handleSendDm env c req id) := by
  apply withAuth_knowing
  intro sender
  have hks := knowing_neutral c {sender}
  have hsend := handlers.send_keeps hks (by decide)
  dsimp only
  split
  · exact hsend _
  · split
    · exact hsend _
    · intro t ht
      refine ⟨trivial, ?_⟩
      rintro found t' rfl
      cases found with
      | none => exact hsend _ _ ht
      | some _ =>
        have hrest (id' : Nat) := handlers.sentReply_keeps hks (by decide) id
          (makeError id errcode.kInternal "failed to persist message") id'
        dsimp only [ret_bind]
        apply (follows_bind ..).mpr
        refine ⟨trivial, ?_⟩
        rintro now t' rfl
        -- the receiver has just been found
        refine ⟨Set.mem_insert .., ?_⟩
        rintro stored t' rfl
        have hknown := ht.trans (Set.subset_insert (toU64 (getI64 req "receiver_id" 0)) t)
        cases stored with
        | none => exact hrest 0 _ hknown
        | some id' =>
          refine ⟨trivial, ?_⟩
          rintro conns t' rfl
          dsimp only [ret_bind]
          apply (Uses.keeps (show Uses c [.dm, .queue] _ from Uses.bind ?_ fun _ => ?_) hks
            (by decide) _ hknown).mono
          · exact fun a t' h => hrest a t' h
          · exact fun _ h => h
          · simp
          · simp

theorem knowing_cache (K : Known) {o : Op} (ho : ∀ r u, o ≠ .repo (.joinRoom r u))
    (hk : o.kind = .membership) : Answers knowing (fun t => K ⊆ t) o fun _ => True := by
  intro t ht
  refine ⟨?_, ?_⟩
  · change Known.allows t o
    unfold Known.allows
    split <;> simp_all
  · rintro r t' rfl
    exact ⟨ht.trans (t.subset_after o r), trivial⟩

theorem joinRoom_knowing {α : Type} {uid rid : Nat} {k : Bool → ServerM α}
    (hk : ∀ joined, Keeps knowing (fun t => {uid} ⊆ t) (k joined)) :
    Keeps knowing (fun t => {uid} ⊆ t) (.op (.repo (.joinRoom rid uid)) k) := by
  refine Answers.op (F := fun _ => True) ?_ fun joined _ => hk joined
  intro t ht
  refine ⟨ht rfl, ?_⟩
  rintro r t' rfl
  exact ⟨ht, trivial⟩

theorem enterRoom_knowing (id : Option Int) (name : String) (rid uid : Nat) :
    Keeps knowing (fun t => {uid} ⊆ t) (handlers.enterRoom c id name rid uid) := by
  apply joinRoom_knowing
  intro joined
  refine (knowing_cache {uid} (o := .onJoin rid uid) (by simp) rfl).op fun _ _ => ?_
  exact handlers.send_keeps (knowing_neutral c {uid}) (by decide) _

theorem handleCreateRoom_knowing (req : Json) (id : Option Int) :
    Keeps knowing (fun t => ∅ ⊆ t) (handlers.handleCreateRoom c req id) := by
  apply withAuth_knowing
  intro uid
  have hks := knowing_neutral c {uid}
  have hsend := handlers.send_keeps hks (by decide)
  dsimp only
  split
  · exact hsend _
  · refine hks.op (o := .repo (.createRoom (getStr req "name"))) (by simp) fun rid => ?_
    cases rid with
    | some rid => exact enterRoom_knowing id _ rid uid
    | none =>
      refine hks.op (o := .repo (.findRoomByName (getStr req "name"))) (by simp) fun found => ?_
      rcases found with e | (_ | room)
      · exact keeps_throw
      · exact hsend _
      · exact enterRoom_knowing id _ room.id uid

theorem handleJoinRoom_knowing (req : Json) (id : Option Int) :
    Keeps knowing (fun t => ∅ ⊆ t) (handlers.handleJoinRoom c req id) := by
  apply withAuth_knowing
  intro uid
  have hks := knowing_neutral c {uid}
  have hsend := handlers.send_keeps hks (by decide)
  refine ((handlers.roomOf_uses req).keeps hks (by decide)).bind fun rid => ?_
  split
  · exact hsend _
  · apply joinRoom_knowing
    intro joined
    cases joined with
    | true => exact (knowing_cache {uid} (o := .onJoin rid uid) (by simp) rfl).op fun _ _ => hsend _
    | false => exact hsend _

theorem handleLeaveRoom_knowing (req : Json) (id : Option Int) :
    Keeps knowing (fun t => ∅ ⊆ t) (handlers.handleLeaveRoom c req id) := by
  apply withAuth_knowing
  intro uid
  have hsend := handlers.send_keeps (knowing_neutral c {uid}) (by decide)
  dsimp only
  split
  · exact hsend _
  · refine (knowing_cache {uid} (o := .repo (.leaveRoom _ uid)) (by simp) rfl).op fun _ _ => ?_
    exact (knowing_cache {uid} (o := .onLeave _ uid) (by simp) rfl).op fun _ _ => hsend _

theorem body_knowing (env : Env) (input : Input) :
    Keeps knowing (fun t => ∅ ⊆ t) (body env input) := by
  cases input with
  | close c => exact close_uses.keeps (knowing_neutral c ∅) (by decide)
  | request c payload =>
    have hks := knowing_neutral c ∅
    have hauth (req : Json) :
        Keeps knowing (fun t => ∅ ⊆ t) (handlers.requireAuth c req (requestId req)) :=
      fun t _ => (requireAuth_knowing req _ t).mono (fun _ _ _ => Set.empty_subset _) fun _ _ =>
        Set.empty_subset _
    exact handlers.dispatch_keeps hks (by decide) (fun req _ => hauth req) (fun req _ _ =>
      handleLogin_knowing req _)
      (fun req _ => handleLogout_knowing req _) (fun req _ => handleSendDm_knowing req _)
      (fun req _ => (handlers.handleSendRoom_acts env).keeps hks (by decide) (hauth req))
      (fun req _ => handleCreateRoom_knowing req _) (fun req _ => handleJoinRoom_knowing req _)
      (fun req _ => handleLeaveRoom_knowing req _)

end Programs

section Accounts

variable {env : Env} {o : Op} {w : World} {u : Nat}

theorem memExec_hasUser_eq (ho : ∀ n p, o ≠ .repo (.createUser n p)) (u : Nat) :
    (memExec env o w).2.hasUser u = w.hasUser u := by
  unfold World.hasUser Store.findUserById
  cases o with
  | repo o =>
    rw [memExec_repo]
    cases o with
    | createUser n p => exact absurd rfl (ho n p)
    | updateLastSeen id ts =>
      simp only [memory, World.setStore, Store.updateLastSeen]
      split
      · rename_i user huser
        by_cases hu : u = id
        · rw [hu, AList.lookup_insert, huser]
          rfl
        · rw [AList.lookup_insert_ne hu]
      · rfl
    | createRoom n =>
      simp only [memory, Store.createRoom]
      split <;> rfl
    | joinRoom r v =>
      simp only [memory, World.setStore, Store.joinRoom]
      split <;> rfl
    | leaveRoom r v =>
      simp only [memory, World.setStore, Store.leaveRoom]
      split <;> rfl
    | drainUndelivered v =>
      simp only [memory, World.setStore, Store.drainUndelivered]
      split <;> rfl
    | _ => rfl
  | _ => rw [memExec_store env _ _ (by simp)]

theorem memExec_hasUser (h : w.hasUser u = true) : (memExec env o w).2.hasUser u = true := by
  by_cases ho : ∃ n p, o = .repo (.createUser n p)
  · obtain ⟨n, p, rfl⟩ := ho
    unfold World.hasUser Store.findUserById at h ⊢
    rw [memExec_repo]
    simp only [memory, Store.createUser]
    split
    · exact h
    · by_cases hu : u = w.store.nextUserId
      · rw [hu, AList.lookup_insert]
        rfl
      · rwa [AList.lookup_insert_ne hu]
  · rwa [memExec_hasUser_eq (by simpa using ho)]

structure Peopled (w : World) (t : Known) : Prop where
  users : w.store.UsersOk
  conns : ∀ c, (w.conns c).userId ≠ 0 → w.hasUser (w.conns c).userId = true
  sessions : ∀ tok info, w.sessions.lookup tok = some info → w.hasUser info.userId = true
  members : ∀ r, ∀ u ∈ w.store.members r, w.hasUser u = true
  known : ∀ u ∈ t, w.hasUser u = true

theorem peopled_init : Peopled .init ∅ where
  users := Store.usersOk_empty
  conns c h := absurd rfl h
  sessions tok info h := by simp [World.init] at h
  members r u h := by simp [World.init, Store.empty, Store.members] at h
  known u h := absurd h (Set.notMem_empty u)

theorem Peopled.known_after {t : Known} (h : Peopled w t) (hu : u ∈ t.after o (memExec env o w).1) :
    w.hasUser u = true := by
  cases o with
  | userId c =>
    rcases hu with hu | ⟨rfl, hne⟩
    · exact h.known u hu
    · exact h.conns c hne
  | validate tok =>
    cases hv : (memExec env (.validate tok) w).1 with
    | none =>
      rw [hv] at hu
      exact h.known u hu
    | some info =>
      rw [hv] at hu
      rcases hu with rfl | hu
      · exact h.sessions tok info (SessionManager.validate_some.mp hv).1
      · exact h.known u hu
  | repo o =>
    cases o with
    | findUserByUsername n =>
      cases hf : (memExec env (.repo (.findUserByUsername n)) w).1 with
      | error _ =>
        rw [hf] at hu
        exact h.known u hu
      | ok found =>
        rw [hf] at hu
        cases found with
        | none => exact h.known u hu
        | some user =>
          rcases hu with rfl | hu
          · rw [World.hasUser, (h.users.find hf).2.1]
            rfl
          · exact h.known u hu
    | findUserById v =>
      cases hf : (memExec env (.repo (.findUserById v)) w).1 with
      | none =>
        rw [hf] at hu
        exact h.known u hu
      | some user =>
        rw [hf] at hu
        rcases hu with rfl | hu
        · exact Option.isSome_iff_exists.mpr ⟨user, hf⟩
        · exact h.known u hu
    | _ => exact h.known u hu
  | _ => exact h.known u hu

theorem Peopled.op {t : Known} (h : Peopled w t) (ha : t.allows o) :
    Peopled (memExec env o w).2 (t.after o (memExec env o w).1) where
  users := memExec_usersOk o h.users
  conns c hc := by
    by_cases ho : ∃ v, o = .setUserId c v
    · obtain ⟨v, rfl⟩ := ho
      have hv : ((memExec env (.setUserId c v) w).2.conns c).userId = v := by
        simp [exec, World.setConn]
      rw [hv] at hc ⊢
      exact memExec_hasUser (h.known v (ha.resolve_left hc))
    · rw [memExec_userId (by simpa using ho)] at hc ⊢
      exact memExec_hasUser (h.conns c hc)
  sessions tok info hl := by
    change (memExec env o w).2.ident.sessions.lookup tok = some info at hl
    rw [memExec_ident] at hl
    apply memExec_hasUser
    cases o with
    | cachePut t' i' =>
      by_cases ht : tok = t'
      · subst ht
        simp only [Op.onIdent, Ident.issue, AList.lookup_insert, Option.some.injEq] at hl
        subst hl
        exact h.known _ ha
      · simp only [Op.onIdent, Ident.issue, AList.lookup_insert_ne ht] at hl
        exact h.sessions tok info hl
    | cacheErase t' =>
      by_cases ht : tok = t'
      · subst ht
        simp [Op.onIdent, Ident.revoke] at hl
      · simp only [Op.onIdent, Ident.revoke, AList.lookup_erase_ne ht] at hl
        exact h.sessions tok info hl
    | validate t' => exact h.sessions tok info (SessionManager.lookup_validate hl)
    | _ => exact h.sessions tok info hl
  members r u hu := by
    rw [memExec_members] at hu
    apply memExec_hasUser
    cases o with
    | repo o =>
      cases o with
      | joinRoom r' v =>
        simp only [Op.onMembers] at hu
        split at hu
        · rcases Finset.mem_insert.mp hu with rfl | hu
          · exact h.known u ha
          · exact h.members r u hu
        · exact h.members r u hu
      | leaveRoom r' v =>
        simp only [Op.onMembers] at hu
        split at hu
        · exact h.members r u (Finset.mem_of_mem_erase hu)
        · exact h.members r u hu
      | _ => exact h.members r u hu
    | _ => exact h.members r u hu
  known u hu := memExec_hasUser (h.known_after hu)

end Accounts

end ChatServer
