import Mathlib.Data.Set.Insert
import ChatServer.Db.Integrity
import ChatServer.Server.Delivery

namespace ChatServer

open Lib Lib.Prog

/-- Message ids with the users a task may still queue them for. -/
abbrev Tickets := Set (Nat × Nat)

namespace Tickets

def allows (t : Tickets) : Op → Prop
  | .repo (.enqueueUndelivered id u) => (id, u) ∈ t
  | _ => True

def after (t : Tickets) : (o : Op) → o.Ret → Tickets
  | .repo (.insertDm _ _ _ _), some id => t ∪ {p | p.1 = id}
  | .repo (.insertRoomMsg _ _ _ _), some id => t ∪ {p | p.1 = id}
  | .repo (.enqueueUndelivered id u), _ => t \ {(id, u)}
  | _, _ => t

end Tickets

def walksOnce : (o : Op) → o.Ret → Prop
  | .membersOf _, us => us.Nodup
  | _, _ => True

def ticketing : Contract Op.Ret Tickets where
  allows := Tickets.allows
  next t o r t' := t' = t.after o r ∧ walksOnce o r

theorem memExec_walksOnce (env : Env) (o : Op) (w : World) : walksOnce o (memExec env o w).1 := by
  cases o with
  | membersOf r => exact env.order_nodup ..
  | _ => trivial

section Programs

variable {c : Nat} {t : Tickets}

theorem ticketing_fixed (c : Nat) (t : Tickets) :
    Neutral ticketing (fun t' => t' = t) c [.own, .dm, .roomMsg, .replay] := by
  rintro o ⟨hk, -⟩ t' rfl
  refine ⟨?_, ?_⟩
  · change Tickets.allows t' o
    unfold Tickets.allows
    split
    · simp at hk
    · trivial
  · rintro r t'' ⟨rfl, -⟩
    refine ⟨?_, trivial⟩
    unfold Tickets.after
    split <;> simp at hk ⊢

theorem ticketing_free (c : Nat) :
    Neutral ticketing (fun _ => True) c [.own, .reply, .ident, .assume, .session,
      .validate, .issue, .bind, .unbind, .close, .storeDm, .dm, .storeRoomMsg, .roomMsg, .replay,
      .membership] := by
  rintro o ⟨hk, -⟩ t -
  refine ⟨?_, fun _ _ _ => ⟨trivial, trivial⟩⟩
  change Tickets.allows t o
  unfold Tickets.allows
  split
  · simp at hk
  · trivial

theorem sendEach_ticketing (c : Nat) {caller : Caller} (u : Nat) (event : Json) (cs : List Nat) :
    (sendEach caller u event cs).Follows ticketing t (fun _ t' => t' = t) (fun t' => t' = t) := by
  have huses : Uses c [.dm, .roomMsg, .replay] (sendEach caller u event cs) :=
    sendEach_uses (by cases caller <;> simp) u event cs
  exact huses.keeps (ticketing_fixed c t) (by decide) t rfl

theorem sendDm_ticketing (sender receiver : Nat) (content : String) :
    Keeps ticketing (fun _ => True) (MessageRouter.sendDm sender receiver content) := by
  have hks := ticketing_free 0
  refine hks.op (o := .now) (by simp) fun ts => ?_
  intro t _
  refine ⟨trivial, ?_⟩
  rintro stored t' ⟨rfl, -⟩
  cases stored with
  | none => trivial
  | some id =>
    refine ⟨trivial, ?_⟩
    rintro conns t' ⟨rfl, -⟩
    dsimp only [ret_bind]
    have hecho : Uses 0 [.dm] (do
        let own ← call (.connectionsOf .echo sender)
        sendEach .echo sender
          (makeEventMessage (toI64 id) (toI64 sender) (some (toI64 receiver)) none content ts) own
        pure id) := by
      simp
    apply (follows_bind ..).mpr
    split
    · refine ⟨.inr rfl, ?_⟩
      rintro r t' ⟨rfl, -⟩
      exact hecho.keeps hks (by decide) _ trivial
    · have hsend : Uses 0 [.dm] (do
          sendEach .deliver receiver
            (makeEventMessage (toI64 id) (toI64 sender) (some (toI64 receiver)) none content
              ts) conns
          call (.repo (.updateMessageStatus id 1))) := by
        simp
      apply (hsend.keeps hks (by decide) _ trivial).mono
      · exact fun _ t' _ => hecho.keeps hks (by decide) t' trivial
      · exact fun _ h => h

theorem fanOut_ticketing {id sender : Nat} {event : Json} {us : List Nat} (hnodup : us.Nodup)
    (hmay : ∀ u ∈ us, (id, u) ∈ t) :
    (MessageRouter.fanOut id sender event us).Follows ticketing t (fun _ _ => True)
    (fun _ => True) := by
  induction us generalizing t with
  | nil => trivial
  | cons u us ih =>
    obtain ⟨hu, hus⟩ := List.nodup_cons.mp hnodup
    have hrest : ∀ v ∈ us, (id, v) ∈ t := fun v hv => hmay v (List.mem_cons_of_mem _ hv)
    refine ⟨trivial, ?_⟩
    rintro conns t' ⟨rfl, -⟩
    dsimp only [ret_bind]
    apply (follows_bind ..).mpr
    split
    · split
      · refine ⟨hmay u (List.mem_cons_self ..), ?_⟩
        rintro r t' ⟨rfl, -⟩
        apply ih hus
        intro v hv
        refine ⟨hrest v hv, ?_⟩
        rintro ⟨⟩
        exact hu hv
      · exact ih hus hrest
    · apply (sendEach_ticketing 0 u event conns).mono
      · rintro _ t' rfl
        exact ih hus hrest
      · exact fun _ _ => trivial

theorem sendRoom_ticketing (sender room : Nat) (content : String) :
    Keeps ticketing (fun _ => True) (MessageRouter.sendRoom sender room content) := by
  have hks := ticketing_free 0
  refine hks.op (o := .isMember room sender) (by simp) fun isMember => ?_
  cases isMember with
  | false => exact keeps_ret 0
  | true =>
    refine hks.op (o := .now) (by simp) fun ts => ?_
    intro t _
    refine ⟨trivial, ?_⟩
    rintro stored t' ⟨rfl, -⟩
    cases stored with
    | none => trivial
    | some id =>
      refine ⟨trivial, ?_⟩
      rintro members t' ⟨rfl, hnodup⟩
      dsimp only [ret_bind]
      apply (follows_bind ..).mpr
      refine (fanOut_ticketing hnodup ?_).mono ?_ ?_
      · exact fun u _ => .inr rfl
      · exact fun _ _ _ => trivial
      · exact fun _ h => h

theorem body_ticketing (env : Env) (input : Input) :
    Keeps ticketing (fun _ => True) (body env input) := by
  cases input with
  | close c => exact close_uses.keeps (ticketing_free c) (by decide)
  | request c payload =>
    refine handlers.dispatch_keeps_routing (ticketing_free c) (by decide) (fun u => ?_)
      sendDm_ticketing
      sendRoom_ticketing
    have hbind : Uses c [.bind, .replay, .own] (Presence.bind u c) := by simp
    exact hbind.keeps (ticketing_free c) (by decide)

end Programs

section Store

variable (env : Env) (o : RepoOp) (w : World)

theorem memory_sound {w : World} (h : w.store.Sound) : (memory env o w).2.store.Sound := by
  cases o with
  | createUser n p => exact h.createUser n p _
  | updateLastSeen id ts => exact h.updateLastSeen id ts
  | insertSession tok uid ts => exact h.insertSession tok uid ts
  | deleteSession tok => exact h.deleteSession tok
  | createRoom n => exact h.createRoom n _
  | joinRoom r u => exact h.joinRoom r u
  | leaveRoom r u => exact h.leaveRoom r u
  | insertDm a b content ts => exact h.addMessage rfl (by simp)
  | insertRoomMsg a r content ts => exact h.addMessage rfl (by simp)
  | updateMessageStatus id st => exact h.updateMessageStatus id st
  | drainUndelivered u => exact h.drainUndelivered u
  | enqueueUndelivered id u => exact { h with }
  | _ => exact h

theorem memExec_sound (o : Op) {w : World} (h : w.store.Sound) :
    (memExec env o w).2.store.Sound := by
  cases o with
  | repo o => exact memory_sound env o h
  | _ => rwa [memExec_store env _ _ (by simp)]

theorem memory_ids :
    (memory env o w).2.store.messages.map Message.id =
      w.store.messages.map Message.id ++ (o.stores w.store).toList.map Message.id := by
  have hid (ms : List Message) : (ms.map Message.core).map Message.id = ms.map Message.id := by
    rw [List.map_map]
    rfl
  rw [← hid, core_messages, List.map_append, hid]

end Store

structure Ticketed (s : Store) (ts : Nat → Tickets) : Prop where
  sound : s.Sound
  queued : s.Queued
  unused : ∀ i, ∀ p ∈ ts i, p.1 ∉ s.queue p.2
  stored : ∀ i, ∀ p ∈ ts i, ∃ m ∈ s.messages, m.id = p.1
  single : ∀ i j p, p ∈ ts i → p ∈ ts j → i = j

namespace Ticketed

variable {env : Env} {w : World} {ts : Nat → Tickets}

theorem empty : Ticketed .empty fun _ => ∅ where
  sound := Store.sound_empty
  queued := Store.queued_empty
  unused _ _ h := absurd h (Set.notMem_empty _)
  stored _ _ h := absurd h (Set.notMem_empty _)
  single _ _ _ h := absurd h (Set.notMem_empty _)

theorem mono (h : Ticketed w.store ts) {ts' : Nat → Tickets} (hsub : ∀ i, ts' i ⊆ ts i) :
    Ticketed w.store ts' where
  sound := h.sound
  queued := h.queued
  unused i p hp := h.unused i p (hsub i hp)
  stored i p hp := h.stored i p (hsub i hp)
  single i j p hi hj := h.single i j p (hsub i hi) (hsub j hj)

theorem shrink (h : Ticketed w.store ts) (o : RepoOp)
    (hqueue : ∀ u, ((memory env o w).2.store.queue u).Sublist (w.store.queue u)) :
    Ticketed (memory env o w).2.store ts := by
  have hkept {id : Nat} (hm : ∃ m ∈ w.store.messages, m.id = id) :
      ∃ m ∈ (memory env o w).2.store.messages, m.id = id := by
    rw [← List.mem_map] at hm ⊢
    rw [memory_ids]
    exact List.mem_append_left _ hm
  exact {
    sound := memory_sound env o h.sound
    queued := ⟨fun u => (h.queued.once u).sublist (hqueue u),
      fun u id hid => hkept (h.queued.stored u id ((hqueue u).subset hid))⟩
    unused := fun i p hp hin => h.unused i p hp ((hqueue p.2).subset hin)
    stored := fun i p hp => hkept (h.stored i p hp)
    single := h.single }

theorem store (h : Ticketed w.store ts) (i : Nat) {o : RepoOp} {m : Message}
    (hm : o.stores w.store = some m) (hid : m.id = w.store.nextMsgId) :
    Ticketed (memory env o w).2.store
      (Function.update ts i (ts i ∪ {p | p.1 = w.store.nextMsgId})) := by
  have hqueue (u : Nat) : (memory env o w).2.store.queue u = w.store.queue u := by
    rw [memory_queue]
    cases o <;> first | rfl | cases hm
  have hnew {id : Nat} (hid : ∃ m ∈ w.store.messages, m.id = id) : id ≠ w.store.nextMsgId := by
    obtain ⟨m, hm, rfl⟩ := hid
    exact Nat.ne_of_lt (h.sound.bounded m hm).2
  have hadded : ∃ m ∈ (memory env o w).2.store.messages, m.id = w.store.nextMsgId := by
    rw [← List.mem_map, memory_ids, hm]
    exact List.mem_append_right _ (by simp [hid])
  have hold : Ticketed (memory env o w).2.store ts := h.shrink o fun u => by rw [hqueue]
  have hcases {j : Nat} {p : Nat × Nat}
      (hp : p ∈ Function.update ts i (ts i ∪ {p | p.1 = w.store.nextMsgId}) j) :
      p ∈ ts j ∨ (j = i ∧ p.1 = w.store.nextMsgId) := by
    by_cases hj : j = i
    · subst hj
      rw [Function.update_self] at hp
      exact hp.imp_right fun h => ⟨rfl, h⟩
    · rw [Function.update_of_ne hj] at hp
      exact .inl hp
  refine { hold with unused := ?_, stored := ?_, single := ?_ }
  · intro j p hp
    rcases hcases hp with hp | ⟨-, hp⟩
    · exact hold.unused j p hp
    · rw [hp, hqueue]
      exact fun hin => hnew (h.queued.stored p.2 _ hin) rfl
  · intro j p hp
    rcases hcases hp with hp | ⟨-, hp⟩
    · exact hold.stored j p hp
    · rwa [hp]
  · intro j k p hj hk
    rcases hcases hj with hoj | ⟨hji, hnj⟩ <;> rcases hcases hk with hok | ⟨hki, hnk⟩
    · exact h.single j k p hoj hok
    · exact absurd hnk (hnew (h.stored j p hoj))
    · exact absurd hnj (hnew (h.stored k p hok))
    · rw [hji, hki]

theorem enqueue (h : Ticketed w.store ts) (i : Nat) {id u : Nat} (ht : (id, u) ∈ ts i) :
    Ticketed (memory env (.enqueueUndelivered id u) w).2.store
      (Function.update ts i (ts i \ {(id, u)})) := by
  have hqueue (v : Nat) : (memory env (.enqueueUndelivered id u) w).2.store.queue v =
      if u = v then w.store.queue v ++ [id] else w.store.queue v := memory_queue ..
  have hcases {j : Nat} {p : Nat × Nat} (hp : p ∈ Function.update ts i (ts i \ {(id, u)}) j) :
      p ∈ ts j ∧ p ≠ (id, u) := by
    by_cases hj : j = i
    · subst hj
      rw [Function.update_self] at hp
      exact hp
    · rw [Function.update_of_ne hj] at hp
      refine ⟨hp, ?_⟩
      rintro rfl
      exact hj (h.single j i _ hp ht)
  refine ⟨memory_sound env _ h.sound, ⟨?_, ?_⟩, ?_, ?_, ?_⟩
  · intro v
    rw [hqueue]
    split
    · rename_i heq
      subst heq
      refine (h.queued.once u).append (List.nodup_singleton id) ?_
      simpa [List.disjoint_singleton] using h.unused i _ ht
    · exact h.queued.once v
  · intro v id' hid'
    rw [hqueue] at hid'
    split at hid'
    · rcases List.mem_append.mp hid' with hid' | hid'
      · exact h.queued.stored v id' hid'
      · rw [List.mem_singleton.mp hid']
        exact h.stored i _ ht
    · exact h.queued.stored v id' hid'
  · intro j p hp hin
    obtain ⟨hold, hne⟩ := hcases hp
    rw [hqueue] at hin
    split at hin
    · rename_i heq
      rcases List.mem_append.mp hin with hin | hin
      · exact h.unused j p hold hin
      · exact hne (Prod.ext (List.mem_singleton.mp hin) heq.symm)
    · exact h.unused j p hold hin
  · intro j p hp
    exact h.stored j p (hcases hp).1
  · intro j k p hj hk
    exact h.single j k p (hcases hj).1 (hcases hk).1

theorem op (h : Ticketed w.store ts) (i : Nat) (o : Op) (ha : (ts i).allows o) :
    Ticketed (memExec env o w).2.store
      (Function.update ts i ((ts i).after o (memExec env o w).1)) := by
  cases o with
  | repo o =>
    rw [memExec_repo]
    cases o with
    | insertDm a b content ts' => exact h.store i rfl rfl
    | insertRoomMsg a r content ts' => exact h.store i rfl rfl
    | enqueueUndelivered id u => exact h.enqueue i ha
    | drainUndelivered u =>
      rw [show Tickets.after _ _ _ = ts i from rfl, Function.update_eq_self]
      refine h.shrink _ fun v => ?_
      rw [memory_queue]
      simp only [RepoOp.onQueue]
      split
      · exact List.nil_sublist _
      · exact .refl _
    | _ =>
      rw [show Tickets.after _ _ _ = ts i from rfl, Function.update_eq_self]
      exact h.shrink _ fun v => by rw [memory_queue]; exact .refl _
  | _ =>
    rw [show Tickets.after _ _ _ = ts i from rfl, Function.update_eq_self]
    rwa [memExec_store env _ _ (by simp)]

end Ticketed

theorem ticketed_reachable {env : Env} {ok : Sys → Move Input → Prop} {g : Sys}
    (hg : Reachable env ok g) : ∃ ts, Ticketed g.hist.state.store ts := by
  suffices h : ∃ ts, Config.Tracked (fun _ => ticketing) (fun _ => True) g ts ∧
    Ticketed g.hist.state.store ts from
    h.imp fun _ h => h.2
  refine Config.Reach.invariant (fun g ts => Ticketed g.hist.state.store ts)
    (fun _ => ∅) (fun _ => ∅)
    (fun _ => trivial) Ticketed.empty (fun input => body_ticketing env input ∅ trivial) ?_ ?_ hg
  · intro g ts i input _ h _ _
    refine h.mono fun j => ?_
    by_cases hj : j = i
    · subst hj
      rw [Function.update_self]
      exact Set.empty_subset _
    · rw [Function.update_of_ne hj]
  · intro g ts i input o k _ h _ _ ha
    exact ⟨_, ⟨rfl, memExec_walksOnce ..⟩, h.op i o ha⟩

theorem store_integrity {env : Env} {g : Sys} (hg : Reachable env (fun _ _ => True) g) :
    g.hist.state.store.Sound ∧ g.hist.state.store.Queued ∧
      (∀ n, ∃ found, g.hist.state.store.findUserByUsername n = .ok found) ∧
      (∀ n, ∃ found, g.hist.state.store.findRoomByName n = .ok found) ∧
      (∀ k u, ∃ rooms, g.hist.state.store.listRoomsForUser (env.order k) u = .ok rooms) ∧
      ∀ u, (g.hist.state.store.drainUndelivered u).1.map Message.id =
        g.hist.state.store.queue u := by
  obtain ⟨ts, h⟩ := ticketed_reachable hg
  exact ⟨h.sound, h.queued, h.sound.findUserByUsername, h.sound.findRoomByName,
    fun _ u => h.sound.collectRooms u _, h.queued.drainUndelivered⟩

theorem store_integrity_mail :
    (serveAll mailEnv offlineMail).state.store.queue 2 = [1] ∧
      ((serveAll mailEnv offlineMail).state.store.drainUndelivered 2).1.map Message.id = [1] := by
  have hqueue : (serveAll mailEnv offlineMail).state.store.queue 2 = [1] := by decide +kernel
  obtain ⟨tasks, hg⟩ := serveAll_reachable mailEnv offlineMail
  generalize serveAll mailEnv offlineMail = h at hqueue hg
  exact ⟨hqueue, ((store_integrity hg).2.2.2.2.2 2).trans hqueue⟩

end ChatServer
