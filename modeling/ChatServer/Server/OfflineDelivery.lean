import Mathlib.Data.List.TakeWhile
import ChatServer.Server.Delivery
import ChatServer.Server.Mailbox

namespace ChatServer

open Lib Lib.Prog

theorem missed_quiet {u : Nat} {log : Log} {e : Event Input Op World}
    (h : e.op.news e.before u = []) :
    missed u (log ++ [e]) = if e.before.away u then missed u log else [] := by
  rw [missed_concat, h, List.append_nil]

section News

variable {env : Env} {w : World} {o : Op} {u : Nat} {p : Nat × Json}

theorem news_stored (h : p ∈ o.news w u) :
    ∃ ro m, o = .repo ro ∧ ro.stores w.store = some m ∧ m.core = m ∧ p = (m.id, m.event) ∧
      m.id = w.store.nextMsgId := by
  cases o with
  | repo o =>
    simp only [Op.news] at h
    split at h
    · cases o with
      | insertDm a b content ts => exact ⟨_, _, rfl, rfl, rfl, List.mem_singleton.mp h, rfl⟩
      | insertRoomMsg a r content ts => exact ⟨_, _, rfl, rfl, rfl, List.mem_singleton.mp h, rfl⟩
      | _ => cases h
    · cases h
  | _ => cases h

theorem news_rising : ((o.news w u).map Prod.fst).Pairwise (· < ·) := by
  cases o with
  | repo o =>
    simp only [Op.news]
    split
    · cases o.announces w.store <;> simp
    · exact List.Pairwise.nil
  | _ => exact List.Pairwise.nil

end News

def Store.Announced (s : Store) (p : Nat × Json) : Prop := ∃ m, s.Has m ∧ p = (m.id, m.event)

theorem Store.Announced.lt {s : Store} {p : Nat × Json} (h : s.Announced p) (hs : s.FreshIds) :
    p.1 < s.nextMsgId := by
  obtain ⟨m, hhas, rfl⟩ := h
  obtain ⟨m', hm', hcore⟩ := List.mem_map.mp hhas
  have hid : m'.id = m.id := by rw [Message.eq_of_core hcore]
  exact hid ▸ hs.lt hm'

theorem Store.Announced.find {s : Store} {p : Nat × Json} (h : s.Announced p) (hs : s.FreshIds) :
    ∃ m, s.findMessage p.1 = some m ∧ m.event = p.2 := by
  obtain ⟨m, hhas, rfl⟩ := h
  obtain ⟨m', hm', hcore⟩ := List.mem_map.mp hhas
  have heq := Message.eq_of_core hcore
  refine ⟨m', ?_, by rw [heq]; rfl⟩
  rw [← hs.find hm', heq]

theorem drain_events {s : Store} (hs : s.FreshIds) {u c : Nat} {ps : List (Nat × Json)}
    (hps : ∀ p ∈ ps, s.Announced p) (hq : s.queue u = ps.map Prod.fst) :
    (s.drainUndelivered u).1.map (fun m => (c, m.event)) = ps.map fun p => (c, p.2) := by
  rw [Store.drain_messages, hq]
  clear hq
  induction ps with
  | nil => rfl
  | cons p ps ih =>
    obtain ⟨m, hfind, hevent⟩ := (hps p (List.mem_cons_self ..)).find hs
    rw [List.map_cons, List.filterMap_cons, hfind, List.map_cons, List.map_cons, hevent,
      ih fun p hp => hps p (List.mem_cons_of_mem _ hp)]

structure Listed (h : Hist) (u : Nat) : Prop where
  announced : ∀ p ∈ missed u h.log, h.state.store.Announced p
  rising : ((missed u h.log).map Prod.fst).Pairwise (· < ·)

theorem Listed.record {env : Env} {h : Hist} {u : Nat} (hl : Listed h u)
    (hs : h.state.store.FreshIds) (i : Nat)
    (j : Input) (o : Op) : Listed (h.record (memExec env) i j o).2 u := by
  have hold {p : Nat × Json} (hp : p ∈ missed u h.log) :
      (memExec env o h.state).2.store.Announced p := by
    obtain ⟨m, hhas, rfl⟩ := hl.announced p hp
    exact ⟨m, memExec_has hhas, rfl⟩
  constructor
  · rw [History.record_log, History.record_state, missed_concat]
    split
    · intro p hp
      rcases List.mem_append.mp hp with hp | hp
      · exact hold hp
      · obtain ⟨ro, m, rfl, hstores, hcore, rfl, -⟩ := news_stored hp
        exact ⟨m, memExec_has_stores (hcore.symm ▸ hstores), rfl⟩
    · simp
  · rw [History.record_log, missed_concat]
    split
    · rw [List.map_append, List.pairwise_append]
      refine ⟨hl.rising, news_rising, ?_⟩
      intro a ha b hb
      obtain ⟨p, hp, rfl⟩ := List.mem_map.mp ha
      obtain ⟨q, hq, rfl⟩ := List.mem_map.mp hb
      obtain ⟨-, m, -, -, -, rfl, hid⟩ := news_stored hq
      rw [hid]
      exact (hl.announced p hp).lt hs
    · exact List.Pairwise.nil

def Mail.after (w : World) (t : Mail) : Op → Mail
  | .repo (.insertDm a b content ts) =>
    { t with
      msg := w.store.nextMsgId
      event := some
        (makeEventMessage (toI64 w.store.nextMsgId) (toI64 a) (some (toI64 b)) .none content ts)
      owed := {b} }
  | .repo (.insertRoomMsg a r content ts) =>
    { t with
      msg := w.store.nextMsgId
      event := some
        (makeEventMessage (toI64 w.store.nextMsgId) (toI64 a) .none (some (toI64 r)) content ts)
      owed := (w.store.members r).erase a
      room := some (r, w.store.members r) }
  | .repo (.joinRoom _ _) => { t with room := .none }
  | .repo (.leaveRoom _ _) => { t with room := .none }
  | .connectionsOf .replay _ => { t with replay := .pushing t.replay.left }
  | .connectionsOf _ u =>
      if w.slot u = ∅ then { t with offline := some u } else { t with owed := t.owed.erase u }
  | .repo (.enqueueUndelivered _ u) => { t with owed := t.owed.erase u }
  | .bindSlot u c =>
    if w.slot u = ∅ then
      { t with
        offline := .none
        replay := .woken u c ((w.store.drainUndelivered u).1.map fun m => (c, m.event)) }
    else { t with offline := .none }
  | .repo (.drainUndelivered u) =>
    { t with
      replay :=
        match t.replay with
        | .woken _ c left =>
            if (w.store.drainUndelivered u).1.isEmpty then .pushing [] else .drained u c left
        | replay => replay }
  | .sendFrame (.loop .replay _ _) _ _ => { t with replay := .pushing t.replay.left.tail }
  | _ => t

/-- The queues of the users that are away hold what they have missed, but for the message
that is being routed; and what the task has learnt is still so. -/
structure Held (h : Hist) (t : Mail) : Prop where
  ids : h.state.store.FreshIds
  listed : ∀ u, Listed h u
  queued : ∀ u, h.state.away u = true →
    h.state.store.queue u ++ (if u ∈ t.owed then [t.msg] else []) = (missed u h.log).map Prod.fst
  owed : ∀ u ∈ t.owed, h.state.hasUser u = true
  absent : ∀ u, h.state.hasUser u = false → h.state.store.queue u = [] ∧ missed u h.log = []
  online : ∀ u, h.state.slot u ≠ ∅ → (∀ c left, t.replay ≠ .woken u c left) →
    h.state.store.queue u = []
  offline : ∀ u, t.offline = some u → h.state.slot u = ∅
  room : ∀ r ms, t.room = some (r, ms) → ms = h.state.store.members r
  woken : ∀ u c left, t.replay = .woken u c left → h.state.slot u = {c} ∧
    left = (h.state.store.drainUndelivered u).1.map fun m => (c, m.event)
  drained : ∀ u c left, t.replay = .drained u c left → h.state.slot u = {c}

namespace Held

variable {env : Env} {h : Hist} {t : Mail} {i : Nat} {j : Input} {o : Op}

theorem next {tr : Roll} (hh : Held h t) (ha : t.allows o) (hal : Aligned h.state tr)
    (hroll : tr.allows o) : t.next o (memExec env o h.state).1 (t.after h.state o) := by
  cases o with
  | membersOf r =>
    refine ⟨rfl, env.order_nodup .., fun ms hroom u => ?_⟩
    rw [hh.room r ms hroom]
    exact hal.mem_membersOf hroll
  | connectionsOf caller u =>
    have hwalk : (memExec env (.connectionsOf caller u) h.state).1 = env.order h.state.walks
      (h.state.slot u) := rfl
    cases caller with
    | replay =>
      obtain ⟨-, c, left, hdrained⟩ := ha
      refine ⟨c, left, hdrained, ?_, ?_⟩
      · rw [hwalk, hh.drained u c left hdrained, order_singleton]
      · simp only [Mail.after, hdrained, Replay.left]
    | _ => simp only [Mail.next, Mail.after, hwalk, List.isEmpty_iff, order_eq_nil]
  | bindSlot u c =>
    have hwoke : (memExec env (.bindSlot u c) h.state).1 = decide (h.state.slot u = ∅) := rfl
    simp only [Mail.next, Mail.after, hwoke, decide_eq_true_eq]
    split
    · exact ⟨_, rfl⟩
    · rfl
  | sendFrame site d f =>
    cases site with
    | reply => rfl
    | loop caller u cs =>
      cases caller with
      | replay =>
        obtain ⟨-, left, hleft⟩ := ha
        refine ⟨left, hleft, ?_⟩
        simp only [Mail.after, hleft, Replay.left, List.tail_cons]
      | _ => rfl
  | repo o =>
    cases o with
    | insertRoomMsg a r content ts => exact ⟨_, rfl⟩
    | drainUndelivered u =>
      obtain ⟨-, c, left, hwoken⟩ := ha
      refine ⟨c, left, hwoken, (hh.woken u c left hwoken).2, ?_⟩
      simp only [Mail.after, hwoken]
      rfl
    | _ => rfl
  | _ => rfl

theorem still {t' : Mail} (hh : Held h t) (hslot : ∀ u s, o.onSlot u s = s)
    (huser : ∀ n p, o ≠ .repo (.createUser n p)) (hqueued : ∀ u, h.state.away u = true →
      (memExec env o h.state).2.store.queue u ++ (if u ∈ t'.owed then [t'.msg] else []) =
        (missed u h.log ++ o.news h.state u).map Prod.fst)
    (howed : ∀ u ∈ t'.owed, h.state.hasUser u = true) (habsent : ∀ u, h.state.hasUser u = false →
      (memExec env o h.state).2.store.queue u = [] ∧ o.news h.state u = [])
    (honline : ∀ u, h.state.slot u ≠ ∅ → (memExec env o h.state).2.store.queue u = [])
    (hoffline : ∀ u, t'.offline = some u → h.state.slot u = ∅)
    (hroom : ∀ r ms, t'.room = some (r, ms) → ms = (memExec env o h.state).2.store.members r)
    (hwoken : ∀ u c left, t'.replay ≠ .woken u c left)
    (hdrained : ∀ u c left, t'.replay = .drained u c left → h.state.slot u = {c}) :
    Held (h.record (memExec env) i j o).2 t' := by
  have hslots (u : Nat) : (memExec env o h.state).2.slot u = h.state.slot u := by
    rw [memExec_slot, hslot]
  have husers (u : Nat) : (memExec env o h.state).2.hasUser u = h.state.hasUser u :=
    memExec_hasUser_eq huser u
  have haway (u : Nat) : (memExec env o h.state).2.away u = h.state.away u := by
    simp only [World.away, hslots, husers]
  refine ⟨memExec_freshIds hh.ids, fun u => (hh.listed u).record hh.ids i j o, ?_, ?_, ?_, ?_,
    ?_, hroom, ?_, ?_⟩
  · intro u hu
    rw [History.record_state, haway] at hu
    rw [History.record_log, missed_concat, if_pos hu]
    exact hqueued u hu
  · intro u hu
    rw [History.record_state, husers]
    exact howed u hu
  · intro u hu
    rw [History.record_state, husers] at hu
    refine ⟨(habsent u hu).1, ?_⟩
    rw [History.record_log, missed_quiet (habsent u hu).2, (hh.absent u hu).2, ite_self]
  · intro u hu _
    rw [History.record_state, hslots] at hu
    exact honline u hu
  · intro u hu
    rw [History.record_state, hslots]
    exact hoffline u hu
  · exact fun u c left hw => absurd hw (hwoken u c left)
  · intro u c left hd
    rw [History.record_state, hslots]
    exact hdrained u c left hd

theorem frame {t' : Mail} (hh : Held h t) (hrest : ∀ u c left, t.replay ≠ .woken u c left)
    (hnews : ∀ u, o.news h.state u = []) (hslot : ∀ u s, o.onSlot u s = s)
    (hqueue : ∀ u, (memExec env o h.state).2.store.queue u = h.state.store.queue u)
    (huser : ∀ n p, o ≠ .repo (.createUser n p)) (hmsg : t'.msg = t.msg) (hsub : t'.owed ⊆ t.owed)
    (howed : ∀ u ∈ t.owed, h.state.slot u = ∅ → u ∈ t'.owed)
    (hoffline : ∀ u, t'.offline = some u → t.offline = some u ∨ h.state.slot u = ∅)
    (hroom : ∀ r ms, t'.room = some (r, ms) → t.room = some (r, ms) ∧
      Op.onMembers h.state.store r o ms = ms)
    (hreplay : ∃ left, t'.replay = .pushing left) : Held (h.record (memExec env) i j o).2 t' := by
  obtain ⟨left, hreplay⟩ := hreplay
  refine hh.still hslot huser ?_ ?_ ?_ ?_ ?_ ?_ (by simp [hreplay]) (by simp [hreplay])
  · intro u hu
    have hslot : h.state.slot u = ∅ := (of_decide_eq_true hu).2
    rw [hnews, List.append_nil, hqueue, hmsg, ← hh.queued u hu]
    rw [if_congr ⟨fun hu => hsub hu, fun hu => howed u hu hslot⟩ rfl rfl]
  · exact fun u hu => hh.owed u (hsub hu)
  · exact fun u hu => ⟨(hqueue u).trans (hh.absent u hu).1, hnews u⟩
  · exact fun u hu => (hqueue u).trans (hh.online u hu (hrest u))
  · exact fun u hu => (hoffline u hu).elim (hh.offline u) id
  · intro r ms hms
    obtain ⟨hold, hmembers⟩ := hroom r ms hms
    rw [memExec_members, ← hh.room r ms hold, hmembers]

theorem store {ro : RepoOp} {p : Nat × Json} {owed : Finset Nat} {room : Option (Nat × Finset Nat)}
    (hh : Held h t) (ht : t.Rest) (hp : ro.announces h.state.store = some p)
    (howed : ∀ u, u ∈ owed ↔ ro.isFor h.state.store u = true)
    (husers : ∀ u, ro.isFor h.state.store u = true → h.state.hasUser u = true)
    (hroom : ∀ r ms, room = some (r, ms) → ms = h.state.store.members r) :
    Held (h.record (memExec env) i j (.repo ro)).2
      { t with msg := p.1, event := some p.2, owed := owed, room := room } := by
  have hinert : (∀ n p, Op.repo ro ≠ .repo (.createUser n p)) ∧
      (∀ u, ro.onQueue h.state.store u = h.state.store.queue u) ∧
      ∀ r ms, Op.onMembers h.state.store r (.repo ro) ms = ms := by
    cases ro with
    | insertDm a b content ts => exact ⟨by simp, fun _ => rfl, fun _ _ => rfl⟩
    | insertRoomMsg a r content ts => exact ⟨by simp, fun _ => rfl, fun _ _ => rfl⟩
    | _ => cases hp
  obtain ⟨huser, hqueue, hmembers⟩ := hinert
  have hnews (u : Nat) : (Op.repo ro).news h.state u =
      if ro.isFor h.state.store u then [p] else [] := by
    simp only [Op.news, hp, Option.toList_some]
  have hrest (u c : Nat) (left : List (Nat × Json)) : t.replay ≠ .woken u c left := by simp [ht.2]
  refine hh.still (fun _ _ => rfl) huser ?_ ?_ ?_ ?_ hh.offline ?_ hrest (by simp [ht.2])
  · intro u hu
    have hq := hh.queued u hu
    rw [ht.1, if_neg (Finset.notMem_empty u), List.append_nil] at hq
    rw [memExec_repo, memory_queue, hqueue, hq, hnews, List.map_append]
    rw [if_congr (howed u) rfl rfl]
    split <;> rfl
  · exact fun u hu => husers u ((howed u).mp hu)
  · intro u hu
    rw [memExec_repo, memory_queue, hqueue, hnews]
    refine ⟨(hh.absent u hu).1, if_neg fun hfor => ?_⟩
    rw [husers u hfor] at hu
    cases hu
  · intro u hu
    rw [memExec_repo, memory_queue, hqueue]
    exact hh.online u hu (hrest u)
  · intro r ms hms
    rw [memExec_members, hmembers]
    exact hroom r ms hms

theorem enqueue {id u : Nat} (hh : Held h t) (ha : t.allows (.repo (.enqueueUndelivered id u))) :
    Held (h.record (memExec env) i j (.repo (.enqueueUndelivered id u))).2
      { t with owed := t.owed.erase u } := by
  obtain ⟨hreplay, rfl, hu, hoffline⟩ := ha
  have hqueue (v : Nat) : (memExec env (.repo (.enqueueUndelivered t.msg u)) h.state).2.store.queue
    v =
      if u = v then h.state.store.queue v ++ [t.msg] else h.state.store.queue v :=
        memory_queue env _ h.state v
  refine hh.still (fun _ _ => rfl) (by simp) ?_ ?_ ?_ ?_ hh.offline ?_ (by simp [hreplay])
    (by simp [hreplay])
  · intro v hv
    rw [hqueue, show Op.news _ _ _ = [] from rfl, List.append_nil, ← hh.queued v hv]
    by_cases huv : u = v
    · subst huv
      simp [hu]
    · simp [huv, Ne.symm huv]
  · exact fun v hv => hh.owed v (Finset.mem_of_mem_erase hv)
  · intro v hv
    have huv : u ≠ v := by
      rintro rfl
      rw [hh.owed u hu] at hv
      cases hv
    rw [hqueue, if_neg huv]
    exact ⟨(hh.absent v hv).1, rfl⟩
  · intro v hv
    have huv : u ≠ v := by
      rintro rfl
      exact hv (hh.offline u hoffline)
    rw [hqueue, if_neg huv]
    exact hh.online v hv (by simp [hreplay])
  · intro r ms hms
    rw [memExec_members]
    exact hh.room r ms hms

theorem drain {u : Nat} (hh : Held h t) (ha : t.allows (.repo (.drainUndelivered u))) :
    Held (h.record (memExec env) i j (.repo (.drainUndelivered u))).2
      (t.after h.state (.repo (.drainUndelivered u))) := by
  obtain ⟨howed, c, left, hwoken⟩ := ha
  have hslot := (hh.woken u c left hwoken).1
  have hqueue (v : Nat) : (memExec env (.repo (.drainUndelivered u)) h.state).2.store.queue v =
      if u = v then [] else h.state.store.queue v := memory_queue env _ h.state v
  simp only [Mail.after, hwoken]
  refine hh.still (fun _ _ => rfl) (by simp) ?_ hh.owed ?_ ?_ hh.offline ?_ ?_ ?_
  · intro v hv
    have huv : u ≠ v := by
      rintro rfl
      rw [World.away, hslot] at hv
      simp at hv
    rw [hqueue, if_neg huv, hh.queued v hv]
    exact congrArg _ (List.append_nil _).symm
  · intro v hv
    rw [hqueue, (hh.absent v hv).1, ite_self]
    exact ⟨rfl, rfl⟩
  · intro v hv
    rw [hqueue]
    split
    · rfl
    · rename_i huv
      exact hh.online v hv fun c' left' h' => huv (by rw [hwoken] at h'; cases h'; rfl)
  · intro r ms hms
    rw [memExec_members]
    exact hh.room r ms hms
  · split <;> simp
  · split
    · simp
    · rintro _ _ _ ⟨⟩
      exact hslot

theorem bind {u c : Nat} (hh : Held h t) (ht : t.Rest) :
    Held (h.record (memExec env) i j (.bindSlot u c)).2 (t.after h.state (.bindSlot u c)) := by
  have hslots (v : Nat) : (memExec env (.bindSlot u c) h.state).2.slot v =
      if u = v then insert c (h.state.slot v) else h.state.slot v := memExec_slot env _ h.state v
  have hrest (v d : Nat) (left : List (Nat × Json)) : t.replay ≠ .woken v d left := by simp [ht.2]
  have hafter : (t.after h.state (.bindSlot u c)).owed = t.owed ∧
    (t.after h.state (.bindSlot u c)).msg = t.msg ∧
      (t.after h.state (.bindSlot u c)).room = t.room ∧
        (t.after h.state (.bindSlot u c)).offline = none := by
    simp only [Mail.after]
    split <;> exact ⟨rfl, rfl, rfl, rfl⟩
  obtain ⟨howed, hmsg, hroom, hoffline⟩ := hafter
  have haway {v : Nat} (hv : (memExec env (.bindSlot u c) h.state).2.away v = true) :
      h.state.away v = true := by
    obtain ⟨huser, hslot⟩ := of_decide_eq_true hv
    rw [hslots] at hslot
    split at hslot
    · exact absurd hslot (Finset.insert_ne_empty c _)
    · exact decide_eq_true ⟨huser, hslot⟩
  refine ⟨memExec_freshIds hh.ids, fun v => (hh.listed v).record hh.ids i j _, ?_, ?_, ?_, ?_,
    ?_, ?_, ?_, ?_⟩
  · intro v hv
    rw [History.record_log, missed_quiet rfl, if_pos (haway hv), howed, hmsg]
    exact hh.queued v (haway hv)
  · rw [howed]
    exact hh.owed
  · intro v hv
    rw [History.record_log, missed_quiet rfl, (hh.absent v hv).2, ite_self]
    exact ⟨(hh.absent v hv).1, rfl⟩
  · intro v hv hwoken
    refine hh.online v (fun hempty => ?_) (hrest v)
    rw [History.record_state, hslots] at hv
    split at hv
    · rename_i huv
      subst huv
      exact hwoken c _ (by rw [Mail.after, if_pos hempty])
    · exact hv hempty
  · simp [hoffline]
  · rw [hroom]
    exact hh.room
  · intro v d left hw
    simp only [Mail.after] at hw
    split at hw
    · rename_i hempty
      cases hw
      rw [History.record_state, hslots, if_pos rfl, hempty]
      exact ⟨rfl, rfl⟩
    · exact absurd hw (hrest v d left)
  · intro v d left hd
    simp only [Mail.after] at hd
    split at hd
    · cases hd
    · rw [show _ = t.replay from rfl, ht.2] at hd
      cases hd

theorem unbind {u c : Nat} (hh : Held h t) (ht : t.Rest) :
    Held (h.record (memExec env) i j (.unbindSlot u c)).2 t := by
  have hslots (v : Nat) : (memExec env (.unbindSlot u c) h.state).2.slot v ⊆ h.state.slot v := by
    rw [memExec_slot]
    simp only [Op.onSlot]
    split
    · exact Finset.erase_subset ..
    · exact Finset.Subset.refl _
  have hrest (v d : Nat) (left : List (Nat × Json)) : t.replay ≠ .woken v d left := by simp [ht.2]
  refine ⟨memExec_freshIds hh.ids, fun v => (hh.listed v).record hh.ids i j _, ?_, hh.owed, ?_,
    ?_, ?_, hh.room, fun v d left hw => absurd hw (hrest v d left), by simp [ht.2]⟩
  · intro v hv
    rw [History.record_log, missed_quiet rfl]
    by_cases haway : h.state.away v = true
    · rw [if_pos haway]
      exact hh.queued v haway
    · -- the last connection is gone, and there was nothing in the queue
      have hslot : h.state.slot v ≠ ∅ :=
        fun hempty => haway (decide_eq_true ⟨(of_decide_eq_true hv).1, hempty⟩)
      rw [if_neg haway, ht.1, if_neg (Finset.notMem_empty v), List.append_nil]
      exact hh.online v hslot (hrest v)
  · intro v hv
    rw [History.record_log, missed_quiet rfl, (hh.absent v hv).2, ite_self]
    exact ⟨(hh.absent v hv).1, rfl⟩
  · intro v hv _
    refine hh.online v (fun hempty => hv ?_) (hrest v)
    exact Finset.subset_empty.mp (hempty ▸ hslots v)
  · intro v hv
    exact Finset.subset_empty.mp (hh.offline v hv ▸ hslots v)

theorem createUser {n p : String} (hh : Held h t) (ht : t.replay = .pushing []) :
    Held (h.record (memExec env) i j (.repo (.createUser n p))).2 t := by
  have hqueue (v : Nat) : (memExec env (.repo (.createUser n p)) h.state).2.store.queue v =
      h.state.store.queue v := memory_queue env _ h.state v
  have hslots (v : Nat) : (memExec env (.repo (.createUser n p)) h.state).2.slot v =
      h.state.slot v :=
    memExec_slot env _ h.state v
  have hrest (v d : Nat) (left : List (Nat × Json)) : t.replay ≠ .woken v d left := by simp [ht]
  refine ⟨memExec_freshIds hh.ids, fun v => (hh.listed v).record hh.ids i j _, ?_, ?_,
    ?_, ?_, ?_, ?_, fun v d left hw => absurd hw (hrest v d left), by simp [ht]⟩
  · intro v hv
    rw [History.record_log, History.record_state, hqueue, missed_quiet rfl]
    by_cases haway : h.state.away v = true
    · rw [if_pos haway]
      exact hh.queued v haway
    · -- the account is new
      have huser : h.state.hasUser v = false := by
        rw [← Bool.not_eq_true]
        intro huser
        exact haway (decide_eq_true ⟨huser, (hslots v) ▸ (of_decide_eq_true hv).2⟩)
      have hnotOwed : v ∉ t.owed := fun howed => by simp [hh.owed v howed] at huser
      rw [if_neg haway, (hh.absent v huser).1, if_neg hnotOwed]
      rfl
  · exact fun v hv => memExec_hasUser (hh.owed v hv)
  · intro v hv
    have huser : h.state.hasUser v = false := by
      rw [← Bool.not_eq_true]
      intro huser
      rw [History.record_state, memExec_hasUser huser] at hv
      cases hv
    rw [History.record_log, History.record_state, hqueue, missed_quiet rfl,
      (hh.absent v huser).2, ite_self]
    exact ⟨(hh.absent v huser).1, rfl⟩
  · intro v hv _
    rw [History.record_state, hslots] at hv
    exact (hqueue v).trans (hh.online v hv (hrest v))
  · intro v hv
    exact (hslots v).trans (hh.offline v hv)
  · intro r ms hms
    rw [History.record_state, memExec_members]
    exact hh.room r ms hms

theorem same (hh : Held h t) (ht : t.replay = .pushing []) (hnews : ∀ u, o.news h.state u = [])
    (hslot : ∀ u s, o.onSlot u s = s)
    (hqueue : ∀ u, (memExec env o h.state).2.store.queue u = h.state.store.queue u)
    (huser : ∀ n p, o ≠ .repo (.createUser n p))
    (hmembers : ∀ r ms, Op.onMembers h.state.store r o ms = ms) :
    Held (h.record (memExec env) i j o).2 t :=
  hh.frame (by simp [ht]) hnews hslot hqueue huser rfl (Finset.Subset.refl _) (fun _ hu _ => hu)
    (fun _ hu => .inl hu) (fun r ms hms => ⟨hms, hmembers r ms⟩) ⟨[], ht⟩

theorem connectionsOf {caller : Caller} {u : Nat} (hh : Held h t)
    (ha : t.allows (.connectionsOf caller u)) :
    Held (h.record (memExec env) i j (.connectionsOf caller u)).2
      (t.after h.state (.connectionsOf caller u)) := by
  by_cases hcaller : caller = .replay
  · subst hcaller
    obtain ⟨-, c, left, hdrained⟩ := ha
    exact hh.frame (by simp [hdrained]) (fun _ => rfl) (fun _ _ => rfl) (fun _ => rfl) (by simp) rfl
      (Finset.Subset.refl _) (fun _ hu _ => hu) (fun _ hu => .inl hu)
        (fun _ _ hms => ⟨hms, rfl⟩) ⟨_, rfl⟩
  · have ht : t.replay = .pushing [] := by
      cases caller <;> first | exact ha | exact absurd rfl hcaller
    have hafter : t.after h.state (.connectionsOf caller u) =
        if h.state.slot u = ∅ then { t with offline := some u }
          else { t with owed := t.owed.erase u } := by
      cases caller <;> first | rfl | exact absurd rfl hcaller
    rw [hafter]
    split
    · rename_i hempty
      refine hh.frame (by simp [ht]) (fun _ => rfl) (fun _ _ => rfl) (fun _ => rfl) (by simp) rfl
        (Finset.Subset.refl _) (fun _ hu _ => hu) ?_ (fun _ _ hms => ⟨hms, rfl⟩) ⟨[], ht⟩
      rintro v ⟨⟩
      exact .inr hempty
    · rename_i hne
      refine hh.frame (by simp [ht]) (fun _ => rfl) (fun _ _ => rfl) (fun _ => rfl) (by simp) rfl
        (Finset.erase_subset ..) ?_ (fun _ hu => .inl hu) (fun _ _ hms => ⟨hms, rfl⟩) ⟨[], ht⟩
      intro v hv hempty
      refine Finset.mem_erase.mpr ⟨?_, hv⟩
      rintro rfl
      exact hne hempty

theorem repo {ro : RepoOp} {tk : Known} (hh : Held h t) (ha : t.allows (.repo ro))
    (hp : Peopled h.state tk) (hk : tk.allows (.repo ro)) :
    Held (h.record (memExec env) i j (.repo ro)).2 (t.after h.state (.repo ro)) := by
  -- the room is forgotten when somebody joins or leaves
  have hmoved (ro : RepoOp) (ht : t.Rest) (hqueue : ∀ u, ro.onQueue h.state.store u =
    h.state.store.queue u)
      (hnews : ∀ u, (Op.repo ro).news h.state u = [])
      (huser : ∀ n p, Op.repo ro ≠ .repo (.createUser n p)) :
      Held (h.record (memExec env) i j (.repo ro)).2 { t with room := none } :=
    hh.frame (by simp [ht.2]) hnews (fun _ _ => rfl) (fun u =>
      (memory_queue env ro h.state u).trans (hqueue u))
      huser rfl (Finset.Subset.refl _) (fun _ hu _ => hu) (fun _ hu => .inl hu) (by simp) ⟨[], ht.2⟩
  cases ro with
  | insertDm a b content ts =>
    have hannounces : (RepoOp.insertDm a b content ts).announces h.state.store = some _ := rfl
    refine hh.store ha hannounces (fun u => ?_) (fun u hu => ?_) hh.room
    · simp [RepoOp.isFor, eq_comm]
    · obtain rfl : b = u := of_decide_eq_true hu
      exact hp.known b hk
  | insertRoomMsg a r content ts =>
    have hannounces : (RepoOp.insertRoomMsg a r content ts).announces h.state.store = some _ := rfl
    refine hh.store ha hannounces (fun u => ?_) (fun u hu => ?_) ?_
    · rw [RepoOp.isFor, decide_eq_true_iff, Finset.mem_erase, and_comm, ne_comm]
    · exact hp.members r u (of_decide_eq_true hu).1
    · rintro r' ms ⟨⟩
      rfl
  | joinRoom r u => exact hmoved _ ha (fun _ => rfl) (fun _ => rfl) (by simp)
  | leaveRoom r u => exact hmoved _ ha (fun _ => rfl) (fun _ => rfl) (by simp)
  | enqueueUndelivered id u => exact hh.enqueue ha
  | drainUndelivered u => exact hh.drain ha
  | createUser n p => exact hh.createUser ha
  | _ =>
      exact hh.same ha (fun _ => rfl) (fun _ _ => rfl) (fun u => memory_queue env _ h.state u)
        (by simp) fun _ _ => rfl

theorem record {tk : Known} (hh : Held h t) (ha : t.allows o) (hp : Peopled h.state tk)
    (hk : tk.allows o) : Held (h.record (memExec env) i j o).2 (t.after h.state o) := by
  cases o with
  | repo o => exact hh.repo ha hp hk
  | bindSlot u c => exact hh.bind ha
  | unbindSlot u c => exact hh.unbind ha
  | connectionsOf caller u => exact hh.connectionsOf ha
  | sendFrame site d f =>
    by_cases hsite : ∃ u cs, site = .loop .replay u cs
    · obtain ⟨u, cs, rfl⟩ := hsite
      obtain ⟨-, left, hleft⟩ := ha
      exact hh.frame (by simp [hleft]) (fun _ => rfl) (fun _ _ => rfl) (fun _ => rfl) (by simp) rfl
        (Finset.Subset.refl _) (fun _ hu _ => hu) (fun _ hu => .inl hu)
          (fun _ _ hms => ⟨hms, rfl⟩) ⟨_, rfl⟩
    · have hother : t.replay = .pushing [] ∧ t.after h.state (.sendFrame site d f) = t := by
        rcases site with _ | ⟨caller, u, cs⟩
        · exact ⟨ha, rfl⟩
        · cases caller <;> first | exact ⟨ha.1, rfl⟩ | exact absurd ⟨u, cs, rfl⟩ hsite
      rw [hother.2]
      exact hh.same hother.1 (fun _ => rfl) (fun _ _ => rfl) (fun _ => rfl) (by simp) fun _ _ => rfl
  | _ =>
    refine hh.same ha (fun _ => rfl) (fun _ _ => rfl) (fun u => ?_) (by simp) fun _ _ => rfl
    rw [memExec_store env _ _ (by simp)]

end Held

def replaying (post : Log) : Bool := post.all fun e => e.op.kind = .replay

theorem replayBlock_more {post : Log} {e : Event Input Op World} (h : replaying post = true)
    (he : e.op.kind = .replay) : replaying (post ++ [e]) = true ∧
    replayBlock (post ++ [e]) = replayBlock post ++ [e] := by
  have hmore : replaying (post ++ [e]) = true := by simpa [replaying, he] using h
  refine ⟨hmore, ?_⟩
  rw [replayBlock, replayBlock, List.takeWhile_eq_self_iff.mpr (List.all_eq_true.mp hmore),
    List.takeWhile_eq_self_iff.mpr (List.all_eq_true.mp h)]

theorem replayBlock_over {post : Log} {e : Event Input Op World}
    (h : replaying post = false ∨ e.op.kind ≠ .replay) :
    replaying (post ++ [e]) = false ∧ replayBlock (post ++ [e]) = replayBlock post := by
  constructor
  · rcases h with h | h <;> simp_all [replaying]
  · induction post with
    | nil =>
      rcases h with h | h
      · cases h
      · simp [replayBlock, h]
    | cons e' post ih =>
      simp only [replayBlock, List.cons_append, List.takeWhile_cons] at ih ⊢
      split
      · rename_i hkind
        rw [ih (h.imp_left fun h => by simpa [replaying, of_decide_eq_true hkind] using h)]
      · rfl

/-- Connection `c` has been bound to user `u`, who had none, in the state `before`; since
then what `u` has missed has been replayed, but for what is left. -/
structure Caught (w : World) (left : List (Nat × Json)) (pre : Log) (before : World)
    (post : Log) (u c : Nat) : Prop where
  pushed : pushes post ++ (if replaying post then left else []) = (missed u pre).map fun p =>
    (c, p.2)
  rising : ((missed u pre).map Prod.fst).Pairwise (· < ·)
  steady : ∀ e ∈ replayBlock post, (e.before.conns c).isOpen = (before.conns c).isOpen
  now : replaying post → (w.conns c).isOpen = (before.conns c).isOpen

theorem memExec_isOpen {env : Env} {o : Op} {w : World} {c : Nat} (h : o.kind ≠ .close) :
    ((memExec env o w).2.conns c).isOpen = (w.conns c).isOpen := by
  rw [memExec_conn]
  cases o with
  | sendFrame site d j =>
    simp only [Op.onConn, Conn.sendFrame]
    split
    · split <;> rfl
    · rfl
  | setUserId d u =>
    simp only [Op.onConn]
    split <;> rfl
  | setSessionToken d tok =>
    simp only [Op.onConn]
    split <;> rfl
  | beginClose d => exact absurd rfl h
  | finishClose d => exact absurd rfl h
  | _ => rfl

namespace Caught

variable {env : Env} {w before : World} {left left' : List (Nat × Json)} {pre post : Log}
    {u c i : Nat} {j : Input} {o : Op}

theorem past (hc : Caught w left pre before post u c)
    (h : replaying post = false ∨ (o.kind ≠ .replay ∧ left = []))
    (w' : World) (left' : List (Nat × Json)) :
    Caught w' left' pre before (post ++ [⟨i, j, o, w⟩]) u c := by
  obtain ⟨hover, hblock⟩ := replayBlock_over (e := ⟨i, j, o, w⟩) (h.imp_right fun h => h.1)
  refine ⟨?_, hc.rising, hblock ▸ hc.steady, by simp [hover]⟩
  have hpushed := hc.pushed
  have hnone : (if replaying post = true then left else []) = [] := by
    rcases h with h | h
    · rw [h]
      rfl
    · rw [h.2, ite_self]
  rw [hnone] at hpushed
  rwa [hover, pushes, hblock]

theorem more (hc : Caught w left pre before post u c) (hrun : replaying post = true)
    (hkind : o.kind = .replay) (hleft : left = o.frame.toList ++ left') :
    Caught (memExec env o w).2 left' pre before (post ++ [⟨i, j, o, w⟩]) u c := by
  obtain ⟨hmore, hblock⟩ := replayBlock_more (e := ⟨i, j, o, w⟩) hrun hkind
  have hopen : (w.conns c).isOpen = (before.conns c).isOpen := hc.now hrun
  refine ⟨?_, hc.rising, ?_, fun _ => (memExec_isOpen (by simp [hkind])).trans hopen⟩
  · have hpushed := hc.pushed
    rw [hrun, if_pos rfl, hleft] at hpushed
    rw [hmore, if_pos rfl, pushes, hblock, List.filterMap_append, List.append_assoc, ← hpushed]
    cases hframe : o.frame <;> simp [hframe, pushes]
  · rw [hblock]
    intro e he
    rcases List.mem_append.mp he with he | he
    · exact hc.steady e he
    · rw [List.mem_singleton.mp he]
      exact hopen

end Caught

def Replayed (h : Hist) (t : Mail) : Prop :=
  ∀ pre e post u c, h.log = pre ++ e :: post → e.op = .bindSlot u c → e.before.slot u = ∅ →
    Caught h.state t.replay.left pre e.before post u c

theorem Held.left_after {h : Hist} {t : Mail} {o : Op} (hh : Held h t) (ha : t.allows o) :
    (o.kind ≠ .replay ∧ t.replay.left = []) ∨
      (o.kind = .replay ∧ t.replay.left = o.frame.toList ++ (t.after h.state o).replay.left) := by
  have hidle (ht : t.replay = .pushing []) (hkind : o.kind ≠ .replay) : o.kind ≠ .replay ∧
      t.replay.left = [] :=
    ⟨hkind, by rw [ht]; rfl⟩
  cases o with
  | repo o =>
    cases o with
    | drainUndelivered u =>
      obtain ⟨-, c, left, hwoken⟩ := ha
      refine .inr ⟨rfl, ?_⟩
      simp only [Mail.after, hwoken, Op.frame, Option.toList_none, List.nil_append]
      by_cases hempty : (h.state.store.drainUndelivered u).1.isEmpty = true
      · rw [if_pos hempty, (hh.woken u c left hwoken).2, List.isEmpty_iff.mp hempty]
        rfl
      · rw [if_neg hempty]
        rfl
    | enqueueUndelivered id u => exact .inl (hidle ha.1 (by simp))
    | insertDm a b content ts => exact .inl (hidle ha.2 (by simp))
    | insertRoomMsg a r content ts => exact .inl (hidle ha.2 (by simp))
    | joinRoom r u => exact .inl (hidle ha.2 (by simp))
    | leaveRoom r u => exact .inl (hidle ha.2 (by simp))
    | _ => exact .inl (hidle ha (by simp))
  | connectionsOf caller u =>
    cases caller with
    | replay => exact .inr ⟨rfl, rfl⟩
    | _ => exact .inl (hidle ha (by simp))
  | sendFrame site d f =>
    rcases site with _ | ⟨caller, u, cs⟩
    · exact .inl (hidle ha (by simp))
    · cases caller with
      | replay =>
        obtain ⟨-, left, hleft⟩ := ha
        refine .inr ⟨rfl, ?_⟩
        simp only [Mail.after, hleft, Replay.left, Op.frame, Option.toList_some, List.tail_cons,
          List.singleton_append]
      | _ => exact .inl (hidle ha.1 (by simp))
  | bindSlot u c => exact .inl (hidle ha.2 (by simp))
  | unbindSlot u c => exact .inl (hidle ha.2 (by simp))
  | _ => exact .inl (hidle ha (by simp))

theorem Held.caught {h : Hist} {t : Mail} {u : Nat} (hh : Held h t) (ht : t.Rest)
    (hslot : h.state.slot u = ∅)
    (c : Nat) (env : Env) : Caught (memExec env (.bindSlot u c) h.state).2
      ((h.state.store.drainUndelivered u).1.map fun m => (c, m.event)) h.log h.state [] u c := by
  have hqueue : h.state.store.queue u = (missed u h.log).map Prod.fst := by
    cases huser : h.state.hasUser u with
    | false =>
      rw [(hh.absent u huser).1, (hh.absent u huser).2]
      rfl
    | true =>
      have hq := hh.queued u (decide_eq_true ⟨huser, hslot⟩)
      rwa [ht.1, if_neg (Finset.notMem_empty u), List.append_nil] at hq
  refine ⟨?_, (hh.listed u).rising, by simp [replayBlock], fun _ => rfl⟩
  exact drain_events hh.ids (hh.listed u).announced hqueue

theorem Replayed.record {env : Env} {h : Hist} {t : Mail} {i : Nat} {j : Input} {o : Op}
    (hr : Replayed h t) (hh : Held h t) (ha : t.allows o) :
    Replayed (h.record (memExec env) i j o).2 (t.after h.state o) := by
  intro pre e post u c hlog hop hslot
  rw [History.record_log] at hlog
  rw [History.record_state]
  rcases List.eq_nil_or_concat' post with rfl | ⟨post, e', rfl⟩
  · obtain ⟨rfl, heq⟩ := List.append_inj' hlog rfl
    cases heq
    obtain rfl : o = .bindSlot u c := hop
    rw [Mail.after, if_pos hslot]
    exact hh.caught ha hslot c env
  · rw [← List.cons_append, ← List.append_assoc] at hlog
    obtain ⟨hold, heq⟩ := List.append_inj' hlog rfl
    cases heq
    have hc := hr pre e post u c hold hop hslot
    rcases hh.left_after ha with hidle | ⟨hkind, hleft⟩
    · exact hc.past (.inr hidle) _ _
    · cases hrun : replaying post with
      | false => exact hc.past (.inl hrun) _ _
      | true => exact hc.more hrun hkind hleft

def Announced (log : Log) (f : Json) : Prop :=
  ∃ e ∈ log, ∃ o p, e.op = .repo o ∧ o.announces e.before.store = some p ∧ p.2 = f

def Live (pre : Log) (e : Event Input Op World) : Prop :=
  ∀ caller u cs d f, e.op = .sendFrame (.loop caller u cs) d f → caller ≠ .replay → Announced pre f

theorem Mail.event_after {w : World} {t : Mail} {o : Op} {f : Json}
    (hf : (t.after w o).event = some f) :
    t.event = some f ∨ ∃ ro p, o = .repo ro ∧ ro.announces w.store = some p ∧ p.2 = f := by
  unfold Mail.after at hf
  split at hf
  · exact .inr ⟨_, _, rfl, rfl, Option.some.inj hf⟩
  · exact .inr ⟨_, _, rfl, rfl, Option.some.inj hf⟩
  · exact .inl hf
  · exact .inl hf
  · exact .inl hf
  · split at hf <;> exact .inl hf
  · exact .inl hf
  · split at hf <;> exact .inl hf
  · exact .inl hf
  · exact .inl hf
  · exact .inl hf

structure Told (h : Hist) (t : Mail) : Prop where
  event : ∀ f, t.event = some f → Announced h.log f
  live : Throughout Live h.log

theorem Told.record {env : Env} {h : Hist} {t : Mail} {o : Op} (ht : Told h t)
    (ha : t.allows o) (i : Nat)
    (j : Input) : Told (h.record (memExec env) i j o).2 (t.after h.state o) where
  event f hf := by
    rw [History.record_log]
    rcases Mail.event_after hf with hf | ⟨ro, p, hop, hp, hf⟩
    · obtain ⟨e, he, ho⟩ := ht.event f hf
      exact ⟨e, List.mem_append_left _ he, ho⟩
    · exact ⟨_, List.mem_append_right _ (List.mem_singleton.mpr rfl), ro, p, hop, hp, hf⟩
  live := by
    apply ht.live.concat
    rintro caller u cs d f rfl hcaller
    apply ht.event
    cases caller <;> first | exact ha.2 | exact absurd rfl hcaller

structure Mailing (h : Hist) (t : (Known × Roll) × Mail) : Prop where
  peopled : Peopled h.state t.1.1
  aligned : Aligned h.state t.1.2
  held : Held h t.2
  replayed : Replayed h t.2
  told : Told h t.2

theorem Held.fresh {h : Hist} {t : Mail} (hh : Held h t) (ht : t.Rest) : Held h .none where
  ids := hh.ids
  listed := hh.listed
  queued u hu := by
    have hq := hh.queued u hu
    rwa [ht.1] at hq
  owed := by simp [Mail.none]
  absent := hh.absent
  online u hu _ := hh.online u hu (by simp [ht.2])
  offline := by simp [Mail.none]
  room := by simp [Mail.none]
  woken := by simp [Mail.none]
  drained := by simp [Mail.none]

theorem Mailing.serve {env : Env} {h : Hist} (hm : Mailing h ((∅, .empty), .none))
    (i : Nat) (j : Input) :
    Mailing (h.serve (memExec env) (body env) i j) ((∅, .empty), .none) := by
  have hfollows :=
    ((body_knowing env j ∅ (Set.empty_subset _)).prod (body_rolls env j .empty rfl)).prod
    (body_mails env j .none ⟨rfl, rfl⟩)
  have hrun := hfollows.run (fun o h => History.record (memExec env) i j o h) Mailing ?_ hm
  · obtain ⟨t, hI, hend⟩ := hrun
    have hrest : t.1.2.Settled ∧ t.2.Rest := by
      split at hend
      · exact ⟨hend.1.2, hend.2⟩
      · exact ⟨hend.1.2, hend.2⟩
    refine ⟨{ hI.peopled with known := by simp }, hI.aligned.fresh hrest.1,
      hI.held.fresh hrest.2, ?_, ⟨by simp [Mail.none], hI.told.live⟩⟩
    intro pre e post u c hlog hop hslot
    have hc := hI.replayed pre e post u c hlog hop hslot
    rwa [hrest.2.2] at hc
  · rintro h ⟨⟨tk, tr⟩, t⟩ o hg ⟨⟨hknown, hroll⟩, ha⟩
    refine ⟨((tk.after o _, tr.after o _), t.after h.state o),
      ⟨⟨rfl, rfl⟩, hg.held.next ha hg.aligned hroll⟩, ?_⟩
    exact ⟨hg.peopled.op hknown, hg.aligned.op hroll, hg.held.record ha hg.peopled hknown,
      hg.replayed.record hg.held ha, hg.told.record ha i j⟩

theorem mailing_start : Mailing Hist.start ((∅, .empty), .none) where
  peopled := peopled_init
  aligned := aligned_init
  held := by
    refine ⟨⟨?_, ?_⟩, fun u => ⟨?_, ?_⟩, ?_, ?_, ?_, ?_, ?_, ?_, ?_, ?_⟩ <;>
      simp [Hist.start, World.init, Store.empty, Store.queue, Mail.none, missed_nil]
  replayed pre e post u c hlog := by simp [Hist.start] at hlog
  told := ⟨by simp [Mail.none], throughout_nil _⟩

theorem RepoOp.carriedBy_announces {s : Store} {o : RepoOp} {p : Nat × Json}
    (h : o.announces s = some p) : ∃ m, o.stores s = some m ∧ m.id = p.1 ∧ m.CarriedBy p.2 := by
  cases o <;> cases h
  · exact ⟨_, rfl, rfl, Message.carriedBy_event _⟩
  · exact ⟨_, rfl, rfl, Message.carriedBy_event _⟩

theorem carriedBy_missed {u : Nat} {log : Log} {p : Nat × Json} (hp : p ∈ missed u log) :
    ∃ e ∈ log, ∃ o m, e.op = .repo o ∧ o.stores e.before.store = some m ∧ m.id = p.1 ∧
    m.CarriedBy p.2 := by
  obtain ⟨e, he, hnews⟩ := List.mem_flatMap.mp hp
  have hlog : e ∈ log :=
    List.mem_reverse.mp ((List.takeWhile_prefix _).subset (List.mem_reverse.mp he))
  unfold Op.news at hnews
  split at hnews
  · rename_i o hop
    split at hnews
    · obtain ⟨m, hstores, hid, hcarried⟩ := RepoOp.carriedBy_announces (Option.mem_toList.mp hnews)
      exact ⟨e, hlog, o, m, hop, hstores, hid, hcarried⟩
    · cases hnews
  · cases hnews

/-- Offline delivery: nothing waits for a user who is there, and who comes online on an
open connection is sent on it what the user has missed, as it is sent to those who are
there. -/
theorem offline_delivery (env : Env) (inputs : List Input) :
    (∀ u, (serveAll env inputs).state.slot u ≠ ∅ → (serveAll env inputs).state.store.queue u = []) ∧
      Throughout Live (serveAll env inputs).log ∧
      ∀ pre e post u c, (serveAll env inputs).log = pre ++ e :: post → e.op = .bindSlot u c →
        e.before.slot u = ∅ → (e.before.conns c).isOpen = true →
        pushes post = (missed u pre).map (fun p => (c, p.2)) ∧
          ((missed u pre).map Prod.fst).Pairwise (· < ·) ∧
          (∀ e' ∈ replayBlock post, (e'.before.conns c).isOpen = true) ∧
          ∀ p ∈ missed u pre, ∃ e' ∈ pre, ∃ o m, e'.op = .repo o ∧
            o.stores e'.before.store = some m ∧ m.id = p.1 ∧ m.CarriedBy p.2 := by
  have hm : Mailing (serveAll env inputs) ((∅, .empty), .none) :=
    History.serveAll_invariant (I := fun h => Mailing h ((∅, .empty), .none))
      (memExec env) (body env)
      (fun i _ j hm => hm.serve i j) 0 mailing_start inputs
  refine ⟨fun u hu => hm.held.online u hu (by simp [Mail.none]), hm.told.live, ?_⟩
  intro pre e post u c hlog hop hslot hopen
  have hc := hm.replayed pre e post u c hlog hop hslot
  refine ⟨?_, hc.rising, fun e' he' => (hc.steady e' he').trans hopen,
    fun p hp => carriedBy_missed hp⟩
  have hpushed := hc.pushed
  rwa [show Mail.none.replay.left = [] from rfl, ite_self, List.append_nil] at hpushed

def bobBack : List Input := offlineMail ++ [ask 2 (loginReq "bob" "builder")]

def comesOnline (u c : Nat) (e : Event Input Op World) : Bool :=
  match e.op with
  | .bindSlot u' c' => u' = u ∧ c' = c ∧ e.before.slot u = ∅ ∧ (e.before.conns c).isOpen = true
  | _ => false

theorem of_comesOnline {u c : Nat} {e : Event Input Op World} (h : comesOnline u c e = true) :
    e.op = .bindSlot u c ∧ e.before.slot u = ∅ ∧ (e.before.conns c).isOpen = true := by
  unfold comesOnline at h
  split at h
  · rename_i hop
    obtain ⟨rfl, rfl, hslot, hopen⟩ := of_decide_eq_true h
    exact ⟨hop, hslot, hopen⟩
  · cases h

def missedEnv : Env := sampleEnv (mailReqs ++ [sendDmReq 2 "again"])

def bobFindsTwo : List Input :=
  offlineMail ++ [ask 1 (sendDmReq 2 "again"), ask 2 (loginReq "bob" "builder")]

theorem offline_delivery_bobFindsTwo :
    ∃ pre e post, (serveAll missedEnv bobFindsTwo).log = pre ++ e :: post ∧ e.op = .bindSlot 2 2 ∧
      e.before.slot 2 = ∅ ∧ (e.before.conns 2).isOpen = true ∧
      (missed 2 pre).map Prod.fst = [1, 2] ∧
      pushes post = (missed 2 pre).map (fun p => (2, p.2)) := by
  have hbind : ((serveAll missedEnv bobFindsTwo).log.drop 43).head?.map (comesOnline 2 2) =
      some true := by
    decide +kernel
  have hmissed : (missed 2 ((serveAll missedEnv bobFindsTwo).log.take 43)).map
      Prod.fst = [1, 2] := by
    decide +kernel
  have hall := (offline_delivery missedEnv bobFindsTwo).2.2
  generalize (serveAll missedEnv bobFindsTwo).log = log at hbind hmissed hall ⊢
  obtain ⟨e, hhead, hcomes⟩ := Option.map_eq_some_iff.mp hbind
  obtain ⟨post, hdrop⟩ := List.head?_eq_some_iff.mp hhead
  obtain ⟨hop, hslot, hopen⟩ := of_comesOnline hcomes
  have hlog : log = log.take 43 ++ e :: post := by rw [← hdrop, List.take_append_drop]
  exact ⟨_, e, post, hlog, hop, hslot, hopen, hmissed, (hall _ e post 2 2 hlog hop hslot hopen).1⟩

end ChatServer
