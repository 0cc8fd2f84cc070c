import ChatServer.Lib.HandOver
import ChatServer.Server.Copies
import ChatServer.Server.History
import ChatServer.Server.SendOrder
import ChatServer.Server.Tickets

namespace ChatServer

open Lib Lib.Prog

def Op.replaysTo (u : Nat) : Op → Bool
  | .connectionsOf .replay v => v = u
  | .sendFrame (.loop .replay v _) _ _ => v = u
  | _ => false

def Op.shows (u : Nat) : Op → Option Int
  | .sendFrame (.loop _ v _) _ j => if v = u then some (getI64 j "msg_id" 0) else none
  | _ => none

/-- The numbers of the messages whose events were passed to `send_frame` for user `u`. -/
def shownTo (u : Nat) (log : Log) : List Int := log.filterMap fun e => e.op.shows u

def Sys.replaying (g : Sys) (u : Nat) : Bool :=
  g.hist.log.any fun e => (g.nextOp e.task).any (Op.replaysTo u)

/-- The router turns to a user who is online only when nothing waits for them, and a queue is
not emptied while messages from it are still being replayed. -/
def routedInOrder (g : Sys) : Move Input → Bool
  | .start _ _ => true
  | .advance i =>
    match g.nextOp i with
    | some (.connectionsOf .replay _) => true
    | some (.connectionsOf _ u) =>
      g.hist.state.slot u = ∅ ∨ (g.hist.state.store.queue u = [] ∧ g.replaying u = false)
    | some (.repo (.drainUndelivered u)) => !g.replaying u
    | _ => true

abbrev Carrier := Hand Nat

namespace Carrier

def idle : Carrier := ⟨∅, ∅, 0, []⟩

def allows (t : Carrier) : Op → Prop
  | .connectionsOf .replay u => t.user = u
  | .sendFrame (.loop .replay u _) _ j =>
    t.user = u ∧ ∃ x xs, t.rest = x :: xs ∧ getI64 j "msg_id" 0 = toI64 x
  | .sendFrame (.loop _ u _) _ j =>
    t.rest = [] ∧ u ∈ t.aims ∧ ∃ x ∈ t.own, getI64 j "msg_id" 0 = toI64 x
  | .repo (.enqueueUndelivered id _) => t.rest = [] ∧ id ∈ t.own
  | _ => t.rest = []

def after (t : Carrier) : (o : Op) → o.Ret → Carrier
  | .repo (.insertDm _ _ _ _), some id => { t with own := insert id t.own }
  | .repo (.insertRoomMsg _ _ _ _), some id => { t with own := insert id t.own }
  | .connectionsOf .replay _, conns => if conns = [] then { t with rest := [] } else t
  | .connectionsOf _ u, conns => if conns = [] then t else { t with aims := insert u t.aims }
  | .repo (.drainUndelivered u), ms => { t with user := u, rest := ms.map Message.id }
  | .sendFrame (.loop .replay _ cs) _ _, _ => if cs = [] then { t with rest := t.rest.tail } else t
  | _, _ => t

def Rest (t : Carrier) : Prop := t.rest = []

end Carrier

def handing : Contract Op.Ret Carrier where
  allows := Carrier.allows
  next t o r t' := t' = t.after o r

section Programs

variable {c : Nat} {t : Carrier}

theorem handing_neutral (c : Nat) :
    Neutral handing Carrier.Rest c [.own, .reply, .ident, .assume, .session,
      .validate, .issue, .bind, .unbind, .close, .membership] := by
  rintro o ⟨hk, -⟩ t ht
  refine ⟨?_, ?_⟩
  · change Carrier.allows t o
    unfold Carrier.allows
    split
    case h_3 caller _ _ _ _ _ => cases caller <;> simp at hk
    all_goals first | exact ht | simp at hk
  · rintro r t' rfl
    refine ⟨?_, trivial⟩
    unfold Carrier.after
    split
    case h_4 caller _ _ _ => cases caller <;> simp at hk
    all_goals first | exact ht | simp at hk

theorem getI64_event (m : Message) : getI64 m.event "msg_id" 0 = toI64 m.id := by
  rw [Message.event, getI64, event_find]
  cases m.receiverId <;> cases m.roomId <;> rfl

theorem sendEach_handing {caller : Caller} (hcaller : caller ≠ .replay) (ht : t.Rest) {m : Message}
    (hm : m.id ∈ t.own) {u : Nat} {cs : List Nat} (hu : cs ≠ [] → u ∈ t.aims) (E : Carrier → Prop) :
    (sendEach caller u m.event cs).Follows handing t (fun _ t' => t' = t) E := by
  induction cs with
  | nil => rfl
  | cons d cs ih =>
    have hshow : t.rest = [] ∧ u ∈ t.aims ∧ ∃ x ∈ t.own, getI64 m.event "msg_id" 0 = toI64 x :=
      ⟨ht, hu (List.cons_ne_nil _ _), m.id, hm, getI64_event m⟩
    refine ⟨?_, ?_⟩
    · cases caller <;> first | exact hshow | exact absurd rfl hcaller
    · rintro r t' hn
      obtain rfl : t' = t := by cases caller <;> first | exact hn | exact absurd rfl hcaller
      exact ih fun _ => hshow.2.1

theorem sendEach_replay_handing {u : Nat} {m : Message} {xs : List Nat} (hu : t.user = u)
    (ht : t.rest = m.id :: xs) {cs : List Nat} (hcs : cs ≠ []) (E : Carrier → Prop) :
    (sendEach .replay u m.event cs).Follows handing t (fun _ t' =>
      t' = { t with rest := xs }) E := by
  induction cs with
  | nil => exact absurd rfl hcs
  | cons d cs ih =>
    refine ⟨⟨hu, m.id, xs, ht, getI64_event m⟩, ?_⟩
    rintro r t' rfl
    cases cs with
    | nil =>
      have hdone : t.after (.sendFrame (.loop .replay u []) d m.event) r =
          { t with rest := t.rest.tail } := by
        rw [Carrier.after, if_pos rfl]
      rw [hdone, ht, List.tail_cons]
      rfl
    | cons d' cs =>
      have hstays : t.after (.sendFrame (.loop .replay u (d' :: cs)) d m.event) r = t := by
        rw [Carrier.after, if_neg (List.cons_ne_nil _ _)]
      rw [hstays]
      exact ih (List.cons_ne_nil _ _)

theorem replayEach_handing {u : Nat} {cs : List Nat} (hcs : cs ≠ []) (ms : List Message)
    (hu : t.user = u) (ht : t.rest = ms.map Message.id) :
    (MessageRouter.replayEach u cs ms).Follows handing t (fun _ t' => t'.Rest) Carrier.Rest := by
  induction ms generalizing t with
  | nil => exact ht
  | cons m ms ih =>
    apply (follows_bind ..).mpr
    apply (sendEach_replay_handing hu ht hcs Carrier.Rest).mono _ fun _ h => h
    rintro _ t' rfl
    exact ih (t := { t with rest := ms.map Message.id }) hu rfl

theorem bind_handing (u : Nat) : Keeps handing Carrier.Rest (Presence.bind u c) := by
  refine (handing_neutral c).op (o := .bindSlot u c) (by simp) fun woke => ?_
  dsimp only [ret_bind]
  refine Keeps.bind ?_ fun _ => keeps_ret woke
  cases woke with
  | false => exact keeps_ret ()
  | true =>
    intro t ht
    refine ⟨ht, ?_⟩
    rintro pending t' rfl
    dsimp only [ret_bind]
    split
    · rename_i hempty
      rw [List.isEmpty_iff.mp hempty]
      rfl
    · refine ⟨rfl, ?_⟩
      rintro conns t' rfl
      dsimp only [ret_bind]
      split
      · rename_i hnone
        rw [List.isEmpty_iff.mp hnone]
        rfl
      · rename_i hsome
        rw [List.isEmpty_iff] at hsome
        have hstays : Carrier.after (t.after (.repo (.drainUndelivered u)) pending)
            (.connectionsOf .replay u) conns = t.after (.repo (.drainUndelivered u)) pending :=
          if_neg hsome
        rw [hstays]
        exact replayEach_handing hsome pending rfl rfl

theorem after_connectionsOf (t : Carrier) (caller : Caller) (hcaller : caller ≠ .replay) (u : Nat)
    (conns : List Nat) : (t.after (.connectionsOf caller u) conns).own = t.own ∧
      (t.after (.connectionsOf caller u) conns).rest = t.rest ∧
      (conns ≠ [] → u ∈ (t.after (.connectionsOf caller u) conns).aims) := by
  have heq : t.after (.connectionsOf caller u) conns =
      if conns = [] then t else { t with aims := insert u t.aims } := by
    cases caller <;> first | rfl | exact absurd rfl hcaller
  rw [heq]
  by_cases hempty : conns = [] <;> simp [hempty]

theorem sendDm_handing (sender receiver : Nat) (content : String) :
    Keeps handing Carrier.Rest (MessageRouter.sendDm sender receiver content) := by
  refine (handing_neutral 0).op (o := .now) (by simp) fun ts => ?_
  intro t ht
  refine ⟨ht, ?_⟩
  rintro stored t' rfl
  cases stored with
  | none => exact ht
  | some id =>
    let m : Message := ⟨id, sender, some receiver, none, content, 0, ts⟩
    have hecho (t : Carrier) (ht : t.Rest) (hid : id ∈ t.own) : Prog.Follows handing (do
        let own ← call (.connectionsOf .echo sender)
        sendEach .echo sender m.event own
        pure id) t (fun _ t' => t'.Rest) Carrier.Rest := by
      refine ⟨ht, ?_⟩
      rintro own t' rfl
      obtain ⟨hown, hrest, haims⟩ := after_connectionsOf t .echo (by simp) sender own
      dsimp only [ret_bind]
      apply (follows_bind ..).mpr
      apply (sendEach_handing (m := m) (by simp) (hrest.trans ht) (hown ▸ hid) haims
        Carrier.Rest).mono
      · rintro _ t' rfl
        exact hrest.trans ht
      · exact fun _ h => h
    refine ⟨ht, ?_⟩
    rintro conns t' rfl
    obtain ⟨hown, hrest, haims⟩ :=
      after_connectionsOf { t with own := insert id t.own } .deliver (by simp) receiver conns
    have hid := hown.symm.subset (Set.mem_insert id t.own)
    dsimp only [ret_bind]
    apply (follows_bind ..).mpr
    split
    · refine ⟨⟨hrest.trans ht, hid⟩, ?_⟩
      rintro r t' rfl
      exact hecho _ (hrest.trans ht) hid
    · apply (follows_bind ..).mpr
      apply (sendEach_handing (m := m) (by simp) (hrest.trans ht) hid haims Carrier.Rest).mono
      · rintro _ t' rfl
        refine ⟨hrest.trans ht, ?_⟩
        rintro r t' rfl
        exact hecho _ (hrest.trans ht) hid
      · exact fun _ h => h

theorem fanOut_handing {m : Message} {sender : Nat} (us : List Nat) (ht : t.Rest)
    (hid : m.id ∈ t.own) :
    (MessageRouter.fanOut m.id sender m.event us).Follows handing t (fun _ t' => t'.Rest)
      Carrier.Rest := by
  induction us generalizing t with
  | nil => exact ht
  | cons u us ih =>
    refine ⟨ht, ?_⟩
    rintro conns t' rfl
    obtain ⟨hown, hrest, haims⟩ := after_connectionsOf t .fanOut (by simp) u conns
    have ht' : (t.after (.connectionsOf .fanOut u) conns).Rest := hrest.trans ht
    have hid' : m.id ∈ (t.after (.connectionsOf .fanOut u) conns).own := hown ▸ hid
    dsimp only [ret_bind]
    apply (follows_bind ..).mpr
    split
    · split
      · refine ⟨⟨ht', hid'⟩, ?_⟩
        rintro r t' rfl
        exact ih ht' hid'
      · exact ih ht' hid'
    · apply (sendEach_handing (by simp) ht' hid' haims Carrier.Rest).mono
      · rintro _ t' rfl
        exact ih ht' hid'
      · exact fun _ h => h

theorem sendRoom_handing (sender room : Nat) (content : String) :
    Keeps handing Carrier.Rest (MessageRouter.sendRoom sender room content) := by
  refine (handing_neutral 0).op (o := .isMember room sender) (by simp) fun isMember => ?_
  cases isMember with
  | false => exact keeps_ret 0
  | true =>
    refine (handing_neutral 0).op (o := .now) (by simp) fun ts => ?_
    intro t ht
    refine ⟨ht, ?_⟩
    rintro stored t' rfl
    cases stored with
    | none => exact ht
    | some id =>
      let m : Message := ⟨id, sender, none, some room, content, 0, ts⟩
      refine ⟨ht, ?_⟩
      rintro members t' rfl
      dsimp only [ret_bind]
      apply (follows_bind ..).mpr
      apply (fanOut_handing (t := { t with own := insert id t.own }) (m := m) members ht
        (Set.mem_insert id t.own)).mono
      · exact fun _ _ h => h
      · exact fun _ h => h

theorem body_handing (env : Env) (input : Input) : Keeps handing Carrier.Rest (body env input) := by
  cases input with
  | close c => exact close_uses.keeps (handing_neutral c) (by decide)
  | request c payload =>
    exact handlers.dispatch_keeps_routing (handing_neutral c) (by decide)
      bind_handing sendDm_handing
      sendRoom_handing

end Programs

theorem ids_drain_sublist (s : Store) (u : Nat) :
    ((s.drainUndelivered u).1.map Message.id).Sublist (s.queue u) := by
  rw [Store.drain_messages]
  induction s.queue u with
  | nil => exact .refl _
  | cons id ids ih =>
    cases hfound : s.findMessage id with
    | none =>
      rw [List.filterMap_cons_none hfound]
      exact ih.cons id
    | some m =>
      have hid : m.id = id := by simpa using List.find?_some hfound
      rw [List.filterMap_cons_some hfound, List.map_cons, hid]
      exact ih.cons_cons id

def HandedAt (R : Nat → Nat → Prop) (h : Hist) (hs : Nat → Carrier) : Prop :=
  ∃ shown : Nat → List Nat, (∀ u, shownTo u h.log = (shown u).map toI64) ∧
    HandedInTurn R ⟨h.state.store.queue, shown, h.state.store.nextMsgId⟩ hs

section Steps

variable {env : Env} {R : Nat → Nat → Prop} {h : Hist} {hs hs' : Nat → Carrier} {k : Nat}
  {input : Input}

theorem shownTo_concat (u : Nat) (log : Log) (e : Event Input Op World) :
    shownTo u (log ++ [e]) = shownTo u log ++ (e.op.shows u).toList := by
  rw [shownTo, List.filterMap_append, shownTo]
  cases hshow : e.op.shows u <;> simp [hshow]

theorem HandedAt.still {o : Op} {shown : Nat → List Nat}
    (hshown : ∀ u, shownTo u h.log = (shown u).map toI64) (hnone : ∀ u, o.shows u = none)
    (hstore : (memExec env o h.state).2.store.queue = h.state.store.queue)
    (hturn : HandedInTurn R
      ⟨h.state.store.queue, shown, (memExec env o h.state).2.store.nextMsgId⟩ hs') :
    HandedAt R (h.record (memExec env) k input o).2 hs' := by
  refine ⟨shown, fun u => ?_, ?_⟩
  · rw [History.record_log, shownTo_concat, hnone, hshown]
    exact List.append_nil _
  · rwa [History.record_state, hstore]

theorem HandedAt.shows {caller : Caller} {u d x : Nat} {cs : List Nat} {j : Json}
    {shown : Nat → List Nat} (hshown : ∀ u, shownTo u h.log = (shown u).map toI64)
    (hx : getI64 j "msg_id" 0 = toI64 x)
    (hturn : HandedInTurn R ⟨h.state.store.queue, Function.update shown u (shown u ++ [x]),
      h.state.store.nextMsgId⟩ hs') :
    HandedAt R (h.record (memExec env) k input (.sendFrame (.loop caller u cs) d j)).2 hs' := by
  refine ⟨Function.update shown u (shown u ++ [x]), fun v => ?_, ?_⟩
  · rw [History.record_log, shownTo_concat, hshown, Op.shows]
    by_cases hv : u = v
    · subst hv
      simp [hx]
    · simp [hv, Function.update_of_ne (Ne.symm hv)]
  · rwa [History.record_state, memExec_store env _ _ (by simp)]

theorem queue_enqueue (id u : Nat) (w : World) :
    (memExec env (.repo (.enqueueUndelivered id u)) w).2.store.queue =
      Function.update w.store.queue u (w.store.queue u ++ [id]) := by
  funext v
  rw [memExec_repo, memory_queue, RepoOp.onQueue]
  by_cases hv : u = v
  · subst hv
    simp
  · rw [if_neg hv, Function.update_of_ne (Ne.symm hv)]

theorem queue_drain (u : Nat) (w : World) :
    (memExec env (.repo (.drainUndelivered u)) w).2.store.queue =
      Function.update w.store.queue u [] := by
  funext v
  rw [memExec_repo, memory_queue, RepoOp.onQueue]
  by_cases hv : u = v
  · subst hv
    simp
  · rw [if_neg hv, Function.update_of_ne (Ne.symm hv)]

theorem HandedAt.look (hh : HandedAt R h hs) (caller : Caller) (u : Nat)
    (hlook : caller ≠ .replay → h.state.slot u ≠ ∅ →
      h.state.store.queue u = [] ∧ ∀ n, (hs n).user = u → (hs n).rest = []) :
    HandedAt R (h.record (memExec env) k input (.connectionsOf caller u)).2
      (Function.update hs k ((hs k).after (.connectionsOf caller u)
        (memExec env (.connectionsOf caller u) h.state).1)) := by
  obtain ⟨shown, hshown, hturn⟩ := hh
  have hstore := memExec_store env (.connectionsOf caller u) h.state (by simp)
  refine HandedAt.still hshown (fun _ => rfl) (by rw [hstore]) ?_
  rw [hstore]
  by_cases hcaller : caller = .replay
  · subst hcaller
    refine hturn.putAside ?_ ?_ ?_ ?_ <;> simp only [Carrier.after] <;> split <;>
      first | rfl | exact List.nil_sublist _
  · have hafter : (hs k).after (.connectionsOf caller u)
        (memExec env (.connectionsOf caller u) h.state).1 =
          if h.state.slot u = ∅ then hs k else { hs k with aims := insert u (hs k).aims } := by
      have hempty := order_eq_nil env h.state.walks (s := h.state.slot u)
      cases caller <;> first | exact absurd rfl hcaller | exact if_congr hempty rfl rfl
    rw [hafter]
    split
    · rwa [Function.update_eq_self]
    · rename_i honline
      obtain ⟨hqueue, hfree⟩ := hlook hcaller honline
      exact hturn.aim hqueue hfree rfl rfl rfl rfl

theorem HandedAt.push (hh : HandedAt R h hs) (hlast : ∀ j, ¬R k j) {caller : Caller} {u d : Nat}
    {cs : List Nat} {j : Json} (ha : (hs k).allows (.sendFrame (.loop caller u cs) d j)) :
    HandedAt R (h.record (memExec env) k input (.sendFrame (.loop caller u cs) d j)).2
      (Function.update hs k ((hs k).after (.sendFrame (.loop caller u cs) d j) ())) := by
  obtain ⟨shown, hshown, hturn⟩ := hh
  by_cases hcaller : caller = .replay
  · subst hcaller
    obtain ⟨hu, x, xs, hrest, hx⟩ := ha
    refine HandedAt.shows hshown hx ?_
    refine (hturn.pushTaken hrest hu).putAside ?_ ?_ ?_ ?_ <;> simp only [Carrier.after] <;>
      split <;> first | rfl | exact List.tail_sublist _
  · obtain ⟨-, hu, x, hx, hid⟩ : (hs k).rest = [] ∧ u ∈ (hs k).aims ∧
        ∃ x ∈ (hs k).own, getI64 j "msg_id" 0 = toI64 x := by
      cases caller <;> first | exact ha | exact absurd rfl hcaller
    have hafter : (hs k).after (.sendFrame (.loop caller u cs) d j) () = hs k := by
      cases caller <;> first | rfl | exact absurd rfl hcaller
    rw [hafter, Function.update_eq_self]
    exact HandedAt.shows hshown hid (hturn.push hlast hx hu)

theorem HandedAt.repo (hh : HandedAt R h hs) (hlast : ∀ j, ¬R k j) {o : RepoOp}
    (ha : (hs k).allows (.repo o))
    (hdrain : ∀ u, o = .drainUndelivered u → ∀ n, (hs n).user = u → (hs n).rest = []) :
    HandedAt R (h.record (memExec env) k input (.repo o)).2
      (Function.update hs k ((hs k).after (.repo o) (memExec env (.repo o) h.state).1)) := by
  obtain ⟨shown, hshown, hturn⟩ := hh
  have hqueue (u : Nat) := memory_queue env o h.state u
  have hlog (u : Nat) : shownTo u (h.record (memExec env) k input (.repo o)).2.log =
      (shown u).map toI64 := by
    rw [History.record_log, shownTo_concat, hshown]
    exact List.append_nil _
  cases o with
  | insertDm a b content ts =>
    exact HandedAt.still hshown (fun _ => rfl) (funext hqueue) (hturn.bring hlast rfl rfl rfl rfl)
  | insertRoomMsg a r content ts =>
    exact HandedAt.still hshown (fun _ => rfl) (funext hqueue) (hturn.bring hlast rfl rfl rfl rfl)
  | enqueueUndelivered id u =>
    rw [show Carrier.after _ _ _ = hs k from rfl, Function.update_eq_self]
    refine ⟨shown, hlog, ?_⟩
    rw [History.record_state, queue_enqueue]
    exact hturn.enqueue hlast ha.2
  | drainUndelivered u =>
    refine ⟨shown, hlog, ?_⟩
    have hnext : (memExec env (.repo (.drainUndelivered u)) h.state).2.store.nextMsgId =
        h.state.store.nextMsgId := memory_nextMsgId env _ _
    rw [History.record_state, queue_drain, hnext]
    exact hturn.take (hdrain u rfl) rfl rfl rfl (ids_drain_sublist ..)
  | _ =>
    rw [show Carrier.after _ _ _ = hs k from rfl, Function.update_eq_self]
    refine HandedAt.still hshown (fun _ => rfl) (funext hqueue) ?_
    rw [memExec_repo, memory_nextMsgId]
    exact hturn

theorem HandedAt.op (hh : HandedAt R h hs) (hlast : ∀ j, ¬R k j) {o : Op} (ha : (hs k).allows o)
    (hlook : ∀ caller u, o = .connectionsOf caller u → caller ≠ .replay → h.state.slot u ≠ ∅ →
      h.state.store.queue u = [] ∧ ∀ n, (hs n).user = u → (hs n).rest = [])
    (hdrain : ∀ u, o = .repo (.drainUndelivered u) → ∀ n, (hs n).user = u → (hs n).rest = []) :
    HandedAt R (h.record (memExec env) k input o).2
      (Function.update hs k ((hs k).after o (memExec env o h.state).1)) := by
  have hother {o : Op} (hnone : ∀ u, o.shows u = none)
      (hstore : (memExec env o h.state).2.store = h.state.store) :
      HandedAt R (h.record (memExec env) k input o).2 hs := by
    obtain ⟨shown, hshown, hturn⟩ := hh
    refine HandedAt.still hshown hnone (by rw [hstore]) ?_
    rwa [hstore]
  cases o with
  | connectionsOf caller u => exact hh.look caller u (hlook caller u rfl)
  | sendFrame site d j =>
    cases site with
    | reply =>
      rw [show Carrier.after _ _ _ = hs k from rfl, Function.update_eq_self]
      exact hother (fun _ => rfl) (memExec_store env _ _ (by simp))
    | loop caller u cs => exact hh.push hlast ha
  | repo o => exact hh.repo hlast ha fun u heq => hdrain u (congrArg Op.repo heq)
  | _ =>
    rw [show Carrier.after _ _ _ = hs k from rfl, Function.update_eq_self]
    exact hother (fun _ => rfl) (memExec_store env _ _ (by simp))

end Steps

structure InSequence (env : Env) (g : Sys) (ts : Nat → Stored × Carrier) :
    Prop extends Served env g where
  acked : ∀ e ∈ g.hist.log, ∀ c, g.dmOf env e.task = some c →
    ∀ m, e.op.acks = some m → (ts e.task).1 = some m
  stored : ∀ i m, (ts i).1 = some m → m ∈ (ts i).2.own
  replayed : ∀ i, (ts i).2.rest ≠ [] → ∃ e ∈ g.hist.log, e.task = i
  handed : HandedAt (g.ahead env) g.hist fun i => (ts i).2

abbrev posting (env : Env) (input : Input) : Contract Op.Ret (Stored × Carrier) :=
  (acking (input.sendsDm env)).prod handing

theorem body_posting (env : Env) (input : Input) :
    (body env input).Follows (posting env input) (none, .idle) (fun _ t => t.2.Rest) fun t =>
    t.2.Rest :=
  ((body_acking env input).prod (body_handing env input .idle rfl)).mono (fun _ _ h => h.2)
    fun _ h => h.2

namespace InSequence

variable {env : Env} {g : Sys} {ts : Nat → Stored × Carrier} {i : Nat} {input : Input}

theorem carriers_update (t : Stored × Carrier) :
    (fun n => (Function.update ts i t n).2) = Function.update (fun n => (ts n).2) i t.2 :=
  funext fun n => Function.apply_update (fun _ => Prod.snd) ts i t n

theorem init : InSequence env Sys.start fun _ => (none, .idle) where
  toServed := .init
  acked _ h := nomatch h
  stored _ _ h := nomatch h
  replayed _ h := absurd rfl h
  handed := ⟨fun _ => [], fun _ => rfl, handedInTurn_empty _ _ (fun _ => rfl) (fun _ => rfl) _⟩

theorem start (h : InSequence env g ts) (htaken : takenInOrder g (.start i input) = true)
    (hserved : servedInOrder env g (.start i input) = true) (hi : g.tasks i = .fresh) :
    InSequence env { g with tasks := Function.update g.tasks i (.busy input (body env input)) }
      (Function.update ts i (none, .idle)) := by
  have hne {e : Event Input Op World} (he : e ∈ g.hist.log) : e.task ≠ i := by
    rintro rfl
    have hstarted := h.logged e he
    rw [hi] at hstarted
    cases hstarted
  refine ⟨h.toServed.start hi htaken hserved, ?_, ?_, ?_, ?_⟩
  · intro e he c hdm
    rw [Sys.dmOf_start_ne (hne he)] at hdm
    rw [Function.update_of_ne (hne he)]
    exact h.acked e he c hdm
  · intro n m hm
    by_cases hn : n = i
    · subst hn
      simp at hm
    · rw [Function.update_of_ne hn] at hm ⊢
      exact h.stored n m hm
  · intro n hrest
    by_cases hn : n = i
    · subst hn
      exact absurd (by simp [Carrier.idle]) hrest
    · rw [Function.update_of_ne hn] at hrest
      exact h.replayed n hrest
  · obtain ⟨shown, hshown, hturn⟩ := h.handed
    refine ⟨shown, hshown, ?_⟩
    rw [carriers_update]
    exact hturn.start rfl rfl rfl (fun j hj => (h.toServed.ahead_start hi hj).1 rfl)
      fun n j hj hnj => (h.toServed.ahead_start hi hnj).2 hj

theorem replaying_of_rest (h : InSequence env g ts)
    (ht : Config.Tracked (posting env) (fun t => t.2.Rest) g ts) {n : Nat}
    (hrest : (ts n).2.rest ≠ []) : g.replaying (ts n).2.user = true := by
  obtain ⟨e, he, rfl⟩ := h.replayed n hrest
  refine List.any_eq_true.mpr ⟨e, he, ?_⟩
  have hfollows := ht e.task
  rw [Config.nextOp]
  cases htask : g.tasks e.task with
  | fresh =>
    rw [htask] at hfollows
    exact absurd hfollows hrest
  | busy j x =>
    rw [htask] at hfollows
    cases x with
    | ret a => exact absurd hfollows hrest
    | throw => exact absurd hfollows hrest
    | op o k =>
      obtain ⟨⟨-, ha⟩, -⟩ := hfollows
      change Carrier.allows _ o at ha
      unfold Carrier.allows at ha
      split at ha
      · simp [Op.replaysTo, ha]
      · simp [Op.replaysTo, ha.1]
      · exact absurd ha.1 hrest
      · exact absurd ha.1 hrest
      · exact absurd ha hrest

theorem rest_of_replaying (h : InSequence env g ts)
    (ht : Config.Tracked (posting env) (fun t => t.2.Rest) g ts) {u : Nat}
    (hu : g.replaying u = false) (n : Nat) (hn : (ts n).2.user = u) : (ts n).2.rest = [] := by
  by_contra hrest
  have hreplays := h.replaying_of_rest ht hrest
  rw [hn, hu] at hreplays
  cases hreplays

theorem own_subset_after (t : Carrier) (o : Op) (r : o.Ret) : t.own ⊆ (t.after o r).own := by
  unfold Carrier.after
  split <;> first | exact Set.subset_insert .. | exact subset_rfl | (split <;> exact subset_rfl)

theorem mem_own_of_after {t : Stored} {t' : Carrier} (hold : ∀ m, t = some m → m ∈ t'.own)
    {o : Op} {r : o.Ret} {m : Nat} (hm : t.after o r = some m) : m ∈ (t'.after o r).own := by
  unfold Stored.after at hm
  split at hm
  · obtain rfl := hm
    exact Set.mem_insert m t'.own
  · exact own_subset_after t' _ _ (hold m hm)

theorem acked_op (h : InSequence env g ts) {o : Op} {k : o.Ret → ServerM Unit}
    (hi : g.tasks i = .busy input (.op o k)) (ha : (posting env input).allows (ts i) o)
    {e : Event Input Op World} (he : e ∈ (g.perform (memExec env) i input o k).hist.log) {c : Nat}
    (hde : g.dmOf env e.task = some c) {m : Nat} (hm : e.op.acks = some m) :
    (if e.task = i then (ts i).1.after o (memExec env o g.hist.state).1 else (ts e.task).1) =
      some m := by
  rcases List.mem_append.mp he with he | he
  · have hold := h.acked e he c hde m hm
    split
    · rename_i hei
      rw [hei] at hold hde
      have hallowed := ha.1 (Sys.sendsDm_of_dmOf hi hde)
      unfold Stored.after
      split
      · exact absurd (hold.symm.trans hallowed) (by simp)
      · exact hold
    · exact hold
  · obtain rfl := List.mem_singleton.mp he
    have hallowed := ha.1 (Sys.sendsDm_of_dmOf hi hde)
    have hkind : o.kind ≠ .storeDm := by
      intro hstore
      rw [acks_eq_none (by simp [hstore])] at hm
      cases hm
    rw [if_pos rfl, Stored.after_eq hkind]
    exact Stored.acks hallowed hm

theorem op (h : InSequence env g ts) (ht : Config.Tracked (posting env) (fun t => t.2.Rest) g ts)
    {o : Op} {k : o.Ret → ServerM Unit} (hi : g.tasks i = .busy input (.op o k))
    (hrouted : routedInOrder g (.advance i) = true) (ha : (posting env input).allows (ts i) o) :
    InSequence env (g.perform (memExec env) i input o k) (Function.update ts i
      (if input.sendsDm env then (ts i).1.after o (memExec env o g.hist.state).1 else (ts i).1,
        (ts i).2.after o (memExec env o g.hist.state).1)) := by
  refine ⟨h.toServed.perform hi, ?_, ?_, ?_, ?_⟩
  · intro e he c hde m hm
    rw [Sys.dmOf_perform hi] at hde
    have hacked := h.acked_op hi ha he hde hm
    by_cases hei : e.task = i
    · rw [if_pos hei] at hacked
      rwa [hei, Function.update_self, if_pos (Sys.sendsDm_of_dmOf hi (hei ▸ hde))]
    · rw [if_neg hei] at hacked
      rwa [Function.update_of_ne hei]
  · intro n m hm
    by_cases hn : n = i
    · subst hn
      rw [Function.update_self] at hm ⊢
      simp only at hm ⊢
      split at hm
      · exact mem_own_of_after (h.stored n) hm
      · exact own_subset_after _ _ _ (h.stored n m hm)
    · rw [Function.update_of_ne hn] at hm ⊢
      exact h.stored n m hm
  · intro n hrest
    by_cases hn : n = i
    · exact ⟨_, List.mem_append_right _ (List.mem_singleton.mpr rfl), hn.symm⟩
    · rw [Function.update_of_ne hn] at hrest
      obtain ⟨e, he, heq⟩ := h.replayed n hrest
      exact ⟨e, List.mem_append_left _ he, heq⟩
  · rw [carriers_update, Served.ahead_perform hi]
    refine h.handed.op (h.toServed.last hi) ha.2 ?_ ?_
    · rintro caller u rfl hcaller honline
      have hcheck : g.hist.state.slot u = ∅ ∨
          (g.hist.state.store.queue u = [] ∧ g.replaying u = false) := by
        rw [routedInOrder, Config.nextOp_eq hi] at hrouted
        cases caller <;> first | exact of_decide_eq_true hrouted | exact absurd rfl hcaller
      obtain ⟨hqueue, hnone⟩ := hcheck.resolve_left honline
      exact ⟨hqueue, h.rest_of_replaying ht hnone⟩
    · rintro u rfl
      rw [routedInOrder, Config.nextOp_eq hi] at hrouted
      exact h.rest_of_replaying ht (by simpa using hrouted)

end InSequence

def oneByOne (env : Env) (g : Sys) (m : Move Input) : Bool :=
  takenInOrder g m && servedInOrder env g m && routedInOrder g m

theorem inSequence_reachable {env : Env} {g : Sys}
    (hg : Reachable env (fun g m => oneByOne env g m = true) g) : ∃ ts, InSequence env g ts := by
  suffices h : ∃ ts, Config.Tracked (posting env) (fun t => t.2.Rest) g ts ∧
    InSequence env g ts from
    h.imp fun _ h => h.2
  refine Config.Reach.invariant (InSequence env) (fun _ => (none, .idle)) (fun _ => (none, .idle))
    (fun _ => rfl) .init (body_posting env) ?_ ?_ hg
  · intro g ts i input _ h hok hf
    simp only [oneByOne, Bool.and_eq_true] at hok
    exact h.start hok.1.1 hok.1.2 hf
  · intro g ts i input o k ht h hok hi ha
    simp only [oneByOne, Bool.and_eq_true] at hok
    exact ⟨(_, _), ⟨rfl, rfl⟩, h.op ht hi hok.2 ha⟩

theorem InSequence.shown {env : Env} {g : Sys} {ts : Nat → Stored × Carrier}
    (h : InSequence env g ts) (hids : g.hist.state.store.nextMsgId ≤ 2 ^ 64) {m m' : Nat}
    (hm : Earlier (g.ahead env) (fun n => (ts n).2) m m') (u : Nat) :
    InTurn (toI64 m) (toI64 m') (shownTo u g.hist.log) := by
  obtain ⟨shown, hshown, hturn⟩ := h.handed
  obtain ⟨i, j, hij, hi, hj⟩ := hm
  have hinj {x y : Nat} (hx : x < g.hist.state.store.nextMsgId)
    (hy : y < g.hist.state.store.nextMsgId)
      (heq : toI64 x = toI64 y) : x = y := by
    rw [toI64_inj] at heq
    omega
  rw [hshown]
  apply (hturn.shown m m' ⟨i, j, hij, hi, hj⟩ u).map
  · exact fun x hx => hinj (hturn.shown_lt u x hx) (hturn.own_lt i m hi)
  · exact fun x hx => hinj (hturn.shown_lt u x hx) (hturn.own_lt j m' hj)

theorem history_rising {s : Store} (hs : s.Sound) (t : Thread) (before lim : Nat) :
    ((s.history t before lim).map Message.id).Pairwise (· < ·) := by
  rw [history_eq_drop]
  exact hs.ordered.sublist (((List.drop_sublist ..).trans List.filter_sublist).map _)

theorem dm_order_kept {env : Env} {g : Sys}
    (hg : Reachable env (fun g m => oneByOne env g m = true) g)
    (hids : g.hist.state.store.nextMsgId ≤ 2 ^ 64) {c i j m m' : Nat} (hi : g.dmOf env i = some c)
    (hj : g.dmOf env j = some c) (hij : i < j) (hm : g.acked i m = true)
    (hm' : g.acked j m' = true) :
    m < m' ∧ (∀ u, InTurn (toI64 m) (toI64 m') (shownTo u g.hist.log)) ∧
      (∀ u, InTurn m m' (g.hist.state.store.queue u)) ∧
      ∀ t before lim, InTurn m m' ((g.hist.state.store.history t before lim).map Message.id) := by
  obtain ⟨ts, h⟩ := inSequence_reachable hg
  obtain ⟨shown, -, hturn⟩ := h.handed
  obtain ⟨_, hticketed⟩ := ticketed_reachable hg
  have hown {n m : Nat} (hn : g.dmOf env n = some c) (hm : g.acked n m = true) :
      m ∈ (ts n).2.own := by
    obtain ⟨e, he, heq⟩ := List.any_eq_true.mp hm
    obtain ⟨rfl, ho⟩ := of_decide_eq_true heq
    exact h.stored _ m (h.acked e he c hn m ho)
  have hearlier : Earlier (g.ahead env) (fun n => (ts n).2) m m' :=
    ⟨i, j, ⟨hij, c, hi, hj⟩, hown hi hm, hown hj hm'⟩
  have hlt := hturn.rising m m' hearlier
  exact ⟨hlt, h.shown hids hearlier, hturn.queue m m' hearlier,
    fun t before lim => inTurn_of_pairwise (history_rising hticketed.sound t before lim) hlt⟩

section Runs

def twoDms (env : Env) (g : Sys) (i j m m' : Nat) : Bool :=
  (g.hist.state.conns 1).userId = 1 ∧ g.dmOf env i = some 1 ∧ g.dmOf env j = some 1 ∧
    g.acked i m ∧ g.acked j m'

def bothEnv : Env :=
  sampleEnv [registerReq "alice" "wonder", registerReq "bob" "builder", loginReq "alice" "wonder",
    loginReq "bob" "builder", sendDmReq 2 "first", sendDmReq 2 "second"]

def replayedRun : List (Move Input) :=
  aliceOnline ++ begin 3 (ask 1 (sendDmReq 2 "first")) 10 ++
    begin 4 (ask 2 (loginReq "bob" "builder")) 9 ++
  begin 5 (ask 1 (sendDmReq 2 "second")) 4 ++ List.replicate 3 (.advance 4) ++
    List.replicate 7 (.advance 5)

theorem dm_order_kept_replayedRun :
    ∃ g, Reachable bothEnv (fun g m => oneByOne bothEnv g m = true) g ∧
      twoDms bothEnv g 3 5 1 2 = true ∧
      shownTo 1 g.hist.log = [1, 2] ∧ shownTo 2 g.hist.log = [1, 2] ∧
      InTurn (toI64 1) (toI64 2) (shownTo 2 g.hist.log) := by
  have hrun : (Sys.start.steps (memExec bothEnv) (body bothEnv) (oneByOne bothEnv) replayedRun).map
      (fun g => (twoDms bothEnv g 3 5 1 2, shownTo 1 g.hist.log, shownTo 2 g.hist.log,
        g.hist.state.store.nextMsgId)) = some (true, [1, 2], [1, 2], 3) := by decide +kernel
  obtain ⟨g, hreach, heq⟩ := Config.Reach.of_steps (fun _ _ h => h) hrun
  simp only [Prod.mk.injEq] at heq
  obtain ⟨hdms, halice, hbob, hnext⟩ := heq
  have hids : g.hist.state.store.nextMsgId ≤ 2 ^ 64 := by
    rw [hnext]
    decide
  obtain ⟨-, hfirst, hsecond, hm, hm'⟩ := of_decide_eq_true hdms
  exact ⟨g, hreach, hdms, halice, hbob,
    (dm_order_kept hreach hids hfirst hsecond (by decide) hm hm').2.1 2⟩

theorem dm_order_overtaken :
    ∃ g, Reachable twoDmsEnv (fun g m => takenInOrder g m = true) g ∧
      twoDms twoDmsEnv g 3 4 2 1 = true ∧
      g.hist.state.store.queue 2 = [1, 2] ∧
      (g.hist.state.store.history (.dm 1 2) 0 50).map Message.content = ["second", "first"] := by
  have hrun : (Sys.start.steps (memExec twoDmsEnv) (body twoDmsEnv) takenInOrder overtakenRun).map
      (fun g => (twoDms twoDmsEnv g 3 4 2 1, g.hist.state.store.queue 2,
        (g.hist.state.store.history (.dm 1 2) 0 50).map Message.content)) =
      some (true, [1, 2], ["second", "first"]) := by decide +kernel
  obtain ⟨g, hreach, heq⟩ := Config.Reach.of_steps (fun _ _ h => h) hrun
  simp only [Prod.mk.injEq] at heq
  exact ⟨g, hreach, heq⟩

end Runs

end ChatServer
