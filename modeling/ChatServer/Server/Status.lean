import ChatServer.Server.Copies

namespace ChatServer

open Lib Lib.Prog

/-- The event of message `m` was passed to `send_frame` on a connection bound to user `r`. -/
def Passed (log : Log) (m r : Nat) : Prop :=
  ∃ e ∈ log, ∃ p, e.op.pushed = some p ∧ isEventOf m p.2 = true ∧ p.1 ∈ e.before.slot r

def Truthful (h : Hist) : Prop :=
  ∀ x ∈ h.state.store.messages, ∀ r, x.receiverId = some r → (x.status = 1 ↔ Passed h.log x.id r)

/-- The step brings a user online for whom a direct message waits. -/
def wakesToMail (e : Event Input Op World) : Bool :=
  match e.op with
  | .bindSlot u _ =>
    e.before.slot u = ∅ ∧ (e.before.store.drainUndelivered u).1.any fun x => x.receiverId.isSome
  | _ => false

def Misreported (h : Hist) : Prop :=
  ∃ x ∈ h.state.store.messages, ∃ r, x.receiverId = some r ∧ x.status = 0 ∧ Passed h.log x.id r

theorem Misreported.not_truthful {h : Hist} (hm : Misreported h) : ¬Truthful h := by
  obtain ⟨x, hx, r, hr, hstatus, hpassed⟩ := hm
  intro ht
  have hone := (ht x hx r hr).mpr hpassed
  rw [hstatus] at hone
  cases hone

section Calls

variable {α : Type} {env : Env} {x : ServerM α} {h : Hist}

theorem passed_append {log log' : Log} {m r : Nat} :
    Passed (log ++ log') m r ↔ Passed log m r ∨ Passed log' m r := by
  simp only [Passed, List.mem_append, or_and_right, exists_or]

theorem exists_event {β : Type} {l : List β} {f : β → Nat} {x : Message} {m : Nat}
    {cs : Finset Nat} : (∃ p ∈ l.map (fun b => (f b, x.event)), isEventOf m p.2 = true ∧ p.1 ∈ cs) ↔
      x.id % 2 ^ 64 = m % 2 ^ 64 ∧ ∃ b ∈ l, f b ∈ cs := by
  simp only [List.mem_map]
  constructor
  · rintro ⟨-, ⟨b, hb, rfl⟩, hevent, hc⟩
    rw [isEventOf_event, decide_eq_true_eq] at hevent
    exact ⟨hevent, b, hb, hc⟩
  · rintro ⟨hid, b, hb, hc⟩
    exact ⟨_, ⟨b, hb, rfl⟩, (isEventOf_event m x).trans (decide_eq_true hid), hc⟩

theorem events_slot {d : Nat} {ks : List Kind} (hx : Uses d ks x) (hks : ks ⊆ Pushes.kinds)
    (i : Nat) (j : Input)
    {w : World} {e : Event Input Op World} (he : e ∈ History.events (memExec env) i j x w)
    (r : Nat) : e.before.slot r = w.slot r := by
  induction x generalizing w with
  | ret a => cases he
  | throw => cases he
  | op o k ih =>
    rcases List.mem_cons.mp he with rfl | he
    · rfl
    · rw [ih _ (hx.2 _) he]
      have hop : Pushes env w (memExec env o w).2 o.sent.toList := Pushes.op (hks hx.1.1)
      rw [World.slot, World.slot, hop.presence]

theorem passed_call {d : Nat} {ks : List Kind} (hx : Uses d ks x) (hks : ks ⊆ Pushes.kinds)
    (hreply : .reply ∉ ks)
    (i : Nat) (j : Input) (m r : Nat) : Passed (h.run (memExec env) i j x).2.log m r ↔
      Passed h.log m r ∨ ∃ p ∈ sent env x h.state, isEventOf m p.2 = true ∧
      p.1 ∈ h.state.slot r := by
  rw [History.run_log, passed_append, ← trace_pushed env hx hreply,
    ← History.map_op_events (memExec env) i j]
  refine or_congr_right ⟨?_, ?_⟩
  · rintro ⟨e, he, p, hp, hevent, hslot⟩
    rw [events_slot hx hks i j he] at hslot
    exact ⟨p, List.mem_filterMap.mpr ⟨e.op, List.mem_map_of_mem he, hp⟩, hevent, hslot⟩
  · rintro ⟨p, hmem, hevent, hslot⟩
    obtain ⟨o, ho, hp⟩ := List.mem_filterMap.mp hmem
    obtain ⟨e, he, rfl⟩ := List.mem_map.mp ho
    exact ⟨e, he, p, hp, hevent, (events_slot hx hks i j he r).symm ▸ hslot⟩

theorem wakes_call {d : Nat} {ks : List Kind} (hx : Uses d ks x) (hks : .bind ∉ ks)
    {i : Nat} {j : Input}
    {e : Event Input Op World} (he : e ∈ (h.run (memExec env) i j x).2.log) : e ∈ h.log ∨
    wakesToMail e = false := by
  rw [History.run_log] at he
  refine (List.mem_append.mp he).imp_right fun he => ?_
  have hop : e.op ∈ x.trace (memExec env) h.state := by
    rw [← History.map_op_events (memExec env) i j]
    exact List.mem_map_of_mem he
  obtain ⟨hkind, -⟩ := Only.trace (memExec env) hx h.state e.op hop
  unfold wakesToMail
  split
  · rename_i hbind
    rw [hbind] at hkind
    exact absurd hkind hks
  · rfl

end Calls

structure Booked (h : Hist) : Prop where
  fresh : h.state.store.FreshIds
  unseen : ∀ m r, h.state.store.nextMsgId ≤ m → m < 2 ^ 64 → ¬Passed h.log m r
  queue_lt : ∀ u, ∀ m ∈ h.state.store.queue u, m < h.state.store.nextMsgId
  queued : ∀ u, ∀ x ∈ h.state.store.messages, x.id ∈ h.state.store.queue u →
    ∀ r, x.receiverId = some r →
    r = u ∧ x.status = 0
  truthful : (∀ e ∈ h.log, wakesToMail e = false) → Truthful h
  misreported : ∀ e ∈ h.log, wakesToMail e = true → Misreported h

namespace Booked

variable {env : Env} {h h' : Hist}

theorem start : Booked Hist.start := by
  refine ⟨⟨?_, ?_⟩, ?_, ?_, ?_, fun _ => ?_, ?_⟩ <;>
    simp [Hist.start, World.init, Store.empty, Store.queue, Passed, Truthful]

theorem still (hb : Booked h) (hmessages : h'.state.store.messages = h.state.store.messages)
    (hnext : h'.state.store.nextMsgId = h.state.store.nextMsgId)
    (hqueue : ∀ u, h'.state.store.queue u ⊆ h.state.store.queue u)
    (hpassed : ∀ m r, Passed h'.log m r → Passed h.log m r ∨
      ∃ x ∈ h.state.store.messages, x.receiverId = none ∧ x.id % 2 ^ 64 = m % 2 ^ 64)
    (hfits : h.state.store.nextMsgId ≤ 2 ^ 64) (hgrows : h.log ⊆ h'.log)
    (hwakes : ∀ e ∈ h'.log, e ∈ h.log ∨ wakesToMail e = false) : Booked h' := by
  have hkept {m r : Nat} (hp : Passed h.log m r) : Passed h'.log m r := by
    obtain ⟨e, he, hrest⟩ := hp
    exact ⟨e, hgrows he, hrest⟩
  refine ⟨?_, fun m r hm hmax hp => ?_, fun u m hm => ?_, fun u x hx hm =>
    ?_, fun hquiet x hx r hr => ?_, ?_⟩
  · exact hb.fresh.congr (by rw [hmessages]) hnext
  · rw [hnext] at hm
    rcases hpassed m r hp with hp | ⟨x, hx, -, hid⟩
    · exact hb.unseen m r hm hmax hp
    · have hlt := hb.fresh.lt hx
      omega
  · exact hnext ▸ hb.queue_lt u m (hqueue u hm)
  · exact hb.queued u x (hmessages ▸ hx) (hqueue u hm)
  · rw [hmessages] at hx
    rw [hb.truthful (fun e he => hquiet e (hgrows he)) x hx r hr]
    refine ⟨hkept, fun hp => ?_⟩
    rcases hpassed x.id r hp with hp | ⟨y, hy, hnone, hid⟩
    · exact hp
    · have hxlt := hb.fresh.lt hx
      have hylt := hb.fresh.lt hy
      have hfind := hb.fresh.find hy
      rw [show y.id = x.id by omega, hb.fresh.find hx] at hfind
      cases hfind
      rw [hnone] at hr
      cases hr
  · intro e he hwake
    rcases hwakes e he with he | hno
    · obtain ⟨x, hx, r, hr, hstatus, hp⟩ := hb.misreported e he hwake
      exact ⟨x, hmessages ▸ hx, r, hr, hstatus, hkept hp⟩
    · rw [hno] at hwake
      cases hwake

theorem store (hb : Booked h) {x : Message} {P : Nat → Prop} (hid : x.id = h.state.store.nextMsgId)
    (hmessages : h'.state.store.messages = h.state.store.messages ++ [x])
    (hnext : h'.state.store.nextMsgId = h.state.store.nextMsgId + 1)
    (hfits : h'.state.store.nextMsgId ≤ 2 ^ 64)
    (hqueue : ∀ u, ∀ m ∈ h'.state.store.queue u, m ∈ h.state.store.queue u ∨
      m = x.id ∧ ∀ r, x.receiverId = some r → r = u ∧ x.status = 0)
    (hpassed : ∀ m r, Passed h'.log m r ↔ Passed h.log m r ∨ x.id % 2 ^ 64 = m % 2 ^ 64 ∧ P r)
    (hstatus : ∀ r, x.receiverId = some r → (x.status = 1 ↔ P r)) (hgrows : h.log ⊆ h'.log)
    (hwakes : ∀ e ∈ h'.log, e ∈ h.log ∨ wakesToMail e = false) : Booked h' := by
  rw [hnext] at hfits
  have hold {m r : Nat} (hm : m < 2 ^ 64) (hne : m ≠ h.state.store.nextMsgId) :
      Passed h'.log m r ↔ Passed h.log m r := by
    rw [hpassed, or_iff_left]
    omega
  refine ⟨?_, fun m r hm hmax => ?_, fun u m hm => ?_, fun u y hy hm r hr =>
    ?_, fun hquiet y hy r hr => ?_, ?_⟩
  · exact (hb.fresh.add x hid).congr (by rw [hmessages]) hnext
  · rw [hnext] at hm
    rw [hold hmax (by omega)]
    exact hb.unseen m r (by omega) hmax
  · rw [hnext]
    rcases hqueue u m hm with hm | ⟨rfl, -⟩
    · exact Nat.lt_succ_of_lt (hb.queue_lt u m hm)
    · omega
  · rw [hmessages, List.mem_append, List.mem_singleton] at hy
    rcases hqueue u y.id hm with hm | ⟨heq, hnew⟩
    · rcases hy with hy | rfl
      · exact hb.queued u y hy hm r hr
      · exact absurd (hb.queue_lt u y.id hm) (by omega)
    · rcases hy with hy | rfl
      · exact absurd (hb.fresh.lt hy) (by omega)
      · exact hnew r hr
  · rw [hmessages, List.mem_append, List.mem_singleton] at hy
    rcases hy with hy | rfl
    · have hylt := hb.fresh.lt hy
      rw [hold (by omega) (by omega)]
      exact hb.truthful (fun e he => hquiet e (hgrows he)) y hy r hr
    · rw [hstatus r hr, hpassed, or_iff_right (hid ▸ hb.unseen _ r le_rfl (by omega)),
        and_iff_right rfl]
  · intro e he hwake
    rcases hwakes e he with he | hno
    · obtain ⟨y, hy, r, hr, hzero, hp⟩ := hb.misreported e he hwake
      exact ⟨y, hmessages ▸ List.mem_append_left _ hy, r, hr, hzero, (hpassed _ r).mpr (.inl hp)⟩
    · rw [hno] at hwake
      cases hwake

theorem wake (hb : Booked h) {y : Message} {v : Nat}
    (hmessages : h'.state.store.messages = h.state.store.messages)
    (hnext : h'.state.store.nextMsgId = h.state.store.nextMsgId)
    (hqueue : ∀ u, h'.state.store.queue u ⊆ h.state.store.queue u)
    (hpassed : ∀ m r, Passed h'.log m r → Passed h.log m r ∨
      ∃ x ∈ h.state.store.messages, x.id % 2 ^ 64 = m % 2 ^ 64)
    (hfits : h.state.store.nextMsgId ≤ 2 ^ 64) (hy : y ∈ h.state.store.messages)
    (hdm : y.receiverId.isSome = true)
    (hqueued : y.id ∈ h.state.store.queue v) (hnew : Passed h'.log y.id v)
    (hwakes : ∃ e ∈ h'.log, wakesToMail e = true) : Booked h' := by
  obtain ⟨r, hr⟩ := Option.isSome_iff_exists.mp hdm
  obtain ⟨rfl, hzero⟩ := hb.queued v y hy hqueued r hr
  refine ⟨?_, fun m r hm hmax hp => ?_, fun u m hm => ?_, fun u x hx hm => ?_, fun hquiet => ?_, ?_⟩
  · exact hb.fresh.congr (by rw [hmessages]) hnext
  · rw [hnext] at hm
    rcases hpassed m r hp with hp | ⟨x, hx, hid⟩
    · exact hb.unseen m r hm hmax hp
    · have hlt := hb.fresh.lt hx
      omega
  · exact hnext ▸ hb.queue_lt u m (hqueue u hm)
  · exact hb.queued u x (hmessages ▸ hx) (hqueue u hm)
  · obtain ⟨e, he, hwake⟩ := hwakes
    rw [hquiet e he] at hwake
    cases hwake
  · exact fun _ _ _ => ⟨y, hmessages ▸ hy, r, hr, hzero, hnew⟩

end Booked

section Bind

variable {env : Env} {h : Hist} {v d : Nat}

theorem passed_bind (i : Nat) (j : Input) (m r : Nat) :
    Passed (h.run (memExec env) i j (Presence.bind v d)).2.log m r ↔ Passed h.log m r ∨
      ∃ p ∈ sent env (Presence.bind v d) h.state, isEventOf m p.2 = true ∧
        p.1 ∈ (memExec env (.bindSlot v d) h.state).2.slot r := by
  let h₁ := (h.record (memExec env) i j (.bindSlot v d)).2
  have hbind : Passed h₁.log m r ↔ Passed h.log m r := by
    rw [History.record_log, passed_append, or_iff_left]
    rintro ⟨e, he, p, hp, -⟩
    obtain rfl := List.mem_singleton.mp he
    cases hp
  have hsent : sent env (Presence.bind v d) h.state = sent env (Presence.announce v _) h₁.state :=
    sent_call env rfl
  rw [hsent, ← hbind]
  exact passed_call (h := h₁) (announce_uses d _) (by decide) (by decide) i j m r

theorem passed_bind_offline (hoff : h.state.slot v = ∅) (i : Nat) (j : Input) (m r : Nat) :
    Passed (h.run (memExec env) i j (Presence.bind v d)).2.log m r ↔ Passed h.log m r ∨
      ∃ x ∈ (h.state.store.drainUndelivered v).1, x.id % 2 ^ 64 = m % 2 ^ 64 ∧
        d ∈ (memExec env (.bindSlot v d) h.state).2.slot r := by
  rw [passed_bind, sent_bind env hoff]
  refine or_congr_right ?_
  simp only [List.mem_map]
  constructor
  · rintro ⟨-, ⟨x, hx, rfl⟩, hevent, hslot⟩
    rw [isEventOf_event, decide_eq_true_eq] at hevent
    exact ⟨x, hx, hevent, hslot⟩
  · rintro ⟨x, hx, hid, hslot⟩
    exact ⟨_, ⟨x, hx, rfl⟩, (isEventOf_event m x).trans (decide_eq_true hid), hslot⟩

theorem wakes_bind {i : Nat} {j : Input} {e : Event Input Op World}
    (he : e ∈ (h.run (memExec env) i j (Presence.bind v d)).2.log) :
    e ∈ h.log ∨ wakesToMail e = false ∨ e = ⟨i, j, .bindSlot v d, h.state⟩ := by
  let h₁ := (h.record (memExec env) i j (.bindSlot v d)).2
  have he' : e ∈ (h₁.run (memExec env) i j (Presence.announce v _)).2.log := he
  rcases wakes_call (announce_uses d _) (by decide) he' with he | hno
  · rcases List.mem_append.mp he with he | he
    · exact .inl he
    · exact .inr (.inr (List.mem_singleton.mp he))
  · exact .inr (.inl hno)

end Bind

def BookedInRange (h : Hist) : Prop := h.state.store.nextMsgId ≤ 2 ^ 64 → Booked h

section Steps

variable {α : Type} {env : Env}

theorem booked_call {i : Nat} {j : Input} {x : ServerM α}
    (hx : ∀ h, Booked h → (h.run (memExec env) i j x).2.state.store.nextMsgId ≤ 2 ^ 64 →
      h.state.store.nextMsgId ≤ 2 ^ 64 → Booked (h.run (memExec env) i j x).2) :
    Keeps (History.alone (memExec env) i j) BookedInRange x := by
  refine keeps_actual fun h hh hfits => ?_
  have hbefore : h.state.store.nextMsgId ≤ 2 ^ 64 := by
    refine (nextMsgId_run_le env x h.state).trans ?_
    rw [← (h.run_state (memExec env) i j x).2]
    exact hfits
  exact hx h (hh hbefore) hfits hbefore

theorem booked_neutral (i : Nat) (j : Input) (d : Nat) :
    Neutral (History.alone (memExec env) i j) BookedInRange d routine := by
  rintro o ⟨hk, -⟩ h hh
  refine ⟨trivial, ?_⟩
  rintro r h' ⟨rfl, rfl⟩
  refine ⟨fun hfits => ?_, trivial⟩
  obtain ⟨hmessages, hnext, hqueue⟩ := routine_store env hk h.state
  have hbefore : h.state.store.nextMsgId ≤ 2 ^ 64 := hnext ▸ hfits
  refine (hh hbefore).still hmessages hnext (fun u => by rw [History.record_state, hqueue]; simp)
    (fun m r hp => .inl ?_)
    hbefore (List.subset_append_left ..) (fun e he =>
      (List.mem_append.mp he).imp_right fun he => ?_)
  · rw [History.record_log, passed_append] at hp
    refine hp.resolve_right ?_
    rintro ⟨e, he, p, hp, -⟩
    obtain rfl := List.mem_singleton.mp he
    rw [routine_pushed hk] at hp
    cases hp
  · obtain rfl := List.mem_singleton.mp he
    unfold wakesToMail
    split
    · rename_i hop
      simp only at hop
      rw [hop] at hk
      simp [routine] at hk
    · rfl

theorem sendDm_booked (i : Nat) (j : Input) (s r : Nat) (content : String) :
    Keeps (History.alone (memExec env) i j) BookedInRange (MessageRouter.sendDm s r content) := by
  refine booked_call fun h hb hfits _ => ?_
  have huses := MessageRouter.sendDm_uses (c := 0) s r content
  have hstate := (h.run_state (memExec env) i j (MessageRouter.sendDm s r content)).2
  obtain ⟨cs, cs', -, hmem, -, -, hsent, hstore⟩ := sendDm_routes env s r content h.state
  rw [← hstate] at hstore
  let m := dmMessage env s r content h.state
  have hfresh : ∀ x ∈ h.state.store.messages, x.id ≠ m.id := fun x hx => (hb.fresh.lt hx).ne
  refine hb.store (x := { m with status := if h.state.slot r = ∅ then 0 else 1 })
    (P := fun r' => ∃ c ∈ cs ++ cs', c ∈ h.state.slot r') rfl ?_ ?_ hfits (fun u n hn => ?_)
      (fun n r' => ?_) ?_ ?_
    fun e => wakes_call huses (by decide)
  · rw [hstore, Store.settle]
    split
    · rfl
    · exact setStatus_append hfresh 1
  · rw [hstore, nextMsgId_settle]
    rfl
  · rw [hstore, queue_settle] at hn
    rcases List.mem_append.mp hn with hn | hn
    · exact .inl hn
    · split at hn
      · rename_i hoff
        refine .inr ⟨List.mem_singleton.mp hn, ?_⟩
        rintro r' ⟨⟩
        exact ⟨hoff.1, if_pos hoff.2⟩
      · cases hn
  · rw [passed_call huses (by decide) (by decide), hsent, exists_event]
  · rintro r' ⟨⟩
    by_cases hoff : h.state.slot r = ∅
    · simp [hoff]
    · obtain ⟨c, hc⟩ := Finset.nonempty_iff_ne_empty.mpr hoff
      simp only [hoff, if_false, true_iff]
      exact ⟨c, List.mem_append_left _ ((hmem c).mpr hc), hc⟩
  · exact History.log_subset_run ..

theorem sendRoom_booked (i : Nat) (j : Input) (s r : Nat) (content : String) :
    Keeps (History.alone (memExec env) i j) BookedInRange (MessageRouter.sendRoom s r content) := by
  refine booked_call fun h hb hfits hbefore => ?_
  have huses := MessageRouter.sendRoom_uses (c := 0) s r content
  have hstate := (h.run_state (memExec env) i j (MessageRouter.sendRoom s r content)).2
  have hgrows := h.log_subset_run (memExec env) i j (MessageRouter.sendRoom s r content)
  cases hanswer : (memExec env (.isMember r s) h.state).1 with
  | false =>
    obtain ⟨hrun, hsent⟩ := sendRoom_stranger env content hanswer
    have hstore : (h.run (memExec env) i j (MessageRouter.sendRoom s r content)).2.state.store =
        h.state.store := by
      rw [hstate, hrun]
      exact memExec_store env _ _ (by simp)
    refine hb.still (by rw [hstore]) (by rw [hstore]) (fun u => by rw [hstore]; simp)
      (fun m r' hp => ?_) hbefore hgrows
      fun e => wakes_call huses (by decide)
    rw [passed_call huses (by decide) (by decide), hsent] at hp
    exact .inl (by simpa using hp)
  | true =>
    obtain ⟨members, -, -, hstore, -, hqueue, pairs, -, -, hsent⟩ :=
      sendRoom_offers env content hanswer
    rw [← hstate] at hstore hqueue
    refine hb.store (x := roomMessage env s r content h.state) (P := fun r' =>
      ∃ p ∈ pairs, p.2 ∈ h.state.slot r')
      rfl (by rw [hstore]; rfl) (by rw [hstore]; rfl) hfits (fun u n hn => ?_) (fun n r' => ?_)
        (by rintro r' ⟨⟩) hgrows
      fun e => wakes_call huses (by decide)
    · rw [hqueue] at hn
      rcases List.mem_append.mp hn with hn | hn
      · exact .inl hn
      · split at hn
        · exact .inr ⟨List.mem_singleton.mp hn, by rintro r' ⟨⟩⟩
        · cases hn
    · rw [passed_call huses (by decide) (by decide), hsent, exists_event]

theorem bind_booked (i : Nat) (j : Input) (v d : Nat) :
    Keeps (History.alone (memExec env) i j) BookedInRange (Presence.bind v d) := by
  refine booked_call fun h hb _ hbefore => ?_
  let h' := (h.run (memExec env) i j (Presence.bind v d)).2
  let e₀ : Event Input Op World := ⟨i, j, .bindSlot v d, h.state⟩
  have hgrows : h.log ⊆ h'.log := h.log_subset_run ..
  have hfirst : e₀ ∈ h'.log := by
    rw [History.run_log]
    exact List.mem_append_right _ (List.mem_cons_self ..)
  have hstore : h'.state.store = _ :=
    (congrArg World.store (h.run_state (memExec env) i j (Presence.bind v d)).2).trans
      (bind_store env)
  by_cases hoff : h.state.slot v = ∅
  · rw [if_pos hoff] at hstore
    have hmessages : h'.state.store.messages = h.state.store.messages := by
      rw [hstore, Store.drain_store_messages]
    have hnext : h'.state.store.nextMsgId = h.state.store.nextMsgId := by
      rw [hstore, Store.drain_store_nextMsgId]
    have hqueue (u : Nat) : h'.state.store.queue u ⊆ h.state.store.queue u := by
      rw [hstore, Store.queue_drain]
      split <;> simp
    cases hwake : wakesToMail e₀ with
    | false =>
      have hrooms : ∀ x ∈ (h.state.store.drainUndelivered v).1, x.receiverId = none := by
        simpa [wakesToMail, e₀, hoff] using hwake
      refine hb.still hmessages hnext hqueue (fun m r hp => ?_) hbefore hgrows fun e he => ?_
      · refine ((passed_bind_offline hoff i j m r).mp hp).imp_right ?_
        rintro ⟨x, hx, hid, -⟩
        exact ⟨x, (Store.mem_drained hx).1, hrooms x hx, hid⟩
      · rcases wakes_bind he with he | hno | rfl
        · exact .inl he
        · exact .inr hno
        · exact .inr hwake
    | true =>
      obtain ⟨y, hy, hdm⟩ : ∃ y ∈ (h.state.store.drainUndelivered v).1,
          y.receiverId.isSome = true := by
        simpa [wakesToMail, e₀, hoff] using hwake
      obtain ⟨hstored, hqueued⟩ := Store.mem_drained hy
      refine hb.wake hmessages hnext hqueue (fun m r hp => ?_) hbefore hstored hdm hqueued ?_
        ⟨e₀, hfirst, hwake⟩
      · refine ((passed_bind_offline hoff i j m r).mp hp).imp_right ?_
        rintro ⟨x, hx, hid, -⟩
        exact ⟨x, (Store.mem_drained hx).1, hid⟩
      · refine (passed_bind_offline hoff i j y.id v).mpr (.inr ⟨y, hy, rfl, ?_⟩)
        simp [memExec_slot, Op.onSlot]
  · rw [if_neg hoff] at hstore
    refine hb.still (by rw [hstore]) (by rw [hstore]) (fun u => by rw [hstore]; simp)
      (fun m r hp => ?_) hbefore hgrows
      fun e he => ?_
    · rw [passed_bind, sent_bind_online env hoff] at hp
      exact .inl (by simpa using hp)
    · rcases wakes_bind he with he | hno | rfl
      · exact .inl he
      · exact .inr hno
      · exact .inr (by simp [wakesToMail, hoff])

theorem body_booked (i : Nat) (j : Input) :
    Keeps (History.alone (memExec env) i j) BookedInRange (body env j) := by
  cases j with
  | close d => exact close_uses.keeps (booked_neutral i _ d) (by decide)
  | request d payload =>
    exact handlers.dispatch_keeps_routing (booked_neutral i _ d) (by decide)
      (fun v => bind_booked i _ v d)
      (sendDm_booked i _) (sendRoom_booked i _)

end Steps

theorem status_truthful_iff {env : Env} {inputs : List Input}
    (hfits : (serveAll env inputs).state.store.nextMsgId ≤ 2 ^ 64) :
    Truthful (serveAll env inputs) ↔ ∀ e ∈ (serveAll env inputs).log, wakesToMail e = false := by
  have hbooked : Booked (serveAll env inputs) :=
    History.serveAll_alone (memExec env) (body env) body_booked (fun _ => .start) inputs hfits
  refine ⟨fun ht e he => ?_, hbooked.truthful⟩
  by_contra hwake
  exact (hbooked.misreported e he (by simpa using hwake)).not_truthful ht

def onlineMail : List Input :=
  [ask 1 (registerReq "alice" "wonder"), ask 1 (registerReq "bob" "builder"),
    ask 1 (loginReq "alice" "wonder"), ask 2 (loginReq "bob" "builder"),
      ask 1 (sendDmReq 2 "hello")]

theorem status_truthful_onlineMail :
    ∃ inputs, (serveAll mailEnv inputs).state.store.messages.map Message.status = [1] ∧
      Truthful (serveAll mailEnv inputs) := by
  obtain ⟨inputs, hfits, hstatus, hquiet⟩ :
    ∃ inputs, (serveAll mailEnv inputs).state.store.nextMsgId ≤ 2 ^ 64 ∧
      (serveAll mailEnv inputs).state.store.messages.map Message.status = [1] ∧
      (serveAll mailEnv inputs).log.all (fun e => !wakesToMail e) = true :=
        ⟨onlineMail, by decide +kernel⟩
  exact ⟨inputs, hstatus, (status_truthful_iff hfits).mpr (by simpa using hquiet)⟩

def passedCheck (log : Log) (m r : Nat) : Bool :=
  log.any fun e => e.op.pushed.any fun p => isEventOf m p.2 && decide (p.1 ∈ e.before.slot r)

theorem passed_of_check {log : Log} {m r : Nat} (h : passedCheck log m r = true) :
    Passed log m r := by
  obtain ⟨e, he, hpushed⟩ := List.any_eq_true.mp h
  cases hp : e.op.pushed with
  | none => simp [hp] at hpushed
  | some p =>
    rw [hp, Option.any_some, Bool.and_eq_true, decide_eq_true_eq] at hpushed
    exact ⟨e, he, p, hp, hpushed⟩

theorem status_untruthful_bobBack : ¬Truthful (serveAll mailEnv bobBack) := by
  -- Bob reads the message after the next login, and the store does not know of it.
  have hrun : (serveAll mailEnv bobBack).state.store.messages.map (fun x =>
    (x.id, x.receiverId, x.status)) =
      [(1, some 2, 0)] ∧ passedCheck (serveAll mailEnv bobBack).log 1 2 = true := by decide +kernel
  generalize serveAll mailEnv bobBack = h at hrun ⊢
  obtain ⟨hmessages, hpassed⟩ := hrun
  obtain ⟨x, hx, heq⟩ : ∃ x ∈ h.state.store.messages, (x.id, x.receiverId, x.status) =
      (1, some 2, 0) := by
    rw [← List.mem_map, hmessages]
    exact List.mem_singleton.mpr rfl
  simp only [Prod.mk.injEq] at heq
  obtain ⟨hid, hreceiver, hstatus⟩ := heq
  exact Misreported.not_truthful ⟨x, hx, 2, hreceiver, hstatus, hid ▸ passed_of_check hpassed⟩

end ChatServer
