import ChatServer.Server.System

namespace ChatServer

open Lib Lib.Prog

structure Letter where
  id : Nat
  receiver : Nat
  event : Json

def Message.letter (m : Message) : Option Letter :=
  m.receiverId.map fun r => ⟨m.id, r, m.event⟩

def letters (s : Store) : List Letter := s.messages.filterMap Message.letter

theorem Message.letter_eq_some {m : Message} {l : Letter} :
    m.letter = some l ↔ m.receiverId = some l.receiver ∧ m.id = l.id ∧ m.event = l.event := by
  obtain ⟨id, u, event⟩ := l
  cases h : m.receiverId <;> simp [Message.letter, h, and_left_comm, eq_comm]

theorem Store.letters_setStatus (id st : Nat) (ms : List Message) :
    (setStatus id st ms).filterMap Message.letter = ms.filterMap Message.letter := by
  have hcore := congrArg (List.filterMap Message.letter) (core_setStatus id st ms)
  rwa [List.filterMap_map, List.filterMap_map] at hcore

/-- What a task owes: the letters it holds, and the connections of a user it is
walking. -/
structure Duty where
  held : Set Letter
  conns : Option (Nat × List Nat)

namespace Duty

def none : Duty := ⟨∅, .none⟩

def hold (t : Duty) (ls : Set Letter) : Duty := { t with held := ls }

def walk (t : Duty) (u : Nat) (cs : List Nat) : Duty := { t with conns := some (u, cs) }

end Duty

def Caller.delivers : Caller → Bool
  | .deliver | .replay => true
  | .echo | .fanOut => false

def Duty.after (t : Duty) : (o : Op) → o.Ret → Duty
  | .repo (.insertDm s u content ts), some id =>
    t.hold {l | Message.letter ⟨id, s, some u, .none, content, 0, ts⟩ = some l}
  | .repo (.drainUndelivered u), ms => t.hold {l | l.receiver = u ∧ ∃ m ∈ ms, m.letter = some l}
  | .repo (.enqueueUndelivered mid u), _ => t.hold {l ∈ t.held | ¬(l.id = mid ∧ l.receiver = u)}
  | .connectionsOf .deliver u, cs => t.walk u cs
  | .connectionsOf .replay u, cs => t.walk u cs
  | .sendFrame (.loop caller u []) _ j, _ =>
    if caller.delivers then t.hold {l ∈ t.held | ¬(l.event = j ∧ l.receiver = u)} else t
  | _, _ => t

def Duty.allows (t : Duty) : Op → Prop
  | .repo (.insertDm _ _ _ _) => t.held = ∅
  | .repo (.drainUndelivered _) => t.held = ∅
  | .sendFrame (.loop caller u _) c _ => caller.delivers → ∃ cs, t.conns = some (u, cs) ∧ c ∈ cs
  | _ => True

def findsUser : (o : Op) → o.Ret → Prop
  | .connectionsOf .replay _, cs => cs ≠ []
  | _, _ => True

def duties : Contract Op.Ret Duty where
  allows := Duty.allows
  next t o r t' := findsUser o r ∧ t' = t.after o r

def Duty.Idle (t : Duty) : Prop := t.held = ∅

section Programs

variable {c : Nat}

theorem Duty.Idle.after {t : Duty} (ht : t.Idle) {o : Op} (hstore : o.kind ≠ .storeDm)
    (hdm : o.kind ≠ .dm) (hreplay : o.kind ≠ .replay) (r : o.Ret) : (t.after o r).Idle := by
  unfold Duty.after
  split
  case h_6 caller u c j _ => cases caller <;> simp_all [Caller.delivers]
  all_goals simp_all [Duty.Idle, Duty.hold]

theorem duties_neutral :
    Neutral duties Duty.Idle c [.own, .reply, .ident, .assume, .session, .validate, .issue, .bind,
      .unbind, .close, .storeRoomMsg, .roomMsg, .queue, .membership] := by
  rintro o ⟨hk, -⟩ t ht
  have hstore : o.kind ≠ .storeDm := by
    intro h
    simp [h] at hk
  have hdm : o.kind ≠ .dm := by
    intro h
    simp [h] at hk
  have hreplay : o.kind ≠ .replay := by
    intro h
    simp [h] at hk
  refine ⟨?_, ?_⟩
  · change t.allows o
    unfold Duty.allows
    split <;> simp_all
    rename_i caller u later c j
    cases caller <;> simp_all [Caller.delivers]
  · rintro r t' ⟨-, rfl⟩
    exact ⟨ht.after hstore hdm hreplay r, trivial⟩

theorem sendEach_follows {caller : Caller} (hd : caller.delivers = true) {u : Nat} {event : Json}
    {t : Duty} {all cs : List Nat} (hall : t.conns = some (u, all)) (hsub : cs ⊆ all)
    (hne : cs ≠ []) (E : Duty → Prop) :
    (sendEach caller u event cs).Follows duties t
      (fun _ t' => t' = t.hold {l ∈ t.held | ¬(l.event = event ∧ l.receiver = u)}) E := by
  induction cs with
  | nil => exact absurd rfl hne
  | cons c cs ih =>
    refine ⟨fun _ => ⟨all, hall, hsub (List.mem_cons_self ..)⟩, ?_⟩
    rintro r t' ⟨-, rfl⟩
    cases cs with
    | nil => simp [sendEach, Duty.after, hd]
    | cons d cs => exact ih (fun x hx => hsub (List.mem_cons_of_mem c hx)) (by simp)

theorem replayEach_follows {u : Nat} {cs : List Nat} (hne : cs ≠ []) (ms : List Message) {t : Duty}
    (hall : t.conns = some (u, cs)) (E : Duty → Prop) :
    (MessageRouter.replayEach u cs ms).Follows duties t
      (fun _ t' => ∀ l ∈ t'.held, l ∈ t.held ∧ ∀ m ∈ ms, ¬(l.event = m.event ∧ l.receiver = u))
        E := by
  induction ms generalizing t with
  | nil => exact fun l hl => ⟨hl, by simp⟩
  | cons m ms ih =>
    simp only [MessageRouter.replayEach, bind_eq_bind, follows_bind]
    refine (sendEach_follows rfl hall (List.Subset.refl cs) hne E).mono ?_ (fun _ h => h)
    rintro _ t' rfl
    have ih' := ih (t := t.hold {l ∈ t.held | ¬(l.event = m.event ∧ l.receiver = u)}) hall
    refine ih'.mono ?_ (fun _ h => h)
    intro _ t'' h l hl
    obtain ⟨⟨hheld, hm⟩, hms⟩ := h l hl
    refine ⟨hheld, ?_⟩
    intro m' hm'
    rcases List.mem_cons.mp hm' with rfl | hm'
    · exact hm
    · exact hms m' hm'

theorem replayOffline_keeps (u : Nat) : Keeps duties Duty.Idle (MessageRouter.replayOffline u) := by
  intro t ht
  refine ⟨ht, ?_⟩
  rintro ms t' ⟨-, rfl⟩
  simp only [ret_bind]
  split
  · rename_i hms
    obtain rfl : ms = [] := by simpa using hms
    simp [Duty.Idle, Duty.after, Duty.hold]
  · refine ⟨trivial, ?_⟩
    rintro cs t'' ⟨hne, rfl⟩
    change cs ≠ [] at hne
    simp only [ret_bind, List.isEmpty_iff, hne, if_false]
    refine (replayEach_follows hne ms rfl _).mono ?_ (fun _ h => h)
    intro _ t₃ h
    refine Set.eq_empty_of_forall_notMem fun l hl => ?_
    obtain ⟨⟨hu, m, hm, hlet⟩, hall⟩ := h l hl
    exact hall m hm ⟨(Message.letter_eq_some.mp hlet).2.2.symm, hu⟩

theorem sendEach_keeps (caller : Caller) (hd : caller.delivers = false) (u : Nat) (event : Json)
    (cs : List Nat) : Keeps duties Duty.Idle (sendEach caller u event cs) := by
  induction cs with
  | nil => exact keeps_ret ()
  | cons c cs ih =>
    refine Answers.op (F := fun _ => True) (fun t ht => ⟨fun h => ?_, ?_⟩) fun _ _ => ih
    · rw [hd] at h
      cases h
    · rintro r t' ⟨-, rfl⟩
      refine ⟨?_, trivial⟩
      cases cs with
      | nil => simpa [Duty.after, hd] using ht
      | cons d cs => exact ht

theorem deliver_follows {id sender receiver : Nat} {content : String} {ts : Int} {cs : List Nat}
    {t : Duty} (hconns : t.conns = some (receiver, cs))
    (hheld : ∀ l ∈ t.held, l.id = id ∧ l.receiver = receiver ∧
      l.event = makeEventMessage (toI64 id) (toI64 sender)
      (some (toI64 receiver)) none content ts) :
    Follows duties
      (if cs.isEmpty then call (.repo (.enqueueUndelivered id receiver))
        else do
          sendEach .deliver receiver
            (makeEventMessage (toI64 id) (toI64 sender) (some (toI64 receiver)) none content ts) cs
          call (.repo (.updateMessageStatus id 1)) : ServerM Unit)
      t (fun _ t' => t'.Idle) Duty.Idle := by
  split
  · refine ⟨trivial, ?_⟩
    rintro r t' ⟨-, rfl⟩
    refine Set.eq_empty_of_forall_notMem fun l hl => ?_
    exact hl.2 ⟨(hheld l hl.1).1, (hheld l hl.1).2.1⟩
  · rename_i hne
    rw [List.isEmpty_iff] at hne
    rw [bind_eq_bind, follows_bind]
    refine (sendEach_follows rfl hconns (List.Subset.refl cs) hne _).mono ?_ (fun _ h => h)
    rintro _ t' rfl
    refine ⟨trivial, ?_⟩
    rintro r t' ⟨-, rfl⟩
    refine Set.eq_empty_of_forall_notMem fun l hl => ?_
    exact hl.2 ⟨(hheld l hl.1).2.2, (hheld l hl.1).2.1⟩

theorem sendDm_keeps (sender receiver : Nat) (content : String) :
    Keeps duties Duty.Idle (MessageRouter.sendDm sender receiver content) := by
  intro t ht
  refine ⟨trivial, ?_⟩
  rintro ts t' ⟨-, rfl⟩
  refine ⟨ht, ?_⟩
  rintro id t' ⟨-, rfl⟩
  cases id with
  | none => exact ht
  | some id =>
    refine ⟨trivial, ?_⟩
    rintro cs t' ⟨-, rfl⟩
    simp only [ret_bind, bind_eq_bind, follows_bind]
    refine (deliver_follows rfl ?_).mono ?_ (fun _ h => h)
    · intro l hl
      obtain ⟨hr, hid, hev⟩ := Message.letter_eq_some.mp hl
      exact ⟨hid.symm, (Option.some.inj hr).symm, hev.symm⟩
    · intro _ t' h
      refine ⟨trivial, ?_⟩
      rintro own _ ⟨-, rfl⟩
      exact sendEach_keeps .echo rfl sender _ own _ h

theorem bind_keeps (u : Nat) : Keeps duties Duty.Idle (Presence.bind u c) := by
  refine duties_neutral.op (c := c) (by simp) fun transitioned => ?_
  dsimp only [ret_bind]
  refine Keeps.bind ?_ fun _ => keeps_ret transitioned
  split
  · exact replayOffline_keeps u
  · exact keeps_ret ()

theorem body_keeps (env : Env) (input : Input) : Keeps duties Duty.Idle (body env input) := by
  cases input with
  | close c => exact close_uses.keeps (duties_neutral (c := c)) (by decide)
  | request c payload =>
    have hroom (sender room : Nat) (content : String) :
        Keeps duties Duty.Idle (MessageRouter.sendRoom sender room content) :=
      (MessageRouter.sendRoom_uses sender room content).keeps (duties_neutral (c := c)) (by decide)
    exact handlers.dispatch_keeps_routing duties_neutral (by decide) bind_keeps sendDm_keeps hroom

end Programs

def Taken (env : Env) (log : Log) (u : Nat) (j : Json) : Prop :=
  ∃ e ∈ log, ∃ caller later c, e.op = .sendFrame (.loop caller u later) c j ∧
    caller.delivers = true ∧ (e.before.conns c).accepts env j = true

def isDm (j : Json) : Bool := (j.find "receiver_id").isSome

/-- The operation does not let go of a direct message: where a delivery loop comes to
its last connection, that connection takes the event or an earlier one has, and a
replay that has emptied the queue finds a connection of its user. -/
def holdsOn (env : Env) (h : Hist) : Op → Prop
  | .sendFrame (.loop caller u []) c j => caller.delivers = true → isDm j = true →
      (h.state.conns c).accepts env j = true ∨ Taken env h.log u j
  | .connectionsOf .replay u => h.state.slot u ≠ ∅
  | _ => True

def stepHoldsOn (env : Env) (g : Sys) : Move Input → Prop
  | .start _ _ => True
  | .advance i => ∀ o, g.nextOp i = some o → holdsOn env g.hist o

/-- The frame was appended to the write buffer of connection `c`, which had been bound to user
`u` before. -/
def WrittenTo (env : Env) (h : Hist) (u c : Nat) (j : Json) : Prop :=
  j ∈ (h.state.conns c).out ∧ ∃ pre e post site, h.log = pre ++ e :: post ∧
    e.op = .sendFrame site c j ∧ (e.before.conns c).accepts env j = true ∧ Bound pre u c

def Delivered (env : Env) (h : Hist) (l : Letter) : Prop :=
  ∃ c, WrittenTo env h l.receiver c l.event

def Queued (h : Hist) (l : Letter) : Prop := l.id ∈ h.state.store.queue l.receiver

structure Kept (env : Env) (h : Hist) (ts : Nat → Duty) : Prop where
  ids : h.state.store.FreshIds
  slots : ∀ u, ∀ c ∈ h.state.slot u, Bound h.log u c
  walks : ∀ i u cs, (ts i).conns = some (u, cs) → ∀ c ∈ cs, Bound h.log u c
  taken : ∀ u j, Taken env h.log u j → ∃ c, WrittenTo env h u c j
  safe : ∀ l ∈ letters h.state.store, Queued h l ∨ Delivered env h l ∨ ∃ i, l ∈ (ts i).held

section Steps

variable {env : Env} {h : Hist} {ts : Nat → Duty} (i : Nat) (j : Input) (o : Op)

theorem isDm_event {m : Message} {l : Letter} (hl : m.letter = some l) : isDm l.event = true := by
  obtain ⟨hr, -, hev⟩ := Message.letter_eq_some.mp hl
  rw [← hev, isDm, Message.event, hr, event_find]
  cases m.roomId <;> rfl

theorem out_step {c : Nat} {f : Json} (hf : f ∈ (h.state.conns c).out) :
    f ∈ ((h.record (memExec env) i j o).2.state.conns c).out := by
  rw [History.record_state, memExec_conn]
  cases o with
  | sendFrame site d k =>
    simp only [Op.onConn, Conn.sendFrame]
    split
    · split
      · exact List.mem_append_left _ hf
      · exact hf
    · exact hf
  | _ => simp only [Op.onConn]; first | exact hf | (split <;> exact hf)

theorem letters_step {l : Letter}
    (hl : l ∈ letters (h.record (memExec env) i j o).2.state.store) (t : Duty) :
    l ∈ letters h.state.store ∨ l ∈ (t.after o (memExec env o h.state).1).held := by
  rw [History.record_state] at hl
  cases o with
  | repo o =>
    rw [letters, memExec_repo, memory_messages] at hl
    cases o with
    | insertDm a b content ts =>
      simp only [RepoOp.onMessages, List.filterMap_append, List.mem_append] at hl
      rcases hl with hl | hl
      · exact .inl hl
      · obtain ⟨m, hm, hml⟩ := List.mem_filterMap.mp hl
        rw [List.mem_singleton] at hm
        subst hm
        exact .inr hml
    | insertRoomMsg a r content ts =>
      simp only [RepoOp.onMessages, List.filterMap_append, List.mem_append] at hl
      rcases hl with hl | hl
      · exact .inl hl
      · simp [Message.letter] at hl
    | updateMessageStatus id st =>
      rw [RepoOp.onMessages, Store.letters_setStatus] at hl
      exact .inl hl
    | _ => exact .inl hl
  | _ => rw [memExec_store env _ _ (by simp)] at hl; exact .inl hl

theorem queue_step {l : Letter} (hq : Queued h l) :
    Queued (h.record (memExec env) i j o).2 l ∨ o = .repo (.drainUndelivered l.receiver) := by
  rw [Queued, History.record_state]
  cases o with
  | repo o =>
    rw [memExec_repo, memory_queue]
    cases o with
    | enqueueUndelivered mid u =>
      simp only [RepoOp.onQueue]
      split
      · exact .inl (List.mem_append_left _ hq)
      · exact .inl hq
    | drainUndelivered u =>
      by_cases hu : u = l.receiver
      · exact .inr (by rw [hu])
      · simp only [RepoOp.onQueue, hu, if_false]
        exact .inl hq
    | _ => exact .inl hq
  | _ => rw [memExec_store env _ _ (by simp)]; exact .inl hq

theorem held_step {t : Duty} {l : Letter} (hl : l ∈ t.held) (ha : t.allows o) (r : o.Ret) :
    l ∈ (t.after o r).held ∨ o = .repo (.enqueueUndelivered l.id l.receiver) ∨
      ∃ caller c, caller.delivers = true ∧
      o = .sendFrame (.loop caller l.receiver []) c l.event := by
  unfold Duty.after
  split
  case h_1 => exact absurd hl (by rw [show t.held = ∅ from ha]; exact id)
  case h_2 => exact absurd hl (by rw [show t.held = ∅ from ha]; exact id)
  case h_3 mid u _ =>
    by_cases hd : l.id = mid ∧ l.receiver = u
    · obtain ⟨rfl, rfl⟩ := hd
      exact .inr (.inl rfl)
    · exact .inl ⟨hl, hd⟩
  case h_6 caller u c f _ =>
    split
    · rename_i hc
      by_cases hd : l.event = f ∧ l.receiver = u
      · obtain ⟨rfl, rfl⟩ := hd
        exact .inr (.inr ⟨caller, c, hc, rfl⟩)
      · exact .inl ⟨hl, hd⟩
    · exact .inl hl
  all_goals exact .inl hl

theorem WrittenTo.step {u c : Nat} {f : Json} (hw : WrittenTo env h u c f) :
    WrittenTo env (h.record (memExec env) i j o).2 u c f := by
  obtain ⟨hout, pre, e, post, site, hlog, hsent⟩ := hw
  refine ⟨out_step i j o hout, pre, e, post ++ [⟨i, j, o, h.state⟩], site, ?_, hsent⟩
  rw [History.record_log, hlog, List.append_assoc, List.cons_append]

theorem writtenTo_accepted {site : Site} {u c : Nat} {f : Json} (hb : Bound h.log u c)
    (ha : (h.state.conns c).accepts env f = true) :
    WrittenTo env (h.record (memExec env) i j (.sendFrame site c f)).2 u c f := by
  refine ⟨?_, h.log, _, [], site, History.record_log .., rfl, ha, hb⟩
  rw [History.record_state, memExec_conn]
  simp [Op.onConn, Conn.sendFrame, ha]

theorem walks_step {t : Duty} {w : World} {u : Nat} {cs : List Nat}
    (hc : (t.after o (memExec env o w).1).conns = some (u, cs)) :
    t.conns = some (u, cs) ∨ ∀ c ∈ cs, c ∈ w.slot u := by
  have hlook (v : Nat) (heq : some (v, env.order w.walks (w.slot v)) = some (u, cs)) :
      ∀ c ∈ cs, c ∈ w.slot u := by
    obtain ⟨rfl, rfl⟩ := Prod.mk.inj (Option.some.inj heq)
    exact fun c hmem => (env.mem_order _ _ c).mp hmem
  cases o with
  | connectionsOf caller v =>
    cases caller with
    | deliver => exact .inr (hlook v hc)
    | replay => exact .inr (hlook v hc)
    | echo => exact .inl hc
    | fanOut => exact .inl hc
  | repo o =>
    cases o with
    | insertDm a b content ts => exact .inl hc
    | _ => exact .inl hc
  | sendFrame site d f =>
    rcases site with _ | ⟨caller, v, _ | ⟨x, later⟩⟩
    · exact .inl hc
    · simp only [Duty.after] at hc
      split at hc <;> exact .inl hc
    · exact .inl hc
  | _ => exact .inl hc

theorem taken_step (hk : Kept env h ts) (ha : (ts i).allows o) {u : Nat} {f : Json}
    (ht : Taken env (h.record (memExec env) i j o).2.log u f) :
    ∃ c, WrittenTo env (h.record (memExec env) i j o).2 u c f := by
  obtain ⟨e, he, caller, later, c, heo, hd, hacc⟩ := ht
  rw [History.record_log, List.mem_append, List.mem_singleton] at he
  rcases he with he | rfl
  · obtain ⟨c', hw⟩ := hk.taken u f ⟨e, he, caller, later, c, heo, hd, hacc⟩
    exact ⟨c', hw.step i j o⟩
  · dsimp only at heo hacc
    subst heo
    obtain ⟨cs, hcs, hc⟩ := ha hd
    exact ⟨c, writtenTo_accepted i j (hk.walks i u cs hcs c hc) hacc⟩

theorem drained_step (hk : Kept env h ts) {l : Letter} (hl : l ∈ letters h.state.store)
    (hq : Queued h l) (t : Duty) :
    l ∈ (t.after (.repo (.drainUndelivered l.receiver))
      (memExec env (.repo (.drainUndelivered l.receiver)) h.state).1).held := by
  obtain ⟨m, hm, hml⟩ := List.mem_filterMap.mp hl
  refine ⟨rfl, m, ?_, hml⟩
  change m ∈ (h.state.store.drainUndelivered l.receiver).1
  rw [Store.drain_messages, List.mem_filterMap]
  exact ⟨l.id, hq, by rw [← (Message.letter_eq_some.mp hml).2.1]; exact hk.ids.find hm⟩

theorem lastFrame_step (hk : Kept env h ts) {l : Letter} (hl : l ∈ letters h.state.store)
    {caller : Caller} {c : Nat} (hd : caller.delivers = true)
    (ha : (ts i).allows (.sendFrame (.loop caller l.receiver []) c l.event))
    (hok : holdsOn env h (.sendFrame (.loop caller l.receiver []) c l.event)) :
    Delivered env (h.record (memExec env) i j (.sendFrame (.loop caller l.receiver []) c l.event)).2
      l := by
  obtain ⟨m, -, hml⟩ := List.mem_filterMap.mp hl
  rcases hok hd (isDm_event hml) with hacc | htaken
  · obtain ⟨cs, hcs, hc⟩ := ha hd
    exact ⟨c, writtenTo_accepted i j (hk.walks i l.receiver cs hcs c hc) hacc⟩
  · obtain ⟨c', hw⟩ := hk.taken l.receiver l.event htaken
    exact ⟨c', hw.step i j _⟩

theorem safe_step (hk : Kept env h ts) (ha : (ts i).allows o) (hok : holdsOn env h o) {l : Letter}
    (hl : l ∈ letters (h.record (memExec env) i j o).2.state.store) :
    Queued (h.record (memExec env) i j o).2 l ∨ Delivered env (h.record (memExec env) i j o).2 l ∨
      ∃ n, l ∈ (Function.update ts i ((ts i).after o (memExec env o h.state).1) n).held := by
  have hold (hmem : l ∈ ((ts i).after o (memExec env o h.state).1).held) :
      ∃ n, l ∈ (Function.update ts i ((ts i).after o (memExec env o h.state).1) n).held :=
    ⟨i, by rwa [Function.update_self]⟩
  rcases letters_step i j o hl (ts i) with hl' | hnew
  · rcases hk.safe l hl' with hq | hd | ⟨n, hn⟩
    · rcases queue_step i j o hq with hq' | rfl
      · exact .inl hq'
      · exact .inr (.inr (hold (drained_step hk hl' hq (ts i))))
    · obtain ⟨c, hw⟩ := hd
      exact .inr (.inl ⟨c, hw.step i j o⟩)
    · by_cases hni : n = i
      · subst hni
        rcases held_step o hn ha (memExec env o h.state).1 with hmem | rfl | ⟨caller, c, hd, rfl⟩
        · exact .inr (.inr (hold hmem))
        · refine .inl ?_
          rw [Queued, History.record_state, memExec_repo, memory_queue]
          simp [RepoOp.onQueue]
        · exact .inr (.inl (lastFrame_step n j hk hl' hd ha hok))
      · exact .inr (.inr ⟨n, by rwa [Function.update_of_ne hni]⟩)
  · exact .inr (.inr (hold hnew))

theorem Kept.step (hk : Kept env h ts) (ha : (ts i).allows o) (hok : holdsOn env h o) :
    Kept env (h.record (memExec env) i j o).2
      (Function.update ts i ((ts i).after o (memExec env o h.state).1)) where
  ids := memExec_freshIds hk.ids
  slots u c hc := bound_of_slot_step i j o (hk.slots u) hc
  walks := by
    intro n u cs hcs c hc
    by_cases hn : n = i
    · subst hn
      rw [Function.update_self] at hcs
      rcases walks_step o hcs with hold | hslot
      · exact (hk.walks n u cs hold c hc).mono _
      · exact (hk.slots u c (hslot c hc)).mono _
    · rw [Function.update_of_ne hn] at hcs
      exact (hk.walks n u cs hcs c hc).mono _
  taken _ _ ht := taken_step i j o hk ha ht
  safe _ hl := safe_step i j o hk ha hok hl

theorem kept_start (env : Env) : Kept env Hist.start (fun _ => Duty.none) where
  ids := ⟨List.nodup_nil, by simp [Hist.start, World.init, Store.empty]⟩
  slots := by simp [Hist.start, World.init, World.slot, Presence.slot]
  walks := by simp [Duty.none]
  taken := by simp [Taken, Hist.start]
  safe := by simp [letters, Hist.start, World.init, Store.empty]

theorem Kept.start {i : Nat} (hk : Kept env h ts) (hi : (ts i).held = ∅) :
    Kept env h (Function.update ts i Duty.none) where
  ids := hk.ids
  slots := hk.slots
  walks := by
    intro n u cs hcs
    by_cases hn : n = i
    · subst hn
      simp [Duty.none] at hcs
    · rw [Function.update_of_ne hn] at hcs
      exact hk.walks n u cs hcs
  taken := hk.taken
  safe := by
    intro l hl
    rcases hk.safe l hl with hq | hd | ⟨n, hn⟩
    · exact .inl hq
    · exact .inr (.inl hd)
    · have hni : n ≠ i := by
        rintro rfl
        rw [hi] at hn
        exact hn
      exact .inr (.inr ⟨n, by rwa [Function.update_of_ne hni]⟩)

theorem findsUser_of_holdsOn {o : Op} (hok : holdsOn env h o) :
    findsUser o (memExec env o h.state).1 := by
  cases o with
  | connectionsOf caller u =>
    cases caller with
    | replay =>
      obtain ⟨c, hc⟩ := Finset.nonempty_iff_ne_empty.mpr hok
      exact List.ne_nil_of_mem ((env.mem_order h.state.walks _ c).mpr hc)
    | _ => trivial
  | _ => trivial

end Steps

/-- Every stored direct message is still queued for its receiver or has been written to
a connection that was bound to the receiver. -/
def NoDmLost (env : Env) (h : Hist) : Prop :=
  ∀ m ∈ h.state.store.messages, ∀ u, m.receiverId = some u →
    m.id ∈ h.state.store.queue u ∨ ∃ c, WrittenTo env h u c m.event

theorem kept_reachable {env : Env} {g : Sys} (hg : Reachable env (stepHoldsOn env) g) :
    ∃ ts, Config.Tracked (fun _ => duties) Duty.Idle g ts ∧ Kept env g.hist ts := by
  refine Config.Reach.invariant (fun g ts => Kept env g.hist ts) (fun _ => Duty.none)
    (fun _ => Duty.none) (fun _ => rfl) ?_
    (fun input => body_keeps env input Duty.none rfl) ?_ ?_ hg
  · exact kept_start env
  · intro g ts i input ht hk _ hf
    exact hk.start (ht.done (by rw [hf]; rfl))
  · intro g ts i input o k _ hk hok hp ha
    have hnext := hok o (Config.nextOp_eq hp)
    exact ⟨_, ⟨findsUser_of_holdsOn hnext, rfl⟩, hk.step i input o ha hnext⟩

theorem no_dm_lost {env : Env} {g : Sys} (hg : Reachable env (stepHoldsOn env) g) (hq : g.quiet) :
    NoDmLost env g.hist := by
  obtain ⟨ts, ht, hk⟩ := kept_reachable hg
  intro m hm u hu
  have hl : (⟨m.id, u, m.event⟩ : Letter) ∈ letters g.hist.state.store :=
    List.mem_filterMap.mpr ⟨m, hm, by simp [Message.letter, hu]⟩
  rcases hk.safe _ hl with hqueue | hd | ⟨i, hi⟩
  · exact .inl hqueue
  · exact .inr hd
  · have hidle : (ts i).held = ∅ := ht.done (hq i)
    rw [hidle] at hi
    exact hi.elim

section Runs

def mailReqs : List Json :=
  [registerReq "alice" "wonder", registerReq "bob" "builder", loginReq "alice" "wonder",
    loginReq "bob" "builder", sendDmReq 2 "hello"]

def mailEnv : Env := sampleEnv mailReqs

def offlineMail : List Input :=
  [ask 1 (registerReq "alice" "wonder"), ask 1 (registerReq "bob" "builder"),
    ask 1 (loginReq "alice" "wonder"), ask 1 (sendDmReq 2 "hello")]

def aliceOnline : List (Move Input) :=
  begin 0 (ask 1 (registerReq "alice" "wonder")) 3 ++
  begin 1 (ask 2 (registerReq "bob" "builder")) 3 ++
  begin 2 (ask 1 (loginReq "alice" "wonder")) 10

def stepHoldsOnCheck (env : Env) (g : Sys) : Move Input → Bool
  | .start _ _ => true
  | .advance i =>
    match g.nextOp i with
    | some (.sendFrame (.loop _ _ []) c j) => (g.hist.state.conns c).accepts env j
    | some (.connectionsOf .replay u) => g.hist.state.slot u ≠ ∅
    | _ => true

theorem stepHoldsOn_of_check {env : Env} (g : Sys) (m : Move Input)
    (h : stepHoldsOnCheck env g m = true) : stepHoldsOn env g m := by
  cases m with
  | start i input => trivial
  | advance i =>
    intro o ho
    simp only [stepHoldsOnCheck, ho] at h
    unfold holdsOn
    split
    · exact fun _ _ => .inl h
    · simpa using h
    · trivial

def mailRun : List (Move Input) :=
  aliceOnline ++ begin 3 (ask 1 (sendDmReq 2 "hello")) 10 ++
  begin 4 (ask 2 (loginReq "bob" "builder")) 12 ++
  begin 5 (ask 1 (sendDmReq 2 "hello")) 11

theorem no_dm_lost_mailRun :
    ∃ g, Reachable mailEnv (stepHoldsOn mailEnv) g ∧ g.quiet ∧
      g.hist.state.store.messages.length = 2 ∧ NoDmLost mailEnv g.hist := by
  have hrun : (Sys.start.steps (memExec mailEnv) (body mailEnv)
    (stepHoldsOnCheck mailEnv) mailRun).map
      (fun g => ((List.range 6).all fun i => (g.tasks i).finished,
        g.hist.state.store.messages.length)) =
        some (true, 2) := by decide +kernel
  obtain ⟨g, hreach, hquiet, hlen⟩ :=
    Config.Reach.quiet_of_steps stepHoldsOn_of_check 6 (by decide) hrun
  exact ⟨g, hreach, hquiet, hlen, no_dm_lost hreach hquiet⟩

def lossRun : List (Move Input) :=
  aliceOnline ++ begin 3 (ask 2 (loginReq "bob" "builder")) 10 ++
  begin 4 (ask 1 (sendDmReq 2 "hello")) 5 ++ begin 5 (.close 2) 6 ++
  List.replicate 6 (.advance 4)

def lostFor (u : Nat) (h : Hist) : Bool :=
  (h.state.store.messages.any fun m => m.receiverId = some u ∧ m.id ∉ h.state.store.queue u) &&
  h.log.all fun e =>
    match e.op with
    | .bindSlot v c => v ≠ u ∨ ∀ j ∈ (h.state.conns c).out, getStr j "type" ≠ types.kEventMessage
    | _ => true

theorem exists_of_lostFor {u : Nat} {h : Hist} (hl : lostFor u h = true) :
    ∃ m ∈ h.state.store.messages, m.receiverId = some u ∧ m.id ∉ h.state.store.queue u ∧
      ∀ c, Bound h.log u c → m.event ∉ (h.state.conns c).out := by
  simp only [lostFor, Bool.and_eq_true, List.any_eq_true, List.all_eq_true, decide_eq_true_eq] at hl
  obtain ⟨⟨m, hm, hu, hq⟩, hout⟩ := hl
  refine ⟨m, hm, hu, hq, ?_⟩
  rintro c ⟨e, he, heo⟩ hev
  have hc := hout e he
  rw [heo] at hc
  simp only [ne_eq, not_true_eq_false, false_or, decide_eq_true_eq] at hc
  exact hc m.event hev (event_type ..)

theorem dm_lost_lossRun :
    ∃ g, Reachable mailEnv (fun _ _ => True) g ∧ g.quiet ∧ ¬NoDmLost mailEnv g.hist ∧
      ∃ m ∈ g.hist.state.store.messages, m.receiverId = some 2 ∧ m.id ∉ g.hist.state.store.queue 2 ∧
        ∀ c, Bound g.hist.log 2 c → m.event ∉ (g.hist.state.conns c).out := by
  have hrun : (Sys.start.steps (memExec mailEnv) (body mailEnv) (fun _ _ => true) lossRun).map
      (fun g => ((List.range 6).all fun i => (g.tasks i).finished, lostFor 2 g.hist)) =
        some (true, true) := by decide +kernel
  obtain ⟨g, hreach, hquiet, hlost⟩ :=
    Config.Reach.quiet_of_steps (fun _ _ _ => trivial) 6 (by decide) hrun
  obtain ⟨m, hm, hu, hqueue, hout⟩ := exists_of_lostFor hlost
  refine ⟨g, hreach, hquiet, fun hsafe => ?_, m, hm, hu, hqueue, hout⟩
  rcases hsafe m hm 2 hu with hin | ⟨c, hin, pre, e, post, site, hlog, -, -, e', he', hbound⟩
  · exact hqueue hin
  · exact hout c ⟨e', hlog ▸ List.mem_append_left _ he', hbound⟩ hin

end Runs

end ChatServer
