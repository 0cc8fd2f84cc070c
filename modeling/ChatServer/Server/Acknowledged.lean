import ChatServer.Lib.Receipts
import ChatServer.Server.History
import ChatServer.Server.Requests
import ChatServer.Server.SendOrder

namespace ChatServer

open Lib Lib.Prog

/-- What a request asks to be stored, and for whom. -/
inductive Posting : Type
  | dm : Nat → String → Posting
  | room : Nat → String → Posting
  deriving DecidableEq

namespace Posting

def Is : Posting → Message → Prop
  | dm receiver content, m => m.receiverId = some receiver ∧ m.roomId = none ∧ m.content = content
  | room r content, m => m.receiverId = none ∧ m.roomId = some r ∧ m.content = content

def thread (sender : Nat) : Posting → Thread
  | dm receiver _ => .dm sender receiver
  | room r _ => .room r

end Posting

def Input.posting (env : Env) : Input → Option Posting
  | .request _ payload =>
    match env.parse payload with
    | some req =>
      if getStr req "type" = types.kSendDM then
        some (.dm (toU64 (getI64 req "receiver_id" 0)) (getStr req "content"))
      else if getStr req "type" = types.kSendRoom then
        some (.room (toU64 (getI64 req "room_id" 0)) (getStr req "content"))
      else none
    | none => none
  | .close _ => none

def storedMessage : (o : Op) → o.Ret → Option Message
  | .repo (.insertDm a b content ts), some id => some ⟨id, a, some b, none, content, 0, ts⟩
  | .repo (.insertRoomMsg a r content ts), some id => some ⟨id, a, none, some r, content, 0, ts⟩
  | _, _ => none

def mailOffice (env : Env) : Office Input Op.Ret Message Nat where
  counts input := (input.posting env).isSome
  may _ _ := True
  gives := storedMessage
  shows := Op.acks
  key := Message.id
  asked input m := m.senderId ≠ 0 ∧ ∃ p, input.posting env = some p ∧ p.Is m

section Store

variable {env : Env}

theorem mailOffice_keeps (env : Env) :
    (mailOffice env).Keeps (memExec env) (fun w => w.store.FreshIds) fun w m => w.store.Has m where
  sound _ _ h := memExec_freshIds h
  answers _ _ := trivial
  stays _ _ _ _ h := memExec_has h
  given w o m hfresh hgives := by
    have hbelow {q : Message} (hq : w.store.Has q) : q.id ≠ w.store.nextMsgId := by
      obtain ⟨q', hq', hcore⟩ := List.mem_map.mp hq
      have hid : q'.id = q.id := by rw [Message.eq_of_core hcore]
      exact Nat.ne_of_lt (hid ▸ hfresh.lt hq')
    cases o with
    | repo o =>
      cases o with
      | insertDm a b content ts =>
        obtain rfl := Option.some.inj hgives
        exact ⟨memExec_has_stores rfl, fun q hq => hbelow hq⟩
      | insertRoomMsg a r content ts =>
        obtain rfl := Option.some.inj hgives
        exact ⟨memExec_has_stores rfl, fun q hq => hbelow hq⟩
      | _ => cases hgives
    | _ => cases hgives

end Store

section Programs

variable {env : Env} {input : Input} {c : Nat} {t : Option Message}

theorem storedMessage_eq_none {o : Op} (hdm : o.kind ≠ .storeDm) (hroom : o.kind ≠ .storeRoomMsg)
    (r : o.Ret) : storedMessage o r = none := by
  unfold storedMessage
  split
  · simp at hdm
  · simp at hroom
  · rfl

theorem mailOffice_fixed (env : Env) (input : Input) (c : Nat) (t : Option Message) :
    Neutral ((mailOffice env).contract input) (fun t' => t' = t) c
      [.own, .ident, .assume, .validate, .bind, .dm, .roomMsg, .queue, .replay] := by
  rintro o ⟨hk, -⟩ t' rfl
  have hdm : o.kind ≠ .storeDm := by
    intro h
    simp [h] at hk
  have hroom : o.kind ≠ .storeRoomMsg := by
    intro h
    simp [h] at hk
  have hreply : o.kind ≠ .reply := by
    intro h
    simp [h] at hk
  refine ⟨fun _ => ⟨fun r p hp => ?_, fun k hshows => ?_⟩, ?_⟩
  · rw [show (mailOffice env).gives o r = none from storedMessage_eq_none hdm hroom r] at hp
    cases hp
  · rw [show (mailOffice env).shows o = none from acks_eq_none hreply] at hshows
    cases hshows
  · rintro r t'' ⟨-, rfl⟩
    rw [show (mailOffice env).gives o r = none from storedMessage_eq_none hdm hroom r]
    exact ⟨by simp, trivial⟩

theorem error_mailed (c : Nat) (t : Option Message) (id : Option Int) (code message : String) :
    Keeps ((mailOffice env).contract input) (fun t' => t' = t)
    (handlers.send c (makeError id code message)) := by
  rintro t' rfl
  refine ⟨fun _ => ⟨nofun, fun k hk => ?_⟩, ?_⟩
  · rw [show (mailOffice env).shows _ = ackedId (makeError id code message) from rfl,
      ackedId_makeError] at hk
    cases hk
  · rintro r t'' ⟨-, rfl⟩
    exact ite_self _

theorem requireAuth_mailed (req : Json) (id : Option Int) :
    Keeps ((mailOffice env).contract input) (fun t' => t' = t) (handlers.requireAuth c req id) := by
  have hks := mailOffice_fixed env input c t
  have hbind (u : Nat) : Uses c [.bind, .replay] (Presence.bind u c) := by simp
  refine handlers.requireAuth_keeps_of_error (G := fun _ => True) hks (by decide)
    (error_mailed c t id _)
    (fun tok t' ht => ?_) (fun u _ => (hbind u).keeps hks (by decide)) req
  obtain ⟨ha, hn⟩ := hks (.validate tok) (by simp) t' ht
  exact ⟨ha, fun r t'' h => ⟨(hn r t'' h).1, fun _ _ => trivial⟩⟩

section Calls

variable {α : Type} {Q : α → Option Message → Prop} {E : Option Message → Prop}

theorem call_mailed {o : Op} {k : o.Ret → ServerM α}
    (ho : o.kind ∈ [.own, .ident, .assume, .validate, .bind, .dm, .roomMsg, .queue, .replay] ∧
      o.concerns c)
    (hk : ∀ r, (k r).Follows ((mailOffice env).contract input) t Q E) :
    (Prog.op o k).Follows ((mailOffice env).contract input) t Q E := by
  obtain ⟨ha, hn⟩ := mailOffice_fixed env input c t o ho t rfl
  refine ⟨ha, fun r t' h => ?_⟩
  obtain rfl := (hn r t' h).1
  exact hk r

theorem insert_mailed {o : Op} {k : o.Ret → ServerM α}
    (hcounts : (mailOffice env).counts input = true)
    (hkind : o.kind ≠ .reply) (hasked : ∀ r m, storedMessage o r = some m →
      (mailOffice env).asked input m)
    (hk : ∀ r, (k r).Follows ((mailOffice env).contract input) (storedMessage o r) Q E) :
    (Prog.op o k).Follows ((mailOffice env).contract input) none Q E := by
  refine ⟨fun _ => ⟨fun r m hm => ⟨rfl, hasked r m hm⟩, fun k hshows => ?_⟩, ?_⟩
  · rw [show (mailOffice env).shows o = none from acks_eq_none hkind] at hshows
    cases hshows
  · rintro r t' ⟨-, rfl⟩
    rw [if_pos hcounts, Option.or_none]
    exact hk r

end Calls

abbrev Holding (id : Nat) (t : Option Message) : Prop := id ≠ 0 → ∃ m, t = some m ∧ m.id = id

theorem sendDm_mailed {sender receiver : Nat} {content : String} (hsender : sender ≠ 0)
    (hpost : input.posting env = some (.dm receiver content)) :
    (MessageRouter.sendDm sender receiver content).Follows
      ((mailOffice env).contract input) none Holding
      (fun _ => True) := by
  have hcounts : (mailOffice env).counts input = true := by simp [mailOffice, hpost]
  refine call_mailed (c := 0) (by simp) fun ts => insert_mailed hcounts (by simp) ?_
    fun stored => ?_
  · intro r m hm
    cases r with
    | none => cases hm
    | some id =>
      obtain rfl := Option.some.inj hm
      exact ⟨hsender, _, hpost, rfl, rfl, rfl⟩
  · cases stored with
    | none => exact fun h => absurd rfl h
    | some id =>
      have hks := mailOffice_fixed env input 0
        (some ⟨id, sender, some receiver, none, content, 0, ts⟩)
      refine call_mailed (c := 0) (by simp) fun conns => ?_
      dsimp only [ret_bind]
      apply (follows_bind ..).mpr
      have hdeliver : Uses 0 [.dm, .queue]
        (if conns.isEmpty = true then call (.repo (.enqueueUndelivered id receiver))
          else do
            sendEach .deliver receiver
              (makeEventMessage (toI64 id) (toI64 sender) (some (toI64 receiver)) none content
                ts) conns
            call (.repo (.updateMessageStatus id 1))) := by
        simp
      apply (hdeliver.keeps hks (by decide) _ rfl).mono _ fun _ _ => trivial
      rintro _ t' rfl
      refine call_mailed (c := 0) (by simp) fun own => ?_
      have hecho : Uses 0 [.dm] (sendEach .echo sender
          (makeEventMessage (toI64 id) (toI64 sender) (some (toI64 receiver)) none content ts)
            own) := by
        simp
      dsimp only [ret_bind]
      apply (follows_bind ..).mpr
      apply (hecho.keeps hks (by decide) _ rfl).mono _ fun _ _ => trivial
      rintro _ t' rfl
      exact fun _ => ⟨_, rfl, rfl⟩

theorem sendRoom_mailed {sender room : Nat} {content : String} (hsender : sender ≠ 0)
    (hpost : input.posting env = some (.room room content)) :
    (MessageRouter.sendRoom sender room content).Follows
      ((mailOffice env).contract input) none Holding
      (fun _ => True) := by
  have hcounts : (mailOffice env).counts input = true := by simp [mailOffice, hpost]
  refine call_mailed (c := 0) (by simp) fun member => ?_
  dsimp only [ret_bind]
  split
  · refine call_mailed (c := 0) (by simp) fun ts => insert_mailed hcounts (by simp) ?_
      fun stored => ?_
    · intro r m hm
      cases r with
      | none => cases hm
      | some id =>
        obtain rfl := Option.some.inj hm
        exact ⟨hsender, _, hpost, rfl, rfl, rfl⟩
    · cases stored with
      | none => exact fun h => absurd rfl h
      | some id =>
        have hks := mailOffice_fixed env input 0
          (some ⟨id, sender, none, some room, content, 0, ts⟩)
        refine call_mailed (c := 0) (by simp) fun members => ?_
        have hfanOut : Uses 0 [.roomMsg, .queue] (MessageRouter.fanOut id sender
            (makeEventMessage (toI64 id) (toI64 sender) none (some (toI64 room)) content ts)
              members) := by
          simp
        dsimp only [ret_bind]
        apply (follows_bind ..).mpr
        apply (hfanOut.keeps hks (by decide) _ rfl).mono _ fun _ _ => trivial
        rintro _ t' rfl
        exact fun _ => ⟨_, rfl, rfl⟩
  · exact fun h => absurd rfl h

theorem answer_mailed {msgId : Nat} (hholding : Holding msgId t) (id : Option Int)
    (code message : String) : (if msgId = 0 then handlers.send c (makeError id code message)
      else do
        let now ← call .now
        handlers.send c (handlers.sentReply id msgId now) : ServerM Unit).Follows
          ((mailOffice env).contract input) t
      (fun _ _ => True) (fun _ => True) := by
  split
  · exact (error_mailed c t id code message t rfl).mono (fun _ _ _ => trivial) fun _ _ => trivial
  next hne =>
    refine call_mailed (c := c) (by simp) fun now =>
      ⟨fun _ => ⟨nofun, fun k hk => ?_⟩, fun _ _ _ => trivial⟩
    rw [show (mailOffice env).shows _ = ackedId (handlers.sentReply id msgId now) from rfl,
      ackedId_sentReply] at hk
    obtain rfl := Option.some.inj hk
    exact hholding hne

theorem handleSendDm_mailed {req : Json} (id : Option Int) (hpost : input.posting env =
      some (.dm (toU64 (getI64 req "receiver_id" 0)) (getStr req "content"))) :
    (handlers.handleSendDm env c req id).Follows ((mailOffice env).contract input) none
      (fun _ _ => True)
      (fun _ => True) := by
  have herror {t : Option Message} (code message : String) :
    (handlers.send c (makeError id code message)).Follows
      ((mailOffice env).contract input) t (fun _ _ => True) (fun _ => True) :=
    (error_mailed c t id code message t rfl).mono (fun _ _ _ => trivial) fun _ _ => trivial
  apply (follows_bind ..).mpr
  apply (requireAuth_mailed req id none rfl).mono _ fun _ _ => trivial
  rintro sender t rfl
  dsimp only
  split
  · trivial
  next hsender =>
    split
    · exact herror _ _
    split
    · exact herror _ _
    · refine call_mailed (c := c) (by simp) fun found => ?_
      cases found with
      | none => exact herror _ _
      | some _ =>
        dsimp only [ret_bind]
        apply (follows_bind ..).mpr
        apply (sendDm_mailed hsender hpost).mono _ fun _ h => h
        exact fun msgId t hholding => answer_mailed hholding id _ _

theorem handleSendRoom_mailed {req : Json} (id : Option Int) (hpost : input.posting env =
      some (.room (toU64 (getI64 req "room_id" 0)) (getStr req "content"))) :
    (handlers.handleSendRoom env c req id).Follows ((mailOffice env).contract input) none
      (fun _ _ => True)
      (fun _ => True) := by
  have herror {t : Option Message} (code message : String) :
    (handlers.send c (makeError id code message)).Follows
      ((mailOffice env).contract input) t (fun _ _ => True) (fun _ => True) :=
    (error_mailed c t id code message t rfl).mono (fun _ _ _ => trivial) fun _ _ => trivial
  apply (follows_bind ..).mpr
  apply (requireAuth_mailed req id none rfl).mono _ fun _ _ => trivial
  rintro sender t rfl
  dsimp only
  split
  · trivial
  next hsender =>
    split
    · exact herror _ _
    split
    · exact herror _ _
    · apply (follows_bind ..).mpr
      apply (sendRoom_mailed hsender hpost).mono _ fun _ h => h
      exact fun msgId t hholding => answer_mailed hholding id _ _

theorem body_mailed (env : Env) (input : Input) :
    (body env input).Follows ((mailOffice env).contract input) none (fun _ _ => True)
    (fun _ => True) := by
  cases hpost : input.posting env with
  | none =>
    have hfree : (mailOffice env).counts input = false := by simp [mailOffice, hpost]
    refine keeps_of_answers (fun _ _ _ => ⟨fun h => ?_, fun _ _ _ => ⟨trivial, trivial⟩⟩) _ _
      trivial
    rw [hfree] at h
    cases h
  | some p =>
    cases input with
    | close c => cases hpost
    | request c payload =>
      cases hreq : env.parse payload with
      | none => simp [Input.posting, hreq] at hpost
      | some req =>
        have herror (t : Option Message) (_ : True) :
            (handlers.send c (makeError (requestId req) errcode.kInternal "internal error")).Follows
              ((mailOffice env).contract (.request c payload)) t (fun _ _ => True)
                (fun _ => True) :=
          (error_mailed c t _ _ _ t rfl).mono (fun _ _ _ => trivial) fun _ _ => trivial
        by_cases hdm : getStr req "type" = types.kSendDM
        · rw [body, dispatch_sendDm hreq hdm, follows_tryCatch]
          exact (handleSendDm_mailed _ (by simp [Input.posting, hreq, hdm])).mono
            (fun _ _ h => h) herror
        by_cases hroom : getStr req "type" = types.kSendRoom
        · rw [body, handlers.dispatch_named hreq hroom (by decide) rfl, follows_tryCatch]
          exact (handleSendRoom_mailed _
            (by simp [Input.posting, hreq, hroom, types.kSendDM, types.kSendRoom])).mono
            (fun _ _ h => h) herror
        · simp [Input.posting, hreq, hdm, hroom] at hpost

end Programs

section Readback

theorem getLast_of_rising {α : Type} {f : α → Nat} {l : List α} (h : (l.map f).Pairwise (· < ·))
    {a : α} (ha : a ∈ l) (hle : ∀ b ∈ l, f b ≤ f a) : l.getLast? = some a := by
  obtain ⟨l₁, l₂, rfl⟩ := List.append_of_mem ha
  cases l₂ with
  | nil => simp
  | cons b l₂ =>
    rw [List.map_append, List.pairwise_append, List.map_cons] at h
    have hlt : f a < f b := List.rel_of_pairwise_cons h.2.1 (by simp)
    exact absurd (hle b (by simp)) (Nat.not_le.mpr hlt)

variable {s : Store} {t : Thread} {m : Message}

theorem getLast_history (hs : s.Sound) (hm : m ∈ s.messages) (ht : t.has m = true) {lim : Nat}
    (hlim : 1 ≤ lim) : (s.history t (m.id + 1) lim).getLast? = some m := by
  have hmem : m ∈ s.messages.filter (t.below (m.id + 1)) :=
    List.mem_filter.mpr ⟨hm, by simp [Thread.below, ht]⟩
  have hlast : (s.messages.filter (t.below (m.id + 1))).getLast? = some m := by
    apply getLast_of_rising (f := Message.id) _ hmem
    · intro b hb
      have hb := (List.mem_filter.mp hb).2
      simp only [Thread.below, Bool.and_eq_true, Bool.or_eq_true, decide_eq_true_eq] at hb
      omega
    · exact hs.ordered.sublist (List.filter_sublist.map _)
  have hpos := List.length_pos_of_mem hmem
  rw [history_eq_drop, List.getLast?_drop, if_neg (by omega), hlast]

end Readback

section Receipts

variable {s : Store} {p : Posting} {m m' : Message}

namespace Posting

theorem is_of_core (h : m'.core = m.core) (hm : p.Is m) : p.Is m' := by
  rw [Message.eq_of_core h]
  cases p <;> exact hm

theorem has_thread (h : p.Is m) : (p.thread m.senderId).has m = true := by
  cases p with
  | dm receiver content => simp [thread, Thread.has, h.1]
  | room r content => simp [thread, Thread.has, h.2.1]

end Posting

end Receipts

/-- Whatever tasks ran meanwhile, a number that a `send_dm` or `send_room` was acknowledged
under is the number of the message it asked for, which the history shows; no two tasks were
acknowledged under one number. -/
theorem acked_messages_kept {env : Env} {ok : Sys → Move Input → Prop} {g : Sys}
    (hg : Reachable env ok g) :
    (∀ e ∈ g.hist.log, ∀ p, e.job.posting env = some p → ∀ k, e.op.acks = some k →
      ∃ m ∈ g.hist.state.store.messages, m.id = k ∧ m.senderId ≠ 0 ∧ p.Is m ∧
        ∀ lim, 1 ≤ lim → (g.hist.state.store.history (p.thread m.senderId) (k + 1) lim).getLast? =
          some m) ∧
    ∀ e ∈ g.hist.log, ∀ e' ∈ g.hist.log, (e.job.posting env).isSome = true →
      (e'.job.posting env).isSome = true →
      ∀ k, e.op.acks = some k → e'.op.acks = some k → e.task = e'.task := by
  have hsound := (reached_of_reachable hg).sound
  have hempty : Store.empty.FreshIds := ⟨List.nodup_nil, fun _ h => absurd h List.not_mem_nil⟩
  obtain ⟨-, hkept, hapart⟩ :=
    (mailOffice env).shown_kept (mailOffice_keeps env) (body_mailed env) hempty hg
  refine ⟨fun e he p hp k hk => ?_, hapart⟩
  obtain ⟨q, rfl, ⟨hsender, p', hp', his⟩, hhas⟩ := hkept e he (by simp [mailOffice, hp]) k hk
  obtain rfl := Option.some.inj (hp.symm.trans hp')
  -- the status may have changed since
  obtain ⟨m, hm, hcore⟩ := List.mem_map.mp hhas
  have hid : m.id = q.id := by rw [Message.eq_of_core hcore]
  have hfrom : m.senderId = q.senderId := by rw [Message.eq_of_core hcore]
  have hism := Posting.is_of_core hcore his
  refine ⟨m, hm, hid, hfrom ▸ hsender, hism, fun lim hlim => ?_⟩
  rw [show (mailOffice env).key q = m.id from hid.symm]
  exact getLast_history hsound hm (Posting.has_thread hism) hlim

theorem acked_messages_kept_overtaken :
    ∃ g, Reachable twoDmsEnv (fun g m => takenInOrder g m = true) g ∧
      ∃ m ∈ g.hist.state.store.messages, m.id = 2 ∧ m.senderId ≠ 0 ∧ (Posting.dm 2 "first").Is m ∧
        ∀ lim, 1 ≤ lim → (g.hist.state.store.history (.dm m.senderId 2) 3 lim).getLast? =
          some m := by
  have hrun : (Sys.start.steps (memExec twoDmsEnv) (body twoDmsEnv) takenInOrder overtakenRun).map
      (fun g => g.hist.log.any fun e => e.job = ask 1 (sendDmReq 2 "first") ∧ e.op.acks = some 2) =
        some true := by
    decide +kernel
  have hpost : (ask 1 (sendDmReq 2 "first")).posting twoDmsEnv = some (.dm 2 "first") := by
    decide +kernel
  obtain ⟨g, hreach, hack⟩ := Config.Reach.of_steps (fun _ _ h => h) hrun
  obtain ⟨e, he, heq⟩ := List.any_eq_true.mp hack
  obtain ⟨hjob, hop⟩ := of_decide_eq_true heq
  exact ⟨g, hreach, (acked_messages_kept hreach).1 e he _ (hjob ▸ hpost) 2 hop⟩

end ChatServer
