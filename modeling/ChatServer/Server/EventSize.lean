import ChatServer.Protocol.Size
import ChatServer.Server.Delivery

namespace ChatServer

open Lib Lib.Prog

/-- A content that is within the limit, with a reading of the clock. -/
def Accepted (env : Env) (content : String) (ts : Int) : Prop :=
  content.utf8ByteSize ≤ env.maxMessage ∧ IsI64 ts

def Message.Modest (env : Env) (m : Message) : Prop := Accepted env m.content m.createdAtMs

def modestOp (env : Env) : Op → Prop
  | .repo (.insertDm _ _ content ts) | .repo (.insertRoomMsg _ _ content ts) =>
      Accepted env content ts
  | .sendFrame (.loop _ _ _) _ j => ∃ m : Message, m.Modest env ∧ j = m.event
  | _ => True

def modestRet (env : Env) : (o : Op) → o.Ret → Prop
  | .now, ts => IsI64 ts
  | .repo (.drainUndelivered _), ms => ∀ m ∈ ms, m.Modest env
  | _, _ => True

def modesty (env : Env) : Contract Op.Ret Unit where
  allows _ := modestOp env
  next _ o r _ := modestRet env o r

section Programs

variable {env : Env} {c : Nat}

theorem modesty_answers {o : Op} (h : modestOp env o) :
    Answers (modesty env) (fun _ => True) o (modestRet env o) :=
  fun _ _ => ⟨h, fun _ _ hr => ⟨trivial, hr⟩⟩

theorem modesty_neutral (env : Env) (c : Nat) :
    Neutral (modesty env) (fun _ => True) c [.own, .reply, .ident, .assume, .session,
      .validate, .issue, .bind, .unbind, .close, .queue, .membership] := by
  rintro o ⟨hk, -⟩ t -
  refine ⟨?_, fun _ _ _ => ⟨trivial, trivial⟩⟩
  change modestOp env o
  unfold modestOp
  split
  · simp at hk
  · simp at hk
  · rename_i caller _ _ _ _
    cases caller <;> simp at hk
  · trivial

theorem sendEach_modest {m : Message} (hm : m.Modest env) (caller : Caller) (u : Nat)
    (cs : List Nat) : Keeps (modesty env) (fun _ => True) (sendEach caller u m.event cs) := by
  induction cs with
  | nil => exact keeps_ret ()
  | cons d cs ih =>
    refine (modesty_answers (o := .sendFrame (.loop caller u cs) d m.event) ?_).op fun _ _ => ih
    exact ⟨m, hm, rfl⟩

theorem connectionsOf_modest {α : Type} (caller : Caller) (u : Nat) {k : List Nat → ServerM α}
    (hk : ∀ cs, Keeps (modesty env) (fun _ => True) (k cs)) :
    Keeps (modesty env) (fun _ => True) (.op (.connectionsOf caller u) k) :=
  (modesty_answers (o := .connectionsOf caller u) trivial).op fun cs _ => hk cs

theorem sendDm_modest (sender receiver : Nat) (content : String)
    (hsize : content.utf8ByteSize ≤ env.maxMessage) :
    Keeps (modesty env) (fun _ => True) (MessageRouter.sendDm sender receiver content) := by
  refine (modesty_answers (o := .now) trivial).op fun ts hts => ?_
  refine (modesty_answers (o := .repo (.insertDm sender receiver content ts)) ⟨hsize, hts⟩).op
    fun id _ => ?_
  cases id with
  | none => exact keeps_ret 0
  | some id =>
    have hm : Message.Modest env ⟨id, sender, some receiver, none, content, 0, ts⟩ := ⟨hsize, hts⟩
    refine connectionsOf_modest .deliver receiver fun cs => ?_
    dsimp only [ret_bind]
    refine Keeps.bind ?_ fun _ => ?_
    · split
      · exact (modesty_answers (o := .repo (.enqueueUndelivered id receiver)) trivial).op fun _ _ =>
          keeps_ret ()
      · refine (sendEach_modest hm .deliver receiver cs).bind fun _ => ?_
        exact (modesty_answers (o := .repo (.updateMessageStatus id 1)) trivial).op fun _ _ =>
          keeps_ret ()
    · refine connectionsOf_modest .echo sender fun cs => ?_
      exact (sendEach_modest hm .echo sender cs).bind fun _ => keeps_ret id

theorem fanOut_modest {m : Message} (hm : m.Modest env) (id sender : Nat) (us : List Nat) :
    Keeps (modesty env) (fun _ => True) (MessageRouter.fanOut id sender m.event us) := by
  induction us with
  | nil => exact keeps_ret ()
  | cons u us ih =>
    refine connectionsOf_modest .fanOut u fun cs => ?_
    dsimp only [ret_bind]
    refine Keeps.bind ?_ fun _ => ih
    split
    · split
      · exact (modesty_answers (o := .repo (.enqueueUndelivered id u)) trivial).op fun _ _ =>
          keeps_ret ()
      · exact keeps_ret ()
    · exact sendEach_modest hm .fanOut u cs

theorem sendRoom_modest (sender room : Nat) (content : String)
    (hsize : content.utf8ByteSize ≤ env.maxMessage) :
    Keeps (modesty env) (fun _ => True) (MessageRouter.sendRoom sender room content) := by
  refine (modesty_answers (o := .isMember room sender) trivial).op fun isMember _ => ?_
  cases isMember with
  | false => exact keeps_ret 0
  | true =>
    refine (modesty_answers (o := .now) trivial).op fun ts hts => ?_
    refine (modesty_answers (o := .repo (.insertRoomMsg sender room content ts)) ⟨hsize, hts⟩).op
      fun id _ => ?_
    cases id with
    | none => exact keeps_ret 0
    | some id =>
      have hm : Message.Modest env ⟨id, sender, none, some room, content, 0, ts⟩ := ⟨hsize, hts⟩
      refine (modesty_answers (o := .membersOf room) trivial).op fun members _ => ?_
      exact (fanOut_modest hm id sender members).bind fun _ => keeps_ret id

theorem replayEach_modest (u : Nat) (cs : List Nat) {ms : List Message}
    (hms : ∀ m ∈ ms, m.Modest env) :
    Keeps (modesty env) (fun _ => True) (MessageRouter.replayEach u cs ms) := by
  induction ms with
  | nil => exact keeps_ret ()
  | cons m ms ih =>
    obtain ⟨hm, hms⟩ := List.forall_mem_cons.mp hms
    exact (sendEach_modest hm .replay u cs).bind fun _ => ih hms

theorem bind_modest (u : Nat) : Keeps (modesty env) (fun _ => True) (Presence.bind u c) := by
  refine (modesty_answers (o := .bindSlot u c) trivial).op fun transitioned _ => ?_
  dsimp only [ret_bind]
  refine Keeps.bind ?_ fun _ => keeps_ret transitioned
  split
  · refine (modesty_answers (o := .repo (.drainUndelivered u)) trivial).op fun ms hms => ?_
    dsimp only [ret_bind]
    split
    · exact keeps_ret ()
    · refine connectionsOf_modest .replay u fun cs => ?_
      dsimp only [ret_bind]
      split
      · exact keeps_ret ()
      · exact replayEach_modest u cs hms
  · exact keeps_ret ()

theorem body_modest (env : Env) (input : Input) :
    Keeps (modesty env) (fun _ => True) (body env input) := by
  cases input with
  | close c => exact close_uses.keeps (modesty_neutral env c) (by decide)
  | request c payload =>
    exact handlers.dispatch_keeps_accepted (modesty_neutral env c) (by decide)
      bind_modest sendDm_modest
      sendRoom_modest

end Programs

section Store

variable {env : Env} {o : Op} {w : World}

def Store.Modest (env : Env) (s : Store) : Prop := ∀ m ∈ s.messages, m.Modest env

theorem Message.Modest.of_core {m m' : Message} (h : m.Modest env) (hcore : m.core = m'.core) :
    m'.Modest env := by
  rw [Message.eq_of_core hcore] at h
  exact h

theorem modestRet_memExec (hclock : ∀ k, IsI64 (env.clock k)) (h : w.store.Modest env) :
    modestRet env o (memExec env o w).1 := by
  unfold modestRet
  split
  · exact hclock w.ticks
  · exact fun m hm => h m (Store.mem_drained hm).1
  · trivial

theorem Store.Modest.memExec (h : w.store.Modest env) (ho : modestOp env o) :
    (memExec env o w).2.store.Modest env := by
  intro m hm
  rcases mem_messages_memExec hm with ⟨m', hm', hcore⟩ | ⟨r, rfl, hstores⟩
  · exact (h m' hm').of_core hcore
  · cases r with
    | insertDm a b content ts =>
      change m.core.Modest env
      rw [← Option.some.inj hstores]
      exact ho
    | insertRoomMsg a r content ts =>
      change m.core.Modest env
      rw [← Option.some.inj hstores]
      exact ho
    | _ => cases hstores

theorem modest_reachable (hclock : ∀ k, IsI64 (env.clock k)) {g : Sys}
    (hg : Reachable env (fun _ _ => True) g) :
    g.hist.state.store.Modest env ∧ ∀ e ∈ g.hist.log, modestOp env e.op := by
  have hinv : ∃ ts : Nat → Unit, Config.Tracked (fun _ => modesty env) (fun _ => True) g ts ∧
      g.hist.state.store.Modest env ∧ ∀ e ∈ g.hist.log, modestOp env e.op := by
    refine Config.Reach.invariant
      (fun g _ => g.hist.state.store.Modest env ∧ ∀ e ∈ g.hist.log, modestOp env e.op)
        (fun _ => ()) (fun _ => ())
      (fun _ => trivial) ⟨fun m hm => absurd hm List.not_mem_nil, fun e he =>
        absurd he List.not_mem_nil⟩
      (fun input => body_modest env input () trivial) ?_ ?_ hg
    · exact fun _ _ _ _ _ h _ _ => h
    · intro g ts i input o k _ h _ _ ha
      refine ⟨(), modestRet_memExec hclock h.1, h.1.memExec ha, ?_⟩
      intro e he
      rcases List.mem_append.mp he with he | he
      · exact h.2 e he
      · rw [List.mem_singleton.mp he]
        exact ha
  obtain ⟨-, -, h⟩ := hinv
  exact h

end Store

def Framed (env : Env) (j : Json) : Prop :=
  1 ≤ (j.dump env.showFloat).utf8ByteSize ∧ (j.dump env.showFloat).utf8ByteSize ≤ env.maxFrame

theorem framed_event {env : Env} (hlimits : 199 + 6 * env.maxMessage ≤ env.maxFrame)
    {content : String} {ts : Int}
    (h : Accepted env content ts) (id sender : Nat) (receiver room : Option Nat) :
    Framed env (makeEventMessage (toI64 id) (toI64 sender) (receiver.map toI64) (room.map toI64)
      content ts) := by
  have hoption (n : Option Nat) : ∀ k ∈ n.map toI64, IsI64 k := by
    intro k hk
    obtain ⟨x, -, rfl⟩ := Option.map_eq_some_iff.mp hk
    exact isI64_toI64 x
  have hsize := eventSize_le env.showFloat content (isI64_toI64 id) (isI64_toI64 sender) h.2
    (hoption receiver)
    (hoption room)
  have hcontent := h.1
  unfold Framed
  rw [Json.utf8ByteSize_dump]
  constructor
  · simp [makeEventMessage, Json.size]
    omega
  · omega

theorem accepted_events_fit {env : Env} (hmessage : env.maxMessage = 4096)
    (hframe : env.maxFrame = 65536) (hclock : ∀ k, IsI64 (env.clock k)) :
    (∀ content ts, Accepted env content ts → ∀ (id sender : Nat) (receiver room : Option Nat),
      Framed env (makeEventMessage (toI64 id) (toI64 sender) (receiver.map toI64)
        (room.map toI64) content ts)) ∧
    ∀ g, Reachable env (fun _ _ => True) g → ∀ e ∈ g.hist.log, ∀ caller u left d j,
      e.op = .sendFrame (.loop caller u left) d j →
        Framed env j ∧ (e.before.conns d).accepts env j = (e.before.conns d).isOpen := by
  have hlimits : 199 + 6 * env.maxMessage ≤ env.maxFrame := by
    rw [hmessage, hframe]
    decide
  refine ⟨fun content ts => framed_event hlimits, ?_⟩
  intro g hg e he caller u left d j hop
  have hmodest := (modest_reachable hclock hg).2 e he
  rw [hop] at hmodest
  obtain ⟨m, hm, rfl⟩ := hmodest
  have hframed : Framed env m.event := framed_event hlimits hm m.id m.senderId m.receiverId m.roomId
  have hfits : fits env m.event = true := decide_eq_true hframed.2
  exact ⟨hframed, by rw [Conn.accepts, hfits, Bool.and_true]⟩

def noonEnv : Env := { mailEnv with clock := fun _ => 1700000000000 }

def Op.loops : Op → Bool
  | .sendFrame (.loop _ _ _) _ _ => true
  | _ => false

theorem accepted_events_fit_mail :
    ∃ e ∈ (serveAll noonEnv offlineMail).log, ∃ caller u left d j,
      e.op = .sendFrame (.loop caller u left) d j ∧ Framed noonEnv j := by
  have hloops : (serveAll noonEnv offlineMail).log.any (fun e => e.op.loops) = true := by
    decide +kernel
  obtain ⟨e, he, hop⟩ := List.any_eq_true.mp hloops
  obtain ⟨tasks, hg⟩ := serveAll_reachable noonEnv offlineMail
  have htime : IsI64 1700000000000 := ⟨by decide, by decide⟩
  have hclock : ∀ k, IsI64 (noonEnv.clock k) := fun _ => htime
  have hall := (accepted_events_fit rfl rfl hclock).2 _ hg e he
  unfold Op.loops at hop
  split at hop
  · rename_i caller u left d j heq
    exact ⟨e, he, caller, u, left, d, j, heq, (hall caller u left d j heq).1⟩
  · cases hop

end ChatServer
