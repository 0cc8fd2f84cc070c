import ChatServer.Server.Delivery

namespace ChatServer

open Lib Lib.Prog

def Input.sendsDm (env : Env) : Input → Bool
  | .request _ payload => (env.parse payload).any fun req => getStr req "type" = types.kSendDM
  | .close _ => false

def ackedId (j : Json) : Option Nat :=
  match j.find "msg_id" with
  | some (.uint m) => if getStr j "type" = types.kAck then some m else none
  | _ => none

def Op.acks : Op → Option Nat
  | .sendFrame .reply _ j => ackedId j
  | _ => none

namespace Sys

def dmOf (env : Env) (g : Sys) (i : Nat) : Option Nat :=
  match g.tasks i with
  | .busy j _ => if j.sendsDm env then some j.conn else none
  | .fresh => none

def acked (g : Sys) (i m : Nat) : Bool := g.hist.log.any fun e => e.task = i ∧ e.op.acks = some m

end Sys

/-- Tasks are numbered in the order in which the pool takes them from its queue. -/
def takenInOrder (g : Sys) : Move Input → Bool
  | .start i _ => (List.range i).all fun n => (g.tasks n).started
  | .advance _ => true

/-- A `send_dm` frame is taken up only after the earlier ones of the same connection have been
dealt with. -/
def servedInOrder (env : Env) (g : Sys) : Move Input → Bool
  | .start i input =>
    !input.sendsDm env ||
      (List.range i).all fun n => g.dmOf env n ≠ some input.conn ∨ (g.tasks n).finished
  | .advance _ => true

@[simp] theorem ackedId_sentReply (id : Option Int) (m : Nat) (now : Int) :
    ackedId (handlers.sentReply id m now) = some m := by
  simp only [ackedId, getStr, handlers.sentReply, makeAck, Json.find, Fields.lookup_assign]
  cases id <;> rfl

@[simp] theorem ackedId_makeError (id : Option Int) (code message : String) :
    ackedId (makeError id code message) = none := by
  simp only [ackedId, makeError, Json.find, Fields.lookup_assign]
  cases id <;> rfl

theorem acks_eq_none {o : Op} (h : o.kind ≠ .reply) : o.acks = none := by
  unfold Op.acks
  split
  · simp at h
  · rfl

abbrev Stored := Option Nat

namespace Stored

def allows (t : Stored) : Op → Prop
  | .repo (.insertDm _ _ _ _) => t = none
  | .sendFrame .reply _ j => ∀ m, ackedId j = some m → t = some m
  | _ => True

def after (t : Stored) : (o : Op) → o.Ret → Stored
  | .repo (.insertDm _ _ _ _), id => id
  | _, _ => t

theorem acks {t : Stored} {o : Op} {m : Nat} (h : t.allows o) (hm : o.acks = some m) :
    t = some m := by
  unfold Op.acks at hm
  split at hm
  · exact h m hm
  · cases hm

theorem after_eq {t : Stored} {o : Op} (h : o.kind ≠ .storeDm) (r : o.Ret) : t.after o r = t := by
  unfold after
  split
  · simp at h
  · rfl

end Stored

/-- A `send_dm` frame stores at most one message and acknowledges it under its number;
nothing is asked of the other inputs. -/
def acking (dm : Bool) : Contract Op.Ret Stored where
  allows t o := dm = true → t.allows o
  next t o r t' := t' = if dm then t.after o r else t

section Programs

variable {c : Nat} {t : Stored}

theorem acking_fixed (c : Nat) (t : Stored) :
    Neutral (acking true) (fun t' => t' = t) c [.own, .ident, .assume, .validate, .bind, .dm,
      .queue, .replay] := by
  rintro o ⟨hk, -⟩ t' rfl
  refine ⟨fun _ => ?_, ?_⟩
  · unfold Stored.allows
    split
    · simp at hk
    · simp at hk
    · trivial
  · rintro r t'' rfl
    refine ⟨Stored.after_eq ?_ r, trivial⟩
    intro h
    simp [h] at hk

theorem error_acking (c : Nat) (t : Stored) (id : Option Int) (code message : String) :
    Keeps (acking true) (fun t' => t' = t) (handlers.send c (makeError id code message)) := by
  rintro t' rfl
  refine ⟨fun _ m hm => ?_, ?_⟩
  · rw [ackedId_makeError] at hm
    cases hm
  · rintro r t'' rfl
    rfl

theorem requireAuth_acking (req : Json) (id : Option Int) :
    Keeps (acking true) (fun t' => t' = t) (handlers.requireAuth c req id) := by
  have hks := acking_fixed c t
  have hbind (u : Nat) : Uses c [.bind, .replay] (Presence.bind u c) := by simp
  refine handlers.requireAuth_keeps_of_error (G := fun _ => True) hks (by decide)
    (error_acking c t id _)
    (fun tok t' ht => ?_) (fun u _ => (hbind u).keeps hks (by decide)) req
  obtain ⟨ha, hn⟩ := hks (.validate tok) (by simp) t' ht
  exact ⟨ha, fun r t'' h => ⟨(hn r t'' h).1, fun _ _ => trivial⟩⟩

theorem sendDm_acking (sender receiver : Nat) (content : String) :
    (MessageRouter.sendDm sender receiver content).Follows (acking true) none
      (fun id t => id ≠ 0 → t = some id) (fun _ => True) := by
  refine ⟨fun _ => trivial, ?_⟩
  rintro ts t' rfl
  refine ⟨fun _ => rfl, ?_⟩
  intro stored
  cases stored with
  | none => exact fun _ _ h => absurd rfl h
  | some id =>
    rintro t' rfl
    have hks := acking_fixed 0 (some id)
    refine ⟨fun _ => trivial, ?_⟩
    rintro conns t' rfl
    dsimp only [ret_bind]
    apply (follows_bind ..).mpr
    have hdeliver : Uses 0 [.dm, .queue]
      (if conns.isEmpty = true then call (.repo (.enqueueUndelivered id receiver))
        else do
          sendEach .deliver receiver
            (makeEventMessage (toI64 id) (toI64 sender) (some (toI64 receiver)) none content
              ts) conns
          call (.repo (.updateMessageStatus id 1))) := by
      simp
    apply (hdeliver.keeps hks (by decide) _ rfl).mono _ fun _ _ => trivial
    rintro _ t' rfl
    refine ⟨fun _ => trivial, ?_⟩
    rintro own t' rfl
    have hecho : Uses 0 [.dm] (sendEach .echo sender
        (makeEventMessage (toI64 id) (toI64 sender) (some (toI64 receiver)) none content ts)
          own) := by
      simp
    dsimp only [ret_bind]
    apply (follows_bind ..).mpr
    apply (hecho.keeps hks (by decide) _ rfl).mono _ fun _ _ => trivial
    rintro _ t' rfl
    exact fun _ => rfl

theorem handleSendDm_acking (env : Env) (req : Json) (id : Option Int) :
    (handlers.handleSendDm env c req id).Follows (acking true) none (fun _ _ => True)
    (fun _ => True) := by
  have herror {t : Stored} (code message : String) :
      (handlers.send c (makeError id code message)).Follows (acking true) t (fun _ _ => True)
        (fun _ => True) :=
    (error_acking c t id code message t rfl).mono (fun _ _ _ => trivial) fun _ _ => trivial
  apply (follows_bind ..).mpr
  apply (requireAuth_acking req id none rfl).mono _ fun _ _ => trivial
  rintro sender t rfl
  dsimp only
  split
  · trivial
  · split
    · exact herror _ _
    · split
      · exact herror _ _
      · refine ⟨fun _ => trivial, ?_⟩
        rintro found t' rfl
        cases found with
        | none => exact herror _ _
        | some _ =>
          dsimp only [ret_bind]
          apply (follows_bind ..).mpr
          apply (sendDm_acking sender _ _).mono _ fun _ h => h
          intro msgId t hid
          split
          · exact herror _ _
          · rename_i hne
            obtain rfl := hid hne
            refine ⟨fun _ => trivial, ?_⟩
            rintro now t' rfl
            refine ⟨fun _ m hm => ?_, fun _ _ _ => trivial⟩
            rwa [ackedId_sentReply] at hm

theorem dispatch_sendDm {env : Env} {payload : List UInt8} {req : Json}
    (hreq : env.parse payload = some req) (htype : getStr req "type" = types.kSendDM) :
    handlers.dispatch env c payload = (handlers.handleSendDm env c req (requestId req)).tryCatch
      (handlers.send c (makeError (requestId req) errcode.kInternal "internal error")) := by
  have hl : (handlers.table env).lookup types.kSendDM = some (handlers.handleSendDm env) := rfl
  simp only [handlers.dispatch, hreq, htype, hl]
  exact if_neg (by decide)

theorem body_acking (env : Env) (input : Input) :
    (body env input).Follows (acking (input.sendsDm env)) none (fun _ _ => True)
    (fun _ => True) := by
  cases hdm : input.sendsDm env with
  | false =>
      exact keeps_of_answers (fun _ _ _ => ⟨(nomatch ·), fun _ _ _ => ⟨trivial, trivial⟩⟩) _ _
        trivial
  | true =>
    cases input with
    | close c => cases hdm
    | request c payload =>
      obtain ⟨req, hreq, htype⟩ : ∃ req, env.parse payload = some req ∧
          getStr req "type" = types.kSendDM := by
        simpa [Input.sendsDm, Option.any_eq_true] using hdm
      rw [body, dispatch_sendDm hreq htype, follows_tryCatch]
      apply (handleSendDm_acking env req _).mono (fun _ _ h => h)
      exact fun t _ => (error_acking c t _ _ _ t rfl).mono (fun _ _ _ => trivial) fun _ _ => trivial

end Programs

namespace Sys

variable {env : Env} {g : Sys} {i n c : Nat} {input : Input} {x : ServerM Unit}

theorem started_of_dmOf (h : g.dmOf env i = some c) : (g.tasks i).started = true := by
  unfold dmOf at h
  split at h
  · rename_i hi
    rw [hi]
    rfl
  · cases h

theorem sendsDm_of_dmOf (hi : g.tasks i = .busy input x) (h : g.dmOf env i = some c) :
    input.sendsDm env = true := by
  simp only [dmOf, hi] at h
  split at h
  · assumption
  · cases h

@[simp] theorem dmOf_start_ne (h : n ≠ i) (t : Task Input Op.Ret) :
    dmOf env { g with tasks := Function.update g.tasks i t } n = g.dmOf env n := by
  simp [dmOf, Function.update_of_ne h]

theorem dmOf_perform {o : Op} {k : o.Ret → ServerM Unit} (hi : g.tasks i = .busy input (.op o k))
    (n : Nat) : dmOf env (g.perform (memExec env) i input o k) n = g.dmOf env n := by
  by_cases hn : n = i
  · subst hn
    simp [dmOf, Config.perform, hi]
  · simp [dmOf, Config.tasks_perform_ne g hn]

theorem started_perform {o : Op} {k : o.Ret → ServerM Unit} (hi : g.tasks i = .busy input (.op o k))
    (n : Nat) : ((g.perform (memExec env) i input o k).tasks n).started = (g.tasks n).started := by
  by_cases hn : n = i
  · subst hn
    simp [Config.perform, hi, Task.started]
  · rw [Config.tasks_perform_ne g hn]

theorem finished_perform {o : Op} {k : o.Ret → ServerM Unit}
    (hi : g.tasks i = .busy input (.op o k)) (hn : (g.tasks n).finished = true) :
    ((g.perform (memExec env) i input o k).tasks n).finished = true := by
  have hne : n ≠ i := by
    rintro rfl
    rw [hi] at hn
    cases hn
  rwa [Config.tasks_perform_ne g hne]

end Sys

structure Numbered (g : Sys) : Prop where
  taken : ∀ i n, n < i → (g.tasks i).started = true → (g.tasks n).started = true
  logged : ∀ e ∈ g.hist.log, (g.tasks e.task).started = true

theorem Numbered.perform {env : Env} {g : Sys} (h : Numbered g) {i : Nat} {input : Input} {o : Op}
    {k : o.Ret → ServerM Unit} (hi : g.tasks i = .busy input (.op o k)) :
    Numbered (g.perform (memExec env) i input o k) where
  taken j n hn hj := by
    rw [Sys.started_perform hi] at hj ⊢
    exact h.taken j n hn hj
  logged e he := by
    rw [Sys.started_perform hi]
    rcases List.mem_append.mp he with he | he
    · exact h.logged e he
    · rw [List.mem_singleton.mp he, hi]
      rfl

def Sys.ahead (env : Env) (g : Sys) (i j : Nat) : Prop :=
  i < j ∧ ∃ c, g.dmOf env i = some c ∧ g.dmOf env j = some c

structure Served (env : Env) (g : Sys) : Prop extends Numbered g where
  finished : ∀ i j, g.ahead env i j → (g.tasks i).finished = true

namespace Served

variable {env : Env} {g : Sys} {i : Nat} {input : Input}

theorem init : Served env Sys.start where
  taken _ _ _ h := nomatch h
  logged _ h := nomatch h
  finished _ _ h := by
    obtain ⟨-, c, h, -⟩ := h
    cases h

theorem not_ahead_fresh (h : Served env g) (hi : g.tasks i = .fresh) {j : Nat}
    (hij : i < j) {c : Nat} : g.dmOf env j ≠ some c := by
  intro hj
  have hstarted := h.taken j i hij (Sys.started_of_dmOf hj)
  rw [hi] at hstarted
  cases hstarted

theorem last (h : Served env g) {o : Op} {k : o.Ret → ServerM Unit}
    (hi : g.tasks i = .busy input (.op o k)) (j : Nat) : ¬g.ahead env i j := by
  intro hij
  have hfin := h.finished i j hij
  rw [hi] at hfin
  cases hfin

section Start

variable (h : Served env g) (hi : g.tasks i = .fresh)

include h hi

theorem ahead_start {n j : Nat}
    (hnj : Sys.ahead env { g with
      tasks := Function.update g.tasks i (.busy input (body env input)) } n j) :
    n ≠ i ∧ (j ≠ i → g.ahead env n j) := by
  obtain ⟨hlt, c, hn, hj⟩ := hnj
  have hne : n ≠ i := by
    rintro rfl
    rw [Sys.dmOf_start_ne hlt.ne'] at hj
    exact h.not_ahead_fresh hi hlt hj
  refine ⟨hne, fun hji => ⟨hlt, c, ?_, ?_⟩⟩
  · rwa [Sys.dmOf_start_ne hne] at hn
  · rwa [Sys.dmOf_start_ne hji] at hj

theorem start (htaken : takenInOrder g (.start i input) = true)
    (hserved : servedInOrder env g (.start i input) = true) :
    Served env { g with tasks := Function.update g.tasks i (.busy input (body env input)) } := by
  have hbefore : ∀ n < i, (g.tasks n).started = true := by
    simpa [takenInOrder] using htaken
  refine ⟨⟨?_, ?_⟩, ?_⟩
  · intro j n hn hj
    by_cases hni : n = i
    · subst hni
      simp [Task.started]
    · simp only [Function.update_of_ne hni]
      by_cases hji : j = i
      · subst hji
        exact hbefore n hn
      · exact h.taken j n hn (by simpa [Function.update_of_ne hji] using hj)
  · intro e he
    have hne : e.task ≠ i := by
      rintro rfl
      have hstarted := h.logged e he
      rw [hi] at hstarted
      cases hstarted
    simpa [Function.update_of_ne hne] using h.logged e he
  · intro n j hnj
    obtain ⟨hne, hold⟩ := h.ahead_start hi hnj
    simp only [Function.update_of_ne hne]
    by_cases hji : j = i
    · subst hji
      obtain ⟨hlt, c, hn, hj⟩ := hnj
      rw [Sys.dmOf_start_ne hne] at hn
      have hinput : input.sendsDm env = true ∧ input.conn = c := by
        simp only [Sys.dmOf, Function.update_self] at hj
        split at hj
        · exact ⟨‹_›, Option.some.inj hj⟩
        · cases hj
      have hall : ∀ n < j, g.dmOf env n ≠ some input.conn ∨ (g.tasks n).finished = true := by
        simpa [servedInOrder, hinput.1] using hserved
      exact (hall n hlt).resolve_left fun hother => hother (hinput.2 ▸ hn)
    · exact h.finished n j (hold hji)

end Start

theorem ahead_perform {o : Op} {k : o.Ret → ServerM Unit} (hi : g.tasks i = .busy input (.op o k)) :
    Sys.ahead env (g.perform (memExec env) i input o k) = g.ahead env := by
  funext n j
  simp only [Sys.ahead, Sys.dmOf_perform hi]

theorem perform (h : Served env g) {o : Op} {k : o.Ret → ServerM Unit}
    (hi : g.tasks i = .busy input (.op o k)) :
    Served env (g.perform (memExec env) i input o k) where
  toNumbered := h.toNumbered.perform hi
  finished n j hnj := by
    rw [ahead_perform hi] at hnj
    exact Sys.finished_perform hi (h.finished n j hnj)

end Served

section Runs

def twoDmsEnv : Env :=
  sampleEnv [registerReq "alice" "wonder", registerReq "bob" "builder", loginReq "alice" "wonder",
    sendDmReq 2 "first", sendDmReq 2 "second"]

def overtakenRun : List (Move Input) :=
  aliceOnline ++ begin 3 (ask 1 (sendDmReq 2 "first")) 3 ++
    begin 4 (ask 1 (sendDmReq 2 "second")) 10 ++
  List.replicate 7 (.advance 3)

end Runs

end ChatServer
