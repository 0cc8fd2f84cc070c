import ChatServer.Server.OfflineDelivery
import ChatServer.Server.Routed
import ChatServer.Server.SendOrder
import ChatServer.Server.Tickets

namespace ChatServer

open Lib Lib.Prog

def ReplaysInOrder (env : Env) (w : World) (u c : Nat) : Prop :=
  ∃ ms : List Message, sent env (Presence.bind u c) w = ms.map (fun m => (c, m.event)) ∧
    ms.map Message.id = w.store.queue u ∧ (ms.map Message.id).Pairwise (· < ·)

def storedId (e : Event Input Op World) : Option Nat :=
  match e.op with
  | .repo o => (o.stores e.before.store).map Message.id
  | _ => none

/-- A message is queued only after the tasks that stored messages with smaller numbers have
finished. -/
def queuedInOrder (g : Sys) : Move Input → Bool
  | .start _ _ => true
  | .advance i =>
    match g.nextOp i with
    | some (.repo (.enqueueUndelivered id _)) =>
      g.hist.log.all fun e => (storedId e).all fun n => id ≤ n ∨ (g.tasks e.task).finished
    | _ => true

theorem Tickets.mem_after {env : Env} {t : Tickets} {e : Event Input Op World} {p : Nat × Nat}
    (h : p ∈ t.after e.op (memExec env e.op e.before).1) : p ∈ t ∨ storedId e = some p.1 := by
  obtain ⟨i, input, o, w⟩ := e
  cases o with
  | repo o =>
    cases o with
    | insertDm a b content ts => exact h.imp_right fun hp => congrArg some (Eq.symm hp)
    | insertRoomMsg a r content ts => exact h.imp_right fun hp => congrArg some (Eq.symm hp)
    | enqueueUndelivered id u => exact .inl h.1
    | _ => exact .inl h
  | _ => exact .inl h

theorem storedId_eq {e : Event Input Op World} {n : Nat} (h : storedId e = some n) :
    n = e.before.store.nextMsgId := by
  obtain ⟨i, input, o, w⟩ := e
  cases o with
  | repo o => cases o <;> cases h <;> rfl
  | _ => cases h

theorem mem_queue_memExec {env : Env} {o : Op} {w : World} {u x : Nat}
    (h : x ∈ (memExec env o w).2.store.queue u) :
    x ∈ w.store.queue u ∨ o = .repo (.enqueueUndelivered x u) := by
  cases o with
  | repo o =>
    rw [memExec_repo, memory_queue] at h
    cases o with
    | enqueueUndelivered id v =>
      simp only [RepoOp.onQueue] at h
      split at h
      · rename_i heq
        subst heq
        rcases List.mem_append.mp h with h | h
        · exact .inl h
        · rw [List.mem_singleton.mp h]
          exact .inr rfl
      · exact .inl h
    | drainUndelivered v =>
      simp only [RepoOp.onQueue] at h
      split at h
      · cases h
      · exact .inl h
    | _ => exact .inl h
  | _ =>
    rw [memExec_store env _ _ (by simp)] at h
    exact .inl h

structure InOrder (g : Sys) (ts : Nat → Tickets) : Prop where
  ticketed : Ticketed g.hist.state.store ts
  storer : ∀ i, ∀ p ∈ ts i, ∃ e ∈ g.hist.log, e.task = i ∧ storedId e = some p.1
  ahead : ∀ u, ∀ x ∈ g.hist.state.store.queue u, ∀ i, (g.tasks i).finished = false →
    ∀ p ∈ ts i, x ≤ p.1
  rising : ∀ u, (g.hist.state.store.queue u).Pairwise (· < ·)

namespace InOrder

variable {env : Env} {g : Sys} {ts : Nat → Tickets} {i : Nat} {input : Input}

theorem init : InOrder Sys.start fun _ => ∅ where
  ticketed := .empty
  storer _ _ h := absurd h (Set.notMem_empty _)
  ahead _ _ h := nomatch h
  rising _ := .nil

theorem start (h : InOrder g ts) :
    InOrder { g with tasks := Function.update g.tasks i (.busy input (body env input)) }
      (Function.update ts i ∅) := by
  have hold {n : Nat} {p : Nat × Nat} (hp : p ∈ Function.update ts i ∅ n) : n ≠ i ∧ p ∈ ts n := by
    have hne : n ≠ i := by
      rintro rfl
      rw [Function.update_self] at hp
      exact hp
    rw [Function.update_of_ne hne] at hp
    exact ⟨hne, hp⟩
  refine ⟨h.ticketed.mono fun n p hp => (hold hp).2, fun n p hp =>
    h.storer n p (hold hp).2, ?_, h.rising⟩
  intro u x hx n hn p hp
  obtain ⟨hne, hp⟩ := hold hp
  simp only [Function.update_of_ne hne] at hn
  exact h.ahead u x hx n hn p hp

theorem queue_lt (h : InOrder g ts) {u x : Nat} (hx : x ∈ g.hist.state.store.queue u) :
    x < g.hist.state.store.nextMsgId := by
  obtain ⟨m, hm, rfl⟩ := h.ticketed.queued.stored u x hx
  exact (h.ticketed.sound.bounded m hm).2

theorem enqueue_rising (h : InOrder g ts) {id u : Nat} (hwork : (g.tasks i).finished = false)
    (ht : (id, u) ∈ ts i) : (g.hist.state.store.queue u ++ [id]).Pairwise (· < ·) := by
  refine List.pairwise_append.mpr ⟨h.rising u, List.pairwise_singleton .., ?_⟩
  intro x hx y hy
  rw [List.mem_singleton.mp hy]
  have hle : x ≤ id := h.ahead u x hx i hwork _ ht
  have hne : x ≠ id := by
    rintro rfl
    exact h.ticketed.unused i _ ht hx
  exact Nat.lt_of_le_of_ne hle hne

theorem op (h : InOrder g ts) {o : Op} {k : o.Ret → ServerM Unit}
    (hi : g.tasks i = .busy input (.op o k))
    (ha : (ts i).allows o) (hok : queuedInOrder g (.advance i) = true) :
    InOrder (g.perform (memExec env) i input o k)
      (Function.update ts i ((ts i).after o (memExec env o g.hist.state).1)) := by
  let e : Event Input Op World := ⟨i, input, o, g.hist.state⟩
  have hwork : (g.tasks i).finished = false := by
    rw [hi]
    rfl
  have hcases {n : Nat} {p : Nat × Nat}
      (hp : p ∈ Function.update ts i ((ts i).after o (memExec env o g.hist.state).1) n) :
      p ∈ ts n ∨ (n = i ∧ storedId e = some p.1) := by
    by_cases hni : n = i
    · subst hni
      rw [Function.update_self] at hp
      exact (Tickets.mem_after (e := e) hp).imp_right fun hid => ⟨rfl, hid⟩
    · rw [Function.update_of_ne hni] at hp
      exact .inl hp
  refine ⟨h.ticketed.op i o ha, ?_, ?_, ?_⟩
  · intro n p hp
    rcases hcases hp with hp | ⟨rfl, hid⟩
    · obtain ⟨e', he', htask, hid⟩ := h.storer n p hp
      exact ⟨e', List.mem_append_left _ he', htask, hid⟩
    · exact ⟨e, List.mem_append_right _ (List.mem_singleton.mpr rfl), rfl, hid⟩
  · intro u x hx n hn p hp
    have hnwork : (g.tasks n).finished = false := by
      rw [Bool.eq_false_iff] at hn ⊢
      exact fun hfin => hn (Sys.finished_perform hi hfin)
    rcases mem_queue_memExec hx with hold | rfl
    · rcases hcases hp with hp | ⟨rfl, hid⟩
      · exact h.ahead u x hold n hnwork p hp
      · rw [storedId_eq hid]
        exact (h.queue_lt hold).le
    · -- the message is being queued, so the tasks with smaller numbers have finished
      rcases hcases hp with hp | ⟨-, hid⟩
      · obtain ⟨e', he', rfl, hid⟩ := h.storer n p hp
        simp only [queuedInOrder, Config.nextOp_eq hi, List.all_eq_true] at hok
        have hend : x ≤ p.1 ∨ (g.tasks e'.task).finished = true := by
          simpa [hid] using hok e' he'
        rcases hend with hle | hfin
        · exact hle
        · rw [hnwork] at hfin
          cases hfin
      · cases hid
  · intro u
    change ((memExec env o g.hist.state).2.store.queue u).Pairwise (· < ·)
    cases o with
    | repo o =>
      rw [memExec_repo, memory_queue]
      cases o with
      | enqueueUndelivered id v =>
        simp only [RepoOp.onQueue]
        split
        · rename_i heq
          subst heq
          exact h.enqueue_rising hwork ha
        · exact h.rising u
      | drainUndelivered v =>
        simp only [RepoOp.onQueue]
        split
        · exact .nil
        · exact h.rising u
      | _ => exact h.rising u
    | _ =>
      rw [memExec_store env _ _ (by simp)]
      exact h.rising u

end InOrder

theorem inOrder_reachable {env : Env} {g : Sys}
    (hg : Reachable env (fun g m => queuedInOrder g m = true) g) : ∃ ts, InOrder g ts := by
  suffices h : ∃ ts, Config.Tracked (fun _ => ticketing) (fun _ => True) g ts ∧ InOrder g ts from
    h.imp fun _ h => h.2
  refine Config.Reach.invariant InOrder (fun _ => ∅) (fun _ => ∅) (fun _ => trivial) InOrder.init
    (fun input => body_ticketing env input ∅ trivial) ?_ ?_ hg
  · intro g ts i input _ h _ _
    exact h.start
  · intro g ts i input o k _ h hok hi ha
    exact ⟨_, ⟨rfl, memExec_walksOnce ..⟩, h.op hi ha hok⟩

theorem replay_in_order {env : Env} {g : Sys}
    (hg : Reachable env (fun g m => queuedInOrder g m = true) g) {u : Nat}
    (hoff : g.hist.state.slot u = ∅) (c : Nat) : ReplaysInOrder env g.hist.state u c := by
  obtain ⟨ts, h⟩ := inOrder_reachable hg
  have hids := h.ticketed.queued.drainUndelivered u
  refine ⟨_, sent_bind env hoff, hids, ?_⟩
  rw [hids]
  exact h.rising u

section Runs

def queuedRun : List (Move Input) :=
  aliceOnline ++ begin 3 (ask 1 (sendDmReq 2 "first")) 5 ++
    begin 4 (ask 1 (sendDmReq 2 "second")) 5 ++
  List.replicate 5 (.advance 3) ++ List.replicate 5 (.advance 4)

theorem replay_in_order_queuedRun :
    ∃ g, Reachable twoDmsEnv (fun g m => queuedInOrder g m = true) g ∧ g.hist.state.slot 2 = ∅ ∧
      g.hist.state.store.queue 2 = [1, 2] ∧ ReplaysInOrder twoDmsEnv g.hist.state 2 2 := by
  have hrun : (Sys.start.steps (memExec twoDmsEnv) (body twoDmsEnv) queuedInOrder queuedRun).map
      (fun g => (g.hist.state.slot 2, g.hist.state.store.queue 2)) = some (∅, [1, 2]) := by
        decide +kernel
  obtain ⟨g, hreach, heq⟩ := Config.Reach.of_steps (fun _ _ h => h) hrun
  obtain ⟨hoff, hqueue⟩ := Prod.mk.inj heq
  exact ⟨g, hreach, hoff, hqueue, replay_in_order hreach hoff 2⟩

def swappedRun : List (Move Input) :=
  aliceOnline ++ begin 3 (ask 1 (sendDmReq 2 "first")) 5 ++
    begin 4 (ask 1 (sendDmReq 2 "second")) 10 ++
  List.replicate 5 (.advance 3)

def pushedIds (frames : List (Nat × Json)) : List (Nat × Int) :=
  frames.map fun f => (f.1, getI64 f.2 "msg_id" 0)

theorem replay_swapped :
    ∃ g, Reachable twoDmsEnv (fun _ _ => True) g ∧ g.quiet ∧ g.hist.state.slot 2 = ∅ ∧
      pushedIds (sent twoDmsEnv (Presence.bind 2 2) g.hist.state) = [(2, 2), (2, 1)] ∧
      ¬ReplaysInOrder twoDmsEnv g.hist.state 2 2 := by
  have hrun : (Sys.start.steps (memExec twoDmsEnv) (body twoDmsEnv) (fun _ _ => true)
    swappedRun).map
      (fun g => ((List.range 5).all fun i => (g.tasks i).finished, g.hist.state.slot 2,
        g.hist.state.store.queue 2, pushedIds (sent twoDmsEnv (Presence.bind 2 2) g.hist.state))) =
      some (true, ∅, [2, 1], [(2, 2), (2, 1)]) := by decide +kernel
  obtain ⟨g, hreach, hquiet, heq⟩ :=
    Config.Reach.quiet_of_steps (fun _ _ _ => trivial) 5 (by decide) hrun
  simp only [Prod.mk.injEq] at heq
  obtain ⟨hoff, hqueue, hpushed⟩ := heq
  refine ⟨g, hreach, hquiet, hoff, hpushed, ?_⟩
  rintro ⟨ms, -, hids, hrising⟩
  rw [hids, hqueue] at hrising
  exact absurd hrising (by decide)

end Runs

end ChatServer
