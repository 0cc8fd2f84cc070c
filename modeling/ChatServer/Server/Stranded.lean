import Mathlib.Data.Set.Insert
import ChatServer.Server.Delivery

namespace ChatServer

open Lib Lib.Prog

abbrev Wakes := Set Nat

namespace Wakes

def allows (t : Wakes) : Op → Prop
  | .repo (.drainUndelivered u) => u ∈ t
  | _ => True

def after (t : Wakes) : (o : Op) → o.Ret → Wakes
  | .bindSlot u _, true => insert u t
  | .repo (.drainUndelivered u), _ => t \ {u}
  | _, _ => t

end Wakes

def waking : Contract Op.Ret Wakes where
  allows := Wakes.allows
  next t o r t' := t' = t.after o r

section Programs

variable {c : Nat}

theorem waking_neutral (c : Nat) :
    Neutral waking (fun t => t = ∅) c [.own, .reply, .ident, .assume, .session, .validate,
      .issue, .unbind, .close, .storeDm, .dm, .storeRoomMsg, .roomMsg, .queue, .membership] := by
  rintro o ⟨hk, -⟩ t rfl
  refine ⟨?_, ?_⟩
  · change Wakes.allows ∅ o
    unfold Wakes.allows
    split
    · simp at hk
    · trivial
  · rintro r t' rfl
    refine ⟨?_, trivial⟩
    unfold Wakes.after
    split <;> simp at hk ⊢

theorem sendEach_waking {caller : Caller} (u : Nat) (event : Json) (cs : List Nat) :
    Keeps waking (fun t => t = ∅) (sendEach caller u event cs) := by
  induction cs with
  | nil => exact keeps_ret ()
  | cons d cs ih =>
    rintro t rfl
    refine ⟨trivial, ?_⟩
    rintro r t' rfl
    exact ih _ rfl

theorem replayEach_waking (u : Nat) (conns : List Nat) (ms : List Message) :
    Keeps waking (fun t => t = ∅) (MessageRouter.replayEach u conns ms) := by
  induction ms with
  | nil => exact keeps_ret ()
  | cons m ms ih => exact (sendEach_waking u m.event conns).bind fun _ => ih

theorem bind_waking (u : Nat) : Keeps waking (fun t => t = ∅) (Presence.bind u c) := by
  rintro t rfl
  refine ⟨trivial, ?_⟩
  rintro transitioned t' rfl
  dsimp only [ret_bind]
  apply (follows_bind ..).mpr
  cases transitioned with
  | false => rfl
  | true =>
    refine ⟨Set.mem_insert .., ?_⟩
    rintro pending t' rfl
    have hpaid : insert u (∅ : Wakes) \ {u} = ∅ := by simp
    change Follows waking _ (insert u (∅ : Wakes) \ {u}) _ _
    rw [hpaid]
    dsimp only [ret_bind]
    split
    · rfl
    · refine ⟨trivial, ?_⟩
      rintro conns t' rfl
      dsimp only [ret_bind]
      split
      · rfl
      · apply (replayEach_waking u conns pending ∅ rfl).mono
        · exact fun _ _ h => h
        · exact fun _ h => h

theorem body_waking (env : Env) (input : Input) :
    Keeps waking (fun t => t = ∅) (body env input) := by
  cases input with
  | close c => exact close_uses.keeps (waking_neutral c) (by decide)
  | request c payload =>
    exact handlers.dispatch_keeps_routing (waking_neutral c) (by decide) bind_waking
      (fun s r content => (MessageRouter.sendDm_uses s r content).keeps
        (waking_neutral c) (by decide))
      (fun s r content => (MessageRouter.sendRoom_uses s r content).keeps
        (waking_neutral c) (by decide))

end Programs

/-- A message is queued for a user only while the user has no connection or a drain of
the queue is about to run. -/
def queuesInTime (g : Sys) : Move Input → Prop
  | .start _ _ => True
  | .advance i => ∀ id u, g.nextOp i = some (.repo (.enqueueUndelivered id u)) →
      g.hist.state.slot u = ∅ ∨ ∃ j, g.nextOp j = some (.repo (.drainUndelivered u))

def Awaited (w : World) (ts : Nat → Wakes) : Prop :=
  ∀ u, w.slot u ≠ ∅ → w.store.queue u = [] ∨ ∃ i, u ∈ ts i

theorem owes_of_nextOp {g : Sys} {ts : Nat → Wakes}
    (ht : Config.Tracked (fun _ => waking) (fun t => t = ∅) g ts)
    {j u : Nat} (hj : g.nextOp j = some (.repo (.drainUndelivered u))) : u ∈ ts j := by
  have htask := ht j
  unfold Config.nextOp at hj
  cases htj : g.tasks j with
  | fresh => simp [htj] at hj
  | busy input x =>
    rw [htj] at hj htask
    cases x with
    | ret a => cases hj
    | throw => cases hj
    | op o k =>
      obtain rfl : o = .repo (.drainUndelivered u) := by simpa using hj
      exact htask.1

namespace Awaited

variable {env : Env} {w w' : World} {ts : Nat → Wakes}

theorem wakes_update {v : Nat} {s : Wakes} (i : Nat) (hs : v ∈ ts i → v ∈ s) (h : ∃ j, v ∈ ts j) :
    ∃ j, v ∈ Function.update ts i s j := by
  obtain ⟨j, hj⟩ := h
  by_cases hji : j = i
  · subst hji
    exact ⟨j, by simpa using hs hj⟩
  · exact ⟨j, by rwa [Function.update_of_ne hji]⟩

theorem shrink (h : Awaited w ts) (hslot : ∀ u, w'.slot u ≠ ∅ → w.slot u ≠ ∅)
    (hqueue : ∀ u, w.store.queue u = [] → w'.store.queue u = []) : Awaited w' ts :=
  fun u hu => (h u (hslot u hu)).imp_left (hqueue u)

theorem bind (h : Awaited w ts) (i u c : Nat) :
    Awaited (memExec env (.bindSlot u c) w).2
      (Function.update ts i ((ts i).after (.bindSlot u c) (memExec env (.bindSlot u c) w).1)) := by
  have hstore : (memExec env (.bindSlot u c) w).2.store = w.store := rfl
  intro v hv
  rw [memExec_slot] at hv
  rw [hstore]
  by_cases hempty : w.slot u = ∅
  · have hwakes : (ts i).after (.bindSlot u c) (memExec env (.bindSlot u c) w).1 =
        insert u (ts i) := by
      have htrue : (memExec env (.bindSlot u c) w).1 = true := decide_eq_true hempty
      rw [htrue]
      rfl
    rw [hwakes]
    by_cases huv : u = v
    · subst huv
      exact .inr ⟨i, by simp⟩
    · simp only [Op.onSlot, huv, if_false] at hv
      exact (h v hv).imp_right (wakes_update i (Set.mem_insert_of_mem u))
  · have hwakes : (ts i).after (.bindSlot u c) (memExec env (.bindSlot u c) w).1 = ts i := by
      have hfalse : (memExec env (.bindSlot u c) w).1 = false := decide_eq_false hempty
      rw [hfalse]
      rfl
    rw [hwakes, Function.update_eq_self]
    apply h
    by_cases huv : u = v
    · rwa [← huv]
    · simpa only [Op.onSlot, huv, if_false] using hv

theorem drain (h : Awaited w ts) (i u : Nat) :
    Awaited (memExec env (.repo (.drainUndelivered u)) w).2
      (Function.update ts i (ts i \ {u})) := by
  intro v hv
  rw [memExec_slot] at hv
  rw [memExec_repo, memory_queue]
  by_cases huv : u = v
  · exact .inl (by simp [RepoOp.onQueue, huv])
  · simp only [RepoOp.onQueue, huv, if_false]
    exact (h v hv).imp_right (wakes_update i fun hmem => ⟨hmem, Ne.symm huv⟩)

theorem op (h : Awaited w ts) (i : Nat) (o : Op)
    (htime : ∀ id u, o = .repo (.enqueueUndelivered id u) → w.slot u = ∅ ∨ ∃ j, u ∈ ts j) :
    Awaited (memExec env o w).2 (Function.update ts i ((ts i).after o (memExec env o w).1)) := by
  cases o with
  | bindSlot u c => exact h.bind i u c
  | unbindSlot u c =>
    rw [show Wakes.after _ _ _ = ts i from rfl, Function.update_eq_self]
    refine h.shrink (fun v hv => ?_) fun _ hq => hq
    rw [memExec_slot] at hv
    simp only [Op.onSlot] at hv
    split at hv
    · rintro hempty
      simp [hempty] at hv
    · exact hv
  | repo o =>
    cases o with
    | drainUndelivered u => exact h.drain i u
    | enqueueUndelivered id u =>
      rw [show Wakes.after _ _ _ = ts i from rfl, Function.update_eq_self]
      intro v hv
      rw [memExec_slot] at hv
      by_cases huv : u = v
      · subst huv
        exact .inr ((htime id u rfl).resolve_left hv)
      · rw [memExec_repo, memory_queue]
        simpa only [RepoOp.onQueue, huv, if_false] using h v hv
    | _ =>
      rw [show Wakes.after _ _ _ = ts i from rfl, Function.update_eq_self]
      refine h.shrink (fun v hv => by rwa [memExec_slot] at hv) fun v hq => ?_
      rwa [memExec_repo, memory_queue]
  | _ =>
    rw [show Wakes.after _ _ _ = ts i from rfl, Function.update_eq_self]
    refine h.shrink (fun v hv => by rwa [memExec_slot] at hv) fun v hq => ?_
    rwa [memExec_store env _ _ (by simp)]

end Awaited

theorem awaited_reachable {env : Env} {g : Sys} (hg : Reachable env queuesInTime g) :
    ∃ ts, Config.Tracked (fun _ => waking) (fun t => t = ∅) g ts ∧ Awaited g.hist.state ts := by
  refine Config.Reach.invariant (fun g ts => Awaited g.hist.state ts) (fun _ => ∅) (fun _ => ∅)
    (fun _ => rfl) ?_
    (fun input => body_waking env input ∅ rfl) ?_ ?_ hg
  · intro u hu
    exact absurd rfl hu
  · intro g ts i input ht h _ hf
    have hidle : ts i = ∅ := ht.done (by rw [hf]; rfl)
    rwa [← hidle, Function.update_eq_self]
  · intro g ts i input o k ht h hok hp _
    refine ⟨_, rfl, h.op i o fun id u ho => ?_⟩
    subst ho
    exact (hok id u (Config.nextOp_eq hp)).imp_right fun ⟨j, hj⟩ => ⟨j, owes_of_nextOp ht hj⟩

def NoneStranded (w : World) : Prop := ∀ u, w.slot u ≠ ∅ → w.store.queue u = []

theorem none_stranded {env : Env} {g : Sys} (hg : Reachable env queuesInTime g) (hq : g.quiet) :
    NoneStranded g.hist.state := by
  obtain ⟨ts, ht, h⟩ := awaited_reachable hg
  intro u hu
  refine (h u hu).resolve_right ?_
  rintro ⟨i, hi⟩
  have hidle : ts i = ∅ := ht.done (hq i)
  rw [hidle] at hi
  exact hi

section Runs

def queuesInTimeCheck (g : Sys) : Move Input → Bool
  | .start _ _ => true
  | .advance i =>
    match g.nextOp i with
    | some (.repo (.enqueueUndelivered _ u)) => g.hist.state.slot u = ∅
    | _ => true

theorem queuesInTime_of_check (g : Sys) (m : Move Input) (h : queuesInTimeCheck g m = true) :
    queuesInTime g m := by
  cases m with
  | start i input => trivial
  | advance i =>
    intro id u ho
    simp only [queuesInTimeCheck, ho] at h
    exact .inl (by simpa using h)

theorem none_stranded_mailRun :
    ∃ g, Reachable mailEnv queuesInTime g ∧ g.quiet ∧ g.hist.state.slot 2 = {2} ∧
    NoneStranded g.hist.state := by
  have hrun : (Sys.start.steps (memExec mailEnv) (body mailEnv) queuesInTimeCheck mailRun).map
      (fun g => ((List.range 6).all fun i => (g.tasks i).finished, g.hist.state.slot 2)) =
        some (true, {2}) := by
    decide +kernel
  obtain ⟨g, hreach, hquiet, hslot⟩ :=
    Config.Reach.quiet_of_steps queuesInTime_of_check 6 (by decide) hrun
  exact ⟨g, hreach, hquiet, hslot, none_stranded hreach hquiet⟩

def strandingRun : List (Move Input) :=
  aliceOnline ++ begin 3 (ask 1 (sendDmReq 2 "hello")) 5 ++
    begin 4 (ask 2 (loginReq "bob" "builder")) 10 ++
  List.replicate 5 (.advance 3)

theorem message_stranded :
    ∃ g, Reachable mailEnv (fun _ _ => True) g ∧ g.quiet ∧ ¬NoneStranded g.hist.state := by
  have hrun : (Sys.start.steps (memExec mailEnv) (body mailEnv) (fun _ _ => true) strandingRun).map
      (fun g => ((List.range 6).all fun i => (g.tasks i).finished, g.hist.state.slot 2,
        g.hist.state.store.queue 2)) =
        some (true, {2}, [1]) := by
    decide +kernel
  obtain ⟨g, hreach, hquiet, heq⟩ :=
    Config.Reach.quiet_of_steps (fun _ _ _ => trivial) 6 (by decide) hrun
  obtain ⟨hslot, hqueue⟩ := Prod.mk.inj heq
  refine ⟨g, hreach, hquiet, fun hnone => ?_⟩
  have hempty := hnone 2 (by simp [hslot])
  simp [hqueue] at hempty

end Runs

end ChatServer
