import Mathlib.Data.List.Nodup
import Mathlib.Logic.Function.Basic
import ChatServer.Lib.Machine

/-! The thread pool.  Any number of threads submit tasks, the workers take them out of the
queue, and one thread shuts the pool down; the flag `stopping_` is set without the mutex.
Every access to shared state is one move.  A task is named by the call that submits it,
and while it runs it may do anything, including further calls of `submit`. -/

namespace ChatServer

open Lib

namespace ThreadPool

/-- Where a call of `submit` is: `entered` before `stopping_` is read, `locking` before the
mutex is taken, `locked` before `stopping_` is read again, `cleared` before the push,
`pushed` before `notify_one`. -/
inductive Submit : Type
  | idle : Submit
  | entered : Submit
  | locking : Submit
  | locked : Submit
  | cleared : Submit
  | pushed : Submit
  | returned : Bool → Submit
  deriving DecidableEq

/-- Where a worker is in `worker_loop`: `locking` before the mutex is taken, at first or
after a wake-up, `testing` before the predicate of the wait, `dozing` between the predicate
and the sleep, `asleep` in the wait set, `ready` behind the wait with the mutex,
`running` a task, and `submitting` when that task is in a call of `submit`. -/
inductive Worker : Type
  | locking : Worker
  | testing : Worker
  | dozing : Worker
  | asleep : Worker
  | ready : Worker
  | running : Nat → Worker
  | submitting : Nat → Nat → Worker
  | exited : Worker
  deriving DecidableEq

inductive Shutdown : Type
  | idle : Shutdown
  | stored : Shutdown
  | notified : Shutdown
  | joined : Shutdown
  deriving DecidableEq

inductive Owner (n : Nat) : Type
  | submit : Nat → Owner n
  | worker : Fin n → Owner n
  deriving DecidableEq

namespace Submit

@[grind] def holds : Submit → Bool
  | .locked | .cleared => true
  | _ => false

@[grind] def queued : Submit → Bool
  | .pushed | .returned true => true
  | _ => false

end Submit

namespace Worker

@[grind] def holds : Worker → Bool
  | .testing | .dozing | .ready => true
  | _ => false

@[grind] def job : Worker → Option Nat
  | .running t | .submitting t _ => some t
  | _ => none

end Worker

end ThreadPool

open ThreadPool in
/-- A pool of `n` workers.  The last three fields are its history: the tasks in the order
they were queued, in the order they were taken, and those that have come to their end. -/
structure ThreadPool (n : Nat) where
  q : List Nat
  stopping : Bool
  owner : Option (Owner n)
  workers : Fin n → Worker
  submits : Nat → Submit
  shutdown : Shutdown
  queued : List Nat
  taken : List Nat
  ran : List Nat

namespace ThreadPool

variable {n : Nat}

def start (n : Nat) : ThreadPool n :=
  ⟨[], false, none, fun _ => .locking, fun _ => .idle, .idle, [], [], []⟩

def submit (s : ThreadPool n) (i : Nat) (p : Submit) : ThreadPool n :=
  { s with submits := Function.update s.submits i p }

def work (s : ThreadPool n) (w : Fin n) (p : Worker) : ThreadPool n :=
  { s with workers := Function.update s.workers w p }

/-- The moves of a call of `submit`, of a worker, and of `shutdown`.  A task that runs ends
by `finish`, whether it returns or throws. -/
inductive Move (n : Nat) : Type
  | enter : Nat → Move n
  | enterFrom : Fin n → Nat → Nat → Move n
  | refuse : Nat → Move n
  | pass : Nat → Move n
  | lock : Nat → Move n
  | reject : Nat → Move n
  | clear : Nat → Move n
  | push : Nat → Move n
  | notifyOne : Nat → Fin n → Move n
  | notifyNone : Nat → Move n
  | resume : Fin n → Nat → Nat → Move n
  | acquire : Fin n → Move n
  | doze : Fin n → Move n
  | sleep : Fin n → Move n
  | spurious : Fin n → Move n
  | proceed : Fin n → Move n
  | exit : Fin n → Move n
  | retry : Fin n → Move n
  | take : Fin n → Nat → Move n
  | finish : Fin n → Nat → Move n
  | store : Move n
  | notifyAll : Move n
  | join : Move n
  deriving DecidableEq

def can (s : ThreadPool n) : Move n → Bool
  | .enter i => s.submits i = .idle
  | .enterFrom w t i => s.workers w = .running t ∧ s.submits i = .idle
  | .refuse i => s.submits i = .entered ∧ s.stopping = true
  | .pass i => s.submits i = .entered ∧ s.stopping = false
  | .lock i => s.submits i = .locking ∧ s.owner = none
  | .reject i => s.submits i = .locked ∧ s.stopping = true
  | .clear i => s.submits i = .locked ∧ s.stopping = false
  | .push i => s.submits i = .cleared
  | .notifyOne i w => s.submits i = .pushed ∧ s.workers w = .asleep
  | .notifyNone i => s.submits i = .pushed ∧ ∀ w, s.workers w ≠ .asleep
  | .resume w t i =>
      s.workers w = .submitting t i ∧ (s.submits i = .returned true ∨ s.submits i = .returned false)
  | .acquire w => s.workers w = .locking ∧ s.owner = none
  | .doze w => s.workers w = .testing ∧ s.stopping = false ∧ s.q = []
  | .sleep w => s.workers w = .dozing
  | .spurious w => s.workers w = .asleep
  | .proceed w => s.workers w = .testing ∧ (s.stopping = true ∨ s.q ≠ [])
  | .exit w => s.workers w = .ready ∧ s.q = [] ∧ s.stopping = true
  | .retry w => s.workers w = .ready ∧ s.q = [] ∧ s.stopping = false
  | .take w t => s.workers w = .ready ∧ s.q.head? = some t
  | .finish w t => s.workers w = .running t
  | .store => s.shutdown = .idle
  | .notifyAll => s.shutdown = .stored
  | .join => s.shutdown = .notified ∧ ∀ w, s.workers w = .exited

def Worker.wake : Worker → Worker
  | .asleep => .locking
  | p => p

def next (s : ThreadPool n) : Move n → ThreadPool n
  | .enter i => s.submit i .entered
  | .enterFrom w t i => (s.submit i .entered).work w (.submitting t i)
  | .refuse i => s.submit i (.returned false)
  | .pass i => s.submit i .locking
  | .lock i => { s.submit i .locked with owner := some (.submit i) }
  | .reject i => { s.submit i (.returned false) with owner := none }
  | .clear i => s.submit i .cleared
  | .push i => { s.submit i .pushed with owner := none, q := s.q ++ [i], queued := s.queued ++ [i] }
  | .notifyOne i w => (s.submit i (.returned true)).work w .locking
  | .notifyNone i => s.submit i (.returned true)
  | .resume w t _ => s.work w (.running t)
  | .acquire w => { s.work w .testing with owner := some (.worker w) }
  | .doze w => s.work w .dozing
  | .sleep w => { s.work w .asleep with owner := none }
  | .spurious w => s.work w .locking
  | .proceed w => s.work w .ready
  | .exit w => { s.work w .exited with owner := none }
  | .retry w => { s.work w .locking with owner := none }
  | .take w t =>
      { s.work w (.running t) with owner := none, q := s.q.tail, taken := s.taken ++ [t] }
  | .finish w t => { s.work w .locking with ran := s.ran ++ [t] }
  | .store => { s with stopping := true, shutdown := .stored }
  | .notifyAll => { s with workers := fun w => (s.workers w).wake, shutdown := .notified }
  | .join => { s with shutdown := .joined }

def machine (n : Nat) : Machine (ThreadPool n) (Move n) := ⟨can, next⟩

section Wake

variable (p : Worker)

@[simp, grind =] theorem Worker.wake_holds : p.wake.holds = p.holds := by cases p <;> rfl

@[simp, grind =] theorem Worker.wake_job : p.wake.job = p.job := by cases p <;> rfl

@[simp, grind =] theorem Worker.wake_eq_exited : p.wake = .exited ↔ p = .exited := by
  cases p <;> simp [wake]

end Wake

section Invariants

variable {s : ThreadPool n} {m : Move n}

structure Locked (s : ThreadPool n) : Prop where
  submit : ∀ i, (s.submits i).holds = true → s.owner = some (.submit i)
  worker : ∀ w, (s.workers w).holds = true → s.owner = some (.worker w)

theorem Locked.move (h : Locked s) (hm : s.can m = true) : Locked (s.next m) := by
  obtain ⟨hsubmit, hworker⟩ := h
  constructor
  · intro i hi
    cases m <;>
    simp only [can, next, ThreadPool.submit, work, decide_eq_true_eq, Function.update_apply]
      at hm hi ⊢ <;>
    grind
  · intro w hw
    cases m <;>
    simp only [can, next, ThreadPool.submit, work, decide_eq_true_eq, Function.update_apply]
      at hm hw ⊢ <;>
    grind

theorem Locked.not_cleared (h : Locked s) {w : Fin n} (hw : s.workers w = .ready) (i : Nat) :
    s.submits i ≠ .cleared := by
  intro hi
  have hworker := h.worker w (by rw [hw]; rfl)
  rw [h.submit i (by rw [hi]; rfl)] at hworker
  cases hworker

structure Queued (s : ThreadPool n) : Prop where
  split : s.queued = s.taken ++ s.q
  once : s.queued.Nodup
  pushed : ∀ i, i ∈ s.queued ↔ (s.submits i).queued = true

theorem Queued.move (h : Queued s) (hm : s.can m = true) : Queued (s.next m) := by
  obtain ⟨hsplit, honce, hpushed⟩ := h
  cases m with
  | push i =>
    have hi : s.submits i = .cleared := of_decide_eq_true hm
    have hnew : i ∉ s.queued := by simp [hpushed, hi, Submit.queued]
    refine ⟨?_, ?_, fun j => ?_⟩
    · change s.queued ++ [i] = s.taken ++ (s.q ++ [i])
      rw [hsplit, List.append_assoc]
    · exact List.nodup_append'.mpr ⟨honce, List.nodup_singleton i, by simpa using hnew⟩
    · change j ∈ s.queued ++ [i] ↔ (Function.update s.submits i .pushed j).queued = true
      by_cases hj : j = i
      · subst hj
        simp [Submit.queued]
      · simp [hj, hpushed]
  | take w t =>
    obtain ⟨-, ht⟩ := of_decide_eq_true hm
    refine ⟨?_, honce, hpushed⟩
    change s.queued = (s.taken ++ [t]) ++ s.q.tail
    rw [hsplit, List.append_assoc, List.singleton_append, List.cons_head?_tail ht]
  | _ =>
    refine ⟨hsplit, honce, fun i => ?_⟩
    simp only [can, next, ThreadPool.submit, work, decide_eq_true_eq, Function.update_apply] at hm ⊢
    grind

def Ending (s : ThreadPool n) : Prop :=
  ∀ w, s.workers w = .exited → s.stopping = true ∧ ∀ i, s.submits i ≠ .cleared

theorem Ending.move (hl : Locked s) (h : Ending s) (hm : s.can m = true) : Ending (s.next m) := by
  intro w hw
  cases m with
  | exit v =>
    obtain ⟨hready, -, hstop⟩ := of_decide_eq_true hm
    exact ⟨hstop, hl.not_cleared hready⟩
  | _ =>
    have hw' := h w
    simp only [can, next, ThreadPool.submit, work, decide_eq_true_eq, Function.update_apply]
      at hm hw ⊢
    grind

def Drained (s : ThreadPool n) : Prop := (∀ w, s.workers w = .exited) → s.q = []

theorem Drained.move (hn : 0 < n) (he : Ending s) (h : Drained s) (hm : s.can m = true) :
    Drained (s.next m) := by
  intro hall
  have hw := hall ⟨0, hn⟩
  cases m with
  | exit w => exact (of_decide_eq_true hm).2.1
  | push i => exact absurd (of_decide_eq_true hm) ((he _ hw).2 i)
  | take w t =>
    have hw := hall w
    simp [next, work] at hw
  | _ =>
    apply h
    intro w
    have hw := hall w
    simp only [can, next, ThreadPool.submit, work, decide_eq_true_eq, Function.update_apply]
      at hm hw ⊢
    grind

def Handled (s : ThreadPool n) : Prop := ∀ t ∈ s.taken, t ∈ s.ran ∨ ∃ w, (s.workers w).job = some t

theorem Handled.move (h : Handled s) (hm : s.can m = true) : Handled (s.next m) := by
  intro t ht
  cases m with
  | take w t' =>
    obtain ⟨hready, -⟩ := of_decide_eq_true hm
    rcases List.mem_append.mp ht with ht | ht
    · rcases h t ht with hran | ⟨v, hv⟩
      · exact .inl hran
      · have hne : v ≠ w := by
          rintro rfl
          simp [hready, Worker.job] at hv
        exact .inr ⟨v, by simpa [next, work, hne] using hv⟩
    · refine .inr ⟨w, ?_⟩
      simp [next, work, Worker.job, List.mem_singleton.mp ht]
  | finish w t' =>
    have hrunning : s.workers w = .running t' := of_decide_eq_true hm
    rcases h t ht with hran | ⟨v, hv⟩
    · exact .inl (List.mem_append_left _ hran)
    · by_cases hvw : v = w
      · subst hvw
        rw [hrunning] at hv
        cases hv
        exact .inl (List.mem_append_right _ (List.mem_singleton.mpr rfl))
      · exact .inr ⟨v, by simpa [next, work, hvw] using hv⟩
  | _ =>
    rcases h t ht with hran | ⟨v, hv⟩
    · exact .inl hran
    · refine .inr ⟨v, ?_⟩
      simp only [can, next, ThreadPool.submit, work, decide_eq_true_eq, Function.update_apply]
        at hm ⊢
      grind

structure Once (s : ThreadPool n) : Prop where
  running : ∀ w t, (s.workers w).job = some t → t ∈ s.taken ∧ t ∉ s.ran
  single : ∀ w v t, (s.workers w).job = some t → (s.workers v).job = some t → w = v
  ran : s.ran ⊆ s.taken
  nodup : s.ran.Nodup

theorem Queued.fresh (h : Queued s) {t : Nat} (ht : s.q.head? = some t) : t ∉ s.taken := by
  have honce := h.once
  rw [h.split, List.nodup_append'] at honce
  exact fun hin => honce.2.2 hin (List.mem_of_head? ht)

theorem Once.move (hq : Queued s) (h : Once s) (hm : s.can m = true) : Once (s.next m) := by
  obtain ⟨hrunning, hsingle, hran, hnodup⟩ := h
  cases m with
  | take w t =>
    obtain ⟨hready, ht⟩ := of_decide_eq_true hm
    have hfresh := hq.fresh ht
    have hjob {v : Fin n} {t' : Nat}
      (hv : (Function.update s.workers w (.running t) v).job = some t') :
        (v = w ∧ t' = t) ∨ (s.workers v).job = some t' := by
      by_cases hvw : v = w
      · subst hvw
        rw [Function.update_self] at hv
        exact .inl ⟨rfl, (Option.some.inj hv).symm⟩
      · rw [Function.update_of_ne hvw] at hv
        exact .inr hv
    refine ⟨fun v t' hv => ?_, fun v v' t' hv hv' => ?_, fun t' ht' => ?_, hnodup⟩
    · rcases hjob hv with ⟨-, rfl⟩ | hv
      · exact ⟨List.mem_append_right _ (List.mem_singleton.mpr rfl), fun hin => hfresh (hran hin)⟩
      · exact ⟨List.mem_append_left _ (hrunning v t' hv).1, (hrunning v t' hv).2⟩
    · rcases hjob hv with ⟨hvw, heq⟩ | hold <;> rcases hjob hv' with ⟨hvw', heq'⟩ | hold'
      · rw [hvw, hvw']
      · exact absurd (heq ▸ (hrunning v' t' hold').1) hfresh
      · exact absurd (heq' ▸ (hrunning v t' hold).1) hfresh
      · exact hsingle v v' t' hold hold'
    · exact List.mem_append_left _ (hran ht')
  | finish w t =>
    have hw : (s.workers w).job = some t := by
      rw [show s.workers w = .running t from of_decide_eq_true hm]
      rfl
    have hjob {v : Fin n} {t' : Nat} (hv : (Function.update s.workers w .locking v).job = some t') :
        v ≠ w ∧ (s.workers v).job = some t' := by
      have hvw : v ≠ w := by
        rintro rfl
        simp [Worker.job] at hv
      rw [Function.update_of_ne hvw] at hv
      exact ⟨hvw, hv⟩
    refine ⟨fun v t' hv => ?_, fun v v' t' hv hv' => hsingle v v' t' (hjob hv).2 (hjob hv').2,
      fun t' ht' => ?_, ?_⟩
    · obtain ⟨hne, hv⟩ := hjob hv
      refine ⟨(hrunning v t' hv).1, fun hin => ?_⟩
      rcases List.mem_append.mp hin with hin | hin
      · exact (hrunning v t' hv).2 hin
      · exact hne (hsingle v w t (List.mem_singleton.mp hin ▸ hv) hw)
    · rcases List.mem_append.mp ht' with ht' | ht'
      · exact hran ht'
      · exact List.mem_singleton.mp ht' ▸ (hrunning w t hw).1
    · exact List.nodup_append'.mpr ⟨hnodup, List.nodup_singleton t,
        by simpa using (hrunning w t hw).2⟩
  | _ =>
    refine ⟨fun v t hv => hrunning v t ?_, fun v v' t hv hv' => hsingle v v' t ?_ ?_,
      hran, hnodup⟩ <;>
    simp only [can, next, ThreadPool.submit, work, decide_eq_true_eq, Function.update_apply]
      at * <;>
    grind

end Invariants

section Runs

variable {ok : ThreadPool n → Move n → Prop} {s : ThreadPool n}

structure Sound (s : ThreadPool n) : Prop where
  locked : Locked s
  queued : Queued s
  ending : Ending s
  drained : Drained s
  handled : Handled s
  once : Once s

theorem sound_start : Sound (start n) where
  locked := by constructor <;> simp [start, Submit.holds, Worker.holds]
  queued := ⟨rfl, List.nodup_nil, by simp [start, Submit.queued]⟩
  ending := by simp [Ending, start]
  drained _ := rfl
  handled := by simp [Handled, start]
  once := by constructor <;> simp [start, Worker.job]

theorem Sound.move (hn : 0 < n) {m : Move n} (h : Sound s) (hm : s.can m = true) :
    Sound (s.next m) where
  locked := h.locked.move hm
  queued := h.queued.move hm
  ending := h.ending.move h.locked hm
  drained := h.drained.move hn h.ending hm
  handled := h.handled.move hm
  once := h.once.move h.queued hm

theorem sound_reach (hn : 0 < n) (h : (machine n).Reach ok (start n) s) : Sound s :=
  h.invariant Sound sound_start fun _ _ hs hm _ => hs.move hn hm

theorem accepted_run_once (hn : 0 < n) (h : (machine n).Reach (fun _ _ => True) (start n) s) :
    s.taken <+: s.queued ∧ s.taken.Nodup ∧ s.ran.Nodup ∧
      (∀ i, s.submits i = .returned false → i ∉ s.taken ∧ i ∉ s.ran) ∧
      ((∀ w, s.workers w = .exited) → s.q = [] ∧ ∀ i, s.submits i = .returned true →
        i ∈ s.ran) := by
  have hs := sound_reach hn h
  have hinit : s.taken <+: s.queued := ⟨s.q, hs.queued.split.symm⟩
  refine ⟨hinit, hs.queued.once.sublist hinit.sublist, hs.once.nodup, ?_, ?_⟩
  · intro i hi
    have hnot : i ∉ s.taken := by
      intro hmem
      have hpushed := (hs.queued.pushed i).mp (hinit.subset hmem)
      simp [hi, Submit.queued] at hpushed
    exact ⟨hnot, fun hran => hnot (hs.once.ran hran)⟩
  · intro hall
    have hempty := hs.drained hall
    refine ⟨hempty, fun i hi => ?_⟩
    have hmem : i ∈ s.taken := by
      have hpushed := (hs.queued.pushed i).mpr (by rw [hi]; rfl)
      rwa [hs.queued.split, hempty, List.append_nil] at hpushed
    rcases hs.handled i hmem with hran | ⟨w, hw⟩
    · exact hran
    · simp [hall w, Worker.job] at hw

def lateTask : List (Move 2) :=
  [.enter 0, .pass 0, .lock 0, .clear 0, .push 0, .notifyNone 0, .acquire 1, .proceed 1, .take 1 0,
    .enterFrom 1 0 1, .pass 1, .acquire 0, .doze 0, .sleep 0, .lock 1, .clear 1, .push 1,
      .enter 2, .store,
    .refuse 2, .notifyOne 1 0, .notifyAll, .resume 1 0 1, .finish 1 0, .acquire 0,
      .proceed 0, .take 0 1,
    .acquire 1, .proceed 1, .exit 1, .finish 0 1, .acquire 0, .proceed 0, .exit 0, .join]

theorem accepted_run_once_lateTask :
    ∃ s : ThreadPool 2, (machine 2).Reach (fun _ _ => True) (start 2) s ∧
      s.submits 2 = .returned false ∧
      2 ∉ s.taken ∧ 2 ∉ s.ran ∧ s.submits 1 = .returned true ∧ 1 ∈ s.ran := by
  have hruns : (machine 2).Runs (fun _ _ => True) (start 2) lateTask := by decide
  have hplaces : (((machine 2).run (start 2) lateTask).submits 2,
      ((machine 2).run (start 2) lateTask).submits 1,
        ((machine 2).run (start 2) lateTask).workers 0,
          ((machine 2).run (start 2) lateTask).workers 1) =
        (.returned false, .returned true, .exited, .exited) := by decide
  simp only [Prod.mk.injEq] at hplaces
  obtain ⟨hlate, hsecond, hw₀, hw₁⟩ := hplaces
  have hreach := Machine.Reach.start.runs hruns
  obtain ⟨-, -, -, hrefused, hall⟩ := accepted_run_once (by decide) hreach
  refine ⟨_, hreach, hlate, (hrefused 2 hlate).1, (hrefused 2 hlate).2, hsecond,
    (hall ?_).2 1 hsecond⟩
  exact Fin.forall_fin_two.mpr ⟨hw₀, hw₁⟩

end Runs

section Hanging

def Move.prompted : Move n → Bool
  | .spurious _ => false
  | _ => true

def Shutdown.hasNotified : Shutdown → Bool
  | .notified | .joined => true
  | _ => false

/-- After `notify_all` a worker is in the wait set, and whatever happens it stays there. -/
def Hung (s : ThreadPool n) : Prop :=
  s.stopping = true ∧ s.shutdown.hasNotified = true ∧
    ∃ w, s.workers w = .asleep ∧
      ∀ s', (machine n).Reach (fun _ m => m.prompted = true) s s' → s'.workers w = .asleep

/-- `notify_all` is not executed while a worker is between its predicate and its sleep. -/
def wellTimed (s : ThreadPool n) (m : Move n) : Bool :=
  m.prompted && (m = .notifyAll → ∀ w, s.workers w ≠ .dozing)

variable {s : ThreadPool n} {m : Move n}

structure Alert (s : ThreadPool n) : Prop where
  stored : s.shutdown ≠ .idle → s.stopping = true
  notified : s.shutdown.hasNotified = true → ∀ w, s.workers w ≠ .dozing ∧ s.workers w ≠ .asleep

theorem Alert.move (h : Alert s) (hm : s.can m = true) (ht : wellTimed s m = true) :
    Alert (s.next m) := by
  obtain ⟨hstored, hnotified⟩ := h
  constructor
  · cases m with
    | notifyAll => exact fun _ => hstored (by simp [of_decide_eq_true hm])
    | join => exact fun _ => hstored (by simp [(of_decide_eq_true hm).1])
    | store => exact fun _ => rfl
    | _ => exact hstored
  · intro hn w
    cases m with
    | doze v =>
      -- the flag is not set yet
      obtain ⟨-, hflag, -⟩ := of_decide_eq_true hm
      have hidle : s.shutdown ≠ .idle := by
        rintro hidle
        simp [next, work, hidle, Shutdown.hasNotified] at hn
      simp [hstored hidle] at hflag
    | notifyAll =>
      have hdoze : ∀ w, s.workers w ≠ .dozing := by simpa [wellTimed, Move.prompted] using ht
      have hw := hdoze w
      change (s.workers w).wake ≠ .dozing ∧ (s.workers w).wake ≠ .asleep
      cases hp : s.workers w <;> simp_all [Worker.wake]
    | store => cases hn
    | join =>
      obtain ⟨-, hall⟩ := of_decide_eq_true hm
      simp [next, hall w]
    | _ =>
      have hw := hnotified hn w
      simp only [can, next, ThreadPool.submit, work, decide_eq_true_eq, Function.update_apply]
        at hm hn ⊢
      grind

theorem alert_start : Alert (start n) where
  stored h := absurd rfl h
  notified h := by cases h

theorem shutdown_never_hangs (h : (machine n).Reach (fun s m => wellTimed s m = true) (start n) s) :
    ¬Hung s := by
  have halert := h.invariant Alert alert_start fun _ _ hs hm ht => hs.move hm ht
  rintro ⟨-, hnotified, w, hw, -⟩
  exact (halert.notified hnotified w).2 hw

theorem shutdown_never_hangs_lateTask :
    (∃ s : ThreadPool 2, (machine 2).Reach (fun s m => wellTimed s m = true) (start 2) s ∧
      s.shutdown.hasNotified = true ∧ ¬Hung s) := by
  have hruns : (machine 2).Runs (fun s m => wellTimed s m = true) (start 2) lateTask := by decide
  have hnotified : ((machine 2).run (start 2) lateTask).shutdown.hasNotified = true := by decide
  have hreach := Machine.Reach.start.runs hruns
  exact ⟨_, hreach, hnotified, shutdown_never_hangs hreach⟩

structure Lost (s : ThreadPool n) (w : Fin n) : Prop where
  stopping : s.stopping = true
  notified : s.shutdown.hasNotified = true
  asleep : s.workers w = .asleep
  silent : ∀ i, s.submits i ≠ .cleared ∧ s.submits i ≠ .pushed

theorem Lost.move {w : Fin n} (h : Lost s w) (hm : s.can m = true) (hp : m.prompted = true) :
    Lost (s.next m) w := by
  obtain ⟨hstop, hnotified, hw, hsilent⟩ := h
  cases m with
  | spurious v => cases hp
  | store => simp [of_decide_eq_true hm, Shutdown.hasNotified] at hnotified
  | notifyAll => simp [of_decide_eq_true hm, Shutdown.hasNotified] at hnotified
  | join =>
    obtain ⟨-, hall⟩ := of_decide_eq_true hm
    simp [hall w] at hw
  | push i => exact absurd (of_decide_eq_true hm) (hsilent i).1
  | notifyOne i v => exact absurd (of_decide_eq_true hm).1 (hsilent i).2
  | clear i =>
    obtain ⟨-, hflag⟩ := of_decide_eq_true hm
    simp [hstop] at hflag
  | _ =>
    refine ⟨hstop, hnotified, ?_, fun i => ?_⟩
    · simp only [can, next, ThreadPool.submit, work, decide_eq_true_eq, Function.update_apply]
        at hm ⊢
      grind
    · have hi := hsilent i
      simp only [can, next, ThreadPool.submit, work, decide_eq_true_eq, Function.update_apply]
        at hm ⊢
      grind

theorem Lost.hung {w : Fin n} (h : Lost s w) : Hung s := by
  refine ⟨h.stopping, h.notified, w, h.asleep, fun s' hs' => ?_⟩
  exact (hs'.invariant (Lost · w) h fun _ _ hl hm hp => hl.move hm hp).asleep

theorem shutdown_hangs :
    ∃ s : ThreadPool 1, (machine 1).Reach (fun _ m => m.prompted = true) (start 1) s ∧ Hung s := by
  -- The flag is set and `notify_all` is executed while the worker is about to sleep.
  have hruns : (machine 1).Runs (fun _ m => m.prompted = true) (start 1)
      [.acquire 0, .doze 0, .store, .notifyAll, .sleep 0] := by decide
  refine ⟨_, Machine.Reach.start.runs hruns, Lost.hung (w := 0) ⟨rfl, rfl, rfl, fun i => ?_⟩⟩
  exact ⟨by simp [Machine.run, machine, next, work, start],
    by simp [Machine.run, machine, next, work, start]⟩

end Hanging

end ThreadPool

end ChatServer
