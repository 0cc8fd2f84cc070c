import ChatServer.Lib.Contract

/-! Interleaving of programs over shared state.  Tasks are numbered and each runs
one job; a move either hands a job to a fresh task or lets one task execute the
next operation of its program.  The history keeps every executed operation with
the task it belongs to and the state it was executed in. -/

namespace ChatServer.Lib

variable {Op : Type} {Ret : Op → Type} {Job σ τ : Type}

structure Event (Job Op σ : Type) where
  task : Nat
  job : Job
  op : Op
  before : σ

structure History (Job Op σ : Type) where
  state : σ
  log : List (Event Job Op σ)

/-- Every entry of the log meets `P` together with the log before it. -/
def Throughout {α : Type} (P : List α → α → Prop) (log : List α) : Prop :=
  ∀ pre e post, log = pre ++ e :: post → P pre e

theorem throughout_nil {α : Type} (P : List α → α → Prop) : Throughout P [] := by
  intro pre e post h
  cases pre <;> cases h

theorem Throughout.concat {α : Type} {P : List α → α → Prop} {log : List α} {e : α}
    (h : Throughout P log) (he : P log e) : Throughout P (log ++ [e]) := by
  intro pre e' post heq
  rcases List.eq_nil_or_concat post with rfl | ⟨post, x, rfl⟩
  · obtain ⟨rfl, htail⟩ := List.append_inj' heq rfl
    cases htail
    exact he
  · rw [List.concat_eq_append, ← List.cons_append, ← List.append_assoc] at heq
    obtain ⟨hlog, -⟩ := List.append_inj' heq rfl
    exact h pre e' post hlog

namespace History

section Serve

variable (exec : (o : Op) → σ → Ret o × σ) (body : Job → Prog Ret Unit)

def record (i : Nat) (j : Job) (o : Op) (h : History Job Op σ) : Ret o × History Job Op σ :=
  ((exec o h.state).1, ⟨(exec o h.state).2, h.log ++ [⟨i, j, o, h.state⟩]⟩)

@[simp] theorem record_fst (i : Nat) (j : Job) (o : Op) (h : History Job Op σ) :
    (h.record exec i j o).1 = (exec o h.state).1 := rfl

@[simp] theorem record_state (i : Nat) (j : Job) (o : Op) (h : History Job Op σ) :
    (h.record exec i j o).2.state = (exec o h.state).2 := rfl

@[simp] theorem record_log (i : Nat) (j : Job) (o : Op) (h : History Job Op σ) :
    (h.record exec i j o).2.log = h.log ++ [⟨i, j, o, h.state⟩] := rfl

def run {α : Type} (i : Nat) (j : Job) (x : Prog Ret α) (h : History Job Op σ) :
    Option α × History Job Op σ :=
  x.run (fun o h => h.record exec i j o) h

theorem run_state {α : Type} (i : Nat) (j : Job) (x : Prog Ret α) (h : History Job Op σ) :
    (h.run exec i j x).1 = (x.run exec h.state).1 ∧
      (h.run exec i j x).2.state = (x.run exec h.state).2 := by
  induction x generalizing h with
  | ret a => exact ⟨rfl, rfl⟩
  | throw => exact ⟨rfl, rfl⟩
  | op o k ih => exact ih _ _

def events {α : Type} (i : Nat) (j : Job) : Prog Ret α → σ → List (Event Job Op σ)
  | .ret _, _ => []
  | .throw, _ => []
  | .op o k, s => ⟨i, j, o, s⟩ :: events i j (k (exec o s).1) (exec o s).2

theorem run_log {α : Type} (i : Nat) (j : Job) (x : Prog Ret α) (h : History Job Op σ) :
    (h.run exec i j x).2.log = h.log ++ events exec i j x h.state := by
  induction x generalizing h with
  | ret a => exact (List.append_nil _).symm
  | throw => exact (List.append_nil _).symm
  | op o k ih => exact (ih _ _).trans (List.append_assoc ..)

theorem log_subset_run {α : Type} (i : Nat) (j : Job) (x : Prog Ret α) (h : History Job Op σ) :
    h.log ⊆ (h.run exec i j x).2.log := by
  rw [run_log]
  exact List.subset_append_left ..

theorem map_op_events {α : Type} (i : Nat) (j : Job) (x : Prog Ret α) (s : σ) :
    (events exec i j x s).map Event.op = x.trace exec s := by
  induction x generalizing s with
  | ret a => rfl
  | throw => rfl
  | op o k ih => exact congrArg (o :: ·) (ih _ _)

def serve (i : Nat) (h : History Job Op σ) (j : Job) : History Job Op σ :=
  (h.run exec i j (body j)).2

def serveAll (i : Nat) (h : History Job Op σ) : List Job → History Job Op σ
  | [] => h
  | j :: js => serveAll (i + 1) (h.serve exec body i j) js

theorem serve_state (i : Nat) (h : History Job Op σ) (j : Job) :
    (h.serve exec body i j).state = ((body j).run exec h.state).2 :=
  (h.run_state exec i j (body j)).2

theorem serveAll_append (i : Nat) (h : History Job Op σ) (js js' : List Job) :
    h.serveAll exec body i (js ++ js') =
      (h.serveAll exec body i js).serveAll exec body (i + js.length) js' := by
  induction js generalizing i h with
  | nil => rfl
  | cons j js ih =>
    simp only [List.cons_append, serveAll, ih, List.length_cons]
    congr 1
    omega

theorem serveAll_invariant {I : History Job Op σ → Prop}
    (hserve : ∀ i h j, I h → I (h.serve exec body i j)) (i : Nat) {h : History Job Op σ} (hI : I h)
    (js : List Job) : I (h.serveAll exec body i js) := by
  induction js generalizing i h with
  | nil => exact hI
  | cons j js ih => exact ih (i + 1) (hserve i h j hI)

abbrev alone (i : Nat) (j : Job) : Contract Ret (History Job Op σ) :=
  .actual (fun o h => h.record exec i j o) fun _ _ => True

theorem serveAll_alone {I : History Job Op σ → Prop}
    (hbody : ∀ i j, Prog.Keeps (alone exec i j) I (body j))
    {h : History Job Op σ} (hI : I h) (js : List Job) : I (h.serveAll exec body 0 js) :=
  serveAll_invariant exec body (fun i _ j hI => (hbody i j).run_actual hI) 0 hI js

end Serve

end History

inductive Task (Job : Type) {Op : Type} (Ret : Op → Type) : Type
  | fresh : Task Job Ret
  | busy : Job → Prog Ret Unit → Task Job Ret

structure Config (Job : Type) {Op : Type} (Ret : Op → Type) (σ : Type) where
  hist : History Job Op σ
  tasks : Nat → Task Job Ret

inductive Move (Job : Type) : Type
  | start : Nat → Job → Move Job
  | advance : Nat → Move Job

def Move.below (n : Nat) : Move Job → Bool
  | .start i _ => i < n
  | .advance _ => true

def Task.finished : Task Job Ret → Bool
  | .fresh => true
  | .busy _ x => x.finished

def Task.started : Task Job Ret → Bool
  | .fresh => false
  | .busy _ _ => true

namespace Config

def idle (s : σ) : Config Job Ret σ := ⟨⟨s, []⟩, fun _ => .fresh⟩

def quiet (g : Config Job Ret σ) : Prop := ∀ i, (g.tasks i).finished = true

def nextOp (g : Config Job Ret σ) (i : Nat) : Option Op :=
  match g.tasks i with
  | .fresh => none
  | .busy _ x => x.nextOp

theorem nextOp_eq {g : Config Job Ret σ} {i : Nat} {j : Job} {o : Op} {k : Ret o → Prog Ret Unit}
    (h : g.tasks i = .busy j (.op o k)) : g.nextOp i = some o := by
  simp [nextOp, h]

section Step

variable (exec : (o : Op) → σ → Ret o × σ) (body : Job → Prog Ret Unit)

def perform (g : Config Job Ret σ) (i : Nat) (j : Job) (o : Op) (k : Ret o → Prog Ret Unit) :
    Config Job Ret σ :=
  ⟨(g.hist.record exec i j o).2,
    Function.update g.tasks i (.busy j (k (exec o g.hist.state).1))⟩

def step (g : Config Job Ret σ) : Move Job → Option (Config Job Ret σ)
  | .start i j =>
    match g.tasks i with
    | .fresh => some { g with tasks := Function.update g.tasks i (.busy j (body j)) }
    | .busy _ _ => none
  | .advance i =>
    match g.tasks i with
    | .busy j (.op o k) => some (g.perform exec i j o k)
    | _ => none

def steps (check : Config Job Ret σ → Move Job → Bool) (g : Config Job Ret σ) :
    List (Move Job) → Option (Config Job Ret σ)
  | [] => some g
  | m :: ms =>
    if check g m then (g.step exec body m).bind (fun g' => g'.steps check ms) else none

/-- Configurations reached by moves that all meet the condition `ok` in the
configuration they are made in. -/
inductive Reach (ok : Config Job Ret σ → Move Job → Prop) (g₀ : Config Job Ret σ) :
    Config Job Ret σ → Prop
  | init : Reach ok g₀ g₀
  | move {g g' m} : Reach ok g₀ g → ok g m → g.step exec body m = some g' → Reach ok g₀ g'

variable {exec body} {ok : Config Job Ret σ → Move Job → Prop} {g₀ g g' : Config Job Ret σ}

theorem nextOp_perform_self (g : Config Job Ret σ) (i : Nat) (j : Job) (o : Op)
    (k : Ret o → Prog Ret Unit) :
    (g.perform exec i j o k).nextOp i = (k (exec o g.hist.state).1).nextOp := by
  simp [nextOp, perform]

theorem tasks_perform_ne (g : Config Job Ret σ) {i n : Nat} (h : n ≠ i) (j : Job) (o : Op)
    (k : Ret o → Prog Ret Unit) : (g.perform exec i j o k).tasks n = g.tasks n :=
  Function.update_of_ne h ..

theorem nextOp_perform_ne (g : Config Job Ret σ) {i n : Nat} (h : n ≠ i) (j : Job) (o : Op)
    (k : Ret o → Prog Ret Unit) : (g.perform exec i j o k).nextOp n = g.nextOp n := by
  rw [nextOp, tasks_perform_ne g h, nextOp]

theorem nextOp_start {i n : Nat} {t : Task Job Ret} {o : Op} (hi : g.tasks i = .fresh)
    (h : g.nextOp n = some o) :
    nextOp { g with tasks := Function.update g.tasks i t } n = some o := by
  have hni : n ≠ i := by
    rintro rfl
    simp [nextOp, hi] at h
  simpa [nextOp, Function.update_of_ne hni] using h

theorem forall_busy_update {Q : Nat → Job → τ → Prop} {tasks : Nat → Task Job Ret} {ts : Nat → τ}
    {i : Nat} {j : Job} {x : Prog Ret Unit} {t : τ} (hi : Q i j t)
    (hothers : ∀ n j' x', n ≠ i → tasks n = .busy j' x' → Q n j' (ts n)) (n : Nat) (j' : Job)
    (x' : Prog Ret Unit) (hn : Function.update tasks i (.busy j x) n = .busy j' x') :
    Q n j' (Function.update ts i t n) := by
  by_cases hni : n = i
  · subst hni
    rw [Function.update_self] at hn ⊢
    cases hn
    exact hi
  · rw [Function.update_of_ne hni] at hn ⊢
    exact hothers n j' x' hni hn

theorem step_cases {m : Move Job} (h : g.step exec body m = some g') :
    (∃ i j, m = .start i j ∧ g.tasks i = .fresh ∧
      g' = { g with tasks := Function.update g.tasks i (.busy j (body j)) }) ∨
    (∃ i j o k, m = .advance i ∧ g.tasks i = .busy j (.op o k) ∧ g' = g.perform exec i j o k) := by
  cases m with
  | start i j =>
    simp only [step] at h
    split at h
    · rename_i hf
      cases h
      exact .inl ⟨i, j, rfl, hf, rfl⟩
    · cases h
  | advance i =>
    simp only [step] at h
    split at h
    · rename_i j o k hp
      cases h
      exact .inr ⟨i, j, o, k, rfl, hp, rfl⟩
    · cases h

theorem Reach.trans_steps {check : Config Job Ret σ → Move Job → Bool}
    (hcheck : ∀ g m, check g m = true → ok g m) {ms : List (Move Job)}
    (h : Reach exec body ok g₀ g) (hs : g.steps exec body check ms = some g') :
    Reach exec body ok g₀ g' := by
  induction ms generalizing g with
  | nil =>
    cases hs
    exact h
  | cons m ms ih =>
    simp only [steps] at hs
    split at hs
    · rename_i hc
      obtain ⟨g₁, h₁, h₂⟩ := Option.bind_eq_some_iff.mp hs
      exact ih (.move h (hcheck g m hc) h₁) h₂
    · cases hs

theorem step_fresh {m : Move Job} (h : g.step exec body m = some g') {i : Nat}
    (hm : ∀ j, m ≠ .start i j) (hi : g.tasks i = .fresh) : g'.tasks i = .fresh := by
  obtain ⟨n, j, rfl, -, rfl⟩ | ⟨n, j, o, k, rfl, hn, rfl⟩ := step_cases h
  · have hne : i ≠ n := by
      rintro rfl
      exact hm j rfl
    simpa [Function.update_of_ne hne] using hi
  · have hne : i ≠ n := by
      rintro rfl
      rw [hi] at hn
      cases hn
    simpa [perform, Function.update_of_ne hne] using hi

theorem steps_fresh {check : Config Job Ret σ → Move Job → Bool} {ms : List (Move Job)}
    (hs : g.steps exec body check ms = some g') {i : Nat} (hms : ∀ j, .start i j ∉ ms)
    (hi : g.tasks i = .fresh) : g'.tasks i = .fresh := by
  induction ms generalizing g with
  | nil =>
    cases hs
    exact hi
  | cons m ms ih =>
    simp only [steps] at hs
    split at hs
    · obtain ⟨g₁, h₁, h₂⟩ := Option.bind_eq_some_iff.mp hs
      refine ih h₂ (fun j hj => hms j (List.mem_cons_of_mem m hj)) (step_fresh h₁ ?_ hi)
      rintro j rfl
      exact hms j (List.mem_cons_self ..)
    · cases hs

theorem quiet_of_steps {check : Config Job Ret σ → Move Job → Bool} {ms : List (Move Job)} {s : σ}
    (hs : (idle s).steps exec body check ms = some g) (n : Nat) (hms : ms.all (Move.below n) = true)
    (hfin : (List.range n).all (fun i => (g.tasks i).finished) = true) : g.quiet := by
  intro i
  by_cases hi : i < n
  · exact List.all_eq_true.mp hfin i (List.mem_range.mpr hi)
  · rw [steps_fresh hs (fun j hj => hi ?_) rfl]
    · rfl
    · simpa [Move.below] using List.all_eq_true.mp hms _ hj

section Runs

variable {α : Type} {check : Config Job Ret σ → Move Job → Bool}
    (hcheck : ∀ g m, check g m = true → ok g m)
  {ms : List (Move Job)} {f : Config Job Ret σ → α} {a : α}

include hcheck

theorem Reach.of_steps (hrun : (g₀.steps exec body check ms).map f = some a) :
    ∃ g, Reach exec body ok g₀ g ∧ f g = a := by
  obtain ⟨g, hg, heq⟩ := Option.map_eq_some_iff.mp hrun
  exact ⟨g, .trans_steps hcheck .init hg, heq⟩

theorem Reach.quiet_of_steps {s : σ} (n : Nat) (hms : ms.all (Move.below n) = true)
    (hrun : ((idle s).steps exec body check ms).map
      (fun g => ((List.range n).all fun i => (g.tasks i).finished, f g)) = some (true, a)) :
    ∃ g, Reach exec body ok (idle s) g ∧ g.quiet ∧ f g = a := by
  obtain ⟨g, hg, heq⟩ := Option.map_eq_some_iff.mp hrun
  obtain ⟨hfin, heq⟩ := Prod.mk.inj heq
  exact ⟨g, .trans_steps hcheck .init hg, Config.quiet_of_steps hg n hms hfin, heq⟩

end Runs

section Sequential

variable {h : History Job Op σ} {tasks : Nat → Task Job Ret}

theorem Reach.run_task {i : Nat} {j : Job} {x : Prog Ret Unit}
    (hg : Reach exec body ok g₀ ⟨h, Function.update tasks i (.busy j x)⟩)
    (hok : ∀ g, ok g (.advance i)) : ∃ x', x'.finished = true ∧
      Reach exec body ok g₀ ⟨(h.run exec i j x).2, Function.update tasks i (.busy j x')⟩ := by
  induction x generalizing h with
  | ret a => exact ⟨_, rfl, hg⟩
  | throw => exact ⟨_, rfl, hg⟩
  | op o k ih =>
    apply ih (exec o h.state).1
    apply hg.move (m := .advance i) (hok _)
    simp [step, perform]

theorem Reach.to_end (g : Config Job Ret σ) (i : Nat) :
    ∃ g', Reach exec body (fun _ m => m = .advance i) g g' ∧ (g'.tasks i).finished = true := by
  cases hi : g.tasks i with
  | fresh => exact ⟨g, .init, by rw [hi]; rfl⟩
  | busy j x =>
    have hg : g = ⟨g.hist, Function.update g.tasks i (.busy j x)⟩ := by
      rw [← hi, Function.update_eq_self]
    have hinit : Reach exec body (fun _ m => m = .advance i) g ⟨g.hist,
        Function.update g.tasks i (.busy j x)⟩ := by
      rw [← hg]
      exact .init
    obtain ⟨x', hx', hreach⟩ := hinit.run_task fun _ => rfl
    exact ⟨_, hreach, by simpa [Task.finished] using hx'⟩

theorem Reach.serveAll {i : Nat} (hg : Reach exec body (fun _ _ => True) g₀ ⟨h, tasks⟩)
    (hfresh : ∀ n, i ≤ n → tasks n = .fresh) (js : List Job) :
    ∃ tasks', Reach exec body (fun _ _ => True) g₀ ⟨h.serveAll exec body i js, tasks'⟩ := by
  induction js generalizing i h tasks with
  | nil => exact ⟨tasks, hg⟩
  | cons j js ih =>
    have hstart : Reach exec body (fun _ _ => True) g₀
        ⟨h, Function.update tasks i (.busy j (body j))⟩ := by
      apply hg.move (m := .start i j) trivial
      simp [step, hfresh i (Nat.le_refl i)]
    obtain ⟨x, -, hx⟩ := hstart.run_task fun _ => trivial
    apply ih (i := i + 1) hx
    intro n hn
    rw [Function.update_of_ne (Nat.ne_of_gt hn)]
    exact hfresh n (Nat.le_of_succ_le hn)

end Sequential

variable {P : Job → Contract Ret τ} {Done : τ → Prop}

/-- Every task's remaining program follows the contract of its job from the
task's ghost state. -/
def Tracked (P : Job → Contract Ret τ) (Done : τ → Prop) (g : Config Job Ret σ)
    (ts : Nat → τ) : Prop :=
  ∀ i, match g.tasks i with
    | .fresh => Done (ts i)
    | .busy j x => x.Follows (P j) (ts i) (fun _ t => Done t) Done

theorem Tracked.done {ts : Nat → τ} (h : Tracked P Done g ts) {i : Nat}
    (hf : (g.tasks i).finished = true) : Done (ts i) := by
  have hi := h i
  cases ht : g.tasks i with
  | fresh => rw [ht] at hi; exact hi
  | busy j x =>
    rw [ht] at hi hf
    cases x with
    | ret a => exact hi
    | throw => exact hi
    | op o k => cases hf

theorem Reach.invariant (Inv : Config Job Ret σ → (Nat → τ) → Prop) (first : Job → τ)
    (ts₀ : Nat → τ) (h₀ : Tracked P Done g₀ ts₀) (hinit : Inv g₀ ts₀)
    (hbody : ∀ j, (body j).Follows (P j) (first j) (fun _ t => Done t) Done)
    (hstart : ∀ g ts i j, Tracked P Done g ts → Inv g ts → ok g (.start i j) →
      g.tasks i = .fresh →
      Inv { g with tasks := Function.update g.tasks i (.busy j (body j)) }
        (Function.update ts i (first j)))
    (hop : ∀ g ts i j o k, Tracked P Done g ts → Inv g ts → ok g (.advance i) →
      g.tasks i = .busy j (.op o k) → (P j).allows (ts i) o →
      ∃ t', (P j).next (ts i) o (exec o g.hist.state).1 t' ∧
        Inv (g.perform exec i j o k) (Function.update ts i t'))
    (h : Reach exec body ok g₀ g) : ∃ ts, Tracked P Done g ts ∧ Inv g ts := by
  induction h with
  | init => exact ⟨ts₀, h₀, hinit⟩
  | @move g g' m _ hm hs ih =>
    obtain ⟨ts, ht, hI⟩ := ih
    obtain ⟨i, j, rfl, hf, rfl⟩ | ⟨i, j, o, k, rfl, hp, rfl⟩ := step_cases hs
    · refine ⟨Function.update ts i (first j), ?_, hstart g ts i j ht hI hm hf⟩
      intro n
      by_cases hn : n = i
      · subst hn
        simpa using hbody j
      · simpa [Function.update_of_ne hn] using ht n
    · have hi := ht i
      rw [hp] at hi
      obtain ⟨t', hn', hI'⟩ := hop g ts i j o k ht hI hm hp hi.1
      refine ⟨Function.update ts i t', ?_, hI'⟩
      intro n
      by_cases hn : n = i
      · subst hn
        simpa [perform] using hi.2 _ t' hn'
      · simpa [perform, Function.update_of_ne hn] using ht n

end Step

end Config

end ChatServer.Lib
