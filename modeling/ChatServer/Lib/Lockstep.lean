import ChatServer.Lib.Interleave

/-! Two machines in lockstep.  If a second machine answers every operation as the first one
does, no program can tell them apart: every interleaving on the first is one on the second,
with the same operations of the same tasks in the same order. -/

namespace ChatServer.Lib

variable {Op : Type} {Ret : Op → Type} {Job σ σ' τ : Type}

namespace Config

def deeds (g : Config Job Ret σ) : List (Nat × Job × Op) :=
  g.hist.log.map fun e => (e.task, e.job, e.op)

/-- The same tasks have done the same on both machines, and have the same to do. -/
structure Alike (g : Config Job Ret σ) (g' : Config Job Ret σ') : Prop where
  tasks : g'.tasks = g.tasks
  deeds : g'.deeds = g.deeds

theorem Alike.idle (s : σ) (s' : σ') : Alike (.idle s : Config Job Ret σ) (.idle s') := ⟨rfl, rfl⟩

theorem Alike.start {g : Config Job Ret σ} {g' : Config Job Ret σ'} (h : g.Alike g') (i : Nat)
    (t : Task Job Ret) :
    Alike { g with tasks := Function.update g.tasks i t }
    { g' with tasks := Function.update g'.tasks i t } :=
  ⟨by rw [h.tasks], h.deeds⟩

theorem Alike.perform {exec : (o : Op) → σ → Ret o × σ} {exec' : (o : Op) → σ' → Ret o × σ'}
    {g : Config Job Ret σ} {g' : Config Job Ret σ'} (h : g.Alike g') (i : Nat) (j : Job) {o : Op}
    (k : Ret o → Prog Ret Unit) (ho : (exec' o g'.hist.state).1 = (exec o g.hist.state).1) :
    (g.perform exec i j o k).Alike (g'.perform exec' i j o k) where
  tasks := by simp only [Config.perform, h.tasks, ho]
  deeds := by
    have hdeeds := h.deeds
    simp only [Config.deeds, Config.perform, History.record, List.map_append] at hdeeds ⊢
    rw [hdeeds]
    rfl

variable {exec : (o : Op) → σ → Ret o × σ} {exec' : (o : Op) → σ' → Ret o × σ'}
    {body : Job → Prog Ret Unit}
  {ok : Config Job Ret σ → Move Job → Prop} {g : Config Job Ret σ} {P : Job → Contract Ret τ}
    {Done : τ → Prop}

theorem Reach.lockstep (Inv : Config Job Ret σ → σ' → (Nat → τ) → Prop) (first : Job → τ)
    (ts₀ : Nat → τ) {s : σ}
    {s' : σ'} (h₀ : Tracked P Done (.idle s) ts₀) (hinit : Inv (.idle s) s' ts₀)
    (hbody : ∀ j, (body j).Follows (P j) (first j) (fun _ t => Done t) Done)
    (hstart : ∀ g v ts i j, Inv g v ts → ok g (.start i j) → g.tasks i = .fresh →
      Inv { g with tasks := Function.update g.tasks i (.busy j (body j)) } v
        (Function.update ts i (first j)))
    (hop : ∀ g v ts i j o k, Inv g v ts → ok g (.advance i) → g.tasks i = .busy j (.op o k) →
      (P j).allows (ts i) o → (exec' o v).1 = (exec o g.hist.state).1 ∧
        ∃ t', (P j).next (ts i) o (exec o g.hist.state).1 t' ∧
          Inv (g.perform exec i j o k) (exec' o v).2 (Function.update ts i t'))
    (h : Reach exec body ok (.idle s) g) :
    ∃ g', Reach exec' body (fun _ _ => True) (.idle s') g' ∧ g.Alike g' ∧
    ∃ ts, Inv g g'.hist.state ts := by
  suffices hsim : ∃ ts, Tracked P Done g ts ∧
    ∃ g', Reach exec' body (fun _ _ => True) (.idle s') g' ∧ g.Alike g' ∧
      Inv g g'.hist.state ts by
    obtain ⟨ts, -, g', hreach, halike, hI⟩ := hsim
    exact ⟨g', hreach, halike, ts, hI⟩
  refine Reach.invariant (fun g ts => ∃ g', Reach exec' body (fun _ _ => True) (.idle s') g' ∧
    g.Alike g' ∧
    Inv g g'.hist.state ts) first ts₀ h₀ ⟨_, .init, .idle s s', hinit⟩ hbody ?_ ?_ h
  · rintro g ts i j - ⟨g', hreach, halike, hI⟩ hok hi
    refine ⟨_, hreach.move (m := .start i j) trivial ?_, halike.start i _,
      hstart g _ ts i j hI hok hi⟩
    simp only [step, halike.tasks, hi]
  · rintro g ts i j o k - ⟨g', hreach, halike, hI⟩ hok hi ha
    obtain ⟨hanswer, t', hnext, hI'⟩ := hop g _ ts i j o k hI hok hi ha
    refine ⟨t', hnext, _, hreach.move (m := .advance i) trivial ?_,
      halike.perform i j k hanswer, hI'⟩
    simp only [step, halike.tasks, hi]

end Config

end ChatServer.Lib
