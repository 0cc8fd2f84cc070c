import ChatServer.Lib.Prog

/-! Ghost contracts.  A contract says which operations a program may call in each
ghost state and how an answer moves the ghost state on.  Following a contract is
a property of the program text alone; what the shared state guarantees in return
is proved once for each operation. -/

namespace ChatServer.Lib

variable {Op : Type} {Ret : Op → Type} {σ τ ρ α β : Type}

structure Contract {Op : Type} (Ret : Op → Type) (τ : Type) where
  allows : τ → Op → Prop
  next : τ → (o : Op) → Ret o → τ → Prop

namespace Contract

def prod (P : Contract Ret τ) (P' : Contract Ret ρ) : Contract Ret (τ × ρ) where
  allows t o := P.allows t.1 o ∧ P'.allows t.2 o
  next t o r t' := P.next t.1 o r t'.1 ∧ P'.next t.2 o r t'.2

def actual (exec : (o : Op) → σ → Ret o × σ) (ok : σ → Op → Prop) : Contract Ret σ where
  allows := ok
  next s o r s' := r = (exec o s).1 ∧ s' = (exec o s).2

end Contract

namespace Prog

def Follows (P : Contract Ret τ) :
    Prog Ret α → τ → (α → τ → Prop) → (τ → Prop) → Prop
  | .ret a, t, Q, _ => Q a t
  | .throw, t, _, E => E t
  | .op o k, t, Q, E => P.allows t o ∧ ∀ r t', P.next t o r t' → (k r).Follows P t' Q E

variable {P : Contract Ret τ}

@[simp] theorem follows_ret (a : α) (t : τ) (Q : α → τ → Prop) (E : τ → Prop) :
    (Prog.ret a).Follows P t Q E ↔ Q a t := Iff.rfl

@[simp] theorem follows_throw (t : τ) (Q : α → τ → Prop) (E : τ → Prop) :
    (Prog.throw : Prog Ret α).Follows P t Q E ↔ E t := Iff.rfl

@[simp] theorem follows_op (o : Op) (k : Ret o → Prog Ret α) (t : τ)
    (Q : α → τ → Prop) (E : τ → Prop) :
    (Prog.op o k).Follows P t Q E ↔
      P.allows t o ∧ ∀ r t', P.next t o r t' → (k r).Follows P t' Q E := Iff.rfl

theorem follows_bind (x : Prog Ret α) (f : α → Prog Ret β) (t : τ)
    (Q : β → τ → Prop) (E : τ → Prop) :
    (x.bind f).Follows P t Q E ↔ x.Follows P t (fun a t' => (f a).Follows P t' Q E) E := by
  induction x generalizing t with
  | ret a => rfl
  | throw => rfl
  | op o k ih =>
    simp only [op_bind, follows_op]
    constructor
    · rintro ⟨h, hk⟩
      exact ⟨h, fun r t' hn => (ih r t').mp (hk r t' hn)⟩
    · rintro ⟨h, hk⟩
      exact ⟨h, fun r t' hn => (ih r t').mpr (hk r t' hn)⟩

theorem follows_tryCatch (x h : Prog Ret α) (t : τ) (Q : α → τ → Prop) (E : τ → Prop) :
    (x.tryCatch h).Follows P t Q E ↔ x.Follows P t Q (fun t' => h.Follows P t' Q E) := by
  induction x generalizing t with
  | ret a => rfl
  | throw => rfl
  | op o k ih =>
    simp only [tryCatch, follows_op]
    constructor
    · rintro ⟨ho, hk⟩
      exact ⟨ho, fun r t' hn => (ih r t').mp (hk r t' hn)⟩
    · rintro ⟨ho, hk⟩
      exact ⟨ho, fun r t' hn => (ih r t').mpr (hk r t' hn)⟩

theorem Follows.mono {x : Prog Ret α} {t : τ} {Q Q' : α → τ → Prop} {E E' : τ → Prop}
    (h : x.Follows P t Q E) (hQ : ∀ a t, Q a t → Q' a t) (hE : ∀ t, E t → E' t) :
    x.Follows P t Q' E' := by
  induction x generalizing t with
  | ret a => exact hQ a t h
  | throw => exact hE t h
  | op o k ih =>
    obtain ⟨ho, hk⟩ := h
    exact ⟨ho, fun r t' hn => ih r (hk r t' hn)⟩

theorem NoThrow.follows {x : Prog Ret α} (hx : x.NoThrow) {t : τ} {Q : α → τ → Prop}
    {E E' : τ → Prop} (h : x.Follows P t Q E) : x.Follows P t Q E' := by
  induction x generalizing t with
  | ret a => exact h
  | throw => exact hx.elim
  | op o k ih => exact ⟨h.1, fun r t' hn => ih r (hx r) (h.2 r t' hn)⟩

theorem Yields.follows {R : α → Prop} {x : Prog Ret α} (hx : x.Yields R) {t : τ} {Q : α → τ → Prop}
    {E : τ → Prop} (h : x.Follows P t Q E) : x.Follows P t (fun a t' => R a ∧ Q a t') E := by
  induction x generalizing t with
  | ret a => exact ⟨hx, h⟩
  | throw => exact h
  | op o k ih => exact ⟨h.1, fun r t' hn => ih r (hx r) (h.2 r t' hn)⟩

theorem Follows.prod {P' : Contract Ret ρ} {x : Prog Ret α} {t : τ} {t' : ρ} {Q : α → τ → Prop}
    {E : τ → Prop} {Q' : α → ρ → Prop} {E' : ρ → Prop} (h : x.Follows P t Q E)
    (h' : x.Follows P' t' Q' E') :
    x.Follows (P.prod P') (t, t') (fun a p => Q a p.1 ∧ Q' a p.2) (fun p => E p.1 ∧ E' p.2) := by
  induction x generalizing t t' with
  | ret a => exact ⟨h, h'⟩
  | throw => exact ⟨h, h'⟩
  | op o k ih =>
    refine ⟨⟨h.1, h'.1⟩, ?_⟩
    rintro r ⟨u, u'⟩ ⟨hn, hn'⟩
    exact ih r (h.2 r u hn) (h'.2 r u' hn')

theorem follows_actual {exec : (o : Op) → σ → Ret o × σ} {ok : σ → Op → Prop}
    {x : Prog Ret α} {s : σ} (h : ∀ o ∈ x.trace exec s, ∀ s', ok s' o) :
    x.Follows (.actual exec ok) s (fun _ _ => True) (fun _ => True) := by
  induction x generalizing s with
  | ret a => trivial
  | throw => trivial
  | op o k ih =>
    rw [trace_op] at h
    refine ⟨h o (List.mem_cons_self ..) s, ?_⟩
    rintro r s' ⟨rfl, rfl⟩
    exact ih _ fun o' ho' => h o' (List.mem_cons_of_mem _ ho')

theorem follows_actual_run {exec : (o : Op) → σ → Ret o × σ} {x : Prog Ret α} {s : σ}
    {Q : α → σ → Prop} {E : σ → Prop} (hQ : ∀ a, (x.run exec s).1 = some a → Q a (x.run exec s).2)
    (hE : E (x.run exec s).2) : x.Follows (.actual exec fun _ _ => True) s Q E := by
  induction x generalizing s with
  | ret a => exact hQ a rfl
  | throw => exact hE
  | op o k ih =>
    refine ⟨trivial, ?_⟩
    rintro r s' ⟨rfl, rfl⟩
    exact ih _ hQ hE

/-- Started in a ghost state that satisfies `Rest`, the program ends in one. -/
def Keeps (P : Contract Ret τ) (Rest : τ → Prop) (x : Prog Ret α) : Prop :=
  ∀ t, Rest t → x.Follows P t (fun _ t' => Rest t') Rest

variable {Rest : τ → Prop}

@[simp] theorem keeps_ret (a : α) : Keeps P Rest (.ret a) := fun _ h => h

@[simp] theorem keeps_throw : Keeps P Rest (.throw : Prog Ret α) := fun _ h => h

theorem Keeps.bind {x : Prog Ret α} {f : α → Prog Ret β} (hx : Keeps P Rest x)
    (hf : ∀ a, Keeps P Rest (f a)) : Keeps P Rest (x.bind f) := by
  intro t ht
  rw [follows_bind]
  exact (hx t ht).mono (fun a t' h => hf a t' h) (fun _ h => h)

theorem Keeps.tryCatch {x h : Prog Ret α} (hx : Keeps P Rest x) (hh : Keeps P Rest h) :
    Keeps P Rest (x.tryCatch h) := by
  intro t ht
  rw [follows_tryCatch]
  exact (hx t ht).mono (fun _ _ h => h) (fun t' h => hh t' h)

theorem keeps_actual {exec : (o : Op) → σ → Ret o × σ} {I : σ → Prop} {x : Prog Ret α}
    (h : ∀ s, I s → I (x.run exec s).2) : Keeps (.actual exec fun _ _ => True) I x :=
  fun s hs => follows_actual_run (fun _ _ => h s hs) (h s hs)

def Answers (P : Contract Ret τ) (Rest : τ → Prop) (o : Op) (F : Ret o → Prop) : Prop :=
  ∀ t, Rest t → P.allows t o ∧ ∀ r t', P.next t o r t' → Rest t' ∧ F r

theorem Answers.op {o : Op} {F : Ret o → Prop} (ho : Answers P Rest o F) {k : Ret o → Prog Ret α}
    (hk : ∀ r, F r → Keeps P Rest (k r)) : Keeps P Rest (.op o k) := by
  intro t ht
  refine ⟨(ho t ht).1, fun r t' h => ?_⟩
  obtain ⟨ht', hF⟩ := (ho t ht).2 r t' h
  exact hk r hF t' ht'

theorem keeps_of_answers (h : ∀ o, Answers P Rest o fun _ => True) (x : Prog Ret α) :
    Keeps P Rest x := by
  induction x with
  | ret a => exact keeps_ret a
  | throw => exact keeps_throw
  | op o k ih => exact (h o).op fun r _ => ih r

theorem Only.keeps {p : Op → Prop} {x : Prog Ret α} (h : x.Only p)
    (hp : ∀ o, p o → Answers P Rest o fun _ => True) : Keeps P Rest x := by
  induction x with
  | ret a => exact keeps_ret a
  | throw => exact keeps_throw
  | op o k ih => exact (hp o h.1).op fun r _ => ih r (h.2 r)

theorem Follows.run (exec : (o : Op) → σ → Ret o × σ) (I : σ → τ → Prop)
    (hop : ∀ s t o, I s t → P.allows t o →
      ∃ t', P.next t o (exec o s).1 t' ∧ I (exec o s).2 t')
    {x : Prog Ret α} {t : τ} {s : σ} {Q : α → τ → Prop} {E : τ → Prop}
    (h : x.Follows P t Q E) (hI : I s t) :
    ∃ t', I (x.run exec s).2 t' ∧
      match (x.run exec s).1 with
      | some a => Q a t'
      | none => E t' := by
  induction x generalizing s t with
  | ret a => exact ⟨t, hI, h⟩
  | throw => exact ⟨t, hI, h⟩
  | op o k ih =>
    obtain ⟨ho, hk⟩ := h
    obtain ⟨t', hn, hI'⟩ := hop s t o hI ho
    exact ih _ (hk _ t' hn) hI'

theorem Keeps.run_actual {exec : (o : Op) → σ → Ret o × σ} {I : σ → Prop} {x : Prog Ret α}
    (h : Keeps (.actual exec fun _ _ => True) I x) {s : σ} (hs : I s) : I (x.run exec s).2 := by
  obtain ⟨s', rfl, hend⟩ :=
    Follows.run exec (fun s s' => s' = s) (P := .actual exec fun _ _ => True)
    (by rintro s _ o rfl -; exact ⟨_, ⟨rfl, rfl⟩, rfl⟩) (h s hs) rfl
  split at hend <;> exact hend

theorem Follows.trace (exec : (o : Op) → σ → Ret o × σ) (I : σ → τ → Prop)
    (hop : ∀ s t o, I s t → P.allows t o →
      ∃ t', P.next t o (exec o s).1 t' ∧ I (exec o s).2 t')
    {x : Prog Ret α} {t : τ} {s : σ} {Q : α → τ → Prop} {E : τ → Prop}
    (h : x.Follows P t Q E) (hI : I s t) {o : Op} (ho : o ∈ x.trace exec s) :
    ∃ t, P.allows t o := by
  induction x generalizing s t with
  | ret a => cases ho
  | throw => cases ho
  | op o' k ih =>
    obtain ⟨hallowed, hk⟩ := h
    rw [trace_op, List.mem_cons] at ho
    rcases ho with rfl | ho
    · exact ⟨t, hallowed⟩
    · obtain ⟨t', hn, hI'⟩ := hop s t o' hI hallowed
      exact ih _ (hk _ t' hn) hI' ho

end Prog

end ChatServer.Lib
