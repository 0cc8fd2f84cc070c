import Mathlib.Logic.Function.Basic

/-! Programs over a signature of atomic operations.  A program is a tree whose
nodes call one operation and branch on its answer; the meaning of the operations
is supplied separately, so the same program can be run alone or be interleaved
with others. -/

namespace ChatServer.Lib

variable {Op : Type} {Ret : Op → Type} {σ τ α β : Type}

inductive Prog {Op : Type} (Ret : Op → Type) (α : Type) : Type
  | ret : α → Prog Ret α
  | throw : Prog Ret α
  | op : (o : Op) → (Ret o → Prog Ret α) → Prog Ret α

namespace Prog

@[simp] def call (o : Op) : Prog Ret (Ret o) := .op o .ret

def bind : Prog Ret α → (α → Prog Ret β) → Prog Ret β
  | .ret a, f => f a
  | .throw, _ => .throw
  | .op o k, f => .op o (fun r => (k r).bind f)

def tryCatch : Prog Ret α → Prog Ret α → Prog Ret α
  | .ret a, _ => .ret a
  | .throw, h => h
  | .op o k, h => .op o (fun r => (k r).tryCatch h)

instance : Monad (Prog Ret) where
  pure := .ret
  bind := .bind

@[simp] theorem pure_eq_ret (a : α) : (pure a : Prog Ret α) = .ret a := rfl

@[simp] theorem bind_eq_bind (x : Prog Ret α) (f : α → Prog Ret β) : x >>= f = x.bind f := rfl

@[simp] theorem ret_bind (a : α) (f : α → Prog Ret β) : (Prog.ret a).bind f = f a := rfl

@[simp] theorem throw_bind (f : α → Prog Ret β) : (Prog.throw : Prog Ret α).bind f = .throw := rfl

@[simp] theorem op_bind (o : Op) (k : Ret o → Prog Ret α) (f : α → Prog Ret β) :
    (Prog.op o k).bind f = .op o (fun r => (k r).bind f) := rfl

def finished : Prog Ret α → Bool
  | .op _ _ => false
  | _ => true

def nextOp : Prog Ret α → Option Op
  | .op o _ => some o
  | _ => none

@[simp] theorem finished_ret (a : α) : (Prog.ret a : Prog Ret α).finished = true := rfl
@[simp] theorem finished_throw : (Prog.throw : Prog Ret α).finished = true := rfl
@[simp] theorem finished_op (o : Op) (k : Ret o → Prog Ret α) : (Prog.op o k).finished = false :=
  rfl
@[simp] theorem nextOp_op (o : Op) (k : Ret o → Prog Ret α) : (Prog.op o k).nextOp = some o := rfl

def Only (p : Op → Prop) : Prog Ret α → Prop
  | .ret _ => True
  | .throw => True
  | .op o k => p o ∧ ∀ r, (k r).Only p

section Only

variable {p q : Op → Prop}

@[simp] theorem only_ret (a : α) : (Prog.ret a : Prog Ret α).Only p := trivial

@[simp] theorem only_throw : (Prog.throw : Prog Ret α).Only p := trivial

@[simp] theorem only_op (o : Op) (k : Ret o → Prog Ret α) :
    (Prog.op o k).Only p ↔ p o ∧ ∀ r, (k r).Only p := Iff.rfl

@[simp] theorem only_ite {a : Prop} [Decidable a] (x y : Prog Ret α) :
    (if a then x else y).Only p ↔ (a → x.Only p) ∧ (¬a → y.Only p) := by
  split <;> simp [*]

theorem Only.bind {x : Prog Ret α} {f : α → Prog Ret β} (hx : x.Only p) (hf : ∀ a, (f a).Only p) :
    (x.bind f).Only p := by
  induction x with
  | ret a => exact hf a
  | throw => trivial
  | op o k ih => exact ⟨hx.1, fun r => ih r (hx.2 r)⟩

theorem Only.tryCatch {x h : Prog Ret α} (hx : x.Only p) (hh : h.Only p) :
    (x.tryCatch h).Only p := by
  induction x with
  | ret a => trivial
  | throw => exact hh
  | op o k ih => exact ⟨hx.1, fun r => ih r (hx.2 r)⟩

theorem Only.mono {x : Prog Ret α} (h : x.Only p) (hpq : ∀ o, p o → q o) : x.Only q := by
  induction x with
  | ret a => trivial
  | throw => trivial
  | op o k ih => exact ⟨hpq o h.1, fun r => ih r (h.2 r)⟩

end Only

def NoThrow : Prog Ret α → Prop
  | .ret _ => True
  | .throw => False
  | .op _ k => ∀ r, (k r).NoThrow

@[simp] theorem noThrow_ret (a : α) : (Prog.ret a : Prog Ret α).NoThrow := trivial

@[simp] theorem noThrow_op (o : Op) (k : Ret o → Prog Ret α) :
    (Prog.op o k).NoThrow ↔ ∀ r, (k r).NoThrow := Iff.rfl

@[simp] theorem noThrow_ite {a : Prop} [Decidable a] (x y : Prog Ret α) :
    (if a then x else y).NoThrow ↔ (a → x.NoThrow) ∧ (¬a → y.NoThrow) := by
  split <;> simp [*]

@[simp] theorem NoThrow.bind {x : Prog Ret α} {f : α → Prog Ret β} (hx : x.NoThrow)
    (hf : ∀ a, (f a).NoThrow) : (x.bind f).NoThrow := by
  induction x with
  | ret a => exact hf a
  | throw => exact hx
  | op o k ih => exact fun r => ih r (hx r)

theorem NoThrow.tryCatch {x h : Prog Ret α} (hx : x.NoThrow) : x.tryCatch h = x := by
  induction x with
  | ret a => rfl
  | throw => exact hx.elim
  | op o k ih =>
    simp only [Prog.tryCatch]
    congr 1
    funext r
    exact ih r (hx r)

def Yields (Q : α → Prop) : Prog Ret α → Prop
  | .ret a => Q a
  | .throw => True
  | .op _ k => ∀ r, (k r).Yields Q

theorem Yields.bind {Q : β → Prop} (x : Prog Ret α) {f : α → Prog Ret β}
    (hf : ∀ a, (f a).Yields Q) : (x.bind f).Yields Q := by
  induction x with
  | ret a => exact hf a
  | throw => trivial
  | op o k ih => exact ih

section Run

variable (exec : (o : Op) → σ → Ret o × σ)

/-- Run a program alone.  The answer is absent when an exception escapes; the
state keeps every effect made before it. -/
def run : Prog Ret α → σ → Option α × σ
  | .ret a, s => (some a, s)
  | .throw, s => (none, s)
  | .op o k, s => (k (exec o s).1).run (exec o s).2

@[simp] theorem run_ret (a : α) (s : σ) : (Prog.ret a : Prog Ret α).run exec s = (some a, s) := rfl

@[simp] theorem run_throw (s : σ) : (Prog.throw : Prog Ret α).run exec s = (none, s) := rfl

@[simp] theorem run_op (o : Op) (k : Ret o → Prog Ret α) (s : σ) :
    (Prog.op o k).run exec s = (k (exec o s).1).run exec (exec o s).2 := rfl

theorem run_bind (x : Prog Ret α) (f : α → Prog Ret β) (s : σ) :
    (x.bind f).run exec s =
      match x.run exec s with
      | (some a, s') => (f a).run exec s'
      | (none, s') => (none, s') := by
  induction x generalizing s with
  | ret a => rfl
  | throw => rfl
  | op o k ih => exact ih _ _

theorem run_tryCatch (x h : Prog Ret α) (s : σ) :
    (x.tryCatch h).run exec s =
      match x.run exec s with
      | (some a, s') => (some a, s')
      | (none, s') => h.run exec s' := by
  induction x generalizing s with
  | ret a => rfl
  | throw => rfl
  | op o k ih => exact ih _ _

theorem run_bind_ret (x : Prog Ret α) (f : α → β) (s : σ) :
    ((x.bind fun a => .ret (f a)).run exec s).2 = (x.run exec s).2 := by
  induction x generalizing s with
  | ret a => rfl
  | throw => rfl
  | op o k ih => exact ih _ _

theorem run_keeps {I : σ → Prop} (hop : ∀ o s, I s → I (exec o s).2) (x : Prog Ret α) (s : σ)
    (hI : I s) : I (x.run exec s).2 := by
  induction x generalizing s with
  | ret a => exact hI
  | throw => exact hI
  | op o k ih => exact ih _ _ (hop o s hI)

theorem NoThrow.run {x : Prog Ret α} (hx : x.NoThrow) (s : σ) :
    ∃ a, x.run exec s = (some a, (x.run exec s).2) := by
  induction x generalizing s with
  | ret a => exact ⟨a, rfl⟩
  | throw => exact hx.elim
  | op o k ih => exact ih _ (hx _) _

theorem NoThrow.run_bind {x : Prog Ret α} (hx : x.NoThrow) (f : α → Prog Ret β) (s : σ) :
    ∃ a, x.run exec s = (some a, (x.run exec s).2) ∧
      (x.bind f).run exec s = (f a).run exec (x.run exec s).2 := by
  obtain ⟨a, ha⟩ := hx.run exec s
  refine ⟨a, ha, ?_⟩
  rw [Prog.run_bind, ha]

theorem Only.run {exec : (o : Op) → σ → Ret o × σ} {p : Op → Prop} {R : σ → σ → Prop}
    (hrefl : ∀ s, R s s) (htrans : ∀ s t u, R s t → R t u → R s u)
    (hop : ∀ o s, p o → R s (exec o s).2) {x : Prog Ret α} (h : x.Only p) (s : σ) :
    R s (x.run exec s).2 := by
  induction x generalizing s with
  | ret a => exact hrefl s
  | throw => exact hrefl s
  | op o k ih => exact htrans _ _ _ (hop o s h.1) (ih _ (h.2 _) _)

theorem Yields.run {Q : α → Prop} {x : Prog Ret α} (hx : x.Yields Q) {s s' : σ} {a : α}
    (h : x.run exec s = (some a, s')) : Q a := by
  induction x generalizing s with
  | ret b =>
    cases h
    exact hx
  | throw => cases h
  | op o k ih => exact ih _ (hx _) h

def trace : Prog Ret α → σ → List Op
  | .ret _, _ => []
  | .throw, _ => []
  | .op o k, s => o :: (k (exec o s).1).trace (exec o s).2

@[simp] theorem trace_ret (a : α) (s : σ) : (Prog.ret a : Prog Ret α).trace exec s = [] := rfl

@[simp] theorem trace_throw (s : σ) : (Prog.throw : Prog Ret α).trace exec s = [] := rfl

@[simp] theorem trace_op (o : Op) (k : Ret o → Prog Ret α) (s : σ) :
    (Prog.op o k).trace exec s = o :: (k (exec o s).1).trace exec (exec o s).2 := rfl

theorem trace_bind (x : Prog Ret α) (f : α → Prog Ret β) (s : σ) :
    (x.bind f).trace exec s = x.trace exec s ++
      match x.run exec s with
      | (some a, s') => (f a).trace exec s'
      | (none, _) => [] := by
  induction x generalizing s with
  | ret a => rfl
  | throw => rfl
  | op o k ih => exact congrArg (o :: ·) (ih _ _)

theorem trace_tryCatch (x h : Prog Ret α) (s : σ) :
    (x.tryCatch h).trace exec s = x.trace exec s ++
      match x.run exec s with
      | (some _, _) => []
      | (none, s') => h.trace exec s' := by
  induction x generalizing s with
  | ret a => rfl
  | throw => exact (List.nil_append _).symm
  | op o k ih => exact congrArg (o :: ·) (ih _ _)

theorem Only.trace {p : Op → Prop} {x : Prog Ret α} (h : x.Only p) (s : σ) :
    ∀ o ∈ x.trace exec s, p o := by
  induction x generalizing s with
  | ret a => simp
  | throw => simp
  | op o k ih =>
    intro o' ho'
    rcases List.mem_cons.mp ho' with rfl | ho'
    · exact h.1
    · exact ih _ (h.2 _) _ o' ho'

end Run

end Prog

end ChatServer.Lib
