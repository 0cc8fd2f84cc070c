namespace ChatServer.Lib

/-- A machine with the states `σ` and the moves `μ`: when a move can be made, and the state
it leads to. -/
structure Machine (σ μ : Type) where
  can : σ → μ → Bool
  next : σ → μ → σ

namespace Machine

variable {σ μ : Type} (M : Machine σ μ)

inductive Reach (ok : σ → μ → Prop) (s₀ : σ) : σ → Prop
  | start : Reach ok s₀ s₀
  | move {s : σ} {m : μ} : Reach ok s₀ s → M.can s m = true → ok s m → Reach ok s₀ (M.next s m)

def Runs (ok : σ → μ → Prop) (s : σ) : List μ → Prop
  | [] => True
  | m :: ms => M.can s m = true ∧ ok s m ∧ Runs ok (M.next s m) ms

def run (s : σ) (ms : List μ) : σ := ms.foldl M.next s

instance decidableRuns {ok : σ → μ → Prop} [∀ s m, Decidable (ok s m)] :
    (s : σ) → (ms : List μ) → Decidable (M.Runs ok s ms)
  | _, [] => inferInstanceAs (Decidable True)
  | s, m :: ms =>
    have : Decidable (M.Runs ok (M.next s m) ms) := decidableRuns (M.next s m) ms
    inferInstanceAs (Decidable (_ ∧ _ ∧ _))

variable {M} {ok : σ → μ → Prop} {s₀ s : σ}

theorem Reach.invariant (I : σ → Prop) (hstart : I s₀)
    (hmove : ∀ s m, I s → M.can s m = true → ok s m → I (M.next s m))
    (h : M.Reach ok s₀ s) : I s := by
  induction h with
  | start => exact hstart
  | move _ hcan hok ih => exact hmove _ _ ih hcan hok

theorem Reach.runs {ms : List μ} (h : M.Reach ok s₀ s) (hms : M.Runs ok s ms) :
    M.Reach ok s₀ (M.run s ms) := by
  induction ms generalizing s with
  | nil => exact h
  | cons m ms ih =>
    obtain ⟨hcan, hok, hrest⟩ := hms
    exact ih (h.move hcan hok) hrest

end Machine

end ChatServer.Lib
