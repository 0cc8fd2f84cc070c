import Mathlib.Logic.Relation

/-! Handlers of an edge-triggered descriptor.  A handler calls the kernel in a loop until it
leaves.  The kernel reports an event only when something new arrives, so what a handler
leaves behind has to wait for the next arrival. -/

namespace ChatServer.Lib

inductive Next (σ : Type) : Type
  | again : σ → Next σ
  | leave : σ → Next σ

/-- A loop around one call of the kernel: the test before the call, with the state the
handler leaves in, and what is done with the result. -/
structure Handler (σ ρ : Type) where
  test : σ → Option σ
  handle : σ → ρ → Next σ

namespace Handler

variable {σ ρ : Type} (H : Handler σ ρ)

def run (s : σ) : List ρ → Option (σ × List ρ)
  | [] => (H.test s).map fun s' => (s', [])
  | x :: xs =>
    match H.test s, H.handle s x with
    | some s', _ => some (s', [])
    | none, .leave s' => some (s', [x])
    | none, .again s' => (run s' xs).map fun out => (out.1, x :: out.2)

structure Sound (R : σ → List ρ → σ → Prop) : Prop where
  test : ∀ {s s'}, H.test s = some s' → R s [] s'
  leave : ∀ {s x s'}, H.test s = none → H.handle s x = .leave s' → R s [x] s'
  again : ∀ {s x s₁ xs s'}, H.test s = none → H.handle s x = .again s₁ → R s₁ xs s' →
    R s (x :: xs) s'

variable {H}

theorem Sound.run {R : σ → List ρ → σ → Prop} (h : H.Sound R) {s s' : σ} {xs used : List ρ}
    (hrun : H.run s xs = some (s', used)) : R s used s' := by
  induction xs generalizing s used with
  | nil =>
    obtain ⟨s₁, htest, heq⟩ := Option.map_eq_some_iff.mp hrun
    cases heq
    exact h.test htest
  | cons x xs ih =>
    rw [Handler.run] at hrun
    split at hrun
    · rename_i htest
      cases hrun
      exact h.test htest
    · rename_i htest hleave
      cases hrun
      exact h.leave htest hleave
    · rename_i htest hagain
      obtain ⟨⟨s₁, used₁⟩, hrest, heq⟩ := Option.map_eq_some_iff.mp hrun
      cases heq
      exact h.again htest hagain (ih hrest)

theorem run_leaves {s s' : σ} {xs used : List ρ} (hrun : H.run s xs = some (s', used)) :
    (∃ s₁, H.test s₁ = some s') ∨ ∃ s₁ x, used.getLast? = some x ∧ H.handle s₁ x = .leave s' := by
  refine Sound.run (R := fun _ used s' => (∃ s₁, H.test s₁ = some s') ∨
    ∃ s₁ x, used.getLast? = some x ∧ H.handle s₁ x = .leave s') ⟨?_, ?_, ?_⟩ hrun
  · exact fun htest => .inl ⟨_, htest⟩
  · exact fun _ hleave => .inr ⟨_, _, rfl, hleave⟩
  · rintro s x s₁ xs s' - - (htest | ⟨s₂, y, hy, hleave⟩)
    · exact .inl htest
    · exact .inr ⟨s₂, y, by rw [List.getLast?_cons, hy]; rfl, hleave⟩

end Handler

structure Kernel (κ ρ : Type) where
  answers : ρ → κ → κ → Prop
  arrives : κ → κ → Prop
  ready : κ → Prop

/-- A watched descriptor: an event that has not been reported yet, and the handler, which
may be running. -/
structure Watched (κ σ : Type) where
  kernel : κ
  edge : Bool
  running : Bool
  state : σ

namespace Watched

variable {κ σ ρ : Type}

inductive Step (K : Kernel κ ρ) (H : Handler σ ρ) (ok : ρ → Prop) (w : Watched κ σ) :
    Watched κ σ → Prop
  | arrive {k : κ} (h : K.arrives w.kernel k) : Step K H ok w { w with kernel := k, edge := true }
  | report (hedge : w.edge = true) (hrun : w.running = false) :
      Step K H ok w { w with edge := false, running := true }
  | test {s : σ} (hrun : w.running = true) (h : H.test w.state = some s) :
      Step K H ok w { w with running := false, state := s }
  | again {k : κ} {x : ρ} {s : σ} (hrun : w.running = true) (htest : H.test w.state = none)
      (hx : ok x) (hk : K.answers x w.kernel k) (h : H.handle w.state x = .again s) :
      Step K H ok w { w with kernel := k, state := s }
  | leave {k : κ} {x : ρ} {s : σ} (hrun : w.running = true) (htest : H.test w.state = none)
      (hx : ok x) (hk : K.answers x w.kernel k) (h : H.handle w.state x = .leave s) :
      Step K H ok w { w with kernel := k, running := false, state := s }

/-- Nothing is left behind: between two calls of the handler a ready descriptor has an
event to come, unless the handler's state excuses it. -/
def Noticed (K : Kernel κ ρ) (excused : σ → Prop) (w : Watched κ σ) : Prop :=
  w.running = false → K.ready w.kernel → w.edge = true ∨ excused w.state

variable {K : Kernel κ ρ} {H : Handler σ ρ} {ok : ρ → Prop} {excused : σ → Prop}
    {w w' : Watched κ σ}

theorem Noticed.reachable (htest : ∀ {s s'}, H.test s = some s' → excused s')
    (hleave : ∀ {s x s' k k'}, ok x → H.handle s x = .leave s' → K.answers x k k' →
      excused s' ∨ ¬K.ready k')
    (h : Noticed K excused w) (hreach : Relation.ReflTransGen (Step K H ok) w w') :
    Noticed K excused w' := by
  induction hreach with
  | refl => exact h
  | tail _ hstep ih =>
    intro hrun hready
    cases hstep with
    | arrive => exact .inl rfl
    | report => cases hrun
    | test _ hs => exact .inr (htest hs)
    | again hrunning => exact absurd hrun (by simp [hrunning])
    | leave _ _ hx hk hs => exact .inr ((hleave hx hs hk).resolve_right (not_not_intro hready))

end Watched

end ChatServer.Lib
