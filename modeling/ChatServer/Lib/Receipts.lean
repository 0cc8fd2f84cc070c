import ChatServer.Lib.Interleave

/-! Receipts.  Some operations hand out a receipt for what they have put into the shared
state, and others show one to the outside.  If a program only shows the receipt it was
given, then in every interleaving what was shown is still there, and no two tasks have
shown the same one. -/

namespace ChatServer.Lib

variable {Op : Type} {Ret : Op → Type} {Job σ ρ κ : Type}

/-- The receipts of the operations, for the jobs that count.  `may` bounds the answers of
the operations, `key` is what is shown of a receipt, and `asked` says that it is for what the
job was about. -/
structure Office (Job : Type) {Op : Type} (Ret : Op → Type) (ρ κ : Type) where
  counts : Job → Bool
  may : (o : Op) → Ret o → Prop
  gives : (o : Op) → Ret o → Option ρ
  shows : Op → Option κ
  key : ρ → κ
  asked : Job → ρ → Prop

namespace Office

variable (O : Office Job Ret ρ κ)

def allows (t : Option ρ) (j : Job) (o : Op) : Prop :=
  (∀ r p, O.gives o r = some p → t = none ∧ O.asked j p) ∧ ∀ k, O.shows o = some k →
    ∃ p, t = some p ∧ O.key p = k

def contract (j : Job) : Contract Ret (Option ρ) where
  allows t o := O.counts j = true → O.allows t j o
  next t o r t' := O.may o r ∧ t' = if O.counts j then (O.gives o r).or t else t

structure Keeps (exec : (o : Op) → σ → Ret o × σ) (I : σ → Prop) (Valid : σ → ρ → Prop) : Prop where
  sound : ∀ s o, I s → I (exec o s).2
  answers : ∀ s o, O.may o (exec o s).1
  stays : ∀ s o p, I s → Valid s p → Valid (exec o s).2 p
  given : ∀ s o p, I s → O.gives o (exec o s).1 = some p →
    Valid (exec o s).2 p ∧ ∀ q, Valid s q → O.key q ≠ O.key p

structure Honest (I : σ → Prop) (Valid : σ → ρ → Prop) (g : Config Job Ret σ)
    (ts : Nat → Option ρ) : Prop where
  sound : I g.hist.state
  logged : ∀ e ∈ g.hist.log, ∃ x, g.tasks e.task = .busy e.job x
  taken : ∀ i p, ts i = some p → ∃ j x, g.tasks i = .busy j x ∧ O.asked j p ∧ Valid g.hist.state p
  apart : ∀ i n p q, i ≠ n → ts i = some p → ts n = some q → O.key p ≠ O.key q
  shown : ∀ e ∈ g.hist.log, O.counts e.job = true → ∀ k, O.shows e.op = some k →
    ∃ p, ts e.task = some p ∧ O.key p = k

namespace Honest

variable {O} {exec : (o : Op) → σ → Ret o × σ} {I : σ → Prop} {Valid : σ → ρ → Prop}
    {g : Config Job Ret σ} {ts : Nat → Option ρ} {i : Nat} {j : Job}

theorem init {s : σ} (hI : I s) :
    O.Honest I Valid (Config.idle s : Config Job Ret σ) fun _ => none where
  sound := hI
  logged _ h := by cases h
  taken _ _ h := by cases h
  apart _ _ _ _ _ h := by cases h
  shown _ h := by cases h

theorem start (h : O.Honest I Valid g ts) (hi : g.tasks i = .fresh) (x : Prog Ret Unit) :
    O.Honest I Valid { g with tasks := Function.update g.tasks i (.busy j x) }
    (Function.update ts i none) := by
  have hne {n : Nat} {j' : Job} {x' : Prog Ret Unit} (hn : g.tasks n = .busy j' x') : n ≠ i := by
    rintro rfl
    rw [hi] at hn
    cases hn
  have hold {n : Nat} {p : ρ} (hn : Function.update ts i none n = some p) : n ≠ i ∧
      ts n = some p := by
    by_cases hni : n = i
    · subst hni
      simp at hn
    · exact ⟨hni, by rwa [Function.update_of_ne hni] at hn⟩
  refine ⟨h.sound, ?_, ?_, ?_, ?_⟩
  · intro e he
    obtain ⟨x', hx'⟩ := h.logged e he
    exact ⟨x', by rw [← hx']; exact Function.update_of_ne (hne hx') ..⟩
  · intro n p hn
    obtain ⟨hni, hn⟩ := hold hn
    obtain ⟨j', x', hbusy, hp⟩ := h.taken n p hn
    exact ⟨j', x', by rw [← hbusy]; exact Function.update_of_ne hni .., hp⟩
  · intro n n' p q hnn hn hn'
    exact h.apart n n' p q hnn (hold hn).2 (hold hn').2
  · intro e he hcounts k hk
    obtain ⟨x', hx'⟩ := h.logged e he
    rw [Function.update_of_ne (hne hx')]
    exact h.shown e he hcounts k hk

theorem after_cases {o : Op} {r : Ret o} {t t' : Option ρ} (ha : (O.contract j).allows t o)
    (ht : (if O.counts j then (O.gives o r).or t else t) = t') :
    (∀ p, t' = some p → t = some p ∨ (O.gives o r = some p ∧ O.asked j p)) ∧ ∀ p, t = some p →
    t' = some p := by
  subst ht
  split
  next hcounts =>
    cases hgives : O.gives o r with
    | none => exact ⟨fun p hp => .inl hp, fun p hp => hp⟩
    | some q =>
      obtain ⟨hnone, hasked⟩ := (ha hcounts).1 r q hgives
      constructor
      · rintro p hp
        cases hp
        exact .inr ⟨rfl, hasked⟩
      · intro p hp
        rw [hnone] at hp
        cases hp
  next => exact ⟨fun p hp => .inl hp, fun p hp => hp⟩

theorem op (hkeeps : O.Keeps exec I Valid) (h : O.Honest I Valid g ts) {o : Op}
    {k : Ret o → Prog Ret Unit}
    (hi : g.tasks i = .busy j (.op o k)) (ha : (O.contract j).allows (ts i) o) :
    O.Honest I Valid (g.perform exec i j o k)
      (Function.update ts i (if O.counts j then (O.gives o (exec o g.hist.state).1).or (ts i)
        else ts i)) := by
  have hbusy {n : Nat} {j' : Job} (hn : ∃ x, g.tasks n = .busy j' x) :
      ∃ x, (g.perform exec i j o k).tasks n = .busy j' x := by
    obtain ⟨x, hx⟩ := hn
    by_cases hni : n = i
    · subst hni
      rw [hi] at hx
      cases hx
      exact ⟨_, Function.update_self ..⟩
    · exact ⟨x, by rw [Config.tasks_perform_ne g hni, hx]⟩
  generalize ht : (if O.counts j then (O.gives o (exec o g.hist.state).1).or (ts i) else ts i) = t
  have hgiven := after_cases ha ht
  have hkept {n : Nat} {p : ρ} (hn : ts n = some p) : Function.update ts i t n = some p := by
    by_cases hni : n = i
    · subst hni
      rw [Function.update_self]
      exact hgiven.2 p hn
    · rwa [Function.update_of_ne hni]
  have hstays {n : Nat} {p : ρ} (hn : ts n = some p) :
      ∃ j' x, (g.perform exec i j o k).tasks n = .busy j' x ∧ O.asked j' p ∧
        Valid (exec o g.hist.state).2 p := by
    obtain ⟨j', x, hx, hasked, hvalid⟩ := h.taken n p hn
    obtain ⟨x', hx'⟩ := hbusy ⟨x, hx⟩
    exact ⟨j', x', hx', hasked, hkeeps.stays _ o p h.sound hvalid⟩
  -- a receipt that has just been given is new
  have hnew {n : Nat} {p q : ρ} (hn : n ≠ i) (hp : t = some p) (hq : ts n = some q) :
      O.key p ≠ O.key q := by
    rcases hgiven.1 p hp with hold | ⟨hgives, -⟩
    · exact h.apart i n p q (Ne.symm hn) hold hq
    · obtain ⟨-, -, -, -, hvalid⟩ := h.taken n q hq
      exact ((hkeeps.given _ o p h.sound hgives).2 q hvalid).symm
  refine ⟨hkeeps.sound _ o h.sound, ?_, ?_, ?_, ?_⟩
  · intro e he
    rcases List.mem_append.mp he with he | he
    · exact hbusy (h.logged e he)
    · rw [List.mem_singleton.mp he]
      exact ⟨_, Function.update_self ..⟩
  · intro n p hn
    by_cases hni : n = i
    · subst hni
      rw [Function.update_self] at hn
      rcases hgiven.1 p hn with hold | ⟨hgives, hasked⟩
      · exact hstays hold
      · exact ⟨j, _, Function.update_self .., hasked, (hkeeps.given _ o p h.sound hgives).1⟩
    · rw [Function.update_of_ne hni] at hn
      exact hstays hn
  · intro n n' p q hne hn hn'
    by_cases hni : n = i
    · subst hni
      rw [Function.update_self] at hn
      rw [Function.update_of_ne (Ne.symm hne)] at hn'
      exact hnew (Ne.symm hne) hn hn'
    · rw [Function.update_of_ne hni] at hn
      by_cases hni' : n' = i
      · subst hni'
        rw [Function.update_self] at hn'
        exact (hnew hni hn' hn).symm
      · rw [Function.update_of_ne hni'] at hn'
        exact h.apart n n' p q hne hn hn'
  · intro e he hcounts key hkey
    rcases List.mem_append.mp he with he | he
    · obtain ⟨p, hp, heq⟩ := h.shown e he hcounts key hkey
      exact ⟨p, hkept hp, heq⟩
    · obtain rfl := List.mem_singleton.mp he
      obtain ⟨p, hp, heq⟩ := (ha hcounts).2 key hkey
      exact ⟨p, hkept hp, heq⟩

end Honest

theorem shown_kept {exec : (o : Op) → σ → Ret o × σ} {body : Job → Prog Ret Unit} {I : σ → Prop}
    {Valid : σ → ρ → Prop} (hkeeps : O.Keeps exec I Valid)
    (hbody : ∀ j, (body j).Follows (O.contract j) none (fun _ _ => True) fun _ => True)
    {s : σ} (hs : I s) {ok : Config Job Ret σ → Move Job → Prop} {g : Config Job Ret σ}
    (hg : Config.Reach exec body ok (.idle s) g) :
    I g.hist.state ∧ (∀ e ∈ g.hist.log, O.counts e.job = true → ∀ k, O.shows e.op = some k →
      ∃ p, O.key p = k ∧ O.asked e.job p ∧ Valid g.hist.state p) ∧
    ∀ e ∈ g.hist.log, ∀ e' ∈ g.hist.log, O.counts e.job = true → O.counts e'.job = true →
      ∀ k, O.shows e.op = some k → O.shows e'.op = some k → e.task = e'.task := by
  obtain ⟨ts, -, h⟩ :=
    Config.Reach.invariant (O.Honest I Valid) (fun _ => none) (fun _ => none) (fun _ => trivial)
    (Honest.init hs) hbody (fun g ts i j _ h _ hf => h.start hf (body j))
    (fun g ts i j o k _ h _ hi ha => ⟨_, ⟨hkeeps.answers _ o, rfl⟩, h.op hkeeps hi ha⟩) hg
  refine ⟨h.sound, ?_, ?_⟩
  · intro e he hcounts k hk
    obtain ⟨p, hp, hkey⟩ := h.shown e he hcounts k hk
    obtain ⟨j, x, hj, hasked, hvalid⟩ := h.taken _ p hp
    obtain ⟨x', hx'⟩ := h.logged e he
    rw [hx'] at hj
    cases hj
    exact ⟨p, hkey, hasked, hvalid⟩
  · intro e he e' he' hcounts hcounts' k hk hk'
    obtain ⟨p, hp, hkey⟩ := h.shown e he hcounts k hk
    obtain ⟨q, hq, hkey'⟩ := h.shown e' he' hcounts' k hk'
    by_contra hne
    exact h.apart _ _ p q hne hp hq (hkey.trans hkey'.symm)

end Office

end ChatServer.Lib
