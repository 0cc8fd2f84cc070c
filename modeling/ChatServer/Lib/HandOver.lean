import Mathlib.Data.Set.Insert
import Mathlib.Data.List.Pairwise
import Mathlib.Logic.Function.Basic

/-! Items that tasks bring in and hand to users, either directly or through a queue for each
user.  The items of a task come in turn behind those of the tasks ordered before it. -/

namespace ChatServer.Lib

section InTurn

variable {α β : Type} {a b x : α} {l l' : List α}

/-- In the list, `a` does not stand behind `b`. -/
def InTurn (a b : α) (l : List α) : Prop := ¬[b, a].Sublist l

theorem InTurn.sublist (h : InTurn a b l) (hsub : l'.Sublist l) : InTurn a b l' :=
  fun hpair => h (hpair.trans hsub)

theorem inTurn_of_notMem (hb : b ∉ l) : InTurn a b l :=
  fun hpair => hb (hpair.subset (List.mem_cons_self ..))

theorem InTurn.concat (h : InTurn a b l) (hx : x = a → b ∉ l) : InTurn a b (l ++ [x]) := by
  intro hpair
  rw [List.sublist_append_iff] at hpair
  obtain ⟨l₁, l₂, heq, hl₁, hl₂⟩ := hpair
  cases hl₂ with
  | cons _ hnil =>
    obtain rfl := List.sublist_nil.mp hnil
    rw [List.append_nil] at heq
    exact h (heq ▸ hl₁)
  | cons_cons _ hnil =>
    obtain rfl := List.sublist_nil.mp hnil
    obtain ⟨rfl, hax⟩ := List.append_inj' (show [b] ++ [a] = l₁ ++ [x] from heq) rfl
    exact hx (List.singleton_inj.mp hax).symm (List.singleton_sublist.mp hl₁)

theorem InTurn.notMem (h : InTurn a b (b :: l)) : a ∉ l :=
  fun ha => h ((List.singleton_sublist.mpr ha).cons_cons b)

theorem inTurn_of_pairwise {l : List Nat} {a b : Nat} (hl : l.Pairwise (· < ·)) (hab : a < b) :
    InTurn a b l := by
  intro hpair
  have hba := hl.sublist hpair
  rw [List.pairwise_pair] at hba
  omega

theorem InTurn.map {f : α → β} (h : InTurn a b l) (ha : ∀ x ∈ l, f x = f a → x = a)
    (hb : ∀ x ∈ l, f x = f b → x = b) : InTurn (f a) (f b) (l.map f) := by
  intro hpair
  obtain ⟨l', hl', hmap⟩ := List.sublist_map_iff.mp hpair
  obtain ⟨x, l', rfl, hx, hrest⟩ := List.map_eq_cons_iff.mp hmap.symm
  obtain ⟨y, l', rfl, hy, hnil⟩ := List.map_eq_cons_iff.mp hrest
  obtain rfl := List.map_eq_nil_iff.mp hnil
  obtain rfl := hb x (hl'.subset (by simp)) hx
  obtain rfl := ha y (hl'.subset (by simp)) hy
  exact h hl'

variable {ι : Type} [DecidableEq ι] {q : ι → List α} {u v : ι}

theorem mem_update_concat (h : a ∈ Function.update q u (q u ++ [x]) v) :
    a ∈ q v ∨ (v = u ∧ a = x) := by
  by_cases hv : v = u
  · subst hv
    rw [Function.update_self, List.mem_append, List.mem_singleton] at h
    exact h.imp_right fun heq => ⟨rfl, heq⟩
  · rw [Function.update_of_ne hv] at h
    exact .inl h

theorem InTurn.update_concat (h : ∀ v, InTurn a b (q v)) (hx : x = a → b ∉ q u) (v : ι) :
    InTurn a b (Function.update q u (q u ++ [x]) v) := by
  by_cases hv : v = u
  · subst hv
    rw [Function.update_self]
    exact (h v).concat hx
  · rw [Function.update_of_ne hv]
    exact h v

end InTurn

/-- What a task has to do with the items: those it has brought in, the users it may hand
items to, and those it has taken from the queue of `user` and not handed over yet. -/
structure Hand (U : Type) where
  own : Set Nat
  aims : Set U
  user : U
  rest : List Nat

/-- The items that wait for each user and those that were handed to each user, in order, and
the number of the next item. -/
structure Desk (U : Type) where
  queue : U → List Nat
  shown : U → List Nat
  next : Nat

variable {U : Type} {R R' : Nat → Nat → Prop} {d : Desk U} {hs : Nat → Hand U}
  {k m x : Nat} {u : U}

structure Settled (d : Desk U) (hs : Nat → Hand U) (m : Nat) (u : U) : Prop where
  queue : m ∉ d.queue u
  rest : ∀ n, (hs n).user = u → m ∉ (hs n).rest

def Earlier (R : Nat → Nat → Prop) (hs : Nat → Hand U) (m m' : Nat) : Prop :=
  ∃ i j, R i j ∧ m ∈ (hs i).own ∧ m' ∈ (hs j).own

structure HandedInTurn (R : Nat → Nat → Prop) (d : Desk U) (hs : Nat → Hand U) : Prop where
  own_lt : ∀ i, ∀ m ∈ (hs i).own, m < d.next
  queue_lt : ∀ u, ∀ m ∈ d.queue u, m < d.next
  rest_lt : ∀ i, ∀ m ∈ (hs i).rest, m < d.next
  shown_lt : ∀ u, ∀ m ∈ d.shown u, m < d.next
  single : ∀ i j m, m ∈ (hs i).own → m ∈ (hs j).own → i = j
  rising : ∀ m m', Earlier R hs m m' → m < m'
  aimed : ∀ i j, R i j → ∀ m ∈ (hs i).own, ∀ u ∈ (hs j).aims, Settled d hs m u
  passed : ∀ m m', Earlier R hs m m' → ∀ u, m' ∈ d.shown u → Settled d hs m u
  shown : ∀ m m', Earlier R hs m m' → ∀ u, InTurn m m' (d.shown u)
  queue : ∀ m m', Earlier R hs m m' → ∀ u, InTurn m m' (d.queue u)
  rest : ∀ m m', Earlier R hs m m' → ∀ n, InTurn m m' (hs n).rest
  taken : ∀ m m', Earlier R hs m m' → ∀ n, m' ∈ (hs n).rest →
    m ∉ d.queue (hs n).user ∧ ∀ n' ≠ n, (hs n').user = (hs n).user → m ∉ (hs n').rest

theorem handedInTurn_empty (R : Nat → Nat → Prop) (hs : Nat → Hand U)
    (hown : ∀ i, (hs i).own = ∅) (hrest : ∀ i, (hs i).rest = []) (next : Nat) :
    HandedInTurn R ⟨fun _ => [], fun _ => [], next⟩ hs := by
  have hnone {m m' : Nat} (h : Earlier R hs m m') : False := by
    obtain ⟨i, j, -, hm, -⟩ := h
    simp [hown] at hm
  refine ⟨?_, ?_, ?_, ?_, ?_, fun _ _ h => (hnone h).elim, ?_, fun _ _ h => (hnone h).elim,
    fun _ _ h => (hnone h).elim, fun _ _ h => (hnone h).elim, fun _ _ h => (hnone h).elim,
    fun _ _ h => (hnone h).elim⟩ <;> simp [hown, hrest]

section Update

variable {h' : Hand U}

theorem update_field {α : Type} (f : Hand U → α) (heq : f h' = f (hs k)) (n : Nat) :
    f (Function.update hs k h' n) = f (hs n) := by
  by_cases hn : n = k
  · subst hn
    rw [Function.update_self, heq]
  · rw [Function.update_of_ne hn]

theorem earlier_update (hown : h'.own = (hs k).own) {m m' : Nat} :
    Earlier R (Function.update hs k h') m m' ↔ Earlier R hs m m' := by
  simp only [Earlier, update_field Hand.own hown]

theorem Settled.update (h : Settled d hs m u) (huser : h'.user = (hs k).user)
    (hrest : h'.rest.Sublist (hs k).rest) : Settled d (Function.update hs k h') m u := by
  refine ⟨h.queue, fun n hn => ?_⟩
  by_cases hnk : n = k
  · subst hnk
    rw [Function.update_self] at hn ⊢
    exact fun hm => h.rest n (huser ▸ hn) (hrest.subset hm)
  · rw [Function.update_of_ne hnk] at hn ⊢
    exact h.rest n hn

end Update

namespace HandedInTurn

variable {h' : Hand U}

theorem putAside (h : HandedInTurn R d hs) (hown : h'.own = (hs k).own)
    (haims : h'.aims = (hs k).aims) (huser : h'.user = (hs k).user)
    (hrest : h'.rest.Sublist (hs k).rest) : HandedInTurn R d (Function.update hs k h') := by
  have hrests (n : Nat) : (Function.update hs k h' n).rest.Sublist (hs n).rest := by
    by_cases hn : n = k
    · subst hn
      rwa [Function.update_self]
    · exact Function.update_of_ne hn h' hs ▸ .refl _
  have howns := update_field Hand.own hown
  have husers := update_field Hand.user huser
  refine ⟨by simpa only [howns] using h.own_lt, h.queue_lt,
    fun i m hm => h.rest_lt i m ((hrests i).subset hm), h.shown_lt,
    by simpa only [howns] using h.single, by simpa only [earlier_update hown] using h.rising, ?_,
    fun m m' hm u hu => (h.passed m m' ((earlier_update hown).mp hm) u hu).update huser hrest,
    by
      simpa only [earlier_update hown] using h.shown, by
        simpa only [earlier_update hown] using h.queue,
    fun m m' hm n => (h.rest m m' ((earlier_update hown).mp hm) n).sublist (hrests n), ?_⟩
  · intro i j hR m hm u hu
    rw [howns] at hm
    rw [update_field Hand.aims haims] at hu
    exact (h.aimed i j hR m hm u hu).update huser hrest
  · intro m m' hm n hn
    obtain ⟨hqueue, hothers⟩ := h.taken m m' ((earlier_update hown).mp hm) n ((hrests n).subset hn)
    simp only [husers]
    exact ⟨hqueue, fun n' hne hsame hin => hothers n' hne hsame ((hrests n').subset hin)⟩

theorem start (h : HandedInTurn R d hs) (hown : h'.own = ∅) (haims : h'.aims = ∅)
    (hrest : h'.rest = []) (hlast : ∀ j, ¬R' k j) (hR : ∀ i j, j ≠ k → R' i j → R i j) :
    HandedInTurn R' d (Function.update hs k h') := by
  have hold {i m : Nat} (hm : m ∈ (Function.update hs k h' i).own) : i ≠ k ∧ m ∈ (hs i).own := by
    have hne : i ≠ k := by
      rintro rfl
      simp [hown] at hm
    rw [Function.update_of_ne hne] at hm
    exact ⟨hne, hm⟩
  have hrests {n m : Nat} (hm : m ∈ (Function.update hs k h' n).rest) :
      n ≠ k ∧ m ∈ (hs n).rest := by
    have hne : n ≠ k := by
      rintro rfl
      simp [hrest] at hm
    rw [Function.update_of_ne hne] at hm
    exact ⟨hne, hm⟩
  have hearlier {m m' : Nat} (hm : Earlier R' (Function.update hs k h') m m') :
      Earlier R hs m m' := by
    obtain ⟨i, j, hij, hi, hj⟩ := hm
    exact ⟨i, j, hR i j (hold hj).1 hij, (hold hi).2, (hold hj).2⟩
  have hsettled {m : Nat} {u : U} (hm : Settled d hs m u) :
      Settled d (Function.update hs k h') m u := by
    refine ⟨hm.queue, fun n hn hin => ?_⟩
    obtain ⟨hne, hin⟩ := hrests hin
    rw [Function.update_of_ne hne] at hn
    exact hm.rest n hn hin
  refine ⟨fun i m hm => h.own_lt i m (hold hm).2, h.queue_lt,
    fun i m hm => h.rest_lt i m (hrests hm).2, h.shown_lt,
    fun i j m hi hj => h.single i j m (hold hi).2 (hold hj).2,
    fun m m' hm => h.rising m m' (hearlier hm), ?_,
    fun m m' hm u hu => hsettled (h.passed m m' (hearlier hm) u hu),
    fun m m' hm => h.shown m m' (hearlier hm), fun m m' hm => h.queue m m' (hearlier hm), ?_, ?_⟩
  · intro i j hij m hm u hu
    have hne : j ≠ k := by
      rintro rfl
      simp [haims] at hu
    rw [Function.update_of_ne hne] at hu
    exact hsettled (h.aimed i j (hR i j hne hij) m (hold hm).2 u hu)
  · intro m m' hm n
    by_cases hn : n = k
    · subst hn
      rw [Function.update_self, hrest]
      exact inTurn_of_notMem List.not_mem_nil
    · rw [Function.update_of_ne hn]
      exact h.rest m m' (hearlier hm) n
  · intro m m' hm n hn
    obtain ⟨hne, hn⟩ := hrests hn
    obtain ⟨hqueue, hothers⟩ := h.taken m m' (hearlier hm) n hn
    rw [Function.update_of_ne hne]
    refine ⟨hqueue, fun n' hn' hsame hin => ?_⟩
    obtain ⟨hne', hin⟩ := hrests hin
    rw [Function.update_of_ne hne'] at hsame
    exact hothers n' hn' hsame hin

theorem bring (h : HandedInTurn R d hs) (hlast : ∀ j, ¬R k j)
    (hown : h'.own = insert d.next (hs k).own) (haims : h'.aims = (hs k).aims)
    (huser : h'.user = (hs k).user) (hrest : h'.rest = (hs k).rest) :
    HandedInTurn R { d with next := d.next + 1 } (Function.update hs k h') := by
  have hown {n m : Nat} (hm : m ∈ (Function.update hs k h' n).own) :
      m ∈ (hs n).own ∨ (n = k ∧ m = d.next) := by
    by_cases hn : n = k
    · subst hn
      rw [Function.update_self, hown] at hm
      exact hm.symm.imp_right fun heq => ⟨rfl, heq⟩
    · rw [Function.update_of_ne hn] at hm
      exact .inl hm
  have haims := update_field Hand.aims haims
  have huser := update_field Hand.user huser
  have hrest := update_field Hand.rest hrest
  -- the new item is behind all items of the tasks before, and nobody has it yet
  have hcases {m m' : Nat} (hm : Earlier R (Function.update hs k h') m m') :
      Earlier R hs m m' ∨ (m < d.next ∧ m' = d.next) := by
    obtain ⟨i, j, hij, hi, hj⟩ := hm
    have hi : m ∈ (hs i).own := (hown hi).resolve_right fun hk => hlast j (hk.1 ▸ hij)
    rcases hown hj with hj | ⟨-, rfl⟩
    · exact .inl ⟨i, j, hij, hi, hj⟩
    · exact .inr ⟨h.own_lt i m hi, rfl⟩
  have hsettled {m : Nat} {u : U} (hm : Settled d hs m u) :
      Settled { d with next := d.next + 1 } (Function.update hs k h') m u :=
    ⟨hm.queue, by simpa only [huser, hrest] using hm.rest⟩
  constructor
  case own_lt =>
    intro i m hm
    rcases hown hm with hm | ⟨-, rfl⟩
    · exact (h.own_lt i m hm).trans d.next.lt_succ_self
    · exact d.next.lt_succ_self
  case queue_lt => exact fun u m hm => (h.queue_lt u m hm).trans d.next.lt_succ_self
  case rest_lt =>
    intro i m hm
    rw [hrest] at hm
    exact (h.rest_lt i m hm).trans d.next.lt_succ_self
  case shown_lt => exact fun u m hm => (h.shown_lt u m hm).trans d.next.lt_succ_self
  case single =>
    intro i j m hi hj
    rcases hown hi with hoi | ⟨hik, rfl⟩ <;> rcases hown hj with hoj | ⟨hjk, hm⟩
    · exact h.single i j m hoi hoj
    · exact absurd hm (h.own_lt i m hoi).ne
    · exact absurd rfl (h.own_lt j _ hoj).ne
    · rw [hik, hjk]
  case rising =>
    intro m m' hm
    rcases hcases hm with hm | ⟨hlt, rfl⟩
    · exact h.rising m m' hm
    · exact hlt
  case aimed =>
    intro i j hij m hm u hu
    have hm : m ∈ (hs i).own := (hown hm).resolve_right fun hk => hlast j (hk.1 ▸ hij)
    rw [haims] at hu
    exact hsettled (h.aimed i j hij m hm u hu)
  case passed =>
    intro m m' hm u hu
    rcases hcases hm with hm | ⟨-, rfl⟩
    · exact hsettled (h.passed m m' hm u hu)
    · exact absurd rfl (h.shown_lt u _ hu).ne
  case shown =>
    intro m m' hm u
    rcases hcases hm with hm | ⟨-, rfl⟩
    · exact h.shown m m' hm u
    · exact inTurn_of_notMem fun hin => (h.shown_lt u _ hin).ne rfl
  case queue =>
    intro m m' hm u
    rcases hcases hm with hm | ⟨-, rfl⟩
    · exact h.queue m m' hm u
    · exact inTurn_of_notMem fun hin => (h.queue_lt u _ hin).ne rfl
  case rest =>
    intro m m' hm n
    rw [hrest]
    rcases hcases hm with hm | ⟨-, rfl⟩
    · exact h.rest m m' hm n
    · exact inTurn_of_notMem fun hin => (h.rest_lt n _ hin).ne rfl
  case taken =>
    intro m m' hm n hn
    rw [hrest] at hn
    simp only [huser, hrest]
    rcases hcases hm with hm | ⟨-, rfl⟩
    · exact h.taken m m' hm n hn
    · exact absurd rfl (h.rest_lt n _ hn).ne

theorem aim (h : HandedInTurn R d hs) (hqueue : d.queue u = [])
    (hfree : ∀ n, (hs n).user = u → (hs n).rest = []) (hown : h'.own = (hs k).own)
    (haims : h'.aims = insert u (hs k).aims) (huser : h'.user = (hs k).user)
    (hrest : h'.rest = (hs k).rest) : HandedInTurn R d (Function.update hs k h') := by
  have hsettled {m : Nat} {v : U} (hm : Settled d hs m v) :
      Settled d (Function.update hs k h') m v := hm.update huser (hrest ▸ List.Sublist.refl _)
  have hnothing (m : Nat) : Settled d hs m u :=
    ⟨by simp [hqueue], fun n hn => by simp [hfree n hn]⟩
  have howns := update_field Hand.own hown
  have huser := update_field Hand.user huser
  have hrest := update_field Hand.rest hrest
  refine ⟨by simpa only [howns] using h.own_lt, h.queue_lt, by simpa only [hrest] using h.rest_lt,
    h.shown_lt, by
      simpa only [howns] using h.single, by simpa only [earlier_update hown] using h.rising, ?_,
    fun m m' hm v hv => hsettled (h.passed m m' ((earlier_update hown).mp hm) v hv),
    by
      simpa only [earlier_update hown] using h.shown, by
        simpa only [earlier_update hown] using h.queue,
    by simpa only [earlier_update hown, hrest] using h.rest,
    by simpa only [earlier_update hown, hrest, huser] using h.taken⟩
  intro i j hij m hm v hv
  rw [howns] at hm
  by_cases hj : j = k
  · subst hj
    rw [Function.update_self, haims] at hv
    rcases hv with rfl | hv
    · exact hsettled (hnothing m)
    · exact hsettled (h.aimed i j hij m hm v hv)
  · rw [Function.update_of_ne hj] at hv
    exact hsettled (h.aimed i j hij m hm v hv)

variable [DecidableEq U]

theorem handOver (h : HandedInTurn R d hs) (hx : x < d.next)
    (hbefore : ∀ m, Earlier R hs m x → Settled d hs m u)
    (hbehind : ∀ m', Earlier R hs x m' → m' ∉ d.shown u) :
    HandedInTurn R { d with shown := Function.update d.shown u (d.shown u ++ [x]) } hs := by
  refine { h with shown_lt := ?_, aimed := ?_, passed := ?_, shown := ?_ }
  · intro v m hm
    rcases mem_update_concat hm with hm | ⟨-, rfl⟩
    · exact h.shown_lt v m hm
    · exact hx
  · intro i j hij m hm v hv
    obtain ⟨hqueue, hrest⟩ := h.aimed i j hij m hm v hv
    exact ⟨hqueue, hrest⟩
  · intro m m' hm v hv
    obtain ⟨hqueue, hrest⟩ : Settled d hs m v := by
      rcases mem_update_concat hv with hv | ⟨rfl, rfl⟩
      · exact h.passed m m' hm v hv
      · exact hbefore m hm
    exact ⟨hqueue, hrest⟩
  · intro m m' hm
    exact InTurn.update_concat (h.shown m m' hm) fun heq => hbehind m' (heq ▸ hm)

theorem push (h : HandedInTurn R d hs) (hlast : ∀ j, ¬R k j) (hx : x ∈ (hs k).own)
    (hu : u ∈ (hs k).aims) :
    HandedInTurn R { d with shown := Function.update d.shown u (d.shown u ++ [x]) } hs := by
  refine h.handOver (h.own_lt k x hx) ?_ ?_
  · rintro m ⟨i, j, hij, hi, hj⟩
    exact h.aimed i k (h.single j k x hj hx ▸ hij) m hi u hu
  · rintro m' ⟨i, j, hij, hi, -⟩
    exact absurd (h.single i k x hi hx ▸ hij) (hlast j)

theorem pushTaken (h : HandedInTurn R d hs) {xs : List Nat} (hx : (hs k).rest = x :: xs)
    (hu : (hs k).user = u) :
    HandedInTurn R { d with shown := Function.update d.shown u (d.shown u ++ [x]) } hs := by
  have hmem : x ∈ (hs k).rest := by simp [hx]
  refine h.handOver (h.rest_lt k x hmem) ?_ ?_
  · intro m hm
    obtain ⟨hqueue, hothers⟩ := h.taken m x hm k hmem
    rw [hu] at hqueue hothers
    refine ⟨hqueue, fun n hn => ?_⟩
    by_cases hnk : n = k
    · subst hnk
      have hturn := h.rest m x hm n
      rw [hx] at hturn ⊢
      exact List.not_mem_cons_of_ne_of_not_mem (h.rising m x hm).ne hturn.notMem
    · exact hothers n hnk hn
  · intro m' hm hin
    exact (h.passed x m' hm u hin).rest k hu hmem

theorem enqueue (h : HandedInTurn R d hs) (hlast : ∀ j, ¬R k j) (hx : x ∈ (hs k).own) :
    HandedInTurn R { d with queue := Function.update d.queue u (d.queue u ++ [x]) } hs := by
  have hne {m i j : Nat} (hij : R i j) (hi : m ∈ (hs i).own) : m ≠ x := by
    rintro rfl
    exact hlast j (h.single i k m hi hx ▸ hij)
  have habsent {v : U} {m i j : Nat} (hij : R i j) (hi : m ∈ (hs i).own) (hm : m ∉ d.queue v) :
      m ∉ Function.update d.queue u (d.queue u ++ [x]) v :=
    fun hin => (mem_update_concat hin).elim hm fun heq => hne hij hi heq.2
  have hsettled {v : U} {m i j : Nat} (hij : R i j) (hi : m ∈ (hs i).own) (hm : Settled d hs m v) :
      Settled { d with queue := Function.update d.queue u (d.queue u ++ [x]) } hs m v :=
    ⟨habsent hij hi hm.queue, hm.rest⟩
  refine { h with queue_lt := ?_, aimed := ?_, passed := ?_, queue := ?_, taken := ?_ }
  · intro v m hm
    rcases mem_update_concat hm with hm | ⟨-, rfl⟩
    · exact h.queue_lt v m hm
    · exact h.own_lt k m hx
  · exact fun i j hij m hm v hv => hsettled hij hm (h.aimed i j hij m hm v hv)
  · rintro m m' ⟨i, j, hij, hi, hj⟩ v hv
    exact hsettled hij hi (h.passed m m' ⟨i, j, hij, hi, hj⟩ v hv)
  · rintro m m' ⟨i, j, hij, hi, hj⟩
    exact InTurn.update_concat (h.queue m m' ⟨i, j, hij, hi, hj⟩) fun heq =>
      absurd heq.symm (hne hij hi)
  · rintro m m' ⟨i, j, hij, hi, hj⟩ n hn
    obtain ⟨hqueue, hothers⟩ := h.taken m m' ⟨i, j, hij, hi, hj⟩ n hn
    exact ⟨habsent hij hi hqueue, hothers⟩

theorem take (h : HandedInTurn R d hs) (hfree : ∀ n, (hs n).user = u → (hs n).rest = [])
    (hown : h'.own = (hs k).own) (haims : h'.aims = (hs k).aims) (huser : h'.user = u)
    (hrest : h'.rest.Sublist (d.queue u)) :
    HandedInTurn R { d with queue := Function.update d.queue u [] }
      (Function.update hs k h') := by
  have howns := update_field Hand.own hown
  have hqueue (v : U) : (Function.update d.queue u [] v).Sublist (d.queue v) := by
    by_cases hv : v = u <;> simp [hv]
  have hsettled {m : Nat} {v : U} (hm : Settled d hs m v) :
      Settled { d with queue := Function.update d.queue u [] } (Function.update hs k h') m v := by
    refine ⟨fun hin => hm.queue ((hqueue v).subset hin), fun n hn => ?_⟩
    by_cases hnk : n = k
    · subst hnk
      rw [Function.update_self] at hn ⊢
      obtain rfl : u = v := huser.symm.trans hn
      exact fun hin => hm.queue (hrest.subset hin)
    · rw [Function.update_of_ne hnk] at hn ⊢
      exact hm.rest n hn
  refine ⟨by simpa only [howns] using h.own_lt,
    fun v m hm => h.queue_lt v m ((hqueue v).subset hm), ?_, h.shown_lt,
    by simpa only [howns] using h.single, by simpa only [earlier_update hown] using h.rising, ?_,
    fun m m' hm v hv => hsettled (h.passed m m' ((earlier_update hown).mp hm) v hv),
    by simpa only [earlier_update hown] using h.shown,
    fun m m' hm v => (h.queue m m' ((earlier_update hown).mp hm) v).sublist (hqueue v), ?_, ?_⟩
  · intro n m hm
    by_cases hnk : n = k
    · subst hnk
      rw [Function.update_self] at hm
      exact h.queue_lt u m (hrest.subset hm)
    · rw [Function.update_of_ne hnk] at hm
      exact h.rest_lt n m hm
  · intro i j hij m hm v hv
    rw [howns] at hm
    rw [update_field Hand.aims haims] at hv
    exact hsettled (h.aimed i j hij m hm v hv)
  · intro m m' hm n
    rw [earlier_update hown] at hm
    by_cases hnk : n = k
    · subst hnk
      rw [Function.update_self]
      exact (h.queue m m' hm u).sublist hrest
    · rw [Function.update_of_ne hnk]
      exact h.rest m m' hm n
  · intro m m' hm n hn
    rw [earlier_update hown] at hm
    by_cases hnk : n = k
    · subst hnk
      rw [Function.update_self, huser]
      refine ⟨by simp, fun n' hne hsame hin => ?_⟩
      rw [Function.update_of_ne hne] at hsame hin
      simp [hfree n' hsame] at hin
    · rw [Function.update_of_ne hnk] at hn ⊢
      obtain ⟨hnot, hothers⟩ := h.taken m m' hm n hn
      refine ⟨fun hin => hnot ((hqueue _).subset hin), fun n' hne hsame hin => ?_⟩
      by_cases hnk' : n' = k
      · subst hnk'
        rw [Function.update_self, huser] at hsame
        simp [hfree n hsame.symm] at hn
      · rw [Function.update_of_ne hnk'] at hsame hin
        exact hothers n' hne hsame hin

end HandedInTurn

end ChatServer.Lib
