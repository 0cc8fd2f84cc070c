import Mathlib.Data.List.DropRight
import Mathlib.Data.List.TakeWhile

namespace ChatServer.Lib

variable {α : Type} {p : α → Bool} {a b s : List α} {x : α}

def trimBoth (p : α → Bool) (s : List α) : List α := (s.dropWhile p).rdropWhile p

def Trimmed (p : α → Bool) (s : List α) : Prop :=
  (∀ x ∈ s.head?, p x = false) ∧ ∀ x ∈ s.getLast?, p x = false

theorem dropWhile_append_cons (hx : p x = false) (a b : List α) :
    (a ++ x :: b).dropWhile p = a.dropWhile p ++ x :: b := by
  induction a with
  | nil => simp [hx]
  | cons y a ih => cases hy : p y <;> simp [hy, ih]

theorem rdropWhile_append_cons (hx : p x = false) (a b : List α) :
    (a ++ x :: b).rdropWhile p = a ++ x :: b.rdropWhile p := by
  rw [List.rdropWhile, List.reverse_append, List.reverse_cons, List.append_assoc,
    List.singleton_append, dropWhile_append_cons hx, List.reverse_append, List.reverse_cons,
      List.reverse_reverse, List.append_assoc]
  rfl

theorem trimBoth_append_cons (hx : p x = false) (a b : List α) :
    trimBoth p (a ++ x :: b) = a.dropWhile p ++ x :: b.rdropWhile p := by
  rw [trimBoth, dropWhile_append_cons hx, rdropWhile_append_cons hx]

theorem trimBoth_eq_nil : trimBoth p s = [] ↔ ∀ x ∈ s, p x = true := by
  rw [trimBoth, List.rdropWhile_eq_nil_iff]
  constructor
  · intro h x hx
    rw [← List.takeWhile_append_dropWhile (p := p) (l := s), List.mem_append] at hx
    exact hx.elim List.mem_takeWhile_imp (h x)
  · exact fun h x hx => h x ((List.dropWhile_suffix p).subset hx)

theorem trimBoth_append_left (ha : ∀ x ∈ a, p x = true) : trimBoth p (a ++ s) = trimBoth p s := by
  rw [trimBoth, List.dropWhile_append_of_pos ha]
  rfl

theorem trimBoth_append_right (hb : ∀ x ∈ b, p x = true) : trimBoth p (s ++ b) = trimBoth p s := by
  by_cases hs : ∀ x ∈ s, p x = true
  · rw [trimBoth_append_left hs, trimBoth_eq_nil.mpr hb, trimBoth_eq_nil.mpr hs]
  · push Not at hs
    obtain ⟨x, hx, hpx⟩ := hs
    obtain ⟨l, r, rfl⟩ := List.append_of_mem hx
    have hpx : p x = false := by simpa using hpx
    have hback : (r ++ b).rdropWhile p = r.rdropWhile p := by
      rw [List.rdropWhile, List.reverse_append, List.dropWhile_append_of_pos (by simpa using hb)]
      rfl
    rw [List.append_assoc, List.cons_append, trimBoth_append_cons hpx,
      trimBoth_append_cons hpx, hback]

theorem Trimmed.trimBoth_eq (h : Trimmed p s) : trimBoth p s = s := by
  have hfront : s.dropWhile p = s := by
    cases s with
    | nil => rfl
    | cons x s => exact List.dropWhile_cons_of_neg (by simp [h.1 x rfl])
  rw [trimBoth, hfront, List.rdropWhile_eq_self_iff]
  intro hne
  simp [h.2 _ (List.getLast?_eq_getLast_of_ne_nil hne)]

theorem Trimmed.trimBoth_between (h : Trimmed p s) (ha : ∀ x ∈ a, p x = true)
    (hb : ∀ x ∈ b, p x = true) : trimBoth p (a ++ s ++ b) = s := by
  rw [trimBoth_append_right hb, trimBoth_append_left ha, h.trimBoth_eq]

theorem trimBoth_dropWhile (s : List α) : trimBoth p (s.dropWhile p) = trimBoth p s := by
  rw [trimBoth, List.dropWhile_idempotent]
  rfl

theorem trimBoth_rdropWhile (s : List α) : trimBoth p (s.rdropWhile p) = trimBoth p s := by
  have hblank : ∀ x ∈ s.rtakeWhile p, p x = true := fun _ => List.mem_rtakeWhile_imp
  calc trimBoth p (s.rdropWhile p) = trimBoth p (s.rdropWhile p ++ s.rtakeWhile p) :=
        (trimBoth_append_right hblank).symm
    _ = trimBoth p s := by rw [List.rdropWhile_append_rtakeWhile]

theorem idxOf?_append_cons [BEq α] [LawfulBEq α] (ha : x ∉ a) (b : List α) :
    (a ++ x :: b).idxOf? x = some a.length := by
  induction a with
  | nil => simp [List.idxOf?_cons]
  | cons y a ih =>
    rw [List.mem_cons, not_or] at ha
    simp [List.idxOf?_cons, Ne.symm ha.1, ih ha.2]

end ChatServer.Lib
