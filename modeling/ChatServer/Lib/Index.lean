import Mathlib.Data.List.AList

namespace ChatServer.Lib

variable {α ν : Type} [DecidableEq ν]

/-- The table and the index are inverse to each other, and the ids lie between 1 and the
counter. -/
structure Indexed (idOf : α → Nat) (nameOf : α → ν) (next : Nat) (rows : AList fun _ : Nat => α)
    (index : AList fun _ : ν => Nat) : Prop where
  pos : 1 ≤ next
  row : ∀ id a, rows.lookup id = some a → idOf a = id ∧ 1 ≤ id ∧ id < next
  indexed : ∀ id a, rows.lookup id = some a → index.lookup (nameOf a) = some id
  named : ∀ n id, index.lookup n = some id → ∃ a, rows.lookup id = some a ∧ nameOf a = n

namespace Indexed

variable {idOf : α → Nat} {nameOf : α → ν} {next : Nat} {rows : AList fun _ : Nat => α}
  {index : AList fun _ : ν => Nat}

theorem empty : Indexed idOf nameOf 1 ∅ ∅ where
  pos := Nat.le_refl 1
  row _ _ h := by simp at h
  indexed _ _ h := by simp at h
  named _ _ h := by simp at h

theorem insert (h : Indexed idOf nameOf next rows index) {a : α} (hid : idOf a = next)
    (hname : index.lookup (nameOf a) = none) :
    Indexed idOf nameOf (next + 1) (rows.insert next a) (index.insert (nameOf a) next) where
  pos := Nat.le_add_left ..
  row id b hb := by
    by_cases heq : id = next
    · subst heq
      rw [AList.lookup_insert, Option.some.injEq] at hb
      subst hb
      exact ⟨hid, h.pos, Nat.lt_succ_self _⟩
    · rw [AList.lookup_insert_ne heq] at hb
      obtain ⟨hrow, hpos, hlt⟩ := h.row id b hb
      exact ⟨hrow, hpos, Nat.lt_succ_of_lt hlt⟩
  indexed id b hb := by
    by_cases heq : id = next
    · subst heq
      rw [AList.lookup_insert, Option.some.injEq] at hb
      subst hb
      exact AList.lookup_insert _
    · rw [AList.lookup_insert_ne heq] at hb
      have hindexed := h.indexed id b hb
      rwa [AList.lookup_insert_ne]
      intro hsame
      rw [hsame, hname] at hindexed
      cases hindexed
  named n id hn := by
    by_cases heq : n = nameOf a
    · subst heq
      rw [AList.lookup_insert, Option.some.injEq] at hn
      subst hn
      exact ⟨a, AList.lookup_insert _, rfl⟩
    · rw [AList.lookup_insert_ne heq] at hn
      obtain ⟨b, hb, hbn⟩ := h.named n id hn
      refine ⟨b, ?_, hbn⟩
      rwa [AList.lookup_insert_ne (Nat.ne_of_lt (h.row id b hb).2.2)]

theorem update (h : Indexed idOf nameOf next rows index) {id : Nat} {a b : α}
    (ha : rows.lookup id = some a) (hid : idOf b = idOf a) (hname : nameOf b = nameOf a) :
    Indexed idOf nameOf next (rows.insert id b) index where
  pos := h.pos
  row i c hc := by
    by_cases heq : i = id
    · subst heq
      rw [AList.lookup_insert, Option.some.injEq] at hc
      subst hc
      rw [hid]
      exact h.row i a ha
    · rw [AList.lookup_insert_ne heq] at hc
      exact h.row i c hc
  indexed i c hc := by
    by_cases heq : i = id
    · subst heq
      rw [AList.lookup_insert, Option.some.injEq] at hc
      subst hc
      rw [hname]
      exact h.indexed i a ha
    · rw [AList.lookup_insert_ne heq] at hc
      exact h.indexed i c hc
  named n i hn := by
    obtain ⟨c, hc, hcn⟩ := h.named n i hn
    by_cases heq : i = id
    · subst heq
      obtain rfl : c = a := Option.some.inj (hc.symm.trans ha)
      exact ⟨b, AList.lookup_insert _, hname.trans hcn⟩
    · exact ⟨c, by rwa [AList.lookup_insert_ne heq], hcn⟩

end Indexed

end ChatServer.Lib
