import Mathlib.Data.List.Induction
import Mathlib.Data.List.TakeWhile
import Mathlib.Tactic.Ring
import ChatServer.Protocol.Messages

namespace ChatServer

def stoi (s : String) : Option Int := (stoll s).filter fun v => -2 ^ 31 ≤ v ∧ v < 2 ^ 31

theorem digitsValue_toDigits (n : Nat) : digitsValue (Nat.toDigits 10 n) = n := by
  have hfold : ∀ (cs : List Char) (k : Nat),
      cs.foldl (fun n c => n * 10 + (c.toNat - '0'.toNat)) k = Nat.ofDigitChars 10 cs k := by
    intro cs
    induction cs with
    | nil => exact fun k => rfl
    | cons ch cs ih =>
        exact fun k => by rw [List.foldl_cons, ih, Nat.ofDigitChars_cons, Nat.mul_comm]
  rw [digitsValue, hfold, Nat.ofDigitChars_ten_toDigits]

theorem digitsValue_append (a b : List Char) :
    digitsValue (a ++ b) = digitsValue a * 10 ^ b.length + digitsValue b := by
  induction b using List.reverseRecOn with
  | nil => simp [digitsValue]
  | append_singleton b ch ih =>
    have hsnoc : ∀ cs, digitsValue (cs ++ [ch]) = digitsValue cs * 10 + (ch.toNat - '0'.toNat) :=
      fun cs => by
      rw [digitsValue, List.foldl_append]
      rfl
    rw [← List.append_assoc, hsnoc, ih, hsnoc, List.length_append,
      List.length_singleton, Nat.pow_succ]
    ring

theorem isDigit_of_mem_toDigits {n : Nat} {ch : Char} (h : ch ∈ Nat.toDigits 10 n) :
    ch.isDigit = true :=
  Nat.isDigit_of_mem_toDigits (by decide) (by decide) h

theorem isSpace_of_isDigit {ch : Char} (h : ch.isDigit = true) : isSpace ch = false := by
  by_contra hspace
  rw [Bool.not_eq_false, isSpace] at hspace
  simp only [Bool.or_eq_true, decide_eq_true_eq] at hspace
  obtain ⟨hlow, -⟩ : 48 ≤ ch.toNat ∧ ch.toNat ≤ 57 := by
    simpa [Char.isDigit, UInt32.le_iff_toNat_le] using h
  obtain ((((rfl | rfl) | rfl) | rfl) | hn) | hn :=
    hspace <;> first | omega | exact absurd hlow (by decide)

theorem stoll_toDigits_append (n : Nat) (rest : List Char)
    (hrest : ∀ ch ∈ rest.head?, ch.isDigit = false) :
    stoll (String.ofList (Nat.toDigits 10 n ++ rest)) = if n < 2 ^ 63 then some (n : Int)
      else none := by
  have hdigits : (Nat.toDigits 10 n ++ rest).takeWhile Char.isDigit = Nat.toDigits 10 n := by
    rw [List.takeWhile_append_of_pos fun ch => isDigit_of_mem_toDigits]
    cases rest with
    | nil => simp
    | cons ch rest => simp [hrest ch rfl]
  have hvalue := digitsValue_toDigits n
  cases hds : Nat.toDigits 10 n with
  | nil => exact absurd hds Nat.toDigits_ne_nil
  | cons d ds =>
    have hd : d.isDigit = true := isDigit_of_mem_toDigits (hds ▸ List.mem_cons_self)
    rw [hds] at hdigits hvalue
    have hdrop : (d :: ds ++ rest).dropWhile isSpace = d :: ds ++ rest :=
      List.dropWhile_cons_of_neg (by simp [isSpace_of_isDigit hd])
    simp only [stoll, String.toList_ofList, hdrop]
    split
    · rename_i heq
      cases heq
      exact absurd hd (by decide)
    · rename_i heq
      cases heq
      exact absurd hd (by decide)
    · simp only [hdigits, hvalue, List.isEmpty_cons, Bool.false_eq_true, if_false]
      by_cases hn : n < 2 ^ 63
      · rw [if_pos hn, if_neg (by omega)]
      · rw [if_neg hn, if_pos (by omega)]

theorem stoll_toDigits (n : Nat) :
    stoll (String.ofList (Nat.toDigits 10 n)) = if n < 2 ^ 63 then some (n : Int) else none := by
  simpa using stoll_toDigits_append n [] (by simp)

end ChatServer
