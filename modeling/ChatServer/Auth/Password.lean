import Mathlib.Data.List.TakeWhile
import ChatServer.Auth.Pbkdf2
import ChatServer.Common.Base64
import ChatServer.Common.Decimal

namespace ChatServer.auth

open Lib util

def readDigits (negative : Bool) (s : List Char) : Option Nat :=
  let digits := s.takeWhile Char.isDigit
  let v := Nat.ofDigitChars 10 digits 0
  if digits = [] ∨ 2 ^ 64 ≤ v then none else some (if negative then (2 ^ 64 - v) % 2 ^ 64 else v)

/-- `std::stoul` in base ten; `none` where it throws. -/
def stoul (s : List Char) : Option Nat :=
  match s.dropWhile isSpace with
  | '-' :: s => readDigits true s
  | '+' :: s => readDigits false s
  | s => readDigits false s

def find (s : List Char) (ch : Char) (pos : Nat) : Option Nat :=
  if ch ∈ s.drop pos then some (pos + (s.drop pos).idxOf ch) else none

def makePasswordHash (password : List UInt8) (iter : UInt32) (salt : List UInt8) : List Char :=
  let dk := pbkdf2HmacSha256 password salt iter 32
  Nat.toDigits 10 iter.toNat ++ ['$'] ++ base64Encode salt ++ ['$'] ++ base64Encode dk

def verifyPasswordHash (password : List UInt8) (stored : List Char) : Bool :=
  match find stored '$' 0 with
  | none => false
  | some p1 =>
    match find stored '$' (p1 + 1) with
    | none => false
    | some p2 =>
      match stoul (stored.take p1) with
      | none => false
      | some iter =>
        let salt := base64Decode ((stored.drop (p1 + 1)).take (p2 - p1 - 1))
        let want := base64Decode (stored.drop (p2 + 1))
        if salt = [] ∨ want = [] then false
        else
          let got := pbkdf2HmacSha256 password salt (UInt32.ofNat iter) want.length
          if got.length ≠ want.length then false
          else (List.zipWith (· ^^^ ·) got want).foldl (· ||| ·) 0 = 0

section Text

variable {s : List Char} {ch : Char}

theorem find_append {pos : Nat} {front back : List Char} (hs : s.drop pos = front ++ ch :: back)
    (hfront : ch ∉ front) : find s ch pos = some (pos + front.length) := by
  rw [find, hs, if_pos (by simp), List.idxOf_append_of_notMem hfront,
    List.idxOf_cons_self, Nat.add_zero]

theorem stoul_toDigits {n : Nat} (hn : n < 2 ^ 64) : stoul (Nat.toDigits 10 n) = some n := by
  have hdigit : ∀ ch ∈ Nat.toDigits 10 n, ch.isDigit = true := fun ch h =>
    Nat.isDigit_of_mem_toDigits (by decide) (by decide) h
  have hvalue : Nat.ofDigitChars 10 (Nat.toDigits 10 n) 0 = n := Nat.ofDigitChars_ten_toDigits
  cases hds : Nat.toDigits 10 n with
  | nil => exact absurd hds Nat.toDigits_ne_nil
  | cons d ds =>
    rw [hds] at hdigit hvalue
    have hd := hdigit d (List.mem_cons_self ..)
    have hspace := isSpace_of_isDigit hd
    have hread : readDigits false (d :: ds) = some n := by
      simp only [readDigits, List.takeWhile_eq_self_iff.mpr hdigit, hvalue]
      rw [if_neg (by simp; omega)]
      rfl
    rw [stoul, List.dropWhile_cons_of_neg (by simp [hspace])]
    split
    · rename_i heq
      cases heq
      exact absurd hd (by decide)
    · rename_i heq
      cases heq
      exact absurd hd (by decide)
    · exact hread

end Text

section Compare

variable {x y : List UInt8}

theorem foldl_or_eq_zero (acc : UInt8) (xs : List UInt8) :
    xs.foldl (· ||| ·) acc = 0 ↔ acc = 0 ∧ ∀ b ∈ xs, b = 0 := by
  induction xs generalizing acc with
  | nil => simp
  | cons b xs ih => simp [ih, UInt8.or_eq_zero_iff, and_assoc]

theorem difference_eq_zero (h : x.length = y.length) :
    (List.zipWith (· ^^^ ·) x y).foldl (· ||| ·) 0 = 0 ↔ x = y := by
  rw [foldl_or_eq_zero, and_iff_right rfl]
  induction x generalizing y with
  | nil =>
    obtain rfl := List.length_eq_zero_iff.mp h.symm
    simp
  | cons a x ih =>
    cases y with
    | nil => cases h
    | cons b y =>
      have ih := ih (Nat.succ.inj h)
      simp [ih]

end Compare

theorem verify_record (q : List UInt8) (iter : UInt32) {salt key : List UInt8} (hsalt : salt ≠ [])
    (hkey : key ≠ []) :
    verifyPasswordHash q (Nat.toDigits 10 iter.toNat ++ ['$'] ++ base64Encode salt ++ ['$'] ++
      base64Encode key) = true ↔
      pbkdf2HmacSha256 q salt iter key.length = key := by
  have hiter := iter.toNat_lt
  generalize hD : Nat.toDigits 10 iter.toNat = D
  generalize hstored : D ++ ['$'] ++ base64Encode salt ++ ['$'] ++ base64Encode key = stored
  have hdollar : '$' ∉ D := by
    rw [← hD]
    intro h
    have hdigit := Nat.isDigit_of_mem_toDigits (by decide) (by decide) h
    exact absurd hdigit (by decide)
  have hfront : stored = D ++ '$' :: (base64Encode salt ++ '$' :: base64Encode key) := by
    rw [← hstored]
    simp
  have hback : stored.drop (D.length + 1) = base64Encode salt ++ '$' :: base64Encode key := by
    rw [hfront, ← List.drop_drop, List.drop_left]
    rfl
  have hend : stored.drop (D.length + 1 + (base64Encode salt).length + 1) = base64Encode key := by
    rw [Nat.add_assoc (D.length + 1), ← List.drop_drop, hback, ← List.drop_drop, List.drop_left]
    rfl
  have hp1 : find stored '$' 0 = some D.length := by
    rw [find_append (List.drop_zero.trans hfront) hdollar, Nat.zero_add]
  have hp2 : find stored '$' (D.length + 1) = some (D.length + 1 + (base64Encode salt).length) :=
    find_append hback (dollar_notMem_encode salt)
  have hnumber : stoul (stored.take D.length) = some iter.toNat := by
    rw [hfront, List.take_left, ← hD, stoul_toDigits (by omega)]
  have hmiddle : (stored.drop (D.length + 1)).take
    (D.length + 1 + (base64Encode salt).length - D.length - 1) =
      base64Encode salt := by
    rw [hback, Nat.sub_sub, Nat.add_sub_cancel_left, List.take_left]
  simp only [verifyPasswordHash, hp1, hp2, hnumber, hmiddle, hend, base64Decode_encode, hsalt, hkey,
    or_self, if_false, length_pbkdf2HmacSha256, UInt32.ofNat_toNat, ne_eq, not_true_eq_false,
      decide_eq_true_eq]
  exact difference_eq_zero (length_pbkdf2HmacSha256 ..)

theorem record_verifies (p q : List UInt8) (iter : UInt32) (salt : Vector UInt8 16) :
    (verifyPasswordHash q (makePasswordHash p iter salt.toList) = true ↔
      Standard.pbkdf2 q salt.toList iter.toNat 32 = Standard.pbkdf2 p salt.toList iter.toNat 32) ∧
      verifyPasswordHash p (makePasswordHash p iter salt.toList) = true := by
  have hsalt : salt.toList ≠ [] := by
    rw [← List.length_pos_iff, Vector.length_toList]
    decide
  have hlen := length_pbkdf2HmacSha256 p salt.toList iter 32
  have hkey : pbkdf2HmacSha256 p salt.toList iter 32 ≠ [] := by
    rw [← List.length_pos_iff, hlen]
    decide
  have hverify (q : List UInt8) := verify_record q iter hsalt hkey
  rw [hlen] at hverify
  have hstandard (q : List UInt8) :=
    pbkdf2HmacSha256_eq q salt.toList iter (show 32 ≤ (2 ^ 32 - 1) * 32 by decide)
  refine ⟨?_, (hverify p).mpr rfl⟩
  rw [← hstandard q, ← hstandard p]
  exact hverify q

end ChatServer.auth
