import Mathlib.Tactic.IntervalCases
import Mathlib.Tactic.Tauto
import ChatServer.Lib.Blocks
import ChatServer.Lib.Bytes

namespace ChatServer.Standard

open Lib

def base64Digit (n : Nat) : Char :=
  if n < 26 then Char.ofNat ('A'.toNat + n)
  else if n < 52 then Char.ofNat ('a'.toNat + (n - 26))
  else if n < 62 then Char.ofNat ('0'.toNat + (n - 52))
  else if n = 62 then '+'
  else '/'

/-- The bits of the bytes, filled up with zeros, six to a character, and the characters
filled up to a multiple of four. -/
def base64 (bytes : List UInt8) : List Char :=
  let bits := bytes.flatMap fun b => toBits 8 b.toNat
  let count := (bits.length + 5) / 6
  let filled := bits ++ List.replicate (6 * count - bits.length) false
  (Blocks.blocks 6 filled count).map (fun g => base64Digit (ofBits g)) ++
    List.replicate ((4 - count % 4) % 4) '='

end ChatServer.Standard

namespace ChatServer.util

open Lib

def kB64 : List Char := "ABCDEFGHIJKLMNOPQRSTUVWXYZabcdefghijklmnopqrstuvwxyz0123456789+/".toList

def sextet (v k : UInt32) : Char := kB64.getD ((v >>> k) &&& 0x3F).toNat 'A'

def base64Encode : List UInt8 → List Char
  | a :: b :: c :: rest =>
    let v := (a.toUInt32 <<< 16) ||| (b.toUInt32 <<< 8) ||| c.toUInt32
    sextet v 18 :: sextet v 12 :: sextet v 6 :: sextet v 0 :: base64Encode rest
  | [a, b] =>
    let v := (a.toUInt32 <<< 16) ||| (b.toUInt32 <<< 8)
    [sextet v 18, sextet v 12, sextet v 6, '=']
  | [a] =>
    let v := a.toUInt32 <<< 16
    [sextet v 18, sextet v 12, '=', '=']
  | [] => []

/-- The loop of `base64_decode`.  Old bits are shifted out of `v` but never cleared. -/
def decodeFrom (v : UInt32) (bits : Nat) (out : List UInt8) : List Char → List UInt8
  | [] => out
  | ch :: rest =>
    if ch = '=' ∨ ch = '\n' ∨ ch = '\r' ∨ ch = ' ' then decodeFrom v bits out rest
    else
      match kB64.idxOf? ch with
      | none => []
      | some t =>
        let v := (v <<< 6) ||| UInt32.ofNat t
        let bits := bits + 6
        if 8 ≤ bits then
          decodeFrom v (bits - 8) (out ++ [((v >>> UInt32.ofNat (bits - 8)) &&& 0xFF).toUInt8]) rest
        else decodeFrom v bits out rest

def base64Decode (s : List Char) : List UInt8 := decodeFrom 0 0 [] s

section Alphabet

theorem idxOf_kB64 : ∀ i < 64, kB64.idxOf? (kB64.getD i 'A') = some i := by decide +kernel

theorem getD_kB64_ne :
    ∀ i < 64, kB64.getD i 'A' ≠ '=' ∧ kB64.getD i 'A' ≠ '\n' ∧ kB64.getD i 'A' ≠ '\r' ∧
    kB64.getD i 'A' ≠ ' ' ∧ kB64.getD i 'A' ≠ '$' := by decide +kernel

theorem sextet_eq (v : UInt32) {k : Nat} (hk : k < 32) :
    sextet v (UInt32.ofNat k) = kB64.getD (v.toNat / 2 ^ k % 64) 'A' := by
  have hk' : k % 2 ^ 32 % 32 = k := by omega
  have hbits : ((v >>> UInt32.ofNat k) &&& 0x3F).toNat = v.toNat / 2 ^ k % 64 := by
    simp only [UInt32.toNat_and, UInt32.toNat_shiftRight, UInt32.toNat_ofNat', hk',
      Nat.shiftRight_eq_div_pow]
    exact Nat.and_two_pow_sub_one_eq_mod _ 6
  rw [sextet, hbits]

end Alphabet

section Decode

theorem toNat_shift_or (v : UInt32) {t : Nat} (ht : t < 64) :
    ((v <<< 6) ||| UInt32.ofNat t).toNat = (v.toNat * 64 + t) % 2 ^ 32 := by
  have hv : v.toNat <<< 6 % 2 ^ 32 = (v.toNat % 2 ^ 26) <<< 6 := by
    simp only [Nat.shiftLeft_eq]
    omega
  rw [UInt32.toNat_or, UInt32.toNat_shiftLeft, UInt32.toNat_ofNat',
    show (6 : UInt32).toNat % 32 = 6 from rfl, hv, Nat.mod_eq_of_lt (show t < 2 ^ 32 by omega),
      ← Nat.shiftLeft_add_eq_or_of_lt (show t < 2 ^ 6 by omega),
    Nat.shiftLeft_eq]
  omega

section Characters

variable (v : UInt32) (out : List UInt8) {t : Nat} (ht : t < 64) (rest : List Char)

include ht

theorem decodeFrom_first :
    decodeFrom v 0 out (kB64.getD t 'A' :: rest) = decodeFrom ((v <<< 6) ||| UInt32.ofNat t)
      6 out rest := by
  obtain ⟨h₁, h₂, h₃, h₄, -⟩ := getD_kB64_ne t ht
  rw [decodeFrom, if_neg (by tauto), idxOf_kB64 t ht]
  rfl

theorem decodeFrom_next {bits : Nat} (hle : bits ≤ 6) {b : UInt8}
    (hb : b.toNat = (v.toNat * 64 + t) / 2 ^ bits % 256) :
    decodeFrom v (bits + 2) out (kB64.getD t 'A' :: rest) =
      decodeFrom ((v <<< 6) ||| UInt32.ofNat t) bits (out ++ [b]) rest := by
  obtain ⟨h₁, h₂, h₃, h₄, -⟩ := getD_kB64_ne t ht
  have hbyte : ((((v <<< 6) ||| UInt32.ofNat t) >>> UInt32.ofNat bits) &&& 0xFF).toUInt8 = b := by
    rw [← UInt8.toNat_inj, toNat_byte _ (by omega), toNat_shift_or v ht, hb]
    interval_cases bits <;> omega
  rw [decodeFrom, if_neg (by tauto), idxOf_kB64 t ht]
  simp only [Nat.add_assoc, Nat.reduceAdd, Nat.add_sub_cancel, Nat.le_add_left, if_true, hbyte]

end Characters

theorem sextet_ofNat {n : Nat} (hn : n < 2 ^ 24) {k : Nat} (hk : k < 32) :
    sextet (UInt32.ofNat n) (UInt32.ofNat k) = kB64.getD (n / 2 ^ k % 64) 'A' := by
  rw [sextet_eq _ hk, UInt32.toNat_ofNat', Nat.mod_eq_of_lt (show n < 2 ^ 32 by omega)]

theorem base64Encode_group (a b c : UInt8) (rest : List UInt8) {n : Nat}
    (hn : n = a.toNat * 2 ^ 16 + b.toNat * 2 ^ 8 + c.toNat) :
    base64Encode (a :: b :: c :: rest) = kB64.getD (n / 2 ^ 18 % 64) 'A' :: kB64.getD
      (n / 2 ^ 12 % 64) 'A' ::
      kB64.getD (n / 2 ^ 6 % 64) 'A' :: kB64.getD (n / 2 ^ 0 % 64) 'A' :: base64Encode rest := by
  have ha := a.toNat_lt
  have hb := b.toNat_lt
  have hc := c.toNat_lt
  have hlt : n < 2 ^ 24 := by omega
  rw [base64Encode, or_three_bytes, ← hn]
  rw [← sextet_ofNat hlt (show 18 < 32 by decide), ← sextet_ofNat hlt (show 12 < 32 by decide),
    ← sextet_ofNat hlt (show 6 < 32 by decide), ← sextet_ofNat hlt (show 0 < 32 by decide)]
  rfl

theorem base64Encode_two (a b : UInt8) :
    base64Encode [a, b] = (base64Encode [a, b, 0]).take 3 ++ ['='] := by
  simp [base64Encode]

theorem base64Encode_one (a : UInt8) :
    base64Encode [a] = (base64Encode [a, 0, 0]).take 2 ++ ['=', '='] := by
  simp [base64Encode]

section Groups

variable (v : UInt32) (out : List UInt8) {a b c : UInt8} {n : Nat}
  (hn : n = a.toNat * 2 ^ 16 + b.toNat * 2 ^ 8 + c.toNat) (rest : List Char)

include hn

theorem decodeFrom_two : ∃ v', v'.toNat % 2 ^ 12 = n / 2 ^ 12 % 2 ^ 12 ∧
    decodeFrom v 0 out
      (kB64.getD (n / 2 ^ 18 % 64) 'A' :: kB64.getD (n / 2 ^ 12 % 64) 'A' :: rest) =
      decodeFrom v' 4 (out ++ [a]) rest := by
  have ha := a.toNat_lt
  have hb := b.toNat_lt
  have hc := c.toNat_lt
  have hsix (k : Nat) : n / 2 ^ k % 64 < 64 := Nat.mod_lt _ (by decide)
  have hfirst := toNat_shift_or v (hsix 18)
  rw [decodeFrom_first v out (hsix 18),
    decodeFrom_next (b := a) _ _ (hsix 12) _ (show 4 ≤ 6 by decide) (by rw [hfirst]; omega)]
  refine ⟨_, ?_, rfl⟩
  rw [toNat_shift_or _ (hsix 12), hfirst]
  omega

theorem decodeFrom_three : ∃ v', v'.toNat % 2 ^ 18 = n / 2 ^ 6 % 2 ^ 18 ∧
    decodeFrom v 0 out (kB64.getD (n / 2 ^ 18 % 64) 'A' :: kB64.getD (n / 2 ^ 12 % 64) 'A' ::
      kB64.getD (n / 2 ^ 6 % 64) 'A' :: rest) = decodeFrom v' 2 (out ++ [a, b]) rest := by
  have ha := a.toNat_lt
  have hb := b.toNat_lt
  have hc := c.toNat_lt
  have hsix : n / 2 ^ 6 % 64 < 64 := Nat.mod_lt _ (by decide)
  obtain ⟨v', hv', heq⟩ := decodeFrom_two v out hn (kB64.getD (n / 2 ^ 6 % 64) 'A' :: rest)
  rw [heq, decodeFrom_next (b := b) _ _ hsix _ (show 2 ≤ 6 by decide) (by omega), List.append_assoc]
  refine ⟨_, ?_, rfl⟩
  rw [toNat_shift_or _ hsix]
  omega

theorem decodeFrom_four : ∃ v', decodeFrom v 0 out (kB64.getD (n / 2 ^ 18 % 64) 'A' ::
    kB64.getD (n / 2 ^ 12 % 64) 'A' :: kB64.getD (n / 2 ^ 6 % 64) 'A' :: kB64.getD
      (n / 2 ^ 0 % 64) 'A' :: rest) =
      decodeFrom v' 0 (out ++ [a, b, c]) rest := by
  have hc := c.toNat_lt
  have hsix : n / 2 ^ 0 % 64 < 64 := Nat.mod_lt _ (by decide)
  obtain ⟨v', hv', heq⟩ := decodeFrom_three v out hn (kB64.getD (n / 2 ^ 0 % 64) 'A' :: rest)
  rw [heq, decodeFrom_next (b := c) _ _ hsix _ (show 0 ≤ 6 by decide) (by omega), List.append_assoc]
  exact ⟨_, rfl⟩

end Groups

theorem decodeFrom_pad (v : UInt32) (bits : Nat) (out : List UInt8) (rest : List Char) :
    decodeFrom v bits out ('=' :: rest) = decodeFrom v bits out rest := by
  rw [decodeFrom, if_pos (.inl rfl)]

def isBlank (ch : Char) : Bool := ch = '\n' ∨ ch = '\r' ∨ ch = ' '

theorem decodeFrom_filter (v : UInt32) (bits : Nat) (out : List UInt8) (s : List Char) :
    decodeFrom v bits out (s.filter fun ch => !isBlank ch) = decodeFrom v bits out s := by
  induction s generalizing v bits out with
  | nil => rfl
  | cons ch s ih =>
    cases hblank : isBlank ch with
    | true =>
      have hskip : ch = '=' ∨ ch = '\n' ∨ ch = '\r' ∨ ch = ' ' := .inr (of_decide_eq_true hblank)
      rw [List.filter_cons_of_neg (by simp [hblank]), decodeFrom, if_pos hskip, ih]
    | false =>
      rw [List.filter_cons_of_pos (by simp [hblank]), decodeFrom, decodeFrom]
      simp only [ih]

theorem decodeFrom_encode (bytes : List UInt8) (v : UInt32) (out : List UInt8) :
    decodeFrom v 0 out (base64Encode bytes) = out ++ bytes := by
  induction bytes using base64Encode.induct generalizing v out with
  | case1 a b c rest ih =>
    obtain ⟨v', heq⟩ := decodeFrom_four v out rfl (base64Encode rest)
    rw [base64Encode_group a b c rest rfl, heq, ih, List.append_assoc]
    rfl
  | case2 a b =>
    obtain ⟨v', -, heq⟩ := decodeFrom_three v out rfl ['=']
    rw [base64Encode_two, base64Encode_group a b 0 [] rfl]
    exact heq.trans (decodeFrom_pad ..)
  | case3 a =>
    obtain ⟨v', -, heq⟩ := decodeFrom_two v out rfl ['=', '=']
    rw [base64Encode_one, base64Encode_group a 0 0 [] rfl]
    exact heq.trans ((decodeFrom_pad ..).trans (decodeFrom_pad ..))
  | case4 => exact (List.append_nil out).symm

theorem base64Decode_encode (bytes : List UInt8) : base64Decode (base64Encode bytes) = bytes :=
  decodeFrom_encode bytes 0 []

end Decode

section Shape

open Standard

theorem getD_kB64 : ∀ i < 64, kB64.getD i 'A' = base64Digit i := by decide +kernel

def digits (k n : Nat) : List Char :=
  (Blocks.blocks 6 (toBits (6 * k) n) k).map fun g => base64Digit (ofBits g)

theorem digits_succ (k n : Nat) :
    digits (k + 1) n = digits k (n / 2 ^ 6) ++ [kB64.getD (n % 64) 'A'] := by
  rw [digits, digits, Nat.mul_succ, toBits_add, Blocks.blocks_append _ 1 (length_toBits ..),
    Blocks.blocks_one (length_toBits ..), List.map_append, List.map_singleton, ofBits_toBits,
    getD_kB64 _ (Nat.mod_lt _ (by decide))]
  rfl

theorem length_bits (bytes : List UInt8) :
    (bytes.flatMap fun b => toBits 8 b.toNat).length = 8 * bytes.length := by
  simp [List.length_flatMap, Nat.mul_comm]

theorem length_digits (k n : Nat) : (digits k n).length = k := by simp [digits, Blocks.blocks]

theorem encode_group (a b c : UInt8) (rest : List UInt8) :
    base64Encode (a :: b :: c :: rest) =
      digits 4 ((a.toNat * 2 ^ 8 + b.toNat) * 2 ^ 8 + c.toNat) ++ base64Encode rest := by
  rw [base64Encode_group a b c rest (show (a.toNat * 2 ^ 8 + b.toNat) * 2 ^ 8 + c.toNat = _ by
    omega)]
  simp only [digits_succ, Nat.div_div_eq_div_mul, ← Nat.pow_add, Nat.reduceAdd,
    Nat.pow_zero, Nat.div_one]
  rfl

theorem encode_two (a b : UInt8) :
    base64Encode [a, b] = digits 3 ((a.toNat * 2 ^ 8 + b.toNat) * 2 ^ 2) ++ ['='] := by
  have hfour : (a.toNat * 2 ^ 8 + b.toNat) * 2 ^ 8 / 2 ^ 6 =
    (a.toNat * 2 ^ 8 + b.toNat) * 2 ^ 2 := by omega
  rw [base64Encode_two, encode_group, UInt8.toNat_zero, Nat.add_zero, digits_succ, hfour,
    List.append_assoc, List.take_left' (length_digits ..)]

theorem encode_one (a : UInt8) : base64Encode [a] = digits 2 (a.toNat * 2 ^ 4) ++ ['=', '='] := by
  have hfour : a.toNat * 2 ^ 8 * 2 ^ 8 / 2 ^ 6 / 2 ^ 6 = a.toNat * 2 ^ 4 := by omega
  rw [base64Encode_one, encode_group, UInt8.toNat_zero, Nat.add_zero, Nat.add_zero, digits_succ,
    digits_succ, hfour, List.append_assoc, List.append_assoc, List.take_left' (length_digits ..)]

theorem base64_group (a b c : UInt8) (rest : List UInt8) :
    base64 (a :: b :: c :: rest) =
      digits 4 ((a.toNat * 2 ^ 8 + b.toNat) * 2 ^ 8 + c.toNat) ++ base64 rest := by
  have hbits : (a :: b :: c :: rest).flatMap (fun b => toBits 8 b.toNat) =
      toBits 24 ((a.toNat * 2 ^ 8 + b.toNat) * 2 ^ 8 + c.toNat) ++ rest.flatMap fun b =>
        toBits 8 b.toNat := by
    rw [toBits_byte 16, toBits_byte 8]
    simp
  have hfour (n : Nat) : (toBits 24 n).length = 6 * 4 := length_toBits ..
  have hcount : (24 + 8 * rest.length + 5) / 6 = 4 + (8 * rest.length + 5) / 6 := by omega
  have hfill : 6 * (4 + (8 * rest.length + 5) / 6) - (24 + 8 * rest.length) =
      6 * ((8 * rest.length + 5) / 6) - 8 * rest.length := by omega
  have hpad (count : Nat) : (4 - (4 + count) % 4) % 4 = (4 - count % 4) % 4 := by omega
  simp only [base64, hbits, List.length_append, length_toBits, length_bits, hcount, hfill, hpad,
    List.append_assoc]
  rw [Blocks.blocks_append _ _ (hfour _), List.map_append, List.append_assoc]
  rfl

theorem base64_two (a b : UInt8) :
    base64 [a, b] = digits 3 ((a.toNat * 2 ^ 8 + b.toNat) * 2 ^ 2) ++ ['='] := by
  have hbits : [a, b].flatMap (fun b => toBits 8 b.toNat) =
      toBits 16 (a.toNat * 2 ^ 8 + b.toNat) := by
    rw [toBits_byte 8]
    simp
  simp only [base64, hbits, length_toBits]
  rw [toBits_shift]
  rfl

theorem base64_one (a : UInt8) : base64 [a] = digits 2 (a.toNat * 2 ^ 4) ++ ['=', '='] := by
  have hbits : [a].flatMap (fun b => toBits 8 b.toNat) = toBits 8 a.toNat :=
    List.flatMap_singleton ..
  simp only [base64, hbits, length_toBits]
  rw [toBits_shift]
  rfl

theorem base64Encode_eq (bytes : List UInt8) : base64Encode bytes = base64 bytes := by
  induction bytes using base64Encode.induct with
  | case1 a b c rest ih => rw [encode_group, base64_group, ih]
  | case2 a b => rw [encode_two, base64_two]
  | case3 a => rw [encode_one, base64_one]
  | case4 => rfl

theorem length_base64Encode (bytes : List UInt8) :
    (base64Encode bytes).length = 4 * ((bytes.length + 2) / 3) := by
  induction bytes using base64Encode.induct with
  | case1 a b c rest ih =>
    rw [encode_group, List.length_append, length_digits, ih]
    simp only [List.length_cons]
    omega
  | case2 a b => simp [encode_two, length_digits]
  | case3 a => simp [encode_one, length_digits]
  | case4 => rfl

theorem dollar_notMem_digits (k n : Nat) : '$' ∉ digits k n := by
  induction k generalizing n with
  | zero => exact List.not_mem_nil
  | succ k ih =>
    have hlast : '$' ≠ kB64.getD (n % 64) 'A' :=
      (getD_kB64_ne _ (Nat.mod_lt _ (by decide))).2.2.2.2.symm
    rw [digits_succ, List.mem_append, List.mem_singleton, not_or]
    exact ⟨ih _, hlast⟩

theorem dollar_notMem_encode (bytes : List UInt8) : '$' ∉ base64Encode bytes := by
  induction bytes using base64Encode.induct with
  | case1 a b c rest ih => simp [encode_group, dollar_notMem_digits, ih]
  | case2 a b => simp [encode_two, dollar_notMem_digits]
  | case3 a => simp [encode_one, dollar_notMem_digits]
  | case4 => exact List.not_mem_nil

end Shape

theorem base64_canonical (bytes : List UInt8) :
    base64Decode (base64Encode bytes) = bytes ∧ base64Encode bytes = Standard.base64 bytes ∧
      (base64Encode bytes).length = 4 * ((bytes.length + 2) / 3) ∧ '$' ∉ base64Encode bytes ∧
      ∀ s : List Char, s.filter (fun ch => !isBlank ch) = base64Encode bytes →
        base64Decode s = base64Decode (base64Encode bytes) := by
  refine ⟨base64Decode_encode bytes, base64Encode_eq bytes, length_base64Encode bytes,
    dollar_notMem_encode bytes, ?_⟩
  intro s hs
  rw [← hs]
  exact (decodeFrom_filter 0 0 [] s).symm

end ChatServer.util
