import Mathlib.Algebra.Ring.Nat
import Mathlib.Data.Nat.NthRoot.Defs
import ChatServer.Lib.Blocks

/-! What the hashing code has to compute, on byte strings: SHA-256 of
RFC 6234, HMAC of RFC 2104 over it, and PBKDF2 of RFC 8018 over that. -/

namespace ChatServer.Standard

open Lib

section Functions

variable (x y z : UInt32)

def rotr (n : Nat) : UInt32 := ⟨x.toBitVec.rotateRight n⟩

def shr (n : Nat) : UInt32 := ⟨x.toBitVec >>> n⟩

def ch : UInt32 := (x &&& y) ^^^ (~~~x &&& z)

def maj : UInt32 := (x &&& y) ^^^ (x &&& z) ^^^ (y &&& z)

def bigSigma0 : UInt32 := rotr x 2 ^^^ rotr x 13 ^^^ rotr x 22

def bigSigma1 : UInt32 := rotr x 6 ^^^ rotr x 11 ^^^ rotr x 25

def smallSigma0 : UInt32 := rotr x 7 ^^^ rotr x 18 ^^^ shr x 3

def smallSigma1 : UInt32 := rotr x 17 ^^^ rotr x 19 ^^^ shr x 10

end Functions

def primes : List Nat :=
  [2, 3, 5, 7, 11, 13, 17, 19, 23, 29, 31, 37, 41, 43, 47, 53, 59, 61, 67, 71, 73, 79, 83, 89, 97,
    101, 103, 107, 109, 113, 127, 131, 137, 139, 149, 151, 157, 163, 167, 173, 179, 181, 191, 193,
      197, 199, 211, 223, 227, 229, 233, 239,
    241, 251, 257, 263, 269, 271, 277, 281, 283, 293, 307, 311]

def fracRoot (k p : Nat) : UInt32 := UInt32.ofNat (Nat.nthRoot k (p * 2 ^ (32 * k)))

/-- The constants of the rounds come from the cube roots of the first 64 primes. -/
def constant (t : Nat) : UInt32 := (primes.map (fracRoot 3)).getD t 0

@[ext] structure Words where
  a : UInt32
  b : UInt32
  c : UInt32
  d : UInt32
  e : UInt32
  f : UInt32
  g : UInt32
  h : UInt32
  deriving DecidableEq

def initial : Words :=
  ⟨fracRoot 2 2, fracRoot 2 3, fracRoot 2 5, fracRoot 2 7, fracRoot 2 11, fracRoot 2 13,
    fracRoot 2 17, fracRoot 2 19⟩

def word (bytes : List UInt8) (i : Nat) : UInt32 :=
  UInt32.ofNat ((bytes.getD i 0).toNat * 2 ^ 24 + (bytes.getD (i + 1) 0).toNat * 2 ^ 16 +
    (bytes.getD (i + 2) 0).toNat * 2 ^ 8 + (bytes.getD (i + 3) 0).toNat)

def bigEndian (n x : Nat) : List UInt8 :=
  (List.range n).map fun i => UInt8.ofNat (x / 256 ^ (n - 1 - i))

def schedule (block : List UInt8) (t : Nat) : UInt32 :=
  if t < 16 then word block (4 * t)
  else
    smallSigma1 (schedule block (t - 2)) + schedule block (t - 7) + smallSigma0
      (schedule block (t - 15)) +
      schedule block (t - 16)

def round (block : List UInt8) (v : Words) (t : Nat) : Words :=
  let t1 := v.h + bigSigma1 v.e + ch v.e v.f v.g + constant t + schedule block t
  let t2 := bigSigma0 v.a + maj v.a v.b v.c
  ⟨t1 + t2, v.a, v.b, v.c, v.d + t1, v.e, v.f, v.g⟩

def compress (H : Words) (block : List UInt8) : Words :=
  let v := (List.range 64).foldl (round block) H
  ⟨v.a + H.a, v.b + H.b, v.c + H.c, v.d + H.d, v.e + H.e, v.f + H.f, v.g + H.g, v.h + H.h⟩

/-- A one bit, as few zeros as make the length come out, and the length in bits. -/
def pad (m : List UInt8) : List UInt8 :=
  m ++ 0x80 :: (List.replicate ((119 - m.length % 64) % 64) 0 ++ bigEndian 8 (8 * m.length))

def Words.bytes (H : Words) : List UInt8 :=
  [H.a, H.b, H.c, H.d, H.e, H.f, H.g, H.h].flatMap fun x => bigEndian 4 x.toNat

def sha256 (m : List UInt8) : List UInt8 := (Blocks.foldBlocks 64 compress initial (pad m)).bytes

def blockKey (key : List UInt8) : List UInt8 :=
  let key := if 64 < key.length then sha256 key else key
  key ++ List.replicate (64 - key.length) 0

def hmac (key text : List UInt8) : List UInt8 :=
  sha256 ((blockKey key).map (· ^^^ 0x5c) ++ sha256 ((blockKey key).map (· ^^^ 0x36) ++ text))

section Pbkdf2

variable (password salt : List UInt8)

def chain (i : Nat) : Nat → List UInt8
  | 0 => hmac password (salt ++ bigEndian 4 i)
  | j + 1 => hmac password (chain i j)

def xorBytes (x y : List UInt8) : List UInt8 := List.zipWith (· ^^^ ·) x y

def derived (c i : Nat) : List UInt8 :=
  (List.range (c - 1)).foldl (fun t j => xorBytes t (chain password salt i (j + 1)))
    (chain password salt i 0)

def pbkdf2 (c len : Nat) : List UInt8 :=
  ((List.range ((len + 31) / 32)).flatMap fun i => derived password salt c (i + 1)).take len

end Pbkdf2

end ChatServer.Standard
