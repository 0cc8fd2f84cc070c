import Mathlib.Algebra.Order.Ring.Int
import Mathlib.Data.List.AList

namespace ChatServer

/-- Numbers keep the library's three kinds.  A double is kept by its bits.
Strings are Unicode text: the library's lexer rejects ill-formed UTF-8. -/
inductive Json : Type
  | null : Json
  | bool : Bool → Json
  | int : Int → Json
  | uint : Nat → Json
  | float : UInt64 → Json
  | str : String → Json
  | arr : List Json → Json
  | obj : List (String × Json) → Json

abbrev Fields := List (String × Json)

def Fields.set (k : String) (v : Json) : Fields → Fields
  | [] => [(k, v)]
  | (k', v') :: fs =>
    if k < k' then (k, v) :: (k', v') :: fs
    else if k = k' then (k, v) :: fs
    else (k', v') :: Fields.set k v fs

namespace Json

def find : Json → String → Option Json
  | .obj fs, k => fs.lookup k
  | _, _ => none

end Json

def toI64 (n : Nat) : Int :=
  if n % 2 ^ 64 < 2 ^ 63 then (n % 2 ^ 64 : Nat) else (n % 2 ^ 64 : Nat) - 2 ^ 64

def toU64 (n : Int) : Nat := (n % 2 ^ 64).toNat

def toU32 (n : Int) : Nat := (n % 2 ^ 32).toNat

/-- The conversion of a double to a signed 64-bit value: truncation towards zero.
Values out of range have no defined result in the language; the target machine
answers with the least value. -/
def floatToI64 (bits : UInt64) : Int :=
  let e := (bits.toNat / 2 ^ 52) % 2 ^ 11
  let f := bits.toNat % 2 ^ 52
  let m := if e = 0 then f else f + 2 ^ 52
  let v : Nat := if 1075 ≤ e then m * 2 ^ (e - 1075) else m / 2 ^ (1075 - max e 1)
  let x : Int := if bits.toNat / 2 ^ 63 = 1 then -(v : Int) else v
  if e = 2047 ∨ x < -2 ^ 63 ∨ 2 ^ 63 ≤ x then -2 ^ 63 else x

namespace Json

def hexDigit (n : Nat) : Char := ("0123456789abcdef".toList[n]?).getD '0'

def escapeChar (c : Char) : List Char :=
  if c.toNat = 0x08 then ['\\', 'b']
  else if c.toNat = 0x09 then ['\\', 't']
  else if c.toNat = 0x0A then ['\\', 'n']
  else if c.toNat = 0x0C then ['\\', 'f']
  else if c.toNat = 0x0D then ['\\', 'r']
  else if c.toNat = 0x22 then ['\\', '"']
  else if c.toNat = 0x5C then ['\\', '\\']
  else if c.toNat ≤ 0x1F then ['\\', 'u', '0', '0', hexDigit (c.toNat / 16),
    hexDigit (c.toNat % 16)]
  else [c]

def escape (s : String) : String := String.ofList (s.toList.flatMap escapeChar)

def quote (s : String) : String := "\"" ++ escape s ++ "\""

section Dump

variable (showFloat : UInt64 → String)

mutual

def dump : Json → String
  | .null => "null"
  | .bool b => if b then "true" else "false"
  | .int n => toString n
  | .uint n => toString n
  | .float b => showFloat b
  | .str s => quote s
  | .arr js => "[" ++ dumpItems js ++ "]"
  | .obj fs => "\x7b" ++ dumpFields fs ++ "\x7d"

def dumpItems : List Json → String
  | [] => ""
  | [j] => dump j
  | j :: j' :: js => dump j ++ "," ++ dumpItems (j' :: js)

def dumpFields : List (String × Json) → String
  | [] => ""
  | [(k, j)] => quote k ++ ":" ++ dump j
  | (k, j) :: f :: fs => quote k ++ ":" ++ dump j ++ "," ++ dumpFields (f :: fs)

end

end Dump

end Json

end ChatServer
