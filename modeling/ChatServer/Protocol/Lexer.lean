import ChatServer.Lib.Utf8
import ChatServer.Protocol.Json

namespace ChatServer

inductive Token : Type
  | literalTrue : Token
  | literalFalse : Token
  | literalNull : Token
  | valueString : List UInt8 → Token
  | valueUnsigned : Nat → Token
  | valueInteger : Int → Token
  | valueFloat : UInt64 → Token
  | beginArray : Token
  | beginObject : Token
  | endArray : Token
  | endObject : Token
  | nameSeparator : Token
  | valueSeparator : Token
  | parseError : Token
  | endOfInput : Token
  deriving DecidableEq

def Token.ends : Token → Bool
  | .parseError | .endOfInput => true
  | _ => false

namespace Lexer

def hexValue (c : UInt8) : Option Nat :=
  if 0x30 ≤ c ∧ c ≤ 0x39 then some (c.toNat - 0x30)
  else if 0x41 ≤ c ∧ c ≤ 0x46 then some (c.toNat - 0x37)
  else if 0x61 ≤ c ∧ c ≤ 0x66 then some (c.toNat - 0x57)
  else none

def getCodepointFrom : List Nat → Nat → List UInt8 → Option (Nat × List UInt8)
  | [], codepoint, input => some (codepoint, input)
  | _ :: _, _, [] => none
  | factor :: factors, codepoint, c :: input =>
    match hexValue c with
    | some d => getCodepointFrom factors (codepoint + d <<< factor) input
    | none => none

def getCodepoint (input : List UInt8) : Option (Nat × List UInt8) :=
  getCodepointFrom [12, 8, 4, 0] 0 input

def codepointBytes (codepoint : Nat) : List UInt8 :=
  if codepoint < 0x80 then [UInt8.ofNat codepoint]
  else if codepoint ≤ 0x7FF then
    [UInt8.ofNat (0xC0 ||| codepoint >>> 6), UInt8.ofNat (0x80 ||| (codepoint &&& 0x3F))]
  else if codepoint ≤ 0xFFFF then
    [UInt8.ofNat (0xE0 ||| codepoint >>> 12), UInt8.ofNat (0x80 ||| (codepoint >>> 6 &&& 0x3F)),
      UInt8.ofNat (0x80 ||| (codepoint &&& 0x3F))]
  else
    [UInt8.ofNat (0xF0 ||| codepoint >>> 18), UInt8.ofNat (0x80 ||| (codepoint >>> 12 &&& 0x3F)),
      UInt8.ofNat (0x80 ||| (codepoint >>> 6 &&& 0x3F)),
        UInt8.ofNat (0x80 ||| (codepoint &&& 0x3F))]

def scanUnicode (input : List UInt8) : Option (List UInt8 × List UInt8) :=
  match getCodepoint input with
  | none => none
  | some (codepoint1, input) =>
    if 0xD800 ≤ codepoint1 ∧ codepoint1 ≤ 0xDBFF then
      match input with
      | b :: u :: input =>
        if b = 0x5C ∧ u = 0x75 then
          match getCodepoint input with
          | none => none
          | some (codepoint2, input) =>
            if 0xDC00 ≤ codepoint2 ∧ codepoint2 ≤ 0xDFFF then
              some (codepointBytes (codepoint1 <<< 10 + codepoint2 - 0x35FDC00), input)
            else none
        else none
      | _ => none
    else if 0xDC00 ≤ codepoint1 ∧ codepoint1 ≤ 0xDFFF then none
    else some (codepointBytes codepoint1, input)

def scanEscape : List UInt8 → Option (List UInt8 × List UInt8)
  | [] => none
  | c :: input =>
    if c = 0x22 then some ([0x22], input)
    else if c = 0x5C then some ([0x5C], input)
    else if c = 0x2F then some ([0x2F], input)
    else if c = 0x62 then some ([0x08], input)
    else if c = 0x66 then some ([0x0C], input)
    else if c = 0x6E then some ([0x0A], input)
    else if c = 0x72 then some ([0x0D], input)
    else if c = 0x74 then some ([0x09], input)
    else if c = 0x75 then scanUnicode input
    else none

def nextByteInRange : List (UInt8 × UInt8) → List UInt8 → Option (List UInt8 × List UInt8)
  | [], input => some ([], input)
  | _ :: _, [] => none
  | (low, high) :: ranges, c :: input =>
    if low ≤ c ∧ c ≤ high then (nextByteInRange ranges input).map fun (added, rest) =>
      (c :: added, rest)
    else none

def byteRanges (c : UInt8) : Option (List (UInt8 × UInt8)) :=
  if c ≤ 0x1F then none
  else if c ≤ 0x7F then some []
  else if 0xC2 ≤ c ∧ c ≤ 0xDF then some [(0x80, 0xBF)]
  else if c = 0xE0 then some [(0xA0, 0xBF), (0x80, 0xBF)]
  else if (0xE1 ≤ c ∧ c ≤ 0xEC) ∨ c = 0xEE ∨ c = 0xEF then some [(0x80, 0xBF), (0x80, 0xBF)]
  else if c = 0xED then some [(0x80, 0x9F), (0x80, 0xBF)]
  else if c = 0xF0 then some [(0x90, 0xBF), (0x80, 0xBF), (0x80, 0xBF)]
  else if 0xF1 ≤ c ∧ c ≤ 0xF3 then some [(0x80, 0xBF), (0x80, 0xBF), (0x80, 0xBF)]
  else if c = 0xF4 then some [(0x80, 0x8F), (0x80, 0xBF), (0x80, 0xBF)]
  else none

/-- One turn of the loop of `scan_string` that does not end it: what it adds to the buffer. -/
def scanCharacter (c : UInt8) (input : List UInt8) : Option (List UInt8 × List UInt8) :=
  if c = 0x5C then scanEscape input
  else
    match byteRanges c with
    | some ranges => (nextByteInRange ranges input).map fun (added, rest) => (c :: added, rest)
    | none => none

section Shorter

theorem getCodepointFrom_shorter {factors : List Nat} {codepoint n : Nat} {input rest : List UInt8}
    (h : getCodepointFrom factors codepoint input = some (n, rest)) :
    rest.length ≤ input.length := by
  induction factors generalizing codepoint input with
  | nil =>
    cases h
    exact Nat.le_refl _
  | cons factor factors ih =>
    cases input with
    | nil => cases h
    | cons c input =>
      rw [getCodepointFrom] at h
      split at h
      · exact Nat.le_succ_of_le (ih h)
      · cases h

theorem scanUnicode_shorter {input added rest : List UInt8}
    (h : scanUnicode input = some (added, rest)) : rest.length ≤ input.length := by
  unfold scanUnicode at h
  split at h
  · cases h
  next codepoint1 input1 h1 =>
    have hle := getCodepointFrom_shorter h1
    split at h
    · split at h
      · split at h
        · split at h
          · cases h
          next codepoint2 input2 h2 =>
            have hle' := getCodepointFrom_shorter h2
            split at h
            · obtain ⟨-, rfl⟩ := Prod.mk.inj (Option.some.inj h)
              simp only [List.length_cons] at hle
              omega
            · cases h
        · cases h
      · cases h
    · split at h
      · cases h
      · cases h
        exact hle

theorem nextByteInRange_shorter {ranges : List (UInt8 × UInt8)} {input added rest : List UInt8}
    (h : nextByteInRange ranges input = some (added, rest)) : input = added ++ rest := by
  induction ranges generalizing input added with
  | nil =>
    cases h
    rfl
  | cons range ranges ih =>
    cases input with
    | nil => cases h
    | cons c input =>
      rw [nextByteInRange] at h
      split at h
      · obtain ⟨⟨added', rest'⟩, hadded, heq⟩ := Option.map_eq_some_iff.mp h
        cases heq
        rw [ih hadded]
        rfl
      · cases h

theorem scanCharacter_shorter {c : UInt8} {input added rest : List UInt8}
    (h : scanCharacter c input = some (added, rest)) : rest.length ≤ input.length := by
  unfold scanCharacter at h
  split at h
  · cases input with
    | nil => cases h
    | cons e input =>
      have hunicode : scanUnicode input = some (added, rest) → rest.length ≤ (e :: input).length :=
        fun h =>
        Nat.le_succ_of_le (scanUnicode_shorter h)
      simp only [scanEscape] at h
      repeat' split at h
      all_goals first
        | exact hunicode h
        | (cases h; exact Nat.le_succ _)
        | cases h
  · split at h
    · obtain ⟨⟨added', rest'⟩, hadded, heq⟩ := Option.map_eq_some_iff.mp h
      cases heq
      rw [nextByteInRange_shorter hadded, List.length_append]
      exact Nat.le_add_left _ _
    · cases h

end Shorter

def scanStringFrom (buffer : List UInt8) : List UInt8 → Option (List UInt8 × List UInt8)
  | [] => none
  | c :: input =>
    if c = 0x22 then some (buffer, input)
    else
      match _h : scanCharacter c input with
      | none => none
      | some (added, rest) => scanStringFrom (buffer ++ added) rest
termination_by input => input.length
decreasing_by exact Nat.lt_succ_of_le (scanCharacter_shorter _h)

def scanString (input : List UInt8) : Token × List UInt8 :=
  match scanStringFrom [] input with
  | some (buffer, rest) => (.valueString buffer, rest)
  | none => (.parseError, [])

inductive Label : Type
  | minus : Label
  | zero : Label
  | any1 : Label
  | decimal1 : Label
  | decimal2 : Label
  | exponent : Label
  | sign : Label
  | any2 : Label
  deriving DecidableEq

inductive Goto : Type
  | label : Label → Goto
  | done : Goto
  | error : Goto

def isDigit (c : UInt8) : Bool := 0x30 ≤ c && c ≤ 0x39

def isExponent (c : UInt8) : Bool := c = 0x65 || c = 0x45

def Label.next (c : UInt8) : Label → Goto
  | .minus => if c = 0x30 then .label .zero else if isDigit c then .label .any1 else .error
  | .zero => if c = 0x2E then .label .decimal1 else if isExponent c then .label .exponent else .done
  | .any1 =>
    if isDigit c then .label .any1
    else if c = 0x2E then .label .decimal1
    else if isExponent c then .label .exponent
    else .done
  | .decimal1 => if isDigit c then .label .decimal2 else .error
  | .decimal2 =>
      if isDigit c then .label .decimal2 else if isExponent c then .label .exponent else .done
  | .exponent =>
      if c = 0x2B ∨ c = 0x2D then .label .sign else if isDigit c then .label .any2 else .error
  | .sign => if isDigit c then .label .any2 else .error
  | .any2 => if isDigit c then .label .any2 else .done

def Label.mayEnd : Label → Bool
  | .zero | .any1 | .decimal2 | .any2 => true
  | .minus | .decimal1 | .exponent | .sign => false

inductive NumberType : Type
  | valueUnsigned : NumberType
  | valueInteger : NumberType
  | valueFloat : NumberType

def Label.numberType : Label → NumberType → NumberType
  | .minus, _ => .valueInteger
  | .decimal1, _ | .exponent, _ => .valueFloat
  | .zero, type | .any1, type | .decimal2, type | .sign, type | .any2, type => type

def scanNumberFrom (type : NumberType) (buffer : List UInt8) :
    Label → List UInt8 → Option (NumberType × List UInt8 × List UInt8)
  | label, [] => if label.mayEnd then some (label.numberType type, buffer, []) else none
  | label, c :: input =>
    match label.next c with
    | .label label' => scanNumberFrom (label.numberType type) (buffer ++ [c]) label' input
    | .done => some (label.numberType type, buffer, c :: input)
    | .error => none

def decimalValue (digits : List UInt8) : Nat :=
  digits.foldl (fun n d => n * 10 + (d.toNat - 0x30)) 0

section Scan

variable (strtod : List UInt8 → UInt64)

/-- The conversions behind `scan_number_done`: an integer that does not fit is a double. -/
def convert : NumberType → List UInt8 → Token
  | .valueUnsigned, buffer =>
    if decimalValue buffer < 2 ^ 64 then .valueUnsigned (decimalValue buffer) else .valueFloat
      (strtod buffer)
  | .valueInteger, buffer =>
    if decimalValue buffer.tail ≤ 2 ^ 63 then .valueInteger (-decimalValue buffer.tail)
    else .valueFloat (strtod buffer)
  | .valueFloat, buffer => .valueFloat (strtod buffer)

def scanNumber (c : UInt8) (input : List UInt8) : Token × List UInt8 :=
  let label : Label := if c = 0x2D then .minus else if c = 0x30 then .zero else .any1
  match scanNumberFrom .valueUnsigned [c] label input with
  | some (type, buffer, rest) => (convert strtod type buffer, rest)
  | none => (.parseError, [])

def scanLiteral (token : Token) : List UInt8 → List UInt8 → Token × List UInt8
  | [], input => (token, input)
  | _ :: _, [] => (.parseError, [])
  | l :: literal, c :: input => if c = l then scanLiteral token literal input else (.parseError, [])

def isWhitespace (c : UInt8) : Bool := c = 0x20 || c = 0x09 || c = 0x0A || c = 0x0D

def skipWhitespace (input : List UInt8) : List UInt8 := input.dropWhile isWhitespace

def scanToken (c : UInt8) (input : List UInt8) : Token × List UInt8 :=
  if c = 0x5B then (.beginArray, input)
  else if c = 0x5D then (.endArray, input)
  else if c = 0x7B then (.beginObject, input)
  else if c = 0x7D then (.endObject, input)
  else if c = 0x3A then (.nameSeparator, input)
  else if c = 0x2C then (.valueSeparator, input)
  else if c = 0x74 then scanLiteral .literalTrue [0x72, 0x75, 0x65] input
  else if c = 0x66 then scanLiteral .literalFalse [0x61, 0x6C, 0x73, 0x65] input
  else if c = 0x6E then scanLiteral .literalNull [0x75, 0x6C, 0x6C] input
  else if c = 0x22 then scanString input
  else if c = 0x2D ∨ isDigit c then scanNumber strtod c input
  else if c = 0x00 then (.endOfInput, input)
  else (.parseError, [])

def scan (input : List UInt8) : Token × List UInt8 :=
  match skipWhitespace input with
  | [] => (.endOfInput, [])
  | c :: input => scanToken strtod c input

def skipBom : List UInt8 → Option (List UInt8)
  | c :: input =>
    if c = 0xEF then
      match input with
      | d :: e :: input => if d = 0xBB ∧ e = 0xBF then some input else none
      | _ => none
    else some (c :: input)
  | [] => some []

end Scan

end Lexer

end ChatServer
