import ChatServer.Protocol.Lexeme
import ChatServer.Protocol.Messages

namespace ChatServer

namespace JsonParser

open Lib Lexer

/-- A container the builder holds a reference to, with what it has so far.  An object comes
with the key of the element that is next. -/
inductive Open : Type
  | array : List Json → Open
  | object : Fields → String → Open

/-- The builder.  The source keeps references into the value under construction; here a
container is put into the one around it when it ends. -/
structure Dom where
  root : Json
  refStack : List Open

namespace Dom

def handleValue (v : Json) (dom : Dom) : Dom :=
  match dom.refStack with
  | [] => { dom with root := v }
  | .array js :: stack => { dom with refStack := .array (js ++ [v]) :: stack }
  | .object fs k :: stack => { dom with refStack := .object (Fields.set k v fs) k :: stack }

def startObject (dom : Dom) : Dom := { dom with refStack := .object [] "" :: dom.refStack }

def startArray (dom : Dom) : Dom := { dom with refStack := .array [] :: dom.refStack }

def key (k : String) (dom : Dom) : Dom :=
  match dom.refStack with
  | .object fs _ :: stack =>
    { dom with
      refStack := .object (if (fs.lookup k).isNone then Fields.set k .null fs else fs) k :: stack }
  | _ => dom

def endObject (dom : Dom) : Dom :=
  match dom.refStack with
  | .object fs _ :: stack => handleValue (.obj fs) { dom with refStack := stack }
  | _ => dom

def endArray (dom : Dom) : Dom :=
  match dom.refStack with
  | .array js :: stack => handleValue (.arr js) { dom with refStack := stack }
  | _ => dom

end Dom

def isFinite (bits : UInt64) : Bool := bits.toNat / 2 ^ 52 % 2 ^ 11 ≠ 2047

def getString (buffer : List UInt8) : String := (Utf8.text buffer).getD ""

mutual

/-- `sax_parse_internal` at the head of its loop.  In the stack of states an array is true. -/
def parseValue (states : List Bool) (dom : Dom) : List Token → Option (Dom × List Token)
  | .beginObject :: .endObject :: ts => evaluateState states dom.startObject.endObject ts
  | .beginObject :: .valueString k :: .nameSeparator :: ts =>
    parseValue (false :: states) (dom.startObject.key (getString k)) ts
  | .beginArray :: .endArray :: ts => evaluateState states dom.startArray.endArray ts
  | .beginArray :: ts => parseValue (true :: states) dom.startArray ts
  | .valueFloat b :: ts =>
      if isFinite b then evaluateState states (dom.handleValue (.float b)) ts else none
  | .literalFalse :: ts => evaluateState states (dom.handleValue (.bool false)) ts
  | .literalNull :: ts => evaluateState states (dom.handleValue .null) ts
  | .literalTrue :: ts => evaluateState states (dom.handleValue (.bool true)) ts
  | .valueInteger n :: ts => evaluateState states (dom.handleValue (.int n)) ts
  | .valueString s :: ts => evaluateState states (dom.handleValue (.str (getString s))) ts
  | .valueUnsigned n :: ts => evaluateState states (dom.handleValue (.uint n)) ts
  | _ => none

def evaluateState (states : List Bool) (dom : Dom) (ts : List Token) : Option (Dom × List Token) :=
  match states, ts with
  | [], ts => some (dom, ts)
  | true :: states, .valueSeparator :: ts => parseValue (true :: states) dom ts
  | true :: states, .endArray :: ts => evaluateState states dom.endArray ts
  | false :: states, .valueSeparator :: .valueString k :: .nameSeparator :: ts =>
    parseValue (false :: states) (dom.key (getString k)) ts
  | false :: states, .endObject :: ts => evaluateState states dom.endObject ts
  | _ :: _, _ => none

end

section Parse

variable (strtod : List UInt8 → UInt64)

theorem scan_shorter {strtod : List UInt8 → UInt64} {input : List UInt8}
    (h : (scan strtod input).1.ends = false) : (scan strtod input).2.length < input.length := by
  have hscan : scan strtod input = ((scan strtod input).1, (scan strtod input).2) := rfl
  obtain ⟨w, -, ⟨hend, -⟩ | ⟨t, heq, hlexeme⟩⟩ :=
    scan_sound hscan fun herror => by simp [herror, Token.ends] at h
  · simp [hend, Token.ends] at h
  · have hpos := List.length_pos_iff.mpr hlexeme.ne_nil
    have hlength := congrArg List.length heq
    rw [List.length_append, List.length_append] at hlength
    omega

def tokens (input : List UInt8) : List Token :=
  if _h : (scan strtod input).1.ends then [(scan strtod input).1]
  else (scan strtod input).1 :: tokens (scan strtod input).2
termination_by input.length
decreasing_by exact scan_shorter (Bool.eq_false_iff.mpr _h)

end Parse

end JsonParser

def parse (strtod : List UInt8 → UInt64) (s : List UInt8) : Option Json :=
  match Lexer.skipBom s with
  | none => none
  | some input =>
    match JsonParser.parseValue [] ⟨.null, []⟩ (JsonParser.tokens strtod input) with
    | some (dom, .endOfInput :: _) => some dom.root
    | _ => none

end ChatServer
