import ChatServer.Protocol.Parser
import Mathlib.Data.List.Chain

namespace ChatServer

open Lib Lexer JsonParser

inductive Phrase : Type
  | value : Json → Phrase
  | items : List Json → Phrase
  | members : List (String × Json) → Phrase

inductive Reads : Phrase → List Token → Prop
  | literalNull : Reads (.value .null) [.literalNull]
  | literalTrue : Reads (.value (.bool true)) [.literalTrue]
  | literalFalse : Reads (.value (.bool false)) [.literalFalse]
  | unsigned {n : Nat} : Reads (.value (.uint n)) [.valueUnsigned n]
  | integer {n : Int} : Reads (.value (.int n)) [.valueInteger n]
  | float {b : UInt64} : isFinite b → Reads (.value (.float b)) [.valueFloat b]
  | string {s : String} : Reads (.value (.str s)) [.valueString (Utf8.bytes s)]
  | emptyArray : Reads (.value (.arr [])) [.beginArray, .endArray]
  | array {js : List Json} {ts : List Token} : Reads (.items js) ts →
      Reads (.value (.arr js)) (.beginArray :: (ts ++ [.endArray]))
  | emptyObject : Reads (.value (.obj [])) [.beginObject, .endObject]
  | object {ms : List (String × Json)} {ts : List Token} : Reads (.members ms) ts →
      Reads (.value (.obj (Fields.assign [] ms))) (.beginObject :: (ts ++ [.endObject]))
  | item {j : Json} {ts : List Token} : Reads (.value j) ts → Reads (.items [j]) ts
  | items {j : Json} {js : List Json} {ts us : List Token} : Reads (.value j) ts →
      Reads (.items js) us →
      Reads (.items (j :: js)) (ts ++ .valueSeparator :: us)
  | member {k : String} {j : Json} {ts : List Token} : Reads (.value j) ts →
      Reads (.members [(k, j)]) (.valueString (Utf8.bytes k) :: .nameSeparator :: ts)
  | members {k : String} {j : Json} {ms : List (String × Json)} {ts us : List Token} :
      Reads (.value j) ts →
      Reads (.members ms) us →
      Reads (.members ((k, j) :: ms)) (.valueString (Utf8.bytes k) :: .nameSeparator ::
        (ts ++ .valueSeparator :: us))

section Builder

theorem Fields.set_set (k : String) (u v : Json) (fs : Fields) :
    Fields.set k v (Fields.set k u fs) = Fields.set k v fs := by
  induction fs with
  | nil => simp [Fields.set]
  | cons f fs ih =>
    simp only [Fields.set]
    split
    · simp [Fields.set]
    split
    · simp [Fields.set]
    · simp [Fields.set, *]

@[simp] theorem getString_bytes (s : String) : getString (Utf8.bytes s) = s := by simp [getString]

theorem Dom.handleValue_key (root : Json) (fs : Fields) (k k' : String)
    (stack : List Open) (j : Json) :
    Dom.handleValue j (Dom.key k ⟨root, .object fs k' :: stack⟩) =
      ⟨root, .object (Fields.set k j fs) k :: stack⟩ := by
  simp only [Dom.key, Dom.handleValue]
  split
  · rw [Fields.set_set]
  · rfl

end Builder

section Complete

def Starts (ts : List Token) : Prop := ∃ t us, ts = t :: us ∧ t ≠ .endArray

theorem Starts.append {ts : List Token} (h : Starts ts) (us : List Token) : Starts (ts ++ us) := by
  obtain ⟨t, ts, rfl, ht⟩ := h
  exact ⟨t, ts ++ us, rfl, ht⟩

theorem parseValue_beginArray {ts : List Token} (h : Starts ts) (states : List Bool) (dom : Dom) :
    parseValue states dom (.beginArray :: ts) = parseValue (true :: states) dom.startArray ts := by
  obtain ⟨t, ts, rfl, ht⟩ := h
  simp [parseValue, ht]

def Phrase.Parsed : Phrase → List Token → Prop
  | .value j, ts => Starts ts ∧ ∀ states dom rest,
      parseValue states dom (ts ++ rest) = evaluateState states (dom.handleValue j) rest
  | .items js, ts => Starts ts ∧ ∀ states root js' stack rest,
      parseValue (true :: states) ⟨root, .array js' :: stack⟩ (ts ++ .endArray :: rest) =
        evaluateState states (Dom.handleValue (.arr (js' ++ js)) ⟨root, stack⟩) rest
  | .members ms, ts => ∃ k us, ts = .valueString (Utf8.bytes k) :: .nameSeparator :: us ∧
      ∀ states root fs k' stack rest,
        parseValue (false :: states) (Dom.key k ⟨root, .object fs k' :: stack⟩)
          (us ++ .endObject :: rest) =
          evaluateState states (Dom.handleValue (.obj (Fields.assign fs ms)) ⟨root, stack⟩) rest

theorem Reads.parsed {p : Phrase} {ts : List Token} (h : Reads p ts) : p.Parsed ts := by
  induction h with
  | literalNull => exact ⟨⟨_, _, rfl, nofun⟩, fun states dom rest => by simp [parseValue]⟩
  | literalTrue => exact ⟨⟨_, _, rfl, nofun⟩, fun states dom rest => by simp [parseValue]⟩
  | literalFalse => exact ⟨⟨_, _, rfl, nofun⟩, fun states dom rest => by simp [parseValue]⟩
  | unsigned => exact ⟨⟨_, _, rfl, nofun⟩, fun states dom rest => by simp [parseValue]⟩
  | integer => exact ⟨⟨_, _, rfl, nofun⟩, fun states dom rest => by simp [parseValue]⟩
  | float hfinite =>
      exact ⟨⟨_, _, rfl, nofun⟩, fun states dom rest => by simp [parseValue, hfinite]⟩
  | string => exact ⟨⟨_, _, rfl, nofun⟩, fun states dom rest => by simp [parseValue]⟩
  | emptyArray =>
      exact ⟨⟨_, _, rfl, nofun⟩, fun states dom rest =>
        by simp [parseValue, Dom.startArray, Dom.endArray]⟩
  | @array js ts _ ih =>
    refine ⟨⟨_, _, rfl, nofun⟩, fun states dom rest => ?_⟩
    obtain ⟨hhead, hparse⟩ := ih
    have hstart := hparse states dom.root [] dom.refStack rest
    rw [List.cons_append, List.append_assoc, parseValue_beginArray (hhead.append _)]
    exact hstart
  | emptyObject =>
      exact ⟨⟨_, _, rfl, nofun⟩, fun states dom rest =>
        by simp [parseValue, Dom.startObject, Dom.endObject]⟩
  | object h ih =>
    refine ⟨⟨_, _, rfl, nofun⟩, fun states dom rest => ?_⟩
    obtain ⟨k, us, rfl, hparse⟩ := ih
    have hstart := hparse states dom.root [] "" dom.refStack rest
    simpa [parseValue, Dom.startObject] using hstart
  | item h ih =>
    obtain ⟨hhead, hparse⟩ := ih
    refine ⟨hhead, fun states root js stack rest => ?_⟩
    rw [hparse]
    simp [evaluateState, Dom.handleValue, Dom.endArray]
  | items hvalue hitems ihvalue ihitems =>
    obtain ⟨hhead, hparse⟩ := ihvalue
    obtain ⟨-, hparse'⟩ := ihitems
    refine ⟨hhead.append _, fun states root js stack rest => ?_⟩
    rw [List.append_assoc, hparse, List.cons_append, evaluateState, Dom.handleValue, hparse',
      List.append_assoc]
    rfl
  | member h ih =>
    obtain ⟨-, hparse⟩ := ih
    refine ⟨_, _, rfl, fun states root fs k' stack rest => ?_⟩
    rw [hparse, Dom.handleValue_key]
    simp [evaluateState, Dom.endObject, Fields.assign]
  | members hvalue hmembers ihvalue ihmembers =>
    obtain ⟨-, hparse⟩ := ihvalue
    obtain ⟨k, us, rfl, hparse'⟩ := ihmembers
    refine ⟨_, _, rfl, fun states root fs k' stack rest => ?_⟩
    rw [List.append_assoc, hparse, Dom.handleValue_key]
    simp [evaluateState, hparse', Fields.assign]

end Complete

section Sound

def Texts (ts : List Token) : Prop := ∀ b, .valueString b ∈ ts → ∃ s, b = Utf8.bytes s

theorem Texts.tail {ts us : List Token} (h : Texts (ts ++ us)) : Texts us :=
  fun b hb => h b (List.mem_append_right ts hb)

theorem Texts.cons {t : Token} {ts : List Token} (h : Texts (t :: ts)) : Texts ts :=
  fun b hb => h b (.tail t hb)

theorem evaluateState_array {states : List Bool} {dom : Dom} {ts : List Token}
    {r : Dom × List Token} (h : evaluateState (true :: states) dom ts = some r) :
    (∃ us, ts = .valueSeparator :: us ∧ parseValue (true :: states) dom us = some r) ∨
      ∃ us, ts = .endArray :: us ∧ evaluateState states dom.endArray us = some r := by
  unfold evaluateState at h
  split at h
  next heq => cases heq
  next us heq =>
    cases heq
    exact .inl ⟨us, rfl, h⟩
  next us heq =>
    cases heq
    exact .inr ⟨us, rfl, h⟩
  next heq => cases heq
  next heq => cases heq
  next => cases h

theorem evaluateState_object {states : List Bool} {dom : Dom} {ts : List Token}
    {r : Dom × List Token} (h : evaluateState (false :: states) dom ts = some r) :
    (∃ k us, ts = .valueSeparator :: .valueString k :: .nameSeparator :: us ∧
        parseValue (false :: states) (dom.key (getString k)) us = some r) ∨
      ∃ us, ts = .endObject :: us ∧ evaluateState states dom.endObject us = some r := by
  unfold evaluateState at h
  split at h
  next heq => cases heq
  next heq => cases heq
  next heq => cases heq
  next k us heq =>
    cases heq
    exact .inl ⟨k, us, rfl, h⟩
  next us heq =>
    cases heq
    exact .inr ⟨us, rfl, h⟩
  next => cases h

def SoundValue (ts : List Token) : Prop :=
  ∀ states dom r, parseValue states dom ts = some r →
    ∃ us rest j, ts = us ++ rest ∧ Reads (.value j) us ∧
      evaluateState states (dom.handleValue j) rest = some r

theorem soundItems {n : Nat} (hvalue : ∀ ts, ts.length < n → Texts ts → SoundValue ts) :
    ∀ ts, ts.length < n → Texts ts → ∀ states root js stack r,
      parseValue (true :: states) ⟨root, .array js :: stack⟩ ts = some r →
      ∃ us rest js', ts = us ++ .endArray :: rest ∧ Reads (.items js') us ∧
        evaluateState states (Dom.handleValue (.arr (js ++ js')) ⟨root, stack⟩) rest = some r := by
  intro ts hlt htexts states root js stack r h
  induction hn : ts.length using Nat.strong_induction_on generalizing ts js with
  | h m ih =>
    subst hn
    obtain ⟨us, rest, j, rfl, hreads, heval⟩ := hvalue ts hlt htexts _ _ _ h
    obtain ⟨rest, rfl, hparse⟩ | ⟨rest, rfl, heval⟩ := evaluateState_array heval
    · have hshort : rest.length < (us ++ .valueSeparator :: rest).length := by
        rw [List.length_append, List.length_cons]
        omega
      obtain ⟨vs, rest', js', rfl, hitems, heval⟩ :=
        ih _ hshort rest (Nat.lt_trans hshort hlt) htexts.tail.cons (js ++ [j]) hparse rfl
      refine ⟨us ++ .valueSeparator :: vs, rest', j :: js', by simp, .items hreads hitems, ?_⟩
      rwa [List.append_assoc] at heval
    · exact ⟨us, rest, [j], rfl, .item hreads, heval⟩

theorem soundMembers {n : Nat} (hvalue : ∀ ts, ts.length < n → Texts ts → SoundValue ts) :
    ∀ ts, ts.length < n → Texts ts → ∀ states root fs k k' stack r,
      parseValue (false :: states) (Dom.key k ⟨root, .object fs k' :: stack⟩) ts = some r →
      ∃ us rest ms, ts = us ++ .endObject :: rest ∧
        Reads (.members ms) (.valueString (Utf8.bytes k) :: .nameSeparator :: us) ∧
        evaluateState states (Dom.handleValue (.obj (Fields.assign fs ms)) ⟨root, stack⟩)
          rest = some r := by
  intro ts hlt htexts states root fs k k' stack r h
  induction hn : ts.length using Nat.strong_induction_on generalizing ts fs k k' with
  | h m ih =>
    subst hn
    obtain ⟨us, rest, j, rfl, hreads, heval⟩ := hvalue ts hlt htexts _ _ _ h
    rw [Dom.handleValue_key] at heval
    obtain ⟨b, rest, rfl, hparse⟩ | ⟨rest, rfl, heval⟩ := evaluateState_object heval
    · have hshort : rest.length < (us ++ .valueSeparator :: .valueString b :: .nameSeparator ::
          rest).length := by
        simp only [List.length_append, List.length_cons]
        omega
      obtain ⟨k₁, rfl⟩ := htexts.tail.cons b (.head _)
      rw [getString_bytes] at hparse
      obtain ⟨vs, rest', ms, rfl, hmembers, heval⟩ :=
        ih _ hshort rest (Nat.lt_trans hshort hlt) htexts.tail.cons.cons.cons _ k₁ k hparse rfl
      exact ⟨us ++ .valueSeparator :: .valueString (Utf8.bytes k₁) :: .nameSeparator :: vs, rest',
        (k, j) :: ms, by simp, .members hreads hmembers, heval⟩
    · exact ⟨us, rest, [(k, j)], rfl, .member hreads, heval⟩

theorem soundValue (ts : List Token) (htexts : Texts ts) : SoundValue ts := by
  induction hn : ts.length using Nat.strong_induction_on generalizing ts with
  | h n ih =>
    subst hn
    have hvalue : ∀ us : List Token, us.length < ts.length → Texts us → SoundValue us :=
      fun us hlt htexts => ih _ hlt us htexts rfl
    intro states dom r h
    have leaf : ∀ {t : Token} {us : List Token} {j : Json}, ts = t :: us → Reads (.value j) [t] →
        evaluateState states (dom.handleValue j) us = some r →
        ∃ us rest j, ts = us ++ rest ∧ Reads (.value j) us ∧
          evaluateState states (dom.handleValue j) rest = some r :=
      fun {t us j} hts hreads heval => ⟨[t], us, j, hts, hreads, heval⟩
    unfold parseValue at h
    split at h
    next us => exact ⟨[.beginObject, .endObject], us, .obj [], rfl, .emptyObject, h⟩
    next b us =>
      obtain ⟨k, rfl⟩ := htexts.cons b (.head _)
      rw [getString_bytes] at h
      obtain ⟨vs, rest, ms, rfl, hmembers, heval⟩ :=
        soundMembers hvalue us (by simp only [List.length_cons]; omega) htexts.cons.cons.cons states
          dom.root [] k ""
          dom.refStack r h
      exact ⟨_, rest, _, by simp, .object hmembers, heval⟩
    next us => exact ⟨[.beginArray, .endArray], us, .arr [], rfl, .emptyArray, h⟩
    next us _ =>
      obtain ⟨vs, rest, js, rfl, hitems, heval⟩ :=
        soundItems hvalue us (by simp only [List.length_cons]; omega) htexts.cons states dom.root []
          dom.refStack r h
      exact ⟨_, rest, .arr js, by simp, .array hitems, heval⟩
    next b us =>
      split at h
      next hfinite => exact leaf rfl (.float hfinite) h
      next => cases h
    next us => exact leaf rfl .literalFalse h
    next us => exact leaf rfl .literalNull h
    next us => exact leaf rfl .literalTrue h
    next n us => exact leaf rfl .integer h
    next b us =>
      obtain ⟨s, rfl⟩ := htexts b (.head _)
      rw [getString_bytes] at h
      exact leaf rfl .string h
    next n us => exact leaf rfl .unsigned h
    next => cases h

end Sound

section Spelling

variable (strtod : List UInt8 → UInt64)

/-- The spelling of a sequence of tokens.  Whitespace may stand in front of each and at the
end; a NUL ends the input wherever a token could start. -/
inductive Spelling : List UInt8 → List Token → Prop
  | done {w : List UInt8} : Whitespace w → Spelling w []
  | nul {w r : List UInt8} : Whitespace w → Spelling (w ++ 0x00 :: r) []
  | token {w t rest : List UInt8} {token : Token} {ts : List Token} : Whitespace w →
      Lexeme strtod t token →
      Spelling rest ts → Spelling (w ++ (t ++ rest)) (token :: ts)

def JsonText (text : List UInt8) (j : Json) : Prop :=
  ∃ ts, Spelling strtod text ts ∧ Reads (.value j) ts

variable {strtod}

def Apart (ts : List Token) : Prop := ts.IsChain fun t u => isNumber t → isNumber u = false

theorem Apart.append {ts us : List Token} {t : Token} (hts : Apart ts) (hus : Apart (t :: us))
    (ht : isNumber t = false) : Apart (ts ++ t :: us) :=
  List.IsChain.append hts hus fun x _ y hy _ => by
    cases hy
    exact ht

theorem Apart.cons {t : Token} {ts : List Token} (ht : isNumber t = false) (hts : Apart ts) :
    Apart (t :: ts) :=
  List.isChain_cons.mpr ⟨fun y _ hnumber => by simp [ht] at hnumber, hts⟩

theorem Reads.apart {p : Phrase} {ts : List Token} (h : Reads p ts) : Apart ts := by
  induction h with
  | emptyArray | emptyObject => exact .cons rfl (.singleton _)
  | array _ ih | object _ ih => exact .cons rfl (ih.append (.singleton _) rfl)
  | item _ ih => exact ih
  | items _ _ ih ih' => exact ih.append (.cons rfl ih') rfl
  | member _ ih => exact .cons rfl (.cons rfl ih)
  | members _ _ ih ih' => exact .cons rfl (.cons rfl (ih.append (.cons rfl ih') rfl))
  | _ => exact .singleton _

theorem stops_cons {c : UInt8} {t : List UInt8} (hdigit : isDigit c = false)
    (hmark : isMark c = false) : Stops (c :: t) := by
  intro d hd
  cases hd
  exact ⟨hdigit, hmark⟩

theorem stops_whitespace {w t : List UInt8} (hw : Whitespace w) (ht : Stops t) :
    Stops (w ++ t) := by
  cases w with
  | nil => exact ht
  | cons c w =>
    have hc := hw c (.head _)
    simp only [isWhitespace, Bool.or_eq_true, decide_eq_true_eq] at hc
    obtain ((rfl | rfl) | rfl) | rfl := hc <;> exact stops_cons rfl rfl

theorem Spelling.stops {text : List UInt8} {ts : List Token} (h : Spelling strtod text ts)
    (hhead : ∀ t ∈ ts.head?, isNumber t = false) : Stops text := by
  cases h with
  | done hw => simpa using stops_whitespace hw (show Stops [] from nofun)
  | nul hw => exact stops_whitespace hw (stops_cons rfl rfl)
  | token hw hlexeme _ =>
    apply stops_whitespace hw
    cases hlexeme with
    | number hnumber =>
      have hnot := hhead _ rfl
      rw [hnumber.isNumber] at hnot
      cases hnot
    | _ => exact stops_cons rfl rfl

theorem Spelling.tokens_eq {text : List UInt8} {ts : List Token} (h : Spelling strtod text ts)
    (hapart : Apart ts) : tokens strtod text = ts ++ [.endOfInput] := by
  induction h with
  | @done w hw =>
    have hscan : scan strtod w = (.endOfInput, []) := by
      rw [scan, ← List.append_nil w, skipWhitespace_append hw (by simp)]
    rw [tokens, hscan]
    rfl
  | @nul w r hw =>
    have hscan : scan strtod (w ++ 0x00 :: r) = (.endOfInput, r) := by
      rw [scan, skipWhitespace_append hw (by simp [isWhitespace])]
      rfl
    rw [tokens, hscan]
    rfl
  | @token w t rest token ts hw hlexeme hspelling ih =>
    obtain ⟨hhead, hapart⟩ := List.isChain_cons.mp hapart
    have hscan := scan_complete hw hlexeme fun hnumber => hspelling.stops fun u hu =>
      hhead u hu hnumber
    rw [tokens, hscan, dif_neg (by simp [hlexeme.ends]), ih hapart]
    rfl

theorem spelling_of_tokens {text : List UInt8} {ts rest : List Token}
    (h : tokens strtod text = ts ++ .endOfInput :: rest)
    (hts : ∀ t ∈ ts, t.ends = false) : Spelling strtod text ts := by
  induction ts generalizing text with
  | nil =>
    have hend : (scan strtod text).1 = .endOfInput := by
      rw [tokens] at h
      split at h <;> exact (List.cons.inj h).1
    have hscan : scan strtod text = (.endOfInput, (scan strtod text).2) := by rw [← hend]
    obtain ⟨w, hw, ⟨-, rfl | ⟨r, rfl⟩⟩ | ⟨t, -, hlexeme⟩⟩ := scan_sound hscan nofun
    · exact .done hw
    · exact .nul hw
    · cases hlexeme.ends
  | cons t ts ih =>
    obtain ⟨hends, hts⟩ := List.forall_mem_cons.mp hts
    rw [tokens] at h
    split at h
    next hlast =>
      obtain ⟨rfl, -⟩ := List.cons.inj h
      rw [hends] at hlast
      cases hlast
    next =>
      obtain ⟨htoken, h⟩ := List.cons.inj h
      have hscan : scan strtod text = (t, (scan strtod text).2) := by rw [← htoken]
      obtain ⟨w, hw, ⟨rfl, -⟩ | ⟨t', heq, hlexeme⟩⟩ :=
        scan_sound hscan fun herror => by cases herror; cases hends
      · cases hends
      · rw [heq]
        exact .token hw hlexeme (ih h hts)

theorem Reads.ends {p : Phrase} {ts : List Token} (h : Reads p ts) : ∀ t ∈ ts, t.ends = false := by
  induction h with
  | array _ ih | object _ ih =>
    rw [List.forall_mem_cons, List.forall_mem_append]
    exact ⟨rfl, ih, by simp [Token.ends]⟩
  | item _ ih => exact ih
  | items _ _ ih ih' =>
    rw [List.forall_mem_append, List.forall_mem_cons]
    exact ⟨ih, rfl, ih'⟩
  | member _ ih =>
    rw [List.forall_mem_cons, List.forall_mem_cons]
    exact ⟨rfl, rfl, ih⟩
  | members _ _ ih ih' =>
    rw [List.forall_mem_cons, List.forall_mem_cons, List.forall_mem_append, List.forall_mem_cons]
    exact ⟨rfl, rfl, ih, rfl, ih'⟩
  | _ => simp [Token.ends]

theorem texts_tokens (text : List UInt8) : Texts (tokens strtod text) := by
  fun_induction tokens strtod text with
  | case1 text hends =>
    intro b hb
    rw [List.mem_singleton] at hb
    rw [← hb] at hends
    cases hends
  | case2 text hends ih =>
    intro b hb
    obtain hb | hb := List.mem_cons.mp hb
    · have hscan : scan strtod text = (.valueString b, (scan strtod text).2) := by rw [hb]
      obtain ⟨w, -, ⟨hend, -⟩ | ⟨t, -, hlexeme⟩⟩ := scan_sound hscan nofun
      · cases hend
      · cases hlexeme with
        | string _ => exact ⟨_, rfl⟩
        | number hnumber => cases hnumber
    · exact ih b hb

def byteOrderMark : List UInt8 := [0xEF, 0xBB, 0xBF]

theorem skipBom_eq_some {s text : List UInt8} (h : skipBom s = some text) :
    s = text ∨ s = byteOrderMark ++ text := by
  unfold skipBom at h
  split at h
  next c input =>
    split at h
    next hc =>
      split at h
      next d e input =>
        split at h
        next hde =>
          obtain ⟨rfl, rfl⟩ := hde
          cases h
          exact .inr (hc ▸ rfl)
        next => cases h
      next => cases h
    next => exact .inl (Option.some.inj h)
  next => exact .inl (Option.some.inj h)

theorem JsonText.skipBom {text : List UInt8} {j : Json} (h : JsonText strtod text j) :
    skipBom text = some text := by
  obtain ⟨ts, hspelling, hreads⟩ := h
  obtain ⟨t, ts, rfl, -⟩ := hreads.parsed.1
  obtain ⟨c, r, rfl, hc⟩ : ∃ c r, text = c :: r ∧ c ≠ 0xEF := by
    cases hspelling with
    | @token w t rest _ _ hw hlexeme _ =>
      cases w with
      | nil =>
        obtain ⟨c, t', rfl, hc⟩ := hlexeme.head_ne
        exact ⟨c, t' ++ rest, rfl, hc⟩
      | cons c w =>
        refine ⟨c, w ++ (t ++ rest), rfl, ?_⟩
        rintro rfl
        cases hw 0xEF (.head _)
  simp only [Lexer.skipBom, hc, if_false]

theorem JsonText.parse_eq {text : List UInt8} {j : Json} (h : JsonText strtod text j) :
    parse strtod text = some j := by
  rw [parse, h.skipBom]
  obtain ⟨ts, hspelling, hreads⟩ := h
  dsimp only
  rw [hspelling.tokens_eq hreads.apart, hreads.parsed.2]
  simp [evaluateState, Dom.handleValue]

theorem jsonText_of_parseValue {text : List UInt8} {dom : Dom} {rest : List Token}
    (h : parseValue [] ⟨.null, []⟩ (tokens strtod text) = some (dom, .endOfInput :: rest)) :
    JsonText strtod text dom.root := by
  obtain ⟨us, rest', j, heq, hreads, heval⟩ := soundValue _ (texts_tokens text) _ _ _ h
  simp only [evaluateState, Dom.handleValue, Option.some.injEq, Prod.mk.injEq] at heval
  obtain ⟨rfl, rfl⟩ := heval
  exact ⟨us, spelling_of_tokens heq hreads.ends, hreads⟩

theorem jsonText_of_parse {s : List UInt8} {j : Json} (h : parse strtod s = some j) :
    ∃ text, (s = text ∨ s = byteOrderMark ++ text) ∧ JsonText strtod text j := by
  unfold parse at h
  split at h
  next => cases h
  next input hinput =>
    split at h
    next dom rest hparse =>
      cases h
      exact ⟨input, skipBom_eq_some hinput, jsonText_of_parseValue hparse⟩
    next => cases h

theorem parse_eq_some_iff (s : List UInt8) (j : Json) :
    parse strtod s = some j ↔ ∃ text, (s = text ∨ s = byteOrderMark ++ text) ∧
    JsonText strtod text j := by
  constructor
  · exact jsonText_of_parse
  · rintro ⟨text, rfl | rfl, htext⟩
    · exact htext.parse_eq
    · have hmark : parse strtod (byteOrderMark ++ text) = parse strtod text := by
        rw [parse, parse, htext.skipBom]
        rfl
      rw [hmark, htext.parse_eq]

end Spelling

end ChatServer
