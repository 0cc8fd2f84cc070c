import ChatServer.Protocol.Lexer
import Mathlib.Data.List.TakeWhile

namespace ChatServer

namespace Lexer

open Lib

def HexDigit (b : UInt8) (n : Nat) : Prop :=
  (b.toNat = 0x30 + n ∧ n < 10) ∨ (b.toNat = 0x37 + n ∧ 10 ≤ n ∧ n < 16) ∨
    (b.toNat = 0x57 + n ∧ 10 ≤ n ∧ n < 16)

inductive CodeUnit : List UInt8 → Nat → Prop
  | intro {a b c d : UInt8} {w x y z : Nat} : HexDigit a w → HexDigit b x →
    HexDigit c y → HexDigit d z →
      CodeUnit [a, b, c, d] (w * 0x1000 + x * 0x100 + y * 0x10 + z)

def shortEscapes : List (UInt8 × Char) :=
  [(0x22, '"'), (0x5C, '\\'), (0x2F, '/'), (0x62, '\x08'), (0x66, '\x0C'), (0x6E, '\n'),
    (0x72, '\r'), (0x74, '\t')]

inductive Spells : List UInt8 → Char → Prop
  | plain {ch : Char} : 0x20 ≤ ch.toNat → ch ≠ '"' → ch ≠ '\\' →
    Spells (String.utf8EncodeChar ch) ch
  | short {b : UInt8} {ch : Char} : (b, ch) ∈ shortEscapes → Spells [0x5C, b] ch
  | unit {ds : List UInt8} {ch : Char} : CodeUnit ds ch.toNat → Spells (0x5C :: 0x75 :: ds) ch
  | pair {ds es : List UInt8} {hi lo : Nat} {ch : Char} : CodeUnit ds (0xD800 + hi) →
      CodeUnit es (0xDC00 + lo) →
      hi < 0x400 → lo < 0x400 → ch.toNat = 0x10000 + hi * 0x400 + lo →
      Spells (0x5C :: 0x75 :: ds ++ 0x5C :: 0x75 :: es) ch

inductive Spelled : List UInt8 → List Char → Prop
  | nil : Spelled [] []
  | cons {t ts : List UInt8} {c : Char} {cs : List Char} : Spells t c → Spelled ts cs →
      Spelled (t ++ ts) (c :: cs)

section Character

theorem hexValue_eq_some_iff {b : UInt8} {n : Nat} : hexValue b = some n ↔ HexDigit b n := by
  have hb := b.toNat_lt
  simp only [hexValue, HexDigit, UInt8.le_iff_toNat_le, UInt8.reduceToNat]
  repeat' split
  all_goals simp only [Option.some.injEq, reduceCtorEq, false_iff]
  all_goals omega

theorem getCodepoint_eq_some_iff {input rest : List UInt8} {n : Nat} :
    getCodepoint input = some (n, rest) ↔ ∃ ds, input = ds ++ rest ∧ CodeUnit ds n := by
  constructor
  · intro h
    match input, h with
    | a :: b :: c :: d :: input, h =>
      simp only [getCodepoint, getCodepointFrom] at h
      split at h <;> try cases h
      next w hw =>
      split at h <;> try cases h
      next x hx =>
      split at h <;> try cases h
      next y hy =>
      split at h <;> try cases h
      next z hz =>
      refine ⟨[a, b, c, d], rfl, ?_⟩
      have hunit := CodeUnit.intro (hexValue_eq_some_iff.mp hw) (hexValue_eq_some_iff.mp hx)
        (hexValue_eq_some_iff.mp hy) (hexValue_eq_some_iff.mp hz)
      simpa [Nat.shiftLeft_eq] using hunit
    | [], h => cases h
    | [a], h => simp only [getCodepoint, getCodepointFrom] at h; split at h <;> cases h
    | [a, b], h =>
      simp only [getCodepoint, getCodepointFrom] at h
      repeat' split at h
      all_goals cases h
    | [a, b, c], h =>
      simp only [getCodepoint, getCodepointFrom] at h
      repeat' split at h
      all_goals cases h
  · rintro ⟨ds, rfl, hunit⟩
    cases hunit with
    | intro ha hb hc hd =>
      simp [getCodepoint, getCodepointFrom, hexValue_eq_some_iff.mpr ha,
        hexValue_eq_some_iff.mpr hb, hexValue_eq_some_iff.mpr hc, hexValue_eq_some_iff.mpr hd,
          Nat.shiftLeft_eq]

theorem codepointBytes_eq (ch : Char) : codepointBytes ch.toNat = String.utf8EncodeChar ch := by
  have hvalid : ch.toNat.isValidChar := ch.valid
  unfold Nat.isValidChar at hvalid
  have htwo : ∀ x, x < 2 ^ 6 → 0xC0 ||| x = x + 0xC0 := fun x hx =>
    (Nat.shiftLeft_add_eq_or_of_lt hx 3).symm.trans (Nat.add_comm _ _)
  have hthree : ∀ x, x < 2 ^ 4 → 0xE0 ||| x = x + 0xE0 := fun x hx =>
    (Nat.shiftLeft_add_eq_or_of_lt hx 14).symm.trans (Nat.add_comm _ _)
  have hfour : ∀ x, x < 2 ^ 3 → 0xF0 ||| x = x + 0xF0 := fun x hx =>
    (Nat.shiftLeft_add_eq_or_of_lt hx 30).symm.trans (Nat.add_comm _ _)
  have hnext : ∀ x, 0x80 ||| (x &&& 0x3F) = x % 64 + 0x80 := fun x => by
    rw [show x &&& 0x3F = x % 2 ^ 6 from Nat.and_two_pow_sub_one_eq_mod x 6]
    exact (Nat.shiftLeft_add_eq_or_of_lt (Nat.mod_lt x (Nat.two_pow_pos 6)) 2).symm.trans
      (Nat.add_comm _ _)
  simp only [codepointBytes, String.utf8EncodeChar, Char.toNat_val, hnext,
    Nat.shiftRight_eq_div_pow]
  split
  · rw [if_pos (by omega)]
  have hascii : ¬ch.toNat ≤ 127 := by omega
  rw [if_neg hascii]
  split
  · rw [htwo _ (by omega)]
    congr 2
    omega
  split
  · rw [hthree _ (by omega)]
    congr 2
    omega
  · rw [hfour _ (by omega)]
    congr 2
    omega

theorem codeUnit_lt {ds : List UInt8} {n : Nat} (h : CodeUnit ds n) : n < 0x10000 := by
  cases h with
  | intro ha hb hc hd =>
    unfold HexDigit at ha hb hc hd
    omega

theorem surrogates_eq {hi lo : Nat} :
    (0xD800 + hi) <<< 10 + (0xDC00 + lo) - 0x35FDC00 = 0x10000 + hi * 0x400 + lo := by
  rw [Nat.shiftLeft_eq]
  omega

theorem scanUnicode_sound {input added rest : List UInt8}
    (h : scanUnicode input = some (added, rest)) :
    ∃ t ch, input = t ++ rest ∧ Spells (0x5C :: 0x75 :: t) ch ∧
    added = String.utf8EncodeChar ch := by
  unfold scanUnicode at h
  split at h
  · cases h
  next n input1 h1 =>
  obtain ⟨ds, rfl, hds⟩ := getCodepoint_eq_some_iff.mp h1
  have hn := codeUnit_lt hds
  split at h
  next hhigh =>
    split at h
    next b u input2 =>
      split at h
      next hbu =>
        obtain ⟨rfl, rfl⟩ := hbu
        split at h
        · cases h
        next m input3 h3 =>
        obtain ⟨es, rfl, hes⟩ := getCodepoint_eq_some_iff.mp h3
        split at h
        next hlow =>
          obtain ⟨hi, rfl⟩ : ∃ hi, n = 0xD800 + hi := Nat.exists_eq_add_of_le hhigh.1
          obtain ⟨lo, rfl⟩ : ∃ lo, m = 0xDC00 + lo := Nat.exists_eq_add_of_le hlow.1
          rw [surrogates_eq] at h
          obtain ⟨ch, hch⟩ :=
            Utf8.exists_char (v := 0x10000 + hi * 0x400 + lo) (by unfold Nat.isValidChar; omega)
          rw [← hch, codepointBytes_eq] at h
          obtain ⟨rfl, rfl⟩ := Prod.mk.inj (Option.some.inj h)
          exact ⟨ds ++ 0x5C :: 0x75 :: es, ch, by simp, .pair hds hes (by omega) (by omega) hch,
            rfl⟩
        · cases h
      · cases h
    · cases h
  next hhigh =>
    split at h
    · cases h
    next hlow =>
      obtain ⟨ch, rfl⟩ := Utf8.exists_char (v := n) (by unfold Nat.isValidChar; omega)
      rw [codepointBytes_eq] at h
      obtain ⟨rfl, rfl⟩ := Prod.mk.inj (Option.some.inj h)
      exact ⟨ds, ch, rfl, .unit hds, rfl⟩

theorem scanUnicode_unit {ds : List UInt8} {ch : Char} (h : CodeUnit ds ch.toNat)
    (rest : List UInt8) : scanUnicode (ds ++ rest) = some (String.utf8EncodeChar ch, rest) := by
  have hvalid : ch.toNat.isValidChar := ch.valid
  have hlt := codeUnit_lt h
  unfold Nat.isValidChar at hvalid
  rw [scanUnicode, getCodepoint_eq_some_iff.mpr ⟨ds, rfl, h⟩]
  dsimp only
  rw [if_neg (by omega), if_neg (by omega), codepointBytes_eq]

theorem scanUnicode_pair {ds es : List UInt8} {hi lo : Nat} {ch : Char}
    (hds : CodeUnit ds (0xD800 + hi))
    (hes : CodeUnit es (0xDC00 + lo)) (hhi : hi < 0x400) (hlo : lo < 0x400)
    (hch : ch.toNat = 0x10000 + hi * 0x400 + lo) (rest : List UInt8) :
    scanUnicode (ds ++ 0x5C :: 0x75 :: es ++ rest) = some (String.utf8EncodeChar ch, rest) := by
  have hsecond : getCodepoint (es ++ rest) = some (0xDC00 + lo, rest) :=
    getCodepoint_eq_some_iff.mpr ⟨es, rfl, hes⟩
  rw [scanUnicode, List.append_assoc, getCodepoint_eq_some_iff.mpr ⟨ds, rfl, hds⟩]
  dsimp only [List.cons_append]
  rw [if_pos (by omega), if_pos ⟨rfl, rfl⟩, hsecond]
  dsimp only
  rw [if_pos (by omega), surrogates_eq, ← hch, codepointBytes_eq]

def InRanges : List UInt8 → List (UInt8 × UInt8) → Prop :=
  List.Forall₂ fun c range => range.1 ≤ c ∧ c ≤ range.2

theorem inRanges_of_nextByteInRange {ranges : List (UInt8 × UInt8)} {input added rest : List UInt8}
    (h : nextByteInRange ranges input = some (added, rest)) : InRanges added ranges := by
  induction ranges generalizing input added with
  | nil =>
    cases h
    exact .nil
  | cons range ranges ih =>
    cases input with
    | nil => cases h
    | cons c input =>
      rw [nextByteInRange] at h
      split at h
      next hin =>
        obtain ⟨⟨added', rest'⟩, hadded, heq⟩ := Option.map_eq_some_iff.mp h
        cases heq
        exact .cons hin (ih hadded)
      next => cases h

theorem nextByteInRange_of_inRanges {ranges : List (UInt8 × UInt8)} {added : List UInt8}
    (h : InRanges added ranges)
    (rest : List UInt8) : nextByteInRange ranges (added ++ rest) = some (added, rest) := by
  induction h with
  | nil => rfl
  | cons hin hins ih =>
    rw [List.cons_append, nextByteInRange, if_pos hin, ih]
    rfl

theorem sequence_of_inRanges {c : UInt8} {added : List UInt8} {ranges : List (UInt8 × UInt8)}
    (h : byteRanges c = some ranges) (hin : InRanges added ranges) : Utf8.Sequence (c :: added) ∧
    0x20 ≤ c.toNat := by
  have hc := c.toNat_lt
  simp only [byteRanges, UInt8.le_iff_toNat_le, ← UInt8.toNat_inj, UInt8.reduceToNat] at h
  repeat' split at h
  all_goals cases h
  all_goals simp only [InRanges, List.forall₂_cons_right_iff, List.forall₂_nil_right_iff,
    UInt8.le_iff_toNat_le, UInt8.reduceToNat] at hin
  · subst hin
    exact ⟨.one (by omega), by omega⟩
  · obtain ⟨d, _, hd, rfl, rfl⟩ := hin
    exact ⟨.two (by omega) (by omega) hd, by omega⟩
  -- the three-byte characters: `E0`, the plain ones, `ED`
  iterate 3
    · obtain ⟨d, _, hd, ⟨e, _, he, rfl, rfl⟩, rfl⟩ := hin
      exact ⟨.three (by omega) (by omega) ⟨by omega, by omega⟩ he (by omega) (by omega), by omega⟩
  -- the four-byte characters: `F0`, the plain ones, `F4`
  all_goals
    obtain ⟨d, _, hd, ⟨e, _, he, ⟨f, _, hf, rfl, rfl⟩, rfl⟩, rfl⟩ := hin
    exact ⟨.four (by omega) (by omega) ⟨by omega, by omega⟩ he hf (by omega) (by omega), by omega⟩

theorem inRanges_of_sequence {c : UInt8} {added : List UInt8} (h : Utf8.Sequence (c :: added))
    (hc : 0x20 ≤ c.toNat) : ∃ ranges, byteRanges c = some ranges ∧ InRanges added ranges := by
  simp only [byteRanges, UInt8.le_iff_toNat_le, ← UInt8.toNat_inj, UInt8.reduceToNat]
  cases h with
  | one h => exact ⟨[], by rw [if_neg (by omega), if_pos (by omega)], .nil⟩
  | two h h' hd =>
    exact ⟨[(0x80, 0xBF)], by rw [if_neg (by omega), if_neg (by omega), if_pos (by omega)],
      .cons hd .nil⟩
  | three h h' hd he hlow hsurrogate =>
    obtain hE0 | hED | hplain : c.toNat = 0xE0 ∨ c.toNat = 0xED ∨
      (c.toNat ≠ 0xE0 ∧ c.toNat ≠ 0xED) := by omega
    · exact ⟨[(0xA0, 0xBF), (0x80, 0xBF)], by simp [hE0], .cons ⟨hlow hE0, hd.2⟩ (.cons he .nil)⟩
    · exact ⟨[(0x80, 0x9F), (0x80, 0xBF)], by simp [hED],
        .cons ⟨hd.1, hsurrogate hED⟩ (.cons he .nil)⟩
    · refine ⟨[(0x80, 0xBF), (0x80, 0xBF)], ?_, .cons hd (.cons he .nil)⟩
      rw [if_neg (by omega), if_neg (by omega), if_neg (by omega), if_neg (by omega),
        if_pos (by omega)]
  | four h h' hd he hf hlow hhigh =>
    obtain hF0 | hF4 | hplain : c.toNat = 0xF0 ∨ c.toNat = 0xF4 ∨
      (c.toNat ≠ 0xF0 ∧ c.toNat ≠ 0xF4) := by omega
    · exact ⟨[(0x90, 0xBF), (0x80, 0xBF), (0x80, 0xBF)], by simp [hF0],
        .cons ⟨hlow hF0, hd.2⟩ (.cons he (.cons hf .nil))⟩
    · exact ⟨[(0x80, 0x8F), (0x80, 0xBF), (0x80, 0xBF)], by simp [hF4],
        .cons ⟨hd.1, hhigh hF4⟩ (.cons he (.cons hf .nil))⟩
    · refine ⟨[(0x80, 0xBF), (0x80, 0xBF), (0x80, 0xBF)], ?_, .cons hd (.cons he (.cons hf .nil))⟩
      rw [if_neg (by omega), if_neg (by omega), if_neg (by omega), if_neg (by omega),
        if_neg (by omega), if_neg (by omega), if_neg (by omega), if_pos (by omega)]

theorem scanEscape_short {b : UInt8} {ch : Char} (h : (b, ch) ∈ shortEscapes) (rest : List UInt8) :
    scanEscape (b :: rest) = some (String.utf8EncodeChar ch, rest) := by
  simp only [shortEscapes, List.mem_cons, List.not_mem_nil, or_false, Prod.mk.injEq] at h
  obtain h | h | h | h | h | h | h | h := h <;> obtain ⟨rfl, rfl⟩ := h <;> rfl

theorem scanEscape_sound {e : UInt8} {input added rest : List UInt8}
    (h : scanEscape (e :: input) = some (added, rest)) :
    (∃ ch, (e, ch) ∈ shortEscapes ∧ added = String.utf8EncodeChar ch ∧ rest = input) ∨
      (e = 0x75 ∧ scanUnicode input = some (added, rest)) := by
  have short : ∀ (b : UInt8) (ch : Char), (b, ch) ∈ shortEscapes → e = b →
      some (String.utf8EncodeChar ch, input) = some (added, rest) →
      ∃ ch, (e, ch) ∈ shortEscapes ∧ added = String.utf8EncodeChar ch ∧ rest = input := by
    intro b ch hmem he h
    obtain ⟨rfl, rfl⟩ := Prod.mk.inj (Option.some.inj h)
    exact ⟨ch, he ▸ hmem, rfl, rfl⟩
  simp only [scanEscape] at h
  split at h
  · exact .inl (short 0x22 '"' (by decide) ‹_› h)
  split at h
  · exact .inl (short 0x5C '\\' (by decide) ‹_› h)
  split at h
  · exact .inl (short 0x2F '/' (by decide) ‹_› h)
  split at h
  · exact .inl (short 0x62 '\x08' (by decide) ‹_› h)
  split at h
  · exact .inl (short 0x66 '\x0C' (by decide) ‹_› h)
  split at h
  · exact .inl (short 0x6E '\n' (by decide) ‹_› h)
  split at h
  · exact .inl (short 0x72 '\r' (by decide) ‹_› h)
  split at h
  · exact .inl (short 0x74 '\t' (by decide) ‹_› h)
  split at h
  · exact .inr ⟨‹_›, h⟩
  · cases h

theorem scanCharacter_sound {c : UInt8} {input added rest : List UInt8} (hc : c ≠ 0x22)
    (h : scanCharacter c input = some (added, rest)) :
    ∃ t ch, c :: input = t ++ rest ∧ Spells t ch ∧ added = String.utf8EncodeChar ch := by
  unfold scanCharacter at h
  split at h
  next hescape =>
    subst hescape
    cases input with
    | nil => cases h
    | cons e input =>
      obtain ⟨ch, hmem, rfl, rfl⟩ | ⟨rfl, hunicode⟩ := scanEscape_sound h
      · exact ⟨[0x5C, e], ch, rfl, .short hmem, rfl⟩
      · obtain ⟨t, ch, rfl, hspells, rfl⟩ := scanUnicode_sound hunicode
        exact ⟨_, ch, rfl, hspells, rfl⟩
  next hplain =>
    split at h
    next ranges hranges =>
      obtain ⟨⟨added', rest'⟩, hadded, heq⟩ := Option.map_eq_some_iff.mp h
      obtain ⟨rfl, rfl⟩ := Prod.mk.inj heq
      obtain ⟨hseq, hle⟩ := sequence_of_inRanges hranges (inRanges_of_nextByteInRange hadded)
      obtain ⟨ch, hch⟩ := hseq.exists_char
      have hhead := Utf8.encode_head hch
      refine ⟨c :: added', ch, by rw [nextByteInRange_shorter hadded]; rfl, ?_, hch.symm⟩
      rw [← hch]
      apply Spells.plain
      · omega
      · rintro rfl
        obtain ⟨hbyte, -⟩ | ⟨hge, -⟩ := hhead
        · exact hc (UInt8.toNat_inj.mp hbyte.symm)
        · exact absurd hge (by decide)
      · rintro rfl
        obtain ⟨hbyte, -⟩ | ⟨hge, -⟩ := hhead
        · exact hplain (UInt8.toNat_inj.mp hbyte.symm)
        · exact absurd hge (by decide)
    · cases h

theorem scanCharacter_complete {t : List UInt8} {ch : Char} (h : Spells t ch) :
    ∃ c t', t = c :: t' ∧ c ≠ 0x22 ∧
    ∀ rest, scanCharacter c (t' ++ rest) = some (String.utf8EncodeChar ch, rest) := by
  cases h with
  | plain hle hquote hbackslash =>
    obtain ⟨c, t', ht⟩ := Utf8.encode_cons ch
    have hc : 0x20 ≤ c.toNat := by
      have hhead := Utf8.encode_head ht
      omega
    have hseq := Utf8.sequence_encode ch
    rw [ht] at hseq ⊢
    obtain ⟨ranges, hranges, hin⟩ := inRanges_of_sequence hseq hc
    have hquote' : c ≠ 0x22 := fun hc => Utf8.head_ne (d := '"') (by decide) hquote ht (hc ▸ rfl)
    have hbackslash' : c ≠ 0x5C :=
      fun hc => Utf8.head_ne (d := '\\') (by decide) hbackslash ht (hc ▸ rfl)
    refine ⟨c, t', rfl, hquote', fun rest => ?_⟩
    rw [scanCharacter, if_neg hbackslash', hranges]
    dsimp only
    rw [nextByteInRange_of_inRanges hin]
    rfl
  | short hmem =>
    refine ⟨0x5C, [_], rfl, by decide, fun rest => ?_⟩
    rw [scanCharacter, if_pos rfl]
    exact scanEscape_short hmem rest
  | unit hunit =>
    refine ⟨0x5C, _, rfl, by decide, fun rest => ?_⟩
    rw [scanCharacter, if_pos rfl]
    exact scanUnicode_unit hunit rest
  | pair hds hes hhi hlo hch =>
    refine ⟨0x5C, _, rfl, by decide, fun rest => ?_⟩
    rw [scanCharacter, if_pos rfl]
    exact scanUnicode_pair hds hes hhi hlo hch rest

end Character

section Text

theorem scanStringFrom_sound {buffer input result rest : List UInt8}
    (h : scanStringFrom buffer input = some (result, rest)) :
    ∃ t cs, input = t ++ 0x22 :: rest ∧ Spelled t cs ∧
    result = buffer ++ cs.flatMap String.utf8EncodeChar := by
  fun_induction scanStringFrom buffer input with
  | case1 => cases h
  | case2 buffer input =>
    cases h
    exact ⟨[], [], rfl, .nil, by simp⟩
  | case3 => cases h
  | case4 buffer c input hc added rest' hadded ih =>
    obtain ⟨t, cs, rfl, hspelled, rfl⟩ := ih h
    obtain ⟨t', ch, heq, hspells, rfl⟩ := scanCharacter_sound hc hadded
    exact ⟨t' ++ t, ch :: cs, by rw [heq, List.append_assoc], .cons hspells hspelled, by simp⟩

theorem scanStringFrom_complete {t : List UInt8} {cs : List Char} (h : Spelled t cs)
    (buffer rest : List UInt8) :
    scanStringFrom buffer (t ++ 0x22 :: rest) = some (buffer ++ cs.flatMap String.utf8EncodeChar,
      rest) := by
  induction h generalizing buffer with
  | nil => simp [scanStringFrom]
  | @cons t ts c cs hspells hspelled ih =>
    obtain ⟨b, t', rfl, hb, hread⟩ := scanCharacter_complete hspells
    rw [List.append_assoc, List.cons_append, scanStringFrom, if_neg hb]
    split
    next hnone =>
      rw [hread] at hnone
      cases hnone
    next added rest' hsome =>
      rw [hread] at hsome
      cases hsome
      rw [ih]
      simp

end Text

def Digits (ds : List UInt8) : Prop := ds ≠ [] ∧ ∀ d ∈ ds, isDigit d

inductive Whole : List UInt8 → Prop
  | zero : Whole [0x30]
  | digits {d : UInt8} {ds : List UInt8} : isDigit d → d ≠ 0x30 → (∀ d ∈ ds, isDigit d) →
      Whole (d :: ds)

inductive Fraction : List UInt8 → Prop
  | none : Fraction []
  | some {ds : List UInt8} : Digits ds → Fraction (0x2E :: ds)

inductive Exponent : List UInt8 → Prop
  | none : Exponent []
  | plain {e : UInt8} {ds : List UInt8} : isExponent e → Digits ds → Exponent (e :: ds)
  | signed {e s : UInt8} {ds : List UInt8} : isExponent e → s = 0x2B ∨ s = 0x2D → Digits ds →
      Exponent (e :: s :: ds)

def Label.Rest : Label → List UInt8 → Prop
  | .any2, t => ∀ d ∈ t, isDigit d
  | .sign, t => Digits t
  | .exponent, t => Digits t ∨ ∃ s ds, t = s :: ds ∧ (s = 0x2B ∨ s = 0x2D) ∧ Digits ds
  | .decimal2, t => ∃ ds e, t = ds ++ e ∧ (∀ d ∈ ds, isDigit d) ∧ Exponent e
  | .decimal1, t => ∃ ds e, t = ds ++ e ∧ Digits ds ∧ Exponent e
  | .any1, t => ∃ ds f e, t = ds ++ (f ++ e) ∧ (∀ d ∈ ds, isDigit d) ∧ Fraction f ∧ Exponent e
  | .zero, t => ∃ f e, t = f ++ e ∧ Fraction f ∧ Exponent e
  | .minus, t => ∃ w f e, t = w ++ (f ++ e) ∧ Whole w ∧ Fraction f ∧ Exponent e

section Number

theorem isDigit_ne {c : UInt8} (h : isDigit c) :
    c ≠ 0x2E ∧ isExponent c = false ∧ c ≠ 0x2B ∧ c ≠ 0x2D := by
  refine ⟨?_, ?_, ?_, ?_⟩
  · rintro rfl
    cases h
  · simp only [isExponent, Bool.or_eq_false_iff, decide_eq_false_iff_not]
    refine ⟨?_, ?_⟩ <;> rintro rfl <;> cases h
  · rintro rfl
    cases h
  · rintro rfl
    cases h

theorem digits_cons {c : UInt8} {t : List UInt8} :
    Digits (c :: t) ↔ isDigit c ∧ ∀ d ∈ t, isDigit d := by
  simp [Digits]

theorem exponent_cons {c : UInt8} {t : List UInt8} :
    Exponent (c :: t) ↔ isExponent c ∧ Label.exponent.Rest t := by
  constructor
  · intro h
    cases h with
    | plain he hds => exact ⟨he, .inl hds⟩
    | signed he hs hds => exact ⟨he, .inr ⟨_, _, rfl, hs, hds⟩⟩
  · rintro ⟨he, hds | ⟨s, ds, rfl, hs, hds⟩⟩
    · exact .plain he hds
    · exact .signed he hs hds

theorem rest_zero_cons {c : UInt8} {t : List UInt8} :
    Label.zero.Rest (c :: t) ↔ (c = 0x2E ∧ Label.decimal1.Rest t) ∨
    (isExponent c ∧ Label.exponent.Rest t) := by
  constructor
  · rintro ⟨f, e, h, hf, he⟩
    cases hf with
    | none => exact .inr (exponent_cons.mp (h ▸ he))
    | some hds =>
      obtain ⟨rfl, rfl⟩ := List.cons.inj h
      exact .inl ⟨rfl, _, _, rfl, hds, he⟩
  · rintro (⟨rfl, ds, e, rfl, hds, he⟩ | he)
    · exact ⟨0x2E :: ds, e, rfl, .some hds, he⟩
    · exact ⟨[], c :: t, rfl, .none, exponent_cons.mpr he⟩

theorem rest_decimal2_cons {c : UInt8} {t : List UInt8} :
    Label.decimal2.Rest (c :: t) ↔ (isDigit c ∧ Label.decimal2.Rest t) ∨
    (isExponent c ∧ Label.exponent.Rest t) := by
  constructor
  · rintro ⟨ds, e, h, hds, he⟩
    cases ds with
    | nil => exact .inr (exponent_cons.mp (h ▸ he))
    | cons d ds =>
      obtain ⟨rfl, rfl⟩ := List.cons.inj h
      rw [List.forall_mem_cons] at hds
      exact .inl ⟨hds.1, ds, e, rfl, hds.2, he⟩
  · rintro (⟨hc, ds, e, rfl, hds, he⟩ | he)
    · exact ⟨c :: ds, e, rfl, List.forall_mem_cons.mpr ⟨hc, hds⟩, he⟩
    · exact ⟨[], c :: t, rfl, by simp, exponent_cons.mpr he⟩

theorem rest_decimal1_cons {c : UInt8} {t : List UInt8} :
    Label.decimal1.Rest (c :: t) ↔ isDigit c ∧ Label.decimal2.Rest t := by
  constructor
  · rintro ⟨ds, e, h, ⟨hne, hds⟩, he⟩
    cases ds with
    | nil => exact absurd rfl hne
    | cons d ds =>
      obtain ⟨rfl, rfl⟩ := List.cons.inj h
      rw [List.forall_mem_cons] at hds
      exact ⟨hds.1, ds, e, rfl, hds.2, he⟩
  · rintro ⟨hc, ds, e, rfl, hds, he⟩
    exact ⟨c :: ds, e, rfl, digits_cons.mpr ⟨hc, hds⟩, he⟩

theorem rest_any1_cons {c : UInt8} {t : List UInt8} :
    Label.any1.Rest (c :: t) ↔ (isDigit c ∧ Label.any1.Rest t) ∨ Label.zero.Rest (c :: t) := by
  constructor
  · rintro ⟨ds, f, e, h, hds, hf, he⟩
    cases ds with
    | nil => exact .inr ⟨f, e, h, hf, he⟩
    | cons d ds =>
      obtain ⟨rfl, rfl⟩ := List.cons.inj h
      rw [List.forall_mem_cons] at hds
      exact .inl ⟨hds.1, ds, f, e, rfl, hds.2, hf, he⟩
  · rintro (⟨hc, ds, f, e, rfl, hds, hf, he⟩ | ⟨f, e, h, hf, he⟩)
    · exact ⟨c :: ds, f, e, rfl, List.forall_mem_cons.mpr ⟨hc, hds⟩, hf, he⟩
    · exact ⟨[], f, e, h, by simp, hf, he⟩

theorem rest_minus_cons {c : UInt8} {t : List UInt8} :
    Label.minus.Rest (c :: t) ↔ (c = 0x30 ∧ Label.zero.Rest t) ∨
    (isDigit c ∧ c ≠ 0x30 ∧ Label.any1.Rest t) := by
  constructor
  · rintro ⟨w, f, e, h, hw, hf, he⟩
    cases hw with
    | zero =>
      obtain ⟨rfl, rfl⟩ := List.cons.inj h
      exact .inl ⟨rfl, f, e, rfl, hf, he⟩
    | digits hd hne hds =>
      obtain ⟨rfl, rfl⟩ := List.cons.inj h
      exact .inr ⟨hd, hne, _, f, e, rfl, hds, hf, he⟩
  · rintro (⟨rfl, f, e, rfl, hf, he⟩ | ⟨hc, hne, ds, f, e, rfl, hds, hf, he⟩)
    · exact ⟨[0x30], f, e, rfl, .zero, hf, he⟩
    · exact ⟨c :: ds, f, e, rfl, .digits hc hne hds, hf, he⟩

theorem rest_any2_cons {c : UInt8} {t : List UInt8} :
    Label.any2.Rest (c :: t) ↔ isDigit c ∧ Label.any2.Rest t :=
  List.forall_mem_cons

theorem rest_sign_cons {c : UInt8} {t : List UInt8} :
    Label.sign.Rest (c :: t) ↔ isDigit c ∧ Label.any2.Rest t :=
  digits_cons

theorem rest_exponent_cons {c : UInt8} {t : List UInt8} :
    Label.exponent.Rest (c :: t) ↔ (isDigit c ∧ Label.any2.Rest t) ∨
    ((c = 0x2B ∨ c = 0x2D) ∧ Label.sign.Rest t) := by
  constructor
  · rintro (hds | ⟨s, ds, h, hs, hds⟩)
    · exact .inl (digits_cons.mp hds)
    · obtain ⟨rfl, rfl⟩ := List.cons.inj h
      exact .inr ⟨hs, hds⟩
  · rintro (hds | ⟨hs, hds⟩)
    · exact .inl (digits_cons.mpr hds)
    · exact .inr ⟨c, t, rfl, hs, hds⟩

theorem Label.rest_nil {label : Label} : label.Rest [] ↔ label.mayEnd := by
  cases label with
  | minus =>
    refine iff_of_false ?_ (by decide)
    rintro ⟨w, f, e, h, hw, -, -⟩
    cases hw <;> cases h
  | zero => exact iff_of_true ⟨[], [], rfl, .none, .none⟩ rfl
  | any1 => exact iff_of_true ⟨[], [], [], rfl, by simp, .none, .none⟩ rfl
  | decimal1 =>
    refine iff_of_false ?_ (by decide)
    rintro ⟨ds, e, h, ⟨hne, -⟩, -⟩
    exact hne (List.append_eq_nil_iff.mp h.symm).1
  | decimal2 => exact iff_of_true ⟨[], [], rfl, by simp, .none⟩ rfl
  | exponent =>
    refine iff_of_false ?_ (by decide)
    rintro (⟨hne, -⟩ | ⟨s, ds, h, -⟩)
    · exact hne rfl
    · cases h
  | sign =>
    refine iff_of_false ?_ (by decide)
    rintro ⟨hne, -⟩
    exact hne rfl
  | any2 => exact iff_of_true (fun d hd => absurd hd (by simp)) rfl

theorem Label.rest_cons {label : Label} {c : UInt8} {t : List UInt8} :
    label.Rest (c :: t) ↔ ∃ label', label.next c = .label label' ∧ label'.Rest t := by
  have hdigit := @isDigit_ne c
  have hpoint : c = 0x2E → isExponent c = false := by
    rintro rfl
    rfl
  cases label with
  | minus => rw [rest_minus_cons, Label.next]; grind
  | zero => rw [rest_zero_cons, Label.next]; grind
  | any1 => rw [rest_any1_cons, rest_zero_cons, Label.next]; grind
  | decimal1 => rw [rest_decimal1_cons, Label.next]; grind
  | decimal2 => rw [rest_decimal2_cons, Label.next]; grind
  | exponent => rw [rest_exponent_cons, Label.next]; grind
  | sign => rw [rest_sign_cons, Label.next]; grind
  | any2 => rw [rest_any2_cons, Label.next]; grind

def isMark (c : UInt8) : Bool := c = 0x2E || isExponent c

def Label.typeOf (label : Label) (type : NumberType) (t : List UInt8) : NumberType :=
  if t.any isMark then .valueFloat else label.numberType type

theorem Label.next_mark {label label' : Label} {c : UInt8} (h : label.next c = .label label')
    (type : NumberType) :
    label'.numberType (label.numberType type) = if isMark c then .valueFloat
      else label.numberType type := by
  have hdigit : isDigit c → isMark c = false := fun hc => by simp [isMark, isDigit_ne hc]
  have hzero : c = 0x30 → isMark c = false := by
    rintro rfl
    rfl
  have hsign : c = 0x2B ∨ c = 0x2D → isMark c = false := by
    rintro (rfl | rfl) <;> rfl
  have hpoint : c = 0x2E → isMark c = true := by
    rintro rfl
    rfl
  have hexponent : isExponent c → isMark c = true := fun hc => by simp [isMark, hc]
  cases label <;> simp only [Label.next] at h <;> grind [Label.numberType]

theorem Label.typeOf_cons {label label' : Label} {c : UInt8} (h : label.next c = .label label')
    (type : NumberType)
    (t : List UInt8) : label'.typeOf (label.numberType type) t = label.typeOf type (c :: t) := by
  unfold Label.typeOf
  rw [Label.next_mark h, List.any_cons]
  cases isMark c <;> simp

theorem Label.mayEnd_of_done {label : Label} {c : UInt8} (h : label.next c = .done) :
    label.mayEnd := by
  cases label <;> simp only [Label.next] at h <;> grind [Label.mayEnd]

theorem Label.next_of_mayEnd {label : Label} {c : UInt8} (h : label.mayEnd)
    (hdigit : isDigit c = false) (hmark : isMark c = false) : label.next c = .done := by
  simp only [isMark, Bool.or_eq_false_iff, decide_eq_false_iff_not] at hmark
  cases label <;> simp_all [Label.next, Label.mayEnd]

def Stops (rest : List UInt8) : Prop := ∀ c ∈ rest.head?, isDigit c = false ∧ isMark c = false

theorem scanNumberFrom_sound {type type' : NumberType} {buffer buffer' : List UInt8} {label : Label}
    {input rest : List UInt8}
    (h : scanNumberFrom type buffer label input = some (type', buffer', rest)) :
    ∃ t, input = t ++ rest ∧ label.Rest t ∧ buffer' = buffer ++ t ∧
    type' = label.typeOf type t := by
  induction input generalizing type buffer label with
  | nil =>
    rw [scanNumberFrom] at h
    split at h
    next hend =>
      cases h
      exact ⟨[], rfl, Label.rest_nil.mpr hend, by simp, rfl⟩
    next => cases h
  | cons c input ih =>
    rw [scanNumberFrom] at h
    split at h
    next label' hnext =>
      obtain ⟨t, rfl, hrest, rfl, rfl⟩ := ih h
      exact ⟨c :: t, rfl, Label.rest_cons.mpr ⟨label', hnext, hrest⟩, by simp,
        Label.typeOf_cons hnext type t⟩
    next hdone =>
      cases h
      exact ⟨[], rfl, Label.rest_nil.mpr (Label.mayEnd_of_done hdone), by simp, rfl⟩
    next => cases h

theorem scanNumberFrom_complete {label : Label} {t : List UInt8} (h : label.Rest t)
    (type : NumberType) (buffer : List UInt8) {rest : List UInt8} (hstops : Stops rest) :
    scanNumberFrom type buffer label (t ++ rest) = some (label.typeOf type t,
      buffer ++ t, rest) := by
  induction t generalizing type buffer label with
  | nil =>
    have hend := Label.rest_nil.mp h
    cases rest with
    | nil => simp [scanNumberFrom, hend, Label.typeOf]
    | cons c rest =>
      obtain ⟨hdigit, hmark⟩ := hstops c rfl
      simp [scanNumberFrom, Label.next_of_mayEnd hend hdigit hmark, Label.typeOf]
  | cons c t ih =>
    obtain ⟨label', hnext, hrest⟩ := Label.rest_cons.mp h
    rw [List.cons_append, scanNumberFrom, hnext]
    dsimp only
    rw [ih hrest, Label.typeOf_cons hnext, List.append_assoc]
    rfl

section Tokens

variable (strtod : List UInt8 → UInt64)

/-- The texts of numbers.  Integers that do not fit are read as doubles. -/
inductive Number : List UInt8 → Token → Prop
  | unsigned {w : List UInt8} : Whole w → decimalValue w < 2 ^ 64 →
    Number w (.valueUnsigned (decimalValue w))
  | integer {w : List UInt8} : Whole w → decimalValue w ≤ 2 ^ 63 →
      Number (0x2D :: w) (.valueInteger (-decimalValue w))
  | large {w : List UInt8} : Whole w → 2 ^ 64 ≤ decimalValue w → Number w (.valueFloat (strtod w))
  | small {w : List UInt8} : Whole w → 2 ^ 63 < decimalValue w →
      Number (0x2D :: w) (.valueFloat (strtod (0x2D :: w)))
  | float {w f e : List UInt8} : Whole w → Fraction f → Exponent e → f ++ e ≠ [] →
      Number (w ++ (f ++ e)) (.valueFloat (strtod (w ++ (f ++ e))))
  | negative {w f e : List UInt8} : Whole w → Fraction f → Exponent e → f ++ e ≠ [] →
      Number (0x2D :: (w ++ (f ++ e))) (.valueFloat (strtod (0x2D :: (w ++ (f ++ e)))))

inductive Lexeme : List UInt8 → Token → Prop
  | beginArray : Lexeme [0x5B] .beginArray
  | endArray : Lexeme [0x5D] .endArray
  | beginObject : Lexeme [0x7B] .beginObject
  | endObject : Lexeme [0x7D] .endObject
  | nameSeparator : Lexeme [0x3A] .nameSeparator
  | valueSeparator : Lexeme [0x2C] .valueSeparator
  | literalTrue : Lexeme [0x74, 0x72, 0x75, 0x65] .literalTrue
  | literalFalse : Lexeme [0x66, 0x61, 0x6C, 0x73, 0x65] .literalFalse
  | literalNull : Lexeme [0x6E, 0x75, 0x6C, 0x6C] .literalNull
  | string {t : List UInt8} {s : String} : Spelled t s.toList →
      Lexeme (0x22 :: t ++ [0x22]) (.valueString (Utf8.bytes s))
  | number {t : List UInt8} {token : Token} : Number strtod t token → Lexeme t token

variable {strtod}

theorem Whole.isDigit {w : List UInt8} (h : Whole w) : ∀ d ∈ w, isDigit d := by
  cases h with
  | zero => simp [Lexer.isDigit]
  | digits hd _ hds => exact List.forall_mem_cons.mpr ⟨hd, hds⟩

theorem any_isMark {w f e : List UInt8} (hw : Whole w) (hf : Fraction f) (he : Exponent e) :
    (w ++ (f ++ e)).any isMark = true ↔ f ++ e ≠ [] := by
  have hwhole : w.any isMark = false := by
    rw [List.any_eq_false]
    intro d hd
    simp [isMark, isDigit_ne (hw.isDigit d hd)]
  rw [List.any_append, hwhole, Bool.false_or]
  cases hf with
  | some hds => simp [isMark]
  | none =>
    cases he with
    | none => simp
    | plain he => simp [isMark, he]
    | signed he => simp [isMark, he]

theorem typeOf_whole {w : List UInt8} (hw : Whole w) (label : Label) (type : NumberType) :
    label.typeOf type w = label.numberType type := by
  have hmark := any_isMark hw .none .none
  rw [List.nil_append, List.append_nil] at hmark
  exact if_neg fun h => hmark.mp h rfl

theorem typeOf_float {w f e : List UInt8} (hw : Whole w) (hf : Fraction f) (he : Exponent e)
    (hne : f ++ e ≠ [])
    (label : Label) (type : NumberType) : label.typeOf type (w ++ (f ++ e)) = .valueFloat :=
  if_pos ((any_isMark hw hf he).mpr hne)

theorem number_plain {t : List UInt8} (h : Label.minus.Rest t) :
    Number strtod t (convert strtod (Label.zero.typeOf .valueUnsigned t) t) := by
  obtain ⟨w, f, e, rfl, hw, hf, he⟩ := h
  by_cases hfe : f ++ e = []
  · rw [hfe, List.append_nil, typeOf_whole hw, Label.numberType, convert]
    by_cases hlt : decimalValue w < 2 ^ 64
    · rw [if_pos hlt]
      exact .unsigned hw hlt
    · rw [if_neg hlt]
      exact .large hw (Nat.le_of_not_lt hlt)
  · rw [typeOf_float hw hf he hfe]
    exact .float hw hf he hfe

theorem number_minus {t : List UInt8} (h : Label.minus.Rest t) :
    Number strtod (0x2D :: t)
    (convert strtod (Label.minus.typeOf .valueUnsigned t) (0x2D :: t)) := by
  obtain ⟨w, f, e, rfl, hw, hf, he⟩ := h
  by_cases hfe : f ++ e = []
  · rw [hfe, List.append_nil, typeOf_whole hw, Label.numberType, convert, List.tail_cons]
    by_cases hle : decimalValue w ≤ 2 ^ 63
    · rw [if_pos hle]
      exact .integer hw hle
    · rw [if_neg hle]
      exact .small hw (Nat.lt_of_not_le hle)
  · rw [typeOf_float hw hf he hfe]
    exact .negative hw hf he hfe

theorem Number.eq_convert {t : List UInt8} {token : Token} (h : Number strtod t token) :
    (Label.minus.Rest t ∧ token = convert strtod (Label.zero.typeOf .valueUnsigned t) t) ∨
      ∃ u, t = 0x2D :: u ∧ Label.minus.Rest u ∧
      token = convert strtod (Label.minus.typeOf .valueUnsigned u) t := by
  have hrest : ∀ {w}, Whole w → Label.minus.Rest w :=
    fun {w} hw => ⟨w, [], [], by simp, hw, .none, .none⟩
  cases h with
  | unsigned hw hlt =>
      exact .inl ⟨hrest hw, by rw [typeOf_whole hw, Label.numberType, convert, if_pos hlt]⟩
  | large hw hle =>
    exact .inl ⟨hrest hw, by rw [typeOf_whole hw, Label.numberType, convert,
      if_neg (Nat.not_lt.mpr hle)]⟩
  | float hw hf he hne =>
      exact .inl ⟨⟨_, _, _, rfl, hw, hf, he⟩, by rw [typeOf_float hw hf he hne, convert]⟩
  | integer hw hle =>
    exact .inr ⟨_, rfl, hrest hw,
      by rw [typeOf_whole hw, Label.numberType, convert, List.tail_cons, if_pos hle]⟩
  | small hw hlt =>
    refine .inr ⟨_, rfl, hrest hw, ?_⟩
    rw [typeOf_whole hw, Label.numberType, convert, List.tail_cons, if_neg (Nat.not_le.mpr hlt)]
  | negative hw hf he hne =>
      exact .inr ⟨_, rfl, ⟨_, _, _, rfl, hw, hf, he⟩, by rw [typeOf_float hw hf he hne, convert]⟩

theorem scanNumber_sound {c : UInt8} {input rest : List UInt8} {token : Token}
    (hc : c = 0x2D ∨ isDigit c)
    (h : scanNumber strtod c input = (token, rest)) (hok : token ≠ .parseError) :
    ∃ t, c :: input = t ++ rest ∧ Number strtod t token := by
  unfold scanNumber at h
  dsimp only at h
  split at h
  next type buffer rest' hscan =>
    obtain ⟨rfl, rfl⟩ := Prod.mk.inj h
    obtain ⟨t, rfl, hrest, rfl, rfl⟩ := scanNumberFrom_sound hscan
    refine ⟨c :: t, rfl, ?_⟩
    by_cases hminus : c = 0x2D
    · subst hminus
      exact number_minus hrest
    · have hdigit : isDigit c := hc.resolve_left hminus
      have hmark : isMark c = false := by simp [isMark, isDigit_ne hdigit]
      by_cases hzero : c = 0x30
      · subst hzero
        exact number_plain (rest_minus_cons.mpr (.inl ⟨rfl, hrest⟩))
      · rw [if_neg hminus, if_neg hzero] at hrest ⊢
        have hplain : Number strtod (c :: t) _ :=
          number_plain (rest_minus_cons.mpr (.inr ⟨hdigit, hzero, hrest⟩))
        rwa [Label.typeOf, List.any_cons, hmark] at hplain
  next => exact absurd (Prod.mk.inj h).1.symm hok

theorem scanNumber_complete {t : List UInt8} {token : Token} (h : Number strtod t token) :
    ∃ c t', t = c :: t' ∧ (c = 0x2D ∨ isDigit c) ∧
      ∀ rest, Stops rest → scanNumber strtod c (t' ++ rest) = (token, rest) := by
  obtain ⟨hrest, rfl⟩ | ⟨u, rfl, hrest, rfl⟩ := h.eq_convert
  · cases t with
    | nil => exact absurd (Label.rest_nil.mp hrest) (by decide)
    | cons c t =>
      obtain ⟨rfl, hzero⟩ | ⟨hdigit, hne, hany⟩ := rest_minus_cons.mp hrest
      · refine ⟨0x30, t, rfl, .inr (by decide), fun rest hstops => ?_⟩
        have hscan := scanNumberFrom_complete hzero .valueUnsigned [0x30] hstops
        simp only [scanNumber, show ¬(0x30 : UInt8) = 0x2D by decide, if_false, if_true, hscan]
        rfl
      · have hminus : c ≠ 0x2D := (isDigit_ne hdigit).2.2.2
        have hmark : isMark c = false := by simp [isMark, isDigit_ne hdigit]
        refine ⟨c, t, rfl, .inr hdigit, fun rest hstops => ?_⟩
        have hscan := scanNumberFrom_complete hany .valueUnsigned [c] hstops
        simp only [scanNumber, hminus, hne, if_false, hscan, Label.typeOf, List.any_cons,
          hmark, Bool.false_or]
        rfl
  · refine ⟨0x2D, u, rfl, .inl rfl, fun rest hstops => ?_⟩
    have hscan := scanNumberFrom_complete hrest .valueUnsigned [0x2D] hstops
    simp only [scanNumber, if_true, hscan]
    rfl

def Whitespace (t : List UInt8) : Prop := ∀ c ∈ t, isWhitespace c

theorem scanLiteral_sound {token token' : Token} {literal input rest : List UInt8}
    (h : scanLiteral token literal input = (token', rest)) (hok : token' ≠ .parseError) :
    input = literal ++ rest ∧ token' = token := by
  fun_induction scanLiteral token literal input with
  | case1 =>
    obtain ⟨rfl, rfl⟩ := Prod.mk.inj h
    exact ⟨rfl, rfl⟩
  | case2 => exact absurd (Prod.mk.inj h).1.symm hok
  | case3 l literal input ih =>
    obtain ⟨rfl, rfl⟩ := ih h
    exact ⟨rfl, rfl⟩
  | case4 => exact absurd (Prod.mk.inj h).1.symm hok

theorem scanLiteral_complete (token : Token) (literal rest : List UInt8) :
    scanLiteral token literal (literal ++ rest) = (token, rest) := by
  induction literal with
  | nil => cases rest <;> rfl
  | cons l literal ih => simp [scanLiteral, ih]

theorem scanString_sound {input rest : List UInt8} {token : Token}
    (h : scanString input = (token, rest))
    (hok : token ≠ .parseError) : ∃ t, 0x22 :: input = t ++ rest ∧ Lexeme strtod t token := by
  unfold scanString at h
  split at h
  next buffer rest' hscan =>
    obtain ⟨rfl, rfl⟩ := Prod.mk.inj h
    obtain ⟨t, cs, rfl, hspelled, rfl⟩ := scanStringFrom_sound hscan
    refine ⟨0x22 :: t ++ [0x22], by simp, ?_⟩
    rw [List.nil_append, ← Utf8.bytes_ofList]
    exact .string (by rwa [String.toList_ofList])
  next => exact absurd (Prod.mk.inj h).1.symm hok

theorem scanString_complete {t : List UInt8} {s : String} (h : Spelled t s.toList)
    (rest : List UInt8) : scanString (t ++ 0x22 :: rest) = (.valueString (Utf8.bytes s), rest) := by
  rw [scanString, scanStringFrom_complete h, Utf8.bytes_eq]
  rfl

def isNumber : Token → Bool
  | .valueUnsigned _ | .valueInteger _ | .valueFloat _ => true
  | _ => false

theorem Number.isNumber {t : List UInt8} {token : Token} (h : Number strtod t token) :
    isNumber token := by
  cases h <;> rfl

theorem scanToken_sound {c : UInt8} {input rest : List UInt8} {token : Token}
    (h : scanToken strtod c input = (token, rest)) (hok : token ≠ .parseError) :
    (token = .endOfInput ∧ c = 0x00) ∨ ∃ t, c :: input = t ++ rest ∧ Lexeme strtod t token := by
  have single : ∀ {b : UInt8} {token' : Token}, Lexeme strtod [b] token' → c = b →
    (token', input) = (token, rest) →
      ∃ t, c :: input = t ++ rest ∧ Lexeme strtod t token := by
    rintro b token' hlexeme rfl h
    obtain ⟨rfl, rfl⟩ := Prod.mk.inj h
    exact ⟨[c], rfl, hlexeme⟩
  have literal : ∀ {b : UInt8} {l : List UInt8} {token' : Token}, Lexeme strtod (b :: l) token' →
    c = b →
      scanLiteral token' l input = (token, rest) → ∃ t, c :: input = t ++ rest ∧
        Lexeme strtod t token := by
    rintro b l token' hlexeme rfl h
    obtain ⟨rfl, rfl⟩ := scanLiteral_sound h hok
    exact ⟨c :: l, rfl, hlexeme⟩
  unfold scanToken at h
  by_cases hbeginArray : c = 0x5B
  · exact .inr (single .beginArray hbeginArray (by rwa [if_pos hbeginArray] at h))
  rw [if_neg hbeginArray] at h
  by_cases hendArray : c = 0x5D
  · exact .inr (single .endArray hendArray (by rwa [if_pos hendArray] at h))
  rw [if_neg hendArray] at h
  by_cases hbeginObject : c = 0x7B
  · exact .inr (single .beginObject hbeginObject (by rwa [if_pos hbeginObject] at h))
  rw [if_neg hbeginObject] at h
  by_cases hendObject : c = 0x7D
  · exact .inr (single .endObject hendObject (by rwa [if_pos hendObject] at h))
  rw [if_neg hendObject] at h
  by_cases hnameSeparator : c = 0x3A
  · exact .inr (single .nameSeparator hnameSeparator (by rwa [if_pos hnameSeparator] at h))
  rw [if_neg hnameSeparator] at h
  by_cases hvalueSeparator : c = 0x2C
  · exact .inr (single .valueSeparator hvalueSeparator (by rwa [if_pos hvalueSeparator] at h))
  rw [if_neg hvalueSeparator] at h
  by_cases hliteralTrue : c = 0x74
  · exact .inr (literal .literalTrue hliteralTrue (by rwa [if_pos hliteralTrue] at h))
  rw [if_neg hliteralTrue] at h
  by_cases hliteralFalse : c = 0x66
  · exact .inr (literal .literalFalse hliteralFalse (by rwa [if_pos hliteralFalse] at h))
  rw [if_neg hliteralFalse] at h
  by_cases hliteralNull : c = 0x6E
  · exact .inr (literal .literalNull hliteralNull (by rwa [if_pos hliteralNull] at h))
  rw [if_neg hliteralNull] at h
  by_cases hquote : c = 0x22
  · subst hquote
    exact .inr (scanString_sound h hok)
  rw [if_neg hquote] at h
  split at h
  next hnumber =>
    obtain ⟨t, ht, hnumber⟩ := scanNumber_sound hnumber h hok
    exact .inr ⟨t, ht, .number hnumber⟩
  split at h
  next hnul => exact .inl ⟨(Prod.mk.inj h).1.symm, hnul⟩
  next => exact absurd (Prod.mk.inj h).1.symm hok

theorem scanToken_complete {t : List UInt8} {token : Token} (h : Lexeme strtod t token) :
    ∃ c t', t = c :: t' ∧ isWhitespace c = false ∧
      ∀ rest, (isNumber token → Stops rest) → scanToken strtod c (t' ++ rest) = (token, rest) := by
  cases h with
  | beginArray => exact ⟨_, [], rfl, rfl, fun rest _ => rfl⟩
  | endArray => exact ⟨_, [], rfl, rfl, fun rest _ => rfl⟩
  | beginObject => exact ⟨_, [], rfl, rfl, fun rest _ => rfl⟩
  | endObject => exact ⟨_, [], rfl, rfl, fun rest _ => rfl⟩
  | nameSeparator => exact ⟨_, [], rfl, rfl, fun rest _ => rfl⟩
  | valueSeparator => exact ⟨_, [], rfl, rfl, fun rest _ => rfl⟩
  | literalTrue => exact ⟨_, _, rfl, rfl, fun rest _ => scanLiteral_complete _ _ rest⟩
  | literalFalse => exact ⟨_, _, rfl, rfl, fun rest _ => scanLiteral_complete _ _ rest⟩
  | literalNull => exact ⟨_, _, rfl, rfl, fun rest _ => scanLiteral_complete _ _ rest⟩
  | @string t s hspelled =>
    refine ⟨0x22, t ++ [0x22], rfl, rfl, fun rest _ => ?_⟩
    rw [List.append_assoc]
    exact scanString_complete hspelled rest
  | number hnumber =>
    obtain ⟨c, t', rfl, hc, hscan⟩ := scanNumber_complete hnumber
    refine ⟨c, t', rfl, ?_, fun rest hstops => ?_⟩
    · obtain rfl | hdigit := hc
      · rfl
      · simp only [isWhitespace, isDigit, Bool.or_eq_false_iff, decide_eq_false_iff_not] at hdigit ⊢
        grind
    · rw [← hscan rest (hstops hnumber.isNumber), scanToken]
      obtain rfl | hdigit := hc
      · rfl
      · have hne : ∀ b, isDigit b = false → c ≠ b := by
          rintro b hb rfl
          rw [hdigit] at hb
          cases hb
        simp only [hne _ (show isDigit 0x5B = false by rfl),
          hne _ (show isDigit 0x5D = false by rfl), hne _ (show isDigit 0x7B = false by rfl),
            hne _ (show isDigit 0x7D = false by rfl),
          hne _ (show isDigit 0x3A = false by rfl), hne _ (show isDigit 0x2C = false by rfl),
          hne _ (show isDigit 0x74 = false by rfl), hne _ (show isDigit 0x66 = false by rfl),
          hne _ (show isDigit 0x6E = false by rfl), hne _ (show isDigit 0x22 = false by rfl),
            hdigit, or_true,
          if_false, if_true]

theorem scan_sound {input rest : List UInt8} {token : Token} (h : scan strtod input = (token, rest))
    (hok : token ≠ .parseError) :
    ∃ w, Whitespace w ∧
      ((token = .endOfInput ∧ (input = w ∨ ∃ r, input = w ++ 0x00 :: r)) ∨
        ∃ t, input = w ++ (t ++ rest) ∧ Lexeme strtod t token) := by
  refine ⟨input.takeWhile isWhitespace, fun c hc => List.mem_takeWhile_imp hc, ?_⟩
  have hinput : input = input.takeWhile isWhitespace ++ skipWhitespace input :=
    List.takeWhile_append_dropWhile.symm
  unfold scan at h
  split at h
  next hnil =>
    obtain ⟨rfl, rfl⟩ := Prod.mk.inj h
    rw [hnil, List.append_nil] at hinput
    exact .inl ⟨rfl, .inl hinput⟩
  next c input' hcons =>
    rw [hcons] at hinput
    obtain ⟨rfl, rfl⟩ | ⟨t, ht, hlexeme⟩ := scanToken_sound h hok
    · exact .inl ⟨rfl, .inr ⟨input', hinput⟩⟩
    · exact .inr ⟨t, by rwa [ht] at hinput, hlexeme⟩

theorem skipWhitespace_append {w t : List UInt8} (hw : Whitespace w)
    (ht : ∀ c ∈ t.head?, isWhitespace c = false) : skipWhitespace (w ++ t) = t := by
  unfold skipWhitespace
  rw [List.dropWhile_append_of_pos hw]
  cases t with
  | nil => rfl
  | cons c t => exact List.dropWhile_cons_of_neg (by simp [ht c rfl])

theorem scan_complete {w t rest : List UInt8} {token : Token} (hw : Whitespace w)
    (h : Lexeme strtod t token)
    (hstops : isNumber token → Stops rest) : scan strtod (w ++ (t ++ rest)) = (token, rest) := by
  obtain ⟨c, t', rfl, hc, hscan⟩ := scanToken_complete h
  rw [scan, List.cons_append, skipWhitespace_append hw (by simpa using hc)]
  exact hscan rest hstops

theorem Lexeme.ne_nil {t : List UInt8} {token : Token} (h : Lexeme strtod t token) : t ≠ [] := by
  obtain ⟨c, t', rfl, -⟩ := scanToken_complete h
  exact List.cons_ne_nil c t'

theorem Lexeme.ends {t : List UInt8} {token : Token} (h : Lexeme strtod t token) :
    token.ends = false := by
  cases h with
  | number h => cases h <;> rfl
  | _ => rfl

theorem Lexeme.head_ne {t : List UInt8} {token : Token} (h : Lexeme strtod t token) :
    ∃ c t', t = c :: t' ∧ c ≠ 0xEF := by
  obtain ⟨c, t', rfl, -, hscan⟩ := scanToken_complete h
  refine ⟨c, t', rfl, ?_⟩
  rintro rfl
  have herror : (Token.parseError, []) = (token, []) := hscan [] fun _ => nofun
  cases (Prod.mk.inj herror).1
  cases h.ends

end Tokens

end Number

end Lexer

end ChatServer
