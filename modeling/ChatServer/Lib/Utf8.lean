import Mathlib.Data.List.Forall2

namespace ChatServer.Lib.Utf8

def bytes (s : String) : List UInt8 := s.toUTF8.data.toList

def text (bs : List UInt8) : Option String := String.fromUTF8? ⟨bs.toArray⟩

section Text

theorem bytes_ofList (cs : List Char) :
    bytes (String.ofList cs) = cs.flatMap String.utf8EncodeChar := by
  simp [bytes, String.toUTF8, List.utf8Encode]

theorem bytes_eq (s : String) : bytes s = s.toList.flatMap String.utf8EncodeChar := by
  rw [← bytes_ofList, String.ofList_toList]

@[simp] theorem bytes_append (s t : String) : bytes (s ++ t) = bytes s ++ bytes t := by
  simp [bytes_eq]

@[simp] theorem text_bytes (s : String) : text (bytes s) = some s := by
  have harray : (⟨(bytes s).toArray⟩ : ByteArray) = s.toByteArray := by simp [bytes, String.toUTF8]
  rw [text, harray, String.fromUTF8?, dif_pos s.isValidUTF8]
  rfl

end Text

def Continues (b : UInt8) : Prop := 0x80 ≤ b.toNat ∧ b.toNat ≤ 0xBF

instance : DecidablePred Continues := fun _ => inferInstanceAs (Decidable (_ ∧ _))

/-- The byte sequences of one character: no overlong form, no surrogate, nothing above
the last code point. -/
inductive Sequence : List UInt8 → Prop
  | one {b : UInt8} : b.toNat < 0x80 → Sequence [b]
  | two {b c : UInt8} : 0xC2 ≤ b.toNat → b.toNat ≤ 0xDF → Continues c → Sequence [b, c]
  | three {b c d : UInt8} : 0xE0 ≤ b.toNat → b.toNat ≤ 0xEF → Continues c → Continues d →
      (b.toNat = 0xE0 → 0xA0 ≤ c.toNat) → (b.toNat = 0xED → c.toNat ≤ 0x9F) → Sequence [b, c, d]
  | four {b c d e : UInt8} : 0xF0 ≤ b.toNat → b.toNat ≤ 0xF4 → Continues c →
      Continues d → Continues e →
      (b.toNat = 0xF0 → 0x90 ≤ c.toNat) → (b.toNat = 0xF4 → c.toNat ≤ 0x8F) → Sequence [b, c, d, e]

section Sequence

theorem exists_char {v : Nat} (h : v.isValidChar) : ∃ ch : Char, ch.toNat = v :=
  ⟨Char.ofNatAux v h, rfl⟩

theorem ofNat_eq {n : Nat} {b : UInt8} (h : n = b.toNat) : UInt8.ofNat n = b := by
  rw [h, UInt8.ofNat_toNat]

theorem encode_of_lt {ch : Char} (h : ch.toNat < 0x80) :
    String.utf8EncodeChar ch = [UInt8.ofNat ch.toNat] := by
  have hv : ch.val.toNat ≤ 127 := Nat.le_of_lt_succ h
  rw [String.utf8EncodeChar, if_pos hv, Char.toNat_val]

theorem Sequence.exists_char {bs : List UInt8} (h : Sequence bs) :
    ∃ ch : Char, String.utf8EncodeChar ch = bs := by
  cases h with
  | @one b hb =>
    obtain ⟨ch, hch⟩ := Utf8.exists_char (v := b.toNat) (by unfold Nat.isValidChar; omega)
    refine ⟨ch, ?_⟩
    rw [encode_of_lt (by omega), ofNat_eq hch]
  | @two b c hb hb' hc =>
    obtain ⟨hc, hc'⟩ := hc
    obtain ⟨ch, hch⟩ :=
      Utf8.exists_char (v := (b.toNat - 0xC0) * 64 + (c.toNat - 0x80))
        (by unfold Nat.isValidChar; omega)
    have hv : ch.val.toNat = (b.toNat - 0xC0) * 64 + (c.toNat - 0x80) := hch
    refine ⟨ch, ?_⟩
    rw [String.utf8EncodeChar, if_neg (by omega), if_pos (by omega), hv,
      ofNat_eq (b := b) (by omega), ofNat_eq (b := c) (by omega)]
  | @three b c d hb hb' hc hd hlow hsurrogate =>
    obtain ⟨hc, hc'⟩ := hc
    obtain ⟨hd, hd'⟩ := hd
    obtain ⟨ch, hch⟩ :=
      Utf8.exists_char (v := (b.toNat - 0xE0) * 4096 + (c.toNat - 0x80) * 64 + (d.toNat - 0x80))
      (by unfold Nat.isValidChar; omega)
    have hv : ch.val.toNat = (b.toNat - 0xE0) * 4096 + (c.toNat - 0x80) * 64 + (d.toNat - 0x80) :=
      hch
    refine ⟨ch, ?_⟩
    rw [String.utf8EncodeChar, if_neg (by omega), if_neg (by omega), if_pos (by omega), hv,
      ofNat_eq (b := b) (by omega), ofNat_eq (b := c) (by omega), ofNat_eq (b := d) (by omega)]
  | @four b c d e hb hb' hc hd he hlow hhigh =>
    obtain ⟨hc, hc'⟩ := hc
    obtain ⟨hd, hd'⟩ := hd
    obtain ⟨he, he'⟩ := he
    obtain ⟨ch, hch⟩ := Utf8.exists_char
      (v := (b.toNat - 0xF0) * 262144 + (c.toNat - 0x80) * 4096 + (d.toNat - 0x80) * 64 +
        (e.toNat - 0x80))
      (by unfold Nat.isValidChar; omega)
    have hv : ch.val.toNat =
      (b.toNat - 0xF0) * 262144 + (c.toNat - 0x80) * 4096 + (d.toNat - 0x80) * 64 +
        (e.toNat - 0x80) := hch
    refine ⟨ch, ?_⟩
    rw [String.utf8EncodeChar, if_neg (by omega), if_neg (by omega), if_neg (by omega), hv,
      ofNat_eq (b := b) (by omega), ofNat_eq (b := c) (by omega), ofNat_eq (b := d) (by omega),
        ofNat_eq (b := e) (by omega)]

theorem sequence_encode (ch : Char) : Sequence (String.utf8EncodeChar ch) := by
  have hvalid : ch.val.toNat.isValidChar := ch.valid
  unfold Nat.isValidChar at hvalid
  have hbyte : ∀ n, n < 256 → (UInt8.ofNat n).toNat = n := fun n hn => UInt8.toNat_ofNat_of_lt' hn
  unfold String.utf8EncodeChar
  dsimp only
  split
  · apply Sequence.one
    simp (disch := omega) only [hbyte]
    omega
  split
  · apply Sequence.two <;> (try unfold Continues) <;> simp (disch := omega) only [hbyte] <;> omega
  split
  · apply Sequence.three <;> (try unfold Continues) <;> simp (disch := omega) only [hbyte] <;> omega
  · apply Sequence.four <;> (try unfold Continues) <;> simp (disch := omega) only [hbyte] <;> omega

theorem encode_head {ch : Char} {b : UInt8} {bs : List UInt8}
    (h : String.utf8EncodeChar ch = b :: bs) :
    (ch.toNat = b.toNat ∧ bs = [] ∧ b.toNat < 0x80) ∨ (0x80 ≤ ch.toNat ∧ 0x80 ≤ b.toNat) := by
  by_cases hlt : ch.toNat < 0x80
  · rw [encode_of_lt hlt] at h
    obtain ⟨rfl, rfl⟩ := List.cons.inj h
    have hbyte : (UInt8.ofNat ch.toNat).toNat = ch.toNat :=
      UInt8.toNat_ofNat_of_lt' (Nat.lt_trans hlt (by decide))
    exact .inl ⟨hbyte.symm, rfl, by omega⟩
  · refine .inr ⟨by omega, ?_⟩
    have hseq := sequence_encode ch
    rw [h] at hseq
    cases hseq with
    | one hb =>
      have hlength := congrArg List.length h
      rw [String.length_utf8EncodeChar] at hlength
      have hval : ch.val ≤ 127 := Char.utf8Size_eq_one_iff.mp hlength
      exact absurd (UInt32.le_iff_toNat_le.mp hval) (by rw [Char.toNat_val]; simp; omega)
    | two hb => omega
    | three hb => omega
    | four hb => omega

theorem encode_cons (ch : Char) : ∃ b bs, String.utf8EncodeChar ch = b :: bs := by
  have hseq := sequence_encode ch
  generalize String.utf8EncodeChar ch = bs at hseq
  cases hseq <;> exact ⟨_, _, rfl⟩

theorem head_ne {ch d : Char} {b : UInt8} {bs : List UInt8} (hd : d.toNat < 0x80) (hne : ch ≠ d)
    (h : String.utf8EncodeChar ch = b :: bs) : b.toNat ≠ d.toNat := by
  intro heq
  obtain ⟨hch, -⟩ | ⟨-, hge⟩ := encode_head h
  · exact hne (Char.toNat_inj.mp (hch.trans heq))
  · omega

end Sequence

end ChatServer.Lib.Utf8
