import ChatServer.Protocol.Grammar

namespace ChatServer

open Lib Lexer JsonParser

def Fields.Sorted (fs : Fields) : Prop := fs.Pairwise fun f g => f.1 < g.1

namespace Json

mutual

/-- A value as the parser knows it: a number without a minus sign is unsigned. -/
def canon : Json → Json
  | .int n => if 0 ≤ n then .uint n.toNat else .int n
  | .arr js => .arr (canonItems js)
  | .obj fs => .obj (canonFields fs)
  | .null => .null
  | .bool b => .bool b
  | .uint n => .uint n
  | .float b => .float b
  | .str s => .str s

def canonItems : List Json → List Json
  | [] => []
  | j :: js => canon j :: canonItems js

def canonFields : Fields → Fields
  | [] => []
  | (k, j) :: fs => (k, canon j) :: canonFields fs

end

section Representable

variable (strtod : List UInt8 → UInt64) (showFloat : UInt64 → String)

mutual

/-- The values the library can hold: integers of 64 bits, objects ordered by their keys, and
doubles whose text is read back as the same double. -/
def Representable : Json → Prop
  | .null => True
  | .bool _ => True
  | .int n => -2 ^ 63 ≤ n ∧ n < 2 ^ 63
  | .uint n => n < 2 ^ 64
  | .float b => isFinite b ∧ Number strtod (Utf8.bytes (showFloat b)) (.valueFloat b)
  | .str _ => True
  | .arr js => RepresentableItems js
  | .obj fs => Fields.Sorted fs ∧ RepresentableFields fs

def RepresentableItems : List Json → Prop
  | [] => True
  | j :: js => Representable j ∧ RepresentableItems js

def RepresentableFields : Fields → Prop
  | [] => True
  | (_, j) :: fs => Representable j ∧ RepresentableFields fs

end

end Representable

end Json

section Number

theorem encode_digitChar {d : Nat} (hd : d < 10) :
    String.utf8EncodeChar d.digitChar = [UInt8.ofNat (0x30 + d)] := by
  revert d
  decide

theorem isDigit_ofNat {d : Nat} (hd : d < 10) : isDigit (UInt8.ofNat (0x30 + d)) := by
  revert d
  decide

theorem toNat_digit {d : Nat} (hd : d < 10) : (UInt8.ofNat (0x30 + d)).toNat = 0x30 + d :=
  UInt8.toNat_ofNat_of_lt' (Nat.lt_of_lt_of_le (Nat.add_lt_add_left hd _) (by decide))

theorem decimalValue_append (ds : List UInt8) {d : Nat} (hd : d < 10) :
    decimalValue (ds ++ [UInt8.ofNat (0x30 + d)]) = decimalValue ds * 10 + d := by
  rw [decimalValue, List.foldl_append, List.foldl_cons, List.foldl_nil, toNat_digit hd,
    Nat.add_sub_cancel_left, decimalValue]

theorem whole_append {w : List UInt8} {d : UInt8} (hw : Whole w) (hpos : decimalValue w ≠ 0)
    (hd : isDigit d) : Whole (w ++ [d]) := by
  cases hw with
  | zero => exact absurd rfl hpos
  | digits h hne hds =>
    rw [List.cons_append]
    refine .digits h hne ?_
    rw [List.forall_mem_append]
    exact ⟨hds, by simpa using hd⟩

theorem whole_toDigits (n : Nat) :
    Whole ((Nat.toDigits 10 n).flatMap String.utf8EncodeChar) ∧
      decimalValue ((Nat.toDigits 10 n).flatMap String.utf8EncodeChar) = n := by
  induction n using Nat.strong_induction_on with
  | h n ih =>
    rw [Nat.toDigits_eq_if (by decide)]
    split
    next hlt =>
      rw [List.flatMap_singleton, encode_digitChar hlt]
      refine ⟨?_, by simpa [decimalValue] using decimalValue_append [] hlt⟩
      clear ih
      cases n with
      | zero => exact .zero
      | succ n =>
        refine .digits (isDigit_ofNat hlt) (fun hzero => ?_) (by simp)
        have hbyte : UInt8.toNat 0x30 = 0x30 + (n + 1) := hzero ▸ toNat_digit hlt
        simp at hbyte
    next hge =>
      obtain ⟨hwhole, hvalue⟩ := ih (n / 10) (by omega)
      have hmod : n % 10 < 10 := Nat.mod_lt n (by decide)
      rw [List.flatMap_append, List.flatMap_singleton, encode_digitChar hmod]
      exact ⟨whole_append hwhole (by omega) (isDigit_ofNat hmod),
        by rw [decimalValue_append _ hmod, hvalue]; omega⟩

end Number

section Text

theorem encode_hexDigit {n : Nat} (h : n < 16) :
    String.utf8EncodeChar (Json.hexDigit n) =
      [UInt8.ofNat (if n < 10 then 0x30 + n else 0x57 + n)] := by
  revert n
  decide

theorem hexDigit_ofNat {n : Nat} (h : n < 16) :
    HexDigit (UInt8.ofNat (if n < 10 then 0x30 + n else 0x57 + n)) n := by
  have hbyte : (UInt8.ofNat (if n < 10 then 0x30 + n else 0x57 + n)).toNat = if n < 10 then 0x30 +
      n else 0x57 + n :=
    UInt8.toNat_ofNat_of_lt' (by rw [UInt8.size]; split <;> omega)
  rw [HexDigit, hbyte]
  split <;> omega

theorem spells_escapeChar (c : Char) :
    Spells ((Json.escapeChar c).flatMap String.utf8EncodeChar) c := by
  have short : ∀ {b : UInt8} {d : Char}, (b, d) ∈ shortEscapes → c.toNat = d.toNat →
      ([0x5C, b] : List UInt8) = (Json.escapeChar d).flatMap String.utf8EncodeChar →
      Spells ((Json.escapeChar c).flatMap String.utf8EncodeChar) c := by
    intro b d hmem hcd htext
    obtain rfl := Char.toNat_inj.mp hcd
    rw [← htext]
    exact .short hmem
  by_cases h08 : c.toNat = 0x08
  · exact short (b := 0x62) (d := '\x08') (by decide) h08 rfl
  by_cases h09 : c.toNat = 0x09
  · exact short (b := 0x74) (d := '\t') (by decide) h09 rfl
  by_cases h0A : c.toNat = 0x0A
  · exact short (b := 0x6E) (d := '\n') (by decide) h0A rfl
  by_cases h0C : c.toNat = 0x0C
  · exact short (b := 0x66) (d := '\x0C') (by decide) h0C rfl
  by_cases h0D : c.toNat = 0x0D
  · exact short (b := 0x72) (d := '\r') (by decide) h0D rfl
  by_cases h22 : c.toNat = 0x22
  · exact short (b := 0x22) (d := '"') (by decide) h22 rfl
  by_cases h5C : c.toNat = 0x5C
  · exact short (b := 0x5C) (d := '\\') (by decide) h5C rfl
  simp only [Json.escapeChar, h08, h09, h0A, h0C, h0D, h22, h5C, if_false]
  split
  next hcontrol =>
    have hhigh : c.toNat / 16 < 16 := by omega
    have hlow : c.toNat % 16 < 16 := by omega
    have hzero : HexDigit 0x30 0 := .inl ⟨rfl, by decide⟩
    have hunit := CodeUnit.intro hzero hzero (hexDigit_ofNat hhigh) (hexDigit_ofNat hlow)
    rw [show 0 * 0x1000 + 0 * 0x100 + c.toNat / 16 * 0x10 + c.toNat % 16 = c.toNat by omega]
      at hunit
    simp only [List.flatMap_cons, List.flatMap_nil, encode_hexDigit hhigh, encode_hexDigit hlow]
    exact .unit hunit
  next hplain =>
    rw [List.flatMap_singleton]
    refine .plain (by omega) ?_ ?_
    · rintro rfl
      exact h22 rfl
    · rintro rfl
      exact h5C rfl

theorem spelled_flatMap (cs : List Char) :
    Spelled ((cs.flatMap Json.escapeChar).flatMap String.utf8EncodeChar) cs := by
  induction cs with
  | nil => exact .nil
  | cons c cs ih =>
    rw [List.flatMap_cons, List.flatMap_append]
    exact .cons (spells_escapeChar c) ih

theorem bytes_quote (s : String) :
    ∃ t, Utf8.bytes (Json.quote s) = 0x22 :: t ++ [0x22] ∧ Spelled t s.toList := by
  refine ⟨_, ?_, spelled_flatMap s.toList⟩
  rw [Json.quote, Json.escape, Utf8.bytes_append, Utf8.bytes_append,
    Utf8.bytes_ofList (s.toList.flatMap _)]
  rfl

end Text

section Dump

variable {strtod : List UInt8 → UInt64} {showFloat : UInt64 → String}

def Prints (strtod : List UInt8 → UInt64) (text : List UInt8) (ts : List Token) : Prop :=
  ∀ rest us, Spelling strtod rest us → Spelling strtod (text ++ rest) (ts ++ us)

theorem Prints.append {text text' : List UInt8} {ts ts' : List Token} (h : Prints strtod text ts)
    (h' : Prints strtod text' ts') : Prints strtod (text ++ text') (ts ++ ts') := by
  intro rest us hrest
  rw [List.append_assoc, List.append_assoc]
  exact h _ _ (h' rest us hrest)

theorem Prints.lexeme {text : List UInt8} {token : Token} (h : Lexeme strtod text token) :
    Prints strtod text [token] :=
  fun _ _ hrest => .token (w := []) nofun h hrest

theorem prints_quote (s : String) :
    Prints strtod (Utf8.bytes (Json.quote s)) [.valueString (Utf8.bytes s)] := by
  obtain ⟨t, ht, hspelled⟩ := bytes_quote s
  rw [ht]
  exact .lexeme (.string hspelled)

theorem set_last {k : String} {fs : Fields} (v : Json) (h : ∀ f ∈ fs, f.1 < k) :
    Fields.set k v fs = fs ++ [(k, v)] := by
  induction fs with
  | nil => rfl
  | cons f fs ih =>
    obtain ⟨hf, hfs⟩ := List.forall_mem_cons.mp h
    have hne : k ≠ f.1 := fun heq => String.lt_irrefl k (heq ▸ hf)
    rw [Fields.set, if_neg (String.lt_asymm hf), if_neg hne, ih hfs]
    rfl

theorem assign_sorted {fs : Fields} (h : Fields.Sorted fs) : Fields.assign [] fs = fs := by
  have hfold : ∀ acc : Fields, Fields.Sorted (acc ++ fs) → Fields.assign acc fs = acc ++ fs := by
    clear h
    induction fs with
    | nil => simp [Fields.assign]
    | cons f fs ih =>
      intro acc hsorted
      have hlast : ∀ g ∈ acc, g.1 < f.1 :=
        fun g hg => (List.pairwise_append.mp hsorted).2.2 g hg f (.head _)
      rw [← List.singleton_append, ← List.append_assoc] at hsorted ⊢
      rw [← ih _ hsorted, Fields.assign, List.singleton_append, List.foldl_cons, set_last f.2 hlast]
      rfl
  exact hfold [] h

theorem keys_canonFields (fs : Fields) : (Json.canonFields fs).map Prod.fst = fs.map Prod.fst := by
  induction fs with
  | nil => rfl
  | cons f fs ih => rw [Json.canonFields, List.map_cons, List.map_cons, ih]

theorem sorted_canonFields {fs : Fields} (h : Fields.Sorted fs) :
    Fields.Sorted (Json.canonFields fs) := by
  have hkeys : ((Json.canonFields fs).map Prod.fst).Pairwise (· < ·) := by
    rw [keys_canonFields]
    exact List.pairwise_map.mpr h
  exact List.pairwise_map.mp hkeys

theorem number_uint {n : Nat} (h : n < 2 ^ 64) :
    Number strtod (Utf8.bytes (toString n)) (.valueUnsigned n) := by
  obtain ⟨hwhole, hvalue⟩ := whole_toDigits n
  have hbytes : Utf8.bytes (toString n) = (Nat.toDigits 10 n).flatMap String.utf8EncodeChar :=
    Utf8.bytes_ofList _
  rw [hbytes]
  have hnumber : Number strtod _ _ := .unsigned hwhole (hvalue.symm ▸ h)
  rwa [hvalue] at hnumber

theorem number_int {m : Nat} (h : m + 1 ≤ 2 ^ 63) :
    Number strtod (Utf8.bytes (toString (Int.negSucc m))) (.valueInteger (Int.negSucc m)) := by
  obtain ⟨hwhole, hvalue⟩ := whole_toDigits (m + 1)
  have hbytes : Utf8.bytes (toString (Int.negSucc m)) =
      0x2D :: (Nat.toDigits 10 (m + 1)).flatMap String.utf8EncodeChar := by
    rw [show toString (Int.negSucc m) = "-" ++ m.succ.repr from rfl, Utf8.bytes_append, Nat.repr,
      Utf8.bytes_ofList (Nat.toDigits 10 _)]
    rfl
  rw [hbytes]
  have hnumber : Number strtod _ _ := .integer hwhole (hvalue.symm ▸ h)
  rwa [hvalue] at hnumber

def Json.Dumped (strtod : List UInt8 → UInt64) (showFloat : UInt64 → String) (j : Json) : Prop :=
  ∃ ts, Prints strtod (Utf8.bytes (j.dump showFloat)) ts ∧ Reads (.value j.canon) ts

mutual

theorem Json.dumped : ∀ j : Json, j.Representable strtod showFloat → j.Dumped strtod showFloat
  | .null, _ => ⟨_, .lexeme .literalNull, .literalNull⟩
  | .bool true, _ => ⟨_, .lexeme .literalTrue, .literalTrue⟩
  | .bool false, _ => ⟨_, .lexeme .literalFalse, .literalFalse⟩
  | .int (.ofNat n), h =>
      ⟨_, .lexeme (.number (number_uint (by have := h.2; simp at this; omega))), .unsigned⟩
  | .int (.negSucc m), h => ⟨_, .lexeme (.number (number_int (by have := h.1; omega))), .integer⟩
  | .uint n, h => ⟨_, .lexeme (.number (number_uint h)), .unsigned⟩
  | .float b, h => ⟨_, .lexeme (.number h.2), .float h.1⟩
  | .str s, _ => ⟨_, prints_quote s, .string⟩
  | .arr [], _ => ⟨_, .append (.lexeme .beginArray) (.lexeme .endArray), .emptyArray⟩
  | .arr (j :: js), h => by
    obtain ⟨ts, hprints, hreads⟩ := Json.dumped_items (j :: js) (List.cons_ne_nil j js) h
    refine ⟨.beginArray :: (ts ++ [.endArray]), ?_, ?_⟩
    · rw [Json.dump, Utf8.bytes_append, Utf8.bytes_append]
      exact ((Prints.lexeme .beginArray).append hprints).append (.lexeme .endArray)
    · rw [Json.canon]
      exact .array hreads
  | .obj [], _ => ⟨_, .append (.lexeme .beginObject) (.lexeme .endObject), .emptyObject⟩
  | .obj ((k, j) :: fs), h => by
    obtain ⟨ts, hprints, hreads⟩ := Json.dumped_fields ((k, j) :: fs) (List.cons_ne_nil _ _) h.2
    refine ⟨.beginObject :: (ts ++ [.endObject]), ?_, ?_⟩
    · rw [Json.dump, Utf8.bytes_append, Utf8.bytes_append]
      exact ((Prints.lexeme .beginObject).append hprints).append (.lexeme .endObject)
    · rw [Json.canon, ← assign_sorted (sorted_canonFields h.1)]
      exact .object hreads

theorem Json.dumped_items :
    ∀ js : List Json, js ≠ [] → Json.RepresentableItems strtod showFloat js →
    ∃ ts, Prints strtod (Utf8.bytes (Json.dumpItems showFloat js)) ts ∧
    Reads (.items (Json.canonItems js)) ts
  | [], h, _ => absurd rfl h
  | [j], _, h => by
    obtain ⟨ts, hprints, hreads⟩ := Json.dumped j h.1
    exact ⟨ts, hprints, .item hreads⟩
  | j :: j' :: js, _, h => by
    obtain ⟨ts, hprints, hreads⟩ := Json.dumped j h.1
    obtain ⟨us, hprints', hreads'⟩ := Json.dumped_items (j' :: js) (List.cons_ne_nil j' js) h.2
    refine ⟨ts ++ .valueSeparator :: us, ?_, .items hreads hreads'⟩
    rw [Json.dumpItems, Utf8.bytes_append, Utf8.bytes_append, List.append_assoc]
    exact hprints.append ((Prints.lexeme .valueSeparator).append hprints')

theorem Json.dumped_fields : ∀ fs : Fields, fs ≠ [] → Json.RepresentableFields strtod showFloat fs →
    ∃ ts, Prints strtod (Utf8.bytes (Json.dumpFields showFloat fs)) ts ∧
    Reads (.members (Json.canonFields fs)) ts
  | [], h, _ => absurd rfl h
  | [(k, j)], _, h => by
    obtain ⟨ts, hprints, hreads⟩ := Json.dumped j h.1
    refine ⟨.valueString (Utf8.bytes k) :: .nameSeparator :: ts, ?_, .member hreads⟩
    rw [Json.dumpFields, Utf8.bytes_append, Utf8.bytes_append]
    exact ((prints_quote k).append (.lexeme .nameSeparator)).append hprints
  | (k, j) :: (k', j') :: fs, _, h => by
    obtain ⟨ts, hprints, hreads⟩ := Json.dumped j h.1
    obtain ⟨us, hprints', hreads'⟩ := Json.dumped_fields ((k', j') :: fs) (List.cons_ne_nil _ _) h.2
    refine ⟨.valueString (Utf8.bytes k) :: .nameSeparator :: (ts ++ .valueSeparator :: us), ?_,
      .members hreads hreads'⟩
    rw [Json.dumpFields, Utf8.bytes_append, Utf8.bytes_append, Utf8.bytes_append, Utf8.bytes_append,
      List.append_assoc, List.append_assoc]
    exact ((prints_quote k).append (.lexeme .nameSeparator)).append
      (hprints.append ((Prints.lexeme .valueSeparator).append hprints'))

end

theorem Prints.jsonText {text : List UInt8} {ts : List Token} {j : Json} (h : Prints strtod text ts)
    (hreads : Reads (.value j) ts) : JsonText strtod text j := by
  have hspelling := h [] [] (.done nofun)
  rw [List.append_nil, List.append_nil] at hspelling
  exact ⟨ts, hspelling, hreads⟩

theorem Json.jsonText_dump {j : Json} (h : j.Representable strtod showFloat) :
    JsonText strtod (Utf8.bytes (j.dump showFloat)) j.canon := by
  obtain ⟨ts, hprints, hreads⟩ := Json.dumped j h
  exact hprints.jsonText hreads

theorem parse_dump (j : Json) (h : j.Representable strtod showFloat) :
    parse strtod (Utf8.bytes (j.dump showFloat)) = some j.canon :=
  (Json.jsonText_dump h).parse_eq

def noteValue : Json :=
  .obj [("a \"b\"", .arr [.int (-5), .uint 18446744073709551615, .null]), ("é\n", .obj []),
    ("😀", .str "\x00/\\")]

theorem parse_dump_noteValue :
    noteValue.Representable (fun _ => 0) (fun _ => "0.0") ∧
      parse (fun _ => 0) (Utf8.bytes (noteValue.dump fun _ => "0.0")) = some noteValue.canon := by
  have h : noteValue.Representable (fun _ => 0) (fun _ => "0.0") := by
    refine ⟨?_, ?_⟩
    · unfold Fields.Sorted
      decide +kernel
    · simp [Json.RepresentableFields, Json.Representable, Json.RepresentableItems, Fields.Sorted]
  exact ⟨h, parse_dump noteValue h⟩

end Dump

section Parsed

variable {strtod : List UInt8 → UInt64} {showFloat : UInt64 → String}

def Token.Bounded : Token → Prop
  | .valueUnsigned n => n < 2 ^ 64
  | .valueInteger n => -2 ^ 63 ≤ n ∧ n < 2 ^ 63
  | _ => True

theorem Lexer.Lexeme.bounded {t : List UInt8} {token : Token} (h : Lexeme strtod t token) :
    token.Bounded := by
  cases h with
  | number h =>
    cases h with
    | unsigned hw hlt => exact hlt
    | @integer w hw hle =>
      have hle' : (decimalValue w : Int) ≤ 2 ^ 63 := by exact_mod_cast hle
      exact ⟨by omega, by omega⟩
    | _ => trivial
  | _ => trivial

theorem Spelling.bounded {text : List UInt8} {ts : List Token} (h : Spelling strtod text ts) :
    ∀ t ∈ ts, t.Bounded := by
  induction h with
  | done | nul => simp
  | token _ hlexeme _ ih => exact List.forall_mem_cons.mpr ⟨hlexeme.bounded, ih⟩

def Rereads (strtod : List UInt8 → UInt64) (showFloat : UInt64 → String) : Prop :=
  ∀ b, isFinite b → Number strtod (Utf8.bytes (showFloat b)) (.valueFloat b)

theorem mem_set {k : String} {v : Json} {fs : Fields} {f : String × Json}
    (h : f ∈ Fields.set k v fs) : f = (k, v) ∨ f ∈ fs := by
  induction fs with
  | nil => exact .inl (List.mem_singleton.mp h)
  | cons g fs ih =>
    rw [Fields.set] at h
    split at h
    · exact List.mem_cons.mp h
    split at h
    · exact (List.mem_cons.mp h).imp_right (List.mem_cons_of_mem g)
    · obtain rfl | hmem := List.mem_cons.mp h
      · exact .inr (.head _)
      · exact (ih hmem).imp_right (List.mem_cons_of_mem g)

theorem sorted_set {fs : Fields} (h : Fields.Sorted fs) (k : String) (v : Json) :
    Fields.Sorted (Fields.set k v fs) := by
  induction fs with
  | nil => exact List.pairwise_singleton _ _
  | cons g fs ih =>
    obtain ⟨hg, hfs⟩ := List.pairwise_cons.mp h
    rw [Fields.set]
    split
    next hlt =>
      refine List.pairwise_cons.mpr ⟨?_, h⟩
      exact List.forall_mem_cons.mpr ⟨hlt, fun f hf => String.lt_trans hlt (hg f hf)⟩
    split
    next heq => exact List.pairwise_cons.mpr ⟨fun f hf => heq ▸ hg f hf, hfs⟩
    next hnlt hne =>
      have hlt : g.1 < k :=
        String.not_le.mp fun hle => hne (String.le_antisymm hle (String.not_lt.mp hnlt))
      refine List.pairwise_cons.mpr ⟨fun f hf => ?_, ih hfs⟩
      obtain rfl | hmem := mem_set hf
      · exact hlt
      · exact hg f hmem

theorem representableFields_iff {fs : Fields} :
    Json.RepresentableFields strtod showFloat fs ↔
    ∀ f ∈ fs, f.2.Representable strtod showFloat := by
  induction fs with
  | nil => simp [Json.RepresentableFields]
  | cons f fs ih => simp [Json.RepresentableFields, ih]

theorem assign_held {fs ms : Fields} (hsorted : Fields.Sorted fs)
    (hfs : Json.RepresentableFields strtod showFloat fs)
    (hms : Json.RepresentableFields strtod showFloat ms) :
    (Json.obj (Fields.assign fs ms)).Representable strtod showFloat := by
  induction ms generalizing fs with
  | nil => exact ⟨hsorted, hfs⟩
  | cons m ms ih =>
    refine ih (sorted_set hsorted m.1 m.2) (representableFields_iff.mpr fun f hf => ?_) hms.2
    obtain rfl | hmem := mem_set hf
    · exact hms.1
    · exact representableFields_iff.mp hfs f hmem

def Phrase.Held (strtod : List UInt8 → UInt64) (showFloat : UInt64 → String) : Phrase → Prop
  | .value j => j.Representable strtod showFloat
  | .items js => Json.RepresentableItems strtod showFloat js
  | .members ms => Json.RepresentableFields strtod showFloat ms

theorem Reads.held (hfloat : Rereads strtod showFloat) {p : Phrase} {ts : List Token}
    (h : Reads p ts) (hts : ∀ t ∈ ts, t.Bounded) : p.Held strtod showFloat := by
  induction h with
  | literalNull | literalTrue | literalFalse | string | emptyArray => trivial
  | unsigned => exact hts _ (.head _)
  | integer => exact hts _ (.head _)
  | float hfinite => exact ⟨hfinite, hfloat _ hfinite⟩
  | emptyObject => exact ⟨.nil, trivial⟩
  | array _ ih =>
    obtain ⟨-, hts, -⟩ := by simpa only [List.forall_mem_cons, List.forall_mem_append] using hts
    exact ih hts
  | object _ ih =>
    obtain ⟨-, hts, -⟩ := by simpa only [List.forall_mem_cons, List.forall_mem_append] using hts
    exact assign_held .nil trivial (ih hts)
  | item _ ih => exact ⟨ih hts, trivial⟩
  | items _ _ ih ih' =>
    obtain ⟨hts, -, hus⟩ := by simpa only [List.forall_mem_cons, List.forall_mem_append] using hts
    exact ⟨ih hts, ih' hus⟩
  | member _ ih =>
    obtain ⟨-, -, hts⟩ := by simpa only [List.forall_mem_cons] using hts
    exact ⟨ih hts, trivial⟩
  | members _ _ ih ih' =>
    obtain ⟨-, -, hts, -, hus⟩ := by
      simpa only [List.forall_mem_cons, List.forall_mem_append] using hts
    exact ⟨ih hts, ih' hus⟩

theorem JsonText.representable (hfloat : Rereads strtod showFloat) {text : List UInt8} {j : Json}
    (h : JsonText strtod text j) : j.Representable strtod showFloat := by
  obtain ⟨ts, hspelling, hreads⟩ := h
  exact hreads.held hfloat hspelling.bounded

theorem parse_normal (hfloat : Rereads strtod showFloat) (s : List UInt8) (j : Json)
    (h : parse strtod s = some j) :
    j.Representable strtod showFloat ∧
    parse strtod (Utf8.bytes (j.dump showFloat)) = some j.canon := by
  obtain ⟨text, -, htext⟩ := jsonText_of_parse h
  have hheld := htext.representable hfloat
  exact ⟨hheld, (Json.jsonText_dump hheld).parse_eq⟩

def bitsText (b : UInt64) : String := toString b.toNat ++ ".0"

def bitsOf (t : List UInt8) : UInt64 := UInt64.ofNat (decimalValue (t.takeWhile isDigit))

theorem rereads_bits : Rereads bitsOf bitsText := by
  intro b _
  obtain ⟨hwhole, hvalue⟩ := whole_toDigits b.toNat
  have hbytes : Utf8.bytes (bitsText b) =
      (Nat.toDigits 10 b.toNat).flatMap String.utf8EncodeChar ++ ([0x2E, 0x30] ++ []) := by
    rw [bitsText, Utf8.bytes_append, List.append_nil]
    exact congrArg (· ++ _) (Utf8.bytes_ofList _)
  have hbits : bitsOf (Utf8.bytes (bitsText b)) = b := by
    rw [hbytes, bitsOf, List.takeWhile_append_of_pos hwhole.isDigit, List.append_nil,
      List.takeWhile_cons_of_neg (by decide), List.append_nil, hvalue, UInt64.ofNat_toNat]
  have hfraction : Fraction [0x2E, 0x30] := .some (digits_cons.mpr ⟨by decide, by simp⟩)
  have hnumber : Number bitsOf _ _ := .float hwhole hfraction .none (by simp)
  rwa [← hbytes, hbits] at hnumber

def readingsText : List UInt8 :=
  [0x7B, 0x22, 0x6B, 0x22, 0x3A, 0x5B, 0x2D, 0x30, 0x2C, 0x20, 0x31, 0x2E, 0x30, 0x5D, 0x7D]

def readings : Json := .obj [("k", .arr [.int 0, .float 1])]

theorem parse_normal_readings :
    parse bitsOf readingsText = some readings ∧
      parse bitsOf (Utf8.bytes (readings.dump bitsText)) =
        some (.obj [("k", .arr [.uint 0, .float 1])]) := by
  have hletter : Spells (String.utf8EncodeChar 'k') 'k' :=
    .plain (by decide) (by decide) (by decide)
  have hkey : Spelled [0x6B] "k".toList := .cons hletter .nil
  have hinteger : Number bitsOf [0x2D, 0x30] (.valueInteger 0) :=
    .integer (w := [0x30]) .zero (by decide)
  have hone : Whole [0x31] := .digits (by decide) (by decide) nofun
  have hfraction : Fraction [0x2E, 0x30] := .some (digits_cons.mpr ⟨by decide, by simp⟩)
  have hfloat : Number bitsOf [0x31, 0x2E, 0x30] (.valueFloat 1) :=
    .float hone hfraction .none (by simp)
  have hblank : Whitespace [0x20] := List.forall_mem_singleton.mpr (by decide)
  have hspelling : Spelling bitsOf readingsText [.beginObject, .valueString (Utf8.bytes "k"),
      .nameSeparator, .beginArray, .valueInteger 0, .valueSeparator, .valueFloat 1,
        .endArray, .endObject] :=
    .token (w := []) nofun .beginObject <| .token (w := []) nofun (.string hkey) <|
      .token (w := []) nofun .nameSeparator <| .token (w := []) nofun .beginArray <|
      .token (w := []) nofun (.number hinteger) <| .token (w := []) nofun .valueSeparator <|
      .token (w := [0x20]) hblank (.number hfloat) <| .token (w := []) nofun .endArray <|
      .token (w := []) nofun .endObject (.done nofun)
  have hreads : Reads (.value readings) _ :=
    .object (.member (.array (.items .integer (.item (.float (by decide))))))
  have htext : JsonText bitsOf readingsText readings := ⟨_, hspelling, hreads⟩
  exact ⟨htext.parse_eq, (parse_normal rereads_bits _ _ htext.parse_eq).2⟩

end Parsed

section Accessors

variable {strtod : List UInt8 → UInt64} {showFloat : UInt64 → String}

theorem lookup_canonFields (fs : Fields) (k : String) :
    (Json.canonFields fs).lookup k = (fs.lookup k).map Json.canon := by
  induction fs with
  | nil => rfl
  | cons f fs ih =>
    rw [Json.canonFields, List.lookup_cons, List.lookup_cons, ih]
    split <;> rfl

theorem find_canon (j : Json) (k : String) : j.canon.find k = (j.find k).map Json.canon := by
  cases j with
  | obj fs => rw [Json.canon, Json.find, Json.find, lookup_canonFields]
  | int n =>
    rw [Json.canon]
    split <;> rfl
  | _ => rfl

theorem representable_find {j v : Json} {k : String} (h : j.Representable strtod showFloat)
    (hv : j.find k = some v) : v.Representable strtod showFloat := by
  cases j with
  | obj fs =>
    obtain ⟨l, r, hfs, -⟩ := List.lookup_eq_some_iff.mp hv
    have hmem : (k, v) ∈ fs := hfs ▸ List.mem_append_right l (.head r)
    exact representableFields_iff.mp h.2 (k, v) hmem
  | _ => cases hv

theorem toI64_toNat {n : Int} (hn : 0 ≤ n) (hlt : n < 2 ^ 63) : toI64 n.toNat = n := by
  rw [toI64]
  have hmod : n.toNat % 2 ^ 64 = n.toNat := Nat.mod_eq_of_lt (by omega)
  rw [hmod, if_pos (by omega)]
  omega

theorem getStr_canon (j : Json) (k : String) : getStr j.canon k = getStr j k := by
  rw [getStr, getStr, find_canon]
  cases j.find k with
  | none => rfl
  | some v =>
    cases v with
    | int n =>
      rw [Option.map_some, Json.canon]
      by_cases hpos : 0 ≤ n
      · rw [if_pos hpos]
      · rw [if_neg hpos]
    | _ => rfl

theorem getI64_canon {j : Json} (h : j.Representable strtod showFloat) (k : String) (dflt : Int) :
    getI64 j.canon k dflt = getI64 j k dflt := by
  rw [getI64, getI64, find_canon]
  cases hv : j.find k with
  | none => rfl
  | some v =>
    cases v with
    | int n =>
      have hn := representable_find h hv
      rw [Option.map_some, Json.canon]
      by_cases hpos : 0 ≤ n
      · rw [if_pos hpos]
        exact toI64_toNat hpos hn.2
      · rw [if_neg hpos]
    | _ => rfl

theorem requestId_canon {j : Json} (h : j.Representable strtod showFloat) :
    requestId j.canon = requestId j := by
  rw [requestId, requestId, find_canon]
  cases hv : j.find "id" with
  | none => rfl
  | some v =>
    cases v with
    | int n =>
      have hn := representable_find h hv
      rw [Option.map_some, Json.canon]
      by_cases hpos : 0 ≤ n
      · rw [if_pos hpos]
        exact congrArg some (toI64_toNat hpos hn.2)
      · rw [if_neg hpos]
    | _ => rfl

end Accessors

end ChatServer
