import ChatServer.Protocol.Messages

namespace ChatServer

namespace Json

def escapedSize (c : Char) : Nat :=
  if c.toNat ∈ [0x08, 0x09, 0x0A, 0x0C, 0x0D, 0x22, 0x5C] then 2
  else if c.toNat ≤ 0x1F then 6
  else c.utf8Size

def textSize (s : String) : Nat := 2 + (s.toList.map escapedSize).sum

def numberSize (n : Int) : Nat := (toString n).utf8ByteSize

section Size

variable (showFloat : UInt64 → String)

mutual

def size : Json → Nat
  | .null => 4
  | .bool b => if b then 4 else 5
  | .int n => numberSize n
  | .uint n => numberSize n
  | .float b => (showFloat b).utf8ByteSize
  | .str s => textSize s
  | .arr js => 2 + itemsSize js
  | .obj fs => 2 + fieldsSize fs

def itemsSize : List Json → Nat
  | [] => 0
  | [j] => size j
  | j :: j' :: js => size j + 1 + itemsSize (j' :: js)

def fieldsSize : Fields → Nat
  | [] => 0
  | [(k, j)] => textSize k + 1 + size j
  | (k, j) :: f :: fs => textSize k + 1 + size j + 1 + fieldsSize (f :: fs)

end

theorem utf8ByteSize_ofList_flatMap (f : Char → List Char) (cs : List Char) :
    (String.ofList (cs.flatMap f)).utf8ByteSize = (cs.map fun c =>
      (String.ofList (f c)).utf8ByteSize).sum := by
  induction cs with
  | nil => rfl
  | cons c cs ih => simp [String.ofList_append, String.utf8ByteSize_append, ih]

theorem utf8ByteSize_ofList (cs : List Char) :
    (String.ofList cs).utf8ByteSize = (cs.map Char.utf8Size).sum := by
  induction cs with
  | nil => rfl
  | cons c cs ih =>
    rw [String.ofList_cons, String.utf8ByteSize_append, ih, List.map_cons, List.sum_cons,
      String.utf8ByteSize_singleton]

theorem utf8Size_hexDigit (n : Nat) : (hexDigit n).utf8Size = 1 := by
  have hall : "0123456789abcdef".toList.all (fun c => c.utf8Size = 1) = true := by decide
  unfold hexDigit
  cases h : "0123456789abcdef".toList[n]? with
  | none => rfl
  | some c => exact of_decide_eq_true (List.all_eq_true.mp hall c (List.mem_of_getElem? h))

theorem utf8ByteSize_escapeChar (c : Char) :
    (String.ofList (escapeChar c)).utf8ByteSize = escapedSize c := by
  rw [utf8ByteSize_ofList]
  unfold escapedSize
  split
  · rename_i hshort
    simp only [List.mem_cons, List.not_mem_nil, or_false] at hshort
    rcases hshort with h | h | h | h | h | h | h <;> simp only [escapeChar, h] <;> rfl
  · rename_i hshort
    simp only [List.mem_cons, List.not_mem_nil, or_false, not_or] at hshort
    have hescape : escapeChar c = if c.toNat ≤ 0x1F then
        ['\\', 'u', '0', '0', hexDigit (c.toNat / 16), hexDigit (c.toNat % 16)] else [c] := by
      simp only [escapeChar, hshort, if_false]
    rw [hescape]
    split
    · simp only [List.map_cons, utf8Size_hexDigit, List.map_nil]
      rfl
    · exact Nat.add_zero _

theorem utf8ByteSize_quote (s : String) : (quote s).utf8ByteSize = textSize s := by
  have hquote : "\"".utf8ByteSize = 1 := by decide
  rw [quote, escape, String.utf8ByteSize_append, String.utf8ByteSize_append,
    utf8ByteSize_ofList_flatMap, hquote, textSize]
  rw [show (fun c => (String.ofList (escapeChar c)).utf8ByteSize) = escapedSize from
    funext utf8ByteSize_escapeChar]
  omega

mutual

theorem utf8ByteSize_dump (j : Json) : (j.dump showFloat).utf8ByteSize = j.size showFloat := by
  cases j with
  | null => rfl
  | bool b => cases b <;> rfl
  | int n => rfl
  | uint n => rfl
  | float b => rfl
  | str s => exact utf8ByteSize_quote s
  | arr js =>
    rw [dump, size, String.utf8ByteSize_append, String.utf8ByteSize_append,
      utf8ByteSize_dumpItems js, show "[".utf8ByteSize = 1 from rfl,
        show "]".utf8ByteSize = 1 from rfl]
    omega
  | obj fs =>
    rw [dump, size, String.utf8ByteSize_append, String.utf8ByteSize_append,
      utf8ByteSize_dumpFields fs, show "\x7b".utf8ByteSize = 1 from rfl,
        show "\x7d".utf8ByteSize = 1 from rfl]
    omega

theorem utf8ByteSize_dumpItems (js : List Json) :
    (dumpItems showFloat js).utf8ByteSize = itemsSize showFloat js := by
  match js with
  | [] => rfl
  | [j] => exact utf8ByteSize_dump j
  | j :: j' :: js =>
    simp only [dumpItems, itemsSize, String.utf8ByteSize_append, utf8ByteSize_dump j,
      utf8ByteSize_dumpItems (j' :: js)]
    rfl

theorem utf8ByteSize_dumpFields (fs : Fields) :
    (dumpFields showFloat fs).utf8ByteSize = fieldsSize showFloat fs := by
  match fs with
  | [] => rfl
  | [(k, j)] =>
    simp only [dumpFields, fieldsSize, String.utf8ByteSize_append, utf8ByteSize_dump j,
      utf8ByteSize_quote]
    rfl
  | (k, j) :: f :: fs =>
    simp only [dumpFields, fieldsSize, String.utf8ByteSize_append, utf8ByteSize_dump j,
      utf8ByteSize_quote, utf8ByteSize_dumpFields (f :: fs)]
    rfl

end

def fieldSize (f : String × Json) : Nat := textSize f.1 + 2 + f.2.size showFloat

theorem size_obj {fs : Fields} (h : fs ≠ []) :
    (Json.obj fs).size showFloat = 1 + (fs.map (fieldSize showFloat)).sum := by
  have hfields : fieldsSize showFloat fs + 1 = (fs.map (fieldSize showFloat)).sum := by
    induction fs with
    | nil => exact absurd rfl h
    | cons f fs ih =>
      obtain ⟨k, j⟩ := f
      cases fs with
      | nil =>
        simp only [fieldsSize, List.map_cons, List.map_nil, List.sum_cons, List.sum_nil, fieldSize]
        omega
      | cons f' fs =>
        have htail := ih (List.cons_ne_nil f' fs)
        rw [List.map_cons, List.sum_cons, ← htail, fieldsSize, fieldSize]
        dsimp only
        omega
  rw [size, ← hfields]
  omega

end Size

end Json

namespace Fields

theorem set_perm {k : String} {fs : Fields} (v : Json) (h : k ∉ fs.map Prod.fst) :
    (Fields.set k v fs).Perm ((k, v) :: fs) := by
  induction fs with
  | nil => exact .refl _
  | cons f fs ih =>
    obtain ⟨k', v'⟩ := f
    rw [List.map_cons, List.mem_cons, not_or] at h
    rw [Fields.set, if_neg h.1]
    split
    · exact .refl _
    · exact ((ih h.2).cons _).trans (.swap _ _ _)

theorem assign_perm (fs : Fields) (as : List (String × Json))
    (hnew : (as ++ fs).map Prod.fst |>.Nodup) : (Fields.assign fs as).Perm (as ++ fs) := by
  induction as generalizing fs with
  | nil => exact .refl _
  | cons a as ih =>
    obtain ⟨k, v⟩ := a
    rw [List.cons_append, List.map_cons, List.nodup_cons] at hnew
    have hset : (Fields.set k v fs).Perm ((k, v) :: fs) := by
      apply set_perm
      intro hk
      apply hnew.1
      rw [List.map_append]
      exact List.mem_append_right _ hk
    have hmoved : (as ++ Fields.set k v fs).Perm ((k, v) :: (as ++ fs)) :=
      (hset.append_left as).trans List.perm_middle
    apply (ih _ _).trans hmoved
    rw [(hmoved.map Prod.fst).nodup_iff]
    exact List.nodup_cons.mpr hnew

theorem lookup_of_mem {fs : Fields} (hnodup : (fs.map Prod.fst).Nodup) {k : String} {v : Json}
    (h : (k, v) ∈ fs) : fs.lookup k = some v := by
  induction fs with
  | nil => cases h
  | cons f fs ih =>
    obtain ⟨k', v'⟩ := f
    rw [List.map_cons, List.nodup_cons] at hnodup
    rcases List.mem_cons.mp h with heq | hmem
    · cases heq
      exact List.lookup_cons_self
    · have hne : (k == k') = false := by
        rw [beq_eq_false_iff_ne]
        rintro rfl
        exact hnodup.1 (List.mem_map.mpr ⟨_, hmem, rfl⟩)
      rw [List.lookup_cons, hne]
      exact ih hnodup.2 hmem

end Fields

section Bounds

def IsI64 (n : Int) : Prop := -2 ^ 63 ≤ n ∧ n < 2 ^ 63

theorem isI64_toI64 (n : Nat) : IsI64 (toI64 n) := by
  unfold IsI64 toI64
  split <;> omega

theorem utf8ByteSize_repr (n : Nat) : n.repr.utf8ByteSize = (Nat.toDigits 10 n).length := by
  have hone : ∀ c ∈ Nat.toDigits 10 n, c.utf8Size = 1 := by
    intro c hc
    have hdigit : 48 ≤ c.val ∧ c.val ≤ 57 := by
      simpa [Char.isDigit] using Nat.isDigit_of_mem_toDigits (by decide) (by decide) hc
    exact Char.utf8Size_eq_one_iff.mpr (UInt32.le_trans hdigit.2 (by decide))
  rw [Nat.repr, Json.utf8ByteSize_ofList, List.map_congr_left hone]
  simp

theorem numberSize_le {n : Int} (h : IsI64 n) : Json.numberSize n ≤ 20 := by
  obtain ⟨hlow, hhigh⟩ := h
  have hdigits {m : Nat} (hm : m < 10 ^ 19) : m.repr.utf8ByteSize ≤ 19 := by
    rw [utf8ByteSize_repr, Nat.length_toDigits_le_iff (by decide) (by decide)]
    exact hm
  cases n with
  | ofNat m =>
    rw [Int.ofNat_eq_natCast] at hhigh
    exact Nat.le_succ_of_le (hdigits (by omega))
  | negSucc m =>
    have hm : m.succ.repr.utf8ByteSize ≤ 19 := hdigits (by omega)
    rw [Json.numberSize, show toString (Int.negSucc m) = "-" ++ m.succ.repr from rfl,
      String.utf8ByteSize_append, show "-".utf8ByteSize = 1 from rfl]
    omega

theorem escapedSize_le (c : Char) : Json.escapedSize c ≤ 6 * c.utf8Size := by
  have hpos := c.utf8Size_pos
  unfold Json.escapedSize
  split
  · omega
  · split <;> omega

theorem textSize_le (s : String) : Json.textSize s ≤ 2 + 6 * s.utf8ByteSize := by
  have hsum (cs : List Char) : (cs.map Json.escapedSize).sum ≤ 6 * (cs.map Char.utf8Size).sum := by
    induction cs with
    | nil => exact Nat.le_refl 0
    | cons c cs ih =>
      have hc := escapedSize_le c
      simp only [List.map_cons, List.sum_cons]
      omega
  have hs := hsum s.toList
  rw [← Json.utf8ByteSize_ofList, String.ofList_toList] at hs
  exact Nat.add_le_add_left hs 2

theorem size_assign (showFloat : UInt64 → String) {fs : Fields} (hne : fs ≠ [])
    (hnodup : (fs.map Prod.fst).Nodup) :
    (Json.obj (Fields.assign [] fs)).size showFloat =
      1 + (fs.map (Json.fieldSize showFloat)).sum := by
  have hperm := Fields.assign_perm [] fs (by rwa [List.append_nil])
  rw [List.append_nil] at hperm
  have hassigned : Fields.assign [] fs ≠ [] := by
    intro h
    rw [h] at hperm
    exact hne hperm.symm.eq_nil
  rw [Json.size_obj showFloat hassigned, (hperm.map _).sum_nat]

theorem eventSize_le (showFloat : UInt64 → String) {msgId senderId ts : Int}
    {receiverId roomId : Option Int}
    (content : String) (hmsg : IsI64 msgId) (hsender : IsI64 senderId) (hts : IsI64 ts)
    (hreceiver : ∀ n ∈ receiverId, IsI64 n) (hroom : ∀ n ∈ roomId, IsI64 n) :
    (makeEventMessage msgId senderId receiverId roomId content ts).size showFloat ≤
      199 + 6 * content.utf8ByteSize := by
  have hfixed : Json.textSize "type" = 6 ∧ Json.textSize types.kEventMessage = 15 ∧
    Json.textSize "msg_id" = 8 ∧
      Json.textSize "sender_id" = 11 ∧ Json.textSize "receiver_id" = 13 ∧
        Json.textSize "room_id" = 9 ∧
      Json.textSize "content" = 9 ∧ Json.textSize "timestamp" = 11 := by decide
  have hoption {k : String} {n : Option Int} (hn : ∀ m ∈ n, IsI64 m) :
      ((optField k n).map (Json.fieldSize showFloat)).sum ≤ Json.textSize k + 22 := by
    cases n with
    | none => simp [optField]
    | some n =>
      have hle := numberSize_le (hn n rfl)
      simp only [optField, List.map_cons, List.map_nil, List.sum_cons, List.sum_nil,
        Json.fieldSize, Json.size]
      omega
  have hreceiver' := hoption (k := "receiver_id") hreceiver
  have hroom' := hoption (k := "room_id") hroom
  have hmsg' := numberSize_le hmsg
  have hsender' := numberSize_le hsender
  have hts' := numberSize_le hts
  have htext := textSize_le content
  rw [makeEventMessage, size_assign]
  · simp only [List.map_append, List.sum_append, List.map_cons, List.map_nil,
      List.sum_cons, List.sum_nil, Json.fieldSize, Json.size, hfixed]
    omega
  · simp
  · cases receiverId <;> cases roomId <;> simp [optField]

end Bounds

end ChatServer
