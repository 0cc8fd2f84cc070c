import ChatServer.Auth.Standard
import ChatServer.Lib.Bytes

namespace ChatServer.auth

open Lib Standard

def K : List UInt32 :=
  [0x428a2f98, 0x71374491, 0xb5c0fbcf, 0xe9b5dba5, 0x3956c25b, 0x59f111f1, 0x923f82a4, 0xab1c5ed5,
    0xd807aa98, 0x12835b01, 0x243185be, 0x550c7dc3, 0x72be5d74, 0x80deb1fe, 0x9bdc06a7, 0xc19bf174,
    0xe49b69c1, 0xefbe4786, 0x0fc19dc6, 0x240ca1cc, 0x2de92c6f, 0x4a7484aa, 0x5cb0a9dc, 0x76f988da,
    0x983e5152, 0xa831c66d, 0xb00327c8, 0xbf597fc7, 0xc6e00bf3, 0xd5a79147, 0x06ca6351, 0x14292967,
    0x27b70a85, 0x2e1b2138, 0x4d2c6dfc, 0x53380d13, 0x650a7354, 0x766a0abb, 0x81c2c92e, 0x92722c85,
    0xa2bfe8a1, 0xa81a664b, 0xc24b8b70, 0xc76c51a3, 0xd192e819, 0xd6990624, 0xf40e3585, 0x106aa070,
    0x19a4c116, 0x1e376c08, 0x2748774c, 0x34b0bcb5, 0x391c0cb3, 0x4ed8aa4a, 0x5b9cca4f, 0x682e6ff3,
    0x748f82ee, 0x78a5636f, 0x84c87814, 0x8cc70208, 0x90befffa, 0xa4506ceb, 0xbef9a3f7, 0xc67178f2]

def ror (x n : UInt32) : UInt32 := (x >>> n) ||| (x <<< (32 - n))

def loadBe32 (p : List UInt8) : UInt32 :=
  ((p.getD 0 0).toUInt32 <<< 24) ||| ((p.getD 1 0).toUInt32 <<< 16) |||
    ((p.getD 2 0).toUInt32 <<< 8) |||
    (p.getD 3 0).toUInt32

def storeBe32 (v : UInt32) : List UInt8 :=
  [(v >>> 24).toUInt8, (v >>> 16).toUInt8, (v >>> 8).toUInt8, v.toUInt8]

def memcpy (buf : List UInt8) (off : Nat) (data : List UInt8) : List UInt8 :=
  buf.take off ++ data ++ buf.drop (off + data.length)

def memset (buf : List UInt8) (off n : Nat) : List UInt8 := memcpy buf off (List.replicate n 0)

def expand (W : List UInt32) (i : Nat) : List UInt32 :=
  let s0 := ror (W.getD (i - 15) 0) 7 ^^^ ror (W.getD (i - 15) 0) 18 ^^^ (W.getD (i - 15) 0 >>> 3)
  let s1 := ror (W.getD (i - 2) 0) 17 ^^^ ror (W.getD (i - 2) 0) 19 ^^^ (W.getD (i - 2) 0 >>> 10)
  W ++ [W.getD (i - 16) 0 + s0 + W.getD (i - 7) 0 + s1]

def expanded (block : List UInt8) : List UInt32 :=
  (List.range' 16 48).foldl expand ((List.range 16).map fun i => loadBe32 (block.drop (i * 4)))

def mix (W : List UInt32) (v : Words) (i : Nat) : Words :=
  let S1 := ror v.e 6 ^^^ ror v.e 11 ^^^ ror v.e 25
  let ch := (v.e &&& v.f) ^^^ (~~~v.e &&& v.g)
  let t1 := v.h + S1 + ch + K.getD i 0 + W.getD i 0
  let S0 := ror v.a 2 ^^^ ror v.a 13 ^^^ ror v.a 22
  let mj := (v.a &&& v.b) ^^^ (v.a &&& v.c) ^^^ (v.b &&& v.c)
  let t2 := S0 + mj
  ⟨t1 + t2, v.a, v.b, v.c, v.d + t1, v.e, v.f, v.g⟩

/-- The state between two calls.  The buffer is not initialised by the constructor. -/
structure Sha256 where
  st : Words
  buf : List UInt8
  bits : UInt64
  blen : Nat
  buf_length : buf.length = 64
  blen_lt : blen < 64

namespace Sha256

def compress (st : Words) (block : List UInt8) : Words :=
  let v := (List.range 64).foldl (mix (expanded block)) st
  ⟨st.a + v.a, st.b + v.b, st.c + v.c, st.d + v.d, st.e + v.e, st.f + v.f, st.g + v.g, st.h + v.h⟩

def fresh (buf : Vector UInt8 64) : Sha256 where
  st := ⟨0x6a09e667, 0xbb67ae85, 0x3c6ef372, 0xa54ff53a, 0x510e527f, 0x9b05688c,
    0x1f83d9ab, 0x5be0cd19⟩
  buf := buf.toList
  bits := 0
  blen := 0
  buf_length := buf.length_toList
  blen_lt := by decide

end Sha256

theorem length_memcpy {buf data : List UInt8} {off : Nat} (h : off + data.length ≤ buf.length) :
    (memcpy buf off data).length = buf.length := by
  simp only [memcpy, List.length_append, List.length_take, List.length_drop]
  omega

namespace Sha256

def fill (s : Sha256) (data : List UInt8) : Sha256 :=
  let take := min (64 - s.blen) data.length
  have hlen : (memcpy s.buf s.blen (data.take take)).length = 64 := by
    rw [length_memcpy, s.buf_length]
    have := s.blen_lt
    rw [s.buf_length, List.length_take]
    omega
  if h : s.blen + take = 64 then
    { s with
      st := compress s.st (memcpy s.buf s.blen (data.take take))
      buf := memcpy s.buf s.blen (data.take take)
      blen := 0
      buf_length := hlen
      blen_lt := by decide }
  else
    { s with
      buf := memcpy s.buf s.blen (data.take take)
      blen := s.blen + take
      buf_length := hlen
      blen_lt := by have := s.blen_lt; omega }

def absorb (s : Sha256) (data : List UInt8) : Sha256 :=
  if data.length = 0 then s
  else absorb (s.fill data) (data.drop (min (64 - s.blen) data.length))
termination_by data.length
decreasing_by
  have := s.blen_lt
  rw [List.length_drop]
  omega

def update (s : Sha256) (data : List UInt8) : Sha256 :=
  absorb { s with bits := s.bits + UInt64.ofNat data.length * 8 } data

def finish (s : Sha256) : List UInt8 :=
  let buf := s.buf.set s.blen 0x80
  let blen := s.blen + 1
  let (st, buf, blen) :=
    if 56 < blen then (compress s.st (memset buf blen (64 - blen)), memset buf blen (64 - blen), 0)
    else (s.st, buf, blen)
  let buf := memset buf blen (56 - blen)
  let buf := (List.range 8).foldl
    (fun buf i => buf.set (56 + i) (s.bits >>> UInt64.ofNat (56 - 8 * i)).toUInt8) buf
  let st := compress st buf
  [st.a, st.b, st.c, st.d, st.e, st.f, st.g, st.h].flatMap storeBe32

def blank : Sha256 := fresh (Vector.replicate 64 0)

def hash (d : List UInt8) : List UInt8 := (blank.update d).finish

end Sha256

section Words

theorem ror_eq (x n : UInt32) (hpos : 0 < n.toNat) (hlt : n.toNat < 32) :
    ror x n = rotr x n.toNat := by
  rw [← UInt32.toBitVec_inj]
  simp only [ror, rotr]
  rw [BitVec.rotateRight_def, UInt32.toBitVec_or, UInt32.toBitVec_shiftRight,
    UInt32.toBitVec_shiftLeft, BitVec.ushiftRight_eq', BitVec.shiftLeft_eq']
  congr 2
  simp [BitVec.toNat_umod]
  omega

theorem bigSigma0_eq (x : UInt32) : ror x 2 ^^^ ror x 13 ^^^ ror x 22 = bigSigma0 x := by
  rw [ror_eq x 2 (by decide) (by decide), ror_eq x 13 (by decide) (by decide),
    ror_eq x 22 (by decide) (by decide)]
  rfl

theorem bigSigma1_eq (x : UInt32) : ror x 6 ^^^ ror x 11 ^^^ ror x 25 = bigSigma1 x := by
  rw [ror_eq x 6 (by decide) (by decide), ror_eq x 11 (by decide) (by decide),
    ror_eq x 25 (by decide) (by decide)]
  rfl

theorem smallSigma0_eq (x : UInt32) : ror x 7 ^^^ ror x 18 ^^^ (x >>> 3) = smallSigma0 x := by
  rw [ror_eq x 7 (by decide) (by decide), ror_eq x 18 (by decide) (by decide)]
  rfl

theorem smallSigma1_eq (x : UInt32) : ror x 17 ^^^ ror x 19 ^^^ (x >>> 10) = smallSigma1 x := by
  rw [ror_eq x 17 (by decide) (by decide), ror_eq x 19 (by decide) (by decide)]
  rfl

theorem loadBe32_eq (block : List UInt8) (i : Nat) : loadBe32 (block.drop i) = word block i := by
  simp only [loadBe32, word, List.getD_eq_getElem?_getD, List.getElem?_drop]
  exact or_bytes _ _ _ _

theorem storeBe32_eq (v : UInt32) : storeBe32 v = bigEndian 4 v.toNat := by
  simp [storeBe32, bigEndian, List.range_succ, ← UInt8.toNat_inj, Nat.shiftRight_eq_div_pow]

theorem K_eq (t : Nat) : K.getD t 0 = constant t := by
  have htable : K = primes.map (fracRoot 3) := by decide +kernel
  rw [constant, htable]

theorem initial_eq : Standard.initial =
    ⟨0x6a09e667, 0xbb67ae85, 0x3c6ef372, 0xa54ff53a, 0x510e527f, 0x9b05688c, 0x1f83d9ab,
      0x5be0cd19⟩ := by
  decide +kernel

end Words

section Compress

variable (block : List UInt8)

theorem schedule_lt {t : Nat} (h : t < 16) : schedule block t = word block (4 * t) := by
  rw [schedule, if_pos h]

theorem schedule_ge {t : Nat} (h : 16 ≤ t) :
    schedule block t = smallSigma1 (schedule block (t - 2)) + schedule block (t - 7) +
      smallSigma0 (schedule block (t - 15)) + schedule block (t - 16) := by
  rw [schedule, if_neg (by omega)]

theorem getD_append_last {W : List UInt32} {x : UInt32} {t : Nat} :
    (W ++ [x]).getD t 0 = if t = W.length then x else W.getD t 0 := by
  simp only [List.getD_eq_getElem?_getD, List.getElem?_append]
  split
  · rename_i h
    rw [if_neg (by omega)]
  · rename_i h
    split
    · rename_i heq
      simp [heq]
    · rename_i hne
      rw [List.getElem?_eq_none (by simp; omega), List.getElem?_eq_none (by omega)]

theorem expand_spec (n : Nat) :
    ((List.range' 16 n).foldl expand ((List.range 16).map fun i =>
      loadBe32 (block.drop (i * 4)))).length = 16 + n ∧
      ∀ t < 16 + n, ((List.range' 16 n).foldl expand
        ((List.range 16).map fun i => loadBe32 (block.drop (i * 4)))).getD t 0 =
          schedule block t := by
  induction n with
  | zero =>
    refine ⟨by simp, ?_⟩
    intro t ht
    have hget : ((List.range 16).map fun i => loadBe32 (block.drop (i * 4))).getD t 0 =
        loadBe32 (block.drop (t * 4)) := by
      simp [List.getD_eq_getElem?_getD, List.getElem?_range (show t < 16 by omega)]
    rw [List.range'_zero, List.foldl_nil, hget, loadBe32_eq, schedule_lt block (by omega),
      Nat.mul_comm]
  | succ n ih =>
    obtain ⟨hlen, hget⟩ := ih
    rw [List.range'_concat, List.foldl_append, List.foldl_cons, List.foldl_nil, Nat.one_mul]
    generalize (List.range' 16 n).foldl expand _ = W at hlen hget
    refine ⟨by simp [expand, hlen]; omega, ?_⟩
    intro t ht
    rw [expand, getD_append_last, hlen]
    split
    · rename_i heq
      subst heq
      rw [hget _ (by omega), hget _ (by omega), hget _ (by omega), hget _ (by omega),
        smallSigma0_eq, smallSigma1_eq, schedule_ge block (show 16 ≤ 16 + n by omega)]
      ac_rfl
    · exact hget t (by omega)

theorem expanded_getD {t : Nat} (h : t < 64) : (expanded block).getD t 0 = schedule block t :=
  (expand_spec block 48).2 t h

theorem mix_eq (v : Words) {i : Nat} (hi : i < 64) :
    mix (expanded block) v i = Standard.round block v i := by
  simp only [mix, Standard.round, bigSigma0_eq, bigSigma1_eq, expanded_getD block hi, K_eq]
  rfl

theorem compress_eq : Sha256.compress = Standard.compress := by
  funext st block
  have hrounds : (List.range 64).foldl (mix (expanded block)) st = (List.range 64).foldl
      (Standard.round block) st := by
    apply List.foldl_ext
    intro v i hi
    exact mix_eq block v (List.mem_range.mp hi)
  simp only [Sha256.compress, Standard.compress, hrounds, UInt32.add_comm]

end Compress

section Buffer

variable {buf data : List UInt8} {off : Nat}

theorem take_memcpy (h : off ≤ buf.length) :
    (memcpy buf off data).take (off + data.length) = buf.take off ++ data :=
  List.take_left' (by rw [List.length_append, List.length_take, Nat.min_eq_left h])

theorem memcpy_full (h : off + data.length = buf.length) :
    memcpy buf off data = buf.take off ++ data := by
  rw [memcpy, h, List.drop_length, List.append_nil]

theorem take_set (x : UInt8) (h : off < buf.length) :
    (buf.set off x).take (off + 1) = buf.take off ++ [x] := by
  rw [List.take_succ_eq_append_getElem (by rwa [List.length_set]), List.getElem_set_self,
    List.take_set_of_le (Nat.le_refl off)]

theorem foldl_set (g : Nat → UInt8) (n : Nat) (h : off + n ≤ buf.length) :
    (List.range n).foldl (fun buf i => buf.set (off + i) (g i)) buf = memcpy buf off
      ((List.range n).map g) := by
  induction n with
  | zero => simp [memcpy]
  | succ n ih =>
    rw [List.range_succ, List.foldl_append, ih (by omega), List.foldl_cons, List.foldl_nil,
      List.map_append]
    have hlen : (buf.take off ++ (List.range n).map g).length = off + n := by
      rw [List.length_append, List.length_take, List.length_map, List.length_range]
      omega
    simp only [memcpy, List.length_append, List.length_map, List.length_range,
      List.length_singleton, List.map_cons, List.map_nil]
    rw [List.drop_eq_getElem_cons (by omega), List.set_append_right _ _ (by omega),
      hlen, Nat.sub_self, List.set_cons_zero]
    simp [Nat.add_assoc]

end Buffer

namespace Sha256

theorem fill_feed (s : Sha256) {data : List UInt8} (hdata : data ≠ []) :
    Blocks.feed 64 compress (s.st, s.buf.take s.blen) (data.take (min (64 - s.blen) data.length)) =
      ((s.fill data).st, (s.fill data).buf.take (s.fill data).blen) := by
  have hblen := s.blen_lt
  have hbuf := s.buf_length
  have hpos := List.length_pos_iff.mpr hdata
  have hlen : (data.take (min (64 - s.blen) data.length)).length = min (64 - s.blen)
      data.length := by
    rw [List.length_take]
    omega
  have htail : (s.buf.take s.blen).length = s.blen := by
    rw [List.length_take]
    omega
  by_cases hfull : s.blen + min (64 - s.blen) data.length = 64
  · have hcopy : memcpy s.buf s.blen (data.take (min (64 - s.blen) data.length)) =
        s.buf.take s.blen ++ data.take (min (64 - s.blen) data.length) :=
          memcpy_full (by rw [hlen, hfull, hbuf])
    rw [Blocks.feed_fill (by rw [← List.length_pos_iff]; omega) (by omega), fill, dif_pos hfull]
    simp only [hcopy, List.take_zero]
  · have hcopy := @take_memcpy s.buf (data.take (min (64 - s.blen) data.length)) s.blen (by omega)
    rw [hlen] at hcopy
    have hkept := Blocks.feed_short (f := compress) (s := s.st)
      (show (s.buf.take s.blen).length + (data.take (min (64 - s.blen) data.length)).length < 64 by
        omega)
    rw [hkept, fill, dif_neg hfull]
    simp only [hcopy]

theorem bits_fill (s : Sha256) (data : List UInt8) : (s.fill data).bits = s.bits := by
  simp only [fill]
  split <;> rfl

theorem absorb_feed (s : Sha256) (data : List UInt8) :
    Blocks.feed 64 compress (s.st, s.buf.take s.blen) data =
      ((s.absorb data).st, (s.absorb data).buf.take (s.absorb data).blen) ∧
      (s.absorb data).bits = s.bits := by
  fun_induction absorb s data with
  | case1 s data h =>
    obtain rfl := List.length_eq_zero_iff.mp h
    exact ⟨rfl, rfl⟩
  | case2 s data h ih =>
    obtain ⟨hfeed, hbits⟩ := ih
    refine ⟨?_, by rw [hbits, bits_fill]⟩
    rw [← hfeed, ← fill_feed s (by rintro rfl; exact h rfl), ← Blocks.feed_append,
      List.take_append_drop]

structure Took (s : Sha256) (m : List UInt8) : Prop where
  fed : Blocks.feed 64 compress (initial, []) m = (s.st, s.buf.take s.blen)
  counted : s.bits = UInt64.ofNat (8 * m.length)

theorem took_fresh (buf : Vector UInt8 64) : (fresh buf).Took [] where
  fed := by
    rw [initial_eq]
    rfl
  counted := rfl

theorem Took.update {s : Sha256} {m : List UInt8} (h : s.Took m) (d : List UInt8) :
    (s.update d).Took (m ++ d) where
  fed := by
    rw [Blocks.feed_append, h.fed]
    exact (absorb_feed { s with bits := s.bits + UInt64.ofNat d.length * 8 } d).1
  counted := by
    rw [Sha256.update, (absorb_feed _ d).2, h.counted, List.length_append, Nat.mul_add,
      Nat.mul_comm 8 d.length]
    simp

theorem Took.blen_eq {s : Sha256} {m : List UInt8} (h : s.Took m) : s.blen = m.length % 64 := by
  have hlen := Blocks.length_feed (f := compress) (p := (initial, [])) (show 0 < 64 by decide) m
  rw [h.fed, List.length_nil, Nat.zero_add] at hlen
  rw [← hlen, List.length_take, s.buf_length]
  have := s.blen_lt
  omega

section Finish

variable {s : Sha256} {m : List UInt8}

theorem length_bytes (len : Nat) :
    (List.range 8).map (fun i => ((UInt64.ofNat len) >>> UInt64.ofNat (56 - 8 * i)).toUInt8) =
      bigEndian 8 len := by
  simp [bigEndian, List.range_succ, ← UInt8.toNat_inj, Nat.shiftRight_eq_div_pow]
  omega

theorem foldl_length (len : Nat) {buf : List UInt8} (hbuf : buf.length = 64) :
    (List.range 8).foldl (fun buf i =>
      buf.set (56 + i) (UInt64.ofNat len >>> UInt64.ofNat (56 - 8 * i)).toUInt8) buf =
      buf.take 56 ++ bigEndian 8 len := by
  rw [foldl_set _ 8 (by omega), length_bytes, memcpy_full (by simp [bigEndian, hbuf])]

theorem length_pad (m : List UInt8) : 64 ∣ (pad m).length := by
  simp only [pad, bigEndian, List.length_append, List.length_cons, List.length_replicate,
    List.length_map, List.length_range]
  omega

theorem flatMap_storeBe32 (st : Words) :
    [st.a, st.b, st.c, st.d, st.e, st.f, st.g, st.h].flatMap storeBe32 = st.bytes := by
  have hstore : storeBe32 = fun x => bigEndian 4 x.toNat := funext storeBe32_eq
  rw [hstore]
  rfl

theorem take_padded (s : Sha256) {n : Nat} (hn : s.blen < n) (hle : n ≤ 64) :
    (memset (s.buf.set s.blen 0x80) (s.blen + 1) (n - (s.blen + 1))).take n =
      s.buf.take s.blen ++ 0x80 :: List.replicate (n - (s.blen + 1)) 0 := by
  have hbuf := s.buf_length
  have hcopy := @take_memcpy (s.buf.set s.blen 0x80) (List.replicate (n - (s.blen + 1)) 0)
    (s.blen + 1)
    (by rw [List.length_set]; omega)
  rw [List.length_replicate, Nat.add_sub_cancel' hn, take_set _ (by omega), List.append_assoc]
    at hcopy
  exact hcopy

theorem length_memset {buf : List UInt8} {off n : Nat} (h : off + n ≤ buf.length) :
    (memset buf off n).length = buf.length :=
  length_memcpy (by rwa [List.length_replicate])

theorem finish_one {len : Nat} (hbits : s.bits = UInt64.ofNat len) (h : ¬ 56 < s.blen + 1) :
    s.finish = (compress s.st (s.buf.take s.blen ++
      0x80 :: (List.replicate (55 - s.blen) 0 ++ bigEndian 8 len))).bytes := by
  have hlen : (memset (s.buf.set s.blen 0x80) (s.blen + 1) (56 - (s.blen + 1))).length = 64 := by
    rw [length_memset (by rw [List.length_set, s.buf_length]; omega), List.length_set, s.buf_length]
  simp only [finish, if_neg h, hbits]
  rw [flatMap_storeBe32, foldl_length len hlen, take_padded s (by omega) (by decide),
    List.append_assoc, List.cons_append]
  congr 6
  omega

theorem finish_two {len : Nat} (hbits : s.bits = UInt64.ofNat len) (h : 56 < s.blen + 1) :
    s.finish =
      (compress (compress s.st (s.buf.take s.blen ++ 0x80 :: List.replicate (63 - s.blen) 0))
      (List.replicate 56 0 ++ bigEndian 8 len)).bytes := by
  have hblen := s.blen_lt
  have hlen : (memset (s.buf.set s.blen 0x80) (s.blen + 1) (64 - (s.blen + 1))).length = 64 := by
    rw [length_memset (by rw [List.length_set, s.buf_length]; omega), List.length_set, s.buf_length]
  have hfirst := take_padded s s.blen_lt (Nat.le_refl 64)
  rw [List.take_of_length_le hlen.le] at hfirst
  have hzeros (buf : List UInt8) : (memset buf 0 56).take 56 = List.replicate 56 0 := by
    have hcopy := @take_memcpy buf (List.replicate 56 0) 0 (Nat.zero_le _)
    rwa [List.length_replicate, List.take_zero, List.nil_append] at hcopy
  have hlen' : (memset (memset (s.buf.set s.blen 0x80) (s.blen + 1) (64 - (s.blen + 1))) 0
      56).length = 64 := by
    rw [length_memset (by omega), hlen]
  simp only [finish, if_pos h, hbits, Nat.sub_zero]
  rw [flatMap_storeBe32, foldl_length len hlen', hzeros, hfirst, Nat.sub_add_eq, Nat.sub_right_comm]

theorem Took.finish (h : s.Took m) : s.finish = sha256 m := by
  have hblen := h.blen_eq
  have hlt := s.blen_lt
  have htail : (s.buf.take s.blen).length = s.blen := by
    rw [List.length_take, s.buf_length]
    omega
  have hlength : (bigEndian 8 (8 * m.length)).length = 8 := by simp [bigEndian]
  have hall : Blocks.feed 64 compress (s.st, s.buf.take s.blen)
      (0x80 :: (List.replicate ((119 - s.blen) % 64) 0 ++ bigEndian 8 (8 * m.length))) =
        (Blocks.foldBlocks 64 compress initial (pad m), []) := by
    rw [← Blocks.feed_blocks (by decide) (length_pad m), ← h.fed, ← Blocks.feed_append, hblen]
    rfl
  rw [sha256, ← compress_eq]
  by_cases htwo : 56 < s.blen + 1
  · have hsplit : 0x80 :: (List.replicate ((119 - s.blen) % 64) 0 ++ bigEndian 8 (8 * m.length)) =
        (0x80 :: List.replicate (63 - s.blen) 0) ++
          (List.replicate 56 0 ++ bigEndian 8 (8 * m.length)) := by
      have hz : (119 - s.blen) % 64 = (63 - s.blen) + 56 := by omega
      rw [hz, List.replicate_add, List.append_assoc, List.cons_append]
    have hfirst := @Blocks.feed_fill _ _ 64 compress s.st (s.buf.take s.blen)
      (0x80 :: List.replicate (63 - s.blen) 0)
      (by simp) (by rw [htail, List.length_cons, List.length_replicate]; omega)
    rw [hsplit, Blocks.feed_append, hfirst, Blocks.feed_fill (by simp) (by simp [hlength])] at hall
    rw [finish_two h.counted htwo, ← (Prod.mk.inj hall).1, List.nil_append]
  · have hz : (119 - s.blen) % 64 = 55 - s.blen := by omega
    have hlast := @Blocks.feed_fill _ _ 64 compress s.st (s.buf.take s.blen)
      (0x80 :: (List.replicate (55 - s.blen) 0 ++ bigEndian 8 (8 * m.length))) (by simp)
      (by rw [htail, List.length_cons, List.length_append, List.length_replicate, hlength]; omega)
    rw [hz, hlast] at hall
    rw [finish_one h.counted htwo, ← (Prod.mk.inj hall).1]

end Finish

theorem Took.updates {s : Sha256} {m : List UInt8} (h : s.Took m) (pieces : List (List UInt8)) :
    (pieces.foldl Sha256.update s).Took (m ++ pieces.flatten) := by
  induction pieces generalizing s m with
  | nil => simpa using h
  | cons d pieces ih =>
    rw [List.foldl_cons, List.flatten_cons, ← List.append_assoc]
    exact ih (h.update d)

theorem finish_updates (buf : Vector UInt8 64) (pieces : List (List UInt8)) :
    (pieces.foldl update (fresh buf)).finish = sha256 pieces.flatten :=
  ((took_fresh buf).updates pieces).finish

theorem hash_eq (m : List UInt8) : hash m = sha256 m := by
  have h := finish_updates (Vector.replicate 64 0) [m]
  rwa [List.flatten_singleton] at h

theorem digest_correct (buf : Vector UInt8 64) (pieces : List (List UInt8)) :
    (pieces.foldl update (fresh buf)).finish = sha256 pieces.flatten ∧
      (pieces.foldl update (fresh buf)).finish = hash pieces.flatten := by
  have hdigest := finish_updates buf pieces
  exact ⟨hdigest, by rw [hdigest, hash_eq]⟩

example : hash [0x61, 0x62, 0x63] =
    [0xba, 0x78, 0x16, 0xbf, 0x8f, 0x01, 0xcf, 0xea, 0x41, 0x41, 0x40, 0xde, 0x5d, 0xae, 0x22, 0x23,
      0xb0, 0x03, 0x61, 0xa3, 0x96, 0x17, 0x7a, 0x9c, 0xb4, 0x10, 0xff, 0x61, 0xf2, 0x00,
      0x15, 0xad] := by
  decide +kernel

end Sha256

end ChatServer.auth
