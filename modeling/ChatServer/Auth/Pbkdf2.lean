import ChatServer.Auth.Sha256

namespace ChatServer.auth

open Lib Standard

def hmacSha256 (key msg : List UInt8) : List UInt8 :=
  let k := List.replicate 64 0
  let k := if 64 < key.length then memcpy k 0 (Sha256.hash key) else memcpy k 0 key
  let ipad := k.map (· ^^^ 0x36)
  let opad := k.map (· ^^^ 0x5c)
  let inner := ((Sha256.blank.update ipad).update msg).finish
  ((Sha256.blank.update opad).update inner).finish

def blockBe (block : UInt32) : List UInt8 :=
  [((block >>> 24) &&& 0xFF).toUInt8, ((block >>> 16) &&& 0xFF).toUInt8,
    ((block >>> 8) &&& 0xFF).toUInt8, (block &&& 0xFF).toUInt8]

section Model

variable (password salt : List UInt8) (iterations : UInt32)

def iterate (p : List UInt8 × List UInt8) : Nat → List UInt8 × List UInt8
  | 0 => p
  | n + 1 =>
    let (u, t) := iterate p n
    let u := hmacSha256 password u
    (u, List.zipWith (· ^^^ ·) t u)

def outBlock (block : UInt32) : List UInt8 :=
  let u := hmacSha256 password (salt ++ blockBe block)
  (iterate password (u, u) (iterations.toNat - 1)).2

def outBlocks (block : UInt32) (left : Nat) : List UInt8 :=
  if left = 0 then []
  else
    let take := min 32 left
    (outBlock password salt iterations block).take take ++ outBlocks (block + 1) (left - take)
termination_by left

def pbkdf2HmacSha256 (outLen : Nat) : List UInt8 := outBlocks password salt iterations 1 outLen

end Model

section Lengths

@[simp] theorem length_bigEndian (n x : Nat) : (bigEndian n x).length = n := by simp [bigEndian]

@[simp] theorem length_sha256 (m : List UInt8) : (sha256 m).length = 32 := by
  simp [sha256, Words.bytes]

@[simp] theorem length_hmac (key text : List UInt8) : (hmac key text).length = 32 := length_sha256 _

theorem length_chain (password salt : List UInt8) (i j : Nat) :
    (chain password salt i j).length = 32 := by
  cases j <;> exact length_hmac _ _

theorem length_derived (password salt : List UInt8) (c i : Nat) :
    (derived password salt c i).length = 32 := by
  rw [derived]
  induction c - 1 with
  | zero => exact length_chain password salt i 0
  | succ n ih =>
    rw [List.range_succ, List.foldl_append, List.foldl_cons, List.foldl_nil, xorBytes,
      List.length_zipWith, ih, length_chain, Nat.min_self]

end Lengths

theorem hmacSha256_eq (key msg : List UInt8) : hmacSha256 key msg = hmac key msg := by
  have hkey : (if 64 < key.length then memcpy (List.replicate 64 0) 0 (Sha256.hash key)
      else memcpy (List.replicate 64 0) 0 key) = blockKey key := by
    simp only [blockKey, memcpy, Sha256.hash_eq]
    split <;> simp only [List.take_zero, List.nil_append, Nat.zero_add, List.drop_replicate]
  have htwo (x y : List UInt8) : ((Sha256.blank.update x).update y).finish = sha256 (x ++ y) := by
    have h := Sha256.finish_updates (Vector.replicate 64 0) [x, y]
    rwa [List.flatten_cons, List.flatten_singleton] at h
  simp only [hmacSha256, hkey, htwo]
  rfl

theorem blockBe_eq (block : UInt32) : blockBe block = bigEndian 4 block.toNat := by
  have hbyte (x : UInt32) : (x &&& 0xFF).toUInt8 = x.toUInt8 := by
    rw [← UInt8.toNat_inj]
    simp [Nat.and_two_pow_sub_one_eq_mod _ 8]
  rw [← storeBe32_eq]
  simp only [blockBe, hbyte, storeBe32]

section Blocks

variable (password salt : List UInt8)

theorem iterate_eq (i n : Nat) :
    iterate password (chain password salt i 0, chain password salt i 0) n =
      (chain password salt i n, derived password salt (n + 1) i) := by
  induction n with
  | zero => rfl
  | succ n ih =>
    simp only [iterate, ih, hmacSha256_eq]
    rw [derived, derived, Nat.add_sub_cancel, Nat.add_sub_cancel, List.range_succ,
      List.foldl_append]
    rfl

theorem outBlock_eq (iterations block : UInt32) :
    outBlock password salt iterations block = derived password salt iterations.toNat
      block.toNat := by
  have hfirst : hmacSha256 password (salt ++ blockBe block) = chain password salt
      block.toNat 0 := by
    rw [hmacSha256_eq, blockBe_eq]
    rfl
  simp only [outBlock, hfirst, iterate_eq]
  rw [derived, derived, Nat.add_sub_cancel]

theorem outBlocks_eq (iterations block : UInt32) (left : Nat)
    (hblock : block.toNat + (left + 31) / 32 ≤ 2 ^ 32) :
    outBlocks password salt iterations block left =
      ((List.range ((left + 31) / 32)).flatMap fun i =>
        derived password salt iterations.toNat (block.toNat + i)).take left := by
  fun_induction outBlocks password salt iterations block left with
  | case1 => simp
  | case2 block left hleft take ih =>
    have hcount : (left + 31) / 32 = (left - take + 31) / 32 + 1 := by omega
    have hfront : (derived password salt iterations.toNat block.toNat).take take =
        (derived password salt iterations.toNat (block.toNat + 0)).take left := by
      rw [Nat.add_zero, List.take_eq_take_iff, length_derived]
      omega
    rw [outBlock_eq, hfront, hcount, List.range_succ_eq_map, List.flatMap_cons, List.flatMap_map,
      List.take_append, length_derived]
    congr 1
    by_cases hlast : left - take = 0
    · rw [hlast, outBlocks, if_pos rfl]
      exact List.take_nil.symm
    · have hnext : (block + 1).toNat = block.toNat + 1 := by
        rw [UInt32.toNat_add, UInt32.toNat_one, Nat.mod_eq_of_lt (by omega)]
      have hsucc (i : Nat) : block.toNat + 1 + i = block.toNat + (i + 1) := by omega
      have hleft' : left - 32 = left - take := by omega
      rw [ih (by omega), hnext, hleft']
      simp only [hsucc]

theorem length_outBlocks (iterations block : UInt32) (left : Nat) :
    (outBlocks password salt iterations block left).length = left := by
  fun_induction outBlocks password salt iterations block left with
  | case1 => rfl
  | case2 block left hleft take ih =>
    rw [List.length_append, ih, List.length_take, outBlock_eq, length_derived]
    omega

theorem length_pbkdf2HmacSha256 (iterations : UInt32) (len : Nat) :
    (pbkdf2HmacSha256 password salt iterations len).length = len := length_outBlocks ..

theorem pbkdf2HmacSha256_eq (iterations : UInt32) {len : Nat} (hlen : len ≤ (2 ^ 32 - 1) * 32) :
    pbkdf2HmacSha256 password salt iterations len = pbkdf2 password salt iterations.toNat len := by
  rw [pbkdf2HmacSha256, outBlocks_eq _ _ _ _ _ (by rw [UInt32.toNat_one]; omega), pbkdf2]
  simp only [UInt32.toNat_one, Nat.add_comm]

theorem pbkdf2_take (c : Nat) {len len' : Nat} (hle : len' ≤ len) :
    pbkdf2 password salt c len' = (pbkdf2 password salt c len).take len' := by
  obtain ⟨d, hd⟩ := Nat.exists_eq_add_of_le (show (len' + 31) / 32 ≤ (len + 31) / 32 by omega)
  have hlength : len' ≤ ((List.range ((len' + 31) / 32)).flatMap fun i =>
      derived password salt c (i + 1)).length := by
    simp only [List.length_flatMap, length_derived, List.map_const', List.sum_replicate_nat,
      List.length_range]
    omega
  rw [pbkdf2, pbkdf2, List.take_take, Nat.min_eq_left hle, hd, List.range_add, List.flatMap_append,
    List.take_append_of_le_length hlength]

end Blocks

theorem pbkdf2_correct (password salt : List UInt8) (iterations : UInt32) {len : Nat}
    (hlen : len ≤ (2 ^ 32 - 1) * 32) :
    pbkdf2HmacSha256 password salt iterations len = pbkdf2 password salt iterations.toNat len ∧
      ∀ len' ≤ len, pbkdf2HmacSha256 password salt iterations len' <+: pbkdf2HmacSha256 password
        salt iterations len := by
  have heq := pbkdf2HmacSha256_eq password salt iterations hlen
  refine ⟨heq, ?_⟩
  intro len' hle
  rw [heq, pbkdf2HmacSha256_eq password salt iterations (by omega), pbkdf2_take password salt _ hle]
  exact ⟨_, List.take_append_drop len' _⟩

theorem pbkdf2_correct_forty :
    pbkdf2HmacSha256 [0x70] [0x73] 1 40 = pbkdf2 [0x70] [0x73] 1 40 ∧
      pbkdf2HmacSha256 [0x70] [0x73] 1 20 <+: pbkdf2HmacSha256 [0x70] [0x73] 1 40 := by
  -- Forty bytes need a second block, of which eight are used.
  obtain ⟨hvalue, hshorter⟩ :=
    pbkdf2_correct [0x70] [0x73] 1 (show 40 ≤ (2 ^ 32 - 1) * 32 by decide)
  exact ⟨hvalue, hshorter 20 (by decide)⟩

end ChatServer.auth
