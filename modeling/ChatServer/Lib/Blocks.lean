import Mathlib.Data.List.Basic

namespace ChatServer.Lib.Blocks

variable {α σ : Type} (n : Nat) (f : σ → List α → σ)

def push (p : σ × List α) (a : α) : σ × List α :=
  if p.2.length + 1 = n then (f p.1 (p.2 ++ [a]), []) else (p.1, p.2 ++ [a])

def feed (p : σ × List α) (l : List α) : σ × List α := l.foldl (push n f) p

def block (l : List α) (i : Nat) : List α := (l.drop (n * i)).take n

def blocks (l : List α) (k : Nat) : List (List α) := (List.range k).map (block n l)

def foldBlocks (s : σ) (l : List α) : σ :=
  (List.range (l.length / n)).foldl (fun s i => f s (block n l i)) s

variable {n f} {s : σ} {buf l : List α}

theorem feed_append (p : σ × List α) (l l' : List α) :
    feed n f p (l ++ l') = feed n f (feed n f p l) l' :=
  List.foldl_append

theorem feed_short (h : buf.length + l.length < n) : feed n f (s, buf) l = (s, buf ++ l) := by
  induction l generalizing buf with
  | nil => simp [feed]
  | cons a l ih =>
    rw [List.length_cons] at h
    have hpush : push n f (s, buf) a = (s, buf ++ [a]) := if_neg (by show buf.length + 1 ≠ n; omega)
    have hrest : feed n f (s, buf ++ [a]) l = (s, buf ++ [a] ++ l) := ih (by simp; omega)
    rw [feed, List.foldl_cons, hpush, ← feed, hrest, List.append_assoc, List.singleton_append]

theorem feed_fill (hl : l ≠ []) (h : buf.length + l.length = n) :
    feed n f (s, buf) l = (f s (buf ++ l), []) := by
  obtain ⟨l, a, rfl⟩ := List.eq_nil_or_concat l |>.resolve_left hl
  rw [List.concat_eq_append] at h ⊢
  rw [List.length_append, List.length_singleton] at h
  have hfront : feed n f (s, buf) l = (s, buf ++ l) := feed_short (by omega)
  have hlast : push n f (s, buf ++ l) a = (f s (buf ++ l ++ [a]), []) :=
    if_pos (by show (buf ++ l).length + 1 = n; rw [List.length_append]; omega)
  rw [feed_append, hfront, feed, List.foldl_cons, hlast, List.foldl_nil, List.append_assoc]

theorem length_feed {p : σ × List α} (hp : p.2.length < n) (l : List α) :
    (feed n f p l).2.length = (p.2.length + l.length) % n := by
  induction l generalizing p with
  | nil => exact (Nat.mod_eq_of_lt hp).symm
  | cons a l ih =>
    rw [List.length_cons, feed, List.foldl_cons, ← feed, push]
    split
    · rename_i hfull
      have hsum : p.2.length + (l.length + 1) = l.length + n := by omega
      rw [ih (by show 0 < n; omega), hsum, Nat.add_mod_right, List.length_nil, Nat.zero_add]
    · rename_i hfree
      rw [ih (by rw [List.length_append, List.length_singleton]; omega), List.length_append,
        List.length_singleton]
      congr 1
      omega

theorem block_append_left {i : Nat} (l' : List α) (h : n * (i + 1) ≤ l.length) :
    block n (l ++ l') i = block n l i := by
  rw [Nat.mul_succ] at h
  rw [block, block, List.drop_append_of_le_length (by omega),
    List.take_append_of_le_length (by rw [List.length_drop]; omega)]

theorem block_append_right {k : Nat} (l' : List α) (h : l.length = n * k) (i : Nat) :
    block n (l ++ l') (k + i) = block n l' i := by
  rw [block, block, Nat.mul_add, ← h, List.drop_append,
    List.drop_of_length_le (Nat.le_add_right ..), Nat.add_sub_cancel_left, List.nil_append]

theorem blocks_append {k : Nat} (l' : List α) (j : Nat) (h : l.length = n * k) :
    blocks n (l ++ l') (k + j) = blocks n l k ++ blocks n l' j := by
  have hfront : ∀ i ∈ List.range k, block n (l ++ l') i = block n l i := by
    intro i hi
    apply block_append_left
    rw [h]
    exact Nat.mul_le_mul_left n (Nat.succ_le_of_lt (List.mem_range.mp hi))
  rw [blocks, List.range_add, List.map_append, List.map_map, List.map_congr_left hfront]
  congr 1
  exact List.map_congr_left fun i _ => block_append_right l' h i

theorem blocks_one (h : l.length = n) : blocks n l 1 = [l] := by
  rw [blocks, List.range_one, List.map_singleton, block, Nat.mul_zero, List.drop_zero,
    List.take_of_length_le (Nat.le_of_eq h)]

theorem feed_blocks (hn : 0 < n) (h : n ∣ l.length) :
    feed n f (s, []) l = (foldBlocks n f s l, []) := by
  obtain ⟨q, hq⟩ := h
  rw [foldBlocks, hq, Nat.mul_div_cancel_left q hn]
  induction q generalizing l with
  | zero =>
    obtain rfl : l = [] := List.length_eq_zero_iff.mp (by omega)
    rfl
  | succ q ih =>
    rw [Nat.mul_succ] at hq
    have hfront : (l.take (n * q)).length = n * q := by rw [List.length_take]; omega
    have hback : (l.drop (n * q)).length = n := by rw [List.length_drop]; omega
    have hlast : block n l q = l.drop (n * q) := List.take_of_length_le (by omega)
    have hblocks : (List.range q).foldl (fun s i => f s (block n (l.take (n * q)) i)) s =
        (List.range q).foldl (fun s i => f s (block n l i)) s := by
      apply List.foldl_ext
      intro s i hi
      have hi := Nat.mul_le_mul_left n (Nat.succ_le_of_lt (List.mem_range.mp hi))
      rw [← List.take_append_drop (n * q) l, block_append_left _ (by rw [hfront]; exact hi),
        List.take_append_drop]
    calc
      feed n f (s, []) l
      _ = feed n f (feed n f (s, []) (l.take (n * q))) (l.drop (n * q)) := by
        rw [← feed_append, List.take_append_drop]
      _ = (f ((List.range q).foldl (fun s i => f s (block n l i)) s) (block n l q), []) := by
        rw [ih hfront, hblocks, hlast, feed_fill (by rw [← List.length_pos_iff]; omega)
          (by simpa using hback), List.nil_append]
      _ = _ := by rw [List.range_succ, List.foldl_append, List.foldl_cons, List.foldl_nil]

end ChatServer.Lib.Blocks
