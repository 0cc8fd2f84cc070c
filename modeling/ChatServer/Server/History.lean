import Mathlib.Data.List.Sort
import ChatServer.Server.Tickets

namespace ChatServer

open Lib

inductive Thread : Type
  | dm : Nat → Nat → Thread
  | room : Nat → Thread

namespace Thread

def has : Thread → Message → Bool
  | dm a b, m => (m.senderId = a ∧ m.receiverId = some b) ∨ (m.senderId = b ∧ m.receiverId = some a)
  | room r, m => m.roomId = some r

def below (t : Thread) (before : Nat) (m : Message) : Bool :=
  t.has m && (before = 0 || m.id < before)

end Thread

namespace Store

def history (s : Store) : Thread → Nat → Nat → List Message
  | .dm a b => s.historyDm a b
  | .room r => s.historyRoom r

theorem scan_eq (t : Thread) (before lim : Nat) (out ms : List Message) :
    scan t.has before lim out ms = out ++ (ms.filter (t.below before)).take (lim - out.length) := by
  induction ms generalizing out with
  | nil => simp [scan]
  | cons m ms ih =>
    rw [scan]
    split
    · rename_i hfull
      rw [Nat.sub_eq_zero_of_le hfull, List.take_zero, List.append_nil]
    · rename_i hroom
      split
      · rename_i habove
        have hskip : t.below before m = false := by simp [Thread.below]; omega
        rw [ih, List.filter_cons_of_neg (by simp [hskip])]
      · rename_i hbelow
        split
        · rename_i hhas
          have hkeep : t.below before m = true := by simp [Thread.below, hhas]; omega
          obtain ⟨k, hk⟩ : ∃ k, lim - out.length = k + 1 := ⟨lim - out.length - 1, by omega⟩
          have hk' : lim - (out ++ [m]).length = k := by simp; omega
          rw [ih, List.filter_cons_of_pos hkeep, hk, hk', List.take_succ_cons, List.append_assoc,
            List.singleton_append]
        · rename_i hhas
          have hskip : t.below before m = false := by simp [Thread.below, hhas]
          rw [ih, List.filter_cons_of_neg (by simp [hskip])]

theorem history_eq (s : Store) (t : Thread) (before lim : Nat) :
    s.history t before lim = ((s.messages.filter (t.below before)).reverse.take lim).reverse := by
  have hscan (t : Thread) : (scan t.has before lim [] s.messages.reverse).reverse =
      ((s.messages.filter (t.below before)).reverse.take lim).reverse := by
    rw [scan_eq, List.nil_append, List.length_nil, Nat.sub_zero, List.filter_reverse]
  cases t with
  | dm a b => exact hscan (.dm a b)
  | room r => exact hscan (.room r)

inductive Reached : Store → Prop
  | empty : Reached .empty
  | call {w : World} (env : Env) (o : RepoOp) : Reached w.store → Reached (memory env o w).2.store

theorem Reached.sound {s : Store} (h : Reached s) : s.Sound := by
  induction h with
  | empty => exact sound_empty
  | call env o _ ih => exact memory_sound env o ih

end Store

theorem reached_of_reachable {env : Env} {ok : Sys → Move Input → Prop} {g : Sys}
    (h : Reachable env ok g) : g.hist.state.store.Reached := by
  induction h with
  | init => exact .empty
  | move _ _ hs ih =>
    obtain ⟨i, j, -, -, rfl⟩ | ⟨i, j, o, k, -, -, rfl⟩ := Config.step_cases hs
    · exact ih
    · show (memExec env o _).2.store.Reached
      cases o with
      | repo o => exact ih.call env o
      | _ =>
        rw [memExec_store env _ _ (by simp)]
        exact ih

namespace mysql

/-- The rows that meet the condition, newest first, at most `n`:
`SELECT … WHERE … ORDER BY id DESC LIMIT n`.  A table has no order of its own. -/
def selectNewest (rows : List Message) (p : Message → Bool) (n : Nat) : List Message :=
  ((rows.filter p).mergeSort fun m m' => m'.id ≤ m.id).take n

def historyDm (rows : List Message) (a b before lim : Nat) : List Message :=
  (selectNewest rows
    (fun m => ((m.senderId = a ∧ m.receiverId = some b) ∨
      (m.senderId = b ∧ m.receiverId = some a)) &&
      (before = 0 || m.id < before))
    (min lim 200)).reverse

def historyRoom (rows : List Message) (r before lim : Nat) : List Message :=
  (selectNewest rows (fun m => (m.roomId = some r) && (before = 0 || m.id < before))
    (min lim 200)).reverse

def history (rows : List Message) : Thread → Nat → Nat → List Message
  | .dm a b => historyDm rows a b
  | .room r => historyRoom rows r

theorem history_eq (rows : List Message) (t : Thread) (before lim : Nat) :
    history rows t before lim = (selectNewest rows (t.below before) (min lim 200)).reverse := by
  cases t <;> rfl

theorem selectNewest_eq {rows ms : List Message} (hrows : rows.Perm ms)
    (hms : (ms.map Message.id).Pairwise (· < ·)) (p : Message → Bool) (n : Nat) :
    selectNewest rows p n = (ms.filter p).reverse.take n := by
  rw [selectNewest]
  congr 1
  have hrising : ((ms.filter p).reverse).Pairwise fun m m' => m'.id < m.id := by
    rw [List.pairwise_reverse]
    exact (List.pairwise_map.mp hms).filter p
  have hsorted : ((rows.filter p).mergeSort fun m m' => m'.id ≤ m.id).Pairwise
      fun m m' => decide (m'.id ≤ m.id) = true := by
    apply List.pairwise_mergeSort
    · intro a b c hab hbc
      simp only [decide_eq_true_eq] at *
      omega
    · intro a b
      simp only [Bool.or_eq_true, decide_eq_true_eq]
      omega
  have hperm : ((rows.filter p).mergeSort fun m m' => m'.id ≤ m.id).Perm (ms.filter p).reverse :=
    (List.mergeSort_perm _ _).trans ((hrows.filter p).trans (List.reverse_perm _).symm)
  refine hperm.eq_of_pairwise ?_ hsorted (hrising.imp fun h => by simpa using h.le)
  -- two rows of one id are one row
  intro m m' hm hm' hle hle'
  have hid : m.id = m'.id := by
    simp only [decide_eq_true_eq] at hle hle'
    omega
  have hmem {m : Message} (h : m ∈ (ms.filter p).reverse) : m ∈ ms :=
    List.mem_of_mem_filter (List.mem_reverse.mp h)
  exact List.inj_on_of_nodup_map (hms.imp Nat.ne_of_lt) (hmem (hperm.mem_iff.mp hm)) (hmem hm') hid

end mysql

theorem histories_agree_iff {s : Store} (hs : s.Reached) {rows : List Message}
    (hrows : rows.Perm s.messages) (t : Thread) (before lim : Nat) :
    s.history t before lim = mysql.history rows t before lim ↔
      lim ≤ 200 ∨ (s.messages.filter (t.below before)).length ≤ 200 := by
  rw [Store.history_eq, mysql.history_eq, mysql.selectNewest_eq hrows hs.sound.ordered,
    List.reverse_inj, List.take_eq_take_iff, List.length_reverse]
  omega

section Sample

def flood : Nat → Store
  | 0 => .empty
  | n + 1 => ((flood n).insertDm 1 2 "hi" 0).2

theorem flood_reached (n : Nat) : (flood n).Reached := by
  induction n with
  | zero => exact .empty
  | succ n ih =>
    have hw : World.store { World.init with store := flood n } = flood n := rfl
    rw [← hw] at ih
    exact ih.call (sampleEnv []) (.insertDm 1 2 "hi" 0)

theorem flood_below (n : Nat) :
    ((flood n).messages.filter ((Thread.dm 1 2).below 0)).length = n := by
  induction n with
  | zero => rfl
  | succ n ih =>
    have hnew : (flood (n + 1)).messages = (flood n).messages ++
        [⟨(flood n).nextMsgId, 1, some 2, none, "hi", 0, 0⟩] := rfl
    rw [hnew, List.filter_append, List.length_append, ih]
    rfl

theorem histories_agree_flood :
    (flood 3).history (.dm 1 2) 0 1 = mysql.history (flood 3).messages (.dm 1 2) 0 1 ∧
      (flood 3).history (.dm 1 2) 0 300 = mysql.history (flood 3).messages (.dm 1 2) 0 300 := by
  refine ⟨(histories_agree_iff (flood_reached 3) (.refl _) _ _ _).mpr ?_,
    (histories_agree_iff (flood_reached 3) (.refl _) _ _ _).mpr ?_⟩
  · exact .inl (by decide)
  · exact .inr (by rw [flood_below]; decide)

theorem history_not_capped :
    (flood 201).Reached ∧ ((flood 201).historyDm 1 2 0 201).length = 201 ∧
      (mysql.historyDm (flood 201).messages 1 2 0 201).length = 200 := by
  -- Of 201 messages the in-memory backend returns all when asked to, the database 200.
  have hs := flood_reached 201
  refine ⟨hs, ?_, ?_⟩
  · show ((flood 201).history (.dm 1 2) 0 201).length = 201
    rw [Store.history_eq, List.length_reverse, List.length_take, List.length_reverse, flood_below]
    rfl
  · show (mysql.history (flood 201).messages (.dm 1 2) 0 201).length = 200
    rw [mysql.history_eq, mysql.selectNewest_eq (.refl _) hs.sound.ordered, List.length_reverse,
      List.length_take, List.length_reverse, flood_below]
    rfl

end Sample

inductive Store.Grows (s : Store) : Store → Prop
  | same : Grows s s
  | insertDm {s' : Store} (a b : Nat) (content : String) (ts : Int) :
    Grows s s' → Grows s (s'.insertDm a b content ts).2
  | insertRoomMsg {s' : Store} (a r : Nat) (content : String) (ts : Int) :
    Grows s s' → Grows s (s'.insertRoomMsg a r content ts).2

/-- A client that reads the thread page by page, newest first: the first call has no cursor,
every other one the lowest id of the page before, and an empty page ends it.  `stores i` is
the store at call `i`; without an end within the given number of calls there is no result. -/
def paginate (t : Thread) (lim : Nat) (stores : Nat → Store) :
    Nat → Nat → Nat → Option (List Message)
  | 0, _, _ => none
  | calls + 1, i, before =>
    let page := (stores i).history t before lim
    match (page.map Message.id).min? with
    | none => some []
    | some low => (paginate t lim stores calls (i + 1) low).map (· ++ page)

namespace Store

variable {s s' s'' : Store}

theorem Grows.trans (h : s.Grows s') (h' : s'.Grows s'') : s.Grows s'' := by
  induction h' with
  | same => exact h
  | insertDm a b content ts _ ih => exact ih.insertDm a b content ts
  | insertRoomMsg a r content ts _ ih => exact ih.insertRoomMsg a r content ts

theorem Grows.messages (h : s.Grows s') :
    s.nextMsgId ≤ s'.nextMsgId ∧ ∃ new, s'.messages = s.messages ++ new ∧
    ∀ m ∈ new, s.nextMsgId ≤ m.id := by
  have happend {s' : Store} {m : Message} (hm : m.id = s'.nextMsgId)
      (ih : s.nextMsgId ≤ s'.nextMsgId ∧ ∃ new, s'.messages = s.messages ++ new ∧
        ∀ m ∈ new, s.nextMsgId ≤ m.id) :
      s.nextMsgId ≤ s'.nextMsgId + 1 ∧
        ∃ new, s'.messages ++ [m] = s.messages ++ new ∧ ∀ m ∈ new, s.nextMsgId ≤ m.id := by
    obtain ⟨hle, new, hnew, hids⟩ := ih
    refine ⟨by omega, new ++ [m], by rw [hnew, List.append_assoc], ?_⟩
    intro m' hm'
    rcases List.mem_append.mp hm' with hm' | hm'
    · exact hids m' hm'
    · rw [List.mem_singleton.mp hm', hm]
      exact hle
  induction h with
  | same => exact ⟨le_refl _, [], (List.append_nil _).symm, fun _ h => absurd h List.not_mem_nil⟩
  | insertDm a b content ts _ ih => exact happend rfl ih
  | insertRoomMsg a r content ts _ ih => exact happend rfl ih

theorem Grows.filter_below (h : s.Grows s') (t : Thread) {before : Nat} (hpos : before ≠ 0)
    (hle : before ≤ s.nextMsgId) : s'.messages.filter (t.below before) = s.messages.filter
      (t.below before) := by
  obtain ⟨-, new, hnew, hids⟩ := h.messages
  have hnone : new.filter (t.below before) = [] := by
    rw [List.filter_eq_nil_iff]
    intro m hm
    have := hids m hm
    simp only [Thread.below, Bool.and_eq_true, Bool.or_eq_true, decide_eq_true_eq]
    omega
  rw [hnew, List.filter_append, hnone, List.append_nil]

end Store

section Rising

variable {α : Type} {f : α → Nat} {l : List α} {k : Nat}

theorem filter_lt_getElem (h : (l.map f).Pairwise (· < ·)) (hk : k < l.length) :
    l.filter (fun a => f a < f l[k]) = l.take k := by
  rw [List.pairwise_map, List.pairwise_iff_getElem] at h
  have htake : (l.take k).filter (fun a => f a < f l[k]) = l.take k := by
    rw [List.filter_eq_self]
    intro a ha
    obtain ⟨i, hi, rfl⟩ := List.mem_take_iff_getElem.mp ha
    simpa using h i k (by omega) hk (by omega)
  have hdrop : (l.drop k).filter (fun a => f a < f l[k]) = [] := by
    rw [List.filter_eq_nil_iff]
    intro a ha
    obtain ⟨i, hi, rfl⟩ := List.mem_drop_iff_getElem.mp ha
    rcases Nat.eq_zero_or_pos i with rfl | hpos
    · simp
    · simpa using (h k (k + i) hk (by omega) (by omega)).le
  calc
    l.filter (fun a => f a < f l[k])
    _ = (l.take k ++ l.drop k).filter (fun a => f a < f l[k]) := by
      simp only [List.take_append_drop]
    _ = l.take k := by rw [List.filter_append, htake, hdrop, List.append_nil]

theorem min_drop (h : (l.map f).Pairwise (· < ·)) (hk : k < l.length) :
    ((l.drop k).map f).min? = some (f l[k]) := by
  rw [List.min?_eq_some_iff]
  have hrest : ((l.drop k).map f).Pairwise (· < ·) := by
    rw [List.map_drop]
    exact h.sublist (List.drop_sublist k _)
  rw [List.drop_eq_getElem_cons hk, List.map_cons] at hrest ⊢
  refine ⟨List.mem_cons_self .., ?_⟩
  intro b hb
  rcases List.mem_cons.mp hb with rfl | hb
  · exact le_refl _
  · exact (List.rel_of_pairwise_cons hrest hb).le

end Rising

section Paging

variable {s : Store} {t : Thread} {before lim : Nat}

theorem history_eq_drop (s : Store) (t : Thread) (before lim : Nat) :
    s.history t before lim =
      (s.messages.filter (t.below before)).drop
        ((s.messages.filter (t.below before)).length - lim) := by
  rw [Store.history_eq, List.reverse_take, List.reverse_reverse, List.length_reverse]

theorem filter_below_lower {low : Nat} (hlow : low ≠ 0) (hle : before = 0 ∨ low ≤ before)
    (ms : List Message) :
    ms.filter (t.below low) = (ms.filter (t.below before)).filter (fun m => m.id < low) := by
  rw [List.filter_filter]
  apply List.filter_congr
  intro m _
  rw [Bool.eq_iff_iff]
  simp only [Thread.below, Bool.and_eq_true, Bool.or_eq_true, decide_eq_true_eq]
  grind

theorem paginate_eq {stores : Nat → Store} (hs : s.Sound) (hlim : 1 ≤ lim)
    (hgrow : ∀ i, s.Grows (stores i))
    (calls i : Nat) (hfirst : before = 0 → stores i = s) (hle : before ≤ s.nextMsgId)
    (hcalls : (s.messages.filter (t.below before)).length < calls) :
    paginate t lim stores calls i before = some (s.messages.filter (t.below before)) := by
  induction calls generalizing i before with
  | zero => omega
  | succ calls ih =>
    have hsame : (stores i).messages.filter (t.below before) = s.messages.filter
        (t.below before) := by
      by_cases hzero : before = 0
      · rw [hfirst hzero]
      · exact (hgrow i).filter_below t hzero hle
    have hrising : ((s.messages.filter (t.below before)).map Message.id).Pairwise (· < ·) :=
      hs.ordered.sublist (List.filter_sublist.map _)
    have hlower (low : Nat) (hpos : low ≠ 0) (hle : before = 0 ∨ low ≤ before) :=
      filter_below_lower (t := t) hpos hle s.messages
    have hbelow : ∀ m ∈ s.messages.filter (t.below before), (1 ≤ m.id ∧ m.id < s.nextMsgId) ∧
        (before = 0 ∨ m.id ≤ before) := by
      intro m hm
      obtain ⟨hm, hb⟩ := List.mem_filter.mp hm
      simp only [Thread.below, Bool.and_eq_true, Bool.or_eq_true, decide_eq_true_eq] at hb
      exact ⟨hs.bounded m hm, by omega⟩
    simp only [paginate, history_eq_drop, hsame]
    generalize hall : s.messages.filter (t.below before) = all at hcalls hrising hlower hbelow ⊢
    by_cases hempty : all = []
    · simp [hempty]
    · have hpos := List.length_pos_iff.mpr hempty
      have hk : all.length - lim < all.length := by omega
      obtain ⟨⟨hone, hnext⟩, hcursor⟩ := hbelow _ (List.getElem_mem hk)
      have hrest : s.messages.filter (t.below (all[all.length - lim]).id) =
          all.take (all.length - lim) := by
        rw [hlower _ (by omega) hcursor, filter_lt_getElem hrising hk]
      have hfewer : (all.take (all.length - lim)).length < calls := by
        rw [List.length_take]
        omega
      have hpages : paginate t lim stores calls (i + 1) (all[all.length - lim]).id =
          some (all.take (all.length - lim)) := by
        rw [← hrest] at hfewer ⊢
        exact ih (i + 1) (by omega) (by omega) hfewer
      rw [min_drop hrising hk]
      simp only [hpages, Option.map_some, List.take_append_drop]

theorem pagination_lossless {stores : Nat → Store} (hs : (stores 0).Reached)
    (hgrow : ∀ i, (stores i).Grows (stores (i + 1))) (t : Thread) {lim : Nat} (hlim : 1 ≤ lim) :
    (((stores 0).messages.filter t.has).map Message.id).Pairwise (· < ·) ∧
      ∀ calls, ((stores 0).messages.filter t.has).length < calls →
        paginate t lim stores calls 0 0 = some ((stores 0).messages.filter t.has) := by
  have hall : ∀ i, (stores 0).Grows (stores i) := by
    intro i
    induction i with
    | zero => exact .same
    | succ i ih => exact ih.trans (hgrow i)
  have hbelow : t.below 0 = t.has := by
    funext m
    simp [Thread.below]
  refine ⟨hs.sound.ordered.sublist (List.filter_sublist.map _), ?_⟩
  intro calls hcalls
  rw [← hbelow] at hcalls ⊢
  exact paginate_eq hs.sound hlim hall calls 0 (fun _ => rfl) (Nat.zero_le _) hcalls

theorem pagination_lossless_flood :
    paginate (.dm 1 2) 2 (fun i => flood (3 + i)) 4 0 0 =
      some ((flood 3).messages.filter (Thread.dm 1 2).has) := by
  have hgrow : ∀ i, (flood (3 + i)).Grows (flood (3 + (i + 1))) :=
    fun i => Store.Grows.same.insertDm 1 2 "hi" 0
  exact (pagination_lossless (flood_reached 3) hgrow (.dm 1 2) (by decide)).2 4 (by decide)

end Paging

end ChatServer
