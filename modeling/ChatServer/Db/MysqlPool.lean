import Mathlib.Algebra.Order.Ring.Int
import Mathlib.Data.Finset.Card
import Mathlib.Data.Fintype.Basic
import Mathlib.Data.List.Nodup
import ChatServer.Lib.Machine

namespace ChatServer.mysql

open Lib

/-- The answers of the client library in one call of `release`: to the ping, and to the
attempt to connect anew. -/
structure Link where
  ping : Bool
  made : Option Nat

structure MysqlPool where
  idle : List Nat
  outstanding : Nat
  stopping : Bool

structure Lease where
  pool : Bool
  conn : Option Nat
  deriving DecidableEq

def Lease.empty : Lease := ⟨false, none⟩

namespace MysqlPool

def fill (made : Nat → Option Nat) : Nat → List Nat → Bool × List Nat
  | 0, idle => (true, idle)
  | k + 1, idle =>
    match made idle.length with
    | none => (false, idle)
    | some c => fill made k (idle ++ [c])

def init (poolSize : UInt32) (library : Bool) (made : Nat → Option Nat) : Bool × MysqlPool :=
  if library then ((fill made poolSize.toNat []).1, ⟨(fill made poolSize.toNat []).2, 0, false⟩)
  else (false, ⟨[], 0, false⟩)

def acquire (p : MysqlPool) : Option (Lease × MysqlPool) :=
  if p.stopping then some (.empty, p)
  else
    match p.idle with
    | [] => none
    | c :: rest =>
        some (⟨true, some c⟩, { p with idle := rest, outstanding := (p.outstanding + 1) % 2 ^ 64 })

def release (p : MysqlPool) (c : Option Nat) (link : Link) : Bool × MysqlPool :=
  let q := { p with outstanding := (p.outstanding + (2 ^ 64 - 1)) % 2 ^ 64 }
  match c with
  | none => (false, q)
  | some c =>
    if p.stopping then (false, q)
    else if link.ping then (true, { q with idle := p.idle ++ [c] })
    else
      match link.made with
      | none => (false, q)
      | some c' => (true, { q with idle := p.idle ++ [c'] })

end MysqlPool

/-- A thread outside `acquire` or about to test the predicate of its wait, and a thread in
the wait set; `woken` when it has been notified. -/
inductive Waiter : Type
  | out : Waiter
  | asleep : Waiter
  | woken : Waiter
  deriving DecidableEq

/-- The pool with the threads and the lease objects that use it.  An object that does not
exist is like one without a connection. -/
structure Shared (a k : Nat) where
  pool : MysqlPool
  waiters : Fin a → Waiter
  leases : Fin k → Lease

namespace Shared

variable {a k : Nat}

def start (p : MysqlPool) : Shared a k := ⟨p, fun _ => .out, fun _ => .empty⟩

def setLease (s : Shared a k) (l : Fin k) (x : Lease) : Shared a k :=
  { s with leases := Function.update s.leases l x }

def notify (waiters : Fin a → Waiter) : Option (Fin a) → Fin a → Waiter
  | some t => Function.update waiters t .woken
  | none => waiters

def canNotify (waiters : Fin a → Waiter) : Option (Fin a) → Bool
  | some t => waiters t = .asleep
  | none => ∀ t, waiters t ≠ .asleep

def unused (s : Shared a k) (l : Fin k) : Option Nat → Bool
  | none => true
  | some c => c ∉ s.pool.idle ∧ ∀ l', l' ≠ l → (s.leases l').conn ≠ some c

def release (s : Shared a k) (l : Fin k) (link : Link) (woken : Option (Fin a)) : Shared a k :=
  if (s.leases l).pool ∧ (s.leases l).conn.isSome then
    let (notifies, p) := s.pool.release (s.leases l).conn link
    { s with pool := p, waiters := if notifies then notify s.waiters woken else s.waiters }.setLease
      l .empty
  else s

def canRelease (s : Shared a k) (l : Fin k) (link : Link) (woken : Option (Fin a)) : Bool :=
  s.unused l link.made ∧ canNotify s.waiters woken

def moveTo (s : Shared a k) (l r : Fin k) : Shared a k :=
  (s.setLease r (s.leases l)).setLease l .empty

inductive Move (a k : Nat) : Type
  | wait : Fin a → Move a k
  | acquire : Fin a → Fin k → Move a k
  | moveTo : Fin k → Fin k → Move a k
  | assign : Fin k → Fin k → Link → Option (Fin a) → Move a k
  | destroy : Fin k → Link → Option (Fin a) → Move a k

def can (s : Shared a k) : Move a k → Bool
  | .wait t => s.waiters t ≠ .asleep ∧ s.pool.acquire.isNone
  | .acquire t l => s.waiters t ≠ .asleep ∧ s.leases l = .empty ∧ s.pool.acquire.isSome
  | .moveTo l r => l ≠ r ∧ s.leases r = .empty
  | .assign l r link woken => l = r ∨ s.canRelease r link woken
  | .destroy l link woken => s.canRelease l link woken

def next (s : Shared a k) : Move a k → Shared a k
  | .wait t => { s with waiters := Function.update s.waiters t .asleep }
  | .acquire t l =>
    match s.pool.acquire with
    | some (lease, p) =>
        { s with pool := p, waiters := Function.update s.waiters t .out }.setLease l lease
    | none => s
  | .moveTo l r => s.moveTo l r
  | .assign l r link woken => if l = r then s else (s.release r link woken).moveTo l r
  | .destroy l link woken => s.release l link woken

def machine (a k : Nat) : Machine (Shared a k) (Move a k) := ⟨can, next⟩

end Shared

section Conserved

variable {a k n : Nat}

def held (leases : Fin k → Lease) : Finset (Fin k) := {l | (leases l).conn.isSome}

def roused (waiters : Fin a → Waiter) : Finset (Fin a) := {t | waiters t = .woken}

/-- Every connection of the pool is idle or held by one lease. -/
structure Conserved (n : Nat) (p : MysqlPool) (leases : Fin k → Lease) : Prop where
  small : n < 2 ^ 32
  running : p.stopping = false
  paired : ∀ l, (leases l).pool = (leases l).conn.isSome
  count : p.outstanding = (held leases).card
  total : p.idle.length + p.outstanding = n
  distinct : p.idle.Nodup
  apart : ∀ c ∈ p.idle, ∀ l, (leases l).conn ≠ some c
  single : ∀ l l' c, (leases l).conn = some c → (leases l').conn = some c → l = l'

/-- While threads sleep in `acquire`, each idle connection has a notified thread on its way
to it. -/
def Eager (p : MysqlPool) (waiters : Fin a → Waiter) : Prop :=
  ∀ t, waiters t = .asleep → p.idle.length ≤ (roused waiters).card

theorem held_update (leases : Fin k → Lease) (l : Fin k) (x : Lease) :
    held (Function.update leases l x) = if x.conn.isSome then insert l (held leases)
      else (held leases).erase l := by
  ext l'
  by_cases h : l' = l <;> by_cases hx : x.conn.isSome <;> simp [held, h, hx]

theorem roused_update (waiters : Fin a → Waiter) (t : Fin a) (x : Waiter) :
    roused (Function.update waiters t x) = if x = .woken then insert t (roused waiters)
      else (roused waiters).erase t := by
  ext t'
  by_cases h : t' = t <;> by_cases hx : x = .woken <;> simp [roused, h, hx]

theorem MysqlPool.acquire_eq_some {p : MysqlPool} (hrun : p.stopping = false) {x : Lease}
    {q : MysqlPool} (h : p.acquire = some (x, q)) :
    ∃ c rest, p.idle = c :: rest ∧ x = ⟨true, some c⟩ ∧
      q = { p with idle := rest, outstanding := (p.outstanding + 1) % 2 ^ 64 } := by
  rw [acquire, if_neg (by simp [hrun])] at h
  cases hidle : p.idle with
  | nil => simp [hidle] at h
  | cons c rest =>
    simp only [hidle, Option.some.injEq, Prod.mk.injEq] at h
    exact ⟨c, rest, rfl, h.1.symm, h.2.symm⟩

theorem MysqlPool.acquire_isSome {p : MysqlPool} (hrun : p.stopping = false) :
    p.acquire.isSome ↔ p.idle ≠ [] := by
  rw [acquire, if_neg (by simp [hrun])]
  cases p.idle <;> simp

theorem MysqlPool.release_eq {p : MysqlPool} (hrun : p.stopping = false) (c : Nat) {link : Link}
    (hlink : link.ping ∨ link.made.isSome) :
    ∃ c', (c' = c ∨ link.made = some c') ∧ p.release (some c) link =
      (true, { p with
        idle := p.idle ++ [c'], outstanding := (p.outstanding + (2 ^ 64 - 1)) % 2 ^ 64 }) := by
  cases hping : link.ping with
  | true => exact ⟨c, .inl rfl, by simp [release, hrun, hping]⟩
  | false =>
    obtain ⟨c', hc'⟩ := Option.isSome_iff_exists.mp (hlink.resolve_left (by simp [hping]))
    exact ⟨c', .inr hc', by simp [release, hrun, hping, hc']⟩

theorem MysqlPool.fill_true {made : Nat → Option Nat} {k : Nat} {idle rest : List Nat}
    (hidle : idle.map some = (List.range idle.length).map made)
    (h : fill made k idle = (true, rest)) :
    rest.length = idle.length + k ∧ rest.map some = (List.range rest.length).map made := by
  induction k generalizing idle with
  | zero =>
    simp only [fill, Prod.mk.injEq, true_and] at h
    exact ⟨by rw [h]; rfl, h ▸ hidle⟩
  | succ k ih =>
    rw [fill] at h
    cases hc : made idle.length with
    | none => simp [hc] at h
    | some c =>
      rw [hc] at h
      have hnext : (idle ++ [c]).map some = (List.range (idle ++ [c]).length).map made := by
        simp [List.range_succ, hidle, hc]
      obtain ⟨hlen, hmap⟩ := ih hnext h
      exact ⟨by rw [hlen, List.length_append, List.length_singleton]; omega, hmap⟩

namespace Conserved

variable {p q : MysqlPool} {leases : Fin k → Lease}

theorem start {poolSize : UInt32} {library : Bool} {made : Nat → Option Nat}
    (hmade : ∀ i j c, made i = some c → made j = some c → i = j)
    (h : MysqlPool.init poolSize library made = (true, p)) :
    Conserved poolSize.toNat p fun _ : Fin k => .empty := by
  cases hlib : library with
  | false => simp [MysqlPool.init, hlib] at h
  | true =>
    simp only [MysqlPool.init, hlib, if_true, Prod.mk.injEq] at h
    obtain ⟨hlen, hmap⟩ :=
      MysqlPool.fill_true rfl (Prod.ext h.1 rfl : MysqlPool.fill made poolSize.toNat [] = (true, _))
    have hnodup : (MysqlPool.fill made poolSize.toNat []).2.Nodup := by
      refine .of_map some (hmap ▸ List.nodup_range.map_on fun i hi j hj hij => ?_)
      obtain ⟨c, -, hc⟩ := List.mem_map.mp (hmap ▸ List.mem_map_of_mem hi)
      exact hmade i j c hc.symm (hij ▸ hc.symm)
    rw [← h.2]
    exact ⟨poolSize.toNat_lt, rfl, fun _ => rfl, by simp [held, Lease.empty], by simpa using hlen,
      hnodup, fun c _ l => by simp [Lease.empty], fun l l' c hl => by simp [Lease.empty] at hl⟩

theorem eq_empty (h : Conserved n p leases) {l : Fin k} (hl : (leases l).conn = none) :
    leases l = .empty := by
  have hpool := h.paired l
  rw [hl] at hpool
  cases hlease : leases l
  simp_all [Lease.empty]

theorem acquire (h : Conserved n p leases) {l : Fin k} (hl : leases l = .empty) {x : Lease}
    (hacq : p.acquire = some (x, q)) : Conserved n q (Function.update leases l x) := by
  obtain ⟨c, rest, hidle, rfl, rfl⟩ := MysqlPool.acquire_eq_some h.running hacq
  obtain ⟨hsmall, hrun, hpaired, hcount, htotal, hnodup, hapart, hsingle⟩ := h
  have hcard : (insert l (held leases)).card = (held leases).card + 1 :=
    Finset.card_insert_of_notMem (by simp [held, hl, Lease.empty])
  simp only [hidle, List.nodup_cons, List.mem_cons, List.length_cons] at hnodup hapart htotal
  refine ⟨hsmall, hrun, ?_, ?_, ?_, hnodup.2, ?_, ?_⟩
  · simp only [Function.update_apply]
    grind
  · simp only [held_update, Option.isSome_some, if_true]
    omega
  · show rest.length + (p.outstanding + 1) % 2 ^ 64 = n
    omega
  · simp only [Function.update_apply]
    grind
  · simp only [Function.update_apply]
    grind

theorem moveTo (h : Conserved n p leases) {l r : Fin k} (hr : leases r = .empty) :
    Conserved n p (Function.update (Function.update leases r (leases l)) l .empty) := by
  obtain ⟨hsmall, hrun, hpaired, hcount, htotal, hnodup, hapart, hsingle⟩ := h
  refine ⟨hsmall, hrun, ?_, ?_, htotal, hnodup, ?_, ?_⟩
  · simp only [Function.update_apply]
    grind [Lease.empty]
  · have hnotin : r ∉ held leases := by simp [held, hr, Lease.empty]
    rw [hcount, held_update, held_update, if_neg (by simp [Lease.empty])]
    split_ifs with hl
    · have hmem : l ∈ insert r (held leases) := by simp [held, hl]
      rw [Finset.card_erase_of_mem hmem, Finset.card_insert_of_notMem hnotin]
      rfl
    · rw [Finset.erase_eq_of_notMem hnotin, Finset.erase_eq_of_notMem (by simpa [held] using hl)]
  · simp only [Function.update_apply]
    grind [Lease.empty]
  · simp only [Function.update_apply]
    grind [Lease.empty]

theorem release (h : Conserved n p leases) {l : Fin k} {c : Nat} (hl : (leases l).conn = some c)
    {link : Link} (hlink : link.ping ∨ link.made.isSome)
    (hfresh : ∀ c', link.made = some c' → c' ∉ p.idle ∧ ∀ l', l' ≠ l → (leases l').conn ≠ some c') :
    Conserved n (p.release (some c) link).2 (Function.update leases l .empty) := by
  obtain ⟨c', hc', hrel⟩ := MysqlPool.release_eq h.running c hlink
  obtain ⟨hsmall, hrun, hpaired, hcount, htotal, hnodup, hapart, hsingle⟩ := h
  rw [hrel]
  have hmem : l ∈ held leases := by simp [held, hl]
  have hcard : ((held leases).erase l).card + 1 = (held leases).card :=
    Finset.card_erase_add_one hmem
  have hnew : c' ∉ p.idle ∧ ∀ l', l' ≠ l → (leases l').conn ≠ some c' := by
    rcases hc' with rfl | hmade
    · exact ⟨fun hc => hapart _ hc l hl, fun l' hne hl' => hne (hsingle l' l _ hl' hl)⟩
    · exact hfresh c' hmade
  refine ⟨hsmall, hrun, ?_, ?_, ?_, ?_, ?_, ?_⟩
  · simp only [Function.update_apply]
    grind [Lease.empty]
  · rw [held_update, if_neg (by simp [Lease.empty])]
    show (p.outstanding + (2 ^ 64 - 1)) % 2 ^ 64 = _
    omega
  · show (p.idle ++ [c']).length + (p.outstanding + (2 ^ 64 - 1)) % 2 ^ 64 = n
    rw [List.length_append, List.length_singleton]
    omega
  · exact List.nodup_append.mpr ⟨hnodup, List.nodup_singleton c', by grind⟩
  · simp only [Function.update_apply]
    grind [Lease.empty]
  · simp only [Function.update_apply]
    grind [Lease.empty]

end Conserved

namespace Eager

variable {p q : MysqlPool} {waiters : Fin a → Waiter}

theorem acquire (hrun : p.stopping = false) (h : Eager p waiters) {t : Fin a} {x : Lease}
    (hacq : p.acquire = some (x, q)) : Eager q (Function.update waiters t .out) := by
  obtain ⟨c, rest, hidle, rfl, rfl⟩ := MysqlPool.acquire_eq_some hrun hacq
  intro t' ht'
  have hold : waiters t' = .asleep := by
    simp only [Function.update_apply] at ht'
    grind
  have hle := h t' hold
  rw [hidle, List.length_cons] at hle
  rw [roused_update, if_neg (by simp)]
  show rest.length ≤ _
  have hcard := Finset.pred_card_le_card_erase (s := roused waiters) (a := t)
  omega

theorem notify (h : Eager p waiters) {woken : Option (Fin a)}
    (hcan : Shared.canNotify waiters woken)
    (hlen : q.idle.length = p.idle.length + 1) : Eager q (Shared.notify waiters woken) := by
  intro t' ht'
  cases woken with
  | none => exact absurd ht' (of_decide_eq_true hcan t')
  | some t =>
    have ht : waiters t = .asleep := of_decide_eq_true hcan
    have hle := h t ht
    rw [Shared.notify, roused_update, if_pos rfl,
      Finset.card_insert_of_notMem (by simp [roused, ht])]
    omega

end Eager

end Conserved

namespace Shared

variable {a k n : Nat} {s : Shared a k}

def recovers (s : Shared a k) : Move a k → Bool
  | .assign l r link _ => l ≠ r ∧ (s.leases r).conn.isSome → link.ping ∨ link.made.isSome
  | .destroy l link _ => (s.leases l).conn.isSome → link.ping ∨ link.made.isSome
  | _ => true

def Full (n : Nat) (s : Shared a k) : Prop := Conserved n s.pool s.leases ∧ Eager s.pool s.waiters

theorem Full.release (h : Full n s) {l : Fin k} {link : Link} {woken : Option (Fin a)}
    (hcan : s.canRelease l link woken) (hlink : (s.leases l).conn.isSome → link.ping ∨
      link.made.isSome) :
    Full n (s.release l link woken) ∧ (s.release l link woken).leases l = .empty := by
  obtain ⟨hcons, heager⟩ := h
  obtain ⟨hunused, hnotify⟩ := of_decide_eq_true hcan
  cases hl : (s.leases l).conn with
  | none =>
    have hsame : s.release l link woken = s := by simp [Shared.release, hl]
    rw [hsame]
    exact ⟨⟨hcons, heager⟩, hcons.eq_empty hl⟩
  | some c =>
    have hpool : (s.leases l).pool = true := by rw [hcons.paired, hl]; rfl
    have hlink := hlink (by rw [hl]; rfl)
    obtain ⟨c', -, hrel⟩ := MysqlPool.release_eq hcons.running c hlink
    have hcons' := hcons.release hl hlink fun c' hc' => by simpa [unused, hc'] using hunused
    rw [hrel] at hcons'
    simp only [Shared.release, hl, hpool, hrel, Option.isSome_some, and_self, if_true]
    exact ⟨⟨hcons', heager.notify hnotify (by simp [setLease])⟩, by simp [setLease]⟩

theorem Full.next (h : Full n s) {m : Move a k} (hcan : s.can m) (hok : s.recovers m) :
    Full n (s.next m) := by
  cases m with
  | wait t =>
    obtain ⟨hawake, hnone⟩ := of_decide_eq_true hcan
    have hidle : s.pool.idle = [] := by
      by_contra hne
      have hsome := (MysqlPool.acquire_isSome h.1.running).mpr hne
      simp_all
    exact ⟨h.1, fun t' _ => by simp [Shared.next, hidle]⟩
  | acquire t l =>
    obtain ⟨hawake, hl, hsome⟩ := of_decide_eq_true hcan
    obtain ⟨⟨x, q⟩, hacq⟩ := Option.isSome_iff_exists.mp hsome
    simp only [Shared.next, hacq]
    exact ⟨h.1.acquire hl hacq, h.2.acquire h.1.running hacq⟩
  | moveTo l r =>
    obtain ⟨-, hr⟩ := of_decide_eq_true hcan
    exact ⟨h.1.moveTo hr, h.2⟩
  | assign l r link woken =>
    have hcan := of_decide_eq_true hcan
    have hok := of_decide_eq_true hok
    rw [Shared.next]
    split_ifs with hlr
    · exact h
    · obtain ⟨hfull, hr⟩ := h.release (hcan.resolve_left hlr) fun hr => hok ⟨hlr, hr⟩
      exact ⟨hfull.1.moveTo hr, hfull.2⟩
  | destroy l link woken => exact (h.release hcan (of_decide_eq_true hok)).1

/-- With a new connection for every one that is lost, the pool keeps its size, and no lease
holds an idle connection.  When all leases are back, a thread that tests the predicate of
its wait acquires a connection, and there is such a thread if others sleep. -/
theorem pool_conserved {poolSize : UInt32} {library : Bool} {made : Nat → Option Nat}
    {p : MysqlPool} (hmade : ∀ i j c, made i = some c → made j = some c → i = j)
    (hinit : MysqlPool.init poolSize library made = (true, p))
    (h : (machine a k).Reach (fun s m => s.recovers m) (start p) s) :
    s.pool.idle.length + s.pool.outstanding = poolSize.toNat ∧
      (∀ c ∈ s.pool.idle, ∀ l, (s.leases l).conn ≠ some c) ∧
      (0 < poolSize.toNat → (∀ l, (s.leases l).conn = none) →
        (∀ t l, s.waiters t ≠ .asleep → s.can (.acquire t l)) ∧
        ∀ t, s.waiters t = .asleep → ∃ t', s.waiters t' = .woken) := by
  obtain ⟨hcons, heager⟩ : Full poolSize.toNat s :=
    h.invariant (Full poolSize.toNat) ⟨.start hmade hinit, fun t ht => by simp [start] at ht⟩
      fun _ _ hs hm hok => hs.next hm hok
  refine ⟨hcons.total, hcons.apart, fun hpos hback => ?_⟩
  have hzero : s.pool.outstanding = 0 := by simp [hcons.count, held, hback]
  have hlen : 0 < s.pool.idle.length := by
    have := hcons.total
    omega
  refine ⟨fun t l ht => decide_eq_true ⟨ht, hcons.eq_empty (hback l), ?_⟩, fun t ht => ?_⟩
  · exact (MysqlPool.acquire_isSome hcons.running).mpr (List.ne_nil_of_length_pos hlen)
  · obtain ⟨t', ht'⟩ := Finset.card_pos.mp (hlen.trans_le (heager t ht))
    exact ⟨t', by simpa [roused] using ht'⟩

def onePool : MysqlPool := (MysqlPool.init 1 true some).2

def handOver (t t' : Fin a) (l l' : Fin k) : List (Move a k) :=
  [.acquire t l, .wait t', .moveTo l l', .destroy l ⟨true, none⟩ (some t'),
    .assign l l' ⟨false, some 7⟩ (some t')]

theorem pool_conserved_handOver :
    ((machine 2 2).Runs (fun s m => s.recovers m) (start onePool) (handOver 0 1 0 1)) ∧
      ((machine 2 2).run (start onePool) (handOver 0 1 0 1)).waiters 1 = .woken ∧
      ((machine 2 2).run (start onePool) (handOver 0 1 0 1)).can (.acquire 1 0) := by
  have hruns : (machine 2 2).Runs (fun s m => s.recovers m) (start onePool) (handOver 0 1 0 1) := by
    decide
  have hback : ∀ l, (((machine 2 2).run (start onePool) (handOver 0 1 0 1)).leases l).conn =
    none := by decide
  have hinit : MysqlPool.init 1 true some = (true, onePool) := rfl
  obtain ⟨-, -, hfree⟩ :=
    pool_conserved (fun i j c hi hj => Option.some.inj (hi.trans hj.symm)) hinit
    (.runs .start hruns)
  have hwoken : ((machine 2 2).run (start onePool) (handOver 0 1 0 1)).waiters 1 = .woken := by
    decide
  exact ⟨hruns, hwoken, (hfree (by decide) hback).1 1 0 (by rw [hwoken]; decide)⟩

/-- When the database does not answer, the connection of the pool is gone with its lease,
and `acquire` waits with nothing left to come back. -/
theorem connection_lost :
    ∃ ms : List (Move 1 1), (machine 1 1).Runs (fun _ _ => True) (start onePool) ms ∧
      let s := (machine 1 1).run (start onePool) ms
      (∀ l, (s.leases l).conn = none) ∧ s.pool.idle.length + s.pool.outstanding ≠ 1 ∧
        s.pool.acquire.isNone :=
  ⟨[.acquire 0 0, .destroy 0 ⟨false, none⟩ none], by decide, by decide⟩

end Shared

end ChatServer.mysql
