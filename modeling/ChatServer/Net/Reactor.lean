import Mathlib.Data.Finset.Basic
import Mathlib.Data.List.Nodup
import ChatServer.Lib.Machine

namespace ChatServer.net

open Lib

inductive Flavour : Type
  | epoll : Flavour
  | select : Flavour
  deriving DecidableEq

inductive Event : Type
  | wake : Event
  | socket : Event
  deriving DecidableEq

inductive Wait : Type
  | ready : List Event → Wait
  | interrupted : Wait
  | failed : Wait
  deriving DecidableEq

def Wait.hasWake : Wait → Bool
  | .ready es => .wake ∈ es
  | .interrupted | .failed => false

/-- Where the thread in `run` is, with the events still to be handled in this round.
`woken` is before the first read of the wake-up, `draining` between two reads, and `swap`
before the swap of the batch; `unwound` is after an exception of a callback. -/
inductive Place (α : Type) : Type
  | test : Place α
  | wait : Place α
  | events : List Event → Place α
  | callback : List Event → Place α
  | woken : List Event → Place α
  | draining : List Event → Place α
  | swap : List Event → Place α
  | batch : List α → List Event → Place α
  | running : α → List α → List Event → Place α
  | returned : Place α
  | unwound : Place α
  deriving DecidableEq

def Place.taken {α : Type} : Place α → List α
  | .batch fns _ | .running _ fns _ => fns
  | _ => []

def Place.consumed {α : Type} : Place α → Bool
  | .draining _ | .swap _ => true
  | _ => false

def Place.ahead {α : Type} : Place α → Bool
  | .wait | .woken _ | .draining _ | .swap _ => true
  | .events es | .callback es | .batch _ es | .running _ _ es => .wake ∈ es
  | .test | .returned | .unwound => false

def Place.current {α : Type} : Place α → List α
  | .running f _ _ => [f]
  | _ => []

/-- The reactor, with the calls of `post` that have queued their closure and not yet
signalled, and the closures that were queued, started and finished so far.  The values of
`α` name the closures. -/
structure Reactor (α : Type) where
  pending : List α
  wake : Nat
  stopping : Bool
  place : Place α
  posting : Finset α
  stops : Nat
  queued : List α
  started : List α
  finished : List α

namespace Reactor

variable {α : Type}

def start : Reactor α := ⟨[], 0, false, .test, ∅, 0, [], [], []⟩

inductive Move (α : Type) : Type
  | queue : α → Move α
  | signal : α → Bool → Move α
  | stop : Move α
  | stopSignal : Bool → Move α
  | testFlag : Move α
  | wait : Wait → Move α
  | nextEvent : Move α
  | finishCallback : Bool → Move α
  | consume : Move α
  | swap : Move α
  | nextClosure : Move α
  | finishClosure : Bool → Move α

def kMaxEvents : Nat := 256

/-- What a wait may answer: it has the wake-up among its events if it is signalled, unless
`epoll_wait` is full of others; `select` has it first. -/
def answers (wake : Nat) : Flavour → Wait → Bool
  | _, .interrupted => true
  | _, .failed => true
  | .epoll, .ready es =>
    es.length ≤ kMaxEvents ∧ es.count .wake ≤ 1 ∧ (.wake ∈ es → 0 < wake) ∧
      (0 < wake → .wake ∈ es ∨ es.length = kMaxEvents)
  | .select, .ready es => .wake ∉ es.tail ∧ (.wake ∈ es ↔ 0 < wake)

def canSignal (s : Reactor α) (written : Bool) : Bool := written || 0 < s.wake

def can [DecidableEq α] (flavour : Flavour) (s : Reactor α) : Move α → Bool
  | .queue f => f ∉ s.queued
  | .signal f written => f ∈ s.posting && s.canSignal written
  | .stop => true
  | .stopSignal written => 0 < s.stops && s.canSignal written
  | .testFlag => s.place = .test
  | .wait o => s.place = .wait && answers s.wake flavour o
  | .nextEvent => match s.place with | .events _ => true | _ => false
  | .finishCallback _ => match s.place with | .callback _ => true | _ => false
  | .consume => match s.place with | .woken _ | .draining _ => true | _ => false
  | .swap => match s.place with | .swap _ => true | _ => false
  | .nextClosure => match s.place with | .batch _ _ => true | _ => false
  | .finishClosure _ => match s.place with | .running _ _ _ => true | _ => false

def consume (s : Reactor α) (rest : List Event) : Flavour → Reactor α
  | .epoll => { s with wake := 0, place := .swap rest }
  | .select =>
    if s.wake = 0 then { s with place := .swap rest }
    else { s with wake := s.wake - 64, place := .draining rest }

def next [DecidableEq α] (flavour : Flavour) (s : Reactor α) : Move α → Reactor α
  | .queue f =>
      { s with
        pending := s.pending ++ [f], posting := insert f s.posting, queued := s.queued ++ [f] }
  | .signal f written => { s with wake := s.wake + written.toNat, posting := s.posting.erase f }
  | .stop => { s with stopping := true, stops := s.stops + 1 }
  | .stopSignal written => { s with wake := s.wake + written.toNat, stops := s.stops - 1 }
  | .testFlag => { s with place := if s.stopping then .returned else .wait }
  | .wait (.ready es) => { s with place := .events es }
  | .wait .interrupted => { s with place := .test }
  | .wait .failed => { s with place := .returned }
  | .nextEvent =>
    match s.place with
    | .events [] => { s with place := .test }
    | .events (.wake :: rest) => { s with place := .woken rest }
    | .events (.socket :: rest) => { s with place := .callback rest }
    | _ => s
  | .finishCallback throws =>
    match s.place with
    | .callback rest => { s with place := if throws then .unwound else .events rest }
    | _ => s
  | .consume =>
    match s.place with
    | .woken rest | .draining rest => s.consume rest flavour
    | _ => s
  | .swap =>
    match s.place with
    | .swap rest => { s with pending := [], place := .batch s.pending rest }
    | _ => s
  | .nextClosure =>
    match s.place with
    | .batch [] rest => { s with place := .events rest }
    | .batch (f :: fns) rest => { s with place := .running f fns rest, started := s.started ++ [f] }
    | _ => s
  | .finishClosure _ =>
    match s.place with
    | .running f fns rest => { s with place := .batch fns rest, finished := s.finished ++ [f] }
    | _ => s

def machine (α : Type) [DecidableEq α] (flavour : Flavour) : Machine (Reactor α) (Move α) :=
  ⟨can flavour, next flavour⟩

inductive Turn : Place α → Place α → Prop
  | stop : Turn .test .returned
  | go : Turn .test .wait
  | ready (es : List Event) : Turn .wait (.events es)
  | interrupted : Turn .wait .test
  | failed : Turn .wait .returned
  | round : Turn (.events []) .test
  | wake (rest : List Event) : Turn (.events (.wake :: rest)) (.woken rest)
  | socket (rest : List Event) : Turn (.events (.socket :: rest)) (.callback rest)
  | back (rest : List Event) : Turn (.callback rest) (.events rest)
  | throw (rest : List Event) : Turn (.callback rest) .unwound
  | read {p : Place α} (rest : List Event) : p = .woken rest ∨ p = .draining rest →
      Turn p (.draining rest)
  | drained {p : Place α} (rest : List Event) : p = .woken rest ∨ p = .draining rest →
      Turn p (.swap rest)
  | emptied (rest : List Event) : Turn (.batch [] rest) (.events rest)

inductive Looped (s : Reactor α) : Reactor α → Prop
  | turn {p : Place α} {wake : Nat} : Turn s.place p → wake = s.wake ∨ p.consumed →
      Looped s { s with wake := wake, place := p }
  | swap {rest : List Event} : s.place = .swap rest →
      Looped s { s with pending := [], place := .batch s.pending rest }
  | start {f : α} {fns : List α} {rest : List Event} : s.place = .batch (f :: fns) rest →
      Looped s { s with place := .running f fns rest, started := s.started ++ [f] }
  | finish {f : α} {fns : List α} {rest : List Event} : s.place = .running f fns rest →
      Looped s { s with place := .batch fns rest, finished := s.finished ++ [f] }

def Move.ofLoop : Move α → Bool
  | .queue _ | .signal _ _ | .stop | .stopSignal _ => false
  | _ => true

theorem looped_consume {s : Reactor α} {rest : List Event} (hplace : s.place = .woken rest ∨
      s.place = .draining rest)
    (flavour : Flavour) : Looped s (s.consume rest flavour) := by
  cases flavour with
  | epoll => exact .turn (.drained rest hplace) (.inr rfl)
  | select =>
    rw [consume]
    split
    · exact .turn (.drained rest hplace) (.inr rfl)
    · exact .turn (.read rest hplace) (.inr rfl)

theorem looped_next [DecidableEq α] {flavour : Flavour} {s : Reactor α} {m : Move α}
    (hloop : m.ofLoop) (hm : s.can flavour m) : Looped s (s.next flavour m) := by
  have hturn {p p' : Place α} (hplace : s.place = p) (h : Turn p p') :
      Looped s { s with place := p' } :=
    .turn (hplace ▸ h) (.inl rfl)
  cases m with
  | queue f => cases hloop
  | signal f written => cases hloop
  | stop => cases hloop
  | stopSignal written => cases hloop
  | testFlag =>
    have hplace : s.place = .test := of_decide_eq_true hm
    rw [next]
    split
    · exact hturn hplace .stop
    · exact hturn hplace .go
  | wait o =>
    have hplace : s.place = .wait := of_decide_eq_true (Bool.and_eq_true _ _ ▸ hm).1
    cases o with
    | ready es => exact hturn hplace (.ready es)
    | interrupted => exact hturn hplace .interrupted
    | failed => exact hturn hplace .failed
  | nextEvent =>
    cases hplace : s.place with
    | events es =>
      cases es with
      | nil =>
        simp only [next, hplace]
        exact hturn hplace .round
      | cons e rest =>
        cases e with
        | wake =>
          simp only [next, hplace]
          exact hturn hplace (.wake rest)
        | socket =>
          simp only [next, hplace]
          exact hturn hplace (.socket rest)
    | _ => simp [can, hplace] at hm
  | finishCallback throws =>
    cases hplace : s.place with
    | callback rest =>
      simp only [next, hplace]
      cases throws with
      | true => exact hturn hplace (.throw rest)
      | false => exact hturn hplace (.back rest)
    | _ => simp [can, hplace] at hm
  | consume =>
    cases hplace : s.place with
    | woken rest =>
      simp only [next, hplace]
      exact looped_consume (.inl hplace) flavour
    | draining rest =>
      simp only [next, hplace]
      exact looped_consume (.inr hplace) flavour
    | _ => simp [can, hplace] at hm
  | swap =>
    cases hplace : s.place with
    | swap rest =>
      simp only [next, hplace]
      exact .swap hplace
    | _ => simp [can, hplace] at hm
  | nextClosure =>
    cases hplace : s.place with
    | batch fns rest =>
      simp only [next, hplace]
      cases fns with
      | nil => exact hturn hplace (.emptied rest)
      | cons f fns => exact .start hplace
    | _ => simp [can, hplace] at hm
  | finishClosure throws =>
    cases hplace : s.place with
    | running f fns rest =>
      simp only [next, hplace]
      exact .finish hplace
    | _ => simp [can, hplace] at hm

structure Traced (s : Reactor α) : Prop where
  queued : s.queued = s.started ++ s.place.taken ++ s.pending
  started : s.started = s.finished ++ s.place.current
  once : s.queued.Nodup

theorem Turn.same_batch {p p' : Place α} (h : Turn p p') :
    p'.taken = p.taken ∧ p'.current = p.current := by
  cases h with
  | read rest hp => rcases hp with rfl | rfl <;> exact ⟨rfl, rfl⟩
  | drained rest hp => rcases hp with rfl | rfl <;> exact ⟨rfl, rfl⟩
  | _ => exact ⟨rfl, rfl⟩

theorem Traced.looped {s s' : Reactor α} (h : s.Traced) (hs : Looped s s') : s'.Traced := by
  obtain ⟨hqueued, hstarted, honce⟩ := h
  cases hs with
  | turn hturn _ =>
    obtain ⟨htaken, hcurrent⟩ := hturn.same_batch
    exact ⟨by simpa only [htaken] using hqueued, by simpa only [hcurrent] using hstarted, honce⟩
  | swap hplace =>
    exact ⟨by simpa [hplace, Place.taken] using hqueued,
      by simpa [hplace, Place.current] using hstarted, honce⟩
  | start hplace =>
    exact ⟨by simpa [hplace, Place.taken] using hqueued,
      by simpa [hplace, Place.current] using hstarted, honce⟩
  | finish hplace =>
    exact ⟨by simpa [hplace, Place.taken] using hqueued,
      by simpa [hplace, Place.current] using hstarted, honce⟩

theorem Traced.next [DecidableEq α] {flavour : Flavour} {s : Reactor α} (h : s.Traced) {m : Move α}
    (hm : s.can flavour m) : (s.next flavour m).Traced := by
  cases m with
  | queue f =>
    have hnew : f ∉ s.queued := of_decide_eq_true hm
    refine ⟨?_, h.started, ?_⟩
    · simp [Reactor.next, h.queued]
    · exact h.once.append (List.nodup_singleton f) (by simpa [List.disjoint_singleton] using hnew)
  | signal f written => exact ⟨h.queued, h.started, h.once⟩
  | stop => exact ⟨h.queued, h.started, h.once⟩
  | stopSignal written => exact ⟨h.queued, h.started, h.once⟩
  | _ => exact h.looped (looped_next rfl hm)

/-- Pending closures have a wake-up signalled, or about to be, or a swap ahead. -/
def Noticed (s : Reactor α) : Prop :=
  s.pending ≠ [] → 0 < s.wake ∨ s.posting ≠ ∅ ∨ s.place.consumed

theorem wake_signalled {s : Reactor α} {written : Bool} (h : s.canSignal written) :
    0 < s.wake + written.toNat := by
  cases written with
  | true => simp
  | false => simpa [canSignal] using h

theorem Turn.consumed {p p' : Place α} (h : Turn p p') (hp : p.consumed) : p'.consumed := by
  cases h with
  | read rest _ => rfl
  | drained rest _ => rfl
  | _ => cases hp

theorem Noticed.looped {s s' : Reactor α} (h : s.Noticed) (hs : Looped s s') : s'.Noticed := by
  intro hpending
  cases hs with
  | turn hturn hwake =>
    rcases hwake with rfl | hconsumed
    · exact (h hpending).imp_right (Or.imp_right hturn.consumed)
    · exact .inr (.inr hconsumed)
  | swap _ => exact absurd rfl hpending
  | start hplace =>
      exact (h hpending).imp_right (Or.imp_right fun hc => by simp [hplace, Place.consumed] at hc)
  | finish hplace =>
      exact (h hpending).imp_right (Or.imp_right fun hc => by simp [hplace, Place.consumed] at hc)

theorem Noticed.next [DecidableEq α] {flavour : Flavour} {s : Reactor α} (h : s.Noticed)
    {m : Move α} (hm : s.can flavour m) : (s.next flavour m).Noticed := by
  cases m with
  | queue f => exact fun _ => .inr (.inl (Finset.insert_ne_empty f s.posting))
  | signal f written => exact fun _ => .inl (wake_signalled (Bool.and_eq_true _ _ ▸ hm).2)
  | stop => exact h
  | stopSignal written => exact fun _ => .inl (wake_signalled (Bool.and_eq_true _ _ ▸ hm).2)
  | _ => exact h.looped (looped_next rfl hm)

/-- Closures are started in the order in which they were queued, each at most once, and
pending ones do not wait for a wake-up nobody gives. -/
theorem posts_never_lost [DecidableEq α] {flavour : Flavour} {s : Reactor α}
    (h : (machine α flavour).Reach (fun _ _ => True) start s) :
    s.started <+: s.queued ∧ s.started.Nodup ∧
      (s.pending ≠ [] → 0 < s.wake ∨ s.posting ≠ ∅ ∨ s.place.consumed) := by
  have htraced : s.Traced :=
    h.invariant Traced ⟨rfl, rfl, List.nodup_nil⟩ fun _ _ hs hm _ => hs.next hm
  have hnoticed : s.Noticed :=
    h.invariant Noticed (fun hpending => absurd rfl hpending) fun _ _ hs hm _ => hs.next hm
  have hfront : s.started <+: s.queued :=
    ⟨s.place.taken ++ s.pending, by rw [htraced.queued, List.append_assoc]⟩
  exact ⟨hfront, htraced.once.sublist hfront.sublist, hnoticed⟩

def lateRun : List (Move Nat) :=
  [.queue 0, .signal 0 true, .testFlag, .wait (.ready [.wake, .socket]), .nextEvent, .consume,
    .queue 1, .consume, .swap, .nextClosure, .finishClosure true, .nextClosure]

theorem posts_never_lost_lateRun :
    let s := (machine Nat .select).run start lateRun
    s.started = [0, 1] ∧ s.posting = {1} ∧ s.started <+: s.queued ∧ s.started.Nodup := by
  intro s
  have hruns : (machine Nat .select).Runs (fun _ _ => True) start lateRun := by decide
  have hreach := posts_never_lost (.runs .start hruns)
  exact ⟨by decide, by decide, hreach.1, hreach.2.1⟩

end Reactor

end ChatServer.net
