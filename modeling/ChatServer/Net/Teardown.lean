import ChatServer.Net.Reactor

namespace ChatServer.net

open Lib

inductive Posted : Type
  | deliverClose : Nat → Posted
  | other : Nat → Posted
  deriving DecidableEq

/-- Where the thread in `ChatServer::stop` is: closing the connections of the snapshot, in
`post` for one of them, before and after the store of the flag in `Reactor::stop`. -/
inductive Stopper : Type
  | idle : Stopper
  | closing : List Nat → Stopper
  | queueing : Nat → List Nat → Stopper
  | signalling : Nat → List Nat → Stopper
  | storing : Stopper
  | stored : Stopper
  | finished : Stopper
  deriving DecidableEq

/-- The server with its reactor.  `scheduled` holds the connections whose `closing_` another
thread has just set, `ended` those that `Server::stop` closed, `closed` those whose
`deliver_close` has run with its `on_close` handler, and `before` the closures queued when
the flag of the reactor was set. -/
structure Teardown where
  reactor : Reactor Posted
  accepted : Finset Nat
  conns : Finset Nat
  closing : Finset Nat
  scheduled : Finset Nat
  closed : Finset Nat
  stopper : Stopper
  ended : Finset Nat
  before : List Posted

namespace Teardown

def start (conns : Finset Nat) : Teardown := ⟨.start, conns, conns, ∅, ∅, ∅, .idle, ∅, []⟩

inductive Move : Type
  | reactor : Reactor.Move Posted → Move
  | accept : Nat → Move
  | scheduleClose : Nat → Move
  | stop : List Nat → Move
  | stopNext : Bool → Move

def canReactor (s : Teardown) : Reactor.Move Posted → Bool
  | .queue (.deliverClose c) => c ∈ s.scheduled
  | .signal (.deliverClose c) _ => match s.stopper with | .signalling d _ => c ≠ d | _ => true
  | .stop | .stopSignal _ => false
  | _ => true

def stopMove (s : Teardown) (written : Bool) : Option (Reactor.Move Posted) :=
  match s.stopper with
  | .queueing c _ => some (.queue (.deliverClose c))
  | .signalling c _ => some (.signal (.deliverClose c) written)
  | .storing => some .stop
  | .stored => some (.stopSignal written)
  | _ => none

def can (flavour : Flavour) (s : Teardown) : Move → Bool
  | .reactor m => s.canReactor m && s.reactor.can flavour m
  | .accept c => c ∉ s.accepted
  | .scheduleClose c => c ∈ s.accepted ∧ c ∉ s.closing
  | .stop snap => s.stopper = .idle ∧ snap.Nodup ∧ snap.toFinset = s.conns
  | .stopNext written =>
    s.stopper ≠ .idle && s.stopper ≠ .finished && (s.stopMove written).all (s.reactor.can flavour)

def deliver (s : Teardown) : Reactor.Move Posted → Teardown
  | .finishClosure _ =>
    match s.reactor.place with
    | .running (.deliverClose c) _ _ =>
        { s with closed := insert c s.closed, conns := s.conns.erase c }
    | _ => s
  | .queue (.deliverClose c) => { s with scheduled := s.scheduled.erase c }
  | _ => s

def stopNext (s : Teardown) : Teardown :=
  match s.stopper with
  | .closing [] => { s with stopper := .storing }
  | .closing (c :: snap) =>
    if c ∈ s.closing then { s with stopper := .closing snap }
    else { s with
      closing := insert c s.closing, ended := insert c s.ended, stopper := .queueing c snap }
  | .queueing c snap => { s with stopper := .signalling c snap }
  | .signalling _ snap => { s with stopper := .closing snap }
  | .storing => { s with stopper := .stored, before := s.reactor.queued }
  | .stored => { s with stopper := .finished }
  | .idle | .finished => s

def next (flavour : Flavour) (s : Teardown) : Move → Teardown
  | .reactor m => { s.deliver m with reactor := s.reactor.next flavour m }
  | .accept c => { s with accepted := insert c s.accepted, conns := insert c s.conns }
  | .scheduleClose c => { s with closing := insert c s.closing, scheduled := insert c s.scheduled }
  | .stop snap => { s with stopper := .closing snap, conns := ∅ }
  | .stopNext written =>
    { s.stopNext with
      reactor := ((s.stopMove written).map (s.reactor.next flavour)).getD s.reactor }

def machine (flavour : Flavour) : Machine Teardown Move := ⟨can flavour, next flavour⟩

end Teardown

namespace Reactor

variable {α : Type} {before : List α} {r r' : Reactor α}

def Settled (before : List α) (r : Reactor α) : Prop :=
  (∀ f ∈ before, f ∈ r.started ++ r.place.taken) ∨ r.place.ahead ∨ r.place = .unwound

theorem Turn.ahead {p p' : Place α} (h : Turn p p') (hwait : p ≠ .wait) (hp : p.ahead) :
    p'.ahead ∨ p' = .unwound := by
  cases h with
  | stop => cases hp
  | go => cases hp
  | ready es => exact absurd rfl hwait
  | interrupted => exact absurd rfl hwait
  | failed => exact absurd rfl hwait
  | round => simp [Place.ahead] at hp
  | wake rest => exact .inl rfl
  | socket rest => exact .inl (by simpa [Place.ahead] using hp)
  | back rest => exact .inl hp
  | throw rest => exact .inr rfl
  | read rest _ => exact .inl rfl
  | drained rest _ => exact .inl rfl
  | emptied rest => exact .inl hp

theorem Looped.place_ne_unwound (h : Looped r r') : r.place ≠ .unwound := by
  intro hplace
  cases h with
  | turn hturn _ =>
    rw [hplace] at hturn
    cases hturn <;> simp_all
  | swap h => simp [hplace] at h
  | start h => simp [hplace] at h
  | finish h => simp [hplace] at h

theorem Settled.looped (h : Settled before r) (htraced : r.Traced)
    (hbefore : ∀ f ∈ before, f ∈ r.queued)
    (hr : Looped r r') (hwait : r.place = .wait → r'.place.ahead) : Settled before r' := by
  have h := h.imp_right fun h => h.resolve_right hr.place_ne_unwound
  cases hr with
  | @turn p wake hturn _ =>
    rcases h with hin | hahead
    · exact .inl (by simpa only [hturn.same_batch.1] using hin)
    · by_cases hplace : r.place = .wait
      · exact .inr (.inl (hwait hplace))
      · exact .inr (hturn.ahead hplace hahead)
  | swap hplace =>
    left
    intro f hf
    have hmem := hbefore f hf
    rw [htraced.queued] at hmem
    simpa [hplace, Place.taken] using hmem
  | start hplace =>
    rw [hplace] at h
    exact h.imp (by simp [Place.taken]) .inl
  | finish hplace =>
    rw [hplace] at h
    exact h.imp id .inl

theorem Settled.next [DecidableEq α] {flavour : Flavour} (h : Settled before r) (htraced : r.Traced)
    (hbefore : ∀ f ∈ before, f ∈ r.queued) {m : Move α} (hm : r.can flavour m)
    (hwait : ∀ o, m = .wait o → o.hasWake) : Settled before (r.next flavour m) := by
  cases m with
  | queue f => exact h
  | signal f written => exact h
  | stop => exact h
  | stopSignal written => exact h
  | wait o =>
    refine h.looped htraced hbefore (looped_next rfl hm) fun _ => ?_
    have ho := hwait o rfl
    cases o with
    | ready es => exact ho
    | interrupted => cases ho
    | failed => cases ho
  | _ =>
    refine h.looped htraced hbefore (looped_next rfl hm) fun hplace => ?_
    simp [can, hplace] at hm

theorem Looped.frame (h : Looped r r') : r'.queued = r.queued ∧ r'.stopping = r.stopping := by
  cases h <;> exact ⟨rfl, rfl⟩

theorem queued_next [DecidableEq α] {flavour : Flavour} {m : Move α} (hm : r.can flavour m) {f : α}
    (hf : f ∈ r.queued) : f ∈ (r.next flavour m).queued := by
  cases m with
  | queue g => exact List.mem_append_left _ hf
  | signal g written => exact hf
  | stop => exact hf
  | stopSignal written => exact hf
  | _ => rwa [(looped_next rfl hm).frame.1]

theorem stopping_next [DecidableEq α] {flavour : Flavour} {m : Move α} (hm : r.can flavour m)
    (hstop : m ≠ .stop) : (r.next flavour m).stopping = r.stopping := by
  cases m with
  | queue g => rfl
  | signal g written => rfl
  | stop => exact absurd rfl hstop
  | stopSignal written => rfl
  | _ => exact (looped_next rfl hm).frame.2

theorem Looped.finished (h : Looped r r') {f : α} (hf : f ∈ r'.finished) :
    f ∈ r.finished ∨ ∃ fns rest, r.place = .running f fns rest := by
  cases h with
  | @finish g fns rest hplace =>
    rcases List.mem_append.mp hf with hf | hf
    · exact .inl hf
    · exact .inr ⟨fns, rest, by rw [hplace, List.mem_singleton.mp hf]⟩
  | _ => exact .inl hf

theorem finished_next [DecidableEq α] {flavour : Flavour} {m : Move α}
    (hm : r.can flavour m) {f : α} (hf : f ∈ (r.next flavour m).finished) :
    f ∈ r.finished ∨ (∃ throws, m = .finishClosure throws) ∧
    ∃ fns rest, r.place = .running f fns rest := by
  cases m with
  | queue g => exact .inl hf
  | signal g written => exact .inl hf
  | stop => exact .inl hf
  | stopSignal written => exact .inl hf
  | finishClosure throws =>
      exact ((looped_next rfl hm).finished hf).imp_right fun h => ⟨⟨throws, rfl⟩, h⟩
  | _ =>
    refine ((looped_next rfl hm).finished hf).imp_right fun ⟨fns, rest, hplace⟩ => ?_
    simp [can, hplace] at hm

end Reactor

namespace Teardown

/-- The flag is set while nothing is pending or while a swap is ahead, and with the flag set
a wait ends with the wake-up. -/
def timely (s : Teardown) : Move → Bool
  | .reactor (.wait o) => s.reactor.stopping → o.hasWake
  | .stopNext _ => s.stopper = .storing → s.reactor.pending = [] ∨ s.reactor.place.ahead
  | _ => true

structure Sound (s : Teardown) : Prop where
  traced : s.reactor.Traced
  flag : s.reactor.stopping ↔ s.stopper = .stored ∨ s.stopper = .finished
  kept : ∀ f ∈ s.before, f ∈ s.reactor.queued
  settled : s.reactor.stopping → s.reactor.Settled s.before
  ended : ∀ c ∈ s.ended, .deliverClose c ∈ s.reactor.queued ∨ ∃ snap, s.stopper = .queueing c snap
  ended_before : s.reactor.stopping → ∀ c ∈ s.ended, .deliverClose c ∈ s.before
  delivered : ∀ c, .deliverClose c ∈ s.reactor.finished → c ∈ s.closed

theorem sound_start (conns : Finset Nat) : Sound (start conns) where
  traced := ⟨rfl, rfl, List.nodup_nil⟩
  flag := by simp [start, Reactor.start]
  kept := by simp [start]
  settled := by simp [start, Reactor.start]
  ended := by simp [start]
  ended_before := by simp [start]
  delivered := by simp [start, Reactor.start]

theorem closed_deliver {s : Teardown} {m : Reactor.Move Posted} {c : Nat} (hc : c ∈ s.closed) :
    c ∈ (s.deliver m).closed := by
  cases m with
  | finishClosure throws =>
    rw [deliver]
    split
    · exact Finset.mem_insert_of_mem hc
    · exact hc
  | queue f => cases f <;> exact hc
  | _ => exact hc

theorem deliver_frame (s : Teardown) (m : Reactor.Move Posted) :
    (s.deliver m).stopper = s.stopper ∧ (s.deliver m).ended = s.ended ∧
    (s.deliver m).before = s.before := by
  cases m with
  | finishClosure throws =>
    rw [deliver]
    split <;> exact ⟨rfl, rfl, rfl⟩
  | queue f => cases f <;> exact ⟨rfl, rfl, rfl⟩
  | _ => exact ⟨rfl, rfl, rfl⟩

theorem Sound.reactor {flavour : Flavour} {s : Teardown} (h : s.Sound) {m : Reactor.Move Posted}
    (hcan : s.can flavour (.reactor m)) (hok : s.timely (.reactor m)) :
    (s.next flavour (.reactor m)).Sound := by
  obtain ⟨hallowed, hm⟩ := Bool.and_eq_true _ _ ▸ hcan
  obtain ⟨hstopper, hended, hbefore⟩ := deliver_frame s m
  have hne : m ≠ .stop := fun heq => by simp [heq, canReactor] at hallowed
  have hstopping := Reactor.stopping_next hm hne
  exact {
    traced := h.traced.next hm
    flag := by simpa only [next, hstopping, hstopper] using h.flag
    kept := fun f hf => Reactor.queued_next hm (h.kept f (hbefore ▸ hf))
    settled := fun hstop' => by
      have hstop : s.reactor.stopping = true := hstopping ▸ hstop'
      have hwait (o : Wait) (ho : m = .wait o) : o.hasWake := by
        rw [ho] at hok
        exact of_decide_eq_true hok hstop
      show Reactor.Settled (s.deliver m).before _
      rw [hbefore]
      exact (h.settled hstop).next h.traced h.kept hm hwait
    ended := fun c hc => by
      simp only [next, hstopper] at hc ⊢
      exact (h.ended c (hended ▸ hc)).imp_left (Reactor.queued_next hm)
    ended_before := fun hstop c hc => by
      simp only [next, hbefore, hstopping] at hc hstop ⊢
      exact h.ended_before hstop c (hended ▸ hc)
    delivered := fun c hc => by
      rcases Reactor.finished_next hm hc with hc | ⟨⟨throws, rfl⟩, fns, rest, hplace⟩
      · exact closed_deliver (h.delivered c hc)
      · simp [next, deliver, hplace] }

theorem Sound.stopNext {flavour : Flavour} {s : Teardown} (h : s.Sound) {written : Bool}
    (hcan : s.can flavour (.stopNext written)) (hok : s.timely (.stopNext written)) :
    (s.next flavour (.stopNext written)).Sound := by
  obtain ⟨htraced, hflag, hkept, hsettled, hended, hended', hdelivered⟩ := h
  simp only [can, Bool.and_eq_true, decide_eq_true_eq] at hcan
  obtain ⟨⟨hidle, hfinished⟩, hm⟩ := hcan
  cases hstopper : s.stopper with
  | idle => exact absurd hstopper hidle
  | finished => exact absurd hstopper hfinished
  | closing snap =>
    simp only [hstopper, reduceCtorEq, or_self, iff_false, exists_false, or_false] at hflag hended
    cases snap with
    | nil =>
      simp only [Teardown.next, Teardown.stopNext, stopMove, hstopper]
      exact ⟨htraced, by simpa using hflag, hkept, hsettled, fun c hc => .inl (hended c hc),
        hended', hdelivered⟩
    | cons c snap =>
      simp only [Teardown.next, Teardown.stopNext, stopMove, hstopper]
      split
      · exact ⟨htraced, by simpa using hflag, hkept, hsettled, fun c hc => .inl (hended c hc),
          hended', hdelivered⟩
      · refine ⟨htraced, by simpa using hflag, hkept, hsettled, fun d hd => ?_, fun hstop =>
          absurd hstop hflag, hdelivered⟩
        rcases Finset.mem_insert.mp hd with rfl | hd
        · exact .inr ⟨snap, rfl⟩
        · exact .inl (hended d hd)
  | queueing c snap =>
    simp only [hstopper, stopMove, Option.all_some] at hm
    simp only [hstopper, reduceCtorEq, or_self, iff_false, Stopper.queueing.injEq] at hflag hended
    simp only [Teardown.next, Teardown.stopNext, stopMove, hstopper]
    refine ⟨htraced.next hm, by simpa [Reactor.next] using hflag, fun f hf =>
      Reactor.queued_next hm (hkept f hf), hsettled, fun d hd => .inl ?_, hended', hdelivered⟩
    rcases hended d hd with hd | ⟨_, rfl, _⟩
    · exact Reactor.queued_next hm hd
    · simp [Reactor.next]
  | signalling c snap =>
    simp only [hstopper, stopMove, Option.all_some] at hm
    simp only [hstopper, reduceCtorEq, or_self, iff_false, exists_false, or_false] at hflag hended
    simp only [Teardown.next, Teardown.stopNext, stopMove, hstopper]
    exact ⟨htraced.next hm, by simpa [Reactor.next] using hflag, hkept, hsettled, fun d hd =>
      .inl (hended d hd), hended', hdelivered⟩
  | storing =>
    simp only [hstopper, stopMove, Option.all_some] at hm
    simp only [hstopper, reduceCtorEq, exists_false, or_false] at hended
    have hpoint := of_decide_eq_true hok hstopper
    simp only [Teardown.next, Teardown.stopNext, stopMove, hstopper]
    refine ⟨htraced.next hm, by simp [Reactor.next], fun f hf => hf, fun _ =>
      ?_, fun d hd => .inl (hended d hd), fun _ => hended, hdelivered⟩
    refine hpoint.imp (fun hpending f hf => ?_) .inl
    have hqueued := htraced.queued
    rw [hpending, List.append_nil] at hqueued
    exact hqueued ▸ hf
  | stored =>
    simp only [hstopper, stopMove, Option.all_some] at hm
    simp only [hstopper, reduceCtorEq, exists_false, or_false] at hended
    simp only [Teardown.next, Teardown.stopNext, stopMove, hstopper]
    exact ⟨htraced.next hm, by simpa [Reactor.next, hstopper] using hflag, hkept, hsettled,
      fun d hd => .inl (hended d hd), hended', hdelivered⟩

theorem Sound.next {flavour : Flavour} {s : Teardown} (h : s.Sound) {m : Move}
    (hcan : s.can flavour m) (hok : s.timely m) : (s.next flavour m).Sound := by
  cases m with
  | reactor m => exact h.reactor hcan hok
  | stopNext written => exact h.stopNext hcan hok
  | accept c => exact { h with }
  | scheduleClose c => exact { h with }
  | stop snap =>
    obtain ⟨hidle, -, -⟩ := of_decide_eq_true hcan
    obtain ⟨htraced, hflag, hkept, hsettled, hended, hended', hdelivered⟩ := h
    exact ⟨htraced, by simpa [Teardown.next, hidle] using hflag, hkept, hsettled,
      fun c hc => (hended c hc).imp_right fun ⟨snap, hsnap⟩ =>
        by simp [hidle] at hsnap, hended', hdelivered⟩

/-- When `run` has returned after the flag was set, every closure queued before has been
executed, and every connection that `Server::stop` closed has been through `deliver_close`
and its `on_close` handler. -/
theorem stop_tears_down {flavour : Flavour} {conns : Finset Nat} {s : Teardown}
    (h : (machine flavour).Reach (fun s m => s.timely m) (start conns) s)
    (hstop : s.reactor.stopping) (hreturned : s.reactor.place = .returned) :
    (∀ f ∈ s.before, f ∈ s.reactor.finished) ∧ ∀ c ∈ s.ended, c ∈ s.closed := by
  have hs : s.Sound := h.invariant Sound (sound_start conns) fun _ _ hs hcan hok => hs.next hcan hok
  have hrun : ∀ f ∈ s.before, f ∈ s.reactor.finished := by
    intro f hf
    rcases hs.settled hstop with hin | hahead | hunwound
    · have hstarted := hs.traced.started
      have hmem := hin f hf
      simp only [hreturned, Place.taken, Place.current, List.append_nil] at hmem hstarted
      rwa [← hstarted]
    · simp [hreturned, Place.ahead] at hahead
    · simp [hreturned] at hunwound
  exact ⟨hrun, fun c hc => hs.delivered c (hrun _ (hs.ended_before hstop c hc))⟩

def calmStop : List Move :=
  [.reactor .testFlag, .stop [1, 2], .stopNext true, .stopNext true, .stopNext true, .stopNext true,
    .stopNext true, .stopNext true, .stopNext true, .stopNext true, .stopNext true,
      .reactor (.wait (.ready [.socket, .wake])),
    .reactor .nextEvent, .reactor (.finishCallback false), .reactor .nextEvent, .reactor .consume,
      .reactor .swap,
    .reactor .nextClosure, .reactor (.finishClosure false), .reactor .nextClosure,
      .reactor (.finishClosure false),
    .reactor .nextClosure, .reactor .nextEvent, .reactor .testFlag]

theorem stop_tears_down_calmStop :
    let s := (machine .epoll).run (start {1, 2}) calmStop
    s.reactor.place = .returned ∧ s.ended = {1, 2} ∧ ∀ c ∈ s.ended, c ∈ s.closed := by
  intro s
  have hruns : (machine .epoll).Runs (fun s m => s.timely m = true) (start {1, 2}) calmStop := by
    decide
  have hreturned : s.reactor.place = .returned := by decide
  exact ⟨hreturned, by decide, (stop_tears_down (.runs .start hruns) (by decide) hreturned).2⟩

/-- The signal whose handler stops the server interrupts the wait: `run` returns with the
`deliver_close` of the connection still pending. -/
theorem stop_interrupts_wait :
    ∃ ms : List Move, (machine .epoll).Runs (fun _ _ => True) (start {1}) ms ∧
      let s := (machine .epoll).run (start {1}) ms
      s.reactor.stopping = true ∧ s.reactor.place = .returned ∧ s.before = [.deliverClose 1] ∧
        s.reactor.started = [] ∧ 1 ∈ s.ended ∧ 1 ∉ s.closed :=
  ⟨[.reactor .testFlag, .stop [1], .stopNext true, .stopNext true, .stopNext true, .stopNext true,
    .stopNext true, .stopNext true, .reactor (.wait .interrupted), .reactor .testFlag],
      by decide, by decide⟩

end Teardown

end ChatServer.net
