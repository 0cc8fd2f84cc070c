import ChatServer.Net.Reader
import ChatServer.Net.Writer

/-! A connection with both its sides, from `start` to its destructor, and what it does to
its descriptor and to its handlers on the way.  Calls of `send_frame` and `close` from any
thread, closures and events come in any order. -/

namespace ChatServer

open Lib protocol

namespace net

deriving instance DecidableEq for Interest

/-- The calls a connection makes for its descriptor and of its handlers, and the moment
`closed_` is set. -/
inductive Effect : Type
  | recv : Effect
  | onFrame : Bytes → Effect
  | send : Effect
  | modify : Interest → Effect
  | closed : Effect
  | remove : Effect
  | socketClose : Effect
  | onClose : Effect
  deriving DecidableEq

def Effect.works : Effect → Bool
  | .recv | .onFrame _ | .send | .modify _ => true
  | _ => false

/-- Where the reactor thread is in `on_event` and in `deliver_close`, apart from what the
write side tells: in front of a `recv`, in the inner loop of `on_readable`, in front of the
second look at `closed_`, behind `remove` and behind the close of the descriptor.  The flag
says whether the event was for writing, too. -/
inductive Spot : Type
  | idle : Spot
  | receiving : Bool → Spot
  | cutting : Bool → Spot
  | received : Bool → Spot
  | removed : Spot
  | released : Spot

/-- A connection, with the flags for a valid `fd_` and for handlers that are set. -/
structure Connection where
  link : Link
  reader : Reader
  spot : Spot
  fd : Bool
  frameHandler : Bool
  closeHandler : Bool
  destroyed : Bool
  log : List Effect

def Link.flushEffects (l l' : Link) : List Effect :=
  (match l.reactor, l.wbuf with
    | .flushing, _ :: _ => [.send]
    | _, _ => []) ++
  (match l'.reactor with
    | .arming => [.modify .readWrite]
    | .disarming => [.modify .read]
    | _ => [])

def Link.scheduleClose (l : Link) : Link :=
  if l.closing then l else { l with closing := true, reactor := .claimed }

namespace Connection

def start (limit : UInt32) (frameHandler closeHandler : Bool) : Connection :=
  ⟨.start limit, .fresh limit, .idle, true, frameHandler, closeHandler, false, []⟩

def receive (s : Connection) (write : Bool) : Recv → Connection
  | .data seg =>
    { s with
      reader := { s.reader with rbuf := s.reader.rbuf ++ seg.bytes }
      spot := .cutting write
      log := s.log ++ [.recv] }
  | .eof | .error _ =>
      { s with link := s.link.scheduleClose, spot := .received write, log := s.log ++ [.recv] }
  | .eagain => { s with spot := .received write, log := s.log ++ [.recv] }
  | .eintr => { s with log := s.log ++ [.recv] }

def cut (s : Connection) (write : Bool) : Connection :=
  match s.reader.pass with
  | .stop r => { s with reader := r, spot := .receiving write }
  | .fail _ r => { s with link := s.link.scheduleClose, reader := r, spot := .received write }
  | .emit p r => { s with reader := r, log := s.log ++ if s.frameHandler then [.onFrame p] else [] }

def lookAgain (s : Connection) (write : Bool) : Connection :=
  if s.link.closed then { s with spot := .idle }
  else if write then { s with spot := .idle, link := { s.link with reactor := .flushing } }
  else { s with spot := .idle }

/-- The steps of a connection.  A step of the write side that moves a thread is one of a
call; an event may be a stale one, for a connection that has left the reactor. -/
inductive Act (s : Connection) : Connection → Prop
  | call {l : Link} (h : net.Step s.link l) (ht : l.threads ≠ s.link.threads) :
    Act s { s with link := l }
  | swap (hs : s.spot = .idle) (hr : s.link.reactor = .idle) (hb : s.link.batch = []) :
      Act s { s with link := { s.link with batch := s.link.pending, pending := [] } }
  | runFlush {rest : List Closure} (hs : s.spot = .idle) (hr : s.link.reactor = .idle)
      (hb : s.link.batch = .flush :: rest) :
      Act s { s with
        link := { s.link with
          batch := rest, reactor := if s.link.closed then .idle else .flushing } }
  | runSchedule {rest : List Closure} (hs : s.spot = .idle) (hr : s.link.reactor = .idle)
      (hb : s.link.batch = .scheduleClose :: rest) :
      Act s { s with
        link := { s.link with
          batch := rest, closing := true, reactor := if s.link.closing then .idle else .claimed } }
  | runDeliver {rest : List Closure} (hs : s.spot = .idle) (hr : s.link.reactor = .idle)
      (hb : s.link.batch = .deliverClose :: rest) :
      Act s { s with
        link := { s.link with
          batch := rest, closed := true, reactor := if s.link.closed then .idle else .removing }
        log := s.log ++ if s.link.closed then [] else [.closed] }
  | remove (hr : s.link.reactor = .removing) :
      Act s { s with
        link := { s.link with interest := none, reactor := .idle }
        spot := .removed
        log := s.log ++ [.remove] }
  | socketClose (hs : s.spot = .removed) :
      Act s { s with
        spot := .released, fd := false, log := s.log ++ if s.fd then [.socketClose] else [] }
  | onClose (hs : s.spot = .released) :
      Act s { s with spot := .idle, log := s.log ++ if s.closeHandler then [.onClose] else [] }
  | post (hr : s.link.reactor = .claimed) :
      Act s { s with link := { s.link.post .deliverClose with reactor := .idle } }
  | event (hs : s.spot = .idle) (hr : s.link.reactor = .idle) (read write : Bool) :
      Act s { s with
        spot := if s.link.closed then .idle else if read then .receiving write
          else .received write }
  | recv {write : Bool} (hs : s.spot = .receiving write) (x : Recv) : Act s (s.receive write x)
  | cut {write : Bool} (hs : s.spot = .cutting write) : Act s (s.cut write)
  | throw {write : Bool} (hs : s.spot = .receiving write ∨ s.spot = .cutting write) :
      Act s { s with spot := .idle }
  | lookAgain {write : Bool} (hs : s.spot = .received write) (hr : s.link.reactor = .idle) :
      Act s (s.lookAgain write)
  | flush {l : Link} (h : net.Step s.link l) (ht : l.threads = s.link.threads)
      (hr : s.link.reactor.flushes = true) :
      Act s { s with link := l, log := s.log ++ s.link.flushEffects l }

inductive Step (s : Connection) : Connection → Prop
  | act {s' : Connection} (hd : s.destroyed = false) (h : Act s s') : Step s s'
  | destroy (hd : s.destroyed = false) (hs : s.spot = .idle) (hr : s.link.reactor = .idle)
      (ht : ∀ i, s.link.threads i = .idle) :
      Step s { s with
        destroyed := true, fd := false, log := s.log ++ if s.fd then [.socketClose] else [] }

abbrev Reachable (limit : UInt32) (frameHandler closeHandler : Bool) (s : Connection) : Prop :=
  Relation.ReflTransGen Step (start limit frameHandler closeHandler) s

end Connection

theorem Step.of_call {l l' : Link} (h : Step l l') (ht : l'.threads ≠ l.threads) :
    l'.reactor = l.reactor ∧ l'.closed = l.closed := by
  cases h with
  | enter | refuse | pass | drop | clear | append | postFlush | claim | postClose =>
      exact ⟨rfl, rfl⟩
  | _ => exact absurd rfl ht

theorem Step.of_flush {l l' : Link} (h : Step l l') (hr : l.reactor.flushes = true) :
    l'.closed = l.closed ∧ (l'.reactor.flushes = true ∨ l'.reactor = .idle) := by
  cases h with
  | full | armed | failed | flushed | disarmed => exact ⟨rfl, .inr rfl⟩
  | enter | refuse | pass | drop | clear | append | postFlush | claim | postClose =>
      exact ⟨rfl, .inl hr⟩
  | send | interrupted => exact ⟨rfl, .inl hr⟩
  | arm | broken | disarm => exact ⟨rfl, .inl rfl⟩
  | _ => simp_all [Activity.flushes]

theorem Link.scheduleClose_open {l : Link} (h : l.closed = false ∧ l.reactor = .idle) :
    l.scheduleClose.closed = false ∧
    (l.scheduleClose.reactor = .idle ∨ l.scheduleClose.reactor = .claimed) := by
  unfold scheduleClose
  split
  · exact ⟨h.1, .inl h.2⟩
  · exact ⟨h.1, .inr rfl⟩

theorem Step.scheduleClose {l : Link} (h : l.closed = false ∧ l.reactor = .idle) :
    l.scheduleClose = l ∨ Step l l.scheduleClose := by
  unfold Link.scheduleClose
  split
  · exact .inl rfl
  · rename_i hc
    exact .inr (.readEnd h.2 h.1 (by simpa using hc))

namespace Connection

def Exclusive (s : Connection) : Prop :=
  match s.spot with
  | .idle =>
      (s.link.reactor.flushes = true → s.link.closed = false) ∧
        (s.link.reactor = .removing → s.link.closed = true)
  | .receiving _ | .cutting _ => s.link.closed = false ∧ s.link.reactor = .idle
  | .received _ => s.link.closed = false ∧ (s.link.reactor = .idle ∨ s.link.reactor = .claimed)
  | .removed | .released => s.link.closed = true ∧ s.link.reactor = .idle

section Exclusive

variable {s : Connection} {w : Bool}

theorem Exclusive.idle {s' : Connection} (hs : s'.spot = .idle)
    (h : (s'.link.reactor.flushes = true → s'.link.closed = false) ∧
      (s'.link.reactor = .removing → s'.link.closed = true)) : s'.Exclusive := by
  rwa [Exclusive, hs]

theorem Exclusive.receiving (h : s.Exclusive) (hs : s.spot = .receiving w ∨ s.spot = .cutting w) :
    s.link.closed = false ∧ s.link.reactor = .idle := by
  rcases hs with hs | hs <;> simpa [Exclusive, hs] using h

theorem Exclusive.received (h : s.Exclusive) (hs : s.spot = .received w) :
    s.link.closed = false ∧ (s.link.reactor = .idle ∨ s.link.reactor = .claimed) := by
  simpa [Exclusive, hs] using h

theorem Exclusive.leaving (h : s.Exclusive) (hs : s.spot = .removed ∨ s.spot = .released) :
    s.link.closed = true ∧ s.link.reactor = .idle := by
  rcases hs with hs | hs <;> simpa [Exclusive, hs] using h

theorem Exclusive.flushing (h : s.Exclusive) (hr : s.link.reactor.flushes = true) :
    s.spot = .idle ∧ s.link.closed = false := by
  cases hs : s.spot <;> simp_all [Exclusive, Activity.flushes]
  rcases h.2 with h | h <;> simp [h] at hr

theorem Exclusive.removing (h : s.Exclusive) (hr : s.link.reactor = .removing) :
    s.spot = .idle ∧ s.link.closed = true := by
  cases hs : s.spot <;> simp_all [Exclusive, Activity.flushes]

theorem Exclusive.receive (h : s.Exclusive) (hs : s.spot = .receiving w) (x : Recv) :
    (s.receive w x).Exclusive := by
  have hopen := h.receiving (.inl hs)
  cases x with
  | data seg => exact hopen
  | eof => exact Link.scheduleClose_open hopen
  | eagain => exact ⟨hopen.1, .inl hopen.2⟩
  | eintr => simpa [Exclusive, Connection.receive, hs] using hopen
  | error e => exact Link.scheduleClose_open hopen

theorem Exclusive.cut (h : s.Exclusive) (hs : s.spot = .cutting w) : (s.cut w).Exclusive := by
  have hopen := h.receiving (.inr hs)
  unfold Connection.cut
  split
  · exact hopen
  · exact Link.scheduleClose_open hopen
  · simpa [Exclusive, hs] using hopen

theorem Exclusive.lookAgain (h : s.Exclusive) (hs : s.spot = .received w)
    (hr : s.link.reactor = .idle) : (s.lookAgain w).Exclusive := by
  have hopen := (h.received hs).1
  cases w <;> simp [Connection.lookAgain, Exclusive, hopen, hr, Activity.flushes]

theorem Exclusive.act {s' : Connection} (h : s.Exclusive) (ha : Act s s') : s'.Exclusive := by
  cases ha with
  | call hstep ht =>
    obtain ⟨hreactor, hclosed⟩ := hstep.of_call ht
    simpa only [Exclusive, hreactor, hclosed] using h
  | swap hs hr => simp [Exclusive, hs, hr, Activity.flushes]
  | runFlush hs => cases hc : s.link.closed <;> simp [Exclusive, hs, hc, Activity.flushes]
  | runSchedule hs => cases s.link.closing <;> simp [Exclusive, hs, Activity.flushes]
  | runDeliver hs => cases s.link.closed <;> simp [Exclusive, hs, Activity.flushes]
  | remove hr => exact ⟨(h.removing hr).2, rfl⟩
  | socketClose hs => exact h.leaving (.inl hs)
  | onClose hs => simp [Exclusive, (h.leaving (.inr hs)).2, Activity.flushes]
  | post hr => cases hs : s.spot <;> simp_all [Exclusive, Link.post, Activity.flushes]
  | event _ hr read write =>
    cases hc : s.link.closed <;> cases read <;> simp [Exclusive, hc, hr, Activity.flushes]
  | recv hs x => exact h.receive hs x
  | cut hs => exact h.cut hs
  | throw hs => simp [Exclusive, (h.receiving hs).2, Activity.flushes]
  | lookAgain hs hr => exact h.lookAgain hs hr
  | flush hstep _ hr =>
    obtain ⟨hs, hopen⟩ := h.flushing hr
    obtain ⟨hclosed, hflush | hidle⟩ := hstep.of_flush hr
    · refine .idle hs ⟨fun _ => hclosed.trans hopen, fun hremoves => ?_⟩
      rw [hremoves] at hflush
      cases hflush
    · refine .idle hs ⟨fun _ => hclosed.trans hopen, fun hremoves => ?_⟩
      rw [hremoves] at hidle
      cases hidle

theorem Act.link {s' : Connection} (ha : Act s s') (h : s.Exclusive) :
    s'.link = s.link ∨ net.Step s.link s'.link := by
  cases ha with
  | call hstep _ => exact .inr hstep
  | swap _ hr hb => exact .inr (.swap hr hb)
  | runFlush _ hr hb => exact .inr (.runFlush hr hb)
  | runSchedule _ hr hb => exact .inr (.runSchedule hr hb)
  | runDeliver _ hr hb => exact .inr (.runDeliver hr hb)
  | remove hr => exact .inr (.remove hr)
  | socketClose => exact .inl rfl
  | onClose => exact .inl rfl
  | post hr => exact .inr (.claimed hr)
  | event => exact .inl rfl
  | recv hs x =>
    cases x with
    | eof => exact net.Step.scheduleClose (h.receiving (.inl hs))
    | error e => exact net.Step.scheduleClose (h.receiving (.inl hs))
    | _ => exact .inl rfl
  | cut hs =>
    unfold Connection.cut
    split
    · exact .inl rfl
    · exact net.Step.scheduleClose (h.receiving (.inr hs))
    · exact .inl rfl
  | throw => exact .inl rfl
  | lookAgain hs hr =>
    unfold Connection.lookAgain
    split
    · exact .inl rfl
    · rename_i hc
      split
      · exact .inr (.writable hr (by simpa using hc))
      · exact .inl rfl
  | flush hstep _ _ => exact .inr hstep

end Exclusive

variable {limit : UInt32} {frameHandler closeHandler : Bool} {s : Connection}

theorem Reachable.exclusive (h : s.Reachable limit frameHandler closeHandler) : s.Exclusive := by
  induction h with
  | refl => exact ⟨nofun, nofun⟩
  | tail _ hstep ih =>
    cases hstep with
    | act _ ha => exact ih.act ha
    | destroy => exact ih

theorem Reachable.link (h : s.Reachable limit frameHandler closeHandler) :
    s.link.Reachable limit := by
  induction h with
  | refl => exact .refl
  | tail hreach hstep ih =>
    cases hstep with
    | act _ ha =>
      rcases ha.link (Reachable.exclusive hreach) with heq | hnext
      · rwa [heq]
      · exact ih.tail hnext
    | destroy => exact ih

def ending (s : Connection) : List Effect :=
  if s.link.closed then
    match s.link.reactor, s.spot with
    | .removing, _ => [.closed]
    | _, .removed => [.closed, .remove]
    | _, .released => [.closed, .remove, .socketClose]
    | _, _ => [.closed, .remove, .socketClose] ++ if s.closeHandler then [.onClose] else []
  else if s.destroyed then [.socketClose] else []

/-- The connection has worked, and then closed as far as it has come. -/
structure Traced (s : Connection) : Prop where
  log : ∃ work, (∀ e ∈ work, e.works = true) ∧ s.log = work ++ s.ending
  fd : s.fd = true ↔ .socketClose ∉ s.ending

section Traced

variable {s' : Connection} {es : List Effect}

theorem ending_open (hopen : s.link.closed = false) (hd : s.destroyed = false) : s.ending = [] := by
  simp [ending, hopen, hd]

theorem Traced.closes (h : s.Traced) (es : List Effect) (hlog : s'.log = s.log ++ es)
    (hending : s'.ending = s.ending ++ es)
    (hfd : s'.fd = true ↔ .socketClose ∉ s'.ending) : s'.Traced where
  log := by
    obtain ⟨work, hwork, heq⟩ := h.log
    exact ⟨work, hwork, by rw [hlog, hending, heq, List.append_assoc]⟩
  fd := hfd

theorem Traced.same (h : s.Traced) (hlog : s'.log = s.log) (hending : s'.ending = s.ending)
    (hfd : s'.fd = s.fd) : s'.Traced :=
  h.closes [] (by simpa using hlog) (by simpa using hending) (by rw [hfd, hending]; exact h.fd)

theorem Traced.works (h : s.Traced) (hs : s.link.closed = false ∧ s.destroyed = false)
    (hs' : s'.link.closed = false ∧ s'.destroyed = false) (hes : ∀ e ∈ es, e.works = true)
    (hlog : s'.log = s.log ++ es) (hfd : s'.fd = s.fd) : s'.Traced where
  log := by
    obtain ⟨work, hwork, heq⟩ := h.log
    rw [ending_open hs.1 hs.2, List.append_nil] at heq
    refine ⟨work ++ es, ?_, by rw [hlog, heq, ending_open hs'.1 hs'.2, List.append_nil]⟩
    intro e he
    exact (List.mem_append.mp he).elim (hwork e) (hes e)
  fd := by
    rw [hfd, h.fd, ending_open hs.1 hs.2, ending_open hs'.1 hs'.2]

theorem Traced.stays (h : s.Traced) (hs : s.link.closed = false ∧ s.destroyed = false)
    (hs' : s'.link.closed = false ∧ s'.destroyed = false) (hlog : s'.log = s.log)
    (hfd : s'.fd = s.fd) : s'.Traced :=
  h.same hlog (by rw [ending_open hs.1 hs.2, ending_open hs'.1 hs'.2]) hfd

theorem flushEffects_works (l l' : Link) : ∀ e ∈ l.flushEffects l', e.works = true := by
  intro e he
  unfold Link.flushEffects at he
  rcases List.mem_append.mp he with he | he
  · split at he
    · rw [List.mem_singleton.mp he]
      rfl
    · cases he
  · split at he
    · rw [List.mem_singleton.mp he]
      rfl
    · rw [List.mem_singleton.mp he]
      rfl
    · cases he

theorem Traced.act (h : s.Traced) (hx : s.Exclusive) (hd : s.destroyed = false) (ha : Act s s') :
    s'.Traced := by
  cases ha with
  | call hstep ht =>
    obtain ⟨hreactor, hclosed⟩ := hstep.of_call ht
    exact h.same rfl (by simp [ending, hreactor, hclosed]) rfl
  | swap => exact h.same rfl rfl rfl
  | runFlush _ hr => exact h.same rfl (by cases hc : s.link.closed <;> simp [ending, hc, hr]) rfl
  | runSchedule hs hr => exact h.same rfl (by cases s.link.closing <;> simp [ending, hr, hs]) rfl
  | runDeliver hs hr =>
    cases hc : s.link.closed with
    | true => exact h.same (by simp) (by simp [ending, hc, hr]) rfl
    | false =>
      have hfd := h.fd
      refine h.closes [.closed] (by simp) (by simp [ending, hc, hd]) ?_
      simpa [ending, hc, hd] using hfd
  | remove hr =>
    obtain ⟨hs, hc⟩ := hx.removing hr
    have hfd := h.fd
    refine h.closes [.remove] rfl (by simp [ending, hc, hr]) ?_
    simpa [ending, hc, hr] using hfd
  | socketClose hs =>
    obtain ⟨hc, hr⟩ := hx.leaving (.inl hs)
    have hfd := h.fd
    have hvalid : s.fd = true := by simpa [ending, hc, hr, hs] using hfd
    exact h.closes [.socketClose] (by simp [hvalid]) (by simp [ending, hc, hr, hs])
      (by simp [ending, hc, hr])
  | onClose hs =>
    obtain ⟨hc, hr⟩ := hx.leaving (.inr hs)
    have hfd := h.fd
    refine h.closes _ rfl (by simp [ending, hc, hr, hs]) ?_
    simpa [ending, hc, hr, hs] using hfd
  | post hr => exact h.same rfl (by cases hs : s.spot <;> simp [ending, Link.post, hr, hs]) rfl
  | event hs hr read write =>
    refine h.same rfl ?_ rfl
    cases hc : s.link.closed <;> simp [ending, hc, hs]
  | recv hs x =>
    have hopen := hx.receiving (.inl hs)
    have hrecv : ∀ e ∈ [Effect.recv], e.works = true := by decide
    cases x with
    | eof => exact h.works ⟨hopen.1, hd⟩ ⟨(Link.scheduleClose_open hopen).1, hd⟩ hrecv rfl rfl
    | error e => exact h.works ⟨hopen.1, hd⟩ ⟨(Link.scheduleClose_open hopen).1, hd⟩ hrecv rfl rfl
    | _ => exact h.works ⟨hopen.1, hd⟩ ⟨hopen.1, hd⟩ hrecv rfl rfl
  | cut hs =>
    have hopen := hx.receiving (.inr hs)
    unfold Connection.cut
    split
    · exact h.stays ⟨hopen.1, hd⟩ ⟨hopen.1, hd⟩ rfl rfl
    · exact h.stays ⟨hopen.1, hd⟩ ⟨(Link.scheduleClose_open hopen).1, hd⟩ rfl rfl
    · refine h.works ⟨hopen.1, hd⟩ ⟨hopen.1, hd⟩ ?_ rfl rfl
      intro e he
      split at he
      · rw [List.mem_singleton.mp he]
        rfl
      · cases he
  | throw hs =>
    have hopen := (hx.receiving hs).1
    exact h.stays ⟨hopen, hd⟩ ⟨hopen, hd⟩ rfl rfl
  | lookAgain hs hr =>
    have hopen := (hx.received hs).1
    unfold Connection.lookAgain
    split
    · exact h.stays ⟨hopen, hd⟩ ⟨hopen, hd⟩ rfl rfl
    · split
      · exact h.stays ⟨hopen, hd⟩ ⟨hopen, hd⟩ rfl rfl
      · exact h.stays ⟨hopen, hd⟩ ⟨hopen, hd⟩ rfl rfl
  | flush hstep _ hr =>
    have hopen := (hx.flushing hr).2
    exact h.works ⟨hopen, hd⟩ ⟨(hstep.of_flush hr).1.trans hopen, hd⟩ (flushEffects_works _ _) rfl
      rfl

theorem Traced.destroy (h : s.Traced) (hd : s.destroyed = false) (hs : s.spot = .idle)
    (hr : s.link.reactor = .idle) :
    Traced { s with
      destroyed := true, fd := false, log := s.log ++ if s.fd then [.socketClose] else [] } := by
  have hfd := h.fd
  cases hc : s.link.closed with
  | false =>
    have hvalid : s.fd = true := by simpa [ending, hc, hd] using hfd
    exact h.closes [.socketClose] (by simp [hvalid]) (by simp [ending, hc, hd])
      (by simp [ending, hc])
  | true =>
    have hgone : s.fd = false := by simpa [ending, hc, hs, hr] using hfd
    exact h.same (by simp [hgone]) (by simp [ending, hc]) hgone.symm

end Traced

theorem Reachable.traced (h : s.Reachable limit frameHandler closeHandler) : s.Traced := by
  induction h with
  | refl => exact ⟨⟨[], nofun, rfl⟩, by simp [start, ending, Link.start]⟩
  | tail hreach hstep ih =>
    cases hstep with
    | act hd ha => exact ih.act (Reachable.exclusive hreach) hd ha
    | destroy hd hs hr => exact ih.destroy hd hs hr

theorem ending_sublist (s : Connection) :
    s.ending.Sublist [.closed, .remove, .socketClose, .onClose] := by
  unfold ending
  split
  · split
    · decide
    · decide
    · decide
    · split <;> decide
  · split <;> decide

theorem Traced.count_le (h : s.Traced) {e : Effect} (he : e.works = false) :
    s.log.count e ≤ [Effect.closed, .remove, .socketClose, .onClose].count e := by
  obtain ⟨work, hwork, hlog⟩ := h.log
  have hnone : work.count e = 0 := by
    rw [List.count_eq_zero]
    intro hmem
    rw [hwork e hmem] at he
    cases he
  rw [hlog, List.count_append, hnone, Nat.zero_add]
  exact s.ending_sublist.count_le e

theorem Traced.closed_iff (h : s.Traced) : s.link.closed = true ↔ .closed ∈ s.log := by
  obtain ⟨work, hwork, hlog⟩ := h.log
  have hopen : .closed ∉ work := fun hmem => nomatch hwork _ hmem
  rw [hlog, List.mem_append, or_iff_right hopen, ending]
  split
  · split <;> simp_all
  · split <;> simp_all

theorem closes_once (h : s.Reachable limit frameHandler closeHandler) :
    s.log.count .onClose ≤ 1 ∧ s.log.count .socketClose ≤ 1 ∧ s.log.count .remove ≤ 1 ∧
      (s.link.closed = true ↔ .closed ∈ s.log) ∧
      ∀ pre post, s.log = pre ++ .closed :: post →
        ∀ e ∈ post, e = .remove ∨ e = .socketClose ∨ e = .onClose := by
  have ht := h.traced
  refine ⟨ht.count_le rfl, ht.count_le rfl, ht.count_le rfl, ht.closed_iff, ?_⟩
  obtain ⟨work, hwork, hlog⟩ := ht.log
  have hopen : ∀ e ∈ work, e ≠ .closed := by
    rintro e he rfl
    cases hwork _ he
  have hsilent : s.log.Pairwise fun e e' => e = .closed → e' = .remove ∨ e' = .socketClose ∨
      e' = .onClose := by
    rw [hlog, List.pairwise_append]
    refine ⟨?_, List.Pairwise.sublist s.ending_sublist (by decide), ?_⟩
    · exact List.pairwise_of_forall_mem_list fun e he _ _ hclosed => absurd hclosed (hopen e he)
    · exact fun e he _ _ hclosed => absurd hclosed (hopen e he)
  intro pre post heq e he
  rw [heq, List.pairwise_append, List.pairwise_cons] at hsilent
  exact hsilent.2.1.1 e he rfl

theorem closes_once_hangUp :
    ∃ s : Connection, s.Reachable 8 true true ∧
      s.log = [.recv, .onFrame [7], .recv, .closed, .remove, .socketClose, .onClose] ∧
      s.destroyed = true ∧ s.log.count .socketClose ≤ 1 := by
  -- The peer sends a frame and hangs up; an event and the destructor come after the close.
  have hreach : ∃ s : Connection, s.Reachable 8 true true ∧
      s.log = [.recv, .onFrame [7], .recv, .closed, .remove, .socketClose, .onClose] ∧
        s.destroyed = true := by
    refine ⟨?last, ?reached, ?seen⟩
    case reached =>
      refine .head (.act rfl (.event rfl rfl true false)) ?_
      refine .head (.act rfl (.recv rfl (.data ⟨[0, 0, 0, 1, 7], by decide, by decide⟩))) ?_
      refine .head (.act rfl (.cut rfl)) ?_
      refine .head (.act rfl (.cut rfl)) ?_
      refine .head (.act rfl (.recv rfl .eof)) ?_
      refine .head (.act rfl (.post rfl)) ?_
      refine .head (.act rfl (.lookAgain rfl rfl)) ?_
      refine .head (.act rfl (.swap rfl rfl rfl)) ?_
      refine .head (.act rfl (.runDeliver rfl rfl rfl)) ?_
      refine .head (.act rfl (.remove rfl)) ?_
      refine .head (.act rfl (.socketClose rfl)) ?_
      refine .head (.act rfl (.onClose rfl)) ?_
      refine .head (.act rfl (.event rfl rfl true true)) ?_
      refine .head (.destroy rfl rfl rfl fun _ => rfl) ?_
      exact .refl
    case seen => exact ⟨by decide, rfl⟩
  obtain ⟨s, hs, hlog, hd⟩ := hreach
  exact ⟨s, hs, hlog, hd, (closes_once hs).2.1⟩

end Connection

end net

end ChatServer
