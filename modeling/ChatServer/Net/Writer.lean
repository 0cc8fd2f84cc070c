import Mathlib.Logic.Function.Basic
import Mathlib.Logic.Relation
import ChatServer.Net.Framing

/-! The write side of a connection.  Any thread may append frames to the write buffer; the
reactor thread flushes the buffer to the socket, in closures that are posted to it and
when the socket becomes writable.  Every access to shared state is one step. -/

namespace ChatServer

open Lib protocol

namespace net

inductive Closure : Type
  | flush : Closure
  | scheduleClose : Closure
  | deliverClose : Closure

inductive Interest : Type
  | read : Interest
  | readWrite : Interest

/-- Where a thread is in a call of `send_frame` or of `schedule_close`: `entered` before
`closing_` is read, `unclosing` before `closed_` is read, `cleared` before the lock is
taken, `appended` and `claimed` before the post. -/
inductive Call : Type
  | idle : Call
  | entered : Bytes → Call
  | unclosing : Bytes → Call
  | cleared : Bytes → Call
  | appended : Call
  | claimed : Call

/-- Where the reactor thread is.  A flush holds the lock: `flushing` in front of the loop
test, `arming` and `disarming` between the change of the interest and that of the flag,
`failing` before the post.  `claimed` and `removing` belong to the closing. -/
inductive Activity : Type
  | idle : Activity
  | flushing : Activity
  | arming : Activity
  | disarming : Activity
  | failing : Activity
  | claimed : Activity
  | removing : Activity

def Activity.flushes : Activity → Bool
  | .flushing | .arming | .disarming | .failing => true
  | _ => false

/-- The write state of a connection, the reactor's part in it, the threads, the bytes the
socket has accepted and the payloads of the accepted calls in the order of the lock.
The reactor has swapped `batch` out of its post queue `pending`. -/
structure Link where
  maxFrame : UInt32
  wbuf : Bytes
  writeArmed : Bool
  closing : Bool
  closed : Bool
  interest : Option Interest
  pending : List Closure
  batch : List Closure
  reactor : Activity
  threads : Nat → Call
  sent : Bytes
  accepted : List Bytes

namespace Link

def start (limit : UInt32) : Link :=
  ⟨limit, [], false, false, false, some .read, [], [], .idle, fun _ => .idle, [], []⟩

def move (l : Link) (i : Nat) (c : Call) : Link :=
  { l with threads := Function.update l.threads i c }

def post (l : Link) (f : Closure) : Link := { l with pending := l.pending ++ [f] }

def append (l : Link) (p : Bytes) : Link :=
  { l with
    wbuf := l.wbuf ++ lengthHeader p.length.toUInt32 ++ p
    accepted := l.accepted ++ [p] }

end Link

open Link in
inductive Step (l : Link) : Link → Prop
  | enter {i : Nat} (h : l.threads i = .idle) (p : Bytes) : Step l (l.move i (.entered p))
  | refuse {i : Nat} {p : Bytes} (h : l.threads i = .entered p) (hc : l.closing = true) :
      Step l (l.move i .idle)
  | pass {i : Nat} {p : Bytes} (h : l.threads i = .entered p) (hc : l.closing = false) :
      Step l (l.move i (.unclosing p))
  | drop {i : Nat} {p : Bytes} (h : l.threads i = .unclosing p)
      (hc : l.closed = true ∨ l.maxFrame.toNat < p.length) : Step l (l.move i .idle)
  | clear {i : Nat} {p : Bytes} (h : l.threads i = .unclosing p) (hc : l.closed = false)
      (hsize : p.length ≤ l.maxFrame.toNat) : Step l (l.move i (.cleared p))
  | append {i : Nat} {p : Bytes} (h : l.threads i = .cleared p)
      (hlock : l.reactor.flushes = false) :
      Step l ((l.append p).move i .appended)
  | postFlush {i : Nat} (h : l.threads i = .appended) : Step l ((l.post .flush).move i .idle)
  | claim {i : Nat} (h : l.threads i = .idle) (hc : l.closing = false) :
      Step l ({ l with closing := true }.move i .claimed)
  | postClose {i : Nat} (h : l.threads i = .claimed) : Step l ((l.post .deliverClose).move i .idle)
  | swap (hr : l.reactor = .idle) (hb : l.batch = []) :
      Step l { l with batch := l.pending, pending := [] }
  | runFlush {rest : List Closure} (hr : l.reactor = .idle) (hb : l.batch = .flush :: rest) :
      Step l { l with batch := rest, reactor := if l.closed then .idle else .flushing }
  | runSchedule {rest : List Closure} (hr : l.reactor = .idle)
      (hb : l.batch = .scheduleClose :: rest) :
      Step l { l with
        batch := rest, closing := true, reactor := if l.closing then .idle else .claimed }
  | runDeliver {rest : List Closure} (hr : l.reactor = .idle)
      (hb : l.batch = .deliverClose :: rest) :
      Step l { l with
        batch := rest, closed := true, reactor := if l.closed then .idle else .removing }
  | writable (hr : l.reactor = .idle) (hc : l.closed = false) :
      Step l { l with reactor := .flushing }
  | readEnd (hr : l.reactor = .idle) (hc : l.closed = false) (hcl : l.closing = false) :
      Step l { l with closing := true, reactor := .claimed }
  | claimed (hr : l.reactor = .claimed) : Step l { l.post .deliverClose with reactor := .idle }
  | remove (hr : l.reactor = .removing) : Step l { l with interest := none, reactor := .idle }
  | send {n : Nat} (hr : l.reactor = .flushing) (hpos : 0 < n) (hn : n ≤ l.wbuf.length) :
      Step l { l with sent := l.sent ++ l.wbuf.take n, wbuf := l.wbuf.drop n }
  | interrupted (hr : l.reactor = .flushing) (hw : l.wbuf ≠ []) : Step l l
  | full (hr : l.reactor = .flushing) (hw : l.wbuf ≠ []) (ha : l.writeArmed = true) :
      Step l { l with reactor := .idle }
  | arm (hr : l.reactor = .flushing) (hw : l.wbuf ≠ []) (ha : l.writeArmed = false) :
      Step l { l with interest := some .readWrite, reactor := .arming }
  | armed (hr : l.reactor = .arming) : Step l { l with writeArmed := true, reactor := .idle }
  | broken (hr : l.reactor = .flushing) (hw : l.wbuf ≠ []) : Step l { l with reactor := .failing }
  | failed (hr : l.reactor = .failing) : Step l { l.post .scheduleClose with reactor := .idle }
  | flushed (hr : l.reactor = .flushing) (hw : l.wbuf = []) (ha : l.writeArmed = false) :
      Step l { l with reactor := .idle }
  | disarm (hr : l.reactor = .flushing) (hw : l.wbuf = []) (ha : l.writeArmed = true) :
      Step l { l with interest := some .read, reactor := .disarming }
  | disarmed (hr : l.reactor = .disarming) : Step l { l with writeArmed := false, reactor := .idle }

abbrev Link.Reachable (limit : UInt32) (l : Link) : Prop :=
  Relation.ReflTransGen Step (.start limit) l

def Call.Fits (limit : UInt32) : Call → Prop
  | .cleared p => p.length ≤ limit.toNat
  | _ => True

namespace Link

section Moves

variable {l : Link} {i : Nat} {c : Call}

@[simp] theorem move_self : (l.move i c).threads i = c := Function.update_self ..

theorem move_of_ne {j : Nat} (h : j ≠ i) : (l.move i c).threads j = l.threads j :=
  Function.update_of_ne h ..

theorem exists_move {P : Call → Prop} (hi : ¬P (l.threads i)) (h : ∃ j, P (l.threads j)) :
    ∃ j, P ((l.move i c).threads j) := by
  obtain ⟨j, hj⟩ := h
  have hne : j ≠ i := by
    rintro rfl
    exact hi hj
  refine ⟨j, ?_⟩
  rwa [move_of_ne hne]

theorem forall_move {P : Call → Prop} (hc : P c) (h : ∀ j, P (l.threads j)) (j : Nat) :
    P ((l.move i c).threads j) := by
  by_cases hj : j = i
  · subst hj
    rwa [move_self]
  · rw [move_of_ne hj]
    exact h j

end Moves

structure Framed (limit : UInt32) (l : Link) : Prop where
  limited : l.maxFrame = limit
  stream : l.sent ++ l.wbuf = l.accepted.flatMap frame
  checked : ∀ i, (l.threads i).Fits limit
  fits : ∀ p ∈ l.accepted, p.length ≤ limit.toNat

theorem framed_start (limit : UInt32) : (start limit).Framed limit :=
  ⟨rfl, rfl, fun _ => trivial, fun _ h => absurd h List.not_mem_nil⟩

theorem Framed.move {limit : UInt32} {l : Link} {i : Nat} {c : Call} (h : l.Framed limit)
    (hc : c.Fits limit) : (l.move i c).Framed limit :=
  { h with checked := forall_move hc h.checked }

theorem Framed.append {limit : UInt32} {l : Link} {p : Bytes} (h : l.Framed limit)
    (hp : p.length ≤ limit.toNat) : (l.append p).Framed limit where
  limited := h.limited
  stream := by
    change l.sent ++ (l.wbuf ++ lengthHeader p.length.toUInt32 ++ p) =
      (l.accepted ++ [p]).flatMap frame
    rw [List.append_assoc, ← List.append_assoc l.sent, h.stream, List.flatMap_append]
    simp [frame]
  checked := h.checked
  fits := by
    intro q hq
    rcases List.mem_append.mp hq with hq | hq
    · exact h.fits q hq
    · rwa [List.mem_singleton.mp hq]

theorem Framed.step {limit : UInt32} {l l' : Link} (h : l.Framed limit) (hstep : Step l l') :
    l'.Framed limit := by
  cases hstep with
  | enter _ p => exact h.move trivial
  | refuse => exact h.move trivial
  | pass => exact h.move trivial
  | drop => exact h.move trivial
  | clear _ _ hsize => exact h.move (by rwa [h.limited] at hsize)
  | @append i p hi =>
    have hp := h.checked i
    rw [hi] at hp
    exact (h.append hp).move trivial
  | postFlush => exact Framed.move (l := l.post .flush) { h with } trivial
  | claim => exact Framed.move (l := { l with closing := true }) { h with } trivial
  | postClose => exact Framed.move (l := l.post .deliverClose) { h with } trivial
  | send _ _ hn =>
    refine { h with stream := ?_ }
    rw [List.append_assoc, List.take_append_drop, h.stream]
  | _ => exact { h with }

theorem Reachable.framed {limit : UInt32} {l : Link} (h : l.Reachable limit) : l.Framed limit := by
  induction h with
  | refl => exact framed_start limit
  | tail _ hstep ih => exact ih.step hstep

end Link

def midFrame : Link :=
  let l := ((((Link.start 8).move 0 (.entered [7])).move 0 (.unclosing [7])).move 0
    (.cleared [7])).append [7]
  { (l.move 0 .appended).move 0 .idle with
    sent := [0, 0, 0]
    wbuf := [1, 7]
    interest := some .readWrite
    writeArmed := true }

theorem reachable_midFrame : midFrame.Reachable 8 := by
  refine .head (.enter (i := 0) rfl [7]) ?_
  refine .head (.pass (i := 0) rfl rfl) ?_
  refine .head (.clear (i := 0) rfl rfl (by decide)) ?_
  refine .head (.append (i := 0) rfl rfl) ?_
  refine .head (.postFlush (i := 0) rfl) ?_
  refine .head (.swap rfl rfl) ?_
  refine .head (.runFlush rfl rfl) ?_
  refine .head (.send (n := 3) rfl (by decide) (by decide)) ?_
  refine .head (.arm rfl (by decide) rfl) ?_
  exact .single (.armed rfl)

theorem stream_intact {limit : UInt32} {l : Link} (h : l.Reachable limit) :
    l.sent ++ l.wbuf = l.accepted.flatMap frame ∧
      ((∀ p ∈ l.accepted, 1 ≤ p.length) → ∀ chunks : List Bytes, chunks.flatten <+: l.sent →
        ∃ (outs : List (List Bytes)) (tail : Bytes),
          ((FrameDecoder.fresh limit).feedAll chunks).1 = outs.map .ok ∧
          outs.flatten <+: l.accepted ∧
            chunks.flatten = outs.flatten.flatMap frame ++ tail ∧
            (wire limit).cut tail = .more) := by
  have hframed := h.framed
  refine ⟨hframed.stream, ?_⟩
  intro hpos chunks hread
  have hall : ∀ p ∈ l.accepted, Sendable limit p := fun p hp => ⟨hpos p hp, hframed.fits p hp⟩
  have hbeginning : chunks.flatten <+: l.accepted.flatMap frame := by
    rw [← hframed.stream]
    exact hread.trans (List.prefix_append ..)
  obtain ⟨whole, tail, hwhole, hchunks, htail⟩ := beginning_frames hall hbeginning
  have hparse := parse_frames (fun p hp => hall p (hwhole.subset hp)) htail
  rw [← hchunks] at hparse
  obtain ⟨outs, hok, houts, -⟩ :=
    FrameDecoder.feedAll_spec (FrameDecoder.waits_fresh limit) chunks rfl
    (by rw [List.nil_append, hparse])
  rw [List.nil_append, hparse] at houts
  subst houts
  exact ⟨outs, tail, hok, hwhole, hchunks, htail⟩

theorem stream_intact_midFrame :
    midFrame.sent ++ midFrame.wbuf = [0, 0, 0, 1, 7] ∧
      ∃ (outs : List (List Bytes)) (tail : Bytes),
        ((FrameDecoder.fresh 8).feedAll [[0], [0, 0]]).1 = outs.map .ok ∧ outs.flatten <+: [[7]] ∧
          [0, 0, 0] = outs.flatten.flatMap frame ++ tail ∧ (wire 8).cut tail = .more :=
  ⟨rfl, (stream_intact reachable_midFrame).2 (by decide) [[0], [0, 0]] (by decide)⟩

def Call.posts : Call → Bool
  | .appended | .claimed => true
  | _ => false

def Interest.of (armed : Bool) : Interest := if armed then .readWrite else .read

namespace Link

def posted (l : Link) : List Closure := l.batch ++ l.pending

def Posting (l : Link) : Prop := (∃ i, (l.threads i).posts = true) ∨ l.reactor = .claimed

def Closes (l : Link) : Prop :=
  .deliverClose ∈ l.posted ∨ (∃ i, l.threads i = .claimed) ∨ l.reactor = .claimed

def Moves (l : Link) : Prop :=
  l.writeArmed = true ∨ l.posted ≠ [] ∨ l.Posting ∨ l.reactor.flushes = true

def Masked (l : Link) : Prop :=
  match l.reactor with
  | .arming => l.interest = some .readWrite
  | .disarming => l.interest = some .read ∧ l.wbuf = []
  | .removing => False
  | _ => l.interest = some (.of l.writeArmed)

structure Lively (l : Link) : Prop where
  closes : l.closing = true → l.closed = false → l.Closes
  moves : l.closed = false → l.wbuf ≠ [] → l.Moves
  masked : l.closed = false → l.Masked

theorem lively_start (limit : UInt32) : (start limit).Lively where
  closes h := by cases h
  moves _ h := absurd rfl h
  masked _ := rfl

theorem lively_of_closed {l : Link} (h : l.closed = true) : l.Lively where
  closes _ ho := absurd ho (by simp [h])
  moves ho := absurd ho (by simp [h])
  masked ho := absurd ho (by simp [h])

theorem Closes.moves {l : Link} (h : l.Closes) : l.Moves := by
  rcases h with hmem | ⟨i, hi⟩ | hr
  · exact .inr (.inl (List.ne_nil_of_mem hmem))
  · exact .inr (.inr (.inl (.inl ⟨i, by rw [hi]; rfl⟩)))
  · exact .inr (.inr (.inl (.inr hr)))

theorem Lively.move {l : Link} {i : Nat} {c : Call} (h : l.Lively)
    (hi : (l.threads i).posts = false) : (l.move i c).Lively where
  closes hclosing hopen := by
    rcases h.closes hclosing hopen with hmem | hclaimed | hr
    · exact .inl hmem
    · refine .inr (.inl (exists_move (P := (· = .claimed)) ?_ hclaimed))
      intro heq
      rw [heq] at hi
      cases hi
    · exact .inr (.inr hr)
  moves hopen hw := by
    rcases h.moves hopen hw with harmed | hposted | (hthread | hr) | hflush
    · exact .inl harmed
    · exact .inr (.inl hposted)
    · exact .inr
        (.inr (.inl (.inl (exists_move (P := fun c => c.posts = true) (by simp [hi]) hthread))))
    · exact .inr (.inr (.inl (.inr hr)))
    · exact .inr (.inr (.inr hflush))
  masked := h.masked

theorem Lively.posts {l : Link} {i : Nat} {f : Closure} (h : l.Lively)
    (hi : l.threads i = .claimed → f = .deliverClose) : ((l.post f).move i .idle).Lively where
  closes hclosing hopen := by
    have hposted : ((l.post f).move i .idle).posted = l.posted ++ [f] := (List.append_assoc ..).symm
    by_cases hclaimed : l.threads i = .claimed
    · refine .inl ?_
      rw [hposted, hi hclaimed]
      exact List.mem_append_right _ (List.mem_singleton_self _)
    · rcases h.closes hclosing hopen with hmem | hother | hr
      · refine .inl ?_
        rw [hposted]
        exact List.mem_append_left _ hmem
      · exact .inr (.inl (exists_move (l := l.post f) (P := (· = .claimed)) hclaimed hother))
      · exact .inr (.inr hr)
  moves _ _ := by
    refine .inr (.inl ?_)
    simp [posted, Link.move, post]
  masked := h.masked

section Reactor

variable {l l' : Link}

theorem Closes.reactor (h : l.Closes) (hthreads : l'.threads = l.threads)
    (hr : l.reactor ≠ .claimed)
    (hposted : .deliverClose ∈ l.posted → .deliverClose ∈ l'.posted) : l'.Closes := by
  rcases h with hmem | hclaimed | hclaimed
  · exact .inl (hposted hmem)
  · rw [← hthreads] at hclaimed
    exact .inr (.inl hclaimed)
  · exact absurd hclaimed hr

theorem Lively.flush (h : l.Lively) (hr : l.reactor.flushes = true)
    (hthreads : l'.threads = l.threads)
    (hposted : l'.posted = l.posted) (hclosing : l'.closing = l.closing)
    (hclosed : l'.closed = l.closed)
    (hgoes : l'.reactor.flushes = true ∨ l'.writeArmed = true ∨ l'.wbuf = [])
    (hmasked : l.Masked → l'.Masked) : l'.Lively where
  closes hc ho := by
    rw [hclosing] at hc
    rw [hclosed] at ho
    refine (h.closes hc ho).reactor hthreads ?_ (by rw [hposted]; exact id)
    intro heq
    rw [heq] at hr
    cases hr
  moves _ hw := by
    rcases hgoes with hflush | harmed | hempty
    · exact .inr (.inr (.inr hflush))
    · exact .inl harmed
    · exact absurd hempty hw
  masked ho := by
    rw [hclosed] at ho
    exact hmasked (h.masked ho)

end Reactor

theorem Lively.append {l : Link} {i : Nat} {p : Bytes} (h : l.Lively)
    (hi : l.threads i = .cleared p)
    (hlock : l.reactor.flushes = false) : ((l.append p).move i .appended).Lively := by
  have hmove : (l.move i .appended).Lively := h.move (by rw [hi]; rfl)
  refine ⟨hmove.closes, fun _ _ => ?_, fun hopen => ?_⟩
  · exact .inr (.inr (.inl (.inl ⟨i, by rw [move_self]; rfl⟩)))
  · have hmasked := h.masked hopen
    -- the lock keeps the append out of the flush that relies on an empty buffer
    cases hr : l.reactor <;> simp_all [Masked, Link.move, Link.append, Activity.flushes]

theorem Lively.step {l l' : Link} (h : l.Lively) (hstep : Step l l') : l'.Lively := by
  cases hstep with
  | enter hi => exact h.move (by rw [hi]; rfl)
  | refuse hi => exact h.move (by rw [hi]; rfl)
  | pass hi => exact h.move (by rw [hi]; rfl)
  | drop hi => exact h.move (by rw [hi]; rfl)
  | clear hi => exact h.move (by rw [hi]; rfl)
  | append hi hlock => exact h.append hi hlock
  | postFlush hi => exact h.posts (by simp [hi])
  | @claim i hi =>
    have hclaimed : ∃ j, ({ l with closing := true }.move i .claimed).threads j = .claimed :=
      ⟨i, move_self⟩
    exact ⟨fun _ _ => .inr (.inl hclaimed), fun _ _ => Closes.moves (.inr (.inl hclaimed)),
      h.masked⟩
  | postClose hi => exact h.posts fun _ => rfl
  | swap hr hb =>
    have hposted : { l with batch := l.pending, pending := [] }.posted = l.posted := by
      simp [posted, hb]
    refine ⟨fun hc ho => ?_, fun ho hw => ?_, h.masked⟩
    · exact (h.closes hc ho).reactor rfl (by simp [hr]) (by rw [hposted]; exact id)
    · have hmoves := h.moves ho hw
      rwa [Moves, ← hposted] at hmoves
  | @runFlush rest hr hb =>
    refine ⟨fun hc ho => ?_, fun ho _ => ?_, fun ho => ?_⟩
    · exact (h.closes hc ho).reactor rfl (by simp [hr]) (by simp [posted, hb])
    · exact .inr (.inr (.inr (by simp [show l.closed = false from ho, Activity.flushes])))
    · have hmasked := h.masked ho
      simpa [Masked, hr, show l.closed = false from ho] using hmasked
  | @runSchedule rest hr hb =>
    have hcloses : l.closed = false →
        { l with
          batch := rest, closing := true, reactor :=
            if l.closing then .idle else .claimed }.Closes := by
      intro ho
      cases hc : l.closing with
      | false => exact .inr (.inr rfl)
      | true => exact (h.closes hc ho).reactor rfl (by simp [hr]) (by simp [posted, hb])
    refine ⟨fun _ => hcloses, fun ho _ => (hcloses ho).moves, fun ho => ?_⟩
    have hmasked := h.masked ho
    cases hc : l.closing <;> simpa [Masked, hr, hc] using hmasked
  | runDeliver => exact lively_of_closed rfl
  | writable hr ho =>
    refine ⟨fun hc ho => (h.closes hc ho).reactor rfl (by simp [hr]) id, fun _ _ =>
      .inr (.inr (.inr rfl)), fun ho => ?_⟩
    have hmasked := h.masked ho
    rwa [Masked, hr] at hmasked
  | readEnd hr ho hcl =>
    refine ⟨fun _ _ => .inr (.inr rfl), fun _ _ => Closes.moves (.inr (.inr rfl)), fun ho => ?_⟩
    have hmasked := h.masked ho
    rwa [Masked, hr] at hmasked
  | claimed hr =>
    have hcloses : { l.post .deliverClose with reactor := .idle }.Closes :=
      .inl (by simp [posted, post])
    refine ⟨fun _ _ => hcloses, fun _ _ => hcloses.moves, fun ho => ?_⟩
    have hmasked := h.masked ho
    rwa [Masked, hr] at hmasked
  | remove hr =>
    have hclosed : l.closed = true := by
      by_contra hopen
      have hmasked := h.masked (by simpa using hopen)
      rwa [Masked, hr] at hmasked
    exact lively_of_closed hclosed
  | send hr =>
      exact h.flush (by rw [hr]; rfl) rfl rfl rfl rfl (.inl (by rw [hr]; rfl))
        (by simp [Masked, hr])
  | interrupted => exact h
  | full hr _ ha =>
      exact h.flush (by rw [hr]; rfl) rfl rfl rfl rfl (.inr (.inl ha)) (by simp [Masked, hr])
  | arm hr => exact h.flush (by rw [hr]; rfl) rfl rfl rfl rfl (.inl rfl) (by simp [Masked])
  | armed hr =>
      exact h.flush (by rw [hr]; rfl) rfl rfl rfl rfl (.inr (.inl rfl))
        (by simp [Masked, hr, Interest.of])
  | broken hr => exact h.flush (by rw [hr]; rfl) rfl rfl rfl rfl (.inl rfl) (by simp [Masked, hr])
  | failed hr =>
    refine ⟨fun hc ho => ?_, fun _ _ => .inr (.inl (by simp [posted, post])), fun ho => ?_⟩
    · refine (h.closes hc ho).reactor rfl (by simp [hr]) fun hmem => ?_
      rw [posted, post, ← List.append_assoc]
      exact List.mem_append_left _ hmem
    · have hmasked := h.masked ho
      rwa [Masked, hr] at hmasked
  | flushed hr hw =>
      exact h.flush (by rw [hr]; rfl) rfl rfl rfl rfl (.inr (.inr hw)) (by simp [Masked, hr])
  | disarm hr hw =>
      exact h.flush (by rw [hr]; rfl) rfl rfl rfl rfl (.inl rfl) (by simp [Masked, hw])
  | disarmed hr =>
    by_cases hclosed : l.closed = true
    · exact lively_of_closed hclosed
    · have hmasked := h.masked (by simpa using hclosed)
      rw [Masked, hr] at hmasked
      exact h.flush (by rw [hr]; rfl) rfl rfl rfl rfl (.inr (.inr hmasked.2)) fun _ => hmasked.1

theorem Reachable.lively {limit : UInt32} {l : Link} (h : l.Reachable limit) : l.Lively := by
  induction h with
  | refl => exact lively_start limit
  | tail _ hstep ih => exact ih.step hstep

end Link

theorem write_never_stalls {limit : UInt32} {l : Link} (h : l.Reachable limit)
    (hopen : l.closed = false) :
    (l.wbuf ≠ [] → l.writeArmed = true ∨ l.posted ≠ [] ∨ l.Posting ∨ l.reactor.flushes = true) ∧
      (l.reactor.flushes = false → (l.writeArmed = true ↔ l.interest = some .readWrite)) := by
  refine ⟨h.lively.moves hopen, ?_⟩
  intro hrest
  have hmasked := h.lively.masked hopen
  have hagree : l.interest = some (.of l.writeArmed) := by
    cases hr : l.reactor <;> simp_all [Link.Masked, Activity.flushes]
  cases harmed : l.writeArmed <;> simp [hagree, harmed, Interest.of]

theorem write_never_stalls_midFrame :
    midFrame.closed = false ∧
    (midFrame.writeArmed = true ∨ midFrame.posted ≠ [] ∨ midFrame.Posting ∨
        midFrame.reactor.flushes = true) ∧
      (midFrame.writeArmed = true ↔ midFrame.interest = some .readWrite) :=
  ⟨rfl, (write_never_stalls reachable_midFrame rfl).1 (by decide),
    (write_never_stalls reachable_midFrame rfl).2 rfl⟩

end net

end ChatServer
