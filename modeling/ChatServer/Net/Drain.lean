import ChatServer.Lib.EdgeTriggered
import ChatServer.Net.Reader
import ChatServer.Net.Writer

namespace ChatServer

open Lib protocol

namespace net

inductive Accept : Type
  | connection : Nat → Accept
  | eagain : Accept
  | eintr : Accept
  | error : Nat → Accept
  deriving DecidableEq

def Accept.fails : Accept → Bool
  | .eintr => true
  | .error _ => true
  | _ => false

structure Listener where
  connections : List Nat
  deriving DecidableEq

def Listener.onListenEvent : Handler Listener Accept where
  test _ := none
  handle l
    | .connection fd => .again ⟨l.connections ++ [fd]⟩
    | .eagain => .leave l
    | .eintr => .leave l
    | .error _ => .leave l

def Reader.handler : Handler Reader Recv where
  test _ := none
  handle r
    | .data s =>
      match r.receive s with
      | (true, r') => .leave r'
      | (false, r') => .again r'
    | .eof => .leave r.scheduleClose
    | .eagain => .leave r
    | .eintr => .again r
    | .error _ => .leave r.scheduleClose

/-- The results of `send` on the buffer: it takes one byte more than the number, if there
are so many, or it fails. -/
inductive Send : Type
  | sent : Nat → Send
  | eagain : Send
  | eintr : Send
  | error : Nat → Send
  deriving DecidableEq

namespace Link

def modify (l : Link) (interest : Interest) (armed : Bool) : Link :=
  { l with interest := some interest, writeArmed := armed }

def onWritable : Handler Link Send where
  test l :=
    if l.wbuf = [] then some (if l.writeArmed then l.modify .read false else l) else none
  handle l
    | .sent n =>
      let taken := min (n + 1) l.wbuf.length
      .again { l with sent := l.sent ++ l.wbuf.take taken, wbuf := l.wbuf.drop taken }
    | .eagain => .leave (if l.writeArmed then l else l.modify .readWrite true)
    | .eintr => .again l
    | .error _ => .leave (l.post .scheduleClose)

end Link

namespace Reader

variable {r r' : Reader} {x : Recv}

theorem leave_cases (h : handler.handle r x = .leave r') :
    (∃ s, x = .data s ∧ r.receive s = (true, r')) ∨ x = .eagain ∧ r' = r ∨ x.ends = true ∧
    r' = r.scheduleClose := by
  cases x with
  | data s =>
    cases hs : r.receive s with
    | mk bad r₁ => cases bad <;> simp_all [handler]
  | eof => cases h; exact .inr (.inr ⟨rfl, rfl⟩)
  | eagain => cases h; exact .inr (.inl ⟨rfl, rfl⟩)
  | eintr => cases h
  | error e => cases h; exact .inr (.inr ⟨rfl, rfl⟩)

theorem again_cases (h : handler.handle r x = .again r') :
    (∃ s, x = .data s ∧ r.receive s = (false, r')) ∨ x = .eintr ∧ r' = r := by
  cases x with
  | data s =>
    cases hs : r.receive s with
    | mk bad r₁ => cases bad <;> simp_all [handler]
  | eof => cases h
  | eagain => cases h
  | eintr => cases h; exact .inr ⟨rfl, rfl⟩
  | error e => cases h

theorem handler_sound :
    handler.Sound fun r used r' => ∀ rest, r.onReadable (used ++ rest) = (r', rest) where
  test := nofun
  leave := by
    intro r x r' _ hx rest
    obtain ⟨s, rfl, hs⟩ | ⟨rfl, rfl⟩ | ⟨hends, rfl⟩ := leave_cases hx
    · simp [onReadable, hs]
    · rfl
    · cases x <;> first | rfl | cases hends
  again := by
    intro r x r₁ xs r' _ hx ih rest
    obtain ⟨s, rfl, hs⟩ | ⟨rfl, rfl⟩ := again_cases hx
    · simp [onReadable, hs, ih]
    · exact ih rest

theorem closing_of_receive {s : Segment} (h : r.receive s = (true, r')) : r'.closing = true := by
  have hfail : ∀ {r e r'}, loop.pass r = .fail e r' → r'.closing = true := by
    intro r e r' hpass
    have hsame := r.pass_same
    rw [show r.pass = .fail e r' from hpass] at hsame
    exact hsame.2.1
  obtain ⟨hbad, rfl⟩ := Prod.mk.inj h
  exact loop.scan_failed (P := fun r => r.closing = true) hfail hbad

theorem handler_drains {used rs : List Recv} (h : handler.run r rs = some (r', used)) :
    used.getLast? = some .eagain ∨ r'.closing = true := by
  obtain ⟨_, htest⟩ | ⟨r₁, x, hlast, hleave⟩ := Handler.run_leaves h
  · cases htest
  · obtain ⟨s, -, hs⟩ | ⟨rfl, -⟩ | ⟨-, rfl⟩ := leave_cases hleave
    · exact .inr (closing_of_receive hs)
    · exact .inl hlast
    · exact .inr rfl

end Reader

namespace Link

variable {l l' : Link}

theorem test_cases (h : onWritable.test l = some l') :
    l.wbuf = [] ∧ l' = if l.writeArmed then l.modify .read false else l := by
  obtain ⟨hw, heq⟩ := Option.ite_none_right_eq_some.mp h
  exact ⟨hw, (Option.some.inj heq).symm⟩

theorem onWritable_sound : onWritable.Sound fun l _ l' =>
    l.reactor = .flushing → Relation.ReflTransGen Step l { l' with reactor := .idle } where
  test := by
    intro l l' htest hr
    obtain ⟨hw, rfl⟩ := test_cases htest
    cases ha : l.writeArmed with
    | false => exact .single (.flushed hr hw ha)
    | true => exact .head (.disarm hr hw ha) (.single (.disarmed rfl))
  leave := by
    intro l x l' htest hx hr
    have hw : l.wbuf ≠ [] := by simpa [onWritable] using htest
    cases x with
    | sent n => cases hx
    | eagain =>
      cases hx
      cases ha : l.writeArmed with
      | false => exact .head (.arm hr hw ha) (.single (.armed rfl))
      | true => exact .single (.full hr hw ha)
    | eintr => cases hx
    | error e =>
      cases hx
      exact .head (.broken hr hw) (.single (.failed rfl))
  again := by
    intro l x l₁ xs l' htest hx ih hr
    have hw : l.wbuf ≠ [] := by simpa [onWritable] using htest
    cases x with
    | sent n =>
      cases hx
      have hpos : 0 < min (n + 1) l.wbuf.length := by
        have := List.length_pos_of_ne_nil hw
        omega
      exact .head (.send hr hpos (Nat.min_le_right ..)) (ih hr)
    | eagain => cases hx
    | eintr =>
      cases hx
      exact ih hr
    | error e => cases hx

theorem onWritable_drains {used xs : List Send} (h : onWritable.run l xs = some (l', used)) :
    used.getLast? = some .eagain ∨ l'.wbuf = [] ∨ .scheduleClose ∈ l'.pending := by
  obtain ⟨l₁, htest⟩ | ⟨l₁, x, hlast, hleave⟩ := Handler.run_leaves h
  · obtain ⟨hw, rfl⟩ := test_cases htest
    refine .inr (.inl ?_)
    split <;> exact hw
  · cases x with
    | sent n => cases hleave
    | eagain => exact .inl hlast
    | eintr => cases hleave
    | error e =>
      cases hleave
      exact .inr (.inr (List.mem_append_right _ List.mem_cons_self))

end Link

namespace Listener

variable {l l' : Listener} {used xs : List Accept}

theorem onListenEvent_sound : onListenEvent.Sound fun l used l' =>
    ∃ fds x, used = fds.map .connection ++ [x] ∧ (x = .eagain ∨ x.fails = true) ∧
      l'.connections = l.connections ++ fds where
  test := nofun
  leave := by
    intro l x l' _ hx
    cases x with
    | connection fd => cases hx
    | eagain => cases hx; exact ⟨[], _, rfl, .inl rfl, (List.append_nil _).symm⟩
    | eintr => cases hx; exact ⟨[], _, rfl, .inr rfl, (List.append_nil _).symm⟩
    | error e => cases hx; exact ⟨[], _, rfl, .inr rfl, (List.append_nil _).symm⟩
  again := by
    rintro l x l₁ xs l' - hx ⟨fds, y, rfl, hy, hconns⟩
    cases x with
    | connection fd =>
      cases hx
      exact ⟨fd :: fds, y, rfl, hy, by rw [hconns, List.append_assoc, List.singleton_append]⟩
    | eagain => cases hx
    | eintr => cases hx
    | error e => cases hx

theorem onListenEvent_drains_iff (h : onListenEvent.run l xs = some (l', used)) :
    used.getLast? = some .eagain ↔ ∀ x ∈ used, x.fails = false := by
  obtain ⟨fds, x, rfl, hx, -⟩ := onListenEvent_sound.run h
  have hfds : ∀ y ∈ fds.map Accept.connection, y.fails = false := by simp [Accept.fails]
  rw [List.getLast?_concat, Option.some.injEq]
  constructor
  · rintro rfl y hy
    obtain hy | hy := List.mem_append.mp hy
    · exact hfds y hy
    · cases List.mem_singleton.mp hy
      rfl
  · intro hall
    have hgood : x.fails = false := hall x (List.mem_append_right _ List.mem_cons_self)
    exact hx.resolve_right (by simp [hgood])

end Listener

def backlog : Kernel Nat Accept where
  answers
    | .connection _, k, k' => k = k' + 1
    | .eagain, k, k' => k = 0 ∧ k' = 0
    | .eintr, k, k' => k' = k
    | .error _, k, k' => k' ≤ k
  arrives k k' := k' = k + 1
  ready k := k ≠ 0

structure Inbound where
  bytes : Bytes
  ended : Bool

def inbound : Kernel Inbound Recv where
  answers
    | .data s, k, k' => k.bytes = s.bytes ++ k'.bytes ∧ k'.ended = k.ended
    | .eof, k, k' => k.bytes = [] ∧ k.ended = true ∧ k' = k
    | .eagain, k, k' => k.bytes = [] ∧ k.ended = false ∧ k' = k
    | .eintr, k, k' => k' = k
    | .error _, _, _ => True
  arrives k k' := ∃ bs, k'.bytes = k.bytes ++ bs ∧ (k.ended = true → k'.ended = true)
  ready k := k.bytes ≠ [] ∨ k.ended = true

theorem backlog_noticed {w : Watched Nat Listener}
    (h : Relation.ReflTransGen (Watched.Step backlog Listener.onListenEvent
      fun x => x.fails = false)
      ⟨0, false, false, ⟨[]⟩⟩ w) (hrun : w.running = false) (hready : w.kernel ≠ 0) :
      w.edge = true := by
  have hstart : Watched.Noticed backlog (fun _ => False) ⟨0, false, false, (⟨[]⟩ : Listener)⟩ :=
    fun _ hready => absurd rfl hready
  have hnoticed : w.Noticed backlog fun _ => False := by
    refine hstart.reachable (fun htest => by cases htest) ?_ h
    intro l x l' k k' hx hleave hk
    cases x with
    | connection fd => cases hleave
    | eagain => exact .inr (fun hready => hready hk.2)
    | eintr => cases hx
    | error e => cases hx
  exact (hnoticed hrun hready).resolve_right not_false

theorem inbound_noticed {limit : UInt32} {w : Watched Inbound Reader}
    (h : Relation.ReflTransGen (Watched.Step inbound Reader.handler fun _ => True)
      ⟨⟨[], false⟩, false, false, .fresh limit⟩ w) (hrun : w.running = false)
    (hready : w.kernel.bytes ≠ [] ∨ w.kernel.ended = true) : w.edge = true ∨
    w.state.closing = true := by
  have hstart : Watched.Noticed inbound (fun r => r.closing = true) ⟨⟨[], false⟩, false, false,
      Reader.fresh limit⟩ := by
    intro _ hready
    simp [inbound] at hready
  refine hstart.reachable (fun htest => by cases htest) ?_ h hrun hready
  intro r x r' k k' _ hleave hk
  obtain ⟨s, -, hs⟩ | ⟨rfl, -⟩ | ⟨-, rfl⟩ := Reader.leave_cases hleave
  · exact .inl (Reader.closing_of_receive hs)
  · obtain ⟨hbytes, hended, rfl⟩ := hk
    exact .inr (by simp [inbound, hbytes, hended])
  · exact .inl rfl

/-- A handler leaves only when the last call on its descriptor would have blocked, the
write buffer is empty or a close has been scheduled.  Of the listener this is true exactly
when no `accept` has failed otherwise; then no connection is left in its queue, and no data
is left unread, without an event to come. -/
theorem handlers_drain (limit : UInt32) :
    (∀ l xs l' used, Listener.onListenEvent.run l xs = some (l', used) →
      (used.getLast? = some .eagain ↔ ∀ x ∈ used, x.fails = false)) ∧
    (∀ r xs r' used, Reader.handler.run r xs = some (r', used) →
      used.getLast? = some .eagain ∨ r'.closing = true) ∧
    (∀ l xs l' used, Link.onWritable.run l xs = some (l', used) →
      used.getLast? = some .eagain ∨ l'.wbuf = [] ∨ .scheduleClose ∈ l'.pending) ∧
    (∀ w, Relation.ReflTransGen (Watched.Step backlog Listener.onListenEvent
      fun x => x.fails = false)
      ⟨0, false, false, ⟨[]⟩⟩ w → w.running = false → w.kernel ≠ 0 → w.edge = true) ∧
    ∀ w, Relation.ReflTransGen (Watched.Step inbound Reader.handler fun _ => True)
      ⟨⟨[], false⟩, false, false, .fresh limit⟩ w → w.running = false →
        w.kernel.bytes ≠ [] ∨ w.kernel.ended = true → w.edge = true ∨ w.state.closing = true :=
  ⟨fun _ _ _ _ => Listener.onListenEvent_drains_iff, fun _ _ _ _ => Reader.handler_drains,
    fun _ _ _ _ => Link.onWritable_drains, fun _ => backlog_noticed, fun _ => inbound_noticed⟩

theorem handlers_drain_two :
    Listener.onListenEvent.run ⟨[]⟩ [.connection 7, .connection 8, .eagain] =
      some (⟨[7, 8]⟩, [.connection 7, .connection 8, .eagain]) ∧
    [Accept.connection 7, .connection 8, .eagain].getLast? = some .eagain := by
  have hrun : Listener.onListenEvent.run ⟨[]⟩ [.connection 7, .connection 8, .eagain] =
      some (⟨[7, 8]⟩, [.connection 7, .connection 8, .eagain]) := rfl
  exact ⟨hrun, ((handlers_drain 8).1 _ _ _ _ hrun).mpr (by decide)⟩

theorem strands {x : Accept} (hleave : Listener.onListenEvent.handle ⟨[]⟩ x = .leave ⟨[]⟩)
    (hx : backlog.answers x 1 1) :
    Relation.ReflTransGen (Watched.Step backlog Listener.onListenEvent fun y => y = x)
      ⟨0, false, false, ⟨[]⟩⟩ ⟨1, false, false, ⟨[]⟩⟩ :=
  .head (.arrive (k := 1) rfl)
    (.head (.report rfl rfl) (.single (.leave (k := 1) rfl rfl rfl hx hleave)))

/-- After an interrupted call, or one without a free descriptor, the listener leaves with
a connection in its queue and no event to come. -/
theorem listener_strands :
    Listener.onListenEvent.run ⟨[]⟩ [.eintr] = some (⟨[]⟩, [.eintr]) ∧
    Listener.onListenEvent.run ⟨[]⟩ [.error 24] = some (⟨[]⟩, [.error 24]) ∧
    Relation.ReflTransGen (Watched.Step backlog Listener.onListenEvent fun x => x = .eintr)
      ⟨0, false, false, ⟨[]⟩⟩ ⟨1, false, false, ⟨[]⟩⟩ ∧
    Relation.ReflTransGen (Watched.Step backlog Listener.onListenEvent fun x => x = .error 24)
      ⟨0, false, false, ⟨[]⟩⟩ ⟨1, false, false, ⟨[]⟩⟩ :=
  ⟨rfl, rfl, strands rfl rfl, strands rfl (Nat.le_refl 1)⟩

end net

end ChatServer
