import ChatServer.Server.Known

namespace ChatServer

open Lib Lib.Prog

def RepoOp.announces (s : Store) : RepoOp → Option (Nat × Json)
  | .insertDm a b content ts =>
    some (s.nextMsgId, makeEventMessage (toI64 s.nextMsgId) (toI64 a) (some (toI64 b))
      none content ts)
  | .insertRoomMsg a r content ts =>
    some (s.nextMsgId, makeEventMessage (toI64 s.nextMsgId) (toI64 a) none
      (some (toI64 r)) content ts)
  | _ => none

def RepoOp.isFor (s : Store) (u : Nat) : RepoOp → Bool
  | .insertDm _ b _ _ => b = u
  | .insertRoomMsg a r _ _ => u ∈ s.members r ∧ a ≠ u
  | _ => false

def Op.news (w : World) (u : Nat) : Op → List (Nat × Json)
  | .repo o => if o.isFor w.store u then (o.announces w.store).toList else []
  | _ => []

def World.away (w : World) (u : Nat) : Bool := w.hasUser u ∧ w.slot u = ∅

/-- What was sent to user `u` since `u` has last had a connection, or was created. -/
def missed (u : Nat) (log : Log) : List (Nat × Json) :=
  (log.reverse.takeWhile fun e => e.before.away u).reverse.flatMap fun e => e.op.news e.before u

theorem missed_nil (u : Nat) : missed u [] = [] := rfl

theorem missed_concat (u : Nat) (log : Log) (e : Event Input Op World) :
    missed u (log ++ [e]) = if e.before.away u then missed u log ++
    e.op.news e.before u else [] := by
  unfold missed
  rw [List.reverse_append, List.reverse_singleton, List.singleton_append, List.takeWhile_cons]
  split
  · rw [List.reverse_cons, List.flatMap_append, List.flatMap_singleton]
  · rfl

def replayBlock (post : Log) : Log := post.takeWhile fun e => e.op.kind = .replay

def Op.frame : Op → Option (Nat × Json)
  | .sendFrame _ d j => some (d, j)
  | _ => none

def pushes (post : Log) : List (Nat × Json) := (replayBlock post).filterMap fun e => e.op.frame

inductive Replay : Type
  | woken : Nat → Nat → List (Nat × Json) → Replay
  | drained : Nat → Nat → List (Nat × Json) → Replay
  | pushing : List (Nat × Json) → Replay

def Replay.left : Replay → List (Nat × Json)
  | .woken _ _ left => left
  | .drained _ _ left => left
  | .pushing left => left

/-- What a task knows of the message it routes: its id and event, the users it is still
owed to if they are offline, its room with the members, a user found to be offline; and
its replay. -/
structure Mail where
  msg : Nat
  event : Option Json
  owed : Finset Nat
  room : Option (Nat × Finset Nat)
  offline : Option Nat
  replay : Replay

namespace Mail

def none : Mail := ⟨0, .none, ∅, .none, .none, .pushing []⟩

def Rest (t : Mail) : Prop := t.owed = ∅ ∧ t.replay = .pushing []

def allows (t : Mail) : Op → Prop
  | .repo (.drainUndelivered u) => t.owed = ∅ ∧ ∃ c left, t.replay = .woken u c left
  | .connectionsOf .replay u => t.owed = ∅ ∧ ∃ c left, t.replay = .drained u c left
  | .sendFrame (.loop .replay _ _) d j => t.owed = ∅ ∧ ∃ left, t.replay = .pushing ((d, j) :: left)
  | .sendFrame (.loop _ _ _) _ j => t.replay = .pushing [] ∧ t.event = some j
  | .repo (.enqueueUndelivered id u) =>
      t.replay = .pushing [] ∧ id = t.msg ∧ u ∈ t.owed ∧ t.offline = some u
  | .repo (.insertDm _ _ _ _) => t.Rest
  | .repo (.insertRoomMsg _ _ _ _) => t.Rest
  | .repo (.joinRoom _ _) => t.Rest
  | .repo (.leaveRoom _ _) => t.Rest
  | .bindSlot _ _ => t.Rest
  | .unbindSlot _ _ => t.Rest
  | _ => t.replay = .pushing []

def next (t : Mail) : (o : Op) → o.Ret → Mail → Prop
  | .repo (.insertDm a b content ts), some id, t' =>
    t' = { t with
      msg := id
      event := some (makeEventMessage (toI64 id) (toI64 a) (some (toI64 b)) .none content ts)
      owed := {b} }
  | .repo (.insertRoomMsg a r content ts), some id, t' =>
    ∃ ms, t' = { t with
      msg := id
      event := some (makeEventMessage (toI64 id) (toI64 a) .none (some (toI64 r)) content ts)
      owed := ms.erase a
      room := some (r, ms) }
  | .repo (.joinRoom _ _), _, t' => t' = { t with room := .none }
  | .repo (.leaveRoom _ _), _, t' => t' = { t with room := .none }
  | .membersOf r, us, t' => t' = t ∧ us.Nodup ∧ ∀ ms, t.room = some (r, ms) → ∀ u, u ∈ us ↔ u ∈ ms
  | .connectionsOf .replay u, conns, t' =>
    ∃ c left, t.replay = .drained u c left ∧ conns = [c] ∧ t' = { t with replay := .pushing left }
  | .connectionsOf _ u, conns, t' =>
    t' = if conns.isEmpty then { t with offline := some u } else { t with owed := t.owed.erase u }
  | .repo (.enqueueUndelivered _ u), _, t' => t' = { t with owed := t.owed.erase u }
  | .bindSlot u c, woke, t' =>
    if woke then ∃ left, t' = { t with offline := .none, replay := .woken u c left }
    else t' = { t with offline := .none }
  | .repo (.drainUndelivered u), ms, t' =>
    ∃ c left, t.replay = .woken u c left ∧ left = ms.map (fun m => (c, m.event)) ∧
      t' = { t with replay := if ms.isEmpty then .pushing [] else .drained u c left }
  | .sendFrame (.loop .replay _ _) d j, _, t' =>
    ∃ left, t.replay = .pushing ((d, j) :: left) ∧ t' = { t with replay := .pushing left }
  | _, _, t' => t' = t

end Mail

def mails : Contract Op.Ret Mail where
  allows := Mail.allows
  next := Mail.next

section Programs

variable {c : Nat} {t : Mail}

theorem mails_neutral (c : Nat) :
    Neutral mails Mail.Rest c [.own, .reply, .ident, .assume, .session, .validate, .issue,
      .unbind, .close, .membership] := by
  rintro o ⟨hk, -⟩ t ht
  refine ⟨?_, ?_⟩
  · change Mail.allows t o
    unfold Mail.allows
    split
    case h_4 caller _ _ _ _ _ => cases caller <;> simp at hk
    all_goals first | exact ht | exact ht.2 | simp at hk
  · intro r t' hn
    refine ⟨?_, trivial⟩
    change Mail.next t o r t' at hn
    unfold Mail.next at hn
    split at hn
    case h_3 => rw [hn]; exact ht
    case h_4 => rw [hn]; exact ht
    case h_5 => rw [hn.1]; exact ht
    case h_12 => rw [hn]; exact ht
    case h_7 caller _ _ _ => cases caller <;> simp at hk
    all_goals simp at hk

theorem sendEach_mails {caller : Caller} (hcaller : caller ≠ .replay) (ht : t.replay = .pushing [])
    {event : Json} (hevent : t.event = some event) (u : Nat) (cs : List Nat) (E : Mail → Prop) :
    (sendEach caller u event cs).Follows mails t (fun _ t' => t' = t) E := by
  induction cs with
  | nil => rfl
  | cons d cs ih =>
    refine ⟨?_, ?_⟩
    · cases caller <;> first | exact ⟨ht, hevent⟩ | exact absurd rfl hcaller
    · intro r t' hn
      obtain rfl : t' = t := by cases caller <;> first | exact hn | exact absurd rfl hcaller
      exact ih

theorem replayEach_mails (u c : Nat) (ms : List Message) (howed : t.owed = ∅)
    (ht : t.replay = .pushing (ms.map fun m => (c, m.event))) :
    (MessageRouter.replayEach u [c] ms).Follows mails t (fun _ t' => t'.Rest) Mail.Rest := by
  induction ms generalizing t with
  | nil => exact ⟨howed, ht⟩
  | cons m ms ih =>
    refine ⟨⟨howed, _, ht⟩, ?_⟩
    rintro r t' ⟨left, hleft, rfl⟩
    rw [ht, List.map_cons, Replay.pushing.injEq, List.cons.injEq] at hleft
    exact ih howed (congrArg Replay.pushing hleft.2.symm)

theorem bind_mails (u : Nat) : Keeps mails Mail.Rest (Presence.bind u c) := by
  intro t ht
  refine ⟨ht, ?_⟩
  intro woke t' hn
  dsimp only [ret_bind]
  apply (follows_bind ..).mpr
  cases woke with
  | false =>
    obtain rfl : t' = { t with offline := none } := hn
    exact ht
  | true =>
    obtain ⟨left, rfl⟩ : ∃ left, t' = { t with offline := none, replay := .woken u c left } := hn
    refine ⟨⟨ht.1, c, left, rfl⟩, ?_⟩
    rintro pending t' ⟨c', left', hwoken, hleft, rfl⟩
    cases hwoken
    dsimp only [ret_bind]
    split
    · exact ⟨ht.1, rfl⟩
    · refine ⟨⟨ht.1, c, left, rfl⟩, ?_⟩
      rintro conns t' ⟨c', left', hdrained, rfl, rfl⟩
      cases hdrained
      apply (replayEach_mails (t := ⟨t.msg, t.event, t.owed, t.room, none, .pushing left⟩) u c
        pending ht.1 ?_).mono
      · exact fun _ _ h => h
      · exact fun _ h => h
      · rw [hleft]

theorem sendDm_mails (sender receiver : Nat) (content : String) :
    Keeps mails Mail.Rest (MessageRouter.sendDm sender receiver content) := by
  refine (mails_neutral 0).op (o := .now) (by simp) fun ts => ?_
  intro t ht
  refine ⟨ht, ?_⟩
  intro stored t' hn
  cases stored with
  | none =>
    obtain rfl : t' = t := hn
    exact ht
  | some id =>
    generalize hevent : makeEventMessage (toI64 id) (toI64 sender) (some (toI64 receiver)) none
      content ts = event
    obtain rfl : t' = { t with msg := id, event := some event, owed := {receiver} } := by
      rw [← hevent]
      exact hn
    have hecho (t : Mail) (ht : t.Rest) (hposted : t.event = some event) : Prog.Follows mails (do
        let own ← call (.connectionsOf .echo sender)
        sendEach .echo sender event own
        pure id) t (fun _ t' => t'.Rest) Mail.Rest := by
      refine ⟨ht.2, ?_⟩
      intro own t' hn
      have hrest : t'.Rest ∧ t'.event = some event := by
        rw [show t' = _ from hn]
        split
        · exact ⟨ht, hposted⟩
        · exact ⟨⟨by simp [ht.1], ht.2⟩, hposted⟩
      dsimp only [ret_bind]
      apply (follows_bind ..).mpr
      apply (sendEach_mails (by simp) hrest.1.2 hrest.2 sender own Mail.Rest).mono
      · rintro _ t'' rfl
        exact hrest.1
      · exact fun _ h => h
    refine ⟨ht.2, ?_⟩
    intro conns t' hn
    dsimp only [ret_bind]
    rw [hevent]
    apply (follows_bind ..).mpr
    split
    · rename_i hempty
      obtain rfl : t' = { t with
          msg := id, event := some event, owed := {receiver}, offline := some receiver } := by
        rw [show t' = _ from hn, if_pos hempty]
      refine ⟨⟨ht.2, rfl, Finset.mem_singleton_self _, rfl⟩, ?_⟩
      rintro r t' rfl
      exact hecho _ ⟨by simp, ht.2⟩ rfl
    · rename_i hempty
      obtain rfl : t' = { t with
          msg := id, event := some event, owed := Finset.erase {receiver} receiver } := by
        rw [show t' = _ from hn, if_neg hempty]
      apply (follows_bind ..).mpr
      apply (sendEach_mails (by simp) (by exact ht.2) rfl receiver conns Mail.Rest).mono
      · rintro _ t' rfl
        refine ⟨ht.2, ?_⟩
        rintro r t' rfl
        exact hecho _ ⟨by simp, ht.2⟩ rfl
      · exact fun _ h => h

theorem fanOut_mails {sender : Nat} {event : Json} {us : List Nat} (hnodup : us.Nodup)
    (hus : ∀ u ∈ us, u ≠ sender → u ∈ t.owed) (howed : ∀ u ∈ t.owed, u ∈ us)
    (hsender : sender ∉ t.owed) (hevent : t.event = some event) (ht : t.replay = .pushing []) :
    (MessageRouter.fanOut t.msg sender event us).Follows mails t (fun _ t' => t'.Rest)
      Mail.Rest := by
  induction us generalizing t with
  | nil =>
    refine ⟨Finset.eq_empty_of_forall_notMem fun u hu => ?_, ht⟩
    exact absurd (howed u hu) List.not_mem_nil
  | cons u us ih =>
    obtain ⟨hu, hnodup⟩ := List.nodup_cons.mp hnodup
    -- once `u` is off the list, the rest of the loop goes on as before
    have hrest (t' : Mail) (hmsg : t'.msg = t.msg) (hposted : t'.event = t.event)
        (hreplay : t'.replay = .pushing [])
        (hsub : ∀ v, v ∈ t'.owed ↔ v ∈ t.owed ∧ v ≠ u) :
        (MessageRouter.fanOut t.msg sender event us).Follows mails t' (fun _ t' => t'.Rest)
          Mail.Rest := by
      rw [← hmsg]
      apply ih hnodup _ _ _ (hposted.trans hevent) hreplay
      · intro v hv hne
        refine (hsub v).mpr ⟨hus v (List.mem_cons_of_mem _ hv) hne, ?_⟩
        rintro rfl
        exact hu hv
      · intro v hv
        obtain ⟨hv, hne⟩ := (hsub v).mp hv
        exact (List.mem_cons.mp (howed v hv)).resolve_left hne
      · exact fun h => hsender ((hsub sender).mp h).1
    refine ⟨ht, ?_⟩
    intro conns t' hn
    dsimp only [ret_bind]
    apply (follows_bind ..).mpr
    split
    · rename_i hempty
      obtain rfl : t' = { t with offline := some u } := by rw [show t' = _ from hn, if_pos hempty]
      split
      · rename_i hne
        refine ⟨⟨ht, rfl, hus u (List.mem_cons_self ..) hne, rfl⟩, ?_⟩
        rintro r t' rfl
        exact hrest _ rfl rfl ht fun v => by simp [and_comm]
      · rename_i heq
        refine hrest { t with offline := some u } rfl rfl ht fun v => ?_
        refine ⟨fun hv => ⟨hv, ?_⟩, fun hv => hv.1⟩
        rintro rfl
        exact hsender (by simpa [not_not.mp heq] using hv)
    · rename_i hempty
      obtain rfl : t' = { t with owed := t.owed.erase u } := by
        rw [show t' = _ from hn, if_neg hempty]
      apply (sendEach_mails (t := { t with owed := t.owed.erase u }) (by simp) ht hevent u conns
        Mail.Rest).mono
      · rintro _ t' rfl
        exact hrest _ rfl rfl ht fun v => by simp [and_comm]
      · exact fun _ h => h

theorem sendRoom_mails (sender room : Nat) (content : String) :
    Keeps mails Mail.Rest (MessageRouter.sendRoom sender room content) := by
  refine (mails_neutral 0).op (o := .isMember room sender) (by simp) fun isMember => ?_
  cases isMember with
  | false => exact keeps_ret 0
  | true =>
    refine (mails_neutral 0).op (o := .now) (by simp) fun ts => ?_
    intro t ht
    refine ⟨ht, ?_⟩
    intro stored t' hn
    cases stored with
    | none =>
      obtain rfl : t' = t := hn
      exact ht
    | some id =>
      generalize hevent : makeEventMessage (toI64 id) (toI64 sender) none (some (toI64 room))
        content ts = event
      obtain ⟨ms, rfl⟩ : ∃ ms, t' = { t with
          msg := id, event := some event, owed := ms.erase sender, room := some (room, ms) } := by
        rw [← hevent]
        exact hn
      refine ⟨ht.2, ?_⟩
      rintro members t' ⟨rfl, hnodup, hmembers⟩
      have hiff := hmembers ms rfl
      dsimp only [ret_bind]
      rw [hevent]
      apply (follows_bind ..).mpr
      refine (fanOut_mails (t := { t with
          msg := id, event := some event, owed := ms.erase sender, room := some (room, ms) }) hnodup
        ?_ ?_ ?_ rfl ht.2).mono ?_ ?_
      · exact fun u hu hne => Finset.mem_erase.mpr ⟨hne, (hiff u).mp hu⟩
      · exact fun u hu => (hiff u).mpr (Finset.mem_of_mem_erase hu)
      · exact Finset.notMem_erase sender ms
      · exact fun _ _ h => h
      · exact fun _ h => h

theorem body_mails (env : Env) (input : Input) : Keeps mails Mail.Rest (body env input) := by
  cases input with
  | close c => exact close_uses.keeps (mails_neutral c) (by decide)
  | request c payload =>
    exact handlers.dispatch_keeps_routing (mails_neutral c) (by decide) bind_mails
      sendDm_mails sendRoom_mails

end Programs

end ChatServer
