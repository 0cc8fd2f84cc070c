import Mathlib.Data.Set.Insert
import ChatServer.Server.Shape

namespace ChatServer

open Lib Lib.Prog

/-- `reach` holds a user with a connection found in the user's slot, `may` a user with a
message meant for the user, and `posted` the room messages stored since the membership of
any room has changed. -/
structure Clearance where
  reach : Set (Nat × Nat)
  may : Set (Nat × Message)
  posted : Set Message

namespace Clearance

def none : Clearance := ⟨∅, ∅, ∅⟩

def allows (t : Clearance) : Op → Prop
  | .sendFrame (.loop _ u _) d j => (u, d) ∈ t.reach ∧ ∃ m, (u, m) ∈ t.may ∧ j = m.event
  | .repo (.enqueueUndelivered id u) => ∃ m, m.id = id ∧ (u, m) ∈ t.may
  | _ => True

def after (t : Clearance) : (o : Op) → o.Ret → Clearance
  | .connectionsOf _ u, conns => { t with reach := t.reach ∪ {p | p.1 = u ∧ p.2 ∈ conns} }
  | .repo (.insertDm s r content ts), some id =>
    let m : Message := ⟨id, s, some r, .none, content, 0, ts⟩
    { t with may := t.may ∪ {(s, m), (r, m)} }
  | .repo (.insertRoomMsg s r content ts), some id =>
    { t with posted := insert ⟨id, s, .none, some r, content, 0, ts⟩ t.posted }
  | .membersOf r, us =>
    { t with may := t.may ∪ {p | p.1 ∈ us ∧ p.2 ∈ t.posted ∧ p.2.roomId = some r} }
  | .repo (.joinRoom _ _), _ => { t with posted := ∅ }
  | .repo (.leaveRoom _ _), _ => { t with posted := ∅ }
  | .repo (.drainUndelivered u), ms => { t with may := t.may ∪ {p | p.1 = u ∧ p.2 ∈ ms} }
  | _, _ => t

theorem reach_after (t : Clearance) (caller : Caller) (u : Nat) (conns : List Nat) :
    ∀ d ∈ conns, (u, d) ∈ (t.after (.connectionsOf caller u) conns).reach :=
  fun _ hd => .inr ⟨rfl, hd⟩

end Clearance

def clearances : Contract Op.Ret Clearance where
  allows := Clearance.allows
  next t o r t' := t' = t.after o r

section Programs

variable {c : Nat} {t : Clearance}

theorem clearances_neutral (c : Nat) :
    Neutral clearances (fun _ => True) c [.own, .reply, .ident, .assume, .session,
      .validate, .issue, .bind, .unbind, .close, .storeDm, .storeRoomMsg, .membership] := by
  rintro o ⟨hk, -⟩ t -
  refine ⟨?_, fun _ _ _ => ⟨trivial, trivial⟩⟩
  change t.allows o
  unfold Clearance.allows
  split
  · rename_i caller u cs d j
    cases caller <;> simp at hk
  · simp at hk
  · trivial

theorem sendEach_cleared {caller : Caller} {u : Nat} {m : Message} {cs : List Nat}
    (hreach : ∀ d ∈ cs, (u, d) ∈ t.reach) (hmay : (u, m) ∈ t.may) :
    (sendEach caller u m.event cs).Follows clearances t (fun _ t' => t' = t) (fun _ => True) := by
  induction cs with
  | nil => rfl
  | cons d cs ih =>
    refine ⟨⟨hreach d (List.mem_cons_self ..), m, hmay, rfl⟩, ?_⟩
    rintro r t' rfl
    exact ih fun d' hd' => hreach d' (List.mem_cons_of_mem _ hd')

theorem replayEach_cleared {u : Nat} {conns : List Nat} {ms : List Message}
    (hreach : ∀ d ∈ conns, (u, d) ∈ t.reach) (hmay : ∀ m ∈ ms, (u, m) ∈ t.may) :
    (MessageRouter.replayEach u conns ms).Follows clearances t (fun _ t' => t' = t)
    (fun _ => True) := by
  induction ms with
  | nil => rfl
  | cons m ms ih =>
    apply (follows_bind ..).mpr
    apply (sendEach_cleared hreach (hmay m (List.mem_cons_self ..))).mono
    · rintro _ t' rfl
      exact ih fun m' hm' => hmay m' (List.mem_cons_of_mem _ hm')
    · exact fun _ h => h

theorem replayOffline_cleared (u : Nat) :
    Keeps clearances (fun _ => True) (MessageRouter.replayOffline u) := by
  intro t _
  refine ⟨trivial, ?_⟩
  rintro pending t' rfl
  dsimp only [ret_bind]
  split
  · trivial
  · refine ⟨trivial, ?_⟩
    rintro conns t' rfl
    dsimp only [ret_bind]
    split
    · trivial
    · apply (replayEach_cleared (Clearance.reach_after _ .replay u conns) _).mono
      · exact fun _ _ _ => trivial
      · exact fun _ h => h
      · exact fun m hm => .inr ⟨rfl, hm⟩

theorem bind_cleared (u : Nat) : Keeps clearances (fun _ => True) (Presence.bind u c) := by
  apply (clearances_neutral c).op (o := .bindSlot u c) (by simp)
  intro transitioned
  apply Keeps.bind _ fun _ => keeps_ret transitioned
  cases transitioned with
  | false => exact keeps_ret ()
  | true => exact replayOffline_cleared u

theorem sendDm_cleared (sender receiver : Nat) (content : String) :
    Keeps clearances (fun _ => True) (MessageRouter.sendDm sender receiver content) := by
  intro t _
  refine ⟨trivial, ?_⟩
  rintro ts t' rfl
  refine ⟨trivial, ?_⟩
  rintro stored t' rfl
  cases stored with
  | none => trivial
  | some id =>
    let m : Message := ⟨id, sender, some receiver, none, content, 0, ts⟩
    refine ⟨trivial, ?_⟩
    rintro conns t' rfl
    dsimp only [ret_bind]
    apply (follows_bind ..).mpr
    have hecho (t : Clearance) (hmay : (sender, m) ∈ t.may) :
        Prog.Follows clearances (do
          let own ← call (.connectionsOf .echo sender)
          sendEach .echo sender m.event own
          pure id) t (fun _ _ => True) (fun _ => True) := by
      refine ⟨trivial, ?_⟩
      rintro own t' rfl
      dsimp only [ret_bind]
      apply (follows_bind ..).mpr
      apply (sendEach_cleared (t.reach_after .echo sender own) hmay).mono
      · exact fun _ _ _ => trivial
      · exact fun _ h => h
    split
    · refine ⟨⟨m, rfl, .inr (.inr rfl)⟩, ?_⟩
      rintro r t' rfl
      exact hecho _ (.inr (.inl rfl))
    · apply (follows_bind ..).mpr
      refine (sendEach_cleared (m := m) (Clearance.reach_after _ .deliver receiver conns) ?_).mono
        ?_ ?_
      · exact .inr (.inr rfl)
      · rintro _ t' rfl
        refine ⟨trivial, ?_⟩
        rintro r t' rfl
        exact hecho _ (.inr (.inl rfl))
      · exact fun _ h => h

theorem fanOut_cleared {id sender : Nat} {m : Message} {us : List Nat} (hid : m.id = id)
    (hmay : ∀ u ∈ us, (u, m) ∈ t.may) :
    (MessageRouter.fanOut id sender m.event us).Follows clearances t (fun _ _ => True)
    (fun _ => True) := by
  induction us generalizing t with
  | nil => trivial
  | cons u us ih =>
    have hu := hmay u (List.mem_cons_self ..)
    have hus : ∀ v ∈ us, (v, m) ∈ t.may := fun v hv => hmay v (List.mem_cons_of_mem _ hv)
    refine ⟨trivial, ?_⟩
    rintro conns t' rfl
    dsimp only [ret_bind]
    apply (follows_bind ..).mpr
    split
    · split
      · refine ⟨⟨m, hid, hu⟩, ?_⟩
        rintro r t' rfl
        exact ih hus
      · exact ih hus
    · apply (sendEach_cleared (t.reach_after .fanOut u conns) hu).mono
      · rintro _ t' rfl
        exact ih hus
      · exact fun _ h => h

theorem sendRoom_cleared (sender room : Nat) (content : String) :
    Keeps clearances (fun _ => True) (MessageRouter.sendRoom sender room content) := by
  intro t _
  refine ⟨trivial, ?_⟩
  rintro isMember t' rfl
  cases isMember with
  | false => trivial
  | true =>
    refine ⟨trivial, ?_⟩
    rintro ts t' rfl
    refine ⟨trivial, ?_⟩
    rintro stored t' rfl
    cases stored with
    | none => trivial
    | some id =>
      refine ⟨trivial, ?_⟩
      rintro members t' rfl
      dsimp only [ret_bind]
      apply (follows_bind ..).mpr
      refine (fanOut_cleared (m := ⟨id, sender, none, some room, content, 0, ts⟩) rfl ?_).mono ?_ ?_
      · exact fun u hu => .inr ⟨hu, Set.mem_insert .., rfl⟩
      · exact fun _ _ _ => trivial
      · exact fun _ h => h

theorem body_cleared (env : Env) (input : Input) :
    Keeps clearances (fun _ => True) (body env input) := by
  cases input with
  | close c => exact close_uses.keeps (clearances_neutral c) (by decide)
  | request c payload =>
    exact handlers.dispatch_keeps_routing (clearances_neutral c) (by decide)
      bind_cleared sendDm_cleared
      sendRoom_cleared

end Programs

end ChatServer
