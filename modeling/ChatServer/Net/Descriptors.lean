import ChatServer.Net.Connection

namespace ChatServer.net

def Effect.onDescriptor : Effect → Bool
  | .recv | .send | .modify _ | .remove | .socketClose => true
  | .onFrame _ | .closed | .onClose => false

namespace Connection

variable {limit : UInt32} {frameHandler closeHandler : Bool} {s s' : Connection}

theorem Act.log_append (h : Act s s') : ∃ es, s'.log = s.log ++ es := by
  cases h with
  | recv _ x => cases x <;> exact ⟨_, rfl⟩
  | cut =>
    unfold Connection.cut
    split
    · exact ⟨[], (List.append_nil _).symm⟩
    · exact ⟨[], (List.append_nil _).symm⟩
    · exact ⟨_, rfl⟩
  | lookAgain =>
    unfold Connection.lookAgain
    refine ⟨[], ?_⟩
    split
    · exact (List.append_nil _).symm
    · split <;> exact (List.append_nil _).symm
  | runDeliver | remove | socketClose | onClose | flush => exact ⟨_, rfl⟩
  | _ => exact ⟨[], (List.append_nil _).symm⟩

theorem Act.destroyed_eq (h : Act s s') : s'.destroyed = s.destroyed := by
  cases h with
  | recv _ x => cases x <;> rfl
  | cut =>
    unfold Connection.cut
    split <;> rfl
  | lookAgain =>
    unfold Connection.lookAgain
    split
    · rfl
    · split <;> rfl
  | _ => rfl

theorem Step.log_append (h : Step s s') : ∃ es, s'.log = s.log ++ es := by
  cases h with
  | act _ h => exact h.log_append
  | destroy => exact ⟨_, rfl⟩

theorem Traced.last_use (h : s.Traced) :
    s.log.Pairwise fun e e' => e = .socketClose → e'.onDescriptor = false := by
  obtain ⟨work, hwork, hlog⟩ := h.log
  have hopen : ∀ e ∈ work, e ≠ .socketClose := by
    rintro e he rfl
    cases hwork _ he
  rw [hlog, List.pairwise_append]
  refine ⟨?_, List.Pairwise.sublist s.ending_sublist (by decide), ?_⟩
  · exact List.pairwise_of_forall_mem_list fun e he _ _ hclose => absurd hclose (hopen e he)
  · exact fun e he _ _ hclose => absurd hclose (hopen e he)

theorem Traced.removed (h : s.Traced) (hd : s.destroyed = false) (hclose : .socketClose ∈ s.log) :
    .remove ∈ s.log := by
  obtain ⟨work, hwork, hlog⟩ := h.log
  have hopen : .socketClose ∉ work := fun hmem => by cases hwork _ hmem
  rw [hlog, List.mem_append, or_iff_right hopen, ending] at hclose
  rw [hlog, List.mem_append, ending]
  right
  split at hclose
  · split at hclose <;> simp_all
  · simp [hd] at hclose

end Connection

inductive Owner : Type
  | conn : Nat → Owner
  | other : Owner
  deriving DecidableEq

structure Use where
  conn : Nat
  effect : Effect
  found : Option Owner

/-- The connections with their descriptors, the kernel's table of open descriptors, the
callbacks of the reactor, and the calls that were made. -/
structure Descriptors where
  conns : Nat → Option (Nat × Connection)
  owner : Nat → Option Owner
  cbs : Nat → Option Nat
  uses : List Use

namespace Descriptors

def start : Descriptors := ⟨fun _ => none, fun _ => none, fun _ => none, []⟩

def call (d : Descriptors) (c fd : Nat) (e : Effect) : Descriptors :=
  { d with
    uses := d.uses ++ [⟨c, e, d.owner fd⟩]
    cbs := if e = .remove then Function.update d.cbs fd none else d.cbs
    owner := if e = .socketClose then Function.update d.owner fd none else d.owner }

def advance (d : Descriptors) (c fd : Nat) (s s' : Connection) : Descriptors :=
  let d' := (s'.log.drop s.log.length).foldl (fun d e => d.call c fd e) d
  { d' with conns := Function.update d.conns c (some (fd, s')) }

/-- A pass of the loop of `on_listen_event`: the kernel names a descriptor that is not open,
and `add` may fail.  The destructor does not run while a callback holds the connection. -/
inductive Step (limit : UInt32) (d : Descriptors) : Descriptors → Prop
  | accept (c fd : Nat) (hc : d.conns c = none) (hfd : d.owner fd = none) (added : Bool) :
      Step limit d { d with
        conns := Function.update d.conns c (some (fd, .start limit true true))
        owner := Function.update d.owner fd (some (.conn c))
        cbs := if added then Function.update d.cbs fd (some c) else d.cbs }
  | act {c fd : Nat} {s s' : Connection} (hc : d.conns c = some (fd, s)) (hd : s.destroyed = false)
      (h : Connection.Act s s') : Step limit d (d.advance c fd s s')
  | destroy {c fd : Nat} {s s' : Connection} (hc : d.conns c = some (fd, s))
      (hcbs : d.cbs fd ≠ some c) (h : Connection.Step s s') (hd : s'.destroyed = true) :
      Step limit d (d.advance c fd s s')
  | shutdown : Step limit d { d with cbs := fun _ => none }
  | openOther {fd : Nat} (hfd : d.owner fd = none) :
      Step limit d { d with owner := Function.update d.owner fd (some .other) }
  | closeOther {fd : Nat} (hfd : d.owner fd = some .other) :
      Step limit d { d with owner := Function.update d.owner fd none }

abbrev Reachable (limit : UInt32) (d : Descriptors) : Prop :=
  Relation.ReflTransGen (Step limit) start d

def Proper (us : List Use) : Prop :=
  ∀ u ∈ us, u.effect.onDescriptor = true → u.found = some (.conn u.conn)

structure Owned (limit : UInt32) (d : Descriptors) : Prop where
  reached : ∀ c fd s, d.conns c = some (fd, s) → s.Reachable limit true true
  owns : ∀ c fd s, d.conns c = some (fd, s) → (.socketClose ∉ s.log ↔ d.owner fd = some (.conn c))
  owned : ∀ c fd, d.owner fd = some (.conn c) → ∃ s, d.conns c = some (fd, s)
  watched : ∀ c fd, d.cbs fd = some c → ∃ s, d.conns c = some (fd, s) ∧ .remove ∉ s.log ∧
    .socketClose ∉ s.log
  proper : Proper d.uses

section Calls

variable {c fd : Nat}

theorem foldl_call {es : List Effect} (hes : es.Pairwise fun e e' => e = .socketClose →
      e'.onDescriptor = false)
    {d : Descriptors} (hown : ∀ e ∈ es, e.onDescriptor = true → d.owner fd = some (.conn c))
    (h : Proper d.uses) : let d' := es.foldl (fun d e => d.call c fd e) d
    d'.conns = d.conns ∧
      d'.owner = (if .socketClose ∈ es then Function.update d.owner fd none else d.owner) ∧
      d'.cbs = (if .remove ∈ es then Function.update d.cbs fd none else d.cbs) ∧
        Proper d'.uses := by
  induction es generalizing d with
  | nil => exact ⟨rfl, rfl, rfl, h⟩
  | cons e es ih =>
    obtain ⟨hlast, hes⟩ := List.pairwise_cons.mp hes
    obtain ⟨howner, hown'⟩ := List.forall_mem_cons.mp hown
    have hproper : Proper (d.call c fd e).uses := by
      intro u hu
      rcases List.mem_append.mp hu with hu | hu
      · exact h u hu
      · rw [List.mem_singleton.mp hu]
        exact howner
    have hnext : ∀ e' ∈ es, e'.onDescriptor = true → (d.call c fd e).owner fd = some (.conn c) := by
      intro e' he' huse
      have hopen : e ≠ .socketClose := by
        intro hclose
        rw [hlast e' he' hclose] at huse
        cases huse
      rw [call, if_neg hopen]
      exact hown' e' he' huse
    obtain ⟨hconns, howner', hcbs, hproper'⟩ := ih hes hnext hproper
    refine ⟨hconns, ?_, ?_, hproper'⟩
    · rw [List.foldl_cons, howner', call]
      by_cases hclose : e = .socketClose
      · simp [hclose]
      · simp [hclose, Ne.symm hclose]
    · rw [List.foldl_cons, hcbs, call]
      by_cases hremove : e = .remove
      · simp [hremove]
      · simp [hremove, Ne.symm hremove]

end Calls

section Owned

variable {limit : UInt32} {d : Descriptors} {c fd : Nat} {s s' : Connection}

theorem advance_spec (h : d.Owned limit) (hc : d.conns c = some (fd, s))
    (hreach : s'.Reachable limit true true) {es : List Effect} (hlog : s'.log = s.log ++ es) :
    (d.advance c fd s s').conns = Function.update d.conns c (some (fd, s')) ∧
      (d.advance c fd s s').owner =
        (if .socketClose ∈ es then Function.update d.owner fd none else d.owner) ∧
      (d.advance c fd s s').cbs = (if .remove ∈ es then Function.update d.cbs fd none else d.cbs) ∧
      Proper (d.advance c fd s s').uses ∧ (.socketClose ∈ es → d.owner fd = some (.conn c)) := by
  have hlast := hreach.traced.last_use
  rw [hlog, List.pairwise_append] at hlast
  obtain ⟨-, hes, hacross⟩ := hlast
  have hown : ∀ e ∈ es, e.onDescriptor = true → d.owner fd = some (.conn c) := by
    intro e he huse
    refine (h.owns c fd s hc).mp fun hclosed => ?_
    rw [hacross .socketClose hclosed e he rfl] at huse
    cases huse
  have hdrop : s'.log.drop s.log.length = es := by rw [hlog, List.drop_left]
  obtain ⟨-, howner, hcbs, hproper⟩ := foldl_call hes hown h.proper
  rw [advance, hdrop]
  exact ⟨rfl, howner, hcbs, hproper, fun hclose => hown _ hclose rfl⟩

theorem Owned.advance (h : d.Owned limit) (hc : d.conns c = some (fd, s))
    (hreach : s'.Reachable limit true true) {es : List Effect} (hlog : s'.log = s.log ++ es)
    (hremoved : d.cbs fd = some c → .socketClose ∈ s'.log → .remove ∈ s'.log) :
    (d.advance c fd s s').Owned limit := by
  obtain ⟨hconns, howner, hcbs, hproper, hown⟩ := advance_spec h hc hreach hlog
  have hother {c' : Nat} (hne : c' ≠ c) : (d.advance c fd s s').conns c' = d.conns c' := by
    rw [hconns, Function.update_of_ne hne]
  have hself : (d.advance c fd s s').conns c = some (fd, s') := by rw [hconns, Function.update_self]
  have howner_self : (d.advance c fd s s').owner fd = some (.conn c) ↔ .socketClose ∉ s'.log := by
    rw [howner, hlog, List.mem_append, not_or, h.owns c fd s hc]
    split
    · simp_all
    · simp_all
  have howner_other {fd' c' : Nat} (hne : c' ≠ c) :
      (d.advance c fd s s').owner fd' = some (.conn c') ↔ d.owner fd' = some (.conn c') := by
    rw [howner]
    split
    next hclose =>
      by_cases hfd : fd' = fd
      · simp [hfd, hown hclose, hne.symm]
      · rw [Function.update_of_ne hfd]
    · rfl
  refine ⟨?_, ?_, ?_, ?_, hproper⟩
  · intro c' fd' t ht
    by_cases hne : c' = c
    · subst hne
      rw [hself] at ht
      cases ht
      exact hreach
    · exact h.reached c' fd' t (hother hne ▸ ht)
  · intro c' fd' t ht
    by_cases hne : c' = c
    · subst hne
      rw [hself] at ht
      cases ht
      exact howner_self.symm
    · rw [howner_other hne]
      exact h.owns c' fd' t (hother hne ▸ ht)
  · intro c' fd' ht
    by_cases hne : c' = c
    · subst hne
      have hbefore : d.owner fd' = some (.conn c') := by
        rw [howner] at ht
        split at ht
        · by_cases hfd : fd' = fd
          · simp [hfd] at ht
          · rwa [Function.update_of_ne hfd] at ht
        · exact ht
      obtain ⟨t, ht'⟩ := h.owned c' fd' hbefore
      rw [hc] at ht'
      cases ht'
      exact ⟨s', hself⟩
    · obtain ⟨t, ht'⟩ := h.owned c' fd' ((howner_other hne).mp ht)
      exact ⟨t, by rw [hother hne, ht']⟩
  · intro c' fd' ht
    have hbefore : d.cbs fd' = some c' ∧ (fd' = fd → .remove ∉ es) := by
      rw [hcbs] at ht
      split at ht
      · by_cases hfd : fd' = fd
        · simp [hfd] at ht
        · rw [Function.update_of_ne hfd] at ht
          exact ⟨ht, fun heq => absurd heq hfd⟩
      next hkept => exact ⟨ht, fun _ => hkept⟩
    obtain ⟨t, ht', hremove, hclose⟩ := h.watched c' fd' hbefore.1
    by_cases hne : c' = c
    · subst hne
      rw [hc] at ht'
      cases ht'
      have hstays : .remove ∉ s'.log := by
        rw [hlog, List.mem_append, not_or]
        exact ⟨hremove, hbefore.2 rfl⟩
      exact ⟨s', hself, hstays, fun hmem => hstays (hremoved hbefore.1 hmem)⟩
    · exact ⟨t, by rw [hother hne, ht'], hremove, hclose⟩

theorem Owned.accept (h : d.Owned limit) (hc : d.conns c = none) (hfd : d.owner fd = none)
    (added : Bool) : Owned limit { d with
      conns := Function.update d.conns c (some (fd, .start limit true true))
      owner := Function.update d.owner fd (some (.conn c))
      cbs := if added then Function.update d.cbs fd (some c) else d.cbs } := by
  have hnew {c' : Nat} {x : Nat × Connection} (hx : d.conns c' = some x) : c' ≠ c := by
    rintro rfl
    rw [hc] at hx
    cases hx
  refine ⟨?_, ?_, ?_, ?_, h.proper⟩
  · intro c' fd' t ht
    dsimp only at ht
    by_cases hne : c' = c
    · subst hne
      rw [Function.update_self] at ht
      cases ht
      exact .refl
    · rw [Function.update_of_ne hne] at ht
      exact h.reached c' fd' t ht
  · intro c' fd' t ht
    dsimp only at ht ⊢
    by_cases hne : c' = c
    · subst hne
      rw [Function.update_self] at ht
      cases ht
      simp [Connection.start]
    · rw [Function.update_of_ne hne] at ht
      rw [h.owns c' fd' t ht]
      by_cases hsame : fd' = fd
      · simp [hsame, hfd, Ne.symm hne]
      · rw [Function.update_of_ne hsame]
  · intro c' fd' ht
    dsimp only at ht ⊢
    by_cases hsame : fd' = fd
    · subst hsame
      rw [Function.update_self] at ht
      cases ht
      exact ⟨_, Function.update_self ..⟩
    · rw [Function.update_of_ne hsame] at ht
      obtain ⟨t, ht'⟩ := h.owned c' fd' ht
      exact ⟨t, by rw [Function.update_of_ne (hnew ht'), ht']⟩
  · intro c' fd' ht
    dsimp only at ht ⊢
    by_cases hadd : added = true ∧ fd' = fd
    · obtain ⟨rfl, rfl⟩ := hadd
      rw [if_pos rfl, Function.update_self] at ht
      cases ht
      exact ⟨_, Function.update_self .., by simp [Connection.start], by simp [Connection.start]⟩
    · have hbefore : d.cbs fd' = some c' := by
        split at ht
        next hadded => rwa [Function.update_of_ne fun hsame => hadd ⟨hadded, hsame⟩] at ht
        · exact ht
      obtain ⟨t, ht', hlog⟩ := h.watched c' fd' hbefore
      exact ⟨t, by rw [Function.update_of_ne (hnew ht'), ht'], hlog⟩

theorem Owned.others (h : d.Owned limit) {o : Option Owner} (ho : ∀ c, o ≠ some (.conn c))
    (hfd : ∀ c, d.owner fd ≠ some (.conn c)) :
    Owned limit { d with owner := Function.update d.owner fd o } := by
  have hsame (c' fd' : Nat) : Function.update d.owner fd o fd' = some (.conn c') ↔
      d.owner fd' = some (.conn c') := by
    by_cases heq : fd' = fd
    · subst heq
      simp [ho, hfd]
    · rw [Function.update_of_ne heq]
  refine ⟨h.reached, fun c' fd' t ht => ?_, fun c' fd' ht => ?_, h.watched, h.proper⟩
  · rw [hsame]
    exact h.owns c' fd' t ht
  · exact h.owned c' fd' ((hsame c' fd').mp ht)

theorem Owned.step {d' : Descriptors} (h : d.Owned limit) (hstep : Step limit d d') :
    d'.Owned limit := by
  cases hstep with
  | accept _ _ hc hfd added => exact h.accept hc hfd added
  | act hc hd hact =>
    obtain ⟨es, hlog⟩ := hact.log_append
    have hreach := (h.reached _ _ _ hc).tail (.act hd hact)
    exact h.advance hc hreach hlog fun _ =>
      (Connection.Reachable.traced hreach).removed (hact.destroyed_eq.trans hd)
  | destroy hc hcbs hstep hd =>
    have hreach := (h.reached _ _ _ hc).tail hstep
    obtain ⟨es, hlog⟩ := hstep.log_append
    exact h.advance hc hreach hlog fun hwatched => absurd hwatched hcbs
  | shutdown => exact { h with watched := nofun }
  | openOther hfd => exact h.others nofun (by simp [hfd])
  | closeOther hfd => exact h.others nofun (by simp [hfd])

end Owned

variable {limit : UInt32} {d : Descriptors}

theorem Reachable.owned (h : d.Reachable limit) : d.Owned limit := by
  induction h with
  | refl => constructor <;> simp [start, Proper]
  | tail _ hstep ih => exact ih.step hstep

/-- Whatever numbers the kernel gives out again, a connection only ever touches its own
socket, an event for a descriptor is handed to the connection it belongs to, and a
descriptor belongs to its connection until that has closed it. -/
theorem touches_own_socket (h : d.Reachable limit) :
    (∀ u ∈ d.uses, u.effect.onDescriptor = true → u.found = some (.conn u.conn)) ∧
      (∀ fd c, d.cbs fd = some c → d.owner fd = some (.conn c)) ∧
      ∀ c fd s, d.conns c = some (fd, s) →
      (d.owner fd = some (.conn c) ↔ .socketClose ∉ s.log) := by
  have howned := Reachable.owned h
  refine ⟨howned.proper, fun fd c hcbs => ?_, fun c fd s hc => (howned.owns c fd s hc).symm⟩
  obtain ⟨s, hc, -, hopen⟩ := howned.watched c fd hcbs
  exact (howned.owns c fd s hc).mp hopen

theorem touches_own_socket_reused :
    ∃ d : Descriptors, d.Reachable 8 ∧ d.uses.map (fun u => (u.conn, u.effect)) =
        [(1, .recv), (1, .closed), (1, .remove), (1, .socketClose), (2, .recv)] ∧
      d.cbs 5 = some 2 ∧ d.owner 5 = some (.conn 2) ∧
      ∀ u ∈ d.uses, u.effect.onDescriptor = true → u.found = some (.conn u.conn) := by
  -- The peer of connection 1 hangs up, and connection 2 is given its descriptor.
  have hreach : ∃ d : Descriptors, d.Reachable 8 ∧ d.uses.map (fun u => (u.conn, u.effect)) =
      [(1, .recv), (1, .closed), (1, .remove), (1, .socketClose), (2, .recv)] ∧
        d.cbs 5 = some 2 := by
    refine ⟨?last, ?reached, ?seen⟩
    case reached =>
      refine .head (.accept 1 5 rfl rfl true) ?_
      refine .head (.act (c := 1) rfl rfl (.event rfl rfl true false)) ?_
      refine .head (.act (c := 1) rfl rfl (.recv rfl .eof)) ?_
      refine .head (.act (c := 1) rfl rfl (.post rfl)) ?_
      refine .head (.act (c := 1) rfl rfl (.lookAgain rfl rfl)) ?_
      refine .head (.act (c := 1) rfl rfl (.swap rfl rfl rfl)) ?_
      refine .head (.act (c := 1) rfl rfl (.runDeliver rfl rfl rfl)) ?_
      refine .head (.act (c := 1) rfl rfl (.remove rfl)) ?_
      refine .head (.act (c := 1) rfl rfl (.socketClose rfl)) ?_
      refine .head (.accept 2 5 rfl rfl true) ?_
      refine .head (.act (c := 2) rfl rfl (.event rfl rfl true false)) ?_
      refine .head (.act (c := 2) rfl rfl (.recv rfl .eagain)) ?_
      exact .refl
    case seen => exact ⟨by decide, rfl⟩
  obtain ⟨d, hd, huses, hcbs⟩ := hreach
  exact ⟨d, hd, huses, hcbs, (touches_own_socket hd).2.1 5 2 hcbs, (touches_own_socket hd).1⟩

end Descriptors

end ChatServer.net
