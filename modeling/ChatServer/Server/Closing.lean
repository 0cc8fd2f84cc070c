import ChatServer.Server.Identity

namespace ChatServer

open Lib Lib.Prog

def CloseRead (log : Log) (c : Nat) : Prop := ∃ e ∈ log, e.job = .close c ∧ e.op = .userId c

def Leaving (g : Sys) (u c : Nat) : Prop := ∃ n, g.nextOp n = some (.unbindSlot u c)

/-- Somebody will still unbind `c` from `u`: the close callback has not looked yet and
will find `u`, or a task is about to do it. -/
def Covered (g : Sys) (u c : Nat) : Prop :=
  (¬CloseRead g.hist.log c ∧ (g.hist.state.conns c).userId = u) ∨ Leaving g u c

/-- The step cannot leave a connection behind in a slot.  A connection is bound to the
user it acts as before its close callback looks, or while some task is about to unbind
it from that user; and until the callback has looked, the user of a connection is only
changed when the connection is bound to nobody else or is just being unbound. -/
def inOrder (g : Sys) : Op → Prop
  | .bindSlot u c => Covered g u c
  | .setUserId c u => ¬CloseRead g.hist.log c →
    ∀ v, v ≠ u → c ∈ g.hist.state.slot v → Leaving g v c
  | _ => True

def stepInOrder (g : Sys) : Move Input → Prop
  | .start _ _ => True
  | .advance i => ∀ o, g.nextOp i = some o → inOrder g o

inductive Closer : Type
  | rest : Closer
  | reading : Closer
  | unbinding : Nat → Closer

namespace Closer

def allows (input : Input) : Closer → Op → Prop
  | .rest, .bindSlot u _ => u ≠ 0
  | .rest, .cachePut _ info => info.userId ≠ 0
  | .rest, .finishClose c => input = .close c
  | .rest, .userId c => input ≠ .close c
  | .rest, _ => True
  | .reading, o => o = .userId input.conn
  | .unbinding u, o => o = .unbindSlot u input.conn

def after : Closer → (o : Op) → o.Ret → Closer
  | .rest, .finishClose _, true => .reading
  | .reading, .userId _, uid => if uid = 0 then .rest else .unbinding uid
  | .unbinding _, _, _ => .rest
  | t, _, _ => t

end Closer

def namesUser : (o : Op) → o.Ret → Prop
  | .repo (.findUserByUsername _), r => ∀ u, r = .ok (some u) → u.id ≠ 0
  | .validate _, r => ∀ info, r = some info → info.userId ≠ 0
  | _, _ => True

def closer (input : Input) : Contract Op.Ret Closer where
  allows t o := o.concerns input.conn ∧ t.allows input o
  next t o r t' := namesUser o r ∧ t' = t.after o r

section Programs

variable {c : Nat} {payload : List UInt8}

theorem closer_answers {input : Input} {o : Op} (hc : o.concerns input.conn)
    (hk : o.kind ∈ [.own, .reply, .ident, .assume, .session, .validate, .unbind, .storeDm, .dm,
      .storeRoomMsg, .roomMsg, .queue, .replay, .membership])
    (hid : ∀ c, o = .userId c → input ≠ .close c) :
    Answers (closer input) (· = .rest) o fun _ => True := by
  rintro t rfl
  refine ⟨⟨hc, ?_⟩, ?_⟩
  · cases o <;> simp_all [Closer.allows]
  · rintro r t' ⟨-, rfl⟩
    refine ⟨?_, trivial⟩
    cases o <;> simp_all [Closer.after]

variable (c payload) in
theorem closer_neutral :
    Neutral (closer (.request c payload)) (· = .rest) c [.own, .reply, .ident, .assume, .session,
      .validate, .unbind, .storeDm, .dm, .storeRoomMsg, .roomMsg, .queue, .replay, .membership] :=
  fun _ h => closer_answers h.2 h.1 (by simp)

theorem closer_neutral_close : Neutral (closer (.close c)) (· = .rest) c [.own] := by
  rintro o ⟨hk, hc⟩
  refine closer_answers hc (by simp_all) ?_
  rintro d rfl
  simp at hk

theorem bind_closer {u : Nat} (hu : u ≠ 0) :
    Keeps (closer (.request c payload)) (· = .rest) (Presence.bind u c) := by
  refine Answers.op (o := Op.bindSlot u c) (F := fun _ => True) ?_ fun transitioned _ => ?_
  · rintro t rfl
    refine ⟨⟨rfl, hu⟩, ?_⟩
    rintro r t' ⟨-, rfl⟩
    exact ⟨rfl, trivial⟩
  · have hrest : Uses c [.replay]
        (if transitioned then onTransition u true else pure () : ServerM Unit) := by
      simp [onTransition]
    exact (hrest.keeps (closer_neutral c payload) (by decide)).bind fun _ => keeps_ret transitioned

theorem create_closer (env : Env) {u : Nat} (hu : u ≠ 0) :
    Keeps (closer (.request c payload)) (· = .rest) (SessionManager.create env u) := by
  refine (closer_neutral c payload).op (o := .randomBytes 32) (by simp) fun buf => ?_
  refine (closer_neutral c payload).op (o := .now) (by simp) fun now => ?_
  refine Answers.op (F := fun _ => True) ?_ fun _ _ => ?_
  · rintro t rfl
    refine ⟨⟨trivial, hu⟩, ?_⟩
    rintro r t' ⟨-, rfl⟩
    exact ⟨rfl, trivial⟩
  · exact (closer_neutral c payload).op (by simp) fun _ => keeps_ret _

theorem request_closer (env : Env) (c : Nat) (payload : List UInt8) :
    Keeps (closer (.request c payload)) (· = .rest) (handlers.dispatch env c payload) := by
  have hks := closer_neutral c payload
  have hauth : ∀ req id, Keeps (closer (.request c payload)) (· = .rest)
      (handlers.requireAuth c req id) := by
    refine handlers.requireAuth_keeps (G := (· ≠ 0)) hks (by decide) (by decide) ?_
      (fun u hu => bind_closer hu)
    rintro tok t rfl
    refine ⟨⟨trivial, trivial⟩, ?_⟩
    rintro r t' ⟨hr, rfl⟩
    exact ⟨rfl, hr⟩
  refine handlers.dispatch_keeps hks (by decide) (fun req _ => hauth req _) (fun req _ _ => ?_)
    (fun req _ => (handlers.handleLogout_uses req _).keeps hks (by decide))
    (fun req _ => (handlers.handleSendDm_acts env).keeps hks (by decide) (hauth req _))
    (fun req _ => (handlers.handleSendRoom_acts env).keeps hks (by decide) (hauth req _))
    (fun req _ => handlers.handleCreateRoom_acts.keeps hks (by decide) (hauth req _))
    (fun req _ => handlers.handleJoinRoom_acts.keeps hks (by decide) (hauth req _))
    (fun req _ => handlers.handleLeaveRoom_acts.keeps hks (by decide) (hauth req _))
  refine handlers.handleLogin_keeps (G := (· ≠ 0)) hks (by decide) (by decide) ?_
    (fun u hu => create_closer env hu) (fun u hu => bind_closer hu) req _
  rintro n t rfl
  refine ⟨⟨trivial, trivial⟩, ?_⟩
  rintro r t' ⟨hr, rfl⟩
  exact ⟨rfl, hr⟩

theorem close_closer (c : Nat) :
    (Connection.close c).Follows (closer (.close c)) .rest (fun _ t => t = .rest) (· = .rest) := by
  refine ⟨⟨rfl, trivial⟩, ?_⟩
  rintro first t' ⟨-, rfl⟩
  cases first with
  | false => rfl
  | true =>
    refine ⟨⟨rfl, rfl⟩, ?_⟩
    rintro first t' ⟨-, rfl⟩
    cases first with
    | false => rfl
    | true =>
      simp only [ret_bind, if_true, (onClose_noThrow c).tryCatch]
      refine ⟨⟨rfl, rfl⟩, ?_⟩
      rintro uid t' ⟨-, rfl⟩
      by_cases huid : uid = 0
      · subst huid
        rfl
      · simp only [ret_bind, huid, Closer.after, if_false, ne_eq, not_false_eq_true, if_true,
          bind_eq_bind, follows_bind]
        refine ⟨⟨rfl, rfl⟩, ?_⟩
        rintro offline t' ⟨-, rfl⟩
        have hrest : Uses c [.own]
            (if offline then onTransition uid false else pure () : ServerM Unit) := by
          simp [onTransition]
        exact ((hrest.keeps closer_neutral_close (by decide)).bind fun _ => keeps_ret offline) _ rfl

theorem body_closer (env : Env) (input : Input) :
    (body env input).Follows (closer input) .rest (fun _ t => t = .rest) (· = .rest) := by
  cases input with
  | request c payload => exact request_closer env c payload .rest rfl
  | close c => exact close_closer c

end Programs

structure Orderly (g : Sys) (ts : Nat → Closer) : Prop where
  accounts : AccountsOk g.hist.state
  slots : ∀ u c, c ∈ g.hist.state.slot u → u ≠ 0 ∧ Covered g u c
  closed : ∀ c, (g.hist.state.conns c).closed = true → CloseRead g.hist.log c ∨
    ∃ n x, g.tasks n = .busy (.close c) x ∧ ts n = .reading
  bound : ∀ u, ∀ c ∈ g.hist.state.slot u, Bound g.hist.log u c
  occupied : ∀ u, g.hist.state.presence.lookup u ≠ some ∅

section Steps

variable {env : Env} {g : Sys} {ts : Nat → Closer} {i : Nat} {j : Input} {o : Op}
  {k : o.Ret → ServerM Unit} {u c : Nat}

theorem CloseRead.mono (h : CloseRead g.hist.log c) :
    CloseRead (g.perform (memExec env) i j o k).hist.log c := by
  obtain ⟨e, he, hj, ho⟩ := h
  exact ⟨e, List.mem_append_left _ he, hj, ho⟩

theorem CloseRead.of_perform (h : CloseRead (g.perform (memExec env) i j o k).hist.log c) :
    CloseRead g.hist.log c ∨ (j = .close c ∧ o = .userId c) := by
  obtain ⟨e, he, hj, ho⟩ := h
  rcases List.mem_append.mp he with he | he
  · exact .inl ⟨e, he, hj, ho⟩
  · rw [List.mem_singleton.mp he] at hj ho
    exact .inr ⟨hj, ho⟩

theorem Leaving.perform (h : Leaving g u c) (hp : g.tasks i = .busy j (.op o k))
    (ho : o ≠ .unbindSlot u c) : Leaving (g.perform (memExec env) i j o k) u c := by
  obtain ⟨n, hn⟩ := h
  have hni : n ≠ i := by
    rintro rfl
    rw [Config.nextOp_eq hp] at hn
    exact ho (Option.some.inj hn)
  exact ⟨n, by rw [Config.nextOp_perform_ne g hni, hn]⟩

theorem Closer.follows_unbinding {x : ServerM Unit}
    (h : x.Follows (closer j) (.unbinding u) (fun _ t => t = .rest) (· = .rest)) :
    x.nextOp = some (.unbindSlot u j.conn) := by
  cases x with
  | ret a => cases h
  | throw => cases h
  | op o k =>
    have ho : o = .unbindSlot u j.conn := h.1.2
    exact congrArg some ho

theorem Covered.perform (h : Covered g u c) (hp : g.tasks i = .busy j (.op o k))
    (hleave : o ≠ .unbindSlot u c) (hset : ∀ x, o = .setUserId c x → x = u)
    (hread : ¬(j = .close c ∧ o = .userId c)) : Covered (g.perform (memExec env) i j o k) u c := by
  rcases h with ⟨hnr, huser⟩ | hl
  · refine .inl ⟨fun h => h.of_perform.elim hnr hread, ?_⟩
    change ((memExec env o g.hist.state).2.conns c).userId = u
    by_cases ho : ∃ x, o = .setUserId c x
    · obtain ⟨x, rfl⟩ := ho
      rw [hset x rfl]
      simp [exec, World.setConn]
    · rw [memExec_userId (by simpa using ho), huser]
  · exact .inr (hl.perform hp hleave)

theorem covered_perform_close {k : Nat → ServerM Unit}
    (hp : g.tasks i = .busy (.close c) (.op (.userId c) k))
    (hi : (Prog.op (.userId c) k).Follows (closer (.close c)) (ts i)
      (fun _ t => t = .rest) (· = .rest))
    (hu : u ≠ 0) (h : Covered g u c) :
    Covered (g.perform (memExec env) i (.close c) (.userId c) k) u c := by
  rcases h with ⟨-, huser⟩ | hl
  · obtain ⟨⟨-, ha⟩, hk⟩ := hi
    have hts : ts i = .reading := by
      cases hts : ts i with
      | rest =>
        rw [hts] at ha
        exact absurd rfl ha
      | reading => rfl
      | unbinding v =>
        rw [hts] at ha
        cases ha
    have hnext := hk u (.unbinding u) ⟨trivial, by simp [hts, Closer.after, hu]⟩
    refine .inr ⟨i, ?_⟩
    rw [Config.nextOp_perform_self]
    change (k (g.hist.state.conns c).userId).nextOp = _
    rw [huser]
    exact Closer.follows_unbinding hnext
  · exact .inr (hl.perform hp (by simp))

theorem Orderly.slots_perform (hg : Orderly g ts) (ht : Config.Tracked closer (· = .rest) g ts)
    (hp : g.tasks i = .busy j (.op o k)) (hok : inOrder g o)
    (hc : c ∈ (g.perform (memExec env) i j o k).hist.state.slot u) :
    u ≠ 0 ∧ Covered (g.perform (memExec env) i j o k) u c := by
  have hi := ht i
  rw [hp] at hi
  have ha := hi.1.2
  change c ∈ (memExec env o g.hist.state).2.slot u at hc
  rw [memExec_slot] at hc
  by_cases hold : c ∈ g.hist.state.slot u
  · obtain ⟨hu, hcov⟩ := hg.slots u c hold
    refine ⟨hu, ?_⟩
    cases o with
    | unbindSlot v d =>
      refine hcov.perform hp ?_ (by simp) (by simp)
      rintro ⟨⟩
      simp [Op.onSlot] at hc
    | setUserId d x =>
      by_cases hd : d = c ∧ x ≠ u
      · obtain ⟨rfl, hx⟩ := hd
        rcases hcov with ⟨hnr, -⟩ | hl
        · exact .inr ((hok hnr u hx.symm hold).perform hp (by simp))
        · exact .inr (hl.perform hp (by simp))
      · refine hcov.perform hp (by simp) ?_ (by simp)
        rintro y ⟨⟩
        exact not_not.mp fun hx => hd ⟨rfl, hx⟩
    | userId d =>
      by_cases hread : j = .close c ∧ d = c
      · obtain ⟨rfl, rfl⟩ := hread
        exact covered_perform_close hp hi hu hcov
      · exact hcov.perform hp (by simp) (by simp) (by simpa using hread)
    | _ => exact hcov.perform hp (by simp) (by simp) (by simp)
  · cases o with
    | bindSlot v d =>
      obtain ⟨rfl, rfl⟩ : v = u ∧ d = c := by
        simp only [Op.onSlot] at hc
        grind
      refine ⟨?_, Covered.perform hok hp (by simp) (by simp) (by simp)⟩
      cases hts : ts i <;> rw [hts] at ha
      · exact ha
      · cases ha
      · cases ha
    | unbindSlot v d =>
      simp only [Op.onSlot] at hc
      grind
    | _ => exact absurd hc hold

theorem Orderly.closed_perform (hg : Orderly g ts) (ha : (ts i).allows j o)
    (hp : g.tasks i = .busy j (.op o k))
    (hc : ((g.perform (memExec env) i j o k).hist.state.conns c).closed = true) :
    CloseRead (g.perform (memExec env) i j o k).hist.log c ∨
      ∃ n x, (g.perform (memExec env) i j o k).tasks n = .busy (.close c) x ∧
        Function.update ts i ((ts i).after o (memExec env o g.hist.state).1) n = .reading := by
  by_cases hold : (g.hist.state.conns c).closed = true
  · rcases hg.closed c hold with hread | ⟨n, x, hn, hts⟩
    · exact .inl hread.mono
    · by_cases hni : n = i
      · -- the task that was about to read the user of the connection has read it
        subst hni
        rw [hp] at hn
        rw [hts] at ha
        cases hn
        exact .inl ⟨_, List.mem_append_right _ (List.mem_singleton.mpr rfl), rfl, ha⟩
      · refine .inr ⟨n, x, ?_, ?_⟩
        · rw [Config.tasks_perform_ne g hni, hn]
        · rw [Function.update_of_ne hni, hts]
  · have ho : o = .finishClose c := by
      change ((memExec env o g.hist.state).2.conns c).closed = true at hc
      rw [memExec_conn] at hc
      cases o <;> simp only [Op.onConn, Conn.sendFrame] at hc <;> grind
    subst ho
    have hfirst : (memExec env (.finishClose c) g.hist.state).1 = true := by
      simpa [exec] using hold
    cases hts : ts i <;> rw [hts] at ha
    · cases show j = .close c from ha
      refine .inr ⟨i, _, Function.update_self .., ?_⟩
      rw [Function.update_self, hfirst]
      rfl
    · cases ha
    · cases ha

theorem occupied_memExec {w : World} (h : ∀ u, w.presence.lookup u ≠ some ∅) (u : Nat) :
    (memExec env o w).2.presence.lookup u ≠ some ∅ := by
  cases o with
  | bindSlot v d =>
    by_cases hv : u = v
    · subst hv
      simp [exec, Presence.bindSlot]
    · simpa [exec, Presence.bindSlot, AList.lookup_insert_ne hv] using h u
  | unbindSlot v d =>
    simp only [exec, Presence.unbindSlot]
    split
    · exact h u
    · split
      · by_cases hv : u = v
        · subst hv
          simp
        · simpa [AList.lookup_erase_ne hv] using h u
      · by_cases hv : u = v
        · subst hv
          simpa
        · simpa [AList.lookup_insert_ne hv] using h u
  | _ => simpa [exec, World.setConn] using h u

theorem AccountsOk.namesUser {w : World} (h : AccountsOk w) (o : Op) :
    namesUser o (memExec env o w).1 := by
  cases o with
  | validate tok =>
    intro info hinfo
    exact h.sessions tok info (SessionManager.validate_some.mp hinfo).1
  | repo o =>
    cases o with
    | findUserByUsername n =>
      intro u hu
      exact (h.users.find hu).2.2
    | _ => trivial
  | _ => trivial

theorem AccountsOk.allowed {w : World} {t : Closer} (h : AccountsOk w) (ha : t.allows j o) :
    AccountsOk (memExec env o w).2 := by
  apply h.op o
  rintro tok info rfl
  cases t with
  | rest => exact ha
  | reading => cases ha
  | unbinding u => cases ha

theorem accountsOk_reachable {ok : Sys → Move Input → Prop} (hg : Reachable env ok g) :
    AccountsOk g.hist.state := by
  obtain ⟨-, -, hI⟩ := Config.Reach.invariant (P := closer) (fun g _ => AccountsOk g.hist.state)
    (fun _ => .rest) (fun _ => .rest) (fun _ => rfl) accountsOk_init (body_closer env)
    (fun g ts i input _ hI _ _ => hI)
    (fun g ts i input o k _ hI _ _ ha => ⟨_, ⟨hI.namesUser o, rfl⟩, hI.allowed ha.2⟩) hg
  exact hI

theorem Orderly.perform (hg : Orderly g ts) (ht : Config.Tracked closer (· = .rest) g ts)
    (hp : g.tasks i = .busy j (.op o k)) (hok : inOrder g o) (ha : (ts i).allows j o) :
    Orderly (g.perform (memExec env) i j o k)
      (Function.update ts i ((ts i).after o (memExec env o g.hist.state).1)) where
  accounts := hg.accounts.allowed ha
  slots _ _ hc := hg.slots_perform ht hp hok hc
  closed _ hc := hg.closed_perform ha hp hc
  bound u _ hc := bound_of_slot_step i j o (hg.bound u) hc
  occupied := occupied_memExec hg.occupied

theorem Orderly.start {t : Task Input Op.Ret} (hg : Orderly g ts) (hi : g.tasks i = .fresh)
    (hrest : ts i = .rest) :
    Orderly { g with tasks := Function.update g.tasks i t } (Function.update ts i .rest) where
  accounts := hg.accounts
  slots u c hc := by
    obtain ⟨hu, hcov⟩ := hg.slots u c hc
    exact ⟨hu, hcov.imp_right fun ⟨n, hn⟩ => ⟨n, Config.nextOp_start hi hn⟩⟩
  closed c hc := by
    refine (hg.closed c hc).imp_right fun ⟨n, x, hn, hts⟩ => ?_
    have hni : n ≠ i := by
      rintro rfl
      rw [hi] at hn
      cases hn
    exact ⟨n, x, by simpa [Function.update_of_ne hni] using hn, by rwa [Function.update_of_ne hni]⟩
  bound := hg.bound
  occupied := hg.occupied

theorem orderly_init : Orderly Sys.start (fun _ => .rest) where
  accounts := accountsOk_init
  slots := by simp [Sys.start, Config.idle, World.init, World.slot, Presence.slot]
  closed := by simp [Sys.start, Config.idle, World.init, Conn.fresh]
  bound := by simp [Sys.start, Config.idle, World.init, World.slot, Presence.slot]
  occupied := by simp [Sys.start, Config.idle, World.init]

theorem orderly_reachable (hg : Reachable env stepInOrder g) :
    ∃ ts, Config.Tracked closer (· = .rest) g ts ∧ Orderly g ts := by
  refine Config.Reach.invariant Orderly (fun _ => .rest) (fun _ => .rest) (fun _ => rfl)
    orderly_init (body_closer env) ?_ ?_ hg
  · intro g ts i input ht hI _ hf
    exact hI.start hf (ht.done (by rw [hf]; rfl))
  · intro g ts i input o k ht hI hok hp ha
    exact ⟨_, ⟨hI.accounts.namesUser o, rfl⟩, hI.perform ht hp (hok o (Config.nextOp_eq hp)) ha.2⟩

end Steps

def Gone (g : Sys) (c : Nat) : Prop :=
  (g.hist.state.conns c).closed = true ∧
    ∀ n input x, g.tasks n = .busy input x → input.conn = c → x.finished = true

/-- A connection that is gone is in no slot.  A user all of whose connections are gone is
offline, and a message sent to that user is queued. -/
structure NoZombies (env : Env) (g : Sys) : Prop where
  unbound : ∀ c, Gone g c → ∀ u, c ∉ g.hist.state.slot u
  offline : ∀ u, (∀ c, Bound g.hist.log u c → Gone g c) →
    Presence.isOnline g.hist.state.presence u = false
  queued : ∀ u, (∀ c, Bound g.hist.log u c → Gone g c) → ∀ sender content,
    ((MessageRouter.sendDm sender u content).run (memExec env) g.hist.state).2.store.queue u =
      g.hist.state.store.queue u ++ [g.hist.state.store.nextMsgId]

theorem Gone.not_leaving {g : Sys} {ts : Nat → Closer} {c : Nat} (hc : Gone g c)
    (ht : Config.Tracked closer (· = .rest) g ts) (u : Nat) : ¬Leaving g u c := by
  rintro ⟨n, hn⟩
  have hfollows := ht n
  cases htask : g.tasks n with
  | fresh => simp [Config.nextOp, htask] at hn
  | busy input x =>
    rw [htask] at hfollows
    cases x with
    | op o k =>
      rw [Config.nextOp_eq htask] at hn
      cases hn
      have hconn : c = input.conn := hfollows.1.1
      cases hc.2 n input _ htask hconn.symm
    | _ => simp [Config.nextOp, htask, Prog.nextOp] at hn

theorem Gone.closeRead {g : Sys} {ts : Nat → Closer} {c : Nat} (hc : Gone g c)
    (ht : Config.Tracked closer (· = .rest) g ts) (hg : Orderly g ts) : CloseRead g.hist.log c := by
  rcases hg.closed c hc.1 with hread | ⟨n, x, hn, hts⟩
  · exact hread
  · have hrest : ts n = .rest := ht.done (by rw [hn]; exact hc.2 n _ x hn rfl)
    rw [hts] at hrest
    cases hrest

theorem Gone.unbound {g : Sys} {ts : Nat → Closer} {c : Nat} (hc : Gone g c)
    (ht : Config.Tracked closer (· = .rest) g ts) (hg : Orderly g ts) (u : Nat) :
    c ∉ g.hist.state.slot u := by
  intro hmem
  rcases (hg.slots u c hmem).2 with ⟨hread, -⟩ | hl
  · exact hread (hc.closeRead ht hg)
  · exact hc.not_leaving ht u hl

theorem Uses.queue {α : Type} {c : Nat} {x : ServerM α} (hx : Uses c [.dm] x)
    (env : Env) (w : World)
    (u : Nat) : (x.run (memExec env) w).2.store.queue u = w.store.queue u := by
  apply Only.run (R := fun v v' => v'.store.queue u = v.store.queue u) _ _ _ hx w
  · exact fun _ => rfl
  · intro v v' v'' h h'
    exact h'.trans h
  · rintro o v ⟨hk, -⟩
    cases o with
    | repo o =>
      rw [memExec_repo, memory_queue]
      cases o <;> first | rfl | simp at hk
    | _ => rw [memExec_store env _ _ (by simp)]

theorem sendDm_queue (env : Env) {w : World} {u : Nat} (hslot : w.slot u = ∅) (sender : Nat)
    (content : String) :
    ((MessageRouter.sendDm sender u content).run (memExec env) w).2.store.queue u =
      w.store.queue u ++ [w.store.nextMsgId] := by
  have horder (n : Nat) : env.order n (w.slot u) = [] := by
    rw [List.eq_nil_iff_forall_not_mem]
    intro c hc
    rw [env.mem_order, hslot] at hc
    simp at hc
  have hecho (event : Json) (id : Nat) : Uses 0 [.dm] (do
      let own ← call (.connectionsOf .echo sender)
      sendEach .echo sender event own
      pure id) := by
    simp
  unfold MessageRouter.sendDm
  simp only [bind_eq_bind, Prog.call, op_bind, ret_bind, run_op]
  set ts := (memExec env .now w).1
  set v := (memExec env (.repo (.insertDm sender u content ts)) (memExec env .now w).2).2 with hv
  have hid : (memExec env (.repo (.insertDm sender u content ts)) (memExec env .now w).2).1 =
    some w.store.nextMsgId := rfl
  rw [hid]
  simp only [run_op]
  have hconns : (memExec env (.connectionsOf .deliver u) v).1 = [] := horder _
  rw [hconns]
  apply ((hecho _ _).queue env _ u).trans
  rw [memExec_repo, memory_queue]
  simp only [RepoOp.onQueue, if_true]
  rfl

theorem no_zombie_presence {env : Env} {g : Sys} (hg : Reachable env stepInOrder g) :
    NoZombies env g := by
  obtain ⟨ts, ht, hI⟩ := orderly_reachable hg
  have hempty (u : Nat) (hu : ∀ c, Bound g.hist.log u c → Gone g c) : g.hist.state.slot u = ∅ := by
    rw [Finset.eq_empty_iff_forall_notMem]
    intro c hc
    exact (hu c (hI.bound u c hc)).unbound ht hI u hc
  refine ⟨fun c hc u => hc.unbound ht hI u, fun u hu => ?_, fun u hu =>
    sendDm_queue env (hempty u hu)⟩
  rw [Presence.isOnline, Option.isSome_eq_false_iff, Option.isNone_iff_eq_none]
  cases hl : g.hist.state.presence.lookup u with
  | none => rfl
  | some cs =>
    have hcs : cs = ∅ := by simpa [World.slot, Presence.slot, hl] using hempty u hu
    exact absurd (hcs ▸ hl) (hI.occupied u)

section Runs

def visitReqs : List Json := [registerReq "alice" "wonder", loginReq "alice" "wonder"]

def visitEnv : Env := sampleEnv visitReqs

def visitRun (n : Nat) : List (Move Input) :=
  begin 0 (ask 1 (registerReq "alice" "wonder")) 3 ++
  begin 1 (ask 1 (loginReq "alice" "wonder")) n ++
  begin 2 (.close 1) (if n = 10 then 6 else 4) ++ List.replicate (10 - n) (.advance 1)

def stepInOrderCheck (g : Sys) : Move Input → Bool
  | .start _ _ => true
  | .advance i =>
    match g.nextOp i with
    | some (.bindSlot u c) =>
      (g.hist.log.all fun e => e.job ≠ .close c) && (g.hist.state.conns c).userId = u
    | some (.setUserId c u) =>
      g.hist.state.presence.keys.all fun v => v = u ∨ c ∉ g.hist.state.slot v
    | _ => true

theorem Presence.mem_keys_of_mem_slot {map : Presence.Slots} {u c : Nat}
    (h : c ∈ Presence.slot map u) : u ∈ map.keys := by
  rw [Presence.slot] at h
  cases hl : map.lookup u with
  | none => simp [hl] at h
  | some cs => exact AList.lookup_isSome.mp (by rw [hl]; rfl)

theorem stepInOrder_of_check (g : Sys) (m : Move Input) (h : stepInOrderCheck g m = true) :
    stepInOrder g m := by
  cases m with
  | start i input => trivial
  | advance i =>
    intro o ho
    simp only [stepInOrderCheck, ho] at h
    unfold inOrder
    split
    · simp only [Bool.and_eq_true, List.all_eq_true, decide_eq_true_eq] at h
      refine .inl ⟨?_, h.2⟩
      rintro ⟨e, he, hj, -⟩
      exact h.1 e he hj
    · rename_i c u
      simp only [List.all_eq_true, decide_eq_true_eq] at h
      intro _ v hv hc
      exact ((h v (Presence.mem_keys_of_mem_slot hc)).resolve_left hv hc).elim
    · trivial

theorem gone_of_quiet {g : Sys} {c : Nat} (hq : g.quiet)
    (hc : (g.hist.state.conns c).closed = true) : Gone g c := by
  refine ⟨hc, fun n input x hn _ => ?_⟩
  have hfin := hq n
  rwa [hn] at hfin

def Op.binds (u c : Nat) : Op → Bool
  | .bindSlot v d => v = u ∧ d = c
  | _ => false

theorem Op.eq_of_binds {u c : Nat} {o : Op} (h : o.binds u c = true) : o = .bindSlot u c := by
  unfold Op.binds at h
  split at h
  · obtain ⟨rfl, rfl⟩ := of_decide_eq_true h
    rfl
  · cases h

theorem no_zombie_presence_visitRun :
    ∃ g, Reachable visitEnv stepInOrder g ∧ g.quiet ∧ Gone g 1 ∧ Bound g.hist.log 1 1 ∧
      NoZombies visitEnv g := by
  have hrun : (Sys.start.steps (memExec visitEnv) (body visitEnv) stepInOrderCheck
    (visitRun 10)).map
      (fun g => ((List.range 3).all fun i => (g.tasks i).finished, (g.hist.state.conns 1).closed,
        g.hist.log.any fun e => e.op.binds 1 1)) =
          some (true, true, true) := by decide +kernel
  obtain ⟨g, hreach, hquiet, heq⟩ :=
    Config.Reach.quiet_of_steps stepInOrder_of_check 3 (by decide) hrun
  simp only [Prod.mk.injEq, List.any_eq_true] at heq
  obtain ⟨hclosed, e, he, ho⟩ := heq
  exact ⟨g, hreach, hquiet, gone_of_quiet hquiet hclosed, ⟨e, he, Op.eq_of_binds ho⟩,
    no_zombie_presence hreach⟩

theorem zombie_presence_visitRun :
    ∃ g, Reachable visitEnv (fun _ _ => True) g ∧ g.quiet ∧ ¬NoZombies visitEnv g := by
  -- The close callback runs between `set_session_token` and `Presence::bind` of the login.
  have hrun : (Sys.start.steps (memExec visitEnv) (body visitEnv) (fun _ _ => true)
    (visitRun 7)).map
      (fun g => ((List.range 3).all fun i => (g.tasks i).finished, (g.hist.state.conns 1).closed,
        (1 ∈ g.hist.state.slot 1 : Bool))) = some (true, true, true) := by decide +kernel
  obtain ⟨g, hreach, hquiet, heq⟩ :=
    Config.Reach.quiet_of_steps (fun _ _ _ => trivial) 3 (by decide) hrun
  simp only [Prod.mk.injEq, decide_eq_true_eq] at heq
  obtain ⟨hclosed, hslot⟩ := heq
  refine ⟨g, hreach, hquiet, fun hno => ?_⟩
  exact hno.unbound 1 (gone_of_quiet hquiet hclosed) 1 hslot

end Runs

end ChatServer
