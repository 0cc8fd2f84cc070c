import ChatServer.Server.Identity

namespace ChatServer

open Lib Lib.Prog

def Input.req (env : Env) : Input → Option Json
  | .request _ payload => env.parse payload
  | .close _ => none

/-- `SessionManager::create` has put the session into the cache, and the token has been
neither revoked nor issued again since. -/
def Standing (log : Log) (tok : String) (info : SessionInfo) : Prop :=
  ∃ pre e post, log = pre ++ e :: post ∧ e.op = .cachePut tok info ∧
    ∀ e' ∈ post, e'.op ≠ .cacheErase tok ∧ ∀ info', e'.op ≠ .cachePut tok info'

def Credentials (env : Env) (input : Input) (name : String) (user : User) : Prop :=
  ∃ req, input.req env = some req ∧ getStr req "type" = types.kLogin ∧
    getStr req "username" = name ∧
      env.verifyPasswordHash (getStr req "password") user.passwordHash = true

/-- With `log` before it, the event proves that its connection may act as user `u`. -/
inductive Proof (env : Env) (log : Log) (e : Event Input Op World) (u : Nat) : Prop
  | login {name : String} {user : User} (hop : e.op = .repo (.findUserByUsername name))
      (hfind : e.before.store.findUserByUsername name = .ok (some user))
      (hname : user.username = name) (hrow : e.before.store.findUserById u = some user)
      (hpass : Credentials env e.job name user)
  | token {req : Json} {expiry : Int} (hreq : e.job.req env = some req)
      (hop : e.op = .validate (getStr req "token"))
      (hissued : Standing log (getStr req "token") ⟨u, expiry⟩)
      (hlive : env.clock e.before.ticks < expiry)

def Proved (env : Env) (log : Log) (c u : Nat) : Prop :=
  ∃ pre e post, log = pre ++ e :: post ∧ e.job.conn = c ∧ Proof env pre e u

def ActsAs (log : Log) (i c u : Nat) : Prop :=
  ∃ e ∈ log, e.task = i ∧ ((e.op = .userId c ∧ (e.before.conns c).userId = u) ∨
    e.op = .setUserId c u)

def Stores (e : Event Input Op World) (m : Message) : Prop :=
  ∃ o, e.op = .repo o ∧ o.stores e.before.store = some m.core

structure Attested (env : Env) (h : Hist) : Prop where
  users : ∀ c, (h.state.conns c).userId ≠ 0 → Proved env h.log c (h.state.conns c).userId
  senders : ∀ m ∈ h.state.store.messages, ∃ pre e post, h.log = pre ++ e :: post ∧ Stores e m ∧
    (e.job.req env).isSome ∧ ActsAs pre e.task e.job.conn m.senderId

/-- What a task may do in the name of a user: the users it has a proof for, the user it
acts as, and the users it has made its connection. -/
structure Warrant where
  granted : Set Nat
  acting : Option Nat
  became : Set Nat

namespace Warrant

variable (env : Env) (input : Input)

def none : Warrant := ⟨∅, .none, ∅⟩

def allows (t : Warrant) : Op → Prop
  | .setUserId _ u => u = 0 ∨ u ∈ t.granted
  | .bindSlot u _ => u ∈ t.granted ∧ u ∈ t.became
  | .validate tok => ∃ req, input.req env = some req ∧ tok = getStr req "token"
  | .repo (.insertDm s _ _ _) => (input.req env).isSome ∧ t.acting = some s
  | .repo (.insertRoomMsg s _ _ _) => (input.req env).isSome ∧ t.acting = some s
  | _ => True

def after (t : Warrant) : (o : Op) → o.Ret → Warrant
  | .userId _, u => { t with acting := some u }
  | .setUserId _ u, _ => { t with acting := some u, became := insert u t.became }
  | .validate _, some info => { t with granted := insert info.userId t.granted }
  | .repo (.findUserByUsername n), .ok (some user) =>
    { t with granted := {u | u ∈ t.granted ∨ (u = user.id ∧ Credentials env input n user)} }
  | _, _ => t

variable {env input}

theorem allows.of_stores {t : Warrant} {r : RepoOp} {s : Store} {m : Message}
    (h : t.allows env input (.repo r))
    (hr : r.stores s = some m.core) : (input.req env).isSome ∧ t.acting = some m.senderId := by
  have hsender : (r.stores s).map Message.senderId = some m.senderId := by
    rw [hr]
    rfl
  cases r with
  | insertDm a b content ts =>
    cases hsender
    exact h
  | insertRoomMsg a b content ts =>
    cases hsender
    exact h
  | _ => cases hr

end Warrant

def warrants (env : Env) (input : Input) : Contract Op.Ret Warrant where
  allows t o := o.concerns input.conn ∧ t.allows env input o
  next t o r t' := t' = t.after env input o r

section Programs

variable {env : Env} {c : Nat} {payload : List UInt8} {req : Json}

def Kind.unguarded : Kind → Bool
  | .assume | .bind | .validate | .storeDm | .storeRoomMsg => false
  | _ => true

theorem warrants_neutral {R : Warrant → Prop} {ks : List Kind} {input : Input}
    (hks : ks.all Kind.unguarded = true)
    (hR : ∀ t o r, o.kind ∈ ks → R t → R (t.after env input o r)) :
    Neutral (warrants env input) R input.conn ks := by
  rintro o ⟨hk, hc⟩ t ht
  refine ⟨⟨hc, ?_⟩, ?_⟩
  · have hfree := List.all_eq_true.mp hks _ hk
    unfold Warrant.allows
    split <;> simp_all [Kind.unguarded]
  · rintro r t' rfl
    exact ⟨hR t o r hk ht, trivial⟩

theorem warrants_free (env : Env) (input : Input) :
    Neutral (warrants env input) (fun _ => True) input.conn [.own, .reply, .ident, .session, .issue,
      .unbind, .close, .dm, .roomMsg, .queue, .replay, .membership] :=
  warrants_neutral rfl fun _ _ _ _ _ => trivial

theorem warrants_acting (env : Env) (input : Input) (u : Nat) :
    Neutral (warrants env input) (fun t => t.acting = some u) input.conn [.own, .reply, .dm,
      .roomMsg, .queue, .replay] := by
  apply warrants_neutral rfl
  intro t o r hk ht
  unfold Warrant.after
  split <;> simp_all

theorem warrants_granted (env : Env) (input : Input) (u : Nat) :
    Neutral (warrants env input) (fun t => u ∈ t.granted) input.conn [.own, .session, .issue] := by
  apply warrants_neutral rfl
  intro t o r hk ht
  unfold Warrant.after
  split <;> simp_all

theorem bind_warrants {u : Nat} {t : Warrant} (hgrant : u ∈ t.granted) (hact : t.acting = some u)
    (hbecame : u ∈ t.became) :
    (Presence.bind u c).Follows (warrants env (.request c payload)) t
      (fun _ t' => t'.acting = some u)
      (fun _ => True) := by
  refine ⟨⟨rfl, hgrant, hbecame⟩, ?_⟩
  rintro transitioned t' rfl
  have hrest : Uses c [.replay]
      ((if transitioned then onTransition u true else pure () : ServerM Unit).bind
        fun _ => .ret transitioned) :=
    Uses.bind (by simp [onTransition]) fun _ => uses_ret _
  apply (hrest.keeps (warrants_acting env (.request c payload) u) (by decide) _ hact).mono
  · exact fun _ _ h => h
  · exact fun _ _ => trivial

theorem requireAuth_warrants (hreq : env.parse payload = some req) (id : Option Int) (t : Warrant) :
    (handlers.requireAuth c req id).Follows (warrants env (.request c payload)) t
      (fun uid t' => uid = 0 ∨ t'.acting = some uid) (fun _ => True) := by
  have hsend (j : Json) (t : Warrant) :
      ((handlers.send c j).bind fun _ => (.ret 0 : ServerM Nat)).Follows
        (warrants env (.request c payload)) t (fun uid t' => uid = 0 ∨ t'.acting = some uid)
        (fun _ => True) := by
    refine ⟨⟨rfl, trivial⟩, ?_⟩
    rintro r t' rfl
    exact .inl rfl
  refine ⟨⟨rfl, trivial⟩, ?_⟩
  rintro uid t' rfl
  dsimp only [ret_bind]
  split
  · exact .inr rfl
  · split
    · exact hsend _ _
    · refine ⟨⟨trivial, req, hreq, rfl⟩, ?_⟩
      rintro info t' rfl
      cases info with
      | none => exact hsend _ _
      | some info =>
        refine ⟨⟨rfl, .inr (Set.mem_insert ..)⟩, ?_⟩
        rintro r t' rfl
        refine ⟨⟨rfl, trivial⟩, ?_⟩
        rintro r t' rfl
        dsimp only [ret_bind]
        apply (follows_bind ..).mpr
        apply (bind_warrants (Set.mem_insert ..) rfl (Set.mem_insert ..)).mono
        · exact fun _ t' h => .inr h
        · exact fun _ _ => trivial

theorem withAuth_warrants (hreq : env.parse payload = some req) (id : Option Int)
    {act : Nat → ServerM Unit}
    (hact : ∀ uid, Keeps (warrants env (.request c payload)) (fun t => t.acting = some uid)
      (act uid)) :
    Keeps (warrants env (.request c payload)) (fun _ => True) (handlers.withAuth c req id act) := by
  intro t _
  apply (follows_bind ..).mpr
  apply (requireAuth_warrants hreq id t).mono
  · intro uid t' h
    split
    · exact trivial
    · exact (hact uid t' (h.resolve_left ‹_›)).mono (fun _ _ _ => trivial) fun _ _ => trivial
  · exact fun _ _ => trivial

theorem handleLogin_warrants (hreq : env.parse payload = some req)
    (htype : getStr req "type" = types.kLogin) (id : Option Int) :
    Keeps (warrants env (.request c payload)) (fun _ => True)
    (handlers.handleLogin env c req id) := by
  have hks := warrants_free env (.request c payload)
  have hsend := handlers.send_keeps hks (by decide)
  intro t _
  refine ⟨⟨trivial, trivial⟩, ?_⟩
  rintro found t' rfl
  rcases found with e | (_ | u)
  · exact trivial
  · exact hsend _ _ trivial
  · dsimp only [ret_bind]
    split
    · rename_i hpass
      have huses : Uses c [.own, .session, .issue] (SessionManager.create env u.id) := by simp
      apply (follows_bind ..).mpr
      -- while the session is created the task keeps the warrant of the password
      apply (huses.keeps (warrants_granted env (.request c payload) u.id) (by decide) _ _).mono
      · intro token t' ht
        refine ⟨⟨rfl, .inr ht⟩, ?_⟩
        rintro r t' rfl
        refine ⟨⟨rfl, trivial⟩, ?_⟩
        rintro r t' rfl
        dsimp only [ret_bind]
        apply (follows_bind ..).mpr
        apply (bind_warrants (t := ⟨t'.granted, some u.id, _⟩) ht rfl (Set.mem_insert ..)).mono
        · exact fun _ t' _ => hsend _ t' trivial
        · exact fun _ _ => trivial
      · exact fun _ _ => trivial
      · exact .inr ⟨rfl, req, hreq, htype, rfl, hpass⟩
    · exact hsend _ _ trivial

theorem handleLogout_warrants (req : Json) (id : Option Int) :
    Keeps (warrants env (.request c payload)) (fun _ => True) (handlers.handleLogout c req id) := by
  refine handlers.handleLogout_keeps (warrants_free env (.request c payload)) (by decide) ?_ req id
  exact fun t _ => ⟨⟨rfl, .inl rfl⟩, fun _ _ _ => ⟨trivial, trivial⟩⟩

theorem insert_warranted {sender b : Nat} {content : String} {ts : Int} {r : RepoOp}
    (hr : r = .insertDm sender b content ts ∨ r = .insertRoomMsg sender b content ts)
    (hreq : env.parse payload = some req) :
    Answers (warrants env (.request c payload)) (fun t => t.acting = some sender) (.repo r) fun _ =>
    True := by
  obtain rfl | rfl := hr <;> intro t ht
  · refine ⟨⟨trivial, by simp [Input.req, hreq], ht⟩, ?_⟩
    rintro r t' rfl
    exact ⟨ht, trivial⟩
  · refine ⟨⟨trivial, by simp [Input.req, hreq], ht⟩, ?_⟩
    rintro r t' rfl
    exact ⟨ht, trivial⟩

theorem sendDm_warrants (sender receiver : Nat) (content : String)
    (hreq : env.parse payload = some req) :
    Keeps (warrants env (.request c payload)) (fun t => t.acting = some sender)
      (MessageRouter.sendDm sender receiver content) := by
  have hks := warrants_acting env (.request c payload) sender
  refine hks.op (o := .now) (by simp) fun ts => ?_
  refine (insert_warranted (.inl rfl) hreq).op fun id _ => ?_
  cases id with
  | none => exact keeps_ret 0
  | some id =>
    refine hks.op (o := .connectionsOf .deliver receiver) (by simp) fun conns => ?_
    dsimp only [ret_bind]
    refine Uses.keeps (show Uses c [.dm, .queue] _ from Uses.bind ?_ fun _ => ?_) hks (by decide)
    · simp
    · simp

theorem sendRoom_warrants (sender room : Nat) (content : String)
    (hreq : env.parse payload = some req) :
    Keeps (warrants env (.request c payload)) (fun t => t.acting = some sender)
      (MessageRouter.sendRoom sender room content) := by
  have hks := warrants_acting env (.request c payload) sender
  refine hks.op (o := .isMember room sender) (by simp) fun member => ?_
  dsimp only [ret_bind]
  split
  · refine hks.op (o := .now) (by simp) fun ts => ?_
    refine (insert_warranted (.inr rfl) hreq).op fun id _ => ?_
    cases id with
    | none => exact keeps_ret 0
    | some id =>
      refine hks.op (o := .membersOf room) (by simp) fun members => ?_
      refine Uses.keeps (show Uses c [.roomMsg, .queue] _ from Uses.bind ?_ fun _ => ?_)
        hks (by decide)
      · simp
      · simp
  · exact keeps_ret 0

theorem handleSendDm_warrants (hreq : env.parse payload = some req) (id : Option Int) :
    Keeps (warrants env (.request c payload)) (fun _ => True)
    (handlers.handleSendDm env c req id) := by
  obtain ⟨act, heq, hact⟩ := handlers.handleSendDm_act env c req id
  rw [heq]
  apply withAuth_warrants hreq id
  intro sender
  exact hact sender (warrants_acting env _ sender) (by decide) fun r s _ =>
    sendDm_warrants sender r s hreq

theorem handleSendRoom_warrants (hreq : env.parse payload = some req) (id : Option Int) :
    Keeps (warrants env (.request c payload)) (fun _ => True)
    (handlers.handleSendRoom env c req id) := by
  obtain ⟨act, heq, hact⟩ := handlers.handleSendRoom_act env c req id
  rw [heq]
  apply withAuth_warrants hreq id
  intro sender
  exact hact sender (warrants_acting env _ sender) (by decide) fun r s _ =>
    sendRoom_warrants sender r s hreq

theorem body_warrants (env : Env) (input : Input) (t : Warrant) :
    (body env input).Follows (warrants env input) t (fun _ _ => True) (fun _ => True) := by
  have hks := warrants_free env input
  cases input with
  | close c => exact close_uses.keeps hks (by decide) t trivial
  | request c payload =>
    have hauth (req : Json) (hreq : env.parse payload = some req) :
        Keeps (warrants env (.request c payload)) (fun _ => True)
          (handlers.requireAuth c req (requestId req)) := fun t _ =>
      (requireAuth_warrants hreq _ t).mono (fun _ _ _ => trivial) fun _ _ => trivial
    refine handlers.dispatch_keeps hks (by decide) hauth
      (fun req hreq htype => handleLogin_warrants hreq htype _)
      (fun req _ => handleLogout_warrants req _)
      (fun req hreq => handleSendDm_warrants hreq _)
      (fun req hreq => handleSendRoom_warrants hreq _)
      (fun req hreq => handlers.handleCreateRoom_acts.keeps hks (by decide) (hauth req hreq))
      (fun req hreq => handlers.handleJoinRoom_acts.keeps hks (by decide) (hauth req hreq))
      (fun req hreq => handlers.handleLeaveRoom_acts.keeps hks (by decide) (hauth req hreq)) t
        trivial

end Programs

structure Evidenced (env : Env) (g : Sys) (ts : Nat → Warrant) : Prop where
  accounts : g.hist.state.store.UsersOk
  sessions : ∀ tok info, g.hist.state.sessions.lookup tok = some info → Standing g.hist.log tok info
  granted : ∀ i input x, g.tasks i = .busy input x →
    ∀ u ∈ (ts i).granted, Proved env g.hist.log input.conn u
  acting : ∀ i input x, g.tasks i = .busy input x →
    ∀ u, (ts i).acting = some u → ActsAs g.hist.log i input.conn u
  attested : Attested env g.hist

section Mono

variable {env : Env} {log : Log} {tok : String} {info : SessionInfo} {i c u : Nat}
  {e : Event Input Op World}

theorem Standing.mono (h : Standing log tok info) (herase : e.op ≠ .cacheErase tok)
    (hput : ∀ info', e.op ≠ .cachePut tok info') : Standing (log ++ [e]) tok info := by
  obtain ⟨pre, e₀, post, rfl, hop, hpost⟩ := h
  refine ⟨pre, e₀, post ++ [e], by simp, hop, ?_⟩
  intro e' he'
  rcases List.mem_append.mp he' with he' | he'
  · exact hpost e' he'
  · rw [List.mem_singleton.mp he']
    exact ⟨herase, hput⟩

theorem Proved.mono (h : Proved env log c u) : Proved env (log ++ [e]) c u := by
  obtain ⟨pre, e₀, post, rfl, hproof⟩ := h
  exact ⟨pre, e₀, post ++ [e], by simp, hproof⟩

theorem ActsAs.mono (h : ActsAs log i c u) : ActsAs (log ++ [e]) i c u := by
  obtain ⟨e₀, he, hacts⟩ := h
  exact ⟨e₀, List.mem_append_left _ he, hacts⟩

theorem Proof.proved (h : Proof env log e u) : Proved env (log ++ [e]) e.job.conn u :=
  ⟨log, e, [], rfl, rfl, h⟩

end Mono

section Steps

variable {env : Env} {h : Hist} (i : Nat) (j : Input) (o : Op)

theorem standing_step {tok : String} {info : SessionInfo}
    (hs : ∀ tok info, h.state.sessions.lookup tok = some info → Standing h.log tok info)
    (hl : (h.record (memExec env) i j o).2.state.sessions.lookup tok = some info) :
    Standing (h.record (memExec env) i j o).2.log tok info := by
  change (memExec env o h.state).2.ident.sessions.lookup tok = some info at hl
  rw [memExec_ident] at hl
  rw [History.record_log]
  cases o with
  | cachePut t i' =>
    by_cases ht : tok = t
    · subst ht
      simp only [Op.onIdent, Ident.issue, AList.lookup_insert, Option.some.injEq] at hl
      subst hl
      exact ⟨h.log, _, [], rfl, rfl, by simp⟩
    · simp only [Op.onIdent, Ident.issue, AList.lookup_insert_ne ht] at hl
      exact (hs tok info hl).mono (by simp) (by simp [Ne.symm ht])
  | cacheErase t =>
    by_cases ht : tok = t
    · subst ht
      simp [Op.onIdent, Ident.revoke] at hl
    · simp only [Op.onIdent, Ident.revoke, AList.lookup_erase_ne ht] at hl
      exact (hs tok info hl).mono (by simp [Ne.symm ht]) (by simp)
  | validate t => exact (hs tok info (SessionManager.lookup_validate hl)).mono (by simp) (by simp)
  | _ => exact (hs tok info hl).mono (by simp) (by simp)

theorem granted_step {t : Warrant} {u : Nat} (hu : h.state.store.UsersOk)
    (hs : ∀ tok info, h.state.sessions.lookup tok = some info → Standing h.log tok info)
    (hg : ∀ u ∈ t.granted, Proved env h.log j.conn u) (ha : t.allows env j o)
    (hmem : u ∈ (t.after env j o (memExec env o h.state).1).granted) :
    Proved env (h.record (memExec env) i j o).2.log j.conn u := by
  rw [History.record_log]
  cases o with
  | validate tok =>
    obtain ⟨req, hreq, rfl⟩ := ha
    cases hv : (memExec env (.validate (getStr req "token")) h.state).1 with
    | none =>
      rw [hv] at hmem
      exact (hg u hmem).mono
    | some info =>
      rw [hv] at hmem
      rcases hmem with rfl | hmem
      · obtain ⟨hl, hlt⟩ := SessionManager.validate_some.mp hv
        exact Proof.proved (.token hreq rfl (hs _ info hl) hlt)
      · exact (hg u hmem).mono
  | repo r =>
    cases r with
    | findUserByUsername n =>
      cases hf : (memExec env (.repo (.findUserByUsername n)) h.state).1 with
      | error _ =>
        rw [hf] at hmem
        exact (hg u hmem).mono
      | ok found =>
        rw [hf] at hmem
        cases found with
        | none => exact (hg u hmem).mono
        | some user =>
          rcases hmem with hmem | ⟨rfl, hpass⟩
          · exact (hg u hmem).mono
          · obtain ⟨hname, hrow, -⟩ := hu.find hf
            exact Proof.proved (.login rfl hf hname hrow hpass)
    | _ => exact (hg u hmem).mono
  | _ => exact (hg u hmem).mono

theorem acting_step {t : Warrant} {u : Nat} (hc : o.concerns j.conn)
    (hg : ∀ u, t.acting = some u → ActsAs h.log i j.conn u)
    (hact : (t.after env j o (memExec env o h.state).1).acting = some u) :
    ActsAs (h.record (memExec env) i j o).2.log i j.conn u := by
  rw [History.record_log]
  cases o with
  | userId c =>
    cases show c = j.conn from hc
    refine ⟨_, List.mem_append_right _ (List.mem_singleton.mpr rfl), rfl, .inl ⟨rfl, ?_⟩⟩
    exact Option.some.inj hact
  | setUserId c v =>
    cases show c = j.conn from hc
    cases Option.some.inj hact
    exact ⟨_, List.mem_append_right _ (List.mem_singleton.mpr rfl), rfl, .inr rfl⟩
  | validate tok =>
    apply ActsAs.mono (hg u _)
    unfold Warrant.after at hact
    split at hact <;> simp_all
  | repo r =>
    apply ActsAs.mono (hg u _)
    unfold Warrant.after at hact
    split at hact <;> simp_all
  | _ => exact (hg u hact).mono

theorem attested_step {t : Warrant} (ha : t.allows env j o) (hc : o.concerns j.conn)
    (hgrant : ∀ u ∈ t.granted, Proved env h.log j.conn u)
    (hact : ∀ u, t.acting = some u → ActsAs h.log i j.conn u) (hatt : Attested env h) :
    Attested env (h.record (memExec env) i j o).2 where
  users c hne := by
    rw [History.record_state] at hne ⊢
    rw [History.record_log]
    by_cases ho : ∃ u, o = .setUserId c u
    · obtain ⟨u, rfl⟩ := ho
      have hset : ((memExec env (.setUserId c u) h.state).2.conns c).userId = u := by
        simp [exec, World.setConn]
      rw [hset] at hne ⊢
      rw [show c = j.conn from hc]
      exact (hgrant u (ha.resolve_left hne)).mono
    · rw [memExec_userId (by simpa using ho)] at hne ⊢
      exact (hatt.users c hne).mono
  senders m hm := by
    rw [History.record_log]
    rcases mem_messages_memExec hm with ⟨m', hm', hcore⟩ | ⟨r, rfl, hr⟩
    · obtain ⟨pre, e, post, hlog, ⟨o', ho', hst⟩, hreq, has⟩ := hatt.senders m' hm'
      have hsender : m'.core.senderId = m.core.senderId := by rw [hcore]
      refine ⟨pre, e, post ++ [⟨i, j, o, h.state⟩], by simp [hlog], ⟨o', ho', by rw [hst, hcore]⟩,
        hreq, ?_⟩
      rwa [show m.senderId = m'.senderId from hsender.symm]
    · refine ⟨h.log, _, [], rfl, ⟨r, rfl, hr⟩, ?_⟩
      obtain ⟨hreq, hacting⟩ := Warrant.allows.of_stores ha hr
      exact ⟨hreq, hact _ hacting⟩

end Steps

theorem attested_init (env : Env) : Attested env Hist.start where
  users := by simp [Hist.start, World.init, Conn.fresh]
  senders := by simp [Hist.start, World.init, Store.empty]

theorem Evidenced.start {env : Env} {g : Sys} {ts : Nat → Warrant}
    (hg : Evidenced env g ts) (i : Nat) (j : Input) (x : ServerM Unit) :
    Evidenced env { g with tasks := Function.update g.tasks i (.busy j x) }
    (Function.update ts i .none) where
  accounts := hg.accounts
  sessions := hg.sessions
  granted := Config.forall_busy_update
    (Q := fun _ (input : Input) (t : Warrant) =>
      ∀ u ∈ t.granted, Proved env g.hist.log input.conn u)
    (fun _ hu => hu.elim) fun n input x _ hn => hg.granted n input x hn
  acting := Config.forall_busy_update
    (Q := fun n (input : Input) (t : Warrant) => ∀ u, t.acting = some u →
      ActsAs g.hist.log n input.conn u)
    (fun _ hu => nomatch hu) fun n input x _ hn => hg.acting n input x hn
  attested := hg.attested

theorem Evidenced.perform {env : Env} {g : Sys} {ts : Nat → Warrant} {i : Nat} {j : Input} {o : Op}
    {k : o.Ret → ServerM Unit} (hg : Evidenced env g ts) (hp : g.tasks i = .busy j (.op o k))
    (ha : (warrants env j).allows (ts i) o) :
    Evidenced env (g.perform (memExec env) i j o k)
      (Function.update ts i ((ts i).after env j o (memExec env o g.hist.state).1)) where
  accounts := memExec_usersOk o hg.accounts
  sessions _ _ hl := standing_step i j o hg.sessions hl
  granted := Config.forall_busy_update
    (Q := fun _ (input : Input) (t : Warrant) =>
      ∀ u ∈ t.granted, Proved env (g.perform (memExec env) i j o k).hist.log input.conn u)
    (fun _ hu => granted_step i j o hg.accounts hg.sessions (hg.granted i j _ hp) ha.2 hu)
    fun n input x _ hn u hu => (hg.granted n input x hn u hu).mono
  acting := Config.forall_busy_update
    (Q := fun n (input : Input) (t : Warrant) =>
      ∀ u, t.acting = some u → ActsAs (g.perform (memExec env) i j o k).hist.log n input.conn u)
    (fun _ hu => acting_step i j o ha.1 (hg.acting i j _ hp) hu)
    fun n input x _ hn u hu => (hg.acting n input x hn u hu).mono
  attested := attested_step i j o ha.2 ha.1 (hg.granted i j _ hp) (hg.acting i j _ hp) hg.attested

theorem attested_reachable {env : Env} {g : Sys} (hg : Reachable env (fun _ _ => True) g) :
    Attested env g.hist := by
  have hinv : ∃ ts, Config.Tracked (warrants env) (fun _ => True) g ts ∧ Evidenced env g ts := by
    refine Config.Reach.invariant (Evidenced env) (fun _ => .none) (fun _ => .none)
      (fun _ => trivial)
      ?_ (fun input => body_warrants env input _) ?_ ?_ hg
    · exact ⟨Store.usersOk_empty, by simp [Sys.start, Config.idle, World.init],
        by simp [Warrant.none], by simp [Warrant.none], attested_init env⟩
    · intro g ts i input _ hI _ _
      exact hI.start i input _
    · intro g ts i input o k _ hI _ hp ha
      exact ⟨_, rfl, hI.perform hp ha⟩
  obtain ⟨ts, -, hI⟩ := hinv
  exact hI.attested

def Punctual (env : Env) (h : Hist) : Prop :=
  ∀ m ∈ h.state.store.messages, ∃ e ∈ h.log, Stores e m ∧ (e.job.req env).isSome ∧
    (e.before.conns e.job.conn).userId = m.senderId

def Current (h : Hist) (j : Input) (t : Warrant) : Prop :=
  ∀ u, t.acting = some u → (h.state.conns j.conn).userId = u

section Alone

variable {env : Env} {h : Hist} {t : Warrant} (i : Nat) (j : Input) (o : Op)

theorem current_step (hc : o.concerns j.conn) (hcur : Current h j t) :
    Current (h.record (memExec env) i j o).2 j (t.after env j o (memExec env o h.state).1) := by
  intro u hu
  rw [History.record_state]
  cases o with
  | userId c =>
    cases show c = j.conn from hc
    exact Option.some.inj hu
  | setUserId c v =>
    cases show c = j.conn from hc
    cases Option.some.inj hu
    simp [exec, World.setConn]
  | validate tok =>
    rw [memExec_userId (by simp)]
    apply hcur u
    unfold Warrant.after at hu
    split at hu <;> simp_all
  | repo r =>
    rw [memExec_userId (by simp)]
    apply hcur u
    unfold Warrant.after at hu
    split at hu <;> simp_all
  | _ =>
    rw [memExec_userId (by simp)]
    exact hcur u hu

theorem punctual_step (ha : t.allows env j o) (hcur : Current h j t) (hpun : Punctual env h) :
    Punctual env (h.record (memExec env) i j o).2 := by
  intro m hm
  rw [History.record_log]
  rcases mem_messages_memExec hm with ⟨m', hm', hcore⟩ | ⟨r, rfl, hr⟩
  · obtain ⟨e, he, ⟨o', ho', hst⟩, hreq, huser⟩ := hpun m' hm'
    have hsender : m'.core.senderId = m.core.senderId := by rw [hcore]
    exact ⟨e, List.mem_append_left _ he, ⟨o', ho', by rw [hst, hcore]⟩, hreq, huser.trans hsender⟩
  · refine ⟨_, List.mem_append_right _ (List.mem_singleton.mpr rfl), ⟨r, rfl, hr⟩, ?_⟩
    obtain ⟨hreq, hacting⟩ := Warrant.allows.of_stores ha hr
    exact ⟨hreq, hcur _ hacting⟩

theorem punctual_serve (hpun : Punctual env h) :
    Punctual env (h.serve (memExec env) (body env) i j) := by
  have hrun := Follows.run (fun o h => History.record (memExec env) i j o h)
    (fun h t => Punctual env h ∧ Current h j t) ?_ (body_warrants env j .none)
    ⟨hpun, fun u hu => by cases hu⟩
  · obtain ⟨t, ⟨hp, -⟩, -⟩ := hrun
    exact hp
  · intro h t o ⟨hp, hcur⟩ ha
    exact ⟨_, rfl, punctual_step i j o ha.2 hcur hp, current_step i j o ha.1 hcur⟩

end Alone

theorem identities_proved (env : Env) :
    (∀ g, Reachable env (fun _ _ => True) g → Attested env g.hist) ∧
      ∀ inputs, Attested env (serveAll env inputs) ∧ Punctual env (serveAll env inputs) := by
  refine ⟨fun g hg => attested_reachable hg, fun inputs => ⟨?_, ?_⟩⟩
  · obtain ⟨tasks, hg⟩ := serveAll_reachable env inputs
    exact attested_reachable hg
  · apply History.serveAll_invariant
    · exact fun i h j hp => punctual_serve i j hp
    · simp [Punctual, Hist.start, World.init, Store.empty]

theorem identities_proved_sharedRun :
    ((serveAll sharedEnv sharedRun).state.conns 2).userId = 1 ∧
      (serveAll sharedEnv sharedRun).state.store.messages.length = 1 ∧
      Attested sharedEnv (serveAll sharedEnv sharedRun) ∧
      Punctual sharedEnv (serveAll sharedEnv sharedRun) := by
  have hrun : ((serveAll sharedEnv sharedRun).state.conns 2).userId = 1 ∧
      (serveAll sharedEnv sharedRun).state.store.messages.length = 1 := by decide +kernel
  exact ⟨hrun.1, hrun.2, (identities_proved sharedEnv).2 sharedRun⟩

end ChatServer
