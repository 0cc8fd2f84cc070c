import ChatServer.Server.System

/-! Who each connection acts as.  The identity state keeps only the user and the token
of each connection, the presence slots and the session cache; every complete request
or close changes it in one of a few ways. -/

namespace ChatServer

open Lib Lib.Prog

@[ext] structure Ident where
  user : Nat → Nat
  token : Nat → String
  closed : Nat → Bool
  slot : Nat → Finset Nat
  sessions : SessionManager.Cache

def World.ident (w : World) : Ident where
  user c := (w.conns c).userId
  token c := (w.conns c).token
  closed c := (w.conns c).closed
  slot u := w.slot u
  sessions := w.sessions

namespace Ident

def bind (s : Ident) (c u : Nat) (tok : String) : Ident :=
  { s with
    user := Function.update s.user c u
    token := Function.update s.token c tok
    slot := Function.update s.slot u (insert c (s.slot u)) }

def issue (s : Ident) (tok : String) (info : SessionInfo) : Ident :=
  { s with sessions := s.sessions.insert tok info }

def revoke (s : Ident) (tok : String) : Ident := { s with sessions := s.sessions.erase tok }

def leave (s : Ident) (c : Nat) : Ident :=
  if s.user c = 0 then s
  else { s with slot := Function.update s.slot (s.user c) ((s.slot (s.user c)).erase c) }

def clear (s : Ident) (c : Nat) : Ident :=
  { s with user := Function.update s.user c 0, token := Function.update s.token c "" }

def logout (s : Ident) (c : Nat) : Ident :=
  ((if s.token c = "" then s else s.revoke (s.token c)).leave c).clear c

def close (s : Ident) (c : Nat) : Ident :=
  { s.leave c with closed := Function.update s.closed c true }

end Ident

def Op.onIdent (now : Int) : Op → Ident → Ident
  | .setUserId c u, s => { s with user := Function.update s.user c u }
  | .setSessionToken c t, s => { s with token := Function.update s.token c t }
  | .finishClose c, s => { s with closed := Function.update s.closed c true }
  | .bindSlot u c, s => { s with slot := Function.update s.slot u (insert c (s.slot u)) }
  | .unbindSlot u c, s => { s with slot := Function.update s.slot u ((s.slot u).erase c) }
  | .cachePut t info, s => s.issue t info
  | .cacheErase t, s => s.revoke t
  | .validate t, s => { s with sessions := (SessionManager.validate s.sessions now t).2 }
  | _, s => s

theorem memExec_ident (env : Env) (o : Op) (w : World) :
    (memExec env o w).2.ident = o.onIdent (env.clock w.ticks) w.ident := by
  apply Ident.ext
  · funext c
    change ((memExec env o w).2.conns c).userId = _
    rw [memExec_conn]
    cases o <;> simp only [Op.onConn, Op.onIdent, World.ident, Ident.issue, Ident.revoke,
      Function.update_apply, Conn.sendFrame] <;> grind
  · funext c
    change ((memExec env o w).2.conns c).token = _
    rw [memExec_conn]
    cases o <;> simp only [Op.onConn, Op.onIdent, World.ident, Ident.issue, Ident.revoke,
      Function.update_apply, Conn.sendFrame] <;> grind
  · funext c
    change ((memExec env o w).2.conns c).closed = _
    rw [memExec_conn]
    cases o <;> simp only [Op.onConn, Op.onIdent, World.ident, Ident.issue, Ident.revoke,
      Function.update_apply, Conn.sendFrame] <;> grind
  · funext u
    change (memExec env o w).2.slot u = _
    rw [memExec_slot]
    cases o <;> simp only [Op.onSlot, Op.onIdent, World.ident, Ident.issue, Ident.revoke,
      Function.update_apply] <;> grind
  · cases o <;> simp [exec, Op.onIdent, World.ident, Ident.issue, Ident.revoke, World.setConn]

def Kind.plain : Kind → Bool
  | .ident | .assume | .session | .validate | .issue | .bind | .unbind | .close => false
  | _ => true

theorem onIdent_plain {o : Op} (h : o.kind.plain = true) (now : Int) (s : Ident) :
    o.onIdent now s = s := by
  cases o <;> simp_all [Op.onIdent, Kind.plain]

section Runs

variable {α : Type} {c : Nat} {ks : List Kind} (env : Env)

def identAfter (x : ServerM α) (w : World) : Ident := (x.run (memExec env) w).2.ident

theorem identAfter_op (o : Op) (k : o.Ret → ServerM α) (w : World) :
    identAfter env (.op o k) w = identAfter env (k (memExec env o w).1) (memExec env o w).2 := rfl

theorem Uses.identAfter {x : ServerM α} (h : Uses c ks x) (hks : ks.all Kind.plain = true)
    (w : World) : identAfter env x w = w.ident := by
  have hop (o : Op) (v : World) (ho : o.kind ∈ ks ∧ o.concerns c) :
      (memExec env o v).2.ident = v.ident := by
    rw [memExec_ident, onIdent_plain (List.all_eq_true.mp hks _ ho.1)]
  apply Only.run (R := fun v v' => v'.ident = v.ident) _ _ hop h w
  · exact fun _ => rfl
  · intro s t u hst htu
    exact htu.trans hst

theorem identAfter_bind {β : Type} {x : ServerM α} {f : α → ServerM β} (hx : x.NoThrow)
    (hf : ∀ a w, identAfter env (f a) w = w.ident) (w : World) :
    identAfter env (x.bind f) w = identAfter env x w := by
  obtain ⟨a, -, hr⟩ := hx.run_bind (memExec env) f w
  rw [identAfter, hr]
  exact hf a _

theorem identAfter_seq {β : Type} {x : ServerM α} (hx : x.NoThrow) (y : ServerM β) (w : World) :
    identAfter env (x.bind fun _ => y) w = identAfter env y (x.run (memExec env) w).2 := by
  obtain ⟨a, -, hr⟩ := hx.run_bind (memExec env) (fun _ => y) w
  rw [identAfter, hr]
  rfl

theorem send_identAfter (j : Json) (w : World) : identAfter env (handlers.send c j) w = w.ident :=
  Uses.identAfter env (show Uses c [.reply] (handlers.send c j) by simp [handlers.send]) rfl w

theorem identAfter_tryCatch {x : ServerM Unit} (j : Json) (w : World) :
    identAfter env (x.tryCatch (handlers.send c j)) w = identAfter env x w := by
  rw [identAfter, Prog.run_tryCatch]
  split
  · rename_i heq
    rw [identAfter, heq]
  · rename_i heq
    rw [identAfter, heq]
    exact send_identAfter env j _

theorem bind_identAfter (u : Nat) (w : World) :
    identAfter env (Presence.bind u c) w =
      { w.ident with slot := Function.update w.ident.slot u (insert c (w.ident.slot u)) } := by
  have hrest (t : Bool) :
      Uses c [.replay] (if t then onTransition u true else pure () : ServerM Unit) := by
    simp [onTransition]
  apply (identAfter_op env (.bindSlot u c) _ w).trans
  dsimp only [ret_bind]
  apply (identAfter_bind env _ (fun _ _ => rfl) _).trans
  · rw [(hrest _).identAfter env rfl, memExec_ident]
    rfl
  · simp [onTransition, MessageRouter.replayOffline]

theorem unbind_identAfter (u : Nat) (w : World) :
    identAfter env (Presence.unbind u c) w =
      { w.ident with slot := Function.update w.ident.slot u ((w.ident.slot u).erase c) } := by
  have hrest (t : Bool) :
      Uses c [.own] (if t then onTransition u false else pure () : ServerM Unit) := by
    simp [onTransition]
  apply (identAfter_op env (.unbindSlot u c) _ w).trans
  dsimp only [ret_bind]
  apply (identAfter_bind env _ (fun _ _ => rfl) _).trans
  · rw [(hrest _).identAfter env rfl, memExec_ident]
    rfl
  · simp [onTransition]

end Runs

def freshToken (env : Env) (w : World) : String := util.hexEncode (env.entropy w.draws 32)

def freshExpiry (env : Env) (w : World) : Int :=
  env.clock w.ticks + SessionManager.ttlSeconds env * 1000

/-- The ways a complete request or close can change the identity state. -/
inductive IdentStep (env : Env) (w : World) : Input → Ident → Prop
  | same (input : Input) : IdentStep env w input w.ident
  | login {c : Nat} {payload : List UInt8} {req : Json} {u : User}
      (hreq : env.parse payload = some req) (htype : getStr req "type" = types.kLogin)
      (hfind : w.store.findUserByUsername (getStr req "username") = .ok (some u))
      (hpass : env.verifyPasswordHash (getStr req "password") u.passwordHash = true) :
      IdentStep env w (.request c payload)
        ((w.ident.issue (freshToken env w) ⟨u.id, freshExpiry env w⟩).bind c u.id
          (freshToken env w))
  | expire {c : Nat} {payload : List UInt8} {tok : String}
      (hnone : (SessionManager.validate w.sessions (env.clock w.ticks) tok).1 = none) :
      IdentStep env w (.request c payload)
        { w.ident with sessions := (SessionManager.validate w.sessions (env.clock w.ticks) tok).2 }
  | token {c : Nat} {payload : List UInt8} {req : Json} {info : SessionInfo}
      (hreq : env.parse payload = some req) (huser : (w.conns c).userId = 0)
      (hvalid : (SessionManager.validate w.sessions (env.clock w.ticks) (getStr req "token")).1 =
        some info) :
      IdentStep env w (.request c payload) (w.ident.bind c info.userId (getStr req "token"))
  | logout {c : Nat} {payload : List UInt8} {req : Json}
      (hreq : env.parse payload = some req) (htype : getStr req "type" = types.kLogout) :
      IdentStep env w (.request c payload) (w.ident.logout c)
  | close {c : Nat} (hopen : (w.conns c).closed = false) :
      IdentStep env w (.close c) (w.ident.close c)

namespace SessionManager

theorem validate_some {cache : Cache} {now : Int} {tok : String} {info : SessionInfo} :
    (validate cache now tok).1 = some info ↔ cache.lookup tok = some info ∧
    now < info.expiresAtMs := by
  unfold validate
  cases cache.lookup tok with
  | none => simp
  | some i =>
    dsimp only
    split
    · rename_i h
      simp only [reduceCtorEq, Option.some.injEq, false_iff, not_and, not_lt]
      rintro rfl
      exact h
    · rename_i h
      simp only [Option.some.injEq]
      constructor
      · rintro rfl
        exact ⟨rfl, not_le.mp h⟩
      · exact fun h => h.1

theorem validate_snd_of_some {cache : Cache} {now : Int} {tok : String} {info : SessionInfo}
    (h : (validate cache now tok).1 = some info) : (validate cache now tok).2 = cache := by
  obtain ⟨hl, hlt⟩ := validate_some.mp h
  simp [validate, hl, not_le.mpr hlt]

theorem lookup_validate {cache : Cache} {now : Int} {tok t : String} {info : SessionInfo}
    (h : (validate cache now tok).2.lookup t = some info) : cache.lookup t = some info := by
  unfold validate at h
  split at h
  · exact h
  · split at h
    · by_cases ht : t = tok
      · subst ht
        rw [AList.lookup_erase] at h
        cases h
      · rwa [AList.lookup_erase_ne ht] at h
    · exact h

end SessionManager

structure AccountsOk (w : World) : Prop where
  users : w.store.UsersOk
  sessions : ∀ tok info, w.sessions.lookup tok = some info → info.userId ≠ 0

theorem accountsOk_init : AccountsOk .init where
  users := Store.usersOk_empty
  sessions := by simp [World.init]

theorem AccountsOk.op {env : Env} {w : World} (h : AccountsOk w) (o : Op)
    (hput : ∀ tok info, o = .cachePut tok info → info.userId ≠ 0) :
    AccountsOk (memExec env o w).2 where
  users := memExec_usersOk o h.users
  sessions := by
    intro tok info hl
    change (memExec env o w).2.ident.sessions.lookup tok = some info at hl
    rw [memExec_ident] at hl
    cases o with
    | cachePut t i =>
      by_cases ht : tok = t
      · subst ht
        simp only [Op.onIdent, Ident.issue, AList.lookup_insert, Option.some.injEq] at hl
        subst hl
        exact hput tok i rfl
      · simp only [Op.onIdent, Ident.issue, AList.lookup_insert_ne ht] at hl
        exact h.sessions tok info hl
    | cacheErase t =>
      by_cases ht : tok = t
      · subst ht
        simp [Op.onIdent, Ident.revoke] at hl
      · simp only [Op.onIdent, Ident.revoke, AList.lookup_erase_ne ht] at hl
        exact h.sessions tok info hl
    | validate t => exact h.sessions tok info (SessionManager.lookup_validate hl)
    | _ => exact h.sessions tok info hl

namespace Ident

variable (s : Ident) (c : Nat)

theorem leave_user : (s.leave c).user = s.user := by
  simp only [Ident.leave]
  split <;> rfl

theorem leave_token : (s.leave c).token = s.token := by
  simp only [Ident.leave]
  split <;> rfl

theorem leave_closed_eq : (s.leave c).closed = s.closed := by
  simp only [Ident.leave]
  split <;> rfl

theorem leave_sessions : (s.leave c).sessions = s.sessions := by
  simp only [Ident.leave]
  split <;> rfl

theorem logout_user : (s.logout c).user = Function.update s.user c 0 := by
  simp only [Ident.logout, Ident.clear, leave_user]
  split <;> rfl

theorem logout_token : (s.logout c).token = Function.update s.token c "" := by
  simp only [Ident.logout, Ident.clear, leave_token]
  split <;> rfl

variable {s c}

theorem lookup_logout {t : String} {info : SessionInfo}
    (h : (s.logout c).sessions.lookup t = some info) :
    s.sessions.lookup t = some info ∧ (s.token c ≠ "" → t ≠ s.token c) := by
  change (Ident.leave _ c).sessions.lookup t = some info at h
  rw [leave_sessions] at h
  split at h
  · rename_i htok
    exact ⟨h, fun hne => absurd htok hne⟩
  · by_cases ht : t = s.token c
    · subst ht
      simp [Ident.revoke] at h
    · rw [Ident.revoke, AList.lookup_erase_ne ht] at h
      exact ⟨h, fun _ => ht⟩

end Ident

section Handlers

variable {env : Env} {w : World} {c : Nat} {payload : List UInt8} {req : Json} (id : Option Int)

theorem requireAuth_identStep (hreq : env.parse payload = some req) :
    IdentStep env w (.request c payload) (identAfter env (handlers.requireAuth c req id) w) := by
  have hsend (j : Json) (n : Nat) (v : World) :
      identAfter env ((handlers.send c j).bind fun _ => .ret n) v = v.ident :=
    (identAfter_bind env (by simp [handlers.send]) (fun _ _ => rfl) v).trans
      (send_identAfter env j v)
  unfold handlers.requireAuth
  simp only [bind_eq_bind, Prog.call, op_bind, ret_bind, identAfter_op, pure_eq_ret]
  by_cases huser : (memExec env (.userId c) w).1 = 0
  · rw [if_neg (not_not.mpr huser)]
    by_cases htok : getStr req "token" = ""
    · rw [if_pos htok, hsend]
      exact .same _
    · rw [if_neg htok, identAfter_op]
      rw [show (memExec env (.userId c) w).2 = w from rfl]
      cases hv : (memExec env (.validate (getStr req "token")) w).1 with
      | none =>
        dsimp only
        rw [hsend, memExec_ident]
        exact .expire hv
      | some info =>
        have hrest : identAfter env ((Presence.bind info.userId c).bind fun _ => .ret info.userId) =
            identAfter env (Presence.bind info.userId c) := by
          funext v
          exact identAfter_bind env (bind_noThrow _ _) (fun _ _ => rfl) v
        have hcache : (SessionManager.validate w.ident.sessions (env.clock w.ticks)
            (getStr req "token")).2 = w.ident.sessions := SessionManager.validate_snd_of_some hv
        simp only [identAfter_op, hrest, bind_identAfter, memExec_ident, Op.onIdent, hcache]
        exact .token hreq huser hv
  · rw [if_pos huser]
    exact .same _

theorem handlers.Acts.identAfter {h : handlers.Handler} {ks : List Kind} (hh : handlers.Acts h ks)
    (hks : ks.all Kind.plain = true) :
    identAfter env (h c req id) w = identAfter env (handlers.requireAuth c req id) w := by
  obtain ⟨act, heq, hact⟩ := hh c req id
  rw [heq, handlers.withAuth]
  apply identAfter_bind env (requireAuth_noThrow c req id)
  intro uid v
  split
  · rfl
  · exact (hact uid).identAfter env hks v

theorem handleLogin_identAfter {u : User}
    (hfind : w.store.findUserByUsername (getStr req "username") = .ok (some u))
    (hpass : env.verifyPasswordHash (getStr req "password") u.passwordHash = true) :
    identAfter env (handlers.handleLogin env c req id) w =
      (w.ident.issue (freshToken env w) ⟨u.id, freshExpiry env w⟩).bind c u.id
        (freshToken env w) := by
  have hfind' : (memExec env (.repo (.findUserByUsername (getStr req "username"))) w).1 =
    .ok (some u) := hfind
  have hrest (token : String) (v : World) : identAfter env ((Presence.bind u.id c).bind fun _ =>
      handlers.send c (handlers.loginReply env id u token)) v =
        identAfter env (Presence.bind u.id c) v :=
    identAfter_bind env (bind_noThrow _ _) (fun _ v => send_identAfter env _ v) v
  unfold handlers.handleLogin
  simp only [bind_eq_bind, Prog.call, op_bind, ret_bind, identAfter_op]
  rw [hfind']
  simp only [hpass, if_true, SessionManager.create, SessionManager.makeSessionToken, bind_eq_bind,
    Prog.call, pure_eq_ret, op_bind, ret_bind, identAfter_op, hrest, bind_identAfter, memExec_ident,
    Op.onIdent]
  rfl

theorem handleLogin_refused
    (hbad : ∀ u, w.store.findUserByUsername (getStr req "username") = .ok (some u) →
      env.verifyPasswordHash (getStr req "password") u.passwordHash = false) :
    identAfter env (handlers.handleLogin env c req id) w = w.ident := by
  unfold handlers.handleLogin
  simp only [bind_eq_bind, Prog.call, op_bind, ret_bind, identAfter_op]
  rw [show (memExec env (.repo (.findUserByUsername (getStr req "username"))) w).2 = w from rfl]
  cases hfind : (memExec env (.repo (.findUserByUsername (getStr req "username"))) w).1 with
  | error e => rfl
  | ok found =>
    cases found with
    | none => exact send_identAfter env _ w
    | some u =>
      simp only [hbad u hfind, Bool.false_eq_true, if_false]
      exact send_identAfter env _ w

theorem handleLogin_identStep (hreq : env.parse payload = some req)
    (htype : getStr req "type" = types.kLogin) :
    IdentStep env w (.request c payload)
    (identAfter env (handlers.handleLogin env c req id) w) := by
  by_cases hgood : ∃ u, w.store.findUserByUsername (getStr req "username") = .ok (some u) ∧
      env.verifyPasswordHash (getStr req "password") u.passwordHash = true
  · obtain ⟨u, hfind, hpass⟩ := hgood
    rw [handleLogin_identAfter id hfind hpass]
    exact .login hreq htype hfind hpass
  · rw [handleLogin_refused]
    · exact .same _
    · intro u hfind
      rw [← Bool.not_eq_true]
      exact fun hpass => hgood ⟨u, hfind, hpass⟩

theorem clear_identAfter (j : Json) (v : World) :
    identAfter env (.op (.setUserId c 0) fun _ => .op (.setSessionToken c "") fun _ =>
      handlers.send c j) v = v.ident.clear c := by
  simp only [identAfter_op, send_identAfter, memExec_ident, Op.onIdent]
  rfl

theorem leave_identAfter (v : World) :
    identAfter env (onClose c) v = v.ident.leave c := by
  unfold onClose
  simp only [bind_eq_bind, Prog.call, op_bind, ret_bind, identAfter_op, pure_eq_ret]
  rw [show (memExec env (.userId c) v).2 = v from rfl]
  by_cases huser : (memExec env (.userId c) v).1 = 0
  · rw [if_neg (not_not.mpr huser), Ident.leave, if_pos (show v.ident.user c = 0 from huser)]
    rfl
  · rw [if_pos huser, Ident.leave, if_neg (show v.ident.user c ≠ 0 from huser)]
    exact (identAfter_bind env (unbind_noThrow _ _) (fun _ _ => rfl) v).trans
      (unbind_identAfter env _ v)

theorem handleLogout_identStep (hreq : env.parse payload = some req)
    (htype : getStr req "type" = types.kLogout) :
    IdentStep env w (.request c payload) (identAfter env (handlers.handleLogout c req id) w) := by
  suffices hlogout : identAfter env (handlers.handleLogout c req id) w = w.ident.logout c by
    rw [hlogout]
    exact .logout hreq htype
  have hrevoke : identAfter env
      (if (w.conns c).token ≠ "" then SessionManager.revoke (w.conns c).token else pure () :
        ServerM Unit) w =
        if w.ident.token c = "" then w.ident else w.ident.revoke (w.ident.token c) := by
    by_cases htok : (w.conns c).token = ""
    · rw [if_neg (not_not.mpr htok), if_pos (show w.ident.token c = "" from htok)]
      rfl
    · rw [if_pos htok, if_neg (show w.ident.token c ≠ "" from htok)]
      simp only [SessionManager.revoke, bind_eq_bind, Prog.call, op_bind, ret_bind, identAfter_op]
      simp only [identAfter, run_ret, memExec_ident, Op.onIdent]
      rfl
  calc identAfter env (handlers.handleLogout c req id) w
      = identAfter env ((if (w.conns c).token ≠ "" then SessionManager.revoke (w.conns c).token
          else pure () : ServerM Unit).bind fun _ => (onClose c).bind fun _ =>
            .op (.setUserId c 0) fun _ => .op (.setSessionToken c "") fun _ =>
              handlers.send c (makeAck id [])) w := rfl
    _ = ((if w.ident.token c = "" then w.ident else w.ident.revoke (w.ident.token c)).leave c).clear
      c := by
      rw [identAfter_seq env (by simp), identAfter_seq env (onClose_noThrow c), clear_identAfter]
      congr 1
      rw [← hrevoke]
      exact leave_identAfter _

theorem finishClose_answer (v : World) :
    (memExec env (.finishClose c) (memExec env (.beginClose c) v).2).1 = !(v.conns c).closed := by
  simp [exec, World.setConn]

theorem Ident.leave_closed (s : Ident) :
    ({ s with closed := Function.update s.closed c true } : Ident).leave c = s.close c := by
  simp only [Ident.leave, Ident.close]
  split <;> rfl

theorem close_identStep : IdentStep env w (.close c) (identAfter env (Connection.close c) w) := by
  unfold Connection.close Connection.deliverClose
  simp only [bind_eq_bind, Prog.call, op_bind, ret_bind, identAfter_op, pure_eq_ret]
  have hbegin : (memExec env (.beginClose c) w).2.ident = w.ident := by
    rw [memExec_ident]
    rfl
  by_cases hfirst : (memExec env (.beginClose c) w).1 = true
  · rw [if_pos hfirst, identAfter_op]
    by_cases hopen : (memExec env (.finishClose c) (memExec env (.beginClose c) w).2).1 = true
    · rw [if_pos hopen, (onClose_noThrow c).tryCatch, leave_identAfter, memExec_ident, hbegin]
      rw [finishClose_answer, Bool.not_eq_true'] at hopen
      rw [Op.onIdent, Ident.leave_closed]
      exact .close hopen
    · rw [if_neg hopen]
      rw [finishClose_answer, Bool.not_eq_true', Bool.not_eq_false] at hopen
      have hsame : (memExec env (.finishClose c) (memExec env (.beginClose c) w).2).2.ident =
          w.ident := by
        rw [memExec_ident, hbegin]
        apply Ident.ext <;> try rfl
        exact Function.update_eq_self_iff.mpr hopen.symm
      simp only [identAfter, run_ret, hsame]
      exact .same _
  · rw [if_neg hfirst]
    simp only [identAfter, run_ret, hbegin]
    exact .same _

theorem body_identStep (env : Env) (w : World) (input : Input) :
    IdentStep env w input (identAfter env (body env input) w) := by
  cases input with
  | close c => exact close_identStep
  | request c payload =>
    refine handlers.dispatch_cases (Q := fun x => IdentStep env w _ (identAfter env x w)) ?_ ?_
    · intro j
      rw [send_identAfter]
      exact .same _
    · intro req h hreq hl
      rw [identAfter_tryCatch]
      have hauth := requireAuth_identStep (w := w) (c := c) (requestId req) hreq
      refine handlers.table_cases
        (M := fun type h => getStr req "type" = type →
          IdentStep env w _ (identAfter env (h c req _) w))
        ?_ ?_ ?_ ?_ ?_ ?_ ?_ ?_ ?_ ?_ ?_ ?_ ?_ hl rfl <;> intro htype
      · rw [(handlers.handleRegister_uses env req _).identAfter env rfl]
        exact .same _
      · exact handleLogin_identStep _ hreq htype
      · exact handleLogout_identStep _ hreq htype
      · rwa [(handlers.handleSendDm_acts env).identAfter _ rfl]
      · rwa [(handlers.handleSendRoom_acts env).identAfter _ rfl]
      · rwa [handlers.handleCreateRoom_acts.identAfter _ rfl]
      · rwa [handlers.handleJoinRoom_acts.identAfter _ rfl]
      · rwa [handlers.handleLeaveRoom_acts.identAfter _ rfl]
      · rwa [handlers.handleListRooms_acts.identAfter _ rfl]
      · rwa [handlers.handleHistoryDm_acts.identAfter _ rfl]
      · rwa [handlers.handleHistoryRoom_acts.identAfter _ rfl]
      · rwa [handlers.handlePresence_acts.identAfter _ rfl]
      · rw [(handlers.handlePing_uses req _).identAfter env rfl]
        exact .same _

theorem login_identAfter {u : User} (hreq : env.parse payload = some req)
    (htype : getStr req "type" = types.kLogin)
    (hfind : w.store.findUserByUsername (getStr req "username") = .ok (some u))
    (hpass : env.verifyPasswordHash (getStr req "password") u.passwordHash = true) :
    identAfter env (body env (.request c payload)) w =
      (w.ident.issue (freshToken env w) ⟨u.id, freshExpiry env w⟩).bind c u.id
        (freshToken env w) := by
  have hl : (handlers.table env).lookup types.kLogin = some (handlers.handleLogin env) := rfl
  have htype' : types.kLogin ≠ "" := by decide
  simp only [body, handlers.dispatch, hreq, htype, hl, htype', if_false, identAfter_tryCatch]
  exact handleLogin_identAfter _ hfind hpass

end Handlers

end ChatServer
