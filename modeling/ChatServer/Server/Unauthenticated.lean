import ChatServer.Auth.Session
import ChatServer.Server.Mirror
import ChatServer.Server.Sessions

namespace ChatServer

open Lib Lib.Prog

def OnlyExpired (now : Int) (cache cache' : SessionManager.Cache) : Prop :=
  ∀ tok, cache'.lookup tok = cache.lookup tok ∨
    cache'.lookup tok = none ∧ ∃ info, cache.lookup tok = some info ∧ info.expiresAtMs ≤ now

structure Unchanged (now : Int) (w w' : World) : Prop where
  store : w'.store = w.store
  presence : w'.presence = w.presence
  rooms : w'.rooms = w.rooms
  conns : w'.conns = w.conns
  sessions : OnlyExpired now w.sessions w'.sessions

structure OnlyReplies (env : Env) (now : Int) (x : ServerM Unit) (w : World) (c : Nat) (j : Json) :
    Prop where
  sent : sent env x w = [(c, j)]
  returns : (x.run (memExec env) w).1 = some ()
  store : (x.run (memExec env) w).2.store = w.store
  presence : (x.run (memExec env) w).2.presence = w.presence
  rooms : (x.run (memExec env) w).2.rooms = w.rooms
  conns : (x.run (memExec env) w).2.conns = Function.update w.conns c ((w.conns c).sendFrame env j)
  sessions : OnlyExpired now w.sessions (x.run (memExec env) w).2.sessions

section Rules

variable {env : Env} {now : Int} {w : World} {c : Nat} {j : Json}

theorem OnlyExpired.refl (cache : SessionManager.Cache) : OnlyExpired now cache cache :=
  fun _ => .inl rfl

theorem Unchanged.refl (w : World) : Unchanged now w w := ⟨rfl, rfl, rfl, rfl, .refl w.sessions⟩

theorem OnlyExpired.trans {a b d : SessionManager.Cache} (h : OnlyExpired now a b)
    (h' : OnlyExpired now b d) : OnlyExpired now a d := by
  intro tok
  rcases h' tok with h' | ⟨hnone, info, hb, hexp⟩
  · rw [h']
    exact h tok
  · rcases h tok with h | ⟨hb', -⟩
    · exact .inr ⟨hnone, info, h ▸ hb, hexp⟩
    · simp [hb'] at hb

theorem onlyReplies_send : OnlyReplies env now (handlers.send c j) w c j where
  sent := rfl
  returns := rfl
  store := rfl
  presence := rfl
  rooms := rfl
  conns := rfl
  sessions := .refl _

theorem OnlyReplies.call {o : Op} {f : o.Ret → ServerM Unit} (ho : o.sent = none)
    (hkeep : Unchanged now w (memExec env o w).2)
    (h : OnlyReplies env now (f (memExec env o w).1) (memExec env o w).2 c j) :
    OnlyReplies env now (call o >>= f) w c j where
  sent := by
    have := h.sent
    simpa [ChatServer.sent, ho] using this
  returns := h.returns
  store := h.store.trans hkeep.store
  presence := h.presence.trans hkeep.presence
  rooms := h.rooms.trans hkeep.rooms
  conns := by
    rw [← hkeep.conns]
    exact h.conns
  sessions := hkeep.sessions.trans h.sessions

theorem OnlyReplies.tryCatch {x : ServerM Unit} (h : OnlyReplies env now x w c j)
    (y : ServerM Unit) : OnlyReplies env now (x.tryCatch y) w c j := by
  have hrun : x.run (memExec env) w = (some (), (x.run (memExec env) w).2) := by rw [← h.returns]
  have hsame : (x.tryCatch y).run (memExec env) w = x.run (memExec env) w := by
    rw [run_tryCatch, hrun]
  obtain ⟨hsent, hreturns, hstore, hpresence, hrooms, hconns, hsessions⟩ := h
  rw [← hsame] at hreturns hstore hpresence hrooms hconns hsessions
  refine ⟨?_, hreturns, hstore, hpresence, hrooms, hconns, hsessions⟩
  rw [ChatServer.sent, trace_tryCatch, hrun]
  simpa [ChatServer.sent] using hsent

end Rules

def Bare (w : World) : Prop := ∀ c, (w.conns c).userId = 0 → (w.conns c).token = ""

theorem bare_step {env : Env} {w : World} (ha : AccountsOk w) (h : Bare w) (input : Input) :
    Bare ((body env input).run (memExec env) w).2 := by
  intro c hc
  have hstep := body_identStep env w input
  change (identAfter env (body env input) w).user c = 0 at hc
  change (identAfter env (body env input) w).token c = ""
  generalize identAfter env (body env input) w = s at hc hstep
  cases hstep with
  | same => exact h c hc
  | @login d payload req u hreq htype hfind hpass =>
    by_cases hd : c = d
    · subst hd
      simp only [Ident.bind, Function.update_self] at hc
      exact absurd hc (ha.users.find hfind).2.2
    · simp only [Ident.bind, Ident.issue, Function.update_of_ne hd] at hc ⊢
      exact h c hc
  | expire => exact h c hc
  | @token d payload req info hreq huser hvalid =>
    by_cases hd : c = d
    · subst hd
      simp only [Ident.bind, Function.update_self] at hc
      exact absurd hc (ha.sessions _ info (SessionManager.validate_some.mp hvalid).1)
    · simp only [Ident.bind, Function.update_of_ne hd] at hc ⊢
      exact h c hc
  | @logout d payload req hreq htype =>
    rw [Ident.logout_token]
    by_cases hd : c = d
    · rw [hd, Function.update_self]
    · rw [Ident.logout_user, Function.update_of_ne hd] at hc
      rw [Function.update_of_ne hd]
      exact h c hc
  | @close d hopen =>
    simp only [Ident.close, Ident.leave_user, Ident.leave_token] at hc ⊢
    exact h c hc

theorem bare_serveAll (env : Env) (inputs : List Input) : Bare (serveAll env inputs).state :=
  (serveAll_keeps (I := fun w => AccountsOk w ∧ Bare w) (P := fun _ _ => True)
    (fun _ input h _ => ⟨h.1.step, bare_step h.1 h.2 input⟩) ⟨accountsOk_init,
      fun _ _ => rfl⟩ inputs
    (fun _ _ _ _ => trivial)).2

section Handlers

variable {env : Env} {w : World} {c : Nat} (req : Json) (id : Option Int)

theorem unchanged_setConn {now : Int} {k : Conn} (h : k = w.conns c) :
    Unchanged now w (w.setConn c k) where
  store := rfl
  presence := rfl
  rooms := rfl
  conns := by rw [h]; exact Function.update_eq_self c w.conns
  sessions := .refl _

theorem validate_eq_none {cache : SessionManager.Cache} {now : Int} {tok : String}
    (h : ∀ u, ¬Accepts cache now tok u) : (SessionManager.validate cache now tok).1 = none :=
  Option.eq_none_iff_forall_ne_some.mpr fun info hinfo => h info.userId ⟨info, hinfo, rfl⟩

theorem unchanged_validate {tok : String} (h : ∀ u, ¬Accepts w.sessions (env.clock w.ticks) tok u) :
    Unchanged (env.clock w.ticks) w (memExec env (.validate tok) w).2 where
  store := rfl
  presence := rfl
  rooms := rfl
  conns := rfl
  sessions := by
    intro t
    change (SessionManager.validate w.sessions (env.clock w.ticks) tok).2.lookup t = _ ∨
      (SessionManager.validate w.sessions (env.clock w.ticks) tok).2.lookup t = none ∧ _
    rw [SessionManager.lookup_validate_snd, validate_eq_none h]
    split
    · rename_i ht
      subst ht
      cases hl : w.sessions.lookup t with
      | none => exact .inl rfl
      | some info =>
        refine .inr ⟨rfl, info, rfl, ?_⟩
        by_contra hlt
        exact h info.userId ⟨info, SessionManager.validate_some.mpr ⟨hl, not_le.mp hlt⟩, rfl⟩
    · exact .inl rfl

theorem handlePing_onlyReplies :
    OnlyReplies env (env.clock w.ticks)
    (handlers.handlePing c req id) w c (handlers.makePong id (env.clock w.ticks)) := by
  refine OnlyReplies.call rfl ⟨rfl, rfl, rfl, rfl, .refl _⟩ ?_
  exact onlyReplies_send

theorem handleLogout_onlyReplies (huser : (w.conns c).userId = 0) (htok : (w.conns c).token = "") :
    OnlyReplies env (env.clock w.ticks) (handlers.handleLogout c req id) w c (makeAck id []) := by
  have hrest : OnlyReplies env (env.clock w.ticks)
      (do call (.setUserId c 0); call (.setSessionToken c ""); handlers.send c (makeAck id [])) w c
        (makeAck id []) := by
    have hclear : Unchanged (env.clock w.ticks) w (memExec env (.setUserId c 0) w).2 :=
      unchanged_setConn (by rw [← huser])
    refine OnlyReplies.call rfl hclear
      (OnlyReplies.call rfl (unchanged_setConn ?_) onlyReplies_send)
    rw [hclear.conns, ← htok]
  refine OnlyReplies.call rfl (.refl w) ?_
  rw [show (memExec env (.sessionToken c) w).1 = "" from htok, if_neg (by simp)]
  refine OnlyReplies.call rfl (.refl w) ?_
  rw [show (memExec env (.userId c) (memExec env (.sessionToken c) w).2).1 = 0 from huser,
    if_neg (by simp)]
  exact hrest

theorem withAuth_onlyReplies (huser : (w.conns c).userId = 0)
    (htok : ∀ u, ¬Accepts w.sessions (env.clock w.ticks) (getStr req "token") u)
    (act : Nat → ServerM Unit) :
    OnlyReplies env (env.clock w.ticks) (handlers.withAuth c req id act) w c
      (makeError id errcode.kUnauthorized
        (if getStr req "token" = "" then "missing session token"
          else "invalid or expired token")) := by
  unfold handlers.withAuth handlers.requireAuth
  simp only [bind_eq_bind, Prog.call, op_bind, ret_bind, pure_eq_ret]
  refine OnlyReplies.call rfl (.refl w) ?_
  rw [show (memExec env (.userId c) w).1 = 0 from huser, if_neg (show ¬(0 : Nat) ≠ 0 by decide)]
  by_cases hempty : getStr req "token" = ""
  · rw [if_pos hempty, if_pos hempty]
    exact onlyReplies_send
  · rw [if_neg hempty, if_neg hempty]
    refine OnlyReplies.call rfl (unchanged_validate htok) ?_
    have hnone : (memExec env (.validate (getStr req "token")) (memExec env (.userId c) w).2).1 =
        none :=
      validate_eq_none htok
    rw [hnone]
    exact onlyReplies_send

end Handlers

def strangerReply (now : Int) : Option Json → Json
  | none => makeError none errcode.kBadRequest "malformed JSON"
  | some req =>
    let id := requestId req
    let type := getStr req "type"
    if type = "" then makeError id errcode.kBadRequest "missing 'type'"
    else if type = types.kLogout then makeAck id []
    else if type = types.kPing then handlers.makePong id now
    else if type ∈ [types.kSendDM, types.kSendRoom, types.kCreateRoom, types.kJoinRoom,
        types.kLeaveRoom, types.kListRooms, types.kHistoryDM, types.kHistoryRoom,
          types.kPresence] then
      makeError id errcode.kUnauthorized
        (if getStr req "token" = "" then "missing session token" else "invalid or expired token")
    else makeError id errcode.kBadRequest ("unknown type: " ++ type)

/-- The connection acts for nobody, and the frame neither registers nor logs in nor carries
a token that is accepted. -/
structure Stranger (env : Env) (w : World) (c : Nat) (payload : List UInt8) : Prop where
  user : (w.conns c).userId = 0
  register : ∀ req, env.parse payload = some req → getStr req "type" ≠ types.kRegister
  login : ∀ req, env.parse payload = some req → getStr req "type" ≠ types.kLogin
  token : ∀ req, env.parse payload = some req →
    ∀ u, ¬Accepts w.sessions (env.clock w.ticks) (getStr req "token") u

theorem dispatch_onlyReplies {env : Env} {w : World} {c : Nat} {payload : List UInt8}
    (h : Stranger env w c payload) (hbare : Bare w) :
    OnlyReplies env (env.clock w.ticks) (handlers.dispatch env c payload) w c
      (strangerReply (env.clock w.ticks) (env.parse payload)) := by
  unfold handlers.dispatch
  cases hreq : env.parse payload with
  | none => exact onlyReplies_send
  | some req =>
    have hregister := h.register req hreq
    have hlogin := h.login req hreq
    dsimp only [strangerReply]
    by_cases htype : getStr req "type" = ""
    · rw [if_pos htype, if_pos htype]
      exact onlyReplies_send
    · rw [if_neg htype, if_neg htype]
      have hauth (act : Nat → ServerM Unit) :=
        withAuth_onlyReplies req (requestId req) h.user (h.token req hreq) act
      cases hl : (handlers.table env).lookup (getStr req "type") with
      | none =>
        have hkeys : ∀ p ∈ handlers.table env, getStr req "type" ≠ p.1 := by
          simpa using List.lookup_eq_none_iff.mp hl
        simp only [handlers.table, List.forall_mem_cons, List.not_mem_nil] at hkeys
        obtain ⟨-, -, hlogout, hdm, hroom, hcreate, hjoin, hleave, hlist, hhistory, hhistory',
          hpresence, hping, -⟩ := hkeys
        simp only [List.mem_cons, hlogout, hdm, hroom, hcreate, hjoin, hleave, hlist, hhistory,
          hhistory', hpresence, hping, List.not_mem_nil, or_self, if_false]
        exact onlyReplies_send
      | some handler =>
        refine OnlyReplies.tryCatch ?_ _
        refine handlers.table_cases (M := fun type handler => getStr req "type" = type →
          OnlyReplies env (env.clock w.ticks) (handler c req (requestId req)) w c _)
          ?_ ?_ ?_ ?_ ?_ ?_ ?_ ?_ ?_ ?_ ?_ ?_ ?_ hl rfl
        all_goals intro heq
        all_goals rw [heq] at htype hregister hlogin ⊢
        · exact absurd rfl hregister
        · exact absurd rfl hlogin
        · exact handleLogout_onlyReplies req _ h.user (hbare c h.user)
        · exact hauth _
        · exact hauth _
        · exact hauth _
        · exact hauth _
        · exact hauth _
        · exact hauth _
        · exact hauth _
        · exact hauth _
        · exact hauth _
        · exact handlePing_onlyReplies req _

theorem stranger_learns_nothing {env₁ env₂ : Env} (hparse : env₁.parse = env₂.parse)
    {inputs₁ inputs₂ : List Input} {c : Nat} {payload : List UInt8}
    (hclock : env₁.clock (serveAll env₁ inputs₁).state.ticks =
      env₂.clock (serveAll env₂ inputs₂).state.ticks)
    (h₁ : Stranger env₁ (serveAll env₁ inputs₁).state c payload)
    (h₂ : Stranger env₂ (serveAll env₂ inputs₂).state c payload) :
    ∃ j, OnlyReplies env₁ (env₁.clock (serveAll env₁ inputs₁).state.ticks)
    (handlers.dispatch env₁ c payload)
        (serveAll env₁ inputs₁).state c j ∧
      OnlyReplies env₂ (env₂.clock (serveAll env₂ inputs₂).state.ticks)
      (handlers.dispatch env₂ c payload)
        (serveAll env₂ inputs₂).state c j := by
  have hsame : strangerReply (env₁.clock (serveAll env₁ inputs₁).state.ticks) (env₁.parse payload) =
      strangerReply (env₂.clock (serveAll env₂ inputs₂).state.ticks) (env₂.parse payload) := by
    rw [hclock, hparse]
  exact ⟨_, dispatch_onlyReplies h₁ (bare_serveAll env₁ inputs₁),
    hsame ▸ dispatch_onlyReplies h₂ (bare_serveAll env₂ inputs₂)⟩

def stillEnv : Env :=
  { sampleEnv [registerReq "alice" "wonder", loginReq "alice" "wonder", listRoomsReq "forged"] with
    clock := fun _ => 1700000000000 }

def aliceLogin : List Input :=
  [ask 1 (registerReq "alice" "wonder"), ask 1 (loginReq "alice" "wonder")]

theorem stranger_stillEnv {w : World} (huser : (w.conns 2).userId = 0)
    (htok : (SessionManager.validate w.sessions 1700000000000 "forged").1 = none) :
    Stranger stillEnv w 2 (payloadOf (listRoomsReq "forged")) := by
  have hparse : stillEnv.parse (payloadOf (listRoomsReq "forged")) = some (listRoomsReq "forged") :=
    rfl
  refine ⟨huser, fun req hreq => ?_, fun req hreq => ?_, fun req hreq u hacc => ?_⟩
  all_goals rw [hparse, Option.some.injEq] at hreq
  all_goals subst hreq
  · decide
  · decide
  · obtain ⟨info, hinfo, -⟩ := hacc
    exact absurd (hinfo.symm.trans htok) (by simp)

theorem stranger_learns_nothing_aliceLogin :
    ∃ j, sent stillEnv (handlers.dispatch stillEnv 2 (payloadOf (listRoomsReq "forged")))
    (serveAll stillEnv []).state =
        [(2, j)] ∧
      sent stillEnv (handlers.dispatch stillEnv 2 (payloadOf (listRoomsReq "forged")))
        (serveAll stillEnv aliceLogin).state = [(2, j)] := by
  have h₁ : Stranger stillEnv (serveAll stillEnv []).state 2 (payloadOf (listRoomsReq "forged")) :=
    stranger_stillEnv (by decide) (by decide)
  have h₂ : Stranger stillEnv (serveAll stillEnv aliceLogin).state 2
      (payloadOf (listRoomsReq "forged")) := by
    have hfacts : ((serveAll stillEnv aliceLogin).state.conns 2).userId = 0 ∧
        (SessionManager.validate (serveAll stillEnv aliceLogin).state.sessions 1700000000000
          "forged").1 = none := by
      decide +kernel
    exact stranger_stillEnv hfacts.1 hfacts.2
  have hclock : stillEnv.clock (serveAll stillEnv []).state.ticks =
      stillEnv.clock (serveAll stillEnv aliceLogin).state.ticks := rfl
  obtain ⟨j, hj₁, hj₂⟩ := stranger_learns_nothing rfl hclock h₁ h₂
  exact ⟨j, hj₁.sent, hj₂.sent⟩

end ChatServer
