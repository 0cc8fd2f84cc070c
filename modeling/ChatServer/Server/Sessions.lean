import ChatServer.Server.Identity

namespace ChatServer

open Lib Lib.Prog

def Accepts (cache : SessionManager.Cache) (now : Int) (tok : String) (u : Nat) : Prop :=
  ∃ info, (SessionManager.validate cache now tok).1 = some info ∧ info.userId = u

def Proceeds (env : Env) (w : World) (c : Nat) (req : Json) (u : Nat) (w' : World) : Prop :=
  (handlers.requireAuth c req (requestId req)).run (memExec env) w = (some u, w') ∧ u ≠ 0

def Wears (w : World) (c u : Nat) (tok : String) : Prop :=
  (w.conns c).userId = u ∧ (w.conns c).token = tok

/-- An input of the run has bound `c` to `u` with a token that was accepted then, and the
connection has kept both since. -/
def BoundSince (env : Env) (inputs : List Input) (c u : Nat) (tok : String) : Prop :=
  ∃ pre input post, inputs = pre ++ input :: post ∧ input.conn = c ∧
    Accepts (serveAll env (pre ++ [input])).state.sessions
      (env.clock (serveAll env pre).state.ticks) tok u ∧
    ∀ mid, mid <+: post → Wears (serveAll env (pre ++ input :: mid)).state c u tok

theorem SessionManager.ttlSeconds_pos (env : Env) : 0 < SessionManager.ttlSeconds env := by
  unfold SessionManager.ttlSeconds
  split
  · assumption
  · decide

theorem accepts_issued (env : Env) (w : World) (u : Nat) :
    Accepts (w.sessions.insert (freshToken env w) ⟨u, freshExpiry env w⟩) (env.clock w.ticks)
      (freshToken env w) u := by
  refine ⟨⟨u, freshExpiry env w⟩, SessionManager.validate_some.mpr ⟨AList.lookup_insert _, ?_⟩, rfl⟩
  have hpos := SessionManager.ttlSeconds_pos env
  simp only [freshExpiry]
  omega

theorem IdentStep.wears {env : Env} {w : World} {input : Input} {s : Ident}
    (h : IdentStep env w input s) (c : Nat) (hu : s.user c ≠ 0) :
    (s.user c = w.ident.user c ∧ s.token c = w.ident.token c) ∨
      (input.conn = c ∧ Accepts s.sessions (env.clock w.ticks) (s.token c) (s.user c)) := by
  cases h with
  | same => exact .inl ⟨rfl, rfl⟩
  | @login d payload req u hreq htype hfind hpass =>
    by_cases hd : c = d
    · subst hd
      simp only [Ident.bind, Ident.issue, Function.update_self]
      exact .inr ⟨rfl, accepts_issued env w u.id⟩
    · simp [Ident.bind, Ident.issue, Function.update_of_ne hd]
  | expire => exact .inl ⟨rfl, rfl⟩
  | @token d payload req info hreq huser hvalid =>
    by_cases hd : c = d
    · subst hd
      simp only [Ident.bind, Function.update_self]
      exact .inr ⟨rfl, info, hvalid, rfl⟩
    · simp [Ident.bind, Function.update_of_ne hd]
  | @logout d payload req hreq htype =>
    by_cases hd : c = d
    · subst hd
      simp [Ident.logout_user] at hu
    · left
      simp only [Ident.logout_user, Ident.logout_token, Function.update_of_ne hd, and_self]
  | @close d hopen =>
    left
    simp only [Ident.close, Ident.leave_user, Ident.leave_token, and_self]

theorem boundSince_serveAll (env : Env) (inputs : List Input) {c u : Nat} {tok : String}
    (hw : Wears (serveAll env inputs).state c u tok) (hu : u ≠ 0) :
    BoundSince env inputs c u tok := by
  induction inputs using List.reverseRecOn with
  | nil => exact absurd hw.1.symm hu
  | append_singleton inputs input ih =>
    have hstep := body_identStep env (serveAll env inputs).state input
    have hafter : identAfter env (body env input) (serveAll env inputs).state =
        (serveAll env (inputs ++ [input])).state.ident := by
      rw [serveAll_append_one, identAfter]
    rw [hafter] at hstep
    obtain ⟨rfl, rfl⟩ := hw
    rcases hstep.wears c hu with ⟨huser, htok⟩ | ⟨hconn, hacc⟩
    · obtain ⟨pre, input', post, hin, hconn, hacc, hkeep⟩ := ih ⟨huser.symm, htok.symm⟩
      refine ⟨pre, input', post ++ [input], by simp [hin], hconn, hacc, ?_⟩
      intro mid hmid
      rcases List.prefix_concat_iff.mp hmid with rfl | hmid
      · rw [show pre ++ input' :: (post ++ [input]) = inputs ++ [input] by simp [hin]]
        exact ⟨rfl, rfl⟩
      · exact hkeep mid hmid
    · refine ⟨inputs, input, [], rfl, hconn, hacc, ?_⟩
      intro mid hmid
      rw [List.prefix_nil.mp hmid]
      exact ⟨rfl, rfl⟩

theorem Proceeds.cases {env : Env} {w w' : World} {c u : Nat} {req : Json}
    (h : Proceeds env w c req u w') :
    ((w.conns c).userId = u ∧ w' = w) ∨
      ((w.conns c).userId = 0 ∧ Accepts w.sessions (env.clock w.ticks) (getStr req "token") u ∧
        Wears w' c u (getStr req "token") ∧ w'.sessions = w.sessions) := by
  obtain ⟨hrun, hu⟩ := h
  have hsend (j : Json) (v : World) :
      ((handlers.send c j).bind fun _ => (.ret 0 : ServerM Nat)).run (memExec env) v ≠
        (some u, w') := by
    intro hz
    exact hu (Option.some.inj (congrArg Prod.fst hz)).symm
  unfold handlers.requireAuth at hrun
  simp only [bind_eq_bind, Prog.call, op_bind, ret_bind, run_op, pure_eq_ret] at hrun
  rw [show (memExec env (.userId c) w).2 = w from rfl] at hrun
  by_cases huser : (memExec env (.userId c) w).1 = 0
  · rw [if_neg (not_not.mpr huser)] at hrun
    by_cases htok : getStr req "token" = ""
    · rw [if_pos htok] at hrun
      exact absurd hrun (hsend _ _)
    · rw [if_neg htok, run_op] at hrun
      cases hv : (memExec env (.validate (getStr req "token")) w).1 with
      | none =>
        rw [hv] at hrun
        exact absurd hrun (hsend _ _)
      | some info =>
        rw [hv] at hrun
        simp only [run_op] at hrun
        generalize hv₃ : (memExec env (.setSessionToken c (getStr req "token")) _).2 = v at hrun
        obtain ⟨a, -, hbind⟩ := (bind_noThrow info.userId c).run_bind (memExec env)
          (fun _ => (.ret info.userId : ServerM Nat)) v
        rw [hbind, run_ret] at hrun
        obtain ⟨hinfo, rfl⟩ := Prod.mk.inj hrun
        cases Option.some.inj hinfo
        have hident : ((Presence.bind info.userId c).run (memExec env) v).2.ident =
            w.ident.bind c info.userId (getStr req "token") := by
          apply (bind_identAfter env info.userId v).trans
          have hcache : (SessionManager.validate w.ident.sessions (env.clock w.ticks)
              (getStr req "token")).2 = w.ident.sessions := SessionManager.validate_snd_of_some hv
          rw [← hv₃]
          simp only [memExec_ident, Op.onIdent, hcache]
          rfl
        refine .inr ⟨huser, ⟨info, hv, rfl⟩, ⟨?_, ?_⟩, congrArg Ident.sessions hident⟩
        · exact (congrFun (congrArg Ident.user hident) c).trans (Function.update_self ..)
        · exact (congrFun (congrArg Ident.token hident) c).trans (Function.update_self ..)
  · rw [if_pos huser, run_ret] at hrun
    obtain ⟨hid, rfl⟩ := Prod.mk.inj hrun
    exact .inl ⟨Option.some.inj hid, rfl⟩

/-- The session of a request that is let through: a connection that is bound to nobody
needs a token that is accepted at that moment; a bound one goes on with the token that
was accepted when it was bound. -/
theorem session_accepted_when_bound {env : Env} {inputs : List Input} {c u : Nat} {req : Json}
    {w' : World} (h : Proceeds env (serveAll env inputs).state c req u w') :
    (((serveAll env inputs).state.conns c).userId = 0 ∧
      Accepts (serveAll env inputs).state.sessions (env.clock (serveAll env inputs).state.ticks)
        (w'.conns c).token u) ∨
    (((serveAll env inputs).state.conns c).userId = u ∧ w' = (serveAll env inputs).state ∧
      BoundSince env inputs c u (w'.conns c).token) := by
  rcases h.cases with ⟨huser, rfl⟩ | ⟨hzero, hacc, ⟨-, htok⟩, -⟩
  · exact .inr ⟨huser, rfl, boundSince_serveAll env inputs ⟨huser, rfl⟩ h.2⟩
  · rw [htok]
    exact .inl ⟨hzero, hacc⟩

theorem proceeds_of_bound {env : Env} {w : World} {c u : Nat} {req : Json}
    (huser : (w.conns c).userId = u) (hu : u ≠ 0) : Proceeds env w c req u w := by
  refine ⟨?_, hu⟩
  simp only [handlers.requireAuth, bind_eq_bind, Prog.call, op_bind, ret_bind, run_op, pure_eq_ret]
  rw [show (memExec env (.userId c) w).1 = u from huser, if_pos hu]
  rfl

section Runs

def revokedRun : List Input := sharedRun ++ [ask 1 logoutReq]

theorem revokedRun_state :
    ((serveAll sharedEnv revokedRun).state.conns 2).userId = 1 ∧
      (SessionManager.validate (serveAll sharedEnv revokedRun).state.sessions
        (sharedEnv.clock (serveAll sharedEnv revokedRun).state.ticks)
        ((serveAll sharedEnv revokedRun).state.conns 2).token).1 = none := by decide +kernel

theorem revokedRun_proceeds :
    Proceeds sharedEnv (serveAll sharedEnv revokedRun).state 2 (sendDmReq 1 "memo") 1
      (serveAll sharedEnv revokedRun).state :=
  proceeds_of_bound revokedRun_state.1 (by decide)

theorem session_accepted_when_bound_revokedRun :
    ∃ w', Proceeds sharedEnv (serveAll sharedEnv revokedRun).state 2 (sendDmReq 1 "memo") 1 w' ∧
      ((((serveAll sharedEnv revokedRun).state.conns 2).userId = 0 ∧
        Accepts (serveAll sharedEnv revokedRun).state.sessions
          (sharedEnv.clock (serveAll sharedEnv revokedRun).state.ticks) (w'.conns 2).token 1) ∨
      (((serveAll sharedEnv revokedRun).state.conns 2).userId = 1 ∧
        w' = (serveAll sharedEnv revokedRun).state ∧
        BoundSince sharedEnv revokedRun 2 1 (w'.conns 2).token)) :=
  ⟨_, revokedRun_proceeds, session_accepted_when_bound revokedRun_proceeds⟩

theorem revoked_session_proceeds :
    Monotone sharedEnv.clock ∧
      ∃ w', Proceeds sharedEnv (serveAll sharedEnv revokedRun).state 2 (sendDmReq 1 "memo") 1 w' ∧
        ¬Accepts w'.sessions (sharedEnv.clock w'.ticks) (w'.conns 2).token 1 := by
  -- The clock never goes back, the token of connection 2 is revoked, and a handler still goes
  -- on as alice.
  refine ⟨?_, _, revokedRun_proceeds, ?_⟩
  · intro m n hmn
    exact Int.add_le_add_left (Int.ofNat_le.mpr hmn) _
  · rintro ⟨info, hinfo, -⟩
    rw [revokedRun_state.2] at hinfo
    cases hinfo

end Runs

end ChatServer
