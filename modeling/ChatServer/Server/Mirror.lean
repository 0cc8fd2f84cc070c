import ChatServer.Server.Identity

namespace ChatServer

open Lib Lib.Prog

namespace Ident

def Mirrors (s : Ident) : Prop :=
  ∀ c u, c ∈ s.slot u ↔ s.closed c = false ∧ u ≠ 0 ∧ s.user c = u

variable {s : Ident} {c : Nat}

theorem Mirrors.bind (h : s.Mirrors) {u : Nat} (hopen : s.closed c = false) (hu : u ≠ 0)
    (hold : s.user c = 0 ∨ s.user c = u) (tok : String) : (s.bind c u tok).Mirrors := by
  intro d v
  simp only [Ident.bind, Function.update_apply]
  by_cases hdc : d = c
  · subst hdc
    by_cases hvu : v = u
    · subst hvu
      simp [hopen, hu]
    · have hout : d ∉ s.slot v := by
        intro hd
        obtain ⟨-, hv, hdv⟩ := (h d v).mp hd
        rcases hold with hzero | heq
        · exact hv (hdv.symm.trans hzero)
        · exact hvu (hdv.symm.trans heq)
      simp [hvu, hout, Ne.symm hvu]
  · by_cases hvu : v = u
    · subst hvu
      simp [hdc, h d v]
    · simp [hdc, hvu, h d v]

theorem Mirrors.not_bind (h : s.Mirrors) {u : Nat} (hopen : s.closed c = false)
    (hold : s.user c ≠ 0) (hne : s.user c ≠ u) (tok : String) : ¬(s.bind c u tok).Mirrors := by
  intro hm
  have hslot : c ∈ s.slot (s.user c) := (h c (s.user c)).mpr ⟨hopen, hold, rfl⟩
  have hstill : c ∈ (s.bind c u tok).slot (s.user c) := by
    simpa [Ident.bind, Function.update_of_ne hne] using hslot
  have hnow : (s.bind c u tok).user c = s.user c := ((hm c (s.user c)).mp hstill).2.2
  simp only [Ident.bind, Function.update_self] at hnow
  exact hne hnow.symm

theorem Mirrors.leave_slot (h : s.Mirrors) {d v : Nat} :
    d ∈ (s.leave c).slot v ↔ d ≠ c ∧ d ∈ s.slot v := by
  have hcv := h c v
  simp only [Ident.leave]
  split
  · rename_i hzero
    constructor
    · intro hd
      refine ⟨?_, hd⟩
      rintro rfl
      obtain ⟨-, hv, hu⟩ := hcv.mp hd
      exact hv (hu.symm.trans hzero)
    · exact fun hd => hd.2
  · by_cases hv : v = s.user c
    · subst hv
      simp
    · simp only [Function.update_of_ne hv]
      constructor
      · intro hd
        refine ⟨?_, hd⟩
        rintro rfl
        exact hv (hcv.mp hd).2.2.symm
      · exact fun hd => hd.2

theorem Mirrors.logout (h : s.Mirrors) : (s.logout c).Mirrors := by
  have hrevoked : (if s.token c = "" then s else s.revoke (s.token c)).Mirrors := by
    split
    · exact h
    · exact h
  intro d v
  change d ∈ (Ident.leave _ c).slot v ↔ (Ident.leave _ c).closed d = false ∧ v ≠ 0 ∧
    Function.update (Ident.leave _ c).user c 0 d = v
  rw [hrevoked.leave_slot, leave_closed_eq, leave_user, hrevoked d v]
  by_cases hdc : d = c
  · subst hdc
    simp only [ne_eq, not_true_eq_false, false_and, Function.update_self, false_iff, not_and]
    exact fun _ hv hz => hv hz.symm
  · simp [hdc]

theorem Mirrors.close (h : s.Mirrors) : (s.close c).Mirrors := by
  intro d v
  change d ∈ (s.leave c).slot v ↔ Function.update s.closed c true d = false ∧ v ≠ 0 ∧
    (s.leave c).user d = v
  rw [h.leave_slot, leave_user, h d v]
  by_cases hdc : d = c
  · subst hdc
    simp
  · simp [hdc]

end Ident

def onOpen (w : World) : Input → Prop
  | .request c _ => (w.conns c).isOpen = true
  | .close _ => True

/-- The request logs a connection in that acts as somebody else. -/
def relogin (env : Env) (w : World) : Input → Prop
  | .request c payload => ∃ req u, env.parse payload = some req ∧
      getStr req "type" = types.kLogin ∧
      w.store.findUserByUsername (getStr req "username") = .ok (some u) ∧
      env.verifyPasswordHash (getStr req "password") u.passwordHash = true ∧
      (w.conns c).userId ≠ 0 ∧ (w.conns c).userId ≠ u.id
  | .close _ => False

section Step

variable {env : Env} {w : World} {input : Input}

theorem AccountsOk.step (h : AccountsOk w) :
    AccountsOk ((body env input).run (memExec env) w).2 where
  users := Prog.run_keeps (memExec env) (I := fun w => w.store.UsersOk)
    (fun o _ hw => memExec_usersOk o hw) (body env input) w h.users
  sessions := by
    intro tok info hl
    change (identAfter env (body env input) w).sessions.lookup tok = some info at hl
    have hstep := body_identStep env w input
    generalize identAfter env (body env input) w = s at hl hstep
    cases hstep with
    | same => exact h.sessions tok info hl
    | @login _ _ _ u _ _ hfind _ =>
      by_cases htok : tok = freshToken env w
      · subst htok
        simp only [Ident.bind, Ident.issue, AList.lookup_insert, Option.some.injEq] at hl
        subst hl
        exact (h.users.find hfind).2.2
      · simp only [Ident.bind, Ident.issue, AList.lookup_insert_ne htok] at hl
        exact h.sessions tok info hl
    | expire => exact h.sessions tok info (SessionManager.lookup_validate hl)
    | token => exact h.sessions tok info hl
    | logout => exact h.sessions tok info (Ident.lookup_logout hl).1
    | close =>
      rw [Ident.close, Ident.leave_sessions] at hl
      exact h.sessions tok info hl

theorem mirrors_step (ha : AccountsOk w) (hm : w.ident.Mirrors) (hopen : onOpen w input)
    (hre : ¬relogin env w input) : (identAfter env (body env input) w).Mirrors := by
  have hstep := body_identStep env w input
  generalize identAfter env (body env input) w = s at hstep
  cases hstep with
  | same => exact hm
  | @login c payload req u hreq htype hfind hpass =>
    have hclosed : w.ident.closed c = false := by
      simp only [onOpen, Conn.isOpen, Bool.and_eq_true, Bool.not_eq_true'] at hopen
      exact hopen.2
    have hsame : w.ident.user c = 0 ∨ w.ident.user c = u.id := by
      by_contra hcon
      rw [not_or] at hcon
      exact hre ⟨req, u, hreq, htype, hfind, hpass, hcon.1, hcon.2⟩
    exact Ident.Mirrors.bind (s := w.ident.issue _ _) hm hclosed (ha.users.find hfind).2.2 hsame _
  | expire => exact hm
  | @token c payload req info hreq huser hvalid =>
    have hclosed : w.ident.closed c = false := by
      simp only [onOpen, Conn.isOpen, Bool.and_eq_true, Bool.not_eq_true'] at hopen
      exact hopen.2
    have hinfo := ha.sessions _ info (SessionManager.validate_some.mp hvalid).1
    exact hm.bind hclosed hinfo (.inl huser) _
  | logout => exact hm.logout
  | close => exact hm.close

theorem not_mirrors_of_relogin (hm : w.ident.Mirrors) (hopen : onOpen w input)
    (hre : relogin env w input) : ¬(identAfter env (body env input) w).Mirrors := by
  cases input with
  | close c => exact hre.elim
  | request c payload =>
    obtain ⟨req, u, hreq, htype, hfind, hpass, hzero, hne⟩ := hre
    rw [login_identAfter hreq htype hfind hpass]
    simp only [onOpen, Conn.isOpen, Bool.and_eq_true, Bool.not_eq_true'] at hopen
    exact Ident.Mirrors.not_bind (s := w.ident.issue _ _) hm hopen.2 hzero hne _

end Step

/-- Connection `c` is in the presence slot of `u` exactly when it is not closed and acts
as `u`. -/
def PresenceMirrors (w : World) : Prop :=
  ∀ c u, c ∈ w.slot u ↔ (w.conns c).closed = false ∧ u ≠ 0 ∧ (w.conns c).userId = u

theorem mirrors_init : World.init.ident.Mirrors := by
  intro c u
  constructor
  · intro hc
    cases hc
  · rintro ⟨-, hu, hzero⟩
    exact absurd hzero.symm hu

/-- Over complete requests from open connections and closes, presence mirrors identity
in every state exactly when no connection is ever logged in as somebody else. -/
theorem presence_mirrors_iff (env : Env) (inputs : List Input) (hopen : Each env onOpen inputs) :
    (∀ pre post, inputs = pre ++ post → PresenceMirrors (serveAll env pre).state) ↔
      Each env (fun w input => ¬relogin env w input) inputs := by
  constructor
  · intro hall pre input post heq hre
    have hbefore := hall pre (input :: post) heq
    have hafter := hall (pre ++ [input]) post
      (by rw [heq, List.append_assoc, List.singleton_append])
    rw [serveAll_append_one] at hafter
    exact not_mirrors_of_relogin hbefore (hopen pre input post heq) hre hafter
  · intro hno pre post heq
    subst heq
    have hboth : Each env (fun w input => onOpen w input ∧ ¬relogin env w input) pre :=
      fun p input q hp => ⟨hopen.of_append p input q hp, hno.of_append p input q hp⟩
    exact (serveAll_keeps (I := fun w => AccountsOk w ∧ w.ident.Mirrors)
      (fun _ _ h hP => ⟨h.1.step, mirrors_step h.1 h.2 hP.1 hP.2⟩)
      ⟨accountsOk_init, mirrors_init⟩ pre hboth).2

def switchUser : List Input :=
  [ask 1 (registerReq "alice" "wonder"), ask 1 (registerReq "bob" "builder"),
    ask 1 (loginReq "alice" "wonder"), ask 1 (loginReq "bob" "builder")]

def switchEnv : Env :=
  sampleEnv [registerReq "alice" "wonder", registerReq "bob" "builder", loginReq "alice" "wonder",
    loginReq "bob" "builder", logoutReq]

def onOpenCheck (w : World) : Input → Bool
  | .request c _ => (w.conns c).isOpen
  | .close _ => true

theorem onOpen_of_check (w : World) (input : Input) (h : onOpenCheck w input = true) :
    onOpen w input := by
  cases input with
  | request c payload => exact h
  | close c => trivial

theorem switchUser_onOpen : Each switchEnv onOpen switchUser :=
  each_of_check onOpenCheck onOpen_of_check (by decide +kernel)

theorem presence_mirrors_iff_switchUser :
    Each switchEnv onOpen switchUser ∧
      ((∀ pre post, switchUser = pre ++ post → PresenceMirrors (serveAll switchEnv pre).state) ↔
        Each switchEnv (fun w input => ¬relogin switchEnv w input) switchUser) :=
  ⟨switchUser_onOpen, presence_mirrors_iff switchEnv switchUser switchUser_onOpen⟩

theorem switchUser_in_two_slots :
    Each switchEnv onOpen switchUser ∧ ¬PresenceMirrors (serveAll switchEnv switchUser).state := by
  -- Afterwards the connection is still in the slot of alice.
  refine ⟨switchUser_onOpen, fun hm => ?_⟩
  have hrun : 1 ∈ (serveAll switchEnv switchUser).state.slot 1 ∧
      ((serveAll switchEnv switchUser).state.conns 1).userId = 2 := by decide +kernel
  obtain ⟨hslot, huser⟩ := hrun
  have h := ((hm 1 1).mp hslot).2.2
  rw [huser] at h
  cases h

end ChatServer
