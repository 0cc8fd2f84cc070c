import ChatServer.Auth.Password
import ChatServer.Lib.Receipts
import ChatServer.Server.DueReply
import ChatServer.Server.Requests
import ChatServer.Server.System

namespace ChatServer

open Lib Lib.Prog

def Env.hashing (env : Env) : Env where
  __ := env
  makePasswordHash pass iter salt :=
    String.ofList (auth.makePasswordHash pass.toUTF8.data.toList (UInt32.ofNat iter) salt)
  verifyPasswordHash pass stored := auth.verifyPasswordHash pass.toUTF8.data.toList stored.toList

def Env.keyOf (env : Env) (pass : String) (salt : List UInt8) : List UInt8 :=
  auth.pbkdf2HmacSha256 pass.toUTF8.data.toList salt (UInt32.ofNat env.pbkdf2Iter) 32

theorem hashing_verifies (env : Env) (pass candidate : String) {salt : List UInt8}
    (hsalt : salt.length = 16) :
    env.hashing.verifyPasswordHash candidate
      (env.hashing.makePasswordHash pass env.hashing.pbkdf2Iter salt) = true ↔
      env.keyOf candidate salt = env.keyOf pass salt := by
  have hne : salt ≠ [] := by
    rintro rfl
    cases hsalt
  have hlen : (env.keyOf pass salt).length = 32 := auth.length_pbkdf2HmacSha256 ..
  have hkey : env.keyOf pass salt ≠ [] := by
    rw [← List.length_pos_iff, hlen]
    decide
  have hverify :=
    auth.verify_record candidate.toUTF8.data.toList (UInt32.ofNat env.pbkdf2Iter) hne hkey
  rw [hlen] at hverify
  show auth.verifyPasswordHash _ (String.ofList _).toList = true ↔ _
  rw [String.toList_ofList]
  exact hverify

structure Account where
  uid : Nat
  name : String
  hash : String

namespace Account

structure In (a : Account) (s : Store) : Prop where
  row : ∃ u, s.users.lookup a.uid = some u ∧ u.username = a.name ∧ u.passwordHash = a.hash
  named : s.usernameIdx.lookup a.name = some a.uid

variable {a : Account} {s s' : Store}

theorem In.congr (h : a.In s) (hu : s'.users = s.users) (hi : s'.usernameIdx = s.usernameIdx) :
    a.In s' :=
  ⟨hu ▸ h.row, hi ▸ h.named⟩

theorem In.uid_lt (h : a.In s) (hs : s.UsersOk) : a.uid < s.nextUserId := by
  obtain ⟨u, hu, -⟩ := h.row
  exact (hs.row _ u hu).2.2

theorem In.createUser (h : a.In s) (hs : s.UsersOk) (n p : String) (now : Int) :
    a.In (s.createUser n p now).2 := by
  simp only [Store.createUser]
  split
  · exact h
  next hfree =>
    have hname : a.name ≠ n := by
      rintro rfl
      rw [h.named] at hfree
      cases hfree
    obtain ⟨u, hu, heq⟩ := h.row
    constructor
    · exact ⟨u, by rw [AList.lookup_insert_ne (h.uid_lt hs).ne, hu], heq⟩
    · rw [AList.lookup_insert_ne hname, h.named]

theorem In.updateLastSeen (h : a.In s) (v : Nat) (ts : Int) : a.In (s.updateLastSeen v ts) := by
  simp only [Store.updateLastSeen]
  split
  next user huser =>
    refine ⟨?_, h.named⟩
    obtain ⟨u, hu, hname, hhash⟩ := h.row
    by_cases hv : a.uid = v
    · subst hv
      obtain rfl : user = u := Option.some.inj (huser.symm.trans hu)
      exact ⟨_, AList.lookup_insert _, hname, hhash⟩
    · exact ⟨u, by rw [AList.lookup_insert_ne hv, hu], hname, hhash⟩
  next => exact h

theorem In.memory {env : Env} {w : World} (h : a.In w.store) (hs : w.store.UsersOk) (o : RepoOp) :
    a.In (memory env o w).2.store := by
  cases o with
  | createUser n p => exact h.createUser hs n p _
  | updateLastSeen u ts => exact h.updateLastSeen u ts
  | createRoom n =>
    simp only [ChatServer.memory, Store.createRoom]
    split
    · exact h
    · exact h.congr rfl rfl
  | joinRoom r u =>
    simp only [ChatServer.memory, World.setStore, Store.joinRoom]
    split
    · exact h
    · exact h.congr rfl rfl
  | leaveRoom r u =>
    simp only [ChatServer.memory, World.setStore, Store.leaveRoom]
    split
    · exact h
    · exact h.congr rfl rfl
  | drainUndelivered u =>
    simp only [ChatServer.memory, World.setStore, Store.drainUndelivered]
    split
    · exact h
    · exact h.congr rfl rfl
  | _ => exact h.congr rfl rfl

theorem In.find {u : User} (h : a.In s) (hu : s.users.lookup a.uid = some u) :
    s.findUserByUsername a.name = .ok (some u) := by
  rw [Store.findUserByUsername, h.named]
  dsimp only
  rw [hu]

theorem In.memExec {env : Env} {w : World} (h : a.In w.store) (hs : w.store.UsersOk) (o : Op) :
    a.In (memExec env o w).2.store := by
  cases o with
  | repo o => exact h.memory hs o
  | _ =>
    rw [memExec_store env _ _ (by simp)]
    exact h

end Account

def Input.registration (env : Env) : Input → Option (String × String)
  | .request _ payload =>
    match env.parse payload with
    | some req =>
      if getStr req "type" = types.kRegister then some (getStr req "username",
        getStr req "password") else none
    | none => none
  | .close _ => none

def registeredId (j : Json) : Option Nat :=
  match j.find "user_id" with
  | some (.uint u) => if getStr j "type" = types.kAck then some u else none
  | _ => none

def Op.registers : Op → Option Nat
  | .sendFrame .reply _ j => registeredId j
  | _ => none

def createdAccount : (o : Op) → o.Ret → Option Account
  | .repo (.createUser n h), some uid => some ⟨uid, n, h⟩
  | _, _ => none

def registry (env : Env) : Office Input Op.Ret Account Nat where
  counts input := (input.registration env).isSome
  may
    | .randomBytes n, bytes => bytes.length = n
    | _, _ => True
  gives := createdAccount
  shows := Op.registers
  key := Account.uid
  asked input a := ∃ pass salt, input.registration env = some (a.name, pass) ∧ salt.length = 16 ∧
    a.hash = env.makePasswordHash pass env.pbkdf2Iter salt

theorem registry_keeps (env : Env) :
    (registry env).Keeps (memExec env) (fun w => w.store.UsersOk) fun w a => a.In w.store where
  sound _ o h := memExec_usersOk o h
  answers w o := by
    cases o with
    | randomBytes n => exact env.entropy_length _ n
    | _ => trivial
  stays _ o _ hs h := h.memExec hs o
  given w o a hs hgives := by
    cases o with
    | repo o =>
      cases o with
      | createUser n h =>
        simp only [registry, memExec, exec, memory, Store.createUser] at hgives ⊢
        cases hl : w.store.usernameIdx.lookup n with
        | some id =>
          simp only [hl] at hgives
          cases hgives
        | none =>
          simp only [hl] at hgives ⊢
          obtain rfl := Option.some.inj hgives
          refine ⟨⟨⟨_, AList.lookup_insert _, rfl, rfl⟩, AList.lookup_insert _⟩, ?_⟩
          exact fun q hq => (hq.uid_lt hs).ne
      | _ => cases hgives
    | _ => cases hgives

section Programs

variable {env : Env} {input : Input} {c : Nat} {t : Option Account}

@[simp] theorem registeredId_makeError (id : Option Int) (code message : String) :
    registeredId (makeError id code message) = none := by
  simp only [registeredId, makeError, Json.find, Fields.lookup_assign]
  cases id <;> rfl

@[simp] theorem registeredId_makeAck (id : Option Int) (u : Nat) (name : String) :
    registeredId (makeAck id (Fields.assign [] [("user_id", .uint u), ("username", .str name)])) =
      some u := by
  simp only [registeredId, getStr, makeAck, Json.find, Fields.lookup_assign]
  cases id <;> rfl

theorem error_filed (c : Nat) (t : Option Account) (id : Option Int) (code message : String) :
    (handlers.send c (makeError id code message)).Follows ((registry env).contract input) t
      (fun _ _ => True)
      (fun _ => True) := by
  refine ⟨fun _ => ⟨nofun, fun k hk => ?_⟩, fun _ _ _ => trivial⟩
  rw [show (registry env).shows _ = registeredId (makeError id code message) from rfl,
    registeredId_makeError] at hk
  cases hk

theorem handleRegister_filed {req : Json} (id : Option Int)
    (hreg : input.registration env = some (getStr req "username", getStr req "password")) :
    (handlers.handleRegister env c req id).Follows ((registry env).contract input) none
      (fun _ _ => True)
      (fun _ => True) := by
  have hcounts : (registry env).counts input = true := by simp [registry, hreg]
  unfold handlers.handleRegister
  dsimp only
  split
  · exact error_filed c none id _ _
  · refine ⟨fun _ => ⟨nofun, nofun⟩, ?_⟩
    rintro salt t' ⟨hsalt, rfl⟩
    rw [if_pos hcounts]
    refine ⟨fun _ => ⟨fun r a ha => ⟨rfl, ?_⟩, nofun⟩, ?_⟩
    · cases r with
      | none => cases ha
      | some uid =>
        obtain rfl := Option.some.inj ha
        exact ⟨_, salt, hreg, hsalt, rfl⟩
    · rintro r t' ⟨-, rfl⟩
      rw [if_pos hcounts]
      cases r with
      | none => exact error_filed c _ id _ _
      | some uid =>
        refine ⟨fun _ => ⟨nofun, fun k hk => ?_⟩, fun _ _ _ => trivial⟩
        obtain rfl := Option.some.inj ((registeredId_makeAck id uid _).symm.trans hk)
        exact ⟨_, rfl, rfl⟩

theorem body_filed (env : Env) (input : Input) :
    (body env input).Follows ((registry env).contract input) none (fun _ _ => True)
    (fun _ => True) := by
  cases hreg : input.registration env with
  | none =>
    have hfree : (registry env).counts input = false := by simp [registry, hreg]
    refine keeps_of_answers (fun _ _ _ => ⟨fun h => ?_, fun _ _ _ => ⟨trivial, trivial⟩⟩) _ _
      trivial
    rw [hfree] at h
    cases h
  | some r =>
    cases input with
    | close c => cases hreg
    | request c payload =>
      cases hreq : env.parse payload with
      | none => simp [Input.registration, hreq] at hreg
      | some req =>
        by_cases htype : getStr req "type" = types.kRegister
        · rw [body, handlers.dispatch_named hreq htype (by decide) rfl, follows_tryCatch]
          exact (handleRegister_filed _ (by simp [Input.registration, hreq, htype])).mono
            (fun _ _ h => h)
            fun t _ => error_filed c t _ _ _
        · simp [Input.registration, hreq, htype] at hreg

end Programs

theorem login_replies (env : Env) {w : World} {name : String} {u : User}
    (hu : w.store.findUserByUsername name = .ok (some u)) {payload : List UInt8} {req : Json}
    (hreq : env.parse payload = some req) (htype : getStr req "type" = types.kLogin)
    (hname : getStr req "username" = name) (c : Nat) :
    replies env (handlers.dispatch env c payload) w =
      [due.Answer.json env (requestId req)
        (if env.verifyPasswordHash (getStr req "password") u.passwordHash then
          .session u (util.hexEncode (env.entropy w.draws 32))
        else .refused errcode.kUnauthorized "bad credentials")] := by
  rw [handlers.dispatch_named hreq htype (by decide) rfl]
  have hlogin := handleLogin_says env w c req (requestId req)
  refine (hlogin.tryCatch (.refused errcode.kInternal "internal error")).trans ?_
  rw [due.login, hname, hu]
  dsimp only
  split <;> rfl

/-- Whatever tasks ran meanwhile, an account that was acknowledged is there: a login under its
name gets a session for it exactly with a password of the same key.  No name and no number
was acknowledged to two tasks. -/
theorem registered_can_login {env : Env} {ok : Sys → Move Input → Prop} {g : Sys}
    (hg : Reachable env.hashing ok g) :
    (∀ e ∈ g.hist.log, ∀ name pass, e.job.registration env = some (name, pass) →
      ∀ k, e.op.registers = some k →
      ∃ u salt, u.id = k ∧ u.username = name ∧ salt.length = 16 ∧
        ∀ c payload req, env.parse payload = some req → getStr req "type" = types.kLogin →
          getStr req "username" = name →
          replies env.hashing (handlers.dispatch env.hashing c payload) g.hist.state =
            [due.Answer.json env.hashing (requestId req)
              (if env.keyOf (getStr req "password") salt = env.keyOf pass salt then
                .session u (util.hexEncode (env.entropy g.hist.state.draws 32))
              else .refused errcode.kUnauthorized "bad credentials")]) ∧
    ∀ e ∈ g.hist.log, ∀ e' ∈ g.hist.log, ∀ r r' k k', e.job.registration env = some r →
      e'.job.registration env = some r' → e.op.registers = some k → e'.op.registers = some k' →
      r.1 = r'.1 ∨ k = k' → e.task = e'.task := by
  obtain ⟨hsound, hkept, hapart⟩ :=
    (registry env.hashing).shown_kept (registry_keeps _) (body_filed _) Store.usersOk_empty hg
  -- both environments read the requests alike
  have hcounts {j : Input} {r : String × String} (h : j.registration env = some r) :
      (registry env.hashing).counts j = true := by
    rw [show (registry env.hashing).counts j = (j.registration env).isSome from rfl, h]
    rfl
  constructor
  · intro e he name pass hreg k hk
    obtain ⟨a, rfl, ⟨pass', salt, hreg', hsalt, hhash⟩, hin⟩ := hkept e he (hcounts hreg) k hk
    obtain ⟨rfl, rfl⟩ := Prod.mk.inj (Option.some.inj (hreg.symm.trans hreg'))
    obtain ⟨u, hu, hname, hrecord⟩ := hin.row
    refine ⟨u, salt, (hsound.row _ u hu).1, hname, hsalt,
      fun c payload req hreq htype hreqname => ?_⟩
    have hverify := hashing_verifies env pass (getStr req "password") hsalt
    rw [login_replies env.hashing (hin.find hu) hreq htype hreqname c, hrecord, hhash]
    simp only [hverify]
    rfl
  · intro e he e' he' r r' k k' hr hr' hk hk' hsame
    suffices hkk : k = k' from hapart e he e' he' (hcounts hr) (hcounts hr') k hk (hkk ▸ hk')
    rcases hsame with hname | hkk
    · obtain ⟨a, rfl, ⟨_, _, ha, -⟩, hin⟩ := hkept e he (hcounts hr) k hk
      obtain ⟨b, rfl, ⟨_, _, hb, -⟩, hin'⟩ := hkept e' he' (hcounts hr') k' hk'
      obtain rfl := Option.some.inj (hr.symm.trans ha)
      obtain rfl := Option.some.inj (hr'.symm.trans hb)
      have hnamed := hin'.named
      rw [← (show a.name = b.name from hname), hin.named] at hnamed
      exact Option.some.inj hnamed
    · exact hkk

def aliceEnv : Env := sampleEnv [loginReq "alice" "wonder", registerReq "alice" "wonder"]

theorem registered_can_login_alice :
    ∃ g, Reachable aliceEnv.hashing (fun _ _ => True) g ∧ ∃ u, u.id = 1 ∧ u.username = "alice" ∧
      replies aliceEnv.hashing (handlers.dispatch aliceEnv.hashing 2
        (payloadOf (loginReq "alice" "wonder")))
        g.hist.state = [due.Answer.json aliceEnv.hashing (requestId (loginReq "alice" "wonder"))
          (.session u (util.hexEncode (aliceEnv.entropy g.hist.state.draws 32)))] := by
  have hrun : (Sys.start.steps (memExec aliceEnv.hashing) (body aliceEnv.hashing) (fun _ _ => true)
      (begin 0 (ask 1 (registerReq "alice" "wonder")) 3)).map (fun g => g.hist.log.any fun e =>
        e.job = ask 1 (registerReq "alice" "wonder") ∧ e.op.registers = some 1) = some true := by
    decide +kernel
  have hreg : (ask 1 (registerReq "alice" "wonder")).registration aliceEnv =
      some ("alice", "wonder") := by
    decide +kernel
  obtain ⟨g, hreach, hack⟩ := Config.Reach.of_steps (fun _ _ _ => trivial) hrun
  obtain ⟨e, he, heq⟩ := List.any_eq_true.mp hack
  obtain ⟨hjob, hop⟩ := of_decide_eq_true heq
  obtain ⟨u, salt, huid, hname, -, hlogin⟩ :=
    (registered_can_login hreach).1 e he "alice" "wonder" (hjob ▸ hreg) 1 hop
  have hparse : aliceEnv.parse (payloadOf (loginReq "alice" "wonder")) =
      some (loginReq "alice" "wonder") := by
    simp [aliceEnv, sampleEnv]
  have hsame := hlogin 2 _ _ hparse (by decide +kernel) (by decide +kernel)
  have hpass : getStr (loginReq "alice" "wonder") "password" = "wonder" := by decide +kernel
  rw [hpass, if_pos rfl] at hsame
  exact ⟨g, hreach, u, huid, hname, hsame⟩

end ChatServer
