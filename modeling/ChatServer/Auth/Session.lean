import ChatServer.Db.Integrity
import ChatServer.Lib.Machine
import ChatServer.Server.Identity

namespace ChatServer.SessionManager

open Lib

def ofRow (ttl : Int) (r : SessionRow) : SessionInfo := ⟨r.userId, r.lastActiveMs + ttl * 1000⟩

def warm (ttl now : Int) : Cache → List SessionRow → Cache
  | cache, [] => cache
  | cache, r :: rows =>
    if (ofRow ttl r).expiresAtMs ≤ now then warm ttl now cache rows
    else warm ttl now (cache.insert r.token (ofRow ttl r)) rows

def touch (ttl now : Int) (cache : Cache) (tok : String) : Cache :=
  match cache.lookup tok with
  | none => cache
  | some info => cache.insert tok { info with expiresAtMs := now + ttl * 1000 }

structure Manager where
  cache : Cache
  repos : Store

inductive Call : Type
  | warm : Call
  | create : String → Nat → Call
  | validate : String → Call
  | touch : String → Call
  | revoke : String → Call

def Manager.apply (ttl now : Int) (m : Manager) : Call → Manager
  | .warm => { m with cache := SessionManager.warm ttl now m.cache m.repos.sessions }
  | .create tok u => ⟨m.cache.insert tok ⟨u, now + ttl * 1000⟩, m.repos.insertSession tok u now⟩
  | .validate tok => { m with cache := (SessionManager.validate m.cache now tok).2 }
  | .touch tok => { m with cache := SessionManager.touch ttl now m.cache tok }
  | .revoke tok => ⟨m.cache.erase tok, m.repos.deleteSession tok⟩

/-! ## The programs of the server -/

def Manager.ofWorld (w : World) : Manager := ⟨w.sessions, w.store⟩

theorem run_create (env : Env) (u : Nat) (w : World) :
    ∃ tok, ((create env u).run (memExec env) w).1 = some tok ∧
      Manager.ofWorld ((create env u).run (memExec env) w).2 =
        (Manager.ofWorld w).apply (ttlSeconds env) (env.clock w.ticks) (.create tok u) :=
  ⟨_, rfl, rfl⟩

theorem run_revoke (env : Env) (tok : String) (w : World) (now : Int) :
    Manager.ofWorld ((revoke tok).run (memExec env) w).2 =
      (Manager.ofWorld w).apply (ttlSeconds env) now (.revoke tok) := rfl

theorem run_validate (env : Env) (tok : String) (w : World) :
    Manager.ofWorld ((call (.validate tok) : ServerM _).run (memExec env) w).2 =
      (Manager.ofWorld w).apply (ttlSeconds env) (env.clock w.ticks) (.validate tok) := by
  rfl

/-! ## What the cache and the stored sessions answer -/

theorem validate_fst (cache : Cache) (now : Int) (tok : String) :
    (validate cache now tok).1 = (cache.lookup tok).filter fun info => now < info.expiresAtMs := by
  rw [validate]
  cases cache.lookup tok with
  | none => rfl
  | some info => by_cases h : info.expiresAtMs ≤ now <;> simp [Option.filter_some, h]

theorem lookup_validate_snd (cache : Cache) (now : Int) (tok t : String) :
    (validate cache now tok).2.lookup t =
      if t = tok then (validate cache now tok).1 else cache.lookup t := by
  rw [validate]
  cases h : cache.lookup tok with
  | none => grind
  | some info => split <;> grind [AList.lookup_erase, AList.lookup_erase_ne]

theorem validate_validate (cache : Cache) {now now' : Int} (hle : now ≤ now') (tok t : String) :
    (validate (validate cache now tok).2 now' t).1 = (validate cache now' t).1 := by
  simp only [validate_fst, lookup_validate_snd]
  split
  · rename_i h
    subst h
    cases cache.lookup t with
    | none => rfl
    | some info =>
      by_cases h : now < info.expiresAtMs
      · simp [Option.filter_some, h]
      · have h' : ¬now' < info.expiresAtMs := by omega
        simp [Option.filter_some, h, h']
  · rfl

theorem validate_erase (cache : Cache) (now : Int) (tok t : String) :
    (validate (cache.erase tok) now t).1 = if t = tok then none else (validate cache now t).1 := by
  simp only [validate_fst]
  split
  · rename_i h
    rw [h, AList.lookup_erase]
    rfl
  · rename_i h
    rw [AList.lookup_erase_ne h]

def stored (ttl : Int) (rows : List SessionRow) (tok : String) : Option SessionInfo :=
  (rows.find? fun r => r.token = tok).map (ofRow ttl)

theorem stored_cons (ttl : Int) (r : SessionRow) (rows : List SessionRow) (t : String) :
    stored ttl (r :: rows) t = if r.token = t then some (ofRow ttl r) else stored ttl rows t := by
  by_cases h : r.token = t <;> simp [stored, h]

theorem stored_upsertSession (ttl : Int) (tok : String) (u : Nat) (now : Int)
    (rows : List SessionRow) (t : String) : stored ttl (Store.upsertSession tok u now rows) t =
      if t = tok then some ⟨u, now + ttl * 1000⟩ else stored ttl rows t := by
  induction rows with
  | nil => grind [Store.upsertSession, stored_cons, ofRow]
  | cons r rows ih => grind [Store.upsertSession, stored_cons, ofRow]

theorem stored_deleteSession (ttl : Int) (repos : Store) (tok t : String) :
    stored ttl (repos.deleteSession tok).sessions t = if t = tok then none else stored ttl
      repos.sessions t := by
  simp only [Store.deleteSession]
  induction repos.sessions with
  | nil => simp [stored]
  | cons r rows ih => grind [stored_cons]

theorem stored_eq_none {ttl : Int} {rows : List SessionRow} {tok : String}
    (h : tok ∉ rows.map SessionRow.token) : stored ttl rows tok = none := by
  rw [stored, List.find?_eq_none.mpr, Option.map_none]
  intro r hr heq
  exact h (List.mem_map.mpr ⟨r, hr, by simpa using heq⟩)

theorem lookup_warm {ttl now : Int} {rows : List SessionRow}
    (hrows : (rows.map SessionRow.token).Nodup) (cache : Cache) (tok : String) :
    (warm ttl now cache rows).lookup tok =
      ((stored ttl rows tok).filter fun info => now < info.expiresAtMs).or (cache.lookup tok) := by
  induction rows generalizing cache with
  | nil => rfl
  | cons r rows ih =>
    obtain ⟨hnew, hrest⟩ := List.nodup_cons.mp hrows
    rw [warm, stored_cons]
    by_cases hlive : (ofRow ttl r).expiresAtMs ≤ now
    · rw [if_pos hlive, ih hrest]
      by_cases htok : r.token = tok
      · simp [htok, Option.filter_some, not_lt.mpr hlive, stored_eq_none (htok ▸ hnew)]
      · simp [htok]
    · rw [if_neg hlive, ih hrest]
      by_cases htok : r.token = tok
      · simp [htok, Option.filter_some, not_le.mp hlive, stored_eq_none (htok ▸ hnew)]
      · simp [htok, AList.lookup_insert_ne (Ne.symm htok)]

/-! ## Runs -/

/-- A manager at the time of its last operation, with the tokens that were stored at the
start, created or revoked since. -/
structure Timed where
  manager : Manager
  now : Int
  used : Finset String
  revoked : Finset String

structure TimedCall where
  time : Int
  call : Call

namespace Timed

def start (repos : Store) (now : Int) : Timed :=
  ⟨⟨∅, repos⟩, now, (repos.sessions.map SessionRow.token).toFinset, ∅⟩

def can (s : Timed) (m : TimedCall) : Bool :=
  s.now ≤ m.time &&
  match m.call with
  | .create tok _ => tok ∉ s.used
  | _ => true

def next (ttl : Int) (s : Timed) (m : TimedCall) : Timed :=
  let manager := s.manager.apply ttl m.time m.call
  match m.call with
  | .create tok _ => ⟨manager, m.time, insert tok s.used, s.revoked⟩
  | .revoke tok => ⟨manager, m.time, insert tok s.used, insert tok s.revoked⟩
  | _ => ⟨manager, m.time, s.used, s.revoked⟩

def machine (ttl : Int) : Machine Timed TimedCall := ⟨can, next ttl⟩

@[simp]
theorem manager_next (ttl : Int) (s : Timed) (m : TimedCall) :
    (s.next ttl m).manager = s.manager.apply ttl m.time m.call := by
  cases hm : m.call <;> simp [next, hm]

@[simp]
theorem now_next (ttl : Int) (s : Timed) (m : TimedCall) : (s.next ttl m).now = m.time := by
  cases hm : m.call <;> simp [next, hm]

theorem le_of_can {s : Timed} {m : TimedCall} (h : s.can m) : s.now ≤ m.time :=
  of_decide_eq_true (Bool.and_eq_true _ _ ▸ h).1

/-- From now on, the cache answers with the stored sessions that have not expired. -/
def Mirrors (ttl : Int) (s : Timed) : Prop :=
  (s.manager.repos.sessions.map SessionRow.token).Nodup ∧
    ∀ now ≥ s.now, ∀ tok, (validate s.manager.cache now tok).1 =
      (stored ttl s.manager.repos.sessions tok).filter fun info => now < info.expiresAtMs

/-- The operations on which the cache and the stored sessions are kept in step. -/
def writesThrough (m : TimedCall) : Bool :=
  match m.call with
  | .create _ _ | .validate _ | .revoke _ => true
  | _ => false

end Timed

theorem validate_warm {ttl now now' : Int} {rows : List SessionRow}
    (hrows : (rows.map SessionRow.token).Nodup) (hle : now ≤ now') (tok : String) :
    (validate (warm ttl now ∅ rows) now' tok).1 =
      (stored ttl rows tok).filter fun info => now' < info.expiresAtMs := by
  rw [validate_fst, lookup_warm hrows, AList.lookup_empty, Option.or_none]
  cases stored ttl rows tok with
  | none => rfl
  | some info =>
    by_cases h : now < info.expiresAtMs
    · simp [Option.filter_some, h]
    · have h' : ¬now' < info.expiresAtMs := by omega
      simp [Option.filter_some, h, h']

theorem Timed.Mirrors.next {ttl : Int} {s : Timed} {m : TimedCall} (h : s.Mirrors ttl)
    (hcan : s.can m) (hm : Timed.writesThrough m) : (s.next ttl m).Mirrors ttl := by
  obtain ⟨hrows, hview⟩ := h
  have hle := Timed.le_of_can hcan
  obtain ⟨time, call⟩ := m
  simp only [Timed.Mirrors, Timed.manager_next, Timed.now_next]
  cases call with
  | create tok u =>
    refine ⟨Store.tokens_insertSession hrows tok u time, fun now hnow t => ?_⟩
    show (validate (s.manager.cache.insert tok ⟨u, time + ttl * 1000⟩) now t).1 =
      (stored ttl (Store.upsertSession tok u time s.manager.repos.sessions) t).filter _
    rw [stored_upsertSession, validate_fst]
    split
    · rename_i ht
      rw [ht, AList.lookup_insert]
    · rename_i ht
      rw [AList.lookup_insert_ne ht, ← validate_fst]
      exact hview now (hle.trans hnow) t
  | validate tok =>
    refine ⟨hrows, fun now hnow t => ?_⟩
    exact (validate_validate _ hnow tok t).trans (hview now (hle.trans hnow) t)
  | revoke tok =>
    refine ⟨Store.tokens_deleteSession hrows tok, fun now hnow t => ?_⟩
    show (validate (s.manager.cache.erase tok) now t).1 =
      (stored ttl (s.manager.repos.deleteSession tok).sessions t).filter _
    rw [stored_deleteSession, validate_erase]
    split
    · rfl
    · exact hview now (hle.trans hnow) t
  | warm => cases hm
  | touch tok => cases hm

/-! ## Two managers over the same repositories -/

structure Twins where
  first : Cache
  second : Cache
  repos : Store
  now : Int

namespace Twins

inductive Move : Type
  | validateFirst : Int → String → Move
  | validateSecond : Int → String → Move
  | revoke : Int → String → Move

def Move.time : Move → Int
  | .validateFirst t _ | .validateSecond t _ | .revoke t _ => t

def next (ttl : Int) (p : Twins) : Move → Twins
  | .validateFirst t tok =>
    let m := (Manager.mk p.first p.repos).apply ttl t (.validate tok)
    { p with first := m.cache, repos := m.repos, now := t }
  | .validateSecond t tok =>
    let m := (Manager.mk p.second p.repos).apply ttl t (.validate tok)
    { p with second := m.cache, repos := m.repos, now := t }
  | .revoke t tok =>
    let m := (Manager.mk p.first p.repos).apply ttl t (.revoke tok)
    let m' := (Manager.mk p.second m.repos).apply ttl t (.revoke tok)
    ⟨m.cache, m'.cache, m'.repos, t⟩

def machine (ttl : Int) : Machine Twins Move := ⟨fun p m => p.now ≤ m.time, next ttl⟩

def Agree (p : Twins) : Prop :=
  ∀ now ≥ p.now, ∀ tok, (validate p.first now tok).1 = (validate p.second now tok).1

theorem Agree.next {p : Twins} (h : p.Agree) (ttl : Int) {m : Move} (hle : p.now ≤ m.time) :
    (p.next ttl m).Agree := by
  intro now hnow t
  cases m with
  | validateFirst time tok =>
      exact (validate_validate _ hnow tok t).trans (h now (hle.trans hnow) t)
  | validateSecond time tok =>
      exact (h now (hle.trans hnow) t).trans (validate_validate _ hnow tok t).symm
  | revoke time tok =>
    show (validate (p.first.erase tok) now t).1 = (validate (p.second.erase tok) now t).1
    rw [validate_erase, validate_erase, h now (hle.trans hnow) t]

end Twins

/-- A manager that was warmed (a new one, where nothing was stored) and has created,
validated and revoked since, and one warmed now from the same repositories: the two answer
alike from now on, also while both revoke the same tokens. -/
theorem restart_answers_alike {ttl : Int} {repos : Store}
    (hrepos : (repos.sessions.map SessionRow.token).Nodup) {t₀ : Int} {s : Timed}
    (h : (Timed.machine ttl).Reach (fun _ m => Timed.writesThrough m)
      ((Timed.start repos t₀).next ttl ⟨t₀, .warm⟩) s)
    {t : Int} (ht : s.now ≤ t) {p : Twins} (hp : (Twins.machine ttl).Reach (fun _ _ => True)
      ⟨s.manager.cache, warm ttl t ∅ s.manager.repos.sessions, s.manager.repos, t⟩ p)
    {now : Int} (hnow : p.now ≤ now) (tok : String) :
    (validate p.first now tok).1 = (validate p.second now tok).1 := by
  have hmirrors : s.Mirrors ttl :=
    h.invariant (Timed.Mirrors ttl) ⟨hrepos, fun now hnow tok => validate_warm hrepos hnow tok⟩
      fun _ _ hs hcan hm => hs.next hcan hm
  have hstart : Twins.Agree ⟨s.manager.cache, warm ttl t ∅ s.manager.repos.sessions,
      s.manager.repos, t⟩ := by
    intro now hnow tok
    exact (hmirrors.2 now (ht.trans hnow) tok).trans (validate_warm hmirrors.1 hnow tok).symm
  have hagree : p.Agree :=
    hp.invariant Twins.Agree hstart fun _ _ hp hm _ => hp.next ttl (of_decide_eq_true hm)
  exact hagree now hnow tok

def shift : List TimedCall :=
  [⟨0, .create "a" 1⟩, ⟨10, .create "b" 2⟩, ⟨20, .create "c" 3⟩, ⟨30, .revoke "a"⟩,
    ⟨2000, .validate "a"⟩]

theorem restart_answers_alike_shift :
    let s := (Timed.machine 2).run ((Timed.start .empty 0).next 2 ⟨0, .warm⟩) shift
    let p := (Twins.machine 2).run ⟨s.manager.cache, warm 2 2005 ∅ s.manager.repos.sessions,
      s.manager.repos, 2005⟩
      [.validateFirst 2010 "b", .revoke 2011 "d"]
    (validate p.second 2012 "c").1 = some ⟨3, 2020⟩ ∧
      (validate p.first 2012 "c").1 = (validate p.second 2012 "c").1 ∧
      (validate p.first 2012 "b").1 = (validate p.second 2012 "b").1 := by
  intro s p
  have hs : (Timed.machine 2).Runs (fun _ m => Timed.writesThrough m = true)
      ((Timed.start .empty 0).next 2 ⟨0, .warm⟩) shift := by decide
  have hp : (Twins.machine 2).Runs (fun _ _ => True)
      ⟨s.manager.cache, warm 2 2005 ∅ s.manager.repos.sessions, s.manager.repos, 2005⟩
      [.validateFirst 2010 "b", .revoke 2011 "d"] := by decide
  have hempty : (Store.empty.sessions.map SessionRow.token).Nodup := List.nodup_nil
  have halike (tok : String) : (validate p.first 2012 tok).1 = (validate p.second 2012 tok).1 :=
    restart_answers_alike hempty (.runs .start hs) (by decide) (.runs .start hp) (by decide) tok
  exact ⟨by decide, halike "c", halike "b"⟩

/-! ## Sessions that have ended -/

def Call.onEntry (ttl now : Int) (row entry : Option SessionInfo) (tok : String) :
    Call → Option SessionInfo
  | .warm => (row.filter fun info => now < info.expiresAtMs).or entry
  | .create t u => if tok = t then some ⟨u, now + ttl * 1000⟩ else entry
  | .validate t => if tok = t then entry.filter fun info => now < info.expiresAtMs else entry
  | .touch t =>
      if tok = t then entry.map fun info => { info with expiresAtMs := now + ttl * 1000 } else entry
  | .revoke t => if tok = t then none else entry

def Call.onRow (ttl now : Int) (row : Option SessionInfo) (tok : String) : Call → Option SessionInfo
  | .create t u => if tok = t then some ⟨u, now + ttl * 1000⟩ else row
  | .revoke t => if tok = t then none else row
  | _ => row

theorem lookup_apply {m : Manager} (hrows : (m.repos.sessions.map SessionRow.token).Nodup)
    (ttl now : Int) (call : Call) (tok : String) :
    (m.apply ttl now call).cache.lookup tok =
      call.onEntry ttl now (stored ttl m.repos.sessions tok) (m.cache.lookup tok) tok := by
  cases call with
  | warm => exact lookup_warm hrows m.cache tok
  | create t u =>
    rw [Manager.apply, Call.onEntry]
    grind [AList.lookup_insert, AList.lookup_insert_ne]
  | validate t =>
    rw [Manager.apply, lookup_validate_snd, validate_fst, Call.onEntry]
    grind
  | touch t =>
    rw [Manager.apply, touch, Call.onEntry]
    cases h : m.cache.lookup t <;> grind [AList.lookup_insert, AList.lookup_insert_ne]
  | revoke t =>
    rw [Manager.apply, Call.onEntry]
    grind [AList.lookup_erase, AList.lookup_erase_ne]

theorem stored_apply (m : Manager) (ttl now : Int) (call : Call) (tok : String) :
    stored ttl (m.apply ttl now call).repos.sessions tok =
      call.onRow ttl now (stored ttl m.repos.sessions tok) tok := by
  cases call with
  | create t u => exact stored_upsertSession ttl t u now _ tok
  | revoke t => exact stored_deleteSession ttl m.repos t tok
  | warm => rfl
  | validate t => rfl
  | touch t => rfl

theorem tokens_apply {m : Manager} (hrows : (m.repos.sessions.map SessionRow.token).Nodup)
    (ttl now : Int)
    (call : Call) : ((m.apply ttl now call).repos.sessions.map SessionRow.token).Nodup := by
  cases call with
  | create t u => exact Store.tokens_insertSession hrows t u now
  | revoke t => exact Store.tokens_deleteSession hrows t
  | warm => exact hrows
  | validate t => exact hrows
  | touch t => exact hrows

theorem Call.onEntry_eq_some {ttl now : Int} {row entry : Option SessionInfo}
    {tok : String} {call : Call}
    {info : SessionInfo} (h : call.onEntry ttl now row entry tok = some info) :
    entry = some info ∨ (call = .warm ∧ row = some info ∧ now < info.expiresAtMs) ∨
      (∃ u, call = .create tok u ∧ info = ⟨u, now + ttl * 1000⟩) ∨
      (call = .touch tok ∧ ∃ old, entry = some old ∧
        info = { old with expiresAtMs := now + ttl * 1000 }) := by
  cases call with
  | warm =>
    rw [onEntry, Option.or_eq_some_iff, Option.filter_eq_some_iff] at h
    grind
  | create t u => grind [onEntry]
  | validate t =>
    rw [onEntry] at h
    split at h
    · exact .inl (Option.filter_eq_some_iff.mp h).1
    · exact .inl h
  | touch t =>
    rw [onEntry] at h
    split at h
    · rename_i ht
      obtain ⟨old, hold, rfl⟩ := Option.map_eq_some_iff.mp h
      exact .inr (.inr (.inr ⟨by rw [ht], old, hold, rfl⟩))
    · exact .inl h
  | revoke t => grind [onEntry]

theorem Call.onRow_eq_some {ttl now : Int} {row : Option SessionInfo} {tok : String} {call : Call}
    {info : SessionInfo} (h : call.onRow ttl now row tok = some info) :
    row = some info ∨ ∃ u, call = .create tok u ∧ info = ⟨u, now + ttl * 1000⟩ := by
  cases call <;> grind [onRow]

namespace Timed

def expiresAtMs (ttl : Int) (s : Timed) (tok : String) : Option Int :=
  ((s.manager.cache.lookup tok).or (stored ttl s.manager.repos.sessions tok)).map
    SessionInfo.expiresAtMs

/-- The session of the token has expired or was revoked. -/
def Dead (ttl : Int) (s : Timed) (tok : String) : Prop :=
  tok ∈ s.revoked ∨ ∃ e, s.expiresAtMs ttl tok = some e ∧ e ≤ s.now

/-- `touch` is called before the entry it finds has expired. -/
def touchesLive (s : Timed) (m : TimedCall) : Bool :=
  match m.call with
  | .touch tok => (s.manager.cache.lookup tok).all fun info => m.time < info.expiresAtMs
  | _ => true

/-- What holds of a token, given its stored session and its entry in the cache: the row
lags behind the entry, and a revoked token has neither. -/
structure Tidy (ttl now : Int) (used revoked : Prop) (row entry : Option SessionInfo) : Prop where
  row_used : row.isSome → used
  entry_used : entry.isSome → used
  past : ∀ j, row = some j → j.expiresAtMs ≤ now + ttl * 1000
  behind : ∀ i j, entry = some i → row = some j → j.expiresAtMs ≤ i.expiresAtMs
  gone : revoked → used ∧ entry = none ∧ row = none

def Ordered (ttl : Int) (s : Timed) : Prop :=
  (s.manager.repos.sessions.map SessionRow.token).Nodup ∧
    ∀ tok, Tidy ttl s.now (tok ∈ s.used) (tok ∈ s.revoked) (stored ttl s.manager.repos.sessions tok)
      (s.manager.cache.lookup tok)

structure Ended (ttl : Int) (s : Timed) (tok : String) : Prop where
  used : tok ∈ s.used
  row : ∀ info, stored ttl s.manager.repos.sessions tok = some info → info.expiresAtMs ≤ s.now
  entry : ∀ info, s.manager.cache.lookup tok = some info → info.expiresAtMs ≤ s.now

theorem used_next (ttl : Int) (s : Timed) (m : TimedCall) {tok : String} (h : tok ∈ s.used) :
    tok ∈ (s.next ttl m).used := by
  cases hm : m.call <;> simp [next, hm, h]

theorem revoked_next {ttl : Int} {s : Timed} {m : TimedCall} {tok : String}
    (h : tok ∈ (s.next ttl m).revoked) : tok ∈ s.revoked ∨ m.call = .revoke tok := by
  cases hm : m.call <;> grind [next]

theorem fresh_of_can {s : Timed} {m : TimedCall} {tok : String} {u : Nat} (h : s.can m)
    (hm : m.call = .create tok u) : tok ∉ s.used := by
  simp only [can, hm, Bool.and_eq_true, decide_eq_true_eq] at h
  exact h.2

theorem used_create {ttl : Int} {s : Timed} {m : TimedCall} {tok : String} {u : Nat}
    (hm : m.call = .create tok u) : tok ∈ (s.next ttl m).used := by
  simp [next, hm]

theorem Ordered.next {ttl : Int} {s : Timed} (h : s.Ordered ttl) {m : TimedCall} (hcan : s.can m) :
    (s.next ttl m).Ordered ttl := by
  refine ⟨by simpa using tokens_apply h.1 ttl m.time m.call, fun tok => ?_⟩
  simp only [manager_next, now_next, lookup_apply h.1, stored_apply]
  have hle := le_of_can hcan
  obtain ⟨hrow, hentry, hpast, hbehind, hgone⟩ := h.2 tok
  refine ⟨fun hsome => ?_, fun hsome => ?_, fun j hj => ?_, fun i j hi hj => ?_, fun hrev => ?_⟩
  · obtain ⟨j, hj⟩ := Option.isSome_iff_exists.mp hsome
    rcases Call.onRow_eq_some hj with hj | ⟨u, hm, -⟩
    · exact used_next ttl s m (hrow (by simp [hj]))
    · exact used_create hm
  · obtain ⟨i, hi⟩ := Option.isSome_iff_exists.mp hsome
    rcases Call.onEntry_eq_some hi with hi | ⟨-, hi, -⟩ | ⟨u, hm, -⟩ | ⟨-, old, hi, -⟩
    · exact used_next ttl s m (hentry (by simp [hi]))
    · exact used_next ttl s m (hrow (by simp [hi]))
    · exact used_create hm
    · exact used_next ttl s m (hentry (by simp [hi]))
  · rcases Call.onRow_eq_some hj with hj | ⟨u, -, rfl⟩
    · have := hpast j hj
      omega
    · exact le_rfl
  · rcases Call.onRow_eq_some hj with hj | ⟨u, hm, rfl⟩
    · rcases Call.onEntry_eq_some hi with hi | ⟨-, hi, -⟩ | ⟨u, hm, -⟩ | ⟨-, old, -, rfl⟩
      · exact hbehind i j hi hj
      · rw [Option.some.inj (hi.symm.trans hj)]
      · exact absurd (hrow (by simp [hj])) (fresh_of_can hcan hm)
      · have := hpast j hj
        show j.expiresAtMs ≤ m.time + ttl * 1000
        omega
    · -- `create` writes the row and the entry alike
      simp only [hm, Call.onEntry, if_true, Option.some.injEq] at hi
      rw [← hi]
  · rcases revoked_next hrev with hrev | hm
    · obtain ⟨hused, hnone, hnone'⟩ := hgone hrev
      refine ⟨used_next ttl s m hused, Option.eq_none_iff_forall_ne_some.mpr fun i hi => ?_,
        Option.eq_none_iff_forall_ne_some.mpr fun j hj => ?_⟩
      · rcases Call.onEntry_eq_some hi with hi | ⟨-, hi, -⟩ | ⟨u, hm, -⟩ | ⟨-, old, hi, -⟩
        · simp [hnone] at hi
        · simp [hnone'] at hi
        · exact fresh_of_can hcan hm hused
        · simp [hnone] at hi
      · rcases Call.onRow_eq_some hj with hj | ⟨u, hm, -⟩
        · simp [hnone'] at hj
        · exact fresh_of_can hcan hm hused
    · simp [hm, Call.onEntry, Call.onRow, Timed.next]

theorem Ended.next {ttl : Int} {s : Timed} (hs : s.Ordered ttl) {tok : String} (h : s.Ended ttl tok)
    {m : TimedCall} (hcan : s.can m) (hok : s.touchesLive m) : (s.next ttl m).Ended ttl tok := by
  have hle := le_of_can hcan
  obtain ⟨hused, hrow, hentry⟩ := h
  refine ⟨used_next ttl s m hused, fun info hinfo => ?_, fun info hinfo => ?_⟩
  all_goals simp only [manager_next, now_next, lookup_apply hs.1, stored_apply] at hinfo ⊢
  · rcases Call.onRow_eq_some hinfo with hinfo | ⟨u, hm, -⟩
    · exact (hrow info hinfo).trans hle
    · exact absurd hused (fresh_of_can hcan hm)
  · rcases Call.onEntry_eq_some hinfo with hinfo | ⟨-, hinfo, -⟩ | ⟨u, hm, -⟩ | ⟨hm, old, hold, -⟩
    · exact (hentry info hinfo).trans hle
    · exact (hrow info hinfo).trans hle
    · exact absurd hused (fresh_of_can hcan hm)
    · have hlive : m.time < old.expiresAtMs := by simpa [touchesLive, hm, hold] using hok
      have := hentry old hold
      omega

theorem ordered_start {ttl t₀ : Int} {repos : Store}
    (hrepos : (repos.sessions.map SessionRow.token).Nodup)
    (hpast : ∀ r ∈ repos.sessions, r.lastActiveMs ≤ t₀) : (start repos t₀).Ordered ttl := by
  refine ⟨hrepos, fun tok => ⟨fun hsome => ?_, by simp [start], fun j hj => ?_, by simp [start],
    by simp [start]⟩⟩
  · by_contra hnew
    have hnone : stored ttl repos.sessions tok = none :=
      stored_eq_none (by simpa [start] using hnew)
    simp [start, hnone] at hsome
  · obtain ⟨r, hr, rfl⟩ := Option.map_eq_some_iff.mp hj
    have := hpast r (List.mem_of_find?_eq_some hr)
    show r.lastActiveMs + ttl * 1000 ≤ t₀ + ttl * 1000
    omega

theorem Ordered.ended {ttl : Int} {s : Timed} (h : s.Ordered ttl) {tok : String}
    (hdead : s.Dead ttl tok) : s.Ended ttl tok := by
  obtain ⟨hrow, hentry, -, hbehind, hgone⟩ := h.2 tok
  rcases hdead with hrev | ⟨e, he, hle⟩
  · obtain ⟨hused, hnone, hnone'⟩ := hgone hrev
    exact ⟨hused, by simp [hnone'], by simp [hnone]⟩
  · rw [expiresAtMs, Option.map_eq_some_iff] at he
    obtain ⟨info, hinfo, rfl⟩ := he
    rcases Option.or_eq_some_iff.mp hinfo with hcached | ⟨hnone, hstored⟩
    · refine ⟨hentry (by simp [hcached]), fun j hj => (hbehind info j hcached hj).trans hle,
        fun i hi => ?_⟩
      rwa [Option.some.inj (hi.symm.trans hcached)]
    · refine ⟨hrow (by simp [hstored]), fun j hj => ?_, by simp [hnone]⟩
      rwa [Option.some.inj (hj.symm.trans hstored)]

def wait (s : Timed) (t : Int) : Timed := { s with now := t }

theorem Ordered.wait {ttl : Int} {s : Timed} (h : s.Ordered ttl) {t : Int} (ht : s.now ≤ t) :
    (s.wait t).Ordered ttl := by
  refine ⟨h.1, fun tok => { h.2 tok with past := fun j hj => ?_ }⟩
  have := (h.2 tok).past j hj
  show j.expiresAtMs ≤ t + ttl * 1000
  omega

end Timed

theorem dead_stays_dead {ttl t₀ : Int} {repos : Store}
    (hrepos : (repos.sessions.map SessionRow.token).Nodup)
    (hpast : ∀ r ∈ repos.sessions, r.lastActiveMs ≤ t₀) {s : Timed}
    (h : (Timed.machine ttl).Reach (fun s m => s.touchesLive m) (.start repos t₀) s) {t : Int}
    (ht : s.now ≤ t) {tok : String} (hdead : (s.wait t).Dead ttl tok) {s' : Timed}
    (h' : (Timed.machine ttl).Reach (fun s m => s.touchesLive m) (s.wait t) s') {now : Int}
    (hnow : s'.now ≤ now) : (validate s'.manager.cache now tok).1 = none := by
  have hs : s.Ordered ttl :=
    h.invariant (Timed.Ordered ttl) (Timed.ordered_start hrepos hpast) fun _ _ hs hcan _ =>
      hs.next hcan
  have hwait := hs.wait ht
  have hended : s'.Ordered ttl ∧ s'.Ended ttl tok :=
    h'.invariant (fun s => s.Ordered ttl ∧ s.Ended ttl tok) ⟨hwait, hwait.ended hdead⟩
      fun _ _ hs hcan hok => ⟨hs.1.next hcan, hs.2.next hs.1 hcan hok⟩
  rw [validate_fst, Option.filter_eq_none_iff]
  intro info hinfo
  have := hended.2.entry info hinfo
  simp only [decide_eq_true_eq, not_lt]
  omega

theorem dead_stays_dead_prolonged :
    let s := (Timed.machine 1).run (.start .empty 0) [⟨0, .create "a" 1⟩, ⟨900, .touch "a"⟩]
    let s' := (Timed.machine 1).run (s.wait 1900) [⟨1900, .validate "a"⟩,
      ⟨1950, .touch "a"⟩, ⟨1960, .warm⟩]
    s.expiresAtMs 1 "a" = some 1900 ∧ (validate s'.manager.cache 1960 "a").1 = none := by
  intro s s'
  have hs : (Timed.machine 1).Runs (fun s m => s.touchesLive m = true) (.start .empty 0)
      [⟨0, .create "a" 1⟩, ⟨900, .touch "a"⟩] := by decide
  have hs' : (Timed.machine 1).Runs (fun s m => s.touchesLive m = true) (s.wait 1900)
      [⟨1900, .validate "a"⟩, ⟨1950, .touch "a"⟩, ⟨1960, .warm⟩] := by decide
  have hempty : (Store.empty.sessions.map SessionRow.token).Nodup := List.nodup_nil
  have hexpires : s.expiresAtMs 1 "a" = some 1900 := by decide
  have hle : s.now ≤ 1900 := by decide
  exact ⟨hexpires, dead_stays_dead hempty (by simp [Store.empty]) (.runs .start hs) hle
    (.inr ⟨1900, hexpires, le_rfl⟩) (.runs .start hs') (by decide)⟩

/-- `touch` revives a session that expired a second ago and was not asked for since. -/
theorem touch_revives :
    ∃ ms ms' : List TimedCall, (Timed.machine 1).Runs (fun _ _ => True) (.start .empty 0) ms ∧
      let s := (Timed.machine 1).run (.start .empty 0) ms
      (Timed.machine 1).Runs (fun _ _ => True) (s.wait 2000) ms' ∧
        (∃ e, (s.wait 2000).expiresAtMs 1 "a" = some e ∧ e ≤ (s.wait 2000).now) ∧
        (validate ((Timed.machine 1).run (s.wait 2000) ms').manager.cache 2000 "a").1 =
          some ⟨1, 3000⟩ :=
  ⟨[⟨0, .create "a" 1⟩], [⟨2000, .touch "a"⟩], by decide, by decide, ⟨1000, by decide, by decide⟩,
    by decide⟩

end ChatServer.SessionManager
