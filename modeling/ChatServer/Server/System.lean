import Mathlib.Data.Finset.Lattice.Fold
import Mathlib.Data.Int.ConditionallyCompleteOrder
import Mathlib.Order.Lattice.Nat
import ChatServer.Server.Effects

namespace ChatServer

open Lib

abbrev Sys := Config Input Op.Ret World

abbrev Log := List (Event Input Op World)

abbrev Hist := History Input Op World

def Hist.start : Hist := ⟨.init, []⟩

def Sys.start : Sys := Config.idle .init

/-- Configurations reached by interleaving tasks over the in-memory backend, by
moves that meet `ok`. -/
abbrev Reachable (env : Env) (ok : Sys → Move Input → Prop) (g : Sys) : Prop :=
  Config.Reach (memExec env) (body env) ok Sys.start g

def Sys.handled (g : Sys) (i : Nat) (input : Input) : Bool :=
  match g.tasks i with
  | .busy j x => j = input ∧ x.finished
  | .fresh => false

theorem Sys.busy_of_handled {g : Sys} {i : Nat} {input : Input} (h : g.handled i input = true) :
    ∃ x, g.tasks i = .busy input x ∧ x.finished = true := by
  unfold handled at h
  cases ht : g.tasks i with
  | fresh => simp [ht] at h
  | busy j x =>
    rw [ht] at h
    obtain ⟨rfl, hx⟩ := of_decide_eq_true h
    exact ⟨x, rfl, hx⟩

abbrev serveAll (env : Env) (inputs : List Input) : Hist :=
  History.serveAll (memExec env) (body env) 0 Hist.start inputs

theorem serveAll_append_one (env : Env) (pre : List Input) (input : Input) :
    (serveAll env (pre ++ [input])).state =
      ((body env input).run (memExec env) (serveAll env pre).state).2 := by
  rw [serveAll, History.serveAll_append]
  exact History.serve_state ..

theorem serveAll_log_append_one (env : Env) (pre : List Input) (input : Input) :
    (serveAll env (pre ++ [input])).log = (serveAll env pre).log ++
      History.events (memExec env) (0 + pre.length) input (body env input)
      (serveAll env pre).state := by
  rw [serveAll, History.serveAll_append]
  exact History.run_log ..

theorem mem_log_serveAll {env : Env} {inputs : List Input} {e : Event Input Op World}
    (he : e ∈ (serveAll env inputs).log) : ∃ pre input post, inputs = pre ++ input :: post ∧
      e.op ∈ (body env input).trace (memExec env) (serveAll env pre).state := by
  induction inputs using List.reverseRecOn with
  | nil => cases he
  | append_singleton inputs input ih =>
    rw [serveAll_log_append_one] at he
    rcases List.mem_append.mp he with he | he
    · obtain ⟨pre, input', post, rfl, hop⟩ := ih he
      exact ⟨pre, input', post ++ [input], by simp, hop⟩
    · refine ⟨inputs, input, [], rfl, ?_⟩
      rw [← History.map_op_events (memExec env) (0 + inputs.length) input]
      exact List.mem_map_of_mem he

theorem serveAll_reachable (env : Env) (inputs : List Input) :
    ∃ tasks, Reachable env (fun _ _ => True) ⟨serveAll env inputs, tasks⟩ :=
  Config.Reach.serveAll .init (fun _ _ => rfl) inputs

def Each (env : Env) (P : World → Input → Prop) (inputs : List Input) : Prop :=
  ∀ pre input post, inputs = pre ++ input :: post → P (serveAll env pre).state input

theorem Each.of_append {env : Env} {P : World → Input → Prop} {pre post : List Input}
    (h : Each env P (pre ++ post)) : Each env P pre := by
  intro pre' input post' heq
  exact h pre' input (post' ++ post) (by rw [heq, List.append_assoc, List.cons_append])

theorem serveAll_state (env : Env) (inputs : List Input) :
    (serveAll env inputs).state =
      inputs.foldl (fun w input => ((body env input).run (memExec env) w).2) .init := by
  induction inputs using List.reverseRecOn with
  | nil => rfl
  | append_singleton pre input ih =>
    rw [serveAll_append_one, ih, List.foldl_append]
    rfl

def eachCheck (env : Env) (p : World → Input → Bool) (w : World) : List Input → Bool
  | [] => true
  | input :: inputs => p w input && eachCheck env p ((body env input).run (memExec env) w).2 inputs

theorem each_of_check {env : Env} {P : World → Input → Prop} (p : World → Input → Bool)
    (hp : ∀ w input, p w input = true → P w input) {inputs : List Input}
    (h : eachCheck env p .init inputs = true) : Each env P inputs := by
  intro pre input post heq
  subst heq
  rw [serveAll_state]
  generalize World.init = w at h ⊢
  induction pre generalizing w with
  | nil =>
    rw [List.nil_append, eachCheck, Bool.and_eq_true] at h
    exact hp w input h.1
  | cons j pre ih =>
    rw [List.cons_append, eachCheck, Bool.and_eq_true] at h
    exact ih _ h.2

theorem serveAll_keeps {env : Env} {P : World → Input → Prop} {I : World → Prop}
    (hstep : ∀ w input, I w → P w input → I ((body env input).run (memExec env) w).2)
    (hstart : I .init) (inputs : List Input) (hP : Each env P inputs) :
    I (serveAll env inputs).state := by
  induction inputs using List.reverseRecOn with
  | nil => exact hstart
  | append_singleton pre input ih =>
    rw [serveAll_append_one]
    exact hstep _ input (ih hP.of_append) (hP pre input [] rfl)

def Bound (log : Log) (u c : Nat) : Prop := ∃ e ∈ log, e.op = .bindSlot u c

theorem Bound.mono {log : Log} {u c : Nat} (h : Bound log u c) (e : Event Input Op World) :
    Bound (log ++ [e]) u c := by
  obtain ⟨e', he, ho⟩ := h
  exact ⟨e', List.mem_append_left _ he, ho⟩

def boundUsers (c : Nat) (log : Log) : List Nat :=
  log.filterMap fun e =>
    match e.op with
    | .bindSlot u d => if d = c then some u else none
    | _ => none

theorem mem_boundUsers {c u : Nat} {log : Log} (h : Bound log u c) : u ∈ boundUsers c log := by
  obtain ⟨e, he, hop⟩ := h
  exact List.mem_filterMap.mpr ⟨e, he, by simp [hop]⟩

theorem bound_of_slot_step {env : Env} {h : Hist} {u c : Nat} (i : Nat) (j : Input) (o : Op)
    (hs : ∀ c ∈ h.state.slot u, Bound h.log u c)
    (hc : c ∈ (h.record (memExec env) i j o).2.state.slot u) :
    Bound (h.record (memExec env) i j o).2.log u c := by
  rw [History.record_state, memExec_slot] at hc
  rw [History.record_log]
  cases o with
  | bindSlot u' d =>
    simp only [Op.onSlot] at hc
    split at hc
    · rename_i heq
      subst heq
      obtain rfl | hc := Finset.mem_insert.mp hc
      · exact ⟨_, List.mem_append_right _ (List.mem_singleton.mpr rfl), rfl⟩
      · exact (hs c hc).mono _
    · exact (hs c hc).mono _
  | unbindSlot u' d =>
    simp only [Op.onSlot] at hc
    split at hc
    · exact (hs c (Finset.mem_of_mem_erase hc)).mono _
    · exact (hs c hc).mono _
  | _ => exact (hs c hc).mono _

section Sample

def ascending (s : Finset Nat) : List Nat := (List.range (s.sup id + 1)).filter (· ∈ s)

theorem mem_ascending (s : Finset Nat) (x : Nat) : x ∈ ascending s ↔ x ∈ s := by
  simp only [ascending, List.mem_filter, List.mem_range, decide_eq_true_eq, and_iff_right_iff_imp]
  intro h
  exact Nat.lt_succ_of_le (Finset.le_sup (f := id) h)

def payloadOf (req : Json) : List UInt8 := (req.dump fun _ => "0.0").toUTF8.data.toList

def sampleEnv (reqs : List Json) : Env where
  maxFrame := 65536
  maxMessage := 4096
  pbkdf2Iter := 120000
  sessionTtlSeconds := 604800
  clock n := 1700000000000 + n
  entropy k n := List.replicate n (UInt8.ofNat k)
  entropy_length _ _ := List.length_replicate
  order _ := ascending
  order_nodup _ _ := List.nodup_range.filter _
  mem_order _ := mem_ascending
  parse bytes := reqs.find? (fun req => payloadOf req = bytes)
  showFloat _ := "0.0"
  makePasswordHash pass _ _ := pass
  verifyPasswordHash pass stored := pass = stored

def registerReq (user pass : String) : Json :=
  .obj [("password", .str pass), ("type", .str types.kRegister), ("username", .str user)]

def loginReq (user pass : String) : Json :=
  .obj [("password", .str pass), ("type", .str types.kLogin), ("username", .str user)]

def logoutReq : Json := .obj [("type", .str types.kLogout)]

def sendDmReq (receiver : Nat) (content : String) : Json :=
  .obj [("content", .str content), ("receiver_id", .uint receiver), ("type", .str types.kSendDM)]

def listRoomsReq (tok : String) : Json :=
  .obj [("token", .str tok), ("type", .str types.kListRooms)]

def ask (c : Nat) (req : Json) : Input := .request c (payloadOf req)

def begin (i : Nat) (j : Input) (n : Nat) : List (Move Input) :=
  .start i j :: List.replicate n (.advance i)

def sharedToken : String := util.hexEncode (List.replicate 32 1)

def sharedReqs : List Json :=
  [registerReq "alice" "wonder", loginReq "alice" "wonder", listRoomsReq sharedToken,
    sendDmReq 1 "memo", logoutReq]

def sharedEnv : Env := sampleEnv sharedReqs

def sharedRun : List Input :=
  [ask 1 (registerReq "alice" "wonder"), ask 1 (loginReq "alice" "wonder"),
    ask 2 (listRoomsReq sharedToken), ask 2 (sendDmReq 1 "memo")]

end Sample

end ChatServer
