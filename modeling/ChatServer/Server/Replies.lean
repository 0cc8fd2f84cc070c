import ChatServer.Server.Clearance
import ChatServer.Server.Closing
import ChatServer.Server.DueReply

namespace ChatServer

open Lib Lib.Prog

theorem event_of_mem_trace {env : Env} {c : Nat} {payload : List UInt8} {w : World}
    {caller : Caller} {u d : Nat} {cs : List Nat} {j : Json}
    (h : .sendFrame (.loop caller u cs) d j ∈ (handlers.dispatch env c payload).trace
      (memExec env) w) :
    ∃ m : Message, j = m.event := by
  obtain ⟨t, -, m, -, hj⟩ :=
    (body_cleared env (.request c payload) .none trivial).trace (memExec env)
    (fun _ _ => True) (fun _ _ _ _ _ => ⟨_, rfl, trivial⟩) trivial h
  exact ⟨m, hj⟩

section Buffer

def Op.frameTo (c : Nat) : Op → Option Json
  | .sendFrame _ d j => if d = c then some j else none
  | _ => none

def framesTo {α : Type} (env : Env) (c : Nat) (x : ServerM α) (w : World) : List Json :=
  (x.trace (memExec env) w).filterMap (Op.frameTo c)

variable {env : Env} {c : Nat} {w : World}

variable (env) in
theorem conn_op {o : Op} (ho : o.kind ≠ .close) (hopen : (w.conns c).isOpen = true) :
    ((memExec env o w).2.conns c).isOpen = true ∧
      ((memExec env o w).2.conns c).out = (w.conns c).out ++
      (o.frameTo c).toList.filter (fits env) := by
  rw [memExec_conn]
  cases o with
  | sendFrame site d j =>
    by_cases hd : d = c
    · by_cases hfits : fits env j = true
      · simp_all [Op.onConn, Op.frameTo, Conn.sendFrame, Conn.accepts, Conn.isOpen]
      · simp_all [Op.onConn, Op.frameTo, Conn.sendFrame, Conn.accepts]
    · simp [Op.onConn, Op.frameTo, hd, hopen]
  | setUserId d u => simp only [Op.onConn]; split <;> simp_all [Op.frameTo, Conn.isOpen]
  | setSessionToken d t => simp only [Op.onConn]; split <;> simp_all [Op.frameTo, Conn.isOpen]
  | beginClose d => exact absurd rfl ho
  | finishClose d => exact absurd rfl ho
  | _ => simp [Op.onConn, Op.frameTo, hopen]

variable (env) in
theorem out_run {α : Type} {ks : List Kind} {d : Nat} {x : ServerM α} (hx : Uses d ks x)
    (hks : .close ∉ ks) (hopen : (w.conns c).isOpen = true) :
    ((x.run (memExec env) w).2.conns c).out =
      (w.conns c).out ++ (framesTo env c x w).filter (fits env) := by
  induction x generalizing w with
  | ret a => simp [framesTo]
  | throw => simp [framesTo]
  | op o k ih =>
    have ho : o.kind ≠ .close := by
      intro hkind
      exact hks (hkind ▸ hx.1.1)
    obtain ⟨hopen', hout⟩ := conn_op env ho hopen
    rw [run_op, ih _ (hx.2 _) hopen', hout, framesTo, framesTo, trace_op, List.append_assoc]
    cases hf : o.frameTo c with
    | none => simp [hf]
    | some j =>
      simp only [Option.toList_some, List.filterMap_cons, hf, List.filter_cons, List.filter_nil]
      split <;> simp

end Buffer

def isResponse (j : Json) : Bool := getStr j "type" ∈ [types.kAck, types.kError, types.kPong]

section Responses

variable {env : Env} {w : World} {c : Nat} {payload : List UInt8}

theorem isResponse_json (id : Option Int) (a : due.Answer) : isResponse (a.json env id) = true := by
  rw [isResponse, due.Answer.json_type]
  cases a <;> simp [due.Answer.type]

theorem isResponse_event (m : Message) : isResponse m.event = false := by
  rw [isResponse, Message.event, event_type]
  decide

theorem AccountsOk.auth_ne_zero (h : AccountsOk w) (req : Json) : due.auth env w c req ≠ .ok 0 := by
  unfold due.auth
  split
  · rename_i huser
    intro heq
    exact huser (Except.ok.inj heq)
  · split
    · simp
    · cases hv : (SessionManager.validate w.sessions (env.clock w.ticks)
          (getStr req "token")).1 with
      | none => simp
      | some info =>
        intro heq
        exact h.sessions _ info (SessionManager.validate_some.mp hv).1 (Except.ok.inj heq)

theorem dispatch_responses (hw : AccountsOk w) :
    (framesTo env c (handlers.dispatch env c payload) w).filter isResponse =
      [due.reply env w c payload] := by
  have hreplies : replies env (handlers.dispatch env c payload) w = [due.reply env w c payload] :=
    dispatch_replies hw.auth_ne_zero
  rw [framesTo, List.filter_filterMap, ← hreplies, replies]
  apply List.filterMap_congr
  intro o ho
  obtain ⟨-, hc⟩ := (handlers.dispatch_uses env payload).trace (memExec env) w o ho
  cases o with
  | sendFrame site d j =>
    cases site with
    | reply =>
      obtain rfl : d = c := hc
      have hj : j ∈ replies env (handlers.dispatch env d payload) w :=
        List.mem_filterMap.mpr ⟨_, ho, rfl⟩
      rw [hreplies, List.mem_singleton] at hj
      simp [Op.frameTo, Op.reply, hj, due.reply, isResponse_json]
    | loop caller u cs =>
      obtain ⟨m, rfl⟩ := event_of_mem_trace ho
      by_cases hd : d = c <;> simp [Op.frameTo, Op.reply, hd, isResponse_event]
  | _ => rfl

theorem fits_iff (id : Option Int) (a : due.Answer) :
    fits env (a.json env id) = true ↔ a.size env id ≤ env.maxFrame := by
  rw [fits, decide_eq_true_iff, Json.utf8ByteSize_dump, due.Answer.size_json]

/-- The request, served alone, appends one response to the write buffer of its connection. -/
def AnsweredOnce (env : Env) (w : World) (c : Nat) (payload : List UInt8) : Prop :=
  ∃ frames, (((handlers.dispatch env c payload).run (memExec env) w).2.conns c).out =
    (w.conns c).out ++ frames ∧
    (frames.filter isResponse).length = 1

theorem answeredOnce_iff (hw : AccountsOk w) (hopen : (w.conns c).isOpen = true) :
    AnsweredOnce env w c payload ↔
      (due.answer env w c payload).size env (due.echo env payload) ≤ env.maxFrame := by
  have hout := out_run env (handlers.dispatch_uses (c := c) env payload) (by decide) hopen
  have hresponses : ((framesTo env c (handlers.dispatch env c payload) w).filter (fits env)).filter
    isResponse =
      if fits env (due.reply env w c payload) then [due.reply env w c payload] else [] := by
    rw [List.filter_comm, dispatch_responses hw, List.filter_cons, List.filter_nil]
  rw [← fits_iff, ← due.reply]
  constructor
  · rintro ⟨frames, hframes, hone⟩
    rw [hout, List.append_cancel_left_eq] at hframes
    rw [← hframes, hresponses] at hone
    split at hone
    · assumption
    · cases hone
  · intro hfits
    refine ⟨_, hout, ?_⟩
    rw [hresponses, if_pos hfits]
    rfl

end Responses

theorem request_answered_once_iff {env : Env} {g : Sys} {c : Nat}
    (hg : Reachable env (fun _ _ => True) g)
    (hopen : (g.hist.state.conns c).isOpen = true) (payload : List UInt8) :
    AnsweredOnce env g.hist.state c payload ↔
      (due.answer env g.hist.state c payload).size env (due.echo env payload) ≤ env.maxFrame :=
  answeredOnce_iff (accountsOk_reachable hg) hopen

theorem request_answered_once_iff_sharedRun :
    ∃ g, Reachable sharedEnv (fun _ _ => True) g ∧ (g.hist.state.conns 2).isOpen = true ∧
      AnsweredOnce sharedEnv g.hist.state 2 (payloadOf (sendDmReq 1 "memo")) := by
  obtain ⟨tasks, hg⟩ := serveAll_reachable sharedEnv sharedRun
  have hopen : ((serveAll sharedEnv sharedRun).state.conns 2).isOpen = true := by decide +kernel
  have hsize : (due.answer sharedEnv (serveAll sharedEnv sharedRun).state 2
    (payloadOf (sendDmReq 1 "memo"))).size
      sharedEnv (due.echo sharedEnv (payloadOf (sendDmReq 1 "memo"))) ≤ sharedEnv.maxFrame := by
        decide +kernel
  exact ⟨_, hg, hopen, (request_answered_once_iff hg hopen _).mpr hsize⟩

section LongType

def longTypeReq (n : Nat) : Json := .obj [("type", .str (String.ofList (List.replicate n 'a')))]

def longTypeEnv (n : Nat) : Env := sampleEnv [longTypeReq n]

theorem payloadOf_length (req : Json) : (payloadOf req).length = req.size fun _ => "0.0" := by
  rw [payloadOf, Array.length_toList, ← Json.utf8ByteSize_dump]
  rfl

theorem textSize_replicate (s : String) (n : Nat) :
    Json.textSize (s ++ String.ofList (List.replicate n 'a')) = Json.textSize s + n := by
  have ha : Json.escapedSize 'a' = 1 := by decide
  simp [Json.textSize, ha, Nat.add_assoc]

variable (n : Nat)

theorem longTypeReq_size (sf : UInt64 → String) : (longTypeReq n).size sf = 11 + n := by
  have htext := textSize_replicate "" n
  rw [String.empty_append] at htext
  simp only [longTypeReq, Json.size, Json.fieldsSize, htext]
  have hkey : Json.textSize "type" = 6 := by decide
  have hempty : Json.textSize "" = 2 := by decide
  omega

theorem longType_answer (hn : 20 ≤ n) :
    due.answer (longTypeEnv n) .init 1 (payloadOf (longTypeReq n)) =
      .refused errcode.kBadRequest ("unknown type: " ++ String.ofList (List.replicate n 'a')) := by
  have hparse : (longTypeEnv n).parse (payloadOf (longTypeReq n)) = some (longTypeReq n) := by
    simp [longTypeEnv, sampleEnv]
  have htype : getStr (longTypeReq n) "type" = String.ofList (List.replicate n 'a') := by
    simp [longTypeReq, getStr, Json.find]
  have hlength : (String.ofList (List.replicate n 'a')).length = n := by simp
  have hlookup : (due.table (longTypeEnv n)).lookup (String.ofList (List.replicate n 'a')) =
      none := by
    have hkeys : ∀ k ∈ (due.table (longTypeEnv n)).map Prod.fst, k.length < 20 := by
      simp only [due.table, List.map_cons, List.map_nil]
      decide
    rw [List.lookup_eq_none_iff]
    rintro ⟨k, f⟩ hf
    have hshort := hkeys k (List.mem_map_of_mem hf)
    rw [bne_iff_ne]
    rintro rfl
    omega
  unfold due.answer
  rw [hparse]
  dsimp only
  rw [htype, if_neg, hlookup]
  intro hempty
  rw [hempty] at hlength
  simp at hlength
  omega

theorem longType_size (hn : 20 ≤ n) :
    (due.answer (longTypeEnv n) .init 1 (payloadOf (longTypeReq n))).size (longTypeEnv n)
      (due.echo (longTypeEnv n) (payloadOf (longTypeReq n))) = 64 + n := by
  have hecho : due.echo (longTypeEnv n) (payloadOf (longTypeReq n)) = none := by
    simp [due.echo, longTypeEnv, sampleEnv, longTypeReq, requestId, Json.find, List.lookup_cons,
      List.lookup_nil]
  have hfixed : Json.textSize "type" = 6 ∧ Json.textSize "code" = 6 ∧ Json.textSize "message" = 9 ∧
      Json.textSize types.kError = 7 ∧ Json.textSize errcode.kBadRequest = 13 ∧
      Json.textSize "unknown type: " = 16 := by decide
  rw [longType_answer n hn, hecho]
  simp [due.Answer.size, due.Answer.fields, due.Answer.type, due.Answer.data, optField,
    Json.fieldSize, Json.size, textSize_replicate, hfixed]
  omega

end LongType

theorem long_type_unanswered :
    (longTypeEnv 65500).maxFrame = 65536 ∧ (payloadOf (longTypeReq 65500)).length ≤ 65536 ∧
      (Sys.start.hist.state.conns 1).isOpen = true ∧
      ¬AnsweredOnce (longTypeEnv 65500) Sys.start.hist.state 1 (payloadOf (longTypeReq 65500)) := by
  -- With the default limit, an error that echoes a long type is dropped.
  have hmax : (longTypeEnv 65500).maxFrame = 65536 := rfl
  refine ⟨hmax, ?_, rfl, ?_⟩
  · rw [payloadOf_length, longTypeReq_size]
    omega
  · intro h
    have hsize := (answeredOnce_iff accountsOk_init rfl).mp h
    rw [longType_size 65500 (by omega), hmax] at hsize
    omega

def Json.integer : Json → Option Int
  | .int n => if -2 ^ 63 ≤ n ∧ n < 2 ^ 63 then some n else none
  | .uint n => if n < 2 ^ 64 then some n else none
  | _ => none

/-- Every response the request causes carries the id `n`, and no event carries an id. -/
def EchoesId (env : Env) (w : World) (c : Nat) (payload : List UInt8) (n : Int) : Prop :=
  ∀ site d j, .sendFrame site d j ∈ (handlers.dispatch env c payload).trace (memExec env) w →
    (isResponse j = true → (j.find "id").bind Json.integer = some n) ∧
      (getStr j "type" = types.kEventMessage → j.find "id" = none)

section Echo

variable {env : Env} {w : World} {c : Nat} {payload : List UInt8}

theorem event_no_id (m : Message) : m.event.find "id" = none := by
  rw [Message.event, event_find]
  cases m.receiverId <;> cases m.roomId <;> simp [optField]

theorem frame_cases (hw : AccountsOk w) {site : Site} {d : Nat} {j : Json}
    (h : .sendFrame site d j ∈ (handlers.dispatch env c payload).trace (memExec env) w) :
    (∃ m : Message, j = m.event) ∨ j = due.reply env w c payload := by
  cases site with
  | reply =>
    have hj : j ∈ replies env (handlers.dispatch env c payload) w :=
      List.mem_filterMap.mpr ⟨_, h, rfl⟩
    rw [dispatch_replies hw.auth_ne_zero, List.mem_singleton] at hj
    exact .inr hj
  | loop caller u cs => exact .inl (event_of_mem_trace h)

variable (env c payload) in
theorem reply_mem_trace (hw : AccountsOk w) :
    ∃ site d, .sendFrame site d (due.reply env w c payload) ∈
      (handlers.dispatch env c payload).trace (memExec env) w := by
  have hmem : due.reply env w c payload ∈ replies env (handlers.dispatch env c payload) w := by
    rw [dispatch_replies hw.auth_ne_zero]
    exact List.mem_singleton.mpr rfl
  obtain ⟨o, ho, heq⟩ := List.mem_filterMap.mp hmem
  cases o with
  | sendFrame site d j =>
    cases site with
    | reply =>
      cases heq
      exact ⟨_, _, ho⟩
    | loop caller u cs => cases heq
  | _ => cases heq

theorem requestId_integer {req : Json} {n : Int} (h : (req.find "id").bind Json.integer = some n) :
    ∃ n', requestId req = some n' ∧ (Json.int n').integer = some n' ∧ (n' = n ↔ n < 2 ^ 63) := by
  obtain ⟨v, hv, hn⟩ := Option.bind_eq_some_iff.mp h
  rw [requestId, hv]
  cases v with
  | int m =>
    simp only [Json.integer, Option.ite_none_right_eq_some, Option.some.injEq] at hn
    obtain ⟨hrange, rfl⟩ := hn
    exact ⟨m, rfl, if_pos hrange, iff_of_true rfl hrange.2⟩
  | uint m =>
    simp only [Json.integer, Option.ite_none_right_eq_some, Option.some.injEq] at hn
    obtain ⟨hrange, rfl⟩ := hn
    refine ⟨toI64 m, rfl, ?_, ?_⟩
    · rw [Json.integer, if_pos]
      unfold toI64
      split <;> omega
    · unfold toI64
      split <;> omega
  | _ => cases hn

theorem echoesId_iff (hw : AccountsOk w) {req : Json} {n : Int}
    (hreq : env.parse payload = some req)
    (hid : (req.find "id").bind Json.integer = some n) : EchoesId env w c payload n ↔
    n < 2 ^ 63 := by
  obtain ⟨n', hrequest, hinteger, hsame⟩ := requestId_integer hid
  have hfound : ((due.reply env w c payload).find "id").bind Json.integer = some n' := by
    have hecho : due.echo env payload = some n' := by
      rw [due.echo, hreq, Option.bind_some, hrequest]
    rw [due.reply, hecho, due.Answer.json_id]
    exact hinteger
  constructor
  · intro h
    obtain ⟨site, d, hmem⟩ := reply_mem_trace env c payload hw
    have hn := (h site d _ hmem).1 (isResponse_json _ _)
    rw [hfound] at hn
    exact hsame.mp (Option.some.inj hn)
  · intro hn site d j hmem
    rcases frame_cases hw hmem with ⟨m, rfl⟩ | rfl
    · refine ⟨fun hresponse => ?_, fun _ => event_no_id m⟩
      rw [isResponse_event] at hresponse
      cases hresponse
    · refine ⟨fun _ => by rw [hfound, hsame.mpr hn], fun htype => ?_⟩
      have hresponse : isResponse (due.reply env w c payload) = true := isResponse_json _ _
      rw [isResponse, htype] at hresponse
      exact absurd hresponse (by decide)

end Echo

theorem request_id_echoed_iff {env : Env} {g : Sys} {req : Json} {n : Int} {payload : List UInt8}
    (hg : Reachable env (fun _ _ => True) g) (hreq : env.parse payload = some req)
    (hid : (req.find "id").bind Json.integer = some n) (c : Nat) :
    EchoesId env g.hist.state c payload n ↔ n < 2 ^ 63 :=
  echoesId_iff (accountsOk_reachable hg) hreq hid

def pingReq (id : Json) : Json := .obj [("id", id), ("type", .str types.kPing)]

def pingEnv (id : Json) : Env := sampleEnv [pingReq id]

theorem request_id_echoed_iff_ping :
    (pingReq (.int (-7))).find "id" = some (.int (-7)) ∧
      EchoesId (pingEnv (.int (-7))) Sys.start.hist.state 1 (payloadOf (pingReq (.int (-7))))
      (-7) :=
  ⟨rfl, (request_id_echoed_iff .init rfl (by decide) 1).mpr (by decide)⟩

theorem unsigned_id_changed :
    ((pingReq (.uint (2 ^ 64 - 1))).find "id").bind Json.integer = some (2 ^ 64 - 1) ∧
      ¬EchoesId (pingEnv (.uint (2 ^ 64 - 1))) Sys.start.hist.state 1
        (payloadOf (pingReq (.uint (2 ^ 64 - 1)))) (2 ^ 64 - 1) := by
  -- The largest unsigned id comes back as -1.
  have hid : ((pingReq (.uint (2 ^ 64 - 1))).find "id").bind Json.integer = some (2 ^ 64 - 1) := by
    decide
  refine ⟨hid, fun h => ?_⟩
  have hlt := (echoesId_iff accountsOk_init (by simp [pingEnv, sampleEnv]) hid).mp h
  omega

end ChatServer
