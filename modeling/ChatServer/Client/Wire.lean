import ChatServer.Client.Cli
import ChatServer.Net.Reader
import ChatServer.Server.Requests
import ChatServer.Server.System

namespace ChatServer.Client

open Lib protocol net

/-- The loop of `send_frame` over the rest of the frame, with what `send` is going to return:
the bytes the socket has taken, and the result.  A call that does not come back counts as
failed. -/
def sendFrom : Bytes → List Int → Bytes × Bool
  | [], _ => ([], true)
  | _ :: _, [] => ([], false)
  | b :: bs, n :: ns =>
    if n ≤ 0 then ([], false)
    else
      let r := sendFrom ((b :: bs).drop n.toNat) ns
      ((b :: bs).take n.toNat ++ r.1, r.2)

theorem sendFrom_spec (bs : Bytes) (ns : List Int) :
    (sendFrom bs ns).1 <+: bs ∧ ((sendFrom bs ns).2 = true → (sendFrom bs ns).1 = bs) := by
  fun_induction sendFrom bs ns with
  | case1 => exact ⟨List.prefix_rfl, fun _ => rfl⟩
  | case2 => exact ⟨List.nil_prefix, nofun⟩
  | case3 => exact ⟨List.nil_prefix, nofun⟩
  | case4 b bs n ns hpos r ih =>
    obtain ⟨⟨rest, hrest⟩, hall⟩ := ih
    have hsplit := List.take_append_drop n.toNat (b :: bs)
    constructor
    · refine ⟨rest, ?_⟩
      rw [List.append_assoc, hrest, hsplit]
    · intro hsent
      change _ ++ (sendFrom _ ns).1 = _
      rw [hall hsent, hsplit]

def State.requestOf (c : State) (text : List Char) : Option Json :=
  let t := (tokens text 16).map String.ofList
  if c.running = false ∨ t = [] then none
  else
    match command c.seq t with
    | .send req => some req
    | _ => none

theorem command_of_requestOf {c : State} {text : List Char} {req : Json}
    (h : c.requestOf text = some req) :
    c.running = true ∧ command c.seq ((tokens text 16).map String.ofList) = .send req := by
  rw [State.requestOf] at h
  split at h
  · cases h
  · split at h <;> simp_all

section Step

variable (c : State) (text : List Char) (sent : Bool)

theorem requests_step :
    (c.step (.line text sent)).requests = c.requests ++ (c.requestOf text).toList := by
  rw [State.step, State.requestOf]
  split
  · simp
  · split <;> split <;> simp_all

theorem running_step (h : (c.step (.line text sent)).running = true) :
    c.running = true ∧ ((c.requestOf text).isSome → sent = true) := by
  rw [State.step] at h
  rw [State.requestOf]
  split at h
  · simp_all
  · split at h <;> cases sent <;> simp_all

theorem seq_step (h : -2 ^ 63 ≤ c.seq ∧ c.seq < 2 ^ 63) (i : Input) :
    -2 ^ 63 ≤ (c.step i).seq ∧ (c.step i).seq < 2 ^ 63 := by
  have hnext : -2 ^ 63 ≤ (c.seq + 1).bmod (2 ^ 64) ∧ (c.seq + 1).bmod (2 ^ 64) < 2 ^ 63 :=
    ⟨Int.le_bmod (by decide), Int.bmod_lt (by decide)⟩
  cases i with
  | closed => exact h
  | line text sent =>
    rw [State.step]
    split
    · exact h
    · split
      case h_3 => cases sent <;> exact hnext
      all_goals exact hnext

end Step

section Representable

variable {strtod : List UInt8 → UInt64} {showFloat : UInt64 → String} {seq : Int}
  (hseq : -2 ^ 63 ≤ seq ∧ seq < 2 ^ 63)

theorem stoll_bounds {s : String} {v : Int} (h : stoll s = some v) : -2 ^ 63 ≤ v ∧ v < 2 ^ 63 := by
  simp only [stoll, Option.ite_none_left_eq_some, Option.some.injEq] at h
  obtain ⟨-, hbounds, rfl⟩ := h
  omega

theorem stoi_bounds {s : String} {v : Int} (h : stoi s = some v) : -2 ^ 63 ≤ v ∧ v < 2 ^ 63 :=
  stoll_bounds (Option.filter_eq_some_iff.mp h).1

include hseq

theorem representable_request {fields : Fields}
    (h : Json.RepresentableFields strtod showFloat fields) :
    (request seq fields).Representable strtod showFloat :=
  assign_held .nil trivial ⟨hseq, h⟩

theorem representable_sendNumber {type field s : String} {fields : Fields}
    (h : Json.RepresentableFields strtod showFloat fields) {req : Json}
    (hreq : sendNumber seq type field (stoll s) fields = .send req) :
    req.Representable strtod showFloat := by
  cases hn : stoll s with
  | none =>
    rw [hn] at hreq
    cases hreq
  | some n =>
    rw [hn] at hreq
    obtain rfl := Action.send.inj hreq
    exact representable_request hseq ⟨trivial, stoll_bounds hn, h⟩

theorem representable_command {t : List String} {req : Json} (h : command seq t = .send req) :
    req.Representable strtod showFloat := by
  unfold command at h
  split at h
  -- `:help`, `:quit` and the lines that are no command send nothing
  case h_1 | h_2 | h_18 => cases h
  case h_9 =>
    split at h <;> obtain rfl := Action.send.inj h
    next hid => exact representable_request hseq ⟨trivial, stoll_bounds hid, trivial⟩
    next => exact representable_request hseq ⟨trivial, trivial, trivial⟩
  case h_13 | h_15 =>
    split at h
    · cases h
    next hn =>
      refine representable_sendNumber hseq ?_ h
      exact ⟨stoi_bounds hn, trivial⟩
  case h_7 | h_12 =>
    refine representable_sendNumber hseq ?_ h
    exact ⟨trivial, trivial⟩
  case h_10 | h_14 | h_16 | h_17 =>
    refine representable_sendNumber hseq ?_ h
    trivial
  all_goals
    obtain rfl := Action.send.inj h
    exact representable_request hseq (by simp [Json.RepresentableFields, Json.Representable])

end Representable

def payload (showFloat : UInt64 → String) (j : Json) : Bytes := Utf8.bytes (j.dump showFloat)

structure Session where
  state : State
  written : Bytes

inductive Event : Type
  | line : List Char → List Int → Event
  | closed : Event

namespace Session

section Run

variable (showFloat : UInt64 → String)

def step (s : Session) : Event → Session
  | .closed => { s with state := s.state.step .closed }
  | .line text answers =>
    match s.state.requestOf text with
    | none => { s with state := s.state.step (.line text true) }
    | some req =>
      let r := sendFrom (frame (payload showFloat req)) answers
      ⟨s.state.step (.line text r.2), s.written ++ r.1⟩

def run (events : List Event) : Session := events.foldl (step showFloat) ⟨.initial, []⟩

def stream (reqs : List Json) : Bytes := (reqs.map (payload showFloat)).flatMap frame

end Run

variable {strtod : List UInt8 → UInt64} {showFloat : UInt64 → String}

/-- The socket has taken the frames of the requests, but for an end of the last one if
the client has stopped. -/
structure Framed (strtod : List UInt8 → UInt64) (showFloat : UInt64 → String) (s : Session) :
    Prop where
  seq : -2 ^ 63 ≤ s.state.seq ∧ s.state.seq < 2 ^ 63
  held : ∀ req ∈ s.state.requests, req.Representable strtod showFloat
  begins : s.written <+: stream showFloat s.state.requests
  but_last : stream showFloat s.state.requests.dropLast <+: s.written
  whole : s.state.running = true → s.written = stream showFloat s.state.requests

theorem stream_concat (reqs : List Json) (req : Json) :
    stream showFloat (reqs ++ [req]) = stream showFloat reqs ++ frame (payload showFloat req) := by
  simp [stream]

theorem Framed.step {s : Session} (h : s.Framed strtod showFloat) (e : Event) :
    (s.step showFloat e).Framed strtod showFloat := by
  cases e with
  | closed => exact { h with whole := nofun }
  | line text answers =>
    cases hreq : s.state.requestOf text with
    | none =>
      have hrequests : (s.state.step (.line text true)).requests = s.state.requests := by
        rw [requests_step, hreq]
        exact List.append_nil _
      rw [Session.step, hreq]
      refine ⟨seq_step _ h.seq _, ?_, ?_, ?_, fun hrun => ?_⟩
      · rw [hrequests]
        exact h.held
      · rw [hrequests]
        exact h.begins
      · rw [hrequests]
        exact h.but_last
      · rw [hrequests]
        exact h.whole (running_step _ text true hrun).1
    | some req =>
      obtain ⟨hrun, hcommand⟩ := command_of_requestOf hreq
      have hrequests (sent : Bool) : (s.state.step (.line text sent)).requests = s.state.requests ++
          [req] := by
        rw [requests_step, hreq, Option.toList_some]
      obtain ⟨⟨rest, hrest⟩, hall⟩ := sendFrom_spec (frame (payload showFloat req)) answers
      have hwhole := h.whole hrun
      simp only [Session.step, hreq]
      refine ⟨seq_step _ h.seq _, ?_, ?_, ?_, fun hrun' => ?_⟩
      · rw [hrequests]
        exact List.forall_mem_append.mpr ⟨h.held,
          by simpa using representable_command h.seq hcommand⟩
      · rw [hrequests, stream_concat, hwhole]
        exact ⟨rest, by rw [List.append_assoc, hrest]⟩
      · rw [hrequests, List.dropLast_concat, hwhole]
        exact List.prefix_append ..
      · have hsent := (running_step _ text _ hrun').2 (by rw [hreq]; rfl)
        rw [hrequests, stream_concat, hwhole, hall hsent]

theorem framed_run (events : List Event) : (run showFloat events).Framed strtod showFloat := by
  have hstart : (⟨.initial, []⟩ : Session).Framed strtod showFloat :=
    ⟨by decide, nofun, List.prefix_rfl, List.prefix_rfl, fun _ => rfl⟩
  rw [run]
  generalize (⟨.initial, []⟩ : Session) = s at hstart ⊢
  induction events generalizing s with
  | nil => exact hstart
  | cons e events ih => exact ih _ (hstart.step e)

end Session

section Arrival

variable {strtod : List UInt8 → UInt64} {showFloat : UInt64 → String}

theorem payload_pos {j : Json} (h : j.Representable strtod showFloat) :
    1 ≤ (payload showFloat j).length := by
  rw [Nat.one_le_iff_ne_zero, Ne, List.length_eq_zero_iff]
  intro hnil
  have hparse := (Json.jsonText_dump h).parse_eq
  rw [← payload, hnil] at hparse
  have hnone : parse strtod [] = none := by
    simp [parse, Lexer.skipBom, JsonParser.tokens, Lexer.scan, Lexer.skipWhitespace, Token.ends,
      JsonParser.parseValue]
  rw [hnone] at hparse
  cases hparse

theorem prefix_map {ps : List Bytes} {js : List Json} (h : ps <+: js.map (payload showFloat)) :
    ∃ shown, shown <+: js ∧ ps = shown.map (payload showFloat) := by
  refine ⟨js.take ps.length, List.take_prefix .., ?_⟩
  rw [List.map_take]
  exact List.prefix_iff_eq_take.mp h

theorem prefix_items {limit : UInt32} {ps : List Bytes} (hall : ∀ p ∈ ps, Sendable limit p)
    {bs : Bytes} (h : ps.flatMap frame <+: bs) : ps <+: ((wire limit).parse bs).items := by
  obtain ⟨rest, rfl⟩ := h
  have hmore : (wire limit).cut [] = .more := rfl
  have hparse := parse_frames hall hmore
  rw [List.append_nil] at hparse
  rw [Splitter.parse_append, hparse]
  exact List.prefix_append ..

/-- The server is handed the typed requests in their order, however the stream is cut, and
handles each as it was meant.  At most the last one is missing once all has been read. -/
theorem typed_requests_handled {env : Env} (henv : env.parse = parse strtod) (events : List Event)
    (limit : UInt32) (hfit : ∀ req ∈ (Session.run showFloat events).state.requests,
      (payload showFloat req).length ≤ limit.toNat)
    (results : List Recv)
    (hread : Reader.received results <+: (Session.run showFloat events).written) (calls : Nat) :
    ∃ reqs, reqs <+: (Session.run showFloat events).state.requests ∧
      (Reader.onReadables calls (.fresh limit) results).1.delivered = reqs.map (payload showFloat) ∧
      (Reader.onReadables calls (.fresh limit) results).1.log.any Receipt.badLength = false ∧
      (∀ c, (Reader.onReadables calls (.fresh limit) results).1.delivered.map
        (handlers.dispatch env c) =
        reqs.map (handlers.handleRequest env c)) ∧
      ((Reader.onReadables calls (.fresh limit) results).2 = [] →
        Reader.received results = (Session.run showFloat events).written →
        (Session.run showFloat events).state.requests.dropLast <+: reqs ∧
          ((Session.run showFloat events).state.running = true →
            reqs = (Session.run showFloat events).state.requests)) := by
  have hframed : (Session.run showFloat events).Framed strtod showFloat := Session.framed_run events
  generalize Session.run showFloat events = s at *
  obtain ⟨seen, hsplit, hreads⟩ := Reader.onReadables_spec calls (Reader.parsed_fresh limit) results
  generalize Reader.onReadables calls (.fresh limit) results = r at hsplit hreads ⊢
  have hempty : (wire limit).parse [] = ⟨[], [], false⟩ := Splitter.parse_more rfl
  have hall : ∀ p ∈ s.state.requests.map (payload showFloat), Sendable limit p := by
    intro p hp
    obtain ⟨req, hreq, rfl⟩ := List.mem_map.mp hp
    exact ⟨payload_pos (hframed.held req hreq), hfit req hreq⟩
  have hseen : Reader.received seen <+: s.written := by
    refine List.IsPrefix.trans ?_ hread
    rw [hsplit, Reader.received_append]
    exact List.prefix_append ..
  obtain ⟨whole, tail, hwhole, hbytes, htail⟩ := beginning_frames hall (hseen.trans hframed.begins)
  have hparse := parse_frames (fun p hp => hall p (hwhole.subset hp)) htail
  rw [← hbytes] at hparse
  obtain ⟨reqs, hreqs, rfl⟩ := prefix_map hwhole
  have hlog : r.1.log = Reader.receipts limit [] seen := hreads.log
  have hdelivered : r.1.delivered = reqs.map (payload showFloat) := by
    rw [Reader.delivered, hlog, Reader.receipts_payloads, hempty, List.nil_append, hparse]
  refine ⟨reqs, hreqs, hdelivered, ?_, fun c => ?_, fun hdone hcomplete => ?_⟩
  · rw [hlog, Reader.receipts_bad limit [] (by rw [hempty]), List.nil_append, hparse]
  · rw [hdelivered, List.map_map]
    refine List.map_congr_left fun req hreq => ?_
    have hheld := hframed.held req (hreqs.subset hreq)
    exact handlers.dispatch_spelled env henv hheld (Json.jsonText_dump hheld) c
  · rw [hdone, List.append_nil] at hsplit
    rw [hsplit] at hcomplete
    have hlonger {js : List Json} (hjs : js <+: s.state.requests)
      (h : Session.stream showFloat js <+: s.written) :
        js.length ≤ reqs.length := by
      have hitems := prefix_items (fun p hp => hall p ((hjs.map _).subset hp)) h
      rw [← hcomplete, hparse] at hitems
      simpa using hitems.length_le
    constructor
    · have hdrop := List.dropLast_prefix s.state.requests
      exact List.prefix_of_prefix_length_le hdrop hreqs (hlonger hdrop hframed.but_last)
    · intro hrun
      refine hreqs.eq_of_length_le (hlonger List.prefix_rfl ?_)
      rw [hframed.whole hrun]

def pingEvents : List Event := [.line ":ping".toList [3, 100]]

def parsingEnv : Env := { sampleEnv [] with parse := parse fun _ => 0 }

def pingSegments : List Recv :=
  [.data ⟨[0, 0, 0, 22, 0x7B, 0x22, 0x69, 0x64], by decide, by decide⟩, .eintr,
    .data ⟨[0x22, 0x3A, 0x31, 0x2C, 0x22, 0x74, 0x79, 0x70, 0x65, 0x22, 0x3A, 0x22, 0x70, 0x69,
      0x6E, 0x67, 0x22, 0x7D], by decide, by decide⟩, .eagain]

theorem typed_requests_handled_ping :
    (Reader.onReadables 1 (.fresh 64) pingSegments).1.delivered.map
      (handlers.dispatch parsingEnv 7) =
      [handlers.handleRequest parsingEnv 7 (request 1 [("type", .str "ping")])] := by
  have hrequests : (Session.run (fun _ => "") pingEvents).state.requests =
    [request 1 [("type", .str "ping")]] := rfl
  have hwritten : Reader.received pingSegments =
    (Session.run (fun _ => "") pingEvents).written := by decide +kernel
  have hdone : (Reader.onReadables 1 (.fresh 64) pingSegments).2 = [] :=
    List.isEmpty_iff.mp (by decide +kernel)
  have henv : parsingEnv.parse = parse fun _ => 0 := rfl
  obtain ⟨reqs, -, -, -, hhandled, hcomplete⟩ :=
    typed_requests_handled henv pingEvents 64 (by rw [hrequests]; decide +kernel) pingSegments
      (by rw [hwritten]) 1
  rw [hhandled, (hcomplete hdone hwritten).2 rfl, hrequests]
  rfl

end Arrival

end ChatServer.Client
