import ChatServer.Client.Wire
import ChatServer.Net.Writer

namespace ChatServer

open Lib Lexer

namespace Json

def blanks (n : Nat) : String := String.ofList (List.replicate n ' ')

section Indented

variable (showFloat : UInt64 → String) (step : Nat)

mutual

def dumpIndented (indent : Nat) : Json → String
  | .null => dump showFloat .null
  | .bool b => dump showFloat (.bool b)
  | .int n => dump showFloat (.int n)
  | .uint n => dump showFloat (.uint n)
  | .float b => dump showFloat (.float b)
  | .str s => dump showFloat (.str s)
  | .arr [] => "[]"
  | .arr (j :: js) =>
      "[\n" ++ indentedItems (indent + step) (j :: js) ++ "\n" ++ blanks indent ++ "]"
  | .obj [] => "\x7b\x7d"
  | .obj (f :: fs) =>
      "\x7b\n" ++ indentedFields (indent + step) (f :: fs) ++ "\n" ++ blanks indent ++ "\x7d"

def indentedItems (indent : Nat) : List Json → String
  | [] => ""
  | [j] => blanks indent ++ dumpIndented indent j
  | j :: j' :: js =>
      blanks indent ++ dumpIndented indent j ++ ",\n" ++ indentedItems indent (j' :: js)

def indentedFields (indent : Nat) : List (String × Json) → String
  | [] => ""
  | [(k, j)] => blanks indent ++ quote k ++ ": " ++ dumpIndented indent j
  | (k, j) :: f :: fs =>
    blanks indent ++ quote k ++ ": " ++ dumpIndented indent j ++ ",\n" ++
      indentedFields indent (f :: fs)

end

end Indented

end Json

section Indented

variable {strtod : List UInt8 → UInt64} {showFloat : UInt64 → String} {step : Nat}

mutual

theorem Json.dumpIndented_canon (indent : Nat) :
    ∀ j : Json, j.canon.dumpIndented showFloat step indent = j.dumpIndented showFloat step indent
  | .null | .bool _ | .uint _ | .float _ | .str _ => rfl
  | .int (.ofNat n) => rfl
  | .int (.negSucc n) => rfl
  | .arr [] => rfl
  | .arr (j :: js) => by
    have hitems := Json.indentedItems_canon (indent + step) (j :: js)
    rw [Json.canonItems] at hitems
    rw [Json.canon, Json.canonItems, Json.dumpIndented, hitems, ← Json.dumpIndented]
  | .obj [] => rfl
  | .obj ((k, j) :: fs) => by
    have hfields := Json.indentedFields_canon (indent + step) ((k, j) :: fs)
    rw [Json.canonFields] at hfields
    rw [Json.canon, Json.canonFields, Json.dumpIndented, hfields, ← Json.dumpIndented]

theorem Json.indentedItems_canon (indent : Nat) : ∀ js : List Json,
    Json.indentedItems showFloat step indent (Json.canonItems js) = Json.indentedItems
      showFloat step indent js
  | [] => rfl
  | [j] => by
    rw [Json.canonItems, Json.canonItems, Json.indentedItems, Json.dumpIndented_canon indent j,
      ← Json.indentedItems]
  | j :: j' :: js => by
    have hitems := Json.indentedItems_canon indent (j' :: js)
    rw [Json.canonItems] at hitems
    rw [Json.canonItems, Json.canonItems, Json.indentedItems, Json.dumpIndented_canon indent j,
      hitems]
    rfl

theorem Json.indentedFields_canon (indent : Nat) : ∀ fs : Fields,
    Json.indentedFields showFloat step indent (Json.canonFields fs) = Json.indentedFields
      showFloat step indent fs
  | [] => rfl
  | [(k, j)] => by
    rw [Json.canonFields, Json.canonFields, Json.indentedFields, Json.dumpIndented_canon indent j,
      ← Json.indentedFields]
  | (k, j) :: (k', j') :: fs => by
    have hfields := Json.indentedFields_canon indent ((k', j') :: fs)
    rw [Json.canonFields] at hfields
    rw [Json.canonFields, Json.canonFields, Json.indentedFields, Json.dumpIndented_canon indent j,
      hfields]
    rfl

end

theorem Spelling.space {w text : List UInt8} {ts : List Token} (hw : Whitespace w)
    (h : Spelling strtod text ts) : Spelling strtod (w ++ text) ts := by
  cases h with
  | done hw' => exact .done (List.forall_mem_append.mpr ⟨hw, hw'⟩)
  | nul hw' =>
    rw [← List.append_assoc]
    exact .nul (List.forall_mem_append.mpr ⟨hw, hw'⟩)
  | token hw' hlexeme hrest =>
    rw [← List.append_assoc]
    exact .token (List.forall_mem_append.mpr ⟨hw, hw'⟩) hlexeme hrest

theorem Prints.space_left {w text : List UInt8} {ts : List Token} (hw : Whitespace w)
    (h : Prints strtod text ts) : Prints strtod (w ++ text) ts := by
  intro rest us hrest
  rw [List.append_assoc]
  exact (h rest us hrest).space hw

theorem Prints.space_right {w text : List UInt8} {ts : List Token} (h : Prints strtod text ts)
    (hw : Whitespace w) : Prints strtod (text ++ w) ts := by
  intro rest us hrest
  rw [List.append_assoc]
  exact h _ us (hrest.space hw)

theorem whitespace_blanks (n : Nat) : Whitespace (Utf8.bytes (Json.blanks n)) := by
  rw [Json.blanks, Utf8.bytes_ofList]
  intro c hc
  obtain ⟨ch, hch, hc⟩ := List.mem_flatMap.mp hc
  obtain rfl := List.eq_of_mem_replicate hch
  obtain rfl := List.mem_singleton.mp hc
  rfl

theorem prints_level (opening closing : String) {t t' : Token} {text : List UInt8}
    {ts : List Token} (indent : Nat)
    (hopen : Lexeme strtod (Utf8.bytes opening) t) (h : Prints strtod text ts)
    (hclose : Lexeme strtod (Utf8.bytes closing) t') :
    Prints strtod (Utf8.bytes opening ++ Utf8.bytes "\n" ++ text ++ Utf8.bytes "\n" ++
      Utf8.bytes (Json.blanks indent) ++
      Utf8.bytes closing) (t :: (ts ++ [t'])) := by
  have hline : Whitespace (Utf8.bytes "\n") := List.all_eq_true.mp rfl
  have hopened := (Prints.lexeme hopen).space_right hline
  exact (((hopened.append h).space_right hline).space_right (whitespace_blanks indent)).append
    (.lexeme hclose)

theorem prints_member {text : List UInt8} {ts : List Token} (indent : Nat) (k : String)
    (h : Prints strtod text ts) :
    Prints strtod (Utf8.bytes (Json.blanks indent) ++ Utf8.bytes (Json.quote k) ++
      Utf8.bytes ": " ++ text)
      (.valueString (Utf8.bytes k) :: .nameSeparator :: ts) := by
  have hcolon : Prints strtod (Utf8.bytes ": ") [.nameSeparator] :=
    (Prints.lexeme .nameSeparator).space_right (w := [0x20]) (List.all_eq_true.mp rfl)
  exact ((((prints_quote k).space_left (whitespace_blanks indent)).append hcolon).append h)

theorem prints_comma : Prints strtod (Utf8.bytes ",\n") [.valueSeparator] :=
  (Prints.lexeme .valueSeparator).space_right (w := [0x0A]) (List.all_eq_true.mp rfl)

mutual

theorem Json.indented (indent : Nat) : ∀ j : Json, j.Representable strtod showFloat →
    ∃ ts, Prints strtod (Utf8.bytes (j.dumpIndented showFloat step indent)) ts ∧
    Reads (.value j.canon) ts
  | .null, h | .bool _, h | .int _, h | .uint _, h | .float _, h | .str _, h => Json.dumped _ h
  | .arr [], h => Json.dumped (.arr []) h
  | .arr (j :: js), h => by
    obtain ⟨ts, hprints, hreads⟩ :=
      Json.indented_items (indent + step) (j :: js) (List.cons_ne_nil j js) h
    refine ⟨.beginArray :: (ts ++ [.endArray]), ?_, ?_⟩
    · simp only [Json.dumpIndented, Utf8.bytes_append]
      exact prints_level "[" "]" indent .beginArray hprints .endArray
    · rw [Json.canon]
      exact .array hreads
  | .obj [], h => Json.dumped (.obj []) h
  | .obj ((k, j) :: fs), h => by
    obtain ⟨ts, hprints, hreads⟩ :=
      Json.indented_fields (indent + step) ((k, j) :: fs) (List.cons_ne_nil _ _) h.2
    refine ⟨.beginObject :: (ts ++ [.endObject]), ?_, ?_⟩
    · simp only [Json.dumpIndented, Utf8.bytes_append]
      exact prints_level "\x7b" "\x7d" indent .beginObject hprints .endObject
    · rw [Json.canon, ← assign_sorted (sorted_canonFields h.1)]
      exact .object hreads

theorem Json.indented_items (indent : Nat) :
    ∀ js : List Json, js ≠ [] → Json.RepresentableItems strtod showFloat js →
    ∃ ts, Prints strtod (Utf8.bytes (Json.indentedItems showFloat step indent js)) ts ∧
      Reads (.items (Json.canonItems js)) ts
  | [], h, _ => absurd rfl h
  | [j], _, h => by
    obtain ⟨ts, hprints, hreads⟩ := Json.indented indent j h.1
    refine ⟨ts, ?_, .item hreads⟩
    rw [Json.indentedItems, Utf8.bytes_append]
    exact hprints.space_left (whitespace_blanks indent)
  | j :: j' :: js, _, h => by
    obtain ⟨ts, hprints, hreads⟩ := Json.indented indent j h.1
    obtain ⟨us, hprints', hreads'⟩ :=
      Json.indented_items indent (j' :: js) (List.cons_ne_nil j' js) h.2
    refine ⟨ts ++ .valueSeparator :: us, ?_, .items hreads hreads'⟩
    rw [Json.indentedItems, Utf8.bytes_append, Utf8.bytes_append, Utf8.bytes_append,
      List.append_assoc]
    exact (hprints.space_left (whitespace_blanks indent)).append (prints_comma.append hprints')

theorem Json.indented_fields (indent : Nat) :
    ∀ fs : Fields, fs ≠ [] → Json.RepresentableFields strtod showFloat fs →
    ∃ ts, Prints strtod (Utf8.bytes (Json.indentedFields showFloat step indent fs)) ts ∧
      Reads (.members (Json.canonFields fs)) ts
  | [], h, _ => absurd rfl h
  | [(k, j)], _, h => by
    obtain ⟨ts, hprints, hreads⟩ := Json.indented indent j h.1
    refine ⟨.valueString (Utf8.bytes k) :: .nameSeparator :: ts, ?_, .member hreads⟩
    rw [Json.indentedFields, Utf8.bytes_append, Utf8.bytes_append, Utf8.bytes_append]
    exact prints_member indent k hprints
  | (k, j) :: (k', j') :: fs, _, h => by
    obtain ⟨ts, hprints, hreads⟩ := Json.indented indent j h.1
    obtain ⟨us, hprints', hreads'⟩ :=
      Json.indented_fields indent ((k', j') :: fs) (List.cons_ne_nil _ _) h.2
    refine ⟨.valueString (Utf8.bytes k) :: .nameSeparator :: (ts ++ .valueSeparator :: us), ?_,
      .members hreads hreads'⟩
    simp only [Json.indentedFields, Utf8.bytes_append]
    rw [List.append_assoc]
    exact (prints_member indent k hprints).append (prints_comma.append hprints')

end

end Indented

namespace Client

open protocol net

section ReaderLoop

variable (strtod : List UInt8 → UInt64) (showFloat : UInt64 → String)

def maxFrameBytes : UInt32 := 65536

def display (f : Bytes) : String :=
  match parse strtod f with
  | some j => j.dumpIndented showFloat 2 0
  | none => "[non-json frame]"

/-- `reader_loop` on the results of `recv`, nothing for one that is not positive: the
printed texts, and whether it goes on. -/
def readerLoop (d : FrameDecoder) : List (Option Bytes) → List String × Bool
  | [] => ([], true)
  | none :: _ => (["[server closed connection]"], false)
  | some data :: rs =>
    match d.feed data with
    | (.ok frames, d') =>
        (frames.map (display strtod showFloat) ++ (readerLoop d' rs).1, (readerLoop d' rs).2)
    | (.error e, _) => (["[bad frame] " ++ e], false)

variable {strtod showFloat}

theorem readerLoop_ok {d : FrameDecoder} {data : Bytes} {frames : List Bytes}
    {rs : List (Option Bytes)} (h : (d.feed data).1 = .ok frames) :
    readerLoop strtod showFloat d (some data :: rs) =
      (frames.map (display strtod showFloat) ++ (readerLoop strtod showFloat (d.feed data).2 rs).1,
        (readerLoop strtod showFloat (d.feed data).2 rs).2) := by
  rw [readerLoop]
  split <;> simp_all

theorem readerLoop_feedAll {d : FrameDecoder} {chunks : List Bytes} {outs : List (List Bytes)}
    (h : (d.feedAll chunks).1 = outs.map .ok) :
    readerLoop strtod showFloat d (chunks.map some) =
      (outs.flatten.map (display strtod showFloat), true) := by
  induction chunks generalizing d outs with
  | nil =>
    obtain rfl : outs = [] := by simpa [FrameDecoder.feedAll, eq_comm] using h
    rfl
  | cons data chunks ih =>
    cases hfed : (d.feed data).1 with
    | error e =>
      rw [FrameDecoder.feedAll_error hfed] at h
      cases outs with
      | nil => cases h
      | cons out outs => cases h
    | ok frames =>
      rw [FrameDecoder.feedAll_ok hfed] at h
      cases outs with
      | nil => cases h
      | cons out outs =>
        obtain ⟨hout, hrest⟩ := List.cons.inj h
        obtain rfl := Except.ok.inj hout
        rw [List.map_cons, readerLoop_ok hfed, ih hrest, List.flatten_cons, List.map_append]

theorem display_payload {j : Json} (h : j.Representable strtod showFloat) :
    display strtod showFloat (payload showFloat j) = j.dumpIndented showFloat 2 0 := by
  rw [display, payload, (Json.jsonText_dump h).parse_eq]
  exact Json.dumpIndented_canon 0 j

/-- The client prints the values the server has sent, in their order, whatever other
threads send and however the stream is cut.  What it prints can be read again. -/
theorem prints_what_was_sent {limit : UInt32} {l : Link} (h : l.Reachable limit) {js : List Json}
    (hsent : l.accepted = js.map (payload showFloat))
    (hheld : ∀ j ∈ js, j.Representable strtod showFloat)
    (hfit : ∀ p ∈ l.accepted, p.length ≤ maxFrameBytes.toNat) {chunks : List Bytes}
    (hread : chunks.flatten <+: l.sent) : ∃ shown, shown <+: js ∧
      readerLoop strtod showFloat (.fresh maxFrameBytes) (chunks.map some) =
        (shown.map (Json.dumpIndented showFloat 2 0), true) ∧
      (l.wbuf = [] → chunks.flatten = l.sent → shown = js) ∧
      ∀ j ∈ shown, parse strtod (Utf8.bytes (j.dumpIndented showFloat 2 0)) = some j.canon := by
  have hstream := h.framed.stream
  rw [hsent] at hfit hstream
  have hall : ∀ p ∈ js.map (payload showFloat), Sendable maxFrameBytes p := by
    intro p hp
    obtain ⟨j, hj, rfl⟩ := List.mem_map.mp hp
    exact ⟨payload_pos (hheld j hj), hfit _ hp⟩
  have hbeginning : chunks.flatten <+: (js.map (payload showFloat)).flatMap frame := by
    rw [← hstream]
    exact hread.trans (List.prefix_append ..)
  obtain ⟨whole, tail, hwhole, hchunks, htail⟩ := beginning_frames hall hbeginning
  have hparse := parse_frames (fun p hp => hall p (hwhole.subset hp)) htail
  rw [← hchunks] at hparse
  obtain ⟨outs, hok, houts, -⟩ :=
    FrameDecoder.feedAll_spec (FrameDecoder.waits_fresh maxFrameBytes) chunks rfl
    (by rw [List.nil_append, hparse])
  rw [List.nil_append, hparse] at houts
  obtain ⟨shown, hshown, rfl⟩ := prefix_map hwhole
  refine ⟨shown, hshown, ?_, fun hflushed hall' => ?_, fun j hj => ?_⟩
  · rw [readerLoop_feedAll hok, houts, List.map_map]
    refine congrArg (·, true) (List.map_congr_left fun j hj => ?_)
    exact display_payload (hheld j (hshown.subset hj))
  · rw [hflushed, List.append_nil] at hstream
    have hframes : (js.map (payload showFloat)).flatMap frame <+: chunks.flatten := by
      rw [hall', hstream]
    have hitems := prefix_items hall hframes
    rw [hparse] at hitems
    exact hshown.eq_of_length_le (by simpa using hitems.length_le)
  · obtain ⟨ts, hprints, hreads⟩ := Json.indented 0 j (hheld j (hshown.subset hj))
    exact (hprints.jsonText hreads).parse_eq

def okReply : Json := .obj [("ok", .bool true)]

def okBytes : Bytes := [0x7B, 0x22, 0x6F, 0x6B, 0x22, 0x3A, 0x74, 0x72, 0x75, 0x65, 0x7D]

def okLink : Link :=
  let l := ((((Link.start 64).move 0 (.entered okBytes)).move 0 (.unclosing okBytes)).move 0
    (.cleared okBytes)).append
    okBytes
  { (l.move 0 .appended).move 0 .idle with
    sent := frame okBytes
    wbuf := [] }

theorem reachable_okLink : okLink.Reachable 64 := by
  refine .head (.enter (i := 0) rfl okBytes) ?_
  refine .head (.pass (i := 0) rfl rfl) ?_
  refine .head (.clear (i := 0) rfl rfl (by decide)) ?_
  refine .head (.append (i := 0) rfl rfl) ?_
  refine .head (.postFlush (i := 0) rfl) ?_
  refine .head (.swap rfl rfl) ?_
  refine .head (.runFlush rfl rfl) ?_
  refine .head (.send (n := 15) rfl (by decide) (by decide)) ?_
  exact .single (.flushed rfl rfl rfl)

theorem prints_what_was_sent_ok :
    okReply.dumpIndented (fun _ => "") 2 0 = "\x7b\n  \"ok\": true\n\x7d" ∧
      readerLoop (fun _ => 0) (fun _ => "") (.fresh maxFrameBytes)
          ([(frame okBytes).take 6, (frame okBytes).drop 6].map some) =
        (["\x7b\n  \"ok\": true\n\x7d"], true) := by
  have hindented : okReply.dumpIndented (fun _ => "") 2 0 = "\x7b\n  \"ok\": true\n\x7d" := by
    decide +kernel
  have hbytes : okLink.accepted = [okReply].map (payload fun _ => "") := by
    have hpayload : payload (fun _ => "") okReply = okBytes := by decide +kernel
    rw [List.map_singleton, hpayload]
    rfl
  have hheld : ∀ j ∈ [okReply], j.Representable (fun _ => 0) fun _ => "" := by
    simp [okReply, Json.Representable, Json.RepresentableFields, Fields.Sorted]
  have hall : [(frame okBytes).take 6, (frame okBytes).drop 6].flatten = okLink.sent := by decide
  obtain ⟨shown, -, hprints, hcomplete, -⟩ :=
    prints_what_was_sent reachable_okLink hbytes hheld (by decide) (by rw [hall])
  refine ⟨hindented, ?_⟩
  rw [hprints, hcomplete rfl hall, List.map_singleton, hindented]

end ReaderLoop

end Client

end ChatServer
