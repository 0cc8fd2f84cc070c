import ChatServer.Net.Framing

namespace ChatServer

open Lib protocol

namespace net

structure Segment where
  bytes : Bytes
  pos : 0 < bytes.length
  fits : bytes.length ≤ 4096

inductive Recv : Type
  | data : Segment → Recv
  | eof : Recv
  | eagain : Recv
  | eintr : Recv
  | error : Nat → Recv

def Recv.bytes : Recv → Bytes
  | .data s => s.bytes
  | _ => []

def Recv.ends : Recv → Bool
  | .eof => true
  | .error _ => true
  | _ => false

/-- A segment with the payloads handed to `on_frame_` on it, and whether it was left at a
length that is not allowed. -/
structure Receipt where
  segment : Segment
  payloads : List Bytes
  badLength : Bool

structure Reader where
  rbuf : Bytes
  readingLength : Bool
  want : UInt32
  maxFrame : UInt32
  closing : Bool
  log : List Receipt

namespace Reader

def fresh (limit : UInt32) : Reader := ⟨[], true, 4, limit, false, []⟩

def scheduleClose (r : Reader) : Reader := { r with closing := true }

def delivered (r : Reader) : List Bytes := r.log.flatMap Receipt.payloads

def body (r : Reader) : Pass Reader Bytes Unit :=
  if r.rbuf.length < r.want.toNat then .stop r
  else .emit (r.rbuf.take r.want.toNat)
    { r with rbuf := r.rbuf.drop r.want.toNat, readingLength := true, want := 4 }

def pass (r : Reader) : Pass Reader Bytes Unit :=
  if r.readingLength then
    match readLength r.rbuf with
    | none => .stop r
    | some len =>
      if len = 0 ∨ r.maxFrame < len then .fail () r.scheduleClose
      else body { r with want := len, rbuf := r.rbuf.drop 4, readingLength := false }
  else r.body

def decoder (r : Reader) : FrameDecoder := ⟨r.rbuf, r.readingLength, r.want, r.maxFrame⟩

def SamePass (r : Reader) (x : Pass FrameDecoder Bytes String) : Pass Reader Bytes Unit → Prop
  | .stop r' => x = .stop r'.decoder ∧ r'.closing = r.closing ∧ r'.log = r.log
  | .fail _ r' => (∃ e, x = .fail e r'.decoder) ∧ r'.closing = true ∧ r'.log = r.log
  | .emit p r' => x = .emit p r'.decoder ∧ r'.closing = r.closing ∧ r'.log = r.log

theorem body_same (r : Reader) : SamePass r r.decoder.body r.body := by
  by_cases hshort : r.rbuf.length < r.want.toNat <;>
    simp [body, FrameDecoder.body, decoder, hshort, SamePass]

theorem pass_same (r : Reader) : SamePass r r.decoder.pass r.pass := by
  cases hr : r.readingLength with
  | false => simpa [pass, FrameDecoder.pass, decoder, hr] using r.body_same
  | true =>
    cases hlen : readLength r.rbuf with
    | none => simp [pass, FrameDecoder.pass, decoder, hr, hlen, SamePass]
    | some len =>
      have htaken := body_same { r with want := len, rbuf := r.rbuf.drop 4, readingLength := false }
      by_cases hzero : len = 0
      · simp [pass, FrameDecoder.pass, decoder, hr, hlen, hzero, SamePass, scheduleClose]
      · by_cases hlarge : r.maxFrame < len
        · simp [pass, FrameDecoder.pass, decoder, hr, hlen, hzero, hlarge, SamePass, scheduleClose]
        · simpa [pass, FrameDecoder.pass, decoder, hr, hlen, hzero, hlarge, SamePass] using htaken

def loop : Scanner Reader Bytes Unit where
  pass := pass
  size r := FrameDecoder.loop.size r.decoder
  shrinks := by
    intro r p r' h
    have hsame := r.pass_same
    rw [h] at hsame
    exact FrameDecoder.loop.shrinks hsame.1

def receive (r : Reader) (s : Segment) : Bool × Reader :=
  match loop.scan { r with rbuf := r.rbuf ++ s.bytes } with
  | (payloads, bad, r') => (bad.isSome, { r' with log := r'.log ++ [⟨s, payloads, bad.isSome⟩] })

/-- One call of `on_readable` on the results `recv` is going to return; those it has not
come to are handed back. -/
def onReadable (r : Reader) : List Recv → Reader × List Recv
  | [] => (r, [])
  | .data s :: rs =>
    match r.receive s with
    | (true, r') => (r', rs)
    | (false, r') => onReadable r' rs
  | .eof :: rs => (r.scheduleClose, rs)
  | .eagain :: rs => (r, rs)
  | .eintr :: rs => onReadable r rs
  | .error _ :: rs => (r.scheduleClose, rs)

def onReadables : Nat → Reader → List Recv → Reader × List Recv
  | 0, r, rs => (r, rs)
  | n + 1, r, rs => onReadables n (r.onReadable rs).1 (r.onReadable rs).2

section Receive

variable {limit : UInt32} {closing : Bool} {log : List Receipt}

def Holds (limit : UInt32) (closing : Bool) (log : List Receipt) (r : Reader) (bs : Bytes) : Prop :=
  r.decoder.Holds limit bs ∧ r.closing = closing ∧ r.log = log

def Waits (limit : UInt32) (closing : Bool) (log : List Receipt) (r : Reader) (bs : Bytes) : Prop :=
  r.decoder.Waits limit bs ∧ r.closing = closing ∧ r.log = log

theorem loop_reads (limit : UInt32) (closing : Bool) (log : List Receipt) :
    loop.Reads (wire limit) (Holds limit closing log) (Waits limit closing log)
    (Holds limit true log) where
  stop := by
    rintro r r' bs ⟨hholds, rfl, rfl⟩ hp
    have hsame := r.pass_same
    have hreads := FrameDecoder.pass_reads hholds
    rw [show r.pass = _ from hp] at hsame
    rw [hsame.1] at hreads
    exact ⟨hreads.1, hreads.2, hsame.2⟩
  fail := by
    rintro r r' e bs ⟨hholds, rfl, rfl⟩ hp
    have hsame := r.pass_same
    have hreads := FrameDecoder.pass_reads hholds
    rw [show r.pass = _ from hp] at hsame
    obtain ⟨⟨e, he⟩, hkept⟩ := hsame
    rw [he] at hreads
    exact ⟨hreads.1, hreads.2, hkept⟩
  emit := by
    rintro r r' p bs ⟨hholds, rfl, rfl⟩ hp
    have hsame := r.pass_same
    have hreads := FrameDecoder.pass_reads hholds
    rw [show r.pass = _ from hp] at hsame
    rw [hsame.1] at hreads
    obtain ⟨rest, hcut, hrest⟩ := hreads
    exact ⟨rest, hcut, hrest, hsame.2⟩

def receipt (limit : UInt32) (before : Bytes) (s : Segment) : Receipt :=
  ⟨s, ((wire limit).parse (((wire limit).parse before).rest ++ s.bytes)).items,
    ((wire limit).parse (before ++ s.bytes)).bad⟩

structure Parsed (limit : UInt32) (before : Bytes) (r : Reader) : Prop where
  holds : r.decoder.Holds limit ((wire limit).parse before).rest
  waits : ((wire limit).parse before).bad = false →
    r.decoder.Waits limit ((wire limit).parse before).rest

theorem parsed_fresh (limit : UInt32) : Parsed limit [] (fresh limit) := by
  have hmore : (wire limit).cut [] = .more := rfl
  have hwaits : (fresh limit).decoder.Waits limit [] := FrameDecoder.waits_fresh limit
  constructor
  · rw [Splitter.parse_more hmore]
    exact hwaits.1
  · rw [Splitter.parse_more hmore]
    exact fun _ => hwaits

theorem receive_spec {r : Reader} {before : Bytes} (h : r.Parsed limit before) (s : Segment) :
    (r.receive s).1 = ((wire limit).parse (before ++ s.bytes)).bad ∧
      (r.receive s).2.log = r.log ++ [receipt limit before s] ∧
      (r.receive s).2.closing = (r.closing || ((wire limit).parse (before ++ s.bytes)).bad) ∧
      (r.receive s).2.Parsed limit (before ++ s.bytes) := by
  have hparse := (wire limit).parse_append before s.bytes
  obtain ⟨hitems, hbad, hrest⟩ := (loop_reads limit r.closing r.log).scan
    (s := { r with rbuf := r.rbuf ++ s.bytes }) ⟨⟨h.holds.1, h.holds.2.append s.bytes⟩, rfl, rfl⟩
  unfold receive receipt
  generalize loop.scan { r with rbuf := r.rbuf ++ s.bytes } = result at hitems hbad hrest
  obtain ⟨payloads, bad, r'⟩ := result
  dsimp only at hitems hbad hrest ⊢
  have hrest' : ((wire limit).parse (before ++ s.bytes)).rest =
      ((wire limit).parse (((wire limit).parse before).rest ++ s.bytes)).rest := by rw [hparse]
  have hbad' : ((wire limit).parse (before ++ s.bytes)).bad = bad.isSome := by rw [hparse, hbad]
  rw [← hbad] at hrest
  rw [hbad', hitems]
  cases bad with
  | none =>
    obtain ⟨hwaits, hclosing, hlog⟩ : Waits limit r.closing r.log r' _ := hrest
    rw [← hrest'] at hwaits
    exact ⟨rfl, by rw [hlog], by simp [hclosing], hwaits.1, fun _ => hwaits⟩
  | some e =>
    obtain ⟨hholds, hclosing, hlog⟩ : Holds limit true r.log r' _ := hrest
    rw [← hrest'] at hholds
    exact ⟨rfl, by rw [hlog], by simp [hclosing], hholds, fun h => by simp [hbad'] at h⟩

end Receive

section Runs

def received (rs : List Recv) : Bytes := rs.flatMap Recv.bytes

def receipts (limit : UInt32) (before : Bytes) : List Recv → List Receipt
  | [] => []
  | .data s :: rs => receipt limit before s :: receipts limit (before ++ s.bytes) rs
  | _ :: rs => receipts limit before rs

structure ReadTo (limit : UInt32) (before : Bytes) (seen : List Recv) (r r' : Reader) : Prop where
  parsed : r'.Parsed limit (before ++ received seen)
  log : r'.log = r.log ++ receipts limit before seen
  closing : r'.closing = (r.closing || (receipts limit before seen).any Receipt.badLength ||
    seen.any Recv.ends)

variable {limit : UInt32} {before : Bytes}

theorem received_append (rs rs' : List Recv) : received (rs ++ rs') = received rs ++ received rs' :=
  List.flatMap_append

theorem receipts_append (before : Bytes) (rs rs' : List Recv) :
    receipts limit before (rs ++ rs') =
      receipts limit before rs ++ receipts limit (before ++ received rs) rs' := by
  induction rs generalizing before with
  | nil => simp [receipts, received]
  | cons x rs ih => cases x <;> simp [receipts, received, Recv.bytes, ih]

theorem ReadTo.refl {r : Reader} (h : r.Parsed limit before) : ReadTo limit before [] r r where
  parsed := by simpa [received] using h
  log := by simp [receipts]
  closing := by simp [receipts]

theorem ReadTo.trans {r r' r'' : Reader} {seen seen' : List Recv}
    (h : ReadTo limit before seen r r') (h' : ReadTo limit (before ++ received seen) seen' r' r'') :
    ReadTo limit before (seen ++ seen') r r'' where
  parsed := by
    rw [received_append, ← List.append_assoc]
    exact h'.parsed
  log := by rw [h'.log, h.log, receipts_append, List.append_assoc]
  closing := by
    rw [h'.closing, h.closing, receipts_append, List.any_append, List.any_append]
    ac_rfl

theorem readTo_data {r : Reader} (h : r.Parsed limit before) (s : Segment) :
    ReadTo limit before [.data s] r (r.receive s).2 := by
  obtain ⟨-, hlog, hclosing, hparsed⟩ := receive_spec h s
  exact ⟨by simpa [received, Recv.bytes] using hparsed, hlog,
    by simpa [receipts, receipt, Recv.ends] using hclosing⟩

theorem readTo_pause {r : Reader} (h : r.Parsed limit before) {x : Recv} (hends : x.ends = false)
    (hdata : ∀ s, x ≠ .data s) : ReadTo limit before [x] r r := by
  cases x with
  | data s => exact absurd rfl (hdata s)
  | eof => cases hends
  | error e => cases hends
  | _ =>
      exact ⟨by simpa [received, Recv.bytes] using h, by simp [receipts],
        by simp [receipts, Recv.ends]⟩

theorem readTo_end {r : Reader} (h : r.Parsed limit before) {x : Recv} (hends : x.ends = true) :
    ReadTo limit before [x] r r.scheduleClose := by
  have hparsed : r.scheduleClose.Parsed limit before := ⟨h.holds, h.waits⟩
  cases x with
  | eof => exact ⟨by simpa [received, Recv.bytes] using hparsed, by simp [receipts, scheduleClose],
      by simp [scheduleClose, Recv.ends]⟩
  | error e =>
      exact ⟨by simpa [received, Recv.bytes] using hparsed, by simp [receipts, scheduleClose],
        by simp [scheduleClose, Recv.ends]⟩
  | _ => cases hends

theorem onReadable_spec {r : Reader} (h : r.Parsed limit before) (rs : List Recv) :
    ∃ seen, rs = seen ++ (r.onReadable rs).2 ∧ ReadTo limit before seen r (r.onReadable rs).1 := by
  induction rs generalizing r before with
  | nil => exact ⟨[], rfl, .refl h⟩
  | cons x rs ih =>
    cases x with
    | data s =>
      have hstep := readTo_data h s
      simp only [onReadable]
      generalize r.receive s = result at hstep
      obtain ⟨_ | _, r'⟩ := result
      · obtain ⟨seen, hsplit, hread⟩ := ih hstep.parsed
        exact ⟨.data s :: seen, congrArg (.data s :: ·) hsplit, hstep.trans hread⟩
      · exact ⟨[.data s], rfl, hstep⟩
    | eof => exact ⟨[.eof], rfl, readTo_end h rfl⟩
    | eagain => exact ⟨[.eagain], rfl, readTo_pause h rfl (by simp)⟩
    | eintr =>
      have hstep : ReadTo limit before [.eintr] r r := readTo_pause h rfl (by simp)
      obtain ⟨seen, hsplit, hread⟩ := ih hstep.parsed
      exact ⟨.eintr :: seen, congrArg (.eintr :: ·) hsplit, hstep.trans hread⟩
    | error e => exact ⟨[.error e], rfl, readTo_end h rfl⟩

theorem onReadables_spec (n : Nat) {r : Reader} (h : r.Parsed limit before) (rs : List Recv) :
    ∃ seen, rs = seen ++ (onReadables n r rs).2 ∧
    ReadTo limit before seen r (onReadables n r rs).1 := by
  induction n generalizing r rs before with
  | zero => exact ⟨[], rfl, .refl h⟩
  | succ n ih =>
    obtain ⟨seen, hsplit, hread⟩ := onReadable_spec h rs
    obtain ⟨seen', hsplit', hread'⟩ := ih hread.parsed (r.onReadable rs).2
    refine ⟨seen ++ seen', ?_, hread.trans hread'⟩
    rw [onReadables, List.append_assoc, ← hsplit']
    exact hsplit

section Reference

variable (limit) (before)

theorem receipts_payloads (rs : List Recv) :
    (receipts limit before rs).flatMap Receipt.payloads =
      ((wire limit).parse (((wire limit).parse before).rest ++ received rs)).items := by
  induction rs generalizing before with
  | nil => simp [receipts, received, Splitter.parse_rest]
  | cons x rs ih =>
    cases x with
    | data s =>
      have hnext : ((wire limit).parse (before ++ s.bytes)).rest =
          ((wire limit).parse (((wire limit).parse before).rest ++ s.bytes)).rest := by
            rw [Splitter.parse_append]
      have hreceived : received (.data s :: rs) = s.bytes ++ received rs := rfl
      rw [receipts, List.flatMap_cons, ih, hnext, hreceived, ← List.append_assoc,
        Splitter.parse_append _ (_ ++ _)]
      rfl
    | _ => exact ih before

theorem receipts_silent (hbad : ((wire limit).parse before).bad = true) (rs : List Recv) :
    ∀ e ∈ receipts limit before rs, e.payloads = [] := by
  induction rs generalizing before with
  | nil => simp [receipts]
  | cons x rs ih =>
    cases x with
    | data s =>
      have hcut : (wire limit).cut ((wire limit).parse before).rest = .bad := by
        rw [Splitter.cut_rest, if_pos hbad]
      rw [receipts, List.forall_mem_cons]
      constructor
      · rw [receipt, Splitter.parse_bad ((wire limit).bad_append s.bytes hcut)]
      · apply ih
        rw [Splitter.parse_append_of_bad hbad]
    | _ => exact ih before hbad

theorem receipts_bad (hgood : ((wire limit).parse before).bad = false) (rs : List Recv) :
    (receipts limit before rs).any Receipt.badLength =
      ((wire limit).parse (before ++ received rs)).bad := by
  induction rs generalizing before with
  | nil => simp [receipts, received, hgood]
  | cons x rs ih =>
    cases x with
    | data s =>
      have hreceived : received (.data s :: rs) = s.bytes ++ received rs := rfl
      rw [receipts, List.any_cons, hreceived, ← List.append_assoc]
      cases hbad : ((wire limit).parse (before ++ s.bytes)).bad with
      | true => rw [Splitter.parse_append_of_bad hbad, receipt, hbad, Bool.true_or]
      | false => rw [ih _ hbad, receipt, hbad, Bool.false_or]
    | _ => exact ih before hgood

end Reference

end Runs

end Reader

section Agreement

def segments (rs : List Recv) : List Bytes :=
  rs.filterMap fun
    | .data s => some s.bytes
    | _ => none

def obtained : Except String (List Bytes) → List Bytes
  | .ok frames => frames
  | .error _ => []

def throws : Except String (List Bytes) → Bool
  | .ok _ => false
  | .error _ => true

/-- The calls of `feed` on the segments of a log, up to the one that throws, obtain the
payloads that were delivered, and throw where a bad length was met. -/
structure ParsersAgree (log : List Receipt) (calls : List (Except String (List Bytes))) : Prop where
  payloads : calls.flatMap obtained = log.flatMap Receipt.payloads
  throws : calls.map throws = (log.take calls.length).map Receipt.badLength

/-- The segment that brings the first bad length completes no frame. -/
def badAlone (limit : UInt32) (before : Bytes) : List Bytes → Prop
  | [] => True
  | s :: ss =>
    if ((wire limit).parse (before ++ s)).bad
    then ((wire limit).parse (((wire limit).parse before).rest ++ s)).items = []
    else badAlone limit (before ++ s) ss

variable {limit : UInt32}

theorem feedAll_agrees {d : FrameDecoder} {before : Bytes}
    (h : d.Waits limit ((wire limit).parse before).rest) (rs : List Recv) :
    ((d.feedAll (segments rs)).1.flatMap obtained = (Reader.receipts limit before rs).flatMap
      Receipt.payloads ↔
        badAlone limit before (segments rs)) ∧
      (d.feedAll (segments rs)).1.map throws =
        ((Reader.receipts limit before rs).take (d.feedAll (segments rs)).1.length).map
          Receipt.badLength := by
  induction rs generalizing d before with
  | nil => simp [segments, Reader.receipts, FrameDecoder.feedAll, badAlone]
  | cons x rs ih =>
    cases x with
    | data s =>
      have hfed := FrameDecoder.feed_spec h.1 s.bytes
      have hparse := (wire limit).parse_append before s.bytes
      have hsegments : segments (.data s :: rs) = s.bytes :: segments rs := rfl
      rw [hsegments, Reader.receipts, badAlone]
      cases hbad : ((wire limit).parse (((wire limit).parse before).rest ++ s.bytes)).bad with
      | true =>
        have hbad' : ((wire limit).parse (before ++ s.bytes)).bad = true := by rw [hparse, hbad]
        rw [if_pos hbad] at hfed
        obtain ⟨e, he⟩ := hfed
        have hsilent : (Reader.receipts limit (before ++ s.bytes) rs).flatMap Receipt.payloads =
            [] :=
          List.flatMap_eq_nil_iff.mpr (Reader.receipts_silent limit _ hbad' rs)
        rw [FrameDecoder.feedAll_error he, if_pos hbad', List.flatMap_cons, List.flatMap_cons,
          hsilent, List.append_nil]
        exact ⟨eq_comm, by simp [throws, Reader.receipt, hbad']⟩
      | false =>
        have hbad' : ((wire limit).parse (before ++ s.bytes)).bad = false := by rw [hparse, hbad]
        rw [if_neg (by simp [hbad])] at hfed
        obtain ⟨hok, hwaits⟩ := hfed
        rw [show ((wire limit).parse (((wire limit).parse before).rest ++ s.bytes)).rest =
          ((wire limit).parse (before ++ s.bytes)).rest by rw [hparse]] at hwaits
        obtain ⟨hpayloads, hthrows⟩ := ih hwaits
        rw [FrameDecoder.feedAll_ok hok, if_neg (by simp [hbad']), List.flatMap_cons,
          List.flatMap_cons]
        refine ⟨?_, ?_⟩
        · rw [← hpayloads]
          exact List.append_right_inj _
        · simp [throws, Reader.receipt, hbad', hthrows]
    | _ => exact ih h

theorem Reader.ReadTo.agree_iff {seen : List Recv} {r : Reader}
    (h : ReadTo limit [] seen (.fresh limit) r) :
    ParsersAgree r.log ((FrameDecoder.fresh limit).feedAll (segments seen)).1 ↔
      badAlone limit [] (segments seen) := by
  have hwaits : (FrameDecoder.fresh limit).Waits limit ((wire limit).parse []).rest := by
    rw [Splitter.parse_more rfl]
    exact FrameDecoder.waits_fresh limit
  obtain ⟨hpayloads, hthrows⟩ := feedAll_agrees hwaits seen
  rw [h.log, ← hpayloads]
  exact ⟨fun h => h.payloads, fun h => ⟨h, hthrows⟩⟩

end Agreement

theorem parsers_agree_iff (limit : UInt32) (results : List Recv) (calls : Nat) :
    ∃ seen, results = seen ++ (Reader.onReadables calls (.fresh limit) results).2 ∧
      (ParsersAgree (Reader.onReadables calls (.fresh limit) results).1.log
          ((FrameDecoder.fresh limit).feedAll (segments seen)).1 ↔
          badAlone limit [] (segments seen)) := by
  obtain ⟨seen, hsplit, hread⟩ := Reader.onReadables_spec calls (Reader.parsed_fresh limit) results
  exact ⟨seen, hsplit, hread.agree_iff⟩

def goodThenBad : Segment := ⟨[0, 0, 0, 1, 7, 0, 0, 0, 0], by decide, by decide⟩

theorem parsers_disagree_goodThenBad :
    ¬ParsersAgree (Reader.onReadables 1 (.fresh 8) [.data goodThenBad]).1.log
      ((FrameDecoder.fresh 8).feedAll (segments [.data goodThenBad])).1 := by
  -- The server delivers the payload; the decoder throws it away.
  have hread : Reader.ReadTo 8 [] [.data goodThenBad] (.fresh 8)
      (Reader.onReadables 1 (.fresh 8) [.data goodThenBad]).1 := by
    have hstep := Reader.readTo_data (Reader.parsed_fresh 8) goodThenBad
    simp only [Reader.onReadables, Reader.onReadable]
    split <;> simp_all
  have hgood : (wire 8).cut [0, 0, 0, 1, 7, 0, 0, 0, 0] = .item [7] [0, 0, 0, 0] :=
    cutFrame_frame (p := [7]) ⟨by decide, by decide⟩ [0, 0, 0, 0]
  have hbad : (wire 8).cut [0, 0, 0, 0] = .bad := by
    simp [cutFrame, bigEndian]
  rw [hread.agree_iff]
  intro h
  have hempty : (wire 8).parse [] = ⟨[], [], false⟩ := Splitter.parse_more rfl
  simp [segments, badAlone, goodThenBad, hempty, Splitter.parse_item hgood, Splitter.parse_bad hbad]
    at h

end net

end ChatServer
