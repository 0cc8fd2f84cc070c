import ChatServer.Lib.Bytes
import ChatServer.Lib.Incremental

namespace ChatServer

open Lib

abbrev Bytes := List UInt8

namespace protocol

def lengthHeader (len : UInt32) : Bytes :=
  [((len >>> 24) &&& 0xFF).toUInt8, ((len >>> 16) &&& 0xFF).toUInt8, ((len >>> 8) &&& 0xFF).toUInt8,
    (len &&& 0xFF).toUInt8]

def frame (payload : Bytes) : Bytes := lengthHeader payload.length.toUInt32 ++ payload

def readLength : Bytes → Option UInt32
  | b₀ :: b₁ :: b₂ :: b₃ :: _ =>
    some ((b₀.toUInt32 <<< 24) ||| (b₁.toUInt32 <<< 16) ||| (b₂.toUInt32 <<< 8) ||| b₃.toUInt32)
  | _ => none

theorem readLength_eq_none {bs : Bytes} : readLength bs = none ↔ bs.length < 4 := by
  rcases bs with _ | ⟨_, _ | ⟨_, _ | ⟨_, _ | ⟨_, bs⟩⟩⟩⟩ <;> simp [readLength]

theorem readLength_append {bs : Bytes} {len : UInt32} (h : readLength bs = some len) (x : Bytes) :
    readLength (bs ++ x) = some len := by
  rcases bs with _ | ⟨_, _ | ⟨_, _ | ⟨_, _ | ⟨_, bs⟩⟩⟩⟩ <;> simp_all [readLength]

theorem readLength_lengthHeader (len : UInt32) (bs : Bytes) :
    readLength (lengthHeader len ++ bs) = some len := by
  have hlen := len.toNat_lt
  simp only [lengthHeader, List.cons_append, List.nil_append, readLength, Option.some.injEq]
  rw [or_bytes, ← UInt32.toNat_inj, UInt32.toNat_ofNat']
  have h₀ := toNat_byte len (show 24 < 32 by decide)
  have h₁ := toNat_byte len (show 16 < 32 by decide)
  have h₂ := toNat_byte len (show 8 < 32 by decide)
  have h₃ := toNat_byte len (show 0 < 32 by decide)
  simp only [UInt32.reduceOfNat, UInt32.shiftRight_zero] at h₀ h₁ h₂ h₃
  rw [h₀, h₁, h₂, h₃]
  omega

@[simp] theorem length_lengthHeader (len : UInt32) : (lengthHeader len).length = 4 := rfl

def bigEndian (bs : Bytes) : Nat := bs.foldl (fun n b => n * 256 + b.toNat) 0

theorem readLength_eq_some {bs : Bytes} {len : UInt32} :
    readLength bs = some len ↔ 4 ≤ bs.length ∧ len.toNat = bigEndian (bs.take 4) := by
  rcases bs with _ | ⟨b₀, _ | ⟨b₁, _ | ⟨b₂, _ | ⟨b₃, bs⟩⟩⟩⟩
  iterate 4 simp [readLength]
  have h₀ := b₀.toNat_lt
  have h₁ := b₁.toNat_lt
  have h₂ := b₂.toNat_lt
  have h₃ := b₃.toNat_lt
  have hbytes : bigEndian ((b₀ :: b₁ :: b₂ :: b₃ :: bs).take 4) =
      b₀.toNat * 2 ^ 24 + b₁.toNat * 2 ^ 16 + b₂.toNat * 2 ^ 8 + b₃.toNat := by
    simp only [bigEndian, List.take_succ_cons, List.take_zero, List.foldl_cons, List.foldl_nil]
    omega
  rw [hbytes, readLength, or_bytes, Option.some.injEq, ← UInt32.toNat_inj, UInt32.toNat_ofNat',
    Nat.mod_eq_of_lt (by omega)]
  simp only [List.length_cons]
  omega

/-- The frame at the front of a stream: a length between 1 and the limit in four bytes, then
as many bytes. -/
def cutFrame (limit : UInt32) (bs : Bytes) : Cut UInt8 Bytes :=
  let len := bigEndian (bs.take 4)
  if bs.length < 4 then .more
  else if len = 0 ∨ limit.toNat < len then .bad
  else if (bs.drop 4).length < len then .more
  else .item ((bs.drop 4).take len) ((bs.drop 4).drop len)

theorem cutFrame_eq (limit : UInt32) (bs : Bytes) :
    cutFrame limit bs = match readLength bs with
      | none => .more
      | some len =>
        if len = 0 ∨ limit < len then .bad
        else if (bs.drop 4).length < len.toNat then .more
        else .item ((bs.drop 4).take len.toNat) ((bs.drop 4).drop len.toNat) := by
  unfold cutFrame
  cases hlen : readLength bs with
  | none => rw [if_pos (readLength_eq_none.mp hlen)]
  | some len =>
    obtain ⟨hfour, hnat⟩ := readLength_eq_some.mp hlen
    have hzero : len = 0 ↔ len.toNat = 0 := UInt32.toNat_inj.symm
    simp only [← hnat, if_neg (Nat.not_lt.mpr hfour), hzero, UInt32.lt_iff_toNat_lt]

section Cuts

variable {limit len : UInt32} {bs : Bytes}

theorem cutFrame_item {p rest : Bytes} :
    cutFrame limit bs = .item p rest ↔ ∃ len, readLength bs = some len ∧ len ≠ 0 ∧ len ≤ limit ∧
      len.toNat ≤ (bs.drop 4).length ∧ p = (bs.drop 4).take len.toNat ∧
      rest = (bs.drop 4).drop len.toNat := by
  rw [cutFrame_eq]
  cases h : readLength bs with
  | none => simp
  | some len =>
    simp only
    split
    · simp; grind
    · split <;> simp <;> grind

theorem cutFrame_bad :
    cutFrame limit bs = .bad ↔ ∃ len, readLength bs = some len ∧ (len = 0 ∨ limit < len) := by
  rw [cutFrame_eq]
  cases h : readLength bs with
  | none => simp
  | some len =>
    simp only
    split
    · simp; grind
    · split <;> simp <;> grind

end Cuts

def wire (limit : UInt32) : Splitter UInt8 Bytes where
  cut := cutFrame limit
  shrinks := by
    intro bs p rest h
    obtain ⟨len, hlen, hpos, -, -, -, rfl⟩ := cutFrame_item.mp h
    have hfour : ¬bs.length < 4 := by simp [← readLength_eq_none, hlen]
    simp only [List.length_drop]
    omega
  item_append := by
    intro bs p rest x h
    obtain ⟨len, hlen, hpos, hle, hbody, rfl, rfl⟩ := cutFrame_item.mp h
    have hfour : ¬bs.length < 4 := by simp [← readLength_eq_none, hlen]
    have hdrop : (bs ++ x).drop 4 = bs.drop 4 ++ x := List.drop_append_of_le_length (by omega)
    refine cutFrame_item.mpr ⟨len, readLength_append hlen x, hpos, hle, ?_, ?_, ?_⟩
    · rw [hdrop, List.length_append]
      omega
    · rw [hdrop, List.take_append_of_le_length hbody]
    · rw [hdrop, List.drop_append_of_le_length hbody]
  bad_append := by
    intro bs x h
    obtain ⟨len, hlen, hbad⟩ := cutFrame_bad.mp h
    exact cutFrame_bad.mpr ⟨len, readLength_append hlen x, hbad⟩

@[simp] theorem wire_cut (limit : UInt32) (bs : Bytes) :
    (wire limit).cut bs = cutFrame limit bs := rfl

def Sendable (limit : UInt32) (p : Bytes) : Prop := 1 ≤ p.length ∧ p.length ≤ limit.toNat

section Frames

variable {limit : UInt32} {p : Bytes}

theorem Sendable.toNat_length (h : Sendable limit p) : p.length.toUInt32.toNat = p.length := by
  have hlimit := limit.toNat_lt
  have hle := h.2
  simp only [Nat.toUInt32_eq, UInt32.toNat_ofNat']
  omega

theorem Sendable.valid (h : Sendable limit p) :
    p.length.toUInt32 ≠ 0 ∧ p.length.toUInt32 ≤ limit := by
  have hnat := h.toNat_length
  refine ⟨?_, ?_⟩
  · intro hzero
    rw [hzero] at hnat
    have hpos := h.1
    simp at hnat
    omega
  · rw [UInt32.le_iff_toNat_le, hnat]
    exact h.2

theorem cutFrame_frame (h : Sendable limit p) (x : Bytes) :
    (wire limit).cut (frame p ++ x) = .item p x := by
  have hnat := h.toNat_length
  rw [wire_cut]
  refine cutFrame_item.mpr ⟨p.length.toUInt32, ?_, h.valid.1, h.valid.2, ?_⟩
  · rw [frame, List.append_assoc, readLength_lengthHeader]
  · have hdrop : (frame p ++ x).drop 4 = p ++ x := rfl
    rw [hdrop, hnat]
    simp

theorem cutFrame_partial (h : Sendable limit p) {tail : Bytes} (htail : tail <+: frame p)
    (hne : tail ≠ frame p) : (wire limit).cut tail = .more := by
  obtain ⟨y, hy⟩ := htail
  have hpos : y ≠ [] := by
    rintro rfl
    exact hne (by simpa using hy)
  have hlength : tail.length + y.length = 4 + p.length := by
    rw [← List.length_append, hy, frame, List.length_append, length_lengthHeader]
  have hypos := List.length_pos_iff.mpr hpos
  rw [wire_cut, cutFrame_eq]
  cases hlen : readLength tail with
  | none => rfl
  | some len =>
    -- the header is the one of the whole frame, so the body falls short
    obtain rfl : len = p.length.toUInt32 := by
      have hwhole := readLength_append hlen y
      rw [hy, frame, readLength_lengthHeader] at hwhole
      exact (Option.some.inj hwhole).symm
    simp only
    rw [if_neg, if_pos]
    · have hone := h.1
      rw [h.toNat_length, List.length_drop]
      omega
    · rw [not_or, UInt32.not_lt]
      exact h.valid

theorem parse_frames {payloads : List Bytes} (hall : ∀ p ∈ payloads, Sendable limit p)
    {tail : Bytes} (htail : (wire limit).cut tail = .more) :
    (wire limit).parse (payloads.flatMap frame ++ tail) = ⟨payloads, tail, false⟩ := by
  induction payloads with
  | nil => exact Splitter.parse_more htail
  | cons p payloads ih =>
    have hcut := cutFrame_frame (hall p (List.mem_cons_self ..)) (payloads.flatMap frame ++ tail)
    rw [List.flatMap_cons, List.append_assoc, Splitter.parse_item hcut,
      ih fun q hq => hall q (List.mem_cons_of_mem _ hq)]

theorem beginning_frames {payloads : List Bytes} (hall : ∀ p ∈ payloads, Sendable limit p)
    {bs : Bytes} (hbs : bs <+: payloads.flatMap frame) :
    ∃ whole tail, whole <+: payloads ∧ bs = whole.flatMap frame ++ tail ∧
    (wire limit).cut tail = .more := by
  induction payloads generalizing bs with
  | nil =>
    obtain rfl := List.prefix_nil.mp hbs
    exact ⟨[], [], List.prefix_rfl, rfl, rfl⟩
  | cons p payloads ih =>
    rw [List.flatMap_cons] at hbs
    have hp := hall p (List.mem_cons_self ..)
    by_cases hframe : frame p <+: bs
    · obtain ⟨rest, rfl⟩ := hframe
      obtain ⟨whole, tail, hwhole, hrest, htail⟩ :=
        ih (fun q hq => hall q (List.mem_cons_of_mem _ hq))
        ((List.prefix_append_right_inj _).mp hbs)
      refine ⟨p :: whole, tail, List.cons_prefix_cons.mpr ⟨rfl, hwhole⟩, ?_, htail⟩
      rw [List.flatMap_cons, List.append_assoc, hrest]
    · have hpart :=
        (List.prefix_or_prefix_of_prefix hbs (List.prefix_append ..)).resolve_right hframe
      refine ⟨[], bs, List.nil_prefix, rfl, cutFrame_partial hp hpart ?_⟩
      rintro rfl
      exact hframe List.prefix_rfl

end Frames

/-- The unparsed bytes `bs` of a reader that has taken their header off or not: `buf`
holds the bytes behind the header once the length `want` is known. -/
def Unparsed (limit : UInt32) (reading : Bool) (want : UInt32) (buf bs : Bytes) : Prop :=
  if reading then bs = buf
  else ∃ header : Bytes, header.length = 4 ∧ readLength header = some want ∧
    want ≠ 0 ∧ want ≤ limit ∧
    bs = header ++ buf

section Unparsed

variable {limit want len : UInt32} {buf bs : Bytes}

theorem unparsed_drop (hlen : readLength buf = some len) (hpos : len ≠ 0) (hle : len ≤ limit) :
    Unparsed limit false len (buf.drop 4) buf := by
  have hfour : ¬buf.length < 4 := by simp [← readLength_eq_none, hlen]
  refine ⟨buf.take 4, ?_, ?_, hpos, hle, (List.take_append_drop 4 buf).symm⟩
  · rw [List.length_take]
    omega
  · rw [← hlen]
    rcases buf with _ | ⟨_, _ | ⟨_, _ | ⟨_, _ | ⟨_, bs⟩⟩⟩⟩ <;> simp_all [readLength]

theorem Unparsed.cut (h : Unparsed limit false want buf bs) :
    (wire limit).cut bs = if buf.length < want.toNat then .more
      else .item (buf.take want.toNat) (buf.drop want.toNat) := by
  obtain ⟨header, hfour, hlen, hpos, hle, rfl⟩ := h
  have hdrop : (header ++ buf).drop 4 = buf := by rw [← hfour, List.drop_left]
  rw [wire_cut, cutFrame_eq, readLength_append hlen buf, hdrop]
  simp only
  rw [if_neg]
  rw [not_or, UInt32.not_lt]
  exact ⟨hpos, hle⟩

theorem Unparsed.append {reading : Bool} (h : Unparsed limit reading want buf bs) (data : Bytes) :
    Unparsed limit reading want (buf ++ data) (bs ++ data) := by
  cases reading with
  | true => exact congrArg (· ++ data) h
  | false =>
    obtain ⟨header, hfour, hlen, hpos, hle, rfl⟩ := h
    exact ⟨header, hfour, hlen, hpos, hle, List.append_assoc ..⟩

end Unparsed

structure FrameDecoder where
  buf : Bytes
  readingLen : Bool
  want : UInt32
  maxFrameBytes : UInt32

namespace FrameDecoder

def fresh (limit : UInt32) : FrameDecoder := ⟨[], true, 4, limit⟩

def body (d : FrameDecoder) : Pass FrameDecoder Bytes String :=
  if d.buf.length < d.want.toNat then .stop d
  else .emit (d.buf.take d.want.toNat)
    { d with buf := d.buf.drop d.want.toNat, readingLen := true, want := 4 }

def pass (d : FrameDecoder) : Pass FrameDecoder Bytes String :=
  if d.readingLen then
    match readLength d.buf with
    | none => .stop d
    | some len =>
      if len = 0 then .fail "zero-length frame" d
      else if d.maxFrameBytes < len then .fail "frame exceeds max_frame_bytes" d
      else body { d with want := len, buf := d.buf.drop 4, readingLen := false }
  else d.body

theorem pass_cases (d : FrameDecoder) :
    (d.readingLen = false ∧ d.pass = d.body) ∨
      (d.readingLen = true ∧ readLength d.buf = none ∧ d.pass = .stop d) ∨
      (d.readingLen = true ∧ ∃ len e, readLength d.buf = some len ∧
        (len = 0 ∨ d.maxFrameBytes < len) ∧
        d.pass = .fail e d) ∨
      (d.readingLen = true ∧ ∃ len, readLength d.buf = some len ∧ len ≠ 0 ∧ len ≤ d.maxFrameBytes ∧
        d.pass = body { d with want := len, buf := d.buf.drop 4, readingLen := false }) := by
  unfold pass
  cases d.readingLen with
  | false => simp
  | true =>
    cases hlen : readLength d.buf with
    | none => simp
    | some len => grind

def loop : Scanner FrameDecoder Bytes String where
  pass := pass
  -- a payload is taken off, or at least the length before it
  size d := 2 * d.buf.length + if d.readingLen then 0 else 1
  shrinks := by
    intro d p d' h
    rcases d.pass_cases with ⟨hr, hp⟩ | ⟨hr, -, hp⟩ | ⟨hr, _, _, -, -, hp⟩ | ⟨hr, len, hlen, -, -,
      hp⟩ <;> rw [hp] at h
    · unfold body at h
      split at h
      · cases h
      · cases h
        simp only [hr, List.length_drop, Bool.false_eq_true, if_true, if_false]
        omega
    · cases h
    · cases h
    · have hfour : ¬d.buf.length < 4 := by simp [← readLength_eq_none, hlen]
      unfold body at h
      split at h
      · cases h
      · cases h
        simp only [hr, List.length_drop, if_true]
        omega

def Holds (limit : UInt32) (d : FrameDecoder) (bs : Bytes) : Prop :=
  d.maxFrameBytes = limit ∧ Unparsed limit d.readingLen d.want d.buf bs

def Waits (limit : UInt32) (d : FrameDecoder) (bs : Bytes) : Prop :=
  d.Holds limit bs ∧ if d.readingLen then d.buf.length < 4 else d.buf.length < d.want.toNat

def PassReads (limit : UInt32) (bs : Bytes) : Pass FrameDecoder Bytes String → Prop
  | .stop d => (wire limit).cut bs = .more ∧ d.Waits limit bs
  | .fail _ d => (wire limit).cut bs = .bad ∧ d.Holds limit bs
  | .emit p d => ∃ rest, (wire limit).cut bs = .item p rest ∧ d.Holds limit rest

theorem body_reads {limit : UInt32} {d : FrameDecoder} {bs : Bytes} (hread : d.readingLen = false)
    (h : d.Holds limit bs) : PassReads limit bs d.body := by
  have hbs := h.2
  rw [hread] at hbs
  unfold body
  split
  · rename_i hshort
    refine ⟨by rw [hbs.cut, if_pos hshort], h, ?_⟩
    rw [hread]
    exact hshort
  · rename_i hlong
    exact ⟨_, by rw [hbs.cut, if_neg hlong], h.1, rfl⟩

theorem pass_reads {limit : UInt32} {d : FrameDecoder} {bs : Bytes} (h : d.Holds limit bs) :
    PassReads limit bs d.pass := by
  obtain ⟨rfl, hbs⟩ := h
  rcases d.pass_cases with ⟨hr, hp⟩ | ⟨hr, hnone, hp⟩ | ⟨hr, len, e, hlen, hbad, hp⟩ |
    ⟨hr, len, hlen, hpos, hle, hp⟩ <;> rw [hp]
  · exact body_reads hr ⟨rfl, hbs⟩
  all_goals
    rw [hr] at hbs
    obtain rfl : bs = d.buf := hbs
  · refine ⟨?_, ⟨rfl, by rw [hr]; rfl⟩, by rw [hr]; exact readLength_eq_none.mp hnone⟩
    rw [wire_cut, cutFrame_eq, hnone]
  · exact ⟨cutFrame_bad.mpr ⟨len, hlen, hbad⟩, rfl, by rw [hr]; rfl⟩
  · exact body_reads rfl ⟨rfl, unparsed_drop hlen hpos hle⟩

theorem loop_reads (limit : UInt32) :
    loop.Reads (wire limit) (Holds limit) (Waits limit) (Holds limit) where
  stop h hp := by
    have hreads := pass_reads h
    rwa [show pass _ = _ from hp] at hreads
  fail h hp := by
    have hreads := pass_reads h
    rwa [show pass _ = _ from hp] at hreads
  emit h hp := by
    have hreads := pass_reads h
    rwa [show pass _ = _ from hp] at hreads

/-- Append the bytes and take the complete frames off.  An exception drops the frames
that the same call has completed. -/
def feed (d : FrameDecoder) (data : Bytes) : Except String (List Bytes) × FrameDecoder :=
  match loop.scan { d with buf := d.buf ++ data } with
  | (frames, none, d') => (.ok frames, d')
  | (_, some e, d') => (.error e, d')

def feedAll (d : FrameDecoder) : List Bytes → List (Except String (List Bytes)) × FrameDecoder
  | [] => ([], d)
  | data :: chunks =>
    match d.feed data with
    | (.ok frames, d') => (.ok frames :: (feedAll d' chunks).1, (feedAll d' chunks).2)
    | (.error e, d') => ([.error e], d')

section Feed

variable {limit : UInt32} {d : FrameDecoder} {bs : Bytes}

theorem feed_spec (h : d.Holds limit bs) (data : Bytes) :
    if ((wire limit).parse (bs ++ data)).bad then ∃ e, (d.feed data).1 = .error e
    else (d.feed data).1 = .ok ((wire limit).parse (bs ++ data)).items ∧
      (d.feed data).2.Waits limit ((wire limit).parse (bs ++ data)).rest := by
  obtain ⟨hitems, hbad, hrest⟩ :=
    (loop_reads limit).scan (s := { d with buf := d.buf ++ data }) ⟨h.1, h.2.append data⟩
  unfold feed
  generalize loop.scan { d with buf := d.buf ++ data } = r at hitems hbad hrest
  obtain ⟨frames, _ | e, d'⟩ := r
  · rw [← hbad] at hrest ⊢
    exact ⟨by rw [← hitems], hrest⟩
  · rw [← hbad]
    exact ⟨e, rfl⟩

theorem feedAll_ok {data : Bytes} {frames : List Bytes} {chunks : List Bytes}
    (h : (d.feed data).1 = .ok frames) : d.feedAll (data :: chunks) =
      (.ok frames :: ((d.feed data).2.feedAll chunks).1, ((d.feed data).2.feedAll chunks).2) := by
  rw [feedAll]
  split <;> simp_all

theorem feedAll_error {data : Bytes} {e : String} {chunks : List Bytes}
    (h : (d.feed data).1 = .error e) :
    d.feedAll (data :: chunks) = ([.error e], (d.feed data).2) := by
  rw [feedAll]
  split <;> simp_all

theorem waits_fresh (limit : UInt32) : (fresh limit).Waits limit [] :=
  ⟨⟨rfl, rfl⟩, show 0 < 4 by decide⟩

theorem feedAll_spec (h : d.Waits limit bs) (chunks : List Bytes)
    (hcut : (wire limit).cut bs = .more)
    (hgood : ((wire limit).parse (bs ++ chunks.flatten)).bad = false) :
    ∃ outs : List (List Bytes), (d.feedAll chunks).1 = outs.map .ok ∧
      outs.flatten = ((wire limit).parse (bs ++ chunks.flatten)).items ∧
      (d.feedAll chunks).2.Waits limit ((wire limit).parse (bs ++ chunks.flatten)).rest := by
  induction chunks generalizing d bs with
  | nil =>
    simp only [List.flatten_nil, List.append_nil, Splitter.parse_more hcut]
    exact ⟨[], rfl, rfl, h⟩
  | cons data chunks ih =>
    rw [List.flatten_cons, ← List.append_assoc] at hgood ⊢
    have hfirst : ((wire limit).parse (bs ++ data)).bad = false := by
      by_contra hbad
      rw [Splitter.parse_append_of_bad (by simpa using hbad)] at hgood
      cases hgood
    have hfed := feed_spec h.1 data
    rw [if_neg (by simp [hfirst])] at hfed
    obtain ⟨hframes, hwaits⟩ := hfed
    have hrest : (wire limit).cut ((wire limit).parse (bs ++ data)).rest = .more := by
      rw [Splitter.cut_rest, hfirst]
      rfl
    rw [Splitter.parse_append] at hgood ⊢
    obtain ⟨outs, hall, houts, hlast⟩ := ih hwaits hrest hgood
    rw [feedAll_ok hframes]
    exact ⟨_ :: outs, by rw [hall]; rfl, by rw [List.flatten_cons, houts], hlast⟩

end Feed

structure HoldsBeginning (limit : UInt32) (d : FrameDecoder) (p tail : Bytes) : Prop where
  header : tail.length < 4 → d.readingLen = true ∧ d.buf = tail
  body : 4 ≤ tail.length → d.readingLen = false ∧ d.want = p.length.toUInt32 ∧ d.buf = tail.drop 4
  bound : d.buf.length < max 4 limit.toNat

theorem Waits.bound {limit : UInt32} {d : FrameDecoder} {bs : Bytes} (h : d.Waits limit bs) :
    d.buf.length < max 4 limit.toNat := by
  obtain ⟨⟨-, hbs⟩, hwait⟩ := h
  cases hr : d.readingLen with
  | true =>
    rw [hr] at hwait
    exact Nat.lt_of_lt_of_le hwait (Nat.le_max_left ..)
  | false =>
    rw [hr] at hbs hwait
    obtain ⟨-, -, -, -, hle, -⟩ := hbs
    have hshort : d.buf.length < d.want.toNat := hwait
    have hlimit := UInt32.le_iff_toNat_le.mp hle
    omega

theorem Waits.beginning {limit : UInt32} {d : FrameDecoder} {p tail : Bytes}
    (h : d.Waits limit tail) (htail : tail <+: frame p) : d.HoldsBeginning limit p tail := by
  have hbound := h.bound
  obtain ⟨⟨-, hbs⟩, hwait⟩ := h
  cases hr : d.readingLen with
  | true =>
    rw [hr] at hbs hwait
    obtain rfl : tail = d.buf := hbs
    have hshort : d.buf.length < 4 := hwait
    exact ⟨fun _ => ⟨hr, rfl⟩, fun hfour => by omega, hbound⟩
  | false =>
    rw [hr] at hbs hwait
    obtain ⟨header, hfour, hlen, -, -, rfl⟩ := hbs
    obtain ⟨y, hy⟩ := htail
    have hwant := readLength_append (readLength_append hlen d.buf) y
    rw [hy, frame, readLength_lengthHeader, Option.some.injEq] at hwant
    refine ⟨fun h => ?_, fun _ => ⟨hr, hwant.symm, ?_⟩, hbound⟩
    · rw [List.length_append] at h
      omega
    · rw [← hfour, List.drop_left]

end FrameDecoder

theorem frames_round_trip {limit : UInt32} {payloads : List Bytes}
    (hall : ∀ p ∈ payloads, Sendable limit p)
    {p tail : Bytes} (hp : Sendable limit p) (htail : tail <+: frame p) (hne : tail ≠ frame p)
    {chunks : List Bytes} (hcut : chunks.flatten = payloads.flatMap frame ++ tail) :
    ∃ outs : List (List Bytes), ((FrameDecoder.fresh limit).feedAll chunks).1 = outs.map .ok ∧
      outs.flatten = payloads ∧
      ((FrameDecoder.fresh limit).feedAll chunks).2.HoldsBeginning limit p tail := by
  have hmore := cutFrame_partial hp htail hne
  have hparse := parse_frames hall hmore
  rw [← hcut] at hparse
  obtain ⟨outs, hok, houts, hwaits⟩ :=
    FrameDecoder.feedAll_spec (FrameDecoder.waits_fresh limit) chunks rfl
    (by rw [List.nil_append, hparse])
  rw [List.nil_append, hparse] at houts hwaits
  refine ⟨outs, hok, houts, ?_⟩
  exact hwaits.beginning htail

theorem frames_round_trip_short :
    ∃ outs : List (List Bytes), ((FrameDecoder.fresh 8).feedAll
        [[0, 0], [0, 1, 7, 0, 0], [0, 2, 8, 9, 0, 0, 0, 3]]).1 = outs.map .ok ∧
      outs.flatten = [[7], [8, 9]] ∧ FrameDecoder.HoldsBeginning 8 ((FrameDecoder.fresh 8).feedAll
        [[0, 0], [0, 1, 7, 0, 0], [0, 2, 8, 9, 0, 0, 0, 3]]).2 [1, 2, 3] [0, 0, 0, 3] :=
  frames_round_trip (by simp [Sendable]) (by simp [Sendable]) ⟨[1, 2, 3], by decide⟩
    (by decide) (by decide)

end protocol

end ChatServer
