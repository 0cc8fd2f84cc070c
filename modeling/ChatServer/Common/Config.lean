import ChatServer.Db.Store
import ChatServer.Lib.Trim
import ChatServer.Protocol.Messages

namespace ChatServer

namespace util

def trim (s : List Char) : List Char := Lib.trimBoth isSpace s

def toLower (s : List Char) : List Char := s.map Char.toLower

end util

namespace common

open util

/-- The lines `std::getline` reads; `cur` has been read of the current one.  There is no
empty line at the end of the file. -/
def getlines (cur : List Char) : List Char → List (List Char)
  | [] => if cur = [] then [] else [cur]
  | ch :: rest => if ch = '\n' then cur :: getlines [] rest else getlines (cur ++ [ch]) rest

abbrev Config := Dict (List Char) (List Char)

namespace Config

def loadLine (kv : Config) (line : List Char) : Config :=
  let t := trim line
  if t = [] ∨ t.head? = some '#' then kv
  else
    match t.idxOf? '=' with
    | none => kv
    | some eq => kv.insert (toLower (trim (t.take eq))) (trim (t.drop (eq + 1)))

def loadFile (kv : Config) : Option (List Char) → Bool × Config
  | none => (false, kv)
  | some file => (true, (getlines [] file).foldl loadLine kv)

def get (kv : Config) (key dflt : List Char) : List Char := (kv.lookup (toLower key)).getD dflt

def Blank (s : List Char) : Prop := ∀ ch ∈ s, isSpace ch = true ∧ ch ≠ '\n'

/-- A line `KEY = VALUE`, with any spacing and maybe a comment after the value. -/
structure Entry where
  lead : List Char
  key : List Char
  beforeEq : List Char
  afterEq : List Char
  value : List Char
  tail : List Char
  comment : Option (List Char)
  lead_blank : Blank lead
  beforeEq_blank : Blank beforeEq
  afterEq_blank : Blank afterEq
  tail_blank : Blank tail
  key_trimmed : Lib.Trimmed isSpace key
  value_trimmed : Lib.Trimmed isSpace value
  key_plain : ∀ ch ∈ key, ch ≠ '=' ∧ ch ≠ '#' ∧ ch ≠ '\n'
  value_plain : ∀ ch ∈ value, ch ≠ '#' ∧ ch ≠ '\n'
  comment_plain : ∀ c ∈ comment, '\n' ∉ c

namespace Entry

def commentText (e : Entry) : List Char :=
  match e.comment with
  | none => []
  | some c => '#' :: c

def text (e : Entry) : List Char :=
  e.lead ++ e.key ++ e.beforeEq ++ '=' :: (e.afterEq ++ e.value ++ e.tail ++ e.commentText)

def loaded (e : Entry) : List Char := trim (e.afterEq ++ e.value ++ e.tail ++ e.commentText)

end Entry

inductive Line : Type
  | blank : (s : List Char) → Blank s → Line
  | comment : (lead s : List Char) → Blank lead → '\n' ∉ s → Line
  | entry : Entry → Line

namespace Line

def text : Line → List Char
  | .blank s _ => s
  | .comment lead s _ _ => lead ++ '#' :: s
  | .entry e => e.text

def entry? : Line → Option Entry
  | .entry e => some e
  | _ => none

end Line

def fileText (newline : Bool) : List Line → List Char
  | [] => []
  | [l] => l.text ++ if newline then ['\n'] else []
  | l :: ls => l.text ++ '\n' :: fileText newline ls

def lastEntry (lines : List Line) (k : List Char) : Option Entry :=
  (lines.filterMap Line.entry?).reverse.find? fun e => toLower e.key = toLower k

theorem loadLine_append_eq (kv : Config) {a : List Char} (b : List Char)
    (ha : ∀ ch ∈ a, ch ≠ '=' ∧ ch ≠ '#') :
    kv.loadLine (a ++ '=' :: b) = kv.insert (toLower (trim a)) (trim b) := by
  have hsub : ∀ ch ∈ a.dropWhile isSpace, ch ≠ '=' ∧ ch ≠ '#' :=
    fun ch h => ha ch ((List.dropWhile_suffix isSpace).subset h)
  have htrim : trim (a ++ '=' :: b) = a.dropWhile isSpace ++ '=' :: b.rdropWhile isSpace :=
    Lib.trimBoth_append_cons (by decide) a b
  have hhead : ¬(trim (a ++ '=' :: b) = [] ∨ (trim (a ++ '=' :: b)).head? = some '#') := by
    rw [htrim]
    cases h : a.dropWhile isSpace with
    | nil => simp
    | cons ch rest => simpa using (hsub ch (by simp [h])).2
  have hfind : (trim (a ++ '=' :: b)).idxOf? '=' = some (a.dropWhile isSpace).length := by
    rw [htrim]
    exact Lib.idxOf?_append_cons (fun h => (hsub _ h).1 rfl) _
  have hkey : trim (a.dropWhile isSpace) = trim a := Lib.trimBoth_dropWhile a
  have hvalue : trim (b.rdropWhile isSpace) = trim b := Lib.trimBoth_rdropWhile b
  simp only [loadLine, if_neg hhead, hfind]
  simp only [htrim, List.take_left, List.drop_length_add_append, List.drop_succ_cons,
    List.drop_zero, hkey, hvalue]

theorem Blank.isSpace {s : List Char} (h : Blank s) : ∀ ch ∈ s, isSpace ch = true :=
  fun ch hch => (h ch hch).1

theorem Blank.newline_notMem {s : List Char} (h : Blank s) : '\n' ∉ s := fun hn => (h _ hn).2 rfl

theorem Blank.plain {s : List Char} (h : Blank s) : ∀ ch ∈ s, ch ≠ '=' ∧ ch ≠ '#' := by
  intro ch hch
  have hspace := h.isSpace ch hch
  constructor <;> rintro rfl <;> exact absurd hspace (by decide)

namespace Entry

theorem trim_key (e : Entry) : trim (e.lead ++ e.key ++ e.beforeEq) = e.key :=
  e.key_trimmed.trimBoth_between e.lead_blank.isSpace e.beforeEq_blank.isSpace

theorem loadLine_text (e : Entry) (kv : Config) :
    kv.loadLine e.text = kv.insert (toLower e.key) e.loaded := by
  have hplain : ∀ ch ∈ e.lead ++ e.key ++ e.beforeEq, ch ≠ '=' ∧ ch ≠ '#' := by
    intro ch h
    rw [List.mem_append, List.mem_append] at h
    obtain (h | h) | h := h
    · exact e.lead_blank.plain ch h
    · exact ⟨(e.key_plain ch h).1, (e.key_plain ch h).2.1⟩
    · exact e.beforeEq_blank.plain ch h
  rw [text, loadLine_append_eq kv _ hplain, e.trim_key]
  rfl

theorem loaded_eq_value_iff (e : Entry) : e.loaded = e.value ↔ e.comment = none := by
  cases hc : e.comment with
  | none =>
    have hbetween := e.value_trimmed.trimBoth_between e.afterEq_blank.isSpace e.tail_blank.isSpace
    simpa [loaded, commentText, hc, trim] using hbetween
  | some c =>
    have htrim : e.loaded = (e.afterEq ++ e.value ++ e.tail).dropWhile isSpace ++
        '#' :: c.rdropWhile isSpace := by
      rw [loaded, commentText, hc]
      exact Lib.trimBoth_append_cons (by decide) _ c
    refine ⟨fun h => ?_, nofun⟩
    have hmem : '#' ∈ e.value := by
      rw [← h, htrim]
      exact List.mem_append_right _ List.mem_cons_self
    exact absurd rfl (e.value_plain _ hmem).1

theorem newline_notMem_text (e : Entry) : '\n' ∉ e.text := by
  have hkey : '\n' ∉ e.key := fun h => (e.key_plain _ h).2.2 rfl
  have hvalue : '\n' ∉ e.value := fun h => (e.value_plain _ h).2 rfl
  have hcomment : '\n' ∉ e.commentText := by
    have hplain := e.comment_plain
    unfold commentText
    cases hc : e.comment with
    | none => simp
    | some c => simpa using hplain c hc
  simp [text, hkey, hvalue, hcomment, e.lead_blank.newline_notMem, e.beforeEq_blank.newline_notMem,
    e.afterEq_blank.newline_notMem, e.tail_blank.newline_notMem]

end Entry

namespace Line

theorem newline_notMem_text (l : Line) : '\n' ∉ l.text := by
  cases l with
  | blank s hs => exact hs.newline_notMem
  | comment lead s hlead hs => simp [text, hlead.newline_notMem, hs]
  | entry e => exact e.newline_notMem_text

theorem loadLine_text (l : Line) (kv : Config) :
    kv.loadLine l.text = l.entry?.elim kv fun e => kv.insert (toLower e.key) e.loaded := by
  cases l with
  | blank s hs =>
    have htrim : trim s = [] := Lib.trimBoth_eq_nil.mpr hs.isSpace
    simp [text, entry?, loadLine, htrim]
  | comment lead s hlead hs =>
    have htrim : trim (lead ++ '#' :: s) = '#' :: s.rdropWhile isSpace := by
      have hdrop : lead.dropWhile isSpace = [] := List.dropWhile_eq_nil_iff.mpr hlead.isSpace
      rw [trim, Lib.trimBoth_append_cons (by decide), hdrop, List.nil_append]
    simp [text, entry?, loadLine, htrim]
  | entry e => exact e.loadLine_text kv

end Line

end Config

theorem getlines_append_newline {s : List Char} (hs : '\n' ∉ s) (cur rest : List Char) :
    getlines cur (s ++ '\n' :: rest) = (cur ++ s) :: getlines [] rest := by
  induction s generalizing cur with
  | nil => simp [getlines]
  | cons ch s ih =>
    rw [List.mem_cons, not_or] at hs
    rw [List.cons_append, getlines, if_neg (Ne.symm hs.1), ih hs.2, List.append_assoc,
      List.singleton_append]

theorem getlines_last {s : List Char} (hs : '\n' ∉ s) (cur : List Char) :
    getlines cur s = if cur ++ s = [] then [] else [cur ++ s] := by
  induction s generalizing cur with
  | nil => rw [getlines, List.append_nil]
  | cons ch s ih =>
    rw [List.mem_cons, not_or] at hs
    rw [getlines, if_neg (Ne.symm hs.1), ih hs.2, List.append_assoc, List.singleton_append]

namespace Config

theorem foldl_getlines (newline : Bool) (lines : List Line) (kv : Config) :
    (getlines [] (fileText newline lines)).foldl loadLine kv = (lines.map Line.text).foldl
      loadLine kv := by
  induction lines generalizing kv with
  | nil => rfl
  | cons l lines ih =>
    cases lines with
    | nil =>
      cases newline with
      | true =>
        have hlines : getlines [] (fileText true [l]) = [l.text] :=
          getlines_append_newline l.newline_notMem_text [] []
        rw [hlines]
        rfl
      | false =>
        have hlines : getlines [] (fileText false [l]) = if l.text = [] then [] else [l.text] := by
          rw [fileText, if_neg Bool.false_ne_true, List.append_nil,
            getlines_last l.newline_notMem_text, List.nil_append]
        rw [hlines]
        split
        · rename_i hempty
          rw [List.map_cons, hempty]
          rfl
        · rfl
    | cons l' lines =>
      have htext : fileText newline (l :: l' :: lines) = l.text ++
        '\n' :: fileText newline (l' :: lines) := rfl
      rw [htext, getlines_append_newline l.newline_notMem_text, List.foldl_cons, ih]
      rfl

theorem foldl_texts (lines : List Line) (kv : Config) :
    (lines.map Line.text).foldl loadLine kv =
      (lines.filterMap Line.entry?).foldl (fun kv e => kv.insert (toLower e.key) e.loaded) kv := by
  induction lines generalizing kv with
  | nil => rfl
  | cons l lines ih =>
    rw [List.map_cons, List.foldl_cons, l.loadLine_text, ih]
    cases h : l.entry? with
    | none => rw [List.filterMap_cons_none h, Option.elim_none]
    | some e => rw [List.filterMap_cons_some h, Option.elim_some, List.foldl_cons]

theorem lookup_foldl (es : List Entry) (kv : Config) (k : List Char) :
    (es.foldl (fun kv e => kv.insert (toLower e.key) e.loaded) kv).lookup k =
      match es.reverse.find? fun e => toLower e.key = k with
      | some e => some e.loaded
      | none => kv.lookup k := by
  induction es using List.reverseRecOn with
  | nil => rfl
  | append_singleton es e ih =>
    rw [List.foldl_append, List.foldl_cons, List.foldl_nil, List.reverse_append]
    by_cases hk : toLower e.key = k
    · subst hk
      simp
    · simp [hk, Ne.symm hk, ih]

theorem loadFile_get (lines : List Line) (newline : Bool) (key dflt : List Char) :
    (loadFile ∅ (some (fileText newline lines))).1 = true ∧
    match lastEntry lines key with
    | none => (loadFile ∅ (some (fileText newline lines))).2.get key dflt = dflt
    | some e =>
        (loadFile ∅ (some (fileText newline lines))).2.get key dflt = e.value ↔
          e.comment = none := by
  have hlookup : (loadFile ∅ (some (fileText newline lines))).2.lookup (toLower key) =
      (lastEntry lines key).map Entry.loaded := by
    rw [loadFile, foldl_getlines, foldl_texts, lookup_foldl, lastEntry]
    split <;> simp [*]
  refine ⟨rfl, ?_⟩
  split <;> rename_i hlast <;> rw [get, hlookup, hlast]
  · rfl
  · rename_i e
    exact e.loaded_eq_value_iff

def logLevelLine : Entry where
  lead := []
  key := "log_level".toList
  beforeEq := [' ']
  afterEq := [' ']
  value := "info".toList
  tail := "        ".toList
  comment := some " trace | debug | info | warn | error".toList
  lead_blank := by simp [Blank]
  beforeEq_blank := by simp [Blank, isSpace]
  afterEq_blank := by simp [Blank, isSpace]
  tail_blank := by simp [Blank, isSpace]
  key_trimmed := by simp [Lib.Trimmed, isSpace]
  value_trimmed := by simp [Lib.Trimmed, isSpace]
  key_plain := by simp
  value_plain := by simp
  comment_plain := by simp

theorem loadFile_get_logLevel :
    fileText true [.entry logLevelLine] =
      "log_level = info        # trace | debug | info | warn | error\n".toList ∧
    (loadFile ∅ (some (fileText true [.entry logLevelLine]))).2.get "log_level".toList [] =
      "info        # trace | debug | info | warn | error".toList ∧
    (loadFile ∅ (some (fileText true [.entry logLevelLine]))).2.get "log_level".toList [] ≠
      logLevelLine.value := by
  decide +kernel

end Config

end common

end ChatServer
