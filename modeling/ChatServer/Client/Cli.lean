import ChatServer.Common.Decimal
import ChatServer.Lib.Trim

namespace ChatServer.Client

/-- The loop of `tokens` while `n` more words may be cut, and then the rest of the line as
one token.  A pass that finds no word has reached the end. -/
def tokensFrom : Nat → List Char → List (List Char)
  | 0, s => if s.dropWhile isSpace = [] then [] else [s.dropWhile isSpace]
  | n + 1, s =>
    let word := (s.dropWhile isSpace).takeWhile fun ch => !isSpace ch
    if word = [] then []
    else word :: tokensFrom n ((s.dropWhile isSpace).dropWhile fun ch => !isSpace ch)

def tokens (s : List Char) (max : Nat) : List (List Char) := tokensFrom (max - 1) s

inductive Action : Type
  | help : Action
  | quit : Action
  | send : Json → Action
  | unknown : Action
  | throws : Action

def request (seq : Int) (fields : List (String × Json)) : Json :=
  .obj (Fields.assign [] (("id", .int seq) :: fields))

section Command

variable (seq : Int)

def sendNumber (type field : String) (v : Option Int) (fields : List (String × Json)) : Action :=
  match v with
  | none => .throws
  | some n => .send (request seq ([("type", .str type), (field, .int n)] ++ fields))

def command : List String → Action
  | ":help" :: _ => .help
  | ":quit" :: _ => .quit
  | ":ping" :: _ => .send (request seq [("type", .str "ping")])
  | ":register" :: user :: pass :: _ =>
    .send (request seq [("type", .str "register"), ("username", .str user),
      ("password", .str pass)])
  | ":login" :: user :: pass :: _ =>
    .send (request seq [("type", .str "login"), ("username", .str user), ("password", .str pass)])
  | ":logout" :: _ => .send (request seq [("type", .str "logout")])
  | ":dm" :: user :: text :: _ =>
      sendNumber seq "send_dm" "receiver_id" (stoll user) [("content", .str text)]
  | ":create_room" :: name :: _ =>
      .send (request seq [("type", .str "create_room"), ("name", .str name)])
  | ":join" :: room :: _ =>
    match stoll room with
    | some id => .send (request seq [("type", .str "join_room"), ("room_id", .int id)])
    | none => .send (request seq [("type", .str "join_room"), ("name", .str room)])
  | ":leave" :: room :: _ => sendNumber seq "leave_room" "room_id" (stoll room) []
  | ":rooms" :: _ => .send (request seq [("type", .str "list_rooms")])
  | ":room" :: room :: text :: _ =>
      sendNumber seq "send_room" "room_id" (stoll room) [("content", .str text)]
  | ":history_dm" :: user :: limit :: _ =>
    match stoi limit with
    | none => .throws
    | some n => sendNumber seq "history_dm" "user_id" (stoll user) [("limit", .int n)]
  | [":history_dm", user] => sendNumber seq "history_dm" "user_id" (stoll user) []
  | ":history_room" :: room :: limit :: _ =>
    match stoi limit with
    | none => .throws
    | some n => sendNumber seq "history_room" "room_id" (stoll room) [("limit", .int n)]
  | [":history_room", room] => sendNumber seq "history_room" "room_id" (stoll room) []
  | ":presence" :: user :: _ => sendNumber seq "presence" "user_id" (stoll user) []
  | _ => .unknown

end Command

def helpText : List String :=
  ["Commands:",
   "  :help                          show this help",
   "  :register <user> <pass>",
   "  :login    <user> <pass>",
   "  :logout",
   "  :dm <user_id> <content...>     send a direct message",
   "  :create_room <name>",
   "  :join <room_id|name>",
   "  :leave <room_id>",
   "  :rooms                         list rooms you're in",
   "  :room <room_id> <content...>   send to a room",
   "  :history_dm <user_id> [limit]",
   "  :history_room <room_id> [limit]",
   "  :presence <user_id>",
   "  :ping",
   "  :quit"]

/-- The globals of the client, the lines it has printed, the requests it has passed to
`send_frame` and whether an exception has ended it. -/
structure State where
  running : Bool
  seq : Int
  printed : List String
  requests : List Json
  aborted : Bool

/-- A typed line, with the result `send_frame` would return for it, or the end of the
connection as `reader_loop` sees it. -/
inductive Input : Type
  | line : List Char → Bool → Input
  | closed : Input

def State.step (c : State) : Input → State
  | .closed => { c with running := false, printed := c.printed ++ ["[server closed connection]"] }
  | .line text sent =>
    let t := (tokens text 16).map String.ofList
    if c.running = false ∨ t = [] then c
    else
      let next := { c with seq := Int.bmod (c.seq + 1) (2 ^ 64) }
      match command c.seq t with
      | .help => { next with printed := c.printed ++ helpText }
      | .quit => { next with running := false }
      | .send req =>
        if sent then { next with requests := c.requests ++ [req] }
        else { next with
          requests := c.requests ++ [req], printed := c.printed ++ ["[send failed]"],
            running := false }
      | .unknown => { next with printed := c.printed ++ ["unknown command; :help"] }
      | .throws => { next with running := false, aborted := true }

inductive Sending : Type
  | dm : Sending
  | room : Sending
  deriving DecidableEq

namespace Sending

def name : Sending → List Char
  | .dm => ":dm".toList
  | .room => ":room".toList

def type : Sending → String
  | .dm => types.kSendDM
  | .room => types.kSendRoom

def idField : Sending → String
  | .dm => "receiver_id"
  | .room => "room_id"

def line (k : Sending) (id : Nat) (content : List Char) : List Char :=
  k.name ++ ' ' :: (Nat.toDigits 10 id ++ ' ' :: content)

end Sending

theorem tokensFrom_word (n : Nat) {word : List Char} (hne : word ≠ [])
    (hword : ∀ ch ∈ word, isSpace ch = false)
    (s : List Char) : tokensFrom (n + 1) (word ++ ' ' :: s) = word :: tokensFrom n (' ' :: s) := by
  have hskip : (word ++ ' ' :: s).dropWhile isSpace = word ++ ' ' :: s := by
    obtain ⟨ch, rest, rfl⟩ := List.exists_cons_of_ne_nil hne
    exact List.dropWhile_cons_of_neg (by simp [hword ch List.mem_cons_self])
  have hcut : (word ++ ' ' :: s).takeWhile (fun ch => !isSpace ch) = word := by
    rw [List.takeWhile_append_of_pos (by simpa using hword), List.takeWhile_cons_of_neg (by decide),
      List.append_nil]
  have hrest : (word ++ ' ' :: s).dropWhile (fun ch => !isSpace ch) = ' ' :: s := by
    rw [List.dropWhile_append_of_pos (by simpa using hword), List.dropWhile_cons_of_neg (by decide)]
  simp only [tokensFrom, hskip, hcut, hrest, if_neg hne]

theorem tokensFrom_blank (n : Nat) (s : List Char) : tokensFrom n (' ' :: s) = tokensFrom n s := by
  have hskip : (' ' :: s).dropWhile isSpace = s.dropWhile isSpace :=
    List.dropWhile_cons_of_pos (by decide)
  cases n with
  | zero => simp only [tokensFrom, hskip]
  | succ n => simp only [tokensFrom, hskip]

theorem find_request (seq : Int) (fields : List (String × Json)) (k : String) :
    (request seq fields).find k = (("id", .int seq) :: fields).reverse.lookup k := by
  rw [request, Json.find, Fields.lookup_assign, List.lookup_nil, Option.or_none]

section Text

variable (c : State) (k : Sending) (id : Nat) {content : List Char} (hne : content ≠ [])
  (htrim : Lib.Trimmed isSpace content)

def firstWord (content : List Char) : List Char := content.takeWhile fun ch => !isSpace ch

include hne htrim

theorem tokens_line :
    ∃ rest, tokens (k.line id content) 16 = k.name :: Nat.toDigits 10 id :: firstWord
      content :: rest := by
  obtain ⟨ch, text, rfl⟩ := List.exists_cons_of_ne_nil hne
  have hch : isSpace ch = false := htrim.1 ch rfl
  have hname : k.name ≠ [] ∧ ∀ ch ∈ k.name, isSpace ch = false := by
    cases k <;> simp [Sending.name, isSpace]
  have hdigits : ∀ ch ∈ Nat.toDigits 10 id, isSpace ch = false :=
    fun ch h => isSpace_of_isDigit (isDigit_of_mem_toDigits h)
  have hskip : (ch :: text).dropWhile isSpace = ch :: text :=
    List.dropWhile_cons_of_neg (by simp [hch])
  have hword : firstWord (ch :: text) ≠ [] := by simp [firstWord, hch]
  rw [tokens, Sending.line, tokensFrom_word _ hname.1 hname.2, tokensFrom_blank,
    tokensFrom_word _ Nat.toDigits_ne_nil hdigits, tokensFrom_blank, tokensFrom, hskip]
  exact ⟨_, by rw [← firstWord, if_neg hword]⟩

theorem requests_step_line (hrun : c.running = true) (sent : Bool) :
    (c.step (.line (k.line id content) sent)).requests = c.requests ++
      if id < 2 ^ 63 then
        [request c.seq [("type", .str k.type), (k.idField, .int id),
          ("content", .str (String.ofList (firstWord content)))]]
      else [] := by
  obtain ⟨rest, htokens⟩ := tokens_line k id hne htrim
  have hcommand : command c.seq ((tokens (k.line id content) 16).map String.ofList) =
      sendNumber c.seq k.type k.idField (stoll (String.ofList (Nat.toDigits 10 id)))
        [("content", .str (String.ofList (firstWord content)))] := by
    rw [htokens]
    cases k <;> rfl
  have hgo : ¬(c.running = false ∨ (tokens (k.line id content) 16).map String.ofList = []) := by
    simp [hrun, htokens]
  rw [stoll_toDigits] at hcommand
  simp only [State.step, if_neg hgo, hcommand]
  by_cases hid : id < 2 ^ 63
  · rw [if_pos hid, if_pos hid]
    cases sent <;> rfl
  · rw [if_neg hid, if_neg hid, List.append_nil]
    rfl

theorem sends_whole_text_iff (hrun : c.running = true) (sent : Bool) :
    (∃ req, (c.step (.line (k.line id content) sent)).requests = c.requests ++ [req] ∧
      req.find k.idField = some (.int id) ∧
      req.find "content" = some (.str (String.ofList content))) ↔
      id < 2 ^ 63 ∧ ∀ ch ∈ content, isSpace ch = false := by
  have hfind (text : String) :
      (request c.seq [("type", .str k.type), (k.idField, .int id), ("content", .str text)]).find
        k.idField =
        some (.int id) ∧
      (request c.seq [("type", .str k.type), (k.idField, .int id), ("content", .str text)]).find
        "content" =
        some (.str text) := by
    rw [find_request, find_request]
    cases k <;> exact ⟨rfl, rfl⟩
  have hwhole : firstWord content = content ↔ ∀ ch ∈ content, isSpace ch = false := by
    simp [firstWord, List.takeWhile_eq_self_iff]
  rw [requests_step_line c k id hne htrim hrun sent, ← hwhole]
  constructor
  · rintro ⟨req, happ, -, hcontent⟩
    by_cases hid : id < 2 ^ 63
    · rw [if_pos hid, List.append_cancel_left_eq, List.cons.injEq] at happ
      rw [← happ.1, (hfind _).2, Option.some.injEq, Json.str.injEq, String.ofList_inj] at hcontent
      exact ⟨hid, hcontent⟩
    · rw [if_neg hid, List.append_cancel_left_eq] at happ
      cases happ
  · rintro ⟨hid, hcontent⟩
    rw [if_pos hid, hcontent]
    exact ⟨_, rfl, hfind _⟩

end Text

def State.initial : State := ⟨true, 1, [], [], false⟩

theorem sends_whole_text_dm :
    ∃ req, (State.initial.step (.line (Sending.dm.line 5 "hello".toList) true)).requests = [req] ∧
      req.find "receiver_id" = some (.int 5) ∧ req.find "content" = some (.str "hello") :=
  (sends_whole_text_iff State.initial .dm 5 (by simp) (by simp [Lib.Trimmed, isSpace]) rfl true).mpr
    (by simp [isSpace])

theorem sends_first_word :
    Sending.dm.line 5 "hello world".toList = ":dm 5 hello world".toList ∧
    ∃ req, (State.initial.step (.line (Sending.dm.line 5 "hello world".toList) true)).requests =
      [req] ∧
      req.find "content" = some (.str "hello") ∧
      req.find "content" ≠ some (.str "hello world") := by
  have hne : "hello world".toList ≠ [] := by decide
  have hstep := requests_step_line State.initial .dm 5 hne (by simp [Lib.Trimmed, isSpace]) rfl true
  refine ⟨by decide, _, hstep, ?_⟩
  have hfind := find_request 1 [("type", .str "send_dm"), ("receiver_id", .int 5),
    ("content", .str "hello")] "content"
  exact ⟨hfind, fun h => absurd (hfind.symm.trans h) (by simp)⟩

end ChatServer.Client
