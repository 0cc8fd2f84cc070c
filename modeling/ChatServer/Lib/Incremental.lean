import Mathlib.Data.List.Basic

/-! Incremental parsing.  A splitter says what stands at the front of a list of bytes;
it never takes back an answer when more bytes arrive, so a stream is parsed the same way
however it is cut.  A scanner is a loop that takes items off a state until it has to wait
or fails; when each pass answers as a splitter does, so does the loop. -/

namespace ChatServer.Lib

variable {β α ε σ : Type}

inductive Cut (β α : Type) : Type
  | more : Cut β α
  | bad : Cut β α
  | item : α → List β → Cut β α

structure Splitter (β α : Type) where
  cut : List β → Cut β α
  shrinks : ∀ {bs a rest}, cut bs = .item a rest → rest.length < bs.length
  item_append : ∀ {bs a rest} (x : List β), cut bs = .item a rest →
    cut (bs ++ x) = .item a (rest ++ x)
  bad_append : ∀ {bs} (x : List β), cut bs = .bad → cut (bs ++ x) = .bad

structure Parse (β α : Type) where
  items : List α
  rest : List β
  bad : Bool
  deriving DecidableEq

namespace Splitter

variable (S : Splitter β α)

def parse (bs : List β) : Parse β α :=
  match h : S.cut bs with
  | .more => ⟨[], bs, false⟩
  | .bad => ⟨[], bs, true⟩
  | .item a rest =>
    have := S.shrinks h
    let p := parse rest
    ⟨a :: p.items, p.rest, p.bad⟩
termination_by bs.length

variable {S} {bs : List β}

theorem parse_more (h : S.cut bs = .more) : S.parse bs = ⟨[], bs, false⟩ := by
  rw [parse]
  split <;> simp_all

theorem parse_bad (h : S.cut bs = .bad) : S.parse bs = ⟨[], bs, true⟩ := by
  rw [parse]
  split <;> simp_all

theorem parse_item {a : α} {rest : List β} (h : S.cut bs = .item a rest) :
    S.parse bs = ⟨a :: (S.parse rest).items, (S.parse rest).rest, (S.parse rest).bad⟩ := by
  rw [parse]
  split <;> simp_all

variable (S) in
theorem parse_append (bs x : List β) :
    S.parse (bs ++ x) = ⟨(S.parse bs).items ++ (S.parse ((S.parse bs).rest ++ x)).items,
      (S.parse ((S.parse bs).rest ++ x)).rest, (S.parse ((S.parse bs).rest ++ x)).bad⟩ := by
  induction hn : bs.length using Nat.strongRecOn generalizing bs with
  | ind n ih =>
    cases h : S.cut bs with
    | more => simp [parse_more h]
    | bad => simp [parse_bad h]
    | item a rest =>
      have hrest := ih rest.length (hn ▸ S.shrinks h) rest rfl
      simp [parse_item h, parse_item (S.item_append x h), hrest]

theorem cut_rest (bs : List β) :
    S.cut (S.parse bs).rest = if (S.parse bs).bad then .bad else .more := by
  induction hn : bs.length using Nat.strongRecOn generalizing bs with
  | ind n ih =>
    cases h : S.cut bs with
    | more => simp [parse_more h, h]
    | bad => simp [parse_bad h, h]
    | item a rest => simpa [parse_item h] using ih rest.length (hn ▸ S.shrinks h) rest rfl

theorem parse_rest (bs : List β) :
    S.parse (S.parse bs).rest = ⟨[], (S.parse bs).rest, (S.parse bs).bad⟩ := by
  have hcut := cut_rest (S := S) bs
  split at hcut
  · rename_i hbad
    rw [parse_bad hcut, hbad]
  · rename_i hgood
    rw [parse_more hcut, Bool.eq_false_iff.mpr hgood]

theorem parse_append_of_bad (h : (S.parse bs).bad = true) (x : List β) :
    S.parse (bs ++ x) = ⟨(S.parse bs).items, (S.parse bs).rest ++ x, true⟩ := by
  have hcut : S.cut (S.parse bs).rest = .bad := by rw [cut_rest, if_pos h]
  rw [parse_append, parse_bad (S.bad_append x hcut)]
  simp

end Splitter

/-- What one pass through a loop does: leave it, leave it with an error, or produce an
item and go round again. -/
inductive Pass (σ α ε : Type) : Type
  | stop : σ → Pass σ α ε
  | fail : ε → σ → Pass σ α ε
  | emit : α → σ → Pass σ α ε

structure Scanner (σ α ε : Type) where
  pass : σ → Pass σ α ε
  size : σ → Nat
  shrinks : ∀ {s a s'}, pass s = .emit a s' → size s' < size s

namespace Scanner

variable (L : Scanner σ α ε)

def scan (s : σ) : List α × Option ε × σ :=
  match h : L.pass s with
  | .stop s' => ([], none, s')
  | .fail e s' => ([], some e, s')
  | .emit a s' =>
    have := L.shrinks h
    let r := scan s'
    (a :: r.1, r.2)
termination_by L.size s

variable {L} {s s' : σ}

theorem scan_stop (h : L.pass s = .stop s') : L.scan s = ([], none, s') := by
  rw [scan]
  split <;> simp_all

theorem scan_fail {e : ε} (h : L.pass s = .fail e s') : L.scan s = ([], some e, s') := by
  rw [scan]
  split <;> simp_all

theorem scan_emit {a : α} (h : L.pass s = .emit a s') :
    L.scan s = (a :: (L.scan s').1, (L.scan s').2) := by
  rw [scan]
  split <;> simp_all

theorem scan_failed {P : σ → Prop} (hfail : ∀ {s e s'}, L.pass s = .fail e s' → P s')
    (h : (L.scan s).2.1.isSome = true) : P (L.scan s).2.2 := by
  induction hn : L.size s using Nat.strongRecOn generalizing s with
  | ind n ih =>
    cases hp : L.pass s with
    | stop s' => simp [scan_stop hp] at h
    | fail e s' => simpa [scan_fail hp] using hfail hp
    | emit a s' =>
      rw [scan_emit hp] at h ⊢
      exact ih (L.size s') (hn ▸ L.shrinks hp) h rfl

/-- Each pass does to the state what the splitter says about the bytes the state stands
for.  `W` relates a state to its bytes where the loop waits for more, `F` where it fails. -/
structure Reads (L : Scanner σ α ε) (S : Splitter β α) (R W F : σ → List β → Prop) : Prop where
  stop : ∀ {s s' bs}, R s bs → L.pass s = .stop s' → S.cut bs = .more ∧ W s' bs
  fail : ∀ {s s' e bs}, R s bs → L.pass s = .fail e s' → S.cut bs = .bad ∧ F s' bs
  emit : ∀ {s s' a bs}, R s bs → L.pass s = .emit a s' → ∃ rest, S.cut bs = .item a rest ∧ R s' rest

theorem Reads.scan {S : Splitter β α} {R W F : σ → List β → Prop}
    (h : L.Reads S R W F) {bs : List β} (hs : R s bs) :
    (L.scan s).1 = (S.parse bs).items ∧ (L.scan s).2.1.isSome = (S.parse bs).bad ∧
      if (S.parse bs).bad then F (L.scan s).2.2 (S.parse bs).rest else W (L.scan s).2.2
        (S.parse bs).rest := by
  induction hn : L.size s using Nat.strongRecOn generalizing s bs with
  | ind n ih =>
    cases hp : L.pass s with
    | stop s' =>
      obtain ⟨hcut, hW⟩ := h.stop hs hp
      simp [scan_stop hp, Splitter.parse_more hcut, hW]
    | fail e s' =>
      obtain ⟨hcut, hF⟩ := h.fail hs hp
      simp [scan_fail hp, Splitter.parse_bad hcut, hF]
    | emit a s' =>
      obtain ⟨rest, hcut, hR⟩ := h.emit hs hp
      simpa [scan_emit hp, Splitter.parse_item hcut] using ih (L.size s') (hn ▸ L.shrinks hp) hR rfl

end Scanner

end ChatServer.Lib
