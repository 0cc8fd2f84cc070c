import Mathlib.Data.List.Chain
import ChatServer.Server.Effects

namespace ChatServer.Presence

abbrev Table (Connection : Type) := Dict Nat (Dict Nat Connection)

inductive Call (Connection : Type) : Type
  | bind : Nat → Connection → Call Connection
  | unbind : Nat → Connection → Call Connection

namespace Call

variable {Connection : Type}

def user : Call Connection → Nat
  | bind u _ => u
  | unbind u _ => u

def isBind : Call Connection → Bool
  | bind _ _ => true
  | unbind _ _ => false

end Call

namespace Table

variable {Connection : Type} (id : Connection ↪ Nat) (map : Table Connection)

def slot (u : Nat) : Dict Nat Connection := (map.lookup u).getD ∅

def bind (u : Nat) (c : Connection) : Bool × Table Connection :=
  ((slot map u).keys.isEmpty, map.insert u ((slot map u).insert (id c) c))

def unbind (u : Nat) (c : Connection) : Bool × Table Connection :=
  match map.lookup u with
  | none => (false, map)
  | some s =>
      if (s.erase (id c)).keys.isEmpty then (true, map.erase u) else (false,
        map.insert u (s.erase (id c)))

def connectionsOf (order : Finset Nat → List Nat) (u : Nat) : List Connection :=
  match map.lookup u with
  | none => []
  | some s => (order s.keys.toFinset).filterMap fun k => s.lookup k

def isOnline (u : Nat) : Bool := (map.lookup u).isSome

def apply : Call Connection → Bool × Table Connection
  | .bind u c => bind id map u c
  | .unbind u c => unbind id map u c

def after (calls : List (Call Connection)) : Table Connection :=
  calls.foldl (fun map x => (apply id map x).2) ∅

def turns (u : Nat) : Table Connection → List (Call Connection) → List (Call Connection)
  | _, [] => []
  | map, x :: calls =>
    (if x.user = u ∧ (apply id map x).1 = true then [x] else []) ++ turns u (apply id map x).2 calls

def Kept : Prop := ∀ u, ∀ s, map.lookup u = some s → s.keys ≠ []

variable {id map}

section Slots

theorem keys_eq_nil {s : Dict Nat Connection} : s.keys = [] ↔ ∀ k, s.lookup k = none := by
  simp only [AList.lookup_eq_none, AList.mem_keys, List.eq_nil_iff_forall_not_mem]

theorem lookup_slot_bind (u v k : Nat) (c : Connection) :
    (slot (bind id map u c).2 v).lookup k =
      if v = u ∧ k = id c then some c else (slot map v).lookup k := by
  by_cases hv : v = u
  · subst hv
    by_cases hk : k = id c
    · subst hk
      simp [bind, slot]
    · simp [bind, slot, hk]
  · simp [bind, slot, hv]

theorem unbind_cases (id : Connection ↪ Nat) (map : Table Connection) (u : Nat) (c : Connection) :
    (map.lookup u = none ∧ unbind id map u c = (false, map)) ∨
      ∃ s, map.lookup u = some s ∧
        ((s.erase (id c)).keys = [] ∧ unbind id map u c = (true, map.erase u) ∨
          (s.erase (id c)).keys ≠ [] ∧
          unbind id map u c = (false, map.insert u (s.erase (id c)))) := by
  cases hl : map.lookup u with
  | none => exact .inl ⟨rfl, by simp only [unbind, hl]⟩
  | some s =>
    refine .inr ⟨s, rfl, ?_⟩
    simp only [unbind, hl]
    split
    · rename_i hempty
      exact .inl ⟨List.isEmpty_iff.mp hempty, rfl⟩
    · rename_i hleft
      exact .inr ⟨fun h => hleft (List.isEmpty_iff.mpr h), rfl⟩

theorem lookup_slot_unbind (u v k : Nat) (c : Connection) :
    (slot (unbind id map u c).2 v).lookup k =
      if v = u ∧ k = id c then none else (slot map v).lookup k := by
  by_cases hv : v = u
  · subst hv
    have herase (s : Dict Nat Connection) :
        (s.erase (id c)).lookup k = if k = id c then none else s.lookup k := by
      split
      · rename_i hk
        rw [hk, AList.lookup_erase]
      · rename_i hk
        rw [AList.lookup_erase_ne hk]
    obtain ⟨hl, heq⟩ | ⟨s, hl, ⟨hempty, heq⟩ | ⟨-, heq⟩⟩ := unbind_cases id map v c
    · simp [heq, slot, hl]
    · simp only [heq, slot, hl, AList.lookup_erase, Option.getD_none, Option.getD_some,
        true_and, ← herase]
      exact (keys_eq_nil.mp hempty k).symm
    · simp only [heq, slot, hl, AList.lookup_insert, Option.getD_some, true_and, herase]
  · obtain ⟨-, heq⟩ | ⟨s, -, ⟨-, heq⟩ | ⟨-, heq⟩⟩ :=
      unbind_cases id map u c <;> simp [heq, slot, hv]

end Slots

section Online

theorem Kept.empty : Kept (∅ : Table Connection) := by
  intro u s h
  cases h

theorem Kept.insert (h : Kept map) {u : Nat} {s : Dict Nat Connection} (hs : s.keys ≠ []) :
    Kept (map.insert u s) := by
  intro v t ht
  by_cases hv : v = u
  · subst hv
    rw [AList.lookup_insert] at ht
    cases ht
    exact hs
  · exact h v t (by rwa [AList.lookup_insert_ne hv] at ht)

theorem Kept.erase (h : Kept map) (u : Nat) : Kept (map.erase u) := by
  intro v t ht
  by_cases hv : v = u
  · subst hv
    rw [AList.lookup_erase] at ht
    cases ht
  · exact h v t (by rwa [AList.lookup_erase_ne hv] at ht)

theorem Kept.apply (h : Kept map) (x : Call Connection) : Kept (apply id map x).2 := by
  cases x with
  | bind u c =>
    apply h.insert
    rw [AList.keys_insert]
    exact List.cons_ne_nil _ _
  | unbind u c =>
    rw [Table.apply]
    obtain ⟨-, heq⟩ | ⟨s, -, ⟨-, heq⟩ | ⟨hleft, heq⟩⟩ := unbind_cases id map u c <;> rw [heq]
    · exact h
    · exact h.erase u
    · exact h.insert hleft

theorem Kept.online_iff (h : Kept map) (u : Nat) :
    isOnline map u = true ↔ (slot map u).keys ≠ [] := by
  cases hl : map.lookup u with
  | none => simp [isOnline, slot, hl]
  | some s => simpa [isOnline, slot, hl] using h u s hl

theorem Kept.turn (h : Kept map) (id : Connection ↪ Nat) (x : Call Connection) :
    if (Table.apply id map x).1 = true
    then isOnline map x.user = !x.isBind ∧ isOnline (Table.apply id map x).2 x.user = x.isBind
    else isOnline (Table.apply id map x).2 x.user = isOnline map x.user := by
  cases x with
  | bind u c =>
    have hon := h.online_iff u
    have hafter : isOnline (bind id map u c).2 u = true := by simp [isOnline, bind]
    simp only [Table.apply, Call.user, Call.isBind, hafter]
    split
    · rename_i hempty
      rw [bind, List.isEmpty_iff] at hempty
      simpa [hempty] using hon
    · rename_i hleft
      rw [bind, List.isEmpty_iff] at hleft
      exact (hon.mpr hleft).symm
  | unbind u c =>
    simp only [Table.apply, Call.user, Call.isBind]
    obtain ⟨-, heq⟩ | ⟨s, hl, ⟨-, heq⟩ | ⟨-, heq⟩⟩ := unbind_cases id map u c
    · simp [heq]
    · simp [heq, isOnline, hl]
    · simp [heq, isOnline, hl]

theorem isOnline_apply_of_ne {v : Nat} (x : Call Connection) (hv : v ≠ x.user) :
    isOnline (Table.apply id map x).2 v = isOnline map v := by
  cases x with
  | bind u c =>
    rw [Call.user] at hv
    simp [Table.apply, bind, isOnline, hv]
  | unbind u c =>
    rw [Call.user] at hv
    obtain ⟨-, heq⟩ | ⟨s, -, ⟨-, heq⟩ | ⟨-, heq⟩⟩ := unbind_cases id map u c <;>
      simp [Table.apply, heq, isOnline, hv]

end Online

section History

variable (id)

theorem after_append_one (calls : List (Call Connection)) (x : Call Connection) :
    after id (calls ++ [x]) = (apply id (after id calls) x).2 := by
  rw [after, List.foldl_append]
  rfl

theorem turns_append_one (u : Nat) (map : Table Connection) (calls : List (Call Connection))
    (x : Call Connection) : turns id u map (calls ++ [x]) = turns id u map calls ++
      if x.user = u ∧ (apply id (calls.foldl (fun map x => (apply id map x).2) map) x).1 =
        true then [x] else [] := by
  induction calls generalizing map with
  | nil => exact List.append_nil _
  | cons y calls ih => rw [List.cons_append, turns, turns, ih, List.append_assoc, List.foldl_cons]

theorem kept_after (calls : List (Call Connection)) : Kept (after id calls) := by
  induction calls using List.reverseRecOn with
  | nil => exact .empty
  | append_singleton calls x ih =>
    rw [after_append_one]
    exact ih.apply x

end History

/-- The last `bind` of the connection under the user has not been followed by an `unbind`. -/
def Live (calls : List (Call Connection)) (u : Nat) (c : Connection) : Prop :=
  ∃ before after, calls = before ++ .bind u c :: after ∧ .unbind u c ∉ after

structure Alternate (calls : List (Call Connection)) (online : Bool) : Prop where
  chain : calls.IsChain fun x y => x.isBind ≠ y.isBind
  first : ∀ x ∈ calls.head?, x.isBind = true
  last : calls.getLast?.any Call.isBind = online

theorem live_append_one (calls : List (Call Connection)) (x : Call Connection) (u : Nat)
    (c : Connection) :
    Live (calls ++ [x]) u c ↔ x = .bind u c ∨ (x ≠ .unbind u c ∧ Live calls u c) := by
  constructor
  · rintro ⟨before, after, heq, hafter⟩
    cases after using List.reverseRecOn with
    | nil => exact .inl (List.append_inj_right' heq rfl |> List.cons.inj).1
    | append_singleton after y =>
      rw [List.mem_append, List.mem_singleton, not_or] at hafter
      rw [← List.cons_append, ← List.append_assoc] at heq
      obtain ⟨rfl, hx⟩ := List.append_inj' heq rfl
      cases hx
      exact .inr ⟨Ne.symm hafter.2, before, after, rfl, hafter.1⟩
  · rintro (rfl | ⟨hx, before, after, rfl, hafter⟩)
    · exact ⟨calls, [], rfl, List.not_mem_nil⟩
    · refine ⟨before, after ++ [x], by simp, ?_⟩
      rw [List.mem_append, List.mem_singleton, not_or]
      exact ⟨hafter, Ne.symm hx⟩

theorem lookup_after (id : Connection ↪ Nat) (calls : List (Call Connection)) (u k : Nat)
    (c : Connection) : (slot (after id calls) u).lookup k = some c ↔ k = id c ∧ Live calls u c := by
  induction calls using List.reverseRecOn with
  | nil => simp [after, slot, Live]
  | append_singleton calls x ih =>
    rw [after_append_one, live_append_one]
    cases x with
    | bind v d =>
      rw [apply, lookup_slot_bind]
      split
      · rename_i h
        obtain ⟨rfl, rfl⟩ := h
        simp only [Option.some.injEq, EmbeddingLike.apply_eq_iff_eq]
        constructor
        · rintro rfl
          exact ⟨rfl, .inl rfl⟩
        · exact fun h => h.1
      · rename_i h
        rw [ih]
        constructor
        · exact fun hlive => ⟨hlive.1, .inr ⟨nofun, hlive.2⟩⟩
        · rintro ⟨rfl, heq | ⟨-, hlive⟩⟩
          · cases heq
            exact absurd ⟨rfl, rfl⟩ h
          · exact ⟨rfl, hlive⟩
    | unbind v d =>
      rw [apply, lookup_slot_unbind]
      split
      · rename_i h
        obtain ⟨rfl, rfl⟩ := h
        constructor
        · exact nofun
        · rintro ⟨heq, hnever | ⟨hne, -⟩⟩
          · cases hnever
          · exact absurd (congrArg (Call.unbind u) (id.injective heq)) hne
      · rename_i h
        rw [ih]
        constructor
        · rintro ⟨rfl, hlive⟩
          refine ⟨rfl, .inr ⟨?_, hlive⟩⟩
          rintro heq
          cases heq
          exact h ⟨rfl, rfl⟩
        · rintro ⟨rfl, hnever | ⟨-, hlive⟩⟩
          · cases hnever
          · exact ⟨rfl, hlive⟩

theorem Alternate.snoc {calls : List (Call Connection)} {x : Call Connection}
    (h : Alternate calls (!x.isBind)) : Alternate (calls ++ [x]) x.isBind where
  chain := by
    refine h.chain.append (.singleton x) ?_
    intro y hy z hz
    obtain rfl : x = z := by simpa using hz
    have hlast := h.last
    rw [Option.mem_def.mp hy, Option.any_some] at hlast
    simp [hlast]
  first := by
    intro y hy
    cases calls with
    | nil =>
      obtain rfl : x = y := by simpa using hy
      simpa using h.last.symm
    | cons z calls => exact h.first y hy
  last := by simp

theorem alternate_turns (id : Connection ↪ Nat) (calls : List (Call Connection)) (u : Nat) :
    Alternate (turns id u ∅ calls) (isOnline (after id calls) u) := by
  induction calls using List.reverseRecOn with
  | nil => exact ⟨.nil, by simp [turns], rfl⟩
  | append_singleton calls x ih =>
    have hturn := (kept_after id calls).turn id x
    rw [turns_append_one, ← after, after_append_one]
    by_cases hu : x.user = u
    · subst hu
      by_cases htrue : (apply id (after id calls) x).1 = true
      · rw [if_pos htrue] at hturn
        rw [if_pos ⟨rfl, htrue⟩, hturn.2]
        rw [hturn.1] at ih
        exact ih.snoc
      · rw [if_neg htrue] at hturn
        rwa [if_neg (fun h => htrue h.2), List.append_nil, hturn]
    · rwa [if_neg (fun h => hu h.1), List.append_nil, isOnline_apply_of_ne x (Ne.symm hu)]

section Listing

variable (env : Env) (walk : Nat) (id) (calls : List (Call Connection)) (u : Nat)

theorem mem_connectionsOf (c : Connection) :
    c ∈ connectionsOf (after id calls) (env.order walk) u ↔ Live calls u c := by
  have hslot := lookup_after id calls u
  cases hl : (after id calls).lookup u with
  | none =>
    have hdead : ¬Live calls u c := fun h => by simpa [slot, hl] using (hslot (id c) c).mpr ⟨rfl, h⟩
    simpa [connectionsOf, hl] using hdead
  | some s =>
    simp only [slot, hl, Option.getD_some] at hslot
    simp only [connectionsOf, hl, List.mem_filterMap, env.mem_order, List.mem_toFinset,
      ← AList.mem_keys]
    constructor
    · rintro ⟨k, -, hk⟩
      exact ((hslot k c).mp hk).2
    · intro h
      have hk := (hslot (id c) c).mpr ⟨rfl, h⟩
      exact ⟨id c, AList.lookup_isSome.mp (by rw [hk]; rfl), hk⟩

theorem nodup_connectionsOf : (connectionsOf (after id calls) (env.order walk) u).Nodup := by
  have hslot := lookup_after id calls u
  cases hl : (after id calls).lookup u with
  | none => simp [connectionsOf, hl]
  | some s =>
    simp only [slot, hl, Option.getD_some] at hslot
    simp only [connectionsOf, hl]
    refine (env.order_nodup walk _).filterMap ?_
    intro k k' c hk hk'
    rw [((hslot k c).mp hk).1, ((hslot k' c).mp hk').1]

theorem online_iff_connectionsOf :
    isOnline (after id calls) u = true ↔ connectionsOf (after id calls)
    (env.order walk) u ≠ [] := by
  have hslot := lookup_after id calls u
  rw [(kept_after id calls).online_iff, not_iff_not, keys_eq_nil, List.eq_nil_iff_forall_not_mem]
  simp only [mem_connectionsOf]
  constructor
  · intro hnone c hlive
    have hc := (hslot (id c) c).mpr ⟨rfl, hlive⟩
    rw [hnone] at hc
    cases hc
  · intro hdead k
    rw [Option.eq_none_iff_forall_ne_some]
    intro c hc
    exact hdead c ((hslot k c).mp hc).2

theorem presence_exact :
    (∀ v s, (after id calls).lookup v = some s → s.keys ≠ []) ∧
      (isOnline (after id calls) u = true ↔
        connectionsOf (after id calls) (env.order walk) u ≠ []) ∧
      (connectionsOf (after id calls) (env.order walk) u).Nodup ∧
      (∀ c, c ∈ connectionsOf (after id calls) (env.order walk) u ↔ Live calls u c) ∧
      Alternate (turns id u ∅ calls) (isOnline (after id calls) u) :=
  ⟨kept_after id calls, online_iff_connectionsOf id env walk calls u,
    nodup_connectionsOf id env walk calls u, mem_connectionsOf id env walk calls u,
      alternate_turns id calls u⟩

end Listing

section Server

def Abstracts (map : Table Connection) (slots : Slots) : Prop :=
  ∀ u, slots.lookup u = (map.lookup u).map fun s => s.keys.toFinset

def applySlots (id : Connection ↪ Nat) (slots : Slots) : Call Connection → Bool × Slots
  | .bind u c => bindSlot slots u (id c)
  | .unbind u c => unbindSlot slots u (id c)

variable {slots : Slots} (h : Abstracts map slots)

include h

theorem Abstracts.slot_eq (u : Nat) : Presence.slot slots u = (slot map u).keys.toFinset := by
  rw [Presence.slot, h, slot]
  cases map.lookup u <;> rfl

theorem Abstracts.inserted (u : Nat) (s : Dict Nat Connection) :
    Abstracts (map.insert u s) (slots.insert u s.keys.toFinset) := by
  intro v
  by_cases hv : v = u
  · subst hv
    simp
  · rw [AList.lookup_insert_ne hv, AList.lookup_insert_ne hv, h]

theorem Abstracts.erased (u : Nat) : Abstracts (map.erase u) (slots.erase u) := by
  intro v
  by_cases hv : v = u
  · subst hv
    simp
  · rw [AList.lookup_erase_ne hv, AList.lookup_erase_ne hv, h]

theorem Abstracts.isOnline (u : Nat) : Presence.isOnline slots u = Table.isOnline map u := by
  rw [Presence.isOnline, h, Option.isSome_map, Table.isOnline]

omit h in
theorem decide_isEmpty (ks : List Nat) : decide (ks.toFinset = ∅) = ks.isEmpty := by
  cases ks <;> simp

theorem Abstracts.apply (x : Call Connection) :
    (applySlots id slots x).1 = (Table.apply id map x).1 ∧
      Abstracts (Table.apply id map x).2 (applySlots id slots x).2 := by
  cases x with
  | bind u c =>
    have hkeys : insert (id c) (slot map u).keys.toFinset =
        ((slot map u).insert (id c) c).keys.toFinset := by
      ext k
      by_cases hk : k = id c <;> simp [AList.keys_insert, hk]
    simp only [applySlots, Table.apply, bindSlot, bind, h.slot_eq, hkeys]
    exact ⟨decide_isEmpty _, h.inserted u _⟩
  | unbind u c =>
    have hkeys (s : Dict Nat Connection) :
        s.keys.toFinset.erase (id c) = (s.erase (id c)).keys.toFinset := by
      ext k
      rw [Finset.mem_erase, List.mem_toFinset, List.mem_toFinset, AList.keys_erase,
        s.keys_nodup.mem_erase_iff]
    simp only [applySlots, Table.apply]
    obtain ⟨hl, heq⟩ | ⟨s, hl, ⟨hempty, heq⟩ | ⟨hleft, heq⟩⟩ := unbind_cases id map u c
    · have hnone : unbindSlot slots u (id c) = (false, slots) := by simp [unbindSlot, h u, hl]
      rw [heq, hnone]
      exact ⟨rfl, h⟩
    · have hgone : unbindSlot slots u (id c) = (true, slots.erase u) := by
        simp only [unbindSlot, h u, hl, Option.map_some, hkeys, hempty]
        rfl
      rw [heq, hgone]
      exact ⟨rfl, h.erased u⟩
    · have hkept : unbindSlot slots u (id c) =
          (false, slots.insert u (s.erase (id c)).keys.toFinset) := by
        simp only [unbindSlot, h u, hl, Option.map_some, hkeys]
        exact if_neg fun hnil => hleft (List.toFinset_eq_empty_iff _ |>.mp hnil)
      rw [heq, hkept]
      exact ⟨rfl, h.inserted u _⟩

omit h

theorem abstracts_after (id : Connection ↪ Nat) (calls : List (Call Connection)) :
    Abstracts (after id calls) (calls.foldl (fun slots x => (applySlots id slots x).2) ∅) := by
  induction calls using List.reverseRecOn with
  | nil => exact fun _ => rfl
  | append_singleton calls x ih =>
    rw [after_append_one, List.foldl_append]
    exact (ih.apply x).2

theorem Abstracts.connectionsOf {calls : List (Call Connection)}
    (h : Abstracts (after id calls) slots) (env : Env) (walk u : Nat) :
    (Table.connectionsOf (after id calls) (env.order walk) u).map id = env.order walk
      (Presence.slot slots u) := by
  have hslot := lookup_after id calls u
  rw [h.slot_eq]
  cases hl : (after id calls).lookup u with
  | none =>
    have hnil : env.order walk ∅ = [] := by simp [List.eq_nil_iff_forall_not_mem, env.mem_order]
    simp [Table.connectionsOf, slot, hl, hnil]
  | some s =>
    simp only [slot, hl, Option.getD_some] at hslot
    simp only [Table.connectionsOf, slot, hl, Option.getD_some, List.map_filterMap]
    refine (List.filterMap_congr fun k hk => ?_).trans List.filterMap_some
    rw [env.mem_order, List.mem_toFinset, ← AList.mem_keys, ← AList.lookup_isSome] at hk
    obtain ⟨c, hc⟩ := Option.isSome_iff_exists.mp hk
    rw [hc, Option.map_some, ← ((hslot k c).mp hc).1]

end Server

end Table

end ChatServer.Presence
