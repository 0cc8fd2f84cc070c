import Mathlib.Logic.Function.Basic
import ChatServer.Db.Store

/-! The offline queue in the database.  `drain_undelivered` is two statements without a
transaction, and other connections of the pool may run theirs between the two. -/

namespace ChatServer.mysql

/-- The tables the queue is about, with the keys the database enforces: `messages` in the
order of its primary key, `undelivered` as pairs of a message and a user. -/
structure Tables where
  users : List Nat
  messages : List Message
  undelivered : List (Nat × Nat)
  ordered : messages.Pairwise (·.id < ·.id)
  foreign : ∀ row ∈ undelivered, row.1 ∈ messages.map Message.id ∧ row.2 ∈ users

namespace Tables

def empty : Tables := ⟨[], [], [], .nil, fun _ h => absurd h List.not_mem_nil⟩

def insertUser (t : Tables) (u : Nat) : Tables :=
  { t with
    users := u :: t.users
    foreign := fun row h => ⟨(t.foreign row h).1, List.mem_cons_of_mem _ (t.foreign row h).2⟩ }

def insertMessage (t : Tables) (m : Message) : Tables :=
  if h : ∀ m' ∈ t.messages, m'.id < m.id then
    { t with
      messages := t.messages ++ [m]
      ordered := List.pairwise_append.mpr ⟨t.ordered, List.pairwise_singleton .., by simpa using h⟩
      foreign := fun row hrow => by
        rw [List.map_append]
        exact ⟨List.mem_append_left _ (t.foreign row hrow).1, (t.foreign row hrow).2⟩ }
  else t

def admits (t : Tables) (m u : Nat) : Bool :=
  m ∈ t.messages.map Message.id ∧ u ∈ t.users ∧ (m, u) ∉ t.undelivered

def insertIgnore (t : Tables) (m u : Nat) : Tables :=
  if h : t.admits m u then
    { t with
      undelivered := (m, u) :: t.undelivered
      foreign := fun row hrow => by
        simp only [admits, decide_eq_true_eq] at h
        rcases List.mem_cons.mp hrow with rfl | hrow
        · exact ⟨h.1, h.2.1⟩
        · exact t.foreign row hrow }
  else t

def selectUndelivered (t : Tables) (u : Nat) : List Message :=
  t.messages.filter fun m => (m.id, u) ∈ t.undelivered

def deleteUndelivered (t : Tables) (u : Nat) : Tables :=
  { t with
    undelivered := t.undelivered.filter fun row => row.2 ≠ u
    foreign := fun row hrow => t.foreign row (List.mem_filter.mp hrow).1 }

theorem mem_insertIgnore {t : Tables} {m u : Nat} {row : Nat × Nat} :
    row ∈ (t.insertIgnore m u).undelivered ↔ row ∈ t.undelivered ∨
    (t.admits m u = true ∧ row = (m, u)) := by
  unfold insertIgnore
  split
  · rename_i h
    simp [h, or_comm]
  · rename_i h
    simp [h]

theorem mem_deleteUndelivered {t : Tables} {u : Nat} {row : Nat × Nat} :
    row ∈ (t.deleteUndelivered u).undelivered ↔ row ∈ t.undelivered ∧ row.2 ≠ u := by
  simp [deleteUndelivered]

@[simp] theorem undelivered_insertMessage (t : Tables) (m : Message) :
    (t.insertMessage m).undelivered = t.undelivered := by
  unfold insertMessage
  split <;> rfl

theorem mem_selectUndelivered {t : Tables} {m u : Nat} :
    m ∈ (t.selectUndelivered u).map Message.id ↔ (m, u) ∈ t.undelivered := by
  constructor
  · intro h
    obtain ⟨msg, hmsg, rfl⟩ := List.mem_map.mp h
    simpa using (List.mem_filter.mp hmsg).2
  · intro h
    obtain ⟨msg, hmsg, hid⟩ := List.mem_map.mp (t.foreign _ h).1
    refine List.mem_map.mpr ⟨msg, List.mem_filter.mpr ⟨hmsg, ?_⟩, hid⟩
    rw [hid]
    simpa using h

end Tables

inductive Statement : Type
  | insertUser : Nat → Statement
  | insertMessage : Message → Statement
  | enqueue : Nat → Nat → Statement
  | select : Nat → Nat → Statement
  | delete : Nat → Statement

/-- The tables, the drains that stand between their two statements with the messages they
have read, what the finished drains have returned, and every row that was put in. -/
structure Queue where
  tables : Tables
  drains : Nat → Option (Nat × List Message)
  returned : List (Nat × List Message)
  enqueued : List (Nat × Nat)

namespace Queue

def empty : Queue := ⟨.empty, fun _ => none, [], []⟩

def exec (q : Queue) : Statement → Queue
  | .insertUser u => { q with tables := q.tables.insertUser u }
  | .insertMessage m => { q with tables := q.tables.insertMessage m }
  | .enqueue m u =>
    { q with
      tables := q.tables.insertIgnore m u
      enqueued := if q.tables.admits m u then (m, u) :: q.enqueued else q.enqueued }
  | .select i u =>
    match q.drains i with
    | none =>
        { q with drains := Function.update q.drains i (some (u, q.tables.selectUndelivered u)) }
    | some _ => q
  | .delete i =>
    match q.drains i with
    | none => q
    | some (u, out) =>
      { q with
        tables := q.tables.deleteUndelivered u
        drains := Function.update q.drains i none
        returned := (u, out) :: q.returned }

def execAll (q : Queue) (run : List Statement) : Queue := run.foldl exec q

def Returned (q : Queue) (row : Nat × Nat) : Prop :=
  ∃ r ∈ q.returned, r.1 = row.2 ∧ row.1 ∈ r.2.map Message.id

instance (q : Queue) (row : Nat × Nat) : Decidable (q.Returned row) :=
  inferInstanceAs (Decidable (∃ r ∈ q.returned, r.1 = row.2 ∧ row.1 ∈ r.2.map Message.id))

/-- Every row ever put in is in the table or was returned. -/
def Lossless (q : Queue) : Prop := ∀ row ∈ q.enqueued, row ∈ q.tables.undelivered ∨ q.Returned row

instance (q : Queue) : Decidable q.Lossless :=
  inferInstanceAs (Decidable (∀ row ∈ q.enqueued, row ∈ q.tables.undelivered ∨ q.Returned row))

/-- A row is put in only when every drain of its user in progress has read its message. -/
def Timely (q : Queue) : Statement → Prop
  | .enqueue m u => ∀ i out, q.drains i = some (u, out) → m ∈ out.map Message.id
  | _ => True

def TimelyRun (q : Queue) : List Statement → Prop
  | [] => True
  | s :: run => q.Timely s ∧ (q.exec s).TimelyRun run

structure Covered (q : Queue) : Prop where
  read : ∀ i u out, q.drains i = some (u, out) → ∀ m, (m, u) ∈ q.tables.undelivered →
    m ∈ out.map Message.id
  lossless : q.Lossless

theorem covered_empty : empty.Covered where
  read _ _ _ h := by cases h
  lossless _ h := absurd h List.not_mem_nil

section Statements

variable {q : Queue}

theorem Covered.enqueue {m u : Nat} (h : q.Covered) (ht : q.Timely (.enqueue m u)) :
    (q.exec (.enqueue m u)).Covered where
  read i v out hi n hn := by
    rcases Tables.mem_insertIgnore.mp hn with hold | ⟨-, hnew⟩
    · exact h.read i v out hi n hold
    · cases hnew
      exact ht i out hi
  lossless row hrow := by
    by_cases hadmits : q.tables.admits m u = true
    · simp only [exec, hadmits, if_true] at hrow
      rcases List.mem_cons.mp hrow with rfl | hrow
      · exact .inl (Tables.mem_insertIgnore.mpr (.inr ⟨hadmits, rfl⟩))
      · exact (h.lossless row hrow).imp_left fun hold => Tables.mem_insertIgnore.mpr (.inl hold)
    · simp only [exec, hadmits] at hrow
      exact (h.lossless row hrow).imp_left fun hold => Tables.mem_insertIgnore.mpr (.inl hold)

theorem Covered.select (h : q.Covered) (i u : Nat) : (q.exec (.select i u)).Covered := by
  cases hi : q.drains i with
  | some d => simpa only [Queue.exec, hi] using h
  | none =>
    simp only [Queue.exec, hi]
    refine ⟨?_, h.lossless⟩
    intro j v out hj m hm
    by_cases hji : j = i
    · subst hji
      simp only [Function.update_self, Option.some.injEq, Prod.mk.injEq] at hj
      obtain ⟨rfl, rfl⟩ := hj
      exact Tables.mem_selectUndelivered.mpr hm
    · simp only [Function.update_of_ne hji] at hj
      exact h.read j v out hj m hm

theorem Covered.delete (h : q.Covered) (i : Nat) : (q.exec (.delete i)).Covered := by
  cases hi : q.drains i with
  | none => simpa only [Queue.exec, hi] using h
  | some d =>
    obtain ⟨u, out⟩ := d
    simp only [Queue.exec, hi]
    refine ⟨?_, ?_⟩
    · intro j v out' hj m hm
      by_cases hji : j = i
      · subst hji
        simp at hj
      · simp only [Function.update_of_ne hji] at hj
        exact h.read j v out' hj m (Tables.mem_deleteUndelivered.mp hm).1
    · -- a row of the user that goes was read by this drain
      rintro ⟨m, v⟩ hrow
      rcases h.lossless _ hrow with hold | ⟨r, hr, hret⟩
      · by_cases hv : v = u
        · subst hv
          exact .inr ⟨(v, out), List.mem_cons_self .., rfl, h.read i v out hi m hold⟩
        · exact .inl (Tables.mem_deleteUndelivered.mpr ⟨hold, hv⟩)
      · exact .inr ⟨r, List.mem_cons_of_mem _ hr, hret⟩

theorem Covered.exec {s : Statement} (h : q.Covered) (ht : q.Timely s) : (q.exec s).Covered := by
  cases s with
  | insertUser u => exact ⟨h.read, h.lossless⟩
  | insertMessage m =>
    refine ⟨?_, ?_⟩
    · simpa [Queue.exec] using h.read
    · simpa [Queue.exec, Lossless, Returned] using h.lossless
  | enqueue m u => exact h.enqueue ht
  | select i u => exact h.select i u
  | delete i => exact h.delete i

theorem Covered.execAll {run : List Statement} (h : q.Covered) (ht : q.TimelyRun run) :
    (q.execAll run).Covered := by
  induction run generalizing q with
  | nil => exact h
  | cons s run ih => exact ih (h.exec ht.1) ht.2

end Statements

end Queue

theorem drain_lossless {run : List Statement} (h : Queue.empty.TimelyRun run) :
    (Queue.empty.execAll run).Lossless :=
  (Queue.covered_empty.execAll h).lossless

def offlineUser : List Statement :=
  [.insertUser 1, .insertUser 2, .insertMessage ⟨1, 2, some 1, none, "a", 0, 0⟩,
    .insertMessage ⟨2, 2, some 1, none, "b", 0, 0⟩]

theorem drain_lossless_overlap :
    (Queue.empty.execAll (offlineUser ++
      [.enqueue 1 1, .select 0 1, .select 1 1, .delete 0, .delete 1, .enqueue 2 1])).Lossless := by
  apply drain_lossless
  refine ⟨trivial, trivial, trivial, trivial, ?_, trivial, trivial, trivial, trivial, ?_, trivial⟩
  · intro i out h
    cases h
  · intro i out h
    rcases i with _ | _ | i <;> cases h

theorem drain_loses_row :
    ¬(Queue.empty.execAll (offlineUser ++
      [.enqueue 1 1, .select 0 1, .enqueue 2 1, .delete 0])).Lossless := by
  -- The second message is put in between the two statements of a drain.
  decide

end ChatServer.mysql
