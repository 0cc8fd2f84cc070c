import ChatServer.Lib.Lockstep
import ChatServer.Server.RoomCache

namespace ChatServer

open Lib Lib.Prog

/-- The operations of a server whose `RoomManager` keeps nothing. -/
def plainExec (env : Env) : (o : Op) → World → o.Ret × World
  | .isMember r u, w => (u ∈ w.store.members r, w)
  | .membersOf r, w => (env.order w.walks (w.store.members r), { w with walks := w.walks + 1 })
  | .onJoin _ _, w => ((), w)
  | .onLeave _ _, w => ((), w)
  | o, w => memExec env o w

def World.withoutCache (w : World) : World := { w with rooms := .empty }

def Op.updatesMembers : Op → Bool
  | .repo (.joinRoom _ _) => true
  | .repo (.leaveRoom _ _) => true
  | _ => false

/-- After a change of the stored members the same task goes on. -/
def updatesPaired (g : Sys) (m : Move Input) : Bool :=
  match g.hist.log.getLast?, m with
  | some e, .advance i => !e.op.updatesMembers || e.task = i
  | some e, .start _ _ => !e.op.updatesMembers
  | none, _ => true

section Answers

variable {env : Env} {w : World} {t : Roll} {o : Op}

theorem Aligned.members_ensure (hw : Aligned w t) (hdue : t.due = .rest ∨ ∃ r u, t.due = .tried r u)
    (r : Nat) : (w.rooms.ensure r (w.store.members r)).members r = w.store.members r := by
  unfold RoomManager.ensure
  split
  next hloaded =>
    ext u
    rcases hw.agree r hloaded u with hagree | howed | howed
    · exact hagree
    · rcases hdue with hdue | ⟨_, _, hdue⟩ <;> simp [hdue] at howed
    · rcases hdue with hdue | ⟨_, _, hdue⟩ <;> simp [hdue] at howed
  next => simp [RoomManager.load, RoomManager.members]

theorem Aligned.plain (hw : Aligned w t) (ha : t.allows o) :
    plainExec env o w.withoutCache = ((memExec env o w).1, (memExec env o w).2.withoutCache) := by
  cases o with
  | isMember r u =>
    have hmembers := hw.members_ensure ha r
    simp only [RoomManager.ensure] at hmembers
    simp only [plainExec, exec, ensureLoaded_memory, hmembers]
    rfl
  | membersOf r =>
    have hmembers := hw.members_ensure ha r
    simp only [RoomManager.ensure] at hmembers
    simp only [plainExec, exec, ensureLoaded_memory, hmembers]
    rfl
  | onJoin r u =>
    simp only [plainExec, exec, ensureLoaded_memory]
    rfl
  | onLeave r u => rfl
  | repo o => cases o <;> rfl
  | _ => rfl

theorem Aligned.settled {t' : Roll} (hw : Aligned w t) (ht : t.Settled) (ht' : t'.Settled)
    (hknown : ∀ r ∈ t'.known, (w.store.rooms.lookup r).isSome) : Aligned w t' where
  rooms := hw.rooms
  known := hknown
  agree r hr u := by
    simpa [show t.due = .rest from ht] using (hw.agree r hr u).imp_right fun h => h.elim
  joined r u h := by simp [show t'.due = .rest from ht'] at h
  refused r u h := by simp [show t'.due = .rest from ht'] at h
  left r u h := by simp [show t'.due = .rest from ht'] at h

theorem Roll.updates_of_due {r : o.Ret} (h : (t.after o r).due ≠ .rest) :
    o.updatesMembers = true := by
  unfold Roll.after at h
  split at h <;> first | rfl | exact absurd rfl h

end Answers

structure Paired (g : Sys) (v : World) (ts : Nat → Roll) : Prop where
  plain : v = g.hist.state.withoutCache
  known : ∀ n, ∀ r ∈ (ts n).known, (g.hist.state.store.rooms.lookup r).isSome
  owing : ∀ n, (ts n).due ≠ .rest → ∃ e, g.hist.log.getLast? = some e ∧ e.task = n ∧
    e.op.updatesMembers = true
  aligned : ∀ n, (∀ m, m ≠ n → (ts m).due = .rest) → Aligned g.hist.state (ts n)

namespace Paired

variable {env : Env} {g : Sys} {v : World} {ts : Nat → Roll} {i : Nat} {j : Input}

theorem init : Paired Sys.start World.init fun _ => .empty where
  plain := rfl
  known _ _ h := absurd h (Set.notMem_empty _)
  owing _ h := absurd rfl h
  aligned _ _ := aligned_init

theorem others_settled (h : Paired g v ts) (hok : updatesPaired g (.advance i) = true)
    {n : Nat} (hn : n ≠ i) : (ts n).Settled := by
  by_contra hdue
  obtain ⟨e, he, rfl, hupdates⟩ := h.owing n hdue
  simp only [updatesPaired, he, hupdates, Bool.not_true, Bool.false_or, decide_eq_true_eq] at hok
  exact hn hok

theorem start (h : Paired g v ts) (hok : updatesPaired g (.start i j) = true) (x : ServerM Unit) :
    Paired { g with tasks := Function.update g.tasks i (.busy j x) } v
      (Function.update ts i .empty) := by
  have hsettled (n : Nat) : (ts n).Settled := by
    by_contra hdue
    obtain ⟨e, he, -, hupdates⟩ := h.owing n hdue
    simp [updatesPaired, he, hupdates] at hok
  have haligned (n : Nat) : Aligned g.hist.state (ts n) := h.aligned n fun m _ => hsettled m
  refine ⟨h.plain, ?_, ?_, ?_⟩
  · intro n r hr
    by_cases hni : n = i
    · subst hni
      rw [Function.update_self] at hr
      exact absurd hr (Set.notMem_empty r)
    · rw [Function.update_of_ne hni] at hr
      exact h.known n r hr
  · intro n hn
    by_cases hni : n = i
    · subst hni
      rw [Function.update_self] at hn
      exact absurd rfl hn
    · rw [Function.update_of_ne hni] at hn
      exact absurd (hsettled n) hn
  · intro n _
    by_cases hni : n = i
    · subst hni
      rw [Function.update_self]
      exact (haligned n).fresh (hsettled n)
    · rw [Function.update_of_ne hni]
      exact haligned n

theorem op (h : Paired g v ts) (hok : updatesPaired g (.advance i) = true) {o : Op}
    (k : o.Ret → ServerM Unit) (ha : (ts i).allows o) :
    (plainExec env o v).1 = (memExec env o g.hist.state).1 ∧
      Paired (g.perform (memExec env) i j o k) (plainExec env o v).2
        (Function.update ts i ((ts i).after o (memExec env o g.hist.state).1)) := by
  have hw := h.aligned i fun m hm => h.others_settled hok hm
  have hplain : plainExec env o v = _ := h.plain ▸ hw.plain ha
  have hw' : Aligned (memExec env o g.hist.state).2 _ := hw.op ha
  have hknown (n : Nat) (r : Nat) (hr : r ∈ (ts n).known) :
      ((memExec env o g.hist.state).2.store.rooms.lookup r).isSome :=
        memExec_room_isSome (h.known n r hr)
  rw [hplain]
  refine ⟨rfl, rfl, ?_, ?_, ?_⟩
  · intro n r hr
    by_cases hni : n = i
    · subst hni
      rw [Function.update_self] at hr
      exact hw'.known r hr
    · rw [Function.update_of_ne hni] at hr
      exact hknown n r hr
  · intro n hn
    by_cases hni : n = i
    · subst hni
      rw [Function.update_self] at hn
      exact ⟨_, List.getLast?_concat .., rfl, Roll.updates_of_due hn⟩
    · rw [Function.update_of_ne hni] at hn
      exact absurd (h.others_settled hok hni) hn
  · intro n hothers
    by_cases hni : n = i
    · subst hni
      rw [Function.update_self]
      exact hw'
    · have hi := hothers i (Ne.symm hni)
      rw [Function.update_self] at hi
      rw [Function.update_of_ne hni]
      exact hw'.settled hi (h.others_settled hok hni) (hknown n)

end Paired

theorem room_cache_transparent {env : Env} {g : Sys}
    (hg : Reachable env (fun g m => updatesPaired g m = true) g) :
    ∃ g' : Sys, Config.Reach (plainExec env) (body env) (fun _ _ => True) Sys.start g' ∧
      g.Alike g' ∧
      g'.hist.state = g.hist.state.withoutCache := by
  have hbody (input : Input) : (body env input).Follows rolls .empty (fun _ t => t.Settled)
      Roll.Settled :=
    body_rolls env input _ rfl
  have hsim : ∃ g' : Sys, Config.Reach (plainExec env) (body env) (fun _ _ => True) Sys.start g' ∧
    g.Alike g' ∧
      ∃ ts, Paired g g'.hist.state ts := by
    have hidle : Config.Tracked (fun _ : Input => rolls) Roll.Settled Sys.start fun _ => .empty :=
      fun _ => rfl
    refine Config.Reach.lockstep Paired (fun _ => .empty) (fun _ => .empty) hidle
      Paired.init hbody ?_ ?_ hg
    · intro g v ts i j h hok _
      exact h.start hok _
    · intro g v ts i j o k h hok _ ha
      exact (h.op hok k ha).imp_right fun hop => ⟨_, rfl, hop⟩
  obtain ⟨g', hreach, halike, ts, hpaired⟩ := hsim
  exact ⟨g', hreach, halike, hpaired.plain⟩

def pairedRun : List (Move Input) :=
  clubMade ++ begin 5 (ask 1 (joinRoomReq 1)) 1 ++ begin 6 (ask 2 (leaveRoomReq 1)) 1 ++
  [.advance 5, .advance 5, .advance 6, .advance 6, .advance 5, .advance 6]

theorem room_cache_transparent_pairedRun :
    ∃ g, Reachable clubEnv (fun g m => updatesPaired g m = true) g ∧ 1 ∈ g.hist.state.rooms.loaded ∧
      ∃ g' : Sys, Config.Reach (plainExec clubEnv) (body clubEnv) (fun _ _ => True) Sys.start g' ∧
      g.Alike g' ∧
        g'.hist.state = g.hist.state.withoutCache := by
  have hrun : (Sys.start.steps (memExec clubEnv) (body clubEnv) updatesPaired pairedRun).map
      (fun g => (1 ∈ g.hist.state.rooms.loaded : Bool)) = some true := by decide +kernel
  obtain ⟨g, hreach, hload⟩ := Config.Reach.of_steps (fun _ _ h => h) hrun
  exact ⟨g, hreach, of_decide_eq_true hload, room_cache_transparent hreach⟩

end ChatServer
