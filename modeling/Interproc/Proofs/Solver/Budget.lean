import Interproc.Proofs.Solver.Mirror
import Interproc.Proofs.Solver.Returns
import Mathlib.Algebra.Group.Nat.Defs

namespace Interproc

open Solver

variable {N M D C S E : Type}

namespace Solver.State

variable [Ord N] [Ord M]

def bare (s : State N M D C S E) : State N M D C S E :=
  { s with finished := false, trail := s.trail.filter (fun e => !e.closing) }

def mark (i : Nat) (seeded finished : Bool) (s : State N M D C S E) : State N M D C S E :=
  { s with statistics := { s.statistics with iterations := i }, seeded := seeded,
           finished := finished }

variable [Std.TransOrd N] [Std.TransOrd M]

theorem running_bare : Mirror.Running (bare : State N M D C S E → State N M D C S E) id where
  entriesAt _ _ := by simp [bare, State.entriesAt]
  callsInto _ _ := by simp [bare, State.callsInto]
  client _ := rfl
  setEntries _ _ _ := by simp [bare]
  setCalls _ _ _ := by simp [bare]
  setClient _ _ := rfl
  queue _ _ _ := rfl
  emit s e he _ := by simp [bare, State.emit, he]
  count _ _ _ := rfl
  worklist _ := by simp [bare]
  setWorklist _ _ := by simp [bare]
  countAll _ _ := rfl

theorem mirror_mark (i : Nat) (seeded finished : Bool) :
    Mirror (mark i seeded finished : State N M D C S E → State N M D C S E) id where
  entriesAt _ _ := by simp [mark, State.entriesAt]
  callsInto _ _ := by simp [mark, State.callsInto]
  client _ := rfl
  setEntries _ _ _ := by simp [mark]
  setCalls _ _ _ := by simp [mark]
  setClient _ _ := rfl
  queue _ _ _ := rfl
  emit _ _ _ _ := by simp [mark, State.emit]
  count s _ hf := congrArg
    (fun x => { s with statistics := x, seeded := seeded, finished := finished }) (hf s.statistics i)

end Solver.State

namespace Analysis

section Run

variable [Ord N] [Std.TransOrd N] [DecidableEq N] [Ord M] [Std.TransOrd M]
variable {a : Analysis N M D C S E} {s t : State N M D C S E}

theorem step_marks {n : N} {c : C} {ended : Bool} (h : a.step n c s = (t, ended)) :
    t.statistics.iterations = s.statistics.iterations + 1 ∧ t.seeded = s.seeded ∧
      t.finished = s.finished := by
  simp only [step] at h
  split at h
  · rename_i c' d _
    let s' := s.count (fun t => { t with iterations := t.iterations + 1 })
    have hmark := visit_mirror (a := a) (i := a.limits.maxIterations) (s := s') (n := n) (c := c')
      (d := d) (.refl a.contexts) (State.mirror_mark s'.statistics.iterations s'.seeded s'.finished)
      (fun _ _ => callsAlike_of_enter (fun _ _ _ _ => rfl) rfl (fun _ _ _ _ => rfl) n d)
    have ht : t = t.mark s'.statistics.iterations s'.seeded s'.finished :=
      congrArg Prod.fst (h.symm.trans (hmark.trans (by rw [h])))
    rw [ht]
    exact ⟨rfl, rfl, rfl⟩
  · exact (Prod.mk.inj h).1 ▸ ⟨rfl, rfl, rfl⟩

theorem run_bare (k : Nat) (s : State N M D C S E) :
    a.run k s.bare = ((a.run k s).1.bare, (a.run k s).2) :=
  run_mirror (i := a.limits.maxIterations) (.refl a.contexts) State.running_bare k
    (fun n _ d _ _ _ => callsAlike_of_enter (fun _ _ _ _ => rfl) rfl (fun _ _ _ _ => rfl) n d)

theorem run_of_empty (h : s.worklist = []) (k : Nat) : a.run k s = (s, .drained) := by
  cases k <;> simp [run, h]

theorem run_add (i j : Nat) (s : State N M D C S E) : a.run (i + j) s =
    match a.run i s with
    | (t, .failed) => (t, .failed)
    | (t, _) => a.run j t := by
  induction i generalizing s with
  | zero =>
      rw [Nat.zero_add]
      cases hw : s.worklist with
      | nil => simp [run, hw]
      | cons w ws => simp [run, hw]
  | succ i ih =>
      rw [Nat.succ_add]
      cases hw : s.worklist with
      | nil => simp only [run_of_empty hw]
      | cons w rest =>
          simp only [run, hw]
          obtain ⟨u, ended⟩ := a.step w.1 w.2 { s with worklist := rest }
          cases ended with
          | true => exact ih u
          | false => rfl

theorem run_drained {k : Nat} (h : a.run k s = (t, .drained)) : t.worklist = [] := by
  induction k generalizing s with
  | zero =>
      obtain ⟨rfl, hend⟩ := Prod.mk.inj h
      by_contra hw
      simp [List.isEmpty_iff, hw] at hend
  | succ k ih =>
      cases hw : s.worklist with
      | nil =>
          rw [run_of_empty hw] at h
          exact (Prod.mk.inj h).1 ▸ hw
      | cons w rest =>
          simp only [run, hw] at h
          split at h
          · exact ih h
          · simp at h

theorem run_flags {k : Nat} {e : Ending} (h : a.run k s = (t, e)) :
    t.seeded = s.seeded ∧ t.finished = s.finished := by
  induction k generalizing s with
  | zero => exact (Prod.mk.inj h).1 ▸ ⟨rfl, rfl⟩
  | succ k ih =>
      cases hw : s.worklist with
      | nil => exact (Prod.mk.inj ((run_of_empty hw _).symm.trans h)).1 ▸ ⟨rfl, rfl⟩
      | cons w rest =>
          simp only [run, hw] at h
          split at h
          · rename_i u hu
            obtain ⟨_, hseeded, hfinished⟩ := step_marks hu
            exact ⟨(ih h).1.trans hseeded, (ih h).2.trans hfinished⟩
          · rename_i u hu
            exact (Prod.mk.inj h).1 ▸ (step_marks hu).2

theorem run_paused {k : Nat} (h : a.run k s = (t, .paused)) :
    t.statistics.iterations = s.statistics.iterations + k := by
  induction k generalizing s with
  | zero => exact (Prod.mk.inj h).1 ▸ rfl
  | succ k ih =>
      cases hw : s.worklist with
      | nil => simp [run_of_empty hw] at h
      | cons w rest =>
          simp only [run, hw] at h
          split at h
          · rename_i u hu
            have hcount : u.statistics.iterations = s.statistics.iterations + 1 := (step_marks hu).1
            rw [ih h, hcount]
            omega
          · simp at h

theorem run_span {k : Nat} (h : a.run k s = (t, .drained)) : ∃ n ≤ k,
    t.statistics.iterations = s.statistics.iterations + n ∧ a.run n s = (t, .drained) ∧
      ∀ i < n, (a.run i s).2 = .paused := by
  induction k generalizing s with
  | zero => exact ⟨0, Nat.le_refl 0, (Prod.mk.inj h).1 ▸ rfl, h, by simp⟩
  | succ k ih =>
      cases hw : s.worklist with
      | nil =>
          rw [run_of_empty hw] at h
          obtain ⟨rfl, _⟩ := Prod.mk.inj h
          exact ⟨0, Nat.zero_le _, rfl, run_of_empty hw 0, by simp⟩
      | cons w rest =>
          simp only [run, hw] at h
          split at h
          · rename_i u hu
            have hstep : u.statistics.iterations = s.statistics.iterations + 1 := (step_marks hu).1
            obtain ⟨n, hn, hcount, hrun, hpaused⟩ := ih h
            refine ⟨n + 1, Nat.succ_le_succ hn, by omega, ?_, fun i hi => ?_⟩
            · simp only [run, hw, hu, hrun]
            · cases i with
              | zero => simp [run, hw]
              | succ i =>
                  simp only [run, hw, hu]
                  exact hpaused i (by omega)
          · simp at h

end Run

section Seed

variable [Ord N] [Std.TransOrd N] [Ord M] [Std.TransOrd M] {a : Analysis N M D C S E}

theorem seed_marks (x : S) : (a.seed (.initial x)).statistics.iterations = 0 ∧
    (a.seed (.initial x)).seeded = true ∧ (a.seed (.initial x)).finished = false := by
  have hmark : ∀ t : State N M D C S E, ∀ y : N × D, t = t.mark 0 true false →
      a.joinInto y.1 a.initial y.2 t = (a.joinInto y.1 a.initial y.2 t).mark 0 true false := by
    intro t y ht
    have hjoin : a.joinInto y.1 a.initial y.2 (t.mark 0 true false) =
        (a.joinInto y.1 a.initial y.2 t).mark 0 true false :=
      joinInto_mirror (i := a.limits.maxIterations) (.refl a.contexts) (State.mirror_mark 0 true false)
    rwa [← ht] at hjoin
  have h : a.seed (.initial x) = (a.seed (.initial x)).mark 0 true false :=
    List.foldlRecOn (motive := fun t : State N M D C S E => t = t.mark 0 true false) _ _ rfl
      (fun t ht y _ => hmark t y ht)
  rw [h]
  exact ⟨rfl, rfl, rfl⟩

theorem seed_bare (x : S) : (a.seed (.initial x)).bare = a.seed (.initial x) :=
  (List.foldl_hom State.bare (fun _ _ => joinInto_mirror (i := a.limits.maxIterations)
    (.refl a.contexts) State.running_bare.toMirror)).symm

end Seed

section Budgeted

variable (a : Analysis N M D C S E) (b : Nat)

def budgeted : Analysis N M D C S E :=
  { a with limits := { a.limits with maxIterations := some b } }

variable [Ord N] [Ord M] [Std.TransOrd N] [Std.TransOrd M]

theorem seed_budgeted (s : State N M D C S E) : (a.budgeted b).seed s = a.seed s :=
  seed_mirror (i := some b) (.refl a.contexts) State.whole_id

theorem run_budgeted [DecidableEq N] (k : Nat) (s : State N M D C S E) :
    (a.budgeted b).run k s = a.run k s :=
  run_mirror (i := some b) (.refl a.contexts) State.whole_id.toRunning k
    (fun n _ d _ _ _ => callsAlike_of_enter (fun _ _ _ _ => rfl) rfl (fun _ _ _ _ => rfl) n d)

end Budgeted

section Parts

variable [Ord N] [Std.TransOrd N] [DecidableEq N] [Ord M] [Std.TransOrd M]
variable (a : Analysis N M D C S E)

def solves (fuel : Nat) : Nat → State N M D C S E → State N M D C S E × Option Fault
  | 0, s => (s, none)
  | k + 1, s =>
      match solves fuel k s with
      | (t, none) => a.solve fuel t
      | failed => failed

theorem solves_mirror {C' : Type} {k' : ContextKind N D C'} {f : C → C'}
    {φ : State N M D C S E → State N M D C' S E} (hk : a.contexts.Mirrors k' f)
    (hφ : State.Mirror.Whole φ f) (fuel j : Nat) {s : State N M D C S E}
    (h : a.TakesAlike k' f φ (a.solves fuel j s).1) :
    (a.mirror k' f a.limits.maxIterations).solves fuel j (φ s) =
      (φ (a.solves fuel j s).1, (a.solves fuel j s).2) := by
  induction j with
  | zero => rfl
  | succ j ih =>
      rw [solves] at h ⊢
      cases hj : a.solves fuel j s with
      | mk t fault =>
          rw [hj] at ih
          cases fault with
          | none =>
              simp only [solves, hj] at h ⊢
              rw [ih (h.before (trail_solve fuel t))]
              exact solve_mirror hk hφ fuel h
          | some fault =>
              simp only [solves, hj] at h ⊢
              rw [ih h]

def after (x : S) (n : Nat) : State N M D C S E := (a.run n (a.seed (.initial x))).1

structure Spans (x : S) (T : Nat) : Prop where
  paused : ∀ n < T, (a.run n (a.seed (.initial x))).2 = .paused
  drained : (a.run T (a.seed (.initial x))).2 = .drained
  counted : (a.after x T).statistics.iterations = T

variable {a} {s r u : State N M D C S E} {x : S} {T n b fuel : Nat}

theorem after_bare : (a.after x n).bare = a.after x n := by
  have h := run_bare (a := a) n (a.seed (.initial x))
  rw [seed_bare] at h
  exact (congrArg Prod.fst h).symm

theorem spans_of_solve (ha : a.limits.maxIterations = none)
    (hu : a.solve fuel (.initial x) = (u, none)) (hfinished : u.finished = true) :
    a.Spans x u.statistics.iterations ∧ u.bare = a.after x u.statistics.iterations := by
  have hfresh : (State.initial x : State N M D C S E).seeded = false := rfl
  simp only [solve, hfresh, Bool.false_eq_true, if_false, outgrows, ha, Option.any_none,
    Option.getD_none, Option.isSome_none] at hu
  split at hu
  · rename_i v hv
    obtain ⟨n, _, hcount, hrun, hpaused⟩ := run_span hv
    obtain ⟨rfl, _⟩ := Prod.mk.inj hu
    have hcount : v.statistics.iterations = n := by rw [hcount, (seed_marks x).1, Nat.zero_add]
    have hafter : a.after x n = v := congrArg Prod.fst hrun
    have hbare : ({ v with finished := true }.emit (.drained v.statistics)).bare = v.bare := rfl
    refine ⟨⟨?_, ?_, ?_⟩, ?_⟩ <;> simp only [State.emit, hcount]
    · exact hpaused
    · rw [hrun]
    · rw [hafter, hcount]
    · exact hbare.trans ((congrArg State.bare hafter.symm).trans after_bare)
  · rename_i v hv
    obtain ⟨rfl, _⟩ := Prod.mk.inj hu
    rw [(run_flags hv).2, (seed_marks x).2.2] at hfinished
    exact absurd hfinished Bool.false_ne_true
  · simp at hu

namespace Spans

theorem run (h : a.Spans x T) (k : Nat) : a.run k (a.seed (.initial x)) =
    (a.after x (min k T), if T ≤ k then .drained else .paused) := by
  by_cases hk : T ≤ k
  · obtain ⟨j, rfl⟩ := Nat.exists_eq_add_of_le hk
    have hT : a.run T (a.seed (.initial x)) = (a.after x T, .drained) := Prod.ext rfl h.drained
    rw [run_add, hT, Nat.min_eq_right hk, if_pos hk]
    exact run_of_empty (run_drained hT) j
  · rw [Nat.min_eq_left (by omega), if_neg hk]
    exact Prod.ext rfl (h.paused k (by omega))

theorem iterations (h : a.Spans x T) (hn : n ≤ T) : (a.after x n).statistics.iterations = n := by
  rcases Nat.lt_or_eq_of_le hn with hlt | rfl
  · have hrun : a.run n (a.seed (.initial x)) = (a.after x n, .paused) :=
      Prod.ext rfl (h.paused n hlt)
    rw [run_paused hrun, (seed_marks x).1, Nat.zero_add]
  · exact h.counted

theorem resume (h : a.Spans x T) (hn : n ≤ T) (hr : r.bare = a.after x n) :
    (a.run b r).1.bare = a.after x (min (n + b) T) ∧
      (a.run b r).2 = if T ≤ n + b then .drained else .paused := by
  have hwhole := h.run (n + b)
  have hpart : a.run (n + b) (a.seed (.initial x)) = a.run b (a.after x n) := by
    rw [run_add, h.run n, Nat.min_eq_left hn]
    split
    · rename_i hend
      split at hend <;> simp at hend
    · rename_i hend
      rw [(Prod.mk.inj hend).1]
  rw [hpart, ← hr, run_bare] at hwhole
  exact Prod.mk.inj hwhole

theorem outgrows (h : a.Spans x T) (hn : n ≤ T) (hr : r.bare = a.after x n) :
    (a.budgeted b).outgrows r = decide (2 ^ 64 ≤ n + b) := by
  have hcount : r.statistics.iterations = n := by
    rw [← h.iterations hn, ← hr]
    rfl
  simp [Analysis.outgrows, budgeted, hcount]

theorem solve {k : Nat} (h : a.Spans x T) (hn : n ≤ T)
    (hr : (if s.seeded then s else a.seed s).bare = a.after x n)
    (hfinished : s.finished = true → n = T) (hword : n + b < 2 ^ 64) :
    ∃ t, (a.budgeted b).solve k s = (t, none) ∧ t.bare = a.after x (min (n + b) T) ∧
      (t.finished = true ↔ min (n + b) T = T) := by
  have hflags : (if s.seeded then s else a.seed s).finished = s.finished := by
    split
    · rfl
    · exact seed_flags.2
  simp only [Analysis.solve, seed_budgeted, run_budgeted]
  generalize (if s.seeded then s else a.seed s) = r at hr hflags ⊢
  obtain ⟨hbare, hend⟩ := h.resume (b := b) hn hr
  have hroom : ¬ 2 ^ 64 ≤ n + b := Nat.not_le.mpr hword
  have hlimit : (a.budgeted b).limits.maxIterations = some b := rfl
  simp only [h.outgrows hn hr, hroom, decide_false, Bool.false_eq_true, if_false, hlimit,
    Option.getD_some, Option.isSome_some, if_true]
  cases hrun : a.run b r with
  | mk v e =>
      rw [hrun] at hbare hend
      subst hend
      -- the call drains exactly if it has the visits that are left to the run
      by_cases hlast : T ≤ n + b
      · simp only [if_pos hlast]
        exact ⟨_, rfl, hbare, by simp [State.emit, hlast]⟩
      · simp only [if_neg hlast]
        refine ⟨_, rfl, hbare, ?_⟩
        have hv : v.finished = s.finished := (run_flags hrun).2.trans hflags
        have hmin : min (n + b) T ≠ T := by omega
        refine iff_of_false (fun hdone => ?_) hmin
        have := hfinished (hv.symm.trans hdone)
        omega

theorem seeded (h : a.Spans x T) (hn : n ≤ T) (hr : r.bare = a.after x n) : r.seeded = true := by
  have hrun := h.run n
  rw [Nat.min_eq_left hn] at hrun
  exact (congrArg State.seeded hr).trans ((run_flags hrun).1.trans (seed_marks x).2.1)

theorem solve_fails (h : a.Spans x T) (hn : n ≤ T) (hr : r.bare = a.after x n)
    (hword : 2 ^ 64 ≤ n + b) : (a.budgeted b).solve fuel r = (r, some .overflow) := by
  have hover : (a.budgeted b).outgrows r = true := (h.outgrows hn hr).trans (decide_eq_true hword)
  simp only [Analysis.solve, h.seeded hn hr, hover, if_true]

theorem solve_again (h : a.Spans x T) (hr : r.bare = a.after x T) (hfinished : r.finished = true)
    (hword : T + b < 2 ^ 64) :
    (a.budgeted b).solve fuel r = (r.emit (.drained r.statistics), none) := by
  have hT : a.run T (a.seed (.initial x)) = (a.after x T, .drained) := Prod.ext rfl h.drained
  have hwork : r.worklist = [] := (congrArg State.worklist hr).trans (run_drained hT)
  have hdone : { r with finished := true } = r := by rw [← hfinished]
  have hroom : (a.budgeted b).outgrows r = false := by
    rw [h.outgrows (Nat.le_refl T) hr]
    exact decide_eq_false (Nat.not_le.mpr hword)
  rw [Analysis.solve, if_pos (h.seeded (Nat.le_refl T) hr)]
  simp only [hroom, Bool.false_eq_true, if_false, run_of_empty hwork, hdone]

theorem solves {k : Nat} (h : a.Spans x T) (j : Nat) (hword : min (j * b) T + b < 2 ^ 64) :
    ∃ t, (a.budgeted b).solves k (j + 1) (.initial x) = (t, none) ∧
      t.bare = a.after x (min ((j + 1) * b) T) ∧
      (t.finished = true ↔ min ((j + 1) * b) T = T) := by
  induction j with
  | zero =>
      have hfirst := h.solve (b := b) (k := k) (s := .initial x) (Nat.zero_le T) (seed_bare x)
        (fun hdone => absurd hdone Bool.false_ne_true) (by omega)
      simpa [Analysis.solves] using hfirst
  | succ j ih =>
      have hmore : (j + 1) * b = j * b + b := Nat.succ_mul ..
      have hnext : min ((j + 1 + 1) * b) T = min (min ((j + 1) * b) T + b) T := by
        rw [Nat.succ_mul (j + 1)]
        omega
      obtain ⟨s, hs, hbare, hfinished⟩ := ih (by omega)
      have hn : min ((j + 1) * b) T ≤ T := Nat.min_le_right ..
      have hgo := h.solve (k := k) hn (by rwa [if_pos (h.seeded hn hbare)]) hfinished.mp hword
      rw [Analysis.solves, hs, hnext]
      exact hgo

end Spans

/-- Calls of `solve` with the limit `b` go through the states of the run that one call without a limit
makes, as long as the count at which a call would pause is a word. A call for which it is none fails
and leaves the state as it was. -/
theorem solve_in_parts (ha : a.limits.maxIterations = none)
    (hu : a.solve fuel (.initial x) = (u, none)) (hfinished : u.finished = true)
    (hT : u.statistics.iterations = T) :
    (∀ n ≤ T, (a.after x n).statistics.iterations = n) ∧ u.bare = a.after x T ∧
    ∀ b j fuel', min (j * b) T + b < 2 ^ 64 →
      ∃ t, (a.budgeted b).solves fuel' (j + 1) (.initial x) = (t, none) ∧
        t.bare = a.after x (min ((j + 1) * b) T) ∧
        (t.finished = true ↔ min ((j + 1) * b) T = T) ∧
        (t.finished = true → T + b < 2 ^ 64 →
          (a.budgeted b).solve fuel' t = (t.emit (.drained t.statistics), none)) ∧
        (2 ^ 64 ≤ min ((j + 1) * b) T + b →
          (a.budgeted b).solves fuel' (j + 2) (.initial x) = (t, some .overflow)) := by
  subst hT
  obtain ⟨hspans, hend⟩ := spans_of_solve ha hu hfinished
  refine ⟨fun n hn => hspans.iterations hn, hend, fun b j fuel' hword => ?_⟩
  obtain ⟨t, ht, hbare, hdone⟩ := hspans.solves (k := fuel') j hword
  refine ⟨t, ht, hbare, hdone, fun hfinished hword => ?_, fun hword => ?_⟩
  · have hlast : t.bare = a.after x _ := hbare.trans (congrArg _ (hdone.mp hfinished))
    exact hspans.solve_again hlast hfinished hword
  · rw [Analysis.solves, ht]
    exact hspans.solve_fails (Nat.min_le_right ..) hbare hword

end Parts

end Analysis

namespace Graph

theorem lateCall_in_parts : lateCallAnalysis.limits.maxIterations = none ∧
    lateCallAnalysis.solve 30 (.initial ()) = (lateCallState, none) ∧
    lateCallState.finished = true ∧ lateCallState.statistics.iterations = 18 ∧
    ∃ t, (lateCallAnalysis.budgeted 8).solves 0 3 (.initial ()) = (t, none) ∧
      t.bare = lateCallAnalysis.after () 18 ∧ t.finished = true := by
  have hsolve : lateCallAnalysis.solve 30 (.initial ()) = (lateCallState, none) :=
    Prod.ext rfl (by decide +kernel)
  have hT : lateCallState.statistics.iterations = 18 := by decide +kernel
  obtain ⟨_, _, hparts⟩ := Analysis.solve_in_parts rfl hsolve lateCall_solved.2 hT
  obtain ⟨t, ht, hbare, hdone, _⟩ := hparts 8 2 0 (by decide)
  exact ⟨rfl, hsolve, lateCall_solved.2, hT, t, ht, hbare, hdone.mpr rfl⟩

theorem lateCall_resume_fails : lateCallAnalysis.limits.maxIterations = none ∧
    lateCallState.finished = true ∧
    ((lateCallAnalysis.budgeted (2 ^ 64 - 1)).solves 0 1 (.initial ())).1.finished = true ∧
    ((lateCallAnalysis.budgeted (2 ^ 64 - 1)).solves 0 2 (.initial ())).2 = some .overflow := by
  decide +kernel

end Graph

end Interproc
