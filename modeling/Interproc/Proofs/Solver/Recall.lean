import Interproc.Proofs.Solver.Reach
import Interproc.Proofs.Solver.Termination

namespace Interproc

open Solver

variable {N M D C S E : Type}

namespace Analysis

section Definitions

variable (a : Analysis N M D C S E)

def reached : Set N := ⋂₀ {X | a.graph.Closed {n | ∃ d, (n, d) ∈ a.problem.seeds} X}

def Rests (n : N) : Prop := Acc (fun n' n => a.Recalls n n') n

end Definitions

variable {a : Analysis N M D C S E}

theorem reached_closed : a.graph.Closed {n | ∃ d, (n, d) ∈ a.problem.seeds} a.reached where
  seeded := Set.subset_sInter (fun _ hX => hX.seeded)
  onward n hn := by
    have honward : ∀ X, a.graph.Closed {n | ∃ d, (n, d) ∈ a.problem.seeds} X → a.graph.Onward X n :=
      fun X hX => hX.onward n (hn X hX)
    refine ⟨fun hcall hexit n' hn' X hX => ?_, fun hcall n' hn' X hX => ?_,
      fun hcall m hm entry hentry X hX => ?_⟩
    · exact (honward X hX).pass hcall hexit n' hn'
    · exact (honward X hX).bypass hcall n' hn'
    · exact (honward X hX).enter hcall m hm entry hentry

theorem exists_recalls_of_not_rests {n : N} (h : ¬ a.Rests n) :
    ∃ n', a.Recalls n n' ∧ ¬ a.Rests n' := by
  refine Classical.byContradiction (fun hnone => h ⟨n, fun n' hn' => ?_⟩)
  exact Classical.byContradiction (fun hn => hnone ⟨n', hn', hn⟩)

theorem not_rests_of_recalls_self {n : N} (h : a.Recalls n n) : ¬ a.Rests n := by
  intro hrests
  induction hrests with
  | intro n _ ih => exact ih n h h

variable [Ord N] [Ord M] {s t : State N M D C S E} {x : S} {n : N} {c : C} {d : D}

variable [Std.TransOrd N] [Std.LawfulEqOrd N] [DecidableEq N] [Std.TransOrd M]

section Queues

theorem enterAt_queues {m : M} {entry : N} (hm : a.problem.recompute m = true) :
    ∃ c', (entry, c') ∈ (a.enterAt n c m d s entry).worklist := by
  have hrequeued : ∀ (c' : C) (isNew : Bool) (t : State N M D C S E) {w},
      w ∈ t.worklist → w ∈ (if isNew then a.requeueExits m c' t else t).worklist := by
    intro c' isNew t w hw
    split
    · exact (Moves.extends (n := n) (c := c) (d := d) (requeueExits_moves m c')).queued hw
    · exact hw
  simp only [enterAt, hm, Bool.and_true]
  generalize a.adopt n entry _ _ = p
  refine ⟨p.1, hrequeued _ _ _ ?_⟩
  generalize (a.recordCall ⟨n, entry, c, p.1⟩ p.2).2 = u
  split
  · exact List.mem_append_right _ (List.mem_singleton.mpr rfl)
  · -- a context that is new at the entry waits for its first visit
    rename_i hnew
    rcases joinInto_cases a entry p.1 d u with ⟨_, he, _⟩ | ⟨_, he, _⟩ | ⟨_, hupdates⟩
    · exact absurd (by simp [he]) hnew
    · exact absurd (by simp [he]) hnew
    · rw [hupdates.worklist]
      exact List.mem_append_right _ (List.mem_singleton.mpr rfl)

theorem visit_queues (hend : (a.visit n c d s).2 = true) {n' : N} (h : a.Recalls n n') :
    ∃ c', (n', c') ∈ (a.visit n c d s).1.worklist := by
  obtain ⟨hcall, m, hm, hrecompute, hentry⟩ := h
  have hnode := hasNode_of_visit hend
  simp only [visit, hnode, hcall, Bool.not_true, Bool.false_eq_true, if_false, if_true] at hend ⊢
  exact visitCall_enters (P := fun m entry t => a.problem.recompute m = true →
      ∃ c', (entry, c') ∈ State.worklist t) hcall hend (fun _ _ _ _ _ => enterAt_queues)
    (fun hmoves h hm => (h hm).imp (fun _ => (Moves.extends hmoves).queued)) m hm n' hentry hrecompute

end Queues

section Restless

variable (a) in
def Restless (s : State N M D C S E) : Prop :=
  (∃ n ∈ s.nodes, ¬ a.Rests n) → ∃ w ∈ s.worklist, ¬ a.Rests w.1

theorem Restless.step (hrefl : ∀ c, a.contexts.same c c = true) (h : a.Restless s)
    (hs : Spread a.graph s) {rest : List (N × C)} (hw : s.worklist = (n, c) :: rest)
    (hstep : a.step n c { s with worklist := rest } = (t, true)) : a.Restless t := by
  obtain ⟨e, he⟩ : ∃ e, a.lookup s n c = some e := by
    obtain ⟨d, hd⟩ := hs.queued (w := (n, c)) (by simp [hw])
    exact findIn_isSome_of_mem (a := a) hd (hrefl c)
  let s' := { s with worklist := rest }.count (fun t => { t with iterations := t.iterations + 1 })
  have hvisit : a.visit n e.1 e.2 s' = (t, true) := by
    have hlookup : a.lookup s' n c = some e := he
    rw [← hstep]
    simp only [Analysis.step, s', hlookup]
  have hext : Extends s' (a.visit n e.1 e.2 s').1 := Moves.extends (visit_moves ..)
  rw [hvisit] at hext
  rintro ⟨m, hm, hrests⟩
  by_cases hold : ∃ n ∈ s.nodes, ¬ a.Rests n
  · obtain ⟨w, hmem, hnot⟩ := h hold
    rw [hw, List.mem_cons] at hmem
    rcases hmem with rfl | hmem
    · -- the visit passes the wait on to the next node of the chain
      obtain ⟨n', hn', hnot'⟩ := exists_recalls_of_not_rests hnot
      obtain ⟨c', hc'⟩ := visit_queues (by rw [hvisit]) hn'
      rw [hvisit] at hc'
      exact ⟨(n', c'), hc', hnot'⟩
    · exact ⟨w, hext.queued hmem, hnot⟩
  · rcases hext.fresh hm with hm | ⟨c', hc'⟩
    · exact absurd ⟨m, hm, hrests⟩ hold
    · exact ⟨(m, c'), hc', hrests⟩

variable [a.contexts.Lawful]

theorem ReachesFrom.restless (hp : a.problem.Ordered) (h : a.ReachesFrom x s) : a.Restless s := by
  have hrefl : ∀ c, a.contexts.same c c = true := ContextKind.Lawful.same_refl
  induction h with
  | refl =>
      rintro ⟨n, ⟨c, d, hd⟩, hn⟩
      exact ⟨(n, c), (seed_tabled hp x).2.1 n (c, d) hd, hn⟩
  | tail hreach hstep ih =>
      cases hstep with
      | quiet halike =>
          rw [Restless, State.nodes_congr halike.table, halike.worklist]
          exact ih
      | step hw hstep =>
          exact ih.step hrefl ((ReachesFrom.shifting hreach).spread hrefl).2 hw hstep

variable [Std.LawfulEqOrd M] [DecidableEq M]

theorem Solved.rests (hp : a.problem.Ordered) (h : a.Solved s) (hs : s.finished = true) :
    ∀ n ∈ a.reached, a.Rests n := by
  obtain ⟨⟨x, hreach⟩, hdone⟩ := h.reaches hs
  have hleast := (ReachesFrom.shifting hreach).nodes_isLeast ContextKind.Lawful.same_refl hdone
  intro n hn
  refine Classical.byContradiction (fun hnot => ?_)
  obtain ⟨w, hw, _⟩ := hreach.restless hp ⟨n, hn _ hleast.1, hnot⟩
  simp [hdone] at hw

end Restless

section Ends

variable [Std.LawfulEqOrd M] [DecidableEq M] {ns : Finset N} {b : Nat}

theorem Paced.within {X : Set N} (h : a.Paced x s)
    (hX : a.graph.Closed {n | ∃ d, (n, d) ∈ a.problem.seeds} X) : Within a.graph X s := by
  induction h with
  | seeded => exact .seed hX.seeded x
  | quiet _ halike ih => exact ih.congr halike.table halike.calls
  | @visit s t n c d rest _ _ hd hstrides ih =>
      have hn : n ∈ X := ih.nodes ⟨c, d, hd⟩
      exact (ih.congr rfl rfl : Within a.graph X { s with worklist := rest }).moves hX.onward hn
        (Strides.moves hstrides)

theorem terminates_of_rests [a.contexts.Lawful] (hlimit : a.limits.maxIterations = none)
    (hp : a.problem.Ordered) (hheight : a.problem.FiniteHeight) (hbound : ∀ s, a.Paced x s → s.Bounded ns b)
    (hrests : ∀ n ∈ a.reached, a.Rests n) : a.Terminates x := by
  classical
  let rs := ns.filter (· ∈ a.reached)
  have hwf : WellFounded (fun n' n => n ∈ rs ∧ a.Recalls n n') := by
    refine ⟨fun n => ?_⟩
    by_cases hn : n ∈ a.reached
    · exact Subrelation.accessible (fun h => h.2) (hrests n hn)
    · exact ⟨n, fun n' h => absurd (Finset.mem_filter.mp h.1).2 hn⟩
  refine terminates_of_bounded hlimit hp (hheight.within _) hwf (b := b)
    (fun s hs => ⟨fun hc => ?_, (hbound s hs).contexts⟩)
  exact Finset.mem_filter.mpr ⟨(hbound s hs).nodes hc, (hs.within reached_closed).nodes ⟨_, hc⟩⟩

end Ends

end Analysis

end Interproc
