import Interproc.Proofs.Solver.Memory
import Interproc.Proofs.Solver.Returns

namespace Interproc

open Solver

variable {N M D C S E : Type}

namespace Solver.State

variable [Ord N] [Ord M]

def Reports (s t : State N M D C S E) : Prop :=
  ∃ x es, t = { s with client := x, trail := es ++ s.trail }

variable {s t u : State N M D C S E}

theorem Reports.refl (s : State N M D C S E) : s.Reports s := ⟨s.client, [], rfl⟩

theorem Reports.trans (h : s.Reports t) (h' : t.Reports u) : s.Reports u := by
  obtain ⟨_, es, rfl⟩ := h
  obtain ⟨x', es', rfl⟩ := h'
  exact ⟨x', es' ++ es, by simp⟩

theorem Reports.table (h : s.Reports t) : t.table = s.table := by
  obtain ⟨_, _, rfl⟩ := h
  rfl

theorem emitAll_reports (es : List (Event N D C E)) : s.Reports (s.emitAll es) := by
  induction es generalizing s with
  | nil => exact .refl s
  | cons e es ih => exact Reports.trans ⟨s.client, [e], rfl⟩ ih

end Solver.State

namespace Analysis

section Consulted

variable [Ord N] [Std.TransOrd N] [DecidableEq N] [Ord M] [Std.TransOrd M]
variable (a : Analysis N M D C S E)

inductive Consulted : State N M D C S E → Prop
  | initial (client : S) : Consulted (.initial client)
  | solve {s t} (fuel : Nat) : Consulted s → a.solve fuel s = (t, none) → Consulted t
  | check {s t vs} : Consulted s → a.checkPostFixpoint s = (t, some vs) → Consulted t

variable {a}

theorem Solved.consulted {s : State N M D C S E} (h : a.Solved s) : a.Consulted s := by
  induction h with
  | initial client => exact .initial client
  | solve fuel _ hsolve ih => exact ih.solve fuel hsolve

end Consulted

section Passed

variable [Ord N] [Ord M] (a : Analysis N M D C S E)

structure Passed (s : State N M D C S E) (n : N) (c : C) (d : D) : Prop where
  node : a.graph.hasNode n = true
  passes : a.graph.isCall n = true → a.passes n d = true
  edges : ∀ e ∈ a.edgesAt n d, a.includes s c e.1 e.2 = true

abbrev Remembers : State N M D C S E → State N M D C S E → Prop :=
  Relation.ReflTransGen (fun s t => ∃ n n' d, t = a.remember n n' d s)

variable {a} {s t : State N M D C S E} {n : N} {c : C} {d : D}

theorem Passed.congr (h : a.Passed s n c d) (htable : t.table = s.table) : a.Passed t n c d where
  node := h.node
  passes := h.passes
  edges e he := by
    rw [includes_congr htable]
    exact h.edges e he

theorem Passed.violationsAt (h : a.Passed s n c d) : a.violationsAt s n c d = [] := by
  rw [Analysis.violationsAt, List.map_eq_nil_iff, List.filter_eq_nil_iff]
  intro e he
  simp [h.edges e he]

theorem reviewCall_remembers (n : N) (d : D) (s : State N M D C S E) :
    a.Remembers s (a.reviewCall n d s).1 := by
  unfold reviewCall
  split
  · exact foldl_reflTransGen (fun t r _ => .single ⟨n, r, d, rfl⟩) s
  · exact .refl

theorem review_remembers (xs : List (N × C × D)) (s : State N M D C S E) :
    a.Remembers s (a.review xs s).1 := by
  induction xs generalizing s with
  | nil => exact .refl
  | cons e xs ih =>
      obtain ⟨n, c, d⟩ := e
      have hcall := reviewCall_remembers (a := a) n d s
      have hrest := hcall.trans (ih (a.reviewCall n d s).1)
      simp only [review]
      split
      · exact .refl
      · split
        · rename_i t ht
          rwa [ht] at hcall
        · rename_i t ht
          rw [ht] at hrest
          split
          · rename_i u hu
            rwa [hu] at hrest
          · rename_i u vs hu
            rwa [hu] at hrest

theorem Remembers.reports (h : a.Remembers s t) : s.Reports t := by
  induction h with
  | refl => exact .refl s
  | @tail t u _ hstep ih =>
      obtain ⟨n, n', d, rfl⟩ := hstep
      have hclient : t.Reports { t with client := (a.problem.remember n n' d t.client).1 } :=
        ⟨_, [], rfl⟩
      exact (ih.trans hclient).trans (State.emitAll_reports _)

theorem review_passes {xs : List (N × C × D)} (h : ∀ e ∈ xs, a.Passed s e.1 e.2.1 e.2.2) :
    (a.review xs s).2 = some [] := by
  induction xs generalizing s with
  | nil => rfl
  | cons e xs ih =>
      obtain ⟨n, c, d⟩ := e
      have hpassed : a.Passed s n c d := h _ (List.mem_cons_self ..)
      have htable := (reviewCall_remembers (a := a) n d s).reports.table
      have hends : (a.reviewCall n d s).2 = true := by
        unfold reviewCall
        split
        · exact hpassed.passes ‹_›
        · rfl
      cases hcall : a.reviewCall n d s with
      | mk t ended =>
          rw [hcall] at htable hends
          have hrest := ih (s := t) (fun e he => (h e (List.mem_cons_of_mem _ he)).congr htable)
          have hreports := (review_remembers (a := a) xs t).reports
          cases hreview : a.review xs t with
          | mk u answer =>
              rw [hreview] at hrest hreports
              have hnone := (hpassed.congr (hreports.table.trans htable)).violationsAt
              simp only at hrest hends
              simp [review, hpassed.node, hcall, hends, hreview, hrest, hnone]

end Passed

variable [Ord N] [Std.TransOrd N] [Std.LawfulEqOrd N] [DecidableEq N]
variable [Ord M] [Std.TransOrd M] [Std.LawfulEqOrd M] [DecidableEq M]
variable {a : Analysis N M D C S E} {s t : State N M D C S E} [a.contexts.Lawful]
variable {n : N} {c : C} {d : D}

theorem visit_passed (hp : a.problem.Ordered) (hvisit : a.visit n c d s = (t, true)) :
    a.Passed t n c d := by
  have hend : (a.visit n c d s).2 = true := by rw [hvisit]
  have hnode := hasNode_of_visit hend
  obtain rfl : (a.visit n c d s).1 = t := by rw [hvisit]
  simp only [visit, hnode, Bool.not_true, Bool.false_eq_true, if_false] at hend ⊢
  cases hcall : a.graph.isCall n with
  | true =>
      simp only [hcall, if_true] at hend ⊢
      obtain ⟨_, hpasses, heq⟩ := visitCall_eq hend
      refine ⟨hnode, fun _ => hpasses, fun e he => ?_⟩
      simp only [edgesAt, hcall, if_true, List.mem_map] at he
      obtain ⟨n', hn', rfl⟩ := he
      rw [heq]
      exact bypassAll_includes hp hcall (fun _ hx => hx) n' hn'
  | false =>
      refine ⟨hnode, by simp [hcall], fun e he => ?_⟩
      cases hexit : a.graph.isExit n with
      | true => simp [edgesAt, hcall, hexit] at he
      | false =>
          simp only [edgesAt, hcall, hexit, Bool.false_eq_true, if_false, List.mem_map] at he
          obtain ⟨n', hn', rfl⟩ := he
          exact visitPlain_settles hp hn'

theorem lasting_passed (hp : a.problem.Ordered) : a.Lasting (fun n c d s => a.Passed s n c d) where
  congr h htable _ _ := h.congr htable
  gain := visit_passed hp
  stay h hmoves :=
    ⟨h.node, h.passes, fun e he => (Moves.grows hp hmoves).includes hp (h.edges e he)⟩

theorem Consulted.attended (hp : a.problem.Ordered) (h : a.Consulted s) :
    (∃ x, s = .initial x) ∨ s.seeded = true ∧ a.Tabled s ∧
      Attended (fun n c d s => a.Passed s n c d) s ∧ (s.finished = true → s.worklist = []) := by
  induction h with
  | initial client => exact Or.inl ⟨client, rfl⟩
  | @solve s t fuel _ hsolve ih =>
      right
      obtain ⟨s₀, hs₀, hiterates, hseeded, hdrained⟩ := solve_iterates hsolve
      rcases ih with ⟨x, rfl⟩ | ⟨hs, htabled, hattended, hdone⟩
      · obtain rfl : a.seed (.initial x) = s₀ := hs₀
        obtain ⟨htabled, hattended⟩ := (lasting_passed hp).attended hp hiterates
        have hflags := seed_flags (a := a) (s := .initial x)
        refine ⟨hseeded, htabled, hattended, hdrained (fun hfinished => ?_)⟩
        exact absurd (hflags.2.symm.trans hfinished) Bool.false_ne_true
      · obtain rfl : s = s₀ := by rwa [if_pos hs] at hs₀
        obtain ⟨htabled, hattended⟩ := (lasting_passed hp).iterations hp hiterates htabled hattended
        exact ⟨hseeded, htabled, hattended, hdrained hdone⟩
  | @check s t vs _ hcheck ih =>
      rcases ih with ⟨x, rfl⟩ | ⟨hs, htabled, hattended, hdone⟩
      · obtain ⟨rfl, -⟩ := Prod.mk.inj hcheck
        exact Or.inl ⟨x, rfl⟩
      · right
        obtain ⟨x, es, ht⟩ := (review_remembers (a := a) (tracked s) s).reports
        obtain rfl : _ = t := ht.symm.trans (congrArg Prod.fst hcheck)
        refine ⟨hs, (htabled.remember x).of_alike ⟨rfl, rfl, rfl, rfl⟩, fun n c d hd => ?_, hdone⟩
        exact (hattended n c d hd).imp_right (fun hpassed => hpassed.congr rfl)

theorem checkPostFixpoint_passes (hp : a.problem.Ordered) (h : a.Consulted s)
    (hs : s.finished = true) : ∃ x es,
      a.checkPostFixpoint s = ({ s with client := x, trail := es ++ s.trail }, some []) := by
  obtain ⟨x, es, hstate⟩ := (review_remembers (a := a) (tracked s) s).reports
  refine ⟨x, es, Prod.ext hstate (review_passes (fun e he => ?_))⟩
  rcases h.attended hp with ⟨y, rfl⟩ | ⟨_, _, hattended, hdone⟩
  · exact absurd hs Bool.false_ne_true
  · refine (hattended _ _ _ (mem_entriesAt_of_tracked he)).resolve_left ?_
    simp [hdone hs]

end Analysis

namespace Graph

theorem lateCall_check_passes : lateCallState.finished = true ∧
    (Analysis.tracked lateCallState).length = 12 ∧
    ∃ x es, lateCallAnalysis.checkPostFixpoint lateCallState =
      ({ lateCallState with client := x, trail := es ++ lateCallState.trail }, some []) :=
  ⟨lateCall_solved.2, by decide +kernel,
    Analysis.checkPostFixpoint_passes (setProblem_ordered ..) lateCall_solved.1.consulted
      lateCall_solved.2⟩

end Graph

end Interproc
