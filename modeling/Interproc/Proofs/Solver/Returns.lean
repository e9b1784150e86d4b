import Interproc.Context.CallString
import Interproc.Graph
import Interproc.Proofs.Solver.Run

namespace Interproc

open Solver

namespace Analysis

variable {N M D C S E : Type} [Ord N] [Std.TransOrd N] [Std.LawfulEqOrd N] [DecidableEq N]
variable [Ord M] [Std.TransOrd M] [Std.LawfulEqOrd M] [DecidableEq M]
variable {a : Analysis N M D C S E} {s : State N M D C S E} [a.contexts.Lawful]

theorem returns_closed (hp : a.problem.Ordered) (hg : a.graph.Agrees) (h : a.Solved s)
    (hs : s.finished = true) {m : M} {r : CallRecord N C} (hr : r ∈ s.callsInto m) {x : N}
    (hx : x ∈ a.graph.exits m) (hcall : a.graph.isCall x = false) (hexit : a.graph.isExit x = true)
    {c : C} {d : D} (hd : (c, d) ∈ s.entriesAt x) (hsame : a.contexts.same c r.callee = true)
    (hfound : a.lookup s x r.callee = some (c, d) ∨ a.contexts.Unambiguous r.callee) :
    ∀ n ∈ a.graph.returnSites r.site,
      a.includes s r.caller n (a.problem.ret r.site m x d) = true := by
  have hlookup : a.lookup s x r.callee = some (c, d) := by
    rcases hfound with hlookup | hunambiguous
    · exact hlookup
    · exact (h.tabled hp hg hs).lookup_of_unambiguous hd hsame hunambiguous
  have hm : a.graph.functionOf x = m := hg.functionOf_exit hx
  subst hm
  exact (h.settled hp hg hs hd).leave hcall hexit hx r hr hlookup

end Analysis

namespace Graph

theorem setProblem_ordered (g : Graph Int) (seeds : OrdMap Int IntSet) (recompute : List Nat) :
    (g.setProblem seeds recompute).Ordered where
  le_refl _ := OrdSet.isSubset_iff.mpr (fun _ hx => hx)
  le_trans h h' := OrdSet.isSubset_iff.mpr
    (fun x hx => OrdSet.isSubset_iff.mp h' x (OrdSet.isSubset_iff.mp h x hx))
  le_join_left _ _ := OrdSet.isSubset_iff.mpr (fun _ hx => OrdSet.mem_union.mpr (Or.inl hx))
  le_join_right _ _ := OrdSet.isSubset_iff.mpr (fun _ hx => OrdSet.mem_union.mpr (Or.inr hx))

theorem icfg_agrees {G : Type} {g : Graph G} (h : ∀ m < g.methods.size,
    ∀ n ∈ g.icfg.starts m ++ g.icfg.exits m, g.icfg.functionOf n = m) : g.icfg.Agrees := by
  have hlt : ∀ {m n}, n ∈ g.icfg.starts m ++ g.icfg.exits m → m < g.methods.size := by
    intro m n hn
    refine Nat.lt_of_not_le (fun hle => ?_)
    simp [icfg, Array.getElem?_eq_none hle] at hn
  constructor
  · intro m n hn
    have hmem := List.mem_append_left (g.icfg.exits m) hn
    exact h m (hlt hmem) n hmem
  · intro m n hn
    have hmem := List.mem_append_right (g.icfg.starts m) hn
    exact h m (hlt hmem) n hmem

/-- A function with two starts is called at 0, 1 and 3. The call at 3 joins the empty call string
that is seeded at the first start, and among the exits that equal it only the first is visited
again. -/
def lateCall : Graph Int where
  methods := #[⟨"main", [0], [4]⟩, ⟨"f", [10, 20], [15]⟩]
  nodes := OrdMap.ofList [
    (0, ⟨0, [1], some [1], false, {}, {}, {}, {}⟩),
    (1, ⟨0, [2], some [1], false, {}, { gen := [101] }, {}, {}⟩),
    (2, ⟨0, [3], none, false, {}, {}, {}, {}⟩),
    (3, ⟨0, [4], some [1], false, {}, { clear := true }, {}, { clear := true }⟩),
    (4, ⟨0, [], none, true, {}, {}, {}, {}⟩),
    (10, ⟨1, [], none, false, {}, {}, {}, {}⟩),
    (20, ⟨1, [15], none, false, {}, {}, {}, {}⟩),
    (15, ⟨1, [], none, true, {}, {}, {}, {}⟩)]

def lateCallAnalysis : Analysis Int Nat IntSet (CallString Int 1) Unit Empty where
  graph := lateCall.icfg
  problem := lateCall.setProblem (OrdMap.ofList [(0, ∅), (10, ∅)]) []
  contexts := CallString.kind
  initial := ∅
  limits := ⟨none, none⟩

def lateCallState : State Int Nat IntSet (CallString Int 1) Unit Empty :=
  (lateCallAnalysis.solve 30 (.initial ())).1

instance lateCall_lawful : lateCallAnalysis.contexts.Lawful := CallString.lawful

theorem lateCall_agrees : lateCallAnalysis.graph.Agrees := icfg_agrees (by decide)

theorem lateCall_solved :
    lateCallAnalysis.Solved lateCallState ∧ lateCallState.finished = true :=
  ⟨Analysis.solved_of_solve (by decide +kernel), by decide +kernel⟩

theorem lateCall_return_kept : ∃ r ∈ lateCallState.callsInto 1, ∃ e ∈ lateCallState.entriesAt 15,
    lateCallAnalysis.contexts.same e.1 r.callee = true ∧ e.2 = OrdSet.single 101 ∧
      ∀ n ∈ lateCallAnalysis.graph.returnSites r.site, lateCallAnalysis.includes lateCallState
        r.caller n (lateCallAnalysis.problem.ret r.site 1 15 e.2) = true := by
  obtain ⟨r, hr, hne, e, he, hsame, hfacts⟩ : ∃ r ∈ lateCallState.callsInto 1,
      r.callee.sites ≠ [] ∧ ∃ e ∈ lateCallState.entriesAt 15,
        lateCallAnalysis.contexts.same e.1 r.callee = true ∧ e.2 = OrdSet.single 101 := by
    decide +kernel
  have hunambiguous : lateCallAnalysis.contexts.Unambiguous r.callee :=
    CallString.unambiguous (Or.inl hne)
  exact ⟨r, hr, e, he, hsame, hfacts, Analysis.returns_closed (setProblem_ordered ..)
    lateCall_agrees lateCall_solved.1 lateCall_solved.2 hr (by decide) (by decide) (by decide) he
    hsame (Or.inr hunambiguous)⟩

theorem lateCall_return_missed : lateCallAnalysis.Solved lateCallState ∧
    lateCallState.finished = true ∧ lateCallAnalysis.problem.Ordered ∧
    lateCallAnalysis.graph.Agrees ∧ 15 ∈ lateCallAnalysis.graph.exits 1 ∧
    lateCallAnalysis.graph.isCall 15 = false ∧ lateCallAnalysis.graph.isExit 15 = true ∧
    ∃ r ∈ lateCallState.callsInto 1, ∃ e ∈ lateCallState.entriesAt 15,
      lateCallAnalysis.contexts.same e.1 r.callee = true ∧
        ∃ n ∈ lateCallAnalysis.graph.returnSites r.site, lateCallAnalysis.includes lateCallState
          r.caller n (lateCallAnalysis.problem.ret r.site 1 15 e.2) = false := by
  refine ⟨lateCall_solved.1, lateCall_solved.2, setProblem_ordered .., lateCall_agrees, ?_⟩
  decide +kernel

end Graph

end Interproc
