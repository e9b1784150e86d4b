import Interproc.Proofs.Solver.Moment
import Interproc.Proofs.Solver.Returns

namespace Interproc

open Solver

variable {N M D C S E : Type}

namespace Analysis

section Order

variable (a : Analysis N M D C S E)

def Repeats (r r' : CallRecord N C) : Prop :=
  r.site = r'.site ∧ r.entry = r'.entry ∧ a.contexts.same r.caller r'.caller = true ∧
    a.contexts.same r.callee r'.callee = true

variable [Ord N] [Ord M]

def Once (s : State N M D C S E) : Prop :=
  ∀ m, (s.callsInto m).Pairwise (fun r r' => ¬ a.Repeats r r')

/-- The contexts at a node are distinct. What waits is the one entry at its node that its context
finds. Calls are remembered with contexts that are tracked, and no two of them are the same. -/
structure Orderly (s : State N M D C S E) : Prop where
  distinct : ∀ n, (s.entriesAt n).Pairwise (fun e e' => a.contexts.same e.1 e'.1 = false)
  found : ∀ {n c}, (n, c) ∈ s.worklist → ∃ d, a.lookup s n c = some (c, d) ∧
    ∀ e ∈ s.entriesAt n, a.contexts.same e.1 c = true → e = (c, d)
  stored : ∀ {m r}, r ∈ s.callsInto m → s.Tracks r.site r.caller ∧ s.Tracks r.entry r.callee
  once : ∀ m, (s.callsInto m).Pairwise (fun r r' => ¬ a.Repeats r r')
  apart : ∀ {m m' r r'}, r ∈ s.callsInto m → r' ∈ s.callsInto m' → a.Repeats r r' → m = m'

variable [Std.TransOrd N] [DecidableEq N] [Std.TransOrd M]

/-- The moments of runs whose flows may depend on more than their arguments: each move takes the
flows of some problem over the same order of facts. -/
inductive Varied : State N M D C S E → Prop
  | fresh (x : S) : Varied (.initial x)
  | seed {s n d} : Varied s → Varied (a.joinInto n a.initial d s)
  | quiet {s t} : Varied s → t.table = s.table → t.worklist = s.worklist → t.calls = s.calls →
      Varied t
  | dequeue {s w rest} : Varied s → s.worklist = w :: rest → Varied { s with worklist := rest }
  | move {s t n c d p} : Varied s → s.Tracks n c → p.join = a.problem.join →
      p.le = a.problem.le → ({ a with problem := p } : Analysis N M D C S E).Move n c d s t →
      Varied t

end Order

variable [Ord N] [Ord M] {a : Analysis N M D C S E} {s t : State N M D C S E}

theorem Once.congr (h : a.Once s) (hcalls : t.calls = s.calls) : a.Once t := by
  intro m
  rw [State.callsInto_congr hcalls]
  exact h m

theorem Tabled.orderly [a.contexts.Lawful] (h : a.Tabled s) (hs : a.Once s) : a.Orderly s where
  distinct := h.distinct
  found {n c} hw := by
    obtain ⟨d, hd⟩ : s.Tracks n c := h.queued hw
    exact ⟨d, h.lookup_of_mem hd, fun e he hsame => h.eq_of_same he hd hsame⟩
  stored hr := (h.recorded hr).2
  once := hs
  apart hr hr' hrepeats := by
    rw [← (h.recorded hr).1, ← (h.recorded hr').1, hrepeats.2.1]

section Once

variable [DecidableEq N] [Std.TransOrd M] [Std.LawfulEqOrd M] [DecidableEq M]

theorem Once.recordCall (h : a.Once s) (r : CallRecord N C) : a.Once (a.recordCall r s).2 := by
  rcases recordCall_cases a r s with ⟨_, hcalls⟩ | ⟨hnew, _, hcalls⟩
  · rw [hcalls]
    exact h
  · intro m
    rw [hcalls]
    split
    · rename_i hm
      subst hm
      refine List.pairwise_append.mpr ⟨h _, List.pairwise_singleton .., fun r' hr' r'' hr'' => ?_⟩
      rw [List.mem_singleton.mp hr'']
      rintro ⟨hsite, hentry, hcaller, hcallee⟩
      refine Bool.eq_false_iff.mp hnew (List.any_eq_true.mpr ⟨r', hr', ?_⟩)
      simp [hsite, hentry, hcaller, hcallee]
    · exact h m

theorem Move.once [Std.TransOrd N] [Std.LawfulEqOrd N] {n : N} {c : C} {d : D} (h : a.Once s)
    (hmove : a.Move n c d s t) : a.Once t := by
  cases hmove with
  | quiet hquiet => exact h.congr hquiet.calls
  | requeue => exact h
  | remember => exact h.congr rfl
  | pass => exact h.congr joinInto_calls
  | bypass => exact h.congr joinInto_calls
  | enter => exact (h.recordCall _).congr joinInto_calls
  | leave => exact h.congr joinInto_calls

end Once

variable [Std.TransOrd N] [DecidableEq N] [Std.TransOrd M]

theorem Varied.joinSeeds (h : a.Varied s) (xs : List (N × D)) : a.Varied (a.joinSeeds xs s) :=
  List.foldlRecOn (motive := a.Varied) _ _ h (fun _ ht _ _ => ht.seed)

variable [Std.LawfulEqOrd N] [Std.LawfulEqOrd M] [DecidableEq M] {x : S}

theorem Varied.moves (hp : a.problem.Ordered) {n : N} {c : C} {d : D} (h : a.Varied s)
    (hc : s.Tracks n c) (hmoves : a.Moves n c d s t) : a.Varied t := by
  induction hmoves with
  | refl => exact h
  | tail hmoves hmove ih => exact ih.move ((Moves.grows hp hmoves).tracks hc) rfl rfl hmove

theorem Underway.varied (hp : a.problem.Ordered) (h : a.Underway x s) : a.Varied s := by
  induction h with
  | seeded =>
      refine Varied.joinSeeds ?_ a.problem.seeds
      exact (Varied.fresh x).quiet rfl rfl rfl
  | quiet _ halike ih => exact ih.quiet halike.table halike.worklist halike.calls
  | visit _ hw hd hmoves ih => exact (ih.dequeue hw).moves hp ⟨_, hd⟩ hmoves

theorem Moment.varied (hp : a.problem.Ordered) (h : a.Moment x s) : a.Varied s := by
  rcases h with ⟨xs, _, halike⟩ | h
  · exact ((Varied.fresh x).joinSeeds xs).quiet halike.table halike.worklist halike.calls
  · exact h.varied hp

theorem Varied.tabled [a.contexts.Lawful] (hp : a.problem.Ordered) (h : a.Varied s) :
    a.Tabled s ∧ a.Once s := by
  induction h with
  | fresh x =>
      exact ⟨⟨by simp, fun hw => absurd hw List.not_mem_nil, by simp⟩, by simp [Once]⟩
  | seed _ ih => exact ⟨ih.1.joinInto, ih.2.congr joinInto_calls⟩
  | @quiet s t _ htable hwork hcalls ih =>
      have hclient : a.Tabled { s with client := t.client } := ih.1.remember _
      exact ⟨hclient.of_alike ⟨htable, hwork, hcalls, rfl⟩, ih.2.congr hcalls⟩
  | dequeue _ hw ih => exact ⟨ih.1.dequeue hw, ih.2⟩
  | @move s t n c d p _ hc hjoin hle hmove ih =>
      let b : Analysis N M D C S E := { a with problem := p }
      have : b.contexts.Lawful := ‹a.contexts.Lawful›
      have hordered : b.problem.Ordered := by
        refine ⟨?_, ?_, ?_, ?_⟩ <;> simp only [b, hjoin, hle]
        exacts [hp.le_refl, hp.le_trans, hp.le_join_left, hp.le_join_right]
      -- what is tabled does not depend on the flows
      have hb : b.Tabled s := ⟨ih.1.distinct, ih.1.queued, ih.1.recorded⟩
      have ht := Move.tabled (a := b) hordered hb hc hmove
      exact ⟨⟨ht.distinct, ht.queued, ht.recorded⟩, Move.once (a := b) ih.2 hmove⟩

theorem table_orderly [a.contexts.Lawful] (hp : a.problem.Ordered) :
    (∀ x s, a.SolvedFrom x s → a.Orderly s ∧ ∀ fuel, a.Orderly (a.solve fuel s).1) ∧
    (∀ x s, a.Moment x s → a.Orderly s) ∧ ∀ s, a.Varied s → a.Orderly s := by
  have hvaried : ∀ s, a.Varied s → a.Orderly s := fun s h => (h.tabled hp).1.orderly (h.tabled hp).2
  have hmoment : ∀ x s, a.Moment x s → a.Orderly s := fun _ s h => hvaried s (h.varied hp)
  exact ⟨fun x s h => ⟨hmoment x s (h.moment hp), fun fuel => hmoment x _ (h.moment_solve hp fuel)⟩,
    hmoment, hvaried⟩

end Analysis

namespace Graph

def lateCallPaused : State Int Nat IntSet (CallString Int 1) Unit Empty :=
  (lateCallAnalysis.solve 9 (.initial ())).1

theorem lateCallPaused_orderly : lateCallAnalysis.problem.Ordered ∧
    lateCallPaused.worklist.map Prod.fst = [15, 3] ∧ (lateCallPaused.callsInto 1).length = 4 ∧
    lateCallAnalysis.Orderly lateCallPaused :=
  have hp : lateCallAnalysis.problem.Ordered := setProblem_ordered ..
  ⟨hp, by decide +kernel, by decide +kernel,
    ((Analysis.table_orderly hp).1 () _ .initial).2 9⟩

end Graph

end Interproc
