import Interproc.Context.Arguments
import Interproc.Graph
import Interproc.Proofs.Solver.Budget

namespace Interproc

open Solver

namespace Arguments

variable {κ ν : Type} [Ord κ] [Std.TransOrd κ] [Std.LawfulEqOrd κ] [DecidableEq κ]

theorem get?_insertAll_chosen (facts : OrdMap κ ν) (ids : List κ) (m : OrdMap κ ν) (k : κ) :
    (m.insertAll (ids.filterMap (fun k => (facts.get? k).map (fun v => (k, v))))).get? k =
      if k ∈ ids then (facts.get? k).or (m.get? k) else m.get? k := by
  induction ids generalizing m with
  | nil => simp [OrdMap.insertAll]
  | cons i ids ih =>
      rw [List.filterMap_cons]
      cases hi : facts.get? i with
      | none =>
          by_cases hk : k = i
          · subst hk
            simp [ih, hi]
          · simp [ih, hk]
      | some v =>
          have hinsert := ih (m.insert i v)
          by_cases hk : k = i
          · subst hk
            simpa [OrdMap.insertAll, hi] using hinsert
          · simpa [OrdMap.insertAll, hk] using hinsert

theorem get?_select (ids : List κ) (facts : OrdMap κ ν) (k : κ) :
    (select ids facts).get? k = if k ∈ ids then facts.get? k else none := by
  rw [select, OrdMap.ofList, get?_insertAll_chosen, OrdMap.get?_empty, Option.or_none]

theorem select_eq_self_iff {ids : List κ} {facts : OrdMap κ ν} :
    select ids facts = facts ↔ ∀ k, facts.contains k = true → k ∈ ids := by
  constructor
  · intro heq k hk
    by_contra hout
    rw [OrdMap.contains, ← heq, get?_select, if_neg hout] at hk
    exact absurd hk Bool.false_ne_true
  · refine fun h => OrdMap.ext (fun k => ?_)
    rw [get?_select]
    split
    · rfl
    · rename_i hout
      have hnone : ¬ facts.contains k = true := fun hk => hout (h k hk)
      rw [OrdMap.contains, Option.not_isSome_iff_eq_none] at hnone
      exact hnone.symm

end Arguments

variable {N M D C S E κ ν : Type}

theorem Solver.Event.isAbsence_of_closing {e : Event N D C E} (h : e.closing = true) :
    e.isAbsence = false := by
  cases e with
  | absent => exact absurd h Bool.false_ne_true
  | _ => rfl

namespace Solver.State

variable [Ord N] [Ord M]

def withoutAbsences (s : State N M D C S E) : State N M D C S E :=
  { s with trail := s.trail.filter (fun e => !e.isAbsence) }

theorem whole_withoutAbsences [Std.TransOrd N] [Std.TransOrd M] :
    Mirror.Whole (withoutAbsences : State N M D C S E → State N M D C S E) id where
  entriesAt _ _ := by simp [withoutAbsences, State.entriesAt]
  callsInto _ _ := by simp [withoutAbsences, State.callsInto]
  client _ := rfl
  setEntries _ _ _ := by simp [withoutAbsences]
  setCalls _ _ _ := by simp [withoutAbsences]
  setClient _ _ := rfl
  queue _ _ _ := rfl
  emit _ _ _ he := by simp [withoutAbsences, State.emit, he]
  count _ _ _ := rfl
  worklist _ := by simp [withoutAbsences]
  setWorklist _ _ := by simp [withoutAbsences]
  countAll _ _ := rfl
  statistics _ := rfl
  seeded _ := rfl
  setSeeded _ := rfl
  setFinished _ := rfl
  close _ _ he := by simp [withoutAbsences, State.emit, Event.isAbsence_of_closing he]

theorem withoutAbsences_emitAll {xs : List String} {n n' : N} (s : State N M D C S E) :
    (s.emitAll (xs.map (fun x => .absent x n n'))).withoutAbsences = s.withoutAbsences := by
  induction xs generalizing s with
  | nil => rfl
  | cons x xs ih => exact ih (s.emit (.absent x n n'))

end Solver.State

namespace Analysis

variable [Ord N] [Std.TransOrd N] [DecidableEq N] [Ord M] [Std.TransOrd M]
variable [Ord κ] [Std.TransOrd κ] [Std.LawfulEqOrd κ] [DecidableEq κ] [Described κ]
variable [DecidableEq ν] [Ord ν] [Described ν]

def ChoosesAll (g : Icfg N M) (p : Problem N M (OrdMap κ ν) S E) (ids : N → N → List κ)
    (s : State N M (OrdMap κ ν) C S E) : Prop :=
  ∀ n c d, .visited n c d ∈ s.trail → g.hasNode n = true → g.isCall n = true →
    ∀ m ∈ (g.callees n).takeWhile g.hasFunction, ∀ entry ∈ g.starts m,
      ∀ k, (p.call n m d).contains k = true → k ∈ ids n entry

theorem solves_selecting (g : Icfg N M) (p : Problem N M (OrdMap κ ν) S E) (limits : Limits)
    (ids : N → N → List κ) (c : Arguments (OrdMap κ ν)) (x : S) (fuel j : Nat) :
    let a : Analysis N M (OrdMap κ ν) (Arguments (OrdMap κ ν)) S E :=
      ⟨g, p, Arguments.selectingKind ids, c, limits⟩
    let b : Analysis N M (OrdMap κ ν) (Arguments (OrdMap κ ν)) S E :=
      ⟨g, p, Arguments.kind, c, limits⟩
    let s := (a.solves fuel j (.initial x)).1
    ChoosesAll g p ids s →
      b.solves fuel j (.initial x) = (s.withoutAbsences, (a.solves fuel j (.initial x)).2) ∧
      ∀ n, b.resultsAt s.withoutAbsences n = a.resultsAt s n := by
  intro a b s hall
  have hk : a.contexts.Mirrors b.contexts id :=
    ⟨fun _ => rfl, fun _ => rfl, fun _ _ => rfl, fun _ _ => rfl⟩
  -- where all keys are chosen, both kinds enter the same context
  have htakes : a.TakesAlike b.contexts id State.withoutAbsences s := by
    intro n c d hvisited hn hcall m hm entry hentry
    have hself : Arguments.select (ids n entry) (p.call n m d) = p.call n m d :=
      Arguments.select_eq_self_iff.mpr (hall n c d hvisited hn hcall m hm entry hentry)
    exact ⟨fun c => congrArg c.enter hself.symm, fun t => (State.withoutAbsences_emitAll t).symm⟩
  refine ⟨solves_mirror a hk State.whole_withoutAbsences fuel j htakes, fun n => ?_⟩
  have hresults := resultsAt_mirror (a := a) (i := limits.maxIterations) hk
    State.whole_withoutAbsences.toMirror s n
  rw [Prod.map_id, List.map_id] at hresults
  exact hresults

end Analysis

namespace Graph

def keyed : Graph (Int × Nat) where
  methods := #[⟨"main", [0], [2]⟩, ⟨"f", [10], [11]⟩]
  nodes := OrdMap.ofList [
    (0, ⟨0, [1], some [1], false, {}, {}, {}, {}⟩),
    (1, ⟨0, [2], some [1], false, {}, { gen := [(1, 6)] }, {}, {}⟩),
    (2, ⟨0, [], none, true, {}, {}, {}, {}⟩),
    (10, ⟨1, [11], none, false, {}, {}, {}, {}⟩),
    (11, ⟨1, [], none, true, {}, {}, {}, {}⟩)]

def keyedProblem : Problem Int Nat BitMap Unit Empty :=
  keyed.bitProblem (OrdMap.ofList [(0, OrdMap.ofList [(1, 1), (2, 3)])]) []

def keyedAnalysis : Analysis Int Nat BitMap (Arguments BitMap) Unit Empty where
  graph := keyed.icfg
  problem := keyedProblem
  contexts := Arguments.selectingKind (fun _ _ => [2, 7, 1, 2])
  initial := ∅
  limits := ⟨none, none⟩

def keyedState : State Int Nat BitMap (Arguments BitMap) Unit Empty :=
  (keyedAnalysis.solves 30 1 (.initial ())).1

def keyedHandsChosen : Solver.Event Int BitMap (Arguments BitMap) Empty → Bool
  | .visited n _ d => (keyed.icfg.callees n).all (fun m =>
      (keyedProblem.call n m d).entries.all (fun e => decide (e.1 ∈ [2, 7, 1, 2])))
  | _ => true

theorem keyed_choosesAll :
    Analysis.ChoosesAll keyed.icfg keyedProblem (fun _ _ => [2, 7, 1, 2]) keyedState := by
  have hchosen : keyedState.trail.all keyedHandsChosen = true := by decide +kernel
  intro n c d hvisited _ _ m hm _ _ k hk
  have hcallees := List.all_eq_true.mp hchosen _ hvisited
  have hkeys := List.all_eq_true.mp hcallees m ((List.takeWhile_sublist _).mem hm)
  obtain ⟨v, hv⟩ := Option.isSome_iff_exists.mp hk
  exact of_decide_eq_true (List.all_eq_true.mp hkeys (k, v) (OrdMap.get?_eq_some_iff.mp hv))

theorem keyed_solves : keyedState.finished = true ∧ (keyedState.entriesAt 10).length = 2 ∧
    keyedState.withoutAbsences.trail.length + 2 = keyedState.trail.length ∧
    Analysis.ChoosesAll keyed.icfg keyedProblem (fun _ _ => [2, 7, 1, 2]) keyedState ∧
    ((⟨keyed.icfg, keyedProblem, Arguments.kind, ∅, ⟨none, none⟩⟩ :
        Analysis Int Nat BitMap (Arguments BitMap) Unit Empty).solves 30 1 (.initial ())).1 =
      keyedState.withoutAbsences := by
  have hsolves := Analysis.solves_selecting keyed.icfg keyedProblem ⟨none, none⟩
    (fun _ _ => [2, 7, 1, 2]) ∅ () 30 1 keyed_choosesAll
  exact ⟨by decide +kernel, by decide +kernel, by decide +kernel, keyed_choosesAll,
    congrArg Prod.fst hsolves.1⟩

end Graph

end Interproc
