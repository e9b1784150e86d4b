import Interproc.Proofs.Solver.CallPaths
import Interproc.Proofs.Solver.Restored
import Interproc.Proofs.Taint.ValidPaths

namespace Interproc.Taint.Setup

open Solver

variable {C : Type} (t : Setup)

theorem fromEntries {K : Nat} (hp : t.program.Coherent) (maxIterations : Option Nat) :
    (t.analysis CallString.kind (∅ : CallString Nat K) ⟨none, maxIterations⟩).FromEntries
      t.entries where
  ordered := t.pointwise.ordered
  procedural := hp.procedural
  kind := rfl
  initial := rfl
  unlimited := rfl
  seeds n := by
    constructor
    · rintro ⟨d, hd⟩
      obtain ⟨f, hf, hn, _⟩ := (t.mem_seeds hp).mp hd
      exact ⟨f, hf, hn⟩
    · rintro ⟨f, hf, hn⟩
      exact ⟨_, (t.mem_seeds hp).mpr ⟨f, hf, hn, rfl⟩⟩

theorem contextsAt_of_callStrings {text module : String}
    (hlift : Program.lift text module = .ok t.program) {K : Nat} (hK : 0 < K)
    (maxIterations : Option Nat) {s : Run (CallString Nat K)}
    (h : (t.analysis CallString.kind ∅ ⟨none, maxIterations⟩).Solved s) (hs : s.finished = true) :
    (∀ n, t.program.functionOf n ∈ t.entries → s.entriesAt n ≠ [] →
      (t.analysis CallString.kind ∅ ⟨none, maxIterations⟩).contextsAt s n = [∅]) ∧
    ∀ f, f ∉ t.entries → ∀ n ∈ t.program.entryOf f, ∀ c,
      c ∈ (t.analysis CallString.kind ∅ ⟨none, maxIterations⟩).contextsAt s n ↔
        ∃ path, path ≠ [] ∧ t.program.icfg.CallPath t.entries path f ∧
          c.sites = path.rtake K := by
  have hp := Program.coherent_of_lift hlift
  let a := t.analysis CallString.kind (∅ : CallString Nat K) ⟨none, maxIterations⟩
  have ha : a.FromEntries t.entries := t.fromEntries hp maxIterations
  have hiff : ∀ {n c}, s.Tracks n c ↔ Analysis.OnPath t.program.icfg t.entries n c :=
    Analysis.Solved.tracks_iff_onPath ha hK h hs
  constructor
  · intro n hn hne
    obtain ⟨e, he⟩ := List.exists_mem_of_ne_nil _ hne
    refine (h.tabled (a := a) ha.ordered ha.procedural.toAgrees hs).contextsAt_eq ⟨e.2, he⟩ ?_
    intro c hc
    obtain ⟨_, path, hpath, hsites⟩ := hiff.mp hc
    rw [hpath.eq_nil hn, List.rtake_nil] at hsites
    exact CallString.eq_of_sites hsites
  · intro f hf n hn c
    have hfunction : t.program.icfg.functionOf n = f := hp.procedural.functionOf_start hn
    rw [Analysis.mem_contextsAt, hiff, Analysis.OnPath, hfunction]
    constructor
    · rintro ⟨_, path, hpath, hsites⟩
      exact ⟨path, hpath.ne_nil hf, hpath, hsites⟩
    · rintro ⟨path, _, hpath, hsites⟩
      exact ⟨.start hn, path, hpath, hsites⟩

def climbingLines : List String := [
  "fn climb() \x7b",
  "  call climb()",
  "  call main()",
  "  ret",
  "\x7d",
  "fn main() \x7b",
  "  call climb()",
  "  ret",
  "\x7d"]

def climbing : Setup where
  program := {
    instructions := #[
      { op := .start, function := 0 },
      { op := .call, callee := some 0, function := 0, line := some 2 },
      { op := .call, callee := some 1, function := 0, line := some 3 },
      { op := .ret, function := 0, line := some 4 },
      { op := .start, function := 1 },
      { op := .call, callee := some 0, function := 1, line := some 7 },
      { op := .ret, function := 1, line := some 8 }]
    functions := #[
      ⟨"climb", "climb.c", [], some ⟨0, 4⟩⟩,
      ⟨"main", "climb.c", [], some ⟨4, 7⟩⟩]
    globals := ∅
    openBody := none }
  registry := .defaults
  aliases := noAliases
  entries := [1]
  config := {}

theorem climbing_lift : Program.lift (String.intercalate "\n" climbingLines) "climb.c" =
    .ok climbing.program := by
  rw [Program.lift_lines]
  decide +kernel

def climbingByTwo :
    (climbing.analysis CallString.kind (∅ : CallString Nat 2) ⟨none, none⟩).Fixpoint ∅ :=
  .ofSolve 60 (by decide +kernel)

theorem climbing_path : climbing.program.icfg.CallPath climbing.entries [5, 1, 1] 0 := by
  have hmain : climbing.program.icfg.Inside 1 5 :=
    (Icfg.Inside.start (n := 4) (by decide)).pass (by decide) (by decide) (by decide)
  have hclimb : climbing.program.icfg.Inside 0 1 :=
    (Icfg.Inside.start (n := 0) (by decide)).pass (by decide) (by decide) (by decide)
  have hstart : 0 ∈ climbing.program.icfg.starts 0 := by decide
  have hfirst : climbing.program.icfg.CallPath climbing.entries [5] 0 :=
    (Icfg.CallPath.entry (m := 1) (by decide)).call hmain (by decide) (by decide) hstart (by decide)
  have hsecond : climbing.program.icfg.CallPath climbing.entries [5, 1] 0 :=
    hfirst.call hclimb (by decide) (by decide) hstart (by decide)
  exact hsecond.call hclimb (by decide) (by decide) hstart (by decide)

theorem climbing_contexts :
    (climbing.analysis CallString.kind (∅ : CallString Nat 2) ⟨none, none⟩).contextsAt
      climbingByTwo.state 4 = [∅] ∧
    ⟨[1, 1], by decide⟩ ∈ (climbing.analysis CallString.kind (∅ : CallString Nat 2)
      ⟨none, none⟩).contextsAt climbingByTwo.state 0 := by
  have hcontexts := contextsAt_of_callStrings climbing climbing_lift (by decide) none
    climbingByTwo.solved.solved climbingByTwo.finished
  have hmain : climbingByTwo.state.entriesAt 4 ≠ [] :=
    List.ne_nil_of_length_pos (by decide +kernel)
  exact ⟨hcontexts.1 4 (by decide) hmain,
    (hcontexts.2 0 (by decide) 0 (by decide) _).mpr ⟨[5, 1, 1], by decide, climbing_path, rfl⟩⟩

theorem narrow_of_limit {text module : String} (hlift : Program.lift text module = .ok t.program)
    (k : ContextKind Nat ValueSet C) [k.Lawful] (initial : C) (max : Nat)
    (maxIterations : Option Nat) :
    (t.analysis k initial ⟨some max, maxIterations⟩).Always
      ((t.analysis k initial ⟨some max, maxIterations⟩).Narrow max) := by
  have hp := Program.coherent_of_lift hlift
  let a := t.analysis k initial ⟨some max, maxIterations⟩
  have hordered : a.problem.Ordered := t.pointwise.ordered
  exact .of_course hordered (fun _ h => h.narrow hordered hp.procedural (t.seedsEntries hp) rfl)

def twoCallsWidened : Run (CallString Nat 1) :=
  ((twoCalls.analysis CallString.kind (∅ : CallString Nat 1) ⟨some 1, none⟩).solve 60 Run.start).1

theorem twoCalls_narrow : twoCallsWidened.statistics.widenings = 2 ∧
    (twoCalls.analysis CallString.kind (∅ : CallString Nat 1) ⟨some 1, none⟩).Narrow 1
      twoCallsWidened :=
  ⟨by decide +kernel, (narrow_of_limit twoCalls twoCalls_lift CallString.kind ∅ 1 none).solve
    Run.start (.initial ∅) 60⟩

/-- An exit is reached under a context that remembers other facts than those that had entered the
caller of a call into its function. The same facts had entered before from elsewhere. -/
def Confuses (s : Run (Arguments ValueSet)) : Prop :=
  ∃ n, t.program.icfg.isExit n = true ∧ ∃ r ∈ s.callsInto (t.program.icfg.functionOf n),
    s.Tracks n r.callee ∧ r.callee.previous ≠ r.caller.current

theorem confuses_iff {maxIterations : Option Nat} {s : Run (Arguments ValueSet)} :
    t.Confuses s ↔ ∃ r, (t.analysis Arguments.kind ∅ ⟨none, maxIterations⟩).Misreturns s r := by
  have hsame : ∀ c d : Arguments ValueSet,
      (Arguments.kind : ContextKind Nat ValueSet _).same (Arguments.leave c) d = false ↔
        c.previous ≠ d.current := fun c d => decide_eq_false_iff_not
  constructor
  · rintro ⟨n, hexit, r, hr, hc, hdiffers⟩
    exact ⟨r, (hsame ..).mpr hdiffers, n, hexit, hr, hc⟩
  · rintro ⟨r, hdiffers, n, hexit, hr, hc⟩
    exact ⟨n, hexit, r, hr, hc, (hsame ..).mp hdiffers⟩

theorem same_leave_of_room {K : Nat} {callee caller : CallString Nat K} {site : Nat}
    (hsame : callee.same (caller.enter site) = true) (hroom : K = 0 ∨ caller.sites.length < K) :
    callee.leave.same caller = true := by
  rcases hroom with rfl | hroom
  · exact CallString.same_of_bound_zero ..
  · rcases CallString.same_iff.mp hsame with hnil | hnil | rfl
    · exact CallString.same_iff.mpr (Or.inl (by simp [CallString.leave, hnil]))
    · simp [CallString.sites_enter_of_lt hroom] at hnil
    · rw [CallString.leave_enter_of_lt hroom]
      exact CallString.same_iff.mpr (Or.inr (Or.inr rfl))

theorem restores_unless {text module : String} (hlift : Program.lift text module = .ok t.program)
    (maxIterations : Option Nat) :
    (∀ K, (t.analysis CallString.kind (∅ : CallString Nat K) ⟨none, maxIterations⟩).Always
      (fun s => (∀ m, ∀ r ∈ s.callsInto m, K = 0 ∨ r.caller.sites.length < K) →
        (t.analysis CallString.kind ∅ ⟨none, maxIterations⟩).Restores s)) ∧
    (t.analysis Arguments.kind ∅ ⟨none, maxIterations⟩).Always
      (fun s => ¬ t.Confuses s → (t.analysis Arguments.kind ∅ ⟨none, maxIterations⟩).Restores s) ∧
    ∀ s, (t.analysis Arguments.kind ∅ ⟨none, maxIterations⟩).Solved s → s.finished = true →
      (s.statistics.truncatedReturns ≠ 0 ↔ t.Confuses s) := by
  have hp := Program.coherent_of_lift hlift
  refine ⟨fun K => ?_, ?_, fun s h hs => ?_⟩
  · let a := t.analysis CallString.kind (∅ : CallString Nat K) ⟨none, maxIterations⟩
    have hordered : a.problem.Ordered := t.pointwise.ordered
    refine .of_course hordered (fun s h hroom => ?_)
    refine h.restores hordered hp.procedural (t.seedsEntries hp) ?_
    rintro r ⟨hdiffers, n, _, hr, _⟩
    obtain ⟨_, hsame⟩ := h.entered (a := a) rfl hr
    have hrestored : a.contexts.same (a.contexts.leave r.callee) r.caller = true :=
      same_leave_of_room hsame (hroom _ r hr)
    rw [hrestored] at hdiffers
    exact Bool.noConfusion hdiffers
  · let a := t.analysis Arguments.kind ∅ ⟨none, maxIterations⟩
    have hordered : a.problem.Ordered := t.pointwise.ordered
    refine .of_course hordered (fun s h hnone => ?_)
    refine h.restores hordered hp.procedural (t.seedsEntries hp) (fun r hr => ?_)
    exact hnone (t.confuses_iff.mpr ⟨r, hr⟩)
  · rw [t.confuses_iff]
    exact h.truncatedReturns_ne_zero_iff (a := t.analysis Arguments.kind ∅ ⟨none, maxIterations⟩)
      t.pointwise.ordered hp.procedural (t.seedsEntries hp) hs

def sharedLines : List String := [
  "declare source()",
  "fn helper() \x7b",
  "  ret",
  "\x7d",
  "fn use(%p) \x7b",
  "  call helper()",
  "  ret",
  "\x7d",
  "fn main() \x7b",
  "  %t = call source()",
  "  call helper()",
  "  call use(%t)",
  "  ret",
  "\x7d"]

def shared : Setup where
  program := {
    instructions := #[
      { op := .start, function := 1 },
      { op := .ret, function := 1, line := some 3 },
      { op := .start, function := 2 },
      { op := .call, callee := some 1, function := 2, line := some 6 },
      { op := .ret, function := 2, line := some 7 },
      { op := .start, function := 3 },
      { op := .call, output := some "t", callee := some 0, function := 3, line := some 10 },
      { op := .call, callee := some 1, function := 3, line := some 11 },
      { op := .call, inputs := [.result 6], callee := some 2, function := 3, line := some 12 },
      { op := .ret, function := 3, line := some 13 }]
    functions := #[
      ⟨"source", "shared.c", [], none⟩,
      ⟨"helper", "shared.c", [], some ⟨0, 2⟩⟩,
      ⟨"use", "shared.c", [⟨"p", false⟩], some ⟨2, 5⟩⟩,
      ⟨"main", "shared.c", [], some ⟨5, 10⟩⟩]
    globals := ∅
    openBody := none }
  registry := .defaults
  aliases := noAliases
  entries := [3]
  config := {}

theorem shared_lift : Program.lift (String.intercalate "\n" sharedLines) "shared.c" =
    .ok shared.program := by
  rw [Program.lift_lines]
  decide +kernel

def sharedByTwo : Run (CallString Nat 2) :=
  ((shared.analysis CallString.kind (∅ : CallString Nat 2) ⟨none, none⟩).solve 60 Run.start).1

def sharedByArguments :
    (shared.analysis Arguments.kind (∅ : Arguments ValueSet) ⟨none, none⟩).Fixpoint ∅ :=
  .ofSolve 60 (by decide +kernel)

theorem shared_restores :
    (shared.analysis CallString.kind (∅ : CallString Nat 2) ⟨none, none⟩).Restores sharedByTwo ∧
    shared.Confuses sharedByArguments.state := by
  have hrestores := restores_unless shared shared_lift none
  have hroom : ∀ m, ∀ r ∈ sharedByTwo.callsInto m, 2 = 0 ∨ r.caller.sites.length < 2 := by
    have hentries : ∀ e ∈ sharedByTwo.calls.entries, ∀ r ∈ e.2, r.caller.sites.length < 2 := by
      decide +kernel
    intro m r hr
    obtain ⟨rs, hrs, hr⟩ := State.exists_of_mem_callsInto hr
    exact Or.inr (hentries (m, rs) hrs r hr)
  exact ⟨(hrestores.1 2).solve Run.start (.initial ∅) 60 hroom,
    (hrestores.2.2 _ sharedByArguments.solved.solved sharedByArguments.finished).mp
      (by decide +kernel)⟩

theorem shared_truncates :
    Program.lift (String.intercalate "\n" sharedLines) "shared.c" = .ok shared.program ∧
    (shared.analysis Arguments.kind ∅ ⟨none, none⟩).Solved sharedByArguments.state ∧
    sharedByArguments.state.finished = true ∧
    sharedByArguments.state.statistics.truncatedReturns = 1 ∧
    ∃ r ∈ sharedByArguments.state.callsInto 1,
      sharedByArguments.state.entriesAt 1 = [(r.callee, ∅)] ∧
        Arguments.same (Arguments.leave r.callee) r.caller = false := by
  refine ⟨shared_lift, sharedByArguments.solved.solved, sharedByArguments.finished, ?_, ?_⟩
  · decide +kernel
  · decide +kernel

end Interproc.Taint.Setup
