import Interproc.Context.Either
import Interproc.Proofs.Solver.Budget
import Interproc.Solver.Comparisons
import Interproc.Solver.Log

namespace Interproc

open Solver

variable {N M D C C' S E : Type}

namespace Solver.State

variable [Ord N] [Ord M]

def mapContexts (f : C → C') (s : State N M D C S E) : State N M D C' S E where
  table := s.table.mapValues (List.map (Prod.map f id))
  worklist := s.worklist.map (Prod.map id f)
  calls := s.calls.mapValues (List.map (CallRecord.mapContexts f))
  statistics := s.statistics
  seeded := s.seeded
  finished := s.finished
  client := s.client
  trail := s.trail.map (Event.mapContexts f)

theorem whole_mapContexts [Std.TransOrd N] [Std.TransOrd M] (f : C → C') :
    Mirror.Whole (mapContexts f : State N M D C S E → State N M D C' S E) f where
  entriesAt s n := by
    simp only [State.entriesAt, mapContexts, OrdMap.getD, OrdMap.get?_mapValues]
    cases s.table.get? n <;> rfl
  callsInto s m := by
    simp only [State.callsInto, mapContexts, OrdMap.getD, OrdMap.get?_mapValues]
    cases s.calls.get? m <;> rfl
  client _ := rfl
  setEntries s n es := by
    simp only [mapContexts, OrdMap.insert_mapValues]
  setCalls s m rs := by
    simp only [mapContexts, OrdMap.insert_mapValues]
  setClient _ _ := rfl
  queue _ _ _ := by simp [mapContexts, State.queue]
  emit _ _ _ _ := rfl
  count _ _ _ := rfl
  worklist _ := rfl
  setWorklist _ _ := rfl
  countAll _ _ := rfl
  statistics _ := rfl
  seeded _ := rfl
  setSeeded _ := rfl
  setFinished _ := rfl
  close _ _ _ := rfl

end Solver.State

namespace Analysis

theorem recordsAlong_nil {σ τ α : Type} {φ : σ → τ} {change : τ → α → τ}
    {records : τ → α → List Record} {xs : List α} (hrecords : ∀ s, ∀ x ∈ xs, records (φ s) x = [])
    (hchange : ∀ s, ∀ x ∈ xs, ∃ t, change (φ s) x = φ t) (s : σ) :
    recordsAlong change records xs (φ s) = [] := by
  induction xs generalizing s with
  | nil => rfl
  | cons x xs ih =>
      obtain ⟨t, ht⟩ := hchange s x (List.mem_cons_self ..)
      rw [recordsAlong, hrecords s x (List.mem_cons_self ..), ht]
      exact ih (fun u y hy => hrecords u y (List.mem_cons_of_mem _ hy))
        (fun u y hy => hchange u y (List.mem_cons_of_mem _ hy)) t

theorem recordsAlong_map {σ α β : Type} {change : σ → β → σ} {records : σ → β → List Record}
    (g : α → β) (xs : List α) (s : σ) : recordsAlong change records (xs.map g) s =
      recordsAlong (fun s x => change s (g x)) (fun s x => records s (g x)) xs s := by
  induction xs generalizing s with
  | nil => rfl
  | cons x xs ih => rw [List.map_cons, recordsAlong, ih, recordsAlong]

def Silent (k' : ContextKind N D C') (f : C → C') : Prop :=
  ∀ operation c d, k'.compared operation (f c) (f d) = []

section Silence

variable {a : Analysis N M D C S E} {k' : ContextKind N D C'} {f : C → C'} {i : Option Nat}

theorem arrangeRecords_silent (hsilent : Silent k' f) (e : C × D) (xs : List (C × D)) :
    (a.mirror k' f i).arrangeRecords (Prod.map f id e) (xs.map (Prod.map f id)) = [] := by
  have hbefore : ∀ x : C × D, (a.mirror k' f i).contexts.compared "is_less_than" (Prod.map f id e).1
    (Prod.map f id x).1 = [] := fun x => hsilent "is_less_than" e.1 x.1
  induction xs with
  | nil => rfl
  | cons x xs ih => simp only [List.map_cons, arrangeRecords, hbefore, ih, List.nil_append, ite_self]

theorem sameRecords_silent (hsilent : Silent k' f) (c d : C) :
    (a.mirror k' f i).sameRecords (f c) (f d) = [] :=
  hsilent "is_equal" c d

theorem knownRecords_silent [DecidableEq N] (hsilent : Silent k' f) (r : CallRecord N C)
    (rs : List (CallRecord N C)) : (a.mirror k' f i).knownRecords (r.mapContexts f)
      (rs.map (CallRecord.mapContexts f)) = [] := by
  induction rs with
  | nil => rfl
  | cons r' rs ih =>
      simp only [List.map_cons, knownRecords, CallRecord.mapContexts, sameRecords_silent hsilent,
        List.nil_append] at ih ⊢
      simp only [ih, ite_self]

variable [Ord N] [Std.TransOrd N] [Ord M] [Std.TransOrd M]
variable {φ : State N M D C S E → State N M D C' S E} {s : State N M D C S E} {n : N} {c : C} {d : D}

theorem resultsRecords_silent (hk : a.contexts.Mirrors k' f) (hφ : State.Mirror φ f)
    (hsilent : Silent k' f) (s : State N M D C S E) (n : N) :
    (a.mirror k' f i).resultsRecords (φ s) n = [] := by
  rw [resultsRecords, hφ.entriesAt, recordsAlong_map]
  exact recordsAlong_nil (φ := List.map (Prod.map f id))
    (fun xs e _ => arrangeRecords_silent hsilent e xs) (fun xs e _ => ⟨_, arrange_mirror hk e xs⟩) []

theorem lookupRecords_silent (hφ : State.Mirror φ f) (hsilent : Silent k' f)
    (s : State N M D C S E) (n : N) (c : C) :
    (a.mirror k' f i).lookupRecords (φ s) n (f c) = [] := by
  simp only [lookupRecords, hφ.entriesAt, List.flatMap_eq_nil_iff]
  intro e he
  obtain ⟨e₀, _, rfl⟩ := List.mem_map.mp (List.mem_of_mem_take he)
  exact hsilent "is_equal" e₀.1 c

theorem joinRecords_silent (hk : a.contexts.Mirrors k' f) (hφ : State.Mirror φ f)
    (hsilent : Silent k' f) (xs : List N) :
    (a.mirror k' f i).joinRecords (f c) d xs (φ s) = [] :=
  recordsAlong_nil (fun t x _ => lookupRecords_silent hφ hsilent t x c)
    (fun _ _ _ => ⟨_, joinInto_mirror hk hφ⟩) s

theorem returnRecords_silent (hk : a.contexts.Mirrors k' f) (hφ : State.Mirror φ f)
    (hsilent : Silent k' f) (r : CallRecord N C) :
    (a.mirror k' f i).returnRecords n (f c) d (φ s) (r.mapContexts f) = [] := by
  have hleave : (a.mirror k' f i).contexts.leave (f c) = f (a.contexts.leave c) := hk.leave c
  simp only [returnRecords, hleave, List.append_eq_nil_iff]
  exact ⟨sameRecords_silent hsilent _ r.caller, joinRecords_silent hk hφ hsilent _⟩

theorem exitRecords_silent (hk : a.contexts.Mirrors k' f) (hφ : State.Mirror φ f)
    (hsilent : Silent k' f) : (a.mirror k' f i).exitRecords n (f c) d (φ s) = [] := by
  have hfunction : (a.mirror k' f i).graph.functionOf n = a.graph.functionOf n := rfl
  simp only [exitRecords, hfunction, hφ.callsInto, filter_mirror hk, recordsAlong_map,
    List.append_eq_nil_iff, List.flatMap_eq_nil_iff]
  refine ⟨fun r hr => ?_, recordsAlong_nil (fun _ r _ => returnRecords_silent hk hφ hsilent r)
    (fun _ r _ => ⟨_, returnTo_mirror hk hφ r⟩) s⟩
  obtain ⟨r₀, _, rfl⟩ := List.mem_map.mp hr
  exact sameRecords_silent hsilent r₀.callee c

variable [DecidableEq N]

theorem enterRecords_silent (hk : a.contexts.Mirrors k' f) (hφ : State.Mirror φ f)
    (hsilent : Silent k' f) {m : M} {entry : N} (henter : a.EntersAlike k' f φ n entry d) :
    (a.mirror k' f i).enterRecords n (f c) m d (φ s) entry = [] := by
  have hcontext : (a.mirror k' f i).contexts.enter (f c) n entry d =
    f (a.contexts.enter c n entry d) := henter.enter c
  have hfunction : (a.mirror k' f i).graph.functionOf entry = a.graph.functionOf entry := rfl
  have hrecord : ∀ t c', (a.mirror k' f i).recordCall ⟨n, entry, f c, f c'⟩ (φ t) =
      ((a.recordCall ⟨n, entry, c, c'⟩ t).1, φ (a.recordCall ⟨n, entry, c, c'⟩ t).2) :=
    fun t c' => recordCall_mirror hk hφ ⟨n, entry, c, c'⟩
  have hknown : ∀ c' (rs : List (CallRecord N C)), (a.mirror k' f i).knownRecords ⟨n, entry, f c, f c'⟩
      (rs.map (CallRecord.mapContexts f)) = [] :=
    fun c' rs => knownRecords_silent hsilent ⟨n, entry, c, c'⟩ rs
  have hrequeue : ∀ t c', (a.mirror k' f i).requeueRecords m (f c') (φ t) = [] := fun t c' =>
    List.flatMap_eq_nil_iff.mpr (fun x _ => lookupRecords_silent hφ hsilent t x c')
  simp only [enterRecords, hcontext, hfunction, adopt_mirror hk hφ, hrecord, hφ.callsInto, hknown,
    lookupRecords_silent hφ hsilent, joinInto_mirror hk hφ, hrequeue, List.append_nil, ite_self]

theorem callRecords_silent (hk : a.contexts.Mirrors k' f) (hφ : State.Mirror φ f)
    (hsilent : Silent k' f) (henter : a.CallsAlike k' f φ n d) :
    (a.mirror k' f i).callRecords n (f c) d (φ s) = [] := by
  have hcallee : ∀ t, ∀ m ∈ (a.graph.callees n).takeWhile a.graph.hasFunction,
      (a.mirror k' f i).calleeRecords n (f c) d (φ t) m = [] := fun t m hm =>
    recordsAlong_nil (φ := φ) (fun _ x hx => enterRecords_silent hk hφ hsilent (henter m hm x hx))
      (fun _ x hx => ⟨_, enterAt_mirror hk hφ (henter m hm x hx)⟩) t
  simp only [callRecords, enterCallees_mirror hk hφ henter, List.append_eq_nil_iff]
  refine ⟨recordsAlong_nil hcallee
    (fun t m hm => ⟨_, enterCallee_mirror hk hφ (henter m hm)⟩) s, ?_⟩
  split
  · exact recordsAlong_nil (fun t x _ => lookupRecords_silent hφ hsilent t x c)
      (fun t x _ => ⟨_, bypassTo_mirror hk hφ⟩) _
  · rfl

theorem visitRecords_silent (hk : a.contexts.Mirrors k' f) (hφ : State.Mirror φ f)
    (hsilent : Silent k' f) (henter : a.CallsAlike k' f φ n d) :
    (a.mirror k' f i).visitRecords n (f c) d (φ s) = [] := by
  simp only [visitRecords, callRecords_silent hk hφ hsilent henter,
    exitRecords_silent hk hφ hsilent, joinRecords_silent hk hφ hsilent, ite_self]

theorem stepRecords_silent (hk : a.contexts.Mirrors k' f) (hφ : State.Mirror φ f)
    (hsilent : Silent k' f) (henter : ∀ n d, a.CallsAlike k' f φ n d) :
    (a.mirror k' f i).stepRecords n (f c) (φ s) = [] := by
  simp only [stepRecords, lookupRecords_silent hφ hsilent, lookup_mirror hk hφ, List.nil_append]
  cases a.lookup s n c with
  | none => rfl
  | some e => exact visitRecords_silent hk hφ hsilent (henter n e.2)

theorem runRecords_silent (hk : a.contexts.Mirrors k' f) (hφ : State.Mirror.Running φ f)
    (hsilent : Silent k' f) (henter : ∀ n d, a.CallsAlike k' f φ n d) (fuel : Nat)
    (s : State N M D C S E) : (a.mirror k' f i).runRecords fuel (φ s) = [] := by
  induction fuel generalizing s with
  | zero => rfl
  | succ fuel ih =>
      cases hw : s.worklist with
      | nil => simp only [runRecords, hφ.worklist, hw, List.map_nil]
      | cons w rest =>
          have hstep := step_mirror (i := i) (n := w.1) (c := w.2) (s := { s with worklist := rest })
            hk hφ (fun n _ d _ _ _ => henter n d)
          simp only [runRecords, hφ.worklist, hw, List.map_cons, Prod.map_fst, Prod.map_snd, id,
            hφ.setWorklist, hstep, stepRecords_silent hk hφ.toMirror hsilent henter, List.nil_append]
          split
          · rename_i t heq
            obtain ⟨rfl, _⟩ := Prod.mk.inj heq
            exact ih _
          · rfl

theorem solveRecords_silent (hk : a.contexts.Mirrors k' f) (hφ : State.Mirror.Whole φ f)
    (hsilent : Silent k' f) (henter : ∀ n d, a.CallsAlike k' f φ n d) (fuel : Nat)
    (s : State N M D C S E) : (a.mirror k' f i).solveRecords fuel (φ s) = [] := by
  have hseed : (a.mirror k' f i).seedRecords (φ s) = [] :=
    recordsAlong_nil (fun t x _ => lookupRecords_silent hφ.toMirror hsilent t x.1 a.initial)
      (fun t x _ => ⟨_, joinInto_mirror hk hφ.toMirror⟩) s
  have hstart : (if (φ s).seeded then φ s else (a.mirror k' f i).seed (φ s)) =
      φ (if s.seeded then s else a.seed s) := by
    rw [hφ.seeded, seed_mirror hk hφ]
    split <;> rfl
  simp only [solveRecords, hseed, hstart, ite_self, List.nil_append,
    runRecords_silent hk hφ.toRunning hsilent henter]

end Silence

section Seen

variable [Ord N] [Std.TransOrd N] [DecidableEq N] [Described N] [Ord M] [Std.TransOrd M] [Described D]

/-- The runs of `b` are those of `a` with contexts seen through `f`: visit by visit and call by call,
with the same events, texts and log. No comparison of contexts is logged. -/
structure SeenAs (a : Analysis N M D C S E) (b : Analysis N M D C' S E) (f : C → C') : Prop where
  initial : b.initial = f a.initial
  step : ∀ n c s, b.step n (f c) (s.mapContexts f) =
    ((a.step n c s).1.mapContexts f, (a.step n c s).2)
  solve : ∀ fuel s, b.solve fuel (s.mapContexts f) =
    ((a.solve fuel s).1.mapContexts f, (a.solve fuel s).2)
  solves : ∀ fuel j x, b.solves fuel j (.initial x) =
    ((a.solves fuel j (.initial x)).1.mapContexts f, (a.solves fuel j (.initial x)).2)
  resultsAt : ∀ (s : State N M D C S E) n, b.resultsAt (s.mapContexts f) n =
    (a.resultsAt s n).map (Prod.map f id)
  text : ∀ c, b.contexts.text (f c) = a.contexts.text c
  ownRecords : ∀ e : Event N D C E, (e.mapContexts f).ownRecords b.contexts b.limits =
    e.ownRecords a.contexts a.limits
  observedRecords : ∀ config (e : Event N D C E), (e.mapContexts f).observedRecords b.contexts config =
    e.observedRecords a.contexts config
  solveRecords : ∀ fuel (s : State N M D C S E), b.solveRecords fuel (s.mapContexts f) = []
  resultsRecords : ∀ (s : State N M D C S E) n, b.resultsRecords (s.mapContexts f) n = []

theorem seenAs_mirror {a : Analysis N M D C S E} {k' : ContextKind N D C'} {f : C → C'}
    (hk : a.contexts.Mirrors k' f)
    (henter : ∀ c site entry facts,
      k'.enter (f c) site entry facts = f (a.contexts.enter c site entry facts))
    (hmissing : k'.missing = a.contexts.missing) (hsilent : Silent k' f)
    (htext : ∀ c, k'.text (f c) = a.contexts.text c) :
    a.SeenAs (a.mirror k' f a.limits.maxIterations) f := by
  have hφ : State.Mirror.Whole (State.mapContexts f : State N M D C S E → State N M D C' S E) f :=
    State.whole_mapContexts f
  have hcalls : ∀ n d, a.CallsAlike k' f (State.mapContexts f) n d :=
    callsAlike_of_enter henter hmissing (fun _ _ _ _ => rfl)
  have hsolve : ∀ fuel s, (a.mirror k' f a.limits.maxIterations).solve fuel (s.mapContexts f) =
      ((a.solve fuel s).1.mapContexts f, (a.solve fuel s).2) :=
    fun fuel s => solve_mirror hk hφ fuel (fun n _ d _ _ _ => hcalls n d)
  constructor
  case initial => rfl
  case step =>
    exact fun n c s => step_mirror hk hφ.toRunning (fun n _ d _ _ _ => hcalls n d)
  case solve => exact hsolve
  case solves =>
    intro fuel j x
    exact solves_mirror a (s := .initial x) hk hφ fuel j (fun n _ d _ _ _ => hcalls n d)
  case resultsAt => exact resultsAt_mirror hk hφ.toMirror
  case text => exact htext
  case ownRecords =>
    intro e
    cases e <;> simp [Event.ownRecords, Event.mapContexts, mirror, htext]
  case observedRecords =>
    intro config e
    cases e <;> simp [Event.observedRecords, Event.mapContexts, mirror, htext]
  case solveRecords => exact solveRecords_silent hk hφ hsilent hcalls
  case resultsRecords => exact resultsRecords_silent hk hφ.toMirror hsilent

variable {K : Nat} [EmptyCollection D] [DecidableEq D] [Ord D]

theorem seenAs_either (g : Icfg N M) (p : Problem N M D S E) (limits : Limits) :
    (∀ c : CallString N K, SeenAs (⟨g, p, CallString.kind, c, limits⟩ : Analysis N M D _ S E)
      ⟨g, p, EitherContext.kind, .callString c, limits⟩
      (EitherContext.callString : CallString N K → EitherContext N D K)) ∧
    (∀ c : Arguments D, SeenAs (⟨g, p, Arguments.kind, c, limits⟩ : Analysis N M D _ S E)
      ⟨g, p, EitherContext.kind, .arguments c, limits⟩
      (EitherContext.arguments : Arguments D → EitherContext N D K)) := by
  have hcallString : ContextKind.Mirrors (CallString.kind : ContextKind N D (CallString N K))
      EitherContext.kind EitherContext.callString :=
    ⟨fun _ => rfl, fun _ => rfl, fun _ _ => rfl, fun _ _ => rfl⟩
  have harguments : ContextKind.Mirrors (Arguments.kind : ContextKind N D (Arguments D))
      (EitherContext.kind (K := K)) EitherContext.arguments :=
    ⟨fun _ => rfl, fun _ => rfl, fun _ _ => rfl, fun _ _ => rfl⟩
  exact ⟨fun c => seenAs_mirror hcallString (fun _ _ _ _ => rfl) rfl (fun _ _ _ => rfl) (fun _ => rfl),
    fun c => seenAs_mirror harguments (fun _ _ _ _ => rfl) rfl (fun _ _ _ => rfl) (fun _ => rfl)⟩

end Seen

end Analysis

namespace Graph

def lateCallEither : Analysis Int Nat IntSet (EitherContext Int IntSet 1) Unit Empty :=
  ⟨lateCall.icfg, lateCallAnalysis.problem, EitherContext.kind, .callString ∅, ⟨none, none⟩⟩

theorem lateCall_seenAs_either : lateCallState.finished = true ∧
    lateCallState.statistics.iterations = 18 ∧
    lateCallEither.solve 30 (.initial ()) =
      (lateCallState.mapContexts EitherContext.callString, none) ∧
    lateCallEither.solveRecords 30 (.initial ()) = [] ∧
    ∀ n, lateCallEither.resultsAt (lateCallEither.solve 30 (.initial ())).1 n =
      (lateCallAnalysis.resultsAt lateCallState n).map (Prod.map EitherContext.callString id) := by
  have hseen : lateCallAnalysis.SeenAs lateCallEither EitherContext.callString :=
    (Analysis.seenAs_either lateCall.icfg lateCallAnalysis.problem ⟨none, none⟩).1 ∅
  have hsolve : lateCallEither.solve 30 (.initial ()) =
      (lateCallState.mapContexts EitherContext.callString, none) :=
    (hseen.solve 30 (.initial ())).trans (congrArg (Prod.mk _)
      (by decide +kernel : (lateCallAnalysis.solve 30 (.initial ())).2 = none))
  refine ⟨lateCall_solved.2, by decide +kernel, hsolve, hseen.solveRecords 30 (.initial ()), ?_⟩
  intro n
  rw [hsolve]
  exact hseen.resultsAt lateCallState n

end Graph

end Interproc
