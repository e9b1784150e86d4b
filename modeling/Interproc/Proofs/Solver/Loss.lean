import Interproc.Proofs.Solver.Course
import Interproc.Proofs.Solver.Walk

namespace Interproc

open Solver

variable {N M D C S E : Type}

def Solver.Event.lossy : Event N D C E → Bool
  | .widened .. | .truncated .. => true
  | _ => false

namespace Solver.State

variable [Ord N] [Ord M]

def firstAt (s : State N M D C S E) (n : N) : Option C := ((s.entriesAt n).map Prod.fst).head?

structure Lossless (s t : State N M D C S E) : Prop where
  trail : ∃ es, (∀ e ∈ es, e.lossy = false) ∧ t.trail = es ++ s.trail
  truncated : t.statistics.truncatedReturns = s.statistics.truncatedReturns

variable {s t u : State N M D C S E} {n : N} {c : C}

theorem firstAt_mono (h : (s.entriesAt n).map Prod.fst <+: (t.entriesAt n).map Prod.fst)
    (hc : s.firstAt n = some c) : t.firstAt n = some c := by
  obtain ⟨cs, hcs⟩ := h
  simp only [firstAt] at hc
  rw [firstAt, ← hcs, List.head?_append, hc, Option.some_or]

theorem Lossless.trans (h : s.Lossless t) (h' : t.Lossless u) : s.Lossless u where
  trail := by
    obtain ⟨es, hes, ht⟩ := h.trail
    obtain ⟨es', hes', hu⟩ := h'.trail
    refine ⟨es' ++ es, fun e he => (List.mem_append.mp he).elim (hes' e) (hes e), ?_⟩
    rw [hu, ht, List.append_assoc]
  truncated := h'.truncated.trans h.truncated

theorem Aside.lossless (h : s.Aside t) : s.Lossless t where
  trail := by
    obtain ⟨es, hes, ht⟩ := h.trail
    refine ⟨es, fun e he => ?_, ht⟩
    have haside := hes e he
    cases e <;> first | rfl | simp [Event.aside] at haside
  truncated := by rw [h.statistics]

theorem Lossless.suffix (h : s.Lossless t) {e : Event N D C E} {older : List (Event N D C E)}
    (he : e.lossy = true) (hevent : e :: older <:+ t.trail) : e :: older <:+ s.trail := by
  obtain ⟨es, hes, ht⟩ := h.trail
  rw [ht] at hevent
  exact suffix_of_suffix_append (fun hmem => by simp [hes e hmem] at he) hevent

end Solver.State

namespace Analysis

variable [Ord N] [Ord M] {a : Analysis N M D C S E} {s t : State N M D C S E} {n : N} {c : C}

theorem create_lossless (site entry : N) (c : C) (s : State N M D C S E) :
    s.Lossless (a.create site entry c s) := by
  unfold create
  split
  · exact ⟨⟨[.created entry c, .unsure site c], by simp [Event.lossy], rfl⟩, rfl⟩
  · exact ⟨⟨[.created entry c], by simp [Event.lossy], rfl⟩, rfl⟩

theorem recordCall_lossless [DecidableEq N] [Std.TransOrd M] (r : CallRecord N C)
    (s : State N M D C S E) : s.Lossless (a.recordCall r s).2 :=
  ⟨⟨[], by simp, recordCall_trail r⟩, by rw [recordCall_statistics]⟩

theorem joinInto_lossless [Std.TransOrd N] (n : N) (c : C) (d : D) (s : State N M D C S E) :
    s.Lossless (a.joinInto n c d s) := by
  rcases joinInto_told a n c d s with h | ⟨_, _, _, htrail, hcount⟩ | ⟨_, htrail, hcount⟩
  · rw [h]
    exact ⟨⟨[], by simp, rfl⟩, rfl⟩
  · exact ⟨⟨[_], by simp [Event.lossy], htrail⟩, by rw [hcount]⟩
  · exact ⟨⟨[_], by simp [Event.lossy], htrail⟩, by rw [hcount]⟩

variable [Std.TransOrd N] [DecidableEq N] [Std.TransOrd M]

theorem Deed.lossy_cases (hdeed : a.Deed n c s t) : s.Lossless t ∨
    (∃ entry c' max first d es, a.limits.maxContexts = some max ∧
      s.entriesAt entry = (first, d) :: es ∧ max ≤ (s.entriesAt entry).length ∧
      t = s.widen entry c' first) ∨
    (∃ r, a.graph.isCall n = false ∧ a.graph.isExit n = true ∧
      r ∈ s.callsInto (a.graph.functionOf n) ∧ a.contexts.same r.callee c = true ∧
      a.contexts.same (a.contexts.leave c) r.caller = false ∧
      t = s.truncate r.site (a.contexts.leave c) r.caller) := by
  cases hdeed with
  | aside haside => exact Or.inl haside.lossless
  | requeue => exact Or.inl ⟨⟨[], by simp, rfl⟩, rfl⟩
  | pass => exact Or.inl (joinInto_lossless ..)
  | bypass => exact Or.inl (joinInto_lossless ..)
  | widen hmax hes hfull _ => exact Or.inr (Or.inl ⟨_, _, _, _, _, _, hmax, hes, hfull, rfl⟩)
  | rejoin => exact Or.inl ((recordCall_lossless ..).trans (joinInto_lossless ..))
  | @begin m entry c' d =>
      have hcreate := create_lossless (a := a) n entry c' s
      exact Or.inl ((hcreate.trans (recordCall_lossless ..)).trans (joinInto_lossless ..))
  | truncate hcall hexit hr hsame hdiffers =>
      exact Or.inr (Or.inr ⟨_, hcall, hexit, hr, hsame, hdiffers, rfl⟩)
  | leave => exact Or.inl (joinInto_lossless ..)

theorem Deed.joins (hg : a.graph.Procedural) (hs : a.Tabled s) (hc : s.Tracks n c)
    (hdeed : a.Deed n c s t) : t.table = s.table ∨
    ∃ n' c' d u, u.table = s.table ∧ t = a.joinInto n' c' d u ∧
      ((∃ n₀, a.graph.functionOf n' = a.graph.functionOf n₀ ∧ s.Tracks n₀ c') ∨
        ∃ m, n' ∈ a.graph.starts m ∧ (s.Tracks n' c' ∨ a.Admits s n')) := by
  cases hdeed with
  | aside haside => exact Or.inl haside.table
  | requeue => exact Or.inl rfl
  | pass _ _ hn' =>
      exact Or.inr ⟨_, _, _, s, rfl, rfl, Or.inl ⟨n, hg.functionOf_succ hn', hc⟩⟩
  | bypass _ hn' =>
      exact Or.inr ⟨_, _, _, s, rfl, rfl, Or.inl ⟨n, hg.functionOf_returnSite hn', hc⟩⟩
  | widen => exact Or.inl rfl
  | rejoin _ _ hentry htracks _ =>
      exact Or.inr ⟨_, _, _, _, recordCall_table _, rfl, Or.inr ⟨_, hentry, Or.inl htracks⟩⟩
  | begin _ _ hentry _ _ hadmits =>
      exact Or.inr ⟨_, _, _, _, (recordCall_table _).trans (create_quiet a ..).table, rfl,
        Or.inr ⟨_, hentry, Or.inr hadmits⟩⟩
  | truncate => exact Or.inl rfl
  | @leave n' d r _ _ hr _ hn' =>
      exact Or.inr ⟨_, _, _, s, rfl, rfl,
        Or.inl ⟨r.site, hg.functionOf_returnSite hn', (hs.recorded hr).2.1⟩⟩

variable (a) in
def Widened (max : Nat) (s : State N M D C S E) (entry : N) (into : C)
    (older : List (Event N D C E)) : Prop :=
  ∃ u, a.Course u ∧ u.trail = older ∧ max ≤ (u.entriesAt entry).length ∧
    u.firstAt entry = some into ∧ s.firstAt entry = some into

theorem Widened.mono {max : Nat} {entry : N} {into : C} {older : List (Event N D C E)}
    (h : a.Widened max s entry into older)
    (hst : (s.entriesAt entry).map Prod.fst <+: (t.entriesAt entry).map Prod.fst) :
    a.Widened max t entry into older := by
  obtain ⟨u, hu, holder, hfull, hfirst, hs⟩ := h
  exact ⟨u, hu, holder, hfull, hfirst, State.firstAt_mono hst hs⟩

section Course

variable [Std.LawfulEqOrd N]

theorem Course.widened {max : Nat} (hmax : a.limits.maxContexts = some max) (h : a.Course s)
    {entry : N} {dropped into : C} {older : List (Event N D C E)}
    (hevent : .widened entry dropped into :: older <:+ s.trail) :
    a.Widened max s entry into older := by
  induction h with
  | fresh => exact absurd (List.eq_nil_of_suffix_nil hevent) (List.cons_ne_nil _ _)
  | @aside s t _ haside ih =>
      have hcontexts : (s.entriesAt entry).map Prod.fst = (t.entriesAt entry).map Prod.fst := by
        rw [State.entriesAt_congr haside.table]
      exact (ih (haside.lossless.suffix rfl hevent)).mono (hcontexts ▸ List.prefix_refl _)
  | seed _ _ _ ih =>
      exact (ih ((joinInto_lossless ..).suffix rfl hevent)).mono (contexts_joinInto entry)
  | visit _ _ _ ih => exact ih (suffix_of_suffix_cons (by simp) hevent)
  | @deed s t n c hs _ hdeed ih =>
      have hkept := hdeed.contexts entry
      rcases hdeed.lossy_cases with hlossless |
        ⟨entry', c', max', first, d, es, hmax', hes, hfull, rfl⟩ | ⟨r, _, _, _, _, _, rfl⟩
      · exact (ih (hlossless.suffix rfl hevent)).mono hkept
      · -- the event is the one that this deed tells, or it was told before
        rcases List.suffix_cons_iff.mp hevent with heq | hevent
        · obtain ⟨hwidened, rfl⟩ := List.cons.inj heq
          obtain ⟨rfl, rfl, rfl⟩ := Event.widened.inj hwidened
          obtain rfl : max = max' := Option.some.inj (hmax.symm.trans hmax')
          have hfirst : s.firstAt entry = some into := by simp [State.firstAt, hes]
          exact ⟨s, hs, rfl, hfull, hfirst, hfirst⟩
        · exact (ih hevent).mono hkept
      · exact (ih (suffix_of_suffix_cons (by simp) hevent)).mono hkept

theorem Deed.calls [a.contexts.Lawful] (hdeed : a.Deed n c s t) : t.calls = s.calls ∨
    ∃ u r, u.calls = s.calls ∧ t.calls = (a.recordCall r u).2.calls ∧
      ((∃ d, a.contexts.same r.callee (a.contexts.enter r.caller r.site r.entry d) = true) ∨
        a.limits.maxContexts.isSome = true) := by
  cases hdeed with
  | aside haside => exact Or.inl haside.calls
  | requeue => exact Or.inl rfl
  | pass => exact Or.inl joinInto_calls
  | bypass => exact Or.inl joinInto_calls
  | widen => exact Or.inl rfl
  | rejoin _ _ _ _ hsame =>
      exact Or.inr ⟨s, _, rfl, joinInto_calls, hsame.imp_left (fun hsame => ⟨_, hsame⟩)⟩
  | @begin m entry c' d _ _ _ hc' _ _ =>
      refine Or.inr ⟨_, _, (create_quiet a n entry c' s).calls, joinInto_calls, Or.inl ⟨d, ?_⟩⟩
      exact hc' ▸ ContextKind.Lawful.same_refl _
  | truncate => exact Or.inl rfl
  | leave => exact Or.inl joinInto_calls

variable [Std.LawfulEqOrd M] [DecidableEq M] [a.contexts.Lawful]

theorem Deed.recorded (hdeed : a.Deed n c s t) {r : CallRecord N C} (m : M)
    (hr : r ∈ s.callsInto m) : r ∈ t.callsInto m := by
  rcases hdeed.calls with hcalls | ⟨u, r', hu, hcalls, _⟩
  · rwa [State.callsInto_congr hcalls]
  · rw [← State.callsInto_congr hu] at hr
    rw [State.callsInto_congr hcalls]
    exact mem_callsInto_recordCall.mpr (Or.inl hr)

theorem Course.rooted (hp : a.problem.Ordered) (hg : a.graph.Procedural)
    (hseeds : a.problem.SeedsEntries a.graph) (h : a.Course s) : a.Rooted s := by
  induction h with
  | fresh =>
      rintro n c ⟨d, hd⟩
      simp at hd
  | aside _ haside ih => exact ih.congr haside.table
  | seed _ hd _ ih =>
      obtain ⟨m, hn⟩ := hseeds hd
      exact ih.joinInto_start hg.toAgrees hn
  | visit _ _ _ ih => exact ih.congr rfl
  | deed hs hc hdeed ih =>
      rcases hdeed.joins hg (hs.tabled hp) hc with htable |
        ⟨n', c', d, u, hu, rfl, ⟨n₀, hn₀, hc'⟩ | ⟨m, hstart, _⟩⟩
      · exact ih.congr htable
      · exact Rooted.joinInto_inside (ih.congr hu) hn₀ ((State.tracks_congr hu).mpr hc')
      · exact Rooted.joinInto_start hg.toAgrees (ih.congr hu) hstart

theorem Course.length_start_le (hp : a.problem.Ordered) (hg : a.graph.Procedural)
    (hseeds : a.problem.SeedsEntries a.graph) {max : Nat} (hmax : a.limits.maxContexts = some max)
    (h : a.Course s) {m : M} (hn : n ∈ a.graph.starts m) :
    ((s.entriesAt n).map Prod.fst).length ≤ Nat.max 1 max := by
  induction h generalizing n with
  | fresh => simp
  | aside _ haside ih =>
      rw [State.entriesAt_congr haside.table]
      exact ih hn
  | @seed s n' d hs _ hinitial ih =>
      rcases contexts_joinInto_cases (a := a) (s := s) (n := n') (c := a.initial) (d := d) n with
        hsame | ⟨rfl, hnone, hnew⟩
      · rw [hsame]
        exact ih hn
      · -- nothing was tracked before, as the first context would be found
        have hnil : s.entriesAt n = [] := by
          refine List.eq_nil_iff_forall_not_mem.mpr (fun e he => not_tracks_of_lookup hnone ?_)
          exact hinitial n e.1 ⟨e.2, he⟩ ▸ ⟨e.2, he⟩
        rw [hnew, hnil]
        exact Nat.le_max_left ..
  | visit _ _ _ ih => exact ih hn
  | @deed s t n₁ c₁ hs hc hdeed ih =>
      have hrooted : a.Rooted s := hs.rooted hp hg hseeds
      rcases hdeed.joins hg (hs.tabled hp) hc with htable | ⟨n', c', d, u, hu, rfl, hwhence⟩
      · rw [State.entriesAt_congr htable]
        exact ih hn
      · have hold : ((u.entriesAt n).map Prod.fst).length ≤ Nat.max 1 max := by
          rw [State.entriesAt_congr hu]
          exact ih hn
        rcases contexts_joinInto_cases (a := a) (s := u) (n := n') (c := c') (d := d) n with
          hsame | ⟨rfl, hnone, hnew⟩
        · rwa [hsame]
        · have hnew' : ¬ s.Tracks n c' :=
            not_tracks_of_lookup (by rwa [lookup_congr hu] at hnone)
          -- what comes from the inside of a function is tracked at its start already
          rcases hwhence with ⟨n₀, hn₀, hc'⟩ | ⟨m', _, hc' | hadmits⟩
          · obtain ⟨entry, hentry, hc'⟩ := hrooted hc'
            rw [← hn₀, hg.functionOf_start hn] at hentry
            rw [hg.start_unique hentry hn] at hc'
            exact absurd hc' hnew'
          · exact absurd hc' hnew'
          · rw [hnew, List.length_append, List.length_map, State.entriesAt_congr hu]
            exact hadmits max hmax

/-- The starts of functions have few contexts, and the nodes inside have no others. What is widened
at an entry goes to the first context there. -/
structure Narrow (a : Analysis N M D C S E) (max : Nat) (s : State N M D C S E) : Prop where
  starts : ∀ m, ∀ n ∈ a.graph.starts m, (s.entriesAt n).length ≤ Nat.max 1 max
  inside : ∀ n c, s.Tracks n c → ∃ entry ∈ a.graph.starts (a.graph.functionOf n),
    ∃ c', s.Tracks entry c' ∧ a.contexts.same c c' = true
  widened : ∀ entry dropped into older, .widened entry dropped into :: older <:+ s.trail →
    a.Widened max s entry into older

theorem Course.narrow (hp : a.problem.Ordered) (hg : a.graph.Procedural)
    (hseeds : a.problem.SeedsEntries a.graph) {max : Nat} (hmax : a.limits.maxContexts = some max)
    (h : a.Course s) : a.Narrow max s where
  starts m n hn := by
    have hlength := h.length_start_le hp hg hseeds hmax hn
    rwa [List.length_map] at hlength
  inside n c hc := by
    have hrooted : a.Rooted s := h.rooted hp hg hseeds
    obtain ⟨entry, hentry, hc⟩ := hrooted hc
    exact ⟨entry, hentry, c, hc, ContextKind.Lawful.same_refl c⟩
  widened _ _ _ _ hevent := h.widened hmax hevent

end Course

end Analysis

end Interproc
