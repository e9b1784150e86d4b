import Interproc.Proofs.Solver.Settled

namespace Interproc.Analysis

open Solver

variable {N M D C S E : Type} [Ord N] [Std.TransOrd N] [Ord M]

theorem seed_flags {a : Analysis N M D C S E} {s : State N M D C S E} :
    (a.seed s).seeded = true ∧ (a.seed s).finished = s.finished := by
  refine List.foldlRecOn (motive := fun t : State N M D C S E =>
    t.seeded = true ∧ t.finished = s.finished) _ _ ⟨rfl, rfl⟩ ?_
  intro t ht e _
  exact ⟨joinInto_flags.1.trans ht.1, joinInto_flags.2.trans ht.2⟩

theorem seed_tabled {a : Analysis N M D C S E} [DecidableEq N] [Std.LawfulEqOrd N]
    [a.contexts.Lawful] (hp : a.problem.Ordered) (client : S) :
    a.Tabled (a.seed (.initial client)) ∧
      (∀ n e, e ∈ (a.seed (.initial client)).entriesAt n →
        (n, e.1) ∈ (a.seed (.initial client)).worklist) ∧
      ∀ x ∈ a.problem.seeds, a.includes (a.seed (.initial client)) a.initial x.1 x.2 = true := by
  have hall := foldl_establishes
    (I := fun t : State N M D C S E =>
      a.Tabled t ∧ ∀ n e, e ∈ t.entriesAt n → (n, e.1) ∈ t.worklist)
    (P := fun x t => a.includes t a.initial x.1 x.2 = true)
    (fun s (x : N × D) => a.joinInto x.1 a.initial x.2 s) a.problem.seeds
    (b := { State.initial client with seeded := true }.emit (.seeding a.problem.seeds.length))
    ?_ ?_ ?_ ?_
  · exact ⟨hall.1.1, hall.1.2, hall.2.2⟩
  · intro t x _ ht
    refine ⟨ht.1.joinInto, fun n e he => ?_⟩
    have hgrows := grows_joinInto (s := t) (n := x.1) (c := a.initial) (d := x.2) hp
    exact (hgrows.fresh he).elim (fun hold => hgrows.queued (ht.2 n e hold)) id
  · intro t x _ _
    exact includes_joinInto hp
  · intro t y x _ _ hy
    exact (grows_joinInto hp).includes hp hy
  · exact ⟨⟨by simp, fun hw => absurd hw List.not_mem_nil, by simp⟩, by simp⟩

theorem seed_seeded {a : Analysis N M D C S E} [DecidableEq N] [Std.LawfulEqOrd N] (client : S) :
    a.Seeded (a.seed (.initial client)) := by
  refine (foldl_establishes
    (I := fun t : State N M D C S E => ∀ n c, t.Tracks n c → c = a.initial)
    (P := fun x t => t.Tracks x.1 a.initial)
    (fun s (x : N × D) => a.joinInto x.1 a.initial x.2 s) a.problem.seeds
    (b := { State.initial client with seeded := true }.emit (.seeding a.problem.seeds.length))
    ?_ ?_ ?_ ?_).2.2
  · intro t x _ ht n c ⟨d, hd⟩
    rcases mem_entriesAt_joinInto hd with hold | ⟨rfl, _, ⟨d', hd', _, _⟩ | ⟨_, heq⟩⟩
    · exact ht n c ⟨d, hold⟩
    · exact ht _ _ ⟨d', hd'⟩
    · exact congrArg Prod.fst heq
  · intro t x _ ht
    cases hlookup : a.lookup t x.1 a.initial with
    | none => exact tracks_joinInto_self hlookup
    | some e =>
        have htracks := lookup_tracks a hlookup
        exact tracks_joinInto (ht _ _ htracks ▸ htracks)
  · intro t y x _ _ hy
    exact tracks_joinInto hy
  · rintro n c ⟨d, hd⟩
    simp at hd

variable [DecidableEq N] [Std.TransOrd M] (a : Analysis N M D C S E)

inductive Solved : State N M D C S E → Prop
  | initial (client : S) : Solved (.initial client)
  | solve {s t} (fuel : Nat) : Solved s → a.solve fuel s = (t, none) → Solved t

inductive SolvedFrom (x : S) : State N M D C S E → Prop
  | initial : SolvedFrom x (.initial x)
  | solve {s t} (fuel : Nat) : SolvedFrom x s → a.solve fuel s = (t, none) → SolvedFrom x t

inductive Iteration : State N M D C S E → State N M D C S E → Prop
  | quiet {s t} : s.Alike t → Iteration s t
  | step {s t n c rest} : s.worklist = (n, c) :: rest →
      a.step n c { s with worklist := rest } = (t, true) → Iteration s t

abbrev ReachesFrom (x : S) : State N M D C S E → Prop :=
  Relation.ReflTransGen a.Iteration (a.seed (.initial x))

def Reaches (s : State N M D C S E) : Prop := ∃ client, a.ReachesFrom client s

variable {a} {s t : State N M D C S E} {x : S}

theorem Solved.solvedFrom (h : a.Solved s) : ∃ x, a.SolvedFrom x s := by
  induction h with
  | initial client => exact ⟨client, .initial⟩
  | solve fuel _ hsolve ih => exact ih.imp (fun _ hs => hs.solve fuel hsolve)

theorem SolvedFrom.solved (h : a.SolvedFrom x s) : a.Solved s := by
  induction h with
  | initial => exact .initial x
  | solve fuel _ hsolve ih => exact ih.solve fuel hsolve

theorem solved_of_solve {fuel : Nat} {client : S} (h : (a.solve fuel (.initial client)).2 = none) :
    a.Solved (a.solve fuel (.initial client)).1 :=
  .solve fuel (.initial client) (Prod.ext rfl h)

theorem solvedFrom_of_solve {fuel : Nat} (h : (a.solve fuel (.initial x)).2 = none) :
    a.SolvedFrom x (a.solve fuel (.initial x)).1 :=
  .solve fuel .initial (Prod.ext rfl h)

structure Fixpoint (a : Analysis N M D C S E) (x : S) where
  state : State N M D C S E
  solved : a.SolvedFrom x state
  finished : state.finished = true

def Fixpoint.ofSolve (fuel : Nat) (h : (a.solve fuel (.initial x)).2 = none ∧
    (a.solve fuel (.initial x)).1.finished = true) : a.Fixpoint x :=
  ⟨(a.solve fuel (.initial x)).1, solvedFrom_of_solve h.1, h.2⟩

theorem step_eq_visit [a.contexts.Lawful] (hs : a.Tabled s) {n : N} {c : C} {d : D}
    (hd : (c, d) ∈ s.entriesAt n) (rest : List (N × C)) :
    a.step n c { s with worklist := rest } = a.visit n c d ({ s with worklist := rest }.count
      (fun t => { t with iterations := t.iterations + 1 })) := by
  let s' := { s with worklist := rest }.count (fun t => { t with iterations := t.iterations + 1 })
  have hlookup : a.lookup s' n c = some (c, d) := hs.lookup_of_mem hd
  simp only [Analysis.step, s', hlookup]

theorem step_visits [a.contexts.Lawful] (hs : a.Tabled s) {n : N} {c : C} {rest : List (N × C)}
    (hw : s.worklist = (n, c) :: rest) : ∃ d s', (c, d) ∈ s.entriesAt n ∧
      State.Quiet { s with worklist := rest } s' ∧
      a.step n c { s with worklist := rest } = a.visit n c d s' := by
  obtain ⟨d, hd⟩ : s.Tracks n c := hs.queued (w := (n, c)) (by simp [hw])
  exact ⟨d, { s with worklist := rest }.count (fun t => { t with iterations := t.iterations + 1 }),
    hd, ⟨⟨rfl, rfl, rfl, rfl⟩, rfl, rfl⟩, step_eq_visit hs hd rest⟩

/-- What iterations keep holds at the end of a run. The flag tells that none of them has failed. -/
theorem run_keeps {P : Bool → State N M D C S E → Prop}
    (hstep : ∀ {s n c rest}, P true s → s.worklist = (n, c) :: rest →
      P (a.step n c { s with worklist := rest }).2 (a.step n c { s with worklist := rest }).1)
    (h : P true s) (fuel : Nat) : P (decide ((a.run fuel s).2 ≠ .failed)) (a.run fuel s).1 := by
  induction fuel generalizing s with
  | zero =>
      simp only [Analysis.run]
      split <;> simpa using h
  | succ fuel ih =>
      cases hw : s.worklist with
      | nil => simpa [Analysis.run, hw] using h
      | cons w rest =>
          have hnext := hstep h hw
          simp only [Analysis.run, hw]
          split
          · rename_i u hu
            rw [hu] at hnext
            exact ih hnext
          · rename_i u hu
            simpa [hu] using hnext

theorem solve_keeps {P : Bool → State N M D C S E → Prop}
    (hstep : ∀ {s n c rest}, P true s → s.worklist = (n, c) :: rest →
      P (a.step n c { s with worklist := rest }).2 (a.step n c { s with worklist := rest }).1)
    (hfail : ∀ {s}, P true s → P false s)
    (haside : ∀ {s t}, P true s → s.Alike t → s.Aside t → P true t)
    (h : P true (if s.seeded then s else a.seed s)) (fuel : Nat) :
    P (a.solve fuel s).2.isNone (a.solve fuel s).1 := by
  simp only [Analysis.solve]
  generalize (if s.seeded then s else a.seed s) = s₀ at h ⊢
  split
  · exact hfail h
  · have hrun := run_keeps hstep h (a.limits.maxIterations.getD fuel)
    split
    · rename_i u hu
      rw [hu] at hrun
      have hdrained : P true u := by simpa using hrun
      exact haside hdrained ⟨rfl, rfl, rfl, rfl⟩
        ⟨rfl, rfl, rfl, rfl, [_], by simp [Event.aside], rfl⟩
    · rename_i u hu
      rw [hu] at hrun
      have hpaused : P true u := by simpa using hrun
      split
      · exact haside hpaused ⟨rfl, rfl, rfl, rfl⟩ (State.emit_aside rfl)
      · exact hpaused
    · rename_i u hu
      rw [hu] at hrun
      simpa using hrun

variable [Std.LawfulEqOrd N]

theorem step_flags (n : N) (c : C) (s : State N M D C S E) :
    (a.step n c s).1.seeded = s.seeded ∧ (a.step n c s).1.finished = s.finished := by
  simp only [step]
  split
  · exact (visit_moves ..).flags
  · exact ⟨rfl, rfl⟩

structure RanTo (a : Analysis N M D C S E) (s t : State N M D C S E) (e : Ending) : Prop where
  iterations : Relation.ReflTransGen a.Iteration s t
  seeded : t.seeded = s.seeded
  finished : t.finished = s.finished
  drained : e = .drained → t.worklist = []
  paused : e = .paused → s.worklist ≠ []

theorem run_ranTo {fuel : Nat} {e : Ending} (h : a.run fuel s = (t, e)) (he : e ≠ .failed) :
    RanTo a s t e := by
  induction fuel generalizing s with
  | zero =>
      obtain ⟨rfl, rfl⟩ := Prod.mk.inj h
      cases hw : s.worklist with
      | nil => exact ⟨.refl, rfl, rfl, fun _ => hw, by simp⟩
      | cons w ws => exact ⟨.refl, rfl, rfl, by simp, by simp [hw]⟩
  | succ fuel ih =>
      cases hw : s.worklist with
      | nil =>
          simp only [run, hw] at h
          obtain ⟨rfl, rfl⟩ := Prod.mk.inj h
          exact ⟨.refl, rfl, rfl, fun _ => hw, by simp⟩
      | cons w rest =>
          obtain ⟨n, c⟩ := w
          simp only [run, hw] at h
          cases hstep : a.step n c { s with worklist := rest } with
          | mk u ended =>
              have hflags := step_flags (a := a) n c { s with worklist := rest }
              rw [hstep] at hflags
              cases ended with
              | false =>
                  simp only [hstep] at h
                  exact absurd (Prod.mk.inj h).2.symm he
              | true =>
                  simp only [hstep] at h
                  have hrest := ih h
                  exact ⟨hrest.iterations.head (.step hw hstep), hrest.seeded.trans hflags.1,
                    hrest.finished.trans hflags.2, hrest.drained, by simp [hw]⟩

theorem solve_iterates {fuel : Nat} (h : a.solve fuel s = (t, none)) :
    ∃ s₀, (if s.seeded then s else a.seed s) = s₀ ∧
      Relation.ReflTransGen a.Iteration s₀ t ∧ t.seeded = true ∧
      ((s₀.finished = true → s₀.worklist = []) → t.finished = true → t.worklist = []) := by
  obtain ⟨s₀, hs₀, hseeded⟩ : ∃ s₀, (if s.seeded then s else a.seed s) = s₀ ∧
      s₀.seeded = true := by
    refine ⟨_, rfl, ?_⟩
    split
    · assumption
    · exact seed_flags.1
  refine ⟨s₀, hs₀, ?_⟩
  simp only [Analysis.solve, hs₀] at h
  split at h
  · simp at h
  · split at h
    · rename_i u hrun
      obtain ⟨rfl, -⟩ := Prod.mk.inj h
      have hran := run_ranTo hrun (by simp)
      exact ⟨hran.iterations.tail (.quiet ⟨rfl, rfl, rfl, rfl⟩), hran.seeded.trans hseeded,
        fun _ _ => hran.drained rfl⟩
    · rename_i u hrun
      obtain ⟨rfl, -⟩ := Prod.mk.inj h
      have hran := run_ranTo hrun (by simp)
      -- a call that pauses leaves work behind and does not touch the flag
      have hwait : (s₀.finished = true → s₀.worklist = []) → u.finished ≠ true := by
        intro hdone hfinished
        exact hran.paused rfl (hdone (hran.finished ▸ hfinished))
      split
      · exact ⟨hran.iterations.tail (.quiet ⟨rfl, rfl, rfl, rfl⟩), hran.seeded.trans hseeded,
          fun hdone hfinished => absurd hfinished (hwait hdone)⟩
      · exact ⟨hran.iterations, hran.seeded.trans hseeded,
          fun hdone hfinished => absurd hfinished (hwait hdone)⟩
    · simp at h

theorem SolvedFrom.cases (h : a.SolvedFrom x s) : s = .initial x ∨
    s.seeded = true ∧ a.ReachesFrom x s ∧ (s.finished = true → s.worklist = []) := by
  induction h with
  | initial => exact Or.inl rfl
  | @solve s t fuel _ hsolve ih =>
      right
      obtain ⟨s₀, hs₀, hiterates, hseeded, hdrained⟩ := solve_iterates hsolve
      rcases ih with rfl | ⟨hs, hreach, hdone⟩
      · obtain rfl : a.seed (.initial x) = s₀ := hs₀
        have hflags := seed_flags (a := a) (s := .initial x)
        refine ⟨hseeded, hiterates, hdrained (fun hfinished => ?_)⟩
        exact absurd (hflags.2.symm.trans hfinished) Bool.false_ne_true
      · rw [if_pos hs] at hs₀
        subst hs₀
        exact ⟨hseeded, hreach.trans hiterates, hdrained hdone⟩

theorem SolvedFrom.reachesFrom_start (h : a.SolvedFrom x s) :
    a.ReachesFrom x (if s.seeded then s else a.seed s) := by
  rcases h.cases with rfl | ⟨hseeded, hreach, _⟩
  · exact .refl
  · rwa [if_pos hseeded]

theorem SolvedFrom.reachesFrom (h : a.SolvedFrom x s) (hs : s.finished = true) :
    a.ReachesFrom x s ∧ s.worklist = [] := by
  rcases h.cases with rfl | ⟨_, hreach, hdone⟩
  · exact absurd hs Bool.false_ne_true
  · exact ⟨hreach, hdone hs⟩

theorem Solved.keeps {P : State N M D C S E → Prop} (hseed : ∀ x, P (a.seed (.initial x)))
    (hstep : ∀ {s t n c rest}, P s → s.worklist = (n, c) :: rest →
      a.step n c { s with worklist := rest } = (t, true) → P t)
    (haside : ∀ {s t}, P s → s.Alike t → s.Aside t → P t) (h : a.Solved s)
    (hfinished : s.finished = true) : P s := by
  have hcases : (∃ x, s = .initial x) ∨ s.seeded = true ∧ P s := by
    clear hfinished
    induction h with
    | initial x => exact Or.inl ⟨x, rfl⟩
    | @solve s t fuel _ hsolve ih =>
        obtain ⟨_, _, _, hseeded, _⟩ := solve_iterates hsolve
        have hstart : P (if s.seeded then s else a.seed s) := by
          rcases ih with ⟨x, rfl⟩ | ⟨hs, ih⟩
          · exact hseed x
          · rwa [if_pos hs]
        have hend := solve_keeps (P := fun ended s => ended = true → P s)
          (fun hs hw hended => hstep (hs rfl) hw (Prod.ext rfl hended))
          (fun _ hfailed => absurd hfailed Bool.false_ne_true)
          (fun hs halike haside' _ => haside (hs rfl) halike haside') (fun _ => hstart) fuel
        rw [hsolve] at hend
        exact Or.inr ⟨hseeded, hend rfl⟩
  rcases hcases with ⟨x, rfl⟩ | ⟨_, hs⟩
  · exact absurd hfinished Bool.false_ne_true
  · exact hs

theorem Solved.reaches (h : a.Solved s) (hs : s.finished = true) :
    a.Reaches s ∧ s.worklist = [] := by
  obtain ⟨x, h⟩ := h.solvedFrom
  exact ⟨⟨x, (h.reachesFrom hs).1⟩, (h.reachesFrom hs).2⟩

section Balance

variable (a) in
structure Balanced (s : State N M D C S E) : Prop where
  tabled : a.Tabled s
  settled : Attended (fun n c d s => a.Settled s n c d) s

variable [a.contexts.Lawful] [Std.LawfulEqOrd M] [DecidableEq M]

theorem Balanced.visit (hp : a.problem.Ordered) (hg : a.graph.Agrees) (h : a.Balanced s)
    {s' : State N M D C S E} {n : N} {c : C} {d : D} {rest : List (N × C)}
    (hw : s.worklist = (n, c) :: rest) (hd : (c, d) ∈ s.entriesAt n)
    (hquiet : State.Quiet { s with worklist := rest } s')
    (hvisit : a.visit n c d s' = (t, true)) : a.Balanced t ∧ a.Grows s' t := by
  have hs' : a.Tabled s' := (h.tabled.dequeue hw).of_alike hquiet.toAlike
  have hentries : ∀ m, s'.entriesAt m = s.entriesAt m := hquiet.entriesAt
  have hc : s'.Tracks n c := ⟨d, by rwa [hentries]⟩
  have hmoves := visit_moves (a := a) n c d s'
  have hsettles := visit_settles hp hg hs' hc (by rw [hvisit])
  rw [hvisit] at hmoves hsettles
  obtain ⟨hann, hsettled⟩ := hsettles
  have hgrows : a.Grows s' t := hmoves.grows hp
  refine ⟨⟨hmoves.tabled hp hs' hc, ?_⟩, hgrows⟩
  refine h.settled.visit h.tabled hw hd hquiet hgrows hsettled (fun _ _ _ hold hset => ?_)
  exact (hset.congr hquiet.table hquiet.calls).mono hp hs' hgrows hann (by rwa [hentries])

theorem Balanced.iteration (hp : a.problem.Ordered) (hg : a.graph.Agrees) (h : a.Balanced s)
    (hstep : a.Iteration s t) : a.Balanced t ∧
      ∀ n c d, a.includes s c n d = true → a.includes t c n d = true := by
  cases hstep with
  | quiet halike =>
      refine ⟨⟨h.tabled.of_alike halike, fun _ _ _ hd => ?_⟩, ?_⟩
      · rw [halike.entriesAt] at hd
        rw [halike.worklist]
        exact (h.settled _ _ _ hd).imp_right (fun hset => hset.congr halike.table halike.calls)
      · exact fun _ _ _ => (Grows.of_alike hp halike).includes hp
  | step hw hstep =>
      obtain ⟨d, s', hd, hquiet, hvisit⟩ := step_visits h.tabled hw
      obtain ⟨hbalanced, hgrows⟩ := h.visit hp hg hw hd hquiet (hvisit.symm.trans hstep)
      exact ⟨hbalanced, fun n c d hle =>
        hgrows.includes hp (by rwa [includes_congr hquiet.table])⟩

theorem Reaches.balanced (hp : a.problem.Ordered) (hg : a.graph.Agrees) (h : a.Reaches s) :
    a.Balanced s ∧ ∀ x ∈ a.problem.seeds, a.includes s a.initial x.1 x.2 = true := by
  obtain ⟨client, h⟩ := h
  induction h with
  | refl =>
      obtain ⟨htabled, hqueued, hseeds⟩ := seed_tabled hp client
      exact ⟨⟨htabled, fun _ _ _ hd => Or.inl (hqueued _ _ hd)⟩, hseeds⟩
  | tail _ hstep ih =>
      obtain ⟨hbalanced, hkept⟩ := ih.1.iteration hp hg hstep
      exact ⟨hbalanced, fun x hx => hkept _ _ _ (ih.2 x hx)⟩

theorem Solved.settled (hp : a.problem.Ordered) (hg : a.graph.Agrees) (h : a.Solved s)
    (hs : s.finished = true) {n : N} {c : C} {d : D} (hd : (c, d) ∈ s.entriesAt n) :
    a.Settled s n c d := by
  obtain ⟨hreach, hdone⟩ := h.reaches hs
  refine ((hreach.balanced hp hg).1.settled _ _ _ hd).resolve_left ?_
  simp [hdone]

theorem Solved.tabled (hp : a.problem.Ordered) (hg : a.graph.Agrees) (h : a.Solved s)
    (hs : s.finished = true) : a.Tabled s :=
  ((h.reaches hs).1.balanced hp hg).1.tabled

theorem Solved.seeds_included (hp : a.problem.Ordered) (hg : a.graph.Agrees) (h : a.Solved s)
    (hs : s.finished = true) {n : N} {d : D} (hd : (n, d) ∈ a.problem.seeds) :
    a.includes s a.initial n d = true :=
  ((h.reaches hs).1.balanced hp hg).2 _ hd

end Balance

end Interproc.Analysis
