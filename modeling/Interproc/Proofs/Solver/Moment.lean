import Interproc.Proofs.Solver.Run

namespace Interproc.Analysis

open Solver

variable {N M D C S E : Type} [Ord N] [Ord M]

structure Amid (a : Analysis N M D C S E) (P : State N M D C S E → Prop) (n : N) (c : C) (d : D)
    (s : State N M D C S E) : Prop where
  kept : P s
  tabled : a.Tabled s
  seeded : a.Seeded s
  began : ∃ s₀, P s₀ ∧ a.Tabled s₀ ∧ (c, d) ∈ s₀.entriesAt n ∧ a.Grows s₀ s

namespace Amid

variable {a : Analysis N M D C S E} {s : State N M D C S E} {P : State N M D C S E → Prop}
variable {n : N} {c : C} {d : D}

theorem tracks (h : a.Amid P n c d s) : s.Tracks n c := by
  obtain ⟨s₀, _, _, hd, hgrows⟩ := h.began
  exact hgrows.tracks ⟨d, hd⟩

theorem includes [a.contexts.Lawful] (hp : a.problem.Ordered) (h : a.Amid P n c d s) :
    a.includes s c n d = true := by
  obtain ⟨s₀, _, hs₀, hd, hgrows⟩ := h.began
  exact hgrows.includes hp (includes_iff.mpr ⟨(c, d), hs₀.lookup_of_mem hd, hp.le_refl d⟩)

end Amid

variable [Std.TransOrd N] [DecidableEq N] [Std.TransOrd M] (a : Analysis N M D C S E)

def joinSeeds (xs : List (N × D)) (s : State N M D C S E) : State N M D C S E :=
  xs.foldl (fun s (n, d) => a.joinInto n a.initial d s) s

/-- The moments after the seeds. A visit of the state that waits longest begins in one of them, and
each of its moves leads to another. -/
inductive Underway (x : S) : State N M D C S E → Prop
  | seeded : Underway x (a.seed (.initial x))
  | quiet {s t} : Underway x s → s.Alike t → Underway x t
  | visit {s t n c d rest} : Underway x s → s.worklist = (n, c) :: rest →
      (c, d) ∈ s.entriesAt n → a.Moves n c d { s with worklist := rest } t → Underway x t

def Moment (x : S) (s : State N M D C S E) : Prop :=
  (∃ xs, xs <+: a.problem.seeds ∧ State.Alike (a.joinSeeds xs (.initial x)) s) ∨ a.Underway x s

structure Lasting (Q : N → C → D → State N M D C S E → Prop) : Prop where
  congr : ∀ {s t n c d}, Q n c d s → t.table = s.table → t.calls = s.calls →
    t.client = s.client → Q n c d t
  gain : ∀ {s t n c d}, a.visit n c d s = (t, true) → Q n c d t
  stay : ∀ {s t n c d n' c' d'}, Q n c d s → a.Moves n' c' d' s t → Q n c d t

structure Kept (x : S) (P : State N M D C S E → Prop) : Prop where
  fresh : ∀ {s}, s.table = ∅ → s.calls = ∅ → s.client = x → P s
  congr : ∀ {s t}, P s → t.table = s.table → t.calls = s.calls → t.client = s.client → P t
  seed : ∀ {s n d}, P s → (n, d) ∈ a.problem.seeds → P (a.joinInto n a.initial d s)
  move : ∀ {s t n c d}, a.Amid P n c d s → a.Move n c d s t → P t

variable {a} {s t : State N M D C S E} {x : S} {P : State N M D C S E → Prop}

theorem kept_true : a.Kept x (fun _ => True) where
  fresh _ _ _ := trivial
  congr _ _ _ _ := trivial
  seed _ _ := trivial
  move _ _ := trivial

theorem Kept.joinSeeds (hk : a.Kept x P) {xs : List (N × D)} (hxs : xs <+: a.problem.seeds)
    (h : P s) : P (a.joinSeeds xs s) := by
  refine List.foldlRecOn (motive := P) _ _ h (fun t ht y hy => ?_)
  exact hk.seed ht (hxs.mem hy)

variable [Std.LawfulEqOrd N] [a.contexts.Lawful] [Std.LawfulEqOrd M] [DecidableEq M]

theorem Kept.moves (hk : a.Kept x P) (hp : a.problem.Ordered) {n : N} {c : C} {d : D}
    (h : a.Amid P n c d s) (hmoves : a.Moves n c d s t) : a.Amid P n c d t := by
  induction hmoves with
  | refl => exact h
  | tail _ hmove ih =>
      obtain ⟨s₀, hs₀, htabled, hd, hgrows⟩ := ih.began
      have hstep := hmove.grows hp
      exact ⟨hk.move ih hmove, hmove.tabled hp ih.tabled ih.tracks, ih.seeded.mono hstep,
        s₀, hs₀, htabled, hd, hgrows.trans hp hstep⟩

theorem Kept.underway (hk : a.Kept x P) (hp : a.problem.Ordered) (h : a.Underway x s) :
    P s ∧ a.Tabled s ∧ a.Seeded s := by
  induction h with
  | seeded =>
      refine ⟨?_, (seed_tabled hp x).1, seed_seeded x⟩
      exact hk.joinSeeds (List.prefix_refl _) (hk.fresh rfl rfl rfl)
  | quiet _ halike ih =>
      obtain ⟨hP, htabled, hseeded⟩ := ih
      exact ⟨hk.congr hP halike.table halike.calls halike.client, htabled.of_alike halike,
        hseeded.mono (.of_alike hp halike)⟩
  | @visit s t n c d rest _ hw hd hmoves ih =>
      obtain ⟨hP, htabled, hseeded⟩ := ih
      have hP' : P { s with worklist := rest } := hk.congr hP rfl rfl rfl
      have htabled' := htabled.dequeue hw
      have hamid := hk.moves hp ⟨hP', htabled', hseeded, _, hP', htabled', hd, .refl hp _⟩ hmoves
      exact ⟨hamid.kept, hamid.tabled, hamid.seeded⟩

theorem Kept.moment (hk : a.Kept x P) (hp : a.problem.Ordered) (h : a.Moment x s) : P s := by
  rcases h with ⟨xs, hxs, halike⟩ | h
  · exact hk.congr (hk.joinSeeds hxs (hk.fresh rfl rfl rfl)) halike.table halike.calls halike.client
  · exact (hk.underway hp h).1

theorem Underway.tabled (hp : a.problem.Ordered) (h : a.Underway x s) : a.Tabled s :=
  (kept_true.underway hp h).2.1

theorem Underway.step (hp : a.problem.Ordered) (h : a.Underway x s) {n : N} {c : C}
    {rest : List (N × C)} (hw : s.worklist = (n, c) :: rest) :
    a.Underway x (a.step n c { s with worklist := rest }).1 := by
  obtain ⟨d, s', hd, hquiet, hvisit⟩ := step_visits (h.tabled hp) hw
  rw [hvisit]
  exact h.visit hw hd ((visit_moves n c d s').head (.quiet hquiet))

theorem ReachesFrom.underway (hp : a.problem.Ordered) (h : a.ReachesFrom x s) :
    a.Underway x s := by
  induction h with
  | refl => exact .seeded
  | tail _ hstep ih =>
      cases hstep with
      | quiet halike => exact ih.quiet halike
      | step hw hstep =>
          have hnext := ih.step hp hw
          rwa [hstep] at hnext

theorem Lasting.iterations {Q : N → C → D → State N M D C S E → Prop} (hQ : a.Lasting Q)
    (hp : a.problem.Ordered) (h : Relation.ReflTransGen a.Iteration s t) (hs : a.Tabled s)
    (hattended : Attended Q s) : a.Tabled t ∧ Attended Q t := by
  induction h with
  | refl => exact ⟨hs, hattended⟩
  | tail _ hstep ih =>
      obtain ⟨htabled, ih⟩ := ih
      cases hstep with
      | quiet halike =>
          refine ⟨htabled.of_alike halike, fun n c d hd => ?_⟩
          rw [halike.entriesAt] at hd
          rw [halike.worklist]
          exact (ih n c d hd).imp_right
            (fun hset => hQ.congr hset halike.table halike.calls halike.client)
      | @step n c rest hw hstep =>
          obtain ⟨d, s', hd, hquiet, hvisit⟩ := step_visits htabled hw
          have hvisit : a.visit n c d s' = _ := hvisit.symm.trans hstep
          have hmoves := visit_moves (a := a) n c d s'
          rw [hvisit] at hmoves
          have hs' := (htabled.dequeue hw).of_alike hquiet.toAlike
          have hc : s'.Tracks n c := ⟨d, by rwa [hquiet.entriesAt]⟩
          refine ⟨Moves.tabled hp hs' hc hmoves,
            ih.visit htabled hw hd hquiet (Moves.grows hp hmoves) (hQ.gain hvisit) ?_⟩
          intro n' c' d' _ hset
          exact Or.inr (hQ.stay (hQ.congr hset hquiet.table hquiet.calls hquiet.client) hmoves)

theorem Lasting.attended {Q : N → C → D → State N M D C S E → Prop} (hQ : a.Lasting Q)
    (hp : a.problem.Ordered) (h : a.ReachesFrom x s) :
    a.Tabled s ∧ Attended Q s := by
  obtain ⟨htabled, hqueued, _⟩ := seed_tabled (a := a) hp x
  exact hQ.iterations hp h htabled (fun n c d hd => Or.inl (hqueued n _ hd))

theorem Lasting.solved {Q : N → C → D → State N M D C S E → Prop} (hQ : a.Lasting Q)
    (hp : a.problem.Ordered) (h : a.Solved s) (hs : s.finished = true) {n : N} {c : C} {d : D}
    (hd : (c, d) ∈ s.entriesAt n) : Q n c d s := by
  obtain ⟨⟨x, hreach⟩, hdone⟩ := h.reaches hs
  refine ((hQ.attended hp hreach).2 n c d hd).resolve_left ?_
  simp [hdone]

theorem Kept.reaches (hk : ∀ x, a.Kept x P) (hp : a.problem.Ordered) (h : a.Reaches s) : P s := by
  obtain ⟨x, h⟩ := h
  exact ((hk x).underway hp (ReachesFrom.underway hp h)).1

theorem SolvedFrom.moment_solve (hp : a.problem.Ordered) (h : a.SolvedFrom x s) (fuel : Nat) :
    a.Moment x (a.solve fuel s).1 :=
  Or.inr (solve_keeps (P := fun _ s => a.Underway x s) (fun hs hw => hs.step hp hw) id
    (fun hs halike _ => hs.quiet halike) (ReachesFrom.underway hp h.reachesFrom_start) fuel)

theorem SolvedFrom.moment (hp : a.problem.Ordered) (h : a.SolvedFrom x s) : a.Moment x s := by
  rcases h.cases with rfl | ⟨_, hreach, _⟩
  · exact Or.inl ⟨[], List.nil_prefix, ⟨rfl, rfl, rfl, rfl⟩⟩
  · exact Or.inr (ReachesFrom.underway hp hreach)

end Interproc.Analysis
