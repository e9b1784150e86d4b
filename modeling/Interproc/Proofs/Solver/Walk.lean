import Interproc.Proofs.Solver.Moment

namespace Interproc

open Solver

variable {N M D C S E : Type}

/-- From facts `d₀` at `n₀` the flow along the edges leads to facts at a node. The stack holds the
call sites that are pending, the latest first. -/
inductive Walk (g : Icfg N M) (p : Problem N M D S E) (n₀ : N) (d₀ : D) : List N → N → D → Prop
  | start : Walk g p n₀ d₀ [] n₀ d₀
  | pass {stack n d n'} : Walk g p n₀ d₀ stack n d → g.isCall n = false → g.isExit n = false →
      n' ∈ g.succs n → Walk g p n₀ d₀ stack n' (p.normal n d)
  | bypass {stack n d n'} : Walk g p n₀ d₀ stack n d → g.isCall n = true →
      n' ∈ g.returnSites n → Walk g p n₀ d₀ stack n' (p.bypass n n' d)
  | enter {stack n d m entry} : Walk g p n₀ d₀ stack n d → g.isCall n = true →
      m ∈ g.callees n → entry ∈ g.starts m → Walk g p n₀ d₀ (n :: stack) entry (p.call n m d)
  | leave {stack n x d n'} : Walk g p n₀ d₀ (n :: stack) x d → g.isCall x = false →
      g.isExit x = true → n' ∈ g.returnSites n →
      Walk g p n₀ d₀ stack n' (p.ret n (g.functionOf x) x d)

namespace Walk

variable {g : Icfg N M} {p : Problem N M D S E} {n₀ n n' : N} {d₀ d d' : D} {stack stack' : List N}

theorem append (h : Walk g p n₀ d₀ stack n d) (h' : Walk g p n d stack' n' d') :
    Walk g p n₀ d₀ (stack' ++ stack) n' d' := by
  induction h' with
  | start => exact h
  | pass _ hcall hexit hn ih => exact ih.pass hcall hexit hn
  | bypass _ hcall hn ih => exact ih.bypass hcall hn
  | enter _ hcall hm hentry ih => exact ih.enter hcall hm hentry
  | leave _ hcall hexit hn ih => exact ih.leave hcall hexit hn

end Walk

structure Problem.Monotone (p : Problem N M D S E) : Prop where
  normal : ∀ {n d d'}, p.le d d' = true → p.le (p.normal n d) (p.normal n d') = true
  call : ∀ {n m d d'}, p.le d d' = true → p.le (p.call n m d) (p.call n m d') = true
  ret : ∀ {n m x d d'}, p.le d d' = true → p.le (p.ret n m x d) (p.ret n m x d') = true
  bypass : ∀ {n n' d d'}, p.le d d' = true → p.le (p.bypass n n' d) (p.bypass n n' d') = true

def Problem.SeedsEntries (p : Problem N M D S E) (g : Icfg N M) : Prop :=
  ∀ {n d}, (n, d) ∈ p.seeds → ∃ m, n ∈ g.starts m

namespace Analysis

variable [Ord N] [Ord M] {a : Analysis N M D C S E} {s t : State N M D C S E}

variable (a) in
def Rooted (s : State N M D C S E) : Prop :=
  ∀ {n c}, s.Tracks n c → ∃ entry ∈ a.graph.starts (a.graph.functionOf n), s.Tracks entry c

theorem Rooted.eq_of_same [a.contexts.Lawful] (hg : a.graph.Procedural) (hs : a.Tabled s)
    (h : a.Rooted s) {n n' : N} {c c' : C} (hn : a.graph.functionOf n' = a.graph.functionOf n)
    (hc : s.Tracks n c) (hc' : s.Tracks n' c') (hsame : a.contexts.same c c' = true) : c = c' := by
  obtain ⟨entry, hentry, hc⟩ := h hc
  obtain ⟨entry', hentry', hc'⟩ := h hc'
  rw [hn] at hentry'
  rw [hg.start_unique hentry' hentry] at hc'
  exact hs.eq_of_tracks hc hc' hsame

theorem Rooted.includes [a.contexts.Lawful] (hg : a.graph.Procedural) (hs : a.Tabled s)
    (h : a.Rooted s) {n n' : N} {c : C} {d : D}
    (hn : a.graph.functionOf n' = a.graph.functionOf n) (hc : s.Tracks n c)
    (hd : a.includes s c n' d = true) :
    ∃ d', (c, d') ∈ s.entriesAt n' ∧ a.problem.le d d' = true := by
  obtain ⟨e, he, hle⟩ := includes_iff.mp hd
  have hmem := mem_of_findIn he
  have heq : c = e.1 := h.eq_of_same hg hs hn hc ⟨e.2, hmem.1⟩ (ContextKind.Lawful.same_symm hmem.2)
  exact ⟨e.2, heq ▸ hmem.1, hle⟩

theorem Rooted.congr (h : a.Rooted s) (htable : t.table = s.table) : a.Rooted t := by
  intro n c hc
  obtain ⟨entry, hentry, hc⟩ := h ((State.tracks_congr htable).mp hc)
  exact ⟨entry, hentry, (State.tracks_congr htable).mpr hc⟩

section Join

variable [Std.TransOrd N] [Std.LawfulEqOrd N] [DecidableEq N] {n n' : N} {c c' : C} {d : D}

theorem Rooted.joinInto (h : a.Rooted s) (hroot : (a.joinInto n c d s).Tracks n c →
      ∃ entry ∈ a.graph.starts (a.graph.functionOf n), (a.joinInto n c d s).Tracks entry c) :
    a.Rooted (a.joinInto n c d s) := by
  intro m c' ⟨d', hd'⟩
  have hold : s.Tracks m c' → ∃ entry ∈ a.graph.starts (a.graph.functionOf m),
      (a.joinInto n c d s).Tracks entry c' := by
    intro hc
    obtain ⟨entry, hentry, hc⟩ := h hc
    exact ⟨entry, hentry, tracks_joinInto hc⟩
  rcases mem_entriesAt_joinInto hd' with hmem | ⟨rfl, _, ⟨d'', hmem, _, _⟩ | ⟨_, heq⟩⟩
  · exact hold ⟨d', hmem⟩
  · exact hold ⟨d'', hmem⟩
  · obtain ⟨rfl, rfl⟩ := Prod.mk.inj heq
    exact hroot ⟨d', hd'⟩

theorem Rooted.joinInto_start (hg : a.graph.Agrees) (h : a.Rooted s) {m : M}
    (hn : n ∈ a.graph.starts m) : a.Rooted (a.joinInto n c d s) := by
  refine h.joinInto (fun hc => ⟨n, ?_, hc⟩)
  rw [hg.functionOf_start hn]
  exact hn

theorem Rooted.joinInto_inside (h : a.Rooted s)
    (hn : a.graph.functionOf n' = a.graph.functionOf n) (hc : s.Tracks n c) :
    a.Rooted (a.joinInto n' c d s) := by
  refine h.joinInto (fun _ => ?_)
  obtain ⟨entry, hentry, hc⟩ := h hc
  exact ⟨entry, hn ▸ hentry, tracks_joinInto hc⟩

end Join

section Run

variable [Std.TransOrd N] [Std.LawfulEqOrd N] [DecidableEq N] [Std.TransOrd M]
variable {n : N} {c : C} {d : D}

theorem Move.rooted (hg : a.graph.Procedural) (hs : a.Tabled s) (hc : s.Tracks n c)
    (h : a.Rooted s) (hmove : a.Move n c d s t) : a.Rooted t := by
  cases hmove with
  | quiet hquiet => exact h.congr hquiet.table
  | requeue => exact h
  | remember => exact h.congr rfl
  | pass _ _ hn' => exact h.joinInto_inside (hg.functionOf_succ hn') hc
  | bypass _ hn' => exact h.joinInto_inside (hg.functionOf_returnSite hn') hc
  | enter _ _ hentry _ =>
      exact Rooted.joinInto_start hg.toAgrees (h.congr (recordCall_table _)) hentry
  | leave _ _ hr _ hn' =>
      exact h.joinInto_inside (hg.functionOf_returnSite hn') (hs.recorded hr).2.1

theorem kept_rooted (hg : a.graph.Procedural) (hseeds : a.problem.SeedsEntries a.graph) {x : S} :
    a.Kept x a.Rooted where
  fresh htable _ _ := by
    intro n c ⟨d, hd⟩
    simp [State.entriesAt, htable, OrdMap.getD] at hd
  congr h htable _ _ := h.congr htable
  seed h hd := by
    obtain ⟨m, hn⟩ := hseeds hd
    exact h.joinInto_start hg.toAgrees hn
  move h hmove := hmove.rooted hg h.tabled h.tracks h.kept

variable [a.contexts.Lawful] [Std.LawfulEqOrd M] [DecidableEq M]

inductive Framed (s : State N M D C S E) : List N → M → C → Prop
  | base {m c} : Framed s [] m c
  | frame {stack m r} : r ∈ s.callsInto m → Framed s stack (a.graph.functionOf r.site) r.caller →
      Framed s (r.site :: stack) m r.callee

theorem Solved.covers_walk (hp : a.problem.Ordered) (hmono : a.problem.Monotone)
    (hg : a.graph.Procedural) (hseeds : a.problem.SeedsEntries a.graph) (h : a.Solved s)
    (hs : s.finished = true) {n₀ : N} {d₀ : D} (hseed : (n₀, d₀) ∈ a.problem.seeds)
    {stack : List N} {n : N} {d : D} (hwalk : Walk a.graph a.problem n₀ d₀ stack n d) :
    ∃ c d', (c, d') ∈ s.entriesAt n ∧ a.problem.le d d' = true ∧
      a.Framed s stack (a.graph.functionOf n) c := by
  have htabled := h.tabled hp hg.toAgrees hs
  have hrooted : a.Rooted s := Kept.reaches (fun _ => kept_rooted hg hseeds) hp (h.reaches hs).1
  have hsettled : ∀ {n c d}, (c, d) ∈ s.entriesAt n → a.Settled s n c d :=
    fun hd => h.settled hp hg.toAgrees hs hd
  -- the context goes along: a call pushes that of the caller, a return takes it back
  induction hwalk with
  | start =>
      obtain ⟨e, he, hle⟩ := includes_iff.mp (h.seeds_included hp hg.toAgrees hs hseed)
      exact ⟨e.1, e.2, (mem_of_findIn he).1, hle, .base⟩
  | @pass stack n d n' _ hcall hexit hn' ih =>
      obtain ⟨c, d', hd', hle, hframed⟩ := ih
      have hflow := (hsettled hd').pass hcall hexit n' hn'
      have hn := hg.functionOf_succ hn'
      obtain ⟨d'', hd'', hle'⟩ := hrooted.includes hg htabled hn ⟨d', hd'⟩ hflow
      exact ⟨c, d'', hd'', hp.le_trans (hmono.normal hle) hle', hn ▸ hframed⟩
  | @bypass stack n d n' _ hcall hn' ih =>
      obtain ⟨c, d', hd', hle, hframed⟩ := ih
      have hflow := (hsettled hd').bypass hcall n' hn'
      have hn := hg.functionOf_returnSite hn'
      obtain ⟨d'', hd'', hle'⟩ := hrooted.includes hg htabled hn ⟨d', hd'⟩ hflow
      exact ⟨c, d'', hd'', hp.le_trans (hmono.bypass hle) hle', hn ▸ hframed⟩
  | @enter stack n d m entry _ hcall hm hentry ih =>
      obtain ⟨c, d', hd', hle, hframed⟩ := ih
      obtain ⟨r, hr, rfl, rfl, rfl, hflow⟩ := (hsettled hd').enter hcall m hm entry hentry
      obtain ⟨d'', hd'', hle'⟩ := hrooted.includes hg htabled rfl (htabled.recorded hr).2.2 hflow
      exact ⟨r.callee, d'', hd'', hp.le_trans (hmono.call hle) hle', .frame hr hframed⟩
  | @leave stack n x d n' _ hcall hexit hn' ih =>
      obtain ⟨c, d', hd', hle, hframed⟩ := ih
      cases hframed with
      | @frame _ _ r hr hframed =>
          have hflow := (hsettled hd').leave hcall hexit (hg.mem_exits hexit) r hr
            (htabled.lookup_of_mem hd') n' hn'
          have hn := hg.functionOf_returnSite hn'
          obtain ⟨d'', hd'', hle'⟩ :=
            hrooted.includes hg htabled hn (htabled.recorded hr).2.1 hflow
          exact ⟨r.caller, d'', hd'', hp.le_trans (hmono.ret hle) hle', hn ▸ hframed⟩

end Run

end Analysis

end Interproc
