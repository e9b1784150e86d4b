import Interproc.Proofs.Solver.Returns
import Mathlib.Order.Bounds.Basic

namespace Interproc

open Solver

variable {N M D C S E : Type}

namespace Icfg

structure Onward (g : Icfg N M) (X : Set N) (n : N) : Prop where
  pass : g.isCall n = false → g.isExit n = false → ∀ n' ∈ g.succs n, n' ∈ X
  bypass : g.isCall n = true → ∀ n' ∈ g.returnSites n, n' ∈ X
  enter : g.isCall n = true → ∀ m ∈ g.callees n, ∀ entry ∈ g.starts m, entry ∈ X

structure Closed (g : Icfg N M) (seeds X : Set N) : Prop where
  seeded : seeds ⊆ X
  onward : ∀ n ∈ X, g.Onward X n

theorem Onward.mono {g : Icfg N M} {X Y : Set N} {n : N} (h : g.Onward X n) (hXY : X ⊆ Y) :
    g.Onward Y n where
  pass hcall hexit n' hn' := hXY (h.pass hcall hexit n' hn')
  bypass hcall n' hn' := hXY (h.bypass hcall n' hn')
  enter hcall m hm entry hentry := hXY (h.enter hcall m hm entry hentry)

end Icfg

namespace Solver.State

variable [Ord N] [Ord M] {s t : State N M D C S E}

def nodes (s : State N M D C S E) : Set N := {n | ∃ c, s.Tracks n c}

theorem nodes_congr (h : t.table = s.table) : t.nodes = s.nodes :=
  Set.ext fun _ => exists_congr fun _ => tracks_congr h

end Solver.State

namespace Analysis

section Extends

variable [Ord N] [Ord M]

structure Extends (s t : State N M D C S E) : Prop where
  tracks : ∀ {n c}, s.Tracks n c → t.Tracks n c
  queued : ∀ {w}, w ∈ s.worklist → w ∈ t.worklist
  fresh : ∀ {n}, n ∈ t.nodes → n ∈ s.nodes ∨ ∃ c, (n, c) ∈ t.worklist
  waiting : ∀ {w}, w ∈ t.worklist → w ∈ s.worklist ∨ t.Tracks w.1 w.2

variable {a : Analysis N M D C S E} {s t u : State N M D C S E} {n : N} {c : C} {d : D}

namespace Extends

theorem of_table (htable : t.table = s.table) (hwork : t.worklist = s.worklist) :
    Extends s t where
  tracks := (State.tracks_congr htable).mpr
  queued hw := by rwa [hwork]
  fresh hn := Or.inl (by rwa [← State.nodes_congr htable])
  waiting hw := Or.inl (by rwa [← hwork])

theorem refl (s : State N M D C S E) : Extends s s := of_table rfl rfl

theorem trans (h : Extends s t) (h' : Extends t u) : Extends s u where
  tracks hc := h'.tracks (h.tracks hc)
  queued hw := h'.queued (h.queued hw)
  fresh hn := by
    rcases h'.fresh hn with hn | hwait
    · exact (h.fresh hn).imp_right (fun ⟨c, hc⟩ => ⟨c, h'.queued hc⟩)
    · exact Or.inr hwait
  waiting hw := by
    rcases h'.waiting hw with hw | hc
    · exact (h.waiting hw).imp_right h'.tracks
    · exact Or.inr hc

theorem queue {n' : N} {c' : C} (hc : s.Tracks n' c') : Extends s (s.queue n' c') where
  tracks hc := hc
  queued hw := List.mem_append_left _ hw
  fresh hn := Or.inl hn
  waiting hw := by
    rcases List.mem_append.mp hw with hw | hw
    · exact Or.inl hw
    · obtain rfl := List.mem_singleton.mp hw
      exact Or.inr hc

theorem nodes (h : Extends s t) : s.nodes ⊆ t.nodes := fun _ ⟨c, hc⟩ => ⟨c, h.tracks hc⟩

end Extends

variable [Std.TransOrd N] [Std.LawfulEqOrd N] [DecidableEq N]

theorem extends_joinInto : Extends s (a.joinInto n c d s) where
  tracks := tracks_joinInto
  queued hw := by
    rcases joinInto_cases a n c d s with ⟨_, _, _, h⟩ | ⟨_, _, _, h⟩ | ⟨_, h⟩
    · rwa [h]
    · exact h.worklist ▸ List.mem_append_left _ hw
    · exact h.worklist ▸ List.mem_append_left _ hw
  fresh := by
    rintro m ⟨c', d', hd'⟩
    rcases mem_entriesAt_joinInto hd' with hold | ⟨rfl, hwait, _⟩
    · exact Or.inl ⟨c', d', hold⟩
    · exact Or.inr ⟨c', hwait⟩
  waiting := mem_worklist_joinInto

theorem nodes_joinInto : (a.joinInto n c d s).nodes = insert n s.nodes := by
  ext m
  constructor
  · rintro ⟨c', d', hd'⟩
    rcases mem_entriesAt_joinInto hd' with hold | ⟨rfl, _⟩
    · exact Or.inr ⟨c', d', hold⟩
    · exact Or.inl rfl
  · rintro (rfl | ⟨c', hc'⟩)
    · cases hlookup : a.lookup s m c with
      | some e => exact ⟨e.1, tracks_joinInto (lookup_tracks a hlookup)⟩
      | none => exact ⟨c, tracks_joinInto_self hlookup⟩
    · exact ⟨c', tracks_joinInto hc'⟩

theorem mem_nodes_joinInto : n ∈ (a.joinInto n c d s).nodes := by
  rw [nodes_joinInto]
  exact Set.mem_insert n s.nodes

theorem visitPlain_nodes {n' : N} (hn' : n' ∈ a.graph.succs n) :
    n' ∈ (a.visitPlain n c d s).nodes :=
  foldl_gains (P := fun n' (t : State N M D C S E) => n' ∈ t.nodes) _ _
    (fun _ _ _ => mem_nodes_joinInto) (fun _ _ _ _ h => extends_joinInto.nodes h) s n' hn'

variable [Std.TransOrd M]

theorem Move.extends (h : a.Move n c d s t) : Extends s t := by
  cases h with
  | quiet h => exact .of_table h.table h.worklist
  | requeue hc => exact .queue hc
  | remember => exact .of_table rfl rfl
  | pass => exact extends_joinInto
  | bypass => exact extends_joinInto
  | enter =>
      exact (Extends.of_table (recordCall_table _) (recordCall_worklist _)).trans extends_joinInto
  | leave => exact extends_joinInto

theorem Moves.extends (h : a.Moves n c d s t) : Extends s t := by
  induction h with
  | refl => exact .refl s
  | tail _ hmove ih => exact ih.trans hmove.extends

theorem enterAt_nodes {m : M} {entry : N} : entry ∈ (a.enterAt n c m d s entry).nodes := by
  obtain ⟨s', c', _, _, _, t, ht, heq⟩ := enterAt_spec a n c m d s entry
  have hjoin : entry ∈ t.nodes := by
    rcases ht with rfl | ⟨_, rfl⟩
    · exact mem_nodes_joinInto
    · exact mem_nodes_joinInto (s := (a.recordCall ⟨n, entry, c, c'⟩ s').2)
  rw [heq]
  split
  · rwa [State.nodes_congr (requeueExits_table m c' t).1]
  · exact hjoin

theorem visitCall_enters {P : M → N → State N M D C S E → Prop} (hcall : a.graph.isCall n = true)
    (hend : (a.visitCall n c d s).2 = true)
    (gain : ∀ t, ∀ m ∈ a.graph.callees n, ∀ entry ∈ a.graph.starts m,
      P m entry (a.enterAt n c m (a.problem.call n m d) t entry))
    (stay : ∀ {t u m entry}, a.Moves n c d t u → P m entry t → P m entry u) :
    ∀ m ∈ a.graph.callees n, ∀ entry ∈ a.graph.starts m, P m entry (a.visitCall n c d s).1 := by
  obtain ⟨hexist, _, heq⟩ := visitCall_eq hend
  rw [heq, enterCallees_eq hexist]
  intro m hm entry hentry
  -- an entry gains `P` as it is entered, and keeps it while other entries follow
  refine stay (foldl_reflTransGen (fun _ _ hx => bypassTo_moves hcall hx) _) ?_
  refine foldl_gains (P := fun m t => ∀ entry ∈ a.graph.starts m, P m entry t)
    (a.enterCallee n c d) _ (fun t m hm => ?_) (fun _ _ _ hx h entry hentry =>
      stay (enterCallee_moves hcall hx) (h entry hentry)) s m hm entry hentry
  exact foldl_gains (P := P m) _ _ (fun t entry => gain t m hm entry)
    (fun _ _ _ hx => stay (enterAt_moves hcall hm hx)) t

theorem visitCall_onward (hcall : a.graph.isCall n = true) (hend : (a.visitCall n c d s).2 = true) :
    a.graph.Onward (a.visitCall n c d s).1.nodes n := by
  have henter := visitCall_enters (P := fun _ entry t => entry ∈ State.nodes t) hcall hend
    (fun _ _ _ _ _ => enterAt_nodes) (fun hmoves h => (Moves.extends hmoves).nodes h)
  refine ⟨by simp [hcall], fun _ n' hn' => ?_, fun _ => henter⟩
  rw [(visitCall_eq hend).2.2]
  exact foldl_gains (P := fun n' (t : State N M D C S E) => n' ∈ t.nodes) (a.bypassTo n c d) _
    (fun _ _ _ => mem_nodes_joinInto)
    (fun _ _ _ hx h => (Moves.extends (bypassTo_moves hcall hx)).nodes h) _ n' hn'

theorem visit_onward (hend : (a.visit n c d s).2 = true) :
    a.graph.Onward (a.visit n c d s).1.nodes n := by
  have hnode := hasNode_of_visit hend
  simp only [visit, hnode, Bool.not_true, Bool.false_eq_true, if_false] at hend ⊢
  cases hcall : a.graph.isCall n with
  | true =>
      simp only [hcall, if_true] at hend ⊢
      exact visitCall_onward hcall hend
  | false =>
      cases hexit : a.graph.isExit n with
      | true => exact ⟨by simp [hexit], by simp [hcall], by simp [hcall]⟩
      | false => exact ⟨fun _ _ _ hn' => visitPlain_nodes hn', by simp [hcall], by simp [hcall]⟩

end Extends

section Within

variable [Ord N] [Ord M]

structure Within (g : Icfg N M) (X : Set N) (s : State N M D C S E) : Prop where
  nodes : s.nodes ⊆ X
  sites : ∀ {m r}, r ∈ s.callsInto m → r.site ∈ X ∧ g.isCall r.site = true

variable {a : Analysis N M D C S E} {s t : State N M D C S E} {g : Icfg N M} {X : Set N}
variable {n : N} {c : C} {d : D}

theorem Within.congr (h : Within g X s) (htable : t.table = s.table) (hcalls : t.calls = s.calls) :
    Within g X t where
  nodes := by
    rw [State.nodes_congr htable]
    exact h.nodes
  sites hr := h.sites (by rwa [State.callsInto_congr hcalls] at hr)

variable [Std.TransOrd N] [Std.LawfulEqOrd N] [DecidableEq N]

theorem Within.joinInto (h : Within g X s) (hn : n ∈ X) : Within g X (a.joinInto n c d s) where
  nodes := by
    rw [nodes_joinInto]
    exact Set.insert_subset hn h.nodes
  sites hr := h.sites (by rwa [joinInto_callsInto] at hr)

theorem Within.seed (hX : {n | ∃ d, (n, d) ∈ a.problem.seeds} ⊆ X) (x : S) :
    Within g X (a.seed (.initial x)) := by
  refine List.foldlRecOn (motive := Within g X) _ _ ⟨?_, ?_⟩ (fun t ht y hy => ?_)
  · rintro n ⟨c, d, hd⟩
    simp at hd
  · simp
  · exact ht.joinInto (hX ⟨y.2, hy⟩)

variable [Std.TransOrd M] [Std.LawfulEqOrd M] [DecidableEq M]

theorem Within.move (h : Within a.graph X s) (hX : ∀ n ∈ X, a.graph.Onward X n) (hn : n ∈ X)
    (hmove : a.Move n c d s t) : Within a.graph X t := by
  cases hmove with
  | quiet h' => exact h.congr h'.table h'.calls
  | requeue => exact h.congr rfl rfl
  | remember => exact h.congr rfl rfl
  | pass hcall hexit hn' => exact h.joinInto ((hX n hn).pass hcall hexit _ hn')
  | bypass hcall hn' => exact h.joinInto ((hX n hn).bypass hcall _ hn')
  | @enter m entry c' hcall hm hentry _ =>
      refine Within.joinInto ⟨?_, fun {m' r} hr => ?_⟩ ((hX n hn).enter hcall m hm entry hentry)
      · rw [State.nodes_congr (recordCall_table _)]
        exact h.nodes
      · rcases mem_callsInto_recordCall.mp hr with hr | ⟨rfl, _⟩
        · exact h.sites hr
        · exact ⟨hn, hcall⟩
  | leave _ _ hr _ hn' =>
      obtain ⟨hsite, hcall⟩ := h.sites hr
      exact h.joinInto ((hX _ hsite).bypass hcall _ hn')

theorem Within.moves (h : Within a.graph X s) (hX : ∀ n ∈ X, a.graph.Onward X n) (hn : n ∈ X)
    (hmoves : a.Moves n c d s t) : Within a.graph X t := by
  induction hmoves with
  | refl => exact h
  | tail _ hmove ih => exact ih.move hX hn hmove

theorem Within.step {l : List (N × C)} (h : Within a.graph X s)
    (hX : ∀ n ∈ X, a.graph.Onward X n) :
    Within a.graph X (a.step n c { s with worklist := l }).1 := by
  simp only [Analysis.step]
  split
  · rename_i c' d hlookup
    have hn : n ∈ X := h.nodes ⟨c', lookup_tracks a hlookup⟩
    refine Within.moves ?_ hX hn (visit_moves ..)
    exact h.congr rfl rfl
  · exact h.congr rfl rfl

end Within

section Spread

variable [Ord N] [Ord M]

structure Spread (g : Icfg N M) (s : State N M D C S E) : Prop where
  queued : ∀ {w}, w ∈ s.worklist → s.Tracks w.1 w.2
  onward : ∀ n ∈ s.nodes, (∃ c, (n, c) ∈ s.worklist) ∨ g.Onward s.nodes n

variable {a : Analysis N M D C S E} {s t : State N M D C S E} {g : Icfg N M}

theorem Spread.of_alike (h : Spread g s) (halike : s.Alike t) : Spread g t where
  queued hw := (State.tracks_congr halike.table).mpr (h.queued (halike.worklist ▸ hw))
  onward := by
    rw [State.nodes_congr halike.table, halike.worklist]
    exact h.onward

variable [Std.TransOrd N] [Std.LawfulEqOrd N] [DecidableEq N]

theorem Spread.seed (x : S) : {n | ∃ d, (n, d) ∈ a.problem.seeds} ⊆ (a.seed (.initial x)).nodes ∧
    Spread g (a.seed (.initial x)) := by
  have hall := foldl_establishes
    (I := fun t : State N M D C S E => (∀ w ∈ t.worklist, t.Tracks w.1 w.2) ∧
      ∀ n ∈ t.nodes, ∃ c, (n, c) ∈ t.worklist)
    (P := fun x t => x.1 ∈ t.nodes) (fun s (x : N × D) => a.joinInto x.1 a.initial x.2 s)
    a.problem.seeds
    (b := { State.initial x with seeded := true }.emit (.seeding a.problem.seeds.length)) ?_ ?_ ?_ ?_
  · exact ⟨fun n ⟨d, hd⟩ => hall.2.2 (n, d) hd, hall.1.1 _, fun n hn => Or.inl (hall.1.2 n hn)⟩
  · rintro t y _ ⟨hqueued, hwait⟩
    have hext : Extends t (a.joinInto y.1 a.initial y.2 t) := extends_joinInto
    refine ⟨fun w hw => (hext.waiting hw).elim (fun hw => hext.tracks (hqueued w hw)) id, ?_⟩
    intro n hn
    exact (hext.fresh hn).elim (fun hn => (hwait n hn).imp (fun _ hc => hext.queued hc)) id
  · intro t y _ _
    exact mem_nodes_joinInto
  · intro t y x _ _ hy
    exact extends_joinInto.nodes hy
  · refine ⟨fun _ hw => absurd hw List.not_mem_nil, ?_⟩
    rintro n ⟨c, d, hd⟩
    simp at hd

variable [Std.TransOrd M]

theorem Spread.visit {n : N} {c c' : C} {d : D} {rest : List (N × C)} {s' : State N M D C S E}
    (h : Spread a.graph s) (hw : s.worklist = (n, c) :: rest) (htable : s'.table = s.table)
    (hwork : s'.worklist = rest) (hvisit : a.visit n c' d s' = (t, true)) : Spread a.graph t := by
  have hext := Moves.extends (visit_moves (a := a) n c' d s')
  have honward := visit_onward (a := a) (n := n) (c := c') (d := d) (s := s') (by rw [hvisit])
  rw [hvisit] at hext honward
  have hnodes : s'.nodes = s.nodes := State.nodes_congr htable
  refine ⟨fun {w} hmem => ?_, fun m hm => ?_⟩
  · rcases hext.waiting hmem with hmem | hc
    · rw [hwork] at hmem
      refine hext.tracks ((State.tracks_congr htable).mpr (h.queued ?_))
      exact hw ▸ List.mem_cons_of_mem _ hmem
    · exact hc
  · rcases hext.fresh hm with hm | hwait
    · rw [hnodes] at hm
      rcases h.onward m hm with ⟨c₀, hwait⟩ | hset
      · rw [hw, List.mem_cons] at hwait
        rcases hwait with heq | hmem
        · obtain ⟨rfl, rfl⟩ := Prod.mk.inj heq
          exact Or.inr honward
        · exact Or.inl ⟨c₀, hext.queued (hwork ▸ hmem)⟩
      · exact Or.inr (hset.mono (hnodes ▸ hext.nodes))
    · exact Or.inl hwait

theorem Spread.step (hrefl : ∀ c, a.contexts.same c c = true) {n : N} {c : C}
    {rest : List (N × C)} (h : Spread a.graph s) (hw : s.worklist = (n, c) :: rest)
    (hstep : a.step n c { s with worklist := rest } = (t, true)) :
    Spread a.graph t ∧ s.nodes ⊆ t.nodes := by
  obtain ⟨d, hd⟩ := h.queued (w := (n, c)) (by simp [hw])
  obtain ⟨e, he⟩ := findIn_isSome_of_mem (a := a) hd (hrefl c)
  simp only [Analysis.step] at hstep
  split at hstep
  · have hmoves := congrArg Prod.fst hstep ▸ visit_moves (a := a) n _ _ _
    refine ⟨h.visit hw ?_ ?_ hstep, (Moves.extends hmoves).nodes⟩ <;> rfl
  · rename_i hnone
    exact absurd (he.symm.trans hnone) (by simp)

end Spread

section Shifting

variable [Ord N] [Std.TransOrd N] [DecidableEq N] [Ord M] [Std.TransOrd M]

/-- The states of a run in which each visit may find other flows and another order of facts. -/
inductive Shifting (a : Analysis N M D C S E) (x : S) : State N M D C S E → Prop
  | seeded : Shifting a x (a.seed (.initial x))
  | quiet {s t} : Shifting a x s → s.Alike t → Shifting a x t
  | step {s t n c rest} (p : Problem N M D S E) : Shifting a x s → s.worklist = (n, c) :: rest →
      ({ a with problem := p } : Analysis N M D C S E).step n c { s with worklist := rest } =
        (t, true) → Shifting a x t

variable {a : Analysis N M D C S E} {s : State N M D C S E} {x : S} {X : Set N}

theorem ReachesFrom.shifting (h : a.ReachesFrom x s) : a.Shifting x s := by
  induction h with
  | refl => exact .seeded
  | tail _ hstep ih =>
      cases hstep with
      | quiet halike => exact ih.quiet halike
      | step hw hstep => exact ih.step a.problem hw hstep

variable [Std.LawfulEqOrd N]

theorem Shifting.spread (hrefl : ∀ c, a.contexts.same c c = true) (h : a.Shifting x s) :
    {n | ∃ d, (n, d) ∈ a.problem.seeds} ⊆ s.nodes ∧ Spread a.graph s := by
  induction h with
  | seeded => exact Spread.seed x
  | quiet _ halike ih =>
      rw [State.nodes_congr halike.table]
      exact ⟨ih.1, ih.2.of_alike halike⟩
  | step p _ hw hstep ih =>
      have hspread := Spread.step (a := { a with problem := p }) hrefl ih.2 hw hstep
      exact ⟨ih.1.trans hspread.2, hspread.1⟩

variable [Std.LawfulEqOrd M] [DecidableEq M]

theorem Shifting.within (h : a.Shifting x s)
    (hX : a.graph.Closed {n | ∃ d, (n, d) ∈ a.problem.seeds} X) : Within a.graph X s := by
  induction h with
  | seeded => exact .seed hX.seeded x
  | quiet _ halike ih => exact ih.congr halike.table halike.calls
  | @step s t n c rest p _ _ hstep ih =>
      have hwithin := Within.step (a := { a with problem := p }) (n := n) (c := c) (l := rest) ih
        hX.onward
      rwa [hstep] at hwithin

theorem Shifting.nodes_isLeast (hrefl : ∀ c, a.contexts.same c c = true) (h : a.Shifting x s)
    (hdone : s.worklist = []) :
    IsLeast {X | a.graph.Closed {n | ∃ d, (n, d) ∈ a.problem.seeds} X} s.nodes := by
  obtain ⟨hseeded, hspread⟩ := h.spread hrefl
  refine ⟨⟨hseeded, fun n hn => ?_⟩, fun X hX => (h.within hX).nodes⟩
  refine (hspread.onward n hn).resolve_left (fun ⟨c, hc⟩ => ?_)
  simp [hdone] at hc

theorem reached_nodes_isLeast (hrefl : ∀ c, a.contexts.same c c = true) :
    (∀ s, a.Solved s → s.finished = true →
      IsLeast {X | a.graph.Closed {n | ∃ d, (n, d) ∈ a.problem.seeds} X} s.nodes) ∧
    ∀ x s, a.Shifting x s → s.worklist = [] →
      IsLeast {X | a.graph.Closed {n | ∃ d, (n, d) ∈ a.problem.seeds} X} s.nodes := by
  refine ⟨fun s h hs => ?_, fun x s h hdone => h.nodes_isLeast hrefl hdone⟩
  obtain ⟨⟨x, hreach⟩, hdone⟩ := h.reaches hs
  exact (ReachesFrom.shifting hreach).nodes_isLeast hrefl hdone

end Shifting

end Analysis

namespace Graph

theorem lateCall_nodes_isLeast : (∀ c, lateCallAnalysis.contexts.same c c = true) ∧
    lateCallAnalysis.Solved lateCallState ∧ lateCallState.finished = true ∧
    IsLeast {X | lateCallAnalysis.graph.Closed
      {n | ∃ d, (n, d) ∈ lateCallAnalysis.problem.seeds} X} lateCallState.nodes :=
  have hrefl : ∀ c, lateCallAnalysis.contexts.same c c = true := ContextKind.Lawful.same_refl
  ⟨hrefl, lateCall_solved.1, lateCall_solved.2,
    (Analysis.reached_nodes_isLeast hrefl).1 lateCallState lateCall_solved.1 lateCall_solved.2⟩

end Graph

end Interproc
