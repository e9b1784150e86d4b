import Interproc.Proofs.Solver.Review

namespace Interproc.Analysis

open Solver

variable {N M D C S E : Type} [Ord N] [Ord M]

section Deed

variable [Std.TransOrd N] [DecidableEq N] [Std.TransOrd M] (a : Analysis N M D C S E)

/-- One change while context `c` is visited at `n`. A callee is entered under a context that is
tracked at its entry, or under a new one for which there is room. -/
inductive Deed (n : N) (c : C) : State N M D C S E → State N M D C S E → Prop
  | aside {s t} : s.Aside t → Deed n c s t
  | requeue {s n' c'} : s.Tracks n' c' → Deed n c s (s.queue n' c')
  | pass {s n' d} : a.graph.isCall n = false → a.graph.isExit n = false → n' ∈ a.graph.succs n →
      Deed n c s (a.joinInto n' c d s)
  | bypass {s n' d} : a.graph.isCall n = true → n' ∈ a.graph.returnSites n →
      Deed n c s (a.joinInto n' c d s)
  | widen {s entry c' max first d es} : a.limits.maxContexts = some max →
      s.entriesAt entry = (first, d) :: es → max ≤ (s.entriesAt entry).length →
      a.lookup s entry c' = none → Deed n c s (s.widen entry c' first)
  | rejoin {s m entry c' d} : a.graph.isCall n = true → m ∈ a.graph.callees n →
      entry ∈ a.graph.starts m → s.Tracks entry c' →
      a.contexts.same c' (a.contexts.enter c n entry d) = true ∨
        a.limits.maxContexts.isSome = true →
      Deed n c s (a.joinInto entry c' d (a.recordCall ⟨n, entry, c, c'⟩ s).2)
  | begin {s m entry c' d} : a.graph.isCall n = true → m ∈ a.graph.callees n →
      entry ∈ a.graph.starts m → c' = a.contexts.enter c n entry d →
      a.lookup s entry c' = none → a.Admits s entry →
      Deed n c s
        (a.joinInto entry c' d (a.recordCall ⟨n, entry, c, c'⟩ (a.create n entry c' s)).2)
  | truncate {s} {r : CallRecord N C} : a.graph.isCall n = false → a.graph.isExit n = true →
      r ∈ s.callsInto (a.graph.functionOf n) → a.contexts.same r.callee c = true →
      a.contexts.same (a.contexts.leave c) r.caller = false →
      Deed n c s (s.truncate r.site (a.contexts.leave c) r.caller)
  | leave {s n' d} {r : CallRecord N C} : a.graph.isCall n = false → a.graph.isExit n = true →
      r ∈ s.callsInto (a.graph.functionOf n) → a.contexts.same r.callee c = true →
      n' ∈ a.graph.returnSites r.site → Deed n c s (a.joinInto n' r.caller d s)

abbrev Deeds (n : N) (c : C) : State N M D C S E → State N M D C S E → Prop :=
  Relation.ReflTransGen (a.Deed n c)

/-- The moments of runs. The seeds are joined before anything else, and whatever is tracked may be
visited. -/
inductive Course : State N M D C S E → Prop
  | fresh (x : S) : Course (.initial x)
  | aside {s t} : Course s → s.Aside t → Course t
  | seed {s n d} : Course s → (n, d) ∈ a.problem.seeds → (∀ n c, s.Tracks n c → c = a.initial) →
      Course (a.joinInto n a.initial d s)
  | visit {s n c d rest} : Course s → s.worklist = (n, c) :: rest → (c, d) ∈ s.entriesAt n →
      Course (({ s with worklist := rest }.count
        (fun t => { t with iterations := t.iterations + 1 })).emit (.visited n c d))
  | deed {s t n c} : Course s → s.Tracks n c → a.Deed n c s t → Course t

structure Always (P : State N M D C S E → Prop) : Prop where
  course : ∀ s, a.Course s → P s
  consulted : ∀ s, a.Consulted s → P s
  solve : ∀ s, a.Consulted s → ∀ fuel, P (a.solve fuel s).1
  check : ∀ s, a.Consulted s → P (a.checkPostFixpoint s).1

end Deed

variable {a : Analysis N M D C S E} {s t : State N M D C S E} {n : N} {c : C} {d : D}

theorem remember_aside (site site' : N) (d : D) (s : State N M D C S E) :
    s.Aside (a.remember site site' d s) := by
  let s' : State N M D C S E := { s with client := (a.problem.remember site site' d s.client).1 }
  have hclient : s.Aside s' := ⟨rfl, rfl, rfl, rfl, [], by simp, rfl⟩
  refine hclient.trans (State.emitAll_aside (fun e he => ?_))
  obtain ⟨_, _, rfl⟩ := List.mem_map.mp he
  rfl

theorem Tabled.aside (h : a.Tabled s) (haside : s.Aside t) : a.Tabled t :=
  (h.remember t.client).of_alike ⟨haside.table, haside.worklist, haside.calls, rfl⟩

section Visit

variable [Std.TransOrd N] [DecidableEq N] [Std.TransOrd M]

theorem requeueExits_deeds (m : M) (c' : C) : a.Deeds n c s (a.requeueExits m c' s) := by
  refine foldl_reflTransGen (fun t x _ => ?_) s
  cases h : a.lookup t x c' with
  | none => exact .refl
  | some e => exact .single (.requeue (lookup_tracks a h))

theorem Course.remembers (h : a.Course s) (hst : a.Remembers s t) : a.Course t := by
  induction hst with
  | refl => exact h
  | tail _ hstep ih =>
      obtain ⟨n, n', d, rfl⟩ := hstep
      exact ih.aside (remember_aside ..)

variable [Std.LawfulEqOrd N]

theorem Deed.contexts (h : a.Deed n c s t) (m : N) :
    (s.entriesAt m).map Prod.fst <+: (t.entriesAt m).map Prod.fst := by
  cases h with
  | aside h => exact State.entriesAt_congr h.table m ▸ List.prefix_refl _
  | requeue => exact List.prefix_refl _
  | pass => exact contexts_joinInto m
  | bypass => exact contexts_joinInto m
  | widen => exact List.prefix_refl _
  | rejoin =>
      rw [← recordCall_entriesAt (a := a) (s := s)]
      exact contexts_joinInto m
  | begin =>
      rw [← (create_quiet a ..).entriesAt, ← recordCall_entriesAt]
      exact contexts_joinInto m
  | truncate => exact List.prefix_refl _
  | leave => exact contexts_joinInto m

theorem Deed.tracks {m : N} {c' : C} (h : a.Deed n c s t) (hc : s.Tracks m c') :
    t.Tracks m c' := by
  rw [State.tracks_iff] at hc ⊢
  exact (h.contexts m).subset hc

theorem Course.deeds (h : a.Course s) (hc : s.Tracks n c) (hdeeds : a.Deeds n c s t) :
    a.Course t := by
  have hboth : a.Course t ∧ t.Tracks n c := by
    induction hdeeds with
    | refl => exact ⟨h, hc⟩
    | tail _ hdeed ih => exact ⟨ih.1.deed ih.2 hdeed, hdeed.tracks ih.2⟩
  exact hboth.1

theorem enterAt_deeds {m : M} {entry : N} (hcall : a.graph.isCall n = true)
    (hm : m ∈ a.graph.callees n) (hentry : entry ∈ a.graph.starts m) (d : D)
    (s : State N M D C S E) : a.Deeds n c s (a.enterAt n c m d s entry) := by
  let c₀ := a.contexts.enter c n entry d
  let s₀ := s.emitAll ((a.contexts.missing n entry d).map (fun x => .absent x n entry))
  have haside : s.Aside s₀ := State.emitAll_aside (fun e he => by
    obtain ⟨_, _, rfl⟩ := List.mem_map.mp he
    rfl)
  let p := a.adopt n entry c₀ s₀
  let q := a.recordCall ⟨n, entry, c, p.1⟩ p.2
  let u := a.joinInto entry p.1 d q.2
  let again := (a.lookup q.2 entry p.1).isSome && a.problem.recompute m
  have hjoin : a.Deeds n c s u := by
    refine Relation.ReflTransGen.head (.aside haside) ?_
    show a.Deeds n c s₀ (a.joinInto entry (a.adopt n entry c₀ s₀).1 d
      (a.recordCall ⟨n, entry, c, (a.adopt n entry c₀ s₀).1⟩ (a.adopt n entry c₀ s₀).2).2)
    -- an equal context that is tracked, the first one under a full limit, or a new one
    rcases adopt_cases a n entry c₀ s₀ with ⟨e, he, heq⟩ |
      ⟨hnone, max, first, d', es, hmax, hes, hfull, heq⟩ | ⟨hnone, hadmits, heq⟩
    · have hmem := mem_of_findIn he
      rw [heq]
      exact .single (.rejoin hcall hm hentry ⟨e.2, hmem.1⟩ (Or.inl hmem.2))
    · have htracks : s₀.Tracks entry first := ⟨d', by simp [hes]⟩
      rw [heq]
      refine Relation.ReflTransGen.head (.widen hmax hes hfull hnone) (.single ?_)
      exact .rejoin hcall hm hentry htracks (Or.inr (by simp [hmax]))
    · rw [heq]
      exact .single (.begin hcall hm hentry rfl hnone hadmits)
  have htracks : u.Tracks entry p.1 := by
    have hadopts := (adopt_spec a n entry c₀ s₀).1
    have hq : q.2.table = s₀.table :=
      (recordCall_table _).trans (adopt_spec a n entry c₀ s₀).2.1.table
    exact tracks_of_adopts (adopts_congr hq hadopts)
  have hagain : a.Deeds n c s (if again then u.queue entry p.1 else u) := by
    split
    · exact hjoin.tail (.requeue htracks)
    · exact hjoin
  show a.Deeds n c s (if q.1 then a.requeueExits m p.1 (if again then u.queue entry p.1 else u)
    else if again then u.queue entry p.1 else u)
  split
  · exact hagain.trans (requeueExits_deeds m p.1)
  · exact hagain

theorem visit_deeds (n : N) (c : C) (d : D) (s : State N M D C S E) :
    a.Deeds n c (s.emit (.visited n c d)) (a.visit n c d s).1 := by
  have hcomposes : a.Composes (a.Deed n c) n c d := by
    constructor
    case pass => exact fun hcall hexit _ _ hn' => .single (.pass hcall hexit hn')
    case enter => exact fun hcall _ _ s hm hentry => enterAt_deeds hcall hm hentry _ s
    case remember => exact fun _ _ _ _ => .single (.aside (remember_aside ..))
    case bypass => exact fun hcall _ _ hn' => .single (.bypass hcall hn')
    case uncalled => exact fun _ => .single (.aside (State.emit_aside rfl))
    case truncate =>
      exact fun hcall hexit _ _ hr hsame hdiffers =>
        .single (.truncate hcall hexit hr hsame hdiffers)
    case leave =>
      exact fun hcall hexit _ _ _ hr hsame hn' => .single (.leave hcall hexit hr hsame hn')
  exact hcomposes.visit s

end Visit

section Course

variable [Std.TransOrd N] [DecidableEq N] [Std.TransOrd M] [Std.LawfulEqOrd N]

theorem Course.joinSeeds {xs : List (N × D)} (hxs : xs <+: a.problem.seeds) (h : a.Course s)
    (hs : ∀ n c, s.Tracks n c → c = a.initial) : a.Course (a.joinSeeds xs s) := by
  have hboth : a.Course (a.joinSeeds xs s) ∧
      ∀ n c, (a.joinSeeds xs s).Tracks n c → c = a.initial := by
    refine List.foldlRecOn (motive := fun s => a.Course s ∧ ∀ n c, s.Tracks n c → c = a.initial)
      _ _ ⟨h, hs⟩ ?_
    rintro t ⟨ht, hinitial⟩ ⟨m, e⟩ hx
    refine ⟨ht.seed (hxs.mem hx) hinitial, fun n c ⟨d, hd⟩ => ?_⟩
    rcases mem_entriesAt_joinInto hd with hold | ⟨rfl, _, ⟨d', hd', _, _⟩ | ⟨_, heq⟩⟩
    · exact hinitial n c ⟨d, hold⟩
    · exact hinitial _ _ ⟨d', hd'⟩
    · exact congrArg Prod.fst heq
  exact hboth.1

theorem course_seed (x : S) : a.Course (a.seed (.initial x)) := by
  let s₀ : State N M D C S E :=
    { State.initial x with seeded := true }.emit (.seeding a.problem.seeds.length)
  have h₀ : a.Course s₀ :=
    (Course.fresh x).aside ⟨rfl, rfl, rfl, rfl, [.seeding a.problem.seeds.length],
      by simp [Event.aside], rfl⟩
  refine h₀.joinSeeds (List.prefix_refl _) ?_
  rintro n c ⟨d, hd⟩
  simp at hd

variable [Std.LawfulEqOrd M] [DecidableEq M] [a.contexts.Lawful]

theorem Deed.tabled (hp : a.problem.Ordered) (h : a.Tabled s) (hc : s.Tracks n c)
    (hdeed : a.Deed n c s t) : a.Tabled t := by
  cases hdeed with
  | aside haside => exact h.aside haside
  | requeue htracks => exact h.queue htracks
  | pass => exact h.joinInto
  | bypass => exact h.joinInto
  | widen => exact h.of_alike ⟨rfl, rfl, rfl, rfl⟩
  | rejoin _ _ _ htracks hsame => exact h.enter hp hc (Or.inr ⟨htracks, hsame⟩)
  | @begin m entry c' d _ _ _ _ hnone _ =>
      have hcreate := create_quiet a n entry c' s
      have hadopts : a.Adopts (a.create n entry c' s) entry c' c' :=
        adopts_congr hcreate.table (Or.inl ⟨hnone, rfl⟩)
      have hc' := (State.tracks_congr hcreate.table).mpr hc
      exact (h.of_alike hcreate.toAlike).enter hp hc' hadopts
  | truncate => exact h.of_alike ⟨rfl, rfl, rfl, rfl⟩
  | leave => exact h.joinInto

theorem Course.tabled (hp : a.problem.Ordered) (h : a.Course s) : a.Tabled s := by
  induction h with
  | fresh => exact ⟨by simp, fun hw => absurd hw List.not_mem_nil, by simp⟩
  | aside _ haside ih => exact ih.aside haside
  | seed _ _ _ ih => exact ih.joinInto
  | visit _ hw _ ih => exact (ih.dequeue hw).of_alike ⟨rfl, rfl, rfl, rfl⟩
  | deed _ hc hdeed ih => exact hdeed.tabled hp ih hc

theorem Course.step (hp : a.problem.Ordered) (h : a.Course s) {rest : List (N × C)}
    (hw : s.worklist = (n, c) :: rest) : a.Course (a.step n c { s with worklist := rest }).1 := by
  have htabled := h.tabled hp
  obtain ⟨d, hd⟩ : s.Tracks n c := htabled.queued (w := (n, c)) (by simp [hw])
  rw [step_eq_visit htabled hd]
  exact (h.visit hw hd).deeds ⟨d, hd⟩ (visit_deeds n c d _)

theorem Course.solve (hp : a.problem.Ordered) (h : a.Course (if s.seeded then s else a.seed s))
    (fuel : Nat) : a.Course (a.solve fuel s).1 :=
  solve_keeps (P := fun _ s => a.Course s) (fun hs hw => hs.step hp hw) id
    (fun hs _ haside => hs.aside haside) h fuel

theorem Consulted.course (hp : a.problem.Ordered) (h : a.Consulted s) :
    a.Course s ∧ (∀ fuel, a.Course (a.solve fuel s).1) ∧ a.Course (a.checkPostFixpoint s).1 := by
  have hstart : ∀ {x : S}, a.Course (if (State.initial x : State N M D C S E).seeded then .initial x
      else a.seed (.initial x)) := fun {x} => course_seed x
  have hcases : (∃ x, s = .initial x) ∨ s.seeded = true ∧ a.Course s := by
    induction h with
    | initial client => exact Or.inl ⟨client, rfl⟩
    | @solve s t fuel _ hsolve ih =>
        obtain ⟨_, _, _, hseeded, _⟩ := solve_iterates hsolve
        obtain rfl : (a.solve fuel s).1 = t := by rw [hsolve]
        refine Or.inr ⟨hseeded, ?_⟩
        rcases ih with ⟨x, rfl⟩ | ⟨hs, ih⟩
        · exact Course.solve hp hstart fuel
        · exact Course.solve hp (by rwa [if_pos hs]) fuel
    | @check s t vs _ hcheck ih =>
        have hremembers := review_remembers (a := a) (tracked s) s
        obtain rfl : (a.checkPostFixpoint s).1 = t := by rw [hcheck]
        rcases ih with ⟨x, rfl⟩ | ⟨hs, ih⟩
        · exact Or.inl ⟨x, rfl⟩
        · refine Or.inr ⟨?_, ih.remembers hremembers⟩
          obtain ⟨_, _, heq⟩ := hremembers.reports
          rw [checkPostFixpoint, heq]
          exact hs
  have hs : a.Course s ∧ a.Course (if s.seeded then s else a.seed s) := by
    rcases hcases with ⟨x, rfl⟩ | ⟨hseeded, hs⟩
    · exact ⟨.fresh x, hstart⟩
    · exact ⟨hs, by rwa [if_pos hseeded]⟩
  exact ⟨hs.1, Course.solve hp hs.2, hs.1.remembers (review_remembers (tracked s) s)⟩

theorem Always.of_course (hp : a.problem.Ordered) {P : State N M D C S E → Prop}
    (h : ∀ s, a.Course s → P s) : a.Always P where
  course := h
  consulted s hs := h s (hs.course hp).1
  solve _ hs fuel := h _ ((hs.course hp).2.1 fuel)
  check _ hs := h _ (hs.course hp).2.2

end Course

end Interproc.Analysis
