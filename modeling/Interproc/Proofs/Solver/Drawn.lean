import Interproc.Proofs.Solver.BoundedContexts
import Interproc.Proofs.Solver.Outline

namespace Interproc

open Solver

variable {N M C D S E : Type}

namespace Analysis

def plan (a : Analysis N M D C S E) (enter : C → N → N → C) : Plan N M C :=
  ⟨a.graph, a.contexts.same, enter, a.problem.seeds.map Prod.fst, a.initial⟩

structure EntersBy (a : Analysis N M D C S E) (enter : C → N → N → C) : Prop where
  enter : ∀ c n entry d, a.contexts.enter c n entry d = enter c n entry
  unlimited : a.limits.maxContexts = none

variable [Ord N] [Ord M]

structure Outlined (a : Analysis N M D C S E) (s : State N M D C S E) (o : Outline N M C) : Prop where
  contexts : ∀ n, (s.entriesAt n).map Prod.fst = o.contexts n
  calls : ∀ m, s.callsInto m = o.calls m
  leads : Leads o.fresh s.worklist
  queued : ∀ {w}, w ∈ s.worklist → s.Tracks w.1 w.2

variable {a : Analysis N M D C S E} {enter : C → N → N → C} {s t : State N M D C S E}
variable {o : Outline N M C} {n : N} {c : C} {d : D}

namespace Outlined

theorem foldl {α : Type} {f : State N M D C S E → α → State N M D C S E}
    {g : Outline N M C → α → Outline N M C} {l : List α}
    (step : ∀ s o, ∀ x ∈ l, a.Outlined s o → a.Outlined (f s x) (g o x)) (h : a.Outlined s o) :
    a.Outlined (l.foldl f s) (l.foldl g o) := by
  induction l generalizing s o with
  | nil => exact h
  | cons x l ih =>
      exact ih (fun s o y hy => step s o y (List.mem_cons_of_mem _ hy))
        (step s o x (List.mem_cons_self ..) h)

theorem congr (h : a.Outlined s o) (htable : t.table = s.table) (hwork : t.worklist = s.worklist)
    (hcalls : t.calls = s.calls) : a.Outlined t o where
  contexts n := by
    rw [State.entriesAt_congr htable]
    exact h.contexts n
  calls m := by
    rw [State.callsInto_congr hcalls]
    exact h.calls m
  leads := by
    rw [hwork]
    exact h.leads
  queued hw := (State.tracks_congr htable).mpr (h.queued (hwork ▸ hw))

theorem quiet (h : a.Outlined s o) (hquiet : s.Quiet t) : a.Outlined t o :=
  h.congr hquiet.table hquiet.worklist hquiet.calls

theorem queue (h : a.Outlined s o) (hc : s.Tracks n c) : a.Outlined (s.queue n c) o where
  contexts := h.contexts
  calls := h.calls
  leads := h.leads.append _
  queued hw := by
    rcases List.mem_append.mp hw with hw | hw
    · exact h.queued hw
    · rw [List.mem_singleton.mp hw]
      exact hc

theorem find (h : a.Outlined s o) (enter : C → N → N → C) (n : N) (c : C) :
    (a.plan enter).find o n c = (a.lookup s n c).map Prod.fst := by
  rw [Plan.find, ← h.contexts, List.find?_map]
  rfl

theorem adopt_fst (h : a.Outlined s o) (ha : a.EntersBy enter) (entry : N) :
    (a.adopt n entry (a.contexts.enter c n entry d) s).1 = (a.plan enter).callee o n c entry := by
  have henter : (a.plan enter).enter c n entry = a.contexts.enter c n entry d :=
    (ha.enter c n entry d).symm
  rw [Plan.callee, h.find, henter]
  simp only [adopt, ha.unlimited]
  cases a.lookup s entry (a.contexts.enter c n entry d) with
  | none => rfl
  | some e => rfl

theorem requeueExits (h : a.Outlined s o) (m : M) (c' : C) :
    a.Outlined (a.requeueExits m c' s) o := by
  refine List.foldlRecOn (motive := fun t => a.Outlined t o) _ _ h (fun t ht x _ => ?_)
  split
  · rename_i e he
    exact ht.queue (lookup_tracks a he)
  · exact ht

section Record

variable [DecidableEq N] [Std.TransOrd M] [Std.LawfulEqOrd M] [DecidableEq M]

theorem recordCall (h : a.Outlined s o) (r : CallRecord N C) :
    a.Outlined (a.recordCall r s).2 ((a.plan enter).record o r) := by
  refine ⟨fun n => ?_, fun m => ?_, ?_, fun hw => ?_⟩
  · rw [recordCall_entriesAt, Plan.contexts_record, h.contexts]
  · have hknown : (a.plan enter).known r (o.calls (a.graph.functionOf r.entry)) =
        a.known r (s.callsInto (a.graph.functionOf r.entry)) := by
      rw [h.calls]
      rfl
    rcases recordCall_cases a r s with ⟨hold, heq⟩ | ⟨hnew, _, hinto⟩
    · rw [Plan.record_of_known (hknown.trans hold), heq, h.calls]
    · refine (hinto m).trans ?_
      rw [Plan.calls_record_of_not, h.calls]
      · rfl
      · exact fun hold => absurd (hnew.symm.trans (hknown.symm.trans hold)) Bool.false_ne_true
  · rw [Plan.fresh_record, recordCall_worklist]
    exact h.leads
  · rw [recordCall_worklist] at hw
    exact (State.tracks_congr (recordCall_table r)).mpr (h.queued hw)

end Record

variable [Std.TransOrd N] [Std.LawfulEqOrd N] [DecidableEq N]

theorem joinInto (hrefl : ∀ c, a.contexts.same c c = true) (h : a.Outlined s o) :
    a.Outlined (a.joinInto n c d s) ((a.plan enter).join o n c) := by
  have hfind := h.find enter n c
  have hqueued : ∀ {w}, w ∈ (a.joinInto n c d s).worklist → (a.joinInto n c d s).Tracks w.1 w.2 :=
    fun hw => (mem_worklist_joinInto hw).elim (fun hw => tracks_joinInto (h.queued hw)) id
  rcases joinInto_cases a n c d s with ⟨e, he, _, ht⟩ | ⟨e, he, _, ht⟩ | ⟨hnone, ht⟩
  · rw [Plan.join_of_find (by simp [hfind, he]), ht]
    exact h
  · rw [Plan.join_of_find (by simp [hfind, he])]
    refine ⟨fun k => ?_, fun m => ?_, ?_, hqueued⟩
    · by_cases hk : k = n
      · rw [hk, ht.entries, map_fst_replace, h.contexts]
      · rw [ht.others k hk, h.contexts]
    · rw [joinInto_callsInto, h.calls]
    · rw [ht.worklist]
      exact h.leads.append _
  · have hnew : ¬ ((a.plan enter).find o n c).isSome := by simp [hfind, hnone]
    have hfresh : ((a.plan enter).join o n c).fresh = o.fresh ++ [(n, c)] := by
      rw [Plan.join, if_neg hnew]
    refine ⟨fun k => ?_, fun m => ?_, ?_, hqueued⟩
    · rw [Plan.contexts_join_of_not hnew, ← h.contexts, ← h.contexts]
      split
      · rename_i hk
        rw [hk, ht.entries, List.map_append]
        rfl
      · rename_i hk
        rw [ht.others k hk]
    · rw [joinInto_callsInto, Plan.calls_join, h.calls]
    · rw [hfresh, ht.worklist]
      refine h.leads.concat (fun hw => ?_)
      obtain ⟨d', hd'⟩ := h.queued hw
      obtain ⟨e, he⟩ := findIn_isSome_of_mem (a := a) hd' (hrefl c)
      exact absurd (he.symm.trans hnone) (by simp)

theorem joinAll (hrefl : ∀ c, a.contexts.same c c = true) (h : a.Outlined s o) (l : List N) :
    a.Outlined (l.foldl (fun s n => a.joinInto n c d s) s)
      (l.foldl (fun o n => (a.plan enter).join o n c) o) :=
  foldl (fun _ _ _ _ ht => ht.joinInto hrefl) h

theorem seed (hrefl : ∀ c, a.contexts.same c c = true) (x : S) :
    a.Outlined (a.seed (.initial x)) (a.plan enter).start := by
  have hfresh : a.Outlined
      ({ State.initial x with seeded := true }.emit (.seeding a.problem.seeds.length)) ∅ := by
    refine ⟨fun n => ?_, fun m => ?_, .nil, fun hw => absurd hw List.not_mem_nil⟩
    · rw [State.emit_entriesAt, State.seeded_entriesAt, State.initial_entriesAt]
      rfl
    · rw [State.emit_callsInto, State.seeded_callsInto, State.initial_callsInto]
      rfl
  rw [Plan.start, plan, List.foldl_map]
  exact foldl (fun _ _ _ _ ht => ht.joinInto hrefl) hfresh

theorem bypassTo (hrefl : ∀ c, a.contexts.same c c = true) (h : a.Outlined s o) (n' : N) :
    a.Outlined (a.bypassTo n c d s n') ((a.plan enter).join o n' c) := by
  have hremember := remember_quiet a n n' d s
  exact (h.congr hremember.table hremember.worklist hremember.calls).joinInto hrefl

theorem visitExit (hrefl : ∀ c, a.contexts.same c c = true) (h : a.Outlined s o)
    (hreturned : ∀ m, ∀ r ∈ o.calls m, ∀ n' ∈ a.graph.returnSites r.site,
      ((a.plan enter).find o n' r.caller).isSome) : a.Outlined (a.visitExit n c d s) o := by
  have hquiet : ∀ e, a.Outlined (s.emit e) o := fun _ => h.congr rfl rfl rfl
  have hreturn : ∀ t, ∀ r ∈ (s.callsInto (a.graph.functionOf n)).filter
      (fun r => a.contexts.same r.callee c), a.Outlined t o →
      a.Outlined (a.returnTo n c d t r) o := by
    intro t r hr ht
    rw [h.calls] at hr
    have hfound := hreturned _ r (List.mem_filter.mp hr).1
    have hjoin : ∀ t, a.Outlined t o → a.Outlined ((a.graph.returnSites r.site).foldl (fun s n' =>
        a.joinInto n' r.caller (a.problem.ret r.site (a.graph.functionOf n) n d) s) t) o := by
      intro t ht
      rw [← Plan.joinAll_of_find hfound]
      exact ht.joinAll hrefl (a.graph.returnSites r.site)
    simp only [returnTo]
    split
    · exact hjoin _ ht
    · exact hjoin _ (ht.congr rfl rfl rfl)
  simp only [Analysis.visitExit]
  split
  · exact List.foldlRecOn (motive := fun t => a.Outlined t o) _ _ (hquiet _)
      (fun t ht r hr => hreturn t r hr ht)
  · exact List.foldlRecOn (motive := fun t => a.Outlined t o) _ _ h
      (fun t ht r hr => hreturn t r hr ht)

variable [Std.TransOrd M] [Std.LawfulEqOrd M] [DecidableEq M]

theorem enterAt (hrefl : ∀ c, a.contexts.same c c = true) (ha : a.EntersBy enter)
    (h : a.Outlined s o) {m : M} {entry : N} :
    a.Outlined (a.enterAt n c m d s entry) ((a.plan enter).enterAt o n c entry) := by
  let s₀ := s.emitAll ((a.contexts.missing n entry d).map (fun x => .absent x n entry))
  have h₀ : a.Outlined s₀ o := h.quiet (State.emitAll_quiet _)
  have hadopt := adopt_spec a n entry (a.contexts.enter c n entry d) s₀
  have hcallee := h₀.adopt_fst (n := n) (c := c) (d := d) ha entry
  let p := a.adopt n entry (a.contexts.enter c n entry d) s₀
  let q := a.recordCall ⟨n, entry, c, p.1⟩ p.2
  have hjoin : a.Outlined (a.joinInto entry p.1 d q.2) ((a.plan enter).enterAt o n c entry) := by
    rw [Plan.enterAt, ← hcallee]
    exact ((h₀.quiet hadopt.2.1).recordCall _).joinInto hrefl
  have htracks : (a.joinInto entry p.1 d q.2).Tracks entry p.1 := tracks_of_adopts
    (adopts_congr ((recordCall_table _).trans hadopt.2.1.table) hadopt.1)
  have hagain : ∀ b : Bool, a.Outlined
      (if b then (a.joinInto entry p.1 d q.2).queue entry p.1 else a.joinInto entry p.1 d q.2)
      ((a.plan enter).enterAt o n c entry) := by
    intro b
    split
    · exact hjoin.queue htracks
    · exact hjoin
  show a.Outlined (if q.1 then a.requeueExits m p.1 _ else _) _
  split
  · exact (hagain _).requeueExits m p.1
  · exact hagain _

theorem enterCallee (hrefl : ∀ c, a.contexts.same c c = true) (ha : a.EntersBy enter)
    (h : a.Outlined s o) (m : M) :
    a.Outlined (a.enterCallee n c d s m) ((a.plan enter).enterCallee o n c m) :=
  foldl (fun _ _ _ _ ht => ht.enterAt hrefl ha) h

theorem visit (hrefl : ∀ c, a.contexts.same c c = true) (ha : a.EntersBy enter)
    (h : a.Outlined s o) (hend : (a.visit n c d s).2 = true)
    (hreturned : ∀ m, ∀ r ∈ o.calls m, ∀ n' ∈ a.graph.returnSites r.site,
      ((a.plan enter).find o n' r.caller).isSome) :
    a.Outlined (a.visit n c d s).1 ((a.plan enter).visit o n c) := by
  have hnode := hasNode_of_visit hend
  have hstart : a.Outlined (s.emit (.visited n c d)) o := h.congr rfl rfl rfl
  simp only [Analysis.visit, hnode, Bool.not_true, Bool.false_eq_true, if_false] at hend ⊢
  split at hend
  · rename_i hcall
    obtain ⟨hexist, _, heq⟩ := visitCall_eq hend
    rw [if_pos hcall, Plan.visit_call hcall, heq, enterCallees_eq hexist]
    exact foldl (fun _ _ n' _ ht => ht.bypassTo hrefl n')
      (foldl (fun _ _ m _ ht => ht.enterCallee hrefl ha m) hstart)
  · rename_i hcall
    have hvisit : (a.plan enter).visit o n c = if a.graph.isExit n then o
        else (a.graph.succs n).foldl (fun o n' => (a.plan enter).join o n' c) o :=
      Plan.visit_inner hcall
    rw [if_neg hcall, hvisit]
    split
    · exact hstart.visitExit hrefl hreturned
    · exact hstart.joinAll hrefl _

end Outlined

section Run

variable [Std.TransOrd N] [Std.LawfulEqOrd N] [DecidableEq N]
variable [Std.TransOrd M] [Std.LawfulEqOrd M] [DecidableEq M]
variable [a.contexts.Lawful] {x : S}

theorem Iteration.outlined (ha : a.EntersBy enter) (hs : a.Tabled s) (h : a.Outlined s o)
    (ho : (a.plan enter).Sound o) (hstep : a.Iteration s t) :
    a.Outlined t o ∨ a.Outlined t ((a.plan enter).next o) := by
  have hrefl : ∀ c, a.contexts.same c c = true := ContextKind.Lawful.same_refl
  cases hstep with
  | quiet halike => exact Or.inl (h.congr halike.table halike.worklist halike.calls)
  | @step n c rest hw hstep =>
      obtain ⟨d, s', hd, hquiet, hvisit⟩ := step_visits hs hw
      have hvisit : a.visit n c d s' = (t, true) := hvisit.symm.trans hstep
      have hstart : ∀ p : Outline N M C, p.contexts = o.contexts → p.calls = o.calls →
          Leads p.fresh rest → a.Outlined s' p := by
        intro p hcontexts hcalls hleads
        have hdequeued : a.Outlined { s with worklist := rest } p :=
          ⟨fun n => hcontexts ▸ h.contexts n, fun m => hcalls ▸ h.calls m, hleads,
            fun hmem => h.queued (hw ▸ List.mem_cons_of_mem _ hmem)⟩
        exact hdequeued.quiet hquiet
      -- a first visit draws; any other finds all that it would add
      rcases (hw ▸ h.leads).cons_cases with ⟨f, hf, hleads⟩ | ⟨hf, hleads⟩
      · right
        have hnext : (a.plan enter).next o = (a.plan enter).visit { o with fresh := f } n c := by
          simp only [Plan.next, hf]
        have hout := (hstart { o with fresh := f } rfl rfl hleads).visit hrefl ha
          (n := n) (c := c) (d := d) (by rw [hvisit]) ho.returned
        rwa [hvisit, ← hnext] at hout
      · left
        have hmem : c ∈ o.contexts n := h.contexts n ▸ List.mem_map.mpr ⟨(c, d), hd, rfl⟩
        have hpassed := (ho.passed n c hmem).resolve_left hf
        have hout := (hstart o rfl rfl hleads).visit hrefl ha (n := n) (c := c) (d := d)
          (by rw [hvisit]) ho.returned
        rwa [hvisit, Plan.visit_of_passed hrefl hpassed] at hout

theorem ReachesFrom.outlined (hp : a.problem.Ordered) (ha : a.EntersBy enter)
    (h : a.ReachesFrom x s) :
    ∃ i, a.Outlined s ((a.plan enter).next^[i] (a.plan enter).start) := by
  have hrefl : ∀ c, a.contexts.same c c = true := ContextKind.Lawful.same_refl
  induction h with
  | refl => exact ⟨0, .seed hrefl x⟩
  | tail hreach hstep ih =>
      obtain ⟨i, hi⟩ := ih
      have htabled := ((ReachesFrom.paced hp hreach).tabled hp).1
      rcases Iteration.outlined ha htabled hi (Plan.sound_iterate hrefl i) hstep with ht | ht
      · exact ⟨i, ht⟩
      · refine ⟨i + 1, ?_⟩
        rwa [Function.iterate_succ_apply']

theorem ReachesFrom.aimed (hp : a.problem.Ordered) (ha : a.EntersBy enter)
    (h : a.ReachesFrom x s) {m : M} {r : CallRecord N C} (hr : r ∈ s.callsInto m) :
    ∃ d, a.lookup s r.entry (enter r.caller r.site r.entry) = some (r.callee, d) := by
  obtain ⟨i, hi⟩ := h.outlined hp ha
  have haimed := (Plan.sound_iterate (P := a.plan enter) ContextKind.Lawful.same_refl i).aimed m r
    (hi.calls m ▸ hr)
  rw [Plan.Aimed, hi.find, Option.map_eq_some_iff] at haimed
  obtain ⟨e, he, hcallee⟩ := haimed
  exact ⟨e.2, by rw [← hcallee]; exact he⟩

end Run

section Precedes

variable {D' S' E' : Type}

structure Precedes (s : State N M D C S E) (t : State N M D' C S' E') : Prop where
  contexts : ∀ n, (s.entriesAt n).map Prod.fst <+: (t.entriesAt n).map Prod.fst
  calls : ∀ m, s.callsInto m <+: t.callsInto m

namespace Precedes

variable {t u : State N M D C S E}

theorem of_same (htable : t.table = s.table) (hcalls : t.calls = s.calls) : Precedes s t where
  contexts n := by rw [State.entriesAt_congr htable]
  calls m := by rw [State.callsInto_congr hcalls]

theorem trans {t : State N M D' C S' E'} (h : Precedes s u) (h' : Precedes u t) : Precedes s t where
  contexts n := (h.contexts n).trans (h'.contexts n)
  calls m := (h.calls m).trans (h'.calls m)

theorem tracks {t : State N M D' C S' E'} (h : Precedes s t) (hc : s.Tracks n c) : t.Tracks n c :=
  State.tracks_iff.mpr ((h.contexts n).mem (State.tracks_iff.mp hc))

theorem eq {t : State N M D' C S' E'} (h : Precedes s t) (h' : Precedes t s) :
    (∀ n, (s.entriesAt n).map Prod.fst = (t.entriesAt n).map Prod.fst) ∧
      ∀ m, s.callsInto m = t.callsInto m :=
  ⟨fun n => (h.contexts n).eq_of_length_le (h'.contexts n).length_le,
    fun m => (h.calls m).eq_of_length_le (h'.calls m).length_le⟩

end Precedes

theorem Outlined.precedes {b : Analysis N M D' C S' E'} {t : State N M D' C S' E'}
    {o o' : Outline N M C} (hs : a.Outlined s o) (ht : b.Outlined t o') (h : o.Prefix o') :
    Precedes s t where
  contexts n := by
    rw [hs.contexts, ht.contexts]
    exact h.contexts n
  calls m := by
    rw [hs.calls, ht.calls]
    exact h.calls m

variable [DecidableEq N]

theorem precedes_joinInto [Std.TransOrd N] [Std.LawfulEqOrd N] : Precedes s (a.joinInto n c d s) where
  contexts := contexts_joinInto
  calls m := by rw [joinInto_callsInto]

variable [Std.TransOrd M] [Std.LawfulEqOrd M] [DecidableEq M]

theorem precedes_recordCall (r : CallRecord N C) : Precedes s (a.recordCall r s).2 where
  contexts n := by rw [recordCall_entriesAt]
  calls m := by
    rcases recordCall_cases a r s with ⟨_, h⟩ | ⟨_, _, h⟩
    · rw [h]
    · rw [h]
      split
      · exact List.prefix_append ..
      · exact List.prefix_refl _

variable [Std.TransOrd N] [Std.LawfulEqOrd N]

theorem Move.precedes (h : a.Move n c d s t) : Precedes s t := by
  cases h with
  | quiet h => exact .of_same h.table h.calls
  | requeue => exact .of_same rfl rfl
  | remember => exact .of_same rfl rfl
  | pass => exact precedes_joinInto
  | bypass => exact precedes_joinInto
  | enter => exact (precedes_recordCall _).trans precedes_joinInto
  | leave => exact precedes_joinInto

theorem ReachesFrom.precedes [a.contexts.Lawful] {b : Analysis N M D' C S' E'} [b.contexts.Lawful]
    (hplan : a.plan enter = b.plan enter) (hp : a.problem.Ordered) (hp' : b.problem.Ordered)
    (ha : a.EntersBy enter) (hb : b.EntersBy enter) {x : S} {y : S'} {t : State N M D' C S' E'}
    (hs : a.ReachesFrom x s) (ht : b.ReachesFrom y t) (hdone : t.worklist = []) :
    Precedes s t := by
  obtain ⟨i, hi⟩ := hs.outlined hp ha
  obtain ⟨j, hj⟩ := ht.outlined hp' hb
  rw [hplan] at hi
  refine hi.precedes hj ?_
  have hprefix : ∀ (o : Outline N M C) (k : Nat), o.Prefix ((b.plan enter).next^[k] o) :=
    fun _ => Plan.prefix_iterate ContextKind.Lawful.same_refl
  rcases Nat.le_total i j with hij | hji
  · obtain ⟨k, rfl⟩ := Nat.exists_eq_add_of_le' hij
    rw [Function.iterate_add_apply]
    exact hprefix _ k
  · -- no first visit is left after the end
    have hfresh := (hdone ▸ hj.leads).eq_nil
    obtain ⟨k, rfl⟩ := Nat.exists_eq_add_of_le' hji
    rw [Function.iterate_add_apply, Plan.iterate_of_fresh_nil hfresh]
    exact .refl _

end Precedes

end Analysis

end Interproc
