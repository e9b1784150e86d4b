import Interproc.Proofs.Solver.Loss

namespace Interproc

open Solver

variable {N M D C S E : Type}

namespace Analysis

variable [Ord N] [Ord M] (a : Analysis N M D C S E)

def Misreturns (s : State N M D C S E) (r : CallRecord N C) : Prop :=
  a.contexts.same (a.contexts.leave r.callee) r.caller = false ∧
    ∃ n, a.graph.isExit n = true ∧ r ∈ s.callsInto (a.graph.functionOf n) ∧ s.Tracks n r.callee

structure Restores (s : State N M D C S E) : Prop where
  truncated : s.statistics.truncatedReturns = 0
  restored : ∀ n, a.graph.isExit n = true → ∀ r ∈ s.callsInto (a.graph.functionOf n), ∀ c,
    s.Tracks n c → a.contexts.same r.callee c = true →
    a.contexts.same (a.contexts.leave c) r.caller = true

def Counted (s : State N M D C S E) (n : N) (c : C) : Prop :=
  a.graph.isExit n = true → ∀ r ∈ s.callsInto (a.graph.functionOf n), r.callee = c →
    a.contexts.same (a.contexts.leave c) r.caller = false → s.statistics.truncatedReturns ≠ 0

variable {a} {s t : State N M D C S E} {n : N} {c : C} {d : D}

theorem Misreturns.mono {r : CallRecord N C} (h : a.Misreturns s r)
    (hcalls : ∀ m, r ∈ s.callsInto m → r ∈ t.callsInto m)
    (htracks : ∀ {n}, s.Tracks n r.callee → t.Tracks n r.callee) : a.Misreturns t r := by
  obtain ⟨hdiffers, n, hexit, hr, hn⟩ := h
  exact ⟨hdiffers, n, hexit, hcalls _ hr, htracks hn⟩

theorem Counted.congr (h : a.Counted s n c) (hcalls : t.calls = s.calls)
    (hcount : t.statistics.truncatedReturns = s.statistics.truncatedReturns) :
    a.Counted t n c := by
  intro hexit r hr hcallee hdiffers
  rw [State.callsInto_congr hcalls] at hr
  rw [hcount]
  exact h hexit r hr hcallee hdiffers

variable [Std.TransOrd N]

theorem returnTo_truncated (r : CallRecord N C) :
    (a.returnTo n c d s r).statistics.truncatedReturns =
      s.statistics.truncatedReturns +
        if a.contexts.same (a.contexts.leave c) r.caller then 0 else 1 := by
  have hjoins : ∀ (xs : List N) (e : D) (t : State N M D C S E),
      (xs.foldl (fun s x => a.joinInto x r.caller e s) t).statistics.truncatedReturns =
        t.statistics.truncatedReturns := fun xs e t =>
    List.foldlRecOn (motive := fun u : State N M D C S E =>
      u.statistics.truncatedReturns = t.statistics.truncatedReturns) _ _ rfl
      (fun u hu x _ => (joinInto_lossless x r.caller e u).truncated.trans hu)
  simp only [returnTo, hjoins]
  split <;> rfl

variable [DecidableEq N]

theorem visitExit_counts [Std.LawfulEqOrd N] [a.contexts.Lawful] :
    a.Counted (a.visitExit n c d s) n c := by
  intro _ r hr hcallee hdiffers
  rw [State.callsInto_congr visitExit_calls] at hr
  have hmem : r ∈ (s.callsInto (a.graph.functionOf n)).filter
      (fun r => a.contexts.same r.callee c) := by
    refine List.mem_filter.mpr ⟨hr, ?_⟩
    rw [hcallee]
    exact ContextKind.Lawful.same_refl c
  simp only [visitExit]
  refine foldl_gains (P := fun (r : CallRecord N C) (t : State N M D C S E) =>
    a.contexts.same (a.contexts.leave c) r.caller = false →
      t.statistics.truncatedReturns ≠ 0) _ _ ?_ ?_ _ r hmem hdiffers
  · intro t r _ hdiffers
    simp [returnTo_truncated, hdiffers]
  · intro t r r' _ ht hdiffers
    have hcount := ht hdiffers
    rw [returnTo_truncated]
    omega

variable [Std.TransOrd M]

theorem Deed.truncated_le (h : a.Deed n c s t) :
    s.statistics.truncatedReturns ≤ t.statistics.truncatedReturns := by
  rcases h.lossy_cases with hlossless | ⟨_, _, _, _, _, _, _, _, _, rfl⟩ | ⟨_, _, _, _, _, _, rfl⟩
  · exact Nat.le_of_eq hlossless.truncated.symm
  · exact Nat.le_refl _
  · exact Nat.le_succ _

theorem Deeds.truncated_le (h : a.Deeds n c s t) :
    s.statistics.truncatedReturns ≤ t.statistics.truncatedReturns := by
  induction h with
  | refl => exact Nat.le_refl _
  | tail _ hdeed ih => exact Nat.le_trans ih hdeed.truncated_le

variable [Std.LawfulEqOrd N]

section Course

theorem Course.entered [Std.LawfulEqOrd M] [DecidableEq M] [a.contexts.Lawful]
    (hmax : a.limits.maxContexts = none) (h : a.Course s) {m : M} {r : CallRecord N C}
    (hr : r ∈ s.callsInto m) :
    ∃ d, a.contexts.same r.callee (a.contexts.enter r.caller r.site r.entry d) = true := by
  induction h with
  | fresh => simp at hr
  | aside _ haside ih => exact ih (by rwa [← State.callsInto_congr haside.calls])
  | seed _ _ _ ih => exact ih (by rwa [joinInto_callsInto] at hr)
  | visit _ _ _ ih => exact ih hr
  | deed _ _ hdeed ih =>
      rcases hdeed.calls with hcalls | ⟨u, r', hu, hcalls, hentered⟩
      · exact ih (by rwa [← State.callsInto_congr hcalls])
      · rw [State.callsInto_congr hcalls] at hr
        rcases mem_callsInto_recordCall.mp hr with hr | ⟨rfl, _, _⟩
        · exact ih (by rwa [← State.callsInto_congr hu])
        · simpa [hmax] using hentered

variable [Std.LawfulEqOrd M] [DecidableEq M] [a.contexts.Lawful]
variable (hp : a.problem.Ordered) (hg : a.graph.Procedural)
variable (hseeds : a.problem.SeedsEntries a.graph)

include hp hg hseeds

theorem Course.eq_callee (h : a.Course s) (hc : s.Tracks n c) {r : CallRecord N C}
    (hr : r ∈ s.callsInto (a.graph.functionOf n)) (hsame : a.contexts.same r.callee c = true) :
    c = r.callee := by
  have hrooted : a.Rooted s := h.rooted hp hg hseeds
  obtain ⟨hfunction, _, hcallee⟩ := (h.tabled hp).recorded hr
  exact hrooted.eq_of_same hg (h.tabled hp) hfunction hc hcallee
    (ContextKind.Lawful.same_symm hsame)

theorem Course.misreturns (h : a.Course s) (hcount : s.statistics.truncatedReturns ≠ 0) :
    ∃ r, a.Misreturns s r := by
  induction h with
  | fresh => exact absurd rfl hcount
  | aside _ haside ih =>
      rw [haside.statistics] at hcount
      obtain ⟨r, hr⟩ := ih hcount
      exact ⟨r, hr.mono (fun m hr => by rwa [State.callsInto_congr haside.calls])
        (State.tracks_congr haside.table).mpr⟩
  | seed _ _ _ ih =>
      rw [(joinInto_lossless ..).truncated] at hcount
      obtain ⟨r, hr⟩ := ih hcount
      exact ⟨r, hr.mono (fun m hr => by rwa [joinInto_callsInto]) tracks_joinInto⟩
  | visit _ _ _ ih => exact ih hcount
  | @deed s t n c hs hc hdeed ih =>
      have hkept : s.statistics.truncatedReturns ≠ 0 → ∃ r, a.Misreturns t r := fun hcount =>
        (ih hcount).imp (fun r hr => hr.mono hdeed.recorded hdeed.tracks)
      rcases hdeed.lossy_cases with hlossless | ⟨_, _, _, _, _, _, _, _, _, rfl⟩ |
        ⟨r, _, hexit, hr, hsame, hdiffers, rfl⟩
      · exact hkept (hlossless.truncated ▸ hcount)
      · exact hkept hcount
      · obtain rfl := hs.eq_callee hp hg hseeds hc hr hsame
        exact ⟨r, hdiffers, n, hexit, hr, hc⟩

theorem Course.restores (h : a.Course s) (hnone : ∀ r, ¬ a.Misreturns s r) : a.Restores s where
  truncated := Classical.not_not.mp (fun hcount =>
    (h.misreturns hp hg hseeds hcount).elim hnone)
  restored n hexit r hr c hc hsame := by
    obtain rfl := h.eq_callee hp hg hseeds hc hr hsame
    refine Bool.not_eq_false _ |>.mp (fun hdiffers => ?_)
    exact hnone r ⟨hdiffers, n, hexit, hr, hc⟩

end Course

section Fixpoint

theorem Counted.visit [a.contexts.Lawful] (hg : a.graph.Procedural)
    (hend : (a.visit n c d s).2 = true) : a.Counted (a.visit n c d s).1 n c := by
  intro hexit
  have hnode := hasNode_of_visit hend
  have hcall := hg.isCall_of_isExit hexit
  have heq : (a.visit n c d s).1 = a.visitExit n c d (s.emit (.visited n c d)) := by
    simp [Analysis.visit, hnode, hcall, hexit]
  rw [heq]
  exact visitExit_counts hexit

variable [Std.LawfulEqOrd M] [DecidableEq M] [a.contexts.Lawful]
variable (hp : a.problem.Ordered) (hg : a.graph.Procedural)

include hp hg

theorem Counted.step (hs : a.Tabled s ∧ Attended (fun n c _ s => a.Counted s n c) s)
    {rest : List (N × C)} (hw : s.worklist = (n, c) :: rest)
    (hstep : a.step n c { s with worklist := rest } = (t, true)) :
    a.Tabled t ∧ Attended (fun n c _ s => a.Counted s n c) t := by
  obtain ⟨htabled, hattended⟩ := hs
  obtain ⟨d, hd⟩ : s.Tracks n c := htabled.queued (w := (n, c)) (by simp [hw])
  let s' := { s with worklist := rest }.count (fun t => { t with iterations := t.iterations + 1 })
  have hquiet : State.Quiet { s with worklist := rest } s' := ⟨⟨rfl, rfl, rfl, rfl⟩, rfl, rfl⟩
  have hs' : a.Tabled s' := (htabled.dequeue hw).of_alike hquiet.toAlike
  have hvisit : a.visit n c d s' = (t, true) := (step_eq_visit htabled hd rest).symm.trans hstep
  have hend : (a.visit n c d s').2 = true := by rw [hvisit]
  have hmoves := visit_moves (a := a) n c d s'
  have hcount := (visit_deeds (a := a) n c d s').truncated_le
  have hannounces := (visit_settles hp hg.toAgrees hs' ⟨d, hd⟩ hend).1
  have hcounted := Counted.visit (d := d) hg hend
  rw [hvisit] at hmoves hcount hannounces hcounted
  have ht : a.Tabled t := hmoves.tabled hp hs' ⟨d, hd⟩
  have hgrows := hmoves.grows hp
  refine ⟨ht, hattended.visit htabled hw hd hquiet hgrows hcounted ?_⟩
  intro n' c' d' hd' hold
  by_cases hwaits : (n', c') ∈ t.worklist
  · exact Or.inl hwaits
  · right
    intro hexit r hr hcallee hdiffers
    -- a new call has its exits waiting, so only calls remembered before are left
    rcases hannounces _ r hr with hr | hqueued
    · have hcount' := hold hexit r hr hcallee hdiffers
      exact Nat.ne_of_gt (Nat.lt_of_lt_of_le (Nat.pos_of_ne_zero hcount') hcount)
    · obtain ⟨e, he⟩ : t.Tracks n' c' := hgrows.tracks ⟨d', hd'⟩
      have hfound := ht.lookup_of_mem he
      rw [← hcallee] at hfound hwaits
      exact absurd (hqueued n' (hg.mem_exits hexit) _ hfound) hwaits

theorem Solved.counted (h : a.Solved s) (hs : s.finished = true) (hc : s.Tracks n c) :
    a.Counted s n c := by
  have hkept : a.Tabled s ∧ Attended (fun n c _ s => a.Counted s n c) s := by
    refine Solved.keeps (P := fun s => a.Tabled s ∧ Attended (fun n c _ s => a.Counted s n c) s)
      ?_ (fun hs hw hstep => Counted.step hp hg hs hw hstep) ?_ h hs
    · intro x
      obtain ⟨htabled, hqueued, _⟩ := seed_tabled hp x
      exact ⟨htabled, fun n c d hd => Or.inl (hqueued n (c, d) hd)⟩
    · rintro s t ⟨htabled, hattended⟩ halike haside
      refine ⟨htabled.of_alike halike, fun n c d hd => ?_⟩
      rw [halike.entriesAt] at hd
      rw [halike.worklist]
      exact (hattended n c d hd).imp_right
        (fun hold => hold.congr halike.calls (by rw [haside.statistics]))
  obtain ⟨d, hd⟩ := hc
  refine (hkept.2 n c d hd).resolve_left ?_
  simp [(h.reaches hs).2]

theorem Solved.truncatedReturns_ne_zero_iff (hseeds : a.problem.SeedsEntries a.graph)
    (h : a.Solved s) (hs : s.finished = true) :
    s.statistics.truncatedReturns ≠ 0 ↔ ∃ r, a.Misreturns s r := by
  constructor
  · exact ((h.consulted.course hp).1).misreturns hp hg hseeds
  · rintro ⟨r, hdiffers, n, hexit, hr, hc⟩
    exact h.counted hp hg hs hc hexit r hr rfl hdiffers

end Fixpoint

end Analysis

end Interproc
