import Interproc.Proofs.Solver.Growth

namespace Interproc.Analysis

open Solver

theorem foldl_establishes {α β : Type} {I : β → Prop} {P : α → β → Prop} (f : β → α → β)
    (xs : List α) (keep : ∀ b, ∀ x ∈ xs, I b → I (f b x)) (gain : ∀ b, ∀ x ∈ xs, I b → P x (f b x))
    (stay : ∀ b y, ∀ x ∈ xs, I b → P y b → P y (f b x)) {b : β} (hb : I b) :
    I (xs.foldl f b) ∧ (∀ y, P y b → P y (xs.foldl f b)) ∧ ∀ x ∈ xs, P x (xs.foldl f b) := by
  induction xs generalizing b with
  | nil => exact ⟨hb, fun _ h => h, by simp⟩
  | cons x xs ih =>
      have hx : x ∈ x :: xs := List.mem_cons_self ..
      have htail : ∀ {y}, y ∈ xs → y ∈ x :: xs := List.mem_cons_of_mem _
      obtain ⟨hinv, hstay, hall⟩ := ih (fun b y hy => keep b y (htail hy))
        (fun b y hy => gain b y (htail hy)) (fun b z y hy => stay b z y (htail hy)) (keep b x hx hb)
      refine ⟨hinv, fun y hy => hstay y (stay b y x hx hb hy), ?_⟩
      intro y hy
      rcases List.mem_cons.mp hy with rfl | hy
      · exact hstay _ (gain b _ hx hb)
      · exact hall y hy

theorem foldl_gains {α β : Type} {P : α → β → Prop} (f : β → α → β) (xs : List α)
    (gain : ∀ b, ∀ x ∈ xs, P x (f b x)) (stay : ∀ b y, ∀ x ∈ xs, P y b → P y (f b x)) (b : β) :
    ∀ x ∈ xs, P x (xs.foldl f b) :=
  (foldl_establishes (I := fun _ => True) f xs (fun _ _ _ _ => trivial)
    (fun b x hx _ => gain b x hx) (fun b y x hx _ => stay b y x hx) trivial).2.2

variable {N M D C S E : Type} [Ord N] [Ord M]
variable (a : Analysis N M D C S E)

def Entered (s : State N M D C S E) (n : N) (c : C) (entry : N) (d : D) : Prop :=
  ∃ r ∈ s.callsInto (a.graph.functionOf entry), r.site = n ∧ r.entry = entry ∧ r.caller = c ∧
    a.includes s r.callee entry d = true

/-- What flows out of the facts `d` of context `c` at `n` is included where it arrives. A remembered
call gets the facts of the exit that is found for its callee context. -/
structure Settled (s : State N M D C S E) (n : N) (c : C) (d : D) : Prop where
  pass : a.graph.isCall n = false → a.graph.isExit n = false →
    ∀ n' ∈ a.graph.succs n, a.includes s c n' (a.problem.normal n d) = true
  bypass : a.graph.isCall n = true →
    ∀ n' ∈ a.graph.returnSites n, a.includes s c n' (a.problem.bypass n n' d) = true
  enter : a.graph.isCall n = true → ∀ m ∈ a.graph.callees n, ∀ entry ∈ a.graph.starts m,
    a.Entered s n c entry (a.problem.call n m d)
  leave : a.graph.isCall n = false → a.graph.isExit n = true →
    n ∈ a.graph.exits (a.graph.functionOf n) → ∀ r ∈ s.callsInto (a.graph.functionOf n),
    a.lookup s n r.callee = some (c, d) → ∀ n' ∈ a.graph.returnSites r.site,
      a.includes s r.caller n' (a.problem.ret r.site (a.graph.functionOf n) n d) = true

def Announces (s t : State N M D C S E) : Prop :=
  ∀ m, ∀ r ∈ t.callsInto m, r ∈ s.callsInto m ∨
    ∀ x ∈ a.graph.exits m, ∀ e, a.lookup t x r.callee = some e → (x, e.1) ∈ t.worklist

variable {a} {s t u : State N M D C S E}

theorem Entered.mono (hp : a.problem.Ordered) (h : a.Grows s t) {n entry : N} {c : C} {d : D}
    (hs : a.Entered s n c entry d) : a.Entered t n c entry d := by
  obtain ⟨r, hr, hsite, hentry, hcaller, hle⟩ := hs
  exact ⟨r, h.recorded hr, hsite, hentry, hcaller, h.includes hp hle⟩

namespace Announces

theorem of_calls (h : t.calls = s.calls) : a.Announces s t := by
  intro m r hr
  left
  rwa [State.callsInto_congr h] at hr

theorem trans (h : a.Announces s t) (h' : a.Announces t u) (hgrows : a.Grows t u) :
    a.Announces s u := by
  intro m r hr
  rcases h' m r hr with hr | hqueued
  · rcases h m r hr with hr | hqueued
    · exact Or.inl hr
    · right
      intro x hx e he
      cases ht : a.lookup t x r.callee with
      | some e₀ =>
          obtain ⟨d, hd, _⟩ := hgrows.found ht
          rw [he] at hd
          rw [Option.some.inj hd]
          exact hgrows.queued (hqueued x hx e₀ ht)
      | none =>
          have hmem := mem_of_findIn he
          rcases hgrows.fresh hmem.1 with hold | hw
          · obtain ⟨e', he'⟩ := findIn_isSome_of_mem hold hmem.2
            exact absurd (he'.symm.trans ht) (by simp)
          · exact hw
  · exact Or.inr hqueued

end Announces

theorem Settled.congr {n : N} {c : C} {d : D} (h : a.Settled s n c d) (htable : t.table = s.table)
    (hcalls : t.calls = s.calls) : a.Settled t n c d := by
  have hincludes := includes_congr (a := a) htable
  have hrecords := State.callsInto_congr hcalls
  refine ⟨?_, ?_, ?_, ?_⟩
  · simpa only [hincludes] using h.pass
  · simpa only [hincludes] using h.bypass
  · simpa only [Entered, hincludes, hrecords] using h.enter
  · simpa only [hincludes, hrecords, lookup_congr htable] using h.leave

theorem Settled.mono [a.contexts.Lawful] (hp : a.problem.Ordered) (hs : a.Tabled s)
    (hgrows : a.Grows s t) (hann : a.Announces s t) {n : N} {c : C} {d : D}
    (hd : (c, d) ∈ s.entriesAt n) (h : a.Settled s n c d) :
    (n, c) ∈ t.worklist ∨ a.Settled t n c d := by
  by_cases hw : (n, c) ∈ t.worklist
  · exact Or.inl hw
  · refine Or.inr ⟨?_, ?_, ?_, ?_⟩
    · intro hcall hexit n' hn'
      exact hgrows.includes hp (h.pass hcall hexit n' hn')
    · intro hcall n' hn'
      exact hgrows.includes hp (h.bypass hcall n' hn')
    · intro hcall m hm entry hentry
      exact (h.enter hcall m hm entry hentry).mono hp hgrows
    · intro hcall hexit hn r hr hlookup n' hn'
      rcases hann _ r hr with hr | hqueued
      · -- the exit that is found in `t` was found before, with the same facts
        have hsame : a.contexts.same c r.callee = true := (mem_of_findIn hlookup).2
        obtain ⟨e, he⟩ := findIn_isSome_of_mem (a := a) hd hsame
        obtain ⟨d', hd', _⟩ := hgrows.found he
        have hc : e.1 = c := by
          rw [hlookup] at hd'
          exact (congrArg Prod.fst (Option.some.inj hd')).symm
        have heq : e = (c, d) :=
          hs.eq_of_same (mem_of_findIn he).1 hd (by rw [hc]; exact ContextKind.Lawful.same_refl c)
        exact hgrows.includes hp (h.leave hcall hexit hn r hr (heq ▸ he) n' hn')
      · exact absurd (hqueued n hn _ hlookup) hw

theorem requeueExits_table (m : M) (c' : C) (s : State N M D C S E) :
    (a.requeueExits m c' s).table = s.table ∧ (a.requeueExits m c' s).calls = s.calls := by
  refine List.foldlRecOn
    (motive := fun t : State N M D C S E => t.table = s.table ∧ t.calls = s.calls) _ _ ⟨rfl, rfl⟩ ?_
  intro t ht x _
  split
  · exact ht
  · exact ht

theorem requeueExits_queued {m : M} {c' : C} {x : N} {e : C × D} (hx : x ∈ a.graph.exits m)
    (he : a.lookup s x c' = some e) : (x, e.1) ∈ (a.requeueExits m c' s).worklist := by
  refine (foldl_establishes (I := fun t : State N M D C S E => t.table = s.table)
    (P := fun x t => ∀ e, a.lookup s x c' = some e → (x, e.1) ∈ t.worklist)
    _ (a.graph.exits m) ?_ ?_ ?_ rfl).2.2 x hx e he
  · intro t y _ ht
    split
    · exact ht
    · exact ht
  · intro t y _ ht e he
    rw [← lookup_congr ht] at he
    simp [he]
  · intro t y z _ ht hy e he
    split
    · exact List.mem_append_left _ (hy e he)
    · exact hy e he

variable [Std.TransOrd N] [Std.LawfulEqOrd N] [DecidableEq N] {n : N} {c : C} {d : D}

theorem joinAll_grows (hp : a.problem.Ordered) {xs : List N} :
    a.Grows s (xs.foldl (fun s x => a.joinInto x c d s) s) := by
  induction xs generalizing s with
  | nil => exact .refl hp s
  | cons x xs ih => exact (grows_joinInto hp).trans hp ih

theorem joinAll_includes [a.contexts.Lawful] (hp : a.problem.Ordered) {xs : List N} {x : N}
    (hx : x ∈ xs) : a.includes (xs.foldl (fun s x => a.joinInto x c d s) s) c x d = true :=
  foldl_gains (P := fun x s => a.includes s c x d = true) _ xs (fun _ _ _ => includes_joinInto hp)
    (fun _ _ _ _ h => (grows_joinInto hp).includes hp h) s x hx

section Visit

theorem visitExit_calls : (a.visitExit n c d s).calls = s.calls := by
  simp only [visitExit]
  refine List.foldlRecOn (motive := fun t => State.calls t = s.calls) _ _ ?_ ?_
  · split <;> rfl
  · intro t ht r _
    rw [returnTo_calls, ht]

theorem bypassTo_calls (n' : N) : (a.bypassTo n c d s n').calls = s.calls := by
  rw [bypassTo, joinInto_calls]
  exact (remember_quiet a n n' d s).calls

theorem returnTo_grows (hp : a.problem.Ordered) (r : CallRecord N C) :
    a.Grows s (a.returnTo n c d s r) := by
  simp only [returnTo]
  split
  · exact joinAll_grows hp
  · refine Grows.trans hp ?_ (joinAll_grows hp)
    exact .of_alike hp ⟨rfl, rfl, rfl, rfl⟩

variable [a.contexts.Lawful]

theorem visitPlain_settles (hp : a.problem.Ordered) {n' : N} (hn' : n' ∈ a.graph.succs n) :
    a.includes (a.visitPlain n c d s) c n' (a.problem.normal n d) = true :=
  joinAll_includes hp hn'

theorem visitExit_settles (hp : a.problem.Ordered) {r : CallRecord N C} {n' : N}
    (hr : r ∈ s.callsInto (a.graph.functionOf n)) (hsame : a.contexts.same r.callee c = true)
    (hn' : n' ∈ a.graph.returnSites r.site) :
    a.includes (a.visitExit n c d s) r.caller n'
      (a.problem.ret r.site (a.graph.functionOf n) n d) = true := by
  have hmem : r ∈ (s.callsInto (a.graph.functionOf n)).filter
      (fun r => a.contexts.same r.callee c) := List.mem_filter.mpr ⟨hr, hsame⟩
  simp only [visitExit]
  refine foldl_gains (P := fun r t => ∀ n' ∈ a.graph.returnSites r.site,
    a.includes t r.caller n' (a.problem.ret r.site (a.graph.functionOf n) n d) = true)
    _ _ ?_ ?_ _ r hmem n' hn'
  · intro t r _ n' hn'
    exact joinAll_includes hp hn'
  · intro t r r' _ h n' hn'
    exact (returnTo_grows hp r').includes hp (h n' hn')

theorem bypassTo_settles (hp : a.problem.Ordered) {n' : N} :
    a.includes (a.bypassTo n c d s n') c n' (a.problem.bypass n n' d) = true :=
  includes_joinInto hp

variable [Std.TransOrd M] [Std.LawfulEqOrd M] [DecidableEq M]

theorem bypassAll_includes (hp : a.problem.Ordered) (hcall : a.graph.isCall n = true) {xs : List N}
    (hxs : ∀ x ∈ xs, x ∈ a.graph.returnSites n) : ∀ n' ∈ xs,
      a.includes (xs.foldl (a.bypassTo n c d) s) c n' (a.problem.bypass n n' d) = true := by
  refine foldl_gains (P := fun n' u => a.includes u c n' (a.problem.bypass n n' d) = true)
    (a.bypassTo n c d) xs ?_ ?_ s
  · intro u x _
    exact bypassTo_settles hp
  · intro u y x hx hy
    exact (Moves.grows hp (bypassTo_moves (c := c) (d := d) hcall (hxs x hx))).includes hp hy

theorem enterAt_settles (hp : a.problem.Ordered) (hs : a.Tabled s) (hc : s.Tracks n c) {m : M}
    {entry : N} : a.Entered (a.enterAt n c m d s entry) n c entry d := by
  obtain ⟨s', c', hquiet, hadopt, _, t, ht, heq⟩ := enterAt_spec a n c m d s entry
  let v := (a.recordCall ⟨n, entry, c, c'⟩ s').2
  have hs' : a.Tabled s' := hs.of_alike hquiet.toAlike
  have hc' : s'.Tracks n c := (Grows.of_alike hp hquiet.toAlike).tracks hc
  have hu : a.Tabled (a.joinInto entry c' d v) := hs'.enter hp hc' hadopt
  have hvu : a.Grows v (a.joinInto entry c' d v) := grows_joinInto hp
  obtain ⟨r, hr, hsite, hentry, hcaller, hcallee⟩ :=
    exists_recordCall (a := a) (s := s') ⟨n, entry, c, c'⟩
  have hr' := hvu.recorded hr
  -- contexts that are equal and tracked at one node are the same
  obtain ⟨_, htcaller, htcallee⟩ := hu.recorded hr'
  have hcallerEq : r.caller = c := by
    rw [hsite] at htcaller
    exact hu.eq_of_tracks htcaller (hvu.tracks ((grows_recordCall hp _).tracks hc')) hcaller
  have hcalleeEq : r.callee = c' := by
    rw [hentry] at htcallee
    exact hu.eq_of_tracks htcallee
      (tracks_of_adopts (adopts_congr (recordCall_table _) hadopt)) hcallee
  have hentered : a.Entered (a.joinInto entry c' d v) n c entry d :=
    ⟨r, hr', hsite, hentry, hcallerEq, hcalleeEq ▸ includes_joinInto hp⟩
  have ht' : a.Entered t n c entry d := by
    rcases ht with rfl | ⟨_, rfl⟩
    · exact hentered
    · exact hentered.mono hp (.queue hp _ _)
  rw [heq]
  split
  · exact ht'.mono hp (Moves.grows (n := n) (c := c) (d := d) hp (requeueExits_moves m c'))
  · exact ht'

end Visit

section Call

variable [Std.TransOrd M] [Std.LawfulEqOrd M] [DecidableEq M]

theorem enterAt_announces (hg : a.graph.Agrees) {m : M} {entry : N}
    (hentry : entry ∈ a.graph.starts m) : a.Announces s (a.enterAt n c m d s entry) := by
  obtain ⟨s', c', hquiet, _, _, t, ht, heq⟩ := enterAt_spec a n c m d s entry
  have hcalls : t.calls = (a.recordCall ⟨n, entry, c, c'⟩ s').2.calls := by
    rcases ht with rfl | ⟨_, rfl⟩ <;> simp
  rw [heq]
  intro m' r hr
  have hr' : r ∈ (a.recordCall ⟨n, entry, c, c'⟩ s').2.callsInto m' := by
    split at hr
    · rwa [State.callsInto_congr (requeueExits_table m c' t).2, State.callsInto_congr hcalls] at hr
    · rwa [State.callsInto_congr hcalls] at hr
  rcases mem_callsInto_recordCall.mp hr' with hold | ⟨rfl, rfl, hnew⟩
  · exact Or.inl (by rw [← hquiet.callsInto]; exact hold)
  · right
    simp only [hnew, if_true]
    intro x hx e he
    rw [hg.functionOf_start hentry] at hx
    rw [lookup_congr (requeueExits_table m c' t).1] at he
    exact requeueExits_queued hx he

variable (a) in
structure Visiting (s : State N M D C S E) (n : N) (c : C) (t : State N M D C S E) : Prop where
  tabled : a.Tabled t
  tracks : t.Tracks n c
  announces : a.Announces s t

theorem Visiting.moves [a.contexts.Lawful] (hp : a.problem.Ordered) (h : a.Visiting s n c t)
    (hmoves : a.Moves n c d t u) (hann : a.Announces t u) : a.Visiting s n c u where
  tabled := hmoves.tabled hp h.tabled h.tracks
  tracks := (hmoves.grows hp).tracks h.tracks
  announces := h.announces.trans hann (hmoves.grows hp)

variable [a.contexts.Lawful]

theorem enterCallee_settles (hp : a.problem.Ordered) (hg : a.graph.Agrees)
    (hcall : a.graph.isCall n = true) {m : M} (hm : m ∈ a.graph.callees n)
    (h : a.Visiting s n c t) :
    a.Visiting s n c (a.enterCallee n c d t m) ∧ ∀ entry ∈ a.graph.starts m,
      a.Entered (a.enterCallee n c d t m) n c entry (a.problem.call n m d) := by
  have hmoves : ∀ u : State N M D C S E, ∀ entry ∈ a.graph.starts m,
      a.Moves n c d u (a.enterAt n c m (a.problem.call n m d) u entry) :=
    fun _ _ hentry => enterAt_moves hcall hm hentry
  have hall := foldl_establishes (I := a.Visiting s n c)
    (P := fun entry u => a.Entered u n c entry (a.problem.call n m d))
    (a.enterAt n c m (a.problem.call n m d)) (a.graph.starts m) ?_ ?_ ?_ h
  · exact ⟨hall.1, hall.2.2⟩
  · intro u entry hentry hu
    exact hu.moves hp (hmoves u entry hentry) (enterAt_announces hg hentry)
  · intro u entry _ hu
    exact enterAt_settles hp hu.tabled hu.tracks
  · intro u y entry hentry _ hy
    exact hy.mono hp ((hmoves u entry hentry).grows hp)

theorem enterCallees_settles (hp : a.problem.Ordered) (hg : a.graph.Agrees)
    (hcall : a.graph.isCall n = true) (h : a.Visiting s n c t) :
    a.Visiting s n c (a.enterCallees n c d t) ∧
      ∀ m ∈ (a.graph.callees n).takeWhile a.graph.hasFunction, ∀ entry ∈ a.graph.starts m,
        a.Entered (a.enterCallees n c d t) n c entry (a.problem.call n m d) := by
  have hsub : ∀ m ∈ (a.graph.callees n).takeWhile a.graph.hasFunction, m ∈ a.graph.callees n :=
    fun _ hm => (List.takeWhile_sublist _).mem hm
  have hall := foldl_establishes (I := a.Visiting s n c)
    (P := fun m u => ∀ entry ∈ a.graph.starts m, a.Entered u n c entry (a.problem.call n m d))
    (a.enterCallee n c d) ((a.graph.callees n).takeWhile a.graph.hasFunction) ?_ ?_ ?_ h
  · exact ⟨hall.1, hall.2.2⟩
  · intro u m hm hu
    exact (enterCallee_settles hp hg hcall (hsub m hm) hu).1
  · intro u m hm hu
    exact (enterCallee_settles hp hg hcall (hsub m hm) hu).2
  · intro u y m hm _ hy entry hentry
    exact (hy entry hentry).mono hp ((enterCallee_moves hcall (hsub m hm)).grows hp)

theorem bypassAll_settles (hp : a.problem.Ordered) (hcall : a.graph.isCall n = true) {xs : List N}
    (hxs : ∀ x ∈ xs, x ∈ a.graph.returnSites n) (h : a.Visiting s n c t) :
    a.Visiting s n c (xs.foldl (a.bypassTo n c d) t) ∧ a.Grows t (xs.foldl (a.bypassTo n c d) t) ∧
      ∀ n' ∈ xs,
        a.includes (xs.foldl (a.bypassTo n c d) t) c n' (a.problem.bypass n n' d) = true := by
  have hmoves : a.Moves n c d t (xs.foldl (a.bypassTo n c d) t) :=
    foldl_reflTransGen (fun _ x hx => bypassTo_moves hcall (hxs x hx)) t
  have hcalls : (xs.foldl (a.bypassTo n c d) t).calls = t.calls :=
    List.foldlRecOn (motive := fun u : State N M D C S E => u.calls = t.calls) _ _ rfl
      (fun _ hu x _ => (bypassTo_calls x).trans hu)
  exact ⟨h.moves hp hmoves (.of_calls hcalls), hmoves.grows hp, bypassAll_includes hp hcall hxs⟩

theorem visitCall_settles (hp : a.problem.Ordered) (hg : a.graph.Agrees)
    (hcall : a.graph.isCall n = true) (h : a.Visiting s n c t)
    (hend : (a.visitCall n c d t).2 = true) :
    a.Visiting s n c (a.visitCall n c d t).1 ∧ a.Settled (a.visitCall n c d t).1 n c d := by
  have henter := enterCallees_settles (d := d) hp hg hcall h
  obtain ⟨hexist, _, heq⟩ := visitCall_eq hend
  have hcallees : (a.graph.callees n).takeWhile a.graph.hasFunction = a.graph.callees n :=
    List.takeWhile_eq_self_iff.mpr (List.all_eq_true.mp hexist)
  obtain ⟨hvisiting, hgrows, hbypass⟩ :=
    bypassAll_settles (d := d) hp hcall (fun _ hx => hx) henter.1
  rw [heq]
  rw [hcallees] at henter
  refine ⟨hvisiting, ?_, fun _ => hbypass, ?_, ?_⟩
  · intro hplain
    exact absurd (hcall.symm.trans hplain) (by simp)
  · intro _ m hm entry hentry
    exact (henter.2 m hm entry hentry).mono hp hgrows
  · intro hplain
    exact absurd (hcall.symm.trans hplain) (by simp)

theorem visit_settles (hp : a.problem.Ordered) (hg : a.graph.Agrees) (hs : a.Tabled s)
    (hc : s.Tracks n c) (hend : (a.visit n c d s).2 = true) :
    a.Announces s (a.visit n c d s).1 ∧ a.Settled (a.visit n c d s).1 n c d := by
  let v := s.emit (.visited n c d)
  have hv : a.Visiting s n c v := ⟨hs.of_alike ⟨rfl, rfl, rfl, rfl⟩, hc, .of_calls rfl⟩
  have hnode := hasNode_of_visit hend
  simp only [visit, hnode, Bool.not_true, Bool.false_eq_true, if_false] at hend ⊢
  cases hcall : a.graph.isCall n with
  | true =>
      simp only [hcall, if_true] at hend ⊢
      have h := visitCall_settles hp hg hcall hv hend
      exact ⟨h.1.announces, h.2⟩
  | false =>
      cases hexit : a.graph.isExit n with
      | true =>
          simp only [Bool.false_eq_true, if_false, if_true]
          refine ⟨.of_calls visitExit_calls, ?_, ?_, ?_, ?_⟩
          · simp [hexit]
          · simp [hcall]
          · simp [hcall]
          · intro _ _ _ r hr hlookup n' hn'
            have hr' : r ∈ s.callsInto (a.graph.functionOf n) := by
              rwa [State.callsInto_congr visitExit_calls] at hr
            have hsame := ContextKind.Lawful.same_symm (mem_of_findIn hlookup).2
            exact visitExit_settles hp hr' hsame hn'
      | false =>
          simp only [Bool.false_eq_true, if_false]
          refine ⟨.of_calls joinAll_calls, ?_, ?_, ?_, ?_⟩
          · intro _ _ n' hn'
            exact visitPlain_settles hp hn'
          · simp [hcall]
          · simp [hcall]
          · simp [hexit]

end Call

end Interproc.Analysis
