import Interproc.Proofs.Solver.Move
import Mathlib.Data.List.Pairwise

namespace Interproc.Analysis

open Solver

variable {N M D C S E : Type} [Ord N] [Ord M]
variable (a : Analysis N M D C S E)

structure Grows (s t : State N M D C S E) : Prop where
  found : ∀ {n c e}, a.lookup s n c = some e →
    ∃ d, a.lookup t n c = some (e.1, d) ∧ a.problem.le e.2 d = true
  tracks : ∀ {n c}, s.Tracks n c → t.Tracks n c
  fresh : ∀ {n e}, e ∈ t.entriesAt n → e ∈ s.entriesAt n ∨ (n, e.1) ∈ t.worklist
  queued : ∀ {w}, w ∈ s.worklist → w ∈ t.worklist
  recorded : ∀ {m r}, r ∈ s.callsInto m → r ∈ t.callsInto m

structure Tabled (s : State N M D C S E) : Prop where
  distinct : ∀ n, (s.entriesAt n).Pairwise (fun e e' => a.contexts.same e.1 e'.1 = false)
  queued : ∀ {w}, w ∈ s.worklist → s.Tracks w.1 w.2
  recorded : ∀ {m r}, r ∈ s.callsInto m →
    a.graph.functionOf r.entry = m ∧ s.Tracks r.site r.caller ∧ s.Tracks r.entry r.callee

def Seeded (s : State N M D C S E) : Prop := ∀ x ∈ a.problem.seeds, s.Tracks x.1 a.initial

variable {a} {s t u : State N M D C S E}

theorem Seeded.mono (h : a.Seeded s) (hgrows : a.Grows s t) : a.Seeded t :=
  fun x hx => hgrows.tracks (h x hx)

theorem Seeded.differs (h : a.Seeded s) {n : N} {c : C} {d : D} (hnone : a.lookup s n c = none)
    (hd : (n, d) ∈ a.problem.seeds) : a.contexts.same a.initial c = false := by
  obtain ⟨e, he⟩ := h _ hd
  refine Bool.eq_false_iff.mpr (fun hsame => ?_)
  obtain ⟨e', he'⟩ := findIn_isSome_of_mem (a := a) he hsame
  exact absurd (he'.symm.trans hnone) (by simp)

namespace Grows

theorem of_alike (hp : a.problem.Ordered) (h : s.Alike t) : a.Grows s t where
  found {n c e} he := ⟨e.2, by rw [lookup_congr h.table]; exact he, hp.le_refl _⟩
  tracks := (State.tracks_congr h.table).mpr
  fresh he := Or.inl (by rw [← h.entriesAt]; exact he)
  queued hw := by rw [h.worklist]; exact hw
  recorded hr := by rw [h.callsInto]; exact hr

theorem refl (hp : a.problem.Ordered) (s : State N M D C S E) : a.Grows s s :=
  of_alike hp ⟨rfl, rfl, rfl, rfl⟩

theorem trans (hp : a.problem.Ordered) (h : a.Grows s t) (h' : a.Grows t u) : a.Grows s u where
  found {n c e} he := by
    obtain ⟨d, hd, hle⟩ := h.found he
    obtain ⟨d', hd', hle'⟩ := h'.found hd
    exact ⟨d', hd', hp.le_trans hle hle'⟩
  tracks hc := h'.tracks (h.tracks hc)
  fresh he := by
    rcases h'.fresh he with he | hw
    · exact (h.fresh he).imp_right h'.queued
    · exact Or.inr hw
  queued hw := h'.queued (h.queued hw)
  recorded hr := h'.recorded (h.recorded hr)

theorem queue (hp : a.problem.Ordered) (n : N) (c : C) : a.Grows s (s.queue n c) where
  found {_ _ e} he := ⟨e.2, he, hp.le_refl _⟩
  tracks hc := hc
  fresh he := Or.inl he
  queued hw := List.mem_append_left _ hw
  recorded hr := hr

theorem remember (hp : a.problem.Ordered) (x : S) : a.Grows s { s with client := x } where
  found {_ _ e} he := ⟨e.2, he, hp.le_refl _⟩
  tracks hc := hc
  fresh he := Or.inl he
  queued hw := hw
  recorded hr := hr

theorem includes (hp : a.problem.Ordered) (h : a.Grows s t) {n : N} {c : C} {d : D}
    (hs : a.includes s c n d = true) : a.includes t c n d = true := by
  obtain ⟨e, he, hle⟩ := includes_iff.mp hs
  obtain ⟨d', hd', hle'⟩ := h.found he
  exact includes_iff.mpr ⟨_, hd', hp.le_trans hle hle'⟩

end Grows

namespace Tabled

theorem of_alike (h : a.Tabled s) (halike : s.Alike t) : a.Tabled t := by
  have htracks : ∀ {m c}, s.Tracks m c → t.Tracks m c := fun ⟨d, hd⟩ =>
    ⟨d, by rw [halike.entriesAt]; exact hd⟩
  refine ⟨?_, ?_, ?_⟩
  · intro m
    rw [halike.entriesAt]
    exact h.distinct m
  · intro w hw
    rw [halike.worklist] at hw
    exact htracks (h.queued hw)
  · intro m r hr
    rw [halike.callsInto] at hr
    obtain ⟨hm, hcaller, hcallee⟩ := h.recorded hr
    exact ⟨hm, htracks hcaller, htracks hcallee⟩

theorem dequeue (h : a.Tabled s) {w : N × C} {rest : List (N × C)}
    (hw : s.worklist = w :: rest) : a.Tabled { s with worklist := rest } where
  distinct := h.distinct
  queued hmem := h.queued (hw ▸ List.mem_cons_of_mem _ hmem)
  recorded := h.recorded

theorem remember (h : a.Tabled s) (x : S) : a.Tabled { s with client := x } where
  distinct := h.distinct
  queued := h.queued
  recorded := h.recorded

theorem queue (h : a.Tabled s) {m : N} {c' : C} (hc : s.Tracks m c') :
    a.Tabled (s.queue m c') where
  distinct := h.distinct
  queued hw := by
    rcases List.mem_append.mp hw with hw | hw
    · exact h.queued hw
    · rw [List.mem_singleton.mp hw]
      exact hc
  recorded := h.recorded

variable [a.contexts.Lawful]

theorem eq_of_same (h : a.Tabled s) {n : N} {e e' : C × D} (he : e ∈ s.entriesAt n)
    (he' : e' ∈ s.entriesAt n) (hsame : a.contexts.same e.1 e'.1 = true) : e = e' := by
  refine Classical.byContradiction (fun hne => ?_)
  have : Std.Symm (fun e e' : C × D => a.contexts.same e.1 e'.1 = false) :=
    ⟨fun x y hxy => by rw [ContextKind.same_comm]; exact hxy⟩
  have hfalse := (h.distinct n).forall he he' hne
  rw [hsame] at hfalse
  exact Bool.noConfusion hfalse

theorem eq_of_tracks (h : a.Tabled s) {n : N} {c c' : C} (hc : s.Tracks n c) (hc' : s.Tracks n c')
    (hsame : a.contexts.same c c' = true) : c = c' := by
  obtain ⟨d, hd⟩ := hc
  obtain ⟨d', hd'⟩ := hc'
  exact congrArg Prod.fst (h.eq_of_same hd hd' hsame)

theorem lookup_of_mem (h : a.Tabled s) {n : N} {c : C} {d : D} (hd : (c, d) ∈ s.entriesAt n) :
    a.lookup s n c = some (c, d) := by
  obtain ⟨e, he⟩ := findIn_isSome_of_mem (a := a) hd (ContextKind.Lawful.same_refl c)
  have hmem := mem_of_findIn he
  rw [h.eq_of_same hmem.1 hd hmem.2] at he
  exact he

theorem contextsAt_eq (h : a.Tabled s) {n : N} {c c' : C} (hc : s.Tracks n c)
    (hall : ∀ c, s.Tracks n c → c = c') : a.contextsAt s n = [c'] := by
  have hone : (s.entriesAt n).map Prod.fst = [c'] := by
    have hmem : ∀ x ∈ (s.entriesAt n).map Prod.fst, x = c' :=
      fun x hx => hall x (State.tracks_iff.mpr hx)
    have hne : (s.entriesAt n).map Prod.fst ≠ [] := List.ne_nil_of_mem (State.tracks_iff.mp hc)
    have hdistinct : ((s.entriesAt n).map Prod.fst).Pairwise
        (fun c c' => a.contexts.same c c' = false) := List.pairwise_map.mpr (h.distinct n)
    match hes : (s.entriesAt n).map Prod.fst with
    | [] => exact absurd hes hne
    | [x] => rw [hmem x (by simp [hes])]
    | x :: y :: es =>
        rw [hes] at hmem hdistinct
        have hsame := List.rel_of_pairwise_cons hdistinct (List.mem_cons_self ..)
        rw [hmem x (by simp), hmem y (by simp), ContextKind.Lawful.same_refl] at hsame
        exact Bool.noConfusion hsame
  exact List.perm_singleton.mp (hone ▸ contextsAt_perm n)

theorem lookup_of_unambiguous (h : a.Tabled s) {n : N} {c c' : C} {d : D}
    (hd : (c, d) ∈ s.entriesAt n) (hsame : a.contexts.same c c' = true)
    (hc' : a.contexts.Unambiguous c') : a.lookup s n c' = some (c, d) := by
  obtain ⟨e, he⟩ := findIn_isSome_of_mem (a := a) hd hsame
  have hmem := mem_of_findIn he
  have heq : e = (c, d) := h.eq_of_same hmem.1 hd (hc' _ _ hmem.2 hsame)
  rw [← heq]
  exact he

end Tabled

def Attended (Q : N → C → D → State N M D C S E → Prop) (s : State N M D C S E) : Prop :=
  ∀ n c d, (c, d) ∈ s.entriesAt n → (n, c) ∈ s.worklist ∨ Q n c d s

theorem Attended.visit [a.contexts.Lawful] {Q : N → C → D → State N M D C S E → Prop}
    (h : Attended Q s) (hs : a.Tabled s) {s' : State N M D C S E} {n : N} {c : C} {d : D}
    {rest : List (N × C)} (hw : s.worklist = (n, c) :: rest) (hd : (c, d) ∈ s.entriesAt n)
    (hquiet : State.Quiet { s with worklist := rest } s') (hgrows : a.Grows s' t) (gain : Q n c d t)
    (stay : ∀ n' c' d', (c', d') ∈ s.entriesAt n' → Q n' c' d' s →
      (n', c') ∈ t.worklist ∨ Q n' c' d' t) : Attended Q t := by
  have hentries : ∀ m, s'.entriesAt m = s.entriesAt m := hquiet.entriesAt
  intro n' c' d' hd'
  rcases hgrows.fresh hd' with hold | hqueued
  · rw [hentries] at hold
    rcases h n' c' d' hold with hwait | hset
    · rw [hw, List.mem_cons] at hwait
      rcases hwait with heq | hmem
      · obtain ⟨rfl, rfl⟩ := Prod.mk.inj heq
        have heq := hs.eq_of_same hold hd (ContextKind.Lawful.same_refl _)
        rw [(Prod.mk.inj heq).2]
        exact Or.inr gain
      · exact Or.inl (hgrows.queued (hquiet.worklist ▸ hmem))
    · exact stay n' c' d' hold hset
  · exact Or.inl hqueued

section Join

variable [Std.TransOrd N] [Std.LawfulEqOrd N] [DecidableEq N] {n : N} {c : C} {d : D}

theorem grows_joinInto (hp : a.problem.Ordered) : a.Grows s (a.joinInto n c d s) := by
  refine ⟨?_, tracks_joinInto, ?_, ?_, ?_⟩
  · intro m c' e he
    rcases joinInto_cases a n c d s with ⟨_, _, _, h⟩ | ⟨e₀, h₀, _, h⟩ | ⟨h₀, h⟩
    · exact ⟨e.2, by rw [h]; exact he, hp.le_refl _⟩
    · by_cases hm : m = n
      · subst hm
        simp only [lookup, h.entries]
        rcases findIn_replace h₀ he with h | ⟨_, heq, h⟩
        · exact ⟨e.2, h, hp.le_refl _⟩
        · exact ⟨_, h, heq ▸ hp.le_join_left _ _⟩
      · exact ⟨e.2, by simpa only [lookup, h.others m hm] using he, hp.le_refl _⟩
    · by_cases hm : m = n
      · subst hm
        refine ⟨e.2, ?_, hp.le_refl _⟩
        simp only [lookup, findIn, h.entries, List.find?_append] at he ⊢
        simp [he]
      · exact ⟨e.2, by simpa only [lookup, h.others m hm] using he, hp.le_refl _⟩
  · intro m e he
    rcases mem_entriesAt_joinInto he with he | ⟨rfl, hw, _⟩
    · exact Or.inl he
    · exact Or.inr hw
  · intro w hw
    rcases joinInto_cases a n c d s with ⟨_, _, _, h⟩ | ⟨_, _, _, h⟩ | ⟨_, h⟩
    · rwa [h]
    · exact h.worklist ▸ List.mem_append_left _ hw
    · exact h.worklist ▸ List.mem_append_left _ hw
  · intro m r hr
    rwa [joinInto_callsInto]

theorem includes_joinInto [a.contexts.Lawful] (hp : a.problem.Ordered) :
    a.includes (a.joinInto n c d s) c n d = true := by
  rw [includes_iff]
  rcases joinInto_cases a n c d s with ⟨e, he, hle, h⟩ | ⟨e, he, _, h⟩ | ⟨he, h⟩
  · exact ⟨e, by rw [h]; exact he, hle⟩
  · exact ⟨_, by rw [lookup, h.entries]; exact findIn_replace_self he, hp.le_join_right _ _⟩
  · refine ⟨(c, d), ?_, hp.le_refl d⟩
    have hnone : List.find? (fun e => a.contexts.same e.1 c) (s.entriesAt n) = none := he
    simp [lookup, findIn, h.entries, List.find?_append, hnone, ContextKind.Lawful.same_refl]

theorem exists_tracks_joinInto [a.contexts.Lawful] (hp : a.problem.Ordered) :
    ∃ c', (a.joinInto n c d s).Tracks n c' := by
  obtain ⟨e, he, _⟩ := includes_iff.mp (includes_joinInto (s := s) (n := n) (c := c) (d := d) hp)
  exact ⟨e.1, e.2, (mem_of_findIn he).1⟩

theorem distinct_joinInto [a.contexts.Lawful] (m : N)
    (h : ∀ m, (s.entriesAt m).Pairwise (fun e e' => a.contexts.same e.1 e'.1 = false)) :
    ((a.joinInto n c d s).entriesAt m).Pairwise
      (fun e e' => a.contexts.same e.1 e'.1 = false) := by
  -- only the contexts of the entries matter
  have hmap : ∀ es : List (C × D), es.Pairwise (fun e e' => a.contexts.same e.1 e'.1 = false) ↔
      (es.map Prod.fst).Pairwise (fun c c' => a.contexts.same c c' = false) :=
    fun es => (List.pairwise_map (R := fun c c' => a.contexts.same c c' = false)).symm
  rcases joinInto_cases a n c d s with ⟨_, _, _, ht⟩ | ⟨_, _, _, ht⟩ | ⟨hnone, ht⟩
  · rw [ht]
    exact h m
  · by_cases hm : m = n
    · subst hm
      rw [ht.entries, hmap, map_fst_replace, ← hmap]
      exact h m
    · rw [ht.others m hm]
      exact h m
  · by_cases hm : m = n
    · subst hm
      rw [ht.entries, List.pairwise_append]
      refine ⟨h m, List.pairwise_singleton .., ?_⟩
      intro e he e' he'
      rw [List.mem_singleton.mp he']
      have hfind : List.find? (fun e => a.contexts.same e.1 c) (s.entriesAt m) = none := hnone
      simpa using List.find?_eq_none.mp hfind e he
    · rw [ht.others m hm]
      exact h m

theorem mem_worklist_joinInto {w : N × C} (hw : w ∈ (a.joinInto n c d s).worklist) :
    w ∈ s.worklist ∨ (a.joinInto n c d s).Tracks w.1 w.2 := by
  rcases joinInto_cases a n c d s with ⟨_, _, _, ht⟩ | ⟨e, he, _, ht⟩ | ⟨_, ht⟩
  · rw [ht] at hw
    exact Or.inl hw
  · rw [ht.worklist, List.mem_append, List.mem_singleton] at hw
    rcases hw with hw | rfl
    · exact Or.inl hw
    · exact Or.inr (tracks_joinInto (lookup_tracks a he))
  · rw [ht.worklist, List.mem_append, List.mem_singleton] at hw
    rcases hw with hw | rfl
    · exact Or.inl hw
    · exact Or.inr ⟨d, by simp [ht.entries]⟩

theorem Tabled.joinInto [a.contexts.Lawful] (h : a.Tabled s) : a.Tabled (a.joinInto n c d s) where
  distinct m := distinct_joinInto m h.distinct
  queued hw := (mem_worklist_joinInto hw).elim (fun hw => tracks_joinInto (h.queued hw)) id
  recorded hr := by
    rw [joinInto_callsInto] at hr
    obtain ⟨hm, hcaller, hcallee⟩ := h.recorded hr
    exact ⟨hm, tracks_joinInto hcaller, tracks_joinInto hcallee⟩

end Join

section Move

variable [DecidableEq N] [Std.TransOrd M] [Std.LawfulEqOrd M] [DecidableEq M]

theorem grows_recordCall (hp : a.problem.Ordered) (r : CallRecord N C) :
    a.Grows s (a.recordCall r s).2 where
  found {_ _ e} he := ⟨e.2, by rw [lookup_congr (recordCall_table r)]; exact he, hp.le_refl _⟩
  tracks := (State.tracks_congr (recordCall_table r)).mpr
  fresh he := Or.inl (by rw [← recordCall_entriesAt]; exact he)
  queued hw := by rw [recordCall_worklist]; exact hw
  recorded hr := mem_callsInto_recordCall.mpr (Or.inl hr)

variable [Std.TransOrd N] [Std.LawfulEqOrd N] {n : N} {c : C} {d : D}

theorem Tabled.enter [a.contexts.Lawful] (hp : a.problem.Ordered) (h : a.Tabled s) {entry : N}
    {c₀ c' : C} (hc : s.Tracks n c) (hadopt : a.Adopts s entry c₀ c') :
    a.Tabled (a.joinInto entry c' d (a.recordCall ⟨n, entry, c, c'⟩ s).2) := by
  have hgrows := (grows_recordCall (s := s) hp ⟨n, entry, c, c'⟩).trans hp
    (grows_joinInto (n := entry) (c := c') (d := d) hp)
  refine ⟨fun m => distinct_joinInto m ?_, ?_, ?_⟩
  · intro m
    rw [recordCall_entriesAt]
    exact h.distinct m
  · intro w hw
    rcases mem_worklist_joinInto hw with hw | hw
    · rw [recordCall_worklist] at hw
      exact hgrows.tracks (h.queued hw)
    · exact hw
  · intro m r hr
    rw [joinInto_callsInto] at hr
    rcases mem_callsInto_recordCall.mp hr with hr | ⟨rfl, rfl, _⟩
    · obtain ⟨hm, hcaller, hcallee⟩ := h.recorded hr
      exact ⟨hm, hgrows.tracks hcaller, hgrows.tracks hcallee⟩
    · exact ⟨rfl, hgrows.tracks hc, tracks_of_adopts (adopts_congr (recordCall_table _) hadopt)⟩

theorem Move.grows (hp : a.problem.Ordered) (h : a.Move n c d s t) : a.Grows s t := by
  cases h with
  | quiet h => exact .of_alike hp h.toAlike
  | requeue => exact .queue hp _ _
  | remember => exact .remember hp _
  | pass => exact grows_joinInto hp
  | bypass => exact grows_joinInto hp
  | enter => exact (grows_recordCall hp _).trans hp (grows_joinInto hp)
  | leave => exact grows_joinInto hp

theorem Moves.grows (hp : a.problem.Ordered) (h : a.Moves n c d s t) : a.Grows s t := by
  induction h with
  | refl => exact .refl hp s
  | tail _ hmove ih => exact ih.trans hp (hmove.grows hp)

theorem Move.tabled [a.contexts.Lawful] (hp : a.problem.Ordered) (h : a.Tabled s)
    (hc : s.Tracks n c) (hmove : a.Move n c d s t) : a.Tabled t := by
  cases hmove with
  | quiet hquiet => exact h.of_alike hquiet.toAlike
  | requeue htracks => exact h.queue htracks
  | remember => exact h.remember _
  | pass => exact h.joinInto
  | bypass => exact h.joinInto
  | enter _ _ _ hadopt => exact h.enter hp hc hadopt
  | leave => exact h.joinInto

theorem Moves.tabled [a.contexts.Lawful] (hp : a.problem.Ordered) (h : a.Tabled s)
    (hc : s.Tracks n c) (hmoves : a.Moves n c d s t) : a.Tabled t := by
  induction hmoves with
  | refl => exact h
  | tail hmoves hmove ih => exact hmove.tabled hp ih (Moves.grows hp hmoves |>.tracks hc)

end Move

end Interproc.Analysis
