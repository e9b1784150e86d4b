import Interproc.Proofs.Solver.Course
import Interproc.Proofs.Solver.Returns

namespace Interproc

open Solver

variable {N M D C S E : Type}

namespace Solver.Event

def growthAt [DecidableEq N] (same : C → C → Bool) (n : N) (c : C) : Event N D C E → Option D
  | .grew n' c' d => if n' = n ∧ same c' c = true then some d else none
  | _ => none

def adds (t : Statistics) : Event N D C E → Statistics
  | .visited .. => { t with iterations := t.iterations + 1 }
  | .created .. => { t with contextsCreated := t.contextsCreated + 1 }
  | .widened .. => { t with widenings := t.widenings + 1 }
  | .unsure .. => { t with unsureContexts := t.unsureContexts + 1 }
  | .truncated .. => { t with truncatedReturns := t.truncatedReturns + 1 }
  | _ => t

variable {es : List (Event N D C E)}

theorem foldr_adds_of_aside (hes : ∀ e ∈ es, e.aside = true) (t : Statistics) :
    es.foldr (fun e t => e.adds t) t = t := by
  induction es with
  | nil => rfl
  | cons e es ih =>
      rw [List.foldr_cons, ih (fun e' he' => hes e' (List.mem_cons_of_mem _ he'))]
      have he := hes e (List.mem_cons_self ..)
      cases e <;> first | rfl | simp [aside] at he

theorem foldr_adds (es : List (Event N D C E)) (k : Nat) :
    es.foldr (fun e t => e.adds t) { states := k } =
      { iterations := es.countP (· matches .visited ..)
        states := k
        contextsCreated := es.countP (· matches .created ..)
        widenings := es.countP (· matches .widened ..)
        unsureContexts := es.countP (· matches .unsure ..)
        truncatedReturns := es.countP (· matches .truncated ..) } := by
  induction es with
  | nil => rfl
  | cons e es ih =>
      rw [List.foldr_cons, ih]
      cases e <;> simp [adds]

end Solver.Event

namespace Analysis

theorem length_tracked_insert [Ord N] [Std.TransOrd N] [Std.LawfulEqOrd N] [Ord M]
    {s t : State N M D C S E} {n : N} {es : List (C × D)}
    (htable : t.table = s.table.insert n es) :
    (tracked t).length + (s.entriesAt n).length = (tracked s).length + es.length := by
  have hlength := length_flatMap_store
    (fun e : N × List (C × D) => e.2.map (fun x => (e.1, x.1, x.2))) n es s.table.ascending
  have hentries : ((seek n s.table.entries).map List.length).getD 0 = (s.entriesAt n).length := by
    rw [State.entriesAt, OrdMap.getD, OrdMap.get?]
    cases seek n s.table.entries <;> rfl
  simp only [List.length_map] at hlength
  rw [hentries] at hlength
  rw [tracked, tracked, htable]
  exact hlength

section Exceeds

variable (a : Analysis N M D C S E)

def Exceeds (e d : D) : Prop := a.problem.le d e = true ∧ a.problem.le e d = false

def Introduced (trail : List (Event N D C E)) : Prop :=
  ∀ entry c older, .created entry c :: older <:+ trail →
    (∃ d, .grew entry c d :: .created entry c :: older <:+ trail) ∧
    ∀ c' d, .grew entry c' d ∈ older → a.contexts.same c' c = false

variable {a} {d d₀ : D}

theorem Exceeds.join (hp : a.problem.Ordered) (h : a.problem.le d d₀ = false) :
    a.Exceeds (a.problem.join d₀ d) d₀ := by
  refine ⟨hp.le_join_left .., Bool.eq_false_iff.mpr (fun hle => ?_)⟩
  rw [hp.le_trans (hp.le_join_right d₀ d) hle] at h
  exact Bool.noConfusion h

theorem Exceeds.trans (hp : a.problem.Ordered) {e : D} (h : a.Exceeds e d) (h' : a.Exceeds d d₀) :
    a.Exceeds e d₀ := by
  refine ⟨hp.le_trans h'.1 h.1, Bool.eq_false_iff.mpr (fun hle => ?_)⟩
  have hback := hp.le_trans hle h'.1
  rw [h.2] at hback
  exact Bool.noConfusion hback

theorem Introduced.append {older : List (Event N D C E)} (h : a.Introduced older)
    (es : List (Event N D C E)) (hes : ∀ entry c, .created entry c ∉ es) :
    a.Introduced (es ++ older) := by
  intro entry c rest hcreated
  obtain ⟨⟨d, hgrew⟩, hnew⟩ := h entry c rest (suffix_of_suffix_append (hes entry c) hcreated)
  exact ⟨⟨d, hgrew.trans (List.suffix_append ..)⟩, hnew⟩

theorem Introduced.create {es older : List (Event N D C E)} (h : a.Introduced older) {entry : N}
    {c : C} (hes : ∀ e ∈ es, ∃ site c, e = .unsure site c)
    (hnew : ∀ c' d, .grew entry c' d ∈ older → a.contexts.same c' c = false) (d : D) :
    a.Introduced (.grew entry c d :: .created entry c :: (es ++ older)) := by
  have holder : a.Introduced (es ++ older) := h.append es (fun entry c hmem => by
    obtain ⟨_, _, heq⟩ := hes _ hmem
    exact nomatch heq)
  intro entry' c' rest hcreated
  rcases List.suffix_cons_iff.mp (suffix_of_suffix_cons (by simp) hcreated) with heq | hrest
  · obtain ⟨hevent, rfl⟩ := List.cons.inj heq
    obtain ⟨rfl, rfl⟩ := Event.created.inj hevent
    refine ⟨⟨d, List.suffix_refl _⟩, fun c'' e hgrew => ?_⟩
    rcases List.mem_append.mp hgrew with hgrew | hgrew
    · obtain ⟨_, _, heq⟩ := hes _ hgrew
      exact nomatch heq
    · exact hnew c'' e hgrew
  · obtain ⟨⟨e, hgrew⟩, hfirst⟩ := holder entry' c' rest hrest
    exact ⟨⟨e, (hgrew.trans (List.suffix_cons ..)).trans (List.suffix_cons ..)⟩, hfirst⟩

end Exceeds

section Tally

variable [DecidableEq N] [Ord N] [Ord M] (a : Analysis N M D C S E)

def growths (s : State N M D C S E) (n : N) (c : C) : List D :=
  s.trail.filterMap (Event.growthAt a.contexts.same n c)

structure Tallied (s : State N M D C S E) : Prop where
  latest : ∀ {n c d}, (c, d) ∈ s.entriesAt n → (a.growths s n c).head? = some d
  strict : ∀ {n c}, s.Tracks n c → (a.growths s n c).Pairwise a.Exceeds
  told : ∀ {n c d}, .grew n c d ∈ s.trail → s.Tracks n c
  counts : s.statistics = s.trail.foldr (fun e t => e.adds t) { states := (tracked s).length }

structure Told (s t : State N M D C S E) (n : N) (c : C) (d : D) : Prop where
  trail : t.trail = .grew n c d :: s.trail
  holds : (c, d) ∈ t.entriesAt n
  others : ∀ {n' c' d'}, (c', d') ∈ t.entriesAt n' →
    (n' = n ∧ a.contexts.same c c' = true) ∨ (c', d') ∈ s.entriesAt n'
  tracks : ∀ {n c}, s.Tracks n c → t.Tracks n c
  counts : t.statistics = { s.statistics with states := (tracked t).length }

variable {a} {s t : State N M D C S E} {n : N} {c : C} {d : D}

theorem growths_grew {n' : N} {c' : C} (htrail : t.trail = .grew n c d :: s.trail) :
    a.growths t n' c' =
      if n = n' ∧ a.contexts.same c c' = true then d :: a.growths s n' c'
      else a.growths s n' c' := by
  simp only [growths, htrail, List.filterMap_cons, Event.growthAt]
  by_cases h : n = n' ∧ a.contexts.same c c' = true
  · rw [if_pos h, if_pos h]
  · rw [if_neg h, if_neg h]

theorem Tallied.states (h : a.Tallied s) : s.statistics.states = (tracked s).length := by
  rw [h.counts, Event.foldr_adds]

theorem Tallied.tell (h : a.Tallied s) (htable : t.table = s.table) (es : List (Event N D C E))
    (hes : ∀ n c d, .grew n c d ∉ es) (htrail : t.trail = es ++ s.trail)
    (hcounts : t.statistics = es.foldr (fun e t => e.adds t) s.statistics) : a.Tallied t := by
  have hgrowths : ∀ n c, a.growths t n c = a.growths s n c := by
    intro n c
    rw [growths, htrail, List.filterMap_append, List.filterMap_eq_nil_iff.mpr, List.nil_append,
      growths]
    intro e he
    cases e with
    | grew n' c' d => exact absurd he (hes n' c' d)
    | _ => rfl
  constructor
  · intro n c d hd
    rw [State.entriesAt_congr htable] at hd
    rw [hgrowths]
    exact h.latest hd
  · intro n c hc
    rw [hgrowths]
    exact h.strict ((State.tracks_congr htable).mp hc)
  · intro n c d hd
    rw [htrail] at hd
    rcases List.mem_append.mp hd with hd | hd
    · exact absurd hd (hes n c d)
    · exact (State.tracks_congr htable).mpr (h.told hd)
  · rw [hcounts, h.counts, htrail, List.foldr_append, tracked, tracked, htable]

theorem Tallied.aside (h : a.Tallied s) (haside : s.Aside t) : a.Tallied t := by
  obtain ⟨es, hes, htrail⟩ := haside.trail
  refine h.tell haside.table es ?_ htrail ?_
  · exact fun n c d hmem => absurd (hes _ hmem) (by simp [Event.aside])
  · rw [Event.foldr_adds_of_aside hes, haside.statistics]

theorem Tallied.create (h : a.Tallied s) (site entry : N) (c : C) :
    a.Tallied (a.create site entry c s) := by
  unfold Analysis.create
  split
  · exact h.tell rfl [.created entry c, .unsure site c] (by simp) rfl rfl
  · exact h.tell rfl [.created entry c] (by simp) rfl rfl

theorem Tallied.recordCall [Std.TransOrd M] (h : a.Tallied s) (r : CallRecord N C) :
    a.Tallied (a.recordCall r s).2 :=
  h.tell (recordCall_table r) [] (by simp) (recordCall_trail r) (recordCall_statistics r)

theorem Tallied.not_same (h : a.Tallied s) (hnone : a.lookup s n c = none) {c' : C}
    (hgrew : .grew n c' d ∈ s.trail) : a.contexts.same c' c = false := by
  obtain ⟨d₀, hd₀⟩ := h.told hgrew
  refine Bool.eq_false_iff.mpr (fun hsame => ?_)
  obtain ⟨e, he⟩ := findIn_isSome_of_mem (a := a) hd₀ hsame
  exact absurd (he.symm.trans hnone) (by simp)

theorem Tallied.growths_eq_nil (h : a.Tallied s) (hnone : a.lookup s n c = none) :
    a.growths s n c = [] := by
  refine List.filterMap_eq_nil_iff.mpr (fun e he => ?_)
  cases e with
  | grew n' c' d' =>
      refine if_neg ?_
      rintro ⟨rfl, hsame⟩
      rw [h.not_same hnone he] at hsame
      exact Bool.noConfusion hsame
  | _ => rfl

theorem Tallied.grow [a.contexts.Lawful] (h : a.Tallied s) (ht : a.Tabled t)
    (hst : a.Told s t n c d) (hstrict : (a.growths s n c).Pairwise a.Exceeds)
    (habove : ∀ d' ∈ a.growths s n c, a.Exceeds d d') : a.Tallied t := by
  -- what is tracked is the entry that grew, or it was there and nothing more is told of it
  have hcases : ∀ {n' c' d'}, (c', d') ∈ t.entriesAt n' →
      (n' = n ∧ (c', d') = (c, d) ∧ a.growths t n' c' = d :: a.growths s n c) ∨
      ((c', d') ∈ s.entriesAt n' ∧ a.growths t n' c' = a.growths s n' c') := by
    intro n' c' d' hd'
    rw [growths_grew hst.trail]
    by_cases hsame : n = n' ∧ a.contexts.same c c' = true
    · obtain ⟨rfl, hsame'⟩ := hsame
      have hentry : (c, d) = (c', d') := ht.eq_of_same hst.holds hd' hsame'
      obtain ⟨rfl, rfl⟩ := Prod.mk.inj hentry
      exact Or.inl ⟨rfl, rfl, if_pos ⟨rfl, hsame'⟩⟩
    · rw [if_neg hsame]
      exact Or.inr ⟨(hst.others hd').resolve_left (fun h => hsame ⟨h.1.symm, h.2⟩), rfl⟩
  constructor
  · intro n' c' d' hd'
    rcases hcases hd' with ⟨_, hentry, hgrowths⟩ | ⟨hold, hgrowths⟩
    · rw [hgrowths, (Prod.mk.inj hentry).2, List.head?_cons]
    · rw [hgrowths]
      exact h.latest hold
  · rintro n' c' ⟨d', hd'⟩
    rcases hcases hd' with ⟨_, _, hgrowths⟩ | ⟨hold, hgrowths⟩
    · rw [hgrowths]
      exact List.pairwise_cons.mpr ⟨habove, hstrict⟩
    · rw [hgrowths]
      exact h.strict ⟨d', hold⟩
  · intro n' c' d' hd'
    rw [hst.trail] at hd'
    rcases List.mem_cons.mp hd' with hnew | hold
    · obtain ⟨rfl, rfl, _⟩ := Event.grew.inj hnew
      exact ⟨d, hst.holds⟩
    · exact hst.tracks (h.told hold)
  · rw [hst.counts, h.counts, hst.trail, List.foldr_cons, Event.foldr_adds, Event.foldr_adds]
    rfl

section Join

variable [Std.TransOrd N] [Std.LawfulEqOrd N]

variable [a.contexts.Lawful]

theorem Tallied.told_of_lookup (h : a.Tallied s) {e : C × D} (he : a.lookup s n c = some e)
    (hle : a.problem.le d e.2 = false) :
    a.Told s (a.joinInto n c d s) n e.1 (a.problem.join e.2 d) := by
  have hup := updates_of_lookup he hle
  have heq := Analysis.joinInto_of_lookup he hle
  constructor
  · rw [heq]
    rfl
  · rw [hup.entries]
    exact (mem_of_findIn (findIn_replace_self he)).1
  · intro n' c' d' hd'
    by_cases hn : n' = n
    · subst hn
      rw [hup.entries] at hd'
      rcases mem_replace hd' with hold | ⟨d₁, hfound, _⟩
      · exact Or.inr hold
      · obtain rfl := Option.some.inj (he.symm.trans hfound)
        exact Or.inl ⟨rfl, ContextKind.Lawful.same_refl _⟩
    · rw [hup.others n' hn] at hd'
      exact Or.inr hd'
  · exact tracks_joinInto
  · have hlength := length_tracked_insert (t := a.joinInto n c d s) (s := s) (n := n)
      (by rw [heq]; rfl)
    rw [length_replace] at hlength
    rw [Nat.add_right_cancel hlength, ← h.states, heq]
    rfl

theorem Tallied.told_of_lookup_none (h : a.Tallied s) (hnone : a.lookup s n c = none) :
    a.Told s (a.joinInto n c d s) n c d := by
  have hup := updates_of_lookup_none (d := d) hnone
  have heq := Analysis.joinInto_of_lookup_none (d := d) hnone
  constructor
  · rw [heq]
    rfl
  · simp [hup.entries]
  · intro n' c' d' hd'
    by_cases hn : n' = n
    · subst hn
      rw [hup.entries, List.mem_append, List.mem_singleton] at hd'
      rcases hd' with hold | hnew
      · exact Or.inr hold
      · rw [(Prod.mk.inj hnew).1]
        exact Or.inl ⟨rfl, ContextKind.Lawful.same_refl c⟩
    · rw [hup.others n' hn] at hd'
      exact Or.inr hd'
  · exact tracks_joinInto
  · -- the table has one entry more, and one state more is counted
    have hlength := length_tracked_insert (t := a.joinInto n c d s) (s := s) (n := n)
      (by rw [heq]; rfl)
    rw [List.length_append, List.length_singleton] at hlength
    have hstates : (tracked (a.joinInto n c d s)).length = s.statistics.states + 1 := by
      rw [h.states]
      omega
    rw [hstates, heq]
    rfl

theorem Tallied.joinInto (hp : a.problem.Ordered) (h : a.Tallied s)
    (ht : a.Tabled (a.joinInto n c d s)) : a.Tallied (a.joinInto n c d s) := by
  cases he : a.lookup s n c with
  | none =>
      have hnil := h.growths_eq_nil he
      exact h.grow ht (h.told_of_lookup_none he) (by simp [hnil]) (by simp [hnil])
  | some e =>
      cases hle : a.problem.le d e.2 with
      | true => rwa [show a.joinInto n c d s = s by simp [Analysis.joinInto, he, hle]]
      | false =>
          have hmem := (mem_of_findIn he).1
          have hstrict := h.strict ⟨e.2, hmem⟩
          refine h.grow ht (h.told_of_lookup he hle) hstrict (fun d' hd' => ?_)
          -- the new facts exceed the latest ones, which exceed all others
          obtain ⟨ds, hds⟩ := List.head?_eq_some_iff.mp (h.latest hmem)
          rw [hds] at hd' hstrict
          rcases List.mem_cons.mp hd' with rfl | hd'
          · exact Exceeds.join hp hle
          · exact (Exceeds.join hp hle).trans hp (List.rel_of_pairwise_cons hstrict hd')

end Join

end Tally

section Run

variable [Ord N] [Ord M] {a : Analysis N M D C S E} {s t : State N M D C S E}
variable {n : N} {c : C} {d : D}

theorem create_trail (site entry : N) (c : C) (s : State N M D C S E) :
    ∃ es, (∀ e ∈ es, ∃ site c, e = .unsure site c) ∧
      (a.create site entry c s).trail = .created entry c :: (es ++ s.trail) := by
  unfold Analysis.create
  split
  · exact ⟨[.unsure site c], by simp, rfl⟩
  · exact ⟨[], by simp, rfl⟩

theorem Introduced.aside (h : a.Introduced s.trail) (haside : s.Aside t) :
    a.Introduced t.trail := by
  obtain ⟨es, hes, htrail⟩ := haside.trail
  rw [htrail]
  exact h.append es (fun entry c hmem => absurd (hes _ hmem) (by simp [Event.aside]))

variable [Std.TransOrd N]

theorem Introduced.joinInto (h : a.Introduced s.trail) :
    a.Introduced (a.joinInto n c d s).trail := by
  rcases joinInto_told a n c d s with heq | ⟨_, _, _, htrail, _⟩ | ⟨_, htrail, _⟩
  · rwa [heq]
  · rw [htrail]
    exact h.append [_] (by simp)
  · rw [htrail]
    exact h.append [_] (by simp)

variable [DecidableEq N] [Std.TransOrd M]

theorem Deed.introduced (h : a.Introduced s.trail) (hs : a.Tallied s) (hdeed : a.Deed n c s t) :
    a.Introduced t.trail := by
  cases hdeed with
  | aside haside => exact h.aside haside
  | requeue => exact h
  | pass => exact h.joinInto
  | bypass => exact h.joinInto
  | widen => exact h.append [_] (by simp)
  | rejoin =>
      refine Introduced.joinInto ?_
      rwa [recordCall_trail]
  | @begin m entry c' d _ _ _ _ hnone _ =>
      obtain ⟨es, hes, htrail⟩ := create_trail (a := a) n entry c' s
      have hnone' : a.lookup (a.recordCall ⟨n, entry, c, c'⟩ (a.create n entry c' s)).2 entry c' =
          none := by
        rwa [lookup_congr ((recordCall_table _).trans (create_quiet a n entry c' s).table)]
      rw [joinInto_of_lookup_none hnone']
      show a.Introduced (.grew entry c' d :: (a.recordCall _ (a.create n entry c' s)).2.trail)
      rw [recordCall_trail, htrail]
      exact h.create hes (fun _ _ hgrew => hs.not_same hnone hgrew) d
  | truncate => exact h.append [_] (by simp)
  | leave => exact h.joinInto

variable [Std.LawfulEqOrd N] [a.contexts.Lawful]

theorem Deed.tallied (hp : a.problem.Ordered) (h : a.Tallied s) (ht : a.Tabled t)
    (hdeed : a.Deed n c s t) : a.Tallied t := by
  cases hdeed with
  | aside haside => exact h.aside haside
  | requeue => exact h.tell rfl [] (by simp) rfl rfl
  | pass => exact h.joinInto hp ht
  | bypass => exact h.joinInto hp ht
  | widen => exact h.tell rfl [_] (by simp) rfl rfl
  | rejoin => exact (h.recordCall _).joinInto hp ht
  | @begin m entry c' d => exact ((h.create n entry c').recordCall _).joinInto hp ht
  | truncate => exact h.tell rfl [_] (by simp) rfl rfl
  | leave => exact h.joinInto hp ht

variable [Std.LawfulEqOrd M] [DecidableEq M]

theorem Course.tallied (hp : a.problem.Ordered) (h : a.Course s) : a.Tallied s := by
  induction h with
  | fresh x =>
      refine ⟨by simp, ?_, by simp [State.initial], rfl⟩
      rintro n c ⟨d, hd⟩
      simp at hd
  | aside _ haside ih => exact ih.aside haside
  | seed hs _ _ ih => exact ih.joinInto hp (hs.tabled hp).joinInto
  | visit _ _ _ ih => exact ih.tell rfl [_] (by simp) rfl rfl
  | deed hs hc hdeed ih => exact hdeed.tallied hp ih (hdeed.tabled hp (hs.tabled hp) hc)

theorem Course.introduced (hp : a.problem.Ordered) (h : a.Course s) : a.Introduced s.trail := by
  induction h with
  | fresh =>
      intro entry c older hcreated
      exact absurd (List.eq_nil_of_suffix_nil hcreated) (List.cons_ne_nil _ _)
  | aside _ haside ih => exact ih.aside haside
  | seed _ _ _ ih => exact ih.joinInto
  | visit _ _ _ ih => exact ih.append [_] (by simp)
  | deed hs _ hdeed ih => exact hdeed.introduced ih (hs.tallied hp)

variable (a) in
/-- Events, counts and table agree. Of each entry the facts were told that it holds, after others
that they exceed, and nothing was told of a context that is only equal to that of an entry. -/
structure Accounted (s : State N M D C S E) : Prop where
  latest : ∀ n c d, (c, d) ∈ s.entriesAt n → (a.growths s n c).head? = some d
  strict : ∀ n c, s.Tracks n c → (a.growths s n c).Pairwise a.Exceeds
  told : ∀ n c d, .grew n c d ∈ s.trail →
    s.Tracks n c ∧ ∀ c', s.Tracks n c' → a.contexts.same c c' = true → c = c'
  iterations : s.statistics.iterations = s.trail.countP (· matches .visited ..)
  states : s.statistics.states = (tracked s).length
  contextsCreated : s.statistics.contextsCreated = s.trail.countP (· matches .created ..)
  widenings : s.statistics.widenings = s.trail.countP (· matches .widened ..)
  unsureContexts : s.statistics.unsureContexts = s.trail.countP (· matches .unsure ..)
  truncatedReturns : s.statistics.truncatedReturns = s.trail.countP (· matches .truncated ..)
  introduced : a.Introduced s.trail

theorem Course.accounted (hp : a.problem.Ordered) (h : a.Course s) : a.Accounted s where
  latest _ _ _ hd := (h.tallied hp).latest hd
  strict _ _ hc := (h.tallied hp).strict hc
  told _ _ _ hgrew :=
    have hc := (h.tallied hp).told hgrew
    ⟨hc, fun _ hc' hsame => (h.tabled hp).eq_of_tracks hc hc' hsame⟩
  iterations := by rw [(h.tallied hp).counts, Event.foldr_adds]
  states := (h.tallied hp).states
  contextsCreated := by rw [(h.tallied hp).counts, Event.foldr_adds]
  widenings := by rw [(h.tallied hp).counts, Event.foldr_adds]
  unsureContexts := by rw [(h.tallied hp).counts, Event.foldr_adds]
  truncatedReturns := by rw [(h.tallied hp).counts, Event.foldr_adds]
  introduced := h.introduced hp

theorem events_accounted (hp : a.problem.Ordered) : a.Always a.Accounted :=
  .of_course hp (fun _ h => h.accounted hp)

end Run

end Analysis

namespace Graph

theorem lateCall_accounted : lateCallAnalysis.problem.Ordered ∧
    (lateCallAnalysis.growths lateCallState 3 lateCallAnalysis.initial).map OrdSet.elements =
      [[101], []] ∧
    lateCallState.statistics = ⟨18, 12, 3, 0, 3, 0⟩ ∧ lateCallAnalysis.Accounted lateCallState :=
  have hp : lateCallAnalysis.problem.Ordered := setProblem_ordered ..
  ⟨hp, by decide +kernel, by decide +kernel,
    (Analysis.events_accounted hp).solve _ (.initial ()) 30⟩

end Graph

end Interproc
