import Interproc.Proofs.Solver.Lawful
import Interproc.Solver.Results

namespace Interproc

open Solver

variable {N M D C S E : Type}

theorem suffix_of_suffix_cons {α : Type} {x y : α} {l l' : List α} (hne : x ≠ y)
    (h : x :: l <:+ y :: l') : x :: l <:+ l' := by
  rcases List.suffix_cons_iff.mp h with heq | h
  · exact absurd (List.cons.inj heq).1 hne
  · exact h

theorem suffix_of_suffix_append {α : Type} {x : α} {l es l' : List α} (hx : x ∉ es)
    (h : x :: l <:+ es ++ l') : x :: l <:+ l' := by
  induction es with
  | nil => exact h
  | cons e es ih =>
      rw [List.mem_cons, not_or] at hx
      exact ih hx.2 (suffix_of_suffix_cons hx.1 h)

def Solver.Event.aside : Event N D C E → Bool
  | .visited .. | .grew .. | .created .. | .widened .. | .unsure .. | .truncated .. => false
  | _ => true

namespace Solver.State

variable [Ord N] [Ord M] {s : State N M D C S E}

def Tracks (s : State N M D C S E) (n : N) (c : C) : Prop := ∃ d, (c, d) ∈ s.entriesAt n

theorem tracks_iff {n : N} {c : C} : s.Tracks n c ↔ c ∈ (s.entriesAt n).map Prod.fst := by
  simp [Tracks]

@[simp] theorem emit_table {e : Event N D C E} : (s.emit e).table = s.table := rfl
@[simp] theorem emit_worklist {e : Event N D C E} : (s.emit e).worklist = s.worklist := rfl
@[simp] theorem emit_calls {e : Event N D C E} : (s.emit e).calls = s.calls := rfl
@[simp] theorem emit_client {e : Event N D C E} : (s.emit e).client = s.client := rfl

@[simp] theorem emit_entriesAt {e : Event N D C E} {n : N} :
    (s.emit e).entriesAt n = s.entriesAt n := rfl
@[simp] theorem emit_callsInto {e : Event N D C E} {m : M} :
    (s.emit e).callsInto m = s.callsInto m := rfl

@[simp] theorem seeded_entriesAt {b : Bool} {n : N} :
    State.entriesAt { s with seeded := b } n = s.entriesAt n := rfl
@[simp] theorem seeded_callsInto {b : Bool} {m : M} :
    State.callsInto { s with seeded := b } m = s.callsInto m := rfl

@[simp] theorem initial_entriesAt {x : S} {n : N} :
    (initial x : State N M D C S E).entriesAt n = [] := by
  simp [initial, entriesAt, OrdMap.getD]

@[simp] theorem initial_callsInto {x : S} {m : M} :
    (initial x : State N M D C S E).callsInto m = [] := by
  simp [initial, callsInto, OrdMap.getD]

@[simp] theorem count_table {f : Statistics → Statistics} : (s.count f).table = s.table := rfl
@[simp] theorem count_worklist {f : Statistics → Statistics} :
    (s.count f).worklist = s.worklist := rfl
@[simp] theorem count_calls {f : Statistics → Statistics} : (s.count f).calls = s.calls := rfl
@[simp] theorem count_client {f : Statistics → Statistics} : (s.count f).client = s.client := rfl

@[simp] theorem queue_table {n : N} {c : C} : (s.queue n c).table = s.table := rfl
@[simp] theorem queue_worklist {n : N} {c : C} :
    (s.queue n c).worklist = s.worklist ++ [(n, c)] := rfl
@[simp] theorem queue_calls {n : N} {c : C} : (s.queue n c).calls = s.calls := rfl
@[simp] theorem queue_client {n : N} {c : C} : (s.queue n c).client = s.client := rfl

structure Alike (s t : State N M D C S E) : Prop where
  table : t.table = s.table
  worklist : t.worklist = s.worklist
  calls : t.calls = s.calls
  client : t.client = s.client

structure Quiet (s t : State N M D C S E) : Prop extends s.Alike t where
  seeded : t.seeded = s.seeded
  finished : t.finished = s.finished

structure Aside (s t : State N M D C S E) : Prop where
  table : t.table = s.table
  worklist : t.worklist = s.worklist
  calls : t.calls = s.calls
  statistics : t.statistics = s.statistics
  trail : ∃ es, (∀ e ∈ es, e.aside = true) ∧ t.trail = es ++ s.trail

variable {t u : State N M D C S E}

theorem entriesAt_congr (h : t.table = s.table) (n : N) : t.entriesAt n = s.entriesAt n := by
  rw [State.entriesAt, h, State.entriesAt]

theorem tracks_congr (h : t.table = s.table) {n : N} {c : C} : t.Tracks n c ↔ s.Tracks n c := by
  rw [Tracks, entriesAt_congr h, Tracks]

theorem callsInto_congr (h : t.calls = s.calls) (m : M) : t.callsInto m = s.callsInto m := by
  rw [State.callsInto, h, State.callsInto]

theorem exists_of_mem_callsInto [Std.TransOrd M] [Std.LawfulEqOrd M] {m : M}
    {r : CallRecord N C} (hr : r ∈ s.callsInto m) : ∃ rs, (m, rs) ∈ s.calls.entries ∧ r ∈ rs := by
  rw [callsInto, OrdMap.getD] at hr
  cases h : s.calls.get? m with
  | none => simp [h] at hr
  | some rs => exact ⟨rs, OrdMap.get?_eq_some_iff.mp h, by simpa [h] using hr⟩

theorem Alike.entriesAt (h : s.Alike t) (n : N) : t.entriesAt n = s.entriesAt n :=
  entriesAt_congr h.table n

theorem Alike.callsInto (h : s.Alike t) (m : M) : t.callsInto m = s.callsInto m :=
  callsInto_congr h.calls m

theorem Quiet.refl (s : State N M D C S E) : s.Quiet s := ⟨⟨rfl, rfl, rfl, rfl⟩, rfl, rfl⟩

theorem Quiet.trans (h : s.Quiet t) (h' : t.Quiet u) : s.Quiet u where
  table := h'.table.trans h.table
  worklist := h'.worklist.trans h.worklist
  calls := h'.calls.trans h.calls
  client := h'.client.trans h.client
  seeded := h'.seeded.trans h.seeded
  finished := h'.finished.trans h.finished

theorem emitAll_quiet (es : List (Event N D C E)) : s.Quiet (s.emitAll es) := by
  induction es generalizing s with
  | nil => exact .refl s
  | cons e es ih =>
      have h : s.Quiet (s.emit e) := ⟨⟨rfl, rfl, rfl, rfl⟩, rfl, rfl⟩
      exact h.trans ih

theorem Aside.trans (h : s.Aside t) (h' : t.Aside u) : s.Aside u where
  table := h'.table.trans h.table
  worklist := h'.worklist.trans h.worklist
  calls := h'.calls.trans h.calls
  statistics := h'.statistics.trans h.statistics
  trail := by
    obtain ⟨es, hes, ht⟩ := h.trail
    obtain ⟨es', hes', hu⟩ := h'.trail
    refine ⟨es' ++ es, fun e he => (List.mem_append.mp he).elim (hes' e) (hes e), ?_⟩
    rw [hu, ht, List.append_assoc]

theorem emit_aside {e : Event N D C E} (he : e.aside = true) : s.Aside (s.emit e) :=
  ⟨rfl, rfl, rfl, rfl, [e], by simpa using he, rfl⟩

theorem emitAll_aside {es : List (Event N D C E)} (hes : ∀ e ∈ es, e.aside = true) :
    s.Aside (s.emitAll es) := by
  induction es generalizing s with
  | nil => exact ⟨rfl, rfl, rfl, rfl, [], by simp, rfl⟩
  | cons e es ih =>
      have he := emit_aside (s := s) (hes e (List.mem_cons_self ..))
      exact he.trans (ih (fun e' he' => hes e' (List.mem_cons_of_mem _ he')))

end Solver.State

namespace Analysis

variable {a : Analysis N M D C S E} {n : N} {c c' : C} {d : D}

theorem mem_of_findIn {es : List (C × D)} {e : C × D} (h : a.findIn es c = some e) :
    e ∈ es ∧ a.contexts.same e.1 c = true := by
  unfold findIn at h
  exact ⟨List.mem_of_find?_eq_some h, by simpa using List.find?_some h⟩

theorem findIn_isSome_of_mem {es : List (C × D)} {e : C × D} (he : e ∈ es)
    (h : a.contexts.same e.1 c = true) : ∃ e', a.findIn es c = some e' :=
  Option.isSome_iff_exists.mp (List.find?_isSome.mpr ⟨e, he, h⟩)

theorem mem_replace {es : List (C × D)} {e : C × D} (he : e ∈ a.replace c d es) :
    e ∈ es ∨ ∃ d', a.findIn es c = some (e.1, d') ∧ e.2 = d := by
  induction es with
  | nil => simp [replace] at he
  | cons x xs ih =>
      by_cases hx : a.contexts.same x.1 c = true
      · simp only [replace, hx, if_true, List.mem_cons] at he
        rcases he with rfl | he
        · exact Or.inr ⟨x.2, by simp [findIn, hx]⟩
        · exact Or.inl (List.mem_cons_of_mem _ he)
      · simp only [replace, hx, Bool.false_eq_true, if_false, List.mem_cons] at he
        rcases he with rfl | he
        · exact Or.inl (List.mem_cons_self ..)
        · rcases ih he with h | ⟨d', h, hd⟩
          · exact Or.inl (List.mem_cons_of_mem _ h)
          · exact Or.inr ⟨d', by simpa [findIn, hx] using h, hd⟩

theorem map_fst_replace (es : List (C × D)) :
    (a.replace c d es).map Prod.fst = es.map Prod.fst := by
  induction es with
  | nil => rfl
  | cons x xs ih =>
      by_cases hx : a.contexts.same x.1 c = true <;> simp [replace, hx, ih]

theorem length_replace (es : List (C × D)) : (a.replace c d es).length = es.length := by
  rw [← List.length_map Prod.fst, map_fst_replace, List.length_map]

theorem findIn_replace {es : List (C × D)} {e e₀ : C × D} (h₀ : a.findIn es c = some e₀)
    (h : a.findIn es c' = some e) :
    a.findIn (a.replace c d es) c' = some e ∨
      e.1 = e₀.1 ∧ e.2 = e₀.2 ∧ a.findIn (a.replace c d es) c' = some (e.1, d) := by
  induction es with
  | nil => simp [findIn] at h
  | cons x xs ih =>
      by_cases hx : a.contexts.same x.1 c = true
      · have hx₀ : x = e₀ := by simpa [findIn, hx] using h₀
        by_cases hx' : a.contexts.same x.1 c' = true
        · have he : x = e := by simpa [findIn, hx'] using h
          subst hx₀ he
          exact Or.inr ⟨rfl, rfl, by simp [replace, findIn, hx, hx']⟩
        · exact Or.inl (by simpa [replace, findIn, hx, hx'] using h)
      · by_cases hx' : a.contexts.same x.1 c' = true
        · exact Or.inl (by simpa [replace, findIn, hx, hx'] using h)
        · have h₀ : a.findIn xs c = some e₀ := by simpa [findIn, hx] using h₀
          have h : a.findIn xs c' = some e := by simpa [findIn, hx'] using h
          simpa [replace, findIn, hx, hx'] using ih h₀ h

theorem findIn_replace_self {es : List (C × D)} {e₀ : C × D} (h₀ : a.findIn es c = some e₀) :
    a.findIn (a.replace c d es) c = some (e₀.1, d) := by
  induction es with
  | nil => simp [findIn] at h₀
  | cons x xs ih =>
      by_cases hx : a.contexts.same x.1 c = true
      · have hx₀ : x = e₀ := by simpa [findIn, hx] using h₀
        subst hx₀
        simp [replace, findIn, hx]
      · have h₀ : a.findIn xs c = some e₀ := by simpa [findIn, hx] using h₀
        simpa [replace, findIn, hx] using ih h₀

theorem arrange_perm (e : C × D) (es : List (C × D)) : (a.arrange e es).Perm (e :: es) := by
  induction es with
  | nil => exact .refl _
  | cons x xs ih =>
      simp only [arrange]
      split
      · exact .refl _
      · exact (ih.cons x).trans (.swap e x xs)

theorem ordered_perm (es : List (C × D)) : (a.ordered es).Perm es := by
  have hfold : ∀ xs ys : List (C × D),
      (xs.foldl (fun xs e => a.arrange e xs) ys).Perm (xs ++ ys) := by
    intro xs
    induction xs with
    | nil => exact fun ys => .refl ys
    | cons x xs ih =>
        intro ys
        exact (ih _).trans (((arrange_perm x ys).append_left xs).trans List.perm_middle)
  simpa [ordered] using hfold es []

variable [Ord N] [Ord M] {s : State N M D C S E}

theorem contextsAt_perm (n : N) : (a.contextsAt s n).Perm ((s.entriesAt n).map Prod.fst) :=
  (ordered_perm (s.entriesAt n)).map Prod.fst

theorem mem_contextsAt : c ∈ a.contextsAt s n ↔ s.Tracks n c :=
  (contextsAt_perm n).mem_iff.trans State.tracks_iff.symm

theorem lookup_congr {t : State N M D C S E} (h : t.table = s.table) (n : N) (c : C) :
    a.lookup t n c = a.lookup s n c := by
  rw [lookup, State.entriesAt_congr h, lookup]

theorem not_tracks_of_lookup [a.contexts.Lawful] (h : a.lookup s n c = none) :
    ¬ s.Tracks n c := by
  rintro ⟨d, hd⟩
  obtain ⟨e, he⟩ := findIn_isSome_of_mem (a := a) hd (ContextKind.Lawful.same_refl c)
  exact absurd (he.symm.trans h) (by simp)

theorem includes_congr {t : State N M D C S E} (h : t.table = s.table) (n : N) (c : C) (d : D) :
    a.includes t c n d = a.includes s c n d := by
  rw [includes, lookup_congr h, includes]

theorem includes_iff :
    a.includes s c n d = true ↔ ∃ e, a.lookup s n c = some e ∧ a.problem.le d e.2 = true := by
  unfold includes
  cases h : a.lookup s n c with
  | none => simp
  | some e => simp

theorem includes_mono (hp : a.problem.Ordered) {e : D} (hle : a.problem.le d e = true)
    (he : a.includes s c n e = true) : a.includes s c n d = true := by
  obtain ⟨x, hx, hxe⟩ := includes_iff.mp he
  exact includes_iff.mpr ⟨x, hx, hp.le_trans hle hxe⟩

structure Updates (s t : State N M D C S E) (n : N) (c : C) (es : List (C × D)) : Prop where
  entries : t.entriesAt n = es
  others : ∀ m, m ≠ n → t.entriesAt m = s.entriesAt m
  worklist : t.worklist = s.worklist ++ [(n, c)]
  calls : t.calls = s.calls

section Record

variable [Std.TransOrd M]

theorem callsInto_insert [Std.LawfulEqOrd M] [DecidableEq M] (m m' : M)
    (rs : List (CallRecord N C)) :
    ({ s with calls := s.calls.insert m rs } : State N M D C S E).callsInto m' =
      if m' = m then rs else s.callsInto m' := by
  by_cases h : m' = m <;> simp [State.callsInto, OrdMap.getD, h]

variable [DecidableEq N]

theorem recordCall_table (r : CallRecord N C) : (a.recordCall r s).2.table = s.table := by
  simp only [recordCall]
  split <;> rfl

theorem recordCall_entriesAt (r : CallRecord N C) (m : N) :
    (a.recordCall r s).2.entriesAt m = s.entriesAt m :=
  State.entriesAt_congr (recordCall_table r) m

theorem recordCall_worklist (r : CallRecord N C) :
    (a.recordCall r s).2.worklist = s.worklist := by
  simp only [recordCall]
  split <;> rfl

theorem recordCall_client (r : CallRecord N C) : (a.recordCall r s).2.client = s.client := by
  simp only [recordCall]
  split <;> rfl

theorem recordCall_trail (r : CallRecord N C) : (a.recordCall r s).2.trail = s.trail := by
  simp only [recordCall]
  split <;> rfl

theorem recordCall_statistics (r : CallRecord N C) :
    (a.recordCall r s).2.statistics = s.statistics := by
  simp only [recordCall]
  split <;> rfl

theorem recordCall_flags (r : CallRecord N C) :
    (a.recordCall r s).2.seeded = s.seeded ∧ (a.recordCall r s).2.finished = s.finished := by
  simp only [recordCall]
  split <;> exact ⟨rfl, rfl⟩

variable [Std.LawfulEqOrd M] [DecidableEq M]

theorem recordCall_cases (a : Analysis N M D C S E) (r : CallRecord N C) (s : State N M D C S E) :
    (a.known r (s.callsInto (a.graph.functionOf r.entry)) = true ∧ a.recordCall r s = (false, s)) ∨
    (a.known r (s.callsInto (a.graph.functionOf r.entry)) = false ∧ (a.recordCall r s).1 = true ∧
      ∀ m, (a.recordCall r s).2.callsInto m =
        if m = a.graph.functionOf r.entry then s.callsInto m ++ [r] else s.callsInto m) := by
  cases h : a.known r (s.callsInto (a.graph.functionOf r.entry)) with
  | true => exact Or.inl ⟨rfl, by simp [recordCall, h]⟩
  | false =>
      refine Or.inr ⟨rfl, by simp [recordCall, h], fun m => ?_⟩
      simp only [recordCall, h, Bool.false_eq_true, if_false, callsInto_insert]
      split
      · rename_i hm
        rw [hm]
      · rfl

theorem mem_callsInto_recordCall {r r' : CallRecord N C} {m : M} :
    r' ∈ (a.recordCall r s).2.callsInto m ↔ r' ∈ s.callsInto m ∨
      r' = r ∧ m = a.graph.functionOf r.entry ∧ (a.recordCall r s).1 = true := by
  rcases recordCall_cases a r s with ⟨_, h⟩ | ⟨_, hnew, h⟩
  · simp [h]
  · rw [h]
    by_cases hm : m = a.graph.functionOf r.entry <;> simp [hm, hnew]

theorem exists_recordCall [a.contexts.Lawful] (r : CallRecord N C) :
    ∃ r' ∈ (a.recordCall r s).2.callsInto (a.graph.functionOf r.entry),
      r'.site = r.site ∧ r'.entry = r.entry ∧ a.contexts.same r'.caller r.caller = true ∧
        a.contexts.same r'.callee r.callee = true := by
  rcases recordCall_cases a r s with ⟨hknown, _⟩ | ⟨_, hnew, _⟩
  · obtain ⟨r', hr', hagree⟩ := List.any_eq_true.mp hknown
    refine ⟨r', mem_callsInto_recordCall.mpr (Or.inl hr'), ?_⟩
    simpa [and_assoc] using hagree
  · exact ⟨r, mem_callsInto_recordCall.mpr (Or.inr ⟨rfl, rfl, hnew⟩), rfl, rfl,
      ContextKind.Lawful.same_refl _, ContextKind.Lawful.same_refl _⟩

end Record

variable [Std.TransOrd N]

theorem joinInto_flags :
    (a.joinInto n c d s).seeded = s.seeded ∧ (a.joinInto n c d s).finished = s.finished := by
  unfold joinInto
  split
  · split <;> exact ⟨rfl, rfl⟩
  · exact ⟨rfl, rfl⟩

@[simp] theorem joinInto_client : (a.joinInto n c d s).client = s.client := by
  unfold joinInto
  split
  · split <;> rfl
  · rfl

theorem joinInto_of_lookup {e : C × D} (h : a.lookup s n c = some e)
    (hle : a.problem.le d e.2 = false) : a.joinInto n c d s =
      ({ s with table :=
          s.table.insert n (a.replace c (a.problem.join e.2 d) (s.entriesAt n)) }.emit
        (.grew n e.1 (a.problem.join e.2 d))).queue n e.1 := by
  simp [joinInto, h, hle]

theorem joinInto_of_lookup_none (h : a.lookup s n c = none) : a.joinInto n c d s =
    (({ s with table := s.table.insert n (s.entriesAt n ++ [(c, d)]) }.emit (.grew n c d)).count
      (fun t => { t with states := t.states + 1 })).queue n c := by
  simp [joinInto, h]

theorem joinInto_told (a : Analysis N M D C S E) (n : N) (c : C) (d : D) (s : State N M D C S E) :
    a.joinInto n c d s = s ∨
    (∃ e, a.lookup s n c = some e ∧ a.problem.le d e.2 = false ∧
      (a.joinInto n c d s).trail = .grew n e.1 (a.problem.join e.2 d) :: s.trail ∧
      (a.joinInto n c d s).statistics = s.statistics) ∨
    (a.lookup s n c = none ∧ (a.joinInto n c d s).trail = .grew n c d :: s.trail ∧
      (a.joinInto n c d s).statistics =
        { s.statistics with states := s.statistics.states + 1 }) := by
  cases h : a.lookup s n c with
  | none =>
      rw [joinInto_of_lookup_none h]
      exact Or.inr (Or.inr ⟨rfl, rfl, rfl⟩)
  | some e =>
      cases hle : a.problem.le d e.2 with
      | true => exact Or.inl (by simp [joinInto, h, hle])
      | false =>
          rw [joinInto_of_lookup h hle]
          exact Or.inr (Or.inl ⟨e, rfl, hle, rfl, rfl⟩)

variable [Std.LawfulEqOrd N] [DecidableEq N]

theorem updates_insert {es : List (C × D)} {t : State N M D C S E}
    (htable : t.table = s.table.insert n es) (hwork : t.worklist = s.worklist ++ [(n, c)])
    (hcalls : t.calls = s.calls) : Updates s t n c es where
  entries := by simp [State.entriesAt, htable, OrdMap.getD]
  others m hm := by simp [State.entriesAt, htable, OrdMap.getD, hm]
  worklist := hwork
  calls := hcalls

theorem updates_of_lookup {e : C × D} (h : a.lookup s n c = some e)
    (hle : a.problem.le d e.2 = false) : Updates s (a.joinInto n c d s) n e.1
      (a.replace c (a.problem.join e.2 d) (s.entriesAt n)) := by
  rw [joinInto_of_lookup h hle]
  exact updates_insert rfl rfl rfl

theorem updates_of_lookup_none (h : a.lookup s n c = none) :
    Updates s (a.joinInto n c d s) n c (s.entriesAt n ++ [(c, d)]) := by
  rw [joinInto_of_lookup_none h]
  exact updates_insert rfl rfl rfl

theorem joinInto_cases (a : Analysis N M D C S E) (n : N) (c : C) (d : D) (s : State N M D C S E) :
    (∃ e, a.lookup s n c = some e ∧ a.problem.le d e.2 = true ∧ a.joinInto n c d s = s) ∨
    (∃ e, a.lookup s n c = some e ∧ a.problem.le d e.2 = false ∧
      Updates s (a.joinInto n c d s) n e.1
        (a.replace c (a.problem.join e.2 d) (s.entriesAt n))) ∨
    (a.lookup s n c = none ∧
      Updates s (a.joinInto n c d s) n c (s.entriesAt n ++ [(c, d)])) := by
  cases h : a.lookup s n c with
  | none => exact Or.inr (Or.inr ⟨rfl, updates_of_lookup_none h⟩)
  | some e =>
      cases hle : a.problem.le d e.2 with
      | true => exact Or.inl ⟨e, rfl, hle, by simp [joinInto, h, hle]⟩
      | false => exact Or.inr (Or.inl ⟨e, rfl, hle, updates_of_lookup h hle⟩)

@[simp] theorem joinInto_calls : (a.joinInto n c d s).calls = s.calls := by
  rcases joinInto_cases a n c d s with ⟨_, _, _, h⟩ | ⟨_, _, _, h⟩ | ⟨_, h⟩
  · rw [h]
  · exact h.calls
  · exact h.calls

theorem joinInto_callsInto (m : M) : (a.joinInto n c d s).callsInto m = s.callsInto m :=
  State.callsInto_congr joinInto_calls m

theorem joinAll_calls {xs : List N} {c : C} {d : D} :
    (xs.foldl (fun s x => a.joinInto x c d s) s).calls = s.calls := by
  induction xs generalizing s with
  | nil => rfl
  | cons x xs ih => rw [List.foldl_cons, ih, joinInto_calls]

theorem returnTo_calls (r : CallRecord N C) : (a.returnTo n c d s r).calls = s.calls := by
  unfold returnTo
  rw [joinAll_calls]
  split <;> rfl

theorem entriesAt_joinInto_of_ne {m : N} (h : m ≠ n) :
    (a.joinInto n c d s).entriesAt m = s.entriesAt m := by
  rcases joinInto_cases a n c d s with ⟨_, _, _, ht⟩ | ⟨_, _, _, ht⟩ | ⟨_, ht⟩
  · rw [ht]
  · exact ht.others m h
  · exact ht.others m h

theorem contexts_joinInto_cases (m : N) :
    ((a.joinInto n c d s).entriesAt m).map Prod.fst = (s.entriesAt m).map Prod.fst ∨
    m = n ∧ a.lookup s n c = none ∧
      ((a.joinInto n c d s).entriesAt m).map Prod.fst = (s.entriesAt m).map Prod.fst ++ [c] := by
  by_cases hm : m = n
  · subst hm
    rcases joinInto_cases a m c d s with ⟨_, _, _, h⟩ | ⟨_, _, _, h⟩ | ⟨hnone, h⟩
    · exact Or.inl (by rw [h])
    · exact Or.inl (by rw [h.entries, map_fst_replace])
    · exact Or.inr ⟨rfl, hnone, by simp [h.entries]⟩
  · exact Or.inl (by rw [entriesAt_joinInto_of_ne hm])

theorem contexts_joinInto (m : N) : (s.entriesAt m).map Prod.fst <+:
    ((a.joinInto n c d s).entriesAt m).map Prod.fst := by
  rcases contexts_joinInto_cases (a := a) (s := s) (n := n) (c := c) (d := d) m with
    h | ⟨_, _, h⟩
  · exact h ▸ List.prefix_refl _
  · exact h ▸ List.prefix_append ..

theorem tracks_joinInto {m : N} (h : s.Tracks m c') : (a.joinInto n c d s).Tracks m c' := by
  rw [State.tracks_iff] at h ⊢
  exact (contexts_joinInto m).subset h

theorem tracks_joinInto_self (h : a.lookup s n c = none) : (a.joinInto n c d s).Tracks n c := by
  rcases joinInto_cases a n c d s with ⟨_, he, _, _⟩ | ⟨_, he, _, _⟩ | ⟨_, ht⟩
  · simp [h] at he
  · simp [h] at he
  · exact ⟨d, by simp [ht.entries]⟩

theorem mem_entriesAt_joinInto {m : N} {e : C × D} (he : e ∈ (a.joinInto n c d s).entriesAt m) :
    e ∈ s.entriesAt m ∨ m = n ∧ (n, e.1) ∈ (a.joinInto n c d s).worklist ∧
      ((∃ d', (e.1, d') ∈ s.entriesAt n ∧ a.contexts.same e.1 c = true ∧
          e.2 = a.problem.join d' d) ∨
        a.lookup s n c = none ∧ e = (c, d)) := by
  rcases joinInto_cases a n c d s with ⟨_, _, _, h⟩ | ⟨e₀, h₀, _, h⟩ | ⟨h₀, h⟩
  · exact Or.inl (h ▸ he)
  · by_cases hm : m = n
    · subst hm
      rw [h.entries] at he
      rcases mem_replace he with he | ⟨d', hd', heq⟩
      · exact Or.inl he
      · have h₁ : e₀ = (e.1, d') := Option.some.inj (h₀.symm.trans hd')
        have hmem := mem_of_findIn hd'
        refine Or.inr ⟨rfl, ?_, Or.inl ⟨d', hmem.1, hmem.2, ?_⟩⟩
        · simp [h.worklist, h₁]
        · rw [heq, h₁]
    · rw [h.others m hm] at he
      exact Or.inl he
  · by_cases hm : m = n
    · subst hm
      rw [h.entries, List.mem_append, List.mem_singleton] at he
      rcases he with he | rfl
      · exact Or.inl he
      · exact Or.inr ⟨rfl, by simp [h.worklist], Or.inr ⟨h₀, rfl⟩⟩
    · rw [h.others m hm] at he
      exact Or.inl he

end Analysis

end Interproc
