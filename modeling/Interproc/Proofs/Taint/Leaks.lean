import Interproc.Proofs.Solver.Memory
import Interproc.Proofs.Taint.Flows

namespace Interproc.Taint.Setup

open Solver

section Record

variable {site site' : Nat} {v w : Value} {vs : List Value} {leaks : Leaks}

theorem recordLeak_of_mem (h : v ∈ leaks.getD site ∅) : (recordLeak site leaks v).1 = leaks := by
  simp [recordLeak, h]

theorem recordLeak_of_not_mem (h : v ∉ leaks.getD site ∅) :
    (recordLeak site leaks v).1 = leaks.insert site ((leaks.getD site ∅).insert v) := by
  simp [recordLeak, h]

theorem mem_recordLeak : w ∈ (recordLeak site leaks v).1.getD site' ∅ ↔
    w ∈ leaks.getD site' ∅ ∨ site' = site ∧ w = v := by
  by_cases hv : v ∈ leaks.getD site ∅
  · rw [recordLeak_of_mem hv]
    refine ⟨Or.inl, ?_⟩
    rintro (hw | ⟨rfl, rfl⟩)
    · exact hw
    · exact hv
  · rw [recordLeak_of_not_mem hv]
    by_cases hsite : site' = site
    · simp [OrdMap.getD, hsite, or_comm]
    · simp [OrdMap.getD, hsite]

theorem mem_recordLeaks : w ∈ (recordLeaks site vs leaks).1.getD site' ∅ ↔
    w ∈ leaks.getD site' ∅ ∨ site' = site ∧ w ∈ vs := by
  induction vs generalizing leaks with
  | nil => simp [recordLeaks]
  | cons v vs ih =>
      simp only [recordLeaks, ih, mem_recordLeak, List.mem_cons]
      rw [or_assoc, ← and_or_left]

theorem recordLeaks_eq_self_iff :
    (recordLeaks site vs leaks).1 = leaks ↔ ∀ v ∈ vs, v ∈ leaks.getD site ∅ := by
  constructor
  · intro h v hv
    rw [← h]
    exact mem_recordLeaks.mpr (Or.inr ⟨rfl, hv⟩)
  · intro h
    induction vs with
    | nil => rfl
    | cons v vs ih =>
        simp only [recordLeaks, recordLeak_of_mem (h v (List.mem_cons_self ..))]
        exact ih (fun w hw => h w (List.mem_cons_of_mem _ hw))

def Leaking (leaks : Leaks) : Prop := ∀ site vs, leaks.get? site = some vs → vs ≠ ∅

theorem Leaking.recordLeak (h : Leaking leaks) : Leaking (recordLeak site leaks v).1 := by
  by_cases hv : v ∈ leaks.getD site ∅
  · rwa [recordLeak_of_mem hv]
  · rw [recordLeak_of_not_mem hv]
    intro site' vs hvs hempty
    rw [OrdMap.get?_insert] at hvs
    split at hvs
    · have hmem : v ∈ (leaks.getD site ∅).insert v := OrdSet.mem_insert.mpr (Or.inl rfl)
      rw [Option.some.inj hvs, hempty] at hmem
      exact OrdSet.not_mem_empty hmem
    · exact h site' vs hvs hempty

theorem Leaking.recordLeaks (h : Leaking leaks) : Leaking (recordLeaks site vs leaks).1 := by
  induction vs generalizing leaks with
  | nil => exact h
  | cons v vs ih => exact ih h.recordLeak

end Record

variable (t : Setup)

def HandsToSink (site : Nat) (v : Value) : Prop :=
  t.program.isCall site = true ∧ ∃ g ∈ t.program.calleesAt site,
    t.registry.isSource (t.program.nameOf g) = false ∧
    ∃ f, t.registry.sink? (t.program.nameOf g) = some f ∧
      ∃ i, (t.program.inputsAt site)[i]? = some v ∧ f.leaked.contains i = true

def handed (site : Nat) (d : ValueSet) : List Value :=
  match t.sourceAt? site, t.sinkAt? site with
  | none, some f => t.leaked f site d
  | _, _ => []

theorem mem_leaked {f : SinkFunction} {site : Nat} {d : ValueSet} {v : Value} :
    v ∈ t.leaked f site d ↔
      v ∈ d ∧ ∃ i, (t.program.inputsAt site)[i]? = some v ∧ f.leaked.contains i = true := by
  simp only [leaked, List.mem_map, List.mem_filter, Prod.exists, List.mem_zipIdx_iff_getElem?,
    OrdSet.contains, Bool.and_eq_true, decide_eq_true_eq]
  constructor
  · rintro ⟨v, i, ⟨hi, hv, hleaks⟩, rfl⟩
    exact ⟨hv, i, hi, hleaks⟩
  · rintro ⟨hv, i, hi, hleaks⟩
    exact ⟨v, i, ⟨hi, hv, hleaks⟩, rfl⟩

theorem mem_handed {site : Nat} {d : ValueSet} {v : Value} (hcall : t.program.isCall site = true) :
    v ∈ t.handed site d ↔ t.HandsToSink site v ∧ v ∈ d := by
  cases hcallee : t.program.instructions[site]?.bind Instruction.callee with
  | none => simp [handed, HandsToSink, sourceAt?, sinkAt?, calleeName?, Program.calleesAt, hcallee]
  | some g =>
      have hsource : t.sourceAt? site = t.registry.source? (t.program.nameOf g) := by
        simp [sourceAt?, calleeName?, Program.calleesAt, hcallee]
      have hsink : t.sinkAt? site = t.registry.sink? (t.program.nameOf g) := by
        simp [sinkAt?, calleeName?, Program.calleesAt, hcallee]
      rw [handed, hsource, hsink]
      simp only [HandsToSink, hcall, true_and, Program.calleesAt, hcallee, Registry.isSource]
      cases hreg : t.registry.source? (t.program.nameOf g) with
      | some f => simp [hreg]
      | none =>
          cases hreg' : t.registry.sink? (t.program.nameOf g) with
          | none => simp [hreg']
          | some f => simp [mem_leaked, hreg, hreg', and_comm]

theorem remember_fst {site site' : Nat} {d : ValueSet} {leaks : Leaks} :
    (t.problem.remember site site' d leaks).1 = (recordLeaks site (t.handed site d) leaks).1 := by
  show (t.remember site d leaks).1 = _
  unfold remember handed
  cases t.sourceAt? site with
  | some f => rfl
  | none =>
      cases t.sinkAt? site with
      | some f => rfl
      | none => rfl

theorem retains : t.problem.Retains where
  again n n' d x := by
    rw [remember_fst, remember_fst]
    exact recordLeaks_eq_self_iff.mpr (fun v hv => mem_recordLeaks.mpr (Or.inr ⟨rfl, hv⟩))
  later {n n' d x} m m' e h := by
    rw [remember_fst, recordLeaks_eq_self_iff] at h
    rw [remember_fst, remember_fst]
    exact recordLeaks_eq_self_iff.mpr (fun v hv => mem_recordLeaks.mpr (Or.inl (h v hv)))

theorem leaking_of_remembered {V : Nat → ValueSet → Prop} {leaks : Leaks}
    (h : Remembered t.program.icfg t.problem V ∅ leaks) : Leaking leaks := by
  induction h with
  | start => simp [Leaking]
  | pass _ _ _ _ ih =>
      rw [remember_fst]
      exact ih.recordLeaks

theorem handsToSink_of_remembered {V : Nat → ValueSet → Prop} {leaks : Leaks} {site : Nat}
    {v : Value} (h : Remembered t.program.icfg t.problem V ∅ leaks)
    (hv : v ∈ leaks.getD site ∅) : t.HandsToSink site v ∧ ∃ d, V site d ∧ v ∈ d := by
  induction h with
  | start => exact absurd hv OrdSet.not_mem_empty
  | @pass leaks n n' d _ hcall _ hd ih =>
      rw [remember_fst, mem_recordLeaks] at hv
      rcases hv with hv | ⟨rfl, hv⟩
      · exact ih hv
      · obtain ⟨hsink, hv⟩ := (t.mem_handed hcall).mp hv
        exact ⟨hsink, d, hd, hv⟩

section Run

variable {C : Type} {k : ContextKind Nat ValueSet C} {initial : C} {limits : Limits} {s : Run C}

theorem exists_mem_of_below {site : Nat} {d : ValueSet} {v : Value}
    (h : (t.analysis k initial limits).Below s site d) (hv : v ∈ d) :
    ∃ c e, (c, e) ∈ s.entriesAt site ∧ v ∈ e := by
  obtain ⟨c, e, he, hle⟩ := h.entry
  exact ⟨c, e, he, OrdSet.isSubset_iff.mp hle v hv⟩

theorem mem_of_noted {site : Nat} {d : ValueSet} {v : Value} {leaks : Leaks}
    (h : (t.analysis k initial limits).Noted site d leaks) (hsink : t.HandsToSink site v)
    (hv : v ∈ d) : v ∈ leaks.getD site ∅ := by
  have hcall := hsink.1
  have hsame : (t.problem.remember site (site + 1) d leaks).1 = leaks :=
    h hcall (site + 1) (Program.next_mem_succs hcall)
  rw [remember_fst, recordLeaks_eq_self_iff] at hsame
  exact hsame v ((t.mem_handed hcall).mpr ⟨hsink, hv⟩)

theorem mem_leaks_iff (k : ContextKind Nat ValueSet C) [k.Lawful] (initial : C) (limits : Limits)
    {s : Run C} (h : (t.analysis k initial limits).SolvedFrom ∅ s) (hs : s.finished = true) :
    (∀ site v, v ∈ s.client.getD site ∅ ↔
      t.HandsToSink site v ∧ ∃ c d, (c, d) ∈ s.entriesAt site ∧ v ∈ d) ∧
    Leaking s.client ∧
    ((t.analysis k initial limits).checkPostFixpoint s).1.client = s.client := by
  have hp : (t.analysis k initial limits).problem.Ordered := t.pointwise.ordered
  have hremembered := (h.moment hp).remembered hp
  refine ⟨fun site v => ⟨fun hv => ?_, ?_⟩, t.leaking_of_remembered hremembered,
    h.solved.checkPostFixpoint_client (a := t.analysis k initial limits) hp t.retains hs⟩
  · obtain ⟨hsink, d, hd, hvd⟩ := t.handsToSink_of_remembered hremembered hv
    exact ⟨hsink, t.exists_mem_of_below hd hvd⟩
  · rintro ⟨hsink, c, d, hd, hvd⟩
    exact t.mem_of_noted (h.solved.noted hp t.retains hs hd) hsink hvd

end Run

def relay : Setup where
  program := {
    instructions := #[
      { op := .start, function := 2 },
      { op := .ret, inputs := [.argument 2 0], function := 2, line := some 4 },
      { op := .start, function := 3 },
      { op := .call, output := "q", inputs := [.argument 3 0], callee := some 2, function := 3,
        line := some 7 },
      { op := .ret, inputs := [.result 3], function := 3, line := some 8 },
      { op := .start, function := 4 },
      { op := .call, output := "a", callee := some 0, function := 4, line := some 11 },
      { op := .const, output := "b", inputs := [.constant 3], function := 4, line := some 12 },
      { op := .call, output := "r", inputs := [.result 6], callee := some 3, function := 4,
        line := some 13 },
      { op := .call, output := "s", inputs := [.result 7], callee := some 3, function := 4,
        line := some 14 },
      { op := .call, inputs := [.result 8], callee := some 1, function := 4, line := some 15 },
      { op := .call, inputs := [.result 9], callee := some 1, function := 4, line := some 16 },
      { op := .ret, function := 4 }]
    functions := #[
      ⟨"source", "relay.c", [], none⟩,
      ⟨"sink", "relay.c", [⟨"d", false⟩], none⟩,
      ⟨"id", "relay.c", [⟨"p", false⟩], some ⟨0, 2⟩⟩,
      ⟨"outer", "relay.c", [⟨"p", false⟩], some ⟨2, 5⟩⟩,
      ⟨"main", "relay.c", [], some ⟨5, 13⟩⟩]
    globals := ∅
    openBody := none }
  registry := .defaults
  aliases := noAliases
  entries := [4]
  config := {}

def relayByTwo :
    (relay.analysis CallString.kind (∅ : CallString Nat 2) ⟨none, none⟩).Fixpoint ∅ :=
  .ofSolve 60 (by decide +kernel)

theorem relay_leaks :
    .result 8 ∈ relayByTwo.state.client.getD 10 ∅ ∧ relayByTwo.state.client.get? 11 = none ∧
    (∀ site v, v ∈ relayByTwo.state.client.getD site ∅ ↔
      relay.HandsToSink site v ∧ ∃ c d, (c, d) ∈ relayByTwo.state.entriesAt site ∧ v ∈ d) ∧
    Leaking relayByTwo.state.client ∧
    ((relay.analysis CallString.kind (∅ : CallString Nat 2) ⟨none, none⟩).checkPostFixpoint
      relayByTwo.state).1.client = relayByTwo.state.client :=
  ⟨by decide +kernel, by decide +kernel, mem_leaks_iff relay CallString.kind ∅ ⟨none, none⟩
    relayByTwo.solved relayByTwo.finished⟩

end Interproc.Taint.Setup
