import Interproc.Proofs.Program.Heads
import Interproc.Proofs.Program.Layout
import Mathlib.Data.List.Induction

namespace Interproc

structure Construction where
  program : Program
  faults : List BuildFault
  deriving DecidableEq

namespace Construction

def take (c : Construction) (s : BuildStep) : Construction :=
  match s.build.run.run c.program with
  | (.ok (), p) => { c with program := p }
  | (.error e, p) => ⟨p, c.faults ++ [e]⟩

def ofSteps (steps : List BuildStep) : Construction := steps.foldl take ⟨∅, []⟩

theorem ofSteps_concat (steps : List BuildStep) (s : BuildStep) :
    ofSteps (steps ++ [s]) = (ofSteps steps).take s := by
  rw [ofSteps, List.foldl_append]
  rfl

end Construction

namespace Program

open Source

variable {p q : Program} {n t : Nat} {s : BuildStep} {r : Except BuildFault Unit}

section Built

structure Built (p : Program) : Prop extends p.Layout where
  valid : ∀ i ∈ p.instructions, i.fault? = none
  names_nodup : p.names.toList.Nodup
  functionNamed?_iff : ∀ {name f}, p.functionNamed? name = some f ↔
    ∃ g, p.functions[f]? = some g ∧ g.name = name

namespace Effect

theorem layout (he : p.Effect s r q) (h : p.Layout) : q.Layout := by
  cases he with
  | refused => exact h
  | addGlobal => exact h.congr rfl rfl rfl rfl rfl
  | addFunction => exact h.addFunction ..
  | beginBody hf => exact h.beginBody hf
  | push hopen => exact h.push hopen rfl
  | setTargets ts hi => exact h.setTargets hi ts
  | endBody hopen hb => exact h.endBody hopen hb

theorem valid (he : p.Effect s r q) (h : ∀ i ∈ p.instructions, i.fault? = none) :
    ∀ i ∈ q.instructions, i.fault? = none := by
  intro j hj
  cases he with
  | refused => exact h j hj
  | addGlobal => exact h j hj
  | addFunction => exact h j hj
  | beginBody =>
      rcases Array.mem_append.mp hj with hj | hj
      · exact h j hj
      · obtain rfl : j = opening _ := by simpa using hj
        rfl
  | push _ hi =>
      rcases Array.mem_push.mp hj with hj | rfl
      · exact h j hj
      · exact Instruction.fault?_eq_none_iff.mpr ⟨hi.shape, hi.callee, hi.targets⟩
  | @setTargets n i ts hi hop =>
      rcases Array.mem_or_eq_of_mem_setIfInBounds hj with hj | rfl
      · exact h j hj
      · have hproper := Instruction.fault?_eq_none_iff.mp (h i (Array.mem_of_getElem? hi))
        exact Instruction.fault?_eq_none_iff.mpr
          ⟨hproper.shape, hproper.callee, fun hne => absurd hop hne⟩
  | @endBody f b =>
      have hj : j ∈ (p.sealed f).instructions := hj
      rcases sealed_cases (p := p) (f := f) with ⟨_, heq⟩ | heq <;> rw [heq] at hj
      · exact h j hj
      · rcases Array.mem_push.mp hj with hj | rfl
        · exact h j hj
        · rfl

theorem indexed (he : p.Effect s r q) (h : p.Indexed) : q.Indexed := by
  cases he with
  | refused => exact h
  | addGlobal => exact h
  | addFunction _ _ hnew => exact h.withFunction hnew
  | beginBody => exact h.congr sameHeads_within
  | push => exact h
  | setTargets => exact h
  | endBody => exact (h.congr sameHeads_sealed).congr sameHeads_setBody

end Effect

end Built

section Escapes

def Escapes (p : Program) (n t : Nat) : Prop :=
  ∃ f b i, p.Closed f b ∧ n ∈ b ∧ p.instructions[n]? = some i ∧ i.op = .branch ∧
    t ∈ i.targets ∧ t ∉ b

def Misdirects (p : Program) (s : BuildStep) (n t : Nat) : Prop :=
  ∃ ts f b, s = .setTargets n ts ∧ p.Closed f b ∧ n ∈ b ∧ p.opAt? n = some .branch ∧
    t ∈ ts ∧ t ∉ b

theorem escapes_iff_of_kept (hp : p.Layout) (hkept : p.Precedes q)
    (hclosed : ∀ {f b}, p.Closed f b → q.Closed f b)
    (hnew : ∀ {f b}, q.Closed f b → p.Closed f b ∨ q.strays b = []) :
    q.Escapes n t ↔ p.Escapes n t := by
  have hlt : ∀ {f b}, p.Closed f b → n ∈ b → n < p.size := fun hb hn =>
    Nat.lt_of_lt_of_le hn.2 (Nat.le_trans (hp.stop_le hb) hp.frontier_le)
  constructor
  · rintro ⟨f, b, i, hb, hn, hi, hop, ht, hout⟩
    rcases hnew hb with hold | hstays
    · exact ⟨f, b, i, hold, hn, (hkept (hlt hold hn)).symm.trans hi, hop, ht, hout⟩
    · have hmem := List.filter_eq_nil_iff.mp hstays n (Span.mem_toList.mpr hn)
      simp only [hi, Option.any_some, List.any_eq_true, decide_eq_true_eq] at hmem
      exact absurd ⟨t, ht, hout⟩ hmem
  · rintro ⟨f, b, i, hb, hn, hi, hop, ht, hout⟩
    exact ⟨f, b, i, hclosed hb, hn, (hkept (hlt hb hn)).trans hi, hop, ht, hout⟩

theorem escapes_setTargets {m : Nat} {i : Instruction} {ts : List Nat}
    (hi : p.instructions[m]? = some i) (hop : i.op = .branch) :
    Escapes { p with
        instructions := p.instructions.setIfInBounds m { i with targets := ts } } n t ↔
      p.Misdirects (.setTargets m ts) n t ∨ p.Escapes n t ∧ m ≠ n := by
  have hm : m < p.instructions.size := (Array.getElem?_eq_some_iff.mp hi).1
  by_cases hmn : m = n
  · subst hmn
    constructor
    · rintro ⟨f, b, j, hb, hn, hj, -, ht, hout⟩
      rw [Array.getElem?_setIfInBounds_self_of_lt hm] at hj
      obtain rfl := Option.some.inj hj
      exact Or.inl ⟨ts, f, b, rfl, hb, hn, by simp [opAt?, hi, hop], ht, hout⟩
    · rintro (⟨ts', f, b, heq, hb, hn, -, ht, hout⟩ | ⟨-, hne⟩)
      · obtain ⟨-, rfl⟩ := BuildStep.setTargets.inj heq
        exact ⟨f, b, _, hb, hn, Array.getElem?_setIfInBounds_self_of_lt hm, hop, ht, hout⟩
      · exact absurd rfl hne
  · have hsame : (p.instructions.setIfInBounds m { i with targets := ts })[n]? =
        p.instructions[n]? := Array.getElem?_setIfInBounds_ne hmn
    constructor
    · rintro ⟨f, b, j, hb, hn, hj, hrest⟩
      exact Or.inr ⟨⟨f, b, j, hb, hn, hsame.symm.trans hj, hrest⟩, hmn⟩
    · rintro (⟨ts', f, b, heq, -⟩ | ⟨⟨f, b, j, hb, hn, hj, hrest⟩, -⟩)
      · exact absurd (BuildStep.setTargets.inj heq).1 hmn
      · exact ⟨f, b, j, hb, hn, hsame.trans hj, hrest⟩

theorem Effect.escapes_iff (he : p.Effect s (.ok ()) q) (hp : p.Layout) :
    q.Escapes n t ↔ p.Misdirects s n t ∨ p.Escapes n t ∧ ∀ ts, s ≠ .setTargets n ts := by
  -- of all steps only one changes instructions that are there
  have hother : (∀ m ts, s ≠ .setTargets m ts) → (q.Escapes n t ↔ p.Escapes n t) →
      (q.Escapes n t ↔ p.Misdirects s n t ∨ p.Escapes n t ∧ ∀ ts, s ≠ .setTargets n ts) := by
    intro hs h
    have hnot : ¬ p.Misdirects s n t := fun ⟨ts, _, _, heq, _⟩ => hs n ts heq
    rw [h, or_iff_right hnot, and_iff_left (hs n)]
  cases he with
  | addGlobal => exact hother nofun Iff.rfl
  | @addFunction name module params _ =>
      have hclosed : Closed (p.withFunction ⟨name, module, params, none⟩) = p.Closed := by
        unfold Closed
        rw [body?_addFunction]
        rfl
      exact hother nofun (escapes_iff_of_kept hp (fun _ => rfl) (fun hb => hclosed ▸ hb)
        (fun hb => Or.inl (hclosed ▸ hb)))
  | beginBody hf =>
      exact hother nofun (escapes_iff_of_kept hp Array.getElem?_append_left
        (closed_within hf).mpr (fun hb => Or.inl ((closed_within hf).mp hb)))
  | push => exact hother nofun (escapes_iff_of_kept hp precedes_push id Or.inl)
  | @setTargets m i ts hi hop =>
      have hne : (∀ ts', BuildStep.setTargets m ts ≠ .setTargets n ts') ↔ m ≠ n := by simp
      rw [escapes_setTargets hi hop, hne]
  | endBody hopen hb hstays =>
      refine hother nofun (escapes_iff_of_kept hp precedes_sealed
        (fun h => (closed_finished hopen hb).mpr (Or.inr h)) (fun h => ?_))
      rcases (closed_finished hopen hb).mp h with ⟨-, rfl⟩ | hold
      · exact Or.inr (hstays rfl)
      · exact Or.inl hold

end Escapes

end Program

namespace Construction

open Program

section Runs

variable {c : Construction} {steps : List BuildStep} {s : BuildStep} {n t : Nat}

theorem take_program (c : Construction) (s : BuildStep) :
    (c.take s).program = (s.build.run.run c.program).2 := by
  unfold take
  split <;> simp_all

theorem faults_take_eq_nil : (c.take s).faults = [] ↔
    c.faults = [] ∧ (s.build.run.run c.program).1 = .ok () := by
  unfold take
  split <;> simp_all

theorem kept_ofSteps {I : Program → Prop} (hempty : I ∅)
    (hstep : ∀ {p s r q}, Effect p s r q → I p → I q) (steps : List BuildStep) :
    I (ofSteps steps).program := by
  induction steps using List.reverseRecOn with
  | nil => exact hempty
  | append_singleton steps s ih =>
      rw [ofSteps_concat, take_program]
      exact hstep (effect _ s) ih

theorem layout_ofSteps (steps : List BuildStep) : (ofSteps steps).program.Layout :=
  kept_ofSteps .empty Effect.layout steps

theorem built_ofSteps (steps : List BuildStep) : (ofSteps steps).program.Built := by
  have hindexed : (ofSteps steps).program.Indexed := kept_ofSteps indexed_empty Effect.indexed steps
  exact {
    toLayout := layout_ofSteps steps
    valid := kept_ofSteps (by simp [EmptyCollection.emptyCollection]) Effect.valid steps
    names_nodup := hindexed.nodup
    functionNamed?_iff := indexed_iff.mp hindexed }

theorem exists_split_concat {α : Type} {xs : List α} {x : α} {P : List α → α → Prop}
    {Q : α → Prop} :
    (∃ before y after, xs ++ [x] = before ++ y :: after ∧ P before y ∧ ∀ z ∈ after, Q z) ↔
      P xs x ∨
        (∃ before y after, xs = before ++ y :: after ∧ P before y ∧ ∀ z ∈ after, Q z) ∧ Q x := by
  constructor
  · rintro ⟨before, y, after, heq, hy, hafter⟩
    rcases List.eq_nil_or_concat after with rfl | ⟨after, z, rfl⟩
    · obtain ⟨rfl, hx⟩ := List.append_inj' heq rfl
      obtain rfl := List.singleton_inj.mp hx
      exact Or.inl hy
    · rw [List.concat_eq_append, ← List.cons_append, ← List.append_assoc] at heq
      obtain ⟨rfl, hx⟩ := List.append_inj' heq rfl
      obtain rfl := List.singleton_inj.mp hx
      refine Or.inr ⟨⟨before, y, after, rfl, hy, fun w hw => hafter w ?_⟩, hafter x ?_⟩
      · simp [hw]
      · simp
  · rintro (hx | ⟨⟨before, y, after, rfl, hy, hafter⟩, hx⟩)
    · exact ⟨xs, x, [], rfl, hx, nofun⟩
    · refine ⟨before, y, after ++ [x], by simp, hy, fun z hz => ?_⟩
      rcases List.mem_append.mp hz with hz | hz
      · exact hafter z hz
      · exact List.mem_singleton.mp hz ▸ hx

/-- Where no step fails, a target lies outside a body that has ended exactly if it was set after the
end of the body, and the targets of the branch were not set again. -/
theorem escapes_ofSteps_iff (h : (ofSteps steps).faults = []) :
    (ofSteps steps).program.Escapes n t ↔ ∃ before s after, steps = before ++ s :: after ∧
      (ofSteps before).program.Misdirects s n t ∧ ∀ s' ∈ after, ∀ ts, s' ≠ .setTargets n ts := by
  induction steps using List.reverseRecOn with
  | nil => simp [Escapes, ofSteps, EmptyCollection.emptyCollection]
  | append_singleton steps s ih =>
      rw [ofSteps_concat] at h
      obtain ⟨hbefore, hok⟩ := faults_take_eq_nil.mp h
      have hstep := effect (ofSteps steps).program s
      rw [hok] at hstep
      rw [ofSteps_concat, take_program, hstep.escapes_iff (layout_ofSteps steps), ih hbefore]
      exact (exists_split_concat (P := fun before s => (ofSteps before).program.Misdirects s n t)
        (Q := fun s => ∀ ts, s ≠ .setTargets n ts)).symm

end Runs

section LateTargets

def lateTargets : List BuildStep :=
  [.addFunction "f" "f.c" [], .beginBody 0, .push { op := .branch }, .endBody, .setTargets 1 [42]]

theorem lateTargets_misdirected : (ofSteps lateTargets).faults = [] ∧
    ∃ before s after, lateTargets = before ++ s :: after ∧
      (ofSteps before).program.Misdirects s 1 42 ∧ ∀ s' ∈ after, ∀ ts, s' ≠ .setTargets 1 ts :=
  ⟨by decide +kernel, (escapes_ofSteps_iff (by decide +kernel)).mp
    ⟨0, ⟨0, 2⟩, { op := .branch, targets := [42] }, ⟨by decide +kernel, by decide +kernel⟩,
      by decide, by decide +kernel, rfl, by decide, by decide⟩⟩

theorem lateTargets_escape :
    (ofSteps lateTargets).faults = [] ∧ (ofSteps lateTargets).program.Escapes 1 42 :=
  ⟨by decide +kernel, 0, ⟨0, 2⟩, { op := .branch, targets := [42] },
    ⟨by decide +kernel, by decide +kernel⟩, by decide, by decide +kernel, rfl, by decide, by decide⟩

end LateTargets

end Construction

end Interproc
