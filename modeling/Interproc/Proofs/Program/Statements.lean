import Interproc.Program.Source.Statement
import Mathlib.Data.List.Forall2

namespace Interproc

theorem bind_eq_ok {α β ε : Type} {x : Except ε α} {f : α → Except ε β} {b : β} :
    (x >>= f) = .ok b ↔ ∃ a, x = .ok a ∧ f a = .ok b := by
  cases x with
  | error e => simp [bind, Except.bind]
  | ok a => simp [bind, Except.bind]

theorem bind_congr_of_ok {α β ε : Type} {x : Except ε α} {c c' : α → Except ε β}
    (h : ∀ a, x = .ok a → c a = c' a) : (x >>= c) = (x >>= c') := by
  cases x with
  | error e => rfl
  | ok a => exact h a rfl

theorem mapM_ok {α β ε : Type} {f : α → Except ε β} {xs : List α} {ys : List β}
    (h : xs.mapM f = .ok ys) :
    ys.length = xs.length ∧ ∀ {k : Nat} {y}, ys[k]? = some y → ∃ x, xs[k]? = some x ∧ f x = .ok y := by
  induction xs generalizing ys with
  | nil =>
      obtain rfl := Except.ok.inj h
      exact ⟨rfl, fun hy => nomatch hy⟩
  | cons x xs ih =>
      rw [List.mapM_cons] at h
      obtain ⟨y, hy, h⟩ := bind_eq_ok.mp h
      obtain ⟨zs, hzs, h⟩ := bind_eq_ok.mp h
      obtain rfl := Except.ok.inj h
      obtain ⟨hlength, hget⟩ := ih hzs
      refine ⟨by simp [hlength], fun {k z} hz => ?_⟩
      cases k with
      | zero =>
          obtain rfl : y = z := by simpa using hz
          exact ⟨x, rfl, hy⟩
      | succ k => exact hget (k := k) (by simpa using hz)

theorem mapM_eq_ok_iff {α β ε : Type} {f : α → Except ε β} {xs : List α} {ys : List β} :
    xs.mapM f = .ok ys ↔ List.Forall₂ (fun x y => f x = .ok y) xs ys := by
  induction xs generalizing ys with
  | nil => cases ys <;> simp [pure, Except.pure]
  | cons x xs ih =>
      rw [List.mapM_cons]
      constructor
      · intro h
        obtain ⟨y, hy, h⟩ := bind_eq_ok.mp h
        obtain ⟨zs, hzs, h⟩ := bind_eq_ok.mp h
        obtain rfl := Except.ok.inj h
        exact .cons hy (ih.mp hzs)
      · rintro (_ | ⟨hy, hzs⟩)
        exact bind_eq_ok.mpr ⟨_, hy, bind_eq_ok.mpr ⟨_, ih.mpr hzs, rfl⟩⟩

structure Instruction.Proper (i : Instruction) : Prop where
  shape : i.takesShape = true
  callee : i.op ≠ .call → i.callee = none
  targets : i.op ≠ .branch → i.targets = []

theorem Instruction.fault?_eq_none_iff {i : Instruction} : i.fault? = none ↔ i.Proper := by
  unfold fault?
  constructor
  · intro h
    split at h
    · exact nomatch h
    · rename_i hshape
      split at h
      · exact nomatch h
      · rename_i hcallee
        split at h
        · exact nomatch h
        · rename_i htargets
          exact ⟨by simpa using hshape, by simpa using hcallee, by simpa using htargets⟩
  · intro h
    have hcallee : ¬ (i.op ≠ .call ∧ i.callee.isSome = true) := by
      rintro ⟨hop, hsome⟩
      simp [h.callee hop] at hsome
    have htargets : ¬ (i.op ≠ .branch ∧ (!i.targets.isEmpty) = true) := by
      rintro ⟨hop, hsome⟩
      simp [h.targets hop] at hsome
    rw [h.shape, if_neg (by simp), if_neg hcallee, if_neg htargets]

namespace Program

def params (p : Program) : Array (List Parameter) := p.functions.map Function.params

def names (p : Program) : Array String := p.functions.map Function.name

/-- The programs differ in instructions and bodies only. -/
structure SameHeads (p q : Program) : Prop where
  globals : q.globals = p.globals
  index : q.functionIndex = p.functionIndex
  names : q.names = p.names
  params : q.params = p.params

variable {p q : Program}

theorem params_size : p.params.size = p.functions.size := Array.size_map

theorem SameHeads.functionNamed?_eq (h : SameHeads p q) (name : String) :
    q.functionNamed? name = p.functionNamed? name := by
  rw [functionNamed?, functionNamed?, h.index]

theorem SameHeads.size_functions (h : SameHeads p q) : q.functions.size = p.functions.size := by
  simpa [Program.names] using congrArg Array.size h.names

theorem SameHeads.map_params (h : SameHeads p q) (f : Nat) :
    q.functions[f]?.map Function.params = p.functions[f]?.map Function.params := by
  have hparams : q.params[f]? = p.params[f]? := by rw [h.params]
  simpa only [Program.params, Array.getElem?_map] using hparams

theorem SameHeads.symm (h : SameHeads p q) : SameHeads q p :=
  ⟨h.globals.symm, h.index.symm, h.names.symm, h.params.symm⟩

theorem SameHeads.head (h : SameHeads p q) {f : Nat} {g : Function} (hg : q.functions[f]? = some g) :
    ∃ g', p.functions[f]? = some g' ∧ g'.name = g.name ∧ g'.params = g.params := by
  have hnames : q.names[f]? = p.names[f]? := by rw [h.names]
  have hparams : q.params[f]? = p.params[f]? := by rw [h.params]
  simp only [Program.names, Program.params, Array.getElem?_map, hg, Option.map_some] at hnames hparams
  obtain ⟨g', hg', hname⟩ := Option.map_eq_some_iff.mp hnames.symm
  obtain ⟨_, hg'', hparam⟩ := Option.map_eq_some_iff.mp hparams.symm
  obtain rfl := Option.some.inj (hg'.symm.trans hg'')
  exact ⟨g', hg', hname, hparam⟩

theorem SameHeads.parameter?_eq (h : SameHeads p q) (f j : Nat) :
    q.parameter? f j = p.parameter? f j := by
  have hparams : ∀ p : Program, p.parameter? f j = p.params[f]?.bind (fun ps => ps[j]?) := by
    intro p
    cases hf : p.functions[f]? <;> simp [Program.parameter?, Program.params, hf]
  rw [hparams, hparams, h.params]

end Program

namespace Source

def assigned? (cs : List Char) : Option String :=
  match label? cs, output? cs with
  | none, .ok (x, _) => x
  | _, _ => none

namespace Scope

def Offers (s : Scope) : Value → Prop
  | .argument f k => f = s.function ∧ k < s.params.length
  | .result n => ∃ x, s.locals.get? x = some n
  | .global k => k < s.program.globals.size
  | .constant _ => True

structure Admits (s : Scope) (i : Instruction) : Prop where
  proper : i.Proper
  op_ne_start : i.op ≠ .start
  inputs : ∀ v ∈ i.inputs, s.Offers v
  named : ∀ {f}, i.callee = some f → ∃ name, s.program.functionNamed? name = some f
  callee : ∀ {f g}, i.callee = some f → s.program.functions[f]? = some g →
    g.params.length ≤ i.inputs.length
  targets_ne_nil : i.op = .branch → i.targets ≠ []
  targets : ∀ n ∈ i.targets, ∃ l, s.labels.get? l = some n

section Operands

variable {s : Scope} {v : Value} {token operands : List Char} {mnemonic : String} {vs : List Value}
  {output : Option String} {i j : Instruction}

theorem offers_of_value? (h : s.value? token = .ok v) : s.Offers v := by
  unfold value? at h
  split at h
  · split at h
    · rename_i k hk
      obtain rfl := Except.ok.inj h
      exact ⟨rfl, (List.findIdx?_eq_some_iff_findIdx_eq.mp hk).1⟩
    · split at h
      · rename_i n hn
        obtain rfl := Except.ok.inj h
        exact ⟨_, hn⟩
      · simp at h
  · split at h
    · rename_i k hk
      obtain rfl := Except.ok.inj h
      exact (List.getElem?_eq_some_iff.mp (Interned.indexOf?_eq_some_iff.mp hk)).1
    · simp at h
  · split at h
    · obtain rfl := Except.ok.inj h
      trivial
    · simp at h

theorem offers_of_mapM {tokens : List (List Char)} (h : tokens.mapM s.value? = .ok vs) :
    vs.length = tokens.length ∧ ∀ v ∈ vs, s.Offers v := by
  obtain ⟨hlength, hget⟩ := mapM_ok h
  refine ⟨hlength, fun v hv => ?_⟩
  obtain ⟨k, hk⟩ := List.mem_iff_getElem?.mp hv
  obtain ⟨_, _, htoken⟩ := hget hk
  exact offers_of_value? htoken

theorem offers_of_values? {fits : Nat → Bool} (h : s.values? mnemonic fits operands = .ok vs) :
    vs.length = (Text.items operands).length ∧ fits vs.length = true ∧ ∀ v ∈ vs, s.Offers v := by
  unfold values? at h
  split at h
  · rename_i hfits
    obtain ⟨hlength, hvs⟩ := offers_of_mapM h
    exact ⟨hlength, hlength ▸ hfits, hvs⟩
  · exact nomatch h

theorem eq_of_named (h : named mnemonic output i = .ok j) :
    ∃ x, output = some x ∧ j = { i with output := some x } := by
  unfold named at h
  split at h
  · exact ⟨_, rfl, (Except.ok.inj h).symm⟩
  · exact nomatch h

theorem eq_of_unnamed (h : unnamed mnemonic output i = .ok j) : output = none ∧ j = i := by
  unfold unnamed at h
  split at h
  · exact nomatch h
  · exact ⟨rfl, (Except.ok.inj h).symm⟩

theorem admits_of_inputs {op : Op} (hvs : ∀ v ∈ vs, s.Offers v) (hstart : op ≠ .start)
    (hbranch : op ≠ .branch)
    (hshape : Instruction.takesShape { op := op, output := output, inputs := vs } = true) :
    s.Admits { op := op, output := output, inputs := vs } where
  proper := ⟨hshape, fun _ => rfl, fun _ => rfl⟩
  op_ne_start := hstart
  inputs := hvs
  named hf := nomatch hf
  callee hf := nomatch hf
  targets_ne_nil hop := absurd hop hbranch
  targets _ hn := absurd hn List.not_mem_nil

theorem admits_of_named {op : Op} (hvs : ∀ v ∈ vs, s.Offers v) (hstart : op ≠ .start)
    (hbranch : op ≠ .branch)
    (hshape : ∀ x, Instruction.takesShape { op := op, output := some x, inputs := vs } = true)
    (h : named mnemonic output { op := op, inputs := vs } = .ok i) :
    s.Admits i ∧ i.output = output := by
  obtain ⟨x, rfl, rfl⟩ := eq_of_named h
  exact ⟨admits_of_inputs hvs hstart hbranch (hshape x), rfl⟩

theorem admits_of_named_values {op : Op} {fits : Nat → Bool} (hstart : op ≠ .start)
    (hbranch : op ≠ .branch)
    (hshape : ∀ vs x, fits vs.length = true →
      Instruction.takesShape { op := op, output := some x, inputs := vs } = true)
    (h : (s.values? mnemonic fits operands >>= fun vs =>
      named mnemonic output { op := op, inputs := vs }) = .ok i) :
    s.Admits i ∧ i.output = output := by
  obtain ⟨vs, hvs, h⟩ := bind_eq_ok.mp h
  obtain ⟨_, hfits, hoffers⟩ := offers_of_values? hvs
  exact admits_of_named hoffers hstart hbranch (fun x => hshape vs x hfits) h

theorem admits_of_unnamed_values {op : Op} {fits : Nat → Bool} (hstart : op ≠ .start)
    (hbranch : op ≠ .branch)
    (hshape : ∀ vs, vs.length = (Text.items operands).length → fits vs.length = true →
      Instruction.takesShape { op := op, inputs := vs } = true)
    (h : (s.values? mnemonic fits operands >>= fun vs =>
      unnamed mnemonic output { op := op, inputs := vs }) = .ok i) :
    s.Admits i ∧ i.output = output := by
  obtain ⟨vs, hvs, h⟩ := bind_eq_ok.mp h
  obtain ⟨hlength, hfits, hoffers⟩ := offers_of_values? hvs
  obtain ⟨rfl, rfl⟩ := eq_of_unnamed h
  exact ⟨admits_of_inputs hoffers hstart hbranch (hshape vs hlength hfits), rfl⟩

theorem eq_of_call? (h : s.call? operands = .ok i) : ∃ name tokens f vs,
    Source.call? operands = .ok (name, tokens) ∧ s.program.functionNamed? name = some f ∧
      ((s.program.functions[f]?.map Function.params).getD []).length ≤ tokens.length ∧
      tokens.mapM s.value? = .ok vs ∧ i = { op := .call, inputs := vs, callee := some f } := by
  obtain ⟨⟨name, tokens⟩, htokens, h⟩ := bind_eq_ok.mp h
  dsimp only at h
  split at h
  · exact nomatch h
  · rename_i f hf
    split at h
    · exact nomatch h
    · rename_i henough
      obtain ⟨vs, hvs, h⟩ := bind_eq_ok.mp h
      exact ⟨name, tokens, f, vs, htokens, hf, Nat.le_of_not_lt henough, hvs, (Except.ok.inj h).symm⟩

theorem admits_of_call? (h : s.call? operands = .ok i) :
    s.Admits { i with output := output } := by
  obtain ⟨name, tokens, f, vs, _, hf, henough, hvs, rfl⟩ := eq_of_call? h
  obtain ⟨hlength, hoffers⟩ := offers_of_mapM hvs
  refine ⟨⟨rfl, fun hop => absurd rfl hop, fun _ => rfl⟩, nofun, hoffers, fun hf' => ?_,
    fun hf' hg => ?_, nofun, nofun⟩
  · exact ⟨name, hf.trans hf'⟩
  · obtain rfl := Option.some.inj hf'
    rw [hg, Option.map_some, Option.getD_some] at henough
    exact hlength.symm ▸ henough

theorem admits_of_targets {ns : List Nat} (hne : ns.isEmpty = false)
    (hns : ∀ n ∈ ns, ∃ l, s.labels.get? l = some n) :
    s.Admits { op := .branch, targets := ns } where
  proper := ⟨rfl, fun _ => rfl, fun hop => absurd rfl hop⟩
  op_ne_start := nofun
  inputs _ hv := absurd hv List.not_mem_nil
  named hf := nomatch hf
  callee hf := nomatch hf
  targets_ne_nil _ hnil := by simp [show ns = [] from hnil] at hne
  targets := hns

theorem labels_of_mapM {names : List (List Char)} {ns : List Nat}
    (h : names.mapM s.target? = .ok ns) : ∀ n ∈ ns, ∃ l, s.labels.get? l = some n := by
  intro n hn
  obtain ⟨k, hk⟩ := List.mem_iff_getElem?.mp hn
  obtain ⟨name, _, hname⟩ := (mapM_ok h).2 hk
  unfold target? at hname
  split at hname
  · rename_i m hm
    obtain rfl := Except.ok.inj hname
    exact ⟨_, hm⟩
  · exact nomatch hname

theorem admits_of_operation? (h : s.operation? output mnemonic operands = .ok i) :
    s.Admits i ∧ i.output = output := by
  unfold operation? at h
  -- one case for each mnemonic, in the order of `operation?`
  split at h
  · exact admits_of_named_values (by decide) (by decide)
      (fun vs x hfits => by simpa [Instruction.takesShape] using hfits) h
  · split at h
    · rename_i c _
      have hoffers : ∀ v ∈ [Value.constant c], s.Offers v := by simp [Offers]
      exact admits_of_named hoffers (by decide) (by decide) (fun x => rfl) h
    · exact nomatch h
  · exact admits_of_named_values (by decide) (by decide)
      (fun vs x hfits => by simpa [Instruction.takesShape] using hfits) h
  · exact admits_of_named_values (by decide) (by decide)
      (fun vs x hfits => by simpa [Instruction.takesShape] using hfits) h
  · exact admits_of_unnamed_values (by decide) (by decide)
      (fun vs _ hfits => by simpa [Instruction.takesShape] using hfits) h
  · refine admits_of_named_values (by decide) (by decide) (fun vs x hfits => ?_) h
    have hne : vs ≠ [] := List.length_pos_iff.mp (by simpa [Nat.succ_le_iff] using hfits)
    simpa [Instruction.takesShape] using hne
  · obtain ⟨j, hj, h⟩ := bind_eq_ok.mp h
    obtain rfl := Except.ok.inj h
    exact ⟨admits_of_call? hj, rfl⟩
  · obtain ⟨ns, hns, h⟩ := bind_eq_ok.mp h
    split at h
    · exact nomatch h
    · rename_i hne
      obtain ⟨rfl, rfl⟩ := eq_of_unnamed h
      exact ⟨admits_of_targets (by simpa using hne) (labels_of_mapM hns), rfl⟩
  · split at h
    · exact nomatch h
    · rename_i hone
      refine admits_of_unnamed_values (by decide) (by decide) (fun vs hlength _ => ?_) h
      have hle : vs.length ≤ 1 := hlength ▸ Nat.le_of_not_lt hone
      simpa [Instruction.takesShape] using hle
  · exact admits_of_unnamed_values (by decide) (by decide)
      (fun vs _ hfits => by simpa [Instruction.takesShape] using hfits) h
  · exact nomatch h

theorem admits_of_statement? {cs : List Char} (h : s.statement? cs = .ok i) :
    s.Admits i ∧ i.output = assigned? cs := by
  unfold statement? at h
  unfold assigned?
  split at h
  · rename_i l hl
    obtain rfl := Except.ok.inj h
    rw [hl]
    exact ⟨admits_of_inputs (List.forall_mem_nil _) (by decide) (by decide) rfl, rfl⟩
  · rename_i hl
    obtain ⟨⟨output, rest⟩, houtput, h⟩ := bind_eq_ok.mp h
    rw [hl, houtput]
    exact admits_of_operation? h

end Operands

section Heads

variable {p q : Program} {f : Nat} {locals labels : OrdMap String Nat}

theorem statement?_congr (h : Program.SameHeads p q) (cs : List Char) :
    statement? ⟨q, f, locals, labels⟩ cs = statement? ⟨p, f, locals, labels⟩ cs := by
  have hparams : params ⟨q, f, locals, labels⟩ = params ⟨p, f, locals, labels⟩ := by
    have hmap := h.map_params f
    unfold params
    dsimp only
    cases hp : p.functions[f]? <;> cases hq : q.functions[f]? <;> simp_all
  have hvalue : value? ⟨q, f, locals, labels⟩ = value? ⟨p, f, locals, labels⟩ := by
    funext token
    unfold value?
    rw [hparams, h.globals]
  have hvalues : values? ⟨q, f, locals, labels⟩ = values? ⟨p, f, locals, labels⟩ := by
    funext mnemonic fits operands
    simp only [values?, hvalue]
  have hcall : call? ⟨q, f, locals, labels⟩ = call? ⟨p, f, locals, labels⟩ := by
    funext operands
    simp only [call?, hvalue, h.functionNamed?_eq, h.map_params]
  have htarget : target? ⟨q, f, locals, labels⟩ = target? ⟨p, f, locals, labels⟩ := rfl
  simp only [statement?, operation?, hvalues, hcall, htarget]

end Heads

end Scope

end Source

end Interproc
