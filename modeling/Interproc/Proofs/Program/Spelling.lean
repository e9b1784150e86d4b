import Interproc.Proofs.Program.Carried
import Interproc.Proofs.Program.Naming

namespace Interproc

open Source Text

namespace Program

def Within64 (c : Int) : Prop := -0x8000000000000000 ≤ c ∧ c < 0x8000000000000000

structure HeadsSpelled (p : Program) : Prop where
  function : ∀ {f : Nat} {g}, p.functions[f]? = some g → isName g.name.toList = true
  param : ∀ {f : Nat} {g}, p.functions[f]? = some g → ∀ q ∈ g.params, isName q.name.toList = true
  global : ∀ x ∈ p.globals, isName x.toList = true

structure Spelled (p : Program) : Prop extends p.HeadsSpelled where
  output : ∀ {n : Nat} {i x}, p.instructions[n]? = some i → i.output = some x →
    isName x.toList = true
  constant : ∀ {n : Nat} {i c}, p.instructions[n]? = some i → .constant c ∈ i.inputs → Within64 c

variable {p q : Program}

theorem HeadsSpelled.congr (h : p.HeadsSpelled) (hsame : SameHeads p q) : q.HeadsSpelled where
  function hg := by
    obtain ⟨g', hg', hname, _⟩ := hsame.head hg
    exact hname ▸ h.function hg'
  param hg := by
    obtain ⟨g', hg', _, hparams⟩ := hsame.head hg
    exact hparams ▸ h.param hg'
  global := hsame.globals ▸ h.global

theorem HeadsSpelled.addFunction (h : p.HeadsSpelled) {name module : String}
    {params : List Parameter} (hname : isName name.toList = true)
    (hparams : ∀ q ∈ params, isName q.name.toList = true) :
    HeadsSpelled (p.withFunction ⟨name, module, params, none⟩) where
  function hg := by
    rw [functions_withFunction, Array.getElem?_push] at hg
    split at hg
    · exact Option.some.inj hg ▸ hname
    · exact h.function hg
  param hg := by
    rw [functions_withFunction, Array.getElem?_push] at hg
    split at hg
    · exact Option.some.inj hg ▸ hparams
    · exact h.param hg
  global := h.global

end Program

namespace Source

open Program

variable {cs signature token : List Char} {name x : String} {list : List (List Char)}
  {q : Parameter} {params : List Parameter} {d d' : Draft} {r : Row} {s : Scope} {c : Int}
  {rs rows : List Row} {p : Program} {f n : Nat} {b : Span} {names : Names} {is : List Instruction}
  {i : Instruction}

section Heads

theorem isName_of_call? (h : call? cs = .ok (name, list)) : isName name.toList = true := by
  unfold call? at h
  split at h
  · exact nomatch h
  · split at h
    · rename_i hname
      obtain ⟨rfl, _⟩ := Prod.mk.inj (Except.ok.inj h)
      rwa [String.toList_ofList]
    · exact nomatch h

theorem isName_of_parameter? (h : parameter? cs = .ok q) : isName q.name.toList = true := by
  have hparam : ∀ {cs : List Char} {b : Bool},
      (parameterName? cs).map (fun name => (⟨name, b⟩ : Parameter)) = .ok q →
        isName q.name.toList = true := by
    intro cs b h
    unfold parameterName? at h
    split at h
    · rename_i name hname
      obtain rfl := Except.ok.inj h
      rw [String.toList_ofList]
      exact (Option.filter_eq_some_iff.mp hname).2
    · exact nomatch h
  unfold parameter? at h
  split at h <;> exact hparam h

theorem isName_of_signature? (h : signature? signature = .ok (name, params)) :
    isName name.toList = true ∧ ∀ q ∈ params, isName q.name.toList = true := by
  obtain ⟨⟨name', list⟩, hcall, h⟩ := bind_eq_ok.mp h
  obtain ⟨params', hparams, h⟩ := bind_eq_ok.mp h
  split at h
  · exact nomatch h
  · obtain ⟨rfl, rfl⟩ := Prod.mk.inj (Except.ok.inj h)
    refine ⟨isName_of_call? hcall, fun q hq => ?_⟩
    obtain ⟨k, hk⟩ := List.mem_iff_getElem?.mp hq
    obtain ⟨_, _, hparam⟩ := (mapM_ok hparams).2 hk
    exact isName_of_parameter? hparam

theorem Draft.Takes.headsSpelled (ht : d.Takes r d') (h : d.program.HeadsSpelled) :
    d'.program.HeadsSpelled := by
  cases ht with
  | module => exact h
  | global _ _ hname =>
      refine { h with global := fun x hx => ?_ }
      rcases Interned.mem_insert.mp hx with hx | rfl
      · exact h.global x hx
      · rwa [String.toList_ofList]
  | declare _ _ hsignature =>
      exact h.addFunction (isName_of_signature? hsignature).1 (isName_of_signature? hsignature).2
  | header _ hdeclares =>
      obtain ⟨signature, _, hsignature⟩ := hdeclares
      exact h.addFunction (isName_of_signature? hsignature).1 (isName_of_signature? hsignature).2
  | close => exact h
  | row => exact h

theorem headsSpelled_of_readAll {module : String}
    (h : rs.foldlM Draft.read ⟨∅, module, [], none⟩ = .ok d) : d.program.HeadsSpelled := by
  have hnone : (∅ : Program).HeadsSpelled := ⟨nofun, nofun, nofun⟩
  exact foldlM_invariant [] (I := fun _ d => d.program.HeadsSpelled)
    (fun hd hread => (Draft.takes_of_read hread).headsSpelled hd) hnone h

end Heads

section Bodies

theorem isName_of_assigned? (h : assigned? cs = some x) : isName x.toList = true := by
  unfold assigned? at h
  split at h
  · rename_i y rest _ houtput
    subst h
    obtain ⟨_, _, _, _, hname, _⟩ := eq_of_output?_some houtput
    exact hname
  · exact nomatch h

theorem forall_of_forall₂ {α β : Type} {P : β → Prop} {xs : List α} {ys : List β}
    (h : List.Forall₂ (fun _ y => P y) xs ys) : ∀ y ∈ ys, P y := by
  induction h with
  | nil => exact List.forall_mem_nil _
  | cons hy _ ih => exact List.forall_mem_cons.mpr ⟨hy, ih⟩

theorem within64_of_statement? (h : s.statement? cs = .ok i) (hc : .constant c ∈ i.inputs) :
    Within64 c := by
  have hinputs : List.Forall₂ (fun _ v => ∀ c, v = .constant c → Within64 c)
      (operandTokens cs) i.inputs :=
    (read_of_statement? h).imp (fun token v hv c hc =>
      Decimal.range_of_constant? (constant?_of_value? (hc ▸ hv)))
  exact forall_of_forall₂ hinputs _ hc c rfl

end Bodies

end Source

namespace Program

variable {p : Program} {text module : String}

theorem spelled_of_lift (h : lift text module = .ok p) : p.Spelled := by
  have hp := wellFormed_of_lift h
  obtain ⟨d, hread, _, hlifting⟩ := lifting_of_liftRows h
  have hrow : ∀ {n : Nat} {i}, p.instructions[n]? = some i →
      i.inputs = [] ∧ i.output = none ∨ ∃ s cs j, Scope.statement? s cs = .ok j ∧
        i.inputs = j.inputs ∧ i.output = j.output := by
    intro n i hi
    obtain ⟨b, hb, hn⟩ := hp.mem_body (Array.getElem?_eq_some_iff.mp hi).1
    obtain ⟨_, rows, _, names, is, _, _, _, hcarries⟩ := exists_stands_of_body h hb
    rcases hcarries.instruction hn hi with (rfl | rfl) | ⟨_, _, j, rfl, _, hj, rfl⟩
    · exact Or.inl ⟨rfl, rfl⟩
    · exact Or.inl ⟨rfl, rfl⟩
    · exact Or.inr ⟨_, _, j, hj, rfl, rfl⟩
  refine ⟨(headsSpelled_of_readAll hread).congr hlifting.heads, fun hi hx => ?_, fun hi hc => ?_⟩
  · rcases hrow hi with ⟨_, hout⟩ | ⟨s, cs, j, hj, _, hout⟩
    · exact nomatch hout.symm.trans hx
    · exact isName_of_assigned? ((Scope.admits_of_statement? hj).2.symm.trans (hout.symm.trans hx))
  · rcases hrow hi with ⟨hinputs, _⟩ | ⟨s, cs, j, hj, hinputs, _⟩
    · rw [hinputs] at hc
      exact absurd hc List.not_mem_nil
    · exact within64_of_statement? hj (hinputs ▸ hc)

end Program

end Interproc
