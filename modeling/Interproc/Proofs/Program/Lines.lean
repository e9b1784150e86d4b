import Interproc.Proofs.Program.Sections
import Interproc.Proofs.Text.Split

namespace Interproc

def Op.mnemonic : Op → String
  | .start => "start"
  | .alloca => "alloca"
  | .const => "const"
  | .copy => "copy"
  | .load => "load"
  | .store => "store"
  | .elementPtr => "gep"
  | .call => "call"
  | .branch => "br"
  | .ret => "ret"
  | .nop => "nop"

theorem Op.mnemonic_injective {a b : Op} (h : a.mnemonic = b.mnemonic) : a = b := by
  cases a <;> cases b <;> first | rfl | exact absurd h (by decide)

namespace Source

open Text

variable {cs rest operands w : List Char} {c : Char} {l : List Char} {x mnemonic : String}
  {output : Option String} {i j : Instruction} {s : Scope}

def keyword (r : Row) : List Char := (firstWord r.text).1

section Names

theorem toNat_of_isNameChar (h : isNameChar c = true) :
    c.toNat = 36 ∨ c.toNat = 46 ∨ (48 ≤ c.toNat ∧ c.toNat ≤ 57) ∨ (65 ≤ c.toNat ∧ c.toNat ≤ 90) ∨
      c.toNat = 95 ∨ (97 ≤ c.toNat ∧ c.toNat ≤ 122) := by
  change (((((decide (c.val ≥ 'A'.val ∧ c.val ≤ 'Z'.val) ||
    (decide (c.val ≥ 'a'.val) && decide (c.val ≤ 'z'.val))) ||
    (decide (c.val ≥ '0'.val) && decide (c.val ≤ '9'.val))) || c == '_') || c == '.') ||
    c == '$') = true at h
  simp only [Bool.or_eq_true, Bool.and_eq_true, decide_eq_true_eq, beq_iff_eq,
    UInt32.le_iff_toNat_le, ge_iff_le] at h
  change (((((65 ≤ c.toNat ∧ c.toNat ≤ 90) ∨ (97 ≤ c.toNat ∧ c.toNat ≤ 122)) ∨
    (48 ≤ c.toNat ∧ c.toNat ≤ 57)) ∨ c = '_') ∨ c = '.') ∨ c = '$' at h
  rcases h with ((h | rfl) | rfl) | rfl
  · omega
  · decide
  · decide
  · decide

theorem not_blank_of_isNameChar (h : isNameChar c = true) : isBlank c = false := by
  have hrange := toNat_of_isNameChar h
  simp only [isBlank, Bool.or_eq_false_iff, decide_eq_false_iff_not, beq_eq_false_iff_ne]
  omega

theorem isNameChar_of_isName (h : isName cs = true) (hc : c ∈ cs) : isNameChar c = true := by
  rw [isName, Bool.and_eq_true, List.all_eq_true] at h
  exact h.2 c hc

theorem unbroken_of_isName (h : isName cs = true) : Unbroken cs :=
  fun _ hc => not_blank_of_isNameChar (isNameChar_of_isName h hc)

end Names

section Forms

theorem eq_of_label? (h : label? cs = some l) : cs = l ++ [':'] ∧ isName l = true := by
  obtain ⟨hlast, hname⟩ := Option.filter_eq_some_iff.mp h
  exact ⟨dropLast?_eq_some_iff.mp hlast, hname⟩

theorem firstWord_of_label? (h : label? cs = some l) : (firstWord cs).1 = l ++ [':'] := by
  obtain ⟨rfl, hname⟩ := eq_of_label? h
  have hunbroken : Unbroken (l ++ [':']) := fun c hc =>
    (List.mem_append.mp hc).elim (unbroken_of_isName hname c)
      (fun hc => List.mem_singleton.mp hc ▸ rfl)
  rw [hunbroken.firstWord_eq]

theorem eq_of_output?_none (h : output? cs = .ok (none, rest)) : rest = cs := by
  unfold output? at h
  split at h
  · split at h
    · split at h <;> exact nomatch h
    · exact (Prod.mk.inj (Except.ok.inj h)).2.symm
  · exact (Prod.mk.inj (Except.ok.inj h)).2.symm

theorem eq_of_output?_some (h : output? cs = .ok (some x, rest)) : ∃ lhs rhs,
    cs = lhs ++ '=' :: rhs ∧ trim lhs = '%' :: x.toList ∧ isName x.toList = true ∧
      rest = trim rhs := by
  unfold output? at h
  split at h
  · rename_i lhs rhs hcut
    obtain ⟨d, hd, rfl, _⟩ := cut?_eq_some hcut
    obtain rfl : d = '=' := eq_of_beq hd
    split at h
    · rename_i name htrim
      split at h
      · rename_i hname
        obtain ⟨hx, rfl⟩ := Prod.mk.inj (Except.ok.inj h)
        obtain rfl := Option.some.inj hx
        exact ⟨lhs, rhs, rfl, by rw [htrim, String.toList_ofList], by rwa [String.toList_ofList], rfl⟩
      · exact nomatch h
    · exact nomatch h
  · exact nomatch h

theorem head_of_output? (h : output? cs = .ok (some x, rest)) :
    ∃ c ds, cs = c :: ds ∧ (c = '%' ∨ isBlank c = true) := by
  obtain ⟨lhs, rhs, rfl, htrim, _⟩ := eq_of_output?_some h
  cases lhs with
  | nil => exact nomatch htrim
  | cons c lhs =>
      refine ⟨c, _, List.cons_append .., ?_⟩
      cases hc : isBlank c with
      | true => exact Or.inr rfl
      | false =>
          obtain ⟨ds, hds⟩ : ∃ ds, trim (c :: lhs) = c :: ds := trim_cons_of_not hc
          exact Or.inl (List.cons.inj (hds.symm.trans htrim)).1

end Forms

section Mnemonics

inductive Operates (s : Scope) (output : Option String) (operands : List Char) :
    String → Instruction → Prop
  | const {c : Int} (hc : Decimal.constant? operands = some c) :
      Operates s output operands Op.const.mnemonic
        { op := .const, output := output, inputs := [.constant c] }
  | call {i : Instruction} (hi : s.call? operands = .ok i) :
      Operates s output operands Op.call.mnemonic { i with output := output }
  | branch {ns : List Nat} (hns : (items operands).mapM s.target? = .ok ns) :
      Operates s output operands Op.branch.mnemonic
        { op := .branch, output := output, targets := ns }
  | listed {op : Op} {fits : Nat → Bool} {vs : List Value}
      (hop : op ≠ .const ∧ op ≠ .call ∧ op ≠ .branch)
      (hvs : s.values? op.mnemonic fits operands = .ok vs) :
      Operates s output operands op.mnemonic { op := op, output := output, inputs := vs }

theorem operates_of_operation? (h : s.operation? output mnemonic operands = .ok i) :
    Operates s output operands mnemonic i := by
  have hnamed : ∀ (op : Op) {fits : Nat → Bool}, (op ≠ .const ∧ op ≠ .call ∧ op ≠ .branch) →
      (s.values? op.mnemonic fits operands >>= fun vs =>
        Scope.named op.mnemonic output { op := op, inputs := vs }) = .ok i →
      Operates s output operands op.mnemonic i := fun op _ hop h => by
    obtain ⟨vs, hvs, h⟩ := bind_eq_ok.mp h
    obtain ⟨x, rfl, rfl⟩ := Scope.eq_of_named h
    exact .listed hop hvs
  have hunnamed : ∀ (op : Op) {fits : Nat → Bool}, (op ≠ .const ∧ op ≠ .call ∧ op ≠ .branch) →
      (s.values? op.mnemonic fits operands >>= fun vs =>
        Scope.unnamed op.mnemonic output { op := op, inputs := vs }) = .ok i →
      Operates s output operands op.mnemonic i := fun op _ hop h => by
    obtain ⟨vs, hvs, h⟩ := bind_eq_ok.mp h
    obtain ⟨rfl, rfl⟩ := Scope.eq_of_unnamed h
    exact .listed hop hvs
  unfold Scope.operation? at h
  split at h
  · exact hnamed .alloca (by decide) h
  · split at h
    · rename_i c hc
      obtain ⟨x, rfl, rfl⟩ := Scope.eq_of_named h
      exact .const hc
    · exact nomatch h
  · exact hnamed .copy (by decide) h
  · exact hnamed .load (by decide) h
  · exact hunnamed .store (by decide) h
  · exact hnamed .elementPtr (by decide) h
  · obtain ⟨j, hj, h⟩ := bind_eq_ok.mp h
    obtain rfl := Except.ok.inj h
    exact .call hj
  · obtain ⟨ns, hns, h⟩ := bind_eq_ok.mp h
    split at h
    · exact nomatch h
    · obtain ⟨rfl, rfl⟩ := Scope.eq_of_unnamed h
      exact .branch hns
  · split at h
    · exact nomatch h
    · exact hunnamed .ret (by decide) h
  · exact hunnamed .nop (by decide) h
  · exact nomatch h

theorem Operates.mnemonic_eq (h : Operates s output operands mnemonic i) :
    i.op.mnemonic = mnemonic := by
  cases h with
  | call hi =>
      obtain ⟨_, _, _, _, _, _, _, _, rfl⟩ := Scope.eq_of_call? hi
      rfl
  | _ => rfl

theorem mnemonic_of_operation? (h : s.operation? output mnemonic operands = .ok i) :
    i.op.mnemonic = mnemonic :=
  (operates_of_operation? h).mnemonic_eq

theorem keyword_of_statement? (h : s.statement? cs = .ok i) (hop : i.op ≠ .nop)
    (hout : i.output = none) : (firstWord cs).1 = i.op.mnemonic.toList := by
  obtain ⟨hadmits, houtput⟩ := Scope.admits_of_statement? h
  unfold Scope.statement? at h
  split at h
  · obtain rfl := Except.ok.inj h
    exact absurd rfl hop
  · obtain ⟨⟨output, rest⟩, hsplit, h⟩ := bind_eq_ok.mp h
    have hnone : output = none := (Scope.admits_of_operation? h).2.symm.trans hout
    subst hnone
    rw [mnemonic_of_operation? h, eq_of_output?_none hsplit, String.toList_ofList]

theorem mnemonic_of_keyword (h : s.statement? cs = .ok i) (hw : (firstWord cs).1 = c :: w)
    (hc : c ≠ '%') (hlast : (c :: w).getLast? ≠ some ':') :
    i.op.mnemonic.toList = c :: w := by
  unfold Scope.statement? at h
  split at h
  · rename_i l hl
    rw [← hw, firstWord_of_label? hl] at hlast
    exact absurd List.getLast?_concat hlast
  · obtain ⟨⟨output, rest⟩, hsplit, h⟩ := bind_eq_ok.mp h
    cases output with
    | none => rw [mnemonic_of_operation? h, eq_of_output?_none hsplit, String.toList_ofList, hw]
    | some x =>
        obtain ⟨d, ds, rfl, hd⟩ := head_of_output? hsplit
        rw [firstWord_fst, List.takeWhile_cons] at hw
        split at hw
        · rename_i hblank
          have hd : d = '%' := hd.resolve_right (by simpa using hblank)
          exact absurd ((List.cons.inj hw).1.symm.trans hd) hc
        · exact nomatch hw

def ends (cs : List Char) : Bool :=
  (firstWord cs).1 == Op.ret.mnemonic.toList || (firstWord cs).1 == Op.branch.mnemonic.toList

theorem output_of_ends (hshape : i.takesShape = true) (hop : i.op = .ret ∨ i.op = .branch) :
    i.output = none := by
  rcases hop with hop | hop <;> simp_all [Instruction.takesShape]

theorem ends_eq (h : s.statement? cs = .ok i) : i.ends = ends cs := by
  have hout := output_of_ends (Scope.admits_of_statement? h).1.proper.shape
  rw [Bool.eq_iff_iff]
  simp only [Instruction.ends, decide_eq_true_eq, ends, Bool.or_eq_true, beq_iff_eq]
  constructor
  · rintro (hop | hop)
    · exact Or.inl (hop ▸ keyword_of_statement? h (by simp [hop]) (hout (Or.inl hop)))
    · exact Or.inr (hop ▸ keyword_of_statement? h (by simp [hop]) (hout (Or.inr hop)))
  · have hop : ∀ {op : Op}, i.op.mnemonic.toList = op.mnemonic.toList → i.op = op :=
      fun heq => Op.mnemonic_injective (String.toList_inj.mp heq)
    rintro (hw | hw)
    · exact Or.inl (hop (mnemonic_of_keyword h hw (by decide) (by decide)))
    · exact Or.inr (hop (mnemonic_of_keyword h hw (by decide) (by decide)))

theorem targets_of_statement? (h : s.statement? cs = .ok i) (hop : i.op = .branch) :
    List.Forall₂ (fun name n => s.labels.get? (String.ofList name) = some n)
      (items (firstWord cs).2) i.targets := by
  have hout := output_of_ends (Scope.admits_of_statement? h).1.proper.shape (Or.inr hop)
  unfold Scope.statement? at h
  split at h
  · obtain rfl := Except.ok.inj h
    exact nomatch hop
  · obtain ⟨⟨output, rest⟩, hsplit, h⟩ := bind_eq_ok.mp h
    have hnone : output = none := (Scope.admits_of_operation? h).2.symm.trans hout
    subst hnone
    dsimp only at h
    rw [eq_of_output?_none hsplit] at h
    generalize String.ofList (firstWord cs).1 = mnemonic at h
    cases operates_of_operation? h with
    | branch hns =>
        refine (mapM_eq_ok_iff.mp hns).imp (fun name n hname => ?_)
        unfold Scope.target? at hname
        split at hname
        · rename_i m hm
          rwa [← Except.ok.inj hname]
        · exact nomatch hname
    | const => exact nomatch hop
    | call hi =>
        obtain ⟨_, _, _, _, _, _, _, _, rfl⟩ := Scope.eq_of_call? hi
        exact nomatch hop
    | listed hother => exact absurd hop hother.2.2

end Mnemonics

end Source

end Interproc
