import Interproc.Proofs.Program.Lifted

namespace Interproc.Program

variable {p : Program} {f g m n r : Nat} {b : Span}

theorem pairwise_bodyOf : (p.bodyOf f).Pairwise (· < ·) := by
  unfold bodyOf
  split
  · exact List.pairwise_lt_range'
  · exact List.Pairwise.nil

namespace Coherent

theorem mem_preds_iff (h : p.Coherent) : m ∈ p.preds n ↔ n ∈ p.succs m := by
  simp only [preds, List.mem_filter, List.contains_iff_mem]
  refine ⟨And.right, fun hn => ⟨?_, hn⟩⟩
  obtain ⟨b, hb, hm⟩ := h.mem_body (lt_size_of_mem_succs hn)
  have hsame : p.functionOf n = p.functionOf m := h.functionOf_of_mem hb (h.succ_mem hb hm hn)
  exact hsame ▸ mem_bodyOf.mpr ⟨b, hb, hm⟩

theorem mem_exitsOf_iff (h : p.Coherent) :
    n ∈ p.exitsOf f ↔ p.isExit n = true ∧ p.functionOf n = f := by
  simp only [exitsOf, List.mem_filter, beq_iff_eq, isExit]
  constructor
  · rintro ⟨hn, hop⟩
    exact ⟨hop, h.functionOf_of_mem_bodyOf hn⟩
  · rintro ⟨hop, rfl⟩
    exact ⟨h.mem_bodyOf_functionOf (lt_size_of_opAt? hop), hop⟩

end Coherent

theorem succs_of_isCall (h : p.isCall n = true) : p.succs n = [n + 1] := by
  cases hi : p.instructions[n]? with
  | none => simp [isCall, opAt?, hi] at h
  | some i =>
      have hop : i.op = .call := by simpa [isCall, opAt?, hi] using h
      simp [succs, hi, Instruction.succs, hop]

theorem mem_calleesAt : g ∈ p.calleesAt n ↔ p.calleesAt n = [g] := by
  unfold calleesAt
  cases p.instructions[n]?.bind Instruction.callee <;> simp [eq_comm]

namespace WellFormed

theorem not_mem_entryOf_of_succ (h : p.WellFormed) (hn : n ∈ p.succs m) : n ∉ p.entryOf f := by
  intro hstart
  obtain ⟨b, hb, rfl⟩ := mem_entryOf.mp hstart
  have hm := lt_size_of_mem_succs hn
  obtain ⟨b', hb', hmem⟩ := h.mem_body hm
  have hfunction : p.functionOf m = f :=
    (h.functionOf_of_mem hb' (h.succ_mem hb' hmem hn)).symm.trans
      (h.functionOf_of_mem hb (h.first_mem hb))
  rw [hfunction] at hb'
  obtain rfl := Option.some.inj (hb'.symm.trans hb)
  obtain ⟨i, hi⟩ : ∃ i, p.instructions[m]? = some i := ⟨_, Array.getElem?_eq_getElem hm⟩
  have hbody : p.body? i.function = some b' := by rw [← functionOf_eq hi, hfunction, hb]
  simp only [succs, hi, Instruction.succs] at hn
  split at hn
  · exact absurd hn List.not_mem_nil
  · exact ((h.fits hi).target hbody _ hn).2 rfl
  · have hle : b'.first ≤ m := hmem.1
    rw [List.mem_singleton] at hn
    omega

theorem isCall_of_callee (h : p.WellFormed) (hg : g ∈ p.calleesAt n) : p.isCall n = true := by
  obtain ⟨i, hi, hcallee⟩ := Option.bind_eq_some_iff.mp (Option.mem_toList.mp hg)
  have hop : i.op = .call := by
    by_contra hne
    rw [(h.fits hi).proper.callee hne] at hcallee
    exact nomatch hcallee
  simp [isCall, opAt?, hi, hop]

theorem mem_callsTo_iff (h : p.WellFormed) :
    n ∈ p.callsTo f g ↔ p.functionOf n = f ∧ p.calleesAt n = [g] := by
  simp only [callsTo, List.mem_filter, Bool.and_eq_true, List.contains_iff_mem]
  constructor
  · rintro ⟨hn, _, hg⟩
    exact ⟨h.functionOf_of_mem_bodyOf hn, mem_calleesAt.mp hg⟩
  · rintro ⟨rfl, hg⟩
    have hcall := h.isCall_of_callee (mem_calleesAt.mpr hg)
    exact ⟨h.mem_bodyOf_functionOf (lt_size_of_isCall hcall), hcall, mem_calleesAt.mpr hg⟩

end WellFormed

structure Navigable (p : Program) : Prop where
  mem_succs_iff : ∀ m n, n ∈ p.succs m ↔ m ∈ p.preds n
  preds_ascending : ∀ n, (p.preds n).Pairwise (· < ·)
  returnSite : ∀ n, p.isCall n = true → ∃ r, p.icfg.returnSites n = [r] ∧ p.hasNode r = true ∧
    p.functionOf r = p.functionOf n ∧ ∀ f, r ∉ p.entryOf f
  mem_exits_iff : ∀ f b, p.body? f = some b →
    ∀ e, e ∈ p.exitsOf f ↔ p.isExit e = true ∧ p.functionOf e = f
  start : ∀ f b, p.body? f = some b → ∃ s, p.entryOf f = [s] ∧ p.preds s = []
  mem_calls_iff : ∀ f g n, n ∈ p.callsTo f g ↔ p.functionOf n = f ∧ p.calleesAt n = [g]
  calls_ascending : ∀ f g, (p.callsTo f g).Pairwise (· < ·)

theorem WellFormed.exists_returnSite (h : p.WellFormed) (hn : p.isCall n = true) :
    ∃ r, p.icfg.returnSites n = [r] ∧ p.hasNode r = true ∧ p.functionOf r = p.functionOf n ∧
      ∀ f, r ∉ p.entryOf f := by
  have hnext : n + 1 ∈ p.succs n := next_mem_succs hn
  exact ⟨n + 1, succs_of_isCall hn, decide_eq_true (h.lt_size_of_succ hnext),
    h.procedural.functionOf_succ hnext, fun f => h.not_mem_entryOf_of_succ hnext⟩

theorem WellFormed.exists_start (h : p.WellFormed) (hb : p.body? f = some b) :
    ∃ s, p.entryOf f = [s] ∧ p.preds s = [] := by
  have hstart : p.entryOf f = [b.first] := by simp [entryOf, hb]
  refine ⟨b.first, hstart, List.eq_nil_iff_forall_not_mem.mpr (fun m hm => ?_)⟩
  exact h.not_mem_entryOf_of_succ (f := f) (h.mem_preds_iff.mp hm) (by simp [hstart])

theorem navigable_of_lift {text module : String} (h : lift text module = .ok p) :
    p.Navigable := by
  have hp := wellFormed_of_lift h
  exact {
    mem_succs_iff := fun m n => hp.mem_preds_iff.symm
    preds_ascending := fun n => pairwise_bodyOf.filter _
    returnSite := fun n hn => hp.exists_returnSite hn
    mem_exits_iff := fun f b hb e => hp.mem_exitsOf_iff
    start := fun f b hb => hp.exists_start hb
    mem_calls_iff := fun f g n => hp.mem_callsTo_iff
    calls_ascending := fun f g => pairwise_bodyOf.filter _ }

theorem tour_navigable :
    lift (String.intercalate "\n" tourLines) "t.c" = .ok tour ∧ tour.Navigable :=
  ⟨tour_lift, navigable_of_lift tour_lift⟩

end Interproc.Program
