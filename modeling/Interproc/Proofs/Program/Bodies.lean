import Interproc.Program.Builder
import Interproc.Program.Flow
import Interproc.Proofs.Solver.Lawful

namespace Interproc.Program

structure Coherent (p : Program) : Prop where
  mem_body : ∀ {n}, n < p.size → ∃ b, p.body? (p.functionOf n) = some b ∧ n ∈ b
  functionOf_of_mem : ∀ {f b n}, p.body? f = some b → n ∈ b → p.functionOf n = f
  first_mem : ∀ {f b}, p.body? f = some b → b.first ∈ b
  stop_le : ∀ {f b}, p.body? f = some b → b.stop ≤ p.size
  succ_mem : ∀ {n b n'}, p.body? (p.functionOf n) = some b → n ∈ b → n' ∈ p.succs n → n' ∈ b

variable {p q : Program} {f g n n' : Nat}

theorem lt_size_of_mem_succs (h : n' ∈ p.succs n) : n < p.size := by
  refine Nat.lt_of_not_le (fun hle => ?_)
  simp [succs, Array.getElem?_eq_none hle] at h

theorem lt_size_of_opAt? {op : Op} (h : p.opAt? n = some op) : n < p.size := by
  refine Nat.lt_of_not_le (fun hle => ?_)
  simp [opAt?, Array.getElem?_eq_none hle] at h

theorem lt_size_of_isCall (h : p.isCall n = true) : n < p.size := by
  have hop : p.opAt? n = some .call := by simpa [isCall] using h
  exact lt_size_of_opAt? hop

theorem functionOf_eq {i : Instruction} (hi : p.instructions[n]? = some i) :
    p.functionOf n = i.function := by
  simp [functionOf, hi]

theorem next_mem_succs (h : p.isCall n = true) : n + 1 ∈ p.succs n := by
  cases hi : p.instructions[n]? with
  | none => simp [isCall, opAt?, hi] at h
  | some i =>
      have hop : i.op = .call := by simpa [isCall, opAt?, hi] using h
      simp [succs, hi, Instruction.succs, hop]

theorem mem_entryOf : n ∈ p.entryOf f ↔ ∃ b, p.body? f = some b ∧ n = b.first := by
  unfold entryOf
  cases p.body? f <;> simp

theorem mem_bodyOf : n ∈ p.bodyOf f ↔ ∃ b, p.body? f = some b ∧ n ∈ b := by
  unfold bodyOf
  cases p.body? f <;> simp

namespace Coherent

theorem mem_bodyOf_functionOf (h : p.Coherent) (hn : n < p.size) : n ∈ p.bodyOf (p.functionOf n) :=
  mem_bodyOf.mpr (h.mem_body hn)

theorem functionOf_of_mem_bodyOf (h : p.Coherent) (hn : n ∈ p.bodyOf f) : p.functionOf n = f := by
  obtain ⟨b, hb, hmem⟩ := mem_bodyOf.mp hn
  exact h.functionOf_of_mem hb hmem

theorem lt_size_of_mem_entryOf (h : p.Coherent) (hn : n ∈ p.entryOf f) : n < p.size := by
  obtain ⟨b, hb, rfl⟩ := mem_entryOf.mp hn
  exact Nat.lt_of_lt_of_le (h.first_mem hb).2 (h.stop_le hb)

theorem lt_size_of_succ (h : p.Coherent) (hn' : n' ∈ p.succs n) : n' < p.size := by
  obtain ⟨b, hb, hn⟩ := h.mem_body (lt_size_of_mem_succs hn')
  exact Nat.lt_of_lt_of_le (h.succ_mem hb hn hn').2 (h.stop_le hb)

theorem function_eq_iff (h : p.Coherent) {b : Span} {i : Instruction} (hb : p.body? f = some b)
    (hi : p.instructions[n]? = some i) : i.function = f ↔ n ∈ b := by
  rw [← functionOf_eq hi]
  constructor
  · rintro rfl
    obtain ⟨b', hb', hn⟩ := h.mem_body (Array.getElem?_eq_some_iff.mp hi).1
    exact Option.some.inj (hb'.symm.trans hb) ▸ hn
  · exact h.functionOf_of_mem hb

theorem procedural (h : p.Coherent) : p.icfg.Procedural where
  functionOf_start {m n} hn := by
    obtain ⟨b, hb, rfl⟩ := mem_entryOf.mp hn
    exact h.functionOf_of_mem hb (h.first_mem hb)
  functionOf_exit hn := h.functionOf_of_mem_bodyOf (List.mem_filter.mp hn).1
  start_unique {m n n'} hn hn' := by
    obtain ⟨b, hb, rfl⟩ := mem_entryOf.mp hn
    obtain ⟨b', hb', rfl⟩ := mem_entryOf.mp hn'
    rw [Option.some.inj (hb.symm.trans hb')]
  functionOf_succ {n n'} hn' := by
    obtain ⟨b, hb, hmem⟩ := h.mem_body (lt_size_of_mem_succs hn')
    exact h.functionOf_of_mem hb (h.succ_mem hb hmem hn')
  functionOf_returnSite {n n'} hn' := by
    obtain ⟨b, hb, hmem⟩ := h.mem_body (lt_size_of_mem_succs hn')
    exact h.functionOf_of_mem hb (h.succ_mem hb hmem hn')
  mem_exits {n} hexit := by
    have hop : p.opAt? n = some .ret := by simpa [icfg, isExit] using hexit
    have hmem := h.mem_bodyOf_functionOf (lt_size_of_opAt? hop)
    exact List.mem_filter.mpr ⟨hmem, by simp [hop]⟩
  isCall_of_isExit {n} hexit := by
    have hop : p.opAt? n = some .ret := by simpa [icfg, isExit] using hexit
    simp [icfg, isCall, hop]

end Coherent

/-- `q` is `p` with a body for `f` after its last instruction, which control flow does not leave. -/
structure AddsBody (p q : Program) (f : Nat) : Prop where
  kept : ∀ {n}, n < p.size → q.instructions[n]? = p.instructions[n]?
  undefined : p.body? f = none
  body : q.body? f = some ⟨p.size, q.size⟩
  others : ∀ {g}, g ≠ f → q.body? g = p.body? g
  grows : p.size < q.size
  inside : ∀ {n}, p.size ≤ n → n < q.size → q.functionOf n = f
  closed : q.strays ⟨p.size, q.size⟩ = []
  ends : q.fallsThrough = false

namespace AddsBody

theorem functionOf_of_lt (h : AddsBody p q f) (hn : n < p.size) :
    q.functionOf n = p.functionOf n := by
  simp only [functionOf, h.kept hn]

theorem succs_of_lt (h : AddsBody p q f) (hn : n < p.size) : q.succs n = p.succs n := by
  simp only [succs, h.kept hn]

theorem succ_mem (h : AddsBody p q f) (hn : n ∈ (⟨p.size, q.size⟩ : Span)) (hn' : n' ∈ q.succs n) :
    n' ∈ (⟨p.size, q.size⟩ : Span) := by
  have hlt : n < q.size := hn.2
  obtain ⟨i, hi⟩ : ∃ i, q.instructions[n]? = some i := ⟨_, Array.getElem?_eq_getElem hlt⟩
  have htargets : ∀ t ∈ i.targets, t ∈ (⟨p.size, q.size⟩ : Span) := by
    have hstays := List.filter_eq_nil_iff.mp h.closed n (Span.mem_toList.mpr hn)
    simpa [hi] using hstays
  have hnext : i.op ≠ .ret → i.op ≠ .branch → n + 1 ∈ (⟨p.size, q.size⟩ : Span) := by
    intro hret hbranch
    refine ⟨Nat.le_succ_of_le hn.1, Nat.lt_of_le_of_ne hlt (fun hlast => ?_)⟩
    have hback : q.instructions.back? = some i := by
      rw [Array.back?_eq_getElem?, ← hi]
      congr 1
      exact Nat.sub_eq_of_eq_add hlast.symm
    have hends := h.ends
    simp [fallsThrough, hback, hret, hbranch] at hends
  simp only [succs, hi, Instruction.succs] at hn'
  split at hn'
  · simp at hn'
  · exact htargets n' hn'
  · rename_i hret hbranch
    rw [List.mem_singleton.mp hn']
    exact hnext hret hbranch

theorem body_cases (h : AddsBody p q f) {b : Span} (hb : q.body? g = some b) :
    g = f ∧ b = ⟨p.size, q.size⟩ ∨ g ≠ f ∧ p.body? g = some b := by
  by_cases hg : g = f
  · subst hg
    exact Or.inl ⟨rfl, Option.some.inj (hb.symm.trans h.body)⟩
  · exact Or.inr ⟨hg, by rwa [← h.others hg]⟩

theorem coherent (h : AddsBody p q f) (hp : p.Coherent) : q.Coherent where
  mem_body {n} hn := by
    by_cases hlt : n < p.size
    · obtain ⟨b, hb, hmem⟩ := hp.mem_body hlt
      refine ⟨b, ?_, hmem⟩
      rw [h.functionOf_of_lt hlt, h.others, hb]
      intro heq
      rw [heq, h.undefined] at hb
      simp at hb
    · rw [h.inside (Nat.le_of_not_lt hlt) hn]
      exact ⟨_, h.body, Nat.le_of_not_lt hlt, hn⟩
  functionOf_of_mem {g b n} hb hn := by
    rcases h.body_cases hb with ⟨rfl, rfl⟩ | ⟨_, hb⟩
    · exact h.inside hn.1 hn.2
    · rw [h.functionOf_of_lt (Nat.lt_of_lt_of_le hn.2 (hp.stop_le hb))]
      exact hp.functionOf_of_mem hb hn
  first_mem hb := by
    rcases h.body_cases hb with ⟨_, rfl⟩ | ⟨_, hb⟩
    · exact ⟨Nat.le_refl _, h.grows⟩
    · exact hp.first_mem hb
  stop_le hb := by
    rcases h.body_cases hb with ⟨_, rfl⟩ | ⟨_, hb⟩
    · exact Nat.le_refl _
    · exact Nat.le_trans (hp.stop_le hb) (Nat.le_of_lt h.grows)
  succ_mem {n b n'} hb hn hn' := by
    rcases h.body_cases hb with ⟨_, rfl⟩ | ⟨_, hb⟩
    · exact h.succ_mem hn hn'
    · have hlt := Nat.lt_of_lt_of_le hn.2 (hp.stop_le hb)
      rw [h.functionOf_of_lt hlt] at hb
      exact hp.succ_mem hb hn (h.succs_of_lt hlt ▸ hn')

end AddsBody

end Interproc.Program
