import Interproc.Proofs.Program.Bodies
import Interproc.Proofs.Program.Sections
import Mathlib.Data.List.Nodup

namespace Interproc

inductive Tiles : List Span → Nat → Prop
  | nil : Tiles [] 0
  | snoc {spans : List Span} {first stop : Nat} (rest : Tiles spans first) (h : first < stop) :
      Tiles (spans ++ [⟨first, stop⟩]) stop

namespace Program

def Provides (p : Program) (f : Nat) : Value → Prop
  | .argument g k => g = f ∧ (p.parameter? f k).isSome = true
  | .result n => ∃ i, p.instructions[n]? = some i ∧ i.function = f ∧ i.output.isSome = true
  | .global k => k < p.globals.size
  | .constant _ => True

structure Fits (p : Program) (i : Instruction) : Prop where
  proper : i.Proper
  branch : i.op = .branch → i.targets ≠ []
  target : ∀ {b}, p.body? i.function = some b → ∀ n ∈ i.targets, n ∈ b ∧ n ≠ b.first
  operand : ∀ v ∈ i.inputs, p.Provides i.function v
  callee : ∀ {f}, i.callee = some f →
    ∃ g, p.functions[f]? = some g ∧ g.params.length ≤ i.inputs.length
  output : ∀ {g x}, p.functions[i.function]? = some g → i.output = some x →
    ∀ q ∈ g.params, q.name ≠ x

structure WellFormed (p : Program) : Prop extends p.Coherent where
  settled : p.openBody = none
  names_nodup : p.names.toList.Nodup
  functionNamed?_iff : ∀ {name f}, p.functionNamed? name = some f ↔
    ∃ g, p.functions[f]? = some g ∧ g.name = name
  params_nodup : ∀ {f : Nat} {g}, p.functions[f]? = some g → (g.params.map Parameter.name).Nodup
  output_unique : ∀ {m n : Nat} {i j x}, p.instructions[m]? = some i →
    p.instructions[n]? = some j → i.function = j.function → i.output = some x →
    j.output = some x → m = n
  tiled : ∃ bodies : List (Nat × Span), (∀ f b, (f, b) ∈ bodies ↔ p.body? f = some b) ∧
    (bodies.map Prod.fst).Nodup ∧ Tiles (bodies.map Prod.snd) p.size
  start_iff : ∀ {f b n}, p.body? f = some b → n ∈ b → (p.opAt? n = some .start ↔ n = b.first)
  ends : ∀ {f b}, p.body? f = some b →
    ∃ i, p.instructions[b.stop - 1]? = some i ∧ (i.op = .ret ∨ i.op = .branch)
  fits : ∀ {n : Nat} {i}, p.instructions[n]? = some i → p.Fits i

variable {p q : Program} {f g n : Nat} {is : List Instruction} {i : Instruction}

def Indexed (p : Program) : Prop := Inverts p.functionIndex p.names.toList

theorem indexed_iff : p.Indexed ↔
    ∀ {name f}, p.functionNamed? name = some f ↔ ∃ g, p.functions[f]? = some g ∧ g.name = name := by
  have hname : ∀ {name : String} {f : Nat}, p.names.toList[f]? = some name ↔
      ∃ g, p.functions[f]? = some g ∧ g.name = name := by
    simp [names]
  exact ⟨fun h {name f} => (h name f).trans hname, fun h name f => h.trans hname.symm⟩

theorem indexed_empty : Indexed ∅ := by
  have hnames : (∅ : Program).names.toList = [] := by
    simp [names, EmptyCollection.emptyCollection]
  rw [Indexed, hnames]
  exact Inverts.empty

theorem Indexed.congr (h : p.Indexed) (hsame : SameHeads p q) : q.Indexed := by
  rwa [Indexed, hsame.index, hsame.names]

theorem Indexed.withFunction (h : p.Indexed) {f : Function} (hnew : p.functionNamed? f.name = none) :
    (p.withFunction f).Indexed := by
  have hnames : (p.withFunction f).names.toList = p.names.toList ++ [f.name] := by simp [names]
  have hsize : p.names.toList.length = p.functions.size := by simp [names]
  rw [Indexed, hnames, functionIndex_withFunction, ← hsize]
  exact h.concat hnew

section Bodies

theorem getElem?_enclosed {k : Nat} (h : (enclosed f is)[k]? = some i) :
    k = 0 ∧ i = opening f ∨ (∃ j, k = j + 1 ∧ is[j]? = some i) ∨
      k = is.length + 1 ∧ i = closing f := by
  cases k with
  | zero => exact Or.inl ⟨rfl, (by simpa [enclosed] using h.symm)⟩
  | succ k =>
      rw [enclosed, List.cons_append, List.getElem?_cons_succ] at h
      rcases Nat.lt_or_ge k is.length with hk | hk
      · rw [List.getElem?_append_left hk] at h
        exact Or.inr (Or.inl ⟨k, rfl, h⟩)
      · rw [List.getElem?_append_right hk] at h
        split at h
        · simp at h
        · rw [List.getElem?_singleton] at h
          split at h
          · exact Or.inr (Or.inr ⟨by omega, (Option.some.inj h).symm⟩)
          · simp at h

theorem getElem?_enclosed_succ {k : Nat} (h : is[k]? = some i) :
    (enclosed f is)[k + 1]? = some i := by
  obtain ⟨hk, _⟩ := List.getElem?_eq_some_iff.mp h
  rwa [enclosed, List.cons_append, List.getElem?_cons_succ, List.getElem?_append_left hk]

theorem exists_getLast?_enclosed (f : Nat) (is : List Instruction) :
    ∃ i, (enclosed f is).getLast? = some i ∧ (i.op = .ret ∨ i.op = .branch) := by
  unfold enclosed
  split
  · rename_i hends
    obtain ⟨i, hi, hend⟩ := (Option.any_eq_true _ _).mp hends
    exact ⟨i, by simp [List.getLast?_cons, hi], of_decide_eq_true hend⟩
  · exact ⟨closing f, by rw [List.getLast?_append]; rfl, Or.inl rfl⟩

theorem function_of_mem_enclosed (hfunction : ∀ i ∈ is, i.function = f)
    (h : i ∈ enclosed f is) : i.function = f := by
  rcases mem_enclosed h with rfl | h | rfl
  · rfl
  · exact hfunction i h
  · rfl

theorem addsBody_addBody (h : p.Awaits f) (hstays : p.StaysWithin is)
    (hfunction : ∀ i ∈ is, i.function = f) : AddsBody p (p.addBody f is) f where
  kept hn := Array.getElem?_append_left hn
  undefined := h.undefined
  body := (body?_setBody h.defined).trans (by rw [if_pos rfl, size_addBody])
  others hg := (body?_setBody h.defined).trans (if_neg hg)
  grows := by
    have hlength := length_enclosed_le f is
    rw [size_addBody]
    omega
  inside {n} hle hlt := by
    obtain ⟨i, hi⟩ : ∃ i, (p.addBody f is).instructions[n]? = some i :=
      ⟨_, Array.getElem?_eq_getElem hlt⟩
    rw [functionOf_eq hi]
    rw [getElem?_addBody hle] at hi
    exact function_of_mem_enclosed hfunction (List.mem_of_getElem? hi)
  closed := by
    rw [size_addBody]
    exact strays_addBody hstays
  ends := by
    obtain ⟨i, hi, hend⟩ := exists_getLast?_enclosed f is
    have hback : (p.addBody f is).instructions.back? = some i := by
      simp [addBody, Array.back?_append, hi]
    have hnot : ¬ (i.op ≠ .ret ∧ i.op ≠ .branch) := fun h => hend.elim h.1 h.2
    simpa only [fallsThrough, hback, decide_eq_false_iff_not] using hnot

theorem getElem?_addBody_cases (h : (p.addBody f is).instructions[n]? = some i) :
    n < p.size ∧ p.instructions[n]? = some i ∨ n = p.size ∧ i = opening f ∨
      (∃ k, n = p.size + 1 + k ∧ is[k]? = some i) ∨
      p.size < n ∧ n + 1 = (p.addBody f is).size ∧ i = closing f := by
  rcases Nat.lt_or_ge n p.size with hlt | hle
  · exact Or.inl ⟨hlt, by rwa [addBody, Array.getElem?_append_left hlt] at h⟩
  · rw [getElem?_addBody hle] at h
    have hlast := (List.getElem?_eq_some_iff.mp h).1
    rcases getElem?_enclosed h with ⟨hn, rfl⟩ | ⟨k, hk, hi⟩ | ⟨hn, rfl⟩
    · exact Or.inr (Or.inl ⟨by omega, rfl⟩)
    · exact Or.inr (Or.inr (Or.inl ⟨k, by omega, hi⟩))
    · have hbound : (enclosed f is).length ≤ is.length + 2 := by
        unfold enclosed
        split <;> simp
      rw [size_addBody]
      exact Or.inr (Or.inr (Or.inr ⟨by omega, by omega, rfl⟩))

theorem getElem?_addBody_row {k : Nat} (h : is[k]? = some i) :
    (p.addBody f is).instructions[p.size + 1 + k]? = some i := by
  rw [getElem?_addBody (by omega), show p.size + 1 + k - p.size = k + 1 by omega]
  exact getElem?_enclosed_succ h

theorem getElem?_addBody_of_lt (h : n < p.size) :
    (p.addBody f is).instructions[n]? = p.instructions[n]? :=
  Array.getElem?_append_left h

end Bodies

section Rows

structure Suits (p : Program) (f : Nat) (is : List Instruction) : Prop where
  function : ∀ i ∈ is, i.function = f
  op_ne_start : ∀ i ∈ is, i.op ≠ .start
  stays : p.StaysWithin is
  fits : ∀ i ∈ is, (p.addBody f is).Fits i
  output_unique : ∀ {j k : Nat} {i i' x}, is[j]? = some i → is[k]? = some i' →
    i.output = some x → i'.output = some x → j = k

theorem provides_addBody {v : Value} (h : p.Provides g v) : (p.addBody f is).Provides g v := by
  cases v with
  | argument m k => exact ⟨h.1, by rw [sameHeads_addBody.parameter?_eq]; exact h.2⟩
  | result n =>
      obtain ⟨i, hi, hi'⟩ := h
      exact ⟨i, by rw [getElem?_addBody_of_lt (Array.getElem?_eq_some_iff.mp hi).1]; exact hi, hi'⟩
  | global k => exact h
  | constant c => trivial

theorem fits_of_bare (hproper : i.Proper) (hbranch : i.op ≠ .branch) (htargets : i.targets = [])
    (hinputs : i.inputs = []) (hcallee : i.callee = none) (houtput : i.output = none) :
    p.Fits i where
  proper := hproper
  branch h := absurd h hbranch
  target _ n hn := by simp [htargets] at hn
  operand v hv := by simp [hinputs] at hv
  callee h := by simp [hcallee] at h
  output _ h := by simp [houtput] at h

theorem Fits.addBody (h : p.Fits i) (hbody : (p.addBody f is).body? i.function = p.body? i.function) :
    (p.addBody f is).Fits i where
  proper := h.proper
  branch := h.branch
  target hb := h.target (hbody ▸ hb)
  operand v hv := provides_addBody (h.operand v hv)
  callee hm := by
    obtain ⟨g, hg, hle⟩ := h.callee hm
    obtain ⟨g', hg', _, hparams⟩ := sameHeads_addBody.symm.head hg
    exact ⟨g', hg', hparams ▸ hle⟩
  output hg hx := by
    obtain ⟨g', hg', _, hparams⟩ := sameHeads_addBody.head hg
    exact hparams ▸ h.output hg' hx

end Rows

namespace WellFormed

theorem function_ne (h : p.WellFormed) (hf : p.Awaits f) (hi : p.instructions[n]? = some i) :
    i.function ≠ f := by
  intro heq
  obtain ⟨b, hb, _⟩ := h.mem_body (Array.getElem?_eq_some_iff.mp hi).1
  simp [functionOf_eq hi, heq, hf.undefined] at hb

theorem fits_addBody (h : p.WellFormed) (hf : p.Awaits f) (his : p.Suits f is)
    (hi : (p.addBody f is).instructions[n]? = some i) : (p.addBody f is).Fits i := by
  have hadds := addsBody_addBody hf his.stays his.function
  rcases getElem?_addBody_cases hi with ⟨_, hold⟩ | ⟨_, rfl⟩ | ⟨k, _, hrow⟩ | ⟨_, _, rfl⟩
  · exact (h.fits hold).addBody (hadds.others (h.function_ne hf hold))
  · exact fits_of_bare ⟨rfl, fun _ => rfl, fun _ => rfl⟩ nofun rfl rfl rfl rfl
  · exact his.fits i (List.mem_of_getElem? hrow)
  · exact fits_of_bare ⟨rfl, fun _ => rfl, fun _ => rfl⟩ nofun rfl rfl rfl rfl

theorem of_output_addBody {x : String} (hi : (p.addBody f is).instructions[n]? = some i)
    (hx : i.output = some x) :
    p.instructions[n]? = some i ∨ ∃ k, n = p.size + 1 + k ∧ is[k]? = some i := by
  rcases getElem?_addBody_cases hi with ⟨_, hold⟩ | ⟨_, rfl⟩ | hrow | ⟨_, _, rfl⟩
  · exact Or.inl hold
  · exact nomatch hx
  · exact Or.inr hrow
  · exact nomatch hx

theorem output_unique_addBody (h : p.WellFormed) (hf : p.Awaits f) (his : p.Suits f is) {m : Nat}
    {j : Instruction} {x : String} (hi : (p.addBody f is).instructions[m]? = some i)
    (hj : (p.addBody f is).instructions[n]? = some j) (hsame : i.function = j.function)
    (hx : i.output = some x) (hy : j.output = some x) : m = n := by
  rcases of_output_addBody hi hx with hold | ⟨k, hk, hrow⟩ <;>
    rcases of_output_addBody hj hy with hold' | ⟨l, hl, hrow'⟩
  · exact h.output_unique hold hold' hsame hx hy
  · rw [his.function j (List.mem_of_getElem? hrow')] at hsame
    exact absurd hsame (h.function_ne hf hold)
  · rw [his.function i (List.mem_of_getElem? hrow)] at hsame
    exact absurd hsame.symm (h.function_ne hf hold')
  · rw [hk, hl, his.output_unique hrow hrow' hx hy]

theorem tiled_addBody (h : p.WellFormed) (hf : p.Awaits f) (his : p.Suits f is) :
    ∃ bodies : List (Nat × Span), (∀ g b, (g, b) ∈ bodies ↔ (p.addBody f is).body? g = some b) ∧
      (bodies.map Prod.fst).Nodup ∧ Tiles (bodies.map Prod.snd) (p.addBody f is).size := by
  have hadds := addsBody_addBody hf his.stays his.function
  obtain ⟨bodies, hmem, hnodup, htiles⟩ := h.tiled
  have hnew : ∀ b, (f, b) ∉ bodies := fun b hb => by
    have hbody := (hmem f b).mp hb
    rw [hf.undefined] at hbody
    exact nomatch hbody
  -- the new body is the last tile, and `f` had none before
  refine ⟨bodies ++ [(f, ⟨p.size, (p.addBody f is).size⟩)], fun g b => ?_, ?_, ?_⟩
  · rw [List.mem_append, List.mem_singleton, Prod.mk.injEq]
    by_cases hg : g = f
    · subst hg
      simp only [hnew, hadds.body, true_and, false_or, Option.some.injEq, eq_comm]
    · simp only [hmem, hadds.others hg, hg, false_and, or_false]
  · rw [List.map_append]
    refine List.nodup_append.mpr ⟨hnodup, List.nodup_singleton _, ?_⟩
    rintro m hm m' hm' rfl
    obtain ⟨⟨_, b⟩, hb, rfl⟩ := List.mem_map.mp hm
    obtain rfl : _ = f := List.mem_singleton.mp hm'
    exact hnew b hb
  · rw [List.map_append]
    exact htiles.snoc hadds.grows

theorem start_iff_addBody (h : p.WellFormed) (hf : p.Awaits f) (his : p.Suits f is) {b : Span}
    (hb : (p.addBody f is).body? g = some b) (hn : n ∈ b) :
    (p.addBody f is).opAt? n = some .start ↔ n = b.first := by
  rcases (addsBody_addBody hf his.stays his.function).body_cases hb with ⟨_, rfl⟩ | ⟨_, hb⟩
  · obtain ⟨i, hi⟩ : ∃ i, (p.addBody f is).instructions[n]? = some i :=
      ⟨_, Array.getElem?_eq_getElem hn.2⟩
    simp only [opAt?, hi, Option.map_some, Option.some.injEq]
    rcases getElem?_addBody_cases hi with ⟨hlt, _⟩ | ⟨rfl, rfl⟩ | ⟨k, rfl, hrow⟩ | ⟨hlt, _, rfl⟩
    · exact absurd hn.1 (Nat.not_le.mpr hlt)
    · exact iff_of_true rfl rfl
    · exact iff_of_false (his.op_ne_start i (List.mem_of_getElem? hrow)) (by omega)
    · exact iff_of_false (by simp [closing]) (Nat.ne_of_gt hlt)
  · rw [opAt?, getElem?_addBody_of_lt (Nat.lt_of_lt_of_le hn.2 (h.stop_le hb))]
    exact h.start_iff hb hn

theorem ends_addBody (h : p.WellFormed) (hf : p.Awaits f) (his : p.Suits f is) {b : Span}
    (hb : (p.addBody f is).body? g = some b) :
    ∃ i, (p.addBody f is).instructions[b.stop - 1]? = some i ∧ (i.op = .ret ∨ i.op = .branch) := by
  have hadds := addsBody_addBody hf his.stays his.function
  rcases hadds.body_cases hb with ⟨_, rfl⟩ | ⟨_, hb⟩
  · obtain ⟨i, hi, hend⟩ := exists_getLast?_enclosed f is
    have hlength := length_enclosed_le f is
    have hstop : p.size + (enclosed f is).length - 1 - p.size = (enclosed f is).length - 1 := by
      omega
    refine ⟨i, ?_, hend⟩
    rw [List.getLast?_eq_getElem?, ← hstop] at hi
    rwa [← getElem?_addBody (by omega), ← size_addBody] at hi
  · obtain ⟨i, hi, hend⟩ := h.ends hb
    exact ⟨i, by rw [getElem?_addBody_of_lt (Array.getElem?_eq_some_iff.mp hi).1]; exact hi, hend⟩

theorem addBody (h : p.WellFormed) (hf : p.Awaits f) (his : p.Suits f is) :
    (p.addBody f is).WellFormed := by
  have hindexed : (p.addBody f is).Indexed :=
    (indexed_iff.mpr h.functionNamed?_iff).congr sameHeads_addBody
  exact {
    toCoherent := (addsBody_addBody hf his.stays his.function).coherent h.toCoherent
    settled := rfl
    names_nodup := hindexed.nodup
    functionNamed?_iff := indexed_iff.mp hindexed
    params_nodup := fun hg => by
      obtain ⟨g', hg', _, hparams⟩ := sameHeads_addBody.head hg
      exact hparams ▸ h.params_nodup hg'
    output_unique := h.output_unique_addBody hf his
    tiled := h.tiled_addBody hf his
    start_iff := h.start_iff_addBody hf his
    ends := h.ends_addBody hf his
    fits := h.fits_addBody hf his }

end WellFormed

end Program

end Interproc
