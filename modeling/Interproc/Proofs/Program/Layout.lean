import Interproc.Proofs.Program.Steps
import Interproc.Proofs.Program.WellFormed

namespace Interproc.Program

variable {p q : Program} {f g n : Nat} {b : Span} {s : BuildStep} {r : Except BuildFault Unit}

def Closed (p : Program) (f : Nat) (b : Span) : Prop := p.body? f = some b ∧ p.openBody ≠ some f

def frontier (p : Program) : Nat := ((p.openBody.bind p.body?).map Span.first).getD p.size

/-- Closed bodies lie end to end up to the frontier and the open body beyond it, and each
instruction names the function whose body it is in. -/
structure Layout (p : Program) : Prop where
  tiled : ∃ bodies : List (Nat × Span), (∀ f b, (f, b) ∈ bodies ↔ p.Closed f b) ∧
    (bodies.map Prod.fst).Nodup ∧ Tiles (bodies.map Prod.snd) p.frontier
  opened : ∀ {f}, p.openBody = some f → (p.body? f).isSome = true ∧ p.frontier < p.size
  owned : ∀ {n}, n < p.size → (∃ b, p.Closed (p.functionOf n) b ∧ n ∈ b) ∨
    p.openBody = some (p.functionOf n) ∧ p.frontier ≤ n
  starts : ∀ {f b}, p.body? f = some b → p.opAt? b.first = some .start
  ends : ∀ {f b}, p.Closed f b →
    p.opAt? (b.stop - 1) = some .ret ∨ p.opAt? (b.stop - 1) = some .branch

theorem frontier_of_open (hopen : p.openBody = some f) (hb : p.body? f = some b) :
    p.frontier = b.first := by
  simp [frontier, hopen, hb]

theorem frontier_of_settled (h : p.openBody = none) : p.frontier = p.size := by
  simp [frontier, h]

theorem stop_le_of_tiles {spans : List Span} {stop : Nat} (h : Tiles spans stop) (hb : b ∈ spans) :
    b.stop ≤ stop := by
  induction h with
  | nil => exact absurd hb List.not_mem_nil
  | snoc _ hlt ih =>
      rcases List.mem_append.mp hb with hb | hb
      · exact Nat.le_trans (ih hb) (Nat.le_of_lt hlt)
      · exact Nat.le_of_eq (congrArg Span.stop (List.mem_singleton.mp hb))

def Precedes (p q : Program) : Prop := ∀ {n}, n < p.size → q.instructions[n]? = p.instructions[n]?

theorem Precedes.functionOf (h : p.Precedes q) (hn : n < p.size) :
    q.functionOf n = p.functionOf n := by
  simp only [Program.functionOf, h hn]

theorem Precedes.opAt? (h : p.Precedes q) {op : Op} (hn : p.opAt? n = some op) :
    q.opAt? n = some op := by
  rw [← hn]
  simp only [Program.opAt?, h (lt_size_of_opAt? hn)]

theorem precedes_push {i : Instruction} :
    p.Precedes { p with instructions := p.instructions.push i } := fun {n} hn => by
  rw [Array.getElem?_push, if_neg (show n ≠ p.instructions.size from Nat.ne_of_lt hn)]

theorem precedes_sealed : p.Precedes (p.sealed f) := fun {n} hn => by
  unfold sealed
  dsimp only
  split
  · exact precedes_push hn
  · rfl

theorem size_le_sealed : p.size ≤ (p.sealed f).size := by
  unfold sealed
  dsimp only
  split
  · simp [size]
  · exact Nat.le_refl _

theorem defined_of_body (h : p.body? f = some b) : f < p.functions.size := by
  obtain ⟨g, hg, _⟩ := Option.bind_eq_some_iff.mp h
  exact (Array.getElem?_eq_some_iff.mp hg).1

theorem sealed_cases : p.fallsThrough = false ∧ (p.sealed f).instructions = p.instructions ∨
    (p.sealed f).instructions = p.instructions.push (closing f) := by
  unfold sealed
  dsimp only
  split
  · exact Or.inr rfl
  · rename_i h
    exact Or.inl ⟨(Bool.not_eq_true _).mp h, rfl⟩

theorem functionOf_sealed (hle : p.size ≤ n) (hn : n < (p.sealed f).size) :
    (p.sealed f).functionOf n = f := by
  rcases sealed_cases (p := p) (f := f) with ⟨_, heq⟩ | heq
  · rw [size, heq] at hn
    exact absurd hn (Nat.not_lt.mpr hle)
  · rw [size, heq, Array.size_push] at hn
    obtain rfl : n = p.size := Nat.le_antisymm (Nat.le_of_lt_succ hn) hle
    simp [functionOf, heq, size, closing]

theorem ends_sealed (hpos : 0 < p.size) :
    (p.sealed f).opAt? ((p.sealed f).size - 1) = some .ret ∨
      (p.sealed f).opAt? ((p.sealed f).size - 1) = some .branch := by
  rcases sealed_cases (p := p) (f := f) with ⟨hends, heq⟩ | heq
  · obtain ⟨i, hi⟩ : ∃ i, p.instructions[p.size - 1]? = some i :=
      ⟨_, Array.getElem?_eq_getElem (Nat.sub_lt hpos Nat.one_pos)⟩
    have hback : p.instructions.back? = some i := Array.back?_eq_getElem?.trans hi
    have hop : i.op = .ret ∨ i.op = .branch := by
      simpa [fallsThrough, hback, or_iff_not_imp_left] using hends
    have hlast : (p.sealed f).size - 1 = p.size - 1 := by rw [size, heq, size]
    simpa [opAt?, hlast, heq, hi] using hop
  · simp [opAt?, heq, size, closing]

theorem sameHeads_sealed : SameHeads p (p.sealed f) := by
  unfold sealed
  dsimp only
  split <;> exact ⟨rfl, rfl, rfl, rfl⟩

theorem openBody_sealed : (p.sealed f).openBody = none := by
  unfold sealed
  dsimp only
  split <;> rfl

theorem body?_addFunction {name module : String} {params : List Parameter} :
    body? (p.withFunction ⟨name, module, params, none⟩) = p.body? := by
  funext f
  simp only [body?]
  rw [functions_withFunction, Array.getElem?_push]
  split
  · rename_i hf
    subst hf
    simp
  · rfl

theorem body?_within (hf : p.Awaits f) :
    (p.within f []).body? g = if g = f then some ⟨p.size, p.size⟩ else p.body? g :=
  body?_setBody hf.defined

theorem body?_finished (hb : p.body? f = some b) : (p.finished f b).body? g =
    if g = f then some ⟨b.first, (p.finished f b).size⟩ else p.body? g := by
  rw [← body?_sealed (p := p) (f := f) (g := g)]
  exact body?_setBody (defined_of_body (body?_sealed.trans hb))

theorem closed_within (hf : p.Awaits f) : (p.within f []).Closed g b ↔ p.Closed g b := by
  by_cases hg : g = f
  · subst hg
    exact iff_of_false (fun h => h.2 rfl) (fun h => by simpa [hf.undefined] using h.1)
  · have hne : f ≠ g := fun heq => hg heq.symm
    have hopen : (p.within f []).openBody = some f := rfl
    simp [Closed, body?_within hf, hg, hf.settled, hopen, hne]

theorem closed_finished {b' : Span} (hopen : p.openBody = some f) (hb : p.body? f = some b) :
    (p.finished f b).Closed g b' ↔
      g = f ∧ b' = ⟨b.first, (p.finished f b).size⟩ ∨ p.Closed g b' := by
  have hsettled : (p.finished f b).openBody = none := openBody_sealed
  by_cases hg : g = f
  · subst hg
    simp [Closed, body?_finished hb, hsettled, hopen, eq_comm]
  · have hne : f ≠ g := fun heq => hg heq.symm
    simp [Closed, body?_finished hb, hg, hsettled, hopen, hne]

namespace Layout

theorem empty : (∅ : Program).Layout where
  tiled := ⟨[], fun f b => by simp [Closed, body?, EmptyCollection.emptyCollection],
    List.nodup_nil, .nil⟩
  opened h := nomatch h
  owned hn := absurd hn (Nat.not_lt_zero _)
  starts hb := by simp [body?, EmptyCollection.emptyCollection] at hb
  ends hb := by simp [Closed, body?, EmptyCollection.emptyCollection] at hb

theorem frontier_le (h : p.Layout) : p.frontier ≤ p.size := by
  cases hopen : p.openBody with
  | none => exact Nat.le_of_eq (frontier_of_settled hopen)
  | some f => exact Nat.le_of_lt (h.opened hopen).2

theorem stop_le (h : p.Layout) (hb : p.Closed f b) : b.stop ≤ p.frontier := by
  obtain ⟨bodies, hmem, _, htiles⟩ := h.tiled
  exact stop_le_of_tiles htiles (List.mem_map_of_mem ((hmem f b).mpr hb))

theorem congr (h : p.Layout) (hopen : q.openBody = p.openBody) (hbody : q.body? = p.body?)
    (hsize : q.size = p.size) (hop : q.opAt? = p.opAt?) (hfunction : q.functionOf = p.functionOf) :
    q.Layout := by
  have hclosed : q.Closed = p.Closed := by
    unfold Closed
    rw [hopen, hbody]
  have hfrontier : q.frontier = p.frontier := by rw [frontier, frontier, hopen, hbody, hsize]
  constructor
  case tiled =>
    rw [hclosed, hfrontier]
    exact h.tiled
  case opened =>
    rw [hopen, hbody, hfrontier, hsize]
    exact h.opened
  case owned =>
    rw [hclosed, hopen, hfrontier, hsize, hfunction]
    exact h.owned
  case starts =>
    rw [hbody, hop]
    exact h.starts
  case ends =>
    rw [hclosed, hop]
    exact h.ends

theorem addFunction (h : p.Layout) (name module : String) (params : List Parameter) :
    Layout (p.withFunction ⟨name, module, params, none⟩) :=
  h.congr rfl body?_addFunction rfl rfl rfl

theorem setTargets (h : p.Layout) {i : Instruction} (hi : p.instructions[n]? = some i)
    (ts : List Nat) : Layout { p with
      instructions := p.instructions.setIfInBounds n { i with targets := ts } } := by
  have hget : ∀ {α : Type} (c : Instruction → α) (m : Nat), c { i with targets := ts } = c i →
      (p.instructions.setIfInBounds n { i with targets := ts })[m]?.map c =
        p.instructions[m]?.map c := by
    intro α c m hc
    rw [Array.getElem?_setIfInBounds]
    split
    · rename_i hm
      subst hm
      split
      · simp [hi, hc]
      · rename_i hlt
        exact absurd (Array.getElem?_eq_some_iff.mp hi).1 hlt
    · rfl
  refine h.congr rfl rfl ?_ (funext fun m => hget _ m rfl) (funext fun m => ?_)
  · exact Array.size_setIfInBounds
  · exact congrArg (fun x => x.getD 0) (hget Instruction.function m rfl)

theorem beginBody (h : p.Layout) (hf : p.Awaits f) : (p.within f []).Layout := by
  have hbody : (p.within f []).body? f = some ⟨p.size, p.size⟩ :=
    (body?_within hf).trans (if_pos rfl)
  have hsize : (p.within f []).size = p.size + 1 := size_within
  have hkept : p.Precedes (p.within f []) := Array.getElem?_append_left
  have hfrontier : (p.within f []).frontier = p.size := frontier_of_open rfl hbody
  have hlast : (p.within f []).instructions[p.size]? = some (opening f) := by
    simp [within, size]
  constructor
  case tiled =>
    obtain ⟨bodies, hmem, hnodup, htiles⟩ := h.tiled
    rw [frontier_of_settled hf.settled] at htiles
    exact ⟨bodies, fun g b => (hmem g b).trans (closed_within hf).symm, hnodup,
      hfrontier ▸ htiles⟩
  case opened =>
    intro g hopen
    obtain rfl : f = g := Option.some.inj hopen
    rw [hbody, hfrontier, hsize]
    exact ⟨rfl, Nat.lt_succ_self _⟩
  case owned =>
    intro n hn
    rcases Nat.lt_or_ge n p.size with hlt | hle
    · rw [hkept.functionOf hlt]
      obtain ⟨b, hb, hmem⟩ : ∃ b, p.Closed (p.functionOf n) b ∧ n ∈ b :=
        (h.owned hlt).resolve_right (fun hopen => by simp [hf.settled] at hopen)
      exact Or.inl ⟨b, (closed_within hf).mpr hb, hmem⟩
    · obtain rfl : n = p.size := by omega
      have hfunction : (p.within f []).functionOf p.size = f := by simp [functionOf, hlast, opening]
      exact Or.inr ⟨congrArg some hfunction.symm, Nat.le_of_eq hfrontier⟩
  case starts =>
    intro g b hb
    rw [body?_within hf] at hb
    split at hb
    · obtain rfl := Option.some.inj hb
      simp [opAt?, hlast, opening]
    · exact hkept.opAt? (h.starts hb)
  case ends =>
    intro g b hb
    exact (h.ends ((closed_within hf).mp hb)).imp hkept.opAt? hkept.opAt?

theorem push (h : p.Layout) {i : Instruction} (hopen : p.openBody = some f) (hi : i.function = f) :
    Layout { p with instructions := p.instructions.push i } := by
  let q : Program := { p with instructions := p.instructions.push i }
  obtain ⟨hbegun, hlt⟩ := h.opened hopen
  obtain ⟨b, hb⟩ := Option.isSome_iff_exists.mp hbegun
  have hsize : q.size = p.size + 1 := Array.size_push ..
  have hkept : p.Precedes q := precedes_push
  have hfrontier : q.frontier = p.frontier :=
    (frontier_of_open (p := q) hopen hb).trans (frontier_of_open hopen hb).symm
  constructor
  case tiled =>
    obtain ⟨bodies, hmem, hnodup, htiles⟩ := h.tiled
    exact ⟨bodies, hmem, hnodup, hfrontier.symm ▸ htiles⟩
  case opened =>
    intro g hg
    exact ⟨(h.opened hg).1, hfrontier.symm ▸ hsize.symm ▸ Nat.lt_succ_of_lt hlt⟩
  case owned =>
    intro n hn
    rcases Nat.lt_or_ge n p.size with hold | hnew
    · rw [show Program.functionOf _ n = p.functionOf n from hkept.functionOf hold]
      exact (h.owned hold).imp_right (fun howned => ⟨howned.1, hfrontier ▸ howned.2⟩)
    · have hn : n < p.size + 1 := hsize ▸ hn
      obtain rfl : n = p.size := by omega
      have hfunction : q.functionOf p.size = f := by simp [q, functionOf, size, hi]
      exact Or.inr ⟨hopen.trans (congrArg some hfunction.symm), hfrontier ▸ Nat.le_of_lt hlt⟩
  case starts =>
    intro g b hb
    exact hkept.opAt? (h.starts hb)
  case ends =>
    intro g b hb
    exact (h.ends hb).imp hkept.opAt? hkept.opAt?

theorem endBody (h : p.Layout) (hopen : p.openBody = some f) (hb : p.body? f = some b) :
    (p.finished f b).Layout := by
  let q := p.finished f b
  have hfrontier := frontier_of_open hopen hb
  have hlt : b.first < p.size := hfrontier ▸ (h.opened hopen).2
  have hkept : p.Precedes q := precedes_sealed
  have hsize : p.size ≤ q.size := size_le_sealed
  have hsettled : q.openBody = none := openBody_sealed
  have hnow : q.Closed f ⟨b.first, q.size⟩ := (closed_finished hopen hb).mpr (Or.inl ⟨rfl, rfl⟩)
  constructor
  case tiled =>
    obtain ⟨bodies, hmem, hnodup, htiles⟩ := h.tiled
    have hnew : ∀ b', (f, b') ∉ bodies := fun b' hb' => ((hmem f b').mp hb').2 hopen
    refine ⟨bodies ++ [(f, ⟨b.first, q.size⟩)], fun g b' => ?_, ?_, ?_⟩
    · rw [List.mem_append, List.mem_singleton, Prod.mk.injEq, hmem, or_comm]
      exact (closed_finished hopen hb).symm
    · rw [List.map_append]
      refine List.nodup_append.mpr ⟨hnodup, List.nodup_singleton _, ?_⟩
      rintro m hm m' hm' rfl
      obtain ⟨⟨_, b'⟩, hb', rfl⟩ := List.mem_map.mp hm
      obtain rfl : _ = f := List.mem_singleton.mp hm'
      exact hnew b' hb'
    · rw [List.map_append, frontier_of_settled hsettled]
      exact (hfrontier ▸ htiles).snoc (Nat.lt_of_lt_of_le hlt hsize)
  case opened =>
    intro g hg
    exact absurd (hsettled.symm.trans hg) nofun
  case owned =>
    intro n hn
    rcases Nat.lt_or_ge n p.size with hold | hnew
    · rw [show Program.functionOf _ n = p.functionOf n from hkept.functionOf hold]
      rcases h.owned hold with ⟨b', hb', hmem⟩ | ⟨howner, hle⟩
      · exact Or.inl ⟨b', (closed_finished hopen hb).mpr (Or.inr hb'), hmem⟩
      · -- an instruction of the open body, which has ended now
        obtain rfl := Option.some.inj (hopen.symm.trans howner)
        exact Or.inl ⟨_, hnow, hfrontier ▸ hle, hn⟩
    · rw [show (p.finished f b).functionOf n = f from functionOf_sealed hnew hn]
      exact Or.inl ⟨_, hnow, Nat.le_of_lt (Nat.lt_of_lt_of_le hlt hnew), hn⟩
  case starts =>
    intro g b' hb'
    rw [body?_finished hb] at hb'
    split at hb'
    · obtain rfl := Option.some.inj hb'
      exact hkept.opAt? (show p.opAt? b.first = some .start from h.starts hb)
    · exact hkept.opAt? (h.starts hb')
  case ends =>
    intro g b' hb'
    rcases (closed_finished hopen hb).mp hb' with ⟨_, rfl⟩ | hold
    · exact ends_sealed (Nat.zero_lt_of_lt hlt)
    · exact (h.ends hold).imp hkept.opAt? hkept.opAt?

end Layout

end Interproc.Program
