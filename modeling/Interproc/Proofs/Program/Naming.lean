import Interproc.Program.Query
import Interproc.Proofs.Program.Carried
import Interproc.Proofs.Program.Resolved
import Interproc.Proofs.Text.Decimal
import Interproc.Taint.Report

namespace Interproc

open Source Text

section Lookups

variable {α : Type} [DecidableEq α] {xs : List α} {x : α} {k : Nat}

theorem idxOf?_eq_some_iff_of_nodup (h : xs.Nodup) : xs.idxOf? x = some k ↔ xs[k]? = some x := by
  rw [List.idxOf?_eq_some_iff]
  constructor
  · rintro ⟨hk, heq, _⟩
    rw [List.getElem?_eq_getElem hk, heq]
  · intro hx
    obtain ⟨hk, heq⟩ := List.getElem?_eq_some_iff.mp hx
    refine ⟨hk, heq, fun j hj hfirst => ?_⟩
    have hlt := Nat.lt_trans hj hk
    have hsame : xs[j]? = xs[k]? := by rw [hx, List.getElem?_eq_getElem hlt, hfirst]
    exact absurd ((List.getElem?_inj hlt h).mp hsame) (Nat.ne_of_lt hj)

theorem findIdx?_name_iff {params : List Parameter} (h : (params.map Parameter.name).Nodup)
    {name : String} : params.findIdx? (fun q => q.name == name) = some k ↔
      ∃ q, params[k]? = some q ∧ q.name = name := by
  have hmap : params.findIdx? (fun q => q.name == name) =
      (params.map Parameter.name).idxOf? name := by
    rw [List.idxOf?, List.findIdx?_map]
    rfl
  rw [hmap, idxOf?_eq_some_iff_of_nodup h, List.getElem?_map, Option.map_eq_some_iff]

end Lookups

namespace Program

variable {p : Program} {f n : Nat} {b : Span} {v : Value} {t x : String}

section Named

theorem valueNamed?_percent :
    p.valueNamed? f ("%" ++ x) = p.functions[f]?.map (fun g => p.localNamed? f g x) := by
  have htext : ("%" ++ x).toList = '%' :: x.toList := by simp
  rw [valueNamed?, htext]
  simp only [String.ofList_toList]

theorem valueNamed?_at :
    p.valueNamed? f ("@" ++ x) = some ((p.globals.indexOf? x).map Value.global) := by
  have htext : ("@" ++ x).toList = '@' :: x.toList := by simp
  rw [valueNamed?, htext]
  simp only [String.ofList_toList]

theorem exists_sign_of_valueNamed? (h : p.valueNamed? f t = some (some v)) :
    (∃ x, t = "%" ++ x) ∨ ∃ x, t = "@" ++ x := by
  have hsign : ∀ {c cs}, t.toList = c :: cs → t = String.ofList [c] ++ String.ofList cs := by
    intro c cs htext
    rw [← String.ofList_append, List.singleton_append, ← htext, String.ofList_toList]
  unfold valueNamed? at h
  split at h
  · rename_i htext
    exact Or.inr ⟨_, hsign htext⟩
  · rename_i htext
    exact Or.inl ⟨_, hsign htext⟩
  · exact nomatch Option.some.inj h

theorem valueNamed?_at_iff :
    p.valueNamed? f ("@" ++ x) = some (some v) ↔ ∃ k, p.globals.get? k = some x ∧ v = .global k := by
  simp only [valueNamed?_at, Option.some.injEq, Option.map_eq_some_iff,
    Interned.indexOf?_eq_some_iff, @eq_comm _ (Value.global _)]

theorem WellFormed.find?_output_iff (h : p.WellFormed) (hb : p.body? f = some b) :
    b.toList.find? (fun n => p.instructions[n]?.any (fun i => i.output == some x)) = some n ↔
      ∃ i, p.instructions[n]? = some i ∧ i.function = f ∧ i.output = some x := by
  have hassigns : ∀ n : Nat, p.instructions[n]?.any (fun i => i.output == some x) = true ↔
      ∃ i, p.instructions[n]? = some i ∧ i.output = some x := fun n => by
    simp [Option.any_eq_true]
  have hfound : ∀ {n}, b.toList.find?
      (fun n => p.instructions[n]?.any (fun i => i.output == some x)) = some n →
        ∃ i, p.instructions[n]? = some i ∧ i.function = f ∧ i.output = some x := by
    intro n hn
    have hmem := Span.mem_toList.mp (List.mem_of_find?_eq_some hn)
    have hany := List.find?_some (p := fun n : Nat => p.instructions[n]?.any _) hn
    obtain ⟨i, hi, hx⟩ := (hassigns n).mp hany
    exact ⟨i, hi, (h.function_eq_iff hb hi).mpr hmem, hx⟩
  refine ⟨hfound, fun ⟨i, hi, hfunction, hx⟩ => ?_⟩
  have hmem := (h.function_eq_iff hb hi).mp hfunction
  have hsome := List.find?_isSome (p := fun n : Nat => p.instructions[n]?.any _) |>.mpr
    ⟨n, Span.mem_toList.mpr hmem, (hassigns n).mpr ⟨i, hi, hx⟩⟩
  obtain ⟨m, hm⟩ := Option.isSome_iff_exists.mp hsome
  obtain ⟨j, hj, hfunction', hx'⟩ := hfound hm
  rw [hm, h.output_unique hj hi (hfunction'.trans hfunction.symm) hx' hx]

theorem WellFormed.valueNamed?_percent_iff (h : p.WellFormed) (hb : p.body? f = some b) :
    p.valueNamed? f ("%" ++ x) = some (some v) ↔
      (∃ k q, p.parameter? f k = some q ∧ q.name = x ∧ v = .argument f k) ∨
        ∃ n i, p.instructions[n]? = some i ∧ i.function = f ∧ i.output = some x ∧ v = .result n := by
  obtain ⟨g, hg, hbody⟩ := Option.bind_eq_some_iff.mp hb
  have hparams : ∀ k, p.parameter? f k = g.params[k]? := fun k => by simp [parameter?, hg]
  have hname : ∀ k, g.params.findIdx? (fun q => q.name == x) = some k ↔
      ∃ q, g.params[k]? = some q ∧ q.name = x := fun k => findIdx?_name_iff (h.params_nodup hg)
  simp only [valueNamed?_percent, hg, Option.map_some, Option.some.injEq, localNamed?, hbody, hparams]
  split
  · rename_i k hk
    obtain ⟨q, hq, hx⟩ := (hname k).mp hk
    rw [Option.some.injEq]
    constructor
    · rintro rfl
      exact Or.inl ⟨k, q, hq, hx, rfl⟩
    · rintro (⟨k', q', hq', hx', rfl⟩ | ⟨n, i, hi, rfl, hx', rfl⟩)
      · rw [Option.some.inj (hk.symm.trans ((hname k').mpr ⟨q', hq', hx'⟩))]
      · exact absurd hx ((h.fits hi).output hg hx' q (List.mem_of_getElem? hq))
  · rename_i hnone
    rw [Option.map_eq_some_iff]
    constructor
    · rintro ⟨n, hn, rfl⟩
      obtain ⟨i, hi⟩ := (h.find?_output_iff hb).mp hn
      exact Or.inr ⟨n, i, hi.1, hi.2.1, hi.2.2, rfl⟩
    · rintro (⟨k, q, hq, hx, rfl⟩ | ⟨n, i, hi, hfunction, hx, rfl⟩)
      · have hfound := (hname k).mpr ⟨q, hq, hx⟩
        exact absurd (hnone.symm.trans hfound) (Option.some_ne_none k).symm
      · exact ⟨n, (h.find?_output_iff hb).mpr ⟨i, hi, hfunction, hx⟩, rfl⟩

theorem WellFormed.valueNamed?_iff (h : p.WellFormed) (hb : p.body? f = some b) :
    p.valueNamed? f t = some (some v) ↔
      p.Provides f v ∧ v.isConstant = false ∧ p.valueText? v = some t := by
  constructor
  · intro hv
    rcases exists_sign_of_valueNamed? hv with ⟨x, rfl⟩ | ⟨x, rfl⟩
    · rcases (h.valueNamed?_percent_iff hb).mp hv with
        ⟨k, q, hq, rfl, rfl⟩ | ⟨n, i, hi, hfunction, hx, rfl⟩
      · exact ⟨⟨rfl, by rw [hq]; rfl⟩, rfl, by simp [valueText?, hq]⟩
      · exact ⟨⟨i, hi, hfunction, by rw [hx]; rfl⟩, rfl, by simp [valueText?, hi, hx]⟩
    · obtain ⟨k, hk, rfl⟩ := valueNamed?_at_iff.mp hv
      exact ⟨(List.getElem?_eq_some_iff.mp hk).1, rfl, by simp [valueText?, hk]⟩
  · rintro ⟨hprovides, hconstant, htext⟩
    cases v with
    | argument g k =>
        obtain ⟨rfl, _⟩ := hprovides
        obtain ⟨q, hq, rfl⟩ := Option.map_eq_some_iff.mp htext
        exact (h.valueNamed?_percent_iff hb).mpr (Or.inl ⟨k, q, hq, rfl, rfl⟩)
    | result n =>
        obtain ⟨i, hi, hfunction, hout⟩ := hprovides
        obtain ⟨x, hx⟩ := Option.isSome_iff_exists.mp hout
        obtain rfl : "%" ++ x = t := by simpa [valueText?, hi, hx] using htext
        exact (h.valueNamed?_percent_iff hb).mpr (Or.inr ⟨n, i, hi, hfunction, hx, rfl⟩)
    | global k =>
        obtain ⟨x, hx⟩ : ∃ x, p.globals.get? k = some x := ⟨_, List.getElem?_eq_getElem hprovides⟩
        obtain rfl : "@" ++ x = t := by simpa [valueText?, hx] using htext
        exact valueNamed?_at_iff.mpr ⟨k, hx, rfl⟩
    | constant c => exact (Bool.false_ne_true hconstant.symm).elim

end Named

end Program

namespace Source

variable {p : Program} {f n : Nat} {b : Span} {v : Value} {x mnemonic : String} {names : Names}
  {rows : List Row} {is : List Instruction} {cs token operands : List Char} {s : Scope}
  {i : Instruction} {output : Option String} {labels : OrdMap String Nat}

theorem Carries.locals_iff (h : Carries p f b rows names is) (hp : p.WellFormed) :
    names.locals.get? x = some n ↔
      ∃ i, p.instructions[n]? = some i ∧ i.function = f ∧ i.output = some x := by
  obtain ⟨g, hg, _⟩ := Option.bind_eq_some_iff.mp h.body
  rw [(h.covers hg).locals x n]
  constructor
  · rintro ⟨k, rfl, hk⟩
    obtain ⟨r, hr, hassigned⟩ := Option.bind_eq_some_iff.mp hk
    obtain ⟨_, j, hplaced, _, hj, rfl⟩ := h.statement hr
    exact ⟨_, hplaced, rfl, (Scope.admits_of_statement? hj).2.trans hassigned⟩
  · rintro ⟨i, hi, hfunction, hx⟩
    rcases h.instruction ((hp.function_eq_iff h.body hi).mp hfunction) hi with
      (rfl | rfl) | ⟨k, r, j, rfl, hr, hj, rfl⟩
    · exact nomatch hx
    · exact nomatch hx
    · exact ⟨k, rfl, by rw [hr]; exact (Scope.admits_of_statement? hj).2.symm.trans hx⟩

theorem Carries.value?_iff (h : Carries p f b rows names is) (hp : p.WellFormed)
    (hv : v.isConstant = false) : Scope.value? ⟨p, f, names.locals, labels⟩ cs = .ok v ↔
      p.valueNamed? f (String.ofList cs) = some (some v) := by
  obtain ⟨g, hg, hbody⟩ := Option.bind_eq_some_iff.mp h.body
  have hlocals : ∀ x, names.locals.get? x = b.toList.find?
      (fun n => p.instructions[n]?.any (fun i => i.output == some x)) := fun x =>
    Option.ext (fun n => (h.locals_iff hp).trans (hp.find?_output_iff h.body).symm)
  unfold Scope.value? Program.valueNamed?
  simp only [String.toList_ofList, hg, Option.map_some, Program.localNamed?, hbody, Scope.params,
    hlocals]
  split
  · split
    · rename_i hfound
      simp [hfound]
    · rename_i hnone
      simp only [hnone]
      cases b.toList.find? _ <;> simp
  · rename_i name
    cases hk : p.globals.indexOf? (String.ofList name) <;> simp [hk]
  · rename_i hpercent hat
    have hnone : ∀ c, v ≠ .constant c := fun c hc => by simp [hc, Value.isConstant] at hv
    split
    · exact ⟨fun h => absurd (Except.ok.inj h).symm (hnone _), fun h => by simp_all⟩
    · simp_all

section Operands

def operandsOf (mnemonic : String) (cs : List Char) : List (List Char) :=
  match mnemonic with
  | "br" => []
  | "const" => [cs]
  | "call" => ((Source.call? cs).toOption.map Prod.snd).getD []
  | _ => items cs

def operandTokens (cs : List Char) : List (List Char) :=
  match label? cs, output? cs with
  | none, .ok (_, rest) => operandsOf (String.ofList (firstWord rest).1) (firstWord rest).2
  | _, _ => []

def Signed (token : List Char) : Prop := token.head? = some '%' ∨ token.head? = some '@'

theorem value?_of_constant? {c : Int} (h : Decimal.constant? token = some c) :
    s.value? token = .ok (.constant c) := by
  unfold Scope.value?
  split
  · exact nomatch (Decimal.constant?_cons (by decide) (by decide) (by decide)).symm.trans h
  · exact nomatch (Decimal.constant?_cons (by decide) (by decide) (by decide)).symm.trans h
  · rw [h]

theorem value?_cases (h : s.value? token = .ok v) : v.isConstant = false ∨
    ¬ Signed token ∧ ∃ c, Decimal.constant? token = some c ∧ v = .constant c := by
  unfold Scope.value? at h
  split at h
  · split at h
    · exact Or.inl (Except.ok.inj h ▸ rfl)
    · split at h
      · exact Or.inl (Except.ok.inj h ▸ rfl)
      · exact nomatch h
  · split at h
    · exact Or.inl (Except.ok.inj h ▸ rfl)
    · exact nomatch h
  · rename_i hpercent hat
    split at h
    · rename_i c hc
      refine Or.inr ⟨?_, c, hc, (Except.ok.inj h).symm⟩
      rintro (hsign | hsign) <;> obtain ⟨cs, rfl⟩ := List.head?_eq_some_iff.mp hsign
      · exact hpercent cs rfl
      · exact hat cs rfl
    · exact nomatch h

theorem constant?_of_value? {c : Int} (h : s.value? token = .ok (.constant c)) :
    Decimal.constant? token = some c := by
  rcases value?_cases h with hnot | ⟨_, d, hd, heq⟩
  · exact nomatch hnot
  · rw [hd, Value.constant.inj heq]

theorem read_of_values? {fits : Nat → Bool} {vs : List Value}
    (h : s.values? mnemonic fits operands = .ok vs) :
    List.Forall₂ (fun token v => s.value? token = .ok v) (items operands) vs := by
  unfold Scope.values? at h
  split at h
  · exact mapM_eq_ok_iff.mp h
  · exact nomatch h

theorem Operates.read (h : Operates s output operands mnemonic i) :
    List.Forall₂ (fun token v => s.value? token = .ok v) (operandsOf mnemonic operands)
      i.inputs := by
  cases h with
  | const hc => exact .cons (value?_of_constant? hc) .nil
  | call hi =>
      obtain ⟨name, tokens, _, vs, htokens, _, _, hvs, rfl⟩ := Scope.eq_of_call? hi
      have hlist : operandsOf Op.call.mnemonic operands = tokens := by
        simp [operandsOf, Op.mnemonic, htokens, Except.toOption]
      exact hlist ▸ mapM_eq_ok_iff.mp hvs
  | branch => exact .nil
  | @listed op _ _ hop hvs =>
      have hlist : operandsOf op.mnemonic operands = items operands := by
        cases op <;> simp_all [operandsOf, Op.mnemonic]
      exact hlist ▸ read_of_values? hvs

theorem read_of_statement? (h : s.statement? cs = .ok i) :
    List.Forall₂ (fun token v => s.value? token = .ok v) (operandTokens cs) i.inputs := by
  unfold Scope.statement? at h
  unfold operandTokens
  split at h
  · rename_i l hl
    obtain rfl := Except.ok.inj h
    rw [hl]
    exact .nil
  · rename_i hl
    obtain ⟨⟨output, rest⟩, hsplit, h⟩ := bind_eq_ok.mp h
    rw [hl, hsplit]
    exact (operates_of_operation? h).read

theorem Carries.stored (h : Carries p f b rows names is) (hp : p.WellFormed) {k : Nat} {r : Row}
    (hr : rows[k]? = some r) :
    List.Forall₂ (fun token v => Signed token →
        p.valueNamed? f (String.ofList token) = some (some v))
      (operandTokens r.text) (p.inputsAt (b.first + 1 + k)) := by
  obtain ⟨_, j, hplaced, _, hj, rfl⟩ := h.statement hr
  have hinputs : p.inputsAt (b.first + 1 + k) = j.inputs := by simp [Program.inputsAt, hplaced]
  rw [hinputs]
  refine (read_of_statement? hj).imp (fun token v hv hsigned => ?_)
  have hconstant := (value?_cases hv).resolve_right (fun h => h.1 hsigned)
  exact (h.value?_iff hp hconstant).mp hv

end Operands

end Source

namespace Program

variable {p : Program} {f n : Nat} {b : Span} {v w : Value} {text module : String}

section Printed

theorem exists_constant (h : v.isConstant = true) : ∃ c, v = .constant c := by
  cases v with
  | constant c => exact ⟨c, rfl⟩
  | _ => exact nomatch h

theorem valueNamed?_toString_ne {c : Int} : p.valueNamed? f (toString c) ≠ some (some v) := by
  intro hv
  obtain ⟨d, cs, htext, hd⟩ := Decimal.exists_cons_toString c
  rcases exists_sign_of_valueNamed? hv with ⟨x, hx⟩ | ⟨x, hx⟩ <;>
    · rw [hx, String.toList_append] at htext
      obtain ⟨rfl, _⟩ := List.cons.inj htext
      exact absurd hd (by decide)

theorem WellFormed.exists_text (h : p.WellFormed) (hb : p.body? f = some b) (hv : p.Provides f v)
    (hconstant : v.isConstant = false) :
    ∃ t, p.valueText? v = some t ∧ p.valueNamed? f t = some (some v) := by
  obtain ⟨t, ht⟩ := Option.isSome_iff_exists.mp (isSome_valueText?.mpr hv.knows)
  exact ⟨t, ht, (h.valueNamed?_iff hb).mpr ⟨hv, hconstant, ht⟩⟩

theorem WellFormed.eq_of_valueText? (h : p.WellFormed) (hb : p.body? f = some b)
    (hv : p.Provides f v) (hw : p.Provides f w) (heq : p.valueText? v = p.valueText? w) : v = w := by
  have hapart : ∀ {u : Value} {c : Int}, p.Provides f u → u.isConstant = false →
      p.valueText? u ≠ some (toString c) := fun hu hconstant htext => by
    obtain ⟨t, ht, hnamed⟩ := h.exists_text hb hu hconstant
    obtain rfl := Option.some.inj (ht.symm.trans htext)
    exact valueNamed?_toString_ne hnamed
  cases hcv : v.isConstant <;> cases hcw : w.isConstant
  · obtain ⟨t, ht, hnv⟩ := h.exists_text hb hv hcv
    obtain ⟨t', ht', hnw⟩ := h.exists_text hb hw hcw
    obtain rfl := Option.some.inj (ht.symm.trans (heq.trans ht'))
    exact Option.some.inj (Option.some.inj (hnv.symm.trans hnw))
  · obtain ⟨c, rfl⟩ := exists_constant hcw
    exact absurd heq (hapart hv hcv)
  · obtain ⟨c, rfl⟩ := exists_constant hcv
    exact absurd heq.symm (hapart hw hcw)
  · obtain ⟨c, rfl⟩ := exists_constant hcv
    obtain ⟨d, rfl⟩ := exists_constant hcw
    rw [Decimal.toString_injective (Option.some.inj heq)]

theorem WellFormed.provides_of_mem_inputsAt (h : p.WellFormed) (hb : p.body? f = some b) (hn : n ∈ b)
    (hv : v ∈ p.inputsAt n) : p.Provides f v := by
  unfold inputsAt at hv
  split at hv
  · rename_i i hi
    have hfunction := (h.function_eq_iff hb hi).mpr hn
    exact hfunction ▸ (h.fits hi).operand v hv
  · exact nomatch hv

theorem WellFormed.nodup_texts (h : p.WellFormed) (hb : p.body? f = some b) {vs : List Value}
    (hvs : ∀ v ∈ vs, p.Provides f v) (hnodup : vs.Nodup) :
    ∃ ts, p.valueTexts? vs = some ts ∧ ts.Nodup := by
  obtain ⟨ts, hts⟩ : ∃ ts, p.valueTexts? vs = some ts := Option.isSome_iff_exists.mp
    (isSome_mapM.mpr (fun v hv => isSome_valueText?.mpr (hvs v hv).knows))
  have hunique : Relator.BiUnique (fun v t => p.Provides f v ∧ p.valueText? v = some t) :=
    ⟨fun v t w hv hw => h.eq_of_valueText? hb hv.1 hw.1 (hv.2.trans hw.2.symm),
      fun v t t' ht ht' => Option.some.inj (ht.2.symm.trans ht'.2)⟩
  have htexts : List.Forall₂ (fun v t => p.Provides f v ∧ p.valueText? v = some t) vs ts :=
    (List.forall₂_and_left _ _).mpr ⟨hvs, mapM_eq_some_iff.mp hts⟩
  exact ⟨ts, hts, (List.rel_nodup hunique htexts).mp hnodup⟩

def leakReport (call file : String) (values : List String) : String :=
  "At instruction:  '" ++ call ++ "'\nIn file:         '" ++ file ++ "'\n" ++
    String.join (values.map (fun v => "Leak:            '" ++ v ++ "'\n")) ++ "-------------------\n"

theorem WellFormed.exists_leakText (h : p.WellFormed) (hb : p.body? f = some b) (hn : n ∈ b)
    {t : Taint.Setup} (ht : t.program = p) (rename : String → String) {vs : ValueSet}
    (hvs : ∀ v ∈ vs, v ∈ p.inputsAt n) :
    ∃ (call : String) (g : Function) (values : List String),
      p.textWith? rename n = some call ∧ p.functions[f]? = some g ∧
      t.leakText? rename n vs = some (leakReport call g.module values) ∧
      p.valueTexts? vs.elements = some values ∧ values.Nodup := by
  have hlt : n < p.size := Nat.lt_of_lt_of_le hn.2 (h.stop_le hb)
  obtain ⟨i, hi⟩ : ∃ i, p.instructions[n]? = some i := ⟨_, Array.getElem?_eq_getElem hlt⟩
  have hfunction := (h.function_eq_iff hb hi).mpr hn
  obtain ⟨g, hg, _⟩ := Option.bind_eq_some_iff.mp hb
  obtain ⟨call, hcall⟩ := Option.isSome_iff_exists.mp (h.resolved.isSome_textWith? rename hlt)
  have hprovides : ∀ v ∈ vs.elements, p.Provides f v := fun v hv =>
    h.provides_of_mem_inputsAt hb hn (hvs v hv)
  have hnodup : vs.elements.Nodup := vs.ascending.imp (fun {v w} hlt heq => by
    simp [heq, Std.ReflCmp.compare_self] at hlt)
  obtain ⟨values, hvalues, hdistinct⟩ := h.nodup_texts hb hprovides hnodup
  refine ⟨call, g, values, hcall, hg, ?_, hvalues, hdistinct⟩
  simp only [Taint.Setup.leakText?, ht, hi, hfunction, hg, hcall, hvalues, Option.bind_eq_bind,
    Option.bind_some, Option.pure_def]
  rfl

end Printed

/-- What a name stands for while the body of `f` is read, what the program answers for it, and the
text of that value are one and the same. -/
structure NamesAgree (p : Program) (text : String) (f : Nat) (b : Span) : Prop where
  stored : ∃ header rows g, Stands (Text.rows text.toList) header rows ∧
    p.functions[f]? = some g ∧ Declares header g.name g.params ∧
    ∀ k r, rows[k]? = some r → List.Forall₂
      (fun token v => Signed token → p.valueNamed? f (String.ofList token) = some (some v))
      (operandTokens r.text) (p.inputsAt (b.first + 1 + k))
  printed : ∀ v, p.Provides f v → v.isConstant = false →
    ∃ t, p.valueText? v = some t ∧ p.valueNamed? f t = some (some v)
  named : ∀ t v, p.valueNamed? f t = some (some v) → p.valueText? v = some t
  actuals : ∀ n ∈ b, ∀ v ∈ p.inputsAt n, ∀ w ∈ p.inputsAt n,
    p.valueText? v = p.valueText? w → v = w
  reported : ∀ (t : Taint.Setup) (rename : String → String) (n : Nat) (vs : ValueSet),
    t.program = p → n ∈ b → (∀ v ∈ vs, v ∈ p.inputsAt n) →
    ∃ (call : String) (g : Function) (values : List String),
      p.textWith? rename n = some call ∧ p.functions[f]? = some g ∧
      t.leakText? rename n vs = some (leakReport call g.module values) ∧
      p.valueTexts? vs.elements = some values ∧ values.Nodup

theorem namesAgree_of_lift (h : lift text module = .ok p) (hb : p.body? f = some b) :
    p.NamesAgree text f b := by
  have hp := wellFormed_of_lift h
  constructor
  case stored =>
    obtain ⟨header, rows, g, names, is, hstands, hg, hdeclares, hcarries⟩ := exists_stands_of_body h hb
    exact ⟨header, rows, g, hstands, hg, hdeclares, fun k r hr => hcarries.stored hp hr⟩
  case printed => exact fun v hv hconstant => hp.exists_text hb hv hconstant
  case named => exact fun t v hv => ((hp.valueNamed?_iff hb).mp hv).2.2
  case actuals =>
    intro n hn v hv w hw heq
    exact hp.eq_of_valueText? hb (hp.provides_of_mem_inputsAt hb hn hv)
      (hp.provides_of_mem_inputsAt hb hn hw) heq
  case reported => exact fun t rename n vs ht hn hvs => hp.exists_leakText hb hn ht rename hvs

theorem tour_namesAgree : lift (String.intercalate "\n" tourLines) "t.c" = .ok tour ∧
    tour.body? 1 = some ⟨0, 10⟩ ∧ tour.NamesAgree (String.intercalate "\n" tourLines) 1 ⟨0, 10⟩ := by
  have hb : tour.body? 1 = some ⟨0, 10⟩ := by decide +kernel
  exact ⟨tour_lift, hb, namesAgree_of_lift tour_lift hb⟩

end Program

end Interproc
