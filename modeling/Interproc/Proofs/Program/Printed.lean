import Interproc.Proofs.Program.Spelling

namespace Interproc

open Source Text

namespace Source

variable {cs rest w : List Char} {c : Char} {x m t : String} {ts : List String} {v : Value}
  {vs : List Value} {s : Scope} {output : Option String} {p : Program} {f n : Nat} {i : Instruction}

section Tokens

theorem not_mem_of_isName (h : isName cs = true) (hc : isNameChar c = false) : c ∉ cs := fun hmem =>
  Bool.false_ne_true (hc.symm.trans (isNameChar_of_isName h hmem))

theorem ne_nil_of_isName (h : isName cs = true) : cs ≠ [] := by
  rintro rfl
  exact nomatch h

structure Token (cs : List Char) : Prop where
  ne_nil : cs ≠ []
  chars : ∀ c ∈ cs, isNameChar c = true ∨ c = '%' ∨ c = '@' ∨ c = '-'

theorem Token.item (h : Token cs) : Item cs where
  ne_nil := h.ne_nil
  unbroken c hc := by
    rcases h.chars c hc with hc | rfl | rfl | rfl
    · exact not_blank_of_isNameChar hc
    all_goals decide
  not_comma c hc := by
    rcases h.chars c hc with hc | rfl | rfl | rfl
    · refine beq_eq_false_iff_ne.mpr ?_
      rintro rfl
      exact absurd hc (by decide)
    all_goals decide

theorem token_cons (hc : c = '%' ∨ c = '@') (h : isName cs = true) : Token (c :: cs) where
  ne_nil := List.cons_ne_nil _ _
  chars := List.forall_mem_cons.mpr
    ⟨Or.inr (hc.imp id Or.inl), fun _ hd => Or.inl (isNameChar_of_isName h hd)⟩

theorem token_toString (i : Int) : Token (toString i).toList where
  ne_nil := by
    obtain ⟨c, cs, hcs, _⟩ := Decimal.exists_cons_toString i
    exact hcs ▸ List.cons_ne_nil c cs
  chars c hc := by
    rcases Decimal.isDigit_or_minus_of_mem_toString hc with hc | rfl
    · exact Or.inl (by simp [isNameChar, Char.isAlphanum, hc])
    · exact Or.inr (Or.inr (Or.inr rfl))

theorem token_of_valueText? (h : p.Spelled) (hv : p.Provides f v) (ht : p.valueText? v = some t) :
    Token t.toList := by
  have hsigned : ∀ {sign x : String} {c : Char}, sign.toList = [c] → (c = '%' ∨ c = '@') →
      isName x.toList = true → Token (sign ++ x).toList := fun hsign hc hx => by
    rw [String.toList_append, hsign, List.singleton_append]
    exact token_cons hc hx
  cases v with
  | argument g k =>
      obtain ⟨q, hq, rfl⟩ := Option.map_eq_some_iff.mp ht
      obtain ⟨g', hg', hq⟩ := Option.bind_eq_some_iff.mp hq
      exact hsigned rfl (Or.inl rfl) (h.param hg' q (List.mem_of_getElem? hq))
  | result n =>
      obtain ⟨i, hi, _, hout⟩ := hv
      obtain ⟨x, hx⟩ := Option.isSome_iff_exists.mp hout
      obtain rfl : "%" ++ x = t := by simpa [Program.valueText?, hi, hx] using ht
      exact hsigned rfl (Or.inl rfl) (h.output hi hx)
  | global k =>
      obtain ⟨x, hx⟩ : ∃ x, p.globals.get? k = some x := ⟨_, List.getElem?_eq_getElem hv⟩
      obtain rfl : "@" ++ x = t := by simpa [Program.valueText?, hx] using ht
      exact hsigned rfl (Or.inr rfl) (h.global x (List.mem_of_getElem? hx))
  | constant c =>
      obtain rfl := Option.some.inj ht
      exact token_toString c

end Tokens

section Phrases

def phrase (mnemonic operands : List Char) : List Char :=
  if operands = [] then mnemonic else mnemonic ++ ' ' :: operands

def assignment : Option String → List Char
  | some x => '%' :: x.toList ++ [' ', '=', ' ']
  | none => []

structure Operands (rest : List Char) : Prop where
  tight : rest = [] ∨ Tight rest
  not_colon : ':' ∉ rest
  not_equals : '=' ∉ rest

theorem label?_eq_none (h : ':' ∉ cs) : label? cs = none := by
  cases hl : label? cs with
  | none => rfl
  | some l =>
      obtain ⟨rfl, _⟩ := eq_of_label? hl
      simp at h

theorem not_mem_phrase (hw : isName w = true) (hc : isNameChar c = false) (hblank : c ≠ ' ')
    (hrest : c ∉ rest) : c ∉ phrase w rest := by
  have hw := not_mem_of_isName hw hc
  unfold phrase
  split
  · exact hw
  · simp [hw, hblank, hrest]

theorem tight_phrase (hw : isName w = true) (hrest : rest = [] ∨ Tight rest) :
    Tight (phrase w rest) := by
  have hw : Tight w := (unbroken_of_isName hw).tight (ne_nil_of_isName hw)
  unfold phrase
  split
  · exact hw
  · rename_i hne
    have hboth : Tight (w ++ [' '] ++ rest) := hw.append (hrest.resolve_left hne)
    rwa [List.append_assoc] at hboth

theorem firstWord_phrase (hw : isName w = true) (hrest : rest = [] ∨ Tight rest) :
    firstWord (phrase w rest) = (w, rest) := by
  unfold phrase
  split
  · rename_i hnil
    rw [(unbroken_of_isName hw).firstWord_eq, hnil]
  · rename_i hne
    rw [firstWord_append (unbroken_of_isName hw) rfl, (hrest.resolve_left hne).trim_eq]

theorem output?_assignment (hout : ∀ x ∈ output, isName x.toList = true) (hcs : Tight cs)
    (hequals : '=' ∉ cs) : output? (assignment output ++ cs) = .ok (output, cs) := by
  cases output with
  | none =>
      have hcut : cut? (fun c => c == '=') cs = none := cut?_eq_none (fun c hc => by
        refine beq_eq_false_iff_ne.mpr ?_
        rintro rfl
        exact hequals hc)
      rw [assignment, List.nil_append, output?, hcut]
  | some x =>
      have hx : isName x.toList = true := hout x rfl
      have hlhs : trim ('%' :: x.toList ++ [' ']) = '%' :: x.toList :=
        (trim_append rfl).trans (token_cons (Or.inl rfl) hx).item.unbroken.trim_eq
      have hcut : cut? (fun c => c == '=') (assignment (some x) ++ cs) =
          some ('%' :: x.toList ++ [' '], ' ' :: cs) := by
        have hleft : ∀ c ∈ '%' :: x.toList ++ [' '], (c == '=') = false := by
          intro c hc
          refine beq_eq_false_iff_ne.mpr ?_
          rintro rfl
          simp only [List.cons_append, List.mem_cons, List.mem_append, List.not_mem_nil] at hc
          simp [not_mem_of_isName hx (show isNameChar '=' = false by decide)] at hc
        have hline : assignment (some x) ++ cs = ('%' :: x.toList ++ [' ']) ++ '=' :: ' ' :: cs := by
          simp [assignment]
        rw [hline, cut?_append hleft rfl]
      rw [output?, hcut]
      simp only [hlhs, hx, if_true, String.ofList_toList, trim_cons (show isBlank ' ' = true by rfl),
        hcs.trim_eq]

theorem statement?_eq_operation? (hout : ∀ x ∈ output, isName x.toList = true)
    (hm : isName m.toList = true) (hrest : Operands rest) :
    s.statement? (assignment output ++ phrase m.toList rest) = s.operation? output m rest := by
  have hcolon : ':' ∉ assignment output ++ phrase m.toList rest := by
    have hphrase := not_mem_phrase hm (c := ':') (by decide) (by decide) hrest.not_colon
    cases output with
    | none => exact hphrase
    | some x =>
        have hx := not_mem_of_isName (hout x rfl) (c := ':') (by decide)
        simp [assignment, hx, hphrase]
  have hequals := not_mem_phrase hm (c := '=') (by decide) (by decide) hrest.not_equals
  rw [Scope.statement?, label?_eq_none hcolon,
    output?_assignment hout (tight_phrase hm hrest.tight) hequals]
  simp only [bind, Except.bind, firstWord_phrase hm hrest.tight, String.ofList_toList]

end Phrases

section Operations

theorem toList_commaList : (commaList ts).toList = [',', ' '].intercalate (ts.map String.toList) :=
  String.toList_intercalate

structure Written (s : Scope) (vs : List Value) (ts : List String) : Prop where
  read : List.Forall₂ (fun t v => s.value? t.toList = .ok v) ts vs
  tokens : ∀ t ∈ ts, Token t.toList

namespace Written

theorem items (h : Written s vs ts) : items (commaList ts).toList = ts.map String.toList := by
  rw [toList_commaList]
  exact items_intercalate (List.forall_mem_map.mpr (fun t ht => (h.tokens t ht).item))

theorem mapM (h : Written s vs ts) : (ts.map String.toList).mapM s.value? = .ok vs :=
  mapM_eq_ok_iff.mpr (List.forall₂_map_left_iff.mpr h.read)

theorem tight (h : Written s vs ts) (hne : vs ≠ []) : Tight (commaList ts).toList := by
  rw [toList_commaList]
  have htokens : ∀ t ∈ ts, Tight t.toList := fun t ht =>
    (h.tokens t ht).item.unbroken.tight (h.tokens t ht).ne_nil
  refine tight_intercalate (List.forall_mem_map.mpr htokens) ?_
  rw [ne_eq, List.map_eq_nil_iff, ← List.length_eq_zero_iff, h.read.length_eq,
    List.length_eq_zero_iff]
  exact hne

theorem eq_nil (h : Written s [] ts) : (commaList ts).toList = [] := by
  rw [List.forall₂_nil_right_iff.mp h.read]
  rfl

theorem not_mem (h : Written s vs ts) (hc : ¬ (isNameChar c = true ∨ c = '%' ∨ c = '@' ∨ c = '-'))
    (hsep : c ∉ [',', ' ']) : c ∉ (commaList ts).toList := by
  intro hmem
  rw [toList_commaList] at hmem
  rcases mem_intercalate hmem with hmem | ⟨_, htext, hmem⟩
  · exact hsep hmem
  · obtain ⟨t, ht, rfl⟩ := List.mem_map.mp htext
    exact hc ((h.tokens t ht).chars c hmem)

theorem operands (h : Written s vs ts) : Operands (commaList ts).toList where
  tight := by
    cases vs with
    | nil => exact Or.inl h.eq_nil
    | cons v vs => exact Or.inr (h.tight (List.cons_ne_nil v vs))
  not_colon := h.not_mem (by decide) (by decide)
  not_equals := h.not_mem (by decide) (by decide)

theorem values? {fits : Nat → Bool} (h : Written s vs ts) (hfits : fits vs.length = true) :
    s.values? m fits (commaList ts).toList = .ok vs := by
  rw [Scope.values?, h.items, List.length_map, h.read.length_eq, if_pos hfits]
  exact h.mapM

end Written

structure Prints (s : Scope) (i : Instruction) (ts : List String) (rest : List Char) : Prop where
  text : ∃ body, s.program.bodyText? id i (commaList ts) = some body ∧
    body.toList = phrase i.op.mnemonic.toList rest
  operands : Operands rest
  read : s.operation? i.output i.op.mnemonic rest = .ok { i with function := 0, line := none }

theorem Written.toList_phrase (h : Written s vs ts) (hne : vs ≠ []) {word : String}
    (hword : word = m ++ " ") :
    (word ++ commaList ts).toList = phrase m.toList (commaList ts).toList := by
  rw [phrase, if_neg (h.tight hne).ne_nil, hword, String.toList_append, String.toList_append,
    List.append_assoc]
  rfl

theorem prints_listed (h : Written s i.inputs ts) (hproper : i.Proper) (hstart : i.op ≠ .start)
    (hbranch : i.op ≠ .branch) (hcall : i.op ≠ .call) :
    Prints s i ts (commaList ts).toList := by
  obtain ⟨op, output, inputs, callee, targets, function, line⟩ := i
  obtain rfl : callee = none := hproper.callee hcall
  obtain rfl : targets = [] := hproper.targets hbranch
  have hshape := hproper.shape
  -- the shape of each operation fixes whether it has an output and how many operands
  cases op with
  | start | branch | call => contradiction
  | alloca =>
      obtain ⟨rfl, x, rfl⟩ : inputs = [] ∧ ∃ x, output = some x := by
        simpa [Instruction.takesShape, Option.isSome_iff_exists] using hshape
      refine ⟨⟨_, rfl, ?_⟩, h.operands, bind_eq_ok.mpr ⟨[], h.values? rfl, rfl⟩⟩
      rw [h.eq_nil]
      rfl
  | const =>
      obtain ⟨⟨hone, x, rfl⟩, hconstant⟩ :
          (inputs.length = 1 ∧ ∃ x, output = some x) ∧ ∀ v ∈ inputs, v.isConstant = true := by
        simpa [Instruction.takesShape, Option.isSome_iff_exists] using hshape
      obtain ⟨v, rfl⟩ := List.length_eq_one_iff.mp hone
      obtain ⟨c, rfl⟩ := Program.exists_constant (hconstant v (List.mem_singleton_self v))
      refine ⟨⟨_, rfl, h.toList_phrase (List.cons_ne_nil _ _) rfl⟩, h.operands, ?_⟩
      obtain ⟨t, _, hread, hnil, rfl⟩ := List.forall₂_cons_right_iff.mp h.read
      obtain rfl := List.forall₂_nil_right_iff.mp hnil
      have hlist : commaList [t] = t := by simp [commaList]
      simp only [Scope.operation?, Op.mnemonic, hlist, constant?_of_value? hread, Scope.named]
  | copy | load =>
      obtain ⟨hone, x, rfl⟩ : inputs.length = 1 ∧ ∃ x, output = some x := by
        simpa [Instruction.takesShape, Option.isSome_iff_exists] using hshape
      have hne : inputs ≠ [] := List.ne_nil_of_length_eq_add_one hone
      exact ⟨⟨_, rfl, h.toList_phrase hne rfl⟩, h.operands,
        bind_eq_ok.mpr ⟨inputs, h.values? (by simpa), rfl⟩⟩
  | store =>
      obtain ⟨htwo, rfl⟩ : inputs.length = 2 ∧ output = none := by
        simpa [Instruction.takesShape] using hshape
      have hne : inputs ≠ [] := List.ne_nil_of_length_eq_add_one htwo
      exact ⟨⟨_, rfl, h.toList_phrase hne rfl⟩, h.operands,
        bind_eq_ok.mpr ⟨inputs, h.values? (by simpa), rfl⟩⟩
  | elementPtr =>
      obtain ⟨hne, x, rfl⟩ : inputs ≠ [] ∧ ∃ x, output = some x := by
        simpa [Instruction.takesShape, Option.isSome_iff_exists] using hshape
      have hfits : decide (1 ≤ inputs.length) = true :=
        decide_eq_true (List.length_pos_iff.mpr hne)
      exact ⟨⟨_, rfl, h.toList_phrase hne rfl⟩, h.operands,
        bind_eq_ok.mpr ⟨inputs, h.values? hfits, rfl⟩⟩
  | ret =>
      obtain ⟨hfew, rfl⟩ : inputs.length ≤ 1 ∧ output = none := by
        simpa [Instruction.takesShape] using hshape
      have hlength : ¬ 1 < (Text.items (commaList ts).toList).length := by
        rw [h.items, List.length_map, h.read.length_eq]
        exact Nat.not_lt.mpr hfew
      refine ⟨⟨_, rfl, ?_⟩, h.operands, ?_⟩
      · cases inputs with
        | nil =>
            rw [h.eq_nil]
            rfl
        | cons v vs => exact h.toList_phrase (List.cons_ne_nil v vs) rfl
      · simp only [Scope.operation?, Op.mnemonic, if_neg hlength]
        exact bind_eq_ok.mpr ⟨inputs, h.values? rfl, rfl⟩
  | nop =>
      obtain ⟨rfl, rfl⟩ : inputs = [] ∧ output = none := by
        simpa [Instruction.takesShape] using hshape
      refine ⟨⟨_, rfl, ?_⟩, h.operands, bind_eq_ok.mpr ⟨[], h.values? rfl, rfl⟩⟩
      rw [h.eq_nil]
      rfl

theorem prints_call {g : Function} {c : Nat} (h : Written s i.inputs ts) (hop : i.op = .call)
    (htargets : i.targets = []) (hc : i.callee = some c) (hg : s.program.functions[c]? = some g)
    (hnamed : s.program.functionNamed? g.name = some c) (hname : isName g.name.toList = true)
    (harity : g.params.length ≤ i.inputs.length) :
    Prints s i ts (g.name.toList ++ '(' :: (commaList ts).toList ++ [')']) := by
  obtain ⟨op, output, inputs, callee, targets, function, line⟩ := i
  obtain rfl : op = .call := hop
  obtain rfl : targets = [] := htargets
  obtain rfl : callee = some c := hc
  have hclosing : Unbroken [')'] := fun _ hc => List.mem_singleton.mp hc ▸ rfl
  have htight : Tight (g.name.toList ++ '(' :: (commaList ts).toList ++ [')']) :=
    ((unbroken_of_isName hname).tight (ne_nil_of_isName hname)).append
      (hclosing.tight (List.cons_ne_nil _ _))
  have hclear : ∀ c : Char, isNameChar c = false → c ∉ ['%', '@', '-', ',', ' ', '(', ')'] →
      c ∉ g.name.toList ++ '(' :: (commaList ts).toList ++ [')'] := by
    intro c hc hother
    have hnot := not_mem_of_isName hname hc
    have hlist := h.not_mem (c := c) (by simp_all) (by simp_all)
    simp_all
  refine ⟨⟨"call " ++ g.name ++ "(" ++ commaList ts ++ ")", ?_, ?_⟩,
    ⟨Or.inr htight, hclear ':' (by decide) (by decide), hclear '=' (by decide) (by decide)⟩, ?_⟩
  · simp [Program.bodyText?, hg]
  · simp [phrase, Op.mnemonic]
  · have hcall : Source.call? (g.name.toList ++ '(' :: (commaList ts).toList ++ [')']) =
        .ok (g.name, ts.map String.toList) := by
      have hlast : dropLast? ')' (g.name.toList ++ '(' :: (commaList ts).toList ++ [')']) =
          some (g.name.toList ++ '(' :: (commaList ts).toList) := dropLast?_eq_some_iff.mpr rfl
      have hcut : cut? (fun c => c == '(') (g.name.toList ++ '(' :: (commaList ts).toList) =
          some (g.name.toList, (commaList ts).toList) := by
        refine cut?_append (fun c hc => beq_eq_false_iff_ne.mpr ?_) rfl
        rintro rfl
        exact not_mem_of_isName hname (by decide) hc
      rw [Source.call?, htight.trim_eq, hlast, Option.bind_some, hcut]
      simp [(unbroken_of_isName hname).trim_eq, hname, h.items]
    have harguments : ¬ (ts.map String.toList).length <
        ((s.program.functions[c]?.map Function.params).getD []).length := by
      rw [List.length_map, h.read.length_eq, hg, Option.map_some, Option.getD_some]
      exact Nat.not_lt.mpr harity
    refine bind_eq_ok.mpr ⟨{ op := .call, inputs := inputs, callee := some c }, ?_, rfl⟩
    refine bind_eq_ok.mpr ⟨_, hcall, ?_⟩
    simp only [hnamed, if_neg harguments]
    exact bind_eq_ok.mpr ⟨inputs, h.mapM, rfl⟩

end Operations

section Lines

theorem isName_mnemonic (op : Op) : isName op.mnemonic.toList = true := by
  cases op <;> decide

theorem Prints.statement? (h : Prints s i ts rest) (hout : ∀ x ∈ i.output, isName x.toList = true)
    (hts : s.program.valueTexts? i.inputs = some ts) :
    ∃ t, s.program.statementText? id i = some t ∧
      s.statement? t.toList = .ok { i with function := 0, line := none } := by
  obtain ⟨body, hbody, htext⟩ := h.text
  have hread := (statement?_eq_operation? hout (isName_mnemonic i.op) h.operands).trans h.read
  rw [← htext] at hread
  simp only [Program.statementText?, hts, hbody, Option.bind_eq_bind, Option.bind_some,
    Option.pure_def]
  cases hx : i.output with
  | none =>
      rw [hx] at hread
      exact ⟨body, rfl, hread⟩
  | some x =>
      rw [hx] at hread
      refine ⟨_, rfl, ?_⟩
      have hline : ("%" ++ x ++ " = " ++ body).toList = assignment (some x) ++ body.toList := by
        simp [assignment]
      rw [hline, hread]

theorem Carries.written {rows : List Row} {names : Names} {is : List Instruction} {b : Span}
    (h : Carries p f b rows names is) (hp : p.WellFormed) (hspelled : p.Spelled)
    (hi : p.instructions[n]? = some i) (hfunction : i.function = f) :
    ∃ ts, p.valueTexts? i.inputs = some ts ∧
      Written ⟨p, f, names.locals, names.labels⟩ i.inputs ts := by
  have hprovides : ∀ v ∈ i.inputs, p.Provides f v := fun v hv =>
    hfunction ▸ (hp.fits hi).operand v hv
  obtain ⟨ts, hts⟩ : ∃ ts, p.valueTexts? i.inputs = some ts := Option.isSome_iff_exists.mp
    (isSome_mapM.mpr (fun v hv => Program.isSome_valueText?.mpr (hprovides v hv).knows))
  have htexts : List.Forall₂ (fun v t => v ∈ i.inputs ∧ p.valueText? v = some t) i.inputs ts :=
    (List.forall₂_and_left _ _).mpr ⟨fun _ hv => hv, mapM_eq_some_iff.mp hts⟩
  refine ⟨ts, hts, List.Forall₂.flip (htexts.imp (fun v t ht => ?_)), forall_of_forall₂
    (htexts.imp (fun v t ht => token_of_valueText? hspelled (hprovides v ht.1) ht.2))⟩
  obtain ⟨hv, ht⟩ := ht
  cases hconstant : v.isConstant with
  | false =>
      have hnamed := (hp.valueNamed?_iff h.body).mpr ⟨hprovides v hv, hconstant, ht⟩
      exact (h.value?_iff hp hconstant).mpr (String.ofList_toList.symm ▸ hnamed)
  | true =>
      obtain ⟨c, rfl⟩ := Program.exists_constant hconstant
      obtain rfl := Option.some.inj ht
      exact value?_of_constant? (Decimal.constant?_toString (hspelled.constant hi hv))

theorem Carries.statement?_text {rows : List Row} {names : Names} {is : List Instruction} {b : Span}
    {g : Function} (h : Carries p f b rows names is) (hp : p.WellFormed) (hspelled : p.Spelled)
    (hg : p.functions[f]? = some g) (hi : p.instructions[n]? = some i) (hfunction : i.function = f)
    (hstart : i.op ≠ .start) (hbranch : i.op ≠ .branch) :
    ∃ t, p.text? n = some (g.name ++ "#" ++ toString n ++ ": " ++ t) ∧
      Scope.statement? ⟨p, f, names.locals, names.labels⟩ t.toList =
        .ok { i with function := 0, line := none } := by
  have hfits := hp.fits hi
  obtain ⟨ts, hts, hwritten⟩ := h.written hp hspelled hi hfunction
  obtain ⟨rest, hprints⟩ :
      ∃ rest, Prints ⟨p, f, names.locals, names.labels⟩ i ts rest := by
    by_cases hcall : i.op = .call
    · obtain ⟨c, hc⟩ : ∃ c, i.callee = some c := by
        simpa [Instruction.takesShape, hcall, Option.isSome_iff_exists] using hfits.proper.shape
      obtain ⟨callee, hcallee, harity⟩ := hfits.callee hc
      exact ⟨_, prints_call hwritten hcall (hfits.proper.targets hbranch) hc hcallee
        (hp.functionNamed?_iff.mpr ⟨callee, hcallee, rfl⟩) (hspelled.function hcallee) harity⟩
    · exact ⟨_, prints_listed hwritten hfits.proper hstart hbranch hcall⟩
  obtain ⟨t, ht, hread⟩ := hprints.statement? (fun x hx => hspelled.output hi hx) hts
  refine ⟨t, ?_, hread⟩
  have ht : p.statementText? id i = some t := ht
  simp [Program.text?, Program.textWith?, hi, hfunction, hg, ht]

end Lines

end Source

namespace Program

variable {p : Program} {f : Nat} {b : Span} {text module : String}

def Rereads (p : Program) (text : String) (f : Nat) (b : Span) : Prop :=
  ∃ header rows g names, Stands (Text.rows text.toList) header rows ∧ p.functions[f]? = some g ∧
    Declares header g.name g.params ∧ Names.ofRows g.params (b.first + 1) rows = .ok names ∧
    ∀ n i, n ∈ b → p.instructions[n]? = some i → i.op ≠ .start → i.op ≠ .branch →
      ∃ t j, p.text? n = some (g.name ++ "#" ++ toString n ++ ": " ++ t) ∧
        Scope.statement? ⟨p, f, names.locals, names.labels⟩ t.toList = .ok j ∧
        j.op = i.op ∧ j.output = i.output ∧ j.inputs = i.inputs ∧ j.callee = i.callee ∧
        j.targets = i.targets

theorem rereads_of_lift (h : lift text module = .ok p) (hb : p.body? f = some b) :
    p.Rereads text f b := by
  have hp := wellFormed_of_lift h
  obtain ⟨header, rows, g, names, is, hstands, hg, hdeclares, hcarries⟩ := exists_stands_of_body h hb
  refine ⟨header, rows, g, names, hstands, hg, hdeclares, hcarries.named hg, ?_⟩
  intro n i hn hi hstart hbranch
  have hfunction := (hp.function_eq_iff hb hi).mpr hn
  obtain ⟨t, ht, hread⟩ :=
    hcarries.statement?_text hp (spelled_of_lift h) hg hi hfunction hstart hbranch
  exact ⟨t, _, ht, hread, rfl, rfl, rfl, rfl, rfl⟩

theorem tour_rereads : lift (String.intercalate "\n" tourLines) "t.c" = .ok tour ∧
    tour.body? 2 = some ⟨10, 14⟩ ∧ tour.Rereads (String.intercalate "\n" tourLines) 2 ⟨10, 14⟩ := by
  have hb : tour.body? 2 = some ⟨10, 14⟩ := by decide +kernel
  exact ⟨tour_lift, hb, rereads_of_lift tour_lift hb⟩

end Program

end Interproc
