import Interproc.Text.Decimal

namespace Interproc.Decimal

variable {cs : List Char} {c : Char} {n : Nat} {i : Int}

theorem magnitude?_toDigits (n : Nat) : magnitude? (Nat.toDigits 10 n) = some n := by
  have hdigits : (Nat.toDigits 10 n).all Char.isDigit = true :=
    List.all_eq_true.mpr (fun c hc => Nat.isDigit_of_mem_toDigits (by decide) (by decide) hc)
  have hempty : (Nat.toDigits 10 n).isEmpty = false := by simp [Nat.toDigits_ne_nil]
  have hvalue := Nat.ofDigitChars_ten_toDigits (n := n)
  rw [Nat.ofDigitChars_eq_foldl] at hvalue
  rw [magnitude?, hdigits, hempty, hvalue]
  rfl

theorem magnitude?_cons (hc : c.isDigit = false) : magnitude? (c :: cs) = none := by
  simp [magnitude?, hc]

theorem constant?_cons (hc : c.isDigit = false) (hplus : c ≠ '+') (hminus : c ≠ '-') :
    constant? (c :: cs) = none := by
  simp [constant?, integer?, natural?, magnitude?_cons hc, hplus, hminus]

theorem toList_toString (i : Int) : (toString i).toList = Nat.toDigits 10 i.toNat ∧ 0 ≤ i ∨
    (toString i).toList = '-' :: Nat.toDigits 10 (-i).toNat ∧ i < 0 := by
  rw [Int.toString_eq_repr, Int.repr_eq_if]
  split
  · rename_i hi
    exact Or.inl ⟨by rw [Nat.repr_eq_ofList_toDigits, String.toList_ofList], hi⟩
  · rename_i hi
    refine Or.inr ⟨?_, by omega⟩
    rw [String.toList_append, Nat.repr_eq_ofList_toDigits, String.toList_ofList,
      String.toList_ofList, List.singleton_append]

theorem exists_digit_toDigits (n : Nat) :
    ∃ c cs, Nat.toDigits 10 n = c :: cs ∧ c.isDigit = true := by
  obtain ⟨c, cs, hcs⟩ := List.exists_cons_of_ne_nil (Nat.toDigits_ne_nil (n := n) (b := 10))
  exact ⟨c, cs, hcs, Nat.isDigit_of_mem_toDigits (b := 10) (n := n) (by decide) (by decide)
    (hcs ▸ List.mem_cons_self ..)⟩

theorem integer?_toString (i : Int) : integer? (toString i).toList = some i := by
  rcases toList_toString i with ⟨htext, hi⟩ | ⟨htext, hi⟩
  · obtain ⟨c, cs, hcs, hdigit⟩ := exists_digit_toDigits i.toNat
    have hmagnitude := magnitude?_toDigits i.toNat
    have hplus : c ≠ '+' := by
      rintro rfl
      exact absurd hdigit (by decide)
    have hminus : c ≠ '-' := by
      rintro rfl
      exact absurd hdigit (by decide)
    rw [hcs] at hmagnitude htext
    rw [htext]
    simp [integer?, natural?, hplus, hminus, hmagnitude, Int.toNat_of_nonneg hi]
  · rw [htext, integer?, magnitude?_toDigits]
    simp only [Option.pure_def, Option.bind_eq_bind, Option.bind_some, Option.map_some,
      Option.some.injEq]
    omega

theorem toString_injective {j : Int} (h : toString i = toString j) : i = j := by
  have hread := integer?_toString i
  rw [h, integer?_toString j] at hread
  exact (Option.some.inj hread).symm

theorem constant?_toString (h : -0x8000000000000000 ≤ i ∧ i < 0x8000000000000000) :
    constant? (toString i).toList = some i := by
  rw [constant?, integer?_toString, Option.filter_some, if_pos (decide_eq_true h)]

theorem range_of_constant? (h : constant? cs = some i) :
    -0x8000000000000000 ≤ i ∧ i < 0x8000000000000000 :=
  of_decide_eq_true (Option.filter_eq_some_iff.mp h).2

theorem exists_cons_toString (i : Int) :
    ∃ c cs, (toString i).toList = c :: cs ∧ (c.isDigit = true ∨ c = '-') := by
  rcases toList_toString i with ⟨htext, _⟩ | ⟨htext, _⟩
  · obtain ⟨c, cs, hcs, hdigit⟩ := exists_digit_toDigits i.toNat
    exact ⟨c, cs, htext.trans hcs, Or.inl hdigit⟩
  · exact ⟨'-', _, htext, Or.inr rfl⟩

theorem isDigit_or_minus_of_mem_toString (h : c ∈ (toString i).toList) :
    c.isDigit = true ∨ c = '-' := by
  have hdigit : ∀ {n}, c ∈ Nat.toDigits 10 n → c.isDigit = true :=
    Nat.isDigit_of_mem_toDigits (by decide) (by decide)
  rcases toList_toString i with ⟨htext, _⟩ | ⟨htext, _⟩ <;> rw [htext] at h
  · exact Or.inl (hdigit h)
  · exact (List.mem_cons.mp h).symm.imp hdigit id

section Words

structure Digits (cs : List Char) (n : Nat) : Prop where
  ne_nil : cs ≠ []
  digits : ∀ c ∈ cs, c.isDigit = true
  value : Nat.ofDigitChars 10 cs 0 = n

inductive Spells : List Char → Nat → Prop
  | bare {cs : List Char} {n : Nat} (h : Digits cs n) (hlt : n < 0x10000000000000000) : Spells cs n
  | signed {cs : List Char} {n : Nat} (h : Digits cs n) (hlt : n < 0x10000000000000000) :
      Spells ('+' :: cs) n

theorem magnitude?_eq_some_iff : magnitude? cs = some n ↔ Digits cs n := by
  have hvalue : cs.foldl (fun n c => 10 * n + (c.toNat - '0'.toNat)) 0 =
      Nat.ofDigitChars 10 cs 0 := Nat.ofDigitChars_eq_foldl.symm
  rw [magnitude?, hvalue]
  constructor
  · intro h
    split at h
    · exact nomatch h
    · rename_i hcs
      simp only [Bool.or_eq_true, List.isEmpty_iff, Bool.not_eq_true', not_or,
        Bool.not_eq_false, List.all_eq_true] at hcs
      exact ⟨hcs.1, hcs.2, Option.some.inj h⟩
  · rintro ⟨hne, hdigits, rfl⟩
    have hall : cs.all Char.isDigit = true := List.all_eq_true.mpr hdigits
    simp [hall, hne]

theorem word?_eq_some_iff : word? cs = some n ↔ Spells cs n := by
  rw [word?, Option.filter_eq_some_iff, decide_eq_true_iff]
  constructor
  · rintro ⟨h, hlt⟩
    unfold natural? at h
    split at h
    · exact .signed (magnitude?_eq_some_iff.mp h) hlt
    · exact .bare (magnitude?_eq_some_iff.mp h) hlt
  · rintro (⟨h, hlt⟩ | ⟨h, hlt⟩)
    · refine ⟨?_, hlt⟩
      unfold natural?
      split
      · exact absurd (h.digits '+' (List.mem_cons_self ..)) (by decide)
      · exact magnitude?_eq_some_iff.mpr h
    · exact ⟨magnitude?_eq_some_iff.mpr h, hlt⟩

theorem Spells.chars (h : Spells cs n) (hc : c ∈ cs) : c.isDigit = true ∨ c = '+' := by
  cases h with
  | bare h => exact Or.inl (h.digits c hc)
  | signed h => exact (List.mem_cons.mp hc).symm.imp_left (h.digits c)

theorem Spells.lt (h : Spells cs n) : n < 0x10000000000000000 := by
  cases h <;> assumption

theorem Spells.unique {m : Nat} (h : Spells cs n) (h' : Spells cs m) : n = m :=
  Option.some.inj ((word?_eq_some_iff.mpr h).symm.trans (word?_eq_some_iff.mpr h'))

theorem spells_toString (hn : n < 0x10000000000000000) : Spells (toString n).toList n := by
  have hdigits : (toString n).toList = Nat.toDigits 10 n := by
    rw [Nat.toString_eq_repr, Nat.repr_eq_ofList_toDigits, String.toList_ofList]
  rw [hdigits]
  exact .bare (magnitude?_eq_some_iff.mp (magnitude?_toDigits n)) hn

end Words

end Interproc.Decimal
