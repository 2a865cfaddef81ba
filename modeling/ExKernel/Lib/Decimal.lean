import Mathlib.Data.Nat.Digits.Lemmas

/-!
# Decimal numerals

The text of an integer, as bytes, and how it is read. A numeral is an optional minus sign and then
one digit or more; leading zeros are allowed, and `intText` is the numeral without them. Reading
takes the digits that there are and stops at the first byte that is not one, so that a numeral in
front of other text is read back, provided that the text does not begin with a digit.

## Main definitions

* `Decimal.intText`: the numeral of an integer.
* `Decimal.IsNumeral`: the numerals of an integer.
* `Decimal.scan`: the integer at the beginning of a text, and the text behind it.

## Main results

* `Decimal.isNumeral_intText`: what is written is a numeral.
* `Decimal.scan_append`: what is read is what was written.
* `Decimal.intText_injective`: an integer is determined by its text.
-/

namespace ExKernel.Decimal

/-- The minus sign. -/
def minus : UInt8 := 45

/-- The byte that ends a line. -/
def newline : UInt8 := 10

/-- The byte of a digit. -/
def digit (d : ℕ) : UInt8 := UInt8.ofNat (48 + d)

/-- `isdigit`. -/
def isDigit (c : UInt8) : Bool := 48 ≤ c.toNat && c.toNat ≤ 57

/-- The text of a natural number. -/
def natText (n : ℕ) : List UInt8 :=
  if n = 0 then [digit 0] else ((Nat.digits 10 n).map digit).reverse

/-- The text of an integer: `%d`. -/
def intText (v : ℤ) : List UInt8 :=
  if v < 0 then minus :: natText v.natAbs else natText v.natAbs

/-- The number that is written with the given digits. -/
def value (ds : List UInt8) : ℕ := ds.foldl (fun n c => (c.toNat - 48) + 10 * n) 0

/-- The text is a numeral of the integer. -/
def IsNumeral (text : List UInt8) (v : ℤ) : Prop :=
  ∃ ds, ds ≠ [] ∧ (∀ c ∈ ds, isDigit c = true) ∧
    ((text = ds ∧ v = value ds) ∨ (text = minus :: ds ∧ v = -value ds))

/-- The natural number at the beginning of a text, and the text behind it. -/
def scanNat (s : List UInt8) : Option (ℕ × List UInt8) :=
  if s.takeWhile isDigit = [] then none
  else some (value (s.takeWhile isDigit), s.dropWhile isDigit)

/-- The integer at the beginning of a text, and the text behind it. -/
def scan : List UInt8 → Option (ℤ × List UInt8)
  | [] => none
  | c :: s =>
    if c = minus then (scanNat s).map fun out => (-(out.1 : ℤ), out.2)
    else (scanNat (c :: s)).map fun out => ((out.1 : ℤ), out.2)

/-- `isspace`. -/
def isSpace (c : UInt8) : Bool := (9 ≤ c.toNat && c.toNat ≤ 13) || c == 32 || c == 160

/-- `skip_spaces`. -/
def skipSpaces (s : List UInt8) : List UInt8 := s.dropWhile isSpace

/-! ### Writing -/

theorem isDigit_digit {d : ℕ} (h : d < 10) : isDigit (digit d) = true := by
  interval_cases d <;> rfl

theorem toNat_digit {d : ℕ} (h : d < 10) : (digit d).toNat - 48 = d := by
  interval_cases d <;> rfl

theorem isDigit_of_mem_natText {n : ℕ} {c : UInt8} (h : c ∈ natText n) : isDigit c = true := by
  unfold natText at h
  split_ifs at h
  · exact List.mem_singleton.mp h ▸ rfl
  · obtain ⟨d, hd, rfl⟩ := List.mem_map.mp (List.mem_reverse.mp h)
    exact isDigit_digit (Nat.digits_lt_base (by decide) hd)

theorem natText_ne_nil (n : ℕ) : natText n ≠ [] := by
  unfold natText
  split_ifs with hn
  · simp
  · simpa using Nat.digits_ne_nil_iff_ne_zero.mpr hn

theorem value_reverse_map {L : List ℕ} (h : ∀ d ∈ L, d < 10) :
    value (L.map digit).reverse = Nat.ofDigits 10 L := by
  rw [value, List.foldl_reverse, List.foldr_map, Nat.ofDigits_eq_foldr]
  induction L with
  | nil => rfl
  | cons d L ih =>
    rw [List.foldr_cons, List.foldr_cons, ih fun d' hd' => h d' (List.mem_cons_of_mem d hd'),
      toNat_digit (h d List.mem_cons_self)]
    rfl

theorem value_natText (n : ℕ) : value (natText n) = n := by
  unfold natText
  split_ifs with hn
  · exact hn.symm
  · rw [value_reverse_map fun d hd => Nat.digits_lt_base (by decide) hd, Nat.ofDigits_digits]

/-- **What is written is a numeral.** -/
theorem isNumeral_intText (v : ℤ) : IsNumeral (intText v) v := by
  refine ⟨natText v.natAbs, natText_ne_nil _, fun c => isDigit_of_mem_natText, ?_⟩
  unfold intText
  split_ifs with hneg
  · exact Or.inr ⟨rfl, by rw [value_natText]; omega⟩
  · exact Or.inl ⟨rfl, by rw [value_natText]; omega⟩

theorem length_intText_le {v : ℤ} {k : ℕ} (hk : 0 < k) (h : v.natAbs < 10 ^ k) :
    (intText v).length ≤ k + 1 := by
  have hnat : (natText v.natAbs).length ≤ k := by
    unfold natText
    split_ifs with hn
    · exact hk
    · rw [List.length_reverse, List.length_map, Nat.digits_length_le_iff (by decide)]
      exact h
  unfold intText
  split_ifs
  · exact Nat.succ_le_succ hnat
  · omega

/-! ### Reading -/

/-- The text does not begin with a digit. -/
def NoDigitHead (s : List UInt8) : Prop := ∀ c ∈ s.head?, isDigit c = false

theorem isDigit_minus : isDigit minus = false := rfl

theorem scanNat_append {ds rest : List UInt8} (hne : ds ≠ [])
    (hds : ∀ c ∈ ds, isDigit c = true) (hrest : NoDigitHead rest) :
    scanNat (ds ++ rest) = some (value ds, rest) := by
  have hstop : rest.takeWhile isDigit = [] ∧ rest.dropWhile isDigit = rest := by
    cases rest with
    | nil => exact ⟨rfl, rfl⟩
    | cons c rest => simp [hrest c rfl]
  rw [scanNat, List.takeWhile_append_of_pos hds, List.dropWhile_append_of_pos hds, hstop.1,
    hstop.2, List.append_nil, if_neg hne]

/-- **What is read** is what was written. -/
theorem scan_append {text rest : List UInt8} {v : ℤ} (h : IsNumeral text v)
    (hrest : NoDigitHead rest) : scan (text ++ rest) = some (v, rest) := by
  obtain ⟨ds, hne, hds, ⟨rfl, rfl⟩ | ⟨rfl, rfl⟩⟩ := h
  · cases text with
    | nil => exact absurd rfl hne
    | cons c text =>
      have hc : c ≠ minus := fun heq => by
        have := hds c List.mem_cons_self
        rw [heq, isDigit_minus] at this
        cases this
      rw [List.cons_append, scan, if_neg hc, ← List.cons_append, scanNat_append hne hds hrest]
      rfl
  · rw [List.cons_append, scan, if_pos rfl, scanNat_append hne hds hrest]
    rfl

theorem isDigit_of_isSpace {c : UInt8} (h : isSpace c = true) : isDigit c = false := by
  simp only [isSpace, Bool.or_eq_true, Bool.and_eq_true, decide_eq_true_eq, beq_iff_eq,
    ← UInt8.toNat_inj, UInt8.reduceToNat] at h
  simp only [isDigit, Bool.and_eq_false_iff, decide_eq_false_iff_not]
  omega

theorem skipSpaces_append {spaces text : List UInt8} {v : ℤ} (hspaces : ∀ c ∈ spaces, isSpace c)
    (h : IsNumeral text v) (rest : List UInt8) :
    skipSpaces (spaces ++ (text ++ rest)) = text ++ rest := by
  rw [skipSpaces, List.dropWhile_append_of_pos hspaces]
  obtain ⟨ds, hne, hds, ⟨rfl, -⟩ | ⟨rfl, -⟩⟩ := h
  · cases text with
    | nil => exact absurd rfl hne
    | cons c text =>
      have hdigit := hds c List.mem_cons_self
      have hspace : ¬ isSpace c = true := fun hc => by
        rw [isDigit_of_isSpace hc] at hdigit
        cases hdigit
      simp [hspace]
  · rfl

/-- An integer is determined by its text. -/
theorem intText_injective : Function.Injective intText := by
  intro v w h
  have hend : NoDigitHead [] := by simp [NoDigitHead]
  have hv := scan_append (isNumeral_intText v) hend
  have hw := scan_append (isNumeral_intText w) hend
  rw [h] at hv
  exact (Prod.mk.inj (Option.some.inj (hv.symm.trans hw))).1

end ExKernel.Decimal
