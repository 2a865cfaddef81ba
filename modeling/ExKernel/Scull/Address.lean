import ExKernel.Scull.Layout

/-!
# Which positions have a place of their own

The driver divides a position in `long` and keeps the quotient, the number of the quantum set, in an
`int`. The remainder is smaller than the product of the geometry, which is an `int` itself, so only
the number of the set can lose something; it does from the set `2 ^ 31` on. Positions before that
have a place of their own. A position after it has the place of another one, or a set with a
negative number.

## Main definitions

* `Scull.PlaceOf`: the place of a position, from which the position can be computed back.

## Main results

* `Scull.place_is_exact_iff`: the positions that have a place of their own.
* `Scull.positions_alias`: positions that have not.

## References

* `ldd/scull/main.c`, lines 299–301, 311–317, 343–345, 351–357 and 524–548.
-/

namespace ExKernel.Scull

variable {quantum qset : Int32}

/-- A place of the position `p`: the number of the quantum set is not negative, the entry and the
offset are those of an array and of a quantum, and together they give the position. -/
structure PlaceOf (quantum qset : Int32) (p : ℤ) (place : Place) : Prop where
  item_nonneg : 0 ≤ place.item.toInt
  sPos_nonneg : 0 ≤ place.sPos
  sPos_lt : place.sPos < qset.toInt
  qPos_nonneg : 0 ≤ place.qPos
  qPos_lt : place.qPos < quantum.toInt
  sum_eq : place.item.toInt * quantum.toInt * qset.toInt + place.sPos * quantum.toInt +
    place.qPos = p

/-- A position whose quantum set has a number that is an `int` has a place. -/
theorem exists_placeOf (h : GoodGeometry quantum qset) {p : ℕ}
    (hfit : (p : ℤ) / (quantum.toInt * qset.toInt) < 2 ^ 31) :
    ∃ place, locate quantum qset p = some place ∧ PlaceOf quantum qset p place := by
  refine ⟨_, locate_eq h p, ?_⟩
  have hsPos := Nat.mod_lt (p / quantum.toInt.toNat) h.toNat_qset_pos
  have hqPos := Nat.mod_lt p h.toNat_quantum_pos
  have hQ := h.toNat_quantum
  have hS := h.toNat_qset
  generalize quantum.toInt.toNat = Q at *
  generalize qset.toInt.toNat = S at *
  rw [← hQ, ← hS, ← Nat.cast_mul, ← Int.natCast_ediv] at hfit
  have hitem : (Int32.ofInt (p / (Q * S) : ℕ)).toInt = (p / (Q * S) : ℕ) := by
    generalize p / (Q * S) = n at *
    exact Int32.toInt_ofInt_of_le (by omega) (by omega)
  refine ⟨hitem.ge.trans' (Int.natCast_nonneg _), Int.natCast_nonneg _, ?_, Int.natCast_nonneg _,
    ?_, ?_⟩
  · simp only
    omega
  · simp only
    omega
  have hsum : p / (Q * S) * Q * S + p / Q % S * Q + p % Q = p := by
    rw [Nat.mul_right_comm, ← Nat.add_mul, item_mul_add]
    exact Nat.div_add_mod' _ _
  simp only [hitem, ← hQ, ← hS]
  exact_mod_cast hsum

/-- A position that has a place is in a quantum set with a number that is an `int`. -/
theorem PlaceOf.fits (h : GoodGeometry quantum qset) {p : ℤ} {place : Place}
    (hplace : PlaceOf quantum qset p place) : p / (quantum.toInt * qset.toInt) < 2 ^ 31 := by
  have hpos : 0 < quantum.toInt * qset.toInt :=
    Int.mul_pos (by have := h.quantum_pos; omega) (by have := h.qset_pos; omega)
  have hitem := place.item.toInt_lt
  have hrest : place.sPos * quantum.toInt + place.qPos < quantum.toInt * qset.toInt := by
    have hle : (place.sPos + 1) * quantum.toInt ≤ qset.toInt * quantum.toInt :=
      mul_le_mul_of_nonneg_right (by have := hplace.sPos_lt; omega)
        (by have := h.quantum_pos; omega)
    have hlt := hplace.qPos_lt
    rw [add_mul, one_mul] at hle
    rw [mul_comm quantum.toInt]
    omega
  have hle : (place.item.toInt + 1) * (quantum.toInt * qset.toInt) ≤
      2 ^ 31 * (quantum.toInt * qset.toInt) := mul_le_mul_of_nonneg_right (by omega) hpos.le
  refine Int.ediv_lt_of_lt_mul hpos ?_
  have hsum := hplace.sum_eq
  rw [mul_assoc] at hsum
  rw [add_mul, one_mul] at hle
  omega

/-- **Which positions have a place of their own.** For every geometry that the driver can work with
and every position that a seek accepts, the divisions of the driver give a place from which the
position can be computed back, if and only if the number of the quantum set of the position is an
`int`. Two such positions that have the same place are the same.

Source: `ldd/scull/main.c`, lines 311–317 and 351–357. -/
theorem place_is_exact_iff (h : GoodGeometry quantum qset) :
    (∀ p : ℤ, 0 ≤ p → p < 2 ^ 63 →
      ((∃ place, locate quantum qset p = some place ∧ PlaceOf quantum qset p place) ↔
        p / (quantum.toInt * qset.toInt) < 2 ^ 31)) ∧
    ∀ p p' : ℤ, 0 ≤ p → 0 ≤ p' → p / (quantum.toInt * qset.toInt) < 2 ^ 31 →
      p' / (quantum.toInt * qset.toInt) < 2 ^ 31 → locate quantum qset p = locate quantum qset p' →
      p = p' := by
  constructor
  · intro p hp _
    obtain ⟨p, rfl⟩ := Int.eq_ofNat_of_zero_le hp
    constructor
    · rintro ⟨place, -, hplace⟩
      exact hplace.fits h
    · exact exists_placeOf h
  · intro p p' hp hp' hfit hfit' heq
    obtain ⟨p, rfl⟩ := Int.eq_ofNat_of_zero_le hp
    obtain ⟨p', rfl⟩ := Int.eq_ofNat_of_zero_le hp'
    obtain ⟨place, hlocate, hplace⟩ := exists_placeOf h hfit
    obtain ⟨place', hlocate', hplace'⟩ := exists_placeOf h hfit'
    rw [hlocate, hlocate'] at heq
    cases heq
    exact hplace.sum_eq.symm.trans hplace'.sum_eq

/-- The second byte of the second quantum of the second quantum set, with the default geometry. -/
theorem place_is_exact_default :
    ∃ place, locate SCULL_QUANTUM SCULL_QSET 4004001 = some place ∧
      PlaceOf SCULL_QUANTUM SCULL_QSET 4004001 place :=
  ((place_is_exact_iff ⟨by decide, by decide, by decide⟩).1 4004001 (by decide) (by decide)).mpr
    (by decide)

/-- With quantum sets of one byte, seeks accept the positions `2 ^ 31` and `2 ^ 32`; the first has a
negative quantum set, and the second has the place of the position 0. -/
theorem positions_alias :
    GoodGeometry 1 1 ∧
      scullLlseek (.init ⟨1, 1, 0⟩) 0 (2 ^ 31) 0 = (2 ^ 31, 2 ^ 31) ∧
      (locate 1 1 (2 ^ 31)).map (fun place => place.item.toInt) = some (-2 ^ 31) ∧
      scullLlseek (.init ⟨1, 1, 0⟩) 0 (2 ^ 32) 0 = (2 ^ 32, 2 ^ 32) ∧
      locate 1 1 (2 ^ 32) = locate 1 1 0 ∧
      ¬ ∃ place, locate 1 1 (2 ^ 32) = some place ∧ PlaceOf 1 1 (2 ^ 32) place := by
  refine ⟨⟨by decide, by decide, by decide⟩, rfl, rfl, rfl, rfl, ?_⟩
  rintro ⟨place, hplace, hexact⟩
  cases hplace
  exact absurd hexact.sum_eq (by decide)

end ExKernel.Scull
