import ExKernel.Lib.Decimal
import ExKernel.Lib.Kernel
import ExKernel.Lib.Pieces

/-!
# A counter as a file

A file of `sfs` is a counter: its contents are the decimal text of the counter and a newline. The
text is made anew for every call of a read, and the counter is incremented by the first of them; the
later ones subtract one, so that they make the text that the first has begun. A write sets the
counter from a numeral.

## Main definitions

* `Fs.sfsReadFile`, `Fs.sfsWriteFile`: the operations of the driver.
* `Fs.readToEnd`: the calls of a reader who is alone.

## Main results

* `Fs.sfsCopy_spec`: the part of the text that a call delivers.
* `Fs.counter_reads_back`: what is read after a write.

## References

* `m_modules/fs/sfs.c`, lines 28–79.
-/

namespace ExKernel.Fs

open Decimal

/-- `TMPSIZ`. -/
def TMPSIZ : ℕ := 32

/-- What `"%d\n"` stands for. -/
def line (v : Int32) : List UInt8 := intText v.toInt ++ [newline]

/-- What a call of a read answers and leaves: its return value, the bytes that it delivers and the
position. -/
structure ReadResult where
  ret : ℤ
  bytes : List UInt8
  fPos : ℤ
  deriving DecidableEq

/-- The end of `sfs_read_file`, from the call of `snprintf` on.

Source: `m_modules/fs/sfs.c`, lines 44–55. -/
def sfsCopy (v : Int32) (count room : ℕ) (fPos : ℤ) : ReadResult :=
  let len := (line v).length
  let tmp := (line v).take (TMPSIZ - 1) ++ [0]
  if fPos > len then ⟨0, [], fPos⟩
  else
    let count := if count > sizeT (len - fPos) then sizeT (len - fPos) else count
    if count ≤ room then ⟨count, (tmp.drop fPos.toNat).take count, fPos + count⟩
    else ⟨-EFAULT, [], fPos⟩

/-- `sfs_read_file`: the reply, and the counter.

Source: `m_modules/fs/sfs.c`, lines 30–56. -/
def sfsReadFile (counter : Int32) (count room : ℕ) (fPos : ℤ) : ReadResult × Int32 :=
  let v := counter
  if fPos > 0 then (sfsCopy (v - 1) count room fPos, counter)
  else (sfsCopy v count room fPos, counter + 1)

/-- `simple_strtol(s, NULL, 10)`. -/
def simpleStrtol (s : List UInt8) : ℤ := loffT ((scan s).elim 0 Prod.fst)

/-- `sfs_write_file`: the return value, and the counter.

Source: `m_modules/fs/sfs.c`, lines 58–79. -/
def sfsWriteFile (counter : Int32) (src : UserBuffer) (count : ℕ) (fPos : ℤ) : ℤ × Int32 :=
  if fPos ≠ 0 then (-EINVAL, counter)
  else if count ≥ TMPSIZ then (-EINVAL, counter)
  else if count ≤ src.bytes.length then
    let tmp := src.bytes.take count ++ List.replicate (TMPSIZ - count) 0
    (count, Int32.ofInt (simpleStrtol tmp))
  else (-EFAULT, counter)

/-- The calls of a reader from call `i` on, which asks for `chunks i` bytes, until a call returns
zero: what was delivered, and the counter; or `none` after the given number of calls, or when one
fails. -/
def readToEnd (chunks : ℕ → ℕ) : ℕ → ℕ → ℤ → Int32 → Option (List UInt8 × Int32)
  | 0, _, _, _ => none
  | fuel + 1, i, fPos, counter =>
    let out := sfsReadFile counter (chunks i) (chunks i) fPos
    if out.1.ret < 0 then none
    else if out.1.ret = 0 then some ([], out.2)
    else (readToEnd chunks fuel (i + 1) out.1.fPos out.2).map fun rest =>
      (out.1.bytes ++ rest.1, rest.2)

/-! ### Reading -/

theorem length_line_pos (v : Int32) : 0 < (line v).length := by
  simp [line]

theorem length_line_le (v : Int32) : (line v).length ≤ 12 := by
  have hlow := v.le_toInt
  have hhigh := v.toInt_lt
  have htext : (intText v.toInt).length ≤ 10 + 1 := length_intText_le (by decide) (by omega)
  rw [line, List.length_append, List.length_singleton]
  omega

/-- The part of the line that a call delivers. -/
theorem sfsCopy_spec (v : Int32) {count room pos : ℕ} (hroom : count ≤ room)
    (hpos : pos ≤ (line v).length) :
    sfsCopy v count room pos =
      ⟨(((line v).drop pos).take count).length, ((line v).drop pos).take count,
        (pos + (((line v).drop pos).take count).length : ℕ)⟩ := by
  have hle := length_line_le v
  have hsize : sizeT ((line v).length - pos : ℤ) = (line v).length - pos := by
    rw [sizeT_of_nonneg (by omega) (by omega)]
    omega
  have hcount : (if count > (line v).length - pos then (line v).length - pos else count) =
      (((line v).drop pos).take count).length := by
    rw [List.length_take, List.length_drop]
    split_ifs <;> omega
  have htmp : (line v).take (TMPSIZ - 1) = line v := List.take_of_length_le (hle.trans (by decide))
  have hchunk : (((line v).drop pos).take count).length ≤ count := List.length_take_le _ _
  have hbytes : ((line v ++ [0]).drop pos).take (((line v).drop pos).take count).length =
      ((line v).drop pos).take count := by
    rw [List.drop_append_of_le_length hpos, List.length_take,
      List.take_append_of_le_length (by omega)]
    exact (List.take_eq_take_min ..).symm
  simp only [sfsCopy, hsize, hcount, htmp]
  rw [if_neg (by omega), if_pos (hchunk.trans hroom), Int.toNat_natCast, hbytes, Nat.cast_add]

theorem sfsCopy_of_gt (v : Int32) (count room : ℕ) {fPos : ℤ} (h : fPos > (line v).length) :
    sfsCopy v count room fPos = ⟨0, [], fPos⟩ := if_pos h

theorem readToEnd_later {chunks : ℕ → ℕ} (hchunks : ∀ i, 1 ≤ chunks i) (v : Int32) {pos : ℕ}
    (hpos : 0 < pos) (hle : pos ≤ (line v).length) {fuel : ℕ}
    (hfuel : (line v).length - pos < fuel) (i : ℕ) :
    readToEnd chunks fuel i pos (v + 1) = some ((line v).drop pos, v + 1) := by
  induction fuel generalizing pos i with
  | zero => omega
  | succ fuel ih =>
    have hlater : (pos : ℤ) > 0 := by omega
    have hsplit := Pieces.append_drop (line v) pos (chunks i)
    have hlen := Pieces.length_eq (line v) pos (chunks i)
    have hchunk := hchunks i
    rw [readToEnd, sfsReadFile, if_pos hlater, Int32.add_sub_cancel, sfsCopy_spec v le_rfl hle]
    simp only
    generalize ((line v).drop pos).take (chunks i) = chunk at hsplit hlen ⊢
    rw [if_neg (by omega)]
    rcases hle.eq_or_lt with hend | hlt
    · rw [if_pos (by omega), List.drop_of_length_le hend.ge]
    · rw [if_neg (by omega), ih (by omega) (by omega) (by omega), Option.map_some, hsplit]

theorem readToEnd_eq {chunks : ℕ → ℕ} (hchunks : ∀ i, 1 ≤ chunks i) (v : Int32) {fuel : ℕ}
    (hfuel : 13 ≤ fuel) : readToEnd chunks fuel 0 0 v = some (line v, v + 1) := by
  obtain ⟨fuel, rfl⟩ := Nat.exists_eq_succ_of_ne_zero (show fuel ≠ 0 by omega)
  have hsplit := Pieces.append_drop (line v) 0 (chunks 0)
  have hlen := Pieces.length_eq (line v) 0 (chunks 0)
  have hchunk := hchunks 0
  have hpos := length_line_pos v
  have hle := length_line_le v
  have hcopy : sfsCopy v (chunks 0) (chunks 0) 0 = _ := sfsCopy_spec v le_rfl (Nat.zero_le _)
  rw [readToEnd, sfsReadFile, if_neg (lt_irrefl 0), hcopy]
  simp only
  generalize ((line v).drop 0).take (chunks 0) = chunk at hsplit hlen ⊢
  rw [if_neg (by omega), if_neg (by omega),
    readToEnd_later hchunks v (by omega) (by omega) (by omega), Option.map_some, hsplit,
    List.drop_zero]

/-! ### Writing -/

/-- A numeral of a counter, possibly with a newline, is read as the counter. -/
theorem simpleStrtol_numeral {text tail : List UInt8} {v : Int32} (h : IsNumeral text v.toInt)
    (htail : NoDigitHead tail) : simpleStrtol (text ++ tail) = v.toInt := by
  have hlow := v.le_toInt
  have hhigh := v.toInt_lt
  rw [simpleStrtol, scan_append h htail]
  exact loffT_of_range (by simp only [Option.elim_some]; omega)
    (by simp only [Option.elim_some]; omega)

/-- **A counter reads back.** For every value, every numeral of it, with or without a newline, that
the driver accepts, and every sequence of chunks: the write sets the counter, and a reader who is
alone obtains the text of the value and a newline, and leaves the next value.

Source: `m_modules/fs/sfs.c`, lines 30–79. -/
theorem counter_reads_back (v counter : Int32) (text tail : List UInt8) (chunks : ℕ → ℕ)
    (fuel : ℕ) (htext : IsNumeral text v.toInt) (htail : tail = [] ∨ tail = [newline])
    (hlen : (text ++ tail).length ≤ 31) (hchunks : ∀ i, 1 ≤ chunks i) (hfuel : 13 ≤ fuel) :
    sfsWriteFile counter ⟨text ++ tail, []⟩ (text ++ tail).length 0 =
        (((text ++ tail).length : ℤ), v) ∧
      readToEnd chunks fuel 0 0 v = some (intText v.toInt ++ [newline], v + 1) := by
  refine ⟨?_, readToEnd_eq hchunks v hfuel⟩
  have hend : NoDigitHead (tail ++ List.replicate (TMPSIZ - (text ++ tail).length) 0) := by
    obtain ⟨n, hn⟩ : ∃ n, TMPSIZ - (text ++ tail).length = n + 1 :=
      ⟨TMPSIZ - (text ++ tail).length - 1, by simp only [TMPSIZ]; omega⟩
    rw [hn]
    rcases htail with rfl | rfl <;> simp [NoDigitHead, List.replicate_succ, newline, isDigit]
  rw [sfsWriteFile, if_neg (not_not.mpr rfl), if_neg (by simp only [TMPSIZ]; omega),
    if_pos le_rfl]
  simp only
  rw [List.take_length, List.append_assoc, simpleStrtol_numeral htext hend, Int32.ofInt_toInt]

/-- The greatest value, written with leading zeros and read byte by byte: the counter wraps. -/
theorem counter_reads_back_max :
    readToEnd (fun _ => 1) 20 0 0 Int32.maxValue =
      some (intText 2147483647 ++ [newline], Int32.minValue) := by
  have htext : IsNumeral ([48, 48] ++ intText 2147483647) Int32.maxValue.toInt :=
    ⟨[48, 48] ++ intText 2147483647, by decide, List.all_eq_true.mp (by decide),
      Or.inl ⟨rfl, by decide⟩⟩
  exact (counter_reads_back Int32.maxValue 0 _ [newline] (fun _ => 1) 20 htext (Or.inr rfl)
    (by decide) (fun _ => le_rfl) (by decide)).2

end ExKernel.Fs
