import ExKernel.Scull.ProcFiles
import ExKernel.Scullp.Account

/-!
# The file of scullp under /proc

`scullp_read_procmem` looks at the buffer more often than its counterpart in scull: after each item
and after each entry of an array, so that the text of a long array is cut off, too. But it does not
look between the line of a device and that of its first item, which are longer than 80 bytes
together. So the text may still run out of a buffer, and then it is printed again to a larger one.

The source declares the lock of a device as a `struct mutex`, and passes it to `down_interruptible`
and `up`, which are for a `struct semaphore`. What they make of it is not modelled: the answer of
`down_interruptible` is a parameter (`lockIntr`), and the results are about the printing where it
was 0 for every device.

## Main definitions

* `Scullp.scullpReadProcmem`: what the file prints.
* `Scullp.procChunks`: the text of the devices, cut where `scullp_read_procmem` looks.

## Main results

* `Scullp.procmem_whole_iff`: when the printing loop shows all devices.

## References

* `ldd/scullp/main.c`, lines 58–109.
-/

namespace ExKernel.Scullp

open Decimal
open Scull (Quantum QArray ProcEnv Stop Shows bytes padded procLimit seqBufSize)

/-- The rest of the kernel, for a read of the file; and how the pointer to a device is printed. -/
structure ScullpProcEnv extends ProcEnv where
  pDevice : ℕ → List UInt8

/-- The text `"\nDevice %i: qset %i, order %i, sz %li\n"`. -/
def deviceLine (i : ℕ) (d : ScullpDev) : List UInt8 :=
  newline :: (bytes "Device " ++ intText (Int32.ofNat i).toInt ++ bytes ": qset " ++
    intText d.qset.toInt ++ bytes ", order " ++ intText d.order.toInt ++ bytes ", sz " ++
    intText (Int64.ofNat d.size).toInt ++ [newline])

variable (env : ScullpProcEnv)

/-- The text `"  item at %p, qset at %p\n"`, for an item whose pointer is printed as `item`. -/
def itemLine (item : List UInt8) (data : Option QArray) : List UInt8 :=
  bytes "  item at " ++ item ++ bytes ", qset at " ++ env.pText none (data.map Block.id) ++
    [newline]

/-- The text `"    % 4i:%8p\n"`. -/
def pagesLine (j : ℕ) (q : Quantum) : List UInt8 :=
  bytes "    " ++ padded 4 (32 :: intText j) ++ bytes ":" ++ env.pText (some 8) (some q.id) ++
    [newline]

/-! ### Printing -/

/-- The entries of the array of the last item, with a look at the buffer after each of them.

Source: `ldd/scullp/main.c`, lines 83–88. -/
def printPages (limit : ℕ) (arr : QArray) : List ℕ → SeqFile UInt8 → SeqFile UInt8
  | [], s => s
  | j :: js, s =>
    let s := match arr.cells (j : ℤ) with
      | some q => s.print (pagesLine env j q)
      | none => s
    if limit < s.count then s else printPages limit arr js s

/-- The items of a device after the line of one of them: its entries, if it is the last one, and the
others.

Source: `ldd/scullp/main.c`, lines 78–89. -/
def printRest (limit qset : ℕ) (data : Option QArray) :
    List ScullpItem → SeqFile UInt8 → Except Stop (SeqFile UInt8)
  | [], s =>
    match data with
    | none => .ok s
    | some arr =>
      if qset ≤ arr.size then .ok (printPages env limit arr (List.range qset) s)
      else .error .fault
  | d :: next, s =>
    let s := s.print (itemLine env (env.pText none (some d.id)) d.data)
    if limit < s.count then .ok s else printRest limit qset d.data next s

/-- The loop of `scullp_read_procmem`, from the device with the number `i` on, with the answers of
`down_interruptible` that the environment gives.

Source: `ldd/scullp/main.c`, lines 70–94. -/
def readProcmemLoop (limit : ℕ) :
    ℕ → List ScullpDev → SeqFile UInt8 → Except Stop (SeqFile UInt8)
  | _, [], s => .ok s
  | i, d :: devs, s =>
    if env.lockIntr i then .error (.error (-ERESTARTSYS))
    else
      let s := (s.print (deviceLine i d)).print (itemLine env (env.pDevice i) d.data)
      (if limit < s.count then .ok s
        else printRest env limit d.entries d.data d.next s).bind fun s =>
          if limit < s.count then .ok s else readProcmemLoop limit (i + 1) devs s

/-- `scullp_read_procmem`, with the devices of the array `scullp_devices`.

Source: `ldd/scullp/main.c`, lines 64–96. -/
def scullpReadProcmem (devs : List ScullpDev) (s : SeqFile UInt8) :
    Except Stop (SeqFile UInt8) :=
  readProcmemLoop env (procLimit s.size) 0 devs s

/-! ### The texts of the devices -/

/-- The lines for the entries of an array. -/
def pagesChunks (arr : QArray) (js : List ℕ) : List (List UInt8) :=
  js.filterMap fun (j : ℕ) => (arr.cells (j : ℤ)).map (pagesLine env j)

/-- The text of the items of a device after the line of one of them, in pieces. -/
def restChunks (qset : ℕ) (data : Option QArray) : List ScullpItem → List (List UInt8)
  | [] =>
    match data with
    | none => []
    | some arr => pagesChunks env arr (List.range qset)
  | d :: next =>
    itemLine env (env.pText none (some d.id)) d.data :: restChunks qset d.data next

/-- The text of a device, in the pieces before which `scullp_read_procmem` looks at the buffer: its
line goes with that of its first item. -/
def deviceChunks (i : ℕ) (d : ScullpDev) : List (List UInt8) :=
  (deviceLine i d ++ itemLine env (env.pDevice i) d.data) ::
    restChunks env d.entries d.data d.next

/-- The text of the devices from the number `i` on, in pieces. -/
def chunksFrom : ℕ → List ScullpDev → List (List UInt8)
  | _, [] => []
  | i, d :: devs => deviceChunks env i d ++ chunksFrom (i + 1) devs

/-- The text of all devices, in pieces. -/
def procChunks (devs : List ScullpDev) : List (List UInt8) := chunksFrom env 0 devs

/-! ### What is printed -/

variable {env}

theorem printPages_eq {limit : ℕ} (arr : QArray) (js : List ℕ) {s : SeqFile UInt8}
    (h : s.count ≤ limit) :
    printPages env limit arr js s = s.printWhile limit (pagesChunks env arr js) := by
  induction js generalizing s with
  | nil => rfl
  | cons j js ih =>
    rw [printPages, pagesChunks, List.filterMap_cons]
    cases arr.cells (j : ℤ) with
    | none =>
      simp only [Option.map_none]
      rw [if_neg (Nat.not_lt_of_le h)]
      exact ih h
    | some q =>
      simp only [Option.map_some]
      rw [SeqFile.printWhile, if_pos h, ← SeqFile.printWhile_look]
      split_ifs with hlt
      · rfl
      · exact ih (Nat.le_of_not_lt hlt)

theorem ok_look {limit : ℕ} {cs : List (List UInt8)} {s : SeqFile UInt8}
    {rest : Except Stop (SeqFile UInt8)}
    (h : s.count ≤ limit → rest = .ok (s.printWhile limit cs)) :
    (if limit < s.count then .ok s else rest) = .ok (s.printWhile limit cs) := by
  split_ifs with hlt
  · rw [← SeqFile.printWhile_look, if_pos hlt]
  · exact h (Nat.le_of_not_lt hlt)

theorem printRest_eq {limit qset : ℕ} {data : Option QArray} {next : List ScullpItem}
    (hdata : ∀ arr, data = some arr → arr.size = qset)
    (hnext : ∀ d ∈ next, ∀ arr, d.data = some arr → arr.size = qset) {s : SeqFile UInt8}
    (h : s.count ≤ limit) :
    printRest env limit qset data next s =
      .ok (s.printWhile limit (restChunks env qset data next)) := by
  induction next generalizing data s with
  | nil =>
    cases data with
    | none => rfl
    | some arr =>
      rw [printRest, restChunks]
      simp only [hdata arr rfl, le_refl, if_true]
      rw [printPages_eq arr (List.range qset) h]
  | cons d next ih =>
    rw [printRest, restChunks, SeqFile.printWhile, if_pos h]
    exact ok_look fun hle => ih (hnext d List.mem_cons_self)
      (fun d' hd' => hnext d' (List.mem_cons_of_mem d hd')) hle

theorem readProcmemLoop_eq {limit : ℕ} {devs : List ScullpDev} (hshape : ∀ d ∈ devs, Sized d)
    (hlock : ∀ i, env.lockIntr i = false) (i : ℕ) {s : SeqFile UInt8} (h : s.count ≤ limit) :
    readProcmemLoop env limit i devs s = .ok (s.printWhile limit (chunksFrom env i devs)) := by
  induction devs generalizing i s with
  | nil => rfl
  | cons d devs ih =>
    have hd : Sized d := hshape d List.mem_cons_self
    have hrest : ∀ d ∈ devs, Sized d := fun d' hd' => hshape d' (List.mem_cons_of_mem d hd')
    have hfirst : ∀ arr, d.data = some arr → arr.size = d.entries :=
      fun arr harr => hd.size_eq (n := 0) harr
    have hnext : ∀ d' ∈ d.next, ∀ arr, d'.data = some arr → arr.size = d.entries :=
      fun d' hd' arr harr => hd.size_eq_of_mem (List.mem_cons_of_mem _ hd') harr
    rw [readProcmemLoop, if_neg (by simp [hlock i]), chunksFrom, deviceChunks, List.cons_append,
      SeqFile.printWhile, if_pos h, SeqFile.printWhile_append, SeqFile.print_print]
    simp only
    rw [ok_look fun hle => printRest_eq hfirst hnext hle]
    exact ok_look fun hle => ih hrest (i + 1) hle

/-! ### What is read -/

/-- The devices can be printed: their arrays are as long as the geometry says, `down_interruptible`
returns 0 for each of them, there is memory for buffers that hold the text of them all, and a pointer
is printed in 16 bytes at most. -/
structure Printable (env : ScullpProcEnv) (devs : List ScullpDev) : Prop where
  sized : ∀ d ∈ devs, Sized d
  lockIntr : ∀ i, env.lockIntr i = false
  seqAlloc : ∀ size ≤ 2 ^ 30, env.seqAlloc size = true
  length_lt : (procChunks env devs).flatten.length < 2 ^ 30
  pText_le : ∀ width p, (env.pText width p).length ≤ 16
  pDevice_le : ∀ i, (env.pDevice i).length ≤ 16

section Read

variable {devs : List ScullpDev}

theorem Printable.prints_procmem (h : Printable env devs) :
    SeqFile.Prints env.seqAlloc (scullpReadProcmem env devs) seqBufSize 80 (procChunks env devs) :=
  Scull.prints_of_look h.seqAlloc h.length_lt fun size =>
    readProcmemLoop_eq h.sized h.lockIntr 0 (by rw [SeqFile.count_fresh]; exact Nat.zero_le _)

theorem itemLine_ne_nil (item : List UInt8) (data : Option QArray) : itemLine env item data ≠ [] :=
  List.append_ne_nil_of_right_ne_nil _ (List.cons_ne_nil newline [])

theorem ne_nil_of_mem_restChunks {qset : ℕ} {data : Option QArray} {next : List ScullpItem}
    {c : List UInt8} (hc : c ∈ restChunks env qset data next) : c ≠ [] := by
  induction next generalizing data with
  | nil =>
    cases data with
    | none => cases hc
    | some arr =>
      obtain ⟨j, -, hj⟩ := List.mem_filterMap.mp hc
      obtain ⟨q, -, rfl⟩ := Option.map_eq_some_iff.mp hj
      exact List.append_ne_nil_of_right_ne_nil _ (List.cons_ne_nil newline [])
  | cons d next ih =>
    rcases List.mem_cons.mp hc with rfl | hc
    · exact itemLine_ne_nil _ _
    · exact ih hc

theorem ne_nil_of_mem_chunksFrom {i : ℕ} {c : List UInt8} (hc : c ∈ chunksFrom env i devs) :
    c ≠ [] := by
  induction devs generalizing i with
  | nil => cases hc
  | cons d devs ih =>
    rcases List.mem_append.mp hc with hc | hc
    · rcases List.mem_cons.mp hc with rfl | hc
      · exact List.cons_ne_nil _ _
      · exact ne_nil_of_mem_restChunks hc
    · exact ih hc

/-! ### The lengths of the lines -/

theorem length_intText_int32 (v : Int32) : (intText v.toInt).length ≤ 11 := by
  have hlow := v.le_toInt
  have hhigh := v.toInt_lt
  exact length_intText_le (by decide) (by omega)

theorem length_intText_int64 (v : Int64) : (intText v.toInt).length ≤ 20 := by
  have hlow := v.le_toInt
  have hhigh := v.toInt_lt
  exact length_intText_le (by decide) (by omega)

theorem length_deviceLine_le (i : ℕ) (d : ScullpDev) : (deviceLine i d).length ≤ 82 := by
  have hi := length_intText_int32 (Int32.ofNat i)
  have hqset := length_intText_int32 d.qset
  have horder := length_intText_int32 d.order
  have hsize := length_intText_int64 (Int64.ofNat d.size)
  have hfixed : (bytes "Device ").length + (bytes ": qset ").length + (bytes ", order ").length +
      (bytes ", sz ").length = 27 := by decide +kernel
  simp only [deviceLine, List.length_cons, List.length_append, List.length_nil]
  omega

theorem length_itemLine_le {item : List UInt8} (hitem : item.length ≤ 16)
    (hptr : ∀ width p, (env.pText width p).length ≤ 16) (data : Option QArray) :
    (itemLine env item data).length ≤ 53 := by
  have hdata := hptr none (data.map Block.id)
  have hfixed : (bytes "  item at ").length + (bytes ", qset at ").length = 20 := by
    decide +kernel
  simp only [itemLine, List.length_cons, List.length_append, List.length_nil]
  omega

theorem length_pagesLine_lt (hptr : ∀ width p, (env.pText width p).length ≤ 16) {j : ℕ}
    (hj : j < 2 ^ 31) (q : Quantum) : (pagesLine env j q).length < 80 := by
  have hq := hptr (some 8) (some q.id)
  have hnum : (intText (j : ℤ)).length ≤ 11 := length_intText_le (by decide) (by omega)
  have hfixed : (bytes "    ").length + (bytes ":").length = 5 := by decide +kernel
  simp only [pagesLine, padded, List.length_cons, List.length_append, List.length_nil,
    List.length_replicate]
  omega

/-- Behind the line of its first item, the pieces of a device are shorter than the margin. -/
theorem length_restChunks_lt (hptr : ∀ width p, (env.pText width p).length ≤ 16) {qset : ℕ}
    (hqset : qset ≤ 2 ^ 31) {data : Option QArray} {next : List ScullpItem} {c : List UInt8}
    (hc : c ∈ restChunks env qset data next) : c.length < 80 := by
  induction next generalizing data with
  | nil =>
    cases data with
    | none => cases hc
    | some arr =>
      obtain ⟨j, hj, hline⟩ := List.mem_filterMap.mp hc
      obtain ⟨q, -, rfl⟩ := Option.map_eq_some_iff.mp hline
      exact length_pagesLine_lt hptr ((List.mem_range.mp hj).trans_le hqset) q
  | cons d next ih =>
    rcases List.mem_cons.mp hc with rfl | hc
    · exact (length_itemLine_le (hptr none (some d.id)) hptr d.data).trans_lt (by decide)
    · exact ih hc

/-- **When the printing loop shows all devices**, where it gets past `down_interruptible`. What is
read are the first so many pieces of the text of all devices; and it is all of it if and only if no
piece but the last ends within 80 bytes before the end of one of the buffers, of one page, two, four
and so on. With a single device this means that all but its last line is within the first page but
for these bytes.

Source: `ldd/scullp/main.c`, lines 64–96. -/
theorem procmem_whole_iff (h : Printable env devs) :
    (∃ k, Shows env.toProcEnv (scullpReadProcmem env devs) ((procChunks env devs).take k).flatten) ∧
    (Shows env.toProcEnv (scullpReadProcmem env devs) (procChunks env devs).flatten ↔
      ∀ k pre post, ¬ SeqFile.EndsInMargin seqBufSize 80 (procChunks env devs) k pre post) ∧
    (devs.length = 1 →
      (Shows env.toProcEnv (scullpReadProcmem env devs) (procChunks env devs).flatten ↔
        (procChunks env devs).dropLast.flatten.length ≤ 4016)) := by
  have hne : ∀ c ∈ procChunks env devs, c ≠ [] := fun c hc => ne_nil_of_mem_chunksFrom hc
  refine ⟨?_, h.prints_procmem.read_whole_iff _ hne, fun hone => ?_⟩
  · obtain ⟨pre, post, N, hcs, hread⟩ := h.prints_procmem.read_prefix (.error (-ENOMEM))
    exact ⟨pre.length, N, by rw [hcs, List.take_left]; exact hread⟩
  · obtain ⟨d, rfl⟩ := List.length_eq_one_iff.mp hone
    have hchunks : procChunks env [d] = deviceChunks env 0 d := List.append_nil _
    refine h.prints_procmem.read_whole_iff_of_short _ hne (by decide) (fun c hc => ?_)
      fun c hc => ?_
    · rw [hchunks] at hc
      obtain rfl : deviceLine 0 d ++ itemLine env (env.pDevice 0) d.data = c := Option.some.inj hc
      have hline := length_deviceLine_le 0 d
      have hitem := length_itemLine_le (h.pDevice_le 0) h.pText_le d.data
      rw [List.length_append, seqBufSize]
      omega
    · rw [hchunks] at hc
      have hentries : d.entries ≤ 2 ^ 31 := by
        have hlt := d.qset.toInt_lt
        rw [ScullpDev.entries]
        omega
      exact length_restChunks_lt h.pText_le hentries hc

end Read

/-- Pointers of eight digits, nothing that interrupts, and enough memory. -/
def ScullpProcEnv.plain : ScullpProcEnv := ⟨.plain, fun _ => List.replicate 8 48⟩

/-- A device with three hundred pages. -/
def ScullpDev.full : ScullpDev where
  data := some ⟨1, 300, fun j => some ⟨j.toNat + 2, 4096, fun _ => 0⟩⟩
  next := []
  vmas := 0
  order := 0
  qset := 300
  size := 1228800

theorem printable_full : Printable .plain [.full] where
  sized d hd n arr harr := by
    obtain rfl := List.mem_singleton.mp hd
    cases n with
    | zero =>
      obtain rfl := Option.some.inj harr
      decide
    | succ n => cases harr
  lockIntr _ := rfl
  seqAlloc _ _ := rfl
  length_lt := by decide +kernel
  pText_le _ _ := List.length_replicate.trans_le (by decide)
  pDevice_le _ := List.length_replicate.trans_le (by decide)

/-- The lines of three hundred pages are cut off. -/
theorem procmem_cuts_off_full :
    ¬ Shows ScullpProcEnv.plain.toProcEnv (scullpReadProcmem .plain [.full])
      (procChunks .plain [.full]).flatten := by
  rw [(procmem_whole_iff printable_full).2.2 rfl]
  decide +kernel

end ExKernel.Scullp
