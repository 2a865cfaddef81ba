import ExKernel.Lib.Decimal
import ExKernel.Lib.SeqFile
import ExKernel.Scull.Account

/-!
# The files under /proc

A module that is built for debugging shows its devices in two files. `scullseq` has a record for
each device, which the file system layer prints one by one, each as often as it takes to find a
buffer that it fits into. `scullmem` has a single record for all devices; to keep it within the
buffer, `scull_read_procmem` looks at the number of bytes in the buffer before each device and each
item of a device, and stops when less than 80 are left.

With that it keeps the record from being printed to a larger buffer. What it has printed then fits,
and is shown as if it were all.

## Main definitions

* `Scull.scullReadProcmem`, `Scull.scullSeqShow`: what the two files print.
* `Scull.procChunks`: the text of the devices, cut where `scull_read_procmem` looks.
* `Scull.Shows`: what is read from a record.

## Main results

* `Scull.scullmem_eq_scullseq_iff`: when the two files show the same.

## References

* `ldd/scull/main.c`, lines 84–184.
-/

namespace ExKernel.Scull

open Decimal

/-! ### The texts -/

/-- The bytes of a text of the source. -/
def bytes (s : String) : List UInt8 := s.toUTF8.toList

/-- A text with blanks in front of it, at least as long as `width`. -/
def padded (width : ℕ) (text : List UInt8) : List UInt8 :=
  List.replicate (width - text.length) 32 ++ text

/-- The rest of the kernel, for a read of one of the files: how pointers are printed, with a width
or without; whether taking the lock of a device is interrupted; and which buffers there is memory
for. -/
structure ProcEnv where
  pText : Option ℕ → Option ℕ → List UInt8
  lockIntr : ℕ → Bool
  seqAlloc : ℕ → Bool

/-- The text `"\nDevice %i: qset %i, q %i, sz %li\n"`. -/
def deviceLine (i : ℕ) (d : ScullDev) : List UInt8 :=
  newline :: (bytes "Device " ++ intText (Int32.ofNat i).toInt ++ bytes ": qset " ++
    intText d.qset.toInt ++ bytes ", q " ++ intText d.quantum.toInt ++ bytes ", sz " ++
    intText (Int64.ofNat d.size).toInt ++ [newline])

variable (env : ProcEnv)

/-- The text `"  item at %p, qset at %p\n"`. -/
def itemLine (qs : QSet) : List UInt8 :=
  bytes "  item at " ++ env.pText none (some qs.id) ++ bytes ", qset at " ++
    env.pText none (qs.data.map Block.id) ++ [newline]

/-- The text `"    % 4i: %8p\n"`. -/
def quantumLine (j : ℕ) (q : Quantum) : List UInt8 :=
  bytes "    " ++ padded 4 (32 :: intText j) ++ bytes ": " ++ env.pText (some 8) (some q.id) ++
    [newline]

/-! ### Printing -/

/-- Why nothing is shown: an error that is returned, or an access outside an allocated block. -/
inductive Stop
  | error (code : ℤ)
  | fault

/-- The quanta of the last item.

Source: `ldd/scull/main.c`, lines 105–109 and 156–160. -/
def printQuanta (qset : ℕ) (arr : QArray) (s : SeqFile UInt8) : SeqFile UInt8 :=
  (List.range qset).foldl (fun s (j : ℕ) =>
    match arr.cells (j : ℤ) with
    | some q => s.print (quantumLine env j q)
    | none => s) s

/-- An item of a device; the last one with its quanta.

Source: `ldd/scull/main.c`, lines 102–109 and 154–160. -/
def printItem (qset : ℕ) (qs : QSet) (last : Bool) (s : SeqFile UInt8) :
    Except Stop (SeqFile UInt8) :=
  let s := s.print (itemLine env qs)
  match qs.data with
  | none => .ok s
  | some arr =>
    if last then
      if qset ≤ arr.size then .ok (printQuanta env qset arr s) else .error .fault
    else .ok s

/-- The loop over the items of a device, which goes on as long as `go` holds of the buffer.

Source: `ldd/scull/main.c`, lines 101–110 and 153–161. -/
def printItems (qset : ℕ) (go : SeqFile UInt8 → Bool) :
    List QSet → SeqFile UInt8 → Except Stop (SeqFile UInt8)
  | [], s => .ok s
  | qs :: next, s =>
    if go s then (printItem env qset qs next.isEmpty s).bind (printItems qset go next) else .ok s

/-- `limit` of `scull_read_procmem`, an `int`, as it is compared with `s->count`.

Source: `ldd/scull/main.c`, line 92. -/
def procLimit (size : ℕ) : ℕ := sizeT (Int32.ofInt ((size : ℤ) - 80)).toInt

/-- The loop of `scull_read_procmem`, from the device with the number `i` on.

Source: `ldd/scull/main.c`, lines 94–112. -/
def readProcmemLoop (limit : ℕ) :
    ℕ → List ScullDev → SeqFile UInt8 → Except Stop (SeqFile UInt8)
  | _, [], s => .ok s
  | i, d :: devs, s =>
    if s.count ≤ limit then
      if env.lockIntr i then .error (.error (-ERESTARTSYS))
      else
        (printItems env d.s (fun s => s.count ≤ limit) d.data (s.print (deviceLine i d))).bind
          (readProcmemLoop limit (i + 1) devs)
    else .ok s

/-- `scull_read_procmem`, with the devices of the array `scull_devices`.

Source: `ldd/scull/main.c`, lines 89–114. -/
def scullReadProcmem (devs : List ScullDev) (s : SeqFile UInt8) : Except Stop (SeqFile UInt8) :=
  readProcmemLoop env (procLimit s.size) 0 devs s

/-- `scull_seq_show`, for the device with the number `i`.

Source: `ldd/scull/main.c`, lines 142–164. -/
def scullSeqShow (i : ℕ) (dev : ScullDev) (s : SeqFile UInt8) : Except Stop (SeqFile UInt8) :=
  if env.lockIntr i then .error (.error (-ERESTARTSYS))
  else printItems env dev.s (fun _ => true) dev.data (s.print (deviceLine i dev))

/-- `scull_seq_start`: the device at the position.

Source: `ldd/scull/main.c`, lines 122–127. -/
def scullSeqStart (devs : List ScullDev) (pos : ℕ) : Option ScullDev :=
  if h : pos ≥ devs.length then none else some (devs.get ⟨pos, Nat.lt_of_not_le h⟩)

/-- `scull_seq_next`: the next device, and its position.

Source: `ldd/scull/main.c`, lines 129–135. -/
def scullSeqNext (devs : List ScullDev) (pos : ℕ) : Option ScullDev × ℕ :=
  (scullSeqStart devs (pos + 1), pos + 1)

/-- The records of `scullseq`, at most `n` of them, from the device `v` at a position on: the
devices that `scull_seq_show` is called for, with their positions. -/
def seqRecords (devs : List ScullDev) : ℕ → Option ScullDev → ℕ → List (ℕ × ScullDev)
  | 0, _, _ => []
  | _ + 1, none, _ => []
  | n + 1, some v, pos =>
    let next := scullSeqNext devs pos
    (pos, v) :: seqRecords devs n next.1 next.2

/-! ### The texts of the devices -/

/-- The lines for the quanta of an array. -/
def quantaText (qset : ℕ) (arr : QArray) : List UInt8 :=
  (List.range qset).flatMap fun (j : ℕ) =>
    match arr.cells (j : ℤ) with
    | some q => quantumLine env j q
    | none => []

/-- The text of an item. -/
def itemText (qset : ℕ) (qs : QSet) (last : Bool) : List UInt8 :=
  itemLine env qs ++
    match qs.data with
    | none => []
    | some arr => if last then quantaText env qset arr else []

/-- The texts of the items of a device. -/
def itemChunks (qset : ℕ) : List QSet → List (List UInt8)
  | [] => []
  | qs :: next => itemText env qset qs next.isEmpty :: itemChunks qset next

/-- The text of a device, in pieces. -/
def deviceChunks (i : ℕ) (d : ScullDev) : List (List UInt8) :=
  deviceLine i d :: itemChunks env d.s d.data

/-- The text of the devices from the number `i` on, in the pieces before which `scull_read_procmem`
looks at the buffer. -/
def chunksFrom : ℕ → List ScullDev → List (List UInt8)
  | _, [] => []
  | i, d :: devs => deviceChunks env i d ++ chunksFrom (i + 1) devs

/-- The text of all devices, in pieces. -/
def procChunks (devs : List ScullDev) : List (List UInt8) := chunksFrom env 0 devs

/-! ### What is printed -/

theorem printQuanta_eq (qset : ℕ) (arr : QArray) (s : SeqFile UInt8) :
    printQuanta env qset arr s = s.print (quantaText env qset arr) := by
  unfold printQuanta quantaText
  induction List.range qset generalizing s with
  | nil => exact s.print_nil.symm
  | cons j js ih =>
    rw [List.foldl_cons, List.flatMap_cons, ih, ← SeqFile.print_print]
    cases arr.cells (j : ℤ) with
    | none => rw [SeqFile.print_nil]
    | some q => rfl

variable {env}

theorem printItem_eq {S : ℕ} {qs : QSet} (h : ∀ arr, qs.data = some arr → arr.size = S)
    (last : Bool) (s : SeqFile UInt8) :
    printItem env S qs last s = .ok (s.print (itemText env S qs last)) := by
  rw [printItem, itemText, ← SeqFile.print_print]
  cases hdata : qs.data with
  | none => simp only [SeqFile.print_nil]
  | some arr =>
    cases last with
    | false => simp [SeqFile.print_nil]
    | true => simp [h arr hdata, printQuanta_eq]

theorem printItems_limit (limit : ℕ) {Q S : ℕ} {data : List QSet} (h : Shaped Q S data)
    (s : SeqFile UInt8) :
    printItems env S (fun s => s.count ≤ limit) data s =
      .ok (s.printWhile limit (itemChunks env S data)) := by
  induction data generalizing s with
  | nil => rfl
  | cons qs next ih =>
    have hnext : Shaped Q S next := fun d hd => h d (List.mem_cons_of_mem qs hd)
    have hsize : ∀ arr, qs.data = some arr → arr.size = S := fun arr harr =>
      (h qs List.mem_cons_self arr harr).1
    simp only [itemChunks, SeqFile.printWhile, printItems, printItem_eq hsize, decide_eq_true_eq]
    split_ifs
    · exact ih hnext _
    · rfl

theorem printItems_all {Q S : ℕ} {data : List QSet} (h : Shaped Q S data) (s : SeqFile UInt8) :
    printItems env S (fun _ => true) data s =
      .ok (s.print (itemChunks env S data).flatten) := by
  induction data generalizing s with
  | nil => rw [printItems, itemChunks, List.flatten_nil, SeqFile.print_nil]
  | cons qs next ih =>
    have hnext : Shaped Q S next := fun d hd => h d (List.mem_cons_of_mem qs hd)
    have hsize : ∀ arr, qs.data = some arr → arr.size = S := fun arr harr =>
      (h qs List.mem_cons_self arr harr).1
    rw [printItems, if_pos rfl, printItem_eq hsize, itemChunks, List.flatten_cons,
      ← SeqFile.print_print]
    exact ih hnext _

theorem scullSeqShow_eq {i : ℕ} {dev : ScullDev} (h : dev.InShape) (hlock : env.lockIntr i = false)
    (s : SeqFile UInt8) :
    scullSeqShow env i dev s = .ok (s.print (deviceChunks env i dev).flatten) := by
  rw [scullSeqShow, if_neg (by simp [hlock]), printItems_all h, deviceChunks, List.flatten_cons,
    SeqFile.print_print]

theorem readProcmemLoop_eq (limit : ℕ) {devs : List ScullDev} (h : ∀ d ∈ devs, d.InShape)
    (hlock : ∀ i, env.lockIntr i = false) (i : ℕ) (s : SeqFile UInt8) :
    readProcmemLoop env limit i devs s = .ok (s.printWhile limit (chunksFrom env i devs)) := by
  induction devs generalizing i s with
  | nil => rfl
  | cons d devs ih =>
    have hrest : ∀ d ∈ devs, d.InShape := fun d' hd' => h d' (List.mem_cons_of_mem d hd')
    rw [readProcmemLoop, chunksFrom, deviceChunks, List.cons_append, SeqFile.printWhile]
    split_ifs with hcount hintr
    · rw [hlock i] at hintr
      cases hintr
    · rw [printItems_limit limit (h d List.mem_cons_self), SeqFile.printWhile_append]
      exact ih hrest _ _
    · rfl

/-! ### What is read -/

/-- The size of the first buffer: `PAGE_SIZE`. -/
def seqBufSize : ℕ := 4096

/-- What is read from a record in the end. -/
def Shows (env : ProcEnv) (prints : SeqFile UInt8 → Except Stop (SeqFile UInt8))
    (t : List UInt8) : Prop :=
  ∃ N, ∀ n, N ≤ n →
    Retry.run (SeqFile.readRound env.seqAlloc (.error (-ENOMEM)) prints) n seqBufSize =
      some [.ok t]

/-- The records of `scullseq`, from the first device on. -/
def records (devs : List ScullDev) : List (ℕ × ScullDev) :=
  seqRecords devs devs.length (scullSeqStart devs 0) 0

/-- The text of a record. -/
def recordText (env : ProcEnv) (r : ℕ × ScullDev) : List UInt8 :=
  (deviceChunks env r.1 r.2).flatten

/-- The devices can be printed: no lock is interrupted, and there is memory for buffers that hold
the text of them all. -/
structure Printable (env : ProcEnv) (devs : List ScullDev) : Prop where
  inShape : ∀ d ∈ devs, d.InShape
  lockIntr : ∀ i, env.lockIntr i = false
  seqAlloc : ∀ size ≤ 2 ^ 30, env.seqAlloc size = true
  length_lt : (procChunks env devs).flatten.length < 2 ^ 30

theorem scullSeqStart_eq (devs : List ScullDev) (pos : ℕ) :
    scullSeqStart devs pos = devs[pos]? := by
  unfold scullSeqStart
  split_ifs with h
  · exact (List.getElem?_eq_none h).symm
  · exact (List.getElem?_eq_getElem (Nat.lt_of_not_le h)).symm

theorem seqRecords_eq (devs : List ScullDev) (n pos : ℕ) :
    seqRecords devs n (scullSeqStart devs pos) pos =
      (((devs.drop pos).take n).zipIdx pos).map Prod.swap := by
  induction n generalizing pos with
  | zero => rfl
  | succ n ih =>
    cases hv : devs[pos]? with
    | none =>
      rw [scullSeqStart_eq, hv, List.drop_of_length_le (List.getElem?_eq_none_iff.mp hv)]
      rfl
    | some v =>
      obtain ⟨hlt, rfl⟩ := List.getElem?_eq_some_iff.mp hv
      rw [scullSeqStart_eq, hv, seqRecords, scullSeqNext, ih, List.drop_eq_getElem_cons hlt,
        List.take_succ_cons, List.zipIdx_cons, List.map_cons]
      rfl

theorem records_eq (devs : List ScullDev) : records devs = devs.zipIdx.map Prod.swap := by
  rw [records, seqRecords_eq, List.drop_zero, List.take_length]

theorem records_snd (devs : List ScullDev) : (records devs).map Prod.snd = devs := by
  rw [records_eq, List.map_map]
  exact List.zipIdx_map_fst 0 devs

theorem chunksFrom_flatten (env : ProcEnv) (i : ℕ) (devs : List ScullDev) :
    (chunksFrom env i devs).flatten =
      ((devs.zipIdx i).map Prod.swap).flatMap (recordText env) := by
  induction devs generalizing i with
  | nil => rfl
  | cons d devs ih =>
    rw [chunksFrom, List.flatten_append, ih, List.zipIdx_cons, List.map_cons, List.flatMap_cons]
    rfl

theorem procChunks_flatten (env : ProcEnv) (devs : List ScullDev) :
    (procChunks env devs).flatten = (records devs).flatMap (recordText env) := by
  rw [procChunks, chunksFrom_flatten, records_eq]

theorem procLimit_eq {size : ℕ} (h : 80 ≤ size) (h' : size ≤ 2 ^ 30) :
    procLimit size = size - 80 := by
  rw [procLimit, Int32.toInt_ofInt_of_le (by omega) (by omega),
    sizeT_of_nonneg (by omega) (by omega)]
  omega

theorem bufSize_le {len k : ℕ} (hlen : len < 2 ^ 30) (h : ∀ j < k, seqBufSize * 2 ^ j ≤ len) :
    seqBufSize * 2 ^ k ≤ 2 ^ 30 := by
  cases k with
  | zero => decide
  | succ k =>
    have hlast : 2 ^ 12 * 2 ^ k < 2 ^ 30 := (h k (Nat.lt_succ_self k)).trans_lt hlen
    rw [← pow_add] at hlast
    have hk : 12 + k < 30 := (Nat.pow_lt_pow_iff_right (by decide)).mp hlast
    calc seqBufSize * 2 ^ (k + 1) = 2 ^ (12 + (k + 1)) := (pow_add 2 12 (k + 1)).symm
      _ ≤ 2 ^ 30 := Nat.pow_le_pow_right (by decide) (by omega)

/-- A function that prints pieces of text with a look at the buffer before each of them, and stops
where `limit` says. -/
theorem prints_of_look {alloc : ℕ → Bool} {prints : SeqFile UInt8 → Except Stop (SeqFile UInt8)}
    {cs : List (List UInt8)} (halloc : ∀ size ≤ 2 ^ 30, alloc size = true)
    (hlen : cs.flatten.length < 2 ^ 30)
    (h : ∀ size, prints (.fresh size) = .ok ((SeqFile.fresh size).printWhile (procLimit size) cs)) :
    SeqFile.Prints alloc prints seqBufSize 80 cs where
  size_pos := by decide
  margin_le := by decide
  alloc_eq k hk := halloc _ (bufSize_le hlen hk)
  prints_eq k hk := by
    have hlow : seqBufSize ≤ seqBufSize * 2 ^ k := Nat.le_mul_of_pos_right _ (Nat.two_pow_pos k)
    have hlimit : procLimit (seqBufSize * 2 ^ k) = seqBufSize * 2 ^ k - 80 :=
      procLimit_eq (le_trans (by decide) hlow) (bufSize_le hlen hk)
    rw [h, hlimit]

theorem itemText_ne_nil (env : ProcEnv) (qset : ℕ) (qs : QSet) (last : Bool) :
    itemText env qset qs last ≠ [] :=
  List.append_ne_nil_of_left_ne_nil
    (List.append_ne_nil_of_right_ne_nil _ (List.cons_ne_nil newline [])) _

theorem ne_nil_of_mem_itemChunks {env : ProcEnv} {qset : ℕ} {data : List QSet} {c : List UInt8}
    (hc : c ∈ itemChunks env qset data) : c ≠ [] := by
  induction data with
  | nil => cases hc
  | cons qs next ih =>
    rcases List.mem_cons.mp hc with rfl | hc
    · exact itemText_ne_nil env qset qs next.isEmpty
    · exact ih hc

theorem ne_nil_of_mem_chunksFrom {env : ProcEnv} {i : ℕ} {devs : List ScullDev} {c : List UInt8}
    (hc : c ∈ chunksFrom env i devs) : c ≠ [] := by
  induction devs generalizing i with
  | nil => cases hc
  | cons d devs ih =>
    rcases List.mem_append.mp hc with hc | hc
    · rcases List.mem_cons.mp hc with rfl | hc
      · exact List.cons_ne_nil _ _
      · exact ne_nil_of_mem_itemChunks hc
    · exact ih hc

theorem recordText_ne_nil (env : ProcEnv) (r : ℕ × ScullDev) : recordText env r ≠ [] := by
  rw [recordText, deviceChunks, List.flatten_cons]
  exact List.append_ne_nil_of_left_ne_nil (List.cons_ne_nil _ _) _

section Read

variable {env : ProcEnv} {devs : List ScullDev}

/-- `scull_read_procmem` prints the pieces with a look at the buffer before each of them. -/
theorem Printable.prints_procmem (h : Printable env devs) :
    SeqFile.Prints env.seqAlloc (scullReadProcmem env devs) seqBufSize 80 (procChunks env devs) :=
  prints_of_look h.seqAlloc h.length_lt fun size =>
    readProcmemLoop_eq (procLimit size) h.inShape h.lockIntr 0 (.fresh size)

theorem Printable.length_recordText_lt (h : Printable env devs) {r : ℕ × ScullDev}
    (hr : r ∈ records devs) : (recordText env r).length < 2 ^ 30 := by
  have hlt := h.length_lt
  rw [procChunks_flatten, List.flatMap_def] at hlt
  have hsub := List.sublist_flatten_of_mem (List.mem_map_of_mem (f := recordText env) hr)
  exact hsub.length_le.trans_lt hlt

theorem Printable.prints_record (h : Printable env devs) {r : ℕ × ScullDev}
    (hr : r ∈ records devs) :
    SeqFile.Prints env.seqAlloc (scullSeqShow env r.1 r.2) seqBufSize 0 [recordText env r] where
  size_pos := by decide
  margin_le := by decide
  alloc_eq k hk := by
    rw [List.flatten_singleton] at hk
    exact h.seqAlloc _ (bufSize_le (h.length_recordText_lt hr) hk)
  prints_eq k hk := by
    have hdev : r.2 ∈ devs := by
      rw [← records_snd devs]
      exact List.mem_map_of_mem hr
    rw [scullSeqShow_eq (h.inShape _ hdev) (h.lockIntr r.1), SeqFile.printWhile,
      SeqFile.count_fresh, if_pos (Nat.zero_le _)]
    rfl

/-- **When the two files show the same.** The records of `scullseq` are those of all devices in
order, and each is read whole. What is read from `scullmem` are the first so many pieces of the
text of all devices; and it is all of it, as the records are, if and only if no piece but the last
ends within 80 bytes before the end of one of the buffers, of one page, two, four and so on.

Source: `ldd/scull/main.c`, lines 89–164. -/
theorem scullmem_eq_scullseq_iff (h : Printable env devs) :
    (records devs).map Prod.snd = devs ∧
    (∀ r ∈ records devs, Shows env (scullSeqShow env r.1 r.2) (recordText env r)) ∧
    (∃ k, Shows env (scullReadProcmem env devs) ((procChunks env devs).take k).flatten) ∧
    (Shows env (scullReadProcmem env devs) ((records devs).flatMap (recordText env)) ↔
      ∀ k pre post, ¬ SeqFile.EndsInMargin seqBufSize 80 (procChunks env devs) k pre post) := by
  refine ⟨records_snd devs, fun r hr => ?_, ?_, ?_⟩
  · have hne : ∀ c ∈ [recordText env r], c ≠ [] := fun c hc =>
      List.mem_singleton.mp hc ▸ recordText_ne_nil env r
    have hwhole := (h.prints_record hr).read_whole_iff (.error (-ENOMEM)) hne
    rw [List.flatten_singleton] at hwhole
    refine hwhole.mpr fun k pre post hends => ?_
    have hgap := hends.2.2.1.trans hends.2.2.2
    exact absurd hgap (by simp)
  · obtain ⟨pre, post, N, hcs, hread⟩ := h.prints_procmem.read_prefix (.error (-ENOMEM))
    exact ⟨pre.length, N, by rw [hcs, List.take_left]; exact hread⟩
  · rw [← procChunks_flatten]
    exact h.prints_procmem.read_whole_iff (.error (-ENOMEM)) fun c hc => ne_nil_of_mem_chunksFrom hc

end Read

/-- Pointers of eight digits, nothing that interrupts, and enough memory. -/
def ProcEnv.plain : ProcEnv := ⟨fun _ _ => List.replicate 8 48, fun _ => false, fun _ => true⟩

/-- A device to which one byte was written behind 119 items without data. -/
def ScullDev.far : ScullDev where
  data := (List.range 119).map (fun id => ⟨id, none⟩) ++
    [⟨119, some ⟨120, 1000, fun j => if j = 0 then some ⟨121, 4000, fun _ => 0⟩ else none⟩⟩]
  quantum := 4000
  qset := 1000
  size := 119 * 4000000 + 1

theorem ScullDev.inShape_far : ScullDev.far.InShape := by
  intro dptr hdptr arr harr
  rcases List.mem_append.mp hdptr with hdptr | hdptr
  · obtain ⟨id, -, rfl⟩ := List.mem_map.mp hdptr
    cases harr
  · obtain rfl := List.mem_singleton.mp hdptr
    obtain rfl := Option.some.inj harr
    refine ⟨rfl, fun i _ q hq => ?_⟩
    simp only at hq
    split_ifs at hq
    rw [← Option.some.inj hq]
    rfl

theorem printable_far : Printable .plain [.far] where
  inShape d hd := List.mem_singleton.mp hd ▸ ScullDev.inShape_far
  lockIntr _ := rfl
  seqAlloc _ _ := rfl
  length_lt := by decide +kernel

/-- The device is shown whole in `scullseq`, and cut off in `scullmem`: its header and the lines of
108 items end within 80 bytes before the end of the first page. -/
theorem scullmem_cuts_off_far :
    (∀ r ∈ records [ScullDev.far],
      Shows .plain (scullSeqShow .plain r.1 r.2) (recordText .plain r)) ∧
    ¬ Shows .plain (scullReadProcmem .plain [.far])
      ((records [ScullDev.far]).flatMap (recordText .plain)) := by
  obtain ⟨-, hrecords, -, hiff⟩ := scullmem_eq_scullseq_iff printable_far
  refine ⟨hrecords, fun hshows => ?_⟩
  refine hiff.mp hshows 0 ((procChunks .plain [.far]).take 109)
    ((procChunks .plain [.far]).drop 109) ⟨(List.take_append_drop _ _).symm, ?_, ?_, ?_⟩
  · decide +kernel
  · decide +kernel
  · decide +kernel

end ExKernel.Scull
