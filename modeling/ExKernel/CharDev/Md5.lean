import ExKernel.Lib.Kernel
import ExKernel.Net.Search

/-!
# The md5 device

A write copies its message to the beginning of `plaintext`, without a terminator, and a read hashes
the string at the beginning of `plaintext`. Messages have no zero bytes, so that what terminates the
string is the rest of the array, which is zero as far as no message has reached. The string is the
last message followed by what an earlier, longer one has left.

What `hash_md5` answers is a parameter: the cryptographic library is not part of the driver.

## Main definitions

* `CharDev.virtualDeviceWrite`, `CharDev.virtualDeviceRead`.
* `CharDev.writeAll`: a sequence of writes.

## Main results

* `CharDev.read_after_writes`: what is hashed.
* `CharDev.hashes_last_iff`: when it is the last message.

## References

* `m_modules/char_dev/md5_dev.c`, lines 14–18 and 123–140.
-/

namespace ExKernel.CharDev

open Net (strlen)

/-- The size of `plaintext`. -/
def MAX_LEN : ℕ := 1024

/-- The size of a digest. -/
def MD5_LEN : ℕ := 16

/-- `virtual_device_write`: the return value, and `plaintext`. That the copy fails is not noticed.

Source: `m_modules/char_dev/md5_dev.c`, lines 123–129. -/
def virtualDeviceWrite (plaintext : ℤ → UInt8) (src : UserBuffer) (count : ℕ) :
    ℤ × (ℤ → UInt8) :=
  (count, (copyFromUser plaintext 0 src count).2)

/-- What a read does: its return value, the bytes that it passes to `hash_md5`, and the digest that
its caller gets. -/
structure ReadResult where
  ret : ℤ
  hashed : List UInt8
  digest : Option (List UInt8)

/-- `virtual_device_read`, or `none` where the string does not end in `plaintext`.

Source: `m_modules/char_dev/md5_dev.c`, lines 131–140. -/
def virtualDeviceRead (hashMd5 : List UInt8 → ℤ → UInt8) (plaintext : ℤ → UInt8)
    (count room : ℕ) : Option ReadResult :=
  (strlen (Cells.load plaintext 0 MAX_LEN)).map fun len =>
    let hashed := Cells.load plaintext 0 len
    ⟨count, hashed, copyToUser (hashMd5 hashed) 0 MD5_LEN room⟩

/-- `plaintext` after writes of messages from valid buffers. -/
def writeAll (plaintext : ℤ → UInt8) (messages : List (List UInt8)) : ℤ → UInt8 :=
  messages.foldl (fun plaintext m => (virtualDeviceWrite plaintext ⟨m, []⟩ m.length).2) plaintext

/-- `plaintext` when the module is loaded. -/
def zeroed : ℤ → UInt8 := fun _ => 0

/-- A message: fewer bytes than `plaintext` has, and none of them zero. -/
def IsMessage (m : List UInt8) : Prop := m.length < MAX_LEN ∧ 0 ∉ m

instance (m : List UInt8) : Decidable (IsMessage m) := inferInstanceAs (Decidable (_ ∧ _))

/-- The string that messages leave, each written over the ones before. -/
def leftBy (messages : List (List UInt8)) : List UInt8 :=
  messages.foldl (fun text m => m ++ text.drop m.length) []

theorem leftBy_concat (messages : List (List UInt8)) (m : List UInt8) :
    leftBy (messages ++ [m]) = m ++ (leftBy messages).drop m.length := by
  simp [leftBy]

theorem writeAll_eq_store (messages : List (List UInt8)) :
    writeAll zeroed messages = Cells.store zeroed 0 (leftBy messages) := by
  induction messages using List.reverseRecOn with
  | nil => exact (Cells.store_nil zeroed 0).symm
  | append_singleton messages m ih =>
    have hcopied : UserBuffer.copied ⟨m, []⟩ m.length = m := by simp [UserBuffer.copied]
    have hlast : writeAll zeroed (messages ++ [m]) =
        (virtualDeviceWrite (writeAll zeroed messages) ⟨m, []⟩ m.length).2 := by
      simp [writeAll]
    rw [hlast, virtualDeviceWrite, copyFromUser_snd, hcopied, ih, Cells.store_store, leftBy_concat]

/-- The string is as long as the longest message, and has no zero bytes. -/
theorem isMessage_leftBy {messages : List (List UInt8)} (h : ∀ m ∈ messages, IsMessage m) :
    IsMessage (leftBy messages) := by
  induction messages using List.reverseRecOn with
  | nil => exact ⟨by decide, by simp [leftBy]⟩
  | append_singleton messages m ih =>
    have hm := h m (by simp)
    have htext := ih fun m' hm' => h m' (by simp [hm'])
    rw [leftBy_concat]
    refine ⟨?_, fun hzero => ?_⟩
    · have := hm.1
      have := htext.1
      simp only [List.length_append, List.length_drop]
      omega
    · obtain hin | hin := List.mem_append.mp hzero
      · exact hm.2 hin
      · exact htext.2 (List.mem_of_mem_drop hin)

theorem length_leftBy_le_iff (messages : List (List UInt8)) (n : ℕ) :
    (leftBy messages).length ≤ n ↔ ∀ m ∈ messages, m.length ≤ n := by
  induction messages using List.reverseRecOn with
  | nil => simp [leftBy]
  | append_singleton messages m ih =>
    have hlen : (leftBy (messages ++ [m])).length = max (leftBy messages).length m.length := by
      rw [leftBy_concat, List.length_append, List.length_drop]
      omega
    rw [hlen, max_le_iff, ih]
    simp [or_imp, forall_and]

theorem load_store_zeroed {text : List UInt8} (h : text.length < MAX_LEN) :
    Cells.load (Cells.store zeroed 0 text) 0 MAX_LEN =
      text ++ [0] ++ List.replicate (MAX_LEN - text.length - 1) 0 := by
  have hzeros : ∀ off n, Cells.load zeroed off n = List.replicate n 0 := by
    intro off n
    simp [Cells.load, zeroed, List.map_const']
  obtain ⟨rest, hrest⟩ : ∃ rest, MAX_LEN = text.length + (rest + 1) :=
    ⟨MAX_LEN - text.length - 1, by omega⟩
  rw [hrest, Cells.load_add, Cells.load_store_self, Cells.load_store_of_disjoint _ _ _ (by simp),
    hzeros, List.replicate_succ, List.append_assoc, List.singleton_append,
    show text.length + (rest + 1) - text.length - 1 = rest from by omega]

/-- What is hashed after a sequence of writes. -/
theorem read_after_writes (hashMd5 : List UInt8 → ℤ → UInt8) (count room : ℕ)
    {messages : List (List UInt8)} (h : ∀ m ∈ messages, IsMessage m) :
    (virtualDeviceRead hashMd5 (writeAll zeroed messages) count room).map ReadResult.hashed =
      some (leftBy messages) := by
  obtain ⟨hlen, hzero⟩ := isMessage_leftBy h
  rw [writeAll_eq_store, virtualDeviceRead, load_store_zeroed hlen,
    Net.strlen_append_of_mem (by simp), List.takeWhile_append_of_pos]
  · simp [Cells.load_store_self]
  · intro c hc
    simpa using ne_of_mem_of_not_mem hc hzero

/-- **When the last message is hashed.** After any writes of messages, and then of the message `m`,
what a read passes to `hash_md5` is `m` exactly if no message was longer.

Source: `m_modules/char_dev/md5_dev.c`, lines 18 and 123–140. -/
theorem hashes_last_iff (hashMd5 : List UInt8 → ℤ → UInt8) (count room : ℕ)
    (earlier : List (List UInt8)) (m : List UInt8) (hearlier : ∀ m' ∈ earlier, IsMessage m')
    (hm : IsMessage m) :
    (virtualDeviceRead hashMd5 (writeAll zeroed (earlier ++ [m])) count room).map
        ReadResult.hashed = some m ↔ ∀ m' ∈ earlier, m'.length ≤ m.length := by
  have hall : ∀ m' ∈ earlier ++ [m], IsMessage m' := by
    intro m' hm'
    obtain hin | hin := List.mem_append.mp hm'
    · exact hearlier m' hin
    · exact List.mem_singleton.mp hin ▸ hm
  rw [read_after_writes hashMd5 count room hall, leftBy_concat, Option.some_inj,
    List.append_right_eq_self, List.drop_eq_nil_iff, length_leftBy_le_iff]

theorem hashes_last_iff_growing :
    (virtualDeviceRead (fun _ _ => 0) (writeAll zeroed [[97], [98, 99]]) 16 16).map
      ReadResult.hashed = some [98, 99] :=
  (hashes_last_iff (fun _ _ => 0) 16 16 [[97]] [98, 99] (by decide) (by decide)).mpr (by decide)

/-- After `ab` and then `c`, the string `cb` is hashed. -/
theorem longer_message_left_behind :
    (virtualDeviceRead (fun _ _ => 0) (writeAll zeroed [[97, 98], [99]]) 16 16).map
        ReadResult.hashed = some [99, 98] ∧
      (virtualDeviceRead (fun _ _ => 0) (writeAll zeroed [[97, 98], [99]]) 16 16).map
        ReadResult.hashed ≠ some [99] := by
  have hread : (virtualDeviceRead (fun _ _ => 0) (writeAll zeroed [[97, 98], [99]]) 16 16).map
      ReadResult.hashed = some [99, 98] := read_after_writes (fun _ _ => 0) 16 16 (by decide)
  rw [hread]
  decide

end ExKernel.CharDev
