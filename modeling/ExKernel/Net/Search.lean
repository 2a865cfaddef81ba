import ExKernel.Net.Keyword

/-!
# A hook that searches the payload for HTTP

The netfilter hook that drops HTTP copies the payload of a TCP packet to a buffer of its length and
looks for the keyword with `strstr`. But the payload is delimited by its length and `strstr` takes a
string that is delimited by a zero byte. A zero byte in the payload hides all that follows it; and
where there is none, `strstr` goes on reading behind the buffer. A payload of four bytes, which may
be the keyword itself, is not searched at all.

## Main definitions

* `Net.strlen`, `Net.strstr`: the functions of the kernel's string library.
* `Net.HttpNetfilter.hookHttp`: the hook.
* `Net.HookExact`: what is expected of it.

## Main results

* `Net.strstrLoop_isSome_iff`: what `strstr` finds.
* `Net.hook_http_exact_iff`: when the hook does what is expected of it.

## References

* `m_modules/net/http_netfilter.c`, lines 10–43.
-/

namespace ExKernel.Net

/-! ### The string library -/

/-- `strlen` of the string at the beginning of the memory `s`, or `none` where the memory ends
before the string does. -/
def strlen : List UInt8 → Option ℕ
  | [] => none
  | c :: s => if c = 0 then some 0 else (strlen s).map (· + 1)

/-- The loop of `strstr`, which compares the bytes at every offset with `s2` as long as `s2` is not
longer than the `l1` bytes that are left of the string. -/
def strstrLoop (s2 : List UInt8) : ℕ → List UInt8 → Option ℕ
  | 0, _ => none
  | l1 + 1, s1 =>
    if s2.length ≤ l1 + 1 then
      if s1.take s2.length = s2 then some 0 else (strstrLoop s2 l1 s1.tail).map (· + 1)
    else none

/-- What a search does: the offset at which it finds the word, and the number of bytes of memory
that it reads, from the beginning of the string up to its terminator. -/
structure Search where
  found : Option ℕ
  reads : ℕ

/-- `strstr(s1, s2)` for a word `s2` that is not empty, or `none` where the memory ends before the
string does. -/
def strstr (s1 s2 : List UInt8) : Option Search :=
  (strlen s1).map fun l1 => ⟨strstrLoop s2 l1 s1, l1 + 1⟩

/-! ### The hook -/

/-- The bytes of a packet after its headers. -/
def Skb.payload (skb : Skb) : List UInt8 := skb.data.drop (skb.ihl * 4 + skb.doff * 4)

/-- What the hook does: its verdict, and the number of bytes that the search reads from the
beginning of the copy on. -/
structure HookResult where
  verdict : Verdict
  searched : ℕ

/-- The hook that drops HTTP, for a packet that may be missing. The allocator answers with the
memory that follows the copy, or has none, and then the copy is made through a null pointer.

Source: `m_modules/net/http_netfilter.c`, lines 10–43. -/
def HttpNetfilter.hookHttp (skb : Option Skb) (kzalloc : Option (List UInt8)) :
    Option HookResult :=
  match skb with
  | none => some ⟨.accept, 0⟩
  | some skb =>
    if skb.protocol = IPPROTO_TCP then
      if skb.length.toInt ≤ 4 then some ⟨.accept, 0⟩
      else
        kzalloc.bind fun after =>
          (strstr (skb.payload.take skb.length.toInt.toNat ++ after) http).map fun search =>
            if search.found.isSome then ⟨.drop, search.reads⟩ else ⟨.accept, search.reads⟩
    else some ⟨.accept, 0⟩

/-- What is expected of the hook: it drops exactly the packets whose payload contains `HTTP`, and
the search reads no byte outside the copy of the payload, whatever follows that. -/
def HookExact (skb : Skb) (after : List UInt8) : Prop :=
  ∃ res, HttpNetfilter.hookHttp (some skb) (some after) = some res ∧
    (res.verdict = .drop ↔ http <:+: skb.payload) ∧ res.searched ≤ skb.payload.length

/-! ### What is found -/

/-- The string at the beginning of memory in which there is a zero byte. -/
theorem strlen_append_of_mem {s : List UInt8} (h : 0 ∈ s) (t : List UInt8) :
    strlen (s ++ t) = some (s.takeWhile (· ≠ 0)).length := by
  induction s with
  | nil => simp at h
  | cons c s ih =>
    rw [List.cons_append, strlen]
    by_cases hc : c = 0
    · simp [hc]
    · have hmem : 0 ∈ s := (List.mem_cons.mp h).resolve_left (Ne.symm hc)
      rw [if_neg hc, ih hmem]
      simp [hc]

theorem length_takeWhile_lt {s : List UInt8} (h : 0 ∈ s) :
    (s.takeWhile (· ≠ 0)).length < s.length := by
  induction s with
  | nil => simp at h
  | cons c s ih =>
    by_cases hc : c = 0
    · simp [hc]
    · have hmem : 0 ∈ s := (List.mem_cons.mp h).resolve_left (Ne.symm hc)
      have hlt := ih hmem
      rw [List.takeWhile_cons_of_pos (by simpa using hc), List.length_cons, List.length_cons]
      omega

/-- A string that does not end in the memory `s` goes on behind it. -/
theorem le_strlen_of_not_mem {s t : List UInt8} (h : 0 ∉ s) {l : ℕ}
    (hl : strlen (s ++ t) = some l) : s.length ≤ l := by
  induction s generalizing l with
  | nil => exact Nat.zero_le l
  | cons c s ih =>
    rw [List.mem_cons, not_or] at h
    rw [List.cons_append, strlen, if_neg (Ne.symm h.1)] at hl
    obtain ⟨k, hk, rfl⟩ := Option.map_eq_some_iff.mp hl
    exact Nat.succ_le_succ (ih h.2 hk)

/-- **What the loop of `strstr` finds**: the word, if it occurs in the bytes that are left. -/
theorem strstrLoop_isSome_iff {s2 : List UInt8} (hne : s2 ≠ []) (l1 : ℕ) (s1 : List UInt8)
    (hl : l1 ≤ s1.length) : (strstrLoop s2 l1 s1).isSome ↔ s2 <:+: s1.take l1 := by
  induction l1 generalizing s1 with
  | zero => simp [strstrLoop, hne]
  | succ l1 ih =>
    cases s1 with
    | nil => simp at hl
    | cons c s1 =>
      rw [strstrLoop]
      by_cases hlen : s2.length ≤ l1 + 1
      · rw [if_pos hlen, List.take_succ_cons, List.infix_cons_iff]
        have hstarts : s2 <+: c :: s1.take l1 ↔ (c :: s1).take s2.length = s2 := by
          rw [← List.take_succ_cons, List.prefix_take_iff, List.prefix_iff_eq_take]
          exact ⟨fun h => h.1.symm, fun h => ⟨h.symm, hlen⟩⟩
        rw [hstarts]
        by_cases hhere : (c :: s1).take s2.length = s2
        · simp [hhere]
        · rw [if_neg hhere, Option.isSome_map, List.tail_cons, ih s1 (by simpa using hl)]
          simp [hhere]
      · rw [if_neg hlen]
        refine iff_of_false (by simp) fun h => ?_
        have hle := h.length_le
        rw [List.length_take] at hle
        omega

/-- **A search of memory with a zero byte** is a search of what precedes the first of them. -/
theorem strstr_of_mem {s word : List UInt8} (h : 0 ∈ s) (hne : word ≠ []) (t : List UInt8) :
    ∃ found : Option ℕ, strstr (s ++ t) word = some ⟨found, (s.takeWhile (· ≠ 0)).length + 1⟩ ∧
      (found.isSome ↔ word <:+: s.takeWhile (· ≠ 0)) := by
  have hlt := length_takeWhile_lt h
  have htake : (s ++ t).take (s.takeWhile (· ≠ 0)).length = s.takeWhile (· ≠ 0) := by
    rw [List.take_append_of_le_length hlt.le]
    exact (List.prefix_iff_eq_take.mp (List.takeWhile_prefix _)).symm
  have hfound := strstrLoop_isSome_iff hne (s.takeWhile (· ≠ 0)).length (s ++ t)
    (by rw [List.length_append]; omega)
  rw [htake] at hfound
  exact ⟨_, by rw [strstr, strlen_append_of_mem h, Option.map_some], hfound⟩

/-- **A search of memory without a zero byte** goes on behind it. -/
theorem lt_reads_of_not_mem {s t word : List UInt8} (h : 0 ∉ s) {search : Search}
    (hsearch : strstr (s ++ t) word = some search) : s.length < search.reads := by
  obtain ⟨l, hl, rfl⟩ := Option.map_eq_some_iff.mp hsearch
  exact Nat.lt_succ_of_le (le_strlen_of_not_mem h hl)

/-- The length that the hook computes is that of the payload, if it is positive. -/
theorem Skb.length_eq_of_pos (skb : Skb) (h : 0 < skb.length.toInt) :
    skb.length.toInt = skb.payload.length := by
  have hlt := skb.len_lt
  have hihl := skb.ihl.isLt
  have hdoff := skb.doff.isLt
  have hval : skb.length.toInt =
      ((skb.data.length : ℤ) - skb.ihl * 4 - skb.doff * 4).bmod (2 ^ 32) := by
    rw [Skb.length, Int32.toInt_ofInt]
    rfl
  rw [hval] at h ⊢
  rw [Skb.payload, List.length_drop]
  generalize skb.data.length = len at *
  rw [Int.bmod_def] at h ⊢
  omega

/-! ### The hook -/

theorem HttpNetfilter.hookHttp_of_lt {skb : Skb} (htcp : skb.protocol = IPPROTO_TCP)
    (h : 4 < skb.length.toInt) (after : List UInt8) :
    HttpNetfilter.hookHttp (some skb) (some after) =
      (strstr (skb.payload ++ after) http).map fun search =>
        if search.found.isSome then ⟨.drop, search.reads⟩ else ⟨.accept, search.reads⟩ := by
  have hlen : skb.length.toInt = skb.payload.length := skb.length_eq_of_pos (by omega)
  simp only [HttpNetfilter.hookHttp, if_pos htcp, if_neg (not_le.mpr h), Option.bind_some]
  rw [hlen, Int.toNat_natCast, List.take_length]

/-- **When the hook does what is expected of it.** For every TCP packet and whatever memory follows
the copy of its payload: a payload that the hook does not search, because its length is at most 4 as
an `int`, does not contain `HTTP`; and one that it searches has a zero byte, and contains `HTTP`
before the first of them if it contains it at all.

Source: `m_modules/net/http_netfilter.c`, lines 10–43. -/
theorem hook_http_exact_iff (skb : Skb) (htcp : skb.protocol = IPPROTO_TCP)
    (after : List UInt8) :
    HookExact skb after ↔
      (skb.length.toInt ≤ 4 → ¬ http <:+: skb.payload) ∧
      (4 < skb.length.toInt → 0 ∈ skb.payload ∧
        (http <:+: skb.payload → http <:+: skb.payload.takeWhile (· ≠ 0))) := by
  by_cases hshort : skb.length.toInt ≤ 4
  · have hhook : HttpNetfilter.hookHttp (some skb) (some after) = some ⟨.accept, 0⟩ := by
      simp only [HttpNetfilter.hookHttp, if_pos htcp, if_pos hshort]
    simp [HookExact, hhook, hshort]
  have hhook := HttpNetfilter.hookHttp_of_lt htcp (not_le.mp hshort) after
  simp only [hshort, false_implies, true_and, not_le.mp hshort, true_implies]
  by_cases hzero : (0 : UInt8) ∈ skb.payload
  · obtain ⟨found, hsearch, hfound⟩ := strstr_of_mem hzero (by decide : http ≠ []) after
    have hlt := length_takeWhile_lt hzero
    have hsub : http <:+: skb.payload.takeWhile (· ≠ 0) → http <:+: skb.payload := fun h =>
      h.trans (List.takeWhile_prefix _).isInfix
    rw [hsearch, Option.map_some] at hhook
    simp only [HookExact, hhook, Option.some.injEq, exists_eq_left', hzero, true_and, hfound]
    by_cases hseen : http <:+: skb.payload.takeWhile (· ≠ 0)
    · rw [if_pos hseen]
      exact iff_of_true ⟨iff_of_true rfl (hsub hseen), hlt⟩ fun _ => hseen
    · rw [if_neg hseen]
      constructor
      · rintro ⟨hiff, -⟩ hin
        cases hiff.mpr hin
      · intro h
        exact ⟨iff_of_false Verdict.noConfusion fun hin => hseen (h hin), hlt⟩
  · refine iff_of_false ?_ fun h => hzero h.1
    rintro ⟨res, hres, -, hreads⟩
    rw [hhook] at hres
    obtain ⟨search, hsearch, rfl⟩ := Option.map_eq_some_iff.mp hres
    have hlt := lt_reads_of_not_mem hzero hsearch
    split_ifs at hreads with hfound
    · exact absurd hreads (not_le.mpr hlt)
    · exact absurd hreads (not_le.mpr hlt)

/-- A TCP packet without options and with the payload `payload`. -/
def tcpPacket (payload : List UInt8) (h : 40 + payload.length < 2 ^ 32) : Skb :=
  ⟨IPPROTO_TCP, 5, 5, List.replicate 40 0 ++ payload,
    by rwa [List.length_append, List.length_replicate]⟩

/-- The payload `HTTP` with a zero byte after it is dropped. -/
theorem hook_http_exact_iff_terminated :
    HookExact (tcpPacket [72, 84, 84, 80, 0] (by decide)) [] := by
  refine (hook_http_exact_iff _ rfl _).mpr ⟨fun h => absurd h (by decide), fun _ => ⟨?_, ?_⟩⟩
  · decide
  · exact fun _ => ⟨[], [], rfl⟩

/-- The payload `HTTP` is accepted, and so is `HTTP` after a zero byte; and the search of `HTTPS`
reads behind the copy. -/
theorem hook_http_inexact :
    ¬ HookExact (tcpPacket [72, 84, 84, 80] (by decide)) [] ∧
    ¬ HookExact (tcpPacket [0, 72, 84, 84, 80] (by decide)) [] ∧
    ¬ HookExact (tcpPacket [72, 84, 84, 80, 83] (by decide)) [0] := by
  refine ⟨?_, ?_, ?_⟩
  · rintro ⟨res, hres, hiff, -⟩
    cases hres
    exact absurd (hiff.mpr ⟨[], [], rfl⟩) (by decide)
  · rintro ⟨res, hres, hiff, -⟩
    cases hres
    exact absurd (hiff.mpr ⟨[0], [], rfl⟩) (by decide)
  · rintro ⟨res, hres, -, hreads⟩
    cases hres
    exact absurd hreads (by decide)

end ExKernel.Net
