import ExKernel.Lib.Matcher
import Mathlib.Tactic.IntervalCases

/-!
# Two loops that look for HTTP

The IP layer has been given a loop that drops every packet in which it finds the bytes of `HTTP`,
and a netfilter hook has the same loop to print such packets. Both count the letters that they have
matched and go through the packet once. When a byte does not match they begin anew with the next
one, although the byte that did not match may be the first letter of the keyword; so `HHTTP` is let
pass. The hook moreover prints at the third letter, and it does not stop: after the fourth it
compares the next byte with the terminator of the keyword, and if that is equal too, it reads behind
the literal.

What precedes an occurrence decides whether it is found: it ends in some number of fragments of the
keyword (`H`, `HT`, `HTT`, `HTTP`), and this number has to be even.

## Main definitions

* `Net.Skb`: a packet.
* `Net.dropHttp`: the loop of `ip_rcv_core`.
* `Net.scanKeyword`, `Net.ViewNetfilter.hookHttp`: the loop of the hook, and the hook.
* `Net.Seen`: bytes that occur after an even number of fragments.

## Main results

* `Net.drop_http_exact_iff`: when the loop drops exactly the packets that contain the keyword.
* `Net.scanners_agree_iff`: when the two loops agree.
* `Net.keyword_index_iff`: when the hook stays inside the literal.

## References

* `linux/net/ipv4/ip_input.c`, lines 459–476; `m_modules/net/view_netfilter.c`, lines 46–88.
-/

namespace ExKernel.Net

open Matcher

/-! ### The loops -/

/-- The string literal `"HTTP"` with its terminator, and the memory `beyond` that follows it. -/
def keyword (beyond : ℕ → UInt8) : ℕ → UInt8
  | 0 => 72
  | 1 => 84
  | 2 => 84
  | 3 => 80
  | 4 => 0
  | n + 5 => beyond n

/-- The scanning loop that was added to `ip_rcv_core`, from the counter `keywordWalker`: whether it
takes the branch to `drop`.

Source: `linux/net/ipv4/ip_input.c`, lines 459–476. -/
def dropHttp (beyond : ℕ → UInt8) (keywordWalker : ℕ) : List UInt8 → Bool
  | [] => false
  | ch :: data =>
    let keywordWalker := if ch = keyword beyond keywordWalker then keywordWalker + 1 else 0
    if keywordWalker = 4 then true else dropHttp beyond keywordWalker data

/-- What the loop of the hook does: the indices with which it reads the keyword, and how often it
calls `print_skb`. -/
structure Scan where
  reads : List ℕ
  prints : ℕ

/-- The scanning loop of the hook, from the counter `keywordWalker`.

Source: `m_modules/net/view_netfilter.c`, lines 75–84. -/
def scanKeyword (beyond : ℕ → UInt8) (keywordWalker : ℕ) : List UInt8 → Scan
  | [] => ⟨[], 0⟩
  | ch :: data =>
    let next := if ch = keyword beyond keywordWalker then keywordWalker + 1 else 0
    let rest := scanKeyword beyond next data
    ⟨keywordWalker :: rest.reads, if next = 3 then rest.prints + 1 else rest.prints⟩

/-! ### Packets -/

/-- `IPPROTO_TCP`. -/
def IPPROTO_TCP : UInt8 := 6

/-- What the hooks read of a packet: the protocol and the header length of the IP header and the
data offset of the TCP header, both in words of four bytes, and the bytes `skb->data[0..len)`, where
`len` is an `unsigned int`. -/
structure Skb where
  protocol : UInt8
  ihl : Fin 16
  doff : Fin 16
  data : List UInt8
  len_lt : data.length < 2 ^ 32

/-- `int length = skb->len - iph->ihl * 4 - th->doff * 4`. -/
def Skb.length (skb : Skb) : Int32 :=
  Int32.ofInt (skb.data.length - skb.ihl * 4 - skb.doff * 4)

/-- What a hook decides. -/
inductive Verdict
  | accept
  | drop
  deriving DecidableEq

/-- The hook that prints packets, for a packet that may be missing.

Source: `m_modules/net/view_netfilter.c`, lines 46–88. -/
def ViewNetfilter.hookHttp (beyond : ℕ → UInt8) (skb : Option Skb) : Verdict × Scan :=
  match skb with
  | none => (.accept, ⟨[], 0⟩)
  | some skb =>
    if skb.protocol = IPPROTO_TCP ∧ skb.length.toInt ≤ 0 then (.accept, ⟨[], 0⟩)
    else (.accept, scanKeyword beyond 0 skb.data)

/-! ### What is looked for -/

/-- The bytes of `HTTP`. -/
def http : List UInt8 := [72, 84, 84, 80]

/-- The text ends in an even number of fragments of `HTTP` that follow each other directly. -/
def EvenTrail (p : List UInt8) : Prop := ∃ n, Trail (keyword fun _ => 0) 4 p n ∧ Even n

/-- The bytes `word` occur in the text after an even number of fragments. -/
def Seen (word text : List UInt8) : Prop := ∃ p q, text = p ++ word ++ q ∧ EvenTrail p

theorem Seen.isInfix {word text : List UInt8} (h : Seen word text) : word <:+: text := by
  obtain ⟨p, q, htext, -⟩ := h
  exact ⟨p, q, htext.symm⟩

theorem Seen.of_prefix {word word' text : List UInt8} (h : Seen word text)
    (hword : word' <+: word) : Seen word' text := by
  obtain ⟨p, q, rfl, heven⟩ := h
  obtain ⟨r, rfl⟩ := hword
  exact ⟨p, r ++ q, by simp, heven⟩

section Loops

variable (beyond : ℕ → UInt8)

/-- The first letter of the keyword is none of the others, nor the terminator. -/
theorem keyword_ne_first (i : ℕ) (hi : 0 < i) (hi' : i ≤ 4) :
    keyword beyond i ≠ keyword beyond 0 := by
  interval_cases i <;> simp [keyword]

/-- **What the counter of the loops reaches**: the letters of the keyword, up to its terminator,
that occur after an even number of fragments. -/
theorem reaches_iff_seen {t : ℕ} (ht : 0 < t) (ht' : t ≤ 5) (data : List UInt8) :
    Reaches (keyword beyond) 0 t data ↔ Seen (word (keyword beyond) t) data := by
  have hletters : ∀ i < 4, keyword beyond i = keyword (fun _ => 0) i := by
    intro i hi
    interval_cases i <;> rfl
  rw [reaches_iff (keyword_ne_first beyond) (by decide) ht ht']
  constructor
  · rintro ⟨p, q, n, htext, htrail, heven⟩
    exact ⟨p, q, htext, n, htrail.congr hletters, heven⟩
  · rintro ⟨p, q, htext, n, htrail, heven⟩
    exact ⟨p, q, n, htext, htrail.congr fun i hi => (hletters i hi).symm, heven⟩

theorem dropHttp_eq_true_iff_reaches (k : ℕ) (data : List UInt8) :
    dropHttp beyond k data = true ↔ Reaches (keyword beyond) k 4 data := by
  induction data generalizing k with
  | nil => simp [dropHttp, reaches_nil]
  | cons ch data ih =>
    have hloop : dropHttp beyond k (ch :: data) = if advance (keyword beyond) k ch = 4 then true
        else dropHttp beyond (advance (keyword beyond) k ch) data := rfl
    rw [reaches_cons, hloop, ← ih]
    split_ifs with hfour
    · simp [hfour]
    · simp [hfour]

theorem prints_pos_iff_reaches (k : ℕ) (data : List UInt8) :
    0 < (scanKeyword beyond k data).prints ↔ Reaches (keyword beyond) k 3 data := by
  induction data generalizing k with
  | nil => simp [scanKeyword, reaches_nil]
  | cons ch data ih =>
    have hloop : (scanKeyword beyond k (ch :: data)).prints =
        if advance (keyword beyond) k ch = 3
        then (scanKeyword beyond (advance (keyword beyond) k ch) data).prints + 1
        else (scanKeyword beyond (advance (keyword beyond) k ch) data).prints := rfl
    rw [reaches_cons, hloop, ← ih]
    split_ifs with hthree
    · simp [hthree]
    · simp [hthree]

/-- The indices with which the loop of the hook reads the keyword are the counters after the bytes
that are followed by another one. -/
theorem mem_reads_iff (k i : ℕ) (data : List UInt8) :
    i ∈ (scanKeyword beyond k data).reads ↔
      ∃ p q, data = p ++ q ∧ q ≠ [] ∧ walkFrom (keyword beyond) k p = i := by
  induction data generalizing k with
  | nil => simp [scanKeyword]
  | cons ch data ih =>
    rw [scanKeyword, List.mem_cons, ih]
    constructor
    · rintro (rfl | ⟨p, q, rfl, hq, hwalk⟩)
      · exact ⟨[], ch :: data, rfl, List.cons_ne_nil ch data, rfl⟩
      · exact ⟨ch :: p, q, rfl, hq, hwalk⟩
    · rintro ⟨p, q, htext, hq, hwalk⟩
      cases p with
      | nil => exact .inl hwalk.symm
      | cons c p =>
        rw [List.cons_append, List.cons.injEq] at htext
        obtain ⟨rfl, rfl⟩ := htext
        exact .inr ⟨p, q, rfl, hq, hwalk⟩

/-- **What the loop of the IP layer finds.** -/
theorem dropHttp_iff_seen (data : List UInt8) : dropHttp beyond 0 data = true ↔ Seen http data := by
  rw [dropHttp_eq_true_iff_reaches]
  exact reaches_iff_seen beyond (by decide) (by decide) data

/-- **What the loop of the hook finds.** -/
theorem prints_iff_seen (data : List UInt8) :
    0 < (scanKeyword beyond 0 data).prints ↔ Seen (http.take 3) data := by
  rw [prints_pos_iff_reaches]
  exact reaches_iff_seen beyond (by decide) (by decide) data

end Loops

/-! ### The loop of the IP layer -/

/-- **When the filter is exact.** For every packet, the loop drops it exactly if the bytes of `HTTP`
occur in it, if and only if they do not occur, or do so somewhere after an even number of fragments
of `HTTP`.

Source: `linux/net/ipv4/ip_input.c`, lines 459–476. -/
theorem drop_http_exact_iff (beyond : ℕ → UInt8) (data : List UInt8) :
    (dropHttp beyond 0 data = true ↔ http <:+: data) ↔ (http <:+: data → Seen http data) := by
  rw [dropHttp_iff_seen]
  exact ⟨fun h => h.mpr, fun h => ⟨Seen.isInfix, h⟩⟩

/-- The bytes of `HHTTP` are let pass: the second `H` ends the match that the first has begun, and
is not looked at again. -/
theorem drop_http_misses :
    ¬ (dropHttp (fun _ => 0) 0 [72, 72, 84, 84, 80] = true ↔ http <:+: [72, 72, 84, 84, 80]) := by
  intro h
  exact absurd (h.mpr ⟨[72], [], rfl⟩) (by decide)

/-! ### The loop of the hook -/

/-- **When the two loops agree.** For every packet, the hook prints it exactly if the IP layer would
drop it, if and only if no `HTT` occurs after an even number of fragments of `HTTP`, or an `HTTP`
does so too.

Source: `m_modules/net/view_netfilter.c`, lines 75–84; `linux/net/ipv4/ip_input.c`,
lines 459–476. -/
theorem scanners_agree_iff (beyond beyond' : ℕ → UInt8) (data : List UInt8) :
    (0 < (scanKeyword beyond 0 data).prints ↔ dropHttp beyond' 0 data = true) ↔
      (Seen (http.take 3) data → Seen http data) := by
  rw [prints_iff_seen, dropHttp_iff_seen]
  exact ⟨fun h => h.mp, fun h => ⟨h, fun hseen => hseen.of_prefix (List.take_prefix 3 http)⟩⟩

/-- The bytes of `HTT` are printed and would not be dropped. -/
theorem scanners_disagree :
    ¬ (0 < (scanKeyword (fun _ => 0) 0 [72, 84, 84]).prints ↔
      dropHttp (fun _ => 0) 0 [72, 84, 84] = true) := by
  decide

/-- **When the hook stays inside the literal.** For every packet, all indices with which the hook
reads the keyword are at most 4, if and only if no `HTTP` that occurs after an even number of
fragments of `HTTP` is followed by a zero byte and one more byte.

Source: `m_modules/net/view_netfilter.c`, lines 75–84. -/
theorem keyword_index_iff (beyond : ℕ → UInt8) (data : List UInt8) :
    (∀ i ∈ (scanKeyword beyond 0 data).reads, i ≤ 4) ↔
      ¬ ∃ p c q, data = p ++ http ++ [0] ++ c :: q ∧ EvenTrail p := by
  have hseen := fun text => reaches_iff_seen beyond (t := 5) (by decide) le_rfl text
  constructor
  · rintro h ⟨p, c, q, rfl, heven⟩
    -- The counter is 5 after some of the bytes before the last one, and then read with.
    have hreach : Reaches (keyword beyond) 0 5 (p ++ http ++ [0]) :=
      (hseen _).mpr ⟨p, [], by rw [List.append_assoc, List.append_nil]; rfl, heven⟩
    obtain ⟨r, ⟨s, hs⟩, -, hwalk⟩ := hreach
    have hread : 5 ∈ (scanKeyword beyond 0 (p ++ http ++ [0] ++ c :: q)).reads :=
      (mem_reads_iff beyond 0 5 _).mpr ⟨r, s ++ c :: q, by rw [← hs, List.append_assoc],
        by simp, hwalk⟩
    exact absurd (h 5 hread) (by decide)
  · intro h i hi
    by_contra hgt
    obtain ⟨r, s, rfl, hne, hwalk⟩ := (mem_reads_iff beyond 0 i data).mp hi
    obtain ⟨r', hr', hfive⟩ := exists_prefix_walk (s := 5) hwalk (by omega)
    have hreach := (reaches_iff_walk (w := keyword beyond) (t := 5) (by decide) r).mpr
      ⟨r', hr', hfive⟩
    obtain ⟨p, q, rfl, heven⟩ := (hseen r).mp hreach
    obtain ⟨c, q', hq⟩ := List.exists_cons_of_ne_nil (List.append_ne_nil_of_right_ne_nil q hne)
    refine h ⟨p, c, q', ?_, heven⟩
    rw [List.append_assoc, hq, List.append_assoc p http]
    rfl

/-- After the bytes of `HTTP` and a zero byte, the next byte is compared with what is behind the
literal. -/
theorem keyword_overrun :
    ¬ ∀ i ∈ (scanKeyword (fun _ => 0) 0 [72, 84, 84, 80, 0, 1]).reads, i ≤ 4 := by
  decide

end ExKernel.Net
