import ExKernel.Lib.LinkedRing

/-!
# The frame numbers of an LRU list

`show_pfn` has a cursor that it moves to the previous page at the end of a round, and sets to the
last page of the list again at the beginning of the next. So the list is not walked: the frame
number of its last page is printed until the counter of pages ends the loop.

A page is its node in the list, and the pointers of the nodes are functions that may be null.

## Main definitions

* `Mm.lruToPage`, `Mm.prevPage`, `Mm.showPfn`.

## Main results

* `Mm.showPfn_eq`: what is printed.
* `Mm.showPfn_walks_iff`: this is the walk along the list only if there is nothing to walk along.

## References

* `m_modules/mm/lru.c`, lines 10–26.
-/

namespace ExKernel.Mm

variable {α : Type*} [DecidableEq α]

/-- `lru_to_page(head)`: the last page of a list. -/
def lruToPage (prev : α → Option α) (head : α) : Option α := prev head

/-- `prev_page(p)`.

Source: `m_modules/mm/lru.c`, line 10. -/
def prevPage (prev : α → Option α) (p : α) : Option α := prev p

/-- The loop of `show_pfn`, with the counter, the cursor and what has been printed. The answer is
`none` if a pointer is null, or after the given number of rounds.

Source: `m_modules/mm/lru.c`, lines 17–25. -/
def showPfnLoop (next prev : α → Option α) (pageToPfn : α → ℕ) (src : α) :
    ℕ → ℕ → Option α → List ℕ → Option (List ℕ)
  | 0, _, _, _ => none
  | fuel + 1, pageCount, _, out =>
    -- `while (!list_empty(src))`
    if next src = some src then some out
    else if pageCount + 1 ≥ 20 then some out
    else (lruToPage prev src).bind fun p =>
      showPfnLoop next prev pageToPfn src fuel (pageCount + 1) (prevPage prev p)
        (out ++ [pageToPfn p])

/-- `show_pfn`: the frame numbers printed, in order.

Source: `m_modules/mm/lru.c`, lines 12–26. -/
def showPfn (next prev : α → Option α) (pageToPfn : α → ℕ) (src : α) (fuel : ℕ) :
    Option (List ℕ) :=
  showPfnLoop next prev pageToPfn src fuel 0 none []

variable {next prev : α → Option α} {pageToPfn : α → ℕ} {src : α} {xs : List α}

theorem showPfnLoop_of_last {last : α} (hnext : next src ≠ some src) (hprev : prev src = some last)
    {pageCount fuel : ℕ} (hcount : pageCount ≤ 19) (hfuel : 20 - pageCount ≤ fuel) (p : Option α)
    (out : List ℕ) :
    showPfnLoop next prev pageToPfn src fuel pageCount p out =
      some (out ++ List.replicate (19 - pageCount) (pageToPfn last)) := by
  -- The number of rounds left decreases, whatever the cursor is.
  obtain ⟨left, hleft⟩ : ∃ left, 19 - pageCount = left := ⟨_, rfl⟩
  induction left generalizing pageCount fuel p out with
  | zero =>
    obtain ⟨fuel, rfl⟩ := Nat.exists_eq_succ_of_ne_zero (show fuel ≠ 0 by omega)
    rw [showPfnLoop, if_neg hnext, if_pos (by omega), hleft, List.replicate_zero, List.append_nil]
  | succ left ih =>
    obtain ⟨fuel, rfl⟩ := Nat.exists_eq_succ_of_ne_zero (show fuel ≠ 0 by omega)
    rw [showPfnLoop, if_neg hnext, if_neg (by omega), lruToPage, hprev, Option.bind_some,
      ih (by omega) (by omega) _ _ (by omega), hleft,
      show 19 - (pageCount + 1) = left from by omega, List.replicate_succ, List.append_assoc,
      List.singleton_append]

/-- What is printed: nothing for the empty list, and otherwise the last page again and again. -/
theorem showPfn_eq (h : LinkedRing next prev src xs) {fuel : ℕ} (hfuel : 20 ≤ fuel) :
    showPfn next prev pageToPfn src fuel =
      some (xs.getLast?.elim [] fun last => List.replicate 19 (pageToPfn last)) := by
  obtain ⟨first, rest, hrest, hnext, -⟩ := h.exists_first
  obtain ⟨last, rest', hrest', hprev, -⟩ := h.reverse.exists_first
  cases xs using List.reverseRecOn with
  | nil =>
    obtain ⟨fuel, rfl⟩ := Nat.exists_eq_succ_of_ne_zero (show fuel ≠ 0 by omega)
    obtain ⟨rfl, -⟩ := List.cons.inj hrest
    rw [showPfn, showPfnLoop, if_pos hnext]
    rfl
  | append_singleton xs page =>
    have hfirst : first ∈ xs ++ [page] := by
      have hhead := congrArg List.head? hrest
      cases xs <;> simp_all
    have hne : next src ≠ some src := fun heq =>
      h.head_notMem (Option.some.inj (hnext.symm.trans heq) ▸ hfirst)
    obtain ⟨rfl, -⟩ : page = last ∧ xs.reverse ++ [src] = rest' := by simpa using hrest'
    rw [showPfn, showPfnLoop_of_last hne hprev (by omega) (by omega)]
    simp

/-- **When the list is walked.** The frame numbers of the last pages, from the tail towards the
head, up to 19 of them and each once: this is what is printed exactly if the list is empty.

Source: `m_modules/mm/lru.c`, lines 12–26. -/
theorem showPfn_walks_iff (next prev : α → Option α) (pageToPfn : α → ℕ) (src : α) (xs : List α)
    (h : LinkedRing next prev src xs)
    (hpfn : ∀ a ∈ xs, ∀ b ∈ xs, pageToPfn a = pageToPfn b → a = b) (fuel : ℕ)
    (hfuel : 20 ≤ fuel) :
    showPfn next prev pageToPfn src fuel = some ((xs.reverse.take 19).map pageToPfn) ↔
      xs = [] := by
  rw [showPfn_eq h hfuel, Option.some_inj]
  constructor
  · intro heq
    cases xs using List.reverseRecOn with
    | nil => rfl
    | append_singleton xs page =>
      exfalso
      rw [List.getLast?_concat, Option.elim_some, List.reverse_concat] at heq
      cases hxs : xs.reverse with
      | nil => simpa [hxs] using congrArg List.length heq
      | cons second rest =>
        have hsecond : pageToPfn page = pageToPfn second := by
          have hone : (List.replicate 19 (pageToPfn page))[1]? = _ := congrArg (fun l => l[1]?) heq
          rw [List.getElem?_replicate_of_lt (by decide), hxs] at hone
          exact Option.some.inj hone
        have hmem : second ∈ xs := List.mem_reverse.mp (by simp [hxs])
        have hnodup := (List.nodup_cons.mp h.nodup).2
        rw [List.nodup_append] at hnodup
        exact hnodup.2.2 second hmem page (by simp)
          (hpfn page (by simp) second (List.mem_append_left _ hmem) hsecond).symm
  · rintro rfl
    rfl

theorem linkedRing_two_pages :
    LinkedRing (fun a : ℕ => some ((a + 1) % 3)) (fun a => some ((a + 2) % 3)) 0 [1, 2] :=
  ⟨by decide, by simp [Linked]⟩

theorem showPfn_walks_iff_two_pages :
    showPfn (fun a : ℕ => some ((a + 1) % 3)) (fun a => some ((a + 2) % 3)) (· + 100) 0 20 ≠
      some [102, 101] := fun heq =>
  absurd ((showPfn_walks_iff _ _ _ _ _ linkedRing_two_pages (by simp) 20 le_rfl).mp heq) (by decide)

/-- For two pages, the second one is printed 19 times. -/
theorem showPfn_repeats_last :
    LinkedRing (fun a : ℕ => some ((a + 1) % 3)) (fun a => some ((a + 2) % 3)) 0 [1, 2] ∧
      showPfn (fun a : ℕ => some ((a + 1) % 3)) (fun a => some ((a + 2) % 3)) (· + 100) 0 20 =
        some (List.replicate 19 102) ∧
      showPfn (fun a : ℕ => some ((a + 1) % 3)) (fun a => some ((a + 2) % 3)) (· + 100) 0 20 ≠
        some (([1, 2].reverse.take 19).map (· + 100)) :=
  ⟨linkedRing_two_pages, by decide, by decide⟩

end ExKernel.Mm
