import VaubanDB.Disk.BTree

/-!
What one put does to the pages of a tree.

The cut of a full page leaves each half light enough for what caused the split: always in a
leaf (`leafHalf_fits`), and in an internal page when the entries are short enough
(`internalHalf_fits`).  From it come the outcomes of `putInLeaf` and `putInInternal`: the entry
is put where it belongs on the page, or the page is cut in two around it.
-/

namespace VaubanDB

open List

namespace BTree

/-! ### The balance of a cut -/

variable {weights : List ℕ} {entries : List Entry}

/-- Where the loop of `balance_point` stops: no earlier position carries half of the total. -/
lemma balanceLoop_spec {total : ℕ} {rest : List ℕ} (before : List ℕ) (hlen : 2 ≤ weights.length)
    (hw : weights = before ++ rest) (hbefore : ∀ j, 0 < j → j ≤ before.length → j < weights.length →
      2 * (weights.take j).sum < total) {b : ℕ}
    (hb : balanceLoop total weights.length before.length before.sum rest = b) :
    1 ≤ b ∧ b ≤ weights.length - 1 ∧ (b = 1 ∨ 2 * (weights.take (b - 1)).sum < total) ∧
      (total ≤ 2 * (weights.take b).sum ∨ b = weights.length - 1) := by
  induction rest generalizing before with
  | nil =>
    simp only [balanceLoop] at hb
    subst hb
    have heq : before.length = weights.length := by simp [hw]
    refine ⟨by omega, le_rfl, ?_, .inr rfl⟩
    by_cases h1 : weights.length - 1 = 1
    · exact .inl h1
    · exact .inr (hbefore _ (by omega) (by omega) (by omega))
  | cons w rest ih =>
    have htake : weights.take (before.length + 1) = before ++ [w] := by
      rw [hw, take_append]
      simp
    have hsum : (weights.take (before.length + 1)).sum = before.sum + w := by simp [htake]
    have hlt : before.length < weights.length := by simp [hw]
    simp only [balanceLoop] at hb
    split_ifs at hb with hcond
    · subst hb
      refine ⟨by omega, by omega, ?_, .inl (by rw [hsum]; omega)⟩
      by_cases h0 : before.length = 0
      · exact .inl (by omega)
      · exact .inr (hbefore _ (by omega) (by omega) (by omega))
    · have hnext : ∀ j, 0 < j → j ≤ (before ++ [w]).length → j < weights.length →
          2 * (weights.take j).sum < total := by
        intro j hj hjle hjlt
        simp only [length_append, length_singleton] at hjle
        rcases Nat.lt_or_ge before.length j with hgt | hle
        · have heq : j = before.length + 1 := by omega
          subst heq
          rw [hsum]
          omega
        · exact hbefore j hj hle hjlt
      refine ih (before ++ [w]) (by simp [hw]) hnext ?_
      simpa using hb

lemma balancePoint_spec (weights : List ℕ) (hlen : 2 ≤ weights.length) :
    1 ≤ balancePoint weights ∧ balancePoint weights ≤ weights.length - 1 ∧
      (balancePoint weights = 1 ∨ 2 * (weights.take (balancePoint weights - 1)).sum < weights.sum) ∧
      (weights.sum ≤ 2 * (weights.take (balancePoint weights)).sum ∨
        balancePoint weights = weights.length - 1) := by
  refine balanceLoop_spec [] hlen rfl ?_ rfl
  intro j hj hjle
  simp only [length_nil] at hjle
  omega

variable {M : ℕ}

lemma sum_take_succ_le {i : ℕ} (hM : ∀ w ∈ weights, w ≤ M) :
    (weights.take (i + 1)).sum ≤ (weights.take i).sum + M := by
  induction weights generalizing i with
  | nil => simp
  | cons w ws ih =>
    cases i with
    | zero => simpa using hM w (by simp)
    | succ i =>
      have := ih (i := i) fun v hv => hM v (by simp [hv])
      simp only [take_succ_cons, sum_cons]
      omega

lemma left_half_le (hlen : 2 ≤ weights.length) (hM : ∀ w ∈ weights, w ≤ M)
    (hpos : 0 < weights.sum) :
    2 * (weights.take (balancePoint weights)).sum < weights.sum + 2 * M := by
  obtain ⟨h1, _, hbefore, _⟩ := balancePoint_spec _ hlen
  have hstep := sum_take_succ_le (i := balancePoint weights - 1) hM
  rw [Nat.sub_add_cancel h1] at hstep
  rcases hbefore with heq | hlt
  · simp only [heq, Nat.sub_self, take_zero, sum_nil] at hstep ⊢
    omega
  · omega

lemma right_half_le (hlen : 2 ≤ weights.length) (hM : ∀ w ∈ weights, w ≤ M) :
    2 * (weights.drop (balancePoint weights)).sum ≤ weights.sum ∨
      (weights.drop (balancePoint weights)).sum ≤ M := by
  obtain ⟨_, _, _, hafter⟩ := balancePoint_spec _ hlen
  have hsum := sum_take_add_sum_drop weights (balancePoint weights)
  rcases hafter with hge | heq
  · exact .inl (by omega)
  · right
    rw [heq]
    rcases eq_nil_or_concat weights with rfl | ⟨ws, w, rfl⟩
    · simp
    · simpa using hM w (by simp)

/-- The longest entry with which every split of an internal page succeeds. -/
def safeInsertBytes : ℕ := 2022

lemma leafHalf_fits {want : ℕ} (hlen : 2 ≤ weights.length)
    (hM : ∀ w ∈ weights, w ≤ slotSize + entryOverhead + maxInsertBytes)
    (hwant : want ≤ slotSize + entryOverhead + maxInsertBytes) (hpos : 0 < weights.sum)
    (hfit : leafDirectory + weights.sum ≤ pageSize) :
    (weights.take (balancePoint weights)).sum + want ≤ pageSize - leafDirectory ∧
      (weights.drop (balancePoint weights)).sum + want ≤ pageSize - leafDirectory := by
  have hl := left_half_le hlen hM hpos
  have hr := right_half_le hlen hM
  simp only [slotSize, entryOverhead, maxInsertBytes, leafDirectory, pageSize, headerSize] at *
  omega

/-- The key an internal page promotes. -/
def promotedIndex (weights : List ℕ) : ℕ := min (balancePoint weights) (weights.length - 2)

lemma internalHalf_fits {want : ℕ} (hlen : 3 ≤ weights.length)
    (hM : ∀ w ∈ weights, w ≤ slotSize + entryOverhead + childBytes + safeInsertBytes)
    (hwant : want ≤ slotSize + entryOverhead + childBytes + safeInsertBytes)
    (hpos : 0 < weights.sum) (hfit : internalDirectory + weights.sum ≤ pageSize) :
    (weights.take (promotedIndex weights)).sum + want ≤ pageSize - internalDirectory ∧
      (weights.drop (promotedIndex weights + 1)).sum + want ≤ pageSize - internalDirectory := by
  have hl := left_half_le (by omega) hM hpos
  have hr := right_half_le (by omega) hM
  obtain ⟨h1, hle, _, _⟩ := balancePoint_spec weights (by omega)
  have hleft : (weights.take (promotedIndex weights)).sum ≤
      (weights.take (balancePoint weights)).sum :=
    (take_sublist_take_left (min_le_left _ _)).sum_le_sum (by simp)
  have hright : (weights.drop (promotedIndex weights + 1)).sum ≤
      (weights.drop (balancePoint weights)).sum := by
    refine Sublist.sum_le_sum ?_ (by simp)
    have hge : balancePoint weights ≤ promotedIndex weights + 1 := by
      simp only [promotedIndex]
      omega
    rw [← Nat.add_sub_of_le hge, ← drop_drop]
    exact drop_sublist _ _
  simp only [slotSize, entryOverhead, childBytes, safeInsertBytes, internalDirectory, pageSize,
    headerSize] at *
  omega

/-! ### The index of the cut -/

lemma nearest_of_mem {candidates : List ℕ} {balanced : ℕ} (h : balanced ∈ candidates) :
    nearest candidates balanced = some balanced := by
  rw [nearest]
  cases hm : candidates.argmin fun index => toLex (absDiff index balanced, index) with
  | none =>
    rw [argmin_eq_none] at hm
    simp [hm] at h
  | some m =>
    have hle := le_of_mem_argmin h hm
    rw [Prod.Lex.le_iff] at hle
    simp only [ofLex_toLex, absDiff] at hle
    have heq : m = balanced := by omega
    rw [heq]

lemma keyAt_ne (h : (entries.map Prod.fst).Nodup) {i j : ℕ} (hij : i < j)
    (hj : j < entries.length) :
    keyAt entries i ≠ keyAt entries j := by
  intro heq
  have hi : i < (entries.map Prod.fst).length := by simp; omega
  have hj' : j < (entries.map Prod.fst).length := by simpa using hj
  rw [keyAt, keyAt, ← getElem?_map, ← getElem?_map, getElem?_eq_getElem hi,
    getElem?_eq_getElem hj', Option.some.injEq] at heq
  have := (Nodup.getElem_inj_iff h).mp heq
  omega

lemma cutBetweenKeys_eq (h : (entries.map Prod.fst).Nodup) (hlen : 2 ≤ entries.length) :
    cutBetweenKeys entries (balancePoint (entries.map entryWeight)) =
      some (balancePoint (entries.map entryWeight)) := by
  obtain ⟨h1, h2, _, _⟩ := balancePoint_spec (entries.map entryWeight) (by simpa using hlen)
  simp only [length_map] at h2
  refine nearest_of_mem (mem_filter.mpr ⟨?_, ?_⟩)
  · rw [mem_range'_1]
    omega
  · simpa using keyAt_ne h (by omega) (by omega)

lemma keyToPromote_eq (h : (entries.map Prod.fst).Nodup) (hlen : 3 ≤ entries.length) :
    keyToPromote entries (min (balancePoint (entries.map entryWeight)) (entries.length - 2)) =
      some (promotedIndex (entries.map entryWeight)) := by
  obtain ⟨h1, h2, _, _⟩ := balancePoint_spec (entries.map entryWeight) (by simp; omega)
  have heq : min (balancePoint (entries.map entryWeight)) (entries.length - 2) =
      promotedIndex (entries.map entryWeight) := by simp [promotedIndex]
  rw [← heq]
  refine nearest_of_mem (mem_filter.mpr ⟨?_, ?_⟩)
  · rw [mem_range'_1]
    omega
  · simp only [ne_eq, decide_eq_true_eq]
    exact ⟨keyAt_ne h (by omega) (by omega), keyAt_ne h (by omega) (by omega)⟩

end BTree

end VaubanDB
