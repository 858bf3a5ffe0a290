import Mathlib.Tactic

/-!
Binary search with a predicate that may fail, and insertion at the position found.

A search that ends at a position has asked the predicate about both neighbours of that position
(`partitionPoint_spec`); it fails only where the predicate fails, and a predicate that is true on a
leading segment and false after it is cut exactly there (`partitionPoint_eq`).  The second part
keeps a list ordered by a transitive relation.
-/

namespace BinarySearch

variable {ε α : Type}

/-- The loop of the binary search over `[lo, hi)`; `missing` is the error of a position out of
range. -/
def searchLoop (items : List α) (pred : α → Except ε Bool) (missing : ℕ → ε) :
    ℕ → ℕ → ℕ → Except ε ℕ
  | 0, lo, _ => .ok lo
  | fuel + 1, lo, hi =>
    if lo < hi then
      let mid := lo + (hi - lo) / 2
      match items[mid]? with
      | none => .error (missing mid)
      | some item =>
        match pred item with
        | .error e => .error e
        | .ok true => searchLoop items pred missing fuel (mid + 1) hi
        | .ok false => searchLoop items pred missing fuel lo mid
    else .ok lo

/-- The position of the first item on which `pred` is false, by binary search. -/
def partitionPoint (items : List α) (pred : α → Except ε Bool) (missing : ℕ → ε) :
    Except ε ℕ :=
  searchLoop items pred missing items.length 0 items.length

variable {items : List α} {pred : α → Except ε Bool} {missing : ℕ → ε}

/-- The invariant of the loop: what is left of the interval has been asked, and so has what
is right of it. -/
lemma searchLoop_spec (fuel lo hi : ℕ) (hfuel : hi - lo ≤ fuel) (hlo : lo ≤ hi)
    (hhi : hi ≤ items.length) (hleft : ∀ x, 0 < lo → items[lo - 1]? = some x → pred x = .ok true)
    (hright : ∀ x, items[hi]? = some x → pred x = .ok false)
    {pos : ℕ} (h : searchLoop items pred missing fuel lo hi = .ok pos) :
    pos ≤ items.length ∧ (∀ x, 0 < pos → items[pos - 1]? = some x → pred x = .ok true) ∧
      (∀ x, items[pos]? = some x → pred x = .ok false) := by
  fun_induction searchLoop items pred missing fuel lo hi with
  | case1 lo hi =>
    obtain rfl : lo = hi := by omega
    cases h
    exact ⟨hhi, hleft, hright⟩
  | case2 | case3 => cases h
  | case4 fuel lo hi hlt mid item hitem hp ih =>
    have hmid := (List.getElem?_eq_some_iff.mp hitem).1
    refine ih (by omega) (by omega) hhi ?_ hright h
    intro x _ hx
    cases hitem.symm.trans hx
    exact hp
  | case5 fuel lo hi hlt mid item hitem hp ih =>
    have hmid := (List.getElem?_eq_some_iff.mp hitem).1
    refine ih (by omega) (by omega) (by omega) hleft ?_ h
    intro x hx
    cases hitem.symm.trans hx
    exact hp
  | case6 fuel lo hi hge =>
    obtain rfl : lo = hi := by omega
    cases h
    exact ⟨hhi, hleft, hright⟩

/-- A search that ends has asked both neighbours of the position it answers. -/
theorem partitionPoint_spec {pos : ℕ} (h : partitionPoint items pred missing = .ok pos) :
    pos ≤ items.length ∧ (∀ x, 0 < pos → items[pos - 1]? = some x → pred x = .ok true) ∧
      (∀ x, items[pos]? = some x → pred x = .ok false) :=
  searchLoop_spec items.length 0 items.length (by omega) (by omega) le_rfl
    (fun _ h0 => absurd h0 (lt_irrefl 0)) (fun x hx => by simp at hx) h

lemma searchLoop_error (fuel lo hi : ℕ) (hhi : hi ≤ items.length) {e : ε}
    (h : searchLoop items pred missing fuel lo hi = .error e) : ∃ x ∈ items, pred x = .error e := by
  fun_induction searchLoop items pred missing fuel lo hi with
  | case1 | case6 => cases h
  | case2 fuel lo hi hlt mid hmid =>
    rw [List.getElem?_eq_none_iff] at hmid
    omega
  | case3 fuel lo hi hlt mid item hitem e' hp =>
    cases h
    exact ⟨item, List.mem_of_getElem? hitem, hp⟩
  | case4 fuel lo hi hlt mid item hitem hp ih => exact ih hhi h
  | case5 fuel lo hi hlt mid item hitem hp ih => exact ih (by omega) h

/-- A search only fails where the predicate does: it never leaves the range of positions. -/
theorem partitionPoint_error {e : ε} (h : partitionPoint items pred missing = .error e) :
    ∃ x ∈ items, pred x = .error e :=
  searchLoop_error items.length 0 items.length le_rfl h

lemma partitionPoint_total (h : ∀ x ∈ items, ∃ b, pred x = .ok b) :
    ∃ pos, partitionPoint items pred missing = .ok pos := by
  cases hp : partitionPoint items pred missing with
  | ok pos => exact ⟨pos, rfl⟩
  | error e =>
    obtain ⟨x, hx, hpx⟩ := partitionPoint_error hp
    obtain ⟨b, hb⟩ := h x hx
    rw [hb] at hpx
    exact absurd hpx (by simp)

/-- A predicate true on the first `n` items and false on the others is cut at `n`. -/
theorem partitionPoint_eq {n : ℕ} (hn : n ≤ items.length)
    (htrue : ∀ i x, i < n → items[i]? = some x → pred x = .ok true)
    (hfalse : ∀ i x, n ≤ i → items[i]? = some x → pred x = .ok false) :
    partitionPoint items pred missing = .ok n := by
  have htotal : ∀ x ∈ items, ∃ b, pred x = .ok b := by
    intro x hx
    obtain ⟨i, hi⟩ := List.mem_iff_getElem?.mp hx
    by_cases hin : i < n
    · exact ⟨true, htrue i x hin hi⟩
    · exact ⟨false, hfalse i x (by omega) hi⟩
  obtain ⟨pos, hpos⟩ : ∃ pos, partitionPoint items pred missing = .ok pos :=
    partitionPoint_total htotal
  obtain ⟨hle, hleft, hright⟩ := partitionPoint_spec hpos
  rw [hpos]
  rcases lt_trichotomy pos n with hlt | rfl | hgt
  · have hi : pos < items.length := by omega
    have h1 := hright _ (List.getElem?_eq_getElem hi)
    have h2 := htrue pos _ hlt (List.getElem?_eq_getElem hi)
    rw [h1] at h2
    exact absurd h2 (by simp)
  · rfl
  · have hi : pos - 1 < items.length := by omega
    have h1 := hleft _ (by omega) (List.getElem?_eq_getElem hi)
    have h2 := hfalse (pos - 1) _ (by omega) (List.getElem?_eq_getElem hi)
    rw [h1] at h2
    exact absurd h2 (by simp)

end BinarySearch

/-! ### Lists ordered by a relation -/

section Ordered

variable {α : Type} {r : α → α → Prop} {l : List α} {pos : ℕ}

lemma insertIdx_eq_take_append (hpos : pos ≤ l.length) (x : α) :
    l.insertIdx pos x = l.take pos ++ x :: l.drop pos := by
  induction pos generalizing l with
  | zero => simp
  | succ pos ih =>
    cases l with
    | nil => simp at hpos
    | cons a l =>
      simp only [List.insertIdx_succ_cons, List.take_succ_cons, List.drop_succ_cons,
        List.cons_append]
      rw [ih (by simpa using hpos)]

variable {x : α}

lemma mem_insertIdx_iff (hpos : pos ≤ l.length) {y : α} :
    y ∈ l.insertIdx pos x ↔ y = x ∨ y ∈ l := by
  rw [insertIdx_eq_take_append hpos]
  conv_rhs => rw [← List.take_append_drop pos l]
  simp only [List.mem_append, List.mem_cons]
  tauto

lemma forall_take_of_pairwise (htrans : ∀ a b c, r a b → r b c → r a c) (hl : l.Pairwise r)
    (hpos : pos ≤ l.length) (h : ∀ y, 0 < pos → l[pos - 1]? = some y → r y x) :
    ∀ y ∈ l.take pos, r y x := by
  intro y hy
  obtain ⟨i, hi, rfl⟩ := List.mem_take_iff_getElem.mp hy
  have hp : 0 < pos := by omega
  have hlast := h _ hp (List.getElem?_eq_getElem (by omega))
  rcases Nat.lt_or_ge i (pos - 1) with hlt | hge
  · exact htrans _ _ _ (List.pairwise_iff_getElem.mp hl i (pos - 1) _ _ hlt) hlast
  · have heq : i = pos - 1 := by omega
    subst heq
    exact hlast

lemma forall_drop_of_pairwise (htrans : ∀ a b c, r a b → r b c → r a c) (hl : l.Pairwise r)
    (h : ∀ y, l[pos]? = some y → r x y) : ∀ y ∈ l.drop pos, r x y := by
  intro y hy
  obtain ⟨i, hi, rfl⟩ := List.mem_drop_iff_getElem.mp hy
  have hfirst := h _ (List.getElem?_eq_getElem (by omega))
  rcases Nat.eq_zero_or_pos i with rfl | hpos
  · simpa using hfirst
  · exact htrans _ _ _ hfirst (List.pairwise_iff_getElem.mp hl pos _ (by omega) (by omega)
      (by omega))

lemma pairwise_insertIdx (hl : l.Pairwise r) (hpos : pos ≤ l.length)
    (hbefore : ∀ y ∈ l.take pos, r y x) (hafter : ∀ y ∈ l.drop pos, r x y) :
    (l.insertIdx pos x).Pairwise r := by
  rw [insertIdx_eq_take_append hpos]
  rw [← List.take_append_drop pos l, List.pairwise_append] at hl
  obtain ⟨htake, hdrop, hcross⟩ := hl
  rw [List.pairwise_append]
  refine ⟨htake, List.pairwise_cons.mpr ⟨hafter, hdrop⟩, ?_⟩
  intro a ha b hb
  rcases List.mem_cons.mp hb with rfl | hb
  · exact hbefore a ha
  · exact hcross a ha b hb

lemma append_eq_append_cons {l₁ l₂ m₁ m₂ : List α} {a : α} (h : l₁ ++ l₂ = m₁ ++ a :: m₂) :
    (∃ mid, m₁ = l₁ ++ mid ∧ l₂ = mid ++ a :: m₂) ∨
      ∃ mid, l₁ = m₁ ++ a :: mid ∧ m₂ = mid ++ l₂ := by
  rcases List.append_eq_append_iff.mp h with ⟨mid, h₁, h₂⟩ | ⟨mid, h₁, h₂⟩
  · exact .inl ⟨mid, h₁, h₂⟩
  · cases mid with
    | nil => exact .inl ⟨[], by simpa using h₁.symm, by simpa using h₂.symm⟩
    | cons b mid =>
      simp only [List.cons_append, List.cons.injEq] at h₂
      obtain ⟨rfl, h₂⟩ := h₂
      exact .inr ⟨mid, h₁, h₂⟩

lemma rel_of_getElem?_of_pairwise {R : α → α → Prop} (h : l.Pairwise R) {i j : ℕ} (hij : i < j)
    {a b : α} (ha : l[i]? = some a) (hb : l[j]? = some b) : R a b := by
  obtain ⟨hi, rfl⟩ := List.getElem?_eq_some_iff.mp ha
  obtain ⟨hj, rfl⟩ := List.getElem?_eq_some_iff.mp hb
  exact List.pairwise_iff_getElem.mp h i j hi hj hij

lemma rel_or_rel_of_pairwise (hl : l.Pairwise r) {a b : α} (ha : a ∈ l) (hb : b ∈ l) (hne : a ≠ b) :
    r a b ∨ r b a := by
  induction hl with
  | nil => cases ha
  | cons hx _ ih =>
    rcases List.mem_cons.mp ha with rfl | ha' <;> rcases List.mem_cons.mp hb with rfl | hb'
    · exact absurd rfl hne
    · exact .inl (hx b hb')
    · exact .inr (hx a ha')
    · exact ih ha' hb'

/-- A predicate that goes down along an ordered list selects a leading segment of it. -/
lemma takeWhile_eq_filter_of_pairwise {q : α → Bool} (hl : l.Pairwise r)
    (hq : ∀ a ∈ l, ∀ b ∈ l, r a b → q b = true → q a = true) : l.takeWhile q = l.filter q := by
  induction hl with
  | nil => rfl
  | @cons a l ha _ ih =>
    cases hqa : q a with
    | true =>
      rw [List.takeWhile_cons_of_pos hqa, List.filter_cons_of_pos hqa,
        ih fun b hb c hc => hq b (by simp [hb]) c (by simp [hc])]
    | false =>
      have hnone : l.filter q = [] := by
        rw [List.filter_eq_nil_iff]
        intro b hb hqb
        have := hq a (by simp) b (by simp [hb]) (ha b hb) hqb
        simp [hqa] at this
      rw [List.takeWhile_cons_of_neg (by simp [hqa]), List.filter_cons_of_neg (by simp [hqa]),
        hnone]

lemma eq_of_mem_iff_of_pairwise (hirrefl : ∀ a, ¬ r a a) (hasymm : ∀ a b, r a b → ¬ r b a)
    {l₁ l₂ : List α} (h₁ : l₁.Pairwise r) (h₂ : l₂.Pairwise r)
    (hmem : ∀ a, a ∈ l₁ ↔ a ∈ l₂) : l₁ = l₂ := by
  have hnodup : ∀ {l : List α}, l.Pairwise r → l.Nodup := by
    intro l hl
    rw [List.nodup_iff_pairwise_ne]
    refine hl.imp ?_
    rintro a b hab rfl
    exact hirrefl a hab
  have hperm := (List.perm_ext_iff_of_nodup (hnodup h₁) (hnodup h₂)).mpr hmem
  exact List.Perm.eq_of_pairwise (fun a b _ _ hab hba => absurd hba (hasymm a b hab)) h₁ h₂ hperm

end Ordered

lemma filterMap_filter_isSome {α β : Type} (f : α → Option β) (l : List α) :
    (l.filter fun a => (f a).isSome).filterMap f = l.filterMap f := by
  rw [List.filterMap_filter]
  refine congrArg (List.filterMap · l) (funext fun a => ?_)
  cases f a <;> rfl
