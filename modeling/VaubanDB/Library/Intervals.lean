import Mathlib.Tactic

/-!
Intervals of numbers that lie apart.

Disjoint sets inside one set have together no more elements than it (`sum_card_le_of_disjoint`),
so intervals that do not overlap and lie in a window are together no longer than the window
(`sum_le_of_apart`).
-/

lemma sum_card_le_of_disjoint {ι α : Type} [DecidableEq α] {f : ι → Finset α} {l : List ι}
    (hl : l.Pairwise fun a b => Disjoint (f a) (f b)) {S : Finset α} (hS : ∀ i ∈ l, f i ⊆ S) :
    (l.map fun i => (f i).card).sum ≤ S.card := by
  induction l generalizing S with
  | nil => simp
  | cons i l ih =>
    obtain ⟨hi, hl⟩ := List.pairwise_cons.mp hl
    have hrest : ∀ j ∈ l, f j ⊆ S \ f i := by
      intro j hj
      rw [Finset.subset_sdiff]
      exact ⟨hS j (by simp [hj]), (hi j hj).symm⟩
    have hcard := Finset.card_sdiff_add_card_eq_card (hS i (by simp))
    have hsum := ih hl hrest
    simp only [List.map_cons, List.sum_cons]
    omega

lemma sum_le_of_apart {ι : Type} {start len : ι → ℕ} {l : List ι} (hl : l.Pairwise fun a b =>
      start a + len a ≤ start b ∨ start b + len b ≤ start a) {lo hi : ℕ}
    (hin : ∀ i ∈ l, lo ≤ start i ∧ start i + len i ≤ hi) : (l.map len).sum ≤ hi - lo := by
  have hdisjoint : l.Pairwise fun a b =>
      Disjoint (Finset.Ico (start a) (start a + len a))
        (Finset.Ico (start b) (start b + len b)) := by
    refine hl.imp fun {a b} hab => ?_
    rw [Finset.disjoint_left]
    intro x hx hx'
    rw [Finset.mem_Ico] at hx hx'
    omega
  have hsub : ∀ i ∈ l, Finset.Ico (start i) (start i + len i) ⊆ Finset.Ico lo hi := by
    intro i hi'
    obtain ⟨h₁, h₂⟩ := hin i hi'
    exact Finset.Ico_subset_Ico h₁ h₂
  have h := sum_card_le_of_disjoint hdisjoint hsub
  simpa using h
