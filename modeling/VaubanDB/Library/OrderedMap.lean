import Mathlib.Tactic

/-!
Finite maps listed by increasing key.

`OrderedMap κ ν` is the list of its entries together with the proof that the keys strictly increase,
so that two maps with the same answers are equal (`OrderedMap.ext_get?`).  Every operation is
computable, and each comes with the equation of `get?` over it; the order of `entries` is the order
in which an ordered map of a program is iterated.
-/

/-- A finite map from `κ` to `ν`, listed by strictly increasing key. -/
structure OrderedMap (κ ν : Type) [LinearOrder κ] where
  entries : List (κ × ν)
  sorted : entries.Pairwise fun a b => a.1 < b.1

namespace OrderedMap

variable {κ ν μ : Type} [LinearOrder κ] {m : OrderedMap κ ν} {k k' : κ}

instance [DecidableEq ν] : DecidableEq (OrderedMap κ ν) := fun m n =>
  decidable_of_iff (m.entries = n.entries)
    ⟨fun h => by cases m; cases n; cases h; rfl, fun h => by rw [h]⟩

def empty : OrderedMap κ ν := ⟨[], List.Pairwise.nil⟩

instance : Inhabited (OrderedMap κ ν) := ⟨empty⟩

def get? (m : OrderedMap κ ν) (k : κ) : Option ν :=
  (m.entries.find? fun e => e.1 = k).map Prod.snd

def keys (m : OrderedMap κ ν) : List κ := m.entries.map Prod.fst

variable {v : ν}

lemma get?_eq_some_iff : m.get? k = some v ↔ (k, v) ∈ m.entries := by
  obtain ⟨es, hs⟩ := m
  show (es.find? fun e => e.1 = k).map Prod.snd = some v ↔ (k, v) ∈ es
  induction es with
  | nil => simp
  | cons e es ih =>
    obtain ⟨k', v'⟩ := e
    rw [List.pairwise_cons] at hs
    by_cases hk : k' = k
    · subst hk
      have hnot : (k', v) ∉ es := fun hmem => lt_irrefl k' (hs.1 (k', v) hmem)
      simp [hnot, eq_comm]
    · have hne : ¬ (k = k' ∧ v = v') := fun h => hk h.1.symm
      simp [hk, hne, ih hs.2]

lemma mem_keys_iff : k ∈ m.keys ↔ ∃ v, m.get? k = some v := by
  simp only [keys, List.mem_map, Prod.exists, exists_and_right, exists_eq_right, get?_eq_some_iff]

lemma keys_nodup (m : OrderedMap κ ν) : m.keys.Nodup := by
  rw [keys, List.nodup_iff_pairwise_ne, List.pairwise_map]
  exact m.sorted.imp ne_of_lt

/-- Two maps with the same answers are equal: a strictly increasing list is determined by
its members. -/
theorem ext_get? {n : OrderedMap κ ν} (h : ∀ k, m.get? k = n.get? k) : m = n := by
  obtain ⟨es, hs⟩ := m
  obtain ⟨fs, ht⟩ := n
  have hmem : ∀ e : κ × ν, e ∈ es ↔ e ∈ fs := by
    rintro ⟨k, v⟩
    have hk := h k
    have h1 := get?_eq_some_iff (m := ⟨es, hs⟩) (k := k) (v := v)
    have h2 := get?_eq_some_iff (m := ⟨fs, ht⟩) (k := k) (v := v)
    rw [hk] at h1
    exact h1.symm.trans h2
  have hnd : ∀ {l : List (κ × ν)}, l.Pairwise (fun a b => a.1 < b.1) → l.Nodup := by
    intro l hl
    rw [List.nodup_iff_pairwise_ne]
    refine hl.imp ?_
    rintro a b hab rfl
    exact lt_irrefl _ hab
  have hperm : es.Perm fs := (List.perm_ext_iff_of_nodup (hnd hs) (hnd ht)).mpr hmem
  have heq : es = fs := hperm.eq_of_pairwise
    (fun a b _ _ hab hba => absurd (lt_trans hab hba) (lt_irrefl _)) hs ht
  subst heq
  rfl

/-! ### Insertion -/

/-- Insertion into an increasing list of entries, over the entry of the same key. -/
def insertEntry (k : κ) (v : ν) : List (κ × ν) → List (κ × ν)
  | [] => [(k, v)]
  | (k', v') :: es =>
    if k < k' then (k, v) :: (k', v') :: es
    else if k = k' then (k, v) :: es
    else (k', v') :: insertEntry k v es

variable {es : List (κ × ν)}

lemma mem_insertEntry (hs : es.Pairwise fun a b => a.1 < b.1)
    (e : κ × ν) : e ∈ insertEntry k v es ↔ e = (k, v) ∨ (e.1 ≠ k ∧ e ∈ es) := by
  induction es with
  | nil => simp [insertEntry]
  | cons f es ih =>
    obtain ⟨k', v'⟩ := f
    rw [List.pairwise_cons] at hs
    by_cases hlt : k < k'
    · have hne : ∀ e ∈ (k', v') :: es, e.1 ≠ k := by
        intro e he
        rcases List.mem_cons.mp he with rfl | he
        · exact ne_of_gt hlt
        · exact ne_of_gt (lt_trans hlt (hs.1 e he))
      simp only [insertEntry, if_pos hlt, List.mem_cons (a := e) (b := (k, v))]
      exact or_congr_right ⟨fun he => ⟨hne e he, he⟩, fun he => he.2⟩
    · by_cases heq : k = k'
      · subst heq
        have hne : ∀ e ∈ es, e.1 ≠ k := fun e he => ne_of_gt (hs.1 e he)
        simp only [insertEntry, if_neg hlt, if_true, List.mem_cons]
        constructor
        · rintro (rfl | he)
          · exact Or.inl rfl
          · exact Or.inr ⟨hne e he, Or.inr he⟩
        · rintro (rfl | ⟨hk, rfl | he⟩)
          · exact Or.inl rfl
          · exact absurd rfl hk
          · exact Or.inr he
      · simp only [insertEntry, if_neg hlt, if_neg heq, List.mem_cons, ih hs.2]
        constructor
        · rintro (rfl | rfl | ⟨hk, he⟩)
          · exact Or.inr ⟨fun h => heq h.symm, Or.inl rfl⟩
          · exact Or.inl rfl
          · exact Or.inr ⟨hk, Or.inr he⟩
        · rintro (rfl | ⟨hk, rfl | he⟩)
          · exact Or.inr (Or.inl rfl)
          · exact Or.inl rfl
          · exact Or.inr (Or.inr ⟨hk, he⟩)

lemma insertEntry_sorted (hs : es.Pairwise fun a b => a.1 < b.1) :
    (insertEntry k v es).Pairwise fun a b => a.1 < b.1 := by
  induction es with
  | nil => simp [insertEntry]
  | cons f es ih =>
    obtain ⟨k', v'⟩ := f
    have hs' := hs
    rw [List.pairwise_cons] at hs
    rw [insertEntry]
    split_ifs with hlt heq
    · refine List.pairwise_cons.mpr ⟨?_, hs'⟩
      intro e he
      rcases List.mem_cons.mp he with rfl | he
      · exact hlt
      · exact lt_trans hlt (hs.1 e he)
    · subst heq
      exact List.pairwise_cons.mpr ⟨hs.1, hs.2⟩
    · refine List.pairwise_cons.mpr ⟨?_, ih hs.2⟩
      intro e he
      rcases (mem_insertEntry hs.2 e).mp he with rfl | ⟨_, he⟩
      · exact lt_of_le_of_ne (not_lt.mp hlt) (fun h => heq h.symm)
      · exact hs.1 e he

def insert (m : OrderedMap κ ν) (k : κ) (v : ν) : OrderedMap κ ν :=
  ⟨insertEntry k v m.entries, insertEntry_sorted m.sorted⟩

lemma get?_insert (m : OrderedMap κ ν) (k k' : κ) (v : ν) :
    (m.insert k v).get? k' = if k' = k then some v else m.get? k' := by
  apply Option.ext
  intro w
  rw [get?_eq_some_iff]
  show (k', w) ∈ insertEntry k v m.entries ↔ _
  rw [mem_insertEntry m.sorted]
  by_cases hk : k' = k
  · subst hk
    simp [eq_comm]
  · simp [hk, get?_eq_some_iff]

@[simp] lemma get?_insert_self (m : OrderedMap κ ν) (k : κ) (v : ν) :
    (m.insert k v).get? k = some v := by
  rw [get?_insert, if_pos rfl]

variable {k' : κ}

lemma get?_insert_ne (m : OrderedMap κ ν) (v : ν) (h : k' ≠ k) :
    (m.insert k v).get? k' = m.get? k' := by
  rw [get?_insert, if_neg h]

lemma get?_insert_eq_some {w : ν} :
    (m.insert k v).get? k' = some w ↔ (k' = k ∧ w = v) ∨ (k' ≠ k ∧ m.get? k' = some w) := by
  rw [get?_insert]
  by_cases hk : k' = k <;> simp [hk, eq_comm]

lemma mem_keys_insert : k' ∈ (m.insert k v).keys ↔ k' = k ∨ k' ∈ m.keys := by
  simp only [mem_keys_iff, get?_insert]
  by_cases hk : k' = k <;> simp [hk]

lemma insert_insert (m : OrderedMap κ ν) (k : κ) (v w : ν) :
    (m.insert k v).insert k w = m.insert k w := by
  apply ext_get?
  intro k'
  simp only [get?_insert]
  split_ifs <;> rfl

lemma insert_eq_self (h : m.get? k = some v) : m.insert k v = m := by
  apply ext_get?
  intro k'
  rw [get?_insert]
  split_ifs with hk
  · rw [hk, h]
  · rfl

/-! ### Removal, change of values, restriction -/

def erase (m : OrderedMap κ ν) (k : κ) : OrderedMap κ ν :=
  ⟨m.entries.filter fun e => e.1 ≠ k, m.sorted.filter _⟩

lemma get?_erase (m : OrderedMap κ ν) (k k' : κ) :
    (m.erase k).get? k' = if k' = k then none else m.get? k' := by
  apply Option.ext
  intro w
  rw [get?_eq_some_iff]
  by_cases hk : k' = k <;> simp [erase, hk, get?_eq_some_iff]

@[simp] lemma get?_erase_self (m : OrderedMap κ ν) (k : κ) : (m.erase k).get? k = none := by
  rw [get?_erase, if_pos rfl]

lemma get?_erase_ne (m : OrderedMap κ ν) (h : k' ≠ k) : (m.erase k).get? k' = m.get? k' := by
  rw [get?_erase, if_neg h]

lemma get?_erase_eq_some {w : ν} : (m.erase k).get? k' = some w ↔ k' ≠ k ∧ m.get? k' = some w := by
  rw [get?_erase]
  by_cases hk : k' = k <;> simp [hk]

lemma mem_keys_erase : k' ∈ (m.erase k).keys ↔ k' ≠ k ∧ k' ∈ m.keys := by
  simp only [mem_keys_iff, get?_erase_eq_some, exists_and_left]

def mapVals (m : OrderedMap κ ν) (f : κ → ν → μ) : OrderedMap κ μ :=
  ⟨m.entries.map fun e => (e.1, f e.1 e.2), by
    rw [List.pairwise_map]
    exact m.sorted⟩

lemma get?_mapVals (m : OrderedMap κ ν) (f : κ → ν → μ) (k : κ) :
    (m.mapVals f).get? k = (m.get? k).map (f k) := by
  apply Option.ext
  intro w
  simp only [get?_eq_some_iff, mapVals, List.mem_map, Prod.exists, Prod.mk.injEq,
    Option.map_eq_some_iff]
  constructor
  · rintro ⟨a, b, hab, rfl, rfl⟩
    exact ⟨b, hab, rfl⟩
  · rintro ⟨b, hab, rfl⟩
    exact ⟨k, b, hab, rfl, rfl⟩

def modify (m : OrderedMap κ ν) (k : κ) (f : ν → ν) : OrderedMap κ ν :=
  m.mapVals fun k' v => if k' = k then f v else v

lemma get?_modify (m : OrderedMap κ ν) (k k' : κ) (f : ν → ν) :
    (m.modify k f).get? k' = if k' = k then (m.get? k').map f else m.get? k' := by
  rw [modify, get?_mapVals]
  by_cases hk : k' = k <;> simp [hk]

@[simp] lemma get?_modify_self (m : OrderedMap κ ν) (k : κ) (f : ν → ν) :
    (m.modify k f).get? k = (m.get? k).map f := by
  rw [get?_modify, if_pos rfl]

lemma get?_modify_ne (m : OrderedMap κ ν) (f : ν → ν) (h : k' ≠ k) :
    (m.modify k f).get? k' = m.get? k' := by
  rw [get?_modify, if_neg h]

lemma get?_modify_eq_some {f : ν → ν} {w : ν} :
    (m.modify k f).get? k' = some w ↔
      ∃ v, m.get? k' = some v ∧ (if k' = k then f v else v) = w := by
  rw [modify, get?_mapVals, Option.map_eq_some_iff]

def filter (m : OrderedMap κ ν) (p : κ → ν → Bool) : OrderedMap κ ν :=
  ⟨m.entries.filter fun e => p e.1 e.2, m.sorted.filter _⟩

lemma get?_filter (m : OrderedMap κ ν) (p : κ → ν → Bool) (k : κ) :
    (m.filter p).get? k = (m.get? k).filter (p k) := by
  apply Option.ext
  intro w
  rw [get?_eq_some_iff, Option.filter_eq_some_iff, get?_eq_some_iff]
  simp [filter]

end OrderedMap

lemma List.mem_snoc {α : Type} {x a : α} {l : List α} : x ∈ l ++ [a] ↔ x ∈ l ∨ x = a := by
  rw [mem_append, mem_singleton]
