import VaubanDB.Library.Sequences

/-!
Codes that keep an order and end by themselves.

Two code words are told apart as `o` (`TellsApart k l o`) when whatever follows them is read only if
`o` is `eq`.  A code that tells its words apart as `cmp` does embeds `cmp` in the lexicographic
order, is prefix-free, and may be written end to end with others: numbers of a fixed width, lists
whose elements are announced, bytes with the zeros escaped, and lists compared with padding
(`paddedCode_tellsApart`).
-/

open Std

/-! ### Words told apart -/

section Words

variable {β : Type} [Ord β]

/-- Two code words compare as `o` whatever follows, and what follows counts when `o` is
`eq`. -/
def TellsApart (k l : List β) (o : Ordering) : Prop :=
  ∀ u v, List.compareLex compare (k ++ u) (l ++ v) = o.then (List.compareLex compare u v)

namespace TellsApart

variable {k k' l l' : List β} {o o' : Ordering}

lemma nil : TellsApart ([] : List β) [] .eq := fun _ _ => rfl

lemma compare_eq (h : TellsApart k l o) : List.compareLex compare k l = o := by
  have := h [] []
  rw [List.append_nil, List.append_nil] at this
  rw [this]
  cases o <;> rfl

lemma append (h : TellsApart k l o) (h' : TellsApart k' l' o') :
    TellsApart (k ++ k') (l ++ l') (o.then o') := by
  intro u v
  rw [List.append_assoc, List.append_assoc, h, h', Ordering.then_assoc]

lemma append_of_ne (h : TellsApart k l o) (ho : o ≠ .eq) (m n : List β) :
    TellsApart (k ++ m) (l ++ n) o := by
  intro u v
  rw [List.append_assoc, List.append_assoc, h]
  cases o with
  | eq => exact absurd rfl ho
  | lt => rfl
  | gt => rfl

lemma cons (a b : β) (h : TellsApart k l o) :
    TellsApart (a :: k) (b :: l) ((compare a b).then o) := by
  intro u v
  rw [List.cons_append, List.cons_append, List.compareLex_cons_cons, h, Ordering.then_assoc]

lemma cons_self [ReflOrd β] (a : β) (h : TellsApart k l o) : TellsApart (a :: k) (a :: l) o := by
  have := h.cons a a
  rwa [ReflOrd.compare_self, Ordering.eq_then] at this

lemma cons_of_ne {a b : β} (hab : compare a b ≠ .eq) (k l : List β) :
    TellsApart (a :: k) (b :: l) (compare a b) := by
  have h : TellsApart [a] [b] (compare a b) := by
    intro u v
    rw [List.cons_append, List.cons_append, List.compareLex_cons_cons, List.nil_append,
      List.nil_append]
  exact h.append_of_ne hab k l

lemma cons_lt {a b : β} (hab : compare a b = .lt) (k l : List β) :
    TellsApart (a :: k) (b :: l) .lt :=
  hab ▸ cons_of_ne (by rw [hab]; decide) k l

lemma cons_gt {a b : β} (hab : compare a b = .gt) (k l : List β) :
    TellsApart (a :: k) (b :: l) .gt :=
  hab ▸ cons_of_ne (by rw [hab]; decide) k l

lemma flatten {ws : List (List β × List β × Ordering)} (h : ∀ w ∈ ws, TellsApart w.1 w.2.1 w.2.2) :
    TellsApart (ws.flatMap fun w => w.1) (ws.flatMap fun w => w.2.1)
      ((ws.map fun w => w.2.2).foldr Ordering.then .eq) := by
  induction ws with
  | nil => exact nil
  | cons w ws ih =>
    simp only [List.flatMap_cons, List.map_cons, List.foldr_cons]
    exact (h w List.mem_cons_self).append (ih fun x hx => h x (List.mem_cons_of_mem _ hx))

lemma swap [TransOrd β] (h : TellsApart k l o) : TellsApart l k o.swap := by
  intro u v
  rw [swap_of_transCmp (List.compareLex compare) (k ++ v), h,
    swap_of_transCmp (List.compareLex compare) v, Ordering.swap_then]

variable [LawfulEqOrd β]

lemma eq_iff (h : TellsApart k l o) : k = l ↔ o = .eq := by
  rw [← h.compare_eq]
  exact (@LawfulEqCmp.compare_eq_iff_eq _ (List.compareLex compare) _ k l).symm

lemma eq_of_isPrefix (h : TellsApart k l o) (hkl : k <+: l) : k = l := by
  obtain ⟨m, rfl⟩ := hkl
  have hself := h m []
  rw [List.append_nil, @ReflCmp.compare_self _ (List.compareLex compare)] at hself
  exact h.eq_iff.mpr (Ordering.then_eq_eq.mp hself.symm).1

end TellsApart

end Words

/-! ### Lists whose elements are announced -/

section Lists

variable {α β : Type}

/-- Each element announced by `more`, the list closed by `stop`. -/
def listCode (code : α → List β) (more stop : β) (xs : List α) : List β :=
  (xs.flatMap fun x => more :: code x) ++ [stop]

variable {code : α → List β} {cmp : α → α → Ordering} {more stop : β}

lemma listCode_cons (x : α) (xs : List α) :
    listCode code more stop (x :: xs) = more :: (code x ++ listCode code more stop xs) := by
  simp [listCode]

lemma listCode_tellsApart [Ord β] [OrientedOrd β] (hlt : compare stop more = .lt) {xs ys : List α}
    (hcode : ∀ x ∈ xs, ∀ y ∈ ys, TellsApart (code x) (code y) (cmp x y)) :
    TellsApart (listCode code more stop xs) (listCode code more stop ys)
      (List.compareLex cmp xs ys) := by
  induction xs generalizing ys with
  | nil =>
    cases ys with
    | nil => exact TellsApart.nil.cons_self stop
    | cons y ys =>
      rw [listCode_cons]
      exact .cons_lt hlt _ _
  | cons x xs ih =>
    cases ys with
    | nil =>
      rw [listCode_cons]
      exact .cons_gt (OrientedCmp.gt_of_lt hlt) _ _
    | cons y ys =>
      rw [listCode_cons, listCode_cons, List.compareLex_cons_cons]
      have hrest := ih fun x' hx y' hy =>
        hcode x' (List.mem_cons_of_mem _ hx) y' (List.mem_cons_of_mem _ hy)
      exact ((hcode x List.mem_cons_self y List.mem_cons_self).append hrest).cons_self more

end Lists

/-! ### Lists compared with padding -/

section Padded

variable {α β : Type} [DecidableEq α]

/-- The code of a list compared with padding. A padding element is followed by `below` or
`above`, as what comes next compares with padding alone; when nothing but padding comes
next, the list is closed by `stop`. -/
def paddedCode (cmp : α → α → Ordering) (pad : α) (code : α → List β) (below stop above : β) :
    List α → List β
  | [] => code pad ++ [stop]
  | x :: xs =>
    code x ++
      if x = pad then
        match padCmp cmp pad xs [] with
        | .eq => [stop]
        | .lt => below :: paddedCode cmp pad code below stop above xs
        | .gt => above :: paddedCode cmp pad code below stop above xs
      else paddedCode cmp pad code below stop above xs

variable {cmp : α → α → Ordering} {pad : α} {code : α → List β} {below stop above : β}

def paddedFlag (cmp : α → α → Ordering) (pad : α) (code : α → List β) (below stop above : β)
    (xs : List α) : List β :=
  match padCmp cmp pad xs [] with
  | .eq => [stop]
  | .lt => below :: paddedCode cmp pad code below stop above xs
  | .gt => above :: paddedCode cmp pad code below stop above xs

lemma paddedCode_headD_tail [ReflCmp cmp] (xs : List α) :
    paddedCode cmp pad code below stop above xs = code (xs.headD pad) ++
        if xs.headD pad = pad then paddedFlag cmp pad code below stop above xs.tail
        else paddedCode cmp pad code below stop above xs.tail := by
  cases xs with
  | nil =>
    have hnil : padCmp cmp pad [] [] = .eq := @ReflCmp.compare_self _ (List.compareLex cmp) _ _
    simp [paddedCode, paddedFlag, hnil]
  | cons x xs => rfl

variable [Ord β] [TransOrd β] [TransCmp cmp]

/-- After a padding element, the flags decide unless what follows compares alike with padding
alone. -/
lemma paddedFlag_tellsApart (hbelow : compare below stop = .lt) (habove : compare stop above = .lt)
    {xs ys : List α} (h : TellsApart (paddedCode cmp pad code below stop above xs)
      (paddedCode cmp pad code below stop above ys) (padCmp cmp pad xs ys)) :
    TellsApart (paddedFlag cmp pad code below stop above xs)
      (paddedFlag cmp pad code below stop above ys) (padCmp cmp pad xs ys) := by
  have hacross : compare below above = .lt := TransCmp.lt_trans hbelow habove
  have hswap : padCmp cmp pad [] ys = (padCmp cmp pad ys []).swap :=
    swap_of_transCmp (padCmp cmp pad) ys []
  have hle : padCmp cmp pad xs [] ≠ .gt → padCmp cmp pad ys [] ≠ .lt →
      padCmp cmp pad xs ys = (padCmp cmp pad xs []).then (padCmp cmp pad ys []).swap := by
    intro hx hy
    rw [← hswap]
    refine then_of_transCmp (padCmp cmp pad) hx ?_
    rw [hswap]
    exact fun hgt => hy (Ordering.swap_eq_gt.mp hgt)
  have hge : padCmp cmp pad xs [] ≠ .lt → padCmp cmp pad ys [] ≠ .gt → padCmp cmp pad xs ys
        = ((padCmp cmp pad ys []).then (padCmp cmp pad xs []).swap).swap := by
    intro hx hy
    have hswap' : padCmp cmp pad [] xs = (padCmp cmp pad xs []).swap :=
      swap_of_transCmp (padCmp cmp pad) xs []
    rw [swap_of_transCmp (padCmp cmp pad) ys xs, ← hswap']
    congr 1
    refine then_of_transCmp (padCmp cmp pad) hy ?_
    rw [hswap']
    exact fun hgt => hx (Ordering.swap_eq_gt.mp hgt)
  unfold paddedFlag
  rcases hsx : padCmp cmp pad xs [] with _ | _ | _ <;>
    rcases hsy : padCmp cmp pad ys [] with _ | _ | _ <;>
    rw [hsx, hsy] at hle hge
  · exact h.cons_self below
  · rw [hle (by decide) (by decide)]
    exact .cons_lt hbelow _ _
  · rw [hle (by decide) (by decide)]
    exact .cons_lt hacross _ _
  · rw [hge (by decide) (by decide)]
    exact .cons_gt (OrientedCmp.gt_of_lt hbelow) _ _
  · rw [hle (by decide) (by decide)]
    exact TellsApart.nil.cons_self stop
  · rw [hle (by decide) (by decide)]
    exact .cons_lt habove _ _
  · rw [hge (by decide) (by decide)]
    exact .cons_gt (OrientedCmp.gt_of_lt hacross) _ _
  · rw [hge (by decide) (by decide)]
    exact .cons_gt (OrientedCmp.gt_of_lt habove) _ _
  · exact h.cons_self above

/-- **The code of padded lists tells them apart as the comparison with padding does.** -/
lemma paddedCode_tellsApart [LawfulEqCmp cmp] (hbelow : compare below stop = .lt)
    (habove : compare stop above = .lt) {s : Set α} (hpad : pad ∈ s)
    (hcode : ∀ x ∈ s, ∀ y ∈ s, TellsApart (code x) (code y) (cmp x y))
    {xs ys : List α} (hxs : ∀ x ∈ xs, x ∈ s) (hys : ∀ y ∈ ys, y ∈ s) :
    TellsApart (paddedCode cmp pad code below stop above xs)
      (paddedCode cmp pad code below stop above ys) (padCmp cmp pad xs ys) := by
  induction xs, ys using List.tail_induction with
  | nil =>
    have hself := hcode pad hpad pad hpad
    rw [@ReflCmp.compare_self _ cmp] at hself
    rw [@ReflCmp.compare_self _ (padCmp cmp pad)]
    exact hself.append (TellsApart.nil.cons_self stop)
  | step xs ys ih =>
    have htail := ih (fun x hx => hxs x (List.mem_of_mem_tail hx))
      fun y hy => hys y (List.mem_of_mem_tail hy)
    have hhead : ∀ zs : List α, (∀ z ∈ zs, z ∈ s) → zs.headD pad ∈ s := by
      intro zs hzs
      cases zs with
      | nil => exact hpad
      | cons z zs => exact hzs z List.mem_cons_self
    have hfirst := hcode _ (hhead xs hxs) _ (hhead ys hys)
    rw [padCmp_headD_tail xs ys, paddedCode_headD_tail xs, paddedCode_headD_tail ys]
    by_cases hxy : cmp (xs.headD pad) (ys.headD pad) = .eq
    · refine hfirst.append ?_
      rw [LawfulEqCmp.compare_eq_iff_eq.mp hxy]
      split_ifs
      · exact paddedFlag_tellsApart hbelow habove htail
      · exact htail
    · have hthen : ∀ o o' : Ordering, o ≠ .eq → o.then o' = o := by decide
      rw [hthen _ _ hxy]
      exact hfirst.append_of_ne hxy _ _

end Padded

/-! ### Bytes -/

/-- The `k` low bytes of a number, the highest first. -/
def beBytes : ℕ → ℕ → List UInt8
  | 0, _ => []
  | k + 1, n => UInt8.ofNat (n / 256 ^ k % 256) :: beBytes k n

/-- **Numbers of a fixed width are told apart by the bytes the width keeps.** -/
lemma beBytes_tellsApart (k m n : ℕ) :
    TellsApart (beBytes k m) (beBytes k n) (compare (m % 256 ^ k) (n % 256 ^ k)) := by
  induction k with
  | zero => simpa [beBytes, Nat.mod_one] using TellsApart.nil
  | succ k ih =>
    have hhigh : ∀ i, i % 256 ^ (k + 1) / 256 ^ k = i / 256 ^ k % 256 := fun i => by
      rw [pow_succ, Nat.mod_mul_right_div_self]
    have hlow : ∀ i, i % 256 ^ (k + 1) % 256 ^ k = i % 256 ^ k := fun i =>
      Nat.mod_mod_of_dvd i (pow_dvd_pow 256 k.le_succ)
    have hbyte : ∀ i, (UInt8.ofNat (i / 256 ^ k % 256)).toNat = i / 256 ^ k % 256 := fun i => by
      rw [UInt8.toNat_ofNat', Nat.mod_mod_of_dvd _ (by decide)]
    have hsplit := Nat.compare_div_mod (m % 256 ^ (k + 1)) (n % 256 ^ (k + 1)) (256 ^ k)
    rw [hhigh, hhigh, hlow, hlow] at hsplit
    have := ih.cons (UInt8.ofNat (m / 256 ^ k % 256)) (UInt8.ofNat (n / 256 ^ k % 256))
    rwa [UInt8.compare_eq_toNat_compare_toNat, hbyte, hbyte, hsplit] at this

lemma beBytes_tellsApart_of_lt {k m n : ℕ} (hm : m < 256 ^ k) (hn : n < 256 ^ k) :
    TellsApart (beBytes k m) (beBytes k n) (compare m n) := by
  have := beBytes_tellsApart k m n
  rwa [Nat.mod_eq_of_lt hm, Nat.mod_eq_of_lt hn] at this

/-- Each zero byte followed by `0xFF`. -/
def escapeBytes (bs : List UInt8) : List UInt8 :=
  bs.flatMap fun b => if b = 0 then [0, 0xFF] else [b]

lemma escapeBytes_cons_append (b : UInt8) (bs l : List UInt8) : escapeBytes (b :: bs) ++ l
      = if b = 0 then 0 :: 0xFF :: (escapeBytes bs ++ l) else b :: (escapeBytes bs ++ l) := by
  split_ifs with hb <;> simp [escapeBytes, hb]

/-- **Escaped bytes closed by two zeros are told apart lexicographically.** -/
lemma escapeBytes_tellsApart (as bs : List UInt8) :
    TellsApart (escapeBytes as ++ [0, 0]) (escapeBytes bs ++ [0, 0])
      (List.compareLex compare as bs) := by
  have hzero : ∀ b : UInt8, b ≠ 0 → compare 0 b = .lt := by
    intro b hb
    rw [UInt8.compare_eq_toNat_compare_toNat, Nat.compare_eq_lt]
    exact Nat.pos_of_ne_zero fun h => hb (UInt8.toNat_inj.mp h)
  have hnil : ∀ (b : UInt8) (bs : List UInt8),
      TellsApart [0, 0] (escapeBytes (b :: bs) ++ [0, 0]) .lt := by
    intro b bs
    rw [escapeBytes_cons_append]
    split_ifs with hb
    · exact (TellsApart.cons_lt (by decide) _ _).cons_self 0
    · exact .cons_lt (hzero b hb) _ _
  induction as generalizing bs with
  | nil =>
    cases bs with
    | nil => exact (TellsApart.nil.cons_self 0).cons_self 0
    | cons b bs => exact hnil b bs
  | cons a as ih =>
    cases bs with
    | nil => exact (hnil a as).swap
    | cons b bs =>
      rw [escapeBytes_cons_append, escapeBytes_cons_append, List.compareLex_cons_cons]
      split_ifs with ha hb hb
      · rw [ha, hb]
        exact ((ih bs).cons_self 0xFF).cons_self 0
      · rw [ha, hzero b hb]
        exact .cons_lt (hzero b hb) _ _
      · rw [hb, swap_of_transCmp compare 0 a, hzero a ha]
        exact (TellsApart.cons_lt (hzero a ha) _ _).swap
      · exact (ih bs).cons a b
