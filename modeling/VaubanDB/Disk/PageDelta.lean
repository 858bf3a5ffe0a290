import Mathlib.Data.List.GetD
import VaubanDB.Disk.Page
import VaubanDB.Library.LittleEndian

/-!
What a page write logs of a page (`PageSet::install` in `vauban-storage/src/disk/wal.rs`) and what
the recovery makes of it (`PageWrite::redo`).

A page is its 8192 bytes here, header included.  The record of a change carries the ranges where
the page differs, or, when the page was free, all its bytes that are not zero; its redo copies
them into whatever page it finds.
-/

namespace VaubanDB

abbrev PageBytes := Fin pageSize → UInt8

def PageBytes.byteAt (p : PageBytes) (i : ℕ) : UInt8 := if h : i < pageSize then p ⟨i, h⟩ else 0

/-- The bytes of the header no write carries: the number of the record and the checksum. -/
def unloggedHeader (i : ℕ) : Bool := 16 ≤ i && i < 28

/-- Two ranges closer than this are carried as one. -/
def mergeGap : ℕ := 4

/-- The offset of the kind in the header. -/
def offKind : Fin pageSize := ⟨5, by decide⟩

def PageBytes.slice (p : PageBytes) (start stop : ℕ) : List UInt8 :=
  (List.range' start (stop - start)).map p.byteAt

/-- The change of one page, as the journal carries it. -/
structure PageDelta where
  page : PageId
  kind : UInt8
  whole : Bool
  ranges : List (UInt16 × List UInt8)

/-- `copy_from_slice` into the page; `none` when the range leaves it. -/
def PageBytes.copy (p : PageBytes) (start : ℕ) (bytes : List UInt8) : Option PageBytes :=
  if start + bytes.length ≤ pageSize then
    some fun i => if start ≤ i then bytes.getD (i - start) (p i) else p i
  else none

def applyRanges (p : PageBytes) : List (UInt16 × List UInt8) → Option PageBytes
  | [] => some p
  | (start, bytes) :: ranges => do applyRanges (← p.copy start.toNat bytes) ranges

def applyDelta (p : PageBytes) (delta : PageDelta) : Option PageBytes :=
  applyRanges (if delta.whole then fun i => if unloggedHeader i then p i else 0 else p) delta.ranges

section Changes

variable (before after : PageBytes)

def differs (i : ℕ) : Bool := !unloggedHeader i && before.byteAt i != after.byteAt i

/-- The probe from the last change on: up to the gap, the unlogged bytes or the end of the page. -/
def changeEnd (stop probe : ℕ) : ℕ :=
  if probe < pageSize ∧ probe - stop < mergeGap ∧ ¬ unloggedHeader probe then
    changeEnd (if differs before after probe then probe + 1 else stop) (probe + 1)
  else stop
termination_by pageSize - probe

lemma changeEnd_spec (start : ℕ) {stop probe : ℕ} (h : stop ≤ probe) (hstop : stop ≤ pageSize)
    (hlogged : ∀ i, start ≤ i → i < probe → ¬ unloggedHeader i) :
    stop ≤ changeEnd before after stop probe ∧ changeEnd before after stop probe ≤ pageSize ∧
      ∀ i, start ≤ i → i < changeEnd before after stop probe → ¬ unloggedHeader i := by
  fun_induction changeEnd before after stop probe with
  | case1 stop probe hprobe ih =>
    have hnext : ∀ i, start ≤ i → i < probe + 1 → ¬ unloggedHeader i := by
      intro i hi hlt
      rcases Nat.lt_succ_iff_lt_or_eq.mp hlt with hlt | rfl
      · exact hlogged i hi hlt
      · exact hprobe.2.2
    obtain ⟨hle, hrest⟩ := ih (by split_ifs <;> omega) (by split_ifs <;> omega) hnext
    exact ⟨le_trans (by split_ifs <;> omega) hle, hrest⟩
  | case2 stop probe => exact ⟨le_rfl, hstop, fun i hi hlt => hlogged i hi (hlt.trans_le h)⟩

lemma lt_changeEnd {start : ℕ} (h : start < pageSize) :
    start < changeEnd before after (start + 1) (start + 1) :=
  (changeEnd_spec before after (start + 1) le_rfl h fun i hi hlt => by omega).1

def changedRangesFrom (start : ℕ) : List (UInt16 × List UInt8) :=
  if h : start < pageSize then
    if differs before after start then
      let stop := changeEnd before after (start + 1) (start + 1)
      (.ofNat start, after.slice start stop) :: changedRangesFrom stop
    else changedRangesFrom (start + 1)
  else []
termination_by pageSize - start
decreasing_by
  · have := lt_changeEnd before after h
    omega
  · omega

def changedRanges : List (UInt16 × List UInt8) := changedRangesFrom before after 0

/-- All a page holds: the redo zeroes the page first. -/
def wholeRanges : List (UInt16 × List UInt8) := changedRanges (fun _ => 0) after

/-- The entry of one page in the record of its set, `none` when it did not change. -/
def pageDelta (id : PageId) : Option PageDelta :=
  let whole := before offKind == 0 && after offKind != 0
  let ranges := if whole then wholeRanges after else changedRanges before after
  if ranges.isEmpty then none else some ⟨id, after offKind, whole, ranges⟩

/-! ### The redo -/

def PageBytes.redone (p after : PageBytes) (start : ℕ) : PageBytes :=
  fun i => if start ≤ i ∧ ¬ unloggedHeader i then after i else p i

variable {before after} {p : PageBytes} {start : ℕ}

lemma byteAt_fin (i : Fin pageSize) : p.byteAt i = p i := dif_pos i.isLt

lemma copy_slice {stop : ℕ} (h : start ≤ stop) (hstop : stop ≤ pageSize) :
    p.copy start (after.slice start stop) =
      some fun i : Fin pageSize => if start ≤ i ∧ i < stop then after i else p i := by
  have hlength : (after.slice start stop).length = stop - start := by simp [PageBytes.slice]
  rw [PageBytes.copy, if_pos (by omega)]
  refine congrArg some (funext fun i => ?_)
  by_cases hstart : start ≤ i
  · rw [if_pos hstart]
    by_cases hi : (i : ℕ) < stop
    · rw [if_pos ⟨hstart, hi⟩, List.getD_eq_getElem _ _ (by omega)]
      simp [PageBytes.slice, Nat.add_sub_cancel' hstart, byteAt_fin]
    · rw [if_neg (by omega), List.getD_eq_default _ _ (by omega)]
  · rw [if_neg hstart, if_neg (by omega)]

/-- One copy after the other: on a page that agrees with `before` from `start` on, the ranges
write what is left of `after`. -/
lemma applyRanges_changedRangesFrom
    (h : ∀ i : Fin pageSize, start ≤ i → ¬ unloggedHeader i → p i = before i) :
    applyRanges p (changedRangesFrom before after start) = some (p.redone after start) := by
  fun_induction changedRangesFrom before after start generalizing p with
  | case1 start hstart hdiffers stop =>
    rename_i ih
    have hlogged : ¬ unloggedHeader start := by simp_all [differs]
    obtain ⟨hlt, hstop, hrange⟩ := changeEnd_spec before after start (le_refl (start + 1)) hstart
      fun i hi hlt => by rwa [show i = start by omega]
    have hsmall : (UInt16.ofNat start).toNat = start :=
      UInt16.toNat_ofNat_of_lt' (hstart.trans (by decide))
    rw [applyRanges, hsmall, copy_slice (by omega) hstop, Option.bind_eq_bind, Option.bind_some, ih]
    · refine congrArg some (funext fun i => ?_)
      unfold PageBytes.redone
      by_cases hi : stop ≤ i ∧ ¬ unloggedHeader i
      · rw [if_pos hi, if_pos ⟨by omega, hi.2⟩]
      · rw [if_neg hi]
        refine if_congr ⟨fun hin => ⟨hin.1, hrange i hin.1 hin.2⟩, fun hin => ⟨hin.1, ?_⟩⟩ rfl rfl
        exact not_le.mp fun hle => hi ⟨hle, hin.2⟩
    · intro i hi hi'
      rw [if_neg (by omega), h i (by omega) hi']
  | case2 start hstart hdiffers ih =>
    rw [ih fun i hi => h i (by omega)]
    refine congrArg some (funext fun i => ?_)
    unfold PageBytes.redone
    by_cases hi : (i : ℕ) = start
    · rw [if_neg (by omega)]
      split_ifs with hlogged
      · have hsame : before.byteAt start = after.byteAt start := by simp_all [differs]
        rw [h i hi.ge hlogged.2, ← byteAt_fin (p := before), ← byteAt_fin (p := after), hi, hsame]
      · rfl
    · exact if_congr (and_congr_left' ⟨fun hle => by omega, fun hle => by omega⟩) rfl rfl
  | case3 start hstart => exact congrArg some (funext fun i => (if_neg (by omega)).symm)

end Changes

/-- **A delta reproduces its page**: no entry is built only where the two pages agree; an entry
gives `after` from `before`, and from any page when it carries the whole of it, the unlogged bytes
of the header apart. -/
theorem deltas_reproduce_the_page (id : PageId) (before after : PageBytes) :
    (pageDelta before after id = none → before.redone after 0 = before) ∧
    ∀ delta, pageDelta before after id = some delta → ∀ p, p = before ∨ delta.whole →
      applyDelta p delta = some (p.redone after 0) := by
  have hchanges : ∀ p, applyRanges p (changedRanges p after) = some (p.redone after 0) :=
    fun p => applyRanges_changedRangesFrom fun _ _ _ => rfl
  have hwhole : ∀ p : PageBytes, applyRanges (fun i => if unloggedHeader i then p i else 0)
      (wholeRanges after) = some (p.redone after 0) := by
    intro p
    refine (applyRanges_changedRangesFrom fun i _ hi => if_neg hi).trans ?_
    refine congrArg some (funext fun i => ?_)
    unfold PageBytes.redone
    split_ifs <;> simp_all
  simp only [pageDelta, Option.ite_none_left_eq_some, Option.some.injEq, ite_eq_left_iff,
    reduceCtorEq, imp_false, not_not]
  constructor
  · intro hempty
    split_ifs at hempty with h
    · -- a page logged whole has a kind, so its ranges are not empty
      have hkind := hwhole before
      rw [List.isEmpty_iff.mp hempty, applyRanges, Option.some.injEq] at hkind
      have hzero : 0 = after offKind := congrFun hkind offKind
      simp [← hzero] at h
    · have hsame := hchanges before
      rw [List.isEmpty_iff.mp hempty, applyRanges, Option.some.injEq] at hsame
      exact hsame.symm
  · rintro _ ⟨-, rfl⟩ p hp
    unfold applyDelta
    dsimp only at hp ⊢
    split_ifs with h
    · exact hwhole p
    · obtain rfl := hp.resolve_right h
      exact hchanges p

/-- Any page becomes the page the record of a free page carries. -/
theorem filled_page_is_rebuilt : ∃ delta, pageDelta (fun _ => 0) (fun _ => 1) 7 = some delta ∧
    applyDelta (fun _ => 2) delta = some (PageBytes.redone (fun _ => 2) (fun _ => 1) 0) := by
  obtain ⟨hnone, hsome⟩ := deltas_reproduce_the_page 7 (fun _ => 0) (fun _ => 1)
  cases h : pageDelta (fun _ => 0) (fun _ => 1) 7 with
  | none => exact absurd (congrFun (hnone h) offKind) (by decide)
  | some delta =>
    refine ⟨delta, rfl, hsome delta h (fun _ => 2) (.inr ?_)⟩
    simp only [pageDelta, Option.ite_none_left_eq_some, Option.some.injEq] at h
    rw [← h.2]
    rfl

/-! ### The redo of a journal -/

/-- `Page::empty` of a free page. -/
def PageBytes.empty (id : PageId) : PageBytes := fun i =>
  ([0x56, 0x44, 0x42, 0x50, 1, 0, 0, 0] ++ leBytes 8 id ++ List.replicate 14 0 ++
    leBytes 2 headerSize).getD i 0

/-- The redo of a record on a page with its `page_lsn`, `none` when it does not read back.  A page
at or past the record is left; one that does not read back is written from a whole delta. -/
def redoPage (stored : Option (PageBytes × Lsn)) :
    Lsn × PageDelta → Option (Option (PageBytes × Lsn))
  | (lsn, delta) =>
    if lsn ≤ stored.elim 0 Prod.snd then some stored
    else if stored.isNone && !delta.whole then none
    else (applyDelta (stored.elim (.empty delta.page) Prod.fst) delta).map fun page =>
      some (page, lsn)

/-- The records of the writes that lead a page from one content and number to another. -/
inductive Journal (id : PageId) : PageBytes × Lsn → List (Lsn × PageDelta) → PageBytes × Lsn → Prop
  | nil {page} : Journal id page [] page
  | write {before after : PageBytes} {n lsn : Lsn} {delta records last}
      (hdelta : pageDelta before after id = some delta) (hlsn : n < lsn)
      (hrest : Journal id (after, lsn) records last) :
      Journal id (before, n) ((lsn, delta) :: records) last

variable {id : PageId} {first last : PageBytes × Lsn} {old new : List (Lsn × PageDelta)}
  {p : PageBytes}

lemma redone_redone (p a b : PageBytes) : (p.redone a 0).redone b 0 = p.redone b 0 := by
  funext i
  unfold PageBytes.redone
  split_ifs <;> rfl

lemma applyDelta_pageDelta {before after : PageBytes} {delta : PageDelta}
    (h : pageDelta before after id = some delta) (hp : p.redone before 0 = p ∨ delta.whole) :
    applyDelta p delta = some (p.redone after 0) := by
  simp only [pageDelta, Option.ite_none_left_eq_some, Option.some.injEq] at h
  obtain ⟨-, rfl⟩ := h
  unfold applyDelta
  dsimp only at hp ⊢
  split_ifs with hwhole
  · refine (applyRanges_changedRangesFrom fun i _ hi => if_neg hi).trans ?_
    refine congrArg some (funext fun i => ?_)
    unfold PageBytes.redone
    split_ifs <;> simp_all
  · refine applyRanges_changedRangesFrom fun i _ hi => ?_
    rw [← hp.resolve_right hwhole]
    exact if_pos ⟨Nat.zero_le _, hi⟩

lemma Journal.le (h : Journal id first new last) :
    first.2 ≤ last.2 ∧ ∀ r ∈ new, r.1 ≤ last.2 := by
  induction h with
  | nil => simp
  | write _ hlsn _ ih => exact ⟨hlsn.le.trans ih.1, List.forall_mem_cons.mpr ih⟩

lemma redo_skips {n : Lsn} (h : ∀ r ∈ old, r.1 ≤ n) :
    old.foldlM redoPage (some (p, n)) = some (some (p, n)) := by
  induction old with
  | nil => rfl
  | cons r old ih =>
    obtain ⟨hr, hold⟩ := List.forall_mem_cons.mp h
    rw [List.foldlM_cons, redoPage, Option.elim_some, if_pos hr]
    exact ih hold

/-- Each record finds the page its write has found, the unlogged bytes apart. -/
lemma Journal.redo (h : Journal id first new last) (hp : p.redone first.1 0 = p) :
    new.foldlM redoPage (some (p, first.2)) = some (some (p.redone last.1 0, last.2)) := by
  induction h generalizing p with
  | nil => exact congrArg (fun q => some (some (q, _))) hp.symm
  | write hdelta hlsn _ ih =>
    rw [List.foldlM_cons, redoPage, Option.elim_some, if_neg hlsn.not_ge, Option.isNone_some,
      Bool.false_and, if_neg Bool.false_ne_true, Option.elim_some,
      applyDelta_pageDelta hdelta (.inl hp)]
    exact (ih (redone_redone ..)).trans (by rw [redone_redone])

/-- **The redo of a journal brings a page to its last content**, whichever of its contents the file
holds, and a second redo, after a crash, changes nothing.  A page that does not read back is rebuilt
by a journal that begins with the whole of it. -/
theorem redo_reaches_the_last_page (hold : ∀ r ∈ old, r.1 ≤ first.2)
    (hnew : Journal id first new last) (hp : p.redone first.1 0 = p) :
    (old ++ new).foldlM redoPage (some (p, first.2)) = some (some (p.redone last.1 0, last.2)) ∧
    (old ++ new).foldlM redoPage (some (p.redone last.1 0, last.2))
      = some (some (p.redone last.1 0, last.2)) ∧
    ∀ r ∈ new.head?, r.2.whole → new.foldlM redoPage none
      = some (some ((PageBytes.empty id).redone last.1 0, last.2)) := by
  refine ⟨?_, redo_skips (List.forall_mem_append.mpr
    ⟨fun r hr => (hold r hr).trans hnew.le.1, hnew.le.2⟩), ?_⟩
  · rw [List.foldlM_append, redo_skips hold]
    exact hnew.redo hp
  · intro r hr hwhole
    cases hnew with
    | nil => cases hr
    | write hdelta hlsn hrest =>
      cases hr
      have hid := hdelta
      simp only [pageDelta, Option.ite_none_left_eq_some, Option.some.injEq] at hid
      rw [List.foldlM_cons, redoPage, Option.elim_none, if_neg (Nat.zero_lt_of_lt hlsn).not_ge,
        Option.isNone_none, Bool.true_and, if_neg (by simpa using hwhole), Option.elim_none,
        applyDelta_pageDelta hdelta (.inr hwhole), ← hid.2]
      exact (hrest.redo (redone_redone ..)).trans (by rw [redone_redone])

lemma changedRanges_ne_nil {a b : UInt8} (h : a ≠ b) :
    changedRanges (fun _ => a) (fun _ => b) ≠ [] := by
  have hdiffers : differs (fun _ => a) (fun _ => b) 0 = true := by
    simp [differs, unloggedHeader, PageBytes.byteAt, pageSize, h]
  rw [changedRanges, changedRangesFrom, dif_pos (by decide), if_pos hdiffers]
  exact List.cons_ne_nil _ _

lemma exists_pageDelta {a b : UInt8} (h : a ≠ b) :
    ∃ delta, pageDelta (fun _ => a) (fun _ => b) 7 = some delta := by
  have hranges : (if a == 0 && b != 0 then wholeRanges fun _ => b
      else changedRanges (fun _ => a) fun _ => b) ≠ [] := by
    split_ifs with hwhole
    · exact changedRanges_ne_nil (Ne.symm (by simpa using (Bool.and_eq_true_iff.mp hwhole).2))
    · exact changedRanges_ne_nil h
  exact ⟨_, if_neg (mt List.isEmpty_iff.mp hranges)⟩

/-- The file holds the page with number 2; the record up to there is skipped, and two later writes
are redone. -/
theorem later_writes_are_redone : ∃ d₁ d₂ d₃, pageDelta (fun _ => 0) (fun _ => 1) 7 = some d₁ ∧
    pageDelta (fun _ => 1) (fun _ => 2) 7 = some d₂ ∧
    pageDelta (fun _ => 2) (fun _ => 3) 7 = some d₃ ∧
    [(2, d₁), (4, d₂), (5, d₃)].foldlM redoPage (some (fun _ => 1, 2))
      = some (some (PageBytes.redone (fun _ => 1) (fun _ => 3) 0, 5)) := by
  obtain ⟨d₁, h₁⟩ := exists_pageDelta (a := 0) (b := 1) (by decide)
  obtain ⟨d₂, h₂⟩ := exists_pageDelta (a := 1) (b := 2) (by decide)
  obtain ⟨d₃, h₃⟩ := exists_pageDelta (a := 2) (b := 3) (by decide)
  have hold : ∀ r ∈ [((2 : Lsn), d₁)], r.1 ≤ 2 := by simp
  exact ⟨d₁, d₂, d₃, h₁, h₂, h₃, (redo_reaches_the_last_page hold
    (.write h₂ (by decide) (.write h₃ (by decide) .nil)) (funext fun i => ite_self _)).1⟩

end VaubanDB
