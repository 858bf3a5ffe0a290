import VaubanDB.Disk.BTreeSeek

/-!
The calls that write a B+tree, seen from their caller.

`Tree.Holds` says that a tree is well formed and what its contents are: `insert_spec`, `delete_spec`
and `replace_spec` say what a call makes of them.  A call that fails leaves them as they were.
-/

namespace VaubanDB

open List

namespace BTree

open EStateM

section Delete

variable {order : KeyOrder} {keys : Set (List Value)} {limit : ℕ} {leaves A B : List Leaf}
  {levels : List (List Inner)} {t : Tree} {e f : TreeEntry} {es fs : List TreeEntry} {l : Leaf}

def same (order : KeyOrder) (e f : TreeEntry) : Bool :=
  compareEntry order f (probeAt e) matches .ok .eq

lemma same_eq_true : same order e f = true ↔ compareEntry order f (probeAt e) = .ok .eq := by
  rw [same]
  split <;> simp_all

variable (hlimit : limit ≤ maxInsertBytes)
include hlimit

lemma deleteAt_same {page : TreePage} {prev next : Option PageId} {probe : Probe}
    (h : HoldsLeaf page prev next (es ++ f :: fs))
    (hf : Good order keys limit f) (heq : compareEntry order f probe = .ok .eq) :
    ∃ page', Tree.deleteAt order probe es.length page = .ok (true, page') ∧
      HoldsLeaf page' prev next (es ++ fs) := by
  have hentry : page.entries[es.length]? = some (encodeEntryKey f, []) := by simp [h.entries]
  have hindex : es.length < page.slots.length := by
    rw [h.length]
    simp
  obtain ⟨page', hremove, _, hheader, hentries, hlaid⟩ := removeSlot_spec h.laid hindex
  refine ⟨page', ?_, hheader.trans h.header, ?_, hlaid⟩
  · simp [Tree.deleteAt, h.laid.entryAt hentry, hf.decode hlimit, heq, hremove, bind, Except.bind]
  · rw [hentries, h.entries, map_append, map_cons, eraseIdx_append_of_length_le (by simp)]
    simp

lemma deleteAt_other {page : TreePage} {prev next : Option PageId} {probe : Probe} {o : Ordering}
    (h : HoldsLeaf page prev next (es ++ f :: fs))
    (hf : Good order keys limit f) (ho : compareEntry order f probe = .ok o) (hne : o ≠ .eq) :
    Tree.deleteAt order probe es.length page = .ok (false, page) := by
  have hentry : page.entries[es.length]? = some (encodeEntryKey f, []) := by simp [h.entries]
  simp [Tree.deleteAt, h.laid.entryAt hentry, hf.decode hlimit, ho, hne, bind, Except.bind]

structure Deleted (t : Tree) (keys : Set (List Value)) (limit : ℕ) (leaves : List Leaf)
    (levels : List (List Inner)) (e : TreeEntry) (removed : Bool) (ps : PageSet)
    (leaves' : List Leaf) : Prop where
  wellFormed : WellFormed t.order keys limit ps t.root leaves' levels
  pages : ps.pages = t.pages
  ids : leaves'.map Leaf.id = leaves.map Leaf.id
  entries : if removed then
      ∃ C₁ f C₂, contents leaves = C₁ ++ f :: C₂ ∧ contents leaves' = C₁ ++ C₂ ∧ same t.order e f
    else contents leaves' = contents leaves ∧ ∀ f ∈ contents leaves, ¬ same t.order e f

/-- A delete takes away the entry the order cannot tell from the one it is given. -/
theorem deleteIn_spec (h : t.WellFormed keys limit leaves levels)
    (hwidth : e.1.length = t.order.arity) (hp : (probeAt e).Good t.order keys) :
    Ends (.new t.pages) (t.deleteIn e)
      (fun removed ps => ∃ leaves', Deleted t keys limit leaves levels e removed ps leaves')
      fun _ => False := by
  have hcheck : t.order.checkKey e.1 = .ok () := by simp [KeyOrder.checkKey, hwidth]
  have hsorted := h.leavesOk.sorted_contents
  obtain ⟨cursor, hfind, hfirst⟩ := findFirst_spec hlimit hp h
  rw [Tree.deleteIn, hcheck, ends_lift_ok_bind, hfind, ends_lift_ok_bind]
  cases cursor with
  | none =>
    rw [ends_pure]
    refine ⟨leaves, h, rfl, rfl, rfl, fun f hf => ?_⟩
    rw [same_eq_true, hfirst f hf]
    simp
  | some cursor =>
    obtain ⟨B, l, A, es, f, fs, rfl, hl, rfl, hbefore, o, ho, hne⟩ := hfirst
    have hlm : l ∈ B ++ l :: A := by simp
    have hf := h.leavesOk.good l hlm f (by simp [hl])
    have hholds := (linked_cut.mp h.linked).2.1
    have hcut : contents (B ++ l :: A) = (contents B ++ es) ++ f :: (fs ++ contents A) := by
      simp [contents_cut, hl]
    rw [hl] at hholds
    have hkind : ((PageSet.new t.pages).view l.id).expectKind .btreeLeaf = .ok () :=
      hholds.expectKind
    by_cases heq : o = .eq
    · subst heq
      obtain ⟨page, hdelete, hpage⟩ := deleteAt_same hlimit hholds hf ho
      refine Ends.of_ok (writePage_onKind hkind hdelete)
        ⟨_, h.put (h.leavesOk.remove hl) rfl ?_ ?_, rfl, by simp, ?_⟩
      · rwa [PageSet.view_put_self]
      · exact fun id hid => PageSet.view_put_of_ne _ _ hid
      · exact ⟨contents B ++ es, f, fs ++ contents A, hcut, by simp [contents_cut],
          same_eq_true.mpr ho⟩
    · have hdelete := deleteAt_other hlimit hholds hf ho heq
      refine Ends.of_ok (writePage_onKind hkind hdelete)
        ⟨B ++ l :: A, h.put h.leavesOk rfl ?_ ?_, rfl, rfl, ?_⟩
      · rw [PageSet.view_put_self, hl]
        exact hholds
      · exact fun id hid => PageSet.view_put_of_ne _ _ hid
      · refine ⟨rfl, fun g hg => ?_⟩
        rw [same_eq_true]
        rw [hcut] at hg hsorted
        rcases mem_append.mp hg with hg | hg
        · rw [hbefore g hg]
          simp
        · rcases mem_cons.mp hg with rfl | hg
          · rw [ho]
            simpa using heq
          · have hfg := (pairwise_cons.mp (pairwise_append.mp hsorted).2.1).1 g hg
            rw [hfg.side_right hp.fits ho hne]
            simp

end Delete

/-! ### The calls -/

/-- The tree is well formed and these are its entries, in order. -/
def Tree.Holds (t : Tree) (keys : Set (List Value)) (limit : ℕ) (C : List TreeEntry) : Prop :=
  ∃ leaves levels, t.WellFormed keys limit leaves levels ∧ contents leaves = C

section Calls

variable {keys : Set (List Value)} {limit : ℕ} {t : Tree} {e : TreeEntry} {C : List TreeEntry}
  {ps : PageSet} {levels : List (List Inner)} {leaves : List Leaf}

lemma WellFormed.moved (t : Tree) (root : Option PageId)
    (h : WellFormed t.order keys limit ps (root.getD t.root) leaves levels) :
    (t.moved ps root).WellFormed keys limit leaves levels :=
  ⟨h.linked, h.leavesOk, h.stacked, h.levelsOk, h.nodup,
    ⟨h.alloc.freeNodup, h.alloc.free, h.alloc.used, h.alloc.next⟩⟩

lemma Tree.Holds.dropped (h : t.Holds keys limit C) (hgrown : Grown t.pages ps.pages) :
    (t.dropped ps).Holds keys limit C := by
  obtain ⟨leaves, levels, h, hC⟩ := h
  have hview : (PageSet.new ps.pages).view = (PageSet.new t.pages).view := hgrown.page
  refine ⟨leaves, levels, ⟨?_, h.leavesOk, h.stacked, ?_, h.nodup, hgrown.allocOk h.alloc⟩, hC⟩
  · exact hview ▸ h.linked
  · exact hview ▸ h.levelsOk

@[simp] lemma insert_order (t : Tree) (e : TreeEntry) : (t.insert e).2.order = t.order := by
  rw [Tree.insert]
  split <;> rfl

@[simp] lemma delete_order (t : Tree) (e : TreeEntry) : (t.delete e).2.order = t.order := by
  rw [Tree.delete]
  split <;> rfl

@[simp] lemma replace_order (t : Tree) (key : List Value) (old new : List UInt8) :
    (t.replace key old new).2.order = t.order := by
  rw [Tree.replace]
  split <;> rfl

lemma insertIn_refused (ps : PageSet)
    (h : e.1.length ≠ t.order.arity ∨ maxInsertBytes < (encodeEntryKey e).length) :
    ∃ err, t.insertIn e ps = .error err ps := by
  by_cases hwidth : e.1.length = t.order.arity
  · have hsize := h.resolve_left (not_not.mpr hwidth)
    have hcheck : t.order.checkKey e.1 = .ok () := by simp [KeyOrder.checkKey, hwidth]
    rw [Tree.insertIn, hcheck]
    simp only [gt_iff_lt, hsize, if_true]
    exact ⟨_, rfl⟩
  · rw [Tree.insertIn]
    simp only [KeyOrder.checkKey, ne_eq, hwidth, not_false_eq_true, if_true]
    exact ⟨_, rfl⟩

def InsertOutcome (t : Tree) (keys : Set (List Value)) (limit : ℕ) (C : List TreeEntry)
    (e : TreeEntry) : Except InternalError Unit × Tree → Prop
  | (.ok _, t') => ∃ C₁ C₂, C = C₁ ++ C₂ ∧ t'.Holds keys limit (C₁ ++ e :: C₂)
  | (.error _, t') => t'.Holds keys limit C ∧ (Good t.order keys limit e →
      available t.pages ≤ maxDepth ∨ safeInsertBytes < limit)

variable (hkeys : Comparable t.order keys)
include hkeys

theorem insert_spec (hlimit : limit ≤ maxInsertBytes) (h : t.Holds keys limit C) (hkey : e.1 ∈ keys)
    (hsize : (encodeEntryKey e).length ≤ limit ∨ maxInsertBytes < (encodeEntryKey e).length)
    (hnew : ∀ f ∈ C, ¬ same t.order e f) : InsertOutcome t keys limit C e (t.insert e) := by
  by_cases hgood : Good t.order keys limit e
  · obtain ⟨leaves, levels, hwf, rfl⟩ := h
    have hends := insertIn_spec hkeys hlimit hwf hwf.descends hgood fun f hf heq =>
      hnew f hf (same_eq_true.mpr heq)
    rw [Tree.insert]
    unfold Ends at hends
    split at hends
    · rename_i root ps' heq
      rw [heq]
      obtain ⟨⟨leaves', levels', C₁, C₂, hwf', hC, hC'⟩, _⟩ := hends
      exact ⟨C₁, C₂, hC, leaves', levels', hwf'.moved _ _, hC'⟩
    · rename_i err ps' heq
      rw [heq]
      exact ⟨Tree.Holds.dropped ⟨leaves, levels, hwf, rfl⟩ hends.1, fun _ => hends.2⟩
  · have hrefused : e.1.length ≠ t.order.arity ∨ maxInsertBytes < (encodeEntryKey e).length := by
      rw [or_iff_not_imp_left, not_not]
      intro hwidth
      exact hsize.resolve_left fun hle => hgood ⟨hkey, hwidth, hle⟩
    obtain ⟨err, herr⟩ := insertIn_refused (.new t.pages) hrefused
    rw [Tree.insert, herr]
    exact ⟨h.dropped (.refl _), fun hg => absurd hg hgood⟩

def DeleteOutcome (t : Tree) (keys : Set (List Value)) (limit : ℕ) (C : List TreeEntry)
    (e : TreeEntry) : Except InternalError Bool × Tree → Prop
  | (.ok true, t') => ∃ C₁ f C₂, C = C₁ ++ f :: C₂ ∧ same t.order e f = true ∧
      (∀ g ∈ C₁ ++ C₂, ¬ same t.order e g) ∧ t'.Holds keys limit (C₁ ++ C₂)
  | (.ok false, t') => (∀ f ∈ C, ¬ same t.order e f) ∧ t'.Holds keys limit C
  | (.error _, t') => e.1.length ≠ t.order.arity ∧ t'.Holds keys limit C

omit hkeys in
lemma deleteIn_refused (ps : PageSet) (h : e.1.length ≠ t.order.arity) :
    ∃ err, t.deleteIn e ps = .error err ps := by
  rw [Tree.deleteIn]
  simp only [KeyOrder.checkKey, ne_eq, h, not_false_eq_true, if_true]
  exact ⟨_, rfl⟩

lemma probeAt_good (hkey : e.1 ∈ keys)
    (hwidth : e.1.length = t.order.arity) : (probeAt e).Good t.order keys :=
  ⟨⟨hwidth.le, fun _ _ => hwidth⟩, fun a ha => hkeys a ha e.1 hkey⟩

omit hkeys in
lemma not_same_of_sorted {C₁ C₂ : List TreeEntry} {f g : TreeEntry} (hp : (probeAt e).Fits t.order)
    (hsorted : (C₁ ++ f :: C₂).Pairwise (EntryLt t.order)) (hf : same t.order e f = true)
    (hg : g ∈ C₁ ++ C₂) : ¬ same t.order e g := by
  rw [same_eq_true] at hf ⊢
  obtain ⟨_, hC₂, hcross⟩ := pairwise_append.mp hsorted
  rcases mem_append.mp hg with hg | hg
  · rw [(hcross g hg f (by simp)).side_left hp hf (by decide)]
    simp
  · rw [((pairwise_cons.mp hC₂).1 g hg).side_right hp hf (by decide)]
    simp

theorem delete_spec (hlimit : limit ≤ maxInsertBytes)
    (h : t.Holds keys limit C) (hkey : e.1 ∈ keys) :
    DeleteOutcome t keys limit C e (t.delete e) := by
  by_cases hwidth : e.1.length = t.order.arity
  · obtain ⟨leaves, levels, hwf, rfl⟩ := h
    have hp := probeAt_good hkeys hkey hwidth
    have hends := deleteIn_spec hlimit hwf hwidth hp
    rw [Tree.delete]
    unfold Ends at hends
    split at hends
    · rename_i removed ps' heq
      rw [heq]
      obtain ⟨leaves', hdeleted⟩ := hends
      have hholds : (t.moved ps' none).Holds keys limit (contents leaves') :=
        ⟨leaves', levels, hdeleted.wellFormed.moved t none, rfl⟩
      cases removed with
      | true =>
        obtain ⟨C₁, f, C₂, hC, hC', hsame⟩ := hdeleted.entries
        refine ⟨C₁, f, C₂, hC, hsame, fun g hg => ?_, hC' ▸ hholds⟩
        exact not_same_of_sorted hp.fits (hC ▸ hwf.leavesOk.sorted_contents) hsame hg
      | false =>
        obtain ⟨hC', hnone⟩ := hdeleted.entries
        exact ⟨hnone, hC' ▸ hholds⟩
    · exact hends.elim
  · obtain ⟨err, herr⟩ := deleteIn_refused (.new t.pages) hwidth
    rw [Tree.delete, herr]
    exact ⟨hwidth, h.dropped (.refl _)⟩

def ReplaceOutcome (t : Tree) (keys : Set (List Value)) (limit : ℕ) (C : List TreeEntry)
    (key : List Value) (old new : List UInt8) : Except InternalError Bool × Tree → Prop
  | (.ok true, t') => ∃ C₁ f C₂ D₁ D₂, C = C₁ ++ f :: C₂ ∧ same t.order (key, old) f = true ∧
      (∀ g ∈ C₁ ++ C₂, ¬ same t.order (key, old) g) ∧ C₁ ++ C₂ = D₁ ++ D₂ ∧
      t'.Holds keys limit (D₁ ++ (key, new) :: D₂)
  | (.ok false, t') => (∀ f ∈ C, ¬ same t.order (key, old) f) ∧ t'.Holds keys limit C
  | (.error _, t') => t'.Holds keys limit C

lemma Deleted.insertIn {leaves' : List Leaf} {removed : Bool}
    {e' : TreeEntry} (hlimit : limit ≤ maxInsertBytes) (h : t.WellFormed keys limit leaves levels)
    (hd : Deleted t keys limit leaves levels e removed ps leaves') (hkey : e'.1 ∈ keys)
    (hsize : (encodeEntryKey e').length ≤ limit ∨ maxInsertBytes < (encodeEntryKey e').length)
    (hnew : ∀ f ∈ contents leaves', ¬ same t.order e' f) : Ends ps (t.insertIn e')
      (fun root ps' => Inserted t.order keys limit leaves' e' (root.getD t.root) ps')
      fun ps' => Grown t.pages ps'.pages := by
  by_cases hgood : Good t.order keys limit e'
  · have hpool : Descends t leaves' levels := by
      refine ⟨h.descends.levelsOk, fun l hl => ?_⟩
      have hid : l.id ∈ leaves.map Leaf.id := hd.ids ▸ mem_map_of_mem hl
      obtain ⟨m, hm, hml⟩ := mem_map.mp hid
      rw [← hml]
      exact h.descends.kind m hm
    refine (insertIn_spec hkeys hlimit hd.wellFormed hpool hgood fun f hf heq =>
      hnew f hf (same_eq_true.mpr heq)).mono (fun _ _ hend => hend.1) fun _ hend => ?_
    exact hd.pages ▸ hend.1
  · have hrefused : e'.1.length ≠ t.order.arity ∨ maxInsertBytes < (encodeEntryKey e').length := by
      rw [or_iff_not_imp_left, not_not]
      intro hwidth
      exact hsize.resolve_left fun hle => hgood ⟨hkey, hwidth, hle⟩
    obtain ⟨err, herr⟩ := insertIn_refused ps hrefused
    unfold Ends
    rw [herr]
    exact hd.pages ▸ .refl _

section Replace

variable {key : List Value} {old new : List UInt8} {leaves : List Leaf} {levels : List (List Inner)}

def Replaced (t : Tree) (keys : Set (List Value)) (limit : ℕ) (leaves : List Leaf)
    (levels : List (List Inner)) (key : List Value) (old new : List UInt8)
    (out : Option (Option PageId)) (ps : PageSet) : Prop :=
  ∃ removed leaves' ps₁, Deleted t keys limit leaves levels (key, old) removed ps₁ leaves' ∧
    if removed then ∃ root, out = some root ∧
      Inserted t.order keys limit leaves' (key, new) (root.getD t.root) ps
    else out = none ∧ ps = ps₁

lemma replaceIn_spec (hlimit : limit ≤ maxInsertBytes)
    (h : t.WellFormed keys limit leaves levels) (hkey : key ∈ keys)
    (hwidth : key.length = t.order.arity) (hsize : (encodeEntryKey (key, new)).length ≤ limit ∨
      maxInsertBytes < (encodeEntryKey (key, new)).length)
    (hnew : ∀ f ∈ contents leaves, ¬ same t.order (key, old) f → ¬ same t.order (key, new) f) :
    Ends (.new t.pages) (t.replaceIn key old new) (Replaced t keys limit leaves levels key old new)
      fun ps => Grown t.pages ps.pages := by
  have hp := probeAt_good (e := (key, old)) hkeys hkey hwidth
  rw [Tree.replaceIn, ends_bind]
  refine (deleteIn_spec hlimit h hwidth hp).mono ?_ fun _ hend => hend.elim
  rintro removed ps₁ ⟨leaves', hd⟩
  cases removed with
  | false => exact ⟨false, leaves', ps₁, hd, rfl, rfl⟩
  | true =>
    obtain ⟨C₁, f, C₂, hC, hC', hsame⟩ := hd.entries
    have hrest : ∀ g ∈ contents leaves', ¬ same t.order (key, new) g := by
      intro g hg
      rw [hC'] at hg
      refine hnew g ?_ (not_same_of_sorted hp.fits (hC ▸ h.leavesOk.sorted_contents) hsame hg)
      rw [hC]
      simp only [mem_append, mem_cons] at hg ⊢
      tauto
    simp only [if_true]
    rw [ends_bind]
    refine (hd.insertIn hkeys hlimit h hkey hsize hrest).mono ?_ fun _ hend => hend
    intro root ps₂ hins
    exact ⟨true, leaves', ps₁, hd, root, rfl, hins⟩

omit hkeys

theorem replace_spec (old : List UInt8) (hkeys : Comparable t.order keys)
    (hlimit : limit ≤ maxInsertBytes)
    (h : t.Holds keys limit C) (hkey : key ∈ keys)
    (hsize : (encodeEntryKey (key, new)).length ≤ limit ∨
      maxInsertBytes < (encodeEntryKey (key, new)).length)
    (hnew : ∀ f ∈ C, ¬ same t.order (key, old) f → ¬ same t.order (key, new) f) :
    ReplaceOutcome t keys limit C key old new (t.replace key old new) := by
  by_cases hwidth : key.length = t.order.arity
  · obtain ⟨leaves, levels, hwf, rfl⟩ := h
    have hends := replaceIn_spec hkeys hlimit hwf hkey hwidth hsize hnew
    rw [Tree.replace]
    unfold Ends at hends
    split at hends
    · rename_i out ps' heq
      rw [heq]
      obtain ⟨removed, leaves', ps₁, hd, hout⟩ := hends
      cases removed with
      | false =>
        obtain ⟨rfl, rfl⟩ := hout
        obtain ⟨hC', hnone⟩ := hd.entries
        exact ⟨hnone, Tree.Holds.dropped ⟨leaves, levels, hwf, rfl⟩ (hd.pages ▸ .refl _)⟩
      | true =>
        obtain ⟨root, rfl, leaves₂, levels₂, D₁, D₂, hwf₂, hD, hD'⟩ := hout
        obtain ⟨C₁, f, C₂, hC, hC', hsame⟩ := hd.entries
        refine ⟨C₁, f, C₂, D₁, D₂, hC, hsame, fun g hg => ?_, hC' ▸ hD, leaves₂, levels₂,
          hwf₂.moved _ _, hD'⟩
        exact not_same_of_sorted (probeAt_good hkeys hkey hwidth).fits
          (hC ▸ hwf.leavesOk.sorted_contents) hsame hg
    · rename_i err ps' heq
      rw [heq]
      exact Tree.Holds.dropped ⟨leaves, levels, hwf, rfl⟩ hends
  · obtain ⟨err, herr⟩ := deleteIn_refused (e := (key, old)) (.new t.pages) hwidth
    have hreplace : t.replaceIn key old new (.new t.pages) = .error err (.new t.pages) := by
      rw [Tree.replaceIn, bind_of_error herr]
    rw [Tree.replace, hreplace]
    exact h.dropped (.refl _)

end Replace

end Calls

end BTree

end VaubanDB
