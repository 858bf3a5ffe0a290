import VaubanDB.Memory.Index

/-!
The order of the entries of an index.

`EntryLt` is the order by key, row and serial number, along the keys the comparator accepts.  Over a
list of entries that strictly increase (`Index.Sorted`) an entry inserted where `positionFor` says
keeps the order, `removeVersion` finds an entry whose key is comparable with itself, the positions
of a range hold exactly the entries whose key lies in it (`mem_slice_iff`), and the two uniqueness
tests see every pair of equal keys.
-/

namespace VaubanDB

open Except (map_eq_ok_iff map ok bind_eq_ok_iff)
open KeyOrder IndexEntry

/-! ### The order of two entries -/

def IndexEntry.idLt (e f : IndexEntry) : Prop :=
  e.row < f.row ∨ (e.row = f.row ∧ e.version < f.version)

/-- Key, then row, then serial number, over keys of full width. -/
structure EntryLt (order : KeyOrder) (e f : IndexEntry) : Prop where
  widthLeft : e.key.length = order.columns.length
  widthRight : f.key.length = order.columns.length
  lt : order.comparePrefix e.key f.key = .ok .lt ∨
    (order.comparePrefix e.key f.key = .ok .eq ∧ e.idLt f)

namespace EntryLt

variable {order : KeyOrder} {e f g : IndexEntry}

lemma trans (hef : EntryLt order e f) (hfg : EntryLt order f g) : EntryLt order e g := by
  refine ⟨hef.widthLeft, hfg.widthRight, ?_⟩
  have hw₁ := hef.widthLeft.trans hef.widthRight.symm
  have hw₂ := hfg.widthLeft.trans hfg.widthRight.symm
  rcases hef.lt with h₁ | ⟨h₁, hid₁⟩ <;> rcases hfg.lt with h₂ | ⟨h₂, hid₂⟩ <;>
    have h := comparePrefix_trans hw₁ hw₂ h₁ h₂ (by decide) (by decide)
  iterate 3 exact .inl h
  refine .inr ⟨h, ?_⟩
  simp only [idLt] at *
  lia

lemma isTrans (order : KeyOrder) :
    ∀ a b c, EntryLt order a b → EntryLt order b c → EntryLt order a c :=
  fun _ _ _ hab hbc => hab.trans hbc

lemma irrefl : ¬ EntryLt order e e := by
  intro h
  rcases h.lt with h | ⟨_, h⟩
  · have hs := comparePrefix_swap h
    cases h.symm.trans hs
  · simp only [idLt] at h
    lia

lemma asymm (hef : EntryLt order e f) : ¬ EntryLt order f e := fun hfe =>
  irrefl (hef.trans hfe)

lemma key_le (h : EntryLt order e f) : ∃ o, order.comparePrefix e.key f.key = .ok o ∧ o ≠ .gt := by
  rcases h.lt with h | ⟨h, _⟩
  · exact ⟨_, h, by decide⟩
  · exact ⟨_, h, by decide⟩

end EntryLt

/-! ### Sorted indexes -/

/-- The entries strictly increase, and their keys have the width of the comparator. -/
structure Index.Sorted (ix : Index) : Prop where
  pairwise : ix.entries.Pairwise (EntryLt ix.order)
  width : ∀ e ∈ ix.entries, e.key.length = ix.order.columns.length

variable {e : IndexEntry} {es : List IndexEntry} {start : ℕ} {f : IndexEntry} {v : Version}

variable {stop : ℕ} {range : KeyRange}

namespace Index

variable {ix : Index} {key pre : List Value} {row : RowId} {seq pos : ℕ}

lemma sortsBefore_of_lt (h : EntryLt ix.order e f) :
    ix.sortsBefore f.key f.row f.version e = .ok true := by
  rw [sortsBefore]
  rcases h.lt with h | ⟨h, hid⟩
  · rw [h]
    rfl
  · rw [h]
    simp only [map, ok.injEq, decide_eq_true_eq]
    exact hid

lemma sortsBefore_of_gt (h : EntryLt ix.order f e) :
    ix.sortsBefore f.key f.row f.version e = .ok false := by
  rw [sortsBefore]
  rcases h.lt with h | ⟨h, hid⟩
  · rw [comparePrefix_swap h]
    rfl
  · rw [comparePrefix_swap h]
    simp only [map, Ordering.swap_eq, ok.injEq, decide_eq_false_iff_not]
    simp only [idLt] at hid
    lia

/-! ### Insertion and removal -/

lemma sorted_new (table : TableId) (shape : IndexShape) (order : KeyOrder) :
    (Index.new table shape order).Sorted :=
  ⟨.nil, fun _ h => nomatch h⟩

variable (h : ix.Sorted)
include h

lemma Sorted.insert (hk : key.length = ix.order.columns.length)
    (hnew : ∀ e ∈ ix.entries, ¬ (e.row = row ∧ e.version = seq))
    (hpos : ix.positionFor key row seq = .ok pos) : pos ≤ ix.entries.length ∧
      { ix with entries := ix.entries.insertIdx pos ⟨key, row, seq⟩ }.Sorted := by
  obtain ⟨hle, hleft, hright⟩ := BinarySearch.partitionPoint_spec hpos
  refine ⟨hle, ?_, ?_⟩
  · refine pairwise_insertIdx h.pairwise hle ?_ ?_
    · refine forall_take_of_pairwise (EntryLt.isTrans ix.order) h.pairwise hle ?_
      intro e hp he
      have hmem := List.mem_of_getElem? he
      obtain ⟨o, ho, hbefore⟩ := map_eq_ok_iff.mp (hleft e hp he)
      refine ⟨h.width e hmem, hk, ?_⟩
      cases o with
      | lt => exact .inl ho
      | eq => exact .inr ⟨ho, by simpa [idLt] using hbefore⟩
      | gt => cases hbefore
    · refine forall_drop_of_pairwise (EntryLt.isTrans ix.order) h.pairwise ?_
      intro e he
      have hmem := List.mem_of_getElem? he
      obtain ⟨o, ho, hfalse⟩ := map_eq_ok_iff.mp (hright e he)
      have hswap := comparePrefix_swap ho
      refine ⟨hk, h.width e hmem, ?_⟩
      cases o with
      | lt => cases hfalse
      | gt => exact .inl hswap
      | eq =>
        refine .inr ⟨hswap, ?_⟩
        have := of_decide_eq_false hfalse
        have := hnew e hmem
        simp only [idLt]
        lia
  · intro e he
    rcases (mem_insertIdx_iff hle).mp he with rfl | he
    · exact hk
    · exact h.width e he

lemma Sorted.sublist (hes : es.Sublist ix.entries) : { ix with entries := es }.Sorted :=
  ⟨h.pairwise.sublist hes, fun e he => h.width e (hes.subset he)⟩

lemma Sorted.nodup : ix.entries.Nodup := by
  rw [List.nodup_iff_pairwise_ne]
  refine h.pairwise.imp ?_
  rintro e f hef rfl
  exact EntryLt.irrefl hef

omit h in
/-- A removal that ends has erased an entry of this version, or nothing. -/
lemma removeVersion_cases {ix' : Index} (h : ix.removeVersion row v = .ok ix') :
    ix' = ix ∨ ∃ i e, ix.entries[i]? = some e ∧ e.row = row ∧ e.version = v.seq ∧
      ix' = { ix with entries := ix.entries.eraseIdx i } := by
  obtain ⟨key, _, h⟩ := bind_eq_ok_iff.mp h
  obtain ⟨pos, _, h⟩ := bind_eq_ok_iff.mp h
  obtain ⟨found, hfound, h⟩ := bind_eq_ok_iff.mp h
  simp only [ok.injEq] at h
  cases found with
  | false => exact .inl h.symm
  | true =>
    right
    rw [isEntryOf] at hfound
    rcases he : ix.entries[pos]? with _ | e
    · simp [he] at hfound
    simp only [he] at hfound
    split_ifs at hfound with hid
    · exact ⟨pos, e, he, hid.1, hid.2, h.symm⟩
    · cases hfound

lemma removeVersion_eq {l₁ l₂ : List IndexEntry}
    (hentries : ix.entries = l₁ ++ ⟨key, row, v.seq⟩ :: l₂)
    (hkey : ix.order.extract v.data = .ok key) (hself : ix.order.comparePrefix key key = .ok .eq) :
    ix.removeVersion row v = .ok { ix with entries := l₁ ++ l₂ } := by
  have hsorted := h.pairwise
  rw [hentries, List.pairwise_append, List.pairwise_cons] at hsorted
  obtain ⟨_, ⟨hafter, _⟩, hbefore⟩ := hsorted
  have hpos : ix.positionFor key row v.seq = .ok l₁.length := by
    refine BinarySearch.partitionPoint_eq (by simp [hentries]) ?_ ?_
    · intro i e hi he
      rw [hentries, List.getElem?_append_left hi] at he
      exact sortsBefore_of_lt (f := ⟨key, row, v.seq⟩)
        (hbefore e (List.mem_of_getElem? he) _ (by simp))
    · intro i e hi he
      rw [hentries, List.getElem?_append_right hi] at he
      rcases List.mem_cons.mp (List.mem_of_getElem? he) with rfl | he
      · rw [sortsBefore, hself]
        simp [map]
      · exact sortsBefore_of_gt (f := ⟨key, row, v.seq⟩) (hafter e he)
  have hget : ix.entries[l₁.length]? = some ⟨key, row, v.seq⟩ := by simp [hentries]
  have herase : ix.entries.eraseIdx l₁.length = l₁ ++ l₂ := by
    simp [hentries, List.eraseIdx_append_of_length_le]
  simp only [removeVersion, isEntryOf, hkey, hpos, hget, hself, bind, Except.bind, map, and_self,
    if_true, herase]
  rfl

/-! ### The bounds of a range -/

def Below (order : KeyOrder) (key pre : List Value) : Prop :=
  order.comparePrefix key pre = .ok .lt

def Above (order : KeyOrder) (key pre : List Value) : Prop :=
  order.comparePrefix key pre = .ok .gt

def StartsWith (order : KeyOrder) (key pre : List Value) : Prop :=
  order.comparePrefix key pre = .ok .eq

/-- A test that goes down along the order of the keys is true of the entries before the position
its search answers, and of no other. -/
lemma bound_spec {q : Ordering → Bool} (hlt : q .lt) (hgt : q .gt = false)
    (hp : pre.length ≤ ix.order.columns.length) (hpos : partitionPoint ix.entries
      (fun e => (ix.order.comparePrefix e.key pre).map q) = .ok pos) : pos ≤ ix.entries.length ∧
      ∀ i e, ix.entries[i]? = some e →
        ∃ o, ix.order.comparePrefix e.key pre = .ok o ∧ q o = decide (i < pos) := by
  obtain ⟨hle, hleft, hright⟩ := BinarySearch.partitionPoint_spec hpos
  refine ⟨hle, fun i e he => ?_⟩
  obtain ⟨hilen, rfl⟩ := List.getElem?_eq_some_iff.mp he
  rcases Nat.lt_or_ge i pos with hi | hi
  · have hlast : pos - 1 < ix.entries.length := by omega
    obtain ⟨o, ho, hq⟩ := map_eq_ok_iff.mp (hleft _ (by omega) (List.getElem?_eq_getElem hlast))
    rw [decide_eq_true hi]
    rcases Nat.lt_or_ge i (pos - 1) with hlt' | hge
    · have hef := List.pairwise_iff_getElem.mp h.pairwise i (pos - 1) hilen hlast hlt'
      obtain ⟨o', ho', hne'⟩ := hef.key_le
      rw [comparePrefix_eq_lexCmp] at ho ho' ⊢
      obtain ⟨o'', ho'', hne'', hres⟩ := lexCmp_le_of_le ix.order.columns_lawful
        (hef.widthLeft.trans hef.widthRight.symm) (hef.widthRight.symm ▸ hp) ho' hne' ho
        (by rintro rfl; simp [hgt] at hq)
      refine ⟨o'', ho'', ?_⟩
      cases o <;> cases o'' <;> simp_all
    · obtain rfl : i = pos - 1 := by omega
      exact ⟨o, ho, hq⟩
  · have hfirst : pos < ix.entries.length := by omega
    obtain ⟨o, ho, hq⟩ := map_eq_ok_iff.mp (hright _ (List.getElem?_eq_getElem hfirst))
    rw [decide_eq_false (by omega)]
    rcases Nat.eq_or_lt_of_le hi with heq | hlt'
    · simp only [← heq]
      exact ⟨o, ho, hq⟩
    · have hef := List.pairwise_iff_getElem.mp h.pairwise pos i hfirst hilen hlt'
      obtain ⟨o', ho', hne'⟩ := hef.key_le
      rw [comparePrefix_eq_lexCmp] at ho ho' ⊢
      obtain ⟨o'', ho'', hne'', hres⟩ := lexCmp_ge_of_ge ix.order.columns_lawful
        (hef.widthLeft.trans hef.widthRight.symm) (hef.widthLeft.symm ▸ hp) ho' hne' ho
        (by rintro rfl; simp [hlt] at hq)
      refine ⟨o'', ho'', ?_⟩
      cases o <;> cases o'' <;> simp_all

lemma lowerBound_spec (hp : pre.length ≤ ix.order.columns.length)
    (hpos : ix.lowerBound pre = .ok pos) : pos ≤ ix.entries.length ∧
      ∀ i e, ix.entries[i]? = some e → (i < pos ↔ Below ix.order e.key pre) ∧
        (pos ≤ i ↔ StartsWith ix.order e.key pre ∨ Above ix.order e.key pre) := by
  obtain ⟨hle, hq⟩ := bound_spec h rfl rfl hp hpos
  refine ⟨hle, fun i e he => ?_⟩
  obtain ⟨o, ho, hq⟩ := hq i e he
  cases o <;> simp_all [Below, StartsWith, Above]

lemma upperBound_spec (hp : pre.length ≤ ix.order.columns.length)
    (hpos : ix.upperBound pre = .ok pos) : pos ≤ ix.entries.length ∧
      ∀ i e, ix.entries[i]? = some e →
        (i < pos ↔ Below ix.order e.key pre ∨ StartsWith ix.order e.key pre) ∧
        (pos ≤ i ↔ Above ix.order e.key pre) := by
  obtain ⟨hle, hq⟩ := bound_spec h rfl rfl hp hpos
  refine ⟨hle, fun i e he => ?_⟩
  obtain ⟨o, ho, hq⟩ := hq i e he
  cases o <;> simp_all [Below, StartsWith, Above, bne]

def AtLeast (order : KeyOrder) (key : List Value) : Bound → Prop
  | .unbounded => True
  | .included p => StartsWith order key p ∨ Above order key p
  | .excluded p => Above order key p

def AtMost (order : KeyOrder) (key : List Value) : Bound → Prop
  | .unbounded => True
  | .included p => Below order key p ∨ StartsWith order key p
  | .excluded p => Below order key p

def InRange (order : KeyOrder) (key : List Value) : KeyRange → Prop
  | .full => True
  | .point k => StartsWith order key k
  | .between lo hi => AtLeast order key lo ∧ AtMost order key hi

variable {order : KeyOrder}

variable {b : Bound}

omit h in
lemma checkBound_length (h : ix.checkBound b = .ok ()) {p : List Value}
    (hp : b.key? = some p) : p.length ≤ ix.order.columns.length := by
  rw [checkBound, hp] at h
  exact (checkPrefix_eq_ok h).1

lemma startOf_spec (hc : ix.checkBound b = .ok ())
    (hpos : ix.startOf b = .ok pos) : pos ≤ ix.entries.length ∧
      ∀ i e, ix.entries[i]? = some e → (pos ≤ i ↔ AtLeast ix.order e.key b) := by
  cases b with
  | unbounded =>
    cases hpos
    exact ⟨Nat.zero_le _, fun i e _ => ⟨fun _ => trivial, fun _ => Nat.zero_le i⟩⟩
  | included p =>
    obtain ⟨hle, hiff⟩ := lowerBound_spec h (checkBound_length hc rfl) hpos
    exact ⟨hle, fun i e he => (hiff i e he).2⟩
  | excluded p =>
    obtain ⟨hle, hiff⟩ := upperBound_spec h (checkBound_length hc rfl) hpos
    exact ⟨hle, fun i e he => (hiff i e he).2⟩

lemma stopOf_spec (hc : ix.checkBound b = .ok ())
    (hpos : ix.stopOf b = .ok pos) : pos ≤ ix.entries.length ∧
      ∀ i e, ix.entries[i]? = some e → (i < pos ↔ AtMost ix.order e.key b) := by
  cases b with
  | unbounded =>
    cases hpos
    exact ⟨le_rfl, fun i e he => ⟨fun _ => trivial, fun _ => (List.getElem?_eq_some_iff.mp he).1⟩⟩
  | included p =>
    obtain ⟨hle, hiff⟩ := upperBound_spec h (checkBound_length hc rfl) hpos
    exact ⟨hle, fun i e he => (hiff i e he).1⟩
  | excluded p =>
    obtain ⟨hle, hiff⟩ := lowerBound_spec h (checkBound_length hc rfl) hpos
    exact ⟨hle, fun i e he => (hiff i e he).1⟩

lemma positions_spec (hpos : ix.positions range = .ok (start, stop)) :
    start ≤ stop ∧ stop ≤ ix.entries.length ∧ ∀ i e, ix.entries[i]? = some e →
      ((start ≤ i ∧ i < stop) ↔ InRange ix.order e.key range) := by
  cases range with
  | full =>
    cases hpos
    exact ⟨Nat.zero_le _, le_rfl, fun i e he =>
      ⟨fun _ => trivial, fun _ => ⟨Nat.zero_le i, (List.getElem?_eq_some_iff.mp he).1⟩⟩⟩
  | point k =>
    obtain ⟨_, hcheck, hpos⟩ := bind_eq_ok_iff.mp hpos
    obtain ⟨lb, hlb, hpos⟩ := bind_eq_ok_iff.mp hpos
    obtain ⟨ub, hub, hpos⟩ := bind_eq_ok_iff.mp hpos
    cases hpos
    have hlen := (checkPrefix_eq_ok hcheck).1
    obtain ⟨hle, hlower⟩ := lowerBound_spec h hlen hlb
    obtain ⟨hle', hupper⟩ := upperBound_spec h hlen hub
    refine ⟨le_max_right _ _, max_le hle' hle, fun i e he => ⟨?_, ?_⟩⟩
    · rintro ⟨hi, hi'⟩
      refine ((hlower i e he).2.mp hi).resolve_right fun ha => ?_
      have := (hupper i e he).2.mpr ha
      omega
    · intro hs
      have hge := (hlower i e he).2.mpr (.inl hs)
      have hlt := (hupper i e he).1.mpr (.inr hs)
      exact ⟨hge, by omega⟩
  | between lo hi =>
    obtain ⟨_, hlo, hpos⟩ := bind_eq_ok_iff.mp hpos
    obtain ⟨_, hhi, hpos⟩ := bind_eq_ok_iff.mp hpos
    obtain ⟨a, ha, hpos⟩ := bind_eq_ok_iff.mp hpos
    obtain ⟨b, hb, hpos⟩ := bind_eq_ok_iff.mp hpos
    cases hpos
    obtain ⟨hle, hstart⟩ := startOf_spec h hlo ha
    obtain ⟨hle', hstop⟩ := stopOf_spec h hhi hb
    refine ⟨le_max_right _ _, max_le hle' hle, fun i e he => ?_⟩
    rw [InRange, ← hstart i e he, ← hstop i e he]
    omega

end Index

/-! ### The entries of a range -/

lemma slice_sublist {α : Type} (items : List α) (start stop : ℕ) :
    (slice items start stop).Sublist items := by
  rw [slice]
  split_ifs
  · exact (List.take_sublist _ _).trans (List.drop_sublist _ _)
  · exact List.nil_sublist _

lemma mem_slice_iff {α : Type} {items : List α} (h : start ≤ stop)
    (h' : stop ≤ items.length) {x : α} :
    x ∈ slice items start stop ↔ ∃ i, start ≤ i ∧ i < stop ∧ items[i]? = some x := by
  rw [slice, if_pos ⟨h, h'⟩, List.mem_iff_getElem?]
  simp only [List.getElem?_take, List.getElem?_drop]
  constructor
  · rintro ⟨i, hi⟩
    split_ifs at hi with hlt
    exact ⟨start + i, by omega, by omega, hi⟩
  · rintro ⟨i, hi, hi', hx⟩
    refine ⟨i - start, ?_⟩
    rw [if_pos (by omega), Nat.add_sub_cancel' hi, hx]

namespace Index

variable {ix : Index} {key : List Value} {rows : OrderedMap RowId (List Version)}
  {status : TxnId → TxnStatus}

lemma mem_positions_iff (h : ix.Sorted) (hpos : ix.positions range = .ok (start, stop)) :
    e ∈ slice ix.entries start stop ↔ e ∈ ix.entries ∧ InRange ix.order e.key range := by
  obtain ⟨hle, hlen, hin⟩ := positions_spec h hpos
  rw [mem_slice_iff hle hlen, List.mem_iff_getElem?]
  constructor
  · rintro ⟨i, hi, hi', he⟩
    exact ⟨⟨i, he⟩, (hin i e he).mp ⟨hi, hi'⟩⟩
  · rintro ⟨⟨i, he⟩, hr⟩
    obtain ⟨hi, hi'⟩ := (hin i e he).mpr hr
    exact ⟨i, hi, hi', he⟩

/-! ### The uniqueness tests -/

lemma versionOf_eq_ok_iff :
    ix.versionOf rows e = .ok v ↔ findVersion rows e.row e.version = some v := by
  rw [versionOf]
  cases findVersion rows e.row e.version <;> simp [corruption]

variable {skipRow : Option RowId} {txn : Option TxnId}

lemma anyLive_false (h : ix.anyLive rows txn status skipRow es = .ok false) :
    ∀ e ∈ es, some e.row ≠ skipRow →
      ∃ v, findVersion rows e.row e.version = some v ∧ isLive v txn status = false := by
  induction es with
  | nil => exact fun e he => nomatch he
  | cons f es ih =>
    rw [anyLive] at h
    intro e he hskip
    split_ifs at h with hf
    · rcases List.mem_cons.mp he with rfl | he
      · exact absurd hf hskip
      · exact ih h e he hskip
    · obtain ⟨v, hv, h⟩ := bind_eq_ok_iff.mp h
      split_ifs at h with hlive
      · cases h
      · rcases List.mem_cons.mp he with rfl | he
        · exact ⟨v, versionOf_eq_ok_iff.mp hv, by simpa using hlive⟩
        · exact ih h e he hskip

lemma hasLiveDuplicate_false (h : ix.Sorted) (hk : key.length = ix.order.columns.length)
    (hdup : ix.hasLiveDuplicate key rows txn status skipRow = .ok false) :
    ∀ e ∈ ix.entries, StartsWith ix.order e.key key → some e.row ≠ skipRow →
      ∃ v, findVersion rows e.row e.version = some v ∧ isLive v txn status = false := by
  obtain ⟨lb, hlb, hdup⟩ := bind_eq_ok_iff.mp hdup
  obtain ⟨ub, hub, hdup⟩ := bind_eq_ok_iff.mp hdup
  obtain ⟨hle, hlower⟩ := lowerBound_spec h hk.le hlb
  obtain ⟨hle', hupper⟩ := upperBound_spec h hk.le hub
  intro e he hs hskip
  obtain ⟨i, hi⟩ := List.mem_iff_getElem?.mp he
  have hge := (hlower i e hi).2.mpr (.inl hs)
  have hlt := (hupper i e hi).1.mpr (.inr hs)
  refine anyLive_false hdup e ?_ hskip
  exact (mem_slice_iff (by omega) hle').mpr ⟨i, hge, hlt, hi⟩

lemma groupDuplicate_false {liveRow : Option RowId}
    (h : ix.groupDuplicate rows status liveRow es = .ok false) :
    ∃ r, (∀ r', liveRow = some r' → r' = r) ∧ ∀ e ∈ es,
      ∃ v, findVersion rows e.row e.version = some v ∧
        (isLive v none status = true → e.row = r) := by
  induction es generalizing liveRow with
  | nil =>
    refine ⟨liveRow.getD 0, ?_, fun e he => nomatch he⟩
    rintro r' rfl
    rfl
  | cons f es ih =>
    obtain ⟨v, hv, h⟩ := bind_eq_ok_iff.mp h
    have hfind := versionOf_eq_ok_iff.mp hv
    by_cases hlive : isLive v none status = true
    · have hrest : ix.groupDuplicate rows status (some f.row) es = .ok false ∧
          ∀ r', liveRow = some r' → r' = f.row := by
        rw [hlive] at h
        cases liveRow with
        | none => exact ⟨by simpa using h, fun r' hr' => nomatch hr'⟩
        | some row =>
          by_cases hrow : row = f.row
          · refine ⟨by simpa [hrow] using h, ?_⟩
            rintro r' hr'
            exact (Option.some.inj hr').symm.trans hrow
          · simp [hrow] at h
      obtain ⟨r, hr, hes⟩ := ih hrest.1
      have hfr := hr f.row rfl
      refine ⟨r, fun r' hr' => (hrest.2 r' hr').trans hfr, ?_⟩
      intro e he
      rcases List.mem_cons.mp he with rfl | he
      · exact ⟨v, hfind, fun _ => hfr⟩
      · exact hes e he
    · have hrest : ix.groupDuplicate rows status liveRow es = .ok false := by simpa [hlive] using h
      obtain ⟨r, hr, hes⟩ := ih hrest
      refine ⟨r, hr, ?_⟩
      intro e he
      rcases List.mem_cons.mp he with rfl | he
      · exact ⟨v, hfind, fun hl => absurd hl hlive⟩
      · exact hes e he

/-- Two entries with one key, in distinct rows, are not both live. -/
def NotBothLive (rows : OrderedMap RowId (List Version)) (status : TxnId → TxnStatus)
    (e f : IndexEntry) : Prop :=
  ∃ v w, findVersion rows e.row e.version = some v ∧ findVersion rows f.row f.version = some w ∧
    (isLive v none status = false ∨ isLive w none status = false)

lemma duplicateFrom_none (h : ix.Sorted) {fuel : ℕ} (hfuel : ix.entries.length ≤ fuel + start)
    (hdup : ix.duplicateFrom rows status fuel start = .ok none) :
    ∀ i j e f, start ≤ i → i < j → ix.entries[i]? = some e → ix.entries[j]? = some f →
      StartsWith ix.order f.key e.key → e.row ≠ f.row → NotBothLive rows status e f := by
  induction fuel generalizing start with
  | zero =>
    intro i j e f hi hij he
    have := (List.getElem?_eq_some_iff.mp he).1
    omega
  | succ fuel ih =>
    intro i j e f hi hij he hf hkeys hrows
    rw [duplicateFrom] at hdup
    have hilen := (List.getElem?_eq_some_iff.mp he).1
    have hjlen := (List.getElem?_eq_some_iff.mp hf).1
    have hslen : start < ix.entries.length := by omega
    have hfirst := List.getElem?_eq_getElem hslen
    rw [hfirst] at hdup
    obtain ⟨ub, hub, hdup⟩ := bind_eq_ok_iff.mp hdup
    obtain ⟨found, hfound, hdup⟩ := bind_eq_ok_iff.mp hdup
    have hfw := h.width _ (List.mem_of_getElem? hfirst)
    have hew := h.width _ (List.mem_of_getElem? he)
    have hffw := h.width _ (List.mem_of_getElem? hf)
    obtain ⟨hublen, hupper⟩ := upperBound_spec h hfw.le hub
    cases found with
    | true => simp at hdup
    | false =>
      simp only [Bool.false_eq_true, if_false] at hdup
      rcases Nat.lt_or_ge i (max ub (start + 1)) with hin | hout
      · -- the first entry of the pair is in this group, and so is the second
        have hstart : StartsWith ix.order f.key (ix.entries[start]).key := by
          rcases Nat.eq_or_lt_of_le hi with heq | hlt
          · subst heq
            rw [hfirst, Option.some.injEq] at he
            rw [he]
            exact hkeys
          · have hpair := List.pairwise_iff_getElem.mp h.pairwise start i hslen hilen hlt
            rw [(List.getElem?_eq_some_iff.mp he).2] at hpair
            have hige : StartsWith ix.order e.key ix.entries[start].key := by
              obtain ⟨o, ho, hne⟩ := hpair.key_le
              have hswap := comparePrefix_swap ho
              refine ((hupper i e he).1.mp (by omega)).resolve_left fun hb => ?_
              rw [Below, hswap] at hb
              cases o with
              | lt | eq => cases hb
              | gt => exact hne rfl
            exact comparePrefix_trans (hffw.trans hew.symm) (hew.trans hfw.symm)
              hkeys hige (by decide) (by decide)
        have hjub := (hupper j f hf).1.mpr (.inr hstart)
        obtain ⟨r, -, hgroup⟩ := groupDuplicate_false hfound
        have hmem : ∀ k x, start ≤ k → k < max ub (start + 1) → ix.entries[k]? = some x →
            x ∈ slice ix.entries start (max ub (start + 1)) := fun k x hk hk' hx =>
          (mem_slice_iff (by omega) (by omega)).mpr ⟨k, hk, hk', hx⟩
        obtain ⟨v, hv, hlv⟩ := hgroup e (hmem i e hi hin he)
        obtain ⟨w, hw, hlw⟩ := hgroup f (hmem j f (by omega) (by omega) hf)
        refine ⟨v, w, hv, hw, ?_⟩
        by_contra hboth
        rw [not_or, Bool.not_eq_false, Bool.not_eq_false] at hboth
        exact hrows ((hlv hboth.1).trans (hlw hboth.2).symm)
      · exact ih (by omega) hdup i j e f hout hij he hf hkeys hrows

lemma firstDuplicateKey_none (h : ix.Sorted) (hdup : ix.firstDuplicateKey rows status = .ok none)
    (he : e ∈ ix.entries) (hf : f ∈ ix.entries) (hkeys : StartsWith ix.order f.key e.key)
    (hrows : e.row ≠ f.row) : NotBothLive rows status e f := by
  obtain ⟨i, hi⟩ := List.mem_iff_getElem?.mp he
  obtain ⟨j, hj⟩ := List.mem_iff_getElem?.mp hf
  have hall := duplicateFrom_none h (by omega) hdup
  rcases Nat.lt_trichotomy i j with hlt | heq | hgt
  · exact hall i j e f (Nat.zero_le i) hlt hi hj hkeys hrows
  · subst heq
    rw [hi, Option.some.injEq] at hj
    exact absurd (congrArg row hj) hrows
  · obtain ⟨v, w, hv, hw, hor⟩ := hall j i f e (Nat.zero_le j) hgt hj hi
      (comparePrefix_swap hkeys) (Ne.symm hrows)
    exact ⟨w, v, hw, hv, hor.symm⟩

end Index

end VaubanDB
