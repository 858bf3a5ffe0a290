import VaubanDB.Disk.Page
import VaubanDB.Library.Intervals
import VaubanDB.Types.Value

/-!
The pages of a B+tree (`vauban-storage/src/disk/btree.rs`, the page layer).

A page holds a directory of slots in key order, each naming an entry that stands where there was
room when it was put.  A slot is kept with its entry here; of the other bytes only the room they
take matters.  A slot taken out leaves a hole, and a page without room is rewritten from its entries
once (`compact`).

`Laid` is what every page of a tree keeps: the entries lie inside the page, past the directory, and
apart, so writing one leaves the others as they are.
-/

namespace VaubanDB

open List

namespace BTree

/-! ### Pages -/

/-- The first byte of the slot directory of a leaf, after the header and the two links. -/
def leafDirectory : ℕ := headerSize + 16

/-- The first byte of the slot directory of an internal page, after the header and the leftmost
child. -/
def internalDirectory : ℕ := headerSize + 8

def slotSize : ℕ := 4

/-- The bytes an entry spends on its two lengths. -/
def entryOverhead : ℕ := 4

def childBytes : ℕ := 8

def maxEntryBytes : ℕ := pageSize - 128

abbrev Entry := List UInt8 × List UInt8

/-- The part of a page that its kind decides. -/
inductive Header where
  | leaf (prev next : Option PageId)
  | internal (leftmost : PageId)
  | other (kind : PageKind)
  deriving DecidableEq, Repr

/-- A slot of the directory, with the entry it names. -/
structure Slot where
  offset : ℕ
  entry : Entry
  deriving DecidableEq, Repr

structure TreePage where
  id : PageId
  header : Header
  slots : List Slot
  deriving DecidableEq, Repr

def entryLength (e : Entry) : ℕ := entryOverhead + e.1.length + e.2.length

/-- The bytes an entry takes on a page, its slot included. -/
def entryWeight (e : Entry) : ℕ := slotSize + entryLength e

namespace Slot

def length (s : Slot) : ℕ := entryLength s.entry

end Slot

/-- What a put did with the entry it was given. -/
inductive Put where
  | inserted
  /-- The page has no room for it. -/
  | full
  deriving DecidableEq, Repr

namespace TreePage

def kind (page : TreePage) : PageKind :=
  match page.header with
  | .leaf .. => .btreeLeaf
  | .internal .. => .btreeInternal
  | .other kind => kind

def entries (page : TreePage) : List Entry := page.slots.map Slot.entry

/-- Refuses a page whose kind is not the one the caller reads it as. -/
def expectKind (page : TreePage) (expected : PageKind) : Except InternalError Unit :=
  if page.kind ≠ expected then
    let id := page.id
    .error (.bug s!"page {id} is a page of another kind than the one it is read as")
  else .ok ()

def directoryEnd (page : TreePage) (directory : ℕ) : Except InternalError ℕ :=
  let count := page.slots.length
  let stop := directory + count * slotSize
  if stop > pageSize then
    let id := page.id
    .error (.corruption
      s!"page {id} declares {count} slots, a directory of {stop} bytes in a page of {pageSize}")
  else .ok stop

def checkedSlot (page : TreePage) (directory index : ℕ) : Except InternalError Slot :=
  let count := page.slots.length
  let id := page.id
  match page.slots[index]? with
  | none => .error (.bug s!"page {id} holds {count} slots, slot {index} was asked for")
  | some slot => do
      let stop ← page.directoryEnd directory
      let offset := slot.offset
      let length := slot.length
      if offset < stop ∨ offset + length > pageSize then
        .error (.corruption
          (s!"page {id} has slot {index} at offset {offset} of length {length}, " ++
          s!"outside the bytes its directory of {count} slots leaves in {pageSize}"))
      else .ok slot

def entryAt (page : TreePage) (directory index : ℕ) : Except InternalError Entry := do
  let slot ← page.checkedSlot directory index
  .ok slot.entry

def ownedEntries (page : TreePage) (directory : ℕ) : Except InternalError (List Entry) :=
  (range page.slots.length).mapM (page.entryAt directory)

/-- The first byte of the entries of a page, that is the end of its free space. -/
def upper (page : TreePage) (directory : ℕ) : Except InternalError ℕ := do
  let slots ← (range page.slots.length).mapM (page.checkedSlot directory)
  .ok (slots.foldl (fun upper slot => min upper slot.offset) pageSize)

def freeSpace (page : TreePage) (directory : ℕ) : Except InternalError ℕ := do
  let used ← page.directoryEnd directory
  let upper ← page.upper directory
  .ok (upper - used)

def clearEntries (page : TreePage) : TreePage := { page with slots := [] }

def initLeaf (page : TreePage) : TreePage :=
  { page with header := .leaf none none, slots := [] }

def initInternal (page : TreePage) (leftmost : PageId) : TreePage :=
  { page with header := .internal leftmost, slots := [] }

def setLeafPrev (page : TreePage) (prev : Option PageId) : TreePage :=
  match page.header with
  | .leaf _ next => { page with header := .leaf prev next }
  | _ => page

def setLeafNext (page : TreePage) (next : Option PageId) : TreePage :=
  match page.header with
  | .leaf prev _ => { page with header := .leaf prev next }
  | _ => page

def leafPrev (page : TreePage) : Option PageId :=
  match page.header with
  | .leaf prev _ => prev
  | _ => none

def leafNext (page : TreePage) : Option PageId :=
  match page.header with
  | .leaf _ next => next
  | _ => none

def leftmostChild (page : TreePage) : PageId :=
  match page.header with
  | .internal leftmost => leftmost
  | _ => 0

/-- Writes an entry at the end of the free space and its slot at `index`, if there is room. -/
def putEntry (page : TreePage) (directory index : ℕ) (entry : Entry) :
    Except InternalError (Put × TreePage) := do
  let free ← page.freeSpace directory
  if free < entryLength entry + slotSize then .ok (.full, page)
  else
    let upper ← page.upper directory
    let slot : Slot := ⟨upper - entryLength entry, entry⟩
    .ok (.inserted, { page with slots := page.slots.insertIdx index slot })

def removeSlot (page : TreePage) (directory index : ℕ) : Except InternalError TreePage :=
  let count := page.slots.length
  let id := page.id
  if index ≥ count then
    .error (.bug s!"page {id} holds {count} slots, slot {index} was asked to go")
  else do
    let _ ← page.directoryEnd directory
    .ok { page with slots := page.slots.eraseIdx index }

/-- The loop of `fill`; `total` is the number of entries of the half. -/
def fillLoop (directory : ℕ) (id : PageId) (total : ℕ) :
    List Entry → TreePage → Except InternalError TreePage
  | [], page => .ok page
  | entry :: rest, page => do
      let (put, page) ← page.putEntry directory page.slots.length entry
      if put = .full then
        .error (.bug s!"page {id} has no room for the {total} entries of its half of a split")
      else fillLoop directory id total rest page

/-- Puts entries on a page that was just cleared, in the order they are given. -/
def fill (page : TreePage) (directory : ℕ) (entries : List Entry) (id : PageId) :
    Except InternalError TreePage :=
  fillLoop directory id entries.length entries page

/-- Rewrites a page from the entries its directory names, which closes the holes. -/
def compact (page : TreePage) (directory : ℕ) : Except InternalError TreePage := do
  let entries ← page.ownedEntries directory
  page.clearEntries.fill directory entries page.id

/-- Rewriting the page from its entries would leave room for `weight` bytes. -/
def compactionMakesRoom (page : TreePage) (directory weight : ℕ) : Except InternalError Bool := do
  let entries ← page.ownedEntries directory
  .ok ((entries.map entryWeight).sum + weight ≤ pageSize - directory)

end TreePage

def checkEntrySize (id : PageId) (key payload : ℕ) : Except InternalError Unit :=
  if key + payload > maxEntryBytes then
    .error (.bug (s!"entry of {key} key bytes and {payload} payload bytes does not go on page " ++
      s!"{id}: this build puts at most {maxEntryBytes} bytes in one entry"))
  else .ok ()

/-- Puts an entry at the index `position` gives it, compacting the page once when it has no room. -/
def placeEntry (directory : ℕ) (position : TreePage → Except InternalError ℕ) (entry : Entry)
    (page : TreePage) : Except InternalError (Put × TreePage) := do
  checkEntrySize page.id entry.1.length entry.2.length
  let index ← position page
  let (put, page) ← page.putEntry directory index entry
  if put = .inserted then .ok (.inserted, page)
  else
    let room ← page.compactionMakesRoom directory (entryWeight entry)
    if room then
      let page ← page.compact directory
      let index ← position page
      page.putEntry directory index entry
    else .ok (.full, page)

/-! ### The cut of a full page -/

/-- The loop of `balance_point`: the position reached and the weight carried so far. -/
def balanceLoop (total count : ℕ) : ℕ → ℕ → List ℕ → ℕ
  | _, _, [] => count - 1
  | index, carried, weight :: rest =>
    if (carried + weight) * 2 ≥ total ∧ index + 1 < count then index + 1
    else balanceLoop total count (index + 1) (carried + weight) rest

/-- The index the upper half starts at: the first past half of the total weight. -/
def balancePoint (weights : List ℕ) : ℕ := balanceLoop weights.sum weights.length 0 0 weights

def absDiff (i j : ℕ) : ℕ := (i - j) + (j - i)

/-- The candidate nearest `balanced`, the lower one of two at the same distance. -/
def nearest (candidates : List ℕ) (balanced : ℕ) : Option ℕ :=
  candidates.argmin fun index => toLex (absDiff index balanced, index)

def keyAt (entries : List Entry) (index : ℕ) : Option (List UInt8) := entries[index]?.map Prod.fst

/-- The index the upper half of a leaf starts at, moved out of a run of equal keys. -/
def cutBetweenKeys (entries : List Entry) (balanced : ℕ) : Option ℕ :=
  nearest ((range' 1 (entries.length - 1)).filter fun index =>
    keyAt entries (index - 1) ≠ keyAt entries index) balanced

/-- The index of the key an internal split promotes, moved out of a run of equal keys. -/
def keyToPromote (entries : List Entry) (balanced : ℕ) : Option ℕ :=
  nearest ((range' 1 (entries.length - 2)).filter fun index =>
    keyAt entries (index - 1) ≠ keyAt entries index ∧
      keyAt entries index ≠ keyAt entries (index + 1)) balanced

/-! ### Pages laid out well -/

/-- The entries of a page lie inside it, past the directory, and apart. -/
structure Laid (directory : ℕ) (page : TreePage) : Prop where
  directoryFits : directory + page.slots.length * slotSize ≤ pageSize
  inside : ∀ s ∈ page.slots,
    directory + page.slots.length * slotSize ≤ s.offset ∧ s.offset + s.length ≤ pageSize
  apart : page.slots.Pairwise fun s t =>
    s.offset + s.length ≤ t.offset ∨ t.offset + t.length ≤ s.offset

def TreePage.weight (page : TreePage) : ℕ := (page.entries.map entryWeight).sum

@[simp] lemma TreePage.length_entries (page : TreePage) :
    page.entries.length = page.slots.length := by simp [entries]

lemma weight_eq (page : TreePage) :
    page.weight = (page.slots.map Slot.length).sum + page.slots.length * slotSize := by
  rw [TreePage.weight, TreePage.entries]
  induction page.slots with
  | nil => rfl
  | cons s l ih =>
    simp only [map_cons, sum_cons, ih, length_cons, entryWeight, Slot.length]
    ring

variable {index : ℕ}

namespace Laid

variable {directory : ℕ} {page : TreePage}

lemma weight_le (h : Laid directory page) : directory + page.weight ≤ pageSize := by
  have hsum := sum_le_of_apart h.apart h.inside
  have hfits := h.directoryFits
  rw [weight_eq]
  change (page.slots.map Slot.length).sum ≤ _ at hsum
  omega

lemma directoryEnd (h : Laid directory page) :
    page.directoryEnd directory = .ok (directory + page.slots.length * slotSize) := by
  rw [TreePage.directoryEnd]
  exact if_neg (not_lt.mpr h.directoryFits)

lemma checkedSlot (h : Laid directory page) {s : Slot}
    (hs : page.slots[index]? = some s) : page.checkedSlot directory index = .ok s := by
  obtain ⟨h₁, h₂⟩ := h.inside s (mem_of_getElem? hs)
  have hgood : ¬ (s.offset < directory + page.slots.length * slotSize ∨
      s.offset + s.length > pageSize) := by omega
  simp only [TreePage.checkedSlot, hs, h.directoryEnd, bind, Except.bind]
  rw [if_neg hgood]

end Laid

lemma mapM_range_eq {ε α β : Type} {l : List α} {f : ℕ → Except ε β} {g : α → β}
    (h : ∀ i x, l[i]? = some x → f i = .ok (g x)) : (range l.length).mapM f = .ok (l.map g) := by
  rw [Except.mapM_eq_ok_iff, forall₂_iff_get]
  refine ⟨by simp, fun i h₁ h₂ => ?_⟩
  have hi : i < l.length := by simpa using h₁
  simpa using h i _ (getElem?_eq_getElem hi)

namespace Laid

variable {directory : ℕ} {page : TreePage}

lemma entryAt (h : Laid directory page) {e : Entry}
    (he : page.entries[index]? = some e) : page.entryAt directory index = .ok e := by
  rw [TreePage.entries, getElem?_map, Option.map_eq_some_iff] at he
  obtain ⟨s, hs, rfl⟩ := he
  simp [TreePage.entryAt, h.checkedSlot hs, bind, Except.bind]

lemma ownedEntries (h : Laid directory page) : page.ownedEntries directory = .ok page.entries := by
  refine mapM_range_eq fun i s hs => ?_
  simp [TreePage.entryAt, h.checkedSlot hs, bind, Except.bind]

lemma compactionMakesRoom (h : Laid directory page) (weight : ℕ) :
    page.compactionMakesRoom directory weight =
      .ok (page.weight + weight ≤ pageSize - directory) := by
  rw [TreePage.compactionMakesRoom, h.ownedEntries]
  rfl

end Laid

variable {directory : ℕ} {page : TreePage}

lemma foldl_min_le (l : List Slot) (u : ℕ) :
    (l.foldl (fun upper slot => min upper slot.offset) u ≤ u ∧
      ∀ s ∈ l, l.foldl (fun upper slot => min upper slot.offset) u ≤ s.offset) ∧
    ∀ lo, lo ≤ u → (∀ s ∈ l, lo ≤ s.offset) →
      lo ≤ l.foldl (fun upper slot => min upper slot.offset) u := by
  induction l generalizing u with
  | nil => simp
  | cons t l ih =>
    obtain ⟨⟨h₁, h₂⟩, h₃⟩ := ih (min u t.offset)
    refine ⟨⟨h₁.trans (min_le_left _ _), ?_⟩, ?_⟩
    · intro s hs
      rcases mem_cons.mp hs with rfl | hs
      · exact h₁.trans (min_le_right _ _)
      · exact h₂ s hs
    · intro lo hlo hall
      exact h₃ lo (le_min hlo (hall t (by simp))) fun s hs => hall s (by simp [hs])

variable (h : Laid directory page)
include h

lemma Laid.upper :
    ∃ u, page.upper directory = .ok u ∧ u ≤ pageSize ∧ (∀ s ∈ page.slots, u ≤ s.offset) ∧
      ∀ lo, lo ≤ pageSize → (∀ s ∈ page.slots, lo ≤ s.offset) → lo ≤ u := by
  have hslots : (range page.slots.length).mapM (page.checkedSlot directory) = .ok page.slots := by
    simpa using mapM_range_eq (g := id) fun i s hs => h.checkedSlot hs
  obtain ⟨⟨h₁, h₂⟩, h₃⟩ := foldl_min_le page.slots pageSize
  exact ⟨_, by simp [TreePage.upper, hslots, bind, Except.bind], h₁, h₂, h₃⟩

/-- The entries of a page stand against its end, without a hole. -/
def Tight (page : TreePage) : Prop :=
  ∀ s ∈ page.slots, pageSize - (page.slots.map Slot.length).sum ≤ s.offset

structure Puts (directory index : ℕ) (entry : Entry) (page page' : TreePage) : Prop where
  id : page'.id = page.id
  header : page'.header = page.header
  entries : page'.entries = page.entries.insertIdx index entry
  laid : Laid directory page'

lemma putEntry_spec (hindex : index ≤ page.slots.length)
    (entry : Entry) : (page.putEntry directory index entry = .ok (.full, page) ∧
      (Tight page → pageSize < directory + page.weight + entryWeight entry)) ∨
    ∃ page', page.putEntry directory index entry = .ok (.inserted, page') ∧
      Puts directory index entry page page' ∧ (Tight page → Tight page') := by
  obtain ⟨u, hu, hule, hlow, hgreat⟩ := h.upper
  have hstop : directory + page.slots.length * slotSize ≤ u :=
    hgreat _ h.directoryFits fun s hs => (h.inside s hs).1
  have hfree : page.freeSpace directory = .ok (u - (directory + page.slots.length * slotSize)) := by
    simp [TreePage.freeSpace, h.directoryEnd, hu, bind, Except.bind]
  have hput : page.putEntry directory index entry =
      if u - (directory + page.slots.length * slotSize) < entryLength entry + slotSize then
        .ok (.full, page)
      else .ok (.inserted,
        { page with slots := page.slots.insertIdx index ⟨u - entryLength entry, entry⟩ }) := by
    simp [TreePage.putEntry, hfree, hu, bind, Except.bind]
  have hweight := weight_eq page
  have htight : Tight page → pageSize - (page.slots.map Slot.length).sum ≤ u := fun ht =>
    hgreat _ (Nat.sub_le _ _) ht
  by_cases hroom : u - (directory + page.slots.length * slotSize) < entryLength entry + slotSize
  · left
    refine ⟨by rw [hput, if_pos hroom], fun ht => ?_⟩
    have := htight ht
    have hlen := sum_le_of_apart h.apart h.inside
    change (page.slots.map Slot.length).sum ≤ _ at hlen
    rw [entryWeight]
    omega
  · right
    refine ⟨_, by rw [hput, if_neg hroom], ?_, ?_⟩
    · have hlength : (page.slots.insertIdx index ⟨u - entryLength entry, entry⟩).length =
          page.slots.length + 1 := length_insertIdx_of_le_length hindex _
      refine ⟨rfl, rfl, ?_, ?_, ?_, ?_⟩
      · simp [TreePage.entries, map_insertIdx]
      · simp only [hlength]
        rw [Nat.succ_mul]
        omega
      · intro s hs
        simp only [hlength]
        rw [Nat.succ_mul]
        rcases (mem_insertIdx hindex).mp hs with rfl | hs
        · simp only [Slot.length]
          omega
        · have := hlow s hs
          have := (h.inside s hs).2
          omega
      · -- The new entry ends where the free space ends, below every other entry.
        have hperm := perm_insertIdx (⟨u - entryLength entry, entry⟩ : Slot) page.slots hindex
        refine (hperm.pairwise_iff ?_).mpr (pairwise_cons.mpr ⟨?_, h.apart⟩)
        · rintro a b (hab | hab)
          · exact .inr hab
          · exact .inl hab
        · intro s hs
          have := hlow s hs
          left
          simp only [Slot.length]
          omega
    · intro ht s hs
      have hsum : ((page.slots.insertIdx index ⟨u - entryLength entry, entry⟩).map
          Slot.length).sum = entryLength entry + (page.slots.map Slot.length).sum := by
        have hperm := perm_insertIdx (⟨u - entryLength entry, entry⟩ : Slot) page.slots hindex
        simpa [Slot.length] using (hperm.map Slot.length).sum_eq
      have := htight ht
      simp only [hsum]
      rcases (mem_insertIdx hindex).mp hs with rfl | hs
      · change _ ≤ u - entryLength entry
        omega
      · have := ht s hs
        omega

variable {entries : List Entry}

omit h in
lemma fillLoop_spec (id : PageId) (total : ℕ) (h : Laid directory page)
    (ht : Tight page) (hfit : directory + page.weight + (entries.map entryWeight).sum ≤ pageSize) :
    ∃ page', TreePage.fillLoop directory id total entries page = .ok page' ∧
      page'.id = page.id ∧ page'.header = page.header ∧
      page'.entries = page.entries ++ entries ∧ Laid directory page' ∧ Tight page' := by
  induction entries generalizing page with
  | nil => exact ⟨page, rfl, rfl, rfl, by simp, h, ht⟩
  | cons e es ih =>
    simp only [map_cons, sum_cons] at hfit
    rcases putEntry_spec h le_rfl e with ⟨_, hfull⟩ | ⟨page₁, hput, hputs, ht₁⟩
    · have := hfull ht
      omega
    · have hentries : page₁.entries = page.entries ++ [e] := by
        rw [hputs.entries, ← TreePage.length_entries, insertIdx_length_self]
      have hw : page₁.weight = page.weight + entryWeight e := by simp [TreePage.weight, hentries]
      obtain ⟨page', hfill, hid, hheader, hes, hlaid, htight⟩ := ih hputs.laid (ht₁ ht) (by omega)
      refine ⟨page', ?_, hid.trans hputs.id, hheader.trans hputs.header, ?_, hlaid, htight⟩
      · simp [TreePage.fillLoop, hput, hfill, bind, Except.bind]
      · rw [hes, hentries, append_assoc, singleton_append]

omit h in
lemma laid_nil (hdir : directory ≤ pageSize) (id : PageId) (header : Header) :
    Laid directory ⟨id, header, []⟩ ∧ Tight ⟨id, header, []⟩ :=
  ⟨⟨by simpa using hdir, by simp, by simp⟩, by simp [Tight]⟩

omit h in
lemma fill_spec (hdir : directory ≤ pageSize) (id pageId : PageId) (header : Header)
    (hfit : directory + (entries.map entryWeight).sum ≤ pageSize) :
    ∃ page', TreePage.fill ⟨pageId, header, []⟩ directory entries id = .ok page' ∧
      page'.id = pageId ∧ page'.header = header ∧ page'.entries = entries ∧
      Laid directory page' ∧ Tight page' := by
  obtain ⟨hlaid, htight⟩ := laid_nil hdir pageId header
  obtain ⟨page', h, hid, hheader, hes, hl, ht⟩ :=
    fillLoop_spec id entries.length hlaid htight
      (by simpa [TreePage.weight, TreePage.entries] using hfit)
  exact ⟨page', h, hid, hheader, by simpa [TreePage.entries] using hes, hl, ht⟩

lemma compact_spec : ∃ page', page.compact directory = .ok page' ∧ page'.id = page.id ∧
      page'.header = page.header ∧ page'.entries = page.entries ∧
      Laid directory page' ∧ Tight page' := by
  have hdir : directory ≤ pageSize := by
    have := h.directoryFits
    omega
  obtain ⟨page', hfill, hrest⟩ := fill_spec hdir page.id page.id page.header h.weight_le
  refine ⟨page', ?_, hrest⟩
  simp [TreePage.compact, h.ownedEntries, TreePage.clearEntries, hfill, bind, Except.bind]

lemma removeSlot_spec (hindex : index < page.slots.length) :
    ∃ page', page.removeSlot directory index = .ok page' ∧ page'.id = page.id ∧
      page'.header = page.header ∧ page'.entries = page.entries.eraseIdx index ∧
      Laid directory page' := by
  have hlength := length_eraseIdx_of_lt hindex
  have hmem : ∀ s ∈ page.slots.eraseIdx index, s ∈ page.slots := fun s hs => mem_of_mem_eraseIdx hs
  refine ⟨{ page with slots := page.slots.eraseIdx index }, ?_, rfl, rfl, ?_, ?_, ?_, ?_⟩
  · simp [TreePage.removeSlot, Nat.not_le.mpr hindex, h.directoryEnd, bind, Except.bind]
  · simp [TreePage.entries, eraseIdx_map]
  · have := h.directoryFits
    simp only [hlength, slotSize] at this ⊢
    omega
  · intro s hs
    obtain ⟨h₁, h₂⟩ := h.inside s (hmem s hs)
    simp only [hlength, slotSize] at h₁ ⊢
    exact ⟨by omega, h₂⟩
  · exact h.apart.sublist (eraseIdx_sublist _ _)

def ReadsEntries (page : TreePage) (position : TreePage → Except InternalError ℕ) (directory : ℕ)
    (index : ℕ) : Prop :=
  index ≤ page.slots.length ∧ ∀ page', Laid directory page' → page'.entries = page.entries →
    position page' = .ok index

/-- An entry that a page takes is placed on it when the page has the room, holes included, and
only then. -/
lemma placeEntry_spec {position : TreePage → Except InternalError ℕ}
    (hpos : ReadsEntries page position directory index) {entry : Entry}
    (hsize : entry.1.length + entry.2.length ≤ maxEntryBytes) :
    (placeEntry directory position entry page = .ok (.full, page) ∧
      pageSize < directory + page.weight + entryWeight entry) ∨
    ∃ page', placeEntry directory position entry page = .ok (.inserted, page') ∧
      Puts directory index entry page page' := by
  obtain ⟨hindex, hposition⟩ := hpos
  have hdir := h.directoryFits
  have hcheck : checkEntrySize page.id entry.1.length entry.2.length = .ok () :=
    if_neg (not_lt.mpr hsize)
  have hpos₀ := hposition page h rfl
  rcases putEntry_spec h hindex entry with ⟨hput, _⟩ | ⟨page', hput, hputs, _⟩
  · by_cases hroom : page.weight + entryWeight entry ≤ pageSize - directory
    · right
      obtain ⟨page₁, hcompact, hid, hheader, hentries, hlaid, htight⟩ := compact_spec h
      have hpos₁ := hposition page₁ hlaid hentries
      have hlen : page₁.slots.length = page.slots.length := by
        rw [← TreePage.length_entries, hentries, TreePage.length_entries]
      rcases putEntry_spec hlaid (hlen ▸ hindex) entry with ⟨_, hfull⟩ | ⟨page', hput', hputs', _⟩
      · have hover := hfull htight
        rw [TreePage.weight, hentries, ← TreePage.weight] at hover
        omega
      · refine ⟨page', ?_, hputs'.id.trans hid, hputs'.header.trans hheader, ?_, hputs'.laid⟩
        · simp [placeEntry, hcheck, hpos₀, hput, h.compactionMakesRoom, hroom, hcompact, hpos₁,
            hput', bind, Except.bind]
        · rw [hputs'.entries, hentries]
    · left
      refine ⟨?_, by omega⟩
      simp [placeEntry, hcheck, hpos₀, hput, h.compactionMakesRoom, hroom, bind, Except.bind]
  · right
    exact ⟨page', by simp [placeEntry, hcheck, hpos₀, hput, bind, Except.bind], hputs⟩

end BTree

end VaubanDB
