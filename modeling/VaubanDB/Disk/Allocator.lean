import VaubanDB.Disk.Control
import VaubanDB.Library.History
import VaubanDB.Library.Machine
import VaubanDB.Library.Threaded

/-!
The page allocator (`vauban-storage/src/disk/alloc.rs`) and the crashes it must survive.

The free pages form a list threaded through the pages themselves, whose head the control file names.
An allocation takes the head, or grows the data file; a free writes the page as the new head, syncs
the data file, and only then writes the control file.  One of them runs at a time, one write at a
step; between two steps the pool is used, and the process may stop.

A crash loses the pool.  What was written to the data file and not synced may be lost, torn or
there, page by page; the control file is synced by each write of it.
-/

namespace VaubanDB

open Function

/-! ### Free pages -/

def nextFree (page : Page) : Option PageId := Control.pageField (leField page.body 0 8)

/-- Writes the link of a free page in the eight bytes after the header. -/
def setNextFree (page : Page) (next : Option PageId) : Page :=
  { page with body := leBytes 8 (next.getD maxU64) ++ page.body.drop 8 }

/-- `lower` of a free page: the first byte after the header and the link. -/
def freePageLower : ℕ := headerSize + 8

/-- The page `grow_by_one_page` writes at the end of the data file. -/
def grownPage (id : PageId) : Page :=
  setNextFree { Page.empty .free id with lower := freePageLower } none

def freedPage (page : Page) (head : Option PageId) (last : Lsn) : Page :=
  let page := setNextFree { page with kind := .free, slotCount := 0, lower := freePageLower } head
  if last > page.lsn then { page with lsn := last } else page

lemma nextFree_freedPage {page : Page} {head : Option PageId} {last : Lsn}
    (h : head.getD maxU64 ≤ maxU64) (hne : head ≠ some maxU64) :
    nextFree (freedPage page head last) = head := by
  have hfield := leField_append [] (page.body.drop 8)
    (show head.getD maxU64 < 256 ^ 8 from lt_of_le_of_lt h (by norm_num))
  simp only [List.nil_append, List.length_nil] at hfield
  simp only [freedPage]
  split <;> rw [nextFree, setNextFree, hfield, Control.pageField_getD hne]

@[simp] lemma freedPage_kind (page : Page) (head : Option PageId) (last : Lsn) :
    (freedPage page head last).kind = .free := by
  simp only [freedPage]
  split <;> rfl

/-! ### The data file -/

/-- The data file, and what of it a crash may take away. -/
structure DataFile where
  pages : PageId → Image
  len : ℕ
  /-- The pages written since the last sync. -/
  unsynced : List PageId
  syncedLen : ℕ

namespace DataFile

def empty : DataFile := ⟨fun _ => none, 0, [], 0⟩

def read (d : DataFile) (id : PageId) : Image := if id < d.len then d.pages id else none

def write (d : DataFile) (id : PageId) (page : Page) : DataFile :=
  { d with pages := update d.pages id (some page), unsynced := id :: d.unsynced }

/-- `DataFile::extend_to`: the new bytes are zeros, which are not a page. -/
def extendTo (d : DataFile) (len : ℕ) : DataFile :=
  { d with pages := fun id => if id < d.len then d.pages id else none, len := len }

def sync (d : DataFile) : DataFile := { d with unsynced := [], syncedLen := d.len }

/-- What a crash leaves: pages not synced as `torn` says, or as written, and `len` pages. -/
def crash (d : DataFile) (torn : List (PageId × Image)) (len : ℕ) : DataFile where
  pages := fun id => if id ∈ d.unsynced then
      ((torn.find? (·.1 = id)).map Prod.snd).getD (d.pages id)
    else d.pages id
  len := len
  unsynced := []
  syncedLen := len

end DataFile

/-! ### The steps -/

/-- Where the allocation or the free under way stands. -/
inductive AllocPhase where
  | idle
  | detached (head : PageId) (next : Option PageId)
  /-- The free list is empty: the data file is about to grow. -/
  | growing
  /-- The file has one page more. -/
  | extended
  /-- The new page is written. -/
  | grown
  /-- The control file is written; the page is about to be handed out. -/
  | handing (id : PageId) (updated : Control)
  | freeing (id : PageId)
  /-- The page is written to the data file. -/
  | flushed (id : PageId)
  /-- The data file is synced. -/
  | synced (id : PageId)
  /-- The control file names the page as the head. -/
  | linking (updated : Control)
  deriving DecidableEq

/-- The page a free under way has taken from its owner. -/
def AllocPhase.taken : AllocPhase → Option PageId
  | .freeing id | .flushed id | .synced id => some id
  | _ => none

inductive AllocEvent where
  | handedOut (id : PageId)
  /-- The control file lists the page as free. -/
  | freed (id : PageId)
  deriving DecidableEq

/-- The pages in use: handed out and not freed since. -/
def inUse (log : List AllocEvent) : List PageId :=
  log.foldl (fun used e => match e with
    | .handedOut id => id :: used
    | .freed id => used.filter (· ≠ id)) []

/-- The files, the pool and the allocator. -/
structure AllocWorld where
  data : DataFile
  ctl : List UInt8
  cached : PageId → Option Page
  /-- The cached pages that differ from the data file. -/
  dirty : PageId → Bool
  /-- The control block in memory. -/
  control : Control
  phase : AllocPhase
  log : List AllocEvent

inductive AllocAction where
  | allocate
  | extend
  | writeGrown
  /-- The allocation or the free writes the control file. -/
  | writeControl
  /-- The allocation or the free returns. -/
  | publish
  /-- `free` is called for a page in use, when the last record of the journal is `last`. -/
  | free (id : PageId) (last : Lsn)
  | flush
  | syncData
  | ownerWrites (id : PageId) (page : Page)
  | load (id : PageId)
  | writeBack (id : PageId)
  /-- The pool drops a clean page. -/
  | evict (id : PageId)
  | sync
  /-- Another user of the control block moves the counters that are not the allocator's. -/
  | counters (updated : Control)
  /-- The process stops, the files are left like this, and the instance is reopened. -/
  | crash (torn : List (PageId × Image)) (len : ℕ)

namespace AllocWorld

def created : AllocWorld :=
  ⟨.empty, Control.fresh.toBytes, fun _ => none, fun _ => false, .fresh, .idle, []⟩

/-- The page a pin hands out: the cached one, or the one of the data file if it names its own
position. -/
def pin (w : AllocWorld) (id : PageId) : Option Page :=
  match w.cached id with
  | some page => some page
  | none => match w.data.read id with
      | some page => if page.pageId = id then some page else none
      | none => none

def cache (w : AllocWorld) (id : PageId) (page : Page) : AllocWorld :=
  { w with cached := update w.cached id (some page) }

/-- `allocate`, up to the write of the control file or the growth of the data file. -/
def allocate (w : AllocWorld) : AllocWorld :=
  match w.control.freeHead with
  | some head => match w.pin head with
      | none => w
      | some page =>
        if page.kind = .free then
          { w.cache head page with phase := .detached head (nextFree page) }
        else w.cache head page
  | none => if w.control.nextPageId = maxU64 then w else { w with phase := .growing }

def writeControl (w : AllocWorld) : Option AllocWorld :=
  match w.phase with
  | .detached head next =>
    let c := { w.control with freeHead := next }
    some { w with ctl := c.toBytes, phase := .handing head c }
  | .grown =>
    let id := w.control.nextPageId
    let c := { w.control with nextPageId := id + 1 }
    some { w with ctl := c.toBytes, phase := .handing id c }
  | .synced id =>
    let c := { w.control with freeHead := some id }
    some { w with ctl := c.toBytes, phase := .linking c, log := w.log ++ [.freed id] }
  | _ => none

/-- `free`, up to the change of the page in the pool. -/
def free (w : AllocWorld) (id : PageId) (last : Lsn) : AllocWorld :=
  if id ≥ w.control.nextPageId then w
  else match w.pin id with
    | none => w
    | some page =>
      { w.cache id (freedPage page w.control.freeHead last) with
        dirty := update w.dirty id true
        phase := .freeing id }

/-- The pool writes the page to the data file when it is dirty. -/
def writeBack (w : AllocWorld) (id : PageId) : AllocWorld :=
  match w.cached id with
  | some page => if w.dirty id then
      { w with data := w.data.write id page, dirty := update w.dirty id false }
    else w
  | none => w

/-- `count_the_pages_of_data`: the pages past the counter are counted as handed out. -/
def countPages (len : ℕ) (c : Control) : Control :=
  if len ≤ c.nextPageId then c else { c with nextPageId := len }

/-- The instance is reopened over the files a crash leaves. -/
def reopen (w : AllocWorld) (torn : List (PageId × Image)) (len : ℕ) : Option AllocWorld :=
  match Control.fromBytes w.ctl with
  | .error _ => none
  | .ok c => some {
      data := w.data.crash torn len
      ctl := if len ≤ c.nextPageId then w.ctl else (countPages len c).toBytes
      cached := fun _ => none
      dirty := fun _ => false
      control := countPages len c
      phase := .idle
      log := w.log }

def exec (w : AllocWorld) : AllocAction → Option AllocWorld
  | .allocate => if w.phase = .idle then some w.allocate else none
  | .extend =>
    if w.phase = .growing then
      if w.control.nextPageId + 1 < w.data.len then some { w with phase := .idle }
      else some { w with data := w.data.extendTo (w.control.nextPageId + 1), phase := .extended }
    else none
  | .writeGrown =>
    if w.phase = .extended then
      let id := w.control.nextPageId
      some { w with data := w.data.write id (grownPage id), phase := .grown }
    else none
  | .writeControl => w.writeControl
  | .publish => match w.phase with
      | .handing id c =>
        some { w with control := c, phase := .idle, log := w.log ++ [.handedOut id] }
      | .linking c => some { w with control := c, phase := .idle }
      | _ => none
  | .free id last => if w.phase = .idle ∧ id ∈ inUse w.log then some (w.free id last) else none
  | .flush => match w.phase with
      | .freeing id => some { w.writeBack id with phase := .flushed id }
      | _ => none
  | .syncData => match w.phase with
      | .flushed id => some { w with data := w.data.sync, phase := .synced id }
      | _ => none
  | .ownerWrites id page =>
    if id ∈ inUse w.log ∧ w.phase.taken ≠ some id ∧ id < w.data.len then
      some { w.cache id page with dirty := update w.dirty id true }
    else none
  | .load id => (w.pin id).map (w.cache id)
  | .writeBack id => some (w.writeBack id)
  | .evict id =>
    if w.dirty id then none else some { w with cached := update w.cached id none }
  | .sync => some { w with data := w.data.sync }
  | .counters c =>
    if w.phase = .idle ∧ c.nextPageId = w.control.nextPageId ∧ c.freeHead = w.control.freeHead ∧
        (∀ n ∈ c.words, n ≤ maxU64) ∧ c.metaRoot ≠ some maxU64 then
      some { w with control := c, ctl := c.toBytes }
    else none
  | .crash torn len =>
    if w.data.syncedLen ≤ len ∧ len ≤ w.data.len then w.reopen torn len else none

end AllocWorld

def allocator : Machine AllocWorld AllocAction where
  init := .created
  exec := AllocWorld.exec

end VaubanDB
