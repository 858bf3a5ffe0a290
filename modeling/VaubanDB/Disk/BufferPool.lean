import VaubanDB.Disk.Page
import VaubanDB.Library.History
import VaubanDB.Library.Machine
import VaubanDB.Types.Value

/-!
The buffer pool (`vauban-storage/src/disk/buffer.rs`): a cache of pages of the data file with a
fixed number of frames and a clock with a second chance.

Every entry point holds the one lock of the pool, so a call is one step; `with_page_mut` gives the
lock back while it waits, and one step is one turn of its loop.  A read or a write of the data file
may fail, which is part of the action.  `PoolWorld.log` is the history of a run.
-/

namespace VaubanDB

/-- A frame of the pool: the page it caches and the count of its pins, below `2^32`. -/
structure Frame where
  /-- The position the page was read from. -/
  id : PageId
  page : Page
  pins : ℕ
  holders : List (ThreadId × ℕ)
  /-- The cached page differs from the file. -/
  dirty : Bool
  /-- A transaction that has not finished changed the page. -/
  inProgress : Bool
  /-- The second chance of the clock. -/
  referenced : Bool
  deriving DecidableEq

namespace Frame

def loaded (id : PageId) (page : Page) (owner : ThreadId) : Frame :=
  ⟨id, page, 1, [(owner, 1)], false, false, true⟩

def addPin (f : Frame) (owner : ThreadId) : Frame :=
  { f with
    pins := f.pins + 1
    holders := if f.holders.any (·.1 = owner) then
        f.holders.map fun h => if h.1 = owner then (h.1, h.2 + 1) else h
      else f.holders ++ [(owner, 1)] }

def removePin (f : Frame) (owner : ThreadId) : Frame :=
  { f with
    pins := f.pins - 1
    holders := (f.holders.map fun h => if h.1 = owner then (h.1, h.2 - 1) else h).filter
      fun h => h.1 ≠ owner || h.2 ≠ 0 }

def pinsOf (f : Frame) (owner : ThreadId) : ℕ :=
  ((f.holders.find? (·.1 = owner)).map Prod.snd).getD 0

/-- The pins a change by `owner` waits for: those of threads that do not wait themselves. -/
def pinsInTheWay (f : Frame) (owner : ThreadId) (waiting : List ThreadId) : ℕ :=
  ((f.holders.filter fun h => h.1 ≠ owner && !waiting.contains h.1).map Prod.snd).sum

end Frame

inductive PoolEvent where
  | pinned (thread : ThreadId) (id : PageId)
  | released (thread : ThreadId) (id : PageId)
  | loaded (id : PageId) (page : Page)
  | changed (id : PageId) (page : Page)
  | marked (id : PageId)
  | observed (thread : ThreadId) (id : PageId) (page : Page)
  /-- The page is written to the data file, under this durable number and this flag. -/
  | wrote (id : PageId) (page : Page) (durable : Lsn) (inProgress : Bool)
  /-- A write of the page fails and leaves this behind. -/
  | tore (id : PageId) (image : Image) (page : Page) (durable : Lsn) (inProgress : Bool)
  | evicted (id : PageId)
  deriving DecidableEq

/-- The pool, the data file under it and the durable number of the journal beside it. -/
structure PoolWorld where
  capacity : ℕ
  frames : List Frame
  /-- The frame each page sits in. -/
  byPage : PageId → Option ℕ
  hand : ℕ
  waiting : List ThreadId
  pageCount : ℕ
  file : PageId → Image
  durable : Lsn
  log : List PoolEvent

/-- A call of the pool: it may fail, and an error keeps the state reached so far. -/
abbrev Pool := EStateM InternalError PoolWorld

/-- A page with this number may be written when the journal is durable up to `durable`. -/
def writable (pageLsn durable : Lsn) : Bool := pageLsn = 0 || pageLsn ≤ durable

namespace Pool

/-- The pool after a call, whether it succeeds or fails, with one more event. -/
def emit (e : PoolEvent) : Pool Unit := modify fun w => { w with log := w.log ++ [e] }

def frame (slot : ℕ) : Pool Frame := do
  let w ← get
  match w.frames[slot]? with
  | some f => pure f
  | none =>
    let held := w.frames.length
    throw (.bug s!"buffer pool asked for frame {slot} while it holds {held}")

def setFrame (slot : ℕ) (f : Frame) : Pool Unit :=
  modify fun w => { w with frames := w.frames.set slot f }

/-- `DataFile::read_page`, then the check that the page names its own position. -/
def readPage (id : PageId) (ok : Bool) : Pool Page := do
  let w ← get
  if id ≥ w.pageCount then
    let pages := w.pageCount
    throw (.corruption s!"page {id} is past the end of data file, which holds {pages} pages")
  else if !ok then throw (.io "read")
  else match w.file id with
    | none => throw (.corruption s!"page {id} does not verify")
    | some page =>
      if page.pageId ≠ id then
        let named := page.pageId
        throw (.corruption s!"page at position {id} of data file carries identifier {named}")
      else pure page

/-- `DataFile::write_page`; a write that fails leaves `fault` at the position. -/
def writePage (id : PageId) (page : Page) (inProgress : Bool) (fault : Option Image) :
    Pool Unit := do
  let w ← get
  if id ≥ w.pageCount then
    let pages := w.pageCount
    throw (.bug s!"page {id} is past the end of data file, which holds {pages} pages")
  else match fault with
    | some image => do
        set { w with file := Function.update w.file id image }
        emit (.tore id image page w.durable inProgress)
        throw (.io "write")
    | none => do
        set { w with file := Function.update w.file id (some page) }
        emit (.wrote id page w.durable inProgress)

/-- Writes the page of `slot` when it is dirty and the rules allow it; answers whether it was
written. -/
def writeIfNeeded (slot : ℕ) (fault : Option Image) : Pool Bool := do
  let f ← frame slot
  let w ← get
  if !f.dirty || f.inProgress then return false
  else if !writable f.page.lsn w.durable then
    let id := f.id
    let lsn := f.page.lsn
    let durable := w.durable
    throw (.bug (s!"page {id} carries LSN {lsn} and the journal is durable up to {durable}; " ++
      "writing the page would put it ahead of the log"))
  else
    writePage f.id f.page f.inProgress fault
    setFrame slot { f with dirty := false }
    return true

/-- The turns of the hand of `choose_victim`, `turns` of them at most. -/
def victimLoop : ℕ → Pool (Option ℕ)
  | 0 => return none
  | turns + 1 => do
      let w ← get
      let slot := w.hand
      set { w with hand := (slot + 1) % w.frames.length }
      let f ← frame slot
      if f.pins > 0 then victimLoop turns
      else if f.dirty && (f.inProgress || !writable f.page.lsn w.durable) then victimLoop turns
      else if f.referenced then do
        setFrame slot { f with referenced := false }
        victimLoop turns
      else return some slot

/-- The frame the clock evicts to make room for `wanted`: two turns of the hand at most. -/
def chooseVictim (wanted : PageId) : Pool ℕ := do
  let w ← get
  match ← victimLoop (2 * w.frames.length) with
  | some slot => pure slot
  | none => do
      let w ← get
      let held := w.frames.length
      let pinned := w.frames.countP fun f => f.pins > 0
      let running := w.frames.countP fun f => f.pins = 0 && f.dirty && f.inProgress
      let ahead := w.frames.countP fun f =>
        f.pins = 0 && f.dirty && !f.inProgress && !writable f.page.lsn w.durable
      throw (.bug (s!"buffer pool of {held} frames is exhausted: page {wanted} needs one and no " ++
        s!"frame may be freed (pinned: {pinned}, dirty and in progress: {running}, dirty and " ++
        s!"ahead of the durable LSN: {ahead})"))

/-- The frame a page just read goes to: a new one, or the one the clock picks, written first. -/
def placeLoaded (owner : ThreadId) (id : PageId) (page : Page) (fault : Option Image) :
    Pool ℕ := do
  let w ← get
  if w.frames.length < w.capacity then
    set { w with frames := w.frames ++ [Frame.loaded id page owner] }
    return w.frames.length
  else
    let victim ← chooseVictim id
    let _ ← writeIfNeeded victim fault
    let evicted ← frame victim
    setFrame victim (Frame.loaded id page owner)
    modify fun w => { w with byPage := Function.update w.byPage evicted.id none }
    emit (.evicted evicted.id)
    return victim

/-- `BufferPool::pin`; `readOk` and `fault` say how the file behaves. -/
def pin (owner : ThreadId) (id : PageId) (readOk : Bool) (fault : Option Image) : Pool Unit := do
  let w ← get
  match w.byPage id with
  | some slot => do
      let f ← frame slot
      setFrame slot { f.addPin owner with referenced := true }
  | none => do
      let page ← readPage id readOk
      let slot ← placeLoaded owner id page fault
      modify fun w => { w with byPage := Function.update w.byPage id (some slot) }
      emit (.loaded id page)
  emit (.pinned owner id)

def markDirty (id : PageId) (recLsn : Lsn) : Pool Unit := do
  let w ← get
  match w.byPage id with
  | none => throw (.bug s!"page {id} is not in the buffer pool; mark_dirty needs it pinned")
  | some slot => do
      let f ← frame slot
      if f.pins = 0 then
        throw (.bug s!"page {id} is in the buffer pool but not pinned; mark_dirty needs a pin")
      else
        let page := if recLsn > f.page.lsn then { f.page with lsn := recLsn } else f.page
        setFrame slot { f with dirty := true, page := page }
        emit (.changed id page)
        emit (.marked id)

def setInProgress (id : PageId) (inProgress : Bool) : Pool Unit := do
  let w ← get
  match w.byPage id with
  | some slot => do
      let f ← frame slot
      setFrame slot { f with inProgress := inProgress }
  | none =>
    if inProgress then
      throw (.bug s!"page {id} is not in the buffer pool; set_in_progress(true) needs it pinned")
    else return ()

def flush (id : PageId) (fault : Option Image) : Pool Unit := do
  let w ← get
  match w.byPage id with
  | none => return ()
  | some slot => do
      let _ ← writeIfNeeded slot fault

/-- `BufferPool::flush_all`; the write of frame `fault.1`, if any, fails. -/
def flushAll (fault : Option (ℕ × Image)) : Pool Unit := do
  let w ← get
  (List.range w.frames.length).forM fun slot => do
    let _ ← writeIfNeeded slot (fault.bind fun x => if x.1 = slot then some x.2 else none)

def slot (id : PageId) : Pool ℕ := do
  let w ← get
  match w.byPage id with
  | some slot => pure slot
  | none => throw (.bug s!"page {id} is pinned but the buffer pool no longer holds it")

def withPage (owner : ThreadId) (id : PageId) : Pool Page := do
  let slot ← slot id
  let f ← frame slot
  emit (.observed owner id f.page)
  return f.page

/-- Takes the calling thread out of the waiting list. -/
def stopWaiting (owner : ThreadId) : Pool Unit :=
  modify fun w => { w with waiting := w.waiting.filter (· ≠ owner) }

/-- One turn of the loop of `PinGuard::with_page_mut`: it changes the page, refuses, or sleeps. -/
def withPageMut (owner : ThreadId) (id : PageId) (change : Page → Page) : Pool Unit := do
  let w ← get
  match w.byPage id with
  | none => do
      stopWaiting owner
      throw (.bug s!"page {id} is pinned but the buffer pool no longer holds it")
  | some slot => do
      let f ← frame slot
      let mine := f.pinsOf owner
      if mine > 1 then
        stopWaiting owner
        throw (.bug (s!"page {id} carries {mine} pins of the calling thread; changing it asks " ++
          "for one pin of that thread, since the others would not be released while it waits"))
      else if f.pinsInTheWay owner w.waiting = 0 then
        stopWaiting owner
        setFrame slot { f with page := change f.page }
        emit (.changed id (change f.page))
      else if !w.waiting.contains owner then
        modify fun w => { w with waiting := w.waiting ++ [owner] }
      else return ()

def unpin (owner : ThreadId) (id : PageId) : Pool Unit := do
  let w ← get
  match w.byPage id with
  | none => emit (.released owner id)
  | some slot =>
    match w.frames[slot]? with
    | none => emit (.released owner id)
    | some f => do
        setFrame slot (f.removePin owner)
        emit (.released owner id)

end Pool

/-! ### What a history says about a page -/

def PoolEvent.page : PoolEvent → PageId
  | .pinned _ id | .released _ id | .loaded id _ | .changed id _ | .marked id | .observed _ id _
  | .wrote id .. | .tore id .. | .evicted id => id

/-- A page seen from outside the pool, whatever frame it sits in. -/
structure PageView where
  guards : List ThreadId
  /-- What was last written to it through the pool, or read from the file since it was loaded. -/
  content : Option Page
  /-- It was marked dirty and has not been written since. -/
  owed : Bool
  /-- What was last written at its position of the file; nothing when that is as at the start. -/
  image : Option Image

namespace PageView

def untouched : PageView := ⟨[], none, false, none⟩

def step (v : PageView) : PoolEvent → PageView
  | .pinned t _ => { v with guards := t :: v.guards }
  | .released t _ => { v with guards := v.guards.erase t }
  | .loaded _ page => { v with content := some page }
  | .changed _ page => { v with content := some page }
  | .marked _ => { v with owed := true }
  | .observed .. => v
  | .wrote _ page _ _ => { v with owed := false, image := some (some page) }
  | .tore _ image .. => { v with image := some image }
  | .evicted _ => { v with content := none }

end PageView

/-- What the events about a page make of it. -/
def viewOf (log : List PoolEvent) (id : PageId) : PageView :=
  (log.filter fun e => e.page = id).foldl PageView.step .untouched

inductive PoolAction where
  | pin (t : ThreadId) (id : PageId) (readOk : Bool) (fault : Option Image)
  | unpin (t : ThreadId) (id : PageId)
  | withPage (t : ThreadId) (id : PageId)
  | withPageMut (t : ThreadId) (id : PageId) (change : Page → Page)
  | markDirty (id : PageId) (recLsn : Lsn)
  | setInProgress (id : PageId) (inProgress : Bool)
  | flush (id : PageId) (fault : Option Image)
  | flushAll (fault : Option (ℕ × Image))
  /-- The journal is synced further. -/
  | sync (lsn : Lsn)

namespace PoolWorld

def after {α : Type} (w : PoolWorld) (call : Pool α) : PoolWorld := (call w).state

/-- What an action makes of the pool; a thread uses a page through a guard it holds. -/
def exec (w : PoolWorld) : PoolAction → Option PoolWorld
  | .pin t id readOk fault => some (w.after (Pool.pin t id readOk fault))
  | .unpin t id =>
    if t ∈ (viewOf w.log id).guards then some (w.after (Pool.unpin t id)) else none
  | .withPage t id =>
    if t ∈ (viewOf w.log id).guards then some (w.after (Pool.withPage t id)) else none
  | .withPageMut t id change =>
    if t ∈ (viewOf w.log id).guards then some (w.after (Pool.withPageMut t id change)) else none
  | .markDirty id recLsn => some (w.after (Pool.markDirty id recLsn))
  | .setInProgress id b => some (w.after (Pool.setInProgress id b))
  | .flush id fault => some (w.after (Pool.flush id fault))
  | .flushAll fault => some (w.after (Pool.flushAll fault))
  | .sync lsn => some { w with durable := max w.durable lsn }

/-- The pool of `capacity` frames, just built over a data file. -/
def opened (capacity pageCount : ℕ) (file : PageId → Image) (durable : Lsn) : PoolWorld :=
  ⟨capacity, [], fun _ => none, 0, [], pageCount, file, durable, []⟩

end PoolWorld

def bufferPool (capacity pageCount : ℕ) (file : PageId → Image) (durable : Lsn) :
    Machine PoolWorld PoolAction where
  init := PoolWorld.opened capacity pageCount file durable
  exec := PoolWorld.exec

end VaubanDB
