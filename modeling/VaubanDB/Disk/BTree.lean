import VaubanDB.Disk.BTreeOrder

/-!
The B+tree (`vauban-storage/src/disk/btree.rs`, the tree layer).

A tree is a root page and an order.  `insert`, `delete` and `replace` write copies of the pages in a
`PageSet`, which reach the pool together when the call succeeds and are dropped when it fails; a
page allocated by a call that fails later stays handed out.  The pool is a function from numbers to
pages, the allocator a list of free pages and a counter.  The journal of the writes is left out.
-/

namespace VaubanDB

namespace BTree

/-! ### The pages of the instance, and the pages a call writes -/

/-- The pages of the instance, and its allocator. -/
structure Pages where
  page : PageId → TreePage
  /-- The pages of the free list, its head first. -/
  free : List PageId
  next : PageId

/-- The pages one call of a tree writes, over the pages of the instance. -/
structure PageSet where
  pages : Pages
  /-- The copies, the latest one of a page before the others. -/
  staged : List (PageId × TreePage)

namespace PageSet

def new (pages : Pages) : PageSet := ⟨pages, []⟩

def view (ps : PageSet) (id : PageId) : TreePage :=
  match ps.staged.find? (·.1 = id) with
  | some staged => staged.2
  | none => ps.pages.page id

def put (ps : PageSet) (id : PageId) (page : TreePage) : PageSet :=
  { ps with staged := (id, page) :: ps.staged }

/-- The pages of the instance once the set is put in the pool. -/
def commit (ps : PageSet) : Pages := { ps.pages with page := ps.view }

end PageSet

abbrev SetM (α : Type) := EStateM InternalError PageSet α

def readPage {α : Type} (id : PageId) (read : TreePage → Except InternalError α) : SetM α := do
  let ps ← get
  read (ps.view id)

/-- Applies `change` to the copy of a page. -/
def writePage {α : Type} (id : PageId)
    (change : TreePage → Except InternalError (α × TreePage)) : SetM α := do
  let ps ← get
  let (answer, page) ← (change (ps.view id) : Except InternalError (α × TreePage))
  set (ps.put id page)
  return answer

/-- Hands out a page: the head of the free list, or a page the file grows by. -/
def allocate : SetM PageId := do
  let ps ← get
  match ps.pages.free with
  | head :: rest =>
    set { ps with pages := { ps.pages with free := rest } }
    return head
  | [] =>
    let id := ps.pages.next
    if id = maxU64 then
      throw (.bug s!"the instance has handed out {id} pages")
    else
      set { ps with pages := { ps.pages with next := id + 1 } }
      return id

/-! ### The tree -/

/-- A tree: its root, its order, and the pages of the instance it lives in. -/
structure Tree where
  order : KeyOrder
  root : PageId
  pages : Pages

/-- The largest entry a tree takes, a quarter of a leaf. -/
def maxInsertBytes : ℕ := (pageSize - leafDirectory) / 4 - slotSize - entryOverhead

/-- The largest number of internal pages a descent walks through. -/
def maxDepth : ℕ := 64

/-- The outcome of a split: the page that was allocated, and the key in front of it. -/
structure Split where
  right : PageId
  separator : List UInt8
  deriving DecidableEq, Repr

/-- A child pointer out of the payload of an internal entry. -/
def childOf (id : PageId) (payload : List UInt8) : Except InternalError PageId :=
  let count := payload.length
  if count ≠ childBytes then
    .error (.corruption
      s!"internal page {id} holds a child pointer of {count} bytes, expected {childBytes}")
  else .ok (leNat payload)

def internalChild (page : TreePage) (index : ℕ) : Except InternalError PageId := do
  page.expectKind .btreeInternal
  if index = 0 then .ok page.leftmostChild
  else
    let entry ← page.entryAt internalDirectory (index - 1)
    childOf page.id entry.2

def placeInLeaf (order : KeyOrder) (probe : Probe) (bytes : List UInt8) (page : TreePage) :
    Except InternalError (Put × TreePage) :=
  placeEntry leafDirectory (leafPosition order probe) (bytes, []) page

def placeInInternal (order : KeyOrder) (probe : Probe) (bytes : List UInt8) (child : PageId)
    (page : TreePage) : Except InternalError (Put × TreePage) :=
  placeEntry internalDirectory (internalPosition order probe) (bytes, leBytes childBytes child) page

/-- An entry at the probe belongs to the right half of a split of this separator. -/
def goesRight (order : KeyOrder) (separator : List UInt8) (probe : Probe) :
    Except InternalError Bool := do
  let entry ← decodeEntryKey separator
  let ordering ← compareEntry order entry probe
  .ok (ordering ≠ .gt)

/-- Refuses a half of a split that has no room for what caused the split. -/
def checkHalf (directory : ℕ) (id : PageId) (right : Bool) (half want : ℕ) :
    Except InternalError Unit :=
  if half + want > pageSize - directory then
    let side := if right then "right" else "left"
    .error (.bug (s!"the {side} half of the split of page {id} would hold {half} bytes and has " ++
      s!"no room for the {want} of the entry that caused the split"))
  else .ok ()

/-- Checks, before the split, that the half of the leaf the entry belongs to will have room. -/
def leafSplitFits (order : KeyOrder) (probe : Probe) (bytes : List UInt8) (page : TreePage) :
    Except InternalError Unit := do
  let entries ← page.ownedEntries leafDirectory
  if entries.length < 2 then .ok ()
  else
    let weights := entries.map entryWeight
    match cutBetweenKeys entries (balancePoint weights) with
    | none => .ok ()
    | some middle =>
      let separator := (entries.getD middle ([], [])).1
      let right ← goesRight order separator probe
      let half := if right then (weights.drop middle).sum else (weights.take middle).sum
      checkHalf leafDirectory page.id right half (entryWeight (bytes, []))

/-- The same check before the split of an internal page: the promoted key leaves both halves. -/
def internalSplitFits (order : KeyOrder) (probe : Probe) (bytes : List UInt8) (page : TreePage) :
    Except InternalError Unit := do
  let entries ← page.ownedEntries internalDirectory
  if entries.length < 3 then .ok ()
  else
    let weights := entries.map entryWeight
    match keyToPromote entries (min (balancePoint weights) (entries.length - 2)) with
    | none => .ok ()
    | some promoted =>
      let separator := (entries.getD promoted ([], [])).1
      let right ← goesRight order separator probe
      let half := if right then (weights.drop (promoted + 1)).sum
        else (weights.take promoted).sum
      checkHalf internalDirectory page.id right half
        (slotSize + entryOverhead + bytes.length + childBytes)

def readLeafToSplit (page : TreePage) :
    Except InternalError (List Entry × Option PageId) := do
  page.expectKind .btreeLeaf
  let entries ← page.ownedEntries leafDirectory
  .ok (entries, page.leafNext)

def splitLeaf (left : PageId) : SetM Split := do
  let (entries, next) ← readPage left readLeafToSplit
  let count := entries.length
  if count < 2 then
    throw (.bug s!"leaf {left} holds {count} entries; a split asks for at least 2")
  else
    match cutBetweenKeys entries (balancePoint (entries.map entryWeight)) with
    | none => throw (.bug s!"leaf {left} holds {count} entries that carry one key")
    | some middle =>
      let separator := (entries.getD middle ([], [])).1
      let right ← allocate
      writePage right fun page => do
        let page := (page.initLeaf.setLeafPrev (some left)).setLeafNext next
        let page ← page.fill leafDirectory (entries.drop middle) right
        .ok ((), page)
      writePage left fun page => do
        let page := page.clearEntries.setLeafNext (some right)
        let page ← page.fill leafDirectory (entries.take middle) left
        .ok ((), page)
      match next with
      | none => return ⟨right, separator⟩
      | some far =>
        writePage far fun page => do
          page.expectKind .btreeLeaf
          .ok ((), page.setLeafPrev (some right))
        return ⟨right, separator⟩

def readInternalToSplit (page : TreePage) : Except InternalError (List Entry × PageId) := do
  page.expectKind .btreeInternal
  let entries ← page.ownedEntries internalDirectory
  .ok (entries, page.leftmostChild)

/-- Splits the internal page `left` in two; the promoted key leaves both pages. -/
def splitInternal (left : PageId) : SetM Split := do
  let (entries, leftmost) ← readPage left readInternalToSplit
  let count := entries.length
  if count < 3 then
    throw (.bug s!"internal page {left} holds {count} keys; a split asks for at least 3")
  else
    let balanced := min (balancePoint (entries.map entryWeight)) (count - 2)
    match keyToPromote entries balanced with
    | none =>
      throw (.bug (s!"internal page {left} holds {count} keys, none of which differs from " ++
        "both of its neighbours"))
    | some promoted =>
      let (separator, payload) := entries.getD promoted ([], [])
      let rightLeftmost ← (childOf left payload : Except InternalError PageId)
      let right ← allocate
      writePage right fun page => do
        let page ← (page.initInternal rightLeftmost).fill internalDirectory
          (entries.drop (promoted + 1)) right
        .ok ((), page)
      writePage left fun page => do
        let page : TreePage := { page.clearEntries with header := .internal leftmost }
        let page ← page.fill internalDirectory (entries.take promoted) left
        .ok ((), page)
      return ⟨right, separator⟩

/-- Refuses a page of another kind, then changes it. -/
def onKind {α : Type} (kind : PageKind) (change : TreePage → Except InternalError α)
    (page : TreePage) : Except InternalError α := do
  page.expectKind kind
  change page

/-- Puts an entry in a leaf, splitting it when it has no room; answers the split. -/
def putInLeaf (order : KeyOrder) (leaf : PageId) (bytes : List UInt8) (probe : Probe) :
    SetM (Option Split) := do
  let put ← writePage leaf (onKind .btreeLeaf (placeInLeaf order probe bytes))
  if put = .inserted then return none
  else
    readPage leaf (leafSplitFits order probe bytes)
    let split ← splitLeaf leaf
    let right ← (goesRight order split.separator probe : Except InternalError Bool)
    let target := if right then split.right else leaf
    let put ← writePage target (placeInLeaf order probe bytes)
    if put = .full then
      throw (.bug s!"leaf {target}, a half of the split of leaf {leaf}, has no room")
    else return some split

/-- Records a split in the parent of the page that split, splitting it in turn if need be. -/
def putInInternal (order : KeyOrder) (parent : PageId) (split : Split) :
    SetM (Option Split) := do
  let probe ← (probeOf split.separator : Except InternalError Probe)
  let put ← writePage parent
    (onKind .btreeInternal (placeInInternal order probe split.separator split.right))
  if put = .inserted then return none
  else
    readPage parent (internalSplitFits order probe split.separator)
    let higher ← splitInternal parent
    let right ← (goesRight order higher.separator probe : Except InternalError Bool)
    let target := if right then higher.right else parent
    let put ← writePage target (placeInInternal order probe split.separator split.right)
    if put = .full then
      throw (.bug s!"internal page {target}, a half of the split of page {parent}, has no room")
    else return some higher

/-- Writes a new root of one separator and two children. -/
def growRoot (old : PageId) (split : Split) : SetM PageId := do
  let root ← allocate
  writePage root fun page => do
    let page := page.initInternal old
    checkEntrySize root split.separator.length childBytes
    let (put, page) ← page.putEntry internalDirectory 0
      (split.separator, leBytes childBytes split.right)
    if put = .full then
      .error (.bug s!"the fresh root {root} has no room for the separator of the split of {old}")
    else .ok ((), page)
  return root

/-- Records a split in the pages of a descent, the nearest first; answers a new root. -/
def recordSplit (order : KeyOrder) (root : PageId) : List PageId → Split → SetM (Option PageId)
  | [], done => do
      let root ← growRoot root done
      return some root
  | parent :: path, done => do
      let split ← putInInternal order parent done
      match split with
      | none => return none
      | some higher => recordSplit order root path higher

/-! ### Descents and walks -/

/-- The child of a page a descent goes to, none for a leaf. -/
def descendStep (order : KeyOrder) (root : PageId) (probe : Probe) (node : PageId)
    (page : TreePage) : Except InternalError (Option PageId) :=
  match page.kind with
  | .btreeLeaf => .ok none
  | .btreeInternal => do
      let index ← internalPosition order probe page
      let child ← internalChild page index
      .ok (some child)
  | _ => .error (.corruption s!"page {node} of the B+tree rooted at {root} is not a page of a tree")

/-- The loop of `descend`; more than `maxDepth` internal pages are refused. -/
def descendLoop (order : KeyOrder) (page : PageId → TreePage) (root : PageId) (probe : Probe) :
    ℕ → PageId → List PageId → Except InternalError (PageId × List PageId)
  | 0, _, _ => .error (.corruption s!"the descent of the B+tree rooted at {root} is too long")
  | fuel + 1, node, path => do
      match ← descendStep order root probe node (page node) with
      | none => .ok (node, path)
      | some child =>
        if (path ++ [node]).length > maxDepth then
          .error (.corruption s!"the descent of the B+tree rooted at {root} is too long")
        else descendLoop order page root probe fuel child (path ++ [node])

namespace Tree

variable (t : Tree)

/-- The leaf a probe belongs to, and the internal pages walked through to reach it, the root
first. -/
def descend (probe : Probe) : Except InternalError (PageId × List PageId) :=
  descendLoop t.order t.pages.page t.root probe (maxDepth + 1) t.root []

end Tree

/-- A place in the tree: a leaf and the index of an entry in it. -/
structure Cursor where
  leaf : PageId
  index : ℕ
  deriving DecidableEq, Repr

/-- The walk never ends: the leaves are linked in a circle.  The source would not return. -/
def endless : InternalError := .corruption "the leaves of the tree are linked in a circle"

/-- The loop of `find_first` along the next links. -/
def findFirstLoop (order : KeyOrder) (page : PageId → TreePage) (probe : Probe) :
    ℕ → PageId → Except InternalError (Option Cursor)
  | 0, _ => .error endless
  | fuel + 1, node => do
      (page node).expectKind .btreeLeaf
      let index ← leafPosition order probe (page node)
      if index < (page node).slots.length then .ok (some ⟨node, index⟩)
      else
        match (page node).leafNext with
        | some id => findFirstLoop order page probe fuel id
        | none => .ok none

/-- The entries of one leaf, decoded, with the leaves to its left and to its right. -/
def leafEntries (page : TreePage) :
    Except InternalError (List TreeEntry × Option PageId × Option PageId) := do
  page.expectKind .btreeLeaf
  let entries ← (List.range page.slots.length).mapM fun index => do
    let bytes ← page.entryAt leafDirectory index
    decodeEntryKey bytes.1
  .ok (entries, page.leafPrev, page.leafNext)

/-- The entries before the first one on which `stop` is true, and whether there is one. -/
def takeUntil (stop : TreeEntry → Except InternalError Bool) :
    List TreeEntry → Except InternalError (List TreeEntry × Bool)
  | [] => .ok ([], false)
  | entry :: rest => do
      if ← stop entry then .ok ([], true)
      else
        let (out, stopped) ← takeUntil stop rest
        .ok (entry :: out, stopped)

/-- The loop of `collect_forward`: from the entry `skip` of a leaf along the next links. -/
def forwardLoop (page : PageId → TreePage) (stop : TreeEntry → Except InternalError Bool) :
    ℕ → PageId → ℕ → Except InternalError (List TreeEntry)
  | 0, _, _ => .error endless
  | fuel + 1, leaf, skip => do
      let (entries, _, next) ← leafEntries (page leaf)
      let (out, stopped) ← takeUntil stop (entries.drop skip)
      if stopped then .ok out
      else
        match next with
        | some id => do
            let rest ← forwardLoop page stop fuel id 0
            .ok (out ++ rest)
        | none => .ok out

/-- The loop of `collect_backward`: the entries before `upTo`, then the previous leaves. -/
def backwardLoop (page : PageId → TreePage) (stop : TreeEntry → Except InternalError Bool) :
    ℕ → PageId → Option ℕ → Except InternalError (List TreeEntry)
  | 0, _, _ => .error endless
  | fuel + 1, leaf, upTo => do
      let (entries, prev, _) ← leafEntries (page leaf)
      let kept := entries.take (upTo.getD entries.length)
      let (out, stopped) ← takeUntil stop kept.reverse
      if stopped then .ok out
      else
        match prev with
        | some id => do
            let rest ← backwardLoop page stop fuel id none
            .ok (out ++ rest)
        | none => .ok out

/-- The probe a forward walk starts at. -/
def lowerProbe : Bound → Probe
  | .unbounded => ⟨[], .lowest⟩
  | .included values => ⟨values, .lowest⟩
  | .excluded values => ⟨values, .highest⟩

/-- The probe a walk stops at: the first entry the bound leaves out. -/
def upperProbe : Bound → Probe
  | .unbounded => ⟨[], .highest⟩
  | .included values => ⟨values, .highest⟩
  | .excluded values => ⟨values, .lowest⟩

def rangeBounds : KeyRange → Bound × Bound
  | .point values => (.included values, .included values)
  | .between lo hi => (lo, hi)
  | .full => (.unbounded, .unbounded)

def checkBound (order : KeyOrder) (bound : Bound) : Except InternalError Unit :=
  match bound.key? with
  | some values => order.checkPrefix values
  | none => .ok ()

namespace Tree

variable (t : Tree)

/-- The place of the first entry at or past a probe; a leaf is walked over once at most. -/
def findFirst (probe : Probe) : Except InternalError (Option Cursor) := do
  let (leaf, _) ← t.descend probe
  findFirstLoop t.order t.pages.page probe t.pages.next leaf

def lastLeaf : Except InternalError PageId := do
  let (leaf, _) ← t.descend ⟨[], .highest⟩
  .ok leaf

/-- The entries from the first one at or past `low` up to the last one below `high`. -/
def collectForward (low high : Probe) : Except InternalError (List TreeEntry) := do
  match ← t.findFirst low with
  | none => .ok []
  | some cursor =>
    forwardLoop t.pages.page (fun entry => do
      let ordering ← compareEntry t.order entry high
      .ok (ordering ≠ .lt)) t.pages.next cursor.leaf cursor.index

/-- The same entries, read from the last one to the first. -/
def collectBackward (low high : Probe) : Except InternalError (List TreeEntry) := do
  let stop := fun entry => do
    let ordering ← compareEntry t.order entry low
    .ok (ordering = .lt)
  match ← t.findFirst high with
  | some cursor => backwardLoop t.pages.page stop t.pages.next cursor.leaf (some cursor.index)
  | none => do
      let leaf ← t.lastLeaf
      backwardLoop t.pages.page stop t.pages.next leaf none

def seek (range : KeyRange) (direction : Direction) : Except InternalError (List TreeEntry) := do
  let (lo, hi) := rangeBounds range
  checkBound t.order lo
  checkBound t.order hi
  match direction with
  | .forward => t.collectForward (lowerProbe lo) (upperProbe hi)
  | .backward => t.collectBackward (lowerProbe lo) (upperProbe hi)

/-! ### The writes -/

/-- The body of `insert`; answers the new root when a split reached the root. -/
def insertIn (e : TreeEntry) : SetM (Option PageId) := do
  (t.order.checkKey e.1 : Except InternalError Unit)
  let bytes := encodeEntryKey e
  let count := bytes.length
  if count > maxInsertBytes then
    let root := t.root
    throw (.bug (s!"an entry of {count} bytes of encoded key and payload does not go in the " ++
      s!"B+tree rooted at {root}: this build takes {maxInsertBytes}"))
  else
    let (leaf, path) ← (t.descend (probeAt e) : Except InternalError (PageId × List PageId))
    let split ← putInLeaf t.order leaf bytes (probeAt e)
    match split with
    | none => return none
    | some done => recordSplit t.order t.root path.reverse done

/-- Takes the entry at the cursor out of its leaf, if it is the one the probe names. -/
def deleteAt (order : KeyOrder) (probe : Probe) (index : ℕ) (page : TreePage) :
    Except InternalError (Bool × TreePage) := do
  let bytes ← page.entryAt leafDirectory index
  let entry ← decodeEntryKey bytes.1
  let ordering ← compareEntry order entry probe
  if ordering ≠ .eq then .ok (false, page)
  else
    let page ← page.removeSlot leafDirectory index
    .ok (true, page)

def deleteIn (e : TreeEntry) : SetM Bool := do
  (t.order.checkKey e.1 : Except InternalError Unit)
  let cursor ← (t.findFirst (probeAt e) : Except InternalError (Option Cursor))
  match cursor with
  | none => return false
  | some cursor =>
    writePage cursor.leaf (onKind .btreeLeaf (deleteAt t.order (probeAt e) cursor.index))

/-- The body of `replace`; no answer of the insert when the entry was not there. -/
def replaceIn (key : List Value) (old new : List UInt8) : SetM (Option (Option PageId)) := do
  if ← t.deleteIn (key, old) then
    let root ← t.insertIn (key, new)
    return some root
  else return none

/-- The tree after its pages were put in the pool, its root moved. -/
def moved (ps : PageSet) (root : Option PageId) : Tree :=
  { t with pages := ps.commit, root := root.getD t.root }

/-- The tree after a call that failed: the pages it allocated stay handed out. -/
def dropped (ps : PageSet) : Tree := { t with pages := ps.pages }

def insert (e : TreeEntry) : Except InternalError Unit × Tree :=
  match t.insertIn e (.new t.pages) with
  | .ok root ps => (.ok (), t.moved ps root)
  | .error err ps => (.error err, t.dropped ps)

def delete (e : TreeEntry) : Except InternalError Bool × Tree :=
  match t.deleteIn e (.new t.pages) with
  | .ok removed ps => (.ok removed, t.moved ps none)
  | .error err ps => (.error err, t.dropped ps)

def replace (key : List Value) (old new : List UInt8) : Except InternalError Bool × Tree :=
  match t.replaceIn key old new (.new t.pages) with
  | .ok (some root) ps => (.ok true, t.moved ps root)
  | .ok none ps => (.ok false, t.dropped ps)
  | .error err ps => (.error err, t.dropped ps)

end Tree

/-- `BTree::create`: one leaf, allocated here, which is the root. -/
def create (pages : Pages) (columns : List KeyColumn) (types : List TypeInfo) :
    Except InternalError Tree := do
  let order ← KeyOrder.new columns types
  let body : SetM PageId := do
    let root ← allocate
    writePage root fun page => .ok ((), page.initLeaf)
    return root
  match body (.new pages) with
  | .ok root ps => .ok ⟨order, root, ps.commit⟩
  | .error err _ => .error err

end BTree

end VaubanDB
