import Mathlib.Tactic

/-!
Pages and their numbers (`vauban-storage/src/disk/page.rs`).

A page is its header and the bytes after it, without the magic, the version, the flags and the
checksum, which `Page::seal` makes right and `Page::verify` checks.  What the data file holds at a
position is therefore an `Image`: a sealed page, or bytes that do not verify.
-/

namespace VaubanDB

/-- The position of a page in the data file. -/
abbrev PageId := ℕ

/-- The number of a journal record, from 1; a page with number 0 was never logged. -/
abbrev Lsn := ℕ

abbrev ThreadId := ℕ

/-- The largest number a `u64` holds; as the number of a page it says that there is none. -/
abbrev maxU64 : ℕ := 2 ^ 64 - 1

def pageSize : ℕ := 8192

def headerSize : ℕ := 32

/-- The kind of a page, byte 5 of its header. -/
inductive PageKind where
  | free
  | heap
  | overflow
  | btreeInternal
  | btreeLeaf
  | metadata
  | rowIdDir
  deriving DecidableEq, Repr

/-- A page: its header, then the bytes from `headerSize` on. -/
structure Page where
  kind : PageKind
  pageId : PageId
  lsn : Lsn
  slotCount : ℕ
  /-- The first free byte after the header and the directory of the kind. -/
  lower : ℕ
  body : List UInt8
  deriving DecidableEq

def Page.empty (kind : PageKind) (id : PageId) : Page where
  kind := kind
  pageId := id
  lsn := 0
  slotCount := 0
  lower := headerSize
  body := List.replicate (pageSize - headerSize) 0

/-- What the data file holds at one position: a sealed page, or bytes that do not verify. -/
abbrev Image := Option Page

end VaubanDB
