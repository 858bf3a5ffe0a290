import VaubanDB.Disk.Crc
import VaubanDB.Disk.Page
import VaubanDB.Library.LittleEndian
import VaubanDB.Types.Value

/-!
The control file `vauban.ctl` (`vauban-storage/src/disk/control.rs`): 128 bytes that hold the
counters of the instance, the head of the free list and the head of the catalogue.

A control block is written whole and synced, and read back as it was written
(`Control.fromBytes_toBytes`).
-/

namespace VaubanDB

open List

structure Control where
  nextPageId : PageId
  freeHead : Option PageId
  nextDbId : ℕ
  nextTableId : ℕ
  nextIndexId : ℕ
  nextRowId : ℕ
  latestCheckpointLsn : Lsn
  durableLsn : Lsn
  /-- The head of the chain of catalogue pages. -/
  metaRoot : Option PageId
  deriving DecidableEq

namespace Control

def fresh : Control := ⟨0, none, 1, 1, 1, 1, 0, 0, none⟩

/-- The ASCII bytes of `VAUBANDB`. -/
def magic : List UInt8 := [0x56, 0x41, 0x55, 0x42, 0x41, 0x4E, 0x44, 0x42]

def formatVersion : ℕ := 2

def words (c : Control) : List ℕ :=
  [c.nextPageId, c.freeHead.getD maxU64, c.nextDbId, c.nextTableId, c.nextIndexId, c.nextRowId,
    c.latestCheckpointLsn, c.durableLsn, c.metaRoot.getD maxU64]

/-- The bytes of the file, with this checksum. -/
def layout (c : Control) (checksum : ℕ) : List UInt8 :=
  magic ++ leBytes 4 formatVersion ++ leBytes 4 checksum ++ (leWords c.words ++ replicate 40 0)

/-- The checksum of the bytes of a control file, its own field read as zeros. -/
def checksum (bytes : List UInt8) : ℕ :=
  (crc32 (bytes.take 12 ++ replicate 4 0 ++ bytes.drop 16)).toNat

def toBytes (c : Control) : List UInt8 := c.layout (checksum (c.layout 0))

def pageField (raw : ℕ) : Option PageId := if raw = maxU64 then none else some raw

def fromBytes (bytes : List UInt8) : Except InternalError Control :=
  let len := bytes.length
  let version := leField bytes 8 4
  let stored := leField bytes 12 4
  let computed := checksum bytes
  if len ≠ 128 then
    .error (.corruption s!"control file is {len} bytes, expected 128")
  else if bytes.take 8 ≠ magic then
    .error (.corruption "control file starts with another magic")
  else if version ≠ formatVersion then
    .error (.corruption s!"control file declares format version {version}, this build reads 2")
  else if stored ≠ computed then
    .error (.corruption s!"control file carries checksum {stored}, its bytes hash to {computed}")
  else
    .ok {
      nextPageId := leField bytes 16 8
      freeHead := pageField (leField bytes 24 8)
      nextDbId := leField bytes 32 8
      nextTableId := leField bytes 40 8
      nextIndexId := leField bytes 48 8
      nextRowId := leField bytes 56 8
      latestCheckpointLsn := leField bytes 64 8
      durableLsn := leField bytes 72 8
      metaRoot := pageField (leField bytes 80 8) }

/-- The fields are numbers of 64 bits, and no page has the number that says there is none. -/
structure Fits (c : Control) : Prop where
  words : ∀ n ∈ c.words, n ≤ maxU64
  freeHead : c.freeHead ≠ some maxU64
  metaRoot : c.metaRoot ≠ some maxU64

lemma fits_fresh : fresh.Fits := ⟨by decide, by decide, by decide⟩

variable {c : Control}

lemma Fits.nextPageId (h : c.Fits) : c.nextPageId ≤ maxU64 :=
  h.words _ (by simp [Control.words])

lemma Fits.setFreeHead (h : c.Fits) {head : Option PageId}
    (hhead : ∀ id, head = some id → id < maxU64) :
    ({ c with freeHead := head } : Control).Fits := by
  refine ⟨fun n hn => ?_, fun heq => absurd (hhead _ heq) (lt_irrefl _), h.metaRoot⟩
  by_cases hin : n = head.getD maxU64
  · subst hin
    cases head with
    | none => exact le_rfl
    | some id => exact (hhead id rfl).le
  · refine h.words n ?_
    simp only [Control.words, mem_cons] at hn ⊢
    tauto

lemma Fits.setNextPageId (h : c.Fits) {next : PageId} (hnext : next ≤ maxU64) :
    ({ c with nextPageId := next } : Control).Fits := by
  refine ⟨fun n hn => ?_, h.freeHead, h.metaRoot⟩
  by_cases hin : n = next
  · exact hin ▸ hnext
  · refine h.words n ?_
    simp only [Control.words, mem_cons] at hn ⊢
    tauto

lemma pageField_getD {p : Option PageId} (h : p ≠ some maxU64) : pageField (p.getD maxU64) = p := by
  cases p with
  | none => simp [pageField]
  | some id =>
    have : id ≠ maxU64 := fun heq => h (heq ▸ rfl)
    simp [pageField, this]

lemma checksum_lt (bytes : List UInt8) : checksum bytes < 256 ^ 4 :=
  (crc32 _).toNat_lt

lemma checksum_layout (c : Control) (n m : ℕ) : checksum (c.layout n) = checksum (c.layout m) := by
  have hlayout : ∀ k, (c.layout k).take 12 = magic ++ leBytes 4 formatVersion ∧
      (c.layout k).drop 16 = leWords c.words ++ replicate 40 0 := by
    intro k
    have hhead : (magic ++ leBytes 4 formatVersion).length = 12 := rfl
    constructor
    · simp only [layout, append_assoc]
      rw [← append_assoc, take_left' hhead]
    · rw [layout, drop_left' (by simp [magic])]
  rw [checksum, checksum, (hlayout n).1, (hlayout n).2, (hlayout m).1, (hlayout m).2]

/-- A control block is read back as it was written. -/
theorem fromBytes_toBytes (h : c.Fits) : fromBytes c.toBytes = .ok c := by
  set before := magic ++ leBytes 4 formatVersion ++ leBytes 4 (checksum (c.layout 0)) with hb
  have hbytes : c.toBytes = before ++ (leWords c.words ++ replicate 40 0) := rfl
  have hblen : before.length = 16 := by simp [hb, magic]
  have hlen : c.toBytes.length = 128 := by simp [hbytes, hblen, words]
  have hmagic : c.toBytes.take 8 = magic := by
    simp only [hbytes, hb, append_assoc]
    exact take_left' rfl
  have hversion : leField c.toBytes 8 4 = formatVersion := by
    simp only [hbytes, hb, append_assoc]
    exact leField_append _ _ (by decide)
  have hstored : leField c.toBytes 12 4 = checksum c.toBytes := by
    have hfield : leField c.toBytes 12 4 = checksum (c.layout 0) := by
      simp only [hbytes, hb]
      rw [append_assoc (magic ++ _)]
      exact leField_append (magic ++ leBytes 4 formatVersion) _ (checksum_lt _)
    rw [hfield, toBytes]
    exact checksum_layout c _ _
  have hword : ∀ i n, c.words[i]? = some n → leField c.toBytes (16 + 8 * i) 8 = n := by
    intro i n hi
    rw [hbytes, ← hblen]
    refine leField_leWords _ _ _ _ hi (lt_of_le_of_lt (h.words n (mem_of_getElem? hi))
      (by norm_num))
  have h0 := hword 0 _ rfl
  have h1 := hword 1 _ rfl
  have h2 := hword 2 _ rfl
  have h3 := hword 3 _ rfl
  have h4 := hword 4 _ rfl
  have h5 := hword 5 _ rfl
  have h6 := hword 6 _ rfl
  have h7 := hword 7 _ rfl
  have h8 := hword 8 _ rfl
  simp only [Nat.reduceAdd, Nat.reduceMul] at h0 h1 h2 h3 h4 h5 h6 h7 h8
  simp [fromBytes, hlen, hmagic, hversion, hstored, h0, h1, h2, h3, h4, h5, h6, h7, h8,
    pageField_getD h.freeHead, pageField_getD h.metaRoot]

end Control

end VaubanDB
