import ClassEngine.Archive.Crc32
import ClassEngine.Archive.Inflate

/-!
# Archives

An archive ends with a record that tells where its directory lies; the directory
lists the archived files with their sizes and places.  Bytes in front of the
archive shift every place by the same amount.
-/

namespace ClassEngine.Archive

inductive ArchiveError where
  | notArchive
  | checksum
  | algorithm
  | cut
  | ended
  | corrupt (fetched : Nat)
  | negativeOffset
  deriving DecidableEq, Repr

def ArchiveError.message (path : String) : ArchiveError → String
  | .notArchive => "zip: not a valid zip file"
  | .checksum => "zip: checksum error"
  | .algorithm => "zip: unsupported compression algorithm"
  | .cut => "unexpected EOF"
  | .ended => "EOF"
  | .corrupt fetched => s!"flate: corrupt input before offset {fetched}"
  | .negativeOffset => s!"readat {path}: negative offset"

structure Entry where
  name : List UInt8
  creator : Nat
  flags : Nat
  method : Nat
  checksum : Nat
  packedSize : Nat
  size : Nat
  attributes : Nat
  place : Int
  deriving DecidableEq, Repr

/-- From this number on, words of 64 bits are negative when they are read as signed. -/
def signBit : Nat := 0x8000000000000000

private def signed (n : Nat) : Int :=
  if n < signBit then n else (n : Int) - 2 * signBit

/-! ## The end record -/

structure EndRecord where
  /-- Where the record, or its wide form, starts. -/
  place : Nat
  count : Nat
  size : Nat
  offset : Nat

def endRecordSize : Nat := 22
def locatorSize : Nat := 20
def wideEndSize : Nat := 56

/-- The last end record whose signature lies in the given number of final bytes; its
comment must fit into the file. -/
def findEnd? (data : Array UInt8) (tail : Nat) : Option Nat :=
  if data.size < endRecordSize then none
  else
    let start := data.size - min tail data.size
    let places := (List.range (data.size - endRecordSize + 1 - start)).reverse.map (start + ·)
    match places.find? fun p => LittleEndian.read data p 4 = 0x06054b50 with
    | none => none
    | some p =>
      if p + endRecordSize + LittleEndian.read data (p + 20) 2 ≤ data.size then some p else none

/-- Where the wide form of the end record lies, if a locator stands before the record. -/
def wideEnd? (data : Array UInt8) (place : Nat) : Option Nat :=
  if place < locatorSize then none
  else
    let p := place - locatorSize
    let target := LittleEndian.read data (p + 8) 8
    if LittleEndian.read data p 4 = 0x07064b50 ∧ LittleEndian.read data (p + 4) 4 = 0 ∧
        LittleEndian.read data (p + 16) 4 = 1 ∧ target < signBit then some target
    else none

def EndRecord.read (data : Array UInt8) : Except ArchiveError EndRecord := do
  let some p := findEnd? data 1024 <|> findEnd? data (65 * 1024) | throw .notArchive
  let record : EndRecord :=
    ⟨p, LittleEndian.read data (p + 10) 2, LittleEndian.read data (p + 12) 4,
      LittleEndian.read data (p + 16) 4⟩
  if record.count ≠ 0xFFFF ∧ record.size ≠ 0xFFFF ∧ record.offset ≠ 0xFFFFFFFF then
    return record
  match wideEnd? data p with
  | none => return record
  | some q =>
    if data.size < q + wideEndSize then throw .ended
    if LittleEndian.read data q 4 ≠ 0x06064b50 then throw .notArchive
    return ⟨q, LittleEndian.read data (q + 32) 8, LittleEndian.read data (q + 40) 8,
      LittleEndian.read data (q + 48) 8⟩

/-! ## The directory -/

def headerSize : Nat := 46

/-- Takes wide numbers from an extra field for those of the three that are full. -/
private def widen (data : Array UInt8) (entry : Entry) (needs : Bool × Bool × Bool)
    (pos stop : Nat) : Except ArchiveError Entry := do
  let (needSize, needPacked, needPlace) := needs
  let (entry, pos) ←
    if needSize then
      if stop < pos + 8 then throw .notArchive
      pure ({ entry with size := LittleEndian.read data pos 8 }, pos + 8)
    else pure (entry, pos)
  let (entry, pos) ←
    if needPacked then
      if stop < pos + 8 then throw .notArchive
      pure ({ entry with packedSize := LittleEndian.read data pos 8 }, pos + 8)
    else pure (entry, pos)
  if needPlace then
    if stop < pos + 8 then throw .notArchive
    return { entry with place := signed (LittleEndian.read data pos 8) }
  return entry

/-- Goes through the extra fields; the first one of wide numbers fills what is needed. -/
private def readExtras (data : Array UInt8) (entry : Entry) (needs : Bool × Bool × Bool)
    (pos stop : Nat) : (fuel : Nat) → Except ArchiveError (Entry × Bool × Bool × Bool)
  | 0 => .ok (entry, needs)
  | fuel + 1 => do
    if stop < pos + 4 then return (entry, needs)
    let size := LittleEndian.read data (pos + 2) 2
    let next := pos + 4 + size
    if stop < next then return (entry, needs)
    if LittleEndian.read data pos 2 = 1 then
      let entry ← widen data entry needs (pos + 4) next
      readExtras data entry (false, false, false) next stop fuel
    else
      readExtras data entry needs next stop fuel

def Entry.read (data : Array UInt8) (p : Nat) : Except ArchiveError (Entry × Nat) := do
  if data.size ≤ p then throw .ended
  if data.size < p + headerSize then throw .cut
  if LittleEndian.read data p 4 ≠ 0x02014b50 then throw .notArchive
  let word (offset width : Nat) := LittleEndian.read data (p + offset) width
  let extras := p + headerSize + word 28 2
  let comment := extras + word 30 2
  let next := comment + word 32 2
  if p + headerSize < next ∧ data.size ≤ p + headerSize then throw .ended
  if data.size < next then throw .cut
  let entry : Entry :=
    { name := (data.extract (p + headerSize) extras).toList
      creator := word 4 2 / 256
      flags := word 8 2
      method := word 10 2
      checksum := word 16 4
      packedSize := word 20 4
      size := word 24 4
      attributes := word 38 4
      place := word 42 4 }
  let full (n : Nat) : Bool := n = 0xFFFFFFFF
  let needs := (full (word 24 4), full (word 20 4), full (word 42 4))
  let (entry, _, needPacked, needPlace) ←
    readExtras data entry needs extras comment (comment - extras)
  if needPacked || needPlace then throw .notArchive
  return (entry, next)

/-- Reads entries until one is no entry or is cut short, and says which. -/
def readEntries (data : Array UInt8) (p : Nat) :
    (fuel : Nat) → Except ArchiveError (List Entry × ArchiveError)
  | 0 => .ok ([], .notArchive)
  | fuel + 1 =>
    match Entry.read data p with
    | .ok (entry, next) => do
      let (entries, stop) ← readEntries data next fuel
      return (entry :: entries, stop)
    | .error .notArchive => .ok ([], .notArchive)
    | .error .cut => .ok ([], .cut)
    | .error e => .error e

/-- How far the archive is shifted by bytes in front of it.  A shift is not believed
if a directory entry stands where the record says without it. -/
def shift (data : Array UInt8) (record : EndRecord) : Except ArchiveError Int := do
  if signBit ≤ record.size ∨ signBit ≤ record.offset then throw .notArchive
  let start : Int := record.place - record.size
  if start < 0 ∨ (data.size : Int) ≤ start then throw .notArchive
  let amount := start - record.offset
  if 0 < amount ∧ (Entry.read data record.offset).isOk then return 0
  return amount

def entries (data : Array UInt8) : Except ArchiveError (List Entry) := do
  let record ← EndRecord.read data
  let amount ← shift data record
  let start := (amount + record.offset).toNat
  let (found, stop) ← readEntries data start (data.size / headerSize + 1)
  if found.length % 65536 ≠ record.count % 65536 then throw stop
  return found.map fun entry => { entry with place := entry.place + amount }

/-! ## Archived files -/

/-- Files made on different systems keep their kind in different attributes; a name
that ends with a slash is always a directory. -/
def Entry.isDirectory (entry : Entry) : Bool :=
  let marked :=
    if entry.creator = 3 ∨ entry.creator = 19 then
      (entry.attributes >>> 16) &&& 0xF000 = 0x4000
    else if entry.creator = 0 ∨ entry.creator = 11 ∨ entry.creator = 14 then
      entry.attributes &&& 0x10 ≠ 0
    else false
  marked || entry.name.getLast? = some 0x2F

def localHeaderSize : Nat := 30

def Entry.bodyPlace (data : Array UInt8) (entry : Entry) : Except ArchiveError Nat := do
  if entry.place < 0 then throw .negativeOffset
  let p := entry.place.toNat
  if data.size < p + localHeaderSize then throw .ended
  if LittleEndian.read data p 4 ≠ 0x04034b50 then throw .notArchive
  return p + localHeaderSize + LittleEndian.read data (p + 26) 2 + LittleEndian.read data (p + 28) 2

/-- The checksum that follows the bytes of some files, with or without a mark. -/
def trailingChecksum (data : Array UInt8) (p : Nat) : Except ArchiveError Nat := do
  if data.size < p + 4 then throw .cut
  let start := if LittleEndian.read data p 4 = 0x08074b50 then p + 4 else p
  if data.size < start + 12 then throw .cut
  return LittleEndian.read data start 4

/-- Unpacks a file; its size and its checksum must be those of the directory, where a
checksum of zero counts as not given. -/
def Entry.extract (data : Array UInt8) (entry : Entry) : Except ArchiveError (List UInt8) := do
  let start ← entry.bodyPlace data
  let packedSize := if entry.packedSize < signBit then entry.packedSize else 0
  let packed := data.extract start (min (start + packedSize) data.size)
  let (bytes, failure) ←
    match entry.method with
    | 0 => pure (packed, none)
    | 8 => pure (inflate packed)
    | _ => throw .algorithm
  if entry.size < bytes.size then throw .notArchive
  match failure with
  | some .cut => throw .cut
  | some (.corrupt fetched) => throw (.corrupt fetched)
  | none => pure ()
  if bytes.size ≠ entry.size then throw .cut
  let sum := (crc32 bytes).toNat
  if entry.flags &&& 8 ≠ 0 then
    let stated ← trailingChecksum data (start + packedSize)
    if stated ≠ entry.checksum ∨ sum ≠ entry.checksum then throw .checksum
  else if entry.checksum ≠ 0 ∧ sum ≠ entry.checksum then throw .checksum
  return bytes.toList

end ClassEngine.Archive
