import RemotefsFtp.L2Remote.Wire

/-!
# `LIST` output (`src/client/list.rs`)

Decoding and validation of `LIST` data. `Parse` is the result of code that
slices text: `none` is a panic, and inside it an error or a value. The row
parser of `suppaftp` is a parameter.
-/
namespace RemotefsFtp.L2

open L1 (Str Path Component)

/-! ## Entries -/

/-- `suppaftp::list::PosixPexQuery`. -/
inductive PosixPexQuery where
  | owner
  | group
  | others
  deriving DecidableEq

/-- `suppaftp::list::File`, as far as a listing reads it. -/
structure FtpFile where
  name : Str
  isSymlink : Bool
  isDirectory : Bool
  size : Nat
  modified : Nat
  gid : Option Nat
  uid : Option Nat
  symlink : Option Path
  canRead : PosixPexQuery → Bool
  canWrite : PosixPexQuery → Bool
  canExecute : PosixPexQuery → Bool

/-- `suppaftp::list::ListParser`. -/
structure ListParser where
  parsePosix : Str → Except ParseError FtpFile
  parseDos : Str → Except ParseError FtpFile

inductive FileType where
  | directory
  | file
  | symlink
  deriving DecidableEq

structure UnixPexClass where
  read : Bool
  write : Bool
  execute : Bool
  deriving DecidableEq

structure UnixPex where
  user : UnixPexClass
  group : UnixPexClass
  others : UnixPexClass
  deriving DecidableEq

/-- `remotefs::fs::Metadata`: the fields a listing sets. -/
structure Metadata where
  fileType : FileType := .file
  size : Nat := 0
  modified : Option Nat := none
  mode : Option UnixPex := none
  gid : Option Nat := none
  uid : Option Nat := none
  symlink : Option Path := none
  deriving DecidableEq

/-- `remotefs::File`. -/
structure File where
  path : Path
  metadata : Metadata
  deriving DecidableEq

namespace File

def isDir (f : File) : Bool := f.metadata.fileType = .directory
def isFile (f : File) : Bool := f.metadata.fileType = .file
/-- `File::name`; every listed entry has a file name. -/
def name (f : File) : Str := f.path.fileName.getD ['/']

end File

/-- mirrors src/client/list.rs:337-355 -/
def queryUnixPex (f : FtpFile) : UnixPex where
  user := ⟨f.canRead .owner, f.canWrite .owner, f.canExecute .owner⟩
  group := ⟨f.canRead .group, f.canWrite .group, f.canExecute .group⟩
  others := ⟨f.canRead .others, f.canWrite .others, f.canExecute .others⟩

/-! ## Fields of a row -/

/-- The loop of `field_spans` from byte `index` on. -/
def fieldSpansFrom (index : Nat) (start : Option Nat) : List UInt8 → List (Nat × Nat)
  | [] => (start.map fun s => (s, index)).toList
  | byte :: rest =>
    if Str.isAsciiWhitespace byte.toNat then
      (start.map fun s => (s, index)).toList ++ fieldSpansFrom (index + 1) none rest
    else
      fieldSpansFrom (index + 1) (some (start.getD index)) rest

/-- mirrors src/client/list.rs:295-311 -/
def fieldSpans (line : Str) : List (Nat × Nat) := fieldSpansFrom 0 none line.bytes

def firstByteIn (cs : List Char) (line : Str) : Bool :=
  match line with
  | c :: _ => c ∈ cs
  | [] => false

/-- `b"bcpsD"`: POSIX special files. -/
def specialMarks : List Char := ['b', 'c', 'p', 's', 'D']

def posixMarks : List Char := ['-', 'l', 'd', 'b', 'c', 'p', 's', 'D']

/-- mirrors src/client/list.rs:270-292 -/
def normalizeSpecialPosixLine (line : Str) : Option Str := do
  let spans := fieldSpans line
  let isDevice ←
    if 5 < spans.length ∧ firstByteIn ['b', 'c'] line then do
      let major ← line.slice (← spans[4]?).1 (← spans[4]?).2
      if major.getLast? = some ',' ∧
          (Str.trimEndMatches (· = ',') major).bytes.all fun b => Str.isAsciiDigit b.toNat then do
        let minor ← line.slice (← spans[5]?).1 (← spans[5]?).2
        pure (minor.bytes.all fun b => Str.isAsciiDigit b.toNat)
      else pure false
    else pure false
  if isDevice then line.replaceRange (← spans[4]?).1 (← spans[5]?).2 ['0'] else pure line

/-! ## Names a row cannot keep -/

/-- A result, an error, or (`none`) a panic. -/
abbrev Parse (α : Type) := ExceptT RemoteError Option α

/-- A slice, index or `replace_range` that panics out of bounds. -/
def slicing {α : Type} (o : Option α) : Parse α := ExceptT.lift o

def protocolError {α : Type} (text : String) : Parse α :=
  throw (.withMessage .protocolError text)

def rejectIf (c : Bool) (text : String) : Parse Unit :=
  if c then protocolError text else pure ()

/-- mirrors src/client/list.rs:241-246 -/
def hasUnicodeWhitespaceAfterAsciiPadding (text : Str) : Bool :=
  (text.dropWhile fun c => Str.isAsciiWhitespace c.toNat).head?.any Str.isWhitespace

/-- mirrors src/client/list.rs:249-252 -/
def containsUnicodeWhitespace (text : Str) : Bool :=
  text.any fun c => Str.isWhitespace c && !Str.isAsciiWhitespace c.toNat

/-- The four checks of a POSIX row; mirrors src/client/list.rs:94-144 -/
def rejectAmbiguousPosixNameBoundary (line : Str) : Parse Unit := do
  let normalized ←
    slicing (if firstByteIn specialMarks line then normalizeSpecialPosixLine line else some line)
  let spans := fieldSpans normalized
  let isPosix := firstByteIn posixMarks line
  rejectIf (isPosix && match spans[7]?, spans[8]? with
      | some s, some t => s.2 + 1 < t.1
      | _, _ => false)
    "LIST returned a filename with an ambiguous leading-space boundary"
  let metadata ← slicing (match isPosix, spans[7]? with
    | true, some s => normalized.sliceTo s.2
    | _, _ => some [])
  rejectIf (containsUnicodeWhitespace metadata)
    "LIST returned Unicode whitespace in its POSIX metadata"
  let nameSuffix ← slicing (match spans[7]? with
    | some s => normalized.sliceFrom s.2
    | none => some [])
  rejectIf (isPosix && !nameSuffix.isEmpty && nameSuffix.all Str.isWhitespace)
    "LIST returned a filename made only of whitespace"
  rejectIf (isPosix && 8 ≤ spans.length && hasUnicodeWhitespaceAfterAsciiPadding nameSuffix)
    "LIST returned a filename with an ambiguous Unicode-whitespace boundary"

/-- mirrors src/client/list.rs:147-158 -/
def looksLikeDosListing (line : Str) : Bool :=
  match line.bytes with
  | b0 :: b1 :: b2 :: b3 :: b4 :: b5 :: b6 :: b7 :: _ =>
    b2 = 0x2D && b5 = 0x2D && Str.isAsciiDigit b0.toNat && Str.isAsciiDigit b1.toNat &&
      Str.isAsciiDigit b3.toNat && Str.isAsciiDigit b4.toNat && Str.isAsciiDigit b6.toNat &&
      Str.isAsciiDigit b7.toNat
  | _ => false

def paddedMetadataColumn : Nat := 24
def paddedNameColumn : Nat := 39

/-- The end of the first `AM`, else of the first `PM`, in the eight
characters from `timeStart` on. -/
def findMeridiem (timeStart : Nat) (timestampPrefix : Str) : Option Nat :=
  ["AM".toList, "PM".toList].findSome? fun marker =>
    (Str.findStr marker timestampPrefix).map fun index => timeStart + index + marker.len

/-- From `metadata` on, `metadataColumn` bytes into the row; mirrors
src/client/list.rs:203-237 -/
def rejectAmbiguousDosMetadata (metadataColumn : Nat) (metadata : Str) : Parse Unit := do
  let metadataEnd := (metadata.find fun c => Str.isAsciiWhitespace c.toNat).getD metadata.len
  let metadataToken ← slicing (metadata.sliceTo metadataEnd)
  let afterMetadata ← slicing (metadata.sliceFrom metadataEnd)
  rejectIf (afterMetadata.any Str.isWhitespace && afterMetadata.all Str.isWhitespace)
    "LIST returned a filename made only of whitespace"
  rejectIf (hasUnicodeWhitespaceAfterAsciiPadding afterMetadata)
    "LIST returned a filename with an ambiguous Unicode-whitespace boundary"
  let separator := (afterMetadata.bytes.takeWhile fun b => Str.isAsciiWhitespace b.toNat).length
  let nameStart := metadataColumn + metadataEnd + separator
  let isSupportedPaddedLayout := metadataToken = "<DIR>".toList &&
    metadataColumn = paddedMetadataColumn && nameStart = paddedNameColumn
  rejectIf (1 < separator && !isSupportedPaddedLayout)
    "LIST returned a DOS filename with an ambiguous leading-space boundary"

/-- mirrors src/client/list.rs:161-238 -/
def rejectAmbiguousDosNameBoundary (line : Str) : Parse Unit := do
  let afterDate ← slicing (line.sliceFrom 8)
  match (afterDate.find fun c => !Str.isAsciiWhitespace c.toNat).map (· + 8) with
  | none => return ()
  | some timeStart =>
    let timestamp ← slicing (line.sliceFrom timeStart)
    let timestampPrefix ← slicing (timestamp.sliceTo ((timestamp.charIndex 8).getD timestamp.len))
    match findMeridiem timeStart timestampPrefix with
    | none => protocolError "LIST returned an unsupported DOS timestamp"
    | some timeEnd =>
      let rest ← slicing (line.sliceFrom timeEnd)
      rejectIf (rest.head?.any fun c => Str.isWhitespace c && !Str.isAsciiWhitespace c.toNat)
        "LIST returned a DOS filename with an ambiguous Unicode-whitespace boundary"
      match rest.find fun c => !Str.isAsciiWhitespace c.toNat with
      | none => return ()
      | some metadataStart =>
        let metadata ← slicing (rest.sliceFrom metadataStart)
        rejectAmbiguousDosMetadata (timeEnd + metadataStart) metadata

/-- mirrors src/client/list.rs:75-91 -/
def rejectAmbiguousListName (line : Str) : Parse Unit := do
  rejectAmbiguousPosixNameBoundary line
  rejectIf (firstByteIn ['l'] line && 1 < Str.countMatches " -> ".toList 0 line)
    "LIST returned a symlink name or target containing multiple ` -> ` separators"
  if !firstByteIn ['-', 'l', 'd'] line && looksLikeDosListing line then
    rejectAmbiguousDosNameBoundary line

/-! ## Entries of a listing -/

/-- `or_else`. -/
def orElse {ε α : Type} (r : Except ε α) (f : Unit → Except ε α) : Except ε α :=
  match r with
  | .ok a => .ok a
  | .error _ => f ()

/-- mirrors src/client/list.rs:255-267 -/
def parseListEntry (P : ListParser) (line : Str) : Option (Except ParseError FtpFile) := do
  if firstByteIn specialMarks line then
    let normalized ← normalizeSpecialPosixLine line
    let normalized ← normalized.replaceRange 0 1 ['-']
    return orElse (P.parsePosix normalized) fun _ => P.parseDos line
  else
    return orElse (P.parsePosix line) fun _ => P.parseDos line

/-- mirrors src/client/list.rs:314-334 -/
def validateListChildName (name : Str) : RemoteResult Unit :=
  if name ≠ [] ∧ name ≠ ['.'] ∧ name ≠ ['.', '.'] ∧ ¬ hasAsciiControl name ∧
      ¬ name.bytes.any (fun b => b.toNat = '/'.toNat) ∧
      (Path.components name).length = 1 ∧
      (Path.components name).head?.any (fun c => c.name?.isSome) then
    .ok ()
  else
    .error (.plain .protocolError (some ⟨"LIST returned an unsafe child name: ", some name⟩))

/-- mirrors src/client/list.rs:47-68 -/
def listedFile (path : Path) (f : FtpFile) : File where
  path := path.join f.name
  metadata := {
    fileType := if f.isSymlink then .symlink else if f.isDirectory then .directory else .file
    size := f.size
    modified := some f.modified
    mode := some (queryUnixPex f)
    gid := f.gid
    uid := f.uid
    symlink := f.symlink.map path.absolutize }

/-- One row; mirrors src/client/list.rs:37-69 -/
def parseListLine (P : ListParser) (path : Path) (line : Str) : Parse (Option File) := do
  rejectAmbiguousListName line
  match ← slicing (parseListEntry P line) with
  | .error err => throw (.withParse .protocolError err)
  | .ok f =>
    if f.name = ['.'] ∨ f.name = ['.', '.'] then
      return none
    else
      match validateListChildName f.name with
      | .error err => throw err
      | .ok () => return some (listedFile path f)

/-- `total <digits>`, a block count some servers prepend. -/
def isTotalLine (line : Str) : Bool :=
  "total ".toList.isPrefixOf line &&
    (let count : Str := line.drop 6
     !count.isEmpty && count.bytes.all fun b => Str.isAsciiDigit b.toNat)

/-- mirrors src/client/list.rs:26-72 -/
def parseListLines (P : ListParser) (path : Path) (lines : List Str) : Parse (List File) := do
  let rows := match lines with
    | line :: rest => if isTotalLine line then rest else lines
    | [] => []
  let entries ← rows.mapM (parseListLine P path)
  return entries.filterMap id

/-- mirrors src/client/list.rs:14-24 -/
def decodeListBytes (bytes : List UInt8) : FtpResult (List Str) :=
  match Str.fromUtf8 bytes with
  | none => .error .badResponse
  | some listing => .ok (listing.lines.filter fun line => !line.isEmpty)

end RemotefsFtp.L2
