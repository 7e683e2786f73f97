import RemotefsFtp.L2Remote.Effect
import RemotefsFtp.L2Remote.Listing

/-!
# Probing with `LIST`

The part of both clients that is the same code over `list_dir_raw`: metadata
lookup, directory listing, and the classification of refused commands by
positive evidence (`sync.rs:418-532, 784-886`, `tokio.rs:437-551, 746-849`).
`Client` holds what each client runs in its own way. `stat` recurses into the
parent; its fuel is above the number of components, which no run exhausts
(`stat_eq`).
-/
namespace RemotefsFtp.L3

open L1 (Str Path)
open L2
open Core (Prog)

/-- The steps the shared code takes through its client. -/
structure Client where
  listDirRaw : Path → Str → Io (RemoteResult (List File))
  /-- `stat` of the root: a check that the client is ready, and the root entry. -/
  statRoot : Path → Io (RemoteResult File)

/-- `File::new(path, Metadata::default().file_type(FileType::Directory))`. -/
def rootEntry (path : Path) : File := ⟨path, { fileType := .directory }⟩

/-- A listing that holds one regular file, of this name. -/
def isOneFileNamed (name : Option Str) (entries : List File) : Bool :=
  match entries with
  | [entry] => name.any (entry.name = ·) && entry.isFile
  | _ => false

def missing (probe : RemoteError) : Bool := probe.kind = .noSuchFileOrDirectory

namespace Client

variable (C : Client)

/-- The loop of `ancestor_proves_absent`. -/
def ancestorLoop : Nat → Path → Io (RemoteResult Bool)
  | 0, _ => pure (.ok false)
  | n + 1, candidate =>
    match candidate.parent with
    | none => pure (.ok false)
    | some parent =>
      match remotePath parent with
      | .error e => pure (.error e)
      | .ok remoteParent => do
        match ← C.listDirRaw parent remoteParent with
        | .ok entries => pure (.ok !(entries.any fun entry => entry.path.same candidate))
        | .error error =>
          if isAmbiguousPathRefusal error then ancestorLoop n parent else pure (.ok false)

/-- mirrors src/client/sync.rs:471-487 and src/client/tokio.rs:490-506 -/
def ancestorProvesAbsent (path : Path) : Io (RemoteResult Bool) := C.ancestorLoop 8 path

/-- A refused listing of `path`; mirrors src/client/sync.rs:790-799, 842-851 -/
def listingRefused {α : Type} (path : Path) (error : RemoteError) : Io (RemoteResult α) :=
  if isAmbiguousPathRefusal error then do
    match ← C.ancestorProvesAbsent path with
    | .error e => pure (.error e)
    | .ok true => pure (.error (.withRemote .noSuchFileOrDirectory error))
    | .ok false => pure (.error (ambiguousPathPermission error))
  else pure (.error error)

/-- `entries.into_iter().find(|entry| entry.path() == path)`. -/
def findEntry (path : Path) (entries : List File) : RemoteResult File :=
  match entries.find? fun entry => entry.path.same path with
  | some entry => .ok entry
  | none => .error (.new .noSuchFileOrDirectory)

/-- mirrors src/client/sync.rs:822-877 and src/client/tokio.rs:785-840 -/
def statFuel : Nat → Path → Io (RemoteResult File)
  | 0, _ => .panic
  | n + 1, path =>
    match remotePath path with
    | .error e => pure (.error e)
    | .ok _ =>
      let path := resolve path
      if path.same ['/'] then C.statRoot path
      else
        match path.parent with
        | none => .panic
        | some parent =>
          match remotePath parent with
          | .error e => pure (.error e)
          | .ok remoteParent => do
            match ← C.listDirRaw parent remoteParent with
            | .error error => C.listingRefused parent error
            | .ok entries =>
              if isOneFileNamed parent.fileName entries then do
                match ← statFuel n parent with
                | .ok parentEntry =>
                  if parentEntry.isFile then
                    pure (.error (.withMessage .badFile "the parent path is a regular file"))
                  else pure (findEntry path entries)
                | .error error =>
                  if error.kind = .permissionDenied then pure (findEntry path entries)
                  else pure (.error error)
              else pure (findEntry path entries)

def stat (path : Path) : Io (RemoteResult File) := C.statFuel (path.components.length + 1) path

/-- `matches!(self.stat(&path), Ok(entry) if entry.is_file())`. -/
def statIsFile (path : Path) : Io Bool := do
  match ← C.stat path with
  | .ok entry => pure entry.isFile
  | .error _ => pure false

/-- mirrors src/client/sync.rs:784-820 and src/client/tokio.rs:746-783 -/
def listDir (path : Path) : Io (RemoteResult (List File)) :=
  match remotePath path with
  | .error e => pure (.error e)
  | .ok remote => do
    let path := resolve path
    match ← C.listDirRaw path remote with
    | .error error => C.listingRefused path error
    | .ok entries =>
      if path.same ['/'] then pure (.ok entries)
      else do
        let targetIsFile := isOneFileNamed path.fileName entries
        if ← (if targetIsFile then C.statIsFile path else pure false) then
          pure (.error (.withMessage .badFile "LIST requires a directory path"))
        else if ← (if entries.isEmpty then C.statIsFile path else pure false) then
          pure (.error (.withMessage .badFile "LIST requires a directory path"))
        else
          pure (.ok entries)

/-- mirrors src/client/sync.rs:879-886 and src/client/tokio.rs:842-849 -/
def exists' (path : Path) : Io (RemoteResult Bool) := do
  match ← C.stat path with
  | .ok _ => pure (.ok true)
  | .error err => if missing err then pure (.ok false) else pure (.error err)

/-! ## Refused commands -/

/-- mirrors src/client/sync.rs:418-429 and src/client/tokio.rs:437-448 -/
def classifyFileRefusal (path : Path) (err : FtpError) : Io RemoteError :=
  if !isFileUnavailable err then pure (ftpError err)
  else do
    match ← C.stat path with
    | .ok file => if file.isDir then pure (.withFtp .badFile err) else pure (ftpError err)
    | .error probe =>
      if missing probe then pure (.withFtp .noSuchFileOrDirectory err) else pure (ftpError err)

/-- mirrors src/client/sync.rs:490-498 and src/client/tokio.rs:509-517 -/
def destinationParentIsMissing (path : Path) : Io Bool :=
  match path.parent with
  | none => pure false
  | some parent => do
    match ← C.stat parent with
    | .ok _ => pure false
    | .error error => pure (missing error)

/-- mirrors src/client/sync.rs:432-448 and src/client/tokio.rs:451-467 -/
def classifyCreateRefusal (path : Path) (err : FtpError) : Io RemoteError :=
  if !isCreationRefusal err then pure (ftpError err)
  else do
    match ← C.stat path with
    | .ok file =>
      if file.isDir then pure (.withFtp .alreadyExists err) else pure (.withFtp .permissionDenied err)
    | .error error =>
      if ← (if missing error then C.destinationParentIsMissing path else pure false) then
        pure (.withFtp .noSuchFileOrDirectory err)
      else
        pure (.withFtp .permissionDenied err)

/-- mirrors src/client/sync.rs:451-468 and src/client/tokio.rs:470-487 -/
def classifyRemoveDirRefusal (path : Path) (err : FtpError) : Io RemoteError :=
  if !isFileUnavailable err then pure (ftpError err)
  else do
    match ← C.stat path with
    | .ok file =>
      if !file.isDir then pure (.withFtp .badFile err)
      else do
        match ← C.listDir path with
        | .ok entries =>
          if !entries.isEmpty then pure (.withFtp .directoryNotEmpty err)
          else pure (.withFtp .permissionDenied err)
        | .error _ => pure (.withFtp .permissionDenied err)
    | .error probe =>
      if missing probe then pure (.withFtp .noSuchFileOrDirectory err)
      else pure (.withFtp .permissionDenied err)

/-- mirrors src/client/sync.rs:501-515 and src/client/tokio.rs:520-534 -/
def classifyCreateDirRefusal (path : Path) (err : FtpError) : Io RemoteError :=
  if !isCreationRefusal err then pure (ftpError err)
  else do
    match ← C.stat path with
    | .ok _ => pure (.withFtp .alreadyExists err)
    | .error error =>
      if ← (if missing error then C.destinationParentIsMissing path else pure false) then
        pure (.withFtp .noSuchFileOrDirectory err)
      else
        pure (.withFtp .permissionDenied err)

/-- mirrors src/client/sync.rs:518-532 and src/client/tokio.rs:537-551 -/
def classifyRenameRefusal (src dest : Path) (err : FtpError) : Io RemoteError :=
  if !isCreationRefusal err then pure (ftpError err)
  else do
    match ← C.stat src with
    | .error error =>
      if missing error then pure (.withFtp .noSuchFileOrDirectory err)
      else pure (.withFtp .permissionDenied err)
    | .ok _ =>
      if ← C.destinationParentIsMissing dest then pure (.withFtp .noSuchFileOrDirectory err)
      else pure (.withFtp .permissionDenied err)

/-! ## The recursion of `stat` -/

/-- `stat` of an accepted path other than the root. -/
theorem statFuel_eq {n : Nat} {path parent : Path} (h : Accepted path)
    (hp : path.parent = some parent) :
    C.statFuel (n + 1) path = (do
      match ← C.listDirRaw parent parent with
      | .error error => C.listingRefused parent error
      | .ok entries =>
        if isOneFileNamed parent.fileName entries then do
          match ← C.statFuel n parent with
          | .ok parentEntry =>
            if parentEntry.isFile then
              pure (.error (.withMessage .badFile "the parent path is a regular file"))
            else pure (findEntry path entries)
          | .error error =>
            if error.kind = .permissionDenied then pure (findEntry path entries)
            else pure (.error error)
        else pure (findEntry path entries)) := by
  have hr : ¬ path.same ['/'] = true := by
    rw [h.same_root, ← h.parent_none, hp]; simp
  rw [statFuel, remotePath_ok h]
  simp only [resolve, hr, hp, remotePath_ok (h.parent hp).1]
  rfl

theorem statFuel_root {n : Nat} {path : Path} (h : Accepted path) (hr : path.names = []) :
    C.statFuel (n + 1) path = C.statRoot path := by
  rw [statFuel, remotePath_ok h]
  simp only [resolve, (h.same_root).mpr hr, if_true]

/-- Fuel above the number of names makes no difference. -/
theorem statFuel_enough {n m : Nat} {path : Path} (h : Accepted path)
    (hn : path.names.length < n) (hm : path.names.length < m) :
    C.statFuel n path = C.statFuel m path := by
  induction n generalizing m path with
  | zero => omega
  | succ n ih =>
    obtain ⟨m, rfl⟩ : ∃ k, m = k + 1 := ⟨m - 1, by omega⟩
    cases hp : path.parent with
    | none =>
      have := h.parent_none.mp hp
      rw [C.statFuel_root h this, C.statFuel_root h this]
    | some parent =>
      obtain ⟨hpar, hnames⟩ := h.parent hp
      have hne : path.names ≠ [] := fun e => by rw [h.parent_none.mpr e] at hp; cases hp
      have hlen := List.length_pos_iff.mpr hne
      have hl : parent.names.length = path.names.length - 1 := by rw [hnames, List.length_dropLast]
      rw [C.statFuel_eq h hp, C.statFuel_eq h hp, ih (m := m) hpar (by omega) (by omega)]

/-- `list_dir` of an accepted path. -/
theorem listDir_eq {path : Path} (h : Accepted path) : C.listDir path = (do
    match ← C.listDirRaw path path with
    | .error error => C.listingRefused path error
    | .ok entries =>
      if path.same ['/'] then pure (.ok entries)
      else do
        if ← (if isOneFileNamed path.fileName entries then C.statIsFile path else pure false) then
          pure (.error (.withMessage .badFile "LIST requires a directory path"))
        else if ← (if entries.isEmpty then C.statIsFile path else pure false) then
          pure (.error (.withMessage .badFile "LIST requires a directory path"))
        else
          pure (.ok entries)) := by
  rw [listDir, remotePath_ok h]
  rfl

end Client
end RemotefsFtp.L3
