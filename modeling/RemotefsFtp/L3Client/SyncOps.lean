import RemotefsFtp.L3Client.SyncStream

/-!
# Operations of the blocking client (`impl RemoteFs for FtpFs`)

The commands and the operations that return owned streams, and `Op`, what a
caller can run on a client and on the streams it was given.
-/
namespace RemotefsFtp.L3

open L1 (Str Path)
open L2
open Core (Prog)

/-- `remotefs::fs::ExecOutput`. -/
structure ExecOutput where
  status : Nat
  output : Str
  deriving DecidableEq

/-- `remote_path(path)?`. -/
def withRemotePath {α : Type} (path : Path) (k : Str → Io (RemoteResult α)) : Io (RemoteResult α) :=
  match remotePath path with
  | .error e => pure (.error e)
  | .ok remote => k remote

/-- `set_metadata`, `copy` and `symlink` validate their paths and nothing
else; mirrors src/client/sync.rs:888-891, 976-986 and
src/client/tokio.rs:851-854, 931-941 -/
def unsupported (paths : List Path) : Io (RemoteResult Unit) :=
  match paths with
  | [] => pure (.error (.new .unsupportedFeature))
  | path :: rest => withRemotePath path fun _ => unsupported rest

namespace FtpFs

variable (X : Ext)

/-- A plain command: the closure `create_dir`, `remove_file`, `remove_dir` and
`rename` pass to `with_stream`; mirrors src/client/sync.rs:896-902 -/
def command (c : Command) : Io (RemoteResult (FtpResult Response)) :=
  withStream fun stream => do
    let result ← call stream c
    recordFtpResult result
    pure (.ok result)

/-- `result.map_err(|err| self.classify..(err))`. -/
def mapRefusal {α : Type} (result : FtpResult α) (classify : FtpError → Io RemoteError) :
    Io (RemoteResult α) :=
  match result with
  | .ok a => pure (.ok a)
  | .error err => do
    let error ← classify err
    pure (.error error)

def setMetadata (path : Path) : Io (RemoteResult Unit) := unsupported [path]
def copy (src dest : Path) : Io (RemoteResult Unit) := unsupported [src, dest]
def symlink (path target : Path) : Io (RemoteResult Unit) := unsupported [path, target]

def asUnit {α : Type} (r : RemoteResult α) : RemoteResult Unit := r.map fun _ => ()

/-- mirrors src/client/sync.rs:893-921 -/
def createDir (path : Path) : Io (RemoteResult Unit) :=
  withRemotePath path fun remote => do
    match ← command (.mkdir remote) with
    | .error e => pure (.error e)
    | .ok (.ok _) => pure (.ok ())
    | .ok (.error err) =>
      if isCreationRefusal err then do
        let error ← (client X).classifyCreateDirRefusal path err
        pure (.error error)
      else pure (.error (ftpError err))

/-- mirrors src/client/sync.rs:923-938 -/
def removeFile (path : Path) : Io (RemoteResult Unit) :=
  withRemotePath path fun remote => do
    match ← command (.rm remote) with
    | .error e => pure (.error e)
    | .ok result =>
      let result ← mapRefusal result ((client X).classifyFileRefusal path)
      pure (asUnit result)

/-- Records the failure once more after the lock is gone; mirrors
src/client/sync.rs:940-956 -/
def removeDir (path : Path) : Io (RemoteResult Unit) :=
  withRemotePath path fun remote => do
    match ← command (.rmdir remote) with
    | .error e => pure (.error e)
    | .ok result =>
      let result ← mapRefusal result fun err => do
        recordFtpError err
        (client X).classifyRemoveDirRefusal path err
      pure (asUnit result)

/-- mirrors src/client/sync.rs:958-974 -/
def rename (src dest : Path) : Io (RemoteResult Unit) :=
  withRemotePath src fun remoteSrc =>
  withRemotePath dest fun remoteDest => do
    match ← command (.rename remoteSrc remoteDest) with
    | .error e => pure (.error e)
    | .ok result =>
      let result ← mapRefusal result ((client X).classifyRenameRefusal src dest)
      pure (asUnit result)

/-- `result.map(|transfer| (transfer, self.start_transfer()))`; the transfer
runs on `stream`. -/
def withTransfer {α : Type} (result : FtpResult Response) (a : α) : Io (FtpResult α) :=
  match result with
  | .ok _ => do
    startTransfer
    pure (.ok a)
  | .error e => pure (.error e)

/-- The closure of `open`: the transfer and whether the server restarts at
the offset; mirrors src/client/sync.rs:992-1014. The reset is a `REST` exchange
of its own, as in `requestOffset`. -/
def openTransfer (stream : Conn) (remote : Str) (offset : Nat) :
    Io (RemoteResult (FtpResult (Conn × Bool))) := do
  match ← (if 0 < offset then requestOffset X call stream offset else pure (.ok false)) with
  | .error e => pure (.error e)
  | .ok resumed =>
    let result ← call stream (.retrAsStream remote)
    if resumed && result.isOk = false then
      -- the marker is reset so that it cannot shift a later transfer
      match ← call stream (.resumeTransfer 0) with
      | .ok _ =>
        let result ← call stream (.retrAsStream remote)
        recordFtpResult result
        let result ← withTransfer result (stream, false)
        pure (.ok result)
      | .error error =>
        markConnectionUnusable
        pure (.error (ftpError error))
    else
      recordFtpResult result
      let result ← withTransfer result (stream, resumed)
      pure (.ok result)

/-- mirrors src/client/sync.rs:988-1027 -/
def open' (path : Path) (opts : ReadOptions) : Io (RemoteResult ReadStream) :=
  withRemotePath path fun remote => do
    let offset := opts.offset.getD 0
    match ← withStream fun stream => openTransfer X stream remote offset with
    | .error e => pure (.error e)
    | .ok result =>
      match ← mapRefusal result ((client X).classifyFileRefusal path) with
      | .error e => pure (.error e)
      | .ok (transfer, resumed) =>
        let reader := FtpReadStream.new transfer opts.length
        if 0 < offset ∧ resumed = false then
          match ← FtpReadStream.skipPrefix X reader offset with
          | (.error skip, reader) =>
            let e ← FtpReadStream.finishAfterSkip X reader skip
            pure (.error e)
          | (.ok (), reader) => pure (.ok reader)
        else pure (.ok reader)

/-- `create` and `append`; mirrors src/client/sync.rs:1029-1061 -/
def upload (c : Str → Command) (path : Path) : Io (RemoteResult WriteStream) :=
  withRemotePath path fun remote => do
    match ← withStream (fun stream => do
        let result ← call stream (c remote)
        recordFtpResult result
        let result ← withTransfer result stream
        pure (.ok result)) with
    | .error e => pure (.error e)
    | .ok result =>
      match ← mapRefusal result ((client X).classifyCreateRefusal path) with
      | .error e => pure (.error e)
      | .ok transfer => pure (.ok (FtpWriteStream.new transfer))

def create (path : Path) : Io (RemoteResult WriteStream) := upload X .putWithStream path
def append (path : Path) : Io (RemoteResult WriteStream) := upload X .appendWithStream path

def execOutput (response : Response) : ExecOutput :=
  ⟨response.status.code, X.fromUtf8Lossy response.body⟩

/-- mirrors src/client/sync.rs:1063-1077 -/
def exec (cmd : Str) : Io (RemoteResult ExecOutput) := do
  match ← withStream (fun stream => do
      match ← call stream (.site cmd) with
      | .ok response => pure (.ok response)
      | .error e => pure (.error (ftpError e))) with
  | .error e => pure (.error e)
  | .ok response => pure (.ok (execOutput X response))

end FtpFs

/-! ## What a caller runs -/

/-- An operation on the client. -/
inductive Op where
  | connect (o : Options)
  | disconnect
  | isConnected
  | welcomeMessage
  | listDir (path : Path)
  | stat (path : Path)
  | exists' (path : Path)
  | setMetadata (path : Path)
  | createDir (path : Path)
  | removeFile (path : Path)
  | removeDir (path : Path)
  | rename (src dest : Path)
  | copy (src dest : Path)
  | symlink (path target : Path)
  | open' (path : Path) (opts : ReadOptions)
  | create (path : Path)
  | append (path : Path)
  | exec (cmd : Str)

/-- The operations that take `&mut self`. -/
def Op.isMut : Op → Bool
  | connect _ | disconnect => true
  | _ => false

/-- An operation on an owned stream. -/
inductive StreamOp where
  | read (bufLen : Nat)
  | write (buf : List UInt8)
  | flush
  | finish
  | drop

/-- What an operation leaves behind: the owned stream it returns, if any. -/
inductive Out where
  | done
  | stream (s : OwnedStream)

/-- The result of an operation, reduced to what it leaves behind. -/
def leaving {α : Type} (p : Io α) (out : α → Out) : Io Out := p.bind fun a => .ret (out a)

def Out.ofRead : RemoteResult ReadStream → Out
  | .ok s => stream (.read s)
  | .error _ => done

def Out.ofWrite : RemoteResult WriteStream → Out
  | .ok s => stream (.write s)
  | .error _ => done

def nothing {α : Type} : α → Out := fun _ => .done

/-- One operation of `FtpFs`. -/
def FtpFs.run (X : Ext) : Op → Io Out
  | .connect o => leaving (connect o) nothing
  | .disconnect => leaving disconnect nothing
  | .isConnected => leaving isConnected nothing
  | .welcomeMessage => leaving welcomeMessage nothing
  | .listDir path => leaving (listDir X path) nothing
  | .stat path => leaving (stat X path) nothing
  | .exists' path => leaving (FtpFs.exists' X path) nothing
  | .setMetadata path => leaving (setMetadata path) nothing
  | .createDir path => leaving (createDir X path) nothing
  | .removeFile path => leaving (removeFile X path) nothing
  | .removeDir path => leaving (removeDir X path) nothing
  | .rename src dest => leaving (rename X src dest) nothing
  | .copy src dest => leaving (copy src dest) nothing
  | .symlink path target => leaving (symlink path target) nothing
  | .open' path opts => leaving (FtpFs.open' X path opts) Out.ofRead
  | .create path => leaving (create X path) Out.ofWrite
  | .append path => leaving (append X path) Out.ofWrite
  | .exec cmd => leaving (exec X cmd) nothing

/-- One operation on an owned stream of `FtpFs`; a read stream is not
written to, nor a write stream read. -/
def FtpFs.runStream (X : Ext) : OwnedStream → StreamOp → Option (Io Out)
  | .read s, .read bufLen => some (leaving (FtpReadStream.read X s bufLen) fun r => .stream (.read r.2))
  | .read s, .finish => some (leaving (FtpReadStream.finish X s) nothing)
  | .read s, .drop => some (leaving (FtpReadStream.drop X s) nothing)
  | .write s, .write buf => some (leaving (FtpWriteStream.write s buf) fun _ => .stream (.write s))
  | .write s, .flush => some (leaving (FtpWriteStream.flush s) fun _ => .stream (.write s))
  | .write s, .finish => some (leaving (FtpWriteStream.finish X s) nothing)
  | .write s, .drop => some (leaving (FtpWriteStream.drop X s) nothing)
  | _, _ => none

end RemotefsFtp.L3
