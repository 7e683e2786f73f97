import RemotefsFtp.L3Client.SyncOps

/-!
# The Tokio client (`src/client/tokio.rs`, `src/client/tokio/stream.rs`)

`TokioFtpFs`, function by function. A step with `await` is a suspension
point; `holding` names what a future dropped there drops, in the order Rust
drops it. What both clients compute alike is shared with `FtpFs`.
-/
namespace RemotefsFtp.L3

open L1 (Str Path)
open L2
open Core (Prog)

/-- The steps of dropping a `StreamGuard`: its fields in order, the
`MutexGuard` and then the `OperationGuard`, which marks the connection
unusable; mirrors src/client/tokio.rs:129-153 -/
def dropStreamGuard : List Eff := [.unlock, .storeUsable false]

/-- The steps of dropping a stream. A download before EOF marks the
connection unusable first; mirrors src/client/tokio/stream.rs:256-272, 337-349 -/
def dropReadStream (s : ReadStream) : List Eff :=
  (match s.inner with
    | none => []
    | some inner => (if s.atEof then [] else [.storeUsable false]) ++ [.dropTransfer inner]) ++
  [.guardDrop]

def dropWriteStream (s : WriteStream) : List Eff :=
  (match s.inner with
    | none => []
    | some inner => [.dropTransfer inner]) ++
  [.guardDrop]

namespace TokioReadStream

variable (X : Ext)

/-- mirrors src/client/tokio/stream.rs:38-67 -/
def finishRead (inner : Conn) (atEof : Bool) : Io (RemoteResult Unit) :=
  Prog.holding [Eff.dropTransfer inner] do
    let drained : RemoteResult Unit ←
      if atEof then pure (.ok ())
      else do
        let r ← await (.copyAll inner)
        pure (mapIoError X r)
    let finished ← await (.finish inner)
    pure (cleanupOutcome .drain (fun drain _ => drain.kind) drained (mapFtpError finished))

/-- The transfer moves into the awaited future, so that what a drop of the
stream finds during the wait is a stream without one; mirrors
src/client/tokio/stream.rs:199-206 -/
def finishInner (s : ReadStream) : Io (RemoteResult Unit × ReadStream) :=
  match s.inner with
  | none => .panic
  | some inner => do
    let s := { s with inner := none }
    let result ← Prog.holding (dropReadStream s) (finishRead X inner s.atEof)
    FtpReadStream.invalidateOnErr result
    pure (result, s)

/-- mirrors src/client/tokio/stream.rs:181-190 -/
def skipPrefix (s : ReadStream) (offset : Nat) : Io (RemoteResult Unit × ReadStream) :=
  match s.inner with
  | none => .panic
  | some inner => do
    match ← Prog.holding (dropReadStream s) (await (.copyTake inner offset)) with
    | .error e => pure (.error (X.ioError e), s)
    | .ok skipped =>
      if skipped < offset then pure (.ok (), { s with atEof := true }) else pure (.ok (), s)

/-- One `poll_read` that is ready; mirrors src/client/tokio/stream.rs:213-243 -/
def read (s : ReadStream) (bufLen : Nat) : Io (Except IoError (List UInt8) × ReadStream) :=
  if bufLen = 0 then pure (.ok [], s)
  else if s.remaining = some 0 then pure (.ok [], s)
  else
    let limit := match s.remaining with
      | some budget => readLimit X budget bufLen
      | none => bufLen
    match s.inner with
    | none => .panic
    | some inner => do
      match ← step (.read inner limit) with
      | .error e => pure (.error e, s)
      | .ok bytes =>
        let read := bytes.1.length
        let atEof := if read = 0 then true else s.atEof
        match s.remaining with
        | none => pure (.ok bytes.1, { s with atEof := atEof })
        | some budget =>
          if read ≤ budget then
            pure (.ok bytes.1, { s with remaining := some (budget - read), atEof := atEof })
          else .panic

/-- Runs drop steps to their end. -/
def runDrop (g : List Eff) : Io Unit := Prog.glue (S := ftp) () g

def drop (s : ReadStream) : Io Unit := runDrop (dropReadStream s)

/-- Before its first poll the future holds the whole stream; mirrors
src/client/tokio/stream.rs:251-253 -/
def finish (s : ReadStream) : Io (RemoteResult Unit) := do
  Prog.holding (dropReadStream s) (await .poll)
  let (result, s) ← finishInner X s
  drop s
  pure result

/-- mirrors src/client/tokio/stream.rs:70-78, 193-196 -/
def finishAfterSkip (s : ReadStream) (skip : RemoteError) : Io RemoteError := do
  let (finished, s) ← finishInner X s
  drop s
  match finished with
  | .ok () => pure skip
  | .error finish => pure (.withCleanup skip.kind .skip skip finish)

end TokioReadStream

namespace TokioWriteStream

variable (X : Ext)

/-- mirrors src/client/tokio/stream.rs:304-310 -/
def write (s : WriteStream) (buf : List UInt8) : Io (Except IoError Nat) :=
  match s.inner with
  | none => .panic
  | some inner => step (.write inner buf)

/-- mirrors src/client/tokio/stream.rs:312-314 -/
def flush (s : WriteStream) : Io (Except IoError Unit) :=
  match s.inner with
  | none => .panic
  | some inner => step (.flush inner false)

/-- mirrors src/client/tokio/stream.rs:352-372 -/
def finishWrite (inner : Conn) : Io (RemoteResult Unit) :=
  Prog.holding [Eff.dropTransfer inner] do
    let flushed ← await (.flush inner true)
    let finished ← await (.finish inner)
    pure (cleanupOutcome .write (fun _ finish => finish.kind) (mapIoError X flushed)
      (mapFtpError finished))

def drop (s : WriteStream) : Io Unit := TokioReadStream.runDrop (dropWriteStream s)

/-- mirrors src/client/tokio/stream.rs:326-334 -/
def finish (s : WriteStream) : Io (RemoteResult Unit) := do
  Prog.holding (dropWriteStream s) (await .poll)
  match s.inner with
  | none => .panic
  | some inner =>
    let s := { s with inner := none }
    let result ← Prog.holding (dropWriteStream s) (finishWrite X inner)
    FtpReadStream.invalidateOnErr result
    drop s
    pure result

end TokioWriteStream

namespace TokioFtpFs

open FtpFs (checkOperationState markConnectionUnusable recordFtpResult recordRemoteResult
  recordRemoteError startTransfer listOutcome listCommand parseListing unlock withTransfer
  mapRefusal asUnit execOutput)

/-- A `suppaftp` call, awaited; the stream builder is the one
src/client/tokio.rs:635-652 installs. -/
def call (h : Conn) (c : Command) : Io (FtpResult Response) := do
  await (.send h c)
  if c.opensData then
    if ← await (.builder h) then step (.storeUsable false)
  await (.recv h c)

/-- Locks the control stream for one operation; mirrors
src/client/tokio.rs:378-391 -/
def lockStream : Io (RemoteResult Unit) := do
  await .lock
  match ← checkOperationState with
  | .error e => unlock; pure (.error e)
  | .ok () =>
    match ← step .slot with
    | none => unlock; pure (.error (.new .notConnected))
    | some _ => pure (.ok ())

/-- `StreamGuard::stream`; mirrors src/client/tokio.rs:156-160 -/
def guardStream : Io Conn := do
  match ← step .slot with
  | none => .panic
  | some stream => pure stream

/-- `StreamGuard::complete`: the operation is complete, the lock released;
mirrors src/client/tokio.rs:163-165 -/
def complete : Io Unit := step .unlock

/-- What a future dropped while `p` waits drops last: its `StreamGuard`. -/
def guarded {α : Type} (p : Io α) : Io α := p.holding dropStreamGuard

/-- mirrors src/client/tokio.rs:1089-1129 -/
def readListBytes (stream : Conn) (remote : Str) : Io (RemoteResult (List UInt8) × Bool) := do
  match ← call stream (listCommand remote) with
  | .error err => pure (.error (ftpError err), transferSetupRequiresReconnect err)
  | .ok _ =>
    Prog.holding [Eff.dropTransfer stream] do
      let readResult ← await (.readToEnd stream)
      let finishResult ← await (.finish stream)
      pure (listOutcome readResult finishResult)

/-- The mutex is released before the failure is recorded; mirrors
src/client/tokio.rs:554-564 -/
def listDirRaw (X : Ext) (path : Path) (remote : Str) : Io (RemoteResult (List File)) := do
  match ← lockStream with
  | .error e => pure (.error e)
  | .ok () =>
    let stream ← guardStream
    let (result, requiresReconnect) ← guarded (readListBytes stream remote)
    complete
    if requiresReconnect then markConnectionUnusable
    match result with
    | .error e => pure (.error e)
    | .ok bytes => parseListing X path bytes

/-- The mutex is released before the failure is recorded; mirrors
src/client/tokio.rs:567-580 -/
def runCommand (c : Command) : Io (RemoteResult (FtpResult Response)) := do
  match ← lockStream with
  | .error e => pure (.error e)
  | .ok () =>
    let stream ← guardStream
    let result ← guarded (call stream c)
    complete
    recordFtpResult result
    pure (.ok result)

/-- The root branch of `stat`; mirrors src/client/tokio.rs:789-797 -/
def statRoot (path : Path) : Io (RemoteResult File) := do
  match ← lockStream with
  | .error e => pure (.error e)
  | .ok () =>
    complete
    pure (.ok (rootEntry path))

def client (X : Ext) : Client where
  listDirRaw := listDirRaw X
  statRoot := statRoot

variable (X : Ext)

def stat (path : Path) : Io (RemoteResult File) := (client X).stat path
def listDir (path : Path) : Io (RemoteResult (List File)) := (client X).listDir path
def exists' (path : Path) : Io (RemoteResult Bool) := (client X).exists' path

/-! ## Connecting -/

/-- What a future dropped while `p` waits drops last: the new stream. -/
def owning {α : Type} (stream : Conn) (p : Io α) : Io α := p.holding [Eff.close stream]

/-- The second check of `connect`; mirrors src/client/tokio.rs:620-622 -/
def hasUsableStream : Io Bool := do
  if ← step .loadUsable then
    let slot ← step .slot
    pure slot.isSome
  else pure false

/-- mirrors src/client/tokio.rs:623-627 -/
def discardUnusable : Io Unit := do
  if !(← step .loadUsable) then
    if let some old := ← step .take then step (.close old)
    step (.storeConnected false)
    step (.storeUsable true)

/-- mirrors src/client/tokio.rs:628-694 -/
def connectStream (o : Options) : Io (RemoteResult Unit) := do
  match ← await (.connect o.hostname o.port) with
  | .error e => pure (.error (ftpError e))
  | .ok stream =>
    match ← owning stream (setup call o stream) with
    | .error e => step (.close stream); pure (.error e)
    | .ok () =>
      let banner ← step (.getWelcomeMsg stream)
      step (.storeWelcome banner)
      step (.put stream)
      step (.storeConnected true)
      pure (.ok ())

/-- mirrors src/client/tokio.rs:613-695 -/
def connect (o : Options) : Io (RemoteResult Unit) := do
  if ← step .loadActive then
    pure (.error transferInProgress)
  else if ← hasUsableStream then
    pure (.error (.new .alreadyConnected))
  else
    discardUnusable
    connectStream o

/-- mirrors src/client/tokio.rs:722-729 -/
def quit (stream : Conn) : Io (RemoteResult Unit) := do
  match ← owning stream (call stream .quit) with
  | .ok _ =>
    step (.close stream)
    pure (.ok ())
  | .error e =>
    recordRemoteError (ftpError e)
    step (.close stream)
    pure (.error (ftpError e))

/-- mirrors src/client/tokio.rs:697-730 -/
def disconnect : Io (RemoteResult Unit) := do
  if ← step .loadActive then
    pure (.error transferInProgress)
  else
    let usable ← step .loadUsable
    match ← step .take with
    | none => pure (.error (.new .notConnected))
    | some stream =>
      step (.storeConnected false)
      step (.storeWelcome none)
      step (.storeUsable true)
      if !usable then
        step (.close stream)
        pure (.error (.withMessage .connectionError
          "the control connection was unusable and has been closed"))
      else
        quit stream

/-- mirrors src/client/tokio.rs:732-736 -/
def isConnected : Io Bool := do
  if ← step .loadUsable then
    if ← step .loadConnected then pure true else step .loadActive
  else pure false

/-- mirrors src/client/tokio.rs:368-373 -/
def welcomeMessage : Io (Option Str) := step .loadWelcome

/-! ## Operations -/

def setMetadata (path : Path) : Io (RemoteResult Unit) := unsupported [path]
def copy (src dest : Path) : Io (RemoteResult Unit) := unsupported [src, dest]
def symlink (path target : Path) : Io (RemoteResult Unit) := unsupported [path, target]

/-- mirrors src/client/tokio.rs:856-880 -/
def createDir (path : Path) : Io (RemoteResult Unit) :=
  withRemotePath path fun remote => do
    match ← runCommand (.mkdir remote) with
    | .error e => pure (.error e)
    | .ok (.ok _) => pure (.ok ())
    | .ok (.error err) =>
      if isCreationRefusal err then do
        let error ← (client X).classifyCreateDirRefusal path err
        pure (.error error)
      else pure (.error (ftpError err))

/-- `remove_file`, `remove_dir` and `rename` after their path checks; mirrors
src/client/tokio.rs:882-929 -/
def commandOr (c : Command) (classify : FtpError → Io RemoteError) : Io (RemoteResult Unit) := do
  match ← runCommand c with
  | .error e => pure (.error e)
  | .ok result =>
    let result ← mapRefusal result classify
    pure (asUnit result)

def removeFile (path : Path) : Io (RemoteResult Unit) :=
  withRemotePath path fun remote => commandOr (.rm remote) ((client X).classifyFileRefusal path)

def removeDir (path : Path) : Io (RemoteResult Unit) :=
  withRemotePath path fun remote =>
    commandOr (.rmdir remote) ((client X).classifyRemoveDirRefusal path)

def rename (src dest : Path) : Io (RemoteResult Unit) :=
  withRemotePath src fun remoteSrc =>
  withRemotePath dest fun remoteDest =>
    commandOr (.rename remoteSrc remoteDest) ((client X).classifyRenameRefusal src dest)

/-- `open` up to the release of the mutex: the transfer and whether the
server restarts at the offset; mirrors src/client/tokio.rs:947-987. The reset is
a `REST` exchange of its own, as in `FtpFs.requestOffset`. -/
def openTransfer (stream : Conn) (remote : Str) (offset : Nat) :
    Io (RemoteResult (FtpResult (Conn × Bool))) := do
  match ← (if 0 < offset then guarded (requestOffset X call stream offset)
      else pure (.ok false)) with
  | .error error =>
    recordRemoteError error
    complete
    pure (.error error)
  | .ok resumed =>
    let result ← guarded (call stream (.retrAsStream remote))
    if resumed && result.isOk = false then
      match ← guarded (call stream (.resumeTransfer 0)) with
      | .ok _ =>
        let result ← guarded (call stream (.retrAsStream remote))
        recordFtpResult result
        let result ← withTransfer result (stream, false)
        complete
        pure (.ok result)
      | .error error =>
        markConnectionUnusable
        complete
        pure (.error (ftpError error))
    else
      recordFtpResult result
      let result ← withTransfer result (stream, resumed)
      complete
      pure (.ok result)

/-- `open` from where the stream exists; mirrors src/client/tokio.rs:988-995 -/
def skipTo (reader : ReadStream) (offset : Nat) (resumed : Bool) : Io (RemoteResult ReadStream) :=
  if 0 < offset ∧ resumed = false then do
    match ← TokioReadStream.skipPrefix X reader offset with
    | (.error skip, reader) =>
      let e ← TokioReadStream.finishAfterSkip X reader skip
      pure (.error e)
    | (.ok (), reader) => pure (.ok reader)
  else pure (.ok reader)

/-- mirrors src/client/tokio.rs:943-996 -/
def open' (path : Path) (opts : ReadOptions) : Io (RemoteResult ReadStream) :=
  withRemotePath path fun remote => do
    let offset := opts.offset.getD 0
    match ← lockStream with
    | .error e => pure (.error e)
    | .ok () =>
      let stream ← guardStream
      match ← openTransfer X stream remote offset with
      | .error e => pure (.error e)
      | .ok result =>
        match ← mapRefusal result ((client X).classifyFileRefusal path) with
        | .error e => pure (.error e)
        | .ok (transfer, resumed) =>
          skipTo X (FtpReadStream.new transfer opts.length) offset resumed

/-- `create` and `append`; mirrors src/client/tokio.rs:998-1044 -/
def upload (c : Str → Command) (path : Path) : Io (RemoteResult WriteStream) :=
  withRemotePath path fun remote => do
    match ← lockStream with
    | .error e => pure (.error e)
    | .ok () =>
      let stream ← guardStream
      let result ← guarded (call stream (c remote))
      recordFtpResult result
      let result ← withTransfer result stream
      complete
      match ← mapRefusal result ((client X).classifyCreateRefusal path) with
      | .error e => pure (.error e)
      | .ok transfer => pure (.ok (FtpWriteStream.new transfer))

def create (path : Path) : Io (RemoteResult WriteStream) := upload X .putWithStream path
def append (path : Path) : Io (RemoteResult WriteStream) := upload X .appendWithStream path

/-- The mutex is released before the failure is recorded; mirrors
src/client/tokio.rs:1046-1063 -/
def exec (cmd : Str) : Io (RemoteResult ExecOutput) := do
  match ← lockStream with
  | .error e => pure (.error e)
  | .ok () =>
    let stream ← guardStream
    let result ← guarded (call stream (.site cmd))
    complete
    match result with
    | .error e =>
      recordRemoteError (ftpError e)
      pure (.error (ftpError e))
    | .ok response => pure (.ok (execOutput X response))

/-- One operation of `TokioFtpFs`. -/
def run : Op → Io Out
  | .connect o => leaving (connect o) nothing
  | .disconnect => leaving disconnect nothing
  | .isConnected => leaving isConnected nothing
  | .welcomeMessage => leaving welcomeMessage nothing
  | .listDir path => leaving (listDir X path) nothing
  | .stat path => leaving (stat X path) nothing
  | .exists' path => leaving (TokioFtpFs.exists' X path) nothing
  | .setMetadata path => leaving (setMetadata path) nothing
  | .createDir path => leaving (createDir X path) nothing
  | .removeFile path => leaving (removeFile X path) nothing
  | .removeDir path => leaving (removeDir X path) nothing
  | .rename src dest => leaving (rename X src dest) nothing
  | .copy src dest => leaving (copy src dest) nothing
  | .symlink path target => leaving (symlink path target) nothing
  | .open' path opts => leaving (TokioFtpFs.open' X path opts) Out.ofRead
  | .create path => leaving (create X path) Out.ofWrite
  | .append path => leaving (append X path) Out.ofWrite
  | .exec cmd => leaving (exec X cmd) nothing

/-- One operation on an owned stream of `TokioFtpFs`. -/
def runStream : OwnedStream → StreamOp → Option (Io Out)
  | .read s, .read bufLen =>
    some (leaving (TokioReadStream.read X s bufLen) fun r => .stream (.read r.2))
  | .read s, .finish => some (leaving (TokioReadStream.finish X s) nothing)
  | .read s, .drop => some (leaving (TokioReadStream.drop s) nothing)
  | .write s, .write buf => some (leaving (TokioWriteStream.write s buf) fun _ => .stream (.write s))
  | .write s, .flush => some (leaving (TokioWriteStream.flush s) fun _ => .stream (.write s))
  | .write s, .finish => some (leaving (TokioWriteStream.finish X s) nothing)
  | .write s, .drop => some (leaving (TokioWriteStream.drop s) nothing)
  | _, _ => none

end TokioFtpFs
end RemotefsFtp.L3
