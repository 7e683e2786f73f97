import RemotefsFtp.L2Remote.Rows
import RemotefsFtp.L3Client.Probe

/-!
# The blocking client (`src/client/sync.rs`)

`FtpFs`, function by function. Each runs on `Io`; the receiver's state is
`Shared`. Logging is left out. No step is a suspension point.
-/
namespace RemotefsFtp.L3

open L1 (Str Path)
open L2
open Core (Prog)

/-- The options of a client; mirrors src/client/sync.rs:97-119. `secure` is
`false` in a build without TLS. -/
structure Options where
  hostname : Str
  port : Nat
  username : Str := "anonymous".toList
  password : Option Str := none
  passiveStreamBuilder : Bool := false
  mode : L2.Mode := .passive
  secure : Bool := false

structure ReadOptions where
  offset : Option Nat := none
  length : Option Nat := none

/-- What `suppaftp`, `remotefs` and the target decide without I/O. -/
structure Ext where
  listParser : ListParser
  /-- `RemoteError::from(io::Error)`. -/
  ioErrorKind : IoError → RemoteErrorType
  /-- `String::from_utf8_lossy`. -/
  fromUtf8Lossy : List UInt8 → Str
  /-- `usize::MAX`. -/
  usizeMax : Nat
  usizeMax_pos : 0 < usizeMax

/-- `usize::MAX` of a 64-bit target. -/
def usizeMax64 : Nat := 18446744073709551615

theorem usizeMax64_pos : 0 < usizeMax64 := by decide

def Ext.ioError (X : Ext) (err : IoError) : RemoteError := .withIo (X.ioErrorKind err) err

def transferInProgress : RemoteError :=
  .withMessage .protocolError "a data transfer is in progress; finish or drop its stream first"

def connectionUnusable : RemoteError :=
  .withMessage .connectionError "the control connection is unusable; reconnect before retrying"

/-- A `suppaftp` call: the command goes out, the custom stream builder opens
the data connection of a data command, the reply comes back. The builder
`connect` installs clears `connection_usable` when it fails; mirrors
src/client/sync.rs:685-691 -/
def call (h : Conn) (c : Command) : Io (FtpResult Response) := do
  step (.send h c)
  if c.opensData then
    if ← step (.builder h) then step (.storeUsable false)
  step (.recv h c)

/-- `usize::try_from(offset)`, then `REST`; mirrors src/client/sync.rs:546-567
and src/client/tokio.rs:1067-1086. Assumed of `suppaftp`: `resume_transfer` is
one exchange made on the spot, whose reply it returns. So the scripted server of
`ranged_open_requests_rest_before_retr` has it, and `suppaftp` 12.2.0 does it. -/
def requestOffset (X : Ext) (call : Conn → Command → Io (FtpResult Response)) (stream : Conn)
    (offset : Nat) : Io (RemoteResult Bool) :=
  if X.usizeMax < offset then pure (.ok false)
  else do
    match ← call stream (.resumeTransfer offset) with
    | .ok _ => pure (.ok true)
    | .error (.unexpectedResponse response) =>
      if response.status ≠ .notAvailable then pure (.ok false)
      else pure (.error (ftpError (.unexpectedResponse response)))
    | .error error => pure (.error (ftpError error))

/-- mirrors src/client/sync.rs:681-693 and src/client/tokio.rs:635-653 -/
def installBuilder (o : Options) (stream : Conn) : Io Unit :=
  if o.passiveStreamBuilder then step (.passiveStreamBuilder stream) else pure ()

/-- mirrors src/client/sync.rs:695-717 and src/client/tokio.rs:654-669 -/
def secure (call : Conn → Command → Io (FtpResult Response)) (o : Options) (stream : Conn) :
    Io (RemoteResult Unit) :=
  if o.secure then do
    if ← step .setupTlsConnector then
      match ← call stream .intoSecure with
      | .ok _ => pure (.ok ())
      | .error e => pure (.error (.withFtp .connectionError e))
    else
      pure (.error (.withOther .connectionError))
  else pure (.ok ())

/-- mirrors src/client/sync.rs:718-735 and src/client/tokio.rs:670-688 -/
def login (call : Conn → Command → Io (FtpResult Response)) (o : Options) (stream : Conn) :
    Io (RemoteResult Unit) := do
  match ← call stream (.login o.username (o.password.getD [])) with
  | .error e => pure (.error (ftpError e))
  | .ok _ =>
    match ← call stream .transferTypeBinary with
    | .error e => pure (.error (ftpError e))
    | .ok _ => pure (.ok ())

/-- What `connect` does with a new stream before it installs it. -/
def setup (call : Conn → Command → Io (FtpResult Response)) (o : Options) (stream : Conn) :
    Io (RemoteResult Unit) := do
  installBuilder o stream
  step (.setMode stream o.mode)
  match ← secure call o stream with
  | .error e => pure (.error e)
  | .ok () => login call o stream

namespace FtpFs

/-- mirrors src/client/sync.rs:337-339 -/
def lock : Io Unit := step .lock

/-- The end of a `MutexGuard`. -/
def unlock : Io Unit := step .unlock

/-- mirrors src/client/sync.rs:382-396 -/
def checkOperationState : Io (RemoteResult Unit) := do
  if ← step .loadActive then
    pure (.error transferInProgress)
  else if !(← step .loadUsable) then
    pure (.error connectionUnusable)
  else
    pure (.ok ())

/-- mirrors src/client/sync.rs:399-401 -/
def markConnectionUnusable : Io Unit := step (.storeUsable false)

/-- mirrors src/client/sync.rs:404-408 -/
def recordFtpError (error : FtpError) : Io Unit :=
  if transferSetupRequiresReconnect error then markConnectionUnusable else pure ()

/-- mirrors src/client/sync.rs:411-415 -/
def recordRemoteError (error : RemoteError) : Io Unit :=
  if remoteErrorRequiresReconnect error then markConnectionUnusable else pure ()

/-- `if let Err(error) = &result { self.record_ftp_error(error); }` -/
def recordFtpResult {α : Type} (result : FtpResult α) : Io Unit :=
  match result with
  | .ok _ => pure ()
  | .error error => recordFtpError error

def recordRemoteResult {α : Type} (result : RemoteResult α) : Io Unit :=
  match result with
  | .ok _ => pure ()
  | .error error => recordRemoteError error

/-- mirrors src/client/sync.rs:345-356 -/
def withStream {α : Type} (f : Conn → Io (RemoteResult α)) : Io (RemoteResult α) := do
  lock
  match ← checkOperationState with
  | .error e => unlock; pure (.error e)
  | .ok () =>
    match ← step .slot with
    | none => unlock; pure (.error (.new .notConnected))
    | some stream =>
      let result ← f stream
      recordRemoteResult result
      unlock
      pure result

/-- `ExclusiveStream::drop`; mirrors src/client/sync.rs:128-135 -/
def dropExclusive (stream : Conn) : Io Unit := do
  lock
  step (.put stream)
  unlock
  step .exclusiveDrop

/-- mirrors src/client/sync.rs:359-379 -/
def withExclusiveStream {α : Type} (f : Conn → Io (RemoteResult α)) : Io (RemoteResult α) := do
  lock
  match ← checkOperationState with
  | .error e => unlock; pure (.error e)
  | .ok () =>
    match ← step .take with
    | none => unlock; pure (.error (.new .notConnected))
    | some stream =>
      step (.storeActive true)
      unlock
      step .exclusiveNew
      let result ← f stream
      recordRemoteResult result
      dropExclusive stream
      pure result

/-- mirrors src/client/sync.rs:537-543 -/
def startTransfer : Io Unit := do
  step (.storeActive true)
  step .guardNew

/-- How a data read and its completion reply end a `LIST`; mirrors
src/client/sync.rs:638-653 -/
def listOutcome (read : Except IoError (List UInt8)) (finish : FtpResult Unit) :
    RemoteResult (List UInt8) × Bool :=
  match read, finish with
  | .ok bytes, .ok () => (.ok bytes, false)
  | .error read, .ok () => (.error (ftpError (.connectionError read)), true)
  | .ok _, .error finish => (.error (ftpError finish), true)
  | .error read, .error finish =>
    let read := ftpError (.connectionError read)
    let finish := ftpError finish
    (.error (.withCleanup read.kind .list read finish), true)

/-- The `LIST` command line. -/
def listCommand (remote : Str) : Command := .customDataCommand ("LIST ".toList ++ remote)

/-- mirrors src/client/sync.rs:621-654 -/
def readListBytes (stream : Conn) (remote : Str) : Io (RemoteResult (List UInt8) × Bool) := do
  match ← call stream (listCommand remote) with
  | .error err => pure (.error (ftpError err), transferSetupRequiresReconnect err)
  | .ok _ =>
    let readResult ← step (.readToEnd stream)
    let finishResult ← step (.finish stream)
    pure (listOutcome readResult finishResult)

/-- `decode_list_bytes(bytes).map_err(ftp_error)?` and `parse_list_lines`. -/
def parseListing (X : Ext) (path : Path) (bytes : List UInt8) : Io (RemoteResult (List File)) :=
  match decodeListBytes bytes with
  | .error err => pure (.error (ftpError err))
  | .ok lines =>
    match (parseListLines X.listParser path lines).run with
    | none => .panic
    | some r => pure r

/-- The client returns what the data say. -/
theorem parseListing_eq (X : Ext) (path : Path) (bytes : List UInt8) : parseListing X path bytes =
    pure ((readRows X.listParser bytes).map (List.map (listedFile path))) := by
  have h := readListing_eq X.listParser path bytes
  unfold readListing at h
  unfold parseListing
  cases hd : decodeListBytes bytes with
  | error err =>
    rw [hd] at h
    exact congrArg pure (Option.some.inj h)
  | ok lines =>
    rw [hd] at h
    dsimp only at h ⊢
    rw [h]

/-- mirrors src/client/sync.rs:604-617 -/
def listDirRaw (X : Ext) (path : Path) (remote : Str) : Io (RemoteResult (List File)) := do
  let bytes ← withExclusiveStream fun stream => do
    let (result, requiresReconnect) ← readListBytes stream remote
    if requiresReconnect then markConnectionUnusable
    pure result
  match bytes with
  | .error e => pure (.error e)
  | .ok bytes => parseListing X path bytes

/-- The root branch of `stat`; mirrors src/client/sync.rs:826-834 -/
def statRoot (path : Path) : Io (RemoteResult File) :=
  withStream fun _ => pure (.ok (rootEntry path))

def client (X : Ext) : Client where
  listDirRaw := listDirRaw X
  statRoot := statRoot

variable (X : Ext)

def stat (path : Path) : Io (RemoteResult File) := (client X).stat path
def listDir (path : Path) : Io (RemoteResult (List File)) := (client X).listDir path
def exists' (path : Path) : Io (RemoteResult Bool) := (client X).exists' path

/-! ## Connecting -/

/-- The second check of `connect`; mirrors src/client/sync.rs:664-666 -/
def hasUsableStream : Io Bool := do
  if ← step .loadUsable then
    lock
    let slot ← step .slot
    unlock
    pure slot.isSome
  else pure false

/-- The statement drops the old stream before the mutex guard; mirrors
src/client/sync.rs:667-672 -/
def discardUnusable : Io Unit := do
  if !(← step .loadUsable) then
    lock
    if let some old := ← step .take then step (.close old)
    unlock
    step (.storeUsable true)

/-- mirrors src/client/sync.rs:673-738 -/
def connectStream (o : Options) : Io (RemoteResult Unit) := do
  match ← step (.connect o.hostname o.port) with
  | .error e => pure (.error (ftpError e))
  | .ok stream =>
    match ← setup call o stream with
    | .error e => step (.close stream); pure (.error e)
    | .ok () =>
      lock
      step (.put stream)
      unlock
      pure (.ok ())

/-- mirrors src/client/sync.rs:657-739 -/
def connect (o : Options) : Io (RemoteResult Unit) := do
  if ← step .loadActive then
    pure (.error transferInProgress)
  else if ← hasUsableStream then
    pure (.error (.new .alreadyConnected))
  else
    discardUnusable
    connectStream o

/-- mirrors src/client/sync.rs:761-768 -/
def quit (stream : Conn) : Io (RemoteResult Unit) := do
  match ← call stream .quit with
  | .ok _ =>
    step (.close stream)
    pure (.ok ())
  | .error e =>
    recordRemoteError (ftpError e)
    step (.close stream)
    pure (.error (ftpError e))

/-- mirrors src/client/sync.rs:741-769 -/
def disconnect : Io (RemoteResult Unit) := do
  if ← step .loadActive then
    pure (.error transferInProgress)
  else
    let usable ← step .loadUsable
    lock
    let slot ← step .take
    unlock
    match slot with
    | none => pure (.error (.new .notConnected))
    | some stream =>
      step (.storeUsable true)
      if !usable then
        step (.close stream)
        pure (.error (.withMessage .connectionError
          "the control connection was unusable and has been closed"))
      else
        quit stream

/-- The mutex guard lives to the end of the second operand of `&&`; mirrors
src/client/sync.rs:771-774 -/
def isConnected : Io Bool := do
  if ← step .loadUsable then
    lock
    let slot ← step .slot
    let connected ← if slot.isSome then pure true else step .loadActive
    unlock
    pure connected
  else pure false

/-- mirrors src/client/sync.rs:329-333 -/
def welcomeMessage : Io (Option Str) := do
  lock
  match ← step .slot with
  | none => unlock; pure none
  | some stream =>
    let banner ← step (.getWelcomeMsg stream)
    unlock
    pure banner

end FtpFs
end RemotefsFtp.L3
