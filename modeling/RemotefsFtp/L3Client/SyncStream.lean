import RemotefsFtp.L3Client.Sync

/-!
# Owned streams of the blocking client (`src/client/sync/stream.rs`)

Method by method. A `&mut self` method returns the updated stream; the end of
a stream drops its `TransferGuard`.
-/
namespace RemotefsFtp.L3

open L2

/-- `usize::try_from(budget).unwrap_or(usize::MAX).min(buf.len())`. -/
def readLimit (X : Ext) (budget bufLen : Nat) : Nat :=
  min (if budget ≤ X.usizeMax then budget else X.usizeMax) bufLen

theorem readLimit_le (X : Ext) (budget bufLen : Nat) : readLimit X budget bufLen ≤ budget := by
  unfold readLimit
  split <;> omega

theorem readLimit_pos (X : Ext) {budget bufLen : Nat} (hb : budget ≠ 0) (hl : bufLen ≠ 0) :
    0 < readLimit X budget bufLen := by
  have := X.usizeMax_pos
  unfold readLimit
  split <;> omega

/-- Both results of a cleanup in two steps, the second of which is a reply;
`kind` picks the kind when both failed. -/
def cleanupOutcome (what : Cleanup) (kind : RemoteError → RemoteError → RemoteErrorType)
    (first finished : RemoteResult Unit) : RemoteResult Unit :=
  match first, finished with
  | .ok (), .ok () => .ok ()
  | .error error, .ok () => .error error
  | .ok (), .error error => .error error
  | .error first, .error finish => .error (.withCleanup (kind first finish) what first finish)

def mapIoError {α : Type} (X : Ext) (r : Except IoError α) : RemoteResult Unit :=
  match r with
  | .ok _ => .ok ()
  | .error e => .error (X.ioError e)

def mapFtpError (r : FtpResult Unit) : RemoteResult Unit :=
  match r with
  | .ok () => .ok ()
  | .error e => .error (ftpError e)

namespace FtpReadStream

variable (X : Ext)

/-- mirrors src/client/sync/stream.rs:134-141 -/
def new (inner : Conn) (length : Option Nat) : ReadStream where
  inner := some inner
  remaining := length
  atEof := false

/-- The bytes read and the budget left. A longer read than the budget would
overflow; mirrors src/client/sync/stream.rs:36-51 -/
def readLimited (inner : Conn) (remaining : Option Nat) (bufLen : Nat) :
    Io (Except IoError (List UInt8) × Option Nat) :=
  match remaining with
  | none => do
    match ← step (.read inner bufLen) with
    | .error e => pure (.error e, none)
    | .ok bytes => pure (.ok bytes.1, none)
  | some budget =>
    if budget = 0 then pure (.ok [], some 0)
    else do
      match ← step (.read inner (readLimit X budget bufLen)) with
      | .error e => pure (.error e, some budget)
      | .ok bytes =>
        if bytes.1.length ≤ budget then pure (.ok bytes.1, some (budget - bytes.1.length))
        else .panic

/-- mirrors src/client/sync/stream.rs:185-198 -/
def read (s : ReadStream) (bufLen : Nat) : Io (Except IoError (List UInt8) × ReadStream) :=
  if bufLen = 0 then pure (.ok [], s)
  else
    match s.inner with
    | none => .panic
    | some inner => do
      let (result, remaining) ← readLimited X inner s.remaining bufLen
      let s := { s with remaining := remaining }
      match result with
      | .error e => pure (.error e, s)
      | .ok bytes =>
        if bytes.length = 0 ∧ remaining ≠ some 0 then pure (.ok bytes, { s with atEof := true })
        else pure (.ok bytes, s)

/-- mirrors src/client/sync/stream.rs:146-156 -/
def skipPrefix (s : ReadStream) (offset : Nat) : Io (RemoteResult Unit × ReadStream) :=
  match s.inner with
  | none => .panic
  | some inner => do
    match ← step (.copyTake inner offset) with
    | .error e => pure (.error (X.ioError e), s)
    | .ok skipped =>
      if skipped < offset then pure (.ok (), { s with atEof := true }) else pure (.ok (), s)

/-- mirrors src/client/sync/stream.rs:54-89 -/
def finishRead (inner : Conn) (atEof : Bool) : Io (RemoteResult Unit) := do
  let drained : RemoteResult Unit ←
    if !atEof then do
      let r ← step (.copyAll inner)
      pure (mapIoError X r)
    else pure (.ok ())
  let finished ← step (.finish inner)
  pure (cleanupOutcome .drain (fun drain _ => drain.kind) drained (mapFtpError finished))

/-- `TransferGuard::invalidate`; mirrors src/client/guard.rs:25-27 -/
def invalidate : Io Unit := step (.storeUsable false)

/-- `if result.is_err() { self.guard.invalidate(); }` -/
def invalidateOnErr (result : RemoteResult Unit) : Io Unit :=
  if result.isOk = false then invalidate else pure ()

/-- mirrors src/client/sync/stream.rs:171-178 -/
def finishInner (s : ReadStream) : Io (RemoteResult Unit × ReadStream) :=
  match s.inner with
  | none => .panic
  | some inner => do
    let result ← finishRead X inner s.atEof
    invalidateOnErr result
    pure (result, { s with inner := none })

/-- mirrors src/client/sync/stream.rs:216-223 -/
def drop (s : ReadStream) : Io Unit := do
  match s.inner with
  | none => pure ()
  | some inner =>
    let result ← finishRead X inner s.atEof
    invalidateOnErr result
  step .guardDrop

/-- mirrors src/client/sync/stream.rs:205-209 -/
def finish (s : ReadStream) : Io (RemoteResult Unit) := do
  let (result, s) ← finishInner X s
  drop X s
  pure result

/-- mirrors src/client/sync/stream.rs:159-168 -/
def finishAfterSkip (s : ReadStream) (skip : RemoteError) : Io RemoteError := do
  let (finished, s) ← finishInner X s
  drop X s
  match finished with
  | .ok () => pure skip
  | .error finish => pure (.withCleanup skip.kind .skip skip finish)

end FtpReadStream

namespace FtpWriteStream

variable (X : Ext)

/-- mirrors src/client/sync/stream.rs:240-245 -/
def new (inner : Conn) : WriteStream where
  inner := some inner

/-- mirrors src/client/sync/stream.rs:252-257 -/
def write (s : WriteStream) (buf : List UInt8) : Io (Except IoError Nat) :=
  match s.inner with
  | none => .panic
  | some inner => step (.write inner buf)

/-- mirrors src/client/sync/stream.rs:259-264 -/
def flush (s : WriteStream) : Io (Except IoError Unit) :=
  match s.inner with
  | none => .panic
  | some inner => step (.flush inner false)

/-- mirrors src/client/sync/stream.rs:297-317 -/
def finishWrite (inner : Conn) : Io (RemoteResult Unit) := do
  let flushed ← step (.flush inner true)
  let finished ← step (.finish inner)
  pure (cleanupOutcome .write (fun _ finish => finish.kind) (mapIoError X flushed)
    (mapFtpError finished))

/-- mirrors src/client/sync/stream.rs:286-293 -/
def drop (s : WriteStream) : Io Unit := do
  match s.inner with
  | none => pure ()
  | some inner =>
    let result ← finishWrite X inner
    FtpReadStream.invalidateOnErr result
  step .guardDrop

/-- mirrors src/client/sync/stream.rs:271-279 -/
def finish (s : WriteStream) : Io (RemoteResult Unit) :=
  match s.inner with
  | none => .panic
  | some inner => do
    let result ← finishWrite X inner
    FtpReadStream.invalidateOnErr result
    drop X { s with inner := none }
    pure result

end FtpWriteStream
end RemotefsFtp.L3
