import RemotefsFtp.L1Text.Str

/-!
# Errors (`src/client/error.rs`)

`suppaftp` failures, the typed `RemoteError` they become, and the predicates
on both that decide when the control connection must be replaced. A
`RemoteError` is built by the kind of source it keeps; `Error::source` chains
are followed by recursion on it. The sources of an `io::Error` are not
followed: they are not `FtpError`s.

Results:
* `remoteErrorRequiresReconnect_ftpError`: mapping an FTP failure keeps
  whether it needs a reconnect.
* `ftpError_missing`: only a `550` maps to `NoSuchFileOrDirectory`, and such
  an error is an ambiguous refusal.
-/
namespace RemotefsFtp.L2

open L1 (Str)

/-- `suppaftp::Status`: the replies the client tells apart, and the others by code. -/
inductive Status where
  | aboutToSend
  | alreadyOpen
  | notAvailable
  | cannotOpenDataConnection
  | transferAborted
  | badCommand
  | badArguments
  | notImplemented
  | notImplementedParameter
  | notLoggedIn
  | storingNeedAccount
  | fileUnavailable
  | badFilename
  | other (code : Nat)
  deriving DecidableEq

/-- `Status::code`. -/
def Status.code : Status → Nat
  | .aboutToSend => 150
  | .alreadyOpen => 125
  | .notAvailable => 421
  | .cannotOpenDataConnection => 425
  | .transferAborted => 426
  | .badCommand => 500
  | .badArguments => 501
  | .notImplemented => 502
  | .notImplementedParameter => 504
  | .notLoggedIn => 530
  | .storingNeedAccount => 532
  | .fileUnavailable => 550
  | .badFilename => 553
  | .other code => code

/-- `suppaftp::types::Response`. -/
structure Response where
  status : Status
  body : List UInt8
  deriving DecidableEq

/-- `std::io::Error`, by its `ErrorKind`: `Interrupted` is the kind that
blocking reads retry. -/
inductive IoError where
  | interrupted
  | other (kind : Nat)
  deriving DecidableEq

/-- `suppaftp::FtpError`. -/
inductive FtpError where
  | connectionError (err : IoError)
  | secureError (message : String)
  | unexpectedResponse (response : Response)
  | badResponse
  | invalidAddress
  | dataConnectionAlreadyOpen
  deriving DecidableEq

/-- `suppaftp::list::ParseError`. -/
inductive ParseError where
  | syntaxError
  | invalidDate
  | badSize
  | other (code : Nat)
  deriving DecidableEq

/-- `remotefs::RemoteErrorType`: the kinds the client uses, and the others. -/
inductive RemoteErrorType where
  | alreadyConnected
  | alreadyExists
  | authenticationFailed
  | badAddress
  | badFile
  | connectionError
  | directoryNotEmpty
  | invalidPath
  | noSuchFileOrDirectory
  | notConnected
  | permissionDenied
  | protocolError
  | unsupportedFeature
  | other (kind : Nat)
  deriving DecidableEq

/-- A message, with the argument of its `{:?}` when it has one. -/
structure Message where
  text : String
  debug : Option Str := none
  deriving DecidableEq

/-- The failures that keep two errors; `source` is the second one. -/
inductive Cleanup where
  /-- `ListCleanupFailure`; mirrors src/client/error.rs:131-150 -/
  | list
  /-- `CleanupFailure`; mirrors src/client/sync/stream.rs:93-112 -/
  | drain
  /-- `SkipCleanupFailure`; mirrors src/client/sync/stream.rs:328-347 -/
  | skip
  /-- `WriteCleanupFailure`; mirrors src/client/sync/stream.rs:321-324 -/
  | write
  deriving DecidableEq

/-- `remotefs::RemoteError`: `RemoteError::new` and `with_message`, and
`with_source` for each type of source. -/
inductive RemoteError where
  | plain (kind : RemoteErrorType) (message : Option Message)
  | withFtp (kind : RemoteErrorType) (source : FtpError)
  | withIo (kind : RemoteErrorType) (source : IoError)
  | withParse (kind : RemoteErrorType) (source : ParseError)
  | withRemote (kind : RemoteErrorType) (source : RemoteError)
  | withCleanup (kind : RemoteErrorType) (what : Cleanup) (first finish : RemoteError)
  /-- A source of a type outside this list, with no `FtpError` behind it. -/
  | withOther (kind : RemoteErrorType)
  deriving DecidableEq

abbrev RemoteResult (α : Type) := Except RemoteError α
abbrev FtpResult (α : Type) := Except FtpError α

namespace RemoteError

def new (kind : RemoteErrorType) : RemoteError := plain kind none

def withMessage (kind : RemoteErrorType) (text : String) : RemoteError := plain kind (some ⟨text, none⟩)

@[simp] def kind : RemoteError → RemoteErrorType
  | plain k _ => k
  | withFtp k _ => k
  | withIo k _ => k
  | withParse k _ => k
  | withRemote k _ => k
  | withCleanup k _ _ _ => k
  | withOther k => k

@[simp] theorem kind_new (k : RemoteErrorType) : (new k).kind = k := rfl
@[simp] theorem kind_withMessage (k : RemoteErrorType) (t : String) : (withMessage k t).kind = k := rfl

end RemoteError

/-! ## Mapping `suppaftp` failures -/

/-- mirrors src/client/error.rs:47-61 -/
def statusKind : Status → RemoteErrorType
  | .notAvailable | .cannotOpenDataConnection | .transferAborted => .connectionError
  | .notLoggedIn => .authenticationFailed
  | .storingNeedAccount | .badFilename => .permissionDenied
  | .fileUnavailable => .noSuchFileOrDirectory
  | .badCommand | .badArguments | .notImplemented | .notImplementedParameter => .unsupportedFeature
  | _ => .protocolError

/-- mirrors src/client/error.rs:26-42 -/
def ftpErrorKind : FtpError → RemoteErrorType
  | .connectionError _ => .connectionError
  | .secureError _ => .connectionError
  | .invalidAddress => .badAddress
  | .unexpectedResponse response => statusKind response.status
  | .badResponse | .dataConnectionAlreadyOpen => .protocolError

/-- mirrors src/client/error.rs:25-44 -/
def ftpError (err : FtpError) : RemoteError := .withFtp (ftpErrorKind err) err

/-- mirrors src/client/error.rs:64-81 -/
def transferSetupRequiresReconnect : FtpError → Bool
  | .connectionError _ | .badResponse => true
  | .secureError _ => true
  | .unexpectedResponse response => response.status = .notAvailable
  | .invalidAddress | .dataConnectionAlreadyOpen => true

/-- The first `FtpError` of `err`'s source chain. -/
def firstFtpError : RemoteError → Option FtpError
  | .plain _ _ => none
  | .withFtp _ source => some source
  | .withIo _ _ => none
  | .withParse _ _ => none
  | .withRemote _ source => firstFtpError source
  | .withCleanup _ _ _ finish => firstFtpError finish
  | .withOther _ => none

/-- mirrors src/client/error.rs:84-93 -/
def remoteErrorRequiresReconnect (err : RemoteError) : Bool :=
  match firstFtpError err with
  | some ftpError => transferSetupRequiresReconnect ftpError
  | none => err.kind = .connectionError

/-- mirrors src/client/error.rs:96-101 -/
def isFileUnavailable : FtpError → Bool
  | .unexpectedResponse response => response.status = .fileUnavailable
  | _ => false

/-- mirrors src/client/error.rs:104-110 -/
def isCreationRefusal : FtpError → Bool
  | .unexpectedResponse response =>
    response.status = .fileUnavailable ∨ response.status = .badFilename
  | _ => false

/-- The loop skips `FtpError`s that are no reply, none of which has an
`FtpError` behind it; mirrors src/client/error.rs:113-122 -/
def isAmbiguousPathRefusal (err : RemoteError) : Bool :=
  match firstFtpError err with
  | some ftpError => isFileUnavailable ftpError
  | none => false

/-- mirrors src/client/error.rs:125-127 -/
def ambiguousPathPermission (err : RemoteError) : RemoteError := .withRemote .permissionDenied err

@[simp] theorem kind_ftpError (err : FtpError) : (ftpError err).kind = ftpErrorKind err := rfl

@[simp] theorem firstFtpError_ftpError (err : FtpError) : firstFtpError (ftpError err) = some err :=
  rfl

theorem remoteErrorRequiresReconnect_ftpError (err : FtpError) :
    remoteErrorRequiresReconnect (ftpError err) = transferSetupRequiresReconnect err := rfl

theorem ftpErrorKind_missing {err : FtpError} :
    ftpErrorKind err = .noSuchFileOrDirectory ↔ isFileUnavailable err = true := by
  cases err with
  | unexpectedResponse response =>
    simp only [ftpErrorKind, isFileUnavailable]
    cases response.status <;> simp [statusKind]
  | _ => simp [ftpErrorKind, isFileUnavailable]

theorem ftpError_missing {err : FtpError} (h : (ftpError err).kind = .noSuchFileOrDirectory) :
    isAmbiguousPathRefusal (ftpError err) = true := ftpErrorKind_missing.mp h

theorem isCreationRefusal_of_isFileUnavailable {err : FtpError} (h : isFileUnavailable err = true) :
    isCreationRefusal err = true := by
  cases err with
  | unexpectedResponse response => simp_all [isFileUnavailable, isCreationRefusal]
  | _ => simp [isFileUnavailable] at h

/-- A refusal that leaves a missing path open leaves the replies in step. -/
theorem not_requiresReconnect_of_isCreationRefusal {err : FtpError}
    (h : isCreationRefusal err = true) : transferSetupRequiresReconnect err = false := by
  cases err with
  | unexpectedResponse response =>
    simp only [isCreationRefusal, decide_eq_true_eq] at h
    rcases h with h | h <;> simp [transferSetupRequiresReconnect, h]
  | _ => simp [isCreationRefusal] at h

end RemotefsFtp.L2
