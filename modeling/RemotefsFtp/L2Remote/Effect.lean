import RemotefsFtp.Core.Prog
import RemotefsFtp.L2Remote.Error

/-!
# What the clients share, and the steps they take

The state behind `&self` of a client (`sync.rs:90-120`, `tokio.rs:95-126`,
`guard.rs`) and its atomic steps: a mutex operation, one access to an atomic
flag, one `suppaftp` call or one operation on a data socket. A `suppaftp`
call is sent and answered in two steps, so that others can run in between.
What the environment decides (replies, bytes, I/O errors) comes from an
`Oracle`.

`wire`, `health`, `cancelled`, `guards` and `listing` are history: no program
reads them.
-/
namespace RemotefsFtp.L2

open L1 (Str)
open Core (Sig Prog)

/-- A control stream, one for each `FtpStream::connect` that succeeded. -/
abbrev Conn := Nat

/-- `suppaftp::types::Mode`. -/
inductive Mode where
  | active
  | passive
  deriving DecidableEq

/-- The `suppaftp` calls on a control stream. -/
inductive Command where
  | intoSecure
  | login (username password : Str)
  | transferTypeBinary
  | quit
  | mkdir (path : Str)
  | rm (path : Str)
  | rmdir (path : Str)
  | rename (src dest : Str)
  | site (cmd : Str)
  | resumeTransfer (offset : Nat)
  | retrAsStream (path : Str)
  | putWithStream (path : Str)
  | appendWithStream (path : Str)
  | customDataCommand (line : Str)
  deriving DecidableEq

/-- The calls that open a data connection. -/
def Command.opensData : Command → Bool
  | retrAsStream _ | putWithStream _ | appendWithStream _ | customDataCommand _ => true
  | _ => false

/-- The strings a call hands to `suppaftp`. -/
def Command.args : Command → List Str
  | intoSecure | transferTypeBinary | quit | resumeTransfer _ => []
  | login username password => [username, password]
  | mkdir path | rm path | rmdir path => [path]
  | rename src dest => [src, dest]
  | site cmd => [cmd]
  | retrAsStream path | putWithStream path | appendWithStream path => [path]
  | customDataCommand line => [line]

inductive Eff where
  -- the client mutex
  | lock
  | unlock
  -- the atomic flags and the cached banner
  | loadActive
  | storeActive (b : Bool)
  | loadUsable
  | storeUsable (b : Bool)
  | loadConnected
  | storeConnected (b : Bool)
  | loadWelcome
  | storeWelcome (w : Option Str)
  -- `Option<FtpStream>`
  | slot
  | take
  | put (h : Conn)
  | close (h : Conn)
  -- the control stream
  | connect (hostname : Str) (port : Nat)
  | getWelcomeMsg (h : Conn)
  | passiveStreamBuilder (h : Conn)
  | setMode (h : Conn) (mode : Mode)
  | setupTlsConnector
  | send (h : Conn) (c : Command)
  | builder (h : Conn)
  | recv (h : Conn) (c : Command)
  -- `ExclusiveStream` and `TransferGuard`
  | exclusiveNew
  | exclusiveDrop
  | guardNew
  | guardDrop
  -- the data socket of the transfer on `h`; `cleanup`: before finalization
  | read (h : Conn) (n : Nat)
  | copyTake (h : Conn) (n : Nat)
  | copyAll (h : Conn)
  | readToEnd (h : Conn)
  | write (h : Conn) (buf : List UInt8)
  | flush (h : Conn) (cleanup : Bool)
  | finish (h : Conn)
  | dropTransfer (h : Conn)
  -- the first poll of a future
  | poll

/-- What `read` puts into a buffer of `n` bytes. -/
abbrev Chunk (n : Nat) := { bytes : List UInt8 // bytes.length ≤ n }

/-- `builder` answers whether the user's stream builder ran and failed. -/
@[reducible] def Eff.Ret : Eff → Type
  | lock | unlock | storeActive _ | storeUsable _ | storeConnected _ | storeWelcome _ => Unit
  | loadActive | loadUsable | loadConnected => Bool
  | loadWelcome | getWelcomeMsg _ => Option Str
  | slot | take => Option Conn
  | put _ | close _ | passiveStreamBuilder _ | setMode _ _ | send _ _ => Unit
  | connect _ _ => FtpResult Conn
  | setupTlsConnector => Bool
  | builder _ => Bool
  | recv _ _ => FtpResult Response
  | exclusiveNew | exclusiveDrop | guardNew | guardDrop => Unit
  | read _ n => Except IoError (Chunk n)
  | readToEnd _ => Except IoError (List UInt8)
  | copyTake _ _ | copyAll _ | write _ _ => Except IoError Nat
  | flush _ _ => Except IoError Unit
  | finish _ => FtpResult Unit
  | dropTransfer _ | poll => Unit

/-- The signature of both clients. -/
abbrev ftp : Sig where
  Eff := Eff
  Ret := Eff.Ret

abbrev Io (α : Type) := Prog ftp α

/-- One step; `await` is a step at which a future can be dropped. -/
abbrev step (e : Eff) : Io e.Ret := Prog.step (S := ftp) e

abbrev await (e : Eff) : Io e.Ret := Prog.await (S := ftp) e

/-- What the environment answers. -/
structure Oracle where
  /-- The banner of a new control stream. -/
  connect : FtpResult (Option Str) := .ok none
  tls : Bool := true
  builderFails : Bool := false
  reply : FtpResult Response := .ok ⟨.other 200, []⟩
  bytes : Except IoError (List UInt8) := .ok []
  count : Except IoError Nat := .ok 0
  flushed : Except IoError Unit := .ok ()
  finished : FtpResult Unit := .ok ()

/-! ## Shared state -/

/-- What is in progress on a control stream: nothing, a command whose reply
is outstanding, or a data transfer whose completion reply is. -/
inductive Wire where
  | idle
  | busy (c : Command)
  | data
  deriving DecidableEq

/-- What the failures so far mean for a control stream. `failed t`: the last
call on it failed, made by `t`, in a way that needs a reconnect, and `t` still
is in the section that made it (`sticky`: the failure was the stream
builder's, which a later success does not undo). `dead`: such a section is
over, or a transfer on it failed to drain, flush or complete. -/
inductive Health (T : Type) where
  | fine
  | failed (t : T) (sticky : Bool)
  | dead
  deriving DecidableEq

/-- Read side of a `RETR` transfer; mirrors src/client/sync/stream.rs:115-127
and src/client/tokio/stream.rs:150-162. Its `TransferGuard` lives as long. -/
structure ReadStream where
  inner : Option Conn
  remaining : Option Nat
  atEof : Bool
  deriving DecidableEq

/-- Write side of a `STOR` or `APPE` transfer; mirrors
src/client/sync/stream.rs:227-233 and src/client/tokio/stream.rs:275-281 -/
structure WriteStream where
  inner : Option Conn
  deriving DecidableEq

/-- A stream the caller owns. -/
inductive OwnedStream where
  | read (s : ReadStream)
  | write (s : WriteStream)
  deriving DecidableEq

def OwnedStream.inner : OwnedStream → Option Conn
  | read s => s.inner
  | write s => s.inner

structure Shared (T : Type) where
  slot : Option Conn
  /-- Streams moved out of the slot or not yet put there. -/
  held : List Conn
  /-- Who holds the client mutex. -/
  lock : Option T
  active : Bool
  usable : Bool
  connected : Bool
  welcome : Option Str
  banner : Conn → Option Str
  hasBuilder : Conn → Bool
  /-- Operations that borrow the client. -/
  readers : List T
  /-- The operation that borrows it mutably. -/
  writer : Option T
  /-- Streams handed to callers and not in use by an operation on them. -/
  pool : List OwnedStream
  next : Conn
  wire : Conn → Wire
  health : Conn → Health T
  cancelled : Conn → Bool
  guards : Nat
  listing : Nat

namespace Shared

variable {T : Type}

/-- `FtpFs::new` and `TokioFtpFs::new`; with `some h`, a client whose
`connect` installed `h`. -/
def start (slot : Option Conn) : Shared T where
  slot := slot
  held := []
  lock := none
  active := false
  usable := true
  connected := slot.isSome
  welcome := none
  banner := fun _ => none
  hasBuilder := fun _ => false
  readers := []
  writer := none
  pool := []
  next := slot.elim 0 (· + 1)
  wire := fun _ => .idle
  health := fun _ => .fine
  cancelled := fun _ => false
  guards := 0
  listing := 0

/-- The stream in the slot was set up with a `passive_stream_builder`, or without. -/
def withBuilder (sh : Shared T) (builder : Bool) : Shared T :=
  { sh with hasBuilder := fun h => builder && sh.slot = some h }

variable [DecidableEq T]

def setWire (sh : Shared T) (h : Conn) (w : Wire) : Shared T :=
  { sh with wire := Function.update sh.wire h w }

def setHealth (sh : Shared T) (h : Conn) (x : Health T) : Shared T :=
  { sh with health := Function.update sh.health h x }

/-- A failure while draining, flushing or completing a transfer. -/
def failing {ε α : Type} (sh : Shared T) (h : Conn) (r : Except ε α) : Shared T :=
  match r with
  | .ok _ => sh
  | .error _ => sh.setHealth h .dead

end Shared

namespace Health

variable {T : Type} [DecidableEq T]

/-- After `t` got an answer that needs a reconnect (`bad`) or does not. -/
def answered (t : T) (bad : Bool) : Health T → Health T
  | dead => dead
  | failed u true => failed u true
  | _ => if bad then failed t false else fine

/-- After the stream builder failed inside a call of `t`. -/
def broken (t : T) : Health T → Health T
  | dead => dead
  | _ => failed t true

/-- After the section of `t` ended. -/
def sealed (t : T) : Health T → Health T
  | failed u s => if u = t then dead else failed u s
  | x => x

end Health

/-- The section of `t` is over. -/
def Shared.endSection {T : Type} [DecidableEq T] (sh : Shared T) (t : T) : Shared T :=
  { sh with health := fun h => (sh.health h).sealed t }

def needsReconnect {α : Type} : FtpResult α → Bool
  | .ok _ => false
  | .error e => transferSetupRequiresReconnect e

/-- What is in progress once a command is answered. -/
def Command.wireAfter (c : Command) (reply : FtpResult Response) : Wire :=
  match reply with
  | .ok _ => if c.opensData then .data else .idle
  | .error _ => .idle

/-- One step of thread `t`. -/
def perform {T : Type} [DecidableEq T] (sh : Shared T) (t : T) (e : Eff) (o : Oracle) :
    Option (Shared T × e.Ret) :=
  match e with
  | .lock => if sh.lock = none then some ({ sh with lock := some t }, ()) else none
  | .unlock =>
    if sh.lock = some t then some (({ sh with lock := none }).endSection t, ()) else none
  | .loadActive => some (sh, sh.active)
  | .storeActive b => some ({ sh with active := b }, ())
  | .loadUsable => some (sh, sh.usable)
  | .storeUsable b => some ({ sh with usable := b }, ())
  | .loadConnected => some (sh, sh.connected)
  | .storeConnected b => some ({ sh with connected := b }, ())
  | .loadWelcome => some (sh, sh.welcome)
  | .storeWelcome w => some ({ sh with welcome := w }, ())
  | .slot => some (sh, sh.slot)
  | .take => some ({ sh with slot := none, held := sh.slot.toList ++ sh.held }, sh.slot)
  | .put h => some ({ sh with slot := some h, held := sh.held.erase h }, ())
  | .close h => some (({ sh with held := sh.held.erase h }).endSection t, ())
  | .connect _ _ =>
    match o.connect with
    | .ok banner =>
      some ({ sh with
        held := sh.next :: sh.held
        next := sh.next + 1
        banner := Function.update sh.banner sh.next banner }, .ok sh.next)
    | .error e => some (sh, .error e)
  | .getWelcomeMsg h => some (sh, sh.banner h)
  | .passiveStreamBuilder h =>
    some ({ sh with hasBuilder := Function.update sh.hasBuilder h true }, ())
  | .setMode _ _ => some (sh, ())
  | .setupTlsConnector => some (sh, o.tls)
  | .send h c => some (sh.setWire h (.busy c), ())
  | .builder h =>
    if sh.hasBuilder h && o.builderFails then some (sh.setHealth h ((sh.health h).broken t), true)
    else some (sh, false)
  | .recv h c =>
    some ((sh.setWire h (c.wireAfter o.reply)).setHealth h ((sh.health h).answered t (needsReconnect o.reply)), o.reply)
  | .exclusiveNew => some ({ sh with listing := sh.listing + 1 }, ())
  | .exclusiveDrop => some ({ sh with active := false, listing := sh.listing - 1 }, ())
  | .guardNew => some ({ sh with guards := sh.guards + 1 }, ())
  | .guardDrop => some ({ sh with active := false, guards := sh.guards - 1 }, ())
  | .read _ n => some (sh, o.bytes.map fun bytes => ⟨bytes.take n, List.length_take_le n bytes⟩)
  | .copyTake _ _ => some (sh, o.count)
  | .copyAll h => some (sh.failing h o.count, o.count)
  | .readToEnd h => some (sh.failing h o.bytes, o.bytes)
  | .write _ _ => some (sh, o.count)
  | .flush h cleanup => some (if cleanup then sh.failing h o.flushed else sh, o.flushed)
  | .finish h => some ((sh.setWire h .idle).failing h o.finished, o.finished)
  | .dropTransfer h => some (sh.setWire h .idle, ())
  | .poll => some (sh, ())

end RemotefsFtp.L2
