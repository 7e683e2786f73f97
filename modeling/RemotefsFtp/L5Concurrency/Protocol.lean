import RemotefsFtp.L3Client.Tokio

/-!
# The protocol of the control channel

The order of steps an operation must keep to: check both flags under the
mutex before the first command, raise the transfer flag before giving the
mutex up, finish a transfer before clearing the flag, record a failure before
letting go. A mode says what a thread holds and what it knows; `next` is the
protocol. The clients differ in one place each (`Variant`).
-/
namespace RemotefsFtp.L5

open L2 L3
open Core (Typestate Next)

/-- Where the control stream is while a thread calls on it: in the slot under
the mutex, in an `ExclusiveStream`, or in a local of `connect` or `disconnect`. -/
inductive Place where
  | locked
  | exclusive
  | unique
  deriving DecidableEq

inductive Mode where
  /-- No operation, or nothing left to do. -/
  | idle
  /-- In an operation on `&self`, nothing held. -/
  | shr
  /-- The mutex is released, a failure on `h` not recorded yet. -/
  | win (h : Conn)
  /-- The mutex is held. -/
  | lkd
  /-- ... and no transfer was active. -/
  | chk1
  /-- ... and the connection was usable. -/
  | chk2
  /-- May call on `h`; `d`: the last failure is not recorded. -/
  | sec (p : Place) (h : Conn) (d : Bool)
  | busy (p : Place) (h : Conn) (c : Command)
  /-- The stream builder failed inside the call. -/
  | bld (p : Place) (h : Conn) (c : Command)
  /-- A data transfer is open. -/
  | data (p : Place) (h : Conn) (d : Bool)
  /-- A listing is complete. -/
  | fini (p : Place) (h : Conn) (d : Bool)
  /-- The flag is raised for a transfer; the guard exists; the mutex is
  released and the thread owns the transfer. -/
  | raised (h : Conn)
  | guarded (h : Conn)
  | own (h : Conn)
  /-- Drained or flushed; finalized. -/
  | fin (h : Conn) (d : Bool)
  | don (h : Conn) (d : Bool)
  /-- The steps around an `ExclusiveStream`. -/
  | taken (h : Conn)
  | takenA (h : Conn)
  | exNew (h : Conn)
  | exLk (h : Conn)
  | exPut (h : Conn)
  | exEnd (h : Conn)
  /-- Dropped with the mutex held. -/
  | cutting (h : Conn)
  /-- `&mut self`: just started; a transfer was active. -/
  | u0
  | uAct
  /-- Nothing moved yet; `lk`: the mutex is held, `us`: the flag as read. -/
  | uq (lk : Bool) (us : Option Bool)
  /-- There is no control stream. -/
  | un (lk : Bool)
  /-- `h` is a local; `ok`: no failure on it. -/
  | uh (lk : Bool) (h : Conn) (ok : Bool)
  /-- A new stream was installed. -/
  | uPut (lk : Bool)
  /-- Dropped, where no drop is considered. -/
  | gone
  deriving DecidableEq

/-- `strict`: a failure is recorded before the mutex is released. `lax`: it may
be recorded after. `cancel`: as `lax`, and futures are dropped. -/
inductive Variant where
  | strict
  | lax
  | cancel
  deriving DecidableEq

attribute [simp] Next.All

namespace Mode

open Core.Next

@[simp] def onLock : Mode → Next Mode
  | shr => go lkd
  | sec .exclusive h false | fini .exclusive h false => go (exLk h)
  | uq false us => go (uq true us)
  | un false => go (un true)
  | uh false h ok => go (uh true h ok)
  | _ => stop

/-- Releasing the mutex with or without an unrecorded failure. -/
@[simp] def release (v : Variant) (h : Conn) (d : Bool) : Next Mode :=
  if d then if v = .strict then stop else go (win h) else go shr

@[simp] def onUnlock (v : Variant) : Mode → Next Mode
  | lkd | chk1 | chk2 => go shr
  | sec .locked h d => release v h d
  | fini .locked h d => release v h d
  | guarded h => go (own h)
  | takenA h => go (exNew h)
  | exPut h => go (exEnd h)
  | cutting h => release v h true
  | uq true us => go (uq false us)
  | un true => go (un false)
  | uh true h ok => go (uh false h ok)
  | uPut true => go (uPut false)
  | _ => stop

@[simp] def onLoadActive (r : Bool) : Mode → Next Mode
  | shr => go shr
  | lkd => if r then go lkd else go chk1
  | u0 => if r then go uAct else go (uq false none)
  | _ => stop

@[simp] def onStoreActive (b : Bool) : Mode → Next Mode
  | data .locked h false => if b then go (raised h) else stop
  | taken h => if b then go (takenA h) else stop
  | _ => stop

@[simp] def onLoadUsable (r : Bool) : Mode → Next Mode
  | shr => go shr
  | chk1 => if r then go chk2 else go chk1
  | uq lk none => go (uq lk (some r))
  | uq lk (some b) => if r = b then go (uq lk (some r)) else never
  | un lk => go (un lk)
  | _ => stop

/-- `true` is stored only while there is no control stream in the client. -/
@[simp] def onStoreUsable (b : Bool) : Mode → Next Mode
  | un lk => go (un lk)
  | uh lk h ok => go (uh lk h ok)
  | m =>
    if b then stop
    else
      match m with
      | shr => go shr
      | win _ => go shr
      | sec p h _ => go (sec p h false)
      | bld p h c => if p = .unique then stop else go (busy p h c)
      | fini p h _ => go (fini p h false)
      | own h => go (own h)
      | don h _ => go (don h false)
      | _ => stop

/-- The cached banner and the `connected` mirror. -/
@[simp] def onCache : Mode → Next Mode
  | shr => go shr
  | uh lk h ok => go (uh lk h ok)
  | uPut lk => go (uPut lk)
  | un lk => go (un lk)
  | _ => stop

@[simp] def onSlot (r : Option Conn) : Mode → Next Mode
  | lkd => go lkd
  | chk2 =>
    match r with
    | none => go chk2
    | some h => go (sec .locked h false)
  | sec .locked h d => if r = some h then go (sec .locked h d) else never
  | uq lk us =>
    match r with
    | none => go (un lk)
    | some _ => go (uq lk us)
  | un lk => if r = none then go (un lk) else never
  | _ => stop

@[simp] def onTake (r : Option Conn) : Mode → Next Mode
  | chk2 =>
    match r with
    | none => go chk2
    | some h => go (taken h)
  | uq lk us =>
    match r with
    | none => go (un lk)
    | some h => go (uh lk h (us = some true))
  | un lk => if r = none then go (un lk) else never
  | _ => stop

@[simp] def onPut (h : Conn) : Mode → Next Mode
  | exLk h' => if h = h' then go (exPut h) else stop
  | uh lk h' true => if h = h' then go (uPut lk) else stop
  | _ => stop

@[simp] def onClose (h : Conn) : Mode → Next Mode
  | uh lk h' _ => if h = h' then go (un lk) else stop
  | _ => stop

@[simp] def onConnect (r : FtpResult Conn) : Mode → Next Mode
  | un false =>
    match r with
    | .ok h => go (uh false h true)
    | .error _ => go (un false)
  | _ => stop

/-- Settings of a new stream, and its banner. -/
@[simp] def onLocal : Mode → Next Mode
  | lkd => go lkd
  | uh lk h ok => go (uh lk h ok)
  | _ => stop

@[simp] def onSend (h : Conn) (c : Command) : Mode → Next Mode
  | sec p h' _ => if h = h' ∧ p ≠ .unique then go (busy p h c) else stop
  | uh false h' true => if h = h' then go (busy .unique h c) else stop
  | _ => stop

@[simp] def onBuilder (h : Conn) (r : Bool) : Mode → Next Mode
  | busy p h' c =>
    if h = h' ∧ p ≠ .unique then if r then go (bld p h c) else go (busy p h c) else stop
  | _ => stop

@[simp] def onRecv (h : Conn) (c : Command) (r : FtpResult Response) : Mode → Next Mode
  | busy p h' c' =>
    if h = h' ∧ c = c' then
      match p, r with
      | .unique, r => if c.opensData then stop else go (uh false h (!needsReconnect r))
      | p, .ok _ => if c.opensData then go (data p h false) else go (sec p h false)
      | p, .error e => go (sec p h (transferSetupRequiresReconnect e))
    else stop
  | _ => stop

@[simp] def onExclusiveNew : Mode → Next Mode
  | exNew h => go (sec .exclusive h false)
  | _ => stop

@[simp] def onExclusiveDrop : Mode → Next Mode
  | exEnd _ => go shr
  | _ => stop

@[simp] def onGuardNew : Mode → Next Mode
  | raised h => go (guarded h)
  | _ => stop

/-- Only a dropped future ends a transfer with an unrecorded failure. -/
@[simp] def onGuardDrop (v : Variant) : Mode → Next Mode
  | don _ d => if d ∧ v ≠ .cancel then stop else go idle
  | _ => stop

/-- Reading, skipping or writing as the owner. -/
@[simp] def onUse (h : Conn) : Mode → Next Mode
  | own h' => if h = h' then go (own h) else stop
  | _ => stop

/-- Draining or flushing before finalization. -/
@[simp] def onDrain (h : Conn) (failed : Bool) : Mode → Next Mode
  | own h' => if h = h' then go (fin h failed) else stop
  | _ => stop

@[simp] def onReadToEnd (h : Conn) (failed : Bool) : Mode → Next Mode
  | data p h' d => if h = h' ∧ p ≠ .unique then go (data p h (d || failed)) else stop
  | _ => stop

@[simp] def onFinish (h : Conn) (failed : Bool) : Mode → Next Mode
  | own h' => if h = h' then go (don h failed) else stop
  | fin h' d => if h = h' then go (don h (d || failed)) else stop
  | data p h' d => if h = h' ∧ p ≠ .unique then go (fini p h (d || failed)) else stop
  | _ => stop

@[simp] def onDropTransfer (h : Conn) : Mode → Next Mode
  | own h' => if h = h' then go (don h false) else stop
  | fin h' d => if h = h' then go (don h d) else stop
  | cutting h' => if h = h' then go (cutting h) else stop
  | _ => stop

@[simp] def onPoll : Mode → Next Mode
  | own h => go (own h)
  | _ => stop

def isErr {ε α : Type} : Except ε α → Bool
  | .ok _ => false
  | .error _ => true

@[simp] theorem isErr_ok {ε α : Type} (a : α) : isErr (.ok a : Except ε α) = false := rfl
@[simp] theorem isErr_error {ε α : Type} (e : ε) : isErr (.error e : Except ε α) = true := rfl

@[simp] def next (v : Variant) (m : Mode) (e : Eff) (r : e.Ret) : Next Mode :=
  if m = gone then go gone
  else
    match e, r with
    | .lock, _ => onLock m
    | .unlock, _ => onUnlock v m
    | .loadActive, r => onLoadActive r m
    | .storeActive b, _ => onStoreActive b m
    | .loadUsable, r => onLoadUsable r m
    | .storeUsable b, _ => onStoreUsable b m
    | .loadConnected, _ | .loadWelcome, _ | .storeConnected _, _ | .storeWelcome _, _ => onCache m
    | .slot, r => onSlot r m
    | .take, r => onTake r m
    | .put h, _ => onPut h m
    | .close h, _ => onClose h m
    | .connect _ _, r => onConnect r m
    | .getWelcomeMsg _, _ | .passiveStreamBuilder _, _ | .setMode _ _, _
    | .setupTlsConnector, _ => onLocal m
    | .send h c, _ => onSend h c m
    | .builder h, r => onBuilder h r m
    | .recv h c, r => onRecv h c r m
    | .exclusiveNew, _ => onExclusiveNew m
    | .exclusiveDrop, _ => onExclusiveDrop m
    | .guardNew, _ => onGuardNew m
    | .guardDrop, _ => onGuardDrop v m
    | .read h _, _ | .copyTake h _, _ | .write h _, _ => onUse h m
    | .copyAll h, r => onDrain h (isErr r) m
    | .flush h cleanup, r => if cleanup then onDrain h (isErr r) m else onUse h m
    | .readToEnd h, r => onReadToEnd h (isErr r) m
    | .finish h, r => onFinish h (isErr r) m
    | .dropTransfer h, _ => onDropTransfer h m
    | .poll, _ => onPoll m

/-- Where a future can be dropped. -/
@[simp] def cut (v : Variant) (m : Mode) : Next Mode :=
  if v ≠ .cancel then go gone
  else
    match m with
    | sec .locked h _ | busy .locked h _ | bld .locked h _ | data .locked h _ | fini .locked h _ =>
      go (cutting h)
    | busy .unique h _ | bld .unique h _ => go (uh false h false)
    | shr | own _ | fin _ _ | un false | uh false _ _ => go m
    | _ => stop

/-- What an operation may end in. -/
def Done : Out → Mode → Prop
  | .done, m =>
    match m with
    | idle | shr | uAct | uq false _ | un false | uPut false | gone => True
    | _ => False
  | .stream s, m => ∃ h, s.inner = some h ∧ m = own h

end Mode

/-- The protocol. -/
abbrev protocol (v : Variant) : Typestate ftp where
  Mode := Mode
  next m e r := m.next v e r
  cut := Mode.cut v

end RemotefsFtp.L5
