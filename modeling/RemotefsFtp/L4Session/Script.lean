import RemotefsFtp.L4Session.AgreeOps

/-!
# A caller's script on both clients

`Api` is what a client offers one caller, with every value it returns.
`Api.play` runs a list of calls and asks for `is_connected()` after each.

Results:
* `run_eq_reply`: the operations that run concurrently are these, reduced to
  the streams they leave behind.
* **`sync_tokio_agree`**: from new clients and one server, every script gets the
  same replies and the same connection state from both clients, which make the
  same calls in the same order.
-/
namespace RemotefsFtp.L4

open L1 (Str Path)
open L2 L3
open Core (Prog Event Machine)

/-- What a call returns. -/
inductive Reply where
  | done (r : RemoteResult Unit)
  | connected (b : Bool)
  | banner (b : Option Str)
  | entries (r : RemoteResult (List File))
  | entry (r : RemoteResult File)
  | found (r : RemoteResult Bool)
  | reader (r : RemoteResult ReadStream)
  | writer (r : RemoteResult WriteStream)
  | output (r : RemoteResult ExecOutput)
  | bytes (r : Except IoError (List UInt8))
  | count (r : Except IoError Nat)
  | flushed (r : Except IoError Unit)
  /-- A call on a stream the caller does not hold. -/
  | nothing

/-- The stream that comes with a reply. -/
def Reply.stream : Reply → Option OwnedStream
  | reader (.ok s) => some (.read s)
  | writer (.ok s) => some (.write s)
  | _ => none

def Reply.out (r : Reply) : Out :=
  match r.stream with
  | some s => .stream s
  | none => .done

structure Api where
  reply : Op → Io Reply
  read : ReadStream → Nat → Io (Except IoError (List UInt8) × ReadStream)
  finishRead : ReadStream → Io (RemoteResult Unit)
  write : WriteStream → List UInt8 → Io (Except IoError Nat)
  flush : WriteStream → Io (Except IoError Unit)
  finishWrite : WriteStream → Io (RemoteResult Unit)

def syncReply (X : Ext) : Op → Io Reply
  | .connect o => do pure (.done (← FtpFs.connect o))
  | .disconnect => do pure (.done (← FtpFs.disconnect))
  | .isConnected => do pure (.connected (← FtpFs.isConnected))
  | .welcomeMessage => do pure (.banner (← FtpFs.welcomeMessage))
  | .listDir path => do pure (.entries (← FtpFs.listDir X path))
  | .stat path => do pure (.entry (← FtpFs.stat X path))
  | .exists' path => do pure (.found (← FtpFs.exists' X path))
  | .setMetadata path => do pure (.done (← FtpFs.setMetadata path))
  | .createDir path => do pure (.done (← FtpFs.createDir X path))
  | .removeFile path => do pure (.done (← FtpFs.removeFile X path))
  | .removeDir path => do pure (.done (← FtpFs.removeDir X path))
  | .rename src dest => do pure (.done (← FtpFs.rename X src dest))
  | .copy src dest => do pure (.done (← FtpFs.copy src dest))
  | .symlink path target => do pure (.done (← FtpFs.symlink path target))
  | .open' path opts => do pure (.reader (← FtpFs.open' X path opts))
  | .create path => do pure (.writer (← FtpFs.create X path))
  | .append path => do pure (.writer (← FtpFs.append X path))
  | .exec cmd => do pure (.output (← FtpFs.exec X cmd))

def tokioReply (X : Ext) : Op → Io Reply
  | .connect o => do pure (.done (← TokioFtpFs.connect o))
  | .disconnect => do pure (.done (← TokioFtpFs.disconnect))
  | .isConnected => do pure (.connected (← TokioFtpFs.isConnected))
  | .welcomeMessage => do pure (.banner (← TokioFtpFs.welcomeMessage))
  | .listDir path => do pure (.entries (← TokioFtpFs.listDir X path))
  | .stat path => do pure (.entry (← TokioFtpFs.stat X path))
  | .exists' path => do pure (.found (← TokioFtpFs.exists' X path))
  | .setMetadata path => do pure (.done (← TokioFtpFs.setMetadata path))
  | .createDir path => do pure (.done (← TokioFtpFs.createDir X path))
  | .removeFile path => do pure (.done (← TokioFtpFs.removeFile X path))
  | .removeDir path => do pure (.done (← TokioFtpFs.removeDir X path))
  | .rename src dest => do pure (.done (← TokioFtpFs.rename X src dest))
  | .copy src dest => do pure (.done (← TokioFtpFs.copy src dest))
  | .symlink path target => do pure (.done (← TokioFtpFs.symlink path target))
  | .open' path opts => do pure (.reader (← TokioFtpFs.open' X path opts))
  | .create path => do pure (.writer (← TokioFtpFs.create X path))
  | .append path => do pure (.writer (← TokioFtpFs.append X path))
  | .exec cmd => do pure (.output (← TokioFtpFs.exec X cmd))

def syncApi (X : Ext) : Api where
  reply := syncReply X
  read := FtpReadStream.read X
  finishRead := FtpReadStream.finish X
  write := FtpWriteStream.write
  flush := FtpWriteStream.flush
  finishWrite := FtpWriteStream.finish X

def tokioApi (X : Ext) : Api where
  reply := tokioReply X
  read := TokioReadStream.read X
  finishRead := TokioReadStream.finish X
  write := TokioWriteStream.write
  flush := TokioWriteStream.flush
  finishWrite := TokioWriteStream.finish X

theorem leaving_reply {α : Type} (p : Io α) (f : α → Reply) (out : α → Out)
    (h : ∀ a, (f a).out = out a) : leaving p out = leaving (p >>= fun a => pure (f a)) Reply.out := by
  show p.bind _ = (p.bind _).bind _
  rw [Prog.bind_assoc]
  exact congrArg _ (funext fun a => by simp [Prog.pure_eq, Prog.bind, h])

theorem run_eq_reply (X : Ext) (op : Op) : FtpFs.run X op = leaving (syncReply X op) Reply.out ∧
    TokioFtpFs.run X op = leaving (tokioReply X op) Reply.out := by
  have hread (r : RemoteResult ReadStream) : (Reply.reader r).out = Out.ofRead r := by cases r <;> rfl
  have hwrite (r : RemoteResult WriteStream) : (Reply.writer r).out = Out.ofWrite r := by
    cases r <;> rfl
  cases op with
  | open' path opts => exact ⟨leaving_reply _ _ _ hread, leaving_reply _ _ _ hread⟩
  | create path => exact ⟨leaving_reply _ _ _ hwrite, leaving_reply _ _ _ hwrite⟩
  | append path => exact ⟨leaving_reply _ _ _ hwrite, leaving_reply _ _ _ hwrite⟩
  | _ => exact ⟨leaving_reply _ _ _ fun _ => rfl, leaving_reply _ _ _ fun _ => rfl⟩

/-! ## Scripts -/

/-- The operations but `welcome_message`. -/
def Op.compared : Op → Bool
  | .welcomeMessage => false
  | _ => true

/-- A call on the client, or on the stream the caller holds. -/
inductive Call where
  | op (op : Op) (compared : Op.compared op = true)
  | read (bufLen : Nat)
  | write (buf : List UInt8)
  | flush
  | finish

/-- One call; `held` is the stream the caller holds, before and after. -/
def Api.serve (A : Api) (held : Option OwnedStream) : Call → Io (Reply × Option OwnedStream)
  | .op op _ => do
    let r ← A.reply op
    pure (r, r.stream.or held)
  | .read bufLen =>
    match held with
    | some (.read s) => do
      let (r, s) ← A.read s bufLen
      pure (.bytes r, some (.read s))
    | _ => pure (.nothing, held)
  | .write buf =>
    match held with
    | some (.write s) => do
      let r ← A.write s buf
      pure (.count r, held)
    | _ => pure (.nothing, held)
  | .flush =>
    match held with
    | some (.write s) => do
      let r ← A.flush s
      pure (.flushed r, held)
    | _ => pure (.nothing, held)
  | .finish =>
    match held with
    | some (.read s) => do
      let r ← A.finishRead s
      pure (.done r, none)
    | some (.write s) => do
      let r ← A.finishWrite s
      pure (.done r, none)
    | none => pure (.nothing, held)

/-- A script; every reply comes with the answer of `is_connected()` after it. -/
def Api.play (A : Api) : Option OwnedStream → List Call → Io (List (Reply × Reply))
  | _, [] => pure []
  | held, c :: cs => do
    let (r, held) ← A.serve held c
    let b ← A.reply .isConnected
    let rest ← Api.play A held cs
    pure ((r, b) :: rest)

variable {σ : Type} {V : Server σ}

/-! ### Every call -/

theorem sim_reply (X : Ext) (op : Op) (hop : Op.compared op = true) :
    SimF V Rest (syncReply X op) (tokioReply X op) Rest := by
  have hC := clients_probe (V := V) X
  cases op with
  | welcomeMessage => cases hop
  | connect o => exact sim_seq (sim_connect o) fun _ => sim_pure _
  | disconnect => exact sim_seq sim_disconnect fun _ => sim_pure _
  | isConnected => exact sim_seq sim_isConnected fun _ => sim_pure _
  | listDir path => exact sim_seq (hC.listDir path) fun _ => sim_pure _
  | stat path => exact sim_seq (hC.stat path) fun _ => sim_pure _
  | exists' path => exact sim_seq (hC.exists' path) fun _ => sim_pure _
  | setMetadata path => exact sim_seq (sim_unsupported _) fun _ => sim_pure _
  | copy src dest => exact sim_seq (sim_unsupported _) fun _ => sim_pure _
  | symlink path target => exact sim_seq (sim_unsupported _) fun _ => sim_pure _
  | createDir path => exact sim_seq (sim_createDir X path) fun _ => sim_pure _
  | removeFile path => exact sim_seq (sim_removeFile X path) fun _ => sim_pure _
  | removeDir path => exact sim_seq (sim_removeDir X path) fun _ => sim_pure _
  | rename src dest => exact sim_seq (sim_rename X src dest) fun _ => sim_pure _
  | open' path opts => exact sim_seq (sim_open X path opts) fun _ => sim_pure _
  | create path => exact sim_seq (sim_upload X _ path) fun _ => sim_pure _
  | append path => exact sim_seq (sim_upload X _ path) fun _ => sim_pure _
  | exec cmd => exact sim_seq (sim_exec X cmd) fun _ => sim_pure _

/-- A stream in the hands of a caller still has its transfer. -/
def Live (s : OwnedStream) : Prop := ∃ h, s.inner = some h

theorem returns_reply {α : Type} {p : Io α} {f : α → Reply} {r : Reply}
    (h : Prog.Returns (S := ftp) (p >>= fun a => pure (f a)) r) :
    ∃ a, Prog.Returns (S := ftp) p a ∧ f a = r :=
  Prog.returns_bind.mp h

theorem open_live {X : Ext} {path : Path} {opts : ReadOptions} {s : ReadStream}
    (h : Prog.Returns (S := ftp) (FtpFs.open' X path opts) (.ok s)) : Live (.read s) := by
  unfold FtpFs.open' withRemotePath at h
  split at h
  · cases h
  obtain ⟨r, -, h⟩ := Prog.returns_bind.mp h
  cases r with
  | error e => cases h
  | ok r =>
    obtain ⟨r, -, h⟩ := Prog.returns_bind.mp h
    rcases r with e | ⟨transfer, resumed⟩
    · cases h
    dsimp only at h
    split at h
    · obtain ⟨⟨skipped, reader⟩, hs, h⟩ := Prog.returns_bind.mp h
      cases skipped with
      | error e =>
        obtain ⟨_, -, h⟩ := Prog.returns_bind.mp h
        cases h
      | ok _ =>
        cases h
        exact ⟨transfer, skipPrefix_inner hs⟩
    · cases h
      exact ⟨transfer, rfl⟩

theorem upload_live {X : Ext} {c : Str → Command} {path : Path} {s : WriteStream}
    (h : Prog.Returns (S := ftp) (FtpFs.upload X c path) (.ok s)) : Live (.write s) := by
  unfold FtpFs.upload withRemotePath at h
  split at h
  · cases h
  obtain ⟨r, -, h⟩ := Prog.returns_bind.mp h
  cases r with
  | error e => cases h
  | ok r =>
    obtain ⟨r, -, h⟩ := Prog.returns_bind.mp h
    cases r with
    | error e => cases h
    | ok transfer =>
      cases h
      exact ⟨transfer, rfl⟩

theorem reply_live {X : Ext} {op : Op} {r : Reply} {s : OwnedStream}
    (h : Prog.Returns (S := ftp) (syncReply X op) r) (hs : r.stream = some s) : Live s := by
  cases op with
  | open' path opts =>
    obtain ⟨a, ha, rfl⟩ := returns_reply h
    cases a with
    | error e => cases hs
    | ok s' => cases hs; exact open_live ha
  | create path | append path =>
    obtain ⟨a, ha, rfl⟩ := returns_reply h
    cases a with
    | error e => cases hs
    | ok s' => cases hs; exact upload_live ha
  | _ =>
    obtain ⟨a, ha, rfl⟩ := returns_reply h
    cases hs

/-- The stream the caller holds after a call still has its transfer. -/
theorem serve_live {X : Ext} {held held' : Option OwnedStream} {c : Call} {r : Reply}
    (hheld : ∀ s, held = some s → Live s)
    (h : Prog.Returns (S := ftp) ((syncApi X).serve held c) (r, held')) :
    ∀ s, held' = some s → Live s := by
  cases c with
  | op op hop =>
    obtain ⟨r', hr, h⟩ := Prog.returns_bind.mp h
    cases h
    intro s hs
    cases hstream : r.stream with
    | some s' =>
      rw [hstream] at hs
      cases hs
      exact reply_live hr hstream
    | none =>
      rw [hstream] at hs
      exact hheld s hs
  | read bufLen =>
    rcases held with _ | s | _
    · cases h; exact hheld
    · obtain ⟨⟨r', s'⟩, hr, h⟩ := Prog.returns_bind.mp h
      cases h
      rintro _ ⟨⟩
      obtain ⟨c, hc⟩ := hheld _ rfl
      exact ⟨c, (read_inner hr).trans hc⟩
    · cases h; exact hheld
  | write buf =>
    rcases held with _ | _ | s
    · cases h; exact hheld
    · cases h; exact hheld
    · obtain ⟨r', -, h⟩ := Prog.returns_bind.mp h
      cases h
      exact hheld
  | flush =>
    rcases held with _ | _ | s
    · cases h; exact hheld
    · cases h; exact hheld
    · obtain ⟨r', -, h⟩ := Prog.returns_bind.mp h
      cases h
      exact hheld
  | finish =>
    rcases held with _ | s | s
    · cases h; exact hheld
    · obtain ⟨r', -, h⟩ := Prog.returns_bind.mp h
      cases h
      nofun
    · obtain ⟨r', -, h⟩ := Prog.returns_bind.mp h
      cases h
      nofun

theorem sim_serve (X : Ext) {held : Option OwnedStream} (hheld : ∀ s, held = some s → Live s)
    (c : Call) : SimF V Rest ((syncApi X).serve held c) ((tokioApi X).serve held c) Rest := by
  cases c with
  | op op hop => exact sim_seq (sim_reply X op hop) fun _ => sim_pure _
  | read bufLen =>
    rcases held with _ | ⟨⟨inner, remaining, atEof⟩⟩ | _
    · exact sim_pure _
    · obtain ⟨h, rfl⟩ := hheld _ rfl
      exact sim_seq (sim_read X h remaining atEof bufLen) fun _ => sim_pure _
    · exact sim_pure _
  | write buf =>
    rcases held with _ | _ | ⟨⟨inner⟩⟩
    · exact sim_pure _
    · exact sim_pure _
    · obtain ⟨h, rfl⟩ := hheld _ rfl
      exact sim_seq (sim_same (same_step rfl)) fun _ => sim_pure _
  | flush =>
    rcases held with _ | _ | ⟨⟨inner⟩⟩
    · exact sim_pure _
    · exact sim_pure _
    · obtain ⟨h, rfl⟩ := hheld _ rfl
      exact sim_seq (sim_same (same_step rfl)) fun _ => sim_pure _
  | finish =>
    rcases held with _ | ⟨⟨inner, remaining, atEof⟩⟩ | ⟨⟨inner⟩⟩
    · exact sim_pure _
    · obtain ⟨h, rfl⟩ := hheld _ rfl
      exact sim_seq (sim_finishReader X h remaining atEof) fun _ => sim_pure _
    · obtain ⟨h, rfl⟩ := hheld _ rfl
      exact sim_seq (sim_finishWriter X h) fun _ => sim_pure _

theorem sim_play (X : Ext) (calls : List Call) {held : Option OwnedStream}
    (hheld : ∀ s, held = some s → Live s) :
    SimF V Rest ((syncApi X).play held calls) ((tokioApi X).play held calls) Rest := by
  induction calls generalizing held with
  | nil => exact sim_pure _
  | cons c cs ih =>
    refine sim_seq_returns (sim_serve X hheld c) fun r hr => ?_
    obtain ⟨r, held'⟩ := r
    refine sim_seq (sim_reply X .isConnected rfl) fun b => ?_
    exact sim_seq (ih (serve_live hheld hr)) fun _ => sim_pure _

/-- A new client. -/
def fresh (srv : σ) : Session σ := view (Shared.start (T := Unit) none) srv []

/-- **Both clients agree.** For every script of one caller and every server,
from new clients: both return the same replies, report the same connection
state after every call, and make the same calls in the same order. -/
theorem sync_tokio_agree (X : Ext) (V : Server σ) (srv : σ) (calls : List Call) :
    ∃ replies x y,
      Prog.eval (alone V) ((syncApi X).play none calls) (fresh srv) = some (replies, x) ∧
      Prog.eval (alone V) ((tokioApi X).play none calls) (fresh srv) = some (replies, y) ∧
      x.calls = y.calls := by
  have hnone : ∀ s, (none : Option OwnedStream) = some s → Live s := nofun
  obtain ⟨replies, x, y, hx, hy, hr⟩ := sim_play (V := V) X calls hnone (fresh srv) (fresh srv)
    ⟨rfl, rfl, rfl, rfl, rfl, rfl⟩
  exact ⟨replies, x, y, hx, hy, congrArg Line.calls hr.line⟩

end RemotefsFtp.L4
