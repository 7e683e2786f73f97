import RemotefsFtp.L2Remote.Confined
import RemotefsFtp.L2Remote.World
import RemotefsFtp.L3Client.Tokio

/-!
# The commands of each operation

A managed operation sends `LIST` for paths it accepted and its own command on
its own arguments, and does nothing but lock, flag, call and transfer steps.
Paths have passed `remote_path`, and the parents derived from them pass it
too; only `exec` hands a string over as it is.

Results:
* `sync_plain`, `tokio_plain`: the steps of a managed operation.
* **`one_line_per_command`**: what an operation hands to `suppaftp` holds no
  control character, exactly unless it is `exec` of a string that does.
-/
namespace RemotefsFtp.L3

open L1 (Str Path)
open L2
open Core (Prog)

variable {α β : Type} {P : Eff → Prop}

/-- Every step of `p` satisfies `P`. -/
abbrev Does (P : Eff → Prop) (p : Io α) : Prop := Prog.Always (S := ftp) P p

theorem does_pure (a : α) : Does P (pure a : Io α) := trivial

theorem does_seq {p : Io α} {f : α → Io β} (hp : Does P p) (hf : ∀ a, Does P (f a)) :
    Does P (p >>= f) := Prog.always_bind hp hf

theorem does_step {e : Eff} {f : e.Ret → Io β} (he : P e) (hf : ∀ r, Does P (f r)) :
    Does P (step e >>= f) := does_seq (Prog.always_step he) hf

theorem does_await {e : Eff} {f : e.Ret → Io β} (he : P e) (hf : ∀ r, Does P (f r)) :
    Does P (await e >>= f) := does_seq (Prog.always_await he) hf

theorem does_ite (b : Bool) {p q : Io α} (hp : Does P p) (hq : Does P q) :
    Does P (if b then p else q) := by
  split
  · exact hp
  · exact hq

/-- Behind `remote_path` the path is its own remote form. -/
theorem does_withRemotePath {path : Path} {k : Str → Io (RemoteResult α)}
    (hk : remotePath path = .ok path → Does P (k path)) : Does P (withRemotePath path k) := by
  unfold withRemotePath
  split
  · exact does_pure _
  · rename_i remote hr
    obtain ⟨-, rfl⟩ := accepted_iff.mp hr
    exact hk hr

/-! ## Probing -/

/-- What the shared code does through its client. -/
structure DoesClient (P : Eff → Prop) (C : Client) : Prop where
  listDirRaw : ∀ dir path, remotePath path = .ok path → Does P (C.listDirRaw dir path)
  statRoot : ∀ path, Does P (C.statRoot path)

namespace DoesClient

variable {C : Client} (hC : DoesClient P C)
include hC

theorem list {dir path remote : Path} (h : remotePath path = .ok remote) :
    Does P (C.listDirRaw dir remote) := by
  obtain ⟨-, rfl⟩ := accepted_iff.mp h
  exact hC.listDirRaw dir _ h

/-- Each parent the loop climbs to passes `remote_path` before it is listed. -/
theorem ancestorLoop (n : Nat) (path : Path) : Does P (C.ancestorLoop n path) := by
  induction n generalizing path with
  | zero => exact does_pure _
  | succ n ih =>
    unfold Client.ancestorLoop
    split
    · exact does_pure _
    split
    · exact does_pure _
    rename_i hr
    refine does_seq (hC.list hr) fun r => ?_
    split
    · exact does_pure _
    · split
      · exact ih _
      · exact does_pure _

theorem listingRefused (path : Path) (e : RemoteError) :
    Does P (C.listingRefused path e : Io (RemoteResult α)) := by
  unfold Client.listingRefused
  split
  · refine does_seq (hC.ancestorLoop 8 path) fun r => ?_
    split <;> exact does_pure _
  · exact does_pure _

/-- The induction is on the fuel, which `stat` spends on parents. -/
theorem statFuel (n : Nat) (path : Path) : Does P (C.statFuel n path) := by
  induction n generalizing path with
  | zero => trivial
  | succ n ih =>
    unfold Client.statFuel
    split
    · exact does_pure _
    dsimp only
    split
    · exact hC.statRoot _
    split
    · trivial
    split
    · exact does_pure _
    rename_i hr
    refine does_seq (hC.list hr) fun r => ?_
    split
    · exact hC.listingRefused _ _
    · split
      · refine does_seq (ih _) fun r => ?_
        split <;> split <;> exact does_pure _
      · exact does_pure _

theorem stat (path : Path) : Does P (C.stat path) := hC.statFuel _ _

theorem statIsFile (path : Path) : Does P (C.statIsFile path) :=
  does_seq (hC.stat path) fun r => by split <;> exact does_pure _

/-- `list_dir` lists the path, and may ask `stat` whether it is a file. -/
theorem listDir (path : Path) : Does P (C.listDir path) := by
  unfold Client.listDir
  split
  · exact does_pure _
  rename_i hr
  refine does_seq (hC.list hr) fun r => ?_
  split
  · exact hC.listingRefused _ _
  split
  · exact does_pure _
  refine does_seq (does_ite _ (hC.statIsFile _) (does_pure _)) fun b => ?_
  split
  · exact does_pure _
  refine does_seq (does_ite _ (hC.statIsFile _) (does_pure _)) fun b => ?_
  split <;> exact does_pure _

theorem exists' (path : Path) : Does P (C.exists' path) :=
  does_seq (hC.stat path) fun r => by
    split
    · exact does_pure _
    · split <;> exact does_pure _

theorem destinationParentIsMissing (path : Path) : Does P (C.destinationParentIsMissing path) := by
  unfold Client.destinationParentIsMissing
  split
  · exact does_pure _
  · exact does_seq (hC.stat _) fun r => by split <;> exact does_pure _

theorem classifyFileRefusal (path : Path) (err : FtpError) :
    Does P (C.classifyFileRefusal path err) := by
  unfold Client.classifyFileRefusal
  split
  · exact does_pure _
  refine does_seq (hC.stat _) fun r => ?_
  split <;> split <;> exact does_pure _

theorem classifyCreateRefusal (path : Path) (err : FtpError) :
    Does P (C.classifyCreateRefusal path err) := by
  unfold Client.classifyCreateRefusal
  split
  · exact does_pure _
  refine does_seq (hC.stat _) fun r => ?_
  split
  · split <;> exact does_pure _
  · refine does_seq (does_ite _ (hC.destinationParentIsMissing _) (does_pure _)) fun b => ?_
    split <;> exact does_pure _

theorem classifyRemoveDirRefusal (path : Path) (err : FtpError) :
    Does P (C.classifyRemoveDirRefusal path err) := by
  unfold Client.classifyRemoveDirRefusal
  split
  · exact does_pure _
  refine does_seq (hC.stat _) fun r => ?_
  split
  · split
    · exact does_pure _
    · refine does_seq (hC.listDir _) fun r => ?_
      split
      · split <;> exact does_pure _
      · exact does_pure _
  · split <;> exact does_pure _

theorem classifyCreateDirRefusal (path : Path) (err : FtpError) :
    Does P (C.classifyCreateDirRefusal path err) := by
  unfold Client.classifyCreateDirRefusal
  split
  · exact does_pure _
  refine does_seq (hC.stat _) fun r => ?_
  split
  · exact does_pure _
  · refine does_seq (does_ite _ (hC.destinationParentIsMissing _) (does_pure _)) fun b => ?_
    split <;> exact does_pure _

theorem classifyRenameRefusal (src dest : Path) (err : FtpError) :
    Does P (C.classifyRenameRefusal src dest err) := by
  unfold Client.classifyRenameRefusal
  split
  · exact does_pure _
  refine does_seq (hC.stat _) fun r => ?_
  split
  · split <;> exact does_pure _
  · refine does_seq (hC.destinationParentIsMissing _) fun b => ?_
    split <;> exact does_pure _

end DoesClient

/-! ## Steps of a managed operation -/

/-- A step of a managed operation that sends the commands `Cs`; `mv`: it may
move the control stream out of its slot; `xf`: it may start a transfer or end
one; `look`: it may read what mirrors the slot. -/
def Plain (mv xf look : Bool) (Cs : Command → Prop) : Eff → Prop
  | .send _ c | .recv _ c => Cs c
  | .storeUsable b => b = false
  | .take | .put _ => mv = true
  | .storeActive _ | .exclusiveDrop | .guardDrop => (mv || xf) = true
  | .loadConnected | .loadWelcome => look = true
  | .storeConnected _ | .storeWelcome _ | .close _ | .connect _ _ | .passiveStreamBuilder _
  | .setMode _ _ | .setupTlsConnector => False
  | _ => True

/-- `LIST` of an accepted path. -/
def Listing (c : Command) : Prop := ∃ path, Accepted path ∧ c = FtpFs.listCommand path

/-- The operations that only tell what mirrors the slot. -/
def Op.looks : Op → Bool
  | .isConnected | .welcomeMessage => true
  | _ => false

/-- The operations that return a stream. -/
def Op.transfers : Op → Bool
  | .open' _ _ | .create _ | .append _ => true
  | _ => false

/-- The commands an operation sends. -/
def Op.Sends (op : Op) (c : Command) : Prop :=
  Listing c ∨
    match op with
    | .createDir path => Accepted path ∧ c = .mkdir path
    | .removeFile path => Accepted path ∧ c = .rm path
    | .removeDir path => Accepted path ∧ c = .rmdir path
    | .rename src dest => Accepted src ∧ Accepted dest ∧ c = .rename src dest
    | .open' path _ => Accepted path ∧ c = .retrAsStream path ∨ ∃ n, c = .resumeTransfer n
    | .create path => Accepted path ∧ c = .putWithStream path
    | .append path => Accepted path ∧ c = .appendWithStream path
    | .exec cmd => c = .site cmd
    | _ => False

section
variable {mv xf look : Bool} {Cs : Command → Prop}

/-- Both checks only read. -/
theorem does_checkOperationState : Does (Plain mv xf look Cs) FtpFs.checkOperationState := by
  refine does_step trivial fun r => ?_
  split
  · exact does_pure _
  · refine does_step trivial fun r => ?_
    split <;> exact does_pure _

/-- Recording stores `false` and sends nothing. -/
theorem does_mark : Does (Plain mv xf look Cs) FtpFs.markConnectionUnusable := Prog.always_step rfl

theorem does_recordFtpError (e : FtpError) : Does (Plain mv xf look Cs) (FtpFs.recordFtpError e) := by
  unfold FtpFs.recordFtpError
  split
  · exact does_mark
  · exact does_pure _

theorem does_recordRemoteError (e : RemoteError) :
    Does (Plain mv xf look Cs) (FtpFs.recordRemoteError e) := by
  unfold FtpFs.recordRemoteError
  split
  · exact does_mark
  · exact does_pure _

theorem does_recordFtpResult (r : FtpResult α) : Does (Plain mv xf look Cs) (FtpFs.recordFtpResult r) := by
  cases r with
  | ok a => exact does_pure _
  | error e => exact does_recordFtpError e

theorem does_recordRemoteResult (r : RemoteResult α) :
    Does (Plain mv xf look Cs) (FtpFs.recordRemoteResult r) := by
  cases r with
  | ok a => exact does_pure _
  | error e => exact does_recordRemoteError e

/-- Starting a transfer raises the flag. -/
theorem does_withTransfer (hx : (mv || xf) = true) (r : FtpResult Response) (a : α) :
    Does (Plain mv xf look Cs) (FtpFs.withTransfer r a) := by
  cases r with
  | ok _ => exact does_step hx fun _ => does_step trivial fun _ => does_pure _
  | error e => exact does_pure _

theorem does_mapRefusal {r : FtpResult α} {classify : FtpError → Io RemoteError}
    (h : ∀ e, Does P (classify e)) : Does P (FtpFs.mapRefusal r classify) := by
  cases r with
  | ok a => exact does_pure _
  | error e => exact does_seq (h e) fun _ => does_pure _

theorem does_parseListing (X : Ext) (path : Path) (bytes : List UInt8) :
    Does P (FtpFs.parseListing X path bytes) := by
  unfold FtpFs.parseListing
  split
  · exact does_pure _
  · split
    · trivial
    · exact does_pure _

/-- One `REST`, or none for an offset that is no `usize`. -/
theorem does_requestOffset (X : Ext) {call : Conn → Command → Io (FtpResult Response)} {h : Conn}
    {offset : Nat} (hcall : Does P (call h (.resumeTransfer offset))) :
    Does P (requestOffset X call h offset) := by
  unfold requestOffset
  split
  · exact does_pure _
  refine does_seq hcall fun r => ?_
  split
  · exact does_pure _
  · split <;> exact does_pure _
  · exact does_pure _

theorem does_invalidateOnErr (r : RemoteResult Unit) :
    Does (Plain mv xf look Cs) (FtpReadStream.invalidateOnErr r) := by
  unfold FtpReadStream.invalidateOnErr
  split
  · exact Prog.always_step rfl
  · exact does_pure _

theorem does_unsupported (paths : List Path) : Does P (unsupported paths) := by
  induction paths with
  | nil => exact does_pure _
  | cons path rest ih => exact does_withRemotePath fun _ => ih

theorem does_leaving {p : Io α} (hp : Does P p) (out : α → Out) : Does P (leaving p out) :=
  Prog.always_bind hp fun _ => trivial

end

theorem listing_of {path : Path} (h : remotePath path = .ok path) :
    Listing (FtpFs.listCommand path) := ⟨path, (accepted_iff.mp h).1, rfl⟩

/-! ### The blocking client -/

namespace FtpFs

variable {xf look : Bool} {Cs : Command → Prop} {X : Ext}

/-- A call sends its command and reads the reply; a failed stream builder is recorded in
between. -/
theorem does_call (h : Conn) {c : Command} (hc : Cs c) : Does (Plain true xf look Cs) (call h c) := by
  refine does_step hc fun _ => ?_
  split
  · refine does_step trivial fun b => ?_
    split
    · exact does_step rfl fun _ => Prog.always_step hc
    · exact Prog.always_step hc
  · exact Prog.always_step hc

theorem does_withStream {f : Conn → Io (RemoteResult α)} (hf : ∀ h, Does (Plain true xf look Cs) (f h)) :
    Does (Plain true xf look Cs) (withStream f) := by
  refine does_step trivial fun _ => does_seq does_checkOperationState fun r => ?_
  split
  · exact does_step trivial fun _ => does_pure _
  refine does_step trivial fun s => ?_
  split
  · exact does_step trivial fun _ => does_pure _
  · exact does_seq (hf _) fun r => does_seq (does_recordRemoteResult r) fun _ =>
      does_step trivial fun _ => does_pure _

/-- The only section that moves the control stream, out of the slot and back. -/
theorem does_withExclusiveStream {f : Conn → Io (RemoteResult α)}
    (hf : ∀ h, Does (Plain true xf look Cs) (f h)) : Does (Plain true xf look Cs) (withExclusiveStream f) := by
  refine does_step trivial fun _ => does_seq does_checkOperationState fun r => ?_
  split
  · exact does_step trivial fun _ => does_pure _
  refine does_step rfl fun s => ?_
  split
  · exact does_step trivial fun _ => does_pure _
  refine does_step rfl fun _ => does_step trivial fun _ => does_step trivial fun _ =>
    does_seq (hf _) fun r => does_seq (does_recordRemoteResult r) fun _ =>
    does_seq ?_ fun _ => does_pure _
  exact does_step trivial fun _ => does_step rfl fun _ => does_step trivial fun _ =>
    Prog.always_step rfl

theorem does_readListBytes (h : Conn) {remote : Str} (hc : Cs (listCommand remote)) :
    Does (Plain true xf look Cs) (readListBytes h remote) := by
  refine does_seq (does_call h hc) fun r => ?_
  split
  · exact does_pure _
  · exact does_step trivial fun _ => does_step trivial fun _ => does_pure _

/-- What the blocking client does when it probes. -/
theorem doesClient (X : Ext) (hCs : ∀ c, Listing c → Cs c) : DoesClient (Plain true xf look Cs) (client X) where
  listDirRaw dir path hp := by
    refine does_seq (does_withExclusiveStream fun h =>
      does_seq (does_readListBytes h (hCs _ (listing_of hp))) fun r => ?_) fun r => ?_
    · split
      exact does_ite _ (does_step rfl fun _ => does_pure _) (does_pure _)
    · split
      · exact does_pure _
      · exact does_parseListing X _ _
  statRoot _ := does_withStream fun _ => does_pure _

theorem does_command {c : Command} (hc : Cs c) : Does (Plain true xf look Cs) (command c) :=
  does_withStream fun h => does_seq (does_call h hc) fun r =>
    does_seq (does_recordFtpResult r) fun _ => does_pure _

/-- `REST` goes out in front of a `RETR`, and again, at 0, behind one that failed. -/
theorem does_openTransfer (h : Conn) {remote : Str} {offset : Nat}
    (hretr : Cs (.retrAsStream remote)) (hrest : ∀ n, Cs (.resumeTransfer n)) :
    Does (Plain true xf look Cs) (openTransfer X h remote offset) := by
  refine does_seq ?_ fun r => ?_
  · split
    · exact does_requestOffset X (does_call h (hrest _))
    · exact does_pure _
  · split
    · exact does_pure _
    refine does_seq (does_call h hretr) fun r => ?_
    split
    · refine does_seq (does_call h (hrest 0)) fun r => ?_
      split
      · exact does_seq (does_call h hretr) fun r => does_seq (does_recordFtpResult r) fun _ =>
          does_seq (does_withTransfer rfl r _) fun _ => does_pure _
      · exact does_seq does_mark fun _ => does_pure _
    · exact does_seq (does_recordFtpResult _) fun _ => does_seq (does_withTransfer rfl _ _) fun _ =>
        does_pure _

end FtpFs

namespace FtpReadStream

variable {xf look : Bool} {Cs : Command → Prop} {X : Ext}

/-- What `open` does with a stream it gives up: skip, drain, finalize and drop it, all on
the data socket but for the record. -/
theorem does_skipPrefix (s : ReadStream) (offset : Nat) :
    Does (Plain true xf look Cs) (skipPrefix X s offset) := by
  unfold skipPrefix
  split
  · trivial
  refine does_step trivial fun r => ?_
  split
  · exact does_pure _
  · split <;> exact does_pure _

theorem does_finishRead (h : Conn) (atEof : Bool) : Does (Plain true xf look Cs) (finishRead X h atEof) := by
  have hfinish : ∀ drained : RemoteResult Unit, Does (Plain true xf look Cs) (do
      let finished ← step (.finish h)
      pure (cleanupOutcome .drain (fun drain _ => drain.kind) drained (mapFtpError finished))) :=
    fun _ => does_step trivial fun _ => does_pure _
  cases atEof with
  | true => exact hfinish _
  | false => exact does_step trivial fun r => hfinish _

theorem does_finishInner (s : ReadStream) : Does (Plain true xf look Cs) (finishInner X s) := by
  unfold finishInner
  split
  · trivial
  · exact does_seq (does_finishRead _ _) fun r => does_seq (does_invalidateOnErr r) fun _ =>
      does_pure _

theorem does_drop (s : ReadStream) : Does (Plain true xf look Cs) (drop X s) := by
  unfold drop
  split
  · exact Prog.always_step rfl
  · exact does_seq (does_finishRead _ _) fun r => does_seq (does_invalidateOnErr r) fun _ =>
      Prog.always_step rfl

theorem does_finishAfterSkip (s : ReadStream) (skip : RemoteError) :
    Does (Plain true xf look Cs) (finishAfterSkip X s skip) := by
  refine does_seq (does_finishInner s) fun r => ?_
  obtain ⟨finished, s⟩ := r
  refine does_seq (does_drop s) fun _ => ?_
  split <;> exact does_pure _

end FtpReadStream

namespace FtpFs

variable {xf look : Bool} {Cs : Command → Prop} {X : Ext}

theorem does_upload {c : Str → Command} {path : Path} (hC : DoesClient (Plain true xf look Cs) (client X))
    (hc : Accepted path → Cs (c path)) : Does (Plain true xf look Cs) (upload X c path) := by
  refine does_withRemotePath fun hp => ?_
  have ha := (accepted_iff.mp hp).1
  refine does_seq (does_withStream fun h => does_seq (does_call h (hc ha)) fun r =>
    does_seq (does_recordFtpResult r) fun _ => does_seq (does_withTransfer rfl r _) fun _ =>
    does_pure _) fun r => ?_
  split
  · exact does_pure _
  refine does_seq (does_mapRefusal (hC.classifyCreateRefusal path)) fun r => ?_
  split <;> exact does_pure _

/-- The steps of a managed operation of the blocking client. -/
theorem sync_plain (X : Ext) (op : Op) (hop : op.isMut = false) :
    Does (Plain true op.transfers op.looks op.Sends) (run X op) := by
  have hC : DoesClient (Plain true op.transfers op.looks op.Sends) (client X) := doesClient X fun c => Or.inl
  cases op with
  | connect o => cases hop
  | disconnect => cases hop
  | isConnected =>
    refine does_leaving ?_ _
    refine does_step trivial fun b => ?_
    split
    · refine does_step trivial fun _ => does_step trivial fun s => ?_
      split
      · exact does_step trivial fun _ => does_pure _
      · exact does_step trivial fun _ => does_step trivial fun _ => does_pure _
    · exact does_pure _
  | welcomeMessage =>
    refine does_leaving ?_ _
    refine does_step trivial fun _ => does_step trivial fun s => ?_
    split
    · exact does_step trivial fun _ => does_pure _
    · exact does_step trivial fun _ => does_step trivial fun _ => does_pure _
  | listDir path => exact does_leaving (hC.listDir path) _
  | stat path => exact does_leaving (hC.stat path) _
  | exists' path => exact does_leaving (hC.exists' path) _
  | setMetadata path => exact does_leaving (does_unsupported _) _
  | copy src dest => exact does_leaving (does_unsupported _) _
  | symlink path target => exact does_leaving (does_unsupported _) _
  | createDir path =>
    refine does_leaving (does_withRemotePath fun hp => ?_) _
    have ha := (accepted_iff.mp hp).1
    refine does_seq (does_command (.inr ⟨ha, rfl⟩)) fun r => ?_
    split
    · exact does_pure _
    · exact does_pure _
    · split
      · exact does_seq (hC.classifyCreateDirRefusal _ _) fun _ => does_pure _
      · exact does_pure _
  | removeFile path =>
    refine does_leaving (does_withRemotePath fun hp => ?_) _
    have ha := (accepted_iff.mp hp).1
    refine does_seq (does_command (.inr ⟨ha, rfl⟩)) fun r => ?_
    split
    · exact does_pure _
    · exact does_seq (does_mapRefusal (hC.classifyFileRefusal path)) fun _ => does_pure _
  | removeDir path =>
    refine does_leaving (does_withRemotePath fun hp => ?_) _
    have ha := (accepted_iff.mp hp).1
    refine does_seq (does_command (.inr ⟨ha, rfl⟩)) fun r => ?_
    split
    · exact does_pure _
    -- the failure is recorded a second time, outside the section
    · exact does_seq (does_mapRefusal fun e =>
        does_seq (does_recordFtpError e) fun _ => hC.classifyRemoveDirRefusal path e) fun _ =>
        does_pure _
  | rename src dest =>
    refine does_leaving (does_withRemotePath fun hs => does_withRemotePath fun hd => ?_) _
    have ha : Accepted src ∧ Accepted dest := ⟨(accepted_iff.mp hs).1, (accepted_iff.mp hd).1⟩
    refine does_seq (does_command (.inr ⟨ha.1, ha.2, rfl⟩)) fun r => ?_
    split
    · exact does_pure _
    · exact does_seq (does_mapRefusal (hC.classifyRenameRefusal src dest)) fun _ => does_pure _
  | open' path opts =>
    refine does_leaving (does_withRemotePath fun hp => ?_) _
    have ha := (accepted_iff.mp hp).1
    refine does_seq (does_withStream fun h =>
      does_openTransfer h (.inr (.inl ⟨ha, rfl⟩)) fun n => .inr (.inr ⟨n, rfl⟩)) fun r => ?_
    split
    · exact does_pure _
    refine does_seq (does_mapRefusal (hC.classifyFileRefusal path)) fun r => ?_
    split
    · exact does_pure _
    dsimp only
    split
    · refine does_seq (FtpReadStream.does_skipPrefix _ _) fun r => ?_
      split
      · exact does_seq (FtpReadStream.does_finishAfterSkip _ _) fun _ => does_pure _
      · exact does_pure _
    · exact does_pure _
  | create path => exact does_leaving (does_upload hC fun ha => .inr ⟨ha, rfl⟩) _
  | append path => exact does_leaving (does_upload hC fun ha => .inr ⟨ha, rfl⟩) _
  | exec cmd =>
    refine does_leaving ?_ _
    refine does_seq (does_withStream fun h => does_seq (does_call h (.inr rfl)) fun r => ?_) fun r => ?_
    · split <;> exact does_pure _
    · split <;> exact does_pure _

end FtpFs

/-! ### The Tokio client -/

namespace TokioReadStream

variable {xf look : Bool} {Cs : Command → Prop} {X : Ext}

/-- Dropping a stream marks the connection unless it was at EOF, and drops its transfer. -/
theorem plain_dropReadStream (s : ReadStream) : ∀ e ∈ dropReadStream s, Plain false true look Cs e := by
  intro e he
  simp only [dropReadStream, List.mem_append, List.mem_singleton] at he
  rcases he with he | rfl
  · split at he
    · cases he
    · split at he
      · simp only [List.nil_append, List.mem_singleton] at he
        subst he
        trivial
      · simp only [List.cons_append, List.nil_append, List.mem_cons, List.not_mem_nil, or_false] at he
        rcases he with rfl | rfl
        · rfl
        · trivial
  · rfl

theorem does_holding {g : List Eff} {p : Io α} (hp : Does P p) (hg : ∀ e ∈ g, P e) :
    Does P (Prog.holding (S := ftp) g p) := Prog.always_holding hp hg

theorem does_dropTransfer {h : Conn} {p : Io α} (hp : Does (Plain false xf look Cs) p) :
    Does (Plain false xf look Cs) (Prog.holding (S := ftp) [Eff.dropTransfer h] p) := by
  refine does_holding hp fun e he => ?_
  rw [List.mem_singleton] at he
  subst he
  trivial

theorem does_finishRead (h : Conn) (atEof : Bool) :
    Does (Plain false true look Cs) (finishRead X h atEof) := by
  refine does_dropTransfer ?_
  have hfinish : ∀ drained : RemoteResult Unit, Does (Plain false true look Cs) (do
      let finished ← await (.finish h)
      pure (cleanupOutcome .drain (fun drain _ => drain.kind) drained (mapFtpError finished))) :=
    fun _ => does_await trivial fun _ => does_pure _
  cases atEof with
  | true => exact hfinish _
  | false => exact does_await trivial fun r => hfinish _

theorem does_finishInner (s : ReadStream) : Does (Plain false true look Cs) (finishInner X s) := by
  unfold finishInner
  split
  · trivial
  · exact does_seq (does_holding (does_finishRead _ _) (plain_dropReadStream _)) fun r =>
      does_seq (does_invalidateOnErr r) fun _ => does_pure _

theorem does_skipPrefix (s : ReadStream) (offset : Nat) :
    Does (Plain false true look Cs) (skipPrefix X s offset) := by
  unfold skipPrefix
  split
  · trivial
  refine does_seq (does_holding (Prog.always_await trivial) (plain_dropReadStream s)) fun r => ?_
  split
  · exact does_pure _
  · split <;> exact does_pure _

theorem does_finishAfterSkip (s : ReadStream) (skip : RemoteError) :
    Does (Plain false true look Cs) (finishAfterSkip X s skip) := by
  refine does_seq (does_finishInner s) fun r => ?_
  obtain ⟨finished, s⟩ := r
  refine does_seq (Prog.always_glue (plain_dropReadStream s)) fun _ => ?_
  split <;> exact does_pure _

end TokioReadStream

namespace TokioFtpFs

open TokioReadStream (does_holding does_dropTransfer)

variable {xf look : Bool} {Cs : Command → Prop} {X : Ext}

theorem does_call (h : Conn) {c : Command} (hc : Cs c) : Does (Plain false xf look Cs) (call h c) := by
  refine does_await hc fun _ => ?_
  split
  · refine does_await trivial fun b => ?_
    split
    · exact does_step rfl fun _ => Prog.always_await hc
    · exact Prog.always_await hc
  · exact Prog.always_await hc

/-- The guard of a dropped section releases the mutex and marks the connection. -/
theorem does_guarded {p : Io α} (hp : Does (Plain false xf look Cs) p) :
    Does (Plain false xf look Cs) (guarded p) := by
  refine does_holding hp fun e he => ?_
  simp only [dropStreamGuard, List.mem_cons, List.not_mem_nil, or_false] at he
  rcases he with rfl | rfl
  · trivial
  · rfl

/-- `lock_stream` looks at the slot and moves nothing. -/
theorem does_lockStream : Does (Plain false xf look Cs) lockStream := by
  refine does_await trivial fun _ => does_seq does_checkOperationState fun r => ?_
  split
  · exact does_step trivial fun _ => does_pure _
  refine does_step trivial fun s => ?_
  split
  · exact does_step trivial fun _ => does_pure _
  · exact does_pure _

/-- An operation that takes the guard. -/
theorem does_locked {k : Conn → Io (RemoteResult α)} (hk : ∀ h, Does (Plain false xf look Cs) (k h)) :
    Does (Plain false xf look Cs) (do
      match ← lockStream with
      | .error e => pure (.error e)
      | .ok () =>
        let stream ← guardStream
        k stream) := by
  refine does_seq does_lockStream fun r => ?_
  split
  · exact does_pure _
  refine does_seq (does_step trivial fun s => ?_) fun h => hk h
  split
  · trivial
  · exact does_pure _

theorem does_complete {p : Io α} (hp : Does (Plain false xf look Cs) p) :
    Does (Plain false xf look Cs) (complete >>= fun _ => p) := does_step trivial fun _ => hp

theorem does_runCommand {c : Command} (hc : Cs c) : Does (Plain false xf look Cs) (runCommand c) :=
  does_locked fun h => does_seq (does_guarded (does_call h hc)) fun r =>
    does_complete (does_seq (does_recordFtpResult r) fun _ => does_pure _)

theorem does_readListBytes (h : Conn) {remote : Str} (hc : Cs (FtpFs.listCommand remote)) :
    Does (Plain false xf look Cs) (readListBytes h remote) := by
  refine does_seq (does_call h hc) fun r => ?_
  split
  · exact does_pure _
  · exact does_dropTransfer (does_await trivial fun _ => does_await trivial fun _ => does_pure _)

/-- What the Tokio client does when it probes. -/
theorem doesClient (X : Ext) (hCs : ∀ c, Listing c → Cs c) :
    DoesClient (Plain false xf look Cs) (client X) where
  listDirRaw dir path hp := by
    refine does_locked fun h =>
      does_seq (does_guarded (does_readListBytes h (hCs _ (listing_of hp)))) fun r => ?_
    obtain ⟨result, requiresReconnect⟩ := r
    refine does_complete (does_ite _ (does_step rfl fun _ => ?_) ?_) <;>
    · split
      · exact does_pure _
      · exact does_parseListing X _ _
  statRoot _ := by
    refine does_seq does_lockStream fun r => ?_
    split
    · exact does_pure _
    · exact does_complete (does_pure _)

theorem does_commandOr {c : Command} {classify : FtpError → Io RemoteError} (hc : Cs c)
    (h : ∀ e, Does (Plain false xf look Cs) (classify e)) : Does (Plain false xf look Cs) (commandOr c classify) := by
  refine does_seq (does_runCommand hc) fun r => ?_
  split
  · exact does_pure _
  · exact does_seq (does_mapRefusal h) fun _ => does_pure _

theorem does_openTransfer (h : Conn) {remote : Str} {offset : Nat}
    (hretr : Cs (.retrAsStream remote)) (hrest : ∀ n, Cs (.resumeTransfer n)) :
    Does (Plain false true look Cs) (openTransfer X h remote offset) := by
  refine does_seq ?_ fun r => ?_
  · split
    · exact does_guarded (does_requestOffset X (does_call h (hrest _)))
    · exact does_pure _
  · split
    · exact does_seq (does_recordRemoteError _) fun _ => does_complete (does_pure _)
    refine does_seq (does_guarded (does_call h hretr)) fun r => ?_
    split
    · refine does_seq (does_guarded (does_call h (hrest 0))) fun r => ?_
      split
      · exact does_seq (does_guarded (does_call h hretr)) fun r =>
          does_seq (does_recordFtpResult r) fun _ => does_seq (does_withTransfer rfl r _) fun _ =>
          does_complete (does_pure _)
      · exact does_seq does_mark fun _ => does_complete (does_pure _)
    · exact does_seq (does_recordFtpResult _) fun _ => does_seq (does_withTransfer rfl _ _) fun _ =>
        does_complete (does_pure _)

theorem does_skipTo (reader : ReadStream) (offset : Nat) (resumed : Bool) :
    Does (Plain false true look Cs) (skipTo X reader offset resumed) := by
  unfold skipTo
  split
  · refine does_seq (TokioReadStream.does_skipPrefix _ _) fun r => ?_
    split
    · exact does_seq (TokioReadStream.does_finishAfterSkip _ _) fun _ => does_pure _
    · exact does_pure _
  · exact does_pure _

theorem does_upload {c : Str → Command} {path : Path} (hC : DoesClient (Plain false true look Cs) (client X))
    (hc : Accepted path → Cs (c path)) : Does (Plain false true look Cs) (upload X c path) := by
  refine does_withRemotePath fun hp => ?_
  have ha := (accepted_iff.mp hp).1
  refine does_locked fun h => does_seq (does_guarded (does_call h (hc ha))) fun r =>
    does_seq (does_recordFtpResult r) fun _ => does_seq (does_withTransfer rfl r _) fun r =>
    does_complete (does_seq (does_mapRefusal (hC.classifyCreateRefusal path)) fun r => ?_)
  split <;> exact does_pure _

theorem does_open (path : Path) (opts : ReadOptions) :
    Does (Plain false true look (Op.open' path opts).Sends) (TokioFtpFs.open' X path opts) := by
  refine does_withRemotePath fun hp => ?_
  have ha := (accepted_iff.mp hp).1
  have hC : DoesClient (Plain false true look (Op.open' path opts).Sends) (client X) :=
    doesClient X fun c => Or.inl
  refine does_locked fun h => does_seq
    (does_openTransfer h (.inr (.inl ⟨ha, rfl⟩)) fun n => .inr (.inr ⟨n, rfl⟩)) fun r => ?_
  split
  · exact does_pure _
  refine does_seq (does_mapRefusal (hC.classifyFileRefusal path)) fun r => ?_
  split
  · exact does_pure _
  · exact does_skipTo _ _ _

/-- The steps of a managed operation of the Tokio client. -/
theorem tokio_plain (X : Ext) (op : Op) (hop : op.isMut = false) :
    Does (Plain false op.transfers op.looks op.Sends) (run X op) := by
  have hC : DoesClient (Plain false op.transfers op.looks op.Sends) (client X) := doesClient X fun c => Or.inl
  cases op with
  | connect o => cases hop
  | disconnect => cases hop
  | isConnected =>
    refine does_leaving ?_ _
    refine does_step trivial fun b => ?_
    split
    · refine does_step rfl fun s => ?_
      split
      · exact does_pure _
      · exact Prog.always_step trivial
    · exact does_pure _
  | welcomeMessage =>
    exact does_leaving (Prog.always_step (show Plain false _ _ _ Eff.loadWelcome from rfl)) _
  | listDir path => exact does_leaving (hC.listDir path) _
  | stat path => exact does_leaving (hC.stat path) _
  | exists' path => exact does_leaving (hC.exists' path) _
  | setMetadata path => exact does_leaving (does_unsupported _) _
  | copy src dest => exact does_leaving (does_unsupported _) _
  | symlink path target => exact does_leaving (does_unsupported _) _
  | createDir path =>
    refine does_leaving (does_withRemotePath fun hp => ?_) _
    have ha := (accepted_iff.mp hp).1
    refine does_seq (does_runCommand (.inr ⟨ha, rfl⟩)) fun r => ?_
    split
    · exact does_pure _
    · exact does_pure _
    · split
      · exact does_seq (hC.classifyCreateDirRefusal _ _) fun _ => does_pure _
      · exact does_pure _
  | removeFile path =>
    refine does_leaving (does_withRemotePath fun hp => ?_) _
    exact does_commandOr (.inr ⟨(accepted_iff.mp hp).1, rfl⟩) (hC.classifyFileRefusal path)
  | removeDir path =>
    refine does_leaving (does_withRemotePath fun hp => ?_) _
    exact does_commandOr (.inr ⟨(accepted_iff.mp hp).1, rfl⟩) (hC.classifyRemoveDirRefusal path)
  | rename src dest =>
    refine does_leaving (does_withRemotePath fun hs => does_withRemotePath fun hd => ?_) _
    exact does_commandOr (.inr ⟨(accepted_iff.mp hs).1, (accepted_iff.mp hd).1, rfl⟩)
      (hC.classifyRenameRefusal src dest)
  | open' path opts => exact does_leaving (does_open path opts) _
  | create path => exact does_leaving (does_upload hC fun ha => .inr ⟨ha, rfl⟩) _
  | append path => exact does_leaving (does_upload hC fun ha => .inr ⟨ha, rfl⟩) _
  | exec cmd =>
    refine does_leaving (does_locked fun h => does_seq (does_guarded (does_call h (.inr rfl))) fun r =>
      does_complete ?_) _
    split
    · exact does_seq (does_recordRemoteError _) fun _ => does_pure _
    · exact does_pure _

/-- The steps of an operation on an owned stream of the Tokio client. -/
theorem tokio_stream_plain (X : Ext) {s : OwnedStream} {op : StreamOp} {p : Io Out}
    (hp : runStream X s op = some p) : Does (Plain false true look Cs) p := by
  have hdrop : ∀ s, Does (Plain false true look Cs) (TokioReadStream.drop s) := fun s =>
    Prog.always_glue (TokioReadStream.plain_dropReadStream s)
  have hwrite : ∀ s, ∀ e ∈ dropWriteStream s, Plain false true look Cs e := by
    intro s e he
    simp only [dropWriteStream, List.mem_append, List.mem_singleton] at he
    rcases he with he | rfl
    · split at he
      · cases he
      · rw [List.mem_singleton] at he
        subst he
        trivial
    · rfl
  cases s with
  | read s =>
    cases op with
    | read n =>
      cases hp
      refine does_leaving ?_ _
      unfold TokioReadStream.read
      split
      · exact does_pure _
      split
      · exact does_pure _
      dsimp only
      split
      · trivial
      refine does_step trivial fun r => ?_
      split
      · exact does_pure _
      · split
        · exact does_pure _
        · split
          · exact does_pure _
          · trivial
    | finish =>
      cases hp
      refine does_leaving (does_seq (does_holding (Prog.always_await trivial)
        (TokioReadStream.plain_dropReadStream s)) fun _ =>
          does_seq (TokioReadStream.does_finishInner s) fun r => does_seq (hdrop r.2) fun _ => does_pure _) _
    | drop => cases hp; exact does_leaving (hdrop s) _
    | write | flush => cases hp
  | write s =>
    cases op with
    | write buf =>
      cases hp
      refine does_leaving ?_ _
      unfold TokioWriteStream.write
      split
      · trivial
      · exact Prog.always_step trivial
    | flush =>
      cases hp
      refine does_leaving ?_ _
      unfold TokioWriteStream.flush
      split
      · trivial
      · exact Prog.always_step trivial
    | finish =>
      cases hp
      refine does_leaving (does_seq (does_holding (Prog.always_await trivial) (hwrite s)) fun _ => ?_) _
      split
      · trivial
      rename_i inner _
      have hfinish : Does (Plain false true look Cs) (TokioWriteStream.finishWrite X inner) :=
        does_dropTransfer (does_await trivial fun _ => does_await trivial fun _ => does_pure _)
      exact does_seq (does_holding hfinish (hwrite _)) fun r => does_seq (does_invalidateOnErr r) fun _ =>
        does_seq (Prog.always_glue (hwrite _)) fun _ => does_pure _
    | drop => cases hp; exact does_leaving (Prog.always_glue (hwrite s)) _
    | read n => cases hp

end TokioFtpFs

/-! ## One command line per exchange -/

/-- `a` is handed to `suppaftp` when `p` runs. -/
def Hands (p : Io α) (a : Str) : Prop := ∃ h c, Prog.Takes (S := ftp) p (.send h c) ∧ a ∈ c.args

/-- The string of an `exec`, if it is one, holds no control character. -/
def Op.plainExec : Op → Bool
  | .exec cmd => !hasAsciiControl cmd
  | _ => true

theorem Listing.plain {c : Command} (hc : Listing c) : ∀ a ∈ c.args, hasAsciiControl a = false := by
  obtain ⟨path, hp, rfl⟩ := hc
  intro a ha
  obtain rfl : a = "LIST ".toList ++ path := by simpa [FtpFs.listCommand, Command.args] using ha
  have hlist : hasAsciiControl "LIST ".toList = false := by decide
  rw [hasAsciiControl_append, hlist, (accepted_iff_control.mp hp).2.2.1]
  rfl

/-- What an operation sends is plain, unless it is `exec` of a string that is not. -/
theorem Op.Sends.plain {op : Op} {c : Command} (hc : op.Sends c) (hop : op.plainExec = true) :
    ∀ a ∈ c.args, hasAsciiControl a = false := by
  have hpath : ∀ {path : Path}, Accepted path → hasAsciiControl path = false := fun h =>
    (accepted_iff_control.mp h).2.2.1
  rcases hc with hc | hc
  · exact hc.plain
  cases op with
  | createDir path | removeFile path | removeDir path | create path | append path =>
    obtain ⟨hp, rfl⟩ := hc
    simpa [Command.args] using hpath hp
  | rename src dest =>
    obtain ⟨hs, hd, rfl⟩ := hc
    simpa [Command.args] using ⟨hpath hs, hpath hd⟩
  | open' path opts =>
    rcases hc with ⟨hp, rfl⟩ | ⟨n, rfl⟩
    · simpa [Command.args] using hpath hp
    · simp [Command.args]
  | exec cmd =>
    obtain rfl : c = .site cmd := hc
    simpa [Command.args, plainExec] using hop
  | _ => exact hc.elim

/-- A managed operation hands over plain strings if its commands are plain, and
if it is an `exec` only then. -/
theorem hands_plain_iff {mv xf look : Bool} {op : Op} {p : Io Out} (hp : Does (Plain mv xf look op.Sends) p)
    (hexec : ∀ cmd, op = .exec cmd → Hands p cmd) :
    (∀ a, Hands p a → hasAsciiControl a = false) ↔ op.plainExec = true := by
  constructor
  · intro h
    cases op with
    | exec cmd => simpa [Op.plainExec] using h cmd (hexec cmd rfl)
    | _ => rfl
  · rintro hop a ⟨h, c, ht, ha⟩
    have hc : op.Sends c := Prog.Always.takes hp ht
    exact hc.plain hop a ha

/-- **One command line per exchange.** On every connection, with every answer
and every interference, a managed operation hands only strings without control
characters to `suppaftp`, exactly unless it is `exec` of a string with one. -/
theorem one_line_per_command (X : Ext) (op : Op) (hop : op.isMut = false) :
    ((∀ a, Hands (FtpFs.run X op) a → hasAsciiControl a = false) ↔ op.plainExec = true) ∧
      ((∀ a, Hands (TokioFtpFs.run X op) a → hasAsciiControl a = false) ↔ op.plainExec = true) := by
  constructor
  · refine hands_plain_iff (FtpFs.sync_plain X op hop) ?_
    rintro cmd rfl
    refine ⟨0, .site cmd, ?_, by simp [Command.args]⟩
    exact .inr ⟨(), .inr ⟨false, .inr ⟨true, .inr ⟨some 0, .inl rfl⟩⟩⟩⟩
  · refine hands_plain_iff (TokioFtpFs.tokio_plain X op hop) ?_
    rintro cmd rfl
    refine ⟨0, .site cmd, ?_, by simp [Command.args]⟩
    exact .inr ⟨(), .inr ⟨false, .inr ⟨true, .inr ⟨some 0, .inr ⟨some 0, .inl rfl⟩⟩⟩⟩⟩

/-- An environment whose listings hold plain rows. -/
def rowExt : Ext where
  listParser := plainParser
  ioErrorKind _ := .other 0
  fromUtf8Lossy bytes := bytes.map fun b => Char.ofNat b.toNat
  usizeMax := usizeMax64
  usizeMax_pos := usizeMax64_pos

/-- A server that accepts everything. -/
def agreeable : Server Unit where
  answer _ _ := ({}, ())

/-- The metadata lookup below a directory, which probes the parent too. -/
theorem one_line_per_command_stat :
    (Op.stat "/a/b".toList).isMut = false ∧
      (∀ a, Hands (FtpFs.run rowExt (.stat "/a/b".toList)) a → hasAsciiControl a = false) ∧
      ∀ a, Hands (TokioFtpFs.run rowExt (.stat "/a/b".toList)) a → hasAsciiControl a = false :=
  ⟨rfl, (one_line_per_command rowExt (.stat "/a/b".toList) rfl).1.mpr rfl,
    (one_line_per_command rowExt (.stat "/a/b".toList) rfl).2.mpr rfl⟩

/-- A command with a tab in it, which `suppaftp` sends as it is. -/
def tabbed : Str := "NOOP\tX".toList

/-- On a connected client both clients hand the control character over, and
`exec` succeeds. -/
theorem exec_tabbed :
    hasAsciiControl tabbed = true ∧
      (∃ w, Prog.eval (caller agreeable ()) (FtpFs.run rowExt (.exec tabbed))
          ⟨.start (some 0), (), []⟩ = some (.done, w) ∧
        w.calls = [⟨.send 0 (.site tabbed), ()⟩,
          ⟨.recv 0 (.site tabbed), .ok ⟨.other 200, []⟩⟩]) ∧
      ∃ w, Prog.eval (caller agreeable ()) (TokioFtpFs.run rowExt (.exec tabbed))
          ⟨.start (some 0), (), []⟩ = some (.done, w) ∧
        w.calls = [⟨.send 0 (.site tabbed), ()⟩,
          ⟨.recv 0 (.site tabbed), .ok ⟨.other 200, []⟩⟩] :=
  ⟨by decide, ⟨_, rfl, rfl⟩, ⟨_, rfl, rfl⟩⟩

end RemotefsFtp.L3
