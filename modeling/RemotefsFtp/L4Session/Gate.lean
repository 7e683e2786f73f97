import RemotefsFtp.L4Session.Opening
import RemotefsFtp.L4Session.Script

/-!
# The gate

Every managed operation first checks the two flags and the slot (`gate`). It
runs the same whatever the check finds wrong, and otherwise its command is the
first thing it sends.

Results:
* `sync_shut`: behind a shut gate an operation fails and nothing happens.
* `sync_starts`: through an open one it sends its command first (`Leads`).
-/
namespace RemotefsFtp.L4

open L1 (Str Path)
open L2 L3
open Core (Prog Event)

variable {σ α β : Type} {V : Server σ}

/-! ## A closed gate -/

/-- A refusal of the gate sends no probe after it, and does not say "missing". -/
theorem gate_error {f : Frame} {usable : Bool} {e : RemoteError} (hg : gate f usable = .error e) :
    isAmbiguousPathRefusal e = false ∧ missing e = false := by
  obtain ⟨slot, locked, active, connected, welcome⟩ := f
  cases active <;> cases usable <;> cases slot <;> cases hg <;> exact ⟨rfl, rfl⟩

section
variable (X : Ext) {x : Session σ} {e : RemoteError} (hx : x.locked = false)
  (hg : gate x.toFrame x.usable = .error e)
include hx hg

/-- Every section behind a shut gate is its error; so is what is made of sections. -/
theorem shut_withStream (p : Conn → Io (RemoteResult α)) (k : RemoteResult α → Io β) :
    Prog.eval (alone V) (FtpFs.withStream p >>= k) x = Prog.eval (alone V) (k (.error e)) x :=
  eval_withStream_error x.toLine hx hg p k

theorem shut_listDirRaw (path : Path) (remote : Str) (k : RemoteResult (List File) → Io β) :
    Prog.eval (alone V) (FtpFs.listDirRaw X path remote >>= k) x =
      Prog.eval (alone V) (k (.error e)) x := by
  unfold FtpFs.listDirRaw
  simp only [bind_assoc]
  exact eval_withExclusiveStream_error x.toLine hx hg _ _

theorem shut_stat {path : Path} (hp : Accepted path) (k : RemoteResult File → Io β) :
    Prog.eval (alone V) (FtpFs.stat X path >>= k) x = Prog.eval (alone V) (k (.error e)) x := by
  unfold FtpFs.stat Client.stat
  cases hpar : path.parent with
  | none =>
    rw [Client.statFuel_root _ hp (hp.parent_none.mp hpar)]
    exact shut_withStream hx hg _ k
  | some parent =>
    rw [Client.statFuel_eq _ hp hpar]
    simp only [bind_assoc]
    refine (shut_listDirRaw X hx hg parent parent _).trans ?_
    simp [Client.listingRefused, (gate_error hg).1]

theorem shut_command (c : Command) (k : RemoteResult (FtpResult Response) → Io β) :
    Prog.eval (alone V) (FtpFs.command c >>= k) x = Prog.eval (alone V) (k (.error e)) x :=
  shut_withStream hx hg _ k

end

/-! ## An open gate -/

/-- From `x`, the first thing `p` does on the line is the call `c` on `h`. -/
def Starts (V : Server σ) (x : Session σ) (h : Conn) (c : Command) (p : Io α) : Prop :=
  ∃ f k, Prog.eval (alone V) p x = Prog.eval (alone V) (call h c >>= k) ⟨f, x.toLine⟩

theorem Starts.bind {x : Session σ} {h : Conn} {c : Command} {p : Io α} (hp : Starts V x h c p)
    (f : α → Io β) : Starts V x h c (p >>= f) := by
  obtain ⟨g, k, he⟩ := hp
  refine ⟨g, fun r => k r >>= f, ?_⟩
  rw [← bind_assoc, Prog.bind_eq, Prog.eval_bind, he, ← Prog.eval_bind]
  rfl

/-- ... so that it is the first call it makes. -/
theorem Starts.calls {x y : Session σ} {h : Conn} {c : Command} {p : Io α} {a : α}
    (hp : Starts V x h c p) (he : Prog.eval (alone V) p x = some (a, y)) :
    ∃ rest, y.calls = x.calls ++ ⟨.send h c, ()⟩ :: rest := by
  obtain ⟨f, k, hk⟩ := hp
  rw [hk] at he
  unfold call at he
  simp only [bind_assoc] at he
  obtain ⟨⟨r, z⟩, hs, hz⟩ := Option.bind_eq_some_iff.mp he
  obtain ⟨evs, hc, -⟩ := eval_calls hz
  have hz : z.calls = x.calls ++ [⟨.send h c, ()⟩] := step_calls hs
  exact ⟨evs, by rw [hc, hz, List.append_assoc]; rfl⟩

section
variable (X : Ext) {x : Session σ} {h : Conn} (hx : x.locked = false)
  (hg : gate x.toFrame x.usable = .ok h)
include hx hg

/-- The check and the lock are not on the line, so a section starts with the call of its
closure. -/
theorem starts_withStream {c : Command} {p : Conn → Io (RemoteResult α)}
    {k : FtpResult Response → Io (RemoteResult α)} (hp : p h = call h c >>= k) :
    Starts V x h c (FtpFs.withStream p) := by
  have he := eval_withStream_ok (V := V) x.toLine hx hg p pure
  rw [bind_pure, hp] at he
  simp only [bind_assoc] at he
  exact ⟨_, _, he⟩

theorem starts_withExclusiveStream {c : Command} {p : Conn → Io (RemoteResult α)}
    {k : FtpResult Response → Io (RemoteResult α)} (hp : p h = call h c >>= k) :
    Starts V x h c (FtpFs.withExclusiveStream p) := by
  have he := eval_withExclusiveStream_ok (V := V) x.toLine hx hg p pure
  rw [bind_pure, hp] at he
  simp only [bind_assoc] at he
  exact ⟨_, _, he⟩

theorem starts_listDirRaw (path : Path) (remote : Str) :
    Starts V x h (FtpFs.listCommand remote) (FtpFs.listDirRaw X path remote) :=
  (starts_withExclusiveStream hx hg (bind_assoc _ _ _)).bind _

theorem starts_stat {path parent : Path} (hp : Accepted path) (hpar : path.parent = some parent) :
    Starts V x h (FtpFs.listCommand parent) (FtpFs.stat X path) := by
  unfold FtpFs.stat Client.stat
  rw [Client.statFuel_eq _ hp hpar]
  exact (starts_listDirRaw X hx hg parent parent).bind _

theorem starts_command (c : Command) : Starts V x h c (FtpFs.command c) :=
  starts_withStream hx hg rfl

end

/-! ## The operations that have a command -/

/-- The first command of an operation on valid paths. The root is never
listed for its entry, and what `suppaftp` does not support has none. -/
def Leads (X : Ext) : Op → Command → Prop
  | .listDir path, c => Accepted path ∧ c = FtpFs.listCommand path
  | .stat path, c | .exists' path, c =>
    Accepted path ∧ ∃ parent, path.parent = some parent ∧ c = FtpFs.listCommand parent
  | .createDir path, c => Accepted path ∧ c = .mkdir path
  | .removeFile path, c => Accepted path ∧ c = .rm path
  | .removeDir path, c => Accepted path ∧ c = .rmdir path
  | .rename src dest, c => Accepted src ∧ Accepted dest ∧ c = .rename src dest
  | .open' path opts, c =>
    Accepted path ∧ c = if 0 < opts.offset.getD 0 ∧ opts.offset.getD 0 ≤ X.usizeMax then
      .resumeTransfer (opts.offset.getD 0) else .retrAsStream path
  | .create path, c => Accepted path ∧ c = .putWithStream path
  | .append path, c => Accepted path ∧ c = .appendWithStream path
  | .exec cmd, c => c = .site cmd
  | _, _ => False

theorem leads_isMut {X : Ext} {op : Op} {c : Command} (h : Leads X op c) : op.isMut = false := by
  cases op with
  | connect o | disconnect => exact h.elim
  | _ => rfl

theorem leads_compared {X : Ext} {op : Op} {c : Command} (h : Leads X op c) :
    Op.compared op = true := by
  cases op with
  | welcomeMessage => exact h.elim
  | _ => rfl

/-- The kind of a failure. -/
def Reply.failure : Reply → Option RemoteErrorType
  | done (.error e) | entries (.error e) | entry (.error e) | found (.error e) | reader (.error e)
  | writer (.error e) | output (.error e) => some e.kind
  | _ => none

theorem withRemotePath_accepted {path : Path} (hp : Accepted path) (k : Str → Io (RemoteResult α)) :
    withRemotePath path k = k path := by
  unfold withRemotePath
  rw [remotePath_ok hp]

/-- `p` fails and nothing else happens; with the error `e` of the gate if `ok`. -/
def Refused (V : Server σ) (x : Session σ) (e : RemoteError) (ok : Prop) (p : Io (RemoteResult α)) :
    Prop :=
  ∃ e', Prog.eval (alone V) p x = some (.error e', x) ∧ (ok → e' = e)

section
variable {x : Session σ} {e : RemoteError} {ok : Prop}

theorem refused_of_eq {p : Io (RemoteResult α)}
    (h : Prog.eval (alone V) p x = some (.error e, x)) : Refused V x e ok p :=
  ⟨e, h, fun _ => rfl⟩

theorem refused_bind {p : Io (RemoteResult α)} {f : RemoteResult α → Io (RemoteResult β)}
    (h : Prog.eval (alone V) (p >>= f) x = Prog.eval (alone V) (f (.error e)) x)
    (hf : f (.error e) = pure (.error e)) : Refused V x e ok (p >>= f) :=
  refused_of_eq (by rw [h, hf]; rfl)

/-- Either the path is rejected, or the gate refuses what comes behind it. -/
theorem refused_path {path : Path} {k : Str → Io (RemoteResult α)}
    (hk : Accepted path → Refused V x e ok (k path)) (hok : ok → Accepted path) :
    Refused V x e ok (withRemotePath path k) := by
  unfold withRemotePath
  cases hp : remotePath path with
  | error e' =>
    refine ⟨e', rfl, fun h => ?_⟩
    rw [remotePath_ok (hok h)] at hp
    cases hp
  | ok remote =>
    obtain ⟨ha, rfl⟩ := accepted_iff.mp hp
    exact hk ha

theorem refused_unsupported (hok : ¬ ok) (paths : List Path) :
    Refused V x e ok (unsupported paths) := by
  induction paths with
  | nil => exact ⟨_, rfl, fun h => (hok h).elim⟩
  | cons path rest ih => exact refused_path (fun _ => ih) fun h => (hok h).elim

/-- What the caller sees of a refusal. -/
theorem Refused.reply {p : Io (RemoteResult α)} (h : Refused V x e ok p) (f : RemoteResult α → Reply)
    (hf : ∀ e', (f (.error e')).failure = some e'.kind ∧ (f (.error e')).stream = none) :
    ∃ r, Prog.eval (alone V) (p >>= fun a => pure (f a)) x = some (r, x) ∧ r.stream = none ∧
      (ok → r.failure = some e.kind) := by
  obtain ⟨e', he, hok⟩ := h
  refine ⟨f (.error e'), ?_, (hf e').2, fun h => ?_⟩
  · rw [Prog.bind_eq, Prog.eval_bind, he]
    rfl
  · rw [(hf e').1, hok h]

end

section
variable (X : Ext) {x : Session σ} {e : RemoteError} (hx : x.locked = false)
  (hg : gate x.toFrame x.usable = .error e)
include hx hg

/-- The refusal of the gate is not taken for a missing path by any probe. -/
theorem refused_listDir {path : Path} {ok : Prop} (hok : ok → Accepted path) :
    Refused V x e ok (FtpFs.listDir X path) := by
  unfold FtpFs.listDir Client.listDir
  cases hp : remotePath path with
  | error e' =>
    refine ⟨e', rfl, fun h => ?_⟩
    rw [remotePath_ok (hok h)] at hp
    cases hp
  | ok remote =>
    refine refused_bind (shut_listDirRaw X hx hg path remote _) ?_
    simp [Client.listingRefused, (gate_error hg).1]

theorem refused_stat {path : Path} {ok : Prop} (hok : ok → Accepted path) :
    Refused V x e ok (FtpFs.stat X path) := by
  cases hp : remotePath path with
  | error e' =>
    refine ⟨e', ?_, fun h => ?_⟩
    · unfold FtpFs.stat Client.stat Client.statFuel
      rw [hp]
      rfl
    · rw [remotePath_ok (hok h)] at hp
      cases hp
  | ok remote =>
    have h := shut_stat (V := V) X hx hg (accepted_iff.mp hp).1 pure
    rw [bind_pure] at h
    exact refused_of_eq h

theorem refused_exists {path : Path} {ok : Prop} (hok : ok → Accepted path) :
    Refused V x e ok (FtpFs.exists' X path) := by
  cases hp : remotePath path with
  | error e' =>
    have hmissing : missing e' = false := by
      unfold missing
      rw [remotePath_error hp]
      rfl
    have hpath : Client.exists' (FtpFs.client X) path = pure (.error e') := by
      unfold Client.exists' Client.stat Client.statFuel
      rw [hp]
      exact if_neg (by simp [hmissing])
    refine ⟨e', ?_, fun h => ?_⟩
    · unfold FtpFs.exists'
      rw [hpath]
      rfl
    · rw [remotePath_ok (hok h)] at hp
      cases hp
  | ok remote =>
    refine refused_bind (shut_stat X hx hg (accepted_iff.mp hp).1 _) ?_
    simp [(gate_error hg).2]

theorem refused_upload {c : Str → Command} {path : Path} {ok : Prop} (hok : ok → Accepted path) :
    Refused V x e ok (FtpFs.upload X c path) :=
  refused_path (fun _ => refused_bind (shut_withStream hx hg _ _) rfl) hok

/-- Behind a shut gate nothing happens. -/
theorem sync_shut (op : Op) (hop : op.isMut = false) :
    ∃ r, Prog.eval (alone V) (syncReply X op) x = some (r, x) ∧ r.stream = none ∧
      ((∃ c, Leads X op c) → r.failure = some e.kind) := by
  have hlead {p : Path} {Q : Prop} (h : ∃ c : Command, Accepted p ∧ Q) : Accepted p := h.choose_spec.1
  cases op with
  | connect o => cases hop
  | disconnect => cases hop
  | isConnected =>
    obtain ⟨⟨slot, locked, active, connected, welcome⟩, l⟩ := x
    obtain ⟨srv, calls, usable, banner, hasBuilder, next⟩ := l
    obtain rfl : locked = false := hx
    refine ⟨.connected (usable && (slot.isSome || active)), ?_, rfl, fun ⟨_, h⟩ => h.elim⟩
    cases usable <;> cases slot <;> rfl
  | welcomeMessage =>
    obtain ⟨⟨slot, locked, active, connected, welcome⟩, l⟩ := x
    obtain rfl : locked = false := hx
    refine ⟨.banner (slot.elim none l.banner), ?_, rfl, fun ⟨_, h⟩ => h.elim⟩
    cases slot <;> rfl
  | listDir path =>
    exact (refused_listDir X hx hg (fun ⟨c, h, _⟩ => h)).reply _ fun _ => ⟨rfl, rfl⟩
  | stat path =>
    exact (refused_stat X hx hg (fun ⟨c, h, _⟩ => h)).reply _ fun _ => ⟨rfl, rfl⟩
  | exists' path =>
    exact (refused_exists X hx hg (fun ⟨c, h, _⟩ => h)).reply _ fun _ => ⟨rfl, rfl⟩
  | setMetadata path | copy src dest | symlink path target =>
    exact (refused_unsupported (fun ⟨_, h⟩ => h) _).reply _ fun _ => ⟨rfl, rfl⟩
  | createDir path =>
    refine (refused_path (fun _ => ?_) (fun ⟨c, h, _⟩ => h)).reply _ fun _ => ⟨rfl, rfl⟩
    exact refused_bind (shut_command hx hg _ _) rfl
  | removeFile path =>
    refine (refused_path (fun _ => ?_) (fun ⟨c, h, _⟩ => h)).reply _ fun _ => ⟨rfl, rfl⟩
    exact refused_bind (shut_command hx hg _ _) rfl
  | removeDir path =>
    refine (refused_path (fun _ => ?_) (fun ⟨c, h, _⟩ => h)).reply _ fun _ => ⟨rfl, rfl⟩
    exact refused_bind (shut_command hx hg _ _) rfl
  | rename src dest =>
    refine (refused_path (fun _ => refused_path (fun _ => ?_) (fun ⟨c, _, h, _⟩ => h))
      (fun ⟨c, h, _⟩ => h)).reply _ fun _ => ⟨rfl, rfl⟩
    exact refused_bind (shut_command hx hg _ _) rfl
  | open' path opts =>
    refine (refused_path (fun _ => ?_) (fun ⟨c, h, _⟩ => h)).reply _ fun _ => ⟨rfl, rfl⟩
    exact refused_bind (shut_withStream hx hg _ _) rfl
  | create path | append path =>
    exact (refused_upload X hx hg (fun ⟨c, h, _⟩ => h)).reply _ fun _ => ⟨rfl, rfl⟩
  | exec cmd =>
    have h : Refused V x e (∃ c, Leads X (.exec cmd) c) (FtpFs.exec X cmd) :=
      refused_bind (shut_withStream hx hg _ _) rfl
    exact h.reply .output fun _ => ⟨rfl, rfl⟩

end

section
variable (X : Ext) {x : Session σ} {h : Conn} (hx : x.locked = false)
  (hg : gate x.toFrame x.usable = .ok h)
include hx hg

/-- `open` starts with `REST` if it has an offset that fits, else with `RETR`. -/
theorem starts_openTransfer {remote : Path} {offset : Nat} :
    Starts V x h (if 0 < offset ∧ offset ≤ X.usizeMax then .resumeTransfer offset else
      .retrAsStream remote) (FtpFs.withStream fun h => FtpFs.openTransfer X h remote offset) := by
  by_cases ho : 0 < offset ∧ offset ≤ X.usizeMax
  · rw [if_pos ho]
    obtain ⟨k, hk⟩ : ∃ k, FtpFs.openTransfer X h remote offset =
        call h (.resumeTransfer offset) >>= k := by
      rw [openTransfer_eq, if_pos ho.1, requestOffset_eq X h ho.2]
      exact ⟨_, bind_assoc _ _ _⟩
    exact starts_withStream hx hg hk
  · rw [if_neg ho]
    obtain ⟨k, hk⟩ : ∃ k, FtpFs.openTransfer X h remote offset =
        call h (.retrAsStream remote) >>= k := by
      rw [openTransfer_eq, requestNone X h ho]
      exact ⟨_, rfl⟩
    exact starts_withStream hx hg hk

/-- Otherwise the operation sends its command first. -/
theorem sync_starts {op : Op} {c : Command} (hop : Leads X op c) :
    Starts V x h c (syncReply X op) := by
  cases op with
  | listDir path =>
    obtain ⟨hp, rfl⟩ := hop
    refine Starts.bind ?_ _
    unfold FtpFs.listDir Client.listDir
    rw [remotePath_ok hp]
    exact (starts_listDirRaw X hx hg path path).bind _
  | stat path =>
    obtain ⟨hp, parent, hpar, rfl⟩ := hop
    exact (starts_stat X hx hg hp hpar).bind _
  | exists' path =>
    obtain ⟨hp, parent, hpar, rfl⟩ := hop
    exact ((starts_stat X hx hg hp hpar).bind _).bind _
  | createDir path | removeFile path | removeDir path =>
    obtain ⟨hp, rfl⟩ := hop
    refine Starts.bind ?_ _
    first | unfold FtpFs.createDir | unfold FtpFs.removeFile | unfold FtpFs.removeDir
    rw [withRemotePath_accepted hp]
    exact (starts_command hx hg _).bind _
  | rename src dest =>
    obtain ⟨hs, hd, rfl⟩ := hop
    refine Starts.bind ?_ _
    unfold FtpFs.rename
    rw [withRemotePath_accepted hs, withRemotePath_accepted hd]
    exact (starts_command hx hg _).bind _
  | open' path opts =>
    obtain ⟨hp, rfl⟩ := hop
    refine Starts.bind ?_ _
    rw [open_eq, withRemotePath_accepted hp]
    exact (starts_openTransfer X hx hg).bind _
  | create path | append path =>
    obtain ⟨hp, rfl⟩ := hop
    refine Starts.bind ?_ _
    first | unfold FtpFs.create | unfold FtpFs.append
    unfold FtpFs.upload
    rw [withRemotePath_accepted hp]
    exact (starts_withStream hx hg rfl).bind _
  | exec cmd =>
    obtain rfl : c = .site cmd := hop
    exact ((starts_withStream hx hg rfl).bind _).bind _
  | _ => exact hop.elim

end

end RemotefsFtp.L4
