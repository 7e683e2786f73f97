import RemotefsFtp.L3Client.Climb

/-!
# What an error kind rests on (`src/client/sync.rs:418-532, 784-886`)

A server's `550` says neither that a path is missing nor that it is forbidden.
Metadata lookup calls a path missing, and the classification of a refused
command calls it missing, existing or of the wrong type, on what further
listings show.

Results:
* **`absence_proved`**: `stat`, `list_dir` and `exists` call a path missing
  only after a listing in which it, or a directory above it, does not stand.
* **`refusal_evident`**: a refused operation is reported by what its probe
  found; `open` and `remove_file` do so exactly if the probe found a directory
  or nothing, and `open` if it probed at all.
-/
namespace RemotefsFtp.L3

open L1 (Str Path)
open L2
open Core (Prog Event)

variable {α β : Type}

/-! ## Missing paths -/

/-- **Absence is proved.** A lookup that calls a path missing has read a
listing of a directory above it, and the child that lies on the path was not
in it. -/
theorem absence_proved (X : Ext) {path : Path} {remote : Str} (h : remotePath path = .ok remote) :
    Ensures (FtpFs.stat X path) (fun evs r =>
      ∀ e, r = .error e → e.kind = .noSuchFileOrDirectory → Absent X path evs) ∧
    Ensures (FtpFs.listDir X path) (fun evs r =>
      ∀ e, r = .error e → e.kind = .noSuchFileOrDirectory → Absent X path evs) ∧
    Ensures (FtpFs.exists' X path) (fun evs r => r = .ok false → Absent X path evs) := by
  have hacc := (accepted_iff.mp h).1
  refine ⟨?_, ?_, ?_⟩
  · exact Prog.Ensures.mono (FtpFs.stat_ensures X hacc) fun evs r hr => hr.missing
  · exact Prog.Ensures.mono (FtpFs.listDir_ensures X hacc) fun evs r hr => hr.2
  · refine ensures_seq (FtpFs.stat_ensures X hacc) fun evs r hr => ?_
    cases r with
    | ok entry =>
      intro hf
      cases hf
    | error e =>
      dsimp only
      split
      · rename_i hm
        intro _
        rw [List.append_nil]
        exact hr.missing e rfl (of_decide_eq_true hm)
      · intro hf
        cases hf

theorem absence_proved_nested :
    Ensures (FtpFs.stat rowExt "/a/b".toList) (fun evs r =>
      ∀ e, r = .error e → e.kind = .noSuchFileOrDirectory → Absent rowExt "/a/b".toList evs) ∧
    Ensures (FtpFs.listDir rowExt "/a/b".toList) (fun evs r =>
      ∀ e, r = .error e → e.kind = .noSuchFileOrDirectory → Absent rowExt "/a/b".toList evs) ∧
    Ensures (FtpFs.exists' rowExt "/a/b".toList) (fun evs r => r = .ok false → Absent rowExt "/a/b".toList evs) :=
  absence_proved rowExt (rfl : remotePath "/a/b".toList = .ok "/a/b".toList)

/-! ## Refusable operations -/

/-- The operations whose refusal is classified. -/
inductive Refusable where
  | open' (path : Path) (opts : ReadOptions)
  | removeFile (path : Path)
  | create (path : Path)
  | append (path : Path)
  | removeDir (path : Path)
  | createDir (path : Path)
  | rename (src dest : Path)

namespace Refusable

def run (X : Ext) : Refusable → Io (RemoteResult Unit)
  | open' path opts => do
    let r ← FtpFs.open' X path opts
    pure (FtpFs.asUnit r)
  | removeFile path => FtpFs.removeFile X path
  | create path => do
    let r ← FtpFs.create X path
    pure (FtpFs.asUnit r)
  | append path => do
    let r ← FtpFs.append X path
    pure (FtpFs.asUnit r)
  | removeDir path => FtpFs.removeDir X path
  | createDir path => FtpFs.createDir X path
  | rename src dest => FtpFs.rename X src dest

/-- What an accepted command leaves. -/
@[reducible] def Got : Refusable → Type
  | open' _ _ => Conn × Bool
  | create _ | append _ => Conn
  | _ => Response

/-- The operation up to the reply that decides it. -/
def front (X : Ext) : (op : Refusable) → Io (RemoteResult (FtpResult op.Got))
  | open' path opts => withRemotePath path fun remote =>
    FtpFs.withStream fun stream => FtpFs.openTransfer X stream remote (opts.offset.getD 0)
  | create path => withRemotePath path fun remote => FtpFs.withStream fun stream => do
    let result ← call stream (.putWithStream remote)
    FtpFs.recordFtpResult result
    let result ← FtpFs.withTransfer result stream
    pure (.ok result)
  | append path => withRemotePath path fun remote => FtpFs.withStream fun stream => do
    let result ← call stream (.appendWithStream remote)
    FtpFs.recordFtpResult result
    let result ← FtpFs.withTransfer result stream
    pure (.ok result)
  | removeFile path => withRemotePath path fun remote => FtpFs.command (.rm remote)
  | removeDir path => withRemotePath path fun remote => FtpFs.command (.rmdir remote)
  | createDir path => withRemotePath path fun remote => FtpFs.command (.mkdir remote)
  | rename src dest => withRemotePath src fun remoteSrc => withRemotePath dest fun remoteDest =>
    FtpFs.command (.rename remoteSrc remoteDest)

/-- The replies the classifier takes for a refusal. -/
def refuses : Refusable → FtpError → Bool
  | open' _ _ | removeFile _ | removeDir _ => isFileUnavailable
  | create _ | append _ | createDir _ | rename _ _ => isCreationRefusal

def classify (X : Ext) : Refusable → FtpError → Io RemoteError
  | open' path _, err | removeFile path, err => (FtpFs.client X).classifyFileRefusal path err
  | create path, err | append path, err => (FtpFs.client X).classifyCreateRefusal path err
  | removeDir path, err => (FtpFs.client X).classifyRemoveDirRefusal path err
  | createDir path, err => (FtpFs.client X).classifyCreateDirRefusal path err
  | rename src dest, err => (FtpFs.client X).classifyRenameRefusal src dest err

/-- How an operation meets a refusal: as the reply that decides it, or, in
`open` after a refused `RETR`, as the reply to the `REST 0` that resets the
marker. -/
inductive Meets (X : Ext) : (op : Refusable) → (reset : Bool) → List (Event ftp) → FtpError → Prop where
  | reply {op pre err} (h : (op.front X).Yields pre (.ok (.error err))) : Meets X op false pre err
  | reset {path opts pre err} (h : ((open' path opts).front X).Yields pre (.error (ftpError err))) :
    Meets X (open' path opts) true pre err

end Refusable

theorem withRemotePath_bind {path : Path} {k : Str → Io (RemoteResult α)}
    {back : RemoteResult α → Io (RemoteResult β)} (hb : ∀ e, back (.error e) = pure (.error e)) :
    withRemotePath path (fun remote => k remote >>= back) = withRemotePath path k >>= back := by
  unfold withRemotePath
  cases remotePath path with
  | error e => exact (hb e).symm
  | ok remote => rfl

namespace Refusable

/-- What an operation does with the reply that decides it. -/
def Reports (X : Ext) (op : Refusable) (back : RemoteResult (FtpResult op.Got) → Io (RemoteResult Unit)) : Prop :=
  op.run X = op.front X >>= back ∧ (∀ e, back (.error e) = pure (.error e)) ∧
    ∀ err, op.refuses err = true → back (.ok (.error err)) = do
      let e ← op.classify X err
      pure (.error e)

theorem mapRefusal_refused {classify : FtpError → Io RemoteError} {err : FtpError} :
    (FtpFs.mapRefusal (α := α) (.error err) classify >>= k) = classify err >>= fun e => k (.error e) :=
  bind_assoc ..

/-- An operation whose stream is left out of its result. -/
theorem reports_asUnit {X : Ext} {op : Refusable} {p : Io (RemoteResult α)}
    {back : RemoteResult (FtpResult op.Got) → Io (RemoteResult α)}
    (hrun : op.run X = p >>= fun r => pure (FtpFs.asUnit r)) (hp : p = op.front X >>= back)
    (he : ∀ e, back (.error e) = pure (.error e))
    (hr : ∀ err, back (.ok (.error err)) = op.classify X err >>= fun e => pure (.error e)) :
    ∃ back, op.Reports X back := by
  refine ⟨fun r => back r >>= fun r => pure (FtpFs.asUnit r), ?_, fun e => ?_, fun err _ => ?_⟩
  · rw [hrun, hp, bind_assoc]
  · dsimp only
    rw [he]
    rfl
  · dsimp only
    rw [hr, bind_assoc]
    rfl

theorem reports (X : Ext) (op : Refusable) : ∃ back, op.Reports X back := by
  cases op with
  | open' path opts =>
    exact reports_asUnit rfl (withRemotePath_bind fun e => rfl) (fun e => rfl) fun err => mapRefusal_refused
  | create path =>
    exact reports_asUnit rfl (withRemotePath_bind fun e => rfl) (fun e => rfl) fun err => mapRefusal_refused
  | append path =>
    exact reports_asUnit rfl (withRemotePath_bind fun e => rfl) (fun e => rfl) fun err => mapRefusal_refused
  | removeFile path =>
    exact ⟨_, withRemotePath_bind fun e => rfl, fun e => rfl, fun err _ => mapRefusal_refused⟩
  | removeDir path =>
    refine ⟨_, withRemotePath_bind fun e => rfl, fun e => rfl, fun err herr => mapRefusal_refused.trans ?_⟩
    -- a refusal needs no reconnect, so nothing is recorded the second time
    have hrec : FtpFs.recordFtpError err = pure () := by
      unfold FtpFs.recordFtpError
      rw [not_requiresReconnect_of_isCreationRefusal (isCreationRefusal_of_isFileUnavailable herr)]
      rfl
    rw [hrec]
    rfl
  | createDir path =>
    exact ⟨_, withRemotePath_bind fun e => rfl, fun e => rfl, fun err herr => if_pos herr⟩
  | rename src dest =>
    have h : FtpFs.rename X src dest = withRemotePath src fun remoteSrc =>
        (withRemotePath dest fun remoteDest => FtpFs.command (.rename remoteSrc remoteDest)) >>= _ :=
      congrArg (withRemotePath src) (funext fun remoteSrc => withRemotePath_bind fun e => rfl)
    exact ⟨_, h.trans (withRemotePath_bind fun e => rfl), fun e => rfl, fun err _ => mapRefusal_refused⟩

end Refusable

theorem yields_after {front : Io α} {back : α → Io β} {pre probe : List (Event ftp)} {a : α} {b : β}
    (hf : Prog.Yields (S := ftp) front pre a) (h : Prog.Yields (S := ftp) (front >>= back) (pre ++ probe) b) :
    Prog.Yields (S := ftp) (back a) probe b := by
  obtain ⟨pre', probe', a', heq, hf', hb⟩ := Prog.yields_bind.mp h
  obtain ⟨rfl, rfl⟩ := Prog.Yields.unique hf hf' heq
  rwa [List.append_cancel_left heq]

/-! ## What a probe found -/

/-- `stat` of `path`, answered from the start of `evs`, returned `r`, in `Q`
with the answers that are left. -/
def Probe (X : Ext) (path : Path) (Q : RemoteResult File → List (Event ftp) → Prop)
    (evs : List (Event ftp)) : Prop :=
  ∃ run rest r, evs = run ++ rest ∧ Prog.Yields (S := ftp) (FtpFs.stat X path) run r ∧ Q r rest

def Gone (r : RemoteResult File) : Prop := ∃ probe, r = .error probe ∧ missing probe = true
def IsDirectory (r : RemoteResult File) : Prop := ∃ file, r = .ok file ∧ file.isDir = true
def IsOther (r : RemoteResult File) : Prop := ∃ file, r = .ok file ∧ file.isDir = false

/-- `stat` of the parent found nothing. -/
def ParentGone (X : Ext) (path : Path) (evs : List (Event ftp)) : Prop :=
  ∃ parent, path.parent = some parent ∧ Probe X parent (fun r _ => Gone r) evs

/-- A listing of `path`, answered from the start of `evs`, had an entry. -/
def Holds (X : Ext) (path : Path) (evs : List (Event ftp)) : Prop :=
  ∃ run rest entries, evs = run ++ rest ∧
    Prog.Yields (S := ftp) (FtpFs.listDir X path) run (.ok entries) ∧ entries ≠ []

namespace Refusable

/-- What the probe must have found for an operation to report a kind. -/
def Grounds (X : Ext) : Refusable → RemoteErrorType → List (Event ftp) → Prop
  | open' path _, .noSuchFileOrDirectory | removeFile path, .noSuchFileOrDirectory
  | removeDir path, .noSuchFileOrDirectory => Probe X path fun r _ => Gone r
  | create path, .noSuchFileOrDirectory | append path, .noSuchFileOrDirectory
  | createDir path, .noSuchFileOrDirectory => Probe X path fun r rest => Gone r ∧ ParentGone X path rest
  | rename src dest, .noSuchFileOrDirectory => Probe X src fun r rest => Gone r ∨ ParentGone X dest rest
  | open' path _, .badFile | removeFile path, .badFile => Probe X path fun r _ => IsDirectory r
  | removeDir path, .badFile => Probe X path fun r _ => IsOther r
  | create path, .alreadyExists | append path, .alreadyExists => Probe X path fun r _ => IsDirectory r
  | createDir path, .alreadyExists => Probe X path fun r _ => IsDirectory r ∨ IsOther r
  | removeDir path, .directoryNotEmpty => Probe X path fun r rest => IsDirectory r ∧ Holds X path rest
  | _, .badFile | _, .alreadyExists | _, .directoryNotEmpty => fun _ => False
  | _, _ => fun _ => True

/-- The path that a report of a missing one is about. -/
def subject : Refusable → Option Path
  | open' path _ | removeFile path | create path | append path | removeDir path | createDir path => some path
  | rename _ _ => none

/-- A report rests on what the probe found, and calls nothing missing that the
probe found. -/
structure Evident (X : Ext) (op : Refusable) (kind : RemoteErrorType) (probe : List (Event ftp)) : Prop where
  grounds : op.Grounds X kind probe
  present : kind = .noSuchFileOrDirectory → ∀ path, op.subject = some path →
    ¬ Probe X path (fun r _ => IsDirectory r ∨ IsOther r) probe

/-- `open` and `remove_file`: the probe was made, and found a directory or
nothing. -/
def Settled (X : Ext) (reset : Bool) (probe : List (Event ftp)) : Refusable → Prop
  | open' path _ | removeFile path => reset = false ∧ Probe X path (fun r _ => Gone r ∨ IsDirectory r) probe
  | _ => True

end Refusable

variable {X : Ext} {path : Path} {err : FtpError} {e : RemoteError} {evs : List (Event ftp)}

theorem Probe.and {Q Q' : RemoteResult File → List (Event ftp) → Prop} (h : Probe X path Q evs)
    (h' : Probe X path Q' evs) : Probe X path (fun r rest => Q r rest ∧ Q' r rest) evs := by
  obtain ⟨run, rest, r, rfl, hy, hq⟩ := h
  obtain ⟨run', rest', r', he, hy', hq'⟩ := h'
  obtain ⟨rfl, rfl⟩ := hy.unique hy' he
  obtain rfl := List.append_cancel_left he
  exact ⟨run, rest, r, rfl, hy, hq, hq'⟩

/-- A classification starts with `stat` of the path. -/
theorem probe_bind {k : RemoteResult File → Io α} {a : α}
    (h : Prog.Yields (S := ftp) (FtpFs.stat X path >>= k) evs a) :
    Probe X path (fun r rest => Prog.Yields (S := ftp) (k r) rest a) evs := by
  obtain ⟨run, rest, r, rfl, hs, hk⟩ := Prog.yields_bind.mp h
  exact ⟨run, rest, r, rfl, hs, hk⟩

theorem Probe.mono {Q Q' : RemoteResult File → List (Event ftp) → Prop} (h : Probe X path Q evs)
    (hQ : ∀ r rest, Q r rest → Q' r rest) : Probe X path Q' evs := by
  obtain ⟨run, rest, r, he, hy, hq⟩ := h
  exact ⟨run, rest, r, he, hy, hQ r rest hq⟩

/-! ## The classifiers -/

/-- What `classify_file_refusal` reports. -/
theorem classifyFileRefusal_reports (herr : isFileUnavailable err = true)
    (h : Prog.Yields (S := ftp) ((FtpFs.client X).classifyFileRefusal path err) evs e) :
    Probe X path (fun r _ => IsDirectory r ∧ e.kind = .badFile ∨
      ¬ IsDirectory r ∧ e.kind = .noSuchFileOrDirectory) evs := by
  have hkind : ftpErrorKind err = .noSuchFileOrDirectory := ftpErrorKind_missing.mpr herr
  rw [Client.classifyFileRefusal, herr] at h
  refine (probe_bind h).mono fun r rest hr => ?_
  cases r with
  | ok file =>
    dsimp only at hr
    split at hr
    · rename_i hd
      obtain ⟨-, rfl⟩ := hr
      exact .inl ⟨⟨file, rfl, hd⟩, rfl⟩
    · rename_i hd
      obtain ⟨-, rfl⟩ := hr
      refine .inr ⟨?_, hkind⟩
      rintro ⟨file', hf, hd'⟩
      cases hf
      exact hd hd'
  | error probe =>
    dsimp only at hr
    have hnot : ¬ IsDirectory (.error probe) := by
      rintro ⟨file, hf, -⟩
      cases hf
    split at hr
    · obtain ⟨-, rfl⟩ := hr
      exact .inr ⟨hnot, rfl⟩
    · obtain ⟨-, rfl⟩ := hr
      exact .inr ⟨hnot, hkind⟩

theorem destinationParentIsMissing_true
    (h : Prog.Yields (S := ftp) ((FtpFs.client X).destinationParentIsMissing path) evs true) :
    ParentGone X path evs := by
  unfold Client.destinationParentIsMissing at h
  cases hp : path.parent with
  | none =>
    rw [hp] at h
    cases h.2
  | some parent =>
    rw [hp] at h
    refine ⟨parent, hp, (probe_bind h).mono fun r rest hr => ?_⟩
    cases r with
    | ok file => cases hr.2
    | error probe => exact ⟨probe, rfl, hr.2⟩

/-- `probe.kind() == NoSuchFileOrDirectory && destination_parent_is_missing(path)`. -/
theorem parent_checked {probe : RemoteError} {k : Bool → Io α} {a : α}
    (h : Prog.Yields (S := ftp)
      ((if missing probe then (FtpFs.client X).destinationParentIsMissing path else pure false) >>= k) evs a) :
    ∃ b rest, Prog.Yields (S := ftp) (k b) rest a ∧ (b = true → missing probe = true ∧ ParentGone X path evs) := by
  obtain ⟨run, rest, b, rfl, hb, hk⟩ := Prog.yields_bind.mp h
  refine ⟨b, rest, hk, ?_⟩
  rintro rfl
  split at hb
  · rename_i hm
    obtain ⟨parent, hp, run', rest', r, rfl, hr⟩ := destinationParentIsMissing_true hb
    exact ⟨hm, parent, hp, run', rest' ++ rest, r, List.append_assoc .., hr⟩
  · cases hb.2

theorem classifyCreateRefusal_grounds (herr : isCreationRefusal err = true)
    (h : Prog.Yields (S := ftp) ((FtpFs.client X).classifyCreateRefusal path err) evs e) :
    (Refusable.create path).Grounds X e.kind evs := by
  rw [Client.classifyCreateRefusal, herr] at h
  obtain ⟨run, rest, r, rfl, hs, hk⟩ := probe_bind h
  cases r with
  | ok file =>
    dsimp only at hk
    split at hk
    · rename_i hd
      obtain ⟨-, rfl⟩ := hk
      exact ⟨run, rest, _, rfl, hs, file, rfl, hd⟩
    · obtain ⟨-, rfl⟩ := hk
      trivial
  | error probe =>
    obtain ⟨b, rest', hb, hgone⟩ := parent_checked hk
    cases b with
    | true =>
      obtain ⟨-, rfl⟩ := hb
      obtain ⟨hm, hp⟩ := hgone rfl
      exact ⟨run, rest, _, rfl, hs, ⟨probe, rfl, hm⟩, hp⟩
    | false =>
      obtain ⟨-, rfl⟩ := hb
      trivial

theorem classifyCreateDirRefusal_grounds (herr : isCreationRefusal err = true)
    (h : Prog.Yields (S := ftp) ((FtpFs.client X).classifyCreateDirRefusal path err) evs e) :
    (Refusable.createDir path).Grounds X e.kind evs := by
  rw [Client.classifyCreateDirRefusal, herr] at h
  obtain ⟨run, rest, r, rfl, hs, hk⟩ := probe_bind h
  cases r with
  | ok file =>
    obtain ⟨-, rfl⟩ := hk
    refine ⟨run, rest, _, rfl, hs, ?_⟩
    cases hd : file.isDir with
    | true => exact .inl ⟨file, rfl, hd⟩
    | false => exact .inr ⟨file, rfl, hd⟩
  | error probe =>
    obtain ⟨b, rest', hb, hgone⟩ := parent_checked hk
    cases b with
    | true =>
      obtain ⟨-, rfl⟩ := hb
      obtain ⟨hm, hp⟩ := hgone rfl
      exact ⟨run, rest, _, rfl, hs, ⟨probe, rfl, hm⟩, hp⟩
    | false =>
      obtain ⟨-, rfl⟩ := hb
      trivial

theorem classifyRemoveDirRefusal_grounds (herr : isFileUnavailable err = true)
    (h : Prog.Yields (S := ftp) ((FtpFs.client X).classifyRemoveDirRefusal path err) evs e) :
    (Refusable.removeDir path).Grounds X e.kind evs := by
  rw [Client.classifyRemoveDirRefusal, herr] at h
  obtain ⟨run, rest, r, rfl, hs, hk⟩ := probe_bind h
  cases r with
  | ok file =>
    dsimp only at hk
    cases hd : file.isDir with
    | false =>
      rw [hd] at hk
      obtain ⟨-, rfl⟩ := hk
      exact ⟨run, rest, _, rfl, hs, file, rfl, hd⟩
    | true =>
      rw [hd] at hk
      obtain ⟨run', rest', listed, rfl, hl, hk⟩ := Prog.yields_bind.mp hk
      cases listed with
      | error probe =>
        obtain ⟨-, rfl⟩ := hk
        trivial
      | ok entries =>
        cases entries with
        | nil =>
          obtain ⟨-, rfl⟩ := hk
          trivial
        | cons entry entries =>
          obtain ⟨rfl, rfl⟩ := hk
          exact ⟨run, _, _, rfl, hs, ⟨file, rfl, hd⟩, run', [], _, rfl, hl, List.cons_ne_nil _ _⟩
  | error probe =>
    dsimp only at hk
    split at hk
    · rename_i hm
      obtain ⟨-, rfl⟩ := hk
      exact ⟨run, rest, _, rfl, hs, probe, rfl, hm⟩
    · obtain ⟨-, rfl⟩ := hk
      trivial

theorem classifyRenameRefusal_grounds {src dest : Path} (herr : isCreationRefusal err = true)
    (h : Prog.Yields (S := ftp) ((FtpFs.client X).classifyRenameRefusal src dest err) evs e) :
    (Refusable.rename src dest).Grounds X e.kind evs := by
  rw [Client.classifyRenameRefusal, herr] at h
  obtain ⟨run, rest, r, rfl, hs, hk⟩ := probe_bind h
  cases r with
  | error probe =>
    dsimp only at hk
    split at hk
    · rename_i hm
      obtain ⟨-, rfl⟩ := hk
      exact ⟨run, rest, _, rfl, hs, .inl ⟨probe, rfl, hm⟩⟩
    · obtain ⟨-, rfl⟩ := hk
      trivial
  | ok file =>
    obtain ⟨run', rest', b, rfl, hb, hk⟩ := Prog.yields_bind.mp hk
    cases b with
    | true =>
      obtain ⟨rfl, rfl⟩ := hk
      refine ⟨run, _, _, rfl, hs, .inr ?_⟩
      rw [List.append_nil]
      exact destinationParentIsMissing_true hb
    | false =>
      obtain ⟨-, rfl⟩ := hk
      trivial

/-! ## Refusals -/

theorem not_gone_of_found {r : RemoteResult File} (h : IsDirectory r ∨ IsOther r) : ¬ Gone r := by
  rintro ⟨probe, rfl, -⟩
  rcases h with ⟨file, hf, -⟩ | ⟨file, hf, -⟩ <;> cases hf

/-- What rests on the probe is not contradicted by it. -/
theorem Refusable.Grounds.evident {op : Refusable} {kind : RemoteErrorType}
    (h : op.Grounds X kind evs) : op.Evident X kind evs := by
  refine ⟨h, ?_⟩
  rintro rfl p hp hfound
  cases op with
  | open' path opts =>
    cases hp
    obtain ⟨_, _, _, _, _, hg, hf⟩ := Probe.and h hfound
    exact not_gone_of_found hf hg
  | removeFile path =>
    cases hp
    obtain ⟨_, _, _, _, _, hg, hf⟩ := Probe.and h hfound
    exact not_gone_of_found hf hg
  | removeDir path =>
    cases hp
    obtain ⟨_, _, _, _, _, hg, hf⟩ := Probe.and h hfound
    exact not_gone_of_found hf hg
  | create path =>
    cases hp
    obtain ⟨_, _, _, _, _, ⟨hg, -⟩, hf⟩ := Probe.and h hfound
    exact not_gone_of_found hf hg
  | append path =>
    cases hp
    obtain ⟨_, _, _, _, _, ⟨hg, -⟩, hf⟩ := Probe.and h hfound
    exact not_gone_of_found hf hg
  | createDir path =>
    cases hp
    obtain ⟨_, _, _, _, _, ⟨hg, -⟩, hf⟩ := Probe.and h hfound
    exact not_gone_of_found hf hg
  | rename src dest => cases hp

/-- A report made without a probe. -/
theorem not_gone_unasked : ¬ Probe X path (fun r _ => Gone r) [] := by
  rintro ⟨run, rest, r, he, hs, probe, rfl, hm⟩
  obtain ⟨rfl, rfl⟩ := List.append_eq_nil_iff.mp he.symm
  cases hp : remotePath path with
  | error e =>
    rw [FtpFs.stat, Client.stat, Client.statFuel, hp] at hs
    obtain ⟨-, he⟩ := hs
    cases he
    have hk := (of_decide_eq_true hm).symm.trans (remotePath_error hp)
    cases hk
  | ok remote =>
    have hlooked := Prog.Ensures.yields (FtpFs.stat_ensures X (accepted_iff.mp hp).1) hs
    obtain ⟨_, _, _, -, -, ⟨_, _, run, hrun, ⟨start, _, -, rfl⟩, -⟩, -⟩ :=
      hlooked.missing probe rfl (of_decide_eq_true hm)
    have hlen := hrun.length_le
    simp at hlen

namespace Refusable

/-- What a refused operation does next: it probes, unless the reset was refused. -/
theorem Meets.reported {op : Refusable} {reset : Bool} {pre probe : List (Event ftp)}
    (h : op.Meets X reset pre err) (herr : op.refuses err = true)
    (hrun : Prog.Yields (S := ftp) (op.run X) (pre ++ probe) (.error e)) :
    (reset = false ∧ Prog.Yields (S := ftp) (op.classify X err) probe e) ∨
      (reset = true ∧ (∃ path opts, op = .open' path opts) ∧ probe = [] ∧ e = ftpError err) := by
  obtain ⟨back, hq, hback, hclass⟩ := op.reports X
  rw [hq] at hrun
  cases h with
  | reply h =>
    have hy := yields_after h hrun
    rw [hclass err herr] at hy
    obtain ⟨run, rest, e', rfl, hc, hnil, he⟩ := Prog.yields_bind.mp hy
    cases he
    rw [hnil, List.append_nil]
    exact .inl ⟨rfl, hc⟩
  | reset h =>
    have hy := yields_after h hrun
    rw [hback] at hy
    obtain ⟨rfl, he⟩ := hy
    cases he
    exact .inr ⟨rfl, ⟨_, _, rfl⟩, rfl, rfl⟩

/-- The two operations on files. -/
theorem file_evident {op : Refusable} {probe : List (Event ftp)} {kind : RemoteErrorType}
    (hgone : op.Grounds X .noSuchFileOrDirectory = Probe X path fun r _ => Gone r)
    (hbad : op.Grounds X .badFile = Probe X path fun r _ => IsDirectory r)
    (h : Probe X path (fun r _ => IsDirectory r ∧ kind = .badFile ∨
      ¬ IsDirectory r ∧ kind = .noSuchFileOrDirectory) probe) :
    op.Evident X kind probe ↔ Probe X path (fun r _ => Gone r ∨ IsDirectory r) probe := by
  constructor
  · intro hev
    have hg := hev.grounds
    obtain ⟨_, _, _, _, _, ⟨-, rfl⟩ | ⟨-, rfl⟩⟩ := h
    · rw [hbad] at hg
      exact hg.mono fun r _ hd => .inr hd
    · rw [hgone] at hg
      exact hg.mono fun r _ hg => .inl hg
  · intro hs
    refine Grounds.evident ?_
    obtain ⟨run, rest, r, he, hy, hr, hf⟩ := h.and hs
    rcases hr with ⟨hd, rfl⟩ | ⟨hd, rfl⟩
    · rw [hbad]
      exact ⟨run, rest, r, he, hy, hd⟩
    · rw [hgone]
      exact ⟨run, rest, r, he, hy, hf.resolve_right hd⟩

end Refusable

/-- **Refusals are evident, of some operations.** When the server refuses an
operation, what the operation reports rests on what its probe found; but
`open` and `remove_file` take a `550` for a missing file when the probe does
not say, or finds a file, and `open` when it did not probe. -/
theorem refusal_evident (X : Ext) {op : Refusable} {reset : Bool} {pre probe : List (Event ftp)}
    {err : FtpError} {e : RemoteError} (h : op.Meets X reset pre err) (herr : op.refuses err = true)
    (hrun : Prog.Yields (S := ftp) (op.run X) (pre ++ probe) (.error e)) :
    op.Evident X e.kind probe ↔ op.Settled X reset probe := by
  have hreport := h.reported herr hrun
  cases op with
  | open' path opts =>
    rcases hreport with ⟨rfl, hc⟩ | ⟨rfl, -, rfl, rfl⟩
    · refine (Refusable.file_evident rfl rfl (classifyFileRefusal_reports herr hc)).trans ?_
      exact ⟨fun hs => ⟨rfl, hs⟩, fun hs => hs.2⟩
    · refine ⟨fun hev => ?_, fun hs => absurd hs.1 (by simp)⟩
      have hg := hev.grounds
      rw [kind_ftpError, ftpErrorKind_missing.mpr herr] at hg
      exact (not_gone_unasked hg).elim
  | removeFile path =>
    rcases hreport with ⟨rfl, hc⟩ | ⟨-, ⟨_, _, hop⟩, -⟩
    · refine (Refusable.file_evident rfl rfl (classifyFileRefusal_reports herr hc)).trans ?_
      exact ⟨fun hs => ⟨rfl, hs⟩, fun hs => hs.2⟩
    · cases hop
  | create path =>
    rcases hreport with ⟨-, hc⟩ | ⟨-, ⟨_, _, hop⟩, -⟩
    · exact iff_of_true (classifyCreateRefusal_grounds herr hc).evident trivial
    · cases hop
  | append path =>
    rcases hreport with ⟨-, hc⟩ | ⟨-, ⟨_, _, hop⟩, -⟩
    · have hsame : (Refusable.append path).Grounds X e.kind = (Refusable.create path).Grounds X e.kind := by
        cases e.kind <;> rfl
      have hg : (Refusable.append path).Grounds X e.kind probe := by
        rw [hsame]
        exact classifyCreateRefusal_grounds herr hc
      exact iff_of_true hg.evident trivial
    · cases hop
  | removeDir path =>
    rcases hreport with ⟨-, hc⟩ | ⟨-, ⟨_, _, hop⟩, -⟩
    · exact iff_of_true (classifyRemoveDirRefusal_grounds herr hc).evident trivial
    · cases hop
  | createDir path =>
    rcases hreport with ⟨-, hc⟩ | ⟨-, ⟨_, _, hop⟩, -⟩
    · exact iff_of_true (classifyCreateDirRefusal_grounds herr hc).evident trivial
    · cases hop
  | rename src dest =>
    rcases hreport with ⟨-, hc⟩ | ⟨-, ⟨_, _, hop⟩, -⟩
    · exact iff_of_true (classifyRenameRefusal_grounds herr hc).evident trivial
    · cases hop

/-- `550`. -/
def refusedReply : FtpError := .unexpectedResponse ⟨.fileUnavailable, []⟩

/-- The `DELE` of `path` that the server refuses. -/
def refusedRm (path : Path) : List (Event ftp) :=
  [⟨.lock, ()⟩, ⟨.loadActive, false⟩, ⟨.loadUsable, true⟩, ⟨.slot, some 0⟩, ⟨.send 0 (.rm path), ()⟩,
    ⟨.recv 0 (.rm path), .error refusedReply⟩, ⟨.unlock, ()⟩]

/-- The `LIST` of `path` that the server refuses. -/
def refusedList (path : Path) : List (Event ftp) :=
  [⟨.lock, ()⟩, ⟨.loadActive, false⟩, ⟨.loadUsable, true⟩, ⟨.take, some 0⟩, ⟨.storeActive true, ()⟩,
    ⟨.unlock, ()⟩, ⟨.exclusiveNew, ()⟩, ⟨.send 0 (FtpFs.listCommand path), ()⟩, ⟨.builder 0, false⟩,
    ⟨.recv 0 (FtpFs.listCommand path), .error refusedReply⟩, ⟨.lock, ()⟩, ⟨.put 0, ()⟩, ⟨.unlock, ()⟩,
    ⟨.exclusiveDrop, ()⟩]

/-- The listing of the root that shows the file. -/
def fileProbe : List (Event ftp) :=
  [⟨.lock, ()⟩, ⟨.loadActive, false⟩, ⟨.loadUsable, true⟩, ⟨.take, some 0⟩, ⟨.storeActive true, ()⟩,
    ⟨.unlock, ()⟩, ⟨.exclusiveNew, ()⟩, ⟨.send 0 (FtpFs.listCommand ['/']), ()⟩, ⟨.builder 0, false⟩,
    ⟨.recv 0 (FtpFs.listCommand ['/']), .ok ⟨.other 200, []⟩⟩, ⟨.readToEnd 0, .ok plainRow.bytes⟩,
    ⟨.finish 0, .ok ()⟩, ⟨.lock, ()⟩, ⟨.put 0, ()⟩, ⟨.unlock, ()⟩, ⟨.exclusiveDrop, ()⟩]

/-- The directory cannot be listed, and its parent does not show it. -/
def absentProbe : List (Event ftp) := refusedList "/d".toList ++ fileProbe

/-- Removing a file in a directory that is missing. -/
theorem refusal_evident_absent :
    (Refusable.removeFile "/d/b".toList).Meets rowExt false (refusedRm "/d/b".toList) refusedReply ∧
      Prog.Yields (S := ftp) ((Refusable.removeFile "/d/b".toList).run rowExt)
        (refusedRm "/d/b".toList ++ absentProbe) (.error (.withFtp .noSuchFileOrDirectory refusedReply)) ∧
      (Refusable.removeFile "/d/b".toList).Evident rowExt .noSuchFileOrDirectory absentProbe := by
  have hm : (Refusable.removeFile "/d/b".toList).Meets rowExt false (refusedRm "/d/b".toList) refusedReply := by
    refine .reply ?_
    repeat refine Prog.yields_cons ?_
    exact ⟨rfl, rfl⟩
  have hrun : Prog.Yields (S := ftp) ((Refusable.removeFile "/d/b".toList).run rowExt)
      (refusedRm "/d/b".toList ++ absentProbe) (.error (.withFtp .noSuchFileOrDirectory refusedReply)) := by
    repeat refine Prog.yields_cons ?_
    exact ⟨rfl, rfl⟩
  have hstat : Prog.Yields (S := ftp) (FtpFs.stat rowExt "/d/b".toList) absentProbe
      (.error (.withRemote .noSuchFileOrDirectory (ftpError refusedReply))) := by
    repeat refine Prog.yields_cons ?_
    exact ⟨rfl, rfl⟩
  refine ⟨hm, hrun, (refusal_evident rowExt hm rfl hrun).mpr ⟨rfl, absentProbe, [], _, rfl, hstat, .inl ?_⟩⟩
  exact ⟨_, rfl, rfl⟩

/-- Removing a file that the probe shows. -/
theorem found_file_reported_missing :
    (Refusable.removeFile "/a".toList).Meets rowExt false (refusedRm "/a".toList) refusedReply ∧
      Prog.Yields (S := ftp) ((Refusable.removeFile "/a".toList).run rowExt)
        (refusedRm "/a".toList ++ fileProbe) (.error (.withFtp .noSuchFileOrDirectory refusedReply)) ∧
      ¬ (Refusable.removeFile "/a".toList).Evident rowExt .noSuchFileOrDirectory fileProbe := by
  refine ⟨.reply ?_, ?_, fun hev => hev.present rfl _ rfl ?_⟩
  · repeat refine Prog.yields_cons ?_
    exact ⟨rfl, rfl⟩
  · repeat refine Prog.yields_cons ?_
    exact ⟨rfl, rfl⟩
  · have hstat : Prog.Yields (S := ftp) (FtpFs.stat rowExt "/a".toList) fileProbe
        (.ok (listedFile ['/'] (plainFile ['a'] false))) := by
      repeat refine Prog.yields_cons ?_
      exact ⟨rfl, rfl⟩
    exact ⟨fileProbe, [], _, rfl, hstat, .inr ⟨_, rfl, rfl⟩⟩

end RemotefsFtp.L3
