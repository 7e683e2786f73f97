import RemotefsFtp.L4Session.Entries
import RemotefsFtp.L4Session.Gate

/-!
# What refused commands are taken for (`src/client/sync.rs:418-532`, `893-1061`)

A server refuses every command but `LIST`, `REST` included, with one error, and
answers the `LIST` of the lookups that follow from a tree. The error the caller
gets depends on the tree alone: `Root.told` is what `stat` tells of a place, and
`diagnose` the kind that follows for each operation.

Results:
* `stat_told`: what `stat` tells, of any place.
* **`refusal_diagnosed`**: a refused operation of either client fails with the
  kind `diagnose` gives, and leaves the client at rest.
-/
namespace RemotefsFtp.L4

open L1 (Str Path)
open L2 L3
open Core (Prog Machine)

/-! ## What is told of a place -/

/-- A type, or the kind of an error. -/
abbrev Told := Except RemoteErrorType FileType

/-- Where a path leaves the tree at `item`, called `name`: `first` is not there,
and `deeper` names follow. -/
def outside (item : Tree) (name : Option Str) (first : Str) (deeper : Nat) : Told :=
  match item, deeper with
  | .dir _, _ => .error (if deeper ≤ 8 then .noSuchFileOrDirectory else .permissionDenied)
  | .file, 0 => .error .badFile
  | .link, 0 => if name = some first then .ok .symlink else .error .noSuchFileOrDirectory
  | _, _ => .error (if deeper ≤ 8 ∧ name ≠ some first then .noSuchFileOrDirectory else .permissionDenied)

namespace Root

variable (root : Root)

/-- The search for where a path leaves the tree. -/
def toldAbove (deeper : Nat) : Place → Told
  | [] => .ok .directory
  | first :: up =>
    match root.find up with
    | some item => outside item up.head? first deeper
    | none => toldAbove (deeper + 1) up

/-- What `stat` tells of a place. -/
def told (place : Place) : Told :=
  match root.find place with
  | some item => .ok item.fileType
  | none => root.toldAbove 0 place

/-- Whether what is above a place is told to be missing. -/
def parentMissing : Place → Bool
  | [] => false
  | _ :: up => root.told up = .error .noSuchFileOrDirectory

/-- Nothing is in the directory. -/
def isEmptyDir (place : Place) : Bool :=
  match root.find place with
  | some (.dir (_ :: _)) => false
  | _ => true

variable {root}

theorem told_found {place : Place} {item : Tree} (h : root.find place = some item) :
    root.told place = .ok item.fileType := by
  rw [told, h]

theorem toldAbove_below {up : Place} {item : Tree} (hup : root.find up = some item) {first : Str}
    (hc : item.child first = none) (below : Place) (n : Nat) :
    root.toldAbove n (below ++ first :: up) = outside item up.head? first (n + below.length) := by
  induction below generalizing n with
  | nil =>
    rw [List.nil_append, toldAbove, hup]
    rfl
  | cons name below ih =>
    have hfirst : root.find (first :: up) = none := by rw [Root.find, hup, Option.bind_some, hc]
    rw [List.cons_append, toldAbove, find_below hfirst below]
    dsimp only
    rw [ih, List.length_cons, Nat.add_right_comm, Nat.add_assoc]

theorem told_below {up : Place} {item : Tree} (hup : root.find up = some item) {first : Str}
    (hc : item.child first = none) (below : Place) :
    root.told (below ++ first :: up) = outside item up.head? first below.length := by
  have hfirst : root.find (first :: up) = none := by rw [Root.find, hup, Option.bind_some, hc]
  rw [told, find_below hfirst below]
  dsimp only
  rw [toldAbove_below hup hc, Nat.zero_add]

/-- Only a directory is told to be one. -/
theorem told_dir {place : Place} (h : root.told place = .ok .directory) :
    ∃ children, root.find place = some (.dir children) := by
  cases hfind : root.find place with
  | some item =>
    rw [told_found hfind] at h
    cases item with
    | dir children => exact ⟨children, rfl⟩
    | file => cases h
    | link => cases h
  | none =>
    obtain ⟨below, first, up, item, rfl, hup, hc⟩ := find_none hfind
    rw [told_below hup hc] at h
    unfold outside at h
    split at h
    · cases h
    · cases h
    · split at h <;> cases h
    · cases h

end Root

/-! ## On a view -/

/-- The only row that is listed has the item's name. -/
theorem only_row {f : FtpFile} {name first c : Str} {below : Place} (hname : f.name = name) :
    (below.length < 8 ∧ ([f].any fun f => f.name = first) = false) ↔
      ((c :: below).length ≤ 8 ∧ some name ≠ some first) := by
  subst hname
  simp only [List.any_cons, List.any_nil, Bool.or_false, decide_eq_false_iff_not, List.length_cons, ne_eq,
    Option.some.injEq, Nat.succ_le_iff]

section
variable {V : View} {root : Root} (hV : Seen V root) (hr : Refuses V root)
include hV hr

theorem stat_outside {up : Place} {item : Tree} (hup : root.find up = some item) {first : Str}
    (hc : item.child first = none) (below : Place) :
    ∃ r, V.stat (below ++ first :: up) true = (r, true) ∧
      (r.map Found.fileType).mapError RemoteError.kind = outside item up.head? first below.length := by
  have hfirst : root.find (first :: up) = none := by rw [Root.find, hup, Option.bind_some, hc]
  cases item with
  | dir children =>
    obtain ⟨e, he, hk⟩ := stat_absent hV hr hup hc below
    exact ⟨_, he, congrArg Except.error hk⟩
  | file =>
    cases up with
    | nil => cases hup
    | cons name up =>
      cases below with
      | nil => exact ⟨_, hV.stat_below_file hup first, rfl⟩
      | cons c below =>
        obtain ⟨f, hl, hname, -⟩ := hV.item hup (by decide)
        obtain ⟨e, he, hk⟩ := stat_below hr hl hfirst c below
        exact ⟨_, he, congrArg Except.error (hk.trans (if_congr (only_row hname) rfl rfl))⟩
  | link =>
    cases up with
    | nil => cases hup
    | cons name up =>
      obtain ⟨f, hl, hname, htype⟩ := hV.item hup (by decide)
      cases below with
      | nil =>
        have hone : isOneFile (some name) [f] = false := by simp [isOneFile, htype, Tree.fileType]
        refine ⟨findItem first [f], ?_, ?_⟩
        · rw [List.nil_append, View.stat, look_bind hl, List.head?_cons]
          dsimp only
          rw [hone]
          rfl
        · -- the only row is the link's own
          by_cases hfn : name = first
          · simp [findItem, outside, hname, hfn, htype, Tree.fileType, Found.fileType, Except.map, Except.mapError]
          · have hmissing : outside .link (some name) first 0 = .error .noSuchFileOrDirectory := if_neg (by simpa using hfn)
            rw [findItem_none (by simp [hname, hfn])]
            exact hmissing.symm
      | cons c below =>
        obtain ⟨e, he, hk⟩ := stat_below hr hl hfirst c below
        exact ⟨_, he, congrArg Except.error (hk.trans (if_congr (only_row hname) rfl rfl))⟩

/-- **What `stat` tells** of any place, on a view of a tree. -/
theorem stat_told (place : Place) : ∃ r, V.stat place true = (r, true) ∧
    (r.map Found.fileType).mapError RemoteError.kind = root.told place := by
  cases h : root.find place with
  | some item =>
    obtain ⟨found, hstat, htype, -⟩ := hV.stat_found h
    refine ⟨_, hstat, ?_⟩
    rw [Root.told_found h]
    exact congrArg Except.ok htype
  | none =>
    obtain ⟨below, first, up, item, rfl, hup, hc⟩ := find_none h
    rw [Root.told_below hup hc]
    exact stat_outside hV hr hup hc below

end

/-! ## On a client -/

/-- What a lookup tells. -/
def report (r : RemoteResult File) : Told := (r.map fun f => f.metadata.fileType).mapError RemoteError.kind

section
variable {W : Type} {M : Machine ftp W} {Ready : Bool → W → Prop} {C : Client} {V : View} {root : Root}

variable (M Ready) in
/-- From a usable connection `p` returns, in `Q`, and leaves it usable. -/
def Tells {α : Type} (p : Io α) (Q : α → Prop) : Prop :=
  Prog.Ends (S := ftp) M (Ready true) p fun a w => Q a ∧ Ready true w

theorem tells_pure {α : Type} {a : α} {Q : α → Prop} (h : Q a) : Tells M Ready (pure a) Q :=
  Prog.ends_ret fun _ hw => ⟨h, hw⟩

theorem Tells.seq {α β : Type} {p : Io α} {k : α → Io β} {Q : α → Prop} {R : β → Prop} (hp : Tells M Ready p Q)
    (hk : ∀ a, Q a → Tells M Ready (k a) R) : Tells M Ready (p >>= k) R := by
  refine Prog.Ends.bind hp fun a => ?_
  rintro w ⟨ha, hw⟩
  exact hk a ha w hw

variable (hs : Shows M Ready C V) (hV : Seen V root) (hr : Refuses V root) {path : Path} (hp : Accepted path)
include hs hV hr

section
include hp

theorem tells_stat : Tells M Ready (C.stat path) fun r => report r = root.told (placeOf path) := by
  intro w hw
  obtain ⟨a, w', he, ha, hw'⟩ := hs.stat hp true w hw
  obtain ⟨r, hstat, htold⟩ := stat_told hV hr (placeOf path)
  rw [hstat] at ha hw'
  refine ⟨a, w', he, ?_, hw'⟩
  rw [ha, ← htold]
  rcases r with e | found
  · rfl
  · cases found <;> rfl

theorem tells_parent : Tells M Ready (C.destinationParentIsMissing path)
    (· = root.parentMissing (placeOf path)) := by
  unfold Client.destinationParentIsMissing
  cases hpar : path.parent with
  | none =>
    rw [(placeOf_nil hp).mpr hpar]
    exact tells_pure rfl
  | some parent =>
    obtain ⟨name, hplace⟩ := placeOf_parent hp hpar
    rw [hplace]
    refine (tells_stat hs hV hr (hp.parent hpar).1).seq fun r htold => ?_
    rw [Root.parentMissing, ← htold]
    cases r with
    | ok file => exact tells_pure rfl
    | error e => exact tells_pure (decide_eq_decide.mpr ⟨congrArg Except.error, Except.error.inj⟩)

omit hr in
theorem tells_listDir {children : List (Name × Tree)} (h : root.find (placeOf path) = some (.dir children)) :
    Tells M Ready (C.listDir path) fun r => ∃ entries, r = .ok entries ∧ entries.isEmpty = children.isEmpty := by
  intro w hw
  obtain ⟨a, w', he, ha, hw'⟩ := hs.listDir hp true w hw
  obtain ⟨fs, hl, hfs⟩ := hV.listDir_dir h
  rw [hl] at ha hw'
  refine ⟨a, w', he, ⟨_, ha, ?_⟩, hw'⟩
  cases hfs <;> rfl

end

/-! ### Refusals -/

variable {err : FtpError}

variable (M Ready) in
/-- Of what `err` leaves of the connection, `p` makes an error of this kind. -/
def Classifies (err : FtpError) (p : Io RemoteError) (kind : RemoteErrorType) : Prop :=
  Prog.Ends (S := ftp) M (Ready (!transferSetupRequiresReconnect err)) p fun e w =>
    e.kind = kind ∧ Ready (!transferSetupRequiresReconnect err) w

omit hs hV hr in
/-- Only a refusal is looked into, and it leaves the connection usable. -/
theorem classifies_refusal {refusal : Bool} (hrefusal : refusal = true → isCreationRefusal err = true)
    {p : Io RemoteError} {kind : RemoteErrorType} (hp : refusal = true → Tells M Ready p fun e => e.kind = kind) :
    Classifies M Ready err (if (!refusal) = true then pure (ftpError err) else p)
      (if refusal then kind else ftpErrorKind err) := by
  cases refusal with
  | false => exact Prog.ends_ret fun _ hw => ⟨rfl, hw⟩
  | true =>
    have hu : transferSetupRequiresReconnect err = false := not_requiresReconnect_of_isCreationRefusal (hrefusal rfl)
    have hp := hp rfl
    unfold Tells at hp
    unfold Classifies
    rw [hu]
    exact hp

/-- A refused `DELE` or `RETR`. -/
def fileKind (err : FtpError) (told : Told) : RemoteErrorType :=
  if isFileUnavailable err then
    match told with
    | .ok type => if type = .directory then .badFile else .noSuchFileOrDirectory
    | .error _ => .noSuchFileOrDirectory
  else ftpErrorKind err

/-- A refused `STOR` or `APPE`. -/
def createKind (err : FtpError) (told : Told) (parentMissing : Bool) : RemoteErrorType :=
  if isCreationRefusal err then
    match told with
    | .ok type => if type = .directory then .alreadyExists else .permissionDenied
    | .error k => if k = .noSuchFileOrDirectory ∧ parentMissing = true then .noSuchFileOrDirectory else .permissionDenied
  else ftpErrorKind err

/-- A refused `RMD`. -/
def removeDirKind (err : FtpError) (told : Told) (isEmpty : Bool) : RemoteErrorType :=
  if isFileUnavailable err then
    match told with
    | .ok type => if type = .directory then (if isEmpty then .permissionDenied else .directoryNotEmpty) else .badFile
    | .error k => if k = .noSuchFileOrDirectory then .noSuchFileOrDirectory else .permissionDenied
  else ftpErrorKind err

/-- A refused `MKD`. -/
def createDirKind (err : FtpError) (told : Told) (parentMissing : Bool) : RemoteErrorType :=
  if isCreationRefusal err then
    match told with
    | .ok _ => .alreadyExists
    | .error k => if k = .noSuchFileOrDirectory ∧ parentMissing = true then .noSuchFileOrDirectory else .permissionDenied
  else ftpErrorKind err

/-- A refused `RNFR` or `RNTO`. -/
def renameKind (err : FtpError) (src : Told) (destParentMissing : Bool) : RemoteErrorType :=
  if isCreationRefusal err then
    match src with
    | .ok _ => if destParentMissing then .noSuchFileOrDirectory else .permissionDenied
    | .error k => if k = .noSuchFileOrDirectory then .noSuchFileOrDirectory else .permissionDenied
  else ftpErrorKind err

include hp

theorem classifies_file : Classifies M Ready err (C.classifyFileRefusal path err)
    (fileKind err (root.told (placeOf path))) := by
  refine classifies_refusal isCreationRefusal_of_isFileUnavailable fun hunavailable =>
    (tells_stat hs hV hr hp).seq fun r htold => ?_
  have hkind : (ftpError err).kind = .noSuchFileOrDirectory := ftpErrorKind_missing.mpr hunavailable
  rw [← htold]
  cases r with
  | ok file =>
    dsimp only
    split
    · rename_i hd
      exact tells_pure (if_pos (of_decide_eq_true hd)).symm
    · rename_i hd
      exact tells_pure (hkind.trans (if_neg fun h => hd (decide_eq_true h)).symm)
  | error probe =>
    dsimp only
    split
    · exact tells_pure rfl
    · exact tells_pure hkind

/-- The parent is looked up only for a path that is missing itself. -/
theorem tells_ancestor {probe : RemoteError} {e e' : RemoteError} : Tells M Ready (do
      if ← (if missing probe then C.destinationParentIsMissing path else pure false) then pure e else pure e')
    fun r => r.kind =
      if probe.kind = .noSuchFileOrDirectory ∧ root.parentMissing (placeOf path) = true then e.kind else e'.kind := by
  by_cases hmissing : probe.kind = .noSuchFileOrDirectory
  · have hm : missing probe = true := decide_eq_true hmissing
    rw [hm, if_pos rfl]
    refine (tells_parent hs hV hr hp).seq fun b hb => ?_
    subst hb
    cases hpar : root.parentMissing (placeOf path) with
    | true => exact tells_pure (if_pos ⟨hmissing, rfl⟩).symm
    | false => exact tells_pure (if_neg (by simp)).symm
  · have hm : missing probe = false := decide_eq_false hmissing
    rw [hm]
    exact tells_pure (if_neg fun h => hmissing h.1).symm

theorem classifies_create : Classifies M Ready err (C.classifyCreateRefusal path err)
    (createKind err (root.told (placeOf path)) (root.parentMissing (placeOf path))) := by
  refine classifies_refusal id fun _ => (tells_stat hs hV hr hp).seq fun r htold => ?_
  rw [← htold]
  cases r with
  | ok file =>
    dsimp only
    split
    · rename_i hd
      exact tells_pure (if_pos (of_decide_eq_true hd)).symm
    · rename_i hd
      exact tells_pure (if_neg fun h => hd (decide_eq_true h)).symm
  | error probe => exact tells_ancestor hs hV hr hp

theorem classifies_createDir : Classifies M Ready err (C.classifyCreateDirRefusal path err)
    (createDirKind err (root.told (placeOf path)) (root.parentMissing (placeOf path))) := by
  refine classifies_refusal id fun _ => (tells_stat hs hV hr hp).seq fun r htold => ?_
  rw [← htold]
  cases r with
  | ok file => exact tells_pure rfl
  | error probe => exact tells_ancestor hs hV hr hp

theorem classifies_removeDir : Classifies M Ready err (C.classifyRemoveDirRefusal path err)
    (removeDirKind err (root.told (placeOf path)) (root.isEmptyDir (placeOf path))) := by
  refine classifies_refusal isCreationRefusal_of_isFileUnavailable fun _ =>
    (tells_stat hs hV hr hp).seq fun r htold => ?_
  cases r with
  | ok file =>
    have hok : root.told (placeOf path) = .ok file.metadata.fileType := htold.symm
    rw [hok]
    dsimp only
    split
    · rename_i hd
      have hft : file.metadata.fileType ≠ .directory := by simpa [File.isDir] using hd
      exact tells_pure (if_neg hft).symm
    · rename_i hd
      have hft : file.metadata.fileType = .directory := by simpa [File.isDir] using hd
      rw [hft] at hok
      obtain ⟨children, hfind⟩ := Root.told_dir hok
      refine (tells_listDir hs hV hp hfind).seq fun r hlist => ?_
      obtain ⟨entries, rfl, hempty⟩ := hlist
      dsimp only
      rw [hempty, if_pos hft]
      cases children with
      | nil => exact tells_pure (if_pos (by rw [Root.isEmptyDir, hfind])).symm
      | cons child children => exact tells_pure (if_neg (by rw [Root.isEmptyDir, hfind]; simp)).symm
  | error probe =>
    rw [← htold]
    dsimp only
    split
    · rename_i hm
      exact tells_pure (if_pos (of_decide_eq_true hm)).symm
    · rename_i hm
      exact tells_pure (if_neg (of_decide_eq_false (Bool.eq_false_iff.mpr hm))).symm

theorem classifies_rename {dest : Path} (hdest : Accepted dest) : Classifies M Ready err
    (C.classifyRenameRefusal path dest err)
    (renameKind err (root.told (placeOf path)) (root.parentMissing (placeOf dest))) := by
  refine classifies_refusal id fun _ => (tells_stat hs hV hr hp).seq fun r htold => ?_
  rw [← htold]
  cases r with
  | ok file =>
    refine (tells_parent hs hV hr hdest).seq fun b hb => ?_
    subst hb
    cases root.parentMissing (placeOf dest) with
    | true => exact tells_pure rfl
    | false => exact tells_pure rfl
  | error probe =>
    dsimp only
    split
    · rename_i hm
      exact tells_pure (if_pos (of_decide_eq_true hm)).symm
    · rename_i hm
      exact tells_pure (if_neg (of_decide_eq_false (Bool.eq_false_iff.mpr hm))).symm

end

/-! ## The server -/

/-- Answers `LIST` like `fixed A`, and refuses every other command. -/
def refusing (A : Listings) (err : FtpError) : Server (List Str) where
  answer dir e :=
    match e with
    | .recv _ (.customDataCommand _) => (fixed A).answer dir e
    | .recv _ _ => ({ reply := .error err }, dir)
    | _ => (fixed A).answer dir e

/-- No reply but that to a `LIST`. -/
def LooksUp : Eff → Prop
  | .recv _ c => Listing c
  | _ => True

theorem looksUp_of_plain {mv xf look : Bool} {e : Eff} (he : Plain mv xf look Listing e) : LooksUp e := by
  cases e with
  | recv h c => exact he
  | _ => trivial

section
variable {A : Listings} {err : FtpError} {h : Conn} {hasBuilder : Bool}

/-- Lookups do not notice that commands are refused. -/
theorem eval_refusing {α : Type} {p : Io α} (hp : Does LooksUp p) (x : Session (List Str)) :
    Prog.eval (alone (refusing A err)) p x = Prog.eval (alone (fixed A)) p x := by
  refine Prog.eval_congr (fun w e he => ?_) hp x
  cases e with
  | recv h c =>
    obtain ⟨path, -, rfl⟩ := he
    rfl
  | _ => rfl

theorem refusing_shows (X : Ext) (A : Listings) (err : FtpError) (h : Conn) (hasBuilder : Bool) :
    Shows (alone (refusing A err)) (Idle h hasBuilder) (FtpFs.client X) (viewOf X.listParser hasBuilder A) := by
  have hC : DoesClient LooksUp (FtpFs.client X) := by
    have hC : DoesClient (Plain true true true Listing) (FtpFs.client X) := FtpFs.doesClient X fun _ hc => hc
    refine ⟨fun dir path hp => ?_, fun path => ?_⟩
    · exact Prog.always_mono (hC.listDirRaw dir path hp) fun _ => looksUp_of_plain
    · exact Prog.always_mono (hC.statRoot path) fun _ => looksUp_of_plain
  have hfixed := ftpFs_shows X A h hasBuilder
  refine ⟨fun {path} hp usable x hx => ?_, fun {path} hp usable x hx => ?_⟩
  · rw [eval_refusing (hC.listDirRaw path path (remotePath_ok hp))]
    exact hfixed.list hp usable x hx
  · rw [eval_refusing (hC.statRoot path)]
    exact hfixed.root hp usable x hx

/-! ### Refused calls -/

variable {f : Frame} {dir : List Str} {usable : Bool}

/-- A `suppaftp` call but `LIST`. -/
def Plainly (c : Command) : Prop := ∀ line, c ≠ .customDataCommand line

theorem plainly_put (remote : Str) : Plainly (.putWithStream remote) := fun _ h => nomatch h

theorem plainly_append (remote : Str) : Plainly (.appendWithStream remote) := fun _ h => nomatch h

theorem refusing_send {c : Command} (hc : Plainly c) : ((refusing A err).answer dir (.send h c)).2 = dir := by
  cases c with
  | customDataCommand line => exact absurd rfl (hc line)
  | _ => rfl

theorem refusing_recv {c : Command} (hc : Plainly c) :
    (refusing A err).answer dir (.recv h c) = ({ reply := .error err }, dir) := by
  cases c with
  | customDataCommand line => exact absurd rfl (hc line)
  | _ => rfl

/-- A call that is refused; its data connection is open by then. -/
theorem refused_call (hA : (A dir).builderFails = false) {c : Command} (hc : Plainly c) :
    Steps (refusing A err) h hasBuilder f dir usable (call h c) (.error err) dir usable := by
  have hsend : Steps (refusing A err) h hasBuilder f dir usable (step (.send h c)) ()
      ((refusing A err).answer dir (.send h c)).2 usable := steps_send c
  rw [refusing_send hc] at hsend
  have hrecv : Steps (refusing A err) h hasBuilder f dir usable (step (.recv h c))
      ((refusing A err).answer dir (.recv h c)).1.reply ((refusing A err).answer dir (.recv h c)).2 usable := steps_recv c
  rw [refusing_recv hc] at hrecv
  have hbuilder : Steps (refusing A err) h hasBuilder f dir usable (step (.builder h))
      (hasBuilder && (A dir).oracle.builderFails) dir usable := steps_builder
  rw [ListAnswer.oracle_builderFails, hA, Bool.and_false] at hbuilder
  refine Steps.seq hsend ?_
  split
  · exact Steps.seq hbuilder hrecv
  · exact hrecv

theorem refused_recordFtpResult {α : Type} : Steps (refusing A err) h hasBuilder f dir true
    (FtpFs.recordFtpResult (.error err : FtpResult α)) () dir (!transferSetupRequiresReconnect err) := by
  show Steps (refusing A err) h hasBuilder f dir true (FtpFs.recordFtpError err) () dir _
  unfold FtpFs.recordFtpError
  cases transferSetupRequiresReconnect err with
  | true => exact steps_mark
  | false => exact steps_pure ()

/-! ### Refused operations -/

theorem ends_unlock {α : Type} (hslot : f.slot = some h) (hactive : f.active = false) (a : α) :
    Prog.Ends (S := ftp) (alone (refusing A err)) (OnLine h hasBuilder { f with locked := true } dir usable)
      (do FtpFs.unlock; pure a) fun r y => r = a ∧ Idle h hasBuilder usable y := by
  rintro ⟨g, l⟩ ⟨rfl, rfl, rfl, rfl⟩
  exact ⟨_, _, rfl, rfl, hslot, rfl, hactive, rfl, rfl⟩

/-- A section that ends on the line ends at rest. -/
theorem ends_withStream {α : Type} {p : Conn → Io (RemoteResult α)} {a : RemoteResult α} {u : Bool}
    (hp : ∀ f dir, Steps (refusing A err) h hasBuilder f dir true (p h) a dir u)
    (ha : ∀ f dir, Steps (refusing A err) h hasBuilder f dir u (FtpFs.recordRemoteResult a) () dir usable) :
    Prog.Ends (S := ftp) (alone (refusing A err)) (Idle h hasBuilder true) (FtpFs.withStream p)
      fun r y => r = a ∧ Idle h hasBuilder usable y := by
  intro x hx
  have hg : gate x.toFrame x.usable = .ok h := hx.gate
  rw [← bind_pure (FtpFs.withStream p), eval_withStream_ok x.toLine hx.free hg]
  have hline : OnLine h hasBuilder { x.toFrame with locked := true } x.srv true
      ⟨{ x.toFrame with locked := true }, x.toLine⟩ := ⟨rfl, rfl, hx.builder, hx.usable⟩
  refine Prog.Ends.bind (hp _ _) (fun r => ?_) _ hline
  rintro y ⟨rfl, hy⟩
  refine Prog.Ends.bind (ha _ _) (fun _ => ?_) _ hy
  rintro z ⟨-, hz⟩
  exact ends_unlock hx.slot hx.active r z hz

variable (A err h hasBuilder) in
/-- From rest `p` is refused, with this kind, and leaves the client at rest. -/
def Fails {α : Type} (p : Io (RemoteResult α)) (kind : RemoteErrorType) : Prop :=
  Prog.Ends (S := ftp) (alone (refusing A err)) (Idle h hasBuilder true) p fun r y =>
    (∃ e, r = .error e ∧ e.kind = kind) ∧ Idle h hasBuilder (!transferSetupRequiresReconnect err) y

/-- A refused section, and what follows from it. -/
theorem fails_section {α β : Type} {p : Io (RemoteResult (FtpResult α))} {kind : RemoteErrorType}
    {k : RemoteResult (FtpResult α) → Io (RemoteResult β)} {classify : Io RemoteError}
    (hp : Prog.Ends (S := ftp) (alone (refusing A err)) (Idle h hasBuilder true) p fun r y =>
      r = .ok (.error err) ∧ Idle h hasBuilder (!transferSetupRequiresReconnect err) y)
    (hclassify : Classifies (alone (refusing A err)) (Idle h hasBuilder) err classify kind)
    (hk : k (.ok (.error err)) = classify >>= fun e => pure (.error e)) :
    Fails A err h hasBuilder (p >>= k) kind := by
  refine Prog.Ends.bind hp fun r => ?_
  rintro y ⟨rfl, hy⟩
  rw [hk]
  refine Prog.Ends.bind hclassify (fun e => ?_) y hy
  rintro z ⟨he, hz⟩
  exact ⟨_, z, rfl, ⟨e, rfl, he⟩, hz⟩

theorem ends_command (hA : ∀ dir, (A dir).builderFails = false) {c : Command} (hc : Plainly c) :
    Prog.Ends (S := ftp) (alone (refusing A err)) (Idle h hasBuilder true) (FtpFs.command c) fun r y =>
      r = .ok (.error err) ∧ Idle h hasBuilder (!transferSetupRequiresReconnect err) y :=
  ends_withStream (fun _ dir => Steps.seq (refused_call (hA dir) hc) (Steps.seq refused_recordFtpResult (steps_pure _)))
    fun _ _ => steps_pure ()

theorem refused_retrieve (hA : (A dir).builderFails = false) (remote : Str) :
    Steps (refusing A err) h hasBuilder f dir true (retrieve h remote false) (.ok (.error err)) dir
      (!transferSetupRequiresReconnect err) :=
  Steps.seq (refused_call hA fun _ hc => nomatch hc) (Steps.seq refused_recordFtpResult (steps_pure _))

theorem restAnswer_refused : restAnswer (.error err) =
    if transferSetupRequiresReconnect err then .error (ftpError err) else .ok false := by
  cases err with
  | unexpectedResponse response =>
    by_cases hs : response.status = .notAvailable
    · simp [restAnswer, transferSetupRequiresReconnect, hs]
    · simp [restAnswer, transferSetupRequiresReconnect, hs]
  | _ => rfl

/-- A refused download: the refusal of `REST` ends it if the connection is lost. -/
theorem ends_openTransfer (X : Ext) (hA : ∀ dir, (A dir).builderFails = false) (remote : Str) (offset : Nat) :
    ∃ r, (r = .ok (.error err) ∨ r = .error (ftpError err) ∧ transferSetupRequiresReconnect err = true) ∧
      Prog.Ends (S := ftp) (alone (refusing A err)) (Idle h hasBuilder true)
        (FtpFs.withStream fun stream => FtpFs.openTransfer X stream remote offset)
        fun r' y => r' = r ∧ Idle h hasBuilder (!transferSetupRequiresReconnect err) y := by
  by_cases ho : 0 < offset ∧ offset ≤ X.usizeMax
  · have hask (f : Frame) (dir : List Str) : Steps (refusing A err) h hasBuilder f dir true
        (if 0 < offset then requestOffset X call h offset else pure (.ok false)) (restAnswer (.error err)) dir true := by
      rw [if_pos ho.1, requestOffset_eq X h ho.2]
      exact Steps.seq (refused_call (hA dir) fun _ hc => nomatch hc) (steps_pure _)
    rw [restAnswer_refused] at hask
    cases hreq : transferSetupRequiresReconnect err with
    | true =>
      rw [hreq] at hask
      refine ⟨.error (ftpError err), .inr ⟨rfl, rfl⟩, ends_withStream (fun f dir => Steps.seq (hask f dir) (steps_pure _))
        fun f dir => ?_⟩
      have hrecord : Steps (refusing A err) h hasBuilder f dir true
          (FtpFs.recordFtpResult (.error err : FtpResult Unit)) () dir (!transferSetupRequiresReconnect err) :=
        refused_recordFtpResult
      rw [hreq] at hrecord
      exact hrecord
    | false =>
      rw [hreq] at hask
      refine ⟨.ok (.error err), .inl rfl, ends_withStream (fun f dir => Steps.seq (hask f dir) ?_) fun _ _ => steps_pure ()⟩
      have hretrieve : Steps (refusing A err) h hasBuilder f dir true (retrieve h remote false) (.ok (.error err)) dir
          (!transferSetupRequiresReconnect err) := refused_retrieve (hA dir) remote
      rw [hreq] at hretrieve
      exact hretrieve
  · refine ⟨.ok (.error err), .inl rfl, ends_withStream (fun f dir => ?_) fun _ _ => steps_pure ()⟩
    rw [openTransfer_eq, requestNone X h ho]
    exact refused_retrieve (hA dir) remote

/-- A failure that is recorded once more changes nothing. -/
theorem classifies_recorded {p : Io RemoteError} {kind : RemoteErrorType}
    (hclassify : Classifies (alone (refusing A err)) (Idle h hasBuilder) err p kind) :
    Classifies (alone (refusing A err)) (Idle h hasBuilder) err (FtpFs.recordFtpError err >>= fun _ => p) kind := by
  unfold FtpFs.recordFtpError
  split
  · rename_i hreq
    intro x hx
    have hu : x.usable = false := by rw [hx.usable, hreq]; rfl
    rw [eval_remark (f := x.toFrame) (l := x.toLine) hu]
    exact hclassify x hx
  · exact hclassify

theorem fileKind_lost (hreq : transferSetupRequiresReconnect err = true) (told : Told) :
    fileKind err told = ftpErrorKind err := by
  have hno : ¬ isFileUnavailable err = true := fun hunavailable => by
    rw [not_requiresReconnect_of_isCreationRefusal (isCreationRefusal_of_isFileUnavailable hunavailable)] at hreq
    cases hreq
  exact if_neg hno

section
variable {X : Ext} {root : Root} (hA : Serves X.listParser Unavailable root A) {path : Path} (hp : Accepted path)
include hA

/-- No answer of the tree's server fails in the stream builder. -/
theorem serves_builder (dir : List Str) : (A dir).builderFails = false := by
  have hlists {items : List (Name × Tree)} {a : ListAnswer} (ha : Lists X.listParser items a) :
      a.builderFails = false := by
    obtain ⟨rows, fs, rfl, -, -⟩ := ha
    rfl
  have hdir : dir.reverse.reverse = dir := List.reverse_reverse dir
  rw [← hdir]
  cases hfind : root.find dir.reverse with
  | none =>
    obtain ⟨body, hbody⟩ := hA.absent hfind
    rw [hbody]
    rfl
  | some item =>
    by_cases hd : item.fileType = .directory
    · cases item with
      | dir children => exact hlists (hA.dir hfind)
      | file => cases hd
      | link => cases hd
    · cases hplace : dir.reverse with
      | nil =>
        rw [hplace] at hfind
        cases hfind
        exact absurd rfl hd
      | cons name up =>
        rw [hplace] at hfind
        obtain ⟨-, -, n, rfl⟩ := find_name hfind
        exact hlists (hA.item hfind hd)

include hp

/-! The five families of operations, each with its classification. -/

theorem fails_createDir : Fails A err h hasBuilder (FtpFs.createDir X path)
    (createDirKind err (root.told (placeOf path)) (root.parentMissing (placeOf path))) := by
  unfold FtpFs.createDir
  rw [withRemotePath_accepted hp]
  refine fails_section (ends_command (serves_builder hA) (fun _ hc => nomatch hc))
    (classifies_createDir (refusing_shows X A err h hasBuilder) (hA.seen hasBuilder) (hA.refuses hasBuilder) hp) ?_
  dsimp only
  split
  · rfl
  · rename_i hrefusal
    rw [Client.classifyCreateDirRefusal, Bool.eq_false_iff.mpr hrefusal]
    rfl

theorem fails_removeFile : Fails A err h hasBuilder (FtpFs.removeFile X path)
    (fileKind err (root.told (placeOf path))) := by
  unfold FtpFs.removeFile
  rw [withRemotePath_accepted hp]
  refine fails_section (ends_command (serves_builder hA) (fun _ hc => nomatch hc))
    (classifies_file (refusing_shows X A err h hasBuilder) (hA.seen hasBuilder) (hA.refuses hasBuilder) hp) ?_
  simp only [FtpFs.mapRefusal, bind_assoc, pure_bind]
  rfl

theorem fails_removeDir : Fails A err h hasBuilder (FtpFs.removeDir X path)
    (removeDirKind err (root.told (placeOf path)) (root.isEmptyDir (placeOf path))) := by
  unfold FtpFs.removeDir
  rw [withRemotePath_accepted hp]
  refine fails_section (ends_command (serves_builder hA) (fun _ hc => nomatch hc)) (classifies_recorded
    (classifies_removeDir (refusing_shows X A err h hasBuilder) (hA.seen hasBuilder) (hA.refuses hasBuilder) hp)) ?_
  simp only [FtpFs.mapRefusal, bind_assoc, pure_bind]
  rfl

theorem fails_rename {dest : Path} (hdest : Accepted dest) : Fails A err h hasBuilder (FtpFs.rename X path dest)
    (renameKind err (root.told (placeOf path)) (root.parentMissing (placeOf dest))) := by
  unfold FtpFs.rename
  rw [withRemotePath_accepted hp, withRemotePath_accepted hdest]
  refine fails_section (ends_command (serves_builder hA) (fun _ hc => nomatch hc))
    (classifies_rename (refusing_shows X A err h hasBuilder) (hA.seen hasBuilder) (hA.refuses hasBuilder) hp hdest) ?_
  simp only [FtpFs.mapRefusal, bind_assoc, pure_bind]
  rfl

theorem fails_upload {c : Str → Command} (hc : ∀ remote, Plainly (c remote)) :
    Fails A err h hasBuilder (FtpFs.upload X c path)
      (createKind err (root.told (placeOf path)) (root.parentMissing (placeOf path))) := by
  unfold FtpFs.upload
  rw [withRemotePath_accepted hp]
  refine fails_section (ends_withStream (fun _ dir => Steps.seq (refused_call (serves_builder hA dir) (hc path))
      (Steps.seq refused_recordFtpResult (steps_pure _))) fun _ _ => steps_pure ())
    (classifies_create (refusing_shows X A err h hasBuilder) (hA.seen hasBuilder) (hA.refuses hasBuilder) hp) ?_
  simp only [FtpFs.mapRefusal, bind_assoc, pure_bind]

theorem fails_open (opts : ReadOptions) : Fails A err h hasBuilder (FtpFs.open' X path opts)
    (fileKind err (root.told (placeOf path))) := by
  unfold FtpFs.open'
  rw [withRemotePath_accepted hp]
  obtain ⟨r, hr, hends⟩ := ends_openTransfer (A := A) (h := h) X (serves_builder hA) path (opts.offset.getD 0)
  rcases hr with rfl | ⟨rfl, hreq⟩
  · refine fails_section hends
      (classifies_file (refusing_shows X A err h hasBuilder) (hA.seen hasBuilder) (hA.refuses hasBuilder) hp) ?_
    simp only [FtpFs.mapRefusal, bind_assoc, pure_bind]
  · refine Prog.Ends.bind hends fun r => ?_
    rintro y ⟨rfl, hy⟩
    exact ⟨_, y, rfl, ⟨_, rfl, (fileKind_lost hreq _).symm⟩, hy⟩

end

end

/-! ## Every operation -/

/-- The kind of the error of a refused operation. -/
def diagnose (root : Root) (err : FtpError) : Op → Option RemoteErrorType
  | .createDir path => some (createDirKind err (root.told (placeOf path)) (root.parentMissing (placeOf path)))
  | .removeFile path | .open' path _ => some (fileKind err (root.told (placeOf path)))
  | .removeDir path => some (removeDirKind err (root.told (placeOf path)) (root.isEmptyDir (placeOf path)))
  | .rename src dest => some (renameKind err (root.told (placeOf src)) (root.parentMissing (placeOf dest)))
  | .create path | .append path =>
    some (createKind err (root.told (placeOf path)) (root.parentMissing (placeOf path)))
  | _ => none

section
variable {X : Ext} {root : Root} {A : Listings} {err : FtpError} {conn : Conn} {hasBuilder : Bool}
  {x : Session (List Str)} {op : Op} {c : Command} {kind : RemoteErrorType}

theorem Fails.reply {α : Type} {p : Io (RemoteResult α)} (hp : Fails A err conn hasBuilder p kind)
    {f : RemoteResult α → Reply} (hf : ∀ e, (f (.error e)).failure = some e.kind) :
    Prog.Ends (S := ftp) (alone (refusing A err)) (Idle conn hasBuilder true) (p >>= fun a => pure (f a))
      fun r y => r.failure = some kind ∧ Idle conn hasBuilder (!transferSetupRequiresReconnect err) y := by
  refine Prog.Ends.bind hp fun r => ?_
  rintro y ⟨⟨e, rfl, he⟩, hy⟩
  exact ⟨_, y, rfl, by rw [hf, he], hy⟩

theorem sync_diagnosed (hA : Serves X.listParser Unavailable root A) (hop : Leads X op c)
    (hkind : diagnose root err op = some kind) :
    Prog.Ends (S := ftp) (alone (refusing A err)) (Idle conn hasBuilder true) (syncReply X op)
      fun r y => r.failure = some kind ∧ Idle conn hasBuilder (!transferSetupRequiresReconnect err) y := by
  cases op with
  | createDir path => cases hkind; exact (fails_createDir hA hop.1).reply fun _ => rfl
  | removeFile path => cases hkind; exact (fails_removeFile hA hop.1).reply fun _ => rfl
  | removeDir path => cases hkind; exact (fails_removeDir hA hop.1).reply fun _ => rfl
  | rename src dest => cases hkind; exact (fails_rename hA hop.1 hop.2.1).reply fun _ => rfl
  | open' path opts => cases hkind; exact (fails_open hA hop.1 opts).reply fun _ => rfl
  | create path => cases hkind; exact (fails_upload hA hop.1 plainly_put).reply fun _ => rfl
  | append path => cases hkind; exact (fails_upload hA hop.1 plainly_append).reply fun _ => rfl
  | _ => cases hkind

/-- The operations of a client that is connected, usable and at rest. -/
inductive Answering (X : Ext) (h : Conn) (hasBuilder : Bool) (x : Session (List Str)) : (Op → Io Reply) → Prop where
  | blocking : Idle h hasBuilder true x → Answering X h hasBuilder x (syncReply X)
  | tokio : IdleTokio h hasBuilder true x → Answering X h hasBuilder x (tokioReply X)

/-- **Refusals are diagnosed.** On a readable server for a tree that refuses
every command but `LIST` with one error, an operation of either client fails
with the kind that the tree determines, and leaves the client at rest, its
connection usable unless the refusal lost it. -/
theorem refusal_diagnosed {reply : Op → Io Reply} (hA : Serves X.listParser Unavailable root A) (hop : Leads X op c)
    (hkind : diagnose root err op = some kind) (hx : Answering X conn hasBuilder x reply) :
    ∃ r y, Prog.eval (alone (refusing A err)) (reply op) x = some (r, y) ∧ r.failure = some kind ∧
      Idle conn hasBuilder (!transferSetupRequiresReconnect err) y := by
  cases hx with
  | blocking hx => exact sync_diagnosed hA hop hkind x hx
  | tokio hx =>
    have hrest : Rest x.toFrame x.toFrame := ⟨hx.free, hx.free, rfl, rfl, by rw [hx.connected, hx.slot]; rfl⟩
    obtain ⟨r, y, he, hr, hy⟩ := sync_diagnosed hA hop hkind x hx.toIdle
    obtain ⟨b, v, v', hv, hv', hover⟩ := sim_reply X op (leads_compared hop) x x ⟨rfl, hrest⟩
    rw [he] at hv
    cases hv
    refine ⟨r, v', hv', hr, hover.frames.slot.symm.trans hy.slot, hover.frames.free',
      hover.frames.active.symm.trans hy.active, ?_, ?_⟩
    · rw [← hover.line]
      exact hy.usable
    · rw [← hover.line]
      exact hy.builder

end

/-- A `550` with an empty text. -/
def plainRefusal : FtpError := .unexpectedResponse ⟨.fileUnavailable, []⟩

/-- `/a` is a regular file: it is no directory to remove. -/
theorem refusal_diagnosed_file : ∃ r y, Prog.eval (alone (refusing (oneRow fileRow) plainRefusal))
      (syncReply rowExt (.removeDir "/a".toList)) atRest = some (r, y) ∧ r.failure = some .badFile ∧
    Idle 0 false true y := by
  have hlead : Leads rowExt (.removeDir "/a".toList) (.rmdir "/a".toList) :=
    ⟨(accepted_iff.mp (rfl : remotePath "/a".toList = .ok "/a".toList)).1, rfl⟩
  have hkind : diagnose (oneItem .file) plainRefusal (.removeDir "/a".toList) = some .badFile := rfl
  have hidle : Idle 0 false true atRest := ⟨rfl, rfl, rfl, rfl, rfl⟩
  exact refusal_diagnosed file_serves hlead hkind (.blocking hidle)

end RemotefsFtp.L4
