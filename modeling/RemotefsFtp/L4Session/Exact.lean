import RemotefsFtp.L4Session.Tree

/-!
# What lookups tell about a tree (`src/client/sync.rs:471-487, 784-886`)

Both clients, connected and at rest, on a readable server for a tree.

Results:
* **`existing_path_exact`**: what is there is found, with its type and its
  children.
* **`absent_path_missing`**: what is not there is missing, if a directory that
  is there is near enough; further away it is forbidden.
* **`beneath_file_iff`**: below a regular file the name of the file decides.
* **`fabricated_iff`**: a link passes for a directory that holds itself.
-/
namespace RemotefsFtp.L4

open L1 (Str Path)
open L2 L3
open Core (Prog)

section
variable {X : Ext} {root : Root} {A : Listings} {path : Path} {remote : Str} {conn : Conn} {hasBuilder : Bool}
  {x : Session (List Str)} {C : Client}

/-! ## Existing paths -/

theorem exists_found {V : View} {place : Place} {found : Found} (h : V.stat place true = (.ok found, true)) :
    V.exists' place true = (.ok true, true) := by
  rw [View.exists', look_bind h]
  rfl

/-- The entry of what was found at a path has that path. -/
theorem found_entry (hp : Accepted path) {item : Tree} (hi : root.find (placeOf path) = some item) {found : Found}
    (hname : ∀ f, found = .item f → (placeOf path).head? = some f.name) :
    (found.entry path).path.same path = true ∧ (found.entry path).metadata.fileType = found.fileType := by
  cases found with
  | root => exact ⟨Path.same_iff.mpr rfl, rfl⟩
  | item f =>
    refine ⟨?_, rfl⟩
    have hhead := hname f rfl
    cases hpar : path.parent with
    | none =>
      rw [(placeOf_nil hp).mpr hpar] at hhead
      cases hhead
    | some parent =>
      obtain ⟨name, hplace⟩ := placeOf_parent hp hpar
      rw [hplace] at hhead hi
      obtain ⟨-, -, n, rfl⟩ := find_name hi
      have hf : n.text = f.name := Option.some.inj hhead
      show (listedFile (path.parent.getD ['/']) f).path.same path = true
      rw [hpar, Option.getD_some, listedFile_same (hp.parent hpar).1 (hf ▸ n.valid) hp hplace, hf, decide_eq_true rfl]

/-- What a client tells about an item that is there. -/
structure Exact (A : Listings) (x : Session (List Str)) (C : Client) (path : Path) (item : Tree) : Prop where
  stat : Gives A x (C.stat path) fun r => ∃ entry, r = .ok entry ∧
    entry.path.same path = true ∧ entry.metadata.fileType = item.fileType
  exists' : Gives A x (C.exists' path) fun r => r = .ok true
  children : ∀ children, item = .dir children → Gives A x (C.listDir path) fun r => ∃ entries, r = .ok entries ∧
    List.Forall₂ (fun entry child => entry.path = path.join child.1.text ∧
      entry.metadata.fileType = child.2.fileType) entries children
  file : item = .file → Gives A x (C.listDir path) fun r => ∃ e, r = .error e ∧ e.kind = .badFile

/-- **Existing paths are exact.** What is there is found at its path and with
its type; a directory lists its children in the order of the server, and a
regular file is no directory. -/
theorem existing_path_exact (hA : Serves X.listParser Unavailable root A) (h : remotePath path = .ok remote)
    {item : Tree} (hi : root.find (placeOf path) = some item) (hC : Resting X conn hasBuilder x C) :
    Exact A x C path item := by
  have hp := (accepted_iff.mp h).1
  have hV := hA.seen hasBuilder
  obtain ⟨found, hstat, htype, hname⟩ := hV.stat_found hi
  refine ⟨?_, ?_, ?_, ?_⟩
  · refine (hC.stat A hp).of_eq.mpr ?_
    obtain ⟨hsame, hft⟩ := found_entry hp hi hname
    rw [hstat]
    exact ⟨_, rfl, hsame, hft.trans htype⟩
  · refine (hC.exists' A hp).of_eq.mpr ?_
    rw [exists_found hstat]
  · rintro children rfl
    obtain ⟨fs, hlist, hfs⟩ := hV.listDir_dir hi
    refine (hC.listDir A hp).of_eq.mpr ⟨fs.map (listedFile path), by rw [hlist]; rfl, ?_⟩
    rw [List.forall₂_map_left_iff]
    exact hfs.imp fun f child hf => ⟨congrArg path.join hf.1, hf.2⟩
  · rintro rfl
    refine (hC.listDir A hp).of_eq.mpr ?_
    cases hplace : placeOf path with
    | nil =>
      rw [hplace] at hi
      cases hi
    | cons name up =>
      rw [hplace] at hi
      rw [hV.listDir_file hi]
      exact ⟨_, rfl, rfl⟩

/-! ## Absent paths -/

theorem exists_error {V : View} {place : Place} {e : RemoteError} (h : V.stat place true = (.error e, true)) :
    V.exists' place true = (if missing e then .ok false else .error e, true) := by
  rw [View.exists', look_bind h]
  dsimp only
  split <;> rfl

/-- What is looked up below a directory that is there. -/
theorem stat_absent {V : View} (hV : Seen V root) (hr : Refuses V root) {up : Place} {children : List (Name × Tree)}
    (hup : root.find up = some (.dir children)) {first : Str} (hc : (Tree.dir children).child first = none)
    (below : Place) : ∃ e, V.stat (below ++ first :: up) true = (.error e, true) ∧
      e.kind = if below.length ≤ 8 then .noSuchFileOrDirectory else .permissionDenied := by
  cases below with
  | nil => exact ⟨_, hV.stat_missing hup hc, rfl⟩
  | cons name below =>
    obtain ⟨fs, hl, hfs⟩ := hV.dir hup
    have hfirst : root.find (first :: up) = none := by rw [Root.find, hup, Option.bind_some, hc]
    obtain ⟨e, he, hk⟩ := stat_below hr hl hfirst name below
    refine ⟨e, he, ?_⟩
    rw [hk, any_none hfs hc]
    simp only [and_true, List.length_cons, Nat.succ_le_iff]

/-- What a client tells about a path with `k` names below the deepest directory. -/
structure Absence (A : Listings) (x : Session (List Str)) (C : Client) (path : Path) (k : Nat) : Prop where
  stat : Gives A x (C.stat path) fun r => ∃ e, r = .error e ∧
    e.kind = if k ≤ 9 then .noSuchFileOrDirectory else .permissionDenied
  exists' : Gives A x (C.exists' path) fun r =>
    if k ≤ 9 then r = .ok false else ∃ e, r = .error e ∧ e.kind = .permissionDenied
  listDir : Gives A x (C.listDir path) fun r => ∃ e, r = .error e ∧
    e.kind = if k ≤ 8 then .noSuchFileOrDirectory else .permissionDenied

/-- **Absent paths are missing, from near enough.** Where nothing but
directories is above a path, `stat` and `exists` call it missing if at most nine
of its names are not there, `list_dir` if at most eight, and forbidden beyond. -/
theorem absent_path_missing (hA : Serves X.listParser Unavailable root A) (h : remotePath path = .ok remote)
    (habsent : root.find (placeOf path) = none)
    (habove : ∀ up item, up <:+ placeOf path → root.find up = some item → item.fileType = .directory)
    (hC : Resting X conn hasBuilder x C) : Absence A x C path (root.missing (placeOf path)) := by
  have hp := (accepted_iff.mp h).1
  have hV := hA.seen hasBuilder
  have hr := hA.refuses hasBuilder
  obtain ⟨below, first, up, item, hplace, hup, hc⟩ := find_none habsent
  obtain ⟨children, rfl⟩ : ∃ children, item = .dir children := by
    have hdir := habove up item (by rw [hplace]; exact (List.suffix_cons ..).trans (List.suffix_append ..)) hup
    cases item with
    | dir children => exact ⟨children, rfl⟩
    | file => cases hdir
    | link => cases hdir
  have hk : root.missing (placeOf path) = below.length + 1 := by rw [hplace, missing_below hup hc]
  have hfirst : root.find (first :: up) = none := by rw [Root.find, hup, Option.bind_some, hc]
  obtain ⟨e, hstat, hkind⟩ := stat_absent hV hr hup hc below
  rw [← hplace] at hstat
  rw [hk]
  refine ⟨?_, ?_, ?_⟩
  · refine (hC.stat A hp).of_eq.mpr ?_
    rw [hstat]
    exact ⟨e, rfl, hkind.trans (if_congr Nat.succ_le_succ_iff.symm rfl rfl)⟩
  · refine (hC.exists' A hp).of_eq.mpr ?_
    by_cases hlen : below.length ≤ 8
    · rw [if_pos hlen] at hkind
      rw [if_pos (Nat.succ_le_succ hlen), exists_error hstat, missing, hkind]
      rfl
    · rw [if_neg hlen] at hkind
      rw [if_neg fun hs => hlen (Nat.le_of_succ_le_succ hs), exists_error hstat, missing, hkind]
      exact ⟨e, rfl, hkind⟩
  · refine (hC.listDir A hp).of_eq.mpr ?_
    obtain ⟨fs, hl, hfs⟩ := hV.dir hup
    obtain ⟨e, he, hkind⟩ := listDir_below hr hl hfirst below
    rw [hplace, he]
    refine ⟨e, rfl, ?_⟩
    rw [hkind, any_none hfs hc]
    simp only [and_true]
    exact if_congr Nat.succ_le_iff.symm rfl rfl

/-! ## Paths beneath a regular file -/

theorem gives_kind {α : Type} {p : Io (RemoteResult α)} {k : RemoteErrorType}
    (hp : Gives A x p fun r => ∃ e, r = .error e ∧ e.kind = k) (S : RemoteErrorType → Prop) :
    Gives A x p (fun r => ∃ e, r = .error e ∧ S e.kind) ↔ S k := by
  obtain ⟨_, y, he, e, rfl, rfl⟩ := hp
  have heq : Gives A x p (· = .error e) := ⟨_, y, he, rfl⟩
  rw [heq.of_eq]
  constructor
  · rintro ⟨e', hr, hs⟩
    cases hr
    exact hs
  · exact fun hs => ⟨e, rfl, hs⟩

section
variable (hA : Serves X.listParser Unavailable root A) (h : remotePath path = .ok remote) {below up : Place}
  {first name : Str} (hplace : placeOf path = below ++ first :: name :: up)
  (hfile : root.find (name :: up) = some .file) (hC : Resting X conn hasBuilder x C)
include hA h hplace hfile hC

/-- What a lookup beneath the file `name` tells. -/
theorem beneath_file :
    Gives A x (C.stat path) (fun r => ∃ e, r = .error e ∧ e.kind =
      if below = [] then .badFile
      else if below.length ≤ 8 ∧ first ≠ name then .noSuchFileOrDirectory else .permissionDenied) ∧
    Gives A x (C.listDir path) (fun r => ∃ e, r = .error e ∧ e.kind =
      if below.length < 8 ∧ first ≠ name then .noSuchFileOrDirectory else .permissionDenied) := by
  have hp := (accepted_iff.mp h).1
  have hV := hA.seen hasBuilder
  have hr := hA.refuses hasBuilder
  obtain ⟨f, hl, hname, -⟩ := hV.item hfile (by decide)
  have hfirst : root.find (first :: name :: up) = none := by
    rw [Root.find, hfile]
    rfl
  have hany : ([f].any fun f => f.name = first) = false ↔ first ≠ name := by
    simp [hname, eq_comm]
  constructor
  · refine (hC.stat A hp).of_eq.mpr ?_
    rw [hplace]
    cases below with
    | nil =>
      rw [List.nil_append, hV.stat_below_file hfile]
      exact ⟨_, rfl, rfl⟩
    | cons c below =>
      obtain ⟨e, he, hk⟩ := stat_below hr hl hfirst c below
      rw [List.cons_append, he]
      refine ⟨e, rfl, ?_⟩
      rw [hk, if_neg (List.cons_ne_nil c below)]
      exact if_congr (and_congr Nat.lt_iff_add_one_le hany) rfl rfl
  · refine (hC.listDir A hp).of_eq.mpr ?_
    obtain ⟨e, he, hk⟩ := listDir_below hr hl hfirst below
    rw [hplace, he]
    refine ⟨e, rfl, ?_⟩
    rw [hk]
    exact if_congr (and_congr_right' hany) rfl rfl

/-- **Beneath a regular file** lookups tell a bad or a missing path, unless the
first name below the file is the file's own or the path is too deep; only `stat`
of a child is told by the parent. -/
theorem beneath_file_iff :
    (Gives A x (C.stat path) (fun r => ∃ e, r = .error e ∧ (e.kind = .badFile ∨ e.kind = .noSuchFileOrDirectory)) ↔
      below = [] ∨ below.length ≤ 8 ∧ first ≠ name) ∧
    (Gives A x (C.listDir path) (fun r => ∃ e, r = .error e ∧ (e.kind = .badFile ∨ e.kind = .noSuchFileOrDirectory)) ↔
      below.length < 8 ∧ first ≠ name) := by
  obtain ⟨hstat, hlist⟩ := beneath_file hA h hplace hfile hC
  refine ⟨(gives_kind hstat fun k => k = .badFile ∨ k = .noSuchFileOrDirectory).trans ?_,
    (gives_kind hlist fun k => k = .badFile ∨ k = .noSuchFileOrDirectory).trans ?_⟩
  · by_cases hnil : below = []
    · simp [hnil]
    · by_cases hnear : below.length ≤ 8 ∧ first ≠ name
      · rw [if_neg hnil, if_pos hnear]
        exact ⟨fun _ => .inr hnear, fun _ => .inr rfl⟩
      · rw [if_neg hnil, if_neg hnear]
        simp [hnil, hnear]
  · by_cases hnear : below.length < 8 ∧ first ≠ name
    · rw [if_pos hnear]
      exact ⟨fun _ => hnear, fun _ => .inr rfl⟩
    · rw [if_neg hnear]
      simp [hnear]

end

/-! ## Links -/

/-- Any failure to list. -/
def Failing (a : ListAnswer) : Prop := ∃ e, a.outcome.1 = .error e

theorem Serves.fails (hA : Serves X.listParser Failing root A) (hasBuilder : Bool) {place : Place} (h : root.find place = none) :
    ∃ e u, (viewOf X.listParser hasBuilder A).list place true = (.error e, u) := by
  obtain ⟨e, he⟩ := hA.absent h
  refine ⟨e, (A place.reverse).keeps hasBuilder, ?_⟩
  show ((A place.reverse).rows X.listParser, _) = _
  rw [ListAnswer.rows, he]
  rfl

/-- The path of a link's own name beneath it. -/
def LinkItself (root : Root) (place : Place) : Prop :=
  ∃ name up, place = name :: name :: up ∧ root.find (name :: up) = some .link

theorem stat_nothing_error (hA : Serves X.listParser Failing root A) (hasBuilder : Bool) {name : Str} {up : Place}
    (h : root.find (name :: up) = none) (hlink : root.find up ≠ some .link) :
    ∃ e, ((viewOf X.listParser hasBuilder A).stat (name :: up) true).1 = .error e := by
  have hV := hA.seen hasBuilder
  cases hup : root.find up with
  | none =>
    obtain ⟨e, u, hl⟩ := hA.fails hasBuilder hup
    obtain ⟨e', u', hr⟩ := refused_error (α := Found) (viewOf X.listParser hasBuilder A) up e u
    refine ⟨e', ?_⟩
    rw [View.stat, look_bind hl]
    dsimp only
    rw [hr]
  | some item =>
    rw [Root.find, hup] at h
    cases item with
    | dir children => exact ⟨_, by rw [hV.stat_missing hup h]⟩
    | link => exact absurd hup hlink
    | file =>
      cases up with
      | nil => cases hup
      | cons n up => exact ⟨_, by rw [hV.stat_below_file hup]⟩

/-- Where nothing is, `stat` finds nothing but a link in itself. -/
theorem stat_nothing (hA : Serves X.listParser Failing root A) {place : Place} (h : root.find place = none) :
    (∃ found, ((viewOf X.listParser hasBuilder A).stat place true).1 = .ok found) ↔ LinkItself root place := by
  have hV := hA.seen hasBuilder
  cases place with
  | nil => cases h
  | cons name up =>
    by_cases hlink : root.find up = some .link
    · cases up with
      | nil => cases hlink
      | cons n up =>
        obtain ⟨f, rfl, hstat⟩ := hV.stat_below_link hlink name
        rw [hstat]
        by_cases hname : f.name = name
        · refine ⟨fun _ => ⟨f.name, up, by rw [hname], hlink⟩, fun _ => ⟨.item f, ?_⟩⟩
          simp [findItem, hname]
        · have hnone : findItem name [f] = .error (.new .noSuchFileOrDirectory) := findItem_none (by simp [hname])
          constructor
          · rintro ⟨found, hf⟩
            rw [hnone] at hf
            cases hf
          · rintro ⟨n, up', hplace, -⟩
            cases hplace
            exact absurd rfl hname
    · obtain ⟨e, he⟩ := stat_nothing_error hA hasBuilder h hlink
      rw [he]
      constructor
      · rintro ⟨found, hf⟩
        cases hf
      · rintro ⟨n, up', hplace, hl⟩
        cases hplace
        exact absurd hl hlink

theorem map_ok_iff {α β : Type} {f : α → β} {r : RemoteResult α} :
    (∃ b, r.map f = .ok b) ↔ ∃ a, r = .ok a := by
  cases r with
  | ok a => exact ⟨fun _ => ⟨a, rfl⟩, fun _ => ⟨f a, rfl⟩⟩
  | error e => simp [Except.map]

/-- What is listed is a directory or a link. -/
theorem listDir_ok (hA : Serves X.listParser Failing root A) {place : Place} :
    (∃ items, ((viewOf X.listParser hasBuilder A).listDir place true).1 = .ok items) ↔
      root.find place = some .link ∨ ∃ children, root.find place = some (.dir children) := by
  have hV := hA.seen hasBuilder
  cases h : root.find place with
  | none =>
    obtain ⟨e, u, hl⟩ := hA.fails hasBuilder h
    obtain ⟨e', u', hr⟩ := refused_error (α := List FtpFile) (viewOf X.listParser hasBuilder A) place e u
    rw [View.listDir, look_bind hl]
    dsimp only
    rw [hr]
    simp
  | some item =>
    cases item with
    | dir children =>
      obtain ⟨fs, hl, -⟩ := hV.listDir_dir h
      rw [hl]
      simp
    | file =>
      cases place with
      | nil => cases h
      | cons name up =>
        rw [hV.listDir_file h]
        simp
    | link =>
      cases place with
      | nil => cases h
      | cons name up =>
        obtain ⟨f, hl⟩ := hV.listDir_link h
        rw [hl]
        simp

/-- **What a link fabricates.** `list_dir` takes nothing but directories for
directories, links apart; `stat` finds nothing but what is there, the name of a
link beneath it apart. -/
theorem fabricated_iff (hA : Serves X.listParser Failing root A) (h : remotePath path = .ok remote)
    (hC : Resting X conn hasBuilder x C) :
    (((Gives A x (C.listDir path) fun r => ∃ entries, r = .ok entries) →
      ∃ children, root.find (placeOf path) = some (.dir children)) ↔ root.find (placeOf path) ≠ some .link) ∧
    (((Gives A x (C.stat path) fun r => ∃ entry, r = .ok entry) → ∃ item, root.find (placeOf path) = some item) ↔
      ¬ LinkItself root (placeOf path)) := by
  have hp := (accepted_iff.mp h).1
  have hV := hA.seen hasBuilder
  rw [(hC.listDir A hp).of_eq, (hC.stat A hp).of_eq, map_ok_iff, map_ok_iff, listDir_ok hA]
  constructor
  · constructor
    · intro hdir hlink
      obtain ⟨children, hd⟩ := hdir (.inl hlink)
      rw [hlink] at hd
      cases hd
    · rintro hlink (hl | hd)
      · exact absurd hl hlink
      · exact hd
  · cases hfind : root.find (placeOf path) with
    | some item =>
      refine iff_of_true (fun _ => ⟨item, rfl⟩) ?_
      rintro ⟨name, up, hplace, hlink⟩
      rw [hplace, Root.find, hlink] at hfind
      cases hfind
    | none =>
      rw [stat_nothing hA hfind]
      simp

end

/-! ## One item -/

theorem childName_a : ChildName ['a'] := validateListChildName_ok (u := ()) rfl

def nameA : Name := ⟨['a'], childName_a⟩

/-- The root directory holds one item, `a`. -/
def oneItem (item : Tree) : Root := [(nameA, item)]

/-- Its row is all that can be listed. -/
def oneRow (row : Row) : Listings := fun names =>
  if names = [] ∨ names = [['a']] then .sent (.ok (listingBytes [.row row false])) (.ok ())
  else .refused false (.unexpectedResponse ⟨.fileUnavailable, []⟩)

theorem find_oneItem {item : Tree} (hd : item.fileType ≠ .directory) {name : Str} {up : Place} :
    (oneItem item).find (name :: up) = if up = [] ∧ name = ['a'] then some item else none := by
  have hchild (n : Str) : item.child n = none := by
    cases item with
    | file => rfl
    | link => rfl
    | dir children => exact absurd rfl hd
  induction up generalizing name with
  | nil =>
    by_cases h : name = ['a'] <;> simp [Root.find, oneItem, Tree.child, nameA, h, eq_comm]
  | cons n up ih =>
    rw [Root.find, ih]
    split <;> simp [hchild]

theorem oneItem_serves {P : ListParser} {row : Row} {f : FtpFile} {item : Tree} (hrow : RowAccepted P row.text f)
    (htotal : isTotalLine row.text = false) (hf : IsItem f (nameA, item)) (hd : item.fileType ≠ .directory) :
    Serves P Unavailable (oneItem item) (oneRow row) := by
  have hlists {name : Name} (hname : name.text = ['a']) {names : List Str} (h : names = [] ∨ names = [['a']]) :
      Lists P [(name, item)] (oneRow row names) := by
    refine ⟨[.row row false], [f], if_pos h, ?_, .cons ⟨hf.1.trans hname.symm, hf.2⟩ .nil⟩
    have hrows : entryRows ([Piece.row row false].filterMap Piece.row?) = [row.text] := by
      show (if isTotalLine row.text then _ else _) = _
      rw [htotal]
      rfl
    rw [hrows]
    exact .cons hrow .nil
  refine ⟨fun {place children} h => ?_, fun {name up i} h hi => ?_, fun {place} h => ?_⟩
  · cases place with
    | nil =>
      cases h
      exact hlists rfl (.inl rfl)
    | cons name up =>
      rw [find_oneItem hd] at h
      split at h
      · cases h
        exact absurd rfl hd
      · cases h
  · rw [find_oneItem hd] at h
    split at h
    · rename_i hplace
      obtain ⟨rfl, hname⟩ := hplace
      cases h
      refine hlists hname (.inr ?_)
      rw [hname]
      rfl
    · cases h
  · refine ⟨[], if_neg ?_⟩
    cases place with
    | nil => cases h
    | cons name up =>
      rw [find_oneItem hd] at h
      split at h
      · cases h
      · rename_i hplace
        rintro (hnil | hone)
        · simp at hnil
        · have hrev := congrArg List.reverse hone
          rw [List.reverse_reverse] at hrev
          cases hrev
          exact hplace ⟨rfl, rfl⟩

theorem plainRow_ne : plainRow ≠ [] := by decide

theorem plainRow_noLf : '\n' ∉ plainRow := by decide

theorem plainRow_noCr : plainRow.getLast? ≠ some '\r' := by decide

/-- A regular file. -/
def fileRow : Row := ⟨plainRow, plainRow_ne, plainRow_noLf, plainRow_noCr⟩

theorem fileRow_accepted : RowAccepted plainParser fileRow.text (plainFile ['a'] false) where
  name := by rfl
  parsed := by rfl
  child := .inr (.inr (by rfl))

theorem file_serves : Serves rowExt.listParser Unavailable (oneItem .file) (oneRow fileRow) :=
  oneItem_serves fileRow_accepted rfl (⟨rfl, rfl⟩ : IsItem (plainFile ['a'] false) (nameA, .file)) (by decide)

/-- Connected, and nothing else happened. -/
def atRest : Session (List Str) := ⟨⟨some 0, false, false, false, none⟩, ⟨[], [], true, fun _ => none, fun _ => false, 1⟩⟩

theorem resting_atRest (X : Ext) : Resting X 0 false atRest (FtpFs.client X) := .blocking ⟨rfl, rfl, rfl, rfl, rfl⟩

theorem existing_path_exact_file : Exact (oneRow fileRow) atRest (FtpFs.client rowExt) "/a".toList .file :=
  existing_path_exact file_serves (rfl : remotePath "/a".toList = .ok "/a".toList)
    (rfl : (oneItem .file).find (placeOf "/a".toList) = some .file) (resting_atRest rowExt)

theorem suffix_one {up : Place} (h : up <:+ [['b']]) : up = [] ∨ up = [['b']] := by
  rcases List.suffix_cons_iff.mp h with h | h
  · exact .inr h
  · exact .inl (List.suffix_nil.mp h)

theorem absent_path_missing_sibling : Absence (oneRow fileRow) atRest (FtpFs.client rowExt) "/b".toList 1 := by
  refine absent_path_missing file_serves (rfl : remotePath "/b".toList = .ok "/b".toList) rfl ?_ (resting_atRest rowExt)
  intro up item hup hitem
  rcases suffix_one hup with rfl | rfl <;> cases hitem
  rfl

/-- Ten names below the root. -/
def deepPath : Path := "/b/c/d/e/f/g/h/i/j/k".toList

theorem deep_path_forbidden : remotePath deepPath = .ok deepPath ∧ (oneItem .file).find (placeOf deepPath) = none ∧
    (∀ up, up <:+ placeOf deepPath → (oneItem .file).find up ≠ some .file) ∧
    Gives (oneRow fileRow) atRest ((FtpFs.client rowExt).stat deepPath)
      (fun r => ∃ e, r = .error e ∧ e.kind = .permissionDenied) := by
  have hpath : remotePath deepPath = .ok deepPath := by decide
  have hplace : placeOf deepPath =
      [['k'], ['j'], ['i'], ['h'], ['g'], ['f'], ['e'], ['d'], ['c']] ++ ['b'] :: [] := by decide
  have hroot : (oneItem .file).find [] = some (.dir (oneItem .file)) := rfl
  refine ⟨hpath, ?_, fun up hup hfile => ?_, ?_⟩
  · rw [hplace]
    rfl
  · cases up with
    | nil => cases hfile
    | cons name up =>
      rw [find_oneItem (by decide)] at hfile
      split at hfile
      · rename_i hone
        obtain ⟨rfl, rfl⟩ := hone
        rw [hplace] at hup
        obtain ⟨t, ht⟩ := hup
        have hlast := congrArg List.getLast? ht
        rw [List.getLast?_concat] at hlast
        cases hlast
      · cases hfile
  · obtain ⟨e, he, hkind⟩ := stat_absent (file_serves.seen false) (file_serves.refuses false) hroot
      (rfl : (Tree.dir (oneItem .file)).child ['b'] = none) [['k'], ['j'], ['i'], ['h'], ['g'], ['f'], ['e'], ['d'], ['c']]
    refine ((resting_atRest rowExt).stat _ (accepted_iff.mp hpath).1).of_eq.mpr ?_
    rw [hplace, he]
    exact ⟨e, rfl, hkind⟩

theorem beneath_file_iff_child :
    (Gives (oneRow fileRow) atRest ((FtpFs.client rowExt).stat "/a/b".toList)
      (fun r => ∃ e, r = .error e ∧ (e.kind = .badFile ∨ e.kind = .noSuchFileOrDirectory)) ↔
      ([] : Place) = [] ∨ ([] : Place).length ≤ 8 ∧ ['b'] ≠ ['a']) ∧
    (Gives (oneRow fileRow) atRest ((FtpFs.client rowExt).listDir "/a/b".toList)
      (fun r => ∃ e, r = .error e ∧ (e.kind = .badFile ∨ e.kind = .noSuchFileOrDirectory)) ↔
      ([] : Place).length < 8 ∧ ['b'] ≠ ['a']) :=
  beneath_file_iff file_serves (rfl : remotePath "/a/b".toList = .ok "/a/b".toList)
    (rfl : placeOf "/a/b".toList = [] ++ ['b'] :: ['a'] :: []) rfl (resting_atRest rowExt)

/-- A file has no children, and its own name beneath it is called forbidden. -/
theorem beneath_file_forbidden : remotePath "/a/a".toList = .ok "/a/a".toList ∧
    placeOf "/a/a".toList = [['a'], ['a']] ∧ (oneItem .file).find [['a']] = some .file ∧
    Gives (oneRow fileRow) atRest ((FtpFs.client rowExt).listDir "/a/a".toList)
      (fun r => ∃ e, r = .error e ∧ e.kind = .permissionDenied) := by
  have hplace : placeOf "/a/a".toList = [] ++ ['a'] :: ['a'] :: [] := rfl
  obtain ⟨-, hlist⟩ := beneath_file file_serves (rfl : remotePath "/a/a".toList = .ok "/a/a".toList) hplace rfl
    (resting_atRest rowExt)
  exact ⟨rfl, rfl, rfl, by simpa using hlist⟩

/-- A symbolic link to `b`. -/
def linkText : Str := "l--------- 1 0 0 0 Jan 1 1970 a -> b".toList

def linkFile : FtpFile := { plainFile ['a'] false with isSymlink := true, symlink := some ['b'] }

/-- Takes the name in front of the arrow and the target behind it. -/
def linkParser : ListParser where
  parsePosix line :=
    let target := line.reverse.takeWhile (· ≠ ' ')
    let name := ((line.reverse.drop (target.length + 4)).takeWhile (· ≠ ' ')).reverse
    .ok { plainFile name false with isSymlink := true, symlink := some target.reverse }
  parseDos _ := .error .syntaxError

theorem linkText_ne : linkText ≠ [] := by decide

theorem linkText_noLf : '\n' ∉ linkText := by decide

theorem linkText_noCr : linkText.getLast? ≠ some '\r' := by decide

def linkRow : Row := ⟨linkText, linkText_ne, linkText_noLf, linkText_noCr⟩

def linkExt : Ext := { rowExt with listParser := linkParser }

theorem linkRow_accepted : RowAccepted linkParser linkRow.text linkFile where
  name := by rfl
  parsed := by rfl
  child := .inr (.inr (by rfl))

theorem link_serves : Serves linkExt.listParser Failing (oneItem .link) (oneRow linkRow) := by
  have h := oneItem_serves linkRow_accepted rfl (⟨rfl, rfl⟩ : IsItem linkFile (nameA, .link)) (by decide)
  refine ⟨h.dir, h.item, fun hnone => ?_⟩
  obtain ⟨body, hbody⟩ := h.absent hnone
  rw [hbody]
  exact ⟨_, rfl⟩

theorem fabricated_iff_link :
    (((Gives (oneRow linkRow) atRest ((FtpFs.client linkExt).listDir "/a".toList) fun r => ∃ entries, r = .ok entries) →
      ∃ children, (oneItem .link).find (placeOf "/a".toList) = some (.dir children)) ↔
        (oneItem .link).find (placeOf "/a".toList) ≠ some .link) ∧
    (((Gives (oneRow linkRow) atRest ((FtpFs.client linkExt).stat "/a".toList) fun r => ∃ entry, r = .ok entry) →
      ∃ item, (oneItem .link).find (placeOf "/a".toList) = some item) ↔
      ¬ LinkItself (oneItem .link) (placeOf "/a".toList)) :=
  fabricated_iff link_serves (rfl : remotePath "/a".toList = .ok "/a".toList) (resting_atRest linkExt)

/-- The link is listed, and found beneath itself. -/
theorem link_fabricated :
    ((Gives (oneRow linkRow) atRest ((FtpFs.client linkExt).listDir "/a".toList) fun r => ∃ entries, r = .ok entries) ∧
      (oneItem .link).find (placeOf "/a".toList) = some .link) ∧
    (Gives (oneRow linkRow) atRest ((FtpFs.client linkExt).stat "/a/a".toList) fun r => ∃ entry, r = .ok entry) ∧
      (oneItem .link).find (placeOf "/a/a".toList) = none := by
  have hplace : placeOf "/a".toList = [['a']] := rfl
  have hplace' : placeOf "/a/a".toList = [['a'], ['a']] := rfl
  have hp : Accepted "/a".toList := (accepted_iff.mp (rfl : remotePath "/a".toList = .ok "/a".toList)).1
  have hp' : Accepted "/a/a".toList := (accepted_iff.mp (rfl : remotePath "/a/a".toList = .ok "/a/a".toList)).1
  have hlink : (oneItem .link).find [['a']] = some .link := rfl
  have hnone : (oneItem .link).find [['a'], ['a']] = none := rfl
  refine ⟨⟨?_, hlink⟩, ?_, hnone⟩
  · rw [((resting_atRest linkExt).listDir _ hp).of_eq, map_ok_iff, listDir_ok link_serves]
    exact .inl hlink
  · rw [((resting_atRest linkExt).stat _ hp').of_eq, map_ok_iff, hplace', stat_nothing link_serves hnone]
    exact ⟨['a'], [], rfl, hlink⟩

end RemotefsFtp.L4
