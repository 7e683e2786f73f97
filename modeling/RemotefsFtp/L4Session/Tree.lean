import RemotefsFtp.L4Session.View

/-!
# Lookups on a tree of files

A readable server for a finite tree: `LIST` of a directory sends one row for
each child, of anything else that is there its own row, and of any other path a
refusal. A file is listed like a directory that holds a file of its name; the
lookups tell them apart by looking at the parent.
-/
namespace RemotefsFtp.L4

open L1 (Str Path)
open L2 L3
open Core (Prog)

/-! ## Trees -/

/-- The name of an item. -/
structure Name where
  text : Str
  valid : ChildName text

/-- A link is a symbolic link to a regular file. -/
inductive Tree where
  | file
  | link
  | dir (children : List (Name × Tree))

namespace Tree

def fileType : Tree → FileType
  | file => .file
  | link => .symlink
  | dir _ => .directory

def child (t : Tree) (name : Str) : Option Tree :=
  match t with
  | dir children => (children.find? fun c => c.1.text = name).map Prod.snd
  | _ => none

end Tree

/-- The tree below the root directory. -/
abbrev Root := List (Name × Tree)

/-- The item at a place. -/
def Root.find (root : Root) : Place → Option Tree
  | [] => some (.dir root)
  | name :: up => (Root.find root up).bind fun t => t.child name

/-! ## Servers -/

/-- What the client reads from the row of an item. -/
def IsItem (f : FtpFile) (item : Name × Tree) : Prop := f.name = item.1.text ∧ f.fileType = item.2.fileType

/-- The data is one row for each item, and each row is read as its item. -/
def Lists (P : ListParser) (items : List (Name × Tree)) (a : ListAnswer) : Prop :=
  ∃ rows fs, a = .sent (.ok (listingBytes rows)) (.ok ()) ∧
    List.Forall₂ (RowAccepted P) (entryRows (rows.filterMap Piece.row?)) fs ∧ List.Forall₂ IsItem fs items

/-- A readable server; `Refusal`: how it answers for what is not there. -/
structure Serves (P : ListParser) (Refusal : ListAnswer → Prop) (root : Root) (A : Listings) : Prop where
  dir : ∀ {place children}, root.find place = some (.dir children) → Lists P children (A place.reverse)
  item : ∀ {name : Name} {up item}, root.find (name.text :: up) = some item → item.fileType ≠ .directory →
    Lists P [(name, item)] (A (name.text :: up).reverse)
  absent : ∀ {place}, root.find place = none → Refusal (A place.reverse)

/-- A plain `550`. -/
def Unavailable (a : ListAnswer) : Prop :=
  ∃ body, a = .refused false (.unexpectedResponse ⟨.fileUnavailable, body⟩)

theorem Lists.rows {P : ListParser} {items : List (Name × Tree)} {a : ListAnswer} (h : Lists P items a)
    (hasBuilder : Bool) : ∃ fs, a.rows P = .ok fs ∧ a.keeps hasBuilder = true ∧ List.Forall₂ IsItem fs items := by
  obtain ⟨rows, fs, rfl, hrows, hitems⟩ := h
  refine ⟨fs, ?_, by simp [ListAnswer.keeps, ListAnswer.builderFails, ListAnswer.outcome, FtpFs.listOutcome], hitems⟩
  refine readRows_ok.mpr ⟨_, fs, decode_pieces rows, hrows, ?_⟩
  refine (List.filter_eq_self.mpr fun f hf => ?_).symm
  obtain ⟨i, hi, rfl⟩ := List.getElem_of_mem hf
  have hname := (hitems.get hi (by rw [← hitems.length_eq]; exact hi)).1
  have hvalid := (items.get ⟨i, by rw [← hitems.length_eq]; exact hi⟩).1.valid
  rw [← hname] at hvalid
  simp only [isDots, Bool.not_eq_true', decide_eq_false_iff_not, not_or]
  exact ⟨hvalid.ne_dot, hvalid.ne_dotdot⟩

/-- What a view shows of a tree: the items that are there. -/
structure Seen (V : View) (root : Root) : Prop where
  dir : ∀ {place children}, root.find place = some (.dir children) →
    ∃ fs, V.list place true = (.ok fs, true) ∧ List.Forall₂ IsItem fs children
  item : ∀ {name up item}, root.find (name :: up) = some item → item.fileType ≠ .directory →
    ∃ f, V.list (name :: up) true = (.ok [f], true) ∧ f.name = name ∧ f.fileType = item.fileType

/-- Every item has a valid name. -/
theorem find_name {root : Root} {name : Str} {up : Place} {item : Tree} (h : root.find (name :: up) = some item) :
    ∃ children, root.find up = some (.dir children) ∧ ∃ n : Name, n.text = name := by
  obtain ⟨parent, hup, hc⟩ := Option.bind_eq_some_iff.mp h
  cases parent with
  | file => cases hc
  | link => cases hc
  | dir children =>
    obtain ⟨c, hc, -⟩ := Option.map_eq_some_iff.mp hc
    exact ⟨children, hup, c.1, by simpa using List.find?_some hc⟩

theorem Serves.seen {P : ListParser} {Refusal : ListAnswer → Prop} {root : Root} {A : Listings}
    (hA : Serves P Refusal root A) (hasBuilder : Bool) : Seen (viewOf P hasBuilder A) root where
  dir {place children} h := by
    obtain ⟨fs, hrows, hkeeps, hitems⟩ := (hA.dir h).rows hasBuilder
    exact ⟨fs, Prod.ext hrows hkeeps, hitems⟩
  item {name up item} h hd := by
    obtain ⟨children, -, n, rfl⟩ := find_name h
    obtain ⟨fs, hrows, hkeeps, hitems⟩ := (hA.item h hd).rows hasBuilder
    cases hitems with
    | cons hf hnil =>
      cases hnil
      exact ⟨_, Prod.ext hrows hkeeps, hf⟩

/-! ## What is there -/

section
variable {fs : List FtpFile} {children : List (Name × Tree)} (h : List.Forall₂ IsItem fs children) {name : Str}
include h

theorem findItem_some {item : Tree} (hc : (Tree.dir children).child name = some item) :
    ∃ f, findItem name fs = .ok (.item f) ∧ f.name = name ∧ f.fileType = item.fileType := by
  unfold findItem
  induction h with
  | nil => cases hc
  | @cons f c fs children hf _ ih =>
    rw [Tree.child, List.find?_cons] at hc
    rw [List.find?_cons, hf.1]
    by_cases hn : c.1.text = name
    · simp only [hn, decide_true, Option.map_some] at hc ⊢
      cases hc
      exact ⟨f, rfl, hf.1.trans hn, hf.2⟩
    · simp only [hn, decide_false] at hc ⊢
      exact ih hc

theorem any_none (hc : (Tree.dir children).child name = none) : (fs.any fun f => f.name = name) = false := by
  have hnone : ∀ c ∈ children, ¬ decide (c.1.text = name) = true :=
    List.find?_eq_none.mp (Option.map_eq_none_iff.mp hc)
  rw [List.any_eq_false]
  intro f hf
  obtain ⟨i, hi, rfl⟩ := List.getElem_of_mem hf
  have hlen : i < children.length := by rw [← h.length_eq]; exact hi
  have hname := (h.get hi hlen).1
  rw [List.get_eq_getElem] at hname
  rw [hname]
  exact hnone _ (List.getElem_mem hlen)

end

theorem findItem_none {fs : List FtpFile} {name : Str} (h : (fs.any fun f => f.name = name) = false) :
    findItem name fs = .error (.new .noSuchFileOrDirectory) := by
  rw [findItem, List.find?_eq_none.mpr (by simpa using h)]

/-- `stat` below a directory looks among its children, whatever their names. -/
theorem stat_in_dir {V : View} {up : Place} {found : Found} (hstat : V.stat up true = (.ok found, true))
    (hdir : found.fileType = .directory) {fs : List FtpFile} (hl : V.list up true = (.ok fs, true)) (name : Str) :
    V.stat (name :: up) true = (findItem name fs, true) := by
  have hfile : found.isFile = false := by
    rw [Found.isFile, hdir]
    rfl
  rw [View.stat, look_bind hl]
  dsimp only
  split
  · rw [look_bind hstat]
    dsimp only
    rw [hfile]
    rfl
  · rfl

namespace Seen

variable {V : View} {root : Root} (hV : Seen V root)
include hV

/-- What is there is found, by induction on the path. -/
theorem stat_found {place : Place} {item : Tree} (h : root.find place = some item) :
    ∃ found, V.stat place true = (.ok found, true) ∧ found.fileType = item.fileType ∧
      ∀ f, found = .item f → place.head? = some f.name := by
  induction place generalizing item with
  | nil =>
    cases h
    exact ⟨.root, rfl, rfl, by simp⟩
  | cons name up ih =>
    obtain ⟨parent, hup, hc⟩ := Option.bind_eq_some_iff.mp h
    obtain ⟨children, hdir, -⟩ := find_name h
    obtain rfl : parent = .dir children := Option.some.inj (hup.symm.trans hdir)
    obtain ⟨fs, hl, hfs⟩ := hV.dir hup
    obtain ⟨found, hstat, hft, -⟩ := ih hup
    obtain ⟨f, hfind, hname, htype⟩ := findItem_some hfs hc
    refine ⟨.item f, ?_, htype, fun g hg => ?_⟩
    · rw [stat_in_dir hstat hft hl, hfind]
    · cases hg
      rw [hname]
      rfl

theorem stat_missing {up : Place} {children : List (Name × Tree)} (h : root.find up = some (.dir children))
    {name : Str} (hc : (Tree.dir children).child name = none) :
    V.stat (name :: up) true = (.error (.new .noSuchFileOrDirectory), true) := by
  obtain ⟨fs, hl, hfs⟩ := hV.dir h
  obtain ⟨found, hstat, hft, -⟩ := hV.stat_found h
  rw [stat_in_dir hstat hft hl, findItem_none (any_none hfs hc)]

theorem statIsFile_found {place : Place} {item : Tree} (h : root.find place = some item) :
    V.statIsFile place true = (decide (item.fileType = .file), true) := by
  obtain ⟨found, hstat, hft, -⟩ := hV.stat_found h
  rw [View.statIsFile, look_bind hstat]
  dsimp only
  rw [Found.isFile, hft]
  rfl

/-- Below a file nothing is found: the listing is the file's own row. -/
theorem stat_below_file {name : Str} {up : Place} (h : root.find (name :: up) = some .file) (below : Str) :
    V.stat (below :: name :: up) true =
      (.error (.withMessage .badFile "the parent path is a regular file"), true) := by
  obtain ⟨f, hl, hname, htype⟩ := hV.item h (by decide)
  obtain ⟨found, hstat, hft, -⟩ := hV.stat_found h
  have hone : isOneFile (some name) [f] = true := by simp [isOneFile, hname, htype, Tree.fileType]
  have hfile : found.isFile = true := by
    rw [Found.isFile, hft]
    rfl
  rw [View.stat, look_bind hl, List.head?_cons]
  dsimp only
  rw [if_pos hone, look_bind hstat]
  dsimp only
  rw [if_pos hfile]
  rfl

/-- Below a link its own name is found. -/
theorem stat_below_link {name : Str} {up : Place} (h : root.find (name :: up) = some .link) (below : Str) :
    ∃ f : FtpFile, f.name = name ∧ V.stat (below :: name :: up) true = (findItem below [f], true) := by
  obtain ⟨f, hl, hname, htype⟩ := hV.item h (by decide)
  have hone : isOneFile (some name) [f] = false := by simp [isOneFile, htype, Tree.fileType]
  refine ⟨f, hname, ?_⟩
  rw [View.stat, look_bind hl, List.head?_cons]
  dsimp only
  rw [hone]
  rfl

theorem listDir_dir {place : Place} {children : List (Name × Tree)} (h : root.find place = some (.dir children)) :
    ∃ fs, V.listDir place true = (.ok fs, true) ∧ List.Forall₂ IsItem fs children := by
  obtain ⟨fs, hl, hfs⟩ := hV.dir h
  refine ⟨fs, ?_, hfs⟩
  rw [View.listDir, look_bind hl]
  dsimp only
  split
  · rfl
  split
  · rw [look_bind (hV.statIsFile_found h)]
    rfl
  · rfl

theorem listDir_file {name : Str} {up : Place} (h : root.find (name :: up) = some .file) :
    V.listDir (name :: up) true = (.error (.withMessage .badFile "LIST requires a directory path"), true) := by
  obtain ⟨f, hl, hname, htype⟩ := hV.item h (by decide)
  have hone : isOneFile (some name) [f] = true := by simp [isOneFile, hname, htype, Tree.fileType]
  rw [View.listDir, look_bind hl, List.head?_cons]
  dsimp only
  rw [if_neg (List.cons_ne_nil name up), hone, Bool.true_or, if_pos rfl, look_bind (hV.statIsFile_found h)]
  rfl

/-- A link passes for a directory. -/
theorem listDir_link {name : Str} {up : Place} (h : root.find (name :: up) = some .link) :
    ∃ f, V.listDir (name :: up) true = (.ok [f], true) := by
  obtain ⟨f, hl, hname, htype⟩ := hV.item h (by decide)
  have hone : isOneFile (some name) [f] = false := by simp [isOneFile, htype, Tree.fileType]
  refine ⟨f, ?_⟩
  rw [View.listDir, look_bind hl, List.head?_cons]
  dsimp only
  rw [if_neg (List.cons_ne_nil name up), hone]
  rfl

end Seen

/-! ## What is not there -/

theorem refused_error {α : Type} (V : View) (place : Place) (e : RemoteError) (usable : Bool) :
    ∃ e' u, (V.refused place e : Look (RemoteResult α)) usable = (.error e', u) := by
  unfold View.refused
  split
  · cases ha : V.absentAbove 8 place usable with
    | mk b u =>
      rw [look_bind ha]
      cases b
      · exact ⟨_, _, rfl⟩
      · exact ⟨_, _, rfl⟩
  · exact ⟨_, _, rfl⟩

/-- Whatever is not there is listed with a `550`. -/
def Refuses (V : View) (root : Root) : Prop :=
  ∀ place, root.find place = none → ∃ e, V.list place true = (.error e, true) ∧ isAmbiguousPathRefusal e = true

theorem Serves.refuses {P : ListParser} {root : Root} {A : Listings} (hA : Serves P Unavailable root A)
    (hasBuilder : Bool) : Refuses (viewOf P hasBuilder A) root := by
  intro place h
  obtain ⟨body, hbody⟩ := hA.absent h
  refine ⟨ftpError (.unexpectedResponse ⟨.fileUnavailable, body⟩), ?_, rfl⟩
  show ((A place.reverse).rows P, (A place.reverse).keeps hasBuilder) = _
  rw [hbody, ListAnswer.keeps, ListAnswer.builderFails, Bool.and_false]
  rfl

theorem find_below {root : Root} {place : Place} (h : root.find place = none) (below : Place) :
    root.find (below ++ place) = none := by
  induction below with
  | nil => exact h
  | cons name below ih => rw [List.cons_append, Root.find, ih, Option.bind_none]

/-- Where a path leaves the tree. -/
theorem find_none {root : Root} {place : Place} (h : root.find place = none) :
    ∃ below first up item, place = below ++ first :: up ∧ root.find up = some item ∧ item.child first = none := by
  induction place with
  | nil => cases h
  | cons name up ih =>
    cases hup : root.find up with
    | none =>
      obtain ⟨below, first, up, item, rfl, hup, hc⟩ := ih hup
      exact ⟨name :: below, first, up, item, rfl, hup, hc⟩
    | some item =>
      rw [Root.find, hup] at h
      exact ⟨[], name, up, item, rfl, hup, h⟩

/-- The names of a path below the deepest item that is there. -/
def Root.missing (root : Root) : Place → Nat
  | [] => 0
  | name :: up => if (root.find (name :: up)).isSome then 0 else root.missing up + 1

theorem missing_found {root : Root} {place : Place} {item : Tree} (h : root.find place = some item) :
    root.missing place = 0 := by
  cases place with
  | nil => rfl
  | cons name up => rw [Root.missing, h, Option.isSome_some, if_pos rfl]

theorem missing_below {root : Root} {up : Place} {item : Tree} (hup : root.find up = some item) {first : Str}
    (hc : item.child first = none) (below : Place) : root.missing (below ++ first :: up) = below.length + 1 := by
  have hfirst : root.find (first :: up) = none := by rw [Root.find, hup, Option.bind_some, hc]
  induction below with
  | nil =>
    rw [List.nil_append, Root.missing, hfirst, Option.isSome_none, if_neg Bool.false_ne_true, missing_found hup]
    rfl
  | cons name below ih =>
    rw [List.cons_append, Root.missing, ← List.cons_append, find_below hfirst, Option.isSome_none,
      if_neg Bool.false_ne_true, ih]
    rfl

section
variable {V : View} {root : Root} (hr : Refuses V root) {up : Place} {fs : List FtpFile}
  (hl : V.list up true = (.ok fs, true)) {first : Str} (hfirst : root.find (first :: up) = none)
include hr hl hfirst

/-- The refused listings are climbed, as far as the loop goes, up to the one
that succeeds. -/
theorem absentAbove_below (n : Nat) (below : Place) : V.absentAbove n (below ++ first :: up) true =
    (decide (below.length < n) && !(fs.any fun f => f.name = first), true) := by
  induction n generalizing below with
  | zero => cases below <;> rfl
  | succ n ih =>
    cases below with
    | nil =>
      rw [List.nil_append, View.absentAbove, look_bind hl]
      simp only [List.length_nil, Nat.zero_lt_succ, decide_true, Bool.true_and]
      rfl
    | cons name below =>
      obtain ⟨e, he, hamb⟩ := hr _ (find_below hfirst below)
      rw [List.cons_append, View.absentAbove, look_bind he]
      dsimp only
      rw [if_pos hamb, ih]
      simp only [List.length_cons, Nat.succ_lt_succ_iff]

theorem refused_below {α : Type} (below : Place) {e : RemoteError} (he : isAmbiguousPathRefusal e = true) :
    ∃ e', (V.refused (below ++ first :: up) e : Look (RemoteResult α)) true = (.error e', true) ∧
      e'.kind = if below.length < 8 ∧ (fs.any fun f => f.name = first) = false then .noSuchFileOrDirectory
        else .permissionDenied := by
  rw [View.refused, if_pos he, look_bind (absentAbove_below hr hl hfirst 8 below)]
  by_cases hlen : below.length < 8 <;> cases fs.any fun f => f.name = first <;>
    · simp only [hlen]
      exact ⟨_, rfl, rfl⟩

theorem listDir_below (below : Place) : ∃ e, V.listDir (below ++ first :: up) true = (.error e, true) ∧
    e.kind = if below.length < 8 ∧ (fs.any fun f => f.name = first) = false then .noSuchFileOrDirectory
      else .permissionDenied := by
  obtain ⟨e, he, hamb⟩ := hr _ (find_below hfirst below)
  rw [View.listDir, look_bind he]
  exact refused_below hr hl hfirst below hamb

theorem stat_below (name : Str) (below : Place) :
    ∃ e, V.stat (name :: (below ++ first :: up)) true = (.error e, true) ∧
      e.kind = if below.length < 8 ∧ (fs.any fun f => f.name = first) = false then .noSuchFileOrDirectory
        else .permissionDenied := by
  obtain ⟨e, he, hamb⟩ := hr _ (find_below hfirst below)
  rw [View.stat, look_bind he]
  exact refused_below hr hl hfirst below hamb

end

end RemotefsFtp.L4
