import RemotefsFtp.Core.Eval
import RemotefsFtp.L2Remote.Rows
import RemotefsFtp.L3Client.Sync

/-!
# Lookups on a view

What `stat` and `list_dir` are for, told on names: a `View` says what a listing
of each directory gives, and `View.stat` and `View.listDir` compute on it. Their
only state is whether the connection is usable.

Results:
* `Shows.stat`, `Shows.listDir`, `Shows.exists'`: a client whose listings follow a view looks up
  what the view says.
-/
namespace RemotefsFtp.L3

open L1 (Str Path)
open L2
open Core (Prog Machine)

/-! ## The view -/

/-- A path by its names, the last one first. -/
abbrev Place := List Str

def placeOf (path : Path) : Place := path.names.reverse

/-- What a listing of a directory gives, and whether the connection survives
it. -/
structure View where
  rows : Place → RemoteResult (List FtpFile)
  keeps : Place → Bool
  named : ∀ {place items}, rows place = .ok items → ∀ f ∈ items, ChildName f.name
  kept : ∀ {place items}, rows place = .ok items → keeps place = true

/-- A lookup reads and changes whether the connection is usable. -/
abbrev Look (α : Type) := StateM Bool α

/-- What `stat` finds. -/
inductive Found where
  | root
  | item (f : FtpFile)

def Found.fileType : Found → FileType
  | root => .directory
  | item f => f.fileType

def Found.isFile (found : Found) : Bool := found.fileType = .file

/-- The entry of what was found at `path`. -/
def Found.entry (path : Path) : Found → File
  | root => rootEntry path
  | item f => listedFile (path.parent.getD ['/']) f

/-- A listing that holds one regular file, of this name. -/
def isOneFile (name : Option Str) (items : List FtpFile) : Bool :=
  match items with
  | [f] => name.any (f.name = ·) && decide (f.fileType = .file)
  | _ => false

def findItem (name : Str) (items : List FtpFile) : RemoteResult Found :=
  match items.find? fun f => f.name = name with
  | some f => .ok (.item f)
  | none => .error (.new .noSuchFileOrDirectory)

namespace View

variable (V : View) {α : Type}

def list (place : Place) : Look (RemoteResult (List FtpFile)) := fun usable =>
  if usable then (V.rows place, V.keeps place) else (.error connectionUnusable, false)

def ready : Look (RemoteResult Found) := fun usable =>
  (if usable then .ok .root else .error connectionUnusable, usable)

/-- Whether a listing above shows that the place is not there. -/
def absentAbove : Nat → Place → Look Bool
  | 0, _ => pure false
  | _ + 1, [] => pure false
  | n + 1, name :: up => do
    match ← V.list up with
    | .ok items => pure !(items.any fun f => f.name = name)
    | .error error => if isAmbiguousPathRefusal error then absentAbove n up else pure false

def refused (place : Place) (error : RemoteError) : Look (RemoteResult α) :=
  if isAmbiguousPathRefusal error then do
    if ← V.absentAbove 8 place then pure (.error (.withRemote .noSuchFileOrDirectory error))
    else pure (.error (ambiguousPathPermission error))
  else pure (.error error)

def stat : Place → Look (RemoteResult Found)
  | [] => ready
  | name :: up => do
    match ← V.list up with
    | .error error => V.refused up error
    | .ok items =>
      if isOneFile up.head? items then do
        match ← stat up with
        | .ok parent =>
          if parent.isFile then pure (.error (.withMessage .badFile "the parent path is a regular file"))
          else pure (findItem name items)
        | .error error =>
          if error.kind = .permissionDenied then pure (findItem name items) else pure (.error error)
      else pure (findItem name items)

def statIsFile (place : Place) : Look Bool := do
  match ← V.stat place with
  | .ok found => pure found.isFile
  | .error _ => pure false

def listDir (place : Place) : Look (RemoteResult (List FtpFile)) := do
  match ← V.list place with
  | .error error => V.refused place error
  | .ok items =>
    if place = [] then pure (.ok items)
    else if isOneFile place.head? items || items.isEmpty then do
      if ← V.statIsFile place then pure (.error (.withMessage .badFile "LIST requires a directory path"))
      else pure (.ok items)
    else pure (.ok items)

def exists' (place : Place) : Look (RemoteResult Bool) := do
  match ← V.stat place with
  | .ok _ => pure (.ok true)
  | .error error => if missing error then pure (.ok false) else pure (.error error)

end View

theorem look_bind {α β : Type} {x : Look α} {k : α → Look β} {usable usable' : Bool} {a : α}
    (h : x usable = (a, usable')) : (x >>= k) usable = k a usable' := by
  show k (x usable).1 (x usable).2 = _
  rw [h]

/-! ## Names -/

theorem placeOf_parent {path parent : Path} (h : Accepted path) (hp : path.parent = some parent) :
    ∃ name, placeOf path = name :: placeOf parent := by
  obtain ⟨-, hnames⟩ := h.parent hp
  have hne : path.names ≠ [] := by
    intro he
    rw [h.parent_none.mpr he] at hp
    cases hp
  refine ⟨path.names.getLast hne, ?_⟩
  rw [placeOf, placeOf, hnames, ← List.reverse_concat, List.dropLast_append_getLast hne]

theorem placeOf_nil {path : Path} (h : Accepted path) : placeOf path = [] ↔ path.parent = none := by
  rw [h.parent_none, placeOf, List.reverse_eq_nil_iff]

theorem fileName_placeOf {path : Path} (h : Accepted path) : path.fileName = (placeOf path).head? := by
  rw [h.fileName_eq, placeOf, List.head?_reverse]

section
variable {path dir : Path} (h : Accepted dir) {f : FtpFile} (hf : ChildName f.name)
include h hf

theorem listedFile_accepted : Accepted (listedFile dir f).path := (h.join hf.toIsName hf.printable).1

theorem listedFile_names : (listedFile dir f).path.names = dir.names ++ [f.name] := by
  have hcomp := (h.join hf.toIsName hf.printable).2
  show Path.names (dir.join f.name) = _
  rw [Path.names, hcomp, List.filterMap_append]
  rfl

theorem listedFile_name : (listedFile dir f).name = f.name := by
  rw [File.name, (listedFile_accepted h hf).fileName_eq, listedFile_names h hf, List.getLast?_concat]
  rfl

/-- An entry is the one at `path` if it has its name. -/
theorem listedFile_same (hp : Accepted path) {name : Str} (hn : placeOf path = name :: placeOf dir) :
    (listedFile dir f).path.same path = decide (f.name = name) := by
  have hnames : path.names = dir.names ++ [name] := by
    have := congrArg List.reverse hn
    simpa [placeOf] using this
  rw [Bool.eq_iff_iff, (listedFile_accepted h hf).same_iff hp, listedFile_names h hf, hnames, decide_eq_true_eq]
  exact ⟨fun he => by simpa using he, fun he => by rw [he]⟩

end

theorem isOneFileNamed_listed {dir : Path} (h : Accepted dir) {items : List FtpFile}
    (hi : ∀ f ∈ items, ChildName f.name) (name : Option Str) :
    isOneFileNamed name (items.map (listedFile dir)) = isOneFile name items := by
  rcases items with _ | ⟨f, _ | ⟨g, items⟩⟩
  · rfl
  · show (name.any ((listedFile dir f).name = ·) && _) = _
    rw [listedFile_name h (hi f (List.mem_singleton_self f))]
    rfl
  · rfl

section
variable {path dir : Path} (h : Accepted dir) (hp : Accepted path) {name : Str}
  (hn : placeOf path = name :: placeOf dir) {items : List FtpFile} (hi : ∀ f ∈ items, ChildName f.name)
include h hp hn hi

theorem any_listed : ((items.map (listedFile dir)).any fun entry => entry.path.same path) =
    items.any fun f => f.name = name := by
  induction items with
  | nil => rfl
  | cons f items ih =>
    simp only [List.map_cons, List.any_cons, ih fun g hg => hi g (List.mem_cons_of_mem f hg),
      listedFile_same h (hi f (List.mem_cons_self ..)) hp hn]

theorem find_listed : (items.map (listedFile dir)).find? (fun entry => entry.path.same path) =
    (items.find? fun f => f.name = name).map (listedFile dir) := by
  induction items with
  | nil => rfl
  | cons f items ih =>
    simp only [List.map_cons, List.find?_cons, ih fun g hg => hi g (List.mem_cons_of_mem f hg),
      listedFile_same h (hi f (List.mem_cons_self ..)) hp hn]
    cases decide (f.name = name) <;> rfl

theorem findEntry_listed (hpar : path.parent = some dir) :
    Client.findEntry path (items.map (listedFile dir)) = (findItem name items).map (Found.entry path) := by
  rw [Client.findEntry, find_listed h hp hn hi, findItem]
  cases items.find? fun f => f.name = name with
  | none => rfl
  | some f =>
    show Except.ok (listedFile dir f) = .ok (listedFile (path.parent.getD ['/']) f)
    rw [hpar]
    rfl

end

/-! ## Clients that follow a view -/

section
variable {W α β γ δ : Type} (M : Machine ftp W) (Ready : Bool → W → Prop)

/-- From a ready state `p` returns, through `f`, what the lookup says, and
leaves the connection as it says. -/
def Follows (p : Io α) (look : Look β) (f : β → α) : Prop :=
  ∀ usable, Prog.Ends (S := ftp) M (Ready usable) p fun a w => a = f (look usable).1 ∧ Ready (look usable).2 w

variable {M Ready} {p : Io α} {look : Look β} {f : β → α} {g : δ → γ}

theorem follows_pure (b : β) : Follows M Ready (pure (f b)) (pure b) f :=
  fun _ => Prog.ends_ret fun _ hw => ⟨rfl, hw⟩

theorem follows_ok (f : γ → β) (c : γ) :
    Follows M Ready (pure (.ok (f c) : RemoteResult β)) (pure (.ok c)) (Except.map f) :=
  follows_pure (f := Except.map f) (.ok c)

theorem follows_error (f : γ → β) (e : RemoteError) :
    Follows M Ready (pure (.error e : RemoteResult β)) (pure (.error e)) (Except.map f) :=
  follows_pure (f := Except.map f) (.error e)

theorem Follows.seq {k : α → Io γ} {k' : β → Look δ} (h : Follows M Ready p look f)
    (hk : ∀ b, (∃ usable, (look usable).1 = b) → Follows M Ready (k (f b)) (k' b) g) :
    Follows M Ready (p >>= k) (look >>= k') g := by
  intro usable
  refine Prog.Ends.bind (h usable) fun a => ?_
  rintro w ⟨rfl, hw⟩
  exact hk _ ⟨usable, rfl⟩ _ w hw

theorem Follows.ite {q : Io α} {look' : Look β} (c : Bool) (hp : Follows M Ready p look f)
    (hq : Follows M Ready q look' f) :
    Follows M Ready (if c then p else q) (if c then look else look') f := by
  cases c
  · exact hq
  · exact hp

variable (M Ready) in
/-- A client whose steps follow a view. -/
structure Shows (C : Client) (V : View) : Prop where
  list : ∀ {path}, Accepted path → Follows M Ready (C.listDirRaw path path) (V.list (placeOf path))
    (Except.map (List.map (listedFile path)))
  root : ∀ {path}, Accepted path → Follows M Ready (C.statRoot path) View.ready (Except.map (Found.entry path))

end

theorem View.list_named {V : View} {place : Place} {items : List FtpFile}
    (h : ∃ usable, (V.list place usable).1 = .ok items) : ∀ f ∈ items, ChildName f.name := by
  obtain ⟨usable, h⟩ := h
  cases usable with
  | false => cases h
  | true => exact V.named h

/-- A listing that succeeds was made on a usable connection, and leaves it so. -/
theorem View.list_ok {V : View} {place : Place} {usable usable' : Bool} {items : List FtpFile}
    (h : V.list place usable = (.ok items, usable')) : usable = true ∧ usable' = true := by
  cases usable with
  | false => cases h
  | true =>
    obtain ⟨hr, hk⟩ := Prod.mk.inj h
    exact ⟨rfl, hk.symm.trans (V.kept hr)⟩

namespace Shows

variable {W : Type} {M : Machine ftp W} {Ready : Bool → W → Prop} {C : Client} {V : View}
  (hC : Shows M Ready C V)
include hC

theorem ancestorLoop (n : Nat) {path : Path} (h : Accepted path) :
    Follows M Ready (C.ancestorLoop n path) (V.absentAbove n (placeOf path)) Except.ok := by
  induction n generalizing path with
  | zero => exact follows_pure (f := Except.ok) false
  | succ n ih =>
    unfold Client.ancestorLoop
    cases hp : path.parent with
    | none =>
      rw [(placeOf_nil h).mpr hp]
      exact follows_pure (f := Except.ok) false
    | some parent =>
      have hpar := (h.parent hp).1
      obtain ⟨name, hn⟩ := placeOf_parent h hp
      simp only [remotePath_ok hpar]
      rw [hn]
      refine Follows.seq (hC.list hpar) fun r hr => ?_
      cases r with
      | ok items =>
        have hany := any_listed hpar h hn (View.list_named hr)
        dsimp only [Except.map]
        rw [hany]
        exact follows_pure (f := Except.ok) _
      | error error => exact Follows.ite _ (ih hpar) (follows_pure (f := Except.ok) false)

theorem listingRefused {α β : Type} {path : Path} (h : Accepted path) (error : RemoteError) (f : β → α) :
    Follows M Ready (C.listingRefused path error) (V.refused (placeOf path) error) (Except.map f) := by
  unfold Client.listingRefused View.refused
  refine Follows.ite _ ?_ (follows_error f error)
  refine Follows.seq (hC.ancestorLoop 8 h) fun b _ => ?_
  cases b with
  | true => exact follows_error f _
  | false => exact follows_error f _

theorem statFuel (n : Nat) {path : Path} (h : Accepted path) (hn : path.names.length < n) :
    Follows M Ready (C.statFuel n path) (V.stat (placeOf path)) (Except.map (Found.entry path)) := by
  induction n generalizing path with
  | zero => omega
  | succ n ih =>
    cases hp : path.parent with
    | none =>
      rw [C.statFuel_root h (h.parent_none.mp hp), (placeOf_nil h).mpr hp]
      exact hC.root h
    | some parent =>
      obtain ⟨hpar, hnames⟩ := h.parent hp
      obtain ⟨name, hplace⟩ := placeOf_parent h hp
      have hlen : parent.names.length < n := by
        have := congrArg List.length hplace
        simp only [placeOf, List.length_reverse, List.length_cons] at this
        omega
      rw [C.statFuel_eq h hp, hplace]
      refine Follows.seq (hC.list hpar) fun r hr => ?_
      cases r with
      | error error => exact hC.listingRefused hpar error _
      | ok items =>
        have hitems := View.list_named hr
        have hfind : Follows M Ready (pure (Client.findEntry path (items.map (listedFile parent))))
            (pure (findItem name items)) (Except.map (Found.entry path)) := by
          rw [findEntry_listed hpar h hplace hitems hp]
          exact follows_pure (f := Except.map (Found.entry path)) _
        dsimp only [Except.map]
        rw [isOneFileNamed_listed hpar hitems, fileName_placeOf hpar]
        refine Follows.ite _ (Follows.seq (ih hpar hlen) fun r _ => ?_) hfind
        cases r with
        | ok found =>
          have hfile : (found.entry parent).isFile = found.isFile := by cases found <;> rfl
          dsimp only [Except.map]
          rw [hfile]
          exact Follows.ite _ (follows_error _ _) hfind
        | error error =>
          dsimp only [Except.map]
          split
          · exact hfind
          · exact follows_error _ error

/-- **`stat` finds what the view shows.** -/
theorem stat {path : Path} (h : Accepted path) :
    Follows M Ready (C.stat path) (V.stat (placeOf path)) (Except.map (Found.entry path)) :=
  hC.statFuel _ h (Nat.lt_succ_of_le (List.length_filterMap_le ..))

theorem statIsFile {path : Path} (h : Accepted path) :
    Follows M Ready (C.statIsFile path) (V.statIsFile (placeOf path)) id := by
  refine Follows.seq (hC.stat h) fun r _ => ?_
  cases r with
  | ok found =>
    have hfile : (found.entry path).isFile = found.isFile := by cases found <;> rfl
    dsimp only [Except.map]
    rw [hfile]
    exact follows_pure (f := id) _
  | error error => exact follows_pure (f := id) false

/-- **`list_dir` lists what the view shows.** -/
theorem listDir {path : Path} (h : Accepted path) :
    Follows M Ready (C.listDir path) (V.listDir (placeOf path))
      (Except.map (List.map (listedFile path))) := by
  rw [Client.listDir_eq C h]
  refine Follows.seq (hC.list h) fun r hr => ?_
  cases r with
  | error error => exact hC.listingRefused h error _
  | ok items =>
    have hitems := View.list_named hr
    have hdone : Follows M Ready (pure (.ok (items.map (listedFile path)))) (pure (.ok items))
        (Except.map (List.map (listedFile path))) := follows_ok _ items
    have hbad (e : RemoteError) : Follows M Ready (pure (.error e : RemoteResult (List File))) (pure (.error e))
        (Except.map (List.map (listedFile path))) := follows_error _ e
    dsimp only [Except.map]
    rw [isOneFileNamed_listed h hitems, fileName_placeOf h]
    by_cases hroot : placeOf path = []
    · rw [if_pos (h.same_root.mpr (List.reverse_eq_nil_iff.mp hroot)), if_pos hroot]
      exact hdone
    rw [if_neg fun hs => hroot (List.reverse_eq_nil_iff.mpr (h.same_root.mp hs)), if_neg hroot]
    cases hone : isOneFile (placeOf path).head? items with
    | true =>
      have hne : items.isEmpty = false := by
        cases items
        · cases hone
        · rfl
      simp only [Bool.true_or, if_true, List.isEmpty_map, hne, Bool.false_eq_true, if_false, pure_bind]
      refine Follows.seq (hC.statIsFile h) fun b _ => ?_
      cases b
      · exact hdone
      · exact hbad _
    | false =>
      simp only [Bool.false_or, Bool.false_eq_true, if_false, pure_bind, List.isEmpty_map]
      cases items.isEmpty with
      | true =>
        refine Follows.seq (hC.statIsFile h) fun b _ => ?_
        cases b
        · exact hdone
        · exact hbad _
      | false => exact hdone

theorem exists' {path : Path} (h : Accepted path) :
    Follows M Ready (C.exists' path) (V.exists' (placeOf path)) id := by
  refine Follows.seq (hC.stat h) fun r _ => ?_
  cases r with
  | ok found => exact follows_pure (f := id) _
  | error error => exact Follows.ite _ (follows_pure (f := id) _) (follows_pure (f := id) _)

end Shows

end RemotefsFtp.L3
