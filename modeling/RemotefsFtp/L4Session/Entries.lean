import RemotefsFtp.L4Session.Exact

/-!
# Listed entries are looked up again (`src/client/sync.rs:801-820, 853-877`)

`list_dir` and `stat` read the same listing of a directory. They differ where
it may be the row of a regular file: `list_dir` keeps the entries unless `stat`
of the directory finds a file, whatever else it tells, `stat` of the entry only
if it finds something else or is forbidden to look.

Results:
* **`listed_found_iff`**: when every entry of a listing is found again, and that
  it is then the first entry of the listing with its path.
-/
namespace RemotefsFtp.L4

open L1 (Str Path Component)
open L2 L3
open Core (Prog)

/-! ## On a view -/

section
variable {V : View} {place : Place} {items : List FtpFile} {usable : Bool} {r : RemoteResult Found}

theorem isOneFile_none (items : List FtpFile) : isOneFile none items = false := by
  unfold isOneFile
  split <;> rfl

theorem refused_not_ok {α : Type} {e : RemoteError} {u : Bool} {a : α} {u' : Bool} :
    (V.refused place e : Look (RemoteResult α)) u ≠ (.ok a, u') := by
  intro h
  unfold View.refused at h
  split at h
  · cases ha : V.absentAbove 8 place u with
    | mk b v =>
      rw [look_bind ha] at h
      cases b <;> cases h
  · cases h

theorem statIsFile_eq (h : V.stat place true = (r, usable)) :
    V.statIsFile place true = (r.toOption.any Found.isFile, usable) := by
  rw [View.statIsFile, look_bind h]
  cases r <;> rfl

/-- What a listing that is returned rests on. -/
structure Returned (V : View) (place : Place) (items : List FtpFile) (usable : Bool) : Prop where
  list : V.list place true = (.ok items, true)
  one : isOneFile place.head? items = true →
    usable = (V.stat place true).2 ∧ ∀ found, (V.stat place true).1 = .ok found → found.isFile = false
  several : isOneFile place.head? items = false → items ≠ [] → usable = true

theorem listDir_lists (h : V.listDir place true = (.ok items, usable)) : Returned V place items usable := by
  cases hl : V.list place true with
  | mk r u =>
    rw [View.listDir, look_bind hl] at h
    cases r with
    | error e => exact absurd h refused_not_ok
    | ok items' =>
      obtain ⟨-, rfl⟩ := View.list_ok hl
      dsimp only at h
      by_cases hroot : place = []
      · rw [if_pos hroot] at h
        cases h
        refine ⟨hl, fun hone => ?_, fun _ _ => rfl⟩
        rw [hroot, List.head?_nil, isOneFile_none] at hone
        cases hone
      rw [if_neg hroot] at h
      cases hs : V.stat place true with
      | mk found v =>
        cases hask : isOneFile place.head? items' || items'.isEmpty with
        | false =>
          rw [hask, if_neg Bool.false_ne_true] at h
          cases h
          rw [Bool.or_eq_false_iff] at hask
          refine ⟨hl, fun hone => ?_, fun _ _ => rfl⟩
          rw [hask.1] at hone
          cases hone
        | true =>
          rw [hask, if_pos rfl, look_bind (statIsFile_eq hs)] at h
          split at h
          · cases h
          · rename_i hfile
            cases h
            refine ⟨hl, fun _ => ⟨by rw [hs], fun f hf => ?_⟩, fun hone hne => ?_⟩
            · rw [hs] at hf
              cases hf
              exact Bool.eq_false_iff.mpr hfile
            · rw [hone, Bool.false_or, List.isEmpty_iff] at hask
              exact absurd hask hne

/-- What `stat` puts up with when it asks for the parent. -/
def tolerated : RemoteResult Found → Bool
  | .ok _ => true
  | .error e => e.kind = .permissionDenied

theorem stat_unusable (V : View) (place : Place) (name : Str) : ∃ e, (V.stat (name :: place) false).1 = .error e := by
  refine ⟨connectionUnusable, ?_⟩
  have hl : V.list place false = (.error connectionUnusable, false) := rfl
  rw [View.stat, look_bind hl]
  rfl

/-- A child is looked up in the listing the entries came from. -/
theorem stat_child (h : Returned V place items true) (name : Str) : (V.stat (name :: place) true).1 =
    if isOneFile place.head? items && !tolerated (V.stat place true).1 then (V.stat place true).1
    else findItem name items := by
  rw [View.stat, look_bind h.list]
  dsimp only
  cases hone : isOneFile place.head? items with
  | false => rfl
  | true =>
    obtain ⟨-, hfile⟩ := h.one hone
    cases hs : V.stat place true with
    | mk r u =>
      rw [hs] at hfile
      rw [if_pos rfl, look_bind hs]
      cases r with
      | ok found =>
        dsimp only
        rw [hfile found rfl]
        rfl
      | error e =>
        by_cases hk : e.kind = .permissionDenied
        · simp only [tolerated, hk]
          rfl
        · simp only [tolerated, hk]
          rfl

theorem findItem_mem {f : FtpFile} (hf : f ∈ items) : ∃ g, findItem f.name items = .ok (.item g) ∧
    items.find? (fun g => g.name = f.name) = some g := by
  cases hfind : items.find? (fun g => g.name = f.name) with
  | none =>
    have := List.find?_eq_none.mp hfind f hf
    simp at this
  | some g => exact ⟨g, by rw [findItem, hfind], rfl⟩

/-- **Entries on a view.** Whether an entry is found again does not depend on
the entry. -/
theorem stat_entry (h : Returned V place items usable) {f : FtpFile} (hf : f ∈ items) :
    (∃ found, (V.stat (f.name :: place) usable).1 = .ok found) ↔
      (isOneFile place.head? items = true → usable = true ∧ tolerated (V.stat place true).1 = true) := by
  obtain ⟨g, hg, -⟩ := findItem_mem hf
  cases usable with
  | false =>
    obtain ⟨e, he⟩ := stat_unusable V place f.name
    have hone : isOneFile place.head? items = true := by
      by_contra hone
      cases h.several (Bool.eq_false_iff.mpr hone) (List.ne_nil_of_mem hf)
    rw [he]
    simp [hone]
  | true =>
    rw [stat_child h]
    cases isOneFile place.head? items with
    | false => simp [hg]
    | true =>
      cases hs : (V.stat place true).1 with
      | ok found => simp [tolerated, hg]
      | error e => cases ht : tolerated (.error e) <;> simp [hg]

theorem stat_entry_found (h : Returned V place items usable) {f : FtpFile} (hf : f ∈ items) {found : Found}
    (hs : (V.stat (f.name :: place) usable).1 = .ok found) :
    ∃ g, found = .item g ∧ items.find? (fun g => g.name = f.name) = some g := by
  obtain ⟨g, hg, hfind⟩ := findItem_mem hf
  refine ⟨g, ?_, hfind⟩
  cases usable with
  | false =>
    obtain ⟨e, he⟩ := stat_unusable V place f.name
    rw [he] at hs
    cases hs
  | true =>
    rw [stat_child h] at hs
    split at hs
    · rename_i hc
      rw [hs] at hc
      simp [tolerated] at hc
    · rw [hg] at hs
      cases hs
      rfl

end

/-! ## On a client -/

/-- Equal files; paths are compared by their components. -/
structure SameFile (a b : File) : Prop where
  path : a.path.same b.path = true
  metadata : { a.metadata with symlink := none } = { b.metadata with symlink := none }
  symlink : a.metadata.symlink.map Path.components = b.metadata.symlink.map Path.components

theorem absolutize_components {p q : Path} (hp : Accepted p) (hq : Accepted q) (h : p.components = q.components)
    (target : Path) : (Path.absolutize p target).components = (Path.absolutize q target).components := by
  obtain ⟨r, rfl⟩ := hp.root
  obtain ⟨r', rfl⟩ := hq.root
  unfold Path.absolutize
  cases habs : target.isAbsolute with
  | true => rfl
  | false =>
    rw [if_neg Bool.false_ne_true, if_neg Bool.false_ne_true, (Path.components_join_relative habs).1,
      (Path.components_join_relative habs).1, h]

/-- The same item of the same directory, whatever its spelling. -/
theorem listedFile_same_dir {p q : Path} (hp : Accepted p) (hq : Accepted q) (h : p.components = q.components)
    {f : FtpFile} (hf : ChildName f.name) : SameFile (listedFile p f) (listedFile q f) where
  path := by
    rw [Path.same_iff]
    show (p.join f.name).components = (q.join f.name).components
    rw [(hp.join hf.toIsName hf.printable).2, (hq.join hf.toIsName hf.printable).2, h]
  metadata := rfl
  symlink := by
    show (f.symlink.map p.absolutize).map _ = (f.symlink.map q.absolutize).map _
    rw [Option.map_map, Option.map_map]
    exact congrArg (fun g => f.symlink.map g) (funext fun t => absolutize_components hp hq h t)

/-- Both lookups of an entry find it: it is the first entry of the listing with
its path. -/
structure FoundAgain (A : Listings) (x : Session (List Str)) (C : Client) (entries : List File) (entry : File) :
    Prop where
  stat : Gives A x (C.stat entry.path) fun r => ∃ found first, r = .ok found ∧
    entries.find? (fun e => e.path.same entry.path) = some first ∧ SameFile found first
  exists' : Gives A x (C.exists' entry.path) fun r => r = .ok true

section
variable {X : Ext} {A : Listings} {path : Path} {remote : Str} {conn : Conn} {hasBuilder : Bool}
  {x y : Session (List Str)} {C : Client} {entries : List File}

section
variable {Ready : Bool → Session (List Str) → Prop} {V : View} (hs : Shows (alone (fixed A)) Ready C V)
  (hp : Accepted path) {items : List FtpFile} {usable : Bool} (hret : Returned V (placeOf path) items usable)
include hs hp hret

/-- An entry is found again if the view finds it. -/
theorem found_again_iff (hy : Ready usable y) {f : FtpFile} (hf : f ∈ items) :
    FoundAgain A y C (items.map (listedFile path)) (listedFile path f) ↔
      ∃ found, (V.stat (f.name :: placeOf path) usable).1 = .ok found := by
  have hnamed : ∀ g ∈ items, ChildName g.name := View.list_named ⟨true, by rw [hret.list]⟩
  have hacc := listedFile_accepted hp (hnamed f hf)
  have hplace : placeOf (listedFile path f).path = f.name :: placeOf path := by
    rw [placeOf, listedFile_names hp (hnamed f hf), List.reverse_append]
    rfl
  have hstat := gives_follows (hs.stat hacc) hy
  have hexists := gives_follows (hs.exists' hacc) hy
  rw [hplace] at hstat hexists
  constructor
  · intro h
    obtain ⟨found, -, hok, -⟩ := hstat.of_eq.mp h.stat
    cases hr : (V.stat (f.name :: placeOf path) usable).1 with
    | ok found => exact ⟨found, rfl⟩
    | error e =>
      rw [hr] at hok
      cases hok
  · rintro ⟨found, hfound⟩
    obtain ⟨g, rfl, hfind⟩ := stat_entry_found hret hf hfound
    refine ⟨hstat.of_eq.mpr ?_, hexists.of_eq.mpr ?_⟩
    · have hfirst := find_listed hp hacc hplace hnamed
      rw [hfind] at hfirst
      obtain ⟨q, hq, hcomp⟩ := hp.parent_join (hnamed f hf).toIsName (hnamed f hf).printable
      refine ⟨_, _, by rw [hfound]; rfl, hfirst, ?_⟩
      show SameFile (listedFile ((path.join f.name).parent.getD ['/']) g) (listedFile path g)
      rw [hq, Option.getD_some]
      exact listedFile_same_dir (hacc.parent hq).1 hp hcomp (hnamed g (List.mem_of_find?_eq_some hfind))
    · cases hr : V.stat (f.name :: placeOf path) usable with
      | mk r u =>
        rw [hr] at hfound
        cases hfound
        rw [View.exists', look_bind hr]
        rfl

end

/-- **When listed entries are found again.** On a server that does not change,
every entry `list_dir` returned is found by `stat` and `exists`, as the first
entry of the listing with its path, unless the listing is one regular file with
the name of the directory; then exactly if the connection outlived the lookup of
the directory and that lookup succeeded or was forbidden. -/
theorem listed_found_iff (h : remotePath path = .ok remote) (hC : Resting X conn hasBuilder x C)
    (hlist : Prog.eval (alone (fixed A)) (C.listDir path) x = some (.ok entries, y)) :
    (∀ entry ∈ entries, FoundAgain A y C entries entry) ↔
      (isOneFileNamed path.fileName entries = true → y.usable = true ∧
        Gives A x (C.stat path) fun r => (∃ entry, r = .ok entry) ∨ ∃ e, r = .error e ∧ e.kind = .permissionDenied) := by
  have hp := (accepted_iff.mp h).1
  obtain ⟨Ready, hs, hx, husable⟩ := hC.shows A
  have hstat := gives_follows (hs.stat hp) hx
  obtain ⟨a, w, he, ha, hy⟩ := hs.listDir hp true x hx
  rw [hlist] at he
  cases he
  cases hl : (viewOf X.listParser hasBuilder A).listDir (placeOf path) true with
  | mk r usable =>
    rw [hl] at ha hy
    cases r with
    | error e => cases ha
    | ok items =>
      cases ha
      have hret := listDir_lists hl
      have hnamed : ∀ g ∈ items, ChildName g.name := View.list_named ⟨true, by rw [hret.list]⟩
      have htol : (Gives A x (C.stat path) fun r => (∃ entry, r = .ok entry) ∨
          ∃ e, r = .error e ∧ e.kind = .permissionDenied) ↔
          tolerated ((viewOf X.listParser hasBuilder A).stat (placeOf path) true).1 = true := by
        rw [hstat.of_eq]
        cases ((viewOf X.listParser hasBuilder A).stat (placeOf path) true).1 with
        | ok found => simp [Except.map, tolerated]
        | error e =>
          constructor
          · rintro (⟨entry, hentry⟩ | ⟨e', herr, hk⟩)
            · cases hentry
            · cases herr
              exact decide_eq_true hk
          · exact fun ht => .inr ⟨e, rfl, of_decide_eq_true ht⟩
      rw [htol, husable usable y hy, isOneFileNamed_listed hp hnamed, fileName_placeOf hp]
      rw [List.forall_mem_map]
      constructor
      · intro hall hone
        cases items with
        | nil => cases hone
        | cons f rest =>
          have hf := List.mem_cons_self (a := f) (l := rest)
          exact (stat_entry hret hf).mp ((found_again_iff hs hp hret hy hf).mp (hall f hf)) hone
      · intro hcond f hf
        exact (found_again_iff hs hp hret hy hf).mpr ((stat_entry hret hf).mpr hcond)

end

/-- The directory `/d/a` is listed as a file `a`, and nothing else is listed. -/
def hiddenRow : Listings := fun names =>
  if names = [['d'], ['a']] then .sent (.ok (listingBytes [.row fileRow false])) (.ok ())
  else .refused false (.unexpectedResponse ⟨.fileUnavailable, []⟩)

theorem hidden_lists : (viewOf rowExt.listParser false hiddenRow).listDir [['a'], ['d']] true =
    (.ok [plainFile ['a'] false], true) := by rfl

/-- A listing that may be the row of a file, in a directory that cannot be
looked up. -/
theorem listed_found_iff_nested : ∃ entries y,
    Prog.eval (alone (fixed hiddenRow)) ((FtpFs.client rowExt).listDir "/d/a".toList) atRest = some (.ok entries, y) ∧
      isOneFileNamed (Path.fileName "/d/a".toList) entries = true ∧
      ((∀ entry ∈ entries, FoundAgain hiddenRow y (FtpFs.client rowExt) entries entry) ↔
        (isOneFileNamed (Path.fileName "/d/a".toList) entries = true → y.usable = true ∧
          Gives hiddenRow atRest ((FtpFs.client rowExt).stat "/d/a".toList) fun r =>
            (∃ entry, r = .ok entry) ∨ ∃ e, r = .error e ∧ e.kind = .permissionDenied)) := by
  have hp : Accepted "/d/a".toList := (accepted_iff.mp (rfl : remotePath "/d/a".toList = .ok "/d/a".toList)).1
  obtain ⟨_, y, he, rfl⟩ := (resting_atRest rowExt).listDir hiddenRow hp
  have hplace : placeOf "/d/a".toList = [['a'], ['d']] := rfl
  rw [hplace, hidden_lists] at he
  exact ⟨_, y, he, rfl,
    listed_found_iff (rfl : remotePath "/d/a".toList = .ok "/d/a".toList) (resting_atRest rowExt) he⟩

/-- The directory `/a` is listed as a file `a`, and the root is not listed. -/
def lonelyRow : Listings := fun names =>
  if names = [['a']] then .sent (.ok (listingBytes [.row fileRow false])) (.ok ())
  else .refused false (.unexpectedResponse ⟨.badCommand, []⟩)

theorem lonely_lists : (viewOf rowExt.listParser false lonelyRow).listDir [['a']] true =
    (.ok [plainFile ['a'] false], true) := by rfl

theorem lonely_stat : (viewOf rowExt.listParser false lonelyRow).stat [['a'], ['a']] true =
    (.error (ftpError (.unexpectedResponse ⟨.badCommand, []⟩)), true) := by rfl

/-- An entry of a listing that is not found again. -/
theorem listed_not_found : ∃ entries y,
    Prog.eval (alone (fixed lonelyRow)) ((FtpFs.client rowExt).listDir "/a".toList) atRest = some (.ok entries, y) ∧
      ∃ entry ∈ entries, ¬ Gives lonelyRow y ((FtpFs.client rowExt).stat entry.path) fun r => ∃ found, r = .ok found := by
  have hp : Accepted "/a".toList := (accepted_iff.mp (rfl : remotePath "/a".toList = .ok "/a".toList)).1
  have hp' : Accepted "/a/a".toList := (accepted_iff.mp (rfl : remotePath "/a/a".toList = .ok "/a/a".toList)).1
  obtain ⟨Ready, hs, hx, -⟩ := (resting_atRest rowExt).shows lonelyRow
  obtain ⟨_, y, he, rfl, hy⟩ := hs.listDir hp true atRest hx
  have hplace : placeOf "/a".toList = [['a']] := rfl
  have hplace' : placeOf "/a/a".toList = [['a'], ['a']] := rfl
  rw [hplace, lonely_lists] at he hy
  refine ⟨_, y, he, _, List.mem_singleton_self _, ?_⟩
  have hstat := gives_follows (hs.stat hp') hy
  rw [hplace', lonely_stat] at hstat
  show ¬ Gives lonelyRow y ((FtpFs.client rowExt).stat "/a/a".toList) _
  rw [hstat.of_eq]
  simp [Except.map]

end RemotefsFtp.L4
