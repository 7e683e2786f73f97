import RemotefsFtp.L2Remote.ListingTotal
import RemotefsFtp.L2Remote.Wire

/-!
# Listed entries stay in their directory

`validate_list_child_name` and `remote_path` are separate validators
(`src/client/list.rs:314-334`, `src/client/path.rs:8-31`). Whatever bytes the
server sends and whatever the row parser makes of them, a name the first one
lets through gives a path the second one accepts, one level below the
directory.

Results:
* `validateListChildName_ok`: what a valid name looks like.
* **`listing_confined`**: every entry of a parsed listing is a direct child.
-/
namespace RemotefsFtp.L2

open L1 (Str Path)

/-! ## Names -/

theorem mem_bytes_of_mem {c : Char} {s : Str} (h : c ∈ s) (hc : c.toNat < 128) :
    UInt8.ofNat c.toNat ∈ s.bytes := by
  rw [Str.bytes, List.mem_flatMap]
  exact ⟨c, h, by rw [Str.bytes_ascii hc]; exact List.mem_singleton_self _⟩

/-- A name the client takes from a listing. -/
structure ChildName (name : Str) : Prop extends Path.IsName name where
  printable : hasAsciiControl name = false

theorem validateListChildName_ok {name : Str} {u : Unit}
    (h : validateListChildName name = .ok u) : ChildName name := by
  unfold validateListChildName at h
  split at h
  · rename_i hc
    obtain ⟨hnil, hdot, hdotdot, hctl, hsep, -, -⟩ := hc
    refine ⟨⟨hnil, hdot, hdotdot, fun hm => hsep ?_⟩, by simpa using hctl⟩
    exact List.any_eq_true.mpr ⟨_, mem_bytes_of_mem hm (by decide), by decide⟩
  · cases h

/-- A valid name passes. -/
theorem ChildName.validate {name : Str} (h : ChildName name) :
    validateListChildName name = .ok () := by
  have hsegs : name.splitOn '/' = [name] := List.splitOn_eq_singleton h.no_sep
  have hcomp : Path.components name = [.normal name] := by
    unfold Path.components
    split
    · rename_i r
      exact absurd (by simp) h.no_sep
    · rw [hsegs]
      split
      · rename_i hd
        exact absurd (List.cons.inj hd).1 h.ne_dot
      · simp [Path.body, h.toIsName.component]
  have hbyte : name.bytes.any (fun b => b.toNat = '/'.toNat) = false := by
    rw [List.any_eq_false]
    intro b hb hsl
    have hb47 : b.toNat = 47 := by simpa using hsl
    obtain ⟨c, hc, hbc⟩ := List.mem_flatMap.mp hb
    by_cases h128 : c.toNat < 128
    · rw [Str.bytes_ascii h128, List.mem_singleton] at hbc
      have hc47 : c.toNat = 47 := by
        rw [hbc, UInt8.toNat_ofNat'] at hb47
        omega
      obtain rfl : c = '/' := Char.ext (UInt32.toNat_inj.mp hc47)
      exact h.no_sep hc
    · have := Str.bytes_nonascii (c := c) (b := b) (by omega) hbc
      omega
  unfold validateListChildName
  rw [if_pos]
  exact ⟨h.ne_nil, h.ne_dot, h.ne_dotdot, by simp [h.printable], by rw [hbyte]; simp, by simp [hcomp],
    by simp [hcomp, L1.Component.name?]⟩

example : validateListChildName "a b".toList = .ok () := by decide
example : (validateListChildName "..".toList).isOk = false := by decide

/-! ## Rows -/

section
variable {α β : Type}

theorem run_bind_ok {x : Parse α} {f : α → Parse β} {b : β} :
    (x >>= f).run = some (.ok b) ↔ ∃ a, x.run = some (.ok a) ∧ (f a).run = some (.ok b) := by
  rw [ExceptT.run_bind]
  constructor
  · intro h
    cases hx : x.run with
    | none => rw [hx] at h; cases h
    | some r =>
      rw [hx] at h
      cases r with
      | error e => cases h
      | ok a => exact ⟨a, rfl, h⟩
  · rintro ⟨a, hx, hf⟩
    rw [hx]
    exact hf

theorem run_slicing_ok {o : Option α} {a : α} :
    (slicing o).run = some (.ok a) ↔ o = some a := by
  cases o with
  | none => exact ⟨nofun, nofun⟩
  | some b => exact ⟨fun h => by cases h; rfl, fun h => by cases h; rfl⟩

theorem run_rejectIf_ok {c : Bool} {text : String} :
    (rejectIf c text).run = some (.ok ()) ↔ c = false := by
  cases c with
  | true => exact ⟨nofun, nofun⟩
  | false => exact ⟨fun _ => rfl, fun _ => rfl⟩

theorem run_rejectIf_bind {c : Bool} {text : String} {f : Unit → Parse α} {a : α} :
    (rejectIf c text >>= f).run = some (.ok a) ↔ c = false ∧ (f ()).run = some (.ok a) := by
  cases c with
  | true => exact ⟨nofun, nofun⟩
  | false => exact ⟨fun h => ⟨rfl, h⟩, And.right⟩

theorem run_slicing_bind {o : Option α} {f : α → Parse β} {b : β} :
    (slicing o >>= f).run = some (.ok b) ↔ ∃ a, o = some a ∧ (f a).run = some (.ok b) := by
  simp only [run_bind_ok, run_slicing_ok]

/-- Every result comes from an element. -/
theorem run_mapM_ok {f : α → Parse β} {l : List α} {bs : List β}
    (h : (l.mapM f).run = some (.ok bs)) {b : β} (hb : b ∈ bs) : ∃ a ∈ l, (f a).run = some (.ok b) := by
  induction l generalizing bs with
  | nil =>
    cases h
    cases hb
  | cons a l ih =>
    rw [List.mapM_cons] at h
    obtain ⟨b', ha, h⟩ := run_bind_ok.mp h
    obtain ⟨bs', hl, h⟩ := run_bind_ok.mp h
    cases h
    rcases List.mem_cons.mp hb with rfl | hb
    · exact ⟨a, by simp, ha⟩
    · obtain ⟨a', ha', hr⟩ := ih hl hb
      exact ⟨a', by simp [ha'], hr⟩

end

/-- An entry is a row whose parsed name is valid. -/
theorem parseListLine_some {P : ListParser} {path : Path} {line : Str} {e : File}
    (h : (parseListLine P path line).run = some (.ok (some e))) :
    ∃ f, parseListEntry P line = some (.ok f) ∧ ChildName f.name ∧ e = listedFile path f := by
  obtain ⟨_, -, h⟩ := run_bind_ok.mp h
  obtain ⟨r, hr, h⟩ := run_bind_ok.mp h
  cases r with
  | error err => cases h
  | ok f =>
    dsimp only at h
    split at h
    · cases h
    · split at h
      · cases h
      · rename_i hv
        cases h
        exact ⟨f, run_slicing hr, validateListChildName_ok hv, rfl⟩

/-- Every entry of a listing is one of its rows. -/
theorem parseListLines_mem {P : ListParser} {path : Path} {lines : List Str} {entries : List File}
    (h : (parseListLines P path lines).run = some (.ok entries)) {e : File} (he : e ∈ entries) :
    ∃ line ∈ lines, ∃ f, parseListEntry P line = some (.ok f) ∧ ChildName f.name ∧
      e = listedFile path f := by
  obtain ⟨rows, hrows, h⟩ := run_bind_ok.mp h
  cases h
  obtain ⟨e', hm, rfl⟩ : ∃ e', e' ∈ rows ∧ e' = some e := by simpa using he
  obtain ⟨line, hline, hrun⟩ := run_mapM_ok hrows hm
  refine ⟨line, ?_, parseListLine_some hrun⟩
  cases lines with
  | nil => exact hline
  | cons l rest =>
    dsimp only at hline
    split at hline
    · exact List.mem_cons_of_mem _ hline
    · exact hline

/-! ## Entries -/

/-- `e` is the child `name` of `dir`. -/
structure Confined (dir : Path) (name : Str) (e : File) : Prop where
  parent : ∃ q, e.path.parent = some q ∧ q.components = dir.components
  last : e.path.components = dir.components ++ [.normal name]
  fileName : e.path.fileName = some name
  valid : ChildName name
  wire : remotePath e.path = .ok e.path

theorem confined_of_child {dir : Path} (hd : Accepted dir) {f : FtpFile} (hn : ChildName f.name) :
    Confined dir f.name (listedFile dir f) := by
  obtain ⟨hacc, hcomp⟩ := hd.join hn.toIsName hn.printable
  refine ⟨hd.parent_join hn.toIsName hn.printable, hcomp, ?_, hn, remotePath_ok hacc⟩
  show Path.fileName (dir.join f.name) = some f.name
  rw [Path.fileName, hcomp, List.getLast?_concat]

/-- **Listing confinement**: whatever the server sends and the row parser
returns, every entry of a listing is a direct child of the directory under
its parsed name, and its path is a wire path. -/
theorem listing_confined (P : ListParser) {dir : Path} {remote : Str} (hd : remotePath dir = .ok remote)
    {bytes : List UInt8} {lines : List Str} (_hb : decodeListBytes bytes = .ok lines)
    {entries : List File} (hp : (parseListLines P dir lines).run = some (.ok entries)) :
    ∀ e ∈ entries, ∃ line ∈ lines, ∃ f, parseListEntry P line = some (.ok f) ∧
      Confined dir f.name e := by
  intro e he
  obtain ⟨line, hline, f, hf, hn, rfl⟩ := parseListLines_mem hp he
  exact ⟨line, hline, f, hf, confined_of_child (accepted_iff.mp hd).1 hn⟩

/-- A parsed row with nothing but a name and a type. -/
def plainFile (name : Str) (isDirectory : Bool) : FtpFile where
  name := name
  isSymlink := false
  isDirectory := isDirectory
  size := 0
  modified := 0
  gid := none
  uid := none
  symlink := none
  canRead _ := false
  canWrite _ := false
  canExecute _ := false

/-- Takes the type and the name of a row with nine fields. -/
def plainParser : ListParser where
  parsePosix line :=
    .ok (plainFile (line.reverse.takeWhile (· ≠ ' ')).reverse (line.head? = some 'd'))
  parseDos _ := .error .syntaxError

def plainRow : Str := "---------- 1 0 0 0 Jan 1 1970 a".toList

theorem listing_confined_row :
    ∃ line ∈ [plainRow], ∃ f, parseListEntry plainParser line = some (.ok f) ∧
      Confined "/d".toList f.name (listedFile "/d".toList (plainFile ['a'] false)) :=
  listing_confined plainParser (rfl : remotePath "/d".toList = .ok "/d".toList)
    (rfl : decodeListBytes plainRow.bytes = .ok [plainRow]) rfl _ (List.mem_singleton_self _)

end RemotefsFtp.L2
