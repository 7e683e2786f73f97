import Mathlib.Data.List.Forall2
import RemotefsFtp.L2Remote.Confined

/-!
# Whole listings (`src/client/list.rs`)

`readListing` is what the clients make of `LIST` data: decode, split into
lines, parse each row.

Results:
* **`listing_never_panics`**: any data gives entries or an error.
* **`listing_complete`**: rows with any line ends and blank lines between them
  are a listing if each row is accepted on its own, and it holds the entries of
  the rows, in order; one bad row makes it an error.
-/
namespace RemotefsFtp.L2

open L1 (Str Path)

/-- `decode_list_bytes(bytes).map_err(ftp_error)?` and `parse_list_lines`. -/
def readListing (P : ListParser) (path : Path) (bytes : List UInt8) : Option (RemoteResult (List File)) :=
  match decodeListBytes bytes with
  | .error err => some (.error (ftpError err))
  | .ok lines => (parseListLines P path lines).run

/-- **No data panics the client**: each slice, index and `replace_range` on the
way is in bounds and on character boundaries. -/
theorem listing_never_panics (P : ListParser) (path : Path) (bytes : List UInt8) :
    ∃ r, readListing P path bytes = some r := by
  unfold readListing
  split
  · exact ⟨_, rfl⟩
  · exact parseListLines_total P path _

/-! ## Lines -/

/-- A row as a server sends it. -/
structure Row where
  text : Str
  ne : text ≠ []
  noLf : '\n' ∉ text
  noCr : text.getLast? ≠ some '\r'

/-- A row or an empty line, with its line end. -/
inductive Piece where
  | row (row : Row) (crlf : Bool)
  | blank (crlf : Bool)

def lineEnd (crlf : Bool) : Str := if crlf then ['\r', '\n'] else ['\n']

def Piece.text : Piece → Str
  | row r crlf => r.text ++ lineEnd crlf
  | blank crlf => lineEnd crlf

def Piece.row? : Piece → Option Str
  | row r _ => some r.text
  | blank _ => none

def listingBytes (ps : List Piece) : List UInt8 := Str.bytes (ps.flatMap Piece.text)

theorem fromUtf8_bytes (s : Str) : Str.fromUtf8 s.bytes = some s := by
  have h : s.utf8Encode.utf8Decode? = some s.toArray := List.utf8Decode?_utf8Encode
  rw [Str.fromUtf8]
  show Option.map Array.toList s.utf8Encode.utf8Decode? = some s
  rw [h]
  rfl

theorem linesFrom_append {l : Str} (h : '\n' ∉ l) (cur rest : Str) :
    Str.linesFrom cur (l ++ '\n' :: rest) = Str.stripCr (cur ++ l) :: Str.linesFrom [] rest := by
  induction l generalizing cur with
  | nil => rw [List.nil_append, Str.linesFrom, if_pos rfl, List.append_nil]
  | cons c l ih =>
    rw [List.mem_cons, not_or] at h
    rw [List.cons_append, Str.linesFrom, if_neg (Ne.symm h.1), ih h.2, List.append_assoc, List.singleton_append]

/-- A line end is cut off, whichever it is. -/
theorem lines_append {l : Str} (h : '\n' ∉ l) (hcr : l.getLast? ≠ some '\r') (crlf : Bool) (rest : Str) :
    Str.lines (l ++ lineEnd crlf ++ rest) = l :: Str.lines rest := by
  cases crlf with
  | false =>
    have := linesFrom_append h [] rest
    rw [List.nil_append, Str.stripCr, if_neg hcr] at this
    simpa [Str.lines, lineEnd] using this
  | true =>
    have hcr' : '\n' ∉ l ++ ['\r'] := by simpa using h
    have := linesFrom_append hcr' [] rest
    rw [List.nil_append, Str.stripCr, List.getLast?_concat, if_pos rfl, List.dropLast_concat] at this
    simpa [Str.lines, lineEnd] using this

theorem lines_pieces (ps : List Piece) :
    (Str.lines (ps.flatMap Piece.text)).filter (fun line => !line.isEmpty) = ps.filterMap Piece.row? := by
  induction ps with
  | nil => rfl
  | cons p ps ih =>
    cases p with
    | row r crlf =>
      rw [List.flatMap_cons, Piece.text, lines_append r.noLf r.noCr, List.filter_cons_of_pos (by simp [r.ne]), ih]
      rfl
    | blank crlf =>
      have := lines_append (l := []) (by simp) (by simp) crlf (ps.flatMap Piece.text)
      rw [List.nil_append] at this
      rw [List.flatMap_cons, Piece.text, this, List.filter_cons_of_neg (by simp), ih]
      rfl

theorem decode_pieces (ps : List Piece) :
    decodeListBytes (listingBytes ps) = .ok (ps.filterMap Piece.row?) := by
  rw [decodeListBytes, listingBytes, fromUtf8_bytes]
  exact congrArg _ (lines_pieces ps)

/-! ## Rows -/

/-- The rows that stand for entries. -/
def entryRows (rows : List Str) : List Str :=
  match rows with
  | row :: rest => if isTotalLine row then rest else rows
  | [] => []

/-- A row, whatever directory it is listed in. -/
def parseFileRow (P : ListParser) (line : Str) : Parse (Option FtpFile) := do
  rejectAmbiguousListName line
  match ← slicing (parseListEntry P line) with
  | .error err => throw (.withParse .protocolError err)
  | .ok f =>
    if f.name = ['.'] ∨ f.name = ['.', '.'] then
      return none
    else
      match validateListChildName f.name with
      | .error err => throw err
      | .ok () => return some f

/-- The directory only makes the path of an entry. -/
theorem parseListLine_eq (P : ListParser) (path : Path) (line : Str) :
    parseListLine P path line = Option.map (listedFile path) <$> parseFileRow P line := by
  unfold parseListLine parseFileRow
  simp only [map_bind]
  refine bind_congr fun _ => bind_congr fun r => ?_
  cases r with
  | error err => rfl
  | ok f =>
    dsimp only
    split
    · rfl
    · cases validateListChildName f.name <;> rfl

theorem mapM_map_right {α β γ : Type} (f : α → Parse β) (g : β → γ) (l : List α) :
    (l.mapM fun a => g <$> f a) = List.map g <$> l.mapM f := by
  induction l with
  | nil => rfl
  | cons a l ih => simp only [List.mapM_cons, ih, map_bind, bind_map_left, map_pure, List.map_cons]

theorem parseListLines_eq (P : ListParser) (path : Path) (lines : List Str) :
    parseListLines P path lines =
      (fun fs => (fs.filterMap id).map (listedFile path)) <$> (entryRows lines).mapM (parseFileRow P) := by
  have hrow : parseListLine P path = fun line => Option.map (listedFile path) <$> parseFileRow P line :=
    funext (parseListLine_eq P path)
  have hlines : parseListLines P path lines =
      (fun es => es.filterMap id) <$> (entryRows lines).mapM (parseListLine P path) := by
    cases lines <;> simp only [parseListLines, entryRows, map_eq_pure_bind]
  rw [hlines, hrow, mapM_map_right, Functor.map_map]
  refine congrArg (· <$> _) (funext fun fs => ?_)
  rw [List.filterMap_map, List.map_filterMap]
  rfl

/-- The items of `LIST` data, whatever directory it is a listing of. -/
def readRows (P : ListParser) (bytes : List UInt8) : RemoteResult (List FtpFile) :=
  match decodeListBytes bytes with
  | .error err => .error (ftpError err)
  | .ok lines =>
    match ((entryRows lines).mapM (parseFileRow P)).run with
    | none => .ok []
    | some r => r.map fun fs => fs.filterMap id

theorem rows_total (P : ListParser) (lines : List Str) : ∃ r, ((entryRows lines).mapM (parseFileRow P)).run = some r := by
  obtain ⟨r, hr⟩ := parseListLines_total P ['/'] lines
  rw [parseListLines_eq, ExceptT.run_map] at hr
  cases hm : ((entryRows lines).mapM (parseFileRow P)).run with
  | none =>
    rw [hm] at hr
    cases hr
  | some r => exact ⟨r, rfl⟩

/-- The type of an item's entry. -/
def FtpFile.fileType (f : FtpFile) : FileType :=
  if f.isSymlink then .symlink else if f.isDirectory then .directory else .file

/-- The entries of a listing are its items, joined to the directory. -/
theorem readListing_eq (P : ListParser) (path : Path) (bytes : List UInt8) :
    readListing P path bytes = some ((readRows P bytes).map fun fs => fs.map (listedFile path)) := by
  unfold readListing readRows
  cases hd : decodeListBytes bytes with
  | error err => rfl
  | ok lines =>
    obtain ⟨r, hr⟩ := rows_total P lines
    dsimp only
    rw [parseListLines_eq, ExceptT.run_map, hr]
    cases r <;> rfl

/-! ## Accepted rows -/

/-- A row that is accepted on its own: by the ambiguity checks, the row parser
and, unless it names `.` or `..`, the child-name check. -/
structure RowAccepted (P : ListParser) (row : Str) (f : FtpFile) : Prop where
  name : (rejectAmbiguousListName row).run = some (.ok ())
  parsed : parseListEntry P row = some (.ok f)
  child : f.name = ['.'] ∨ f.name = ['.', '.'] ∨ validateListChildName f.name = .ok ()

/-- `.` and `..` are no entries. -/
def isDots (f : FtpFile) : Bool := f.name = ['.'] ∨ f.name = ['.', '.']

theorem parseFileRow_ok {P : ListParser} {row : Str} {o : Option FtpFile} :
    (parseFileRow P row).run = some (.ok o) ↔
      ∃ f, RowAccepted P row f ∧ o = if isDots f then none else some f := by
  unfold parseFileRow
  rw [run_bind_ok]
  simp only [run_slicing_bind]
  constructor
  · rintro ⟨⟨⟩, hname, r, hr, h⟩
    cases r with
    | error err => cases h
    | ok f =>
      dsimp only at h
      by_cases hdots : f.name = ['.'] ∨ f.name = ['.', '.']
      · rw [if_pos hdots] at h
        cases h
        exact ⟨f, ⟨hname, hr, hdots.imp_right .inl⟩, by simp [isDots, hdots]⟩
      · rw [if_neg hdots] at h
        cases hv : validateListChildName f.name with
        | error err => rw [hv] at h; cases h
        | ok u =>
          rw [hv] at h
          cases h
          exact ⟨f, ⟨hname, hr, .inr (.inr hv)⟩, by simp [isDots, hdots]⟩
  · rintro ⟨f, hf, rfl⟩
    refine ⟨(), hf.name, _, hf.parsed, ?_⟩
    dsimp only
    by_cases hdots : f.name = ['.'] ∨ f.name = ['.', '.']
    · rw [if_pos hdots, if_pos (by simpa [isDots] using hdots)]
      rfl
    · rw [if_neg hdots, if_neg (by simpa [isDots] using hdots)]
      have hv : validateListChildName f.name = .ok () := by
        rcases hf.child with h1 | h1 | h1
        · exact absurd (.inl h1) hdots
        · exact absurd (.inr h1) hdots
        · exact h1
      rw [hv]
      rfl

theorem run_mapM_forall₂ {α β : Type} {f : α → Parse β} {l : List α} {bs : List β} :
    (l.mapM f).run = some (.ok bs) ↔ List.Forall₂ (fun a b => (f a).run = some (.ok b)) l bs := by
  induction l generalizing bs with
  | nil =>
    rw [List.forall₂_nil_left_iff]
    exact ⟨fun h => by cases h; rfl, fun h => by rw [h]; rfl⟩
  | cons a l ih =>
    rw [List.mapM_cons, run_bind_ok]
    simp only [run_bind_ok, ih, List.forall₂_cons_left_iff]
    constructor
    · rintro ⟨b, ha, bs', hl, h⟩
      cases h
      exact ⟨b, bs', ha, hl, rfl⟩
    · rintro ⟨b, bs', ha, hl, rfl⟩
      exact ⟨b, ha, bs', hl, rfl⟩

/-- What a row contributes. -/
def listed (f : FtpFile) : Option FtpFile := if isDots f then none else some f

theorem filterMap_listed (fs : List FtpFile) :
    (fs.map listed).filterMap id = fs.filter fun f => !isDots f := by
  induction fs with
  | nil => rfl
  | cons f fs ih =>
    rw [List.map_cons, listed]
    cases hd : isDots f with
    | true =>
      rw [if_pos rfl, List.filter_cons_of_neg (by simp [hd]), ← ih]
      rfl
    | false =>
      rw [if_neg Bool.false_ne_true, List.filter_cons_of_pos (by simp [hd]), ← ih]
      rfl

theorem rows_ok {P : ListParser} {rows : List Str} {os : List (Option FtpFile)} :
    (rows.mapM (parseFileRow P)).run = some (.ok os) ↔
      ∃ fs, List.Forall₂ (RowAccepted P) rows fs ∧ os = fs.map listed := by
  rw [run_mapM_forall₂]
  simp only [parseFileRow_ok]
  constructor
  · intro h
    induction h with
    | nil => exact ⟨[], .nil, rfl⟩
    | cons h _ ih =>
      obtain ⟨f, hf, rfl⟩ := h
      obtain ⟨fs, hfs, rfl⟩ := ih
      exact ⟨f :: fs, .cons hf hfs, rfl⟩
  · rintro ⟨fs, hfs, rfl⟩
    induction hfs with
    | nil => exact .nil
    | cons h _ ih => exact .cons ⟨_, h, rfl⟩ ih

theorem readRows_ok {P : ListParser} {bytes : List UInt8} {items : List FtpFile} :
    readRows P bytes = .ok items ↔ ∃ lines fs, decodeListBytes bytes = .ok lines ∧
      List.Forall₂ (RowAccepted P) (entryRows lines) fs ∧ items = fs.filter fun f => !isDots f := by
  unfold readRows
  cases decodeListBytes bytes with
  | error err => simp
  | ok lines =>
    obtain ⟨r, hr⟩ := rows_total P lines
    have hrows (os : List (Option FtpFile)) : ((entryRows lines).mapM (parseFileRow P)).run = some (.ok os) ↔
        ∃ fs, List.Forall₂ (RowAccepted P) (entryRows lines) fs ∧ os = fs.map listed := rows_ok
    dsimp only
    rw [hr] at hrows ⊢
    constructor
    · intro h
      cases r with
      | error e => cases h
      | ok os =>
        cases h
        obtain ⟨fs, hfs, rfl⟩ := (hrows os).mp rfl
        exact ⟨lines, fs, rfl, hfs, filterMap_listed fs⟩
    · rintro ⟨_, fs, ⟨⟩, hfs, rfl⟩
      cases (hrows (fs.map listed)).mpr ⟨fs, hfs, rfl⟩
      exact congrArg Except.ok (filterMap_listed fs)

/-- Items have names that are one component of a path. -/
theorem readRows_named {P : ListParser} {bytes : List UInt8} {items : List FtpFile}
    (h : readRows P bytes = .ok items) : ∀ f ∈ items, ChildName f.name := by
  obtain ⟨lines, fs, -, hfs, rfl⟩ := readRows_ok.mp h
  intro f hf
  obtain ⟨hf, hdots⟩ := List.mem_filter.mp hf
  obtain ⟨i, hi, rfl⟩ := List.getElem_of_mem hf
  have hrow := hfs.get (by rw [hfs.length_eq]; exact hi) hi
  simp only [isDots, Bool.not_eq_true', decide_eq_false_iff_not, not_or] at hdots
  rcases hrow.child with h1 | h1 | h1
  · exact absurd h1 hdots.1
  · exact absurd h1 hdots.2
  · exact validateListChildName_ok h1

/-- The entries of a listing are those of its rows. -/
theorem parseListLines_ok {P : ListParser} {path : Path} {lines : List Str} {entries : List File} :
    (parseListLines P path lines).run = some (.ok entries) ↔
      ∃ fs, List.Forall₂ (RowAccepted P) (entryRows lines) fs ∧
        entries = (fs.filter fun f => !isDots f).map (listedFile path) := by
  rw [parseListLines_eq, map_eq_pure_bind, run_bind_ok]
  simp only [rows_ok]
  constructor
  · rintro ⟨os, ⟨fs, hfs, rfl⟩, h⟩
    cases h
    exact ⟨fs, hfs, by rw [filterMap_listed]⟩
  · rintro ⟨fs, hfs, rfl⟩
    exact ⟨_, ⟨fs, hfs, rfl⟩, by rw [filterMap_listed]; rfl⟩

theorem forall₂_exists {α β : Type} {R : α → β → Prop} {l : List α} :
    (∃ m, List.Forall₂ R l m) ↔ ∀ a ∈ l, ∃ b, R a b := by
  constructor
  · rintro ⟨m, hm⟩
    induction hm with
    | nil => exact nofun
    | cons hr _ ih =>
      intro a ha
      rcases List.mem_cons.mp ha with rfl | ha
      · exact ⟨_, hr⟩
      · exact ih a ha
  · intro h
    induction l with
    | nil => exact ⟨[], .nil⟩
    | cons a l ih =>
      obtain ⟨b, hb⟩ := h a (List.mem_cons_self ..)
      obtain ⟨m, hm⟩ := ih fun x hx => h x (List.mem_cons_of_mem _ hx)
      exact ⟨b :: m, .cons hb hm⟩

/-- **Listings are complete and all-or-nothing.** Whatever ends its lines and
however many are empty, a listing is read if every row but a leading block
count is accepted on its own; then its entries are those of the rows, in order,
without `.` and `..`; otherwise it is an error. -/
theorem listing_complete (P : ListParser) (path : Path) (ps : List Piece) :
    let rows := entryRows (ps.filterMap Piece.row?)
    ((∃ entries, readListing P path (listingBytes ps) = some (.ok entries)) ↔
      ∀ row ∈ rows, ∃ f, RowAccepted P row f) ∧
    (∀ entries, readListing P path (listingBytes ps) = some (.ok entries) →
      ∃ fs, List.Forall₂ (RowAccepted P) rows fs ∧
        entries = (fs.filter fun f => !isDots f).map (listedFile path)) ∧
    ((∃ row ∈ rows, ¬ ∃ f, RowAccepted P row f) →
      ∃ err, readListing P path (listingBytes ps) = some (.error err)) := by
  intro rows
  have hread : readListing P path (listingBytes ps) = (parseListLines P path (ps.filterMap Piece.row?)).run := by
    rw [readListing, decode_pieces]
  have hiff : (∃ entries, readListing P path (listingBytes ps) = some (.ok entries)) ↔
      ∀ row ∈ rows, ∃ f, RowAccepted P row f := by
    rw [hread, ← forall₂_exists]
    simp only [parseListLines_ok]
    exact ⟨fun ⟨_, fs, hfs, _⟩ => ⟨fs, hfs⟩, fun ⟨fs, hfs⟩ => ⟨_, fs, hfs, rfl⟩⟩
  refine ⟨hiff, fun entries h => parseListLines_ok.mp (hread ▸ h), ?_⟩
  rintro ⟨row, hrow, hbad⟩
  have hr := readListing_eq P path (listingBytes ps)
  cases hrows : readRows P (listingBytes ps) with
  | error err =>
    rw [hrows] at hr
    exact ⟨err, hr⟩
  | ok items =>
    rw [hrows] at hr
    exact absurd (hiff.mp ⟨_, hr⟩ row hrow) hbad

/-! ## Rejected listings -/

/-- An error is a `ProtocolError`. -/
def Fails {α : Type} (x : Parse α) : Prop := ∀ e, x.run = some (.error e) → e.kind = .protocolError

section
variable {α β : Type}

theorem fails_pure (a : α) : Fails (pure a : Parse α) := by
  intro e h
  cases h

theorem fails_protocolError (text : String) : Fails (protocolError text : Parse α) := by
  intro e h
  cases h
  rfl

theorem fails_slicing (o : Option α) : Fails (slicing o) := by
  intro e h
  cases o <;> cases h

theorem fails_bind {x : Parse α} {f : α → Parse β} (hx : Fails x) (hf : ∀ a, Fails (f a)) : Fails (x >>= f) := by
  intro e h
  rw [ExceptT.run_bind] at h
  cases hr : x.run with
  | none =>
    rw [hr] at h
    cases h
  | some r =>
    rw [hr] at h
    cases r with
    | error e' =>
      cases h
      exact hx _ hr
    | ok a => exact hf a e h

theorem fails_rejectIf (c : Bool) (text : String) : Fails (rejectIf c text) := by
  unfold rejectIf
  split
  · exact fails_protocolError text
  · exact fails_pure ()

theorem fails_mapM {f : α → Parse β} (hf : ∀ a, Fails (f a)) (l : List α) : Fails (l.mapM f) := by
  induction l with
  | nil => exact fails_pure []
  | cons a l ih =>
    rw [List.mapM_cons]
    exact fails_bind (hf a) fun _ => fails_bind ih fun _ => fails_pure _

end

theorem fails_dosMetadata (n : Nat) (metadata : Str) : Fails (rejectAmbiguousDosMetadata n metadata) := by
  unfold rejectAmbiguousDosMetadata
  refine fails_bind (fails_slicing _) fun _ => fails_bind (fails_slicing _) fun _ => ?_
  refine fails_bind (fails_rejectIf _ _) fun _ => fails_bind (fails_rejectIf _ _) fun _ => ?_
  exact fails_rejectIf _ _

theorem fails_dosNameBoundary (line : Str) : Fails (rejectAmbiguousDosNameBoundary line) := by
  unfold rejectAmbiguousDosNameBoundary
  refine fails_bind (fails_slicing _) fun afterDate => ?_
  split
  · exact fails_pure ()
  refine fails_bind (fails_slicing _) fun timestamp => fails_bind (fails_slicing _) fun timestampPrefix => ?_
  split
  · exact fails_protocolError _
  refine fails_bind (fails_slicing _) fun rest => fails_bind (fails_rejectIf _ _) fun _ => ?_
  split
  · exact fails_pure ()
  · exact fails_bind (fails_slicing _) fun _ => fails_dosMetadata _ _

theorem fails_posixNameBoundary (line : Str) : Fails (rejectAmbiguousPosixNameBoundary line) := by
  unfold rejectAmbiguousPosixNameBoundary
  refine fails_bind (fails_slicing _) fun _ => fails_bind (fails_rejectIf _ _) fun _ => ?_
  refine fails_bind (fails_slicing _) fun _ => fails_bind (fails_rejectIf _ _) fun _ => ?_
  refine fails_bind (fails_slicing _) fun _ => fails_bind (fails_rejectIf _ _) fun _ => ?_
  exact fails_rejectIf _ _

theorem fails_listName (line : Str) : Fails (rejectAmbiguousListName line) := by
  unfold rejectAmbiguousListName
  refine fails_bind (fails_posixNameBoundary line) fun _ => fails_bind (fails_rejectIf _ _) fun _ => ?_
  split
  · exact fails_dosNameBoundary line
  · exact fails_pure ()

theorem fails_parseListLine (P : ListParser) (path : Path) (line : Str) : Fails (parseListLine P path line) := by
  unfold parseListLine
  refine fails_bind (fails_listName line) fun _ => fails_bind (fails_slicing _) fun r => ?_
  cases r with
  | error err =>
    intro e h
    cases h
    rfl
  | ok f =>
    dsimp only
    split
    · exact fails_pure _
    split
    · rename_i err hv
      intro e h
      cases h
      unfold validateListChildName at hv
      split at hv
      · cases hv
      · cases hv
        rfl
    · exact fails_pure _

/-- Data the client cannot read is a `ProtocolError`, whatever is wrong with it. -/
theorem readListing_error {P : ListParser} {path : Path} {bytes : List UInt8} {e : RemoteError}
    (h : readListing P path bytes = some (.error e)) : e.kind = .protocolError := by
  unfold readListing at h
  split at h
  · rename_i err hd
    cases h
    unfold decodeListBytes at hd
    split at hd
    · cases hd
      rfl
    · cases hd
  · rename_i lines _
    have hlines : Fails (parseListLines P path lines) := by
      unfold parseListLines
      exact fails_bind (fails_mapM (fails_parseListLine P path) _) fun _ => fails_pure _
    exact hlines e h

end RemotefsFtp.L2
