import RemotefsFtp.L1Text.Path
import RemotefsFtp.L2Remote.Error

/-!
# Wire paths (`src/client/path.rs`)

`remotePath` is the POSIX branch. A path that is not UTF-8 is refused there
with `InvalidPath`; `Path` holds the text of the others.

Results:
* `Accepted`: what an accepted path looks like; `accepted_iff`.
* `Accepted.parent`: every parent of an accepted path is accepted, with the
  last name dropped.
* `Accepted.same_iff`: accepted paths are equal when their names are.
* `Accepted.join`, `Accepted.parent_join`: a valid name joined to an accepted
  path is accepted, and its parent is that path.
-/
namespace RemotefsFtp.L2

open L1 (Str Path Component)

/-- `remotefs::path::ensure_absolute`. -/
def ensureAbsolute (path : Path) : RemoteResult Unit :=
  if path.isAbsolute then .ok () else .error (.new .invalidPath)

/-- `path.bytes().any(|byte| byte.is_ascii_control())`. -/
def hasAsciiControl (s : Str) : Bool := s.bytes.any fun b => Str.isAsciiControl b.toNat

/-- mirrors src/client/path.rs:8-31 -/
def remotePath (path : Path) : RemoteResult Str := do
  ensureAbsolute path
  if path.head? ≠ some '/' ∨ ['/', '/'].isPrefixOf path ∨ hasAsciiControl path ∨
      Component.parentDir ∈ path.components then
    .error (.withMessage .invalidPath "FTP paths must use a POSIX absolute root")
  else
    .ok path

/-- Returns a provided path unchanged on POSIX platforms; mirrors src/client/path.rs:71-73 -/
def resolve (p : Path) : Path := p

/-! ## Accepted paths -/

structure Accepted (p : Path) : Prop where
  root : ∃ r, p = '/' :: r
  single : ¬ ['/', '/'] <+: p
  printable : ∀ b ∈ p.bytes, Str.isAsciiControl b.toNat = false
  noParentDir : .parentDir ∉ p.components

theorem accepted_iff {p : Path} {s : Str} : remotePath p = .ok s ↔ Accepted p ∧ s = p := by
  simp only [remotePath, ensureAbsolute, Path.isAbsolute, bind, Except.bind]
  constructor
  · intro h
    split at h
    · cases h
    · split at h
      · cases h
      · rename_i hc
        cases h
        simp only [not_or, ne_eq, not_not, List.isPrefixOf_iff_prefix, hasAsciiControl,
          List.any_eq_true, not_exists, not_and, Bool.not_eq_true] at hc
        obtain ⟨h1, h2, h3, h4⟩ := hc
        refine ⟨⟨?_, h2, h3, h4⟩, rfl⟩
        rcases p with _ | ⟨c, r⟩
        · cases h1
        · cases h1; exact ⟨r, rfl⟩
  · rintro ⟨⟨⟨r, rfl⟩, h2, h3, h4⟩, rfl⟩
    have hc : hasAsciiControl ('/' :: r) = false := by
      rw [hasAsciiControl, List.any_eq_false]
      exact fun b hb => by simp [h3 b hb]
    rw [← List.isPrefixOf_iff_prefix, Bool.not_eq_true] at h2
    simp only [List.head?_cons, decide_true, if_true, hc, h2, h4, ne_eq, not_true_eq_false,
      Bool.false_eq_true, or_self, if_false]

theorem remotePath_ok {p : Path} (h : Accepted p) : remotePath p = .ok p :=
  accepted_iff.mpr ⟨h, rfl⟩

/-- A refused path is refused with `InvalidPath`. -/
theorem remotePath_error {p : Path} {e : RemoteError} (h : remotePath p = .error e) :
    e.kind = .invalidPath := by
  simp only [remotePath, ensureAbsolute, bind, Except.bind] at h
  split at h
  · rename_i he; split at he <;> cases he; cases h; rfl
  · split at h <;> cases h; rfl

theorem hasAsciiControl_of_le {p q : Str} (h : q <+: p) {b : UInt8} (hb : b ∈ q.bytes) :
    b ∈ p.bytes := by
  obtain ⟨t, rfl⟩ := h
  simp only [Str.bytes, List.flatMap_append, List.mem_append]
  exact .inl hb

theorem names_of_components {q : Path} {ns : List Str} (hq : q.components = .rootDir :: ns.map .normal) :
    q.names = ns := by
  rw [Path.names, hq, List.filterMap_cons_none (by rfl), List.filterMap_map]
  exact List.filterMap_some

namespace Accepted

variable {p q : Path} (h : Accepted p)
include h

theorem components_eq : p.components = .rootDir :: p.names.map .normal := by
  obtain ⟨⟨r, rfl⟩, -, -, hp⟩ := h
  have key : ∀ cs : List Component, (∀ c ∈ cs, ∃ n, c = .normal n) →
      (cs.filterMap Component.name?).map .normal = cs := by
    intro cs hcs
    induction cs with
    | nil => rfl
    | cons c cs ih =>
      obtain ⟨n, rfl⟩ := hcs c (by simp)
      rw [List.filterMap_cons_some (by rfl), List.map_cons, ih fun c hc => hcs c (by simp [hc])]
  rw [Path.components_root, List.mem_cons, not_or] at hp
  rw [Path.names, Path.components_root, List.filterMap_cons_none (by rfl), key]
  intro c hc
  rcases Path.mem_body hc with rfl | hn
  · exact absurd hc hp.2
  · exact hn

theorem fileName_eq : p.fileName = p.names.getLast? := by
  rw [Path.fileName, h.components_eq]
  rcases List.eq_nil_or_concat p.names with hn | ⟨ns, n, hn⟩ <;> rw [hn]
  · rfl
  · rw [List.concat_eq_append, List.map_append, ← List.cons_append, List.map_singleton,
      List.getLast?_concat, List.getLast?_concat]

theorem same_iff (hq : Accepted q) : p.same q = true ↔ p.names = q.names := by
  rw [Path.same_iff, h.components_eq, hq.components_eq, List.cons_inj_right]
  exact (List.map_injective_iff.mpr fun _ _ => Component.normal.inj).eq_iff

theorem parent_none : p.parent = none ↔ p.names = [] := by
  have hc := h.components_eq
  obtain ⟨⟨r, rfl⟩, -, -, -⟩ := h
  rw [Path.parent_none, hc]
  simp

theorem parent (hq : p.parent = some q) : Accepted q ∧ q.names = p.names.dropLast := by
  have hc := h.components_eq
  obtain ⟨⟨r, rfl⟩, h2, h3, h4⟩ := h
  obtain ⟨hcq, hr⟩ := Path.components_parent hq
  have hpre := Path.parent_prefix hq
  refine ⟨⟨hr, fun e => h2 (e.trans hpre), fun b hb => h3 b (hasAsciiControl_of_le hpre hb), ?_⟩, ?_⟩
  · rw [hcq]; exact fun e => h4 (List.dropLast_subset _ e)
  · have hne : Path.names ('/' :: r) ≠ [] := by
      intro e
      rw [e] at hc
      rw [Path.parent_none.mpr hc] at hq; cases hq
    refine names_of_components ?_
    rw [hcq, hc, List.dropLast_cons_of_ne_nil (by simpa using hne), List.map_dropLast]

end Accepted

/-! ## Children -/

theorem bytes_append (s t : Str) : Str.bytes (s ++ t) = s.bytes ++ t.bytes := List.flatMap_append

theorem hasAsciiControl_append (s t : Str) :
    hasAsciiControl (s ++ t) = (hasAsciiControl s || hasAsciiControl t) := by
  simp only [hasAsciiControl, bytes_append, List.any_append]

theorem hasAsciiControl_sep (s : Str) : hasAsciiControl ('/' :: s) = hasAsciiControl s := by
  rw [show ('/' :: s : Str) = ['/'] ++ s from rfl, hasAsciiControl_append]
  rfl

theorem accepted_iff_control {p : Path} : Accepted p ↔ (∃ r, p = '/' :: r) ∧ ¬ ['/', '/'] <+: p ∧
    hasAsciiControl p = false ∧ .parentDir ∉ p.components := by
  simp only [hasAsciiControl, List.any_eq_false, Bool.not_eq_true]
  exact ⟨fun h => ⟨h.root, h.single, h.printable, h.noParentDir⟩,
    fun h => ⟨h.1, h.2.1, h.2.2.1, h.2.2.2⟩⟩

/-- A relative name is appended, after a separator where one is missing. -/
theorem join_cases {r n : Str} (hn : Path.IsName n) :
    Path.join ('/' :: r) n = '/' :: r ++ n ∧ ('/' :: r).getLast? = some '/' ∨
      Path.join ('/' :: r) n = '/' :: r ++ '/' :: n ∧ r ≠ [] := by
  simp only [Path.join, hn.relative, Bool.false_eq_true, if_false, List.isEmpty_cons, false_or]
  split
  · rename_i hl
    exact .inl ⟨rfl, hl⟩
  · rename_i hl
    exact .inr ⟨rfl, fun e => hl (by rw [e]; rfl)⟩

/-- A valid name joined to an accepted path is an accepted path, one name longer. -/
theorem Accepted.join {p : Path} (h : Accepted p) {n : Str} (hn : Path.IsName n)
    (hc : hasAsciiControl n = false) :
    Accepted (p.join n) ∧ (p.join n).components = p.components ++ [.normal n] := by
  obtain ⟨⟨r, rfl⟩, hsingle, hctl, hparent⟩ := accepted_iff_control.mp h
  obtain ⟨hcomp, hroot⟩ := Path.components_join (r := r) hn
  refine ⟨accepted_iff_control.mpr ⟨hroot, ?_, ?_, ?_⟩, hcomp⟩
  · rcases join_cases (r := r) hn with ⟨hj, -⟩ | ⟨hj, hr⟩ <;> rw [hj]
    · intro hp
      rcases r with _ | ⟨c, r⟩
      · obtain ⟨t, ht⟩ := hp
        exact hn.no_sep (by rw [show n = '/' :: t from (List.cons.inj ht).2.symm]; simp)
      · exact hsingle (List.prefix_of_prefix_length_le hp (List.prefix_append _ _) (by simp))
    · intro hp
      refine hsingle (List.prefix_of_prefix_length_le hp (List.prefix_append _ _) ?_)
      have := List.length_pos_iff.mpr hr
      simp only [List.length_cons, List.length_nil]
      omega
  · rcases join_cases (r := r) hn with ⟨hj, -⟩ | ⟨hj, -⟩ <;> rw [hj, hasAsciiControl_append, hctl]
    · rw [hc]; rfl
    · rw [hasAsciiControl_sep, hc]; rfl
  · rw [hcomp, List.mem_append]
    rintro (hm | hm)
    · exact hparent hm
    · simp at hm

/-- The parent of a child is the path, component by component. -/
theorem Accepted.parent_join {p : Path} (h : Accepted p) {n : Str} (hn : Path.IsName n)
    (hc : hasAsciiControl n = false) :
    ∃ q, (p.join n).parent = some q ∧ q.components = p.components := by
  obtain ⟨hj, hcomp⟩ := h.join hn hc
  have hne : (p.join n).names ≠ [] := by
    rw [Path.names, hcomp, List.filterMap_append]
    simp [Component.name?]
  cases hp : (p.join n).parent with
  | none => exact absurd (hj.parent_none.mp hp) hne
  | some q =>
    refine ⟨q, rfl, ?_⟩
    obtain ⟨r, hr⟩ := hj.root
    rw [hr] at hp
    obtain ⟨hq, -⟩ := Path.components_parent hp
    rw [hq, ← hr, hcomp, List.dropLast_concat]

/-- The root. -/
theorem accepted_root : Accepted ['/'] := (accepted_iff (s := ['/']).mp (by rfl)).1

@[simp] theorem names_root : Path.names ['/'] = [] := rfl

theorem Accepted.same_root {p : Path} (h : Accepted p) : p.same ['/'] = true ↔ p.names = [] := by
  rw [h.same_iff accepted_root, names_root]

end RemotefsFtp.L2
