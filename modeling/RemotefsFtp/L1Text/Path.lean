import Mathlib.Data.List.DropRight
import RemotefsFtp.L1Text.Str

/-!
# Paths (`std::path` on Unix)

`Path` is its text. `components` skips empty and `.` segments as
`Path::components` does; two paths are equal when their components are
(`same`). `parent` cuts the last component off the text, and the separators
and `.` segments before it.

Results, for paths with a root:
* `components_parent`, `parent_none`: the parent has one component less.
* `parent_prefix`: the text of the parent is a prefix of the text.
* `components_join`: a joined child name is one more component.
-/
namespace RemotefsFtp.L1

/-- `std::path::Path` and `PathBuf` whose content is UTF-8. -/
abbrev Path := Str

/-- `std::path::Component` without Windows prefixes. -/
inductive Component where
  | rootDir
  | curDir
  | parentDir
  | normal (name : Str)
  deriving DecidableEq

def Component.name? : Component → Option Str
  | normal n => some n
  | _ => none

namespace Path

/-- `Path::is_absolute`. -/
def isAbsolute (p : Path) : Bool := p.head? = some '/'

/-- One segment of the text after the root; empty and `.` segments are none. -/
def component (seg : Str) : Option Component :=
  if seg = [] ∨ seg = ['.'] then none
  else if seg = ['.', '.'] then some .parentDir
  else some (.normal seg)

def body (segs : List Str) : List Component := segs.filterMap component

/-- `Path::components`. A leading `.` is kept in a relative path only. -/
def components (p : Path) : List Component :=
  match p with
  | '/' :: r => .rootDir :: body (r.splitOn '/')
  | _ =>
    match p.splitOn '/' with
    | ['.'] :: segs => .curDir :: body segs
    | segs => body segs

/-- `Path == Path`. -/
def same (p q : Path) : Bool := p.components = q.components

/-- `Components::trim_right`: drops trailing segments that are no component. -/
def trimRight (segs : List Str) : List Str := segs.rdropWhile fun s => component s = none

/-- `Path::parent` of a path with a root. -/
def parent (p : Path) : Option Path :=
  match p with
  | '/' :: r =>
    match trimRight (r.splitOn '/') with
    | [] => none
    | segs => some ('/' :: ['/'].intercalate (trimRight segs.dropLast))
  | _ => none

/-- `Path::file_name`. -/
def fileName (p : Path) : Option Str :=
  match p.components.getLast? with
  | some (.normal n) => some n
  | _ => none

/-- `Path::join` and `PathBuf::push`. -/
def join (p q : Path) : Path :=
  if q.isAbsolute then q
  else if p.isEmpty ∨ p.getLast? = some '/' then p ++ q
  else p ++ '/' :: q

/-- Absolutizes `target` against `wrkdir`; mirrors src/utils/path.rs:8-17. -/
def absolutize (wrkdir target : Path) : Path :=
  if target.isAbsolute then target else wrkdir.join target

/-- The names of the normal components. -/
def names (p : Path) : List Str := p.components.filterMap Component.name?

/-! ## Segments -/

theorem not_mem_splitOn {α : Type} [BEq α] [LawfulBEq α] {a : α} {xs l : List α}
    (h : l ∈ xs.splitOn a) : a ∉ l := by
  induction xs generalizing l with
  | nil => rw [List.splitOn_nil, List.mem_singleton] at h; simp [h]
  | cons x xs ih =>
    rw [List.splitOn_cons_eq_if_modifyHead] at h
    split at h
    · rcases List.mem_cons.mp h with rfl | h
      · simp
      · exact ih h
    · rename_i hx
      obtain ⟨s, ss, hs⟩ := List.exists_cons_of_ne_nil (List.splitOn_ne_nil a xs)
      rw [hs, List.modifyHead_cons] at h
      rcases List.mem_cons.mp h with rfl | h
      · have := ih (l := s) (by simp [hs])
        simp only [List.mem_cons, not_or]
        exact ⟨fun e => hx (by simp [e]), this⟩
      · exact ih (by simp [hs, h])

theorem body_trimRight (segs : List Str) : body (trimRight segs) = body segs := by
  induction segs using List.reverseRecOn with
  | nil => rfl
  | append_singleton segs s ih =>
    by_cases hs : component s = none
    · simp [trimRight, List.rdropWhile_concat_pos, body, hs] at ih ⊢
      exact ih
    · rw [trimRight, List.rdropWhile_concat_neg _ _ _ (by simpa using hs)]

theorem mem_body {segs : List Str} {c : Component} (h : c ∈ body segs) :
    c = .parentDir ∨ ∃ n, c = .normal n := by
  obtain ⟨s, -, hs⟩ := List.mem_filterMap.mp h
  simp only [component] at hs
  split at hs
  · cases hs
  · split at hs <;> cases hs
    · exact .inl rfl
    · exact .inr ⟨s, rfl⟩

theorem trimRight_eq_nil {segs : List Str} : trimRight segs = [] ↔ body segs = [] := by
  constructor
  · intro h; rw [← body_trimRight, h]; rfl
  · intro h
    rw [trimRight, List.rdropWhile_eq_nil_iff]
    intro s hs
    simpa using List.filterMap_eq_nil_iff.mp h s hs

theorem trimRight_le (segs : List Str) : trimRight segs <+: segs :=
  List.rdropWhile_prefix (p := fun s => decide (component s = none)) segs

/-- The last segment that is left is a component. -/
theorem body_dropLast_trimRight (segs : List Str) :
    body (trimRight segs).dropLast = (body segs).dropLast := by
  rcases List.eq_nil_or_concat (trimRight segs) with h | ⟨ss, s, h⟩
  · rw [h, trimRight_eq_nil.mp h]; rfl
  · have hs : component s ≠ none := by
      have := List.rdropWhile_last_not (fun s => decide (component s = none)) segs (by
        change trimRight segs ≠ []; rw [h]; simp)
      change ¬ decide (component ((trimRight segs).getLast _) = none) = true at this
      simpa [h] using this
    obtain ⟨c, hc⟩ := Option.ne_none_iff_exists'.mp hs
    rw [← body_trimRight segs, h]
    simp [body, hc]

theorem intercalate_prefix {α : Type} (x : α) {l m : List (List α)} (h : l <+: m) :
    [x].intercalate l <+: [x].intercalate m := by
  obtain ⟨t, rfl⟩ := h
  induction l with
  | nil => simp
  | cons a l ih =>
    rcases l with _ | ⟨b, l⟩
    · rcases t with _ | ⟨c, t⟩ <;> simp [List.intercalate_cons_cons]
    · simp only [List.cons_append, List.intercalate_cons_cons] at ih ⊢
      rw [List.prefix_append_right_inj]
      exact ih

/-! ## Paths with a root -/

theorem components_root (r : Str) : components ('/' :: r) = .rootDir :: body (r.splitOn '/') := rfl

theorem components_intercalate {segs : List Str} (h : ∀ s ∈ segs, '/' ∉ s) :
    components ('/' :: ['/'].intercalate segs) = .rootDir :: body segs := by
  rw [components_root]
  rcases segs with _ | ⟨s, segs⟩
  · rfl
  · rw [List.splitOn_intercalate _ h (by simp)]

theorem components_parent {r : Str} {q : Path} (h : parent ('/' :: r) = some q) :
    components q = (components ('/' :: r)).dropLast ∧ ∃ r', q = '/' :: r' := by
  simp only [parent] at h
  split at h
  · cases h
  · rename_i hne
    cases h
    refine ⟨?_, _, rfl⟩
    rw [components_intercalate, body_trimRight, body_dropLast_trimRight, components_root]
    · have : body (r.splitOn '/') ≠ [] := fun e => hne (trimRight_eq_nil.mpr e)
      rw [List.dropLast_cons_of_ne_nil this]
    · intro s hs
      have h1 := (trimRight_le _).subset hs
      have h2 := (trimRight_le _).subset ((List.dropLast_prefix _).subset h1)
      exact not_mem_splitOn h2

theorem parent_none {r : Str} : parent ('/' :: r) = none ↔ components ('/' :: r) = [.rootDir] := by
  simp only [parent, components_root]
  constructor
  · intro h
    split at h
    · rename_i h0; rw [trimRight_eq_nil.mp h0]
    · cases h
  · intro h
    rw [trimRight_eq_nil.mpr (by simpa using h)]

theorem parent_prefix {r : Str} {q : Path} (h : parent ('/' :: r) = some q) : q <+: '/' :: r := by
  simp only [parent] at h
  split at h
  · cases h
  · cases h
    rw [List.prefix_cons_inj]
    have h1 := (trimRight_le (trimRight (r.splitOn '/')).dropLast).trans
      ((List.dropLast_prefix _).trans (trimRight_le (r.splitOn '/')))
    simpa using intercalate_prefix '/' h1

/-- A name that is one normal component: not empty, `.` or `..`, no `/`. -/
structure IsName (n : Str) : Prop where
  ne_nil : n ≠ []
  ne_dot : n ≠ ['.']
  ne_dotdot : n ≠ ['.', '.']
  no_sep : '/' ∉ n

theorem IsName.component {n : Str} (h : IsName n) : component n = some (.normal n) := by
  simp [Path.component, h.ne_nil, h.ne_dot, h.ne_dotdot]

/-- The components of a relative path follow those of the path it is joined to. -/
theorem components_join_relative {r t : Str} (h : isAbsolute t = false) :
    components (join ('/' :: r) t) = components ('/' :: r) ++ body (t.splitOn '/') ∧
      ∃ r', join ('/' :: r) t = '/' :: r' := by
  simp only [join, h, Bool.false_eq_true, if_false, List.isEmpty_cons, false_or]
  split
  · rename_i hl
    refine ⟨?_, _, rfl⟩
    rw [List.cons_append, components_root, components_root]
    rcases List.eq_nil_or_concat r with rfl | ⟨r', c, rfl⟩
    · rfl
    · rw [List.concat_eq_append] at hl ⊢
      obtain rfl : c = '/' := by rwa [← List.cons_append, List.getLast?_concat, Option.some.injEq] at hl
      rw [List.append_assoc, List.singleton_append, List.splitOn_append_cons_self,
        List.splitOn_append_cons_self]
      simp only [body, List.filterMap_append, List.splitOn_nil]
      simp [component]
  · refine ⟨?_, _, rfl⟩
    rw [List.cons_append, components_root, components_root, List.splitOn_append_cons_self]
    simp only [body, List.filterMap_append, List.cons_append]

theorem IsName.relative {n : Str} (h : IsName n) : isAbsolute n = false := by
  rcases n with _ | ⟨c, n⟩
  · rfl
  · have := h.no_sep
    simp only [List.mem_cons, not_or] at this
    simpa [isAbsolute] using fun e => this.1 e.symm

theorem components_join {r n : Str} (h : IsName n) :
    components (join ('/' :: r) n) = components ('/' :: r) ++ [.normal n] ∧
      ∃ r', join ('/' :: r) n = '/' :: r' := by
  have hbody : body (n.splitOn '/') = [.normal n] := by
    rw [List.splitOn_eq_singleton h.no_sep]; simp [body, h.component]
  rw [← hbody]
  exact components_join_relative h.relative

theorem same_iff {p q : Path} : same p q = true ↔ p.components = q.components := by simp [same]

end Path
end RemotefsFtp.L1
