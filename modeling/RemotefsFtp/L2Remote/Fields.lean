import RemotefsFtp.L2Remote.ListingTotal

/-!
# Fields of a row (`src/client/list.rs`)

`fieldSpans` reads a row byte by byte. A row is also its `cells`: fields, each
with the ASCII whitespace in front of it, and the whitespace at its end. The
spans are the byte offsets of the cells (`fieldSpans_text`), and every row has
cells (`exists_cells`).

Results:
* `fieldSpans_runs`: the spans are the maximal runs of bytes that are no
  ASCII whitespace, in order.
* `normalizeSpecialPosixLine_fields`: normalising a device row replaces its
  fifth and sixth field by `0` and nothing else, and normalising again changes
  nothing.
* **`fields_preserved`**: both.
-/
namespace RemotefsFtp.L2

open L1 (Str)

/-! ## Runs of bytes -/

/-- The byte at `k` belongs to a field. -/
def Solid (bs : List UInt8) (k : Nat) : Prop :=
  ∃ b, bs[k]? = some b ∧ Str.isAsciiWhitespace b.toNat = false

/-- A maximal run of bytes of fields. -/
structure IsRun (bs : List UInt8) (s : Nat × Nat) : Prop where
  lt : s.1 < s.2
  solid : ∀ k, s.1 ≤ k → k < s.2 → Solid bs k
  left : s.1 = 0 ∨ ¬ Solid bs (s.1 - 1)
  right : ¬ Solid bs s.2

/-- Of two maximal runs that share a byte, neither reaches beyond the other. -/
theorem IsRun.within {bs : List UInt8} {s t : Nat × Nat} (hs : IsRun bs s) (ht : IsRun bs t) {k : Nat}
    (h1 : s.1 ≤ k) (h2 : k < s.2) (h3 : t.1 ≤ k) (h4 : k < t.2) : t.1 ≤ s.1 ∧ s.2 ≤ t.2 := by
  constructor
  · by_contra hn
    rcases ht.left with h0 | h0
    · omega
    · exact h0 (hs.solid _ (by omega) (by omega))
  · by_contra hn
    exact ht.right (hs.solid _ (by omega) (by omega))

theorem IsRun.unique {bs : List UInt8} {s t : Nat × Nat} (hs : IsRun bs s) (ht : IsRun bs t) {k : Nat}
    (h1 : s.1 ≤ k) (h2 : k < s.2) (h3 : t.1 ≤ k) (h4 : k < t.2) : s = t := by
  obtain ⟨a, b⟩ := hs.within ht h1 h2 h3 h4
  obtain ⟨c, d⟩ := ht.within hs h3 h4 h1 h2
  exact Prod.ext (by omega) (by omega)

theorem solid_append {pre bs : List UInt8} {k : Nat} (h : k < pre.length) :
    Solid (pre ++ bs) k ↔ Solid pre k := by
  rw [Solid, Solid, List.getElem?_append_left h]

theorem solid_at {pre : List UInt8} {b : UInt8} (bs : List UInt8) :
    Solid (pre ++ b :: bs) pre.length ↔ Str.isAsciiWhitespace b.toNat = false := by
  rw [Solid, List.getElem?_append_right (Nat.le_refl _), Nat.sub_self]
  exact ⟨fun ⟨_, h, hb⟩ => by cases h; exact hb, fun hb => ⟨b, rfl, hb⟩⟩

theorem not_solid_end {bs : List UInt8} : ¬ Solid bs bs.length := by
  rintro ⟨b, hb, -⟩
  rw [List.getElem?_eq_none (Nat.le_refl _)] at hb
  cases hb

/-- What `fieldSpansFrom` finds behind `pre`, with a field open since `start`:
runs, and all of them. -/
theorem fieldSpansFrom_runs (pre bs : List UInt8) (start : Option Nat)
    (hnone : start = none → pre.length = 0 ∨ ¬ Solid pre (pre.length - 1))
    (hsome : ∀ st, start = some st → st < pre.length ∧ (∀ k, st ≤ k → k < pre.length → Solid pre k) ∧
      (st = 0 ∨ ¬ Solid pre (st - 1))) :
    (∀ s ∈ fieldSpansFrom pre.length start bs, IsRun (pre ++ bs) s) ∧
      ∀ k, start.getD pre.length ≤ k → Solid (pre ++ bs) k →
        ∃ s ∈ fieldSpansFrom pre.length start bs, s.1 ≤ k ∧ k < s.2 := by
  induction bs generalizing pre start with
  | nil =>
    rw [List.append_nil]
    have hlen {k : Nat} (hk : Solid pre k) : k < pre.length := by
      obtain ⟨b, hb, -⟩ := hk
      exact (List.getElem?_eq_some_iff.mp hb).1
    cases start with
    | none => exact ⟨by simp [fieldSpansFrom], fun k h hk => absurd (hlen hk) (by simpa using h)⟩
    | some st =>
      obtain ⟨h1, h2, h3⟩ := hsome st rfl
      constructor
      · intro s hs
        obtain rfl := List.mem_singleton.mp hs
        exact ⟨h1, h2, h3, not_solid_end⟩
      · exact fun k h hk => ⟨_, List.mem_singleton_self _, h, hlen hk⟩
  | cons b bs ih =>
    have happ : pre ++ b :: bs = (pre ++ [b]) ++ bs := by simp
    have hlen : (pre ++ [b]).length = pre.length + 1 := by simp
    have hend : Solid (pre ++ [b]) pre.length ↔ Str.isAsciiWhitespace b.toNat = false :=
      solid_at []
    have hall : Solid (pre ++ b :: bs) pre.length ↔ Str.isAsciiWhitespace b.toNat = false := solid_at bs
    rw [fieldSpansFrom]
    cases hb : Str.isAsciiWhitespace b.toNat with
    | true =>
      -- the byte ends an open field
      rw [hb] at hend hall
      obtain ⟨ih1, ih2⟩ := ih (pre ++ [b]) none (fun _ => .inr (by
        rw [hlen, Nat.add_sub_cancel, hend]
        exact Bool.noConfusion)) (by simp)
      rw [← happ, hlen] at ih1 ih2
      rw [if_pos rfl]
      constructor
      · intro s hs
        rcases List.mem_append.mp hs with hs | hs
        · obtain ⟨st, rfl, rfl⟩ : ∃ st, start = some st ∧ (st, pre.length) = s := by simpa using hs
          obtain ⟨h1, h2, h3⟩ := hsome st rfl
          refine ⟨h1, fun k hk hk' => (solid_append hk').mpr (h2 k hk hk'), ?_, by rw [hall]; exact Bool.noConfusion⟩
          rcases h3 with h0 | h0
          · exact .inl h0
          · refine .inr fun hsol => h0 ((solid_append ?_).mp hsol)
            show st - 1 < pre.length
            omega
        · exact ih1 s hs
      · intro k hk hsol
        by_cases hin : k < pre.length
        · cases start with
          | none => exact absurd hk (by simpa using hin)
          | some st => exact ⟨(st, pre.length), by simp, hk, hin⟩
        · have hne : k ≠ pre.length := by
            rintro rfl
            rw [hall] at hsol
            cases hsol
          obtain ⟨s, hs, h⟩ := ih2 k (by show pre.length + 1 ≤ k; omega) hsol
          exact ⟨s, List.mem_append_right _ hs, h⟩
    | false =>
      rw [hb] at hend hall
      obtain ⟨ih1, ih2⟩ := ih (pre ++ [b]) (some (start.getD pre.length)) (by simp) (by
        rintro st ⟨⟩
        cases start with
        | none =>
          rw [Option.getD_none, hlen]
          refine ⟨by omega, fun k hk hk' => ?_, ?_⟩
          · obtain rfl : k = pre.length := by omega
            exact hend.mpr rfl
          · rcases hnone rfl with h0 | h0
            · exact .inl h0
            · by_cases hz : pre.length = 0
              · exact .inl hz
              · exact .inr fun hsol => h0 ((solid_append (by omega)).mp hsol)
        | some st =>
          obtain ⟨h1, h2, h3⟩ := hsome st rfl
          rw [Option.getD_some, hlen]
          refine ⟨by omega, fun k hk hk' => ?_, ?_⟩
          · by_cases hin : k < pre.length
            · exact (solid_append hin).mpr (h2 k hk hin)
            · obtain rfl : k = pre.length := by omega
              exact hend.mpr rfl
          · rcases h3 with h0 | h0
            · exact .inl h0
            · exact .inr fun hsol => h0 ((solid_append (by omega)).mp hsol))
      rw [← happ, hlen] at ih1 ih2
      rw [if_neg Bool.false_ne_true]
      exact ⟨ih1, fun k hk hsol => ih2 k hk hsol⟩

/-- Fields are the maximal runs of bytes that are no ASCII whitespace, from
the left to the right. -/
theorem fieldSpans_runs (line : Str) :
    (∀ s, s ∈ fieldSpans line ↔ IsRun line.bytes s) ∧
      (fieldSpans line).Pairwise fun s t => s.2 < t.1 := by
  obtain ⟨h1, h2⟩ := fieldSpansFrom_runs [] line.bytes none (fun _ => .inl rfl) (by simp)
  refine ⟨fun s => ⟨h1 s, fun hs => ?_⟩, fieldSpans_sorted line⟩
  obtain ⟨t, ht, ht1, ht2⟩ := h2 s.1 (Nat.zero_le _) (hs.solid _ (Nat.le_refl _) hs.lt)
  obtain rfl := hs.unique (h1 t ht) (Nat.le_refl _) hs.lt ht1 ht2
  exact ht

/-! ## Cells -/

/-- ASCII whitespace only. -/
def Blank (s : Str) : Prop := ∀ c ∈ s, Str.isAsciiWhitespace c.toNat = true

/-- No ASCII whitespace. -/
def Solids (s : Str) : Prop := ∀ c ∈ s, Str.isAsciiWhitespace c.toNat = false

/-- A field, and the whitespace in front of it. -/
structure Cell where
  gap : Str
  field : Str

def Cell.text (c : Cell) : Str := c.gap ++ c.field

structure Cell.Good (c : Cell) : Prop where
  gap : Blank c.gap
  ne : c.field ≠ []
  field : Solids c.field

def cellsText (cells : List Cell) : Str := cells.flatMap Cell.text

/-- Cells of a row, or of what follows a field. -/
structure Cells (follows : Bool) (cells : List Cell) : Prop where
  good : ∀ c ∈ cells, c.Good
  apart : ∀ c ∈ cells.tail, c.gap ≠ []
  first : follows = true → ∀ c ∈ cells.head?, c.gap ≠ []

/-- Where the fields of `cells` are, from byte `i` on. -/
def spansOf (i : Nat) : List Cell → List (Nat × Nat)
  | [] => []
  | c :: cs => (i + c.gap.len, i + c.text.len) :: spansOf (i + c.text.len) cs

@[simp] theorem cellsText_cons (c : Cell) (cs : List Cell) :
    cellsText (c :: cs) = c.text ++ cellsText cs := rfl

@[simp] theorem cellsText_append (cs ds : List Cell) :
    cellsText (cs ++ ds) = cellsText cs ++ cellsText ds := List.flatMap_append

theorem spansOf_append (i : Nat) (cs ds : List Cell) :
    spansOf i (cs ++ ds) = spansOf i cs ++ spansOf (i + (cellsText cs).len) ds := by
  induction cs generalizing i with
  | nil => rfl
  | cons c cs ih =>
    rw [List.cons_append, spansOf, ih, spansOf, List.cons_append, cellsText_cons, Str.len_append,
      Nat.add_assoc]

@[simp] theorem length_spansOf (i : Nat) (cs : List Cell) : (spansOf i cs).length = cs.length := by
  induction cs generalizing i with
  | nil => rfl
  | cons c cs ih => rw [spansOf, List.length_cons, ih, List.length_cons]

theorem Cells.tail {f : Bool} {c : Cell} {cs : List Cell} (h : Cells f (c :: cs)) : Cells true cs := by
  refine ⟨fun x hx => h.good x (List.mem_cons_of_mem _ hx), fun x hx => h.apart x (List.mem_of_mem_tail hx),
    fun _ x hx => h.apart x (List.mem_of_mem_head? hx)⟩

theorem Cells.cons {f : Bool} {c : Cell} {cs : List Cell} (hc : c.Good) (hf : f = true → c.gap ≠ [])
    (h : Cells true cs) : Cells f (c :: cs) := by
  refine ⟨?_, ?_, ?_⟩
  · intro x hx
    rcases List.mem_cons.mp hx with rfl | hx
    · exact hc
    · exact h.good x hx
  · intro x hx
    rcases cs with _ | ⟨d, ds⟩
    · cases hx
    · rcases List.mem_cons.mp hx with rfl | hx
      · exact h.first rfl _ rfl
      · exact h.apart x hx
  · rintro hf' x ⟨⟩
    exact hf hf'

theorem spans_gap {g : Str} (hg : Blank g) (i : Nat) (s : Str) :
    fieldSpansFrom i none (g ++ s).bytes = fieldSpansFrom (i + g.len) none s.bytes := by
  induction g generalizing i with
  | nil => rfl
  | cons c g ih =>
    have hc := hg c (List.mem_cons_self ..)
    rw [List.cons_append, fieldSpansFrom_cons, if_pos hc, ih fun x hx => hg x (List.mem_cons_of_mem _ hx),
      Str.len_cons, Nat.add_assoc]
    rfl

theorem spans_open {f : Str} (hf : Solids f) (i st : Nat) (s : Str) :
    fieldSpansFrom i (some st) (f ++ s).bytes = fieldSpansFrom (i + f.len) (some st) s.bytes := by
  induction f generalizing i with
  | nil => rfl
  | cons c f ih =>
    have hc := hf c (List.mem_cons_self ..)
    rw [List.cons_append, fieldSpansFrom_cons, hc, if_neg Bool.false_ne_true, Option.getD_some,
      ih fun x hx => hf x (List.mem_cons_of_mem _ hx), Str.len_cons, Nat.add_assoc]

theorem spans_field {f : Str} (hf : Solids f) (hne : f ≠ []) (i : Nat) {s : Str}
    (hs : ∀ c ∈ s.head?, Str.isAsciiWhitespace c.toNat = true) :
    fieldSpansFrom i none (f ++ s).bytes = (i, i + f.len) :: fieldSpansFrom (i + f.len) none s.bytes := by
  obtain ⟨c, f, rfl⟩ := List.exists_cons_of_ne_nil hne
  have hc := hf c (List.mem_cons_self ..)
  rw [List.cons_append, fieldSpansFrom_cons, hc, if_neg Bool.false_ne_true, Option.getD_none,
    spans_open fun x hx => hf x (List.mem_cons_of_mem _ hx), Str.len_cons, ← Nat.add_assoc]
  rcases s with _ | ⟨d, s⟩
  · rfl
  · rw [fieldSpansFrom_cons, fieldSpansFrom_cons, hs d rfl]
    rfl

theorem head_gap {c : Char} {g s : Str} (hg : Blank g) (hne : g ≠ []) (h : (g ++ s).head? = some c) :
    Str.isAsciiWhitespace c.toNat = true := by
  obtain ⟨d, g, rfl⟩ := List.exists_cons_of_ne_nil hne
  cases h
  exact hg _ (List.mem_cons_self ..)

/-- What follows a field does not continue it. -/
theorem Cells.head_blank {cs : List Cell} (h : Cells true cs) {tail : Str} (ht : Blank tail) {c : Char}
    (hc : (cellsText cs ++ tail).head? = some c) : Str.isAsciiWhitespace c.toNat = true := by
  rcases cs with _ | ⟨d, ds⟩
  · exact ht c (List.mem_of_mem_head? hc)
  · rw [cellsText_cons, Cell.text, List.append_assoc, List.append_assoc] at hc
    exact head_gap (h.good d (List.mem_cons_self ..)).gap (h.first rfl d rfl) hc

/-- The spans of a row are the offsets of its cells. -/
theorem spans_text {cs : List Cell} {f : Bool} (h : Cells f cs) {tail : Str} (ht : Blank tail) (i : Nat) :
    fieldSpansFrom i none (cellsText cs ++ tail).bytes = spansOf i cs := by
  induction cs generalizing i f with
  | nil =>
    have := spans_gap ht i []
    rw [List.append_nil] at this
    exact this
  | cons c cs ih =>
    have hc := h.good c (List.mem_cons_self ..)
    rw [cellsText_cons, Cell.text, List.append_assoc, List.append_assoc, spans_gap hc.gap,
      spans_field hc.field hc.ne _ fun d hd => h.tail.head_blank ht hd, ih h.tail, spansOf, Cell.text,
      Str.len_append, Nat.add_assoc]

theorem fieldSpans_text {cs : List Cell} (h : Cells false cs) {tail : Str} (ht : Blank tail) :
    fieldSpans (cellsText cs ++ tail) = spansOf 0 cs := spans_text h ht 0

/-- The first run of a class, and the rest. -/
theorem cut_run (p : Char → Bool) (s : Str) :
    ∃ a b, s = a ++ b ∧ (∀ c ∈ a, p c = true) ∧ ∀ c ∈ b.head?, p c = false := by
  refine ⟨s.takeWhile p, s.dropWhile p, (List.takeWhile_append_dropWhile ..).symm,
    fun c hc => List.mem_takeWhile_imp hc, fun c hc => ?_⟩
  have := List.head?_dropWhile_not p s
  rw [show List.head? (s.dropWhile p) = some c from hc] at this
  simpa using this

/-- Every row has cells. -/
theorem exists_cells (line : Str) : ∃ cs tail, Cells false cs ∧ Blank tail ∧ line = cellsText cs ++ tail := by
  suffices h : ∀ n (s : Str), s.length = n → ∃ cs tail, Cells false cs ∧ Blank tail ∧
      s = cellsText cs ++ tail from h _ line rfl
  intro n
  induction n using Nat.strongRecOn with
  | ind n ih =>
    rintro s rfl
    obtain ⟨g, r, rfl, hg, hr⟩ := cut_run (fun c => Str.isAsciiWhitespace c.toNat) s
    rcases r with _ | ⟨d, r⟩
    · exact ⟨[], g, ⟨nofun, nofun, nofun⟩, hg, by simp [cellsText]⟩
    · obtain ⟨f, r', hfr, hf, hr'⟩ := cut_run (fun c => !Str.isAsciiWhitespace c.toNat) (d :: r)
      have hne : f ≠ [] := by
        rintro rfl
        have := hr' d (by rw [← List.nil_append r', ← hfr]; rfl)
        simp [hr d rfl] at this
      have hlt : r'.length < (g ++ d :: r).length := by
        have := List.length_pos_iff.mpr hne
        rw [hfr, List.length_append, List.length_append]
        omega
      obtain ⟨cs, tail, hcs, ht, rfl⟩ := ih _ hlt r' rfl
      have hgood : Cell.Good ⟨g, f⟩ := ⟨hg, hne, fun c hc => by simpa using hf c hc⟩
      have hfirst : ∀ c ∈ cs.head?, c.gap ≠ [] := by
        rintro ⟨cg, cf⟩ hc (rfl : cg = [])
        obtain ⟨cs, rfl⟩ : ∃ ds, cs = ⟨[], cf⟩ :: ds := by
          rcases cs with _ | ⟨e, ds⟩
          · cases hc
          · cases hc
            exact ⟨ds, rfl⟩
        have hcell := hcs.good _ (List.mem_cons_self ..)
        obtain ⟨x, xs, hx⟩ := List.exists_cons_of_ne_nil hcell.ne
        have hx' : cf = x :: xs := hx
        subst hx'
        have := hr' x rfl
        have hxs := hcell.field x (List.mem_cons_self ..)
        rw [hxs] at this
        cases this
      refine ⟨⟨g, f⟩ :: cs, tail, .cons hgood nofun ⟨hcs.good, hcs.apart, fun _ => hfirst⟩, ht, ?_⟩
      rw [hfr, cellsText_cons, Cell.text, List.append_assoc, List.append_assoc]

/-! ## The fields of a row -/

/-- The texts of the fields. -/
def fields (line : Str) : Option (List Str) := (fieldSpans line).mapM fun s => line.slice s.1 s.2

theorem slice_at {s p t u : Str} {i j : Nat} (hs : s = p ++ (t ++ u)) (hi : i = p.len)
    (hj : j = p.len + t.len) : s.slice i j = some t := by
  subst hs hi hj
  exact Str.slice_append p t u

theorem replaceRange_at {s p t u w : Str} {i j : Nat} (hs : s = p ++ (t ++ u)) (hi : i = p.len)
    (hj : j = p.len + t.len) : s.replaceRange i j w = some (p ++ w ++ u) := by
  subst hs hi hj
  exact Str.replaceRange_append p t u w

theorem slices_text (pre : Str) (cs : List Cell) (tail : Str) :
    ((spansOf pre.len cs).mapM fun s => (pre ++ (cellsText cs ++ tail)).slice s.1 s.2) =
      some (cs.map Cell.field) := by
  induction cs generalizing pre with
  | nil => rfl
  | cons c cs ih =>
    have hcell : (pre ++ (cellsText (c :: cs) ++ tail)).slice (pre.len + c.gap.len) (pre.len + c.text.len) =
        some c.field := by
      refine slice_at (p := pre ++ c.gap) (u := cellsText cs ++ tail) ?_ ?_ ?_ <;>
        simp [Cell.text, Nat.add_assoc]
    have hrest := ih (pre ++ c.text)
    rw [Str.len_append, List.append_assoc] at hrest
    have happ : pre ++ (cellsText (c :: cs) ++ tail) = pre ++ (c.text ++ (cellsText cs ++ tail)) := by
      rw [cellsText_cons, List.append_assoc]
    rw [spansOf, List.mapM_cons, hcell, happ, hrest]
    rfl

theorem fields_text {cs : List Cell} (h : Cells false cs) {tail : Str} (ht : Blank tail) :
    fields (cellsText cs ++ tail) = some (cs.map Cell.field) := by
  rw [fields, fieldSpans_text h ht]
  exact slices_text [] cs tail

def IsDigits (s : Str) : Bool := s.bytes.all fun b => Str.isAsciiDigit b.toNat

/-- A `major,` field. -/
def IsMajor (s : Str) : Bool := s.getLast? = some ',' ∧ IsDigits (Str.trimEndMatches (· = ',') s)

theorem isDigits_iff {s : Str} :
    IsDigits s = true ↔ s.bytes.all (fun b => Str.isAsciiDigit b.toNat) = true := Iff.rfl

theorem isMajor_iff {s : Str} : IsMajor s = true ↔ s.getLast? = some ',' ∧
    (Str.bytes (Str.trimEndMatches (· = ',') s)).all (fun b => Str.isAsciiDigit b.toNat) = true :=
  decide_eq_true_iff

/-- A block or character device: its fifth and sixth field are the device's numbers. -/
def IsDevice (line : Str) (fs : List Str) : Prop :=
  firstByteIn ['b', 'c'] line = true ∧ ∃ major ∈ fs[4]?, IsMajor major = true ∧
    ∃ minor ∈ fs[5]?, IsDigits minor = true

instance (line : Str) (fs : List Str) : Decidable (IsDevice line fs) := inferInstanceAs (Decidable (_ ∧ _))

theorem normalize_short {line : Str} (h : ¬ 5 < (fieldSpans line).length) :
    normalizeSpecialPosixLine line = some line := by
  simp [normalizeSpecialPosixLine, h]

/-- The fifth and the sixth field. -/
theorem fieldSpans_device {pre post : List Cell} {c d : Cell} (hpre : pre.length = 4) {tail : Str}
    (h : Cells false (pre ++ c :: d :: post)) (ht : Blank tail) :
    (fieldSpans (cellsText (pre ++ c :: d :: post) ++ tail))[4]? =
        some ((cellsText pre).len + c.gap.len, (cellsText pre).len + c.text.len) ∧
      (fieldSpans (cellsText (pre ++ c :: d :: post) ++ tail))[5]? =
        some ((cellsText pre).len + c.text.len + d.gap.len, (cellsText pre).len + c.text.len + d.text.len) := by
  have hlen : (spansOf 0 pre).length = 4 := by rw [length_spansOf, hpre]
  rw [fieldSpans_text h ht, spansOf_append, Nat.zero_add, spansOf, spansOf]
  constructor
  · rw [List.getElem?_append_right (by omega), hlen]
    rfl
  · rw [List.getElem?_append_right (by omega), hlen]
    rfl

/-- Normalising a row with six fields or more. -/
theorem normalize_cells {pre post : List Cell} {c d : Cell} (hpre : pre.length = 4) {tail : Str}
    (h : Cells false (pre ++ c :: d :: post)) (ht : Blank tail) :
    normalizeSpecialPosixLine (cellsText (pre ++ c :: d :: post) ++ tail) =
      some (if firstByteIn ['b', 'c'] (cellsText (pre ++ c :: d :: post) ++ tail) = true ∧
          IsMajor c.field = true ∧ IsDigits d.field = true then
        cellsText (pre ++ ⟨c.gap, ['0']⟩ :: post) ++ tail
      else cellsText (pre ++ c :: d :: post) ++ tail) := by
  obtain ⟨h4, h5⟩ := fieldSpans_device hpre h ht
  have hrest : ∃ R, R = cellsText post ++ tail ∧
      cellsText (pre ++ c :: d :: post) ++ tail = cellsText pre ++ (c.text ++ (d.text ++ R)) := ⟨_, rfl, by simp⟩
  obtain ⟨R, hR, hline⟩ := hrest
  generalize cellsText (pre ++ c :: d :: post) ++ tail = line at h4 h5 hline ⊢
  have hlong : 5 < (fieldSpans line).length := (List.getElem?_eq_some_iff.mp h5).1
  have hmajor : line.slice ((cellsText pre).len + c.gap.len) ((cellsText pre).len + c.text.len) =
      some c.field := by
    refine slice_at (p := cellsText pre ++ c.gap) (u := d.text ++ R) ?_ ?_ ?_ <;>
      simp [hline, Cell.text, Nat.add_assoc]
  have hminor : line.slice ((cellsText pre).len + c.text.len + d.gap.len)
      ((cellsText pre).len + c.text.len + d.text.len) = some d.field := by
    refine slice_at (p := cellsText pre ++ c.text ++ d.gap) (u := R) ?_ ?_ ?_ <;>
      simp [hline, Cell.text, Nat.add_assoc]
  have hreplace : line.replaceRange ((cellsText pre).len + c.gap.len)
      ((cellsText pre).len + c.text.len + d.text.len) ['0'] =
        some (cellsText pre ++ c.gap ++ ['0'] ++ R) := by
    refine replaceRange_at (p := cellsText pre ++ c.gap) (t := c.field ++ d.text) ?_ ?_ ?_ <;>
      simp [hline, Cell.text, Nat.add_assoc]
  have hnew : cellsText (pre ++ ⟨c.gap, ['0']⟩ :: post) ++ tail = cellsText pre ++ c.gap ++ ['0'] ++ R := by
    simp [hR, Cell.text]
  simp only [normalizeSpecialPosixLine, h4, h5, hmajor, hminor, hreplace, hnew, Option.bind_eq_bind,
    Option.bind_some, Option.pure_def, hlong, true_and]
  by_cases hb : firstByteIn ['b', 'c'] line = true
  · by_cases hm : IsMajor c.field = true
    · by_cases hd : IsDigits d.field = true
      · rw [if_pos hb, if_pos (isMajor_iff.mp hm), if_pos (isDigits_iff.mp hd), if_pos ⟨hb, hm, hd⟩]
      · rw [if_pos hb, if_pos (isMajor_iff.mp hm), if_neg (mt isDigits_iff.mpr hd), if_neg fun h => hd h.2.2]
    · rw [if_pos hb, if_neg (mt isMajor_iff.mpr hm), if_neg Bool.false_ne_true,
        if_neg fun h => hm h.2.1]
  · rw [if_neg hb, if_neg Bool.false_ne_true, if_neg fun h => hb h.1]

theorem Cells.merge {f : Bool} {pre post : List Cell} {c d : Cell} (h : Cells f (pre ++ c :: d :: post))
    {w : Str} (hw : w ≠ []) (hs : Solids w) : Cells f (pre ++ ⟨c.gap, w⟩ :: post) := by
  induction pre generalizing f with
  | nil =>
    have hc := h.good c (List.mem_cons_self ..)
    exact .cons ⟨hc.gap, hw, hs⟩ (fun hf => h.first hf c rfl) h.tail.tail
  | cons x pre ih => exact .cons (h.good x (List.mem_cons_self ..)) (fun hf => h.first hf x rfl) (ih h.tail)

/-- Normalising a block or character device replaces its fifth
and sixth field by `0` and leaves the text around them; other rows stay as they
are, and so do normalised ones. -/
theorem normalizeSpecialPosixLine_fields (line : Str) :
    ∃ fs l, fields line = some fs ∧ normalizeSpecialPosixLine line = some l ∧
      normalizeSpecialPosixLine l = some l ∧ (¬ IsDevice line fs → l = line) ∧
      (IsDevice line fs → fields l = some (fs.take 4 ++ ['0'] :: fs.drop 6) ∧
        ∃ before old after fifth sixth, (fieldSpans line)[4]? = some fifth ∧
          (fieldSpans line)[5]? = some sixth ∧ line = before ++ old ++ after ∧
          before.len = fifth.1 ∧ (before ++ old).len = sixth.2 ∧ l = before ++ ['0'] ++ after) := by
  obtain ⟨cs, tail, hcs, ht, rfl⟩ := exists_cells line
  by_cases hshort : cs.length ≤ 5
  · have hnorm : normalizeSpecialPosixLine (cellsText cs ++ tail) = some (cellsText cs ++ tail) :=
      normalize_short (by rw [fieldSpans_text hcs ht, length_spansOf]; omega)
    refine ⟨_, _, fields_text hcs ht, hnorm, hnorm, fun _ => rfl, ?_⟩
    rintro ⟨-, -, -, -, minor, hminor, -⟩
    rw [List.getElem?_eq_none (by rw [List.length_map]; exact hshort)] at hminor
    cases hminor
  · obtain ⟨pre, c, d, post, rfl, hpre⟩ : ∃ pre c d post, cs = pre ++ c :: d :: post ∧ pre.length = 4 := by
      rcases cs with _ | ⟨x0, _ | ⟨x1, _ | ⟨x2, _ | ⟨x3, _ | ⟨c, _ | ⟨d, post⟩⟩⟩⟩⟩⟩
      case cons.cons.cons.cons.cons.cons => exact ⟨[x0, x1, x2, x3], c, d, post, rfl, rfl⟩
      all_goals simp at hshort
    have hnorm := normalize_cells hpre hcs ht
    have hdevice : IsDevice (cellsText (pre ++ c :: d :: post) ++ tail)
        ((pre ++ c :: d :: post).map Cell.field) ↔
          firstByteIn ['b', 'c'] (cellsText (pre ++ c :: d :: post) ++ tail) = true ∧
            IsMajor c.field = true ∧ IsDigits d.field = true := by
      obtain ⟨x0, x1, x2, x3, rfl⟩ := List.length_eq_four.mp hpre
      simp [IsDevice]
    by_cases hdev : IsDevice (cellsText (pre ++ c :: d :: post) ++ tail)
      ((pre ++ c :: d :: post).map Cell.field)
    · rw [if_pos (hdevice.mp hdev)] at hnorm
      have hzero : Cells false (pre ++ ⟨c.gap, ['0']⟩ :: post) := hcs.merge (by simp) (by simp [Solids, Str.isAsciiWhitespace])
      refine ⟨_, _, fields_text hcs ht, hnorm, ?_, fun h => absurd hdev h, fun _ => ⟨?_, ?_⟩⟩
      · rcases post with _ | ⟨e, post⟩
        · refine normalize_short ?_
          rw [fieldSpans_text hzero ht, length_spansOf, List.length_append, hpre]
          simp
        · rw [normalize_cells hpre hzero ht, if_neg]
          rintro ⟨-, hm, -⟩
          have hzero : ¬ IsMajor ['0'] = true := by decide
          exact hzero hm
      · rw [fields_text hzero ht]
        obtain ⟨x0, x1, x2, x3, rfl⟩ := List.length_eq_four.mp hpre
        rfl
      · obtain ⟨h4, h5⟩ := fieldSpans_device hpre hcs ht
        refine ⟨cellsText pre ++ c.gap, c.field ++ d.text, cellsText post ++ tail, _, _, h4, h5, ?_, ?_, ?_, ?_⟩ <;>
          simp [Cell.text, Nat.add_assoc]
    · rw [if_neg (mt hdevice.mpr hdev)] at hnorm
      exact ⟨_, _, fields_text hcs ht, hnorm, hnorm, fun _ => rfl, fun h => absurd h hdev⟩

/-- A block device of major 8 and minor 0. -/
def deviceRow : Str := "brw-rw---- 1 root disk 8, 0 Jan 1 1970 sda".toList

example : normalizeSpecialPosixLine deviceRow = some "brw-rw---- 1 root disk 0 Jan 1 1970 sda".toList := by
  decide

/-- **Splitting and normalising preserve the row.** -/
theorem fields_preserved (line : Str) :
    ((∀ s, s ∈ fieldSpans line ↔ IsRun line.bytes s) ∧
      (fieldSpans line).Pairwise fun s t => s.2 < t.1) ∧
    ∃ fs l, fields line = some fs ∧ normalizeSpecialPosixLine line = some l ∧
      normalizeSpecialPosixLine l = some l ∧ (¬ IsDevice line fs → l = line) ∧
      (IsDevice line fs → fields l = some (fs.take 4 ++ ['0'] :: fs.drop 6) ∧
        ∃ before old after fifth sixth, (fieldSpans line)[4]? = some fifth ∧
          (fieldSpans line)[5]? = some sixth ∧ line = before ++ old ++ after ∧
          before.len = fifth.1 ∧ (before ++ old).len = sixth.2 ∧ l = before ++ ['0'] ++ after) :=
  ⟨fieldSpans_runs line, normalizeSpecialPosixLine_fields line⟩

end RemotefsFtp.L2
