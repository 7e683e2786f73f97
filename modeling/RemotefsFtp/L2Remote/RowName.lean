import RemotefsFtp.L2Remote.Fields
import RemotefsFtp.L2Remote.Confined

/-!
# Names a row keeps (`src/client/list.rs`)

What `rejectAmbiguousListName` accepts, by row format. The row parser drops
all whitespace in front of a name and cuts a symlink at an arrow; an accepted
row is one where that changes no name.

Results:
* **`rejectAmbiguousPosixNameBoundary_iff`**: which POSIX rows are accepted.
* **`symlink_split_iff`**: when an accepted symlink row splits in one way.
* **`dos_name_kept`**: an accepted DOS row has nothing but a separator in front
  of its name, where the scan finds the end of the metadata.
-/
namespace RemotefsFtp.L2

open L1 (Str)

/-! ## Whitespace -/

theorem isWhitespace_of_ascii {c : Char} (h : Str.isAsciiWhitespace c.toNat = true) :
    Str.isWhitespace c = true := by
  simp only [Str.isAsciiWhitespace, Bool.or_eq_true, decide_eq_true_eq] at h
  simp only [Str.isWhitespace, Bool.or_eq_true, Bool.and_eq_true, decide_eq_true_eq]
  omega

theorem utf8Size_of_blank {c : Char} (h : Str.isAsciiWhitespace c.toNat = true) : c.utf8Size = 1 := by
  simp only [Str.isAsciiWhitespace, Bool.or_eq_true, decide_eq_true_eq] at h
  have hlen := String.length_utf8EncodeChar c
  rw [Str.bytes_ascii (by omega)] at hlen
  exact hlen.symm

theorem Blank.len {s : Str} (h : Blank s) : s.len = s.length := by
  induction s with
  | nil => rfl
  | cons c s ih =>
    rw [Str.len_cons, utf8Size_of_blank (h c (List.mem_cons_self ..)),
      ih fun x hx => h x (List.mem_cons_of_mem _ hx), List.length_cons, Nat.add_comm]

/-- The first character behind ASCII padding. -/
theorem padding_append {g s : Str} (hg : Blank g)
    (hs : ∀ c ∈ s.head?, Str.isAsciiWhitespace c.toNat = false) :
    hasUnicodeWhitespaceAfterAsciiPadding (g ++ s) = s.head?.any Str.isWhitespace := by
  have hdrop : (g ++ s).dropWhile (fun c => Str.isAsciiWhitespace c.toNat) = s := by
    rw [List.dropWhile_append_of_pos hg]
    rcases s with _ | ⟨c, s⟩
    · rfl
    · rw [List.dropWhile_cons_of_neg (by simp [hs c rfl])]
  rw [hasUnicodeWhitespaceAfterAsciiPadding, hdrop]

/-! ## POSIX rows -/

/-- The row the checks and the parser read. -/
def normalizedRow (line : Str) : Option Str :=
  if firstByteIn specialMarks line then normalizeSpecialPosixLine line else some line

/-- What may follow the last field in front of the name: nothing, or one
separator and a name that starts with no whitespace. -/
def OneSeparator (suffix : Str) : Prop :=
  suffix = [] ∨ ∃ c d rest, suffix = c :: d :: rest ∧ Str.isAsciiWhitespace c.toNat = true ∧
    Str.isWhitespace d = false

theorem posix_accepted {line l upTo suffix : Str} (hm : firstByteIn posixMarks line = true)
    (hl : normalizedRow line = some l) {e : Nat × Nat} (h7 : (fieldSpans l)[7]? = some e)
    (hcut : l = upTo ++ suffix) (hlen : upTo.len = e.2) :
    (rejectAmbiguousPosixNameBoundary line).run = some (.ok ()) ↔
      (match (fieldSpans l)[8]? with | some t => decide (e.2 + 1 < t.1) | none => false) = false ∧
      containsUnicodeWhitespace upTo = false ∧
      (!suffix.isEmpty && suffix.all Str.isWhitespace) = false ∧
      hasUnicodeWhitespaceAfterAsciiPadding suffix = false := by
  have h8 : 8 ≤ (fieldSpans l).length := (List.getElem?_eq_some_iff.mp h7).1
  have hto : l.sliceTo e.2 = some upTo := by rw [hcut, ← hlen]; exact Str.sliceTo_append ..
  have hfrom : l.sliceFrom e.2 = some suffix := by rw [hcut, ← hlen]; exact Str.sliceFrom_append ..
  unfold rejectAmbiguousPosixNameBoundary
  rw [normalizedRow] at hl
  simp only [run_slicing_bind, run_rejectIf_bind, run_rejectIf_ok, hl, Option.some.injEq, exists_eq_left', h7,
    hm, hto, hfrom, Bool.true_and, h8, decide_true]
  cases (fieldSpans l)[8]? <;> rfl

theorem containsUnicodeWhitespace_eq_false {s : Str} : containsUnicodeWhitespace s = false ↔
    ∀ c ∈ s, Str.isWhitespace c = true → Str.isAsciiWhitespace c.toNat = true := by
  simp [containsUnicodeWhitespace]

/-- The suffix of a row that ends with its last field. -/
theorem suffix_blank {tail : Str} (ht : Blank tail) :
    (!tail.isEmpty && tail.all Str.isWhitespace) = false ↔ OneSeparator tail := by
  have hall : tail.all Str.isWhitespace = true :=
    List.all_eq_true.mpr fun c hc => isWhitespace_of_ascii (ht c hc)
  rw [hall, Bool.and_true]
  constructor
  · exact fun h => .inl (by simpa using h)
  · rintro (rfl | ⟨c, d, rest, rfl, -, hd⟩)
    · rfl
    · have := isWhitespace_of_ascii (ht d (by simp))
      rw [hd] at this
      cases this

/-- The suffix of a row with a name. -/
theorem suffix_named {gap field rest : Str} (hg : Blank gap) (hgap : gap ≠ []) (hf : Solids field)
    (hne : field ≠ []) :
    gap.len ≤ 1 ∧ hasUnicodeWhitespaceAfterAsciiPadding (gap ++ (field ++ rest)) = false ↔
      OneSeparator (gap ++ (field ++ rest)) := by
  obtain ⟨d, f, rfl⟩ := List.exists_cons_of_ne_nil hne
  obtain ⟨c, g, rfl⟩ := List.exists_cons_of_ne_nil hgap
  have hc := hg c (List.mem_cons_self ..)
  rw [padding_append hg (by rintro x ⟨⟩; exact hf _ (List.mem_cons_self ..)), hg.len]
  constructor
  · rintro ⟨h1, h2⟩
    obtain rfl : g = [] := List.length_eq_zero_iff.mp (by simpa using h1)
    exact .inr ⟨c, d, f ++ rest, rfl, hc, h2⟩
  · rintro (h | ⟨c', d', rest', h, -, hd⟩)
    · cases h
    · rcases g with _ | ⟨x, g⟩
      · cases h
        exact ⟨Nat.le_refl _, hd⟩
      · cases h
        have := isWhitespace_of_ascii (hg d' (by simp))
        rw [hd] at this
        cases this

/-- A name that starts with no whitespace is not made only of it. -/
theorem not_all_whitespace {gap field rest : Str} (hg : Blank gap) (hf : Solids field) (hne : field ≠ [])
    (h : hasUnicodeWhitespaceAfterAsciiPadding (gap ++ (field ++ rest)) = false) :
    (gap ++ (field ++ rest)).all Str.isWhitespace = false := by
  obtain ⟨d, f, rfl⟩ := List.exists_cons_of_ne_nil hne
  rw [padding_append hg (by rintro x ⟨⟩; exact hf _ (List.mem_cons_self ..))] at h
  have hd : Str.isWhitespace d = false := h
  simp [hd]

/-- **POSIX rows.** A row whose normalised form has eight fields or more is
accepted if there is only ASCII whitespace up to the end of the eighth field,
and behind it nothing, or one separator and a name that starts with no
whitespace; then dropping the whitespace behind the eighth field drops the
separator. -/
theorem rejectAmbiguousPosixNameBoundary_iff {line : Str} (hm : firstByteIn posixMarks line = true) :
    ∃ l, normalizedRow line = some l ∧ (8 ≤ (fieldSpans l).length →
      ∃ e upTo suffix, (fieldSpans l)[7]? = some e ∧ l = upTo ++ suffix ∧ upTo.len = e.2 ∧
        ((rejectAmbiguousPosixNameBoundary line).run = some (.ok ()) ↔
          (∀ c ∈ upTo, Str.isWhitespace c = true → Str.isAsciiWhitespace c.toNat = true) ∧
            OneSeparator suffix) ∧
        ((rejectAmbiguousPosixNameBoundary line).run = some (.ok ()) →
          suffix.dropWhile Str.isWhitespace = suffix.tail)) := by
  obtain ⟨l, hl⟩ : ∃ l, normalizedRow line = some l := by
    unfold normalizedRow
    split
    · exact (normalizeSpecialPosixLine_total line).imp fun _ h => h.1
    · exact ⟨_, rfl⟩
  refine ⟨l, hl, fun h8 => ?_⟩
  obtain ⟨cs, tail, hcs, ht, hcut⟩ := exists_cells l
  have hspans : fieldSpans l = spansOf 0 cs := by rw [hcut, fieldSpans_text hcs ht]
  rw [hspans, length_spansOf] at h8
  obtain ⟨pre, c, post, rfl, hpre⟩ : ∃ pre c post, cs = pre ++ c :: post ∧ pre.length = 7 :=
    ⟨cs.take 7, cs[7], cs.drop 8, by
      rw [← List.drop_eq_getElem_cons, List.take_append_drop], List.length_take_of_le (by omega)⟩
  have hlen : (spansOf 0 pre).length = 7 := by rw [length_spansOf, hpre]
  rw [spansOf_append, Nat.zero_add, spansOf] at hspans
  have h7 : (fieldSpans l)[7]? = some ((cellsText pre).len + c.gap.len, (cellsText pre).len + c.text.len) := by
    rw [hspans, List.getElem?_append_right (by omega), hlen]
    rfl
  have hnext : (fieldSpans l)[8]? = (spansOf ((cellsText pre).len + c.text.len) post)[0]? := by
    rw [hspans, List.getElem?_append_right (by omega), hlen]
    rfl
  have hsplit : l = (cellsText pre ++ c.text) ++ (cellsText post ++ tail) := by rw [hcut]; simp
  have hup : (cellsText pre ++ c.text).len = (cellsText pre).len + c.text.len := Str.len_append ..
  have hacc : (rejectAmbiguousPosixNameBoundary line).run = some (.ok ()) ↔
      (∀ x ∈ cellsText pre ++ c.text, Str.isWhitespace x = true → Str.isAsciiWhitespace x.toNat = true) ∧
        OneSeparator (cellsText post ++ tail) := by
    rw [posix_accepted hm hl h7 hsplit hup, hnext, containsUnicodeWhitespace_eq_false]
    rcases post with _ | ⟨d, ds⟩
    · have hpad := padding_append (s := []) ht (by simp)
      rw [List.append_nil] at hpad
      show false = false ∧ _ ∧ (!tail.isEmpty && tail.all Str.isWhitespace) = false ∧
        hasUnicodeWhitespaceAfterAsciiPadding tail = false ↔ _ ∧ OneSeparator tail
      rw [suffix_blank ht, hpad]
      exact ⟨fun h => ⟨h.2.1, h.2.2.1⟩, fun h => ⟨rfl, h.1, h.2, rfl⟩⟩
    · have hd : d.Good := hcs.good d (by simp)
      have hgap : d.gap ≠ [] := hcs.apart d (by rcases pre with _ | ⟨x, pre⟩ <;> simp)
      have happ : cellsText (d :: ds) ++ tail = d.gap ++ (d.field ++ (cellsText ds ++ tail)) := by
        simp [Cell.text]
      rw [happ, ← suffix_named hd.gap hgap hd.field hd.ne]
      have hfirst : (match (spansOf ((cellsText pre).len + c.text.len) (d :: ds))[0]? with
          | some t => decide ((cellsText pre).len + c.text.len + 1 < t.1)
          | none => false) = false ↔ d.gap.len ≤ 1 := by
        show decide (_ + 1 < _ + d.gap.len) = false ↔ _
        rw [decide_eq_false_iff_not]
        omega
      rw [hfirst]
      constructor
      · exact fun h => ⟨h.2.1, h.1, h.2.2.2⟩
      · rintro ⟨h1, h2, h3⟩
        refine ⟨h2, h1, ?_, h3⟩
        rw [not_all_whitespace hd.gap hd.field hd.ne h3, Bool.and_false]
  refine ⟨_, _, _, h7, hsplit, hup, hacc, fun h => ?_⟩
  rcases (hacc.mp h).2 with h | ⟨x, y, rest, h, hx, hy⟩
  · rw [h]
    rfl
  · rw [h, List.dropWhile_cons_of_pos (isWhitespace_of_ascii hx), List.dropWhile_cons_of_neg (by simp [hy]),
      List.tail_cons]

theorem rejectAmbiguousPosixNameBoundary_row :
    ∃ l, normalizedRow plainRow = some l ∧ (8 ≤ (fieldSpans l).length →
      ∃ e upTo suffix, (fieldSpans l)[7]? = some e ∧ l = upTo ++ suffix ∧ upTo.len = e.2 ∧
        ((rejectAmbiguousPosixNameBoundary plainRow).run = some (.ok ()) ↔
          (∀ c ∈ upTo, Str.isWhitespace c = true → Str.isAsciiWhitespace c.toNat = true) ∧
            OneSeparator suffix) ∧
        ((rejectAmbiguousPosixNameBoundary plainRow).run = some (.ok ()) →
          suffix.dropWhile Str.isWhitespace = suffix.tail)) :=
  rejectAmbiguousPosixNameBoundary_iff (by decide)

/-! ## Symlink rows -/

/-- What separates a link from its target. -/
def arrow : Str := " -> ".toList

/-- Two separators that share a space. -/
def doubleArrow : Str := " -> -> ".toList

theorem countMatches_skip (w : Str) (k : Nat) (s : Str) :
    Str.countMatches w k s = Str.countMatches w 0 (s.drop k) := by
  induction k generalizing s with
  | zero => rw [List.drop_zero]
  | succ k ih =>
    rcases s with _ | ⟨c, s⟩
    · rfl
    · rw [List.drop_succ_cons, ← ih]
      rfl

/-- A text that starts with a match. -/
theorem countMatches_append {w : Str} (hw : w ≠ []) (s : Str) :
    Str.countMatches w 0 (w ++ s) = Str.countMatches w 0 s + 1 := by
  obtain ⟨c, v, rfl⟩ := List.exists_cons_of_ne_nil hw
  have hpre : List.isPrefixOf (c :: v) (c :: (v ++ s)) = true :=
    List.isPrefixOf_iff_prefix.mpr (List.prefix_append (c :: v) s)
  rw [List.cons_append, Str.countMatches, if_pos hpre, List.length_cons, Nat.add_sub_cancel,
    countMatches_skip, List.drop_left]

theorem countMatches_cons {w s : Str} {c : Char} (h : ¬ w <+: c :: s) :
    Str.countMatches w 0 (c :: s) = Str.countMatches w 0 s := by
  rw [Str.countMatches, if_neg (mt List.isPrefixOf_iff_prefix.mp h)]

/-- Where the text occurs, there is a match. -/
theorem countMatches_pos {w : Str} (hw : w ≠ []) (a b : Str) :
    0 < Str.countMatches w 0 (a ++ (w ++ b)) := by
  induction a with
  | nil =>
    rw [List.nil_append, countMatches_append hw]
    omega
  | cons c a ih =>
    by_cases hp : w <+: c :: (a ++ (w ++ b))
    · obtain ⟨t, ht⟩ := hp
      rw [List.cons_append, ← ht, countMatches_append hw]
      omega
    · rw [List.cons_append, countMatches_cons hp]
      exact ih

/-- Two places where the arrow occurs: two matches, or one that shares its
space with the next. -/
theorem arrows_apart {s a b a' b' : Str} (h : s = a ++ (arrow ++ b)) (h' : s = a' ++ (arrow ++ b'))
    (hlt : a.length < a'.length) : 2 ≤ Str.countMatches arrow 0 s ∨ doubleArrow <:+: s := by
  induction a' generalizing s a with
  | nil => cases hlt
  | cons c a' ih =>
    by_cases hp : arrow <+: s
    · obtain ⟨t, ht⟩ := hp
      have hcount : Str.countMatches arrow 0 s = Str.countMatches arrow 0 t + 1 := by
        rw [← ht, countMatches_append (by decide)]
      -- the first match is at the start; where is the later place?
      rcases a' with _ | ⟨c1, _ | ⟨c2, _ | ⟨c3, a'⟩⟩⟩
      · rw [← ht] at h'
        cases h'
      · rw [← ht] at h'
        cases h'
      · rw [← ht] at h'
        cases h'
        exact .inr ⟨[], b', by rw [← ht]; rfl⟩
      · rw [← ht] at h'
        have htail : t = a' ++ (arrow ++ b') := by
          simp only [arrow] at h'
          cases h'
          rfl
        have := countMatches_pos (w := arrow) (by decide) a' b'
        rw [← htail] at this
        omega
    · rcases a with _ | ⟨d, a⟩
      · exact absurd ⟨b, h.symm⟩ hp
      · obtain ⟨s, rfl⟩ : ∃ s', s = d :: s' := ⟨_, h⟩
        have hd : c = d := by cases h'; rfl
        rcases ih (List.cons.inj h).2 (List.cons.inj h').2 (by simpa using hlt) with hi | hi
        · exact .inl (by rwa [countMatches_cons hp])
        · exact .inr (hi.trans (List.suffix_cons d s).isInfix)

theorem accepted_symlink {line : Str} (hl : line.head? = some 'l')
    (hacc : (rejectAmbiguousListName line).run = some (.ok ())) : Str.countMatches arrow 0 line ≤ 1 := by
  obtain ⟨line, rfl⟩ : ∃ t, line = 'l' :: t := List.head?_eq_some_iff.mp hl
  unfold rejectAmbiguousListName at hacc
  obtain ⟨-, -, hacc⟩ := run_bind_ok.mp hacc
  obtain ⟨hcount, -⟩ := run_rejectIf_bind.mp hacc
  have hfirst : firstByteIn ['l'] ('l' :: line) = true := by simp [firstByteIn]
  rw [hfirst, Bool.true_and, decide_eq_false_iff_not] at hcount
  exact Nat.le_of_not_lt hcount

/-- **Symlink rows.** An accepted one splits into a link and a target in one
way unless two separators in it share a space. -/
theorem symlink_split_iff {line : Str} (hl : line.head? = some 'l')
    (hacc : (rejectAmbiguousListName line).run = some (.ok ())) :
    (∀ a b a' b', line = a ++ (arrow ++ b) → line = a' ++ (arrow ++ b') → a = a' ∧ b = b') ↔
      ¬ doubleArrow <:+: line := by
  constructor
  · rintro h ⟨a, b, rfl⟩
    have h1 : a ++ doubleArrow ++ b = a ++ (arrow ++ ("-> ".toList ++ b)) := by
      rw [List.append_assoc]
      rfl
    have h2 : a ++ doubleArrow ++ b = (a ++ " ->".toList) ++ (arrow ++ b) := by
      rw [List.append_assoc, List.append_assoc]
      rfl
    have := congrArg List.length (h _ _ _ _ h1 h2).1
    simp at this
  · intro hd a b a' b' h h'
    have hcount := accepted_symlink hl hacc
    rcases Nat.lt_trichotomy a.length a'.length with hlt | heq | hgt
    · exact absurd (arrows_apart h h' hlt) (not_or.mpr ⟨by omega, hd⟩)
    · obtain ⟨rfl, hrest⟩ := List.append_inj (h.symm.trans h') heq
      exact ⟨rfl, List.append_cancel_left hrest⟩
    · exact absurd (arrows_apart h' h hgt) (not_or.mpr ⟨by omega, hd⟩)

/-- A link `a` whose row has one match and two separators. -/
def sharedArrowRow : Str := "lrwxrwxrwx 1 0 0 0 Jan 1 1970 a -> -> b".toList

theorem symlink_split_shared : sharedArrowRow.head? = some 'l' ∧
    (rejectAmbiguousListName sharedArrowRow).run = some (.ok ()) ∧
    ¬ ∀ a b a' b', sharedArrowRow = a ++ (arrow ++ b) → sharedArrowRow = a' ++ (arrow ++ b') →
      a = a' ∧ b = b' := by
  refine ⟨rfl, by rfl, fun h => ?_⟩
  have := (h "lrwxrwxrwx 1 0 0 0 Jan 1 1970 a".toList "-> b".toList "lrwxrwxrwx 1 0 0 0 Jan 1 1970 a ->".toList
    "b".toList rfl rfl).2
  cases this

/-- A link `a` to `b`. -/
def linkRow : Str := "lrwxrwxrwx 1 0 0 0 Jan 1 1970 a -> b".toList

theorem symlink_split_row :
    (∀ a b a' b', linkRow = a ++ (arrow ++ b) → linkRow = a' ++ (arrow ++ b') → a = a' ∧ b = b') ↔
      ¬ doubleArrow <:+: linkRow :=
  symlink_split_iff rfl (by rfl)

/-! ## DOS rows -/

/-- The end of the marker a DOS row's time is found at. -/
def dosTimeEnd (line : Str) : Option Nat := do
  let afterDate ← line.sliceFrom 8
  let timeStart := (← afterDate.find fun c => !Str.isAsciiWhitespace c.toNat) + 8
  let timestamp ← line.sliceFrom timeStart
  findMeridiem timeStart (← timestamp.sliceTo ((timestamp.charIndex 8).getD timestamp.len))

/-- A search stops where the other characters end. -/
theorem find_append {p : Char → Bool} {a b : Str} (ha : ∀ c ∈ a, p c = false) (hb : ∀ c ∈ b.head?, p c = true) :
    Str.find p (a ++ b) = if b.isEmpty then none else some a.len := by
  induction a with
  | nil =>
    rcases b with _ | ⟨c, b⟩
    · rfl
    · rw [List.nil_append, Str.find, if_pos (hb c rfl)]
      rfl
  | cons c a ih =>
    rw [List.cons_append, Str.find, if_neg (by simp [ha c (List.mem_cons_self ..)]),
      ih fun x hx => ha x (List.mem_cons_of_mem _ hx)]
    cases b <;> rfl

theorem takeWhile_bytes {w s : Str} (hw : Blank w) (hs : ∀ c ∈ s.head?, Str.isAsciiWhitespace c.toNat = false) :
    ((w ++ s).bytes.takeWhile fun b => Str.isAsciiWhitespace b.toNat).length = w.length := by
  induction w with
  | nil =>
    rcases s with _ | ⟨c, s⟩
    · rfl
    · obtain ⟨b, bs, hb⟩ := List.exists_cons_of_ne_nil (String.utf8EncodeChar_ne_nil (c := c))
      have hsolid : Str.isAsciiWhitespace b.toNat = false := by
        have hc := hs c rfl
        by_cases h : c.toNat < 128
        · rw [Str.bytes_ascii h] at hb
          cases hb
          rwa [show (UInt8.ofNat c.toNat).toNat = c.toNat by rw [UInt8.toNat_ofNat']; omega]
        · have := Str.bytes_nonascii (c := c) (b := b) (by omega) (by simp [hb])
          simp only [Str.isAsciiWhitespace, Bool.or_eq_false_iff, decide_eq_false_iff_not]
          omega
      rw [List.nil_append, Str.bytes_cons, hb, List.cons_append,
        List.takeWhile_cons_of_neg (by simp [hsolid])]
      rfl
  | cons c w ih =>
    have hc := hw c (List.mem_cons_self ..)
    have hlt : c.toNat < 128 := by
      simp only [Str.isAsciiWhitespace, Bool.or_eq_true, decide_eq_true_eq] at hc
      omega
    have hbyte : (UInt8.ofNat c.toNat).toNat = c.toNat := by
      rw [UInt8.toNat_ofNat']
      omega
    rw [List.cons_append, Str.bytes_cons, Str.bytes_ascii hlt, List.singleton_append,
      List.takeWhile_cons_of_pos (by rw [hbyte]; exact hc), List.length_cons,
      ih fun x hx => hw x (List.mem_cons_of_mem _ hx), List.length_cons]

/-- A run of whitespace. -/
def Gap (w : Str) : Prop := w ≠ [] ∧ ∀ c ∈ w, Str.isWhitespace c = true

/-- The layout with aligned names. -/
def Padded (column : Nat) (w token sep : Str) : Prop :=
  token = "<DIR>".toList ∧ column + w.len = paddedMetadataColumn ∧
    column + w.len + token.len + sep.len = paddedNameColumn

/-- `sep` is one ASCII whitespace character. -/
def OneAscii (sep : Str) : Prop := ∃ c, sep = [c] ∧ Str.isAsciiWhitespace c.toNat = true

/-- A run of whitespace that passes the padding check is ASCII. -/
theorem blank_of_padding {sep name : Str} (hsep : ∀ c ∈ sep, Str.isWhitespace c = true)
    (h : hasUnicodeWhitespaceAfterAsciiPadding (sep ++ name) = false) : Blank sep := by
  induction sep with
  | nil =>
    intro c hc
    cases hc
  | cons c sep ih =>
    rw [hasUnicodeWhitespaceAfterAsciiPadding, List.cons_append] at h
    by_cases hc : Str.isAsciiWhitespace c.toNat = true
    · rw [List.dropWhile_cons_of_pos (by exact hc)] at h
      have hrest : Blank sep := ih (fun x hx => hsep x (List.mem_cons_of_mem _ hx)) h
      exact List.forall_mem_cons.mpr ⟨hc, hrest⟩
    · rw [List.dropWhile_cons_of_neg (by exact hc)] at h
      have hw : Str.isWhitespace c = false := h
      rw [hsep c (List.mem_cons_self ..)] at hw
      cases hw

/-- Where the scan ends its token at a separator, it reads the separator as it
stands. -/
theorem dosMetadata_accepted {column : Nat} {token sep name : Str} (ht : Solids token) (hsep : Gap sep)
    (hfirst : ∀ c ∈ sep.head?, Str.isAsciiWhitespace c.toNat = true)
    (hname : ∀ c ∈ name.head?, Str.isAsciiWhitespace c.toNat = false)
    (h : (rejectAmbiguousDosMetadata column (token ++ (sep ++ name))).run = some (.ok ())) :
    Blank sep ∧ (sep.length ≤ 1 ∨ token = "<DIR>".toList ∧ column = paddedMetadataColumn ∧
      column + token.len + sep.len = paddedNameColumn) := by
  have hend : ((token ++ (sep ++ name)).find fun c => Str.isAsciiWhitespace c.toNat) = some token.len := by
    obtain ⟨c, rest, rfl⟩ := List.exists_cons_of_ne_nil hsep.1
    rw [find_append ht (by rintro x ⟨⟩; exact hfirst _ rfl)]
    rfl
  unfold rejectAmbiguousDosMetadata at h
  simp only [hend, Option.getD_some, run_slicing_bind, Str.sliceTo_append, Str.sliceFrom_append,
    Option.some.injEq, exists_eq_left', run_rejectIf_bind, run_rejectIf_ok] at h
  obtain ⟨-, hpad, h⟩ := h
  have hblank : Blank sep := blank_of_padding hsep.2 hpad
  refine ⟨hblank, ?_⟩
  rw [takeWhile_bytes hblank hname, Bool.and_eq_false_iff] at h
  rcases h with h | h
  · exact .inl (by simpa using h)
  · simp only [Bool.not_eq_false', Bool.and_eq_true, decide_eq_true_eq] at h
    rw [← hblank.len] at h
    exact .inr ⟨h.1.1, h.1.2, h.2⟩

theorem dos_not_posix {line : Str} (h : looksLikeDosListing line = true) :
    firstByteIn ['-', 'l', 'd'] line = false := by
  by_contra hf
  obtain ⟨c, t, rfl, hc⟩ := firstByteIn_cons (by simpa using hf)
  simp only [looksLikeDosListing] at h
  split at h
  · rename_i b0 b1 b2 b3 b4 b5 b6 b7 bs hb
    simp only [Bool.and_eq_true, Str.isAsciiDigit, decide_eq_true_eq] at h
    obtain ⟨⟨⟨⟨⟨⟨-, h0⟩, -⟩, -⟩, -⟩, -⟩, -⟩ := h
    rw [Str.bytes_cons] at hb
    simp only [List.mem_cons, List.not_mem_nil, or_false] at hc
    rcases hc with rfl | rfl | rfl <;>
      · rw [Str.bytes_ascii (by decide)] at hb
        rw [← (List.cons.inj hb).1] at h0
        simp at h0
  · cases h

/-- What an accepted DOS row has behind its time. -/
theorem accepted_dos {line rest head : Str} (hd : looksLikeDosListing line = true)
    (hacc : (rejectAmbiguousListName line).run = some (.ok ())) (hend : dosTimeEnd line = some head.len)
    (hline : line = head ++ rest) :
    (rest.head?.any fun c => Str.isWhitespace c && !Str.isAsciiWhitespace c.toNat) = false ∧
      ∀ start metadata, (rest.find fun c => !Str.isAsciiWhitespace c.toNat) = some start →
        rest.sliceFrom start = some metadata →
        (rejectAmbiguousDosMetadata (head.len + start) metadata).run = some (.ok ()) := by
  have hrest : line.sliceFrom head.len = some rest := by rw [hline]; exact Str.sliceFrom_append ..
  obtain ⟨afterDate, hafter, hend⟩ := Option.bind_eq_some_iff.mp hend
  obtain ⟨time, htime, hend⟩ := Option.bind_eq_some_iff.mp hend
  obtain ⟨timestamp, hstamp, hend⟩ := Option.bind_eq_some_iff.mp hend
  obtain ⟨pre, hpre, hend⟩ := Option.bind_eq_some_iff.mp hend
  unfold rejectAmbiguousListName at hacc
  obtain ⟨-, -, hacc⟩ := run_bind_ok.mp hacc
  obtain ⟨-, hacc⟩ := run_rejectIf_bind.mp hacc
  rw [dos_not_posix hd, hd, Bool.not_false, Bool.true_and, if_pos rfl] at hacc
  unfold rejectAmbiguousDosNameBoundary at hacc
  simp only [run_slicing_bind, hafter, Option.some.injEq, exists_eq_left', htime, Option.map_some, hstamp, hpre,
    hend, hrest, run_rejectIf_bind] at hacc
  refine ⟨hacc.1, fun start metadata hstart hmeta => ?_⟩
  have := hacc.2
  simp only [hstart, run_slicing_bind, hmeta, Option.some.injEq, exists_eq_left'] at this
  exact this

/-- Behind the time of a row: whitespace, a token, a separator and a name. -/
structure DosRow (line head w token sep name : Str) : Prop where
  shape : looksLikeDosListing line = true
  time : dosTimeEnd line = some head.len
  text : line = head ++ (w ++ (token ++ (sep ++ name)))
  gap : Gap w
  token : token ≠ [] ∧ ∀ c ∈ token, Str.isWhitespace c = false
  sep : Gap sep
  name : ∃ c ∈ name.head?, Str.isWhitespace c = false

/-- The scan goes by ASCII whitespace. It ends its token where the row's token
ends if the separator starts with an ASCII character and, in front of the
token, no ASCII whitespace follows another one; so it does where all of that
whitespace is ASCII. -/
structure TokenEndRead (w sep : Str) : Prop where
  front : ∃ blank other, w = blank ++ other ∧ Blank blank ∧ Solids other
  behind : ∀ c ∈ sep.head?, Str.isAsciiWhitespace c.toNat = true

theorem tokenEndRead_of_blank {w sep : Str} (hw : Blank w) (hsep : Blank sep) : TokenEndRead w sep where
  front := ⟨w, [], (List.append_nil w).symm, hw, by simp [Solids]⟩
  behind c hc := hsep c (List.mem_of_mem_head? hc)

theorem solid_of_not_whitespace {c : Char} (h : Str.isWhitespace c = false) :
    Str.isAsciiWhitespace c.toNat = false := by
  by_contra hn
  rw [isWhitespace_of_ascii (by simpa using hn)] at h
  cases h

/-- **DOS rows.** Behind the time of an accepted one stand whitespace, a token,
a separator and the name. Where the scan finds the end of the token, the
separator is one ASCII character, or the layout is the aligned one. -/
theorem dos_name_kept {line head w token sep name : Str} (h : DosRow line head w token sep name)
    (hacc : (rejectAmbiguousListName line).run = some (.ok ())) (hread : TokenEndRead w sep) :
    OneAscii sep ∨ Padded head.len w token sep := by
  obtain ⟨blank, other, rfl, hblank, hother⟩ := hread.front
  have htoken : Solids token := fun c hc => solid_of_not_whitespace (h.token.2 c hc)
  -- what the scan takes for the token
  have hscan : Solids (other ++ token) := by
    intro c hc
    rcases List.mem_append.mp hc with hc | hc
    · exact hother c hc
    · exact htoken c hc
  have hne : other ++ token ≠ [] := List.append_ne_nil_of_right_ne_nil _ h.token.1
  have htext : line = head ++ (blank ++ ((other ++ token) ++ (sep ++ name))) := by
    rw [h.text]
    simp only [List.append_assoc]
  have hfind : ((blank ++ ((other ++ token) ++ (sep ++ name))).find fun c => !Str.isAsciiWhitespace c.toNat) =
      some blank.len := by
    obtain ⟨c, rest, hcons⟩ := List.exists_cons_of_ne_nil hne
    have hc : Str.isAsciiWhitespace c.toNat = false := hscan c (by rw [hcons]; exact List.mem_cons_self ..)
    rw [hcons, find_append (fun x hx => by simp [hblank x hx]) (by rintro x ⟨⟩; simp [hc])]
    rfl
  obtain ⟨c, hc, hcw⟩ := h.name
  have hname : ∀ x ∈ name.head?, Str.isAsciiWhitespace x.toNat = false := by
    intro x hx
    obtain rfl := Option.mem_unique hc hx
    exact solid_of_not_whitespace hcw
  obtain ⟨-, hmeta⟩ := accepted_dos h.shape hacc h.time htext
  obtain ⟨hsep, hle | ⟨hdir, hcolumn, hstart⟩⟩ := dosMetadata_accepted hscan h.sep hread.behind hname
    (hmeta blank.len _ hfind (Str.sliceFrom_append ..))
  · obtain ⟨x, rest, rfl⟩ := List.exists_cons_of_ne_nil h.sep.1
    obtain rfl : rest = [] := List.length_eq_zero_iff.mp (by simpa using hle)
    exact .inl ⟨x, rfl, hsep x (List.mem_cons_self ..)⟩
  · -- a token that starts with whitespace is no marker of a directory
    rcases other with _ | ⟨x, other⟩
    · rw [List.append_nil]
      exact .inr ⟨hdir, hcolumn, hstart⟩
    · have hx : Str.isWhitespace x = true := h.gap.2 x (by simp)
      have hlt : x = '<' := (List.cons.inj (hdir : x :: (other ++ token) = ['<', 'D', 'I', 'R', '>'])).1
      rw [hlt] at hx
      cases hx

/-- A row whose only separator in front of the name is a no-break space. -/
def noBreakRow : Str := "01-01-20 01:00PM 5\u00a0a".toList

theorem dos_name_dropped : (rejectAmbiguousListName noBreakRow).run = some (.ok ()) ∧
    ¬ ∀ head w token sep name, DosRow noBreakRow head w token sep name →
      OneAscii sep ∨ Padded (Str.len head) w token sep := by
  refine ⟨by rfl, fun h => ?_⟩
  have hrow : DosRow noBreakRow "01-01-20 01:00PM".toList [' '] ['5'] ['\u00a0'] ['a'] :=
    ⟨rfl, rfl, rfl, ⟨by simp, List.forall_mem_singleton.mpr rfl⟩,
      ⟨by simp, List.forall_mem_singleton.mpr rfl⟩, ⟨by simp, List.forall_mem_singleton.mpr rfl⟩, 'a', rfl, rfl⟩
  rcases h _ _ _ _ _ hrow with ⟨c, hc, ha⟩ | ⟨ht, -⟩
  · cases hc
    cases ha
  · cases ht

/-- A file of five bytes. -/
def dosRow : Str := "01-01-20 01:00PM 5 a".toList

theorem dos_name_kept_row : OneAscii [' '] ∨ Padded (Str.len "01-01-20 01:00PM".toList) [' '] ['5'] [' '] := by
  have hrow : DosRow dosRow "01-01-20 01:00PM".toList [' '] ['5'] [' '] ['a'] :=
    ⟨rfl, rfl, rfl, ⟨by simp, List.forall_mem_singleton.mpr rfl⟩,
      ⟨by simp, List.forall_mem_singleton.mpr rfl⟩, ⟨by simp, List.forall_mem_singleton.mpr rfl⟩, 'a', rfl, rfl⟩
  have hspace : Blank [' '] := List.forall_mem_singleton.mpr rfl
  exact dos_name_kept hrow (by rfl) (tokenEndRead_of_blank hspace hspace)

-- a no-break space between spaces is a token to the scan, which then reads
-- nothing of the separator: it accepts the row with either
example : (rejectAmbiguousListName "01-01-20 01:00PM \u00a0 5 a".toList).run = some (.ok ()) ∧
    (rejectAmbiguousListName "01-01-20 01:00PM \u00a0 5  a".toList).run = some (.ok ()) := by
  exact ⟨by rfl, by rfl⟩

end RemotefsFtp.L2
