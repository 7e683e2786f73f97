import RemotefsFtp.L2Remote.Listing

/-!
# `LIST` output never panics the client

Every offset `list.rs` slices at is a character boundary: it is the start or
the end of a field, the place a search found, or the first bytes of a row
that starts with ASCII.

Results:
* `fieldSpans_boundary`, `fieldSpans_sorted`: fields start and end on
  boundaries and do not overlap.
* **`parseListLines_total`**: parsing any rows gives entries or an error.
-/
namespace RemotefsFtp.L2

open L1 (Str Path)

/-! ## Boundaries -/

/-- `i` is a character boundary of `s`. -/
def Boundary (s : Str) (i : Nat) : Prop := ∃ p t, s = p ++ t ∧ p.len = i

namespace Boundary

variable {s t w : Str} {i j : Nat}

theorem zero (s : Str) : Boundary s 0 := ⟨[], s, rfl, rfl⟩

theorem len (s : Str) : Boundary s s.len := ⟨s, [], by simp, rfl⟩

theorem sliceFrom (h : Boundary s i) : ∃ t, s.sliceFrom i = some t := by
  obtain ⟨p, t, rfl, rfl⟩ := h
  exact ⟨t, Str.sliceFrom_append p t⟩

theorem sliceTo (h : Boundary s i) : ∃ t, s.sliceTo i = some t := by
  obtain ⟨p, t, rfl, rfl⟩ := h
  exact ⟨p, Str.sliceTo_append p t⟩

/-- A boundary of what a slice starts with. -/
theorem of_sliceFrom (h : s.sliceFrom i = some t) (hj : Boundary t j) : Boundary s (i + j) := by
  obtain ⟨p, rfl, rfl⟩ := Str.sliceFrom_some h
  obtain ⟨q, u, rfl, rfl⟩ := hj
  exact ⟨p ++ q, u, by simp, by simp⟩

theorem of_sliceTo (h : s.sliceTo i = some t) (hi : Boundary s i) (hj : Boundary t j) :
    Boundary s j := by
  obtain ⟨p, u, rfl, rfl⟩ := hi
  rw [Str.sliceTo_append] at h; cases h
  obtain ⟨q, v, rfl, rfl⟩ := hj
  exact ⟨q, v ++ u, by simp, rfl⟩

theorem le_cases (hi : Boundary s i) (hj : Boundary s j) (h : i ≤ j) :
    ∃ p t u, s = p ++ (t ++ u) ∧ p.len = i ∧ p.len + t.len = j := by
  obtain ⟨p, t, rfl, rfl⟩ := hi
  obtain ⟨q, u, hq, rfl⟩ := hj
  rcases List.append_eq_append_iff.mp hq with ⟨v, rfl, rfl⟩ | ⟨v, rfl, rfl⟩
  · exact ⟨p, v, u, rfl, rfl, by simp⟩
  · refine ⟨q ++ v, [], t, by simp, rfl, ?_⟩
    simp only [Str.len_append, Str.len_nil] at h ⊢; omega

theorem slice (hi : Boundary s i) (hj : Boundary s j) (h : i ≤ j) : ∃ t, s.slice i j = some t := by
  obtain ⟨p, t, u, rfl, rfl, rfl⟩ := hi.le_cases hj h
  exact ⟨t, Str.slice_append p t u⟩

theorem cons {c : Char} (h : Boundary s i) : Boundary (c :: s) (c.utf8Size + i) := by
  obtain ⟨p, t, rfl, rfl⟩ := h
  exact ⟨c :: p, t, rfl, rfl⟩

theorem find {p : Char → Bool} (h : Str.find p s = some i) : Boundary s i := by
  induction s generalizing i with
  | nil => cases h
  | cons c cs ih =>
    simp only [Str.find] at h
    split at h
    · cases h; exact zero _
    · obtain ⟨k, hk, rfl⟩ := Option.map_eq_some_iff.mp h
      exact (ih hk).cons

theorem charIndex {n : Nat} (h : Str.charIndex n s = some i) : Boundary s i := by
  induction s generalizing n i with
  | nil => cases n <;> cases h
  | cons c cs ih =>
    cases n with
    | zero => cases h; exact zero _
    | succ n =>
      obtain ⟨k, hk, rfl⟩ := Option.map_eq_some_iff.mp h
      exact (ih hk).cons

theorem findStr (h : Str.findStr w s = some i) : Boundary s (i + w.len) := by
  induction s generalizing i with
  | nil =>
    simp only [Str.findStr] at h
    split at h
    · rename_i hw; cases h; rw [List.isEmpty_iff.mp hw]; exact zero _
    · cases h
  | cons c cs ih =>
    simp only [Str.findStr] at h
    split at h
    · rename_i hw
      cases h
      obtain ⟨t, ht⟩ := List.isPrefixOf_iff_prefix.mp hw
      exact ⟨w, t, ht.symm, by simp⟩
    · obtain ⟨k, hk, rfl⟩ := Option.map_eq_some_iff.mp h
      rw [Nat.add_assoc]; exact (ih hk).cons

end Boundary

/-! ## Fields -/

/-- The byte loop of `field_spans` takes a whole character at a time. -/
theorem fieldSpansFrom_cons (i : Nat) (start : Option Nat) (c : Char) (cs : Str) :
    fieldSpansFrom i start (Str.bytes (c :: cs)) =
      if Str.isAsciiWhitespace c.toNat then
        (start.map fun s => (s, i)).toList ++ fieldSpansFrom (i + c.utf8Size) none cs.bytes
      else fieldSpansFrom (i + c.utf8Size) (some (start.getD i)) cs.bytes := by
  have hlen := String.length_utf8EncodeChar c
  rw [Str.bytes_cons]
  by_cases hc : c.toNat < 128
  · rw [Str.bytes_ascii hc] at hlen ⊢
    rw [← hlen, List.singleton_append, fieldSpansFrom,
      show (UInt8.ofNat c.toNat).toNat = c.toNat by rw [UInt8.toNat_ofNat']; omega]
    rfl
  · rw [if_neg (by simp only [Str.isAsciiWhitespace, Bool.or_eq_true, decide_eq_true_eq]; omega),
      ← hlen]
    have hb := fun b hb => Str.bytes_nonascii (c := c) (b := b) (by omega) hb
    have hne := List.ne_nil_of_length_pos (l := String.utf8EncodeChar c)
      (by rw [hlen]; exact c.utf8Size_pos)
    clear hlen hc
    generalize String.utf8EncodeChar c = bs at hb hne
    have hrun : ∀ (bs : List UInt8) (i : Nat) (s : Option Nat), (∀ b ∈ bs, 128 ≤ b.toNat) → bs ≠ [] →
        fieldSpansFrom i s (bs ++ cs.bytes) =
          fieldSpansFrom (i + bs.length) (some (s.getD i)) cs.bytes := by
      intro bs
      induction bs with
      | nil => intro _ _ _ h; exact absurd rfl h
      | cons b bs ih =>
        intro i s hb _
        have := hb b (by simp)
        rw [List.cons_append, fieldSpansFrom, if_neg (by
          simp only [Str.isAsciiWhitespace, Bool.or_eq_true, decide_eq_true_eq]; omega)]
        rcases bs with _ | ⟨b', bs⟩
        · rfl
        · rw [ih _ _ (fun x hx => hb x (by simp [hx])) (by simp)]
          simp only [List.length_cons, Option.getD_some]
          congr 1; omega
    exact hrun bs i start hb hne

/-- A field of `line` that starts at or after `lo`. -/
structure IsSpan (line : Str) (lo : Nat) (s : Nat × Nat) : Prop where
  from_lo : lo ≤ s.1
  lt : s.1 < s.2
  start : Boundary line s.1
  stop : Boundary line s.2

theorem fieldSpansFrom_spec (pre cs : Str) (start : Option Nat)
    (hs : ∀ s ∈ start, s < pre.len ∧ Boundary (pre ++ cs) s) :
    (∀ s ∈ fieldSpansFrom pre.len start cs.bytes,
      IsSpan (pre ++ cs) (start.getD pre.len) s) ∧
    (fieldSpansFrom pre.len start cs.bytes).Pairwise fun s t => s.2 < t.1 := by
  induction cs generalizing pre start with
  | nil =>
    cases start with
    | none => simp [fieldSpansFrom]
    | some st =>
      obtain ⟨h1, h2⟩ := hs st rfl
      have : IsSpan (pre ++ []) st (st, pre.len) :=
        ⟨Nat.le_refl _, h1, h2, ⟨pre, [], rfl, rfl⟩⟩
      simpa [fieldSpansFrom] using this
  | cons c cs ih =>
    have hpos := c.utf8Size_pos
    have happ : pre ++ c :: cs = (pre ++ [c]) ++ cs := by simp
    have hl : (pre ++ [c]).len = pre.len + c.utf8Size := by simp
    have hmid : Boundary (pre ++ c :: cs) pre.len := ⟨pre, c :: cs, rfl, rfl⟩
    rw [fieldSpansFrom_cons]
    split
    · have ih := ih (pre ++ [c]) none (by simp)
      rw [← happ, hl] at ih
      obtain ⟨ih1, ih2⟩ := ih
      cases start with
      | none =>
        simp only [Option.map_none, Option.toList_none, List.nil_append, Option.getD_none] at ih1 ⊢
        exact ⟨fun s hs => ⟨by have := (ih1 s hs).from_lo; omega, (ih1 s hs).lt, (ih1 s hs).start,
          (ih1 s hs).stop⟩, ih2⟩
      | some st =>
        obtain ⟨h1, h2⟩ := hs st rfl
        simp only [Option.map_some, Option.toList_some, List.singleton_append, Option.getD_some,
          Option.getD_none, List.mem_cons, List.pairwise_cons] at ih1 ⊢
        refine ⟨?_, fun s hs => by have := (ih1 s hs).from_lo; omega, ih2⟩
        rintro s (rfl | hs)
        · exact ⟨Nat.le_refl _, h1, h2, hmid⟩
        · exact ⟨by have := (ih1 s hs).from_lo; omega, (ih1 s hs).lt, (ih1 s hs).start,
            (ih1 s hs).stop⟩
    · have ih := ih (pre ++ [c]) (some (start.getD pre.len)) (by
        intro s hst
        obtain rfl : start.getD pre.len = s := by simpa using hst
        rw [← happ, hl]
        cases start with
        | none => exact ⟨by simp only [Option.getD_none]; omega, hmid⟩
        | some st => obtain ⟨h1, h2⟩ := hs st rfl; exact ⟨by simp only [Option.getD_some]; omega, h2⟩)
      rwa [← happ, hl] at ih

theorem fieldSpans_boundary {line : Str} {s : Nat × Nat} (h : s ∈ fieldSpans line) :
    IsSpan line 0 s := by
  simpa using (fieldSpansFrom_spec [] line none (by simp)).1 s h

theorem fieldSpans_sorted (line : Str) : (fieldSpans line).Pairwise fun s t => s.2 < t.1 :=
  (fieldSpansFrom_spec [] line none (by simp)).2

theorem fieldSpans_get_lt {line : Str} {i j : Nat} {s t : Nat × Nat} (hij : i < j)
    (hs : (fieldSpans line)[i]? = some s) (ht : (fieldSpans line)[j]? = some t) : s.2 < t.1 := by
  obtain ⟨hi, rfl⟩ := List.getElem?_eq_some_iff.mp hs
  obtain ⟨hj, rfl⟩ := List.getElem?_eq_some_iff.mp ht
  exact List.pairwise_iff_getElem.mp (fieldSpans_sorted line) i j hi hj hij

/-! ## Device rows -/

theorem firstByteIn_cons {cs : List Char} {line : Str} (h : firstByteIn cs line = true) :
    ∃ c t, line = c :: t ∧ c ∈ cs := by
  rcases line with _ | ⟨c, t⟩
  · cases h
  · exact ⟨c, t, rfl, by simpa [firstByteIn] using h⟩

/-- Normalisation never panics and keeps the first character: a field
before the fifth stands in front of what it replaces. -/
theorem normalizeSpecialPosixLine_total (line : Str) :
    ∃ l, normalizeSpecialPosixLine line = some l ∧ l.head? = line.head? := by
  have hspan : ∀ {k : Nat} {s : Nat × Nat}, (fieldSpans line)[k]? = some s → IsSpan line 0 s :=
    fun h => fieldSpans_boundary (List.mem_of_getElem? h)
  have hslice : ∀ {k : Nat} {s : Nat × Nat}, (fieldSpans line)[k]? = some s → ∃ t, line.slice s.1 s.2 = some t :=
    fun h => (hspan h).start.slice (hspan h).stop (Nat.le_of_lt (hspan h).lt)
  by_cases h5 : 5 < (fieldSpans line).length
  case neg => exact ⟨line, by simp [normalizeSpecialPosixLine, h5], rfl⟩
  obtain ⟨s3, h3⟩ : ∃ s, (fieldSpans line)[3]? = some s := ⟨_, List.getElem?_eq_getElem (by omega)⟩
  obtain ⟨s4, h4⟩ : ∃ s, (fieldSpans line)[4]? = some s := ⟨_, List.getElem?_eq_getElem (by omega)⟩
  obtain ⟨s5, h5'⟩ : ∃ s, (fieldSpans line)[5]? = some s := ⟨_, List.getElem?_eq_getElem h5⟩
  obtain ⟨major, hmaj⟩ := hslice h4
  obtain ⟨minor, hmin⟩ := hslice h5'
  have h34 := fieldSpans_get_lt (by omega) h3 h4
  have h45 := fieldSpans_get_lt (by omega) h4 h5'
  have hle : s4.1 ≤ s5.2 := by
    have := (hspan h4).lt; have := (hspan h5').lt; omega
  obtain ⟨p, t, u, hl, hp, ht⟩ := (hspan h4).start.le_cases (hspan h5').stop hle
  have hrep : line.replaceRange s4.1 s5.2 ['0'] = some (p ++ ['0'] ++ u) := by
    rw [hl, ← hp, ← ht]; exact Str.replaceRange_append p t u ['0']
  have hhead : (p ++ ['0'] ++ u).head? = line.head? := by
    rw [hl]
    rcases p with _ | ⟨c, p⟩
    · simp only [Str.len_nil] at hp; omega
    · rfl
  simp only [normalizeSpecialPosixLine, h4, h5', hmaj, hmin, hrep, Option.bind_eq_bind,
    Option.bind_some, Option.pure_def]
  repeat' split
  all_goals first | exact ⟨_, rfl, hhead⟩ | exact ⟨_, rfl, rfl⟩

/-! ## Rows -/

/-- The computation does not panic. -/
def Total {α : Type} (x : Parse α) : Prop := ∃ r, x.run = some r

section
variable {α β : Type}

theorem total_pure (a : α) : Total (pure a : Parse α) := ⟨_, rfl⟩

theorem total_throw (e : RemoteError) : Total (throw e : Parse α) := ⟨_, rfl⟩

theorem total_protocolError (t : String) : Total (protocolError t : Parse α) := ⟨_, rfl⟩

theorem total_slicing {o : Option α} (h : ∃ a, o = some a) : Total (slicing o) := by
  obtain ⟨a, rfl⟩ := h; exact ⟨_, rfl⟩

theorem run_slicing {o : Option α} {a : α} (h : (slicing o).run = some (.ok a)) : o = some a := by
  cases o with
  | none => cases h
  | some b => cases h; rfl

theorem total_bind {x : Parse α} {f : α → Parse β} (hx : Total x)
    (hf : ∀ a, x.run = some (.ok a) → Total (f a)) : Total (x >>= f) := by
  obtain ⟨r, hr⟩ := hx
  cases r with
  | error e => exact ⟨.error e, by rw [ExceptT.run_bind, hr]; rfl⟩
  | ok a =>
    obtain ⟨r', hr'⟩ := hf a hr
    exact ⟨r', by rw [ExceptT.run_bind, hr]; exact hr'⟩

theorem total_mapM {f : α → Parse β} (hf : ∀ a, Total (f a)) (l : List α) : Total (l.mapM f) := by
  induction l with
  | nil => exact total_pure _
  | cons a l ih =>
    rw [List.mapM_cons]
    exact total_bind (hf a) fun _ _ => total_bind ih fun _ _ => total_pure _

end

theorem total_rejectIf (c : Bool) (t : String) : Total (rejectIf c t) := by
  unfold rejectIf; split
  · exact total_protocolError t
  · exact total_pure _

theorem rejectAmbiguousPosixNameBoundary_total (line : Str) :
    Total (rejectAmbiguousPosixNameBoundary line) := by
  unfold rejectAmbiguousPosixNameBoundary
  refine total_bind (total_slicing ?_) fun l _ => ?_
  · split
    · obtain ⟨l, hl, -⟩ := normalizeSpecialPosixLine_total line; exact ⟨l, hl⟩
    · exact ⟨_, rfl⟩
  have hspan : ∀ {s}, (fieldSpans l)[7]? = some s → Boundary l s.2 :=
    fun h => (fieldSpans_boundary (List.mem_of_getElem? h)).stop
  refine total_bind (total_rejectIf _ _) fun _ _ => ?_
  refine total_bind (total_slicing ?_) fun _ _ => ?_
  · split
    · rename_i h; exact (hspan h).sliceTo
    · exact ⟨_, rfl⟩
  refine total_bind (total_rejectIf _ _) fun _ _ => ?_
  refine total_bind (total_slicing ?_) fun _ _ => ?_
  · split
    · rename_i h; exact (hspan h).sliceFrom
    · exact ⟨_, rfl⟩
  exact total_bind (total_rejectIf _ _) fun _ _ => total_rejectIf _ _

/-- A byte below 128 is a whole character. -/
theorem cons_of_bytes_ascii {l : Str} {b : UInt8} {bs : List UInt8} (hl : l.bytes = b :: bs)
    (hb : b.toNat < 128) : ∃ (c : Char) (t : Str), l = c :: t ∧ t.bytes = bs ∧ c.utf8Size = 1 := by
  rcases l with _ | ⟨c, t⟩
  · cases hl
  rw [Str.bytes_cons] at hl
  by_cases hc : c.toNat < 128
  · have hlen := String.length_utf8EncodeChar c
    rw [Str.bytes_ascii hc] at hl hlen
    cases hl
    exact ⟨c, t, rfl, rfl, hlen.symm⟩
  · rcases he : String.utf8EncodeChar c with _ | ⟨b', bs'⟩
    · exact absurd he String.utf8EncodeChar_ne_nil
    · rw [he] at hl; cases hl
      have := Str.bytes_nonascii (c := c) (b := b) (by omega) (by simp [he])
      omega

/-- A row of the DOS shape starts with eight ASCII characters. -/
theorem looksLikeDosListing_boundary {line : Str} (h : looksLikeDosListing line = true) :
    Boundary line 8 := by
  simp only [looksLikeDosListing] at h
  split at h
  · rename_i b0 b1 b2 b3 b4 b5 b6 b7 bs hb
    simp only [Bool.and_eq_true, decide_eq_true_eq, Str.isAsciiDigit] at h
    obtain ⟨⟨⟨⟨⟨⟨⟨h2, h5⟩, h0⟩, h1⟩, h3⟩, h4⟩, h6⟩, h7⟩ := h
    have h2' : b2.toNat = 0x2D := by rw [h2]; rfl
    have h5' : b5.toNat = 0x2D := by rw [h5]; rfl
    obtain ⟨c0, t0, rfl, e0, s0⟩ := cons_of_bytes_ascii hb (by omega)
    obtain ⟨c1, t1, rfl, e1, s1⟩ := cons_of_bytes_ascii e0 (by omega)
    obtain ⟨c2, t2, rfl, e2, s2⟩ := cons_of_bytes_ascii e1 (by omega)
    obtain ⟨c3, t3, rfl, e3, s3⟩ := cons_of_bytes_ascii e2 (by omega)
    obtain ⟨c4, t4, rfl, e4, s4⟩ := cons_of_bytes_ascii e3 (by omega)
    obtain ⟨c5, t5, rfl, e5, s5⟩ := cons_of_bytes_ascii e4 (by omega)
    obtain ⟨c6, t6, rfl, e6, s6⟩ := cons_of_bytes_ascii e5 (by omega)
    obtain ⟨c7, t7, rfl, e7, s7⟩ := cons_of_bytes_ascii e6 (by omega)
    exact ⟨[c0, c1, c2, c3, c4, c5, c6, c7], t7, rfl, by simp [s0, s1, s2, s3, s4, s5, s6, s7]⟩
  · cases h

theorem findMeridiem_boundary {line timestamp pre : Str} {timeStart stop n : Nat}
    (h1 : line.sliceFrom timeStart = some timestamp) (h2 : timestamp.sliceTo n = some pre)
    (hn : Boundary timestamp n) (h : findMeridiem timeStart pre = some stop) : Boundary line stop := by
  obtain ⟨marker, -, hm⟩ := List.exists_of_findSome?_eq_some h
  obtain ⟨i, hi, rfl⟩ := Option.map_eq_some_iff.mp hm
  rw [Nat.add_assoc]
  exact .of_sliceFrom h1 (.of_sliceTo h2 hn (.findStr hi))

theorem rejectAmbiguousDosMetadata_total (n : Nat) (metadata : Str) :
    Total (rejectAmbiguousDosMetadata n metadata) := by
  have hend : Boundary metadata
      ((metadata.find fun c => Str.isAsciiWhitespace c.toNat).getD metadata.len) := by
    cases hf : metadata.find fun c => Str.isAsciiWhitespace c.toNat with
    | none => exact .len _
    | some i => exact .find hf
  unfold rejectAmbiguousDosMetadata
  refine total_bind (total_slicing hend.sliceTo) fun _ _ => ?_
  refine total_bind (total_slicing hend.sliceFrom) fun _ _ => ?_
  refine total_bind (total_rejectIf _ _) fun _ _ => ?_
  exact total_bind (total_rejectIf _ _) fun _ _ => total_rejectIf _ _

theorem rejectAmbiguousDosNameBoundary_total {line : Str} (h : looksLikeDosListing line = true) :
    Total (rejectAmbiguousDosNameBoundary line) := by
  have h8 := looksLikeDosListing_boundary h
  unfold rejectAmbiguousDosNameBoundary
  refine total_bind (total_slicing h8.sliceFrom) fun afterDate hd => ?_
  split
  · exact total_pure _
  rename_i timeStart hts
  obtain ⟨i, hi, rfl⟩ := Option.map_eq_some_iff.mp hts
  have hstart : Boundary line (i + 8) := by
    rw [Nat.add_comm]; exact .of_sliceFrom (run_slicing hd) (.find hi)
  refine total_bind (total_slicing hstart.sliceFrom) fun timestamp ht => ?_
  have hn : Boundary timestamp ((timestamp.charIndex 8).getD timestamp.len) := by
    cases hc : timestamp.charIndex 8 with
    | none => exact .len _
    | some i => exact .charIndex hc
  refine total_bind (total_slicing hn.sliceTo) fun pre hp => ?_
  split
  · exact total_protocolError _
  rename_i timeEnd hte
  have hend := findMeridiem_boundary (run_slicing ht) (run_slicing hp) hn hte
  refine total_bind (total_slicing hend.sliceFrom) fun rest _ => ?_
  refine total_bind (total_rejectIf _ _) fun _ _ => ?_
  split
  · exact total_pure _
  rename_i metadataStart hm
  exact total_bind (total_slicing (Boundary.find hm).sliceFrom) fun _ _ =>
    rejectAmbiguousDosMetadata_total _ _

theorem rejectAmbiguousListName_total (line : Str) : Total (rejectAmbiguousListName line) := by
  unfold rejectAmbiguousListName
  refine total_bind (rejectAmbiguousPosixNameBoundary_total line) fun _ _ => ?_
  refine total_bind (total_rejectIf _ _) fun _ _ => ?_
  split
  · rename_i h
    exact rejectAmbiguousDosNameBoundary_total (by simp only [Bool.and_eq_true] at h; exact h.2)
  · exact total_pure _

theorem parseListEntry_total (P : ListParser) (line : Str) : ∃ r, parseListEntry P line = some r := by
  unfold parseListEntry
  split
  · rename_i hs
    obtain ⟨l, hl, hhead⟩ := normalizeSpecialPosixLine_total line
    obtain ⟨c, t, rfl, hc⟩ := firstByteIn_cons hs
    have hc1 : c.utf8Size = 1 := by
      simp only [specialMarks, List.mem_cons, List.not_mem_nil, or_false] at hc
      rcases hc with rfl | rfl | rfl | rfl | rfl <;> rfl
    obtain ⟨t', rfl⟩ : ∃ t', l = c :: t' := by
      rcases l with _ | ⟨d, t'⟩
      · cases hhead
      · cases hhead; exact ⟨t', rfl⟩
    have := Str.replaceRange_append [] [c] t' ['-']
    rw [Str.len_nil, Str.len_cons, Str.len_nil, hc1] at this
    simp only [hl, Option.bind_eq_bind, Option.bind_some, Option.pure_def]
    rw [show Str.replaceRange (c :: t') 0 1 ['-'] = _ from this]
    exact ⟨_, rfl⟩
  · exact ⟨_, rfl⟩

theorem parseListLine_total (P : ListParser) (path : Path) (line : Str) :
    Total (parseListLine P path line) := by
  unfold parseListLine
  refine total_bind (rejectAmbiguousListName_total line) fun _ _ => ?_
  refine total_bind (total_slicing (parseListEntry_total P line)) fun r _ => ?_
  split
  · exact total_throw _
  split
  · exact total_pure _
  split
  · exact total_throw _
  · exact total_pure _

/-- **Parsing rows never panics.** -/
theorem parseListLines_total (P : ListParser) (path : Path) (lines : List Str) :
    ∃ r, (parseListLines P path lines).run = some r :=
  total_bind (total_mapM (parseListLine_total P path) _) fun _ _ => total_pure _

end RemotefsFtp.L2
