import Mathlib.Data.List.Basic

/-!
# Text and byte offsets

Rust strings as the `str` and `String` methods the client calls see them: a
list of characters, sliced at UTF-8 byte offsets. A slice or `replace_range`
whose offset is out of bounds or inside a character is `none`, where the
source would panic.

Results:
* `sliceFrom_append`, `sliceTo_append`, `slice_append`, `replaceRange_append`:
  an offset reached by a prefix of the text is a character boundary.
* `bytes_ascii`, `bytes_nonascii`: a byte below 128 is a whole character.
-/
namespace RemotefsFtp.L1

/-- `str` and `String`. -/
abbrev Str := List Char

namespace Str

/-! ## Character and byte classes -/

/-- `char::is_whitespace`, the Unicode `White_Space` property. -/
def isWhitespace (c : Char) : Bool :=
  let n := c.toNat
  (9 ≤ n && n ≤ 13) || n = 0x20 || n = 0x85 || n = 0xA0 || n = 0x1680 ||
    (0x2000 ≤ n && n ≤ 0x200A) || n = 0x2028 || n = 0x2029 || n = 0x202F || n = 0x205F ||
    n = 0x3000

/-- `is_ascii_whitespace` (of a byte or a code point): not vertical tab. -/
def isAsciiWhitespace (n : Nat) : Bool := n = 0x20 || n = 9 || n = 10 || n = 12 || n = 13

def isAsciiDigit (n : Nat) : Bool := 0x30 ≤ n && n ≤ 0x39

def isAsciiControl (n : Nat) : Bool := n < 0x20 || n = 0x7F

/-! ## Bytes and slices -/

/-- `str::as_bytes`. -/
def bytes (s : Str) : List UInt8 := s.flatMap String.utf8EncodeChar

/-- `str::len`, in bytes. -/
def len : Str → Nat
  | [] => 0
  | c :: cs => c.utf8Size + len cs

/-- `&s[i..]`. -/
def sliceFrom : Str → Nat → Option Str
  | s, 0 => some s
  | [], _ + 1 => none
  | c :: cs, i + 1 => if c.utf8Size ≤ i + 1 then sliceFrom cs (i + 1 - c.utf8Size) else none

/-- `&s[..i]`. -/
def sliceTo : Str → Nat → Option Str
  | _, 0 => some []
  | [], _ + 1 => none
  | c :: cs, i + 1 =>
    if c.utf8Size ≤ i + 1 then (sliceTo cs (i + 1 - c.utf8Size)).map (c :: ·) else none

/-- `&s[i..j]`. -/
def slice (s : Str) (i j : Nat) : Option Str :=
  if i ≤ j then (s.sliceFrom i).bind (sliceTo · (j - i)) else none

/-- `String::replace_range(i..j, w)`. -/
def replaceRange (s : Str) (i j : Nat) (w : Str) : Option Str := do
  let pre ← s.sliceTo i
  let post ← if i ≤ j then s.sliceFrom j else none
  return pre ++ w ++ post

/-- `str::from_utf8`. -/
def fromUtf8 (bs : List UInt8) : Option Str :=
  (ByteArray.utf8Decode? bs.toByteArray).map Array.toList

/-! ## Searching and splitting -/

/-- `str::find` with a character predicate: a byte offset. -/
def find (p : Char → Bool) : Str → Option Nat
  | [] => none
  | c :: cs => if p c then some 0 else (find p cs).map (c.utf8Size + ·)

/-- `str::find` with a string: the byte offset of its first occurrence. -/
def findStr (w : Str) : Str → Option Nat
  | [] => if w.isEmpty then some 0 else none
  | c :: cs => if w.isPrefixOf (c :: cs) then some 0 else (findStr w cs).map (c.utf8Size + ·)

/-- `str::matches(w).count()` for a non-empty `w`: occurrences that do not
overlap, from the left. `skip` characters still belong to the last one. -/
def countMatches (w : Str) (skip : Nat) : Str → Nat
  | [] => 0
  | c :: cs =>
    match skip with
    | k + 1 => countMatches w k cs
    | 0 => if w.isPrefixOf (c :: cs) then countMatches w (w.length - 1) cs + 1
      else countMatches w 0 cs

/-- `str::char_indices().nth(n)`: the byte offset of the `n`th character. -/
def charIndex : Nat → Str → Option Nat
  | _, [] => none
  | 0, _ :: _ => some 0
  | n + 1, c :: cs => (charIndex n cs).map (c.utf8Size + ·)

/-- One line of `str::lines`, whose terminator `"\n"` is already cut off. -/
def stripCr (l : Str) : Str := if l.getLast? = some '\r' then l.dropLast else l

/-- `str::lines`: a terminator is `"\n"` or `"\r\n"`; `cur` is the line read
so far. The text after the last terminator is a line unless it is empty. -/
def linesFrom (cur : Str) : Str → List Str
  | [] => if cur.isEmpty then [] else [cur]
  | c :: cs => if c = '\n' then stripCr cur :: linesFrom [] cs else linesFrom (cur ++ [c]) cs

def lines (s : Str) : List Str := linesFrom [] s

/-- `str::trim_end_matches`. -/
def trimEndMatches (p : Char → Bool) (s : Str) : Str := (s.reverse.dropWhile p).reverse

/-! ## Boundaries -/

@[simp] theorem len_nil : len [] = 0 := rfl
@[simp] theorem len_cons (c : Char) (cs : Str) : len (c :: cs) = c.utf8Size + len cs := rfl

@[simp] theorem len_append (s t : Str) : len (s ++ t) = len s + len t := by
  induction s with
  | nil => simp
  | cons c cs ih => simp only [List.cons_append, len_cons, ih]; omega

@[simp] theorem sliceFrom_zero (s : Str) : s.sliceFrom 0 = some s := by cases s <;> rfl

@[simp] theorem sliceTo_zero (s : Str) : s.sliceTo 0 = some [] := by cases s <;> rfl

theorem sliceFrom_cons (c : Char) (cs : Str) (i : Nat) :
    sliceFrom (c :: cs) (c.utf8Size + i) = cs.sliceFrom i := by
  have := c.utf8Size_pos
  obtain ⟨n, hn⟩ : ∃ n, c.utf8Size + i = n + 1 := ⟨c.utf8Size + i - 1, by omega⟩
  rw [hn, sliceFrom, if_pos (by omega)]
  congr 1; omega

theorem sliceTo_cons (c : Char) (cs : Str) (i : Nat) :
    sliceTo (c :: cs) (c.utf8Size + i) = (cs.sliceTo i).map (c :: ·) := by
  have := c.utf8Size_pos
  obtain ⟨n, hn⟩ : ∃ n, c.utf8Size + i = n + 1 := ⟨c.utf8Size + i - 1, by omega⟩
  rw [hn, sliceTo, if_pos (by omega)]
  congr 2; omega

@[simp] theorem sliceFrom_append (s t : Str) : sliceFrom (s ++ t) s.len = some t := by
  induction s with
  | nil => simp
  | cons c cs ih => rw [List.cons_append, len_cons, sliceFrom_cons, ih]

@[simp] theorem sliceTo_append (s t : Str) : sliceTo (s ++ t) s.len = some s := by
  induction s with
  | nil => simp
  | cons c cs ih => rw [List.cons_append, len_cons, sliceTo_cons, ih]; rfl

theorem slice_append (s t u : Str) : slice (s ++ (t ++ u)) s.len (s.len + t.len) = some t := by
  simp [slice]

theorem replaceRange_append (s t u w : Str) :
    replaceRange (s ++ (t ++ u)) s.len (s.len + t.len) w = some (s ++ w ++ u) := by
  have h : sliceFrom (s ++ (t ++ u)) (s.len + t.len) = some u := by
    have := sliceFrom_append (s ++ t) u
    rwa [List.append_assoc, len_append] at this
  simp [replaceRange, h]

/-- A text is cut where a slice starts. -/
theorem sliceFrom_some {s t : Str} {i : Nat} (h : s.sliceFrom i = some t) :
    ∃ p, s = p ++ t ∧ p.len = i := by
  induction s generalizing i with
  | nil =>
    cases i with
    | zero => exact ⟨[], by simpa using h, rfl⟩
    | succ n => simp [sliceFrom] at h
  | cons c cs ih =>
    cases i with
    | zero => exact ⟨[], by simpa using h, rfl⟩
    | succ n =>
      simp only [sliceFrom] at h
      split at h
      · rename_i hc
        obtain ⟨p, rfl, hp⟩ := ih h
        exact ⟨c :: p, rfl, by rw [len_cons, hp]; omega⟩
      · cases h

@[simp] theorem bytes_nil : bytes [] = [] := rfl

@[simp] theorem bytes_cons (c : Char) (cs : Str) :
    bytes (c :: cs) = String.utf8EncodeChar c ++ bytes cs := rfl

@[simp] theorem length_bytes (s : Str) : (bytes s).length = s.len := by
  induction s with
  | nil => rfl
  | cons c cs ih => simp [ih]

theorem bytes_ascii {c : Char} (h : c.toNat < 128) :
    String.utf8EncodeChar c = [UInt8.ofNat c.toNat] := by
  have h1 : c.utf8Size = 1 := by
    rw [Char.utf8Size_eq_one_iff, UInt32.le_iff_toNat_le]
    exact Nat.le_of_lt_succ h
  rw [String.utf8EncodeChar_eq_singleton h1]
  rfl

theorem bytes_nonascii {c : Char} (h : 128 ≤ c.toNat) {b : UInt8}
    (hb : b ∈ String.utf8EncodeChar c) : 128 ≤ b.toNat := by
  have hv : c.val.toNat = c.toNat := rfl
  -- every byte of a longer encoding is a marker of at least `0x80` plus a payload
  have hm : ∀ x k, x + k < 256 → 128 ≤ k → 128 ≤ (UInt8.ofNat (x + k)).toNat := by
    intro x k hx hk; rw [UInt8.toNat_ofNat']; omega
  simp only [String.utf8EncodeChar, hv] at hb
  rw [if_neg (by omega)] at hb
  split at hb <;> [skip; split at hb] <;>
    simp only [List.mem_cons, List.not_mem_nil, or_false] at hb <;>
    rcases hb with rfl | rfl | rfl | rfl <;> exact hm _ _ (by omega) (by omega)

end Str
end RemotefsFtp.L1
