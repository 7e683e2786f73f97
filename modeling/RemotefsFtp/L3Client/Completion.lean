import RemotefsFtp.Core.Eval
import RemotefsFtp.L3Client.SyncOps

/-!
# The end of a transfer (`src/client/sync/stream.rs`)

An owned stream of the blocking client from its first byte to its drop, with
every answer its data socket and the server can give. A caller skips, reads
or writes as often as it likes and ends the stream in one of its ways.

Results:
* `uses_reported`: a download thinks it reached the end of its data only after
  the data socket said so.
* **`transfer_completed`**: however a stream is used and ended, its transfer is
  finalized once, behind the end of its data; the connection is marked exactly
  if the cleanup failed; the guard is dropped last.
-/
namespace RemotefsFtp.L3

open L2
open Core (Prog Event)

variable {α β : Type}

/-- Whatever `p` is answered, it returns, with its trace and value in `Q`. -/
abbrev Ensures (p : Io α) (Q : List (Event ftp) → α → Prop) : Prop := Prog.Ensures (S := ftp) p Q

/-! ## The life of a stream -/

/-- What a caller does with a download. -/
inductive ReadUse where
  | skip (offset : Nat)
  | read (bufLen : Nat)

inductive ReadEnd where
  | finish
  | drop
  | finishAfterSkip (skip : RemoteError)

/-- What a caller does with an upload. -/
inductive WriteUse where
  | write (buf : List UInt8)
  | flush

inductive WriteEnd where
  | finish
  | drop

namespace FtpReadStream

variable (X : Ext)

def use (s : ReadStream) : ReadUse → Io ReadStream
  | .skip offset => do
    let r ← skipPrefix X s offset
    pure r.2
  | .read bufLen => do
    let r ← read X s bufLen
    pure r.2

def uses : ReadStream → List ReadUse → Io ReadStream
  | s, [] => pure s
  | s, u :: us => do
    let s ← use X s u
    uses s us

def ending (s : ReadStream) : ReadEnd → Io Unit
  | .finish => do
    let _ ← finish X s
    pure ()
  | .drop => drop X s
  | .finishAfterSkip skip => do
    let _ ← finishAfterSkip X s skip
    pure ()

/-- A download on `inner`, from its start to its end. -/
def life (inner : Conn) (length : Option Nat) (us : List ReadUse) (e : ReadEnd) : Io Unit := do
  let s ← uses X (new inner length) us
  ending X s e

end FtpReadStream

namespace FtpWriteStream

variable (X : Ext)

def use (s : WriteStream) : WriteUse → Io Unit
  | .write buf => do
    let _ ← write s buf
    pure ()
  | .flush => do
    let _ ← flush s
    pure ()

def uses (s : WriteStream) : List WriteUse → Io Unit
  | [] => pure ()
  | u :: us => do
    use s u
    uses s us

def ending (s : WriteStream) : WriteEnd → Io Unit
  | .finish => do
    let _ ← finish X s
    pure ()
  | .drop => drop X s

/-- An upload on `inner`, from its start to its end. -/
def life (inner : Conn) (us : List WriteUse) (e : WriteEnd) : Io Unit := do
  uses (new inner) us
  ending X (new inner) e

end FtpWriteStream

/-! ## What a trace shows -/

/-- The data socket of `h` says that it has no more data. -/
def ReportsEof (h : Conn) (ev : Event ftp) : Prop :=
  (∃ n, 0 < n ∧ ev = ⟨.read h n, .ok ⟨[], Nat.zero_le n⟩⟩) ∨
    (∃ n k, k < n ∧ ev = ⟨.copyTake h n, .ok k⟩) ∨ ∃ k, ev = ⟨.copyAll h, .ok k⟩

def DrainFailed (h : Conn) (ev : Event ftp) : Prop := ∃ e, ev = ⟨.copyAll h, .error e⟩

/-- A drain, flush or finalization that failed. The caller's own flushes are
no cleanup. -/
def CleanupFailed (h : Conn) (ev : Event ftp) : Prop :=
  DrainFailed h ev ∨ (∃ e, ev = ⟨.flush h true, .error e⟩) ∨ ∃ e, ev = ⟨.finish h, .error e⟩

/-- A step that finalizes a transfer. -/
def Finalizes (e : Eff) : Prop := ∃ h, e = .finish h

/-- A step that clears `connection_usable`. -/
def Marks (e : Eff) : Prop := e = .storeUsable false

/-- A step that clears `transfer_active`. -/
def Releases (e : Eff) : Prop := e = .guardDrop ∨ e = .exclusiveDrop ∨ e = .storeActive false

structure Completed (h : Conn) (evs : List (Event ftp)) : Prop where
  /-- The transfer is finalized exactly once. -/
  finalized : ∃ pre r post, evs = pre ++ ⟨.finish h, r⟩ :: post ∧
    (∀ ev ∈ pre, ¬ Finalizes ev.1) ∧ ∀ ev ∈ post, ¬ Finalizes ev.1
  marked : (∃ ev ∈ evs, Marks ev.1) ↔ ∃ ev ∈ evs, CleanupFailed h ev
  /-- The guard is released once, behind everything else. -/
  released : ∃ pre, evs = pre ++ [⟨.guardDrop, ()⟩] ∧ ∀ ev ∈ pre, ¬ Releases ev.1

/-- Before it is finalized a download is read to the end, or the drain failed. -/
def Drained (h : Conn) (evs : List (Event ftp)) : Prop :=
  ∃ pre r post, evs = pre ++ ⟨.finish h, r⟩ :: post ∧ ∃ ev ∈ pre, ReportsEof h ev ∨ DrainFailed h ev

/-! ## Using a download -/

theorem ensures_seq {p : Io α} {f : α → Io β} {Q : List (Event ftp) → α → Prop}
    {R : List (Event ftp) → β → Prop} (hp : Ensures p Q)
    (hf : ∀ evs a, Q evs a → Ensures (f a) fun evs' b => R (evs ++ evs') b) : Ensures (p >>= f) R :=
  Prog.Ensures.bind hp hf

/-- A step on the data socket of `h`, before the end of its stream. -/
def DataStep (h : Conn) (e : Eff) : Prop :=
  (∃ n, e = .read h n ∨ e = .copyTake h n) ∨ (∃ buf, e = .write h buf) ∨ e = .flush h false

/-- A download in use: `evs` is what it did so far. -/
structure Used (h : Conn) (evs : List (Event ftp)) (s : ReadStream) : Prop where
  inner : s.inner = some h
  eof : s.atEof = true → ∃ ev ∈ evs, ReportsEof h ev
  data : ∀ ev ∈ evs, DataStep h ev.1

theorem Used.more {h : Conn} {evs evs' : List (Event ftp)} {s s' : ReadStream} (hu : Used h evs s)
    (hs : s'.inner = some h) (hd : ∀ ev ∈ evs', DataStep h ev.1)
    (he : s'.atEof = true → s.atEof = true ∨ ∃ ev ∈ evs', ReportsEof h ev) :
    Used h (evs ++ evs') s' := by
  refine ⟨hs, fun heof => ?_, fun ev hev => (List.mem_append.mp hev).elim (hu.data ev) (hd ev)⟩
  rcases he heof with h | ⟨ev, hev, hr⟩
  · obtain ⟨ev, hev, hr⟩ := hu.eof h
    exact ⟨ev, List.mem_append_left _ hev, hr⟩
  · exact ⟨ev, List.mem_append_right _ hev, hr⟩

namespace FtpReadStream

variable (X : Ext) {h : Conn} {s : ReadStream} {evs : List (Event ftp)}

theorem readLimited_ensures (remaining : Option Nat) {bufLen : Nat} (hl : bufLen ≠ 0) :
    Ensures (readLimited X h remaining bufLen) fun evs r => (∀ ev ∈ evs, DataStep h ev.1) ∧
      (r.1 = .ok [] → r.2 ≠ some 0 → ∃ ev ∈ evs, ReportsEof h ev) := by
  have hdata (n : Nat) (r : Except IoError (Chunk n)) :
      ∀ ev ∈ ([⟨.read h n, r⟩] : List (Event ftp)), DataStep h ev.1 := by
    intro ev hev
    obtain rfl := List.mem_singleton.mp hev
    exact .inl ⟨n, .inl rfl⟩
  have heof {n : Nat} (hn : 0 < n) (bytes : Chunk n) (hb : bytes.1 = []) :
      ∃ ev ∈ ([⟨.read h n, .ok bytes⟩] : List (Event ftp)), ReportsEof h ev := by
    obtain ⟨bytes, hle⟩ := bytes
    obtain rfl : bytes = [] := hb
    exact ⟨_, List.mem_singleton_self _, .inl ⟨n, hn, rfl⟩⟩
  unfold readLimited
  cases remaining with
  | none =>
    intro r
    cases r with
    | error e => exact ⟨hdata _ _, nofun⟩
    | ok bytes => exact ⟨hdata _ _, fun hb _ => heof (Nat.pos_of_ne_zero hl) bytes (Except.ok.inj hb)⟩
  | some budget =>
    by_cases h0 : budget = 0
    · simp only [h0, if_true]
      exact ⟨nofun, fun _ hne => absurd rfl hne⟩
    · simp only [h0, if_false]
      intro r
      cases r with
      | error e => exact ⟨hdata _ _, nofun⟩
      | ok bytes =>
        have hle : bytes.1.length ≤ budget := bytes.2.trans (readLimit_le X budget bufLen)
        show Ensures (if bytes.1.length ≤ budget then _ else _) _
        rw [if_pos hle]
        exact ⟨hdata _ _, fun hb _ => heof (readLimit_pos X h0 hl) bytes (Except.ok.inj hb)⟩

theorem read_ensures (hu : Used h evs s) (bufLen : Nat) :
    Ensures (read X s bufLen) fun evs' r => Used h (evs ++ evs') r.2 := by
  obtain ⟨inner, remaining, atEof⟩ := s
  obtain rfl : inner = some h := hu.inner
  unfold read
  by_cases hl : bufLen = 0
  · simp only [hl, if_true]
    show Used h (evs ++ []) _
    rw [List.append_nil]
    exact hu
  simp only [hl, if_false]
  refine ensures_seq (readLimited_ensures X remaining hl) fun evs' r hr => ?_
  obtain ⟨result, remaining'⟩ := r
  obtain ⟨hdata, heof⟩ := hr
  cases result with
  | error e =>
    show Used h (evs ++ (evs' ++ [])) _
    rw [List.append_nil]
    exact hu.more rfl hdata .inl
  | ok bytes =>
    dsimp only
    split
    · rename_i hb
      show Used h (evs ++ (evs' ++ [])) _
      rw [List.append_nil]
      exact hu.more rfl hdata fun _ => .inr (heof (by rw [List.eq_nil_of_length_eq_zero hb.1]) hb.2)
    · show Used h (evs ++ (evs' ++ [])) _
      rw [List.append_nil]
      exact hu.more rfl hdata .inl

theorem skipPrefix_ensures (hu : Used h evs s) (offset : Nat) :
    Ensures (skipPrefix X s offset) fun evs' r => Used h (evs ++ evs') r.2 := by
  obtain ⟨inner, remaining, atEof⟩ := s
  obtain rfl : inner = some h := hu.inner
  have hdata (r : Except IoError Nat) :
      ∀ ev ∈ ([⟨.copyTake h offset, r⟩] : List (Event ftp)), DataStep h ev.1 := by
    intro ev hev
    obtain rfl := List.mem_singleton.mp hev
    exact .inl ⟨offset, .inr rfl⟩
  intro r
  cases r with
  | error e => exact hu.more rfl (hdata _) .inl
  | ok skipped =>
    show Ensures (if skipped < offset then _ else _) _
    split
    · rename_i hs
      refine hu.more rfl (hdata _) fun _ => .inr ⟨_, List.mem_singleton_self _, ?_⟩
      exact .inr (.inl ⟨offset, skipped, hs, rfl⟩)
    · exact hu.more rfl (hdata _) .inl

theorem use_ensures (hu : Used h evs s) (u : ReadUse) :
    Ensures (use X s u) fun evs' s' => Used h (evs ++ evs') s' := by
  cases u with
  | skip offset =>
    refine ensures_seq (skipPrefix_ensures X hu offset) fun evs' r hr => ?_
    show Used h (evs ++ (evs' ++ [])) _
    rw [List.append_nil]
    exact hr
  | read bufLen =>
    refine ensures_seq (read_ensures X hu bufLen) fun evs' r hr => ?_
    show Used h (evs ++ (evs' ++ [])) _
    rw [List.append_nil]
    exact hr

/-- A download in use stays one, whatever is done with it. -/
theorem uses_ensures (hu : Used h evs s) (us : List ReadUse) :
    Ensures (uses X s us) fun evs' s' => Used h (evs ++ evs') s' := by
  induction us generalizing s evs with
  | nil =>
    show Used h (evs ++ []) s
    rw [List.append_nil]
    exact hu
  | cons u us ih =>
    refine ensures_seq (use_ensures X hu u) fun evs' s' hu' => ?_
    simp only [← List.append_assoc]
    exact ih hu'

end FtpReadStream

/-! ## Ending a stream -/

/-- A step of a cleanup before the transfer is finalized. -/
def CleanupStep (h : Conn) (e : Eff) : Prop := e = .copyAll h ∨ e = .flush h true

/-- A cleanup on `h` with result `r`; `D` is what it did before it finalized. -/
def Cleaned (h : Conn) (D : List (Event ftp) → Prop) (evs : List (Event ftp)) (r : RemoteResult Unit) :
    Prop :=
  ∃ pre f, evs = pre ++ [⟨.finish h, f⟩] ∧ (∀ ev ∈ pre, CleanupStep h ev.1) ∧ D pre ∧
    (r.isOk = false ↔ ∃ ev ∈ evs, CleanupFailed h ev)

/-- What a failed cleanup does to the connection. -/
def mark (failed : Bool) : List (Event ftp) := if failed then [⟨.storeUsable false, ()⟩] else []

/-- A cleanup and the release of the guard. -/
def Closed (h : Conn) (D : List (Event ftp) → Prop) (evs : List (Event ftp)) : Prop :=
  ∃ pre f failed, evs = pre ++ ⟨.finish h, f⟩ :: (mark failed ++ [⟨.guardDrop, ()⟩]) ∧
    (∀ ev ∈ pre, CleanupStep h ev.1) ∧ D pre ∧
    (failed = true ↔ ∃ ev ∈ pre ++ [⟨.finish h, f⟩], CleanupFailed h ev)

section
variable {h : Conn} {D : List (Event ftp) → Prop} {evs evs' : List (Event ftp)}

theorem ensures_invalidateOnErr (r : RemoteResult Unit) :
    Ensures (FtpReadStream.invalidateOnErr r) fun evs _ => evs = mark (!r.isOk) := by
  unfold FtpReadStream.invalidateOnErr
  cases hr : r.isOk with
  | true => rfl
  | false => exact fun _ => rfl

theorem closed_of_cleaned {p : Io (RemoteResult Unit)} (hp : Ensures p (Cleaned h D)) :
    Ensures (do
      let r ← p
      FtpReadStream.invalidateOnErr r
      step .guardDrop) fun evs _ => Closed h D evs := by
  refine ensures_seq hp fun evs r hc => ensures_seq (ensures_invalidateOnErr r) fun evs' _ he _ => ?_
  obtain ⟨pre, f, rfl, hpre, hD, hr⟩ := hc
  refine ⟨pre, f, !r.isOk, ?_, hpre, hD, ?_⟩
  · rw [he]
    simp
  · rw [← hr]
    simp

theorem mark_marks {ev : Event ftp} {failed : Bool} (hev : ev ∈ mark failed) : Marks ev.1 := by
  cases failed with
  | false => cases hev
  | true =>
    obtain rfl := List.mem_singleton.mp hev
    rfl

theorem DataStep.other {e : Eff} (he : DataStep h e) : ¬ Finalizes e ∧ ¬ Marks e ∧ ¬ Releases e := by
  rcases he with ⟨n, rfl | rfl⟩ | ⟨buf, rfl⟩ | rfl <;> simp [Finalizes, Marks, Releases]

theorem DataStep.succeeds {ev : Event ftp} (he : DataStep h ev.1) : ¬ CleanupFailed h ev := by
  rintro (⟨e, rfl⟩ | ⟨e, rfl⟩ | ⟨e, rfl⟩) <;> simp [DataStep] at he

theorem CleanupStep.other {e : Eff} (he : CleanupStep h e) :
    ¬ Finalizes e ∧ ¬ Marks e ∧ ¬ Releases e := by
  rcases he with rfl | rfl <;> simp [Finalizes, Marks, Releases]

/-- Neither the mark nor the release of the guard is a failure. -/
theorem tail_succeeds {ev : Event ftp} {failed : Bool}
    (hev : ev ∈ mark failed ++ [⟨.guardDrop, ()⟩]) : ¬ CleanupFailed h ev ∧ ¬ Finalizes ev.1 := by
  rcases List.mem_append.mp hev with hev | hev
  · have hm : ev.1 = .storeUsable false := mark_marks hev
    refine ⟨?_, ?_⟩
    · rintro (⟨e, rfl⟩ | ⟨e, rfl⟩ | ⟨e, rfl⟩) <;> cases hm
    · rintro ⟨g, hg⟩
      rw [hg] at hm
      cases hm
  · obtain rfl := List.mem_singleton.mp hev
    refine ⟨?_, ?_⟩
    · rintro (⟨e, he⟩ | ⟨e, he⟩ | ⟨e, he⟩) <;> cases he
    · rintro ⟨g, hg⟩
      cases hg

/-- A stream that was used and then closed. -/
theorem Closed.completed (hd : ∀ ev ∈ evs, DataStep h ev.1) (hc : Closed h D evs') :
    Completed h (evs ++ evs') := by
  obtain ⟨pre, f, failed, rfl, hpre, -, hf⟩ := hc
  have hother : ∀ ev ∈ evs ++ pre, ¬ Finalizes ev.1 ∧ ¬ Marks ev.1 ∧ ¬ Releases ev.1 := by
    intro ev hev
    rcases List.mem_append.mp hev with hev | hev
    · exact (hd ev hev).other
    · exact (hpre ev hev).other
  have hsplit : evs ++ (pre ++ ⟨.finish h, f⟩ :: (mark failed ++ [⟨.guardDrop, ()⟩])) =
      (evs ++ pre) ++ ⟨.finish h, f⟩ :: (mark failed ++ [⟨.guardDrop, ()⟩]) :=
    (List.append_assoc ..).symm
  constructor
  · exact ⟨evs ++ pre, f, _, hsplit, fun ev hev => (hother ev hev).1, fun ev hev =>
      (tail_succeeds (h := h) hev).2⟩
  · rw [hsplit]
    constructor
    · rintro ⟨ev, hev, hm⟩
      have hfailed : failed = true := by
        rcases List.mem_append.mp hev with hev | hev
        · exact ((hother ev hev).2.1 hm).elim
        · rcases List.mem_cons.mp hev with rfl | hev
          · cases hm
          · cases failed with
            | true => rfl
            | false =>
              obtain rfl := List.mem_singleton.mp hev
              cases hm
      obtain ⟨ev, hev, hr⟩ := hf.mp hfailed
      refine ⟨ev, ?_, hr⟩
      simp only [List.mem_append, List.mem_cons] at hev ⊢
      tauto
    · rintro ⟨ev, hev, hr⟩
      have hmem : ev ∈ pre ++ [⟨.finish h, f⟩] := by
        rcases List.mem_append.mp hev with hev | hev
        · rcases List.mem_append.mp hev with hev | hev
          · exact ((hd ev hev).succeeds hr).elim
          · exact List.mem_append_left _ hev
        · rcases List.mem_cons.mp hev with rfl | hev
          · exact List.mem_append_right _ (List.mem_singleton_self _)
          · exact ((tail_succeeds hev).1 hr).elim
      obtain rfl : failed = true := hf.mpr ⟨ev, hmem, hr⟩
      exact ⟨⟨.storeUsable false, ()⟩, by simp [mark], rfl⟩
  · refine ⟨(evs ++ pre) ++ ⟨.finish h, f⟩ :: mark failed, by simp, fun ev hev => ?_⟩
    rcases List.mem_append.mp hev with hev | hev
    · exact (hother ev hev).2.2
    · rcases List.mem_cons.mp hev with rfl | hev
      · simp [Releases]
      · have hm : ev.1 = .storeUsable false := mark_marks hev
        rw [hm]
        simp [Releases]

theorem Closed.drained (hc : Closed h D evs')
    (hD : ∀ pre, D pre → ∃ ev ∈ evs ++ pre, ReportsEof h ev ∨ DrainFailed h ev) :
    Drained h (evs ++ evs') := by
  obtain ⟨pre, f, failed, rfl, -, hpre, -⟩ := hc
  exact ⟨evs ++ pre, f, _, (List.append_assoc ..).symm, hD pre hpre⟩

end

/-! ### Downloads -/

namespace FtpReadStream

variable (X : Ext) {h : Conn} {s : ReadStream} {evs : List (Event ftp)}

/-- What a download does before it is finalized, unless it was read to the end. -/
def Drains (h : Conn) (atEof : Bool) (pre : List (Event ftp)) : Prop :=
  atEof = true ∨ ∃ ev ∈ pre, ReportsEof h ev ∨ DrainFailed h ev

theorem finishRead_cleaned (atEof : Bool) :
    Ensures (finishRead X h atEof) (Cleaned h (Drains h atEof)) := by
  cases atEof with
  | true =>
    intro f
    refine ⟨[], f, rfl, nofun, .inl rfl, ?_⟩
    cases f <;> simp [cleanupOutcome, mapFtpError, Except.isOk, Except.toBool, CleanupFailed, DrainFailed]
  | false =>
    intro d f
    have hdrain : ∃ ev ∈ ([⟨.copyAll h, d⟩] : List (Event ftp)), ReportsEof h ev ∨ DrainFailed h ev := by
      refine ⟨_, List.mem_singleton_self _, ?_⟩
      cases d with
      | ok n => exact .inl (.inr (.inr ⟨n, rfl⟩))
      | error e => exact .inr ⟨e, rfl⟩
    refine ⟨[⟨.copyAll h, d⟩], f, rfl, ?_, .inr hdrain, ?_⟩
    · intro ev hev
      obtain rfl := List.mem_singleton.mp hev
      exact .inl rfl
    · cases d <;> cases f <;>
        simp [cleanupOutcome, mapFtpError, mapIoError, Except.isOk, Except.toBool, CleanupFailed, DrainFailed]

/-- However a download is ended, it is cleaned up first and lets go of its
guard last. -/
theorem ending_eq (remaining : Option Nat) (atEof : Bool) (e : ReadEnd) :
    ending X ⟨some h, remaining, atEof⟩ e = (do
      let r ← finishRead X h atEof
      invalidateOnErr r
      step .guardDrop) := by
  cases e with
  | finish =>
    simp only [ending, finish, finishInner, bind_assoc, pure_bind]
    rfl
  | drop =>
    simp only [ending, drop]
  | finishAfterSkip skip =>
    simp only [ending, finishAfterSkip, finishInner, bind_assoc, pure_bind]
    refine congrArg _ (funext fun r => congrArg _ (funext fun _ => congrArg _ (funext fun _ => ?_)))
    cases r <;> rfl

/-- At any point of its life a download has reached the end of its data only
if its data socket said so. -/
theorem uses_reported (h : Conn) (length : Option Nat) (us : List ReadUse) :
    Ensures (uses X (new h length) us) (Used h) := by
  have hnew : Used h [] (new h length) := ⟨rfl, nofun, nofun⟩
  exact uses_ensures X hnew us

theorem life_completed (h : Conn) (length : Option Nat) (us : List ReadUse) (e : ReadEnd) :
    Ensures (life X h length us e) fun evs _ => Completed h evs ∧ Drained h evs := by
  refine ensures_seq (uses_reported X h length us) fun evs s hu => ?_
  obtain ⟨inner, remaining, atEof⟩ := s
  obtain rfl : inner = some h := hu.inner
  rw [ending_eq]
  refine Prog.Ensures.mono (closed_of_cleaned (finishRead_cleaned X atEof)) fun evs' _ hc => ?_
  refine ⟨hc.completed hu.data, hc.drained fun pre hD => ?_⟩
  rcases hD with heof | ⟨ev, hev, hr⟩
  · obtain ⟨ev, hev, hr⟩ := hu.eof heof
    exact ⟨ev, List.mem_append_left _ hev, .inl hr⟩
  · exact ⟨ev, List.mem_append_right _ hev, hr⟩

end FtpReadStream

/-! ### Uploads -/

namespace FtpWriteStream

variable (X : Ext) {h : Conn}

theorem use_ensures (u : WriteUse) :
    Ensures (use (new h) u) fun evs _ => ∀ ev ∈ evs, DataStep h ev.1 := by
  cases u with
  | write buf =>
    intro r ev hev
    obtain rfl := List.mem_singleton.mp hev
    exact .inr (.inl ⟨buf, rfl⟩)
  | flush =>
    intro r ev hev
    obtain rfl := List.mem_singleton.mp hev
    exact .inr (.inr rfl)

theorem uses_ensures (us : List WriteUse) :
    Ensures (uses (new h) us) fun evs _ => ∀ ev ∈ evs, DataStep h ev.1 := by
  induction us with
  | nil => exact nofun
  | cons u us ih =>
    refine ensures_seq (use_ensures u) fun evs _ hu => Prog.Ensures.mono ih fun evs' _ hus ev hev => ?_
    exact (List.mem_append.mp hev).elim (hu ev) (hus ev)

theorem finishWrite_cleaned : Ensures (finishWrite X h) (Cleaned h fun _ => True) := by
  intro d f
  refine ⟨[⟨.flush h true, d⟩], f, rfl, ?_, trivial, ?_⟩
  · intro ev hev
    obtain rfl := List.mem_singleton.mp hev
    exact .inr rfl
  · cases d <;> cases f <;>
      simp [cleanupOutcome, mapFtpError, mapIoError, Except.isOk, Except.toBool, CleanupFailed, DrainFailed]

theorem ending_eq (e : WriteEnd) : ending X (new h) e = (do
    let r ← finishWrite X h
    FtpReadStream.invalidateOnErr r
    step .guardDrop) := by
  cases e with
  | finish =>
    simp only [ending, finish, new, bind_assoc]
    rfl
  | drop => simp only [ending, drop, new]

theorem life_completed (h : Conn) (us : List WriteUse) (e : WriteEnd) :
    Ensures (life X h us e) fun evs _ => Completed h evs := by
  refine ensures_seq (uses_ensures us) fun evs _ hu => ?_
  rw [ending_eq]
  exact Prog.Ensures.mono (closed_of_cleaned (finishWrite_cleaned X)) fun evs' _ hc => hc.completed hu

end FtpWriteStream

/-- **Transfers are completed once.** For every stream of the blocking client,
every length budget, everything a caller does with it, every way to end it and
whatever its data socket and the server answer: nothing panics; a download
knows of the end of its data only from its data socket; the transfer is
finalized once, a download behind the end of its data unless its drain failed;
the connection is marked unusable exactly if the drain, flush or finalization
failed; and `transfer_active` is cleared once, behind all of it. -/
theorem transfer_completed (X : Ext) (h : Conn) :
    (∀ length us, Ensures (FtpReadStream.uses X (FtpReadStream.new h length) us) fun evs s =>
      s.atEof = true → ∃ ev ∈ evs, ReportsEof h ev) ∧
    (∀ length us e, Ensures (FtpReadStream.life X h length us e) fun evs _ =>
      Completed h evs ∧ Drained h evs) ∧
    ∀ us e, Ensures (FtpWriteStream.life X h us e) fun evs _ => Completed h evs :=
  ⟨fun length us => Prog.Ensures.mono (FtpReadStream.uses_reported X h length us) fun _ _ hu => hu.eof,
    fun length us e => FtpReadStream.life_completed X h length us e,
    fun us e => FtpWriteStream.life_completed X h us e⟩

end RemotefsFtp.L3
