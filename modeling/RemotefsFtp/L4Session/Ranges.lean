import RemotefsFtp.L4Session.Opening
import RemotefsFtp.L4Session.Script

/-!
# Ranged downloads (`src/client/sync.rs:988-1027`, `src/client/tokio.rs:943-996`)

A server with files: `REST` sets its marker, an accepted `RETR` sends the file
from there. What it accepts, and in which chunks its data arrive, is arbitrary.
`resume_transfer` is taken for an immediate `REST` exchange, as where it is
modelled (`FtpFs.requestOffset`).
A caller reads a download with buffers of any sizes until one comes back empty.

Results:
* `eval_read`: a read hands over the next bytes of what is left of the range.
* **`ranged_read`**: whichever way the blocking client gets its stream, a caller
  reads the range it asked for, and nothing else.
* **`tokio_ranged_read`**: so it does from the Tokio client.
-/
namespace RemotefsFtp.L4

open L1 (Str Path)
open L2 L3
open Core (Prog)

/-! ## The server -/

structure Serving where
  /-- The restart marker. -/
  marker : Nat := 0
  /-- What the data socket has yet to deliver. -/
  data : List UInt8 := []
  /-- The sizes of the chunks in which it arrives, less one. -/
  chunks : Nat → Nat
  /-- The replies to the next commands; the others succeed. -/
  replies : List (FtpResult Response) := []

abbrev Files := Str → List UInt8

namespace Serving

variable (files : Files) (s : Serving)

/-- The reply to the `n`-th command from here. -/
def reply (n : Nat) : FtpResult Response := s.replies.getD n (.ok ⟨.other 200, []⟩)

/-- After the reply to `c`. -/
def answered (c : Command) : Serving :=
  let s' := { s with replies := s.replies.tail }
  match c, s.reply 0 with
  | .resumeTransfer offset, .ok _ => { s' with marker := offset }
  | .retrAsStream remote, .ok _ => { s' with marker := 0, data := (files remote).drop s.marker }
  | .putWithStream _, .ok _ | .appendWithStream _, .ok _ => { s' with marker := 0 }
  | _, _ => s'

/-- What a read into `n` bytes gets. -/
def chunk (n : Nat) : List UInt8 := s.data.take (min n (s.chunks 0 + 1))

def received (n : Nat) : Serving :=
  { s with data := s.data.drop (s.chunk n).length, chunks := fun i => s.chunks (i + 1) }

end Serving

def fileServer (files : Files) : Server Serving where
  answer s e :=
    match e with
    | .recv _ c => ({ reply := s.reply 0 }, s.answered files c)
    | .read _ n => ({ bytes := .ok (s.chunk n) }, s.received n)
    | .copyTake _ n => ({ count := .ok (min n s.data.length) }, { s with data := s.data.drop n })
    | .copyAll _ => ({ count := .ok s.data.length }, { s with data := [] })
    | .readToEnd _ => ({ bytes := .ok s.data }, { s with data := [] })
    | _ => ({}, s)

/-- The bytes `opts` asks for. -/
def range (opts : ReadOptions) (content : List UInt8) : List UInt8 :=
  match opts.length with
  | none => content.drop (opts.offset.getD 0)
  | some length => (content.drop (opts.offset.getD 0)).take length

/-! ## Reading -/

/-- What a stream with this budget hands over of `data`. -/
def within (remaining : Option Nat) (data : List UInt8) : List UInt8 :=
  match remaining with
  | none => data
  | some budget => data.take budget

/-- Reads into buffers of these sizes, until a non-empty one comes back empty
(`true`). -/
def readAll (read : ReadStream → Nat → Io (Except IoError (List UInt8) × ReadStream)) :
    ReadStream → List Nat → Io (Except IoError (List UInt8 × Bool))
  | _, [] => pure (.ok ([], false))
  | s, n :: ns => do
    let (r, s) ← read s n
    match r with
    | .error e => pure (.error e)
    | .ok bytes =>
      if bytes = [] ∧ 0 < n then pure (.ok ([], true))
      else
        match ← readAll read s ns with
        | .error e => pure (.error e)
        | .ok (rest, ended) => pure (.ok (bytes ++ rest, ended))

namespace Serving

variable {s : Serving} {n : Nat}

theorem chunk_append : s.chunk n ++ (s.received n).data = s.data := by
  have hdrop : (s.received n).data = s.data.drop (min n (s.chunks 0 + 1)) := by
    show s.data.drop (s.data.take _).length = _
    rw [List.length_take]
    exact (List.drop_eq_drop_min ..).symm
  rw [hdrop, chunk, List.take_append_drop]

theorem chunk_le : (s.chunk n).length ≤ n := by
  unfold chunk
  rw [List.length_take]
  omega

theorem chunk_empty (hn : 0 < n) (h : s.chunk n = []) : s.data = [] := by
  unfold chunk at h
  rcases List.take_eq_nil_iff.mp h with h | h
  · omega
  · exact h

end Serving

section
variable {α β : Type} (files : Files) (X : Ext) {h : Conn} {f : Frame} {l : Line Serving}

variable {files} in
/-- What has been run is behind. -/
theorem eval_after {p : Io α} {a : α} {x : Session Serving} {l' : Line Serving}
    (hp : Prog.eval (alone (fileServer files)) p x = some (a, ⟨f, l'⟩)) (k : α → Io β) :
    Prog.eval (alone (fileServer files)) (p >>= k) x = Prog.eval (alone (fileServer files)) (k a) ⟨f, l'⟩ := by
  rw [Prog.bind_eq, Prog.eval_bind, hp]
  rfl

theorem eval_readData (n : Nat) : ∃ l' c,
    Prog.eval (alone (fileServer files)) (step (.read h n)) ⟨f, l⟩ = some (.ok c, ⟨f, l'⟩) ∧
      l'.srv = l.srv.received n ∧ c.1 = l.srv.chunk n := by
  obtain ⟨slot, locked, active, connected, welcome⟩ := f
  cases locked <;> exact ⟨_, _, rfl, rfl, List.take_of_length_le Serving.chunk_le⟩

/-- A read of the data gets the next bytes within the budget. -/
theorem eval_readLimited (remaining : Option Nat) {n : Nat} (hn : 0 < n) : ∃ bytes remaining' l',
    Prog.eval (alone (fileServer files)) (FtpReadStream.readLimited X h remaining n) ⟨f, l⟩ =
        some ((.ok bytes, remaining'), ⟨f, l'⟩) ∧
      within remaining l.srv.data = bytes ++ within remaining' l'.srv.data ∧
      (bytes = [] → within remaining l.srv.data = []) := by
  unfold FtpReadStream.readLimited
  cases remaining with
  | none =>
    obtain ⟨l', c, he, hl, hc⟩ := eval_readData files (h := h) (f := f) (l := l) n
    refine ⟨c.1, none, l', by rw [eval_after he]; rfl, ?_, ?_⟩
    · rw [hc, within, within, hl, Serving.chunk_append]
    · exact fun h => Serving.chunk_empty hn (hc ▸ h)
  | some budget =>
    dsimp only
    by_cases h0 : budget = 0
    · rw [if_pos h0]
      refine ⟨[], some 0, l, rfl, ?_, ?_⟩ <;> simp [within, h0]
    · rw [if_neg h0]
      obtain ⟨l', c, he, hl, hc⟩ := eval_readData files (h := h) (f := f) (l := l) (readLimit X budget n)
      have hle : c.1.length ≤ budget := c.2.trans (readLimit_le X budget n)
      refine ⟨c.1, some (budget - c.1.length), l', ?_, ?_, ?_⟩
      · rw [eval_after he]
        dsimp only
        rw [if_pos hle]
        rfl
      · rw [within, within, hl, ← Serving.chunk_append (s := l.srv) (n := readLimit X budget n), ← hc,
          List.take_append, List.take_of_length_le hle]
      · intro h
        rw [within, Serving.chunk_empty (readLimit_pos X h0 (Nat.pos_iff_ne_zero.mp hn)) (hc ▸ h), List.take_nil]

/-- A read hands over the next bytes of what the stream has left. -/
theorem eval_read (remaining : Option Nat) (atEof : Bool) (n : Nat) : ∃ bytes remaining' atEof' l',
    Prog.eval (alone (fileServer files)) (FtpReadStream.read X (reading h remaining atEof) n) ⟨f, l⟩ =
        some ((.ok bytes, reading h remaining' atEof'), ⟨f, l'⟩) ∧
      within remaining l.srv.data = bytes ++ within remaining' l'.srv.data ∧
      (0 < n → bytes = [] → within remaining l.srv.data = []) := by
  unfold FtpReadStream.read
  by_cases hn : n = 0
  · rw [if_pos hn]
    exact ⟨[], remaining, atEof, l, rfl, rfl, fun h => absurd hn (Nat.pos_iff_ne_zero.mp h)⟩
  · rw [if_neg hn]
    obtain ⟨bytes, remaining', l', he, hw, hb⟩ :=
      eval_readLimited files X (h := h) (f := f) (l := l) remaining (Nat.pos_of_ne_zero hn)
    refine ⟨bytes, remaining', if bytes.length = 0 ∧ remaining' ≠ some 0 then true else atEof, l', ?_, hw, fun _ => hb⟩
    rw [eval_after he]
    dsimp only
    split <;> rfl

/-- A caller gets the bytes the stream has left in order, all of them once a
buffer comes back empty, and a buffer does as soon as there are enough. -/
theorem eval_readAll (remaining : Option Nat) (atEof : Bool) (bufs : List Nat) : ∃ bytes ended y,
    Prog.eval (alone (fileServer files)) (readAll (FtpReadStream.read X) (reading h remaining atEof) bufs) ⟨f, l⟩ =
        some (.ok (bytes, ended), y) ∧
      bytes <+: within remaining l.srv.data ∧
      (ended = true → bytes = within remaining l.srv.data) ∧
      ((within remaining l.srv.data).length < (bufs.filter (0 < ·)).length → ended = true) := by
  induction bufs generalizing remaining atEof l with
  | nil => exact ⟨[], false, _, rfl, List.nil_prefix, fun h => (nomatch h), fun h => absurd h (Nat.not_lt_zero _)⟩
  | cons n bufs ih =>
    obtain ⟨bytes, remaining', atEof', l', he, hw, hb⟩ :=
      eval_read files X (h := h) (f := f) (l := l) remaining atEof n
    rw [readAll, eval_after he]
    dsimp only
    by_cases hend : bytes = [] ∧ 0 < n
    · rw [if_pos hend]
      exact ⟨[], true, _, rfl, List.nil_prefix, fun _ => (hb hend.2 hend.1).symm, fun _ => rfl⟩
    · rw [if_neg hend]
      obtain ⟨rest, ended, y, hy, hpre, hall, hcount⟩ := ih (l := l') remaining' atEof'
      refine ⟨bytes ++ rest, ended, y, ?_, ?_, ?_, ?_⟩
      · rw [Prog.bind_eq, Prog.eval_bind, hy]
        rfl
      · rw [hw]
        exact (List.prefix_append_right_inj bytes).mpr hpre
      · intro h
        rw [hw, hall h]
      · intro h
        apply hcount
        rw [hw, List.length_append] at h
        by_cases hn : 0 < n
        · have hne : bytes ≠ [] := fun hb => hend ⟨hb, hn⟩
          have := List.length_pos_iff.mpr hne
          rw [List.filter_cons_of_pos (by simpa using hn), List.length_cons] at h
          omega
        · rw [List.filter_cons_of_neg (by simpa using hn)] at h
          omega

end

/-! ## Opening -/

/-- Whether `open` gets its data: the server accepts `REST` and `RETR`, or
`REST` and, after a refused `RETR`, `REST 0` and `RETR`; or it does not
support `REST`, or is not asked to, and accepts `RETR`. -/
def Serving.serves (X : Ext) (s : Serving) (offset : Nat) : Bool :=
  if 0 < offset ∧ offset ≤ X.usizeMax then
    match restAnswer (s.reply 0) with
    | .ok true => (s.reply 1).isOk || (s.reply 2).isOk && (s.reply 3).isOk
    | .ok false => (s.reply 1).isOk
    | .error _ => false
  else (s.reply 0).isOk

/-- How the section of `open` ends: with the data of a file from where the
server starts, a refusal, or an error. -/
inductive Opened (files : Files) (h : Conn) (remote : Str) (offset : Nat) (srv : Serving) :
    Bool → RemoteResult (FtpResult (Conn × Bool)) → Prop
  | served (resumed : Bool) (data : srv.data = (files remote).drop (if resumed then offset else 0)) :
    Opened files h remote offset srv true (.ok (.ok (h, resumed)))
  | refused (err : FtpError) : Opened files h remote offset srv false (.ok (.error err))
  | failed (e : RemoteError) : Opened files h remote offset srv false (.error e)

section
variable {β : Type} (files : Files) (X : Ext) (h : Conn) (remote : Str) (offset : Nat) (f : Frame) (l : Line Serving)

/-- No stream builder fails. -/
theorem step_builder (x : Session Serving) : (alone (fileServer files)).step x (.builder h) =
    some (false, { x with calls := x.calls ++ [⟨.builder h, false⟩] }) := by
  obtain ⟨f, l⟩ := x
  have hb : ((fileServer files).next l.srv (.builder h)).1.builderFails = false := rfl
  simp only [alone, perform, hb, Bool.and_false, Bool.false_eq_true, if_false, Option.map_some, view_frame]
  rfl

theorem eval_asked (c : Command) : ∃ l',
    Prog.eval (alone (fileServer files)) (call h c) ⟨f, l⟩ = some (l.srv.reply 0, ⟨f, l'⟩) ∧
      l'.srv = l.srv.answered files c := by
  obtain ⟨slot, locked, active, connected, welcome⟩ := f
  unfold call
  cases hd : c.opensData with
  | false => cases locked <;> exact ⟨_, rfl, rfl⟩
  | true =>
    have hsend : (alone (fileServer files)).step ⟨⟨slot, locked, active, connected, welcome⟩, l⟩ (.send h c) =
        some ((), ⟨⟨slot, locked, active, connected, welcome⟩, { l with calls := l.calls ++ [⟨.send h c, ()⟩] }⟩) := by
      cases locked <;> rfl
    rw [Prog.bind_eq, Prog.eval_bind, Prog.eval_step, hsend]
    dsimp only [Option.bind_some]
    rw [if_pos rfl, Prog.bind_eq, Prog.eval_bind, Prog.eval_step, step_builder]
    cases locked <;> exact ⟨_, rfl, rfl⟩

@[simp] theorem Serving.reply_answered (s : Serving) (c : Command) (n : Nat) :
    (s.answered files c).reply n = s.reply (n + 1) := by
  have hreplies : (s.answered files c).replies = s.replies.tail := by
    unfold answered
    dsimp only
    split <;> rfl
  rw [reply, hreplies, reply]
  cases s.replies with
  | nil => rfl
  | cons r rest => rfl

theorem Serving.answered_error {s : Serving} {e : FtpError} (he : s.reply 0 = .error e) (c : Command) :
    s.answered files c = { s with replies := s.replies.tail } := by
  unfold answered
  rw [he]
  cases c <;> rfl

theorem Serving.marker_rest {s : Serving} {a : Response} (ha : s.reply 0 = .ok a) (offset : Nat) :
    (s.answered files (.resumeTransfer offset)).marker = offset := by
  unfold answered
  rw [ha]

theorem Serving.data_retr {s : Serving} {a : Response} (ha : s.reply 0 = .ok a) :
    (s.answered files (.retrAsStream remote)).data = (files remote).drop s.marker := by
  unfold answered
  rw [ha]

/-- The `RETR` after the offset is settled. -/
theorem eval_retrieved (resumed : Bool) (hm : l.srv.marker = if resumed then offset else 0)
    (k : RemoteResult (FtpResult (Conn × Bool)) → Io β) : ∃ r act l',
    Prog.eval (alone (fileServer files)) (retrieve h remote resumed >>= k) ⟨f, l⟩ =
        Prog.eval (alone (fileServer files)) (k r) ⟨{ f with active := act }, l'⟩ ∧
      Opened files h remote offset l'.srv
        ((l.srv.reply 0).isOk || resumed && (l.srv.reply 1).isOk && (l.srv.reply 2).isOk) r := by
  obtain ⟨l₁, h₁, hs₁⟩ := eval_asked files h f l (.retrAsStream remote)
  unfold retrieve
  simp only [bind_assoc]
  rw [eval_after h₁]
  have hreply (n : Nat) : l₁.srv.reply n = l.srv.reply (n + 1) := by rw [hs₁, Serving.reply_answered]
  cases hr : l.srv.reply 0 with
  | ok a =>
    have hdata : l₁.srv.data = (files remote).drop (if resumed then offset else 0) := by
      rw [hs₁, Serving.data_retr files remote hr, hm]
    have hif : ¬ (resumed && (.ok a : FtpResult Response).isOk = false) = true := by cases resumed <;> exact Bool.false_ne_true
    rw [if_neg hif]
    simp only [bind_assoc, pure_bind]
    rw [eval_settle]
    exact ⟨_, _, _, rfl, .served resumed hdata⟩
  | error e =>
    cases resumed with
    | false =>
      simp only [Bool.false_and, Bool.false_eq_true, if_false, bind_assoc, pure_bind]
      rw [eval_settle]
      exact ⟨_, _, _, rfl, .refused e⟩
    | true =>
      have hif : (true && (.error e : FtpResult Response).isOk = false) = true := rfl
      rw [if_pos hif]
      simp only [bind_assoc]
      obtain ⟨l₂, h₂, hs₂⟩ := eval_asked files h f l₁ (.resumeTransfer 0)
      rw [eval_after h₂, hreply]
      cases hr' : l.srv.reply 1 with
      | error e' =>
        simp only [bind_assoc, pure_bind]
        rw [FtpFs.markConnectionUnusable, eval_store]
        exact ⟨_, f.active, _, rfl, .failed _⟩
      | ok b =>
        obtain ⟨l₃, h₃, hs₃⟩ := eval_asked files h f l₂ (.retrAsStream remote)
        have hreply₂ : l₂.srv.reply 0 = l.srv.reply 2 := by rw [hs₂, Serving.reply_answered, hreply]
        simp only [bind_assoc, pure_bind]
        rw [eval_after h₃, eval_settle, hreply₂]
        cases hr'' : l.srv.reply 2 with
        | error e'' => exact ⟨_, _, _, rfl, .refused e''⟩
        | ok c =>
          refine ⟨_, _, _, rfl, .served false ?_⟩
          show l₃.srv.data = (files remote).drop 0
          rw [hs₃, Serving.data_retr files remote (hreply₂.trans hr''), hs₂, Serving.marker_rest files ((hreply 0).trans hr')]

/-- The section of `open`, up to what it records at its end. -/
theorem eval_opened (hm : l.srv.marker = 0) (k : RemoteResult (FtpResult (Conn × Bool)) → Io β) : ∃ r act l',
    Prog.eval (alone (fileServer files)) (FtpFs.openTransfer X h remote offset >>= k) ⟨f, l⟩ =
        Prog.eval (alone (fileServer files)) (k r) ⟨{ f with active := act }, l'⟩ ∧
      Opened files h remote offset l'.srv (l.srv.serves X offset) r := by
  rw [openTransfer_eq]
  simp only [bind_assoc]
  unfold Serving.serves
  by_cases ho : 0 < offset ∧ offset ≤ X.usizeMax
  · rw [if_pos ho.1, if_pos ho, requestOffset_eq X h ho.2]
    simp only [bind_assoc, pure_bind]
    obtain ⟨l₁, h₁, hs₁⟩ := eval_asked files h f l (.resumeTransfer offset)
    rw [eval_after h₁]
    have hreply (n : Nat) : l₁.srv.reply n = l.srv.reply (n + 1) := by rw [hs₁, Serving.reply_answered]
    cases hr : restAnswer (l.srv.reply 0) with
    | error e => exact ⟨_, f.active, l₁, by simp only [pure_bind], .failed e⟩
    | ok resumed =>
      obtain ⟨-, hok⟩ := restAnswer_ok hr
      have hm₁ : l₁.srv.marker = if resumed then offset else 0 := by
        rw [hs₁]
        cases hr₀ : l.srv.reply 0 with
        | ok a =>
          rw [hr₀] at hok
          obtain rfl : true = resumed := hok
          exact Serving.marker_rest files hr₀ offset
        | error e =>
          rw [hr₀] at hok
          obtain rfl : false = resumed := hok
          rw [Serving.answered_error files hr₀]
          exact hm
      obtain ⟨r, act, l', he, hopen⟩ := eval_retrieved files h remote offset f l₁ resumed hm₁ k
      refine ⟨r, act, l', he, ?_⟩
      rw [hreply, hreply, hreply] at hopen
      cases resumed
      · simpa using hopen
      · exact hopen
  · rw [if_neg ho, requestNone X h ho]
    simp only [pure_bind]
    obtain ⟨r, act, l', he, hopen⟩ := eval_retrieved files h remote offset f l false hm k
    exact ⟨r, act, l', he, by simpa using hopen⟩

end

/-! ## Ranges -/

section
variable (files : Files) (X : Ext) (path : Path) (opts : ReadOptions) {h : Conn} {remote : Str} {f : Frame}
  {l : Line Serving}

theorem eval_skipped (remaining : Option Nat) (offset : Nat) : ∃ atEof l',
    Prog.eval (alone (fileServer files)) (FtpReadStream.skipPrefix X (reading h remaining false) offset) ⟨f, l⟩ =
        some ((.ok (), reading h remaining atEof), ⟨f, l'⟩) ∧
      l'.srv.data = l.srv.data.drop offset := by
  have hcopy : ∃ l', Prog.eval (alone (fileServer files)) (step (.copyTake h offset)) ⟨f, l⟩ =
      some (.ok (min offset l.srv.data.length), ⟨f, l'⟩) ∧ l'.srv.data = l.srv.data.drop offset := by
    obtain ⟨slot, locked, active, connected, welcome⟩ := f
    cases locked <;> exact ⟨_, rfl, rfl⟩
  obtain ⟨l', he, hl⟩ := hcopy
  refine ⟨decide (min offset l.srv.data.length < offset), l', ?_, hl⟩
  show Prog.eval (alone (fileServer files)) (step (.copyTake h offset) >>= _) _ = _
  rw [eval_after he]
  dsimp only
  by_cases hs : min offset l.srv.data.length < offset
  · rw [if_pos hs, decide_eq_true hs]
    rfl
  · rw [if_neg hs, decide_eq_false hs]
    rfl

/-- What is left of a download that was served is the range: what the server
did not skip, `open` does. -/
theorem eval_served {resumed : Bool}
    (hd : l.srv.data = (files remote).drop (if resumed then opts.offset.getD 0 else 0)) : ∃ atEof l',
    Prog.eval (alone (fileServer files)) (afterSetup X path opts (.ok (.ok (h, resumed)))) ⟨f, l⟩ =
        some (.ok (reading h opts.length atEof), ⟨f, l'⟩) ∧
      within opts.length l'.srv.data = range opts (files remote) := by
  have hrange {data : List UInt8} (hdata : data = (files remote).drop (opts.offset.getD 0)) :
      within opts.length data = range opts (files remote) := by
    rw [hdata]
    rfl
  unfold afterSetup
  show ∃ atEof l', Prog.eval (alone (fileServer files)) (if 0 < opts.offset.getD 0 ∧ resumed = false then _ else _) _ = _ ∧ _
  by_cases hs : 0 < opts.offset.getD 0 ∧ resumed = false
  · obtain ⟨hpos, rfl⟩ := hs
    obtain ⟨atEof, l', he, hl⟩ := eval_skipped files X (h := h) (f := f) (l := l) opts.length (opts.offset.getD 0)
    rw [if_pos ⟨hpos, rfl⟩]
    refine ⟨atEof, l', ?_, hrange (hl.trans (congrArg _ hd))⟩
    show Prog.eval (alone (fileServer files))
      (FtpReadStream.skipPrefix X (reading h opts.length false) (opts.offset.getD 0) >>= _) _ = _
    rw [eval_after he]
    rfl
  · rw [if_neg hs]
    refine ⟨false, l, rfl, hrange ?_⟩
    cases resumed with
    | true => exact hd
    | false =>
      have h0 : opts.offset.getD 0 = 0 := Nat.eq_zero_of_not_pos fun hpos => hs ⟨hpos, rfl⟩
      rw [hd, h0]
      rfl

/-- A refused download is an error, whatever the client finds out about it. -/
theorem afterSetup_error {r : RemoteResult (FtpResult (Conn × Bool))} (hr : ∀ a, r ≠ .ok (.ok a))
    {x y : Session Serving} {a : RemoteResult ReadStream}
    (he : Prog.eval (alone (fileServer files)) (afterSetup X path opts r) x = some (a, y)) : a.isOk = false := by
  have ha := Prog.eval_returns he
  unfold afterSetup at ha
  rcases r with e | err | b
  · cases ha
    rfl
  · obtain ⟨r, hr', ha⟩ := Prog.returns_bind.mp ha
    obtain ⟨e, -, he⟩ := Prog.returns_bind.mp hr'
    cases he
    cases ha
    rfl
  · exact absurd rfl (hr b)

/-- From `x`, `p` opens a stream exactly if `served`, and whoever reads it to
its end gets `bytes`: read after read the next of them, nothing else, and all
of them by the time a buffer comes back empty. -/
def Delivers (files : Files) (x : Session Serving) (p : Io (RemoteResult ReadStream))
    (read : ReadStream → Nat → Io (Except IoError (List UInt8) × ReadStream)) (served : Bool)
    (bytes : List UInt8) : Prop :=
  ∃ r y, Prog.eval (alone (fileServer files)) p x = some (r, y) ∧ r.isOk = served ∧
    ∀ s, r = .ok s → ∀ bufs, ∃ got ended z,
      Prog.eval (alone (fileServer files)) (readAll read s bufs) y = some (.ok (got, ended), z) ∧
        got <+: bytes ∧ (ended = true → got = bytes) ∧
        (bytes.length < (bufs.filter (0 < ·)).length → ended = true)

/-- **Ranged downloads.** On a server with files, for every offset and length,
every reply to `REST` and `RETR`, every chunking of the data and all buffers:
`open` of the blocking client returns a stream exactly if the server lets it
have the data, and reading the stream delivers exactly the range of the file. -/
theorem ranged_read (X : Ext) (files : Files) {path : Path} {remote : Str} (hp : remotePath path = .ok remote)
    (opts : ReadOptions) {x : Session Serving} {h : Conn} (hx : x.locked = false)
    (hg : gate x.toFrame x.usable = .ok h) (hm : x.srv.marker = 0) :
    Delivers files x (FtpFs.open' X path opts) (FtpReadStream.read X)
      (x.srv.serves X (opts.offset.getD 0)) (range opts (files remote)) := by
  -- the run returns
  obtain ⟨a, y, -, hrun, -⟩ := sim_open (V := fileServer files) X path opts x
    ⟨{ x.toFrame with connected := x.slot.isSome }, x.toLine⟩ ⟨rfl, hx, hx, rfl, rfl, rfl⟩
  refine ⟨a, y, hrun, ?_⟩
  rw [open_eq, withRemotePath, hp] at hrun
  obtain ⟨r, act, l', he, hopen⟩ := eval_opened files X h remote (opts.offset.getD 0)
    { x.toFrame with locked := true } x.toLine hm fun result => do
      FtpFs.recordRemoteResult result
      FtpFs.unlock
      afterSetup X path opts result
  have hin := eval_withStream_ok (V := fileServer files) x.toLine hx hg
    (fun stream => FtpFs.openTransfer X stream remote (opts.offset.getD 0)) (afterSetup X path opts)
  have hend : Prog.eval (alone (fileServer files)) (afterSetup X path opts r)
      ⟨⟨x.slot, false, act, x.connected, x.welcome⟩, l'.mark (fatal r)⟩ = some (a, y) := by
    rw [← hrun]
    refine Eq.symm ((hin.trans he).trans ?_)
    rw [eval_recordRemoteResult]
    exact eval_unlock x.slot act x.connected x.welcome (l'.mark (fatal r)) (afterSetup X path opts r)
  clear hrun hin he
  have hrefused (hr : ∀ b, r ≠ .ok (.ok b)) : a.isOk = false ∧ ∀ s, a ≠ .ok s := by
    have herr := afterSetup_error files X path opts hr hend
    refine ⟨herr, fun s hs => ?_⟩
    rw [hs] at herr
    cases herr
  generalize x.srv.serves X (opts.offset.getD 0) = served at hopen ⊢
  cases hopen with
  | served resumed data =>
    obtain ⟨atEof, l'', hev, hw⟩ := eval_served files X path opts (h := h) (l := l'.mark false) data
    rw [show fatal _ = false from rfl, hev] at hend
    cases hend
    refine ⟨rfl, ?_⟩
    rintro _ ⟨⟩ bufs
    rw [← hw]
    exact eval_readAll files X opts.length atEof bufs
  | refused err =>
    obtain ⟨herr, hno⟩ := hrefused (by rintro b ⟨⟩)
    exact ⟨herr, fun s hs => absurd hs (hno s)⟩
  | failed e =>
    obtain ⟨herr, hno⟩ := hrefused (by rintro b ⟨⟩)
    exact ⟨herr, fun s hs => absurd hs (hno s)⟩

end

/-- A connected client, with the replies it will get; every file has five
bytes, which come one by one. -/
def serving (replies : List (FtpResult Response)) : Session Serving where
  slot := some 0
  locked := false
  active := false
  connected := true
  welcome := none
  srv := { chunks := fun _ => 0, replies := replies }
  calls := []
  usable := true
  banner _ := none
  hasBuilder _ := false
  next := 1

def fiveBytes : Files := fun _ => [10, 20, 30, 40, 50]

/-- The server accepts the offset and refuses the `RETR` behind it. -/
theorem ranged_read_reset : Delivers fiveBytes
    (serving [.ok ⟨.other 350, []⟩, .error (.unexpectedResponse ⟨.fileUnavailable, []⟩)])
    (FtpFs.open' rowExt ['/', 'f'] { offset := some 2, length := some 2 }) (FtpReadStream.read rowExt) true [30, 40] :=
  ranged_read rowExt fiveBytes rfl { offset := some 2, length := some 2 } rfl rfl rfl

/-! ## The Tokio client -/

theorem sim_readAll {σ : Type} {V : Server σ} {F : Frame → Frame → Prop} (X : Ext) (h : Conn) (remaining : Option Nat)
    (atEof : Bool) (bufs : List Nat) :
    SimF V F (readAll (FtpReadStream.read X) (reading h remaining atEof) bufs)
      (readAll (TokioReadStream.read X) (reading h remaining atEof) bufs) F := by
  induction bufs generalizing remaining atEof with
  | nil => exact sim_pure _
  | cons n bufs ih =>
    refine sim_seq_returns (sim_read X h remaining atEof n) fun r hr => ?_
    obtain ⟨result, inner, remaining', atEof'⟩ := r
    obtain rfl : inner = some h := read_inner hr
    cases result with
    | error e => exact sim_pure _
    | ok bytes =>
      dsimp only
      split
      · exact sim_pure _
      · refine sim_seq (ih remaining' atEof') fun r => ?_
        cases r <;> exact sim_pure _

/-- **... of the Tokio client.** -/
theorem tokio_ranged_read (X : Ext) (files : Files) {path : Path} {remote : Str} (hp : remotePath path = .ok remote)
    (opts : ReadOptions) {x : Session Serving} {h : Conn} (hx : x.locked = false)
    (hg : gate x.toFrame x.usable = .ok h) (hm : x.srv.marker = 0) (hc : x.connected = true) :
    Delivers files x (TokioFtpFs.open' X path opts) (TokioReadStream.read X)
      (x.srv.serves X (opts.offset.getD 0)) (range opts (files remote)) := by
  have hslot : x.slot = some h := (gate_ok hg).2.2
  obtain ⟨r, y, hy, hok, hread⟩ := ranged_read X files hp opts hx hg hm
  obtain ⟨r', z, z', hz, hz', hover⟩ := sim_open (V := fileServer files) X path opts x x
    ⟨rfl, hx, hx, rfl, rfl, by rw [hc, hslot]; rfl⟩
  rw [hy] at hz
  cases hz
  refine ⟨r, z', hz', hok, ?_⟩
  rintro s rfl bufs
  obtain ⟨c, hlive⟩ := open_live (Prog.eval_returns hy)
  obtain ⟨got, ended, w, hw, hgot⟩ := hread s rfl bufs
  obtain ⟨inner, remaining, atEof⟩ := s
  obtain rfl : inner = some c := hlive
  obtain ⟨b, v, v', hv, hv', -⟩ := sim_readAll X c remaining atEof bufs y z' hover
  rw [hw] at hv
  cases hv
  exact ⟨got, ended, v', hv', hgot⟩

/-- The server does not support `REST`. -/
theorem tokio_ranged_read_skip : Delivers fiveBytes
    (serving [.error (.unexpectedResponse ⟨.other 502, []⟩)])
    (TokioFtpFs.open' rowExt ['/', 'f'] { offset := some 4 }) (TokioReadStream.read rowExt) true [50] :=
  tokio_ranged_read rowExt fiveBytes rfl { offset := some 4 } rfl rfl rfl rfl

end RemotefsFtp.L4
