import RemotefsFtp.L3Client.Commands
import RemotefsFtp.L5Concurrency.TokioChannel

/-!
# What the Tokio client keeps beside its slot

`connected` and the cached banner mirror the stream slot. Only `connect` and
`disconnect` move the stream, and they store to each mirror by hand
(`src/client/tokio.rs:613-730`). A mirror mode says which of them a thread has
brought up to date; where it may be dropped, `connected` is.

Results:
* **`mirror_follows`**: `connect` and `disconnect` keep to this order, and no
  other operation touches what it is about.
-/
namespace RemotefsFtp.L5

open L1 (Str)
open L2 L3
open Core (Typestate Next Prog)

/-- How far `connect` or `disconnect` has come with the mirrors. -/
inductive Mirror where
  /-- In neither of them. -/
  | out
  /-- The mirrors agree with the slot. -/
  | sync
  /-- The slot was emptied... -/
  | emptied
  /-- ... and `connected` is false... -/
  | off
  /-- ... and no banner is cached. -/
  | clear
  /-- The new stream `h` has this banner; it was cached; `h` was put into the slot. -/
  | met (h : Conn) (banner : Option Str)
  | told (h : Conn)
  | placed (h : Conn)
  deriving DecidableEq

namespace Mirror

open Core.Next

/-- The steps that move the stream or store to a mirror. -/
def moves : Eff → Bool
  | .take | .put _ | .storeConnected _ | .storeWelcome _ | .connect _ _ => true
  | _ => false

/-- After a step of the new stream that succeeded, or failed: what is left of
an old banner stays. -/
@[simp] def settle (failed : Bool) : Mirror → Next Mirror
  | sync => go sync
  | off => go (if failed then clear else off)
  | clear => go clear
  | _ => stop

@[simp] def next (m : Mirror) (e : Eff) (r : e.Ret) : Next Mirror :=
  if m = out then if moves e then stop else go out
  else
    match e, r with
    | .take, r =>
      if m = sync then go (if r = none then clear else emptied) else stop
    | .storeConnected b, _ =>
      match m, b with
      | emptied, false => go off
      | clear, false => go clear
      | placed _, true => go sync
      | _, _ => stop
    | .storeWelcome w, _ =>
      match m with
      | off => if w = none then go clear else stop
      | met h w' => if w = w' then go (told h) else stop
      | _ => stop
    | .getWelcomeMsg h, r =>
      match m with
      | sync | off | clear => go (met h r)
      | _ => stop
    | .put h, _ => if m = told h then go (placed h) else stop
    | .connect _ _, r => settle (Mode.isErr r) m
    | .recv _ _, r => settle (Mode.isErr r) m
    | .setupTlsConnector, r => settle (!r) m
    | _, _ => go m

/-- Where a future can be dropped. -/
@[simp] def cut : Mirror → Next Mirror
  | out => go out
  | sync => go sync
  | off | clear => go clear
  | _ => stop

/-- What an operation may end in. -/
def Ended (m : Mirror) : Prop := m = out ∨ m = sync ∨ m = clear

end Mirror

/-- The order in which the mirrors are stored to. -/
abbrev mirroring : Typestate ftp where
  Mode := Mirror
  next m e r := m.next e r
  cut := Mirror.cut

/-! ## `connect` and `disconnect` -/

variable {D : Mirror → Prop} {α β : Type}

abbrev Mirrors (D : Mirror → Prop) (p : Io α) (m : Mirror) (Q : α → Mirror → Prop) : Prop :=
  mirroring.Follows D p m Q

theorem mirrors_last {e : Eff} {m : Mirror} {Q : e.Ret → Mirror → Prop}
    (h : ∀ r, (m.next e r).All (Q r)) : Mirrors D (step e) m Q :=
  Typestate.follows_step.mpr h

theorem mirrors_step {e : Eff} {f : e.Ret → Io β} {m : Mirror} {Q : β → Mirror → Prop}
    (h : ∀ r, (m.next e r).All fun m' => Mirrors D (f r) m' Q) : Mirrors D (step e >>= f) m Q :=
  Typestate.follows_bind.mpr (mirrors_last h)

theorem mirrors_await {e : Eff} {f : e.Ret → Io β} {m : Mirror} {Q : β → Mirror → Prop}
    (hd : m.cut.All D) (h : ∀ r, (m.next e r).All fun m' => Mirrors D (f r) m' Q) :
    Mirrors D (await e >>= f) m Q :=
  Typestate.follows_bind.mpr (Typestate.follows_await.mpr ⟨h, hd⟩)

theorem mirrors_seq {p : Io α} {f : α → Io β} {m : Mirror} {P : α → Mirror → Prop}
    {Q : β → Mirror → Prop} (hp : Mirrors D p m P) (hf : ∀ a m', P a m' → Mirrors D (f a) m' Q) :
    Mirrors D (p >>= f) m Q := hp.bind hf

/-- What an answer on the stream, or a failure, makes of what a waiting thread
knows. -/
inductive Leaves : Mirror → Bool → Mirror → Prop
  | sync (failed : Bool) : Leaves .sync failed .sync
  | off : Leaves .off false .off
  | lost : Leaves .off true .clear
  | clear (failed : Bool) : Leaves .clear failed .clear

/-- Waits for the new stream, or for the old one to quit. -/
abbrev Waiting (m : Mirror) : Prop := Leaves m false m

variable {m m' : Mirror} {h : Conn}

theorem Leaves.ended {failed : Bool} (hl : Leaves m failed m') (hm : Waiting m') (hf : failed = true) :
    m'.Ended := by
  subst hf
  cases hl with
  | sync => exact .inr (.inl rfl)
  | lost | clear => exact .inr (.inr rfl)

theorem Leaves.waiting {failed : Bool} (hl : Leaves m failed m') : Waiting m' := by
  cases hl with
  | sync => exact .sync _
  | off => exact .off
  | lost | clear => exact .clear _

theorem Leaves.eq (hl : Leaves m false m') : m' = m := by
  cases hl <;> rfl

/-- Steps that tell nothing about the mirrors. -/
def idleStep : Eff → Bool
  | .getWelcomeMsg _ | .recv _ _ | .setupTlsConnector => false
  | e => !Mirror.moves e

theorem Waiting.next (hm : Waiting m) {e : Eff} (he : idleStep e = true) (r : e.Ret) :
    m.next e r = .go m := by
  cases hm <;> cases e <;> first | rfl | cases he

theorem Waiting.settle (hm : Waiting m) (failed : Bool) {P : Mirror → Prop}
    (h : ∀ m', Leaves m failed m' → P m') : (m.settle failed).All P := by
  cases hm with
  | sync => exact h _ (.sync failed)
  | off =>
    cases failed with
    | false => exact h _ .off
    | true => exact h _ .lost
  | clear => exact h _ (.clear failed)

theorem Waiting.recv (hm : Waiting m) {c : Command} {r : FtpResult Response} {P : Mirror → Prop}
    (hp : ∀ m', Leaves m (Mode.isErr r) m' → P m') : (m.next (.recv h c) r).All P := by
  have : m.next (.recv h c) r = m.settle (Mode.isErr r) := by cases hm <;> rfl
  rw [this]
  exact hm.settle _ hp

theorem Waiting.cut (hm : Waiting m) (hs : D .sync) (hc : D .clear) : m.cut.All D := by
  cases hm with
  | sync => exact hs
  | off | clear => exact hc

section
variable (hs : D .sync) (hc : D .clear)
include hs hc

theorem call_mirrors {c : Command} (hm : Waiting m) :
    Mirrors D (TokioFtpFs.call h c) m fun r => Leaves m (Mode.isErr r) := by
  have hrecv : Mirrors D (await (.recv h c)) m fun r => Leaves m (Mode.isErr r) :=
    Typestate.follows_await.mpr ⟨fun r => hm.recv fun _ hl => hl, hm.cut hs hc⟩
  refine mirrors_await (hm.cut hs hc) fun _ => ?_
  rw [hm.next rfl]
  dsimp only [Core.Next.All]
  split
  · refine mirrors_await (hm.cut hs hc) fun r => ?_
    rw [hm.next rfl]
    dsimp only [Core.Next.All]
    split
    · refine mirrors_step fun _ => ?_
      rw [hm.next rfl]
      exact hrecv
    · exact hrecv
  · exact hrecv

theorem secure_mirrors (o : Options) (hm : Waiting m) :
    Mirrors D (secure TokioFtpFs.call o h) m fun r => Leaves m (Mode.isErr r) := by
  unfold secure
  split
  · refine mirrors_step fun r => ?_
    have : m.next .setupTlsConnector r = m.settle (!r) := by cases hm <;> rfl
    rw [this]
    refine hm.settle _ fun m' hl => ?_
    cases r with
    | false => exact hl
    | true =>
      obtain rfl := hl.eq
      refine mirrors_seq (call_mirrors hs hc hm) fun r m' hl => ?_
      cases r <;> exact hl
  · exact hm

theorem login_mirrors (o : Options) (hm : Waiting m) :
    Mirrors D (login TokioFtpFs.call o h) m fun r => Leaves m (Mode.isErr r) := by
  refine mirrors_seq (call_mirrors hs hc hm) fun r m' hl => ?_
  cases r with
  | error e => exact hl
  | ok _ =>
    obtain rfl := hl.eq
    refine mirrors_seq (call_mirrors hs hc hm) fun r m' hl => ?_
    cases r <;> exact hl

theorem setup_mirrors (o : Options) (hm : Waiting m) :
    Mirrors D (setup TokioFtpFs.call o h) m fun r => Leaves m (Mode.isErr r) := by
  have hinstall : Mirrors D (installBuilder o h) m fun _ m' => m' = m := by
    unfold installBuilder
    split
    · refine mirrors_last fun _ => ?_
      rw [hm.next rfl]
      exact rfl
    · exact rfl
  refine mirrors_seq hinstall fun _ m' hm' => ?_
  subst hm'
  refine mirrors_step fun _ => ?_
  rw [hm.next rfl]
  refine mirrors_seq (secure_mirrors hs hc o hm) fun r m' hl => ?_
  cases r with
  | error e => exact hl
  | ok _ =>
    obtain rfl := hl.eq
    exact login_mirrors hs hc o hm

end

/-- A dropped future closes the stream it owns. -/
theorem glue_close (hm : Waiting m) (he : m.Ended) :
    mirroring.FollowsGlue Mirror.Ended [.close h] m := fun r => by
  show (m.next (.close h) r).All _
  rw [hm.next rfl]
  exact he

theorem connectStream_mirrors (o : Options) (hm : Waiting m) :
    Mirrors Mirror.Ended (TokioFtpFs.connectStream o) m fun _ => Mirror.Ended := by
  have hsync : Mirror.Ended .sync := .inr (.inl rfl)
  have hclear : Mirror.Ended .clear := .inr (.inr rfl)
  refine mirrors_await (hm.cut hsync hclear) fun r => ?_
  have : m.next (.connect o.hostname o.port) r = m.settle (Mode.isErr r) := by cases hm <;> rfl
  rw [this]
  refine hm.settle _ fun m' hl => ?_
  cases r with
  | error e => exact hl.ended hl.waiting rfl
  | ok h =>
    obtain rfl := hl.eq
    refine mirrors_seq (Typestate.follows_holding.mpr (setup_mirrors (glue_close (.sync _) hsync)
      (glue_close (.clear _) hclear) o hm)) fun r m' hl => ?_
    cases r with
    | error e =>
      refine mirrors_step fun _ => ?_
      rw [hl.waiting.next rfl]
      exact hl.ended hl.waiting rfl
    | ok _ =>
      obtain rfl := hl.eq
      refine mirrors_step fun banner => ?_
      have : m'.next (.getWelcomeMsg h) banner = .go (.met h banner) := by cases hm <;> rfl
      rw [this]
      refine mirrors_step fun _ => ?_
      simp only [Mirror.next, reduceCtorEq, if_false, if_true, Core.Next.All]
      refine mirrors_step fun _ => ?_
      simp only [Mirror.next, reduceCtorEq, if_false, if_true, Core.Next.All]
      exact mirrors_step fun _ => hsync

theorem discardUnusable_mirrors :
    Mirrors Mirror.Ended TokioFtpFs.discardUnusable .sync fun _ m => Waiting m := by
  refine mirrors_step fun usable => ?_
  cases usable with
  | true => exact .sync _
  | false =>
    refine mirrors_step fun old => ?_
    cases old with
    | none => exact mirrors_step fun _ => mirrors_last fun _ => .clear _
    | some h => exact mirrors_step fun _ => mirrors_step fun _ => mirrors_last fun _ => .off

theorem connect_mirrors (o : Options) :
    Mirrors Mirror.Ended (TokioFtpFs.connect o) .sync fun _ => Mirror.Ended := by
  have hsync : Mirror.Ended .sync := .inr (.inl rfl)
  refine mirrors_step fun active => ?_
  cases active with
  | true => exact hsync
  | false =>
    have huse : Mirrors Mirror.Ended TokioFtpFs.hasUsableStream .sync fun _ m => m = .sync := by
      refine mirrors_step fun usable => ?_
      cases usable with
      | true => exact mirrors_step fun _ => rfl
      | false => exact rfl
    refine mirrors_seq huse fun r m hm => ?_
    subst hm
    cases r with
    | true => exact hsync
    | false => exact mirrors_seq discardUnusable_mirrors fun _ m hm => connectStream_mirrors o hm

theorem quit_mirrors (h : Conn) :
    Mirrors Mirror.Ended (TokioFtpFs.quit h) .clear fun _ => Mirror.Ended := by
  have hclear : Mirror.Ended .clear := .inr (.inr rfl)
  have hsync : Mirror.Ended .sync := .inr (.inl rfl)
  refine mirrors_seq (Typestate.follows_holding.mpr (call_mirrors (glue_close (.sync _) hsync)
    (glue_close (.clear _) hclear) (.clear _))) fun r m hl => ?_
  obtain rfl : m = .clear := by cases hl; rfl
  have hclose : ∀ r : RemoteResult Unit, Mirrors Mirror.Ended (do step (.close h); pure r) .clear
      fun _ => Mirror.Ended := fun r => mirrors_step fun _ => hclear
  cases r with
  | ok _ => exact hclose _
  | error e =>
    have hrec : Mirrors Mirror.Ended (FtpFs.recordRemoteError (ftpError e)) .clear
        fun _ m => m = .clear := by
      unfold FtpFs.recordRemoteError
      split
      · exact mirrors_last fun _ => rfl
      · exact rfl
    refine mirrors_seq hrec fun _ m hm => ?_
    subst hm
    exact hclose _

theorem disconnect_mirrors :
    Mirrors Mirror.Ended TokioFtpFs.disconnect .sync fun _ => Mirror.Ended := by
  refine mirrors_step fun active => ?_
  cases active with
  | true => exact .inr (.inl rfl)
  | false =>
    refine mirrors_step fun usable => mirrors_step fun slot => ?_
    cases slot with
    | none => exact .inr (.inr rfl)
    | some h =>
      refine mirrors_step fun _ => mirrors_step fun _ => mirrors_step fun _ => ?_
      cases usable with
      | false => exact mirrors_step fun _ => .inr (.inr rfl)
      | true => exact quit_mirrors h

/-! ## Every operation -/

/-- Both orders at once. -/
abbrev mirrored : Typestate ftp := (protocol .cancel).prod mirroring

/-- What an operation ends in, and what a dropped one does. -/
def Over (o : Out) (x : Mode × Mirror) : Prop := Mode.Done o x.1 ∧ x.2.Ended

/-- Where an operation starts. -/
def reflects (op : Op) : Mirror := if op.isMut then .sync else .out

theorem out_next {xf look : Bool} {Cs : Command → Prop} (e : Eff) (r : e.Ret)
    (he : Plain false xf look Cs e) : Mirror.next .out e r = .go .out := by
  cases e <;> first | rfl | exact he.elim | cases he

/-- **Every operation of the Tokio client** follows both orders, wherever it
is dropped. -/
theorem mirror_follows (X : Ext) (op : Op) :
    mirrored.Follows (Over .done) (TokioFtpFs.run X op) (enters op, reflects op) Over := by
  have hrun := Tokio.run_follows (v := .cancel) (by simp) X op
  cases hop : op.isMut with
  | false =>
    have h := hrun.prod_always (Z := mirroring) (E := Mirror.Ended) (n := Mirror.out)
      (TokioFtpFs.tokio_plain X op hop) out_next rfl (.inl rfl)
    rw [reflects, hop]
    exact Typestate.follows_mono h fun o x hx => ⟨hx.1, .inl hx.2⟩
  | true =>
    rw [reflects, hop]
    refine hrun.prod ?_
    cases op with
    | connect o => exact Typestate.follows_bind.mpr (connect_mirrors o)
    | disconnect => exact Typestate.follows_bind.mpr disconnect_mirrors
    | _ => cases hop

theorem stream_mirror_follows (X : Ext) {s : OwnedStream} {op : StreamOp} {p : Io Out} (hs : s.inner = some h)
    (hp : TokioFtpFs.runStream X s op = some p) :
    mirrored.Follows (Over .done) p (.own h, .out) Over := by
  have hrun := Tokio.runStream_follows (v := .cancel) X hs hp
  have hplain : Does (Plain false true false fun _ => False) p := TokioFtpFs.tokio_stream_plain X hp
  have h := hrun.prod_always (Z := mirroring) (E := Mirror.Ended) (n := Mirror.out) hplain out_next
    rfl (.inl rfl)
  exact Typestate.follows_mono h fun o x hx => ⟨hx.1, .inl hx.2⟩

end RemotefsFtp.L5
