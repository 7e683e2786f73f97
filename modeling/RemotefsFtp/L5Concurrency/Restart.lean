import RemotefsFtp.L3Client.Sends
import RemotefsFtp.L5Concurrency.Follows

/-!
# The order of `REST` (`src/client/sync.rs:546-567`, `988-1014`, `src/client/tokio.rs:943-987`)

An operation asks for an offset with `REST`, once, and only `open` does. Once
that is accepted, its next command is a `RETR`; if that fails, the next one is
`REST 0`; if that fails, the connection is marked unusable before anything else
happens.

Results:
* **`Sync.restarts`**, **`Tokio.restarts`**: every operation of either client
  keeps to this order, whatever it is answered.
-/
namespace RemotefsFtp.L5

open L1 (Str Path)
open L2 L3
open Core (Typestate Next Prog)
open Mode (isErr)

variable {α β : Type}

/-! ## The order -/

/-- How far an operation is with the restart marker. -/
inductive Stage where
  /-- It has not set it, or it has been cleared since. -/
  | clear
  /-- `REST n` is sent... -/
  | asking (n : Nat)
  /-- ... and accepted. -/
  | armed (n : Nat)
  /-- The `RETR` after that is sent... -/
  | fetching
  /-- ... and failed. -/
  | refused
  /-- `REST 0` is sent... -/
  | resetting
  /-- ... and failed. -/
  | stuck
  /-- The connection is marked, the operation is over. -/
  | spent
  /-- Dropped, where no drop is considered. -/
  | gone
  deriving DecidableEq

namespace Stage

open Core.Next

@[simp] def onSend (offset : Option Nat) : Command → Stage → Next Stage
  | .resumeTransfer n, clear => if offset = some n then go (asking n) else stop
  | .resumeTransfer 0, refused => go resetting
  | .retrAsStream _, armed _ => go fetching
  | .resumeTransfer _, _ => stop
  | _, clear => go clear
  | _, _ => stop

@[simp] def onRecv (r : FtpResult Response) : Command → Stage → Next Stage
  | .resumeTransfer n, asking m => if n = m then if isErr r then go clear else go (armed n) else stop
  | .resumeTransfer 0, resetting => if isErr r then go stuck else go clear
  | .retrAsStream _, fetching => if isErr r then go refused else go clear
  | .resumeTransfer _, _ => stop
  | _, clear => go clear
  | _, _ => stop

@[simp] def onStoreUsable : Bool → Stage → Next Stage
  | _, clear => go clear
  | false, fetching => go fetching
  | false, stuck | false, spent => go spent
  | _, _ => stop

@[simp] def onBuilder : Stage → Next Stage
  | clear => go clear
  | fetching => go fetching
  | _ => stop

@[simp] def onUnlock : Stage → Next Stage
  | clear => go clear
  | spent => go spent
  | _ => stop

@[simp] def next (offset : Option Nat) (m : Stage) (e : Eff) (r : e.Ret) : Next Stage :=
  if m = gone then go gone
  else
    match e, r with
    | .send _ c, _ => onSend offset c m
    | .recv _ c, r => onRecv r c m
    | .storeUsable b, _ => onStoreUsable b m
    | .builder _, _ => onBuilder m
    | .unlock, _ => onUnlock m
    | _, _ => if m = clear then go clear else stop

/-- Where an operation may end. -/
def Ended : Stage → Prop
  | clear | spent | gone => True
  | _ => False

end Stage

/-- `offset`: what the operation may ask for. -/
structure Restart where
  offset : Option Nat := none
  stage : Stage := .clear

/-- The protocol. -/
abbrev restart : Typestate ftp where
  Mode := Restart
  next m e r := (m.stage.next m.offset e r).map fun s => ⟨m.offset, s⟩
  cut m := .go ⟨m.offset, .gone⟩

/-- The offset an operation may ask for. -/
def asks : Op → Option Nat
  | .open' _ opts => opts.offset
  | _ => none

/-! ## The rules -/

/-- After a drop. -/
def Dropped (m : Restart) : Prop := m.stage = .gone

/-- `p` keeps to the order. -/
abbrev Ordered (p : Io α) (m : Restart) (Q : α → Restart → Prop) : Prop :=
  restart.Partly Dropped p m Q

theorem dropped_glue {m : Restart} (hm : Dropped m) (g : List Eff) : restart.FollowsGlue Dropped g m := by
  induction g with
  | nil => exact hm
  | cons e g ih =>
    intro r
    obtain ⟨offset, stage⟩ := m
    obtain rfl : stage = .gone := hm
    exact ih

variable {m : Restart} {Q : β → Restart → Prop}

theorem ordered_seq {p : Io α} {f : α → Io β} {P : α → Restart → Prop} (hp : Ordered p m P)
    (hf : ∀ a m', P a m' → Ordered (f a) m' Q) : Ordered (p >>= f) m Q :=
  Typestate.Partly.bind hp hf

theorem ordered_step {e : Eff} {f : e.Ret → Io β}
    (h : ∀ r, (restart.next m e r).All fun m' => Ordered (f r) m' Q) : Ordered (step e >>= f) m Q :=
  ordered_seq (Typestate.partly_step h) fun _ _ hf => hf

theorem ordered_await {e : Eff} {f : e.Ret → Io β}
    (h : ∀ r, (restart.next m e r).All fun m' => Ordered (f r) m' Q) : Ordered (await e >>= f) m Q :=
  ordered_seq (Typestate.partly_await h rfl) fun _ _ hf => hf

theorem ordered_guarded {p : Io α} {P : α → Restart → Prop} (hp : Ordered p m P) :
    Ordered (TokioFtpFs.guarded p) m P :=
  Typestate.partly_holding hp fun _ hm => dropped_glue hm _

theorem ordered_leaving {p : Io α} {out : α → Out} {P : Restart → Prop}
    (hp : Ordered p m fun _ m => P m) : Ordered (leaving p out) m fun _ m => P m :=
  Typestate.Partly.bind hp fun _ _ h => h

/-! ## Away from `REST` -/

/-- Does not touch the marker. -/
def Unmarked : Eff → Prop
  | .send _ (.resumeTransfer _) | .recv _ (.resumeTransfer _) => False
  | _ => True

variable {o : Option Nat}

theorem clear_next {e : Eff} (r : e.Ret) (he : Unmarked e) :
    restart.next ⟨o, .clear⟩ e r = .go ⟨o, .clear⟩ := by
  cases e with
  | send h c => cases c <;> first | rfl | exact he.elim
  | recv h c => cases c <;> first | rfl | exact he.elim
  | storeUsable b => cases b <;> rfl
  | _ => rfl

theorem ordered_unmarked {p : Io α} (hp : Does Unmarked p) :
    Ordered p ⟨o, .clear⟩ fun _ m => m = ⟨o, .clear⟩ :=
  Typestate.Partly.always hp (fun _ r he => clear_next r he) fun g => dropped_glue (m := ⟨o, .gone⟩) rfl g

theorem unmarked_of_sends {new : Bool} {Cs : Command → Prop} (hC : ∀ n, ¬ Cs (.resumeTransfer n)) {p : Io α}
    (hp : Does (Sends new Cs) p) : Does Unmarked p := by
  refine Prog.always_mono hp fun e he => ?_
  cases e with
  | send h c | recv h c =>
    cases c with
    | resumeTransfer n => exact hC n he
    | _ => trivial
  | _ => trivial

theorem unmarked_of_plain {mv xf look : Bool} {Cs : Command → Prop} (hC : ∀ n, ¬ Cs (.resumeTransfer n)) {p : Io α}
    (hp : Does (Plain mv xf look Cs) p) : Does Unmarked p :=
  have hsends : Does (Sends false Cs) p := does_of_plain mv xf look hp
  unmarked_of_sends hC hsends

theorem listing_rest {n : Nat} : ¬ Listing (.resumeTransfer n) := by
  rintro ⟨path, -, hc⟩
  cases hc

/-- Only `open` sends `REST`. -/
theorem sends_rest {op : Op} (hop : ∀ path opts, op ≠ .open' path opts) (n : Nat) :
    ¬ op.Sends (.resumeTransfer n) := by
  rintro (hc | hc)
  · exact listing_rest hc
  · cases op with
    | open' path opts => exact hop path opts rfl
    | rename src dest => cases hc.2.2
    | createDir path | removeFile path | removeDir path | create path | append path => cases hc.2
    | exec cmd => cases hc
    | _ => exact hc

/-! ## Exchanges -/

/-- A call goes out, may fail in the stream builder, and comes back. -/
def Exchanges (call : Conn → Command → Io (FtpResult Response)) : Prop :=
  ∀ h c m m' (Q : FtpResult Response → Restart → Prop), restart.next m (.send h c) () = .go m' →
    (c.opensData = true → m'.stage = .clear ∨ m'.stage = .fetching) →
    (∀ r, (restart.next m' (.recv h c) r).All (Q r)) → Ordered (call h c) m Q

theorem sync_calls : Exchanges L3.call := by
  intro h c m m' Q hs hd hr
  refine ordered_step fun _ => ?_
  rw [hs]
  show Ordered _ m' Q
  split
  · obtain ⟨offset, stage⟩ := m'
    refine ordered_step fun b => ?_
    obtain rfl | rfl := hd ‹_›
    · show Ordered _ _ Q
      split
      · exact ordered_step fun _ => Typestate.partly_step hr
      · exact Typestate.partly_step hr
    · show Ordered _ _ Q
      split
      · exact ordered_step fun _ => Typestate.partly_step hr
      · exact Typestate.partly_step hr
  · exact Typestate.partly_step hr

theorem tokio_calls : Exchanges TokioFtpFs.call := by
  intro h c m m' Q hs hd hr
  refine ordered_await fun _ => ?_
  rw [hs]
  show Ordered _ m' Q
  split
  · obtain ⟨offset, stage⟩ := m'
    refine ordered_await fun b => ?_
    obtain rfl | rfl := hd ‹_›
    · show Ordered _ _ Q
      split
      · exact ordered_step fun _ => Typestate.partly_await hr rfl
      · exact Typestate.partly_await hr rfl
    · show Ordered _ _ Q
      split
      · exact ordered_step fun _ => Typestate.partly_await hr rfl
      · exact Typestate.partly_await hr rfl
  · exact Typestate.partly_await hr rfl

namespace Exchanges

variable {call : Conn → Command → Io (FtpResult Response)} (hcall : Exchanges call) (h : Conn) {n : Nat}
include hcall

theorem ask : Ordered (call h (.resumeTransfer n)) ⟨some n, .clear⟩ fun r m =>
    m = ⟨some n, if isErr r then .clear else .armed n⟩ := by
  refine hcall h _ _ ⟨some n, .asking n⟩ _ (by simp [Next.map]) (fun hd => nomatch hd) fun r => ?_
  cases r <;> simp [Next.map]

theorem fetch (remote : Str) : Ordered (call h (.retrAsStream remote)) ⟨o, .armed n⟩ fun r m =>
    m = ⟨o, if isErr r then .refused else .clear⟩ := by
  refine hcall h _ _ ⟨o, .fetching⟩ _ rfl (fun _ => .inr rfl) fun r => ?_
  cases r <;> simp [Next.map]

theorem reset : Ordered (call h (.resumeTransfer 0)) ⟨o, .refused⟩ fun r m =>
    m = ⟨o, if isErr r then .stuck else .clear⟩ := by
  refine hcall h _ _ ⟨o, .resetting⟩ _ rfl (fun hd => nomatch hd) fun r => ?_
  cases r <;> simp [Next.map]

/-- A download whose marker is clear. -/
theorem plain (remote : Str) : Ordered (call h (.retrAsStream remote)) ⟨o, .clear⟩ fun _ m => m = ⟨o, .clear⟩ :=
  hcall h _ _ ⟨o, .clear⟩ _ rfl (fun _ => .inl rfl) fun _ => rfl

theorem requestOffset (X : Ext) : Ordered (requestOffset X call h n) ⟨some n, .clear⟩ fun r m =>
    r = .ok true ∧ m = ⟨some n, .armed n⟩ ∨ r ≠ .ok true ∧ m = ⟨some n, .clear⟩ := by
  unfold L3.requestOffset
  split
  · exact .inr ⟨by simp, rfl⟩
  · refine ordered_seq (hcall.ask h) fun r m hm => ?_
    subst hm
    split
    · exact .inl ⟨rfl, rfl⟩
    · split
      · exact .inr ⟨by simp, rfl⟩
      · exact .inr ⟨by simp, rfl⟩
    · exact .inr ⟨by simp, rfl⟩

end Exchanges

theorem setup_rest (o : Options) (n : Nat) : Command.resumeTransfer n ∉ setupCommands o := by
  unfold setupCommands
  split <;> simp

/-! ## Downloads -/

/-- The marker is clear, or all is over with an error. -/
def Cleared (o : Option Nat) (r : RemoteResult α) (m : Restart) : Prop :=
  m = ⟨o, .clear⟩ ∨ m = ⟨o, .spent⟩ ∧ isErr r = true

theorem Cleared.ended {r : RemoteResult α} (h : Cleared o r m) : m.stage.Ended := by
  obtain rfl | ⟨rfl, -⟩ := h <;> trivial

theorem ordered_record {r : RemoteResult α} {stage : Stage} (hs : stage = .clear ∨ stage = .spent) :
    Ordered (FtpFs.recordRemoteResult r) ⟨o, stage⟩ fun _ m => m = ⟨o, stage⟩ := by
  unfold FtpFs.recordRemoteResult FtpFs.recordRemoteError
  split
  · exact rfl
  · split
    · obtain rfl | rfl := hs <;> exact Typestate.partly_step fun _ => rfl
    · exact rfl

variable (X : Ext) {offset : Nat}

/-- The offset is settled: accepted, or not asked for. -/
def Asked (o : Option Nat) (offset : Nat) (r : RemoteResult Bool) (m : Restart) : Prop :=
  r = .ok true ∧ m = ⟨o, .armed offset⟩ ∨ r ≠ .ok true ∧ m = ⟨o, .clear⟩

theorem plain_clear (mv xf look : Bool) {p : Io α} (hp : Does (Plain mv xf look Listing) p) :
    Ordered p ⟨o, .clear⟩ fun _ m => m = ⟨o, .clear⟩ :=
  ordered_unmarked (unmarked_of_plain (fun _ => listing_rest) hp)

namespace Sync

theorem ordered_asked (h : Conn) (ho : 0 < offset → o = some offset) :
    Ordered (if 0 < offset then requestOffset X call h offset else pure (.ok false)) ⟨o, .clear⟩ (Asked o offset) := by
  split
  · obtain rfl := ho ‹_›
    exact sync_calls.requestOffset h X
  · exact .inr ⟨by simp, rfl⟩

theorem ordered_openTransfer (h : Conn) (remote : Str) (ho : 0 < offset → o = some offset) :
    Ordered (FtpFs.openTransfer X h remote offset) ⟨o, .clear⟩ (Cleared o) := by
  have hdone {r : FtpResult Response} {a : Conn × Bool} :
      Ordered (FtpFs.recordFtpResult r >>= fun _ => FtpFs.withTransfer r a >>= fun r => pure (.ok r))
        ⟨o, .clear⟩ (Cleared o) :=
    Typestate.Partly.mono (plain_clear true true true (does_seq (does_recordFtpResult r) fun _ =>
      does_seq (does_withTransfer rfl r a) fun _ => does_pure _)) fun _ _ hm => .inl hm
  unfold FtpFs.openTransfer
  refine ordered_seq (ordered_asked X h ho) fun r m hm => ?_
  rcases hm with ⟨rfl, rfl⟩ | ⟨hr, rfl⟩
  · -- the server restarts at the offset
    refine ordered_seq (sync_calls.fetch h remote) fun r m hm => ?_
    subst hm
    cases r with
    | ok a => exact hdone
    | error e =>
      refine ordered_seq (sync_calls.reset h) fun r m hm => ?_
      subst hm
      cases r with
      | ok a => exact ordered_seq (sync_calls.plain h remote) fun r m hm => hm ▸ hdone
      | error e => exact ordered_step fun _ => .inr ⟨rfl, rfl⟩
  · cases r with
    | error e => exact .inl rfl
    | ok resumed =>
      obtain rfl : resumed = false := by simpa using hr
      exact ordered_seq (sync_calls.plain h remote) fun r m hm => hm ▸ hdone

theorem ordered_withStream {f : Conn → Io (RemoteResult α)} (hf : ∀ h, Ordered (f h) ⟨o, .clear⟩ (Cleared o)) :
    Ordered (FtpFs.withStream f) ⟨o, .clear⟩ (Cleared o) := by
  refine ordered_step fun _ => ordered_seq (plain_clear true true true
    does_checkOperationState) fun r m hm => ?_
  subst hm
  split
  · exact ordered_step fun _ => .inl rfl
  refine ordered_step fun slot => ?_
  show Ordered _ _ _
  split
  · exact ordered_step fun _ => .inl rfl
  refine ordered_seq (hf _) fun r m hm => ?_
  rcases hm with rfl | ⟨rfl, hr⟩
  · exact ordered_seq (ordered_record (.inl rfl)) fun _ m hm => hm ▸ ordered_step fun _ => .inl rfl
  · exact ordered_seq (ordered_record (.inr rfl)) fun _ m hm => hm ▸ ordered_step fun _ => .inr ⟨rfl, hr⟩

theorem ordered_open (path : Path) (opts : ReadOptions) :
    Ordered (FtpFs.open' X path opts) ⟨opts.offset, .clear⟩ fun _ m => m.stage.Ended := by
  have hC : DoesClient (Plain true true true Listing) (FtpFs.client X) := FtpFs.doesClient X fun _ h => h
  unfold FtpFs.open' withRemotePath
  split
  · trivial
  rename_i remote hp
  refine ordered_seq (ordered_withStream fun h => ordered_openTransfer X h remote fun ho => ?_) fun r m hm => ?_
  · cases hoff : opts.offset with
    | none => rw [hoff] at ho; cases ho
    | some n => rfl
  cases r with
  | error e => exact hm.ended
  | ok result =>
    obtain rfl | ⟨-, hr⟩ := hm
    · refine Typestate.Partly.mono (plain_clear true true true ?_) fun _ m hm => by
        rw [hm]
        trivial
      refine does_seq (does_mapRefusal (hC.classifyFileRefusal path)) fun r => ?_
      split
      · exact does_pure _
      dsimp only
      split
      · refine does_seq (FtpReadStream.does_skipPrefix _ _) fun r => ?_
        split
        · exact does_seq (FtpReadStream.does_finishAfterSkip _ _) fun _ => does_pure _
        · exact does_pure _
      · exact does_pure _
    · cases hr

end Sync

namespace Tokio

theorem ordered_asked (h : Conn) (ho : 0 < offset → o = some offset) :
    Ordered (if 0 < offset then TokioFtpFs.guarded (requestOffset X TokioFtpFs.call h offset) else pure (.ok false))
      ⟨o, .clear⟩ (Asked o offset) := by
  split
  · obtain rfl := ho ‹_›
    exact ordered_guarded (tokio_calls.requestOffset h X)
  · exact .inr ⟨by simp, rfl⟩

theorem ordered_openTransfer (h : Conn) (remote : Str) (ho : 0 < offset → o = some offset) :
    Ordered (TokioFtpFs.openTransfer X h remote offset) ⟨o, .clear⟩ (Cleared o) := by
  have hdone {r : FtpResult Response} {a : Conn × Bool} :
      Ordered (FtpFs.recordFtpResult r >>= fun _ => FtpFs.withTransfer r a >>= fun r =>
        TokioFtpFs.complete >>= fun _ => pure (.ok r)) ⟨o, .clear⟩ (Cleared o) :=
    Typestate.Partly.mono (plain_clear false true true (does_seq (does_recordFtpResult r) fun _ =>
      does_seq (does_withTransfer rfl r a) fun _ => TokioFtpFs.does_complete (does_pure _))) fun _ _ hm => .inl hm
  unfold TokioFtpFs.openTransfer
  refine ordered_seq (ordered_asked X h ho) fun r m hm => ?_
  rcases hm with ⟨rfl, rfl⟩ | ⟨hr, rfl⟩
  · -- the server restarts at the offset
    refine ordered_seq (ordered_guarded (tokio_calls.fetch h remote)) fun r m hm => ?_
    subst hm
    cases r with
    | ok a => exact hdone
    | error e =>
      refine ordered_seq (ordered_guarded (tokio_calls.reset h)) fun r m hm => ?_
      subst hm
      cases r with
      | ok a => exact ordered_seq (ordered_guarded (tokio_calls.plain h remote)) fun r m hm => hm ▸ hdone
      | error e => exact ordered_step fun _ => ordered_step fun _ => .inr ⟨rfl, rfl⟩
  · cases r with
    | error e =>
      exact Typestate.Partly.mono (plain_clear false true true
        (does_seq (does_recordRemoteError e) fun _ => TokioFtpFs.does_complete (does_pure _))) fun _ _ hm => .inl hm
    | ok resumed =>
      obtain rfl : resumed = false := by simpa using hr
      exact ordered_seq (ordered_guarded (tokio_calls.plain h remote)) fun r m hm => hm ▸ hdone

theorem ordered_open (path : Path) (opts : ReadOptions) :
    Ordered (TokioFtpFs.open' X path opts) ⟨opts.offset, .clear⟩ fun _ m => m.stage.Ended := by
  have hC : DoesClient (Plain false true true Listing) (TokioFtpFs.client X) := TokioFtpFs.doesClient X fun _ h => h
  unfold TokioFtpFs.open' withRemotePath
  split
  · trivial
  refine ordered_seq (plain_clear false true true TokioFtpFs.does_lockStream) fun r m hm => ?_
  subst hm
  split
  · trivial
  refine ordered_seq (P := fun _ m => m = ⟨opts.offset, .clear⟩) (ordered_step fun slot => ?_) fun h m hm => ?_
  · show Ordered _ _ _
    split
    · trivial
    · exact rfl
  subst hm
  refine ordered_seq (ordered_openTransfer X h _ fun ho => ?_) fun r m hm => ?_
  · cases hoff : opts.offset with
    | none => rw [hoff] at ho; cases ho
    | some n => rfl
  cases r with
  | error e => exact hm.ended
  | ok result =>
    obtain rfl | ⟨-, hr⟩ := hm
    · refine Typestate.Partly.mono (plain_clear false true true ?_) fun _ m hm => by
        rw [hm]
        trivial
      refine does_seq (does_mapRefusal (hC.classifyFileRefusal path)) fun r => ?_
      split
      · exact does_pure _
      · exact TokioFtpFs.does_skipTo _ _ _
    · cases hr

end Tokio

/-! ## Every operation -/

theorem ended_clear {p : Io α} (hp : Does Unmarked p) : Ordered p ⟨o, .clear⟩ fun _ m => m.stage.Ended :=
  Typestate.Partly.mono (ordered_unmarked hp) fun _ m hm => by
    rw [hm]
    trivial

/-- **The order of `REST`**, of the blocking client. -/
theorem Sync.restarts (X : Ext) (op : Op) :
    Ordered (FtpFs.run X op) ⟨asks op, .clear⟩ fun _ m => m.stage.Ended := by
  have hplain (hop : op.isMut = false) (hno : ∀ path opts, op ≠ .open' path opts) :
      Ordered (FtpFs.run X op) ⟨asks op, .clear⟩ fun _ m => m.stage.Ended :=
    ended_clear (unmarked_of_plain (sends_rest hno) (FtpFs.sync_plain X op hop))
  cases op with
  | open' path opts => exact ordered_leaving (Sync.ordered_open X path opts)
  | connect o => exact ordered_leaving (ended_clear (unmarked_of_sends (setup_rest o) (FtpFs.connect_sends o)))
  | disconnect => exact ordered_leaving (ended_clear (unmarked_of_sends (by simp) FtpFs.disconnect_sends))
  | _ => exact hplain rfl (by simp)

/-- **The order of `REST`**, of the Tokio client. -/
theorem Tokio.restarts (X : Ext) (op : Op) :
    Ordered (TokioFtpFs.run X op) ⟨asks op, .clear⟩ fun _ m => m.stage.Ended := by
  have hplain (hop : op.isMut = false) (hno : ∀ path opts, op ≠ .open' path opts) :
      Ordered (TokioFtpFs.run X op) ⟨asks op, .clear⟩ fun _ m => m.stage.Ended :=
    ended_clear (unmarked_of_plain (sends_rest hno) (TokioFtpFs.tokio_plain X op hop))
  cases op with
  | open' path opts => exact ordered_leaving (Tokio.ordered_open X path opts)
  | connect o => exact ordered_leaving (ended_clear (unmarked_of_sends (setup_rest o) (TokioFtpFs.connect_sends o)))
  | disconnect => exact ordered_leaving (ended_clear (unmarked_of_sends (by simp) TokioFtpFs.disconnect_sends))
  | _ => exact hplain rfl (by simp)

end RemotefsFtp.L5
