import RemotefsFtp.L3Client.Lookup
import RemotefsFtp.L4Session.Agree

/-!
# Lookups on a server that does not change

`fixed A` answers `LIST` by the names of the directory, always alike. What both
clients look up on it is what its view says.
-/
namespace RemotefsFtp.L4

open L1 (Str Path)
open L2 L3
open Core (Prog)

/-! ## The server -/

/-- The answer to `LIST`: the command fails, with or without the stream builder,
or data and a completion reply are read. -/
inductive ListAnswer where
  | refused (builderFails : Bool) (err : FtpError)
  | sent (read : Except IoError (List UInt8)) (finish : FtpResult Unit)

namespace ListAnswer

def oracle : ListAnswer → Oracle
  | refused builderFails err => { builderFails := builderFails, reply := .error err }
  | sent read finish => { bytes := read, finished := finish }

def builderFails : ListAnswer → Bool
  | refused builderFails _ => builderFails
  | sent _ _ => false

theorem oracle_builderFails (a : ListAnswer) : a.oracle.builderFails = a.builderFails := by
  cases a <;> rfl

/-- What the client makes of it before it reads the rows. -/
def outcome : ListAnswer → RemoteResult (List UInt8) × Bool
  | refused _ err => (.error (ftpError err), transferSetupRequiresReconnect err)
  | sent read finish => FtpFs.listOutcome read finish

/-- Whether the connection is usable after it. -/
def keeps (hasBuilder : Bool) (a : ListAnswer) : Bool := !(hasBuilder && a.builderFails) && !a.outcome.2

def rows (P : ListParser) (a : ListAnswer) : RemoteResult (List FtpFile) := a.outcome.1.bind (readRows P)

theorem outcome_ok {a : ListAnswer} {bytes : List UInt8} (h : a.outcome.1 = .ok bytes) (hasBuilder : Bool) :
    a.keeps hasBuilder = true := by
  cases a with
  | refused builderFails err => cases h
  | sent read finish =>
    cases read with
    | error e => cases finish <;> cases h
    | ok bytes' =>
      cases finish with
      | error e => cases h
      | ok u => simp [keeps, ListAnswer.builderFails, outcome, FtpFs.listOutcome]

theorem rows_ok {P : ListParser} {a : ListAnswer} {items : List FtpFile} (h : a.rows P = .ok items) :
    ∃ bytes, a.outcome.1 = .ok bytes ∧ readRows P bytes = .ok items := by
  unfold rows at h
  cases hr : a.outcome.1 with
  | error e =>
    rw [hr] at h
    cases h
  | ok bytes =>
    rw [hr] at h
    exact ⟨bytes, rfl, h⟩

end ListAnswer

/-- The answers to `LIST` by the names of the directory. -/
abbrev Listings := List Str → ListAnswer

/-- Its state is the directory it was asked for last. -/
def fixed (A : Listings) : Server (List Str) where
  answer dir e :=
    match e with
    | .send _ (.customDataCommand line) => ({}, Path.names (line.drop 5))
    | _ => ((A dir).oracle, dir)

def viewOf (P : ListParser) (hasBuilder : Bool) (A : Listings) : View where
  rows place := (A place.reverse).rows P
  keeps place := (A place.reverse).keeps hasBuilder
  named h := by
    obtain ⟨bytes, -, hr⟩ := ListAnswer.rows_ok h
    exact readRows_named hr
  kept h := by
    obtain ⟨bytes, ho, -⟩ := ListAnswer.rows_ok h
    exact ListAnswer.outcome_ok ho hasBuilder

/-! ## Along a line -/

/-- On the line of `h`, in the frame `f`: the state of the server, and whether
the connection is usable. -/
structure OnLine {σ : Type} (h : Conn) (hasBuilder : Bool) (f : Frame) (s : σ) (usable : Bool)
    (x : Session σ) : Prop where
  frame : x.toFrame = f
  srv : x.srv = s
  builder : x.hasBuilder h = hasBuilder
  usable : x.usable = usable

section
variable {σ : Type} {V : Server σ} {h : Conn} {hasBuilder : Bool} {f : Frame} {s : σ} {usable : Bool}

/-- A program on a server, from the line it starts on to the line it ends on. -/
abbrev Steps (V : Server σ) (h : Conn) (hasBuilder : Bool) (f : Frame) (s : σ) (usable : Bool)
    {α : Type} (p : Io α) (a : α) (s' : σ) (usable' : Bool) : Prop :=
  Prog.Ends (S := ftp) (alone V) (OnLine h hasBuilder f s usable) p
    fun b x => b = a ∧ OnLine h hasBuilder f s' usable' x

/-- Sequencing. -/
theorem Steps.seq {α β : Type} {p : Io α} {k : α → Io β} {a : α} {b : β} {s₁ s₂ : σ} {u₁ u₂ : Bool}
    (hp : Steps V h hasBuilder f s usable p a s₁ u₁) (hk : Steps V h hasBuilder f s₁ u₁ (k a) b s₂ u₂) :
    Steps V h hasBuilder f s usable (p >>= k) b s₂ u₂ := by
  refine Prog.Ends.bind hp fun c => ?_
  rintro x ⟨rfl, hx⟩
  exact hk x hx

theorem steps_pure {α : Type} (a : α) : Steps V h hasBuilder f s usable (pure a) a s usable :=
  Prog.ends_ret fun _ hx => ⟨rfl, hx⟩

/-- A step that the server answers and that changes nothing a caller sees. -/
theorem steps_answered {e : Eff} {r : e.Ret} (hp : ∀ sh : Shared Unit, sh.hasBuilder h = hasBuilder →
      ∃ sh', perform sh () e (V.next s e).1 = some (sh', r) ∧ ∀ (srv : σ) calls, view sh' srv calls = view sh srv calls) :
    Steps V h hasBuilder f s usable (step e) r (V.next s e).2 usable := by
  rintro ⟨f, l⟩ ⟨rfl, rfl, rfl, rfl⟩
  obtain ⟨sh', hsh, hview⟩ := hp (Session.shared ⟨f, l⟩) rfl
  refine ⟨r, ⟨f, { l with srv := (V.next l.srv e).2, calls := Session.record ⟨f, l⟩ e r }⟩, ?_, rfl, rfl, rfl, rfl, rfl⟩
  rw [Prog.eval_step]
  simp only [alone, hsh, Option.map_some, hview, view_frame]

theorem steps_send (c : Command) : Steps V h hasBuilder f s usable
    (step (.send h c)) () (V.answer s (.send h c)).2 usable :=
  steps_answered fun _ _ => ⟨_, rfl, fun _ _ => rfl⟩

theorem steps_builder : Steps V h hasBuilder f s usable
    (step (.builder h)) (hasBuilder && (V.answer s (.builder h)).1.builderFails) (V.answer s (.builder h)).2 usable :=
  steps_answered fun sh hsh => by
    rw [← hsh]
    have hnext : (V.next s (.builder h)).1 = (V.answer s (.builder h)).1 := rfl
    simp only [perform, hnext]
    cases sh.hasBuilder h && (V.answer s (.builder h)).1.builderFails with
    | true => exact ⟨_, rfl, fun srv calls => view_setHealth sh h srv calls _⟩
    | false => exact ⟨_, rfl, fun _ _ => rfl⟩

theorem steps_mark : Steps V h hasBuilder f s usable (step (.storeUsable false)) () s false := by
  rintro ⟨⟨slot, locked, active, connected, welcome⟩, l⟩ ⟨rfl, rfl, rfl, rfl⟩
  cases locked <;> exact ⟨_, _, rfl, rfl, rfl, rfl, rfl, rfl⟩

theorem steps_recv (c : Command) : Steps V h hasBuilder f s usable
    (step (.recv h c)) (V.answer s (.recv h c)).1.reply (V.answer s (.recv h c)).2 usable :=
  steps_answered fun _ _ => ⟨_, rfl, fun _ _ => rfl⟩

theorem steps_readToEnd : Steps V h hasBuilder f s usable
    (step (.readToEnd h)) (V.answer s (.readToEnd h)).1.bytes (V.answer s (.readToEnd h)).2 usable :=
  steps_answered fun sh _ => ⟨_, rfl, fun srv calls => view_failing sh h srv calls _⟩

theorem steps_finish : Steps V h hasBuilder f s usable
    (step (.finish h)) (V.answer s (.finish h)).1.finished (V.answer s (.finish h)).2 usable :=
  steps_answered fun sh _ => ⟨_, rfl, fun srv calls => view_failing (sh.setWire h .idle) h srv calls _⟩

/-- A failure is recorded once. -/
theorem steps_record {α : Type} (r : RemoteResult α)
    (hr : ∀ e, r = .error e → remoteErrorRequiresReconnect e = true → usable = false) :
    Steps V h hasBuilder f s usable (FtpFs.recordRemoteResult r) () s usable := by
  cases r with
  | ok a => exact steps_pure ()
  | error e =>
    show Steps V h hasBuilder f s usable (FtpFs.recordRemoteError e) () s usable
    unfold FtpFs.recordRemoteError
    split
    · rename_i he
      rw [hr e rfl he]
      exact steps_mark
    · exact steps_pure ()

end

/-! ## Listings -/

section
variable {A : Listings} {h : Conn} {hasBuilder : Bool} {f : Frame} {dir : List Str} {usable : Bool}

theorem steps_call (path : Path) : Steps (fixed A) h hasBuilder f dir usable (call h (FtpFs.listCommand path))
    (A path.names).oracle.reply path.names (usable && !(hasBuilder && (A path.names).builderFails)) := by
  have hbuilder : Steps (fixed A) h hasBuilder f path.names usable
      (step (.builder h)) (hasBuilder && (A path.names).builderFails) path.names usable := by
    rw [← ListAnswer.oracle_builderFails]
    exact steps_builder
  refine Steps.seq (steps_send _) (Steps.seq hbuilder ?_)
  cases hasBuilder && (A path.names).builderFails with
  | true =>
    rw [Bool.not_true, Bool.and_false]
    exact Steps.seq steps_mark (steps_recv _)
  | false =>
    rw [Bool.not_false, Bool.and_true]
    exact steps_recv _

theorem steps_readListBytes (path : Path) : Steps (fixed A) h hasBuilder f dir usable (FtpFs.readListBytes h path)
    (A path.names).outcome path.names (usable && !(hasBuilder && (A path.names).builderFails)) := by
  refine Steps.seq (steps_call path) ?_
  cases hA : A path.names with
  | refused builderFails err => exact steps_pure _
  | sent read finish =>
    refine Steps.seq steps_readToEnd (Steps.seq steps_finish ?_)
    show Steps (fixed A) h hasBuilder f path.names _
      (pure (FtpFs.listOutcome (A path.names).oracle.bytes (A path.names).oracle.finished)) _ path.names _
    rw [hA]
    exact steps_pure _

/-- The call under the client's guard. -/
theorem steps_listing (path : Path) : Steps (fixed A) h hasBuilder f dir true (do
      let (result, requiresReconnect) ← FtpFs.readListBytes h path
      if requiresReconnect then FtpFs.markConnectionUnusable
      pure result)
    (A path.names).outcome.1 path.names ((A path.names).keeps hasBuilder) := by
  refine Steps.seq (steps_readListBytes path) ?_
  rw [Bool.true_and, ListAnswer.keeps]
  cases (A path.names).outcome with
  | mk result requires =>
    cases requires with
    | true =>
      rw [Bool.not_true, Bool.and_false]
      exact Steps.seq steps_mark (steps_pure _)
    | false =>
      rw [Bool.not_false, Bool.and_true]
      exact steps_pure _

theorem requires_keeps {a : ListAnswer} {e : RemoteError} (he : a.outcome.1 = .error e)
    (hr : remoteErrorRequiresReconnect e = true) : a.keeps hasBuilder = false := by
  have hreq : a.outcome.2 = true := by
    cases a with
    | refused b err =>
      cases he
      exact hr
    | sent read finish =>
      cases read <;> cases finish <;> first | rfl | cases he
  rw [ListAnswer.keeps, hreq, Bool.not_true, Bool.and_false]

end

/-- A client connected by `h` and at rest. -/
structure Idle (h : Conn) (hasBuilder usable : Bool) (x : Session (List Str)) : Prop where
  slot : x.slot = some h
  free : x.locked = false
  active : x.active = false
  usable : x.usable = usable
  builder : x.hasBuilder h = hasBuilder

theorem Idle.gate {h : Conn} {hasBuilder usable : Bool} {x : Session (List Str)} (hx : Idle h hasBuilder usable x) :
    L4.gate x.toFrame x.usable = if usable then .ok h else .error connectionUnusable := by
  rw [L4.gate, hx.active, hx.usable, hx.slot]
  cases usable <;> rfl

/-- The blocking client puts the stream back. -/
theorem ends_dropExclusive {α : Type} {A : Listings} {h : Conn} {hasBuilder usable : Bool} {f : Frame}
    {dir : List Str} (hf : f.locked = false) (a : α) :
    Prog.Ends (S := ftp) (alone (fixed A)) (OnLine h hasBuilder f dir usable) (do FtpFs.dropExclusive h; pure a)
      fun b x => b = a ∧ Idle h hasBuilder usable x := by
  rintro ⟨⟨slot, locked, active, connected, welcome⟩, l⟩ ⟨rfl, rfl, rfl, rfl⟩
  cases hf
  exact ⟨_, _, rfl, rfl, rfl, rfl, rfl, rfl, rfl⟩

/-- The blocking client on a fixed server. -/
theorem ftpFs_shows (X : Ext) (A : Listings) (h : Conn) (hasBuilder : Bool) :
    Shows (alone (fixed A)) (Idle h hasBuilder) (FtpFs.client X) (viewOf X.listParser hasBuilder A) where
  list {path} _ usable x hx := by
    have hplace : (placeOf path).reverse = path.names := List.reverse_reverse _
    have hg := hx.gate
    show ∃ a w', Prog.eval (alone (fixed A)) (FtpFs.withExclusiveStream _ >>= _) _ = _ ∧ _
    cases usable with
    | false =>
      rw [eval_withExclusiveStream_error x.toLine hx.free hg]
      exact ⟨_, _, rfl, rfl, hx⟩
    | true =>
      rw [eval_withExclusiveStream_ok x.toLine hx.free hg]
      have hrows : (viewOf X.listParser hasBuilder A).list (placeOf path) true =
          ((A path.names).rows X.listParser, (A path.names).keeps hasBuilder) := by
        show ((A (placeOf path).reverse).rows X.listParser, (A (placeOf path).reverse).keeps hasBuilder) = _
        rw [hplace]
      rw [hrows]
      have hline : OnLine h hasBuilder { x.toFrame with slot := none, active := true } x.srv true
          ⟨{ x.toFrame with slot := none, active := true }, x.toLine⟩ := ⟨rfl, rfl, hx.builder, hx.usable⟩
      refine Prog.Ends.bind (steps_listing path) (fun result => ?_) _ hline
      rintro y ⟨rfl, hy⟩
      refine Prog.Ends.bind (steps_record (A path.names).outcome.1 fun e he hr => requires_keeps he hr) (fun _ => ?_) _ hy
      rintro z ⟨-, hz⟩
      rw [ListAnswer.rows]
      cases (A path.names).outcome.1 with
      | error e => exact ends_dropExclusive (f := { x.toFrame with slot := none, active := true }) hx.free _ z hz
      | ok bytes =>
        dsimp only
        rw [FtpFs.parseListing_eq]
        exact ends_dropExclusive (f := { x.toFrame with slot := none, active := true }) hx.free _ z hz
  root {path} _ usable x hx := by
    have hg := hx.gate
    show ∃ a w', Prog.eval (alone (fixed A)) (FtpFs.withStream _) _ = _ ∧ _
    rw [← bind_pure (FtpFs.withStream _)]
    cases usable with
    | false =>
      rw [eval_withStream_error x.toLine hx.free hg]
      exact ⟨_, _, rfl, rfl, hx⟩
    | true =>
      rw [eval_withStream_ok x.toLine hx.free hg]
      obtain ⟨⟨slot, locked, active, connected, welcome⟩, l⟩ := x
      exact ⟨_, _, rfl, rfl, hx.slot, rfl, hx.active, hx.usable, hx.builder⟩

/-- A Tokio client at rest mirrors its slot. -/
structure IdleTokio (h : Conn) (hasBuilder usable : Bool) (x : Session (List Str)) : Prop extends
    Idle h hasBuilder usable x where
  connected : x.connected = true

theorem follows_tokio {α β : Type} {A : Listings} {h : Conn} {hasBuilder : Bool} {p p' : Io α} {look : Look β}
    {f : β → α} (hp : Follows (alone (fixed A)) (Idle h hasBuilder) p look f)
    (hs : SimF (fixed A) Rest p p' Rest) : Follows (alone (fixed A)) (IdleTokio h hasBuilder) p' look f := by
  intro usable x hx
  obtain ⟨a, w, he, ha, hw⟩ := hp usable x hx.toIdle
  have hrest : Rest x.toFrame x.toFrame := ⟨hx.free, hx.free, rfl, rfl, by rw [hx.connected, hx.slot]; rfl⟩
  obtain ⟨b, v, v', hv, hv', hover⟩ := hs x x ⟨rfl, hrest⟩
  rw [he] at hv
  cases hv
  have hslot : v'.slot = some h := hover.frames.slot.symm.trans hw.slot
  refine ⟨a, v', hv', ha, ⟨⟨hslot, hover.frames.free', hover.frames.active.symm.trans hw.active, ?_, ?_⟩, ?_⟩⟩
  · rw [← hover.line]
    exact hw.usable
  · rw [← hover.line]
    exact hw.builder
  · rw [hover.frames.connected, hslot]
    rfl

/-- The Tokio client on a fixed server. -/
theorem tokio_shows (X : Ext) (A : Listings) (h : Conn) (hasBuilder : Bool) :
    Shows (alone (fixed A)) (IdleTokio h hasBuilder) (TokioFtpFs.client X) (viewOf X.listParser hasBuilder A) where
  list hp := follows_tokio ((ftpFs_shows X A h hasBuilder).list hp) ((clients_probe X).listDirRaw _ _)
  root hp := follows_tokio ((ftpFs_shows X A h hasBuilder).root hp) ((clients_probe X).statRoot _)

/-! ## Either client -/

/-- A connected client at rest whose connection is usable. -/
inductive Resting (X : Ext) (h : Conn) (hasBuilder : Bool) (x : Session (List Str)) : Client → Prop where
  | blocking : Idle h hasBuilder true x → Resting X h hasBuilder x (FtpFs.client X)
  | tokio : IdleTokio h hasBuilder true x → Resting X h hasBuilder x (TokioFtpFs.client X)

/-- From `x`, on this server, `p` returns, in `Q`. -/
def Gives {α : Type} (A : Listings) (x : Session (List Str)) (p : Io α) (Q : α → Prop) : Prop :=
  ∃ a y, Prog.eval (alone (fixed A)) p x = some (a, y) ∧ Q a

theorem Gives.mono {α : Type} {A : Listings} {x : Session (List Str)} {p : Io α} {Q Q' : α → Prop}
    (hp : Gives A x p Q) (h : ∀ a, Q a → Q' a) : Gives A x p Q' := by
  obtain ⟨a, y, he, hq⟩ := hp
  exact ⟨a, y, he, h a hq⟩

/-- A program returns one value. -/
theorem Gives.of_eq {α : Type} {A : Listings} {x : Session (List Str)} {p : Io α} {a : α} {Q : α → Prop}
    (hp : Gives A x p (· = a)) : Gives A x p Q ↔ Q a := by
  obtain ⟨_, y, he, rfl⟩ := hp
  constructor
  · rintro ⟨b, z, hz, hq⟩
    rw [he] at hz
    cases hz
    exact hq
  · exact fun hq => ⟨_, y, he, hq⟩

theorem gives_follows {α β : Type} {A : Listings} {Ready : Bool → Session (List Str) → Prop}
    {x : Session (List Str)} {p : Io α} {look : Look β} {f : β → α}
    (hp : Follows (alone (fixed A)) Ready p look f) {usable : Bool} (hx : Ready usable x) :
    Gives A x p (· = f (look usable).1) := by
  obtain ⟨a, y, he, ha, -⟩ := hp usable x hx
  exact ⟨a, y, he, ha⟩

namespace Resting

variable {X : Ext} {h : Conn} {hasBuilder : Bool} {x : Session (List Str)} {C : Client}
  (hC : Resting X h hasBuilder x C) (A : Listings)
include hC

theorem shows : ∃ Ready : Bool → Session (List Str) → Prop,
    Shows (alone (fixed A)) Ready C (viewOf X.listParser hasBuilder A) ∧ Ready true x ∧
      ∀ usable y, Ready usable y → y.usable = usable := by
  cases hC with
  | blocking hx => exact ⟨_, ftpFs_shows X A h hasBuilder, hx, fun _ _ hy => hy.usable⟩
  | tokio hx => exact ⟨_, tokio_shows X A h hasBuilder, hx, fun _ _ hy => hy.usable⟩

variable {path : Path} (hp : Accepted path)
include hp

theorem stat : Gives A x (C.stat path)
    (· = ((viewOf X.listParser hasBuilder A).stat (placeOf path) true).1.map (Found.entry path)) := by
  obtain ⟨Ready, hs, hx, -⟩ := hC.shows A
  exact gives_follows (hs.stat hp) hx

theorem listDir : Gives A x (C.listDir path)
    (· = ((viewOf X.listParser hasBuilder A).listDir (placeOf path) true).1.map (List.map (listedFile path))) := by
  obtain ⟨Ready, hs, hx, -⟩ := hC.shows A
  exact gives_follows (hs.listDir hp) hx

theorem exists' : Gives A x (C.exists' path)
    (· = ((viewOf X.listParser hasBuilder A).exists' (placeOf path) true).1) := by
  obtain ⟨Ready, hs, hx, -⟩ := hC.shows A
  exact gives_follows (hs.exists' hp) hx

end Resting

end RemotefsFtp.L4
