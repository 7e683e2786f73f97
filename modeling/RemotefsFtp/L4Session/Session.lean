import RemotefsFtp.L3Client.Commands

/-!
# The session of one caller

A `Session` is what one caller of a client sees: the shared state without its
history, the environment, and the calls the environment answered so far.
`alone V` runs a program on it, with the steps of `perform`.

* `eval_alone`: what a caller alone does on the shared state is what `alone`
  does on the session.
* `eval_onLine`: a program of calls and data steps runs alike in every frame.
* `eval_mirror`: so does a managed operation whatever `connected` says.
* `eval_calls`: the calls of a run are steps of the program.
-/
namespace RemotefsFtp.L4

open L1 (Str)
open L2 L3
open Core (Prog Event Machine)

/-- What calls and data sockets read and change. -/
structure Line (σ : Type) where
  srv : σ
  calls : List (Event ftp)
  usable : Bool
  banner : Conn → Option Str
  hasBuilder : Conn → Bool
  next : Conn

/-- What only the mutex, moves of the stream and transfer guards change. -/
structure Frame where
  slot : Option Conn
  locked : Bool
  active : Bool
  connected : Bool
  welcome : Option Str

structure Session (σ : Type) extends Frame, Line σ

variable {T σ : Type}

/-- What the caller sees of a shared state. -/
def view (sh : Shared T) (srv : σ) (calls : List (Event ftp)) : Session σ where
  srv := srv
  calls := calls
  slot := sh.slot
  locked := sh.lock.isSome
  active := sh.active
  usable := sh.usable
  connected := sh.connected
  welcome := sh.welcome
  banner := sh.banner
  hasBuilder := sh.hasBuilder
  next := sh.next

namespace Session

/-- A shared state without history. -/
def shared (x : Session σ) : Shared Unit where
  slot := x.slot
  held := []
  lock := if x.locked then some () else none
  active := x.active
  usable := x.usable
  connected := x.connected
  welcome := x.welcome
  banner := x.banner
  hasBuilder := x.hasBuilder
  readers := []
  writer := none
  pool := []
  next := x.next
  wire := fun _ => .idle
  health := fun _ => .fine
  cancelled := fun _ => false
  guards := 0
  listing := 0

def record (x : Session σ) (e : Eff) (r : e.Ret) : List (Event ftp) :=
  if e.external then x.calls ++ [⟨e, r⟩] else x.calls

end Session

def alone (V : Server σ) : Machine ftp (Session σ) where
  step x e :=
    (perform x.shared () e (V.next x.srv e).1).map fun y =>
      (y.2, view y.1 (V.next x.srv e).2 (x.record e y.2))

/-! ## One caller on the shared state -/

section
variable (sh : Shared T) (h : Conn) (srv : σ) (calls : List (Event ftp))

@[simp] theorem view_failing {ε α : Type} (r : Except ε α) :
    view (sh.failing h r) srv calls = view sh srv calls := by
  cases r <;> rfl

@[simp] theorem view_setWire (w : Wire) : view (sh.setWire h w) srv calls = view sh srv calls := rfl

@[simp] theorem view_setHealth (x : Health T) :
    view (sh.setHealth h x) srv calls = view sh srv calls := rfl

@[simp] theorem view_shared (s : σ) (c : List (Event ftp)) :
    view (view sh srv calls).shared s c = view sh s c := by
  cases hl : sh.lock <;> simp [view, Session.shared, hl]

end

/-- `t` may hold the mutex, and nobody else does. -/
def Mine (t : T) (sh : Shared T) : Prop := ∀ u, sh.lock = some u → u = t

variable [DecidableEq T] {V : Server σ} {t : T}

/-- A step shows the caller the same with and without history. -/
theorem perform_view {sh : Shared T} (hm : Mine t sh) (srv : σ) (calls : List (Event ftp)) (e : Eff)
    (o : Oracle) (s : σ) (c : e.Ret → List (Event ftp)) :
    ((perform sh t e o).map fun y => (y.2, view y.1 s (c y.2))) =
      (perform (view sh srv calls).shared () e o).map fun y => (y.2, view y.1 s (c y.2)) := by
  cases e with
  | lock => cases hl : sh.lock <;> simp [perform, view, Session.shared, hl]
  | unlock =>
    cases hl : sh.lock with
    | none => simp [perform, view, Session.shared, hl]
    | some u =>
      obtain rfl := hm u hl
      simp [perform, view, Session.shared, hl, Shared.endSection]
  | connect _ _ =>
    cases hc : o.connect with
    | error e => simp [perform, hc]
    | ok banner => cases hl : sh.lock <;> simp [perform, hc, view, Session.shared, hl]
  | builder h =>
    have hb : (view sh srv calls).shared.hasBuilder h = sh.hasBuilder h := rfl
    simp only [perform, hb]
    split <;> simp
  | flush h cleanup => cases cleanup <;> simp [perform]
  | send _ _ | recv _ _ | finish _ | copyAll _ | readToEnd _ | read _ _ | copyTake _ _ | write _ _
  | setMode _ _ | setupTlsConnector | poll | dropTransfer _ => simp [perform]
  | loadActive | loadUsable | loadConnected | loadWelcome | slot | getWelcomeMsg _ =>
    simp only [perform, Option.map_some, view_shared]
    rfl
  | _ => cases hl : sh.lock <;> simp [perform, view, Session.shared, hl, Shared.endSection]

theorem mine_perform {sh sh' : Shared T} (hm : Mine t sh) {e : Eff} {o : Oracle} {r : e.Ret}
    (hp : perform sh t e o = some (sh', r)) : Mine t sh' := by
  have hfail {ε α : Type} (sh : Shared T) (h : Conn) (x : Except ε α) :
      (sh.failing h x).lock = sh.lock := by cases x <;> rfl
  have hkeep (h : sh'.lock = sh.lock) : Mine t sh' := fun u hu => hm u (h ▸ hu)
  cases e with
  | lock =>
    simp only [perform] at hp
    split at hp
    · cases hp
      rintro u ⟨⟩
      rfl
    · cases hp
  | unlock =>
    simp only [perform] at hp
    split at hp
    · cases hp
      rintro u ⟨⟩
    · cases hp
  | connect _ _ =>
    simp only [perform] at hp
    split at hp <;> cases hp <;> exact hm
  | builder h =>
    simp only [perform] at hp
    split at hp <;> cases hp <;> exact hm
  | flush h cleanup =>
    cases hp
    refine hkeep ?_
    cases cleanup
    · rfl
    · exact hfail sh h o.flushed
  | copyAll h => cases hp; exact hkeep (hfail _ _ _)
  | readToEnd h => cases hp; exact hkeep (hfail _ _ _)
  | finish h => cases hp; exact hkeep (hfail _ _ _)
  | _ => cases hp; exact hm

/-- **One caller.** What it does on the shared state is what `alone` does on
its session. -/
theorem eval_alone {α : Type} (p : Io α) {w : World T σ} (hm : Mine t w.sh) :
    (Prog.eval (caller V t) p w).map (fun y => (y.1, view y.2.sh y.2.srv y.2.calls)) =
      Prog.eval (alone V) p (view w.sh w.srv w.calls) := by
  induction p generalizing w with
  | ret a => rfl
  | panic => rfl
  | act e d k ih =>
    let x := view w.sh w.srv w.calls
    have hv := perform_view hm w.srv w.calls e (V.next w.srv e).1 (V.next w.srv e).2 (x.record e)
    have hs : (alone V).step x e = (perform w.sh t e (V.next w.srv e).1).map fun y =>
        (y.2, view y.1 (V.next w.srv e).2 (x.record e y.2)) := hv.symm
    show Option.map _ (((caller V t).step w e).bind _) = ((alone V).step x e).bind _
    rw [hs, caller_step]
    cases hp : perform w.sh t e (V.next w.srv e).1 with
    | none => rfl
    | some y =>
      obtain ⟨sh, r⟩ := y
      let w' : World T σ := ⟨sh, (V.next w.srv e).2, w.log ++ [⟨e, r⟩]⟩
      have hcalls : w'.calls = x.record e r := by
        simp only [World.calls, Session.record, w', List.filter_append]
        cases he : e.external <;> simp [he, x, view, World.calls]
      have hm' : Mine t w'.sh := mine_perform hm hp
      simp only [Option.map_some, Option.bind_some]
      rw [← hcalls]
      exact ih r hm'

/-! ## Programs on the line -/

/-- The steps that leave the frame alone and do not look at it. -/
def onLine : Eff → Bool
  | .lock | .unlock | .loadActive | .storeActive _ | .loadConnected | .storeConnected _
  | .loadWelcome | .storeWelcome _ | .slot | .take | .put _ | .exclusiveDrop | .guardDrop => false
  | _ => true

/-- What a program on the line returns, and the line it leaves. -/
def onto (V : Server σ) {α : Type} (p : Io α) (l : Line σ) : Option (α × Line σ) :=
  (Prog.eval (alone V) p ⟨⟨none, false, false, false, none⟩, l⟩).map fun y => (y.1, y.2.toLine)

theorem view_frame (f : Frame) (l : Line σ) (srv : σ) (calls : List (Event ftp)) :
    view (Session.shared ⟨f, l⟩) srv calls = ⟨f, { l with srv := srv, calls := calls }⟩ := by
  obtain ⟨slot, locked, active, connected, welcome⟩ := f
  cases locked <;> rfl

theorem step_onLine {e : Eff} (he : onLine e = true) (f g : Frame) (l : Line σ) :
    (alone V).step ⟨f, l⟩ e = ((alone V).step ⟨g, l⟩ e).map fun y => (y.1, ⟨f, y.2.toLine⟩) := by
  cases e with
  | lock | unlock | loadActive | storeActive _ | loadConnected | storeConnected _ | loadWelcome
  | storeWelcome _ | slot | take | put _ | exclusiveDrop | guardDrop => cases he
  | connect _ _ =>
    simp only [alone, perform]
    split
    · obtain ⟨slot, locked, active, connected, welcome⟩ := f
      cases locked <;> rfl
    · simp only [Option.map_some, view_frame]
      rfl
  | builder h =>
    simp only [alone, perform]
    have hb : (Session.shared ⟨f, l⟩).hasBuilder h = (Session.shared ⟨g, l⟩).hasBuilder h := rfl
    rw [hb]
    split <;> · simp only [Option.map_some, view_frame, view_setHealth]; rfl
  | flush h cleanup =>
    cases cleanup <;> ·
      simp only [alone, perform, Option.map_some, Bool.false_eq_true, if_true, if_false, view_frame,
        view_failing]
      rfl
  | send _ _ | recv _ _ | finish _ | copyAll _ | readToEnd _ | read _ _ | copyTake _ _ | write _ _
  | setMode _ _ | setupTlsConnector | poll | dropTransfer _ | loadUsable | getWelcomeMsg _ =>
    simp only [alone, perform, Option.map_some, view_frame, view_failing, view_setWire,
      view_setHealth]
    rfl
  | _ =>
    obtain ⟨slot, locked, active, connected, welcome⟩ := f
    cases locked <;> rfl

theorem eval_frames {α : Type} {p : Io α} (hp : Does (onLine · = true) p) (f g : Frame)
    (l : Line σ) : Prog.eval (alone V) p ⟨f, l⟩ =
      (Prog.eval (alone V) p ⟨g, l⟩).map fun y => (y.1, ⟨f, y.2.toLine⟩) := by
  induction p generalizing l with
  | ret a => rfl
  | panic => rfl
  | act e d k ih =>
    obtain ⟨he, -, hk⟩ := hp
    have hf := step_onLine (V := V) he f g l
    have hg := step_onLine (V := V) he g g l
    show ((alone V).step ⟨f, l⟩ e).bind _ = Option.map _ (((alone V).step ⟨g, l⟩ e).bind _)
    rw [hf]
    cases hs : (alone V).step ⟨g, l⟩ e with
    | none => rfl
    | some y =>
      obtain ⟨r, x⟩ := y
      rw [hs] at hg
      obtain ⟨-, hx⟩ := Prod.mk.inj (Option.some.inj hg)
      have hx : x = ⟨g, x.toLine⟩ := hx
      rw [hx]
      exact ih r (hk r) x.toLine

/-- **Calls and data steps run alike in every frame.** -/
theorem eval_onLine {α : Type} {p : Io α} (hp : Does (onLine · = true) p) (f : Frame) (l : Line σ) :
    Prog.eval (alone V) p ⟨f, l⟩ = (onto V p l).map fun y => (y.1, ⟨f, y.2⟩) := by
  rw [eval_frames hp f ⟨none, false, false, false, none⟩ l, onto, Option.map_map]
  rfl

theorem onto_bind {α β : Type} {p : Io α} (hp : Does (onLine · = true) p) (f : α → Io β) (l : Line σ) :
    onto V (p >>= f) l = (onto V p l).bind fun y => onto V (f y.1) y.2 := by
  rw [onto, Prog.bind_eq, Prog.eval_bind, eval_onLine hp]
  cases onto V p l <;> rfl

theorem step_calls {x y : Session σ} {e : Eff} {r : e.Ret} (h : (alone V).step x e = some (r, y)) :
    y.calls = x.record e r := by
  obtain ⟨w, -, hw⟩ := Option.map_eq_some_iff.mp h
  cases hw
  rfl

/-- The calls of a run are steps of the program. -/
theorem eval_calls {α : Type} {p : Io α} {x y : Session σ} {a : α}
    (h : Prog.eval (alone V) p x = some (a, y)) :
    ∃ evs, y.calls = x.calls ++ evs ∧ ∀ ev ∈ evs, Prog.Takes (S := ftp) p ev.1 := by
  induction p generalizing x with
  | ret b => cases h; exact ⟨[], by simp, by simp⟩
  | panic => cases h
  | act e d k ih =>
    obtain ⟨⟨r, z⟩, hs, hz⟩ := Option.bind_eq_some_iff.mp h
    obtain ⟨evs, hc, ht⟩ := ih _ hz
    rw [step_calls hs] at hc
    cases he : e.external with
    | false =>
      rw [Session.record, he] at hc
      exact ⟨evs, hc, fun ev hev => .inr ⟨_, ht ev hev⟩⟩
    | true =>
      rw [Session.record, he, if_pos rfl, List.append_assoc] at hc
      refine ⟨_, hc, fun ev hev => ?_⟩
      rcases List.mem_cons.mp hev with rfl | hev
      · exact .inl rfl
      · exact .inr ⟨_, ht ev hev⟩

/-! ## The mirror of the slot -/

section
variable {mv xf : Bool} {Cs : Command → Prop}

theorem step_mirror {e : Eff} (he : Plain mv xf false Cs e) (c : Bool) (f : Frame) (l : Line σ) :
    (alone V).step ⟨{ f with connected := c }, l⟩ e =
      ((alone V).step ⟨f, l⟩ e).map fun y => (y.1, { y.2 with connected := c }) := by
  obtain ⟨slot, locked, active, connected, welcome⟩ := f
  cases e with
  | loadConnected | loadWelcome => cases he
  | storeConnected _ | storeWelcome _ | close _ | connect _ _ | passiveStreamBuilder _ | setMode _ _
  | setupTlsConnector => exact he.elim
  | builder h =>
    simp only [alone, perform]
    have hb (c : Bool) : (Session.shared ⟨⟨slot, locked, active, c, welcome⟩, l⟩).hasBuilder h =
      l.hasBuilder h := rfl
    rw [hb, hb]
    split <;> · simp only [Option.map_some, view_frame, view_setHealth]; rfl
  | flush h cleanup =>
    cases cleanup <;> ·
      simp only [alone, perform, Option.map_some, Bool.false_eq_true, if_true, if_false, view_frame,
        view_failing]
      rfl
  | send _ _ | recv _ _ | finish _ | copyAll _ | readToEnd _ | read _ _ | copyTake _ _ | write _ _
  | poll | dropTransfer _ | loadUsable | getWelcomeMsg _ =>
    simp only [alone, perform, Option.map_some, view_frame, view_failing, view_setWire,
      view_setHealth]
    rfl
  | _ => cases locked <;> rfl

/-- A program that does not look at the mirror of the slot runs alike whatever
it says. -/
theorem eval_mirror {α : Type} {p : Io α} (hp : Does (Plain mv xf false Cs) p) (c : Bool) (f : Frame)
    (l : Line σ) : Prog.eval (alone V) p ⟨{ f with connected := c }, l⟩ =
      (Prog.eval (alone V) p ⟨f, l⟩).map fun y => (y.1, { y.2 with connected := c }) := by
  induction p generalizing f l with
  | ret a => rfl
  | panic => rfl
  | act e d k ih =>
    obtain ⟨he, -, hk⟩ := hp
    show ((alone V).step ⟨{ f with connected := c }, l⟩ e).bind _ =
      Option.map _ (((alone V).step ⟨f, l⟩ e).bind _)
    rw [step_mirror he]
    cases (alone V).step ⟨f, l⟩ e with
    | none => rfl
    | some y => exact ih y.1 (hk y.1) y.2.toFrame y.2.toLine

end

/-! ## Steps on the frame and the flag -/

section
variable {β : Type} (s : Option Conn) (lk a c : Bool) (w : Option Str) (l : Line σ)

theorem eval_lock (p : Io β) :
    Prog.eval (alone V) (do step .lock; p) ⟨⟨s, false, a, c, w⟩, l⟩ =
      Prog.eval (alone V) p ⟨⟨s, true, a, c, w⟩, l⟩ := rfl

theorem eval_unlock (p : Io β) :
    Prog.eval (alone V) (do step .unlock; p) ⟨⟨s, true, a, c, w⟩, l⟩ =
      Prog.eval (alone V) p ⟨⟨s, false, a, c, w⟩, l⟩ := rfl

theorem eval_take (k : Option Conn → Io β) :
    Prog.eval (alone V) (do k (← step .take)) ⟨⟨s, lk, a, c, w⟩, l⟩ =
      Prog.eval (alone V) (k s) ⟨⟨none, lk, a, c, w⟩, l⟩ := by
  cases lk <;> rfl

theorem eval_loadUsable (k : Bool → Io β) :
    Prog.eval (alone V) (do k (← step .loadUsable)) ⟨⟨s, lk, a, c, w⟩, l⟩ =
      Prog.eval (alone V) (k l.usable) ⟨⟨s, lk, a, c, w⟩, l⟩ := by
  cases lk <;> rfl

theorem eval_storeUsable (b : Bool) (p : Io β) :
    Prog.eval (alone V) (do step (.storeUsable b); p) ⟨⟨s, lk, a, c, w⟩, l⟩ =
      Prog.eval (alone V) p ⟨⟨s, lk, a, c, w⟩, { l with usable := b }⟩ := by
  cases lk <;> rfl

theorem eval_close (h : Conn) (p : Io β) :
    Prog.eval (alone V) (do step (.close h); p) ⟨⟨s, lk, a, c, w⟩, l⟩ =
      Prog.eval (alone V) p ⟨⟨s, lk, a, c, w⟩, l⟩ := by
  cases lk <;> rfl

end

/-! ## The gate -/

/-- How an operation is refused, or the stream it runs on. -/
def gate (f : Frame) (usable : Bool) : RemoteResult Conn :=
  if f.active then .error transferInProgress
  else if usable = false then .error connectionUnusable
  else
    match f.slot with
    | none => .error (.new .notConnected)
    | some h => .ok h

theorem gate_ok {f : Frame} {usable : Bool} {h : Conn} (hg : gate f usable = .ok h) :
    f.active = false ∧ usable = true ∧ f.slot = some h := by
  obtain ⟨slot, locked, active, connected, welcome⟩ := f
  cases active <;> cases usable <;> cases slot <;> cases hg
  exact ⟨rfl, rfl, rfl⟩

section
variable {α β : Type} {f : Frame} (l : Line σ) (hf : f.locked = false)
include hf

theorem eval_withStream_error {e : RemoteError} (hg : gate f l.usable = .error e)
    (p : Conn → Io (RemoteResult α)) (k : RemoteResult α → Io β) :
    Prog.eval (alone V) (FtpFs.withStream p >>= k) ⟨f, l⟩ =
      Prog.eval (alone V) (k (.error e)) ⟨f, l⟩ := by
  obtain ⟨slot, locked, active, connected, welcome⟩ := f
  obtain ⟨srv, calls, usable, banner, hasBuilder, next⟩ := l
  subst hf
  cases active <;> cases usable <;> cases slot <;> cases hg <;> rfl

theorem eval_withExclusiveStream_error {e : RemoteError} (hg : gate f l.usable = .error e)
    (p : Conn → Io (RemoteResult α)) (k : RemoteResult α → Io β) :
    Prog.eval (alone V) (FtpFs.withExclusiveStream p >>= k) ⟨f, l⟩ =
      Prog.eval (alone V) (k (.error e)) ⟨f, l⟩ := by
  obtain ⟨slot, locked, active, connected, welcome⟩ := f
  obtain ⟨srv, calls, usable, banner, hasBuilder, next⟩ := l
  subst hf
  cases active <;> cases usable <;> cases slot <;> cases hg <;> rfl

theorem eval_lockStream_error {e : RemoteError} (hg : gate f l.usable = .error e)
    (k : RemoteResult Unit → Io β) :
    Prog.eval (alone V) (TokioFtpFs.lockStream >>= k) ⟨f, l⟩ =
      Prog.eval (alone V) (k (.error e)) ⟨f, l⟩ := by
  obtain ⟨slot, locked, active, connected, welcome⟩ := f
  obtain ⟨srv, calls, usable, banner, hasBuilder, next⟩ := l
  subst hf
  cases active <;> cases usable <;> cases slot <;> cases hg <;> rfl

/-- A gate that opens, with the mutex held. -/
theorem eval_gate {h : Conn} (hg : gate f l.usable = .ok h) (k : RemoteResult Unit → Io β) :
    Prog.eval (alone V) (do
      FtpFs.lock
      let r ← FtpFs.checkOperationState
      k r) ⟨f, l⟩ = Prog.eval (alone V) (k (.ok ())) ⟨{ f with locked := true }, l⟩ := by
  obtain ⟨ha, hu, hs⟩ := gate_ok hg
  obtain ⟨slot, locked, active, connected, welcome⟩ := f
  obtain ⟨srv, calls, usable, banner, hasBuilder, next⟩ := l
  subst hf ha hu
  rfl

theorem eval_withStream_ok {h : Conn} (hg : gate f l.usable = .ok h)
    (p : Conn → Io (RemoteResult α)) (k : RemoteResult α → Io β) :
    Prog.eval (alone V) (FtpFs.withStream p >>= k) ⟨f, l⟩ =
      Prog.eval (alone V) (do
        let result ← p h
        FtpFs.recordRemoteResult result
        FtpFs.unlock
        k result) ⟨{ f with locked := true }, l⟩ := by
  unfold FtpFs.withStream
  simp only [bind_assoc]
  rw [eval_gate l hf hg]
  obtain ⟨-, -, hs⟩ := gate_ok hg
  obtain ⟨slot, locked, active, connected, welcome⟩ := f
  subst hs
  show Prog.eval (alone V) ((do
    let result ← p h
    FtpFs.recordRemoteResult result
    FtpFs.unlock
    pure result) >>= k) _ = _
  simp only [bind_assoc, pure_bind]
  rfl

/-- The blocking client moves the stream out of its slot and releases the mutex. -/
theorem eval_withExclusiveStream_ok {h : Conn} (hg : gate f l.usable = .ok h)
    (p : Conn → Io (RemoteResult α)) (k : RemoteResult α → Io β) :
    Prog.eval (alone V) (FtpFs.withExclusiveStream p >>= k) ⟨f, l⟩ =
      Prog.eval (alone V) (do
        let result ← p h
        FtpFs.recordRemoteResult result
        FtpFs.dropExclusive h
        k result) ⟨{ f with slot := none, active := true }, l⟩ := by
  unfold FtpFs.withExclusiveStream
  simp only [bind_assoc]
  rw [eval_gate l hf hg]
  obtain ⟨-, -, hs⟩ := gate_ok hg
  obtain ⟨slot, locked, active, connected, welcome⟩ := f
  subst hf hs
  show Prog.eval (alone V) ((do
    let result ← p h
    FtpFs.recordRemoteResult result
    FtpFs.dropExclusive h
    pure result) >>= k) _ = _
  simp only [bind_assoc, pure_bind]
  rfl

theorem eval_lockStream_ok {h : Conn} (hg : gate f l.usable = .ok h) (k : RemoteResult Unit → Io β) :
    Prog.eval (alone V) (TokioFtpFs.lockStream >>= k) ⟨f, l⟩ =
      Prog.eval (alone V) (k (.ok ())) ⟨{ f with locked := true }, l⟩ := by
  obtain ⟨ha, hu, hs⟩ := gate_ok hg
  obtain ⟨slot, locked, active, connected, welcome⟩ := f
  obtain ⟨srv, calls, usable, banner, hasBuilder, next⟩ := l
  subst hf ha hu hs
  rfl

end

theorem eval_guardStream {β : Type} {f : Frame} (l : Line σ) {h : Conn} (hs : f.slot = some h)
    (k : Conn → Io β) : Prog.eval (alone V) (TokioFtpFs.guardStream >>= k) ⟨f, l⟩ =
      Prog.eval (alone V) (k h) ⟨f, l⟩ := by
  obtain ⟨slot, locked, active, connected, welcome⟩ := f
  subst hs
  cases locked <;> rfl

end RemotefsFtp.L4
