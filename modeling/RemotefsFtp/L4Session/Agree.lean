import RemotefsFtp.L4Session.Session

/-!
# Both clients do the same

`SimF F p p' G`: from sessions with one line and frames related by `F`, the
blocking client's `p` and the Tokio client's `p'` return the same, leave one
line and frames related by `G`. Sessions at rest are related by `Rest`; a
section of the Tokio client holds the mutex, where a listing of the blocking
client has the stream out of its slot.

Results:
* `clients_probe`: the probing code of both clients does the same.
-/
namespace RemotefsFtp.L4

open L1 (Str Path)
open L2 L3
open Core (Prog Event Machine)

variable {σ α β : Type} {V : Server σ} {F G H : Frame → Frame → Prop}

/-- One line, and related frames. -/
structure Over (F : Frame → Frame → Prop) (x y : Session σ) : Prop where
  line : x.toLine = y.toLine
  frames : F x.toFrame y.toFrame

abbrev SimF (V : Server σ) (F : Frame → Frame → Prop) (p p' : Io α) (G : Frame → Frame → Prop) :
    Prop :=
  Prog.Sim (alone V) (alone V) (Over F) p p' fun _ => Over G

theorem sim_pure (a : α) : SimF V F (pure a : Io α) (pure a) F := Prog.sim_ret fun _ _ h => h

theorem sim_seq {p p' : Io α} {f f' : α → Io β} (hp : SimF V F p p' G)
    (hf : ∀ a, SimF V G (f a) (f' a) H) : SimF V F (p >>= f) (p' >>= f') H :=
  Prog.Sim.bind hp hf

/-- As `sim_seq`, for what the first program can return. -/
theorem sim_seq_returns {p p' : Io α} {f f' : α → Io β} (hp : SimF V F p p' G)
    (hf : ∀ a, Prog.Returns (S := ftp) p a → SimF V G (f a) (f' a) H) :
    SimF V F (p >>= f) (p' >>= f') H := by
  intro x y hxy
  obtain ⟨a, v, v', he, he', hr⟩ := hp x y hxy
  obtain ⟨b, u, u', hu, hu', hr'⟩ := hf a (Prog.eval_returns he) v v' hr
  exact ⟨b, u, u', by rw [Prog.bind_eq, Prog.eval_bind, he]; exact hu,
    by rw [Prog.bind_eq, Prog.eval_bind, he']; exact hu', hr'⟩

theorem sim_ite (b : Bool) {p p' q q' : Io α} (hp : SimF V F p p' G) (hq : SimF V F q q' G) :
    SimF V F (if b then p else q) (if b then p' else q') G := by
  split
  · exact hp
  · exact hq

/-- A step of the blocking client alone, on the frame. -/
theorem sim_left {e : Eff} {r : e.Ret} {k : e.Ret → Io α} {p' : Io α}
    (h : ∀ f g (l : Line σ), F f g → ∃ f', (alone V).step ⟨f, l⟩ e = some (r, ⟨f', l⟩) ∧ G f' g)
    (hk : SimF V G (k r) p' H) : SimF V F (step e >>= k) p' H := by
  rintro ⟨f, l⟩ y ⟨hl, hF⟩
  obtain ⟨f', hs, hF'⟩ := h f y.toFrame l hF
  obtain ⟨a, v, v', he, he', hr⟩ := hk ⟨f', l⟩ y ⟨hl, hF'⟩
  refine ⟨a, v, v', ?_, he', hr⟩
  show ((alone V).step ⟨f, l⟩ e).bind _ = _
  rw [hs]
  exact he

/-- A step of the Tokio client alone, on the frame. -/
theorem sim_right {e : Eff} {r : e.Ret} {d : Option (List Eff)} {k : e.Ret → Io α} {p : Io α}
    (h : ∀ f g (l : Line σ), F f g → ∃ g', (alone V).step ⟨g, l⟩ e = some (r, ⟨g', l⟩) ∧ G f g')
    (hk : SimF V G p (k r) H) : SimF V F p (Prog.act (S := ftp) e d k) H := by
  rintro x ⟨g, l⟩ ⟨hl, hF⟩
  obtain ⟨g', hs, hF'⟩ := h x.toFrame g l hF
  obtain ⟨a, v, v', he, he', hr⟩ := hk x ⟨g', l⟩ ⟨hl, hF'⟩
  refine ⟨a, v, v', he, ?_, hr⟩
  show ((alone V).step ⟨g, l⟩ e).bind _ = _
  rw [hs]
  exact he'

/-- What a dropped future would run makes no difference to one that is not. -/
theorem sim_holding {g : List Eff} {p p' : Io α} (h : SimF V F p p' G) :
    SimF V F p (Prog.holding (S := ftp) g p') G := by
  intro x y hxy
  obtain ⟨a, v, v', he, he', hr⟩ := h x y hxy
  exact ⟨a, v, v', he, by rw [Prog.eval_holding]; exact he', hr⟩

/-! ## On the line -/

/-- Two programs on the line that do the same. -/
structure Same (V : Server σ) (p p' : Io α) : Prop where
  left : Does (onLine · = true) p
  right : Does (onLine · = true) p'
  run : ∀ l, ∃ y, onto V p l = some y ∧ onto V p' l = some y

theorem same_pure (a : α) : Same V (pure a : Io α) (pure a) :=
  ⟨trivial, trivial, fun l => ⟨(a, l), rfl, rfl⟩⟩

/-- The line both are on decides the result of the first part. -/
theorem same_seq {p p' : Io α} {f f' : α → Io β} (hp : Same V p p') (hf : ∀ a, Same V (f a) (f' a)) :
    Same V (p >>= f) (p' >>= f') where
  left := does_seq hp.left fun a => (hf a).left
  right := does_seq hp.right fun a => (hf a).right
  run l := by
    obtain ⟨⟨a, l'⟩, h, h'⟩ := hp.run l
    obtain ⟨z, hz, hz'⟩ := (hf a).run l'
    exact ⟨z, by rw [onto_bind hp.left, h]; exact hz, by rw [onto_bind hp.right, h']; exact hz'⟩

theorem Same.holding {p p' : Io α} {g : List Eff} (hp : Same V p p')
    (hg : ∀ e ∈ g, onLine e = true) : Same V p (Prog.holding (S := ftp) g p') where
  left := hp.left
  right := Prog.always_holding hp.right hg
  run l := by
    obtain ⟨y, h, h'⟩ := hp.run l
    exact ⟨y, h, by rw [onto, Prog.eval_holding]; exact h'⟩

theorem sim_same {p p' : Io α} (h : Same V p p') : SimF V F p p' F := by
  rintro ⟨f, l⟩ ⟨g, l'⟩ ⟨hl, hF⟩
  obtain rfl : l = l' := hl
  obtain ⟨⟨a, m⟩, hp, hp'⟩ := h.run l
  refine ⟨a, ⟨f, m⟩, ⟨g, m⟩, ?_, ?_, ⟨rfl, hF⟩⟩
  · rw [eval_onLine h.left, hp]
    rfl
  · rw [eval_onLine h.right, hp']
    rfl

/-- A step on the line is never stuck. -/
theorem step_total {e : Eff} (he : onLine e = true) (x : Session σ) :
    ∃ y, (alone V).step x e = some y := by
  cases e with
  | lock | unlock | loadActive | storeActive _ | loadConnected | storeConnected _ | loadWelcome
  | storeWelcome _ | slot | take | put _ | exclusiveDrop | guardDrop => cases he
  | connect _ _ =>
    simp only [alone, perform]
    split <;> exact ⟨_, rfl⟩
  | builder h =>
    simp only [alone, perform]
    split <;> exact ⟨_, rfl⟩
  | _ => exact ⟨_, rfl⟩

/-- Taken by both, with or without a suspension point, it leaves the line alike. -/
theorem same_step {e : Eff} (he : onLine e = true) : Same V (step e) (step e) where
  left := Prog.always_step he
  right := Prog.always_step he
  run l := by
    obtain ⟨y, hy⟩ := step_total (V := V) he ⟨⟨none, false, false, false, none⟩, l⟩
    have h : onto V (step e) l = some (y.1, y.2.toLine) := by
      show Option.map _ (((alone V).step _ e).bind _) = _
      rw [hy]
      rfl
    exact ⟨_, h, h⟩

theorem same_await {e : Eff} (he : onLine e = true) : Same V (step e) (await e) where
  left := Prog.always_step he
  right := Prog.always_await he
  run l := (same_step he).run l

/-- A step both clients take, which only the Tokio client can be dropped at. -/
theorem same_awaited {e : Eff} (he : onLine e = true) {f f' : e.Ret → Io β}
    (hf : ∀ r, Same V (f r) (f' r)) : Same V (step e >>= f) (await e >>= f') :=
  same_seq (same_await he) hf

theorem same_stepped {e : Eff} (he : onLine e = true) {f f' : e.Ret → Io β}
    (hf : ∀ r, Same V (f r) (f' r)) : Same V (step e >>= f) (step e >>= f') :=
  same_seq (same_step he) hf

/-- The calls and the set-up are the same text, but for the suspension points. -/
theorem same_call (h : Conn) (c : Command) : Same V (call h c) (TokioFtpFs.call h c) := by
  refine same_awaited rfl fun _ => ?_
  split
  · refine same_awaited rfl fun b => ?_
    split
    · exact same_stepped rfl fun _ => same_await rfl
    · exact same_await rfl
  · exact same_await rfl

theorem same_requestOffset (X : Ext) (h : Conn) (offset : Nat) :
    Same V (requestOffset X call h offset) (requestOffset X TokioFtpFs.call h offset) := by
  unfold requestOffset
  split
  · exact same_pure _
  refine same_seq (same_call h _) fun r => ?_
  split
  · exact same_pure _
  · split <;> exact same_pure _
  · exact same_pure _

theorem same_readListBytes (h : Conn) (remote : Str) :
    Same V (FtpFs.readListBytes h remote) (TokioFtpFs.readListBytes h remote) := by
  refine same_seq (same_call h _) fun r => ?_
  split
  · exact same_pure _
  · refine Same.holding (same_awaited rfl fun _ => same_awaited rfl fun _ => same_pure _) ?_
    simp [onLine]

theorem same_setup (o : Options) (h : Conn) : Same V (setup call o h) (setup TokioFtpFs.call o h) := by
  have hbuilder : Same V (installBuilder o h) (installBuilder o h) := by
    unfold installBuilder
    split
    · exact same_step rfl
    · exact same_pure _
  have hsecure : Same V (secure call o h) (secure TokioFtpFs.call o h) := by
    unfold secure
    split
    · refine same_stepped rfl fun b => ?_
      split
      · refine same_seq (same_call h _) fun r => ?_
        split <;> exact same_pure _
      · exact same_pure _
    · exact same_pure _
  have hlogin : Same V (login call o h) (login TokioFtpFs.call o h) := by
    refine same_seq (same_call h _) fun r => ?_
    split
    · exact same_pure _
    · refine same_seq (same_call h _) fun r => ?_
      split <;> exact same_pure _
  refine same_seq hbuilder fun _ => same_stepped rfl fun _ => same_seq hsecure fun r => ?_
  split
  · exact same_pure _
  · exact hlogin

theorem same_mark : Same V FtpFs.markConnectionUnusable FtpFs.markConnectionUnusable := same_step rfl

theorem same_recordFtpError (e : FtpError) :
    Same V (FtpFs.recordFtpError e) (FtpFs.recordFtpError e) := by
  unfold FtpFs.recordFtpError
  split
  · exact same_mark
  · exact same_pure _

theorem same_recordFtpResult (r : FtpResult α) :
    Same V (FtpFs.recordFtpResult r) (FtpFs.recordFtpResult r) := by
  cases r with
  | ok a => exact same_pure _
  | error e => exact same_recordFtpError e

theorem same_recordRemoteError (e : RemoteError) :
    Same V (FtpFs.recordRemoteError e) (FtpFs.recordRemoteError e) := by
  unfold FtpFs.recordRemoteError
  split
  · exact same_mark
  · exact same_pure _

/-! ## Sections -/

/-- Between operations. -/
structure Rest (f g : Frame) : Prop where
  free : f.locked = false
  free' : g.locked = false
  slot : f.slot = g.slot
  active : f.active = g.active
  connected : g.connected = g.slot.isSome

/-- In a section on `h`; `act`: it has raised the flag for its transfer. -/
structure Inside (h : Conn) (act : Bool) (f g : Frame) : Prop where
  locked : f.locked = true
  locked' : g.locked = true
  slot : f.slot = some h
  slot' : g.slot = some h
  active : f.active = act
  active' : g.active = act
  connected : g.connected = true

/-- In a listing on `h`: the blocking client has moved it out of its slot. -/
structure Listed (h : Conn) (f g : Frame) : Prop where
  free : f.locked = false
  locked' : g.locked = true
  slot : f.slot = none
  slot' : g.slot = some h
  active : f.active = true
  active' : g.active = false
  connected : g.connected = true

/-- A section of the Tokio client on the stream behind the guard. -/
def locked (k : Conn → Io (RemoteResult α)) : Io (RemoteResult α) := do
  match ← TokioFtpFs.lockStream with
  | .error e => pure (.error e)
  | .ok () =>
    let stream ← TokioFtpFs.guardStream
    k stream

theorem Rest.eq {f g : Frame} (h : Rest f g) : ∃ slot active connected welcome welcome',
    f = ⟨slot, false, active, connected, welcome⟩ ∧
      g = ⟨slot, false, active, slot.isSome, welcome'⟩ := by
  obtain ⟨slot, locked, active, connected, welcome⟩ := f
  obtain ⟨slot', locked', active', connected', welcome'⟩ := g
  obtain ⟨h1, h2, h3, h4, h5⟩ := h
  dsimp only at h1 h2 h3 h4 h5
  subst h1 h2 h3 h4 h5
  exact ⟨slot, active, connected, welcome, welcome', rfl, rfl⟩

/-- At rest both clients refuse alike, or find the same stream. -/
theorem rest_gate {f g : Frame} (h : Rest f g) (usable : Bool) : gate f usable = gate g usable := by
  simp only [gate, h.slot, h.active]

/-- `lock_stream` behind a shut gate, and behind an open one. -/
theorem eval_locked_error {g : Frame} (l : Line σ) (hg : g.locked = false) {e : RemoteError}
    (h : gate g l.usable = .error e) (k : Conn → Io (RemoteResult α)) :
    Prog.eval (alone V) (locked k) ⟨g, l⟩ = some (.error e, ⟨g, l⟩) :=
  eval_lockStream_error l hg h _

theorem eval_locked_ok {g : Frame} (l : Line σ) (hg : g.locked = false) {h : Conn}
    (ho : gate g l.usable = .ok h) (k : Conn → Io (RemoteResult α)) :
    Prog.eval (alone V) (locked k) ⟨g, l⟩ =
      Prog.eval (alone V) (k h) ⟨{ g with locked := true }, l⟩ :=
  (eval_lockStream_ok l hg ho _).trans
    (eval_guardStream (f := { g with locked := true }) l (gate_ok ho).2.2 _)

section
variable {p : Conn → Io (RemoteResult α)} {next : RemoteResult α → Io (RemoteResult β)}
  {k : Conn → Io (RemoteResult β)} (hnext : ∀ e, next (.error e) = pure (.error e))
include hnext

/-- A section and what follows it, against a section of the Tokio client. -/
theorem sim_section (hk : ∀ h, SimF V (Inside h false) (do
      let result ← p h
      FtpFs.recordRemoteResult result
      FtpFs.unlock
      next result) (k h) Rest) :
    SimF V Rest (FtpFs.withStream p >>= next) (locked k) Rest := by
  rintro ⟨f, l⟩ ⟨g, l'⟩ ⟨hl, hF⟩
  obtain rfl : l = l' := hl
  have hF : Rest f g := hF
  cases hg : gate f l.usable with
  | error e =>
    have hg' : gate g l.usable = .error e := rest_gate hF _ ▸ hg
    refine ⟨.error e, ⟨f, l⟩, ⟨g, l⟩, ?_, eval_locked_error l hF.free' hg' k, ⟨rfl, hF⟩⟩
    rw [eval_withStream_error l hF.free hg, hnext]
    rfl
  | ok h =>
    have hg' : gate g l.usable = .ok h := rest_gate hF _ ▸ hg
    obtain ⟨ha, -, hs⟩ := gate_ok hg
    have hc : g.connected = true := by
      rw [hF.connected, ← hF.slot, hs]
      rfl
    obtain ⟨a, v, v', he, he', hr⟩ := hk h ⟨{ f with locked := true }, l⟩
      ⟨{ g with locked := true }, l⟩
      ⟨rfl, rfl, rfl, hs, hF.slot ▸ hs, ha, hF.active ▸ ha, hc⟩
    refine ⟨a, v, v', ?_, ?_, hr⟩
    · rw [eval_withStream_ok l hF.free hg]
      exact he
    · rw [eval_locked_ok l hF.free' hg']
      exact he'

/-- A listing and what follows it. -/
theorem sim_exclusive (hk : ∀ h, SimF V (Listed h) (do
      let result ← p h
      FtpFs.recordRemoteResult result
      FtpFs.dropExclusive h
      next result) (k h) Rest) :
    SimF V Rest (FtpFs.withExclusiveStream p >>= next) (locked k) Rest := by
  rintro ⟨f, l⟩ ⟨g, l'⟩ ⟨hl, hF⟩
  obtain rfl : l = l' := hl
  have hF : Rest f g := hF
  cases hg : gate f l.usable with
  | error e =>
    have hg' : gate g l.usable = .error e := rest_gate hF _ ▸ hg
    refine ⟨.error e, ⟨f, l⟩, ⟨g, l⟩, ?_, eval_locked_error l hF.free' hg' k, ⟨rfl, hF⟩⟩
    rw [eval_withExclusiveStream_error l hF.free hg, hnext]
    rfl
  | ok h =>
    have hg' : gate g l.usable = .ok h := rest_gate hF _ ▸ hg
    obtain ⟨ha, -, hs⟩ := gate_ok hg
    have hc : g.connected = true := by
      rw [hF.connected, ← hF.slot, hs]
      rfl
    obtain ⟨a, v, v', he, he', hr⟩ := hk h ⟨{ f with slot := none, active := true }, l⟩
      ⟨{ g with locked := true }, l⟩
      ⟨rfl, hF.free, rfl, rfl, hF.slot ▸ hs, rfl, hF.active ▸ ha, hc⟩
    refine ⟨a, v, v', ?_, ?_, hr⟩
    · rw [eval_withExclusiveStream_ok l hF.free hg]
      exact he
    · rw [eval_locked_ok l hF.free' hg']
      exact he'

end

/-! ### The ends of sections -/

/-- The mutex released, both are at rest. -/
theorem inside_rest {h : Conn} {act : Bool} {f g : Frame} (hF : Inside h act f g) :
    Rest { f with locked := false } { g with locked := false } :=
  ⟨rfl, rfl, hF.slot.trans hF.slot'.symm, hF.active.trans hF.active'.symm,
    hF.connected.trans (by simp [hF.slot'])⟩

/-- Releasing the mutex. -/
theorem step_unlock {f : Frame} (hf : f.locked = true) (l : Line σ) :
    (alone V).step ⟨f, l⟩ .unlock = some ((), ⟨{ f with locked := false }, l⟩) := by
  obtain ⟨slot, locked, active, connected, welcome⟩ := f
  subst hf
  rfl

/-- Both release the mutex, at whatever point of the line. -/
theorem sim_release {h : Conn} {act : Bool} {p p' : Io α} {k k' : α → Io β} (hp : Same V p p')
    (hk : ∀ a, SimF V Rest (k a) (k' a) Rest) :
    SimF V (Inside h act) (do
      let a ← p
      FtpFs.unlock
      k a) (do
      TokioFtpFs.complete
      let a ← p'
      k' a) Rest := by
  let Mid (f g : Frame) : Prop := ∃ g₀, Inside h act f g₀ ∧ g = { g₀ with locked := false }
  refine sim_right (G := Mid) (r := ()) (fun f g l hF => ?_) ?_
  · exact ⟨_, step_unlock hF.locked' l, g, hF, rfl⟩
  refine sim_seq (sim_same hp) fun a => ?_
  refine sim_left (G := Rest) (r := ()) (fun f g l hF => ?_) (hk a)
  obtain ⟨g₀, hF, rfl⟩ := hF
  exact ⟨_, step_unlock hF.locked l, inside_rest hF⟩

/-! ## Probing -/

theorem sim_guarded_call (h : Conn) (c : Command) :
    SimF V F (call h c) (TokioFtpFs.guarded (TokioFtpFs.call h c)) F :=
  sim_holding (sim_same (same_call h c))

/-- A command: the blocking client records before it releases the mutex, the Tokio client
after. -/
theorem sim_command (c : Command) :
    SimF V Rest (FtpFs.command c) (TokioFtpFs.runCommand c) Rest := by
  rw [← bind_pure (FtpFs.command c)]
  refine sim_section (fun _ => rfl) fun h => ?_
  simp only [bind_assoc, pure_bind]
  refine sim_seq (sim_guarded_call h c) fun r => ?_
  exact sim_release (same_recordFtpResult r) fun _ => sim_pure _

theorem sim_statRoot (path : Path) :
    SimF V Rest (FtpFs.statRoot path) (TokioFtpFs.statRoot path) Rest := by
  rintro ⟨f, l⟩ ⟨g, l'⟩ ⟨hl, hF⟩
  obtain rfl : l = l' := hl
  have hF : Rest f g := hF
  rw [← bind_pure (FtpFs.statRoot path)]
  cases hg : gate f l.usable with
  | error e =>
    have hg' : gate g l.usable = .error e := rest_gate hF _ ▸ hg
    exact ⟨.error e, ⟨f, l⟩, ⟨g, l⟩, eval_withStream_error l hF.free hg _ _,
      eval_lockStream_error l hF.free' hg' _, ⟨rfl, hF⟩⟩
  | ok h =>
    have hg' : gate g l.usable = .ok h := rest_gate hF _ ▸ hg
    refine ⟨.ok (rootEntry path), ⟨f, l⟩, ⟨g, l⟩, ?_, ?_, ⟨rfl, hF⟩⟩
    · refine (eval_withStream_ok l hF.free hg _ _).trans ?_
      obtain ⟨slot, locked, active, connected, welcome⟩ := f
      obtain rfl : locked = false := hF.free
      rfl
    · refine (eval_lockStream_ok l hF.free' hg' _).trans ?_
      obtain ⟨slot, locked, active, connected, welcome⟩ := g
      obtain rfl : locked = false := hF.free'
      rfl

theorem sim_parseListing (X : Ext) (path : Path) (result : RemoteResult (List UInt8)) :
    SimF V Rest (match result with
      | .error e => pure (.error e)
      | .ok bytes => FtpFs.parseListing X path bytes) (match result with
      | .error e => pure (.error e)
      | .ok bytes => FtpFs.parseListing X path bytes) Rest := by
  cases result with
  | error e => exact sim_pure _
  | ok bytes =>
    simp only [FtpFs.parseListing_eq]
    exact sim_pure _

/-- A failed listing that needs a reconnect says so. -/
theorem readListBytes_requires {h : Conn} {remote : Str} {e : RemoteError} {b : Bool}
    (hr : Prog.Returns (S := ftp) (FtpFs.readListBytes h remote) (.error e, b))
    (he : remoteErrorRequiresReconnect e = true) : b = true := by
  obtain ⟨r, -, hr⟩ := Prog.returns_bind.mp hr
  cases r with
  | error err =>
    cases hr
    exact he
  | ok _ =>
    obtain ⟨read, finish, hr⟩ := hr
    cases read <;> cases finish <;> cases hr <;> rfl

/-- The blocking client records a failed listing twice. -/
theorem same_mark_twice (result : RemoteResult α) :
    Same V (do
      FtpFs.markConnectionUnusable
      FtpFs.recordRemoteResult result) FtpFs.markConnectionUnusable := by
  have hmark (l : Line σ) : onto V FtpFs.markConnectionUnusable l = some ((), { l with usable := false }) := rfl
  have hrecord : FtpFs.recordRemoteResult result = pure () ∨
      FtpFs.recordRemoteResult result = FtpFs.markConnectionUnusable := by
    cases result with
    | ok a => exact .inl rfl
    | error e =>
      simp only [FtpFs.recordRemoteResult, FtpFs.recordRemoteError]
      split
      · exact .inr rfl
      · exact .inl rfl
  rcases hrecord with h | h <;> rw [h]
  · exact same_mark
  · exact ⟨does_step rfl fun _ => Prog.always_step rfl, Prog.always_step rfl,
      fun l => ⟨_, rfl, hmark l⟩⟩

/-- The blocking client puts the stream back. -/
theorem sim_relist {h : Conn} {p p' : Io α} {k k' : α → Io β} (hp : Same V p p')
    (hk : ∀ a, SimF V Rest (k a) (k' a) Rest) :
    SimF V (Listed h) (do
      let a ← p
      FtpFs.dropExclusive h
      k a) (do
      TokioFtpFs.complete
      let a ← p'
      k' a) Rest := by
  let Mid (f g : Frame) : Prop := ∃ g₀, Listed h f g₀ ∧ g = { g₀ with locked := false }
  refine sim_right (G := Mid) (r := ()) (fun f g l hF => ?_) ?_
  · exact ⟨_, step_unlock hF.locked' l, g, hF, rfl⟩
  refine sim_seq (sim_same hp) fun a => ?_
  rintro ⟨f, l⟩ y ⟨hl, g₀, hF, hg⟩
  have hback : Over Rest ⟨{ f with slot := some h, active := false }, l⟩ y := by
    refine ⟨hl, ?_⟩
    rw [hg]
    exact ⟨hF.free, rfl, hF.slot'.symm, hF.active'.symm, hF.connected.trans (by simp [hF.slot'])⟩
  obtain ⟨b, v, v', he, he', hr⟩ := hk a _ y hback
  refine ⟨b, v, v', ?_, he', hr⟩
  obtain ⟨slot, locked, active, connected, welcome⟩ := f
  obtain rfl : locked = false := hF.free
  exact he

/-- A listing: the blocking client takes the stream out of its slot for it and puts it
back, the Tokio client holds its mutex. -/
theorem sim_listDirRaw (X : Ext) (path : Path) (remote : Str) :
    SimF V Rest (FtpFs.listDirRaw X path remote) (TokioFtpFs.listDirRaw X path remote) Rest := by
  refine sim_exclusive (fun _ => rfl) fun h => ?_
  simp only [bind_assoc]
  refine sim_seq_returns (sim_holding (sim_same (same_readListBytes h remote))) fun r hr => ?_
  obtain ⟨result, requiresReconnect⟩ := r
  have hparse := sim_parseListing (V := V) X path result
  cases requiresReconnect with
  | true => exact sim_relist (same_mark_twice result) fun _ => hparse
  | false =>
    have hrecord : FtpFs.recordRemoteResult result = pure () := by
      cases result with
      | ok bytes => rfl
      | error e =>
        simp only [FtpFs.recordRemoteResult, FtpFs.recordRemoteError]
        split
        · rename_i he
          cases readListBytes_requires hr he
        · rfl
    simp only [Bool.false_eq_true, if_false, pure_bind, hrecord]
    exact sim_relist (p := pure ()) (same_pure ()) fun _ => hparse

/-- Two clients that probe alike. -/
structure Probes (V : Server σ) (C C' : Client) : Prop where
  listDirRaw : ∀ dir remote, SimF V Rest (C.listDirRaw dir remote) (C'.listDirRaw dir remote) Rest
  statRoot : ∀ path, SimF V Rest (C.statRoot path) (C'.statRoot path) Rest

namespace Probes

variable {C C' : Client} (hC : Probes V C C')
include hC

theorem ancestorLoop (n : Nat) (path : Path) :
    SimF V Rest (C.ancestorLoop n path) (C'.ancestorLoop n path) Rest := by
  induction n generalizing path with
  | zero => exact sim_pure _
  | succ n ih =>
    unfold Client.ancestorLoop
    split
    · exact sim_pure _
    split
    · exact sim_pure _
    refine sim_seq (hC.listDirRaw _ _) fun r => ?_
    split
    · exact sim_pure _
    · exact sim_ite _ (ih _) (sim_pure _)

theorem listingRefused (path : Path) (e : RemoteError) :
    SimF V Rest (C.listingRefused path e : Io (RemoteResult α)) (C'.listingRefused path e) Rest := by
  unfold Client.listingRefused
  split
  · refine sim_seq (hC.ancestorLoop 8 path) fun r => ?_
    split <;> exact sim_pure _
  · exact sim_pure _

theorem statFuel {n : Nat} {path : Path} (hn : path.names.length < n) :
    SimF V Rest (C.statFuel n path) (C'.statFuel n path) Rest := by
  induction n generalizing path with
  | zero => omega
  | succ n ih =>
    cases hr : remotePath path with
    | error e =>
      unfold Client.statFuel
      simp only [hr]
      exact sim_pure _
    | ok remote =>
      obtain ⟨hp, -⟩ := accepted_iff.mp hr
      cases hpar : path.parent with
      | none =>
        rw [C.statFuel_root hp (hp.parent_none.mp hpar), C'.statFuel_root hp (hp.parent_none.mp hpar)]
        exact hC.statRoot path
      | some parent =>
        obtain ⟨hpa, hnames⟩ := hp.parent hpar
        have hne : path.names ≠ [] := fun e => by rw [hp.parent_none.mpr e] at hpar; cases hpar
        have hpos := List.length_pos_iff.mpr hne
        have hlen : parent.names.length < n := by
          rw [hnames, List.length_dropLast]
          omega
        rw [C.statFuel_eq hp hpar, C'.statFuel_eq hp hpar]
        refine sim_seq (hC.listDirRaw _ _) fun r => ?_
        split
        · exact hC.listingRefused _ _
        refine sim_ite _ (sim_seq (ih hlen) fun r => ?_) (sim_pure _)
        split
        · exact sim_ite _ (sim_pure _) (sim_pure _)
        · split <;> exact sim_pure _

theorem stat (path : Path) : SimF V Rest (C.stat path) (C'.stat path) Rest :=
  hC.statFuel (Nat.lt_succ_of_le (List.length_filterMap_le _ _))

theorem statIsFile (path : Path) : SimF V Rest (C.statIsFile path) (C'.statIsFile path) Rest :=
  sim_seq (hC.stat path) fun r => by split <;> exact sim_pure _

theorem listDir (path : Path) : SimF V Rest (C.listDir path) (C'.listDir path) Rest := by
  unfold Client.listDir
  split
  · exact sim_pure _
  refine sim_seq (hC.listDirRaw _ _) fun r => ?_
  split
  · exact hC.listingRefused _ _
  refine sim_ite _ (sim_pure _) ?_
  refine sim_seq (sim_ite _ (hC.statIsFile _) (sim_pure _)) fun b => ?_
  refine sim_ite _ (sim_pure _) ?_
  refine sim_seq (sim_ite _ (hC.statIsFile _) (sim_pure _)) fun b => ?_
  exact sim_ite _ (sim_pure _) (sim_pure _)

theorem exists' (path : Path) : SimF V Rest (C.exists' path) (C'.exists' path) Rest :=
  sim_seq (hC.stat path) fun r => by
    split
    · exact sim_pure _
    · exact sim_ite _ (sim_pure _) (sim_pure _)

theorem destinationParentIsMissing (path : Path) :
    SimF V Rest (C.destinationParentIsMissing path) (C'.destinationParentIsMissing path) Rest := by
  unfold Client.destinationParentIsMissing
  split
  · exact sim_pure _
  · exact sim_seq (hC.stat _) fun r => by split <;> exact sim_pure _

theorem parentMissing (b : Bool) (path : Path) :
    SimF V Rest (if b then C.destinationParentIsMissing path else pure false)
      (if b then C'.destinationParentIsMissing path else pure false) Rest :=
  sim_ite b (hC.destinationParentIsMissing path) (sim_pure _)

theorem classifyFileRefusal (path : Path) (err : FtpError) :
    SimF V Rest (C.classifyFileRefusal path err) (C'.classifyFileRefusal path err) Rest := by
  refine sim_ite _ (sim_pure _) (sim_seq (hC.stat _) fun r => ?_)
  split <;> exact sim_ite _ (sim_pure _) (sim_pure _)

theorem classifyCreateRefusal (path : Path) (err : FtpError) :
    SimF V Rest (C.classifyCreateRefusal path err) (C'.classifyCreateRefusal path err) Rest := by
  refine sim_ite _ (sim_pure _) (sim_seq (hC.stat _) fun r => ?_)
  split
  · exact sim_ite _ (sim_pure _) (sim_pure _)
  · exact sim_seq (hC.parentMissing _ _) fun b => sim_ite b (sim_pure _) (sim_pure _)

theorem classifyRemoveDirRefusal (path : Path) (err : FtpError) :
    SimF V Rest (C.classifyRemoveDirRefusal path err) (C'.classifyRemoveDirRefusal path err) Rest := by
  refine sim_ite _ (sim_pure _) (sim_seq (hC.stat _) fun r => ?_)
  split
  · refine sim_ite _ (sim_pure _) (sim_seq (hC.listDir _) fun r => ?_)
    split
    · exact sim_ite _ (sim_pure _) (sim_pure _)
    · exact sim_pure _
  · exact sim_ite _ (sim_pure _) (sim_pure _)

theorem classifyCreateDirRefusal (path : Path) (err : FtpError) :
    SimF V Rest (C.classifyCreateDirRefusal path err) (C'.classifyCreateDirRefusal path err) Rest := by
  refine sim_ite _ (sim_pure _) (sim_seq (hC.stat _) fun r => ?_)
  split
  · exact sim_pure _
  · exact sim_seq (hC.parentMissing _ _) fun b => sim_ite b (sim_pure _) (sim_pure _)

theorem classifyRenameRefusal (src dest : Path) (err : FtpError) :
    SimF V Rest (C.classifyRenameRefusal src dest err) (C'.classifyRenameRefusal src dest err)
      Rest := by
  refine sim_ite _ (sim_pure _) (sim_seq (hC.stat _) fun r => ?_)
  split
  · exact sim_ite _ (sim_pure _) (sim_pure _)
  · exact sim_seq (hC.destinationParentIsMissing _) fun b => sim_ite b (sim_pure _) (sim_pure _)

end Probes

/-- **Both clients probe alike.** -/
theorem clients_probe (X : Ext) : Probes V (FtpFs.client X) (TokioFtpFs.client X) where
  listDirRaw := sim_listDirRaw X
  statRoot := sim_statRoot

end RemotefsFtp.L4
