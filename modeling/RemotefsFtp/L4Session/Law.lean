import RemotefsFtp.L4Session.Gate

/-!
# The gate and the connection

Three flags decide how an operation is refused: whether a transfer is active,
whether the slot holds a control stream, and whether that stream is usable.
`connect`, `disconnect`, failing operations and the ends of streams update
them one by one. `Law` is what holds of them between the turns of one caller.

Results:
* `sync_law`, `tokio_law`: every turn keeps the law, on either client, unless
  it is a `disconnect` whose `QUIT` is lost.
* **`gate_answers`**: after any turns, an operation that has a command is
  refused for the reason that holds, or sends it.
* `lost_quit`: after a lost `QUIT` the client reports an unusable connection
  it does not have.
-/
namespace RemotefsFtp.L4

open L1 (Str Path)
open L2 L3
open Core (Prog Event)

variable {σ α β : Type} {V : Server σ}

/-! ## What a managed operation leaves alone -/

section
variable {T : Type} [DecidableEq T] {xf look : Bool} {Cs : Command → Prop} {t : T} {sh sh' : Shared T}
  {e : Eff} {o : Oracle} {r : e.Ret}

theorem perform_plain (he : Plain false xf look Cs e) (hp : perform sh t e o = some (sh', r)) :
    sh'.slot = sh.slot ∧ (xf = false → sh'.active = sh.active) := by
  have hfail {ε γ : Type} (sh : Shared T) (h : Conn) (x : Except ε γ) :
      (sh.failing h x).slot = sh.slot ∧ (sh.failing h x).active = sh.active := by
    cases x <;> exact ⟨rfl, rfl⟩
  cases e with
  | take | put _ => cases he
  | storeConnected _ | storeWelcome _ | close _ | connect _ _ | passiveStreamBuilder _ | setMode _ _
  | setupTlsConnector => exact he.elim
  | storeActive b | exclusiveDrop | guardDrop =>
    cases hp
    refine ⟨rfl, fun hx => ?_⟩
    subst hx
    cases he
  | lock | unlock =>
    simp only [perform] at hp
    split at hp
    · cases hp; exact ⟨rfl, fun _ => rfl⟩
    · cases hp
  | builder h =>
    simp only [perform] at hp
    split at hp <;> cases hp <;> exact ⟨rfl, fun _ => rfl⟩
  | flush h cleanup =>
    cases hp
    cases cleanup
    · exact ⟨rfl, fun _ => rfl⟩
    · exact (hfail sh h o.flushed).imp id fun h _ => h
  | copyAll h => cases hp; exact (hfail _ _ _).imp id fun h _ => h
  | readToEnd h => cases hp; exact (hfail _ _ _).imp id fun h _ => h
  | finish h => cases hp; exact (hfail _ _ _).imp id fun h _ => h
  | _ => cases hp; exact ⟨rfl, fun _ => rfl⟩

/-- A managed operation of the Tokio client leaves the slot as it is, and the
transfer flag too if it starts no transfer. -/
theorem eval_plain {p : Io α} (hd : Does (Plain false xf look Cs) p) {x y : Session σ} {a : α}
    (h : Prog.eval (alone V) p x = some (a, y)) :
    y.slot = x.slot ∧ (xf = false → y.active = x.active) := by
  induction p generalizing x with
  | ret b => cases h; exact ⟨rfl, fun _ => rfl⟩
  | panic => cases h
  | act e d k ih =>
    obtain ⟨he, -, hk⟩ := hd
    obtain ⟨⟨r, z⟩, hs, hz⟩ := Option.bind_eq_some_iff.mp h
    obtain ⟨w, hw, hwz⟩ := Option.map_eq_some_iff.mp hs
    cases hwz
    obtain ⟨hslot, hactive⟩ := ih _ (hk _) hz
    obtain ⟨hslot', hactive'⟩ := perform_plain (o := (V.next x.srv e).1) he hw
    exact ⟨hslot.trans hslot', fun hx => (hactive hx).trans (hactive' hx)⟩

end

/-! ## What a caller does -/

/-- A call, a look at the banner, or the drop of the stream the caller holds. -/
inductive Turn where
  | call (c : Call)
  | welcomeMessage
  | drop

structure Caller extends Api where
  drop : OwnedStream → Io Unit

def syncCaller (X : Ext) : Caller where
  toApi := syncApi X
  drop
    | .read s => FtpReadStream.drop X s
    | .write s => FtpWriteStream.drop X s

def tokioCaller (X : Ext) : Caller where
  toApi := tokioApi X
  drop
    | .read s => TokioReadStream.drop s
    | .write s => TokioWriteStream.drop s

/-- One turn; `held` is the stream the caller holds, before and after. -/
def Caller.turn (A : Caller) (held : Option OwnedStream) : Turn → Io (Reply × Option OwnedStream)
  | .call c => A.serve held c
  | .welcomeMessage => do
    let r ← A.reply .welcomeMessage
    pure (r, held)
  | .drop =>
    match held with
    | some s => do
      A.drop s
      pure (.nothing, none)
    | none => pure (.nothing, none)

/-- One caller's turns on a new client. -/
def Caller.turns (A : Caller) (V : Server σ) (srv : σ) :
    Core.LTS (Option OwnedStream × Session σ) Turn where
  init s := s = (none, fresh srv)
  step s t s' := ∃ r, Prog.eval (alone V) (A.turn s.1 t) s.2 = some ((r, s'.1), s'.2)

/-! ## The law -/

/-- What holds of slot and flags between the turns of a caller who holds `held`. -/
structure Law (held : Option OwnedStream) (x : Session σ) : Prop where
  free : x.locked = false
  active : x.active = held.isSome
  slot : held.isSome = true → x.slot.isSome = true
  usable : x.slot = none → x.usable = true
  live : ∀ s, held = some s → Live s

/-- A `QUIT` failed and the replies may be out of step. -/
def LostQuit (x : Session σ) : Prop :=
  ∃ h r, (⟨.recv h .quit, r⟩ : Event ftp) ∈ x.calls ∧ needsReconnect r = true

theorem Law.over {held : Option OwnedStream} {x y : Session σ} (hr : Over Rest x y) :
    Law held x ↔ Law held y := by
  have hs : x.slot = y.slot := hr.frames.slot
  have ha : x.active = y.active := hr.frames.active
  have hu : x.usable = y.usable := congrArg Line.usable hr.line
  constructor
  · exact fun h => ⟨hr.frames.free', ha ▸ h.active, hs ▸ h.slot, hs ▸ hu ▸ h.usable, h.live⟩
  · exact fun h => ⟨hr.frames.free, ha ▸ h.active, hs ▸ h.slot, hs ▸ hu ▸ h.usable, h.live⟩

/-! ## Operations on an open gate -/

section
variable {f : Frame} {l : Line σ}

/-- A program on the line, and what follows it. -/
theorem eval_then {p : Io α} (hp : Does (onLine · = true) p) (ht : ∀ l, (onto V p l).isSome = true)
    (f : Frame) (l : Line σ) (k : α → Io β) : ∃ a l', onto V p l = some (a, l') ∧
      Prog.eval (alone V) (p >>= k) ⟨f, l⟩ = Prog.eval (alone V) (k a) ⟨f, l'⟩ := by
  obtain ⟨⟨a, l'⟩, h⟩ := Option.isSome_iff_exists.mp (ht l)
  refine ⟨a, l', h, ?_⟩
  rw [Prog.bind_eq, Prog.eval_bind, eval_onLine hp, h]
  rfl

theorem Same.total {p p' : Io α} (h : Same V p p') (l : Line σ) :
    (onto V p l).isSome = true ∧ (onto V p' l).isSome = true := by
  obtain ⟨y, hy, hy'⟩ := h.run l
  exact ⟨by rw [hy]; rfl, by rw [hy']; rfl⟩

/-- What a dropped future would run makes no difference. -/
theorem eval_held (g : List Eff) (p : Io α) (k : α → Io β) (x : Session σ) :
    Prog.eval (alone V) (Prog.holding (S := ftp) g p >>= k) x = Prog.eval (alone V) (p >>= k) x := by
  rw [Prog.bind_eq, Prog.eval_bind, Prog.eval_holding, ← Prog.eval_bind]
  rfl

theorem eval_guarded {p p' : Io α} (h : Same V p p') (f : Frame) (l : Line σ) (k : α → Io β) :
    ∃ a l', Prog.eval (alone V) (TokioFtpFs.guarded p' >>= k) ⟨f, l⟩ =
      Prog.eval (alone V) (k a) ⟨f, l'⟩ := by
  obtain ⟨a, l', -, he⟩ := eval_then h.right (fun l => (h.total l).2) f l k
  exact ⟨a, l', (eval_held _ _ _ _).trans he⟩

theorem eval_complete {f : Frame} (hf : f.locked = true) (l : Line σ) (p : Io β) :
    Prog.eval (alone V) (TokioFtpFs.complete >>= fun _ => p) ⟨f, l⟩ =
      Prog.eval (alone V) p ⟨{ f with locked := false }, l⟩ := by
  obtain ⟨slot, locked, active, connected, welcome⟩ := f
  subst hf
  rfl

/-- The transfer flag, once the Tokio client has settled a transfer `r` inside
its section and released the mutex. -/
theorem eval_settled {f : Frame} (hf : f.locked = true) (l : Line σ) (r : FtpResult Response) (a : α)
    (k : FtpResult α → Io β) :
    ∃ l', Prog.eval (alone V) (do
        FtpFs.recordFtpResult r
        let result ← FtpFs.withTransfer r a
        TokioFtpFs.complete
        k result) ⟨f, l⟩ =
      Prog.eval (alone V) (k (r.map fun _ => a))
        ⟨{ f with locked := false, active := f.active || r.isOk }, l'⟩ := by
  refine ⟨l.mark (needsReconnect r), ?_⟩
  rw [eval_recordFtpResult, eval_withTransfer]
  exact eval_complete (f := { f with active := f.active || r.isOk }) hf _ _

end

/-- Whether the first half of `open` started a transfer. -/
def started {α : Type} : RemoteResult (FtpResult α) → Bool
  | .ok (.ok _) => true
  | _ => false

theorem started_map {r : FtpResult Response} (a : α) :
    started (.ok (r.map fun _ => a) : RemoteResult (FtpResult α)) = r.isOk := by
  cases r <;> rfl

theorem eval_tokio_openTransfer (X : Ext) {f : Frame} (hf : f.locked = true) (ha : f.active = false)
    (l : Line σ) (h : Conn) (remote : Str) (offset : Nat)
    (k : RemoteResult (FtpResult (Conn × Bool)) → Io β) :
    ∃ r l', Prog.eval (alone V) (TokioFtpFs.openTransfer X h remote offset >>= k) ⟨f, l⟩ =
      Prog.eval (alone V) (k r) ⟨{ f with locked := false, active := started r }, l'⟩ := by
  have hrequest (k : RemoteResult Bool → Io β) : ∃ r l',
      Prog.eval (alone V) ((if 0 < offset then
        TokioFtpFs.guarded (requestOffset X TokioFtpFs.call h offset)
      else pure (.ok false)) >>= k) ⟨f, l⟩ = Prog.eval (alone V) (k r) ⟨f, l'⟩ := by
    split
    · exact eval_guarded (same_requestOffset X h offset) f l k
    · exact ⟨_, _, rfl⟩
  have hsettled (l : Line σ) (r : FtpResult Response) (resumed : Bool) : ∃ r' l',
      Prog.eval (alone V) (do
        FtpFs.recordFtpResult r
        let result ← FtpFs.withTransfer r (h, resumed)
        TokioFtpFs.complete
        k (.ok result)) ⟨f, l⟩ =
      Prog.eval (alone V) (k r') ⟨{ f with locked := false, active := started r' }, l'⟩ := by
    obtain ⟨l', he⟩ := eval_settled (V := V) hf l r (h, resumed) fun result => k (.ok result)
    rw [ha, Bool.false_or, ← started_map (h, resumed)] at he
    exact ⟨_, l', he⟩
  have hfailed (l : Line σ) (e : RemoteError) :
      Prog.eval (alone V) (do
        TokioFtpFs.complete
        k (.error e)) ⟨f, l⟩ =
      Prog.eval (alone V) (k (.error e)) ⟨{ f with locked := false, active := false }, l⟩ := by
    rw [eval_complete hf, ha]
  unfold TokioFtpFs.openTransfer
  simp only [bind_assoc]
  obtain ⟨r, l₁, he⟩ := hrequest _
  rw [he]
  cases r with
  | error e =>
    simp only [bind_assoc, pure_bind]
    refine ⟨.error e, l₁.mark (remoteErrorRequiresReconnect e), ?_⟩
    exact (eval_markIf f l₁ _ _).trans (hfailed _ e)
  | ok resumed =>
    simp only [bind_assoc]
    obtain ⟨r, l₂, he⟩ := eval_guarded (same_call (V := V) h (.retrAsStream remote)) f l₁ _
    rw [he]
    split
    · simp only [bind_assoc]
      obtain ⟨r', l₃, he⟩ := eval_guarded (same_call (V := V) h (.resumeTransfer 0)) f l₂ _
      rw [he]
      cases r' with
      | ok _ =>
        simp only [bind_assoc, pure_bind]
        obtain ⟨r, l₄, he⟩ := eval_guarded (same_call (V := V) h (.retrAsStream remote)) f l₃ _
        rw [he]
        exact hsettled l₄ r false
      | error error =>
        simp only [bind_assoc, pure_bind]
        exact ⟨.error (ftpError error), _, (eval_store f l₃ false _).trans (hfailed _ _)⟩
    · simp only [bind_assoc, pure_bind]
      exact hsettled l₂ r resumed

theorem eval_guardDrop (f : Frame) (l : Line σ) (p : Io β) :
    Prog.eval (alone V) (step .guardDrop >>= fun _ => p) ⟨f, l⟩ =
      Prog.eval (alone V) p ⟨{ f with active := false }, l⟩ := by
  obtain ⟨slot, locked, active, connected, welcome⟩ := f
  cases locked <;> rfl

theorem eval_tokio_finishInner (X : Ext) (f : Frame) (l : Line σ) (h : Conn) (remaining : Option Nat)
    (atEof : Bool) (k : RemoteResult Unit × ReadStream → Io β) : ∃ r l',
      Prog.eval (alone V) (TokioReadStream.finishInner X (reading h remaining atEof) >>= k) ⟨f, l⟩ =
        Prog.eval (alone V) (k (r, ⟨none, remaining, atEof⟩)) ⟨f, l'⟩ := by
  have hread := same_finishRead (V := V) X h atEof
  obtain ⟨r, l₁, -, h₁⟩ := eval_then hread.right (fun l => (hread.total l).2) f l fun r => do
    FtpReadStream.invalidateOnErr r
    k (r, ⟨none, remaining, atEof⟩)
  have hmark := same_invalidateOnErr (V := V) r
  obtain ⟨u, l₂, -, h₂⟩ := eval_then hmark.left (fun l => (hmark.total l).1) f l₁ fun _ =>
    k (r, ⟨none, remaining, atEof⟩)
  refine ⟨r, l₂, ?_⟩
  unfold TokioReadStream.finishInner
  simp only [bind_assoc, pure_bind]
  exact (eval_held _ _ _ _).trans (h₁.trans h₂)

/-- `open` keeps its transfer if it returns a stream, and has ended it if not. -/
theorem eval_skipTo (X : Ext) {f : Frame} (ha : f.active = true) (l : Line σ) (h : Conn)
    (remaining : Option Nat) (offset : Nat) (resumed : Bool) : ∃ r l',
      Prog.eval (alone V) (TokioFtpFs.skipTo X (reading h remaining false) offset resumed) ⟨f, l⟩ =
        some (r, ⟨{ f with active := r.isOk }, l'⟩) := by
  have hkeep (s : ReadStream) (l : Line σ) : ∃ r l',
      Prog.eval (alone V) (pure (.ok s) : Io (RemoteResult ReadStream)) ⟨f, l⟩ =
        some (r, ⟨{ f with active := r.isOk }, l'⟩) := by
    refine ⟨.ok s, l, ?_⟩
    obtain ⟨slot, locked, active, connected, welcome⟩ := f
    subst ha
    rfl
  unfold TokioFtpFs.skipTo
  split
  · unfold TokioReadStream.skipPrefix
    simp only [bind_assoc]
    have hskip := same_await (V := V) (e := .copyTake h offset) rfl
    obtain ⟨r, l₁, -, h₁⟩ := eval_then hskip.right (fun l => (hskip.total l).2) f l _
    rw [eval_held, h₁]
    cases r with
    | ok skipped =>
      simp only
      split
      · exact hkeep _ l₁
      · exact hkeep _ l₁
    | error e =>
      simp only [pure_bind, TokioReadStream.finishAfterSkip, bind_assoc]
      obtain ⟨r, l₂, h₂⟩ := eval_tokio_finishInner X f l₁ h remaining false _
      rw [h₂]
      have hend (e : RemoteError) : Prog.eval (alone V)
          (step .guardDrop >>= fun _ => (pure (.error e) : Io (RemoteResult ReadStream))) ⟨f, l₂⟩ =
          some (.error e, ⟨{ f with active := false }, l₂⟩) := eval_guardDrop f l₂ _
      cases r with
      | ok _ => exact ⟨.error _, l₂, hend _⟩
      | error finish => exact ⟨.error _, l₂, hend _⟩
  · exact hkeep _ l

/-- What a plain operation of the Tokio client leaves of the frame. -/
theorem eval_quiet {p : Io α} {Cs : Command → Prop} (hp : Does (Plain false false false Cs) p)
    {f : Frame} {l : Line σ} {a : α} {y : Session σ}
    (h : Prog.eval (alone V) p ⟨f, l⟩ = some (a, y)) : y.active = f.active :=
  (eval_plain hp h).2 rfl

/-- A transfer that was refused, with its classification. -/
theorem refusal_quiet {p : Io RemoteError} {Cs : Command → Prop}
    (hp : Does (Plain false false false Cs) p) {f : Frame} (ha : f.active = false) {l : Line σ}
    {r : RemoteResult α} {y : Session σ}
    (h : Prog.eval (alone V) (do
      let error ← p
      pure (.error error)) ⟨f, l⟩ = some (r, y)) : y.active = r.isOk := by
  rw [eval_quiet (does_seq hp fun _ => does_pure _) h, ha]
  obtain ⟨e, -, hr⟩ := Prog.returns_bind.mp (Prog.eval_returns h)
  cases hr
  rfl

section
variable (X : Ext) (path : Path)

/-- What the Tokio client does with the result of the section of an upload. -/
def afterUpload (result : FtpResult Conn) : Io (RemoteResult WriteStream) := do
  match ← FtpFs.mapRefusal result ((TokioFtpFs.client X).classifyCreateRefusal path) with
  | .error e => pure (.error e)
  | .ok transfer => pure (.ok (FtpWriteStream.new transfer))

theorem tokio_upload_eq (c : Str → Command) : TokioFtpFs.upload X c path =
    withRemotePath path fun remote => locked fun stream => (do
      let result ← TokioFtpFs.guarded (TokioFtpFs.call stream (c remote))
      FtpFs.recordFtpResult result
      let result ← FtpFs.withTransfer result stream
      TokioFtpFs.complete
      afterUpload X path result) := rfl

/-- ... and with that of a download. -/
def afterDownload (opts : ReadOptions) (r : RemoteResult (FtpResult (Conn × Bool))) :
    Io (RemoteResult ReadStream) := do
  match r with
  | .error e => pure (.error e)
  | .ok result =>
    match ← FtpFs.mapRefusal result ((TokioFtpFs.client X).classifyFileRefusal path) with
    | .error e => pure (.error e)
    | .ok (transfer, resumed) =>
      TokioFtpFs.skipTo X (FtpReadStream.new transfer opts.length) (opts.offset.getD 0) resumed

theorem tokio_open_eq (opts : ReadOptions) : TokioFtpFs.open' X path opts =
    withRemotePath path fun remote => locked fun stream => (do
      let r ← TokioFtpFs.openTransfer X stream remote (opts.offset.getD 0)
      afterDownload X path opts r) := rfl

variable {f : Frame} {l : Line σ} {z : Session σ}

theorem afterUpload_active {result : FtpResult Conn} {r : RemoteResult WriteStream}
    (ha : f.active = result.isOk)
    (he : Prog.eval (alone V) (afterUpload X path result) ⟨f, l⟩ = some (r, z)) :
    z.active = r.isOk := by
  cases result with
  | ok transfer => cases he; exact ha
  | error err =>
    have hC : DoesClient (Plain false false false Listing) (TokioFtpFs.client X) :=
      TokioFtpFs.doesClient X fun _ h => h
    have he : Prog.eval (alone V) (do
        let error ← (TokioFtpFs.client X).classifyCreateRefusal path err
        pure (.error error : RemoteResult WriteStream)) ⟨f, l⟩ = some (r, z) := by
      unfold afterUpload FtpFs.mapRefusal at he
      simpa only [bind_assoc, pure_bind] using he
    exact refusal_quiet (hC.classifyCreateRefusal path err) ha he

theorem afterDownload_active {opts : ReadOptions} {result : RemoteResult (FtpResult (Conn × Bool))}
    {r : RemoteResult ReadStream} (ha : f.active = started result)
    (he : Prog.eval (alone V) (afterDownload X path opts result) ⟨f, l⟩ = some (r, z)) :
    z.active = r.isOk := by
  rcases result with e | err | ⟨transfer, resumed⟩
  · cases he
    exact ha
  · have hC : DoesClient (Plain false false false Listing) (TokioFtpFs.client X) :=
      TokioFtpFs.doesClient X fun _ h => h
    have he : Prog.eval (alone V) (do
        let error ← (TokioFtpFs.client X).classifyFileRefusal path err
        pure (.error error : RemoteResult ReadStream)) ⟨f, l⟩ = some (r, z) := by
      unfold afterDownload FtpFs.mapRefusal at he
      simpa only [bind_assoc, pure_bind] using he
    exact refusal_quiet (hC.classifyFileRefusal path err) ha he
  · obtain ⟨r', l', h⟩ := eval_skipTo (V := V) X ha l transfer opts.length (opts.offset.getD 0) resumed
    cases h.symm.trans he
    rfl

end

theorem eval_reply {p : Io α} {f : α → Reply} {x y : Session σ} {r : Reply}
    (h : Prog.eval (alone V) (p >>= fun a => pure (f a)) x = some (r, y)) :
    ∃ a, Prog.eval (alone V) p x = some (a, y) ∧ f a = r := by
  rw [Prog.bind_eq, Prog.eval_bind] at h
  obtain ⟨⟨a, z⟩, ha, h⟩ := Option.bind_eq_some_iff.mp h
  cases h
  exact ⟨a, ha, rfl⟩

/-- The other operations return no stream. -/
theorem reply_stream {X : Ext} {op : Op} (hop : op.transfers = false) {r : Reply}
    (h : Prog.Returns (S := ftp) (tokioReply X op) r) : r.stream = none := by
  cases op with
  | open' path opts | create path | append path => cases hop
  | _ =>
    obtain ⟨a, -, rfl⟩ := returns_reply h
    rfl

section
variable (X : Ext) {y z : Session σ} (hy : y.locked = false) {h : Conn}
  (hg : gate y.toFrame y.usable = .ok h)
include hy hg

theorem upload_active {c : Str → Command} {path : Path} {r : RemoteResult WriteStream}
    (he : Prog.eval (alone V) (TokioFtpFs.upload X c path) y = some (r, z)) : z.active = r.isOk := by
  have ha : y.active = false := (gate_ok hg).1
  rw [tokio_upload_eq] at he
  unfold withRemotePath at he
  cases hp : remotePath path with
  | error e =>
    rw [hp] at he
    cases he
    exact ha
  | ok remote =>
    rw [hp] at he
    replace he := (eval_locked_ok y.toLine hy hg _).symm.trans he
    obtain ⟨reply, l₁, h₁⟩ := eval_guarded (same_call (V := V) h (c remote))
      { y.toFrame with locked := true } y.toLine fun result => do
        FtpFs.recordFtpResult result
        let result ← FtpFs.withTransfer result h
        TokioFtpFs.complete
        afterUpload X path result
    obtain ⟨l₂, h₂⟩ := eval_settled (V := V) (f := { y.toFrame with locked := true }) rfl l₁ reply h
      (afterUpload X path)
    replace he := (h₁.trans h₂).symm.trans he
    refine afterUpload_active X path ?_ he
    cases reply <;> simp [ha, Except.map, Except.isOk, Except.toBool]

theorem open_active {path : Path} {opts : ReadOptions} {r : RemoteResult ReadStream}
    (he : Prog.eval (alone V) (TokioFtpFs.open' X path opts) y = some (r, z)) : z.active = r.isOk := by
  have ha : y.active = false := (gate_ok hg).1
  rw [tokio_open_eq] at he
  unfold withRemotePath at he
  cases hp : remotePath path with
  | error e =>
    rw [hp] at he
    cases he
    exact ha
  | ok remote =>
    rw [hp] at he
    replace he := (eval_locked_ok y.toLine hy hg _).symm.trans he
    obtain ⟨result, l₁, h₁⟩ := eval_tokio_openTransfer (V := V) X
      (f := { y.toFrame with locked := true }) rfl ha y.toLine h remote (opts.offset.getD 0)
      (afterDownload X path opts)
    exact afterDownload_active X path rfl (h₁.symm.trans he)

/-- A managed operation on an open gate keeps the slot, and has a transfer
exactly if it returns a stream. -/
theorem tokio_open_gate {op : Op} (hop : op.isMut = false) {r : Reply}
    (he : Prog.eval (alone V) (tokioReply X op) y = some (r, z)) :
    z.slot = y.slot ∧ z.active = r.stream.isSome := by
  have ha : y.active = false := (gate_ok hg).1
  have hp := TokioFtpFs.tokio_plain X op hop
  rw [(run_eq_reply X op).2] at hp
  have hrun : Prog.eval (alone V) (leaving (tokioReply X op) Reply.out) y = some (r.out, z) := by
    unfold leaving
    rw [Prog.eval_bind, he]
    rfl
  obtain ⟨hslot, hactive⟩ := eval_plain hp hrun
  refine ⟨hslot, ?_⟩
  cases ht : op.transfers with
  | false => rw [hactive ht, ha, reply_stream ht (Prog.eval_returns he)]; rfl
  | true =>
    cases op with
    | open' path opts =>
      obtain ⟨a, ha, rfl⟩ := eval_reply he
      rw [open_active X hy hg ha]
      cases a <;> rfl
    | create path | append path =>
      obtain ⟨a, ha, rfl⟩ := eval_reply he
      rw [upload_active X hy hg ha]
      cases a <;> rfl
    | _ => cases ht

end

/-! ## Connecting and ending a stream -/

theorem perform_usable {T : Type} [DecidableEq T] {t : T} {sh sh' : Shared T} {e : Eff} {o : Oracle}
    {r : e.Ret} (he : ∀ b, e ≠ .storeUsable b) (hp : perform sh t e o = some (sh', r)) :
    sh'.usable = sh.usable := by
  have hfail {ε γ : Type} (sh : Shared T) (h : Conn) (x : Except ε γ) :
      (sh.failing h x).usable = sh.usable := by
    cases x <;> rfl
  cases e with
  | storeUsable b => exact (he b rfl).elim
  | lock | unlock =>
    simp only [perform] at hp
    split at hp <;> cases hp
    rfl
  | connect _ _ => simp only [perform] at hp; split at hp <;> cases hp <;> rfl
  | builder h => simp only [perform] at hp; split at hp <;> cases hp <;> rfl
  | flush h cleanup =>
    cases hp
    cases cleanup
    · rfl
    · exact hfail sh h o.flushed
  | copyAll h => cases hp; exact hfail _ _ _
  | readToEnd h => cases hp; exact hfail _ _ _
  | finish h => cases hp; exact hfail _ _ _
  | _ => cases hp; rfl

/-- The steps that leave frame and flag alone. -/
def harmless (e : Eff) : Prop := onLine e = true ∧ ∀ b, e ≠ .storeUsable b

theorem eval_usable {p : Io α} (hp : Does harmless p) {x y : Session σ} {a : α}
    (h : Prog.eval (alone V) p x = some (a, y)) : y.usable = x.usable := by
  induction p generalizing x with
  | ret b => cases h; rfl
  | panic => cases h
  | act e d k ih =>
    obtain ⟨he, -, hk⟩ := hp
    obtain ⟨⟨r, z⟩, hs, hz⟩ := Option.bind_eq_some_iff.mp h
    obtain ⟨w, hw, hwz⟩ := Option.map_eq_some_iff.mp hs
    cases hwz
    exact (ih _ (hk _) hz).trans (perform_usable he.2 hw)

theorem harmless_call (h : Conn) {c : Command} (hc : c.opensData = false) :
    Does harmless (call h c) := by
  unfold call
  rw [hc]
  exact does_step ⟨rfl, nofun⟩ fun _ => Prog.always_step ⟨rfl, nofun⟩

theorem harmless_setup (o : Options) (h : Conn) : Does harmless (setup call o h) := by
  have hbuilder : Does harmless (installBuilder o h) := by
    unfold installBuilder
    split
    · exact Prog.always_step ⟨rfl, nofun⟩
    · exact does_pure _
  have hsecure : Does harmless (secure call o h) := by
    unfold secure
    split
    · refine does_step ⟨rfl, nofun⟩ fun b => ?_
      split
      · refine does_seq (harmless_call h rfl) fun r => ?_
        split <;> exact does_pure _
      · exact does_pure _
    · exact does_pure _
  have hlogin : Does harmless (login call o h) := by
    unfold login
    refine does_seq (harmless_call h rfl) fun r => ?_
    split
    · exact does_pure _
    · refine does_seq (harmless_call h rfl) fun r => ?_
      split <;> exact does_pure _
  refine does_seq hbuilder fun _ => does_step ⟨rfl, nofun⟩ fun _ => does_seq hsecure fun r => ?_
  split
  · exact does_pure _
  · exact hlogin

theorem onto_usable {p : Io α} (hp : Does harmless p) {l l' : Line σ} {a : α}
    (h : onto V p l = some (a, l')) : l'.usable = l.usable := by
  obtain ⟨⟨b, y⟩, he, hy⟩ := Option.map_eq_some_iff.mp h
  cases hy
  exact eval_usable hp he

/-- A connecting client ends up with a usable connection or with none. -/
theorem connectStream_law (o : Options) {connected : Bool} {welcome : Option Str} {l : Line σ}
    (hu : l.usable = true) {r : RemoteResult Unit} {y : Session σ}
    (h : Prog.eval (alone V) (FtpFs.connectStream o) ⟨⟨none, false, false, connected, welcome⟩, l⟩ =
      some (r, y)) : Law none y ∧ (r = .ok () → y.usable = true ∧ y.slot.isSome = true) := by
  have hlaw (slot : Option Conn) {l' : Line σ} (hl : l'.usable = true) :
      Law none (⟨⟨slot, false, false, connected, welcome⟩, l'⟩ : Session σ) :=
    ⟨rfl, rfl, nofun, fun _ => hl, nofun⟩
  have hconnect := same_step (V := V) (e := .connect o.hostname o.port) rfl
  obtain ⟨a, l₁, h₁, he⟩ := eval_then hconnect.left (fun l => (hconnect.total l).1)
    ⟨none, false, false, connected, welcome⟩ l _
  replace h := he.symm.trans h
  have hharmless : harmless (.connect o.hostname o.port) := ⟨rfl, nofun⟩
  have hu₁ : l₁.usable = true := (onto_usable (Prog.always_step hharmless) h₁).trans hu
  cases a with
  | error e => cases h; exact ⟨hlaw none hu₁, nofun⟩
  | ok stream =>
    have hsetup := same_setup (V := V) o stream
    obtain ⟨a, l₂, h₂, he⟩ := eval_then hsetup.left (fun l => (hsetup.total l).1)
      ⟨none, false, false, connected, welcome⟩ l₁ _
    replace h := he.symm.trans h
    have hu₂ : l₂.usable = true := (onto_usable (harmless_setup o stream) h₂).trans hu₁
    cases a with
    | error e => cases h; exact ⟨hlaw none hu₂, nofun⟩
    | ok _ => cases h; exact ⟨hlaw (some stream) hu₂, fun _ => ⟨hu₂, rfl⟩⟩

theorem connect_law (o : Options) {held : Option OwnedStream} {x y : Session σ} (hx : Law held x)
    {r : RemoteResult Unit} (h : Prog.eval (alone V) (FtpFs.connect o) x = some (r, y)) :
    Law held y ∧ (r = .ok () → y.usable = true ∧ y.slot.isSome = true) := by
  obtain ⟨⟨slot, locked, active, connected, welcome⟩, l⟩ := x
  obtain rfl : locked = false := hx.free
  cases active with
  | true =>
    cases h
    exact ⟨hx, nofun⟩
  | false =>
    let rest (b : Bool) (p : Io (RemoteResult Unit)) : Io (RemoteResult Unit) :=
      if b then pure (.error (.new .alreadyConnected)) else p
    have he : Prog.eval (alone V) (FtpFs.connect o) ⟨⟨slot, false, false, connected, welcome⟩, l⟩ =
        Prog.eval (alone V) (rest (l.usable && slot.isSome) (do
          FtpFs.discardUnusable
          FtpFs.connectStream o)) ⟨⟨slot, false, false, connected, welcome⟩, l⟩ :=
      eval_hasUsableStream slot false connected welcome l _
    have hheld : held = none := by
      have := hx.active
      cases held with
      | none => rfl
      | some s => cases this
    subst hheld
    replace h := he.symm.trans h
    cases hu : l.usable with
    | true =>
      rw [hu] at h
      cases slot with
      | some s =>
        cases h
        exact ⟨hx, nofun⟩
      | none =>
        exact connectStream_law o hu ((eval_keepUsable none false connected welcome l hu _).symm.trans h)
    | false =>
      rw [hu] at h
      exact connectStream_law o (l := { l with usable := true }) rfl
        ((eval_discardUnusable slot false connected welcome l hu _).symm.trans h)

/-- A command without data, and what it records. -/
theorem eval_exchange (h : Conn) {c : Command} (hc : c.opensData = false) (f : Frame) (l : Line σ)
    (k : FtpResult Response → Io β) : ∃ r l',
      Prog.eval (alone V) (call h c >>= k) ⟨f, l⟩ = Prog.eval (alone V) (k r) ⟨f, l'⟩ ∧
        l'.usable = l.usable ∧ (⟨.recv h c, r⟩ : Event ftp) ∈ l'.calls := by
  have hcall := same_call (V := V) h c
  obtain ⟨r, l', ho, he⟩ := eval_then hcall.left (fun l => (hcall.total l).1) f l k
  refine ⟨r, l', he, onto_usable (harmless_call h hc) ho, ?_⟩
  obtain ⟨⟨r', y⟩, hy, hl⟩ := Option.map_eq_some_iff.mp ho
  obtain ⟨rfl, rfl⟩ := Prod.mk.inj hl
  have hsteps : call h c = step (.send h c) >>= fun _ => step (.recv h c) := by
    unfold call
    rw [hc]
    rfl
  rw [hsteps] at hy
  obtain ⟨⟨_, z⟩, -, hz⟩ := Option.bind_eq_some_iff.mp hy
  obtain ⟨⟨r, z'⟩, hs, hz'⟩ := Option.bind_eq_some_iff.mp hz
  cases hz'
  show _ ∈ z'.calls
  rw [show z'.calls = z.calls ++ [⟨.recv h c, r⟩] from step_calls hs]
  simp

/-- Without a lost `QUIT` nothing is left of a connection that was given up. -/
theorem disconnect_law {held : Option OwnedStream} {x y : Session σ} (hx : Law held x)
    {r : RemoteResult Unit} (h : Prog.eval (alone V) FtpFs.disconnect x = some (r, y))
    (hq : ¬ LostQuit y) : Law held y := by
  obtain ⟨⟨slot, locked, active, connected, welcome⟩, l⟩ := x
  obtain rfl : locked = false := hx.free
  cases active with
  | true =>
    cases h
    exact hx
  | false =>
    have hheld : held = none := by
      have := hx.active
      cases held with
      | none => rfl
      | some s => cases this
    subst hheld
    have hlaw {l' : Line σ} (hl : l'.usable = true) :
        Law none (⟨⟨none, false, false, connected, welcome⟩, l'⟩ : Session σ) :=
      ⟨rfl, rfl, nofun, fun _ => hl, nofun⟩
    have he : Prog.eval (alone V) FtpFs.disconnect ⟨⟨slot, false, false, connected, welcome⟩, l⟩ =
        Prog.eval (alone V) (leaveSlot l.usable slot) ⟨⟨none, false, false, connected, welcome⟩, l⟩ :=
      eval_takeOut slot false connected welcome l (leaveSlot l.usable)
    replace h := he.symm.trans h
    cases slot with
    | none =>
      cases h
      exact hlaw (hx.usable rfl)
    | some stream =>
      unfold leaveSlot leave at h
      rw [eval_storeUsable] at h
      cases hu : l.usable with
      | false =>
        rw [hu] at h
        simp only [Bool.not_false, if_true] at h
        rw [eval_close] at h
        cases h
        exact hlaw rfl
      | true =>
        rw [hu] at h
        simp only [Bool.not_true, Bool.false_eq_true, if_false] at h
        unfold FtpFs.quit at h
        obtain ⟨reply, l', he, hu', hcalls⟩ := eval_exchange (V := V) stream (c := .quit) rfl
          ⟨none, false, false, connected, welcome⟩ { l with usable := true } _
        replace h := he.symm.trans h
        cases reply with
        | ok _ =>
          simp only at h
          rw [eval_close] at h
          cases h
          exact hlaw hu'
        | error e =>
          simp only at h
          replace h := (eval_recordRemoteResult _ l' (.error (ftpError e) : RemoteResult Unit) _).symm.trans h
          rw [eval_close] at h
          cases h
          refine hlaw ?_
          cases hn : remoteErrorRequiresReconnect (ftpError e) with
          | true => exact (hq ⟨stream, .error e, hcalls, hn⟩).elim
          | false => simp [Line.mark, fatal, hn, hu']

section
variable {s : OwnedStream} {x : Session σ} (hx : Law (some s) x)
include hx

/-- The end of the held stream. -/
theorem Law.ended (l : Line σ) : Law none (⟨{ x.toFrame with active := false }, l⟩ : Session σ) := by
  refine ⟨hx.free, rfl, nofun, fun hs => ?_, nofun⟩
  have := hx.slot rfl
  rw [show x.slot = none from hs] at this
  cases this

/-- A use of the held stream. -/
theorem Law.used {s' : OwnedStream} (hs' : Live s') (l : Line σ) :
    Law (some s') (⟨x.toFrame, l⟩ : Session σ) := by
  refine ⟨hx.free, hx.active, hx.slot, fun hs => ?_, ?_⟩
  · have := hx.slot rfl
    rw [show x.slot = none from hs] at this
    cases this
  · rintro t ⟨⟩
    exact hs'

end

section
variable (X : Ext) (f : Frame) (l : Line σ) (h : Conn)

/-- `finish_inner` of the blocking client. -/
theorem eval_finishInner (remaining : Option Nat) (atEof : Bool)
    (k : RemoteResult Unit × ReadStream → Io β) : ∃ r l',
      Prog.eval (alone V) (FtpReadStream.finishInner X (reading h remaining atEof) >>= k) ⟨f, l⟩ =
        Prog.eval (alone V) (k (r, ⟨none, remaining, atEof⟩)) ⟨f, l'⟩ := by
  have hread := same_finishRead (V := V) X h atEof
  obtain ⟨r, l₁, -, h₁⟩ := eval_then hread.left (fun l => (hread.total l).1) f l fun r => do
    FtpReadStream.invalidateOnErr r
    k (r, ⟨none, remaining, atEof⟩)
  have hmark := same_invalidateOnErr (V := V) r
  obtain ⟨u, l₂, -, h₂⟩ := eval_then hmark.left (fun l => (hmark.total l).1) f l₁ fun _ =>
    k (r, ⟨none, remaining, atEof⟩)
  refine ⟨r, l₂, ?_⟩
  unfold FtpReadStream.finishInner
  simp only [bind_assoc, pure_bind]
  exact h₁.trans h₂

/-- What ends a transfer: it leaves the rest of the frame alone. -/
theorem eval_ends {p p' : Io (RemoteResult Unit)} (hp : Same V p p') (k : RemoteResult Unit → Io β) :
    ∃ r l', Prog.eval (alone V) (do
        let result ← p
        FtpReadStream.invalidateOnErr result
        step .guardDrop
        k result) ⟨f, l⟩ = Prog.eval (alone V) (k r) ⟨{ f with active := false }, l'⟩ := by
  obtain ⟨r, l₁, -, h₁⟩ := eval_then hp.left (fun l => (hp.total l).1) f l fun r => do
    FtpReadStream.invalidateOnErr r
    step .guardDrop
    k r
  have hmark := same_invalidateOnErr (V := V) r
  obtain ⟨u, l₂, -, h₂⟩ := eval_then hmark.left (fun l => (hmark.total l).1) f l₁ fun _ => do
    step .guardDrop
    k r
  exact ⟨r, l₂, h₁.trans (h₂.trans (eval_guardDrop f l₂ (k r)))⟩

end

section
variable (X : Ext) {s : OwnedStream} {x y : Session σ} (hx : Law (some s) x)
include hx

/-- The drop of a stream of the blocking client ends the transfer. -/
theorem sync_drop_ends (h : Prog.eval (alone V) ((syncCaller X).drop s) x = some ((), y)) :
    y.toFrame = { x.toFrame with active := false } := by
  obtain ⟨c, hc⟩ := hx.live s rfl
  rcases s with ⟨inner, remaining, atEof⟩ | ⟨⟨inner⟩⟩
  · obtain rfl : inner = some c := hc
    obtain ⟨r, l, he⟩ := eval_ends x.toFrame x.toLine (same_finishRead (V := V) X c atEof) fun _ => pure ()
    have hd : Prog.eval (alone V) (FtpReadStream.drop X (reading c remaining atEof)) x = _ := he
    cases hd.symm.trans h
    rfl
  · obtain rfl : inner = some c := hc
    obtain ⟨r, l, he⟩ := eval_ends x.toFrame x.toLine (same_finishWrite (V := V) X c) fun _ => pure ()
    have hd : Prog.eval (alone V) (FtpWriteStream.drop X ⟨some c⟩) x = _ := he
    cases hd.symm.trans h
    rfl

/-- ... and so does that of the Tokio client, which marks a download it cuts short. -/
theorem tokio_drop_ends (h : Prog.eval (alone V) ((tokioCaller X).drop s) x = some ((), y)) :
    y.toFrame = { x.toFrame with active := false } := by
  obtain ⟨c, hc⟩ := hx.live s rfl
  obtain ⟨⟨slot, locked, active, connected, welcome⟩, l⟩ := x
  rcases s with ⟨inner, remaining, atEof⟩ | ⟨⟨inner⟩⟩
  · obtain rfl : inner = some c := hc
    have hd : Prog.eval (alone V) (TokioReadStream.drop (reading c remaining atEof))
        ⟨⟨slot, locked, active, connected, welcome⟩, l⟩ =
        some ((), ⟨⟨slot, locked, false, connected, welcome⟩, l.mark (!atEof)⟩) := by
      obtain ⟨srv, calls, usable, banner, hasBuilder, next⟩ := l
      cases atEof <;> cases locked <;> cases usable <;> rfl
    cases hd.symm.trans h
    rfl
  · obtain rfl : inner = some c := hc
    have hd : Prog.eval (alone V) (TokioWriteStream.drop ⟨some c⟩)
        ⟨⟨slot, locked, active, connected, welcome⟩, l⟩ =
        some ((), ⟨⟨slot, locked, false, connected, welcome⟩, l⟩) := by
      cases locked <;> rfl
    cases hd.symm.trans h
    rfl

theorem Law.dropped (hy : y.toFrame = { x.toFrame with active := false }) : Law none y := by
  have := hx.ended y.toLine
  rw [← hy] at this
  exact this

theorem sync_finish_law {r : Reply} {held : Option OwnedStream}
    (h : Prog.eval (alone V) ((syncApi X).serve (some s) .finish) x = some ((r, held), y)) :
    Law held y := by
  obtain ⟨c, hc⟩ := hx.live s rfl
  rcases s with ⟨inner, remaining, atEof⟩ | ⟨⟨inner⟩⟩
  · obtain rfl : inner = some c := hc
    obtain ⟨r', l', he⟩ := eval_finishInner (V := V) X x.toFrame x.toLine c remaining atEof fun r => do
      FtpReadStream.drop X r.2
      pure (Reply.done r.1, (none : Option OwnedStream))
    have hd := he.trans (eval_guardDrop x.toFrame l' (pure (Reply.done r', (none : Option OwnedStream))))
    have hf : (syncApi X).serve (some (.read (reading c remaining atEof))) .finish = (do
        let r ← FtpReadStream.finishInner X (reading c remaining atEof)
        FtpReadStream.drop X r.2
        pure (Reply.done r.1, none)) := by
      simp only [Api.serve, syncApi, FtpReadStream.finish, bind_assoc, pure_bind]
    rw [hf] at h
    cases hd.symm.trans h
    exact hx.ended l'
  · obtain rfl : inner = some c := hc
    obtain ⟨r', l', he⟩ := eval_ends x.toFrame x.toLine (same_finishWrite (V := V) X c) fun r =>
      pure (Reply.done r, (none : Option OwnedStream))
    have hf : (syncApi X).serve (some (.write ⟨some c⟩)) .finish = (do
        let result ← FtpWriteStream.finishWrite X c
        FtpReadStream.invalidateOnErr result
        step .guardDrop
        pure (Reply.done result, none)) := by
      simp only [Api.serve, syncApi, FtpWriteStream.finish, bind_assoc, pure_bind]
      rfl
    rw [hf] at h
    cases he.symm.trans h
    exact hx.ended l'

end

/-! ## Every turn keeps the law -/

section
variable (X : Ext) {held held' : Option OwnedStream} {x y : Session σ} {r : Reply}

theorem Law.held_none (hx : Law held x) (ha : x.active = false) : held = none := by
  rw [hx.active] at ha
  cases held with
  | none => rfl
  | some s => cases ha

/-- The Tokio client's view of a session of the blocking client at rest. -/
def twin (x : Session σ) : Session σ := ⟨{ x.toFrame with connected := x.slot.isSome }, x.toLine⟩

theorem over_twin (hx : x.locked = false) : Over Rest x (twin x) := ⟨rfl, hx, hx, rfl, rfl, rfl⟩

theorem sync_op_law {op : Op} (hop : op.isMut = false) (hcmp : Op.compared op = true)
    (hx : Law held x) (h : Prog.eval (alone V) (syncReply X op) x = some (r, y)) :
    Law (r.stream.or held) y := by
  cases hg : gate x.toFrame x.usable with
  | error e =>
    obtain ⟨r', he, hs, -⟩ := sync_shut (V := V) X hx.free hg op hop
    cases he.symm.trans h
    rw [hs]
    exact hx
  | ok c =>
    obtain ⟨ha, -, hslot⟩ := gate_ok hg
    obtain rfl := hx.held_none ha
    obtain ⟨a, v, v', he, he', hr⟩ := sim_reply (V := V) X op hcmp x (twin x) (over_twin hx.free)
    cases he.symm.trans h
    obtain ⟨hs, hactive⟩ := tokio_open_gate X (y := twin x) hx.free hg hop he'
    have hs : v'.slot = some c := hs.trans hslot
    rw [Option.or_none]
    refine (Law.over hr).mpr ⟨hr.frames.free', hactive, fun _ => ?_, fun hn => ?_, fun s hstream => ?_⟩
    · rw [hs]
      rfl
    · rw [hs] at hn
      cases hn
    · exact reply_live (Prog.eval_returns he) hstream

/-- A data step of a stream. -/
theorem eval_used (f : Frame) (l : Line σ) {e : Eff} (he : onLine e = true) (k : e.Ret → α) :
    ∃ r l', Prog.eval (alone V) (step e >>= fun r => pure (k r)) ⟨f, l⟩ = some (k r, ⟨f, l'⟩) := by
  have hstep := same_step (V := V) he
  obtain ⟨r, l', -, h⟩ := eval_then hstep.left (fun l => (hstep.total l).1) f l fun r => pure (k r)
  exact ⟨r, l', h⟩

theorem sync_serve_law {c : Call} (hx : Law held x)
    (h : Prog.eval (alone V) ((syncApi X).serve held c) x = some ((r, held'), y))
    (hq : ¬ LostQuit y) : Law held' y := by
  cases c with
  | op op hcmp =>
    obtain ⟨⟨a, z⟩, ha, hz⟩ := Option.bind_eq_some_iff.mp
      ((Prog.eval_bind (M := alone V) (syncReply X op) _ x).symm.trans h)
    cases hz
    cases op with
    | connect o =>
      obtain ⟨b, hb, rfl⟩ := eval_reply ha
      exact (connect_law o hx hb).1
    | disconnect =>
      obtain ⟨b, hb, rfl⟩ := eval_reply ha
      exact disconnect_law hx hb hq
    | _ => exact sync_op_law X rfl hcmp hx ha
  | read bufLen =>
    rcases held with _ | ⟨inner, remaining, atEof⟩ | s
    · cases h; exact hx
    · obtain ⟨c, rfl⟩ := hx.live _ rfl
      obtain ⟨⟨⟨a, s⟩, z⟩, ha, hz⟩ := Option.bind_eq_some_iff.mp
        ((Prog.eval_bind (M := alone V) (FtpReadStream.read X (reading c remaining atEof) bufLen) _ x).symm.trans h)
      cases hz
      obtain ⟨b, v, v', he, -, hr⟩ := sim_read (V := V) (F := fun f _ => f = x.toFrame) X c remaining
        atEof bufLen x x ⟨rfl, rfl⟩
      cases he.symm.trans ha
      have hframe : y.toFrame = x.toFrame := hr.frames
      have hlive : Live (.read s) := ⟨c, read_inner (Prog.eval_returns he)⟩
      have hlaw := hx.used hlive y.toLine
      rw [← hframe] at hlaw
      exact hlaw
    · cases h; exact hx
  | write buf =>
    rcases held with _ | s | ⟨⟨inner⟩⟩
    · cases h; exact hx
    · cases h; exact hx
    · obtain ⟨c, rfl⟩ := hx.live _ rfl
      obtain ⟨a, l, he⟩ := eval_used (V := V) x.toFrame x.toLine (e := .write c buf) rfl fun r =>
        (Reply.count r, some (OwnedStream.write ⟨some c⟩))
      cases he.symm.trans h
      exact hx.used ⟨c, rfl⟩ l
  | flush =>
    rcases held with _ | s | ⟨⟨inner⟩⟩
    · cases h; exact hx
    · cases h; exact hx
    · obtain ⟨c, rfl⟩ := hx.live _ rfl
      obtain ⟨a, l, he⟩ := eval_used (V := V) x.toFrame x.toLine (e := .flush c false) rfl fun r =>
        (Reply.flushed r, some (OwnedStream.write ⟨some c⟩))
      cases he.symm.trans h
      exact hx.used ⟨c, rfl⟩ l
  | finish =>
    cases held with
    | none => cases h; exact hx
    | some s => exact sync_finish_law X hx h

/-- The calls of a run extend those before it. -/
theorem LostQuit.mono {p : Io α} {a : α} (h : Prog.eval (alone V) p x = some (a, y))
    (hq : LostQuit x) : LostQuit y := by
  obtain ⟨c, reply, hc, hr⟩ := hq
  obtain ⟨evs, he, -⟩ := eval_calls h
  exact ⟨c, reply, by rw [he]; exact List.mem_append_left _ hc, hr⟩

theorem sync_turn_law {t : Turn} (hx : Law held x)
    (h : Prog.eval (alone V) ((syncCaller X).turn held t) x = some ((r, held'), y))
    (hq : ¬ LostQuit y) : Law held' y := by
  cases t with
  | call c => exact sync_serve_law X hx h hq
  | welcomeMessage =>
    obtain ⟨⟨slot, locked, active, connected, welcome⟩, l⟩ := x
    obtain rfl : locked = false := hx.free
    cases slot <;> cases h <;> exact hx
  | drop =>
    cases held with
    | none => cases h; exact hx
    | some s =>
      obtain ⟨⟨a, z⟩, ha, hz⟩ := Option.bind_eq_some_iff.mp
        ((Prog.eval_bind (M := alone V) ((syncCaller X).drop s) _ x).symm.trans h)
      cases hz
      exact hx.dropped (sync_drop_ends X hx ha)

/-- The Tokio client's law: its mirror says whether the slot is filled. -/
def TokioLaw (held : Option OwnedStream) (y : Session σ) : Prop :=
  Law held y ∧ y.connected = y.slot.isSome

theorem tokio_turn_law {t : Turn} (hy : TokioLaw held x)
    (h : Prog.eval (alone V) ((tokioCaller X).turn held t) x = some ((r, held'), y))
    (hq : ¬ LostQuit y) : TokioLaw held' y := by
  obtain ⟨hx, hmirror⟩ := hy
  cases t with
  | call c =>
    obtain ⟨a, v, v', he, he', hr⟩ := sim_serve (V := V) X hx.live c x x
      ⟨rfl, hx.free, hx.free, rfl, rfl, hmirror⟩
    cases he'.symm.trans h
    have hcalls : v.calls = y.calls := congrArg Line.calls hr.line
    have hq' : ¬ LostQuit v := fun ⟨c, reply, hc, hr⟩ => hq ⟨c, reply, hcalls ▸ hc, hr⟩
    exact ⟨(Law.over hr).mp (sync_serve_law X hx he hq'), hr.frames.connected⟩
  | welcomeMessage =>
    obtain ⟨⟨slot, locked, active, connected, welcome⟩, l⟩ := x
    obtain rfl : locked = false := hx.free
    cases h
    exact ⟨hx, hmirror⟩
  | drop =>
    cases held with
    | none => cases h; exact ⟨hx, hmirror⟩
    | some s =>
      obtain ⟨⟨a, z⟩, ha, hz⟩ := Option.bind_eq_some_iff.mp
        ((Prog.eval_bind (M := alone V) ((tokioCaller X).drop s) _ x).symm.trans h)
      cases hz
      have hends := tokio_drop_ends X hx ha
      have hc : y.connected = x.connected := by rw [hends]
      have hs : y.slot = x.slot := by rw [hends]
      exact ⟨hx.dropped hends, by rw [hc, hs, hmirror]⟩

end

section
variable (X : Ext) {srv : σ} {held : Option OwnedStream} {x : Session σ}

theorem law_fresh (srv : σ) : Law none (fresh srv) := ⟨rfl, rfl, nofun, fun _ => rfl, nofun⟩

/-- Whatever a caller does with the blocking client, the law holds. -/
theorem sync_law (hr : ((syncCaller X).turns V srv).Reachable (held, x)) (hq : ¬ LostQuit x) :
    Law held x := by
  let I (s : Option OwnedStream × Session σ) : Prop := ¬ LostQuit s.2 → Law s.1 s.2
  have hind : ((syncCaller X).turns V srv).Inductive I := by
    refine ⟨?_, ?_⟩
    · rintro _ rfl _
      exact law_fresh srv
    · rintro s t s' hI ⟨r, h⟩ hq
      exact sync_turn_law X (hI fun hl => hq (hl.mono h)) h hq
  exact hind.reachable _ hr hq

/-- ... and with the Tokio client. -/
theorem tokio_law (hr : ((tokioCaller X).turns V srv).Reachable (held, x)) (hq : ¬ LostQuit x) :
    TokioLaw held x := by
  let I (s : Option OwnedStream × Session σ) : Prop := ¬ LostQuit s.2 → TokioLaw s.1 s.2
  have hind : ((tokioCaller X).turns V srv).Inductive I := by
    refine ⟨?_, ?_⟩
    · rintro _ rfl _
      exact ⟨law_fresh srv, rfl⟩
    · rintro s t s' hI ⟨r, h⟩ hq
      exact tokio_turn_law X (hI fun hl => hq (hl.mono h)) h hq
  exact hind.reachable _ hr hq

end

/-! ## What the gate answers -/

/-- Why an operation is refused: for its transfer, for want of a control
stream, or for the state of the one there is. -/
def refusal (held : Option OwnedStream) (x : Session σ) : Option RemoteErrorType :=
  if held.isSome then some .protocolError
  else if x.slot.isNone then some .notConnected
  else if x.usable = false then some .connectionError
  else none

/-- `p` is refused for the reason that holds and sends nothing, or sends `c`
first on the control stream the client holds. -/
def Answers (V : Server σ) (held : Option OwnedStream) (x : Session σ) (c : Command) (p : Io Reply) :
    Prop :=
  ∃ r y, Prog.eval (alone V) p x = some (r, y) ∧
    match refusal held x with
    | some kind => r.failure = some kind ∧ y.calls = x.calls
    | none => ∃ h rest, x.slot = some h ∧ y.calls = x.calls ++ ⟨.send h c, ()⟩ :: rest

section
variable {held : Option OwnedStream} {x : Session σ} (hx : Law held x)
include hx

/-- Under the law the gate refuses for the reason that holds. -/
theorem Law.refusal_error {e : RemoteError} (hg : gate x.toFrame x.usable = .error e) :
    refusal held x = some e.kind := by
  have ha := hx.active
  have hu := hx.usable
  obtain ⟨⟨slot, locked, active, connected, welcome⟩, l⟩ := x
  obtain ⟨srv, calls, usable, banner, hasBuilder, next⟩ := l
  obtain rfl : active = held.isSome := ha
  cases held with
  | some s => cases hg; rfl
  | none =>
    cases slot with
    | none =>
      obtain rfl : usable = true := hu rfl
      cases hg
      rfl
    | some h => cases usable <;> cases hg; rfl

theorem Law.refusal_ok {h : Conn} (hg : gate x.toFrame x.usable = .ok h) : refusal held x = none := by
  obtain ⟨ha, hu, hs⟩ := gate_ok hg
  obtain rfl := hx.held_none ha
  unfold refusal
  rw [hu, show x.slot = some h from hs]
  rfl

variable (X : Ext) {op : Op} {c : Command} (hop : Leads X op c)
include hop

theorem sync_answers : Answers V held x c (syncReply X op) := by
  obtain ⟨r, y, -, he, -, -⟩ := sim_reply (V := V) X op (leads_compared hop) x (twin x) (over_twin hx.free)
  refine ⟨r, y, he, ?_⟩
  cases hg : gate x.toFrame x.usable with
  | error e =>
    rw [hx.refusal_error hg]
    obtain ⟨r', he', -, hf⟩ := sync_shut (V := V) X hx.free hg op (leads_isMut hop)
    cases he'.symm.trans he
    exact ⟨hf ⟨c, hop⟩, rfl⟩
  | ok h =>
    rw [hx.refusal_ok hg]
    obtain ⟨rest, hc⟩ := (sync_starts (V := V) X hx.free hg hop).calls he
    exact ⟨h, rest, (gate_ok hg).2.2, hc⟩

theorem tokio_answers (hm : x.connected = x.slot.isSome) : Answers V held x c (tokioReply X op) := by
  obtain ⟨r, y, z, he, he', hr⟩ := sim_reply (V := V) X op (leads_compared hop) x x
    ⟨rfl, hx.free, hx.free, rfl, rfl, hm⟩
  obtain ⟨r', y', hs, hanswer⟩ := sync_answers (V := V) hx X hop
  cases he.symm.trans hs
  have hcalls : y.calls = z.calls := congrArg Line.calls hr.line
  rw [hcalls] at hanswer
  exact ⟨r, z, he', hanswer⟩

end

/-- `connect`, when it succeeds, leaves a usable connection. -/
def Connects (V : Server σ) (x : Session σ) (connect : Options → Io (RemoteResult Unit)) : Prop :=
  ∀ o y, Prog.eval (alone V) (connect o) x = some (.ok (), y) →
    y.slot.isSome = true ∧ y.usable = true

theorem sync_connects {held : Option OwnedStream} {x : Session σ} (hx : Law held x) :
    Connects V x FtpFs.connect := by
  intro o y h
  obtain ⟨hu, hs⟩ := (connect_law o hx h).2 rfl
  exact ⟨hs, hu⟩

theorem tokio_connects {held : Option OwnedStream} {x : Session σ} (hx : Law held x)
    (hm : x.connected = x.slot.isSome) : Connects V x TokioFtpFs.connect := by
  intro o z h
  obtain ⟨r, y, z', he, he', hr⟩ := sim_connect (V := V) o x x ⟨rfl, hx.free, hx.free, rfl, rfl, hm⟩
  cases he'.symm.trans h
  obtain ⟨hs, hu⟩ := sync_connects hx o y he
  have hslot : y.slot = z.slot := hr.frames.slot
  have husable : y.usable = z.usable := congrArg Line.usable hr.line
  exact ⟨hslot ▸ hs, husable ▸ hu⟩

/-- **The gate answers for the connection.** After any turns of a caller, and
unless a `QUIT` was lost, either client refuses a managed operation with valid
paths before it sends anything: with `ProtocolError` if a transfer is alive,
else with `NotConnected` if there is no control stream, else with
`ConnectionError` if it is unusable, which it is not when `connect` has just
succeeded. Otherwise the operation sends its command. -/
theorem gate_answers (X : Ext) (V : Server σ) (srv : σ) (held : Option OwnedStream) (x : Session σ)
    (hq : ¬ LostQuit x) (op : Op) (c : Command) (hop : Leads X op c) :
    (((syncCaller X).turns V srv).Reachable (held, x) →
        Answers V held x c (syncReply X op) ∧ Connects V x FtpFs.connect) ∧
      (((tokioCaller X).turns V srv).Reachable (held, x) →
        Answers V held x c (tokioReply X op) ∧ Connects V x TokioFtpFs.connect) := by
  constructor
  · intro hr
    have hx := sync_law X hr hq
    exact ⟨sync_answers hx X hop, sync_connects hx⟩
  · intro hr
    obtain ⟨hx, hm⟩ := tokio_law X hr hq
    exact ⟨tokio_answers hx X hop hm, tokio_connects hx hm⟩

/-! ### On a scripted server -/

/-- One turn, executed. -/
def Caller.next (A : Caller) (V : Server σ) (s : Option OwnedStream × Session σ) (t : Turn) :
    Option (Option OwnedStream × Session σ) :=
  (Prog.eval (alone V) (A.turn s.1 t) s.2).map fun y => (y.1.2, y.2)

/-- Where a caller's turns lead. -/
def Caller.after (A : Caller) (os : List Oracle) (ts : List Turn) :
    Option OwnedStream × Session (List Oracle) :=
  (Core.LTS.exec (A.next scripted) (fun _ _ => true) (none, fresh os) ts).getD (none, fresh os)

theorem reachable_after (A : Caller) (os : List Oracle) (ts : List Turn)
    (h : (Core.LTS.exec (A.next scripted) (fun _ _ => true) (none, fresh os) ts).isSome = true)
    (hheld : (A.after os ts).1 = none) :
    (A.turns scripted os).Reachable (none, (A.after os ts).2) := by
  obtain ⟨s, hs⟩ := Option.isSome_iff_exists.mp h
  rw [← hheld]
  refine ⟨(none, fresh os), ts, rfl, ?_⟩
  unfold Caller.after
  rw [hs]
  refine Core.LTS.run_of_exec (fun s t s' _ hn => ?_) hs
  obtain ⟨⟨⟨r, held⟩, y⟩, he, hy⟩ := Option.map_eq_some_iff.mp hn
  cases hy
  exact ⟨r, he⟩

/-- No `QUIT` was answered. -/
def quitless (x : Session σ) : Bool := x.calls.all fun ev =>
  match ev.1 with
  | .recv _ .quit => false
  | _ => true

theorem quitless_lost (h : quitless (σ := σ) x = true) : ¬ LostQuit x := by
  rintro ⟨c, r, hc, -⟩
  cases List.all_eq_true.mp h _ hc

def server : Options := { hostname := ['h'], port := 21 }

def noop : Op := .exec ['N', 'O', 'O', 'P']

def connects : List Turn := [.call (.op (.connect server) rfl)]

/-- A client that has connected sends its command. -/
theorem gate_answers_connected :
    Answers scripted none ((syncCaller rowExt).after [] connects).2 (.site ['N', 'O', 'O', 'P'])
        (syncReply rowExt noop) ∧
      Answers scripted none ((tokioCaller rowExt).after [] connects).2 (.site ['N', 'O', 'O', 'P'])
        (tokioReply rowExt noop) :=
  ⟨((gate_answers rowExt scripted [] none _ (quitless_lost (by decide +kernel)) noop _ rfl).1
      (reachable_after (syncCaller rowExt) [] connects (by decide +kernel) (by decide +kernel))).1,
    ((gate_answers rowExt scripted [] none _ (quitless_lost (by decide +kernel)) noop _ rfl).2
      (reachable_after (tokioCaller rowExt) [] connects (by decide +kernel) (by decide +kernel))).1⟩

/-- A server that answers `QUIT` with garbage. -/
def garbled : List Oracle := [{}, {}, {}, { reply := .error .badResponse }]

def leaves : List Turn := connects ++ [.call (.op .disconnect rfl)]

/-- What is seen of an answer. -/
def answer (x : Session (List Oracle)) (p : Io Reply) : Option (Option RemoteErrorType) :=
  (Prog.eval (alone scripted) p x).map fun y => y.1.failure

theorem not_answers (kind : RemoteErrorType) {x : Session (List Oracle)} {c : Command} {p : Io Reply}
    (hr : refusal none x = some kind) (ha : answer x p ≠ some (some kind)) :
    ¬ Answers scripted none x c p := by
  rintro ⟨r, y, he, h⟩
  rw [hr] at h
  exact ha (by rw [answer, he, Option.map_some, h.1])

/-- **The defect**: once its `QUIT` was lost, a client that holds no control
stream refuses operations with `ConnectionError`. -/
theorem lost_quit :
    (((syncCaller rowExt).turns scripted garbled).Reachable
          (none, ((syncCaller rowExt).after garbled leaves).2) ∧
        ((syncCaller rowExt).after garbled leaves).2.slot = none ∧
        answer ((syncCaller rowExt).after garbled leaves).2 (syncReply rowExt noop) =
          some (some .connectionError) ∧
        ¬ Answers scripted none ((syncCaller rowExt).after garbled leaves).2
          (.site ['N', 'O', 'O', 'P']) (syncReply rowExt noop)) ∧
      (((tokioCaller rowExt).turns scripted garbled).Reachable
          (none, ((tokioCaller rowExt).after garbled leaves).2) ∧
        ((tokioCaller rowExt).after garbled leaves).2.slot = none ∧
        answer ((tokioCaller rowExt).after garbled leaves).2 (tokioReply rowExt noop) =
          some (some .connectionError) ∧
        ¬ Answers scripted none ((tokioCaller rowExt).after garbled leaves).2
          (.site ['N', 'O', 'O', 'P']) (tokioReply rowExt noop)) := by
  refine ⟨⟨?_, by decide +kernel, by decide +kernel, ?_⟩, ?_, by decide +kernel, by decide +kernel, ?_⟩
  · exact reachable_after (syncCaller rowExt) garbled leaves (by decide +kernel) (by decide +kernel)
  · exact not_answers .notConnected (by decide +kernel) (by decide +kernel)
  · exact reachable_after (tokioCaller rowExt) garbled leaves (by decide +kernel) (by decide +kernel)
  · exact not_answers .notConnected (by decide +kernel) (by decide +kernel)

end RemotefsFtp.L4
