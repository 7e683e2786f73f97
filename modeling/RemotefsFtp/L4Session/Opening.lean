import RemotefsFtp.L4Session.AgreeOps

/-!
# A lost reply while a download is opened

`open` makes up to four `suppaftp` calls: `REST offset`, `RETR`, and when the
server accepted the offset and the `RETR` failed, `REST 0` and a second
`RETR` (`sync.rs:988-1018`, `tokio.rs:943-985`). A failure that needs a
reconnect must be the last thing that happens on the control stream, and
leave the connection unusable.

Results:
* **`open_keeps_lost`**: it does, unless the server accepted the offset and
  the first `RETR` is what fails: `open` sends `REST 0` behind every failed
  `RETR`, and a later success overwrites the failure.
* `open_forgets_lost`: on such answers `open` returns a stream on a connection
  that counts as usable.
-/
namespace RemotefsFtp.L4

open L1 (Str Path)
open L2 L3
open Core (Prog Event)

/-- The environment answers from a list, one answer for each call and each data
step. -/
def scripted : Server (List Oracle) where
  answer os e :=
    match e with
    | .send _ _ | .builder _ => (os.headD {}, os)
    | _ => (os.headD {}, os.tail)

/-- The reply a script has for the `n`-th call. -/
def replyAt (os : List Oracle) (n : Nat) : FtpResult Response := (os.getD n {}).reply

/-! ## One call -/

/-- What a call records before its reply. -/
def asking (h : Conn) (c : Command) (failed : Bool) : List (Event ftp) :=
  ⟨.send h c, ()⟩ :: if c.opensData then [⟨.builder h, failed⟩] else []

namespace Line

def builderFails (l : Line (List Oracle)) (h : Conn) : Bool :=
  l.hasBuilder h && (l.srv.headD {}).builderFails

/-- The line after a call. -/
def ask (l : Line (List Oracle)) (h : Conn) (c : Command) : Line (List Oracle) :=
  { l with
    srv := l.srv.tail
    calls := l.calls ++ (asking h c (l.builderFails h) ++ [⟨.recv h c, replyAt l.srv 0⟩])
    usable := l.usable && !(c.opensData && l.builderFails h) }

/-- The line after a failure was recorded, if it needs a reconnect. -/
def mark {σ : Type} (l : Line σ) (bad : Bool) : Line σ := { l with usable := l.usable && !bad }

end Line

section
variable {β : Type} {σ : Type} {V : Server σ} (f : Frame)

theorem eval_send (l : Line (List Oracle)) (h : Conn) (c : Command) (p : Io β) :
    Prog.eval (alone scripted) (do step (.send h c); p) ⟨f, l⟩ =
      Prog.eval (alone scripted) p ⟨f, { l with calls := l.calls ++ [⟨.send h c, ()⟩] }⟩ := by
  obtain ⟨slot, locked, active, connected, welcome⟩ := f
  cases locked <;> rfl

theorem eval_builder (l : Line (List Oracle)) (h : Conn) (k : Bool → Io β) :
    Prog.eval (alone scripted) (do k (← step (.builder h))) ⟨f, l⟩ =
      Prog.eval (alone scripted) (k (l.builderFails h))
        ⟨f, { l with calls := l.calls ++ [⟨.builder h, l.builderFails h⟩] }⟩ := by
  show ((alone scripted).step ⟨f, l⟩ (.builder h)).bind _ = _
  have hb : (Session.shared ⟨f, l⟩).hasBuilder h = l.hasBuilder h := rfl
  have hs : (alone scripted).step ⟨f, l⟩ (.builder h) = some (l.builderFails h,
      ⟨f, { l with calls := l.calls ++ [⟨.builder h, l.builderFails h⟩] }⟩) := by
    simp only [alone, perform, hb]
    obtain ⟨slot, locked, active, connected, welcome⟩ := f
    split
    · rename_i hf
      replace hf : l.builderFails h = true := hf
      rw [hf]
      cases locked <;> rfl
    · rename_i hf
      replace hf : l.builderFails h = false := Bool.eq_false_iff.mpr hf
      rw [hf]
      cases locked <;> rfl
  rw [hs]
  rfl

theorem eval_recv (l : Line (List Oracle)) (h : Conn) (c : Command) (k : FtpResult Response → Io β) :
    Prog.eval (alone scripted) (do k (← step (.recv h c))) ⟨f, l⟩ =
      Prog.eval (alone scripted) (k (replyAt l.srv 0)) ⟨f, { l with
        srv := l.srv.tail
        calls := l.calls ++ [⟨.recv h c, replyAt l.srv 0⟩] }⟩ := by
  obtain ⟨slot, locked, active, connected, welcome⟩ := f
  obtain ⟨os, calls, usable, banner, hasBuilder, next⟩ := l
  cases os <;> cases locked <;> rfl

theorem eval_store (l : Line σ) (b : Bool) (p : Io β) :
    Prog.eval (alone V) (do step (.storeUsable b); p) ⟨f, l⟩ =
      Prog.eval (alone V) p ⟨f, { l with usable := b }⟩ := by
  obtain ⟨slot, locked, active, connected, welcome⟩ := f
  exact eval_storeUsable slot locked active connected welcome l b p

theorem eval_call (l : Line (List Oracle)) (h : Conn) (c : Command) (k : FtpResult Response → Io β) :
    Prog.eval (alone scripted) (call h c >>= k) ⟨f, l⟩ =
      Prog.eval (alone scripted) (k (replyAt l.srv 0)) ⟨f, l.ask h c⟩ := by
  unfold call Line.ask asking
  simp only [bind_assoc]
  rw [eval_send]
  cases hd : c.opensData with
  | false =>
    simp only [Bool.false_eq_true, if_false, Bool.false_and, Bool.not_false, Bool.and_true]
    rw [eval_recv]
    simp
  | true =>
    simp only [if_true, bind_assoc]
    rw [eval_builder]
    have hb : Line.builderFails { l with calls := l.calls ++ [⟨.send h c, ()⟩] } h =
      l.builderFails h := rfl
    rw [hb]
    cases hb : l.builderFails h with
    | false =>
      simp only [Bool.false_eq_true, if_false, Bool.and_false, Bool.not_false, Bool.and_true]
      rw [eval_recv]
      simp
    | true =>
      simp only [if_true, bind_assoc, Bool.and_true, Bool.not_true, Bool.and_false]
      rw [eval_store, eval_recv]
      simp

theorem eval_markIf (l : Line σ) (bad : Bool) (k : Unit → Io β) :
    Prog.eval (alone V) ((if bad then FtpFs.markConnectionUnusable else pure ()) >>= k) ⟨f, l⟩ =
      Prog.eval (alone V) (k ()) ⟨f, l.mark bad⟩ := by
  unfold Line.mark FtpFs.markConnectionUnusable
  cases bad with
  | false =>
    simp only [Bool.not_false, Bool.and_true]
    rfl
  | true =>
    simp only [if_true, Bool.not_true, Bool.and_false]
    exact eval_store f l false (k ())

theorem eval_recordFtpResult {α : Type} (l : Line σ) (r : FtpResult α) (k : Unit → Io β) :
    Prog.eval (alone V) (FtpFs.recordFtpResult r >>= k) ⟨f, l⟩ =
      Prog.eval (alone V) (k ()) ⟨f, l.mark (needsReconnect r)⟩ := by
  cases r with
  | ok a => exact eval_markIf f l false k
  | error e => exact eval_markIf f l _ k

/-- Whether the failure of a managed operation needs a reconnect. -/
def fatal {α : Type} : RemoteResult α → Bool
  | .ok _ => false
  | .error e => remoteErrorRequiresReconnect e

theorem eval_recordRemoteResult {α : Type} (l : Line σ) (r : RemoteResult α) (k : Unit → Io β) :
    Prog.eval (alone V) (FtpFs.recordRemoteResult r >>= k) ⟨f, l⟩ =
      Prog.eval (alone V) (k ()) ⟨f, l.mark (fatal r)⟩ := by
  cases r with
  | ok a => exact eval_markIf f l false k
  | error e => exact eval_markIf f l _ k

theorem eval_withTransfer {α : Type} (l : Line σ) (r : FtpResult Response) (a : α)
    (k : FtpResult α → Io β) :
    Prog.eval (alone V) (FtpFs.withTransfer r a >>= k) ⟨f, l⟩ =
      Prog.eval (alone V) (k (r.map fun _ => a)) ⟨{ f with active := f.active || r.isOk }, l⟩ := by
  obtain ⟨slot, locked, active, connected, welcome⟩ := f
  cases r with
  | ok b => cases locked <;> cases active <;> rfl
  | error e => cases active <;> rfl

/-- How `open` takes the answer to a `RETR`. -/
theorem eval_settle {α : Type} (l : Line σ) (r : FtpResult Response) (a : α)
    (k : RemoteResult (FtpResult α) → Io β) :
    Prog.eval (alone V) (do
      FtpFs.recordFtpResult r
      let result ← FtpFs.withTransfer r a
      k (.ok result)) ⟨f, l⟩ =
      Prog.eval (alone V) (k (.ok (r.map fun _ => a)))
        ⟨{ f with active := f.active || r.isOk }, l.mark (needsReconnect r)⟩ := by
  rw [eval_recordFtpResult, eval_withTransfer]

end

/-! ## The setup of a download -/

/-- The calls `open` makes before the transfer runs. -/
def setsUp : Command → Bool
  | .resumeTransfer _ | .retrAsStream _ => true
  | _ => false

/-- A call of the setup on `h` failed and the replies may be out of step. -/
def Lost (h : Conn) (ev : Event ftp) : Prop :=
  ∃ c e, setsUp c = true ∧ transferSetupRequiresReconnect e = true ∧ ev = ⟨.recv h c, .error e⟩

/-- No call of the setup was lost. -/
def Calm (evs : List (Event ftp)) : Prop := ∀ ev ∈ evs, ∀ h, ¬ Lost h ev

theorem calm_asking (h : Conn) (c : Command) (failed : Bool) : Calm (asking h c failed) := by
  rintro ev hev g ⟨c', e, -, -, rfl⟩
  unfold asking at hev
  split at hev <;> simp at hev

theorem not_lost_recv {g h : Conn} {c : Command} {r : FtpResult Response}
    (hr : needsReconnect r = false) : ¬ Lost g ⟨.recv h c, r⟩ := by
  rintro ⟨c', e, -, he, hev⟩
  cases hev
  replace hr : transferSetupRequiresReconnect e = false := hr
  simp [hr] at he

theorem Calm.append {evs evs' : List (Event ftp)} (h : Calm evs) (h' : Calm evs') :
    Calm (evs ++ evs') := by
  intro ev hev
  rcases List.mem_append.mp hev with hev | hev
  · exact h ev hev
  · exact h' ev hev

theorem calm_recv {h : Conn} {c : Command} {r : FtpResult Response} (hr : needsReconnect r = false) :
    Calm [⟨.recv h c, r⟩] := by
  rintro ev hev g
  obtain rfl := List.mem_singleton.mp hev
  exact not_lost_recv hr

/-- After a setup with this result `open` sends nothing more. -/
def Settled {α : Type} : RemoteResult (FtpResult α) → Prop
  | .error _ => True
  | .ok r => needsReconnect r = true

/-- The setup of a download from `remote` on `h`, from the line `l`: no call
was lost; the last one was, and `open` stops there; or, when `retries`, the
first `RETR` was, with `REST 0` sent behind it. -/
inductive SetUp (h : Conn) (remote : Str) (l : Line (List Oracle)) :
    Bool → RemoteResult (FtpResult (Conn × Bool)) → Line (List Oracle) → Prop
  | kept {evs r l'} (calls : l'.calls = l.calls ++ evs) (calm : Calm evs) : SetUp h remote l false r l'
  | lost {r l'} (evs : List (Event ftp)) (ev : Event ftp) (calls : l'.calls = l.calls ++ (evs ++ [ev])) (calm : Calm evs)
      (usable : l'.usable = false) (settled : Settled r) : SetUp h remote l false r l'
  | passed {r l'} (pre post : List (Event ftp)) (e : FtpError) (calls : l'.calls = l.calls ++ (pre ++
        ⟨.recv h (.retrAsStream remote), .error e⟩ :: ⟨.send h (.resumeTransfer 0), ()⟩ :: post))
      (needs : transferSetupRequiresReconnect e = true) : SetUp h remote l true r l'

section
variable {h : Conn} {remote : Str} {l l₁ l' : Line (List Oracle)} {b : Bool}
  {r : RemoteResult (FtpResult (Conn × Bool))}

/-- Calls that went well before. -/
theorem SetUp.after {evs : List (Event ftp)} (hc : l₁.calls = l.calls ++ evs) (hcalm : Calm evs)
    (hs : SetUp h remote l₁ b r l') : SetUp h remote l b r l' := by
  cases hs with
  | kept calls calm => exact .kept (by rw [calls, hc, List.append_assoc]) (hcalm.append calm)
  | lost evs' ev calls calm usable settled =>
    exact .lost (evs ++ evs') ev (by rw [calls, hc]; simp only [List.append_assoc])
      (hcalm.append calm) usable settled
  | passed pre post e calls needs =>
    exact .passed (evs ++ pre) post e (by rw [calls, hc]; simp only [List.append_assoc]) needs

theorem setUp_asked (c : Command) (l' : Line (List Oracle)) (hc : l'.calls = (l.ask h c).calls)
    (hu : needsReconnect (replyAt l.srv 0) = true → l'.usable = false)
    (hr : needsReconnect (replyAt l.srv 0) = true → Settled r) : SetUp h remote l false r l' := by
  cases hn : needsReconnect (replyAt l.srv 0) with
  | false => exact .kept hc ((calm_asking h c _).append (calm_recv hn))
  | true => exact .lost _ _ hc (calm_asking h c _) (hu hn) (hr hn)

/-- `REST 0` and the rest behind a failed `RETR`. -/
theorem SetUp.behind
    (hs : SetUp h remote (l.ask h (.retrAsStream remote)) false r l') {e : FtpError}
    (hr : replyAt l.srv 0 = .error e)
    (hc : ∃ rest, l'.calls = (l.ask h (.retrAsStream remote)).calls ++
      ⟨.send h (.resumeTransfer 0), ()⟩ :: rest) :
    SetUp h remote l (transferSetupRequiresReconnect e) r l' := by
  cases hn : transferSetupRequiresReconnect e with
  | false => exact hs.after rfl ((calm_asking h _ _).append (calm_recv (by rw [hr]; exact hn)))
  | true =>
    obtain ⟨rest, hc⟩ := hc
    refine .passed (asking h (.retrAsStream remote) (l.builderFails h)) rest e ?_ hn
    rw [hc, Line.ask, hr]
    simp only [List.append_assoc]
    rfl

theorem SetUp.mark (hs : SetUp h remote l b r l') (bad : Bool) :
    SetUp h remote l b r (l'.mark bad) := by
  cases hs with
  | kept calls calm => exact .kept calls calm
  | lost evs ev calls calm usable settled =>
    exact .lost evs ev calls calm (by simp [Line.mark, usable]) settled
  | passed pre post e calls needs => exact .passed pre post e calls needs

theorem settled_map {α : Type} {reply : FtpResult Response} (a : α)
    (hn : needsReconnect reply = true) :
    Settled (.ok (reply.map fun _ => a) : RemoteResult (FtpResult α)) := by
  cases reply with
  | ok _ => cases hn
  | error e => exact hn

end

/-! ## Running the setup -/

section
variable {β : Type} (X : Ext) (f : Frame) (l : Line (List Oracle)) (h : Conn) (remote : Str)

/-- How `open` retrieves once the offset is settled. -/
def retrieve (stream : Conn) (remote : Str) (resumed : Bool) :
    Io (RemoteResult (FtpResult (Conn × Bool))) := do
  let result ← call stream (.retrAsStream remote)
  if resumed && result.isOk = false then
    match ← call stream (.resumeTransfer 0) with
    | .ok _ =>
      let result ← call stream (.retrAsStream remote)
      FtpFs.recordFtpResult result
      let result ← FtpFs.withTransfer result (stream, false)
      pure (.ok result)
    | .error error =>
      FtpFs.markConnectionUnusable
      pure (.error (ftpError error))
  else
    FtpFs.recordFtpResult result
    let result ← FtpFs.withTransfer result (stream, resumed)
    pure (.ok result)

theorem openTransfer_eq (offset : Nat) : FtpFs.openTransfer X h remote offset = (do
    match ← (if 0 < offset then requestOffset X call h offset else pure (.ok false)) with
    | .error e => pure (.error e)
    | .ok resumed => retrieve h remote resumed) := rfl

theorem eval_retrieve (resumed : Bool) (k : RemoteResult (FtpResult (Conn × Bool)) → Io β) :
    ∃ r act l', Prog.eval (alone scripted) (retrieve h remote resumed >>= k) ⟨f, l⟩ =
        Prog.eval (alone scripted) (k r) ⟨{ f with active := act }, l'⟩ ∧
      SetUp h remote l (resumed && needsReconnect (replyAt l.srv 0)) r l' := by
  unfold retrieve
  simp only [bind_assoc]
  rw [eval_call]
  cases hre : resumed && (replyAt l.srv 0).isOk = false with
  | false =>
    simp only [Bool.false_eq_true, if_false, bind_assoc, pure_bind]
    rw [eval_settle]
    refine ⟨_, _, _, rfl, ?_⟩
    have hb : (resumed && needsReconnect (replyAt l.srv 0)) = false := by
      cases hr : replyAt l.srv 0 with
      | ok a => simp [needsReconnect]
      | error e => cases resumed <;> simp [hr, Except.isOk, Except.toBool] at hre ⊢
    rw [hb]
    exact setUp_asked _ _ rfl (fun hn => by simp [Line.mark, hn]) (settled_map _)
  | true =>
    simp only [if_true, bind_assoc]
    obtain ⟨rfl, hfail⟩ : resumed = true ∧ (replyAt l.srv 0).isOk = false := by simpa using hre
    cases hr : replyAt l.srv 0 with
    | ok a => simp [hr, Except.isOk, Except.toBool] at hfail
    | error e =>
      show ∃ r act l', _ ∧ SetUp h remote l (transferSetupRequiresReconnect e) r l'
      rw [eval_call]
      cases hr' : replyAt (l.ask h (.retrAsStream remote)).srv 0 with
      | ok a =>
        simp only [bind_assoc, pure_bind]
        rw [eval_call, eval_settle]
        let l₂ := (l.ask h (.retrAsStream remote)).ask h (.resumeTransfer 0)
        have hs : SetUp h remote l₂ false (.ok ((replyAt l₂.srv 0).map fun _ => (h, false)))
            ((l₂.ask h (.retrAsStream remote)).mark (needsReconnect (replyAt l₂.srv 0))) :=
          setUp_asked _ _ rfl (fun hn => by simp [Line.mark, hn]) (settled_map _)
        refine ⟨_, _, _, rfl, SetUp.behind (hs.after rfl ?_) hr ?_⟩
        · exact (calm_asking h _ _).append (calm_recv (by rw [hr']; rfl))
        · exact ⟨_, List.append_assoc _ _ _⟩
      | error e' =>
        simp only [bind_assoc, pure_bind]
        rw [FtpFs.markConnectionUnusable, eval_store]
        let l₁ := l.ask h (.retrAsStream remote)
        have hs : SetUp h remote l₁ false (.error (ftpError e'))
            { l₁.ask h (.resumeTransfer 0) with usable := false } :=
          setUp_asked _ _ rfl (fun _ => rfl) fun _ => trivial
        exact ⟨_, f.active, _, rfl, hs.behind hr ⟨_, rfl⟩⟩

/-- What `request_offset` makes of the reply to `REST`. -/
def restAnswer (reply : FtpResult Response) : RemoteResult Bool :=
  match reply with
  | .ok _ => .ok true
  | .error (.unexpectedResponse response) =>
    if response.status ≠ .notAvailable then .ok false
    else .error (ftpError (.unexpectedResponse response))
  | .error error => .error (ftpError error)

theorem requestOffset_eq {offset : Nat} (ho : offset ≤ X.usizeMax) :
    requestOffset X call h offset = (do
      let reply ← call h (.resumeTransfer offset)
      pure (restAnswer reply)) := by
  unfold requestOffset
  rw [if_neg (Nat.not_lt.mpr ho)]
  refine congrArg _ (funext fun reply => ?_)
  cases reply with
  | ok a => rfl
  | error e =>
    cases e with
    | unexpectedResponse response =>
      dsimp only [restAnswer]
      split <;> rfl
    | _ => rfl

/-- No `REST` where there is no offset, or none the target can count to. -/
theorem requestNone {offset : Nat} (ho : ¬ (0 < offset ∧ offset ≤ X.usizeMax)) :
    (if 0 < offset then requestOffset X call h offset else pure (.ok false)) =
      (pure (.ok false) : Io (RemoteResult Bool)) := by
  split
  · unfold requestOffset
    rw [if_pos (by omega)]
  · rfl

theorem restAnswer_ok {reply : FtpResult Response} {resumed : Bool}
    (hr : restAnswer reply = .ok resumed) :
    needsReconnect reply = false ∧ reply.isOk = resumed := by
  cases reply with
  | ok a => cases hr; exact ⟨rfl, rfl⟩
  | error e =>
    cases e with
    | unexpectedResponse response =>
      unfold restAnswer at hr
      dsimp only at hr
      split at hr
      · cases hr
        refine ⟨?_, rfl⟩
        simpa [needsReconnect, transferSetupRequiresReconnect] using ‹_›
      · cases hr
    | _ => cases hr

theorem restAnswer_error {reply : FtpResult Response} {e : RemoteError}
    (hr : restAnswer reply = .error e) :
    reply.isOk = false ∧ (needsReconnect reply = true → remoteErrorRequiresReconnect e = true) := by
  cases reply with
  | ok a => cases hr
  | error err =>
    refine ⟨rfl, fun hn => ?_⟩
    obtain rfl : e = ftpError err := by
      cases err with
      | unexpectedResponse response =>
        unfold restAnswer at hr
        dsimp only at hr
        split at hr
        · cases hr
        · cases hr; rfl
      | _ => cases hr; rfl
    exact hn

/-- The server accepts the offset and the first `RETR` is lost. -/
def retries (offset : Nat) (os : List Oracle) : Bool :=
  decide (0 < offset ∧ offset ≤ X.usizeMax) && (replyAt os 0).isOk && needsReconnect (replyAt os 1)

theorem replyAt_ask (c : Command) (n : Nat) : replyAt (l.ask h c).srv n = replyAt l.srv (n + 1) := by
  obtain ⟨os, calls, usable, banner, hasBuilder, next⟩ := l
  cases os with
  | nil => rfl
  | cons o os => rfl

/-- The setup in its section, up to what the section records at its end. -/
theorem eval_openTransfer (offset : Nat) (k : RemoteResult (FtpResult (Conn × Bool)) → Io β) :
    ∃ r act l', Prog.eval (alone scripted) (do
        let result ← FtpFs.openTransfer X h remote offset
        FtpFs.recordRemoteResult result
        k result) ⟨f, l⟩ =
        Prog.eval (alone scripted) (k r) ⟨{ f with active := act }, l'⟩ ∧
      SetUp h remote l (retries X offset l.srv) r l' := by
  rw [openTransfer_eq]
  simp only [bind_assoc]
  by_cases ho : 0 < offset ∧ offset ≤ X.usizeMax
  · rw [if_pos ho.1, requestOffset_eq X h ho.2]
    simp only [bind_assoc, pure_bind]
    rw [eval_call]
    cases hr : restAnswer (replyAt l.srv 0) with
    | error e =>
      obtain ⟨hok, hfatal⟩ := restAnswer_error hr
      have hb : retries X offset l.srv = false := by simp [retries, hok]
      simp only [pure_bind]
      rw [eval_recordRemoteResult, hb]
      refine ⟨_, f.active, _, rfl, setUp_asked (.resumeTransfer offset) _ rfl ?_ fun _ => trivial⟩
      intro hn
      simp [Line.mark, fatal, hfatal hn]
    | ok resumed =>
      obtain ⟨hn, hok⟩ := restAnswer_ok hr
      let l₁ := l.ask h (.resumeTransfer offset)
      obtain ⟨r, act, l', he, hs⟩ := eval_retrieve f l₁ h remote resumed fun result => do
        FtpFs.recordRemoteResult result
        k result
      have hb : retries X offset l.srv = (resumed && needsReconnect (replyAt l₁.srv 0)) := by
        simp [retries, ho, hok, l₁, replyAt_ask]
      rw [hb]
      refine ⟨r, act, l'.mark (fatal r), he.trans (eval_recordRemoteResult _ _ _ _), ?_⟩
      exact (hs.after rfl ((calm_asking h _ _).append (calm_recv hn))).mark _
  · obtain ⟨r, act, l', he, hs⟩ := eval_retrieve f l h remote false fun result => do
      FtpFs.recordRemoteResult result
      k result
    have hb : retries X offset l.srv = false := by simp [retries, ho]
    rw [requestNone X h ho, hb]
    exact ⟨r, act, l'.mark (fatal r), he.trans (eval_recordRemoteResult _ _ _ _), hs.mark _⟩

end

/-! ## After the setup -/

section
variable (X : Ext) (path : Path) (opts : ReadOptions)

/-- What `open` does with the result of its section. -/
def afterSetup (r : RemoteResult (FtpResult (Conn × Bool))) : Io (RemoteResult ReadStream) := do
  match r with
  | .error e => pure (.error e)
  | .ok result =>
    match ← FtpFs.mapRefusal result ((FtpFs.client X).classifyFileRefusal path) with
    | .error e => pure (.error e)
    | .ok (transfer, resumed) =>
      let reader := FtpReadStream.new transfer opts.length
      if 0 < opts.offset.getD 0 ∧ resumed = false then
        match ← FtpReadStream.skipPrefix X reader (opts.offset.getD 0) with
        | (.error skip, reader) =>
          let e ← FtpReadStream.finishAfterSkip X reader skip
          pure (.error e)
        | (.ok (), reader) => pure (.ok reader)
      else pure (.ok reader)

theorem open_eq : FtpFs.open' X path opts = withRemotePath path fun remote =>
    FtpFs.withStream (fun stream => FtpFs.openTransfer X stream remote (opts.offset.getD 0)) >>=
      afterSetup X path opts := rfl

theorem afterSetup_settled {r : RemoteResult (FtpResult (Conn × Bool))} (hr : Settled r) :
    ∃ e, afterSetup X path opts r = pure (.error e) := by
  cases r with
  | error e => exact ⟨e, rfl⟩
  | ok r =>
    cases r with
    | ok _ => cases hr
    | error e =>
      have hfile : isFileUnavailable e = false := by
        cases hf : isFileUnavailable e with
        | false => rfl
        | true =>
          have := not_requiresReconnect_of_isCreationRefusal (isCreationRefusal_of_isFileUnavailable hf)
          rw [show transferSetupRequiresReconnect e = true from hr] at this
          cases this
      refine ⟨ftpError e, ?_⟩
      simp [afterSetup, FtpFs.mapRefusal, Client.classifyFileRefusal, hfile]

theorem does_afterSetup (r : RemoteResult (FtpResult (Conn × Bool))) :
    Does (Plain true true false Listing) (afterSetup X path opts r) := by
  have hC : DoesClient (Plain true true false Listing) (FtpFs.client X) := FtpFs.doesClient X fun _ h => h
  cases r with
  | error e => exact does_pure _
  | ok result =>
    refine does_seq (does_mapRefusal (hC.classifyFileRefusal path)) fun r => ?_
    split
    · exact does_pure _
    dsimp only
    split
    · refine does_seq (FtpReadStream.does_skipPrefix _ _) fun r => ?_
      split
      · exact does_seq (FtpReadStream.does_finishAfterSkip _ _) fun _ => does_pure _
      · exact does_pure _
    · exact does_pure _

end

/-- A program that only lists loses no call of a setup. -/
theorem calm_of_lists {α σ : Type} {V : Server σ} {p : Io α} {mv xf look : Bool}
    (hp : Does (Plain mv xf look Listing) p) {x y : Session σ} {a : α}
    (he : Prog.eval (alone V) p x = some (a, y)) : ∃ evs, y.calls = x.calls ++ evs ∧ Calm evs := by
  obtain ⟨evs, hc, ht⟩ := eval_calls he
  refine ⟨evs, hc, ?_⟩
  rintro ev hev h ⟨c, e, hset, -, rfl⟩
  obtain ⟨path, -, rfl⟩ : Listing c := Prog.Always.takes hp (ht _ hev)
  cases hset

/-! ## Lost replies -/

/-- Behind a lost call of the setup nothing more is sent on its control stream,
and the connection ends up unusable. -/
def Reported (evs : List (Event ftp)) (usable : Bool) : Prop :=
  ∀ pre ev post h, evs = pre ++ ev :: post → Lost h ev →
    (∀ c, ⟨.send h c, ()⟩ ∉ post) ∧ usable = false

theorem Calm.reported {evs : List (Event ftp)} (h : Calm evs) (usable : Bool) :
    Reported evs usable := by
  rintro pre ev post g rfl hev
  exact (h ev (by simp) g hev).elim

theorem Calm.reported_last {evs : List (Event ftp)} (h : Calm evs) (last : Event ftp) :
    Reported (evs ++ [last]) false := by
  intro pre ev post g hpost hev
  refine ⟨fun c => ?_, rfl⟩
  rcases List.eq_nil_or_concat post with rfl | ⟨post, x, rfl⟩
  · simp
  · have hevs : evs ++ [last] = (pre ++ ev :: post) ++ [x] := by simpa using hpost
    obtain ⟨rfl, -⟩ := List.append_inj' hevs rfl
    exact (h ev (by simp) g hev).elim

/-- The run of `p` reports what its setup loses. -/
def Keeps {α : Type} (p : Io α) (x : Session (List Oracle)) : Prop :=
  ∃ a y evs, Prog.eval (alone scripted) p x = some (a, y) ∧ y.calls = x.calls ++ evs ∧
    Reported evs y.usable

theorem keeps_iff {α : Type} {p : Io α} {x y : Session (List Oracle)} {a : α} {evs : List (Event ftp)}
    (he : Prog.eval (alone scripted) p x = some (a, y)) (hc : y.calls = x.calls ++ evs) :
    Keeps p x ↔ Reported evs y.usable := by
  constructor
  · rintro ⟨b, z, evs', hz, hc', hr⟩
    obtain ⟨-, rfl⟩ := Prod.mk.inj (Option.some.inj (he.symm.trans hz))
    rw [List.append_cancel_left (hc.symm.trans hc')]
    exact hr
  · exact fun hr => ⟨a, y, evs, he, hc, hr⟩

/-- `open` gets to its setup, and there its first `RETR` is lost behind an
offset the server accepted. -/
def retriesLost (X : Ext) (path : Path) (opts : ReadOptions) (x : Session (List Oracle)) : Bool :=
  (remotePath path).isOk && (gate x.toFrame x.usable).isOk && retries X (opts.offset.getD 0) x.srv

theorem open_keeps (X : Ext) (path : Path) (opts : ReadOptions) {x : Session (List Oracle)}
    (hx : x.locked = false) :
    Keeps (FtpFs.open' X path opts) x ↔ retriesLost X path opts x = false := by
  -- the run returns
  obtain ⟨a, y, -, hrun, -⟩ := sim_open (V := scripted) X path opts x
    ⟨{ x.toFrame with connected := x.slot.isSome }, x.toLine⟩ ⟨rfl, hx, hx, rfl, rfl, rfl⟩
  have hrefused {e : RemoteError} (he : Prog.eval (alone scripted) (FtpFs.open' X path opts) x =
      some (.error e, x)) : Keeps (FtpFs.open' X path opts) x :=
    ⟨_, x, [], he, by simp, Calm.reported (by simp [Calm]) _⟩
  unfold retriesLost
  rw [open_eq] at hrun hrefused ⊢
  unfold withRemotePath at hrun hrefused ⊢
  cases hp : remotePath path with
  | error e =>
    rw [hp] at hrefused
    simpa [Except.isOk, Except.toBool] using hrefused rfl
  | ok remote =>
    rw [hp] at hrun hrefused
    simp only at hrun hrefused ⊢
    cases hg : gate x.toFrame x.usable with
    | error e =>
      simpa [Except.isOk, Except.toBool] using
        hrefused (eval_withStream_error x.toLine hx hg _ (afterSetup X path opts))
    | ok h =>
      obtain ⟨r, act, l', he, hs⟩ := eval_openTransfer X { x.toFrame with locked := true } x.toLine h
        remote (opts.offset.getD 0) fun result => do
          FtpFs.unlock
          afterSetup X path opts result
      have hin := eval_withStream_ok (V := scripted) x.toLine hx hg
        (fun stream => FtpFs.openTransfer X stream remote (opts.offset.getD 0)) (afterSetup X path opts)
      replace he := (hin.trans he).trans
        (eval_unlock x.slot act x.connected x.welcome l' (afterSetup X path opts r))
      have hrest := he.symm.trans hrun
      obtain ⟨evs, hc, hcalm⟩ := calm_of_lists (does_afterSetup X path opts r) hrest
      show Keeps _ x ↔ retries X (opts.offset.getD 0) x.srv = false
      generalize retries X (opts.offset.getD 0) x.srv = b at hs ⊢
      cases hs with
      | kept calls calm =>
        rw [calls, List.append_assoc] at hc
        rw [keeps_iff hrun hc]
        exact iff_of_true ((calm.append hcalm).reported _) rfl
      | lost evs' ev calls calm usable settled =>
        obtain ⟨e, hafter⟩ := afterSetup_settled X path opts settled
        rw [hafter] at hrest
        cases hrest
        rw [keeps_iff hrun calls]
        refine iff_of_true ?_ rfl
        show Reported _ l'.usable
        rw [usable]
        exact calm.reported_last ev
      | passed pre post e calls needs =>
        rw [calls, List.append_assoc] at hc
        rw [keeps_iff hrun hc]
        refine iff_of_false (fun hr => ?_) (by simp)
        refine (hr pre _ _ h (List.append_assoc ..) ⟨_, e, rfl, needs, rfl⟩).1 (.resumeTransfer 0) ?_
        simp

/-- The Tokio client sends the same and ends with the same flag. -/
theorem tokio_open_keeps (X : Ext) (path : Path) (opts : ReadOptions) {x : Session (List Oracle)}
    (hx : x.locked = false) :
    Keeps (TokioFtpFs.open' X path opts) x ↔ Keeps (FtpFs.open' X path opts) x := by
  obtain ⟨a, y, y', hy, hy', hl, -⟩ := sim_open (V := scripted) X path opts x
    ⟨{ x.toFrame with connected := x.slot.isSome }, x.toLine⟩ ⟨rfl, hx, hx, rfl, rfl, rfl⟩
  rw [eval_mirror (TokioFtpFs.does_open path opts)] at hy'
  obtain ⟨⟨b, z⟩, hz, hb⟩ := Option.map_eq_some_iff.mp hy'
  obtain ⟨rfl, rfl⟩ := Prod.mk.inj hb
  replace hl : y.toLine = z.toLine := hl
  obtain ⟨evs, hc, -⟩ := eval_calls hy
  have hcalls : y.calls = z.calls := congrArg Line.calls hl
  have husable : y.usable = z.usable := congrArg Line.usable hl
  rw [keeps_iff hy hc, keeps_iff hz (hcalls ▸ hc), husable]

/-- **Lost replies while a download is opened.** With every sequence of
answers, `open` of either client sends nothing behind a lost call of its setup
and leaves the connection unusable, exactly unless the first `RETR` is lost
behind an offset the server accepted. -/
theorem open_keeps_lost (X : Ext) (path : Path) (opts : ReadOptions) (x : Session (List Oracle))
    (hx : x.locked = false) :
    (Keeps (FtpFs.open' X path opts) x ↔ retriesLost X path opts x = false) ∧
      (Keeps (TokioFtpFs.open' X path opts) x ↔ retriesLost X path opts x = false) :=
  ⟨open_keeps X path opts hx, (tokio_open_keeps X path opts hx).trans (open_keeps X path opts hx)⟩

/-- A connected client, with the replies it will get. -/
def connected (replies : List (FtpResult Response)) : Session (List Oracle) where
  slot := some 0
  locked := false
  active := false
  connected := true
  welcome := none
  srv := replies.map fun reply => { reply := reply }
  calls := []
  usable := true
  banner _ := none
  hasBuilder _ := false
  next := 1

/-- The second `RETR` is lost: the failure is reported. -/
theorem open_keeps_lost_again :
    Keeps (FtpFs.open' rowExt ['/', 'f'] { offset := some 1 })
        (connected [.ok ⟨.other 350, []⟩, .error (.unexpectedResponse ⟨.fileUnavailable, []⟩),
          .ok ⟨.other 350, []⟩, .error .badResponse]) ∧
      Keeps (TokioFtpFs.open' rowExt ['/', 'f'] { offset := some 1 })
        (connected [.ok ⟨.other 350, []⟩, .error (.unexpectedResponse ⟨.fileUnavailable, []⟩),
          .ok ⟨.other 350, []⟩, .error .badResponse]) :=
  ⟨(open_keeps_lost _ _ _ _ rfl).1.mpr (by decide), (open_keeps_lost _ _ _ _ rfl).2.mpr (by decide)⟩

/-- The first `RETR` is answered with garbage, everything else goes well. -/
def lostRetr : Session (List Oracle) :=
  connected [.ok ⟨.other 350, []⟩, .error .badResponse, .ok ⟨.other 350, []⟩, .ok ⟨.aboutToSend, []⟩]

/-- **The defect**: both clients go on behind the lost reply, and return a
stream with the connection counting as usable. -/
theorem open_forgets_lost :
    ¬ Keeps (FtpFs.open' rowExt ['/', 'f'] { offset := some 1 }) lostRetr ∧
      ¬ Keeps (TokioFtpFs.open' rowExt ['/', 'f'] { offset := some 1 }) lostRetr ∧
      (Prog.eval (alone scripted) (FtpFs.open' rowExt ['/', 'f'] { offset := some 1 }) lostRetr).map
          (fun y => (y.1.isOk, y.2.usable)) = some (true, true) ∧
      (Prog.eval (alone scripted) (TokioFtpFs.open' rowExt ['/', 'f'] { offset := some 1 })
          lostRetr).map (fun y => (y.1.isOk, y.2.usable)) = some (true, true) := by
  have hsync : ¬ Keeps (FtpFs.open' rowExt ['/', 'f'] { offset := some 1 }) lostRetr :=
    (not_congr (open_keeps rowExt _ _ rfl)).mpr (by decide)
  refine ⟨hsync, (not_congr (tokio_open_keeps rowExt _ _ rfl)).mpr hsync, ?_, ?_⟩ <;> decide +kernel

end RemotefsFtp.L4
