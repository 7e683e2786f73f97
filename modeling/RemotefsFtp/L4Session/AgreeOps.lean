import RemotefsFtp.L4Session.Agree

/-!
# Both clients do the same, operation by operation

One simulation for each operation and each call on a stream, from two clients
at rest (`Rest`) to two at rest, with the same result and the same exchange
with the server. `Script` puts them together over whole scripts.

Results:
* **`sim_open`**, **`sim_upload`**: the operations that open a transfer; both
  clients record a failure, or raise the flag, before they release the mutex.
* **`sim_exec`**: the Tokio client records after the release.
* **`sim_removeDir`**: only the blocking client records a failure twice.
* **`sim_read`**, **`sim_finishReader`**, **`sim_finishWriter`**: the streams,
  which the blocking client reads and ends in its own code.
* **`sim_connect`**, **`sim_disconnect`**: only the Tokio client has caches to
  clear.
-/
namespace RemotefsFtp.L4

open L1 (Str Path)
open L2 L3
open Core (Prog Event Machine)

variable {σ α β : Type} {V : Server σ} {F G H : Frame → Frame → Prop}

/-! ## Operations -/

/-- A rejected path costs neither client a step. -/
theorem sim_withRemotePath {path : Path} {k k' : Str → Io (RemoteResult α)}
    (hk : ∀ remote, SimF V Rest (k remote) (k' remote) Rest) :
    SimF V Rest (withRemotePath path k) (withRemotePath path k') Rest := by
  unfold withRemotePath
  split
  · exact sim_pure _
  · exact hk _

theorem sim_unsupported (paths : List Path) :
    SimF V Rest (unsupported paths) (unsupported paths) Rest := by
  induction paths with
  | nil => exact sim_pure _
  | cons path rest ih => exact sim_withRemotePath fun _ => ih

/-- The probes of a refusal run with both clients at rest. -/
theorem sim_mapRefusal {r : FtpResult α} {f f' : FtpError → Io RemoteError}
    (h : ∀ e, SimF V Rest (f e) (f' e) Rest) :
    SimF V Rest (FtpFs.mapRefusal r f) (FtpFs.mapRefusal r f') Rest := by
  cases r with
  | ok a => exact sim_pure _
  | error e => exact sim_seq (h e) fun _ => sim_pure _

/-- Commands with a classified refusal: the same command, then the same probes. -/
theorem sim_createDir (X : Ext) (path : Path) :
    SimF V Rest (FtpFs.createDir X path) (TokioFtpFs.createDir X path) Rest := by
  refine sim_withRemotePath fun remote => sim_seq (sim_command _) fun r => ?_
  split
  · exact sim_pure _
  · exact sim_pure _
  · refine sim_ite _ (sim_seq ?_ fun _ => sim_pure _) (sim_pure _)
    exact (clients_probe X).classifyCreateDirRefusal path _

theorem sim_removeFile (X : Ext) (path : Path) :
    SimF V Rest (FtpFs.removeFile X path) (TokioFtpFs.removeFile X path) Rest := by
  refine sim_withRemotePath fun remote => sim_seq (sim_command _) fun r => ?_
  split
  · exact sim_pure _
  · exact sim_seq (sim_mapRefusal ((clients_probe X).classifyFileRefusal path)) fun _ => sim_pure _

theorem sim_rename (X : Ext) (src dest : Path) :
    SimF V Rest (FtpFs.rename X src dest) (TokioFtpFs.rename X src dest) Rest := by
  refine sim_withRemotePath fun _ => sim_withRemotePath fun _ => sim_seq (sim_command _) fun r => ?_
  split
  · exact sim_pure _
  · exact sim_seq (sim_mapRefusal ((clients_probe X).classifyRenameRefusal src dest)) fun _ =>
      sim_pure _

/-- A plain command whose failure needs a reconnect has recorded it. -/
theorem command_recorded {c : Command} {f : Frame} (hf : f.locked = false) {l : Line σ}
    {y : Session σ} {e : FtpError}
    (h : Prog.eval (alone V) (FtpFs.command c) ⟨f, l⟩ = some (.ok (.error e), y))
    (he : transferSetupRequiresReconnect e = true) : y.usable = false := by
  rw [← bind_pure (FtpFs.command c)] at h
  cases hg : gate f l.usable with
  | error e =>
    have h := (eval_withStream_error l hf hg _ _).symm.trans h
    cases h
  | ok stream =>
    have h := (eval_withStream_ok l hf hg _ _).symm.trans h
    simp only [bind_assoc, pure_bind] at h
    rw [Prog.bind_eq, Prog.eval_bind, eval_onLine (same_call (V := V) stream c).left] at h
    obtain ⟨_, hr, h⟩ := Option.bind_eq_some_iff.mp h
    obtain ⟨⟨r, m⟩, -, rfl⟩ := Option.map_eq_some_iff.mp hr
    cases r with
    | ok a => cases h
    | error e' =>
      cases he' : transferSetupRequiresReconnect e' with
      | true =>
        simp only [FtpFs.recordFtpResult, FtpFs.recordFtpError, he', if_true] at h
        cases h
        rfl
      | false =>
        simp only [FtpFs.recordFtpResult, FtpFs.recordFtpError, he', Bool.false_eq_true,
          if_false] at h
        cases h
        rw [he'] at he
        cases he

/-- Marking a connection that is marked changes nothing. -/
theorem eval_remark {f : Frame} {l : Line σ} (hu : l.usable = false) (p : Io α) :
    Prog.eval (alone V) (FtpFs.markConnectionUnusable >>= fun _ => p) ⟨f, l⟩ =
      Prog.eval (alone V) p ⟨f, l⟩ := by
  obtain ⟨slot, locked, active, connected, welcome⟩ := f
  obtain ⟨srv, calls, usable, banner, hasBuilder, next⟩ := l
  subst hu
  cases locked <;> rfl

/-- `remove_dir` of the blocking client records a failure a second time. -/
theorem sim_removeDir (X : Ext) (path : Path) :
    SimF V Rest (FtpFs.removeDir X path) (TokioFtpFs.removeDir X path) Rest := by
  refine sim_withRemotePath fun remote => ?_
  have hcommand : Prog.Sim (alone V) (alone V) (Over Rest) (FtpFs.command (.rmdir remote))
      (TokioFtpFs.runCommand (.rmdir remote)) fun a x y => Over Rest x y ∧
        ∀ e, a = .ok (.error e) → transferSetupRequiresReconnect e = true → x.usable = false := by
    rintro ⟨f, l⟩ y hxy
    obtain ⟨a, v, v', he, he', hr⟩ := sim_command (.rmdir remote) ⟨f, l⟩ y hxy
    exact ⟨a, v, v', he, he', hr, fun e ha hrec => command_recorded hxy.frames.free (ha ▸ he) hrec⟩
  refine Prog.Sim.bind hcommand fun r => ?_
  rcases r with e | err | _
  · exact Prog.sim_ret fun _ _ h => h.1
  · rintro ⟨f, l⟩ y ⟨hxy, hu⟩
    have hclassify : SimF V Rest (do
        let error ← (FtpFs.client X).classifyRemoveDirRefusal path err
        pure (FtpFs.asUnit (.error error : RemoteResult Response))) (do
        let error ← (TokioFtpFs.client X).classifyRemoveDirRefusal path err
        pure (FtpFs.asUnit (.error error : RemoteResult Response))) Rest :=
      sim_seq ((clients_probe X).classifyRemoveDirRefusal path err) fun _ => sim_pure _
    obtain ⟨a, v, v', he, he', hr⟩ := hclassify ⟨f, l⟩ y hxy
    refine ⟨a, v, v', ?_, ?_, hr⟩
    · simp only [FtpFs.mapRefusal, bind_assoc, pure_bind]
      cases hrec : transferSetupRequiresReconnect err with
      | true =>
        have hmark : FtpFs.recordFtpError err = FtpFs.markConnectionUnusable := if_pos hrec
        rw [hmark]
        exact (eval_remark (hu err rfl hrec) _).trans he
      | false =>
        have hmark : FtpFs.recordFtpError err = pure () := if_neg (by simp [hrec])
        rw [hmark]
        exact he
    · simp only [FtpFs.mapRefusal, bind_assoc, pure_bind]
      exact he'
  · exact Prog.sim_ret fun _ _ h => h.1

/-! ### Transfers -/

/-- Under the mutex both raise the flag and make the guard. -/
theorem sim_startTransfer {h : Conn} :
    SimF V (Inside h false) FtpFs.startTransfer FtpFs.startTransfer (Inside h true) := by
  rintro ⟨f, l⟩ ⟨g, l'⟩ ⟨hl, hF⟩
  obtain rfl : l = l' := hl
  obtain ⟨slot, locked, active, connected, welcome⟩ := f
  obtain ⟨slot', locked', active', connected', welcome'⟩ := g
  obtain rfl : locked = true := hF.locked
  obtain rfl : locked' = true := hF.locked'
  exact ⟨(), _, _, rfl, rfl, rfl, rfl, rfl, hF.slot, hF.slot', rfl, rfl, hF.connected⟩

/-- Both record a failed transfer, or start it, before they release the mutex. -/
theorem sim_transfer {h : Conn} (r : FtpResult Response) (a : α) {k k' : FtpResult α → Io β}
    (hk : ∀ r, SimF V Rest (k r) (k' r) Rest) :
    SimF V (Inside h false) (do
      FtpFs.recordFtpResult r
      let r ← FtpFs.withTransfer r a
      FtpFs.unlock
      k r) (do
      FtpFs.recordFtpResult r
      let r ← FtpFs.withTransfer r a
      TokioFtpFs.complete
      k' r) Rest := by
  refine sim_seq (sim_same (same_recordFtpResult r)) fun _ => ?_
  cases r with
  | ok _ =>
    simp only [FtpFs.withTransfer, bind_assoc, pure_bind]
    exact sim_seq sim_startTransfer fun _ => sim_release (p := pure ()) (same_pure ()) fun _ => hk _
  | error e => exact sim_release (p := pure ()) (same_pure ()) fun _ => hk _

/-- `create` and `append`. -/
theorem sim_upload (X : Ext) (c : Str → Command) (path : Path) :
    SimF V Rest (FtpFs.upload X c path) (TokioFtpFs.upload X c path) Rest := by
  refine sim_withRemotePath fun remote => sim_section (fun _ => rfl) fun h => ?_
  simp only [bind_assoc, pure_bind]
  refine sim_seq (sim_guarded_call h _) fun r => sim_transfer r h fun r => ?_
  refine sim_seq (sim_mapRefusal ((clients_probe X).classifyCreateRefusal path)) fun r => ?_
  split <;> exact sim_pure _

/-- The section of `open`. Behind it the blocking client's `with_stream` records the
result: the one record of a failed `REST`, a second one of a failed reset. -/
theorem sim_openTransfer (X : Ext) {h : Conn} {remote : Str} {offset : Nat}
    {k k' : RemoteResult (FtpResult (Conn × Bool)) → Io β}
    (hk : ∀ r, SimF V Rest (k r) (k' r) Rest) :
    SimF V (Inside h false) (do
      let result ← FtpFs.openTransfer X h remote offset
      FtpFs.recordRemoteResult result
      FtpFs.unlock
      k result) (do
      let result ← TokioFtpFs.openTransfer X h remote offset
      k' result) Rest := by
  have hoffset : SimF V (Inside h false)
      (if 0 < offset then requestOffset X call h offset else pure (.ok false))
      (if 0 < offset then TokioFtpFs.guarded (requestOffset X TokioFtpFs.call h offset)
        else pure (.ok false)) (Inside h false) := by
    split
    · exact sim_holding (sim_same (same_requestOffset X h offset))
    · exact sim_pure _
  unfold FtpFs.openTransfer TokioFtpFs.openTransfer
  simp only [bind_assoc]
  refine sim_seq hoffset fun r => ?_
  cases r with
  | error e =>
    simp only [bind_assoc, pure_bind]
    exact sim_seq (sim_same (same_recordRemoteError e)) fun _ =>
      sim_release (p := pure ()) (same_pure ()) fun _ => hk _
  | ok resumed =>
    simp only [bind_assoc]
    refine sim_seq (sim_guarded_call h _) fun r => ?_
    split
    · simp only [bind_assoc]
      refine sim_seq (sim_guarded_call h _) fun r' => ?_
      cases r' with
      | ok _ =>
        simp only [bind_assoc, pure_bind]
        exact sim_seq (sim_guarded_call h _) fun r => sim_transfer r _ fun r => hk _
      | error error =>
        simp only [bind_assoc, pure_bind]
        -- the reset failed: the blocking client marks the connection, then records again
        have hmark := sim_same (F := Inside h false)
          (same_mark_twice (V := V) (.error (ftpError error) : RemoteResult (FtpResult (Conn × Bool))))
        have hend : SimF V (Inside h false) (do
            FtpFs.unlock
            k (.error (ftpError error))) (do
            TokioFtpFs.complete
            k' (.error (ftpError error))) Rest :=
          sim_release (p := pure ()) (same_pure ()) fun _ => hk _
        simpa only [bind_assoc] using sim_seq hmark fun _ => hend
    · simp only [bind_assoc, pure_bind]
      exact sim_transfer r _ fun r => hk _

/-! ### Streams -/

/-- A stream on a transfer of `h`. -/
abbrev reading (h : Conn) (remaining : Option Nat) (atEof : Bool) : ReadStream :=
  ⟨some h, remaining, atEof⟩

/-- Draining and finalizing take the same steps; the Tokio client may be dropped
between them, and is not. -/
theorem same_finishRead (X : Ext) (h : Conn) (atEof : Bool) :
    Same V (FtpReadStream.finishRead X h atEof) (TokioReadStream.finishRead X h atEof) := by
  refine Same.holding ?_ (by simp [onLine])
  have hfinish : ∀ drained : RemoteResult Unit, Same V (do
      let finished ← step (.finish h)
      pure (cleanupOutcome .drain (fun drain _ => drain.kind) drained (mapFtpError finished))) (do
      let finished ← await (.finish h)
      pure (cleanupOutcome .drain (fun drain _ => drain.kind) drained (mapFtpError finished))) :=
    fun _ => same_awaited rfl fun _ => same_pure _
  cases atEof with
  | true => exact hfinish _
  | false => exact same_awaited rfl fun _ => hfinish _

theorem same_finishWrite (X : Ext) (h : Conn) :
    Same V (FtpWriteStream.finishWrite X h) (TokioWriteStream.finishWrite X h) :=
  Same.holding (same_awaited rfl fun _ => same_awaited rfl fun _ => same_pure _) (by simp [onLine])

theorem same_invalidateOnErr (r : RemoteResult Unit) :
    Same V (FtpReadStream.invalidateOnErr r) (FtpReadStream.invalidateOnErr r) := by
  unfold FtpReadStream.invalidateOnErr
  split
  · exact same_step rfl
  · exact same_pure _

/-- The end of a stream without its transfer. -/
theorem sim_guardDrop {k k' : Io α} (hk : SimF V Rest k k' Rest) :
    SimF V Rest (step .guardDrop >>= fun _ => k) (step .guardDrop >>= fun _ => k') Rest := by
  rintro ⟨f, l⟩ ⟨g, l'⟩ ⟨hl, hF⟩
  obtain rfl : l = l' := hl
  have hF : Rest f g := hF
  obtain ⟨slot, locked, active, connected, welcome⟩ := f
  obtain ⟨slot', locked', active', connected', welcome'⟩ := g
  obtain rfl : locked = false := hF.free
  obtain rfl : locked' = false := hF.free'
  exact hk ⟨⟨slot, false, false, connected, welcome⟩, l⟩
    ⟨⟨slot', false, false, connected', welcome'⟩, l⟩ ⟨rfl, rfl, rfl, hF.slot, rfl, hF.connected⟩

/-- The stream loses its transfer and records its failure. -/
theorem sim_finishInner (X : Ext) (h : Conn) (remaining : Option Nat) (atEof : Bool) :
    SimF V Rest (FtpReadStream.finishInner X (reading h remaining atEof))
      (TokioReadStream.finishInner X (reading h remaining atEof)) Rest :=
  sim_seq (sim_holding (sim_same (same_finishRead X h atEof))) fun r =>
    sim_seq (sim_same (same_invalidateOnErr r)) fun _ => sim_pure _

/-- `finish_inner` leaves a stream without its transfer. -/
theorem finishInner_inner {X : Ext} {s s' : ReadStream} {r : RemoteResult Unit}
    (h : Prog.Returns (S := ftp) (FtpReadStream.finishInner X s) (r, s')) : s'.inner = none := by
  unfold FtpReadStream.finishInner at h
  split at h
  · exact h.elim
  · obtain ⟨r, -, h⟩ := Prog.returns_bind.mp h
    obtain ⟨_, -, h⟩ := Prog.returns_bind.mp h
    cases h
    rfl

theorem sim_finishAfterSkip (X : Ext) (h : Conn) (remaining : Option Nat) (atEof : Bool)
    (skip : RemoteError) :
    SimF V Rest (FtpReadStream.finishAfterSkip X (reading h remaining atEof) skip)
      (TokioReadStream.finishAfterSkip X (reading h remaining atEof) skip) Rest := by
  refine sim_seq_returns (sim_finishInner X h remaining atEof) fun r hr => ?_
  obtain ⟨result, inner, remaining, atEof⟩ := r
  -- what is left of the stream is its guard
  obtain rfl : inner = none := finishInner_inner hr
  refine sim_guardDrop ?_
  cases result <;> exact sim_pure _

/-- `finish`: the Tokio client is polled first, and then does the same. -/
theorem sim_finishReader (X : Ext) (h : Conn) (remaining : Option Nat) (atEof : Bool) :
    SimF V Rest (FtpReadStream.finish X (reading h remaining atEof))
      (TokioReadStream.finish X (reading h remaining atEof)) Rest := by
  refine sim_right (G := Rest) (r := ()) (fun f g l hF => ⟨g, ?_, hF⟩) ?_
  · obtain ⟨slot, locked, active, connected, welcome⟩ := g
    cases locked <;> rfl
  refine sim_seq_returns (sim_finishInner X h remaining atEof) fun r hr => ?_
  obtain ⟨result, inner, remaining, atEof⟩ := r
  obtain rfl : inner = none := finishInner_inner hr
  exact sim_guardDrop (sim_pure _)

theorem sim_finishWriter (X : Ext) (h : Conn) :
    SimF V Rest (FtpWriteStream.finish X ⟨some h⟩) (TokioWriteStream.finish X ⟨some h⟩) Rest := by
  refine sim_right (G := Rest) (r := ()) (fun f g l hF => ⟨g, ?_, hF⟩) ?_
  · obtain ⟨slot, locked, active, connected, welcome⟩ := g
    cases locked <;> rfl
  refine sim_seq (sim_holding (sim_same (same_finishWrite X h))) fun r => ?_
  exact sim_seq (sim_same (same_invalidateOnErr r)) fun _ => sim_guardDrop (sim_pure _)

/-- Both skip with one copy, and fail alike at a short one. -/
theorem sim_skipPrefix (X : Ext) (h : Conn) (remaining : Option Nat) (atEof : Bool) (offset : Nat) :
    SimF V Rest (FtpReadStream.skipPrefix X (reading h remaining atEof) offset)
      (TokioReadStream.skipPrefix X (reading h remaining atEof) offset) Rest := by
  refine sim_seq (sim_holding (sim_same (same_await rfl))) fun r => ?_
  cases r with
  | error e => exact sim_pure _
  | ok skipped =>
    by_cases hs : skipped < offset
    · simp only [hs, if_true]
      exact sim_pure _
    · simp only [hs, if_false]
      exact sim_pure _

/-- A read puts the same bytes and end of file into both streams. -/
theorem sim_read (X : Ext) (h : Conn) (remaining : Option Nat) (atEof : Bool) (bufLen : Nat) :
    SimF V F (FtpReadStream.read X (reading h remaining atEof) bufLen)
      (TokioReadStream.read X (reading h remaining atEof) bufLen) F := by
  unfold FtpReadStream.read TokioReadStream.read
  by_cases hb : bufLen = 0
  · simp only [hb, if_true]
    exact sim_pure _
  simp only [hb, if_false]
  cases remaining with
  | none =>
    simp only [FtpReadStream.readLimited, bind_assoc]
    refine sim_seq (sim_same (same_step rfl)) fun r => ?_
    cases r with
    | error e => exact sim_pure _
    | ok bytes =>
      by_cases hl : bytes.1.length = 0
      · simp only [hl, pure_bind, ne_eq, reduceCtorEq, not_false_eq_true, and_self, if_true]
        exact sim_pure _
      · simp only [hl, pure_bind, false_and, if_false]
        exact sim_pure _
  | some budget =>
    by_cases h0 : budget = 0
    · subst h0
      simp only [FtpReadStream.readLimited, if_true, pure_bind, List.length_nil, ne_eq,
        not_true_eq_false, and_false, if_false]
      exact sim_pure _
    -- a budget is left: the Tokio client reads as well
    have hsome : ¬ some budget = some 0 := fun h => h0 (Option.some.inj h)
    simp only [FtpReadStream.readLimited, h0, hsome, if_false, bind_assoc]
    refine sim_seq (sim_same (same_step rfl)) fun r => ?_
    cases r with
    | error e => exact sim_pure _
    | ok bytes =>
      -- the socket fills no more than the budget, so neither client underflows
      have hle : bytes.1.length ≤ budget := bytes.2.trans (readLimit_le X budget bufLen)
      by_cases hl : bytes.1.length = 0
      · simp only [hl, Nat.zero_le, if_true, pure_bind, Nat.sub_zero, ne_eq, hsome, not_false_eq_true,
          and_self]
        exact sim_pure _
      · simp only [hle, hl, if_true, if_false, pure_bind, false_and]
        exact sim_pure _

/-- Skipping and reading leave the transfer with the stream. -/
theorem skipPrefix_inner {X : Ext} {s s' : ReadStream} {offset : Nat} {r : RemoteResult Unit}
    (h : Prog.Returns (S := ftp) (FtpReadStream.skipPrefix X s offset) (r, s')) :
    s'.inner = s.inner := by
  unfold FtpReadStream.skipPrefix at h
  split at h
  · exact h.elim
  · obtain ⟨r, -, h⟩ := Prog.returns_bind.mp h
    split at h
    · cases h
      rfl
    · split at h <;> cases h <;> rfl

theorem read_inner {X : Ext} {s s' : ReadStream} {bufLen : Nat} {r : Except IoError (List UInt8)}
    (h : Prog.Returns (S := ftp) (FtpReadStream.read X s bufLen) (r, s')) : s'.inner = s.inner := by
  unfold FtpReadStream.read at h
  split at h
  · cases h
    rfl
  split at h
  · exact h.elim
  · obtain ⟨⟨r, remaining⟩, -, h⟩ := Prog.returns_bind.mp h
    dsimp only at h
    split at h
    · cases h
      rfl
    · split at h <;> cases h <;> rfl

/-- `open` of both clients, from where the stream exists. -/
theorem sim_skipTo (X : Ext) (h : Conn) (remaining : Option Nat) (offset : Nat) (resumed : Bool) :
    SimF V Rest
      (if 0 < offset ∧ resumed = false then do
        match ← FtpReadStream.skipPrefix X (reading h remaining false) offset with
        | (.error skip, reader) =>
          let e ← FtpReadStream.finishAfterSkip X reader skip
          pure (.error e)
        | (.ok (), reader) => pure (.ok reader)
      else pure (.ok (reading h remaining false)))
      (TokioFtpFs.skipTo X (reading h remaining false) offset resumed) Rest := by
  unfold TokioFtpFs.skipTo
  by_cases hs : 0 < offset ∧ resumed = false
  · simp only [hs, and_self, if_true]
    refine sim_seq_returns (sim_skipPrefix X h remaining false offset) fun r hr => ?_
    obtain ⟨result, s⟩ := r
    obtain ⟨inner, remaining', atEof'⟩ := s
    obtain rfl : inner = some h := skipPrefix_inner hr
    cases result with
    | ok _ => exact sim_pure _
    | error skip => exact sim_seq (sim_finishAfterSkip X h _ _ skip) fun _ => sim_pure _
  · simp only [hs, if_false]
    exact sim_pure _

/-- `open`: the section, the probes of a refusal, and the skip. -/
theorem sim_open (X : Ext) (path : Path) (opts : ReadOptions) :
    SimF V Rest (FtpFs.open' X path opts) (TokioFtpFs.open' X path opts) Rest := by
  refine sim_withRemotePath fun remote => sim_section (fun _ => rfl) fun h => ?_
  refine sim_openTransfer X fun r => ?_
  cases r with
  | error e => exact sim_pure _
  | ok r =>
    refine sim_seq (sim_mapRefusal ((clients_probe X).classifyFileRefusal path)) fun r => ?_
    rcases r with e | ⟨transfer, resumed⟩
    · exact sim_pure _
    · exact sim_skipTo X transfer opts.length _ resumed

/-- `exec`: the blocking client records its failure before the release, the Tokio client
after it. -/
theorem sim_exec (X : Ext) (cmd : Str) :
    SimF V Rest (FtpFs.exec X cmd) (TokioFtpFs.exec X cmd) Rest := by
  refine sim_section (fun _ => rfl) fun h => ?_
  simp only [bind_assoc]
  refine sim_seq (sim_guarded_call h _) fun r => ?_
  cases r with
  | ok response =>
    exact sim_release (p := pure ()) (same_pure ()) fun _ => sim_pure (Except.ok (FtpFs.execOutput X response))
  | error e =>
    exact sim_release (same_recordRemoteError (ftpError e)) fun _ => sim_pure (Except.error (ftpError e))

/-! ### Connecting -/

/-- At rest, with no stream. -/
def Empty (f g : Frame) : Prop := Rest f g ∧ g.slot = none

/-- A new stream is set up by the same commands. The Tokio client caches its banner and
its presence. -/
theorem sim_connectStream (o : Options) :
    SimF V Empty (FtpFs.connectStream o) (TokioFtpFs.connectStream o) Rest := by
  have hdone (r : RemoteResult Unit) : SimF V Empty (pure r : Io (RemoteResult Unit)) (pure r) Rest :=
    Prog.sim_ret fun _ _ h => ⟨h.line, h.frames.1⟩
  refine sim_seq (sim_same (same_await rfl)) fun r => ?_
  cases r with
  | error e => exact hdone _
  | ok stream =>
    refine sim_seq (sim_holding (sim_same (same_setup o stream))) fun r => ?_
    cases r with
    | error e => exact sim_seq (sim_same (same_step rfl)) fun _ => hdone _
    | ok _ =>
      rintro ⟨f, l⟩ ⟨g, l'⟩ ⟨hl, hF, hs⟩
      obtain rfl : l = l' := hl
      obtain ⟨slot, locked, active, connected, welcome⟩ := f
      obtain ⟨slot', locked', active', connected', welcome'⟩ := g
      obtain rfl : locked = false := hF.free
      obtain rfl : locked' = false := hF.free'
      exact ⟨.ok (), _, _, rfl, rfl, rfl, rfl, rfl, rfl, hF.active, rfl⟩

section
variable (slot : Option Conn) (active connected : Bool) (welcome : Option Str) (l : Line σ)

/-! The steps of `connect` and `disconnect` around the slot, each client for itself: the
blocking client locks its mutex for them, the Tokio client keeps its caches. -/

theorem eval_hasUsableStream (k : Bool → Io β) :
    Prog.eval (alone V) (FtpFs.hasUsableStream >>= k) ⟨⟨slot, false, active, connected, welcome⟩, l⟩ =
      Prog.eval (alone V) (k (l.usable && slot.isSome))
        ⟨⟨slot, false, active, connected, welcome⟩, l⟩ := by
  obtain ⟨srv, calls, usable, banner, hasBuilder, next⟩ := l
  cases usable <;> rfl

theorem eval_discardUnusable (hu : l.usable = false) (k : Unit → Io β) :
    Prog.eval (alone V) (FtpFs.discardUnusable >>= k) ⟨⟨slot, false, active, connected, welcome⟩, l⟩ =
      Prog.eval (alone V) (k ())
        ⟨⟨none, false, active, connected, welcome⟩, { l with usable := true }⟩ := by
  unfold FtpFs.discardUnusable FtpFs.lock FtpFs.unlock
  simp only [bind_assoc]
  rw [eval_loadUsable, hu]
  simp only [Bool.not_false, if_true, bind_assoc]
  rw [eval_lock, eval_take]
  cases slot with
  | none =>
    simp only [bind_assoc]
    rw [eval_unlock]
    exact eval_storeUsable none false active connected welcome l true (k ())
  | some old =>
    simp only [bind_assoc]
    rw [eval_close, eval_unlock]
    exact eval_storeUsable none false active connected welcome l true (k ())

theorem eval_keepUsable (hu : l.usable = true) (k : Unit → Io β) :
    Prog.eval (alone V) (FtpFs.discardUnusable >>= k) ⟨⟨slot, false, active, connected, welcome⟩, l⟩ =
      Prog.eval (alone V) (k ()) ⟨⟨slot, false, active, connected, welcome⟩, l⟩ := by
  obtain ⟨srv, calls, usable, banner, hasBuilder, next⟩ := l
  subst hu
  rfl

theorem eval_takeOut (k : Option Conn → Io β) :
    Prog.eval (alone V) (do
      FtpFs.lock
      let slot ← step .take
      FtpFs.unlock
      k slot) ⟨⟨slot, false, active, connected, welcome⟩, l⟩ =
      Prog.eval (alone V) (k slot) ⟨⟨none, false, active, connected, welcome⟩, l⟩ := rfl

theorem eval_tokio_takeOut (p : Io β) :
    Prog.eval (alone V) (do
      step (.storeConnected false)
      step (.storeWelcome none)
      p) ⟨⟨slot, false, active, connected, welcome⟩, l⟩ =
      Prog.eval (alone V) p ⟨⟨slot, false, active, false, none⟩, l⟩ := rfl

theorem eval_tokio_hasUsableStream (k : Bool → Io β) :
    Prog.eval (alone V) (TokioFtpFs.hasUsableStream >>= k)
        ⟨⟨slot, false, active, connected, welcome⟩, l⟩ =
      Prog.eval (alone V) (k (l.usable && slot.isSome))
        ⟨⟨slot, false, active, connected, welcome⟩, l⟩ := by
  obtain ⟨srv, calls, usable, banner, hasBuilder, next⟩ := l
  cases usable <;> rfl

theorem eval_tokio_discardUnusable (hu : l.usable = false) (k : Unit → Io β) :
    Prog.eval (alone V) (TokioFtpFs.discardUnusable >>= k)
        ⟨⟨slot, false, active, connected, welcome⟩, l⟩ =
      Prog.eval (alone V) (k ()) ⟨⟨none, false, active, false, welcome⟩, { l with usable := true }⟩ := by
  obtain ⟨srv, calls, usable, banner, hasBuilder, next⟩ := l
  subst hu
  cases slot <;> rfl

theorem eval_tokio_keepUsable (hu : l.usable = true) (k : Unit → Io β) :
    Prog.eval (alone V) (TokioFtpFs.discardUnusable >>= k)
        ⟨⟨slot, false, active, connected, welcome⟩, l⟩ =
      Prog.eval (alone V) (k ()) ⟨⟨slot, false, active, connected, welcome⟩, l⟩ := by
  obtain ⟨srv, calls, usable, banner, hasBuilder, next⟩ := l
  subst hu
  rfl

end

/-- `connect`, by what it finds: an active transfer, a usable stream, an unusable one, or
none. -/
theorem sim_connect (o : Options) :
    SimF V Rest (FtpFs.connect o) (TokioFtpFs.connect o) Rest := by
  rintro ⟨f, l⟩ ⟨g, l'⟩ ⟨hl, hF⟩
  obtain rfl : l = l' := hl
  obtain ⟨slot, active, connected, welcome, welcome', rfl, rfl⟩ := Rest.eq hF
  have hstream (l : Line σ) := sim_connectStream (V := V) o ⟨⟨none, false, false, connected, welcome⟩, l⟩
    ⟨⟨none, false, false, false, welcome'⟩, l⟩ ⟨rfl, ⟨rfl, rfl, rfl, rfl, rfl⟩, rfl⟩
  cases active with
  | true => exact ⟨_, _, _, rfl, rfl, rfl, rfl, rfl, rfl, rfl, rfl⟩
  | false =>
    let rest (b : Bool) (p : Io (RemoteResult Unit)) : Io (RemoteResult Unit) :=
      if b then pure (.error (.new .alreadyConnected)) else p
    have he : Prog.eval (alone V) (FtpFs.connect o) ⟨⟨slot, false, false, connected, welcome⟩, l⟩ =
        Prog.eval (alone V) (rest (l.usable && slot.isSome) (do
          FtpFs.discardUnusable
          FtpFs.connectStream o)) ⟨⟨slot, false, false, connected, welcome⟩, l⟩ :=
      eval_hasUsableStream slot false connected welcome l _
    have he' : Prog.eval (alone V) (TokioFtpFs.connect o)
          ⟨⟨slot, false, false, slot.isSome, welcome'⟩, l⟩ =
        Prog.eval (alone V) (rest (l.usable && slot.isSome) (do
          TokioFtpFs.discardUnusable
          TokioFtpFs.connectStream o)) ⟨⟨slot, false, false, slot.isSome, welcome'⟩, l⟩ :=
      eval_tokio_hasUsableStream slot false _ welcome' l _
    rw [he, he']
    cases hu : l.usable with
    | true =>
      cases slot with
      | some h => exact ⟨_, _, _, rfl, rfl, rfl, hF⟩
      | none =>
        obtain ⟨a, v, v', hv, hv', hr⟩ := hstream l
        refine ⟨a, v, v', ?_, ?_, hr⟩
        · exact (eval_keepUsable none false connected welcome l hu _).trans hv
        · exact (eval_tokio_keepUsable none false _ welcome' l hu _).trans hv'
    | false =>
      obtain ⟨a, v, v', hv, hv', hr⟩ := hstream { l with usable := true }
      refine ⟨a, v, v', ?_, ?_, hr⟩
      · exact (eval_discardUnusable slot false connected welcome l hu _).trans hv
      · exact (eval_tokio_discardUnusable slot false _ welcome' l hu _).trans hv'

/-- `QUIT`, its record, and the end of the stream. -/
theorem sim_quit (stream : Conn) :
    SimF V F (FtpFs.quit stream) (TokioFtpFs.quit stream) F := by
  refine sim_seq (sim_holding (sim_same (same_call stream _))) fun r => ?_
  cases r with
  | ok _ => exact sim_seq (sim_same (same_step rfl)) fun _ => sim_pure _
  | error e =>
    exact sim_seq (sim_same (same_recordRemoteError _)) fun _ =>
      sim_seq (sim_same (same_step rfl)) fun _ => sim_pure _

/-- How `disconnect` gives up a connection. -/
def leave (usable : Bool) (stream : Conn) (quit : Io (RemoteResult Unit)) :
    Io (RemoteResult Unit) := do
  step (.storeUsable true)
  if !usable then
    step (.close stream)
    pure (.error (.withMessage .connectionError
      "the control connection was unusable and has been closed"))
  else quit

def leaveSlot (usable : Bool) : Option Conn → Io (RemoteResult Unit)
  | none => pure (.error (.new .notConnected))
  | some stream => leave usable stream (FtpFs.quit stream)

theorem sim_disconnect : SimF V Rest FtpFs.disconnect TokioFtpFs.disconnect Rest := by
  rintro ⟨f, l⟩ ⟨g, l'⟩ ⟨hl, hF⟩
  obtain rfl : l = l' := hl
  obtain ⟨slot, active, connected, welcome, welcome', rfl, rfl⟩ := Rest.eq hF
  cases active with
  | true => exact ⟨_, _, _, rfl, rfl, rfl, rfl, rfl, rfl, rfl, rfl⟩
  | false =>
    have he : Prog.eval (alone V) FtpFs.disconnect ⟨⟨slot, false, false, connected, welcome⟩, l⟩ =
        Prog.eval (alone V) (leaveSlot l.usable slot) ⟨⟨none, false, false, connected, welcome⟩, l⟩ :=
      eval_takeOut slot false connected welcome l (leaveSlot l.usable)
    rw [he]
    cases slot with
    | none => exact ⟨_, _, _, rfl, rfl, rfl, rfl, rfl, rfl, rfl, rfl⟩
    | some h =>
      have hrest : SimF V Rest (leave l.usable h (FtpFs.quit h)) (leave l.usable h (TokioFtpFs.quit h))
          Rest := by
        refine sim_seq (sim_same (same_step rfl)) fun _ => ?_
        exact sim_ite _ (sim_seq (sim_same (same_step rfl)) fun _ => sim_pure _) (sim_quit h)
      obtain ⟨a, v, v', hv, hv', hr⟩ := hrest ⟨⟨none, false, false, connected, welcome⟩, l⟩
        ⟨⟨none, false, false, false, none⟩, l⟩ ⟨rfl, rfl, rfl, rfl, rfl, rfl⟩
      exact ⟨a, v, v', hv, (eval_tokio_takeOut none false true welcome' l _).trans hv', hr⟩

theorem sim_isConnected : SimF V Rest FtpFs.isConnected TokioFtpFs.isConnected Rest := by
  rintro ⟨f, l⟩ ⟨g, l'⟩ ⟨hl, hF⟩
  obtain rfl : l = l' := hl
  obtain ⟨slot, active, connected, welcome, welcome', rfl, rfl⟩ := Rest.eq hF
  obtain ⟨srv, calls, usable, banner, hasBuilder, next⟩ := l
  cases usable <;> cases slot <;> exact ⟨_, _, _, rfl, rfl, rfl, rfl, rfl, rfl, rfl, rfl⟩

end RemotefsFtp.L4
