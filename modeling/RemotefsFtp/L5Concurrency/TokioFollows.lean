import RemotefsFtp.L5Concurrency.Follows

/-!
# The Tokio client keeps to the lax protocol

As `SyncFollows`, for `tokio.rs` and `tokio/stream.rs`. A failure may be
recorded after the mutex is released, and in the `cancel` variant every
suspension point is followed through the drop of what is alive there.

Results:
* **`run_follows`**, **`runStream_follows`**: every operation follows the
  protocol, wherever it is dropped.
-/
namespace RemotefsFtp.L5.Tokio

open L1 (Str Path)
open L2 L3
open Core (Typestate Next Prog)
open Mode

variable {v : Variant} {D : Mode → Prop} {α β : Type} {h : Conn}

/-! ## Drops -/

/-- A drop is fine where the rest of the drop glue is: in a section, ... -/
structure Drops (D : Mode → Prop) (h : Conn) : Prop where
  gone : D gone
  cutting : D (cutting h)

/-- Wherever the section is suspended, in a call or in a listing. -/
theorem Drops.cut_sec (hD : Drops D h) {d : Bool} : ((Mode.sec .locked h d).cut v).All D := by
  cases v with
  | cancel => exact hD.cutting
  | _ => exact hD.gone

theorem Drops.cut_busy (hD : Drops D h) {c : Command} : ((Mode.busy .locked h c).cut v).All D := by
  cases v with
  | cancel => exact hD.cutting
  | _ => exact hD.gone

theorem Drops.cut_data (hD : Drops D h) {d : Bool} :
    ((Mode.data .locked h d).cut v).All D ∧ ((Mode.fini .locked h d).cut v).All D := by
  cases v with
  | cancel => exact ⟨hD.cutting, hD.cutting⟩
  | _ => exact ⟨hD.gone, hD.gone⟩

/-- A dropped `StreamGuard` releases the mutex, then marks the connection. -/
theorem drops_streamGuard (hv : v ≠ .strict) (h : Conn) :
    Drops (fun m => (protocol v).FollowsGlue (Done .done) dropStreamGuard m) h where
  gone := fun _ _ => trivial
  cutting := fun _ => by
    simp only [next, onUnlock, reduceCtorEq, if_false, release, if_true, hv, Next.All]
    exact fun _ => trivial

/-- A listing's data socket goes before the guard. -/
theorem drops_transfer (hD : Drops D h) :
    Drops (fun m => (protocol v).FollowsGlue D [.dropTransfer h] m) h where
  gone := fun _ => hD.gone
  cutting := fun _ => by simpa [Typestate.FollowsGlue] using hD.cutting

/-! ## Sections -/

/-- A call in a section. -/
theorem call_follows (hD : Drops D h) {c : Command} {d : Bool} :
    Follows v D (TokioFtpFs.call h c) (.sec .locked h d) (Answered .locked h c) := by
  have hrecv : Follows v D (await (.recv h c)) (.busy .locked h c) (Answered .locked h c) :=
    follows_last_await hD.cut_busy fun r => answered_next (by simp) r
  refine follows_await hD.cut_sec fun _ => ?_
  simp only [next, onSend, ne_eq, reduceCtorEq, not_false_eq_true, and_self, if_true, if_false,
    Next.All]
  split
  · refine follows_await hD.cut_busy fun r => ?_
    simp only [next, onBuilder, reduceCtorEq, if_false, ne_eq, not_false_eq_true, and_self, if_true]
    cases r with
    | false => exact hrecv
    | true =>
      refine follows_step fun _ => ?_
      exact hrecv
  · exact hrecv

/-- `lock_stream` ends in a section, or reports why not. -/
theorem lockStream_follows (hgone : D gone) (hshr : D shr) :
    Follows v D TokioFtpFs.lockStream .shr fun r m =>
      match r with
      | .ok () => ∃ h, m = .sec .locked h false
      | .error _ => m = .shr := by
  have hcut : ((Mode.shr).cut v).All D := by
    cases v with
    | cancel => exact hshr
    | _ => exact hgone
  refine follows_await hcut fun _ => follows_seq checkOperationState_follows fun r m hr => ?_
  cases r with
  | error e =>
    refine follows_step fun _ => ?_
    rcases hr with rfl | rfl <;> exact rfl
  | ok =>
    obtain rfl : m = .chk2 := hr
    refine follows_step fun slot => ?_
    cases slot with
    | none => exact follows_step fun _ => rfl
    | some h => exact ⟨h, rfl⟩

/-- The guard's stream is the one in the slot. -/
theorem guardStream_follows :
    Follows v D TokioFtpFs.guardStream (.sec .locked h false) fun r m =>
      r = h ∧ m = .sec .locked h false := by
  refine follows_step fun slot => ?_
  by_cases hs : slot = some h
  · subst hs
    simp [next, onSlot]
    exact ⟨rfl, rfl⟩
  · simp [next, onSlot, hs]

/-- Where the release of the mutex leads. -/
def Left (h : Conn) (d : Bool) (m : Mode) : Prop := m = if d then .win h else .shr

/-- `complete` releases the mutex before anything is recorded. -/
theorem complete_follows (hv : v ≠ .strict) {d : Bool} {m : Mode}
    (hm : m = .sec .locked h d ∨ m = .fini .locked h d) :
    Follows v D TokioFtpFs.complete m fun _ m => Left h d m := by
  refine follows_last fun _ => ?_
  rcases hm with rfl | rfl <;> cases d <;> simp [Left, hv]

/-- Recording what was left unrecorded, late. -/
theorem recordLate_follows {b d : Bool} {m : Mode} (hm : Left h d m) (hd : d = b) :
    Follows v D (if b then FtpFs.markConnectionUnusable else pure ()) m fun _ m => m = .shr := by
  subst hd
  cases d with
  | true =>
    obtain rfl : m = .win h := hm
    exact follows_last fun _ => rfl
  | false => exact follows_pure hm

/-- A section: lock, check, run with the guard alive, and go on. -/
theorem section_follows (hv : v ≠ .strict) {f : Conn → Io α} {P : Conn → α → Mode → Prop}
    {k : Conn → α → Io (RemoteResult β)} {Q : RemoteResult β → Mode → Prop}
    (hgone : D gone) (hshr : D shr) (herr : ∀ e, Q (.error e) .shr)
    (hf : ∀ h D', Drops D' h → Follows v D' (f h) (.sec .locked h false) (P h))
    (hD : ∀ m, Done .done m → D m)
    (hk : ∀ h a m, P h a m → Follows v D (k h a) m Q) :
    Follows v D (do
      match ← TokioFtpFs.lockStream with
      | .error e => pure (.error e)
      | .ok () =>
        let stream ← TokioFtpFs.guardStream
        let a ← TokioFtpFs.guarded (f stream)
        k stream a) .shr Q := by
  refine follows_seq (lockStream_follows hgone hshr) fun r m hr => ?_
  cases r with
  | error e =>
    obtain rfl : m = .shr := hr
    exact follows_pure (herr e)
  | ok =>
    obtain ⟨h, rfl⟩ := hr
    refine follows_seq guardStream_follows fun stream m hm => ?_
    obtain ⟨rfl, rfl⟩ := hm
    have hglue : Drops (fun m => (protocol v).FollowsGlue D dropStreamGuard m) stream :=
      ⟨Typestate.followsGlue_mono hD (drops_streamGuard hv stream).gone,
        Typestate.followsGlue_mono hD (drops_streamGuard hv stream).cutting⟩
    exact follows_seq (Typestate.follows_holding.mpr (hf stream _ hglue)) fun a m hm => hk _ a m hm

/-- A listing, with its data socket in the future that may be dropped. -/
theorem readListBytes_follows (hD : Drops D h) {remote : Str} :
    Follows v D (TokioFtpFs.readListBytes h remote) (.sec .locked h false) (Listed .locked h) := by
  refine follows_seq (call_follows hD) fun r m hm => ?_
  cases r with
  | error e => exact .inl hm
  | ok _ =>
    obtain rfl : m = .data .locked h false := hm
    refine Typestate.follows_holding.mpr ?_
    have hD' := drops_transfer (v := v) hD
    refine follows_await hD'.cut_data.1 fun read => ?_
    simp only [next, onReadToEnd, reduceCtorEq, if_false, ne_eq, not_false_eq_true, and_self,
      if_true, Bool.false_or, Next.All]
    refine follows_await hD'.cut_data.1 fun fin => ?_
    simp only [next, onFinish, reduceCtorEq, if_false, ne_eq, not_false_eq_true, and_self,
      if_true, Next.All]
    exact .inr (by rw [listOutcome_snd])

/-- A part of a section with the `StreamGuard` alive. -/
theorem guarded_follows {p : Io α} {m : Mode} {Q : α → Mode → Prop}
    (hp : Follows v (fun m => (protocol v).FollowsGlue D dropStreamGuard m) p m Q) :
    Follows v D (TokioFtpFs.guarded p) m Q := Typestate.follows_holding.mpr hp

/-- The release behind a data command leaves the transfer to its owner. -/
theorem completeOpened_follows {stream : α → Conn} {a : α} (hs : stream a = h) {r : FtpResult α}
    {m : Mode} (hm : Opened h a r m) :
    Follows v D (do TokioFtpFs.complete; pure (.ok r)) m (Holding stream) := by
  cases r with
  | ok b =>
    obtain ⟨rfl, rfl⟩ := hm
    exact follows_step fun _ => by rw [← hs]; exact rfl
  | error e =>
    obtain rfl : m = .sec .locked h false := hm
    exact follows_step fun _ => rfl

/-! ## Streams -/

section
variable (X : Ext)

/-- The drop of a stream that still has its transfer. -/
theorem dropReadStream_follows {s : ReadStream} (hs : s.inner = some h) :
    (protocol v).FollowsGlue (fun m => m = .idle) (dropReadStream s) (.own h) := by
  unfold dropReadStream
  rw [hs]
  cases s.atEof <;> simp [Typestate.FollowsGlue]

theorem dropWriteStream_follows {s : WriteStream} (hs : s.inner = some h) :
    (protocol v).FollowsGlue (fun m => m = .idle) (dropWriteStream s) (.own h) := by
  unfold dropWriteStream
  rw [hs]
  simp [Typestate.FollowsGlue]

/-- Where drops are not considered, nothing is left to follow. -/
theorem glue_gone {g : List Eff} : (protocol v).FollowsGlue (Done .done) g .gone := by
  induction g with
  | nil => trivial
  | cons e es ih => exact fun r => ih

/-- A future dropped on an owned stream drops the stream. -/
theorem cut_own {g : List Eff} (hg : (protocol v).FollowsGlue (fun m => m = .idle) g (.own h)) :
    ((Mode.own h).cut v).All fun m => (protocol v).FollowsGlue (Done .done) g m := by
  cases v with
  | cancel => exact Typestate.followsGlue_mono (fun m hm => by subst hm; trivial) hg
  | _ => exact glue_gone

/-- Skipping suspends with the stream in the future. -/
theorem skipPrefix_follows {s : ReadStream} (hs : s.inner = some h) (n : Nat) :
    Follows v (Done .done) (TokioReadStream.skipPrefix X s n) (.own h) fun r m =>
      r.2.inner = some h ∧ m = .own h := by
  have hcopy : Follows v (Done .done) (Prog.holding (dropReadStream s) (await (.copyTake h n)))
      (.own h) fun _ m => m = .own h :=
    Typestate.follows_holding.mpr
      (follows_last_await (cut_own (dropReadStream_follows hs)) fun _ => by simp)
  unfold TokioReadStream.skipPrefix
  rw [hs]
  refine follows_seq hcopy fun r m hm => ?_
  subst hm
  cases r with
  | error e => exact follows_pure ⟨hs, rfl⟩
  | ok skipped =>
    dsimp only
    split
    · exact follows_pure ⟨rfl, rfl⟩
    · exact follows_pure ⟨hs, rfl⟩

/-- A drop is fine where the rest of the drop glue is: past the transfer. -/
structure Ends (v : Variant) (D : Mode → Prop) (h : Conn) : Prop where
  gone : D gone
  don : v = .cancel → ∀ d, D (don h d)

/-- The guard is dropped last. -/
theorem ends_guard : Ends v (fun m => (protocol v).FollowsGlue (Done .done) [.guardDrop] m) h where
  gone := glue_gone
  don hv d := by subst hv; simp [Typestate.FollowsGlue, Done]

/-- The transfer in the dropped future goes first. -/
theorem Ends.cut (hD : Ends v D h) {m : Mode} (hm : m = .own h ∨ ∃ d, m = .fin h d) :
    (m.cut v).All fun m => (protocol v).FollowsGlue D [.dropTransfer h] m := by
  cases v with
  | cancel =>
    obtain rfl | ⟨d, rfl⟩ := hm
    · intro _
      simpa [Typestate.FollowsGlue] using hD.don rfl false
    · intro _
      simpa [Typestate.FollowsGlue] using hD.don rfl d
  | _ => obtain rfl | ⟨d, rfl⟩ := hm <;> exact fun _ => hD.gone

/-- Finalizing, as in `SyncFollows`; the transfer is in the future all along. -/
theorem finishRead_follows (hD : Ends v D h) {atEof : Bool} :
    Follows v D (TokioReadStream.finishRead X h atEof) (.own h) fun r m => m = .don h (!r.isOk) := by
  refine Typestate.follows_holding.mpr ?_
  cases atEof with
  | true =>
    refine follows_await (hD.cut (.inl rfl)) fun fin => ?_
    simp only [next, onFinish, reduceCtorEq, if_false, if_true, Next.All]
    exact follows_pure (by simp [cleanupOutcome_isOk, isErr_mapFtpError])
  | false =>
    refine follows_await (hD.cut (.inl rfl)) fun drained => ?_
    simp only [next, onDrain, reduceCtorEq, if_false, if_true, Next.All]
    refine follows_await (hD.cut (.inr ⟨_, rfl⟩)) fun fin => ?_
    simp only [next, onFinish, reduceCtorEq, if_false, if_true, Next.All]
    exact follows_pure (by simp [cleanupOutcome_isOk, isErr_mapFtpError, isErr_mapIoError])

theorem finishWrite_follows (hD : Ends v D h) :
    Follows v D (TokioWriteStream.finishWrite X h) (.own h) fun r m => m = .don h (!r.isOk) := by
  refine Typestate.follows_holding.mpr ?_
  refine follows_await (hD.cut (.inl rfl)) fun flushed => ?_
  simp only [next, onDrain, reduceCtorEq, if_false, if_true, Next.All]
  refine follows_await (hD.cut (.inr ⟨_, rfl⟩)) fun fin => ?_
  simp only [next, onFinish, reduceCtorEq, if_false, if_true, Next.All]
  exact follows_pure (by simp [cleanupOutcome_isOk, isErr_mapFtpError, isErr_mapIoError])

/-- A failure is recorded with the guard alive. -/
theorem finishInner_follows {s : ReadStream} (hs : s.inner = some h) :
    Follows v (Done .done) (TokioReadStream.finishInner X s) (.own h) fun r m =>
      r.2.inner = none ∧ m = .don h false := by
  unfold TokioReadStream.finishInner
  rw [hs]
  refine follows_seq (Typestate.follows_holding.mpr (finishRead_follows X ends_guard))
    fun r m hm => ?_
  subst hm
  refine follows_seq invalidate_follows fun _ m hm => ?_
  subst hm
  exact follows_pure ⟨rfl, rfl⟩

/-- What is left to drop behind `finish_inner` is the guard. -/
theorem drop_done_follows {s : ReadStream} (hs : s.inner = none) :
    Follows v D (TokioReadStream.drop s) (.don h false) fun _ m => m = .idle := by
  refine Typestate.follows_glue ?_
  unfold dropReadStream
  rw [hs]
  exact fun _ => rfl

/-- `poll_read` does not suspend. -/
theorem read_follows {s : ReadStream} (hs : s.inner = some h) (n : Nat) :
    Follows v D (TokioReadStream.read X s n) (.own h) fun r m =>
      r.2.inner = some h ∧ m = .own h := by
  unfold TokioReadStream.read
  split
  · exact follows_pure ⟨hs, rfl⟩
  split
  · exact follows_pure ⟨hs, rfl⟩
  rw [hs]
  refine follows_step fun r => ?_
  simp only [next, onUse, reduceCtorEq, if_false, if_true, Next.All]
  cases r with
  | error e => exact follows_pure ⟨hs, rfl⟩
  | ok bytes =>
    dsimp only
    split
    · exact follows_pure ⟨rfl, rfl⟩
    · rename_i budget hb
      -- the buffer given to the socket is no longer than the budget
      have hlen : bytes.1.length ≤ budget := by
        have h1 := bytes.2
        have h2 : readLimit X budget n ≤ budget := by
          unfold readLimit
          split <;> omega
        simp only [hb] at h1
        omega
      rw [if_pos hlen]
      exact follows_pure ⟨rfl, rfl⟩

theorem drop_follows {s : ReadStream} (hs : s.inner = some h) :
    Follows v D (TokioReadStream.drop s) (.own h) fun _ m => m = .idle :=
  Typestate.follows_glue (dropReadStream_follows hs)

/-- Before its first poll, `finish` is a future that owns the stream. -/
theorem finish_follows {s : ReadStream} (hs : s.inner = some h) :
    Follows v (Done .done) (TokioReadStream.finish X s) (.own h) fun _ m => m = .idle := by
  have hpoll : Follows v (Done .done) (Prog.holding (dropReadStream s) (await .poll)) (.own h)
      fun _ m => m = .own h :=
    Typestate.follows_holding.mpr
      (follows_last_await (cut_own (dropReadStream_follows hs)) fun _ => by simp)
  refine follows_seq hpoll fun _ m hm => ?_
  subst hm
  refine follows_seq (finishInner_follows X hs) fun r m hm => ?_
  obtain ⟨hn, rfl⟩ := hm
  exact follows_seq (drop_done_follows hn) fun _ m hm => follows_pure hm

theorem finishAfterSkip_follows {s : ReadStream} (hs : s.inner = some h) (skip : RemoteError) :
    Follows v (Done .done) (TokioReadStream.finishAfterSkip X s skip) (.own h) fun _ m =>
      m = .idle := by
  refine follows_seq (finishInner_follows X hs) fun r m hm => ?_
  obtain ⟨hn, rfl⟩ := hm
  refine follows_seq (drop_done_follows hn) fun _ m hm => ?_
  split <;> exact follows_pure hm

theorem write_follows {s : WriteStream} (hs : s.inner = some h) (buf : List UInt8) :
    Follows v D (TokioWriteStream.write s buf) (.own h) fun _ m => m = .own h := by
  unfold TokioWriteStream.write
  rw [hs]
  exact follows_last fun _ => by simp

theorem flush_follows {s : WriteStream} (hs : s.inner = some h) :
    Follows v D (TokioWriteStream.flush s) (.own h) fun _ m => m = .own h := by
  unfold TokioWriteStream.flush
  rw [hs]
  exact follows_last fun _ => by simp

theorem dropWrite_follows {s : WriteStream} (hs : s.inner = some h) :
    Follows v D (TokioWriteStream.drop s) (.own h) fun _ m => m = .idle :=
  Typestate.follows_glue (dropWriteStream_follows hs)

theorem finishWriteStream_follows {s : WriteStream} (hs : s.inner = some h) :
    Follows v (Done .done) (TokioWriteStream.finish X s) (.own h) fun _ m => m = .idle := by
  have hpoll : Follows v (Done .done) (Prog.holding (dropWriteStream s) (await .poll)) (.own h)
      fun _ m => m = .own h :=
    Typestate.follows_holding.mpr
      (follows_last_await (cut_own (dropWriteStream_follows hs)) fun _ => by simp)
  unfold TokioWriteStream.finish
  refine follows_seq hpoll fun _ m hm => ?_
  subst hm
  rw [hs]
  refine follows_seq (Typestate.follows_holding.mpr (finishWrite_follows X ends_guard))
    fun r m hm => ?_
  subst hm
  refine follows_seq invalidate_follows fun _ m hm => ?_
  subst hm
  exact follows_step fun _ => rfl

end

variable (hv : v ≠ .strict)
include hv

/-- A listing records its failure late (`win`). -/
theorem listDirRaw_clean (X : Ext) (path : Path) (remote : Str) :
    Clean v (Done .done) (TokioFtpFs.listDirRaw X path remote) := by
  refine section_follows hv trivial trivial (fun _ => rfl)
    (fun h D' hD => readListBytes_follows hD) (fun _ h => h) fun h r m hm => ?_
  obtain ⟨result, req⟩ := r
  refine follows_seq (complete_follows hv hm) fun _ m hm => ?_
  cases req with
  | true =>
    obtain rfl : m = .win h := hm
    refine follows_step fun _ => ?_
    cases result with
    | error e => exact rfl
    | ok bytes => exact clean_parseListing X path bytes
  | false =>
    obtain rfl : m = .shr := hm
    cases result with
    | error e => exact clean_pure _
    | ok bytes => exact clean_parseListing X path bytes

/-- So does a command without a transfer. -/
theorem runCommand_clean {c : Command} (hc : c.opensData = false) :
    Clean v (Done .done) (TokioFtpFs.runCommand c) := by
  refine section_follows hv trivial trivial (fun _ => rfl) (fun h D' hD => call_follows hD)
    (fun _ h => h) fun h r m hm => ?_
  cases r with
  | ok reply =>
    simp only [Answered, hc, Bool.false_eq_true, if_false] at hm
    refine follows_seq (complete_follows hv (.inl hm)) fun _ m hm => ?_
    exact follows_pure hm
  | error e =>
    refine follows_seq (complete_follows hv (.inl hm)) fun _ m hm => ?_
    exact follows_seq (recordLate_follows hm rfl) fun _ m hm => follows_pure hm

/-- `stat` of the root only checks the connection. -/
theorem statRoot_clean (path : Path) : Clean v (Done .done) (TokioFtpFs.statRoot path) := by
  refine follows_seq (lockStream_follows trivial trivial) fun r m hr => ?_
  cases r with
  | error e => exact follows_pure hr
  | ok =>
    obtain ⟨h, rfl⟩ := hr
    refine follows_seq (complete_follows hv (.inl rfl)) fun _ m hm => ?_
    exact follows_pure hm

theorem client_clean (X : Ext) : CleanClient v (Done .done) (TokioFtpFs.client X) where
  listDirRaw := listDirRaw_clean hv X
  statRoot := statRoot_clean hv

/-! ## Commands -/

variable (X : Ext)

/-- The namespace commands: a command, then the probes of the refusal. -/
theorem createDir_clean (path : Path) : Clean v (Done .done) (TokioFtpFs.createDir X path) := by
  refine clean_withRemotePath (fun _ => rfl) fun remote =>
    clean_seq (runCommand_clean hv rfl) fun r => ?_
  split
  · exact clean_pure _
  · exact clean_pure _
  · split
    · exact clean_seq ((client_clean hv X).classifyCreateDirRefusal _ _) fun _ => clean_pure _
    · exact clean_pure _

theorem commandOr_clean {c : Command} (hc : c.opensData = false)
    {classify : FtpError → Io RemoteError} (h : ∀ e, Clean v (Done .done) (classify e)) :
    Clean v (Done .done) (TokioFtpFs.commandOr c classify) := by
  refine clean_seq (runCommand_clean hv hc) fun r => ?_
  split
  · exact clean_pure _
  · exact clean_seq (clean_mapRefusal h) fun _ => clean_pure _

theorem exec_clean (cmd : Str) : Clean v (Done .done) (TokioFtpFs.exec X cmd) := by
  refine section_follows hv trivial trivial (fun _ => rfl) (fun h D' hD => call_follows hD)
    (fun _ h => h) fun h r m hm => ?_
  cases r with
  | ok reply =>
    obtain rfl : m = .sec .locked h false := hm
    refine follows_seq (complete_follows hv (.inl rfl)) fun _ m hm => ?_
    exact follows_pure hm
  | error e =>
    refine follows_seq (complete_follows hv (.inl hm)) fun _ m hm => ?_
    exact follows_seq (recordLate_follows hm rfl) fun _ m hm => follows_pure hm

/-! ## Transfers -/

/-- The section of `open` records early, as the blocking client does; each of its calls
may be dropped. -/
theorem openTransfer_follows (h : Conn) (remote : Str) (offset : Nat) :
    Follows v (Done .done) (TokioFtpFs.openTransfer X h remote offset) (.sec .locked h false)
      (Holding Prod.fst) := by
  have hcall : ∀ c d, Follows v (Done .done) (TokioFtpFs.guarded (TokioFtpFs.call h c))
      (.sec .locked h d) (Answered .locked h c) := fun c d =>
    guarded_follows (call_follows (drops_streamGuard hv h))
  have hreq : Follows v (Done .done)
      (if 0 < offset then TokioFtpFs.guarded (requestOffset X TokioFtpFs.call h offset)
        else pure (.ok false)) (.sec .locked h false) (Requested h) := by
    split
    · exact guarded_follows
        (requestOffset_follows X (fun c => call_follows (drops_streamGuard hv h)) offset)
    · exact follows_pure rfl
  refine follows_seq hreq fun r m hm => ?_
  cases r with
  | error e =>
    obtain ⟨d, rfl, hd⟩ := hm
    refine follows_seq (recordRemoteError_follows hd) fun _ m hm => ?_
    subst hm
    exact follows_step fun _ => rfl
  | ok resumed =>
    obtain rfl : m = .sec .locked h false := hm
    refine follows_seq (hcall _ _) fun result m hm => ?_
    split
    · -- the reset starts from whatever the refused transfer left
      obtain ⟨d, rfl⟩ : ∃ d, m = .sec .locked h d := by
        cases result with
        | ok _ => simp_all [Except.isOk, Except.toBool]
        | error e => exact ⟨_, hm⟩
      refine follows_seq (hcall _ _) fun reset m hm => ?_
      cases reset with
      | ok _ =>
        obtain rfl : m = .sec .locked h false := hm
        refine follows_seq (hcall _ _) fun result m hm => ?_
        exact startTransfer_follows rfl hm fun r m hm => completeOpened_follows rfl hm
      | error e =>
        obtain rfl : m = .sec .locked h _ := hm
        exact follows_step fun _ => follows_step fun _ => rfl
    · exact startTransfer_follows rfl hm fun r m hm => completeOpened_follows rfl hm

/-- `open` ends with a stream in hand (`own`), or with nothing. -/
theorem open_follows (path : Path) (opts : ReadOptions) :
    Follows v (Done .done) (TokioFtpFs.open' X path opts) .shr (Handed Out.ofRead) := by
  refine clean_withRemotePath (fun _ => trivial) fun remote => ?_
  refine follows_seq (lockStream_follows trivial trivial) fun r m hr => ?_
  cases r with
  | error e =>
    obtain rfl : m = .shr := hr
    exact follows_pure trivial
  | ok =>
    obtain ⟨h, rfl⟩ := hr
    refine follows_seq guardStream_follows fun stream m hm => ?_
    obtain ⟨rfl, rfl⟩ := hm
    refine follows_seq (openTransfer_follows hv X stream remote _) fun r m hm => ?_
    cases r with
    | error e =>
      obtain rfl : m = .shr := hm
      exact follows_pure trivial
    | ok r =>
      refine follows_seq (mapRefusal_follows ((client_clean hv X).classifyFileRefusal path) hm)
        fun r m hm => ?_
      cases r with
      | error e =>
        obtain rfl : m = .shr := hm
        exact follows_pure trivial
      | ok t =>
        obtain rfl : m = .own t.1 := hm
        show Follows v _ (TokioFtpFs.skipTo X _ _ _) _ _
        unfold TokioFtpFs.skipTo
        split
        · refine follows_seq (skipPrefix_follows X rfl _) fun r m hm => ?_
          obtain ⟨hs, rfl⟩ := hm
          split
          · refine follows_seq (finishAfterSkip_follows X hs _) fun _ m hm => ?_
            subst hm
            exact follows_pure trivial
          · exact follows_pure ⟨t.1, hs, rfl⟩
        · exact follows_pure ⟨t.1, rfl, rfl⟩

/-- So do `create` and `append`. -/
theorem upload_follows {c : Str → Command} (hc : ∀ remote, (c remote).opensData = true)
    (path : Path) : Follows v (Done .done) (TokioFtpFs.upload X c path) .shr (Handed Out.ofWrite) := by
  refine clean_withRemotePath (fun _ => trivial) fun remote => ?_
  refine follows_seq (lockStream_follows trivial trivial) fun r m hr => ?_
  cases r with
  | error e =>
    obtain rfl : m = .shr := hr
    exact follows_pure trivial
  | ok =>
    obtain ⟨h, rfl⟩ := hr
    refine follows_seq guardStream_follows fun stream m hm => ?_
    obtain ⟨rfl, rfl⟩ := hm
    refine follows_seq (guarded_follows (call_follows (drops_streamGuard hv stream)))
      fun r m hm => ?_
    refine startTransfer_follows (hc remote) hm fun r m hm => ?_
    refine follows_seq (P := fun _ m => Holding id (.ok r) m) ?_ fun _ m hm => ?_
    · cases r with
      | ok b =>
        obtain ⟨rfl, rfl⟩ := hm
        exact follows_last fun _ => rfl
      | error e =>
        obtain rfl : m = .sec .locked stream false := hm
        exact follows_last fun _ => rfl
    · refine follows_seq (mapRefusal_follows ((client_clean hv X).classifyCreateRefusal path) hm)
        fun r m hm => ?_
      cases r with
      | error e =>
        obtain rfl : m = .shr := hm
        exact follows_pure trivial
      | ok h =>
        obtain rfl : m = .own h := hm
        exact follows_pure ⟨h, rfl, rfl⟩

/-! ## Connecting -/

omit hv in
/-- A new stream that is dropped is closed. -/
theorem cut_unique {m : Mode} (hm : (∃ ok, m = .uh false h ok) ∨ (∃ c, m = .busy .unique h c)) :
    (m.cut v).All fun m => (protocol v).FollowsGlue (Done .done) [.close h] m := by
  cases v with
  | cancel =>
    obtain ⟨ok, rfl⟩ | ⟨c, rfl⟩ := hm <;> simp [Typestate.FollowsGlue, Done]
  | _ => obtain ⟨ok, rfl⟩ | ⟨c, rfl⟩ := hm <;> exact fun _ => trivial

omit hv in
/-- A call on the local of `connect` or `disconnect`, which a drop closes. -/
theorem call_unique_follows {c : Command} (hc : c.opensData = false) :
    Follows v (fun m => (protocol v).FollowsGlue (Done .done) [.close h] m) (TokioFtpFs.call h c)
      (.uh false h true) fun r m => m = .uh false h (!needsReconnect r) := by
  unfold TokioFtpFs.call
  refine follows_await (cut_unique (.inl ⟨_, rfl⟩)) fun _ => ?_
  simp only [next, onSend, reduceCtorEq, if_false, if_true, Next.All, hc, Bool.false_eq_true]
  refine follows_last_await (cut_unique (.inr ⟨_, rfl⟩)) fun r => ?_
  simp only [next, onRecv, reduceCtorEq, if_false, and_self, if_true, hc, Bool.false_eq_true,
    Next.All]

omit hv in
/-- `connect` needs no mutex, being alone with the client. -/
theorem hasUsableStream_follows :
    Follows v D TokioFtpFs.hasUsableStream (.uq false none) fun r m =>
      if r then m = .uq false (some true) else m = .un false ∨ m = .uq false (some false) := by
  refine follows_step fun usable => ?_
  cases usable with
  | false => exact .inr rfl
  | true =>
    refine follows_step fun slot => ?_
    cases slot with
    | none => exact .inl rfl
    | some h => exact rfl

omit hv in
theorem discardUnusable_follows {m : Mode} (hm : m = .un false ∨ m = .uq false (some false)) :
    Follows v D TokioFtpFs.discardUnusable m fun _ m => m = .un false := by
  rcases hm with rfl | rfl
  · refine follows_step fun usable => ?_
    cases usable with
    | true => exact rfl
    | false =>
      refine follows_step fun slot => ?_
      cases slot with
      | none => exact follows_step fun _ => follows_last fun _ => rfl
      | some h => exact trivial
  · refine follows_step fun usable => ?_
    cases usable with
    | true => exact trivial
    | false =>
      refine follows_step fun slot => ?_
      cases slot with
      | none => exact follows_step fun _ => follows_last fun _ => rfl
      | some h =>
        refine follows_step fun _ => ?_
        simp only [next, onClose, reduceCtorEq, if_false, if_true, Next.All]
        exact follows_step fun _ => follows_last fun _ => rfl

omit hv in
/-- A new stream is set up as a local (`uh`), then installed or closed. -/
theorem connectStream_follows (o : Options) :
    Follows v (Done .done) (TokioFtpFs.connectStream o) (.un false) fun _ m => Done .done m := by
  have hcut : ((Mode.un false).cut v).All (Done .done) := by
    cases v <;> exact trivial
  refine follows_await hcut fun r => ?_
  cases r with
  | error e => exact trivial
  | ok h =>
    refine follows_seq (Typestate.follows_holding.mpr
      (setup_follows (fun c hc => call_unique_follows hc) o)) fun r m hm => ?_
    obtain ⟨ok, rfl, hok⟩ := hm
    cases r with
    | error e =>
      refine follows_step fun _ => ?_
      simp only [next, onClose, reduceCtorEq, if_false, if_true, Next.All]
      exact trivial
    | ok _ =>
      obtain rfl : ok = true := hok rfl
      refine follows_step fun _ => follows_step fun _ => follows_step fun _ => ?_
      simp only [next, onPut, reduceCtorEq, if_false, if_true, Next.All]
      exact follows_step fun _ => trivial

omit hv in
/-- `connect` looks at the transfer flag first (`u0`). -/
theorem connect_follows (o : Options) :
    Follows v (Done .done) (TokioFtpFs.connect o) .u0 fun _ m => Done .done m := by
  refine follows_step fun active => ?_
  cases active with
  | true => exact trivial
  | false =>
    refine follows_seq hasUsableStream_follows fun r m hm => ?_
    cases r with
    | true =>
      obtain rfl : m = .uq false (some true) := hm
      exact trivial
    | false =>
      refine follows_seq (discardUnusable_follows hm) fun _ m hm => ?_
      subst hm
      exact connectStream_follows o

omit hv in
/-- `QUIT` on the local, its failure recorded, the local closed. -/
theorem quit_follows (h : Conn) :
    Follows v (Done .done) (TokioFtpFs.quit h) (.uh false h true) fun _ m => Done .done m := by
  refine follows_seq (Typestate.follows_holding.mpr (call_unique_follows rfl)) fun r m hm => ?_
  subst hm
  have hclose : ∀ ok (r : RemoteResult Unit), Follows v (Done .done) (do step (.close h); pure r)
      (.uh false h ok) fun _ m => Done .done m := fun ok r => by
    refine follows_step fun _ => ?_
    simp only [next, onClose, reduceCtorEq, if_false, if_true, Next.All]
    exact trivial
  cases r with
  | ok _ => exact hclose _ _
  | error e =>
    have hrec : Follows v (Done .done) (FtpFs.recordRemoteError (ftpError e))
        (.uh false h (!needsReconnect (.error e : FtpResult Response))) fun _ m =>
          m = .uh false h (!needsReconnect (.error e : FtpResult Response)) := by
      unfold FtpFs.recordRemoteError
      split
      · exact follows_last fun _ => rfl
      · exact follows_pure rfl
    refine follows_seq hrec fun _ m hm => ?_
    subst hm
    exact hclose _ _

omit hv in
/-- `disconnect` empties the slot, and both caches, before its one await. -/
theorem disconnect_follows :
    Follows v (Done .done) TokioFtpFs.disconnect .u0 fun _ m => Done .done m := by
  refine follows_step fun active => ?_
  cases active with
  | true => exact trivial
  | false =>
    refine follows_step fun usable => follows_step fun slot => ?_
    cases slot with
    | none => exact trivial
    | some h =>
      refine follows_step fun _ => follows_step fun _ => follows_step fun _ => ?_
      cases usable with
      | false =>
        refine follows_step fun _ => ?_
        simp only [next, onClose, reduceCtorEq, if_false, if_true, Next.All]
        exact trivial
      | true => exact quit_follows h

omit hv in
theorem isConnected_clean : Clean v D TokioFtpFs.isConnected := by
  refine follows_step fun usable => ?_
  cases usable with
  | false => exact rfl
  | true =>
    refine follows_step fun connected => ?_
    cases connected with
    | true => exact rfl
    | false => exact follows_last fun _ => rfl

omit hv in
theorem welcomeMessage_clean : Clean v D TokioFtpFs.welcomeMessage :=
  follows_last fun _ => rfl

/-! ## Every operation -/

/-- **Every operation keeps to the protocol**, wherever it is dropped. -/
theorem run_follows (op : Op) :
    Follows v (Done .done) (TokioFtpFs.run X op) (enters op) Done := by
  have hclean : ∀ {α : Type} {p : Io α}, Clean v (Done .done) p →
      Follows v (Done .done) (leaving p nothing) .shr Done := fun h =>
    leaving_follows (Typestate.follows_mono h fun _ m hm => by subst hm; trivial)
  have hC := client_clean hv X
  cases op with
  | connect o => exact leaving_follows (connect_follows o)
  | disconnect => exact leaving_follows disconnect_follows
  | isConnected => exact hclean isConnected_clean
  | welcomeMessage => exact hclean welcomeMessage_clean
  | listDir path => exact hclean (hC.listDir path)
  | stat path => exact hclean (hC.stat path)
  | exists' path => exact hclean (hC.exists' path)
  | setMetadata path => exact hclean (clean_unsupported _)
  | createDir path => exact hclean (createDir_clean hv X path)
  | removeFile path =>
    exact hclean (clean_withRemotePath (fun _ => rfl) fun _ =>
      commandOr_clean hv rfl (hC.classifyFileRefusal path))
  | removeDir path =>
    exact hclean (clean_withRemotePath (fun _ => rfl) fun _ =>
      commandOr_clean hv rfl (hC.classifyRemoveDirRefusal path))
  | rename src dest =>
    exact hclean (clean_withRemotePath (fun _ => rfl) fun _ =>
      clean_withRemotePath (fun _ => rfl) fun _ =>
        commandOr_clean hv rfl (hC.classifyRenameRefusal src dest))
  | copy src dest => exact hclean (clean_unsupported _)
  | symlink path target => exact hclean (clean_unsupported _)
  | open' path opts => exact leaving_follows (open_follows hv X path opts)
  | create path => exact leaving_follows (upload_follows hv X (fun _ => rfl) path)
  | append path => exact leaving_follows (upload_follows hv X (fun _ => rfl) path)
  | exec cmd => exact hclean (exec_clean hv X cmd)

omit hv in
/-- **So does every operation on an owned stream.** -/
theorem runStream_follows {s : OwnedStream} (hs : s.inner = some h) {op : StreamOp}
    {p : Io Out} (hp : TokioFtpFs.runStream X s op = some p) :
    Follows v (Done .done) p (.own h) Done := by
  have hdone : ∀ {α : Type} {p : Io α},
      (Follows v (Done .done) p (.own h) fun _ m => m = .idle) →
      Follows v (Done .done) (leaving p nothing) (.own h) Done := fun h =>
    leaving_follows (Typestate.follows_mono h fun _ m hm => by subst hm; trivial)
  cases s with
  | read s =>
    cases op with
    | read n =>
      cases hp
      exact leaving_follows (Typestate.follows_mono (read_follows X hs n) fun r m hm =>
        ⟨h, hm.1, hm.2⟩)
    | finish => cases hp; exact hdone (finish_follows X hs)
    | drop => cases hp; exact hdone (drop_follows hs)
    | write buf => cases hp
    | flush => cases hp
  | write s =>
    cases op with
    | write buf =>
      cases hp
      exact leaving_follows (Typestate.follows_mono (write_follows hs buf) fun _ m hm => ⟨h, hs, hm⟩)
    | flush =>
      cases hp
      exact leaving_follows (Typestate.follows_mono (flush_follows hs) fun _ m hm => ⟨h, hs, hm⟩)
    | finish => cases hp; exact hdone (finishWriteStream_follows X hs)
    | drop => cases hp; exact hdone (dropWrite_follows hs)
    | read n => cases hp

end RemotefsFtp.L5.Tokio
