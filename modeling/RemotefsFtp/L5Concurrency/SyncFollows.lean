import RemotefsFtp.L5Concurrency.Follows

/-!
# The blocking client keeps to the strict protocol

One lemma for each function of `sync.rs` and `sync/stream.rs`: the mode it
starts in and the modes it can end in, whatever the steps answer.

Results:
* **`run_follows`**: every operation follows the protocol from its start, and
  hands out a stream only together with the transfer.
* **`runStream_follows`**: so does every operation on an owned stream.
-/
namespace RemotefsFtp.L5.Sync

open L1 (Str Path)
open L2 L3
open Core (Typestate Next Prog)
open Mode

variable {D : Mode → Prop} {α β : Type}

/-- A call in a section, the builder's failure included: `sec`, `busy`, and back
(`Answered`). -/
theorem call_follows {p : Place} (hp : p ≠ .unique) {h : Conn} {c : Command} {d : Bool} :
    Follows .strict D (call h c) (.sec p h d) (Answered p h c) := by
  have hrecv : Follows .strict D (step (.recv h c)) (.busy p h c) (Answered p h c) :=
    follows_last fun r => answered_next hp r
  refine follows_step fun _ => ?_
  simp only [next, onSend, hp, ne_eq, not_false_eq_true, and_self, if_true, reduceCtorEq, if_false,
    Next.All]
  split
  · refine follows_step fun r => ?_
    simp only [next, onBuilder, reduceCtorEq, if_false, hp, ne_eq, not_false_eq_true, and_self,
      if_true]
    cases r with
    | false => exact hrecv
    | true =>
      refine follows_step fun _ => ?_
      simp only [next, onStoreUsable, reduceCtorEq, if_false, hp]
      exact hrecv
  · exact hrecv

/-- A call of `connect` or `disconnect` on their local. -/
theorem call_unique_follows {h : Conn} {c : Command} (hc : c.opensData = false) :
    Follows .strict D (call h c) (.uh false h true) fun r m => m = .uh false h (!needsReconnect r) := by
  refine follows_step fun _ => ?_
  simp only [hc, Bool.false_eq_true, if_false]
  simp only [next, onSend, reduceCtorEq, if_false, if_true, Next.All]
  exact follows_last fun r => by simp [hc]

/-! ## Sections -/

/-- Where the closure of a section may end: released without a failure left,
or with an error that `record_remote_error` records. -/
def Released (Q : RemoteResult α → Mode → Prop) (r : RemoteResult α) (m : Mode) : Prop :=
  match r with
  | .ok a => (m.next .strict .unlock ()).All (Q (.ok a))
  | .error e => ∃ h d, m = .sec .locked h d ∧ (d = true → remoteErrorRequiresReconnect e = true)

/-- `with_stream`: `f` runs under the mutex, past both checks, and its failure is
recorded before the release. -/
theorem withStream_follows {f : Conn → Io (RemoteResult α)} {Q : RemoteResult α → Mode → Prop}
    (herr : ∀ e, Q (.error e) .shr)
    (hf : ∀ h, Follows .strict D (f h) (.sec .locked h false) (Released Q)) :
    Follows .strict D (FtpFs.withStream f) .shr Q := by
  refine follows_step fun _ => follows_seq checkOperationState_follows fun r m hr => ?_
  cases r with
  | error e =>
    refine follows_step fun _ => ?_
    rcases hr with rfl | rfl <;> exact herr e
  | ok =>
    obtain rfl : m = .chk2 := hr
    refine follows_step fun slot => ?_
    cases slot with
    | none => exact follows_step fun _ => herr _
    | some h =>
      refine follows_seq (hf h) fun r m hm => ?_
      cases r with
      | ok a => exact follows_step fun _ => hm
      | error e =>
        obtain ⟨h, d, rfl, hd⟩ := hm
        refine follows_seq (recordRemoteError_follows hd) fun _ m hm => ?_
        subst hm
        exact follows_step fun _ => herr e

/-- The stream goes back before the flag goes down. -/
theorem dropExclusive_follows {h : Conn} {m : Mode}
    (hm : m = .sec .exclusive h false ∨ m = .fini .exclusive h false) :
    Follows .strict D (FtpFs.dropExclusive h) m fun _ m => m = .shr := by
  have hput : Follows .strict D (do step (.put h); FtpFs.unlock; step .exclusiveDrop) (.exLk h)
      fun _ m => m = .shr := by
    refine follows_step fun _ => ?_
    simp only [next, onPut, reduceCtorEq, if_false, if_true, Next.All]
    exact follows_step fun _ => follows_last fun _ => rfl
  refine follows_step fun _ => ?_
  rcases hm with rfl | rfl <;> exact hput

/-- A closure that runs on the stream taken out of the slot. -/
theorem withExclusiveStream_follows {f : Conn → Io (RemoteResult α)}
    (hf : ∀ h, Follows .strict D (f h) (.sec .exclusive h false) fun _ m =>
      m = .sec .exclusive h false ∨ m = .fini .exclusive h false) :
    Clean .strict D (FtpFs.withExclusiveStream f) := by
  refine follows_step fun _ => follows_seq checkOperationState_follows fun r m hr => ?_
  cases r with
  | error e =>
    refine follows_step fun _ => ?_
    rcases hr with rfl | rfl <;> exact rfl
  | ok =>
    obtain rfl : m = .chk2 := hr
    refine follows_step fun slot => ?_
    cases slot with
    | none => exact follows_step fun _ => rfl
    | some h =>
      refine follows_step fun _ => follows_step fun _ => follows_step fun _ => ?_
      refine follows_seq (hf h) fun r m hm => ?_
      have hrec : Follows .strict D (FtpFs.recordRemoteResult r) m fun _ m =>
          m = .sec .exclusive h false ∨ m = .fini .exclusive h false := by
        unfold FtpFs.recordRemoteResult
        split
        · exact hm
        · unfold FtpFs.recordRemoteError
          split
          · rcases hm with rfl | rfl
            · exact follows_last fun _ => .inl rfl
            · exact follows_last fun _ => .inr rfl
          · exact hm
      exact follows_seq hrec fun _ m hm =>
        follows_seq (dropExclusive_follows hm) fun _ m hm => follows_pure hm

/-- A listing ends where it was refused (`sec`), or read and completed (`fini`). -/
theorem readListBytes_follows {h : Conn} {remote : Str} :
    Follows .strict D (FtpFs.readListBytes h remote) (.sec .exclusive h false)
      (Listed .exclusive h) := by
  refine follows_seq (call_follows (by simp)) fun r m hm => ?_
  cases r with
  | error e => exact .inl hm
  | ok _ =>
    obtain rfl : m = .data .exclusive h false := hm
    refine follows_step fun read => ?_
    simp only [next, onReadToEnd, reduceCtorEq, if_false, ne_eq, not_false_eq_true, and_self,
      if_true, Bool.false_or, Next.All]
    refine follows_step fun fin => ?_
    simp only [next, onFinish, reduceCtorEq, if_false, ne_eq, not_false_eq_true, and_self,
      if_true, Next.All]
    exact .inr (by rw [listOutcome_snd])

/-- The failure of a listing is recorded while the listing has the stream. -/
theorem listDirRaw_clean (X : Ext) (path : Path) (remote : Str) :
    Clean .strict D (FtpFs.listDirRaw X path remote) := by
  refine clean_seq (withExclusiveStream_follows fun h => ?_) fun r => ?_
  · refine follows_seq readListBytes_follows fun r m hm => ?_
    obtain ⟨r, req⟩ := r
    cases req with
    | true =>
      refine follows_step fun _ => ?_
      rcases hm with rfl | rfl
      · exact .inl rfl
      · exact .inr rfl
    | false => exact hm
  · split
    · exact clean_pure _
    · exact clean_parseListing X path _

theorem client_clean (X : Ext) : CleanClient .strict D (FtpFs.client X) where
  listDirRaw := listDirRaw_clean X
  statRoot _ := withStream_follows (fun _ => rfl) fun _ => rfl

/-! ## Streams -/

variable (X : Ext)

/-- The owner reads: the mode stays `own`, as over a whole `read`. -/
theorem readLimited_follows {h : Conn} {remaining : Option Nat} {n : Nat} :
    Follows .strict D (FtpReadStream.readLimited X h remaining n) (.own h) fun _ m => m = .own h := by
  unfold FtpReadStream.readLimited
  split
  · refine follows_step fun r => ?_
    simp only [next, onUse, reduceCtorEq, if_false, if_true, Next.All]
    cases r <;> exact follows_pure rfl
  · rename_i budget
    split
    · exact follows_pure rfl
    · refine follows_step fun r => ?_
      simp only [next, onUse, reduceCtorEq, if_false, if_true, Next.All]
      cases r with
      | error e => exact follows_pure rfl
      | ok bytes =>
        -- the buffer given to the socket is no longer than the budget
        have hb : bytes.1.length ≤ budget := by
          have h1 := bytes.2
          have h2 : readLimit X budget n ≤ budget := by
            unfold readLimit; split <;> omega
          omega
        simp only [hb, if_true]
        exact follows_pure rfl

theorem read_follows {s : ReadStream} {h : Conn} (hs : s.inner = some h) (n : Nat) :
    Follows .strict D (FtpReadStream.read X s n) (.own h) fun r m => r.2.inner = some h ∧ m = .own h := by
  unfold FtpReadStream.read
  split
  · exact follows_pure ⟨hs, rfl⟩
  · rw [hs]
    refine follows_seq (readLimited_follows X) fun r m hm => ?_
    subst hm
    obtain ⟨result, remaining⟩ := r
    cases result with
    | error e => exact follows_pure ⟨rfl, rfl⟩
    | ok bytes =>
      dsimp only
      split <;> exact follows_pure ⟨rfl, rfl⟩

/-- Skipping is reading. -/
theorem skipPrefix_follows {s : ReadStream} {h : Conn} (hs : s.inner = some h) (n : Nat) :
    Follows .strict D (FtpReadStream.skipPrefix X s n) (.own h) fun r m =>
      r.2.inner = some h ∧ m = .own h := by
  unfold FtpReadStream.skipPrefix
  rw [hs]
  refine follows_step fun r => ?_
  simp only [next, onUse, reduceCtorEq, if_false, if_true, Next.All]
  cases r with
  | error e => exact follows_pure ⟨hs, rfl⟩
  | ok skipped =>
    dsimp only
    split
    · exact follows_pure ⟨rfl, rfl⟩
    · exact follows_pure ⟨hs, rfl⟩

/-- Finalizing: at EOF at once, else behind a drain (`fin`). A failure of either is
left to the caller (`don`). -/
theorem finishRead_follows {h : Conn} {atEof : Bool} :
    Follows .strict D (FtpReadStream.finishRead X h atEof) (.own h) fun r m => m = .don h (!r.isOk) := by
  cases atEof with
  | true =>
    refine follows_step fun fin => ?_
    simp only [next, onFinish, reduceCtorEq, if_false, if_true, Next.All]
    exact follows_pure (by simp [cleanupOutcome_isOk, isErr_mapFtpError])
  | false =>
    refine follows_step fun drained => ?_
    simp only [next, onDrain, reduceCtorEq, if_false, if_true, Next.All]
    refine follows_step fun fin => ?_
    simp only [next, onFinish, reduceCtorEq, if_false, if_true, Next.All]
    exact follows_pure (by simp [cleanupOutcome_isOk, isErr_mapFtpError, isErr_mapIoError])

/-- ... who records it while the guard is alive. -/
theorem finishInner_follows {s : ReadStream} {h : Conn} (hs : s.inner = some h) :
    Follows .strict D (FtpReadStream.finishInner X s) (.own h) fun r m =>
      r.2.inner = none ∧ m = .don h false := by
  unfold FtpReadStream.finishInner
  rw [hs]
  refine follows_seq (finishRead_follows X) fun r m hm => ?_
  subst hm
  exact follows_seq invalidate_follows fun _ m hm => follows_pure ⟨rfl, hm⟩

/-- The end of a stream whose transfer is finalized. -/
theorem drop_done_follows {s : ReadStream} (hs : s.inner = none) {h : Conn} :
    Follows .strict D (FtpReadStream.drop X s) (.don h false) fun _ m => m = .idle := by
  unfold FtpReadStream.drop
  rw [hs]
  exact follows_last fun _ => rfl

/-- Dropping and finishing a stream both finalize its transfer, then drop the guard. -/
theorem drop_follows {s : ReadStream} {h : Conn} (hs : s.inner = some h) :
    Follows .strict D (FtpReadStream.drop X s) (.own h) fun _ m => m = .idle := by
  unfold FtpReadStream.drop
  rw [hs]
  refine follows_seq (finishRead_follows X) fun r m hm => ?_
  subst hm
  refine follows_seq invalidate_follows fun _ m hm => ?_
  subst hm
  exact follows_last fun _ => rfl

theorem finish_follows {s : ReadStream} {h : Conn} (hs : s.inner = some h) :
    Follows .strict D (FtpReadStream.finish X s) (.own h) fun _ m => m = .idle := by
  refine follows_seq (finishInner_follows X hs) fun r m hm => ?_
  obtain ⟨hn, rfl⟩ := hm
  exact follows_seq (drop_done_follows X hn) fun _ m hm => follows_pure hm

/-- `open` gives up a stream whose prefix it could not skip. -/
theorem finishAfterSkip_follows {s : ReadStream} {h : Conn} (hs : s.inner = some h)
    (skip : RemoteError) :
    Follows .strict D (FtpReadStream.finishAfterSkip X s skip) (.own h) fun _ m => m = .idle := by
  refine follows_seq (finishInner_follows X hs) fun r m hm => ?_
  obtain ⟨hn, rfl⟩ := hm
  refine follows_seq (drop_done_follows X hn) fun _ m hm => ?_
  split <;> exact follows_pure hm

/-- The owner writes and flushes: the mode stays `own`. -/
theorem write_follows {s : WriteStream} {h : Conn} (hs : s.inner = some h) (buf : List UInt8) :
    Follows .strict D (FtpWriteStream.write s buf) (.own h) fun _ m => m = .own h := by
  unfold FtpWriteStream.write
  rw [hs]
  exact follows_last fun _ => by simp

theorem flush_follows {s : WriteStream} {h : Conn} (hs : s.inner = some h) :
    Follows .strict D (FtpWriteStream.flush s) (.own h) fun _ m => m = .own h := by
  unfold FtpWriteStream.flush
  rw [hs]
  exact follows_last fun _ => by simp

/-- An upload is flushed, then finalized. -/
theorem finishWrite_follows {h : Conn} :
    Follows .strict D (FtpWriteStream.finishWrite X h) (.own h) fun r m => m = .don h (!r.isOk) := by
  refine follows_step fun flushed => ?_
  simp only [next, onDrain, reduceCtorEq, if_false, if_true, Next.All]
  refine follows_step fun fin => ?_
  simp only [next, onFinish, reduceCtorEq, if_false, if_true, Next.All]
  exact follows_pure (by simp [cleanupOutcome_isOk, isErr_mapFtpError, isErr_mapIoError])

/-- The two ends of an upload. -/
theorem dropWrite_follows {s : WriteStream} {h : Conn} (hs : s.inner = some h) :
    Follows .strict D (FtpWriteStream.drop X s) (.own h) fun _ m => m = .idle := by
  unfold FtpWriteStream.drop
  rw [hs]
  refine follows_seq (finishWrite_follows X) fun r m hm => ?_
  subst hm
  refine follows_seq invalidate_follows fun _ m hm => ?_
  subst hm
  exact follows_last fun _ => rfl

theorem finishWriteStream_follows {s : WriteStream} {h : Conn} (hs : s.inner = some h) :
    Follows .strict D (FtpWriteStream.finish X s) (.own h) fun _ m => m = .idle := by
  unfold FtpWriteStream.finish
  rw [hs]
  refine follows_seq (finishWrite_follows X) fun r m hm => ?_
  subst hm
  refine follows_seq invalidate_follows fun _ m hm => ?_
  subst hm
  exact follows_step fun _ => rfl

/-! ## Commands -/

/-- A command without a transfer: a section that records its failure itself. -/
theorem command_follows (c : Command) (hc : c.opensData = false) :
    Clean .strict D (FtpFs.command c) := by
  refine withStream_follows (fun _ => rfl) fun h => ?_
  refine follows_seq (call_follows (by simp)) fun r m hm => ?_
  refine follows_seq (recordFtpResult_follows hm) fun _ m hm => ?_
  have : m = .sec .locked h false := by cases r <;> simp_all
  subst this
  exact follows_pure rfl

/-- A command with a classified refusal. -/
theorem clean_command {c : Command} (hc : c.opensData = false)
    {k : RemoteResult (FtpResult Response) → Io β} (hk : ∀ r, Clean .strict D (k r)) :
    Clean .strict D (FtpFs.command c >>= k) :=
  clean_seq (command_follows c hc) hk

/-- `remove_dir` records a second time, with nothing held. -/
theorem clean_recordFtpError (e : FtpError) : Clean .strict D (FtpFs.recordFtpError e) := by
  unfold FtpFs.recordFtpError
  split
  · exact follows_last fun _ => rfl
  · exact clean_pure _

/-- The namespace commands: one section, then the probes of the refusal. -/
theorem createDir_clean (path : Path) : Clean .strict D (FtpFs.createDir X path) := by
  refine clean_withRemotePath (fun _ => rfl) fun remote => clean_command rfl fun r => ?_
  split
  · exact clean_pure _
  · exact clean_pure _
  · split
    · exact clean_seq ((client_clean X).classifyCreateDirRefusal _ _) fun _ => clean_pure _
    · exact clean_pure _

theorem removeFile_clean (path : Path) : Clean .strict D (FtpFs.removeFile X path) := by
  refine clean_withRemotePath (fun _ => rfl) fun remote => clean_command rfl fun r => ?_
  split
  · exact clean_pure _
  · exact clean_seq (clean_mapRefusal ((client_clean X).classifyFileRefusal path)) fun _ =>
      clean_pure _

theorem removeDir_clean (path : Path) : Clean .strict D (FtpFs.removeDir X path) := by
  refine clean_withRemotePath (fun _ => rfl) fun remote => clean_command rfl fun r => ?_
  split
  · exact clean_pure _
  · refine clean_seq (clean_mapRefusal fun e => ?_) fun _ => clean_pure _
    exact clean_seq (clean_recordFtpError e) fun _ =>
      (client_clean X).classifyRemoveDirRefusal path e

theorem rename_clean (src dest : Path) : Clean .strict D (FtpFs.rename X src dest) := by
  refine clean_withRemotePath (fun _ => rfl) fun _ => ?_
  refine clean_withRemotePath (fun _ => rfl) fun _ => clean_command rfl fun r => ?_
  split
  · exact clean_pure _
  · exact clean_seq (clean_mapRefusal ((client_clean X).classifyRenameRefusal src dest)) fun _ =>
      clean_pure _

/-- `exec` leaves the recording to `with_stream`. -/
theorem exec_clean (cmd : Str) : Clean .strict D (FtpFs.exec X cmd) := by
  refine clean_seq (withStream_follows (fun _ => rfl) fun h => ?_) fun r => ?_
  · refine follows_seq (call_follows (by simp)) fun r m hm => ?_
    cases r with
    | ok _ =>
      obtain rfl : m = .sec .locked h false := hm
      exact follows_pure rfl
    | error e => exact follows_pure ⟨h, _, hm, id⟩
  · split <;> exact clean_pure _

/-! ## Transfers -/

/-- `Opened`, as `with_stream` sees it. -/
theorem released_of_opened {h : Conn} {stream : α → Conn} {a : α} (hs : stream a = h)
    {r : FtpResult α} {m : Mode} (hm : Opened h a r m) : Released (Holding stream) (.ok r) m := by
  cases r with
  | ok b =>
    obtain ⟨rfl, rfl⟩ := hm
    simp [Released, Holding, hs]
  | error e =>
    obtain rfl : m = .sec .locked h false := hm
    simp [Released, Holding]

/-- The section of `open`: `REST`, `RETR`, and behind a failed `RETR` the reset and a
second one. -/
theorem openTransfer_follows (h : Conn) (remote : Str) (offset : Nat) :
    Follows .strict D (FtpFs.openTransfer X h remote offset) (.sec .locked h false)
      (Released (Holding Prod.fst)) := by
  have hreq : Follows .strict D
      (if 0 < offset then requestOffset X call h offset else pure (.ok false))
      (.sec .locked h false) (Requested h) := by
    split
    · exact requestOffset_follows X (fun c => call_follows (by simp)) offset
    · exact follows_pure rfl
  refine follows_seq hreq fun r m hm => ?_
  cases r with
  | error e =>
    obtain ⟨d, rfl, hd⟩ := hm
    exact follows_pure ⟨h, d, rfl, hd⟩
  | ok resumed =>
    obtain rfl : m = .sec .locked h false := hm
    refine follows_seq (call_follows (by simp)) fun result m hm => ?_
    split
    · -- the reset starts from whatever the refused transfer left
      obtain ⟨d, rfl⟩ : ∃ d, m = .sec .locked h d := by
        cases result with
        | ok _ => simp_all [Except.isOk, Except.toBool]
        | error e => exact ⟨_, hm⟩
      refine follows_seq (call_follows (by simp)) fun reset m hm => ?_
      cases reset with
      | ok _ =>
        obtain rfl : m = .sec .locked h false := hm
        refine follows_seq (call_follows (by simp)) fun result m hm => ?_
        exact startTransfer_follows rfl hm fun r m hm => follows_pure (released_of_opened rfl hm)
      | error e =>
        obtain rfl : m = .sec .locked h _ := hm
        exact follows_step fun _ => ⟨h, false, rfl, fun hd => nomatch hd⟩
    · exact startTransfer_follows rfl hm fun r m hm => follows_pure (released_of_opened rfl hm)

/-- `open` ends with a stream in hand (`own`), or with nothing. -/
theorem open_follows (path : Path) (opts : ReadOptions) :
    Follows .strict D (FtpFs.open' X path opts) .shr (Handed Out.ofRead) := by
  refine clean_withRemotePath (fun _ => trivial) fun remote => ?_
  refine follows_seq (withStream_follows (fun _ => rfl) fun h =>
    openTransfer_follows X h remote _) fun r m hm => ?_
  cases r with
  | error e =>
    obtain rfl : m = .shr := hm
    exact follows_pure trivial
  | ok r =>
    refine follows_seq (mapRefusal_follows ((client_clean X).classifyFileRefusal path) hm)
      fun r m hm => ?_
    cases r with
    | error e =>
      obtain rfl : m = .shr := hm
      exact follows_pure trivial
    | ok t =>
      obtain rfl : m = .own t.1 := hm
      dsimp only
      split
      · refine follows_seq (skipPrefix_follows X rfl _) fun r m hm => ?_
        obtain ⟨hs, rfl⟩ := hm
        split
        · refine follows_seq (finishAfterSkip_follows X hs _) fun _ m hm => ?_
          subst hm
          exact follows_pure trivial
        · exact follows_pure ⟨t.1, hs, rfl⟩
      · exact follows_pure ⟨t.1, rfl, rfl⟩

/-- So do `create` and `append`. -/
theorem upload_follows {c : Str → Command} (hc : ∀ remote, (c remote).opensData = true)
    (path : Path) : Follows .strict D (FtpFs.upload X c path) .shr (Handed Out.ofWrite) := by
  refine clean_withRemotePath (fun _ => trivial) fun remote => ?_
  have hopen : ∀ h, Follows .strict D (do
      let result ← call h (c remote)
      FtpFs.recordFtpResult result
      let result ← FtpFs.withTransfer result h
      pure (.ok result)) (.sec .locked h false) (Released (Holding id)) := fun h =>
    follows_seq (call_follows (by simp)) fun r m hm =>
      startTransfer_follows (hc remote) hm fun r m hm => follows_pure (released_of_opened rfl hm)
  refine follows_seq (withStream_follows (fun _ => rfl) hopen) fun r m hm => ?_
  cases r with
  | error e =>
    obtain rfl : m = .shr := hm
    exact follows_pure trivial
  | ok r =>
    refine follows_seq (mapRefusal_follows ((client_clean X).classifyCreateRefusal path) hm)
      fun r m hm => ?_
    cases r with
    | error e =>
      obtain rfl : m = .shr := hm
      exact follows_pure trivial
    | ok h =>
      obtain rfl : m = .own h := hm
      exact follows_pure ⟨h, rfl, rfl⟩

/-! ## Connecting -/

/-- `connect` alone with the client (`uq`): a usable stream is a refusal to connect. -/
theorem hasUsableStream_follows :
    Follows .strict D FtpFs.hasUsableStream (.uq false none) fun r m =>
      if r then m = .uq false (some true) else m = .un false ∨ m = .uq false (some false) := by
  refine follows_step fun usable => ?_
  cases usable with
  | false => exact .inr rfl
  | true =>
    refine follows_step fun _ => follows_step fun slot => ?_
    cases slot with
    | none => exact follows_step fun _ => .inl rfl
    | some h => exact follows_step fun _ => rfl

/-- What was there is unusable, and closed: the slot is empty (`un`) from here on. -/
theorem discardUnusable_follows {m : Mode} (hm : m = .un false ∨ m = .uq false (some false)) :
    Follows .strict D FtpFs.discardUnusable m fun _ m => m = .un false := by
  rcases hm with rfl | rfl
  · refine follows_step fun usable => ?_
    cases usable with
    | true => exact rfl
    | false =>
      refine follows_step fun _ => follows_step fun slot => ?_
      cases slot with
      | none => exact follows_step fun _ => follows_last fun _ => rfl
      | some h => exact trivial
  · refine follows_step fun usable => ?_
    cases usable with
    | true => exact trivial
    | false =>
      refine follows_step fun _ => follows_step fun slot => ?_
      cases slot with
      | none => exact follows_step fun _ => follows_last fun _ => rfl
      | some h =>
        refine follows_step fun _ => ?_
        simp only [next, onClose, reduceCtorEq, if_false, if_true, Next.All]
        exact follows_step fun _ => follows_last fun _ => rfl

/-- A new stream is set up as a local (`uh`), then installed or closed. -/
theorem connectStream_follows (o : Options) :
    Follows .strict D (FtpFs.connectStream o) (.un false) fun _ m => Done .done m := by
  refine follows_step fun r => ?_
  cases r with
  | error e => exact trivial
  | ok h =>
    refine follows_seq (setup_follows (fun c hc => call_unique_follows hc) o) fun r m hm => ?_
    obtain ⟨ok, rfl, hok⟩ := hm
    cases r with
    | error e =>
      refine follows_step fun _ => ?_
      simp only [next, onClose, reduceCtorEq, if_false, if_true, Next.All]
      exact trivial
    | ok _ =>
      obtain rfl : ok = true := hok rfl
      refine follows_step fun _ => follows_step fun _ => ?_
      simp only [next, onPut, reduceCtorEq, if_false, if_true, Next.All]
      exact follows_step fun _ => trivial

/-- `connect` looks at the transfer flag first (`u0`). -/
theorem connect_follows (o : Options) :
    Follows .strict D (FtpFs.connect o) .u0 fun _ m => Done .done m := by
  refine follows_step fun active => ?_
  cases active with
  | true => exact trivial
  | false =>
    refine follows_seq hasUsableStream_follows fun r m hm => ?_
    cases r with
    | true =>
      obtain rfl : m = .uq false (some true) := hm
      exact trivial
    | false =>
      refine follows_seq (discardUnusable_follows hm) fun _ m hm => ?_
      subst hm
      exact connectStream_follows o

/-- `QUIT` on the local, its failure recorded, the local closed. -/
theorem quit_follows (h : Conn) :
    Follows .strict D (FtpFs.quit h) (.uh false h true) fun _ m => Done .done m := by
  refine follows_seq (call_unique_follows rfl) fun r m hm => ?_
  subst hm
  have hclose : ∀ ok (r : RemoteResult Unit), Follows .strict D (do step (.close h); pure r)
      (.uh false h ok) fun _ m => Done .done m := fun ok r => by
    refine follows_step fun _ => ?_
    simp only [next, onClose, reduceCtorEq, if_false, if_true, Next.All]
    exact trivial
  cases r with
  | ok _ => exact hclose _ _
  | error e =>
    have hrec : Follows .strict D (FtpFs.recordRemoteError (ftpError e))
        (.uh false h (!needsReconnect (.error e : FtpResult Response))) fun _ m =>
          m = .uh false h (!needsReconnect (.error e : FtpResult Response)) := by
      unfold FtpFs.recordRemoteError
      split
      · exact follows_last fun _ => rfl
      · exact follows_pure rfl
    refine follows_seq hrec fun _ m hm => ?_
    subst hm
    exact hclose _ _

/-- `disconnect` empties the slot before it says anything to the server. -/
theorem disconnect_follows :
    Follows .strict D FtpFs.disconnect .u0 fun _ m => Done .done m := by
  refine follows_step fun active => ?_
  cases active with
  | true => exact trivial
  | false =>
    refine follows_step fun usable => follows_step fun _ => follows_step fun slot => ?_
    cases slot with
    | none => exact follows_step fun _ => trivial
    | some h =>
      refine follows_step fun _ => follows_step fun _ => ?_
      cases usable with
      | false =>
        refine follows_step fun _ => ?_
        simp only [next, onClose, reduceCtorEq, if_false, if_true, Next.All]
        exact trivial
      | true => exact quit_follows h

/-- The two operations that only look. -/
theorem isConnected_clean : Clean .strict D FtpFs.isConnected := by
  refine follows_step fun usable => ?_
  cases usable with
  | false => exact rfl
  | true =>
    refine follows_step fun _ => follows_step fun slot => ?_
    cases slot with
    | some h => exact follows_step fun _ => rfl
    | none =>
      refine follows_step fun active => ?_
      cases active <;> exact follows_step fun _ => rfl

theorem welcomeMessage_clean : Clean .strict D FtpFs.welcomeMessage := by
  refine follows_step fun _ => follows_step fun slot => ?_
  cases slot with
  | none => exact follows_step fun _ => rfl
  | some h => exact follows_step fun _ => follows_step fun _ => rfl

/-! ## Every operation -/

/-- **Every operation keeps to the protocol**, and hands out a stream only
together with the transfer. -/
theorem run_follows (op : Op) : Follows .strict D (FtpFs.run X op) (enters op) Done := by
  have hclean : ∀ {α : Type} {p : Io α}, Clean .strict D p →
      Follows .strict D (leaving p nothing) .shr Done := fun h =>
    leaving_follows (Typestate.follows_mono h fun _ m hm => by subst hm; trivial)
  cases op with
  | connect o => exact leaving_follows (connect_follows o)
  | disconnect => exact leaving_follows disconnect_follows
  | isConnected => exact hclean isConnected_clean
  | welcomeMessage => exact hclean welcomeMessage_clean
  | listDir path => exact hclean ((client_clean X).listDir path)
  | stat path => exact hclean ((client_clean X).stat path)
  | exists' path => exact hclean ((client_clean X).exists' path)
  | setMetadata path => exact hclean (clean_unsupported _)
  | createDir path => exact hclean (createDir_clean X path)
  | removeFile path => exact hclean (removeFile_clean X path)
  | removeDir path => exact hclean (removeDir_clean X path)
  | rename src dest => exact hclean (rename_clean X src dest)
  | copy src dest => exact hclean (clean_unsupported _)
  | symlink path target => exact hclean (clean_unsupported _)
  | open' path opts => exact leaving_follows (open_follows X path opts)
  | create path => exact leaving_follows (upload_follows X (fun _ => rfl) path)
  | append path => exact leaving_follows (upload_follows X (fun _ => rfl) path)
  | exec cmd => exact hclean (exec_clean X cmd)

/-- **So does every operation on an owned stream.** -/
theorem runStream_follows {s : OwnedStream} {h : Conn} (hs : s.inner = some h) {op : StreamOp}
    {p : Io Out} (hp : FtpFs.runStream X s op = some p) : Follows .strict D p (.own h) Done := by
  have hdone : ∀ {α : Type} {p : Io α}, (Follows .strict D p (.own h) fun _ m => m = .idle) →
      Follows .strict D (leaving p nothing) (.own h) Done := fun h =>
    leaving_follows (Typestate.follows_mono h fun _ m hm => by subst hm; trivial)
  cases s with
  | read s =>
    cases op with
    | read n =>
      cases hp
      exact leaving_follows (Typestate.follows_mono (read_follows X hs n) fun r m hm =>
        ⟨h, hm.1, hm.2⟩)
    | finish => cases hp; exact hdone (finish_follows X hs)
    | drop => cases hp; exact hdone (drop_follows X hs)
    | write buf => cases hp
    | flush => cases hp
  | write s =>
    cases op with
    | write buf =>
      cases hp
      exact leaving_follows (Typestate.follows_mono (write_follows hs buf) fun _ m hm => ⟨h, hs, hm⟩)
    | flush =>
      cases hp
      exact leaving_follows (Typestate.follows_mono (flush_follows hs) fun _ m hm => ⟨h, hs, hm⟩)
    | finish => cases hp; exact hdone (finishWriteStream_follows X hs)
    | drop => cases hp; exact hdone (dropWrite_follows X hs)
    | read n => cases hp

end RemotefsFtp.L5.Sync
