import RemotefsFtp.L5Concurrency.Protocol
import RemotefsFtp.L2Remote.ListingTotal

/-!
# Following the protocol

The rules by which a program of either client is taken apart, and the
probing code both share: it starts and ends with nothing held, because the
listings it makes do.
-/
namespace RemotefsFtp.L5

open L1 (Str Path)
open L2 L3
open Core (Typestate Next Prog)
open Mode

variable {v : Variant} {D : Mode → Prop} {α β : Type}

/-- `p` follows the protocol from `m` and ends in `Q`; where it is dropped,
its glue ends in `D`. -/
abbrev Follows (v : Variant) (D : Mode → Prop) (p : Io α) (m : Mode) (Q : α → Mode → Prop) : Prop :=
  (protocol v).Follows D p m Q

theorem follows_pure {a : α} {m : Mode} {Q : α → Mode → Prop} (h : Q a m) :
    Follows v D (pure a) m Q := h

/-- The last step, a step with more behind it, and the same for steps that suspend. -/
theorem follows_last {e : Eff} {m : Mode} {Q : e.Ret → Mode → Prop}
    (h : ∀ r, (m.next v e r).All (Q r)) : Follows v D (step e) m Q :=
  Typestate.follows_step.mpr h

theorem follows_step {e : Eff} {f : e.Ret → Io β} {m : Mode} {Q : β → Mode → Prop}
    (h : ∀ r, (m.next v e r).All fun m' => Follows v D (f r) m' Q) :
    Follows v D (step e >>= f) m Q :=
  Typestate.follows_bind.mpr (follows_last h)

theorem follows_await {e : Eff} {f : e.Ret → Io β} {m : Mode} {Q : β → Mode → Prop}
    (hd : (m.cut v).All D) (h : ∀ r, (m.next v e r).All fun m' => Follows v D (f r) m' Q) :
    Follows v D (await e >>= f) m Q :=
  Typestate.follows_bind.mpr (Typestate.follows_await.mpr ⟨h, hd⟩)

theorem follows_last_await {e : Eff} {m : Mode} {Q : e.Ret → Mode → Prop}
    (hd : (m.cut v).All D) (h : ∀ r, (m.next v e r).All (Q r)) : Follows v D (await e) m Q :=
  Typestate.follows_await.mpr ⟨h, hd⟩

/-- The modes a first part can end in are those the rest starts from. -/
theorem follows_seq {p : Io α} {f : α → Io β} {m : Mode} {P : α → Mode → Prop}
    {Q : β → Mode → Prop} (hp : Follows v D p m P) (hf : ∀ a m', P a m' → Follows v D (f a) m' Q) :
    Follows v D (p >>= f) m Q := hp.bind hf

/-- Where an operation starts. -/
def enters (op : Op) : Mode := if op.isMut then .u0 else .shr

theorem leaving_follows {p : Io α} {out : α → Out} {m : Mode} {Q : Out → Mode → Prop}
    (h : Follows v D p m fun a m => Q (out a) m) : Follows v D (leaving p out) m Q :=
  Typestate.follows_bind.mpr h

/-- Starts with nothing held and ends so. -/
abbrev Clean (v : Variant) (D : Mode → Prop) (p : Io α) : Prop :=
  Follows v D p .shr fun _ m => m = .shr

theorem clean_pure (a : α) : Clean v D (pure a : Io α) := follows_pure rfl

theorem clean_seq {p : Io α} {f : α → Io β} (hp : Clean v D p) (hf : ∀ a, Clean v D (f a)) :
    Clean v D (p >>= f) :=
  follows_seq hp fun a m hm => by subst hm; exact hf a

theorem clean_ite (b : Bool) {p : Io Bool} (hp : Clean v D p) :
    Clean v D (if b then p else pure false) := by
  split
  · exact hp
  · exact clean_pure _

/-- A path that is rejected costs no step. -/
theorem clean_withRemotePath {path : Path} {k : Str → Io (RemoteResult α)}
    {Q : RemoteResult α → Mode → Prop} (herr : ∀ e, Q (.error e) .shr)
    (hk : ∀ remote, Follows v D (k remote) .shr Q) : Follows v D (withRemotePath path k) .shr Q := by
  unfold withRemotePath
  split
  · exact follows_pure (herr _)
  · exact hk _

theorem clean_unsupported (paths : List Path) : Clean v D (unsupported paths) := by
  induction paths with
  | nil => exact clean_pure _
  | cons path rest ih => exact clean_withRemotePath (fun _ => rfl) fun _ => ih

/-- Parsing takes no step. -/
theorem clean_parseListing (X : Ext) (path : Path) (bytes : List UInt8) :
    Clean v D (FtpFs.parseListing X path bytes) := by
  unfold FtpFs.parseListing
  split
  · exact clean_pure _
  · obtain ⟨r, hr⟩ := parseListLines_total X.listParser path ‹_›
    rw [hr]
    exact clean_pure _

/-! ## Probing -/

/-- The steps the shared code takes leave nothing held. -/
structure CleanClient (v : Variant) (D : Mode → Prop) (C : Client) : Prop where
  listDirRaw : ∀ path remote, Clean v D (C.listDirRaw path remote)
  statRoot : ∀ path, Clean v D (C.statRoot path)

namespace CleanClient

variable {C : Client} (hC : CleanClient v D C)
include hC

/-- The induction is on the listings left to try; each is clean by itself. -/
theorem ancestorLoop (n : Nat) (path : Path) : Clean v D (C.ancestorLoop n path) := by
  induction n generalizing path with
  | zero => exact clean_pure _
  | succ n ih =>
    unfold Client.ancestorLoop
    split
    · exact clean_pure _
    split
    · exact clean_pure _
    refine clean_seq (hC.listDirRaw _ _) fun r => ?_
    split
    · exact clean_pure _
    · split
      · exact ih _
      · exact clean_pure _

theorem listingRefused (path : Path) (e : RemoteError) :
    Clean v D (C.listingRefused path e : Io (RemoteResult α)) := by
  unfold Client.listingRefused
  split
  · refine clean_seq (hC.ancestorLoop 8 path) fun r => ?_
    split <;> exact clean_pure _
  · exact clean_pure _

/-- `stat` with enough fuel does not panic. -/
theorem statFuel {n : Nat} {path : Path} (hn : path.components.length < n) :
    Clean v D (C.statFuel n path) := by
  induction n generalizing path with
  | zero => omega
  | succ n ih =>
    cases hr : remotePath path with
    | error e => rw [Client.statFuel, hr]; exact clean_pure _
    | ok s =>
      have ha := (accepted_iff.mp hr).1
      cases hp : path.parent with
      | none =>
        rw [C.statFuel_root ha (ha.parent_none.mp hp)]
        exact hC.statRoot path
      | some parent =>
        obtain ⟨hpar, hnames⟩ := ha.parent hp
        have hne : path.names ≠ [] := fun e => by rw [ha.parent_none.mpr e] at hp; cases hp
        have hlen := List.length_pos_iff.mpr hne
        have hl : parent.names.length = path.names.length - 1 := by
          rw [hnames, List.length_dropLast]
        rw [ha.components_eq, List.length_cons, List.length_map] at hn
        have ih := @ih parent (by
          rw [hpar.components_eq, List.length_cons, List.length_map]; omega)
        rw [C.statFuel_eq ha hp]
        refine clean_seq (hC.listDirRaw _ _) fun r => ?_
        split
        · exact hC.listingRefused _ _
        · split
          · refine clean_seq ih fun r => ?_
            split <;> split <;> exact clean_pure _
          · exact clean_pure _

theorem stat (path : Path) : Clean v D (C.stat path) := hC.statFuel (by omega)

theorem statIsFile (path : Path) : Clean v D (C.statIsFile path) :=
  clean_seq (hC.stat path) fun r => by split <;> exact clean_pure _

theorem listDir (path : Path) : Clean v D (C.listDir path) := by
  unfold Client.listDir
  split
  · exact clean_pure _
  refine clean_seq (hC.listDirRaw _ _) fun r => ?_
  split
  · exact hC.listingRefused _ _
  split
  · exact clean_pure _
  refine clean_seq (clean_ite _ (hC.statIsFile _)) fun b => ?_
  split
  · exact clean_pure _
  refine clean_seq (clean_ite _ (hC.statIsFile _)) fun b => ?_
  split <;> exact clean_pure _

theorem exists' (path : Path) : Clean v D (C.exists' path) :=
  clean_seq (hC.stat path) fun r => by
    split
    · exact clean_pure _
    · split <;> exact clean_pure _

theorem destinationParentIsMissing (path : Path) :
    Clean v D (C.destinationParentIsMissing path) := by
  unfold Client.destinationParentIsMissing
  split
  · exact clean_pure _
  · exact clean_seq (hC.stat _) fun r => by split <;> exact clean_pure _

theorem classifyFileRefusal (path : Path) (err : FtpError) :
    Clean v D (C.classifyFileRefusal path err) := by
  unfold Client.classifyFileRefusal
  split
  · exact clean_pure _
  refine clean_seq (hC.stat _) fun r => ?_
  split <;> split <;> exact clean_pure _

theorem classifyCreateRefusal (path : Path) (err : FtpError) :
    Clean v D (C.classifyCreateRefusal path err) := by
  unfold Client.classifyCreateRefusal
  split
  · exact clean_pure _
  refine clean_seq (hC.stat _) fun r => ?_
  split
  · split <;> exact clean_pure _
  · refine clean_seq (clean_ite _ (hC.destinationParentIsMissing _)) fun b => ?_
    split <;> exact clean_pure _

theorem classifyRemoveDirRefusal (path : Path) (err : FtpError) :
    Clean v D (C.classifyRemoveDirRefusal path err) := by
  unfold Client.classifyRemoveDirRefusal
  split
  · exact clean_pure _
  refine clean_seq (hC.stat _) fun r => ?_
  split
  · split
    · exact clean_pure _
    · refine clean_seq (hC.listDir _) fun r => ?_
      split
      · split <;> exact clean_pure _
      · exact clean_pure _
  · split <;> exact clean_pure _

theorem classifyCreateDirRefusal (path : Path) (err : FtpError) :
    Clean v D (C.classifyCreateDirRefusal path err) := by
  unfold Client.classifyCreateDirRefusal
  split
  · exact clean_pure _
  refine clean_seq (hC.stat _) fun r => ?_
  split
  · exact clean_pure _
  · refine clean_seq (clean_ite _ (hC.destinationParentIsMissing _)) fun b => ?_
    split <;> exact clean_pure _

theorem classifyRenameRefusal (src dest : Path) (err : FtpError) :
    Clean v D (C.classifyRenameRefusal src dest err) := by
  unfold Client.classifyRenameRefusal
  split
  · exact clean_pure _
  refine clean_seq (hC.stat _) fun r => ?_
  split
  · split <;> exact clean_pure _
  · refine clean_seq (hC.destinationParentIsMissing _) fun b => ?_
    split <;> exact clean_pure _

end CleanClient

/-! ## Results of a call -/

/-- Where a call in a section ends. -/
def Answered (p : Place) (h : Conn) (c : Command) (r : FtpResult Response) (m : Mode) : Prop :=
  match r with
  | .ok _ => m = if c.opensData then .data p h false else .sec p h false
  | .error e => m = .sec p h (transferSetupRequiresReconnect e)

/-- The reply ends the call. -/
theorem answered_next {p : Place} (hp : p ≠ .unique) {h : Conn} {c : Command}
    (r : FtpResult Response) :
    (Mode.next v (.busy p h c) (.recv h c) r).All (Answered p h c r) := by
  by_cases hc : c.opensData <;> cases p <;> cases r <;> simp [Answered, hc] at hp ⊢

/-- Both checks, or the one that failed. -/
theorem checkOperationState_follows :
    Follows v D FtpFs.checkOperationState .lkd fun r m =>
      match r with
      | .ok () => m = .chk2
      | .error _ => m = .lkd ∨ m = .chk1 := by
  refine follows_step fun r => ?_
  cases r with
  | true => exact .inl rfl
  | false =>
    refine follows_step fun r => ?_
    cases r with
    | true => exact rfl
    | false => exact .inr rfl

/-- Recording what a call left unrecorded. -/
theorem recordFtpError_follows {p : Place} {h : Conn} {d : Bool} {e : FtpError}
    (hd : d = true → transferSetupRequiresReconnect e = true) :
    Follows v D (FtpFs.recordFtpError e) (.sec p h d) fun _ m => m = .sec p h false := by
  unfold FtpFs.recordFtpError
  split
  · exact follows_last fun _ => rfl
  · cases d
    · exact rfl
    · simp_all

theorem recordRemoteError_follows {p : Place} {h : Conn} {d : Bool} {e : RemoteError}
    (hd : d = true → remoteErrorRequiresReconnect e = true) :
    Follows v D (FtpFs.recordRemoteError e) (.sec p h d) fun _ m => m = .sec p h false := by
  unfold FtpFs.recordRemoteError
  split
  · exact follows_last fun _ => rfl
  · cases d
    · exact rfl
    · simp_all

/-- Where `request_offset` ends: with a failure it reports, or none. -/
def Requested (h : Conn) (r : RemoteResult Bool) (m : Mode) : Prop :=
  match r with
  | .ok _ => m = .sec .locked h false
  | .error e => ∃ d, m = .sec .locked h d ∧ (d = true → remoteErrorRequiresReconnect e = true)

/-- An `Ok` of `request_offset` hides no failure: the refusals it turns into one need no
reconnect. -/
theorem requestOffset_follows (X : Ext) {call : Conn → Command → Io (FtpResult Response)}
    {h : Conn} (hcall : ∀ c, Follows v D (call h c) (.sec .locked h false) (Answered .locked h c))
    (offset : Nat) :
    Follows v D (requestOffset X call h offset) (.sec .locked h false) (Requested h) := by
  unfold requestOffset
  split
  · exact follows_pure rfl
  refine follows_seq (hcall _) fun r m hm => ?_
  have herr : ∀ e, m = .sec .locked h (transferSetupRequiresReconnect e) →
      Requested h (.error (ftpError e)) m := fun e hm => ⟨_, hm, id⟩
  cases r with
  | ok _ => exact follows_pure hm
  | error e =>
    cases e with
    | unexpectedResponse response =>
      dsimp only
      split
      · rename_i hs
        have hd : transferSetupRequiresReconnect (.unexpectedResponse response) = false := by
          simpa [transferSetupRequiresReconnect] using hs
        obtain rfl : m = .sec .locked h (transferSetupRequiresReconnect _) := hm
        exact follows_pure (by rw [hd]; rfl)
      · exact follows_pure (herr _ hm)
    | _ => exact follows_pure (herr _ hm)

/-- Where the outcome of a data command leads: to the transfer `a`, or back. -/
def Opened (h : Conn) (a : α) (r : FtpResult α) (m : Mode) : Prop :=
  match r with
  | .ok b => b = a ∧ m = .guarded h
  | .error _ => m = .sec .locked h false

theorem recordFtpResult_follows {p : Place} {h : Conn} {c : Command} {r : FtpResult Response}
    {m : Mode} (hm : Answered p h c r m) :
    Follows v D (FtpFs.recordFtpResult r) m fun _ m =>
      match r with
      | .ok _ => m = if c.opensData then .data p h false else .sec p h false
      | .error _ => m = .sec p h false := by
  cases r with
  | ok _ => exact follows_pure hm
  | error e =>
    obtain rfl : m = _ := hm
    exact recordFtpError_follows id

/-- `record_ftp_error` and `start_transfer` after a data command. -/
theorem startTransfer_follows {h : Conn} {c : Command} (hc : c.opensData = true)
    {r : FtpResult Response} {m : Mode} (hm : Answered .locked h c r m) {a : α}
    {k : FtpResult α → Io β} {Q : β → Mode → Prop}
    (hk : ∀ r m, Opened h a r m → Follows v D (k r) m Q) :
    Follows v D (do FtpFs.recordFtpResult r; let r ← FtpFs.withTransfer r a; k r) m Q := by
  refine follows_seq (recordFtpResult_follows hm) fun _ m hm => ?_
  cases r with
  | error e => exact hk _ _ hm
  | ok _ =>
    simp only [hc, if_true] at hm
    subst hm
    exact follows_step fun _ => follows_step fun _ => hk _ _ ⟨rfl, rfl⟩

/-- Where an operation that opens a transfer is after its section. -/
def Holding (stream : α → Conn) (r : RemoteResult (FtpResult α)) (m : Mode) : Prop :=
  match r with
  | .ok (.ok a) => m = .own (stream a)
  | _ => m = .shr

/-- The probes of a refusal run after the section, with nothing held. -/
theorem mapRefusal_follows {r : FtpResult α} {classify : FtpError → Io RemoteError}
    (hc : ∀ e, Clean v D (classify e)) {stream : α → Conn} {m : Mode}
    (hm : Holding stream (.ok r) m) :
    Follows v D (FtpFs.mapRefusal r classify) m fun r m =>
      match r with
      | .ok a => m = .own (stream a)
      | .error _ => m = .shr := by
  cases r with
  | ok a => exact follows_pure hm
  | error e =>
    obtain rfl : m = .shr := hm
    refine follows_seq (hc e) fun _ m hm => ?_
    exact follows_pure hm

theorem clean_mapRefusal {r : FtpResult α} {classify : FtpError → Io RemoteError}
    (h : ∀ e, Clean v D (classify e)) : Clean v D (FtpFs.mapRefusal r classify) := by
  cases r with
  | ok a => exact clean_pure _
  | error e => exact clean_seq (h e) fun _ => clean_pure _

/-- What an operation that returns a stream ends in. -/
def Handed (out : RemoteResult α → Out) (r : RemoteResult α) (m : Mode) : Prop := Done (out r) m

/-- Where `read_list_bytes` ends: with the failure it reports. -/
def Listed (p : Place) (h : Conn) (r : RemoteResult (List UInt8) × Bool) (m : Mode) : Prop :=
  m = .sec p h r.2 ∨ m = .fini p h r.2

theorem listOutcome_snd (read : Except IoError (List UInt8)) (finish : FtpResult Unit) :
    (FtpFs.listOutcome read finish).2 = (isErr read || isErr finish) := by
  cases read <;> cases finish <;> rfl

theorem cleanupOutcome_isOk (what : Cleanup) (kind : RemoteError → RemoteError → RemoteErrorType)
    (first finished : RemoteResult Unit) :
    (cleanupOutcome what kind first finished).isOk = !(isErr first || isErr finished) := by
  cases first <;> cases finished <;> rfl

theorem isErr_mapIoError (X : Ext) (r : Except IoError α) : isErr (mapIoError X r) = isErr r := by
  cases r <;> rfl

theorem isErr_mapFtpError (r : FtpResult Unit) : isErr (mapFtpError r) = isErr r := by
  cases r <;> rfl

/-- Where the setup of a new stream ends: no failure on it, or one it reports. -/
def Prepared (h : Conn) (r : RemoteResult Unit) (m : Mode) : Prop :=
  ∃ ok, m = .uh false h ok ∧ (isErr r = false → ok = true)

section
variable {call : Conn → Command → Io (FtpResult Response)} {h : Conn}
  (hcall : ∀ c, c.opensData = false →
    Follows v D (call h c) (.uh false h true) fun r m => m = .uh false h (!needsReconnect r))
include hcall

theorem secure_follows (o : Options) :
    Follows v D (secure call o h) (.uh false h true) (Prepared h) := by
  unfold secure
  split
  · refine follows_step fun tls => ?_
    cases tls with
    | false => exact ⟨true, rfl, fun _ => rfl⟩
    | true =>
      refine follows_seq (hcall _ rfl) fun r m hm => ?_
      cases r with
      | error e => exact follows_pure ⟨_, hm, fun he => nomatch he⟩
      | ok _ => exact follows_pure ⟨_, hm, fun _ => rfl⟩
  · exact follows_pure ⟨true, rfl, fun _ => rfl⟩

theorem login_follows (o : Options) :
    Follows v D (login call o h) (.uh false h true) (Prepared h) := by
  refine follows_seq (hcall _ rfl) fun r m hm => ?_
  cases r with
  | error e => exact follows_pure ⟨_, hm, fun he => nomatch he⟩
  | ok _ =>
    obtain rfl : m = .uh false h true := hm
    refine follows_seq (hcall _ rfl) fun r m hm => ?_
    cases r with
    | error e => exact follows_pure ⟨_, hm, fun he => nomatch he⟩
    | ok _ => exact follows_pure ⟨_, hm, fun _ => rfl⟩

theorem setup_follows (o : Options) :
    Follows v D (setup call o h) (.uh false h true) (Prepared h) := by
  have hinstall : Follows v D (installBuilder o h) (.uh false h true) fun _ m =>
      m = .uh false h true := by
    unfold installBuilder
    split
    · exact follows_last fun _ => rfl
    · exact follows_pure rfl
  refine follows_seq hinstall fun _ m hm => ?_
  subst hm
  refine follows_step fun _ => follows_seq (secure_follows hcall o) fun r m hm => ?_
  cases r with
  | error e => exact follows_pure hm
  | ok _ =>
    obtain ⟨ok, rfl, hok⟩ := hm
    obtain rfl : ok = true := hok rfl
    exact login_follows hcall o

end

/-- A failed cleanup is recorded before the guard goes. -/
theorem invalidate_follows {h : Conn} {r : RemoteResult Unit} :
    Follows v D (FtpReadStream.invalidateOnErr r) (.don h (!r.isOk)) fun _ m => m = .don h false := by
  unfold FtpReadStream.invalidateOnErr
  cases hr : r.isOk with
  | true => exact follows_pure rfl
  | false => exact follows_last fun _ => rfl

end RemotefsFtp.L5
