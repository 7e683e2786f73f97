import Mathlib.Logic.Relation
import RemotefsFtp.L2Remote.Rows
import RemotefsFtp.L2Remote.World
import RemotefsFtp.L3Client.Commands
import RemotefsFtp.L3Client.Completion

/-!
# The directories a lookup lists (`src/client/sync.rs:471-487, 604-654, 784-877`)

`stat` and `list_dir` of the blocking client, whatever the server answers to
each `LIST`: which directories they list, in which order, and what a listing
that succeeded shows.

Results:
* `listDirRaw_ensures`: one listing, from its command to its entries.
* **`probing_climbs`**: a lookup returns; it lists a directory and then parents
  only, each once, and every path on the way is accepted.
-/
namespace RemotefsFtp.L3

open L1 (Str Path)
open L2
open Core (Prog Event)

variable {α β : Type}

/-! ## Steps that ask nobody -/

/-- Nothing the environment answers. -/
def Quiet (evs : List (Event ftp)) : Prop := ∀ ev ∈ evs, ev.1.external = false

theorem quiet_nil : Quiet [] := by
  intro ev hev
  cases hev

theorem Quiet.append {evs evs' : List (Event ftp)} (h : Quiet evs) (h' : Quiet evs') : Quiet (evs ++ evs') := by
  intro ev hev
  rcases List.mem_append.mp hev with hev | hev
  · exact h ev hev
  · exact h' ev hev

theorem Quiet.cons {e : Eff} {r : e.Ret} {evs : List (Event ftp)} (he : e.external = false) (h : Quiet evs) :
    Quiet (⟨e, r⟩ :: evs) := by
  intro ev hev
  rcases List.mem_cons.mp hev with rfl | hev
  · exact he
  · exact h ev hev

theorem quiet_one {e : Eff} {r : e.Ret} (he : e.external = false) : Quiet [⟨e, r⟩] := quiet_nil.cons he

/-- A failure that no server reported. -/
structure Local (e : RemoteError) : Prop where
  found : e.kind ≠ .noSuchFileOrDirectory
  clear : isAmbiguousPathRefusal e = false

/-- Why the client turns a call away before it sends anything, and with what
error: what the check or the slot it read answered. -/
inductive GateRefusal (evs : List (Event ftp)) : RemoteError → Prop
  | busy (h : ⟨.loadActive, true⟩ ∈ evs) : GateRefusal evs transferInProgress
  | lost (h : ⟨.loadUsable, false⟩ ∈ evs) : GateRefusal evs connectionUnusable
  | closed (h : ⟨.slot, none⟩ ∈ evs ∨ ⟨.take, none⟩ ∈ evs) : GateRefusal evs (.new .notConnected)

/-- None of them speaks of a path. -/
theorem GateRefusal.isLocal {evs : List (Event ftp)} {e : RemoteError} (h : GateRefusal evs e) : Local e := by
  cases h <;> exact ⟨by decide, rfl⟩

theorem GateRefusal.mono {evs evs' : List (Event ftp)} {e : RemoteError} (h : GateRefusal evs e)
    (hevs : evs ⊆ evs') : GateRefusal evs' e := by
  cases h with
  | busy h => exact .busy (hevs h)
  | lost h => exact .lost (hevs h)
  | closed h => exact .closed (h.imp (@hevs _) (@hevs _))

namespace FtpFs

/-- The error of the check is the flag it read. -/
theorem checkOperationState_ensures : Ensures checkOperationState fun evs r =>
    Quiet evs ∧ ∀ e, r = .error e → GateRefusal evs e := by
  intro a
  cases a with
  | true =>
    refine ⟨quiet_one rfl, fun e he => ?_⟩
    cases he
    exact .busy (List.mem_cons_self ..)
  | false =>
    intro u
    cases u with
    | false =>
      refine ⟨(quiet_one rfl).cons rfl, fun e he => ?_⟩
      cases he
      exact .lost (by simp)
    | true =>
      refine ⟨(quiet_one rfl).cons rfl, fun e he => ?_⟩
      cases he

theorem recordRemoteResult_ensures (r : RemoteResult α) :
    Ensures (recordRemoteResult r) fun evs _ => Quiet evs := by
  cases r with
  | ok a => exact quiet_nil
  | error e =>
    show Ensures (recordRemoteError e) _
    unfold recordRemoteError
    split
    · intro u
      exact quiet_one rfl
    · exact quiet_nil

/-- What a call under the client's guard did: nothing but the checks, or `f`. -/
def Guarded (Q : Conn → List (Event ftp) → RemoteResult α → Prop) (evs : List (Event ftp))
    (r : RemoteResult α) : Prop :=
  (Quiet evs ∧ ∃ e, r = .error e ∧ GateRefusal evs e) ∨
    ∃ h pre run post, evs = pre ++ (run ++ post) ∧ Quiet pre ∧ Quiet post ∧ Q h run r

/-- The check turns the call away, or `k` runs behind it. -/
theorem checked_ensures {k : Io (RemoteResult α)} {Q : Conn → List (Event ftp) → RemoteResult α → Prop}
    (hk : Ensures k fun evs r => ∀ checks, Quiet checks → Guarded Q (checks ++ evs) r) :
    Ensures (do
      lock
      match ← checkOperationState with
      | .error e => unlock; pure (.error e)
      | .ok () => k) (Guarded Q) := by
  refine ensures_seq (Q := fun evs _ => Quiet evs) (fun _ => quiet_one rfl) fun evs₀ _ h₀ => ?_
  refine ensures_seq checkOperationState_ensures fun evs₁ r h₁ => ?_
  have h₂ := h₀.append h₁.1
  cases r with
  | error e =>
    intro u
    refine .inl ⟨?_, e, rfl, (h₁.2 e rfl).mono ?_⟩
    · rw [← List.append_assoc]
      exact h₂.append (quiet_one rfl)
    · intro ev hev
      simp [hev]
  | ok u =>
    refine Prog.Ensures.mono hk fun evs r hr => ?_
    rw [← List.append_assoc]
    exact hr _ h₂

/-- An empty slot turns the call away. -/
theorem guarded_closed {Q : Conn → List (Event ftp) → RemoteResult α → Prop} {checks evs : List (Event ftp)}
    (hc : Quiet checks) (he : Quiet evs) (hclosed : ⟨.slot, none⟩ ∈ evs ∨ ⟨.take, none⟩ ∈ evs) :
    Guarded Q (checks ++ evs) (.error (.new .notConnected)) :=
  .inl ⟨hc.append he, _, rfl, .closed (hclosed.imp (List.mem_append_right _) (List.mem_append_right _))⟩

theorem withExclusiveStream_ensures {f : Conn → Io (RemoteResult α)}
    {Q : Conn → List (Event ftp) → RemoteResult α → Prop} (hf : ∀ h, Ensures (f h) (Q h)) :
    Ensures (withExclusiveStream f) (Guarded Q) := by
  refine checked_ensures fun slot => ?_
  cases slot with
  | none => exact fun u checks hc => guarded_closed hc ((quiet_one rfl).cons rfl) (.inr (by simp))
  | some h =>
    intro u₁ u₂ u₃
    refine Prog.Ensures.bind (p := f h) (hf h) fun run result hQ => ?_
    refine ensures_seq (recordRemoteResult_ensures result) fun evs₃ _ h₃ => ?_
    intro u₄ u₅ u₆ u₇ checks hc
    refine .inr ⟨h, checks ++ [⟨.take, some h⟩, ⟨.storeActive true, u₁⟩, ⟨.unlock, u₂⟩, ⟨.exclusiveNew, u₃⟩],
      run, evs₃ ++ [⟨.lock, u₄⟩, ⟨.put h, u₅⟩, ⟨.unlock, u₆⟩, ⟨.exclusiveDrop, u₇⟩], ?_, ?_, ?_, hQ⟩
    · simp only [List.append_assoc, List.cons_append, List.nil_append]
    · exact hc.append ((((quiet_one rfl).cons rfl).cons rfl).cons rfl)
    · exact h₃.append ((((quiet_one rfl).cons rfl).cons rfl).cons rfl)

theorem withStream_ensures {f : Conn → Io (RemoteResult α)}
    {Q : Conn → List (Event ftp) → RemoteResult α → Prop} (hf : ∀ h, Ensures (f h) (Q h)) :
    Ensures (withStream f) (Guarded Q) := by
  refine checked_ensures fun slot => ?_
  cases slot with
  | none => exact fun u checks hc => guarded_closed hc ((quiet_one rfl).cons rfl) (.inl (by simp))
  | some h =>
    refine Prog.Ensures.bind (p := f h) (hf h) fun run result hQ => ?_
    refine ensures_seq (recordRemoteResult_ensures result) fun evs₃ _ h₃ => ?_
    intro u checks hc
    refine .inr ⟨h, checks ++ [⟨.slot, some h⟩], run, evs₃ ++ [⟨.unlock, u⟩], ?_, ?_, ?_, hQ⟩
    · simp only [List.append_assoc, List.cons_append, List.nil_append]
    · exact hc.append (quiet_one rfl)
    · exact h₃.append (quiet_one rfl)

end FtpFs

/-! ## One listing -/

/-- The directory a step sends `LIST` for. -/
def listedPath : Eff → Option Path
  | .send _ (.customDataCommand line) => some (line.drop 5)
  | _ => none

/-- The directories a trace sends `LIST` for, in order. -/
def listedPaths (evs : List (Event ftp)) : List Path := evs.filterMap fun ev => listedPath ev.1

/-- A `suppaftp` call, answered `r`. -/
def Called (h : Conn) (c : Command) (evs : List (Event ftp)) (r : FtpResult Response) : Prop :=
  ∃ mid, evs = ⟨.send h c, ()⟩ :: (mid ++ [⟨.recv h c, r⟩]) ∧
    ∀ ev ∈ mid, ev.1 = .builder h ∨ ev.1 = .storeUsable false

/-- A `LIST` that succeeded: the command, the transfer and its completion. -/
def ListRun (h : Conn) (remote : Str) (bytes : List UInt8) (evs : List (Event ftp)) : Prop :=
  ∃ start reply, Called h (FtpFs.listCommand remote) start (.ok reply) ∧
    evs = start ++ [⟨.readToEnd h, .ok bytes⟩, ⟨.finish h, .ok ()⟩]

/-- A `LIST` of `a` that succeeded, and whose data are these entries. -/
def Succeeded (X : Ext) (a : Path) (entries : List File) (evs : List (Event ftp)) : Prop :=
  ∃ h bytes run, run <:+: evs ∧ ListRun h a bytes run ∧
    readListing X.listParser a bytes = some (.ok entries)

/-- The client turned the call away, and nothing was listed. -/
def TurnedAway (evs : List (Event ftp)) (r : RemoteResult α) : Prop :=
  listedPaths evs = [] ∧ ∃ e, r = .error e ∧ GateRefusal evs e

/-- What a raw listing of `a` did: no `LIST`, because the client is not ready;
or one, and a failure that means a missing path is a refusal. -/
def RawListing (X : Ext) (a : Path) (evs : List (Event ftp)) (r : RemoteResult (List File)) : Prop :=
  TurnedAway evs r ∨
    listedPaths evs = [a] ∧ (∀ entries, r = .ok entries → Succeeded X a entries evs) ∧
      ∀ e, r = .error e → e.kind = .noSuchFileOrDirectory → isAmbiguousPathRefusal e = true

theorem listedPath_quiet {e : Eff} (h : e.external = false) : listedPath e = none := by
  unfold listedPath
  split
  · cases h
  · rfl

theorem listedPaths_append (evs evs' : List (Event ftp)) :
    listedPaths (evs ++ evs') = listedPaths evs ++ listedPaths evs' := List.filterMap_append

theorem Quiet.listedPaths {evs : List (Event ftp)} (h : Quiet evs) : listedPaths evs = [] :=
  List.filterMap_eq_nil_iff.mpr fun ev hev => listedPath_quiet (h ev hev)

/-- The stream builder's steps list nothing. -/
theorem Called.listedPaths {h : Conn} {remote : Str} {evs : List (Event ftp)} {r : FtpResult Response}
    (hc : Called h (FtpFs.listCommand remote) evs r) : listedPaths evs = [remote] := by
  obtain ⟨mid, rfl, hmid⟩ := hc
  have hnone : L3.listedPaths mid = [] := List.filterMap_eq_nil_iff.mpr fun ev hev => by
    rcases hmid ev hev with h | h <;> rw [h] <;> rfl
  show remote :: L3.listedPaths (mid ++ [_]) = _
  rw [listedPaths_append, hnone]
  rfl

namespace FtpFs

theorem call_ensures (h : Conn) (c : Command) : Ensures (call h c) (Called h c) := by
  unfold call
  intro u
  cases hc : c.opensData with
  | false =>
    intro r
    exact ⟨[], rfl, by simp⟩
  | true =>
    intro b
    cases b with
    | false =>
      intro r
      exact ⟨[⟨.builder h, false⟩], rfl, by simp⟩
    | true =>
      intro u' r
      exact ⟨[⟨.builder h, true⟩, ⟨.storeUsable false, u'⟩], rfl, by simp⟩

/-- Only the server says that a path is missing, and then it may mean a refusal. -/
theorem listOutcome_missing {read : Except IoError (List UInt8)} {finish : FtpResult Unit} {e : RemoteError}
    (h : (listOutcome read finish).1 = .error e) (he : e.kind = .noSuchFileOrDirectory) :
    isAmbiguousPathRefusal e = true := by
  cases read with
  | ok bytes =>
    cases finish with
    | ok u => cases h
    | error err =>
      cases h
      exact ftpError_missing he
  | error err =>
    cases finish with
    | ok u =>
      cases h
      cases he
    | error err' =>
      cases h
      cases he

theorem listOutcome_ok {read : Except IoError (List UInt8)} {finish : FtpResult Unit} {bytes : List UInt8}
    (h : (listOutcome read finish).1 = .ok bytes) : read = .ok bytes ∧ finish = .ok () := by
  cases read with
  | ok bytes' =>
    cases finish with
    | ok u =>
      cases h
      exact ⟨rfl, rfl⟩
    | error err => cases h
  | error err => cases finish <;> cases h

theorem readListBytes_ensures (h : Conn) (remote : Str) : Ensures (readListBytes h remote) fun evs r =>
    listedPaths evs = [remote] ∧ (∀ bytes, r.1 = .ok bytes → ListRun h remote bytes evs) ∧
      ∀ e, r.1 = .error e → e.kind = .noSuchFileOrDirectory → isAmbiguousPathRefusal e = true := by
  unfold readListBytes
  refine ensures_seq (call_ensures h (listCommand remote)) fun evs reply hcall => ?_
  cases reply with
  | error err =>
    refine ⟨?_, fun bytes hb => ?_, fun e he => ?_⟩
    · rw [List.append_nil]
      exact hcall.listedPaths
    · cases hb
    · cases he
      exact ftpError_missing
  | ok reply =>
    intro read finish
    refine ⟨?_, fun bytes hb => ?_, fun e he => listOutcome_missing he⟩
    · rw [listedPaths_append, hcall.listedPaths]
      rfl
    · obtain ⟨rfl, rfl⟩ := listOutcome_ok hb
      exact ⟨evs, reply, hcall, rfl⟩

/-- The call under the client's guard. -/
theorem listing_ensures (h : Conn) (path : Path) : Ensures (do
    let (result, requiresReconnect) ← readListBytes h path
    if requiresReconnect then markConnectionUnusable
    pure result) fun evs r =>
      listedPaths evs = [path] ∧ (∀ bytes, r = .ok bytes → ∃ run, run <:+: evs ∧ ListRun h path bytes run) ∧
        ∀ e, r = .error e → e.kind = .noSuchFileOrDirectory → isAmbiguousPathRefusal e = true := by
  refine ensures_seq (readListBytes_ensures h path) fun evs r hr => ?_
  obtain ⟨result, requiresReconnect⟩ := r
  cases requiresReconnect with
  | false =>
    show listedPaths (evs ++ []) = _ ∧ _
    rw [List.append_nil]
    exact ⟨hr.1, fun bytes hb => ⟨evs, List.infix_rfl, hr.2.1 bytes hb⟩, hr.2.2⟩
  | true =>
    intro u
    refine ⟨?_, fun bytes hb => ⟨evs, (List.prefix_append ..).isInfix, hr.2.1 bytes hb⟩, hr.2.2⟩
    rw [listedPaths_append, hr.1]
    rfl

/-- **One listing.** -/
theorem listDirRaw_ensures (X : Ext) (path : Path) : Ensures (listDirRaw X path path) (RawListing X path) := by
  unfold listDirRaw
  refine ensures_seq (withExclusiveStream_ensures fun h => listing_ensures h path) fun evs r hr => ?_
  rcases hr with ⟨hq, e, rfl, he⟩ | ⟨h, pre, run, post, rfl, hpre, hpost, hl, hok, herr⟩
  · show RawListing X path (evs ++ []) (.error e)
    rw [List.append_nil]
    exact .inl ⟨hq.listedPaths, e, rfl, he⟩
  · have hone : listedPaths (pre ++ (run ++ post)) = [path] := by
      rw [listedPaths_append, listedPaths_append, hpre.listedPaths, hl, hpost.listedPaths]
      rfl
    cases r with
    | error e =>
      refine .inr ⟨?_, fun entries hr => ?_, fun e' hr => ?_⟩
      · rw [List.append_nil]
        exact hone
      · cases hr
      · cases hr
        exact herr e rfl
    | ok bytes =>
      have hread := readListing_eq X.listParser path bytes
      show Ensures (parseListing X path bytes) _
      rw [parseListing_eq]
      refine .inr ⟨?_, fun entries hr => ?_, fun e hr hk => ?_⟩
      · rw [List.append_nil]
        exact hone
      · obtain ⟨list, hinfix, hlist⟩ := hok bytes rfl
        refine ⟨h, bytes, list, hinfix.trans ⟨pre, post, ?_⟩, hlist, hr ▸ hread⟩
        simp only [List.append_assoc, List.append_nil]
      · rw [hr] at hread
        rw [readListing_error hread] at hk
        cases hk

/-- The root is not listed. -/
theorem statRoot_ensures (path : Path) : Ensures (statRoot path) fun evs r =>
    listedPaths evs = [] ∧ ∀ e, r = .error e → Local e := by
  have hpure (h : Conn) : Ensures (pure (.ok (rootEntry path)) : Io (RemoteResult File)) fun evs r =>
      evs = [] ∧ r = .ok (rootEntry path) := ⟨rfl, rfl⟩
  refine Prog.Ensures.mono (withStream_ensures fun h => hpure h) fun evs r hr => ?_
  rcases hr with ⟨hq, e, rfl, he⟩ | ⟨h, pre, run, post, rfl, hpre, hpost, rfl, rfl⟩
  · refine ⟨hq.listedPaths, fun e' he' => ?_⟩
    cases he'
    exact he.isLocal
  · refine ⟨(hpre.append hpost).listedPaths, fun e he => ?_⟩
    cases he

end FtpFs

/-! ## Climbing -/

/-- One step up. -/
def Up (p q : Path) : Prop := p.parent = some q

/-- From `p` on, each directory is the parent of the one before. -/
def Climbs (p : Path) (ls : List Path) : Prop := List.IsChain Up (p :: ls)

/-- A directory at or above `path` is missing from a listing of its parent. -/
def Absent (X : Ext) (path : Path) (evs : List (Event ftp)) : Prop :=
  ∃ child a entries, Relation.ReflTransGen Up path child ∧ Up child a ∧ Succeeded X a entries evs ∧
    ∀ e ∈ entries, e.path.same child = false

theorem Succeeded.mono {X : Ext} {a : Path} {entries : List File} {evs evs' : List (Event ftp)}
    (h : Succeeded X a entries evs) (hevs : evs <:+: evs') : Succeeded X a entries evs' := by
  obtain ⟨h, bytes, run, hrun, hlist⟩ := h
  exact ⟨h, bytes, run, hrun.trans hevs, hlist⟩

theorem Absent.mono {X : Ext} {path : Path} {evs evs' : List (Event ftp)} (h : Absent X path evs)
    (hevs : evs <:+: evs') : Absent X path evs' := by
  obtain ⟨child, a, entries, hc, ha, hs, he⟩ := h
  exact ⟨child, a, entries, hc, ha, hs.mono hevs, he⟩

/-- What is missing above `path` is missing for `path`. -/
theorem Absent.below {X : Ext} {path parent : Path} {evs : List (Event ftp)} (h : Absent X parent evs)
    (hp : Up path parent) : Absent X path evs := by
  obtain ⟨child, a, entries, hc, ha⟩ := h
  exact ⟨child, a, entries, .head hp hc, ha⟩

theorem climbs_nil (p : Path) : Climbs p [] := .singleton p

theorem Climbs.cons {p q : Path} {ls : List Path} (hp : Up p q) (h : Climbs q ls) : Climbs p (q :: ls) :=
  .cons_cons hp h

namespace FtpFs

variable (X : Ext)

/-- The loop climbs past refused listings only, so it says `true` on a listing it read. -/
theorem ancestorLoop_ensures (n : Nat) {candidate : Path} (h : Accepted candidate) :
    Ensures ((client X).ancestorLoop n candidate) fun evs r =>
      Climbs candidate (listedPaths evs) ∧ ∃ b, r = .ok b ∧ (b = true → Absent X candidate evs) := by
  induction n generalizing candidate with
  | zero => exact ⟨climbs_nil _, false, rfl, by simp⟩
  | succ n ih =>
    unfold Client.ancestorLoop
    cases hp : candidate.parent with
    | none => exact ⟨climbs_nil _, false, rfl, by simp⟩
    | some parent =>
      have hpar := (h.parent hp).1
      simp only [remotePath_ok hpar]
      refine ensures_seq (listDirRaw_ensures X parent) fun evs r hr => ?_
      have hup : Climbs candidate [parent] := .cons hp (climbs_nil parent)
      cases r with
      | ok entries =>
        rcases hr with ⟨-, e, he, -⟩ | ⟨hl, hok, -⟩
        · cases he
        · refine ⟨?_, _, rfl, fun hb => ?_⟩
          · rw [List.append_nil, hl]
            exact hup
          · rw [List.append_nil]
            refine ⟨candidate, parent, entries, .refl, hp, hok entries rfl, fun e he => ?_⟩
            simp only [Bool.not_eq_true', List.any_eq_false] at hb
            simpa using hb e he
      | error error =>
        dsimp only
        split
        · rename_i hamb
          rcases hr with ⟨-, e, he, hloc⟩ | ⟨hl, -, -⟩
          · cases he
            rw [hloc.isLocal.clear] at hamb
            cases hamb
          · refine Prog.Ensures.mono (ih hpar) fun evs' r hr => ?_
            obtain ⟨hc, b, hb, habs⟩ := hr
            refine ⟨?_, b, hb, fun h => ((habs h).below hp).mono (List.suffix_append ..).isInfix⟩
            rw [listedPaths_append, hl]
            exact hc.cons hp
        · refine ⟨?_, false, rfl, by simp⟩
          rw [List.append_nil]
          rcases hr with ⟨hl, -⟩ | ⟨hl, -⟩ <;> rw [hl]
          · exact climbs_nil _
          · exact hup

/-- After a refused listing of `path` its ancestors are listed. -/
theorem listingRefused_ensures {path : Path} (h : Accepted path) (error : RemoteError) :
    Ensures ((client X).listingRefused (α := α) path error) fun evs r =>
      Climbs path (listedPaths evs) ∧ (isAmbiguousPathRefusal error = false → evs = [] ∧ r = .error error) ∧
        ∃ e, r = .error e ∧ (e.kind = .noSuchFileOrDirectory →
          Absent X path evs ∨ isAmbiguousPathRefusal error = false ∧ e = error) := by
  unfold Client.listingRefused
  cases hamb : isAmbiguousPathRefusal error with
  | false =>
    rw [if_neg Bool.false_ne_true]
    exact ⟨climbs_nil _, fun _ => ⟨rfl, rfl⟩, error, rfl, fun _ => .inr ⟨rfl, rfl⟩⟩
  | true =>
    rw [if_pos rfl]
    refine ensures_seq (ancestorLoop_ensures X 8 h) fun evs r hr => ?_
    obtain ⟨hc, b, rfl, habs⟩ := hr
    have hc' : Climbs path (listedPaths (evs ++ [])) := by rwa [List.append_nil]
    cases b with
    | true =>
      refine ⟨hc', by simp, _, rfl, fun _ => .inl ?_⟩
      rw [List.append_nil]
      exact habs rfl
    | false =>
      refine ⟨hc', by simp, _, rfl, fun hk => ?_⟩
      cases hk

/-- What a lookup of `path` did: which directories it listed, that it listed
none only at the root or when turned away, and what a missing path rests on. -/
structure Looked (path : Path) (evs : List (Event ftp)) (r : RemoteResult α) : Prop where
  climbs : Climbs path (listedPaths evs)
  lists : listedPaths evs = [] → path.parent = none ∨ TurnedAway evs r
  missing : ∀ e, r = .error e → e.kind = .noSuchFileOrDirectory → Absent X path evs

theorem findEntry_error {path : Path} {entries : List File} {e : RemoteError}
    (h : Client.findEntry path entries = .error e) : ∀ entry ∈ entries, entry.path.same path = false := by
  unfold Client.findEntry at h
  split at h
  · cases h
  · rename_i hf
    simpa using hf

/-- The entry looked up in a listing of the parent. -/
theorem looked_found {path parent : Path} (hp : Up path parent) {entries : List File} {evs : List (Event ftp)}
    (hs : Succeeded X parent entries evs) (hc : Climbs path (listedPaths evs)) (hne : listedPaths evs ≠ []) :
    Looked X path evs (Client.findEntry path entries) where
  climbs := hc
  lists hnil := absurd hnil hne
  missing _ he _ := ⟨path, parent, entries, .refl, hp, hs, findEntry_error he⟩

/-- The induction is on the fuel: `stat` of `path` asks `stat` of its parent. -/
theorem statFuel_ensures (n : Nat) {path : Path} (h : Accepted path) (hn : path.names.length < n) :
    Ensures ((client X).statFuel n path) (Looked X path) := by
  induction n generalizing path with
  | zero => omega
  | succ n ih =>
    cases hp : path.parent with
    | none =>
      rw [(client X).statFuel_root h (h.parent_none.mp hp)]
      refine Prog.Ensures.mono (statRoot_ensures path) fun evs r hr => ?_
      refine ⟨?_, fun _ => .inl hp, fun e he hk => absurd hk (hr.2 e he).found⟩
      rw [hr.1]
      exact climbs_nil _
    | some parent =>
      obtain ⟨hpar, hnames⟩ := h.parent hp
      have hne : path.names ≠ [] := by
        intro he
        rw [h.parent_none.mpr he] at hp
        cases hp
      have hlen : parent.names.length < n := by
        rw [hnames, List.length_dropLast]
        have := List.length_pos_iff.mpr hne
        omega
      rw [(client X).statFuel_eq h hp]
      refine ensures_seq (listDirRaw_ensures X parent) fun evs r hr => ?_
      cases r with
      | error error =>
        rcases hr with ⟨hl, e, he, hgate⟩ | ⟨hl, -, herr⟩
        · -- turned away: no ancestor is asked
          cases he
          refine Prog.Ensures.mono (listingRefused_ensures X hpar error) fun evs' r' hr' => ?_
          obtain ⟨rfl, rfl⟩ := hr'.2.1 hgate.isLocal.clear
          rw [List.append_nil]
          refine ⟨?_, fun _ => .inr ⟨hl, error, rfl, hgate⟩, fun e he hk => ?_⟩
          · rw [hl]
            exact climbs_nil _
          · cases he
            exact absurd hk hgate.isLocal.found
        · refine Prog.Ensures.mono (listingRefused_ensures X hpar error) fun evs' r' hr' => ?_
          obtain ⟨hc, -, e, rfl, habs⟩ := hr'
          have hcons : listedPaths (evs ++ evs') = parent :: listedPaths evs' := by
            rw [listedPaths_append, hl]
            rfl
          refine ⟨?_, fun hnil => ?_, fun e' he' hk => ?_⟩
          · rw [hcons]
            exact hc.cons hp
          · rw [hcons] at hnil
            cases hnil
          · cases he'
            rcases habs hk with habs | ⟨hamb, rfl⟩
            · exact (habs.below hp).mono (List.suffix_append ..).isInfix
            · rw [herr e rfl hk] at hamb
              cases hamb
      | ok entries =>
        rcases hr with ⟨-, e, he, -⟩ | ⟨hl, hok, -⟩
        · cases he
        have hs := hok entries rfl
        have hone : Climbs path (listedPaths evs) := by
          rw [hl]
          exact .cons hp (climbs_nil parent)
        have hfound : Looked X path (evs ++ []) (Client.findEntry path entries) := by
          rw [List.append_nil]
          exact looked_found X hp hs hone (by rw [hl]; exact List.cons_ne_nil _ _)
        dsimp only
        -- one entry, which may be the parent itself: `stat` asks what the parent is
        split
        · refine ensures_seq (ih hpar hlen) fun evs' r hr => ?_
          have hcons : listedPaths (evs ++ evs') = parent :: listedPaths evs' := by
            rw [listedPaths_append, hl]
            rfl
          have hall : Climbs path (listedPaths (evs ++ evs')) := by
            rw [hcons]
            exact hr.climbs.cons hp
          have hne : listedPaths (evs ++ evs') ≠ [] := by
            rw [hcons]
            exact List.cons_ne_nil _ _
          have hsall : Looked X path (evs ++ (evs' ++ [])) (Client.findEntry path entries) := by
            rw [List.append_nil]
            exact looked_found X hp (hs.mono (List.prefix_append ..).isInfix) hall hne
          cases r with
          | ok parentEntry =>
            dsimp only
            split
            · show Looked X path (evs ++ (evs' ++ [])) _
              rw [List.append_nil]
              refine ⟨hall, fun hnil => absurd hnil hne, fun e he hk => ?_⟩
              cases he
              cases hk
            · exact hsall
          | error error =>
            dsimp only
            split
            · exact hsall
            · show Looked X path (evs ++ (evs' ++ [])) _
              rw [List.append_nil]
              refine ⟨hall, fun hnil => absurd hnil hne, fun e he hk => ?_⟩
              cases he
              exact ((hr.missing error rfl hk).below hp).mono (List.suffix_append ..).isInfix
        · exact hfound

theorem length_names_le (path : Path) : path.names.length ≤ path.components.length :=
  List.length_filterMap_le ..

theorem stat_ensures {path : Path} (h : Accepted path) : Ensures (stat X path) (Looked X path) :=
  statFuel_ensures X _ h (Nat.lt_succ_of_le (length_names_le path))

theorem statIsFile_ensures {path : Path} (h : Accepted path) :
    Ensures ((client X).statIsFile path) fun evs _ => Climbs path (listedPaths evs) := by
  refine ensures_seq (stat_ensures X h) fun evs r hr => ?_
  have hc : Climbs path (listedPaths (evs ++ [])) := by
    rw [List.append_nil]
    exact hr.1
  cases r <;> exact hc

/-- A listing of `path` starts at `path`, if the client does not turn it away. -/
def ClimbsFrom (path : Path) (evs : List (Event ftp)) (r : RemoteResult α) : Prop :=
  TurnedAway evs r ∨ ∃ rest, listedPaths evs = path :: rest ∧ Climbs path rest

theorem checkIsFile_ensures {path : Path} (h : Accepted path) (c : Bool) :
    Ensures (if c then (client X).statIsFile path else pure false) fun evs _ =>
      Climbs path (listedPaths evs) ∧ (c = false → evs = []) := by
  cases c with
  | false =>
    rw [if_neg Bool.false_ne_true]
    exact ⟨climbs_nil _, fun _ => rfl⟩
  | true =>
    rw [if_pos rfl]
    exact Prog.Ensures.mono (statIsFile_ensures X h) fun evs _ hc => ⟨hc, by simp⟩

theorem isOneFileNamed_nonempty {name : Option Str} {entries : List File}
    (h : isOneFileNamed name entries = true) : entries.isEmpty = false := by
  unfold isOneFileNamed at h
  split at h
  · rfl
  · cases h

/-- `list_dir` lists `path` itself; what it then asks `stat` lists the parents. -/
theorem listDir_ensures {path : Path} (h : Accepted path) : Ensures (listDir X path) fun evs r =>
    ClimbsFrom path evs r ∧
      ∀ e, r = .error e → e.kind = .noSuchFileOrDirectory → Absent X path evs := by
  rw [listDir, Client.listDir_eq _ h]
  refine ensures_seq (listDirRaw_ensures X path) fun evs r hr => ?_
  cases r with
  | error error =>
    rcases hr with ⟨hl, e, he, hgate⟩ | ⟨hl, -, herr⟩
    · -- turned away: no ancestor is asked
      cases he
      refine Prog.Ensures.mono (listingRefused_ensures X h error) fun evs' r' hr' => ?_
      obtain ⟨rfl, rfl⟩ := hr'.2.1 hgate.isLocal.clear
      rw [List.append_nil]
      refine ⟨.inl ⟨hl, error, rfl, hgate⟩, fun e he hk => ?_⟩
      cases he
      exact absurd hk hgate.isLocal.found
    · refine Prog.Ensures.mono (listingRefused_ensures X h error) fun evs' r' hr' => ?_
      obtain ⟨hc, -, e, rfl, habs⟩ := hr'
      refine ⟨.inr ⟨_, by rw [listedPaths_append, hl]; rfl, hc⟩, fun e' he' hk => ?_⟩
      cases he'
      rcases habs hk with habs | ⟨hamb, rfl⟩
      · exact habs.mono (List.suffix_append ..).isInfix
      · rw [herr e rfl hk] at hamb
        cases hamb
  | ok entries =>
    rcases hr with ⟨-, e, he, -⟩ | ⟨hl, -, -⟩
    · cases he
    have hdone {evs' : List (Event ftp)} {f : RemoteResult (List File)} (hc : Climbs path (listedPaths evs')) :
        ClimbsFrom path (evs ++ evs') f :=
      .inr ⟨_, by rw [listedPaths_append, hl]; rfl, hc⟩
    by_cases hroot : path.same ['/'] = true
    · dsimp only
      rw [if_pos hroot]
      exact ⟨hdone (climbs_nil path), by simp⟩
    dsimp only
    rw [if_neg hroot]
    refine ensures_seq (checkIsFile_ensures X h (isOneFileNamed path.fileName entries)) fun evs₁ b h₁ => ?_
    have hfile {evs' : List (Event ftp)} {f : RemoteResult (List File)}
        (hc : Climbs path (listedPaths evs')) (hf : ∀ e, f = .error e → e.kind ≠ .noSuchFileOrDirectory) :
        ClimbsFrom path (evs ++ evs') f ∧
          ∀ e, f = .error e → e.kind = .noSuchFileOrDirectory → Absent X path (evs ++ evs') :=
      ⟨hdone hc, fun e he hk => absurd hk (hf e he)⟩
    cases b with
    | true =>
      refine hfile ?_ fun e he => ?_
      · rw [List.append_nil]
        exact h₁.1
      · cases he
        decide
    | false =>
      refine ensures_seq (checkIsFile_ensures X h entries.isEmpty) fun evs₂ b h₂ => ?_
      -- a listing is not both one file and empty
      have hboth : Climbs path (listedPaths (evs₁ ++ (evs₂ ++ []))) := by
        rw [List.append_nil]
        cases hone : isOneFileNamed path.fileName entries with
        | false =>
          rw [h₁.2 hone, List.nil_append]
          exact h₂.1
        | true =>
          rw [h₂.2 (isOneFileNamed_nonempty hone), List.append_nil]
          exact h₁.1
      cases b with
      | true =>
        refine hfile hboth fun e he => ?_
        cases he
        decide
      | false =>
        refine hfile hboth fun e he => ?_
        cases he

end FtpFs

/-- Every path above an accepted one is accepted. -/
theorem above_accepted {path q : Path} (h : Accepted path) (hq : Relation.ReflTransGen Up path q) : Accepted q := by
  induction hq with
  | refl => exact h
  | tail _ hup ih => exact (ih.parent hup).1

/-- A parent is a proper prefix, so no directory comes twice. -/
theorem up_shorter {p q : Path} (h : Accepted p) (hq : Up p q) : q.names <+: p.names ∧ q.names ≠ p.names := by
  obtain ⟨hacc, hnames⟩ := h.parent hq
  rw [hnames]
  refine ⟨List.dropLast_prefix _, fun he => ?_⟩
  have hlen := congrArg List.length he
  rw [List.length_dropLast] at hlen
  have hnil : p.names = [] := List.length_eq_zero_iff.mp (by omega)
  rw [Up, h.parent_none.mpr hnil] at hq
  cases hq

theorem climbs_shorter {p : Path} {ls : List Path} (h : Accepted p) (hc : Climbs p ls) :
    (p :: ls).Pairwise fun a b => b.names <+: a.names ∧ b.names ≠ a.names := by
  induction ls generalizing p with
  | nil => exact List.pairwise_singleton ..
  | cons q ls ih =>
    obtain ⟨hup, hrest⟩ := List.isChain_cons_cons.mp hc
    have hq := (h.parent hup).1
    have hpair := ih hq hrest
    refine List.pairwise_cons.mpr ⟨fun b hb => ?_, hpair⟩
    obtain ⟨hpre, hne⟩ := up_shorter h hup
    rcases List.mem_cons.mp hb with rfl | hb
    · exact ⟨hpre, hne⟩
    · obtain ⟨hpre', hne'⟩ := List.rel_of_pairwise_cons hpair hb
      refine ⟨hpre'.trans hpre, fun he => hne' ?_⟩
      exact hpre'.eq_of_length_le (he ▸ hpre.length_le)

/-- **Probing climbs.** Whatever the server answers, a lookup returns; every
path above the one looked up is accepted; and the directories it lists are the
path (`list_dir`) or its parent (`stat`) and from there parents only, each a
proper ancestor of those before it, so none is listed twice. It lists nothing
only when the client turns it away, or for the root (`stat`). -/
theorem probing_climbs (X : Ext) {path : Path} {remote : Str} (h : remotePath path = .ok remote) :
    (∀ q, Relation.ReflTransGen Up path q → remotePath q = .ok q) ∧
    Ensures (FtpFs.listDir X path) (fun evs r =>
      (TurnedAway evs r ∨ ∃ rest, listedPaths evs = path :: rest) ∧
        List.IsChain Up (listedPaths evs) ∧
        (listedPaths evs).Pairwise fun a b => b.names <+: a.names ∧ b.names ≠ a.names) ∧
    Ensures (FtpFs.stat X path) (fun evs r =>
      (TurnedAway evs r ∨ path.parent = none ∧ listedPaths evs = [] ∨
        ∃ parent rest, Up path parent ∧ listedPaths evs = parent :: rest) ∧
        List.IsChain Up (listedPaths evs) ∧
        (listedPaths evs).Pairwise fun a b => b.names <+: a.names ∧ b.names ≠ a.names) := by
  have hacc := (accepted_iff.mp h).1
  refine ⟨fun q hq => remotePath_ok (above_accepted hacc hq), ?_, ?_⟩
  · refine Prog.Ensures.mono (FtpFs.listDir_ensures X hacc) fun evs r hr => ?_
    rcases hr.1 with hturned | ⟨rest, hl, hc⟩
    · rw [hturned.1]
      exact ⟨.inl hturned, .nil, .nil⟩
    · rw [hl]
      exact ⟨.inr ⟨rest, rfl⟩, hc, climbs_shorter hacc hc⟩
  · refine Prog.Ensures.mono (FtpFs.stat_ensures X hacc) fun evs r hr => ?_
    have hc := hr.climbs
    cases hl : listedPaths evs with
    | nil =>
      refine ⟨?_, .nil, .nil⟩
      rcases hr.lists hl with hroot | hturned
      · exact .inr (.inl ⟨hroot, rfl⟩)
      · exact .inl hturned
    | cons q rest =>
      rw [hl] at hc
      obtain ⟨hup, hrest⟩ := List.isChain_cons_cons.mp hc
      exact ⟨.inr (.inr ⟨q, rest, hup, rfl⟩), hrest, climbs_shorter (hacc.parent hup).1 hrest⟩

theorem probing_climbs_nested :
    (∀ q, Relation.ReflTransGen Up "/a/b".toList q → remotePath q = .ok q) ∧
    Ensures (FtpFs.listDir rowExt "/a/b".toList) (fun evs r =>
      (TurnedAway evs r ∨ ∃ rest, listedPaths evs = "/a/b".toList :: rest) ∧
        List.IsChain Up (listedPaths evs) ∧
        (listedPaths evs).Pairwise fun a b => b.names <+: a.names ∧ b.names ≠ a.names) ∧
    Ensures (FtpFs.stat rowExt "/a/b".toList) (fun evs r =>
      (TurnedAway evs r ∨ Path.parent "/a/b".toList = none ∧ listedPaths evs = [] ∨
        ∃ parent rest, Up "/a/b".toList parent ∧ listedPaths evs = parent :: rest) ∧
        List.IsChain Up (listedPaths evs) ∧
        (listedPaths evs).Pairwise fun a b => b.names <+: a.names ∧ b.names ≠ a.names) :=
  probing_climbs rowExt (rfl : remotePath "/a/b".toList = .ok "/a/b".toList)

end RemotefsFtp.L3
