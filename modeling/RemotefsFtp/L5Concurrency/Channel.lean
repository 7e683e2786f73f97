import RemotefsFtp.L5Concurrency.System

/-!
# The control channel of the blocking client

Results:
* **`exclusive_channel`**: on a connected `FtpFs`, one transfer at a time, one
  place for the control stream, and no command into another's conversation.
* **`poisoned_barrier`**: a control stream whose replies may be out of step is
  not sent another command.
-/
namespace RemotefsFtp.L5

open L2 L3
open Core (LTS Threads Typestate Prog)
open Core.Threads (State Lbl Typed Keeps)
open Mode (Done)

variable {T : Type} {v : Variant} {sh sh' : Shared T} {ms : T → Mode} {ct : Token T} {t : T}
  {s s' : Config T} {h : Conn}

/-! ## What the invariant says of a thread about to take a step -/

/-- A thread about to send a command is in a section, or alone with its stream. -/
theorem at_send {c : Command} (hi : Inv v s.sh ms ct)
    (hT : Typed (protocol v) .idle Done (Done .done) s.th ms) (ha : s.At t (.send h c)) :
    (∃ p d, p ≠ .unique ∧ ms t = .sec p h d) ∨ ms t = .uh false h true := by
  have hn := Threads.typed_at hT ha ()
  have hg := hi.not_gone (t := t)
  cases hm : ms t with
  | sec p h' d =>
    simp [hm] at hn
    obtain ⟨rfl, hp⟩ := hn
    exact .inl ⟨p, d, hp, rfl⟩
  | uh lk h' ok =>
    cases lk <;> cases ok <;> simp [hm] at hn
    subst hn
    exact .inr rfl
  | _ => simp [hm] at hn hg

theorem Inv.transfers (hi : Inv v sh ms ct) :
    sh.guards + sh.listing ≤ 1 ∧ (0 < sh.guards + sh.listing → sh.active = true) := by
  cases hct : ct with
  | nobody =>
    have hf := hi.free hct
    rw [hf.guards, hf.listing]
    exact ⟨Nat.zero_le _, fun h => absurd h (Nat.lt_irrefl 0)⟩
  | pooled =>
    obtain ⟨s, h, hp⟩ := hi.pooled hct
    rw [hp.guards, hp.listing]
    exact ⟨Nat.le_refl _, fun _ => hi.active.mpr (.inl hct)⟩
  | thread t =>
    subst hct
    have hh := hi.holds t rfl
    rw [hh.guards, hh.listing, hi.active_eq]
    cases hm : ms t with
    | sec p h d | data p h d | fini p h d | busy p h c | bld p h c =>
      cases p <;> simp [Mode.guards, Mode.listing, Mode.raises]
    | _ => simp [Mode.guards, Mode.listing, Mode.raises]

/-- Nobody runs an operation and no stream is out. -/
theorem Inv.at_rest (hi : Inv v sh ms ct) (hms : ∀ t, ms t = .idle) (hp : sh.pool = []) :
    sh.active = false ∧ sh.held = [] := by
  cases hct : ct with
  | nobody =>
    have := hi.active
    rw [hct] at this
    exact ⟨by simpa using this, (hi.free hct).held⟩
  | pooled =>
    obtain ⟨s, h, hpool⟩ := hi.pooled hct
    rw [hpool.pool] at hp
    cases hp
  | thread t =>
    have := (hi.token t).mpr hct
    rw [hms t] at this
    cases this

/-- A thread that may read `connection_usable` under the mutex, or alone with
the client. -/
theorem Inv.checking (hi : Inv v sh ms ct) (hn : (ms t).next v .loadUsable true ≠ .stop)
    (hl : sh.lock = some t ∨ sh.writer = some t) :
    ms t = .chk1 ∨ (∃ lk us, ms t = .uq lk us) ∨ ∃ lk, ms t = .un lk := by
  have hg := hi.not_gone (t := t)
  have hl' : (ms t).locks = true ∨ (ms t).isUnique = true := by
    rcases hl with hl | hl
    · exact .inl ((hi.locked t).mpr hl)
    · exact .inr ((hi.borrowed.writer t).mpr hl)
  cases hm : ms t <;> simp_all [Mode.locks, Mode.isUnique]

theorem at_loadUsable (hi : Inv v s.sh ms ct)
    (hT : Typed (protocol v) .idle Done (Done .done) s.th ms) (ha : s.At t .loadUsable)
    (hl : s.sh.lock = some t ∨ s.sh.writer = some t) :
    ms t = .chk1 ∨ (∃ lk us, ms t = .uq lk us) ∨ ∃ lk, ms t = .un lk :=
  hi.checking (Threads.typed_at hT ha true) hl

/-- A failed section has not ended. -/
theorem Inv.inside (hi : Inv .strict sh ms ct) {b : Bool} (hf : sh.health h = .failed t b) :
    sh.lock = some t ∨ 0 < sh.listing ∨ sh.writer = some t := by
  have hu : (ms t).uses = true := by
    by_contra hne
    exact hi.unfailed (by simpa using hne) h b hf
  obtain rfl := hi.user hu
  have hh := hi.holds t rfl
  rw [← hi.locked t, hh.listing, ← hi.borrowed.writer t]
  have hgr := hh.grade
  cases hm : ms t with
  | sec p h d | data p h d | fini p h d | busy p h c | bld p h c =>
    cases p <;> simp [Mode.locks, Mode.listing, Mode.isUnique]
  | own h' | fin h' d | don h' d => rw [hm] at hgr; exact absurd hf (hgr.1 h t b)
  | exNew h' => rw [hm] at hgr; exact absurd hf (hgr.1 h t b)
  | _ => simp_all [Mode.locks, Mode.listing, Mode.isUnique, Mode.uses]

/-! ## Callers -/

/-- Callers of a connected client: managed operations, and streams. Blocking
operations are not dropped midway. -/
def Managed (_ : Config T) : Label T → Prop
  | .launch _ (.op op) => op.isMut = false
  | .drop _ => False
  | _ => True

/-- Blocking operations are not dropped midway; anything else may happen. -/
def Blocking (_ : Config T) : Label T → Prop
  | .drop _ => False
  | _ => True

theorem managed_permits : Permits .strict (Managed (T := T)) where
  drop _ _ _ h := h
  check h := absurd rfl h

theorem blocking_permits : Permits .strict (Blocking (T := T)) where
  drop _ _ _ h := h
  check h := absurd rfl h

/-! ## The control stream stays where it is -/

/-- `h` is the one control stream, and no operation may replace it. -/
structure Home (h : Conn) (sh : Shared T) : Prop where
  place : sh.slot.toList ++ sh.held = [h]
  writer : sh.writer = none

/-- Whoever uses a control stream uses that one. -/
theorem Home.eq_of_spot {p : Place} {h' : Conn} (hh : Home h sh) (hs : (p.spot h').Ok sh) : h' = h := by
  have hp := hh.place
  cases p with
  | locked => rw [hs.1, hs.2] at hp; simpa using hp
  | exclusive | unique => rw [hs.1, hs.2] at hp; simpa using hp

theorem home_failing {ε α : Type} (sh : Shared T) (h' : Conn) (r : Except ε α) (hh : Home h sh) :
    Home h (sh.failing h' r) := by
  cases r <;> exact ⟨hh.place, hh.writer⟩

theorem home_launch {I : Impl} {l : Launch} {p : Io Out} (hh : Home h sh)
    (hl : ∀ op, l = .op op → op.isMut = false) (hp : launch I sh t l = some (sh', p)) : Home h sh' := by
  cases l with
  | op op =>
    simp only [launch, hh.writer, hl op rfl, if_true, Bool.false_eq_true, if_false] at hp
    cases hp
    exact ⟨hh.place, rfl⟩
  | stream i op =>
    simp only [launch] at hp
    split at hp
    · cases hp
    · simp only [Option.map_eq_some_iff, Prod.mk.injEq] at hp
      obtain ⟨p', -, rfl, -⟩ := hp
      exact ⟨hh.place, hh.writer⟩

variable [DecidableEq T]

/-- Only taking and putting move it. -/
theorem home_perform {e : Eff} {o : Oracle} {r : e.Ret} (hh : Home h sh) (hi : Inv v sh ms ct)
    (hn : (ms t).next v e r ≠ .stop) (hp : perform sh t e o = some (sh', r)) : Home h sh' := by
  have hu : (ms t).isUnique = false := by
    by_contra hne
    have := (hi.borrowed.writer t).mp (by simpa using hne)
    rw [hh.writer] at this
    cases this
  have hg := hi.not_gone (t := t)
  cases e with
  | take =>
    simp only [perform, Option.some.injEq, Prod.mk.injEq] at hp
    obtain ⟨rfl, -⟩ := hp
    exact ⟨by simpa using hh.place, hh.writer⟩
  | put h' =>
    simp only [perform, Option.some.injEq, Prod.mk.injEq] at hp
    obtain ⟨rfl, -⟩ := hp
    cases hm : ms t with
    | exLk h'' =>
      simp [hm] at hn
      subst hn
      obtain rfl := hi.user (t := t) (by rw [hm]; rfl)
      have hspot := (hi.holds t rfl).spot
      rw [hm] at hspot
      obtain ⟨hs, hheld⟩ := hspot
      have := hh.place
      rw [hs, hheld] at this
      exact ⟨by simpa [hheld] using this, hh.writer⟩
    | uh lk h'' ok => rw [hm] at hu; cases hu
    | _ => simp [hm] at hn hg
  | close h' =>
    cases hm : ms t with
    | uh lk h'' ok => rw [hm] at hu; cases hu
    | _ => simp [hm] at hn hg
  | connect host port =>
    cases hm : ms t with
    | un lk => rw [hm] at hu; cases hu
    | _ => simp [hm] at hn hg
  | copyAll h' | readToEnd h' => cases hp; exact home_failing _ _ _ hh
  | finish h' =>
    cases hp
    exact home_failing (sh.setWire h' .idle) _ _ ⟨hh.place, hh.writer⟩
  | flush h' cleanup =>
    cases cleanup with
    | false => cases hp; exact hh
    | true => cases hp; exact home_failing _ _ _ hh
  | lock | unlock | builder =>
    simp only [perform] at hp
    split at hp
    · cases hp; exact ⟨hh.place, hh.writer⟩
    · cases hp <;> exact hh
  | _ => cases hp; exact ⟨hh.place, hh.writer⟩

/-- While callers run managed operations only, the control stream of the
client stays the one it is. -/
theorem reachable_home {I : Impl} {ok : Config T → Label T → Prop} (hI : Keeping v I)
    (hok : Permits v ok) (hm : ∀ s t op, ok s (.launch t (.op op)) → op.isMut = false)
    (hr : (runs I (some h) ok).Reachable s) : Home h s.sh := by
  have hinv := inductive_inv hI hok (some h)
  refine (LTS.Inductive.reachable (I := fun s => (∃ ms, (∃ ct, Inv v s.sh ms ct) ∧
    Typed (protocol v) .idle Done (Done .done) s.th ms) ∧ Home h s.sh) ⟨fun s hs => ?_, ?_⟩ s hr).2
  · refine ⟨hinv.init s hs, ?_⟩
    obtain ⟨builder, hsh⟩ := hs.1
    rw [hsh]
    exact ⟨rfl, rfl⟩
  · rintro s l s' ⟨hs, hh⟩ ⟨hstep, hokl⟩
    refine ⟨hinv.step s l s' hs ⟨hstep, hokl⟩, ?_⟩
    obtain ⟨ms, ⟨ct, hi⟩, hT⟩ := hs
    cases l with
    | launch t l =>
      simp only [Threads.next] at hstep
      split at hstep
      · simp only [Option.map_eq_some_iff] at hstep
        obtain ⟨⟨sh, p⟩, hl, rfl⟩ := hstep
        exact home_launch hh (fun op hop => hm s t op (hop ▸ hokl)) hl
      · cases hstep
    | step t c =>
      simp only [Threads.next] at hstep
      split at hstep
      · rename_i e d k hth
        simp only [Option.map_eq_some_iff] at hstep
        obtain ⟨⟨sh, r⟩, hp, rfl⟩ := hstep
        exact home_perform hh hi (Threads.typed_at hT ⟨d, k, hth⟩ r) hp
      · cases hstep
    | retire t =>
      simp only [Threads.next] at hstep
      split at hstep
      · cases hstep
        refine ⟨hh.place, ?_⟩
        simp [system, retire, hh.writer]
      · cases hstep
    | drop t =>
      simp only [Threads.next] at hstep
      split at hstep
      · cases hstep
        show Home h (cut s.sh t)
        unfold cut
        split
        · split <;> exact ⟨hh.place, hh.writer⟩
        · exact hh
      · cases hstep

/-- One conversation at a time on the control stream `h`. -/
structure Exclusive (h : Conn) (s : Config T) : Prop where
  /-- At most one `TransferGuard` or `ExclusiveStream` is alive... -/
  one : s.sh.guards + s.sh.listing ≤ 1
  /-- ... and the flag is up while one is. -/
  active : 0 < s.sh.guards + s.sh.listing → s.sh.active = true
  /-- The control stream is in one place. -/
  place : s.sh.slot.toList ++ s.sh.held = [h]
  /-- A command is sent when no other, and no transfer, is in progress. -/
  quiet : ∀ t h' c, s.At t (.send h' c) → h' = h ∧ s.sh.wire h' = .idle
  /-- All that was moved or raised is put back. -/
  rest : (∀ t, s.th t = none) → s.sh.pool = [] → s.sh.active = false ∧ s.sh.slot = some h

/-- **Exclusive control channel of `FtpFs`**, connected with or without a
`passive_stream_builder`. -/
theorem exclusive_channel (X : Ext) {h : Conn} {s : Config T}
    (hr : (runs (syncImpl X) (some h) Managed).Reachable s) : Exclusive h s := by
  obtain ⟨ms, ⟨ct, hi⟩, hT⟩ := reachable_inv (sync_keeping X) managed_permits hr
  have hh : Home h s.sh := reachable_home (sync_keeping X) managed_permits (fun _ _ _ h => h) hr
  refine ⟨hi.transfers.1, hi.transfers.2, hh.place, fun t h' c ha => ?_, fun hth hp => ?_⟩
  · rcases at_send hi hT ha with ⟨p, d, hp, hm⟩ | hm
    · obtain rfl := hi.user (t := t) (by rw [hm]; rfl)
      have hold := hi.holds t rfl
      rw [hm] at hold
      exact ⟨hh.eq_of_spot hold.spot, hold.wire rfl h' _ rfl⟩
    · have := (hi.borrowed.writer t).mp (by rw [hm]; rfl)
      rw [hh.writer] at this
      cases this
  · have hms : ∀ t, ms t = .idle := fun t => by
      have := hT t
      rwa [hth t] at this
    obtain ⟨ha, hheld⟩ := hi.at_rest hms hp
    refine ⟨ha, ?_⟩
    have := hh.place
    rw [hheld, List.append_nil] at this
    cases hs : s.sh.slot with
    | none => rw [hs] at this; cases this
    | some h' => rw [hs] at this; simpa using this

def managed (_ : Config Bool) : Label Bool → Bool
  | .launch _ (.op op) => !op.isMut
  | .drop _ => false
  | _ => true

theorem managed_of (s : Config Bool) (l : Label Bool) (h : managed s l = true) : Managed s l := by
  cases l with
  | launch t l => cases l <;> simp_all [managed, Managed]
  | _ => simp_all [managed, Managed]

/-- One thread has an upload open when the other checks the flags. -/
def uploadRun : List (Label Bool) :=
  [.launch false (.op (.append "/f".toList))] ++ steps false 10 {} ++
    [.retire false, .launch true (.op (.exec "NOOP".toList)), .step true {}]

theorem exclusive_channel_upload : ∃ s, play (syncImpl plainExt) managed uploadRun = some s ∧
    Exclusive 0 s ∧ s.sh.guards = 1 ∧ s.At true .loadActive := by
  obtain ⟨s, hs⟩ := Option.isSome_iff_exists.mp
    (show (play (syncImpl plainExt) managed uploadRun).isSome = true by decide)
  refine ⟨s, hs, exclusive_channel plainExt (reachable_of_play managed_of hs), ?_⟩
  cases hs
  exact ⟨rfl, _, _, rfl⟩

/-! ## The barrier -/

/-- No command is sent on a control stream after a failure that needs a
reconnect, but by the operation that met it. -/
def Sealed (s : Config T) : Prop :=
  ∀ t h c, s.At t (.send h c) →
    s.sh.health h ≠ .dead ∧ ∀ u b, s.sh.health h = .failed u b → u = t

theorem sealed_of_inv (hv : v ≠ .cancel) (hi : Inv v s.sh ms ct)
    (hT : Typed (protocol v) .idle Done (Done .done) s.th ms) : Sealed s := by
  intro t h c ha
  rcases at_send hi hT ha with ⟨p, d, hp, hm⟩ | hm
  · obtain rfl := hi.user (t := t) (by rw [hm]; rfl)
    have hgr := (hi.holds t rfl).grade
    rw [hm] at hgr
    refine ⟨?_, fun u b he => hgr.1 h u b he⟩
    cases v with
    | cancel => exact absurd rfl hv
    | _ => exact hgr.2.1
  · obtain rfl := hi.user (t := t) (by rw [hm]; rfl)
    have hgr := (hi.holds t rfl).grade
    rw [hm] at hgr
    have hfine : s.sh.health h = .fine := by
      cases v with
      | cancel => exact absurd rfl hv
      | _ => simpa using hgr.2
    exact ⟨by rw [hfine]; simp, fun u b he => by rw [hfine] at he; cases he⟩

/-- What is left of `check_operation_state` once no transfer was active. -/
def checkUsable : Io (RemoteResult Unit) := do
  if !(← step .loadUsable) then
    pure (.error connectionUnusable)
  else
    pure (.ok ())

theorem checkOperationState_eq : FtpFs.checkOperationState =
    (step .loadActive >>= fun active => if active then pure (.error transferInProgress) else checkUsable) := rfl

/-- `p` begins with the check under the mutex, and is over with its error when
that fails. -/
def Gated {α : Type} (p : Io (RemoteResult α)) : Prop :=
  ∃ k, p = (FtpFs.lock >>= fun _ => FtpFs.checkOperationState >>= k) ∧
    ∀ e, k (.error e) = (FtpFs.unlock >>= fun _ => pure (.error e))

theorem withStream_gated {α : Type} (f : Conn → Io (RemoteResult α)) : Gated (FtpFs.withStream f) :=
  ⟨_, rfl, fun _ => rfl⟩

theorem withExclusiveStream_gated {α : Type} (f : Conn → Io (RemoteResult α)) :
    Gated (FtpFs.withExclusiveStream f) :=
  ⟨_, rfl, fun _ => rfl⟩

/-- The next step of `t`, if it can be taken, gives the `check` it is in, with
`k` to follow, an error of this kind. -/
def Fails (I : Impl) (s : Config T) (t : T) (check : Io (RemoteResult Unit)) (kind : RemoteErrorType) : Prop :=
  ∀ k c s', s.th t = some (check >>= k) → (system T I).next s (.step t c) = some s' →
    ∃ e : RemoteError, e.kind = kind ∧ s'.th t = some (k (.error e))

/-- Failed control streams are out of reach. -/
structure Barrier (I : Impl) (s : Config T) : Prop where
  send : Sealed s
  /-- The operation that met a failure still is in its section, its listing or
  its `&mut self`... -/
  inside : ∀ h u b, s.sh.health h = .failed u b →
    s.sh.lock = some u ∨ 0 < s.sh.listing ∨ s.sh.writer = some u
  /-- ... and when it is over, the failure is final. -/
  ended : ∀ u, s.th u = none → ∀ h b, s.sh.health h ≠ .failed u b
  /-- The flag is up while a transfer is alive, and a check then fails with
  `ProtocolError`... -/
  active : 0 < s.sh.guards + s.sh.listing → s.sh.active = true
  busy : 0 < s.sh.guards + s.sh.listing → ∀ t, Fails I s t FtpFs.checkOperationState .protocolError
  /-- ... and afterwards the connection is marked, and the check goes on to fail
  with `ConnectionError`. -/
  check : ∀ t h, s.At t .loadUsable → s.sh.lock = some t ∨ s.sh.writer = some t →
    s.sh.slot = some h → s.sh.health h ≠ .fine → s.sh.usable = false
  lost : ∀ t h, s.sh.lock = some t → s.sh.slot = some h → s.sh.health h ≠ .fine →
    Fails I s t checkUsable .connectionError

theorem dead_perform {e : Eff} {o : Oracle} {r : e.Ret} (hd : sh.health h = .dead)
    (hp : perform sh t e o = some (sh', r)) : sh'.health h = .dead := by
  have hset : ∀ (sh : Shared T) h' x, sh.health h = .dead → (h' = h → x = .dead) →
      (sh.setHealth h' x).health h = .dead := by
    intro sh h' x hd hx
    by_cases hh : h = h'
    · subst hh; simp [Shared.setHealth, hx rfl]
    · simp [Shared.setHealth, Function.update_of_ne hh, hd]
  have hfail : ∀ {ε α : Type} (sh : Shared T) h' (r : Except ε α), sh.health h = .dead →
      (sh.failing h' r).health h = .dead := by
    intro ε α sh h' r hd
    cases r with
    | ok a => exact hd
    | error e => exact hset sh h' _ hd fun _ => rfl
  cases e with
  | copyAll h' | readToEnd h' => cases hp; exact hfail _ _ _ hd
  | finish h' => cases hp; exact hfail (sh.setWire h' .idle) _ _ hd
  | flush h' cleanup =>
    cases cleanup with
    | false => cases hp; exact hd
    | true => cases hp; exact hfail _ _ _ hd
  | recv h' c =>
    cases hp
    exact hset (sh.setWire h' _) _ _ hd fun e => by subst e; rw [hd]; rfl
  | builder h' =>
    simp only [perform] at hp
    split at hp
    · cases hp
      exact hset _ _ _ hd fun e => by subst e; rw [hd]; rfl
    · cases hp; exact hd
  | close h' => cases hp; simp [Shared.endSection, hd, Health.sealed]
  | unlock =>
    simp only [perform] at hp
    split at hp
    · cases hp; simp [Shared.endSection, hd, Health.sealed]
    · cases hp
  | lock =>
    simp only [perform] at hp
    split at hp
    · cases hp; exact hd
    · cases hp
  | connect host port =>
    simp only [perform] at hp
    split at hp <;> cases hp <;> exact hd
  | _ => cases hp; exact hd

/-- What every step of a program keeps, and borrowing and drops do not touch,
every step of the system keeps. -/
theorem shared_step {I : Impl} {P : Shared T → Prop} {l : Label T}
    (hperform : ∀ {sh sh' : Shared T} {t : T} {e : Eff} {o : Oracle} {r : e.Ret},
      perform sh t e o = some (sh', r) → P sh → P sh')
    (hborrow : ∀ sh rs w ps, P sh → P { sh with readers := rs, writer := w, pool := ps })
    (hcut : ∀ sh h, P sh → P { sh with cancelled := Function.update sh.cancelled h true })
    (hs : (system T I).next s l = some s') (hP : P s.sh) : P s'.sh := by
  rcases next_shared hs with ⟨rs, w, ps, hsh⟩ | ⟨t, c, e, r, -, -, hp⟩ | ⟨t, -, hsh⟩
  · rw [hsh]
    exact hborrow _ _ _ _ hP
  · exact hperform hp hP
  · rw [hsh]
    unfold cut
    split
    · split
      · exact hcut _ _ hP
      · exact hP
    · exact hP

/-- A control stream once lost is lost. -/
theorem dead_run {I : Impl} {slot : Option Conn} {ok : Config T → Label T → Prop} {ls : List (Label T)}
    (hr : (runs I slot ok).Run s ls s') (hd : s.sh.health h = .dead) : s'.sh.health h = .dead :=
  LTS.run_ind (T := runs I slot ok) (I := fun s => s.sh.health h = .dead)
    (fun _ _ _ hd hs => shared_step (P := fun sh => sh.health h = .dead)
      (fun hp hd => dead_perform hd hp) (fun _ _ _ _ hd => hd) (fun _ _ hd => hd) hs.1 hd) hr hd

/-- A check that finds the flag up. -/
theorem fails_active {I : Impl} (ha : s.sh.active = true) : Fails I s t FtpFs.checkOperationState .protocolError := by
  intro k c s' hth hs
  rw [checkOperationState_eq] at hth
  simp only [Threads.next, hth] at hs
  cases hs
  refine ⟨transferInProgress, rfl, ?_⟩
  show Function.update s.th t _ t = _
  rw [Function.update_self, ha]
  rfl

/-- A check that finds the connection marked. -/
theorem fails_usable {I : Impl} (hu : s.sh.usable = false) : Fails I s t checkUsable .connectionError := by
  intro k c s' hth hs
  simp only [Threads.next, hth] at hs
  cases hs
  refine ⟨connectionUnusable, rfl, ?_⟩
  show Function.update s.th t _ t = _
  rw [Function.update_self, hu]
  rfl

omit [DecidableEq T] in
/-- A failed control stream in the slot is marked when it is checked. -/
theorem marked_of_inv (hi : Inv .strict s.sh ms ct) (hT : Typed (protocol .strict) .idle Done (Done .done) s.th ms)
    (ha : s.At t .loadUsable) (hl : s.sh.lock = some t ∨ s.sh.writer = some t) (hs : s.sh.slot = some h)
    (hb : s.sh.health h ≠ .fine) : s.sh.usable = false := by
  rcases at_loadUsable hi hT ha hl with hm | ⟨lk, us, hm⟩ | ⟨lk, hm⟩
  · have hk := hi.knows t
    rw [hm] at hk
    rcases ((hi.free hk).rest h hs).2 hb with hu | ⟨u, hu⟩
    · exact hu
    · have := hi.knows u
      rw [hu] at this
      exact absurd rfl this
  · obtain rfl := hi.user (t := t) (by rw [hm]; rfl)
    have hgr := (hi.holds t rfl).grade
    rw [hm] at hgr
    exact (hgr.2 h hs).2 hb
  · obtain rfl := hi.user (t := t) (by rw [hm]; rfl)
    have hspot := (hi.holds t rfl).spot
    rw [hm] at hspot
    have := hspot.1.symm.trans hs
    cases this

theorem barrier_of_reachable (X : Ext) {slot : Option Conn}
    (hr : (runs (syncImpl X) slot Blocking).Reachable s) : Barrier (syncImpl X) s := by
  obtain ⟨ms, ⟨ct, hi⟩, hT⟩ := reachable_inv (sync_keeping X) blocking_permits hr
  have hactive := hi.transfers.2
  refine ⟨sealed_of_inv (by simp) hi hT, fun h u b => hi.inside, fun u hu h b => ?_, hactive,
    fun hg t => fails_active (hactive hg), fun t h => marked_of_inv hi hT, fun t h hl hs hb => ?_⟩
  · have hm := hT u
    rw [hu] at hm
    exact hi.unfailed (by rw [hm]; rfl) h b
  · intro k c s' hth
    have ha : s.At t .loadUsable := ⟨_, _, hth⟩
    exact fails_usable (marked_of_inv hi hT ha (.inl hl) hs hb) k c s' hth

/-- **Poisoned-connection barrier of `FtpFs`**: from every state a run
reaches, a control stream that is lost stays so, and no later step of anyone
sends a command on it; what a check then answers is what its section answers. -/
theorem poisoned_barrier (X : Ext) {slot : Option Conn} {s : Config T}
    (hr : (runs (syncImpl X) slot Blocking).Reachable s) :
    Barrier (syncImpl X) s ∧
      (∀ ls s', (runs (syncImpl X) slot Blocking).Run s ls s' → ∀ h,
        s.sh.health h = .dead → s'.sh.health h = .dead ∧ ∀ t c, ¬ s'.At t (.send h c)) ∧
      ∀ (α : Type) (f : Conn → Io (RemoteResult α)),
        Gated (FtpFs.withStream f) ∧ Gated (FtpFs.withExclusiveStream f) := by
  refine ⟨barrier_of_reachable X hr, fun ls s' hrun h hd => ?_, fun α f =>
    ⟨withStream_gated f, withExclusiveStream_gated f⟩⟩
  have hd' := dead_run hrun hd
  exact ⟨hd', fun t c ha => ((barrier_of_reachable X (hr.run hrun)).send t h c ha).1 hd'⟩

def blocking (_ : Config Bool) : Label Bool → Bool
  | .drop _ => false
  | _ => true

theorem blocking_of (s : Config Bool) (l : Label Bool) (h : blocking s l = true) : Blocking s l := by
  cases l <;> simp_all [blocking, Blocking]

/-- One thread's command loses the connection before the other checks the flags. -/
def lostRun : List (Label Bool) :=
  [.launch false (.op (.exec "NOOP".toList))] ++
    steps false 8 { reply := .error (.connectionError (.other 0)) } ++
    [.launch true (.op (.exec "NOOP".toList)), .step true {}, .step true {}]

theorem poisoned_barrier_lost : ∃ s, play (syncImpl plainExt) blocking lostRun = some s ∧
    Barrier (syncImpl plainExt) s ∧ s.sh.health 0 = .dead ∧ s.sh.lock = some true ∧ s.sh.slot = some 0 ∧
    s.At true .loadUsable ∧ s.sh.usable = false := by
  obtain ⟨s, hs⟩ := Option.isSome_iff_exists.mp
    (show (play (syncImpl plainExt) blocking lostRun).isSome = true by decide)
  refine ⟨s, hs, (poisoned_barrier plainExt (reachable_of_play blocking_of hs)).1, ?_⟩
  cases hs
  exact ⟨rfl, rfl, rfl, ⟨_, _, rfl⟩, rfl⟩

end RemotefsFtp.L5
