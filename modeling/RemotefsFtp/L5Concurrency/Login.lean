import RemotefsFtp.Core.Ghost
import RemotefsFtp.L3Client.Sends
import RemotefsFtp.L5Concurrency.Banner
import RemotefsFtp.L5Concurrency.Marker

/-!
# Set up before use (`src/client/sync.rs:657-739`, `src/client/tokio.rs:613-695`)

A connection is set up by `connect`: TLS if it is asked for, then the login,
then the transfer type, each after the server accepted what comes before. Only
then is the stream put where other operations find it. The client is observed
here together with what the server accepted on each connection.

Results:
* **`Kind.run_enters`**: `connect` keeps to this order, and no other operation
  of either client touches what it is about.
* `audited_of_reachable`: to observe the client changes nothing about it.
* **`set_up_before_use`**: in every interleaving, a command of another
  operation is sent only on a connection that is set up completely, and a
  password never before the TLS it was configured with.
-/
namespace RemotefsFtp.L5

open L1 (Str Path)
open L2 L3
open Core (LTS Prog Threads Typestate Next)
open Core.Threads (State Lbl Typed Keeps Observer Noted)
open Mode (Done isErr)

variable {α β : Type}

/-! ## The order of `connect` -/

/-- How far `connect` has come. -/
inductive Entry where
  /-- In another operation. -/
  | out
  /-- No connection was opened, or it is closed. -/
  | dialing (o : Options)
  /-- `h` is open, and these commands are left. -/
  | entering (o : Options) (h : Conn) (todo : List Command)

namespace Entry

open Core.Next

/-- Part of the setup of some connection. -/
def isSetup : Command → Bool
  | .intoSecure | .login _ _ | .transferTypeBinary => true
  | _ => false

@[simp] def onConnect (host : Str) (port : Nat) (r : FtpResult Conn) : Entry → Next Entry
  | dialing o =>
    if host = o.hostname ∧ port = o.port then
      match r with
      | .ok h => go (entering o h (setupCommands o))
      | .error _ => go (dialing o)
    else stop
  | _ => stop

@[simp] def onSend (h : Conn) (c : Command) : Entry → Next Entry
  | out => if isSetup c then stop else go out
  | entering o h' todo => if h = h' ∧ todo.head? = some c then go (entering o h' todo) else stop
  | dialing _ => stop

@[simp] def onRecv (h : Conn) (c : Command) (failed : Bool) : Entry → Next Entry
  | out => if isSetup c then stop else go out
  | entering o h' todo =>
    if h = h' ∧ todo.head? = some c then go (entering o h' (if failed then todo else todo.tail)) else stop
  | dialing _ => stop

@[simp] def onPut (h : Conn) : Entry → Next Entry
  | entering _ h' todo => if h = h' ∧ todo = [] then go out else stop
  | m => go m

@[simp] def onClose (h : Conn) : Entry → Next Entry
  | entering o h' _ => if h = h' then go (dialing o) else stop
  | m => go m

@[simp] def next (m : Entry) (e : Eff) (r : e.Ret) : Next Entry :=
  match e, r with
  | .connect host port, r => onConnect host port r m
  | .send h c, _ => onSend h c m
  | .recv h c, r => onRecv h c (isErr r) m
  | .put h, _ => onPut h m
  | .close h, _ => onClose h m
  | _, _ => go m

/-- The options of the `connect` it is in. -/
def options : Entry → Option Options
  | out => none
  | dialing o | entering o _ _ => some o

/-- Nothing is left half set up. -/
def Ended (m : Entry) : Prop := ∀ o h todo, m ≠ entering o h todo

end Entry

/-- The order in which a connection is set up. -/
abbrev entry : Typestate ftp where
  Mode := Entry
  next m e r := m.next e r
  cut := .go

/-! ## Both clients keep to it -/

variable {D D' : Entry → Prop} {m : Entry}

abbrev Enters (D : Entry → Prop) (p : Io α) (m : Entry) (Q : α → Entry → Prop) : Prop := entry.Partly D p m Q

theorem enters_step {e : Eff} {f : e.Ret → Io β} {Q : β → Entry → Prop}
    (h : ∀ r, (m.next e r).All fun m' => Enters D (f r) m' Q) : Enters D (step e >>= f) m Q :=
  Typestate.Partly.bind (Typestate.partly_step h) fun _ _ hf => hf

theorem enters_await {e : Eff} {f : e.Ret → Io β} {Q : β → Entry → Prop} (hd : D m)
    (h : ∀ r, (m.next e r).All fun m' => Enters D (f r) m' Q) : Enters D (await e >>= f) m Q :=
  Typestate.Partly.bind (Typestate.partly_await h hd) fun _ _ hf => hf

theorem enters_seq {p : Io α} {f : α → Io β} {P : α → Entry → Prop} {Q : β → Entry → Prop} (hp : Enters D p m P)
    (hf : ∀ a m', P a m' → Enters D (f a) m' Q) : Enters D (p >>= f) m Q := Typestate.Partly.bind hp hf

/-- Away from a connection that is being set up. -/
theorem stays_next (hm : m.Ended) {Cs : Command → Prop} (hC : ∀ c, Cs c → m = .out ∧ Entry.isSetup c = false)
    (e : Eff) (r : e.Ret) (he : Sends false Cs e) : m.next e r = .go m := by
  cases m with
  | entering o h todo => exact absurd rfl (hm o h todo)
  | out =>
    cases e with
    | send h c | recv h c => simp [(hC c he).2]
    | connect host port => cases he
    | _ => rfl
  | dialing o =>
    cases e with
    | send h c | recv h c => cases (hC c he).1
    | connect host port => cases he
    | _ => rfl

theorem enters_stays (hm : m.Ended) {Cs : Command → Prop} (hC : ∀ c, Cs c → m = .out ∧ Entry.isSetup c = false)
    {p : Io α} (hp : Does (Sends false Cs) p) : Enters Entry.Ended p m fun _ m' => m' = m :=
  Typestate.Partly.stays hp (stays_next hm hC) rfl hm

/-- A reply takes the command off what is left, if it is good. -/
def Takes (call : Conn → Command → Io (FtpResult Response)) (D : Entry → Prop) (o : Options) (h : Conn) : Prop :=
  ∀ c todo, Enters D (call h c) (.entering o h (c :: todo)) fun r m =>
    m = .entering o h (if isErr r then c :: todo else todo)

theorem sync_takes (o : Options) (h : Conn) : Takes call D o h := by
  intro c todo
  have hrecv : Enters D (step (.recv h c)) (.entering o h (c :: todo)) fun r m =>
      m = .entering o h (if isErr r then c :: todo else todo) :=
    Typestate.partly_step fun r => by simp
  refine enters_step fun _ => ?_
  simp only [Entry.next, Entry.onSend, List.head?_cons, and_self, if_true, Core.Next.All]
  split
  · refine enters_step fun b => ?_
    show Enters D _ _ _
    split
    · exact enters_step fun _ => hrecv
    · exact hrecv
  · exact hrecv

theorem tokio_takes {o : Options} {h : Conn} (hD : ∀ todo, D (.entering o h todo)) : Takes TokioFtpFs.call D o h := by
  intro c todo
  have hrecv : Enters D (await (.recv h c)) (.entering o h (c :: todo)) fun r m =>
      m = .entering o h (if isErr r then c :: todo else todo) :=
    Typestate.partly_await (fun r => by simp) (hD _)
  refine enters_await (hD _) fun _ => ?_
  simp only [Entry.next, Entry.onSend, List.head?_cons, and_self, if_true, Core.Next.All]
  split
  · refine enters_await (hD _) fun b => ?_
    show Enters D _ _ _
    split
    · exact enters_step fun _ => hrecv
    · exact hrecv
  · exact hrecv

/-- A connection that is being set up, or is so when all went well. -/
def SetUp (o : Options) (h : Conn) (todo : List Command) (r : RemoteResult Unit) (m : Entry) : Prop :=
  ∃ left, m = .entering o h left ∧ (isErr r = false → left = todo)

theorem setUp_failed {o : Options} {h : Conn} {todo left : List Command} {e : RemoteError} :
    SetUp o h todo (.error e) (.entering o h left) := by
  refine ⟨left, rfl, fun hr => ?_⟩
  cases hr

namespace Takes

variable {call : Conn → Command → Io (FtpResult Response)} {o : Options} {h : Conn} (hcall : Takes call D o h)
include hcall

theorem secure (todo : List Command) :
    Enters D (secure call o h) (.entering o h ((if o.secure then [.intoSecure] else []) ++ todo)) (SetUp o h todo) := by
  unfold L3.secure
  split
  · refine enters_step fun tls => ?_
    show Enters D _ _ _
    split
    · refine enters_seq (hcall _ _) fun r m hm => ?_
      subst hm
      cases r with
      | ok _ => exact ⟨_, rfl, fun _ => rfl⟩
      | error e => exact setUp_failed
    · exact setUp_failed
  · exact ⟨_, rfl, fun _ => rfl⟩

theorem login : Enters D (login call o h)
    (.entering o h [.login o.username (o.password.getD []), .transferTypeBinary]) (SetUp o h []) := by
  refine enters_seq (hcall _ _) fun r m hm => ?_
  subst hm
  cases r with
  | error e => exact setUp_failed
  | ok _ =>
    refine enters_seq (hcall _ _) fun r m hm => ?_
    subst hm
    cases r with
    | error e => exact setUp_failed
    | ok _ => exact ⟨_, rfl, fun _ => rfl⟩

theorem setup : Enters D (setup call o h) (.entering o h (setupCommands o)) (SetUp o h []) := by
  have hinstall : Enters D (installBuilder o h) (.entering o h (setupCommands o)) fun _ m =>
      m = .entering o h (setupCommands o) := by
    unfold installBuilder
    split
    · exact Typestate.partly_step fun _ => rfl
    · exact rfl
  refine enters_seq hinstall fun _ m hm => ?_
  subst hm
  refine enters_step fun _ => enters_seq (hcall.secure _) fun r m hm => ?_
  obtain ⟨left, rfl, hleft⟩ := hm
  cases r with
  | error e => exact setUp_failed
  | ok _ =>
    obtain rfl := hleft rfl
    exact hcall.login

end Takes

theorem ended_out : Entry.Ended .out := fun _ _ _ h => nomatch h
theorem ended_dialing (o : Options) : (Entry.dialing o).Ended := fun _ _ _ h => nomatch h

theorem dialing_connect (o : Options) (r : FtpResult Conn) :
    (Entry.dialing o).next (.connect o.hostname o.port) r =
      match r with
      | .ok h => .go (.entering o h (setupCommands o))
      | .error _ => .go (.dialing o) :=
  if_pos ⟨rfl, rfl⟩

theorem entering_close (o : Options) (h : Conn) (todo : List Command) (r : Unit) :
    (Entry.entering o h todo).next (.close h) r = .go (.dialing o) := if_pos rfl

theorem entering_put (o : Options) (h : Conn) (r : Unit) : (Entry.entering o h []).next (.put h) r = .go .out :=
  if_pos ⟨rfl, rfl⟩

/-- What does not open a connection leaves `connect` where it was. -/
theorem dialing_stays {o : Options} {p : Io α} (hp : Does (Sends false fun _ => False) p) :
    Enters Entry.Ended p (.dialing o) fun _ m => m = .dialing o :=
  enters_stays (ended_dialing o) (fun _ hc => hc.elim) hp

/-- The blocking client. -/
theorem enters_connect (o : Options) : Enters Entry.Ended (FtpFs.connect o) (.dialing o) fun _ => Entry.Ended := by
  refine enters_step fun active => ?_
  show Enters _ _ _ _
  split
  · exact ended_dialing o
  refine enters_seq (dialing_stays FtpFs.hasUsableStream_sends) fun b m hm => ?_
  subst hm
  split
  · exact ended_dialing o
  refine enters_seq (dialing_stays FtpFs.discardUnusable_sends) fun _ m hm => ?_
  subst hm
  refine enters_step fun r => ?_
  rw [dialing_connect]
  cases r with
  | error e => exact ended_dialing o
  | ok h =>
    refine enters_seq ((sync_takes o h).setup) fun r m hm => ?_
    obtain ⟨left, rfl, hleft⟩ := hm
    cases r with
    | error e =>
      refine enters_step fun _ => ?_
      rw [entering_close]
      exact ended_dialing o
    | ok _ =>
      obtain rfl := hleft rfl
      refine enters_step fun _ => enters_step fun _ => ?_
      rw [entering_put]
      exact enters_step fun _ => ended_out

/-- The Tokio client; a dropped `connect` closes its connection. -/
theorem tokio_enters_connect (o : Options) :
    Enters Entry.Ended (TokioFtpFs.connect o) (.dialing o) fun _ => Entry.Ended := by
  refine enters_step fun active => ?_
  show Enters _ _ _ _
  split
  · exact ended_dialing o
  refine enters_seq (dialing_stays TokioFtpFs.hasUsableStream_sends) fun b m hm => ?_
  subst hm
  split
  · exact ended_dialing o
  refine enters_seq (dialing_stays TokioFtpFs.discardUnusable_sends) fun _ m hm => ?_
  subst hm
  refine enters_await (ended_dialing o) fun r => ?_
  rw [dialing_connect]
  cases r with
  | error e => exact ended_dialing o
  | ok h =>
    have hglue : ∀ m, (∃ todo, m = .entering o h todo) → entry.FollowsGlue Entry.Ended [.close h] m := by
      rintro _ ⟨todo, rfl⟩ r
      show ((Entry.entering o h todo).next (.close h) r).All Entry.Ended
      rw [entering_close]
      exact ended_dialing o
    refine enters_seq (Typestate.partly_holding (tokio_takes fun todo => ⟨todo, rfl⟩).setup hglue) fun r m hm => ?_
    obtain ⟨left, rfl, hleft⟩ := hm
    cases r with
    | error e =>
      refine enters_step fun _ => ?_
      rw [entering_close]
      exact ended_dialing o
    | ok _ =>
      obtain rfl := hleft rfl
      refine enters_step fun banner => enters_step fun _ => enters_step fun _ => ?_
      rw [entering_put]
      exact enters_step fun _ => ended_out

/-- Where an operation starts. -/
def arrives : Op → Entry
  | .connect o => .dialing o
  | _ => .out

theorem listing_setup {c : Command} (hc : Listing c) : Entry.isSetup c = false := by
  obtain ⟨path, -, rfl⟩ := hc
  rfl

theorem sends_setup {op : Op} {c : Command} (hc : op.Sends c) : Entry.isSetup c = false := by
  rcases hc with hc | hc
  · exact listing_setup hc
  · cases op with
    | createDir | removeFile | removeDir | create | append => obtain ⟨-, rfl⟩ := hc; rfl
    | rename => obtain ⟨-, -, rfl⟩ := hc; rfl
    | open' =>
      rcases hc with ⟨-, rfl⟩ | ⟨n, rfl⟩
      · rfl
      · rfl
    | exec cmd =>
      obtain rfl : c = .site cmd := hc
      rfl
    | _ => exact hc.elim

theorem out_stays {Cs : Command → Prop} (hC : ∀ c, Cs c → Entry.isSetup c = false) {p : Io α}
    (hp : Does (Sends false Cs) p) : Enters Entry.Ended p .out fun _ => Entry.Ended := by
  refine Typestate.Partly.mono (enters_stays ended_out (fun c hc => ⟨rfl, hC c hc⟩) hp) fun _ m hm => ?_
  rw [hm]
  exact ended_out

theorem enters_leaving {p : Io α} {out : α → Out} {P : Entry → Prop} (hp : Enters D p m fun _ m => P m) :
    Enters D (leaving p out) m fun _ m => P m :=
  Typestate.Partly.bind hp fun _ _ h => h

/-- **Every operation of either client** keeps to the order. -/
theorem Kind.run_enters (k : Kind) (X : Ext) (op : Op) :
    Enters Entry.Ended ((k.impl X).run op) (arrives op) fun _ => Entry.Ended := by
  have hquit (c : Command) (hc : c = .quit) : Entry.isSetup c = false := by rw [hc]; rfl
  have hplain (hop : op.isMut = false) : Enters Entry.Ended ((k.impl X).run op) .out fun _ => Entry.Ended := by
    cases k with
    | blocking => exact out_stays (fun _ => sends_setup) (does_of_plain _ _ _ (FtpFs.sync_plain X op hop))
    | tokio => exact out_stays (fun _ => sends_setup) (does_of_plain _ _ _ (TokioFtpFs.tokio_plain X op hop))
  cases op with
  | connect o =>
    cases k with
    | blocking => exact enters_leaving (enters_connect o)
    | tokio => exact enters_leaving (tokio_enters_connect o)
  | disconnect =>
    cases k with
    | blocking => exact enters_leaving (out_stays hquit FtpFs.disconnect_sends)
    | tokio => exact enters_leaving (out_stays hquit TokioFtpFs.disconnect_sends)
  | _ => exact hplain rfl

theorem Kind.stream_enters (k : Kind) (X : Ext) {s : OwnedStream} {op : StreamOp} {p : Io Out}
    (hp : (k.impl X).runStream s op = some p) : Enters Entry.Ended p .out fun _ => Entry.Ended := by
  cases k with
  | blocking => exact out_stays (fun _ hc => hc.elim) (FtpFs.stream_sends X hp)
  | tokio => exact out_stays (fun _ hc => hc.elim) (TokioFtpFs.stream_sends X hp)

/-! ## What the server saw -/

/-- What happened on each connection. -/
structure Ledger (T : Type) where
  /-- The options it was opened with. -/
  opened : Conn → Option Options := fun _ => none
  /-- The commands that were accepted on it, in order. -/
  accepted : Conn → List Command := fun _ => []
  /-- What each thread runs. -/
  running : T → Option Launch := fun _ => none

/-- The options of a `connect`. -/
def optionsOf : Option Launch → Option Options
  | some (.op (.connect o)) => some o
  | _ => none

variable {T : Type} [DecidableEq T]

variable (T) in
def ledger : Observer ftp T Launch (Ledger T) where
  saw g t e r :=
    match e, r with
    | .connect _ _, .ok h => { g with opened := Function.update g.opened h (optionsOf (g.running t)) }
    | .recv h c, .ok _ => { g with accepted := Function.update g.accepted h (g.accepted h ++ [c]) }
    | _, _ => g
  starts g t l := { g with running := Function.update g.running t (some l) }
  ends g t := { g with running := Function.update g.running t none }

/-- A client beside its ledger. -/
abbrev Audit (T : Type) := State ftp (Noted (Shared T) (Ledger T)) T Out

/-- The interleavings of a new client, with the ledger kept from the start. -/
abbrev auditedRuns (I : Impl) (ok : Config T → Label T → Prop) : LTS (Audit T) (Label T) :=
  ((system T I).observed (ledger T)).lts (fun s => s.sh = ⟨.start none, {}⟩ ∧ ∀ t, s.th t = none)
    fun s => ok (s.forget Noted.sh)

/-- Every state a new client reaches, it reaches beside a ledger. -/
theorem audited_of_reachable {I : Impl} {ok : Config T → Label T → Prop} {c : Config T}
    (hr : (runs I none ok).Reachable c) : ∃ s, (auditedRuns I ok).Reachable s ∧ s.forget Noted.sh = c := by
  refine (Threads.observed_shadows (system T I) (ledger T)).reachable
    (fun c hc => ⟨⟨⟨.start none, {}⟩, c.th⟩, ⟨rfl, hc.2⟩, ?_⟩) (fun _ _ h => h) hr
  -- there is no stream a builder could be installed on
  obtain ⟨builder, hsh⟩ := hc.1
  have hnone : (Shared.start none : Shared T).withBuilder builder = .start none := by cases builder <;> rfl
  rw [State.forget, ← hnone, ← hsh]

/-! ## What a step leads to -/

/-- The connection that `connect` or `disconnect` has as a local. -/
def Mode.inHand : Mode → Option Conn
  | .uh _ h _ | .busy .unique h _ => some h
  | _ => none

variable {v : Variant} {h : Conn}

theorem inHand_cases {m : Mode} (hm : m.inHand = some h) :
    (∃ lk ok, m = .uh lk h ok) ∨ ∃ c, m = .busy .unique h c := by
  cases m with
  | uh lk h' ok => cases hm; exact .inl ⟨lk, ok, rfl⟩
  | busy p h' c =>
    cases p with
    | unique => cases hm; exact .inr ⟨c, rfl⟩
    | locked | exclusive => cases hm
  | _ => cases hm

theorem inHand_uses {m : Mode} (hm : m.inHand = some h) : m.uses = true := by
  obtain ⟨lk, ok, rfl⟩ | ⟨c, rfl⟩ := inHand_cases hm <;> rfl

open Mode in
/-- It stays one until it is put into the slot or closed. -/
theorem next_inHand {m m' : Mode} {e : Eff} {r : e.Ret} (hm : m.inHand = some h) (hn : m.next v e r = .go m')
    (hput : e ≠ .put h) (hclose : e ≠ .close h) : m'.inHand = some h := by
  obtain ⟨lk, ok, rfl⟩ | ⟨c, rfl⟩ := inHand_cases hm
  · cases e with
    | put h' =>
      have hne : h' ≠ h := fun he => hput (by rw [he])
      cases ok <;> simp [hne] at hn
    | close h' =>
      have hne : h' ≠ h := fun he => hclose (by rw [he])
      simp [hne] at hn
    | send h' c =>
      cases lk with
      | true => cases hn
      | false =>
        cases ok with
        | false => cases hn
        | true =>
          simp only [next, reduceCtorEq, if_false, onSend] at hn
          split at hn
          · rename_i he
            cases hn
            rw [he]
            rfl
          · cases hn
    | lock | unlock =>
      cases lk <;> cases hn
      rfl
    | flush h' cleanup => cases cleanup <;> simp at hn
    | loadConnected | loadWelcome | storeConnected | storeWelcome | getWelcomeMsg | passiveStreamBuilder | setMode |
      setupTlsConnector | storeUsable => cases hn; rfl
    | _ => simp at hn
  · cases e with
    | recv h' c' =>
      simp only [next, reduceCtorEq, if_false, onRecv] at hn
      split at hn
      · rename_i he
        split at hn <;> cases hn
        rw [he.1]
        rfl
      · cases hn
    | flush h' cleanup => cases cleanup <;> simp at hn
    | storeUsable b => cases b <;> simp at hn
    | _ => simp at hn

theorem connect_inHand {m m' : Mode} {host : Str} {port : Nat} (hg : m ≠ .gone)
    (hn : m.next v (.connect host port) (.ok h) = .go m') : m'.inHand = some h := by
  cases m with
  | un lk => cases lk <;> cases hn; rfl
  | gone => exact absurd rfl hg
  | _ => cases hn

open Mode in
theorem cut_inHand {m m' : Mode} (hm : m.inHand = some h) (hc : m.cut .cancel = .go m') : m'.inHand = some h := by
  obtain ⟨lk, ok, rfl⟩ | ⟨c, rfl⟩ := inHand_cases hm
  · cases lk <;> cases hc
    rfl
  · cases hc
    rfl

namespace Entry

variable {m m' : Entry} {e : Eff} {r : e.Ret} {o : Options} {todo : List Command}

theorem next_go (hn : m.next e r ≠ .stop) : ∃ m', m.next e r = .go m' := by
  cases hm : m.next e r with
  | go m' => exact ⟨m', rfl⟩
  | stop => exact absurd hm hn
  | never =>
    exfalso
    revert hm
    cases e <;> dsimp only [next]
    case connect | send | recv | put | close =>
      simp only [onConnect, onSend, onRecv, onPut, onClose]
      repeat' split
      all_goals simp
    all_goals simp

/-- A step of `connect` is one of the same `connect`. -/
theorem next_options (hn : m.next e r = .go m') : m'.options = none ∨ m'.options = m.options := by
  cases e with
  | connect | send | recv | put | close =>
    simp only [next, onConnect, onSend, onRecv, onPut, onClose] at hn
    repeat' split at hn
    all_goals first | cases hn; done | (cases hn; simp [options])
  | _ => cases hn; exact .inr rfl

/-- From a connection that is being set up. -/
theorem next_entering (hn : (entering o h todo).next e r = .go m') (he : ∀ h c, e ≠ .recv h c) :
    (m' = entering o h todo ∧ e ≠ .put h ∧ e ≠ .close h) ∨ (e = .put h ∧ todo = [] ∧ m' = out) ∨
      (e = .close h ∧ m' = dialing o) := by
  cases e with
  | recv h' c => exact absurd rfl (he h' c)
  | connect => cases hn
  | send h' c =>
    simp only [next, onSend] at hn
    split at hn <;> cases hn
    exact .inl ⟨rfl, by simp, by simp⟩
  | put h' =>
    simp only [next, onPut] at hn
    split at hn
    · rename_i hput
      cases hn
      exact .inr (.inl ⟨by rw [hput.1], hput.2, rfl⟩)
    · cases hn
  | close h' =>
    simp only [next, onClose] at hn
    split at hn
    · rename_i hclose
      cases hn
      exact .inr (.inr ⟨by rw [hclose], rfl⟩)
    · cases hn
  | _ => cases hn; exact .inl ⟨rfl, by simp, by simp⟩

/-- To one: it was before, unless it is new. -/
theorem next_to (hn : m.next e r = .go (entering o h todo)) (he : ∀ h c, e ≠ .recv h c)
    (hc : ∀ host port, e ≠ .connect host port) : m = entering o h todo := by
  cases e with
  | recv h' c => exact absurd rfl (he h' c)
  | connect host port => exact absurd rfl (hc host port)
  | send | put | close =>
    simp only [next, onSend, onPut, onClose] at hn
    repeat' split at hn
    all_goals first | cases hn; done | (cases hn; rfl)
  | _ => cases hn; rfl

/-- The command that comes next. -/
theorem next_send {h' : Conn} {c : Command} (hn : (entering o h' todo).next (.send h c) () ≠ .stop) :
    h = h' ∧ ∃ rest, todo = c :: rest := by
  obtain ⟨hh, hhead⟩ : h = h' ∧ todo.head? = some c := by
    by_contra hne
    exact hn (if_neg hne)
  exact ⟨hh, List.head?_eq_some_iff.mp hhead⟩

/-- A reply. -/
theorem next_recv {c : Command} {r : FtpResult Response} (hn : m.next (.recv h c) r = .go m') :
    (m = out ∧ m' = out ∧ isSetup c = false) ∨ ∃ o todo, m = entering o h (c :: todo) ∧
      m' = entering o h (if isErr r then c :: todo else todo) := by
  cases m with
  | out =>
    simp only [next, onRecv] at hn
    split at hn
    · cases hn
    · rename_i hc
      cases hn
      exact .inl ⟨rfl, rfl, Bool.eq_false_iff.mpr hc⟩
  | dialing o => cases hn
  | entering o h' todo =>
    simp only [next, onRecv] at hn
    split at hn
    · rename_i he
      obtain ⟨rfl, hhead⟩ := he
      obtain ⟨rest, rfl⟩ := List.head?_eq_some_iff.mp hhead
      cases hn
      exact .inr ⟨o, rest, rfl, rfl⟩
    · cases hn

end Entry

/-! ## The invariant -/

variable {k : Kind} {t : T} {w w' : Noted (Shared T) (Ledger T)} {ms : T → Mode × Entry} {m' : Mode × Entry}

/-- Set up as its options ask for. -/
def Complete (g : Ledger T) (h : Conn) : Prop := ∃ o, g.opened h = some o ∧ setupCommands o <+: g.accepted h

/-- Being set up by `connect o`. -/
def Half (g : Ledger T) (o : Options) (h : Conn) (todo : List Command) : Prop :=
  g.opened h = some o ∧ g.accepted h ++ todo = setupCommands o

structure Entered (k : Kind) (w : Noted (Shared T) (Ledger T)) (ms : T → Mode × Entry) : Prop where
  inv : ∃ ct, Inv k.variant (k.bare w.sh) (Prod.fst ∘ ms) ct
  runs : ∀ t o, (ms t).2.options = some o → w.books.running t = some (.op (.connect o))
  hand : ∀ t o h todo, (ms t).2 = .entering o h todo → (ms t).1.inHand = some h ∧ Half w.books o h todo
  ready : ∀ h ∈ conns w.sh, Complete w.books h ∨ ∃ t o todo, (ms t).2 = .entering o h todo
  fresh : ∀ h, w.sh.next ≤ h → w.books.accepted h = []

/-! What a reply on `h` adds to the ledger. -/

theorem saw_accepted_ne {g : Ledger T} {c : Command} {x : FtpResult Response} {h' : Conn} (hne : h' ≠ h) :
    ((ledger T).saw g t (.recv h c) x).accepted h' = g.accepted h' := by
  cases x with
  | error e => rfl
  | ok a => exact Function.update_of_ne hne ..

theorem saw_accepted_prefix {g : Ledger T} {c : Command} {x : FtpResult Response} :
    g.accepted h <+: ((ledger T).saw g t (.recv h c) x).accepted h := by
  cases x with
  | error e => exact List.prefix_refl _
  | ok a =>
    show g.accepted h <+: Function.update g.accepted h (g.accepted h ++ [c]) h
    rw [Function.update_self]
    exact List.prefix_append _ _

namespace Entered

variable (hE : Entered k w ms)
include hE

omit [DecidableEq T] in
theorem entering_uses {o : Options} {todo : List Command} (hm : (ms t).2 = .entering o h todo) :
    (ms t).1.uses = true :=
  inHand_uses (hE.hand t o h todo hm).1

/-- What is asked of one thread, and of the others, when `t` changes. -/
theorem update (hinv : ∃ ct, Inv k.variant (k.bare w'.sh) (Function.update (Prod.fst ∘ ms) t m'.1) ct)
    (hrunning : ∀ u, u ≠ t → w'.books.running u = w.books.running u)
    (hruns : ∀ o, m'.2.options = some o → w'.books.running t = some (.op (.connect o)))
    (hhand : ∀ o h todo, m'.2 = .entering o h todo → m'.1.inHand = some h ∧ Half w'.books o h todo)
    (hothers : (ms t).1.uses = true ∨
      w'.books.opened = w.books.opened ∧ w'.books.accepted = w.books.accepted)
    (hready : ∀ h ∈ conns w'.sh, Complete w'.books h ∨ (∃ o todo, m'.2 = .entering o h todo) ∨
      ∃ u o todo, u ≠ t ∧ (ms u).2 = .entering o h todo)
    (hfresh : ∀ h, w'.sh.next ≤ h → w'.books.accepted h = []) : Entered k w' (Function.update ms t m') := by
  obtain ⟨ct, hi⟩ := hE.inv
  refine ⟨by rw [Function.comp_update]; exact hinv, fun u o ho => ?_, fun u o h todo hm => ?_, fun h hh => ?_, hfresh⟩
  · by_cases hut : u = t
    · subst hut
      rw [Function.update_self] at ho
      exact hruns o ho
    · rw [Function.update_of_ne hut] at ho
      rw [hrunning u hut]
      exact hE.runs u o ho
  · by_cases hut : u = t
    · subst hut
      rw [Function.update_self] at hm ⊢
      exact hhand o h todo hm
    · rw [Function.update_of_ne hut] at hm ⊢
      rcases hothers with ht | ⟨ho, ha⟩
      · exact absurd (hi.alone (t := t) ht (.inl (hE.entering_uses hm))) hut
      · obtain ⟨hin, hhalf⟩ := hE.hand u o h todo hm
        refine ⟨hin, ?_⟩
        rw [Half, ho, ha]
        exact hhalf
  · rcases hready h hh with hr | ⟨o, todo, hm⟩ | ⟨u, o, todo, hut, hm⟩
    · exact .inl hr
    · exact .inr ⟨t, o, todo, by rw [Function.update_self, hm]⟩
    · exact .inr ⟨u, o, todo, by rw [Function.update_of_ne hut, hm]⟩

/-- A step that tells the ledger nothing. -/
theorem quiet {e : Eff} {c : Oracle} {x : e.Ret} {sh' : Shared T} {m₁ : Mode} {m₂ : Entry}
    (hp : perform w.sh t e c = some (sh', x)) (he : ∀ h c, e ≠ .recv h c) (hc : ∀ host port, e ≠ .connect host port)
    (hm₁ : (ms t).1.next k.variant e x = .go m₁) (hm₂ : (ms t).2.next e x = .go m₂) :
    Entered k { w with sh := sh' } (Function.update ms t (m₁, m₂)) := by
  obtain ⟨ct, hi⟩ := hE.inv
  have hne : (ms t).1.next k.variant e x ≠ .stop := by rw [hm₁]; simp
  obtain ⟨hsub, hnext, -⟩ := perform_conns hp fun h hput => by
    subst hput
    have hone := (hi.conns (t := t) rfl hne).2
    rw [← conns_bare (k := k), hone]
    exact List.mem_singleton_self h
  refine hE.update (inv_go hE.inv hp hm₁) (fun _ _ => rfl) (fun o ho => ?_) (fun o h todo hm => ?_) (.inr ⟨rfl, rfl⟩)
    (fun h hh => ?_) fun h hh => hE.fresh h (Nat.le_trans hnext hh)
  · rcases Entry.next_options hm₂ with hnone | hsame
    · rw [hnone] at ho
      cases ho
    · exact hE.runs t o (hsame ▸ ho)
  · have hm : m₂ = .entering o h todo := hm
    rw [hm] at hm₂
    have hfrom := Entry.next_to hm₂ he hc
    obtain ⟨hin, hhalf⟩ := hE.hand t o h todo hfrom
    rw [hfrom] at hm₂
    obtain ⟨-, hput, hclose⟩ | ⟨-, -, hout⟩ | ⟨-, hdial⟩ := Entry.next_entering hm₂ he
    · exact ⟨next_inHand hin hm₁ hput hclose, hhalf⟩
    · cases hout
    · cases hdial
  · have hmem : h ∈ conns w.sh := by
      rcases hsub h hh with hh | ⟨-, host, port, hcon⟩
      · exact hh
      · exact absurd hcon (hc host port)
    rcases hE.ready h hmem with hr | ⟨u, o, todo, hm⟩
    · exact .inl hr
    · by_cases hut : u = t
      · subst hut
        rw [hm] at hm₂
        obtain ⟨hin, ho, ha⟩ := hE.hand u o h todo hm
        obtain ⟨rfl, -, -⟩ | ⟨-, rfl, -⟩ | ⟨rfl, -⟩ := Entry.next_entering hm₂ he
        · exact .inr (.inl ⟨o, todo, rfl⟩)
        · rw [List.append_nil] at ha
          exact .inl ⟨o, ho, ha ▸ List.prefix_refl _⟩
        · -- the connection is closed
          obtain ⟨lk, ok, hmode⟩ | ⟨c, hmode⟩ := inHand_cases hin
          · have hnil := hi.closed (t := u) hmode hne (perform_bare hp)
            rw [conns_bare] at hnil
            rw [hnil] at hh
            cases hh
          · rw [hmode] at hm₁
            cases hm₁
      · exact .inr (.inr ⟨u, o, todo, hut, hm⟩)

/-- A connection is opened, or not. -/
theorem dials {host : Str} {port : Nat} {c : Oracle} {x : FtpResult Conn} {sh' : Shared T} {m₁ : Mode} {m₂ : Entry}
    (hp : perform w.sh t (.connect host port) c = some (sh', x))
    (hm₁ : (ms t).1.next k.variant (.connect host port) x = .go m₁)
    (hm₂ : (ms t).2.next (.connect host port) x = .go m₂) :
    Entered k ⟨sh', (ledger T).saw w.books t (.connect host port) x⟩ (Function.update ms t (m₁, m₂)) := by
  obtain ⟨ct, hi⟩ := hE.inv
  have hne : (ms t).1.next k.variant (.connect host port) x ≠ .stop := by rw [hm₁]; simp
  obtain ⟨huses, hnil⟩ := hi.opens (t := t) hne
  rw [conns_bare] at hnil
  obtain ⟨hsub, hnext, -⟩ := perform_conns hp fun h hput => by cases hput
  obtain ⟨o, hmode⟩ : ∃ o, (ms t).2 = .dialing o := by
    cases hm : (ms t).2 with
    | dialing o => exact ⟨o, rfl⟩
    | out | entering => rw [hm] at hm₂; cases hm₂
  have hrun := hE.runs t o (by rw [hmode]; rfl)
  rw [hmode] at hm₂
  have hinv := inv_go hE.inv hp hm₁
  simp only [Entry.next, Entry.onConnect] at hm₂
  split at hm₂
  · cases x with
    | error e =>
      cases hm₂
      have hsame : sh' = w.sh := by
        simp only [perform] at hp
        split at hp <;> cases hp
        rfl
      subst hsame
      refine hE.update hinv (fun _ _ => rfl) (fun o' ho => ?_) (fun o' h todo hm => ?_) (.inl huses)
        (fun h hh => ?_) hE.fresh
      · cases ho
        exact hrun
      · cases hm
      · rw [hnil] at hh
        cases hh
    | ok h =>
      cases hm₂
      have hnew : h = w.sh.next := by
        simp only [perform] at hp
        split at hp <;> cases hp
        rfl
      have hnone : w.books.accepted h = [] := hE.fresh h (Nat.le_of_eq hnew.symm)
      refine hE.update hinv (fun _ _ => rfl) (fun o' ho => ?_) (fun o' h' todo hm => ?_) (.inl huses) (fun h' hh => ?_)
        fun h' hh => hE.fresh h' (Nat.le_trans hnext hh)
      · cases ho
        exact hrun
      · cases hm
        refine ⟨connect_inHand hi.not_gone hm₁, ?_, ?_⟩
        · show Function.update _ _ _ _ = _
          rw [Function.update_self, hrun]
          rfl
        · show w.books.accepted h ++ _ = _
          rw [hnone, List.nil_append]
      · rcases hsub h' hh with hh | ⟨he, -⟩
        · rw [hnil] at hh
          cases hh
        · exact .inr (.inl ⟨o, _, by rw [he, hnew]⟩)
  · cases hm₂

/-- A reply. -/
theorem reply {c : Command} {o : Oracle} {x : FtpResult Response} {sh' : Shared T} {m₁ : Mode} {m₂ : Entry}
    (hp : perform w.sh t (.recv h c) o = some (sh', x)) (hm₁ : (ms t).1.next k.variant (.recv h c) x = .go m₁)
    (hm₂ : (ms t).2.next (.recv h c) x = .go m₂) :
    Entered k ⟨sh', (ledger T).saw w.books t (.recv h c) x⟩ (Function.update ms t (m₁, m₂)) := by
  obtain ⟨ct, hi⟩ := hE.inv
  have hne : (ms t).1.next k.variant (.recv h c) x ≠ .stop := by rw [hm₁]; simp
  obtain ⟨huses, hone, hone', hnew⟩ := reply_conns (t := t) hi hp hne
  have hfresh : ∀ h', sh'.next ≤ h' → ((ledger T).saw w.books t (.recv h c) x).accepted h' = [] := fun h' hh => by
    obtain ⟨hne', hold⟩ := hnew h' hh
    rw [saw_accepted_ne hne']
    exact hE.fresh h' hold
  have hopened : ((ledger T).saw w.books t (.recv h c) x).opened = w.books.opened := by cases x <;> rfl
  have hrunning : ((ledger T).saw w.books t (.recv h c) x).running = w.books.running := by cases x <;> rfl
  refine hE.update (inv_go hE.inv hp hm₁) (fun u _ => congrFun hrunning u) (fun o ho => ?_) (fun o h' todo hm => ?_)
    (.inl huses) (fun h' hh => ?_) hfresh
  · rw [hrunning]
    rcases Entry.next_options hm₂ with hnone | hsame
    · rw [hnone] at ho
      cases ho
    · exact hE.runs t o (hsame ▸ ho)
  · have hm : m₂ = .entering o h' todo := hm
    obtain ⟨-, rfl, -⟩ | ⟨o', todo', hfrom, rfl⟩ := Entry.next_recv hm₂
    · cases hm
    · cases hm
      obtain ⟨hin, ho, ha⟩ := hE.hand t o h _ hfrom
      refine ⟨next_inHand hin hm₁ (by simp) (by simp), by rw [hopened, ho], ?_⟩
      cases x with
      | error e => exact ha
      | ok a =>
        show Function.update w.books.accepted h (w.books.accepted h ++ [c]) h ++ _ = _
        rw [Function.update_self, List.append_assoc]
        exact ha
  · obtain rfl := hone' h' hh
    obtain ⟨hout, -, -⟩ | ⟨o, todo, -, rfl⟩ := Entry.next_recv hm₂
    · rcases hE.ready h' (by rw [hone]; exact List.mem_singleton_self h') with ⟨o, ho, ha⟩ | ⟨u, o, todo, hm⟩
      · refine .inl ⟨o, by rw [hopened, ho], ha.trans ?_⟩
        exact saw_accepted_prefix
      · obtain rfl := hi.alone (t := t) huses (.inl (hE.entering_uses hm))
        rw [hout] at hm
        cases hm
    · exact .inr (.inl ⟨o, _, rfl⟩)

end Entered

/-! ## Every interleaving -/

/-- Both protocols at once. -/
abbrev entering (k : Kind) : Typestate ftp := (protocol k.variant).prod entry

def Landed (o : Out) (m : Mode × Entry) : Prop := Done o m.1 ∧ m.2.Ended

namespace Entered

variable (hE : Entered k w ms)
include hE

/-- A step of either client. -/
theorem step {e : Eff} {o : Oracle} {x : e.Ret} {sh' : Shared T} (hp : perform w.sh t e o = some (sh', x))
    (hn : (entering k).next (ms t) e x ≠ .stop) : ∃ m', (entering k).next (ms t) e x = .go m' ∧
      Entered k ⟨sh', (ledger T).saw w.books t e x⟩ (Function.update ms t m') := by
  obtain ⟨h₁, h₂⟩ := Next.both_ne_stop.mp hn
  obtain ⟨m₁, hm₁, -⟩ := inv_step (t := t) hE.inv hp h₁
  obtain ⟨m₂, hm₂⟩ := Entry.next_go h₂
  have hm₁ : (ms t).1.next k.variant e x = .go m₁ := hm₁
  refine ⟨(m₁, m₂), ?_, ?_⟩
  · show ((ms t).1.next k.variant e x).both ((ms t).2.next e x) = _
    rw [hm₁, hm₂]
    rfl
  · cases e with
    | connect host port => exact hE.dials hp hm₁ hm₂
    | recv h c => exact hE.reply hp hm₁ hm₂
    | _ => exact hE.quiet hp (by simp) (by simp) hm₁ hm₂

/-- `t` starts or ends an operation. -/
theorem turns {sh' : Shared T} {l : Option Launch} {m₁ : Mode} {m₂ : Entry}
    (hinv : ∃ ct, Inv k.variant (k.bare sh') (Function.update (Prod.fst ∘ ms) t m₁) ct)
    (hc : conns sh' = conns w.sh) (hnext : sh'.next = w.sh.next) (hm : (ms t).2.Ended) (hm₂ : m₂.Ended)
    (hruns : ∀ o, m₂.options = some o → l = some (.op (.connect o))) :
    Entered k ⟨sh', { w.books with running := Function.update w.books.running t l }⟩
      (Function.update ms t (m₁, m₂)) := by
  refine hE.update hinv (fun u hu => Function.update_of_ne hu ..) (fun o ho => ?_)
    (fun o h todo he => absurd he (hm₂ o h todo)) (.inr ⟨rfl, rfl⟩) (fun h hh => ?_) fun h hh => hE.fresh h (hnext ▸ hh)
  · exact (Function.update_self ..).trans (hruns o ho)
  · have hh : h ∈ conns w.sh := hc ▸ hh
    rcases hE.ready h hh with hr | ⟨u, o, todo, he⟩
    · exact .inl hr
    · refine .inr (.inr ⟨u, o, todo, fun hut => ?_, he⟩)
      rw [hut] at he
      exact hm o h todo he

end Entered

/-- A dropped future. -/
theorem Entered.cut (hE : Entered .tokio w ms) (hn : (entering .tokio).cut (ms t) ≠ .stop) :
    ∃ m', (entering .tokio).cut (ms t) = .go m' ∧
      Entered .tokio { w with sh := L5.cut w.sh t } (Function.update ms t m') := by
  obtain ⟨ct, hi⟩ := hE.inv
  obtain ⟨m₁, hm₁, ct', hi'⟩ := hi.cut (t := t) (Next.both_ne_stop.mp hn).1
  have hm₁ : (ms t).1.cut .cancel = .go m₁ := hm₁
  have hsh : conns (L5.cut w.sh t) = conns w.sh ∧ (L5.cut w.sh t).next = w.sh.next := by
    unfold L5.cut
    split
    · split <;> exact ⟨rfl, rfl⟩
    · exact ⟨rfl, rfl⟩
  refine ⟨(m₁, (ms t).2), ?_, hE.update ⟨ct', ?_⟩ (fun _ _ => rfl) (hE.runs t) (fun o h todo hm => ?_) (.inr ⟨rfl, rfl⟩)
    (fun h hh => ?_) fun h hh => hE.fresh h (hsh.2 ▸ hh)⟩
  · show ((ms t).1.cut .cancel).both (.go (ms t).2) = _
    rw [hm₁]
    rfl
  · show Inv .cancel (uncut (L5.cut w.sh t)) _ _
    rw [← uncut_cut]
    exact inv_uncut hi'
  · obtain ⟨hin, hhalf⟩ := hE.hand t o h todo hm
    exact ⟨cut_inHand hin hm₁, hhalf⟩
  · have hh : h ∈ conns w.sh := hsh.1 ▸ hh
    rcases hE.ready h hh with hr | ⟨u, o, todo, hm⟩
    · exact .inl hr
    · by_cases hut : u = t
      · exact .inr (.inl ⟨o, todo, hut ▸ hm⟩)
      · exact .inr (.inr ⟨u, o, todo, hut, hm⟩)

theorem keeps_entered (X : Ext) (k : Kind) : Keeps ((system T (k.impl X)).observed (ledger T)) (entering k)
    (.idle, .out) Landed (Entered k) (fun s => k.Permits (s.forget Noted.sh)) fun m => Done .done m.1 ∧ m.2.Ended where
  launch s t l w' p ms _ hE hm hl := by
    obtain ⟨⟨sh', p'⟩, hl, he⟩ := Option.map_eq_some_iff.mp hl
    cases he
    obtain ⟨hc, hnext, -⟩ := launch_conns hl
    obtain ⟨ct, hi⟩ := hE.inv
    have hidle : (ms t).1 = .idle := by rw [hm]
    have hout : (ms t).2.Ended := by
      rw [hm]
      exact ended_out
    cases l with
    | op op =>
      obtain ⟨rfl, hi'⟩ := hi.launchOp (t := t) hidle (launch_bare hl)
      refine ⟨_, ((k.keeping X).run op).prod_partly (k.run_enters X op), hE.turns hi' hc hnext hout ?_ fun o ho => ?_⟩
      · cases op with
        | connect o => exact ended_dialing o
        | _ => exact ended_out
      · cases op with
        | connect o => cases ho; rfl
        | _ => cases ho
    | stream i op =>
      obtain ⟨s, h, hs, hp, hi'⟩ := hi.launchStream (t := t) hidle (launch_bare hl)
      exact ⟨_, ((k.keeping X).runStream s _ op _ hs hp).prod_partly (k.stream_enters X hp),
        hE.turns hi' hc hnext hout ended_out fun o ho => nomatch ho⟩
  step s t c e w' x ms _ hat hE _ hp hn := by
    obtain ⟨⟨sh', x'⟩, hp', he⟩ := Option.map_eq_some_iff.mp hp
    cases he
    exact hE.step hp' hn
  retire w t o ms hE hd := by
    exact hE.turns (inv_retire hE.inv hd.1) rfl rfl hd.2 ended_out fun o ho => nomatch ho
  drop s t ms hok hE hn := by
    cases k with
    | blocking => exact hok.elim
    | tokio => exact hE.cut hn
  dropped _ h := h

theorem reachable_entered (X : Ext) (k : Kind) {s : Audit T} (hr : (auditedRuns (k.impl X) k.Permits).Reachable s) :
    ∃ ms, Entered k s.sh ms ∧
      Typed (entering k) (.idle, .out) Landed (fun m => Done .done m.1 ∧ m.2.Ended) s.th ms := by
  refine (Threads.inductive_of_typestate (keeps_entered X k) fun s hs => ?_).reachable s hr
  obtain ⟨hsh, hth⟩ := hs
  refine ⟨fun _ => (.idle, .out), ?_, fun t => by rw [hth t]⟩
  rw [hsh]
  refine ⟨⟨.nobody, ?_⟩, fun _ _ h => (nomatch h), fun _ _ _ _ h => (nomatch h), fun _ h => (nomatch h), fun _ _ => rfl⟩
  cases k with
  | blocking => exact start_inv none false
  | tokio => exact inv_uncut (start_inv none false)

/-! ## What is sent, and where -/

theorem setup_isSetup {o : Options} {c : Command} (hc : c ∈ setupCommands o) : Entry.isSetup c = true := by
  have hmem : c = .intoSecure ∨ c = .login o.username (o.password.getD []) ∨ c = .transferTypeBinary := by
    unfold setupCommands at hc
    split at hc
    · simpa using hc
    · exact .inr (by simpa using hc)
  rcases hmem with rfl | rfl | rfl <;> rfl

/-- What may be sent on which connection. -/
structure Orderly (s : Audit T) : Prop where
  /-- A connection is opened by `connect`, to the host of its options... -/
  dials : ∀ t host port, s.At t (.connect host port) →
    ∃ o, s.sh.books.running t = some (.op (.connect o)) ∧ host = o.hostname ∧ port = o.port
  /-- ... which sends on it what sets it up, each command once all before it were
  accepted. -/
  setup : ∀ t h c, s.At t (.send h c) → Entry.isSetup c = true →
    ∃ o, s.sh.books.running t = some (.op (.connect o)) ∧ s.sh.books.opened h = some o ∧
      s.sh.books.accepted h ++ [c] <+: setupCommands o
  /-- Everything else is sent on a connection that is set up, as is the one in
  the slot. -/
  use : ∀ t h c, s.At t (.send h c) → Entry.isSetup c = false → Complete s.sh.books h
  slot : ∀ h, s.sh.sh.slot = some h → Complete s.sh.books h

omit [DecidableEq T] in
/-- A password is sent on a connection that was asked to be secure after TLS only. -/
theorem Orderly.secured {s : Audit T} (hs : Orderly s) {username password : Str}
    (ha : s.At t (.send h (.login username password))) :
    ∃ o, s.sh.books.opened h = some o ∧ (o.secure = true → .intoSecure ∈ s.sh.books.accepted h) := by
  obtain ⟨o, -, ho, hpre⟩ := hs.setup t h _ ha rfl
  refine ⟨o, ho, fun hsec => ?_⟩
  rw [setupCommands, if_pos hsec] at hpre
  cases hacc : s.sh.books.accepted h with
  | nil =>
    rw [hacc] at hpre
    simp at hpre
  | cons c rest =>
    rw [hacc] at hpre
    obtain rfl : c = .intoSecure := by simpa using (List.cons_prefix_cons.mp hpre).1
    exact List.mem_cons_self

/-- **Set up before use**, in every interleaving of either client, whatever the
server answers and, for the Tokio client, wherever futures are dropped. -/
theorem set_up_before_use (X : Ext) (k : Kind) {s : Audit T} (hr : (auditedRuns (k.impl X) k.Permits).Reachable s) :
    Orderly s := by
  obtain ⟨ms, hE, hT⟩ := reachable_entered X k hr
  obtain ⟨ct, hi⟩ := hE.inv
  refine ⟨fun t host port ha => ?_, fun t h c ha hc => ?_, fun t h c ha hc => ?_, fun h hs => ?_⟩
  · have hn := (Next.both_ne_stop.mp (Threads.typed_at hT ha (.error .badResponse))).2
    cases hm : (ms t).2 with
    | dialing o =>
      refine ⟨o, hE.runs t o (by rw [hm]; rfl), ?_⟩
      rw [hm] at hn
      by_contra hne
      exact hn (if_neg hne)
    | out | entering => rw [hm] at hn; exact absurd rfl hn
  · have hn := (Next.both_ne_stop.mp (Threads.typed_at hT ha ())).2
    cases hm : (ms t).2 with
    | out => rw [hm] at hn; exact absurd (if_pos hc) hn
    | dialing o => rw [hm] at hn; exact absurd rfl hn
    | entering o h' todo =>
      rw [hm] at hn
      obtain ⟨rfl, rest, rfl⟩ := Entry.next_send hn
      obtain ⟨-, ho, hacc⟩ := hE.hand t o h _ hm
      exact ⟨o, hE.runs t o (by rw [hm]; rfl), ho, rest, by rw [← hacc, List.append_assoc]; rfl⟩
  · obtain ⟨hn₁, hn⟩ := Next.both_ne_stop.mp (Threads.typed_at hT ha ())
    obtain ⟨huses, hone⟩ := hi.conns (t := t) (e := .send h c) (r := ()) rfl hn₁
    rw [conns_bare] at hone
    rcases hE.ready h (by rw [hone]; exact List.mem_singleton_self h) with hr | ⟨u, o, todo, hm⟩
    · exact hr
    · -- `connect` itself sends nothing else
      obtain rfl := hi.alone (t := t) huses (.inl (hE.entering_uses hm))
      rw [hm] at hn
      obtain ⟨-, rest, rfl⟩ := Entry.next_send hn
      obtain ⟨-, -, hacc⟩ := hE.hand u o h _ hm
      have hmem : c ∈ setupCommands o := by
        rw [← hacc]
        simp
      rw [setup_isSetup hmem] at hc
      cases hc
  · rcases hE.ready h (by simp [conns, hs]) with hr | ⟨u, o, todo, hm⟩
    · exact hr
    · -- while it is set up, it is no place else
      obtain ⟨hin, -⟩ := hE.hand u o h todo hm
      have hspot := (hi.holds u (hi.user (hE.entering_uses hm))).spot
      have hnone : (k.bare s.sh.sh).slot = none := by
        obtain ⟨lk, ok, hmode⟩ | ⟨c, hmode⟩ := inHand_cases hin
        · rw [Function.comp_apply, hmode] at hspot
          exact hspot.1
        · rw [Function.comp_apply, hmode] at hspot
          exact hspot.1
      have hslot : (k.bare s.sh.sh).slot = s.sh.sh.slot := by cases k <;> rfl
      rw [← hslot, hnone] at hs
      cases hs

def secureHost : Options := { someHost with secure := true, password := some "secret".toList }

/-- A Tokio client is connected with TLS, and then runs a command. -/
def securedRun (n : Nat) : List (Label Bool) :=
  [.launch false (.op (.connect secureHost))] ++ steps false n {} ++
    [.retire false, .launch true (.op (.exec "NOOP".toList))] ++ steps true 5 {}

def auditPlay (I : Impl) (ls : List (Label Bool)) : Option (Audit Bool) :=
  LTS.exec ((system Bool I).observed (ledger Bool)).next (fun _ _ => true) ⟨⟨.start none, {}⟩, fun _ => none⟩ ls

theorem reachable_of_auditPlay {I : Impl} {ls : List (Label Bool)} {s : Audit Bool} (h : auditPlay I ls = some s) :
    (auditedRuns I fun _ _ => True).Reachable s := by
  have hstep : ∀ s l s', (fun _ _ => true) s l = true → ((system Bool I).observed (ledger Bool)).next s l = some s' →
      (auditedRuns I fun _ _ => True).step s l s' := fun s l _ _ hs => ⟨hs, trivial⟩
  exact ⟨_, ls, ⟨rfl, fun _ => rfl⟩, LTS.run_of_exec hstep h⟩

theorem set_up_before_use_secured : ∃ s, auditPlay (tokioImpl plainExt) (securedRun 17) = some s ∧ Orderly s ∧
    s.At true (.send 0 (.site "NOOP".toList)) ∧ s.sh.books.accepted 0 = setupCommands secureHost := by
  obtain ⟨s, hs⟩ := Option.isSome_iff_exists.mp
    (show (auditPlay (tokioImpl plainExt) (securedRun 17)).isSome = true by decide +kernel)
  refine ⟨s, hs, set_up_before_use plainExt .tokio (reachable_of_auditPlay hs), ?_⟩
  cases hs
  exact ⟨⟨_, _, rfl⟩, rfl⟩

end RemotefsFtp.L5
