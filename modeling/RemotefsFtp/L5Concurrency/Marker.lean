import RemotefsFtp.Core.Ghost
import RemotefsFtp.L5Concurrency.Progress
import RemotefsFtp.L5Concurrency.Restart

/-!
# The restart marker of the server (`src/client/sync.rs:988-1061`, `src/client/tokio.rs:943-1044`)

An accepted `REST n` sets the marker of a control connection to `n`, a transfer
that starts resets it. It outlives failed commands and operations, and shifts
whatever transfer comes next. The client is watched here together with the
markers of its connections.

Results:
* **`watched_of_reachable`**: to watch the client changes nothing about it.
* **`restart_isolated`**, **`tokio_restart_isolated`**: in every interleaving, a
  transfer starts with the marker at 0, but for the `RETR` of an `open` right
  after its own `REST`.
-/
namespace RemotefsFtp.L5

open L1 (Str Path)
open L2 L3
open Core (LTS Threads Typestate Next)
open Core.Threads (State Lbl Typed Keeps)
open Mode (Done isErr)

/-! ## Watching -/

/-- The marker after the reply `r` to `c`. `resume_transfer` is taken for an
immediate `REST` exchange (`FtpFs.requestOffset`). -/
def answered (c : Command) (r : FtpResult Response) (marker : Nat) : Nat :=
  match c, r with
  | .resumeTransfer n, .ok _ => n
  | .retrAsStream _, .ok _ | .putWithStream _, .ok _ | .appendWithStream _, .ok _ => 0
  | _, _ => marker

/-- A client, its server and its callers. -/
structure Watched (T : Type) where
  sh : Shared T
  /-- The restart marker of each control connection. -/
  marker : Conn → Nat := fun _ => 0
  /-- The last reply on it, if the operation that got it still runs. -/
  heard : Conn → Option (T × Command × FtpResult Response) := fun _ => none
  /-- What each thread runs. -/
  running : T → Option Launch := fun _ => none

variable {T : Type}

section
variable [DecidableEq T]

namespace Watched

/-- After a step of `t`. -/
def saw (w : Watched T) (t : T) (sh : Shared T) : (e : Eff) → e.Ret → Watched T
  | .recv h c, r =>
    { w with
      sh := sh
      marker := Function.update w.marker h (answered c r (w.marker h))
      heard := Function.update w.heard h (some (t, c, r)) }
  | _, _ => { w with sh := sh }

/-- `t` starts or ends an operation. -/
def starts (w : Watched T) (t : T) (sh : Shared T) (l : Option Launch) : Watched T :=
  { w with
    sh := sh
    heard := fun h => (w.heard h).filter fun reply => reply.1 ≠ t
    running := Function.update w.running t l }

end Watched

/-- A client and its callers, watched. -/
def watched (T : Type) [DecidableEq T] (I : Impl) : Threads ftp (Watched T) T Oracle Launch Out where
  perform w t e o := (perform w.sh t e o).map fun (sh, r) => (w.saw t sh e r, r)
  launch w t l := (launch I w.sh t l).map fun (sh, p) => (w.starts t sh (some l), p)
  retire w t o := w.starts t (retire w.sh t o) none
  cut w t := { w with sh := cut w.sh t }
  dropped := .done

abbrev Watch (T : Type) := State ftp (Watched T) T Out

/-- The client that is watched. -/
def behind (s : Watch T) : Config T := ⟨s.sh.sh, s.th⟩

/-- The interleavings of `runs`, watched from the start. -/
abbrev watchedRuns (I : Impl) (slot : Option Conn) (ok : Config T → Label T → Prop) : LTS (Watch T) (Label T) :=
  (watched T I).lts (fun s => (∃ builder, s.sh = { sh := (Shared.start slot).withBuilder builder }) ∧ ∀ t, s.th t = none)
    fun s => ok (behind s)

variable {I : Impl}

theorem watched_shadows : Threads.Shadows Watched.sh (watched T I) (system T I) where
  perform w t e o := by
    have hsaw : ∀ x : Shared T × e.Ret, ((w.saw t x.1 e x.2).sh, x.2) = x := fun x => by cases e <;> rfl
    simp [watched, system, Option.map_map, Function.comp_def, hsaw]
  launch w t l := by simp [watched, system, Watched.starts, Option.map_map, Function.comp_def]
  retire _ _ _ := rfl
  cut _ _ := rfl
  dropped := rfl

/-- Every state a client reaches, it reaches watched. -/
theorem watched_of_reachable {slot : Option Conn} {ok : Config T → Label T → Prop} {c : Config T}
    (hr : (runs I slot ok).Reachable c) : ∃ s, (watchedRuns I slot ok).Reachable s ∧ behind s = c := by
  refine watched_shadows.reachable (fun c hc => ?_) (fun _ _ h => h) hr
  obtain ⟨builder, hsh⟩ := hc.1
  refine ⟨⟨{ sh := c.sh }, c.th⟩, ⟨⟨builder, ?_⟩, hc.2⟩, rfl⟩
  rw [hsh]

end

/-! ## What a mode can lead to -/

variable {k : Kind} {v : Variant} {sh sh' : Shared T} {t : T} {h : Conn}

/-- A command may follow without another look at `connection_usable`. -/
@[simp] def Mode.hot : Mode → Bool
  | .chk2 | .sec _ _ _ | .busy _ _ _ | .bld _ _ _ | .taken _ | .takenA _ | .exNew _ => true
  | .uh _ _ ok => ok
  | .uq _ us => us = some true
  | _ => false

/-- A connection that failed, and is about to be closed. -/
@[simp] def Mode.failed : Mode → Bool
  | .uh _ _ ok => !ok
  | _ => false

/-- What holds of the mode a step leads to. -/
def Leads (n : Next Mode) (P : Mode → Prop) : Prop := ∀ m, n = .go m → P m

@[simp] theorem leads_stop {P : Mode → Prop} : Leads .stop P := fun _ h => nomatch h
@[simp] theorem leads_never {P : Mode → Prop} : Leads .never P := fun _ h => nomatch h

@[simp] theorem leads_go {m : Mode} {P : Mode → Prop} : Leads (.go m) P ↔ P m :=
  ⟨fun h => h m rfl, fun h _ e => by cases e; exact h⟩

open Mode in
/-- A mode becomes hot by a look at the flag, or with a new connection. -/
theorem next_hot {m : Mode} {e : Eff} (r : e.Ret) (hu : e ≠ .loadUsable) (hc : ∀ host port, e ≠ .connect host port) :
    Leads (m.next v e r) fun m' => m'.hot = true → m.hot = true := by
  unfold Mode.next
  split
  · exact leads_go.mpr fun h => nomatch h
  cases e <;> dsimp only
  case loadUsable => exact absurd rfl hu
  case connect host port => exact absurd rfl (hc host port)
  all_goals
    clear hu hc
    simp only [onLock, onUnlock, release, onLoadActive, onStoreActive, onStoreUsable,
      onCache, onSlot, onTake, onPut, onClose, onLocal, onSend, onBuilder, onRecv, onExclusiveNew,
      onExclusiveDrop, onGuardNew, onGuardDrop, onUse, onDrain, onReadToEnd, onFinish, onDropTransfer,
      onPoll]
    repeat' split
    all_goals first | exact leads_stop | exact leads_never | simp

theorem failed_eq {m : Mode} (hf : m.failed = true) : ∃ lk h, m = .uh lk h false := by
  cases m with
  | uh lk h ok =>
    cases ok with
    | false => exact ⟨lk, h, rfl⟩
    | true => cases hf
  | _ => cases hf

open Mode in
/-- Only closed, a failed connection is let go of. -/
theorem next_failed {m : Mode} {e : Eff} (r : e.Ret) (hf : m.failed = true) :
    Leads (m.next v e r) fun m' => m'.failed = true ∨ ∃ h, e = .close h := by
  obtain ⟨lk, h, rfl⟩ := failed_eq hf
  cases e with
  | lock | unlock => cases lk <;> simp
  | put h' => simp
  | send h' c => cases lk <;> simp
  | flush h' cleanup => cases cleanup <;> simp
  | close h' => exact fun _ _ => .inr ⟨h', rfl⟩
  | _ => simp

open Mode in
/-- A call on the control stream is one of its user. -/
theorem next_wire {m : Mode} {e : Eff} (r : e.Ret) (hg : m ≠ gone) :
    Leads (m.next v e r) fun m' =>
      ((∃ h c, e = .send h c) ∨ (∃ h, e = .builder h) ∨ ∃ h c, e = .recv h c) → m'.uses = true := by
  unfold Mode.next
  rw [if_neg hg]
  cases e <;> dsimp only
  case send | builder | recv =>
    simp only [onSend, onBuilder, onRecv]
    repeat' split
    all_goals simp_all [Mode.uses]
  all_goals exact fun _ _ h => by simp at h

open Mode in
theorem next_marked {m : Mode} {b : Bool} (hu : m.uses = true) :
    Leads (m.next v (.storeUsable b) ()) fun m' => m'.uses = true := by
  unfold Mode.next
  split
  · rename_i hg
    rw [hg] at hu
    cases hu
  simp only [onStoreUsable]
  repeat' split
  all_goals simp_all [Mode.uses]

namespace Stage

/-- A marker may be set by this operation. -/
@[simp] def holds : Stage → Bool
  | armed _ | fetching | refused | resetting | stuck => true
  | _ => false

/-- It is not, and the operation may go on. -/
@[simp] def calm : Stage → Bool
  | clear | asking _ => true
  | _ => false

/-- Where a step leads that is not a reply. -/
theorem next_cases {o : Option Nat} {m m' : Stage} {e : Eff} {r : e.Ret} (hn : m.next o e r = .go m')
    (he : ∀ h c, e ≠ .recv h c) :
    (m'.calm = true → m.calm = true) ∧ (∀ n, m' ≠ .armed n ∨ m = .armed n) ∧
      (m.holds = true → m'.holds = true ∨ e = .storeUsable false) ∧
      (m'.holds = true → m.holds = true ∧
        ((∃ h c, e = .send h c) ∨ (∃ h, e = .builder h) ∨ ∃ b, e = .storeUsable b)) := by
  by_cases hg : m = gone
  · subst hg
    obtain rfl : gone = m' := by simpa using hn
    simp
  cases e with
  | send h c =>
    simp only [next, if_neg hg, onSend] at hn
    split at hn
    · split at hn <;> cases hn; simp
    all_goals first | cases hn; done | (cases hn; simp)
  | recv h c => exact absurd rfl (he h c)
  | storeUsable b =>
    simp only [next, if_neg hg, onStoreUsable] at hn
    split at hn <;> cases hn <;> simp
  | builder h =>
    simp only [next, if_neg hg, onBuilder] at hn
    split at hn <;> cases hn <;> simp
  | unlock =>
    simp only [next, if_neg hg, onUnlock] at hn
    split at hn <;> cases hn <;> simp
  | _ =>
    simp only [next, if_neg hg] at hn
    split at hn
    · rename_i hc
      cases hn
      subst hc
      simp
    · cases hn

/-- Where a reply leads. -/
theorem next_recv {o : Option Nat} {m m' : Stage} {h : Conn} {c : Command} {r : FtpResult Response}
    (hn : m.next o (.recv h c) r = .go m') (hg : m ≠ gone) :
    (m = clear ∧ m' = clear ∧ ∀ n, c ≠ .resumeTransfer n) ∨
      (∃ n, m = asking n ∧ c = .resumeTransfer n ∧ m' = if isErr r then clear else armed n) ∨
      (∃ remote, m = fetching ∧ c = .retrAsStream remote ∧ m' = if isErr r then refused else clear) ∨
      m = resetting ∧ c = .resumeTransfer 0 ∧ m' = if isErr r then stuck else clear := by
  simp only [next, if_neg hg, onRecv] at hn
  split at hn
  · split at hn
    · rename_i hnm
      subst hnm
      split at hn <;> rename_i hr <;> cases hn <;> simp [hr]
    · cases hn
  · split at hn <;> rename_i hr <;> cases hn <;> simp [hr]
  · split at hn <;> rename_i hr <;> cases hn <;> simp [hr]
  · cases hn
  · rename_i hno _
    cases hn
    exact .inl ⟨rfl, rfl, fun n => by rintro rfl; simp_all⟩
  · cases hn

theorem next_go {o : Option Nat} {m : Stage} {e : Eff} {r : e.Ret} (hn : m.next o e r ≠ .stop) :
    ∃ m', m.next o e r = .go m' := by
  cases hm : m.next o e r with
  | go m' => exact ⟨m', rfl⟩
  | stop => exact absurd hm hn
  | never =>
    exfalso
    revert hm
    unfold next
    split
    · simp
    cases e <;> dsimp only
    case send | recv | storeUsable | builder | unlock =>
      simp only [onSend, onRecv, onStoreUsable, onBuilder, onUnlock]
      repeat' split
      all_goals simp
    all_goals split <;> simp

/-- It asks for the offset it was given. -/
@[simp] def own (o : Option Nat) : Stage → Prop
  | asking n | armed n => o = some n
  | _ => True

theorem next_own {o : Option Nat} {m m' : Stage} {e : Eff} {r : e.Ret} (hn : m.next o e r = .go m')
    (ho : m.own o) (hg : m ≠ gone) : m'.own o ∧ m' ≠ gone := by
  cases e with
  | send h c =>
    simp only [next, if_neg hg, onSend] at hn
    split at hn
    · split at hn <;> cases hn; simpa
    all_goals first | cases hn; done | (cases hn; simp)
  | recv h c =>
    rcases next_recv hn hg with ⟨-, rfl, -⟩ | ⟨n, rfl, -, rfl⟩ | ⟨remote, -, -, rfl⟩ | ⟨-, -, rfl⟩
    · simp
    · split
      · simp
      · exact ⟨ho, by simp⟩
    all_goals split <;> simp
  | storeUsable b =>
    simp only [next, if_neg hg, onStoreUsable] at hn
    split at hn <;> cases hn <;> simp
  | builder h =>
    simp only [next, if_neg hg, onBuilder] at hn
    split at hn <;> cases hn <;> simp
  | unlock =>
    simp only [next, if_neg hg, onUnlock] at hn
    split at hn <;> cases hn <;> simp
  | _ =>
    simp only [next, if_neg hg] at hn
    split at hn <;> cases hn
    simp

end Stage

/-! ## The invariant -/

/-- The protocol each client keeps to... -/
def Kind.variant : Kind → Variant
  | blocking => .strict
  | tokio => .cancel

/-- ... and what of the state it is about. -/
def Kind.bare : Kind → Shared T → Shared T
  | blocking, sh => sh
  | tokio, sh => uncut sh

/-- The control connections of a client. -/
def conns (sh : Shared T) : List Conn := sh.slot.toList ++ sh.held

/-- No marker is set. -/
def Zero (w : Watched T) : Prop := ∀ h ∈ conns w.sh, w.marker h = 0

/-- The last reply on `h` accepted the `REST n` of `t`. -/
def Accepts (w : Watched T) (t : T) (h : Conn) (n : Nat) : Prop :=
  w.marker h = n ∧ ∃ a, w.heard h = some (t, .resumeTransfer n, .ok a)

/-- Who may leave a marker set while the connection counts as usable. -/
def Excused (m : Mode × Restart) : Prop := m.2.stage.holds = true ∨ m.1.failed = true

structure Marked (k : Kind) (w : Watched T) (ms : T → Mode × Restart) : Prop where
  inv : ∃ ct, Inv k.variant (k.bare w.sh) (Prod.fst ∘ ms) ct
  own : ∀ t, (ms t).2.stage.own (ms t).2.offset ∧ (ms t).2.stage ≠ .gone
  asks : ∀ t n, (ms t).2.offset = some n → ∃ path opts, w.running t = some (.op (.open' path opts)) ∧ opts.offset = some n
  uses : ∀ t, (ms t).2.stage.holds = true → (ms t).1.uses = true
  zero : ∀ t, (ms t).2.stage.calm = true → (ms t).1.hot = true → Zero w
  armed : ∀ t n, (ms t).2.stage = .armed n → ∀ h ∈ conns w.sh, Accepts w t h n
  clean : (∀ t, ¬ Excused (ms t)) → w.sh.usable = true → Zero w
  fresh : ∀ h, w.sh.next ≤ h → w.marker h = 0

/-! ## The rules -/

section
variable {ms : T → Mode × Restart} {w w' : Watched T} {m' : Mode × Restart} {r : Restart}

theorem conns_bare (sh : Shared T) : conns (k.bare sh) = conns sh := by cases k <;> rfl

theorem Spot.Ok.conns {p : Spot} (hp : p.Ok sh) (hs : p = .slot h ∨ p = .hand h) : conns sh = [h] := by
  obtain rfl | rfl := hs <;> simp [L5.conns, hp.1, hp.2]

/-- A call is on the control stream. -/
theorem Inv.conns {ct : Token T} {ms : T → Mode} (hi : Inv v sh ms ct) {e : Eff} {r : e.Ret}
    (he : control e = some h) (hn : (ms t).next v e r ≠ .stop) : (ms t).uses = true ∧ conns sh = [h] := by
  obtain ⟨hu, hs⟩ := next_control r he hn hi.not_gone
  exact ⟨hu, (hi.holds t (hi.user hu)).spot.conns hs⟩

/-- Who uses the control stream is alone with it. -/
theorem Inv.alone {ct : Token T} {ms : T → Mode} (hi : Inv v sh ms ct) (ht : (ms t).uses = true) {u : T}
    (hu : (ms u).uses = true ∨ (ms u).hot = true) : u = t := by
  obtain rfl := hi.user ht
  by_cases huses : (ms u).uses = true
  · have := hi.user huses
    cases this
    rfl
  · have hhot := hu.resolve_left huses
    have hk := hi.knows u
    cases hm : ms u with
    | chk2 => rw [hm] at hk; cases hk.1
    | sec | busy | bld | taken | takenA | exNew | uh | uq => rw [hm] at huses; exact absurd rfl huses
    | _ => rw [hm] at hhot; cases hhot

/-- `connect` and `disconnect` without a control stream. -/
theorem Inv.nowhere {ct : Token T} {ms : T → Mode} {lk : Bool} (hi : Inv v sh ms ct) (hm : ms t = .un lk) :
    (ms t).uses = true ∧ L5.conns sh = [] := by
  have hu : (ms t).uses = true := by rw [hm]; rfl
  have hok := (hi.holds t (hi.user hu)).spot
  rw [hm] at hok
  exact ⟨hu, by rw [L5.conns, hok.1, hok.2]; rfl⟩

/-- Where a new control stream is opened. -/
theorem Inv.opens {ct : Token T} {ms : T → Mode} (hi : Inv v sh ms ct) {host : Str} {port : Nat} {x : FtpResult Conn}
    (hn : (ms t).next v (.connect host port) x ≠ .stop) : (ms t).uses = true ∧ L5.conns sh = [] := by
  cases hm : ms t with
  | un lk =>
    rw [← hm]
    exact hi.nowhere hm
  | gone => exact absurd hm hi.not_gone
  | _ => rw [hm] at hn; simp at hn

theorem failed_uses {m : Mode} (hm : m.failed = true) : m.uses = true := by
  cases m <;> first | rfl | cases hm

variable [DecidableEq T]

/-- A control stream that is a local is the last one once it is closed. -/
theorem Inv.closed {ct : Token T} {ms : T → Mode} (hi : Inv v sh ms ct) {lk ok : Bool} {h' : Conn} {o : Oracle}
    (hm : ms t = .uh lk h' ok) (hn : (ms t).next v (.close h) () ≠ .stop)
    (hp : perform sh t (.close h) o = some (sh', ())) : L5.conns sh' = [] := by
  obtain rfl : h = h' := by
    rw [hm] at hn
    by_contra hne
    simp [hne] at hn
  have hok := (hi.holds t (hi.user (t := t) (by rw [hm]; rfl))).spot
  rw [hm] at hok
  cases hp
  show sh.slot.toList ++ sh.held.erase h = []
  rw [hok.1, hok.2]
  simp

/-- What a step can do to where the control stream is. -/
theorem perform_conns {e : Eff} {o : Oracle} {x : e.Ret} (hp : perform sh t e o = some (sh', x))
    (hput : ∀ h, e = .put h → h ∈ conns sh) :
    (∀ h ∈ conns sh', h ∈ conns sh ∨ h = sh.next ∧ ∃ host port, e = .connect host port) ∧ sh.next ≤ sh'.next ∧
      (sh'.usable = true → sh.usable = true ∨ e = .storeUsable true) := by
  have hfail : ∀ {ε α : Type} (sh : Shared T) h (r : Except ε α),
      conns (sh.failing h r) = conns sh ∧ (sh.failing h r).next = sh.next ∧
        (sh.failing h r).usable = sh.usable := by
    intro ε α sh h r
    cases r <;> exact ⟨rfl, rfl, rfl⟩
  have hsame (hc : conns sh' = conns sh) (hn : sh'.next = sh.next) (hu : sh'.usable = sh.usable) :
      (∀ h ∈ conns sh', h ∈ conns sh ∨ h = sh.next ∧ ∃ host port, e = .connect host port) ∧ sh.next ≤ sh'.next ∧
        (sh'.usable = true → sh.usable = true ∨ e = .storeUsable true) := by
    rw [hc, hn, hu]
    exact ⟨fun h hh => .inl hh, Nat.le_refl _, .inl⟩
  cases e with
  | storeUsable b =>
    cases hp
    refine ⟨fun h hh => .inl hh, Nat.le_refl _, fun hu => .inr ?_⟩
    obtain rfl : b = true := hu
    rfl
  | take =>
    cases hp
    exact ⟨fun h hh => .inl hh, Nat.le_refl _, .inl⟩
  | put h =>
    cases hp
    refine ⟨fun h' hh => .inl ?_, Nat.le_refl _, .inl⟩
    rcases List.mem_cons.mp hh with rfl | hh
    · exact hput h' rfl
    · exact List.mem_append_right _ (List.mem_of_mem_erase hh)
  | close h =>
    cases hp
    refine ⟨fun h' hh => .inl ?_, Nat.le_refl _, .inl⟩
    rcases List.mem_append.mp hh with hh | hh
    · exact List.mem_append_left _ hh
    · exact List.mem_append_right _ (List.mem_of_mem_erase hh)
  | connect host port =>
    simp only [perform] at hp
    split at hp
    · cases hp
      refine ⟨fun h hh => ?_, Nat.le_succ _, .inl⟩
      rcases List.mem_append.mp hh with hh | hh
      · exact .inl (List.mem_append_left _ hh)
      · rcases List.mem_cons.mp hh with rfl | hh
        · exact .inr ⟨rfl, host, port, rfl⟩
        · exact .inl (List.mem_append_right _ hh)
    · cases hp
      exact hsame rfl rfl rfl
  | copyAll h | readToEnd h =>
    cases hp
    obtain ⟨hc, hn, hu⟩ := hfail sh h _
    exact hsame hc hn hu
  | finish h =>
    cases hp
    obtain ⟨hc, hn, hu⟩ := hfail (sh.setWire h .idle) h o.finished
    exact hsame hc hn hu
  | flush h cleanup =>
    cases cleanup with
    | false => cases hp; exact hsame rfl rfl rfl
    | true =>
      cases hp
      obtain ⟨hc, hn, hu⟩ := hfail sh h o.flushed
      exact hsame hc hn hu
  | lock | unlock | builder =>
    simp only [perform] at hp
    split at hp <;> cases hp <;> exact hsame rfl rfl rfl
  | _ => cases hp; exact hsame rfl rfl rfl

theorem perform_bare {e : Eff} {o : Oracle} {x : e.Ret} (hp : perform sh t e o = some (sh', x)) :
    perform (k.bare sh) t e o = some (k.bare sh', x) := by
  cases k with
  | blocking => exact hp
  | tokio =>
    show perform (uncut sh) t e o = _
    rw [perform_uncut, hp]
    rfl

/-- The invariant of either client after a step. -/
theorem inv_step {ms : T → Mode} {e : Eff} {o : Oracle} {x : e.Ret}
    (hi : ∃ ct, Inv k.variant (k.bare sh) ms ct) (hp : perform sh t e o = some (sh', x))
    (hn : (ms t).next k.variant e x ≠ .stop) :
    ∃ m', (ms t).next k.variant e x = .go m' ∧ ∃ ct, Inv k.variant (k.bare sh') (Function.update ms t m') ct := by
  obtain ⟨ct, hi⟩ := hi
  refine keeps_step hi (fun _ _ _ h _ hb u h' hw => ?_) (perform_bare hp) hn
  cases k with
  | blocking =>
    have := hi.knows u
    rw [hw] at this
    exact this rfl
  | tokio => cases hb

theorem inv_go {ms : T → Mode} {e : Eff} {o : Oracle} {x : e.Ret} {m : Mode}
    (hi : ∃ ct, Inv k.variant (k.bare sh) ms ct) (hp : perform sh t e o = some (sh', x))
    (hm : (ms t).next k.variant e x = .go m) : ∃ ct, Inv k.variant (k.bare sh') (Function.update ms t m) ct := by
  obtain ⟨m', hm', hi'⟩ := inv_step (t := t) hi hp (by rw [hm]; simp)
  rw [hm] at hm'
  cases hm'
  exact hi'

theorem inv_retire {ms : T → Mode} {o : Out} (hi : ∃ ct, Inv k.variant (k.bare sh) ms ct) (hd : Done o (ms t)) :
    ∃ ct, Inv k.variant (k.bare (retire sh t o)) (Function.update ms t .idle) ct := by
  obtain ⟨ct, hi⟩ := hi
  have hret : k.bare (retire sh t o) = retire (k.bare sh) t o := by cases k <;> rfl
  rw [hret]
  cases o with
  | done => exact hi.retireDone hd
  | stream s =>
    obtain ⟨h, hs, hm⟩ := hd
    exact hi.retireStream hs hm

/-- A reply comes on the one connection there is, and not on one to come. -/
theorem reply_conns {ms : T → Mode} {ct : Token T} {c : Command} {o : Oracle} {x : FtpResult Response}
    (hi : Inv k.variant (k.bare sh) ms ct) (hp : perform sh t (.recv h c) o = some (sh', x))
    (hn : (ms t).next k.variant (.recv h c) x ≠ .stop) :
    (ms t).uses = true ∧ conns sh = [h] ∧ (∀ h' ∈ conns sh', h' = h) ∧ ∀ h', sh'.next ≤ h' → h' ≠ h ∧ sh.next ≤ h' := by
  obtain ⟨huses, hone⟩ := hi.conns (t := t) rfl hn
  obtain ⟨hsub, hnext, -⟩ := perform_conns hp fun _ hput => nomatch hput
  have hlt : h < sh.next := by
    have hmem : h ∈ conns (k.bare sh) := by
      rw [hone]
      exact List.mem_singleton_self h
    have hn : (k.bare sh).next = sh.next := by cases k <;> rfl
    rw [← hn]
    rcases List.mem_append.mp hmem with hmem | hmem
    · exact hi.fresh.slot h (by simpa using hmem)
    · exact hi.fresh.held h hmem
  rw [conns_bare] at hone
  refine ⟨huses, hone, fun h' hh => ?_, fun h' hh => ⟨fun he => ?_, Nat.le_trans hnext hh⟩⟩
  · rcases hsub h' hh with hh | ⟨-, _, _, hc⟩
    · rw [hone] at hh
      exact List.mem_singleton.mp hh
    · cases hc
  · rw [he] at hh
    exact Nat.lt_irrefl h (Nat.lt_of_lt_of_le hlt (Nat.le_trans hnext hh))

namespace Marked

variable (hM : Marked k w ms)
include hM

omit [DecidableEq T] in
theorem excused_uses (hx : Excused (ms t)) : (ms t).1.uses = true := by
  rcases hx with hx | hx
  · exact hM.uses t hx
  · exact failed_uses hx

/-- What is asked of one thread, and of the others, when `t` changes. -/
theorem update (hinv : ∃ ct, Inv k.variant (k.bare w'.sh) (Function.update (Prod.fst ∘ ms) t m'.1) ct)
    (hrun : ∀ u, u ≠ t → w'.running u = w.running u)
    (hasks : ∀ n, m'.2.offset = some n →
      ∃ path opts, w'.running t = some (.op (.open' path opts)) ∧ opts.offset = some n)
    (hown : m'.2.stage.own m'.2.offset ∧ m'.2.stage ≠ .gone)
    (huses : m'.2.stage.holds = true → m'.1.uses = true)
    (hzero : m'.2.stage.calm = true → m'.1.hot = true → Zero w')
    (harmed : ∀ n, m'.2.stage = .armed n → ∀ h ∈ conns w'.sh, Accepts w' t h n)
    (hclean : ¬ Excused m' → (∀ u, u ≠ t → ¬ Excused (ms u)) → w'.sh.usable = true → Zero w')
    (hfresh : ∀ h, w'.sh.next ≤ h → w'.marker h = 0)
    (hothers : (ms t).1.uses = true ∨ ∀ h ∈ conns w'.sh, h ∈ conns w.sh ∧ w'.marker h = w.marker h ∧
      ∀ x, x.1 ≠ t → w.heard h = some x → w'.heard h = some x) :
    Marked k w' (Function.update ms t m') := by
  obtain ⟨ct, hi⟩ := hM.inv
  refine ⟨by rw [Function.comp_update]; exact hinv, fun u => ?_, fun u n hn => ?_, fun u hu => ?_, fun u hc hh => ?_,
    fun u n hn h hmem => ?_, fun hx hu => ?_, hfresh⟩
  · by_cases hut : u = t
    · subst hut
      rw [Function.update_self]
      exact hown
    · rw [Function.update_of_ne hut]
      exact hM.own u
  · by_cases hut : u = t
    · subst hut
      rw [Function.update_self] at hn
      exact hasks n hn
    · rw [Function.update_of_ne hut] at hn
      rw [hrun u hut]
      exact hM.asks u n hn
  · by_cases hut : u = t
    · subst hut
      rw [Function.update_self] at hu ⊢
      exact huses hu
    · rw [Function.update_of_ne hut] at hu ⊢
      exact hM.uses u hu
  · by_cases hut : u = t
    · subst hut
      rw [Function.update_self] at hc hh
      exact hzero hc hh
    · rw [Function.update_of_ne hut] at hc hh
      rcases hothers with ht | hsame
      · exact absurd (hi.alone ht (.inr hh)) hut
      · intro h hmem
        obtain ⟨hmem', hmark, -⟩ := hsame h hmem
        rw [hmark]
        exact hM.zero u hc hh h hmem'
  · by_cases hut : u = t
    · subst hut
      rw [Function.update_self] at hn
      exact harmed n hn h hmem
    · rw [Function.update_of_ne hut] at hn
      rcases hothers with ht | hsame
      · exact absurd (hi.alone ht (.inl (hM.uses u (by rw [hn]; rfl)))) hut
      · obtain ⟨hmem', hmark, hheard⟩ := hsame h hmem
        obtain ⟨hn', a, ha⟩ := hM.armed u n hn h hmem'
        exact ⟨hmark.trans hn', a, hheard _ hut ha⟩
  · refine hclean ?_ (fun u hut => ?_) hu
    · have := hx t
      rwa [Function.update_self] at this
    · have := hx u
      rwa [Function.update_of_ne hut] at this

omit [DecidableEq T] in
/-- Who finds the flag up finds no marker. -/
theorem found {x : Bool} {m : Mode} (hl : (ms t).2.stage.holds = false) (hx : w.sh.usable = x)
    (hm : (ms t).1.next k.variant .loadUsable x = .go m) (hh : m.hot = true) : Zero w := by
  obtain ⟨ct, hi⟩ := hM.inv
  have hnobody : (∀ u, ¬ Excused (ms u)) ∧ x = true := by
    cases hmode : (ms t).1 with
    | chk1 =>
      have hk := hi.knows t
      rw [Function.comp_apply, hmode] at hk
      refine ⟨fun u hx => ?_, ?_⟩
      · have hct := hi.user (t := u) (hM.excused_uses hx)
        rw [hk] at hct
        cases hct
      · rw [hmode] at hm
        cases x with
        | true => rfl
        | false => cases hm; cases hh
    | uq lk us =>
      refine ⟨fun u hx => ?_, ?_⟩
      · obtain rfl : u = t := hi.alone (by rw [Function.comp_apply, hmode]; rfl) (.inl (hM.excused_uses hx))
        rcases hx with hx | hx
        · rw [hl] at hx
          cases hx
        · rw [hmode] at hx
          cases hx
      · have hmx : m = .uq lk (some x) := by
          rw [hmode] at hm
          cases us with
          | none => cases hm; rfl
          | some b =>
            simp only [Mode.next, reduceCtorEq, if_false, Mode.onLoadUsable] at hm
            split at hm <;> cases hm
            rfl
        rw [hmx] at hh
        simpa using hh
    | shr | un => rw [hmode] at hm; cases hm; cases hh
    | gone => exact absurd hmode (hi.not_gone (t := t))
    | _ => rw [hmode] at hm; cases hm
  exact hM.clean hnobody.1 (hx.trans hnobody.2)

omit [DecidableEq T] in
/-- The flag goes up when no marker is set, or only on a connection that is
about to be closed. -/
theorem rearmed {m : Mode} {s' : Stage} (hm : (ms t).1.next k.variant (.storeUsable true) () = .go m)
    (hs : (ms t).2.stage.next (ms t).2.offset (.storeUsable true) () = .go s') : Zero w ∨ m.failed = true := by
  obtain ⟨ct, hi⟩ := hM.inv
  have hst : (ms t).2.stage = .clear := by
    cases hst : (ms t).2.stage with
    | clear => rfl
    | gone => exact absurd hst (hM.own t).2
    | _ => rw [hst] at hs; cases hs
  cases hmode : (ms t).1 with
  | un lk =>
    refine .inl fun h hmem => ?_
    rw [← conns_bare (k := k), (hi.nowhere (t := t) hmode).2] at hmem
    cases hmem
  | uh lk h ok =>
    cases ok with
    | true => exact .inl (hM.zero t (by rw [hst]; rfl) (by rw [hmode]; rfl))
    | false =>
      rw [hmode] at hm
      cases hm
      exact .inr rfl
  | gone => exact absurd hmode (hi.not_gone (t := t))
  | _ => rw [hmode] at hm; cases hm

/-- A step that is not a reply. -/
theorem quiet {e : Eff} {o : Oracle} {x : e.Ret} {s' : Stage} {m : Mode} (hp : perform w.sh t e o = some (sh', x))
    (he : ∀ h c, e ≠ .recv h c) (hm : (ms t).1.next k.variant e x = .go m)
    (hs : (ms t).2.stage.next (ms t).2.offset e x = .go s') :
    Marked k { w with sh := sh' } (Function.update ms t (m, ⟨(ms t).2.offset, s'⟩)) := by
  obtain ⟨ct, hi⟩ := hM.inv
  have hne : (ms t).1.next k.variant e x ≠ .stop := by rw [hm]; simp
  obtain ⟨hcalm, harmed, hfrom, hto⟩ := Stage.next_cases hs he
  obtain ⟨hsub, hnext, huse⟩ := perform_conns hp fun h hput => by
    subst hput
    have hone := (hi.conns (t := t) rfl hne).2
    rw [← conns_bare (k := k), hone]
    exact List.mem_singleton_self h
  -- a connection that was just opened has no marker
  have hkeep (hz : Zero w) : Zero { w with sh := sh' } := by
    intro h hh
    rcases hsub h hh with hh | ⟨rfl, -⟩
    · exact hz h hh
    · exact hM.fresh _ (Nat.le_refl _)
  refine hM.update (inv_go hM.inv hp hm) (fun _ _ => rfl) (hM.asks t)
    (Stage.next_own hs (hM.own t).1 (hM.own t).2) (fun hl => ?_) (fun hc hh => hkeep ?_) (fun n hn h hmem => ?_)
    (fun hx hothers hu => ?_) (fun h hh => hM.fresh h (Nat.le_trans hnext hh)) ?_
  · obtain ⟨hl, hwire⟩ := hto hl
    rcases hwire with hwire | hwire | ⟨b, rfl⟩
    · exact next_wire x (hi.not_gone (t := t)) m hm (.inl hwire)
    · exact next_wire x (hi.not_gone (t := t)) m hm (.inr (.inl hwire))
    · exact next_marked (hM.uses t hl) m hm
  · by_cases hl : e = .loadUsable
    · subst hl
      refine hM.found ?_ (Prod.mk.inj (Option.some.inj hp)).2 hm hh
      cases hst : (ms t).2.stage <;> first | rfl | (rw [hst] at hcalm; cases hcalm hc)
    · by_cases hcon : ∃ host port, e = .connect host port
      · obtain ⟨host, port, rfl⟩ := hcon
        intro h hmem
        rw [← conns_bare (k := k), (hi.opens (t := t) hne).2] at hmem
        cases hmem
      · exact hM.zero t (hcalm hc) (next_hot x hl (fun host port he => hcon ⟨host, port, he⟩) m hm hh)
  · obtain hne' | harm := harmed n
    · exact absurd hn hne'
    · rcases hsub h hmem with hmem | ⟨-, host, port, rfl⟩
      · exact hM.armed t n harm h hmem
      · rw [harm] at hs
        cases hs
  · by_cases hb : e = .storeUsable true
    · subst hb
      exact hkeep ((hM.rearmed hm hs).resolve_right fun hf => hx (.inr hf))
    · have hu' := (huse hu).resolve_right hb
      by_cases hxt : Excused (ms t)
      · rcases hxt with hl | hf
        · rcases hfrom hl with hl | rfl
          · exact absurd (.inl hl) hx
          · cases hp
            cases hu
        · rcases next_failed x hf m hm with hf' | ⟨h, rfl⟩
          · exact absurd (.inr hf') hx
          · intro h' hmem
            obtain ⟨lk, h₀, hmode⟩ := failed_eq hf
            rw [← conns_bare (k := k), hi.closed (t := t) hmode hne (perform_bare hp)] at hmem
            cases hmem
      · refine hkeep (hM.clean (fun u => ?_) hu')
        by_cases hut : u = t
        · rwa [hut]
        · exact hothers u hut
  · by_cases hc : ∃ host port, e = .connect host port
    · obtain ⟨host, port, rfl⟩ := hc
      exact .inl (hi.opens (t := t) hne).1
    · refine .inr fun h hh => ⟨?_, rfl, fun _ _ hx => hx⟩
      rcases hsub h hh with hh | ⟨-, hc'⟩
      · exact hh
      · exact absurd hc' hc

omit hM [DecidableEq T] in
/-- Where a reply leaves the marker. -/
theorem settled {c : Command} {x : FtpResult Response} {s s' : Stage} {offset : Option Nat} (hg : s ≠ .gone)
    (hs : s.next offset (.recv h c) x = .go s') (hz : s.calm = true → w.marker h = 0) :
    s' = .clear ∧ answered c x (w.marker h) = 0 ∨
      (∃ n a, s' = .armed n ∧ c = .resumeTransfer n ∧ x = .ok a) ∨ s' = .refused ∨ s' = .stuck := by
  rcases Stage.next_recv hs hg with ⟨rfl, rfl, hc⟩ | ⟨n, rfl, rfl, rfl⟩ | ⟨remote, rfl, rfl, rfl⟩ | ⟨rfl, rfl, rfl⟩
  · refine .inl ⟨rfl, ?_⟩
    rw [hz rfl]
    cases c with
    | resumeTransfer n => exact absurd rfl (hc n)
    | _ => cases x <;> rfl
  · cases x with
    | error e => exact .inl ⟨rfl, hz rfl⟩
    | ok a => exact .inr (.inl ⟨n, a, rfl, rfl, rfl⟩)
  · cases x with
    | error e => exact .inr (.inr (.inl rfl))
    | ok a => exact .inl ⟨rfl, rfl⟩
  · cases x with
    | error e => exact .inr (.inr (.inr rfl))
    | ok a => exact .inl ⟨rfl, rfl⟩

/-- A reply. -/
theorem reply {c : Command} {o : Oracle} {x : FtpResult Response} {s' : Stage} {m : Mode}
    (hp : perform w.sh t (.recv h c) o = some (sh', x)) (hm : (ms t).1.next k.variant (.recv h c) x = .go m)
    (hs : (ms t).2.stage.next (ms t).2.offset (.recv h c) x = .go s') :
    Marked k (w.saw t sh' (.recv h c) x) (Function.update ms t (m, ⟨(ms t).2.offset, s'⟩)) := by
  obtain ⟨ct, hi⟩ := hM.inv
  have hne : (ms t).1.next k.variant (.recv h c) x ≠ .stop := by rw [hm]; simp
  have hg : (ms t).1 ≠ .gone := hi.not_gone (t := t)
  obtain ⟨huses, hone, hone', hnew⟩ := reply_conns (t := t) hi hp hne
  have hhot : (ms t).1.hot = true := by
    cases hmode : (ms t).1 with
    | busy p h c => rfl
    | gone => exact absurd hmode hg
    | _ => rw [hmode] at hne; simp at hne
  have hres := settled (w := w) (hM.own t).2 hs fun hc =>
    hM.zero t hc hhot h (by rw [hone]; exact List.mem_singleton_self h)
  have hzero (hz : answered c x (w.marker h) = 0) : Zero (w.saw t sh' (.recv h c) x) := by
    intro h' hh
    obtain rfl := hone' h' hh
    exact (Function.update_self ..).trans hz
  refine hM.update (inv_go hM.inv hp hm) (fun _ _ => rfl) (hM.asks t)
    (Stage.next_own hs (hM.own t).1 (hM.own t).2) (fun _ => next_wire x hg m hm (.inr (.inr ⟨h, c, rfl⟩))) (fun hc _ => ?_) (fun n hn h' hh => ?_)
    (fun hx _ _ => ?_) (fun h' hh => ?_) (.inl huses)
  · rcases hres with ⟨rfl, hz⟩ | ⟨n, a, rfl, -⟩ | rfl | rfl
    · exact hzero hz
    all_goals cases hc
  · obtain rfl := hone' h' hh
    rcases hres with ⟨rfl, -⟩ | ⟨n', a, rfl, rfl, rfl⟩ | rfl | rfl
    · cases hn
    · cases hn
      exact ⟨Function.update_self .., a, Function.update_self ..⟩
    all_goals cases hn
  · rcases hres with ⟨rfl, hz⟩ | ⟨n, a, rfl, -⟩ | rfl | rfl
    · exact hzero hz
    all_goals exact absurd (.inl rfl) hx
  · obtain ⟨hne', hold⟩ := hnew h' hh
    exact (Function.update_of_ne hne' ..).trans (hM.fresh h' hold)

end Marked

/-! ## Every interleaving -/

/-- Both protocols at once. -/
abbrev marking (k : Kind) : Typestate ftp := (protocol k.variant).prod restart

def Finished (o : Out) (m : Mode × Restart) : Prop := Done o m.1 ∧ m.2.stage.Ended

theorem both_go {e : Eff} {x : e.Ret} {m : Mode × Restart} (hn : (marking k).next m e x ≠ .stop) {m₁ : Mode}
    (hm : m.1.next k.variant e x = .go m₁) : ∃ s', m.2.stage.next m.2.offset e x = .go s' ∧
      (marking k).next m e x = .go (m₁, ⟨m.2.offset, s'⟩) := by
  have hs : m.2.stage.next m.2.offset e x ≠ .stop := fun hs => (Next.both_ne_stop.mp hn).2 (by
    show Next.map _ _ = _
    rw [hs]
    rfl)
  obtain ⟨s', hs'⟩ := Stage.next_go hs
  refine ⟨s', hs', ?_⟩
  show (m.1.next k.variant e x).both ((m.2.stage.next m.2.offset e x).map _) = _
  rw [hm, hs']
  rfl

/-- A step of either client. -/
theorem Marked.step (hM : Marked k w ms) {e : Eff} {o : Oracle} {x : e.Ret} (hp : perform w.sh t e o = some (sh', x))
    (hn : (marking k).next (ms t) e x ≠ .stop) :
    ∃ m', (marking k).next (ms t) e x = .go m' ∧ Marked k (w.saw t sh' e x) (Function.update ms t m') := by
  obtain ⟨m, hm, -⟩ := inv_step (t := t) hM.inv hp (Next.both_ne_stop.mp hn).1
  obtain ⟨s', hs, hboth⟩ := both_go hn hm
  refine ⟨_, hboth, ?_⟩
  by_cases he : ∃ h c, e = .recv h c
  · obtain ⟨h, c, rfl⟩ := he
    exact hM.reply hp hm hs
  · have hsaw : w.saw t sh' e x = { w with sh := sh' } := by
      cases e with
      | recv h c => exact absurd ⟨h, c, rfl⟩ he
      | _ => rfl
    rw [hsaw]
    exact hM.quiet hp (fun h c hc => he ⟨h, c, hc⟩) hm hs

omit [DecidableEq T] in
theorem launch_bare {l : Launch} {p : Io Out} (hl : launch I sh t l = some (sh', p)) :
    launch I (k.bare sh) t l = some (k.bare sh', p) := by
  cases k with
  | blocking => exact hl
  | tokio =>
    show launch I (uncut sh) t l = _
    rw [launch_uncut, hl]
    rfl

omit [DecidableEq T] in
/-- Starting or ending an operation leaves the connections as they are. -/
theorem launch_conns {l : Launch} {p : Io Out} (hl : launch I sh t l = some (sh', p)) :
    conns sh' = conns sh ∧ sh'.next = sh.next ∧ sh'.usable = sh.usable := by
  cases l with
  | op op =>
    simp only [launch] at hl
    split at hl
    · split at hl
      · split at hl <;> cases hl
        exact ⟨rfl, rfl, rfl⟩
      · cases hl
        exact ⟨rfl, rfl, rfl⟩
    · cases hl
  | stream i op =>
    simp only [launch] at hl
    split at hl
    · cases hl
    · obtain ⟨p', -, hp⟩ := Option.map_eq_some_iff.mp hl
      cases hp
      exact ⟨rfl, rfl, rfl⟩

/-- `t` starts or ends an operation. -/
theorem Marked.starts (hM : Marked k w ms) {l : Option Launch} {m : Mode} {o : Option Nat}
    (hinv : ∃ ct, Inv k.variant (k.bare sh') (Function.update (Prod.fst ∘ ms) t m) ct)
    (hc : conns sh' = conns w.sh) (hnext : sh'.next = w.sh.next) (hu : sh'.usable = w.sh.usable)
    (hasks : ∀ n, o = some n → ∃ path opts, l = some (.op (.open' path opts)) ∧ opts.offset = some n)
    (hhot : m.hot = false) (hx : ¬ Excused (ms t)) :
    Marked k (w.starts t sh' l) (Function.update ms t (m, ⟨o, .clear⟩)) := by
  have hkeep (hz : Zero w) : Zero (w.starts t sh' l) := fun h hh => hz h (hc ▸ hh)
  refine hM.update hinv (fun u hu => Function.update_of_ne hu ..) (fun n hn => ?_) ⟨trivial, by simp⟩ (fun h => nomatch h)
    (fun _ hh => ?_) (fun n hn => nomatch hn) (fun _ hothers hus => hkeep (hM.clean (fun u => ?_) (hu ▸ hus)))
    (fun h hh => hM.fresh h (hnext ▸ hh)) (.inr fun h hh => ⟨hc ▸ hh, rfl, fun x hx hheard => ?_⟩)
  · obtain ⟨path, opts, hl, ho⟩ := hasks n hn
    exact ⟨path, opts, (Function.update_self ..).trans hl, ho⟩
  · rw [show (m, _).1 = m from rfl, hhot] at hh
    cases hh
  · by_cases hut : u = t
    · rwa [hut]
    · exact hothers u hut
  · show (w.heard h).filter _ = _
    rw [hheard]
    simp [hx]

theorem Kind.keeping (k : Kind) (X : Ext) : Keeping k.variant (k.impl X) := by
  cases k with
  | blocking => exact sync_keeping X
  | tokio => exact tokio_keeping (by simp [Kind.variant]) X

/-- Programs that keep to both. -/
theorem Kind.run_marking (k : Kind) (X : Ext) (op : Op) : (marking k).Follows
    (fun m => Done .done m.1 ∧ Dropped m.2) ((k.impl X).run op) (enters op, ⟨asks op, .clear⟩) Finished := by
  have h : Ordered ((k.impl X).run op) ⟨asks op, .clear⟩ fun _ m => m.stage.Ended := by
    cases k with
    | blocking => exact Sync.restarts X op
    | tokio => exact Tokio.restarts X op
  exact ((k.keeping X).run op).prod_partly h

theorem Kind.stream_marking (k : Kind) (X : Ext) {s : OwnedStream} {op : StreamOp} {p : Io Out} (hs : s.inner = some h)
    (hp : (k.impl X).runStream s op = some p) : (marking k).Follows
    (fun m => Done .done m.1 ∧ Dropped m.2) p (.own h, {}) Finished := by
  have h : Ordered p {} fun _ m => m.stage.Ended := by
    cases k with
    | blocking => exact ended_clear (unmarked_of_sends (fun _ h => h) (FtpFs.stream_sends X hp))
    | tokio => exact ended_clear (unmarked_of_sends (fun _ h => h) (TokioFtpFs.stream_sends X hp))
  exact ((k.keeping X).runStream s _ op p hs hp).prod_partly h

theorem keeps_marked (X : Ext) (k : Kind) : Keeps (watched T (k.impl X)) (marking k) (.idle, {}) Finished (Marked k)
    (fun s => Blocking (behind s)) fun m => Done .done m.1 ∧ Dropped m.2 where
  launch s t l w' p ms _ hM hm hl := by
    obtain ⟨⟨sh', p'⟩, hl, he⟩ := Option.map_eq_some_iff.mp hl
    cases he
    obtain ⟨hc, hnext, hu⟩ := launch_conns hl
    obtain ⟨ct, hi⟩ := hM.inv
    have hidle : (ms t).1 = .idle := by rw [hm]
    have hx : ¬ Excused (ms t) := by
      rw [hm]
      rintro (hx | hx) <;> cases hx
    cases l with
    | op op =>
      obtain ⟨rfl, hi'⟩ := hi.launchOp (t := t) hidle (launch_bare hl)
      refine ⟨_, k.run_marking X op, hM.starts hi' hc hnext hu (fun n hn => ?_) ?_ hx⟩
      · cases op with
        | open' path opts => exact ⟨path, opts, rfl, hn⟩
        | _ => cases hn
      · unfold enters
        split <;> rfl
    | stream i op =>
      obtain ⟨s, h, hs, hp, hi'⟩ := hi.launchStream (t := t) hidle (launch_bare hl)
      exact ⟨_, k.stream_marking X hs hp, hM.starts hi' hc hnext hu (fun n hn => nomatch hn) rfl hx⟩
  step s t c e w' x ms _ hat hM _ hp hn := by
    obtain ⟨⟨sh', x'⟩, hp', he⟩ := Option.map_eq_some_iff.mp hp
    cases he
    exact hM.step hp' hn
  retire w t o ms hM hd := by
    refine hM.starts (inv_retire hM.inv hd.1) rfl rfl rfl (fun n hn => nomatch hn) rfl ?_
    rintro (hx | hx)
    · have := hd.2
      cases hst : (ms t).2.stage <;> rw [hst] at this hx <;> first | exact this | cases hx
    · have := hd.1
      cases hm : (ms t).1 with
      | uh lk h ok =>
        rw [hm] at this
        cases o with
        | done => exact this
        | stream s =>
          obtain ⟨_, _, he⟩ := this
          cases he
      | _ => rw [hm] at hx; cases hx
  drop s t ms hok := hok.elim
  dropped m hm := ⟨hm.1, by
    rw [hm.2]
    trivial⟩

theorem reachable_marked (X : Ext) (k : Kind) {slot : Option Conn} {s : Watch T}
    (hr : (watchedRuns (k.impl X) slot Blocking).Reachable s) :
    ∃ ms, Marked k s.sh ms ∧
      Typed (marking k) (.idle, {}) Finished (fun m => Done .done m.1 ∧ Dropped m.2) s.th ms := by
  refine (Threads.inductive_of_typestate (keeps_marked X k) fun s hs => ?_).reachable s hr
  obtain ⟨⟨builder, hsh⟩, hth⟩ := hs
  refine ⟨fun _ => (.idle, {}), ?_, fun t => by rw [hth t]⟩
  rw [hsh]
  refine ⟨⟨.nobody, ?_⟩, fun _ => ⟨trivial, by simp⟩, fun _ _ h => (nomatch h), fun _ h => (nomatch h),
    fun _ _ h => (nomatch h), fun _ _ h => (nomatch h), fun _ _ _ _ => rfl, fun _ _ => rfl⟩
  cases k with
  | blocking => exact start_inv slot builder
  | tokio => exact inv_uncut (start_inv slot builder)

/-! ## Isolation -/

/-- Where transfers start. -/
structure Isolated (s : Watch T) : Prop where
  /-- An upload starts with the marker at 0... -/
  upload : ∀ t h remote, s.At t (.send h (.putWithStream remote)) ∨ s.At t (.send h (.appendWithStream remote)) →
    s.sh.marker h = 0
  /-- ... and so does a download, unless its own `REST` is the last thing that
  was answered on the connection. -/
  download : ∀ t h remote, s.At t (.send h (.retrAsStream remote)) → s.sh.marker h = 0 ∨
    ∃ path opts n, s.sh.running t = some (.op (.open' path opts)) ∧ opts.offset = some n ∧ Accepts s.sh t h n

theorem isolated_of_reachable (X : Ext) (k : Kind) {slot : Option Conn} {s : Watch T}
    (hr : (watchedRuns (k.impl X) slot Blocking).Reachable s) : Isolated s := by
  obtain ⟨ms, hM, hT⟩ := reachable_marked X k hr
  obtain ⟨ct, hi⟩ := hM.inv
  -- who is about to send
  have hsend {t : T} {h : Conn} {c : Command} (ha : s.At t (.send h c)) : conns s.sh.sh = [h] ∧
      (ms t).1.hot = true ∧ ∃ s', (ms t).2.stage.next (ms t).2.offset (.send h c) () = .go s' := by
    have hn := Threads.typed_at hT ha ()
    have hn₁ := (Next.both_ne_stop.mp hn).1
    have hone := (hi.conns (t := t) (e := .send h c) (r := ()) rfl hn₁).2
    rw [conns_bare] at hone
    obtain ⟨m, hm, -⟩ := inv_step (t := t) (e := .send h c) (o := {}) (x := ()) hM.inv rfl hn₁
    have hm : (ms t).1.next k.variant (.send h c) () = .go m := hm
    obtain ⟨s', hs, -⟩ := both_go hn hm
    refine ⟨hone, ?_, s', hs⟩
    have hg : (ms t).1 ≠ .gone := hi.not_gone (t := t)
    cases hmode : (ms t).1 with
    | sec p h d => rfl
    | uh lk h ok =>
      cases ok with
      | true => rfl
      | false => rw [hmode] at hm; cases lk <;> cases hm
    | gone => exact absurd hmode hg
    | _ => rw [hmode] at hm; cases hm
  have hclear {t : T} {h : Conn} {c : Command} (ha : s.At t (.send h c)) (hst : (ms t).2.stage = .clear) :
      s.sh.marker h = 0 := by
    obtain ⟨hone, hhot, -⟩ := hsend ha
    exact hM.zero t (by rw [hst]; rfl) hhot h (by rw [hone]; exact List.mem_singleton_self h)
  refine ⟨fun t h remote ha => ?_, fun t h remote ha => ?_⟩
  · rcases ha with ha | ha
    all_goals
      refine hclear ha ?_
      obtain ⟨-, -, s', hs⟩ := hsend ha
      cases hst : (ms t).2.stage with
      | clear => rfl
      | gone => exact absurd hst (hM.own t).2
      | _ => rw [hst] at hs; cases hs
  · obtain ⟨hone, -, s', hs⟩ := hsend ha
    cases hst : (ms t).2.stage with
    | clear => exact .inl (hclear ha hst)
    | armed n =>
      right
      have hown := (hM.own t).1
      rw [hst] at hown
      obtain ⟨path, opts, hrun, ho⟩ := hM.asks t n hown
      exact ⟨path, opts, n, hrun, ho, hM.armed t n hst h (by rw [hone]; exact List.mem_singleton_self h)⟩
    | gone => exact absurd hst (hM.own t).2
    | _ => rw [hst] at hs; cases hs

/-- **The restart marker is isolated**, in every interleaving of the blocking client. -/
theorem restart_isolated (X : Ext) {slot : Option Conn} {s : Watch T}
    (hr : (watchedRuns (syncImpl X) slot Blocking).Reachable s) : Isolated s :=
  isolated_of_reachable X .blocking hr

/-- An `open` whose `REST` is accepted, up to its `RETR`. -/
def resumedRun (n : Nat) : List (Label Bool) :=
  .launch false (.op (.open' ['/', 'f'] { offset := some 5 })) :: steps false n {}

def watchPlay (I : Impl) (ls : List (Label Bool)) : Option (Watch Bool) :=
  LTS.exec (watched Bool I).next (fun s => blocking (behind s)) ⟨{ sh := .start (some 0) }, fun _ => none⟩ ls

theorem reachable_of_watchPlay {ls : List (Label Bool)} {s : Watch Bool} (h : watchPlay I ls = some s) :
    (watchedRuns I (some 0) Blocking).Reachable s := by
  have hstep : ∀ s l s', blocking (behind s) l = true → (watched Bool I).next s l = some s' →
      (watchedRuns I (some 0) Blocking).step s l s' := fun s l _ hok hs => ⟨hs, blocking_of (behind s) l hok⟩
  exact ⟨_, ls, ⟨⟨false, rfl⟩, fun _ => rfl⟩, LTS.run_of_exec hstep h⟩

theorem restart_isolated_resumed : ∃ s, watchPlay (syncImpl plainExt) (resumedRun 6) = some s ∧ Isolated s ∧
    s.At false (.send 0 (.retrAsStream "/f".toList)) ∧ s.sh.marker 0 = 5 := by
  obtain ⟨s, hs⟩ := Option.isSome_iff_exists.mp
    (show (watchPlay (syncImpl plainExt) (resumedRun 6)).isSome = true by decide)
  refine ⟨s, hs, restart_isolated plainExt (reachable_of_watchPlay hs), ?_⟩
  cases hs
  exact ⟨⟨_, _, rfl⟩, rfl⟩

/-- **The restart marker is isolated**, in every interleaving of the Tokio
client in which no future is dropped. -/
theorem tokio_restart_isolated (X : Ext) {slot : Option Conn} {s : Watch T}
    (hr : (watchedRuns (tokioImpl X) slot Blocking).Reachable s) : Isolated s :=
  isolated_of_reachable X .tokio hr

theorem tokio_restart_isolated_resumed : ∃ s, watchPlay (tokioImpl plainExt) (resumedRun 7) = some s ∧ Isolated s ∧
    s.At false (.send 0 (.retrAsStream "/f".toList)) ∧ s.sh.marker 0 = 5 := by
  obtain ⟨s, hs⟩ := Option.isSome_iff_exists.mp
    (show (watchPlay (tokioImpl plainExt) (resumedRun 7)).isSome = true by decide)
  refine ⟨s, hs, tokio_restart_isolated plainExt (reachable_of_watchPlay hs), ?_⟩
  cases hs
  exact ⟨⟨_, _, rfl⟩, rfl⟩

end

end RemotefsFtp.L5
