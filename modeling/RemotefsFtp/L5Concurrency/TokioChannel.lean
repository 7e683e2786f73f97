import RemotefsFtp.L5Concurrency.Channel
import RemotefsFtp.L5Concurrency.TokioFollows

/-!
# The control channel of the Tokio client

`list_dir_raw`, `run_command`, `exec` and the drop of a `StreamGuard` release
the mutex before they clear `connection_usable` (`src/client/tokio.rs:554-580`,
`1046-1063`, `129-152`). A task that checks the flags in between passes.

Results:
* **`late_record_race`**, **`cancelled_race`**: runs in which it does.
* **`late_record_barrier`**, **`cancelled_barrier`**: while no task checks the
  flags in between, nobody sends a command on the control stream afterwards.
-/
namespace RemotefsFtp.L5

open L2 L3
open Core (LTS Threads)
open Mode (Done)

theorem tokio_keeping {v : Variant} (hv : v ≠ .strict) (X : Ext) : Keeping v (tokioImpl X) where
  run := Tokio.run_follows hv X
  runStream _ _ _ _ hs hp := Tokio.runStream_follows X hs hp

variable {T : Type} [DecidableEq T] {s s' : Config T} {h : Conn}

/-- Checks of the flags are timely; in the `cancel` variant futures may be
dropped at any suspension point. -/
def TimelyRun (v : Variant) (s : Config T) : Label T → Prop
  | .drop _ => v = .cancel
  | .step t _ => Timely v s t
  | _ => True

omit [DecidableEq T] in
theorem timelyRun_permits (v : Variant) : Permits v (TimelyRun (T := T) v) where
  drop hv _ _ h := hv h
  check _ _ _ _ h := h

/-! ## Failures recorded late -/

/-- **Poisoned-connection barrier of `TokioFtpFs`**: while checks are timely,
a failure that needs a reconnect ends the use of its control stream. -/
theorem late_record_barrier (X : Ext) {slot : Option Conn} {s : Config T}
    (hr : (runs (tokioImpl X) slot (TimelyRun .lax)).Reachable s) :
    Sealed s ∧ ∀ ls s', (runs (tokioImpl X) slot (TimelyRun .lax)).Run s ls s' → ∀ h,
      s.sh.health h = .dead → s'.sh.health h = .dead ∧ ∀ t c, ¬ s'.At t (.send h c) := by
  have hsealed : ∀ {s : Config T}, (runs (tokioImpl X) slot (TimelyRun .lax)).Reachable s → Sealed s := by
    intro s hr
    obtain ⟨ms, ⟨ct, hi⟩, hT⟩ :=
      reachable_inv (tokio_keeping (by simp) X) (timelyRun_permits .lax) hr
    exact sealed_of_inv (by simp) hi hT
  refine ⟨hsealed hr, fun ls s' hrun h hd => ?_⟩
  have hd' := dead_run hrun hd
  exact ⟨hd', fun t c ha => (hsealed (hr.run hrun) t h c ha).1 hd'⟩

/-- `t` is about to read `connection_usable`. -/
def checks (s : Config Bool) (t : Bool) : Bool :=
  match s.th t with
  | some (.act .loadUsable _ _) => true
  | _ => false

theorem checks_of_at {s : Config Bool} {t : Bool} (h : s.At t .loadUsable) : checks s t = true := by
  obtain ⟨d, k, hth⟩ := h
  rw [checks, hth]

/-- No drops; and checks read `true` only while the control stream is fine. -/
def marked (s : Config Bool) : Label Bool → Bool
  | .drop _ => false
  | .step t _ => checks s t → s.sh.usable → s.sh.slot = some 0 ∧ s.sh.health 0 = .fine
  | _ => true

theorem marked_of (s : Config Bool) (l : Label Bool) (h : marked s l = true) : TimelyRun .lax s l := by
  cases l with
  | step t c =>
    intro ha _ hu h' hs hb
    obtain ⟨h0, hf⟩ := of_decide_eq_true h (checks_of_at ha) hu
    rw [h0] at hs
    cases hs
    exact absurd hf hb
  | drop t => cases h
  | _ => trivial

/-- A command of one task loses the connection, `n` steps of it are taken,
then the other task takes `m` steps of a command. -/
def lateRun (n m : Nat) : List (Label Bool) :=
  [.launch false (.op (.exec "NOOP".toList))] ++
    steps false n { reply := .error (.connectionError (.other 0)) } ++
    [.launch true (.op (.exec "NOOP".toList))] ++ steps true m {}

theorem late_record_barrier_recorded : ∃ s,
    play (tokioImpl plainExt) marked (lateRun 9 2) = some s ∧ Sealed s ∧
      s.sh.health 0 = .dead ∧ s.At true .loadUsable ∧ s.sh.usable = false := by
  obtain ⟨s, hs⟩ := Option.isSome_iff_exists.mp
    (show (play (tokioImpl plainExt) marked (lateRun 9 2)).isSome = true by decide)
  refine ⟨s, hs, (late_record_barrier plainExt (reachable_of_play marked_of hs)).1, ?_⟩
  cases hs
  exact ⟨rfl, ⟨_, _, rfl⟩, rfl⟩

/-- **The race**: after the mutex is released and before the failure is
recorded, the other task passes the check and sends its command. -/
theorem late_record_race : ∃ s, play (tokioImpl plainExt) blocking (lateRun 8 5) = some s ∧
    (runs (tokioImpl plainExt) (some 0) Blocking).Reachable s ∧ s.sh.health 0 = .dead ∧
      s.At true (.send 0 (.site "NOOP".toList)) := by
  obtain ⟨s, hs⟩ := Option.isSome_iff_exists.mp
    (show (play (tokioImpl plainExt) blocking (lateRun 8 5)).isSome = true by decide)
  refine ⟨s, hs, reachable_of_play blocking_of hs, ?_⟩
  cases hs
  exact ⟨rfl, _, _, rfl⟩

/-! ## Cancelled operations -/

theorem cancelled_perform {sh sh' : Shared T} {t : T} {e : Eff} {o : Oracle} {r : e.Ret}
    (hp : perform sh t e o = some (sh', r)) : sh'.cancelled = sh.cancelled := by
  have hfail : ∀ {ε α : Type} (sh : Shared T) h (r : Except ε α),
      (sh.failing h r).cancelled = sh.cancelled := by
    intro ε α sh h r
    cases r <;> rfl
  cases e with
  | copyAll h | readToEnd h => cases hp; exact hfail _ _ _
  | finish h => cases hp; exact hfail _ _ _
  | flush h cleanup =>
    cases cleanup with
    | false => cases hp; rfl
    | true => cases hp; exact hfail _ _ _
  | connect host port =>
    simp only [perform] at hp
    split at hp <;> cases hp <;> rfl
  | builder | lock | unlock =>
    simp only [perform] at hp
    split at hp
    · cases hp; rfl
    · cases hp; try rfl
  | _ => cases hp; rfl

/-- A cancellation is not undone. -/
theorem cancelled_run {I : Impl} {slot : Option Conn} {ok : Config T → Label T → Prop}
    {ls : List (Label T)} (hr : (runs I slot ok).Run s ls s') (hc : s.sh.cancelled h = true) :
    s'.sh.cancelled h = true :=
  LTS.run_ind (T := runs I slot ok) (I := fun s => s.sh.cancelled h = true)
    (fun _ _ _ hc hs => shared_step (P := fun sh => sh.cancelled h = true)
      (fun hp hc => by rw [cancelled_perform hp]; exact hc) (fun _ _ _ _ hc => hc)
      (fun sh h' hc => by by_cases hh : h = h' <;> simp [Function.update, hh, hc]) hs.1 hc) hr hc

/-- **Cancelled operations of `TokioFtpFs`**: while checks are timely, a future
dropped with the mutex held, wherever it waits, ends the use of its control
stream. -/
theorem cancelled_barrier (X : Ext) {slot : Option Conn} {s : Config T}
    (hr : (runs (tokioImpl X) slot (TimelyRun .cancel)).Reachable s) :
    (∀ t h c, s.At t (.send h c) → s.sh.cancelled h = false) ∧
      ∀ ls s', (runs (tokioImpl X) slot (TimelyRun .cancel)).Run s ls s' → ∀ h,
        s.sh.cancelled h = true → s'.sh.cancelled h = true ∧ ∀ t c, ¬ s'.At t (.send h c) := by
  have hopen : ∀ {s : Config T}, (runs (tokioImpl X) slot (TimelyRun .cancel)).Reachable s →
      ∀ t h c, s.At t (.send h c) → s.sh.cancelled h = false := by
    intro s hr t h c ha
    obtain ⟨ms, ⟨ct, hi⟩, hT⟩ :=
      reachable_inv (tokio_keeping (by simp) X) (timelyRun_permits .cancel) hr
    rcases at_send hi hT ha with ⟨p, d, hp, hm⟩ | hm
    · obtain rfl := hi.user (t := t) (by rw [hm]; rfl)
      have hgr := (hi.holds t rfl).grade
      rw [hm] at hgr
      simpa using hgr.2.1
    · obtain rfl := hi.user (t := t) (by rw [hm]; rfl)
      have hgr := (hi.holds t rfl).grade
      rw [hm] at hgr
      simpa using hgr.2
  refine ⟨hopen hr, fun ls s' hrun h hc => ?_⟩
  have hc' := cancelled_run hrun hc
  refine ⟨hc', fun t c ha => ?_⟩
  have := hopen (hr.run hrun) t h c ha
  rw [hc'] at this
  cases this

/-- Checks read `true` only while no operation was cancelled. -/
def uncancelled (s : Config Bool) : Label Bool → Bool
  | .step t _ => checks s t → s.sh.usable → s.sh.slot = some 0 ∧ s.sh.cancelled 0 = false
  | _ => true

theorem uncancelled_of (s : Config Bool) (l : Label Bool) (h : uncancelled s l = true) :
    TimelyRun .cancel s l := by
  cases l with
  | step t c =>
    intro ha _ hu h' hs hb
    obtain ⟨h0, hf⟩ := of_decide_eq_true h (checks_of_at ha) hu
    rw [h0] at hs
    cases hs
    have hb : s.sh.cancelled 0 = true := hb
    rw [hf] at hb
    cases hb
  | drop t => rfl
  | _ => trivial

/-- One task's command is dropped while it waits for the reply and `n` steps of
the drop are taken, then the other task takes `m` steps of a command. -/
def cancelRun (n m : Nat) : List (Label Bool) :=
  [.launch false (.op (.exec "NOOP".toList))] ++ steps false 6 {} ++ [.drop false] ++
    steps false n {} ++ [.launch true (.op (.exec "NOOP".toList))] ++ steps true m {}

theorem cancelled_barrier_closed : ∃ s,
    play (tokioImpl plainExt) uncancelled (cancelRun 2 2) = some s ∧
      (∀ t h c, s.At t (.send h c) → s.sh.cancelled h = false) ∧
      s.sh.cancelled 0 = true ∧ s.At true .loadUsable ∧ s.sh.usable = false := by
  obtain ⟨s, hs⟩ := Option.isSome_iff_exists.mp
    (show (play (tokioImpl plainExt) uncancelled (cancelRun 2 2)).isSome = true by decide)
  refine ⟨s, hs, (cancelled_barrier plainExt (reachable_of_play uncancelled_of hs)).1, ?_⟩
  cases hs
  exact ⟨rfl, ⟨_, _, rfl⟩, rfl⟩

/-- **The race**: the `MutexGuard` of the dropped `StreamGuard` goes before its
`OperationGuard`, and the other task passes the check in between. -/
theorem cancelled_race : ∃ s, play (tokioImpl plainExt) (fun _ _ => true) (cancelRun 1 5) = some s ∧
    (runs (tokioImpl plainExt) (some 0) fun _ _ => True).Reachable s ∧ s.sh.cancelled 0 = true ∧
      s.At true (.send 0 (.site "NOOP".toList)) := by
  obtain ⟨s, hs⟩ := Option.isSome_iff_exists.mp
    (show (play (tokioImpl plainExt) (fun _ _ => true) (cancelRun 1 5)).isSome = true by decide)
  refine ⟨s, hs, reachable_of_play (fun _ _ _ => trivial) hs, ?_⟩
  cases hs
  exact ⟨rfl, _, _, rfl⟩

end RemotefsFtp.L5
