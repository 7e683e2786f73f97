import RemotefsFtp.Core.Call
import RemotefsFtp.L5Concurrency.Channel

/-!
# `is_connected` while others list (`src/client/sync.rs:771-774`)

The answer rests on three reads. The slot and then the flag are read under one
mutex, and a listing that has the stream out of its slot raised the flag
before it let the mutex go and clears it after it put the stream back.

Results:
* **`is_connected_stable`**: a call during which the client holds its control
  stream, and may use it, never answers `false`.
-/
namespace RemotefsFtp.L5

open L2 L3
open Core (LTS Threads Typestate Prog)
open Core.Threads (State Lbl Typed Calls)
open Mode (Done)

variable {T : Type} {v : Variant} {sh sh' : Shared T} {ms : T → Mode} {ct : Token T} {t : T}
  {s s' : Config T}

/-! ## The slot and the flag -/

/-- A thread that reads the flag under the mutex. -/
theorem at_loadActive (hi : Inv v s.sh ms ct)
    (hT : Typed (protocol v) .idle Done (Done .done) s.th ms) (ha : s.At t .loadActive)
    (hl : s.sh.lock = some t) : ms t = .lkd := by
  have hn := Threads.typed_at hT ha true
  have hg := hi.not_gone (t := t)
  have hlocks := (hi.locked t).mpr hl
  cases hm : ms t <;> simp_all [Mode.locks]

/-- A thread that locks the mutex does not hold it. -/
theorem at_lock (hi : Inv v s.sh ms ct)
    (hT : Typed (protocol v) .idle Done (Done .done) s.th ms) (ha : s.At t .lock) :
    s.sh.lock ≠ some t := by
  intro hl
  have hn := Threads.typed_at hT ha ()
  have hg := hi.not_gone (t := t)
  have hlocks := (hi.locked t).mpr hl
  cases hm : ms t <;> simp_all [Mode.locks]

/-- Beside a thread that holds the mutex in an operation on `&self`. -/
theorem Inv.beside {u : T} (hi : Inv v sh ms ct) (hm : ms t = .lkd) (hu : u ≠ t) :
    (ms u).locks = false ∧ (ms u).isUnique = false := by
  constructor
  · have ht : sh.lock = some t := (hi.locked t).mp (by rw [hm]; rfl)
    have := hi.locked u
    rw [ht] at this
    simpa [Ne.symm hu] using this
  · by_contra hne
    have := hi.borrowed.alone (t := u) (by simpa using hne) t
    rw [hm] at this
    cases this

/-- A stream that is out of the slot while the mutex is held by another is in
an `ExclusiveStream`. -/
theorem Inv.active_of_held (hi : Inv v sh ms ct) (hm : ms t = .lkd) (hs : sh.slot = none)
    (hh : sh.held ≠ []) : sh.active = true := by
  cases hct : ct with
  | nobody => exact absurd (hi.free hct).held hh
  | pooled =>
    obtain ⟨_, h, hp⟩ := hi.pooled hct
    have := hp.spot.1.symm.trans hs
    cases this
  | thread u =>
    subst hct
    have hut : u ≠ t := by
      intro e
      have := (hi.token u).mpr rfl
      rw [e, hm] at this
      cases this
    obtain ⟨hlock, hborrow⟩ := hi.beside hm hut
    have hspot := (hi.holds u rfl).spot
    rw [hi.active_eq]
    cases hmu : ms u with
    | sec p h d | busy p h c | bld p h c | data p h d | fini p h d =>
      cases p with
      | locked => rw [hmu] at hlock; cases hlock
      | unique => rw [hmu] at hborrow; cases hborrow
      | exclusive => rfl
    | _ => simp_all [Mode.spot, Spot.Ok, Mode.locks, Mode.isUnique, Mode.raises]

theorem failing_lock {ε α : Type} (sh : Shared T) (h : Conn) (r : Except ε α) :
    (sh.failing h r).lock = sh.lock := by
  cases r <;> rfl

theorem failing_slot {ε α : Type} (sh : Shared T) (h : Conn) (r : Except ε α) :
    (sh.failing h r).slot = sh.slot := by
  cases r <;> rfl

variable [DecidableEq T]

/-- Only its holder releases the mutex. -/
theorem lock_perform {u : T} {e : Eff} {o : Oracle} {r : e.Ret} (hl : sh.lock = some t) (hu : u ≠ t)
    (hp : perform sh u e o = some (sh', r)) : sh'.lock = some t := by
  cases e with
  | lock => simp [perform, hl] at hp
  | unlock => simp [perform, hl, Ne.symm hu] at hp
  | copyAll h | readToEnd h => cases hp; exact (failing_lock _ _ _).trans hl
  | finish h => cases hp; exact (failing_lock (sh.setWire h .idle) _ _).trans hl
  | flush h cleanup =>
    cases cleanup with
    | false => cases hp; exact hl
    | true => cases hp; exact (failing_lock _ _ _).trans hl
  | builder h =>
    simp only [perform] at hp
    split at hp <;> cases hp <;> exact hl
  | connect host port =>
    simp only [perform] at hp
    split at hp <;> cases hp <;> exact hl
  | _ => cases hp; exact hl

/-- Without the mutex nobody puts a stream back. -/
theorem slot_perform {u : T} {e : Eff} {o : Oracle} {r : e.Ret} (hi : Inv v sh ms ct)
    (hm : ms t = .lkd) (hs : sh.slot = none) (hu : u ≠ t) (hn : (ms u).next v e r ≠ .stop)
    (hp : perform sh u e o = some (sh', r)) : sh'.slot = none := by
  cases e with
  | put h =>
    obtain ⟨hlock, hborrow⟩ := hi.beside hm hu
    have hg := hi.not_gone (t := u)
    cases hmu : ms u with
    | exLk h' => rw [hmu] at hlock; cases hlock
    | uh lk h' ok => rw [hmu] at hborrow; cases hborrow
    | _ => simp [hmu] at hn hg
  | take => cases hp; rfl
  | copyAll h | readToEnd h => cases hp; exact (failing_slot _ _ _).trans hs
  | finish h => cases hp; exact (failing_slot (sh.setWire h .idle) _ _).trans hs
  | flush h cleanup =>
    cases cleanup with
    | false => cases hp; exact hs
    | true => cases hp; exact (failing_slot _ _ _).trans hs
  | lock | unlock | builder | connect =>
    simp only [perform] at hp
    split at hp <;> cases hp <;> exact hs
  | _ => cases hp; exact hs

/-! ## A call -/

/-- The client holds its control stream, in the slot or out for a listing, and
may use it. -/
def Usable (sh : Shared T) : Prop := (sh.slot ≠ none ∨ sh.held ≠ []) ∧ sh.usable = true

/-- Steps of anyone until the call of `t` returns, taken while the client
holds its control stream. -/
def During (t : T) (s : Config T) (l : Label T) : Prop := Blocking s l ∧ l ≠ .retire t ∧ Usable s.sh

omit [DecidableEq T] in
theorem during_permits (t : T) : Permits .strict (During t) where
  drop _ _ _ h := h.1
  check h := absurd rfl h

/-- `is_connected` once the connection was usable and the mutex is held. -/
def checkSlot : Io Bool := do
  let slot ← step .slot
  let connected ← if slot.isSome then pure true else step .loadActive
  FtpFs.unlock
  pure connected

/-- How far a call of `t` has come, that has seen nothing amiss. -/
inductive Asking (sh : Shared T) (t : T) : Io Bool → Prop
  | usable : Asking sh t FtpFs.isConnected
  | lock : Asking sh t (do FtpFs.lock; checkSlot)
  | slot (hl : sh.lock = some t) : Asking sh t checkSlot
  | active (hl : sh.lock = some t) (hs : sh.slot = none) :
    Asking sh t (do let connected ← step .loadActive; FtpFs.unlock; pure connected)
  | unlock (hl : sh.lock = some t) : Asking sh t (do FtpFs.unlock; pure true)
  | found : Asking sh t (pure true)

/-- The states a call passes through, with what is left of it. -/
def Progress (t : T) (s : Config T) (q : Io Bool) : Prop :=
  (∃ ms, (∃ ct, Inv .strict s.sh ms ct) ∧ Typed (protocol .strict) .idle Done (Done .done) s.th ms) ∧
    Asking s.sh t q

variable (X : Ext) {q : Io Bool} {l : Label T}

/-- A step of the call. -/
theorem asking_own {e : Eff} {d : Option (List Eff)} {k : e.Ret → Io Bool} {c : Oracle} {r : e.Ret}
    (hp : Progress t s (.act e d k)) (hc : Calls s t (.act e d k) (nothing (α := Bool)))
    (hh : Usable s.sh) (hs : perform s.sh t e c = some (sh', r)) : Asking sh' t (k r) := by
  obtain ⟨⟨ms, ⟨ct, hi⟩, hT⟩, ha⟩ := hp
  generalize hq : (Prog.act e d k : Io Bool) = q at ha
  cases ha with
  | usable =>
    cases hq
    cases hs
    rw [hh.2]
    exact .lock
  | lock =>
    cases hq
    simp only [perform] at hs
    split at hs
    · cases hs
      exact .slot rfl
    · cases hs
  | slot hl =>
    cases hq
    cases hs
    cases hslot : s.sh.slot with
    | some h => exact .unlock hl
    | none => exact .active hl hslot
  | active hl hslot =>
    cases hq
    cases hs
    have hm := at_loadActive hi hT ⟨_, _, hc⟩ hl
    rw [hi.active_of_held hm hslot (hh.1.resolve_left (absurd hslot))]
    exact .unlock hl
  | unlock hl =>
    cases hq
    exact .found
  | found => cases hq

/-- A step of anyone else. -/
theorem asking_other (hp : Progress t s q) (hc : Calls s t q (nothing (α := Bool)))
    (hl : ∀ c, l ≠ .step t c) (hb : Blocking s l) (hs : (system T (syncImpl X)).next s l = some s') :
    Asking s'.sh t q := by
  obtain ⟨⟨ms, ⟨ct, hi⟩, hT⟩, ha⟩ := hp
  have hlock : s.sh.lock = some t → s'.sh.lock = some t := by
    intro h
    rcases next_shared hs with ⟨rs, w, ps, hsh⟩ | ⟨u, c, e, r, rfl, -, hstep⟩ | ⟨u, rfl, -⟩
    · rw [hsh]
      exact h
    · exact lock_perform h (fun e => hl c (by rw [e])) hstep
    · exact hb.elim
  cases ha with
  | usable => exact .usable
  | lock => exact .lock
  | slot h => exact .slot (hlock h)
  | active h hslot =>
    have hm := at_loadActive hi hT ⟨_, _, hc⟩ h
    refine .active (hlock h) ?_
    rcases next_shared hs with ⟨rs, w, ps, hsh⟩ | ⟨u, c, e, r, rfl, hat, hstep⟩ | ⟨u, rfl, -⟩
    · rw [hsh]
      exact hslot
    · exact slot_perform hi hm hslot (fun e => hl c (by rw [e])) (Threads.typed_at hT hat r) hstep
    · exact hb.elim
  | unlock h => exact .unlock (hlock h)
  | found => exact .found

/-- A call that has not returned can go on, or waits for the mutex. -/
theorem Progress.live (hp : Progress t s q) (hc : Calls s t q (nothing (α := Bool))) :
    q = pure true ∨ (∀ c, ∃ s', (system T (syncImpl X)).next s (.step t c) = some s') ∨
      ∃ u, u ≠ t ∧ s.sh.lock = some u := by
  obtain ⟨⟨ms, ⟨ct, hi⟩, hT⟩, ha⟩ := hp
  have hgo : ∀ {e d} {k : e.Ret → Io Out}, s.th t = some (.act e d k) →
      (∀ c, ∃ x, perform s.sh t e c = some x) →
      ∀ c, ∃ s', (system T (syncImpl X)).next s (.step t c) = some s' := by
    intro e d k hth h c
    obtain ⟨x, hx⟩ := h c
    refine ⟨⟨x.1, Function.update s.th t (some (k x.2))⟩, ?_⟩
    simp only [Threads.next, hth]
    show (perform s.sh t e c).map _ = _
    rw [hx]
    rfl
  cases ha with
  | usable => exact .inr (.inl (hgo hc fun c => ⟨_, rfl⟩))
  | lock =>
    cases hlock : s.sh.lock with
    | none => exact .inr (.inl (hgo hc fun c => ⟨_, by simp [perform, hlock]; rfl⟩))
    | some u =>
      refine .inr (.inr ⟨u, fun e => ?_, rfl⟩)
      subst e
      exact at_lock hi hT ⟨_, _, hc⟩ hlock
  | slot hl => exact .inr (.inl (hgo hc fun c => ⟨_, rfl⟩))
  | active hl hs => exact .inr (.inl (hgo hc fun c => ⟨_, rfl⟩))
  | unlock hl => exact .inr (.inl (hgo hc fun c => ⟨_, by simp [perform, hl]; rfl⟩))
  | found => exact .inl rfl

omit [DecidableEq T] in
/-- A call that has seen nothing amiss is on its way to `true`. -/
theorem Asking.answers (ha : Asking sh t q) : ∃ rest, q.Yields rest true := by
  have hfound : (pure true : Io Bool).Yields [] true := ⟨rfl, rfl⟩
  have hunlock : ∃ rest, (do FtpFs.unlock; pure true : Io Bool).Yields rest true :=
    ⟨_, (), [], rfl, hfound⟩
  have hslot : ∃ rest, checkSlot.Yields rest true := by
    obtain ⟨rest, h⟩ := hunlock
    exact ⟨_, some 0, rest, rfl, h⟩
  have hlock : ∃ rest, (do FtpFs.lock; checkSlot : Io Bool).Yields rest true := by
    obtain ⟨rest, h⟩ := hslot
    exact ⟨_, (), rest, rfl, h⟩
  cases ha with
  | usable =>
    obtain ⟨rest, h⟩ := hlock
    exact ⟨_, true, rest, rfl, h⟩
  | lock => exact hlock
  | slot => exact hslot
  | active =>
    obtain ⟨rest, h⟩ := hunlock
    exact ⟨_, true, rest, rfl, h⟩
  | unlock => exact hunlock
  | found => exact ⟨[], hfound⟩

theorem within_isConnected : Prog.Within 5 FtpFs.isConnected := by
  intro usable
  cases usable with
  | false => trivial
  | true =>
    intro _ slot
    cases slot with
    | some h => exact fun _ => trivial
    | none => exact fun _ _ => trivial

/-- What a run of others has made of a call of `t` on `is_connected`. -/
structure Steady (X : Ext) (t : T) (s s' : Config T) (ls : List (Label T)) : Prop where
  /-- The call does not answer `false`... -/
  answer : ∀ b, FtpFs.isConnected.Yields ((system T (syncImpl X)).trace t s ls) b → b = true
  /-- ... and answers within five steps of its own... -/
  short : ((system T (syncImpl X)).trace t s ls).length ≤ 5
  /-- ... each of which it can take, unless it has to wait for the mutex. -/
  live : FtpFs.isConnected.Yields ((system T (syncImpl X)).trace t s ls) true ∨
    (∀ c, ∃ s'', (system T (syncImpl X)).next s' (.step t c) = some s'') ∨
      ∃ u, u ≠ t ∧ s'.sh.lock = some u

/-- **`is_connected` is stable under listings**, and under anything else that
callers do beside it. -/
theorem is_connected_stable (X : Ext) {slot : Option Conn} {s s₁ s₂ : Config T} {ls : List (Label T)}
    (hr : (runs (syncImpl X) slot Blocking).Reachable s)
    (hcall : (runs (syncImpl X) slot Blocking).step s (.launch t (.op .isConnected)) s₁)
    (hrun : (runs (syncImpl X) slot (During t)).Run s₁ ls s₂) : Steady X t s₁ s₂ ls := by
  have hcalls : Calls s₁ t FtpFs.isConnected (nothing (α := Bool)) := by
    obtain ⟨hs, -⟩ := hcall
    simp only [Threads.next] at hs
    split at hs
    · obtain ⟨⟨sh, p⟩, hl, rfl⟩ := Option.map_eq_some_iff.mp hs
      simp only [system, launch] at hl
      split at hl
      · cases hl
        exact Function.update_self ..
      · cases hl
    · cases hs
  have hinv₁ := reachable_inv (sync_keeping X) blocking_permits (hr.run (.cons hcall (.nil s₁)))
  have hstep := (inductive_inv (sync_keeping X) (during_permits t) slot).step
  obtain ⟨q, hafter, hc, hp⟩ := Threads.run_call (I := Progress t) (fun s h => h.2.1 rfl) (fun s h => h.1)
    (fun s q l s' hp hc hl hs => ⟨hstep s l s' hp.1 hs, asking_other X hp hc hl hs.2.1 hs.1⟩)
    (fun s c s' e d k r hp hc hstep' hs => ⟨hstep s _ s' hp.1 hs, asking_own hp hc hs.2.2.2 hstep'⟩)
    hrun hcalls ⟨hinv₁, .usable⟩
  refine ⟨fun b hb => ?_, hafter.length_le within_isConnected, ?_⟩
  · obtain ⟨rest, hrest⟩ := hp.2.answers
    exact (hb.unique (hafter.yields hrest) (List.append_nil _).symm).2
  · rcases hp.live X hc with rfl | hlive
    · have hend : (pure true : Io Bool).Yields [] true := ⟨rfl, rfl⟩
      have := hafter.yields hend
      rw [List.append_nil] at this
      exact .inl this
    · exact .inr hlive

def during (t : Bool) (s : Config Bool) (l : Label Bool) : Bool :=
  blocking s l && (match l with | .retire u => u != t | _ => true) &&
    (s.sh.slot.isSome || !s.sh.held.isEmpty) && s.sh.usable

theorem during_of {t : Bool} (s : Config Bool) (l : Label Bool) (h : during t s l = true) :
    During t s l := by
  simp only [during, Bool.and_eq_true] at h
  obtain ⟨⟨⟨hb, hl⟩, hs⟩, hu⟩ := h
  refine ⟨blocking_of s l hb, ?_, ?_, hu⟩
  · rintro rfl
    simp at hl
  · rcases Bool.or_eq_true_iff.mp hs with hs | hs
    · exact .inl fun h => by rw [h] at hs; cases hs
    · exact .inr fun h => by rw [h] at hs; cases hs

/-- The other thread has the stream out for a listing all along. -/
def listingRun : List (Label Bool) :=
  steps true 1 {} ++ steps false 3 {} ++ steps true 4 {}

theorem is_connected_stable_listing : ∃ s s₁ s₂,
    play (syncImpl plainExt) blocking
      (.launch false (.op (.listDir "/".toList)) :: steps false 7 {}) = some s ∧
    (system Bool (syncImpl plainExt)).next s (.launch true (.op .isConnected)) = some s₁ ∧
    LTS.exec (system Bool (syncImpl plainExt)).next (during true) s₁ listingRun = some s₂ ∧
    Steady plainExt true s₁ s₂ listingRun ∧ s₁.sh.slot = none ∧ s₂.sh.slot = none := by
  obtain ⟨s, hs⟩ := Option.isSome_iff_exists.mp
    (show (play (syncImpl plainExt) blocking
      (.launch false (.op (.listDir "/".toList)) :: steps false 7 {})).isSome = true by decide)
  have hr := reachable_of_play blocking_of hs
  cases hs
  refine ⟨_, _, _, rfl, rfl, rfl, is_connected_stable plainExt hr ⟨rfl, trivial⟩
    (LTS.run_of_exec (fun s l s' hok hs =>
      (⟨hs, during_of s l hok⟩ : (runs (syncImpl plainExt) (some 0) (During true)).step s l s')) rfl),
    rfl, rfl⟩

end RemotefsFtp.L5
