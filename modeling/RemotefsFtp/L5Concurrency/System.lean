import RemotefsFtp.L5Concurrency.Steps
import RemotefsFtp.L5Concurrency.SyncFollows

/-!
# Any number of threads on one client

What callers do: any thread starts an operation on a shared client, or on a
stream an operation handed out, wherever that stream is by then. A shared
operation runs beside other shared ones, `connect` and `disconnect` run alone
with the client, as `&self` and `&mut self` have it; a stream borrows nothing.

Results:
* **`reachable_inv`**: whatever both clients' programs do, the invariant holds
  in every state that any interleaving reaches.
-/
namespace RemotefsFtp.L5

open L2 L3
open Core (LTS Threads Typestate Prog)
open Core.Threads (State Lbl Typed Keeps)
open Mode (Done)

/-- The programs of a client. -/
structure Impl where
  run : Op → Io Out
  runStream : OwnedStream → StreamOp → Option (Io Out)

def syncImpl (X : Ext) : Impl := ⟨FtpFs.run X, FtpFs.runStream X⟩

def tokioImpl (X : Ext) : Impl := ⟨TokioFtpFs.run X, TokioFtpFs.runStream X⟩

/-- What a thread starts: an operation on the client, or one on the `i`-th
stream that callers hold. -/
inductive Launch where
  | op (op : Op)
  | stream (i : Nat) (op : StreamOp)

variable {T : Type} {v : Variant} {sh : Shared T} {ms : T → Mode} {ct : Token T} {t : T} {m m' : Mode}

theorem Free.of_rest (hheld : sh.held = []) (hg : sh.guards = 0) (hl : sh.listing = 0)
    (hs : Settled sh) (hr : Rest v sh) : Free v sh ms :=
  ⟨hheld, hg, hl, hs, fun h hslot => ⟨(hr h hslot).1, fun hb => .inl ((hr h hslot).2 hb)⟩⟩

variable [DecidableEq T]

/-- Starting, by the rules of borrowing. -/
def launch (I : Impl) (sh : Shared T) (t : T) : Launch → Option (Shared T × Io Out)
  | .op op =>
    if sh.writer = none then
      if op.isMut then
        if sh.readers = [] then some ({ sh with writer := some t }, I.run op) else none
      else some ({ sh with readers := t :: sh.readers }, I.run op)
    else none
  | .stream i op =>
    match sh.pool[i]? with
    | none => none
    | some s => (I.runStream s op).map fun p => ({ sh with pool := sh.pool.eraseIdx i }, p)

/-- The end of an operation; a stream it returns is the callers'. -/
def retire (sh : Shared T) (t : T) (o : Out) : Shared T :=
  { sh with
    readers := sh.readers.erase t
    writer := if sh.writer = some t then none else sh.writer
    pool := match o with
      | .done => sh.pool
      | .stream s => s :: sh.pool }

/-- A future is dropped while its thread waits. -/
def cut (sh : Shared T) (t : T) : Shared T :=
  match sh.slot with
  | some h =>
    if sh.lock = some t then { sh with cancelled := Function.update sh.cancelled h true } else sh
  | none => sh

/-- A client and its callers. -/
def system (T : Type) [DecidableEq T] (I : Impl) : Threads ftp (Shared T) T Oracle Launch Out where
  perform := perform
  launch := launch I
  retire := retire
  cut := cut
  dropped := .done

abbrev Config (T : Type) := State ftp (Shared T) T Out
abbrev Label (T : Type) := Lbl T Oracle Launch

/-- No thread runs anything; `slot` is what `connect` installed, if it was called. -/
def Starts (slot : Option Conn) (s : Config T) : Prop :=
  (∃ builder, s.sh = (Shared.start slot).withBuilder builder) ∧ ∀ t, s.th t = none

/-- All interleavings of the labels `ok` permits. -/
abbrev runs (I : Impl) (slot : Option Conn) (ok : Config T → Label T → Prop) :
    LTS (Config T) (Label T) :=
  (system T I).lts (Starts slot) ok

/-- What one step of the system does to the shared state. -/
theorem next_shared {I : Impl} {s s' : Config T} {l : Label T} (hs : (system T I).next s l = some s') :
    (∃ rs w ps, s'.sh = { s.sh with readers := rs, writer := w, pool := ps }) ∨
      (∃ t c e r, l = .step t c ∧ s.At t e ∧ perform s.sh t e c = some (s'.sh, r)) ∨
      ∃ t, l = .drop t ∧ s'.sh = cut s.sh t := by
  cases l with
  | launch t l =>
    simp only [Threads.next] at hs
    split at hs
    · simp only [Option.map_eq_some_iff] at hs
      obtain ⟨⟨sh, p⟩, hl, rfl⟩ := hs
      left
      cases l with
      | op op =>
        simp only [system, launch] at hl
        split at hl
        · split at hl
          · split at hl
            · cases hl; exact ⟨_, _, _, rfl⟩
            · cases hl
          · cases hl; exact ⟨_, _, _, rfl⟩
        · cases hl
      | stream i op =>
        simp only [system, launch] at hl
        split at hl
        · cases hl
        · simp only [Option.map_eq_some_iff, Prod.mk.injEq] at hl
          obtain ⟨p', -, rfl, -⟩ := hl
          exact ⟨_, _, _, rfl⟩
    · cases hs
  | step t c =>
    simp only [Threads.next] at hs
    split at hs
    · rename_i e d k hth
      simp only [Option.map_eq_some_iff] at hs
      obtain ⟨⟨sh, r⟩, hp, rfl⟩ := hs
      exact .inr (.inl ⟨t, c, e, r, rfl, ⟨d, k, hth⟩, hp⟩)
    · cases hs
  | retire t =>
    simp only [Threads.next] at hs
    split at hs
    · cases hs; exact .inl ⟨_, _, _, rfl⟩
    · cases hs
  | drop t =>
    simp only [Threads.next] at hs
    split at hs
    · cases hs; exact .inr (.inr ⟨t, rfl, rfl⟩)
    · cases hs

/-- A client whose programs keep to the protocol. -/
structure Keeping (v : Variant) (I : Impl) : Prop where
  run : ∀ op, Follows v (Done .done) (I.run op) (enters op) Done
  runStream : ∀ s h op p, s.inner = some h → I.runStream s op = some p →
    Follows v (Done .done) p (.own h) Done

theorem sync_keeping (X : Ext) : Keeping .strict (syncImpl X) where
  run := Sync.run_follows X
  runStream _ _ _ _ hs hp := Sync.runStream_follows X hs hp

variable {I : Impl}

/-! ## Starting and ending -/

namespace Borrowed

theorem read (hb : Borrowed sh ms) (hw : sh.writer = none) :
    Borrowed { sh with readers := t :: sh.readers } (Function.update ms t .shr) where
  readers u hu := by
    by_cases hut : u = t
    · subst hut; exact List.mem_cons_self
    · exact List.mem_cons_of_mem _ (hb.readers u (by simpa [Function.update_of_ne hut] using hu))
  writer u := by
    by_cases hut : u = t
    · subst hut; simp [Mode.isUnique, hw]
    · simpa [Function.update_of_ne hut] using hb.writer u
  excl hne := absurd hw hne

theorem write (hb : Borrowed sh ms) (hw : sh.writer = none) (hr : sh.readers = []) :
    Borrowed { sh with writer := some t } (Function.update ms t .u0) where
  readers u hu := by
    by_cases hut : u = t
    · subst hut; simp [Mode.borrows, Mode.isUnique] at hu
    · exact hb.readers u (by simpa [Function.update_of_ne hut] using hu)
  writer u := by
    by_cases hut : u = t
    · subst hut; simp [Mode.isUnique]
    · have := hb.writer u
      rw [hw] at this
      simpa [Function.update_of_ne hut, Ne.symm hut] using this
  excl _ := hr

theorem retire (hb : Borrowed sh ms) (o : Out) :
    Borrowed (retire sh t o) (Function.update ms t .idle) where
  readers u hu := by
    by_cases hut : u = t
    · subst hut; simp [Mode.borrows] at hu
    · exact (List.mem_erase_of_ne hut).mpr
        (hb.readers u (by simpa [Function.update_of_ne hut] using hu))
  writer u := by
    have hwr := hb.writer u
    by_cases hut : u = t
    · subst hut
      by_cases hw : sh.writer = some u <;> simp [L5.retire, Mode.isUnique, hw]
    · rw [Function.update_of_ne hut, hwr]
      by_cases hw : sh.writer = some t
      · simp [L5.retire, hw, Ne.symm hut]
      · simp [L5.retire, hw]
  excl hne := by
    have : sh.writer ≠ none := fun hw => hne (by simp [L5.retire, hw])
    simp [L5.retire, hb.excl this]

end Borrowed

/-- A thread with nothing to do starts an operation. -/
theorem Inv.launchOp (hi : Inv v sh ms ct) (ht : ms t = .idle) {op : Op} {sh' : Shared T}
    {p : Io Out} (hl : launch I sh t (.op op) = some (sh', p)) :
    p = I.run op ∧ ∃ ct, Inv v sh' (Function.update ms t (enters op)) ct := by
  have hcalm : ∀ r w, Mild sh { sh with readers := r, writer := w } := fun r w =>
    ⟨⟨rfl, rfl, rfl, rfl, rfl, rfl, rfl, rfl, .inr rfl⟩, rfl, rfl⟩
  have hidle : (ms t).uses = false := by rw [ht]; rfl
  have hwin : ∀ h, ms t ≠ .win h := fun h he => by rw [ht] at he; cases he
  simp only [launch] at hl
  split at hl
  · rename_i hw
    split at hl
    · rename_i hmut
      split at hl
      · rename_i hr
        cases hl
        rw [enters, if_pos hmut]
        exact ⟨rfl, ct, hi.mild (hcalm _ _) hidle rfl (hi.locked.same (by rw [ht]; rfl) rfl)
          (hi.borrowed.write hw hr) trivial (fun h he => absurd he (hwin h)) (.inl rfl)⟩
      · cases hl
    · rename_i hmut
      cases hl
      rw [enters, if_neg hmut]
      exact ⟨rfl, ct, hi.mild (hcalm _ _) hidle rfl (hi.locked.same (by rw [ht]; rfl) rfl)
        (hi.borrowed.read hw) trivial (fun h he => absurd he (hwin h)) (.inl rfl)⟩
  · cases hl

/-- ... or takes up a stream. -/
theorem Inv.launchStream (hi : Inv v sh ms ct) (ht : ms t = .idle) {i : Nat} {op : StreamOp}
    {sh' : Shared T} {p : Io Out} (hl : launch I sh t (.stream i op) = some (sh', p)) :
    ∃ s h, s.inner = some h ∧ I.runStream s op = some p ∧
      ∃ ct, Inv v sh' (Function.update ms t (.own h)) ct := by
  simp only [launch] at hl
  split at hl
  · cases hl
  rename_i s hs
  simp only [Option.map_eq_some_iff, Prod.mk.injEq] at hl
  obtain ⟨p', hp, rfl, rfl⟩ := hl
  have hct : ct = .pooled := by
    by_contra hne
    rw [hi.pool hne] at hs
    simp at hs
  subst hct
  obtain ⟨s', h, hpool⟩ := hi.pooled rfl
  have hpl := hpool.pool
  obtain ⟨rfl, rfl⟩ : i = 0 ∧ s' = s := by
    rw [hpl] at hs
    cases i with
    | zero => exact ⟨rfl, by simpa using hs⟩
    | succ n => simp at hs
  refine ⟨s', h, hpool.inner, hp, .thread t, ?_⟩
  have hno : ∀ u, (ms u).uses = false := fun u => by
    have := hi.token u
    simpa using this
  refine ⟨hi.locked.same (by rw [ht]; rfl) rfl, fun u => ?_, fun u => ?_, fun u hu => ?_,
    fun h => (nomatch h), fun h => (nomatch h), fun _ => by simp [hpl], ?_, ?_, ?_⟩
  · by_cases hut : u = t
    · subst hut; simp [Mode.uses]
    · simp [Function.update_of_ne hut, hno u, Ne.symm hut]
  · by_cases hut : u = t
    · subst hut; simp [Knows]
    · simpa [Function.update_of_ne hut] using (hi.knows u).of_pooled
  · cases hu
    simp only [Function.update_self]
    exact ⟨⟨hpool.spot, hpool.guards, hpool.listing, hpool.wire, fun _ hb => nomatch hb⟩, hpool.grade⟩
  · have := hi.active.mpr (.inl rfl)
    simp [this, Mode.raises]
  · exact hi.borrowed.update (by simp [Mode.borrows]) (by simp [ht, Mode.isUnique]) rfl rfl
  · exact ⟨hi.fresh.slot, hi.fresh.held, hi.fresh.wire, hi.fresh.health, hi.fresh.cancelled⟩

/-- The end of an operation that leaves nothing behind. -/
theorem Inv.retireDone (hi : Inv v sh ms ct) (hd : Done .done (ms t)) :
    ∃ ct, Inv v (retire sh t .done) (Function.update ms t .idle) ct := by
  have hcalm : Calm sh (retire sh t .done) := ⟨rfl, rfl, rfl, rfl, rfl, rfl, rfl, rfl, .inr rfl⟩
  have hg := hi.not_gone (t := t)
  -- an operation on `&mut self` gives the control stream up
  have hunique : (ms t).uses = true → (ms t).locks = false → (ms t).raises = false →
      (Holds v sh t (ms t) → Free v (retire sh t .done) (Function.update ms t .idle)) →
      ∃ ct, Inv v (retire sh t .done) (Function.update ms t .idle) ct := by
    intro hu hl hr hfree
    obtain rfl := hi.user hu
    exact ⟨_, hi.release rfl (hi.locked.same (by rw [hl]; rfl) rfl) trivial (hfree (hi.holds t rfl))
      rfl (by show sh.active = false; rw [hi.active_eq, hr]) (hi.borrowed.retire .done)
      (hcalm.fresh hi.fresh)⟩
  cases hm : ms t with
  | idle | shr | uAct =>
    exact ⟨ct, hi.mild ⟨hcalm, rfl, rfl⟩ (by rw [hm]; rfl) rfl
      (hi.locked.same (by simp [hm, Mode.locks]) rfl) (hi.borrowed.retire .done) trivial (fun h he => by rw [hm] at he; cases he) (.inl rfl)⟩
  | uq lk us | uPut lk =>
    obtain rfl : lk = false := by cases lk <;> simp_all [Done]
    refine hunique (by rw [hm]; rfl) (by rw [hm]; rfl) (by rw [hm]; rfl) fun hh => ?_
    rw [hm] at hh
    exact .of_rest hh.spot hh.guards hh.listing hh.grade.1 hh.grade.2
  | un lk =>
    obtain rfl : lk = false := by cases lk <;> simp_all [Done]
    refine hunique (by rw [hm]; rfl) (by rw [hm]; rfl) (by rw [hm]; rfl) fun hh => ?_
    rw [hm] at hh
    refine .of_rest hh.spot.2 hh.guards hh.listing hh.grade fun h hs => ?_
    have := hh.spot.1.symm.trans hs
    cases this
  | _ => simp_all [Done]

/-- ... or a stream. -/
theorem Inv.retireStream (hi : Inv v sh ms ct) {s : OwnedStream} {h : Conn} (hs : s.inner = some h)
    (hm : ms t = .own h) :
    ∃ ct, Inv v (retire sh t (.stream s)) (Function.update ms t .idle) ct := by
  obtain rfl := hi.user (t := t) (by rw [hm]; rfl)
  have hh := hi.holds t rfl
  rw [hm] at hh
  have hno : ∀ u, u ≠ t → (ms u).uses = false := fun u hu => by
    have := hi.token u
    simp only [Token.thread.injEq, Ne.symm hu, iff_false] at this
    simpa using this
  refine ⟨.pooled, hi.locked.same (by rw [hm]; rfl) rfl, fun u => ?_, fun u => ?_,
    fun u hu => (nomatch hu), fun h => (nomatch h), fun _ => ⟨s, h, ⟨hh.spot, hh.guards, hh.listing,
      hh.wire, fun _ hb => nomatch hb⟩, ?_, hs, hh.grade⟩, fun h => absurd rfl h, ?_,
    hi.borrowed.retire _, ⟨hi.fresh.slot, hi.fresh.held, hi.fresh.wire, hi.fresh.health,
      hi.fresh.cancelled⟩⟩
  · by_cases hut : u = t
    · subst hut; simp [Mode.uses]
    · simp [Function.update_of_ne hut, hno u hut]
  · by_cases hut : u = t
    · subst hut; simp [Knows]
    · simpa [Function.update_of_ne hut] using (hi.knows u).of_thread
  · simp [retire, hi.pool (by simp)]
  · have := hi.active_eq
    rw [hm] at this
    simp [retire, this, Mode.raises]

/-! ## Drops -/

theorem cut_eq (h : sh.lock ≠ some t) : cut sh t = sh := by
  unfold cut
  split
  · simp [h]
  · rfl

theorem Inv.cut_self (hi : Inv .cancel sh ms ct) (hm : ms t = m) (hl : m.locks = false) :
    ∃ ct, Inv .cancel (cut sh t) (Function.update ms t m) ct := by
  have : sh.lock ≠ some t := fun h => by
    have := (hi.locked t).mpr h
    rw [hm, hl] at this
    cases this
  rw [cut_eq this, ← hm, Function.update_eq_self]
  exact ⟨ct, hi⟩

/-- A future is dropped in a section. -/
theorem Inv.cut_locked {h : Conn} (hi : Inv .cancel sh ms ct) (hu : (ms t).uses = true)
    (hl : (ms t).locks = true) (hs : (ms t).spot = .slot h) (hg : (ms t).guards = 0)
    (hli : (ms t).listing = 0) (hr : (ms t).raises = false) (hb : (ms t).borrows = true)
    (hun : (ms t).isUnique = false) :
    ∃ ct, Inv .cancel (cut sh t) (Function.update ms t (.cutting h)) ct := by
  obtain rfl := hi.user hu
  have hh := hi.holds t rfl
  have hspot := hh.spot
  rw [hs] at hspot
  obtain ⟨hslot, hheld⟩ := hspot
  have hcut : cut sh t = { sh with cancelled := Function.update sh.cancelled h true } := by
    simp [cut, hslot, (hi.locked t).mp hl]
  rw [hcut]
  refine ⟨_, hi.use rfl (hi.locked.same (by rw [hl]; rfl) rfl) ⟨⟨⟨hslot, hheld⟩, ?_, ?_,
    fun hv => (nomatch hv), fun _ hb => nomatch hb⟩, hh.grade.mine⟩ rfl
    (by show sh.active = false; rw [hi.active_eq, hr])
    (hi.borrowed.update (fun _ => hb) (by rw [hun]; rfl) rfl rfl)
    ⟨hi.fresh.slot, hi.fresh.held, hi.fresh.wire, hi.fresh.health, fun h' hn => ?_⟩⟩
  · exact hh.guards.trans hg
  · exact hh.listing.trans hli
  · have : h' ≠ h := fun e => absurd (hi.fresh.slot h hslot) (Nat.not_lt.mpr (by rw [← e]; exact hn))
    simpa [Function.update_of_ne this] using hi.fresh.cancelled h' hn

theorem Inv.cut (hi : Inv .cancel sh ms ct) (hn : (ms t).cut .cancel ≠ .stop) :
    ∃ m', (ms t).cut .cancel = .go m' ∧ ∃ ct, Inv .cancel (cut sh t) (Function.update ms t m') ct := by
  have hsec : ∀ h, (ms t).cut .cancel = .go (.cutting h) → (ms t).spot = .slot h →
      (ms t).locks = true → (ms t).uses = true → (ms t).guards = 0 → (ms t).listing = 0 →
      (ms t).raises = false → (ms t).borrows = true → (ms t).isUnique = false →
      ∃ m', (ms t).cut .cancel = .go m' ∧
        ∃ ct, Inv .cancel (L5.cut sh t) (Function.update ms t m') ct :=
    fun h hc hs hl hu hg hli hr hb hun => ⟨_, hc, hi.cut_locked hu hl hs hg hli hr hb hun⟩
  cases hm : ms t with
  | sec p h d | data p h d | fini p h d =>
    obtain rfl : p = .locked := by cases p <;> simp [hm] at hn ⊢
    rw [← hm]
    apply hsec h <;> rw [hm] <;> rfl
  | busy p h c | bld p h c =>
    cases p with
    | locked =>
      rw [← hm]
      apply hsec h <;> rw [hm] <;> rfl
    | exclusive => simp [hm] at hn
    | unique =>
      obtain rfl := hi.user (t := t) (by rw [hm]; rfl)
      have hh := hi.holds t rfl
      rw [hm] at hh
      have hlock : sh.lock ≠ some t := fun h => by
        have := (hi.locked t).mpr h
        rw [hm] at this
        cases this
      rw [cut_eq hlock]
      exact ⟨_, rfl, _, hi.use rfl (hi.locked.same (by simp [hm, Mode.locks]) rfl)
        ⟨⟨hh.spot, hh.guards, hh.listing, fun hv => (nomatch hv), fun _ hb => nomatch hb⟩,
          hh.grade.mine⟩ rfl
        (by rw [hi.active_eq, hm]; rfl)
        (hi.borrowed.update (by simp [Mode.borrows, Mode.isUnique])
          (by simp [hm, Mode.isUnique]) rfl rfl) hi.fresh⟩
  | shr | own h | fin h d => exact ⟨_, rfl, hi.cut_self hm rfl⟩
  | un lk | uh lk h ok =>
    obtain rfl : lk = false := by cases lk <;> simp [hm] at hn ⊢
    exact ⟨_, rfl, hi.cut_self hm rfl⟩
  | _ => simp [hm] at hn

/-! ## Every interleaving -/

theorem ret_nonempty (e : Eff) : Nonempty e.Ret := by
  cases e with
  | loadActive | loadUsable | loadConnected | setupTlsConnector | builder => exact ⟨true⟩
  | loadWelcome | getWelcomeMsg | slot | take => exact ⟨none⟩
  | connect | recv => exact ⟨.error .badResponse⟩
  | read | readToEnd | copyTake | copyAll | write | flush => exact ⟨.error .interrupted⟩
  | finish => exact ⟨.ok ()⟩
  | _ => exact ⟨()⟩

/-- `u` is about to record a failure after it let go of the mutex. -/
def Pending (s : Config T) (u : T) : Prop := s.At u (.storeUsable false) ∧ s.sh.lock ≠ some u

omit [DecidableEq T] in
theorem pending_of_win {s : Config T}
    (hT : Typed (protocol v) .idle Done (Done .done) s.th ms) (hi : Inv v s.sh ms ct) {u : T} {h : Conn}
    (hm : ms u = .win h) : Pending s u := by
  refine ⟨?_, fun hl => ?_⟩
  · have hf := hT u
    rw [hm] at hf
    split at hf
    · cases hf
    · rename_i p hth
      cases p with
      | ret o => cases o <;> simp [Done] at hf
      | panic => exact hf.elim
      | act e d k =>
        obtain ⟨r⟩ := ret_nonempty e
        have hr := hf.1 r
        obtain rfl : e = .storeUsable false := by
          cases e with
          | storeUsable b => cases b <;> simp at hr ⊢
          | flush h b => cases b <;> simp at hr
          | _ => simp at hr
        exact ⟨d, k, hth⟩
  · have := (hi.locked u).mpr hl
    rw [hm] at this
    cases this

/-- When `t` reads `connection_usable` as true under the mutex, nobody is
about to record what made the control stream bad. -/
def Timely (v : Variant) (s : Config T) (t : T) : Prop :=
  s.At t .loadUsable → s.sh.lock = some t → s.sh.usable = true →
    ∀ h, s.sh.slot = some h → Bad v s.sh h → ∀ u, ¬ Pending s u

/-- What is asked of a run: where the protocol lets a failure be recorded
after the mutex is released, checks are timely; where no drop is considered,
there is none. -/
structure Permits (v : Variant) (ok : Config T → Label T → Prop) : Prop where
  drop : v ≠ .cancel → ∀ s t, ¬ ok s (.drop t)
  check : v ≠ .strict → ∀ s t c, ok s (.step t c) → Timely v s t

theorem keeps_system {ok : Config T → Label T → Prop} (hI : Keeping v I) (hok : Permits v ok) :
    Keeps (system T I) (protocol v) .idle Done (fun sh ms => ∃ ct, Inv v sh ms ct) ok (Done .done) where
  launch s t l sh p ms _ hJ hm hl := by
    obtain ⟨ct, hi⟩ := hJ
    cases l with
    | op op =>
      obtain ⟨rfl, hi'⟩ := hi.launchOp hm hl
      exact ⟨_, hI.run op, hi'⟩
    | stream i op =>
      obtain ⟨s, h, hs, hp, hi'⟩ := hi.launchStream hm hl
      exact ⟨_, hI.runStream s h op p hs hp, hi'⟩
  step s t c e sh r ms hok' hat hJ hT hp hn := by
    obtain ⟨ct, hi⟩ := hJ
    refine keeps_step hi (fun he hm hu h hs hb u h' hwin => ?_) hp hn
    subst he
    have hv : v ≠ .strict := by
      have := hi.knows u
      rwa [hwin] at this
    have hl : s.sh.lock = some t := (hi.locked t).mp (by rw [hm]; rfl)
    exact hok.check hv s t c hok' hat hl hu h hs hb u (pending_of_win hT hi hwin)
  retire sh t o ms hJ hd := by
    obtain ⟨ct, hi⟩ := hJ
    cases o with
    | done => exact hi.retireDone hd
    | stream s =>
      obtain ⟨h, hs, hm⟩ := hd
      exact hi.retireStream hs hm
  drop s t ms hok' hJ hn := by
    obtain ⟨ct, hi⟩ := hJ
    by_cases hv : v = .cancel
    · subst hv; exact hi.cut hn
    · exact absurd hok' (hok.drop hv s t)
  dropped _ h := h

omit [DecidableEq T] in
theorem start_inv (slot : Option Conn) (builder : Bool) :
    Inv v ((Shared.start slot).withBuilder builder : Shared T) (fun _ => .idle) .nobody where
  locked t := by simp [Mode.locks, Shared.start, Shared.withBuilder]
  token t := by simp [Mode.uses]
  knows t := trivial
  holds t h := nomatch h
  free _ := ⟨rfl, rfl, rfl, fun _ _ _ he => (nomatch he), fun h hs =>
    ⟨fun _ => rfl, fun hb => by cases v <;> simp [Shared.start, Shared.withBuilder] at hb⟩⟩
  pooled h := nomatch h
  pool _ := rfl
  active := by simp [Shared.start, Shared.withBuilder]
  borrowed := ⟨fun t h => (nomatch h), fun t => by simp [Mode.isUnique, Shared.start, Shared.withBuilder], fun _ => rfl⟩
  fresh := by
    refine ⟨fun h hs => ?_, fun h hh => (nomatch hh), fun _ _ => rfl, fun _ _ => rfl, fun _ _ => rfl⟩
    cases slot with
    | none => cases hs
    | some h' => cases hs; exact Nat.lt_succ_self _

theorem inductive_inv {ok : Config T → Label T → Prop} (hI : Keeping v I) (hok : Permits v ok)
    (slot : Option Conn) : (runs I slot ok).Inductive fun s =>
      ∃ ms, (∃ ct, Inv v s.sh ms ct) ∧ Typed (protocol v) .idle Done (Done .done) s.th ms := by
  refine Threads.inductive_of_typestate (keeps_system hI hok) fun s hs => ?_
  obtain ⟨⟨builder, hsh⟩, hth⟩ := hs
  exact ⟨fun _ => .idle, ⟨.nobody, hsh ▸ start_inv slot builder⟩, fun t => by simp [hth t]⟩

/-- **The invariant of every interleaving.** -/
theorem reachable_inv {ok : Config T → Label T → Prop} (hI : Keeping v I) (hok : Permits v ok)
    {slot : Option Conn} {s : Config T} (hr : (runs I slot ok).Reachable s) :
    ∃ ms, (∃ ct, Inv v s.sh ms ct) ∧ Typed (protocol v) .idle Done (Done .done) s.th ms :=
  (inductive_inv hI hok slot).reachable s hr

/-! ## Runs, executed -/

/-- An environment without listings. -/
def plainExt : Ext where
  listParser := ⟨fun _ => .error .syntaxError, fun _ => .error .syntaxError⟩
  ioErrorKind _ := .protocolError
  fromUtf8Lossy bytes := bytes.map fun b => Char.ofNat b.toNat
  usizeMax := usizeMax64
  usizeMax_pos := usizeMax64_pos

/-- Two threads on a connected client, as far as `ok` holds. -/
def play (I : Impl) (ok : Config Bool → Label Bool → Bool) (ls : List (Label Bool)) :
    Option (Config Bool) :=
  LTS.exec (system Bool I).next ok ⟨.start (some 0), fun _ => none⟩ ls

theorem reachable_of_play {ok : Config Bool → Label Bool → Bool}
    {P : Config Bool → Label Bool → Prop} (hP : ∀ s l, ok s l = true → P s l)
    {ls : List (Label Bool)} {s : Config Bool} (h : play I ok ls = some s) :
    (runs I (some 0) P).Reachable s := by
  have hstep : ∀ s l s', ok s l = true → (system Bool I).next s l = some s' →
      (runs I (some 0) P).step s l s' := fun s l _ hok hs => ⟨hs, hP s l hok⟩
  exact ⟨_, ls, ⟨⟨false, rfl⟩, fun _ => rfl⟩, LTS.run_of_exec hstep h⟩

/-- `n` steps of `t`, all answered by `o`. -/
def steps (t : Bool) (n : Nat) (o : Oracle) : List (Label Bool) := List.replicate n (.step t o)

end RemotefsFtp.L5
