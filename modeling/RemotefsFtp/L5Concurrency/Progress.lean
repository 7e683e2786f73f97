import RemotefsFtp.L5Concurrency.Bookkeeping

/-!
# What both clients can count on

The invariant says where the control stream is and who holds the mutex. Here it
is read, in every state that any interleaving of either client reaches, as what
a caller sees of it. Futures of the Tokio client may be dropped anywhere.

Results:
* **`no_deadlock`**: who holds the mutex can go on, whatever the environment
  answers, and nobody else waits for anything but the mutex.
* **`single_stream`**: there is at most one control stream, every call is on
  it, and a new one is opened when there is none.
* **`unusable_until_emptied`**: `connection_usable` goes up again only after
  `connect` or `disconnect` has emptied the slot.
-/
namespace RemotefsFtp.L5

open L2 L3
open Core (LTS Threads Typestate Next)
open Core.Threads (State Lbl Typed)
open Mode (Done)

/-! ## Either client -/

inductive Kind where
  | blocking
  | tokio
  deriving DecidableEq

def Kind.impl (X : Ext) : Kind → Impl
  | blocking => syncImpl X
  | tokio => tokioImpl X

variable {T : Type} {k : Kind} {v : Variant} {sh sh' : Shared T} {s s' : Config T} {ms : T → Mode}
  {t : T} {h : Conn}

/-- What may happen: blocking operations are not dropped midway. -/
def Kind.Permits : Kind → Config T → Label T → Prop
  | blocking => Blocking
  | tokio => fun _ _ => True

/-- Modes that say what each thread may do next. -/
structure Guided (v : Variant) (sh : Shared T) (s : Config T) (ms : T → Mode) : Prop where
  inv : ∃ ct, Inv v sh ms ct
  idle : ∀ t, s.th t = none → ms t = .idle
  done : ∀ t o, s.th t = some (.ret o) → Done o (ms t)
  sound : ∀ t, s.th t ≠ some .panic
  step : ∀ t e, s.At t e → ∀ r, (ms t).next v e r ≠ .stop

variable [DecidableEq T]

/-- Every reachable state has such modes; the invariant is that of the state
but for who was dropped. -/
theorem guided (X : Ext) {slot : Option Conn}
    (hr : (runs (k.impl X) slot k.Permits).Reachable s) :
    ∃ v c ms, Guided v { s.sh with cancelled := c } s ms := by
  cases k with
  | blocking =>
    obtain ⟨ms, hi, hT⟩ := reachable_inv (sync_keeping X) blocking_permits hr
    refine ⟨.strict, s.sh.cancelled, ms, hi, fun t ht => ?_, fun t o ht => ?_, fun t ht => ?_,
      fun t e ha r => Threads.typed_at hT ha r⟩
    · have := hT t
      rwa [ht] at this
    · have := hT t
      rwa [ht] at this
    · have := hT t
      rw [ht] at this
      exact this
  | tokio =>
    obtain ⟨ms, hJ, hT⟩ := reachable_booked (b := false) X (fun h => nomatch h) hr
    refine ⟨.cancel, fun _ => false, Prod.fst ∘ ms, hJ.inv, fun t ht => ?_, fun t o ht => ?_,
      fun t ht => ?_, fun t e ha r => (Next.both_ne_stop.mp (Threads.typed_at hT ha r)).1⟩
    · have := hT t
      rw [ht] at this
      show (ms t).1 = _
      rw [this]
    · have := hT t
      rw [ht] at this
      exact this.1
    · have := hT t
      rw [ht] at this
      exact this

/-! ## Nobody is stuck -/

omit [DecidableEq T] in
theorem onLock_of_locks {m : Mode} (hl : m.locks = true) (hg : m ≠ .gone) : m.next v .lock () = .stop := by
  rw [Mode.next, if_neg hg]
  cases m with
  | sec p | busy p | bld p | data p | fini p => cases p <;> first | rfl | cases hl
  | uq lk | un lk | uh lk | uPut lk => cases lk <;> first | rfl | cases hl
  | _ => first | rfl | cases hl

omit [DecidableEq T] in
theorem locks_of_onUnlock {m : Mode} (hn : m.next v .unlock () ≠ .stop) (hg : m ≠ .gone) : m.locks = true := by
  cases m with
  | sec p | busy p | bld p | data p | fini p => cases p <;> simp [Mode.locks] at hn ⊢
  | uq lk | un lk | uh lk | uPut lk => cases lk <;> simp [Mode.locks] at hn ⊢
  | gone => exact absurd rfl hg
  | _ => simp [Mode.locks] at hn ⊢

omit [DecidableEq T] in
/-- An operation that is over holds nothing. -/
theorem not_locks_of_done {m : Mode} {o : Out} (hd : Done o m) : m.locks = false := by
  cases o with
  | stream s =>
    obtain ⟨h, -, rfl⟩ := hd
    rfl
  | done =>
    cases m with
    | uq lk | un lk | uPut lk => cases lk <;> simp_all [Done, Mode.locks]
    | _ => simp_all [Done, Mode.locks]

/-- Only the mutex makes a step wait. -/
theorem perform_total (sh : Shared T) (t : T) (e : Eff) (o : Oracle) (hl : e = .lock → sh.lock = none)
    (hu : e = .unlock → sh.lock = some t) : ∃ x, perform sh t e o = some x := by
  cases e with
  | lock => exact ⟨_, if_pos (hl rfl)⟩
  | unlock => exact ⟨_, if_pos (hu rfl)⟩
  | builder h =>
    by_cases hb : (sh.hasBuilder h && o.builderFails) = true
    · exact ⟨_, if_pos hb⟩
    · exact ⟨_, if_neg hb⟩
  | connect host port =>
    simp only [perform]
    split
    · exact ⟨_, rfl⟩
    · exact ⟨_, rfl⟩
  | _ => exact ⟨_, rfl⟩

/-- `t` can take its next step, whatever the environment answers. -/
def Ready (I : Impl) (s : Config T) (t : T) : Prop := ∀ c, ∃ s', (system T I).next s (.step t c) = some s'

theorem ready_of_at {I : Impl} {e : Eff} (ha : s.At t e) (hl : e = .lock → s.sh.lock = none)
    (hu : e = .unlock → s.sh.lock = some t) : Ready I s t := by
  intro c
  obtain ⟨d, k, hth⟩ := ha
  obtain ⟨x, hx⟩ := perform_total s.sh t e c hl hu
  refine ⟨⟨x.1, Function.update s.th t (some (k x.2))⟩, ?_⟩
  simp only [Threads.next, hth]
  show Option.map _ (perform s.sh t e c) = _
  rw [hx]
  rfl

/-- Nobody waits for ever. -/
structure Live (I : Impl) (s : Config T) : Prop where
  /-- Who holds the mutex can go on. -/
  owner : ∀ t, s.sh.lock = some t → Ready I s t
  /-- An operation can go on or end, unless it waits for another that holds the
  mutex. -/
  others : ∀ t, s.th t ≠ none → Ready I s t ∨ (∃ s', (system T I).next s (.retire t) = some s') ∨
    s.At t .lock ∧ ∃ u, u ≠ t ∧ s.sh.lock = some u

/-- **No deadlock**, of either client, in any interleaving. -/
theorem no_deadlock (X : Ext) (k : Kind) {slot : Option Conn} {s : Config T}
    (hr : (runs (k.impl X) slot k.Permits).Reachable s) : Live (k.impl X) s := by
  obtain ⟨v, c, ms, hg⟩ := guided X hr
  obtain ⟨ct, hi⟩ := hg.inv
  have hlocked : ∀ t, (ms t).locks = true ↔ s.sh.lock = some t := hi.locked
  refine ⟨fun t hl => ?_, fun t ht => ?_⟩
  · have hm := (hlocked t).mpr hl
    cases hth : s.th t with
    | none =>
      rw [hg.idle t hth] at hm
      cases hm
    | some p =>
      cases p with
      | ret o =>
        rw [not_locks_of_done (hg.done t o hth)] at hm
        cases hm
      | panic => exact absurd hth (hg.sound t)
      | act e d q =>
        have ha : s.At t e := ⟨d, q, hth⟩
        refine ready_of_at ha (fun he => ?_) fun _ => hl
        subst he
        exact absurd (onLock_of_locks hm hi.not_gone) (hg.step t _ ha ())
  · cases hth : s.th t with
    | none => exact absurd hth ht
    | some p =>
      cases p with
      | ret o =>
        refine .inr (.inl ⟨⟨retire s.sh t o, Function.update s.th t none⟩, ?_⟩)
        simp only [Threads.next, hth]
        rfl
      | panic => exact absurd hth (hg.sound t)
      | act e d q =>
        have ha : s.At t e := ⟨d, q, hth⟩
        have hunlock : e = .unlock → s.sh.lock = some t := by
          rintro rfl
          exact (hlocked t).mp (locks_of_onUnlock (hg.step t _ ha ()) hi.not_gone)
        by_cases hwait : e = .lock ∧ s.sh.lock ≠ none
        · obtain ⟨rfl, hne⟩ := hwait
          obtain ⟨u, hu⟩ := Option.ne_none_iff_exists'.mp hne
          refine .inr (.inr ⟨ha, u, ?_, hu⟩)
          rintro rfl
          exact absurd (onLock_of_locks ((hlocked u).mpr hu) hi.not_gone) (hg.step u _ ha ())
        · exact .inl (ready_of_at ha (fun he => by_contra fun hne => hwait ⟨he, hne⟩) hunlock)

/-- One task drops its command while it holds the mutex, another waits for it. -/
def waitRun : List (Label Bool) :=
  [.launch false (.op (.exec "NOOP".toList))] ++ steps false 6 {} ++
    [.launch true (.op (.exec "NOOP".toList)), .drop false]

theorem no_deadlock_waiting : ∃ s, play (tokioImpl plainExt) (fun _ _ => true) waitRun = some s ∧
    Live (tokioImpl plainExt) s ∧ s.sh.lock = some false ∧ s.At true .lock := by
  obtain ⟨s, hs⟩ := Option.isSome_iff_exists.mp
    (show (play (tokioImpl plainExt) (fun _ _ => true) waitRun).isSome = true by decide)
  refine ⟨s, hs, no_deadlock plainExt .tokio (reachable_of_play (fun _ _ _ => trivial) hs), ?_⟩
  cases hs
  exact ⟨rfl, _, _, rfl⟩

/-! ## One control stream -/

/-- The control stream a step is on, or whose transfer it is on. -/
def control : Eff → Option Conn
  | .put h | .close h | .send h _ | .builder h | .recv h _ | .read h _ | .copyTake h _ | .copyAll h
  | .readToEnd h | .write h _ | .flush h _ | .finish h | .dropTransfer h => some h
  | _ => none

theorem spot_cases (p : Place) (h : Conn) : p.spot h = .slot h ∨ p.spot h = .hand h := by
  cases p with
  | locked => exact .inl rfl
  | exclusive | unique => exact .inr rfl

omit [DecidableEq T] in
theorem next_control {m : Mode} {e : Eff} (r : e.Ret) (he : control e = some h)
    (hn : m.next v e r ≠ .stop) (hg : m ≠ .gone) :
    m.uses = true ∧ (m.spot = .slot h ∨ m.spot = .hand h) := by
  unfold Mode.next at hn
  rw [if_neg hg] at hn
  cases e <;> cases he <;> dsimp only at hn
  all_goals
    simp only [Mode.onPut, Mode.onClose, Mode.onSend, Mode.onBuilder, Mode.onRecv, Mode.onUse, Mode.onDrain,
      Mode.onReadToEnd, Mode.onFinish, Mode.onDropTransfer] at hn
    repeat' split at hn
  all_goals first | exact absurd rfl hn | skip
  all_goals simp_all [Mode.uses, Mode.spot, spot_cases]

omit [DecidableEq T] in
/-- The control stream is in one place, or there is none. -/
theorem Inv.single {ct : Token T} (hi : Inv v sh ms ct) : (sh.slot.toList ++ sh.held).length ≤ 1 := by
  have hspot : ∀ {p : Spot}, p.Ok sh → (sh.slot.toList ++ sh.held).length ≤ 1 := by
    intro p hp
    cases p with
    | slot h | hand h | nowhere => simp [hp.1, hp.2]
    | unmoved =>
      have hp : sh.held = [] := hp
      rw [hp]
      cases sh.slot <;> simp
  cases hct : ct with
  | nobody => exact hspot (p := .unmoved) (hi.free hct).held
  | pooled =>
    obtain ⟨_, _, hp⟩ := hi.pooled hct
    exact hspot hp.spot
  | thread t => exact hspot (hi.holds t hct).spot

/-- One control stream, and calls on it only. -/
structure Single (s : Config T) : Prop where
  one : (s.sh.slot.toList ++ s.sh.held).length ≤ 1
  /-- No call is made on a control stream that was replaced or closed... -/
  there : ∀ t e h, s.At t e → control e = some h → h ∈ s.sh.slot.toList ++ s.sh.held
  /-- ... and none is opened beside another. -/
  opens : ∀ t hostname port, s.At t (.connect hostname port) → s.sh.slot.toList ++ s.sh.held = []
  /-- Between operations a stream is in the slot or closed. -/
  rest : (∀ t, s.th t = none) → s.sh.held = []

/-- **One control stream**, of either client, in any interleaving. -/
theorem single_stream (X : Ext) (k : Kind) {slot : Option Conn} {s : Config T}
    (hr : (runs (k.impl X) slot k.Permits).Reachable s) : Single s := by
  obtain ⟨v, c, ms, hg⟩ := guided X hr
  obtain ⟨ct, hi⟩ := hg.inv
  refine ⟨hi.single, fun t e h ha he => ?_, fun t hostname port ha => ?_, fun hth => ?_⟩
  · obtain ⟨r⟩ := ret_nonempty e
    obtain ⟨hu, hspot⟩ := next_control r he (hg.step t e ha r) hi.not_gone
    have hok := (hi.holds t (hi.user hu)).spot
    rcases hspot with hs | hs
    · rw [hs] at hok
      have hslot : s.sh.slot = some h := hok.1
      simp [hslot]
    · rw [hs] at hok
      have hheld : s.sh.held = [h] := hok.2
      simp [hheld]
  · have hn := hg.step t _ ha (.error .badResponse)
    have hng := hi.not_gone (t := t)
    cases hm : ms t with
    | un lk =>
      have hok := (hi.holds t (hi.user (by rw [hm]; rfl))).spot
      rw [hm] at hok
      have hslot : s.sh.slot = none := hok.1
      have hheld : s.sh.held = [] := hok.2
      rw [hslot, hheld]
      rfl
    | _ => simp [hm] at hn hng
  · have hms : ∀ t, (ms t).uses = false := fun t => by rw [hg.idle t (hth t)]; rfl
    cases hct : ct with
    | nobody => exact (hi.free hct).held
    | pooled =>
      obtain ⟨_, _, hp⟩ := hi.pooled hct
      exact hp.spot.2
    | thread t =>
      have := (hi.token t).mpr hct
      rw [hms t] at this
      cases this

/-- A reconnect is about to close the old stream, which it holds. -/
def closeRun : List (Label Bool) :=
  [.launch false (.op (.exec "NOOP".toList))] ++
    steps false 9 { reply := .error (.connectionError (.other 0)) } ++
    [.retire false, .launch true (.op (.connect { hostname := [], port := 21 }))] ++ steps true 4 {}

theorem single_stream_closing : ∃ s, play (tokioImpl plainExt) (fun _ _ => true) closeRun = some s ∧
    Single s ∧ s.sh.held = [0] ∧ s.At true (.close 0) := by
  obtain ⟨s, hs⟩ := Option.isSome_iff_exists.mp
    (show (play (tokioImpl plainExt) (fun _ _ => true) closeRun).isSome = true by decide)
  refine ⟨s, hs, single_stream plainExt .tokio (reachable_of_play (fun _ _ _ => trivial) hs), ?_⟩
  cases hs
  exact ⟨rfl, _, _, rfl⟩

/-! ## Lost until replaced -/

theorem perform_rearms {e : Eff} {o : Oracle} {r : e.Ret} (hp : perform sh t e o = some (sh', r))
    (hu : sh.usable = false) (hu' : sh'.usable = true) : e = .storeUsable true := by
  have hfail : ∀ {ε α : Type} (sh : Shared T) h (r : Except ε α),
      (sh.failing h r).usable = sh.usable := by
    intro ε α sh h r
    cases r <;> rfl
  have hsame (h : sh'.usable = sh.usable) : e = .storeUsable true := by
    rw [h, hu] at hu'
    cases hu'
  cases e with
  | storeUsable b =>
    cases hp
    obtain rfl : b = true := hu'
    rfl
  | copyAll h | readToEnd h => cases hp; exact hsame (hfail _ _ _)
  | finish h => cases hp; exact hsame (hfail _ _ _)
  | flush h cleanup =>
    cases cleanup with
    | false => cases hp; exact hsame rfl
    | true => cases hp; exact hsame (hfail _ _ _)
  | connect host port | builder h =>
    simp only [perform] at hp
    split at hp <;> cases hp <;> exact hsame rfl
  | lock | unlock =>
    simp only [perform] at hp
    split at hp
    · cases hp; exact hsame rfl
    · cases hp
  | _ => cases hp; exact hsame rfl

/-- The flag goes up only by an operation on `&mut self` that emptied the slot. -/
theorem rearmed_empty (X : Ext) {slot : Option Conn} {l : Label T}
    (hr : (runs (k.impl X) slot k.Permits).Reachable s) (hs : (system T (k.impl X)).next s l = some s')
    (hu : s.sh.usable = false) (hu' : s'.sh.usable = true) :
    ∃ t, s.sh.writer = some t ∧ s.sh.slot = none := by
  rcases next_shared hs with ⟨rs, w, ps, hsh⟩ | ⟨t, c, e, r, -, ha, hp⟩ | ⟨t, -, hsh⟩
  · rw [hsh] at hu'
    exact absurd hu' (by simp [hu])
  · obtain rfl := perform_rearms hp hu hu'
    obtain ⟨v, c, ms, hg⟩ := guided X hr
    obtain ⟨ct, hi⟩ := hg.inv
    have hn := hg.step t _ ha ()
    have hng := hi.not_gone (t := t)
    have hwriter : (ms t).isUnique = true → s.sh.writer = some t := (hi.borrowed.writer t).mp
    refine ⟨t, ?_⟩
    cases hm : ms t with
    | un lk =>
      have hok := (hi.holds t (hi.user (by rw [hm]; rfl))).spot
      rw [hm] at hok
      exact ⟨hwriter (by rw [hm]; rfl), hok.1⟩
    | uh lk h ok =>
      have hok := (hi.holds t (hi.user (by rw [hm]; rfl))).spot
      rw [hm] at hok
      exact ⟨hwriter (by rw [hm]; rfl), hok.1⟩
    | _ => simp [hm] at hn hng
  · have hcut : (cut s.sh t).usable = s.sh.usable := by
      unfold cut
      split
      · split <;> rfl
      · rfl
    rw [hsh, hcut, hu] at hu'
    cases hu'

/-- No operation on `&mut self` has emptied the slot. -/
def Installed (k : Kind) (s : Config T) (l : Label T) : Prop :=
  k.Permits s l ∧ (s.sh.writer = none ∨ s.sh.slot ≠ none)

/-- **Unusable until replaced**: from any reachable state of either client, as
long as no `connect` or `disconnect` has taken the control stream out, no step
of anyone makes it usable again. -/
theorem unusable_until_emptied (X : Ext) (k : Kind) {slot : Option Conn} {s s' : Config T}
    {ls : List (Label T)} (hr : (runs (k.impl X) slot k.Permits).Reachable s)
    (hrun : (runs (k.impl X) slot (Installed k)).Run s ls s') (hu : s.sh.usable = false) :
    s'.sh.usable = false := by
  induction hrun with
  | nil => exact hu
  | cons hstep hrest ih =>
    obtain ⟨hs, hok, hkept⟩ := hstep
    refine ih (hr.run (.cons ⟨hs, hok⟩ (.nil _))) ?_
    by_contra hne
    obtain ⟨t, hw, hslot⟩ := rearmed_empty X hr hs hu (by simpa using hne)
    rcases hkept with hkept | hkept
    · rw [hw] at hkept
      cases hkept
    · exact hkept hslot

def installed (s : Config Bool) (l : Label Bool) : Bool :=
  blocking s l && (s.sh.writer.isNone || s.sh.slot.isSome)

theorem installed_of (s : Config Bool) (l : Label Bool) (h : installed s l = true) :
    Installed .blocking s l := by
  obtain ⟨hb, hs⟩ := Bool.and_eq_true_iff.mp h
  refine ⟨blocking_of s l hb, ?_⟩
  rcases Bool.or_eq_true_iff.mp hs with hs | hs
  · exact .inl (by simpa using hs)
  · exact .inr fun h => by rw [h] at hs; cases hs

/-- A command is refused, and `connect` starts, before it takes the old stream. -/
def refusedRun : List (Label Bool) :=
  [.launch true (.op (.exec "NOOP".toList))] ++ steps true 4 {} ++
    [.retire true, .launch true (.op (.connect { hostname := [], port := 21 }))] ++ steps true 3 {}

/-- A command lost the connection. -/
def lostPrefix : List (Label Bool) :=
  [.launch false (.op (.exec "NOOP".toList))] ++
    steps false 8 { reply := .error (.connectionError (.other 0)) } ++ [.retire false]

theorem unusable_until_emptied_refused : ∃ s s',
    play (syncImpl plainExt) blocking lostPrefix = some s ∧
    LTS.exec (system Bool (syncImpl plainExt)).next installed s refusedRun = some s' ∧
    s.sh.usable = false ∧ s'.sh.usable = false := by
  obtain ⟨s, hs⟩ := Option.isSome_iff_exists.mp
    (show (play (syncImpl plainExt) blocking lostPrefix).isSome = true by decide)
  have hr := reachable_of_play blocking_of hs
  have hu : (play (syncImpl plainExt) blocking lostPrefix).any (fun s => s.sh.usable = false) = true := by decide
  have hrun : ((play (syncImpl plainExt) blocking lostPrefix).bind fun s =>
      LTS.exec (system Bool (syncImpl plainExt)).next installed s refusedRun).isSome = true := by decide
  rw [hs] at hu hrun
  obtain ⟨s', hs'⟩ := Option.isSome_iff_exists.mp hrun
  have hlost : s.sh.usable = false := of_decide_eq_true hu
  have hstep : ∀ s l s', installed s l = true → (system Bool (syncImpl plainExt)).next s l = some s' →
      (runs (syncImpl plainExt) (some 0) (Installed .blocking)).step s l s' :=
    fun s l _ hok hs => ⟨hs, installed_of s l hok⟩
  exact ⟨s, s', hs, hs', hlost,
    unusable_until_emptied plainExt .blocking hr (LTS.run_of_exec hstep hs') hlost⟩

end RemotefsFtp.L5
