import RemotefsFtp.L5Concurrency.Mirror

/-!
# The bookkeeping of the Tokio client

Flags and mirrors of `TokioFtpFs` under any interleaving, any answers and any
drop. The protocol bounds what a thread does to `transfer_active`, the mirror
order what `connect` and `disconnect` do to `connected` and the banner.

Results:
* **`bookkeeping`**: while who may change them waits, `connected` tells whether
  the slot is filled and `transfer_active` whether a `TransferGuard` is alive;
  there is at most one, and no task passes the check beside it.
-/
namespace RemotefsFtp.L5

open L1 (Str)
open L2 L3
open Core (LTS Threads Typestate Prog Next)
open Core.Threads (State Lbl Typed Keeps)
open Mode (Done)

variable {T : Type} {sh sh' : Shared T} {t : T} {b : Bool} {m m' : Mirror} {s s' : Config T}

/-! ## What a mirror mode says -/

/-- The mirrors agree with the slot; with `b`, the cached banner too. -/
structure Agrees (b : Bool) (sh : Shared T) : Prop where
  connected : sh.connected = sh.slot.isSome
  welcome : b = true → sh.welcome = sh.slot.bind sh.banner

/-- What each stage of `connect` and `disconnect` has done to the slot and its mirrors. -/
def Mirror.Ok (b : Bool) (sh : Shared T) : Mirror → Prop
  | out => True
  | sync => Agrees b sh
  | emptied => sh.slot = none
  | off => sh.slot = none ∧ sh.connected = false
  | clear => sh.slot = none ∧ sh.connected = false ∧ (b = true → sh.welcome = none)
  | met h banner => sh.banner h = banner
  | told h => b = true → sh.welcome = sh.banner h
  | placed h => sh.slot = some h ∧ (b = true → sh.welcome = sh.banner h)

/-- Only who borrows the client mutably stores to the mirrors. -/
structure Mirrored (b : Bool) (sh : Shared T) (ms : T → Mirror) : Prop where
  writer : ∀ t, ms t ≠ .out → sh.writer = some t
  ok : ∀ t, (ms t).Ok b sh
  rest : (∀ t, ms t = .out) → Agrees b sh

/-- What the mirrors are about stays. -/
structure Still (sh sh' : Shared T) : Prop where
  slot : sh'.slot = sh.slot
  connected : sh'.connected = sh.connected
  welcome : sh'.welcome = sh.welcome
  banner : sh'.banner = sh.banner

theorem Still.agrees (hs : Still sh sh') (h : Agrees b sh) : Agrees b sh' where
  connected := by rw [hs.connected, hs.slot, h.connected]
  welcome hb := by rw [hs.welcome, hs.slot, hs.banner, h.welcome hb]

theorem Still.ok (hs : Still sh sh') (h : m.Ok b sh) : m.Ok b sh' := by
  cases m with
  | out => trivial
  | sync => exact hs.agrees h
  | emptied => exact hs.slot.trans h
  | off => exact ⟨hs.slot.trans h.1, hs.connected.trans h.2⟩
  | clear => exact ⟨hs.slot.trans h.1, hs.connected.trans h.2.1, fun hb => hs.welcome.trans (h.2.2 hb)⟩
  | met h' banner => exact (congrFun hs.banner h').trans h
  | told h' => exact fun hb => by rw [hs.welcome, hs.banner, h hb]
  | placed h' => exact ⟨hs.slot.trans h.1, fun hb => by rw [hs.welcome, hs.banner, h.2 hb]⟩

/-- Where either may end, the mirrors agree again. -/
theorem Mirror.Ok.agrees (h : m.Ok b sh) (he : m.Ended) (ho : m ≠ .out) : Agrees b sh := by
  rcases he with rfl | rfl | rfl
  · exact absurd rfl ho
  · exact h
  · exact ⟨by rw [h.1, h.2.1]; rfl, fun hb => by rw [h.2.2 hb, h.1]; rfl⟩

theorem failing_still {ε α : Type} (sh : Shared T) (h : Conn) (r : Except ε α) :
    Still sh (sh.failing h r) ∧ (sh.failing h r).writer = sh.writer := by
  cases r <;> exact ⟨⟨rfl, rfl, rfl, rfl⟩, rfl⟩

variable [DecidableEq T]

/-- The steps that touch what the mirrors are about, and who borrows. -/
theorem perform_still {e : Eff} {o : Oracle} {r : e.Ret} (he : Mirror.moves e = false)
    (hp : perform sh t e o = some (sh', r)) : Still sh sh' ∧ sh'.writer = sh.writer := by
  cases e with
  | take | put | storeConnected | storeWelcome | connect => cases he
  | copyAll h | readToEnd h => cases hp; exact failing_still _ _ _
  | finish h =>
    cases hp
    obtain ⟨hs, hw⟩ := failing_still (sh.setWire h .idle) h o.finished
    exact ⟨⟨hs.slot, hs.connected, hs.welcome, hs.banner⟩, hw⟩
  | flush h cleanup =>
    cases cleanup with
    | false => cases hp; exact ⟨⟨rfl, rfl, rfl, rfl⟩, rfl⟩
    | true => cases hp; exact failing_still _ _ _
  | lock | unlock | builder =>
    simp only [perform] at hp
    split at hp <;> cases hp <;> exact ⟨⟨rfl, rfl, rfl, rfl⟩, rfl⟩
  | _ => cases hp; exact ⟨⟨rfl, rfl, rfl, rfl⟩, rfl⟩

/-- The environment refuses the step. -/
def Refused : Eff → Oracle → Prop
  | .connect _ _, o => Mode.isErr o.connect = true
  | .setupTlsConnector, o => o.tls = false
  | .recv _ _, o => Mode.isErr o.reply = true
  | _, _ => False

theorem next_idle {e : Eff} {r : e.Ret} (hm : m ≠ .out) (he : idleStep e = true) : m.next e r = .go m := by
  cases e <;> first | cases he; done | exact if_neg hm

omit [DecidableEq T] in
theorem settle_ok {failed : Bool} (hok : m.Ok b sh) (hn : m.settle failed = .go m')
    (hw : b = true → m = .off → failed = true → sh.welcome = none) : m'.Ok b sh ∧ m' ≠ .out := by
  cases m with
  | sync => cases hn; exact ⟨hok, by simp⟩
  | clear => cases hn; exact ⟨hok, by simp⟩
  | off =>
    cases failed with
    | false => cases hn; exact ⟨hok, by simp⟩
    | true => cases hn; exact ⟨⟨hok.1, hok.2, fun hb => hw hb rfl rfl⟩, by simp⟩
  | _ => cases hn

/-- A step of `connect` or `disconnect`. -/
theorem Mirror.Ok.step {e : Eff} {o : Oracle} {r : e.Ret} (hok : m.Ok b sh) (hm : m ≠ .out)
    (hf : ∀ h, sh.slot = some h → h < sh.next) (hp : perform sh t e o = some (sh', r))
    (hn : m.next e r = .go m') (hw : b = true → m = .off → Refused e o → sh.welcome = none) :
    m'.Ok b sh' ∧ m' ≠ .out ∧ sh'.writer = sh.writer := by
  by_cases hidle : idleStep e = true
  · rw [next_idle hm hidle] at hn
    cases hn
    have hmoves : moves e = false := by cases e <;> first | rfl | cases hidle
    obtain ⟨hs, hwr⟩ := perform_still hmoves hp
    exact ⟨hs.ok hok, hm, hwr⟩
  · cases e with
    | take =>
      obtain ⟨rfl, rfl⟩ := Prod.mk.inj (Option.some.inj hp)
      simp only [Mirror.next, if_neg hm] at hn
      split at hn
      · rename_i hsync
        subst hsync
        cases hn
        split
        · rename_i hnone
          have hc := hok.connected
          refine ⟨⟨rfl, by simpa [hnone] using hc, fun hb => ?_⟩, by simp, rfl⟩
          have := hok.welcome hb
          rw [hnone] at this
          exact this
        · exact ⟨rfl, by simp, rfl⟩
      · cases hn
    | put h =>
      cases hp
      simp only [Mirror.next, if_neg hm] at hn
      split at hn
      · rename_i htold
        subst htold
        cases hn
        exact ⟨⟨rfl, hok⟩, by simp, rfl⟩
      · cases hn
    | storeConnected c =>
      cases hp
      cases m with
      | emptied =>
        cases c with
        | false => cases hn; exact ⟨⟨hok, rfl⟩, by simp, rfl⟩
        | true => cases hn
      | clear =>
        cases c with
        | false => cases hn; exact ⟨⟨hok.1, rfl, hok.2.2⟩, by simp, rfl⟩
        | true => cases hn
      | placed h =>
        cases c with
        | false => cases hn
        | true =>
          cases hn
          refine ⟨⟨by rw [hok.1]; rfl, fun hb => ?_⟩, by simp, rfl⟩
          show sh.welcome = sh.slot.bind sh.banner
          rw [hok.1]
          exact hok.2 hb
      | _ => cases hn
    | storeWelcome w =>
      cases hp
      cases m with
      | off =>
        simp only [Mirror.next, reduceCtorEq, if_false] at hn
        split at hn
        · cases hn; exact ⟨⟨hok.1, hok.2, fun _ => ‹_›⟩, by simp, rfl⟩
        · cases hn
      | met h w' =>
        simp only [Mirror.next, reduceCtorEq, if_false] at hn
        split at hn
        · rename_i hww
          cases hn
          exact ⟨fun _ => by rw [hww]; exact hok.symm, by simp, rfl⟩
        · cases hn
      | _ => cases hn
    | getWelcomeMsg h =>
      obtain ⟨rfl, rfl⟩ := Prod.mk.inj (Option.some.inj hp)
      cases m with
      | sync | off | clear => cases hn; exact ⟨rfl, by simp, rfl⟩
      | out => exact absurd rfl hm
      | _ => cases hn
    | connect host port =>
      simp only [perform] at hp
      simp only [Mirror.next, if_neg hm] at hn
      split at hp
      · rename_i banner hc
        cases hp
        cases m with
        | sync =>
          cases hn
          refine ⟨⟨hok.connected, fun hb => ?_⟩, by simp, rfl⟩
          show sh.welcome = sh.slot.bind (Function.update sh.banner sh.next banner)
          rw [hok.welcome hb]
          cases hslot : sh.slot with
          | none => rfl
          | some h => simp [Function.update_of_ne (Nat.ne_of_lt (hf h hslot))]
        | off | clear => cases hn; exact ⟨hok, by simp, rfl⟩
        | _ => cases hn
      · rename_i err hc
        cases hp
        obtain ⟨h1, h2⟩ := settle_ok hok hn fun hb hoff _ => hw hb hoff (by simp [Refused, hc])
        exact ⟨h1, h2, rfl⟩
    | recv h c =>
      obtain ⟨hs, hwr⟩ := perform_still rfl hp
      cases hp
      simp only [Mirror.next, if_neg hm] at hn
      obtain ⟨h1, h2⟩ := settle_ok hok hn fun hb hoff hr => hw hb hoff hr
      exact ⟨hs.ok h1, h2, hwr⟩
    | setupTlsConnector =>
      cases hp
      simp only [Mirror.next, if_neg hm] at hn
      obtain ⟨h1, h2⟩ := settle_ok hok hn fun hb hoff hr => hw hb hoff (by simpa [Refused] using hr)
      exact ⟨h1, h2, rfl⟩
    | _ => exact absurd rfl hidle

namespace Mirrored

variable {ms : T → Mirror}

omit [DecidableEq T] in
/-- Beside a thread in `connect` or `disconnect`. -/
theorem others (hM : Mirrored b sh ms) (ht : ms t ≠ .out) {u : T} (hu : u ≠ t) : ms u = .out := by
  by_contra hne
  have := (hM.writer u hne).symm.trans (hM.writer t ht)
  exact hu (Option.some.inj this)

/-- A change of what one thread knows. -/
theorem update (hM : Mirrored b sh ms) (ht : ms t ≠ .out) (hok : m'.Ok b sh') (hm : m' ≠ .out)
    (hw : sh'.writer = sh.writer) : Mirrored b sh' (Function.update ms t m') where
  writer u hu := by
    by_cases hut : u = t
    · subst hut
      exact hw.trans (hM.writer u ht)
    · rw [Function.update_of_ne hut, hM.others ht hut] at hu
      exact absurd rfl hu
  ok u := by
    by_cases hut : u = t
    · subst hut
      simpa using hok
    · rw [Function.update_of_ne hut, hM.others ht hut]
      trivial
  rest hall := by
    have := hall t
    rw [Function.update_self] at this
    exact absurd this hm

omit [DecidableEq T] in
theorem still (hM : Mirrored b sh ms) (hs : Still sh sh') (hw : ∀ u, ms u ≠ .out → sh'.writer = sh.writer) :
    Mirrored b sh' ms where
  writer u hu := (hw u hu).trans (hM.writer u hu)
  ok u := hs.ok (hM.ok u)
  rest h := hs.agrees (hM.rest h)

/-- A step of whoever borrows mutably moves its mode; a step of anyone else moves nothing
the mirrors are about. -/
theorem step {e : Eff} {o : Oracle} {r : e.Ret} (hM : Mirrored b sh ms)
    (hf : ∀ h, sh.slot = some h → h < sh.next) (hp : perform sh t e o = some (sh', r))
    (hn : (ms t).next e r = .go m') (hw : b = true → ms t = .off → Refused e o → sh.welcome = none) :
    Mirrored b sh' (Function.update ms t m') := by
  by_cases ht : ms t = .out
  · rw [ht] at hn
    cases hmoves : Mirror.moves e with
    | true => simp [hmoves] at hn
    | false =>
      obtain rfl : Mirror.out = m' := by simpa [hmoves] using hn
      obtain ⟨hs, hwr⟩ := perform_still hmoves hp
      rw [← ht, Function.update_eq_self]
      exact hM.still hs fun _ _ => hwr
  · obtain ⟨hok, hm, hwr⟩ := (hM.ok t).step ht hf hp hn hw
    exact hM.update ht hok hm hwr

/-- `connect` or `disconnect` starts. -/
theorem begin (hM : Mirrored b sh ms) (hnone : sh.writer = none) :
    Mirrored b { sh with writer := some t } (Function.update ms t .sync) where
  writer u hu := by
    by_cases hut : u = t
    · rw [hut]
    · rw [Function.update_of_ne hut] at hu
      have := hM.writer u hu
      rw [hnone] at this
      cases this
  ok u := by
    have hall : ∀ u, ms u = .out := fun u => by
      by_contra hne
      have := hM.writer u hne
      rw [hnone] at this
      cases this
    by_cases hut : u = t
    · subst hut
      rw [Function.update_self]
      exact (⟨rfl, rfl, rfl, rfl⟩ : Still sh { sh with writer := some u }).agrees (hM.rest hall)
    · rw [Function.update_of_ne hut, hall u]
      trivial
  rest hall := by
    have := hall t
    rw [Function.update_self] at this
    cases this

/-- `connect` or `disconnect` returns. -/
theorem retire (hM : Mirrored b sh ms) (he : (ms t).Ended) (o : Out) :
    Mirrored b (L5.retire sh t o) (Function.update ms t .out) := by
  have hs : Still sh (L5.retire sh t o) := ⟨rfl, rfl, rfl, rfl⟩
  by_cases ht : ms t = .out
  · rw [← ht, Function.update_eq_self]
    refine hM.still hs fun u hu => ?_
    have hut : u ≠ t := fun e => hu (by rw [e, ht])
    simp [L5.retire, hM.writer u hu, hut]
  · have hall : ∀ u, Function.update ms t .out u = .out := fun u => by
      by_cases hut : u = t
      · rw [hut, Function.update_self]
      · rw [Function.update_of_ne hut, hM.others ht hut]
    refine ⟨fun u hu => absurd (hall u) hu, fun u => ?_, fun _ => ?_⟩
    · rw [hall u]
      trivial
    · exact hs.agrees ((hM.ok t).agrees he ht)

/-- ... or is dropped. -/
theorem cut (hM : Mirrored b sh ms) (hn : (ms t).cut = .go m')
    (hw : b = true → ms t = .off → sh.welcome = none) :
    Mirrored b (L5.cut sh t) (Function.update ms t m') := by
  have hs : Still sh (L5.cut sh t) ∧ (L5.cut sh t).writer = sh.writer := by
    unfold L5.cut
    split
    · split <;> exact ⟨⟨rfl, rfl, rfl, rfl⟩, rfl⟩
    · exact ⟨⟨rfl, rfl, rfl, rfl⟩, rfl⟩
  cases hm : ms t with
  | out =>
    rw [hm] at hn
    cases hn
    rw [← hm, Function.update_eq_self]
    exact hM.still hs.1 fun _ _ => hs.2
  | sync | clear =>
    have hok := hM.ok t
    rw [hm] at hn hok
    cases hn
    exact hM.update (by simp [hm]) (hs.1.ok hok) (by simp) hs.2
  | off =>
    have hok := hM.ok t
    rw [hm] at hn hok
    cases hn
    refine hM.update (by simp [hm]) (hs.1.ok (m := .clear) ⟨hok.1, hok.2, fun hb => hw hb hm⟩)
      (by simp) hs.2
  | _ => rw [hm] at hn; cases hn

end Mirrored

/-! ## Nothing is exclusive -/

/-- In the steps around an `ExclusiveStream`. -/
@[simp] def Mode.exclusive : Mode → Bool
  | .taken _ | .takenA _ | .exNew _ | .exLk _ | .exPut _ | .exEnd _ => true
  | .sec p _ _ | .busy p _ _ | .bld p _ _ | .data p _ _ | .fini p _ _ => p = .exclusive
  | _ => false

/-- Does not lead there. -/
def Inclusive (n : Next Mode) : Prop := ∀ m, n = .go m → m.exclusive = false

@[simp] theorem inclusive_stop : Inclusive .stop := fun _ h => nomatch h
@[simp] theorem inclusive_never : Inclusive .never := fun _ h => nomatch h

@[simp] theorem inclusive_go {m : Mode} : Inclusive (.go m) ↔ m.exclusive = false :=
  ⟨fun h => h m rfl, fun h _ e => by cases e; exact h⟩

open Mode in
/-- The stream leaves its slot only when an operation on `&self` takes it. -/
theorem next_inclusive {m : Mode} {e : Eff} (r : e.Ret) (ha : m.exclusive = false)
    (ht : e = .take → m ≠ .chk2) : Inclusive (m.next .cancel e r) := by
  unfold Mode.next
  split
  · exact inclusive_go.mpr rfl
  cases e <;> dsimp only
  case take =>
    unfold onTake
    split
    · exact absurd rfl (ht rfl)
    · split <;> simp
    · split <;> simp
    · simp
  all_goals
    clear ht
    simp only [onLock, onUnlock, release, onLoadActive, onStoreActive, onLoadUsable, onStoreUsable,
      onCache, onSlot, onPut, onClose, onConnect, onLocal, onSend, onBuilder, onRecv, onExclusiveNew,
      onExclusiveDrop, onGuardNew, onGuardDrop, onUse, onDrain, onReadToEnd, onFinish, onDropTransfer,
      onPoll]
    repeat' split
    all_goals simp_all

/-- Apart from `ExclusiveStream`s, the flag is up for a `TransferGuard`, or for
one that is about to exist. -/
theorem raises_iff {m : Mode} (ha : m.exclusive = false) (hr : ∀ h, m ≠ .raised h) :
    m.raises = true ↔ m.guards = 1 := by
  cases m with
  | raised h => exact absurd rfl (hr h)
  | sec p | busy p | bld p | data p | fini p => cases p <;> simp [Mode.raises, Mode.guards] at ha ⊢
  | _ => simp [Mode.raises, Mode.guards] at ha ⊢

/-! ## Drops, without a mark -/

/-- The shared state, but for who was dropped. -/
def uncut (sh : Shared T) : Shared T := { sh with cancelled := fun _ => false }

/-- No step looks at who was dropped. -/
theorem perform_uncut (sh : Shared T) (t : T) (e : Eff) (o : Oracle) :
    perform (uncut sh) t e o = (perform sh t e o).map fun x => (uncut x.1, x.2) := by
  have hfail : ∀ {ε α : Type} (sh : Shared T) h (r : Except ε α),
      (uncut sh).failing h r = uncut (sh.failing h r) := by
    intro ε α sh h r
    cases r <;> rfl
  cases e with
  | copyAll h | readToEnd h => simp only [perform, hfail]; rfl
  | finish h =>
    show some ((uncut (sh.setWire h .idle)).failing h o.finished, o.finished) = _
    rw [hfail]
    rfl
  | flush h cleanup =>
    cases cleanup with
    | false => rfl
    | true => simp only [perform, hfail]; rfl
  | lock => by_cases h : sh.lock = none <;> simp [perform, uncut, h]
  | unlock => by_cases h : sh.lock = some t <;> simp [perform, uncut, h, Shared.endSection]
  | builder h =>
    by_cases hb : (sh.hasBuilder h && o.builderFails) = true
    · simp only [perform, uncut, hb, if_true]
      rfl
    · simp only [perform, uncut, hb, Bool.false_eq_true, if_false]
      rfl
  | connect host port =>
    simp only [perform]
    split <;> rfl
  | _ => rfl

omit [DecidableEq T] in
theorem grade_uncut {g : Grade} (h : g.Ok .cancel sh t) : g.Ok .cancel (uncut sh) t := by
  have hbad : ∀ h, ¬ Bad .cancel (uncut sh) h := fun h hb => by cases hb
  cases g with
  | fine h' => exact ⟨h.1, hbad h'⟩
  | clear h' d => exact ⟨h.1, hbad h', h.2.2.1, fun _ hb => absurd hb (hbad h')⟩
  | sticky h' => exact ⟨h.1, hbad h', h.2.2⟩
  | broken h' => exact ⟨h.1, hbad h'⟩
  | logged h' d | settled h' d => exact ⟨h.1, fun _ hb => absurd hb (hbad h')⟩
  | mine | none => exact h
  | rest => exact ⟨h.1, fun h' hs => ⟨(h.2 h' hs).1, fun hb => absurd hb (hbad h')⟩⟩

omit [DecidableEq T] in
/-- The invariant asks less where nobody was dropped. -/
theorem inv_uncut {ms : T → Mode} {ct : Token T} (hi : Inv .cancel sh ms ct) :
    Inv .cancel (uncut sh) ms ct := by
  have hbad : ∀ h, ¬ Bad .cancel (uncut sh) h := fun h hb => by cases hb
  have hspot : ∀ {p : Spot}, p.Ok sh → p.Ok (uncut sh) := fun {p} hp => by cases p <;> exact hp
  have hlayout : ∀ {m : Mode}, Layout .cancel sh m → Layout .cancel (uncut sh) m := fun hl =>
    ⟨hspot hl.spot, hl.guards, hl.listing, fun hv => (nomatch hv), hl.seen⟩
  refine ⟨hi.locked, hi.token, fun u => ?_, fun u hu => ⟨hlayout (hi.holds u hu).toLayout,
    grade_uncut (hi.holds u hu).grade⟩, fun hct => ?_, fun hct => ?_, hi.pool, hi.active,
    ⟨hi.borrowed.readers, hi.borrowed.writer, hi.borrowed.excl⟩,
    ⟨hi.fresh.slot, hi.fresh.held, hi.fresh.wire, hi.fresh.health, fun _ _ => rfl⟩⟩
  · have := hi.knows u
    cases hm : ms u with
    | chk2 => rw [hm] at this; exact ⟨this.1, fun h _ => hbad h⟩
    | _ => rw [hm] at this; exact this
  · have hf := hi.free hct
    exact ⟨hf.held, hf.guards, hf.listing, hf.settled, fun h hs => ⟨(hf.rest h hs).1, fun hb =>
      absurd hb (hbad h)⟩⟩
  · obtain ⟨s, h, hp⟩ := hi.pooled hct
    exact ⟨s, h, hlayout hp.toLayout, hp.pool, hp.inner, hp.grade.1, fun _ hb => absurd hb (hbad h)⟩

omit [DecidableEq T] in
theorem uncut_uncut (sh : Shared T) : uncut (uncut sh) = uncut sh := rfl

theorem uncut_cut (sh : Shared T) (t : T) : uncut (cut (uncut sh) t) = uncut (cut sh t) := by
  have : ∀ sh : Shared T, uncut (cut sh t) = uncut sh := fun sh => by
    unfold cut
    split
    · split <;> rfl
    · rfl
  rw [this, this, uncut_uncut]

/-! ## Every interleaving -/

/-- What holds between the steps of the Tokio client. -/
structure Booked (b : Bool) (sh : Shared T) (ms : T → Mode × Mirror) : Prop where
  inv : ∃ ct, Inv .cancel (uncut sh) (Prod.fst ∘ ms) ct
  inclusive : ∀ t, (ms t).1.exclusive = false
  mirrors : Mirrored b sh (Prod.snd ∘ ms)

/-- While a banner is still cached whose connection `connect` discarded. -/
def Stale (sh : Shared T) (t : T) : Prop := sh.writer = some t ∧ sh.slot = none ∧ sh.welcome ≠ none

/-- A reconnect that discarded a connection and its banner succeeds. -/
def Renews (s : Config T) : Label T → Prop
  | .step t c => Stale s.sh t → ∀ e, s.At t e → ¬ Refused e c
  | .drop t => ¬ Stale s.sh t
  | _ => True

theorem mirror_never {m : Mirror} {e : Eff} {r : e.Ret} (hn : m.next e r ≠ .stop) :
    ∃ m', m.next e r = .go m' := by
  cases h : m.next e r with
  | go m' => exact ⟨m', rfl⟩
  | stop => exact absurd h hn
  | never =>
    exfalso
    revert h
    cases e <;> simp only [Mirror.next, Mirror.settle] <;> (repeat' split) <;> simp

/-- A drop that is allowed has a stage to end in. -/
theorem mirror_cut {m : Mirror} (hn : m.cut ≠ .stop) : ∃ m', m.cut = .go m' := by
  cases m <;> simp at hn ⊢

/-- The Tokio client never takes the stream out of the slot, dropped or not. -/
theorem cut_inclusive {m m' : Mode} (ha : m.exclusive = false) (hc : m.cut .cancel = .go m') :
    m'.exclusive = false := by
  cases m with
  | sec p | busy p | bld p | data p | fini p => cases p <;> cases hc <;> rfl
  | shr | own | fin => cases hc; rfl
  | un lk | uh lk => cases lk <;> cases hc; rfl
  | _ => cases hc

omit [DecidableEq T] in
theorem launch_uncut (I : Impl) (sh : Shared T) (t : T) (l : Launch) :
    launch I (uncut sh) t l = (launch I sh t l).map fun x => (uncut x.1, x.2) := by
  cases l with
  | op op =>
    simp only [launch]
    show (if sh.writer = none then _ else _) = _
    split
    · split
      · show (if sh.readers = [] then _ else _) = _
        split <;> rfl
      · rfl
    · rfl
  | stream i op =>
    have hpool : (uncut sh).pool = sh.pool := rfl
    simp only [launch, hpool]
    cases sh.pool[i]? with
    | none => rfl
    | some s =>
      simp only [Option.map_map]
      rfl

variable {ms : T → Mode × Mirror} {ok : Config T → Label T → Prop}

theorem Booked.launchOp (X : Ext) {op : Op} {p : Io Out} (hJ : Booked b sh ms) (hm : ms t = (.idle, .out))
    (hl : launch (tokioImpl X) sh t (.op op) = some (sh', p)) :
    p = TokioFtpFs.run X op ∧ Booked b sh' (Function.update ms t (enters op, reflects op)) := by
  obtain ⟨ct, hi⟩ := hJ.inv
  have hl' : launch (tokioImpl X) (uncut sh) t (.op op) = some (uncut sh', p) := by
    rw [launch_uncut, hl]
    rfl
  obtain ⟨hp, hi'⟩ := hi.launchOp (t := t) (by show (ms t).1 = _; rw [hm]) hl'
  refine ⟨hp, by rw [Function.comp_update]; exact hi', fun u => ?_, ?_⟩
  · by_cases hut : u = t
    · subst hut
      rw [Function.update_self, enters]
      split <;> rfl
    · rw [Function.update_of_ne hut]
      exact hJ.inclusive u
  · rw [Function.comp_update]
    have hout : (Prod.snd ∘ ms) t = .out := by show (ms t).2 = _; rw [hm]
    simp only [launch] at hl
    split at hl
    · rename_i hw
      split at hl
      · rename_i hmut
        split at hl
        · cases hl
          rw [reflects, if_pos hmut]
          exact hJ.mirrors.begin hw
        · cases hl
      · rename_i hmut
        cases hl
        rw [reflects, if_neg hmut, ← hout, Function.update_eq_self]
        exact hJ.mirrors.still ⟨rfl, rfl, rfl, rfl⟩ fun _ _ => rfl
    · cases hl

theorem Booked.launchStream (X : Ext) {i : Nat} {op : StreamOp} {p : Io Out} (hJ : Booked b sh ms)
    (hm : ms t = (.idle, .out)) (hl : launch (tokioImpl X) sh t (.stream i op) = some (sh', p)) :
    ∃ s h, s.inner = some h ∧ TokioFtpFs.runStream X s op = some p ∧
      Booked b sh' (Function.update ms t (.own h, .out)) := by
  obtain ⟨ct, hi⟩ := hJ.inv
  have hl' : launch (tokioImpl X) (uncut sh) t (.stream i op) = some (uncut sh', p) := by
    rw [launch_uncut, hl]
    rfl
  obtain ⟨s, h, hs, hp, hi'⟩ := hi.launchStream (t := t) (by show (ms t).1 = _; rw [hm]) hl'
  refine ⟨s, h, hs, hp, by rw [Function.comp_update]; exact hi', fun u => ?_, ?_⟩
  · by_cases hut : u = t
    · subst hut
      rw [Function.update_self]
      rfl
    · rw [Function.update_of_ne hut]
      exact hJ.inclusive u
  · have hout : (Prod.snd ∘ ms) t = .out := by show (ms t).2 = _; rw [hm]
    rw [Function.comp_update]
    show Mirrored b sh' (Function.update (Prod.snd ∘ ms) t .out)
    rw [← hout, Function.update_eq_self]
    simp only [launch] at hl
    split at hl
    · cases hl
    · simp only [Option.map_eq_some_iff, Prod.mk.injEq] at hl
      obtain ⟨p', -, rfl, -⟩ := hl
      exact hJ.mirrors.still ⟨rfl, rfl, rfl, rfl⟩ fun _ _ => rfl

theorem Booked.step {e : Eff} {c : Oracle} {r : e.Ret} (hJ : Booked b sh ms)
    (hp : perform sh t e c = some (sh', r)) (hn : mirrored.next (ms t) e r ≠ .stop)
    (hrenew : b = true → Stale sh t → ¬ Refused e c) :
    ∃ m', mirrored.next (ms t) e r = .go m' ∧ Booked b sh' (Function.update ms t m') := by
  obtain ⟨ct, hi⟩ := hJ.inv
  obtain ⟨h₁, h₂⟩ := Next.both_ne_stop.mp hn
  obtain ⟨m₁, hm₁, ct', hi'⟩ := keeps_step (t := t) (r := r) hi
    (fun _ _ _ h _ hb => by cases hb) (by rw [perform_uncut, hp]; rfl) h₁
  obtain ⟨m₂, hm₂⟩ := mirror_never h₂
  have hwriter : (ms t).2 ≠ .out → sh.writer = some t := hJ.mirrors.writer t
  have hboth : mirrored.next (ms t) e r = .go (m₁, m₂) := by
    show ((ms t).1.next .cancel e r).both ((ms t).2.next e r) = _
    rw [show (ms t).1.next .cancel e r = .go m₁ from hm₁, hm₂]
    rfl
  refine ⟨(m₁, m₂), hboth, ?_, fun u => ?_, ?_⟩
  · rw [Function.comp_update]
    exact ⟨ct', hi'⟩
  · by_cases hut : u = t
    · subst hut
      rw [Function.update_self]
      refine next_inclusive r (hJ.inclusive u) (fun he hchk => ?_) m₁ hm₁
      subst he
      by_cases hout : (ms u).2 = .out
      · rw [hout] at h₂
        exact h₂ rfl
      · have := (hi.borrowed.writer u).mpr (hwriter hout)
        rw [Function.comp_apply, hchk] at this
        cases this
    · rw [Function.update_of_ne hut]
      exact hJ.inclusive u
  · rw [Function.comp_update]
    refine hJ.mirrors.step (fun h hs => hi.fresh.slot h hs) hp hm₂ fun hb hoff href => ?_
    by_contra hw
    have hok := hJ.mirrors.ok t
    rw [hoff] at hok
    exact hrenew hb ⟨hwriter (by rw [show (ms t).2 = .off from hoff]; simp), hok.1, hw⟩ href

theorem Booked.retire {o : Out} (hJ : Booked b sh ms) (hd : Over o (ms t)) :
    Booked b (retire sh t o) (Function.update ms t (.idle, .out)) := by
  obtain ⟨ct, hi⟩ := hJ.inv
  refine ⟨?_, fun u => ?_, ?_⟩
  · rw [Function.comp_update]
    cases o with
    | done => exact hi.retireDone (t := t) hd.1
    | stream s =>
      obtain ⟨h, hs, hm⟩ := hd.1
      exact hi.retireStream hs hm
  · by_cases hut : u = t
    · subst hut
      rw [Function.update_self]
      rfl
    · rw [Function.update_of_ne hut]
      exact hJ.inclusive u
  · rw [Function.comp_update]
    exact hJ.mirrors.retire hd.2 o

theorem Booked.cut (hJ : Booked b sh ms) (hn : mirrored.cut (ms t) ≠ .stop)
    (hrenew : b = true → ¬ Stale sh t) :
    ∃ m', mirrored.cut (ms t) = .go m' ∧ Booked b (cut sh t) (Function.update ms t m') := by
  obtain ⟨ct, hi⟩ := hJ.inv
  obtain ⟨h₁, h₂⟩ := Next.both_ne_stop.mp hn
  obtain ⟨m₁, hm₁, ct', hi'⟩ := hi.cut (t := t) h₁
  obtain ⟨m₂, hm₂⟩ := mirror_cut h₂
  have hboth : mirrored.cut (ms t) = .go (m₁, m₂) := by
    show ((ms t).1.cut .cancel).both (ms t).2.cut = _
    rw [show (ms t).1.cut .cancel = .go m₁ from hm₁, hm₂]
    rfl
  refine ⟨(m₁, m₂), hboth, ?_, fun u => ?_, ?_⟩
  · rw [Function.comp_update]
    refine ⟨ct', ?_⟩
    rw [← uncut_cut]
    exact inv_uncut hi'
  · by_cases hut : u = t
    · subst hut
      rw [Function.update_self]
      exact cut_inclusive (hJ.inclusive u) hm₁
    · rw [Function.update_of_ne hut]
      exact hJ.inclusive u
  · rw [Function.comp_update]
    refine hJ.mirrors.cut hm₂ fun hb hoff => ?_
    by_contra hw
    have hok := hJ.mirrors.ok t
    rw [hoff] at hok
    refine hrenew hb ⟨hJ.mirrors.writer t (by rw [hoff]; simp), hok.1, hw⟩

/-- Every step, start, end and drop keeps the books. -/
theorem keeps_booked (X : Ext) (hok : b = true → ∀ s l, ok s l → Renews s l) :
    Keeps (system T (tokioImpl X)) mirrored (.idle, .out) Over (Booked b) ok (Over .done) where
  launch s t l sh p ms _ hJ hm hl := by
    cases l with
    | op op =>
      obtain ⟨rfl, hJ'⟩ := hJ.launchOp X hm hl
      exact ⟨_, mirror_follows X op, hJ'⟩
    | stream i op =>
      obtain ⟨s, h, hs, hp, hJ'⟩ := hJ.launchStream X hm hl
      exact ⟨_, stream_mirror_follows X hs hp, hJ'⟩
  step s t c e sh r ms hok' hat hJ _ hp hn :=
    hJ.step hp hn fun hb hs => hok hb s _ hok' hs e hat
  retire sh t o ms hJ hd := hJ.retire hd
  drop s t ms hok' hJ hn := hJ.cut hn fun hb => hok hb s _ hok'
  dropped _ h := h

theorem reachable_booked (X : Ext) (hok : b = true → ∀ s l, ok s l → Renews s l) {slot : Option Conn}
    {s : Config T} (hr : (runs (tokioImpl X) slot ok).Reachable s) :
    ∃ ms, Booked b s.sh ms ∧ Typed mirrored (.idle, .out) Over (Over .done) s.th ms := by
  refine (Threads.inductive_of_typestate (keeps_booked X hok) fun s hs => ?_).reachable s hr
  obtain ⟨⟨builder, hsh⟩, hth⟩ := hs
  refine ⟨fun _ => (.idle, .out), hsh ▸ ⟨⟨.nobody, inv_uncut (start_inv slot builder)⟩, fun _ => rfl,
    fun t h => absurd rfl h, fun _ => trivial, fun _ => ⟨rfl, fun _ => ?_⟩⟩, fun t => by rw [hth t]⟩
  cases slot <;> rfl

/-! ## The books -/

/-- `t` waits at a suspension point, or has returned. -/
def Paused (s : Config T) (t : T) : Prop :=
  (∃ e g k, s.th t = some (.act e (some g) k)) ∨ ∃ o, s.th t = some (.ret o)

/-- The flags and mirrors of the Tokio client. -/
structure Books (s : Config T) : Prop where
  /-- Unless `connect` or `disconnect` is between two suspension points,
  `connected` tells whether the slot is filled. -/
  connected : (∀ t, s.sh.writer = some t → Paused s t) → s.sh.connected = s.sh.slot.isSome
  /-- At most one `TransferGuard` is alive... -/
  one : s.sh.guards ≤ 1
  /-- ... and the flag is up while one is... -/
  raised : 0 < s.sh.guards → s.sh.active = true
  /-- ... and only then, unless the owner of the mutex is between two
  suspension points. -/
  active : (∀ t, s.sh.lock = some t → Paused s t) → (s.sh.active = true ↔ s.sh.guards = 1)
  /-- A task that found the flag down under the mutex does so beside no guard. -/
  check : ∀ t, s.At t .loadUsable → s.sh.lock = some t → s.sh.guards = 0

omit [DecidableEq T] in
theorem books_of_booked {s : Config T} (hJ : Booked b s.sh ms)
    (hT : Typed mirrored (.idle, .out) Over (Over .done) s.th ms) : Books s := by
  obtain ⟨ct, hi⟩ := hJ.inv
  have htr := hi.transfers
  have hguards : s.sh.guards ≤ s.sh.guards + s.sh.listing := Nat.le_add_right _ _
  -- where a paused thread can be
  have hpaused : ∀ t, Paused s t → mirrored.cut (ms t) ≠ .stop ∨ ∃ o, Over o (ms t) := by
    intro t ht
    have hf := hT t
    rcases ht with ⟨e, g, k, hth⟩ | ⟨o, hth⟩
    · rw [hth] at hf
      left
      intro hcut
      have hall := hf.2 g rfl
      rw [hcut] at hall
      exact hall
    · rw [hth] at hf
      exact .inr ⟨o, hf⟩
  refine ⟨fun hw => ?_, Nat.le_trans hguards htr.1, fun hg => htr.2 (Nat.lt_of_lt_of_le hg hguards),
    fun hl => ?_, fun t ha hl => ?_⟩
  · by_cases hall : ∀ t, (ms t).2 = .out
    · exact (hJ.mirrors.rest hall).connected
    · obtain ⟨t, ht⟩ := not_forall.mp hall
      have hok : (ms t).2.Ok b s.sh := hJ.mirrors.ok t
      rcases hpaused t (hw t (hJ.mirrors.writer t ht)) with hcut | ⟨o, ho⟩
      · have h₂ := (Next.both_ne_stop.mp hcut).2
        cases hm : (ms t).2 with
        | out => exact absurd hm ht
        | sync => rw [hm] at hok; exact hok.connected
        | off => rw [hm] at hok; rw [hok.1, hok.2]; rfl
        | clear => rw [hm] at hok; rw [hok.1, hok.2.1]; rfl
        | _ => rw [hm] at h₂; exact absurd rfl h₂
      · exact (hok.agrees ho.2 ht).connected
  · cases hct : ct with
    | nobody =>
      have hfree : s.sh.guards = 0 := (hi.free hct).guards
      have hact : ¬ s.sh.active = true := by
        show ¬ (uncut s.sh).active = true
        have := hi.active
        rw [hct] at this
        simpa using this
      simp [hfree, hact]
    | pooled =>
      obtain ⟨_, _, hp⟩ := hi.pooled hct
      have hact : s.sh.active = true := hi.active.mpr (.inl hct)
      have hone : s.sh.guards = 1 := hp.guards
      simp [hact, hone]
    | thread u =>
      subst hct
      have hact : s.sh.active = (ms u).1.raises := hi.active_eq
      have hone : s.sh.guards = (ms u).1.guards := (hi.holds u rfl).guards
      rw [hact, hone]
      refine raises_iff (hJ.inclusive u) fun h hm => ?_
      have hlock : s.sh.lock = some u := (hi.locked u).mp (by show (ms u).1.locks = true; rw [hm]; rfl)
      rcases hpaused u (hl u hlock) with hcut | ⟨o, ho⟩
      · exact (Next.both_ne_stop.mp hcut).1 (by rw [hm]; rfl)
      · have := ho.1
        rw [hm] at this
        cases o with
        | done => exact this.elim
        | stream s => obtain ⟨_, _, hne⟩ := this; cases hne
  · have hn := (Next.both_ne_stop.mp (Threads.typed_at hT ha true)).1
    have hlock : (uncut s.sh).lock = some t := hl
    rcases hi.checking hn (.inl hlock) with hm | ⟨lk, us, hm⟩ | ⟨lk, hm⟩
    · have hk := hi.knows t
      rw [hm] at hk
      exact (hi.free hk).guards
    · obtain rfl := hi.user (t := t) (by rw [hm]; rfl)
      have := (hi.holds t rfl).guards
      rwa [hm] at this
    · obtain rfl := hi.user (t := t) (by rw [hm]; rfl)
      have := (hi.holds t rfl).guards
      rwa [hm] at this

/-- **The bookkeeping of `TokioFtpFs`**, under every interleaving of tasks and
every cancellation. -/
theorem bookkeeping (X : Ext) {slot : Option Conn} {s : Config T}
    (hr : (runs (tokioImpl X) slot fun _ _ => True).Reachable s) : Books s := by
  obtain ⟨ms, hJ, hT⟩ := reachable_booked (b := false) X (fun h => nomatch h) hr
  exact books_of_booked hJ hT

/-- One task holds an upload, another has the mutex and is about to read the flag. -/
theorem bookkeeping_upload : ∃ s, play (tokioImpl plainExt) (fun _ _ => true)
    ([.launch false (.op (.append "/f".toList))] ++ steps false 11 {} ++
      [.retire false, .launch true (.op (.exec "NOOP".toList)), .step true {}]) = some s ∧
    Books s ∧ s.sh.guards = 1 ∧ s.At true .loadActive := by
  obtain ⟨s, hs⟩ := Option.isSome_iff_exists.mp
    (show (play (tokioImpl plainExt) (fun _ _ => true)
      ([.launch false (.op (.append "/f".toList))] ++ steps false 11 {} ++
        [.retire false, .launch true (.op (.exec "NOOP".toList)), .step true {}])).isSome = true by decide)
  refine ⟨s, hs, bookkeeping plainExt (reachable_of_play (fun _ _ _ => trivial) hs), ?_⟩
  cases hs
  exact ⟨rfl, _, _, rfl⟩

end RemotefsFtp.L5
