import RemotefsFtp.L5Concurrency.Invariant

/-!
# Every permitted step keeps the invariant

What each kind of step does to what the user of the control stream holds
(`Holds.send`, `Holds.recv`, ..), and from that, over the modes in which the
protocol allows the step, that the invariant is kept (`keeps_send`, ..).
-/
namespace RemotefsFtp.L5

open L2 L3
open Core (Next)
open Mode

variable {T : Type} {v : Variant} {sh sh' : Shared T} {ms : T → Mode} {ct : Token T} {t : T}
  {m m' : Mode} {p : Place} {h : Conn} {c : Command} {d : Bool}

attribute [local simp] Mode.locks Mode.uses Mode.raises Mode.isUnique Mode.borrows Mode.spot
  Mode.guards Mode.listing Mode.wire Mode.seen Mode.grade Place.spot Spot.Ok Grade.Ok Knows

namespace Inv

/-- The token is with the thread whose mode uses the control stream. -/
theorem user (hi : Inv v sh ms ct) (hu : (ms t).uses = true) : ct = .thread t :=
  (hi.token t).mp hu

/-- No thread was dropped where no drop is considered. -/
theorem not_gone (hi : Inv v sh ms ct) : ms t ≠ .gone := fun h => by
  have := hi.knows t
  rw [h] at this
  exact this

/-- The transfer flag is up exactly while the mode of its user says so. -/
theorem active_eq (hi : Inv v sh ms (.thread t)) : sh.active = (ms t).raises := by
  rw [Bool.eq_iff_iff, hi.active]
  constructor
  · rintro (h | ⟨u, hu, h⟩)
    · cases h
    · cases hu; exact h
  · exact fun h => .inr ⟨t, rfl, h⟩

end Inv

/-- A user that keeps the flag down holds the mutex or runs alone. -/
theorem Mode.uses_cases (hu : m.uses = true) (hr : m.raises = false) :
    (m.locks = true ∧ m.borrows = true) ∨ m.isUnique = true := by
  cases m <;> simp_all
  case sec p _ _ | busy p _ _ | bld p _ _ | data p _ _ | fini p _ _ => cases p <;> simp_all

/-- The flag is down and `t` holds the mutex, or runs alone. -/
theorem Inv.nobody (hi : Inv v sh ms ct) (ha : sh.active = false) (hu : (ms t).uses = false)
    (ht : ((ms t).locks = true ∧ (ms t).borrows = true) ∨ (ms t).isUnique = true) :
    ct = .nobody := by
  cases hct : ct with
  | nobody => rfl
  | pooled =>
    have := hi.active.mpr (.inl hct)
    rw [ha] at this
    cases this
  | thread u =>
    exfalso
    have huu : (ms u).uses = true := (hi.token u).mpr hct
    have hut : u ≠ t := fun e => by rw [e, hu] at huu; cases huu
    have hr : (ms u).raises = false := by
      by_contra hne
      have := hi.active.mpr (.inr ⟨u, hct, by simpa using hne⟩)
      rw [ha] at this
      cases this
    rcases Mode.uses_cases huu hr with ⟨hlu, hbu⟩ | huniq
    · rcases ht with ⟨hlt, -⟩ | huniq
      · have h1 := (hi.locked u).mp hlu
        rw [(hi.locked t).mp hlt] at h1
        cases h1
        exact hut rfl
      · rw [hi.borrowed.alone huniq u] at hbu
        cases hbu
    · rcases ht with ⟨-, hbt⟩ | huniq'
      · rw [hi.borrowed.alone huniq t] at hbt
        cases hbt
      · have h1 := (hi.borrowed.writer u).mp huniq
        rw [(hi.borrowed.writer t).mp huniq'] at h1
        cases h1
        exact hut rfl

/-- Beside an operation on `&mut self` nobody has a record left to make. -/
theorem Inv.no_win (hi : Inv v sh ms ct) (ht : (ms t).isUnique = true) (u : T) (h : Conn) :
    ms u ≠ .win h := fun hw => by
  have := hi.borrowed.alone ht u
  rw [hw] at this
  cases this

/-- A thread past its check starts to use the stream in the slot. -/
theorem Inv.enter (hi : Inv v sh ms ct) (hm : ms t = .chk2) (hs : sh.slot = some h) :
    ct = .nobody ∧ sh.held = [] ∧ sh.guards = 0 ∧ sh.listing = 0 ∧ (v = .strict → sh.wire h = .idle) ∧
      Settled sh ∧ ¬ Bad v sh h ∧ ∀ u, u ≠ t → ms u ≠ .chk1 ∧ ms u ≠ .chk2 := by
  have hk := hi.knows t
  rw [hm] at hk
  obtain ⟨rfl, hb⟩ := hk
  have hfr := hi.free rfl
  refine ⟨rfl, hfr.held, hfr.guards, hfr.listing, (hfr.rest h hs).1, hfr.settled, hb h hs,
    fun u hu => ?_⟩
  have hlt := (hi.locked t).mp (by simp [hm])
  have hlu := hi.locked u
  rw [hlt] at hlu
  constructor <;>
  · intro e
    simp only [e, Mode.locks, true_iff, Option.some.injEq] at hlu
    exact hu hlu.symm

/-- A stream without a failure may still be called on. -/
theorem not_dead_of_not_bad (hb : ¬ Bad v sh h) : ¬ Dead v sh h := by
  cases v with
  | cancel => exact hb
  | _ => simp_all

/-! ## What the user holds, step by step -/

/-- The control stream in use is one that was opened. -/
theorem Layout.below (hl : Layout v sh m) (hf : Fresh sh) {w : Wire} (hw : m.wire = some (h, w)) :
    h < sh.next := by
  have hs := hl.spot
  have hor : sh.slot = some h ∨ h ∈ sh.held := by
    cases m <;> simp only [Mode.wire, Option.some.injEq, Prod.mk.injEq, reduceCtorEq] at hw
    case sec p _ _ | busy p _ _ | bld p _ _ | data p _ _ | fini p _ _ =>
      cases p <;> simp_all
    all_goals simp_all
  rcases hor with hs | hs
  · exact hf.slot h hs
  · exact hf.held h hs

namespace Fresh

/-- An opened stream changes; those to come are as they were. -/
theorem setWire (hf : Fresh sh) (hh : h < sh.next) (w : Wire) : Fresh (sh.setWire h w) where
  slot := hf.slot
  held := hf.held
  wire h' hn := by
    have : h' ≠ h := fun e => absurd hh (Nat.not_lt.mpr (by simpa [e, Shared.setWire] using hn))
    simpa [Shared.setWire, Function.update_of_ne this] using hf.wire h' hn
  health := hf.health
  cancelled := hf.cancelled

/-- A stream goes back to the slot. -/
theorem put (hf : Fresh sh) (hh : h ∈ sh.held) :
    Fresh { sh with slot := some h, held := sh.held.erase h } where
  slot h' hs := by cases hs; exact hf.held h hh
  held h' hh' := hf.held h' (List.mem_of_mem_erase hh')
  wire := hf.wire
  health := hf.health
  cancelled := hf.cancelled

theorem setHealth (hf : Fresh sh) (hh : h < sh.next) (x : Health T) : Fresh (sh.setHealth h x) where
  slot := hf.slot
  held := hf.held
  wire := hf.wire
  health h' hn := by
    have : h' ≠ h := fun e => absurd hh (Nat.not_lt.mpr (by simpa [e, Shared.setHealth] using hn))
    simpa [Shared.setHealth, Function.update_of_ne this] using hf.health h' hn
  cancelled := hf.cancelled

theorem failing {ε α : Type} (hf : Fresh sh) (hh : h < sh.next) (r : Except ε α) :
    Fresh (sh.failing h r) := by
  cases r with
  | ok a => exact hf
  | error e => exact hf.setHealth hh .dead

/-- Only a failed section is sealed, and an unopened stream has none. -/
theorem endSection [DecidableEq T] (sh : Shared T) (hf : Fresh sh) (t : T) : Fresh (sh.endSection t) where
  slot := hf.slot
  held := hf.held
  wire := hf.wire
  health h' hn := by
    have := hf.health h' hn
    simp [Shared.endSection, this, Health.sealed]
  cancelled := hf.cancelled

end Fresh

/-! Failures -/

/-- Where no section failed, none of another thread did. -/
theorem Settled.mine (h : Settled sh) : Mine sh t := fun h' u s he => absurd he (h h' u s)

/-- What happens to `h` is the section's own failure, or none. -/
theorem Mine.setHealth (sh : Shared T) (hm : Mine sh t) {x : Health T} (hx : ∀ u s, x = .failed u s → u = t) :
    Mine (sh.setHealth h x) t := by
  intro h' u s he
  by_cases hh : h' = h
  · subst hh
    exact hx u s (by simpa [Shared.setHealth] using he)
  · exact hm h' u s (by simpa [Shared.setHealth, Function.update_of_ne hh] using he)

theorem Settled.setHealth (sh : Shared T) (hm : Settled sh) {x : Health T} (hx : ∀ u s, x ≠ .failed u s) :
    Settled (sh.setHealth h x) := by
  intro h' u s he
  by_cases hh : h' = h
  · subst hh
    exact hx u s (by simpa [Shared.setHealth] using he)
  · exact hm h' u s (by simpa [Shared.setHealth, Function.update_of_ne hh] using he)

/-- A failed cleanup or completion needs a record. -/
theorem Logged.failing {ε α : Type} (sh : Shared T) (hl : Logged v sh h d) (r : Except ε α) :
    Logged v (sh.failing h r) h (d || isErr r) := by
  cases r with
  | ok a => simpa [Shared.failing] using hl
  | error e =>
    rintro (hv | hd)
    · subst hv
      exact fun hb => hl (.inl rfl) hb
    · simp at hd

theorem Mine.failing {ε α : Type} (sh : Shared T) (hm : Mine sh t) (r : Except ε α) : Mine (sh.failing h r) t := by
  cases r with
  | ok a => exact hm
  | error e => exact hm.setHealth sh fun u s he => nomatch he

theorem Settled.failing {ε α : Type} (sh : Shared T) (hm : Settled sh) (r : Except ε α) :
    Settled (sh.failing h r) := by
  cases r with
  | ok a => exact hm
  | error e => exact hm.setHealth sh fun u s he => nomatch he

/-- On a connection marked unusable nothing is left to record. -/
theorem Logged.of_unusable (h' : sh.usable = false) : Logged v sh h d := fun _ _ => h'

/-- What a reply leaves in a section. -/
theorem answered_clear (sh : Shared T) (hm : Mine sh t) (hd : ¬ Dead v sh h) (hs : Sticky sh h) (b : Bool) :
    (Grade.clear h b).Ok v (sh.setHealth h ((sh.health h).answered t b)) t := by
  have hown : (sh.setHealth h ((sh.health h).answered t b)).health h =
      (sh.health h).answered t b := by simp [Shared.setHealth]
  refine ⟨hm.setHealth sh fun u s he => ?_, ?_, fun u hu => ?_, fun hv hb => ?_⟩
  · cases hh : sh.health h with
    | fine => cases b <;> simp_all [Health.answered]
    | dead => simp [hh, Health.answered] at he
    | failed u' s' =>
      have hu' := hm h u' s' hh
      cases s' <;> cases b <;> simp_all [Health.answered]
  · cases v with
    | cancel => exact hd
    | _ =>
      simp only [Dead, hown] at hd ⊢
      cases hh : sh.health h with
      | fine => cases b <;> simp [Health.answered]
      | dead => exact absurd hh hd
      | failed u s => cases s <;> cases b <;> simp [Health.answered]
  · rw [hown] at hu
    apply hs u
    cases hh : sh.health h with
    | fine => cases b <;> simp [hh, Health.answered] at hu
    | dead => simp [hh, Health.answered] at hu
    | failed u' s' => cases s' <;> cases b <;> simp_all [Health.answered]
  · rcases hv with hv | hv
    · subst hv; exact absurd hb hd
    · subst hv
      cases v with
      | cancel => exact absurd hb hd
      | _ =>
        simp only [Bad, hown, Dead] at hb hd
        cases hh : sh.health h with
        | fine => simp [hh, Health.answered] at hb
        | dead => exact absurd hh hd
        | failed u s =>
          cases s with
          | true => exact hs u hh
          | false => simp [hh, Health.answered] at hb

/-- On a stream without a failure. -/
theorem answered_fine (sh : Shared T) (hs : Settled sh) (hb : ¬ Bad v sh h) :
    (Grade.fine h).Ok v (sh.setHealth h ((sh.health h).answered t false)) t := by
  have hown : (sh.setHealth h ((sh.health h).answered t false)).health h =
      (sh.health h).answered t false := by simp [Shared.setHealth]
  refine ⟨hs.setHealth sh fun u s he => ?_, ?_⟩
  · cases hh : sh.health h with
    | fine | dead => simp [hh, Health.answered] at he
    | failed u' s' => exact hs h u' s' hh
  · cases v with
    | cancel => exact hb
    | _ =>
      simp only [Bad, not_not, hown] at hb ⊢
      rw [hb]
      rfl

section
variable [DecidableEq T]

/-- The section's end turns its failures into those of the connection. -/
theorem Mine.endSection (sh : Shared T) (hm : Mine sh t) : Settled (sh.endSection t) := by
  intro h u s he
  cases hh : sh.health h with
  | fine | dead => simp [Shared.endSection, hh, Health.sealed] at he
  | failed u' s' =>
    have hu := hm h u' s' hh
    simp [Shared.endSection, hh, Health.sealed, hu] at he

/-- ... and makes no stream better or worse. -/
theorem bad_endSection (sh : Shared T) : Bad v (sh.endSection t) h ↔ Bad v sh h := by
  have : (sh.endSection t).health h = .fine ↔ sh.health h = .fine := by
    cases hh : sh.health h with
    | fine | dead => simp [Shared.endSection, hh, Health.sealed]
    | failed u s =>
      simp only [Shared.endSection, hh, Health.sealed]
      split <;> simp
  cases v with
  | cancel => exact Iff.rfl
  | _ => simp [this]

theorem Logged.endSection (sh : Shared T) (hl : Logged v sh h d) :
    Logged v (sh.endSection t) h d := fun hd hb => hl hd ((bad_endSection sh).mp hb)

end

/-- Taking from an empty slot. -/
theorem take_none (hs : sh.slot = none) :
    { sh with slot := none, held := (none : Option Conn).toList ++ sh.held } = sh := by
  cases sh
  simp_all

namespace Holds

/-- `sec` to `busy`: a command goes out, and its reply is due. -/
theorem send (hh : Holds v sh t (.sec p h d)) (hp : p ≠ .unique) :
    Holds v (sh.setWire h (.busy c)) t (.busy p h c) where
  spot := hh.spot
  guards := hh.guards
  listing := hh.listing
  wire _ h' w hw := by cases hw; simp [Shared.setWire]
  seen b hb := nomatch hb
  grade := by
    have hg := hh.grade
    simp only [Mode.grade, hp, if_false]
    exact ⟨hg.1, hg.2.1, hg.2.2.1⟩

/-- `uh` to `busy`: a command of the set-up or `QUIT`, on a local stream. -/
theorem send_unique (hh : Holds v sh t (.uh false h true)) :
    Holds v (sh.setWire h (.busy c)) t (.busy .unique h c) where
  spot := hh.spot
  guards := hh.guards
  listing := hh.listing
  wire _ h' w hw := by cases hw; simp [Shared.setWire]
  seen b hb := nomatch hb
  grade := hh.grade

/-- `busy` to `bld`: the stream builder failed with the command out. -/
theorem broken (hh : Holds v sh t (.busy p h c)) (hp : p ≠ .unique) :
    Holds v (sh.setHealth h ((sh.health h).broken t)) t (.bld p h c) where
  spot := hh.spot
  guards := hh.guards
  listing := hh.listing
  wire := hh.wire
  seen b hb := nomatch hb
  grade := by
    have hg := hh.grade
    simp only [Mode.grade, hp, if_false] at hg
    obtain ⟨hm, hd, -⟩ := hg
    refine ⟨hm.setHealth sh fun u s he => ?_, ?_⟩
    · cases hh : sh.health h <;> simp_all [Health.broken]
    · cases v with
      | cancel => exact hd
      | _ =>
        simp only [Dead, Shared.setHealth, Function.update_self] at hd ⊢
        cases hh : sh.health h <;> simp_all [Health.broken]

/-- The state after the answer to a command. -/
theorem recv {b : Bool} (hh : Holds v sh t (.busy p h c)) (hp : p ≠ .unique) :
    Holds v ((sh.setWire h .idle).setHealth h ((sh.health h).answered t b)) t (.sec p h b) where
  spot := hh.spot
  guards := hh.guards
  listing := hh.listing
  wire _ h' w hw := by cases hw; simp [Shared.setWire, Shared.setHealth]
  seen b hb := nomatch hb
  grade := by
    have hg := hh.grade
    simp only [Mode.grade, hp, if_false] at hg
    exact answered_clear (sh.setWire h .idle) hg.1 hg.2.1 hg.2.2 b

/-- `busy` to `data`: the reply opens a transfer. -/
theorem recv_data (hh : Holds v sh t (.busy p h c)) (hp : p ≠ .unique) :
    Holds v ((sh.setWire h .data).setHealth h ((sh.health h).answered t false)) t
      (.data p h false) where
  spot := hh.spot
  guards := hh.guards
  listing := hh.listing
  wire _ h' w hw := by cases hw; simp [Shared.setWire, Shared.setHealth]
  seen b hb := nomatch hb
  grade := by
    have hg := hh.grade
    simp only [Mode.grade, hp, if_false] at hg
    have := answered_clear (sh.setWire h .data) hg.1 hg.2.1 hg.2.2 false
    exact ⟨this.1, this.2.2.2⟩

/-- `busy` back to `uh`; after a failure that needs a reconnect the local is not `ok`. -/
theorem recv_unique {b : Bool} (hh : Holds v sh t (.busy .unique h c)) :
    Holds v ((sh.setWire h .idle).setHealth h ((sh.health h).answered t b)) t
      (.uh false h (!b)) where
  spot := hh.spot
  guards := hh.guards
  listing := hh.listing
  wire _ h' w hw := by cases hw; simp [Shared.setWire, Shared.setHealth]
  seen b hb := nomatch hb
  grade := by
    obtain ⟨hs, hb⟩ := hh.grade
    cases b with
    | false => exact answered_fine (sh.setWire h .idle) hs hb
    | true =>
      refine Mine.setHealth (sh.setWire h .idle) hs.mine fun u s he => ?_
      cases hh : sh.health h with
      | fine | dead => simp_all [Health.answered]
      | failed u' s' => exact absurd hh (hs h u' s')

/-- `data`: the data socket is read or cleaned up, and may fail. -/
theorem failing {ε α : Type} {r : Except ε α} (hh : Holds v sh t (.data p h d)) :
    Holds v (sh.failing h r) t (.data p h (d || isErr r)) := by
  cases r with
  | ok a => simpa [Shared.failing] using hh
  | error e =>
    have hg := hh.grade
    refine ⟨⟨hh.spot, hh.guards, hh.listing, hh.wire, fun b hb => nomatch hb⟩, ?_⟩
    exact ⟨hg.1.failing sh (.error e), hg.2.failing sh (.error e)⟩

/-- `own` to `fin`: the owner drains or flushes before the reply is read. -/
theorem drain {ε α : Type} {r : Except ε α} (hh : Holds v sh t (.own h)) :
    Holds v (sh.failing h r) t (.fin h (isErr r)) := by
  have hg := hh.grade
  have hl : Logged v (sh.failing h r) h (isErr r) := by simpa using hg.2.failing sh r
  cases r with
  | ok a => exact ⟨⟨hh.spot, hh.guards, hh.listing, hh.wire, fun b hb => nomatch hb⟩, hg.1, hl⟩
  | error e =>
    exact ⟨⟨hh.spot, hh.guards, hh.listing, hh.wire, fun b hb => nomatch hb⟩,
      hg.1.failing sh (.error e), hl⟩

/-- The completion reply of the transfer on `h`. -/
theorem completed {r : FtpResult Unit} (hl : Layout v sh m) (hs : m'.spot = m.spot)
    (hg : m'.guards = m.guards) (hli : m'.listing = m.listing) (hw : m'.wire = some (h, .idle))
    (he : m'.seen = none) : Layout v ((sh.setWire h .idle).failing h r) m' := by
  have hfr : ((sh.setWire h .idle).failing h r).slot = sh.slot ∧
      ((sh.setWire h .idle).failing h r).held = sh.held ∧
      ((sh.setWire h .idle).failing h r).guards = sh.guards ∧
      ((sh.setWire h .idle).failing h r).listing = sh.listing ∧
      ((sh.setWire h .idle).failing h r).wire h = .idle := by
    cases r <;> simp [Shared.failing, Shared.setWire, Shared.setHealth]
  obtain ⟨h1, h2, h3, h4, h5⟩ := hfr
  refine ⟨?_, by rw [h3, hg, hl.guards], by rw [h4, hli, hl.listing], fun _ h' w hw' => ?_,
    fun b hb => by rw [he] at hb; cases hb⟩
  · have := hl.spot
    rw [hs]
    cases hm : m.spot <;> simp_all
  · rw [hw] at hw'
    cases hw'
    exact h5

/-- `own` to `don`: a transfer finalized at EOF. -/
theorem finish_own {r : FtpResult Unit} (hh : Holds v sh t (.own h)) :
    Holds v ((sh.setWire h .idle).failing h r) t (.don h (isErr r)) where
  toLayout := completed hh.toLayout rfl rfl rfl rfl rfl
  grade := ⟨Settled.failing (sh.setWire h .idle) hh.grade.1 r, by
    simpa using Logged.failing (sh.setWire h .idle) hh.grade.2 r⟩

/-- `fin` to `don`: finalized after the drain, whose failure (`d`) stays unrecorded. -/
theorem finish_fin {r : FtpResult Unit} (hh : Holds v sh t (.fin h d)) :
    Holds v ((sh.setWire h .idle).failing h r) t (.don h (d || isErr r)) where
  toLayout := completed hh.toLayout rfl rfl rfl rfl rfl
  grade := ⟨Settled.failing (sh.setWire h .idle) hh.grade.1 r,
    Logged.failing (sh.setWire h .idle) hh.grade.2 r⟩

/-- `data` to `fini`: the completion reply of a listing. -/
theorem finish_data {r : FtpResult Unit} (hh : Holds v sh t (.data p h d)) :
    Holds v ((sh.setWire h .idle).failing h r) t (.fini p h (d || isErr r)) where
  toLayout := completed hh.toLayout rfl rfl rfl rfl rfl
  grade := ⟨Mine.failing (sh.setWire h .idle) hh.grade.1 r,
    Logged.failing (sh.setWire h .idle) hh.grade.2 r⟩

/-- `own` to `don`: the data socket closes, and the completion reply stays unread. -/
theorem dropTransfer_own (hh : Holds v sh t (.own h)) :
    Holds v (sh.setWire h .idle) t (.don h false) where
  toLayout := completed (r := .ok ()) hh.toLayout rfl rfl rfl rfl rfl
  grade := hh.grade

/-- `fin` to `don`: the same behind a drain. -/
theorem dropTransfer_fin (hh : Holds v sh t (.fin h d)) :
    Holds v (sh.setWire h .idle) t (.don h d) where
  toLayout := completed (r := .ok ()) hh.toLayout rfl rfl rfl rfl rfl
  grade := hh.grade

/-- `uq` to `uh`: the stream moves to a local. It is `ok` if the flag was read as usable. -/
theorem take {lk : Bool} {us : Option Bool} (hh : Holds v sh t (.uq lk us)) (hs : sh.slot = some h) :
    Holds v { sh with slot := none, held := sh.slot.toList ++ sh.held } t
      (.uh lk h (us = some true)) := by
  obtain ⟨hset, hrest⟩ := hh.grade
  obtain ⟨hw, hrec⟩ := hrest h hs
  have hheld : sh.held = [] := hh.spot
  refine ⟨⟨?_, hh.guards, hh.listing, fun hv h' w hw' => ?_, fun b hb => nomatch hb⟩, ?_⟩
  · simp [hs, hheld]
  · cases hw'; exact hw hv
  · by_cases hus : us = some true
    · simp only [hus, decide_true, Mode.grade]
      refine ⟨hset, fun hb => ?_⟩
      have h1 := hh.seen true (by simpa using hus)
      have h2 := hrec hb
      rw [h1] at h2
      cases h2
    · simp only [hus, decide_false, Mode.grade]
      exact hset.mine

/-- `uq` to `un`: the slot was empty. -/
theorem empty {lk : Bool} {us : Option Bool} (hh : Holds v sh t (.uq lk us)) (hs : sh.slot = none) :
    Holds v sh t (.un lk) :=
  ⟨⟨⟨hs, hh.spot⟩, hh.guards, hh.listing, fun _ _ _ hw => (nomatch hw), fun _ hb => nomatch hb⟩,
    hh.grade.1⟩

/-- `un` to `uh`: a new control stream. -/
theorem connected {banner : Option L1.Str} (hh : Holds v sh t (.un false)) (hf : Fresh sh) :
    Holds v { sh with
      held := sh.next :: sh.held
      next := sh.next + 1
      banner := Function.update sh.banner sh.next banner } t (.uh false sh.next true) := by
  obtain ⟨hs, hheld⟩ := hh.spot
  refine ⟨⟨⟨hs, by simp [hheld]⟩, hh.guards, hh.listing, fun _ h' w hw => ?_,
    fun b hb => nomatch hb⟩, hh.grade, ?_⟩
  · cases hw
    exact hf.wire _ (Nat.le_refl _)
  · have h1 := hf.health _ (Nat.le_refl sh.next)
    have h2 := hf.cancelled _ (Nat.le_refl sh.next)
    cases v <;> simp [h1, h2]

/-- `uh` to `uPut`: the stream that was set up goes to the slot. -/
theorem installed {lk : Bool} (hh : Holds v sh t (.uh lk h true)) :
    Holds v { sh with slot := some h, held := sh.held.erase h } t (.uPut lk) := by
  obtain ⟨hs, hheld⟩ := hh.spot
  refine ⟨⟨by simp [hheld], hh.guards, hh.listing, fun _ h' w hw => (nomatch hw),
    fun b hb => nomatch hb⟩, hh.grade.1, fun h' hs' => ?_⟩
  cases hs'
  exact ⟨fun hv => hh.wire hv h _ rfl, fun hb => absurd hb hh.grade.2⟩

/-- `exLk` to `exPut`: the stream of an `ExclusiveStream` goes back. -/
theorem putBack (hh : Holds v sh t (.exLk h)) :
    Holds v { sh with slot := some h, held := sh.held.erase h } t (.exPut h) := by
  obtain ⟨hs, hheld⟩ := hh.spot
  exact ⟨⟨⟨rfl, by simp [hheld]⟩, hh.guards, hh.listing, hh.wire, fun b hb => nomatch hb⟩, hh.grade⟩

section
variable [DecidableEq T]

/-- `uh` to `un`: the local is dropped. -/
theorem closed {lk ok : Bool} (hh : Holds v sh t (.uh lk h ok)) :
    Holds v (({ sh with held := sh.held.erase h }).endSection t) t (.un lk) := by
  obtain ⟨hs, hheld⟩ := hh.spot
  refine ⟨⟨⟨hs, by simp [Shared.endSection, hheld]⟩, hh.guards, hh.listing,
    fun _ h' w hw => (nomatch hw), fun b hb => nomatch hb⟩, ?_⟩
  exact Mine.endSection { sh with held := sh.held.erase h } hh.grade.mine

/-- The mutex is released, the control stream kept. -/
theorem unlocked (hh : Holds v sh t m) (hs : m'.spot = m.spot) (hg : m'.guards = m.guards)
    (hl : m'.listing = m.listing) (hw : m'.wire = m.wire) (he : m'.seen = m.seen)
    (hgr : m'.grade.Ok v (({ sh with lock := none }).endSection t) t) :
    Holds v (({ sh with lock := none }).endSection t) t m' where
  spot := hs ▸ hh.spot
  guards := hg ▸ hh.guards
  listing := hl ▸ hh.listing
  wire := hw ▸ hh.wire
  seen := he ▸ hh.seen
  grade := hgr

end
end Holds

/-! ## Rules for steps -/

variable [DecidableEq T] {n : Next Mode}

/-- A step that answered leads to a mode in which the invariant holds. -/
def Kept (v : Variant) (sh' : Shared T) (ms : T → Mode) (t : T) (n : Next Mode) : Prop :=
  ∃ m', n = .go m' ∧ ∃ ct, Inv v sh' (Function.update ms t m') ct

/-- Modes with the same share in the locks, the flags and the client. -/
structure Like (m m' : Mode) : Prop where
  locks : m'.locks = m.locks
  uses : m'.uses = m.uses
  raises : m'.raises = m.raises
  isUnique : m'.isUnique = m.isUnique
  borrows : m'.borrows = true → m.borrows = true

/-- Nothing that a thread shares with others changes. -/
structure Same (sh sh' : Shared T) : Prop where
  lock : sh'.lock = sh.lock
  active : sh'.active = sh.active
  readers : sh'.readers = sh.readers
  writer : sh'.writer = sh.writer
  pool : sh'.pool = sh.pool

/-- The user takes a step that leaves the locks and the flag alone. -/
theorem Kept.stay (m' : Mode) (hi : Inv v sh ms ct) (hm : ms t = m) (hu : m.uses = true) (hn : n = .go m')
    (hs : Same sh sh') (hl : Like m m') (hh : Holds v sh t m → Holds v sh' t m')
    (hf : Holds v sh t m → Fresh sh') : Kept v sh' ms t n := by
  obtain rfl := hi.user (t := t) (by rw [hm, hu])
  have hold := hi.holds t rfl
  subst hm
  exact ⟨m', hn, _, hi.use (by rw [hl.uses, hu]) (hi.locked.same hl.locks hs.lock) (hh hold) hs.pool
    (by rw [hs.active, hl.raises, hi.active_eq])
    (hi.borrowed.update hl.borrows hl.isUnique hs.readers hs.writer) (hf hold)⟩

/-- A step that changes nothing but what others may change as well. -/
theorem Kept.calm (m' : Mode) (hi : Inv v sh ms ct) (hm : ms t = m) (hu : m.uses = true) (hn : n = .go m')
    (hs : Same sh sh') (hl : Like m m') (hc : Calm sh sh')
    (hh : Holds v sh t m → Holds v sh' t m') : Kept v sh' ms t n :=
  Kept.stay m' hi hm hu hn hs hl hh fun _ => hc.fresh hi.fresh

/-- A thread that does not use the control stream takes a step. -/
theorem Kept.mild (m' : Mode) (hi : Inv v sh ms ct) (hm : ms t = m) (hu : m.uses = false) (hn : n = .go m')
    (hM : Mild sh sh') (hl : Locked sh' (Function.update ms t m')) (huses : m'.uses = false)
    (hb : m'.borrows = true → m.borrows = true) (hun : m'.isUnique = m.isUnique)
    (hr : sh'.readers = sh.readers) (hwr : sh'.writer = sh.writer) (hk : Knows v sh' ct m')
    (hw : ∀ h, m = .win h → sh'.usable = false)
    (hus : sh'.usable = sh.usable ∨ m.borrows = true) : Kept v sh' ms t n := by
  subst hm
  exact ⟨m', hn, ct, hi.mild hM hu huses hl (hi.borrowed.update hb hun hr hwr) hk hw hus⟩

/-- ... and changes nothing. -/
theorem Kept.look (m' : Mode) (hi : Inv v sh ms ct) (hm : ms t = m) (hu : m.uses = false) (hn : n = .go m')
    (hl : Like m m') (hk : Knows v sh ct m') (hw : ∀ h, m ≠ .win h) : Kept v sh ms t n :=
  Kept.mild m' hi hm hu hn ⟨⟨rfl, rfl, rfl, rfl, rfl, rfl, rfl, rfl, .inr rfl⟩, rfl, rfl⟩
    (hi.locked.same (by rw [hm, hl.locks]) rfl) (by rw [hl.uses, hu]) hl.borrows hl.isUnique rfl rfl hk
    (fun h he => absurd he (hw h)) (.inl rfl)

/-! ## Steps on the control stream -/

/-- A command goes out on a stream whose reply was read: in a section (`sec`), or by
`connect` and `disconnect` on their local (`uh`). -/
theorem keeps_send {o : Oracle} {r : Unit} (hi : Inv v sh ms ct)
    (hp : perform sh t (.send h c) o = some (sh', r)) (hn : (ms t).next v (.send h c) r ≠ .stop) :
    Kept v sh' ms t ((ms t).next v (.send h c) r) := by
  simp only [perform, Option.some.injEq, Prod.mk.injEq] at hp
  obtain ⟨rfl, -⟩ := hp
  have hg := hi.not_gone (t := t)
  cases hm : ms t with
  | sec p h' d =>
    simp [hm] at hn
    obtain ⟨rfl, hp⟩ := hn
    exact Kept.stay (.busy p h c) hi hm rfl (by simp [hp]) ⟨rfl, rfl, rfl, rfl, rfl⟩
      ⟨rfl, rfl, rfl, rfl, id⟩ (fun hh => hh.send hp) fun hh =>
        hi.fresh.setWire (hh.below hi.fresh rfl) _
  | uh lk h' ok =>
    cases lk <;> cases ok <;> simp [hm] at hn
    subst hn
    exact Kept.stay (.busy .unique h c) hi hm rfl (by simp) ⟨rfl, rfl, rfl, rfl, rfl⟩
      ⟨rfl, rfl, rfl, rfl, id⟩ (fun hh => hh.send_unique) fun hh =>
        hi.fresh.setWire (hh.below hi.fresh rfl) _
  | _ => simp [hm] at hn hg

/-- The stream builder runs inside the call whose command is out (`busy`). -/
theorem keeps_builder {o : Oracle} {r : Bool} (hi : Inv v sh ms ct)
    (hp : perform sh t (.builder h) o = some (sh', r)) (hn : (ms t).next v (.builder h) r ≠ .stop) :
    Kept v sh' ms t ((ms t).next v (.builder h) r) := by
  have hg := hi.not_gone (t := t)
  cases hm : ms t with
  | busy p h' c =>
    simp only [hm, next, onBuilder, reduceCtorEq, if_false] at hn
    split at hn
    · rename_i hc
      obtain ⟨rfl, hpu⟩ := hc
      simp only [perform] at hp
      split at hp
      · obtain ⟨rfl, rfl⟩ : _ ∧ true = r := by simpa using hp
        exact Kept.stay (.bld p h c) hi hm rfl (by simp [hpu]) ⟨rfl, rfl, rfl, rfl, rfl⟩
          ⟨rfl, rfl, rfl, rfl, id⟩ (fun hh => hh.broken hpu) fun hh =>
            hi.fresh.setHealth (hh.below hi.fresh rfl) _
      · obtain ⟨rfl, rfl⟩ : sh = sh' ∧ false = r := by simpa using hp
        exact Kept.stay (.busy p h c) hi hm rfl (by simp [hpu]) ⟨rfl, rfl, rfl, rfl, rfl⟩
          ⟨rfl, rfl, rfl, rfl, id⟩ id fun _ => hi.fresh
    · exact absurd rfl hn
  | _ => simp [hm] at hn hg

/-- The reply to the command that is out. Only an accepted `LIST`, `RETR`, `STOR`
or `APPE` opens a transfer, and a local never does. -/
theorem keeps_recv {o : Oracle} {r : FtpResult Response} (hi : Inv v sh ms ct)
    (hp : perform sh t (.recv h c) o = some (sh', r)) (hn : (ms t).next v (.recv h c) r ≠ .stop) :
    Kept v sh' ms t ((ms t).next v (.recv h c) r) := by
  simp only [perform, Option.some.injEq, Prod.mk.injEq] at hp
  obtain ⟨rfl, rfl⟩ := hp
  have hg := hi.not_gone (t := t)
  cases hm : ms t with
  | busy p h' c' =>
    simp only [hm, next, onRecv, reduceCtorEq, if_false] at hn
    split at hn
    · rename_i hc
      obtain ⟨rfl, rfl⟩ := hc
      by_cases hpu : p = .unique
      · subst hpu
        -- on a local no command opens a transfer
        dsimp only at hn
        split at hn
        · exact absurd rfl hn
        · rename_i hc
          have hw : c.wireAfter o.reply = .idle := by
            cases hr : o.reply <;> simp [Command.wireAfter, hc]
          rw [hw]
          exact Kept.stay (.uh false h (!needsReconnect o.reply)) hi hm rfl (by simp [hc])
            ⟨rfl, rfl, rfl, rfl, rfl⟩ ⟨rfl, rfl, rfl, rfl, id⟩ (fun hh => hh.recv_unique)
            fun hh => (hi.fresh.setWire (hh.below hi.fresh rfl) _).setHealth
              (hh.below hi.fresh rfl) _
      -- in a section: a failure, a transfer, or a plain reply
      · have hfresh : ∀ w x, Holds v sh t (.busy p h c) →
            Fresh ((sh.setWire h w).setHealth h x) := fun w x hh =>
          (hi.fresh.setWire (hh.below hi.fresh rfl) _).setHealth (hh.below hi.fresh rfl) _
        cases hr : o.reply with
        | error e =>
          exact Kept.stay (.sec p h (transferSetupRequiresReconnect e)) hi hm rfl
            (by cases p <;> simp at hpu ⊢) ⟨rfl, rfl, rfl, rfl, rfl⟩ ⟨rfl, rfl, rfl, rfl, id⟩
            (fun hh => hh.recv hpu) (hfresh _ _)
        | ok reply =>
          by_cases hc : c.opensData = true
          · have hw : c.wireAfter (.ok reply) = .data := by simp [Command.wireAfter, hc]
            rw [hw]
            exact Kept.stay (.data p h false) hi hm rfl (by cases p <;> simp [hc] at hpu ⊢)
              ⟨rfl, rfl, rfl, rfl, rfl⟩ ⟨rfl, rfl, rfl, rfl, id⟩ (fun hh => hh.recv_data hpu)
              (hfresh _ _)
          · have hw : c.wireAfter (.ok reply) = .idle := by simp [Command.wireAfter, hc]
            rw [hw]
            exact Kept.stay (.sec p h false) hi hm rfl (by cases p <;> simp [hc] at hpu ⊢)
              ⟨rfl, rfl, rfl, rfl, rfl⟩ ⟨rfl, rfl, rfl, rfl, id⟩ (fun hh => hh.recv hpu)
              (hfresh _ _)
    · exact absurd rfl hn
  | _ => simp [hm] at hn hg

/-! ## Steps on the data socket -/

/-- The owner reads, writes or waits (`own`); the shared state is untouched. -/
theorem keeps_read {e : Eff} {o : Oracle} {r : e.Ret} (he : (∃ n, e = .read h n) ∨
    (∃ n, e = .copyTake h n) ∨ (∃ b, e = .write h b) ∨ e = .flush h false ∨ e = .poll)
    (hi : Inv v sh ms ct) (hp : perform sh t e o = some (sh', r))
    (hn : (ms t).next v e r ≠ .stop) : Kept v sh' ms t ((ms t).next v e r) := by
  have hg := hi.not_gone (t := t)
  obtain rfl : sh = sh' := by
    rcases he with ⟨n, rfl⟩ | ⟨n, rfl⟩ | ⟨b, rfl⟩ | rfl | rfl <;>
      simp only [perform, Bool.false_eq_true, if_false, Option.some.injEq, Prod.mk.injEq] at hp <;>
      exact hp.1
  obtain ⟨h', hm⟩ : ∃ h', ms t = .own h' := by
    rcases he with ⟨n, rfl⟩ | ⟨n, rfl⟩ | ⟨b, rfl⟩ | rfl | rfl <;>
      cases hm : ms t <;> simp_all
  have hgo : (ms t).next v e r = .go (.own h') := by
    rcases he with ⟨n, rfl⟩ | ⟨n, rfl⟩ | ⟨b, rfl⟩ | rfl | rfl <;> simp_all
  exact Kept.stay (.own h') hi hm rfl hgo ⟨rfl, rfl, rfl, rfl, rfl⟩ ⟨rfl, rfl, rfl, rfl, id⟩ id
    fun _ => hi.fresh

/-- Draining a download and flushing an upload, both by the owner. -/
theorem keeps_drain {ε α : Type} {r : Except ε α} {n : Next Mode} (hi : Inv v sh ms ct)
    (hn : n = (if ms t = .gone then .go .gone else (ms t).onDrain h (isErr r))) (hs : n ≠ .stop) :
    Kept v (sh.failing h r) ms t n := by
  have hg := hi.not_gone (t := t)
  subst hn
  have hsame : Same sh (sh.failing h r) := by cases r <;> exact ⟨rfl, rfl, rfl, rfl, rfl⟩
  cases hm : ms t with
  | own h' =>
    simp [hm] at hs
    subst hs
    exact Kept.stay (.fin h (isErr r)) hi hm rfl (by simp) hsame ⟨rfl, rfl, rfl, rfl, id⟩
      (fun hh => hh.drain) fun hh => hi.fresh.failing (hh.below hi.fresh rfl) r
  | _ => simp [hm] at hs hg

/-- A listing is read inside its section (`data`). -/
theorem keeps_readToEnd {o : Oracle} {r : Except IoError (List UInt8)} (hi : Inv v sh ms ct)
    (hp : perform sh t (.readToEnd h) o = some (sh', r))
    (hn : (ms t).next v (.readToEnd h) r ≠ .stop) :
    Kept v sh' ms t ((ms t).next v (.readToEnd h) r) := by
  simp only [perform, Option.some.injEq, Prod.mk.injEq] at hp
  obtain ⟨rfl, rfl⟩ := hp
  have hg := hi.not_gone (t := t)
  have hsame : Same sh (sh.failing h o.bytes) := by cases o.bytes <;> exact ⟨rfl, rfl, rfl, rfl, rfl⟩
  cases hm : ms t with
  | data p h' d =>
    simp [hm] at hn
    obtain ⟨rfl, hpu⟩ := hn
    exact Kept.stay (.data p h (d || isErr o.bytes)) hi hm rfl (by simp [hpu]) hsame
      ⟨rfl, rfl, rfl, rfl, id⟩ (fun hh => hh.failing)
      fun hh => hi.fresh.failing (hh.below hi.fresh rfl) _
  | _ => simp [hm] at hn hg

/-- The completion reply: of the owner's transfer, at EOF or behind a drain, or of a
listing. -/
theorem keeps_finish {o : Oracle} {r : FtpResult Unit} (hi : Inv v sh ms ct)
    (hp : perform sh t (.finish h) o = some (sh', r)) (hn : (ms t).next v (.finish h) r ≠ .stop) :
    Kept v sh' ms t ((ms t).next v (.finish h) r) := by
  simp only [perform, Option.some.injEq, Prod.mk.injEq] at hp
  obtain ⟨rfl, rfl⟩ := hp
  have hg := hi.not_gone (t := t)
  have hsame : Same sh ((sh.setWire h .idle).failing h o.finished) := by
    cases o.finished <;> exact ⟨rfl, rfl, rfl, rfl, rfl⟩
  have hfresh : ∀ {m w}, m.wire = some (h, w) → Holds v sh t m →
      Fresh ((sh.setWire h .idle).failing h o.finished) := fun hw hh =>
    Fresh.failing (hi.fresh.setWire (hh.below hi.fresh hw) _) (hh.below hi.fresh hw) _
  cases hm : ms t with
  | own h' =>
    simp [hm] at hn
    subst hn
    exact Kept.stay (.don h (isErr o.finished)) hi hm rfl (by simp) hsame ⟨rfl, rfl, rfl, rfl, id⟩
      (fun hh => hh.finish_own) (hfresh rfl)
  | fin h' d =>
    simp [hm] at hn
    subst hn
    exact Kept.stay (.don h (d || isErr o.finished)) hi hm rfl (by simp) hsame
      ⟨rfl, rfl, rfl, rfl, id⟩ (fun hh => hh.finish_fin) (hfresh rfl)
  | data p h' d =>
    simp [hm] at hn
    obtain ⟨rfl, hpu⟩ := hn
    exact Kept.stay (.fini p h (d || isErr o.finished)) hi hm rfl (by simp [hpu]) hsame
      ⟨rfl, rfl, rfl, rfl, id⟩ (fun hh => hh.finish_data) (hfresh rfl)
  | _ => simp [hm] at hn hg

/-- A transfer is dropped by its owner, or with the future that held the mutex. -/
theorem keeps_dropTransfer {o : Oracle} {r : Unit} (hi : Inv v sh ms ct)
    (hp : perform sh t (.dropTransfer h) o = some (sh', r))
    (hn : (ms t).next v (.dropTransfer h) r ≠ .stop) :
    Kept v sh' ms t ((ms t).next v (.dropTransfer h) r) := by
  simp only [perform, Option.some.injEq, Prod.mk.injEq] at hp
  obtain ⟨rfl, -⟩ := hp
  have hg := hi.not_gone (t := t)
  cases hm : ms t with
  | own h' =>
    simp [hm] at hn
    subst hn
    exact Kept.stay (.don h false) hi hm rfl (by simp) ⟨rfl, rfl, rfl, rfl, rfl⟩
      ⟨rfl, rfl, rfl, rfl, id⟩ (fun hh => hh.dropTransfer_own) fun hh =>
        hi.fresh.setWire (hh.below hi.fresh rfl) _
  | fin h' d =>
    simp [hm] at hn
    subst hn
    exact Kept.stay (.don h d) hi hm rfl (by simp) ⟨rfl, rfl, rfl, rfl, rfl⟩
      ⟨rfl, rfl, rfl, rfl, id⟩ (fun hh => hh.dropTransfer_fin) fun hh =>
        hi.fresh.setWire (hh.below hi.fresh rfl) _
  | cutting h' =>
    simp [hm] at hn
    subst hn
    refine Kept.stay (.cutting h) hi hm rfl (by simp) ⟨rfl, rfl, rfl, rfl, rfl⟩
      ⟨rfl, rfl, rfl, rfl, id⟩ (fun hh => ⟨⟨hh.spot, hh.guards, hh.listing,
        fun _ _ _ hw => (nomatch hw), fun _ hb => nomatch hb⟩, hh.grade⟩) fun hh =>
        hi.fresh.setWire (hi.fresh.slot h hh.spot.1) _
  | _ => simp [hm] at hn hg

/-! ## Steps on the flags -/

/-- The transfer flag is read. Down, it tells a thread under the mutex or alone with
the client that nobody uses the control stream. -/
theorem keeps_loadActive {o : Oracle} {r : Bool} (hi : Inv v sh ms ct)
    (hp : perform sh t .loadActive o = some (sh', r)) (hn : (ms t).next v .loadActive r ≠ .stop) :
    Kept v sh' ms t ((ms t).next v .loadActive r) := by
  simp only [perform, Option.some.injEq, Prod.mk.injEq] at hp
  obtain ⟨rfl, rfl⟩ := hp
  have hg := hi.not_gone (t := t)
  cases hm : ms t with
  | shr =>
    exact Kept.look .shr hi hm rfl (by simp) ⟨rfl, rfl, rfl, rfl, id⟩ trivial (by simp)
  | lkd =>
    cases ha : sh.active with
    | true => exact Kept.look .lkd hi hm rfl (by simp) ⟨rfl, rfl, rfl, rfl, id⟩ trivial (by simp)
    | false =>
      -- the flag is down under the mutex
      have hct := hi.nobody (t := t) ha (by simp [hm]) (by simp [hm])
      exact Kept.look .chk1 hi hm rfl (by simp) ⟨rfl, rfl, rfl, rfl, id⟩ hct (by simp)
  | u0 =>
    cases ha : sh.active with
    | true => exact Kept.look .uAct hi hm rfl (by simp) ⟨rfl, rfl, rfl, rfl, id⟩ trivial (by simp)
    | false =>
      have hun : (ms t).isUnique = true := by simp [hm]
      -- the flag is down, and nobody else is in the client
      obtain rfl := hi.nobody (t := t) ha (by simp [hm]) (.inr hun)
      have hfr := hi.free rfl
      refine ⟨.uq false none, by simp, _, hi.acquire rfl (hi.locked.same (by simp [hm]) rfl) ?_ rfl rfl
        rfl (hi.borrowed.update (by simp) (by simp [hm]) rfl rfl) hi.fresh fun u _ => ?_⟩
      · refine ⟨⟨hfr.held, hfr.guards, hfr.listing, fun _ _ _ hw => (by cases hw),
          fun _ hb => by cases hb⟩, hfr.settled, fun h hs => ?_⟩
        obtain ⟨hw, hrest⟩ := hfr.rest h hs
        refine ⟨hw, fun hb => ?_⟩
        rcases hrest hb with hr | ⟨u, hr⟩
        · exact hr
        · exact absurd hr (hi.no_win hun u h)
      -- nobody else is at a check
      · have := hi.borrowed.alone hun u
        constructor <;> exact fun e => by simp [e] at this
  | _ => simp [hm] at hn hg

/-- `hw`: no thread is about to record what makes the control stream bad when
the flag still says that the connection is usable. -/
theorem keeps_loadUsable {o : Oracle} {r : Bool} (hi : Inv v sh ms ct)
    (hw : ms t = .chk1 → sh.usable = true → ∀ h, sh.slot = some h → Bad v sh h →
      ∀ u h', ms u ≠ .win h')
    (hp : perform sh t .loadUsable o = some (sh', r)) (hn : (ms t).next v .loadUsable r ≠ .stop) :
    Kept v sh' ms t ((ms t).next v .loadUsable r) := by
  simp only [perform, Option.some.injEq, Prod.mk.injEq] at hp
  obtain ⟨rfl, rfl⟩ := hp
  have hg := hi.not_gone (t := t)
  cases hm : ms t with
  | shr =>
    exact Kept.look .shr hi hm rfl (by simp) ⟨rfl, rfl, rfl, rfl, id⟩ trivial (by simp)
  | chk1 =>
    obtain rfl : ct = .nobody := by have := hi.knows t; rwa [hm] at this
    cases hu : sh.usable with
    | false => exact Kept.look .chk1 hi hm rfl (by simp) ⟨rfl, rfl, rfl, rfl, id⟩ rfl (by simp)
    | true =>
      -- usable: `chk2` has to know that the stream in the slot is not bad
      refine Kept.look .chk2 hi hm rfl (by simp) ⟨rfl, rfl, rfl, rfl, id⟩ ⟨rfl, fun h hs hb => ?_⟩
        (by simp)
      -- the stream in the slot: a failure on it is recorded, or a thread is about to
      rcases ((hi.free rfl).rest h hs).2 hb with hr | ⟨u, hr⟩
      · rw [hu] at hr; cases hr
      · exact hw hm hu h hs hb u h hr
  | uq lk us =>
    -- alone with the client: a second read answers as the first
    have hn' : (Mode.uq lk us).next v .loadUsable sh.usable = .go (.uq lk (some sh.usable)) := by
      cases us with
      | none => simp
      | some b =>
        have hu := hi.user (t := t) (by simp [hm])
        have := (hi.holds t hu).seen b (by simp [hm])
        simp [this]
    exact Kept.stay (.uq lk (some sh.usable)) hi hm rfl hn' ⟨rfl, rfl, rfl, rfl, rfl⟩
      ⟨rfl, rfl, rfl, rfl, id⟩ (fun hh => ⟨⟨hh.spot, hh.guards, hh.listing,
        fun _ _ _ hw => (nomatch hw), fun _ hb => Option.some.inj hb⟩, hh.grade⟩) fun _ => hi.fresh
  | un lk =>
    exact Kept.stay (.un lk) hi hm rfl (by simp) ⟨rfl, rfl, rfl, rfl, rfl⟩
      ⟨rfl, rfl, rfl, rfl, id⟩ id fun _ => hi.fresh
  | _ => simp [hm] at hn hg

/-- Recording a failure, from every mode that may: afterwards nothing is left to
record. `true` is stored only by a thread that emptied the slot (`un`, `uh`). -/
theorem keeps_storeUsable {b : Bool} {o : Oracle} {r : Unit} (hi : Inv v sh ms ct)
    (hp : perform sh t (.storeUsable b) o = some (sh', r))
    (hn : (ms t).next v (.storeUsable b) r ≠ .stop) :
    Kept v sh' ms t ((ms t).next v (.storeUsable b) r) := by
  simp only [perform, Option.some.injEq, Prod.mk.injEq] at hp
  obtain ⟨rfl, -⟩ := hp
  have hg := hi.not_gone (t := t)
  have hsame : Same sh { sh with usable := b } := ⟨rfl, rfl, rfl, rfl, rfl⟩
  have hfresh : Fresh { sh with usable := b } := ⟨hi.fresh.slot, hi.fresh.held, hi.fresh.wire,
    hi.fresh.health, hi.fresh.cancelled⟩
  have hcalm : Calm sh { sh with usable := false } :=
    ⟨rfl, rfl, rfl, rfl, rfl, rfl, rfl, rfl, .inl rfl⟩
  have hmild : Mild sh { sh with usable := false } := ⟨hcalm, rfl, rfl⟩
  have hlog : ∀ h d, Logged v { sh with usable := false } h d := fun h d => .of_unusable rfl
  cases hm : ms t with
  | un lk =>
    exact Kept.stay (.un lk) hi hm rfl (by simp) hsame ⟨rfl, rfl, rfl, rfl, id⟩
      (fun hh => ⟨⟨hh.spot, hh.guards, hh.listing, hh.wire, fun _ hb => nomatch hb⟩, hh.grade⟩)
      fun _ => hfresh
  | uh lk h ok =>
    refine Kept.stay (.uh lk h ok) hi hm rfl (by simp) hsame ⟨rfl, rfl, rfl, rfl, id⟩
      (fun hh => ⟨⟨hh.spot, hh.guards, hh.listing, hh.wire, fun _ hb => nomatch hb⟩, ?_⟩)
      fun _ => hfresh
    have := hh.grade
    cases ok <;> exact this
  | shr =>
    cases b <;> simp [hm] at hn
    exact Kept.mild .shr hi hm rfl (by simp) hmild (hi.locked.same (by simp [hm]) rfl) rfl id rfl
      rfl rfl trivial (fun _ _ => rfl) (.inr rfl)
  -- the record that was left for after the release
  | win h =>
    cases b <;> simp [hm] at hn
    exact Kept.mild .shr hi hm rfl (by simp) hmild (hi.locked.same (by simp [hm]) rfl) rfl id rfl
      rfl rfl trivial (fun _ _ => rfl) (.inr rfl)
  -- in a section: what the last call left is recorded
  | sec p h d =>
    cases b <;> simp [hm] at hn
    refine Kept.stay (.sec p h false) hi hm rfl (by simp) hsame ⟨rfl, rfl, rfl, rfl, id⟩
      (fun hh => ?_) fun _ => hfresh
    have hg := hcalm.grade hh.grade
    exact (hh.calm hcalm (.inl rfl)).of_eq rfl rfl rfl rfl (.inl rfl)
      ⟨hg.1, hg.2.1, hg.2.2.1, hlog h false⟩
  -- the stream builder failed; the reply is still due
  | bld p h c =>
    cases b <;> simp [hm] at hn
    refine Kept.stay (.busy p h c) hi hm rfl (by simp [hn]) hsame ⟨rfl, rfl, rfl, rfl, id⟩
      (fun hh => ?_) fun _ => hfresh
    have hg := hcalm.grade hh.grade
    refine (hh.calm hcalm (.inl rfl)).of_eq rfl rfl rfl rfl (.inl rfl) ?_
    simp only [Mode.grade, hn, if_false]
    exact ⟨hg.1, hg.2, fun _ _ => rfl⟩
  -- at the end of a listing, and of a transfer
  | fini p h d =>
    cases b <;> simp [hm] at hn
    refine Kept.stay (.fini p h false) hi hm rfl (by simp) hsame ⟨rfl, rfl, rfl, rfl, id⟩
      (fun hh => ?_) fun _ => hfresh
    exact (hh.calm hcalm (.inl rfl)).of_eq rfl rfl rfl rfl (.inl rfl)
      ⟨(hcalm.grade hh.grade).1, hlog h false⟩
  -- an owner marks the connection when it is dropped before EOF
  | own h =>
    cases b <;> simp [hm] at hn
    exact Kept.calm (.own h) hi hm rfl (by simp) hsame ⟨rfl, rfl, rfl, rfl, id⟩ hcalm
      fun hh => hh.calm hcalm (.inl rfl)
  | don h d =>
    cases b <;> simp [hm] at hn
    refine Kept.stay (.don h false) hi hm rfl (by simp) hsame ⟨rfl, rfl, rfl, rfl, id⟩
      (fun hh => ?_) fun _ => hfresh
    exact (hh.calm hcalm (.inl rfl)).of_eq rfl rfl rfl rfl (.inl rfl)
      ⟨(hcalm.grade hh.grade).1, hlog h false⟩
  | _ => cases b <;> simp [hm] at hn hg

/-- The transfer flag is raised with the mutex held: for an opened transfer (`data`),
or for a listing that took the stream (`taken`). -/
theorem keeps_storeActive {b : Bool} {o : Oracle} {r : Unit} (hi : Inv v sh ms ct)
    (hp : perform sh t (.storeActive b) o = some (sh', r))
    (hn : (ms t).next v (.storeActive b) r ≠ .stop) :
    Kept v sh' ms t ((ms t).next v (.storeActive b) r) := by
  simp only [perform, Option.some.injEq, Prod.mk.injEq] at hp
  obtain ⟨rfl, -⟩ := hp
  have hg := hi.not_gone (t := t)
  have hcalm : Calm sh { sh with active := b } := ⟨rfl, rfl, rfl, rfl, rfl, rfl, rfl, rfl, .inr rfl⟩
  cases hm : ms t with
  | data p h d =>
    cases p <;> cases d <;> cases b <;> simp [hm] at hn
    obtain rfl := hi.user (t := t) (by simp [hm])
    have hh := hi.holds t rfl
    rw [hm] at hh
    -- for the transfer: the stream stays in the slot
    refine ⟨.raised h, by simp, _, hi.use rfl (hi.locked.same (by simp [hm]) rfl) ?_ rfl rfl
      (hi.borrowed.update (by simp [hm]) (by simp [hm]) rfl rfl) (hcalm.fresh hi.fresh)⟩
    exact (hh.calm hcalm (.inl rfl)).of_eq rfl rfl rfl rfl (.inl rfl) (hcalm.grade hh.grade)
  | taken h =>
    cases b <;> simp [hm] at hn
    obtain rfl := hi.user (t := t) (by simp [hm])
    have hh := hi.holds t rfl
    rw [hm] at hh
    -- for the listing: the stream is out of the slot
    refine ⟨.takenA h, by simp, _, hi.use rfl (hi.locked.same (by simp [hm]) rfl) ?_ rfl rfl
      (hi.borrowed.update (by simp [hm]) (by simp [hm]) rfl rfl) (hcalm.fresh hi.fresh)⟩
    exact (hh.calm hcalm (.inl rfl)).of_eq rfl rfl rfl rfl (.inl rfl) (hcalm.grade hh.grade)
  | _ => cases b <;> simp [hm] at hn hg

/-- The cached banner and the `connected` mirror. -/
theorem keeps_cache {n : Next Mode} (hi : Inv v sh ms ct)
    (hn : n = (if ms t = .gone then .go .gone else (ms t).onCache)) (hs : n ≠ .stop)
    (hsame : Same sh sh') (hcalm : Calm sh sh') (hu : sh'.usable = sh.usable) :
    Kept v sh' ms t n := by
  have hg := hi.not_gone (t := t)
  subst hn
  cases hm : ms t with
  | shr =>
    exact Kept.mild .shr hi hm rfl (by simp)
      ⟨hcalm, hsame.active, hsame.pool⟩ (hi.locked.same (by simp [hm]) hsame.lock) rfl id rfl
      hsame.readers hsame.writer trivial (by simp) (.inl hu)
  | uh lk h ok =>
    exact Kept.calm (.uh lk h ok) hi hm rfl (by simp) hsame ⟨rfl, rfl, rfl, rfl, id⟩ hcalm
      fun hh => hh.calm hcalm (.inl rfl)
  | uPut lk =>
    exact Kept.calm (.uPut lk) hi hm rfl (by simp) hsame ⟨rfl, rfl, rfl, rfl, id⟩ hcalm
      fun hh => hh.calm hcalm (.inl rfl)
  | un lk =>
    exact Kept.calm (.un lk) hi hm rfl (by simp) hsame ⟨rfl, rfl, rfl, rfl, id⟩ hcalm
      fun hh => hh.calm hcalm (.inl rfl)
  | _ => simp [hm] at hs hg

/-- Settings of a new stream, and its banner. -/
theorem keeps_local {n : Next Mode} (hi : Inv v sh ms ct)
    (hn : n = (if ms t = .gone then .go .gone else (ms t).onLocal)) (hs : n ≠ .stop)
    (hsame : Same sh sh') (hcalm : Calm sh sh') (hu : sh'.usable = sh.usable) :
    Kept v sh' ms t n := by
  have hg := hi.not_gone (t := t)
  subst hn
  cases hm : ms t with
  | lkd =>
    exact Kept.mild .lkd hi hm rfl (by simp)
      ⟨hcalm, hsame.active, hsame.pool⟩ (hi.locked.same (by simp [hm]) hsame.lock) rfl id rfl
      hsame.readers hsame.writer trivial (by simp) (.inl hu)
  | uh lk h ok =>
    exact Kept.calm (.uh lk h ok) hi hm rfl (by simp) hsame ⟨rfl, rfl, rfl, rfl, id⟩ hcalm
      fun hh => hh.calm hcalm (.inl rfl)
  | _ => simp [hm] at hs hg

/-! ## Steps on the slot -/

/-- Looking at the slot. A thread past both checks that finds a stream there uses it
from then on. -/
theorem keeps_slot {o : Oracle} {r : Option Conn} (hi : Inv v sh ms ct)
    (hp : perform sh t .slot o = some (sh', r)) (hn : (ms t).next v .slot r ≠ .stop) :
    Kept v sh' ms t ((ms t).next v .slot r) := by
  simp only [perform, Option.some.injEq, Prod.mk.injEq] at hp
  obtain ⟨rfl, rfl⟩ := hp
  have hg := hi.not_gone (t := t)
  have hsame : Same sh sh := ⟨rfl, rfl, rfl, rfl, rfl⟩
  cases hm : ms t with
  | lkd =>
    exact Kept.look .lkd hi hm rfl (by simp) ⟨rfl, rfl, rfl, rfl, id⟩ trivial (by simp)
  | chk2 =>
    cases hs : sh.slot with
    | none =>
      have hk := hi.knows t
      rw [hm] at hk
      exact Kept.look .chk2 hi hm rfl (by simp) ⟨rfl, rfl, rfl, rfl, id⟩ hk (by simp)
    | some h =>
      obtain ⟨rfl, hheld, hgu, hli, hw, hset, hb, ho⟩ := hi.enter hm hs
      -- the token passes to this thread
      refine ⟨.sec .locked h false, by simp, _, hi.acquire rfl (hi.locked.same (by simp [hm]) rfl) ?_
        rfl rfl rfl (hi.borrowed.update (by simp [hm]) (by simp [hm]) rfl rfl) hi.fresh ho⟩
      refine ⟨⟨⟨hs, hheld⟩, hgu, hli, fun hv h' w hw' => ?_, fun _ hb => nomatch hb⟩, hset.mine,
        not_dead_of_not_bad hb, fun u hu => absurd hu (hset h u true), fun _ hb' => absurd hb' hb⟩
      cases hw'
      exact hw hv
  | sec p h d =>
    cases p <;> simp [hm] at hn
    obtain rfl := hi.user (t := t) (by simp [hm])
    have hs : sh.slot = some h := by
      have := (hi.holds t rfl).spot
      rw [hm] at this
      exact this.1
    exact Kept.stay (.sec .locked h d) hi hm rfl (by simp [hs]) hsame ⟨rfl, rfl, rfl, rfl, id⟩ id
      fun _ => hi.fresh
  | uq lk us =>
    cases hs : sh.slot with
    | none =>
      exact Kept.stay (.un lk) hi hm rfl (by simp) hsame ⟨rfl, rfl, rfl, rfl, id⟩
        (fun hh => hh.empty hs) fun _ => hi.fresh
    | some h =>
      exact Kept.stay (.uq lk us) hi hm rfl (by simp) hsame ⟨rfl, rfl, rfl, rfl, id⟩ id
        fun _ => hi.fresh
  | un lk =>
    obtain rfl := hi.user (t := t) (by simp [hm])
    have hs : sh.slot = none := by
      have := (hi.holds t rfl).spot
      rw [hm] at this
      exact this.1
    exact Kept.stay (.un lk) hi hm rfl (by simp [hs]) hsame ⟨rfl, rfl, rfl, rfl, id⟩ id
      fun _ => hi.fresh
  | _ => simp [hm] at hn hg

/-- Emptying the slot: a listing past both checks, `connect` and `disconnect`. -/
theorem keeps_take {o : Oracle} {r : Option Conn} (hi : Inv v sh ms ct)
    (hp : perform sh t .take o = some (sh', r)) (hn : (ms t).next v .take r ≠ .stop) :
    Kept v sh' ms t ((ms t).next v .take r) := by
  simp only [perform, Option.some.injEq, Prod.mk.injEq] at hp
  obtain ⟨rfl, rfl⟩ := hp
  have hg := hi.not_gone (t := t)
  have hsame : Same sh { sh with slot := none, held := sh.slot.toList ++ sh.held } :=
    ⟨rfl, rfl, rfl, rfl, rfl⟩
  have hfresh : Fresh { sh with slot := none, held := sh.slot.toList ++ sh.held } := by
    refine ⟨fun h hs => (nomatch hs), fun h hh => ?_, hi.fresh.wire, hi.fresh.health,
      hi.fresh.cancelled⟩
    rcases List.mem_append.mp hh with hh | hh
    · exact hi.fresh.slot h (by simpa using hh)
    · exact hi.fresh.held h hh
  cases hm : ms t with
  | chk2 =>
    cases hs : sh.slot with
    | none =>
      have hk := hi.knows t
      rw [hm] at hk
      rw [take_none hs]
      exact Kept.look .chk2 hi hm rfl (by simp) ⟨rfl, rfl, rfl, rfl, id⟩ hk (by simp)
    | some h =>
      obtain ⟨rfl, hheld, hgu, hli, hw, hset, hb, ho⟩ := hi.enter hm hs
      rw [← hs]
      -- the token passes to this thread, and the stream with it
      refine ⟨.taken h, by simp [hs], _, hi.acquire rfl (hi.locked.same (by simp [hm]) rfl) ?_
        rfl rfl rfl (hi.borrowed.update (by simp [hm]) (by simp [hm]) rfl rfl) hfresh ho⟩
      refine ⟨⟨⟨rfl, by simp [hs, hheld]⟩, hgu, hli, fun hv h' w hw' => ?_, fun _ hb => nomatch hb⟩,
        hset, hb⟩
      cases hw'
      exact hw hv
  -- alone with the client: the token is here already
  | uq lk us =>
    cases hs : sh.slot with
    | none =>
      rw [take_none hs]
      exact Kept.stay (.un lk) hi hm rfl (by simp) ⟨rfl, rfl, rfl, rfl, rfl⟩
        ⟨rfl, rfl, rfl, rfl, id⟩ (fun hh => hh.empty hs) fun _ => hi.fresh
    | some h =>
      rw [← hs]
      exact Kept.stay (.uh lk h (us = some true)) hi hm rfl (by simp [hs]) hsame
        ⟨rfl, rfl, rfl, rfl, id⟩ (fun hh => hh.take hs) fun _ => hfresh
  | un lk =>
    obtain rfl := hi.user (t := t) (by simp [hm])
    have hs : sh.slot = none := by
      have := (hi.holds t rfl).spot
      rw [hm] at this
      exact this.1
    rw [hs, take_none hs]
    exact Kept.stay (.un lk) hi hm rfl (by simp) ⟨rfl, rfl, rfl, rfl, rfl⟩
      ⟨rfl, rfl, rfl, rfl, id⟩ id fun _ => hi.fresh
  | _ => simp [hm] at hn hg

/-- Filling the slot: the end of a listing, or of `connect`. -/
theorem keeps_put {o : Oracle} {r : Unit} (hi : Inv v sh ms ct)
    (hp : perform sh t (.put h) o = some (sh', r)) (hn : (ms t).next v (.put h) r ≠ .stop) :
    Kept v sh' ms t ((ms t).next v (.put h) r) := by
  simp only [perform, Option.some.injEq, Prod.mk.injEq] at hp
  obtain ⟨rfl, -⟩ := hp
  have hg := hi.not_gone (t := t)
  cases hm : ms t with
  | exLk h' =>
    simp [hm] at hn
    subst hn
    exact Kept.stay (.exPut h) hi hm rfl (by simp) ⟨rfl, rfl, rfl, rfl, rfl⟩
      ⟨rfl, rfl, rfl, rfl, id⟩ (fun hh => hh.putBack) fun hh =>
        hi.fresh.put (by simp [hh.spot.2])
  | uh lk h' ok =>
    cases ok <;> simp [hm] at hn
    subst hn
    exact Kept.stay (.uPut lk) hi hm rfl (by simp) ⟨rfl, rfl, rfl, rfl, rfl⟩
      ⟨rfl, rfl, rfl, rfl, id⟩ (fun hh => hh.installed) fun hh =>
        hi.fresh.put (by simp [hh.spot.2])
  | _ => simp [hm] at hn hg

/-- `connect` and `disconnect` drop their local. -/
theorem keeps_close {o : Oracle} {r : Unit} (hi : Inv v sh ms ct)
    (hp : perform sh t (.close h) o = some (sh', r)) (hn : (ms t).next v (.close h) r ≠ .stop) :
    Kept v sh' ms t ((ms t).next v (.close h) r) := by
  simp only [perform, Option.some.injEq, Prod.mk.injEq] at hp
  obtain ⟨rfl, -⟩ := hp
  have hg := hi.not_gone (t := t)
  cases hm : ms t with
  | uh lk h' ok =>
    simp [hm] at hn
    subst hn
    have hf : Fresh { sh with held := sh.held.erase h } := ⟨hi.fresh.slot,
      fun h' hh' => hi.fresh.held h' (List.mem_of_mem_erase hh'), hi.fresh.wire, hi.fresh.health,
      hi.fresh.cancelled⟩
    exact Kept.stay (.un lk) hi hm rfl (by simp) ⟨rfl, rfl, rfl, rfl, rfl⟩
      ⟨rfl, rfl, rfl, rfl, id⟩ (fun hh => hh.closed) fun _ => Fresh.endSection _ hf t
  | _ => simp [hm] at hn hg

/-- A new control stream is opened only where there is none (`un`). -/
theorem keeps_connect {host : L1.Str} {port : Nat} {o : Oracle} {r : FtpResult Conn}
    (hi : Inv v sh ms ct) (hp : perform sh t (.connect host port) o = some (sh', r))
    (hn : (ms t).next v (.connect host port) r ≠ .stop) :
    Kept v sh' ms t ((ms t).next v (.connect host port) r) := by
  have hg := hi.not_gone (t := t)
  cases hm : ms t with
  | un lk =>
    cases lk <;> simp [hm] at hn
    simp only [perform] at hp
    split at hp
    · rename_i banner _
      obtain ⟨rfl, rfl⟩ : _ ∧ .ok sh.next = r := by simpa using hp
      refine Kept.stay (.uh false sh.next true) hi hm rfl (by simp) ⟨rfl, rfl, rfl, rfl, rfl⟩
        ⟨rfl, rfl, rfl, rfl, id⟩ (fun hh => hh.connected hi.fresh) fun hh => ?_
      refine ⟨fun h hs => Nat.lt_succ_of_lt (hi.fresh.slot h hs), fun h hh' => ?_,
        fun h hn => hi.fresh.wire h (Nat.le_of_succ_le hn),
        fun h hn => hi.fresh.health h (Nat.le_of_succ_le hn),
        fun h hn => hi.fresh.cancelled h (Nat.le_of_succ_le hn)⟩
      rcases List.mem_cons.mp hh' with rfl | hh'
      · exact Nat.lt_succ_self _
      · exact Nat.lt_succ_of_lt (hi.fresh.held h hh')
    · rename_i e _
      obtain ⟨rfl, rfl⟩ : sh = sh' ∧ .error e = r := by simpa using hp
      exact Kept.stay (.un false) hi hm rfl (by simp) ⟨rfl, rfl, rfl, rfl, rfl⟩
        ⟨rfl, rfl, rfl, rfl, id⟩ id fun _ => hi.fresh
  | _ => simp [hm] at hn hg

/-! ## Guards -/

/-- The `ExclusiveStream` of a listing, made after the mutex is released. -/
theorem keeps_exclusiveNew {o : Oracle} {r : Unit} (hi : Inv v sh ms ct)
    (hp : perform sh t .exclusiveNew o = some (sh', r)) (hn : (ms t).next v .exclusiveNew r ≠ .stop) :
    Kept v sh' ms t ((ms t).next v .exclusiveNew r) := by
  simp only [perform, Option.some.injEq, Prod.mk.injEq] at hp
  obtain ⟨rfl, -⟩ := hp
  have hg := hi.not_gone (t := t)
  cases hm : ms t with
  | exNew h =>
    refine Kept.stay (.sec .exclusive h false) hi hm rfl (by simp) ⟨rfl, rfl, rfl, rfl, rfl⟩
      ⟨rfl, rfl, rfl, rfl, id⟩ (fun hh => ?_) fun _ => ⟨hi.fresh.slot, hi.fresh.held, hi.fresh.wire,
        hi.fresh.health, hi.fresh.cancelled⟩
    obtain ⟨hset, hb⟩ := hh.grade
    exact ⟨⟨hh.spot, hh.guards, by simp [hh.listing], hh.wire, fun _ hb => nomatch hb⟩, hset.mine,
      not_dead_of_not_bad hb, fun u hu => absurd hu (hset h u true), fun _ hb' => absurd hb' hb⟩
  | _ => simp [hm] at hn hg

/-- The `TransferGuard`, made while the mutex is still held. -/
theorem keeps_guardNew {o : Oracle} {r : Unit} (hi : Inv v sh ms ct)
    (hp : perform sh t .guardNew o = some (sh', r)) (hn : (ms t).next v .guardNew r ≠ .stop) :
    Kept v sh' ms t ((ms t).next v .guardNew r) := by
  simp only [perform, Option.some.injEq, Prod.mk.injEq] at hp
  obtain ⟨rfl, -⟩ := hp
  have hg := hi.not_gone (t := t)
  cases hm : ms t with
  | raised h =>
    exact Kept.stay (.guarded h) hi hm rfl (by simp) ⟨rfl, rfl, rfl, rfl, rfl⟩
      ⟨rfl, rfl, rfl, rfl, id⟩ (fun hh => ⟨⟨hh.spot, by simp [hh.guards], hh.listing, hh.wire,
        fun _ hb => nomatch hb⟩, hh.grade⟩) fun _ => ⟨hi.fresh.slot, hi.fresh.held, hi.fresh.wire,
        hi.fresh.health, hi.fresh.cancelled⟩
  | _ => simp [hm] at hn hg

/-- The flag goes down behind a listing, with the stream back in the slot. -/
theorem keeps_exclusiveDrop {o : Oracle} {r : Unit} (hi : Inv v sh ms ct)
    (hp : perform sh t .exclusiveDrop o = some (sh', r))
    (hn : (ms t).next v .exclusiveDrop r ≠ .stop) :
    Kept v sh' ms t ((ms t).next v .exclusiveDrop r) := by
  simp only [perform, Option.some.injEq, Prod.mk.injEq] at hp
  obtain ⟨rfl, -⟩ := hp
  have hg := hi.not_gone (t := t)
  cases hm : ms t with
  | exEnd h =>
    obtain rfl := hi.user (t := t) (by simp [hm])
    have hh := hi.holds t rfl
    rw [hm] at hh
    obtain ⟨hset, hlog⟩ := hh.grade
    -- the token goes back: the stream is in the slot, at rest, its failure recorded
    refine ⟨.shr, by simp, _, hi.release rfl (hi.locked.same (by simp [hm]) rfl) trivial ?_ rfl rfl
      (hi.borrowed.update (by simp [hm]) (by simp [hm]) rfl rfl) ⟨hi.fresh.slot, hi.fresh.held,
        hi.fresh.wire, hi.fresh.health, hi.fresh.cancelled⟩⟩
    refine ⟨hh.spot.2, hh.guards, by simp [hh.listing], hset, fun h' hs => ?_⟩
    obtain rfl : h = h' := Option.some.inj (hh.spot.1.symm.trans hs)
    exact ⟨fun hv => hh.wire hv h _ rfl, fun hb => .inl (hlog (.inr rfl) hb)⟩
  | _ => simp [hm] at hn hg

/-- The flag goes down behind a transfer that is finalized or dropped. -/
theorem keeps_guardDrop {o : Oracle} {r : Unit} (hi : Inv v sh ms ct)
    (hp : perform sh t .guardDrop o = some (sh', r)) (hn : (ms t).next v .guardDrop r ≠ .stop) :
    Kept v sh' ms t ((ms t).next v .guardDrop r) := by
  simp only [perform, Option.some.injEq, Prod.mk.injEq] at hp
  obtain ⟨rfl, -⟩ := hp
  have hg := hi.not_gone (t := t)
  cases hm : ms t with
  | don h d =>
    simp only [hm, next, onGuardDrop, reduceCtorEq, if_false, ne_eq] at hn
    split at hn
    · exact absurd rfl hn
    · rename_i hd
      obtain rfl := hi.user (t := t) (by simp [hm])
      have hh := hi.holds t rfl
      rw [hm] at hh
      obtain ⟨hset, hlog⟩ := hh.grade
      -- the token goes back; only a drop may leave a failure unrecorded
      refine ⟨.idle, by simp only [next, onGuardDrop, reduceCtorEq, if_false, ne_eq, hd], _,
        hi.release rfl (hi.locked.same (by simp [hm]) rfl) trivial ?_ rfl rfl
        (hi.borrowed.update (by simp [hm]) (by simp [hm]) rfl rfl) ⟨hi.fresh.slot, hi.fresh.held,
          hi.fresh.wire, hi.fresh.health, hi.fresh.cancelled⟩⟩
      refine ⟨hh.spot.2, by simp [hh.guards], hh.listing, hset, fun h' hs => ?_⟩
      obtain rfl : h = h' := Option.some.inj (hh.spot.1.symm.trans hs)
      refine ⟨fun hv => hh.wire hv h _ rfl, fun hb => .inl (hlog ?_ hb)⟩
      by_cases hv : v = .cancel
      · exact .inl hv
      · exact .inr (by simpa [hv] using hd)
  | _ => simp [hm] at hn hg

/-! ## The mutex -/

/-- The mutex is free and taken: by a thread that holds nothing (`shr`), at the end of
a listing (`sec`, `fini`), or in `connect` and `disconnect`. -/
theorem keeps_lock {o : Oracle} {r : Unit} (hi : Inv v sh ms ct)
    (hp : perform sh t .lock o = some (sh', r)) (hn : (ms t).next v .lock r ≠ .stop) :
    Kept v sh' ms t ((ms t).next v .lock r) := by
  simp only [perform, Option.ite_none_right_eq_some, Option.some.injEq, Prod.mk.injEq] at hp
  obtain ⟨h0, rfl, -⟩ := hp
  have hg := hi.not_gone (t := t)
  have hcalm : Calm sh { sh with lock := some t } :=
    ⟨rfl, rfl, rfl, rfl, rfl, rfl, rfl, rfl, .inr rfl⟩
  -- a thread that uses the control stream locks again
  have hrelock : ∀ m', (ms t).uses = true → m'.uses = true → m'.locks = true →
      m'.raises = (ms t).raises → m'.isUnique = (ms t).isUnique →
      (m'.borrows = true → (ms t).borrows = true) →
      (Holds v { sh with lock := some t } t (ms t) → Holds v { sh with lock := some t } t m') →
      ∃ ct, Inv v { sh with lock := some t } (Function.update ms t m') ct := by
    intro m' hu hu' hl hr hun hb hh
    obtain rfl := hi.user hu
    exact ⟨_, hi.use hu' (hi.locked.acquire h0 hl rfl) (hh ((hi.holds t rfl).calm hcalm (.inr rfl)))
      rfl (by rw [hr, ← hi.active_eq]) (hi.borrowed.update hb hun rfl rfl) (hcalm.fresh hi.fresh)⟩
  -- the end of a listing, on both ways to get there
  have hlk : ∀ p h d, (ms t = .sec p h d ∨ ms t = .fini p h d) → (ms t).next v .lock r ≠ .stop →
      Kept v { sh with lock := some t } ms t ((ms t).next v .lock r) := by
    intro p h d hm hn
    obtain ⟨rfl, rfl⟩ : p = .exclusive ∧ d = false := by
      rcases hm with hm | hm <;> cases p <;> cases d <;> simp [hm] at hn ⊢
    refine ⟨.exLk h, by rcases hm with hm | hm <;> simp [hm], ?_⟩
    rcases hm with hm | hm
    · refine hrelock _ (by simp [hm]) rfl rfl (by simp [hm]) (by simp [hm]) (by simp [hm])
        fun hh => ?_
      rw [hm] at hh
      exact hh.of_eq rfl rfl rfl rfl (.inl rfl) ⟨hh.grade.1, hh.grade.2.2.2⟩
    · refine hrelock _ (by simp [hm]) rfl rfl (by simp [hm]) (by simp [hm]) (by simp [hm])
        fun hh => ?_
      rw [hm] at hh
      exact hh.of_eq rfl rfl rfl rfl (.inl rfl) hh.grade
  cases hm : ms t with
  | shr =>
    exact Kept.mild .lkd hi hm rfl (by simp) ⟨hcalm, rfl, rfl⟩
      (hi.locked.acquire h0 rfl rfl) rfl id rfl rfl rfl trivial (by simp) (.inl rfl)
  | sec p h d => rw [← hm]; exact hlk p h d (.inl hm) hn
  | fini p h d => rw [← hm]; exact hlk p h d (.inr hm) hn
  | uq lk us =>
    cases lk <;> simp [hm] at hn
    refine ⟨.uq true us, by simp, hrelock _ (by simp [hm]) rfl rfl (by simp [hm]) (by simp [hm])
      (by simp) fun hh => ?_⟩
    rw [hm] at hh
    exact hh.of_eq rfl rfl rfl rfl (.inr rfl) hh.grade
  | un lk =>
    cases lk <;> simp [hm] at hn
    refine ⟨.un true, by simp, hrelock _ (by simp [hm]) rfl rfl (by simp [hm]) (by simp [hm])
      (by simp) fun hh => ?_⟩
    rw [hm] at hh
    exact hh.of_eq rfl rfl rfl rfl (.inr rfl) hh.grade
  | uh lk h ok =>
    cases lk <;> simp [hm] at hn
    refine ⟨.uh true h ok, by simp, hrelock _ (by simp [hm]) rfl rfl (by simp [hm]) (by simp [hm])
      (by simp) fun hh => ?_⟩
    rw [hm] at hh
    refine hh.of_eq rfl rfl rfl rfl (.inr rfl) ?_
    have := hh.grade
    cases ok <;> exact this
  | _ => simp [hm] at hn hg

/-- The user releases the mutex and the control stream. -/
theorem Inv.leave (hi : Inv v sh ms (.thread t)) (hlock : sh.lock = some t) (hs : (ms t).spot = .slot h)
    (hg : (ms t).guards = 0) (hl : (ms t).listing = 0)
    (hw : v = .strict → (ms t).wire = some (h, .idle)) (hr : (ms t).raises = false)
    (hb : (ms t).borrows = true) (hun : (ms t).isUnique = false)
    (hrec : d = false → Recorded v sh h) (hn : Mode.release v h d ≠ .stop) :
    Kept v (({ sh with lock := none }).endSection t) ms t (Mode.release v h d) := by
  have hh := hi.holds t rfl
  have hspot := hh.spot
  rw [hs] at hspot
  obtain ⟨m', hm, hgo⟩ : ∃ m', ((m' = .shr ∧ d = false) ∨ (m' = .win h ∧ v ≠ .strict)) ∧
      Mode.release v h d = .go m' := by
    cases d with
    | false => exact ⟨.shr, .inl ⟨rfl, rfl⟩, rfl⟩
    | true =>
      have hv : v ≠ .strict := by simpa using hn
      exact ⟨.win h, .inr ⟨rfl, hv⟩, by simp [hv]⟩
  have hmode : m'.uses = false ∧ m'.locks = false ∧ m'.isUnique = false := by
    rcases hm with ⟨rfl, -⟩ | ⟨rfl, -⟩ <;> exact ⟨rfl, rfl, rfl⟩
  refine ⟨m', hgo, _, hi.release hmode.1 (hi.locked.release hlock hmode.2.1 rfl) ?_ ?_ rfl
    (by show sh.active = false; rw [hi.active_eq, hr])
    (hi.borrowed.update (fun _ => hb) (by rw [hmode.2.2, hun]) rfl rfl)
    (Fresh.endSection { sh with lock := none } ⟨hi.fresh.slot, hi.fresh.held, hi.fresh.wire,
      hi.fresh.health, hi.fresh.cancelled⟩ t)⟩
  · rcases hm with ⟨rfl, -⟩ | ⟨rfl, hv⟩
    · trivial
    · exact hv
  · refine ⟨hspot.2, by rw [← hg]; exact hh.guards, by rw [← hl]; exact hh.listing,
      Mine.endSection { sh with lock := none } hh.grade.mine, fun h' hs' => ?_⟩
    -- the stream left in the slot is the one that was used
    obtain rfl : h = h' := Option.some.inj (hspot.1.symm.trans hs')
    refine ⟨fun hv => hh.wire hv h _ (hw hv), fun hbad => ?_⟩
    rcases hm with ⟨-, hd⟩ | ⟨rfl, -⟩
    · exact .inl (hrec hd ((bad_endSection { sh with lock := none }).mp hbad))
    · exact .inr ⟨t, by simp⟩

/-- The mutex is released: from the checks with nothing in use, from a section, whose
use of the stream is over, or by a thread that keeps the stream. -/
theorem keeps_unlock {o : Oracle} {r : Unit} (hi : Inv v sh ms ct)
    (hp : perform sh t .unlock o = some (sh', r)) (hn : (ms t).next v .unlock r ≠ .stop) :
    Kept v sh' ms t ((ms t).next v .unlock r) := by
  simp only [perform, Option.ite_none_right_eq_some, Option.some.injEq, Prod.mk.injEq] at hp
  obtain ⟨hlock, rfl, -⟩ := hp
  have hg := hi.not_gone (t := t)
  have hfresh : Fresh (({ sh with lock := none }).endSection t) :=
    Fresh.endSection { sh with lock := none } ⟨hi.fresh.slot, hi.fresh.held, hi.fresh.wire,
      hi.fresh.health, hi.fresh.cancelled⟩ t
  -- nothing was used: the section's end seals no failure of this thread
  have hfree : ∀ m, ms t = m → m.uses = false → m.borrows = true → m.isUnique = false →
      (∀ h, m ≠ .win h) →
      ∃ ct, Inv v (({ sh with lock := none }).endSection t) (Function.update ms t .shr) ct := by
    intro m hm hu hb hun hw
    subst hm
    rw [endSection_eq { sh with lock := none } (hi.unfailed hu)]
    exact ⟨_, hi.mild ⟨⟨rfl, rfl, rfl, rfl, rfl, rfl, rfl, rfl, .inr rfl⟩, rfl, rfl⟩ hu rfl
      (hi.locked.release hlock rfl rfl)
      (hi.borrowed.update (fun _ => hb) (by rw [hun]; rfl) rfl rfl) trivial (fun h he => absurd he (hw h)) (.inl rfl)⟩
  -- the control stream is kept
  have hkeep : ∀ m', (ms t).uses = true → m'.uses = true → m'.locks = false →
      m'.raises = (ms t).raises → m'.isUnique = (ms t).isUnique →
      (m'.borrows = true → (ms t).borrows = true) →
      (Holds v sh t (ms t) → Holds v (({ sh with lock := none }).endSection t) t m') →
      ∃ ct, Inv v (({ sh with lock := none }).endSection t) (Function.update ms t m') ct := by
    intro m' hu hu' hl hr hun hb hh
    obtain rfl := hi.user hu
    exact ⟨_, hi.use hu' (hi.locked.release hlock hl rfl) (hh (hi.holds t rfl)) rfl
      (by rw [hr, ← hi.active_eq]; rfl) (hi.borrowed.update hb hun rfl rfl) hfresh⟩
  cases hm : ms t with
  -- turned away by a check or an empty slot
  | lkd => exact ⟨.shr, by simp, hfree _ hm rfl rfl rfl (by simp)⟩
  | chk1 => exact ⟨.shr, by simp, hfree _ hm rfl rfl rfl (by simp)⟩
  | chk2 => exact ⟨.shr, by simp, hfree _ hm rfl rfl rfl (by simp)⟩
  | sec p h d =>
    cases p <;> simp only [hm, next, onUnlock, reduceCtorEq, if_false, ne_eq] at hn
    case locked =>
      obtain rfl := hi.user (t := t) (by simp [hm])
      have hgr := (hi.holds t rfl).grade
      rw [hm] at hgr
      -- with `d` the record is due: `release` leads to `win`
      exact hi.leave hlock (by simp [hm]) (by simp [hm]) (by simp [hm]) (by simp [hm])
        (by simp [hm]) (by simp [hm]) (by simp [hm]) (fun hd => hgr.2.2.2 (.inr hd)) hn
    all_goals exact absurd trivial hn
  | fini p h d =>
    cases p <;> simp only [hm, next, onUnlock, reduceCtorEq, if_false, ne_eq] at hn
    case locked =>
      obtain rfl := hi.user (t := t) (by simp [hm])
      have hgr := (hi.holds t rfl).grade
      rw [hm] at hgr
      exact hi.leave hlock (by simp [hm]) (by simp [hm]) (by simp [hm]) (by simp [hm])
        (by simp [hm]) (by simp [hm]) (by simp [hm]) (fun hd => hgr.2 (.inr hd)) hn
    all_goals exact absurd trivial hn
  | cutting h =>
    simp only [hm, next, onUnlock, reduceCtorEq, if_false, ne_eq] at hn
    obtain rfl := hi.user (t := t) (by simp [hm])
    have hv : v ≠ .strict := by simpa using hn
    -- the future was dropped: its guard marks the connection once the mutex is free
    exact hi.leave (d := true) hlock (by simp [hm]) (by simp [hm]) (by simp [hm])
      (fun e => absurd e hv) (by simp [hm]) (by simp [hm]) (by simp [hm]) (fun hd => nomatch hd) hn
  -- from here on the thread owns its transfer, and another may lock
  | guarded h =>
    refine ⟨.own h, by simp, hkeep _ (by simp [hm]) rfl rfl (by simp [hm]) (by simp [hm]) (by simp)
      fun hh => ?_⟩
    rw [hm] at hh
    exact hh.unlocked rfl rfl rfl rfl rfl
      ⟨Mine.endSection { sh with lock := none } hh.grade.1,
        Logged.endSection { sh with lock := none } hh.grade.2⟩
  -- a listing goes on with the stream in hand
  | takenA h =>
    refine ⟨.exNew h, by simp, hkeep _ (by simp [hm]) rfl rfl (by simp [hm]) (by simp [hm])
      (by simp [hm]) fun hh => ?_⟩
    rw [hm] at hh
    exact hh.unlocked rfl rfl rfl rfl rfl
      ⟨Mine.endSection { sh with lock := none } hh.grade.1.mine,
        fun hb => hh.grade.2 ((bad_endSection { sh with lock := none }).mp hb)⟩
  -- the stream is back, the flag still up
  | exPut h =>
    refine ⟨.exEnd h, by simp, hkeep _ (by simp [hm]) rfl rfl (by simp [hm]) (by simp [hm])
      (by simp [hm]) fun hh => ?_⟩
    rw [hm] at hh
    exact hh.unlocked rfl rfl rfl rfl rfl
      ⟨Mine.endSection { sh with lock := none } hh.grade.1,
        Logged.endSection { sh with lock := none } hh.grade.2⟩
  -- `connect` and `disconnect` hold the mutex for single steps
  | uq lk us =>
    cases lk <;> simp [hm] at hn
    refine ⟨.uq false us, by simp, hkeep _ (by simp [hm]) rfl rfl (by simp [hm]) (by simp [hm])
      (by simp) fun hh => ?_⟩
    rw [hm] at hh
    refine hh.unlocked rfl rfl rfl rfl rfl
      ⟨Mine.endSection { sh with lock := none } hh.grade.1.mine, fun h hs => ?_⟩
    obtain ⟨hw, hrec⟩ := hh.grade.2 h hs
    exact ⟨hw, fun hb => hrec ((bad_endSection { sh with lock := none }).mp hb)⟩
  | uPut lk =>
    cases lk <;> simp [hm] at hn
    refine ⟨.uPut false, by simp, hkeep _ (by simp [hm]) rfl rfl (by simp [hm]) (by simp [hm])
      (by simp) fun hh => ?_⟩
    rw [hm] at hh
    refine hh.unlocked rfl rfl rfl rfl rfl
      ⟨Mine.endSection { sh with lock := none } hh.grade.1.mine, fun h hs => ?_⟩
    obtain ⟨hw, hrec⟩ := hh.grade.2 h hs
    exact ⟨hw, fun hb => hrec ((bad_endSection { sh with lock := none }).mp hb)⟩
  | un lk =>
    cases lk <;> simp [hm] at hn
    refine ⟨.un false, by simp, hkeep _ (by simp [hm]) rfl rfl (by simp [hm]) (by simp [hm])
      (by simp) fun hh => ?_⟩
    rw [hm] at hh
    exact hh.unlocked rfl rfl rfl rfl rfl
      (Mine.endSection { sh with lock := none } hh.grade.mine)
  | uh lk h ok =>
    cases lk <;> simp [hm] at hn
    refine ⟨.uh false h ok, by simp, hkeep _ (by simp [hm]) rfl rfl (by simp [hm]) (by simp [hm])
      (by simp) fun hh => ?_⟩
    rw [hm] at hh
    have hset := Mine.endSection { sh with lock := none } hh.grade.mine
    refine hh.unlocked rfl rfl rfl rfl rfl ?_
    cases ok with
    | false => exact hset.mine
    | true =>
      exact ⟨hset, fun hb => hh.grade.2 ((bad_endSection { sh with lock := none }).mp hb)⟩
  | _ => simp [hm] at hn hg

/-! ## Every step -/

theorem keeps_step {e : Eff} {o : Oracle} {r : e.Ret} (hi : Inv v sh ms ct)
    (hw : e = .loadUsable → ms t = .chk1 → sh.usable = true → ∀ h, sh.slot = some h → Bad v sh h →
      ∀ u h', ms u ≠ .win h')
    (hp : perform sh t e o = some (sh', r)) (hn : (ms t).next v e r ≠ .stop) :
    Kept v sh' ms t ((ms t).next v e r) := by
  have hrefl : Calm sh sh := ⟨rfl, rfl, rfl, rfl, rfl, rfl, rfl, rfl, .inr rfl⟩
  cases e with
  | lock => exact keeps_lock hi hp hn
  | unlock => exact keeps_unlock hi hp hn
  | loadActive => exact keeps_loadActive hi hp hn
  | storeActive b => exact keeps_storeActive hi hp hn
  | loadUsable => exact keeps_loadUsable hi (hw rfl) hp hn
  | storeUsable b => exact keeps_storeUsable hi hp hn
  | slot => exact keeps_slot hi hp hn
  | take => exact keeps_take hi hp hn
  | put h => exact keeps_put hi hp hn
  | close h => exact keeps_close hi hp hn
  | connect host port => exact keeps_connect hi hp hn
  | send h c => exact keeps_send hi hp hn
  | builder h => exact keeps_builder hi hp hn
  | recv h c => exact keeps_recv hi hp hn
  | exclusiveNew => exact keeps_exclusiveNew hi hp hn
  | exclusiveDrop => exact keeps_exclusiveDrop hi hp hn
  | guardNew => exact keeps_guardNew hi hp hn
  | guardDrop => exact keeps_guardDrop hi hp hn
  | readToEnd h => exact keeps_readToEnd hi hp hn
  | finish h => exact keeps_finish hi hp hn
  | dropTransfer h => exact keeps_dropTransfer hi hp hn
  | read h n => exact keeps_read (.inl ⟨n, rfl⟩) hi hp hn
  | copyTake h n => exact keeps_read (.inr (.inl ⟨n, rfl⟩)) hi hp hn
  | write h buf => exact keeps_read (.inr (.inr (.inl ⟨buf, rfl⟩))) hi hp hn
  | poll => exact keeps_read (h := 0) (.inr (.inr (.inr (.inr rfl)))) hi hp hn
  | copyAll h =>
    simp only [perform, Option.some.injEq, Prod.mk.injEq] at hp
    obtain ⟨rfl, rfl⟩ := hp
    exact keeps_drain hi rfl hn
  | flush h cleanup =>
    cases cleanup with
    | false => exact keeps_read (.inr (.inr (.inr (.inl rfl)))) hi hp hn
    | true =>
      simp only [perform, if_true, Option.some.injEq, Prod.mk.injEq] at hp
      obtain ⟨rfl, rfl⟩ := hp
      exact keeps_drain hi rfl hn
  | loadConnected =>
    simp only [perform, Option.some.injEq, Prod.mk.injEq] at hp
    obtain ⟨rfl, -⟩ := hp
    exact keeps_cache hi rfl hn ⟨rfl, rfl, rfl, rfl, rfl⟩ hrefl rfl
  | loadWelcome =>
    simp only [perform, Option.some.injEq, Prod.mk.injEq] at hp
    obtain ⟨rfl, -⟩ := hp
    exact keeps_cache hi rfl hn ⟨rfl, rfl, rfl, rfl, rfl⟩ hrefl rfl
  | storeConnected b =>
    simp only [perform, Option.some.injEq, Prod.mk.injEq] at hp
    obtain ⟨rfl, -⟩ := hp
    exact keeps_cache hi rfl hn ⟨rfl, rfl, rfl, rfl, rfl⟩
      ⟨rfl, rfl, rfl, rfl, rfl, rfl, rfl, rfl, .inr rfl⟩ rfl
  | storeWelcome w =>
    simp only [perform, Option.some.injEq, Prod.mk.injEq] at hp
    obtain ⟨rfl, -⟩ := hp
    exact keeps_cache hi rfl hn ⟨rfl, rfl, rfl, rfl, rfl⟩
      ⟨rfl, rfl, rfl, rfl, rfl, rfl, rfl, rfl, .inr rfl⟩ rfl
  | getWelcomeMsg h =>
    simp only [perform, Option.some.injEq, Prod.mk.injEq] at hp
    obtain ⟨rfl, -⟩ := hp
    exact keeps_local hi rfl hn ⟨rfl, rfl, rfl, rfl, rfl⟩ hrefl rfl
  | passiveStreamBuilder h =>
    simp only [perform, Option.some.injEq, Prod.mk.injEq] at hp
    obtain ⟨rfl, -⟩ := hp
    exact keeps_local hi rfl hn ⟨rfl, rfl, rfl, rfl, rfl⟩
      ⟨rfl, rfl, rfl, rfl, rfl, rfl, rfl, rfl, .inr rfl⟩ rfl
  | setMode h mode =>
    simp only [perform, Option.some.injEq, Prod.mk.injEq] at hp
    obtain ⟨rfl, -⟩ := hp
    exact keeps_local hi rfl hn ⟨rfl, rfl, rfl, rfl, rfl⟩ hrefl rfl
  | setupTlsConnector =>
    simp only [perform, Option.some.injEq, Prod.mk.injEq] at hp
    obtain ⟨rfl, -⟩ := hp
    exact keeps_local hi rfl hn ⟨rfl, rfl, rfl, rfl, rfl⟩ hrefl rfl

end RemotefsFtp.L5
