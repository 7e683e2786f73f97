import RemotefsFtp.L5Concurrency.Protocol

/-!
# The invariant of a client

At most one thread uses the control stream. The token says who: nobody, the
thread that checked or raised the flag, or the owner of a pooled stream. What
the user's mode says about the shared state (`Holds`) is the whole invariant
but for the order of the two flags: while nobody uses the control stream, a
stream that needs a reconnect is marked so, or is about to be (`Free`).

Nothing another thread does while one uses the control stream touches what
`Holds` speaks of. `Inv.use` and `Inv.mild` are the two step rules;
`Inv.acquire` and `Inv.release` move the token.
-/
namespace RemotefsFtp.L5

open L2 L3

variable {T : Type}

/-! ## What a mode holds -/

namespace Mode

/-- Holds the mutex. -/
def locks : Mode → Bool
  | lkd | chk1 | chk2 | raised _ | guarded _ | taken _ | takenA _ | exLk _ | exPut _
  | cutting _ => true
  | sec p _ _ | busy p _ _ | bld p _ _ | data p _ _ | fini p _ _ => p = .locked
  | uq lk _ | un lk | uh lk _ _ | uPut lk => lk
  | _ => false

/-- Holds the token. -/
def uses : Mode → Bool
  | idle | shr | win _ | lkd | chk1 | chk2 | u0 | uAct | gone => false
  | _ => true

/-- Keeps the transfer flag raised. -/
def raises : Mode → Bool
  | raised _ | guarded _ | own _ | fin _ _ | don _ _ | takenA _ | exNew _ | exLk _ | exPut _
  | exEnd _ => true
  | sec p _ _ | busy p _ _ | bld p _ _ | data p _ _ | fini p _ _ => p = .exclusive
  | _ => false

/-- In an operation on `&mut self`. -/
def isUnique : Mode → Bool
  | u0 | uAct | uq _ _ | un _ | uh _ _ _ | uPut _ => true
  | sec p _ _ | busy p _ _ | bld p _ _ | data p _ _ | fini p _ _ => p = .unique
  | _ => false

/-- In an operation on `&self` that is not over with the client. -/
def borrows : Mode → Bool
  | idle | own _ | fin _ _ | don _ _ | gone => false
  | m => !m.isUnique

end Mode

/-- Where the control stream is. -/
inductive Spot where
  | slot (h : Conn)
  | hand (h : Conn)
  | nowhere
  | unmoved
  deriving DecidableEq

def Spot.Ok (sh : Shared T) : Spot → Prop
  | slot h => sh.slot = some h ∧ sh.held = []
  | hand h => sh.slot = none ∧ sh.held = [h]
  | nowhere => sh.slot = none ∧ sh.held = []
  | unmoved => sh.held = []

def Place.spot (h : Conn) : Place → Spot
  | .locked => .slot h
  | _ => .hand h

namespace Mode

def spot : Mode → Spot
  | sec p h _ | busy p h _ | bld p h _ | data p h _ | fini p h _ => p.spot h
  | raised h | guarded h | own h | fin h _ | don h _ | exPut h | exEnd h | cutting h => .slot h
  | taken h | takenA h | exNew h | exLk h | uh _ h _ => .hand h
  | un _ => .nowhere
  | _ => .unmoved

/-- The number of `TransferGuard`s and of `ExclusiveStream`s alive. -/
def guards : Mode → Nat
  | guarded _ | own _ | fin _ _ | don _ _ => 1
  | _ => 0

def listing : Mode → Nat
  | sec p _ _ | busy p _ _ | bld p _ _ | data p _ _ | fini p _ _ => if p = .exclusive then 1 else 0
  | exLk _ | exPut _ | exEnd _ => 1
  | _ => 0

/-- The control stream in use and what is in progress on it. -/
def wire : Mode → Option (Conn × Wire)
  | sec _ h _ | fini _ h _ | don h _ | taken h | takenA h | exNew h | exLk h | exPut h | exEnd h
  | uh _ h _ => some (h, .idle)
  | busy _ h c | bld _ h c => some (h, .busy c)
  | data _ h _ | raised h | guarded h | own h | fin h _ => some (h, .data)
  | _ => none

/-- What `connection_usable` answered. -/
def seen : Mode → Option Bool
  | uq _ us => us
  | _ => none

end Mode

/-! ## Failures -/

/-- `h` is not to be used again by another operation: in a failed section or
after one, or, where futures are dropped, after a drop with the mutex held. -/
@[simp] def Bad (v : Variant) (sh : Shared T) (h : Conn) : Prop :=
  match v with
  | .cancel => sh.cancelled h = true
  | _ => sh.health h ≠ .fine

/-- ... and not even by the section that failed. -/
@[simp] def Dead (v : Variant) (sh : Shared T) (h : Conn) : Prop :=
  match v with
  | .cancel => sh.cancelled h = true
  | _ => sh.health h = .dead

/-- Only `t` is in a failed section. -/
def Mine (sh : Shared T) (t : T) : Prop := ∀ h u s, sh.health h = .failed u s → u = t

def Settled (sh : Shared T) : Prop := ∀ h u s, sh.health h ≠ .failed u s

/-- A failed stream builder is recorded at once. -/
def Sticky (sh : Shared T) (h : Conn) : Prop := ∀ u, sh.health h = .failed u true → sh.usable = false

def Recorded (v : Variant) (sh : Shared T) (h : Conn) : Prop := Bad v sh h → sh.usable = false

/-- Recorded, unless the mode says that it is not (`d`). -/
def Logged (v : Variant) (sh : Shared T) (h : Conn) (d : Bool) : Prop :=
  v = .cancel ∨ d = false → Recorded v sh h

/-- The stream in the slot is at rest and its failures are recorded. -/
def Rest (v : Variant) (sh : Shared T) : Prop :=
  ∀ h, sh.slot = some h → (v = .strict → sh.wire h = .idle) ∧ Recorded v sh h

/-- What a mode knows of failures. -/
inductive Grade where
  | fine (h : Conn)
  | clear (h : Conn) (d : Bool)
  | sticky (h : Conn)
  | broken (h : Conn)
  | logged (h : Conn) (d : Bool)
  | settled (h : Conn) (d : Bool)
  | mine
  | rest
  | none
  deriving DecidableEq

def Grade.Ok (v : Variant) (sh : Shared T) (t : T) : Grade → Prop
  | fine h => Settled sh ∧ ¬ Bad v sh h
  | clear h d => Mine sh t ∧ ¬ Dead v sh h ∧ Sticky sh h ∧ Logged v sh h d
  | sticky h => Mine sh t ∧ ¬ Dead v sh h ∧ Sticky sh h
  | broken h => Mine sh t ∧ ¬ Dead v sh h
  | logged h d => Mine sh t ∧ Logged v sh h d
  | settled h d => Settled sh ∧ Logged v sh h d
  | mine => Mine sh t
  | rest => Settled sh ∧ Rest v sh
  | none => Settled sh

def Mode.grade : Mode → Grade
  | .sec _ h d => .clear h d
  | .busy p h _ => if p = .unique then .fine h else .sticky h
  | .bld _ h _ => .broken h
  | .data _ h d | .fini _ h d => .logged h d
  | .raised h | .guarded h | .exLk h | .exPut h => .logged h false
  | .own h | .exEnd h => .settled h false
  | .fin h d | .don h d => .settled h d
  | .taken h | .takenA h | .exNew h => .fine h
  | .uh _ h true => .fine h
  | .cutting _ | .uh _ _ false => .mine
  | .uq _ _ | .uPut _ => .rest
  | _ => .none

/-! ## The invariant -/

/-- Who uses the control stream. -/
inductive Token (T : Type) where
  | nobody
  | thread (t : T)
  | pooled

/-- What the mode of the user says, but for failures. -/
structure Layout (v : Variant) (sh : Shared T) (m : Mode) : Prop where
  spot : m.spot.Ok sh
  guards : sh.guards = m.guards
  listing : sh.listing = m.listing
  wire : v = .strict → ∀ h w, m.wire = some (h, w) → sh.wire h = w
  seen : ∀ b, m.seen = some b → sh.usable = b

structure Holds (v : Variant) (sh : Shared T) (t : T) (m : Mode) : Prop extends Layout v sh m where
  grade : m.grade.Ok v sh t

/-- Nobody uses the control stream. -/
structure Free (v : Variant) (sh : Shared T) (ms : T → Mode) : Prop where
  held : sh.held = []
  guards : sh.guards = 0
  listing : sh.listing = 0
  settled : Settled sh
  rest : ∀ h, sh.slot = some h → (v = .strict → sh.wire h = .idle) ∧
    (Bad v sh h → sh.usable = false ∨ ∃ u, ms u = .win h)

/-- The owner of a stream that no operation runs on uses it. -/
structure Pooled (v : Variant) (sh : Shared T) (s : OwnedStream) (h : Conn) : Prop
    extends Layout v sh (.own h) where
  pool : sh.pool = [s]
  inner : s.inner = some h
  grade : Settled sh ∧ Logged v sh h false

/-- What a thread that uses nothing knows. -/
def Knows (v : Variant) (sh : Shared T) (ct : Token T) : Mode → Prop
  | .chk1 => ct = .nobody
  | .chk2 => ct = .nobody ∧ ∀ h, sh.slot = some h → ¬ Bad v sh h
  | .win _ => v ≠ .strict
  | .gone => False
  | _ => True

def Locked (sh : Shared T) (ms : T → Mode) : Prop := ∀ t, (ms t).locks = true ↔ sh.lock = some t

/-- Control streams not opened yet have no history. -/
structure Fresh (sh : Shared T) : Prop where
  slot : ∀ h, sh.slot = some h → h < sh.next
  held : ∀ h ∈ sh.held, h < sh.next
  wire : ∀ h, sh.next ≤ h → sh.wire h = .idle
  health : ∀ h, sh.next ≤ h → sh.health h = .fine
  cancelled : ∀ h, sh.next ≤ h → sh.cancelled h = false

/-- `&self` and `&mut self`. -/
structure Borrowed (sh : Shared T) (ms : T → Mode) : Prop where
  readers : ∀ t, (ms t).borrows = true → t ∈ sh.readers
  writer : ∀ t, (ms t).isUnique = true ↔ sh.writer = some t
  excl : sh.writer ≠ none → sh.readers = []

structure Inv (v : Variant) (sh : Shared T) (ms : T → Mode) (ct : Token T) : Prop where
  locked : Locked sh ms
  token : ∀ t, (ms t).uses = true ↔ ct = .thread t
  knows : ∀ t, Knows v sh ct (ms t)
  holds : ∀ t, ct = .thread t → Holds v sh t (ms t)
  free : ct = .nobody → Free v sh ms
  pooled : ct = .pooled → ∃ s h, Pooled v sh s h
  pool : ct ≠ .pooled → sh.pool = []
  active : sh.active = true ↔ ct = .pooled ∨ ∃ t, ct = .thread t ∧ (ms t).raises = true
  borrowed : Borrowed sh ms
  fresh : Fresh sh

/-! ## Frames -/

variable {v : Variant} {sh sh' : Shared T} {ms : T → Mode} {ct : Token T} {t : T} {m m' : Mode}

theorem Grade.Ok.mine {g : Grade} (h : g.Ok v sh t) : Mine sh t := by
  cases g with
  | fine | settled | rest => exact fun h' u s he => absurd he (h.1 h' u s)
  | none => exact fun h' u s he => absurd he (h h' u s)
  | clear | sticky | broken | logged => exact h.1
  | mine => exact h

theorem Mine.settled_of_ne {u : T} (h : Mine sh u) (hu : u ≠ t) (h' : Conn) (s : Bool) :
    sh.health h' ≠ .failed t s := fun he => hu (h h' t s he).symm

/-- A thread that does not use the control stream has no failed section. -/
theorem Inv.unfailed (hi : Inv v sh ms ct) (ht : (ms t).uses = false) (h : Conn) (s : Bool) :
    sh.health h ≠ .failed t s := by
  cases hct : ct with
  | nobody => exact (hi.free hct).settled h t s
  | pooled =>
    obtain ⟨_, _, hp⟩ := hi.pooled hct
    exact hp.grade.1 h t s
  | thread u =>
    have hu : u ≠ t := fun e => by
      subst e
      rw [(hi.token u).mpr hct] at ht
      cases ht
    exact (hi.holds u hct).grade.mine.settled_of_ne hu h s

theorem endSection_eq [DecidableEq T] (sh : Shared T) (h : ∀ h' s, sh.health h' ≠ .failed t s) : sh.endSection t = sh := by
  have : (fun h' => (sh.health h').sealed t) = sh.health := by
    funext h'
    cases hh : sh.health h' with
    | fine | dead => rfl
    | failed u s =>
      have hu : u ≠ t := fun e => h h' s (by rw [hh, e])
      simp [Health.sealed, hu]
  unfold Shared.endSection
  rw [this]

namespace Locked

variable [DecidableEq T]

theorem same (h : Locked sh ms) (hm : m'.locks = (ms t).locks) (hl : sh'.lock = sh.lock) :
    Locked sh' (Function.update ms t m') := by
  intro u
  by_cases hu : u = t
  · subst hu; simpa [hm, hl] using h u
  · simpa [Function.update_of_ne hu, hl] using h u

theorem acquire (h : Locked sh ms) (h0 : sh.lock = none) (hm : m'.locks = true)
    (hl : sh'.lock = some t) : Locked sh' (Function.update ms t m') := by
  intro u
  by_cases hu : u = t
  · subst hu; simp [hm, hl]
  · have := h u
    simp only [h0, reduceCtorEq, iff_false] at this
    simp [Function.update_of_ne hu, hl, this, Ne.symm hu]

theorem release (h : Locked sh ms) (ht : sh.lock = some t) (hm : m'.locks = false)
    (hl : sh'.lock = none) : Locked sh' (Function.update ms t m') := by
  intro u
  by_cases hu : u = t
  · subst hu; simp [hm, hl]
  · have := h u
    simp only [ht, Option.some.injEq, Ne.symm hu, iff_false] at this
    simp [Function.update_of_ne hu, hl, this]

end Locked

theorem Borrowed.update [DecidableEq T] (h : Borrowed sh ms)
    (hb : m'.borrows = true → (ms t).borrows = true) (hu : m'.isUnique = (ms t).isUnique)
    (hr : sh'.readers = sh.readers) (hw : sh'.writer = sh.writer) :
    Borrowed sh' (Function.update ms t m') where
  readers u hu' := by
    by_cases hut : u = t
    · subst hut; rw [hr]; exact h.readers u (hb (by simpa using hu'))
    · rw [hr]; exact h.readers u (by simpa [Function.update_of_ne hut] using hu')
  writer u := by
    by_cases hut : u = t
    · subst hut; simpa [hu, hw] using h.writer u
    · simpa [Function.update_of_ne hut, hw] using h.writer u
  excl hne := by rw [hr]; exact h.excl (by rwa [← hw])

/-- An operation on `&mut self` runs alone with the client. -/
theorem Borrowed.alone (h : Borrowed sh ms) (ht : (ms t).isUnique = true) (u : T) :
    (ms u).borrows = false := by
  have hw := (h.writer t).mp ht
  have hr := h.excl (by rw [hw]; simp)
  by_contra hu
  have := h.readers u (by simpa using hu)
  rw [hr] at this
  cases this

/-! ## Rules -/

/-- The streams and their history stay; the connection may become unusable. -/
structure Calm (sh sh' : Shared T) : Prop where
  slot : sh'.slot = sh.slot
  held : sh'.held = sh.held
  next : sh'.next = sh.next
  wire : sh'.wire = sh.wire
  health : sh'.health = sh.health
  cancelled : sh'.cancelled = sh.cancelled
  guards : sh'.guards = sh.guards
  listing : sh'.listing = sh.listing
  usable : sh'.usable = false ∨ sh'.usable = sh.usable

/-- What others can do while a thread uses the control stream. -/
structure Mild (sh sh' : Shared T) : Prop extends Calm sh sh' where
  active : sh'.active = sh.active
  pool : sh'.pool = sh.pool

namespace Calm

theorem bad (hm : Calm sh sh') (h : Conn) : Bad v sh' h ↔ Bad v sh h := by
  cases v <;> simp [hm.health, hm.cancelled]

theorem dead (hm : Calm sh sh') (h : Conn) : Dead v sh' h ↔ Dead v sh h := by
  cases v <;> simp [hm.health, hm.cancelled]

theorem settled (hm : Calm sh sh') (h : Settled sh) : Settled sh' := by
  intro h' u s
  rw [hm.health]
  exact h h' u s

theorem mine (hm : Calm sh sh') (h : Mine sh t) : Mine sh' t := by
  intro h' u s
  rw [hm.health]
  exact h h' u s

theorem unusable (hm : Calm sh sh') (h : sh.usable = false) : sh'.usable = false := by
  rcases hm.usable with hu | hu
  · exact hu
  · rw [hu, h]

theorem recorded (hm : Calm sh sh') {h : Conn} (hr : Recorded v sh h) : Recorded v sh' h :=
  fun hb => hm.unusable (hr ((hm.bad h).mp hb))

theorem sticky (hm : Calm sh sh') {h : Conn} (hs : Sticky sh h) : Sticky sh' h :=
  fun u hu => hm.unusable (hs u (by rwa [← hm.health]))

theorem grade (hm : Calm sh sh') {g : Grade} (hg : g.Ok v sh t) : g.Ok v sh' t := by
  cases g with
  | fine h => exact ⟨hm.settled hg.1, fun hb => hg.2 ((hm.bad h).mp hb)⟩
  | clear h d =>
    exact ⟨hm.mine hg.1, fun hd => hg.2.1 ((hm.dead h).mp hd), hm.sticky hg.2.2.1,
      fun hd => hm.recorded (hg.2.2.2 hd)⟩
  | sticky h => exact ⟨hm.mine hg.1, fun hd => hg.2.1 ((hm.dead h).mp hd), hm.sticky hg.2.2⟩
  | broken h => exact ⟨hm.mine hg.1, fun hd => hg.2 ((hm.dead h).mp hd)⟩
  | logged h d => exact ⟨hm.mine hg.1, fun hd => hm.recorded (hg.2 hd)⟩
  | settled h d => exact ⟨hm.settled hg.1, fun hd => hm.recorded (hg.2 hd)⟩
  | mine => exact hm.mine hg
  | rest =>
    refine ⟨hm.settled hg.1, fun h hs => ?_⟩
    obtain ⟨hw, hr⟩ := hg.2 h (by rwa [← hm.slot])
    exact ⟨fun hv => by rw [hm.wire]; exact hw hv, hm.recorded hr⟩
  | none => exact hm.settled hg

theorem layout (hm : Calm sh sh') (hl : Layout v sh m)
    (hu : m.seen = none ∨ sh'.usable = sh.usable) : Layout v sh' m where
  spot := by
    have := hl.spot
    cases hs : m.spot <;> simp_all [Spot.Ok, hm.slot, hm.held]
  guards := by rw [hm.guards]; exact hl.guards
  listing := by rw [hm.listing]; exact hl.listing
  wire := by rw [hm.wire]; exact hl.wire
  seen b hb := by
    rcases hu with hu | hu
    · rw [hu] at hb; cases hb
    · rw [hu]; exact hl.seen b hb

theorem fresh (hm : Calm sh sh') (hf : Fresh sh) : Fresh sh' where
  slot := by rw [hm.slot, hm.next]; exact hf.slot
  held := by rw [hm.held, hm.next]; exact hf.held
  wire := by rw [hm.wire, hm.next]; exact hf.wire
  health := by rw [hm.health, hm.next]; exact hf.health
  cancelled := by rw [hm.cancelled, hm.next]; exact hf.cancelled

end Calm

/-- The same holds of a later state, in a mode alike. -/
theorem Holds.calm (hh : Holds v sh t m) (hm : Calm sh sh')
    (hu : m.seen = none ∨ sh'.usable = sh.usable) : Holds v sh' t m :=
  ⟨hm.layout hh.toLayout hu, hm.grade hh.grade⟩

/-- A mode that says the same, but for failures. -/
theorem Holds.of_eq (hh : Holds v sh t m) (hs : m'.spot = m.spot) (hg : m'.guards = m.guards)
    (hl : m'.listing = m.listing) (hw : m'.wire = m.wire) (he : m'.seen = none ∨ m'.seen = m.seen)
    (hgr : m'.grade.Ok v sh t) : Holds v sh t m' where
  spot := hs ▸ hh.spot
  guards := hg ▸ hh.guards
  listing := hl ▸ hh.listing
  wire := hw ▸ hh.wire
  seen b hb := by
    rcases he with he | he
    · rw [he] at hb; cases hb
    · exact hh.seen b (he ▸ hb)
  grade := hgr

/-- While a thread uses the control stream, no other is past its check. -/
theorem Knows.of_thread {ct' : Token T} (h : Knows v sh (.thread t) m) : Knows v sh' ct' m := by
  cases m <;> simp_all [Knows]

theorem Knows.of_pooled {ct' : Token T} (h : Knows v sh .pooled m) : Knows v sh' ct' m := by
  cases m <;> simp_all [Knows]

theorem Knows.mild (h : Knows v sh ct m) (hm : Mild sh sh') : Knows v sh' ct m := by
  cases m with
  | chk2 => exact ⟨h.1, fun h' hs hb => h.2 h' (by rwa [← hm.slot]) ((hm.bad h').mp hb)⟩
  | _ => exact h

theorem Mode.seen_none (h : m.isUnique = false) : m.seen = none := by
  cases m <;> simp_all [isUnique, seen]

namespace Inv

variable [DecidableEq T]

/-- The user takes a step. -/
theorem use (hi : Inv v sh ms (.thread t)) (hu : m'.uses = true)
    (hl : Locked sh' (Function.update ms t m')) (hh : Holds v sh' t m') (hp : sh'.pool = sh.pool)
    (ha : sh'.active = m'.raises) (hb : Borrowed sh' (Function.update ms t m')) (hf : Fresh sh') :
    Inv v sh' (Function.update ms t m') (.thread t) where
  locked := hl
  token u := by
    by_cases hut : u = t
    · subst hut; simp [hu]
    · simpa [Function.update_of_ne hut] using hi.token u
  knows u := by
    by_cases hut : u = t
    · subst hut
      cases m' <;> simp_all [Mode.uses, Knows]
    · simpa [Function.update_of_ne hut] using (hi.knows u).of_thread
  holds u hut := by
    cases hut
    simpa using hh
  free h := nomatch h
  pooled h := nomatch h
  pool _ := by rw [hp]; exact hi.pool (by simp)
  active := by
    rw [ha]
    constructor
    · exact fun h => .inr ⟨t, rfl, by simpa using h⟩
    · rintro (h | ⟨u, hu, h⟩)
      · cases h
      · cases hu; simpa using h
  borrowed := hb
  fresh := hf

/-- A thread that does not use the control stream takes a step. -/
theorem mild (hi : Inv v sh ms ct) (hm : Mild sh sh') (hu : (ms t).uses = false)
    (hu' : m'.uses = false) (hl : Locked sh' (Function.update ms t m'))
    (hb : Borrowed sh' (Function.update ms t m')) (hk : Knows v sh' ct m') (hw : ∀ h, ms t = .win h → sh'.usable = false)
    (hus : sh'.usable = sh.usable ∨ (ms t).borrows = true) :
    Inv v sh' (Function.update ms t m') ct where
  locked := hl
  token u := by
    by_cases hut : u = t
    · subst hut
      have := hi.token u
      rw [hu] at this
      simpa [hu'] using this
    · simpa [Function.update_of_ne hut] using hi.token u
  knows u := by
    by_cases hut : u = t
    · subst hut; simpa using hk
    · simpa [Function.update_of_ne hut] using (hi.knows u).mild hm
  holds u hct := by
    have hut : u ≠ t := fun e => by
      subst e
      rw [(hi.token u).mpr hct] at hu
      cases hu
    rw [Function.update_of_ne hut]
    have hh := hi.holds u hct
    refine hh.calm hm.toCalm ?_
    rcases hus with hus | hus
    · exact .inr hus
    · left
      apply Mode.seen_none
      by_contra hne
      have := hi.borrowed.alone (t := u) (by simpa using hne) t
      rw [hus] at this
      cases this
  free hct := by
    have hfr := hi.free hct
    refine ⟨by rw [hm.held]; exact hfr.held, by rw [hm.guards]; exact hfr.guards,
      by rw [hm.listing]; exact hfr.listing, hm.settled hfr.settled, fun h hs => ?_⟩
    obtain ⟨hwire, hrest⟩ := hfr.rest h (by rwa [← hm.slot])
    refine ⟨fun hv => by rw [hm.wire]; exact hwire hv, fun hbad => ?_⟩
    rcases hrest ((hm.bad h).mp hbad) with hr | ⟨u, hr⟩
    · exact .inl (hm.unusable hr)
    · by_cases hut : u = t
      · subst hut; exact .inl (hw h hr)
      · exact .inr ⟨u, by rwa [Function.update_of_ne hut]⟩
  pooled hct := by
    obtain ⟨s, h, hp⟩ := hi.pooled hct
    exact ⟨s, h, hm.layout hp.toLayout (.inl rfl), by rw [hm.pool]; exact hp.pool, hp.inner,
      hm.settled hp.grade.1, fun hd => hm.recorded (hp.grade.2 hd)⟩
  pool hct := by rw [hm.pool]; exact hi.pool hct
  active := by
    rw [hm.active, hi.active]
    refine or_congr Iff.rfl (exists_congr fun u => and_congr_right fun hct => ?_)
    have hut : u ≠ t := fun e => by
      subst e
      rw [(hi.token u).mpr hct] at hu
      cases hu
    rw [Function.update_of_ne hut]
  borrowed := hb
  fresh := hm.fresh hi.fresh

/-- A thread starts to use the control stream. -/
theorem acquire (hi : Inv v sh ms .nobody) (hu : m'.uses = true)
    (hl : Locked sh' (Function.update ms t m')) (hh : Holds v sh' t m') (hp : sh'.pool = sh.pool)
    (ha : sh'.active = sh.active) (hr : m'.raises = false)
    (hb : Borrowed sh' (Function.update ms t m')) (hf : Fresh sh')
    (ho : ∀ u, u ≠ t → ms u ≠ .chk1 ∧ ms u ≠ .chk2) :
    Inv v sh' (Function.update ms t m') (.thread t) where
  locked := hl
  token u := by
    by_cases hut : u = t
    · subst hut; simp [hu]
    · have := hi.token u
      simp only [reduceCtorEq, iff_false] at this
      simp [Function.update_of_ne hut, this, Ne.symm hut]
  knows u := by
    by_cases hut : u = t
    · subst hut
      cases m' <;> simp_all [Mode.uses, Knows]
    · have hk := hi.knows u
      obtain ⟨h1, h2⟩ := ho u hut
      rw [Function.update_of_ne hut]
      cases hmu : ms u <;> simp_all [Knows]
  holds u hut := by
    cases hut
    simpa using hh
  free h := nomatch h
  pooled h := nomatch h
  pool _ := by rw [hp]; exact hi.pool (by simp)
  active := by
    have := hi.active
    simp only [reduceCtorEq, false_or, false_and, exists_false, iff_false] at this
    rw [ha]
    simp [this, hr]
  borrowed := hb
  fresh := hf

/-- The user is done with the control stream. -/
theorem release (hi : Inv v sh ms (.thread t)) (hu : m'.uses = false)
    (hl : Locked sh' (Function.update ms t m')) (hk : Knows v sh' .nobody m')
    (hfr : Free v sh' (Function.update ms t m')) (hp : sh'.pool = sh.pool)
    (ha : sh'.active = false) (hb : Borrowed sh' (Function.update ms t m')) (hf : Fresh sh') :
    Inv v sh' (Function.update ms t m') .nobody where
  locked := hl
  token u := by
    by_cases hut : u = t
    · subst hut; simp [hu]
    · have := hi.token u
      simp only [Token.thread.injEq, Ne.symm hut, iff_false] at this
      simp [Function.update_of_ne hut, this]
  knows u := by
    by_cases hut : u = t
    · subst hut; simpa using hk
    · simpa [Function.update_of_ne hut] using (hi.knows u).of_thread
  holds u h := nomatch h
  free _ := hfr
  pooled h := nomatch h
  pool _ := by rw [hp]; exact hi.pool (by simp)
  active := by simp [ha]
  borrowed := hb
  fresh := hf

end Inv

end RemotefsFtp.L5
