import Mathlib.Logic.Function.Basic
import RemotefsFtp.Core.LTS

/-!
# Programs over a set of atomic steps, threads and typestates

`Prog S α` is a program whose atomic steps are the effects of `S`. A step may
be a suspension point: `drop = some g` says that a future dropped while it
waits there runs the drop glue `g` instead of the rest.

* `Waits`: where a program can be suspended, and what a drop there runs.
* `Always`: what every step of a program satisfies.
* `Follows`: a program keeps to a protocol (`Typestate`), whatever its steps
  answer and wherever it is dropped. `Follows.bind`, `follows_holding` and
  `follows_mono` take a program apart; `Follows.prod` puts two protocols together.
* `Threads`: any number of threads run programs over one shared state, one
  atomic step at a time in any order.
* `Threads.inductive_of_typestate`: if every launched program follows the
  protocol and every permitted step keeps `J`, then `J` (with a mode for each
  thread) holds in every reachable state. Each client's safety results come
  from this one rule.
-/
namespace RemotefsFtp.Core

/-- Atomic steps, and what each returns to the program. -/
structure Sig where
  Eff : Type
  Ret : Eff → Type

inductive Prog (S : Sig) (α : Type) : Type where
  | ret (a : α)
  | panic
  | act (e : S.Eff) (drop : Option (List S.Eff)) (k : S.Ret e → Prog S α)

namespace Prog

variable {S : Sig} {α β γ : Type}

def bind : Prog S α → (α → Prog S β) → Prog S β
  | ret a, f => f a
  | panic, _ => panic
  | act e d k, f => act e d fun r => (k r).bind f

instance : Monad (Prog S) where
  pure := ret
  bind := bind

theorem bind_ret (p : Prog S α) : p.bind ret = p := by
  induction p with
  | ret a => rfl
  | panic => rfl
  | act e d k ih => simp only [bind, ih]

theorem bind_assoc (p : Prog S α) (f : α → Prog S β) (g : β → Prog S γ) :
    (p.bind f).bind g = p.bind fun a => (f a).bind g := by
  induction p with
  | ret a => rfl
  | panic => rfl
  | act e d k ih => simp only [bind, ih]

instance : LawfulMonad (Prog S) :=
  LawfulMonad.mk' _ (fun p => bind_ret p) (fun _ _ => rfl) (fun p f g => bind_assoc p f g)

theorem pure_eq (a : α) : (pure a : Prog S α) = ret a := rfl
theorem bind_eq (p : Prog S α) (f : α → Prog S β) : (p >>= f) = p.bind f := rfl

/-- One step that is not a suspension point. -/
def step (e : S.Eff) : Prog S (S.Ret e) := act e none ret

/-- One step at which the future can be dropped. -/
def await (e : S.Eff) : Prog S (S.Ret e) := act e (some []) ret

/-- `p` while locals with drop glue `g` are alive: a drop inside `p` runs
`p`'s own glue first. -/
def holding (g : List S.Eff) : Prog S α → Prog S α
  | ret a => ret a
  | panic => panic
  | act e d k => act e (d.map (· ++ g)) fun r => holding g (k r)

/-- Drop glue, run to its end. -/
def glue (out : α) : List S.Eff → Prog S α
  | [] => ret out
  | e :: es => act e none fun _ => glue out es

/-! ### Suspension points -/

/-- `p`, after some answers, waits at `e`; a drop there runs `g`. -/
def Waits : Prog S α → S.Eff → List S.Eff → Prop
  | ret _, _, _ | panic, _, _ => False
  | act e d k, e', g => (e = e' ∧ d = some g) ∨ ∃ r, Waits (k r) e' g

/-- `p`, after some answers, returns `a`. -/
def Returns : Prog S α → α → Prop
  | ret a, b => a = b
  | panic, _ => False
  | act _ _ k, b => ∃ r, Returns (k r) b

variable {e : S.Eff} {g : List S.Eff}

theorem not_waits_ret {a : α} : ¬ (ret a : Prog S α).Waits e g := id

theorem waits_await {e' : S.Eff} : (await e' : Prog S _).Waits e g ↔ e' = e ∧ g = [] := by
  simp [await, Waits, eq_comm]

theorem not_waits_step {e' : S.Eff} : ¬ (step e' : Prog S _).Waits e g := by
  simp [step, Waits]

theorem waits_bind {p : Prog S α} {f : α → Prog S β} :
    (p.bind f).Waits e g ↔ p.Waits e g ∨ ∃ a, p.Returns a ∧ (f a).Waits e g := by
  induction p with
  | ret a => simp [bind, Waits, Returns]
  | panic => simp [bind, Waits, Returns]
  | act e' d k ih =>
    simp only [bind, Waits, Returns, ih]
    constructor
    · rintro (h | ⟨r, h | ⟨a, ha, h⟩⟩)
      · exact .inl (.inl h)
      · exact .inl (.inr ⟨r, h⟩)
      · exact .inr ⟨a, ⟨r, ha⟩, h⟩
    · rintro ((h | ⟨r, h⟩) | ⟨a, ⟨r, ha⟩, h⟩)
      · exact .inl h
      · exact .inr ⟨r, .inl h⟩
      · exact .inr ⟨r, .inr ⟨a, ha, h⟩⟩

/-- The locals alive around `p` are dropped after its own. -/
theorem waits_holding {p : Prog S α} {g' : List S.Eff} :
    (p.holding g').Waits e g ↔ ∃ g₀, p.Waits e g₀ ∧ g = g₀ ++ g' := by
  induction p with
  | ret a => simp [holding, Waits]
  | panic => simp [holding, Waits]
  | act e' d k ih =>
    simp only [holding, Waits, ih, Option.map_eq_some_iff]
    constructor
    · rintro (⟨rfl, g₀, rfl, rfl⟩ | ⟨r, g₀, h, rfl⟩)
      · exact ⟨g₀, .inl ⟨rfl, rfl⟩, rfl⟩
      · exact ⟨g₀, .inr ⟨r, h⟩, rfl⟩
    · rintro ⟨g₀, ⟨rfl, rfl⟩ | ⟨r, h⟩, rfl⟩
      · exact .inl ⟨rfl, g₀, rfl, rfl⟩
      · exact .inr ⟨r, g₀, h, rfl⟩

theorem returns_bind {p : Prog S α} {f : α → Prog S β} {b : β} :
    (p.bind f).Returns b ↔ ∃ a, p.Returns a ∧ (f a).Returns b := by
  induction p with
  | ret a => simp [bind, Returns]
  | panic => simp [bind, Returns]
  | act e' d k ih =>
    simp only [bind, Returns, ih]
    exact exists_comm.trans (exists_congr fun a => exists_and_right)

theorem not_waits_glue {out : α} {g' : List S.Eff} : ¬ (glue out g' : Prog S α).Waits e g := by
  induction g' with
  | nil => exact id
  | cons e' es ih => simp [glue, Waits, ih]

end Prog

/-! ### Bounds on what a program does -/

namespace Prog

variable {S : Sig} {α β : Type}

/-- Every step of `p`, on any answers and in any drop, satisfies `P`. -/
def Always (P : S.Eff → Prop) : Prog S α → Prop
  | ret _ | panic => True
  | act e d k => P e ∧ (∀ g, d = some g → ∀ e' ∈ g, P e') ∧ ∀ r, Always P (k r)

/-- `p`, after some answers, takes step `e`. -/
def Takes : Prog S α → S.Eff → Prop
  | ret _, _ | panic, _ => False
  | act e _ k, e' => e = e' ∨ ∃ r, Takes (k r) e'

variable {P Q : S.Eff → Prop} {e : S.Eff} {g : List S.Eff}

theorem always_step (he : P e) : Always P (step e : Prog S _) :=
  ⟨he, fun _ h => (nomatch h), fun _ => trivial⟩

theorem always_await (he : P e) : Always P (await e : Prog S _) := by
  refine ⟨he, fun g hg e' he' => ?_, fun _ => trivial⟩
  cases hg
  cases he'

theorem always_bind {p : Prog S α} {f : α → Prog S β} (hp : Always P p)
    (hf : ∀ a, Always P (f a)) : Always P (p.bind f) := by
  induction p with
  | ret a => exact hf a
  | panic => trivial
  | act e d k ih => exact ⟨hp.1, hp.2.1, fun r => ih r (hp.2.2 r)⟩

theorem always_holding {p : Prog S α} (hp : Always P p) (hg : ∀ e ∈ g, P e) :
    Always P (p.holding g) := by
  induction p with
  | ret a => trivial
  | panic => trivial
  | act e d k ih =>
    refine ⟨hp.1, fun g' hg' e' he' => ?_, fun r => ih r (hp.2.2 r)⟩
    obtain ⟨g₀, hd, rfl⟩ := Option.map_eq_some_iff.mp hg'
    rcases List.mem_append.mp he' with he' | he'
    · exact hp.2.1 g₀ hd e' he'
    · exact hg e' he'

theorem always_glue {out : α} (hg : ∀ e ∈ g, P e) : Always P (glue out g : Prog S α) := by
  induction g with
  | nil => trivial
  | cons e es ih =>
    exact ⟨hg e (by simp), fun _ h => (nomatch h), fun _ => ih fun e' he' => hg e' (by simp [he'])⟩

theorem always_mono {p : Prog S α} (hp : Always P p) (hPQ : ∀ e, P e → Q e) : Always Q p := by
  induction p with
  | ret a => trivial
  | panic => trivial
  | act e d k ih =>
    exact ⟨hPQ e hp.1, fun g hg e' he' => hPQ e' (hp.2.1 g hg e' he'), fun r => ih r (hp.2.2 r)⟩

theorem Always.takes {p : Prog S α} (hp : Always P p) (h : p.Takes e) : P e := by
  induction p with
  | ret a => exact h.elim
  | panic => exact h.elim
  | act e' d k ih =>
    rcases h with rfl | ⟨r, h⟩
    · exact hp.1
    · exact ih r (hp.2.2 r) h

theorem Takes.bind {p : Prog S α} {f : α → Prog S β} (h : p.Takes e) : (p.bind f).Takes e := by
  induction p with
  | ret a => exact h.elim
  | panic => exact h.elim
  | act e' d k ih =>
    rcases h with rfl | ⟨r, h⟩
    · exact .inl rfl
    · exact .inr ⟨r, ih r h⟩

end Prog

/-! ## Typestates -/

/-- Where an answer leads: to a mode, nowhere because it cannot come, or
nowhere because the step is not allowed. -/
inductive Next (M : Type) where
  | go (m : M)
  | never
  | stop

def Next.All {M : Type} (P : M → Prop) : Next M → Prop
  | go m => P m
  | never => True
  | stop => False

def Next.map {M N : Type} (f : M → N) : Next M → Next N
  | go m => go (f m)
  | never => never
  | stop => stop

theorem Next.All.mono {M : Type} {P P' : M → Prop} {n : Next M} (h : n.All P)
    (hP : ∀ m, P m → P' m) : n.All P' := by
  cases n with
  | go m => exact hP m h
  | never => trivial
  | stop => exact h

/-- A protocol on programs: `next m e r` is where step `e` leads in mode `m`
when it answers `r`, `cut m` where a drop in mode `m` does, from which the
drop glue runs. -/
structure Typestate (S : Sig) where
  Mode : Type
  next : Mode → (e : S.Eff) → S.Ret e → Next Mode
  cut : Mode → Next Mode

namespace Typestate

variable {S : Sig} (Y : Typestate S) {α β : Type}

def FollowsGlue (D : Y.Mode → Prop) : List S.Eff → Y.Mode → Prop
  | [], m => D m
  | e :: es, m => ∀ r, (Y.next m e r).All (FollowsGlue D es)

/-- `p` keeps to the protocol from mode `m`, ends in `Q`, and a dropped `p`
ends in `D`. A program that panics does not. -/
def Follows (D : Y.Mode → Prop) : Prog S α → Y.Mode → (α → Y.Mode → Prop) → Prop
  | .ret a, m, Q => Q a m
  | .panic, _, _ => False
  | .act e d k, m, Q =>
    (∀ r, (Y.next m e r).All fun m' => Follows D (k r) m' Q) ∧
      ∀ g, d = some g → (Y.cut m).All (Y.FollowsGlue D g)

variable {Y} {D : Y.Mode → Prop} {m : Y.Mode}

theorem followsGlue_nil : Y.FollowsGlue D [] m ↔ D m := Iff.rfl

@[simp] theorem follows_ret {a : α} {Q : α → Y.Mode → Prop} :
    Y.Follows D (.ret a) m Q ↔ Q a m := Iff.rfl

@[simp] theorem follows_step {e : S.Eff} {Q : S.Ret e → Y.Mode → Prop} :
    Y.Follows D (.step e) m Q ↔ ∀ r, (Y.next m e r).All (Q r) := by
  simp [Prog.step, Follows]

@[simp] theorem follows_await {e : S.Eff} {Q : S.Ret e → Y.Mode → Prop} :
    Y.Follows D (.await e) m Q ↔ (∀ r, (Y.next m e r).All (Q r)) ∧ (Y.cut m).All D := by
  simp [Prog.await, Follows, funext fun m => propext (Y.followsGlue_nil (D := D) (m := m))]

theorem follows_mono {p : Prog S α} {Q Q' : α → Y.Mode → Prop} (h : Y.Follows D p m Q)
    (hQ : ∀ a m, Q a m → Q' a m) : Y.Follows D p m Q' := by
  induction p generalizing m with
  | ret a => exact hQ a m h
  | panic => exact h
  | act e d k ih => exact ⟨fun r => (h.1 r).mono fun m' hf => ih r hf, h.2⟩

theorem follows_bind {p : Prog S α} {f : α → Prog S β} {Q : β → Y.Mode → Prop} :
    Y.Follows D (p.bind f) m Q ↔ Y.Follows D p m fun a m' => Y.Follows D (f a) m' Q := by
  induction p generalizing m with
  | ret a => exact Iff.rfl
  | panic => exact Iff.rfl
  | act e d k ih => simp only [Prog.bind, Follows, ih]

/-- Sequencing: what `p` ends in is where `f` starts. -/
theorem Follows.bind {p : Prog S α} {f : α → Prog S β} {P : α → Y.Mode → Prop}
    {Q : β → Y.Mode → Prop} (hp : Y.Follows D p m P)
    (hf : ∀ a m', P a m' → Y.Follows D (f a) m' Q) : Y.Follows D (p.bind f) m Q :=
  follows_bind.mpr (follows_mono hp hf)

theorem followsGlue_append {g g' : List S.Eff} :
    Y.FollowsGlue D (g ++ g') m ↔ Y.FollowsGlue (fun m' => Y.FollowsGlue D g' m') g m := by
  induction g generalizing m with
  | nil => exact Iff.rfl
  | cons e es ih => simp only [List.cons_append, FollowsGlue, funext fun m => propext (ih (m := m))]

theorem follows_holding {g : List S.Eff} {p : Prog S α} {Q : α → Y.Mode → Prop} :
    Y.Follows D (p.holding g) m Q ↔ Y.Follows (fun m' => Y.FollowsGlue D g m') p m Q := by
  induction p generalizing m with
  | ret a => exact Iff.rfl
  | panic => exact Iff.rfl
  | act e d k ih =>
    simp only [Prog.holding, Follows, ih, Option.map_eq_some_iff]
    refine and_congr_right fun _ => ⟨fun h g' hg' => ?_, fun h g' hg' => ?_⟩
    · exact (h _ ⟨g', hg', rfl⟩).mono fun _ => followsGlue_append.mp
    · obtain ⟨g'', hd, rfl⟩ := hg'
      exact (h g'' hd).mono fun _ => followsGlue_append.mpr

theorem follows_glue {g : List S.Eff} {out : α} {Q : α → Y.Mode → Prop}
    (h : Y.FollowsGlue (fun m' => Q out m') g m) : Y.Follows D (.glue out g) m Q := by
  induction g generalizing m with
  | nil => exact h
  | cons e es ih => exact ⟨fun r => (h r).mono fun m' hg => ih hg, fun g hg => nomatch hg⟩

theorem followsGlue_mono {D' : Y.Mode → Prop} (hD : ∀ m, D m → D' m) {g : List S.Eff}
    (h : Y.FollowsGlue D g m) : Y.FollowsGlue D' g m := by
  induction g generalizing m with
  | nil => exact hD m h
  | cons e es ih => exact fun r => (h r).mono fun m' hg => ih hg

end Typestate

/-! ### Programs that may panic -/

namespace Typestate

variable {S : Sig} (Y : Typestate S) {α β : Type}

/-- As `Follows`, until the program panics, if it does. -/
def Partly (D : Y.Mode → Prop) : Prog S α → Y.Mode → (α → Y.Mode → Prop) → Prop
  | .ret a, m, Q => Q a m
  | .panic, _, _ => True
  | .act e d k, m, Q =>
    (∀ r, (Y.next m e r).All fun m' => Partly D (k r) m' Q) ∧
      ∀ g, d = some g → (Y.cut m).All (Y.FollowsGlue D g)

variable {Y} {D : Y.Mode → Prop} {m : Y.Mode}

theorem partly_step {e : S.Eff} {Q : S.Ret e → Y.Mode → Prop} (h : ∀ r, (Y.next m e r).All (Q r)) :
    Y.Partly D (.step e) m Q :=
  ⟨h, fun _ hg => nomatch hg⟩

theorem partly_await {e : S.Eff} {Q : S.Ret e → Y.Mode → Prop} (h : ∀ r, (Y.next m e r).All (Q r))
    (hc : (Y.cut m).All D) : Y.Partly D (.await e) m Q := by
  refine ⟨h, fun g hg => ?_⟩
  cases hg
  exact hc

theorem Partly.mono {p : Prog S α} {Q Q' : α → Y.Mode → Prop} (h : Y.Partly D p m Q)
    (hQ : ∀ a m, Q a m → Q' a m) : Y.Partly D p m Q' := by
  induction p generalizing m with
  | ret a => exact hQ a m h
  | panic => trivial
  | act e d k ih => exact ⟨fun r => (h.1 r).mono fun m' hp => ih r hp, h.2⟩

theorem Partly.bind {p : Prog S α} {f : α → Prog S β} {P : α → Y.Mode → Prop} {Q : β → Y.Mode → Prop}
    (hp : Y.Partly D p m P) (hf : ∀ a m', P a m' → Y.Partly D (f a) m' Q) : Y.Partly D (p.bind f) m Q := by
  induction p generalizing m with
  | ret a => exact hf a m hp
  | panic => trivial
  | act e d k ih => exact ⟨fun r => (hp.1 r).mono fun m' hk => ih r hk, hp.2⟩

theorem partly_holding {D' : Y.Mode → Prop} {g : List S.Eff} {p : Prog S α} {Q : α → Y.Mode → Prop}
    (h : Y.Partly D' p m Q) (hg : ∀ m', D' m' → Y.FollowsGlue D g m') : Y.Partly D (p.holding g) m Q := by
  induction p generalizing m with
  | ret a => exact h
  | panic => trivial
  | act e d k ih =>
    refine ⟨fun r => (h.1 r).mono fun m' hk => ih r hk, fun g' hg' => ?_⟩
    obtain ⟨g'', hd, rfl⟩ := Option.map_eq_some_iff.mp hg'
    exact (h.2 g'' hd).mono fun _ hf => followsGlue_append.mpr (followsGlue_mono hg hf)

/-- Steps a mode allows, and that lead nowhere else. -/
theorem Partly.always {P : S.Eff → Prop} {p : Prog S α} (hp : p.Always P)
    (hn : ∀ e r, P e → Y.next m e r = .go m) (hc : (Y.cut m).All fun m' => ∀ g, Y.FollowsGlue D g m') :
    Y.Partly D p m fun _ m' => m' = m := by
  induction p with
  | ret a => rfl
  | panic => trivial
  | act e d k ih =>
    refine ⟨fun r => ?_, fun g _ => hc.mono fun _ h => h g⟩
    rw [hn e r hp.1]
    exact ih r (hp.2.2 r)

theorem followsGlue_stays {P : S.Eff → Prop} {g : List S.Eff} (hg : ∀ e ∈ g, P e)
    (hn : ∀ e r, P e → Y.next m e r = .go m) (hD : D m) : Y.FollowsGlue D g m := by
  induction g with
  | nil => exact hD
  | cons e es ih =>
    intro r
    rw [hn e r (hg e List.mem_cons_self)]
    exact ih fun e' he' => hg e' (List.mem_cons_of_mem _ he')

/-- ... not even where the program is dropped. -/
theorem Partly.stays {P : S.Eff → Prop} {p : Prog S α} (hp : p.Always P) (hn : ∀ e r, P e → Y.next m e r = .go m)
    (hc : Y.cut m = .go m) (hD : D m) : Y.Partly D p m fun _ m' => m' = m := by
  induction p with
  | ret a => rfl
  | panic => trivial
  | act e d k ih =>
    refine ⟨fun r => ?_, fun g hg => ?_⟩
    · rw [hn e r hp.1]
      exact ih r (hp.2.2 r)
    · rw [hc]
      exact followsGlue_stays (hp.2.1 g hg) hn hD

end Typestate

/-! ### Two protocols at once -/

/-- An answer leads somewhere if it does in both. -/
def Next.both {M N : Type} : Next M → Next N → Next (M × N)
  | stop, _ | _, stop => stop
  | never, _ | _, never => never
  | go m, go n => go (m, n)

namespace Next

variable {M N : Type} {P : M → Prop} {Q : N → Prop} {a : Next M} {b : Next N}

theorem both_all (ha : a.All P) (hb : b.All Q) : (a.both b).All fun m => P m.1 ∧ Q m.2 := by
  cases a with
  | stop => exact ha.elim
  | never =>
    cases b with
    | stop => exact hb.elim
    | never | go n => trivial
  | go m =>
    cases b with
    | stop => exact hb.elim
    | never => trivial
    | go n => exact ⟨ha, hb⟩

theorem both_ne_stop : a.both b ≠ stop ↔ a ≠ stop ∧ b ≠ stop := by
  cases a <;> cases b <;> simp [both]

end Next

namespace Typestate

variable {S : Sig} {Y Z : Typestate S} {α : Type} {D : Y.Mode → Prop} {E : Z.Mode → Prop}
  {m : Y.Mode} {n : Z.Mode}

def prod (Y Z : Typestate S) : Typestate S where
  Mode := Y.Mode × Z.Mode
  next m e r := (Y.next m.1 e r).both (Z.next m.2 e r)
  cut m := (Y.cut m.1).both (Z.cut m.2)

theorem FollowsGlue.prod {g : List S.Eff} (h : Y.FollowsGlue D g m) (h' : Z.FollowsGlue E g n) :
    (Y.prod Z).FollowsGlue (fun x => D x.1 ∧ E x.2) g (m, n) := by
  induction g generalizing m n with
  | nil => exact ⟨h, h'⟩
  | cons e es ih => exact fun r => (Next.both_all (h r) (h' r)).mono fun x hx => ih hx.1 hx.2

/-- A program that keeps to two protocols keeps to both at once. -/
theorem Follows.prod {p : Prog S α} {Q : α → Y.Mode → Prop} {R : α → Z.Mode → Prop}
    (h : Y.Follows D p m Q) (h' : Z.Follows E p n R) :
    (Y.prod Z).Follows (fun x => D x.1 ∧ E x.2) p (m, n) fun a x => Q a x.1 ∧ R a x.2 := by
  induction p generalizing m n with
  | ret a => exact ⟨h, h'⟩
  | panic => exact h
  | act e d k ih =>
    exact ⟨fun r => (Next.both_all (h.1 r) (h'.1 r)).mono fun x hx => ih r hx.1 hx.2,
      fun g hg => (Next.both_all (h.2 g hg) (h'.2 g hg)).mono fun x hx => hx.1.prod hx.2⟩

/-- ... if the first says that it does not panic. -/
theorem Follows.prod_partly {p : Prog S α} {Q : α → Y.Mode → Prop} {R : α → Z.Mode → Prop}
    (h : Y.Follows D p m Q) (h' : Z.Partly E p n R) :
    (Y.prod Z).Follows (fun x => D x.1 ∧ E x.2) p (m, n) fun a x => Q a x.1 ∧ R a x.2 := by
  induction p generalizing m n with
  | ret a => exact ⟨h, h'⟩
  | panic => exact h.elim
  | act e d k ih =>
    exact ⟨fun r => (Next.both_all (h.1 r) (h'.1 r)).mono fun x hx => ih r hx.1 hx.2,
      fun g hg => (Next.both_all (h.2 g hg) (h'.2 g hg)).mono fun x hx => hx.1.prod hx.2⟩

/-- A protocol that does not care about the steps a program takes. -/
theorem Follows.prod_always {P : S.Eff → Prop} {p : Prog S α} {Q : α → Y.Mode → Prop}
    (h : Y.Follows D p m Q) (hp : p.Always P) (hn : ∀ e r, P e → Z.next n e r = .go n)
    (hc : Z.cut n = .go n) (hE : E n) :
    (Y.prod Z).Follows (fun x => D x.1 ∧ E x.2) p (m, n) fun a x => Q a x.1 ∧ x.2 = n := by
  have hglue : ∀ {g : List S.Eff}, (∀ e ∈ g, P e) → Z.FollowsGlue E g n := by
    intro g
    induction g with
    | nil => exact fun _ => hE
    | cons e es ih =>
      intro hg r
      rw [hn e r (hg e List.mem_cons_self)]
      exact ih fun e' he' => hg e' (List.mem_cons_of_mem _ he')
  induction p generalizing m with
  | ret a => exact ⟨h, rfl⟩
  | panic => exact h
  | act e d k ih =>
    have hgo : ∀ r, (Z.next n e r).All fun n' => n' = n := fun r => by
      rw [hn e r hp.1]
      exact rfl
    have hcut : (Z.cut n).All fun n' => n' = n := by
      rw [hc]
      exact rfl
    refine ⟨fun r => (Next.both_all (h.1 r) (hgo r)).mono fun x hx => ?_,
      fun g hg => (Next.both_all (h.2 g hg) hcut).mono fun x hx => ?_⟩
    · obtain ⟨m', n'⟩ := x
      obtain ⟨hx, rfl⟩ := hx
      exact ih r hx (hp.2.2 r)
    · obtain ⟨m', n'⟩ := x
      obtain ⟨hx, rfl⟩ := hx
      exact hx.prod (hglue (hp.2.1 g hg))

end Typestate

/-! ## Threads -/

/-- What the threads `T` share: `perform` is one atomic step (`none`: it
cannot be taken now; `C` resolves what the environment decides), `launch`
starts a program of `L`, `retire` ends one, `cut` records that a suspended
thread was dropped, after which it runs its drop glue and ends with `dropped`. -/
structure Threads (S : Sig) (σ T C L Out : Type) where
  perform : σ → T → (e : S.Eff) → C → Option (σ × S.Ret e)
  launch : σ → T → L → Option (σ × Prog S Out)
  retire : σ → T → Out → σ
  cut : σ → T → σ
  dropped : Out

namespace Threads

variable {S : Sig} {σ T C L Out : Type}

/-- A global state: the shared state and what each thread still has to run. -/
structure State (S : Sig) (σ T Out : Type) where
  sh : σ
  th : T → Option (Prog S Out)

inductive Lbl (T C L : Type) where
  | launch (t : T) (l : L)
  | step (t : T) (c : C)
  | retire (t : T)
  | drop (t : T)

section
variable [DecidableEq T] (M : Threads S σ T C L Out)

def next (s : State S σ T Out) : Lbl T C L → Option (State S σ T Out)
  | .launch t l =>
    match s.th t with
    | none => (M.launch s.sh t l).map fun (sh, p) => ⟨sh, Function.update s.th t (some p)⟩
    | some _ => none
  | .step t c =>
    match s.th t with
    | some (.act e _ k) =>
      (M.perform s.sh t e c).map fun (sh, r) => ⟨sh, Function.update s.th t (some (k r))⟩
    | _ => none
  | .retire t =>
    match s.th t with
    | some (.ret o) => some ⟨M.retire s.sh t o, Function.update s.th t none⟩
    | _ => none
  | .drop t =>
    match s.th t with
    | some (.act _ (some g) _) =>
      some ⟨M.cut s.sh t, Function.update s.th t (some (.glue M.dropped g))⟩
    | _ => none

/-- All interleavings from `init`, with the labels `ok` permits. -/
def lts (init : State S σ T Out → Prop) (ok : State S σ T Out → Lbl T C L → Prop) :
    LTS (State S σ T Out) (Lbl T C L) where
  init := init
  step s l s' := M.next s l = some s' ∧ ok s l

end

/-- Thread `t` is about to take step `e`. -/
def State.At (s : State S σ T Out) (t : T) (e : S.Eff) : Prop :=
  ∃ d k, s.th t = some (.act e d k)

/-- Every thread's program keeps to the protocol from its mode. -/
def Typed (Y : Typestate S) (idle : Y.Mode) (Done : Out → Y.Mode → Prop) (D : Y.Mode → Prop)
    (th : T → Option (Prog S Out)) (ms : T → Y.Mode) : Prop :=
  ∀ t, match th t with
    | none => ms t = idle
    | some p => Y.Follows D p (ms t) Done

/-- The obligations of a client: `J` is kept by every launch, every step the
protocol allows, every retirement and every drop. -/
structure Keeps [DecidableEq T] (M : Threads S σ T C L Out) (Y : Typestate S) (idle : Y.Mode)
    (Done : Out → Y.Mode → Prop) (J : σ → (T → Y.Mode) → Prop)
    (ok : State S σ T Out → Lbl T C L → Prop) (D : Y.Mode → Prop) : Prop where
  launch : ∀ s t l sh p ms, ok s (.launch t l) → J s.sh ms →
    ms t = idle →
    M.launch s.sh t l = some (sh, p) →
    ∃ m, Y.Follows D p m Done ∧ J sh (Function.update ms t m)
  step : ∀ s t c e sh r ms, ok s (.step t c) → s.At t e → J s.sh ms →
    Typed Y idle Done D s.th ms → M.perform s.sh t e c = some (sh, r) → Y.next (ms t) e r ≠ .stop →
    ∃ m', Y.next (ms t) e r = .go m' ∧ J sh (Function.update ms t m')
  retire : ∀ sh t o ms, J sh ms → Done o (ms t) → J (M.retire sh t o) (Function.update ms t idle)
  drop : ∀ s t ms, ok s (.drop t) → J s.sh ms → Y.cut (ms t) ≠ .stop →
    ∃ m', Y.cut (ms t) = .go m' ∧ J (M.cut s.sh t) (Function.update ms t m')
  dropped : ∀ m, D m → Done M.dropped m

variable {Y : Typestate S} {idle : Y.Mode} {Done : Out → Y.Mode → Prop} {D : Y.Mode → Prop}
  {th : T → Option (Prog S Out)} {ms : T → Y.Mode}

/-- A thread about to take a step is in a mode whose protocol allows it. -/
theorem typed_at {s : State S σ T Out} {t : T} {e : S.Eff} (h : Typed Y idle Done D s.th ms)
    (ha : s.At t e) (r : S.Ret e) : Y.next (ms t) e r ≠ .stop := by
  obtain ⟨d, k, hth⟩ := ha
  have := h t
  rw [hth] at this
  exact fun hn => by have := this.1 r; rw [hn] at this; exact this

variable [DecidableEq T] {M : Threads S σ T C L Out} {J : σ → (T → Y.Mode) → Prop}
  {ok : State S σ T Out → Lbl T C L → Prop}

theorem typed_update {t : T} {p : Option (Prog S Out)} {m : Y.Mode}
    (h : Typed Y idle Done D th ms)
    (hp : match p with | none => m = idle | some p => Y.Follows D p m Done) :
    Typed Y idle Done D (Function.update th t p) (Function.update ms t m) := by
  intro u
  by_cases hu : u = t
  · subst hu; simpa using hp
  · simpa [Function.update_of_ne hu] using h u

/-- **The typestate rule.** -/
theorem inductive_of_typestate {init : State S σ T Out → Prop} (hk : Keeps M Y idle Done J ok D)
    (h0 : ∀ s, init s → ∃ ms, J s.sh ms ∧ Typed Y idle Done D s.th ms) :
    (M.lts init ok).Inductive fun s => ∃ ms, J s.sh ms ∧ Typed Y idle Done D s.th ms where
  init := h0
  step s l s' := by
    rintro ⟨ms, hJ, hT⟩ ⟨hs, hok⟩
    cases l with
    | launch t l =>
      simp only [next] at hs
      split at hs
      · rename_i hth
        simp only [Option.map_eq_some_iff] at hs
        obtain ⟨⟨sh, p⟩, hl, rfl⟩ := hs
        have hi : ms t = idle := by have := hT t; rwa [hth] at this
        obtain ⟨m, hf, hJ'⟩ := hk.launch s t l sh p ms hok hJ hi hl
        exact ⟨_, hJ', typed_update hT hf⟩
      · cases hs
    | step t c =>
      simp only [next] at hs
      split at hs
      · rename_i e d k hth
        simp only [Option.map_eq_some_iff] at hs
        obtain ⟨⟨sh, r⟩, hp, rfl⟩ := hs
        have hat : s.At t e := ⟨d, k, hth⟩
        have hf := hT t
        rw [hth] at hf
        obtain ⟨m', hn, hJ'⟩ := hk.step s t c e sh r ms hok hat hJ hT hp (typed_at hT hat r)
        have hf' := hf.1 r
        rw [hn] at hf'
        exact ⟨_, hJ', typed_update hT hf'⟩
      · cases hs
    | retire t =>
      simp only [next] at hs
      split at hs
      · rename_i o hth
        cases hs
        have hf := hT t
        rw [hth] at hf
        exact ⟨_, hk.retire s.sh t o ms hJ hf, typed_update hT rfl⟩
      · cases hs
    | drop t =>
      simp only [next] at hs
      split at hs
      · rename_i e g k hth
        cases hs
        have hf := hT t
        rw [hth] at hf
        have hg := hf.2 g rfl
        obtain ⟨m', hc, hJ'⟩ := hk.drop s t ms hok hJ fun hc => by rw [hc] at hg; exact hg
        rw [hc] at hg
        exact ⟨_, hJ', typed_update hT
          (Typestate.follows_glue (Typestate.followsGlue_mono hk.dropped hg))⟩
      · cases hs

end Threads
end RemotefsFtp.Core
