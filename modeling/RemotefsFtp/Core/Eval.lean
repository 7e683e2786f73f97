import RemotefsFtp.Core.Prog

/-!
# One program, run alone

A `Machine` answers the steps of a program from a state and `eval` runs the
program on it; where the program could be suspended makes no difference.

* `Ends`: from `P`, the program returns, in `Q`. A total-correctness triple.
* `Sim`: two programs, on two machines, return the same from related states.
* `Yields`: the program, on some answers, takes these steps and returns this.
  `eval_yields` reads an evaluation on a machine that records its steps as one.
* `Ensures`: on any answers, the program returns, with a trace and a value in `Q`.
-/
namespace RemotefsFtp.Core

/-- Answers to the steps of a program; `none`: the step cannot be taken. -/
structure Machine (S : Sig) (W : Type) where
  step : W → (e : S.Eff) → Option (S.Ret e × W)

namespace Prog

variable {S : Sig} {W W' α β γ : Type}

def eval (M : Machine S W) : Prog S α → W → Option (α × W)
  | ret a, w => some (a, w)
  | panic, _ => none
  | act e _ k, w => (M.step w e).bind fun (r, w') => eval M (k r) w'

variable {M : Machine S W} {M' : Machine S W'}

@[simp] theorem eval_ret (a : α) (w : W) : (ret a).eval M w = some (a, w) := rfl

@[simp] theorem eval_pure (a : α) (w : W) : (pure a : Prog S α).eval M w = some (a, w) := rfl

theorem eval_bind (p : Prog S α) (f : α → Prog S β) (w : W) :
    (p.bind f).eval M w = (p.eval M w).bind fun (a, w') => (f a).eval M w' := by
  induction p generalizing w with
  | ret a => rfl
  | panic => rfl
  | act e d k ih =>
    simp only [bind, eval, Option.bind_assoc]
    exact congrArg _ (funext fun _ => ih _ _)

@[simp] theorem eval_step (e : S.Eff) (w : W) : (step e).eval M w = M.step w e :=
  Option.bind_fun_some _

@[simp] theorem eval_await (e : S.Eff) (w : W) : (await e).eval M w = M.step w e :=
  Option.bind_fun_some _

@[simp] theorem eval_holding (g : List S.Eff) (p : Prog S α) (w : W) :
    (p.holding g).eval M w = p.eval M w := by
  induction p generalizing w with
  | ret a => rfl
  | panic => rfl
  | act e d k ih =>
    simp only [holding, eval]
    exact congrArg _ (funext fun _ => ih _ _)

theorem eval_returns {p : Prog S α} {w w' : W} {a : α} (h : p.eval M w = some (a, w')) :
    p.Returns a := by
  induction p generalizing w with
  | ret b => cases h; rfl
  | panic => cases h
  | act e d k ih =>
    obtain ⟨⟨r, v⟩, -, hv⟩ := Option.bind_eq_some_iff.mp h
    exact ⟨r, ih r hv⟩

/-- Machines that agree on the steps a program may take. -/
theorem eval_congr {N : Machine S W} {A : S.Eff → Prop} (h : ∀ w e, A e → M.step w e = N.step w e)
    {p : Prog S α} (hp : p.Always A) (w : W) : p.eval M w = p.eval N w := by
  induction p generalizing w with
  | ret a => rfl
  | panic => rfl
  | act e d k ih =>
    obtain ⟨he, -, hk⟩ := hp
    simp only [eval, h w e he]
    exact congrArg _ (funext fun y => ih y.1 (hk y.1) y.2)

/-! ## Total correctness -/

/-- From `P`, `p` returns, and in `Q`. -/
def Ends (M : Machine S W) (P : W → Prop) (p : Prog S α) (Q : α → W → Prop) : Prop :=
  ∀ w, P w → ∃ a w', p.eval M w = some (a, w') ∧ Q a w'

variable {P P' : W → Prop} {Q : α → W → Prop} {R : β → W → Prop}

theorem ends_ret {a : α} (h : ∀ w, P w → Q a w) : Ends M P (ret a) Q :=
  fun w hw => ⟨a, w, rfl, h w hw⟩

theorem Ends.bind {p : Prog S α} {f : α → Prog S β} (hp : Ends M P p Q)
    (hf : ∀ a, Ends M (Q a) (f a) R) : Ends M P (p.bind f) R := by
  intro w hw
  obtain ⟨a, w', he, hq⟩ := hp w hw
  obtain ⟨b, v, hv, hr⟩ := hf a w' hq
  exact ⟨b, v, by rw [eval_bind, he]; exact hv, hr⟩

theorem Ends.mono {p : Prog S α} {Q' : α → W → Prop} (hp : Ends M P p Q) (hP : ∀ w, P' w → P w)
    (hQ : ∀ a w, Q a w → Q' a w) : Ends M P' p Q' := by
  intro w hw
  obtain ⟨a, w', he, hq⟩ := hp w (hP w hw)
  exact ⟨a, w', he, hQ a w' hq⟩

/-! ## Two machines -/

/-- From related states both programs return the same, in related states. -/
def Sim (M : Machine S W) (M' : Machine S W') (R : W → W' → Prop) (p p' : Prog S α)
    (R' : α → W → W' → Prop) : Prop :=
  ∀ w w', R w w' → ∃ a v v', p.eval M w = some (a, v) ∧ p'.eval M' w' = some (a, v') ∧ R' a v v'

variable {Rel : W → W' → Prop} {Rel' : α → W → W' → Prop} {Rel'' : β → W → W' → Prop}

theorem sim_ret {a : α} (h : ∀ w w', Rel w w' → Rel' a w w') :
    Sim M M' Rel (ret a) (ret a) Rel' :=
  fun w w' hw => ⟨a, w, w', rfl, rfl, h w w' hw⟩

theorem Sim.bind {p p' : Prog S α} {f f' : α → Prog S β} (hp : Sim M M' Rel p p' Rel')
    (hf : ∀ a, Sim M M' (Rel' a) (f a) (f' a) Rel'') :
    Sim M M' Rel (p.bind f) (p'.bind f') Rel'' := by
  intro w w' hw
  obtain ⟨a, v, v', he, he', hr⟩ := hp w w' hw
  obtain ⟨b, u, u', hu, hu', hr'⟩ := hf a v v' hr
  exact ⟨b, u, u', by rw [eval_bind, he]; exact hu, by rw [eval_bind, he']; exact hu', hr'⟩

theorem Sim.mono {p p' : Prog S α} {Rel₀ : W → W' → Prop} {Rel₁ : α → W → W' → Prop}
    (hp : Sim M M' Rel p p' Rel') (h : ∀ w w', Rel₀ w w' → Rel w w')
    (h' : ∀ a w w', Rel' a w w' → Rel₁ a w w') : Sim M M' Rel₀ p p' Rel₁ := by
  intro w w' hw
  obtain ⟨a, v, v', he, he', hr⟩ := hp w w' (h w w' hw)
  exact ⟨a, v, v', he, he', h' a v v' hr⟩

end Prog

/-! ## Traces -/

/-- A step and what it answered. -/
abbrev Event (S : Sig) := (e : S.Eff) × S.Ret e

namespace Prog

variable {S : Sig} {W α β : Type}

/-- `p` takes the steps `evs`, answered as they say, and returns `a`. -/
def Yields : Prog S α → List (Event S) → α → Prop
  | ret a, evs, b => evs = [] ∧ a = b
  | panic, _, _ => False
  | act e _ k, evs, b => ∃ r rest, evs = ⟨e, r⟩ :: rest ∧ Yields (k r) rest b

variable {evs : List (Event S)}

@[simp] theorem yields_ret {a b : α} : (ret a : Prog S α).Yields evs b ↔ evs = [] ∧ a = b := Iff.rfl

@[simp] theorem yields_pure {a b : α} : (pure a : Prog S α).Yields evs b ↔ evs = [] ∧ a = b :=
  Iff.rfl

@[simp] theorem yields_step {e : S.Eff} {r : S.Ret e} :
    (step e : Prog S _).Yields evs r ↔ evs = [⟨e, r⟩] := by
  constructor
  · rintro ⟨r, rest, rfl, rfl, rfl⟩
    rfl
  · rintro rfl
    exact ⟨r, [], rfl, rfl, rfl⟩

@[simp] theorem yields_await {e : S.Eff} {r : S.Ret e} :
    (await e : Prog S _).Yields evs r ↔ evs = [⟨e, r⟩] := yields_step (S := S)

theorem yields_cons {e : S.Eff} {d : Option (List S.Eff)} {k : S.Ret e → Prog S α} {r : S.Ret e} {a : α}
    (h : (k r).Yields evs a) : (act e d k).Yields (⟨e, r⟩ :: evs) a :=
  ⟨r, evs, rfl, h⟩

theorem yields_bind {p : Prog S α} {f : α → Prog S β} {b : β} :
    (p.bind f).Yields evs b ↔
      ∃ evs₁ evs₂ a, evs = evs₁ ++ evs₂ ∧ p.Yields evs₁ a ∧ (f a).Yields evs₂ b := by
  induction p generalizing evs with
  | ret a =>
    constructor
    · exact fun h => ⟨[], evs, a, rfl, ⟨rfl, rfl⟩, h⟩
    · rintro ⟨evs₁, evs₂, a, rfl, ⟨rfl, rfl⟩, h⟩
      exact h
  | panic =>
    constructor
    · exact False.elim
    · rintro ⟨evs₁, evs₂, a, -, h, -⟩
      exact h
  | act e d k ih =>
    constructor
    · rintro ⟨r, rest, rfl, h⟩
      obtain ⟨evs₁, evs₂, a, rfl, h₁, h₂⟩ := (ih r).mp h
      exact ⟨⟨e, r⟩ :: evs₁, evs₂, a, rfl, ⟨r, evs₁, rfl, h₁⟩, h₂⟩
    · rintro ⟨evs₁, evs₂, a, rfl, ⟨r, rest, rfl, h₁⟩, h₂⟩
      exact ⟨r, rest ++ evs₂, rfl, (ih r).mpr ⟨rest, evs₂, a, rfl, h₁, h₂⟩⟩

@[simp] theorem yields_holding {g : List S.Eff} {p : Prog S α} {a : α} :
    (p.holding g).Yields evs a ↔ p.Yields evs a := by
  induction p generalizing evs with
  | ret b => exact Iff.rfl
  | panic => exact Iff.rfl
  | act e d k ih => simp only [holding, Yields, ih]

/-- The steps a program takes on some answers are steps it takes. -/
theorem Yields.takes {p : Prog S α} {a : α} (h : p.Yields evs a) {ev : Event S} (hev : ev ∈ evs) :
    p.Takes ev.1 := by
  induction p generalizing evs with
  | ret b => obtain ⟨rfl, -⟩ := h; cases hev
  | panic => exact h.elim
  | act e d k ih =>
    obtain ⟨r, rest, rfl, h⟩ := h
    rcases List.mem_cons.mp hev with rfl | hev
    · exact .inl rfl
    · exact .inr ⟨r, ih r h hev⟩

/-- What a program does is decided by what its steps answer. -/
theorem Yields.unique {p : Prog S α} {evs' rest rest' : List (Event S)} {a b : α} (ha : p.Yields evs a)
    (hb : p.Yields evs' b) (h : evs ++ rest = evs' ++ rest') : evs = evs' ∧ a = b := by
  induction p generalizing evs evs' with
  | ret c =>
    obtain ⟨rfl, rfl⟩ := ha
    obtain ⟨rfl, rfl⟩ := hb
    exact ⟨rfl, rfl⟩
  | panic => exact ha.elim
  | act e d k ih =>
    obtain ⟨r, tail, rfl, ha⟩ := ha
    obtain ⟨r', tail', rfl, hb⟩ := hb
    obtain ⟨he, htail⟩ := List.cons.inj h
    obtain rfl := eq_of_heq (Sigma.mk.inj he).2
    obtain ⟨rfl, rfl⟩ := ih r ha hb htail
    exact ⟨rfl, rfl⟩

/-- On a machine that records its steps, what `eval` does is a trace. -/
theorem eval_yields {M : Machine S W} {log : W → List (Event S)}
    (hlog : ∀ w e r w', M.step w e = some (r, w') → log w' = log w ++ [⟨e, r⟩]) {p : Prog S α}
    {w w' : W} {a : α} (h : p.eval M w = some (a, w')) :
    ∃ evs, p.Yields evs a ∧ log w' = log w ++ evs := by
  induction p generalizing w with
  | ret b => cases h; exact ⟨[], ⟨rfl, rfl⟩, by simp⟩
  | panic => cases h
  | act e d k ih =>
    obtain ⟨⟨r, v⟩, hs, hv⟩ := Option.bind_eq_some_iff.mp h
    obtain ⟨evs, hy, hl⟩ := ih r hv
    exact ⟨⟨e, r⟩ :: evs, ⟨r, evs, rfl, hy⟩, by rw [hl, hlog w e r v hs]; simp⟩

/-! ## Every trace -/

/-- Whatever its steps answer, `p` returns, and its trace and value are in `Q`. -/
def Ensures : Prog S α → (List (Event S) → α → Prop) → Prop
  | ret a, Q => Q [] a
  | panic, _ => False
  | act e _ k, Q => ∀ r, Ensures (k r) fun evs a => Q (⟨e, r⟩ :: evs) a

section
variable {Q Q' : List (Event S) → α → Prop} {R : List (Event S) → β → Prop}

theorem Ensures.mono {p : Prog S α} (hp : p.Ensures Q) (h : ∀ evs a, Q evs a → Q' evs a) :
    p.Ensures Q' := by
  induction p generalizing Q Q' with
  | ret a => exact h _ _ hp
  | panic => exact hp
  | act e d k ih => exact fun r => ih r (hp r) fun evs a => h _ _

theorem ensures_bind {p : Prog S α} {f : α → Prog S β} : (p.bind f).Ensures R ↔
    p.Ensures fun evs a => (f a).Ensures fun evs' b => R (evs ++ evs') b := by
  induction p generalizing R with
  | ret a => exact Iff.rfl
  | panic => exact Iff.rfl
  | act e d k ih => simp only [bind, Ensures, ih, List.cons_append]

/-- Sequencing: what `p` ensures is what `f` starts from. -/
theorem Ensures.bind {p : Prog S α} {f : α → Prog S β} (hp : p.Ensures Q)
    (hf : ∀ evs a, Q evs a → (f a).Ensures fun evs' b => R (evs ++ evs') b) :
    (p.bind f).Ensures R :=
  ensures_bind.mpr (hp.mono hf)

@[simp] theorem ensures_holding {g : List S.Eff} {p : Prog S α} :
    (p.holding g).Ensures Q ↔ p.Ensures Q := by
  induction p generalizing Q with
  | ret a => exact Iff.rfl
  | panic => exact Iff.rfl
  | act e d k ih => simp only [holding, Ensures, ih]

theorem Ensures.yields {p : Prog S α} (hp : p.Ensures Q) {a : α} (h : p.Yields evs a) : Q evs a := by
  induction p generalizing Q evs with
  | ret b => obtain ⟨rfl, rfl⟩ := h; exact hp
  | panic => exact h.elim
  | act e d k ih =>
    obtain ⟨r, rest, rfl, h⟩ := h
    have hq := ih r (hp r) h
    exact hq

end

end Prog
end RemotefsFtp.Core
