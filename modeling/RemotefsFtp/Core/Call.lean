import RemotefsFtp.Core.Eval

/-!
# One call among threads

A thread runs a program while others take their steps. `trace` collects what
its own steps are answered in a run, and `After` says what those answers leave
of a program.

* `run_call`: what every step of the system keeps, of the shared state and of
  the rest of one thread's program, holds at the end of every run, for the
  rest that the trace leaves.
-/
namespace RemotefsFtp.Core

/-! ## The rest of a program -/

namespace Prog

variable {S : Sig} {α β : Type}

/-- `p`, answered as `evs` says, has `q` left to run. -/
def After : Prog S α → List (Event S) → Prog S α → Prop
  | p, [], q => p = q
  | act e _ k, ev :: evs, q => ∃ r, ev = ⟨e, r⟩ ∧ After (k r) evs q
  | _, _ :: _, _ => False

/-- `p` takes at most `n` steps and does not panic. -/
def Within : Nat → Prog S α → Prop
  | _, ret _ => True
  | n + 1, act _ _ k => ∀ r, Within n (k r)
  | _, _ => False

variable {p q : Prog S α} {evs rest : List (Event S)}

theorem after_nil : p.After [] q ↔ p = q := by
  cases p <;> exact Iff.rfl

theorem After.yields {a : α} (h : p.After evs q) (hq : q.Yields rest a) : p.Yields (evs ++ rest) a := by
  induction evs generalizing p with
  | nil =>
    obtain rfl := after_nil.mp h
    exact hq
  | cons ev evs ih =>
    cases p with
    | act e d k =>
      obtain ⟨r, rfl, h⟩ := h
      exact ⟨r, evs ++ rest, rfl, ih h⟩
    | ret | panic => exact h.elim

theorem After.length_le {n : Nat} (h : p.After evs q) (hp : p.Within n) : evs.length ≤ n := by
  induction evs generalizing p n with
  | nil => exact Nat.zero_le n
  | cons ev evs ih =>
    cases p with
    | act e d k =>
      obtain ⟨r, rfl, h⟩ := h
      cases n with
      | zero => exact hp.elim
      | succ n => exact Nat.succ_le_succ (ih h (hp r))
    | ret | panic => exact h.elim

end Prog

/-! ## In a run -/

namespace Threads

variable {S : Sig} {σ T C L Out α : Type} [DecidableEq T] (M : Threads S σ T C L Out)

/-- The step `t` takes under a label, and its answer. -/
def answered (t : T) (s : State S σ T Out) : Lbl T C L → Option (Event S)
  | .step u c =>
    if u = t then
      match s.th u with
      | some (.act e _ _) => (M.perform s.sh u e c).map fun x => ⟨e, x.2⟩
      | _ => none
    else none
  | _ => none

/-- The steps of `t` in a run. -/
def trace (t : T) : State S σ T Out → List (Lbl T C L) → List (Event S)
  | _, [] => []
  | s, l :: ls => (M.answered t s l).toList ++ (M.next s l).elim [] fun s' => trace t s' ls

/-- `t` runs `p`, and ends with what `f` makes of its result. -/
def Calls (s : State S σ T Out) (t : T) (p : Prog S α) (f : α → Out) : Prop :=
  s.th t = some (p.bind fun a => .ret (f a))

variable {M} {init : State S σ T Out → Prop} {ok : State S σ T Out → Lbl T C L → Prop}
  {t : T} {f : α → Out}

/-- A thread's program does not change but by its own steps. -/
theorem next_th_of_answered {s s' : State S σ T Out} {l : Lbl T C L} {p : Prog S α} (hc : Calls s t p f)
    (hr : ∀ u, l = .retire u → u ≠ t) (hd : ∀ u, l = .drop u → u ≠ t)
    (hs : M.next s l = some s') :
    ((∀ c, l ≠ .step t c) ∧ M.answered t s l = none ∧ Calls s' t p f) ∨
      ∃ c e d k r, l = .step t c ∧ p = .act e d k ∧ M.perform s.sh t e c = some (s'.sh, r) ∧
        M.answered t s l = some ⟨e, r⟩ ∧ Calls s' t (k r) f := by
  have hother : ∀ {u : T} {q}, u ≠ t → s'.th = Function.update s.th u q → Calls s' t p f := by
    intro u q hu hth
    unfold Calls
    rw [hth, Function.update_of_ne hu.symm]
    exact hc
  cases l with
  | launch u l =>
    simp only [next] at hs
    split at hs
    · rename_i hth
      obtain ⟨⟨sh, q⟩, -, rfl⟩ := Option.map_eq_some_iff.mp hs
      refine .inl ⟨by simp, rfl, hother (fun e => ?_) rfl⟩
      subst e
      rw [hc] at hth
      cases hth
    · cases hs
  | step u c =>
    simp only [next] at hs
    split at hs
    · rename_i e d k hth
      obtain ⟨⟨sh, r⟩, hp, rfl⟩ := Option.map_eq_some_iff.mp hs
      by_cases hu : u = t
      · subst hu
        rw [hc] at hth
        cases p with
        | act e' d' k' =>
          cases hth
          refine .inr ⟨c, e, d, k', r, rfl, rfl, hp, ?_, by simp [Calls]⟩
          simp only [answered, if_true]
          rw [hc]
          simp only [Prog.bind, hp, Option.map_some]
        | ret | panic => cases hth
      · exact .inl ⟨by simp [hu], by simp only [answered, if_neg hu], hother hu rfl⟩
    · cases hs
  | retire u =>
    simp only [next] at hs
    split at hs
    · cases hs
      exact .inl ⟨by simp, rfl, hother (hr u rfl) rfl⟩
    · cases hs
  | drop u =>
    simp only [next] at hs
    split at hs
    · cases hs
      exact .inl ⟨by simp, rfl, hother (hd u rfl) rfl⟩
    · cases hs

/-- **The rule of one call.** `I` relates a state to the rest of the call. -/
theorem run_call {I : State S σ T Out → Prog S α → Prop}
    (hr : ∀ s, ¬ ok s (.retire t)) (hd : ∀ s, ¬ ok s (.drop t))
    (hother : ∀ s q l s', I s q → Calls s t q f → (∀ c, l ≠ .step t c) →
      (M.lts init ok).step s l s' → I s' q)
    (hown : ∀ s c s' e d k r, I s (.act e d k) → Calls s t (.act e d k) f →
      M.perform s.sh t e c = some (s'.sh, r) → (M.lts init ok).step s (.step t c) s' → I s' (k r))
    {s s' : State S σ T Out} {ls : List (Lbl T C L)} (hrun : (M.lts init ok).Run s ls s') :
    ∀ {p : Prog S α}, Calls s t p f → I s p →
      ∃ q, p.After (M.trace t s ls) q ∧ Calls s' t q f ∧ I s' q := by
  induction hrun with
  | nil s => exact fun hc hI => ⟨_, Prog.after_nil.mpr rfl, hc, hI⟩
  | cons hs _ ih =>
    rename_i s s₁ s' l ls _
    intro p hc hI
    have hnext : M.next s l = some s₁ := hs.1
    have hret : ∀ u, l = .retire u → u ≠ t := fun u hl e => by
      subst hl e
      exact hr s hs.2
    have hdrop : ∀ u, l = .drop u → u ≠ t := fun u hl e => by
      subst hl e
      exact hd s hs.2
    simp only [trace, hnext, Option.elim_some]
    rcases next_th_of_answered hc hret hdrop hnext with ⟨hl, ha, hc'⟩ | ⟨c, e, d, k, r, rfl, rfl, hp, ha, hc'⟩
    · rw [ha]
      exact ih hc' (hother s p l s₁ hI hc hl hs)
    · obtain ⟨q, hq, hc'', hI'⟩ := ih hc' (hown s c s₁ e d k r hI hc hp hs)
      rw [ha]
      exact ⟨q, ⟨r, rfl, hq⟩, hc'', hI'⟩

end Threads
end RemotefsFtp.Core
