/-!
# Labelled transition systems

A step function with labels, its runs and its reachable states. `run_ind`
is the one induction over runs: a predicate every step preserves holds in
every state a run passes through.
-/
namespace RemotefsFtp.Core

structure LTS (S L : Type) where
  init : S → Prop
  step : S → L → S → Prop

namespace LTS

variable {S L : Type} (T : LTS S L)

inductive Run : S → List L → S → Prop where
  | nil (s : S) : Run s [] s
  | cons {s s₁ s' : S} {l : L} {ls : List L} : T.step s l s₁ → Run s₁ ls s' → Run s (l :: ls) s'

def Reachable (s : S) : Prop := ∃ s₀ ls, T.init s₀ ∧ T.Run s₀ ls s

/-- `I` holds initially and every step preserves it. -/
structure Inductive (I : S → Prop) : Prop where
  init : ∀ s, T.init s → I s
  step : ∀ s l s', I s → T.step s l s' → I s'

variable {T}

theorem run_ind {I : S → Prop} (hs : ∀ s l s', I s → T.step s l s' → I s') {s s' : S}
    {ls : List L} (hr : T.Run s ls s') : I s → I s' := by
  induction hr with
  | nil => exact id
  | cons h _ ih => exact fun hi => ih (hs _ _ _ hi h)

theorem Inductive.reachable {I : S → Prop} (h : T.Inductive I) (s : S) (hr : T.Reachable s) :
    I s := by
  obtain ⟨s₀, ls, h0, hrun⟩ := hr
  exact run_ind h.step hrun (h.init s₀ h0)

theorem Run.append {s s₁ s₂ : S} {ls ls' : List L} (h : T.Run s ls s₁) (h' : T.Run s₁ ls' s₂) :
    T.Run s (ls ++ ls') s₂ := by
  induction h with
  | nil => exact h'
  | cons hs _ ih => exact .cons hs (ih h')

theorem Reachable.run {s s' : S} {ls : List L} (h : T.Reachable s) (hr : T.Run s ls s') :
    T.Reachable s' := by
  obtain ⟨s₀, ls₀, h0, h1⟩ := h
  exact ⟨s₀, ls₀ ++ ls, h0, h1.append hr⟩

/-- Runs of a partial step function, executed as far as `ok` holds. -/
def exec (f : S → L → Option S) (ok : S → L → Bool) : S → List L → Option S
  | s, [] => some s
  | s, l :: ls => if ok s l then (f s l).bind fun s' => exec f ok s' ls else none

theorem run_of_exec {f : S → L → Option S} {ok : S → L → Bool}
    (hf : ∀ s l s', ok s l = true → f s l = some s' → T.step s l s') {ls : List L} :
    ∀ {s s' : S}, exec f ok s ls = some s' → T.Run s ls s' := by
  induction ls with
  | nil =>
    intro s s' h
    cases h
    exact .nil _
  | cons l ls ih =>
    intro s s' h
    rw [exec] at h
    split at h
    · rename_i hok
      obtain ⟨s₁, h₁, h₂⟩ := Option.bind_eq_some_iff.mp h
      exact .cons (hf s l s₁ hok h₁) (ih h₂)
    · cases h

end LTS
end RemotefsFtp.Core
