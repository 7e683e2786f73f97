import RemotefsFtp.Core.Prog

/-!
# Ghost state

Books kept beside what some threads share: who runs what, what was answered
before. `Shadows` says that threads do what others do, once the books are
forgotten; `observed` keeps books that a step, a launch and an end write to.

Results:
* `Shadows.next`: a step, with and without the books.
* **`Shadows.reachable`**: every state of the threads is reached with some books.
-/
namespace RemotefsFtp.Core.Threads

variable {S : Sig} {σ σ' T C L Out G : Type}

/-- The state without its books. -/
def State.forget (f : σ' → σ) (s : State S σ' T Out) : State S σ T Out := ⟨f s.sh, s.th⟩

/-- `M'` does what `M` does, beside what `forget` leaves out. -/
structure Shadows (forget : σ' → σ) (M' : Threads S σ' T C L Out) (M : Threads S σ T C L Out) : Prop where
  perform : ∀ w t e c, (M'.perform w t e c).map (fun x => (forget x.1, x.2)) = M.perform (forget w) t e c
  launch : ∀ w t l, (M'.launch w t l).map (fun x => (forget x.1, x.2)) = M.launch (forget w) t l
  retire : ∀ w t o, forget (M'.retire w t o) = M.retire (forget w) t o
  cut : ∀ w t, forget (M'.cut w t) = M.cut (forget w) t
  dropped : M'.dropped = M.dropped

namespace Shadows

variable [DecidableEq T] {forget : σ' → σ} {M' : Threads S σ' T C L Out} {M : Threads S σ T C L Out}
  (h : Shadows forget M' M)
include h

theorem next (s : State S σ' T Out) (l : Lbl T C L) :
    (M'.next s l).map (State.forget forget) = M.next (s.forget forget) l := by
  obtain ⟨w, th⟩ := s
  cases l with
  | launch t l =>
    simp only [Threads.next, State.forget]
    cases th t with
    | some p => rfl
    | none => simp only [← h.launch, Option.map_map]; rfl
  | step t c =>
    simp only [Threads.next, State.forget]
    cases th t with
    | none => rfl
    | some p =>
      cases p with
      | ret o | panic => rfl
      | act e d k => simp only [← h.perform, Option.map_map]; rfl
  | retire t =>
    simp only [Threads.next, State.forget]
    cases th t with
    | none => rfl
    | some p =>
      cases p with
      | ret o => simp only [Option.map_some, State.forget, h.retire]
      | panic | act => rfl
  | drop t =>
    simp only [Threads.next, State.forget]
    cases th t with
    | none => rfl
    | some p =>
      cases p with
      | ret o | panic => rfl
      | act e d k =>
        cases d with
        | none => rfl
        | some g => simp only [Option.map_some, State.forget, h.cut, h.dropped]

/-- **Books change nothing**: what is reached without them is reached with some. -/
theorem reachable {init' : State S σ' T Out → Prop} {init : State S σ T Out → Prop}
    {ok' : State S σ' T Out → Lbl T C L → Prop} {ok : State S σ T Out → Lbl T C L → Prop}
    (hinit : ∀ s, init s → ∃ s', init' s' ∧ s'.forget forget = s)
    (hok : ∀ s l, ok (s.forget forget) l → ok' s l) {s : State S σ T Out} (hr : (M.lts init ok).Reachable s) :
    ∃ s', (M'.lts init' ok').Reachable s' ∧ s'.forget forget = s := by
  have hstep : ∀ s l s₁, (∃ s', (M'.lts init' ok').Reachable s' ∧ s'.forget forget = s) → (M.lts init ok).step s l s₁ →
      ∃ s', (M'.lts init' ok').Reachable s' ∧ s'.forget forget = s₁ := by
    rintro _ l s₁ ⟨s', hr, rfl⟩ ⟨hn, hl⟩
    rw [← h.next] at hn
    obtain ⟨s₁', hn', rfl⟩ := Option.map_eq_some_iff.mp hn
    exact ⟨s₁', hr.run (.cons ⟨hn', hok s' l hl⟩ (.nil _)), rfl⟩
  obtain ⟨s₀, ls, h₀, hrun⟩ := hr
  obtain ⟨s₀', h₀', he⟩ := hinit s₀ h₀
  exact LTS.run_ind hstep hrun ⟨s₀', ⟨s₀', [], h₀', .nil _⟩, he⟩

end Shadows

/-! ## Observers -/

/-- What is written into the books `G`: after a step of a thread, when it
starts a program of `L`, and when that ends. -/
structure Observer (S : Sig) (T L G : Type) where
  saw : G → T → (e : S.Eff) → S.Ret e → G
  starts : G → T → L → G
  ends : G → T → G

/-- What is shared, and books beside it. -/
structure Noted (σ G : Type) where
  sh : σ
  books : G

variable (M : Threads S σ T C L Out) (O : Observer S T L G)

/-- The threads of `M`, observed. -/
def observed : Threads S (Noted σ G) T C L Out where
  perform w t e c := (M.perform w.sh t e c).map fun (sh, r) => (⟨sh, O.saw w.books t e r⟩, r)
  launch w t l := (M.launch w.sh t l).map fun (sh, p) => (⟨sh, O.starts w.books t l⟩, p)
  retire w t o := ⟨M.retire w.sh t o, O.ends w.books t⟩
  cut w t := ⟨M.cut w.sh t, w.books⟩
  dropped := M.dropped

theorem observed_shadows : Shadows Noted.sh (M.observed O) M where
  perform w t e c := by simp [observed, Option.map_map, Function.comp_def]
  launch w t l := by simp [observed, Option.map_map, Function.comp_def]
  retire _ _ _ := rfl
  cut _ _ := rfl
  dropped := rfl

end RemotefsFtp.Core.Threads
