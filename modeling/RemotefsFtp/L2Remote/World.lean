import RemotefsFtp.Core.Eval
import RemotefsFtp.L2Remote.Effect

/-!
# A caller alone with its environment

`caller V t` runs one program of thread `t` on the shared state, with the
environment of `V` (server, sockets and stream builder) answering. It records
every step; `World.calls` are those the environment answers.
-/
namespace RemotefsFtp.L2

open Core (Sig Prog Machine Event)

/-- The steps the environment answers. -/
def Eff.external : Eff → Bool
  | .connect _ _ | .setupTlsConnector | .send _ _ | .builder _ | .recv _ _ | .read _ _
  | .copyTake _ _ | .copyAll _ | .readToEnd _ | .write _ _ | .flush _ _ | .finish _ => true
  | _ => false

/-- An environment: what it answers to a step, and its state after that. -/
structure Server (σ : Type) where
  answer : σ → Eff → Oracle × σ

structure World (T σ : Type) where
  sh : Shared T
  srv : σ
  log : List (Event ftp) := []

variable {T σ : Type}

/-- The steps the environment answered, in order. -/
def World.calls (w : World T σ) : List (Event ftp) := w.log.filter fun ev => ev.1.external

/-- The environment's part of a step. -/
def Server.next (V : Server σ) (s : σ) (e : Eff) : Oracle × σ :=
  if e.external then V.answer s e else ({}, s)

variable [DecidableEq T]

def caller (V : Server σ) (t : T) : Machine ftp (World T σ) where
  step w e :=
    let (o, srv) := V.next w.srv e
    (perform w.sh t e o).map fun (sh, r) => (r, ⟨sh, srv, w.log ++ [⟨e, r⟩]⟩)

variable {V : Server σ} {t : T}

theorem caller_step (w : World T σ) (e : Eff) :
    (caller V t).step w e = (perform w.sh t e (V.next w.srv e).1).map fun (sh, r) =>
      (r, ⟨sh, (V.next w.srv e).2, w.log ++ [⟨e, r⟩]⟩) := rfl

/-- A run of the caller is a trace of its program. -/
theorem eval_trace {α : Type} {p : Io α} {w w' : World T σ} {a : α}
    (h : p.eval (caller V t) w = some (a, w')) :
    ∃ evs, p.Yields evs a ∧ w'.log = w.log ++ evs := by
  refine Prog.eval_yields (fun w e r w' hs => ?_) h
  obtain ⟨⟨sh, r'⟩, -, hr⟩ := Option.map_eq_some_iff.mp hs
  cases hr
  rfl

end RemotefsFtp.L2
