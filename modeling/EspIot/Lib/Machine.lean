/-
# `EspIot.Lib.Machine` — machines that answer, and when two answer the same

A machine takes an event in a state and gives an answer and the next state.

    answers f s es     what it says to the events, in turn
    after f s es       the state it ends in

`Simulates.run` is the rule: where related states give the same answer and go to related
states, they answer the same to every list of events.
-/
import Mathlib.Data.List.Basic

namespace EspIot.Lib

variable {σ τ ε ο : Type*}

def answers (f : σ → ε → ο × σ) : σ → List ε → List ο
  | _, [] => []
  | s, e :: es => (f s e).1 :: answers f (f s e).2 es

def after (f : σ → ε → ο × σ) : σ → List ε → σ
  | s, [] => s
  | s, e :: es => after f (f s e).2 es

/-- Related states give the same answer, and go to related states. -/
def Simulates (R : σ → τ → Prop) (f : σ → ε → ο × σ) (g : τ → ε → ο × τ) : Prop :=
  ∀ s t e, R s t → (f s e).1 = (g t e).1 ∧ R (f s e).2 (g t e).2

theorem Simulates.run {R : σ → τ → Prop} {f : σ → ε → ο × σ} {g : τ → ε → ο × τ}
    (h : Simulates R f g) (es : List ε) :
    ∀ {s : σ} {t : τ}, R s t →
      answers f s es = answers g t es ∧ R (after f s es) (after g t es) := by
  induction es with
  | nil =>
      intro s t hR
      exact ⟨rfl, hR⟩
  | cons e es ih =>
      intro s t hR
      obtain ⟨hanswer, hnext⟩ := h s t e hR
      obtain ⟨hanswers, hend⟩ := ih hnext
      exact ⟨List.cons_eq_cons.mpr ⟨hanswer, hanswers⟩, hend⟩

end EspIot.Lib
