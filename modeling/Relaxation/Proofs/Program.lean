import Relaxation.Collective

/-!
Running a program step by step: what a bind does once its first part has run.
-/

namespace Relaxation

section Stateful

variable {ε σ β γ : Type} {first : ExceptT ε (StateM σ) β}
  {next : β → ExceptT ε (StateM σ) γ} {before after : σ}

theorem bind_of_ok {result : β} (ran : first before = (.ok result, after)) :
    (first >>= next) before = next result after := by
  simp only [bind, ExceptT.bind, ExceptT.mk, StateT.bind, ran]
  rfl

theorem bind_of_error {error : ε} (ran : first before = (.error error, after)) :
    (first >>= next) before = (.error error, after) := by
  simp only [bind, ExceptT.bind, ExceptT.mk, StateT.bind, ran]
  rfl

theorem get_bind (next : σ → ExceptT ε (StateM σ) γ) (before : σ) :
    ((get : ExceptT ε (StateM σ) σ) >>= next) before = next before before :=
  rfl

theorem modify_bind (change : σ → σ) (next : PUnit → ExceptT ε (StateM σ) γ) (before : σ) :
    ((modify change : ExceptT ε (StateM σ) PUnit) >>= next) before = next ⟨⟩ (change before) :=
  rfl

theorem lift_ok_bind (result : β) (next : β → ExceptT ε (StateM σ) γ) (before : σ) :
    ((liftM (Except.ok result : Except ε β) : ExceptT ε (StateM σ) β) >>= next) before =
      next result before :=
  rfl

end Stateful
end Relaxation
