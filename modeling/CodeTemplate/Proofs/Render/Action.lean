import CodeTemplate.Render.Basic

/-! Computations as functions of the state that they start in, and relations between computations
that go along with sequencing. -/

namespace CodeTemplate
namespace Action

variable {σ τ α β : Type}

/-- The result of a computation and the state after it. -/
def exec (x : Action σ α) (s : σ) : Except TemplateError α × σ := x s

@[simp] theorem exec_pure (a : α) (s : σ) : exec (pure a) s = (.ok a, s) := rfl

@[simp] theorem exec_throw (e : TemplateError) (s : σ) :
    exec (throw e : Action σ α) s = (.error e, s) := rfl

@[simp] theorem exec_fail (cause : Cause) (p : Position) (s : σ) :
    exec (Render.fail cause p : Action σ α) s = (.error ⟨cause, some p⟩, s) := rfl

@[simp] theorem exec_get (s : σ) : exec (get : Action σ σ) s = (.ok s, s) := rfl

theorem exec_bind (x : Action σ α) (f : α → Action σ β) (s : σ) :
    exec (x >>= f) s =
      match exec x s with
      | (.ok a, t) => exec (f a) t
      | (.error e, t) => (.error e, t) := by
  have hb : exec (x >>= f) s =
      match exec x s with
      | (r, t) => (ExceptT.bindCont f r : StateM σ (Except TemplateError β)) t := rfl
  rw [hb]
  rcases exec x s with ⟨_ | a, t⟩ <;> rfl

theorem exec_bind_ok {x : Action σ α} {f : α → Action σ β} {s t : σ} {a : α}
    (h : exec x s = (.ok a, t)) : exec (x >>= f) s = exec (f a) t := by
  rw [exec_bind, h]

theorem exec_bind_error {x : Action σ α} {f : α → Action σ β} {s t : σ} {e : TemplateError}
    (h : exec x s = (.error e, t)) : exec (x >>= f) s = (.error e, t) := by
  rw [exec_bind, h]

end Action

/-- The causes by which a call of a template is refused. -/
def Cause.Refusal : Cause → Prop
  | .cycle _ | .tooDeep .. => True
  | _ => False

/-- A relation between computations over two states that goes along with sequencing. It need not
hold of errors that refuse a call: those come from calls alone. -/
structure Congruence (σ τ : Type) where
  rel : {α : Type} → Action σ α → Action τ α → Prop
  pure : ∀ {α : Type} (a : α), rel (Pure.pure a : Action σ α) (Pure.pure a : Action τ α)
  throw : ∀ {α : Type} (e : TemplateError), ¬ e.cause.Refusal →
    rel (MonadExcept.throw e : Action σ α) (MonadExcept.throw e : Action τ α)
  bind : ∀ {α β : Type} {x : Action σ α} {y : Action τ α} {f : α → Action σ β}
    {g : α → Action τ β}, rel x y → (∀ a, rel (f a) (g a)) → rel (x >>= f) (y >>= g)

end CodeTemplate
