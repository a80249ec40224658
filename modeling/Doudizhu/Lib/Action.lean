import Mathlib.Data.Option.Basic

/-! # Actions on a state that may raise

An action returns a value, raises an error, or runs out of fuel.  An error leaves the state as it
was when it was raised. -/

set_option autoImplicit false

namespace Doudizhu

inductive Completion (St α : Type) where
  | returned (a : α) (st : St)
  | raised (st : St)
  | outOfFuel

def Action (St α : Type) : Type := St → Completion St α

namespace Action
variable {St α β : Type}

def bind (x : Action St α) (f : α → Action St β) : Action St β := fun st =>
  match x st with
  | .returned a st' => f a st'
  | .raised st' => .raised st'
  | .outOfFuel => .outOfFuel

instance : Monad (Action St) where
  pure a := fun st => .returned a st
  bind := bind

def raise : Action St α := fun st => .raised st

def noFuel : Action St α := fun _ => .outOfFuel

def modify (f : St → St) : Action St Unit := fun st => .returned () (f st)

/-- `none` stands for an error. -/
def ofOption : Option α → Action St α
  | some a => pure a
  | none => raise

@[simp] theorem pure_apply (a : α) (st : St) : (pure a : Action St α) st = .returned a st := rfl

@[simp] theorem ofOption_some (a : α) (st : St) :
    (ofOption (some a) : Action St α) st = .returned a st := rfl

@[simp] theorem ofOption_none (st : St) : (ofOption none : Action St α) st = .raised st := rfl

theorem bind_returned {x : Action St α} {st st' : St} {a : α} (h : x st = .returned a st')
    (f : α → Action St β) : (x >>= f) st = f a st' := by
  change bind x f st = _
  rw [bind, h]

theorem bind_raised {x : Action St α} {st st' : St} (h : x st = .raised st')
    (f : α → Action St β) : (x >>= f) st = .raised st' := by
  change bind x f st = _
  rw [bind, h]

theorem bind_eq_returned {x : Action St α} {f : α → Action St β} {st st' : St} {b : β} :
    (x >>= f) st = .returned b st' ↔
      ∃ a st₁, x st = .returned a st₁ ∧ f a st₁ = .returned b st' := by
  change bind x f st = _ ↔ _
  rw [bind]
  cases x st with
  | returned a st₁ =>
      constructor
      · intro h
        exact ⟨a, st₁, rfl, h⟩
      · rintro ⟨_, _, hx, h⟩
        cases hx
        exact h
  | raised st₁ => simp
  | outOfFuel => simp

@[simp] theorem pure_bind_apply (a : α) (f : α → Action St β) (st : St) :
    ((pure a : Action St α) >>= f) st = f a st := rfl

end Action

end Doudizhu
