import Mathlib.Logic.Function.Basic
import Mathlib.Data.List.Basic

/-! # Coroutines over a shared database

A coroutine returns, raises, reads the local state `L` of its service without being suspended,
or is suspended at a call `c : C` until the answer `r : R` comes.  `settle` runs it up to its
next suspension.  In a pool, one step lets the pending call of one coroutine take effect on the
database and runs that coroutine on to its next suspension, so the calls are atomic and every
order of them is a schedule.  `alone` runs one coroutine with nothing in between. -/

set_option autoImplicit false

namespace Doudizhu

inductive Coroutine (L C R A : Type) where
  | done (a : A)
  | raise
  | read (k : L → Coroutine L C R A)
  | call (c : C) (k : R → Coroutine L C R A)

namespace Coroutine

section Program
variable {L C R A B : Type}

def bind : Coroutine L C R A → (A → Coroutine L C R B) → Coroutine L C R B
  | .done a, f => f a
  | .raise, _ => .raise
  | .read k, f => .read fun l => bind (k l) f
  | .call c k, f => .call c fun r => bind (k r) f

instance : Monad (Coroutine L C R) where
  pure := .done
  bind := bind

instance : LawfulMonad (Coroutine L C R) := by
  refine LawfulMonad.mk' _ ?_ (fun _ _ => rfl) ?_
  · intro A p
    change bind p .done = p
    induction p with
    | done a => rfl
    | raise => rfl
    | read k ih => exact congrArg Coroutine.read (funext ih)
    | call c k ih => exact congrArg (Coroutine.call c) (funext ih)
  · intro A B D p f g
    change bind (bind p f) g = bind p fun a => bind (f a) g
    induction p with
    | done a => rfl
    | raise => rfl
    | read k ih => exact congrArg Coroutine.read (funext ih)
    | call c k ih => exact congrArg (Coroutine.call c) (funext ih)

def settle (l : L) : Coroutine L C R A → Coroutine L C R A
  | .done a => .done a
  | .raise => .raise
  | .read k => settle l (k l)
  | .call c k => .call c k

theorem settle_ne_read (l : L) (p : Coroutine L C R A) (k : L → Coroutine L C R A) :
    p.settle l ≠ .read k := by
  induction p with
  | done a => simp [settle]
  | raise => simp [settle]
  | read _ ih => exact ih l
  | call c _ _ => simp [settle]

def pending (l : L) (p : Coroutine L C R A) : Option C :=
  match p.settle l with
  | .call c _ => some c
  | _ => none

def after (l : L) (p : Coroutine L C R A) (r : R) : Coroutine L C R A :=
  match p.settle l with
  | .call _ k => (k r).settle l
  | q => q

/-- `some (some a)` after returning `a`, `some none` after an error. -/
def outcome (l : L) (p : Coroutine L C R A) : Option (Option A) :=
  match p.settle l with
  | .done a => some (some a)
  | .raise => some none
  | _ => none

theorem outcome_isSome_iff (l : L) (p : Coroutine L C R A) :
    (p.outcome l).isSome ↔ p.pending l = none := by
  simp only [outcome, pending]
  induction p with
  | done a => simp [settle]
  | raise => simp [settle]
  | read k ih => exact ih l
  | call c k _ => simp [settle]

end Program

/-! ## One coroutine alone -/

section Alone
variable {Db L C R A : Type}

structure Result (Db C A : Type) where
  value : Option A
  db : Db
  calls : List C

def alone (exec : Db → C → R × Db) (l : L) : Db → Coroutine L C R A → Result Db C A
  | db, .done a => ⟨some a, db, []⟩
  | db, .raise => ⟨none, db, []⟩
  | db, .read k => alone exec l db (k l)
  | db, .call c k =>
      let answer := exec db c
      let rest := alone exec l answer.2 (k answer.1)
      ⟨rest.value, rest.db, c :: rest.calls⟩

variable (exec : Db → C → R × Db) (l : L)

theorem alone_settle (db : Db) (p : Coroutine L C R A) :
    alone exec l db (p.settle l) = alone exec l db p := by
  induction p with
  | done a => rfl
  | raise => rfl
  | read k ih => exact ih l
  | call c k _ => rfl

theorem alone_of_pending {p : Coroutine L C R A} {c : C} (h : p.pending l = some c) (db : Db) :
    alone exec l db p =
      ⟨(alone exec l (exec db c).2 (p.after l (exec db c).1)).value,
        (alone exec l (exec db c).2 (p.after l (exec db c).1)).db,
        c :: (alone exec l (exec db c).2 (p.after l (exec db c).1)).calls⟩ := by
  rw [← alone_settle exec l db p]
  unfold pending at h
  unfold after
  cases hp : p.settle l with
  | done a => simp [hp] at h
  | raise => simp [hp] at h
  | read k => simp [hp] at h
  | call d k =>
      rw [hp] at h
      cases Option.some.inj h
      simp only [alone, alone_settle]

theorem alone_bind {B : Type} (p : Coroutine L C R A) (f : A → Coroutine L C R B) :
    ∀ db, (alone exec l db (p >>= f)).value = (alone exec l db p).value.bind fun a =>
      (alone exec l (alone exec l db p).db (f a)).value := by
  change ∀ db, (alone exec l db (bind p f)).value = _
  induction p with
  | done a => exact fun _ => rfl
  | raise => exact fun _ => rfl
  | read k ih => exact fun db => ih l db
  | call c k ih => exact fun db => ih (exec db c).1 (exec db c).2

end Alone

/-! ## A pool of coroutines -/

section Pool
variable {ι Db L C R A : Type} [DecidableEq ι]

/-- The log lists the calls that have taken effect, with the coroutine each belongs to. -/
structure Pool (ι Db L C R A : Type) where
  db : Db
  threads : ι → Coroutine L C R A
  log : List (ι × C)

/-- The pending call of coroutine `i` takes effect and the coroutine is resumed. -/
def resume (exec : Db → C → R × Db) (l : L) (w : Pool ι Db L C R A) (i : ι) :
    Pool ι Db L C R A :=
  match (w.threads i).pending l with
  | none => w
  | some c =>
      let answer := exec w.db c
      { db := answer.2
        threads := Function.update w.threads i ((w.threads i).after l answer.1)
        log := w.log ++ [(i, c)] }

def runPool (exec : Db → C → R × Db) (l : L) (w : Pool ι Db L C R A) (schedule : List ι) :
    Pool ι Db L C R A :=
  schedule.foldl (resume exec l) w

variable (exec : Db → C → R × Db) (l : L)

theorem resume_of_pending {w : Pool ι Db L C R A} {i : ι} {c : C}
    (h : (w.threads i).pending l = some c) :
    resume exec l w i =
      { db := (exec w.db c).2
        threads := Function.update w.threads i ((w.threads i).after l (exec w.db c).1)
        log := w.log ++ [(i, c)] } := by
  simp only [resume, h]

theorem resume_of_finished {w : Pool ι Db L C R A} {i : ι}
    (h : (w.threads i).pending l = none) : resume exec l w i = w := by
  simp only [resume, h]

@[simp] theorem runPool_nil (w : Pool ι Db L C R A) : runPool exec l w [] = w := rfl

@[simp] theorem runPool_cons (w : Pool ι Db L C R A) (i : ι) (schedule : List ι) :
    runPool exec l w (i :: schedule) = runPool exec l (resume exec l w i) schedule := rfl

theorem runPool_append (w : Pool ι Db L C R A) (first later : List ι) :
    runPool exec l w (first ++ later) = runPool exec l (runPool exec l w first) later :=
  List.foldl_append

theorem resume_log_mem {w : Pool ι Db L C R A} {i j : ι} {c : C}
    (h : (j, c) ∈ (resume exec l w i).log) : (j, c) ∈ w.log ∨ j = i := by
  cases hp : (w.threads i).pending l with
  | none =>
      rw [resume_of_finished exec l hp] at h
      exact Or.inl h
  | some d =>
      rw [resume_of_pending exec l hp, List.mem_append, List.mem_singleton] at h
      exact h.imp id fun e => congrArg Prod.fst e

theorem log_subset_resume (w : Pool ι Db L C R A) (i : ι) :
    w.log ⊆ (resume exec l w i).log := by
  cases hp : (w.threads i).pending l with
  | none => rw [resume_of_finished exec l hp]; exact List.Subset.refl _
  | some c => rw [resume_of_pending exec l hp]; exact List.subset_append_left _ _

theorem runPool_log_mem : ∀ (schedule : List ι) (w : Pool ι Db L C R A) (j : ι) (c : C),
    (j, c) ∈ (runPool exec l w schedule).log → (j, c) ∈ w.log ∨ j ∈ schedule := by
  intro schedule
  induction schedule with
  | nil => intro w j c h; exact Or.inl h
  | cons i schedule ih =>
      intro w j c h
      rcases ih (resume exec l w i) j c h with h | h
      · rcases resume_log_mem exec l h with h | rfl
        · exact Or.inl h
        · exact Or.inr (List.mem_cons_self ..)
      · exact Or.inr (List.mem_cons_of_mem _ h)

theorem log_subset_runPool : ∀ (schedule : List ι) (w : Pool ι Db L C R A),
    w.log ⊆ (runPool exec l w schedule).log := by
  intro schedule
  induction schedule with
  | nil => intro w; exact List.Subset.refl _
  | cons i schedule ih =>
      intro w
      exact List.Subset.trans (log_subset_resume exec l w i) (ih _)

theorem resume_threads_ne {w : Pool ι Db L C R A} {i j : ι} (h : j ≠ i) :
    (resume exec l w i).threads j = w.threads j := by
  cases hp : (w.threads i).pending l with
  | none => rw [resume_of_finished exec l hp]
  | some c => rw [resume_of_pending exec l hp]; exact Function.update_of_ne h _ _

/-- An invariant kept by each coroutine's steps holds under every schedule. -/
theorem runPool_invariant (I : Pool ι Db L C R A → Prop)
    (keeps : ∀ w i, I w → I (resume exec l w i)) :
    ∀ (schedule : List ι) (w : Pool ι Db L C R A), I w → I (runPool exec l w schedule) := by
  intro schedule
  induction schedule with
  | nil => intro w h; exact h
  | cons i schedule ih => intro w h; exact ih _ (keeps w i h)

end Pool

end Coroutine
end Doudizhu
