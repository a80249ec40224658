import Doudizhu.Timer.Firing
import Doudizhu.Timer.Service

/-! # An update in one piece

When no callback calls a manager, the rounds of the loop in `update`, taken one by one in a
service, do to the manager what `SchedulerMgr.update` does at once, whatever the order of
`pairs`. -/

set_option autoImplicit false

namespace Doudizhu.Timer

open Runs Service SchedulerMgr

section Updates
variable {ι κ α : Type} [DecidableEq ι]

/-- The rounds of the loop, each with the return of the callback it has opened. -/
def rounds (x : ι) : SchedulerMgr κ α → List Nat → List (Event ι κ α)
  | _, [] => []
  | m, name :: order =>
      .visit x name ::
        ((m.visit name).2.2.toList.map fun _ => .callbackReturn x) ++
          rounds x (m.visit name).1 order

theorem mem_sweep (id : Nat) : ∀ (order : List Nat) (w : Sweep κ α),
    id ∈ (order.foldl Sweep.visit w).mgr.m_schedulers ↔ id ∈ w.mgr.m_schedulers := by
  intro order
  induction order with
  | nil => intro w; exact Iff.rfl
  | cons name order ih =>
      intro w
      rw [List.foldl_cons, ih]
      exact mem_visit w.mgr name id

def traversing (s : Service ι κ α) (x : ι) (deathIds visited : List Nat)
    (m : SchedulerMgr κ α) : Service ι κ α :=
  { s with frame := some ⟨x, deathIds, visited, false, false, false⟩ }.setMgr x m

theorem traversing_mgr (s : Service ι κ α) (x : ι) (deathIds visited : List Nat)
    (m : SchedulerMgr κ α) : (traversing s x deathIds visited m).mgrs x = m :=
  setMgr_self _ x m

theorem step_visit (s : Service ι κ α) (x : ι) (deathIds visited : List Nat)
    (m : SchedulerMgr κ α) {name : Nat} (hmem : name ∈ m.m_schedulers) (hnew : name ∉ visited) :
    step (traversing s x deathIds visited m) (.visit x name) =
      some ({ s with
        frame := some ⟨x, deathIds ++ (m.visit name).2.1, visited ++ [name], false, false,
          (m.visit name).2.2.isSome⟩ }.setMgr x (m.visit name).1) := by
  have hready : x = x ∧ false = false ∧ false = false ∧
      name ∈ ((traversing s x deathIds visited m).mgrs x).m_schedulers ∧
        (false = true ∨ name ∉ visited) := by
    rw [traversing_mgr]
    exact ⟨rfl, rfl, rfl, hmem, .inr hnew⟩
  have hvisit := step_of_steps (Steps.visit (s := traversing s x deathIds visited m) x name rfl
    hready)
  rw [hvisit, traversing_mgr]
  simp only [traversing, setMgr, Function.update_idem]

theorem run_round (s : Service ι κ α) (x : ι) (deathIds visited : List Nat)
    (m : SchedulerMgr κ α) {name : Nat} (hmem : name ∈ m.m_schedulers) (hnew : name ∉ visited) :
    run step (traversing s x deathIds visited m)
        (.visit x name :: (m.visit name).2.2.toList.map fun _ => .callbackReturn x) =
      some (traversing s x (deathIds ++ (m.visit name).2.1) (visited ++ [name])
        (m.visit name).1) := by
  rw [run, step_visit s x deathIds visited m hmem hnew, Option.bind_some]
  cases hinvoked : (m.visit name).2.2 with
  | none => rfl
  | some i =>
      have hreturn : ∀ t : Service ι κ α, t.frame = some ⟨x, deathIds ++ (m.visit name).2.1,
          visited ++ [name], false, false, true⟩ →
          step t (.callbackReturn x) = some { t with
            frame := some ⟨x, deathIds ++ (m.visit name).2.1, visited ++ [name], false, false,
              false⟩ } :=
        fun t ht => step_of_steps (Steps.callbackReturn x ht ⟨rfl, rfl⟩)
      rw [Option.toList_some, List.map_cons, List.map_nil, run, hreturn _ rfl]
      rfl

theorem run_rounds (s : Service ι κ α) (x : ι) : ∀ (order deathIds visited : List Nat)
    (m : SchedulerMgr κ α) (log : List (Invocation κ α)), order.Nodup →
    (∀ name ∈ order, name ∈ m.m_schedulers ∧ name ∉ visited) →
      run step (traversing s x deathIds visited m) (rounds x m order) =
        some (traversing s x (order.foldl Sweep.visit ⟨m, deathIds, log⟩).deathIds
          (visited ++ order) (order.foldl Sweep.visit ⟨m, deathIds, log⟩).mgr) := by
  intro order
  induction order with
  | nil =>
      intro deathIds visited m log _ _
      rw [List.append_nil]
      rfl
  | cons name order ih =>
      intro deathIds visited m log hnodup hready
      obtain ⟨hfresh, hnodup⟩ := List.nodup_cons.mp hnodup
      obtain ⟨hmem, hnew⟩ := hready name List.mem_cons_self
      rw [rounds, run_append, run_round s x deathIds visited m hmem hnew, Option.bind_some,
        List.foldl_cons, List.append_cons visited name order]
      apply ih _ _ _ _ hnodup
      intro other hother
      obtain ⟨hkept, hunseen⟩ := hready other (List.mem_cons_of_mem name hother)
      refine ⟨(mem_visit m name other).mpr hkept, fun hseen => ?_⟩
      rcases List.mem_append.mp hseen with hseen | hseen
      · exact hunseen hseen
      · exact hfresh (List.mem_singleton.mp hseen ▸ hother)

theorem run_update (s : Service ι κ α) (x : ι) (hrunning : s.running x = true)
    (hframe : s.frame = some ⟨x, [], [], false, false, false⟩) {order : List Nat}
    (horder : order.Perm (s.mgrs x).m_schedulers.keys) :
    run step s (rounds x (s.mgrs x) order ++ [.endUpdate x]) =
      some (({ s with frame := none }.setMgr x ((s.mgrs x).update order).1).drive x
        ((s.mgrs x).update order).2.2) := by
  have hself : traversing s x [] [] (s.mgrs x) = s := by
    unfold traversing setMgr
    rw [Function.update_eq_self, ← hframe]
  have hkeys : ∀ name, name ∈ order ↔ name ∈ (s.mgrs x).m_schedulers := fun name => by
    rw [horder.mem_iff, ← AList.mem_keys]
  have hrounds := run_rounds s x order [] [] (s.mgrs x) []
    (horder.nodup_iff.mpr (s.mgrs x).m_schedulers.nodupKeys)
    fun name hname => ⟨(hkeys name).mp hname, List.not_mem_nil⟩
  have hupdate : (s.mgrs x).update order =
      (((order.foldl Sweep.visit ⟨s.mgrs x, [], []⟩).mgr.finishUpdate
          (order.foldl Sweep.visit ⟨s.mgrs x, [], []⟩).deathIds).1,
        (order.foldl Sweep.visit ⟨s.mgrs x, [], []⟩).invoked,
        ((order.foldl Sweep.visit ⟨s.mgrs x, [], []⟩).mgr.finishUpdate
          (order.foldl Sweep.visit ⟨s.mgrs x, [], []⟩).deathIds).2) := if_pos hrunning
  have hswept : ∀ name ∈ (order.foldl Sweep.visit ⟨s.mgrs x, [], []⟩).mgr.m_schedulers.keys,
      name ∈ order := by
    intro name hname
    rw [← AList.mem_keys, mem_sweep] at hname
    exact (hkeys name).mpr hname
  rw [hself] at hrounds
  rw [run_append, hrounds, Option.bind_some, List.nil_append, hupdate]
  generalize order.foldl Sweep.visit ⟨s.mgrs x, [], []⟩ = w at hswept ⊢
  rw [← traversing_mgr s x w.deathIds order w.mgr] at hswept
  have hend := step_of_steps (Steps.endUpdate x (s := traversing s x w.deathIds order w.mgr) rfl
    ⟨rfl, rfl, .inr (.inr hswept)⟩)
  rw [run, hend, traversing_mgr]
  simp only [traversing, setMgr, Function.update_idem, run, Option.bind_some]

end Updates

end Doudizhu.Timer
