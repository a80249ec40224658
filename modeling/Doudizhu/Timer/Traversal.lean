import Doudizhu.Timer.Firing
import Doudizhu.Timer.Service

/-! # The table under the loop

`update` runs the callbacks in the middle of its `pairs` over `m_schedulers`, and they may call
the manager.  Lua defines such a traversal as long as no value is assigned to a key absent from
the table.  `unregister` only marks a timer and leaves it to `update` to remove the dead after the
loop, and `unregisterAllschedule` clears the keys and installs a new table; but `register` writes
its new key into the traversed table at once. -/

set_option autoImplicit false

namespace Doudizhu.Timer

open Runs Service SchedulerMgr

section Traversal
variable {ι κ α : Type} [DecidableEq ι]

def isLive (m : SchedulerMgr κ α) (name : Nat) : Bool :=
  (m.m_schedulers.lookup name).any Scheduler.isAlive

/-- The timer of `x` whose `updateTime` is called. -/
def advanced (x : ι) (s : Service ι κ α) : Event ι κ α → Option Nat
  | .visit y name => if y = x ∧ isLive (s.mgrs x) name = true then some name else none
  | _ => none

/-- As long as `x` has the table that is traversed, no key is assigned that is absent from it. -/
def AssignsNoNewKey (x : ι) (s : Service ι κ α) (e : Event ι κ α) : Prop :=
  ∀ f s', s.frame = some f → f.replaced = false → s.step e = some s' →
    ∀ name ∈ (s'.mgrs x).m_schedulers, name ∈ (s.mgrs x).m_schedulers

def CancelledIn (x : ι) (name : Nat) (es : List (Event ι κ α)) : Prop :=
  .unregister x name ∈ es ∨ .unregisterAllschedule x ∈ es

/-- The traversal from `s` on is defined, and when it ends it has advanced every timer once that
was live in `s` and has not been cancelled. -/
structure TickSafe (x : ι) (s : Service ι κ α) (es : List (Event ι κ α)) : Prop where
  traversal : Along step (AssignsNoNewKey x) s es
  advancedOnce : ∀ t t', run step s es = some t → t.step (.endUpdate x) = some t' →
    ∀ name, isLive (s.mgrs x) name = true → ¬ CancelledIn x name es →
      (outputs step (advanced x) s es).count name = 1

/-- A call of `register` on `x` that passes its assertion. -/
def InsertsInto (x : ι) : Event ι κ α → Prop
  | .register y _ intaval _ delay _ _ => y = x ∧ intaval % 100 = 0 ∧ delay % 100 = 0
  | _ => False

/-- Only after `unregisterAllschedule` does a callback of the tick register with `x`. -/
def RegistersAfresh (x : ι) (es : List (Event ι κ α)) : Prop :=
  ∀ pre e post, es = pre ++ e :: post → InsertsInto x e → .unregisterAllschedule x ∈ pre

/-! ## A step of the tick -/

/-- The table is still the one that the tick began with. -/
structure Traversing (x : ι) (s : Service ι κ α) (f : Frame ι) : Prop where
  frame : s.frame = some f
  mgr : f.mgr = x
  kept : f.grown = false ∧ f.replaced = false

/-- A live timer is advanced when its round comes. -/
structure Due (x : ι) (name : Nat) (s : Service ι κ α) (log : List Nat) (f : Frame ι) : Prop
    extends Traversing x s f where
  count : log.count name = if name ∈ f.visited then 1 else 0
  live : name ∉ f.visited → isLive (s.mgrs x) name = true

/-- An event that leaves the timer `name` to its round. -/
def Leaves (x : ι) (name : Nat) (e : Event ι κ α) : Prop :=
  e ≠ .unregister x name ∧ e ≠ .unregisterAllschedule x ∧ e ≠ .endUpdate x ∧ ¬ InsertsInto x e

theorem isLive_unregister {m : SchedulerMgr κ α} {name id : Nat} (hne : name ≠ id) :
    isLive (m.unregister id) name = isLive m name := by
  rw [isLive, unregister_lookup_ne m hne, isLive]

theorem isLive_visit {m : SchedulerMgr κ α} {name id : Nat} (hne : name ≠ id) :
    isLive (m.visit id).1 name = isLive m name := by
  rw [isLive, visit_lookup, if_neg hne, isLive]

theorem mem_of_isLive {m : SchedulerMgr κ α} {name : Nat} (h : isLive m name = true) :
    name ∈ m.m_schedulers := by
  rw [isLive] at h
  cases hlookup : m.m_schedulers.lookup name with
  | none =>
      rw [hlookup] at h
      exact absurd h Bool.false_ne_true
  | some s => exact AList.lookup_isSome.mp (by rw [hlookup]; rfl)

theorem eq_of_advanced {x y : ι} {s : Service ι κ α} {name id : Nat}
    (h : advanced x s (.visit y id) = some name) : name = id := by
  change (if y = x ∧ isLive (s.mgrs x) id = true then some id else none) = some name at h
  split_ifs at h
  exact (Option.some.inj h).symm

theorem Traversing.grow {x y : ι} {s : Service ι κ α} {f : Frame ι} (h : Traversing x s f)
    (hne : y ≠ x) : (s.frame.map fun f => Frame.grow f y) = some f := by
  rw [h.frame, Option.map_some, Frame.grow, if_neg fun hy => hne (hy.1.symm.trans h.mgr)]

theorem Traversing.replace {x y : ι} {s : Service ι κ α} {f : Frame ι} (h : Traversing x s f)
    (hne : y ≠ x) : (s.frame.map fun f => Frame.replace f y) = some f := by
  rw [h.frame, Option.map_some, Frame.replace, if_neg fun hy => hne (hy.symm.trans h.mgr)]

omit [DecidableEq ι] in
theorem Due.of_same {x : ι} {name : Nat} {s s' : Service ι κ α} {log : List Nat} {f : Frame ι}
    (h : Due x name s log f) (hframe : s'.frame = some f)
    (hlive : isLive (s'.mgrs x) name = isLive (s.mgrs x) name) : Due x name s' log f where
  frame := hframe
  mgr := h.mgr
  kept := h.kept
  count := h.count
  live hname := hlive.trans (h.live hname)

theorem Due.count_visit {x : ι} {name id : Nat} {s : Service ι κ α} {log : List Nat} {f : Frame ι}
    (h : Due x name s log f) (hnew : id ∉ f.visited) :
    (log ++ (advanced x s (.visit x id)).toList).count name =
      if name ∈ f.visited ++ [id] then 1 else 0 := by
  by_cases hid : name = id
  · subst hid
    rw [advanced, if_pos ⟨rfl, h.live hnew⟩, List.count_append, h.count, if_neg hnew,
      if_pos (List.mem_append_right _ (List.mem_singleton_self name))]
    simp
  · have hother : name ∉ (advanced x s (.visit x id)).toList :=
      fun hmem => hid (eq_of_advanced (Option.mem_toList.mp hmem))
    rw [List.count_append, h.count, List.count_eq_zero_of_not_mem hother, Nat.add_zero]
    simp [hid]

theorem due_step {x : ι} {name : Nat} {s s' : Service ι κ α} {e : Event ι κ α} {log : List Nat}
    (hindexed : ∀ y, (s.mgrs y).Indexed) (hdue : ∃ f, Due x name s log f)
    (hleaves : Leaves x name e) (hstep : s.step e = some s') :
    ∃ f, Due x name s' (log ++ (advanced x s e).toList) f := by
  obtain ⟨f, h⟩ := hdue
  obtain ⟨hname, hall, hend, hinserts⟩ := hleaves
  let P := fun m : SchedulerMgr κ α => isLive m name = isLive (s.mgrs x) name
  have hkept : P (s.mgrs x) := rfl
  have hsilent : advanced x s e = none → log ++ (advanced x s e).toList = log := by
    intro hnone
    rw [hnone, Option.toList_none, List.append_nil]
  cases steps_of_step hstep with
  | refused y _ _ =>
      rw [hsilent rfl]
      exact ⟨f, h⟩
  | register y _ hadded =>
      rw [hsilent rfl]
      have hne : y ≠ x := fun hy => hinserts ⟨hy, (hindexed y).unit_of_added hadded⟩
      refine ⟨f, h.of_same ?_ ?_⟩
      · rw [drive_frame]
        exact h.grow hne
      · rw [drive_mgrs, setMgr_of_ne _ (Ne.symm hne)]
  | unregister y id _ =>
      rw [hsilent rfl]
      refine ⟨f, h.of_same h.frame ?_⟩
      refine setMgr_rule (P := P) s x y _ (fun hy => ?_) hkept
      subst hy
      exact isLive_unregister fun hid => hname (by rw [hid])
  | unregisterAllschedule y _ =>
      rw [hsilent rfl]
      have hne : y ≠ x := fun hy => hall (by rw [hy])
      refine ⟨f, h.of_same ?_ ?_⟩
      · rw [drive_frame]
        exact h.replace hne
      · rw [drive_mgrs, setMgr_of_ne _ (Ne.symm hne)]
  | clock =>
      rw [hsilent rfl]
      exact ⟨f, h.of_same h.frame rfl⟩
  | timeout y hidle _ _ => exact absurd (h.frame.symm.trans hidle) (Option.some_ne_none f)
  | visit y id hframe hready =>
      rename_i g
      obtain rfl : f = g := Option.some.inj (h.frame.symm.trans hframe)
      obtain rfl : y = x := hready.1.symm.trans h.mgr
      have hnew : id ∉ f.visited := by
        rcases hready.2.2.2.2 with hgrown | hnew
        · exact absurd (h.kept.1.symm.trans hgrown) Bool.false_ne_true
        · exact hnew
      refine ⟨_, ⟨rfl, h.mgr, h.kept⟩, h.count_visit hnew, fun hunseen => ?_⟩
      obtain ⟨hbefore, hid⟩ : name ∉ f.visited ∧ name ≠ id := by simpa using hunseen
      rw [setMgr_self, isLive_visit hid]
      exact h.live hbefore
  | callbackReturn y hframe hready =>
      rename_i g
      obtain rfl : f = g := Option.some.inj (h.frame.symm.trans hframe)
      rw [hsilent rfl]
      exact ⟨_, ⟨rfl, h.mgr, h.kept⟩, h.count, h.live⟩
  | endUpdate y hframe hready =>
      rename_i g
      obtain rfl : f = g := Option.some.inj (h.frame.symm.trans hframe)
      exact absurd (by rw [hready.1.symm.trans h.mgr]) hend

/-- The state in the tick: the frame stays that of `x`, and is marked once the table is replaced. -/
def InTick (x : ι) (s : Service ι κ α) (replaced : Bool) : Prop :=
  (∀ y, (s.mgrs y).Indexed) ∧ ∃ f, s.frame = some f ∧ f.mgr = x ∧ f.replaced = replaced

theorem inTick_step {x : ι} {replaced : Bool} {s s' : Service ι κ α} {e : Event ι κ α}
    (h : InTick x s replaced) (hend : e ≠ .endUpdate x) (hstep : s.step e = some s') :
    ∃ after, InTick x s' after ∧
      (after = true ↔ replaced = true ∨ e = .unregisterAllschedule x) := by
  obtain ⟨hindexed, f, hframe, hmgr, hreplaced⟩ := h
  have hindexed' := indexed_step hindexed hstep
  have hsame : e ≠ .unregisterAllschedule x →
      (replaced = true ↔ replaced = true ∨ e = .unregisterAllschedule x) :=
    fun hne => ⟨Or.inl, fun h => h.resolve_right hne⟩
  cases steps_of_step hstep with
  | refused y _ _ => exact ⟨replaced, ⟨hindexed', f, hframe, hmgr, hreplaced⟩, hsame nofun⟩
  | register y _ _ =>
      refine ⟨replaced, ⟨hindexed', Frame.grow f y, ?_, (grow_mgr f y).trans hmgr, ?_⟩, hsame nofun⟩
      · rw [drive_frame]
        exact (congrArg (Option.map _) hframe).trans rfl
      · rw [← hreplaced, Frame.grow]
        split_ifs <;> rfl
  | unregister y id _ => exact ⟨replaced, ⟨hindexed', f, hframe, hmgr, hreplaced⟩, hsame nofun⟩
  | unregisterAllschedule y _ =>
      refine ⟨_, ⟨hindexed', Frame.replace f y, ?_, (replace_mgr f y).trans hmgr, rfl⟩, ?_⟩
      · rw [drive_frame]
        exact (congrArg (Option.map _) hframe).trans rfl
      · by_cases hy : f.mgr = y
        · rw [Frame.replace, if_pos hy, ← hy, hmgr]
          simp
        · rw [Frame.replace, if_neg hy, hreplaced]
          exact hsame fun hsame => hy (by cases hsame; exact hmgr)
  | clock => exact ⟨replaced, ⟨hindexed', f, hframe, hmgr, hreplaced⟩, hsame nofun⟩
  | timeout y hidle _ _ => exact absurd (hframe.symm.trans hidle) (Option.some_ne_none f)
  | visit y id hopen hready =>
      rename_i g
      obtain rfl : f = g := Option.some.inj (hframe.symm.trans hopen)
      exact ⟨replaced, ⟨hindexed', _, rfl, hmgr, hreplaced⟩, hsame nofun⟩
  | callbackReturn y hopen hready =>
      rename_i g
      obtain rfl : f = g := Option.some.inj (hframe.symm.trans hopen)
      exact ⟨replaced, ⟨hindexed', _, rfl, hmgr, hreplaced⟩, hsame nofun⟩
  | endUpdate y hopen hready =>
      rename_i g
      obtain rfl : f = g := Option.some.inj (hframe.symm.trans hopen)
      exact absurd (by rw [hready.1.symm.trans hmgr]) hend

theorem inTick_run {x : ι} : ∀ (es : List (Event ι κ α)) (s t : Service ι κ α) (replaced : Bool),
    InTick x s replaced → .endUpdate x ∉ es → run step s es = some t →
      ∃ after, InTick x t after ∧
        (after = true ↔ replaced = true ∨ .unregisterAllschedule x ∈ es) := by
  intro es
  induction es with
  | nil =>
      intro s t replaced h _ hrun
      cases Option.some.inj hrun
      exact ⟨replaced, h, by simp⟩
  | cons e es ih =>
      intro s t replaced h hopen hrun
      obtain ⟨s', hstep, hrest⟩ := (run_cons_eq_some step s t e es).mp hrun
      have hend : e ≠ .endUpdate x := fun he => hopen (he ▸ List.mem_cons_self)
      obtain ⟨between, hbetween, hfirst⟩ := inTick_step h hend hstep
      obtain ⟨after, hafter, hlater⟩ :=
        ih s' t between hbetween (fun hmem => hopen (List.mem_cons_of_mem e hmem)) hrest
      refine ⟨after, hafter, ?_⟩
      rw [hlater, hfirst, List.mem_cons, or_assoc, eq_comm (a := e)]

/-- A call inside the tick that adds a key does so by registering with `x`, and in the traversed
table. -/
theorem assignsNoNewKey_iff {x : ι} {s s' : Service ι κ α} {e : Event ι κ α} {replaced : Bool}
    (h : InTick x s replaced) (hend : e ≠ .endUpdate x) (hstep : s.step e = some s') :
    AssignsNoNewKey x s e ↔ (InsertsInto x e → replaced = true) := by
  obtain ⟨hindexed, f, hframe, hmgr, hreplaced⟩ := h
  constructor
  · intro hnone hinserts
    by_contra hfalse
    have hkept := hnone f s' hframe (hreplaced.trans (Bool.eq_false_iff.mpr hfalse)) hstep
    cases steps_of_step hstep with
    | refused y _ hfailed =>
        exact (hindexed y).not_unit_of_refused hfailed hinserts.2
    | register y _ hadded =>
        obtain ⟨rfl, _⟩ := hinserts
        obtain ⟨hadd, _⟩ := (hindexed y).added hadded
        have hnew := hkept _ (AList.lookup_isSome.mp (by
          rw [drive_mgrs, setMgr_self, hadd.lookup]
          rfl))
        have hle := (hindexed y).le_idBase _ hnew
        have heq := hadd.id_eq
        omega
    | unregister y id _ => exact hinserts
    | unregisterAllschedule y _ => exact hinserts
    | clock => exact hinserts
    | timeout y _ _ _ => exact hinserts
    | visit y id _ _ => exact hinserts
    | callbackReturn y _ _ => exact hinserts
    | endUpdate y _ _ => exact hinserts
  · intro hinserts g s'' hg hfalse hs''
    obtain rfl : f = g := Option.some.inj (hframe.symm.trans hg)
    obtain rfl : s' = s'' := Option.some.inj (hstep.symm.trans hs'')
    have hnot : ¬ InsertsInto x e := fun hi =>
      Bool.false_ne_true (hfalse.symm.trans (hreplaced.trans (hinserts hi)))
    intro name
    let P := fun m : SchedulerMgr κ α => name ∈ m.m_schedulers → name ∈ (s.mgrs x).m_schedulers
    have hkept : P (s.mgrs x) := id
    cases steps_of_step hstep with
    | refused y _ _ => exact hkept
    | register y _ hadded =>
        rw [drive_mgrs]
        refine setMgr_rule (P := P) _ x y _ (fun hy => ?_) hkept
        exact absurd ⟨hy.symm, (hindexed y).unit_of_added hadded⟩ hnot
    | unregister y id _ =>
        refine setMgr_rule (P := P) _ x y _ (fun hy hmem => ?_) hkept
        subst hy
        obtain ⟨t, ht⟩ := Option.isSome_iff_exists.mp (AList.lookup_isSome.mpr hmem)
        obtain ⟨old, hold, _⟩ := unregister_origin ht
        exact AList.lookup_isSome.mp (by rw [hold]; rfl)
    | unregisterAllschedule y _ =>
        rw [drive_mgrs]
        exact setMgr_rule (P := P) _ x y _ (fun _ hmem => absurd hmem (AList.notMem_empty name))
          hkept
    | clock => exact hkept
    | timeout y _ _ _ =>
        rw [timeoutCallback_mgrs]
        exact hkept
    | visit y id _ _ =>
        refine setMgr_rule (P := P) _ x y _ (fun hy hmem => ?_) hkept
        subst hy
        exact (mem_visit _ id name).mp hmem
    | callbackReturn y _ _ => exact hkept
    | endUpdate y hopen hready =>
        rename_i g
        obtain rfl : f = g := Option.some.inj (hframe.symm.trans hopen)
        exact absurd (by rw [hready.1.symm.trans hmgr]) hend

/-! ## The whole tick -/

theorem traversal_iff {x : ι} {es : List (Event ι κ α)} {s t : Service ι κ α}
    (h : InTick x s false) (hopen : .endUpdate x ∉ es) (hrun : run step s es = some t) :
    Along step (AssignsNoNewKey x) s es ↔ RegistersAfresh x es := by
  have hreplaced : ∀ pre u, pre <+: es → run step s pre = some u →
      ∃ after, InTick x u after ∧ (after = true ↔ .unregisterAllschedule x ∈ pre) := by
    intro pre u hpre hu
    obtain ⟨after, hafter, hiff⟩ :=
      inTick_run pre s u false h (fun hmem => hopen (hpre.subset hmem)) hu
    exact ⟨after, hafter, by simpa using hiff⟩
  constructor
  · rintro halong pre e post rfl hinserts
    rw [run_append] at hrun
    obtain ⟨u, hu, hrest⟩ := Option.bind_eq_some_iff.mp hrun
    obtain ⟨u', hstep, _⟩ := (run_cons_eq_some step u t e post).mp hrest
    obtain ⟨after, hafter, hiff⟩ := hreplaced pre u (List.prefix_append pre _) hu
    have hend : e ≠ .endUpdate x := fun he =>
      hopen (List.mem_append_right pre (he ▸ List.mem_cons_self))
    have hnone := along_at step pre e post s u halong hu
    exact hiff.mp ((assignsNoNewKey_iff hafter hend hstep).mp hnone hinserts)
  · intro hafresh
    by_contra hnot
    obtain ⟨pre, e, u, u', hpre, _, hu, hbreaks, hstep⟩ :=
      exists_first_outside step (AssignsNoNewKey x) es s t hrun hnot
    obtain ⟨post, rfl⟩ := hpre
    obtain ⟨after, hafter, hiff⟩ := hreplaced pre u ⟨[e] ++ post, by simp⟩ hu
    have hend : e ≠ .endUpdate x := fun he => hopen (by simp [he])
    apply hbreaks
    rw [assignsNoNewKey_iff hafter hend hstep]
    intro hinserts
    exact hiff.mpr (hafresh pre e post (by simp) hinserts)

theorem advanced_once {x : ι} {es : List (Event ι κ α)} {s t t' : Service ι κ α}
    (hindexed : ∀ y, (s.mgrs y).Indexed)
    (hframe : s.frame = some ⟨x, [], [], false, false, false⟩) (hopen : .endUpdate x ∉ es)
    (hafresh : RegistersAfresh x es) (hrun : run step s es = some t)
    (hended : t.step (.endUpdate x) = some t') {name : Nat}
    (hlive : isLive (s.mgrs x) name = true) (hkept : ¬ CancelledIn x name es) :
    (outputs step (advanced x) s es).count name = 1 := by
  have hleaves : ∀ e ∈ es, Leaves x name e := by
    intro e he
    refine ⟨fun hcancel => hkept (.inl (hcancel ▸ he)), fun hcancel => hkept (.inr (hcancel ▸ he)),
      fun hend => hopen (hend ▸ he), fun hinserts => ?_⟩
    obtain ⟨pre, post, rfl⟩ := List.append_of_mem he
    exact hkept (.inr (List.mem_append_left _ (hafresh pre e post rfl hinserts)))
  have hstart : ∃ f, Due x name s [] f := by
    refine ⟨_, ⟨hframe, rfl, rfl, rfl⟩, ?_, fun _ => hlive⟩
    rw [if_neg List.not_mem_nil, List.count_nil]
  obtain ⟨_, f, hdue⟩ := outputs_invariant step (advanced x) (fun _ => Leaves x name)
    (fun u log => (∀ y, (u.mgrs y).Indexed) ∧ ∃ f, Due x name u log f)
    (fun _ _ _ _ h hleaves hstep =>
      ⟨indexed_step h.1 hstep, due_step h.1 h.2 hleaves hstep⟩)
    es s t [] ⟨hindexed, hstart⟩ (along_of_forall step es s fun e he _ => hleaves e he) hrun
  rw [List.nil_append] at hdue
  have hseen : name ∈ f.visited := by
    cases steps_of_step hended with
    | endUpdate y hopened hready =>
        rename_i g
        obtain rfl : f = g := Option.some.inj (hdue.frame.symm.trans hopened)
        rcases hready.2.2 with hreplaced | hgrown | hall
        · exact absurd (hdue.kept.2.symm.trans hreplaced) Bool.false_ne_true
        · exact absurd (hdue.kept.1.symm.trans hgrown) Bool.false_ne_true
        · by_contra hunseen
          exact hunseen (hall name (AList.mem_keys.mp (mem_of_isLive (hdue.live hunseen))))
  rw [hdue.count, if_pos hseen]

/-- In every tick of every run, the traversal is defined and advances every live timer that is not
cancelled exactly once if and only if the callbacks register with the manager only after they have
called `unregisterAllschedule`. -/
theorem tick_safe_iff (x : ι) {pre es : List (Event ι κ α)} {s t : Service ι κ α}
    (hreached : run step start pre = some s)
    (hframe : s.frame = some ⟨x, [], [], false, false, false⟩)
    (hrun : run step s es = some t) (hopen : .endUpdate x ∉ es) :
    TickSafe x s es ↔ RegistersAfresh x es := by
  have hindexed := indexed_run hreached
  have htick : InTick x s false := ⟨hindexed, _, hframe, rfl, rfl⟩
  constructor
  · exact fun h => (traversal_iff htick hopen hrun).mp h.traversal
  · exact fun hafresh => ⟨(traversal_iff htick hopen hrun).mpr hafresh,
      fun u u' hu hended name hlive hkept =>
        advanced_once hindexed hframe hopen hafresh hu hended hlive hkept⟩

end Traversal

/-! ## One timer -/

def firstTick : List (Event Unit Unit Unit) :=
  .register () (some ()) 100 (-1) 0 none [] :: List.replicate 10 .clock ++ [.timeout ()]

/-- As in the example in `schedulerMgr.lua`, the callback cancels its own timer. -/
theorem tick_safe_of_self_cancel :
    ∃ s, run step start firstTick = some s ∧
      TickSafe () s [.visit () 1, .unregister () 1, .callbackReturn ()] := by
  refine ⟨_, rfl, (tick_safe_iff () (show run step start firstTick = some _ from rfl) rfl rfl
    (by simp)).mpr ?_⟩
  intro pre e post hsplit hinserts
  have hmem : e ∈ pre ++ e :: post := List.mem_append_right pre List.mem_cons_self
  rw [← hsplit] at hmem
  simp only [List.mem_cons, List.not_mem_nil, or_false] at hmem
  obtain rfl | rfl | rfl := hmem <;> exact hinserts.elim

/-- The callback registers a timer. -/
theorem tick_unsafe_of_register :
    ∃ s, run step start firstTick = some s ∧
      s.frame = some ⟨(), [], [], false, false, false⟩ ∧
      ∃ t, run step s [.visit () 1, .register () none 100 1 0 none []] = some t ∧
        ¬ TickSafe () s [.visit () 1, .register () none 100 1 0 none []] := by
  refine ⟨_, rfl, rfl, _, rfl, fun hsafe => ?_⟩
  have hindexed := indexed_run
    (show run step (start : Service Unit Unit Unit) firstTick = some _ from rfl)
  have hafresh := (traversal_iff ⟨hindexed, _, rfl, rfl, rfl⟩ (by simp) rfl).mp hsafe.traversal
  have hcleared := hafresh [.visit () 1] _ [] rfl ⟨rfl, by decide⟩
  simp at hcleared

end Doudizhu.Timer
