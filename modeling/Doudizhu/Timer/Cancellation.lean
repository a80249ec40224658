import Doudizhu.Timer.Firing
import Doudizhu.Timer.Service

/-! # Cancelled timers

A handle is the id under which `register` stores a timer.  `m_idBase` is the largest handle given
out and never goes back, so ids are not reused, and a step can only leave an old timer as it is,
kill it, let it tick or remove it.  A dead timer stays dead: whatever the callbacks do in the
middle of a tick, a timer that was cancelled does not shoot again. -/

set_option autoImplicit false

namespace Doudizhu.Timer

open Runs Service Scheduler SchedulerMgr

/-- The calls that have returned and the callbacks that are run. -/
inductive Action (ι : Type) where
  | registered (x : ι) (name : Nat)
  | unregistered (x : ι) (name : Nat)
  | unregisteredAll (x : ι)
  | invoked (x : ι) (name : Nat)

/-- The handles that `x` has returned, in this order. -/
def handles {ι : Type} [DecidableEq ι] (x : ι) (log : List (Action ι)) : List Nat :=
  log.filterMap fun
    | .registered y name => if y = x then some name else none
    | _ => none

def Cancels {ι : Type} (x : ι) (name : Nat) : Action ι → Prop
  | .unregistered y id => y = x ∧ id = name
  | .unregisteredAll y => y = x
  | _ => False

/-- Handles grow, and after a cancellation the callback registered under the handle is not run. -/
structure CancelledForGood {ι : Type} [DecidableEq ι] (log : List (Action ι)) : Prop where
  increasing : ∀ x, (handles x log).Pairwise (· < ·)
  silent : ∀ x name before cancel after, log = before ++ cancel :: after →
    .registered x name ∈ before → Cancels x name cancel → .invoked x name ∉ after

section Cancellation
variable {ι κ α : Type} [DecidableEq ι]

def action (s : Service ι κ α) : Event ι κ α → Option (Action ι)
  | .register x callback intaval times delay target args =>
      ((s.mgrs x).register callback intaval times delay target args).map fun added =>
        .registered x added.2.2
  | .unregister x name => some (.unregistered x name)
  | .unregisterAllschedule x => some (.unregisteredAll x)
  | .visit x name => ((s.mgrs x).visit name).2.2.map fun i => .invoked x i.name
  | _ => none

def actions (s : Service ι κ α) (es : List (Event ι κ α)) : List (Action ι) :=
  outputs step action s es

/-- `unregister` leaves every other timer as it is, and its own one too when that is dead or gone;
it does not touch the clock. -/
structure Untouched (s s' : Service ι κ α) (x : ι) (name : Nat) : Prop where
  others : ∀ y id, (y, id) ≠ (x, name) →
    (s'.mgrs y).m_schedulers.lookup id = (s.mgrs y).m_schedulers.lookup id
  own : (∀ t, (s.mgrs x).m_schedulers.lookup name = some t → t.alive = false) →
    (s'.mgrs x).m_schedulers.lookup name = (s.mgrs x).m_schedulers.lookup name
  running : ∀ y, s'.running y = s.running y
  clock : s'.instanceMgr = s.instanceMgr ∧ s'.timeouts = s.timeouts ∧ s'.frame = s.frame

def UnregisterHarmless (s : Service ι κ α) : Event ι κ α → Prop
  | .unregister x name => ∀ s', s.step (.unregister x name) = some s' → Untouched s s' x name
  | _ => True

/-- A call that passes the assertion of `register` returns a handle. -/
def RegisterReturns (s : Service ι κ α) : Event ι κ α → Prop
  | .register x callback intaval times delay target args => intaval % 100 = 0 ∧ delay % 100 = 0 →
      ∃ name, action s (.register x callback intaval times delay target args) =
        some (.registered x name)
  | _ => True

/-! ## What a step does to a timer -/

/-- The fate of a timer in one step: it stays, is killed, ticks or is removed. -/
def Fate (old new : Option (Scheduler κ α)) : Prop :=
  ∀ t', new = some t' → ∃ t, old = some t ∧
    (t' = t ∨ t' = t.death ∨ t' = (t.updateTime curTimeUnit).1)

theorem fate_same {old new : Option (Scheduler κ α)} (h : new = old) : Fate old new :=
  fun t' ht' => ⟨t', h.symm.trans ht', Or.inl rfl⟩

theorem fate_removed {old new : Option (Scheduler κ α)} (h : new = none) : Fate old new :=
  fun t' ht' => absurd (ht'.symm.trans h) (Option.some_ne_none t')

theorem Fate.dead {old new : Option (Scheduler κ α)} (h : Fate old new)
    (hdead : ∀ t, old = some t → t.alive = false) : ∀ t', new = some t' → t'.alive = false := by
  intro t' ht'
  obtain ⟨t, ht, rfl | rfl | rfl⟩ := h t' ht'
  · exact hdead t' ht
  · rfl
  · rw [updateTime_of_dead (hdead t ht)]
    exact hdead t ht

theorem step_fate {s s' : Service ι κ α} {e : Event ι κ α} (h : ∀ x, (s.mgrs x).Indexed)
    (hstep : s.step e = some s') (x : ι) {name : Nat} (hname : name ≤ (s.mgrs x).m_idBase) :
    Fate ((s.mgrs x).m_schedulers.lookup name) ((s'.mgrs x).m_schedulers.lookup name) := by
  have hkept : Fate ((s.mgrs x).m_schedulers.lookup name) ((s.mgrs x).m_schedulers.lookup name) :=
    fate_same rfl
  let P := fun m : SchedulerMgr κ α =>
    Fate ((s.mgrs x).m_schedulers.lookup name) (m.m_schedulers.lookup name)
  cases steps_of_step hstep with
  | refused y _ _ => exact hkept
  | register y hallowed hadded =>
      rw [drive_mgrs]
      refine setMgr_rule (P := P) _ x y _ (fun hy => ?_) hkept
      subst hy
      obtain ⟨hadd, _⟩ := (h x).added hadded
      have hfresh := hadd.id_eq
      exact fate_same (hadd.others name (by omega))
  | unregister y id _ =>
      refine setMgr_rule (P := P) s x y _ (fun hy => ?_) hkept
      subst hy
      intro t' ht'
      obtain ⟨t, ht, hsame | hkilled⟩ := unregister_origin ht'
      · exact ⟨t, ht, Or.inl hsame⟩
      · exact ⟨t, ht, Or.inr (Or.inl hkilled)⟩
  | unregisterAllschedule y _ =>
      rw [drive_mgrs]
      exact setMgr_rule (P := P) _ x y _ (fun _ => fate_removed (AList.lookup_empty name)) hkept
  | clock => exact hkept
  | timeout y _ _ _ =>
      rw [timeoutCallback_mgrs]
      exact hkept
  | visit y id _ _ =>
      refine setMgr_rule (P := P) _ x y _ (fun hy => ?_) hkept
      subst hy
      intro t' ht'
      rw [visit_lookup] at ht'
      by_cases hid : name = id
      · rw [if_pos hid] at ht'
        obtain ⟨t, ht, rfl⟩ := Option.map_eq_some_iff.mp ht'
        exact ⟨t, ht, Or.inr (Or.inr rfl)⟩
      · rw [if_neg hid] at ht'
        exact ⟨t', ht', Or.inl rfl⟩
  | callbackReturn y _ _ => exact hkept
  | endUpdate y _ _ =>
      rw [drive_mgrs]
      refine setMgr_rule (P := P) _ x y _ (fun hy => ?_) hkept
      subst hy
      change Fate _ ((SchedulerMgr.finishUpdate _ _).1.m_schedulers.lookup name)
      rw [finishUpdate_lookup]
      split_ifs
      · exact fate_removed rfl
      · exact hkept
      · exact fate_removed rfl

theorem idBase_le_step {s s' : Service ι κ α} {e : Event ι κ α} (h : ∀ x, (s.mgrs x).Indexed)
    (hstep : s.step e = some s') (x : ι) : (s.mgrs x).m_idBase ≤ (s'.mgrs x).m_idBase := by
  have hkept : (s.mgrs x).m_idBase ≤ (s.mgrs x).m_idBase := Nat.le_refl _
  let P := fun m : SchedulerMgr κ α => (s.mgrs x).m_idBase ≤ m.m_idBase
  cases steps_of_step hstep with
  | refused y _ _ => exact hkept
  | register y hallowed hadded =>
      rw [drive_mgrs]
      refine setMgr_rule (P := P) _ x y _ (fun hy => ?_) hkept
      subst hy
      obtain ⟨hadd, _⟩ := (h x).added hadded
      have hfresh := hadd.id_eq
      have hbase := hadd.idBase
      change (s.mgrs x).m_idBase ≤ _
      omega
  | unregister y id _ =>
      exact setMgr_rule (P := P) s x y _
        (fun hy => hy ▸ Nat.le_of_eq (unregister_idBase _ id).symm) hkept
  | unregisterAllschedule y _ =>
      rw [drive_mgrs]
      exact setMgr_rule (P := P) _ x y _ (fun hy => hy ▸ Nat.le_refl _) hkept
  | clock => exact hkept
  | timeout y _ _ _ =>
      rw [timeoutCallback_mgrs]
      exact hkept
  | visit y id _ _ =>
      exact setMgr_rule (P := P) _ x y _
        (fun hy => hy ▸ Nat.le_of_eq (visit_indexed (h x) id).2.1.symm) hkept
  | callbackReturn y _ _ => exact hkept
  | endUpdate y _ _ =>
      rw [drive_mgrs]
      exact setMgr_rule (P := P) _ x y _
        (fun hy => hy ▸ Nat.le_of_eq (finishUpdate_indexed (h x) _).2.symm) hkept

theorem idBase_le_run (x : ι) (es : List (Event ι κ α)) (s t : Service ι κ α)
    (h : ∀ y, (s.mgrs y).Indexed) (hrun : run step s es = some t) :
    (s.mgrs x).m_idBase ≤ (t.mgrs x).m_idBase :=
  (run_invariant step (fun _ _ => True)
    (fun u : Service ι κ α => (∀ y, (u.mgrs y).Indexed) ∧ (s.mgrs x).m_idBase ≤ (u.mgrs x).m_idBase)
    (fun _ _ _ hu _ hstep => ⟨indexed_step hu.1 hstep,
      Nat.le_trans hu.2 (idBase_le_step hu.1 hstep x)⟩)
    es s t ⟨h, Nat.le_refl _⟩ (along_true step es s) hrun).2

/-! ## Handles -/

theorem registered_step {s s' : Service ι κ α} {e : Event ι κ α} (h : ∀ x, (s.mgrs x).Indexed)
    (hstep : s.step e = some s') {x : ι} {name : Nat}
    (haction : action s e = some (.registered x name)) :
    name = (s.mgrs x).m_idBase + 1 ∧ (s'.mgrs x).m_idBase = name := by
  cases steps_of_step hstep with
  | refused y _ hfailed =>
      rw [action, hfailed] at haction
      exact absurd haction.symm (Option.some_ne_none _)
  | register y hallowed hadded =>
      obtain ⟨hadd, _⟩ := (h y).added hadded
      rw [action, hadded] at haction
      cases Option.some.inj haction
      rw [drive_mgrs, setMgr_self]
      exact ⟨hadd.id_eq, hadd.idBase⟩
  | visit y id _ _ =>
      obtain ⟨i, _, hi⟩ := Option.map_eq_some_iff.mp haction
      cases hi
  | unregister y id _ => cases haction
  | unregisterAllschedule y _ => cases haction
  | clock => cases haction
  | timeout y _ _ _ => cases haction
  | callbackReturn y _ _ => cases haction
  | endUpdate y _ _ => cases haction

theorem handles_append (x : ι) (log later : List (Action ι)) :
    handles x (log ++ later) = handles x log ++ handles x later :=
  List.filterMap_append ..

theorem mem_handles {x : ι} {log : List (Action ι)} {name : Nat} :
    name ∈ handles x log ↔ .registered x name ∈ log := by
  constructor
  · intro h
    obtain ⟨a, hmem, ha⟩ := List.mem_filterMap.mp h
    cases a with
    | registered y id =>
        dsimp only at ha
        split_ifs at ha with hy
        cases Option.some.inj ha
        exact hy ▸ hmem
    | unregistered y id => cases ha
    | unregisteredAll y => cases ha
    | invoked y id => cases ha
  · intro h
    exact List.mem_filterMap.mpr ⟨_, h, if_pos rfl⟩

theorem handles_increasing (x : ι) : ∀ (es : List (Event ι κ α)) (s : Service ι κ α),
    (∀ y, (s.mgrs y).Indexed) → (handles x (actions s es)).Pairwise (· < ·) ∧
      ∀ name ∈ handles x (actions s es), (s.mgrs x).m_idBase < name := by
  intro es
  induction es with
  | nil => intro s _; exact ⟨List.Pairwise.nil, fun _ h => absurd h List.not_mem_nil⟩
  | cons e es ih =>
      intro s h
      cases hstep : s.step e with
      | none =>
          rw [actions, outputs_of_none step action es hstep]
          exact ⟨List.Pairwise.nil, fun _ h => absurd h List.not_mem_nil⟩
      | some s' =>
          obtain ⟨hsorted, habove⟩ := ih s' (indexed_step h hstep)
          have hbase := idBase_le_step h hstep x
          have hfirst : ∀ name ∈ handles x (action s e).toList,
              (s.mgrs x).m_idBase < name ∧ name ≤ (s'.mgrs x).m_idBase := by
            intro name hname
            have haction := Option.mem_toList.mp (mem_handles.mp hname)
            obtain ⟨hnext, hlast⟩ := registered_step h hstep haction
            omega
          have hone : (handles x (action s e).toList).Pairwise (· < ·) := by
            cases action s e with
            | none => exact List.Pairwise.nil
            | some a => exact List.pairwise_filterMap.mpr (List.pairwise_singleton _ a)
          rw [actions, outputs_of_some step action es hstep, handles_append]
          refine ⟨List.pairwise_append.mpr ⟨hone, hsorted, fun name hname later hlater => ?_⟩,
            fun name hname => ?_⟩
          · have h1 := hfirst name hname
            have h2 := habove later hlater
            omega
          · rcases List.mem_append.mp hname with hname | hname
            · exact (hfirst name hname).1
            · exact Nat.lt_of_le_of_lt hbase (habove name hname)

/-! ## Dead timers -/

/-- The handle is given out, and its timer is dead or gone. -/
structure Inert (x : ι) (name : Nat) (s : Service ι κ α) : Prop where
  indexed : ∀ y, (s.mgrs y).Indexed
  handedOut : name ≤ (s.mgrs x).m_idBase
  dead : ∀ t, (s.mgrs x).m_schedulers.lookup name = some t → t.alive = false

theorem inert_step {x : ι} {name : Nat} {s s' : Service ι κ α} {e : Event ι κ α}
    (h : Inert x name s) (hstep : s.step e = some s') : Inert x name s' where
  indexed := indexed_step h.indexed hstep
  handedOut := Nat.le_trans h.handedOut (idBase_le_step h.indexed hstep x)
  dead := (step_fate h.indexed hstep x h.handedOut).dead h.dead

omit [DecidableEq ι] in
theorem invoked_live {x : ι} {name : Nat} {s : Service ι κ α} {e : Event ι κ α}
    (h : ∀ y, (s.mgrs y).Indexed) (haction : action s e = some (.invoked x name)) :
    ∃ t, (s.mgrs x).m_schedulers.lookup name = some t ∧ t.alive = true := by
  cases e with
  | visit y id =>
      obtain ⟨i, hi, hinvoked⟩ := Option.map_eq_some_iff.mp haction
      cases hinvoked
      cases hlookup : (s.mgrs x).m_schedulers.lookup id with
      | none =>
          rw [visit_of_none hlookup] at hi
          exact absurd hi.symm (Option.some_ne_none i)
      | some t =>
          by_cases halive : t.alive = true
          · rw [visit_of_alive hlookup halive] at hi
            have hname := (updateTime_invoked_name hi).trans ((h x).name_eq id t hlookup)
            exact ⟨t, hname ▸ hlookup, halive⟩
          · rw [visit_of_dead hlookup (Bool.eq_false_iff.mpr halive)] at hi
            exact absurd hi.symm (Option.some_ne_none i)
  | register y callback intaval times delay target args =>
      obtain ⟨_, _, hregistered⟩ := Option.map_eq_some_iff.mp haction
      cases hregistered
  | unregister y id => cases haction
  | unregisterAllschedule y => cases haction
  | clock => cases haction
  | timeout y => cases haction
  | callbackReturn y => cases haction
  | endUpdate y => cases haction

theorem inert_silent {x : ι} {name : Nat} (es : List (Event ι κ α)) (s : Service ι κ α)
    (h : Inert x name s) : .invoked x name ∉ actions s es := by
  apply not_mem_outputs step action (Inert x name) _ (fun _ _ _ h hstep => inert_step h hstep)
  · intro u e u' hu _ haction
    obtain ⟨t, ht, halive⟩ := invoked_live hu.indexed haction
    rw [hu.dead t ht] at halive
    exact Bool.false_ne_true halive
  · exact h

/-- A cancellation leaves the timer dead or gone, on a running tick as well. -/
theorem inert_of_cancel {x : ι} {name : Nat} {s s' : Service ι κ α} {e : Event ι κ α}
    (h : ∀ y, (s.mgrs y).Indexed) (hname : name ≤ (s.mgrs x).m_idBase)
    (hstep : s.step e = some s') {a : Action ι} (haction : action s e = some a)
    (hcancels : Cancels x name a) : Inert x name s' := by
  refine ⟨indexed_step h hstep, Nat.le_trans hname (idBase_le_step h hstep x), ?_⟩
  cases steps_of_step hstep with
  | unregister y id _ =>
      cases Option.some.inj haction
      obtain ⟨rfl, rfl⟩ := hcancels
      intro t ht
      rw [setMgr_self, unregister_lookup] at ht
      obtain ⟨u, _, rfl⟩ := Option.map_eq_some_iff.mp ht
      rfl
  | unregisterAllschedule y _ =>
      cases Option.some.inj haction
      cases hcancels
      intro t ht
      rw [drive_mgrs, setMgr_self] at ht
      exact absurd (ht.symm.trans (AList.lookup_empty name)) (Option.some_ne_none t)
  | refused y _ hfailed =>
      rw [action, hfailed] at haction
      exact absurd haction.symm (Option.some_ne_none a)
  | register y _ _ =>
      obtain ⟨_, _, rfl⟩ := Option.map_eq_some_iff.mp haction
      exact hcancels.elim
  | visit y id _ _ =>
      obtain ⟨_, _, rfl⟩ := Option.map_eq_some_iff.mp haction
      exact hcancels.elim
  | clock => cases haction
  | timeout y _ _ _ => cases haction
  | callbackReturn y _ _ => cases haction
  | endUpdate y _ _ => cases haction

theorem registered_le {x : ι} {name : Nat} (es : List (Event ι κ α)) (s t : Service ι κ α)
    (h : ∀ y, (s.mgrs y).Indexed) (hrun : run step s es = some t)
    (hmem : .registered x name ∈ actions s es) : name ≤ (t.mgrs x).m_idBase := by
  obtain ⟨before, after, hsplit⟩ := List.append_of_mem hmem
  obtain ⟨pre, e, post, u, u', rfl, hpre, _, hout, hstep, _⟩ :=
    outputs_at step action es s before _ after hsplit
  have hu := run_invariant step (fun _ _ => True) (fun u : Service ι κ α => ∀ y, (u.mgrs y).Indexed)
    (fun _ _ _ h _ hstep => indexed_step h hstep) pre s u h (along_true step pre s) hpre
  rw [run_append, hpre, Option.bind_some, run, hstep, Option.bind_some] at hrun
  have hbase := (registered_step hu hstep hout).2
  have hlater := idBase_le_run x post u' t (indexed_step hu hstep) hrun
  omega

theorem unregister_untouched (s : Service ι κ α) (x : ι) (name : Nat) :
    Untouched s (s.setMgr x ((s.mgrs x).unregister name)) x name where
  others y id hne := by
    by_cases hy : y = x
    · subst hy
      rw [setMgr_self]
      exact unregister_lookup_ne _ fun hid => hne (by rw [hid])
    · rw [setMgr_of_ne s hy]
  own hdead := by
    rw [setMgr_self, unregister_lookup]
    cases hlookup : (s.mgrs x).m_schedulers.lookup name with
    | none => rfl
    | some t =>
        have halive := hdead t hlookup
        rw [Option.map_some, death, ← halive]
  running y := by
    by_cases hy : y = x
    · subst hy
      rw [running, setMgr_self, unregister_isRunTime]
      rfl
    · rw [running, setMgr_of_ne s hy]
      rfl
  clock := ⟨rfl, rfl, rfl⟩

omit [DecidableEq ι] in
theorem registerReturns_of_indexed {s : Service ι κ α} (h : ∀ y, (s.mgrs y).Indexed)
    (e : Event ι κ α) : RegisterReturns s e := by
  cases e with
  | register x callback intaval times delay target args =>
      intro hunit
      exact ⟨(s.mgrs x).m_idBase + 1, by rw [action, (h x).register, if_pos hunit, Option.map_some]⟩
  | _ => trivial

/-- On every manager of a service, in every run in which the callbacks may call the managers:
handles grow, a cancelled timer never shoots again, `unregister` changes no other timer, and
`register` returns in every state that is reached. -/
theorem cancellation_final (es : List (Event ι κ α)) :
    CancelledForGood (actions start es) ∧ Along step UnregisterHarmless start es ∧
      ∀ t, run step start es = some t → ∀ e, RegisterReturns t e := by
  have hstart : ∀ y, ((start : Service ι κ α).mgrs y).Indexed := fun _ => indexed_ctor
  refine ⟨⟨fun x => (handles_increasing x es start hstart).1, ?_⟩, ?_,
    fun t hrun e => registerReturns_of_indexed (indexed_run hrun) e⟩
  · intro x name before cancel after hlog hregistered hcancels
    obtain ⟨pre, e, post, t, t', _, hpre, rfl, hout, hstep, rfl⟩ :=
      outputs_at step action es start before cancel after hlog
    have hname := registered_le pre start t hstart hpre hregistered
    exact inert_silent post t' (inert_of_cancel (indexed_run hpre) hname hstep hout hcancels)
  · refine along_of_forall step es start fun e _ s => ?_
    cases e with
    | unregister x name =>
        intro s' hstep
        cases steps_of_step hstep with
        | unregister _ _ _ => exact unregister_untouched s x name
    | register y callback intaval times delay target args => trivial
    | unregisterAllschedule y => trivial
    | clock => trivial
    | timeout y => trivial
    | visit y id => trivial
    | callbackReturn y => trivial
    | endUpdate y => trivial

end Cancellation
end Doudizhu.Timer
