import Doudizhu.Utils.RedisClientsMgr
import Doudizhu.Lib.Runs

/-! # Histories of redis client managers

The metatable that the first ctor puts on `redisClientsMgr` answers for the keys that `class.lua`
looks up to find out where a chain of classes ends.  From then on the class has a `super`, which
is a function: `new` indexes it and raises, and `delete`, after the dtor has disconnected all
clients, goes on to the `__index` of the class, a function as well, and raises.  A command whose
name is a field of the object or of the class reaches that field instead of a service.  These are
the only ways a history departs from what a manager is for.

Which service a name of a manager stands for is read off the history: it is the one that the last
`addRedisClient` of the name has started, until a `delRedisClient` has disconnected it. -/

set_option autoImplicit false

namespace Doudizhu.RedisClients

open Lua Doudizhu.Class Runs
open UserService (RedisCall RedisClientsMgr rcmCall)

inductive Op (φ : Type) where
  | new
  | addRedisClient (m : Nat) (name : String) (cfg : Value φ)
  | command (m : Nat) (cmd name : String) (args : List (Value φ))
  | delRedisClient (m : Nat) (name : String)
  | delete (m : Nat)

section Histories
variable {φ : Type} (env : Env φ)

def perform : Op φ → Action (LuaState φ) (Result φ)
  | .new => newManager env
  | .addRedisClient m name cfg => callMethod env m "addRedisClient" name [cfg]
  | .command m cmd name args => callMethod env m cmd name args
  | .delRedisClient m name => callMethod env m "delRedisClient" name []
  | .delete m => deleteManager env m

/-- Methods are called on managers that have been created. -/
def Enabled (st : LuaState φ) : Op φ → Prop
  | .new => True
  | .addRedisClient m _ _ => m < st.managers.length
  | .command m _ _ _ => m < st.managers.length
  | .delRedisClient m _ => m < st.managers.length
  | .delete m => m < st.managers.length

instance (st : LuaState φ) : (op : Op φ) → Decidable (Enabled st op)
  | .new => inferInstanceAs (Decidable True)
  | .addRedisClient _ _ _ => inferInstanceAs (Decidable (_ < _))
  | .command _ _ _ _ => inferInstanceAs (Decidable (_ < _))
  | .delRedisClient _ _ => inferInstanceAs (Decidable (_ < _))
  | .delete _ => inferInstanceAs (Decidable (_ < _))

/-- `registry` tells which service a name of a manager stands for, by what has been called. -/
structure History (φ : Type) where
  lua : LuaState φ
  registry : Nat → String → Option Nat

def History.empty : History φ := ⟨.empty, fun _ _ => none⟩

def register (registry : Nat → String → Option Nat) (m : Nat) (name : String)
    (rc : Option Nat) : Nat → String → Option Nat :=
  Function.update registry m (Function.update (registry m) name rc)

def started (st st' : LuaState φ) : Option Nat :=
  ((st'.sent.drop st.sent.length).find? fun call => call.cmd = "start").map RedisCall.address

/-- The service that was started comes under its name, and one that says that it has disconnected
goes. -/
def registrations (h : History φ) (st' : LuaState φ) :
    Op φ → Result φ → Nat → String → Option Nat
  | .addRedisClient m name _, _ => register h.registry m name (started h.lua st')
  | .delRedisClient m name, .value result =>
      if truthy result then register h.registry m name none else h.registry
  | .delete m, _ => Function.update h.registry m fun _ => none
  | _, _ => h.registry

/-- The history after an operation, which has returned or raised. -/
def after (h : History φ) (op : Op φ) : History φ :=
  match perform env op h.lua with
  | .returned r st' => ⟨st', registrations h st' op r⟩
  | .raised st' => ⟨st', h.registry⟩
  | .outOfFuel => h

def step (h : History φ) (op : Op φ) : Option (History φ) :=
  if Enabled h.lua op then some (after env h op) else none

/-- What an operation that has returned has to have done. -/
def Serves (h : History φ) : Op φ → Result φ → LuaState φ → Prop
  | .new, r, st' => r = .object h.lua.managers.length ∧ st'.sent = h.lua.sent
  | .addRedisClient _ _ cfg, r, st' => ∃ rc, (∀ m name, h.registry m name ≠ some rc) ∧
      st'.sent = h.lua.sent ++ [⟨rc, "start", [cfg]⟩] ∧ r = .value (env.answer st'.sent)
  | .command m cmd name args, r, st' =>
      match h.registry m name with
      | some rc => st'.sent = h.lua.sent ++ [⟨rc, cmd, args⟩] ∧ r = .value (env.answer st'.sent)
      | none => st'.sent = h.lua.sent ∧ r = .value (.boolean false)
  | .delRedisClient m name, r, st' =>
      match h.registry m name with
      | some rc => st'.sent = h.lua.sent ++ [⟨rc, "disconnect", []⟩] ∧
          r = .value (env.answer st'.sent)
      | none => st'.sent = h.lua.sent ∧ r = .value (.boolean false)
  | .delete m, _, st' => ∀ name rc, h.registry m name = some rc →
      ⟨rc, "disconnect", []⟩ ∈ st'.sent.drop h.lua.sent.length

/-- The operation does not raise; a client that is added is a service of its own, which is told to
start; a command goes to the service registered in that manager and to no other, or is answered
with false; `delRedisClient` and `delete` disconnect. -/
def Conforms (h : History φ) (op : Op φ) : Prop :=
  ∃ r st', perform env op h.lua = .returned r st' ∧ Serves env h op r st'

def ownNames : List String :=
  ["m_map", "autoConstructSuper", "setDelegate", "ctor", "dtor", "addRedisClient",
    "delRedisClient"]

/-- The first `new` of the Lua state, no `delete`, and commands with names of their own; the
method `delRedisClient` answers like a command when there is no client. -/
def Admissible (h : History φ) : Op φ → Prop
  | .new => h.lua.managers = []
  | .command m cmd name _ =>
      cmd ∉ ownNames ∨ cmd = "delRedisClient" ∧ h.registry m name = none
  | .delete _ => False
  | _ => True

/-- No metatable before the first ctor, and one afterwards; objects have no fields but their
map. -/
structure Kept (st : LuaState φ) : Prop where
  before : st.managers = [] → st.catchAll = false ∧ st.made = []
  catchAll : st.managers ≠ [] → st.catchAll = true
  bare : ∀ (m : Nat) (mgr : Manager), st.managers[m]? = some mgr →
    mgr.m_delegate = none ∧ mgr.currentSuper = none

theorem kept_empty : Kept (LuaState.empty : LuaState φ) where
  before _ := ⟨rfl, rfl⟩
  catchAll h := absurd rfl h
  bare _ _ h := by simp [LuaState.empty] at h

def mapped (st : LuaState φ) (m : Nat) (name : String) : Option Nat :=
  (st.managers[m]?).bind fun mgr => mgr.m_map.lookup name

/-- The maps of the managers agree with the history, and later services have higher addresses. -/
structure Tracked (h : History φ) : Prop where
  kept : Kept h.lua
  agrees : ∀ m name, mapped h.lua m name = h.registry m name
  bounded : ∀ m name rc, h.registry m name = some rc → rc ≤ h.lua.services

theorem tracked_empty : Tracked (History.empty : History φ) :=
  ⟨kept_empty, fun _ _ => rfl, nofun⟩

/-! ## Looking a method up -/

theorem declared_eq_none {cmd : String} (h : cmd ∉ ownNames) : declared cmd = none := by
  simp only [ownNames, List.mem_cons, not_or] at h
  simp [declared, h]

def fieldOf (key : String) : Field := (declared key).getD (.command key)

theorem indexClass_catchAll {st : LuaState φ} (h : st.catchAll = true) (key : String) :
    ∃ made, indexClass key st = .returned (some (fieldOf key)) { st with made := made } := by
  unfold indexClass fieldOf
  cases declared key with
  | some f => exact ⟨st.made, rfl⟩
  | none =>
      by_cases hmade : key ∈ st.made
      · exact ⟨st.made, by simp [hmade]⟩
      · exact ⟨key :: st.made, by simp [hmade, h]⟩

theorem callMethod_eq {st : LuaState φ} (hkept : Kept st) {m : Nat} {mgr : Manager}
    (hmgr : st.managers[m]? = some mgr) {key : String} (hkey : key ≠ "m_map") (name : String)
    (args : List (Value φ)) :
    ∃ made, callMethod env m key name args st =
      callField env m name args (fieldOf key) { st with made := made } := by
  have hne : st.managers ≠ [] := by
    intro hnil
    rw [hnil] at hmgr
    cases hmgr
  obtain ⟨made, hindex⟩ := indexClass_catchAll (hkept.catchAll hne) key
  obtain ⟨hdelegate, hsuper⟩ := hkept.bare m mgr hmgr
  have hobject : indexObject m key st =
      .returned (some (.field (fieldOf key))) { st with made := made } := by
    simp only [indexObject, hmgr, hdelegate, hsuper, Option.isSome_none, Bool.false_eq_true,
      and_false, if_false, if_neg hkey]
    rw [Action.bind_returned hindex]
    rfl
  refine ⟨made, ?_⟩
  rw [callMethod, Action.bind_returned hobject]

/-! ## The methods one by one -/

theorem mapped_of {st : LuaState φ} {m : Nat} {mgr : Manager}
    (hmgr : st.managers[m]? = some mgr) (name : String) :
    mapped st m name = mgr.m_map.lookup name := by
  rw [mapped, hmgr, Option.bind_some]

theorem Tracked.lookup {h : History φ} (htracked : Tracked h) {m : Nat} {mgr : Manager}
    (hmgr : h.lua.managers[m]? = some mgr) (name : String) :
    h.registry m name = mgr.m_map.lookup name :=
  (htracked.agrees m name).symm.trans (mapped_of hmgr name)

theorem manager_of {st : LuaState φ} {m : Nat} {mgr : Manager}
    (hmgr : st.managers[m]? = some mgr) : manager m st = .returned mgr st := by
  rw [manager, hmgr]

theorem command_eq {st : LuaState φ} {m : Nat} {mgr : Manager}
    (hmgr : st.managers[m]? = some mgr) (cmd name : String) (args : List (Value φ)) :
    command env m cmd name args st =
      match mgr.m_map.lookup name with
      | some rc => skynetCall env rc cmd args st
      | none => .returned (.boolean false) st := by
  rw [command, Action.bind_returned (manager_of hmgr)]
  cases mgr.m_map.lookup name <;> rfl

theorem delRedisClient_none {st : LuaState φ} {m : Nat} {mgr : Manager}
    (hmgr : st.managers[m]? = some mgr) {name : String} (hname : mgr.m_map.lookup name = none) :
    delRedisClient env m name st = .returned (.boolean false) st := by
  rw [delRedisClient, Action.bind_returned (manager_of hmgr), hname]
  rfl

def forgetting (result : Value φ) (name : String) (mgr : Manager) : Manager :=
  if truthy result then { mgr with m_map := mgr.m_map.erase name } else mgr

theorem delRedisClient_some {st : LuaState φ} {m : Nat} {mgr : Manager}
    (hmgr : st.managers[m]? = some mgr) {name : String} {rc : Nat}
    (hname : mgr.m_map.lookup name = some rc) :
    delRedisClient env m name st = .returned (env.answer (st.sent ++ [⟨rc, "disconnect", []⟩]))
      { st with
        sent := st.sent ++ [⟨rc, "disconnect", []⟩]
        managers := st.managers.modify m
          (forgetting (env.answer (st.sent ++ [⟨rc, "disconnect", []⟩])) name) } := by
  rw [delRedisClient, Action.bind_returned (manager_of hmgr), hname]
  let sent := st.sent ++ [⟨rc, "disconnect", []⟩]
  change (if truthy (env.answer sent) then _ else _ : Action _ _) _ = _
  by_cases hresult : truthy (env.answer sent) = true
  · have hforget : forgetting (env.answer sent) name =
        fun mgr => { mgr with m_map := mgr.m_map.erase name } := by
      funext mgr
      rw [forgetting, if_pos hresult]
    rw [if_pos hresult, hforget]
    rfl
  · have hforget : forgetting (env.answer sent) name = id := by
      funext mgr
      rw [forgetting, if_neg hresult]
      rfl
    rw [if_neg hresult, hforget, List.modify_id]
    rfl

theorem delRedisClient_keeps {st : LuaState φ} {m : Nat} {mgr : Manager}
    (hmgr : st.managers[m]? = some mgr) (name : String) :
    ∃ r st' mgr' calls, delRedisClient env m name st = .returned r st' ∧
      st'.managers[m]? = some mgr' ∧ st'.catchAll = st.catchAll ∧
      st'.sent = st.sent ++ calls ∧
      (∀ other, other ≠ name → mgr'.m_map.lookup other = mgr.m_map.lookup other) ∧
      ∀ rc, mgr.m_map.lookup name = some rc → ⟨rc, "disconnect", []⟩ ∈ calls := by
  cases hname : mgr.m_map.lookup name with
  | none =>
      refine ⟨_, st, mgr, [], delRedisClient_none env hmgr hname, hmgr, rfl,
        (List.append_nil _).symm, fun _ _ => rfl, ?_⟩
      intro rc hrc
      cases hrc
  | some rc =>
      let result := env.answer (st.sent ++ [⟨rc, "disconnect", []⟩])
      refine ⟨result, _, forgetting result name mgr, [⟨rc, "disconnect", []⟩],
        delRedisClient_some env hmgr hname, ?_, rfl, rfl, ?_, ?_⟩
      · simp [hmgr, result]
      · intro other hother
        unfold forgetting
        split
        · exact AList.lookup_erase_ne hother
        · rfl
      · intro rc' hrc'
        cases hrc'
        exact List.mem_singleton_self _

/-- The loop of the dtor: the registration of a name is still there when its turn comes. -/
theorem delAll_disconnects : ∀ (names : List String) (st : LuaState φ) (m : Nat) (mgr : Manager),
    names.Nodup → st.managers[m]? = some mgr →
      ∃ st' calls, delAll env m names st = .returned () st' ∧ st'.catchAll = st.catchAll ∧
        st'.sent = st.sent ++ calls ∧
        ∀ name ∈ names, ∀ rc, mgr.m_map.lookup name = some rc →
          ⟨rc, "disconnect", []⟩ ∈ calls := by
  intro names
  induction names with
  | nil =>
      intro st m mgr _ _
      exact ⟨st, [], rfl, rfl, (List.append_nil _).symm, fun name h => absurd h (by simp)⟩
  | cons name names ih =>
      intro st m mgr hnodup hmgr
      rw [List.nodup_cons] at hnodup
      obtain ⟨r, st₁, mgr₁, first, hfirst, hmgr₁, hcatch₁, hsent₁, hothers, hname⟩ :=
        delRedisClient_keeps env hmgr name
      obtain ⟨st₂, rest, hrest, hcatch₂, hsent₂, hnames⟩ := ih st₁ m mgr₁ hnodup.2 hmgr₁
      refine ⟨st₂, first ++ rest, ?_, hcatch₂.trans hcatch₁, ?_, ?_⟩
      · rw [delAll, Action.bind_returned hfirst, hrest]
      · rw [hsent₂, hsent₁, List.append_assoc]
      · intro other hother rc hrc
        rcases List.mem_cons.mp hother with rfl | hother
        · exact List.mem_append_left _ (hname rc hrc)
        · have hne : other ≠ name := fun heq => hnodup.1 (heq ▸ hother)
          rw [← hothers other hne] at hrc
          exact List.mem_append_right _ (hnames other hother rc hrc)

/-- `delete` disconnects all clients of its manager and raises. -/
theorem deleteManager_raises {st : LuaState φ} (hkept : Kept st) {m : Nat} {mgr : Manager}
    (hmgr : st.managers[m]? = some mgr) :
    ∃ st' calls, deleteManager env m st = .raised st' ∧ st'.sent = st.sent ++ calls ∧
      ∀ name rc, mapped st m name = some rc → ⟨rc, "disconnect", []⟩ ∈ calls := by
  have hne : st.managers ≠ [] := by
    intro hnil
    rw [hnil] at hmgr
    cases hmgr
  obtain ⟨st', calls, hall, hcatch, hsent, hcalls⟩ := delAll_disconnects env
    (env.pairs mgr.m_map.keys) st m mgr ((env.perm _).nodup_iff.mpr mgr.m_map.nodupKeys) hmgr
  rw [hkept.catchAll hne] at hcatch
  refine ⟨st', calls, ?_, hsent, ?_⟩
  · have hobject : runDtor (tables env m) (.object m) st = .returned () st := rfl
    have hclass : (tables env m).index (.object m) st = .returned (some .redisClientsMgr) st := rfl
    have hdtor : runDtor (tables env m) .redisClientsMgr st = .returned () st' := by
      change dtor env m st = _
      rw [dtor, Action.bind_returned (manager_of hmgr), hall]
    have hindex : (tables env m).index .redisClientsMgr st' = .returned (some .function) st' := by
      simp [tables, hcatch]
    have hfunction : runDtor (tables env m) .function st' = .raised st' := rfl
    have hdelete : delete (tables env m) classFuel (.object m) st = .raised st' := by
      rw [delete, classFuel, destory, Action.bind_returned hobject, Action.bind_returned hclass,
        destory, Action.bind_returned hdtor, Action.bind_returned hindex, destory,
        Action.bind_raised hfunction]
    rw [deleteManager, Action.bind_raised hdelete]
  · intro name rc hrc
    rw [mapped_of hmgr] at hrc
    refine hcalls name ((env.perm _).mem_iff.mpr ?_) rc hrc
    exact AList.mem_keys.mp (AList.lookup_isSome.mp (by rw [hrc]; rfl))

theorem newManager_first {st : LuaState φ} (hkept : Kept st) (hfirst : st.managers = []) :
    newManager env st = .returned (.object 0)
      { st with managers := [⟨∅, none, none⟩], catchAll := true } := by
  obtain ⟨hcatch, hmade⟩ := hkept.before hfirst
  cases st with
  | mk made catchAll managers services sent =>
      cases hfirst
      cases hcatch
      cases hmade
      rfl

/-- From the second `new` on, the class has a super, which is a function. -/
theorem newManager_again {st : LuaState φ} (hcatch : st.catchAll = true) :
    ∃ st', newManager env st = .raised st' := by
  let m := st.managers.length
  have hsuper : ∀ st : LuaState φ, st.catchAll = true → ∃ made,
      (tables env m).super .redisClientsMgr st =
        .returned (some .function) { st with made := made } := by
    intro st h
    obtain ⟨made, hindex⟩ := indexClass_catchAll h "super"
    refine ⟨made, ?_⟩
    change (indexClass "super" >>= _) st = _
    rw [Action.bind_returned hindex]
    rfl
  have hauto : ∀ st : LuaState φ, (tables env m).autoConstructSuper .redisClientsMgr st =
      .returned true st := fun _ => rfl
  let st₀ : LuaState φ := { st with managers := st.managers ++ [⟨∅, none, none⟩] }
  obtain ⟨made₁, hsuper₁⟩ := hsuper st₀ hcatch
  obtain ⟨made₂, hsuper₂⟩ := hsuper { st₀ with made := made₁ } hcatch
  have hfunction : ∀ st : LuaState φ,
      create (tables env m) 3 (some .function) () st = .raised st := fun _ => rfl
  have hconstruct : constructSuper (tables env m) (create (tables env m) 3) .redisClientsMgr ()
      st₀ = .raised { st₀ with made := made₂ } := by
    rw [constructSuper, Action.bind_returned hsuper₁]
    change ((tables env m).autoConstructSuper .redisClientsMgr >>= _) _ = _
    rw [Action.bind_returned (hauto _)]
    change ((tables env m).super .redisClientsMgr >>= _) _ = _
    rw [Action.bind_returned hsuper₂]
    exact hfunction _
  refine ⟨{ st₀ with made := made₂ }, ?_⟩
  change (new (tables env m) classFuel .redisClientsMgr () >>= _) st₀ = _
  refine Action.bind_raised ?_ _
  rw [new]
  refine Action.bind_raised ?_ _
  rw [classFuel, create, Action.bind_raised hconstruct]

/-! ## Which operations conform -/

theorem conforms_new_iff {h : History φ} (hkept : Kept h.lua) :
    Conforms env h .new ↔ h.lua.managers = [] := by
  constructor
  · rintro ⟨r, st', hrun, _⟩
    by_contra hmore
    obtain ⟨st'', hraised⟩ := newManager_again env (hkept.catchAll hmore)
    rw [perform, hraised] at hrun
    cases hrun
  · intro hfirst
    refine ⟨_, _, newManager_first env hkept hfirst, ?_, rfl⟩
    rw [hfirst]
    rfl

theorem not_conforms_delete {h : History φ} (hkept : Kept h.lua) {m : Nat} {mgr : Manager}
    (hmgr : h.lua.managers[m]? = some mgr) : ¬ Conforms env h (.delete m) := by
  rintro ⟨r, st', hrun, _⟩
  obtain ⟨st'', calls, hraised, _⟩ := deleteManager_raises env hkept hmgr
  rw [perform, hraised] at hrun
  cases hrun

theorem perform_addRedisClient {st : LuaState φ} (hkept : Kept st) {m : Nat} {mgr : Manager}
    (hmgr : st.managers[m]? = some mgr) (name : String) (cfg : Value φ) :
    ∃ made, perform env (.addRedisClient m name cfg) st = .returned
        (.value (env.answer (st.sent ++ [⟨st.services + 1, "start", [cfg]⟩])))
        { st with
          made := made
          services := st.services + 1
          sent := st.sent ++ [⟨st.services + 1, "start", [cfg]⟩]
          managers := st.managers.modify m fun mgr =>
            { mgr with m_map := mgr.m_map.insert name (st.services + 1) } } := by
  obtain ⟨made, hcall⟩ :=
    callMethod_eq env hkept hmgr (by decide : "addRedisClient" ≠ "m_map") name [cfg]
  exact ⟨made, hcall⟩

theorem Tracked.fresh {h : History φ} (htracked : Tracked h) (m : Nat) (name : String) :
    h.registry m name ≠ some (h.lua.services + 1) := by
  intro hrc
  have hbound := htracked.bounded m name _ hrc
  omega

theorem conforms_addRedisClient {h : History φ} (htracked : Tracked h) {m : Nat} {mgr : Manager}
    (hmgr : h.lua.managers[m]? = some mgr) (name : String) (cfg : Value φ) :
    Conforms env h (.addRedisClient m name cfg) := by
  obtain ⟨made, hrun⟩ := perform_addRedisClient env htracked.kept hmgr name cfg
  exact ⟨_, _, hrun, h.lua.services + 1, htracked.fresh, rfl, rfl⟩

/-- What a call of the method leaves, under its own name or as a command. -/
theorem callMethod_delRedisClient {st : LuaState φ} (hkept : Kept st) {m : Nat} {mgr : Manager}
    (hmgr : st.managers[m]? = some mgr) (name : String) (args : List (Value φ)) :
    ∃ made, callMethod env m "delRedisClient" name args st =
      (delRedisClient env m name >>= fun result => pure (Result.value result))
        { st with made := made } :=
  callMethod_eq env hkept hmgr (by decide : "delRedisClient" ≠ "m_map") name args

theorem perform_delRedisClient_none {st : LuaState φ} (hkept : Kept st) {m : Nat} {mgr : Manager}
    (hmgr : st.managers[m]? = some mgr) {name : String} (hname : mgr.m_map.lookup name = none)
    (args : List (Value φ)) :
    ∃ made, callMethod env m "delRedisClient" name args st =
      .returned (.value (.boolean false)) { st with made := made } := by
  obtain ⟨made, hcall⟩ := callMethod_delRedisClient env hkept hmgr name args
  have hmgr' : ({ st with made := made } : LuaState φ).managers[m]? = some mgr := hmgr
  refine ⟨made, hcall.trans ?_⟩
  rw [Action.bind_returned (delRedisClient_none env hmgr' hname)]
  rfl

theorem perform_delRedisClient_some {st : LuaState φ} (hkept : Kept st) {m : Nat} {mgr : Manager}
    (hmgr : st.managers[m]? = some mgr) {name : String} {rc : Nat}
    (hname : mgr.m_map.lookup name = some rc) (args : List (Value φ)) :
    ∃ made, callMethod env m "delRedisClient" name args st = .returned
        (.value (env.answer (st.sent ++ [⟨rc, "disconnect", []⟩])))
        { st with
          made := made
          sent := st.sent ++ [⟨rc, "disconnect", []⟩]
          managers := st.managers.modify m
            (forgetting (env.answer (st.sent ++ [⟨rc, "disconnect", []⟩])) name) } := by
  obtain ⟨made, hcall⟩ := callMethod_delRedisClient env hkept hmgr name args
  have hmgr' : ({ st with made := made } : LuaState φ).managers[m]? = some mgr := hmgr
  refine ⟨made, hcall.trans ?_⟩
  rw [Action.bind_returned (delRedisClient_some env hmgr' hname)]
  rfl

theorem conforms_delRedisClient {h : History φ} (htracked : Tracked h) {m : Nat} {mgr : Manager}
    (hmgr : h.lua.managers[m]? = some mgr) (name : String) :
    Conforms env h (.delRedisClient m name) := by
  have hlookup := htracked.lookup hmgr name
  cases hname : mgr.m_map.lookup name with
  | none =>
      obtain ⟨made, hrun⟩ := perform_delRedisClient_none env htracked.kept hmgr hname []
      refine ⟨_, _, hrun, ?_⟩
      rw [Serves, hlookup, hname]
      exact ⟨rfl, rfl⟩
  | some rc =>
      obtain ⟨made, hrun⟩ := perform_delRedisClient_some env htracked.kept hmgr hname []
      refine ⟨_, _, hrun, ?_⟩
      rw [Serves, hlookup, hname]
      exact ⟨rfl, rfl⟩

/-- A name that is nobody's own goes through the metatable to the registered service. -/
theorem command_serves {st : LuaState φ} (hkept : Kept st) {m : Nat} {mgr : Manager}
    (hmgr : st.managers[m]? = some mgr) {cmd : String} (hcmd : cmd ∉ ownNames) (name : String)
    (args : List (Value φ)) :
    ∃ made v calls, callMethod env m cmd name args st = .returned (.value v)
        { st with made := made, sent := st.sent ++ calls } ∧
      match mgr.m_map.lookup name with
      | some rc => calls = [⟨rc, cmd, args⟩] ∧ v = env.answer (st.sent ++ calls)
      | none => calls = [] ∧ v = .boolean false := by
  have hmap : cmd ≠ "m_map" := fun heq => hcmd (by simp [ownNames, heq])
  obtain ⟨made, hcall⟩ := callMethod_eq env hkept hmgr hmap name args
  have hfield : fieldOf cmd = .command cmd := by
    rw [fieldOf, declared_eq_none hcmd]
    rfl
  have hmgr' : ({ st with made := made } : LuaState φ).managers[m]? = some mgr := hmgr
  have hcommand := command_eq env hmgr' cmd name args
  rw [hcall, hfield]
  cases hname : mgr.m_map.lookup name with
  | none =>
      rw [hname] at hcommand
      refine ⟨made, .boolean false, [], ?_, rfl, rfl⟩
      rw [callField, Action.bind_returned hcommand, List.append_nil]
      rfl
  | some rc =>
      rw [hname] at hcommand
      refine ⟨made, _, [⟨rc, cmd, args⟩], ?_, rfl, rfl⟩
      rw [callField, Action.bind_returned hcommand]
      rfl

theorem not_conforms_of_nothing {h : History φ} {m : Nat} {cmd name : String}
    {args : List (Value φ)}
    (hnothing : ∀ r st', callMethod env m cmd name args h.lua = .returned r st' → r = .nothing) :
    ¬ Conforms env h (.command m cmd name args) := by
  rintro ⟨r, st', hrun, hserves⟩
  rw [Serves, hnothing r st' hrun] at hserves
  split at hserves <;> cases hserves.2

theorem not_conforms_addRedisClient {h : History φ} (hkept : Kept h.lua) {m : Nat} {mgr : Manager}
    (hmgr : h.lua.managers[m]? = some mgr) (name : String) (args : List (Value φ)) :
    ¬ Conforms env h (.command m "addRedisClient" name args) := by
  obtain ⟨made, hcall⟩ :=
    callMethod_eq env hkept hmgr (by decide : "addRedisClient" ≠ "m_map") name args
  rintro ⟨r, st', hrun, hserves⟩
  rw [perform, hcall] at hrun
  cases hrun
  rw [Serves] at hserves
  split at hserves
  · have hcalls := List.append_cancel_left hserves.1
    exact absurd (congrArg RedisCall.cmd (List.cons.inj hcalls).1)
      (by decide : "start" ≠ "addRedisClient")
  · exact absurd hserves.1 (by simp)

/-- Without a client the method returns false, as a command does; a client is disconnected. -/
theorem conforms_delRedisClient_iff {h : History φ} (htracked : Tracked h) {m : Nat}
    {mgr : Manager} (hmgr : h.lua.managers[m]? = some mgr) (name : String)
    (args : List (Value φ)) :
    Conforms env h (.command m "delRedisClient" name args) ↔ h.registry m name = none := by
  have hlookup := htracked.lookup hmgr name
  cases hname : mgr.m_map.lookup name with
  | none =>
      obtain ⟨made, hrun⟩ := perform_delRedisClient_none env htracked.kept hmgr hname args
      refine iff_of_true ⟨_, _, hrun, ?_⟩ (hlookup.trans hname)
      rw [Serves, hlookup, hname]
      exact ⟨rfl, rfl⟩
  | some rc =>
      obtain ⟨made, hdel⟩ := perform_delRedisClient_some env htracked.kept hmgr hname args
      refine iff_of_false ?_ fun hnone => ?_
      · rintro ⟨r, st', hrun, hserves⟩
        cases hdel.symm.trans hrun
        rw [Serves, hlookup, hname] at hserves
        have hcalls := List.append_cancel_left hserves.1
        exact absurd (congrArg RedisCall.cmd (List.cons.inj hcalls).1)
          (by decide : "disconnect" ≠ "delRedisClient")
      · rw [hlookup, hname] at hnone
        cases hnone

/-- An own name either is no function, or returns nothing, or is one of the two methods. -/
theorem conforms_ownName_iff {h : History φ} (htracked : Tracked h) {m : Nat} {mgr : Manager}
    (hmgr : h.lua.managers[m]? = some mgr) {cmd : String} (hcmd : cmd ∈ ownNames) (name : String)
    (args : List (Value φ)) :
    Conforms env h (.command m cmd name args) ↔
      cmd = "delRedisClient" ∧ h.registry m name = none := by
  have hkept := htracked.kept
  have hcall : cmd ≠ "m_map" → _ := fun hmap => callMethod_eq env hkept hmgr hmap name args
  simp only [ownNames, List.mem_cons, List.not_mem_nil, or_false] at hcmd
  rcases hcmd with rfl | rfl | rfl | rfl | rfl | rfl | rfl
  · refine iff_of_false ?_ fun h => absurd h.1 (by decide)
    rintro ⟨r, st', hrun, _⟩
    have hobject : indexObject m "m_map" h.lua = .returned (some .value) h.lua := by
      simp [indexObject, hmgr]
    rw [perform, callMethod, Action.bind_returned hobject] at hrun
    cases hrun
  · refine iff_of_false ?_ fun h => absurd h.1 (by decide)
    obtain ⟨made, hcall⟩ := hcall (by decide)
    rintro ⟨r, st', hrun, _⟩
    rw [perform, hcall] at hrun
    cases hrun
  · refine iff_of_false (not_conforms_of_nothing env fun r st' hrun => ?_)
      fun h => absurd h.1 (by decide)
    obtain ⟨made, hcall⟩ := hcall (by decide)
    rw [hcall] at hrun
    cases hrun
    rfl
  · refine iff_of_false (not_conforms_of_nothing env fun r st' hrun => ?_)
      fun h => absurd h.1 (by decide)
    obtain ⟨made, hcall⟩ := hcall (by decide)
    rw [hcall] at hrun
    cases hrun
    rfl
  · refine iff_of_false (not_conforms_of_nothing env fun r st' hrun => ?_)
      fun h => absurd h.1 (by decide)
    obtain ⟨made, hcall⟩ := hcall (by decide)
    rw [hcall] at hrun
    obtain ⟨_, _, _, hnothing⟩ := Action.bind_eq_returned.mp hrun
    cases hnothing
    rfl
  · exact iff_of_false (not_conforms_addRedisClient env hkept hmgr name args)
      fun h => absurd h.1 (by decide)
  · rw [conforms_delRedisClient_iff env htracked hmgr]
    exact (and_iff_right rfl).symm

theorem conforms_command_iff {h : History φ} (htracked : Tracked h) {m : Nat} {mgr : Manager}
    (hmgr : h.lua.managers[m]? = some mgr) (cmd name : String) (args : List (Value φ)) :
    Conforms env h (.command m cmd name args) ↔
      cmd ∉ ownNames ∨ cmd = "delRedisClient" ∧ h.registry m name = none := by
  by_cases hcmd : cmd ∈ ownNames
  · rw [conforms_ownName_iff env htracked hmgr hcmd]
    simp [hcmd]
  · refine iff_of_true ?_ (.inl hcmd)
    obtain ⟨made, v, calls, hcall, hserves⟩ :=
      command_serves env htracked.kept hmgr hcmd name args
    refine ⟨_, _, hcall, ?_⟩
    rw [Serves, htracked.lookup hmgr]
    cases hname : mgr.m_map.lookup name with
    | none =>
        rw [hname] at hserves
        obtain ⟨rfl, rfl⟩ := hserves
        exact ⟨List.append_nil _, rfl⟩
    | some rc =>
        rw [hname] at hserves
        obtain ⟨rfl, rfl⟩ := hserves
        exact ⟨rfl, rfl⟩

theorem exists_manager {st : LuaState φ} {m : Nat} (h : m < st.managers.length) :
    ∃ mgr, st.managers[m]? = some mgr :=
  ⟨st.managers[m], List.getElem?_eq_getElem h⟩

theorem conforms_iff_admissible {h : History φ} (htracked : Tracked h) {op : Op φ}
    (henabled : Enabled h.lua op) : Conforms env h op ↔ Admissible h op := by
  cases op with
  | new => exact conforms_new_iff env htracked.kept
  | addRedisClient m name cfg =>
      obtain ⟨mgr, hmgr⟩ := exists_manager henabled
      exact iff_of_true (conforms_addRedisClient env htracked hmgr name cfg) trivial
  | command m cmd name args =>
      obtain ⟨mgr, hmgr⟩ := exists_manager henabled
      exact conforms_command_iff env htracked hmgr cmd name args
  | delRedisClient m name =>
      obtain ⟨mgr, hmgr⟩ := exists_manager henabled
      exact iff_of_true (conforms_delRedisClient env htracked hmgr name) trivial
  | delete m =>
      obtain ⟨mgr, hmgr⟩ := exists_manager henabled
      exact iff_of_false (not_conforms_delete env htracked.kept hmgr) id

/-! ## What admissible operations leave -/

theorem after_of_returned {h : History φ} {op : Op φ} {r : Result φ} {st' : LuaState φ}
    (hrun : perform env op h.lua = .returned r st') :
    after env h op = ⟨st', registrations h st' op r⟩ := by
  rw [after, hrun]

/-- Operations on the map of a manager, on the log and on the stored methods. -/
theorem Kept.modify {st st' : LuaState φ} (h : Kept st) (hne : st.managers ≠ [])
    (hcatch : st'.catchAll = st.catchAll) (m : Nat) (f : Manager → Manager)
    (hf : ∀ mgr, (f mgr).m_delegate = mgr.m_delegate ∧ (f mgr).currentSuper = mgr.currentSuper)
    (hmanagers : st'.managers = st.managers.modify m f) : Kept st' where
  before hnil := by
    have hlen := congrArg List.length hmanagers
    rw [hnil, List.length_modify] at hlen
    exact absurd (List.eq_nil_of_length_eq_zero hlen.symm) hne
  catchAll _ := hcatch.trans (h.catchAll hne)
  bare i mgr hmgr := by
    rw [hmanagers, List.getElem?_modify] at hmgr
    obtain ⟨old, hold, rfl⟩ := Option.map_eq_some_iff.mp hmgr
    obtain ⟨hdelegate, hsuper⟩ := h.bare i old hold
    split_ifs
    · exact ⟨(hf old).1.trans hdelegate, (hf old).2.trans hsuper⟩
    · exact ⟨hdelegate, hsuper⟩

theorem Kept.same {st st' : LuaState φ} (h : Kept st) (hne : st.managers ≠ [])
    (hcatch : st'.catchAll = st.catchAll) (hmanagers : st'.managers = st.managers) : Kept st' :=
  h.modify hne hcatch 0 id (fun _ => ⟨rfl, rfl⟩) (by rw [hmanagers, List.modify_id])

theorem Tracked.same {h : History φ} (htracked : Tracked h) (hne : h.lua.managers ≠ [])
    {st' : LuaState φ} (hcatch : st'.catchAll = h.lua.catchAll)
    (hmanagers : st'.managers = h.lua.managers) (hservices : st'.services = h.lua.services) :
    Tracked ⟨st', h.registry⟩ where
  kept := htracked.kept.same hne hcatch hmanagers
  agrees m name := by
    rw [← htracked.agrees m name]
    unfold mapped
    rw [hmanagers]
  bounded m name rc hrc := by
    rw [hservices]
    exact htracked.bounded m name rc hrc

theorem register_self (registry : Nat → String → Option Nat) (m : Nat) (name : String)
    (rc : Option Nat) : register registry m name rc m name = rc := by
  rw [register, Function.update_self, Function.update_self]

theorem register_other (registry : Nat → String → Option Nat) {m i : Nat} {name key : String}
    (rc : Option Nat) (hne : ¬ (i = m ∧ key = name)) :
    register registry m name rc i key = registry i key := by
  unfold register
  by_cases hi : i = m
  · subst hi
    rw [Function.update_self, Function.update_of_ne fun hkey => hne ⟨rfl, hkey⟩]
  · rw [Function.update_of_ne hi]

/-- The entry of one name of one manager is changed, in its map and in the registry. -/
theorem Tracked.registered {h : History φ} (htracked : Tracked h) {m : Nat} {mgr : Manager}
    (hmgr : h.lua.managers[m]? = some mgr) {st' : LuaState φ}
    (hcatch : st'.catchAll = h.lua.catchAll) (f : Manager → Manager)
    (hf : ∀ mgr, (f mgr).m_delegate = mgr.m_delegate ∧ (f mgr).currentSuper = mgr.currentSuper)
    (hmanagers : st'.managers = h.lua.managers.modify m f) {name : String} {entry : Option Nat}
    (hself : (f mgr).m_map.lookup name = entry)
    (hothers : ∀ key, key ≠ name → (f mgr).m_map.lookup key = mgr.m_map.lookup key)
    (hservices : h.lua.services ≤ st'.services) (hentry : ∀ rc ∈ entry, rc ≤ st'.services) :
    Tracked ⟨st', register h.registry m name entry⟩ where
  kept := htracked.kept.modify (fun hnil => by rw [hnil] at hmgr; cases hmgr) hcatch m f hf
    hmanagers
  agrees i key := by
    have hmapped : mapped st' i key =
        (h.lua.managers[i]?).bind fun mgr => (if m = i then f mgr else mgr).m_map.lookup key := by
      rw [mapped, hmanagers, List.getElem?_modify]
      exact Option.bind_map
    change mapped st' i key = register h.registry m name entry i key
    rw [hmapped]
    by_cases hi : i = m
    · subst hi
      rw [hmgr, Option.bind_some, if_pos rfl]
      by_cases hkey : key = name
      · rw [hkey, hself, register_self]
      · rw [hothers key hkey, register_other _ _ fun hand => hkey hand.2, htracked.lookup hmgr]
    · rw [register_other _ _ fun hand => hi hand.1, ← htracked.agrees i key, mapped]
      simp only [if_neg (Ne.symm hi)]
  bounded i key rc hrc := by
    by_cases hentryOf : i = m ∧ key = name
    · obtain ⟨rfl, rfl⟩ := hentryOf
      exact hentry rc (Option.mem_def.mpr ((register_self _ _ _ _).symm.trans hrc))
    · have hold := htracked.bounded i key rc ((register_other _ _ hentryOf).symm.trans hrc)
      exact Nat.le_trans hold hservices

theorem forgetting_bare (result : Value φ) (name : String) (mgr : Manager) :
    (forgetting result name mgr).m_delegate = mgr.m_delegate ∧
      (forgetting result name mgr).currentSuper = mgr.currentSuper := by
  unfold forgetting
  split <;> exact ⟨rfl, rfl⟩

/-- The service that `addRedisClient` starts is the one that it registers. -/
theorem tracked_addRedisClient {h : History φ} (htracked : Tracked h) {m : Nat} {mgr : Manager}
    (hmgr : h.lua.managers[m]? = some mgr) (name : String) (cfg : Value φ) :
    Tracked (after env h (.addRedisClient m name cfg)) := by
  obtain ⟨made, hrun⟩ := perform_addRedisClient env htracked.kept hmgr name cfg
  rw [after_of_returned env hrun]
  let added (mgr : Manager) : Manager :=
    { mgr with m_map := mgr.m_map.insert name (h.lua.services + 1) }
  refine htracked.registered hmgr ?_ added (fun _ => ⟨rfl, rfl⟩) ?_ ?_ ?_ ?_ ?_
  · rfl
  · rfl
  · change (mgr.m_map.insert name (h.lua.services + 1)).lookup name = _
    rw [AList.lookup_insert]
    simp [started]
  · exact fun key hkey => AList.lookup_insert_ne hkey
  · exact Nat.le_succ _
  · simp [started]

theorem tracked_delRedisClient {h : History φ} (htracked : Tracked h) {m : Nat} {mgr : Manager}
    (hmgr : h.lua.managers[m]? = some mgr) (hne : h.lua.managers ≠ []) (name : String) :
    Tracked (after env h (.delRedisClient m name)) := by
  cases hname : mgr.m_map.lookup name with
  | none =>
      obtain ⟨made, hcall⟩ := perform_delRedisClient_none env htracked.kept hmgr hname []
      have hrun : perform env (.delRedisClient m name) h.lua = _ := hcall
      rw [after_of_returned env hrun]
      exact htracked.same hne rfl rfl rfl
  | some rc =>
      obtain ⟨made, hcall⟩ := perform_delRedisClient_some env htracked.kept hmgr hname []
      have hrun : perform env (.delRedisClient m name) h.lua = _ := hcall
      rw [after_of_returned env hrun]
      let result := env.answer (h.lua.sent ++ [⟨rc, "disconnect", []⟩])
      by_cases hresult : truthy result = true
      · have hforget : forgetting result name mgr =
            { mgr with m_map := mgr.m_map.erase name } := by rw [forgetting, if_pos hresult]
        have hregistry : ∀ st', registrations h st' (.delRedisClient m name) (.value result) =
            register h.registry m name none := fun _ => if_pos hresult
        rw [hregistry]
        refine htracked.registered hmgr ?_ (forgetting result name)
          (forgetting_bare result name) ?_ ?_ ?_ ?_ ?_
        · rfl
        · rfl
        · rw [hforget]
          exact AList.lookup_erase name mgr.m_map
        · intro key hkey
          rw [hforget]
          exact AList.lookup_erase_ne hkey
        · exact Nat.le_refl _
        · exact nofun
      · have hforget : forgetting result name = id := by
          funext mgr
          rw [forgetting, if_neg hresult]
          rfl
        have hregistry : ∀ st', registrations h st' (.delRedisClient m name) (.value result) =
            h.registry := fun _ => if_neg hresult
        rw [hregistry]
        refine htracked.same hne rfl ?_ rfl
        change h.lua.managers.modify m (forgetting result name) = _
        rw [hforget, List.modify_id]

theorem tracked_after {h : History φ} (htracked : Tracked h) {op : Op φ}
    (henabled : Enabled h.lua op) (hadmissible : Admissible h op) :
    Tracked (after env h op) := by
  cases op with
  | new =>
      have hrun : perform env .new h.lua = _ := newManager_first env htracked.kept hadmissible
      have hempty : ∀ m name, h.registry m name = none := by
        intro m name
        rw [← htracked.agrees m name, mapped, hadmissible]
        rfl
      rw [after_of_returned env hrun]
      refine ⟨⟨fun h => absurd h (List.cons_ne_nil _ _), fun _ => rfl, ?_⟩, ?_, ?_⟩
      · intro m mgr hmgr
        rw [List.mem_singleton.mp (List.mem_of_getElem? hmgr)]
        exact ⟨rfl, rfl⟩
      · intro m name
        change _ = h.registry m name
        rw [hempty]
        cases m <;> rfl
      · intro m name rc hrc
        exact absurd ((hempty m name).symm.trans hrc).symm (Option.some_ne_none rc)
  | addRedisClient m name cfg =>
      obtain ⟨mgr, hmgr⟩ := exists_manager henabled
      exact tracked_addRedisClient env htracked hmgr name cfg
  | command m cmd name args =>
      obtain ⟨mgr, hmgr⟩ := exists_manager henabled
      have hne : h.lua.managers ≠ [] := List.ne_nil_of_length_pos (Nat.zero_lt_of_lt henabled)
      rcases hadmissible with hcmd | ⟨rfl, hnone⟩
      · obtain ⟨made, v, calls, hcall, _⟩ := command_serves env htracked.kept hmgr hcmd name args
        have hrun : perform env (.command m cmd name args) h.lua = _ := hcall
        rw [after_of_returned env hrun]
        exact htracked.same hne rfl rfl rfl
      · have hname := (htracked.lookup hmgr name).symm.trans hnone
        obtain ⟨made, hcall⟩ := perform_delRedisClient_none env htracked.kept hmgr hname args
        have hrun : perform env (.command m "delRedisClient" name args) h.lua = _ := hcall
        rw [after_of_returned env hrun]
        exact htracked.same hne rfl rfl rfl
  | delRedisClient m name =>
      obtain ⟨mgr, hmgr⟩ := exists_manager henabled
      have hne : h.lua.managers ≠ [] := List.ne_nil_of_length_pos (Nat.zero_lt_of_lt henabled)
      exact tracked_delRedisClient env htracked hmgr hne name
  | delete m => exact hadmissible.elim

theorem step_eq_some {h h' : History φ} {op : Op φ} (hstep : step env h op = some h') :
    Enabled h.lua op ∧ after env h op = h' := by
  unfold step at hstep
  split_ifs at hstep with henabled
  exact ⟨henabled, Option.some.inj hstep⟩

/-- In a history every operation does what it should if and only if there is one `new`, no
`delete`, and no command has a name of the manager's own. -/
theorem history_conforms_iff (ops : List (Op φ)) (h : History φ)
    (hrun : run (step env) .empty ops = some h) :
    Along (step env) (Conforms env) .empty ops ↔ Along (step env) Admissible .empty ops := by
  refine along_iff_of_kept (step env) (Conforms env) Admissible Tracked ?_ ?_ ops .empty h
    tracked_empty hrun
  · intro s op s' htracked hadmissible hstep
    obtain ⟨henabled, rfl⟩ := step_eq_some env hstep
    exact tracked_after env htracked henabled hadmissible
  · intro s op s' htracked hstep
    exact conforms_iff_admissible env htracked (step_eq_some env hstep).1

/-- With a name that is nobody's own a method call is the `rcmCall` of the user service. -/
theorem callMethod_rcmCall {st : LuaState φ} (hkept : Kept st) {m : Nat} {mgr : Manager}
    (hmgr : st.managers[m]? = some mgr) {cmd : String} (hcmd : cmd ∉ ownNames) (name : String)
    (args : List (Value φ)) :
    ∃ made v, callMethod env m cmd name args st = .returned (.value v)
        { st with
          made := made
          sent := ((rcmCall cmd name args).alone (fun sent call =>
            (some (env.answer (sent ++ [call])), sent ++ [call]))
            ⟨fun name => mgr.m_map.lookup name⟩ st.sent).db } ∧
      ((rcmCall cmd name args).alone (fun sent call =>
        (some (env.answer (sent ++ [call])), sent ++ [call]))
        ⟨fun name => mgr.m_map.lookup name⟩ st.sent).value = some v := by
  obtain ⟨made, v, calls, hcall, hserves⟩ := command_serves env hkept hmgr hcmd name args
  refine ⟨made, v, ?_⟩
  rw [hcall]
  cases hname : mgr.m_map.lookup name with
  | none =>
      rw [hname] at hserves
      obtain ⟨rfl, rfl⟩ := hserves
      simp [rcmCall, Coroutine.alone, hname]
  | some rc =>
      rw [hname] at hserves
      obtain ⟨rfl, rfl⟩ := hserves
      simp [rcmCall, Coroutine.alone, hname]

end Histories

/-! ## One manager, and two -/

def agreeable : Env Empty where
  answer _ := .boolean true
  pairs keys := keys
  perm _ := .refl _

def oneManager : List (Op Empty) :=
  [.new, .addRedisClient 0 "user_redis" .nil, .command 0 "GET" "user_redis" [.string "uid"]]

/-- The command goes to the service that has been started for its name. -/
theorem history_conforms_one : Along (step agreeable) (Conforms agreeable) .empty oneManager := by
  refine (history_conforms_iff agreeable oneManager _ rfl).mpr ⟨rfl, fun h _ =>
    ⟨trivial, fun h' _ => ⟨.inl (by decide), fun _ _ => trivial⟩⟩⟩

/-- A second manager cannot be made. -/
theorem second_new_raises : ¬ ∀ (ops : List (Op Empty)) (h : History Empty),
    run (step agreeable) .empty ops = some h →
      Along (step agreeable) (Conforms agreeable) .empty ops := by
  intro h
  obtain ⟨_, hrest⟩ := h [.new, .new] _ rfl
  obtain ⟨⟨r, st', hrun, _⟩, _⟩ := hrest _ rfl
  cases hrun

end Doudizhu.RedisClients
