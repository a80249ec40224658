import Doudizhu.Utils.Class
import Mathlib.Data.List.Basic
import Mathlib.Data.List.Count
import Mathlib.Data.Bool.Basic

/-! # Construction and destruction along a chain of classes

A class made by `class(super, autoConstructSuper)` is its own declaration followed by its super
class, so a list of declarations is a chain from the most derived class to the root.  The level
of a class is the number of classes above it.

`new` of an object leaves a log of the ctors it enters and leaves and of the calls of `super`;
`trace` writes down the log of a chain by recursion on it.  What matters of `currentSuper` is
that it names the class above when a ctor starts: whatever the ctors above leave in it, each
ctor calls `super` once, before any of them has run. -/

set_option autoImplicit false

namespace Doudizhu.Class

section Bodies
variable {St Args : Type}

/-- Returns after exactly `n` calls of `super`. -/
def Body.Calls : Nat → Body St Args → Prop
  | n, .ret _ => n = 0
  | _, .raise _ => False
  | 0, .super _ _ _ => False
  | n + 1, .super _ _ k => ∀ st, (k st).Calls n

end Bodies

/-- `argument` is the second argument of `class`, ctor and dtor are the methods defined under
these names.  A ctor works on the other fields of the object. -/
structure Declaration (σ Args : Type) where
  argument : Option Bool
  ctor : Option (Args → σ → Body σ Args)
  dtor : Option (σ → σ)

section Chain
variable {σ Args : Type}

/-- `autoConstructSuper or (autoConstructSuper == nil)`. -/
def Declaration.autoConstructSuper (c : Declaration σ Args) : Bool :=
  c.argument.getD false || c.argument.isNone

/-- The object under construction, or a class with the classes above it. -/
inductive Value (σ Args : Type) where
  | object
  | class (c : Declaration σ Args) (above : List (Declaration σ Args))

/-- A class, `none` for nil. -/
def classOf : List (Declaration σ Args) → Option (Value σ Args)
  | [] => none
  | c :: above => some (.class c above)

inductive Event where
  | enter (level : Nat)
  | leave (level : Nat)
  | callSuper (level : Nat)
  | superReturned (level : Nat)
  | dtor (level : Nat)
  deriving DecidableEq

structure Object (σ Args : Type) where
  currentSuper : Option (Value σ Args)
  fields : σ
  log : List Event

def Object.record (obj : Object σ Args) (e : Event) : Object σ Args :=
  { obj with log := obj.log ++ [e] }

/-- The ctor at `level` on the object: its calls of `super` and its return are logged. -/
def Body.onObject (level : Nat) (obj : Object σ Args) : Body σ Args → Body (Object σ Args) Args
  | .ret s => .ret ({ obj with fields := s }.record (.leave level))
  | .raise s => .raise { obj with fields := s }
  | .super s args k =>
      .super ({ obj with fields := s }.record (.callSuper level)) args fun obj =>
        (k obj.fields).onObject level (obj.record (.superReturned level))

/-- The class tables, as an object of the class `chain` reaches them.  The field `super` is
missing in the root, which has no metatable either. -/
def tables (chain : List (Declaration σ Args)) : Tables (Object σ Args) (Value σ Args) Args where
  super
    | .object => pure (classOf chain.tail)
    | .class _ above => pure (classOf above)
  autoConstructSuper
    | .object => pure (chain.head?.any Declaration.autoConstructSuper)
    | .class c _ => pure c.autoConstructSuper
  ctor
    | .object => pure none
    | .class c above => pure (c.ctor.map fun ctor args obj =>
        (ctor args obj.fields).onObject above.length (obj.record (.enter above.length)))
  dtor
    | .object => pure none
    | .class c above => pure (c.dtor.map fun dtor => Action.modify fun obj =>
        { obj with fields := dtor obj.fields }.record (.dtor above.length))
  index
    | .object => pure (classOf chain)
    | .class _ above => pure (classOf above)
  currentSuper obj := obj.currentSuper
  setCurrentSuper above obj := { obj with currentSuper := above }

def Object.empty (s : σ) : Object σ Args := ⟨none, s, []⟩

/-! ## What the classes declare -/

def CallsSuper (n : Nat) (c : Declaration σ Args) : Prop :=
  ∀ ctor, c.ctor = some ctor → ∀ args s, (ctor args s).Calls n

/-- A class without automatic construction has a ctor that calls `super` exactly once; the ctor
of a class with it leaves that to `new`. -/
def Declared (c : Declaration σ Args) : Prop :=
  if c.autoConstructSuper then CallsSuper 0 c else c.ctor.isSome ∧ CallsSuper 1 c

/-- So do all classes with a super class; the root has none to construct. -/
def WellDeclared : List (Declaration σ Args) → Prop
  | [] => True
  | c :: above => (if above = [] then CallsSuper 0 c else Declared c) ∧ WellDeclared above

/-- The levels of the classes that have the given method, the most derived class first. -/
def levels (has : Declaration σ Args → Bool) : List (Declaration σ Args) → List Nat
  | [] => []
  | c :: above => if has c then above.length :: levels has above else levels has above

def Declaration.hasCtor (c : Declaration σ Args) : Bool := c.ctor.isSome

def Declaration.hasDtor (c : Declaration σ Args) : Bool := c.dtor.isSome

/-! ## The log of a construction -/

def inside (c : Declaration σ Args) (above : List (Declaration σ Args)) (early : List Event) :
    List Event :=
  if c.autoConstructSuper ∨ above = [] then []
  else .callSuper above.length :: (early ++ [.superReturned above.length])

def trace : List (Declaration σ Args) → List Event
  | [] => []
  | c :: above =>
      (if c.autoConstructSuper then trace above else []) ++
        if c.hasCtor then
          .enter above.length :: (inside c above (trace above) ++ [.leave above.length])
        else []

/-- An action that returns and adds `events` to the log. -/
def Logs (x : Action (Object σ Args) Unit) (obj : Object σ Args) (events : List Event) : Prop :=
  ∃ obj', x obj = .returned () obj' ∧ obj'.log = obj.log ++ events

theorem logs_pure (obj : Object σ Args) : Logs (pure ()) obj [] :=
  ⟨obj, rfl, (List.append_nil _).symm⟩

theorem Logs.bind {x : Action (Object σ Args) Unit} {f : Unit → Action (Object σ Args) Unit}
    {obj : Object σ Args} {first second : List Event} (hx : Logs x obj first)
    (hf : ∀ obj', obj'.log = obj.log ++ first → Logs (f ()) obj' second) :
    Logs (x >>= f) obj (first ++ second) := by
  obtain ⟨obj₁, hx, hlog₁⟩ := hx
  obtain ⟨obj₂, hf, hlog₂⟩ := hf obj₁ hlog₁
  refine ⟨obj₂, ?_, ?_⟩
  · rw [Action.bind_returned hx, hf]
  · rw [hlog₂, hlog₁, List.append_assoc]

theorem run_onObject_zero (super : Args → Action (Object σ Args) Unit) (level : Nat)
    (obj : Object σ Args) (body : Body σ Args) (h : body.Calls 0) :
    Logs (fun _ => (body.onObject level obj).run super) obj [.leave level] := by
  cases body with
  | ret s => exact ⟨_, rfl, rfl⟩
  | raise s => exact h.elim
  | super s args k => exact h.elim

/-- A body that calls `super` once, when `super` logs `events` on an object that names the class
above. -/
theorem run_onObject_one (super : Args → Action (Object σ Args) Unit) (level : Nat)
    (above : Option (Value σ Args)) (events : List Event)
    (hsuper : ∀ args obj, obj.currentSuper = above → Logs (super args) obj events)
    (obj : Object σ Args) (hobj : obj.currentSuper = above) (body : Body σ Args)
    (h : body.Calls 1) :
    Logs (fun _ => (body.onObject level obj).run super) obj
      (.callSuper level :: (events ++ [.superReturned level]) ++ [.leave level]) := by
  cases body with
  | ret s => exact absurd h (by simp [Body.Calls])
  | raise s => exact h.elim
  | super s args k =>
      obtain ⟨obj₁, hrun, hlog₁⟩ :=
        hsuper args ({ obj with fields := s }.record (.callSuper level)) hobj
      obtain ⟨obj₂, hrest, hlog₂⟩ := run_onObject_zero super level
        (obj₁.record (.superReturned level)) (k obj₁.fields) (h obj₁.fields)
      refine ⟨obj₂, ?_, ?_⟩
      · simp only [Body.onObject, Body.run, hrun]
        exact hrest
      · rw [hlog₂]
        simp [Object.record, hlog₁]

section Create
variable (whole : List (Declaration σ Args))

theorem constructSuper_logs (fuel : Nat) (c : Declaration σ Args)
    (above : List (Declaration σ Args)) (args : Args) (obj : Object σ Args)
    (hcreate : ∀ obj, above ≠ [] →
      Logs (create (tables whole) fuel (classOf above) args) obj (trace above)) :
    Logs (constructSuper (tables whole) (create (tables whole) fuel) (.class c above) args) obj
      (if c.autoConstructSuper then trace above else []) := by
  cases above with
  | nil =>
      have htrace : (if c.autoConstructSuper then trace ([] : List (Declaration σ Args))
          else []) = [] := by
        split_ifs <;> rfl
      rw [htrace]
      exact logs_pure obj
  | cons next rest =>
      by_cases hauto : c.autoConstructSuper = true
      · rw [if_pos hauto]
        obtain ⟨obj', hrun, hlog⟩ := hcreate obj (List.cons_ne_nil next rest)
        refine ⟨obj', ?_, hlog⟩
        simp only [constructSuper, tables, classOf, Action.pure_bind_apply, hauto, if_true]
        exact hrun
      · rw [if_neg hauto]
        refine ⟨obj, ?_, (List.append_nil _).symm⟩
        simp only [constructSuper, tables, classOf, Action.pure_bind_apply, hauto]
        rfl

/-- What a ctor does once it is entered: with automatic construction it does not call `super`, and
otherwise it calls it once, for the class that `currentSuper` names. -/
theorem ctorBody_logs (fuel : Nat) (c : Declaration σ Args) (above : List (Declaration σ Args))
    (hcalls : if above = [] then CallsSuper 0 c else Declared c)
    (hcreate : ∀ args obj, above ≠ [] →
      Logs (create (tables whole) fuel (classOf above) args) obj (trace above))
    {ctor : Args → σ → Body σ Args} (hctor : c.ctor = some ctor) (args : Args) (fields : σ)
    (entered : Object σ Args) (hentered : entered.currentSuper = classOf above) :
    Logs (fun _ => ((ctor args fields).onObject above.length entered).run
      (super (tables whole) (create (tables whole) fuel))) entered
      (inside c above (trace above) ++ [.leave above.length]) := by
  by_cases hnone : c.autoConstructSuper = true ∨ above = []
  · have hzero : CallsSuper 0 c := by
      rcases hnone with hauto | hroot
      · by_cases hroot : above = []
        · rwa [if_pos hroot] at hcalls
        · rwa [if_neg hroot, Declared, if_pos hauto] at hcalls
      · rwa [if_pos hroot] at hcalls
    rw [inside, if_pos hnone]
    exact run_onObject_zero _ above.length entered _ (hzero ctor hctor _ _)
  · rw [not_or] at hnone
    rw [if_neg hnone.2, Declared, if_neg hnone.1] at hcalls
    rw [inside, if_neg (not_or.mpr hnone)]
    refine run_onObject_one _ above.length (classOf above) (trace above) ?_ entered hentered _
      (hcalls.2 ctor hctor _ _)
    intro args obj hobj
    obtain ⟨obj', hcreate, hlog⟩ := hcreate args obj hnone.2
    refine ⟨obj', ?_, hlog⟩
    change create (tables whole) fuel obj.currentSuper args obj = _
    rw [hobj, hcreate]

theorem runCtor_logs (fuel : Nat) (c : Declaration σ Args) (above : List (Declaration σ Args))
    (args : Args) (obj : Object σ Args)
    (hcalls : if above = [] then CallsSuper 0 c else Declared c)
    (hcreate : ∀ args obj, above ≠ [] →
      Logs (create (tables whole) fuel (classOf above) args) obj (trace above)) :
    Logs (runCtor (tables whole) (create (tables whole) fuel) (.class c above) args) obj
      (if c.hasCtor then
          .enter above.length :: (inside c above (trace above) ++ [.leave above.length])
        else []) := by
  cases hctor : c.ctor with
  | none =>
      rw [if_neg (by simp [Declaration.hasCtor, hctor])]
      refine ⟨obj, ?_, (List.append_nil _).symm⟩
      simp only [runCtor, tables, Action.pure_bind_apply, hctor, Option.map_none]
      rfl
  | some ctor =>
      rw [if_pos (by simp [Declaration.hasCtor, hctor])]
      let named : Object σ Args := { obj with currentSuper := classOf above }
      let entered := named.record (.enter above.length)
      have hrun : runCtor (tables whole) (create (tables whole) fuel) (.class c above) args obj =
          ((ctor args named.fields).onObject above.length entered).run
            (super (tables whole) (create (tables whole) fuel)) := by
        simp only [runCtor, tables, Action.pure_bind_apply, hctor, Option.map_some]
        rfl
      obtain ⟨obj', hreturned, hlog⟩ :=
        ctorBody_logs whole fuel c above hcalls hcreate hctor args named.fields entered rfl
      refine ⟨obj', hrun.trans hreturned, ?_⟩
      rw [hlog]
      simp [entered, named, Object.record]

/-- `create` along the chain: the induction is on the classes above, and each use of it is for
the class named when the call is made. -/
theorem create_logs : ∀ (above : List (Declaration σ Args)) (c : Declaration σ Args),
    WellDeclared (c :: above) → ∀ (fuel : Nat), above.length < fuel →
      ∀ (args : Args) (obj : Object σ Args),
        Logs (create (tables whole) fuel (some (.class c above)) args) obj
          (trace (c :: above)) := by
  intro above
  induction above with
  | nil =>
      intro c hdeclared fuel hfuel args obj
      obtain ⟨fuel, rfl⟩ := Nat.exists_eq_add_of_lt hfuel
      simp only [List.length_nil, Nat.zero_add]
      rw [create, trace]
      refine (constructSuper_logs whole fuel c [] args obj ?_).bind fun obj' _ =>
        runCtor_logs whole fuel c [] args obj' hdeclared.1 ?_
      · intro obj hne; exact absurd rfl hne
      · intro args obj hne; exact absurd rfl hne
  | cons next rest ih =>
      intro c hdeclared fuel hfuel args obj
      obtain ⟨fuel, rfl⟩ : ∃ n, fuel = n + 1 := ⟨fuel - 1, by omega⟩
      have hcreate : ∀ args obj, next :: rest ≠ [] →
          Logs (create (tables whole) fuel (classOf (next :: rest)) args) obj
            (trace (next :: rest)) := by
        intro args obj _
        exact ih next hdeclared.2 fuel (by simpa using hfuel) args obj
      rw [create, trace]
      exact (constructSuper_logs whole fuel c (next :: rest) args obj (hcreate args)).bind
        fun obj' _ => runCtor_logs whole fuel c (next :: rest) args obj' hdeclared.1 hcreate

end Create

/-! ## What the log of a construction says -/

theorem mem_levels_lt (has : Declaration σ Args → Bool) :
    ∀ (chain : List (Declaration σ Args)), ∀ level ∈ levels has chain, level < chain.length := by
  intro chain
  induction chain with
  | nil => intro level h; cases h
  | cons c above ih =>
      intro level h
      rw [List.length_cons]
      rw [levels] at h
      split_ifs at h
      · rcases List.mem_cons.mp h with rfl | h
        · omega
        · have := ih level h
          omega
      · have := ih level h
        omega

theorem levels_sorted (has : Declaration σ Args → Bool) :
    ∀ chain : List (Declaration σ Args), (levels has chain).Pairwise (· > ·) := by
  intro chain
  induction chain with
  | nil => exact List.Pairwise.nil
  | cons c above ih =>
      rw [levels]
      split_ifs
      · exact List.pairwise_cons.mpr ⟨mem_levels_lt has above, ih⟩
      · exact ih

/-- A class that does not construct the classes above it by itself has a ctor that does. -/
theorem WellDeclared.hasCtor {c : Declaration σ Args} {above : List (Declaration σ Args)}
    (h : WellDeclared (c :: above)) (hmanual : c.autoConstructSuper = false)
    (hsuper : above ≠ []) : c.hasCtor = true := by
  have hdeclared := h.1
  rw [if_neg hsuper, Declared, if_neg (by rw [hmanual]; exact Bool.false_ne_true)] at hdeclared
  exact hdeclared.1

theorem trace_of_manual {c : Declaration σ Args} {above : List (Declaration σ Args)}
    (h : WellDeclared (c :: above)) (hmanual : c.autoConstructSuper = false)
    (hsuper : above ≠ []) :
    trace (c :: above) = [.enter above.length, .callSuper above.length] ++ trace above ++
      [.superReturned above.length, .leave above.length] := by
  rw [trace, if_pos (h.hasCtor hmanual hsuper), inside,
    if_neg (not_or.mpr ⟨by simp [hmanual], hsuper⟩), hmanual]
  simp

theorem trace_of_auto {c : Declaration σ Args} (above : List (Declaration σ Args))
    (hauto : c.autoConstructSuper = true ∨ above = []) :
    trace (c :: above) =
      trace above ++ if c.hasCtor then [.enter above.length, .leave above.length] else [] := by
  have hearly : (if c.autoConstructSuper then trace above else []) = trace above := by
    rcases hauto with h | rfl
    · rw [if_pos h]
    · split_ifs <;> rfl
  rw [trace, hearly, inside, if_pos hauto, List.nil_append]

/-- The entries `enter` and `leave` of a class are added to those of the classes above. -/
theorem count_trace_cons {c : Declaration σ Args} {above : List (Declaration σ Args)}
    (h : WellDeclared (c :: above)) {mark : Nat → Event}
    (hmark : mark = Event.enter ∨ mark = Event.leave) (level : Nat) :
    (trace (c :: above)).count (mark level) =
      (trace above).count (mark level) +
        if c.hasCtor ∧ above.length = level then 1 else 0 := by
  by_cases hauto : c.autoConstructSuper = true ∨ above = []
  · rw [trace_of_auto above hauto, List.count_append]
    congr 1
    by_cases hctor : c.hasCtor = true
    · rcases hmark with rfl | rfl <;> simp [hctor, List.count_cons]
    · simp [hctor]
  · rw [not_or] at hauto
    have hmanual := Bool.eq_false_iff.mpr hauto.1
    rw [trace_of_manual h hmanual hauto.2, h.hasCtor hmanual hauto.2]
    rcases hmark with rfl | rfl <;> simp [List.count_cons, List.count_append]

theorem count_trace {mark : Nat → Event} (hmark : mark = Event.enter ∨ mark = Event.leave)
    (level : Nat) : ∀ chain : List (Declaration σ Args), WellDeclared chain →
      (trace chain).count (mark level) =
        if level ∈ levels Declaration.hasCtor chain then 1 else 0 := by
  intro chain
  induction chain with
  | nil => intro _; simp [trace, levels]
  | cons c above ih =>
      intro h
      rw [count_trace_cons h hmark, ih h.2, levels]
      have hlt := mem_levels_lt Declaration.hasCtor above
      by_cases hctor : c.hasCtor = true
      · rw [if_pos hctor]
        by_cases hlevel : above.length = level
        · have hnot : level ∉ levels Declaration.hasCtor above := fun hmem => by
            have := hlt level hmem
            omega
          simp [hctor, hlevel, hnot]
        · simp [hlevel, Ne.symm hlevel]
      · simp [hctor]

/-- The construction of a class higher up stands in the log as it would alone. -/
theorem trace_infix : ∀ (below : List (Declaration σ Args)) (c : Declaration σ Args)
    (above : List (Declaration σ Args)), WellDeclared (below ++ c :: above) →
      ∃ pre post, trace (below ++ c :: above) = pre ++ trace (c :: above) ++ post := by
  intro below c above
  induction below with
  | nil => intro _; exact ⟨[], [], by simp⟩
  | cons b below ih =>
      intro h
      rw [List.cons_append] at h ⊢
      obtain ⟨pre, post, hrest⟩ := ih h.2
      by_cases hauto : b.autoConstructSuper = true
      · rw [trace_of_auto _ (.inl hauto), hrest]
        exact ⟨pre, _, by rw [List.append_assoc _ post]⟩
      · rw [trace_of_manual h (Bool.eq_false_iff.mpr hauto) (by simp), hrest]
        refine ⟨[.enter (below ++ c :: above).length, .callSuper (below ++ c :: above).length] ++
          pre, post ++ [.superReturned (below ++ c :: above).length,
            .leave (below ++ c :: above).length], ?_⟩
        simp only [List.append_assoc]

theorem WellDeclared.suffix : ∀ (below : List (Declaration σ Args))
    {chain : List (Declaration σ Args)}, WellDeclared (below ++ chain) → WellDeclared chain := by
  intro below
  induction below with
  | nil => intro chain h; exact h
  | cons b below ih => intro chain h; exact ih h.2

/-- Every ctor of the chain runs once; a class with automatic construction enters its ctor when
all ctors above have been left; a call of `super` runs the ctors above and no others. -/
structure Constructed (chain : List (Declaration σ Args)) (log : List Event) : Prop where
  once : ∀ level,
    log.count (.enter level) = (if level ∈ levels Declaration.hasCtor chain then 1 else 0) ∧
      log.count (.leave level) = (if level ∈ levels Declaration.hasCtor chain then 1 else 0)
  auto : ∀ below c above, chain = below ++ c :: above → c.autoConstructSuper = true →
    c.hasCtor = true → ∃ pre post, log = pre ++ .enter above.length :: post ∧
      ∀ level ∈ levels Declaration.hasCtor above, .leave level ∈ pre
  manual : ∀ below c above, chain = below ++ c :: above → c.autoConstructSuper = false →
    above ≠ [] → ∃ pre mid post,
      log = pre ++ .callSuper above.length :: (mid ++ .superReturned above.length :: post) ∧
        ∀ level,
          mid.count (.enter level) =
              (if level ∈ levels Declaration.hasCtor above then 1 else 0) ∧
            mid.count (.leave level) =
              (if level ∈ levels Declaration.hasCtor above then 1 else 0)

theorem constructed_trace {chain : List (Declaration σ Args)} (h : WellDeclared chain) :
    Constructed chain (trace chain) where
  once level :=
    ⟨count_trace (.inl rfl) level chain h, count_trace (.inr rfl) level chain h⟩
  auto below c above hchain hauto hctor := by
    subst hchain
    obtain ⟨pre, post, hparts⟩ := trace_infix below c above h
    have habove := (h.suffix below).2
    rw [trace_of_auto above (.inl hauto), if_pos hctor] at hparts
    refine ⟨pre ++ trace above, .leave above.length :: post, ?_, ?_⟩
    · rw [hparts]
      simp
    · intro level hlevel
      have hcount := count_trace (.inr rfl) level above habove
      rw [if_pos hlevel] at hcount
      exact List.mem_append_right _ (List.count_pos_iff.mp (by omega))
  manual below c above hchain hmanual hsuper := by
    subst hchain
    obtain ⟨pre, post, hparts⟩ := trace_infix below c above h
    have hsuffix := h.suffix below
    rw [trace_of_manual hsuffix hmanual hsuper] at hparts
    refine ⟨pre ++ [.enter above.length], trace above, .leave above.length :: post, ?_, ?_⟩
    · rw [hparts]
      simp
    · intro level
      exact ⟨count_trace (.inl rfl) level above hsuffix.2,
        count_trace (.inr rfl) level above hsuffix.2⟩

/-! ## Destruction -/

theorem runDtor_logs (whole : List (Declaration σ Args)) (c : Declaration σ Args)
    (above : List (Declaration σ Args)) (obj : Object σ Args) :
    Logs (runDtor (tables whole) (.class c above)) obj
      (if c.hasDtor then [.dtor above.length] else []) := by
  cases hdtor : c.dtor with
  | none =>
      rw [if_neg (by simp [Declaration.hasDtor, hdtor])]
      refine ⟨obj, ?_, (List.append_nil _).symm⟩
      simp only [runDtor, tables, Action.pure_bind_apply, hdtor, Option.map_none]
      rfl
  | some dtor =>
      rw [if_pos (by simp [Declaration.hasDtor, hdtor])]
      refine ⟨{ obj with fields := dtor obj.fields }.record (.dtor above.length), ?_, rfl⟩
      simp only [runDtor, tables, Action.pure_bind_apply, hdtor, Option.map_some]
      rfl

theorem destory_logs (whole : List (Declaration σ Args)) :
    ∀ (chain : List (Declaration σ Args)) (fuel : Nat), chain.length ≤ fuel →
      ∀ obj : Object σ Args, Logs (destory (tables whole) fuel (classOf chain)) obj
        ((levels Declaration.hasDtor chain).map .dtor) := by
  intro chain
  induction chain with
  | nil =>
      intro fuel _ obj
      cases fuel <;> exact logs_pure obj
  | cons c above ih =>
      intro fuel hfuel obj
      obtain ⟨fuel, rfl⟩ : ∃ n, fuel = n + 1 :=
        ⟨fuel - 1, by simp only [List.length_cons] at hfuel; omega⟩
      have hlevels : (levels Declaration.hasDtor (c :: above)).map Event.dtor =
          (if c.hasDtor then [.dtor above.length] else []) ++
            (levels Declaration.hasDtor above).map .dtor := by
        rw [levels]
        split_ifs <;> rfl
      rw [hlevels, classOf, destory]
      refine (runDtor_logs whole c above obj).bind fun obj' _ => ?_
      exact ih fuel (by simpa using hfuel) obj'

/-- Whatever the mixture of the two ways to construct, `new` returns an object whose log is as
described by `Constructed`, and `delete` runs the dtors of the chain in order, once each. -/
theorem new_delete_chain (c : Declaration σ Args) (above : List (Declaration σ Args))
    (hdeclared : WellDeclared (c :: above)) (fuel : Nat) (hfuel : (c :: above).length < fuel)
    (args : Args) (s : σ) :
    (∃ obj, new (tables (c :: above)) fuel (.class c above) args (Object.empty s) =
        .returned () obj ∧ obj.currentSuper.isNone ∧ Constructed (c :: above) obj.log) ∧
      ∀ obj : Object σ Args, ∃ obj', delete (tables (c :: above)) fuel .object obj =
        .returned () obj' ∧
          obj'.log = obj.log ++ (levels Declaration.hasDtor (c :: above)).map .dtor ∧
          (levels Declaration.hasDtor (c :: above)).Pairwise (· > ·) := by
  obtain ⟨fuel, rfl⟩ : ∃ n, fuel = n + 1 := ⟨fuel - 1, by omega⟩
  rw [List.length_cons] at hfuel
  constructor
  · obtain ⟨obj, hcreate, hlog⟩ := create_logs (c :: above) above c hdeclared (fuel + 1)
      (by omega) args (Object.empty s)
    refine ⟨{ obj with currentSuper := none }, ?_, rfl, ?_⟩
    · rw [new, Action.bind_returned hcreate]
      rfl
    · change Constructed _ obj.log
      rw [hlog]
      exact constructed_trace hdeclared
  · intro obj
    obtain ⟨obj', hrun, hlog⟩ :=
      destory_logs (c :: above) (c :: above) fuel (by rw [List.length_cons]; omega) obj
    exact ⟨obj', hrun, hlog, levels_sorted _ _⟩

end Chain

/-! ## Three classes, the middle one with manual construction -/

section Example

def plainCtor (_ : Unit) (s : Nat) : Body Nat Unit := .ret s

def manualCtor (_ : Unit) (s : Nat) : Body Nat Unit := .super s () .ret

def threeClasses : List (Declaration Nat Unit) :=
  [⟨none, some plainCtor, some Nat.succ⟩, ⟨some false, some manualCtor, none⟩,
    ⟨none, some plainCtor, some Nat.succ⟩]

theorem callsSuper_of {n : Nat} {c : Declaration Nat Unit} {ctor : Unit → Nat → Body Nat Unit}
    (hctor : c.ctor = some ctor) (h : ∀ args s, (ctor args s).Calls n) : CallsSuper n c := by
  intro other hother args s
  rw [hctor] at hother
  cases hother
  exact h args s

theorem new_delete_three :
    (∃ obj, new (tables threeClasses) 4 (.class ⟨none, some plainCtor, some Nat.succ⟩
        threeClasses.tail) () (Object.empty 0) = .returned () obj ∧ obj.currentSuper.isNone ∧
          Constructed threeClasses obj.log) ∧
      ∀ obj : Object Nat Unit, ∃ obj', delete (tables threeClasses) 4 .object obj =
        .returned () obj' ∧
          obj'.log = obj.log ++ (levels Declaration.hasDtor threeClasses).map .dtor ∧
          (levels Declaration.hasDtor threeClasses).Pairwise (· > ·) := by
  refine new_delete_chain ⟨none, some plainCtor, some Nat.succ⟩ threeClasses.tail ?_ 4
    (by decide) () 0
  refine ⟨?_, ?_, ?_, trivial⟩
  · exact callsSuper_of rfl fun _ _ => rfl
  · exact ⟨rfl, callsSuper_of rfl fun _ _ _ => rfl⟩
  · exact callsSuper_of rfl fun _ _ => rfl

/-- A root that asks for manual construction and calls `super` in its ctor: `super` indexes nil
and `new` raises. -/
theorem new_of_manual_root : ¬ ∀ (c : Declaration Nat Unit) (above : List (Declaration Nat Unit)),
    (∀ d ∈ c :: above, Declared d) → ∀ fuel, (c :: above).length < fuel →
      ∃ obj, new (tables (c :: above)) fuel (.class c above) () (Object.empty 0) =
        .returned () obj := by
  intro h
  obtain ⟨obj, hobj⟩ := h ⟨some false, some manualCtor, none⟩ [] (by
    intro d hd
    rw [List.mem_singleton.mp hd]
    exact ⟨rfl, callsSuper_of rfl fun _ _ _ => rfl⟩) 2 (by decide)
  cases hobj

end Example

end Doudizhu.Class
