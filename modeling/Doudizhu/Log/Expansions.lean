import Doudizhu.Log.Dump

/-! # What a dump expands

A dump prints one line for every entry of the tables it goes through.  `trace` is the recursion of
`_dump` with these lines kept apart, so that it can be said of each line where it comes from and
what stands behind the key. -/

set_option autoImplicit false

namespace Doudizhu.Log

open Lua

inductive Mark where
  | expansion
  | reference (path : String)
  | plain
  deriving DecidableEq

/-- A line of a dump: an entry of `table`, which is dumped with the arguments `space` and
`name`. -/
structure Line (ρ φ : Type) where
  table : ρ
  space : String
  name : String
  key : TValue ρ φ
  value : TValue ρ φ
  mark : Mark

abbrev Tracer (ρ φ : Type) :=
  ρ → String → String → Cache ρ → Option (List (Line ρ φ) × Cache ρ)

section Lines
variable {ρ φ : Type} [LuaFloat φ]

def Mark.text (value : TValue ρ φ) : Mark → String
  | .expansion => ""
  | .reference path => " \x7b" ++ path ++ "\x7d"
  | .plain => " [" ++ value.text ++ "]"

def Line.text (line : Line ρ φ) : String :=
  "\n" ++ line.space ++ ("+" ++ line.key.text ++ line.mark.text line.value)

def Line.path (line : Line ρ φ) : String := line.name ++ "." ++ line.key.text

def Line.entry (line : Line ρ φ) : TValue ρ φ × TValue ρ φ := (line.key, line.value)

def Line.child (line : Line ρ φ) : Option ρ :=
  match line.value with
  | .table r => some r
  | _ => none

omit [LuaFloat φ] in
theorem Line.child_eq_some {line : Line ρ φ} {r : ρ} :
    line.child = some r ↔ line.value = .table r := by
  cases hv : line.value <;> simp [Line.child, hv]

def printed (lines : List (Line ρ φ)) : String := String.join (lines.map Line.text)

def expansions (lines : List (Line ρ φ)) : List ρ :=
  lines.filterMap fun line => if line.mark = .expansion then line.child else none

variable [DecidableEq ρ]

def entriesOf (r : ρ) (lines : List (Line ρ φ)) : List (TValue ρ φ × TValue ρ φ) :=
  (lines.filter fun line => line.table = r).map Line.entry

/-- The path under which the lines, and before them the cache of `log_dump`, first met a table. -/
def firstPath (root : ρ) (lines : List (Line ρ φ)) (r : ρ) : Option String :=
  if r = root then some "."
  else (lines.find? fun line => line.child = some r).map Line.path

end Lines

section Trace
variable {ρ φ : Type} [LuaFloat φ] [DecidableEq ρ]

def traceEntry (expand : Tracer ρ φ) (t : ρ) (space name : String) (k v : TValue ρ φ)
    (more : Bool) (cache : Cache ρ) : Option (List (Line ρ φ) × Cache ρ) :=
  match v with
  | .table r =>
      match cache r with
      | some path => some ([⟨t, space, name, k, .table r, .reference path⟩], cache)
      | none =>
          let newKey := name ++ "." ++ k.text
          (expand r (deeper space k.text more) newKey
              (Function.update cache r (some newKey))).map fun result =>
            (⟨t, space, name, k, .table r, .expansion⟩ :: result.1, result.2)
  | v => some ([⟨t, space, name, k, v, .plain⟩], cache)

def traceEntries (expand : Tracer ρ φ) (t : ρ) (space name : String) :
    List (TValue ρ φ × TValue ρ φ) → Cache ρ → Option (List (Line ρ φ) × Cache ρ)
  | [], cache => some ([], cache)
  | (k, v) :: rest, cache => do
      let (lines, cache) ← traceEntry expand t space name k v (hasNext rest) cache
      let (later, cache) ← traceEntries expand t space name rest cache
      return (lines ++ later, cache)

def trace (heap : Heap ρ φ) : Nat → Tracer ρ φ
  | 0, _, _, _, _ => none
  | fuel + 1, t, space, name, cache => traceEntries (trace heap fuel) t space name (heap t) cache

end Trace

/-! ## The text of the lines is the dump -/

section Text
variable {ρ φ : Type} [LuaFloat φ] [DecidableEq ρ]

theorem concat_eq_join (sep : String) (lines : List String) :
    sep.intercalate ("" :: lines) = String.join (lines.map fun line => sep ++ line) := by
  apply String.toList_inj.mp
  rw [toList_concat, String.toList_join, List.flatMap_map]
  simp only [String.toList_append]

/-- The dumper prints the lines of the tracer. -/
def Prints (expand : Tracer ρ φ) (expand' : Dumper ρ) : Prop :=
  ∀ t space name cache, expand' t space name cache =
    (expand t space name cache).map fun result => (printed result.1, result.2)

variable {expand : Tracer ρ φ} {expand' : Dumper ρ}

theorem printed_traceEntry (h : Prints expand expand') (t : ρ) (space name : String)
    (k v : TValue ρ φ) (more : Bool) (cache : Cache ρ) :
    (traceEntry expand t space name k v more cache).map
        (fun result => (printed result.1, result.2)) =
      (dumpEntry expand' space name k v more cache).map
        fun result => ("\n" ++ space ++ result.1, result.2) := by
  cases v with
  | table r =>
      cases hr : cache r with
      | some path =>
          simp [traceEntry, dumpEntry, hr, printed, Line.text, Mark.text, String.append_assoc]
      | none =>
          simp only [traceEntry, dumpEntry, hr, Option.map_map, h r]
          refine congrArg (fun f => Option.map f _) (funext fun result => ?_)
          simp [printed, Line.text, Mark.text, String.append_assoc]
  | _ =>
      simp [traceEntry, dumpEntry, printed, Line.text, Mark.text, String.append_assoc]

theorem printed_traceEntries (h : Prints expand expand') (t : ρ) (space name : String) :
    ∀ (entries : List (TValue ρ φ × TValue ρ φ)) (cache : Cache ρ),
      (traceEntries expand t space name entries cache).map
          (fun result => (printed result.1, result.2)) =
        (dumpEntries expand' space name entries cache).map
          fun result => (String.join (result.1.map fun line => "\n" ++ space ++ line),
            result.2) := by
  intro entries
  induction entries with
  | nil => intro cache; rfl
  | cons entry rest ih =>
      obtain ⟨k, v⟩ := entry
      intro cache
      have hentry := printed_traceEntry h t space name k v (hasNext rest) cache
      simp only [traceEntries, dumpEntries]
      cases hline : dumpEntry expand' space name k v (hasNext rest) cache with
      | none =>
          rw [hline, Option.map_none, Option.map_eq_none_iff] at hentry
          rw [hentry]
          rfl
      | some result =>
          rw [hline, Option.map_some] at hentry
          obtain ⟨traced, htraced, heq⟩ := Option.map_eq_some_iff.mp hentry
          rw [htraced]
          obtain ⟨hprinted, hcache⟩ := Prod.mk.inj heq
          have hrest := ih traced.2
          simp only [Option.bind_eq_bind, Option.bind_some, pure]
          rw [← hcache]
          cases hlater : dumpEntries expand' space name rest traced.2 with
          | none =>
              rw [hlater, Option.map_none, Option.map_eq_none_iff] at hrest
              rw [hrest]
              rfl
          | some later =>
              rw [hlater, Option.map_some] at hrest
              obtain ⟨tracedLater, htracedLater, heqLater⟩ := Option.map_eq_some_iff.mp hrest
              obtain ⟨hprintedLater, hcacheLater⟩ := Prod.mk.inj heqLater
              rw [htracedLater]
              simp only [Option.bind_some, Option.map_some, List.map_cons, String.join_cons,
                ← hprinted, ← hprintedLater, hcacheLater, printed, List.map_append,
                String.join_append]

theorem dump_eq_trace (heap : Heap ρ φ) : ∀ fuel, Prints (trace heap fuel) (dump heap fuel) := by
  intro fuel
  induction fuel with
  | zero => intro _ _ _ _; rfl
  | succ fuel ih =>
      intro t space name cache
      have hentries := printed_traceEntries ih t space name (heap t) cache
      rw [trace, hentries, dump]
      cases dumpEntries (dump heap fuel) space name (heap t) cache with
      | none => rfl
      | some result =>
          simp only [Option.bind_eq_bind, Option.bind_some, pure, Option.map_some,
            concat_eq_join]

end Text

/-! ## The steps of a trace -/

section Steps
variable {ρ φ : Type} [LuaFloat φ] [DecidableEq ρ] {expand : Tracer ρ φ} {t : ρ}
  {space name : String} {k v : TValue ρ φ} {rest : List (TValue ρ φ × TValue ρ φ)} {more : Bool}
  {cache cache' : Cache ρ} {lines : List (Line ρ φ)}

theorem traceEntry_cases
    (h : traceEntry expand t space name k v more cache = some (lines, cache')) :
    (∃ r path, v = .table r ∧ cache r = some path ∧ cache' = cache ∧
      lines = [⟨t, space, name, k, .table r, .reference path⟩]) ∨
    (∃ r below, v = .table r ∧ cache r = none ∧
      lines = ⟨t, space, name, k, .table r, .expansion⟩ :: below ∧
      expand r (deeper space k.text more) (name ++ "." ++ k.text)
        (Function.update cache r (some (name ++ "." ++ k.text))) = some (below, cache')) ∨
    ((∀ r, v ≠ .table r) ∧ cache' = cache ∧ lines = [⟨t, space, name, k, v, .plain⟩]) := by
  cases v with
  | table r =>
      cases hr : cache r with
      | some path =>
          simp only [traceEntry, hr, Option.some.injEq, Prod.mk.injEq] at h
          exact .inl ⟨r, path, rfl, hr, h.2.symm, h.1.symm⟩
      | none =>
          simp only [traceEntry, hr] at h
          obtain ⟨⟨below, cache₁⟩, hexpand, heq⟩ := Option.map_eq_some_iff.mp h
          cases heq
          exact .inr (.inl ⟨r, below, rfl, hr, rfl, hexpand⟩)
  | _ =>
      cases h
      exact .inr (.inr ⟨fun _ => nofun, rfl, rfl⟩)

theorem traceEntries_cons
    (h : traceEntries expand t space name ((k, v) :: rest) cache = some (lines, cache')) :
    ∃ first cache₁ later,
      traceEntry expand t space name k v (hasNext rest) cache = some (first, cache₁) ∧
      traceEntries expand t space name rest cache₁ = some (later, cache') ∧
      lines = first ++ later := by
  obtain ⟨⟨first, cache₁⟩, hentry, hrest⟩ := Option.bind_eq_some_iff.mp h
  obtain ⟨⟨later, cache₂⟩, hlater, heq⟩ := Option.bind_eq_some_iff.mp hrest
  cases heq
  exact ⟨first, cache₁, later, hentry, hlater, rfl⟩

end Steps

/-! ## More fuel -/

section MoreFuel
variable {ρ φ : Type} [LuaFloat φ] [DecidableEq ρ] {expand expand' : Tracer ρ φ}

/-- Every result of the first tracer is one of the second. -/
def Within (expand expand' : Tracer ρ φ) : Prop :=
  ∀ t space name cache result, expand t space name cache = some result →
    expand' t space name cache = some result

theorem traceEntry_within (h : Within expand expand') {t : ρ} {space name : String}
    {k v : TValue ρ φ} {more : Bool} {cache cache' : Cache ρ} {lines : List (Line ρ φ)}
    (hentry : traceEntry expand t space name k v more cache = some (lines, cache')) :
    traceEntry expand' t space name k v more cache = some (lines, cache') := by
  cases v with
  | table r =>
      cases hr : cache r with
      | some path =>
          rw [← hentry]
          simp only [traceEntry, hr]
      | none =>
          simp only [traceEntry, hr] at hentry ⊢
          obtain ⟨result, hexpand, heq⟩ := Option.map_eq_some_iff.mp hentry
          rw [h _ _ _ _ _ hexpand, Option.map_some, heq]
  | _ => exact hentry

theorem traceEntries_within (h : Within expand expand') {t : ρ} {space name : String} :
    ∀ (entries : List (TValue ρ φ × TValue ρ φ)) (cache cache' : Cache ρ)
      (lines : List (Line ρ φ)),
      traceEntries expand t space name entries cache = some (lines, cache') →
        traceEntries expand' t space name entries cache = some (lines, cache') := by
  intro entries
  induction entries with
  | nil => intro cache cache' lines hentries; exact hentries
  | cons entry rest ih =>
      intro cache cache' lines hentries
      obtain ⟨first, cache₁, later, hfirst, hlater, rfl⟩ := traceEntries_cons hentries
      simp only [traceEntries, traceEntry_within h hfirst, ih _ _ _ hlater, Option.bind_eq_bind,
        Option.bind_some, pure]

theorem trace_succ (heap : Heap ρ φ) : ∀ fuel,
    Within (trace heap fuel) (trace heap (fuel + 1)) := by
  intro fuel
  induction fuel with
  | zero => intro _ _ _ _ _ h; cases h
  | succ fuel ih =>
      intro t space name cache result h
      exact traceEntries_within ih _ _ _ _ h

theorem trace_more (heap : Heap ρ φ) {fuel fuel' : Nat} (hle : fuel ≤ fuel') :
    Within (trace heap fuel) (trace heap fuel') := by
  induction hle with
  | refl => intro _ _ _ _ _ h; exact h
  | step _ ih => intro _ _ _ _ _ h; exact trace_succ heap _ _ _ _ _ _ (ih _ _ _ _ _ h)

theorem trace_root [Fintype ρ] (heap : Heap ρ φ) (root : ρ) (name : String) :
    ∃ lines cache, ∀ fuel, Fintype.card ρ ≤ fuel →
      trace heap fuel root "" name (rootCache root) = some (lines, cache) := by
  have hdump := dump_root_isSome heap root name
  rw [dump_eq_trace, Option.isSome_map] at hdump
  obtain ⟨⟨lines, cache⟩, htrace⟩ := Option.isSome_iff_exists.mp hdump
  exact ⟨lines, cache, fun fuel hfuel => trace_more heap hfuel _ _ _ _ _ htrace⟩

end MoreFuel

/-! ## The cache while the lines are printed -/

section Recording
variable {ρ φ : Type} [DecidableEq ρ]

def markOf (cache : Cache ρ) : TValue ρ φ → Mark
  | .table r =>
      match cache r with
      | some path => .reference path
      | none => .expansion
  | _ => .plain

variable [LuaFloat φ]

def Line.record (cache : Cache ρ) (line : Line ρ φ) : Cache ρ :=
  match line.mark, line.child with
  | .expansion, some r => Function.update cache r (some line.path)
  | _, _ => cache

def recorded (cache : Cache ρ) (lines : List (Line ρ φ)) : Cache ρ := lines.foldl Line.record cache

/-- Every line prints what the cache makes of its value when its turn comes. -/
def Marked : Cache ρ → List (Line ρ φ) → Prop
  | _, [] => True
  | cache, line :: rest =>
      line.mark = markOf cache line.value ∧ Marked (line.record cache) rest

variable {cache : Cache ρ} {line : Line ρ φ} {lines lines' : List (Line ρ φ)}

theorem recorded_append :
    recorded cache (lines ++ lines') = recorded (recorded cache lines) lines' :=
  List.foldl_append

theorem marked_append :
    Marked cache (lines ++ lines') ↔ Marked cache lines ∧ Marked (recorded cache lines) lines' := by
  induction lines generalizing cache with
  | nil => exact (and_iff_right trivial).symm
  | cons line lines ih =>
      rw [List.cons_append, Marked, Marked, ih, and_assoc]
      rfl

theorem line_cases (h : line.mark = markOf cache line.value) :
    (∃ r, line.child = some r ∧ cache r = none ∧ line.mark = .expansion ∧
      line.record cache = Function.update cache r (some line.path)) ∨
    (∃ r path, line.child = some r ∧ cache r = some path ∧ line.mark = .reference path ∧
      line.record cache = cache) ∨
    (line.child = none ∧ line.mark = .plain ∧ line.record cache = cache) := by
  cases hv : line.value with
  | table r =>
      have hchild : line.child = some r := Line.child_eq_some.mpr hv
      cases hr : cache r with
      | none =>
          have hmark : line.mark = .expansion := by rw [h, hv, markOf, hr]
          exact .inl ⟨r, hchild, hr, hmark, by rw [Line.record, hmark, hchild]⟩
      | some path =>
          have hmark : line.mark = .reference path := by rw [h, hv, markOf, hr]
          exact .inr (.inl ⟨r, path, hchild, hr, hmark, by rw [Line.record, hmark]⟩)
  | _ =>
      have hmark : line.mark = .plain := by rw [h, hv]; rfl
      exact .inr (.inr ⟨by rw [Line.child, hv], hmark, by rw [Line.record, hmark]⟩)

theorem record_apply (h : line.mark = markOf cache line.value) (r : ρ) :
    line.record cache r = (cache r).or (if line.child = some r then some line.path else none) := by
  rcases line_cases h with ⟨s, hchild, hs, _, hrecord⟩ | ⟨s, path, hchild, hs, _, hrecord⟩ |
    ⟨hchild, _, hrecord⟩
  · rw [hrecord, hchild]
    by_cases hrs : r = s
    · rw [hrs, Function.update_self, hs, if_pos rfl, Option.none_or]
    · rw [Function.update_of_ne hrs, if_neg fun heq => hrs (Option.some.inj heq).symm,
        Option.or_none]
  · rw [hrecord, hchild]
    by_cases hrs : r = s
    · rw [hrs, hs, Option.some_or]
    · rw [if_neg fun heq => hrs (Option.some.inj heq).symm, Option.or_none]
  · rw [hrecord, hchild, if_neg (by simp), Option.or_none]

/-- A table is recorded by the first line that has it as its value. -/
theorem recorded_apply (h : Marked cache lines) (r : ρ) :
    recorded cache lines r =
      (cache r).or ((lines.find? fun line => line.child = some r).map Line.path) := by
  induction lines generalizing cache with
  | nil => exact (Option.or_none ..).symm
  | cons line lines ih =>
      have hstep := record_apply h.1 r
      calc recorded cache (line :: lines) r
          = (line.record cache r).or
              ((lines.find? fun line => line.child = some r).map Line.path) := ih h.2
        _ = _ := by
            rw [hstep, List.find?_cons, Option.or_assoc]
            by_cases hchild : line.child = some r <;> simp [hchild]

theorem Marked.extends (h : Marked cache lines) : Extends cache (recorded cache lines) := by
  intro r path hr
  rw [recorded_apply h, hr, Option.some_or]

omit [DecidableEq ρ] [LuaFloat φ] in
theorem expansions_cons_expansion {r : ρ} (hmark : line.mark = .expansion)
    (hchild : line.child = some r) : expansions (line :: lines) = r :: expansions lines := by
  simp [expansions, hmark, hchild]

omit [DecidableEq ρ] [LuaFloat φ] in
theorem expansions_cons_of_ne (hmark : line.mark ≠ .expansion) :
    expansions (line :: lines) = expansions lines := by
  simp [expansions, hmark]

theorem Marked.mem_expansions (h : Marked cache lines) (r : ρ) :
    r ∈ expansions lines ↔ cache r = none ∧ (recorded cache lines r).isSome = true := by
  induction lines generalizing cache with
  | nil =>
      rw [recorded, List.foldl_nil, Option.isSome_iff_ne_none]
      exact iff_of_false List.not_mem_nil fun hr => hr.2 hr.1
  | cons line lines ih =>
      have hrest := ih h.2
      have hextends := h.2.extends
      change _ ↔ cache r = none ∧ (recorded (line.record cache) lines r).isSome = true
      rcases line_cases h.1 with ⟨s, hchild, hs, hmark, hrecord⟩ |
        ⟨s, path, hchild, hs, hmark, hrecord⟩ | ⟨hchild, hmark, hrecord⟩
      · rw [expansions_cons_expansion hmark hchild, List.mem_cons, hrest]
        rw [hrecord] at hextends ⊢
        by_cases hrs : r = s
        · have hsome := hextends.isSome (r := s) (by rw [Function.update_self]; rfl)
          simp [hrs, hs, hsome]
        · rw [Function.update_of_ne hrs]
          simp [hrs]
      · rw [expansions_cons_of_ne (by simp [hmark]), hrest, hrecord]
      · rw [expansions_cons_of_ne (by simp [hmark]), hrest, hrecord]

theorem Marked.nodup_expansions (h : Marked cache lines) : (expansions lines).Nodup := by
  induction lines generalizing cache with
  | nil => exact List.nodup_nil
  | cons line lines ih =>
      have hrest := ih h.2
      rcases line_cases h.1 with ⟨s, hchild, hs, hmark, hrecord⟩ | ⟨_, _, _, _, hmark, _⟩ |
        ⟨_, hmark, _⟩
      · rw [expansions_cons_expansion hmark hchild, List.nodup_cons]
        refine ⟨fun hmem => ?_, hrest⟩
        have hnone := ((h.2.mem_expansions s).mp hmem).1
        rw [hrecord, Function.update_self] at hnone
        cases hnone
      · rwa [expansions_cons_of_ne (by simp [hmark])]
      · rwa [expansions_cons_of_ne (by simp [hmark])]

end Recording

/-! ## Which entries are printed -/

section Traced
variable {ρ φ : Type} [LuaFloat φ] [DecidableEq ρ]

/-- The lines printed for some entries of the table `t`, from the cache `old` to `new`: these
entries, and those of every table recorded in between. -/
structure Traced (heap : Heap ρ φ) (t : ρ) (name : String)
    (entries : List (TValue ρ φ × TValue ρ φ)) (old : Cache ρ) (lines : List (Line ρ φ))
    (new : Cache ρ) : Prop where
  marked : Marked old lines
  recorded : new = recorded old lines
  own : entriesOf t lines = entries
  others : ∀ r, r ≠ t →
    entriesOf r lines = if old r = none ∧ (new r).isSome = true then heap r else []
  reached : ∀ line ∈ lines, Reaches heap t line.table
  names : ∀ line ∈ lines, if line.table = t then line.name = name
    else new line.table = some line.name

/-- The lines of a tracer are those of the whole table, which is recorded before. -/
def Tracing (heap : Heap ρ φ) (expand : Tracer ρ φ) : Prop :=
  ∀ t space name cache lines cache', (cache t).isSome = true →
    expand t space name cache = some (lines, cache') →
      Traced heap t name (heap t) cache lines cache'

variable {heap : Heap ρ φ} {t : ρ} {space name : String} {k v : TValue ρ φ} {more : Bool}
  {old mid new : Cache ρ} {lines lines' : List (Line ρ φ)}
  {entries entries' : List (TValue ρ φ × TValue ρ φ)}

omit [LuaFloat φ] in
theorem entry_mem_entriesOf {line : Line ρ φ} (h : line ∈ lines) :
    line.entry ∈ entriesOf line.table lines :=
  List.mem_map_of_mem (List.mem_filter.mpr ⟨h, decide_eq_true rfl⟩)

omit [LuaFloat φ] in
theorem entriesOf_append (r : ρ) :
    entriesOf r (lines ++ lines') = entriesOf r lines ++ entriesOf r lines' := by
  simp only [entriesOf, List.filter_append, List.map_append]

omit [LuaFloat φ] in
theorem entriesOf_cons_self (line : Line ρ φ) :
    entriesOf line.table (line :: lines) = line.entry :: entriesOf line.table lines := by
  simp [entriesOf]

omit [LuaFloat φ] in
theorem entriesOf_cons_of_ne {line : Line ρ φ} {r : ρ} (h : line.table ≠ r) :
    entriesOf r (line :: lines) = entriesOf r lines := by
  simp [entriesOf, h]

theorem Traced.extends (h : Traced heap t name entries old lines new) : Extends old new := by
  rw [h.recorded]
  exact h.marked.extends

theorem Traced.append (h : Traced heap t name entries old lines mid)
    (h' : Traced heap t name entries' mid lines' new) :
    Traced heap t name (entries ++ entries') old (lines ++ lines') new where
  marked := marked_append.mpr ⟨h.marked, by rw [← h.recorded]; exact h'.marked⟩
  recorded := by rw [recorded_append, ← h.recorded, h'.recorded]
  own := by rw [entriesOf_append, h.own, h'.own]
  others r hr := by
    rw [entriesOf_append, h.others r hr, h'.others r hr]
    cases hold : old r with
    | some path =>
        have hmid := h.extends r path hold
        simp [hmid]
    | none =>
        cases hmid : mid r with
        | some path =>
            have hnew := h'.extends r path hmid
            simp [hnew]
        | none => simp
  reached line hline := by
    rcases List.mem_append.mp hline with hline | hline
    · exact h.reached line hline
    · exact h'.reached line hline
  names line hline := by
    rcases List.mem_append.mp hline with hline | hline
    · have hname := h.names line hline
      by_cases htable : line.table = t
      · rwa [if_pos htable] at hname ⊢
      · rw [if_neg htable] at hname ⊢
        exact h'.extends _ _ hname
    · exact h'.names line hline

theorem Traced.single (mark : Mark) (hmark : mark = markOf old v) (hplain : mark ≠ .expansion) :
    Traced heap t name [(k, v)] old [⟨t, space, name, k, v, mark⟩] old where
  marked := ⟨hmark, trivial⟩
  recorded := by
    cases mark with
    | expansion => exact absurd rfl hplain
    | _ => rfl
  own := by simp [entriesOf, Line.entry]
  others r hr := by
    cases hold : old r <;> simp [entriesOf, hr.symm]
  reached line hline := by
    cases List.mem_singleton.mp hline
    exact .refl
  names line hline := by
    cases List.mem_singleton.mp hline
    rw [if_pos rfl]

theorem Traced.below {r : ρ} (ht : (old t).isSome = true) (hr : old r = none)
    (hentry : (k, .table r) ∈ heap t)
    (h : Traced heap r (name ++ "." ++ k.text) (heap r)
      (Function.update old r (some (name ++ "." ++ k.text))) lines new) :
    Traced heap t name [(k, .table r)] old
      (⟨t, space, name, k, .table r, .expansion⟩ :: lines) new := by
  have hne : t ≠ r := by
    rintro rfl
    rw [hr] at ht
    cases ht
  have hnew : new r = some (name ++ "." ++ k.text) := h.extends _ _ (Function.update_self ..)
  have hbelow : entriesOf t lines = [] := by
    rw [h.others t hne, Function.update_of_ne hne, if_neg fun hnone => by simp [hnone.1] at ht]
  constructor
  · exact ⟨by simp only [markOf, hr], h.marked⟩
  · exact h.recorded
  · exact (entriesOf_cons_self _).trans (by rw [hbelow, Line.entry])
  · intro s hs
    rw [entriesOf_cons_of_ne hs.symm]
    by_cases hsr : s = r
    · rw [hsr, h.own, hnew, if_pos ⟨hr, rfl⟩]
    · rw [h.others s hsr, Function.update_of_ne hsr]
  · intro line hline
    rcases List.mem_cons.mp hline with rfl | hline
    · exact .refl
    · exact .head ⟨k, hentry⟩ (h.reached line hline)
  · intro line hline
    rcases List.mem_cons.mp hline with rfl | hline
    · rw [if_pos rfl]
    · have hname := h.names line hline
      rw [if_neg fun ht => List.ne_nil_of_mem (ht ▸ entry_mem_entriesOf hline) hbelow]
      split at hname
      · rename_i htable
        rw [htable, hname, hnew]
      · exact hname

variable {expand : Tracer ρ φ}

theorem traceEntry_traced (hexpand : Tracing heap expand) (ht : (old t).isSome = true)
    (hentry : (k, v) ∈ heap t)
    (h : traceEntry expand t space name k v more old = some (lines, new)) :
    Traced heap t name [(k, v)] old lines new := by
  rcases traceEntry_cases h with ⟨r, path, rfl, hr, rfl, rfl⟩ | ⟨r, below, rfl, hr, rfl, hrun⟩ |
    ⟨hscalar, rfl, rfl⟩
  · exact Traced.single _ (by simp only [markOf, hr]) (by simp)
  · exact Traced.below ht hr hentry
      (hexpand _ _ _ _ _ _ (by rw [Function.update_self]; rfl) hrun)
  · refine Traced.single _ ?_ (by simp)
    cases v with
    | table r => exact absurd rfl (hscalar r)
    | _ => rfl

theorem traceEntries_traced (hexpand : Tracing heap expand) :
    ∀ (entries : List (TValue ρ φ × TValue ρ φ)) (old new : Cache ρ) (lines : List (Line ρ φ)),
      (old t).isSome = true → entries ⊆ heap t →
        traceEntries expand t space name entries old = some (lines, new) →
          Traced heap t name entries old lines new := by
  intro entries
  induction entries with
  | nil =>
      intro old new lines _ _ h
      cases h
      refine ⟨trivial, rfl, rfl, fun r _ => ?_, by simp, by simp⟩
      cases old r <;> rfl
  | cons entry rest ih =>
      intro old new lines ht hentries h
      obtain ⟨first, mid, later, hfirst, hlater, rfl⟩ := traceEntries_cons h
      have hone := traceEntry_traced hexpand ht (hentries List.mem_cons_self) hfirst
      exact hone.append (ih _ _ _ (hone.extends.isSome ht)
        (List.subset_of_cons_subset hentries) hlater)

theorem trace_tracing (heap : Heap ρ φ) : ∀ fuel, Tracing heap (trace heap fuel) := by
  intro fuel
  induction fuel with
  | zero => intro _ _ _ _ _ _ _ h; cases h
  | succ fuel ih =>
      intro t space name cache lines cache' ht h
      exact traceEntries_traced ih _ _ _ _ ht (List.Subset.refl _) h

end Traced

/-! ## A whole dump -/

section Whole
variable {ρ φ : Type} [LuaFloat φ] [DecidableEq ρ] {heap : Heap ρ φ} {root : ρ} {name : String}
  {lines : List (Line ρ φ)} {cache : Cache ρ}

/-- The lines of a dump: the tables in reach are expanded, each once and with all its entries, and
a table that was met before stands as the path of that place. -/
structure ExpandsOnce (heap : Heap ρ φ) (root : ρ) (name : String) (lines : List (Line ρ φ)) :
    Prop where
  once : (root :: expansions lines).Nodup
  all : ∀ r, r ∈ root :: expansions lines ↔ Reaches heap root r
  entries : ∀ r, Reaches heap root r → entriesOf r lines = heap r
  only : ∀ line ∈ lines, Reaches heap root line.table
  names : ∀ line ∈ lines, if line.table = root then line.name = name
    else firstPath root lines line.table = some line.name
  marks : ∀ before line after, lines = before ++ line :: after → ∀ r, line.value = .table r →
    line.mark = match firstPath root before r with
      | some path => .reference path
      | none => .expansion

theorem rootCache_of_ne {r : ρ} (h : r ≠ root) : rootCache root r = none :=
  Function.update_of_ne h ..

theorem firstPath_eq (h : Marked (rootCache root) lines) (r : ρ) :
    firstPath root lines r = recorded (rootCache root) lines r := by
  rw [recorded_apply h, firstPath]
  split
  · rename_i hroot
    rw [hroot, rootCache_root, Option.some_or]
  · rename_i hroot
    rw [rootCache_of_ne hroot, Option.none_or]

theorem mem_root_expansions (h : Marked (rootCache root) lines) (r : ρ) :
    r ∈ root :: expansions lines ↔ (recorded (rootCache root) lines r).isSome = true := by
  rw [List.mem_cons, h.mem_expansions]
  by_cases hroot : r = root
  · have hsome := h.extends.isSome (r := root) (by rw [rootCache_root]; rfl)
    simp [hroot, hsome]
  · simp [hroot, rootCache_of_ne hroot]

theorem Marked.value_recorded {old : Cache ρ} (h : Marked old lines) {line : Line ρ φ}
    (hline : line ∈ lines) {r : ρ} (hr : line.value = .table r) :
    (recorded old lines r).isSome = true := by
  have hfound : (lines.find? fun line => line.child = some r).isSome = true :=
    List.find?_isSome.mpr ⟨line, hline, decide_eq_true (Line.child_eq_some.mpr hr)⟩
  rw [recorded_apply h, Option.isSome_or, Option.isSome_map, hfound, Bool.or_true]

theorem Traced.entries_of_recorded
    (h : Traced heap root name (heap root) (rootCache root) lines cache) {r : ρ}
    (hr : (cache r).isSome = true) : entriesOf r lines = heap r := by
  by_cases hroot : r = root
  · rw [hroot, h.own]
  · rw [h.others r hroot, if_pos ⟨rootCache_of_ne hroot, hr⟩]

theorem Traced.entry_mem (h : Traced heap root name (heap root) (rootCache root) lines cache)
    {line : Line ρ φ} (hline : line ∈ lines) : line.entry ∈ heap line.table := by
  have hmem := entry_mem_entriesOf hline
  by_cases hroot : line.table = root
  · rwa [hroot, h.own, ← hroot] at hmem
  · rw [h.others _ hroot] at hmem
    split at hmem
    · exact hmem
    · cases hmem

theorem Traced.recorded_iff (h : Traced heap root name (heap root) (rootCache root) lines cache)
    (r : ρ) : (cache r).isSome = true ↔ Reaches heap root r := by
  constructor
  · intro hr
    rw [h.recorded, recorded_apply h.marked, Option.isSome_or] at hr
    by_cases hroot : r = root
    · rw [hroot]
    · rw [rootCache_of_ne hroot, Option.isSome_none, Bool.false_or, Option.isSome_map] at hr
      obtain ⟨line, hline, hchild⟩ := List.find?_isSome.mp hr
      have hvalue : line.value = .table r := Line.child_eq_some.mp (of_decide_eq_true hchild)
      exact (h.reached line hline).tail ⟨line.key, hvalue ▸ h.entry_mem hline⟩
  · intro hreach
    induction hreach with
    | refl => exact h.extends.isSome (by rw [rootCache_root]; rfl)
    | tail _ hstep ih =>
        obtain ⟨k, hk⟩ := hstep
        rw [← h.entries_of_recorded ih] at hk
        obtain ⟨line, hline, heq⟩ := List.mem_map.mp hk
        rw [h.recorded]
        exact h.marked.value_recorded (List.mem_of_mem_filter hline) (Prod.mk.inj heq).2

theorem Traced.expandsOnce (h : Traced heap root name (heap root) (rootCache root) lines cache) :
    ExpandsOnce heap root name lines where
  once := by
    refine List.nodup_cons.mpr ⟨fun hroot => ?_, h.marked.nodup_expansions⟩
    have hnone := ((h.marked.mem_expansions root).mp hroot).1
    rw [rootCache_root] at hnone
    cases hnone
  all r := by rw [mem_root_expansions h.marked, ← h.recorded, h.recorded_iff]
  entries r hr := h.entries_of_recorded ((h.recorded_iff r).mpr hr)
  only := h.reached
  names line hline := by
    have hname := h.names line hline
    rwa [h.recorded, ← firstPath_eq h.marked] at hname
  marks before line after hlines r hr := by
    have hmarked := h.marked
    rw [hlines, marked_append] at hmarked
    rw [hmarked.2.1, hr, markOf, firstPath_eq hmarked.1]

/-- A dump ends with whatever fuel is left, and its text is that of lines in which the tables in
reach are expanded once each. -/
theorem dump_expands_once [Fintype ρ] (heap : Heap ρ φ) (root : ρ) (name : String) :
    ∃ lines cache, (∀ fuel, Fintype.card ρ ≤ fuel →
        trace heap fuel root "" name (rootCache root) = some (lines, cache) ∧
          dump heap fuel root "" name (rootCache root) = some (printed lines, cache)) ∧
      dumpText heap root name = printed lines ∧ ExpandsOnce heap root name lines := by
  obtain ⟨lines, cache, htrace⟩ := trace_root heap root name
  have hdump : ∀ fuel, Fintype.card ρ ≤ fuel →
      dump heap fuel root "" name (rootCache root) = some (printed lines, cache) := by
    intro fuel hfuel
    rw [dump_eq_trace heap fuel, htrace fuel hfuel, Option.map_some]
  refine ⟨lines, cache, fun fuel hfuel => ⟨htrace fuel hfuel, hdump fuel hfuel⟩, ?_, ?_⟩
  · obtain ⟨cache', htext⟩ := dump_dumpText heap root name
    rw [hdump _ le_rfl] at htext
    exact (Prod.mk.inj (Option.some.inj htext)).1.symm
  · exact (trace_tracing heap _ _ _ _ _ _ _ (by rw [rootCache_root]; rfl)
      (htrace _ le_rfl)).expandsOnce

end Whole

end Doudizhu.Log
