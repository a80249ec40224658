import Doudizhu.Lua.Format
import Mathlib.Data.Fintype.Card
import Mathlib.Logic.Function.Basic
import Mathlib.Logic.Relation

/-! # The dump of a table

`_dump` of `log.lua` goes through a table depth first.  The cache holds the path under which each
table was first met, and a table met again is printed as that path.  The recursion takes fuel; a
table is recorded before it is dumped, so fuel for every table is enough. -/

set_option autoImplicit false

namespace Doudizhu.Log

open Lua

abbrev Cache (ρ : Type) := ρ → Option String

/-- `_dump(t, space, name)`: the text and the cache afterwards; `none` when the fuel is used up. -/
abbrev Dumper (ρ : Type) := ρ → String → String → Cache ρ → Option (String × Cache ρ)

section Dump
variable {ρ φ : Type} [LuaFloat φ] [DecidableEq ρ]

def hasNext : List (TValue ρ φ × TValue ρ φ) → Bool
  | [] => false
  | (k, _) :: _ => !k.isFalse

def deeper (space key : String) (more : Bool) : String :=
  space ++ (if more then "|" else " ") ++ String.ofList (List.replicate key.utf8ByteSize ' ')

def dumpEntry (expand : Dumper ρ) (space name : String) (k v : TValue ρ φ) (more : Bool)
    (cache : Cache ρ) : Option (String × Cache ρ) :=
  match v with
  | .table r =>
      match cache r with
      | some path => some ("+" ++ k.text ++ " \x7b" ++ path ++ "\x7d", cache)
      | none =>
          let newKey := name ++ "." ++ k.text
          (expand r (deeper space k.text more) newKey
              (Function.update cache r (some newKey))).map fun result =>
            ("+" ++ k.text ++ result.1, result.2)
  | v => some ("+" ++ k.text ++ " [" ++ v.text ++ "]", cache)

def dumpEntries (expand : Dumper ρ) (space name : String) :
    List (TValue ρ φ × TValue ρ φ) → Cache ρ → Option (List String × Cache ρ)
  | [], cache => some ([], cache)
  | (k, v) :: rest, cache => do
      let (line, cache) ← dumpEntry expand space name k v (hasNext rest) cache
      let (lines, cache) ← dumpEntries expand space name rest cache
      return (line :: lines, cache)

def dump (heap : Heap ρ φ) : Nat → Dumper ρ
  | 0, _, _, _, _ => none
  | fuel + 1, t, space, name, cache => do
      let (temp, cache) ← dumpEntries (dump heap fuel) space name (heap t) cache
      return (("\n" ++ space).intercalate ("" :: temp), cache)

def rootCache (root : ρ) : Cache ρ := Function.update (fun _ => none) root (some ".")

omit [LuaFloat φ] in
theorem rootCache_root (root : ρ) : rootCache root root = some "." := Function.update_self ..

end Dump

/-! ## The steps of a dump -/

section Steps
variable {ρ φ : Type} [LuaFloat φ] [DecidableEq ρ] {expand : Dumper ρ} {space name : String}
  {k v : TValue ρ φ} {rest : List (TValue ρ φ × TValue ρ φ)} {more : Bool}
  {cache cache' : Cache ρ} {line : String} {lines : List String}

/-- An entry is expanded when it is a table met for the first time. -/
theorem dumpEntry_cases (h : dumpEntry expand space name k v more cache = some (line, cache')) :
    (∃ r path, v = .table r ∧ cache r = some path ∧ cache' = cache ∧
      line = "+" ++ k.text ++ " \x7b" ++ path ++ "\x7d") ∨
    (∃ r text, v = .table r ∧ cache r = none ∧ line = "+" ++ k.text ++ text ∧
      expand r (deeper space k.text more) (name ++ "." ++ k.text)
        (Function.update cache r (some (name ++ "." ++ k.text))) = some (text, cache')) ∨
    ((∀ r, v ≠ .table r) ∧ cache' = cache ∧ line = "+" ++ k.text ++ " [" ++ v.text ++ "]") := by
  cases v with
  | table r =>
      cases hr : cache r with
      | some path =>
          simp only [dumpEntry, hr, Option.some.injEq, Prod.mk.injEq] at h
          exact .inl ⟨r, path, rfl, hr, h.2.symm, h.1.symm⟩
      | none =>
          simp only [dumpEntry, hr] at h
          obtain ⟨⟨text, cache₁⟩, hexpand, heq⟩ := Option.map_eq_some_iff.mp h
          cases heq
          exact .inr (.inl ⟨r, text, rfl, hr, rfl, hexpand⟩)
  | _ =>
      cases h
      exact .inr (.inr ⟨fun _ => nofun, rfl, rfl⟩)

theorem dumpEntries_cons
    (h : dumpEntries expand space name ((k, v) :: rest) cache = some (lines, cache')) :
    ∃ line cache₁ later, dumpEntry expand space name k v (hasNext rest) cache =
        some (line, cache₁) ∧
      dumpEntries expand space name rest cache₁ = some (later, cache') ∧ lines = line :: later := by
  obtain ⟨⟨line, cache₁⟩, hentry, hrest⟩ := Option.bind_eq_some_iff.mp h
  obtain ⟨⟨later, cache₂⟩, hlater, heq⟩ := Option.bind_eq_some_iff.mp hrest
  cases heq
  exact ⟨line, cache₁, later, hentry, hlater, rfl⟩

theorem dump_succ {heap : Heap ρ φ} {fuel : Nat} {t : ρ} {text : String}
    (h : dump heap (fuel + 1) t space name cache = some (text, cache')) :
    ∃ temp, dumpEntries (dump heap fuel) space name (heap t) cache = some (temp, cache') ∧
      text = ("\n" ++ space).intercalate ("" :: temp) := by
  obtain ⟨⟨temp, cache₁⟩, hentries, heq⟩ := Option.bind_eq_some_iff.mp h
  cases heq
  exact ⟨temp, hentries, rfl⟩

end Steps

/-- `table.concat(temp, sep)`, whose first part is the empty text. -/
theorem toList_concat (sep : String) : ∀ lines : List String,
    (sep.intercalate ("" :: lines)).toList =
      lines.flatMap fun line => sep.toList ++ line.toList := by
  intro lines
  have hconcat : ∀ first, (sep.intercalate (first :: lines)).toList =
      first.toList ++ lines.flatMap fun line => sep.toList ++ line.toList := by
    induction lines with
    | nil => intro first; simp
    | cons line lines ih =>
        intro first
        rw [String.intercalate_cons_cons, String.toList_append, String.toList_append, ih,
          List.flatMap_cons, List.append_assoc, List.append_assoc]
  exact hconcat ""

/-! ## Enough fuel -/

section Fuel
variable {ρ φ : Type} [LuaFloat φ] [DecidableEq ρ]

/-- What is recorded stays recorded under the same path. -/
def Extends (old new : Cache ρ) : Prop := ∀ r path, old r = some path → new r = some path

omit [DecidableEq ρ] in
theorem Extends.trans {old mid new : Cache ρ} (h : Extends old mid) (h' : Extends mid new) :
    Extends old new := fun r path hr => h' r path (h r path hr)

theorem extends_update {cache : Cache ρ} {r : ρ} (path : String) (h : cache r = none) :
    Extends cache (Function.update cache r (some path)) := by
  intro s p hs
  have hne : s ≠ r := by
    rintro rfl
    rw [h] at hs
    cases hs
  exact (Function.update_of_ne hne ..).trans hs

/-- Every result of the dumper extends the cache. -/
def Extending (expand : Dumper ρ) : Prop :=
  ∀ t space name cache text cache', expand t space name cache = some (text, cache') →
    Extends cache cache'

variable {expand : Dumper ρ} {space name : String} {k v : TValue ρ φ} {more : Bool}
  {cache cache' : Cache ρ}

theorem dumpEntry_extends (hexpand : Extending expand) {line : String}
    (h : dumpEntry expand space name k v more cache = some (line, cache')) :
    Extends cache cache' := by
  rcases dumpEntry_cases h with ⟨_, _, _, _, rfl, _⟩ | ⟨r, text, _, hr, _, hrun⟩ | ⟨_, rfl, _⟩
  · exact fun _ _ hs => hs
  · exact (extends_update _ hr).trans (hexpand _ _ _ _ _ _ hrun)
  · exact fun _ _ hs => hs

theorem dumpEntries_extends (hexpand : Extending expand) :
    ∀ (entries : List (TValue ρ φ × TValue ρ φ)) (cache cache' : Cache ρ) (lines : List String),
      dumpEntries expand space name entries cache = some (lines, cache') →
        Extends cache cache' := by
  intro entries
  induction entries with
  | nil =>
      intro cache cache' lines h
      cases h
      exact fun _ _ hs => hs
  | cons entry rest ih =>
      intro cache cache' lines h
      obtain ⟨line, cache₁, later, hentry, hlater, _⟩ := dumpEntries_cons h
      exact (dumpEntry_extends hexpand hentry).trans (ih _ _ _ hlater)

theorem dump_extending (heap : Heap ρ φ) : ∀ fuel, Extending (dump heap fuel) := by
  intro fuel
  induction fuel with
  | zero => intro _ _ _ _ _ _ h; cases h
  | succ fuel ih =>
      intro t space name cache text cache' h
      obtain ⟨temp, hentries, _⟩ := dump_succ h
      exact dumpEntries_extends ih _ _ _ _ hentries

variable [Fintype ρ]

def uncached (cache : Cache ρ) : Finset ρ := {r | cache r = none}

omit [DecidableEq ρ] in
theorem uncached_subset {old new : Cache ρ} (h : Extends old new) :
    uncached new ⊆ uncached old := by
  intro r hr
  simp only [uncached, Finset.mem_filter, Finset.mem_univ, true_and] at hr ⊢
  cases hold : old r with
  | none => rfl
  | some path =>
      rw [h r path hold] at hr
      cases hr

theorem uncached_update {cache : Cache ρ} {r : ρ} (path : String) (h : cache r = none) :
    (uncached (Function.update cache r (some path))).card < (uncached cache).card := by
  refine Finset.card_lt_card ((Finset.ssubset_iff_of_subset
    (uncached_subset (extends_update path h))).mpr ⟨r, ?_, ?_⟩)
  · simp [uncached, h]
  · simp [uncached]

/-- The dumper has fuel for `n` more tables. -/
def Fuelled (expand : Dumper ρ) (n : Nat) : Prop :=
  ∀ t space name cache, (uncached cache).card < n → (expand t space name cache).isSome = true

theorem dumpEntry_isSome {n : Nat} (hexpand : Fuelled expand n) (space name : String)
    (k v : TValue ρ φ) (more : Bool) (hcache : (uncached cache).card ≤ n) :
    (dumpEntry expand space name k v more cache).isSome = true := by
  unfold dumpEntry
  split
  · rename_i r
    split
    · rfl
    · rename_i hr
      rw [Option.isSome_map]
      exact hexpand _ _ _ _ (Nat.lt_of_lt_of_le (uncached_update _ hr) hcache)
  · rfl

theorem dumpEntries_isSome {n : Nat} (hexpand : Fuelled expand n) (hextend : Extending expand)
    (space name : String) :
    ∀ (entries : List (TValue ρ φ × TValue ρ φ)) (cache : Cache ρ), (uncached cache).card ≤ n →
      (dumpEntries expand space name entries cache).isSome = true := by
  intro entries
  induction entries with
  | nil => intro cache _; rfl
  | cons entry rest ih =>
      intro cache hcache
      obtain ⟨⟨line, cache₁⟩, hentry⟩ := Option.isSome_iff_exists.mp
        (dumpEntry_isSome hexpand space name entry.1 entry.2 (hasNext rest) hcache)
      have hle : (uncached cache₁).card ≤ n :=
        (Finset.card_le_card (uncached_subset (dumpEntry_extends hextend hentry))).trans hcache
      obtain ⟨⟨later, cache₂⟩, hlater⟩ := Option.isSome_iff_exists.mp (ih cache₁ hle)
      simp only [dumpEntries, hentry, hlater, Option.bind_eq_bind, Option.bind_some, pure,
        Option.isSome_some]

theorem dump_fuelled (heap : Heap ρ φ) : ∀ fuel, Fuelled (dump heap fuel) fuel := by
  intro fuel
  induction fuel with
  | zero => intro _ _ _ _ h; exact absurd h (Nat.not_lt_zero _)
  | succ fuel ih =>
      intro t space name cache h
      obtain ⟨⟨temp, cache'⟩, hentries⟩ := Option.isSome_iff_exists.mp
        (dumpEntries_isSome ih (dump_extending heap fuel) space name (heap t) cache
          (Nat.le_of_lt_succ h))
      simp only [dump, hentries, Option.bind_eq_bind, Option.bind_some, pure, Option.isSome_some]

theorem uncached_rootCache (root : ρ) :
    (uncached (rootCache root)).card < Fintype.card ρ := by
  refine Finset.card_lt_univ_of_notMem fun (hroot : root ∈ uncached (rootCache root)) => ?_
  have hnone := (Finset.mem_filter.mp hroot).2
  rw [rootCache_root] at hnone
  cases hnone

theorem dump_root_isSome (heap : Heap ρ φ) (root : ρ) (name : String) :
    (dump heap (Fintype.card ρ) root "" name (rootCache root)).isSome = true :=
  dump_fuelled heap _ _ _ _ _ (uncached_rootCache root)

/-- `_dump(root, "", name)`, with fuel for every table. -/
def dumpText (heap : Heap ρ φ) (root : ρ) (name : String) : String :=
  ((dump heap (Fintype.card ρ) root "" name (rootCache root)).get
    (dump_root_isSome heap root name)).1

theorem dump_dumpText (heap : Heap ρ φ) (root : ρ) (name : String) :
    ∃ cache, dump heap (Fintype.card ρ) root "" name (rootCache root) =
      some (dumpText heap root name, cache) :=
  ⟨_, (Option.some_get (dump_root_isSome heap root name)).symm⟩

theorem dumpText_lines (heap : Heap ρ φ) (root : ρ) (name : String) :
    ∃ fuel lines cache,
      dumpEntries (dump heap fuel) "" name (heap root) (rootCache root) = some (lines, cache) ∧
        (dumpText heap root name).toList = lines.flatMap fun line => '\n' :: line.toList := by
  obtain ⟨cache, hdump⟩ := dump_dumpText heap root name
  cases hcard : Fintype.card ρ with
  | zero =>
      rw [hcard] at hdump
      cases hdump
  | succ fuel =>
      rw [hcard] at hdump
      obtain ⟨lines, hentries, htext⟩ := dump_succ hdump
      exact ⟨fuel, lines, cache, hentries, htext ▸ toList_concat ..⟩

end Fuel

example : dumpText (ρ := Bool) (φ := Empty) (fun
    | true => [(.string "a", .table false), (.number (.integer 1), .string "x")]
    | false => [(.string "up", .table true), (.boolean false, .table false)]) true "t" =
    "\n+a\n| +up \x7b.\x7d\n| +false \x7bt.a\x7d\n+1 [x]" := by decide

/-! ## What a dump shows -/

section Shown
variable {ρ φ : Type} [LuaFloat φ] {heap : Heap ρ φ} {chars more' : List Char}
  {old mid new : Cache ρ}

/-- The key and the value can be read in the text, unless the value is a table: that is recorded
and shown elsewhere. -/
structure EntryShown (chars : List Char) (cache : Cache ρ)
    (entry : TValue ρ φ × TValue ρ φ) : Prop where
  key : entry.1.text.toList ⊆ chars
  value : (∀ r, entry.2 ≠ .table r) → entry.2.text.toList ⊆ chars
  table : ∀ r, entry.2 = .table r → (cache r).isSome = true

theorem Extends.isSome (h : Extends old new) {r : ρ} (hr : (old r).isSome = true) :
    (new r).isSome = true := by
  obtain ⟨path, hpath⟩ := Option.isSome_iff_exists.mp hr
  rw [h r path hpath]
  rfl

theorem EntryShown.mono {entry : TValue ρ φ × TValue ρ φ} (h : EntryShown chars old entry)
    (hchars : chars ⊆ more') (hcache : Extends old new) : EntryShown more' new entry where
  key := List.Subset.trans h.key hchars
  value hscalar := List.Subset.trans (h.value hscalar) hchars
  table r hr := hcache.isSome (h.table r hr)

/-- Shown are the given entries and those of every table recorded from `old` to `new`. -/
structure Shown (heap : Heap ρ φ) (entries : List (TValue ρ φ × TValue ρ φ)) (chars : List Char)
    (old new : Cache ρ) : Prop where
  own : ∀ entry ∈ entries, EntryShown chars new entry
  others : ∀ r, old r = none → (new r).isSome = true →
    ∀ entry ∈ heap r, EntryShown chars new entry

theorem Shown.unchanged {entries : List (TValue ρ φ × TValue ρ φ)}
    (own : ∀ entry ∈ entries, EntryShown chars old entry) : Shown heap entries chars old old where
  own := own
  others r hnone hsome := by
    rw [hnone] at hsome
    cases hsome

theorem Shown.append {first later : List (TValue ρ φ × TValue ρ φ)}
    (h : Shown heap first chars old mid) (h' : Shown heap later more' mid new)
    (hextends : Extends mid new) : Shown heap (first ++ later) (chars ++ more') old new where
  own entry hentry := by
    rcases List.mem_append.mp hentry with hentry | hentry
    · exact (h.own entry hentry).mono (List.subset_append_left ..) hextends
    · exact (h'.own entry hentry).mono (List.subset_append_right ..) fun _ _ hs => hs
  others r hnone hsome entry hentry := by
    cases hmid : mid r with
    | none =>
        exact (h'.others r hmid hsome entry hentry).mono (List.subset_append_right ..)
          fun _ _ hs => hs
    | some path =>
        exact (h.others r hnone (Option.isSome_of_eq_some hmid) entry hentry).mono
          (List.subset_append_left ..) hextends

theorem Shown.mono {entries : List (TValue ρ φ × TValue ρ φ)}
    (h : Shown heap entries chars old new) (hchars : chars ⊆ more') :
    Shown heap entries more' old new where
  own entry hentry := (h.own entry hentry).mono hchars fun _ _ hs => hs
  others r hnone hsome entry hentry :=
    (h.others r hnone hsome entry hentry).mono hchars fun _ _ hs => hs

variable [DecidableEq ρ]

/-- Every result of the dumper shows the table. -/
def Showing (heap : Heap ρ φ) (expand : Dumper ρ) : Prop :=
  ∀ t space name cache text cache', expand t space name cache = some (text, cache') →
    Shown heap (heap t) text.toList cache cache'

variable {expand : Dumper ρ} {space name : String} {k v : TValue ρ φ} {more : Bool}
  {cache cache' : Cache ρ}

theorem dumpEntry_shown (hexpand : Showing heap expand) (hextend : Extending expand)
    {line : String} (h : dumpEntry expand space name k v more cache = some (line, cache')) :
    Shown heap [(k, v)] line.toList cache cache' := by
  rcases dumpEntry_cases h with ⟨r, path, rfl, hr, rfl, rfl⟩ | ⟨r, text, rfl, hr, rfl, hrun⟩ |
    ⟨hscalar, rfl, rfl⟩
  · refine Shown.unchanged fun entry hentry => ?_
    cases List.mem_singleton.mp hentry
    refine ⟨?_, fun hscalar => absurd rfl (hscalar r), ?_⟩
    · simp [String.toList_append]
    · rintro s hs
      cases hs
      rw [hr]
      rfl
  · have hshown := hexpand _ _ _ _ _ _ hrun
    have hchars : text.toList ⊆ ("+" ++ k.text ++ text).toList := by
      rw [String.toList_append]
      exact List.subset_append_right ..
    constructor
    · intro entry hentry
      cases List.mem_singleton.mp hentry
      refine ⟨?_, fun hscalar => absurd rfl (hscalar r), ?_⟩
      · simp [String.toList_append]
      · rintro s hs
        cases hs
        exact (hextend _ _ _ _ _ _ hrun).isSome (by rw [Function.update_self]; rfl)
    · intro s hnone hsome entry hentry
      by_cases hs : s = r
      · subst hs
        exact (hshown.own entry hentry).mono hchars fun _ _ h => h
      · refine (hshown.others s ?_ hsome entry hentry).mono hchars fun _ _ h => h
        rw [Function.update_of_ne hs, hnone]
  · refine Shown.unchanged fun entry hentry => ?_
    cases List.mem_singleton.mp hentry
    refine ⟨?_, fun _ c hc => ?_, fun r hr => absurd hr (hscalar r)⟩
    · simp [String.toList_append]
    · simp [String.toList_append, show c ∈ v.text.toList from hc]

theorem dumpEntries_shown (hexpand : Showing heap expand) (hextend : Extending expand) :
    ∀ (entries : List (TValue ρ φ × TValue ρ φ)) (cache cache' : Cache ρ) (lines : List String),
      dumpEntries expand space name entries cache = some (lines, cache') →
        Shown heap entries (lines.flatMap String.toList) cache cache' := by
  intro entries
  induction entries with
  | nil =>
      intro cache cache' lines h
      cases h
      exact Shown.unchanged fun _ hentry => absurd hentry List.not_mem_nil
  | cons entry rest ih =>
      intro cache cache' lines h
      obtain ⟨line, cache₁, later, hentry, hlater, rfl⟩ := dumpEntries_cons h
      exact (dumpEntry_shown hexpand hextend hentry).append (ih _ _ _ hlater)
        (dumpEntries_extends hextend _ _ _ _ hlater)

theorem dump_showing (heap : Heap ρ φ) : ∀ fuel, Showing heap (dump heap fuel) := by
  intro fuel
  induction fuel with
  | zero => intro _ _ _ _ _ _ h; cases h
  | succ fuel ih =>
      intro t space name cache text cache' h
      obtain ⟨temp, hentries, rfl⟩ := dump_succ h
      refine (dumpEntries_shown ih (dump_extending heap fuel) _ _ _ _ hentries).mono ?_
      rw [toList_concat]
      intro c hc
      obtain ⟨line, hline, hc⟩ := List.mem_flatMap.mp hc
      exact List.mem_flatMap.mpr ⟨line, hline, List.mem_append_right _ hc⟩

def Contains (heap : Heap ρ φ) (r s : ρ) : Prop := ∃ k, (k, .table s) ∈ heap r

abbrev Reaches (heap : Heap ρ φ) : ρ → ρ → Prop := Relation.ReflTransGen (Contains heap)

theorem dumpText_shows [Fintype ρ] (heap : Heap ρ φ) (root : ρ) (name : String) {r : ρ}
    (hreach : Reaches heap root r) {entry : TValue ρ φ × TValue ρ φ} (hentry : entry ∈ heap r) :
    entry.1.text.toList ⊆ (dumpText heap root name).toList ∧
      ((∀ s, entry.2 ≠ .table s) →
        entry.2.text.toList ⊆ (dumpText heap root name).toList) := by
  obtain ⟨cache, hdump⟩ := dump_dumpText heap root name
  have hshown := dump_showing heap _ _ _ _ _ _ _ hdump
  have hextends := dump_extending heap _ _ _ _ _ _ _ hdump
  have hroot : (cache root).isSome = true :=
    hextends.isSome (by rw [rootCache_root]; rfl)
  have hall : ∀ s, (cache s).isSome = true →
      ∀ entry ∈ heap s, EntryShown (dumpText heap root name).toList cache entry := by
    intro s hs
    by_cases hsr : s = root
    · rw [hsr]
      exact hshown.own
    · exact hshown.others s (Function.update_of_ne hsr ..) hs
  have hrecorded : ∀ s, Reaches heap root s → (cache s).isSome = true := by
    intro s hs
    induction hs with
    | refl => exact hroot
    | tail _ hstep ih =>
        obtain ⟨k, hk⟩ := hstep
        exact (hall _ ih _ hk).table _ rfl
  have hentry := hall r (hrecorded r hreach) entry hentry
  exact ⟨hentry.key, hentry.value⟩

end Shown

end Doudizhu.Log
