import Doudizhu.Log.Dump

/-! # Log messages

A message is formatted twice: the text of the caller is the format of the first call and an
argument of the second.  `log_dump` hands the dump over as that format, without arguments, so the
percent signs in the keys and strings of a table are conversions.  A dump is delivered as it is
when there are none, and otherwise it is shortened or the call raises. -/

set_option autoImplicit false

namespace Doudizhu.Log

open Lua

/-! ## The calls -/

def lvError : Int := 1
def lvWarn : Int := 2
def lvInfo : Int := 3
def lvDebug : Int := 4

def logLevel : Int := lvDebug

/-- `debug.getinfo(3)` and `os.date("%X")` of a call. -/
structure CallSite where
  source : String
  name : Option String
  currentline : Int
  timeInfo : String

section Calls
variable {ρ φ : Type} [LuaFloat φ]

def messageArgs (site : CallSite) (level : Int) (tag : Option (TValue ρ φ)) (msg : String) :
    List (Option (TValue ρ φ)) :=
  [some (.string site.source), site.name.map .string, some (.number (.integer site.currentline)),
    some (.number (.integer level)), tag, some (.string site.timeInfo), some (.string msg)]

/-- `none` when the call raises. -/
def formatMsg (site : CallSite) (level : Int) (tag fmt : Option (TValue ρ φ))
    (args : List (Option (TValue ρ φ))) : Option String := do
  let msg ← format (textOf fmt).toList args
  let out ← format "%s:%s[%d] lv%d %s [%s] --> %s".toList
    (messageArgs site level tag (String.ofList msg))
  return String.ofList out

/-- A call at a level: the messages passed to `skynet.error`, `none` when it raises. -/
def logAt (level : Int) (site : CallSite) (tag fmt : Option (TValue ρ φ))
    (args : List (Option (TValue ρ φ))) : Option (List String) :=
  if logLevel ≥ level then (formatMsg site level tag fmt args).map fun info => [info]
  else some []

def logError (site : CallSite) (tag fmt : Option (TValue ρ φ)) :
    List (Option (TValue ρ φ)) → Option (List String) := logAt lvError site tag fmt

def logWarn (site : CallSite) (tag fmt : Option (TValue ρ φ)) :
    List (Option (TValue ρ φ)) → Option (List String) := logAt lvWarn site tag fmt

def logInfo (site : CallSite) (tag fmt : Option (TValue ρ φ)) :
    List (Option (TValue ρ φ)) → Option (List String) := logAt lvInfo site tag fmt

def logDebug (site : CallSite) (tag fmt : Option (TValue ρ φ)) :
    List (Option (TValue ρ φ)) → Option (List String) := logAt lvDebug site tag fmt

/-- `log_dump(tag, root, name)`; `pairs` raises on anything but a table, and `nil` is no index. -/
def logDump [DecidableEq ρ] [Fintype ρ] (heap : Heap ρ φ) (site : CallSite)
    (tag root : Option (TValue ρ φ)) (name : Option String) : Option (List String) :=
  if logLevel < lvDebug then some []
  else
    match root with
    | some (.table r) =>
        logDebug site tag (some (.string (dumpText heap r (name.getD "table")))) []
    | _ => none

def header (site : CallSite) (level : Int) (tag : Option (TValue ρ φ)) : String :=
  site.source ++ ":" ++ (site.name.getD "nil") ++ "[" ++ toString site.currentline ++ "] lv" ++
    toString level ++ " " ++ textOf tag ++ " [" ++ site.timeInfo ++ "] --> "

theorem format_message (site : CallSite) (level : Int) (tag : Option (TValue ρ φ))
    (msg : String) : format "%s:%s[%d] lv%d %s [%s] --> %s".toList
      (messageArgs site level tag msg) = some (header site level tag ++ msg).toList := by
  have hname : textOf (site.name.map TValue.string : Option (TValue ρ φ)) =
      site.name.getD "nil" := by
    cases site.name <;> rfl
  simp [messageArgs, header, format, hname, String.toList_append]

theorem formatMsg_eq (site : CallSite) (level : Int) (tag fmt : Option (TValue ρ φ))
    (args : List (Option (TValue ρ φ))) : formatMsg site level tag fmt args =
      (format (textOf fmt).toList args).map fun msg =>
        header site level tag ++ String.ofList msg := by
  unfold formatMsg
  cases hmsg : format (textOf fmt).toList args with
  | none => rfl
  | some msg =>
      simp only [format_message, Option.bind_eq_bind, Option.bind_some, Option.map_some, pure,
        String.ofList_toList]

theorem logDump_table [DecidableEq ρ] [Fintype ρ] (heap : Heap ρ φ) (root : ρ)
    (site : CallSite) (tag : Option (TValue ρ φ)) (name : Option String) :
    logDump heap site tag (some (.table root)) name =
      (format (dumpText heap root (name.getD "table")).toList (noArgs ρ φ)).map fun msg =>
        [header site lvDebug tag ++ String.ofList msg] := by
  change (formatMsg site lvDebug tag (some (.string (dumpText heap root (name.getD "table"))))
    []).map (fun info => [info]) = _
  rw [formatMsg_eq, Option.map_map]
  rfl

end Calls

/-! ## Percent signs -/

section Plain

def Plain (s : String) : Prop := '%' ∉ s.toList

instance (s : String) : Decidable (Plain s) := inferInstanceAs (Decidable ('%' ∉ s.toList))

theorem plain_append {s t : String} (hs : Plain s) (ht : Plain t) : Plain (s ++ t) := by
  rw [Plain, String.toList_append, List.mem_append, not_or]
  exact ⟨hs, ht⟩

theorem plain_deeper {space : String} (key : String) (more : Bool) (h : Plain space) :
    Plain (deeper space key more) := by
  have hbranch : Plain (if more then "|" else " ") := by
    cases more <;> decide
  have hblanks : Plain (String.ofList (List.replicate key.utf8ByteSize ' ')) := by
    rw [Plain, String.toList_ofList, List.mem_replicate]
    exact fun h => absurd h.2 (by decide)
  exact plain_append (plain_append h hbranch) hblanks

theorem plain_concat {sep : String} {lines : List String} (hsep : Plain sep)
    (h : ∀ line ∈ lines, Plain line) : Plain (sep.intercalate ("" :: lines)) := by
  rw [Plain, toList_concat, List.mem_flatMap]
  rintro ⟨line, hline, hmem⟩
  exact (List.mem_append.mp hmem).elim hsep (h line hline)

variable {ρ φ : Type} [LuaFloat φ] [DecidableEq ρ] {heap : Heap ρ φ} {root : ρ}

/-- No key or value of a table that can be reached prints a percent sign. -/
def PrintsPlain (heap : Heap ρ φ) (root : ρ) : Prop :=
  ∀ r, Reaches heap root r → ∀ entry ∈ heap r, Plain entry.1.text ∧ Plain entry.2.text

def PlainCache (cache : Cache ρ) : Prop := ∀ r path, cache r = some path → Plain path

theorem PlainCache.update {cache : Cache ρ} (h : PlainCache cache) (r : ρ) {path : String}
    (hpath : Plain path) : PlainCache (Function.update cache r (some path)) := by
  intro s p hs
  by_cases hsr : s = r
  · rw [hsr, Function.update_self] at hs
    cases hs
    exact hpath
  · rw [Function.update_of_ne hsr] at hs
    exact h s p hs

/-- The dumper prints no percent sign when it is given none. -/
def PlainDumper (heap : Heap ρ φ) (root : ρ) (expand : Dumper ρ) : Prop :=
  ∀ t space name cache text cache', expand t space name cache = some (text, cache') →
    Reaches heap root t → Plain space → Plain name → PlainCache cache →
      Plain text ∧ PlainCache cache'

variable {expand : Dumper ρ} {space name : String} {k v : TValue ρ φ} {more : Bool}
  {cache cache' : Cache ρ}

theorem dumpEntry_plain (hexpand : PlainDumper heap root expand)
    (hreach : ∀ r, v = .table r → Reaches heap root r) (hspace : Plain space) (hname : Plain name)
    (hk : Plain k.text) (hv : Plain v.text) (hcache : PlainCache cache) {line : String}
    (h : dumpEntry expand space name k v more cache = some (line, cache')) :
    Plain line ∧ PlainCache cache' := by
  have hplus : Plain ("+" ++ k.text) := plain_append (by decide) hk
  rcases dumpEntry_cases h with ⟨r, path, _, hr, rfl, rfl⟩ | ⟨r, text, hvr, _, rfl, hrun⟩ |
    ⟨_, rfl, rfl⟩
  · refine ⟨plain_append (plain_append (plain_append hplus ?_) (hcache r path hr)) ?_, hcache⟩
    all_goals decide
  · have hpath : Plain (name ++ "." ++ k.text) :=
      plain_append (plain_append hname (by decide)) hk
    obtain ⟨htext, hcache'⟩ := hexpand _ _ _ _ _ _ hrun (hreach r hvr)
      (plain_deeper _ _ hspace) hpath (hcache.update r hpath)
    exact ⟨plain_append hplus htext, hcache'⟩
  · refine ⟨plain_append (plain_append (plain_append hplus ?_) hv) ?_, hcache⟩
    all_goals decide

theorem dumpEntries_plain (hexpand : PlainDumper heap root expand) (hspace : Plain space)
    (hname : Plain name) : ∀ (entries : List (TValue ρ φ × TValue ρ φ)) (cache cache' : Cache ρ)
      (lines : List String), dumpEntries expand space name entries cache = some (lines, cache') →
        (∀ entry ∈ entries, Plain entry.1.text ∧ Plain entry.2.text ∧
          ∀ r, entry.2 = .table r → Reaches heap root r) →
        PlainCache cache → (∀ line ∈ lines, Plain line) ∧ PlainCache cache' := by
  intro entries
  induction entries with
  | nil =>
      intro cache cache' lines h _ hcache
      cases h
      exact ⟨fun _ hline => absurd hline List.not_mem_nil, hcache⟩
  | cons entry rest ih =>
      intro cache cache' lines h hentries hcache
      obtain ⟨line, cache₁, later, hentry, hlater, rfl⟩ := dumpEntries_cons h
      obtain ⟨hk, hv, hreach⟩ := hentries entry List.mem_cons_self
      obtain ⟨hline, hcache₁⟩ := dumpEntry_plain hexpand hreach hspace hname hk hv hcache hentry
      obtain ⟨hlines, hcache'⟩ := ih _ _ _ hlater
        (fun e he => hentries e (List.mem_cons_of_mem _ he)) hcache₁
      exact ⟨List.forall_mem_cons.mpr ⟨hline, hlines⟩, hcache'⟩

theorem dump_plain (hprints : PrintsPlain heap root) :
    ∀ fuel, PlainDumper heap root (dump heap fuel) := by
  intro fuel
  induction fuel with
  | zero => intro _ _ _ _ _ _ h; cases h
  | succ fuel ih =>
      intro t space name cache text cache' h hreach hspace hname hcache
      obtain ⟨temp, hentries, rfl⟩ := dump_succ h
      obtain ⟨hlines, hcache'⟩ := dumpEntries_plain ih hspace hname _ _ _ _ hentries
        (fun entry hentry => ⟨(hprints t hreach entry hentry).1, (hprints t hreach entry hentry).2,
          fun r hr => hreach.tail ⟨entry.1, hr ▸ hentry⟩⟩) hcache
      exact ⟨plain_concat (plain_append (by decide) hspace) hlines, hcache'⟩

/-- Under a plain name the dump prints a percent sign when a key or a value does. -/
theorem plain_dumpText_iff [Fintype ρ] (heap : Heap ρ φ) (root : ρ) {name : String}
    (hname : Plain name) : Plain (dumpText heap root name) ↔ PrintsPlain heap root := by
  constructor
  · intro hplain r hreach entry hentry
    obtain ⟨hkey, hvalue⟩ := dumpText_shows heap root name hreach hentry
    refine ⟨fun hmem => hplain (hkey hmem), fun hmem => ?_⟩
    cases hv : entry.2 with
    | table s =>
        rw [hv] at hmem
        exact absurd hmem (show Plain "table" by decide)
    | _ => exact hplain (hvalue (fun s hs => by rw [hv] at hs; cases hs) hmem)
  · intro hprints
    obtain ⟨cache, hdump⟩ := dump_dumpText heap root name
    refine (dump_plain hprints _ _ _ _ _ _ _ hdump .refl (by decide) hname ?_).1
    intro r path hr
    by_cases hroot : r = root
    · rw [hroot, rootCache, Function.update_self] at hr
      cases hr
      decide
    · rw [rootCache, Function.update_of_ne hroot] at hr
      cases hr

theorem plain_natRepr (n : Nat) : Plain n.repr := by
  intro hmem
  rw [Nat.toList_repr] at hmem
  have hdigit := Nat.isDigit_of_mem_toDigits (by decide) (by decide) hmem
  exact absurd hdigit (by decide)

theorem plain_intRepr (n : Int) : Plain (toString n) := by
  change Plain n.repr
  cases n with
  | ofNat n => exact plain_natRepr n
  | negSucc n => exact plain_append (by decide) (plain_natRepr _)

theorem plain_text_iff {ρ φ : Type} [LuaPrint φ] (v : TValue ρ φ) :
    Plain v.text ↔ ∀ s, v = .string s → Plain s := by
  cases v with
  | string s => exact ⟨fun h t ht => by cases ht; exact h, fun h => h s rfl⟩
  | boolean b =>
      have hplain : Plain (toString b) := by cases b <;> decide
      exact iff_of_true hplain (fun _ => nofun)
  | number n =>
      have hplain : Plain n.text := by
        cases n with
        | integer n => exact plain_intRepr n
        | float f => exact LuaPrint.text_plain f
      exact iff_of_true hplain (fun _ => nofun)
  | table r => exact iff_of_true (show Plain "table" by decide) (fun _ => nofun)

end Plain

/-! ## Delivered dumps -/

section Delivered
variable {ρ φ : Type} [LuaPrint φ] [DecidableEq ρ] [Fintype ρ] (heap : Heap ρ φ) (root : ρ)

/-- Under every tag the dump is passed to `skynet.error`, in a message with its text as it is. -/
def DumpDelivered : Prop :=
  ∀ (site : CallSite) (tag : Option (TValue ρ φ)), ∃ message,
    logDump heap site tag (some (.table root)) none = some [message] ∧
      (dumpText heap root "table").toList <:+: message.toList

/-- No string in a table that can be reached, as a key or as a value, has a percent sign. -/
def PercentFree : Prop :=
  ∀ r, Reaches heap root r → ∀ entry ∈ heap r,
    ∀ s, entry.1 = .string s ∨ entry.2 = .string s → Plain s

variable {heap root}

omit [DecidableEq ρ] [Fintype ρ] in
theorem printsPlain_iff : PrintsPlain heap root ↔ PercentFree heap root := by
  refine forall₄_congr fun r _ entry _ => ?_
  rw [plain_text_iff, plain_text_iff, ← forall_and]
  exact forall_congr' fun s => or_imp.symm

/-- A text that starts with a character of its own stands in the part where that is. -/
theorem infix_of_notMem {c : Char} {s t : List Char} :
    ∀ first : List Char, c :: s <:+: first ++ t → c ∉ first → c :: s <:+: t := by
  intro first
  induction first with
  | nil => intro h _; exact h
  | cons d first ih =>
      intro h hc
      rw [List.mem_cons, not_or] at hc
      rcases List.infix_cons_iff.mp h with hprefix | hinfix
      · exact absurd (List.cons_prefix_cons.mp hprefix).1 hc.1
      · exact ih hinfix hc.2

theorem dumpText_newline (heap : Heap ρ φ) (root : ρ) (name : String)
    (hne : (dumpText heap root name).toList ≠ []) :
    ∃ rest, (dumpText heap root name).toList = '\n' :: rest := by
  obtain ⟨_, lines, _, _, htext⟩ := dumpText_lines heap root name
  rw [htext] at hne ⊢
  cases lines with
  | nil => exact absurd rfl hne
  | cons line lines => exact ⟨_, rfl⟩

def plainSite : CallSite := ⟨"log.lua", none, 75, "00:00:00"⟩

omit [DecidableEq ρ] [Fintype ρ] in
theorem header_plainSite :
    '\n' ∉ (header plainSite lvDebug (none : Option (TValue ρ φ))).toList := by
  change '\n' ∉ "log.lua:nil[75] lv4 nil [00:00:00] --> ".toList
  decide

theorem dumpDelivered_iff : DumpDelivered heap root ↔ PercentFree heap root := by
  rw [← printsPlain_iff, ← plain_dumpText_iff heap root (show Plain "table" by decide)]
  constructor
  · intro hdelivered hmem
    obtain ⟨message, hlog, hinfix⟩ := hdelivered plainSite none
    rw [logDump_table] at hlog
    obtain ⟨out, hformat, hmessage⟩ := Option.map_eq_some_iff.mp hlog
    cases hmessage
    obtain ⟨rest, htext⟩ := dumpText_newline heap root "table"
      (List.ne_nil_of_mem hmem)
    rw [String.toList_append, String.toList_ofList, htext] at hinfix
    have hlength := (infix_of_notMem _ hinfix header_plainSite).length_le
    have hshorter := (format_length hformat).2 hmem
    rw [Option.getD_none, htext] at hshorter
    omega
  · intro hplain site tag
    refine ⟨header site lvDebug tag ++ dumpText heap root "table", ?_, ?_⟩
    · rw [logDump_table, Option.getD_none, format_plain hplain, Option.map_some,
        String.ofList_toList]
    · rw [String.toList_append]
      exact (List.suffix_append ..).isInfix

end Delivered

example : logDump (φ := Empty) (fun _ : Unit => [(.string "n", .string "5%%")]) plainSite none
    (some (.table ())) none = some ["log.lua:nil[75] lv4 nil [00:00:00] --> \n+n [5%]"] := by
  decide

/-! ## Tables without tables in them -/

section Flat
variable {ρ φ : Type} [LuaFloat φ] [DecidableEq ρ] {expand : Dumper ρ} {space name : String}
  {cache : Cache ρ}

def Flat (entries : List (TValue ρ φ × TValue ρ φ)) : Prop :=
  ∀ entry ∈ entries, ∀ r, entry.2 ≠ .table r

def flatLine (entry : TValue ρ φ × TValue ρ φ) : String :=
  "+" ++ entry.1.text ++ " [" ++ entry.2.text ++ "]"

theorem dumpEntries_flat {entries : List (TValue ρ φ × TValue ρ φ)} (hflat : Flat entries) :
    dumpEntries expand space name entries cache = some (entries.map flatLine, cache) := by
  induction entries with
  | nil => rfl
  | cons entry rest ih =>
      obtain ⟨k, v⟩ := entry
      have hentry : dumpEntry expand space name k v (hasNext rest) cache =
          some (flatLine (k, v), cache) := by
        cases v with
        | table r => exact absurd rfl (hflat _ List.mem_cons_self r)
        | _ => rfl
      simp only [dumpEntries, hentry, ih fun e he => hflat e (List.mem_cons_of_mem _ he),
        Option.bind_eq_bind, Option.bind_some, pure, List.map_cons]

theorem dumpText_flat [Fintype ρ] (heap : Heap ρ φ) (root : ρ) (hflat : Flat (heap root)) :
    (dumpText heap root name).toList =
      (heap root).flatMap fun entry => '\n' :: (flatLine entry).toList := by
  obtain ⟨_, lines, cache, hentries, htext⟩ := dumpText_lines heap root name
  rw [dumpEntries_flat hflat] at hentries
  cases hentries
  rw [htext, List.flatMap_map]

omit [DecidableEq ρ] in
/-- Brackets and line breaks keep the percent signs of different texts apart. -/
theorem percentsPaired_flat (entries : List (TValue ρ φ × TValue ρ φ)) :
    percentsPaired (entries.flatMap fun entry => '\n' :: (flatLine entry).toList) =
      entries.all fun entry =>
        percentsPaired entry.1.text.toList && percentsPaired entry.2.text.toList := by
  induction entries with
  | nil => rfl
  | cons entry rest ih =>
      have hline : '\n' :: (flatLine entry).toList = '\n' :: '+' ::
          (entry.1.text.toList ++ ' ' :: '[' :: (entry.2.text.toList ++ [']'])) := by
        simp [flatLine, String.toList_append]
      have hrest : (rest.flatMap fun entry => '\n' :: (flatLine entry).toList).head? ≠
          some '%' := by
        cases rest with
        | nil => exact nofun
        | cons e rest => exact head_cons_ne (by decide)
      rw [List.flatMap_cons, percentsPaired_append hrest, ih, hline, List.all_cons,
        percentsPaired_cons (by decide), percentsPaired_cons (by decide),
        percentsPaired_append (head_cons_ne (by decide)), percentsPaired_cons (by decide),
        percentsPaired_cons (by decide), percentsPaired_append (head_cons_ne (by decide))]
      exact congrArg (· && _) (congrArg _ (Bool.and_true _))

theorem logDump_flat [Fintype ρ] (heap : Heap ρ φ) (root : ρ) (hflat : Flat (heap root))
    (site : CallSite) (tag : Option (TValue ρ φ)) (name : Option String) :
    (logDump heap site tag (some (.table root)) name).isSome =
      (heap root).all fun entry =>
        percentsPaired entry.1.text.toList && percentsPaired entry.2.text.toList := by
  rw [logDump_table, Option.isSome_map, format_isSome, dumpText_flat heap root hflat,
    percentsPaired_flat]

end Flat

end Doudizhu.Log
