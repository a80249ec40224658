import Doudizhu.Log.Messages
import Doudizhu.UserService.Accounts
import Mathlib.Data.Fintype.Option

/-! # The dispatcher of the user service

The message handler of `userService.lua` logs the data of a command before it looks the command
up, and what the command returns before it replies.  Both are dumps, so the dispatcher raises on
the way to the command, or on the way back, when a string of the table is no format of its own. -/

set_option autoImplicit false

namespace Doudizhu.UserService

open Lua Log Coroutine

/-! ## Tables with string keys -/

/-- The fields of a table; those whose value is `nil` are not in it. -/
abbrev Record (φ : Type) := List (String × Value φ)

/-- The order in which `pairs` visits the fields. -/
structure PairsOrder (φ : Type) where
  visit : Record φ → Record φ
  perm : ∀ fields, (visit fields).Perm fields

section Records
variable {ρ φ : Type} [LuaFloat φ]

def toTValue (r : ρ) : Value φ → Option (TValue ρ φ)
  | .nil => none
  | .boolean b => some (.boolean b)
  | .number n => some (.number n)
  | .string s => some (.string s)
  | .table _ => some (.table r)

def arrayEntries : Nat → List (Option String) → List (TValue ρ φ × TValue ρ φ)
  | _, [] => []
  | i, none :: items => arrayEntries (i + 1) items
  | i, some s :: items => (.number (.integer i), .string s) :: arrayEntries (i + 1) items

/-- A record at `none`, with the array of field `i` at `some i`. -/
def recordHeap (fields : Record φ) : Heap (Option (Fin fields.length)) φ
  | none => (List.finRange fields.length).filterMap fun i =>
      (toTValue (some i) (fields.get i).2).map fun v => (.string (fields.get i).1, v)
  | some i =>
      match (fields.get i).2 with
      | .table items => arrayEntries 1 items
      | _ => []

def dumpRecord (fields : Record φ) (site : CallSite) (tag : String) : Option (List String) :=
  logDump (recordHeap fields) site (some (.string tag)) (some (.table none)) none

def fieldPaired (field : String × Value φ) : Prop :=
  field.2 = .nil ∨ (percentsPaired field.1.toList = true ∧
    percentsPaired (tostring field.2).toList = true)

theorem fieldPaired_plain {key : String} {value : Value φ} (hkey : Plain key)
    (hvalue : Plain (tostring value)) : fieldPaired (key, value) :=
  .inr ⟨percentsPaired_plain hkey, percentsPaired_plain hvalue⟩

theorem text_toTValue (r : ρ) (value : Value φ) (hnil : value ≠ .nil) :
    ∃ v, toTValue r value = some v ∧ v.text = tostring value := by
  cases value with
  | nil => exact absurd rfl hnil
  | _ => exact ⟨_, rfl, rfl⟩

omit [LuaFloat φ] in
theorem mem_recordHeap {fields : Record φ}
    {entry : TValue (Option (Fin fields.length)) φ × TValue (Option (Fin fields.length)) φ} :
    entry ∈ recordHeap fields none ↔ ∃ i v, toTValue (some i) (fields.get i).2 = some v ∧
      entry = (.string (fields.get i).1, v) := by
  change entry ∈ (List.finRange fields.length).filterMap _ ↔ _
  rw [List.mem_filterMap]
  refine exists_congr fun i => ?_
  rw [Option.map_eq_some_iff]
  simp only [List.mem_finRange, true_and, eq_comm]

/-- A record of no arrays is logged when every field can be a format. -/
theorem dumpRecord_isSome {fields : Record φ} (hflat : ∀ p ∈ fields, ∀ items, p.2 ≠ .table items)
    (site : CallSite) (tag : String) :
    (dumpRecord fields site tag).isSome = true ↔ ∀ p ∈ fields, fieldPaired p := by
  have hentries : Flat (recordHeap fields none) := by
    rintro entry hentry r hr
    obtain ⟨i, v, hv, rfl⟩ := mem_recordHeap.mp hentry
    cases hvalue : (fields.get i).2 with
    | table items => exact hflat _ (List.get_mem ..) items hvalue
    | _ =>
        rw [hvalue] at hv
        cases hv <;> cases hr
  rw [dumpRecord, logDump_flat _ _ hentries, List.all_eq_true]
  simp only [Bool.and_eq_true]
  constructor
  · intro h p hp
    obtain ⟨i, rfl⟩ := List.get_of_mem hp
    by_cases hnil : (fields.get i).2 = .nil
    · exact .inl hnil
    · obtain ⟨v, hv, htext⟩ := text_toTValue (some i) _ hnil
      have hpaired := h _ (mem_recordHeap.mpr ⟨i, v, hv, rfl⟩)
      rw [htext] at hpaired
      exact .inr hpaired
  · intro h entry hentry
    obtain ⟨i, v, hv, rfl⟩ := mem_recordHeap.mp hentry
    have hnil : (fields.get i).2 ≠ .nil := by
      intro hnil
      rw [hnil] at hv
      cases hv
    obtain ⟨v', hv', htext⟩ := text_toTValue (some i) _ hnil
    cases hv.symm.trans hv'
    rw [htext]
    exact (h _ (List.get_mem ..)).resolve_left hnil

theorem dumpRecord_visit (order : PairsOrder φ) {fields : Record φ}
    (hflat : ∀ p ∈ fields, ∀ items, p.2 ≠ .table items) (site : CallSite) (tag : String) :
    (dumpRecord (order.visit fields) site tag).isSome = true ↔ ∀ p ∈ fields, fieldPaired p := by
  have hmem : ∀ p, p ∈ order.visit fields ↔ p ∈ fields := fun p => (order.perm fields).mem_iff
  rw [dumpRecord_isSome fun p hp => hflat p ((hmem p).mp hp)]
  exact forall_congr' fun p => imp_congr_left (hmem p)

end Records

/-! ## The handler of messages -/

/-- The table a login comes with; the client may leave out the type. -/
structure LoginMessage where
  smid : String
  type : Option Int

structure DispatchSites where
  cmd : CallSite
  data : CallSite
  param : CallSite

section Dispatch
variable {φ : Type} [LuaFloat φ]

def LoginMessage.fields (data : LoginMessage) : Record φ :=
  [("smid", .string data.smid),
    ("type", match data.type with
      | some n => .number (.integer n)
      | none => .nil)]

def LoginMessage.loginData (data : LoginMessage) : LoginData φ := ⟨.string data.smid⟩

def UserInfo.fields (info : UserInfo φ) : Record φ :=
  [("uid", info.uid), ("username", info.username), ("ontable", info.ontable),
    ("money", info.money), ("tid", info.tid)]

def orRaise {A : Type} : Option A → Handler φ A
  | some a => .done a
  | none => .raise

def cmdFuncMap (cmd : String) :
    Option (LoginMessage → Draw → Handler φ (Option (UserInfo φ))) :=
  if cmd = "login" then some fun data draw => responeLogin (some data.loginData) draw else none

def logParam (order : PairsOrder φ) (site : CallSite) :
    Option (UserInfo φ) → Option (List String)
  | some info => dumpRecord (order.visit info.fields) site "param:"
  | none => logDump (recordHeap ([] : Record φ)) site (some (.string "param:")) none none

def reply (order : PairsOrder φ) (site : CallSite) (param : Option (UserInfo φ)) :
    Handler φ (Option (UserInfo φ)) := do
  let _ ← orRaise (logParam order site param)
  return param

/-- The function given to `skynet.dispatch`; what it returns is sent as the reply. -/
def dispatch (order : PairsOrder φ) (sites : DispatchSites) (cmd : String) (data : LoginMessage)
    (draw : Draw) : Handler φ (Option (UserInfo φ)) := do
  let _ ← orRaise (logInfo sites.cmd (some (.string "cmd:")) (some (.string cmd))
    (noArgs Empty φ))
  let _ ← orRaise (dumpRecord (order.visit (data.fields (φ := φ))) sites.data "data:")
  let command ← orRaise (cmdFuncMap cmd)
  let param ← command data draw
  reply order sites.param param

/-! ## Reaching the command and the reply -/

variable (order : PairsOrder φ) (sites : DispatchSites) (data : LoginMessage) (draw : Draw)

/-- The message gets to its command, and from there to the reply. -/
def ReachesHandler : Prop :=
  dispatch order sites "login" data draw =
    responeLogin (some data.loginData) draw >>= reply order sites.param

/-- The dispatcher sends the account the command returns. -/
def ReachesReply (server : RedisServer) (address : Nat) (db : server.Db) : Prop :=
  ∃ info, (alone (redisclient server) (started address) db
      (responeLogin (some data.loginData) draw)).value = some (some info) ∧
    (alone (redisclient server) (started address) db
      (dispatch order sites "login" data draw)).value = some (some info)

/-- The strings of the record a login reads can be formats. -/
def StoredPaired (φ : Type) [LuaFloat φ] (hashes : Hashes) : Prop :=
  (foundUid φ hashes).nonpositive = true ∨
    ∀ field ∈ [RedisKey.nick, RedisKey.coin, RedisKey.tid],
      ∀ s, hashes (recordKey (foundUid φ hashes)) field = some s → percentsPaired s.toList = true

theorem logCmd_isSome (site : CallSite) : (logInfo site (some (.string "cmd:"))
    (some (.string "login")) (noArgs Empty φ)).isSome = true := by
  change ((formatMsg site lvInfo (some (.string "cmd:")) (some (.string "login"))
    (noArgs Empty φ)).map fun info => [info]).isSome = true
  rw [Option.isSome_map, formatMsg_eq, Option.isSome_map, format_isSome]
  exact percentsPaired_plain (show Plain "login" by decide)

theorem logData_isSome (site : CallSite) :
    (dumpRecord (order.visit (data.fields (φ := φ))) site "data:").isSome =
      percentsPaired data.smid.toList := by
  have hflat : ∀ p ∈ data.fields (φ := φ), ∀ items, p.2 ≠ .table items := by
    intro p hp items
    simp only [LoginMessage.fields, List.mem_cons, List.not_mem_nil, or_false] at hp
    rcases hp with rfl | rfl
    · exact nofun
    · cases data.type <;> exact nofun
  rw [Bool.eq_iff_iff, dumpRecord_visit order hflat]
  have htype : fieldPaired (φ := φ) ("type", match data.type with
      | some n => .number (.integer n)
      | none => .nil) := by
    cases data.type with
    | none => exact .inl rfl
    | some n => exact fieldPaired_plain (by decide) (plain_intRepr n)
  constructor
  · intro h
    exact ((h ("smid", .string data.smid) List.mem_cons_self).resolve_left nofun).2
  · intro h
    exact List.forall_mem_cons.mpr
      ⟨.inr ⟨percentsPaired_plain (show Plain "smid" by decide), h⟩,
        List.forall_mem_singleton.mpr htype⟩

theorem dispatch_login : dispatch order sites "login" data draw =
    if percentsPaired data.smid.toList then
      responeLogin (some data.loginData) draw >>= reply order sites.param
    else .raise := by
  obtain ⟨messages, hcmd⟩ := Option.isSome_iff_exists.mp (logCmd_isSome (φ := φ) sites.cmd)
  have hdata := logData_isSome order data sites.data
  change (orRaise (logInfo sites.cmd (some (.string "cmd:")) (some (.string "login"))
    (noArgs Empty φ)) >>= fun _ => _) = _
  rw [hcmd]
  change (orRaise (dumpRecord (order.visit (data.fields (φ := φ))) sites.data "data:") >>=
    fun _ => _) = _
  cases hlog : dumpRecord (order.visit (data.fields (φ := φ))) sites.data "data:" with
  | none =>
      rw [hlog] at hdata
      rw [← hdata]
      rfl
  | some messages =>
      rw [hlog] at hdata
      rw [← hdata]
      rfl

theorem responeLogin_ne_raise {A : Type} (f : Option (UserInfo φ) → Handler φ A) :
    responeLogin (some data.loginData) draw >>= f ≠ .raise := by
  intro h
  cases h

theorem reachesHandler_iff :
    ReachesHandler order sites data draw ↔ percentsPaired data.smid.toList = true := by
  unfold ReachesHandler
  rw [dispatch_login]
  cases percentsPaired data.smid.toList with
  | true => exact iff_of_true rfl rfl
  | false => exact iff_of_false (responeLogin_ne_raise data draw _).symm Bool.false_ne_true

section Alone
variable {order sites data draw} {server : RedisServer} {address : Nat} {db : server.Db}

/-- The reply comes when the smid and the strings of the account can be formats. -/
theorem reachesReply_of_value {info : UserInfo φ}
    (hvalue : (alone (redisclient server) (started address) db
      (responeLogin (some data.loginData) draw)).value = some (some info))
    (hflat : ∀ p ∈ info.fields, ∀ items, p.2 ≠ .table items) :
    ReachesReply order sites data draw server address db ↔
      percentsPaired data.smid.toList = true ∧ ∀ p ∈ info.fields, fieldPaired p := by
  unfold ReachesReply
  rw [dispatch_login, ← dumpRecord_visit order hflat sites.param "param:"]
  cases hsmid : percentsPaired data.smid.toList with
  | false =>
      refine iff_of_false ?_ fun h => Bool.false_ne_true h.1
      rintro ⟨_, _, h⟩
      cases h
  | true =>
      rw [if_pos rfl, alone_bind, hvalue, Option.bind_some]
      have hreply : ∀ db', (alone (redisclient server) (started address) db'
          (reply order sites.param (some info))).value =
            (dumpRecord (order.visit info.fields) sites.param "param:").map fun _ => some info := by
        intro db'
        change (alone _ _ db'
          (orRaise (dumpRecord _ sites.param "param:") >>= fun _ => _)).value = _
        cases dumpRecord (order.visit info.fields) sites.param "param:" <;> rfl
      rw [hreply]
      cases dumpRecord (order.visit info.fields) sites.param "param:" with
      | none =>
          refine iff_of_false ?_ fun h => Bool.false_ne_true h.2
          rintro ⟨_, _, h⟩
          cases h
      | some messages => exact iff_of_true ⟨info, rfl, rfl⟩ ⟨rfl, rfl⟩

theorem cjk_ne_percent (offset : Fin (0x9fa5 - 0x4e00 + 1)) : cjk offset ≠ '%' := by
  intro h
  have hvalid : (0x4e00 + offset.val).isValidChar := .inl (by omega)
  have hcode : (cjk offset).toNat = 0x4e00 + offset.val := by
    unfold cjk Char.ofNat
    rw [dif_pos hvalid]
    rfl
  rw [h] at hcode
  change 37 = _ at hcode
  omega

theorem familyNameMap_plain : ∀ family ∈ familyNameMap, Plain family := by decide +kernel

theorem generateNick_plain (draw : Draw) : Plain (generateNick familyNameMap draw) := by
  refine plain_append (familyNameMap_plain _ (List.get_mem ..)) ?_
  unfold Plain
  split <;> simp [Ne.symm (cjk_ne_percent _)]

omit [LuaFloat φ] in
theorem forall_mem_fields {info : UserInfo φ} {P : String × Value φ → Prop} :
    (∀ p ∈ info.fields, P p) ↔ P ("uid", info.uid) ∧ P ("username", info.username) ∧
      P ("ontable", info.ontable) ∧ P ("money", info.money) ∧ P ("tid", info.tid) := by
  simp [UserInfo.fields]

theorem ontable_fieldPaired : fieldPaired (φ := φ) ("ontable", .boolean false) :=
  fieldPaired_plain (by decide) (show Plain "false" by decide)

theorem newUser_fieldPaired (draw : Draw) : ∀ p ∈ (newUser φ draw).fields, fieldPaired p := by
  have huid : fieldPaired ("uid", (newUser φ draw).uid) :=
    fieldPaired_plain (by decide) (plain_intRepr _)
  have husername : fieldPaired ("username", (newUser φ draw).username) :=
    fieldPaired_plain (by decide) (generateNick_plain draw)
  have hmoney : fieldPaired ("money", (newUser φ draw).money) :=
    fieldPaired_plain (by decide) (plain_intRepr 0)
  exact forall_mem_fields.mpr ⟨huid, husername, ontable_fieldPaired, hmoney, .inl rfl⟩

theorem bulkValue_fieldPaired {key : String} (hkey : Plain key) (text : Option String) :
    fieldPaired (φ := φ) (key, bulkValue text) ↔
      ∀ s, text = some s → percentsPaired s.toList = true := by
  cases text with
  | none => exact iff_of_true (.inl rfl) (fun _ => nofun)
  | some s =>
      constructor
      · rintro h t ht
        cases ht
        exact (h.resolve_left nofun).2
      · exact fun h => .inr ⟨percentsPaired_plain hkey, h s rfl⟩

/-- Of a stored account only the name, the money and the table come from the database. -/
theorem storedUser_fieldPaired (record : String → Option String) :
    (∀ p ∈ (storedUser (φ := φ) record).fields, fieldPaired p) ↔
      ∀ field ∈ [RedisKey.nick, RedisKey.coin, RedisKey.tid],
        ∀ s, record field = some s → percentsPaired s.toList = true := by
  have husername := bulkValue_fieldPaired (φ := φ) (show Plain "username" by decide)
    (record RedisKey.nick)
  have hmoney := bulkValue_fieldPaired (φ := φ) (show Plain "money" by decide)
    (record RedisKey.coin)
  have htid := bulkValue_fieldPaired (φ := φ) (show Plain "tid" by decide) (record RedisKey.tid)
  rw [forall_mem_fields, List.forall_mem_cons, List.forall_mem_cons, List.forall_mem_singleton,
    ← husername, ← hmoney, ← htid]
  constructor
  · rintro ⟨_, hnick, _, hcoin, htid⟩
    exact ⟨hnick, hcoin, htid⟩
  · rintro ⟨hnick, hcoin, htid⟩
    exact ⟨.inl rfl, hnick, ontable_fieldPaired, hcoin, htid⟩

omit [LuaFloat φ] in
theorem bulkValue_ne_table (text : Option String) (items : List (Option String)) :
    (bulkValue text : Value φ) ≠ .table items := by
  cases text <;> exact nofun

omit [LuaFloat φ] in
theorem storedUser_flat (record : String → Option String) :
    ∀ p ∈ (storedUser (φ := φ) record).fields, ∀ items, p.2 ≠ .table items :=
  forall_mem_fields.mpr ⟨fun _ => nofun, bulkValue_ne_table _, fun _ => nofun,
    bulkValue_ne_table _, bulkValue_ne_table _⟩

omit [LuaFloat φ] in
theorem newUser_flat (draw : Draw) :
    ∀ p ∈ (newUser φ draw).fields, ∀ items, p.2 ≠ .table items :=
  forall_mem_fields.mpr ⟨fun _ => nofun, fun _ => nofun, fun _ => nofun, fun _ => nofun,
    fun _ => nofun⟩

theorem reachesReply_iff : ReachesReply order sites data draw server address db ↔
    percentsPaired data.smid.toList = true ∧ StoredPaired φ (server.hashes db) := by
  by_cases habsent : (foundUid φ (server.hashes db)).nonpositive = true
  · obtain ⟨db', hcreate, _⟩ :=
      alone_login_absent server address db data.loginData draw habsent
    rw [reachesReply_of_value (congrArg Result.value hcreate) (newUser_flat draw)]
    exact and_congr_right fun _ => iff_of_true (newUser_fieldPaired draw) (.inl habsent)
  · rw [reachesReply_of_value
      (congrArg Result.value (alone_login_found server address db data.loginData draw habsent))
      (storedUser_flat _), storedUser_fieldPaired]
    exact and_congr_right fun _ => (or_iff_right habsent).symm

end Alone

end Dispatch

/-- A table is delivered if and only if its strings have no percent sign; a login reaches its
command if and only if every percent sign of the smid is followed by a second one, and its reply
when that holds of the stored account as well. -/
theorem logging_safe_iff {ρ φ : Type} [LuaPrint φ] [DecidableEq ρ] [Fintype ρ] (heap : Heap ρ φ)
    (root : ρ) (order : PairsOrder φ) (sites : DispatchSites) (data : LoginMessage) (draw : Draw)
    (server : RedisServer) (address : Nat) (db : server.Db) :
    (DumpDelivered heap root ↔ PercentFree heap root) ∧
      (ReachesHandler order sites data draw ↔ percentsPaired data.smid.toList = true) ∧
      (ReachesReply order sites data draw server address db ↔
        percentsPaired data.smid.toList = true ∧ StoredPaired φ (server.hashes db)) :=
  ⟨dumpDelivered_iff, reachesHandler_iff order sites data draw, reachesReply_iff⟩

/-- A login with the smid `50%` raises before its command. -/
theorem percent_smid_lost :
    ¬ DumpDelivered (ρ := Unit) (φ := Empty) (fun _ => [(.string "smid", .string "50%")]) () ∧
      dispatch (φ := Empty) ⟨id, fun _ => .refl _⟩ ⟨plainSite, plainSite, plainSite⟩ "login"
        ⟨"50%", some 1⟩ someDraw = .raise ∧
      ¬ ReachesReply (φ := Empty) ⟨id, fun _ => .refl _⟩ ⟨plainSite, plainSite, plainSite⟩
        ⟨"50%", some 1⟩ someDraw memoryRedis 1 ⟨fun _ _ => none, fun _ => 0⟩ := by
  refine ⟨fun h => ?_, ?_, fun h => ?_⟩
  · have hplain := dumpDelivered_iff.mp h () .refl _ List.mem_cons_self "50%" (.inr rfl)
    exact absurd hplain (by decide)
  · rw [dispatch_login]
    exact if_neg (by decide)
  · exact absurd (reachesReply_iff.mp h).1 (by decide)

end Doudizhu.UserService
