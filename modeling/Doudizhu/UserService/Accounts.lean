import Doudizhu.UserService.LoginCommands

/-! # Whose account a login touches

Login requests handled one after another.  `respone_login` overwrites the smid of the request
with 13 before it looks anything up, so every request reads and writes the entry of `"13"`.
`KeyedByIdentity` is what it means that accounts are keyed by the client's smid: a request stays
within the `uidsMap` entry of its own smid and the record of the uid mapped to it, and requests
with different smids touch different records. -/

set_option autoImplicit false

namespace Doudizhu.UserService

open Lua Coroutine

/-- What the agent forwards of a client's login request. -/
structure LoginRequest where
  smid : Option String
  draw : Draw

section Accounts
variable {φ : Type} [LuaFloat φ]

def LoginRequest.data (request : LoginRequest) : LoginData φ where
  smid := bulkValue request.smid

def serveLogin (φ : Type) [LuaFloat φ] (server : RedisServer) (address : Nat) (db : server.Db)
    (request : LoginRequest) : Result server.Db (RedisCall φ) (Option (UserInfo φ)) :=
  alone (redisclient server) (started address) db
    (responeLogin (some request.data) request.draw)

structure Served (server : RedisServer) (φ : Type) where
  request : LoginRequest
  result : Result server.Db (RedisCall φ) (Option (UserInfo φ))

/-- The requests handled one after another, each from the database the last one left. -/
def serveAll (φ : Type) [LuaFloat φ] (server : RedisServer) (address : Nat) :
    server.Db → List LoginRequest → List (Served server φ)
  | _, [] => []
  | db, request :: requests =>
      let result := serveLogin φ server address db request
      ⟨request, result⟩ :: serveAll φ server address result.db requests

/-- The keys and fields a command reads or writes. -/
def cells (cmd : String) (args : List String) : List (String × String) :=
  match cmd, args with
  | "HSET", [key, field, _] => [(key, field)]
  | "HMSET", key :: rest => ((readFields rest).getD []).map fun p => (key, p.1)
  | _, key :: fields => fields.map fun field => (key, field)
  | _, [] => []

def RedisCall.cells (call : RedisCall φ) : List (String × String) :=
  UserService.cells call.cmd (composeMessage call.args)

/-- The records a request reads or writes: every key other than `uidsMap`. -/
def Served.Touches {server : RedisServer} (served : Served server φ) (key : String) : Prop :=
  key ≠ redisUidsKey ∧ ∃ call ∈ served.result.calls, ∃ field, (key, field) ∈ call.cells

/-- All the request accesses is the entry of `smid` and the record of the uid mapped to it. -/
def Served.Within {server : RedisServer} (served : Served server φ) (smid : String) : Prop :=
  ∀ call ∈ served.result.calls, ∀ cell ∈ call.cells,
    cell = (redisUidsKey, smid) ∨
      ∃ uid, mappedUid φ (server.hashes served.result.db) smid = some uid ∧
        cell.1 = recordKey uid

def KeyedByIdentity {server : RedisServer} (log : List (Served server φ)) : Prop :=
  (∀ served ∈ log, ∀ smid, served.request.smid = some smid → served.Within smid) ∧
    ∀ a ∈ log, ∀ b ∈ log, ∀ s t, a.request.smid = some s → b.request.smid = some t → s ≠ t →
      ∀ key, a.Touches key → ¬ b.Touches key

/-! ## The two branches -/

variable (server : RedisServer) (address : Nat)

theorem alone_login_absent (db : server.Db) (data : LoginData φ) (draw : Draw)
    (habsent : (foundUid φ (server.hashes db)).nonpositive = true) :
    ∃ db', alone (redisclient server) (started address) db (responeLogin (some data) draw) =
        ⟨some (some (newUser φ draw)), db', [hgetUid address, hsetUid address,
          hmsetRecord address (generateNick familyNameMap draw)]⟩ ∧
      server.hashes db' =
        setFields (setField (server.hashes db) redisUidsKey "13" "100000") "uid_100000"
          (newRecord (generateNick familyNameMap draw)) := by
  obtain ⟨answer, hget, huid⟩ := redisclient_hgetUid (φ := φ) server address db
  obtain ⟨answer₁, db₁, hset, hhashes₁⟩ := redisclient_hsetUid (φ := φ) server address db
  obtain ⟨answer₂, db₂, hmset, hhashes₂⟩ := redisclient_hmsetRecord (φ := φ) server address db₁
    (generateNick familyNameMap draw)
  refine ⟨db₂, ?_, by rw [hhashes₂, hhashes₁]⟩
  rw [alone_of_pending _ _ (pending_responeLogin address _ _), hget,
    after_responeLogin_absent address _ _ (huid ▸ habsent),
    alone_of_pending _ _ (pending_creating address _), hset, after_creating,
    alone_of_pending _ _ (pending_recording address _), hmset, after_recording]
  rfl

theorem alone_login_found (db : server.Db) (data : LoginData φ) (draw : Draw)
    (hfound : ¬ (foundUid φ (server.hashes db)).nonpositive = true) :
    alone (redisclient server) (started address) db (responeLogin (some data) draw) =
      ⟨some (some (storedUser (server.hashes db (recordKey (foundUid φ (server.hashes db)))))), db,
        [hgetUid address, hmgetRecord address (foundUid φ (server.hashes db))]⟩ := by
  obtain ⟨answer, hget, huid⟩ := redisclient_hgetUid (φ := φ) server address db
  rw [alone_of_pending _ _ (pending_responeLogin address _ _), hget,
    after_responeLogin_found address _ _ (huid ▸ hfound),
    alone_of_pending _ _ (pending_reading address _), redisclient_hmgetRecord, after_reading, huid]
  rfl

theorem serveLogin_absent (db : server.Db) (request : LoginRequest)
    (habsent : (foundUid φ (server.hashes db)).nonpositive = true) :
    (serveLogin φ server address db request).calls =
        [hgetUid address, hsetUid address,
          hmsetRecord address (generateNick familyNameMap request.draw)] ∧
      server.hashes (serveLogin φ server address db request).db =
        setFields (setField (server.hashes db) redisUidsKey "13" "100000") "uid_100000"
          (newRecord (generateNick familyNameMap request.draw)) := by
  obtain ⟨db', hserve, hhashes⟩ :=
    alone_login_absent server address db request.data request.draw habsent
  rw [serveLogin, hserve]
  exact ⟨rfl, hhashes⟩

theorem serveLogin_found (db : server.Db) (request : LoginRequest)
    (hfound : ¬ (foundUid φ (server.hashes db)).nonpositive = true) :
    (serveLogin φ server address db request).calls =
        [hgetUid address, hmgetRecord address (foundUid φ (server.hashes db))] ∧
      (serveLogin φ server address db request).db = db := by
  rw [serveLogin, alone_login_found server address db request.data request.draw hfound]
  exact ⟨rfl, rfl⟩

theorem hgetUid_cells : (hgetUid address : RedisCall φ).cells = [(redisUidsKey, "13")] := rfl

theorem hsetUid_cells : (hsetUid address : RedisCall φ).cells = [(redisUidsKey, "13")] := rfl

theorem hmsetRecord_cells (username : String) :
    (hmsetRecord address username : RedisCall φ).cells =
      [("uid_100000", RedisKey.nick), ("uid_100000", RedisKey.ontable),
        ("uid_100000", RedisKey.coin)] := rfl

theorem hmgetRecord_cells (uid : Number φ) : (hmgetRecord address uid).cells =
    [(recordKey uid, RedisKey.nick), (recordKey uid, RedisKey.ontable),
      (recordKey uid, RedisKey.coin), (recordKey uid, RedisKey.tid)] := rfl

theorem hgetUid_mem_calls (db : server.Db) (request : LoginRequest) :
    hgetUid address ∈ (serveLogin φ server address db request).calls := by
  by_cases h : (foundUid φ (server.hashes db)).nonpositive = true
  · rw [(serveLogin_absent server address db request h).1]
    exact List.mem_cons_self ..
  · rw [(serveLogin_found server address db request h).1]
    exact List.mem_cons_self ..

/-- Whatever its smid, a login stays within the entry and the record of `"13"`. -/
theorem serveLogin_within (db : server.Db) (request : LoginRequest) :
    (⟨request, serveLogin φ server address db request⟩ : Served server φ).Within "13" := by
  intro call hcall cell hcell
  change call ∈ (serveLogin φ server address db request).calls at hcall
  by_cases h : (foundUid φ (server.hashes db)).nonpositive = true
  · obtain ⟨hcalls, hhashes⟩ := serveLogin_absent server address db request h
    have hmapped : mappedUid φ (server.hashes (serveLogin φ server address db request).db) "13" =
        some (.integer 100000) := by
      rw [hhashes, mappedUid_setFields, mappedUid_setField]
    rw [hcalls] at hcall
    simp only [List.mem_cons, List.not_mem_nil, or_false] at hcall
    rcases hcall with rfl | rfl | rfl
    · rw [hgetUid_cells, List.mem_singleton] at hcell
      exact Or.inl hcell
    · rw [hsetUid_cells, List.mem_singleton] at hcell
      exact Or.inl hcell
    · rw [hmsetRecord_cells] at hcell
      refine Or.inr ⟨_, hmapped, ?_⟩
      simp only [List.mem_cons, List.not_mem_nil, or_false] at hcell
      rcases hcell with rfl | rfl | rfl <;> rfl
  · obtain ⟨hcalls, hdb⟩ := serveLogin_found server address db request h
    rw [hcalls] at hcall
    simp only [List.mem_cons, List.not_mem_nil, or_false] at hcall
    rcases hcall with rfl | rfl
    · rw [hgetUid_cells, List.mem_singleton] at hcell
      exact Or.inl hcell
    · have hmapped : mappedUid φ (server.hashes db) "13" =
          some (foundUid φ (server.hashes db)) := by
        unfold foundUid at h ⊢
        cases hm : mappedUid φ (server.hashes db) "13" with
        | none => simp [hm, Number.nonpositive] at h
        | some uid => rfl
      refine Or.inr ⟨foundUid φ (server.hashes db), ?_, ?_⟩
      · change mappedUid φ (server.hashes (serveLogin φ server address db request).db) "13" = _
        rw [hdb, hmapped]
      · rw [hmgetRecord_cells] at hcell
        simp only [List.mem_cons, List.not_mem_nil, or_false] at hcell
        rcases hcell with rfl | rfl | rfl | rfl <;> rfl

theorem mem_serveAll : ∀ (requests : List LoginRequest) (db : server.Db) (served),
    served ∈ serveAll φ server address db requests →
      served.request ∈ requests ∧ ∃ db',
        served.result = serveLogin φ server address db' served.request := by
  intro requests
  induction requests with
  | nil => intro db served h; simp [serveAll] at h
  | cons request requests ih =>
      intro db served h
      rcases List.mem_cons.mp h with rfl | h
      · exact ⟨List.mem_cons_self .., db, rfl⟩
      · obtain ⟨hmem, hresult⟩ := ih _ served h
        exact ⟨List.mem_cons_of_mem _ hmem, hresult⟩

theorem exists_served : ∀ (requests : List LoginRequest) (db : server.Db) (request),
    request ∈ requests → ∃ db',
      (⟨request, serveLogin φ server address db' request⟩ : Served server φ) ∈
        serveAll φ server address db requests := by
  intro requests
  induction requests with
  | nil => intro db request h; simp at h
  | cons first requests ih =>
      intro db request h
      rcases List.mem_cons.mp h with rfl | h
      · exact ⟨db, List.mem_cons_self ..⟩
      · obtain ⟨db', hmem⟩ := ih (serveLogin φ server address db first).db request h
        exact ⟨db', List.mem_cons_of_mem _ hmem⟩

/-- For every database and every sequence of logins, accounts are keyed by the client's smid if
and only if every smid sent is `"13"`. -/
theorem login_keyed_by_identity_iff (db : server.Db) (requests : List LoginRequest) :
    KeyedByIdentity (serveAll φ server address db requests) ↔
      ∀ request ∈ requests, ∀ smid, request.smid = some smid → smid = "13" := by
  constructor
  · intro hkeyed request hrequest smid hsmid
    obtain ⟨db', hserved⟩ := exists_served (φ := φ) server address requests db request hrequest
    have hcell : (redisUidsKey, "13") ∈ (hgetUid address : RedisCall φ).cells := by
      rw [hgetUid_cells]
      exact List.mem_singleton.mpr rfl
    rcases hkeyed.1 _ hserved smid hsmid (hgetUid address)
        (hgetUid_mem_calls server address db' request) _ hcell with h | ⟨uid, _, h⟩
    · exact (Prod.mk.inj h).2.symm
    · exact absurd h.symm (recordKey_ne_uidsKey uid)
  · intro hall
    refine ⟨?_, ?_⟩
    · intro served hserved smid hsmid
      obtain ⟨hmem, db', hresult⟩ := mem_serveAll server address requests db served hserved
      rw [hall _ hmem smid hsmid]
      have hwithin := serveLogin_within (φ := φ) server address db' served.request
      rw [← hresult] at hwithin
      exact hwithin
    · intro a ha b hb s t hs ht hne
      have hsa := hall _ (mem_serveAll server address requests db a ha).1 s hs
      have htb := hall _ (mem_serveAll server address requests db b hb).1 t ht
      exact absurd (hsa.trans htb.symm) hne

end Accounts

/-! ## Two clients -/

def guestRequest (smid : String) : LoginRequest := ⟨some smid, someDraw⟩

/-- The second client is given the account the first one has just created. -/
theorem logins_share_account :
    ¬ KeyedByIdentity (serveAll Empty memoryRedis 1 ⟨fun _ _ => none, fun _ => 0⟩
      [guestRequest "guest-1", guestRequest "guest-2"]) := by
  intro hkeyed
  let db : Memory := ⟨fun _ _ => none, fun _ => 0⟩
  let first := serveLogin Empty memoryRedis 1 db (guestRequest "guest-1")
  let second := serveLogin Empty memoryRedis 1 first.db (guestRequest "guest-2")
  obtain ⟨hcalls, hhashes⟩ :=
    serveLogin_absent (φ := Empty) memoryRedis 1 db (guestRequest "guest-1") (by decide)
  have huid : foundUid Empty (memoryRedis.hashes first.db) = .integer 100000 := by
    change (mappedUid Empty (memoryRedis.hashes first.db) "13").getD (.integer 0) = _
    rw [hhashes, mappedUid_setFields, mappedUid_setField]
    rfl
  have hcalls' := (serveLogin_found (φ := Empty) memoryRedis 1 first.db (guestRequest "guest-2")
    (by rw [huid]; decide)).1
  rw [huid] at hcalls'
  have hfirst : (⟨guestRequest "guest-1", first⟩ : Served memoryRedis Empty).Touches
      "uid_100000" := by
    refine ⟨by decide, hmsetRecord 1 (generateNick familyNameMap (guestRequest "guest-1").draw),
      ?_, RedisKey.nick, ?_⟩
    · change _ ∈ first.calls
      rw [hcalls]
      exact List.mem_cons_of_mem _ (List.mem_cons_of_mem _ (List.mem_cons_self ..))
    · rw [hmsetRecord_cells]
      exact List.mem_cons_self ..
  have hsecond : (⟨guestRequest "guest-2", second⟩ : Served memoryRedis Empty).Touches
      "uid_100000" := by
    refine ⟨by decide, hmgetRecord 1 (.integer 100000), ?_, RedisKey.nick,
      List.mem_cons_self ..⟩
    change _ ∈ second.calls
    rw [hcalls']
    exact List.mem_cons_of_mem _ (List.mem_cons_self ..)
  exact hkeyed.2 ⟨guestRequest "guest-1", first⟩ (List.mem_cons_self ..)
    ⟨guestRequest "guest-2", second⟩ (List.mem_cons_of_mem _ (List.mem_cons_self ..))
    "guest-1" "guest-2" rfl rfl (by decide) "uid_100000" hfirst hsecond

end Doudizhu.UserService
