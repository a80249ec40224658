import Doudizhu.UserService.FirstLogin
import Mathlib.Data.List.Induction

/-! # Half-created accounts

`create_user` maps the smid to the new uid with HSET and writes the record of that uid with a
later HMSET, so the store between the two has a uid without a record.  A handler that is cut off
there is one the schedule does not mention again.  No such store is reached exactly in the runs
where no handler comes to its second command, or none of them creates an account, or the record
of the base uid is there from the start. -/

set_option autoImplicit false

namespace Doudizhu.UserService

open Lua Coroutine

section HalfCreated
variable {ι φ : Type} [DecidableEq ι] [LuaFloat φ]

/-- The record of `uid` has a nickname, a table flag and coins. -/
def RecordWhole (hashes : Hashes) (uid : Number φ) : Prop :=
  ∀ field ∈ [RedisKey.nick, RedisKey.ontable, RedisKey.coin],
    (hashes (recordKey uid) field).isSome = true

/-- Every uid in `uidsMap` has its record. -/
def AccountsWhole (φ : Type) [LuaFloat φ] (hashes : Hashes) : Prop :=
  ∀ smid (uid : Number φ), mappedUid φ hashes smid = some uid → RecordWhole hashes uid

def handlerPool (server : RedisServer) (db : server.Db) (data : ι → Option (LoginData φ))
    (draws : ι → Draw) : LoginPool ι φ server where
  db := db
  threads i := responeLogin (data i) (draws i)
  log := []

def runHandlers (server : RedisServer) (address : Nat) (db : server.Db)
    (data : ι → Option (LoginData φ)) (draws : ι → Draw) (schedule : List ι) :
    LoginPool ι φ server :=
  runPool (redisclient server) (started address) (handlerPool server db data draws) schedule

/-- The store has no half-created account, and no reply shows one. -/
def NoHalfAccount {server : RedisServer} (address : Nat) (w : LoginPool ι φ server) : Prop :=
  AccountsWhole φ (server.hashes w.db) ∧
    ∀ i info, (w.threads i).outcome (started address) = some (some (some info)) →
      info.username ≠ .nil ∧ info.money ≠ .nil

/-- Each handler with data gets at most one of its commands done. -/
def LookupsOnly (data : ι → Option (LoginData φ)) (schedule : List ι) : Prop :=
  ∀ i, (data i).isSome = true → schedule.count i ≤ 1

/-! ## Records are never taken away -/

theorem setField_isSome {hashes : Hashes} {k f : String} (h : (hashes k f).isSome = true)
    (key field value : String) : (setField hashes key field value k f).isSome = true := by
  unfold setField
  by_cases hcell : k = key ∧ f = field
  · rw [if_pos hcell]
    rfl
  · rwa [if_neg hcell]

theorem setFields_isSome {k f : String} (key : String) : ∀ (fields : List (String × String))
    (hashes : Hashes), (hashes k f).isSome = true →
      (setFields hashes key fields k f).isSome = true := by
  intro fields
  induction fields with
  | nil => intro hashes h; exact h
  | cons p fields ih => intro hashes h; exact ih _ (setField_isSome h key p.1 p.2)

theorem RecordWhole.setField {hashes : Hashes} {uid : Number φ} (h : RecordWhole hashes uid)
    (key field value : String) : RecordWhole (setField hashes key field value) uid :=
  fun f hf => setField_isSome (h f hf) key field value

theorem RecordWhole.setFields {hashes : Hashes} {uid : Number φ} (h : RecordWhole hashes uid)
    (key : String) (fields : List (String × String)) :
    RecordWhole (setFields hashes key fields) uid :=
  fun f hf => setFields_isSome key fields hashes (h f hf)

theorem recordWhole_setField_uids {hashes : Hashes} {uid : Number φ} (field value : String) :
    RecordWhole (UserService.setField hashes redisUidsKey field value) uid ↔
      RecordWhole hashes uid := by
  have hsame : ∀ f, UserService.setField hashes redisUidsKey field value (recordKey uid) f =
      hashes (recordKey uid) f :=
    fun f => if_neg fun h => recordKey_ne_uidsKey uid h.1
  unfold RecordWhole
  simp only [hsame]

theorem AccountsWhole.setField {hashes : Hashes} (h : AccountsWhole φ hashes)
    (hbase : RecordWhole hashes (.integer redisUidBase : Number φ)) :
    AccountsWhole φ (UserService.setField hashes redisUidsKey "13" "100000") := by
  intro smid uid huid
  rw [recordWhole_setField_uids]
  by_cases hsmid : smid = "13"
  · rw [hsmid, mappedUid_setField] at huid
    cases Option.some.inj huid
    exact hbase
  · rw [mappedUid_setField_of_ne hsmid] at huid
    exact h smid uid huid

theorem AccountsWhole.setFields {hashes : Hashes} (h : AccountsWhole φ hashes)
    (fields : List (String × String)) :
    AccountsWhole φ (UserService.setFields hashes "uid_100000" fields) := by
  intro smid uid huid
  rw [mappedUid_setFields] at huid
  exact (h smid uid huid).setFields "uid_100000" fields

/-! ## Stages of a handler -/

/-- Where a handler can be while no account is half-created. -/
def WholeStage (address : Nat) (hashes : Hashes) (data : Option (LoginData φ)) (draw : Draw)
    (p : Handler φ (Option (UserInfo φ))) : Prop :=
  p = responeLogin data draw ∨
    ((p = creating φ address draw ∨ p = recording φ address draw) ∧
      RecordWhole hashes (.integer redisUidBase : Number φ)) ∨
    (∃ uid, p = reading address uid ∧ RecordWhole hashes uid) ∨
    ∃ info : UserInfo φ, p = .done (some info) ∧ info.username ≠ .nil ∧ info.money ≠ .nil

theorem WholeStage.mono {address : Nat} {hashes hashes' : Hashes}
    {data : Option (LoginData φ)} {draw : Draw} {p : Handler φ (Option (UserInfo φ))}
    (hkept : ∀ uid : Number φ, RecordWhole hashes uid → RecordWhole hashes' uid)
    (h : WholeStage address hashes data draw p) : WholeStage address hashes' data draw p := by
  rcases h with h | ⟨h, hwhole⟩ | ⟨uid, h, hwhole⟩ | h
  · exact .inl h
  · exact .inr (.inl ⟨h, hkept _ hwhole⟩)
  · exact .inr (.inr (.inl ⟨uid, h, hkept _ hwhole⟩))
  · exact .inr (.inr (.inr h))

theorem storedUser_whole {hashes : Hashes} {uid : Number φ} (h : RecordWhole hashes uid) :
    (storedUser (hashes (recordKey uid)) : UserInfo φ).username ≠ .nil ∧
      (storedUser (hashes (recordKey uid)) : UserInfo φ).money ≠ .nil := by
  have hfield : ∀ f ∈ [RedisKey.nick, RedisKey.ontable, RedisKey.coin],
      (bulkValue (hashes (recordKey uid) f) : Value φ) ≠ .nil := by
    intro f hf
    obtain ⟨text, htext⟩ := Option.isSome_iff_exists.mp (h f hf)
    rw [htext]
    exact fun hnil => by cases hnil
  exact ⟨hfield _ (by simp), hfield _ (by simp)⟩

variable {server : RedisServer} {address : Nat} {data : ι → Option (LoginData φ)}
  {draws : ι → Draw}

/-- What holds throughout a run that reaches no half-created account: a handler only creates the
account when the record it is going to write is there already. -/
structure Sound (address : Nat) (data : ι → Option (LoginData φ)) (draws : ι → Draw)
    (w : LoginPool ι φ server) : Prop where
  accounts : AccountsWhole φ (server.hashes w.db)
  ready : (foundUid φ (server.hashes w.db)).nonpositive = true →
    RecordWhole (server.hashes w.db) (.integer redisUidBase : Number φ)
  stage : ∀ i, WholeStage address (server.hashes w.db) (data i) (draws i) (w.threads i)

theorem sound_update {w : LoginPool ι φ server} (h : Sound address data draws w) {i : ι}
    {db : server.Db} {p : Handler φ (Option (UserInfo φ))} {log : List (ι × RedisCall φ)}
    (haccounts : AccountsWhole φ (server.hashes db))
    (hready : (foundUid φ (server.hashes db)).nonpositive = true →
      RecordWhole (server.hashes db) (.integer redisUidBase : Number φ))
    (hkept : ∀ uid : Number φ,
      RecordWhole (server.hashes w.db) uid → RecordWhole (server.hashes db) uid)
    (hp : WholeStage address (server.hashes db) (data i) (draws i) p) :
    Sound address data draws ⟨db, Function.update w.threads i p, log⟩ := by
  refine ⟨haccounts, hready, fun j => ?_⟩
  by_cases hj : j = i
  · subst hj
    change WholeStage _ _ _ _ (Function.update w.threads j p j)
    rwa [Function.update_self]
  · change WholeStage _ _ _ _ (Function.update w.threads i p j)
    rw [Function.update_of_ne hj]
    exact (h.stage j).mono hkept

theorem foundUid_mapped {hashes : Hashes} (h : (foundUid φ hashes).nonpositive = false) :
    mappedUid φ hashes "13" = some (foundUid φ hashes) := by
  unfold foundUid at h ⊢
  cases hmapped : mappedUid φ hashes "13" with
  | none => simp [hmapped, Number.nonpositive] at h
  | some uid => rfl

theorem sound_resume {w : LoginPool ι φ server} (h : Sound address data draws w) (i : ι) :
    Sound address data draws (resume (redisclient server) (started address) w i) := by
  rcases h.stage i with hthread | ⟨hthread | hthread, hbase⟩ | ⟨uid, hthread, hwhole⟩ |
      ⟨info, hthread, hinfo⟩
  · cases hdata : data i with
    | none =>
        rw [hdata] at hthread
        have hfinished : w.threads i = .done none := hthread
        rw [resume_done hfinished]
        exact h
    | some d =>
        rw [hdata] at hthread
        have hlogin : w.threads i = login φ "" (draws i) := hthread
        by_cases habsent : (foundUid φ (server.hashes w.db)).nonpositive = true
        · rw [resume_absent hlogin habsent]
          exact sound_update h h.accounts h.ready (fun _ hu => hu)
            (.inr (.inl ⟨.inl rfl, h.ready habsent⟩))
        · have hpos := Bool.eq_false_iff.mpr habsent
          rw [resume_found hlogin rfl hpos]
          exact sound_update h h.accounts h.ready (fun _ hu => hu)
            (.inr (.inr (.inl ⟨_, rfl, h.accounts "13" _ (foundUid_mapped hpos)⟩)))
  · obtain ⟨db', hhashes, hresume⟩ := resume_creating server hthread
    rw [hresume]
    have hkept : ∀ uid : Number φ, RecordWhole (server.hashes w.db) uid →
        RecordWhole (server.hashes db') uid := by
      intro uid hu
      rw [hhashes]
      exact hu.setField redisUidsKey "13" "100000"
    refine sound_update h ?_ (fun _ => hkept _ hbase) hkept
      (.inr (.inl ⟨.inr rfl, hkept _ hbase⟩))
    rw [hhashes]
    exact h.accounts.setField hbase
  · obtain ⟨db', hhashes, hresume⟩ := resume_recording server hthread
    rw [hresume]
    have hkept : ∀ uid : Number φ, RecordWhole (server.hashes w.db) uid →
        RecordWhole (server.hashes db') uid := by
      intro uid hu
      rw [hhashes]
      exact hu.setFields _ _
    refine sound_update h ?_ (fun _ => hkept _ hbase) hkept
      (.inr (.inr (.inr ⟨_, rfl, ?_, ?_⟩)))
    · rw [hhashes]
      exact h.accounts.setFields _
    · exact fun hnil => by cases hnil
    · exact fun hnil => by cases hnil
  · rw [resume_reading hthread]
    exact sound_update h h.accounts h.ready (fun _ hu => hu)
      (.inr (.inr (.inr ⟨_, rfl, storedUser_whole hwhole⟩)))
  · rw [resume_done hthread]
    exact h

omit [DecidableEq ι] in
theorem noHalfAccount_of_sound {w : LoginPool ι φ server} (h : Sound address data draws w) :
    NoHalfAccount address w := by
  refine ⟨h.accounts, fun i info houtcome => ?_⟩
  rcases h.stage i with hthread | ⟨hthread | hthread, _⟩ | ⟨uid, hthread, _⟩ |
      ⟨info', hthread, hinfo⟩
  · rw [hthread] at houtcome
    cases hdata : data i with
    | none =>
        rw [hdata] at houtcome
        exact absurd (Option.some.inj (Option.some.inj houtcome)).symm (Option.some_ne_none info)
    | some d =>
        rw [hdata] at houtcome
        exact absurd houtcome.symm (Option.some_ne_none _)
  · rw [hthread] at houtcome
    exact absurd houtcome.symm (Option.some_ne_none _)
  · rw [hthread] at houtcome
    exact absurd houtcome.symm (Option.some_ne_none _)
  · rw [hthread] at houtcome
    exact absurd houtcome.symm (Option.some_ne_none _)
  · rw [hthread] at houtcome
    cases Option.some.inj (Option.some.inj (Option.some.inj houtcome))
    exact hinfo

/-! ## Runs -/

/-- Without an account, handlers that have got at most one command done have changed nothing. -/
theorem runHandlers_lookups (server : RedisServer) (address : Nat) (db : server.Db)
    (data : ι → Option (LoginData φ)) (draws : ι → Draw)
    (habsent : (foundUid φ (server.hashes db)).nonpositive = true) :
    ∀ schedule : List ι, LookupsOnly data schedule →
      (runHandlers server address db data draws schedule).db = db ∧
        ∀ i, (runHandlers server address db data draws schedule).threads i =
          if (data i).isSome = true ∧ i ∈ schedule then creating φ address (draws i)
          else responeLogin (data i) (draws i) := by
  intro schedule
  induction schedule using List.reverseRecOn with
  | nil =>
      intro _
      exact ⟨rfl, fun i => by rw [if_neg fun h => List.not_mem_nil h.2]; rfl⟩
  | append_singleton pre k ih =>
      intro hlookups
      have hpre : LookupsOnly data pre := fun i hi =>
        Nat.le_trans ((List.sublist_append_left pre [k]).count_le i) (hlookups i hi)
      obtain ⟨hdb, hthreads⟩ := ih hpre
      unfold runHandlers at hdb hthreads ⊢
      rw [runPool_append, runPool_cons, runPool_nil]
      generalize runPool (redisclient server) (started address)
        (handlerPool server db data draws) pre = w at hdb hthreads ⊢
      cases hdata : data k with
      | none =>
          have hthread : w.threads k = .done none := by
            rw [hthreads, if_neg (by simp [hdata]), hdata]
            rfl
          rw [resume_done hthread]
          refine ⟨hdb, fun i => ?_⟩
          rw [hthreads]
          by_cases hi : i = k
          · subst hi
            rw [hdata, if_neg (by simp), if_neg (by simp)]
          · simp [hi]
      | some d =>
          have hnew : k ∉ pre := by
            intro hmem
            have hcount := hlookups k (by rw [hdata]; rfl)
            rw [List.count_append, List.count_singleton_self] at hcount
            have := List.count_pos_iff.mpr hmem
            omega
          have hthread : w.threads k = login φ "" (draws k) := by
            rw [hthreads, if_neg fun h => hnew h.2, hdata]
            rfl
          rw [resume_absent hthread (by rw [hdb]; exact habsent)]
          refine ⟨hdb, fun i => ?_⟩
          by_cases hi : i = k
          · subst hi
            simp only [Function.update_self]
            rw [if_pos ⟨by rw [hdata]; rfl, by simp⟩]
          · simp only [Function.update_of_ne hi]
            rw [hthreads]
            simp [hi]

/-- The second command of a handler that has found no uid maps the smid to the base uid. -/
theorem runHandlers_second (server : RedisServer) (address : Nat) (db : server.Db)
    (data : ι → Option (LoginData φ)) (draws : ι → Draw)
    (habsent : (foundUid φ (server.hashes db)).nonpositive = true) (pre : List ι) (k : ι)
    (hlookups : LookupsOnly data pre) (hk : (data k).isSome = true) (hmem : k ∈ pre) :
    server.hashes (runHandlers server address db data draws (pre ++ [k])).db =
      setField (server.hashes db) redisUidsKey "13" "100000" := by
  obtain ⟨hdb, hthreads⟩ := runHandlers_lookups server address db data draws habsent pre hlookups
  unfold runHandlers at hdb hthreads ⊢
  rw [runPool_append, runPool_cons, runPool_nil]
  obtain ⟨db', hhashes, hresume⟩ :=
    resume_creating server ((hthreads k).trans (if_pos ⟨hk, hmem⟩))
  rw [hresume]
  exact hhashes.trans (by rw [hdb])

omit [LuaFloat φ] in
/-- A schedule in which some handler gets a second command done has a first such command. -/
theorem exists_second_command {data : ι → Option (LoginData φ)} :
    ∀ schedule : List ι, ¬ LookupsOnly data schedule →
      ∃ pre k, pre ++ [k] <+: schedule ∧ LookupsOnly data pre ∧ (data k).isSome = true ∧
        k ∈ pre := by
  intro schedule
  induction schedule using List.reverseRecOn with
  | nil => intro h; exact absurd (fun i _ => by simp) h
  | append_singleton pre k ih =>
      intro h
      by_cases hpre : LookupsOnly data pre
      · obtain ⟨i, hi⟩ := not_forall.mp h
        obtain ⟨hdata, hcount⟩ := Classical.not_imp.mp hi
        have hpos := hpre i hdata
        rw [List.count_append] at hcount
        have hik : i = k := by
          by_contra hne
          have hzero : [k].count i = 0 := List.count_eq_zero.mpr (by simpa using hne)
          omega
        subst hik
        rw [List.count_singleton_self] at hcount
        exact ⟨pre, i, List.prefix_refl _, hpre, hdata, List.count_pos_iff.mp (by omega)⟩
      · obtain ⟨first, j, hfirst, hrest⟩ := ih hpre
        exact ⟨first, j, hfirst.trans (List.prefix_append pre [k]), hrest⟩

/-- In every state of every run, whatever point the handlers are cut off at, there is no
half-created account, if and only if there was none at the start and no handler creates one, or
its record is there already, or the handlers do not get beyond their lookups. -/
theorem no_half_account_iff (server : RedisServer) (address : Nat) (db : server.Db)
    (data : ι → Option (LoginData φ)) (draws : ι → Draw) (schedule : List ι) :
    (∀ pre, pre <+: schedule →
        NoHalfAccount address (runHandlers server address db data draws pre)) ↔
      AccountsWhole φ (server.hashes db) ∧
        ((foundUid φ (server.hashes db)).nonpositive = false ∨
          RecordWhole (server.hashes db) (.integer redisUidBase : Number φ) ∨
          LookupsOnly data schedule) := by
  constructor
  · intro hall
    have hstart : AccountsWhole φ (server.hashes db) := (hall [] List.nil_prefix).1
    refine ⟨hstart, ?_⟩
    by_contra hcond
    obtain ⟨habsent, hcond⟩ := not_or.mp hcond
    obtain ⟨hbase, hlookups⟩ := not_or.mp hcond
    obtain ⟨pre, k, hpre, hquiet, hk, hmem⟩ := exists_second_command schedule hlookups
    have hhalf := (hall (pre ++ [k]) hpre).1
    rw [runHandlers_second server address db data draws ((Bool.not_eq_false _).mp habsent) pre k
      hquiet hk hmem] at hhalf
    have hrecord := hhalf "13" _ (mappedUid_setField (server.hashes db))
    rw [recordWhole_setField_uids] at hrecord
    exact hbase hrecord
  · rintro ⟨haccounts, hcond⟩ pre hpre
    by_cases habsent : (foundUid φ (server.hashes db)).nonpositive = true
    · by_cases hbase : RecordWhole (server.hashes db) (.integer redisUidBase : Number φ)
      · exact noHalfAccount_of_sound (runPool_invariant _ _ (Sound address data draws)
          (fun _ i h => sound_resume h i) pre _ ⟨haccounts, fun _ => hbase, fun _ => .inl rfl⟩)
      · have hlookups : LookupsOnly data pre := by
          rcases hcond with hfound | hbase' | hlookups
          · exact absurd habsent (by rw [hfound]; decide)
          · exact absurd hbase' hbase
          · exact fun i hi => Nat.le_trans (hpre.sublist.count_le i) (hlookups i hi)
        obtain ⟨hdb, hthreads⟩ :=
          runHandlers_lookups server address db data draws habsent pre hlookups
        refine ⟨by rwa [hdb], fun i info houtcome => ?_⟩
        rw [hthreads] at houtcome
        by_cases hi : (data i).isSome = true ∧ i ∈ pre
        · rw [if_pos hi] at houtcome
          exact absurd houtcome.symm (Option.some_ne_none _)
        · rw [if_neg hi] at houtcome
          cases hdata : data i with
          | none =>
              rw [hdata] at houtcome
              cases houtcome
          | some d =>
              rw [hdata] at houtcome
              exact absurd houtcome.symm (Option.some_ne_none _)
    · exact noHalfAccount_of_sound (runPool_invariant _ _ (Sound address data draws)
        (fun _ i h => sound_resume h i) pre _
        ⟨haccounts, fun h => absurd h habsent, fun _ => .inl rfl⟩)

end HalfCreated

/-! ## One first login, cut off after its HSET -/

/-- The handler has mapped the smid; at this point the uid has no record. -/
theorem half_account_of_first_login :
    ¬ ∀ pre, pre <+: [(), (), ()] →
      NoHalfAccount 1 (runHandlers (φ := Empty) memoryRedis 1 emptyStore
        (fun _ : Unit => some ⟨.string "13"⟩) (fun _ => someDraw) pre) := by
  intro hall
  obtain ⟨haccounts, _⟩ := hall [(), ()] (by decide)
  have hmapped : mappedUid Empty (memoryRedis.hashes (runHandlers (φ := Empty) memoryRedis 1
      emptyStore (fun _ : Unit => some ⟨.string "13"⟩) (fun _ => someDraw) [(), ()]).db) "13" =
      some (.integer 100000) := by decide
  exact absurd (haccounts "13" _ hmapped RedisKey.nick (by decide)) (by decide)

end Doudizhu.UserService
