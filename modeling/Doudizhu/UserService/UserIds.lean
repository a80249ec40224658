import Doudizhu.UserService.Service

/-! # User ids

`generate_userid` asks for INCR through `rcm:INCR(key)`, so the counter's key is taken for the
name of a client.  No client has that name, the answer is `false`, and every call of
`create_user` assigns the base id.  Ids are therefore unique exactly in the runs that start at
most one call with an smid. -/

set_option autoImplicit false

namespace Doudizhu.UserService

open Lua Coroutine

structure CreateCall (φ : Type) where
  smid : Value φ
  draw : Draw

section UserIds
variable {ι φ : Type} [DecidableEq ι] [LuaFloat φ]

def createPool (server : RedisServer) (db : server.Db) (calls : ι → CreateCall φ) :
    Pool ι server.Db RedisClientsMgr (RedisCall φ) (Option (Value φ)) (Option (UserInfo φ)) where
  db := db
  threads i := createUser (calls i).smid (calls i).draw
  log := []

/-- The commands that have taken effect when the handlers run as scheduled. -/
def createLog (server : RedisServer) (address : Nat) (db : server.Db) (calls : ι → CreateCall φ)
    (schedule : List ι) : List (ι × RedisCall φ) :=
  (runPool (redisclient server) (started address) (createPool server db calls) schedule).log

def AssignsUid (log : List (ι × RedisCall φ)) (i : ι) (uid : Value φ) : Prop :=
  ∃ address smid, (i, ⟨address, "HSET", [.string redisUidsKey, smid, uid]⟩) ∈ log

def WritesRecord (log : List (ι × RedisCall φ)) (i : ι) (key : Value φ) : Prop :=
  ∃ address fields, (i, ⟨address, "HMSET", key :: fields⟩) ∈ log

/-- No two calls assign the same uid, and no two write the same record. -/
def UidsUnique (log : List (ι × RedisCall φ)) : Prop :=
  (∀ i j uid, AssignsUid log i uid → AssignsUid log j uid → i = j) ∧
    ∀ i j key, WritesRecord log i key → WritesRecord log j key → i = j

/-- At most one call with an smid is ever scheduled. -/
def OneCreation (calls : ι → CreateCall φ) (schedule : List ι) : Prop :=
  ∀ i ∈ schedule, ∀ j ∈ schedule,
    truthy (calls i).smid = true → truthy (calls j).smid = true → i = j

def baseUid : Value φ := .number (.integer redisUidBase)

def hsetBase (address : Nat) (smid : Value φ) : RedisCall φ :=
  ⟨address, "HSET", [.string redisUidsKey, smid, baseUid]⟩

theorem pending_createUser {smid : Value φ} (hsmid : truthy smid = true) (address : Nat)
    (draw : Draw) :
    (createUser smid draw).pending (started address) = some (hsetBase address smid) := by
  rw [createUser, if_pos hsmid]
  rfl

theorem pending_createUser_of_not {smid : Value φ} (hsmid : ¬ truthy smid = true)
    (address : Nat) (draw : Draw) :
    (createUser smid draw).pending (started address) = none := by
  rw [createUser, if_neg hsmid]
  rfl

theorem createLog_truthy (server : RedisServer) (address : Nat) (db : server.Db)
    (calls : ι → CreateCall φ) (schedule : List ι) (i : ι) (c : RedisCall φ)
    (h : (i, c) ∈ createLog server address db calls schedule) : truthy (calls i).smid = true := by
  let idle (w : Pool ι server.Db RedisClientsMgr (RedisCall φ) (Option (Value φ))
      (Option (UserInfo φ))) : Prop :=
    ∀ j, ¬ truthy (calls j).smid = true →
      (w.threads j).pending (started address) = none ∧ ∀ c, (j, c) ∉ w.log
  have hidle : idle (runPool (redisclient server) (started address)
      (createPool server db calls) schedule) := by
    apply runPool_invariant
    · intro w k hw j hj
      obtain ⟨hpending, hlog⟩ := hw j hj
      by_cases hjk : j = k
      · subst hjk
        rw [resume_of_finished _ _ hpending]
        exact ⟨hpending, hlog⟩
      · rw [resume_threads_ne _ _ hjk]
        refine ⟨hpending, fun c hc => ?_⟩
        rcases resume_log_mem _ _ hc with hc | hc
        · exact hlog c hc
        · exact hjk hc
    · intro j hj
      exact ⟨pending_createUser_of_not hj address _, fun c => by simp [createPool]⟩
  by_contra hsmid
  exact (hidle i hsmid).2 c h

theorem assignsUid_of_scheduled (server : RedisServer) (address : Nat)
    (calls : ι → CreateCall φ) : ∀ (schedule : List ι)
      (w : Pool ι server.Db RedisClientsMgr (RedisCall φ) (Option (Value φ))
        (Option (UserInfo φ))),
      (∀ i, truthy (calls i).smid = true →
        w.threads i = createUser (calls i).smid (calls i).draw ∨ AssignsUid w.log i baseUid) →
      ∀ i ∈ schedule, truthy (calls i).smid = true →
        AssignsUid (runPool (redisclient server) (started address) w schedule).log i baseUid := by
  intro schedule
  induction schedule with
  | nil => intro w _ i hi; simp at hi
  | cons k schedule ih =>
      intro w hw i hi hsmid
      have hfirst : ∀ j, truthy (calls j).smid = true → j = k →
          AssignsUid (resume (redisclient server) (started address) w k).log j baseUid := by
        rintro j hj rfl
        rcases hw j hj with hthread | ⟨a, smid, hmem⟩
        · have hpending := pending_createUser hj address (calls j).draw
          rw [← hthread] at hpending
          rw [resume_of_pending _ _ hpending]
          exact ⟨address, (calls j).smid, List.mem_append_right _ (List.mem_singleton.mpr rfl)⟩
        · exact ⟨a, smid, log_subset_resume _ _ w j hmem⟩
      have hnext : ∀ j, truthy (calls j).smid = true →
          (resume (redisclient server) (started address) w k).threads j =
              createUser (calls j).smid (calls j).draw ∨
            AssignsUid (resume (redisclient server) (started address) w k).log j baseUid := by
        intro j hj
        by_cases hjk : j = k
        · exact Or.inr (hfirst j hj hjk)
        · rw [resume_threads_ne _ _ hjk]
          exact (hw j hj).imp id fun ⟨a, smid, hmem⟩ =>
            ⟨a, smid, log_subset_resume _ _ w k hmem⟩
      rcases List.mem_cons.mp hi with rfl | hi
      · obtain ⟨a, smid, hmem⟩ := hfirst i hsmid rfl
        exact ⟨a, smid, log_subset_runPool _ _ schedule _ hmem⟩
      · exact ih _ hnext i hi hsmid

/-- In every run, the uids assigned are pairwise distinct if and only if at most one call of
`create_user` with an smid has been scheduled. -/
theorem createUser_uids_unique_iff (server : RedisServer) (address : Nat) (db : server.Db)
    (calls : ι → CreateCall φ) (schedule : List ι) :
    UidsUnique (createLog server address db calls schedule) ↔ OneCreation calls schedule := by
  constructor
  · intro hunique i hi j hj hsi hsj
    have hassigns := assignsUid_of_scheduled server address calls schedule
      (createPool server db calls) (fun _ _ => Or.inl rfl)
    exact hunique.1 i j baseUid (hassigns i hi hsi) (hassigns j hj hsj)
  · intro hone
    have hsame : ∀ i j c d, (i, c) ∈ createLog server address db calls schedule →
        (j, d) ∈ createLog server address db calls schedule → i = j := by
      intro i j c d hc hd
      have hscheduled : ∀ k e, (k, e) ∈ createLog server address db calls schedule →
          k ∈ schedule := by
        intro k e he
        rcases runPool_log_mem _ _ schedule _ k e he with h | h
        · simp [createPool] at h
        · exact h
      exact hone i (hscheduled i c hc) j (hscheduled j d hd)
        (createLog_truthy server address db calls schedule i c hc)
        (createLog_truthy server address db calls schedule j d hd)
    refine ⟨?_, ?_⟩
    · rintro i j uid ⟨a, s, hi⟩ ⟨b, t, hj⟩
      exact hsame i j _ _ hi hj
    · rintro i j key ⟨a, s, hi⟩ ⟨b, t, hj⟩
      exact hsame i j _ _ hi hj

end UserIds

/-! ## Two accounts created one after the other -/

def twoCreations (second : Bool) : CreateCall Empty :=
  ⟨.string (if second then "guest-2" else "guest-1"), someDraw⟩

/-- The second call starts when the first has returned; both get the id 100000. -/
theorem createUser_repeats_uid :
    ¬ UidsUnique (createLog memoryRedis 1 ⟨fun _ _ => none, fun _ => 0⟩ twoCreations
      [false, false, true, true]) := by
  intro hunique
  have hfirst : AssignsUid (createLog memoryRedis 1 ⟨fun _ _ => none, fun _ => 0⟩ twoCreations
      [false, false, true, true]) false baseUid :=
    ⟨1, .string "guest-1", List.mem_cons_self ..⟩
  have hsecond : AssignsUid (createLog memoryRedis 1 ⟨fun _ _ => none, fun _ => 0⟩ twoCreations
      [false, false, true, true]) true baseUid :=
    ⟨1, .string "guest-2", List.mem_cons_of_mem _ (List.mem_cons_of_mem _
      (List.mem_cons_self ..))⟩
  exact absurd (hunique.1 false true baseUid hfirst hsecond) (by decide)

end Doudizhu.UserService
