import Doudizhu.UserService.HalfCreated
import Doudizhu.UserService.StartUp

/-! # Answered logins and the store

A login answers with an account although nothing has been stored when the clients it asks for
are not registered: the manager answers `false` for them, and every wrapper takes that for an
answer.  Before `addRedisClient` has returned that is `user_redis`; at any time it is
`uid_counter`, the name INCR is asked under.  A login comes to the end of `create_user` only if
it has missed that client, so a run in which one does is wrong, and so is a run in which a login
answers with a record that is not whole or has been written over since it was read. -/

set_option autoImplicit false

namespace Doudizhu.UserService

open Lua Coroutine Runs

section Properties
variable {ι φ : Type} [LuaFloat φ] {server : RedisServer}

/-- A handler that goes on with these clients asks for one that is not registered: if it were,
the handler would go on otherwise. -/
def Misses {A : Type} (rcm : RedisClientsMgr) (p : Handler φ A) : Prop :=
  ∃ name rc, rcm.m_map name = none ∧ p.settle (rcm.addRedisClient name rc) ≠ p.settle rcm

def MissesClient (data : ι → Option (LoginData φ)) (draws : ι → Draw)
    (s : ServiceState ι φ server) (i : ι) : ServiceEvent ι → Prop
  | .login j => i = j ∧ ∃ p, s.messageCode data draws i = some p ∧ Misses s.rcm p
  | .resume j => i = j ∧ ∃ p, s.answerCode i = some p ∧ Misses s.rcm p
  | _ => False

/-- Login `i` has ended with the account `info`. -/
def Returns (s : ServiceState ι φ server) (i : ι) (info : UserInfo φ) : Prop :=
  s.threads i = .running (.done (some info))

/-- The entry in `uidsMap`, and the record of its uid with the values of the account. -/
def StoredAccount (hashes : Hashes) (info : UserInfo φ) : Prop :=
  ∃ uid : Number φ, mappedUid φ hashes "13" = some uid ∧ uid.nonpositive = false ∧
    (info.uid = .nil ∨ info.uid = .number uid) ∧ info.username ≠ .nil ∧ info.money ≠ .nil ∧
    hashes (recordKey uid) RedisKey.nick = some (tostring info.username) ∧
    (hashes (recordKey uid) RedisKey.ontable).isSome = true ∧
    hashes (recordKey uid) RedisKey.coin = some (tostring info.money)

/-- A login comes out of `create_user` with an account: its HMSET has been answered, or it finds
no client to send the rest of its commands to. -/
def ReturnsNew (data : ι → Option (LoginData φ)) (s : ServiceState ι φ server) :
    ServiceEvent ι → Prop
  | .login i => s.threads i = .waiting ∧ (data i).isSome = true ∧
      s.rcm.m_map redisName = none ∧ s.rcm.m_map redisUidTag = none
  | .resume i => ∃ call k answer, s.threads i = .answered call k (some answer) ∧
      (call.cmd = "HMSET" ∨ s.rcm.m_map redisName = none ∧
        (call.cmd = "HSET" ∨ call.cmd = "HGET" ∧ (uidOf answer).nonpositive = true ∧
          s.rcm.m_map redisUidTag = none))
  | _ => False

/-- When a login is handed the record it has asked for, the store has that record whole, with
the nick and the coins that the login has read. -/
def RecordStands (s : ServiceState ι φ server) : ServiceEvent ι → Prop
  | .resume i => ∀ rc (uid : Number φ) k items,
      s.threads i = .answered (hmgetRecord rc uid) k (some (.table items)) →
        RecordWhole (server.hashes s.db) uid ∧
        (items[0]?).join = server.hashes s.db (recordKey uid) RedisKey.nick ∧
        (items[2]?).join = server.hashes s.db (recordKey uid) RedisKey.coin
  | _ => True

variable [DecidableEq ι]

structure AnsweredStored (data : ι → Option (LoginData φ)) (draws : ι → Draw)
    (s₀ : ServiceState ι φ server) (es : List (ServiceEvent ι)) : Prop where
  /-- An account that a step returns is in the store then. -/
  stored : ∀ pre e s s', pre ++ [e] <+: es →
    run (ServiceState.step data draws) s₀ pre = some s →
    ServiceState.step data draws s e = some s' →
    ∀ i info, (∀ old, ¬ Returns s i old) → Returns s' i info →
      StoredAccount (server.hashes s'.db) info
  /-- A login that has missed a client never returns an account. -/
  reported : ∀ pre e post s t, pre ++ e :: post <+: es →
    run (ServiceState.step data draws) s₀ pre = some s →
    run (ServiceState.step data draws) s₀ (pre ++ e :: post) = some t →
    ∀ i, MissesClient data draws s i e → ∀ info, ¬ Returns t i info

end Properties

/-! ## Missed clients -/

section Missed
variable {φ A : Type}

/-- Whether a method call on `rcm` misses its client is a matter of the name. -/
theorem misses_rcmCall (rcm : RedisClientsMgr) (cmd name : String) (args : List (Value φ))
    (rest : Value φ → Handler φ A) (h : rcm.m_map name = none) :
    Misses rcm (rcmCall cmd name args >>= rest) := by
  have hadded : ∀ rc, (rcmCall cmd name args >>= rest).settle (rcm.addRedisClient name rc) =
      suspended ⟨rc, cmd, args⟩ rest := by
    intro rc
    have hname : (rcm.addRedisClient name rc).m_map name = some rc := Function.update_self ..
    rw [settle_rcmCall, hname]
  by_cases hzero : suspended ⟨0, cmd, args⟩ rest = (rcmCall cmd name args >>= rest).settle rcm
  · refine ⟨name, 1, h, ?_⟩
    rw [hadded, ← hzero]
    intro heq
    injection heq with hcall _
    injection hcall with haddress _
    exact absurd haddress (by decide)
  · exact ⟨name, 0, h, by rw [hadded]; exact hzero⟩

theorem not_misses_rcmCall (rcm : RedisClientsMgr) (cmd name : String) (args : List (Value φ))
    (rest : Value φ → Handler φ A) {rc : Nat} (h : rcm.m_map name = some rc) :
    ¬ Misses rcm (rcmCall cmd name args >>= rest) := by
  rintro ⟨other, address, hother, hne⟩
  have hname : (rcm.addRedisClient other address).m_map name = some rc := by
    have hdiff : name ≠ other := by
      rintro rfl
      rw [h] at hother
      cases hother
    exact (Function.update_of_ne hdiff ..).trans h
  apply hne
  rw [settle_rcmCall, settle_rcmCall, hname, h]

theorem not_misses_of_settle (rcm : RedisClientsMgr) {p : Handler φ A}
    (h : ∀ other, p.settle other = p.settle rcm) : ¬ Misses rcm p := by
  rintro ⟨_, _, _, hne⟩
  exact hne (h _)

end Missed

/-! ## Where the stages can go -/

section Stages
variable {ι φ : Type} [LuaFloat φ] {server : RedisServer}

/-- The login cannot return an account any more. -/
def LoginStage.Doomed : LoginStage φ → Prop
  | .counting _ | .refused _ | .failed => True
  | _ => False

/-- The login is on its way through `create_user`, or has returned a new account. -/
def LoginStage.Creating : LoginStage φ → Prop
  | .assigning _ | .assigned _ _ | .recording _ | .recorded _ _ | .created => True
  | _ => False

/-- No uid is found for the smid, or the one that `create_user` stores. -/
def Unmapped (φ : Type) [LuaFloat φ] (hashes : Hashes) : Prop :=
  (foundUid φ hashes).nonpositive = true ∨
    mappedUid φ hashes "13" = some (.integer redisUidBase)

/-- A uid that a login has found is still the one the smid is mapped to. -/
def LoginStage.Mapped (hashes : Hashes) : LoginStage φ → Prop
  | .looked _ answer => if (uidOf answer).nonpositive then Unmapped φ hashes
      else mappedUid φ hashes "13" = some (uidOf answer)
  | .assigning _ => Unmapped φ hashes
  | .reading _ uid | .read _ uid _ =>
      mappedUid φ hashes "13" = some uid ∧ uid.nonpositive = false
  | _ => True

theorem returned_stage {l : Logins ι φ server} {draws : ι → Draw} {i : ι} {info : UserInfo φ}
    (h : Returns (l.service draws) i info) :
    (l.stage i = .created ∧ info = newUser φ (draws i)) ∨
      ∃ record, l.stage i = .stored record ∧ info = storedUser record := by
  unfold Returns Logins.service at h
  cases hstage : l.stage i <;> simp only [hstage, LoginStage.thread, suspended] at h
  case created => cases h; exact .inl ⟨rfl, rfl⟩
  case stored record => cases h; exact .inr ⟨record, rfl, rfl⟩
  all_goals cases h

omit [LuaFloat φ] in
theorem create_doomed {rcm : RedisClientsMgr} {rc : Nat} (h : rcm.m_map redisUidTag = some rc) :
    (LoginStage.create rcm : LoginStage φ) = .counting rc := by
  rw [LoginStage.create, h]

omit [LuaFloat φ] in
theorem record_creating (rcm : RedisClientsMgr) :
    (LoginStage.record rcm : LoginStage φ).Creating := by
  unfold LoginStage.record
  cases rcm.m_map redisName <;> trivial

omit [LuaFloat φ] in
theorem create_creating {rcm : RedisClientsMgr} (h : rcm.m_map redisUidTag = none) :
    (LoginStage.create rcm : LoginStage φ).Creating := by
  rw [LoginStage.create, h]
  change (LoginStage.assign rcm : LoginStage φ).Creating
  unfold LoginStage.assign
  cases rcm.m_map redisName with
  | none => exact record_creating rcm
  | some rc => trivial

variable [DecidableEq ι] {data : ι → Option (LoginData φ)} {l l' : Logins ι φ server}
  {e : ServiceEvent ι}

/-- A property of stages that commands and answers keep is kept by every step. -/
theorem moves_keep {P : LoginStage φ → Prop} (hwaiting : ¬ P .waiting)
    (hcommand : ∀ db db' stage next, P stage → Commanded server db stage next db' → P next)
    (hresume : ∀ rcm stage next, P stage → stage.resume rcm = some next → P next)
    (hmoves : Moves data l e l') {i : ι} (h : P (l.stage i)) : P (l'.stage i) := by
  cases hmoves with
  | addRedisClient name rc => exact h
  | delRedisClient name => exact h
  | login j hstage =>
      have hij : i ≠ j := by
        rintro rfl
        rw [hstage] at h
        exact hwaiting h
      rwa [Logins.setStage_of_ne _ hij]
  | command j hcommanded =>
      by_cases hij : i = j
      · subst hij
        rw [Logins.setStage_self]
        exact hcommand _ _ _ _ h hcommanded
      · rwa [Logins.setStage_of_ne _ hij]
  | resume j hresumed =>
      by_cases hij : i = j
      · subst hij
        rw [Logins.setStage_self]
        exact hresume _ _ _ h hresumed
      · rwa [Logins.setStage_of_ne _ hij]

theorem doomed_moves (hmoves : Moves data l e l') {i : ι} (h : (l.stage i).Doomed) :
    (l'.stage i).Doomed := by
  refine moves_keep id ?_ ?_ hmoves h
  · intro db db' stage next h hcommanded
    cases hcommanded
    case refused rc => trivial
    all_goals exact h
  · intro rcm stage next h hresumed
    cases stage
    case refused rc =>
      cases Option.some.inj hresumed
      trivial
    case counting rc => cases hresumed
    case failed => cases hresumed
    all_goals exact h.elim

theorem creating_moves (hmoves : Moves data l e l') {i : ι} (h : (l.stage i).Creating) :
    (l'.stage i).Creating := by
  refine moves_keep id ?_ ?_ hmoves h
  · intro db db' stage next h hcommanded
    cases hcommanded
    case assigned rc answer _ => trivial
    case recorded rc answer _ _ => trivial
    all_goals exact h
  · intro rcm stage next h hresumed
    cases stage
    case assigned rc answer =>
      cases Option.some.inj hresumed
      exact record_creating rcm
    case recorded rc answer =>
      cases Option.some.inj hresumed
      trivial
    case assigning rc => cases hresumed
    case recording rc => cases hresumed
    case created => cases hresumed
    all_goals exact h.elim

theorem mapped_setField {stage : LoginStage φ} {hashes : Hashes} (hfree : Unmapped φ hashes)
    (h : stage.Mapped hashes) :
    stage.Mapped (UserService.setField hashes redisUidsKey "13" "100000") := by
  have hbase := mappedUid_setField (φ := φ) hashes
  have hkept : ∀ uid : Number φ, mappedUid φ hashes "13" = some uid → uid.nonpositive = false →
      mappedUid φ (UserService.setField hashes redisUidsKey "13" "100000") "13" = some uid := by
    intro uid huid hpos
    rcases hfree with hnone | hsame
    · rw [foundUid, huid, Option.getD_some, hpos] at hnone
      cases hnone
    · rw [hbase, ← huid, hsame]
      rfl
  cases stage
  case looked rc answer =>
    simp only [LoginStage.Mapped] at h ⊢
    by_cases hnew : (uidOf answer).nonpositive = true
    · rw [if_pos hnew]
      exact .inr hbase
    · rw [if_neg hnew] at h ⊢
      exact hkept _ h (Bool.eq_false_iff.mpr hnew)
  case assigning rc => exact .inr hbase
  case reading rc uid => exact ⟨hkept uid h.1 h.2, h.2⟩
  case read rc uid record => exact ⟨hkept uid h.1 h.2, h.2⟩
  all_goals trivial

theorem mapped_setFields {stage : LoginStage φ} {hashes : Hashes}
    (fields : List (String × String)) :
    stage.Mapped (UserService.setFields hashes "uid_100000" fields) ↔ stage.Mapped hashes := by
  unfold LoginStage.Mapped Unmapped foundUid
  simp only [mappedUid_setFields]

theorem mapped_create {rcm : RedisClientsMgr} {hashes : Hashes} (h : Unmapped φ hashes) :
    (LoginStage.create rcm : LoginStage φ).Mapped hashes := by
  unfold LoginStage.create LoginStage.assign LoginStage.record
  cases rcm.m_map redisUidTag with
  | some rc => trivial
  | none =>
      cases rcm.m_map redisName with
      | none => trivial
      | some rc => exact h

/-- Without a client for the lookup there is none for HSET either. -/
theorem mapped_look (rcm : RedisClientsMgr) (hashes : Hashes) :
    (LoginStage.look rcm : LoginStage φ).Mapped hashes := by
  unfold LoginStage.look
  cases hclient : rcm.m_map redisName with
  | some rc => trivial
  | none =>
      unfold LoginStage.create LoginStage.assign LoginStage.record
      rw [hclient]
      cases rcm.m_map redisUidTag <;> trivial

theorem mapped_setStage {hashes : Hashes} (h : ∀ i, (l.stage i).Mapped hashes) {i : ι}
    {next : LoginStage φ} (hnext : next.Mapped hashes) (j : ι) :
    ((l.setStage i next).stage j).Mapped hashes := by
  by_cases hij : j = i
  · subst hij
    rwa [Logins.setStage_self]
  · rw [Logins.setStage_of_ne _ hij]
    exact h j

theorem mapped_moves (hmoves : Moves data l e l')
    (h : ∀ i, (l.stage i).Mapped (server.hashes l.db)) (i : ι) :
    (l'.stage i).Mapped (server.hashes l'.db) := by
  cases hmoves with
  | addRedisClient name rc => exact h i
  | delRedisClient name => exact h i
  | login j hwaiting =>
      refine mapped_setStage h ?_ i
      split_ifs
      · exact mapped_look _ _
      · trivial
  | command j hcommanded =>
      have hj := h j
      rename_i next db
      change ((l.setStage j next).stage i).Mapped (server.hashes db)
      have hkept : (∀ k, (l.stage k).Mapped (server.hashes db)) → next.Mapped (server.hashes db) →
          ((l.setStage j next).stage i).Mapped (server.hashes db) :=
        fun hothers hnext => mapped_setStage hothers hnext i
      generalize l.stage j = stage at hj hcommanded
      cases hcommanded with
      | looked rc answer hfound =>
          refine hkept h ?_
          simp only [LoginStage.Mapped, hfound]
          by_cases hnew : (foundUid φ (server.hashes l.db)).nonpositive = true
          · rw [if_pos hnew]
            exact .inl hnew
          · rw [if_neg hnew]
            exact foundUid_mapped (Bool.eq_false_iff.mpr hnew)
      | refused rc => exact hkept h trivial
      | assigned rc answer hhashes =>
          refine hkept (fun k => ?_) trivial
          rw [hhashes]
          exact mapped_setField hj (h k)
      | recorded rc answer username hhashes =>
          refine hkept (fun k => ?_) trivial
          rw [hhashes, mapped_setFields]
          exact h k
      | read rc uid => exact hkept h hj
  | resume j hresumed =>
      have hj := h j
      refine mapped_setStage h ?_ i
      cases hstage : l.stage j <;> rw [hstage] at hresumed hj
      case looked rc answer =>
        cases Option.some.inj hresumed
        simp only [LoginStage.Mapped] at hj
        by_cases hnew : (uidOf answer).nonpositive = true
        · rw [if_pos hnew] at hj ⊢
          exact mapped_create hj
        · rw [if_neg hnew] at hj ⊢
          unfold LoginStage.lookUid
          cases l.rcm.m_map redisName with
          | none => trivial
          | some rc => exact ⟨hj, Bool.eq_false_iff.mpr hnew⟩
      case assigned rc answer =>
        cases Option.some.inj hresumed
        unfold LoginStage.record
        cases l.rcm.m_map redisName <;> trivial
      case refused rc => cases Option.some.inj hresumed; trivial
      case recorded rc answer => cases Option.some.inj hresumed; trivial
      case read rc uid record => cases Option.some.inj hresumed; trivial
      all_goals cases hresumed

/-! ## What a step can do -/

variable {draws : ι → Draw}

omit [DecidableEq ι] in
theorem messageCode_waiting {i : ι} (h : l.stage i = .waiting) :
    (l.service draws).messageCode data draws i = some (responeLogin (data i) (draws i)) := by
  unfold ServiceState.messageCode Logins.service
  simp only [h, LoginStage.thread]

omit [DecidableEq ι] in
theorem answerCode_answered {i : ι} {call : RedisCall φ} {answer : Option (Value φ)}
    {k : Option (Value φ) → Handler φ (Option (UserInfo φ))}
    (h : (l.stage i).thread (draws i) = .answered call k answer) :
    (l.service draws).answerCode i = some (k answer) := by
  have hthread : (l.service draws).threads i = (l.stage i).thread (draws i) := rfl
  rw [ServiceState.answerCode, hthread, h]

omit [LuaFloat φ] in
/-- Without a client named `uid_counter` a login creates an account. -/
theorem create_cases (rcm : RedisClientsMgr) :
    (LoginStage.create rcm : LoginStage φ).Doomed ∨
      rcm.m_map redisUidTag = none ∧ (LoginStage.create rcm : LoginStage φ).Creating := by
  cases hcount : rcm.m_map redisUidTag with
  | some rc =>
      rw [create_doomed hcount]
      exact .inl trivial
  | none => exact .inr ⟨rfl, create_creating hcount⟩

/-- A login that misses a client fails or goes through `create_user`. -/
theorem missed_moves (hmoves : Moves data l e l') {i : ι}
    (hmisses : MissesClient data draws (l.service draws) i e) :
    (l'.stage i).Doomed ∨ (l'.stage i).Creating := by
  cases hmoves with
  | addRedisClient name rc => exact hmisses.elim
  | delRedisClient name => exact hmisses.elim
  | command j hcommanded => exact hmisses.elim
  | login j hwaiting =>
      obtain ⟨rfl, p, hp, hmisses⟩ := hmisses
      rw [messageCode_waiting hwaiting] at hp
      cases Option.some.inj hp
      rw [Logins.setStage_self]
      cases hdata : data i with
      | none =>
          rw [hdata] at hmisses
          exact absurd hmisses (not_misses_of_settle _ fun _ => rfl)
      | some d =>
          rw [hdata, responeLogin_eq] at hmisses
          rw [Option.isSome_some, if_pos rfl, LoginStage.look]
          cases hclient : l.rcm.m_map redisName with
          | some rc => exact absurd hmisses (not_misses_rcmCall _ _ _ _ _ hclient)
          | none => exact (create_cases l.rcm).imp_right And.right
  | resume j hresumed =>
      obtain ⟨rfl, p, hp, hmisses⟩ := hmisses
      rw [Logins.setStage_self]
      cases hstage : l.stage i <;> rw [hstage] at hresumed
      case looked rc answer =>
        rw [answerCode_answered (by rw [hstage]; rfl)] at hp
        cases Option.some.inj hp
        cases Option.some.inj hresumed
        simp only [answerWith, afterLookup] at hmisses
        by_cases hnew : (uidOf answer).nonpositive = true
        · rw [if_pos hnew]
          exact (create_cases l.rcm).imp_right And.right
        · rw [if_neg hnew] at hmisses ⊢
          unfold LoginStage.lookUid
          cases hclient : l.rcm.m_map redisName with
          | none => exact .inl trivial
          | some rc =>
              rw [enterRead_eq] at hmisses
              exact absurd hmisses (not_misses_rcmCall _ _ _ _ _ hclient)
      case refused rc => cases Option.some.inj hresumed; exact .inl trivial
      case assigned rc answer => cases Option.some.inj hresumed; exact .inr (record_creating _)
      case recorded rc answer => cases Option.some.inj hresumed; exact .inr trivial
      case read rc uid record =>
        rw [answerCode_answered (by rw [hstage]; rfl)] at hp
        cases Option.some.inj hp
        exact absurd hmisses (not_misses_of_settle _ fun _ => rfl)
      all_goals cases hresumed

theorem creating_of_missed (hmoves : Moves data l e l') {i : ι} (hbefore : ¬ (l.stage i).Creating)
    (hafter : (l'.stage i).Creating) : MissesClient data draws (l.service draws) i e := by
  have hcounted : (LoginStage.create l.rcm : LoginStage φ).Creating →
      l.rcm.m_map redisUidTag = none := by
    intro hcreating
    cases hcount : l.rcm.m_map redisUidTag with
    | none => rfl
    | some rc =>
        rw [create_doomed hcount] at hcreating
        exact hcreating.elim
  cases hmoves with
  | addRedisClient name rc => exact absurd hafter hbefore
  | delRedisClient name => exact absurd hafter hbefore
  | login j hwaiting =>
      by_cases hij : i = j
      · subst hij
        rw [Logins.setStage_self] at hafter
        split_ifs at hafter with hsome
        · obtain ⟨d, hdata⟩ := Option.isSome_iff_exists.mp hsome
          refine ⟨rfl, _, messageCode_waiting hwaiting, ?_⟩
          rw [hdata, responeLogin_eq]
          unfold LoginStage.look at hafter
          cases hclient : l.rcm.m_map redisName with
          | none => exact misses_rcmCall _ _ _ _ _ hclient
          | some rc =>
              rw [hclient] at hafter
              exact hafter.elim
        · exact hafter.elim
      · rw [Logins.setStage_of_ne _ hij] at hafter
        exact absurd hafter hbefore
  | command j hcommanded =>
      by_cases hij : i = j
      · subst hij
        rw [Logins.setStage_self] at hafter
        generalize l.stage i = stage at hbefore hcommanded
        cases hcommanded
        case assigned rc answer _ => exact absurd trivial hbefore
        case recorded rc answer _ _ => exact absurd trivial hbefore
        all_goals exact hafter.elim
      · rw [Logins.setStage_of_ne _ hij] at hafter
        exact absurd hafter hbefore
  | resume j hresumed =>
      by_cases hij : i = j
      · subst hij
        rw [Logins.setStage_self] at hafter
        cases hstage : l.stage i <;> rw [hstage] at hresumed hbefore
        case looked rc answer =>
          cases Option.some.inj hresumed
          refine ⟨rfl, _, answerCode_answered (by rw [hstage]; rfl), ?_⟩
          simp only [answerWith, afterLookup]
          by_cases hnew : (uidOf answer).nonpositive = true
          · rw [if_pos hnew] at hafter ⊢
            rw [enterCreate_eq]
            exact misses_rcmCall _ _ _ _ _ (hcounted hafter)
          · rw [if_neg hnew, LoginStage.lookUid] at hafter
            cases hclient : l.rcm.m_map redisName <;> rw [hclient] at hafter <;>
              exact hafter.elim
        case refused rc => cases Option.some.inj hresumed; exact hafter.elim
        case assigned rc answer => exact absurd trivial hbefore
        case recorded rc answer => exact absurd trivial hbefore
        case read rc uid record => cases Option.some.inj hresumed; exact hafter.elim
        all_goals cases hresumed
      · rw [Logins.setStage_of_ne _ hij] at hafter
        exact absurd hafter hbefore

/-- Only the steps that come out of `create_user` return a new account. -/
theorem created_moves (hmoves : Moves data l e l') {i : ι} (hbefore : l.stage i ≠ .created)
    (hafter : l'.stage i = .created) : ReturnsNew data (l.service draws) e := by
  have hthread : (l.service draws).threads i = (l.stage i).thread (draws i) := rfl
  have hrecord : ∀ rcm : RedisClientsMgr, (LoginStage.record rcm : LoginStage φ) = .created →
      rcm.m_map redisName = none := by
    intro rcm hcreated
    unfold LoginStage.record at hcreated
    cases hclient : rcm.m_map redisName with
    | none => rfl
    | some rc => rw [hclient] at hcreated; cases hcreated
  have hcreate : ∀ rcm : RedisClientsMgr, (LoginStage.create rcm : LoginStage φ) = .created →
      rcm.m_map redisName = none ∧ rcm.m_map redisUidTag = none := by
    intro rcm hcreated
    unfold LoginStage.create LoginStage.assign at hcreated
    cases hcount : rcm.m_map redisUidTag <;> cases hclient : rcm.m_map redisName <;>
      rw [hcount] at hcreated <;> simp only [hclient] at hcreated
    case none.none => exact ⟨rfl, rfl⟩
    all_goals cases hcreated
  cases hmoves with
  | addRedisClient name rc => exact absurd hafter hbefore
  | delRedisClient name => exact absurd hafter hbefore
  | login j hwaiting =>
      by_cases hij : i = j
      · subst hij
        rw [Logins.setStage_self] at hafter
        split_ifs at hafter with hsome
        unfold LoginStage.look at hafter
        cases hclient : l.rcm.m_map redisName with
        | some rc => rw [hclient] at hafter; cases hafter
        | none =>
            rw [hclient] at hafter
            exact ⟨by rw [hthread, hwaiting]; rfl, hsome, hcreate _ hafter⟩
      · rw [Logins.setStage_of_ne _ hij] at hafter
        exact absurd hafter hbefore
  | command j hcommanded =>
      by_cases hij : i = j
      · subst hij
        rw [Logins.setStage_self] at hafter
        rw [hafter] at hcommanded
        generalize l.stage i = stage at hcommanded
        cases hcommanded
      · rw [Logins.setStage_of_ne _ hij] at hafter
        exact absurd hafter hbefore
  | resume j hresumed =>
      by_cases hij : i = j
      · subst hij
        rw [Logins.setStage_self] at hafter
        subst hafter
        cases hstage : l.stage i <;> rw [hstage] at hresumed hthread
        case looked rc answer =>
          have hnext := Option.some.inj hresumed
          by_cases hnew : (uidOf answer).nonpositive = true
          · rw [if_pos hnew] at hnext
            obtain ⟨hclient, hcount⟩ := hcreate _ hnext
            exact ⟨_, _, answer, hthread, .inr ⟨hclient, .inr ⟨rfl, hnew, hcount⟩⟩⟩
          · rw [if_neg hnew, LoginStage.lookUid] at hnext
            cases hclient : l.rcm.m_map redisName <;> rw [hclient] at hnext <;> cases hnext
        case assigned rc answer =>
          exact ⟨_, _, answer, hthread, .inr ⟨hrecord _ (Option.some.inj hresumed), .inl rfl⟩⟩
        case recorded rc answer => exact ⟨_, _, answer, hthread, .inl rfl⟩
        all_goals cases hresumed
      · rw [Logins.setStage_of_ne _ hij] at hafter
        exact absurd hafter hbefore

theorem created_of_returnsNew (hmoves : Moves data l e l')
    (hnew : ReturnsNew data (l.service draws) e) :
    ∃ i, l.stage i ≠ .created ∧ l'.stage i = .created := by
  cases hmoves with
  | addRedisClient name rc => exact hnew.elim
  | delRedisClient name => exact hnew.elim
  | command j hcommanded => exact hnew.elim
  | login i hwaiting =>
      obtain ⟨-, hsome, hclient, hcount⟩ := hnew
      change l.rcm.m_map redisName = none at hclient
      change l.rcm.m_map redisUidTag = none at hcount
      have hbefore : l.stage i ≠ .created := by
        rw [hwaiting]
        intro h
        cases h
      refine ⟨i, hbefore, ?_⟩
      rw [Logins.setStage_self, if_pos hsome]
      unfold LoginStage.look LoginStage.create LoginStage.assign LoginStage.record
      rw [hclient, hcount]
  | resume i hresumed =>
      obtain ⟨call, k, answer, hthread, hcmd⟩ := hnew
      change (l.stage i).thread (draws i) = _ at hthread
      refine ⟨i, fun hcreated => ?_, ?_⟩
      · rw [hcreated] at hthread
        cases hthread
      · rw [Logins.setStage_self]
        cases hstage : l.stage i <;> rw [hstage] at hthread hresumed
        case looked rc answer' =>
          cases hthread
          rcases hcmd with hcmd | ⟨hclient, hcmd | ⟨-, hfound, hcount⟩⟩
          · exact absurd hcmd (by decide : ¬ "HGET" = "HMSET")
          · exact absurd hcmd (by decide : ¬ "HGET" = "HSET")
          · change l.rcm.m_map redisName = none at hclient
            change l.rcm.m_map redisUidTag = none at hcount
            cases Option.some.inj hresumed
            rw [if_pos hfound]
            unfold LoginStage.create LoginStage.assign LoginStage.record
            rw [hcount, hclient]
        case assigned rc answer' =>
          cases hthread
          rcases hcmd with hcmd | ⟨hclient, -⟩
          · exact absurd hcmd (by decide : ¬ "HSET" = "HMSET")
          · change l.rcm.m_map redisName = none at hclient
            cases Option.some.inj hresumed
            rw [LoginStage.record, hclient]
        case recorded rc answer' =>
          cases Option.some.inj hresumed
          rfl
        case read rc uid record =>
          cases hthread
          rcases hcmd with hcmd | ⟨-, hcmd | ⟨hcmd, -⟩⟩
          · exact absurd hcmd (by decide : ¬ "HMGET" = "HMSET")
          · exact absurd hcmd (by decide : ¬ "HMGET" = "HSET")
          · exact absurd hcmd (by decide : ¬ "HMGET" = "HGET")
        all_goals cases hthread

/-- A stored account is returned by the step that hands over its record. -/
theorem stored_moves (hmoves : Moves data l e l') {i : ι} {record : String → Option String}
    (hbefore : l.stage i ≠ .stored record) (hafter : l'.stage i = .stored record) :
    e = .resume i ∧ l'.db = l.db ∧ ∃ rc uid, l.stage i = .read rc uid record := by
  have hcreate : ∀ rcm : RedisClientsMgr,
      (LoginStage.create rcm : LoginStage φ) ≠ .stored record := by
    intro rcm hstored
    have hcases := create_cases (φ := φ) rcm
    rw [hstored] at hcases
    rcases hcases with hdoomed | ⟨-, hcreating⟩
    · exact hdoomed
    · exact hcreating
  cases hmoves with
  | addRedisClient name rc => exact absurd hafter hbefore
  | delRedisClient name => exact absurd hafter hbefore
  | login j hwaiting =>
      by_cases hij : i = j
      · subst hij
        rw [Logins.setStage_self] at hafter
        split_ifs at hafter
        unfold LoginStage.look at hafter
        cases hclient : l.rcm.m_map redisName with
        | some rc => rw [hclient] at hafter; cases hafter
        | none =>
            rw [hclient] at hafter
            exact absurd hafter (hcreate _)
      · rw [Logins.setStage_of_ne _ hij] at hafter
        exact absurd hafter hbefore
  | command j hcommanded =>
      by_cases hij : i = j
      · subst hij
        rw [Logins.setStage_self] at hafter
        rw [hafter] at hcommanded
        generalize l.stage i = stage at hcommanded
        cases hcommanded
      · rw [Logins.setStage_of_ne _ hij] at hafter
        exact absurd hafter hbefore
  | resume j hresumed =>
      by_cases hij : i = j
      · subst hij
        rw [Logins.setStage_self] at hafter
        subst hafter
        refine ⟨rfl, rfl, ?_⟩
        cases hstage : l.stage i <;> rw [hstage] at hresumed
        case looked rc answer =>
          have hnext := Option.some.inj hresumed
          split_ifs at hnext
          · exact absurd hnext (hcreate _)
          · unfold LoginStage.lookUid at hnext
            cases hclient : l.rcm.m_map redisName <;> rw [hclient] at hnext <;> cases hnext
        case assigned rc answer =>
          have hnext := Option.some.inj hresumed
          unfold LoginStage.record at hnext
          cases hclient : l.rcm.m_map redisName <;> rw [hclient] at hnext <;> cases hnext
        case read rc uid record' =>
          cases Option.some.inj hresumed
          exact ⟨rc, uid, rfl⟩
        all_goals cases hresumed
      · rw [Logins.setStage_of_ne _ hij] at hafter
        exact absurd hafter hbefore

end Stages

section Claim
variable {ι φ : Type} [DecidableEq ι] [LuaFloat φ] {server : RedisServer}
  {data : ι → Option (LoginData φ)} {draws : ι → Draw}

/-- The answer to HMGET as `RecordStands` has it. -/
def Stands (hashes : Hashes) (uid : Number φ) (record : String → Option String) : Prop :=
  RecordWhole hashes uid ∧ record RedisKey.nick = hashes (recordKey uid) RedisKey.nick ∧
    record RedisKey.coin = hashes (recordKey uid) RedisKey.coin

theorem storedAccount_iff {hashes : Hashes} {uid : Number φ} {record : String → Option String}
    (hmapped : mappedUid φ hashes "13" = some uid) (hpos : uid.nonpositive = false) :
    StoredAccount hashes (storedUser record : UserInfo φ) ↔ Stands hashes uid record := by
  have hfield : ∀ f, (bulkValue (record f) : Value φ) ≠ .nil →
      hashes (recordKey uid) f = some (tostring (bulkValue (record f) : Value φ)) →
      record f = hashes (recordKey uid) f := by
    intro f hne hstored
    rw [hstored]
    cases hrecord : record f with
    | none =>
        rw [hrecord] at hne
        exact absurd rfl hne
    | some text => rfl
  constructor
  · rintro ⟨uid', hmapped', -, -, hname, hmoney, hnick, hontable, hcoin⟩
    cases Option.some.inj (hmapped.symm.trans hmapped')
    refine ⟨?_, hfield _ hname hnick, hfield _ hmoney hcoin⟩
    intro field hmem
    simp only [List.mem_cons, List.not_mem_nil, or_false] at hmem
    rcases hmem with rfl | rfl | rfl
    · rw [hnick]
      rfl
    · exact hontable
    · rw [hcoin]
      rfl
  · rintro ⟨hwhole, hnick, hcoin⟩
    obtain ⟨nick, hnick'⟩ := Option.isSome_iff_exists.mp (hwhole RedisKey.nick (by simp))
    obtain ⟨coin, hcoin'⟩ := Option.isSome_iff_exists.mp (hwhole RedisKey.coin (by simp))
    refine ⟨uid, hmapped, hpos, .inl rfl, ?_, ?_, ?_, hwhole _ (by simp), ?_⟩
    · rw [storedUser, hnick, hnick']
      exact fun hnil => by cases hnil
    · rw [storedUser, hcoin, hcoin']
      exact fun hnil => by cases hnil
    · rw [storedUser, hnick, hnick']
      rfl
    · rw [storedUser, hcoin, hcoin']
      rfl

omit [DecidableEq ι] in
theorem recordStands_iff {l : Logins ι φ server} {i : ι} {rc : Nat} {uid : Number φ}
    {record : String → Option String} (hstage : l.stage i = .read rc uid record) :
    RecordStands (l.service draws) (.resume i) ↔ Stands (server.hashes l.db) uid record := by
  have hthread : (l.service draws).threads i =
      (LoginStage.read rc uid record).thread (draws i) := by
    rw [← hstage]
    rfl
  constructor
  · exact fun h => h rc uid _ _ hthread
  · rintro ⟨hwhole, hnick, hcoin⟩ rc' uid' k items hanswered
    have hsame := hthread.symm.trans hanswered
    have hkey : recordKey uid = recordKey uid' := by
      simp only [LoginStage.thread, hmgetRecord, LoginThread.answered.injEq, RedisCall.mk.injEq,
        List.cons.injEq, Value.string.injEq] at hsame
      exact hsame.1.2.2.1
    have hitems : [RedisKey.nick, RedisKey.ontable, RedisKey.coin, RedisKey.tid].map record =
        items := by
      simp only [LoginStage.thread, LoginThread.answered.injEq, Option.some.injEq,
        Value.table.injEq] at hsame
      exact hsame.2.2
    rw [← hitems]
    unfold RecordWhole at hwhole ⊢
    rw [← hkey]
    exact ⟨hwhole, hnick, hcoin⟩

theorem read_of_hmget {stage : LoginStage φ} {draw : Draw} {rc : Nat} {uid : Number φ}
    {k : Option (Value φ) → Handler φ (Option (UserInfo φ))} {answer : Option (Value φ)}
    (h : stage.thread draw = .answered (hmgetRecord rc uid) k answer) :
    ∃ rc' uid' record, stage = .read rc' uid' record := by
  cases stage <;> simp only [LoginStage.thread, LoginThread.answered.injEq, reduceCtorEq] at h
  case read rc' uid' record => exact ⟨rc', uid', record, rfl⟩
  case looked rc' answer' =>
    exact absurd (congrArg RedisCall.cmd h.1) (by decide : ¬ "HGET" = "HMGET")
  case refused rc' => exact absurd (congrArg RedisCall.cmd h.1) (by decide : ¬ "INCR" = "HMGET")
  case assigned rc' answer' =>
    exact absurd (congrArg RedisCall.cmd h.1) (by decide : ¬ "HSET" = "HMGET")
  case recorded rc' answer' =>
    exact absurd (congrArg RedisCall.cmd h.1) (by decide : ¬ "HMSET" = "HMGET")

omit [DecidableEq ι] in
theorem read_of_not_stands {l : Logins ι φ server} {e : ServiceEvent ι}
    (h : ¬ RecordStands (l.service draws) e) :
    ∃ i rc uid record, e = .resume i ∧ l.stage i = .read rc uid record := by
  cases e with
  | resume i =>
      obtain ⟨rc, h⟩ := not_forall.mp h
      obtain ⟨uid, h⟩ := not_forall.mp h
      obtain ⟨k, h⟩ := not_forall.mp h
      obtain ⟨items, h⟩ := not_forall.mp h
      obtain ⟨hanswered, -⟩ := Classical.not_imp.mp h
      obtain ⟨rc', uid', record, hstage⟩ := read_of_hmget hanswered
      exact ⟨i, rc', uid', record, rfl, hstage⟩
  | addRedisClient name rc => exact absurd trivial h
  | delRedisClient name => exact absurd trivial h
  | login i => exact absurd trivial h
  | command i => exact absurd trivial h

/-- What a run reaches when no step of it returns a new account. -/
def NoneCreated (l : Logins ι φ server) : Prop :=
  ∀ i, (l.stage i).Mapped (server.hashes l.db) ∧ l.stage i ≠ .created

theorem noneCreated_moves {l l' : Logins ι φ server} {e : ServiceEvent ι} (h : NoneCreated l)
    (hnew : ¬ ReturnsNew data (l.service draws) e) (hmoves : Moves data l e l') :
    NoneCreated l' := fun i =>
  ⟨mapped_moves hmoves (fun j => (h j).1) i, fun hcreated =>
    hnew (created_moves hmoves (h i).2 hcreated)⟩

def AnswersFromStore (data : ι → Option (LoginData φ)) (s : ServiceState ι φ server)
    (e : ServiceEvent ι) : Prop :=
  ¬ ReturnsNew data s e ∧ RecordStands s e

theorem answeredStored_of_along (hbare : BareIncrRefused server) {db : server.Db}
    {es : List (ServiceEvent ι)}
    (halong : Along (ServiceState.step data draws) (AnswersFromStore data)
      (ServiceState.start ι φ server db) es) :
    AnsweredStored data draws (ServiceState.start ι φ server db) es := by
  have hreached : ∀ pre s, pre <+: es →
      run (ServiceState.step data draws) (ServiceState.start ι φ server db) pre = some s →
      ∃ l : Logins ι φ server, NoneCreated l ∧ s = l.service draws := by
    intro pre s hpre hrun
    exact stages_of_run hbare (fun l e l' hl hC hmoves => noneCreated_moves hl hC.1 hmoves)
      (l := Logins.start ι φ server db) (fun _ => ⟨trivial, fun h => by cases h⟩)
      (along_of_initial _ pre es _ hpre halong) hrun
  constructor
  · intro pre e s s' hpre hrun hstep i info hfresh hreturns
    obtain ⟨l, hl, rfl⟩ := hreached pre s ((List.prefix_append pre [e]).trans hpre) hrun
    have hC := along_at _ pre e [] _ _ (along_of_initial _ _ es _ hpre halong) hrun
    obtain ⟨l', hmoves, rfl⟩ := moves_of_step hbare hstep
    rcases returned_stage hreturns with ⟨hstage, -⟩ | ⟨record, hstage, rfl⟩
    · exact absurd hstage (noneCreated_moves hl hC.1 hmoves i).2
    · have hbefore : l.stage i ≠ .stored record := by
        intro hstored
        apply hfresh (storedUser record)
        change (l.stage i).thread (draws i) = _
        rw [hstored]
        rfl
      obtain ⟨rfl, hdb, rc, uid, hread⟩ := stored_moves hmoves hbefore hstage
      have hmapped := (hl i).1
      rw [hread] at hmapped
      change StoredAccount (server.hashes l'.db) _
      rw [hdb]
      exact (storedAccount_iff hmapped.1 hmapped.2).mpr ((recordStands_iff hread).mp hC.2)
  · intro pre e post s t hpre hrun hrun' i hmisses info hreturns
    have halong' := along_of_initial _ _ es _ hpre halong
    have hinit : pre <+: es := (List.prefix_append pre (e :: post)).trans hpre
    obtain ⟨l, hl, rfl⟩ := hreached pre s hinit hrun
    have hC := along_at _ pre e post _ _ halong' hrun
    rw [run_append, hrun, Option.bind_some] at hrun'
    obtain ⟨s', hstep, hpost⟩ := (run_cons_eq_some _ _ t e post).mp hrun'
    obtain ⟨l', hmoves, rfl⟩ := moves_of_step hbare hstep
    have hstart : NoneCreated l' ∧ ((l'.stage i).Doomed ∨ (l'.stage i).Creating) :=
      ⟨noneCreated_moves hl hC.1 hmoves, missed_moves hmoves hmisses⟩
    have hrest := along_after _ (pre ++ [e]) post _ (l'.service draws)
      (by rw [List.append_assoc]; exact halong') (by
        rw [run_append, hrun, Option.bind_some, run, hstep]
        rfl)
    obtain ⟨lt, ⟨hlt, hmissed⟩, rfl⟩ := stages_of_run hbare
      (I := fun l => NoneCreated l ∧ ((l.stage i).Doomed ∨ (l.stage i).Creating))
      (fun _ _ _ h hC hmoves => ⟨noneCreated_moves h.1 hC.1 hmoves,
        h.2.imp (doomed_moves hmoves) (creating_moves hmoves)⟩) hstart hrest hpost
    rcases returned_stage hreturns with ⟨hstage, -⟩ | ⟨record, hstage, -⟩
    · exact (hlt i).2 hstage
    · rw [hstage] at hmissed
      exact hmissed.elim id id

/-- A login that has returned a new account has missed a client on the way. -/
theorem missed_of_created (hbare : BareIncrRefused server) {db : server.Db}
    {es : List (ServiceEvent ι)} {t : ServiceState ι φ server} {i : ι}
    (hrun : run (ServiceState.step data draws) (ServiceState.start ι φ server db) es = some t)
    (hreturns : Returns t i (newUser φ (draws i))) : ∃ pre e post s, es = pre ++ e :: post ∧
      run (ServiceState.step data draws) (ServiceState.start ι φ server db) pre = some s ∧
      MissesClient data draws s i e := by
  by_cases hmissed : Along (ServiceState.step data draws)
      (fun s e => ¬ MissesClient data draws s i e) (ServiceState.start ι φ server db) es
  · obtain ⟨l, hl, rfl⟩ := stages_of_run hbare (I := fun l => ¬ (l.stage i).Creating)
      (fun _ _ _ h hC hmoves hafter => hC (creating_of_missed hmoves h hafter))
      (l := Logins.start ι φ server db) (fun h => h) hmissed hrun
    rcases returned_stage hreturns with ⟨hstage, -⟩ | ⟨record, -, hinfo⟩
    · rw [hstage] at hl
      exact absurd trivial hl
    · cases congrArg UserInfo.uid hinfo
  · obtain ⟨pre, e, s, s', ⟨post, rfl⟩, -, hpre, hmisses, -⟩ :=
      exists_first_outside _ _ es _ _ hrun hmissed
    exact ⟨pre, e, post, s, List.append_assoc .., hpre, Classical.not_not.mp hmisses⟩

theorem along_of_answeredStored (hbare : BareIncrRefused server) {db : server.Db}
    {es : List (ServiceEvent ι)} {t : ServiceState ι φ server}
    (hrun : run (ServiceState.step data draws) (ServiceState.start ι φ server db) es = some t)
    (hstored : AnsweredStored data draws (ServiceState.start ι φ server db) es) :
    Along (ServiceState.step data draws) (AnswersFromStore data)
      (ServiceState.start ι φ server db) es := by
  by_contra hbad
  obtain ⟨pre, e, u, u', hpre, -, hu, hout, hstep⟩ := exists_first_outside _ _ es _ t hrun hbad
  obtain ⟨l, hl, rfl⟩ := stages_of_run hbare (C := fun _ _ => True)
    (I := fun l => ∀ i, (l.stage i).Mapped (server.hashes l.db))
    (fun _ _ _ h _ hmoves => mapped_moves hmoves h)
    (l := Logins.start ι φ server db) (fun _ => trivial) (along_true _ pre _) hu
  obtain ⟨l', hmoves, rfl⟩ := moves_of_step hbare hstep
  rcases Classical.not_and_iff_not_or_not.mp hout with hnew | hstands
  · obtain ⟨i, -, hcreated⟩ := created_of_returnsNew hmoves (Classical.not_not.mp hnew)
    have hreturns : Returns (l'.service draws) i (newUser φ (draws i)) := by
      change (l'.stage i).thread (draws i) = _
      rw [hcreated]
      rfl
    have hlast : run (ServiceState.step data draws) (ServiceState.start ι φ server db)
        (pre ++ [e]) = some (l'.service draws) := by
      rw [run_append, hu, Option.bind_some, run, hstep]
      rfl
    obtain ⟨before, d, after, s, hsplit, hbefore, hmisses⟩ := missed_of_created hbare hlast hreturns
    rw [hsplit] at hpre hlast
    exact hstored.reported before d after s _ hpre hbefore hlast i hmisses _ hreturns
  · obtain ⟨i, rc, uid, record, rfl, hread⟩ := read_of_not_stands hstands
    have hmapped := hl i
    rw [hread] at hmapped
    cases hmoves with
    | resume _ hresumed =>
        rw [hread] at hresumed
        cases Option.some.inj hresumed
        have hreturns : Returns ((l.setStage i (.stored record)).service draws) i
            (storedUser record) := by
          change ((l.setStage i (.stored record)).stage i).thread (draws i) = _
          rw [Logins.setStage_self]
          rfl
        have hfresh : ∀ old, ¬ Returns (l.service draws) i old := by
          intro old hold
          change (l.stage i).thread (draws i) = _ at hold
          rw [hread] at hold
          cases hold
        have haccount := hstored.stored pre _ _ _ hpre hu hstep i _ hfresh hreturns
        exact hstands ((recordStands_iff hread).mpr
          ((storedAccount_iff hmapped.1 hmapped.2).mp haccount))

/-- In every run of start-up and logins, with whatever clients registered at each moment: what is
answered is stored and a missed client is reported, if and only if no step returns a new account
and every record that a login is handed stands in the store, whole and as it was read. -/
theorem answered_logins_stored_iff (hbare : BareIncrRefused server)
    (data : ι → Option (LoginData φ)) (draws : ι → Draw) (db : server.Db)
    (es : List (ServiceEvent ι)) (t : ServiceState ι φ server)
    (hrun : run (ServiceState.step data draws) (ServiceState.start ι φ server db) es = some t) :
    AnsweredStored data draws (ServiceState.start ι φ server db) es ↔
      Along (ServiceState.step data draws) (AnswersFromStore data)
        (ServiceState.start ι φ server db) es :=
  ⟨along_of_answeredStored hbare hrun, answeredStored_of_along hbare⟩

end Claim

/-! ## A login during start-up -/

theorem memoryRedis_bareIncr : BareIncrRefused memoryRedis := fun _ => ⟨_, rfl⟩

def startingService : ServiceState Unit Empty memoryRedis :=
  .start Unit Empty memoryRedis emptyStore

def guestLogin : Unit → Option (LoginData Empty) := fun _ => some ⟨.string "guest"⟩

def knownStore : Memory where
  hashes := setFields (setField (fun _ _ => none) redisUidsKey "13" "100000") "uid_100000"
    (newRecord "guest")
  counter _ := 0

/-- A login that comes after `addRedisClient` and finds its account. -/
theorem login_after_client_stored :
    AnsweredStored guestLogin (fun _ => someDraw)
      (ServiceState.start Unit Empty memoryRedis knownStore)
      [.addRedisClient redisName 1, .login (), .command (), .resume (), .command (),
        .resume ()] := by
  refine (answered_logins_stored_iff memoryRedis_bareIncr guestLogin (fun _ => someDraw) knownStore
    [.addRedisClient redisName 1, .login (), .command (), .resume (), .command (), .resume ()]
    _ rfl).mpr ?_
  refine ⟨⟨fun h => h.elim, trivial⟩, fun s₁ h₁ => ?_⟩
  cases Option.some.inj h₁
  refine ⟨⟨fun h => absurd h.2.2.1 (by decide), trivial⟩, fun s₂ h₂ => ?_⟩
  cases Option.some.inj h₂
  refine ⟨⟨fun h => h.elim, trivial⟩, fun s₃ h₃ => ?_⟩
  cases Option.some.inj h₃
  refine ⟨⟨?_, ?_⟩, fun s₄ h₄ => ?_⟩
  · rintro ⟨call, k, answer, hthread, hcmd | ⟨hclient, -⟩⟩
    · cases hthread
      exact absurd hcmd (by decide)
    · exact absurd hclient (by decide)
  · intro rc uid k items hthread
    injection hthread with hcall _ _
    exact absurd (congrArg RedisCall.cmd hcall) (by decide : ¬ "HGET" = "HMGET")
  cases Option.some.inj h₄
  refine ⟨⟨fun h => h.elim, trivial⟩, fun s₅ h₅ => ?_⟩
  cases Option.some.inj h₅
  refine ⟨⟨?_, ?_⟩, fun _ _ => trivial⟩
  · rintro ⟨call, k, answer, hthread, hcmd | ⟨hclient, -⟩⟩
    · cases hthread
      exact absurd hcmd (by decide)
    · exact absurd hclient (by decide)
  · intro rc uid k items hthread
    injection hthread with hcall _ hanswer
    injection hcall with _ _ hargs
    injection hargs with hkey _
    injection hkey with hkey
    cases hanswer
    unfold RecordWhole
    rw [← hkey]
    refine ⟨fun field hfield => ?_, rfl, rfl⟩
    simp only [List.mem_cons, List.not_mem_nil, or_false] at hfield
    rcases hfield with rfl | rfl | rfl <;> decide

/-- The login is answered at once with an account; the store is empty. -/
theorem login_before_client_not_stored :
    ¬ AnsweredStored guestLogin (fun _ => someDraw) startingService [.login ()] := by
  intro hstored
  obtain ⟨uid, hmapped, _⟩ := hstored.stored [] (.login ()) startingService _
    (List.prefix_refl _) rfl rfl () (newUser Empty someDraw) (fun old h => by cases h) rfl
  cases hmapped

end Doudizhu.UserService
