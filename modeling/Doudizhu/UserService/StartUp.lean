import Doudizhu.UserService.LoginCommands
import Doudizhu.Lib.Runs

/-! # Logins while the service starts

`userService.lua` registers its name and its dispatcher and only then suspends in
`addRedisClient`, so login messages come in while `m_map` is still empty.  Here the table of
clients changes between the steps of the handlers, and the effect of a Redis command and the
resumption of the handler that waits for its answer are two steps.

`LoginStage` names the points a login handler can be at, with the code behind each, and `Moves`
what a step does to the stages; later proofs read the stages only. -/

set_option autoImplicit false

namespace Doudizhu.UserService

open Lua Coroutine Runs

namespace RedisClientsMgr

def ctor : RedisClientsMgr where
  m_map _ := none

/-- `self.m_map[name] = rc`, the last step of `addRedisClient`. -/
def addRedisClient (rcm : RedisClientsMgr) (name : String) (rc : Nat) : RedisClientsMgr where
  m_map := Function.update rcm.m_map name (some rc)

/-- `self.m_map[name] = nil`, the last step of `delRedisClient`. -/
def delRedisClient (rcm : RedisClientsMgr) (name : String) : RedisClientsMgr where
  m_map := Function.update rcm.m_map name none

end RedisClientsMgr

inductive LoginThread (φ : Type) where
  | waiting
  | running (p : Handler φ (Option (UserInfo φ)))
  | answered (call : RedisCall φ) (k : Option (Value φ) → Handler φ (Option (UserInfo φ)))
      (answer : Option (Value φ))

structure ServiceState (ι φ : Type) (server : RedisServer) where
  rcm : RedisClientsMgr
  db : server.Db
  threads : ι → LoginThread φ

/-- `login i`: the message of login `i` is dispatched.  `command i`: the command it waits for
takes effect.  `resume i`: it gets the answer. -/
inductive ServiceEvent (ι : Type) where
  | addRedisClient (name : String) (rc : Nat)
  | delRedisClient (name : String)
  | login (i : ι)
  | command (i : ι)
  | resume (i : ι)

namespace ServiceState

section Step
variable {ι φ : Type} [LuaFloat φ] {server : RedisServer}

/-- The service as its start function leaves it when it suspends in `addRedisClient`. -/
def start (ι φ : Type) (server : RedisServer) (db : server.Db) : ServiceState ι φ server where
  rcm := .ctor
  db := db
  threads _ := .waiting

variable (data : ι → Option (LoginData φ)) (draws : ι → Draw)

def messageCode (s : ServiceState ι φ server) (i : ι) :
    Option (Handler φ (Option (UserInfo φ))) :=
  match s.threads i with
  | .waiting => some (responeLogin (data i) (draws i))
  | _ => none

def answerCode (s : ServiceState ι φ server) (i : ι) :
    Option (Handler φ (Option (UserInfo φ))) :=
  match s.threads i with
  | .answered _ k answer => some (k answer)
  | _ => none

variable [DecidableEq ι]

def setThread (s : ServiceState ι φ server) (i : ι) (t : LoginThread φ) : ServiceState ι φ server :=
  { s with threads := Function.update s.threads i t }

def command (s : ServiceState ι φ server) (i : ι) : Option (ServiceState ι φ server) :=
  match s.threads i with
  | .running (.call c k) =>
      let answer := redisclient server s.db c
      some ({ s with db := answer.2 }.setThread i (.answered c k answer.1))
  | _ => none

def step (s : ServiceState ι φ server) : ServiceEvent ι → Option (ServiceState ι φ server)
  | .addRedisClient name rc => some { s with rcm := s.rcm.addRedisClient name rc }
  | .delRedisClient name => some { s with rcm := s.rcm.delRedisClient name }
  | .login i =>
      (s.messageCode data draws i).map fun p => s.setThread i (.running (p.settle s.rcm))
  | .command i => s.command i
  | .resume i => (s.answerCode i).map fun p => s.setThread i (.running (p.settle s.rcm))

end Step

end ServiceState

/-! ## The code of a login, suspension by suspension -/

section Code
variable {φ A : Type}

/-- The rest of a handler after a Redis call: a failed call raises. -/
def answerWith (rest : Value φ → Handler φ A) : Option (Value φ) → Handler φ A
  | some value => rest value
  | none => .raise

def suspended (call : RedisCall φ) (rest : Value φ → Handler φ A) : Handler φ A :=
  .call call (answerWith rest)

/-- A method call on `rcm` is suspended when the client is registered, and answered with `false`
at once when it is not. -/
theorem settle_rcmCall (rcm : RedisClientsMgr) (cmd name : String) (args : List (Value φ))
    (rest : Value φ → Handler φ A) :
    (rcmCall cmd name args >>= rest).settle rcm =
      match rcm.m_map name with
      | some rc => suspended ⟨rc, cmd, args⟩ rest
      | none => (rest (.boolean false)).settle rcm := by
  change (Coroutine.bind (rcmCall cmd name args) rest).settle rcm = _
  simp only [rcmCall, Coroutine.bind, settle]
  cases rcm.m_map name with
  | none => rfl
  | some rc =>
      simp only [Coroutine.bind, settle, suspended]
      congr 1
      funext answer
      cases answer <;> rfl

variable [LuaFloat φ]

def newUid (counter : Value φ) : Number φ :=
  ((tonumber (if truthy counter then counter else .number (.integer 0))).getD
    (.integer 0)).addInteger redisUidBase

def recordUser (draw : Draw) (uid : Number φ) : Handler φ (Option (UserInfo φ)) :=
  createUserRecord uid (generateNick familyNameMap draw) >>= finishLogin

def assignUser (draw : Draw) (uid : Number φ) : Handler φ (Option (UserInfo φ)) :=
  redisHset redisUidsKey [smid13, .number uid] >>= fun _ => recordUser draw uid

def enterCreate (draw : Draw) : Handler φ (Option (UserInfo φ)) :=
  createUser smid13 draw >>= finishLogin

def afterRead : Value φ → Handler φ (Option (UserInfo φ))
  | .table items =>
      .done (some
        { uid := .nil
          username := bulkValue (items[0]?).join
          ontable := .boolean false
          money := bulkValue (items[2]?).join
          tid := bulkValue (items[3]?).join })
  | _ => .raise

def enterRead (uid : Number φ) : Handler φ (Option (UserInfo φ)) := readUser uid >>= finishLogin

def afterLookup (draw : Draw) (answer : Value φ) : Handler φ (Option (UserInfo φ)) :=
  if (uidOf answer).nonpositive then enterCreate draw else enterRead (uidOf answer)

theorem enterCreate_eq (draw : Draw) :
    (enterCreate draw : Handler φ (Option (UserInfo φ))) =
      redisIncr redisUidTag >>= fun counter => assignUser draw (newUid counter) := by
  have htruthy : truthy (smid13 : Value φ) = true := rfl
  simp only [enterCreate, createUser, if_pos htruthy, generateUserid, assignUser, recordUser,
    newUid, bind_assoc, pure_bind]

theorem recordUser_eq (draw : Draw) :
    (recordUser draw (.integer redisUidBase) : Handler φ (Option (UserInfo φ))) =
      redisHmset (recordKey (.integer redisUidBase : Number φ))
          [.string RedisKey.nick, .string (generateNick familyNameMap draw),
            .string RedisKey.ontable, .boolean false, .string RedisKey.coin,
            .number (.integer 0)] >>=
        fun _ => .done (some (newUser φ draw)) := by
  simp only [recordUser, createUserRecord, bind_assoc, pure_bind]
  rfl

theorem responeLogin_eq (data : LoginData φ) (draw : Draw) :
    responeLogin (some data) draw =
      redisHget redisUidsKey [smid13] >>= afterLookup draw := by
  unfold responeLogin
  congr 1

theorem enterRead_eq (uid : Number φ) :
    enterRead uid =
      redisHmget (recordKey uid) [.string RedisKey.nick, .string RedisKey.ontable,
        .string RedisKey.coin, .string RedisKey.tid] >>= afterRead := by
  simp only [enterRead, readUser, bind_assoc]
  congr 1
  funext ret
  cases ret <;> rfl

end Code

/-! ## The stages of a login -/

/-- Where a login is; `looked`, `assigned`, `recorded` and `read` have their answer waiting, and
`refused` that of a failed call. -/
inductive LoginStage (φ : Type) where
  | waiting
  | ignored
  | looking (rc : Nat)
  | looked (rc : Nat) (answer : Value φ)
  | counting (rc : Nat)
  | refused (rc : Nat)
  | assigning (rc : Nat)
  | assigned (rc : Nat) (answer : Value φ)
  | recording (rc : Nat)
  | recorded (rc : Nat) (answer : Value φ)
  | created
  | reading (rc : Nat) (uid : Number φ)
  | read (rc : Nat) (uid : Number φ) (record : String → Option String)
  | stored (record : String → Option String)
  | failed

namespace LoginStage

section Stages
variable {φ : Type}

def record (rcm : RedisClientsMgr) : LoginStage φ :=
  match rcm.m_map redisName with
  | some rc => .recording rc
  | none => .created

def assign (rcm : RedisClientsMgr) : LoginStage φ :=
  match rcm.m_map redisName with
  | some rc => .assigning rc
  | none => record rcm

def create (rcm : RedisClientsMgr) : LoginStage φ :=
  match rcm.m_map redisUidTag with
  | some rc => .counting rc
  | none => assign rcm

def look (rcm : RedisClientsMgr) : LoginStage φ :=
  match rcm.m_map redisName with
  | some rc => .looking rc
  | none => create rcm

def lookUid (rcm : RedisClientsMgr) (uid : Number φ) : LoginStage φ :=
  match rcm.m_map redisName with
  | some rc => .reading rc uid
  | none => .failed

variable [LuaFloat φ]

def resume (rcm : RedisClientsMgr) : LoginStage φ → Option (LoginStage φ)
  | .looked _ answer =>
      some (if (uidOf answer).nonpositive then create rcm else lookUid rcm (uidOf answer))
  | .refused _ => some .failed
  | .assigned _ _ => some (record rcm)
  | .recorded _ _ => some .created
  | .read _ _ record => some (.stored record)
  | _ => none

def thread (draw : Draw) : LoginStage φ → LoginThread φ
  | .waiting => .waiting
  | .ignored => .running (.done none)
  | .looking rc => .running (suspended (hgetUid rc) (afterLookup draw))
  | .looked rc answer => .answered (hgetUid rc) (answerWith (afterLookup draw)) (some answer)
  | .counting rc =>
      .running (suspended ⟨rc, "INCR", []⟩ fun counter => assignUser draw (newUid counter))
  | .refused rc =>
      .answered ⟨rc, "INCR", []⟩ (answerWith fun counter => assignUser draw (newUid counter)) none
  | .assigning rc =>
      .running (suspended (hsetUid rc) fun _ => recordUser draw (.integer redisUidBase))
  | .assigned rc answer =>
      .answered (hsetUid rc) (answerWith fun _ => recordUser draw (.integer redisUidBase))
        (some answer)
  | .recording rc =>
      .running (suspended (hmsetRecord rc (generateNick familyNameMap draw))
        fun _ => .done (some (newUser φ draw)))
  | .recorded rc answer =>
      .answered (hmsetRecord rc (generateNick familyNameMap draw))
        (answerWith fun _ => .done (some (newUser φ draw))) (some answer)
  | .created => .running (.done (some (newUser φ draw)))
  | .reading rc uid => .running (suspended (hmgetRecord rc uid) afterRead)
  | .read rc uid record =>
      .answered (hmgetRecord rc uid) (answerWith afterRead)
        (some (.table ([RedisKey.nick, RedisKey.ontable, RedisKey.coin, RedisKey.tid].map
          record)))
  | .stored record => .running (.done (some (storedUser record)))
  | .failed => .running .raise

theorem record_thread (rcm : RedisClientsMgr) (draw : Draw) :
    (record rcm : LoginStage φ).thread draw =
      .running ((recordUser draw (.integer redisUidBase)).settle rcm) := by
  rw [recordUser_eq, redisHmset, settle_rcmCall, record]
  cases rcm.m_map redisName <;> rfl

theorem assign_thread (rcm : RedisClientsMgr) (draw : Draw) :
    (assign rcm : LoginStage φ).thread draw =
      .running ((assignUser draw (.integer redisUidBase)).settle rcm) := by
  rw [assignUser, redisHset, settle_rcmCall, assign]
  cases rcm.m_map redisName with
  | none => exact record_thread rcm draw
  | some rc => rfl

theorem create_thread (rcm : RedisClientsMgr) (draw : Draw) :
    (create rcm : LoginStage φ).thread draw = .running ((enterCreate draw).settle rcm) := by
  rw [enterCreate_eq, redisIncr, settle_rcmCall, create]
  cases rcm.m_map redisUidTag with
  | none => exact assign_thread rcm draw
  | some rc => rfl

theorem lookUid_thread (rcm : RedisClientsMgr) (draw : Draw) (uid : Number φ) :
    (lookUid rcm uid).thread draw = .running ((enterRead uid).settle rcm) := by
  rw [enterRead_eq, redisHmget, settle_rcmCall, lookUid]
  cases rcm.m_map redisName <;> rfl

theorem look_thread (rcm : RedisClientsMgr) (data : LoginData φ) (draw : Draw) :
    (look rcm : LoginStage φ).thread draw =
      .running ((responeLogin (some data) draw).settle rcm) := by
  rw [responeLogin_eq, redisHget, settle_rcmCall, look]
  cases rcm.m_map redisName with
  | none => exact create_thread rcm draw
  | some rc => rfl

theorem resume_thread (rcm : RedisClientsMgr) (draw : Draw) {stage : LoginStage φ}
    {call : RedisCall φ} {k : Option (Value φ) → Handler φ (Option (UserInfo φ))}
    {answer : Option (Value φ)} (h : stage.thread draw = .answered call k answer) :
    ∃ next, stage.resume rcm = some next ∧
      next.thread draw = .running ((k answer).settle rcm) := by
  cases stage <;> cases h
  case looked rc answer =>
    refine ⟨_, rfl, ?_⟩
    simp only [answerWith, afterLookup]
    by_cases hnew : (uidOf answer).nonpositive = true
    · rw [if_pos hnew, if_pos hnew]
      exact create_thread rcm draw
    · rw [if_neg hnew, if_neg hnew]
      exact lookUid_thread rcm draw _
  case refused rc => exact ⟨.failed, rfl, rfl⟩
  case assigned rc answer => exact ⟨_, rfl, record_thread rcm draw⟩
  case recorded rc answer => exact ⟨.created, rfl, rfl⟩
  case read rc uid record => exact ⟨.stored record, rfl, rfl⟩

end Stages

end LoginStage

/-! ## The service by stages -/

/-- INCR without a key is refused and changes nothing. -/
def BareIncrRefused (server : RedisServer) : Prop :=
  ∀ db, ∃ text, server.exec db "INCR" [] = (.error text, db)

section Moves
variable {φ : Type} [LuaFloat φ]

/-- What the command of a login does to its stage and to the database. -/
inductive Commanded (server : RedisServer) (db : server.Db) :
    LoginStage φ → LoginStage φ → server.Db → Prop
  | looked (rc : Nat) (answer : Value φ) (found : uidOf answer = foundUid φ (server.hashes db)) :
      Commanded server db (.looking rc) (.looked rc answer) db
  | refused (rc : Nat) : Commanded server db (.counting rc) (.refused rc) db
  | assigned (rc : Nat) (answer : Value φ) {db' : server.Db}
      (hashes : server.hashes db' = setField (server.hashes db) redisUidsKey "13" "100000") :
      Commanded server db (.assigning rc) (.assigned rc answer) db'
  | recorded (rc : Nat) (answer : Value φ) {db' : server.Db} (username : String)
      (hashes : server.hashes db' =
        setFields (server.hashes db) "uid_100000" (newRecord username)) :
      Commanded server db (.recording rc) (.recorded rc answer) db'
  | read (rc : Nat) (uid : Number φ) :
      Commanded server db (.reading rc uid)
        (.read rc uid (server.hashes db (recordKey uid))) db

theorem command_thread {server : RedisServer} (hbare : BareIncrRefused server) (db : server.Db)
    (draw : Draw) {stage : LoginStage φ} {call : RedisCall φ}
    {k : Option (Value φ) → Handler φ (Option (UserInfo φ))}
    (h : stage.thread draw = .running (.call call k)) :
    ∃ next, Commanded server db stage next (redisclient server db call).2 ∧
      next.thread draw = .answered call k (redisclient server db call).1 := by
  cases stage <;> cases h
  case looking rc =>
    obtain ⟨answer, hget, huid⟩ := redisclient_hgetUid (φ := φ) server rc db
    rw [hget]
    exact ⟨_, .looked rc answer huid, rfl⟩
  case counting rc =>
    obtain ⟨text, hincr⟩ := hbare db
    have hexec : redisclient server db (⟨rc, "INCR", []⟩ : RedisCall φ) = (none, db) := by
      change ((server.exec db "INCR" []).1.toLua, (server.exec db "INCR" []).2) = _
      rw [hincr]
      rfl
    rw [hexec]
    exact ⟨_, .refused rc, rfl⟩
  case assigning rc =>
    obtain ⟨answer, db', hset, hhashes⟩ := redisclient_hsetUid (φ := φ) server rc db
    rw [hset]
    exact ⟨_, .assigned rc answer hhashes, rfl⟩
  case recording rc =>
    obtain ⟨answer, db', hmset, hhashes⟩ := redisclient_hmsetRecord (φ := φ) server rc db
      (generateNick familyNameMap draw)
    rw [hmset]
    exact ⟨_, .recorded rc answer _ hhashes, rfl⟩
  case reading rc uid =>
    rw [redisclient_hmgetRecord]
    exact ⟨_, .read rc uid, rfl⟩

variable {ι : Type} {server : RedisServer}

/-- The service with the stages of its logins for their coroutines. -/
structure Logins (ι φ : Type) (server : RedisServer) where
  rcm : RedisClientsMgr
  db : server.Db
  stage : ι → LoginStage φ

def Logins.start (ι φ : Type) (server : RedisServer) (db : server.Db) : Logins ι φ server where
  rcm := .ctor
  db := db
  stage _ := .waiting

def Logins.service (draws : ι → Draw) (l : Logins ι φ server) : ServiceState ι φ server where
  rcm := l.rcm
  db := l.db
  threads i := (l.stage i).thread (draws i)

variable [DecidableEq ι]

def Logins.setStage (l : Logins ι φ server) (i : ι) (stage : LoginStage φ) :
    Logins ι φ server :=
  { l with stage := Function.update l.stage i stage }

omit [LuaFloat φ] in
@[simp] theorem Logins.setStage_self (l : Logins ι φ server) (i : ι) (stage : LoginStage φ) :
    (l.setStage i stage).stage i = stage := Function.update_self ..

omit [LuaFloat φ] in
theorem Logins.setStage_of_ne (l : Logins ι φ server) {i j : ι} (h : j ≠ i)
    (stage : LoginStage φ) : (l.setStage i stage).stage j = l.stage j :=
  Function.update_of_ne h ..

theorem Logins.service_setStage (draws : ι → Draw) (l : Logins ι φ server) (i : ι)
    (stage : LoginStage φ) :
    (l.setStage i stage).service draws =
      (l.service draws).setThread i (stage.thread (draws i)) := by
  have hthreads : (fun j => (Function.update l.stage i stage j).thread (draws j)) =
      Function.update (fun j => (l.stage j).thread (draws j)) i (stage.thread (draws i)) := by
    funext j
    by_cases hj : j = i
    · subst hj
      simp
    · simp [hj]
  unfold service setStage ServiceState.setThread
  simp only [hthreads]

inductive Moves (data : ι → Option (LoginData φ)) (l : Logins ι φ server) :
    ServiceEvent ι → Logins ι φ server → Prop
  | addRedisClient (name : String) (rc : Nat) :
      Moves data l (.addRedisClient name rc) { l with rcm := l.rcm.addRedisClient name rc }
  | delRedisClient (name : String) :
      Moves data l (.delRedisClient name) { l with rcm := l.rcm.delRedisClient name }
  | login (i : ι) (waiting : l.stage i = .waiting) :
      Moves data l (.login i)
        (l.setStage i (if (data i).isSome then LoginStage.look l.rcm else .ignored))
  | command (i : ι) {next : LoginStage φ} {db : server.Db}
      (commanded : Commanded server l.db (l.stage i) next db) :
      Moves data l (.command i) ({ l with db := db }.setStage i next)
  | resume (i : ι) {next : LoginStage φ} (resumed : (l.stage i).resume l.rcm = some next) :
      Moves data l (.resume i) (l.setStage i next)

theorem moves_of_step (hbare : BareIncrRefused server) {data : ι → Option (LoginData φ)}
    {draws : ι → Draw} {l : Logins ι φ server} {e : ServiceEvent ι}
    {s' : ServiceState ι φ server}
    (hstep : ServiceState.step data draws (l.service draws) e = some s') :
    ∃ l', Moves data l e l' ∧ s' = l'.service draws := by
  cases e with
  | addRedisClient name rc =>
      cases Option.some.inj hstep
      exact ⟨_, .addRedisClient name rc, rfl⟩
  | delRedisClient name =>
      cases Option.some.inj hstep
      exact ⟨_, .delRedisClient name, rfl⟩
  | login i =>
      obtain ⟨p, hcode, rfl⟩ := Option.map_eq_some_iff.mp hstep
      have hwaiting : l.stage i = .waiting ∧ responeLogin (data i) (draws i) = p := by
        unfold ServiceState.messageCode Logins.service at hcode
        cases hstage : l.stage i <;> simp only [hstage, LoginStage.thread] at hcode
        case waiting => exact ⟨rfl, Option.some.inj hcode⟩
        all_goals cases hcode
      refine ⟨_, .login i hwaiting.1, ?_⟩
      rw [Logins.service_setStage, ← hwaiting.2]
      cases hdata : data i with
      | none => rfl
      | some d =>
          rw [Option.isSome_some, if_pos rfl, LoginStage.look_thread l.rcm d]
          rfl
  | command i =>
      change ServiceState.command (l.service draws) i = some s' at hstep
      unfold ServiceState.command at hstep
      split at hstep
      · rename_i call k hthread
        cases Option.some.inj hstep
        obtain ⟨next, hnext, hanswered⟩ := command_thread hbare l.db (draws i) hthread
        refine ⟨_, .command i hnext, ?_⟩
        rw [Logins.service_setStage, hanswered]
        rfl
      · cases hstep
  | resume i =>
      obtain ⟨p, hcode, rfl⟩ := Option.map_eq_some_iff.mp hstep
      unfold ServiceState.answerCode at hcode
      split at hcode
      · rename_i call k answer hthread
        cases Option.some.inj hcode
        obtain ⟨next, hresume, hnext⟩ := LoginStage.resume_thread l.rcm (draws i) hthread
        refine ⟨_, .resume i hresume, ?_⟩
        rw [Logins.service_setStage, hnext]
        rfl
      · cases hcode

theorem stages_of_run (hbare : BareIncrRefused server) {data : ι → Option (LoginData φ)}
    {draws : ι → Draw} {I : Logins ι φ server → Prop} {C : ServiceState ι φ server →
      ServiceEvent ι → Prop}
    (keeps : ∀ l e l', I l → C (l.service draws) e → Moves data l e l' → I l')
    {es : List (ServiceEvent ι)} {l : Logins ι φ server} {t : ServiceState ι φ server}
    (hl : I l) (hC : Along (ServiceState.step data draws) C (l.service draws) es)
    (hrun : run (ServiceState.step data draws) (l.service draws) es = some t) :
    ∃ l', I l' ∧ t = l'.service draws := by
  refine run_invariant (ServiceState.step data draws) C
    (fun s => ∃ l', I l' ∧ s = l'.service draws) ?_ es _ t ⟨l, hl, rfl⟩ hC hrun
  rintro s e s' ⟨l, hl, rfl⟩ hC hstep
  obtain ⟨l', hmoves, rfl⟩ := moves_of_step hbare hstep
  exact ⟨l', keeps l e l' hl hC hmoves, rfl⟩

end Moves

end Doudizhu.UserService
