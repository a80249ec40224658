import Doudizhu.UserService.LoginCommands
import Mathlib.Data.List.Nodup
import Mathlib.Data.List.TakeWhile

/-! # Concurrent first logins

Login handlers with one smid run as a pool, starting from a store with no account for it.
`respone_login` looks the uid up and, in a later command, writes it: every handler whose lookup
comes before the first HSET creates an account.  The logins agree exactly in the schedules where
the first handler gets its lookup and its HSET done before any other handler starts, and no other
handler reads the record before the first one has written it (unless the nickname read there is
already the new one). -/

set_option autoImplicit false

namespace Doudizhu.UserService

open Lua Coroutine

section FirstLogin
variable {ι φ : Type} [DecidableEq ι] [LuaFloat φ]

abbrev LoginPool (ι φ : Type) (server : RedisServer) :=
  Pool ι server.Db RedisClientsMgr (RedisCall φ) (Option (Value φ)) (Option (UserInfo φ))

def login (φ : Type) [LuaFloat φ] (smid : String) (draw : Draw) :
    Handler φ (Option (UserInfo φ)) :=
  responeLogin (some ⟨.string smid⟩) draw

def loginPool (φ : Type) [LuaFloat φ] (server : RedisServer) (db : server.Db) (smid : String)
    (draws : ι → Draw) : LoginPool ι φ server where
  db := db
  threads i := login φ smid (draws i)
  log := []

def runLogins (φ : Type) [LuaFloat φ] (server : RedisServer) (address : Nat) (db : server.Db)
    (smid : String) (draws : ι → Draw) (schedule : List ι) : LoginPool ι φ server :=
  runPool (redisclient server) (started address) (loginPool φ server db smid draws) schedule

def AllFinished {server : RedisServer} (address : Nat) (w : LoginPool ι φ server) : Prop :=
  ∀ i, ((w.threads i).outcome (started address)).isSome = true

/-- The handler `i` has mapped `smid` to a uid and written the record of that uid. -/
def CreatesAccount (smid : String) (log : List (ι × RedisCall φ)) (i : ι) : Prop :=
  ∃ address field uid fields, tostring field = smid ∧
    (i, ⟨address, "HSET", [.string redisUidsKey, field, .number uid]⟩) ∈ log ∧
      (i, ⟨address, "HMSET", .string (recordKey uid) :: fields⟩) ∈ log

def StoredNick (φ : Type) [LuaFloat φ] (hashes : Hashes) (smid name : String) : Prop :=
  ∃ uid : Number φ, mappedUid φ hashes smid = some uid ∧ uid.nonpositive = false ∧
    hashes (recordKey uid) RedisKey.nick = some name

/-- At most one account has been created, and every reply has the stored username. -/
def LoginsAgree {server : RedisServer} (address : Nat) (smid : String)
    (w : LoginPool ι φ server) : Prop :=
  (∀ i j, CreatesAccount smid w.log i → CreatesAccount smid w.log j → i = j) ∧
    ∀ i info, (w.threads i).outcome (started address) = some (some (some info)) →
      ∃ name, StoredNick φ (server.hashes w.db) smid name ∧ info.username = .string name

/-- The first handler `a` runs its lookup and its HSET before any other handler is scheduled, and
until its HMSET no other handler runs both its commands, unless the nickname stored from the
start is the one `a` draws. -/
def FirstLoginUndisturbed (nick : Option String) (draws : ι → Draw) (schedule : List ι) : Prop :=
  ∃ a rest, schedule = a :: a :: rest ∧
    ((rest.takeWhile (· ≠ a)).Nodup ∨ nick = some (generateNick familyNameMap (draws a)))

/-! ## One step of a handler -/

variable {server : RedisServer} {address : Nat} {smid : String} {draws : ι → Draw}

theorem resume_absent {w : LoginPool ι φ server} {i : ι} {draw : Draw}
    (hthread : w.threads i = login φ smid draw)
    (habsent : (foundUid φ (server.hashes w.db)).nonpositive = true) :
    resume (redisclient server) (started address) w i =
      { db := w.db
        threads := Function.update w.threads i (creating φ address draw)
        log := w.log ++ [(i, hgetUid address)] } := by
  obtain ⟨answer, hget, huid⟩ := redisclient_hgetUid (φ := φ) server address w.db
  have hpending : (w.threads i).pending (started address) = some (hgetUid address) := by
    rw [hthread]
    exact pending_responeLogin address _ draw
  rw [resume_of_pending _ _ hpending, hget, hthread, login,
    after_responeLogin_absent address _ draw (huid ▸ habsent)]

theorem resume_found {w : LoginPool ι φ server} {i : ι} {draw : Draw} {uid : Number φ}
    (hthread : w.threads i = login φ smid draw)
    (hfound : foundUid φ (server.hashes w.db) = uid) (hpos : uid.nonpositive = false) :
    resume (redisclient server) (started address) w i =
      { db := w.db
        threads := Function.update w.threads i (reading address uid)
        log := w.log ++ [(i, hgetUid address)] } := by
  obtain ⟨answer, hget, huid⟩ := redisclient_hgetUid (φ := φ) server address w.db
  have hpending : (w.threads i).pending (started address) = some (hgetUid address) := by
    rw [hthread]
    exact pending_responeLogin address _ draw
  have hanswer : uidOf answer = uid := huid.trans hfound
  rw [resume_of_pending _ _ hpending, hget, hthread, login,
    after_responeLogin_found address _ draw (by rw [hanswer, hpos]; decide), hanswer]

variable (server) in
theorem resume_creating {w : LoginPool ι φ server} {i : ι} {draw : Draw}
    (hthread : w.threads i = creating φ address draw) :
    ∃ db', server.hashes db' = setField (server.hashes w.db) redisUidsKey "13" "100000" ∧
      resume (redisclient server) (started address) w i =
        { db := db'
          threads := Function.update w.threads i (recording φ address draw)
          log := w.log ++ [(i, hsetUid address)] } := by
  obtain ⟨answer, db', hset, hhashes⟩ := redisclient_hsetUid (φ := φ) server address w.db
  have hpending : (w.threads i).pending (started address) = some (hsetUid address) := by
    rw [hthread]
    exact pending_creating address draw
  refine ⟨db', hhashes, ?_⟩
  rw [resume_of_pending _ _ hpending, hset, hthread, after_creating]

variable (server) in
theorem resume_recording {w : LoginPool ι φ server} {i : ι} {draw : Draw}
    (hthread : w.threads i = recording φ address draw) :
    ∃ db', server.hashes db' = setFields (server.hashes w.db) "uid_100000"
        (newRecord (generateNick familyNameMap draw)) ∧
      resume (redisclient server) (started address) w i =
        { db := db'
          threads := Function.update w.threads i (.done (some (newUser φ draw)))
          log := w.log ++ [(i, hmsetRecord address (generateNick familyNameMap draw))] } := by
  obtain ⟨answer, db', hmset, hhashes⟩ := redisclient_hmsetRecord (φ := φ) server address w.db
    (generateNick familyNameMap draw)
  have hpending : (w.threads i).pending (started address) =
      some (hmsetRecord address (generateNick familyNameMap draw)) := by
    rw [hthread]
    exact pending_recording address draw
  refine ⟨db', hhashes, ?_⟩
  rw [resume_of_pending _ _ hpending, hmset, hthread, after_recording]

theorem resume_reading {w : LoginPool ι φ server} {i : ι} {uid : Number φ}
    (hthread : w.threads i = reading address uid) :
    resume (redisclient server) (started address) w i =
      { db := w.db
        threads := Function.update w.threads i
          (.done (some (storedUser (server.hashes w.db (recordKey uid)))))
        log := w.log ++ [(i, hmgetRecord address uid)] } := by
  have hpending : (w.threads i).pending (started address) = some (hmgetRecord address uid) := by
    rw [hthread]
    exact pending_reading address uid
  rw [resume_of_pending _ _ hpending, redisclient_hmgetRecord, hthread, after_reading]

theorem resume_done {w : LoginPool ι φ server} {i : ι} {info : Option (UserInfo φ)}
    (hthread : w.threads i = .done info) :
    resume (redisclient server) (started address) w i = w :=
  resume_of_finished _ _ (by rw [hthread]; rfl)

/-! ## The stages of a handler -/

def AtStage (address : Nat) (smid : String) (draw : Draw)
    (p : Handler φ (Option (UserInfo φ))) : Prop :=
  p = login φ smid draw ∨ p = creating φ address draw ∨ p = recording φ address draw ∨
    (∃ uid, p = reading address uid) ∨ ∃ info, p = .done (some info)

theorem mappedUid_setField_of_ne {s : String} (hs : s ≠ "13") (hashes : Hashes) (value : String) :
    mappedUid φ (setField hashes redisUidsKey "13" value) s = mappedUid φ hashes s := by
  unfold mappedUid setField
  rw [if_neg fun h => hs h.2]

/-- A step keeps every handler at a stage and maps no smid other than `"13"`. -/
theorem resume_stage {w : LoginPool ι φ server}
    (hstage : ∀ j, AtStage address smid (draws j) (w.threads j)) (i : ι) :
    (∀ j, AtStage address smid (draws j)
        ((resume (redisclient server) (started address) w i).threads j)) ∧
      ∀ s, s ≠ "13" →
        mappedUid φ (server.hashes (resume (redisclient server) (started address) w i).db) s =
          mappedUid φ (server.hashes w.db) s := by
  have hupdate : ∀ p, AtStage address smid (draws i) p →
      ∀ j, AtStage address smid (draws j) (Function.update w.threads i p j) := by
    intro p hp j
    by_cases hj : j = i
    · subst hj
      rwa [Function.update_self]
    · rw [Function.update_of_ne hj]
      exact hstage j
  rcases hstage i with hthread | hthread | hthread | ⟨uid, hthread⟩ | ⟨info, hthread⟩
  · by_cases habsent : (foundUid φ (server.hashes w.db)).nonpositive = true
    · rw [resume_absent hthread habsent]
      exact ⟨hupdate _ (Or.inr (Or.inl rfl)), fun _ _ => rfl⟩
    · rw [resume_found hthread rfl (Bool.eq_false_iff.mpr habsent)]
      exact ⟨hupdate _ (Or.inr (Or.inr (Or.inr (Or.inl ⟨_, rfl⟩)))), fun _ _ => rfl⟩
  · obtain ⟨db', hhashes, hresume⟩ := resume_creating server hthread
    rw [hresume]
    refine ⟨hupdate _ (Or.inr (Or.inr (Or.inl rfl))), fun s hs => ?_⟩
    rw [hhashes, mappedUid_setField_of_ne hs]
  · obtain ⟨db', hhashes, hresume⟩ := resume_recording server hthread
    rw [hresume]
    refine ⟨hupdate _ (Or.inr (Or.inr (Or.inr (Or.inr ⟨_, rfl⟩)))), fun s _ => ?_⟩
    rw [hhashes, mappedUid_setFields]
  · rw [resume_reading hthread]
    exact ⟨hupdate _ (Or.inr (Or.inr (Or.inr (Or.inr ⟨_, rfl⟩)))), fun _ _ => rfl⟩
  · rw [resume_done hthread]
    exact ⟨hstage, fun _ _ => rfl⟩

variable (address smid draws) in
theorem runPool_stage (schedule : List ι) (w : LoginPool ι φ server)
    (hstage : ∀ j, AtStage address smid (draws j) (w.threads j)) :
    (∀ j, AtStage address smid (draws j)
        ((runPool (redisclient server) (started address) w schedule).threads j)) ∧
      ∀ s, s ≠ "13" →
        mappedUid φ
            (server.hashes (runPool (redisclient server) (started address) w schedule).db) s =
          mappedUid φ (server.hashes w.db) s := by
  let kept (v : LoginPool ι φ server) : Prop :=
    (∀ j, AtStage address smid (draws j) (v.threads j)) ∧
      ∀ s, s ≠ "13" → mappedUid φ (server.hashes v.db) s = mappedUid φ (server.hashes w.db) s
  apply runPool_invariant _ _ kept
  · rintro v i ⟨hv, hmapped⟩
    obtain ⟨hstage', hkept⟩ := resume_stage hv i
    exact ⟨hstage', fun s hs => (hkept s hs).trans (hmapped s hs)⟩
  · exact ⟨hstage, fun _ _ => rfl⟩

theorem reply_of_finished {draw : Draw} {p : Handler φ (Option (UserInfo φ))}
    (hstage : AtStage address smid draw p)
    (hfinished : (p.outcome (started address)).isSome = true) :
    ∃ info, p = .done (some info) := by
  have hpending := (outcome_isSome_iff _ _).mp hfinished
  rcases hstage with rfl | rfl | rfl | ⟨uid, rfl⟩ | hdone
  · rw [login, pending_responeLogin] at hpending
    exact absurd hpending (Option.some_ne_none _)
  · rw [pending_creating] at hpending
    exact absurd hpending (Option.some_ne_none _)
  · rw [pending_recording] at hpending
    exact absurd hpending (Option.some_ne_none _)
  · rw [pending_reading] at hpending
    exact absurd hpending (Option.some_ne_none _)
  · exact hdone

/-! ## A handler whose lookup found nothing -/

/-- The handler has found no uid, and the writes behind it are in the log. -/
def Creates (address : Nat) (draw : Draw) (i : ι) (w : LoginPool ι φ server) : Prop :=
  w.threads i = creating φ address draw ∨
    (w.threads i = recording φ address draw ∧ (i, hsetUid address) ∈ w.log) ∨
    ((∃ info, w.threads i = .done (some info)) ∧ (i, hsetUid address) ∈ w.log ∧
      (i, hmsetRecord address (generateNick familyNameMap draw)) ∈ w.log)

theorem resume_creates {w : LoginPool ι φ server} {draw : Draw} {i : ι}
    (hcreates : Creates address draw i w) (k : ι) :
    Creates address draw i (resume (redisclient server) (started address) w k) := by
  by_cases hk : i = k
  · subst hk
    rcases hcreates with hthread | ⟨hthread, hlog⟩ | ⟨⟨info, hthread⟩, hlogs⟩
    · obtain ⟨db', _, hresume⟩ := resume_creating server hthread
      rw [hresume]
      exact Or.inr (Or.inl ⟨Function.update_self .., by simp⟩)
    · obtain ⟨db', _, hresume⟩ := resume_recording server hthread
      rw [hresume]
      exact Or.inr (Or.inr ⟨⟨_, Function.update_self ..⟩, List.mem_append_left _ hlog, by simp⟩)
    · rw [resume_done hthread]
      exact Or.inr (Or.inr ⟨⟨info, hthread⟩, hlogs⟩)
  · have hthread := resume_threads_ne (redisclient server) (started address) (w := w) hk
    have hlog := log_subset_resume (redisclient server) (started address) w k
    rcases hcreates with h | ⟨h, hset⟩ | ⟨h, hset, hmset⟩
    · exact Or.inl (hthread.trans h)
    · exact Or.inr (Or.inl ⟨hthread.trans h, hlog hset⟩)
    · exact Or.inr (Or.inr ⟨by rwa [hthread], hlog hset, hlog hmset⟩)

theorem createsAccount_of_creates {schedule : List ι} {w : LoginPool ι φ server} {draw : Draw}
    {i : ι} (hcreates : Creates address draw i w)
    (hfinished : AllFinished address
      (runPool (redisclient server) (started address) w schedule)) :
    CreatesAccount "13" (runPool (redisclient server) (started address) w schedule).log i := by
  have hend := runPool_invariant (redisclient server) (started address)
    (Creates address draw i) (fun v k hv => resume_creates hv k) schedule w hcreates
  have hpending := (outcome_isSome_iff _ _).mp (hfinished i)
  rcases hend with hthread | ⟨hthread, _⟩ | ⟨_, hset, hmset⟩
  · rw [hthread, pending_creating] at hpending
    exact absurd hpending (Option.some_ne_none _)
  · rw [hthread, pending_recording] at hpending
    exact absurd hpending (Option.some_ne_none _)
  · exact ⟨address, smid13, .integer redisUidBase, _, rfl, hset, hmset⟩

/-! ## The others before and after the first record -/

def Replied (name : Value φ) (p : Handler φ (Option (UserInfo φ))) : Prop :=
  ∃ info, p = .done (some info) ∧ info.username = name

/-- A handler that finds the base uid, after `n` of its steps; it reads the nickname `name`. -/
def ReaderAt (address : Nat) (smid : String) (draw : Draw) (name : Value φ) :
    Nat → Handler φ (Option (UserInfo φ)) → Prop
  | 0, p => p = login φ smid draw
  | 1, p => p = reading address (.integer redisUidBase)
  | _ + 2, p => Replied name p

/-- The smid is mapped to the base uid, whose record has the nickname `nick`. -/
structure Mapped (φ : Type) [LuaFloat φ] (nick : Option String) (hashes : Hashes) : Prop where
  uid : mappedUid φ hashes "13" = some (.integer redisUidBase)
  nick : hashes "uid_100000" RedisKey.nick = nick

theorem resume_reader {w : LoginPool ι φ server} {b : ι} {draw : Draw} {nick : Option String}
    (hmapped : Mapped φ nick (server.hashes w.db)) {n : Nat}
    (hreader : ReaderAt address smid draw (bulkValue nick) n (w.threads b)) :
    (resume (redisclient server) (started address) w b).db = w.db ∧
      ReaderAt address smid draw (bulkValue nick) (n + 1)
        ((resume (redisclient server) (started address) w b).threads b) ∧
      ∀ i c, (i, c) ∈ (resume (redisclient server) (started address) w b).log →
        (i, c) ∈ w.log ∨ c.cmd ≠ "HMSET" := by
  have hnew : ∀ (d : RedisCall φ), d.cmd ≠ "HMSET" → ∀ i c, (i, c) ∈ w.log ++ [(b, d)] →
      (i, c) ∈ w.log ∨ c.cmd ≠ "HMSET" := by
    intro d hd i c hc
    rcases List.mem_append.mp hc with hc | hc
    · exact Or.inl hc
    · rw [List.mem_singleton] at hc
      cases hc
      exact Or.inr hd
  match n, hreader with
  | 0, hreader =>
      have hfound : foundUid φ (server.hashes w.db) = .integer redisUidBase := by
        rw [foundUid, hmapped.uid]
        rfl
      rw [resume_found hreader hfound rfl]
      exact ⟨rfl, Function.update_self ..,
        hnew (hgetUid address) (show "HGET" ≠ "HMSET" by decide)⟩
  | 1, hreader =>
      rw [resume_reading hreader]
      refine ⟨rfl, ⟨_, Function.update_self .., ?_⟩,
        hnew (hmgetRecord address _) (show "HMGET" ≠ "HMSET" by decide)⟩
      exact congrArg bulkValue hmapped.nick
  | n + 2, hreader =>
      obtain ⟨info, hthread, hname⟩ := hreader
      rw [resume_done hthread]
      exact ⟨rfl, ⟨info, hthread, hname⟩, fun _ _ hc => Or.inl hc⟩

/-- The handler `a` has mapped the smid and `seen` are the steps of the others since then. -/
structure BeforeRecord (address : Nat) (smid : String) (draws : ι → Draw) (a : ι)
    (nick : Option String) (seen : List ι) (w : LoginPool ι φ server) : Prop where
  mapped : Mapped φ nick (server.hashes w.db)
  first : w.threads a = recording φ address (draws a)
  others : ∀ b, b ≠ a →
    ReaderAt address smid (draws b) (bulkValue nick) (seen.count b) (w.threads b)
  log : ∀ b, b ≠ a → ∀ c, (b, c) ∈ w.log → c.cmd ≠ "HMSET"

theorem beforeRecord_step {a b : ι} {nick : Option String} {seen : List ι}
    {w : LoginPool ι φ server} (h : BeforeRecord address smid draws a nick seen w)
    (hb : b ≠ a) :
    BeforeRecord address smid draws a nick (seen ++ [b])
      (resume (redisclient server) (started address) w b) := by
  obtain ⟨hdb, hself, hlog⟩ := resume_reader h.mapped (h.others b hb)
  refine ⟨by rw [hdb]; exact h.mapped, ?_, ?_, ?_⟩
  · rw [resume_threads_ne _ _ (Ne.symm hb)]
    exact h.first
  · intro c hc
    by_cases hcb : c = b
    · subst hcb
      rw [List.count_append, List.count_singleton_self]
      exact hself
    · rw [List.count_append, List.count_singleton, beq_eq_false_iff_ne.mpr (Ne.symm hcb),
        resume_threads_ne _ _ hcb]
      exact h.others c hc
  · intro c hc d hd
    exact (hlog c d hd).elim (h.log c hc d) id

theorem beforeRecord_run {a : ι} {nick : Option String} :
    ∀ (steps seen : List ι) (w : LoginPool ι φ server),
      BeforeRecord address smid draws a nick seen w → (∀ b ∈ steps, b ≠ a) →
      BeforeRecord address smid draws a nick (seen ++ steps)
        (runPool (redisclient server) (started address) w steps) := by
  intro steps
  induction steps with
  | nil => intro seen w h _; rwa [List.append_nil]
  | cons b steps ih =>
      intro seen w h hne
      have hnext := ih (seen ++ [b]) _ (beforeRecord_step h (hne b (List.mem_cons_self ..)))
        fun c hc => hne c (List.mem_cons_of_mem _ hc)
      rwa [List.append_assoc] at hnext

/-- The handler `a` has written the record; `early` are the handlers that had read it before. -/
structure AfterRecord (address : Nat) (smid : String) (draws : ι → Draw) (a : ι)
    (old : Option String) (early : ι → Prop) (w : LoginPool ι φ server) : Prop where
  mapped : Mapped φ (some (generateNick familyNameMap (draws a))) (server.hashes w.db)
  first : w.threads a = .done (some (newUser φ (draws a)))
  replied : ∀ b, b ≠ a → early b → Replied (bulkValue old) (w.threads b)
  others : ∀ b, b ≠ a → ¬ early b → ∃ n, ReaderAt address smid (draws b)
    (bulkValue (some (generateNick familyNameMap (draws a)))) n (w.threads b)
  log : ∀ b, b ≠ a → ∀ c, (b, c) ∈ w.log → c.cmd ≠ "HMSET"

theorem afterRecord_of_beforeRecord {a : ι} {nick : Option String} {seen : List ι}
    {w : LoginPool ι φ server} (h : BeforeRecord address smid draws a nick seen w) :
    AfterRecord address smid draws a nick (fun b => 2 ≤ seen.count b)
      (resume (redisclient server) (started address) w a) := by
  obtain ⟨db', hhashes, hresume⟩ := resume_recording server h.first
  have hothers : ∀ b, b ≠ a → (resume (redisclient server) (started address) w a).threads b =
      w.threads b := fun b hb => resume_threads_ne _ _ hb
  refine ⟨⟨?_, ?_⟩, ?_, ?_, ?_, ?_⟩
  · rw [hresume, hhashes, mappedUid_setFields, h.mapped.uid]
  · rw [hresume, hhashes]
    rfl
  · rw [hresume]
    exact Function.update_self ..
  · intro b hb hearly
    have hreader := h.others b hb
    obtain ⟨n, hn⟩ := Nat.exists_eq_add_of_le' hearly
    rw [hn] at hreader
    rw [hothers b hb]
    exact hreader
  · intro b hb hlate
    have hreader := h.others b hb
    refine ⟨seen.count b, ?_⟩
    rw [hothers b hb]
    have hcount : seen.count b = 0 ∨ seen.count b = 1 := by omega
    rcases hcount with hn | hn <;> rw [hn] at hreader ⊢ <;> exact hreader
  · intro b hb c hc
    rw [hresume] at hc
    rcases List.mem_append.mp hc with hc | hc
    · exact h.log b hb c hc
    · rw [List.mem_singleton] at hc
      exact absurd (congrArg Prod.fst hc) hb

theorem afterRecord_step {a : ι} {old : Option String} {early : ι → Prop}
    {w : LoginPool ι φ server} (h : AfterRecord address smid draws a old early w) (b : ι) :
    AfterRecord address smid draws a old early
      (resume (redisclient server) (started address) w b) := by
  by_cases hb : b = a
  · subst hb
    rwa [resume_done h.first]
  by_cases hearly : early b
  · obtain ⟨info, hthread, _⟩ := h.replied b hb hearly
    rwa [resume_done hthread]
  obtain ⟨n, hreader⟩ := h.others b hb hearly
  obtain ⟨hdb, hself, hlog⟩ := resume_reader h.mapped hreader
  refine ⟨by rw [hdb]; exact h.mapped, ?_, ?_, ?_, ?_⟩
  · rw [resume_threads_ne _ _ (Ne.symm hb)]
    exact h.first
  · intro c hc hcearly
    have hcb : c ≠ b := fun e => hearly (e ▸ hcearly)
    rw [resume_threads_ne _ _ hcb]
    exact h.replied c hc hcearly
  · intro c hc hclate
    by_cases hcb : c = b
    · subst hcb
      exact ⟨n + 1, hself⟩
    · rw [resume_threads_ne _ _ hcb]
      exact h.others c hc hclate
  · intro c hc d hd
    exact (hlog c d hd).elim (h.log c hc d) id

/-! ## Whole runs -/

variable {db : server.Db} {schedule : List ι}

def NoAccount (φ : Type) [LuaFloat φ] (hashes : Hashes) (smid : String) : Prop :=
  ((mappedUid φ hashes smid).getD (.integer 0)).nonpositive = true

variable (address draws) in
theorem resume_first (hfresh : NoAccount φ (server.hashes db) "13") (a : ι) :
    resume (redisclient server) (started address) (loginPool φ server db "13" draws) a =
      { db := db
        threads := Function.update (loginPool φ server db "13" draws).threads a
          (creating φ address (draws a))
        log := [(a, hgetUid address)] } :=
  resume_absent (show (loginPool φ server db "13" draws).threads a =
    login φ "13" (draws a) from rfl) hfresh

variable (address draws) in
theorem beforeRecord_start (hfresh : NoAccount φ (server.hashes db) "13") (a : ι) :
    BeforeRecord address "13" draws a (server.hashes db "uid_100000" RedisKey.nick) []
      (runLogins φ server address db "13" draws [a, a]) := by
  have hlookup := resume_first address draws hfresh a
  have hcreating : (resume (redisclient server) (started address)
      (loginPool φ server db "13" draws) a).threads a = creating φ address (draws a) := by
    rw [hlookup]
    exact Function.update_self ..
  obtain ⟨db', hhashes, hset⟩ := resume_creating server hcreating
  have hrun : runLogins φ server address db "13" draws [a, a] =
      resume (redisclient server) (started address)
        (resume (redisclient server) (started address) (loginPool φ server db "13" draws) a) a :=
    rfl
  rw [hlookup] at hhashes
  rw [hrun]
  refine ⟨⟨?_, ?_⟩, ?_, ?_, ?_⟩
  · rw [hset, hhashes]
    exact mappedUid_setField _
  · rw [hset, hhashes]
    rfl
  · rw [hset]
    exact Function.update_self ..
  · intro b hb
    rw [resume_threads_ne _ _ hb, resume_threads_ne _ _ hb]
    rfl
  · intro b hb c hc
    rw [hset, hlookup] at hc
    simp [hb] at hc

theorem afterRecord_end (hfresh : NoAccount φ (server.hashes db) "13") {a : ι} {rest : List ι}
    (hfinished : AllFinished address (runLogins φ server address db "13" draws (a :: a :: rest))) :
    AfterRecord address "13" draws a (server.hashes db "uid_100000" RedisKey.nick)
      (fun b => 2 ≤ (rest.takeWhile (· ≠ a)).count b)
      (runLogins φ server address db "13" draws (a :: a :: rest)) := by
  have hstart := beforeRecord_start address draws hfresh a
  have hbefore := beforeRecord_run (rest.takeWhile (· ≠ a)) [] _ hstart fun b hb => by
    simpa using List.mem_takeWhile_imp hb
  rw [List.nil_append] at hbefore
  have hsplit : rest.takeWhile (· ≠ a) ++ rest.dropWhile (· ≠ a) = rest :=
    List.takeWhile_append_dropWhile
  have hrun : runLogins φ server address db "13" draws (a :: a :: rest) =
      runPool (redisclient server) (started address)
        (runPool (redisclient server) (started address)
          (runLogins φ server address db "13" draws [a, a]) (rest.takeWhile (· ≠ a)))
        (rest.dropWhile (· ≠ a)) := by
    rw [← runPool_append, hsplit]
    rfl
  rw [hrun] at hfinished ⊢
  cases hdrop : rest.dropWhile (· ≠ a) with
  | nil =>
      rw [hdrop] at hfinished
      have hpending := (outcome_isSome_iff _ _).mp (hfinished a)
      rw [runPool_nil, hbefore.first, pending_recording] at hpending
      exact absurd hpending (Option.some_ne_none _)
  | cons b later =>
      have hb : b = a := by
        have hhead := List.head?_dropWhile_not (· ≠ a) rest
        rw [hdrop] at hhead
        simpa using hhead
      subst hb
      rw [runPool_cons]
      exact runPool_invariant _ _ (AfterRecord address "13" draws b _ _)
        (fun v c hv => afterRecord_step hv c) later _ (afterRecord_of_beforeRecord hbefore)

/-- Two handlers whose lookups come before the first HSET both create an account. -/
theorem both_create (hfresh : NoAccount φ (server.hashes db) "13") {a b : ι} (hab : a ≠ b)
    {rest : List ι}
    (hfinished : AllFinished address (runLogins φ server address db "13" draws (a :: b :: rest))) :
    CreatesAccount "13" (runLogins φ server address db "13" draws (a :: b :: rest)).log a ∧
      CreatesAccount "13" (runLogins φ server address db "13" draws (a :: b :: rest)).log b := by
  let w := loginPool φ server db "13" draws
  let w₁ := resume (redisclient server) (started address) w a
  have hrun : runLogins φ server address db "13" draws (a :: b :: rest) =
      runPool (redisclient server) (started address)
        (resume (redisclient server) (started address) w₁ b) rest := rfl
  have hfirst : w₁ =
      { db := db
        threads := Function.update w.threads a (creating φ address (draws a))
        log := [(a, hgetUid address)] } := resume_first address draws hfresh a
  have hlogin : w₁.threads b = login φ "13" (draws b) := by
    rw [hfirst]
    exact Function.update_of_ne (Ne.symm hab) _ _
  have hfresh₁ : (foundUid φ (server.hashes w₁.db)).nonpositive = true := by
    rw [hfirst]
    exact hfresh
  have hb : Creates address (draws b) b
      (resume (redisclient server) (started address) w₁ b) := by
    rw [resume_absent hlogin hfresh₁]
    exact Or.inl (Function.update_self ..)
  have ha : Creates address (draws a) a
      (resume (redisclient server) (started address) w₁ b) := by
    apply resume_creates
    rw [hfirst]
    exact Or.inl (Function.update_self ..)
  rw [hrun] at hfinished ⊢
  exact ⟨createsAccount_of_creates ha hfinished, createsAccount_of_creates hb hfinished⟩

/-- A reply names a stored record, so some smid other than `"13"` is never answered rightly. -/
theorem smid_eq_of_agree (hfresh : NoAccount φ (server.hashes db) smid) {i : ι}
    (hfinished : AllFinished address (runLogins φ server address db smid draws schedule))
    (hagree : LoginsAgree address smid (runLogins φ server address db smid draws schedule)) :
    smid = "13" := by
  by_contra hsmid
  obtain ⟨hstage, hmapped⟩ := runPool_stage address smid draws schedule
    (loginPool φ server db smid draws) fun j => Or.inl rfl
  obtain ⟨info, hdone⟩ := reply_of_finished (hstage i) (hfinished i)
  obtain ⟨name, ⟨uid, huid, hpos, _⟩, _⟩ := hagree.2 i info (by rw [runLogins, hdone]; rfl)
  rw [runLogins, hmapped smid hsmid] at huid
  have hzero : uid.nonpositive = true := by
    have h := hfresh
    rwa [NoAccount, show mappedUid φ (server.hashes db) smid = some uid from huid] at h
  rw [hpos] at hzero
  exact Bool.false_ne_true hzero

theorem undisturbed_of_agree (hfresh : NoAccount φ (server.hashes db) "13") {a : ι}
    {rest : List ι}
    (hfinished : AllFinished address (runLogins φ server address db "13" draws (a :: rest)))
    (hagree : LoginsAgree address "13" (runLogins φ server address db "13" draws (a :: rest))) :
    FirstLoginUndisturbed (server.hashes db "uid_100000" RedisKey.nick) draws (a :: rest) := by
  rcases rest with _ | ⟨b, rest⟩
  · have hcreating : (runLogins φ server address db "13" draws [a]).threads a =
        creating φ address (draws a) := by
      rw [runLogins, runPool_cons, runPool_nil, resume_first address draws hfresh]
      exact Function.update_self ..
    have hpending := (outcome_isSome_iff _ _).mp (hfinished a)
    rw [hcreating, pending_creating] at hpending
    exact absurd hpending (Option.some_ne_none _)
  by_cases hab : a = b
  · subst hab
    refine ⟨a, rest, rfl, ?_⟩
    by_cases hnodup : (rest.takeWhile (· ≠ a)).Nodup
    · exact Or.inl hnodup
    have hafter := afterRecord_end hfresh hfinished
    obtain ⟨b, hcount⟩ : ∃ b, 2 ≤ (rest.takeWhile (· ≠ a)).count b := by
      by_contra hnone
      refine hnodup (List.nodup_iff_count_le_one.mpr fun b => ?_)
      by_contra hb
      exact hnone ⟨b, by omega⟩
    have hba : b ≠ a := by
      have hmem : b ∈ rest.takeWhile (· ≠ a) := List.count_pos_iff.mp (by omega)
      simpa using List.mem_takeWhile_imp hmem
    obtain ⟨info, hdone, hold⟩ := hafter.replied b hba hcount
    obtain ⟨name, ⟨uid, huid, _, hname⟩, husername⟩ := hagree.2 b info (by rw [hdone]; rfl)
    rw [hafter.mapped.uid] at huid
    cases Option.some.inj huid
    have hnew : some (generateNick familyNameMap (draws a)) = some name :=
      hafter.mapped.nick.symm.trans hname
    refine Or.inr ?_
    rw [hold] at husername
    cases hnick : server.hashes db "uid_100000" RedisKey.nick with
    | none => simp [hnick, bulkValue] at husername
    | some nick =>
        simp only [hnick, bulkValue, Value.string.injEq] at husername
        rw [hnew, husername]
  · obtain ⟨ha, hb⟩ := both_create hfresh hab hfinished
    exact absurd (hagree.1 a b ha hb) hab

theorem agree_of_undisturbed (hfresh : NoAccount φ (server.hashes db) "13")
    (hquiet : FirstLoginUndisturbed (server.hashes db "uid_100000" RedisKey.nick) draws schedule)
    (hfinished : AllFinished address (runLogins φ server address db "13" draws schedule)) :
    LoginsAgree address "13" (runLogins φ server address db "13" draws schedule) := by
  obtain ⟨a, rest, rfl, hquiet⟩ := hquiet
  have hafter := afterRecord_end hfresh hfinished
  let new := generateNick familyNameMap (draws a)
  have hreplied : ∀ i, Replied (bulkValue (some new))
      ((runLogins φ server address db "13" draws (a :: a :: rest)).threads i) := by
    intro i
    by_cases hi : i = a
    · subst hi
      exact ⟨_, hafter.first, rfl⟩
    by_cases hearly : 2 ≤ (rest.takeWhile (· ≠ a)).count i
    · rcases hquiet with hnodup | hsame
      · have hcount := List.nodup_iff_count_le_one.mp hnodup i
        omega
      · have hold := hafter.replied i hi hearly
        rwa [hsame] at hold
    · obtain ⟨n, hreader⟩ := hafter.others i hi hearly
      have hpending := (outcome_isSome_iff _ _).mp (hfinished i)
      match n, hreader with
      | 0, hreader =>
          rw [hreader, login, pending_responeLogin] at hpending
          exact absurd hpending (Option.some_ne_none _)
      | 1, hreader =>
          rw [hreader, pending_reading] at hpending
          exact absurd hpending (Option.some_ne_none _)
      | n + 2, hreader => exact hreader
  refine ⟨?_, ?_⟩
  · have honly : ∀ i, CreatesAccount "13"
        (runLogins φ server address db "13" draws (a :: a :: rest)).log i → i = a := by
      rintro i ⟨address', field, uid, fields, _, _, hmset⟩
      by_contra hi
      exact hafter.log i hi _ hmset rfl
    intro i j hi hj
    rw [honly i hi, honly j hj]
  · intro i info hinfo
    obtain ⟨info', hdone, hname⟩ := hreplied i
    rw [hdone] at hinfo
    cases hinfo
    exact ⟨new, ⟨_, hafter.mapped.uid, rfl, hafter.mapped.nick⟩, hname⟩

/-- Starting from a store without the account, the logins agree once all handlers have finished
if and only if there are none, or the smid is the constant 13 and the first login is undisturbed
by the others. -/
theorem firstLogins_agree_iff (server : RedisServer) (address : Nat) (db : server.Db)
    (smid : String) (draws : ι → Draw) (schedule : List ι)
    (hfresh : NoAccount φ (server.hashes db) smid)
    (hfinished : AllFinished address (runLogins φ server address db smid draws schedule)) :
    LoginsAgree address smid (runLogins φ server address db smid draws schedule) ↔
      schedule = [] ∨ smid = "13" ∧
        FirstLoginUndisturbed (server.hashes db "uid_100000" RedisKey.nick) draws schedule := by
  constructor
  · intro hagree
    rcases schedule with _ | ⟨a, rest⟩
    · exact Or.inl rfl
    · obtain rfl := smid_eq_of_agree (i := a) hfresh hfinished hagree
      exact Or.inr ⟨rfl, undisturbed_of_agree hfresh hfinished hagree⟩
  · rintro (rfl | ⟨rfl, hquiet⟩)
    · have hnone : ∀ i : ι, False := by
        intro i
        have hpending := (outcome_isSome_iff _ _).mp (hfinished i)
        rw [runLogins, runPool_nil] at hpending
        exact absurd hpending (Option.some_ne_none _)
      exact ⟨fun i => (hnone i).elim, fun i => (hnone i).elim⟩
    · exact agree_of_undisturbed hfresh hquiet hfinished

end FirstLogin

/-! ## Two logins -/

def emptyStore : Memory := ⟨fun _ _ => none, fun _ => 0⟩

theorem emptyStore_noAccount : NoAccount Empty (memoryRedis.hashes emptyStore) "13" := rfl

def twoDraws (second : Bool) : Draw :=
  { someDraw with first := if second then ⟨1, by decide⟩ else someDraw.first }

/-- The second login starts when the first has returned. -/
theorem firstLogins_agree_in_turn :
    LoginsAgree 1 "13" (runLogins Empty memoryRedis 1 emptyStore "13" twoDraws
      [false, false, false, true, true]) := by
  have hfinished : AllFinished 1 (runLogins Empty memoryRedis 1 emptyStore "13" twoDraws
      [false, false, false, true, true]) := by
    intro i
    cases i <;> rfl
  apply (firstLogins_agree_iff memoryRedis 1 emptyStore "13" twoDraws _ emptyStore_noAccount
    hfinished).mpr
  exact Or.inr ⟨rfl, false, [false, true, true], rfl, Or.inl (by decide)⟩

/-- Both lookups come before the first HSET, so two accounts are created. -/
theorem firstLogins_disagree :
    NoAccount Empty (memoryRedis.hashes emptyStore) "13" ∧
      AllFinished 1 (runLogins Empty memoryRedis 1 emptyStore "13" twoDraws
        [false, true, false, true, false, true]) ∧
      ¬ LoginsAgree 1 "13" (runLogins Empty memoryRedis 1 emptyStore "13" twoDraws
        [false, true, false, true, false, true]) := by
  have hfinished : AllFinished 1 (runLogins Empty memoryRedis 1 emptyStore "13" twoDraws
      [false, true, false, true, false, true]) := by
    intro i
    cases i <;> rfl
  refine ⟨emptyStore_noAccount, hfinished, fun hagree => ?_⟩
  obtain ⟨hfirst, hsecond⟩ := both_create emptyStore_noAccount (by decide) hfinished
  exact absurd (hagree.1 false true hfirst hsecond) (by decide)

end Doudizhu.UserService
