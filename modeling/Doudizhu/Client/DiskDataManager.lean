import Doudizhu.Client.GameState
import Mathlib.Tactic.SplitIfs

/-! # The data that the client keeps on disk

`DiskDataManager.lua` keeps a table and saves it encrypted through `GameState`.  Whatever the
listener returns for the event of a load becomes the table; on an error that is nil, and a file
that the checks of `GameState` do not foresee makes the load raise. -/

set_option autoImplicit false

namespace Doudizhu.Disk

open GameState

section Model
variable {ν ω : Type} [DecidableEq ν] [DecidableEq ω] (env : Env ν ω)

def secretKey : Text := ascii "coopy"
def encryptStr : Text := ascii "abcd"

def initFunc (param : Param ν ω) : Option (Value ν ω) :=
  match param.errorCode, param.name with
  | some _, _ => some .nil
  | none, .save =>
      let str := jsonEncode env param.values
      let str := encryptXXTEA env str encryptStr
      some (.table (assign [] (.string (ascii "data")) str))
  | none, .load =>
      (field env param.values "data").map fun data =>
        jsonDecode env (decryptXXTEA env data encryptStr)
  | none, .init => some .nil

def fileExists : Action (Client ν ω) Bool := fun st => .returned st.disk.isSome st

def init : Action (Client ν ω) Unit := do
  GameState.init (initFunc env) secretKey
  if ← fileExists then
    let mData ← GameState.load env
    Action.modify fun st => { st with mData := mData }

def ctor : Action (Client ν ω) Unit := fun st =>
  if st.hasInstance then .returned () st
  else init env { st with hasInstance := true, mData := .table [] }

def getInstance : Action (Client ν ω) Unit := fun st =>
  if st.hasInstance then .returned () st else ctor env st

def checkType (checkType : Kind) (value : Value ν ω) : Bool := typeOf env value = checkType

def saveData : Action (Client ν ω) Unit := fun st =>
  (GameState.save env st.mData >>= fun _ => pure ()) st

def setData (key : Option (Key ν ω)) (value : Value ν ω) : Action (Client ν ω) Unit := fun st =>
  (do
    let mData ← Action.ofOption (newindex env st.mData key value)
    Action.modify fun (st : Client ν ω) => { st with mData := mData }) st

def putValue (key : Option (Key ν ω)) (value : Value ν ω) (isSaveImm : Bool) :
    Action (Client ν ω) Unit := do
  setData env key value
  if isSaveImm then saveData env

def putTyped (kind : Kind) (key : Option (Key ν ω)) (value : Value ν ω) (isSaveImm : Bool) :
    Action (Client ν ω) Unit :=
  if checkType env kind value then putValue env key value isSaveImm else pure ()

def putNumber := putTyped env .number
def putBoolean := putTyped env .boolean
def putString := putTyped env .string
def putTable := putTyped env (.object .table)

def getValue (key : Option (Key ν ω)) (defValue : Value ν ω) : Action (Client ν ω) (Value ν ω) :=
  fun st =>
    (do
      let value ← Action.ofOption (index env st.mData key)
      return if value.isNil && !defValue.isNil then defValue else value) st

def getNumber := getValue env
def getBoolean := getValue env
def getString := getValue env
def getTable := getValue env

end Model

inductive Setter where
  | putValue
  | putNumber
  | putBoolean
  | putString
  | putTable

inductive Getter where
  | getValue
  | getNumber
  | getBoolean
  | getString
  | getTable

inductive Call (ν ω : Type) where
  | put (f : Setter) (key : Option (Key ν ω)) (value : Value ν ω) (isSaveImm : Bool)
  | get (f : Getter) (key : Option (Key ν ω)) (defValue : Value ν ω)
  | saveData

section Calls
variable {ν ω : Type} [DecidableEq ν] [DecidableEq ω] (env : Env ν ω)

/-- Nothing is to be stored under nil or NaN, which is an error for any table. -/
def Call.Keyed : Call ν ω → Prop
  | .put _ key _ _ => key.isSome = true
  | .get _ _ _ | .saveData => True

def Setter.run :
    Setter → Option (Key ν ω) → Value ν ω → Bool → Action (Client ν ω) Unit
  | .putValue => Disk.putValue env
  | .putNumber => Disk.putNumber env
  | .putBoolean => Disk.putBoolean env
  | .putString => Disk.putString env
  | .putTable => Disk.putTable env

def Getter.run :
    Getter → Option (Key ν ω) → Value ν ω → Action (Client ν ω) (Value ν ω)
  | .getValue => Disk.getValue env
  | .getNumber => Disk.getNumber env
  | .getBoolean => Disk.getBoolean env
  | .getString => Disk.getString env
  | .getTable => Disk.getTable env

/-- What the call returns, nil for a function without a result. -/
def Call.run : Call ν ω → Action (Client ν ω) (Value ν ω)
  | .put f key value isSaveImm => do
      f.run env key value isSaveImm
      return .nil
  | .get f key defValue => f.run env key defValue
  | .saveData => do
      Disk.saveData env
      return .nil

def runCalls : List (Call ν ω) → Action (Client ν ω) (List (Value ν ω))
  | [] => pure []
  | call :: calls => do
      let value ← call.run env
      let values ← runCalls calls
      return value :: values

end Calls

/-! ## What a file has to be -/

section Readable
variable {ν ω : Type} [DecidableEq ν] [DecidableEq ω] (env : Env ν ω)

/-- A file that `GameState` accepts, and its values: the JSON text of a table, or behind the sign
that of a table with the JSON text of a table and its digest. -/
inductive Holds : Text → Value ν ω → Prop where
  | plain (contents : Text) (sign : isEncodedContents contents = false)
      (values : isTable env (jsonDecode env (.string contents)) = true) :
      Holds contents (jsonDecode env (.string contents))
  | encoded (contents text : Text) (j s : Value ν ω) (sign : isEncodedContents contents = true)
      (outer : jsonDecode env (.string (contents.drop encodeSign.length)) = j)
      (table : isTable env j = true) (state : field env j "s" = some s)
      (operand : operand env s = some text)
      (digest : field env j "h" = some (.string (env.md5 (text ++ secretKey))))
      (values : isTable env (jsonDecode env s) = true) : Holds contents (jsonDecode env s)

/-- The values have encrypted JSON text of a table. -/
def Readable (contents : Text) : Prop :=
  ∃ values data, Holds env contents values ∧ field env values "data" = some data ∧
    isTable env (jsonDecode env (decryptXXTEA env data encryptStr)) = true

variable {env} {contents : Text} {values : Value ν ω}

omit [DecidableEq ν] [DecidableEq ω] in
theorem eq_of_isText {v : Value ν ω} {s : Text} : v.isText s = true ↔ v = .string s := by
  cases v <;> simp [Value.isText]

/-- The envelope of the sign is taken off when every check of `decode_` passes. -/
theorem decode_eq_ok_iff {j : Value ν ω}
    (hj : jsonDecode env (.string (contents.drop encodeSign.length)) = j) :
    GameState.decode env secretKey contents = some (.ok values) ↔
      ∃ s text, isTable env j = true ∧ field env j "s" = some s ∧ operand env s = some text ∧
        field env j "h" = some (.string (env.md5 (text ++ secretKey))) ∧
        isTable env (jsonDecode env s) = true ∧ values = jsonDecode env s := by
  simp only [GameState.decode, hj]
  constructor
  · intro h
    split_ifs at h with htable
    · cases h
    · obtain ⟨hash, hhash, h⟩ := Option.bind_eq_some_iff.mp h
      obtain ⟨s, hs, h⟩ := Option.bind_eq_some_iff.mp h
      obtain ⟨text, htext, h⟩ := Option.bind_eq_some_iff.mp h
      split_ifs at h with hdigest hvalues
      · cases h
      · cases h
      · cases h
        simp only [Bool.not_eq_true', Bool.not_eq_false] at htable hdigest hvalues
        rw [eq_of_isText.mp hdigest] at hhash
        exact ⟨s, text, htable, hs, htext, hhash, hvalues, rfl⟩
  · rintro ⟨s, text, htable, hs, htext, hhash, hvalues, rfl⟩
    simp [htable, hs, htext, hhash, hvalues, Value.isText]

theorem read_of_holds (h : Holds env contents values) :
    ∃ encode, GameState.read env (some secretKey) contents =
      some ⟨.load, none, values, encode⟩ := by
  cases h with
  | plain sign table => exact ⟨false, by simp [GameState.read, sign, table]⟩
  | encoded text j s sign outer table state operand digest table' =>
      have hdecode := (decode_eq_ok_iff outer).mpr
        ⟨s, text, table, state, operand, digest, table', rfl⟩
      exact ⟨true, by simp only [GameState.read, sign, hdecode, Option.map_some]⟩

/-- The event of a load carries an error, or what the file holds. -/
theorem read_cases {param : Param ν ω}
    (h : GameState.read env (some secretKey) contents = some param) :
    (∃ errorCode, param = failed errorCode) ∨
      ∃ values encode, Holds env contents values ∧ param = ⟨.load, none, values, encode⟩ := by
  cases sign : isEncodedContents contents with
  | true =>
      simp only [GameState.read, sign] at h
      obtain ⟨result, hdecode, rfl⟩ := Option.map_eq_some_iff.mp h
      cases result with
      | error errorCode => exact .inl ⟨errorCode, rfl⟩
      | ok values =>
          obtain ⟨s, text, table, state, operand, digest, table', rfl⟩ :=
            (decode_eq_ok_iff rfl).mp hdecode
          exact .inr ⟨_, true,
            .encoded contents text _ s sign rfl table state operand digest table', rfl⟩
  | false =>
      simp only [GameState.read, sign] at h
      split_ifs at h with htable
      · cases h
        exact .inl ⟨_, rfl⟩
      · cases h
        simp only [Bool.not_eq_true', Bool.not_eq_false] at htable
        exact .inr ⟨_, false, .plain contents sign htable, rfl⟩

/-- What a file that exists makes of the table; `none` when the load raises. -/
def loaded (env : Env ν ω) (contents : Text) : Option (Value ν ω) :=
  (GameState.read env (some secretKey) contents).bind (initFunc env)

theorem loaded_of_readable (h : Readable env contents) :
    ∃ v, loaded env contents = some v ∧ isTable env v = true := by
  obtain ⟨values, data, hholds, hdata, htable⟩ := h
  obtain ⟨encode, hread⟩ := read_of_holds hholds
  refine ⟨_, ?_, htable⟩
  rw [loaded, hread, Option.bind_some, initFunc, hdata, Option.map_some]

theorem readable_of_loaded {v : Value ν ω} (h : loaded env contents = some v)
    (htable : isTable env v = true) : Readable env contents := by
  obtain ⟨param, hread, hparam⟩ := Option.bind_eq_some_iff.mp h
  rcases read_cases hread with ⟨errorCode, rfl⟩ | ⟨values, encode, hholds, rfl⟩
  · -- the listener returns nil for every error
    cases hparam
    cases htable
  · obtain ⟨data, hdata, rfl⟩ := Option.map_eq_some_iff.mp hparam
    exact ⟨values, data, hholds, hdata, htable⟩

end Readable

/-! ## The calls on a manager with a table -/

section Ready
variable {ν ω : Type} [DecidableEq ν] [DecidableEq ω] {env : Env ν ω}

def initialized (env : Env ν ω) (mData : Value ν ω) (disk : Option Text) : Client ν ω where
  hasInstance := true
  mData := mData
  eventListener := initFunc env
  secretKey := some secretKey
  disk := disk

omit [DecidableEq ν] [DecidableEq ω] in
theorem fieldsOf_isSome {v : Value ν ω} (h : isTable env v = true) :
    ∃ fields, fieldsOf env v = some fields := by
  cases v with
  | table fields => exact ⟨fields, rfl⟩
  | object o => simp_all [isTable, typeOf, fieldsOf]
  | _ => cases h

theorem index_of_fieldsOf {v : Value ν ω} {fields : List (Key ν ω × Value ν ω)}
    (h : fieldsOf env v = some fields) (key : Option (Key ν ω)) :
    index env v key = some (key.elim .nil (lookup fields)) := by
  have hmap : (fieldsOf env v).map (fun fields => key.elim .nil (lookup fields)) =
      some (key.elim .nil (lookup fields)) := by rw [h, Option.map_some]
  cases v with
  | string s => cases h
  | _ => exact hmap

omit [DecidableEq ν] [DecidableEq ω] in
theorem onlyTexts_nil : OnlyTexts ([] : List (Key ν ω × Value ν ω)) :=
  fun _ hfield => absurd hfield List.not_mem_nil

theorem onlyTexts_assign {fields : List (Key ν ω × Value ν ω)} (h : OnlyTexts fields) (k : Text)
    (v : Option Text) : OnlyTexts (assign fields (.string k) (textOrNil v)) := by
  intro field hfield
  cases v with
  | none => exact h field ((List.mem_filter.mp hfield).1)
  | some s =>
      rcases List.mem_cons.mp hfield with rfl | hfield
      · exact ⟨k, s, rfl⟩
      · exact h field ((List.mem_filter.mp hfield).1)

variable (env) in
theorem encode_isSome {fields : List (Key ν ω × Value ν ω)} (h : OnlyTexts fields) :
    ∃ contents, GameState.encode env secretKey (.table fields) = some contents := by
  obtain ⟨s, hs⟩ := Option.isSome_iff_exists.mp (env.encode_texts fields h)
  have hnone : OnlyTexts ([] : List (Key ν ω × Value ν ω)) := onlyTexts_nil
  have hhash := onlyTexts_assign hnone (ascii "h") (some (env.md5 (s ++ secretKey)))
  have henvelope := onlyTexts_assign hhash (ascii "s") (some s)
  obtain ⟨t, ht⟩ := Option.isSome_iff_exists.mp (env.encode_texts _ henvelope)
  refine ⟨encodeSign ++ t, ?_⟩
  simp only [textOrNil] at ht
  simp [GameState.encode, jsonEncode, hs, ht, textOrNil, operand]

variable (env) in
theorem save_initialized (values mData : Value ν ω) (disk : Option Text) :
    ∃ written disk', GameState.save env values (initialized env mData disk) =
      .returned written (initialized env mData disk') := by
  have hnone : OnlyTexts ([] : List (Key ν ω × Value ν ω)) := onlyTexts_nil
  have htexts := onlyTexts_assign hnone (ascii "data")
    (env.encryptXXTEA (tostring env (jsonEncode env values)) encryptStr)
  obtain ⟨contents, hcontents⟩ := encode_isSome env htexts
  refine ⟨(env.writefile disk contents).1, (env.writefile disk contents).2, ?_⟩
  have hnotify : notify ⟨.save, none, values, true⟩ (initialized env mData disk) =
      .returned (.table (assign [] (.string (ascii "data"))
        (textOrNil (env.encryptXXTEA (tostring env (jsonEncode env values)) encryptStr))))
        (initialized env mData disk) := rfl
  change (notify ⟨.save, none, values, true⟩ >>= _) (initialized env mData disk) = _
  rw [Action.bind_returned hnotify]
  change (Action.ofOption (GameState.encode env secretKey _) >>= _) (initialized env mData disk) = _
  rw [hcontents]
  rfl

variable (env) in
theorem saveData_initialized (mData : Value ν ω) (disk : Option Text) :
    ∃ disk', saveData env (initialized env mData disk) =
      .returned () (initialized env mData disk') := by
  obtain ⟨written, disk', hsave⟩ := save_initialized env mData mData disk
  exact ⟨disk', Action.bind_returned hsave _⟩

theorem setData_initialized {mData : Value ν ω} (hmData : isTable env mData = true)
    {key : Option (Key ν ω)} (hkey : key.isSome = true) (value : Value ν ω)
    (disk : Option Text) :
    ∃ fields, setData env key value (initialized env mData disk) =
      .returned () (initialized env (.table fields) disk) := by
  obtain ⟨fields, hfields⟩ := fieldsOf_isSome hmData
  obtain ⟨k, rfl⟩ := Option.isSome_iff_exists.mp hkey
  refine ⟨assign fields k value, ?_⟩
  have hnew : newindex env mData (some k) value = some (.table (assign fields k value)) := by
    rw [newindex, hfields]
    rfl
  change (Action.ofOption (newindex env mData (some k) value) >>= _)
    (initialized env mData disk) = _
  rw [hnew, Action.bind_returned (Action.ofOption_some ..)]
  rfl

/-- The manager has its table, and what it needs to save it. -/
def Ready (env : Env ν ω) (st : Client ν ω) : Prop :=
  ∃ mData disk, st = initialized env mData disk ∧ isTable env mData = true

theorem putValue_ready {st : Client ν ω} (h : Ready env st) {key : Option (Key ν ω)}
    (hkey : key.isSome = true) (value : Value ν ω) (isSaveImm : Bool) :
    ∃ st', putValue env key value isSaveImm st = .returned () st' ∧ Ready env st' := by
  obtain ⟨mData, disk, rfl, hmData⟩ := h
  obtain ⟨fields, hset⟩ := setData_initialized hmData hkey value disk
  obtain ⟨disk', hsave⟩ := saveData_initialized env (.table fields) disk
  rw [putValue, Action.bind_returned hset]
  cases isSaveImm with
  | false => exact ⟨_, rfl, _, _, rfl, rfl⟩
  | true => exact ⟨_, hsave, _, _, rfl, rfl⟩

theorem getValue_ready {st : Client ν ω} (h : Ready env st) (key : Option (Key ν ω))
    (defValue : Value ν ω) : ∃ value, getValue env key defValue st = .returned value st := by
  obtain ⟨mData, disk, rfl, hmData⟩ := h
  obtain ⟨fields, hfields⟩ := fieldsOf_isSome hmData
  have hindex : Action.ofOption (index env mData key) (initialized env mData disk) =
      .returned (key.elim .nil (lookup fields)) (initialized env mData disk) := by
    rw [index_of_fieldsOf hfields key, Action.ofOption_some]
  exact ⟨_, Action.bind_returned hindex _⟩

theorem putTyped_ready {st : Client ν ω} (h : Ready env st) (kind : Kind)
    {key : Option (Key ν ω)} (hkey : key.isSome = true) (value : Value ν ω) (isSaveImm : Bool) :
    ∃ st', putTyped env kind key value isSaveImm st = .returned () st' ∧ Ready env st' := by
  rw [putTyped]
  split
  · exact putValue_ready h hkey value isSaveImm
  · exact ⟨st, Action.pure_apply .., h⟩

theorem setter_ready {st : Client ν ω} (h : Ready env st) (f : Setter) {key : Option (Key ν ω)}
    (hkey : key.isSome = true) (value : Value ν ω) (isSaveImm : Bool) :
    ∃ st', f.run env key value isSaveImm st = .returned () st' ∧ Ready env st' := by
  cases f with
  | putValue => exact putValue_ready h hkey value isSaveImm
  | putNumber => exact putTyped_ready h _ hkey value isSaveImm
  | putBoolean => exact putTyped_ready h _ hkey value isSaveImm
  | putString => exact putTyped_ready h _ hkey value isSaveImm
  | putTable => exact putTyped_ready h _ hkey value isSaveImm

theorem run_ready {st : Client ν ω} (h : Ready env st) {call : Call ν ω} (hkey : call.Keyed) :
    ∃ value st', call.run env st = .returned value st' ∧ Ready env st' := by
  cases call with
  | put f key value isSaveImm =>
      obtain ⟨st', hput, hready⟩ := setter_ready h f hkey value isSaveImm
      exact ⟨_, st', Action.bind_returned hput _, hready⟩
  | get f key defValue =>
      obtain ⟨value, hget⟩ := getValue_ready h key defValue
      refine ⟨value, st, ?_, h⟩
      cases f <;> exact hget
  | saveData =>
      obtain ⟨mData, disk, rfl, hmData⟩ := h
      obtain ⟨disk', hsave⟩ := saveData_initialized env mData disk
      exact ⟨_, _, Action.bind_returned hsave _, mData, disk', rfl, hmData⟩

theorem runCalls_ready {st : Client ν ω} (h : Ready env st) :
    ∀ calls : List (Call ν ω), (∀ call ∈ calls, call.Keyed) →
      ∃ values st', runCalls env calls st = .returned values st' ∧ Ready env st' := by
  intro calls
  induction calls generalizing st with
  | nil => intro _; exact ⟨[], st, rfl, h⟩
  | cons call calls ih =>
      intro hkeyed
      obtain ⟨value, st₁, hrun, h₁⟩ := run_ready h (hkeyed call List.mem_cons_self)
      obtain ⟨values, st', hruns, h'⟩ :=
        ih h₁ fun call hcall => hkeyed call (List.mem_cons_of_mem _ hcall)
      refine ⟨value :: values, st', ?_, h'⟩
      rw [runCalls, Action.bind_returned hrun, Action.bind_returned hruns]
      rfl

end Ready

/-! ## Every content of the file -/

section Survival
variable {ν ω : Type} [DecidableEq ν] [DecidableEq ω] {env : Env ν ω}

theorem getInstance_absent :
    getInstance env (Client.start none) = .returned () (initialized env (.table []) none) := rfl

variable (env) in
/-- The result of the load becomes the table; when the load raises, `mData` is as the ctor made
it. -/
theorem getInstance_present (contents : Text) :
    getInstance env (Client.start (some contents)) =
      match loaded env contents with
      | some v => .returned () (initialized env v (some contents))
      | none => .raised (initialized env (.table []) (some contents)) := by
  have hload : GameState.load env (initialized env (.table []) (some contents)) =
      Action.ofOption (loaded env contents) (initialized env (.table []) (some contents)) := by
    change (Action.ofOption (GameState.read env (some secretKey) contents) >>= notify) _ = _
    rw [loaded]
    cases GameState.read env (some secretKey) contents with
    | none => rfl
    | some param => rfl
  change (GameState.load env >>= _) (initialized env (.table []) (some contents)) = _
  cases hloaded : loaded env contents with
  | none =>
      rw [hloaded, Action.ofOption_none] at hload
      rw [Action.bind_raised hload]
  | some v =>
      rw [hloaded, Action.ofOption_some] at hload
      rw [Action.bind_returned hload]
      rfl

/-- The client starts with a manager whose table all calls work on, and which is empty when the
file is not readable. -/
def Survives (env : Env ν ω) (disk : Option Text) : Prop :=
  ∃ st, getInstance env (Client.start disk) = .returned () st ∧
    isTable env st.mData = true ∧
    (∀ calls : List (Call ν ω), (∀ call ∈ calls, call.Keyed) →
      ∃ values st', runCalls env calls st = .returned values st') ∧
    ∀ contents, disk = some contents → ¬ Readable env contents → st.mData = .table []

/-- A manager survives its file exactly when there is none or it passes every check down to the
table that it encrypts. -/
theorem survives_iff (env : Env ν ω) (disk : Option Text) :
    Survives env disk ↔ disk = none ∨ ∃ contents, disk = some contents ∧ Readable env contents := by
  cases disk with
  | none =>
      refine iff_of_true ⟨_, getInstance_absent, rfl, fun calls hkeyed => ?_, ?_⟩ (.inl rfl)
      · obtain ⟨values, st', hrun, _⟩ := runCalls_ready ⟨.table [], none, rfl, rfl⟩ calls hkeyed
        exact ⟨values, st', hrun⟩
      · intro contents hdisk
        cases hdisk
  | some contents =>
      constructor
      · rintro ⟨st, hstart, htable, _⟩
        rw [getInstance_present env] at hstart
        cases hloaded : loaded env contents with
        | none =>
            rw [hloaded] at hstart
            cases hstart
        | some v =>
            rw [hloaded] at hstart
            cases hstart
            exact .inr ⟨contents, rfl, readable_of_loaded hloaded htable⟩
      · rintro (hnone | ⟨_, hcontents, hreadable⟩)
        · cases hnone
        cases hcontents
        obtain ⟨v, hloaded, htable⟩ := loaded_of_readable hreadable
        have hstart := getInstance_present env contents
        rw [hloaded] at hstart
        refine ⟨_, hstart, htable, fun calls hkeyed => ?_, ?_⟩
        · obtain ⟨values, st', hrun, _⟩ := runCalls_ready ⟨_, _, rfl, htable⟩ calls hkeyed
          exact ⟨values, st', hrun⟩
        · intro _ hdisk hunreadable
          cases hdisk
          exact absurd hreadable hunreadable

end Survival

def deafLibraries : Env Nat Empty where
  kind o := o.elim
  fields o := o.elim
  numberText _ := []
  address _ := []
  stringLibrary _ := .nil
  decode _ := none
  encode _ := some (ascii "{}")
  encode_texts _ _ := rfl
  md5 text := text
  encryptXXTEA text _ := some text
  decryptXXTEA text _ := some text
  writefile _ contents := (true, some contents)

/-- A file that ends behind its sign: `mData` is nil, so that the first value put raises. -/
theorem truncated_file_breaks : ∃ st,
    getInstance deafLibraries (Client.start (some (ascii "=QP="))) = .returned () st ∧
      st.mData = .nil ∧
      putNumber deafLibraries (some (.string (ascii "level"))) (.number 1) false st = .raised st ∧
      ¬ Survives deafLibraries (some (ascii "=QP=")) := by
  refine ⟨initialized deafLibraries .nil (some (ascii "=QP=")), ?_, rfl, ?_, ?_⟩
  · rfl
  · rfl
  · rintro ⟨st, hstart, htable, _⟩
    cases hstart
    cases htable

end Doudizhu.Disk
