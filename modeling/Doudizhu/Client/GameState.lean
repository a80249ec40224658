import Doudizhu.Lib.Action

/-! # The file that keeps the state of the client

`GameState.lua` writes a table as JSON text, with a digest when there is a secret key, and hands
what it reads to the listener of the application.  The JSON and crypto libraries and the writing
of the file are parameters; `json.lua` and `crypto.lua` around them are modelled.

A table is given by its fields, or stands for itself: such an object may contain itself and is
whatever the application makes of it. -/

set_option autoImplicit false

namespace Doudizhu.Disk

abbrev Text := List UInt8

def ascii (s : String) : Text := s.toList.map fun c => UInt8.ofNat c.toNat

inductive Key (ν ω : Type) where
  | boolean (b : Bool)
  | number (n : ν)
  | string (s : Text)
  | object (o : ω)
  deriving DecidableEq

inductive Value (ν ω : Type) where
  | nil
  | boolean (b : Bool)
  | number (n : ν)
  | string (s : Text)
  | object (o : ω)
  | table (fields : List (Key ν ω × Value ν ω))

inductive ObjectKind where
  | table
  | function
  | userdata
  | thread
  deriving DecidableEq

inductive Kind where
  | nil
  | boolean
  | number
  | string
  | object (kind : ObjectKind)
  deriving DecidableEq

section Fields
variable {ν ω : Type} [DecidableEq ν] [DecidableEq ω]

def lookup : List (Key ν ω × Value ν ω) → Key ν ω → Value ν ω
  | [], _ => .nil
  | (k, v) :: fields, key => if k = key then v else lookup fields key

/-- `t[key] = v`; the value nil removes the field. -/
def assign (fields : List (Key ν ω × Value ν ω)) (key : Key ν ω) (v : Value ν ω) :
    List (Key ν ω × Value ν ω) :=
  match v with
  | .nil => fields.filter fun field => field.1 ≠ key
  | v => (key, v) :: fields.filter fun field => field.1 ≠ key

def Value.isText (v : Value ν ω) (s : Text) : Bool :=
  match v with
  | .string t => t = s
  | _ => false

def Value.isNil : Value ν ω → Bool
  | .nil => true
  | _ => false

/-- All fields are strings under strings. -/
def OnlyTexts (fields : List (Key ν ω × Value ν ω)) : Prop :=
  ∀ field ∈ fields, ∃ k s, field = (.string k, .string s)

end Fields

/-- The libraries.  `decode` and `encode` are those of `cjson`, where nothing is an error that is
raised; it encodes every table of texts.  `cc.Crypto` may return nil in place of a text.  What a
write makes of the file is left open. -/
structure Env (ν ω : Type) where
  kind : ω → ObjectKind
  fields : ω → List (Key ν ω × Value ν ω)
  numberText : ν → Text
  address : Value ν ω → Text
  stringLibrary : Key ν ω → Value ν ω
  decode : Text → Option (Value ν ω)
  encode : Value ν ω → Option Text
  encode_texts : ∀ fields, OnlyTexts fields → (encode (.table fields)).isSome = true
  md5 : Text → Text
  encryptXXTEA : Text → Text → Option Text
  decryptXXTEA : Text → Text → Option Text
  writefile : Option Text → Text → Bool × Option Text

section Operations
variable {ν ω : Type} [DecidableEq ν] [DecidableEq ω] (env : Env ν ω)

def typeOf : Value ν ω → Kind
  | .nil => .nil
  | .boolean _ => .boolean
  | .number _ => .number
  | .string _ => .string
  | .object o => .object (env.kind o)
  | .table _ => .object .table

def isTable (v : Value ν ω) : Bool := typeOf env v = .object .table

def tostring : Value ν ω → Text
  | .string s => s
  | .number n => env.numberText n
  | .nil => ascii "nil"
  | .boolean b => ascii (if b then "true" else "false")
  | v => env.address v

/-- The text of an operand of `..`; with any other value a concatenation raises. -/
def operand : Value ν ω → Option Text
  | .string s => some s
  | .number n => some (env.numberText n)
  | _ => none

/-- The fields of a table; `none` for another value. -/
def fieldsOf : Value ν ω → Option (List (Key ν ω × Value ν ω))
  | .table fields => some fields
  | .object o => if env.kind o = .table then some (env.fields o) else none
  | _ => none

/-- `v[key]`, where the key `none` is nil or NaN; `none` when it raises.  A string answers with
the field of the string library. -/
def index (v : Value ν ω) (key : Option (Key ν ω)) : Option (Value ν ω) :=
  match v with
  | .string _ => some (key.elim .nil env.stringLibrary)
  | v => (fieldsOf env v).map fun fields => key.elim .nil (lookup fields)

/-- `v[key] = x`: the table afterwards, `none` when it raises. -/
def newindex (v : Value ν ω) (key : Option (Key ν ω)) (x : Value ν ω) : Option (Value ν ω) := do
  let fields ← fieldsOf env v
  let key ← key
  return .table (assign fields key x)

def field (v : Value ν ω) (name : String) : Option (Value ν ω) :=
  index env v (some (.string (ascii name)))

/-! ## json.lua and crypto.lua -/

def textOrNil : Option Text → Value ν ω
  | some s => .string s
  | none => .nil

/-- `json.encode(var)`: nil when the library raises. -/
def jsonEncode (var : Value ν ω) : Value ν ω := textOrNil (env.encode var)

/-- `json.decode(text)`: the library takes a number for its text and raises on other values. -/
def jsonDecode (text : Value ν ω) : Value ν ω :=
  match text with
  | .string s => (env.decode s).getD .nil
  | .number n => (env.decode (env.numberText n)).getD .nil
  | _ => .nil

def encryptXXTEA (plaintext : Value ν ω) (key : Text) : Value ν ω :=
  textOrNil (env.encryptXXTEA (tostring env plaintext) key)

def decryptXXTEA (ciphertext : Value ν ω) (key : Text) : Value ν ω :=
  textOrNil (env.decryptXXTEA (tostring env ciphertext) key)

end Operations

/-! ## GameState.lua -/

namespace GameState

def ERROR_INVALID_FILE_CONTENTS : Int := -1
def ERROR_HASH_MISS_MATCH : Int := -2
def ERROR_STATE_FILE_NOT_FOUND : Int := -3

def encodeSign : Text := ascii "=QP="

inductive EventName where
  | init
  | load
  | save
  deriving DecidableEq

/-- The argument of the listener; `errorCode` is nil for an event without error. -/
structure Param (ν ω : Type) where
  name : EventName
  errorCode : Option Int
  values : Value ν ω
  encode : Bool

end GameState

open GameState

/-- `DiskDataManager.Instance` and its table, the locals of `GameState.lua`, and the file. -/
structure Client (ν ω : Type) where
  hasInstance : Bool
  mData : Value ν ω
  eventListener : Param ν ω → Option (Value ν ω)
  secretKey : Option Text
  disk : Option Text

def Client.start {ν ω : Type} (disk : Option Text) : Client ν ω where
  hasInstance := false
  mData := .nil
  eventListener := fun _ => none
  secretKey := none
  disk := disk

namespace GameState

section Model
variable {ν ω : Type} [DecidableEq ν] [DecidableEq ω] (env : Env ν ω)

def notify (param : Param ν ω) : Action (Client ν ω) (Value ν ω) := fun st =>
  Action.ofOption (st.eventListener param) st

def isEncodedContents (contents : Text) : Bool :=
  contents.take encodeSign.length = encodeSign

def encode (secretKey : Text) (values : Value ν ω) : Option Text := do
  let s := jsonEncode env values
  let hash := env.md5 ((← operand env s) ++ secretKey)
  let contents := jsonEncode env
    (.table (assign (assign [] (.string (ascii "h")) (.string hash)) (.string (ascii "s")) s))
  return encodeSign ++ (← operand env contents)

/-- `decode_(fileContents)`: the values or an error code; `none` when it raises. -/
def decode (secretKey : Text) (fileContents : Text) : Option (Except Int (Value ν ω)) :=
  let contents := fileContents.drop encodeSign.length
  let j := jsonDecode env (.string contents)
  if !isTable env j then some (.error ERROR_INVALID_FILE_CONTENTS)
  else do
    let hash ← field env j "h"
    let s ← field env j "s"
    let testHash := env.md5 ((← operand env s) ++ secretKey)
    if !hash.isText testHash then some (.error ERROR_HASH_MISS_MATCH)
    else
      let values := jsonDecode env s
      if !isTable env values then some (.error ERROR_INVALID_FILE_CONTENTS)
      else some (.ok values)

def init (eventListener : Param ν ω → Option (Value ν ω)) (secretKey : Text) :
    Action (Client ν ω) Unit := do
  Action.modify fun st => { st with eventListener := eventListener, secretKey := some secretKey }
  let _ ← notify ⟨.init, none, .nil, true⟩

def failed (errorCode : Int) : Param ν ω := ⟨.load, some errorCode, .nil, false⟩

def read (secretKey : Option Text) (contents : Text) : Option (Param ν ω) :=
  match secretKey, isEncodedContents contents with
  | some key, true =>
      (decode env key contents).map fun
        | .error errorCode => failed errorCode
        | .ok values => ⟨.load, none, values, true⟩
  | _, _ =>
      let values := jsonDecode env (.string contents)
      if !isTable env values then some (failed ERROR_INVALID_FILE_CONTENTS)
      else some ⟨.load, none, values, false⟩

def load : Action (Client ν ω) (Value ν ω) := fun st =>
  match st.disk with
  | none => notify (failed ERROR_STATE_FILE_NOT_FOUND) st
  | some contents => (Action.ofOption (read env st.secretKey contents) >>= notify) st

/-- `GameState.save(newValues)`; a text that cannot be written is reported only. -/
def save (newValues : Value ν ω) : Action (Client ν ω) Bool := fun st =>
  (do
    let values ← notify ⟨.save, none, newValues, st.secretKey.isSome⟩
    if !isTable env values then return false
    else
      match st.secretKey with
      | some key => do
          let contents ← Action.ofOption (encode env key values)
          write contents
      | none =>
          match jsonEncode env values with
          | .string s => write s
          | _ => return false) st
where
  /-- `io.writefile(filename, contents)` -/
  write (contents : Text) : Action (Client ν ω) Bool := fun st =>
    .returned (env.writefile st.disk contents).1
      { st with disk := (env.writefile st.disk contents).2 }

end Model

end GameState

end Doudizhu.Disk
