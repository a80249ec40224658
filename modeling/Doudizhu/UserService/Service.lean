import Doudizhu.UserService.Redis
import Mathlib.Logic.Function.Basic

/-! # The user service

`userService.lua` as coroutines over Redis: `createUser`, `responeLogin` and the wrappers around
the Redis client.  `started` is the clients' manager once the start-up function has returned:
`addRedisClient` has been called for `user_redis` and for nothing else.  The random draws of a
nickname are an argument, so every outcome of `math.random` is covered. -/

set_option autoImplicit false

namespace Doudizhu.UserService

open Lua

def redisName : String := "user_redis"
def redisUidTag : String := "uid_counter"
def redisUidBase : Int := 100000
def redisUidsKey : String := "uidsMap"
def redisInfoKey : String := "uid_"

namespace RedisKey
def nick : String := "nick"
def ontable : String := "ontable"
def coin : String := "coin"
def tid : String := "tid"
end RedisKey

def familyNameMap : List String :=
  ["赵", "钱", "孙", "李", "周", "吴", "郑", "王", "冯", "陈", "褚", "卫", "蒋", "沈", "韩", "杨", "朱", "秦", "尤",
   "许", "何", "吕", "施", "张", "孔", "曹", "严", "华", "金", "魏", "陶", "姜", "戚", "谢", "邹", "喻", "柏", "水",
   "窦", "章", "云", "苏", "潘", "葛", "奚", "范", "彭", "郎", "鲁", "韦", "昌", "马", "苗", "凤", "花", "方", "俞",
   "任", "袁", "柳", "丰", "鲍", "史", "唐", "费", "廉", "岑", "薛", "雷", "贺", "倪", "汤", "滕", "殷", "罗", "毕",
   "郝", "邬", "安", "常", "乐", "于", "时", "傅", "皮", "卞", "齐", "康", "伍", "余", "元", "卜", "顾", "孟", "平",
   "黄", "和", "穆", "萧", "尹", "姚", "邵", "湛", "汪", "祁", "毛", "禹", "狄", "米", "贝", "明", "臧", "计", "伏",
   "成", "戴", "谈", "宋", "茅", "庞", "熊", "纪", "舒", "屈", "项", "祝", "董", "梁", "杜", "阮", "蓝", "闵", "席",
   "季", "麻", "强", "贾", "路", "娄", "危", "江", "童", "颜", "郭", "梅", "盛", "林", "刁", "钟", "徐", "丘", "骆",
   "高", "夏", "蔡", "田", "樊", "胡", "凌", "霍", "虞", "万", "支", "柯", "昝", "管", "卢", "莫", "经", "房", "裘",
   "缪", "干", "解", "应", "宗", "丁", "宣", "贲", "邓", "郁", "单", "杭", "洪", "包", "诸", "左", "石", "崔", "吉",
   "钮", "龚", "程", "嵇", "邢", "滑", "裴", "陆", "荣", "翁", "荀", "羊", "於", "惠", "甄", "麴", "家", "封", "芮",
   "羿", "储", "靳", "汲", "邴", "糜", "松", "井", "段", "富", "巫", "乌", "焦", "巴", "弓", "牧", "隗", "山", "谷",
   "车", "侯", "宓", "蓬", "全", "郗", "班", "仰", "秋", "仲", "伊", "宫", "宁", "仇", "栾", "暴", "甘", "钭", "厉",
   "戌", "祖", "武", "符", "刘", "景", "詹", "束", "龙", "叶", "幸", "司", "韶", "郜", "黎", "蓟", "薄", "印", "宿",
   "白", "怀", "蒲", "邰", "从", "鄂", "索", "咸", "籍", "赖", "卓", "蔺", "屠", "蒙", "池", "乔", "阴", "郁", "胥",
   "能", "苍", "双", "闻", "莘", "党", "翟", "谭", "贡", "劳", "逢", "姬", "申", "扶", "堵", "冉", "宰", "郦", "雍",
   "郤", "璩", "桑", "桂", "濮", "牛", "寿", "通", "边", "扈", "燕", "冀", "郏", "浦", "尚", "农", "温", "别", "庄",
   "晏", "柴", "瞿", "阎", "充", "慕", "连", "茹", "习", "宦", "艾", "鱼", "容", "向", "古", "易", "慎", "戈", "廖",
   "庾", "终", "暨", "居", "衡", "步", "都", "耿", "满", "弘", "匡", "国", "文", "寇", "广", "禄", "阙", "东", "欧",
   "殳", "沃", "利", "蔚", "越", "菱", "隆", "师", "巩", "厍", "聂", "晃", "勾", "敖", "融", "冷", "訾", "辛", "阚",
   "那", "简", "饶", "空", "曾", "毋", "沙", "乜", "养", "鞠", "须", "丰", "巢", "关", "蒯", "相", "查", "后", "荆",
   "红", "游", "竺", "权", "逯", "盖", "益", "桓", "公", "万俟", "司马", "上官", "欧阳", "夏侯", "诸葛", "闻人", "东方",
   "赫连", "皇甫", "尉迟", "公羊", "澹台", "公冶", "宗政", "濮阳", "淳于", "单于", "太叔", "申屠", "公孙", "仲孙", "轩辕",
   "令狐", "钟离", "宇文", "长孙", "慕容", "司徒", "司空"]

theorem familyNameMap_pos : 0 < familyNameMap.length :=
  List.length_pos_of_ne_nil (List.cons_ne_nil _ _)

/-- The outcomes of `math.random` in one nickname; the code points start at 0x4e00. -/
structure NickDraw (families : Nat) where
  randIndex : Fin families
  first : Fin (0x9fa5 - 0x4e00 + 1)
  second : Fin (0x9fa5 - 0x4e00 + 1)

def cjk (offset : Fin (0x9fa5 - 0x4e00 + 1)) : Char := Char.ofNat (0x4e00 + offset.val)

def generateNick (families : List String) (draw : NickDraw families.length) : String :=
  let randIndex := draw.randIndex.val + 1
  let buffer :=
    if families.length - randIndex > 30 then String.ofList [cjk draw.first, cjk draw.second]
    else String.ofList [cjk draw.first]
  families.get draw.randIndex ++ buffer

abbrev Draw := NickDraw familyNameMap.length

def someDraw : Draw := ⟨⟨0, familyNameMap_pos⟩, 0, 0⟩

structure UserInfo (φ : Type) where
  uid : Value φ
  username : Value φ
  ontable : Value φ
  money : Value φ
  tid : Value φ
  deriving DecidableEq

structure LoginData (φ : Type) where
  smid : Value φ

def started (address : Nat) : RedisClientsMgr where
  m_map name := if name = redisName then some address else none

section Service
variable {φ : Type} [LuaFloat φ]

def redisHmget (key : String) (args : List (Value φ)) : Handler φ (Value φ) :=
  rcmCall "HMGET" redisName (.string key :: args)

def redisHmset (key : String) (args : List (Value φ)) : Handler φ (Value φ) :=
  rcmCall "HMSET" redisName (.string key :: args)

def redisHget (key : String) (args : List (Value φ)) : Handler φ (Value φ) :=
  rcmCall "HGET" redisName (.string key :: args)

def redisHset (key : String) (args : List (Value φ)) : Handler φ (Value φ) :=
  rcmCall "HSET" redisName (.string key :: args)

/-- `rcm:INCR(key)`: the key stands where the other wrappers put the client's name. -/
def redisIncr (key : String) : Handler φ (Value φ) := rcmCall "INCR" key []

def generateUserid : Handler φ (Number φ) := do
  let uid ← redisIncr redisUidTag
  let uid := if truthy uid then uid else .number (.integer 0)
  let uid := (tonumber uid).getD (.integer 0)
  return uid.addInteger redisUidBase

/-- The record written under `uid_<uid>` and the table returned with it. -/
def createUserRecord (uid : Number φ) (username : String) : Handler φ (Option (UserInfo φ)) := do
  let _ ← redisHmset (redisInfoKey ++ uid.text)
    [.string RedisKey.nick, .string username, .string RedisKey.ontable, .boolean false,
      .string RedisKey.coin, .number (.integer 0)]
  return some
    { uid := .number uid
      username := .string username
      ontable := .boolean false
      money := .number (.integer 0)
      tid := .nil }

def createUser (smid : Value φ) (draw : Draw) : Handler φ (Option (UserInfo φ)) :=
  if truthy smid then do
    let uid ← generateUserid
    let username := generateNick familyNameMap draw
    let _ ← redisHset redisUidsKey [smid, .number uid]
    createUserRecord uid username
  else return none

def bulkValue : Option String → Value φ
  | some s => .string s
  | none => .nil

def index (ret : Value φ) (i : Nat) : Handler φ (Value φ) :=
  match ret with
  | .table items => .done (bulkValue (items[i - 1]?).join)
  | _ => .raise

def readUser (uid : Number φ) : Handler φ (Option (UserInfo φ)) := do
  let ret ← redisHmget (redisInfoKey ++ uid.text)
    [.string RedisKey.nick, .string RedisKey.ontable, .string RedisKey.coin,
      .string RedisKey.tid]
  let username ← index ret 1
  let ontable ← index ret 2
  let money ← index ret 3
  let tid ← index ret 4
  return some { uid := .nil, username, ontable, money, tid }

/-- `userinfo.ontable = false` and the return. -/
def finishLogin : Option (UserInfo φ) → Handler φ (Option (UserInfo φ))
  | none => .raise
  | some userinfo => return some { userinfo with ontable := .boolean false }

def uidOf (answer : Value φ) : Number φ := (tonumber answer).getD (.integer 0)

def responeLogin (data : Option (LoginData φ)) (draw : Draw) :
    Handler φ (Option (UserInfo φ)) :=
  match data with
  | none => return none
  | some data => do
      let data := { data with smid := .number (.integer 13) }
      let answer ← redisHget redisUidsKey [data.smid]
      let uid := uidOf answer
      let userinfo ← if uid.nonpositive then createUser data.smid draw else readUser uid
      finishLogin userinfo

end Service

end Doudizhu.UserService
