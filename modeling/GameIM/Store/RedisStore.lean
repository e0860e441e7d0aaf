import GameIM.Lib.Keyed
import GameIM.Lib.Strconv
import GameIM.Store.Keys
import GameIM.Service.ChannelTTL
import GameIM.Service.Pull

/-! RedisStore of internal/store/redis.go: each operation as the commands it sends and what it
makes of the replies. A pipeline is sent as one batch and its commands are executed one by one;
a Lua script is executed as one step. -/
namespace GameIM.Store.RedisStore
open Lib Lib.Text Lib.Keyed Api Keys Service Delivery

/- The commands on a key, with durations in seconds. -/
inductive Command where
  | hset (fields : List (Bytes × Bytes))
  | hgetall
  | expire (seconds : Int)
  | del
  | incr
  | incrby (delta : Int)
  | get
  | set (value : Bytes) (ex : Option Nat)
  | sadd (member : Bytes)
  | srem (member : Bytes)
  | smembers
  | lpush (value : Bytes)
  | ltrim (start stop : Nat)
  | lrange (start stop : Nat)
  deriving DecidableEq, Repr

/-- `lost` is the error of the client when no reply arrived. -/
inductive Reply where
  | nil
  | ok
  | int (n : Int)
  | bulk (text : Bytes)
  | bulks (texts : List Bytes)
  | pairs (fields : List (Bytes × Bytes))
  | ints (ns : List Int)
  | error (text : Bytes)
  | lost (text : Bytes)
  deriving DecidableEq, Repr

/-- The errors that an operation returns: redis.Nil, an error of the server or of the
connection, a reply or a number that cannot be read, a value that cannot be marshalled or
unmarshalled. -/
inductive Fault where
  | nil
  | server (text : Bytes)
  | network (text : Bytes)
  | malformed
  | codec
  | panic
  deriving DecidableEq, Repr

abbrev Outcome (α : Type) := Except Fault α

namespace Reply

def fault : Reply → Fault
  | nil => .nil
  | error text => .server text
  | lost text => .network text
  | _ => .malformed

def err : Reply → Outcome Unit
  | nil => .error .nil
  | error text => .error (.server text)
  | lost text => .error (.network text)
  | _ => .ok ()

def readInt : Reply → Outcome Int
  | int n => .ok n
  | r => .error r.fault

def readBulk : Reply → Outcome Bytes
  | bulk text => .ok text
  | r => .error r.fault

def readBulks : Reply → Outcome (List Bytes)
  | bulks texts => .ok texts
  | r => .error r.fault

def readPairs : Reply → Outcome (List (Bytes × Bytes))
  | pairs fields => .ok fields
  | r => .error r.fault

def readInts : Reply → Outcome (List Int)
  | ints ns => .ok ns
  | r => .error r.fault

end Reply

structure PresenceData where
  gatewayNodeID : Bytes
  connID : Bytes
  status : Bytes
  lastSeen : Int
  deriving DecidableEq, Repr

structure ChannelState where
  channelID : Bytes
  channelType : Int
  createdAt : Int
  lastActive : Int
  deriving DecidableEq, Repr

/-- What becomes of numbers in a script of Redis, where Lua has them as doubles: `tonumber` is the
integer that is replied for a text, `text` what a command gets for an integer argument of the
script, and `int` the integer that is replied for the integer reply of a command. An error of a
command ends the script, and is replied as `raised`. -/
structure Lua where
  tonumber : Bytes → Option Int
  text : Int → Bytes
  int : Int → Int
  raised : Bytes → Bytes
  tonumber_exact : ∀ n, IsExact n → tonumber (decimal n) = some n
  text_exact : ∀ n, IsExact n → text n = decimal n
  int_exact : ∀ n, IsExact n → int n = n

/-- What the operations use of other packages: the scripts of Redis, the seconds of a duration as
go-redis sends them, and the encodings. -/
structure Packages where
  lua : Lua
  formatSec : Int → Int
  marshalState : ChannelState → Option Bytes
  unmarshalState : Bytes → Option ChannelState
  proto : Proto ImMessage

abbrev Request := Keyed.Request Bytes Command Reply

section Operations

variable {α : Type} (lua : Lua) (pkg : Packages)

def ask (key : Bytes) (c : Command) (read : Reply → Outcome α) : Request (Outcome α) :=
  ⟨[.call key c .ret], fun replies => read (replies.headD .nil)⟩

/- Exec returns the first error of the commands. -/
def firstErr (cmds : List Reply) : Outcome Unit := cmds.forM Reply.err

def pipeline (key : Bytes) (commands : List Command) : Request (Outcome Unit) :=
  ⟨commands.map fun c => .call key c .ret, firstErr⟩

/- A field of the map that HGetAll returns; the zero value if it is not there. -/
def field (result : List (Bytes × Bytes)) (name : String) : Bytes :=
  match result.find? (·.1 = utf8 name) with
  | some f => f.2
  | none => []

def scanned (text : Bytes) : Int := (scanInt text).getD 0

def setPresence (uid : Int) (data : PresenceData) : Request (Outcome Unit) :=
  pipeline (keyPresence uid)
    [.hset [(utf8 "gateway_node_id", data.gatewayNodeID), (utf8 "conn_id", data.connID),
        (utf8 "status", data.status), (utf8 "last_seen", decimal data.lastSeen)],
      .expire presenceTTL]

def presenceOf (result : List (Bytes × Bytes)) : Option PresenceData :=
  if result = [] then none
  else some
    { gatewayNodeID := field result "gateway_node_id"
      connID := field result "conn_id"
      status := field result "status"
      lastSeen := scanned (field result "last_seen") }

def getPresence (uid : Int) : Request (Outcome (Option PresenceData)) :=
  ask (keyPresence uid) .hgetall fun reply => do
    let result ← reply.readPairs
    .ok (presenceOf result)

/- The map of the users found. A user who is asked for twice keeps the later command. -/
def presences (uids : List Int) (cmds : List Reply) (uid : Int) : Option PresenceData :=
  match (uids.zip cmds).reverse.find? (·.1 = uid) with
  | none => none
  | some cmd => match cmd.2.readPairs with
    | .error _ => none
    | .ok result => presenceOf result

def batchGetPresence (uids : List Int) : Request (Outcome (Int → Option PresenceData)) :=
  if uids = [] then .pure (.ok fun _ => none)
  else ⟨uids.map fun uid => .call (keyPresence uid) .hgetall .ret, fun cmds =>
    match firstErr cmds with
    | .error fault => if fault = .nil then .ok (presences uids cmds) else .error fault
    | .ok _ => .ok (presences uids cmds)⟩

def deletePresence (uid : Int) : Request (Outcome Unit) := ask (keyPresence uid) .del Reply.err

def refreshPresenceTTL (uid : Int) : Request (Outcome Unit) :=
  ask (keyPresence uid) (.expire presenceTTL) Reply.err

def nextSeq (channelID : Bytes) : Request (Outcome Int) := ask (Keys.keySeq channelID) .incr Reply.readInt

def incrBy (channelID : Bytes) (delta : Int) : Request (Outcome Int) :=
  ask (Keys.keySeq channelID) (.incrby delta) Reply.readInt

def int64 (reply : Reply) : Outcome Int := do
  let text ← reply.readBulk
  match parseInt text with
  | some n => .ok n
  | none => .error .malformed

def getCurrentSeq (channelID : Bytes) : Request (Outcome Int) :=
  ask (Keys.keySeq channelID) .get fun reply => match int64 reply with
    | .error .nil => .ok 0
    | val => val

def checkDedup (clientMsgID : Bytes) : Request (Outcome (Bool × Int)) :=
  ask (Keys.keyDedup clientMsgID) .get fun reply => match int64 reply with
    | .error .nil => .ok (false, 0)
    | .error fault => .error fault
    | .ok val => .ok (true, val)

def setDedup (clientMsgID : Bytes) (msgID : Int) : Request (Outcome Unit) :=
  ask (Keys.keyDedup clientMsgID) (.set (decimal msgID) (some dedupTTL)) Reply.err

def setChannelState (state : ChannelState) : Request (Outcome Unit) :=
  match pkg.marshalState state with
  | none => .pure (.error .codec)
  | some data => ask (keyChannelState state.channelID) (.set data (some channelStateTTL)) Reply.err

def getChannelState (channelID : Bytes) : Request (Outcome (Option ChannelState)) :=
  ask (keyChannelState channelID) .get fun reply => match reply.readBulk with
    | .error .nil => .ok none
    | .error fault => .error fault
    | .ok data => match pkg.unmarshalState data with
      | none => .error .codec
      | some state => .ok (some state)

def deleteChannelState (channelID : Bytes) : Request (Outcome Unit) :=
  ask (keyChannelState channelID) .del Reply.err

def refreshChannelStateTTL (channelID : Bytes) : Request (Outcome Unit) :=
  ask (keyChannelState channelID) (.expire channelStateTTL) Reply.err

def addChannelMember (channelID : Bytes) (uid : Int) : Request (Outcome Unit) :=
  ask (channelMembersKey channelID) (.sadd (decimal uid)) Reply.err

def removeChannelMember (channelID : Bytes) (uid : Int) : Request (Outcome Unit) :=
  ask (channelMembersKey channelID) (.srem (decimal uid)) Reply.err

def getChannelMembers (channelID : Bytes) : Request (Outcome (List Int)) :=
  ask (channelMembersKey channelID) .smembers fun reply => do
    let vals ← reply.readBulks
    .ok (vals.map scanned)

def addUserChannel (uid : Int) (channelID : Bytes) : Request (Outcome Unit) :=
  pipeline (keyUserChannels uid) [.sadd channelID, .expire ChannelTTL.userChannelsTTL]

def removeUserChannel (uid : Int) (channelID : Bytes) : Request (Outcome Unit) :=
  ask (keyUserChannels uid) (.srem channelID) Reply.err

def getUserChannels (uid : Int) : Request (Outcome (List Bytes)) :=
  ask (keyUserChannels uid) .smembers Reply.readBulks

def pushMsgCache (channelID : Bytes) (msg : ImMessage) : Request (Outcome Unit) :=
  match pkg.proto.marshal msg with
  | none => .pure (.error .codec)
  | some data => pipeline (keyMsgCache channelID)
      [.lpush data, .ltrim 0 (Pull.msgCacheMaxLen - 1), .expire (Pull.msgCacheTTL / 1000 : Nat)]

def getMsgCache (channelID : Bytes) (lastMsgID limit : Int) : Request (Outcome (List ImMessage)) :=
  ask (keyMsgCache channelID) (.lrange 0 (Pull.msgCacheMaxLen - 1)) fun reply => do
    let data ← reply.readBulks
    .ok (Pull.getMsgCache pkg.proto data lastMsgID limit)

/- The time of the call and the duration are in nanoseconds. -/
def setBan (now uid duration : Int) (reason : Bytes) : Request (Outcome Unit) :=
  pipeline (keyBan uid)
    [.hset [(utf8 "reason", reason), (utf8 "expire_at", decimal ((now + duration) / 1000000))],
      .expire (pkg.formatSec duration)]

def deleteBan (uid : Int) : Request (Outcome Unit) := ask (keyBan uid) .del Reply.err

def isBanned (uid : Int) : Request (Outcome (Bool × Int)) :=
  ask (keyBan uid) .hgetall fun reply => do
    let result ← reply.readPairs
    if result = [] then .ok (false, 0) else .ok (true, scanned (field result "expire_at"))

/- redis.call of a script: an error of the command ends the script with it. -/
def redisCall (key : Bytes) (c : Command) (next : Reply → Script Bytes Command Reply) :
    Script Bytes Command Reply :=
  .call key c fun
    | .error text => .ret (.error (lua.raised text))
    | reply => next reply

def rateLimitScript (key : Bytes) (ttl : Nat) : Script Bytes Command Reply :=
  redisCall lua key .incr fun
    | .int val =>
      if val = 1 then redisCall lua key (.expire ttl) fun _ => .ret (.int (lua.int val))
      else .ret (.int (lua.int val))
    | other => .ret other

def checkRateLimit (uid maxPerSecond : Int) : Request (Outcome Bool) :=
  ⟨[rateLimitScript pkg.lua (Keys.keyRateLimit uid) rateLimitTTL], fun replies => do
    let val ← (replies.headD .nil).readInt
    .ok (decide (val ≤ maxPerSecond))⟩

def setChannelAvailable (channelType : Int) (available : Bool) : Request (Outcome Unit) :=
  let val := if available then utf8 "1" else utf8 "0"
  ask (keyChannelAvail channelType) (.set val none) Reply.err

def isChannelAvailable (channelType : Int) : Request (Outcome Bool) :=
  ask (keyChannelAvail channelType) .get fun reply => match reply.readBulk with
    | .error .nil => .ok true
    | .error fault => .error fault
    | .ok val => .ok (val = utf8 "1")

def markScript (dedupKey : Bytes) (dedupTTLSec : Nat) (seqHint rateCount : Int) :
    Script Bytes Command Reply :=
  if 0 < dedupTTLSec ∧ 0 < seqHint then
    redisCall lua dedupKey (.set (lua.text seqHint) (some dedupTTLSec)) fun _ =>
      .ret (.ints [-1, lua.int rateCount])
  else .ret (.ints [-1, lua.int rateCount])

/- A double is 1 or positive only where the integer is. A record that is not a number gives Lua's
nil, and the table ends before it. -/
def dedupRateScript (dedupKey rateKey : Bytes) (rateTTL dedupTTLSec : Nat) (seqHint : Int) :
    Script Bytes Command Reply :=
  redisCall lua dedupKey .get fun
    | .nil => redisCall lua rateKey .incr fun
      | .int rateCount =>
        if rateCount = 1 then
          redisCall lua rateKey (.expire rateTTL) fun _ => markScript lua dedupKey dedupTTLSec seqHint rateCount
        else markScript lua dedupKey dedupTTLSec seqHint rateCount
      | other => .ret other
    | .bulk dedupVal => match lua.tonumber dedupVal with
      | some n => .ret (.ints [n, 0])
      | none => .ret (.ints [])
    | other => .ret other

/- An index beyond the end of the slice is a panic. -/
def dedupRateResult (rateLimit : Int) : List Int → Outcome DedupRateResult
  | found :: count :: _ =>
    if 0 ≤ found then .ok ⟨true, found, decide (count ≤ rateLimit)⟩
    else .ok ⟨false, 0, decide (count ≤ rateLimit)⟩
  | _ => .error .panic

def dedupAndRateCheck (clientMsgID : Bytes) (uid rateLimit seqHint : Int) :
    Request (Outcome DedupRateResult) :=
  let dedupTTLSec := if clientMsgID ≠ [] then dedupTTL else 0
  ⟨[dedupRateScript pkg.lua (Keys.keyDedup clientMsgID) (Keys.keyRateLimit uid) rateLimitTTL dedupTTLSec seqHint],
    fun replies => do
      let res ← (replies.headD .nil).readInts
      dedupRateResult rateLimit res⟩

/- The goroutine logs its errors. -/
def postSendAsync (channelID : Bytes) (msg : ImMessage) : Request (Outcome Unit) :=
  (pushMsgCache pkg channelID msg).map fun _ => .ok ()

end Operations

/-- A call of an operation. -/
inductive Op where
  | setPresence (uid : Int) (data : PresenceData)
  | getPresence (uid : Int)
  | batchGetPresence (uids : List Int)
  | deletePresence (uid : Int)
  | refreshPresenceTTL (uid : Int)
  | nextSeq (channelID : Bytes)
  | incrBy (channelID : Bytes) (delta : Int)
  | getCurrentSeq (channelID : Bytes)
  | checkDedup (clientMsgID : Bytes)
  | setDedup (clientMsgID : Bytes) (msgID : Int)
  | setChannelState (state : ChannelState)
  | getChannelState (channelID : Bytes)
  | deleteChannelState (channelID : Bytes)
  | refreshChannelStateTTL (channelID : Bytes)
  | addChannelMember (channelID : Bytes) (uid : Int)
  | removeChannelMember (channelID : Bytes) (uid : Int)
  | getChannelMembers (channelID : Bytes)
  | addUserChannel (uid : Int) (channelID : Bytes)
  | removeUserChannel (uid : Int) (channelID : Bytes)
  | getUserChannels (uid : Int)
  | pushMsgCache (channelID : Bytes) (msg : ImMessage)
  | getMsgCache (channelID : Bytes) (lastMsgID limit : Int)
  | setBan (now uid duration : Int) (reason : Bytes)
  | deleteBan (uid : Int)
  | isBanned (uid : Int)
  | checkRateLimit (uid maxPerSecond : Int)
  | setChannelAvailable (channelType : Int) (available : Bool)
  | isChannelAvailable (channelType : Int)
  | dedupAndRateCheck (clientMsgID : Bytes) (uid rateLimit seqHint : Int)
  | postSendAsync (channelID : Bytes) (msg : ImMessage)
  deriving DecidableEq

inductive Answer where
  | done
  | presence (data : Option PresenceData)
  | presences (found : Int → Option PresenceData)
  | number (n : Int)
  | flagged (flag : Bool) (n : Int)
  | state (state : Option ChannelState)
  | uids (uids : List Int)
  | channels (channelIDs : List Bytes)
  | msgs (msgs : List ImMessage)
  | flag (flag : Bool)
  | check (result : DedupRateResult)

def answered {α : Type} (make : α → Answer) (q : Request (Outcome α)) : Request (Outcome Answer) :=
  q.map (Except.map make)

def Op.request (pkg : Packages) : Op → Request (Outcome Answer)
  | setPresence uid data => answered (fun _ => .done) (RedisStore.setPresence uid data)
  | getPresence uid => answered .presence (RedisStore.getPresence uid)
  | batchGetPresence uids => answered .presences (RedisStore.batchGetPresence uids)
  | deletePresence uid => answered (fun _ => .done) (RedisStore.deletePresence uid)
  | refreshPresenceTTL uid => answered (fun _ => .done) (RedisStore.refreshPresenceTTL uid)
  | nextSeq channelID => answered .number (RedisStore.nextSeq channelID)
  | incrBy channelID delta => answered .number (RedisStore.incrBy channelID delta)
  | getCurrentSeq channelID => answered .number (RedisStore.getCurrentSeq channelID)
  | checkDedup clientMsgID => answered (fun r => .flagged r.1 r.2) (RedisStore.checkDedup clientMsgID)
  | setDedup clientMsgID msgID => answered (fun _ => .done) (RedisStore.setDedup clientMsgID msgID)
  | setChannelState state => answered (fun _ => .done) (RedisStore.setChannelState pkg state)
  | getChannelState channelID => answered .state (RedisStore.getChannelState pkg channelID)
  | deleteChannelState channelID => answered (fun _ => .done) (RedisStore.deleteChannelState channelID)
  | refreshChannelStateTTL channelID =>
    answered (fun _ => .done) (RedisStore.refreshChannelStateTTL channelID)
  | addChannelMember channelID uid => answered (fun _ => .done) (RedisStore.addChannelMember channelID uid)
  | removeChannelMember channelID uid =>
    answered (fun _ => .done) (RedisStore.removeChannelMember channelID uid)
  | getChannelMembers channelID => answered .uids (RedisStore.getChannelMembers channelID)
  | addUserChannel uid channelID => answered (fun _ => .done) (RedisStore.addUserChannel uid channelID)
  | removeUserChannel uid channelID =>
    answered (fun _ => .done) (RedisStore.removeUserChannel uid channelID)
  | getUserChannels uid => answered .channels (RedisStore.getUserChannels uid)
  | pushMsgCache channelID msg => answered (fun _ => .done) (RedisStore.pushMsgCache pkg channelID msg)
  | getMsgCache channelID lastMsgID limit =>
    answered .msgs (RedisStore.getMsgCache pkg channelID lastMsgID limit)
  | setBan now uid duration reason => answered (fun _ => .done) (RedisStore.setBan pkg now uid duration reason)
  | deleteBan uid => answered (fun _ => .done) (RedisStore.deleteBan uid)
  | isBanned uid => answered (fun r => .flagged r.1 r.2) (RedisStore.isBanned uid)
  | checkRateLimit uid maxPerSecond => answered .flag (RedisStore.checkRateLimit pkg uid maxPerSecond)
  | setChannelAvailable channelType available =>
    answered (fun _ => .done) (RedisStore.setChannelAvailable channelType available)
  | isChannelAvailable channelType => answered .flag (RedisStore.isChannelAvailable channelType)
  | dedupAndRateCheck clientMsgID uid rateLimit seqHint =>
    answered .check (RedisStore.dedupAndRateCheck pkg clientMsgID uid rateLimit seqHint)
  | postSendAsync channelID msg => answered (fun _ => .done) (RedisStore.postSendAsync pkg channelID msg)

/-- The records that an operation is about. -/
def Op.records : Op → List Record
  | setPresence uid _ | getPresence uid | deletePresence uid | refreshPresenceTTL uid => [.presence uid]
  | batchGetPresence uids => uids.map .presence
  | nextSeq channelID | incrBy channelID _ | getCurrentSeq channelID => [.seq channelID]
  | checkDedup clientMsgID | setDedup clientMsgID _ => [.dedup clientMsgID]
  | setChannelState state => [.channelState state.channelID]
  | getChannelState channelID | deleteChannelState channelID | refreshChannelStateTTL channelID =>
    [.channelState channelID]
  | addChannelMember channelID _ | removeChannelMember channelID _ | getChannelMembers channelID =>
    [.channelMembers channelID]
  | addUserChannel uid _ | removeUserChannel uid _ | getUserChannels uid => [.userChannels uid]
  | pushMsgCache channelID _ | getMsgCache channelID _ _ | postSendAsync channelID _ => [.msgCache channelID]
  | setBan _ uid _ _ | deleteBan uid | isBanned uid => [.ban uid]
  | checkRateLimit uid _ => [.rateLimit uid]
  | setChannelAvailable channelType _ | isChannelAvailable channelType => [.channelAvail channelType]
  | dedupAndRateCheck clientMsgID uid _ _ => [.dedup clientMsgID, .rateLimit uid]

/-- What is kept under the keys of a kind. A number is counted up from nothing, a mark is
written. -/
inductive Shape where
  | hash | number | mark | text | set | list
  deriving DecidableEq, Repr

/- The state of a channel is a string of JSON, and the channels of a user are a set. -/
def shape : Keys.Kind → Shape
  | .presence | .ban | .serverReg => .hash
  | .seq | .rateLimit => .number
  | .dedup => .mark
  | .channelState | .channelAvail => .text
  | .userChannels | .channelMembers => .set
  | .msgCache => .list

/- `good` tells which texts are written for a mark. -/
def Shape.takes (good : Bytes → Bool) : Shape → Command → Bool
  | _, .expire _ | _, .del => true
  | hash, .hset _ | hash, .hgetall => true
  | number, .get | number, .incr | number, .incrby _ => true
  | mark, .get => true
  | mark, .set value _ => good value
  | text, .get | text, .set _ _ => true
  | set, .sadd _ | set, .srem _ | set, .smembers => true
  | list, .lpush _ | list, .ltrim _ _ | list, .lrange _ _ => true
  | _, _ => false

/-- The operation writes good marks. -/
def Op.Marks (pkg : Packages) (good : Bytes → Bool) : Op → Prop
  | setDedup _ msgID => good (decimal msgID) = true
  | dedupAndRateCheck _ _ _ seqHint => good (pkg.lua.text seqHint) = true
  | _ => True

section On

variable {α : Type} (good : Bytes → Bool) {sends : Bytes → Command → Prop} {key : Bytes} {c : Command}

/-- A command to the key of one of the records, and one for what is there. -/
def Sends (records : List Record) (key : Bytes) (c : Command) : Prop :=
  ∃ r ∈ records, key = r.key ∧ (shape r.kind).takes good c = true

variable {good}

theorem sends_own (r : Record) (takes : (shape r.kind).takes good c = true) : Sends good [r] r.key c :=
  ⟨r, List.mem_singleton_self r, rfl, takes⟩

theorem ask_on {read : Reply → Outcome α} (sent : sends key c) : (ask key c read).On sends := by
  intro script member
  cases List.mem_singleton.mp member
  exact ⟨sent, fun _ => trivial⟩

theorem pipeline_on {commands : List Command} (sent : ∀ c ∈ commands, sends key c) :
    (pipeline key commands).On sends := by
  intro script member
  obtain ⟨c, listed, rfl⟩ := List.mem_map.mp member
  exact ⟨sent c listed, fun _ => trivial⟩

theorem redisCall_on {lua : Lua} {next : Reply → Script Bytes Command Reply} (sent : sends key c)
    (later : ∀ reply, (next reply).On sends) : (redisCall lua key c next).On sends := by
  refine ⟨sent, ?_⟩
  intro reply
  cases reply with
  | error text => trivial
  | _ => exact later _

theorem pure_on (r : Outcome α) : (Request.pure r : Request (Outcome α)).On sends :=
  fun _ member => nomatch member

theorem answered_on {make : α → Answer} {q : Request (Outcome α)} (on : q.On sends) :
    (answered make q).On sends :=
  on

section Scripts

variable {lua : Lua} {ttl : Nat} {seqHint : Int}

theorem rateLimitScript_on (counts : sends key .incr) (expires : sends key (.expire ttl)) :
    (rateLimitScript lua key ttl).On sends := by
  refine redisCall_on counts ?_
  intro counted
  cases counted with
  | int count =>
    dsimp only
    split
    · exact redisCall_on expires fun _ => trivial
    · trivial
  | _ => trivial

theorem markScript_on {count : Int} (marks : sends key (.set (lua.text seqHint) (some ttl))) :
    (markScript lua key ttl seqHint count).On sends := by
  unfold markScript
  split
  · exact redisCall_on marks fun _ => trivial
  · trivial

theorem dedupRateScript_on {dedupKey rateKey : Bytes} {rateTTL : Nat} (reads : sends dedupKey .get)
    (counts : sends rateKey .incr) (expires : sends rateKey (.expire rateTTL))
    (marks : sends dedupKey (.set (lua.text seqHint) (some ttl))) :
    (dedupRateScript lua dedupKey rateKey rateTTL ttl seqHint).On sends := by
  refine redisCall_on reads ?_
  intro found
  cases found with
  | nil =>
    refine redisCall_on counts ?_
    intro counted
    cases counted with
    | int count =>
      dsimp only
      split
      · exact redisCall_on expires fun _ => markScript_on marks
      · exact markScript_on marks
    | _ => trivial
  | bulk dedupVal =>
    dsimp only
    split <;> trivial
  | _ => trivial

end Scripts

theorem ask_own (r : Record) {read : Reply → Outcome α} (takes : (shape r.kind).takes good c = true) :
    (ask r.key c read).On (Sends good [r]) :=
  ask_on (sends_own r takes)

theorem pipeline_own (r : Record) {commands : List Command}
    (takes : commands.all ((shape r.kind).takes good) = true) : (pipeline r.key commands).On (Sends good [r]) :=
  pipeline_on fun c listed => sends_own r (List.all_eq_true.mp takes c listed)

theorem batchGetPresence_on (uids : List Int) : (batchGetPresence uids).On (Sends good (uids.map .presence)) := by
  unfold batchGetPresence
  split
  · exact pure_on _
  · intro script member
    obtain ⟨uid, listed, rfl⟩ := List.mem_map.mp member
    exact ⟨⟨.presence uid, List.mem_map_of_mem listed, rfl, rfl⟩, fun _ => trivial⟩

theorem pushMsgCache_on (pkg : Packages) (channelID : Bytes) (msg : ImMessage) :
    (pushMsgCache pkg channelID msg).On (Sends good [.msgCache channelID]) := by
  unfold pushMsgCache
  split
  · exact pure_on _
  · exact pipeline_own (.msgCache channelID) rfl

/-- Whatever it is replied, an operation sends to the keys of its records only, and only
commands that suit them. -/
theorem request_on (pkg : Packages) (op : Op) (marks : op.Marks pkg good) :
    (op.request pkg).On (Sends good op.records) := by
  cases op with
  | setPresence uid data => exact answered_on (pipeline_own (.presence uid) rfl)
  | getPresence uid => exact answered_on (ask_own (.presence uid) rfl)
  | batchGetPresence uids => exact batchGetPresence_on uids
  | deletePresence uid => exact answered_on (ask_own (.presence uid) rfl)
  | refreshPresenceTTL uid => exact answered_on (ask_own (.presence uid) rfl)
  | nextSeq channelID => exact answered_on (ask_own (.seq channelID) rfl)
  | incrBy channelID delta => exact answered_on (ask_own (.seq channelID) rfl)
  | getCurrentSeq channelID => exact answered_on (ask_own (.seq channelID) rfl)
  | checkDedup clientMsgID => exact answered_on (ask_own (.dedup clientMsgID) rfl)
  | setDedup clientMsgID msgID => exact answered_on (ask_own (.dedup clientMsgID) marks)
  | setChannelState state =>
    refine answered_on ?_
    unfold setChannelState
    split
    · exact pure_on _
    · exact ask_own (.channelState state.channelID) rfl
  | getChannelState channelID => exact answered_on (ask_own (.channelState channelID) rfl)
  | deleteChannelState channelID => exact answered_on (ask_own (.channelState channelID) rfl)
  | refreshChannelStateTTL channelID => exact answered_on (ask_own (.channelState channelID) rfl)
  | addChannelMember channelID uid => exact answered_on (ask_own (.channelMembers channelID) rfl)
  | removeChannelMember channelID uid => exact answered_on (ask_own (.channelMembers channelID) rfl)
  | getChannelMembers channelID => exact answered_on (ask_own (.channelMembers channelID) rfl)
  | addUserChannel uid channelID => exact answered_on (pipeline_own (.userChannels uid) rfl)
  | removeUserChannel uid channelID => exact answered_on (ask_own (.userChannels uid) rfl)
  | getUserChannels uid => exact answered_on (ask_own (.userChannels uid) rfl)
  | pushMsgCache channelID msg => exact pushMsgCache_on pkg channelID msg
  | getMsgCache channelID lastMsgID limit => exact answered_on (ask_own (.msgCache channelID) rfl)
  | setBan now uid duration reason => exact answered_on (pipeline_own (.ban uid) rfl)
  | deleteBan uid => exact answered_on (ask_own (.ban uid) rfl)
  | isBanned uid => exact answered_on (ask_own (.ban uid) rfl)
  | checkRateLimit uid maxPerSecond =>
    intro script member
    cases List.mem_singleton.mp member
    exact rateLimitScript_on (sends_own (.rateLimit uid) rfl) (sends_own (.rateLimit uid) rfl)
  | setChannelAvailable channelType available => exact answered_on (ask_own (.channelAvail channelType) rfl)
  | isChannelAvailable channelType => exact answered_on (ask_own (.channelAvail channelType) rfl)
  | dedupAndRateCheck clientMsgID uid rateLimit seqHint =>
    have dedup : ∀ c, Shape.mark.takes good c = true →
        Sends good [.dedup clientMsgID, .rateLimit uid] (Keys.keyDedup clientMsgID) c :=
      fun c takes => ⟨.dedup clientMsgID, by simp, rfl, takes⟩
    have rate : ∀ c, Shape.number.takes good c = true →
        Sends good [.dedup clientMsgID, .rateLimit uid] (Keys.keyRateLimit uid) c :=
      fun c takes => ⟨.rateLimit uid, by simp, rfl, takes⟩
    intro script member
    cases List.mem_singleton.mp member
    exact dedupRateScript_on (dedup .get rfl) (rate .incr rfl) (rate _ rfl) (dedup _ marks)
  | postSendAsync channelID msg => exact pushMsgCache_on pkg channelID msg

end On

theorem marks_any (pkg : Packages) (op : Op) : op.Marks pkg fun _ => true := by
  cases op <;> trivial

end GameIM.Store.RedisStore
