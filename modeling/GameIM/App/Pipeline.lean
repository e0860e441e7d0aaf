import Mathlib.Logic.Function.Basic
import GameIM.Service.MsgIds
import GameIM.Service.Pull
import GameIM.Gateway.Ring

/-! What happens to an accepted message after SendMsg has let it go. Three activities run
beside the calls, each in its own time: the goroutines of PostSendAsync write the channel's
cache list in Redis, each server's asyncWriter moves the documents of its queue to MongoDB
in batches, and the handlers that the bus starts for a broadcast put the notification on
the server's ring, from which the connections' consumers read it. -/
namespace GameIM.App
open Lib Api Store Service Gateway

structure Env where
  service : Service.Config
  conn : Conn.Config
  protos : Protos
  message : Proto ImMessage

structure CacheList where
  entries : List Bytes
  deadline : Nat
  deriving DecidableEq, Repr

/-- `publishing` are the messages whose bus handler has not run yet. -/
structure Server where
  writeCh : List MessageDoc
  batch : List MessageDoc
  publishing : List ImMessage
  ring : Ring.State Packet

/-- `caching` are the messages whose PostSendAsync goroutine has not run yet, on any server. -/
structure State where
  sends : SendSteps.State
  caching : List ImMessage
  cache : String → CacheList
  servers : Nat → Server
  messages : List MessageDoc

inductive Action where
  | send (a : SendSteps.Action)
  | cacheWrite (msg : ImMessage) (fails : Bool)
  | receive (server : Nat)
  | flush (server : Nat) (lost : List MessageDoc)
  | handle (server : Nat) (msg : ImMessage)
  | ring (server : Nat) (a : Ring.Action Packet)

def writeChSize : Nat := 4096
def batchSize : Nat := 64

namespace State

def now (s : State) : Nat := s.sends.alloc.now

/- LRANGE on a list that may have expired. -/
def live (s : State) (channelID : String) : List Bytes :=
  if s.now < (s.cache channelID).deadline then (s.cache channelID).entries else []

/-- PullMsg with both stores answering. -/
def pull (env : Env) (s : State) (channelID : String) (lastMsgID limit : Int) :
    Option (List ImMessage) :=
  Pull.pullMsg env.message (some (s.live channelID)) (some s.messages) channelID lastMsgID limit

def setServer (s : State) (server : Nat) (v : Server) : State :=
  { s with servers := Function.update s.servers server v }

/- LPUSH, LTRIM and EXPIRE in one pipeline. -/
def pushMsgCache (s : State) (channelID : String) (data : Bytes) : State :=
  { s with
    cache := Function.update s.cache channelID
      ⟨(data :: s.live channelID).take Pull.msgCacheMaxLen, s.now + Pull.msgCacheTTL⟩ }

/- The non-blocking send on writeCh. -/
def offer (s : State) (server : Nat) (doc : MessageDoc) : State :=
  if (s.servers server).writeCh.length < writeChSize then
    s.setServer server { s.servers server with writeCh := (s.servers server).writeCh ++ [doc] }
  else s

/- Engine.Deliver: only world and system messages go to the bus. -/
def publish (s : State) (server : Nat) (msg : ImMessage) : State :=
  if msg.channelType = .world ∨ msg.channelType = .system then
    s.setServer server { s.servers server with publishing := (s.servers server).publishing ++ [msg] }
  else s

def handOver (s : State) (t : SendSteps.State) : SendSteps.Action → State
  | .post i => match s.sends.sends i with
    | some ⟨_, _, _, _, .posting msg⟩ => { s with sends := t, caching := s.caching ++ [msg] }
    | _ => { s with sends := t }
  | .queue i => match s.sends.sends i with
    | some ⟨server, _, _, _, .queueing msg⟩ =>
      { s with sends := t }.offer server (buildDoc msg s.now)
    | _ => { s with sends := t }
  | .deliver i => match s.sends.sends i with
    | some ⟨server, _, _, _, .delivering msg⟩ => { s with sends := t }.publish server msg
    | _ => { s with sends := t }
  | _ => { s with sends := t }

end State

def step (env : Env) (s : State) : Action → Option State
  | .send a => (SendSteps.step env.service s.sends a).map fun t => s.handOver t a
  | .cacheWrite msg fails =>
    if msg ∈ s.caching then
      let s := { s with caching := s.caching.erase msg }
      match env.message.marshal msg with
      | none => some s
      | some data => if fails then some s else some (s.pushMsgCache msg.channelId data)
    else none
  | .receive server =>
    let v := s.servers server
    if v.batch.length < batchSize then match v.writeCh with
      | [] => none
      | doc :: rest => some (s.setServer server { v with writeCh := rest, batch := v.batch ++ [doc] })
    else none
  | .flush server lost =>
    let v := s.servers server
    some { s.setServer server { v with batch := [] } with
      messages := insertMessages s.messages v.batch lost }
  | .handle server msg =>
    let v := s.servers server
    if msg ∈ v.publishing then
      let v := { v with publishing := v.publishing.erase msg }
      match broadcastNotify env.protos msg with
      | none => some (s.setServer server v)
      | some p => (Ring.step env.conn v.ring (.put p)).map fun r => s.setServer server { v with ring := r }
    else none
  | .ring server a => match a with
    | .put _ => none
    | a => (Ring.step env.conn (s.servers server).ring a).map fun r =>
        s.setServer server { s.servers server with ring := r }

inductive Effect (env : Env) (s : State) : Action → State → Prop where
  | quiet {a t} : SendSteps.step env.service s.sends a = some t → (∀ i, a ≠ .post i) →
      (∀ i, a ≠ .queue i) → Effect env s (.send a) { s with sends := t }
  | post {i c msg t} : SendSteps.step env.service s.sends (.post i) = some t →
      s.sends.sends i = some c → c.phase = .posting msg →
      Effect env s (.send (.post i)) { s with sends := t, caching := s.caching ++ [msg] }
  | queue {i c msg t} : SendSteps.step env.service s.sends (.queue i) = some t →
      s.sends.sends i = some c → c.phase = .queueing msg →
      Effect env s (.send (.queue i)) ({ s with sends := t }.offer c.server (buildDoc msg s.now))
  | deliver {i c msg t} : SendSteps.step env.service s.sends (.deliver i) = some t →
      s.sends.sends i = some c → c.phase = .delivering msg →
      Effect env s (.send (.deliver i)) ({ s with sends := t }.publish c.server msg)
  | uncached {msg fails} : msg ∈ s.caching → fails = true ∨ env.message.marshal msg = none →
      Effect env s (.cacheWrite msg fails) { s with caching := s.caching.erase msg }
  | cached {msg data} : msg ∈ s.caching → env.message.marshal msg = some data →
      Effect env s (.cacheWrite msg false)
        ({ s with caching := s.caching.erase msg }.pushMsgCache msg.channelId data)
  | receive {server doc rest} : (s.servers server).writeCh = doc :: rest →
      Effect env s (.receive server) (s.setServer server { s.servers server with
        writeCh := rest, batch := (s.servers server).batch ++ [doc] })
  | flush {server lost} : Effect env s (.flush server lost)
      { s.setServer server { s.servers server with batch := [] } with
        messages := insertMessages s.messages (s.servers server).batch lost }
  | broadcast {server a publishing ring} : (∀ b, a ≠ .send b) → (∀ msg fails, a ≠ .cacheWrite msg fails) →
      (∀ other lost, a ≠ .flush other lost) →
      Effect env s a (s.setServer server { s.servers server with publishing := publishing, ring := ring })

section Effect

variable {env : Env} {s t : State}

theorem send_effect {a : SendSteps.Action} {u : SendSteps.State}
    (taken : SendSteps.step env.service s.sends a = some u) :
    Effect env s (.send a) (s.handOver u a) := by
  cases a with
  | post i =>
    cases SendSteps.step_effect taken with
    | @post _ c msg call phase =>
      obtain ⟨server, uid, sender, req, _⟩ := c
      subst phase
      simp only [State.handOver, call]
      exact .post taken call rfl
  | queue i =>
    cases SendSteps.step_effect taken with
    | @queue _ c msg call phase =>
      obtain ⟨server, uid, sender, req, _⟩ := c
      subst phase
      simp only [State.handOver, call]
      exact .queue taken call rfl
  | deliver i =>
    cases SendSteps.step_effect taken with
    | @deliver _ c msg call phase =>
      obtain ⟨server, uid, sender, req, _⟩ := c
      subst phase
      simp only [State.handOver, call]
      exact .deliver taken call rfl
  | enter i server uid sender req => exact .quiet taken (by simp) (by simp)
  | next x => exact .quiet taken (by simp) (by simp)
  | nextFailed i => exact .quiet taken (by simp) (by simp)
  | script i fault => exact .quiet taken (by simp) (by simp)

theorem step_effect {a : Action} (taken : step env s a = some t) : Effect env s a t := by
  cases a with
  | send a =>
    obtain ⟨u, sent, rfl⟩ := Option.map_eq_some_iff.mp taken
    exact send_effect sent
  | cacheWrite msg fails =>
    simp only [step] at taken
    split at taken
    · rename_i waiting
      split at taken
      · rename_i refused
        cases Option.some.inj taken
        exact .uncached waiting (Or.inr refused)
      · rename_i data marshalled
        cases fails with
        | true =>
          cases Option.some.inj taken
          exact .uncached waiting (Or.inl rfl)
        | false =>
          cases Option.some.inj taken
          exact .cached waiting marshalled
    · contradiction
  | receive server =>
    simp only [step] at taken
    split at taken
    · split at taken
      · contradiction
      · rename_i waiting
        cases Option.some.inj taken
        exact .receive waiting
    · contradiction
  | flush server lost =>
    cases Option.some.inj taken
    exact .flush
  | handle server msg =>
    simp only [step] at taken
    split at taken
    · split at taken
      · cases Option.some.inj taken
        exact .broadcast (by simp) (by simp) (by simp)
      · obtain ⟨r, _, rfl⟩ := Option.map_eq_some_iff.mp taken
        exact .broadcast (by simp) (by simp) (by simp)
    · contradiction
  | ring server a =>
    cases a with
    | put data => contradiction
    | _ =>
      obtain ⟨r, _, rfl⟩ := Option.map_eq_some_iff.mp taken
      exact .broadcast (by simp) (by simp) (by simp)

end Effect

def quietServers : State :=
  ⟨SendSteps.initial, [], fun _ => ⟨[], 0⟩, fun _ => ⟨[], [], [], Ring.start⟩, []⟩

def note (clientMsgID : String) : SendMsgReq := ⟨"world", .world, [104, 105], .text, [], clientMsgID⟩

def noted (msgID : Int) (clientMsgID : String) : ImMessage :=
  buildMsg msgID none (note clientMsgID) [104, 105] 0

def demo : Env :=
  ⟨permissive, Ring.serverConfig, protobuf, listed [noted 1 "m-1", noted 2 "m-2"] (by decide +kernel)⟩

def firstSend : List Action :=
  [.send (.enter 0 0 7 none (note "m-1")), .send (.next (.lookup 0)), .send (.next (.incrBy 0)),
    .send (.next (.install 0)), .send (.script 0 .none), .send (.post 0), .send (.queue 0),
    .send (.deliver 0)]

end GameIM.App
