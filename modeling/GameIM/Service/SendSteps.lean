import GameIM.Service.Msg

/-! Concurrent SendMsg calls as a step machine. The calls of any number of servers
share one Redis; a call is cut at the steps of SeqAllocator.Next, at the Lua script
and at each of the three hand-offs of an accepted message. The local checks, which
touch neither the sequence nor the dedup keys, are one step with the call's start. -/
namespace GameIM.Service.SendSteps
open GameIM.Lib GameIM.Api GameIM.Store GameIM.Service

inductive Phase where
  | allocating (content : Bytes)
  | posting (msg : ImMessage)
  | queueing (msg : ImMessage)
  | delivering (msg : ImMessage)
  | returned (outcome : Outcome)
  deriving DecidableEq, Repr

structure Send where
  server : Nat
  uid : Int
  sender : Option SenderInfo
  req : SendMsgReq
  phase : Phase
  deriving DecidableEq, Repr

/-- The clock, Redis and the Next calls are those of the allocator machine; a Next call
has the number of the SendMsg call it belongs to. The three lists are what was handed
to PostSendAsync, offered to writeCh and given to Deliver, and by which call. -/
structure State where
  alloc : SeqAlloc.State
  caches : Nat → Caches
  sends : Nat → Option Send
  posted : List (Nat × ImMessage)
  queued : List (Nat × MessageDoc)
  delivered : List (Nat × ImMessage)

inductive Action where
  | enter (i server : Nat) (uid : Int) (sender : Option SenderInfo) (req : SendMsgReq)
  | next (x : SeqAlloc.Action)
  | nextFailed (i : Nat)
  | script (i : Nat) (fault : Fault)
  | post (i : Nat)
  | queue (i : Nat)
  | deliver (i : Nat)

def Send.to (c : Send) (phase : Phase) : Send := { c with phase := phase }

def State.setSend (s : State) (i : Nat) (c : Send) : State :=
  { s with sends := Function.update s.sends i (some c) }

def State.setRedis (s : State) (r : Redis) : State :=
  { s with alloc := { s.alloc with redis := r } }

def State.setCaches (s : State) (server : Nat) (c : Caches) : State :=
  { s with caches := Function.update s.caches server c }

/- An accepted message is still to be handed over; the other outcomes end the call. -/
def afterCheck : Outcome → Phase
  | .accepted msg => .posting msg
  | other => .returned other

def State.check (s : State) (c : Send) (msgID : Int) : Option DedupRateResult × Redis :=
  dedupAndRateCheck s.alloc.redis s.alloc.now c.req.clientMsgID c.uid ratePerSecond msgID

@[simp] theorem setSend_sends_same (s : State) (i : Nat) (c : Send) :
    (s.setSend i c).sends i = some c := by
  simp [State.setSend]

@[simp] theorem setSend_sends_ne (s : State) {i j : Nat} (c : Send) (h : j ≠ i) :
    (s.setSend i c).sends j = s.sends j := by
  simp [State.setSend, h]

theorem setSend_sends_cases {s : State} {i j : Nat} {c d : Send}
    (h : (s.setSend i c).sends j = some d) : (j = i ∧ d = c) ∨ (j ≠ i ∧ s.sends j = some d) := by
  by_cases hj : j = i
  · subst hj
    exact Or.inl ⟨rfl, by simpa [eq_comm] using h⟩
  · exact Or.inr ⟨hj, by simpa [hj] using h⟩

theorem setSend_same {s : State} {i : Nat} {c : Send} {p : Phase} (call : s.sends i = some c)
    (phase : c.phase = p) : s.setSend i (c.to p) = s := by
  subst phase
  have same : Function.update s.sends i (some c) = s.sends := Function.update_eq_self_iff.mpr call.symm
  exact congrArg (fun sends => { s with sends := sends }) same

def step (cfg : Config) (s : State) : Action → Option State
  | .enter i server uid sender req => match s.sends i with
    | none => match precheck cfg (s.caches server) s.alloc.now uid req with
      | (.error err, caches) => some ((s.setCaches server caches).setSend i
          ⟨server, uid, sender, req, .returned (.rejected err)⟩)
      | (.ok content, caches) =>
        (SeqAlloc.step s.alloc (.enter i server req.channelID)).map fun a =>
          { s.setCaches server caches with alloc := a }.setSend i
            ⟨server, uid, sender, req, .allocating content⟩
    | some _ => none
  | .next x => match x with
    | .enter _ _ _ => none
    | x => (SeqAlloc.step s.alloc x).map fun a => { s with alloc := a }
  | .nextFailed i => match s.sends i, s.alloc.calls i with
    | some c, some ⟨_, _, .failed⟩ => match c.phase with
      | .allocating _ => some (s.setSend i (c.to (.returned (.rejected errServerError))))
      | _ => none
    | _, _ => none
  | .script i fault => match s.sends i, s.alloc.calls i with
    | some c, some ⟨_, _, .returned msgID⟩ => match c.phase with
      | .allocating content =>
        let check := s.check c msgID
        let msg := buildMsg msgID c.sender c.req content s.alloc.now
        match fault with
        | .before => some (s.setSend i (c.to (.returned (.rejected errServerError))))
        | .after =>
          some ((s.setRedis check.2).setSend i (c.to (.returned (.rejected errServerError))))
        -- the script is sent again, by a later step
        | .resent => some (s.setRedis check.2)
        | .none => some ((s.setRedis check.2).setSend i (c.to (afterCheck (settle check.1 msg))))
      | _ => none
    | _, _ => none
  | .post i => match s.sends i with
    | some c => match c.phase with
      | .posting msg =>
        some ({ s with posted := s.posted ++ [(i, msg)] }.setSend i (c.to (.queueing msg)))
      | _ => none
    | none => none
  | .queue i => match s.sends i with
    | some c => match c.phase with
      | .queueing msg => some ({ s with queued := s.queued ++ [(i, buildDoc msg s.alloc.now)] }.setSend
          i (c.to (.delivering msg)))
      | _ => none
    | none => none
  | .deliver i => match s.sends i with
    | some c => match c.phase with
      | .delivering msg => some ({ s with delivered := s.delivered ++ [(i, msg)] }.setSend i
          (c.to (.returned (.accepted msg))))
      | _ => none
    | none => none

inductive Effect (cfg : Config) (s : State) : Action → State → Prop where
  | refused {i server uid sender req err caches} : s.sends i = none →
      precheck cfg (s.caches server) s.alloc.now uid req = (.error err, caches) →
      Effect cfg s (.enter i server uid sender req) ((s.setCaches server caches).setSend i
        ⟨server, uid, sender, req, .returned (.rejected err)⟩)
  | enter {i server uid sender req content caches a} : s.sends i = none →
      precheck cfg (s.caches server) s.alloc.now uid req = (.ok content, caches) →
      SeqAlloc.step s.alloc (.enter i server req.channelID) = some a →
      Effect cfg s (.enter i server uid sender req)
        ({ s.setCaches server caches with alloc := a }.setSend i
          ⟨server, uid, sender, req, .allocating content⟩)
  | next {x a} : SeqAlloc.step s.alloc x = some a → Effect cfg s (.next x) { s with alloc := a }
  | nextFailed {i c content} : s.sends i = some c → c.phase = .allocating content →
      Effect cfg s (.nextFailed i) (s.setSend i (c.to (.returned (.rejected errServerError))))
  | lostBefore {i c content} : s.sends i = some c → c.phase = .allocating content →
      Effect cfg s (.script i .before)
        (s.setSend i (c.to (.returned (.rejected errServerError))))
  | lostAfter {i c content a ch msgID} : s.sends i = some c → c.phase = .allocating content →
      s.alloc.calls i = some ⟨a, ch, .returned msgID⟩ →
      Effect cfg s (.script i .after) ((s.setRedis (s.check c msgID).2).setSend i
        (c.to (.returned (.rejected errServerError))))
  | resent {i c content a ch msgID} : s.sends i = some c → c.phase = .allocating content →
      s.alloc.calls i = some ⟨a, ch, .returned msgID⟩ →
      Effect cfg s (.script i .resent) (s.setRedis (s.check c msgID).2)
  | checked {i c content a ch msgID} : s.sends i = some c → c.phase = .allocating content →
      s.alloc.calls i = some ⟨a, ch, .returned msgID⟩ →
      Effect cfg s (.script i .none) ((s.setRedis (s.check c msgID).2).setSend i
        (c.to (afterCheck (settle (s.check c msgID).1
          (buildMsg msgID c.sender c.req content s.alloc.now)))))
  | post {i c msg} : s.sends i = some c → c.phase = .posting msg →
      Effect cfg s (.post i)
        ({ s with posted := s.posted ++ [(i, msg)] }.setSend i (c.to (.queueing msg)))
  | queue {i c msg} : s.sends i = some c → c.phase = .queueing msg →
      Effect cfg s (.queue i) ({ s with queued := s.queued ++ [(i, buildDoc msg s.alloc.now)] }.setSend
        i (c.to (.delivering msg)))
  | deliver {i c msg} : s.sends i = some c → c.phase = .delivering msg →
      Effect cfg s (.deliver i) ({ s with delivered := s.delivered ++ [(i, msg)] }.setSend i
        (c.to (.returned (.accepted msg))))

theorem step_effect {cfg : Config} {s t : State} {a : Action} (taken : step cfg s a = some t) :
    Effect cfg s a t := by
  cases a with
  | enter i server uid sender req =>
    simp only [step] at taken
    split at taken
    · rename_i free
      split at taken
      · rename_i err caches checked
        cases taken
        exact .refused free checked
      · rename_i content caches checked
        obtain ⟨a, ha, rfl⟩ := Option.map_eq_some_iff.mp taken
        exact .enter free checked ha
    · contradiction
  | next x =>
    cases x with
    | enter => contradiction
    | _ =>
      simp only [step, Option.map_eq_some_iff] at taken
      obtain ⟨a, ha, rfl⟩ := taken
      exact .next ha
  | nextFailed i =>
    simp only [step] at taken
    split at taken
    · split at taken
      · rename_i phase
        cases taken
        exact .nextFailed ‹_› phase
      · contradiction
    · contradiction
  | script i fault =>
    simp only [step] at taken
    split at taken
    · rename_i call
      split at taken
      · rename_i phase
        cases fault with
        | none =>
          cases taken
          exact .checked ‹_› phase call
        | before =>
          cases taken
          exact .lostBefore ‹_› phase
        | after =>
          cases taken
          exact .lostAfter ‹_› phase call
        | resent =>
          cases taken
          exact .resent ‹_› phase call
      · contradiction
    · contradiction
  | post i =>
    simp only [step] at taken
    split at taken
    · split at taken
      · rename_i phase
        cases taken
        exact .post ‹_› phase
      · contradiction
    · contradiction
  | queue i =>
    simp only [step] at taken
    split at taken
    · split at taken
      · rename_i phase
        cases taken
        exact .queue ‹_› phase
      · contradiction
    · contradiction
  | deliver i =>
    simp only [step] at taken
    split at taken
    · split at taken
      · rename_i phase
        cases taken
        exact .deliver ‹_› phase
      · contradiction
    · contradiction

end GameIM.Service.SendSteps
