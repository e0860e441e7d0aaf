import GameIM.Service.Pull

/-! The message cache of a channel, one Redis command at a time. PushMsgCache and
PostSendAsync send the same pipeline; the commands of several pipelines may be mixed, and
the connection may be lost between two of them. -/
namespace GameIM.Service.MsgCache
open GameIM.Lib GameIM.Api GameIM.Store Pull

inductive Command where
  | lpush (data : Bytes)
  | ltrim (last : Nat)
  | expire (ttl : Nat)
  deriving DecidableEq, Repr

def pushMsgCache (proto : Proto ImMessage) (msg : ImMessage) : Option (List Command) :=
  (proto.marshal msg).map fun data =>
    [.lpush data, .ltrim (msgCacheMaxLen - 1), .expire msgCacheTTL]

/-- The list under the key of the channel. A key that is not there has no entries. -/
structure Key where
  entries : List Bytes
  deadline : Option Nat

/- Redis drops a key whose time has come before it looks at it. -/
def Key.live (k : Key) (now : Nat) : Key := if k.deadline.any (· ≤ now) then ⟨[], none⟩ else k

def Key.exec (k : Key) (now : Nat) : Command → Key
  | .lpush data => { k with entries := data :: k.entries }
  | .ltrim last => { k with entries := k.entries.take (last + 1) }
  | .expire ttl => if k.entries = [] then k else { k with deadline := some (now + ttl) }

structure Pipe where
  msg : ImMessage
  left : List Command

/-- `written` records the messages in the order in which their LPUSH was executed. -/
structure State where
  now : Nat
  key : Key
  pipes : List Pipe
  written : List ImMessage

inductive Action where
  | push (msg : ImMessage)
  | exec (i : Nat)
  | lose (i : Nat)
  | tick (ms : Nat)

def start : State := ⟨0, ⟨[], none⟩, [], []⟩

def Command.writes (msg : ImMessage) : Command → List ImMessage
  | .lpush _ => [msg]
  | _ => []

def State.exec (s : State) (i : Nat) (msg : ImMessage) (c : Command) (rest : List Command) : State :=
  { s with
    key := (s.key.live s.now).exec s.now c
    pipes := s.pipes.set i ⟨msg, rest⟩
    written := s.written ++ c.writes msg }

def step (proto : Proto ImMessage) (s : State) : Action → Option State
  | .push msg => match pushMsgCache proto msg with
    | none => some s
    | some commands => some { s with pipes := s.pipes ++ [⟨msg, commands⟩] }
  | .exec i => match s.pipes[i]? with
    | some ⟨msg, c :: rest⟩ => some (s.exec i msg c rest)
    | _ => none
  | .lose i => some { s with pipes := s.pipes.eraseIdx i }
  | .tick ms => some { s with now := s.now + ms }

def State.getMsgCache (s : State) (proto : Proto ImMessage) (lastMsgID limit : Int) : List ImMessage :=
  Pull.getMsgCache proto (s.key.live s.now).entries lastMsgID limit

/- No time passes beyond the deadline of the key. -/
def inTime (s : State) : Action → Bool
  | .tick ms => s.key.deadline.all (s.now + ms < ·)
  | _ => true

inductive Effect (proto : Proto ImMessage) (s : State) : Action → State → Prop where
  | refused {msg} : pushMsgCache proto msg = none → Effect proto s (.push msg) s
  | push {msg commands} : pushMsgCache proto msg = some commands →
      Effect proto s (.push msg) { s with pipes := s.pipes ++ [⟨msg, commands⟩] }
  | exec {i msg c rest} : s.pipes[i]? = some ⟨msg, c :: rest⟩ →
      Effect proto s (.exec i) (s.exec i msg c rest)
  | lose {i} : Effect proto s (.lose i) { s with pipes := s.pipes.eraseIdx i }
  | tick {ms} : Effect proto s (.tick ms) { s with now := s.now + ms }

theorem step_effect {proto : Proto ImMessage} {s t : State} {a : Action}
    (taken : step proto s a = some t) : Effect proto s a t := by
  cases a with
  | push msg =>
    simp only [step] at taken
    split at taken
    · rename_i refused
      cases Option.some.inj taken
      exact .refused refused
    · rename_i commands made
      cases Option.some.inj taken
      exact .push made
  | exec i =>
    simp only [step] at taken
    split at taken
    · rename_i msg c rest found
      cases Option.some.inj taken
      exact .exec found
    · contradiction
  | lose i =>
    cases Option.some.inj taken
    exact .lose
  | tick ms =>
    cases Option.some.inj taken
    exact .tick

def Pending (proto : Proto ImMessage) (p : Pipe) : Prop :=
  ∃ commands, pushMsgCache proto p.msg = some commands ∧ p.left <:+ commands

theorem Pending.command {proto : Proto ImMessage} {msg : ImMessage} {c : Command} {rest : List Command}
    (pending : Pending proto ⟨msg, c :: rest⟩) :
    (∃ data, c = .lpush data ∧ proto.marshal msg = some data) ∨ c = .ltrim (msgCacheMaxLen - 1) ∨
      c = .expire msgCacheTTL := by
  obtain ⟨commands, made, ends⟩ := pending
  obtain ⟨data, marshalled, rfl⟩ := Option.map_eq_some_iff.mp made
  have member := ends.subset (List.mem_cons_self)
  rcases List.mem_cons.mp member with rfl | later
  · exact Or.inl ⟨data, rfl, marshalled⟩
  · rcases List.mem_cons.mp later with rfl | last
    · exact Or.inr (Or.inl rfl)
    · exact Or.inr (Or.inr (List.mem_singleton.mp last))

theorem Pending.rest {proto : Proto ImMessage} {msg : ImMessage} {c : Command} {rest : List Command}
    (pending : Pending proto ⟨msg, c :: rest⟩) : Pending proto ⟨msg, rest⟩ := by
  obtain ⟨commands, made, ends⟩ := pending
  exact ⟨commands, made, (List.suffix_cons c rest).trans ends⟩

/-- The list begins with the newest messages, as many as LRANGE reads. -/
structure Inv (proto : Proto ImMessage) (s : State) : Prop where
  alive : ∀ d, s.key.deadline = some d → s.now < d
  newest : (s.key.entries.take msgCacheMaxLen).map proto.unmarshal =
    (s.written.reverse.take msgCacheMaxLen).map some
  pipes : ∀ p ∈ s.pipes, Pending proto p

section Inv

variable {proto : Proto ImMessage} {s t : State} {a : Action}

theorem start_inv : Inv proto start := by
  refine ⟨?_, rfl, ?_⟩
  · intro d due
    contradiction
  · intro p member
    contradiction

theorem Inv.live (inv : Inv proto s) : s.key.live s.now = s.key := by
  unfold Key.live
  split
  · rename_i late
    cases due : s.key.deadline with
    | none =>
      rw [due] at late
      contradiction
    | some d =>
      have early := inv.alive d due
      simp only [due, Option.any_some, decide_eq_true_eq] at late
      omega
  · rfl

theorem take_agree {β γ δ : Type} {f : β → δ} {g : γ → δ} {xs : List β} {ys : List γ} {n : Nat}
    (agree : (xs.take (n + 1)).map f = (ys.take (n + 1)).map g) : (xs.take n).map f = (ys.take n).map g := by
  have shorter := congrArg (List.take n) agree
  simpa [← List.map_take, List.take_take] using shorter

theorem Inv.exec (inv : Inv proto s) {i : Nat} {msg : ImMessage} {c : Command} {rest : List Command}
    (found : s.pipes[i]? = some ⟨msg, c :: rest⟩) : Inv proto (s.exec i msg c rest) := by
  have pending := inv.pipes _ (List.mem_of_getElem? found)
  have pipes : ∀ p ∈ s.pipes.set i ⟨msg, rest⟩, Pending proto p := by
    intro p member
    rcases List.mem_or_eq_of_mem_set member with old | rfl
    · exact inv.pipes p old
    · exact pending.rest
  rcases pending.command with ⟨data, rfl, marshalled⟩ | rfl | rfl
  · refine ⟨?_, ?_, pipes⟩
    · simp only [State.exec, Key.exec, inv.live]
      exact inv.alive
    · have back : proto.unmarshal data = some msg := proto.undoes msg data marshalled
      have older := take_agree (n := 199) inv.newest
      simp only [State.exec, Key.exec, inv.live, Command.writes, List.reverse_append, List.reverse_singleton,
        List.singleton_append, msgCacheMaxLen, List.take_succ_cons, List.map_cons, back, older]
  · refine ⟨?_, ?_, pipes⟩
    · simp only [State.exec, Key.exec, inv.live]
      exact inv.alive
    · simp only [State.exec, Key.exec, inv.live, Command.writes, List.append_nil]
      rw [List.take_take]
      exact inv.newest
  · refine ⟨?_, ?_, pipes⟩
    · simp only [State.exec, Key.exec, inv.live]
      intro d due
      split at due
      · exact inv.alive d due
      · cases Option.some.inj due
        simp [msgCacheTTL]
    · simp only [State.exec, Key.exec, inv.live, Command.writes, List.append_nil]
      split
      · exact inv.newest
      · exact inv.newest

theorem step_inv (inv : Inv proto s) (timely : inTime s a = true) (taken : step proto s a = some t) :
    Inv proto t := by
  cases step_effect taken with
  | refused => exact inv
  | push made =>
    refine ⟨inv.alive, inv.newest, ?_⟩
    intro p member
    rcases List.mem_append.mp member with old | new
    · exact inv.pipes p old
    · cases List.mem_singleton.mp new
      exact ⟨_, made, List.suffix_rfl⟩
  | exec found => exact inv.exec found
  | lose => exact ⟨inv.alive, inv.newest, fun p member => inv.pipes p (List.mem_of_mem_eraseIdx member)⟩
  | @tick ms =>
    refine ⟨?_, inv.newest, inv.pipes⟩
    intro d due
    have due : s.key.deadline = some d := due
    simpa [inTime, due] using timely

theorem run_inv {as : List Action} (timely : Meets (step proto) (fun s a => inTime s a = true) start as)
    (taken : run (step proto) start as = some s) : Inv proto s :=
  run_invariant_meets (Inv proto) (fun _ _ _ inv ok last => step_inv inv ok last) start_inv timely taken

end Inv

def lastOf {β : Type} (xs : List β) (n : Nat) : List β := xs.drop (xs.length - n)

def newer (written : List ImMessage) (lastMsgID : Int) : List ImMessage :=
  (lastOf written msgCacheMaxLen).filter fun msg => lastMsgID < msg.msgId

def cut (msgs : List ImMessage) (limit : Int) : List ImMessage :=
  if 0 < limit then lastOf msgs limit.toNat else msgs

section Reads

variable {proto : Proto ImMessage} {s : State}

theorem getMsgCache_eq (data : List Bytes) (lastMsgID limit : Int) :
    Pull.getMsgCache proto data lastMsgID limit =
      cut (((data.take msgCacheMaxLen).reverse.filterMap proto.unmarshal).filter
        fun msg => lastMsgID < msg.msgId) limit := by
  unfold Pull.getMsgCache cut lastOf
  simp only
  split
  · rename_i both
    rw [if_pos both.1]
  · rename_i short
    split
    · rename_i positive
      have none : (((data.take msgCacheMaxLen).reverse.filterMap proto.unmarshal).filter
          fun msg => lastMsgID < msg.msgId).length - limit.toNat = 0 := by omega
      rw [none, List.drop_zero]
    · rfl

theorem filterMap_reverse_agree {entries : List Bytes} {msgs : List ImMessage}
    (agree : entries.map proto.unmarshal = msgs.map some) :
    entries.reverse.filterMap proto.unmarshal = msgs.reverse := by
  calc entries.reverse.filterMap proto.unmarshal
      = (entries.map proto.unmarshal).reverse.filterMap id := by
        rw [← List.map_reverse, List.filterMap_map, Function.id_comp]
    _ = msgs.reverse := by
        rw [agree, ← List.map_reverse, List.filterMap_map, Function.id_comp, List.filterMap_some]

theorem Inv.read (inv : Inv proto s) (lastMsgID limit : Int) :
    s.getMsgCache proto lastMsgID limit = cut (newer s.written lastMsgID) limit := by
  have read : (s.key.entries.take msgCacheMaxLen).reverse.filterMap proto.unmarshal =
      lastOf s.written msgCacheMaxLen := by
    rw [filterMap_reverse_agree inv.newest, List.take_reverse, List.reverse_reverse]
    rfl
  rw [State.getMsgCache, inv.live, getMsgCache_eq, read, newer]

theorem lastOf_sublist {β : Type} (xs : List β) (n : Nat) : (lastOf xs n).Sublist xs := List.drop_sublist _ _

theorem cut_sublist (msgs : List ImMessage) (limit : Int) : (cut msgs limit).Sublist msgs := by
  unfold cut
  split
  · exact lastOf_sublist msgs _
  · exact List.Sublist.refl msgs

theorem newer_sublist (written : List ImMessage) (lastMsgID : Int) : (newer written lastMsgID).Sublist written :=
  List.filter_sublist.trans (lastOf_sublist written _)

theorem cut_length (msgs : List ImMessage) (limit : Int) :
    (cut msgs limit).length = if 0 < limit then min limit.toNat msgs.length else msgs.length := by
  unfold cut lastOf
  split
  · rw [List.length_drop]
    omega
  · rfl

theorem cut_newest {msgs : List ImMessage} (rising : msgs.Pairwise fun m n => m.msgId < n.msgId)
    (limit : Int) {m : ImMessage} (member : m ∈ msgs) (dropped : m ∉ cut msgs limit) :
    ∀ n ∈ cut msgs limit, m.msgId < n.msgId := by
  unfold cut lastOf at dropped ⊢
  split at dropped
  · rename_i positive
    rw [if_pos positive]
    rw [← List.take_append_drop (msgs.length - limit.toNat) msgs] at rising member
    rcases List.mem_append.mp member with early | late
    · intro n kept
      exact (List.pairwise_append.mp rising).2.2 m early n kept
    · exact absurd late dropped
  · exact absurd member dropped

theorem clampLimit_le (limit : Int) : clampLimit limit ≤ maxPullLimit := by
  unfold clampLimit
  split
  · exact le_rfl
  · omega

variable (proto) in
theorem getMsgCache_bounds (data : List Bytes) (lastMsgID : Int) {limit : Int} (positive : 0 < limit) :
    (Pull.getMsgCache proto data lastMsgID limit).length ≤ limit.toNat ∧
      ∀ m ∈ Pull.getMsgCache proto data lastMsgID limit, lastMsgID < m.msgId := by
  rw [getMsgCache_eq]
  constructor
  · rw [cut_length, if_pos positive]
    exact min_le_left _ _
  · intro m member
    have kept := (cut_sublist _ _).subset member
    simpa using (List.mem_filter.mp kept).2

theorem query_bounds (docs : List MessageDoc) (channelID : String) (lastMsgID : Int) (limit : Nat)
    (positive : 0 < limit) : (queryMessages docs channelID lastMsgID limit).length ≤ limit ∧
      ∀ d ∈ queryMessages docs channelID lastMsgID limit, lastMsgID < d.msgID := by
  unfold queryMessages
  rw [if_neg (by omega)]
  constructor
  · exact List.length_take_le _ _
  · intro d member
    have found := (List.perm_insertionSort _ _).mem_iff.mp (List.mem_of_mem_take member)
    simp only [List.mem_filter, decide_eq_true_eq] at found
    exact found.2.2

/- From whichever store a pull is answered. -/
theorem pullMsg_bounds {cache : Option (List Bytes)} {stored : Option (List MessageDoc)} {channelID : String}
    {lastMsgID limit : Int} {msgs : List ImMessage}
    (pulled : pullMsg proto cache stored channelID lastMsgID limit = some msgs) :
    msgs.length ≤ 50 ∧ ∀ m ∈ msgs, lastMsgID < m.msgId := by
  have positive := clampLimit_pos limit
  have most : (clampLimit limit).toNat ≤ 50 := by
    have le := clampLimit_le limit
    unfold maxPullLimit at le
    omega
  have queried : ∀ {msgs}, (stored.map fun docs =>
      (queryMessages docs channelID lastMsgID (clampLimit limit).toNat).map fromDoc) = some msgs →
      msgs.length ≤ 50 ∧ ∀ m ∈ msgs, lastMsgID < m.msgId := by
    intro msgs answered
    obtain ⟨docs, _, rfl⟩ := Option.map_eq_some_iff.mp answered
    obtain ⟨few, above⟩ := query_bounds docs channelID lastMsgID (clampLimit limit).toNat (by omega)
    refine ⟨by rw [List.length_map]; omega, ?_⟩
    intro m member
    obtain ⟨d, found, rfl⟩ := List.mem_map.mp member
    exact above d found
  cases cache with
  | none => exact queried pulled
  | some data =>
    simp only [pullMsg] at pulled
    split at pulled
    · cases Option.some.inj pulled
      obtain ⟨few, above⟩ := getMsgCache_bounds proto data lastMsgID positive
      exact ⟨few.trans most, above⟩
    · exact queried pulled

end Reads

/-- However the pipelines are mixed, as long as the key does not expire: GetMsgCache returns,
in the order they were written, the messages above lastMsgID among the last 200, cut to the
last `limit` of them. If the ids were written in increasing order, these are the newest. A
pull returns at most fifty messages, all above lastMsgID, from whatever is in the cache and
in MongoDB. -/
theorem getMsgCache_last_written {proto : Proto ImMessage} {as : List Action} {s : State}
    (taken : run (step proto) start as = some s)
    (timely : Meets (step proto) (fun s a => inTime s a = true) start as) (lastMsgID limit : Int) :
    s.getMsgCache proto lastMsgID limit = cut (newer s.written lastMsgID) limit ∧
    (s.written.Pairwise (fun m n => m.msgId < n.msgId) →
      (s.getMsgCache proto lastMsgID limit).Pairwise (fun m n => m.msgId < n.msgId) ∧
      (s.getMsgCache proto lastMsgID limit).length =
        (if 0 < limit then min limit.toNat (newer s.written lastMsgID).length
          else (newer s.written lastMsgID).length) ∧
      ∀ m ∈ newer s.written lastMsgID, m ∉ s.getMsgCache proto lastMsgID limit →
        ∀ n ∈ s.getMsgCache proto lastMsgID limit, m.msgId < n.msgId) ∧
    ∀ cache stored channelID msgs, pullMsg proto cache stored channelID lastMsgID limit = some msgs →
      msgs.length ≤ 50 ∧ ∀ m ∈ msgs, lastMsgID < m.msgId := by
  have read := (run_inv timely taken).read lastMsgID limit
  refine ⟨read, ?_, fun _ _ _ _ pulled => pullMsg_bounds pulled⟩
  intro rising
  rw [read]
  have risingNewer := rising.sublist (newer_sublist s.written lastMsgID)
  refine ⟨risingNewer.sublist (cut_sublist _ _), cut_length _ _, ?_⟩
  intro m member dropped
  exact cut_newest risingNewer limit member dropped

/- Three pipelines, the second overtaken by the third. -/
def mixed : List Action :=
  [.push (plain 3), .exec 0, .push (plain 7), .push (plain 5), .exec 2, .exec 0, .exec 1, .tick 1000,
    .exec 2, .exec 0, .lose 0, .exec 0, .tick 3599999]

theorem getMsgCache_mixed : ∃ s, run (step unary) start mixed = some s ∧
    s.written.map (·.msgId) = [3, 5, 7] ∧ s.getMsgCache unary 3 1 = [plain 7] := by
  have ran : (run (step unary) start mixed).isSome := by decide +kernel
  obtain ⟨s, taken⟩ := Option.isSome_iff_exists.mp ran
  have written : (run (step unary) start mixed).map State.written = some [plain 3, plain 5, plain 7] := by
    decide +kernel
  rw [taken] at written
  have wrote : s.written = [plain 3, plain 5, plain 7] := Option.some.inj written
  have read := (getMsgCache_last_written taken (by decide +kernel) 3 1).1
  refine ⟨s, taken, by rw [wrote]; decide, ?_⟩
  rw [read, wrote]
  decide +kernel

/- The client of Pull reads this cache when each of its writes runs uninterrupted. -/
section Pulls

variable {env : Env}

structure Shows (p : Pull.State) (s : State) : Prop where
  now : s.now = p.now
  live : ∀ now, (s.key.live now).entries = if now < p.deadline then p.cache else []
  pipes : s.pipes = []

theorem live_again (k : Key) (now : Nat) (entries : List Bytes) :
    ({ k.live now with entries := entries } : Key).live now = { k.live now with entries := entries } := by
  by_cases late : k.deadline.any (· ≤ now) = true
  · simp [Key.live, late]
  · simp [Key.live, late]

theorem live_entries (entries : List Bytes) (deadline now : Nat) :
    ((⟨entries, some deadline⟩ : Key).live now).entries = if now < deadline then entries else [] := by
  by_cases late : deadline ≤ now
  · simp [Key.live, late, Nat.not_lt.mpr late]
  · simp [Key.live, late, Nat.lt_of_not_le late]

/- The three commands with nothing between them. -/
theorem exec_push (k : Key) (now : Nat) (data : Bytes) :
    (((((k.live now).exec now (.lpush data)).live now).exec now (.ltrim (msgCacheMaxLen - 1))).live now).exec now
        (.expire msgCacheTTL) =
      ⟨(data :: (k.live now).entries).take msgCacheMaxLen, some (now + msgCacheTTL)⟩ := by
  have kept : (data :: (k.live now).entries).take (msgCacheMaxLen - 1 + 1) =
      data :: (k.live now).entries.take (msgCacheMaxLen - 1) := List.take_succ_cons
  simp only [Key.exec, live_again, kept, if_neg (List.cons_ne_nil _ _)]
  rfl

theorem push_alone {proto : Proto ImMessage} {s : State} {msg : ImMessage} {data : Bytes} (idle : s.pipes = [])
    (marshalled : proto.marshal msg = some data) :
    run (step proto) s [.push msg, .exec 0, .exec 0, .exec 0, .lose 0] = some { s with
      key := ⟨(data :: (s.key.live s.now).entries).take msgCacheMaxLen, some (s.now + msgCacheTTL)⟩
      written := s.written ++ [msg] } := by
  have pushed : step proto s (.push msg) = some { s with
      pipes := [⟨msg, [.lpush data, .ltrim (msgCacheMaxLen - 1), .expire msgCacheTTL]⟩] } := by
    simp only [step, pushMsgCache, marshalled, Option.map_some, idle, List.nil_append]
  refine run_cons_some.mpr ⟨_, pushed, ?_⟩
  simp only [run, step, State.exec, List.getElem?_cons_zero, List.set_cons_zero, Option.bind_some, exec_push,
    Command.writes, List.append_nil, List.eraseIdx_cons_zero, idle]

theorem pull_imitated (p : Pull.State) (a : Pull.Action) (q : Pull.State) (s : State) (shows : Shows p s)
    (taken : Pull.step env p a = some q) :
    ∃ as t, run (step env.proto) s as = some t ∧ Shows q t := by
  have stays : ∀ {r : Pull.State}, r.now = p.now → r.cache = p.cache → r.deadline = p.deadline →
      Shows r s := by
    intro r now cache deadline
    refine ⟨now ▸ shows.now, ?_, shows.pipes⟩
    rw [cache, deadline]
    exact shows.live
  cases Pull.step_effect taken with
  | unmarshalled => exact ⟨[], s, rfl, stays rfl rfl rfl⟩
  | @write msg data _ marshalled =>
    refine ⟨_, _, push_alone shows.pipes marshalled, shows.now, ?_, shows.pipes⟩
    intro now
    have live : (s.key.live p.now).entries = p.live := shows.live p.now
    simp only [shows.now, live, live_entries]
  | @tick ms =>
    refine ⟨[.tick ms], { s with now := s.now + ms }, rfl, ?_, shows.live, shows.pipes⟩
    simp [shows.now]
  | cached => exact ⟨[], s, rfl, stays rfl rfl rfl⟩
  | queried => exact ⟨[], s, rfl, stays rfl rfl rfl⟩
  | failed => exact ⟨[], s, rfl, shows⟩

theorem Shows.page {p : Pull.State} {s : State} (shows : Shows p s) :
    p.page env false = s.getMsgCache env.proto p.last (clampLimit env.limit) := by
  have live : (s.key.live p.now).entries = p.live := shows.live p.now
  rw [State.getMsgCache, shows.now, live]
  rfl

theorem pulls_on_cache {p₀ p : Pull.State} {as : List Pull.Action} (empty : p₀.cache = []) (fresh : p₀.now = 0)
    (taken : run (Pull.step env) p₀ as = some p) :
    ∃ bs s, run (step env.proto) start bs = some s ∧
      p.page env false = s.getMsgCache env.proto p.last (clampLimit env.limit) := by
  have related : Shows p₀ start := by
    refine ⟨fresh.symm, ?_, rfl⟩
    intro now
    rw [empty, ite_self]
    rfl
  obtain ⟨bs, s, ran, shows⟩ := run_simulates Shows pull_imitated related taken
  exact ⟨bs, s, ran, shows.page⟩

end Pulls

end GameIM.Service.MsgCache
