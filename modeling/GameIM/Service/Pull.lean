import GameIM.Api.Proto
import GameIM.Lib.Machine
import GameIM.Lib.Paging
import GameIM.Service.Msg

/-! PullMsg and a client that pulls a channel page by page. The cache list of the
channel is written by PostSendAsync, newest entry first, and may expire at any time
between two pulls. The cache answers with the newest entries above the client's
cursor, MongoDB with the oldest ones. -/
namespace GameIM.Service.Pull
open GameIM.Lib GameIM.Api GameIM.Store

def maxPullLimit : Int := 50
def msgCacheMaxLen : Nat := 200
def msgCacheTTL : Nat := 60 * 60 * 1000

/-- GetMsgCache on the entries that LRANGE returned, newest first. Entries that cannot
be unmarshalled are left out. -/
def getMsgCache (proto : Proto ImMessage) (data : List Bytes) (lastMsgID limit : Int) :
    List ImMessage :=
  let msgs := ((data.take msgCacheMaxLen).reverse.filterMap proto.unmarshal).filter
    fun msg => lastMsgID < msg.msgId
  if 0 < limit ∧ limit < msgs.length then msgs.drop (msgs.length - limit.toNat) else msgs

def fromDoc (doc : MessageDoc) : ImMessage :=
  { msgId := doc.msgID
    channelId := doc.channelID
    channelType := ⟨doc.channelType⟩
    sender := some { senderId := doc.senderID, senderName := doc.senderName }
    content := doc.content
    msgType := ⟨doc.msgType⟩
    msgParam := doc.msgParam
    sendTime := doc.sendTime
    clientMsgId := "" }

def clampLimit (limit : Int) : Int := if limit ≤ 0 ∨ maxPullLimit < limit then maxPullLimit else limit

/-- PullMsg. The cache read and the query of MongoDB give their entries or fail; the
failure of the query is the error of the call. -/
def pullMsg (proto : Proto ImMessage) (cache : Option (List Bytes)) (stored : Option (List MessageDoc))
    (channelID : String) (lastMsgID limit : Int) : Option (List ImMessage) :=
  let limit := clampLimit limit
  let msgs := match cache with
    | some data => getMsgCache proto data lastMsgID limit
    | none => []
  if msgs ≠ [] then some msgs
  else stored.map fun docs => (queryMessages docs channelID lastMsgID limit.toNat).map fromDoc

/-- What does not change while a client pulls: the channel, its stored messages and the
limit the client asks for. -/
structure Env where
  proto : Proto ImMessage
  channelID : String
  stored : List MessageDoc
  limit : Int

/-- The cache list with its deadline, the accepted messages whose cache write is still to
come, and the client. -/
structure State where
  now : Nat
  cache : List Bytes
  deadline : Nat
  pending : List ImMessage
  last : Int
  received : List ImMessage
  finished : Bool

inductive Action where
  | write (msg : ImMessage)
  | tick (ms : Nat)
  | pull (readFails queryFails : Bool)

def State.live (s : State) : List Bytes := if s.now < s.deadline then s.cache else []

/-- What the cache contributes to a pull. -/
def State.page (env : Env) (s : State) (readFails : Bool) : List ImMessage :=
  if readFails then [] else getMsgCache env.proto s.live s.last (clampLimit env.limit)

def State.pulled (env : Env) (s : State) (readFails queryFails : Bool) : Option (List ImMessage) :=
  pullMsg env.proto (if readFails then none else some s.live)
    (if queryFails then none else some env.stored) env.channelID s.last env.limit

/-- The client keeps the messages and moves its cursor to the largest id it has; it
stops when a pull returns nothing. -/
def State.receive (s : State) (msgs : List ImMessage) : State :=
  { s with
    last := newest s.last (msgs.map (·.msgId))
    received := s.received ++ msgs
    finished := msgs.isEmpty }

def step (env : Env) (s : State) : Action → Option State
  | .write msg =>
    if msg ∈ s.pending then
      match env.proto.marshal msg with
      | none => some { s with pending := s.pending.erase msg }
      | some data => some { s with
          cache := (data :: s.live).take msgCacheMaxLen
          deadline := s.now + msgCacheTTL
          pending := s.pending.erase msg }
    else none
  | .tick ms => some { s with now := s.now + ms }
  | .pull readFails queryFails =>
    if s.finished then none
    else match s.pulled env readFails queryFails with
      | none => some s
      | some msgs => some (s.receive msgs)

def Env.has (env : Env) (id : Int) : Prop :=
  ∃ d ∈ env.stored, d.channelID = env.channelID ∧ d.msgID = id

/- The ids of the cached messages above the client's cursor, the last cached first. -/
def State.ahead (env : Env) (s : State) : List Int :=
  (((s.live.take msgCacheMaxLen).filterMap env.proto.unmarshal).filter
    fun msg => s.last < msg.msgId).map (·.msgId)

/-- The cache cannot be read, or no stored message between the client's cursor and the
newest of the last `limit` cached messages above it is missing among these. -/
def gapless (env : Env) (s : State) : Action → Bool
  | .pull readFails _ =>
    let recent := (s.ahead env).take (clampLimit env.limit).toNat
    readFails || env.stored.all fun d => decide (d.channelID = env.channelID → s.last < d.msgID →
      d.msgID ≤ newest s.last recent → d.msgID ∈ recent)
  | _ => true

def State.reader (s : State) : Reader Int := ⟨s.last, s.received.map (·.msgId)⟩

theorem clampLimit_pos (limit : Int) : 0 < clampLimit limit := by
  unfold clampLimit maxPullLimit
  split <;> omega

inductive Effect (env : Env) (s : State) : Action → State → Prop where
  | unmarshalled {msg} : msg ∈ s.pending → env.proto.marshal msg = none →
      Effect env s (.write msg) { s with pending := s.pending.erase msg }
  | write {msg data} : msg ∈ s.pending → env.proto.marshal msg = some data →
      Effect env s (.write msg) { s with
        cache := (data :: s.live).take msgCacheMaxLen
        deadline := s.now + msgCacheTTL
        pending := s.pending.erase msg }
  | tick {ms} : Effect env s (.tick ms) { s with now := s.now + ms }
  | cached {readFails queryFails} : s.finished = false → s.page env readFails ≠ [] →
      Effect env s (.pull readFails queryFails) (s.receive (s.page env readFails))
  | queried {readFails} : s.finished = false → s.page env readFails = [] →
      Effect env s (.pull readFails false) (s.receive
        ((queryMessages env.stored env.channelID s.last (clampLimit env.limit).toNat).map fromDoc))
  | failed {readFails} : s.finished = false → s.page env readFails = [] →
      Effect env s (.pull readFails true) s

theorem pulled_eq (env : Env) (s : State) (readFails queryFails : Bool) :
    s.pulled env readFails queryFails =
      if s.page env readFails ≠ [] then some (s.page env readFails)
      else if queryFails then none
      else some ((queryMessages env.stored env.channelID s.last
        (clampLimit env.limit).toNat).map fromDoc) := by
  unfold State.pulled State.page pullMsg
  cases readFails <;> cases queryFails <;> simp

theorem step_effect {env : Env} {s t : State} {a : Action} (taken : step env s a = some t) :
    Effect env s a t := by
  cases a with
  | write msg =>
    simp only [step] at taken
    split at taken
    · rename_i waiting
      split at taken
      · rename_i refused
        cases taken
        exact .unmarshalled waiting refused
      · rename_i data marshalled
        cases taken
        exact .write waiting marshalled
    · contradiction
  | tick ms =>
    cases taken
    exact .tick
  | pull readFails queryFails =>
    simp only [step, pulled_eq] at taken
    split at taken
    · contradiction
    · rename_i pulling
      have open_ : s.finished = false := by simpa using pulling
      by_cases empty : s.page env readFails = []
      · cases queryFails with
        | true =>
          simp only [empty, ne_eq, not_true_eq_false, if_false, if_true] at taken
          cases taken
          exact .failed open_ empty
        | false =>
          simp only [empty, ne_eq, not_true_eq_false, if_false, Bool.false_eq_true] at taken
          cases taken
          exact .queried open_ empty
      · simp only [ne_eq, empty, not_false_eq_true, if_true] at taken
        cases taken
        exact .cached open_ empty

section Pages

variable (env : Env) (s : State)

/-- The documents of the channel above the cursor, oldest first. -/
def Env.above (last : Int) : List MessageDoc :=
  (env.stored.filter fun d => d.channelID = env.channelID ∧ last < d.msgID).insertionSort
    fun a b => a.msgID ≤ b.msgID

theorem mem_above {last : Int} {d : MessageDoc} :
    d ∈ env.above last ↔ d ∈ env.stored ∧ d.channelID = env.channelID ∧ last < d.msgID := by
  unfold Env.above
  rw [(List.perm_insertionSort _ _).mem_iff]
  simp

theorem query_eq : queryMessages env.stored env.channelID s.last (clampLimit env.limit).toNat =
    (env.above s.last).take (clampLimit env.limit).toNat := by
  have positive : (clampLimit env.limit).toNat ≠ 0 := by
    have := clampLimit_pos env.limit
    omega
  unfold queryMessages Env.above
  rw [if_neg positive]

def State.queryIds : List Int :=
  ((env.above s.last).map (·.msgID)).take (clampLimit env.limit).toNat

theorem query_ids : ((queryMessages env.stored env.channelID s.last
    (clampLimit env.limit).toNat).map fromDoc).map (·.msgId) = s.queryIds env := by
  rw [query_eq, State.queryIds, ← List.map_take, List.map_map]
  rfl

theorem query_covers : Covers env.has s.last (s.queryIds env) := by
  apply take_covers
  · have sorted := List.pairwise_insertionSort (fun a b : MessageDoc => a.msgID ≤ b.msgID)
      (env.stored.filter fun d => d.channelID = env.channelID ∧ s.last < d.msgID)
    exact List.pairwise_map.mpr sorted
  · rintro x ⟨d, hd, channel, rfl⟩ above
    exact List.mem_map.mpr ⟨d, (mem_above env).mpr ⟨hd, channel, above⟩, rfl⟩

theorem query_stored {x : Int} (mem : x ∈ s.queryIds env) : env.has x ∧ s.last < x := by
  obtain ⟨d, hd, rfl⟩ := List.mem_map.mp (List.mem_of_mem_take mem)
  obtain ⟨stored, channel, above⟩ := (mem_above env).mp hd
  exact ⟨⟨d, stored, channel, rfl⟩, above⟩

theorem query_empty (empty : s.queryIds env = []) {x : Int} (item : env.has x) : x ≤ s.last := by
  by_contra above
  obtain ⟨d, hd, channel, rfl⟩ := item
  have found : d ∈ env.above s.last := (mem_above env).mpr ⟨hd, channel, not_le.mp above⟩
  have positive := clampLimit_pos env.limit
  rcases List.take_eq_nil_iff.mp empty with zero | none
  · omega
  · rw [List.map_eq_nil_iff.mp none] at found
    contradiction

theorem mem_page {readFails : Bool} {m : ImMessage} (mem : m ∈ s.page env readFails) :
    (∃ data ∈ s.live, env.proto.unmarshal data = some m) ∧ s.last < m.msgId := by
  unfold State.page getMsgCache at mem
  simp only at mem
  split at mem
  · contradiction
  · have kept : m ∈ ((s.live.take msgCacheMaxLen).reverse.filterMap env.proto.unmarshal).filter
        fun msg => s.last < msg.msgId := by
      split at mem
      · exact List.mem_of_mem_drop mem
      · exact mem
    obtain ⟨read, ahead⟩ := List.mem_filter.mp kept
    obtain ⟨data, hd, found⟩ := List.mem_filterMap.mp read
    exact ⟨⟨data, List.mem_of_mem_take (List.mem_reverse.mp hd), found⟩, by simpa using ahead⟩

/- GetMsgCache cuts its list at the front, where the entries cached first are. -/
theorem page_ids : (s.page env false).map (·.msgId) =
    ((s.ahead env).take (clampLimit env.limit).toNat).reverse := by
  have positive := clampLimit_pos env.limit
  simp only [State.page, getMsgCache, State.ahead, List.filterMap_reverse, List.filter_reverse,
    List.length_reverse, Bool.false_eq_true, if_false]
  generalize ((s.live.take msgCacheMaxLen).filterMap env.proto.unmarshal).filter
    (fun msg => s.last < msg.msgId) = msgs
  split
  · rename_i long
    have kept : msgs.length - (msgs.length - (clampLimit env.limit).toNat) =
        (clampLimit env.limit).toNat := by omega
    rw [List.drop_reverse, kept, List.map_reverse, List.map_take]
  · have all : (msgs.map (·.msgId)).length ≤ (clampLimit env.limit).toNat := by
      rw [List.length_map]
      omega
    rw [List.take_of_length_le all, List.map_reverse]

theorem gapless_iff {readFails queryFails : Bool} : gapless env s (.pull readFails queryFails) = true ↔
    Covers env.has s.last ((s.page env readFails).map (·.msgId)) := by
  cases readFails with
  | true =>
    exact iff_of_true rfl (covers_nil _ _)
  | false =>
    rw [page_ids, covers_reverse]
    simp only [gapless, Bool.false_or, List.all_eq_true, decide_eq_true_eq]
    constructor
    · rintro h x ⟨d, hd, channel, rfl⟩ above below
      exact h d hd channel above below
    · intro h d hd channel above below
      exact h d.msgID ⟨d, hd, channel, rfl⟩ above below

theorem receive_reader (msgs : List ImMessage) :
    (s.receive msgs).reader = s.reader.turn (msgs.map (·.msgId)) := by
  simp [State.reader, State.receive, Reader.turn]

end Pages

/- What a pull does to the reader: it turns a page of ids above the cursor, and the
page has no gap unless it came from the cache. -/
theorem step_reader {env : Env} {s t : State} {a : Action} (taken : step env s a = some t) :
    t.reader = s.reader ∨ ∃ page, t.reader = s.reader.turn page ∧ (∀ x ∈ page, s.last < x) ∧
      (gapless env s a = true ↔ Covers env.has s.last page) := by
  cases step_effect taken with
  | unmarshalled => exact Or.inl rfl
  | write => exact Or.inl rfl
  | tick => exact Or.inl rfl
  | cached =>
    refine Or.inr ⟨_, receive_reader s _, ?_, gapless_iff env s⟩
    intro x mem
    obtain ⟨m, hm, rfl⟩ := List.mem_map.mp mem
    exact (mem_page env s hm).2
  | queried _ empty =>
    refine Or.inr ⟨s.queryIds env, ?_, fun x mem => (query_stored env s mem).2, ?_⟩
    · rw [receive_reader, query_ids]
    · rw [gapless_iff, empty]
      exact iff_of_true (covers_nil _ _) (query_covers env s)
  | failed => exact Or.inl rfl

theorem gapless_of_still {env : Env} {s t : State} {a : Action} (taken : step env s a = some t)
    (still : t.reader = s.reader) : gapless env s a = true := by
  cases step_effect taken with
  | unmarshalled => rfl
  | write => rfl
  | tick => rfl
  | @cached readFails _ _ some =>
    have turned : s.reader.seen = s.reader.seen ++ (s.page env readFails).map (·.msgId) := by
      rw [receive_reader] at still
      exact congrArg Reader.seen still.symm
    have none : (s.page env readFails).map (·.msgId) = [] := List.self_eq_append_right.mp turned
    exact absurd (List.map_eq_nil_iff.mp none) some
  | queried _ empty =>
    rw [gapless_iff, empty]
    exact covers_nil _ _
  | failed _ empty =>
    rw [gapless_iff, empty]
    exact covers_nil _ _

/- The reader behaves like one: it has seen nothing beyond its cursor. -/
structure Reading (start : Int) (s : State) : Prop where
  began : start ≤ s.last
  seen : ∀ x ∈ s.reader.seen, x ≤ s.last

theorem step_reading {env : Env} {start : Int} {s t : State} {a : Action} (h : Reading start s)
    (taken : step env s a = some t) : Reading start t := by
  rcases step_reader taken with still | ⟨page, turned, _, _⟩
  · have last : t.last = s.last := congrArg Reader.cursor still
    exact ⟨last ▸ h.began, last ▸ still ▸ h.seen⟩
  · have last : t.last = newest s.last page := congrArg Reader.cursor turned
    refine ⟨last ▸ le_trans h.began (le_newest s.last page), ?_⟩
    have seen := turn_seen page h.seen
    rw [← turned] at seen
    exact seen

theorem step_complete {env : Env} {start : Int} {s t : State} {a : Action}
    (h : Complete env.has start s.reader) (ok : gapless env s a = true)
    (taken : step env s a = some t) : Complete env.has start t.reader := by
  rcases step_reader taken with still | ⟨page, turned, _, gap⟩
  · exact still ▸ h
  · exact turned ▸ h.turn (gap.mp ok)

theorem step_skipped {env : Env} {start x : Int} {s t : State} {a : Action}
    (h : Skipped env.has start s.reader x) (taken : step env s a = some t) :
    Skipped env.has start t.reader x := by
  rcases step_reader taken with still | ⟨page, turned, ahead, _⟩
  · exact still ▸ h
  · exact turned ▸ h.turn ahead

theorem gap_skips {env : Env} {start : Int} {s t : State} {a : Action} (h : Reading start s)
    (gap : gapless env s a ≠ true) (taken : step env s a = some t) :
    ∃ x, Skipped env.has start t.reader x := by
  rcases step_reader taken with still | ⟨page, turned, _, covers⟩
  · exact absurd (gapless_of_still taken still) gap
  · rw [turned]
    exact turn_skips h.seen h.began (fun c => gap (covers.mpr c))

theorem run_skips {env : Env} {start : Int} {s t : State} {as : List Action} (h : Reading start s)
    (gap : ¬ Meets (step env) (fun s a => gapless env s a = true) s as)
    (taken : run (step env) s as = some t) : ∃ x, Skipped env.has start t.reader x := by
  induction as generalizing s with
  | nil => exact absurd trivial gap
  | cons a rest ih =>
    obtain ⟨u, hu, hr⟩ := run_cons_some.mp taken
    by_cases ok : gapless env s a = true
    · have later : ¬ Meets (step env) (fun s a => gapless env s a = true) u rest :=
        fun m => gap ((meets_cons hu).mpr ⟨ok, m⟩)
      exact ih (step_reading h hu) later hr
    · obtain ⟨x, skipped⟩ := gap_skips h ok hu
      exact ⟨x, run_invariant (fun s => Skipped env.has start s.reader x)
        (fun _ _ _ h t => step_skipped h t) skipped hr⟩

theorem step_finished {env : Env} {s t : State} {a : Action}
    (h : s.finished = true → ∀ x, env.has x → x ≤ s.last) (taken : step env s a = some t) :
    t.finished = true → ∀ x, env.has x → x ≤ t.last := by
  cases step_effect taken with
  | unmarshalled => exact h
  | write => exact h
  | tick => exact h
  | cached _ some =>
    intro stopped
    exact absurd (List.isEmpty_iff.mp stopped) some
  | queried _ _ =>
    intro stopped x item
    have none := List.isEmpty_iff.mp stopped
    have empty : s.queryIds env = [] := by rw [← query_ids, none]; rfl
    exact le_trans (query_empty env s empty item) (le_newest _ _)
  | failed => exact h

/-- A client that has received nothing yet. -/
structure Start (s : State) : Prop where
  received : s.received = []
  pulling : s.finished = false

/-- A client that has pulled until nothing came back has received every stored message
above its first cursor exactly if no pull was answered from the cache with a gap. -/
theorem pulled_everything_iff (env : Env) (s₀ s : State) (as : List Action) (start : Start s₀)
    (taken : run (step env) s₀ as = some s) (finished : s.finished = true) :
    (∀ d ∈ env.stored, d.channelID = env.channelID → s₀.last < d.msgID →
      ∃ m ∈ s.received, m.msgId = d.msgID) ↔
    Meets (step env) (fun s a => gapless env s a = true) s₀ as := by
  have seen : s₀.reader.seen = [] := by simp [State.reader, start.received]
  have reading : Reading s₀.last s₀ := ⟨le_refl _, by simp [seen]⟩
  constructor
  · intro everything
    by_contra gap
    obtain ⟨x, ⟨d, hd, channel, rfl⟩, above, _, unseen⟩ := run_skips reading gap taken
    obtain ⟨m, hm, id⟩ := everything d hd channel above
    exact unseen (List.mem_map.mpr ⟨m, hm, id⟩)
  · intro gapfree d hd channel above
    have complete : Complete env.has s₀.last s.reader :=
      run_invariant_meets (fun s => Complete env.has s₀.last s.reader)
        (fun _ _ _ h ok t => step_complete h ok t)
        (fun x _ above below => absurd above (not_lt.mpr below)) gapfree taken
    have stopped := run_invariant (fun s => s.finished = true → ∀ x, env.has x → x ≤ s.last)
      (fun _ _ _ h t => step_finished h t)
      (fun f => absurd f (by simp [start.pulling])) taken
    have item : env.has d.msgID := ⟨d, hd, channel, rfl⟩
    have mem := complete d.msgID item above (stopped finished d.msgID item)
    exact List.mem_map.mp mem

def plain (n : Nat) : ImMessage := ⟨n, "world", .world, none, [], .text, [], 0, ""⟩

/- A codec for such messages, which writes the id as that many bytes. -/
def unary : Proto ImMessage where
  marshal m := if m = plain m.msgId.toNat then some (List.replicate m.msgId.toNat 0) else none
  unmarshal data := some (plain data.length)
  undoes := by
    intro m data h
    split at h
    · rename_i same
      cases h
      simp [← same]
    · contradiction

def world (n : Nat) (limit : Int) : Env :=
  ⟨unary, "world", (List.range n).map fun i => buildDoc (plain (i + 1)) 0, limit⟩

def newcomer (n : Nat) : State := ⟨0, [], 0, (List.range n).map fun i => plain (i + 1), 0, [], false⟩

def writes (n : Nat) : List Action := (List.range n).map fun i => .write (plain (i + 1))

/- The third message is not cached in time; the client pulls the two others from the
cache and this one from MongoDB. -/
theorem pulled_everything_late_write : ∃ s,
    run (step (world 3 0)) (newcomer 3) (writes 2 ++ [.pull false false, .pull false false,
      .pull true false]) = some s ∧
    s.received.map (·.msgId) = [1, 2, 3] ∧ ∀ d ∈ (world 3 0).stored, d.channelID = "world" →
      0 < d.msgID → ∃ m ∈ s.received, m.msgId = d.msgID :=
  ⟨_, rfl, by decide +kernel,
    (pulled_everything_iff (world 3 0) (newcomer 3) _ (writes 2 ++ [.pull false false,
      .pull false false, .pull true false]) ⟨rfl, rfl⟩ rfl (by decide +kernel)).mpr (by decide +kernel)⟩

/-- One message more than fits a page, all in the cache: the client gets the newest fifty
and then nothing, and never sees the first. -/
theorem pull_skips_oldest :
    (run (step (world 51 50)) (newcomer 51)
        (writes 51 ++ [.pull false false, .pull false false])).map
      (fun s => (s.finished, s.received.map (·.msgId))) =
        some (true, (List.range 50).map fun i => (i : Int) + 2) ∧
    (world 51 50).has 1 ∧ (newcomer 51).last < 1 :=
  ⟨by decide +kernel, ⟨buildDoc (plain 1) 0, by decide +kernel, rfl, rfl⟩, by decide⟩

theorem live_cached {s : State} {data : Bytes} (mem : data ∈ s.live) : data ∈ s.cache := by
  unfold State.live at mem
  split at mem
  · exact mem
  · contradiction

structure Backed (env : Env) (s : State) : Prop where
  cached : ∀ data ∈ s.cache, ∀ m, env.proto.unmarshal data = some m → env.has m.msgId
  pending : ∀ m ∈ s.pending, env.has m.msgId

theorem step_backed {env : Env} {s t : State} {a : Action} (h : Backed env s)
    (taken : step env s a = some t) : Backed env t := by
  cases step_effect taken with
  | unmarshalled => exact ⟨h.cached, fun m hm => h.pending m (List.mem_of_mem_erase hm)⟩
  | @write msg data waiting marshalled =>
    refine ⟨?_, fun m hm => h.pending m (List.mem_of_mem_erase hm)⟩
    intro entry mem m read
    rcases List.mem_cons.mp (List.mem_of_mem_take mem) with rfl | old
    · have back := env.proto.undoes msg entry marshalled
      cases back.symm.trans read
      exact h.pending msg waiting
    · exact h.cached entry (live_cached old) m read
  | tick => exact ⟨h.cached, h.pending⟩
  | cached => exact ⟨h.cached, h.pending⟩
  | queried => exact ⟨h.cached, h.pending⟩
  | failed => exact h

theorem page_stored {env : Env} {s : State} (h : Backed env s) {readFails : Bool} {m : ImMessage}
    (mem : m ∈ s.page env readFails) : env.has m.msgId := by
  obtain ⟨⟨data, live, found⟩, _⟩ := mem_page env s mem
  exact h.cached data (live_cached live) m found

/-- The stored messages that the client has still to come to, and one for its last pull. -/
def State.toGo (env : Env) (s : State) : Nat :=
  (env.above s.last).length + if s.finished then 0 else 1

def answered : Action → Bool
  | .pull _ queryFails => !queryFails
  | _ => false

theorem above_length (env : Env) (last : Int) : (env.above last).length =
    (env.stored.filter fun d => d.channelID = env.channelID ∧ last < d.msgID).length := by
  unfold Env.above
  rw [List.length_insertionSort]

theorem above_shrinks {env : Env} {last : Int} {page : List Int} (some : page ≠ [])
    (stored : ∀ x ∈ page, env.has x ∧ last < x) :
    (env.above (newest last page)).length < (env.above last).length := by
  have moved : newest last page ∈ page := by
    rcases newest_mem last page with same | mem
    · obtain ⟨x, hx⟩ := List.exists_mem_of_ne_nil page some
      have le : x ≤ newest last page := mem_le_newest hx
      exact absurd (stored x hx).2 (not_lt.mpr (same ▸ le))
    · exact mem
  obtain ⟨⟨d, hd, channel, id⟩, ahead⟩ := stored _ moved
  have further : (env.stored.filter fun d => d.channelID = env.channelID ∧ newest last page < d.msgID) =
      (env.stored.filter fun d => d.channelID = env.channelID ∧ last < d.msgID).filter
        fun d => newest last page < d.msgID := by
    rw [List.filter_filter]
    apply List.filter_congr
    intro e _
    have le := le_newest last page
    simp only [← Bool.decide_and, decide_eq_decide]
    constructor
    · exact fun h => ⟨h.2, h.1, lt_of_le_of_lt le h.2⟩
    · exact fun h => ⟨h.2.1, h.1⟩
  rw [above_length, above_length, further, List.length_filter_lt_length_iff_exists]
  exact ⟨d, by simpa [hd, channel, id] using ahead, by simp [id]⟩

theorem step_toGo {env : Env} {s t : State} {a : Action} (h : Backed env s)
    (taken : step env s a = some t) : t.toGo env + (if answered a then 1 else 0) ≤ s.toGo env := by
  have shrinks : ∀ {page : List ImMessage}, s.finished = false → page ≠ [] →
      (∀ x ∈ page.map (·.msgId), env.has x ∧ s.last < x) →
      (s.receive page).toGo env + 1 ≤ s.toGo env := by
    intro page pulling some stored
    have fewer := above_shrinks (mt List.map_eq_nil_iff.mp some) stored
    have going : page.isEmpty = false := List.isEmpty_eq_false_iff.mpr some
    simp only [State.toGo, State.receive, going, pulling, Bool.false_eq_true, if_false]
    omega
  cases step_effect taken with
  | unmarshalled => exact le_refl _
  | write => exact le_refl _
  | tick => exact le_refl _
  | @cached readFails queryFails pulling some =>
    have less := shrinks pulling some (by
      intro x mem
      obtain ⟨m, hm, rfl⟩ := List.mem_map.mp mem
      exact ⟨page_stored h hm, (mem_page env s hm).2⟩)
    split <;> omega
  | queried pulling _ =>
    by_cases none : (queryMessages env.stored env.channelID s.last
        (clampLimit env.limit).toNat).map fromDoc = []
    · rw [none]
      simp [State.toGo, State.receive, pulling, newest, answered]
    · exact shrinks pulling none (by
        rw [query_ids]
        exact fun x mem => query_stored env s mem)
  | failed => exact le_refl _

/-- The client does come to an end: it makes at most one pull for every stored message
above its cursor, and one more, not counting pulls that fail. -/
theorem pulls_bounded (env : Env) (s₀ s : State) (as : List Action) (backed : Backed env s₀)
    (taken : run (step env) s₀ as = some s) : as.countP answered ≤ s₀.toGo env := by
  induction as generalizing s₀ with
  | nil => exact Nat.zero_le _
  | cons a rest ih =>
    obtain ⟨u, hu, hr⟩ := run_cons_some.mp taken
    have first := step_toGo backed hu
    have later := ih u (step_backed backed hu) hr
    rw [List.countP_cons]
    omega

end GameIM.Service.Pull
