import GameIM.Store.Keyspace

/-! Since the keys of different records are different, every record stays of its kind, and no
call ever fails because of what it finds there, apart from a counter that is full. -/
namespace GameIM.Store.RedisStore
open Lib Lib.Text Lib.Keyed Api Keys

/-- What is under the key of a record is of its kind. -/
def OfKind (key : Bytes) (cell : Option Cell) : Prop := ∀ r : Record, key = r.key → Fits (shape r.kind) cell

def Allowed (key : Bytes) (c : Command) (reply : Reply) : Prop :=
  ∀ r : Record, key = r.key → c.suits (shape r.kind) reply = true

theorem apply_ofKind (now : Nat) (key : Bytes) (c : Command) (cell : Option Cell)
    (sent : ∃ records, Sends isMark records key c) (kind : OfKind key cell) :
    Allowed key c (c.apply now cell).1 ∧ OfKind key (c.apply now cell).2 := by
  obtain ⟨records, r, _, rfl, takes⟩ := sent
  have proper := apply_proper now takes (kind r rfl)
  refine ⟨?_, ?_⟩
  · intro q same
    cases key_inj.mp same
    exact proper.reply
  · intro q same
    cases key_inj.mp same
    exact proper.cell

/-- The number that a script or a later script records or reads for an id is exact as a double. -/
def Op.Exact : Op → Prop
  | setDedup _ msgID => IsExact msgID
  | dedupAndRateCheck _ _ _ seqHint => IsExact seqHint
  | _ => True

instance (op : Op) : Decidable op.Exact := by
  cases op <;> unfold Op.Exact <;> infer_instance

theorem Op.Exact.marks {op : Op} (exact : op.Exact) (pkg : Packages) : op.Marks pkg isMark := by
  cases op with
  | setDedup clientMsgID msgID => exact isMark_decimal exact
  | dedupAndRateCheck clientMsgID uid rateLimit seqHint =>
    change isMark (pkg.lua.text seqHint) = true
    rw [pkg.lua.text_exact seqHint exact]
    exact isMark_decimal exact
  | _ => trivial

/-- An error is one of the connection, or of a message or a channel state that cannot be
encoded or decoded, or of a counter that is full. -/
def Undisturbed {α : Type} (lua : Lua) (o : Outcome α) : Prop :=
  ∀ fault, o = .error fault → fault = .codec ∨ (∃ text, fault = .network text) ∨ fault = .server overflow ∨
    fault = .server (lua.raised overflow)

section Undisturbed

variable {α β : Type} {lua : Lua}

theorem ok_undisturbed (x : α) : Undisturbed lua (.ok x) := fun _ err => nomatch err

theorem network_undisturbed (text : Bytes) : Undisturbed lua (.error (.network text) : Outcome α) := by
  intro fault same
  cases same
  exact Or.inr (Or.inl ⟨text, rfl⟩)

theorem codec_undisturbed : Undisturbed lua (.error .codec : Outcome α) := by
  intro fault same
  cases same
  exact Or.inl rfl

theorem overflow_undisturbed : Undisturbed lua (.error (.server overflow) : Outcome α) := by
  intro fault same
  cases same
  exact Or.inr (Or.inr (Or.inl rfl))

theorem raised_undisturbed : Undisturbed lua (.error (.server (lua.raised overflow)) : Outcome α) := by
  intro fault same
  cases same
  exact Or.inr (Or.inr (Or.inr rfl))

theorem bind_undisturbed {o : Outcome α} {next : α → Outcome β} (first : Undisturbed lua o)
    (later : ∀ x, Undisturbed lua (next x)) : Undisturbed lua (o >>= next) := by
  cases o with
  | ok x => exact later x
  | error fault =>
    intro other same
    cases same
    exact first fault rfl

theorem map_undisturbed {o : Outcome α} (f : α → β) (first : Undisturbed lua o) :
    Undisturbed lua (Except.map f o) := by
  cases o with
  | ok x => exact ok_undisturbed (f x)
  | error fault =>
    intro other same
    cases same
    exact first fault rfl

end Undisturbed

/-- The replies that a batch can have on records of their kinds. -/
abbrev Replies (batch : List (Script Bytes Command Reply)) (replies : List Reply) : Prop :=
  List.Forall₂ (fun script a => script.Yields Allowed a ∨ ∃ text, a = .lost text) batch replies

def Steady {α : Type} (lua : Lua) (q : Request (Outcome α)) : Prop :=
  ∀ replies, Replies q.batch replies → Undisturbed lua (q.read replies)

section Replies

variable {α : Type} {lua : Lua} {kind : Shape} {c : Command} {reply : Reply}

def Command.counts : Command → Bool
  | incr | incrby _ => true
  | _ => false

theorem suits_error {text : Bytes} (suits : c.suits kind (.error text) = true) :
    c.counts = true ∧ text = overflow := by
  cases c with
  | incr => exact ⟨rfl, of_decide_eq_true suits⟩
  | incrby delta => exact ⟨rfl, of_decide_eq_true suits⟩
  | _ => contradiction

theorem err_undisturbed (plain : c ≠ .get) (suits : c.suits kind reply = true) : Undisturbed lua reply.err := by
  cases reply with
  | nil => cases c <;> contradiction
  | error text =>
    rw [(suits_error suits).2]
    exact overflow_undisturbed
  | lost text => exact network_undisturbed text
  | _ => exact ok_undisturbed ()

theorem call_yields (r : Record) (yields : (Script.call r.key c .ret).Yields Allowed reply) :
    c.suits (shape r.kind) reply = true := by
  cases yields with
  | call allowed returned =>
    cases returned
    exact allowed r rfl

theorem single_steady {script : Script Bytes Command Reply} (read : Reply → Outcome α)
    (good : ∀ reply, script.Yields Allowed reply → Undisturbed lua (read reply))
    (lost : ∀ text, Undisturbed lua (read (.lost text))) :
    Steady lua ⟨[script], fun replies => read (replies.headD .nil)⟩ := by
  intro replies given
  cases given with
  | cons first rest =>
    cases rest
    rcases first with yields | ⟨text, rfl⟩
    · exact good _ yields
    · exact lost text

theorem ask_steady (r : Record) {read : Reply → Outcome α}
    (good : ∀ reply, c.suits (shape r.kind) reply = true → Undisturbed lua (read reply))
    (lost : ∀ text, Undisturbed lua (read (.lost text))) : Steady lua (ask r.key c read) := by
  refine single_steady read ?_ lost
  intro reply yields
  exact good reply (call_yields r yields)

theorem ask_err_steady (r : Record) (plain : c ≠ .get) : Steady lua (ask r.key c Reply.err) :=
  ask_steady r (fun _ suits => err_undisturbed plain suits) network_undisturbed

theorem firstErr_undisturbed {batch : List (Script Bytes Command Reply)} {replies : List Reply}
    (good : ∀ script ∈ batch, ∀ reply, script.Yields Allowed reply → Undisturbed lua reply.err)
    (given : Replies batch replies) : Undisturbed lua (firstErr replies) := by
  induction given with
  | nil => exact ok_undisturbed ()
  | @cons script reply _ _ first rest ih =>
    have later := ih fun script listed => good script (List.mem_cons_of_mem _ listed)
    refine bind_undisturbed ?_ fun _ => later
    rcases first with yields | ⟨text, rfl⟩
    · exact good script List.mem_cons_self reply yields
    · exact network_undisturbed text

theorem pipeline_steady (r : Record) {commands : List Command} (plain : ∀ c ∈ commands, c ≠ .get) :
    Steady lua (pipeline r.key commands) := by
  intro replies given
  refine firstErr_undisturbed ?_ given
  intro script member reply yields
  obtain ⟨c, listed, rfl⟩ := List.mem_map.mp member
  exact err_undisturbed (plain c listed) (call_yields r yields)

theorem pure_steady {o : Outcome α} (calm : Undisturbed lua o) : Steady lua (Request.pure o) :=
  fun _ _ => calm

theorem answered_steady {make : α → Answer} {q : Request (Outcome α)} (steady : Steady lua q) :
    Steady lua (answered make q) :=
  fun replies given => map_undisturbed make (steady replies given)

end Replies

section Readers

variable {lua : Lua} {kind : Shape} {reply : Reply}

theorem readInt_undisturbed {c : Command} (counts : c.counts = true) (suits : c.suits kind reply = true) :
    Undisturbed lua reply.readInt := by
  cases reply with
  | int n => exact ok_undisturbed n
  | error text =>
    rw [(suits_error suits).2]
    exact overflow_undisturbed
  | _ => cases c <;> contradiction

theorem readPairs_undisturbed (suits : Command.hgetall.suits kind reply = true) : Undisturbed lua reply.readPairs := by
  cases reply with
  | pairs fields => exact ok_undisturbed fields
  | _ => contradiction

theorem readBulks_undisturbed {c : Command} (lists : c = .smembers ∨ ∃ start stop, c = .lrange start stop)
    (suits : c.suits kind reply = true) : Undisturbed lua reply.readBulks := by
  rcases lists with rfl | ⟨start, stop, rfl⟩
  · cases reply with
    | bulks texts => exact ok_undisturbed texts
    | _ => contradiction
  · cases reply with
    | bulks texts => exact ok_undisturbed texts
    | _ => contradiction

theorem get_suits (suits : Command.get.suits kind reply = true) : reply = .nil ∨ ∃ text, reply = .bulk text := by
  cases reply with
  | nil => exact Or.inl rfl
  | bulk text => exact Or.inr ⟨text, rfl⟩
  | _ => contradiction

theorem get_number (suits : Command.get.suits .number reply = true) :
    reply = .nil ∨ ∃ n, reply = .bulk (decimal n) ∧ IsInt64 n := by
  rcases get_suits suits with rfl | ⟨text, rfl⟩
  · exact Or.inl rfl
  · obtain ⟨n, reads⟩ := Option.isSome_iff_exists.mp (show (readInt64 text).isSome = true from suits)
    obtain ⟨rfl, within⟩ := readInt64_eq_some.mp reads
    exact Or.inr ⟨n, rfl, within⟩

theorem get_mark (suits : Command.get.suits .mark reply = true) :
    reply = .nil ∨ ∃ n, reply = .bulk (decimal n) ∧ IsExact n := by
  rcases get_suits suits with rfl | ⟨text, rfl⟩
  · exact Or.inl rfl
  · obtain ⟨n, rfl, exact⟩ := isMark_iff.mp suits
    exact Or.inr ⟨n, rfl, exact⟩

end Readers

section Scripts

variable {lua : Lua} {c : Command} {next : Reply → Script Bytes Command Reply} {reply : Reply}

theorem redisCall_yields (r : Record) (plain : c.counts = false)
    (yields : (redisCall lua r.key c next).Yields Allowed reply) :
    ∃ first, c.suits (shape r.kind) first = true ∧ (next first).Yields Allowed reply := by
  cases yields with
  | @call _ _ _ first _ allowed later =>
    have suits := allowed r rfl
    refine ⟨first, suits, ?_⟩
    cases first with
    | error text =>
      rw [(suits_error suits).1] at plain
      contradiction
    | _ => exact later

theorem incrCall_yields (r : Record) (yields : (redisCall lua r.key .incr next).Yields Allowed reply) :
    (∃ count, (next (.int count)).Yields Allowed reply) ∨ reply = .error (lua.raised overflow) := by
  cases yields with
  | @call _ _ _ first _ allowed later =>
    have suits := allowed r rfl
    cases first with
    | int count => exact Or.inl ⟨count, later⟩
    | error text =>
      cases (suits_error suits).2
      cases later
      exact Or.inr rfl
    | _ => contradiction

theorem rateLimitScript_yields {uid : Int} {ttl : Nat}
    (yields : (rateLimitScript lua (Keys.keyRateLimit uid) ttl).Yields Allowed reply) :
    (∃ n, reply = .int n) ∨ reply = .error (lua.raised overflow) := by
  rcases incrCall_yields (.rateLimit uid) yields with ⟨count, yields⟩ | refused
  · refine Or.inl ⟨lua.int count, ?_⟩
    dsimp only at yields
    split at yields
    · obtain ⟨_, _, yields⟩ := redisCall_yields (.rateLimit uid) rfl yields
      cases yields
      rfl
    · cases yields
      rfl
  · exact Or.inr refused

theorem markScript_yields {clientMsgID : Bytes} {ttl : Nat} {seqHint count : Int}
    (yields : (markScript lua (Keys.keyDedup clientMsgID) ttl seqHint count).Yields Allowed reply) :
    reply = .ints [-1, lua.int count] := by
  unfold markScript at yields
  split at yields
  · obtain ⟨_, _, yields⟩ := redisCall_yields (.dedup clientMsgID) rfl yields
    cases yields
    rfl
  · cases yields
    rfl

theorem dedupRateScript_yields {clientMsgID : Bytes} {uid : Int} {rateTTL ttl : Nat} {seqHint : Int}
    (yields : (dedupRateScript lua (Keys.keyDedup clientMsgID) (Keys.keyRateLimit uid) rateTTL ttl
      seqHint).Yields Allowed reply) :
    (∃ found count, reply = .ints [found, count]) ∨ reply = .error (lua.raised overflow) := by
  obtain ⟨dedupVal, suits, yields⟩ := redisCall_yields (.dedup clientMsgID) rfl yields
  rcases get_mark suits with rfl | ⟨n, rfl, exact⟩
  · rcases incrCall_yields (.rateLimit uid) yields with ⟨count, yields⟩ | refused
    · refine Or.inl ⟨-1, lua.int count, ?_⟩
      dsimp only at yields
      split at yields
      · obtain ⟨_, _, yields⟩ := redisCall_yields (.rateLimit uid) rfl yields
        exact markScript_yields yields
      · exact markScript_yields yields
    · exact Or.inr refused
  · simp only [lua.tonumber_exact n exact] at yields
    cases yields
    exact Or.inl ⟨n, 0, rfl⟩

end Scripts

section Operations

variable {lua : Lua} {pkg : Packages}

theorem getPresence_steady (uid : Int) : Steady lua (getPresence uid) := by
  refine ask_steady (.presence uid) ?_ network_undisturbed
  intro reply suits
  exact bind_undisturbed (readPairs_undisturbed suits) fun _ => ok_undisturbed _

theorem batchGetPresence_steady (uids : List Int) : Steady lua (batchGetPresence uids) := by
  unfold batchGetPresence
  split
  · exact pure_steady (ok_undisturbed _)
  · intro replies given
    have calm : Undisturbed lua (firstErr replies) := by
      refine firstErr_undisturbed ?_ given
      intro script member reply yields
      obtain ⟨uid, listed, rfl⟩ := List.mem_map.mp member
      exact err_undisturbed (by decide) (call_yields (.presence uid) yields)
    dsimp only
    split
    · rename_i fault err
      split
      · exact ok_undisturbed _
      · intro other same
        cases same
        exact calm fault err
    · exact ok_undisturbed _

theorem int64_decimal {n : Int} (within : IsInt64 n) : int64 (.bulk (decimal n)) = .ok n := by
  simp only [int64, Reply.readBulk, bind, Except.bind, parseInt_decimal within]

theorem getCurrentSeq_steady (channelID : Bytes) : Steady lua (getCurrentSeq channelID) := by
  refine ask_steady (.seq channelID) ?_ network_undisturbed
  intro reply suits
  rcases get_number suits with rfl | ⟨n, rfl, within⟩
  · exact ok_undisturbed 0
  · rw [int64_decimal within]
    exact ok_undisturbed n

theorem checkDedup_steady (clientMsgID : Bytes) : Steady lua (checkDedup clientMsgID) := by
  refine ask_steady (.dedup clientMsgID) ?_ network_undisturbed
  intro reply suits
  rcases get_mark suits with rfl | ⟨n, rfl, exact⟩
  · exact ok_undisturbed (false, 0)
  · rw [int64_decimal exact.isInt64]
    exact ok_undisturbed (true, n)

theorem setChannelState_steady (state : ChannelState) : Steady lua (setChannelState pkg state) := by
  unfold setChannelState
  split
  · exact pure_steady codec_undisturbed
  · exact ask_err_steady (.channelState state.channelID) (by simp)

theorem getChannelState_steady (channelID : Bytes) : Steady lua (getChannelState pkg channelID) := by
  refine ask_steady (.channelState channelID) ?_ network_undisturbed
  intro reply suits
  rcases get_suits suits with rfl | ⟨data, rfl⟩
  · exact ok_undisturbed none
  · simp only [Reply.readBulk]
    split
    · exact codec_undisturbed
    · exact ok_undisturbed _

theorem getChannelMembers_steady (channelID : Bytes) : Steady lua (getChannelMembers channelID) := by
  refine ask_steady (.channelMembers channelID) ?_ network_undisturbed
  intro reply suits
  exact bind_undisturbed (readBulks_undisturbed (Or.inl rfl) suits) fun _ => ok_undisturbed _

theorem pushMsgCache_steady (channelID : Bytes) (msg : ImMessage) : Steady lua (pushMsgCache pkg channelID msg) := by
  unfold pushMsgCache
  split
  · exact pure_steady codec_undisturbed
  · exact pipeline_steady (.msgCache channelID) (by simp)

theorem getMsgCache_steady (channelID : Bytes) (lastMsgID limit : Int) :
    Steady lua (getMsgCache pkg channelID lastMsgID limit) := by
  refine ask_steady (.msgCache channelID) ?_ network_undisturbed
  intro reply suits
  exact bind_undisturbed (readBulks_undisturbed (Or.inr ⟨_, _, rfl⟩) suits) fun _ => ok_undisturbed _

theorem isBanned_steady (uid : Int) : Steady lua (isBanned uid) := by
  refine ask_steady (.ban uid) ?_ network_undisturbed
  intro reply suits
  refine bind_undisturbed (readPairs_undisturbed suits) ?_
  intro result
  split <;> exact ok_undisturbed _

theorem checkRateLimit_steady (uid maxPerSecond : Int) : Steady pkg.lua (checkRateLimit pkg uid maxPerSecond) := by
  refine single_steady (fun reply => do
    let val ← reply.readInt
    .ok (decide (val ≤ maxPerSecond))) ?_ network_undisturbed
  intro reply yields
  rcases rateLimitScript_yields yields with ⟨n, rfl⟩ | rfl
  · exact ok_undisturbed _
  · exact raised_undisturbed

theorem isChannelAvailable_steady (channelType : Int) : Steady lua (isChannelAvailable channelType) := by
  refine ask_steady (.channelAvail channelType) ?_ network_undisturbed
  intro reply suits
  rcases get_suits suits with rfl | ⟨val, rfl⟩
  · exact ok_undisturbed true
  · exact ok_undisturbed _

theorem dedupAndRateCheck_steady (clientMsgID : Bytes) (uid rateLimit seqHint : Int) :
    Steady pkg.lua (dedupAndRateCheck pkg clientMsgID uid rateLimit seqHint) := by
  refine single_steady (fun reply => do
    let res ← reply.readInts
    dedupRateResult rateLimit res) ?_ network_undisturbed
  intro reply yields
  rcases dedupRateScript_yields yields with ⟨found, count, rfl⟩ | rfl
  · change Undisturbed pkg.lua (dedupRateResult rateLimit [found, count])
    simp only [dedupRateResult]
    split <;> exact ok_undisturbed _
  · exact raised_undisturbed

end Operations

theorem request_steady (pkg : Packages) (op : Op) : Steady pkg.lua (op.request pkg) := by
  cases op with
  | setPresence uid data => exact answered_steady (pipeline_steady (.presence uid) (by simp))
  | getPresence uid => exact answered_steady (getPresence_steady uid)
  | batchGetPresence uids => exact answered_steady (batchGetPresence_steady uids)
  | deletePresence uid => exact answered_steady (ask_err_steady (.presence uid) (by decide))
  | refreshPresenceTTL uid => exact answered_steady (ask_err_steady (.presence uid) (by decide))
  | nextSeq channelID =>
    exact answered_steady (ask_steady (.seq channelID)
      (fun _ suits => readInt_undisturbed rfl suits) network_undisturbed)
  | incrBy channelID delta =>
    exact answered_steady (ask_steady (.seq channelID)
      (fun _ suits => readInt_undisturbed rfl suits) network_undisturbed)
  | getCurrentSeq channelID => exact answered_steady (getCurrentSeq_steady channelID)
  | checkDedup clientMsgID => exact answered_steady (checkDedup_steady clientMsgID)
  | setDedup clientMsgID msgID => exact answered_steady (ask_err_steady (.dedup clientMsgID) (by simp))
  | setChannelState state => exact answered_steady (setChannelState_steady state)
  | getChannelState channelID => exact answered_steady (getChannelState_steady channelID)
  | deleteChannelState channelID =>
    exact answered_steady (ask_err_steady (.channelState channelID) (by decide))
  | refreshChannelStateTTL channelID =>
    exact answered_steady (ask_err_steady (.channelState channelID) (by decide))
  | addChannelMember channelID uid =>
    exact answered_steady (ask_err_steady (.channelMembers channelID) (by simp))
  | removeChannelMember channelID uid =>
    exact answered_steady (ask_err_steady (.channelMembers channelID) (by simp))
  | getChannelMembers channelID => exact answered_steady (getChannelMembers_steady channelID)
  | addUserChannel uid channelID => exact answered_steady (pipeline_steady (.userChannels uid) (by simp))
  | removeUserChannel uid channelID => exact answered_steady (ask_err_steady (.userChannels uid) (by simp))
  | getUserChannels uid =>
    exact answered_steady (ask_steady (.userChannels uid)
      (fun _ suits => readBulks_undisturbed (Or.inl rfl) suits) network_undisturbed)
  | pushMsgCache channelID msg => exact answered_steady (pushMsgCache_steady channelID msg)
  | getMsgCache channelID lastMsgID limit => exact answered_steady (getMsgCache_steady channelID lastMsgID limit)
  | setBan now uid duration reason => exact answered_steady (pipeline_steady (.ban uid) (by simp))
  | deleteBan uid => exact answered_steady (ask_err_steady (.ban uid) (by decide))
  | isBanned uid => exact answered_steady (isBanned_steady uid)
  | checkRateLimit uid maxPerSecond => exact answered_steady (checkRateLimit_steady uid maxPerSecond)
  | setChannelAvailable channelType available =>
    exact answered_steady (ask_err_steady (.channelAvail channelType) (by simp))
  | isChannelAvailable channelType => exact answered_steady (isChannelAvailable_steady channelType)
  | dedupAndRateCheck clientMsgID uid rateLimit seqHint =>
    exact answered_steady (dedupAndRateCheck_steady clientMsgID uid rateLimit seqHint)
  | postSendAsync channelID msg => exact fun _ _ => ok_undisturbed _

/-- From a keyspace in which every record is of its kind, however the calls are mixed, every
record stays of its kind, and a call fails only for the connection, for its own encoding or for a
counter that is full. -/
theorem run_undisturbed {pkg : Packages} {s t : State (Option Cell)} {as : List Action}
    (kinds : ∀ r : Record, Fits (shape r.kind) (s.store r.key)) (idle : s.calls = [])
    (exact : ∀ op, .start op ∈ as → op.Exact)
    (taken : run (step (system pkg Command.apply)) s as = some t) :
    (∀ r : Record, Fits (shape r.kind) (t.store r.key)) ∧
      ∀ call ∈ t.calls, ∀ o, call.answer = some o → Undisturbed pkg.lua o := by
  have start : Sound (system pkg Command.apply) (fun key c => ∃ records, Sends isMark records key c) Allowed OfKind
      s := by
    refine ⟨?_, ?_, State.good_idle _ _ idle⟩
    · intro key r same
      rw [same]
      exact kinds r
    · rw [idle]
      intro call member
      contradiction
  have on : ∀ op, .start op ∈ as →
      ((system pkg Command.apply).request op).On fun key c => ∃ records, Sends isMark records key c := by
    intro op started script member
    exact (request_on pkg op ((exact op started).marks pkg) script member).imp fun key c sent => ⟨op.records, sent⟩
  have sound := run_sound apply_ofKind start on taken
  refine ⟨fun r => sound.cells r.key r rfl, ?_⟩
  intro call member o answer
  obtain ⟨replies, rfl, given⟩ := sound.answer member answer
  exact request_steady pkg call.op replies given

/- A presence record, a counter and a member set, one call of them given up. -/
def mixedKinds : List Action :=
  [.start (.setPresence 7 ⟨utf8 "node", utf8 "c", utf8 "online", 5⟩), .serve 0, .start (.incrBy (utf8 "world") 1000),
    .start (.addChannelMember (utf8 "world") 7), .serve 2, .serve 1, .answer 1, .serve 0, .fail 0 1 (utf8 "reset"),
    .answer 2]

theorem run_undisturbed_mixedKinds : ∃ t,
    run (step (system decimalPackages Command.apply)) empty mixedKinds = some t ∧ t.calls.length = 3 ∧
    (∀ call ∈ t.calls, call.answer.isSome = true) ∧
    (∀ r : Record, Fits (shape r.kind) (t.store r.key)) ∧
      ∀ call ∈ t.calls, ∀ o, call.answer = some o → Undisturbed decimalPackages.lua o := by
  have done : (run (step (system decimalPackages Command.apply)) empty mixedKinds).map
      (fun t => decide (t.calls.length = 3 ∧ ∀ call ∈ t.calls, call.answer.isSome = true)) = some true := by
    decide +kernel
  obtain ⟨t, taken, seen⟩ := Option.map_eq_some_iff.mp done
  obtain ⟨three, returned⟩ := of_decide_eq_true seen
  have fits : ∀ r : Record, Fits (shape r.kind) (empty.store r.key) := by
    intro r
    exact fits_none
  have exact : ∀ op, .start op ∈ mixedKinds → op.Exact := by
    simp [mixedKinds, Op.Exact]
  exact ⟨t, taken, three, returned, run_undisturbed fits rfl exact taken⟩

/- A dedup record that is not a number would be a panic. -/
example : (dedupAndRateCheck decimalPackages [] 1 1 1).read
    ((dedupAndRateCheck decimalPackages [] 1 1 1).batch.map fun script =>
      (script.exec (Command.apply 0) fun _ => some ⟨.str (utf8 "x"), none⟩).1) = .error .panic := by
  decide +kernel

end GameIM.Store.RedisStore
