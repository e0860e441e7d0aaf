import GameIM.Store.CounterView

/-! What the calls of the send path get from Redis, whatever other calls go on beside them and
however often they are sent: numbers that no other call gets, and one new client message id. -/
namespace GameIM.Store.RedisStore
open Lib Lib.Text Lib.Keyed Api Keys Service

section Numbers

/-- How many numbers of the channel the call reserves. -/
def Op.adds (channelID : String) : Op → Option Int
  | nextSeq id => if id = utf8 channelID then some 1 else none
  | incrBy id delta => if id = utf8 channelID then some delta else none
  | _ => none

theorem adds_counter {channelID : String} {op : Op} {delta : Int} (adds : op.adds channelID = some delta) :
    ∃ p : CounterOp, op = p.op := by
  cases op with
  | nextSeq id =>
    simp only [Op.adds, Option.ite_none_right_eq_some] at adds
    exact ⟨.nextSeq channelID, congrArg Op.nextSeq adds.1⟩
  | incrBy id delta =>
    simp only [Op.adds, Option.ite_none_right_eq_some] at adds
    exact ⟨.incrBy channelID delta, congrArg (Op.incrBy · delta) adds.1⟩
  | _ => contradiction

theorem act_adds {channelID : String} {p : CounterOp} {delta : Int} (adds : p.op.adds channelID = some delta)
    (lua : Lua) (now : Nat) (r : Redis) : p.act lua now r =
      ((orRefused overflow (r.incrKeyBy now (Store.keySeq channelID) delta).1).map .number,
        (r.incrKeyBy now (Store.keySeq channelID) delta).2) := by
  cases p with
  | nextSeq id =>
    simp only [CounterOp.op, Op.adds, Option.ite_none_right_eq_some, utf8_inj] at adds
    obtain ⟨rfl, same⟩ := adds
    cases Option.some.inj same
    rfl
  | incrBy id d =>
    simp only [CounterOp.op, Op.adds, Option.ite_none_right_eq_some, utf8_inj] at adds
    obtain ⟨rfl, same⟩ := adds
    cases Option.some.inj same
    rfl
  | _ => contradiction

theorem act_seq {channelID : String} {p : CounterOp} (other : p.op.adds channelID = none) (lua : Lua) (now : Nat)
    (r : Redis) : (p.act lua now r).2.keys (Store.keySeq channelID) = r.keys (Store.keySeq channelID) := by
  cases p with
  | nextSeq id =>
    have apart : id ≠ channelID := by
      rintro rfl
      simp [CounterOp.op, Op.adds] at other
    exact Redis.incrKeyBy_keys_ne r now 1 (by simpa using apart.symm)
  | incrBy id delta =>
    have apart : id ≠ channelID := by
      rintro rfl
      simp [CounterOp.op, Op.adds] at other
    exact Redis.incrKeyBy_keys_ne r now delta (by simpa using apart.symm)
  | setDedup clientMsgID msgID => exact Redis.put_keys_ne r _ (by simp)
  | checkRateLimit uid maxPerSecond => exact countRate_keys_ne r now _ (by simp)
  | dedupAndRateCheck clientMsgID uid rateLimit seqHint =>
    obtain ⟨_, same, _⟩ := CounterOp.act_check lua now r uid clientMsgID rateLimit seqHint
    rw [same]
    exact check_keys_ne r now _ _ _ _ (by simp) (by simp)
  | _ => rfl

/- The calls that reserved numbers, with the numbers: those behind the first up to the second. -/
def reserved (channelID : String) (e : Taken CounterOp (Outcome Answer)) : Option (Nat × Int × Int) :=
  match e.part.op.adds channelID, e.result with
  | some delta, .ok (.number n) => some (e.call, n - delta, n)
  | _, _ => none

def lastSeq (r : Redis) (channelID : String) : Int :=
  match r.keys (Store.keySeq channelID) with
  | none => 0
  | some e => e.val

/-- The counter never expires and stays within 64 bits, each call got the numbers behind those of the
calls before, and none got one that the counter has not reached. -/
structure Numbered (channelID : String) (m : Logged Redis CounterOp (Outcome Answer)) : Prop where
  lasting : ∀ e, m.state.keys (Store.keySeq channelID) = some e → e.deadline = none
  within : IsInt64 (lastSeq m.state channelID)
  int64 : ∀ x ∈ m.log.filterMap (reserved channelID), IsInt64 x.2.1 ∧ IsInt64 x.2.2
  rising : (m.log.filterMap (reserved channelID)).Pairwise fun x y => x.2.2 ≤ y.2.1
  reached : ∀ x ∈ m.log.filterMap (reserved channelID), x.2.2 ≤ lastSeq m.state channelID

variable {channelID : String} {m n : Logged Redis CounterOp (Outcome Answer)} {pkg : Packages}

theorem lasting_get {r : Redis} (lasting : ∀ e, r.keys (Store.keySeq channelID) = some e → e.deadline = none)
    (now : Nat) : (r.get now (Store.keySeq channelID)).getD 0 = lastSeq r channelID ∧
      (r.find now (Store.keySeq channelID)).bind (·.deadline) = none := by
  unfold Redis.get Redis.find lastSeq
  cases held : r.keys (Store.keySeq channelID) with
  | none => exact ⟨rfl, rfl⟩
  | some e =>
    have forever := lasting e held
    have live : e.live now = true := by simp [Entry.live, forever]
    simp [Option.filter, live, forever]

theorem incr_lasting {r : Redis} (lasting : ∀ e, r.keys (Store.keySeq channelID) = some e → e.deadline = none)
    (now : Nat) {delta : Int} (room : ¬ Overflows (lastSeq r channelID) delta) :
    (r.incrKeyBy now (Store.keySeq channelID) delta).1 = some (lastSeq r channelID + delta) ∧
      (r.incrKeyBy now (Store.keySeq channelID) delta).2.keys (Store.keySeq channelID) =
        some ⟨lastSeq r channelID + delta, none⟩ := by
  obtain ⟨value, forever⟩ := lasting_get lasting now
  rw [← value] at room
  rw [Redis.incrKeyBy_done room, Redis.put_keys_same, value, forever]
  exact ⟨rfl, rfl⟩

theorem Numbered.silent (before : Numbered channelID m) {r : Redis} {e : Taken CounterOp (Outcome Answer)}
    (same : r.keys (Store.keySeq channelID) = m.state.keys (Store.keySeq channelID))
    (silent : reserved channelID e = none) : Numbered channelID ⟨m.now, r, m.log ++ [e]⟩ := by
  have log : (m.log ++ [e]).filterMap (reserved channelID) = m.log.filterMap (reserved channelID) := by
    simp only [List.filterMap_append, List.filterMap_cons, silent, List.filterMap_nil, List.append_nil]
  have top : lastSeq r channelID = lastSeq m.state channelID := by
    simp only [lastSeq, same]
  refine ⟨fun e held => before.lasting e (same ▸ held), top ▸ before.within, ?_, ?_, ?_⟩
  · simp only [log]
    exact before.int64
  · simp only [log]
    exact before.rising
  · simp only [log, top]
    exact before.reached

theorem take_numbered (before : Numbered channelID m) (i j : Nat) {p : CounterOp}
    (positive : ∀ delta, p.op.adds channelID = some delta → 0 ≤ delta)
    (taken : (counterModel pkg).step m (.take i j p) = some n) : Numbered channelID n := by
  cases Option.some.inj taken
  cases adds : p.op.adds channelID with
  | none =>
    refine before.silent (act_seq adds pkg.lua m.now m.state) ?_
    simp only [reserved, adds]
  | some delta =>
    have acted : (counterModel pkg).act m.now p m.state = _ := act_adds adds pkg.lua m.now m.state
    by_cases full : Overflows (lastSeq m.state channelID) delta
    · have refused : m.state.incrKeyBy m.now (Store.keySeq channelID) delta = (none, m.state) := by
        rw [← (lasting_get before.lasting m.now).1] at full
        exact Redis.incrKeyBy_refused full
      rw [refused] at acted
      refine before.silent ?_ ?_
      · rw [acted]
      · simp only [reserved, adds, acted, orRefused, Except.map]
    · obtain ⟨value, kept⟩ := incr_lasting before.lasting m.now full
      have more := positive delta adds
      have within := isInt64_add before.within full
      have entry : reserved channelID ⟨i, j, p, ((counterModel pkg).act m.now p m.state).1⟩ =
          some (i, lastSeq m.state channelID, lastSeq m.state channelID + delta) := by
        simp only [reserved, adds, acted, value, orRefused, Except.map, Int.add_sub_cancel]
      have top : lastSeq ((counterModel pkg).act m.now p m.state).2 channelID = lastSeq m.state channelID + delta := by
        rw [acted, lastSeq, kept]
      refine ⟨?_, top ▸ within, ?_, ?_, ?_⟩
      · intro e held
        rw [acted, kept] at held
        cases Option.some.inj held
        rfl
      · simp only [List.filterMap_append, List.filterMap_cons, entry, List.filterMap_nil]
        intro x listed
        rcases List.mem_append.mp listed with old | new
        · exact before.int64 x old
        · cases List.mem_singleton.mp new
          exact ⟨before.within, within⟩
      · simp only [List.filterMap_append, List.filterMap_cons, entry, List.filterMap_nil]
        refine List.pairwise_append.mpr ⟨before.rising, List.pairwise_singleton _ _, ?_⟩
        intro x listed y new
        cases List.mem_singleton.mp new
        exact before.reached x listed
      · simp only [List.filterMap_append, List.filterMap_cons, entry, List.filterMap_nil, top]
        intro x listed
        rcases List.mem_append.mp listed with old | new
        · have bound := before.reached x old
          omega
        · cases List.mem_singleton.mp new
          exact Int.le_refl _

theorem run_numbered {bs : List (Move CounterOp)} (before : Numbered channelID m)
    (positive : ∀ i j p, .take i j p ∈ bs → ∀ delta, p.op.adds channelID = some delta → 0 ≤ delta)
    (taken : run (counterModel pkg).step m bs = some n) : Numbered channelID n := by
  have guarded : Meets (counterModel pkg).step
      (fun _ b => ∀ i j p, b = .take i j p → ∀ delta, p.op.adds channelID = some delta → 0 ≤ delta) m bs :=
    (meets_true m bs).imp fun _ b member _ i j p same => positive i j p (same ▸ member)
  refine run_invariant_meets (Numbered channelID) ?_ before guarded taken
  intro m b n before ok taken
  cases b with
  | take i j p => exact take_numbered before i j (ok i j p rfl) taken
  | pass ms =>
    cases Option.some.inj taken
    exact ⟨before.lasting, before.within, before.int64, before.rising, before.reached⟩

theorem Numbered.apart (numbered : Numbered channelID m) {x y : Nat × Int × Int}
    (listed : x ∈ m.log.filterMap (reserved channelID)) (listed' : y ∈ m.log.filterMap (reserved channelID))
    (other : x.1 ≠ y.1) : x.2.2 ≤ y.2.1 ∨ y.2.2 ≤ x.2.1 := by
  have either : (m.log.filterMap (reserved channelID)).Pairwise fun x y => x.2.2 ≤ y.2.1 ∨ y.2.2 ≤ x.2.1 :=
    numbered.rising.imp Or.inl
  have : Std.Symm fun x y : Nat × Int × Int => x.2.2 ≤ y.2.1 ∨ y.2.2 ≤ x.2.1 := ⟨fun _ _ => Or.symm⟩
  exact either.forall listed listed' fun same => other (congrArg Prod.fst same)

theorem calls_numbered {s t : State (Option Cell)} {as : List Action} {r : Redis}
    (idle : s.calls = []) (holds : Counters s.store r)
    (lasting : ∀ e, r.keys (Store.keySeq channelID) = some e → e.deadline = none)
    (texts : ∀ op, .start op ∈ as → op.Text) (exact : ∀ op, .start op ∈ as → op.Exact)
    (positive : ∀ op delta, .start op ∈ as → op.adds channelID = some delta → 0 ≤ delta)
    (taken : run (step (system pkg Command.apply)) s as = some t) :
    ∃ n : Logged Redis CounterOp (Outcome Answer), Numbered channelID n ∧
      ∀ i call delta k, t.calls[i]? = some call → call.op.adds channelID = some delta →
        call.answer = some (.ok (.number k)) → (i, k - delta, k) ∈ n.log.filterMap (reserved channelID) := by
  obtain ⟨bs, n, reached, _, parts, _, backed⟩ := run_counters idle holds texts exact taken
  refine ⟨n, ?_, ?_⟩
  · have nothing : ∀ x ∈ ([] : List (Taken CounterOp (Outcome Answer))).filterMap (reserved channelID), False := by simp
    refine run_numbered ⟨lasting, ?_, fun x none => (nothing x none).elim, .nil, fun x none => (nothing x none).elim⟩
      ?_ reached
    · unfold lastSeq
      split
      · decide
      · rename_i e held
        exact holds.within (.seq channelID) e held
    · intro i j p listed delta adds
      exact positive p.op delta (parts i j p listed) adds
  intro i call delta k found adds answer
  obtain ⟨p, same⟩ := adds_counter adds
  rcases backed i call p _ found same answer with ⟨text, failed⟩ | logged
  · contradiction
  · refine List.mem_filterMap.mpr ⟨_, logged, ?_⟩
    rw [same] at adds
    simp only [reserved, adds]

/-- However calls are mixed, resent and lost: two calls of IncrBy or NextSeq for one channel that
return a number got numbers that have none in common. -/
theorem numbers_reserved_once {s t : State (Option Cell)} {as : List Action} {r : Redis}
    (idle : s.calls = []) (holds : Counters s.store r)
    (lasting : ∀ e, r.keys (Store.keySeq channelID) = some e → e.deadline = none)
    (texts : ∀ op, .start op ∈ as → op.Text) (exact : ∀ op, .start op ∈ as → op.Exact)
    (positive : ∀ op delta, .start op ∈ as → op.adds channelID = some delta → 0 ≤ delta)
    (taken : run (step (system pkg Command.apply)) s as = some t) (i j : Nat) (other : i ≠ j)
    (call call' : Call Op Reply (Outcome Answer)) (here : t.calls[i]? = some call) (there : t.calls[j]? = some call')
    (delta delta' : Int) (adds : call.op.adds channelID = some delta) (adds' : call'.op.adds channelID = some delta')
    (k k' : Int) (answer : call.answer = some (.ok (.number k))) (answer' : call'.answer = some (.ok (.number k'))) :
    k ≤ k' - delta' ∨ k' ≤ k - delta := by
  obtain ⟨n, numbered, entry⟩ := calls_numbered idle holds lasting texts exact positive taken
  exact numbered.apart (entry i call delta k here adds answer) (entry j call' delta' k' there adds' answer') other

/- A reservation that is carried out twice, with a call between. -/
def resentReservation : List Action :=
  [.start (.incrBy (utf8 "world") 10), .serve 0, .resend 0, .start (.nextSeq (utf8 "world")), .serve 1, .serve 0,
    .answer 1, .answer 0]

def asNumber : Answer → Option Int
  | .number k => some k
  | _ => none

theorem asNumber_eq (ans : Answer) (k : Int) (has : asNumber ans = some k) : ans = .number k := by
  cases ans with
  | number n =>
    cases Option.some.inj has
    rfl
  | _ => contradiction

theorem numbers_reserved_once_resent : ∃ t call call',
    run (step (system decimalPackages Command.apply)) empty resentReservation = some t ∧
    t.calls[0]? = some call ∧ t.calls[1]? = some call' ∧ call.answer = some (.ok (.number 21)) ∧
    call'.answer = some (.ok (.number 11)) ∧ ((21 : Int) ≤ 11 - 1 ∨ (11 : Int) ≤ 21 - 10) := by
  have done : (run (step (system decimalPackages Command.apply)) empty resentReservation).map
      (fun t => t.calls.map fun call => (call.op.adds "world", returned asNumber call.answer)) =
        some [(some 10, some 21), (some 1, some 11)] := by decide +kernel
  obtain ⟨t, taken, seen⟩ := Option.map_eq_some_iff.mp done
  have started : ∀ op, .start op ∈ resentReservation →
      op = .incrBy (utf8 "world") 10 ∨ op = .nextSeq (utf8 "world") := by
    intro op listed
    simpa [resentReservation] using listed
  have at0 := congrArg (·[0]?) seen
  have at1 := congrArg (·[1]?) seen
  simp only [List.getElem?_map] at at0 at1
  obtain ⟨call, here, same⟩ := Option.map_eq_some_iff.mp at0
  obtain ⟨call', there, same'⟩ := Option.map_eq_some_iff.mp at1
  obtain ⟨adds, returned⟩ := Prod.mk.inj same
  obtain ⟨adds', returned'⟩ := Prod.mk.inj same'
  have answer := returned_eq asNumber_eq returned
  have answer' := returned_eq asNumber_eq returned'
  refine ⟨t, call, call', taken, here, there, answer, answer', ?_⟩
  refine numbers_reserved_once (r := ⟨fun _ => none⟩) rfl nothing_counted (fun e none => nomatch none) ?_ ?_ ?_ taken
    0 1 (by decide) call call' here there 10 1 adds adds' 21 11 answer answer'
  · intro op listed
    rcases started op listed with rfl | rfl
    · trivial
    · trivial
  · intro op listed
    rcases started op listed with rfl | rfl
    · trivial
    · trivial
  · intro op delta listed adds
    rcases started op listed with rfl | rfl
    · have same : some (10 : Int) = some delta := adds
      cases Option.some.inj same
      decide
    · have same : some (1 : Int) = some delta := adds
      cases Option.some.inj same
      decide

end Numbers

section Marks

/-- The number that a check of the client message id proposes for the message. -/
def Op.proposes (clientMsgID : String) : Op → Option Int
  | dedupAndRateCheck id _ _ seqHint => if id = utf8 clientMsgID then some seqHint else none
  | _ => none

/-- Nothing but a check with a number records the client message id. -/
def Op.Proposes (clientMsgID : String) : Op → Prop
  | dedupAndRateCheck id _ _ seqHint => id = utf8 clientMsgID → 0 < seqHint
  | setDedup id _ => id ≠ utf8 clientMsgID
  | _ => True

theorem proposes_check {clientMsgID : String} {op : Op} {seqHint : Int}
    (proposes : op.proposes clientMsgID = some seqHint) :
    ∃ uid rateLimit, op = (CounterOp.dedupAndRateCheck clientMsgID uid rateLimit seqHint).op := by
  cases op with
  | dedupAndRateCheck id uid rateLimit hint =>
    simp only [Op.proposes, Option.ite_none_right_eq_some, Option.some.injEq] at proposes
    obtain ⟨rfl, rfl⟩ := proposes
    exact ⟨uid, rateLimit, rfl⟩
  | _ => contradiction

theorem act_dedup {clientMsgID : String} {p : CounterOp} (proper : p.op.Proposes clientMsgID)
    (other : p.op.proposes clientMsgID = none) (lua : Lua) (now : Nat) (r : Redis) :
    (p.act lua now r).2.keys (Store.keyDedup clientMsgID) = r.keys (Store.keyDedup clientMsgID) := by
  cases p with
  | nextSeq id => exact Redis.incrKeyBy_keys_ne r now 1 (by simp)
  | incrBy id delta => exact Redis.incrKeyBy_keys_ne r now delta (by simp)
  | setDedup id msgID =>
    have apart : id ≠ clientMsgID := by
      rintro rfl
      exact proper rfl
    exact Redis.put_keys_ne r _ (by simpa using apart.symm)
  | checkRateLimit uid maxPerSecond => exact countRate_keys_ne r now _ (by simp)
  | dedupAndRateCheck id uid rateLimit seqHint =>
    have apart : id ≠ clientMsgID := by
      rintro rfl
      simp [CounterOp.op, Op.proposes] at other
    obtain ⟨_, same, _⟩ := CounterOp.act_check lua now r uid id rateLimit seqHint
    rw [same]
    exact check_keys_ne r now _ _ _ _ (by simpa using apart.symm) (by simp)
  | _ => rfl

def checked (clientMsgID : String) (e : Taken CounterOp (Outcome Answer)) : Option (Nat × Int × DedupRateResult) :=
  match e.part.op.proposes clientMsgID, e.result with
  | some seqHint, .ok (.check res) => some (e.call, seqHint, res)
  | _, _ => none

/-- Either no check was made and there is no record, or the first check was told that the id is
new, its number is recorded, and the others were told that number. -/
inductive Marked (begun : Nat) (clientMsgID : String) (m : Logged Redis CounterOp (Outcome Answer)) : Prop
  | fresh (unchecked : m.log.filterMap (checked clientMsgID) = [])
      (absent : m.state.get m.now (Store.keyDedup clientMsgID) = none)
  | marked (call : Nat) (number : Int) (rateAllowed : Bool) (rest : List (Nat × Int × DedupRateResult))
      (deadline : Nat) (positive : 0 < number) (long : begun + 1000 * dedupTTL ≤ deadline)
      (log : m.log.filterMap (checked clientMsgID) = (call, number, ⟨false, 0, rateAllowed⟩) :: rest)
      (told : ∀ x ∈ rest, x.2.2.dedupExists = true ∧ x.2.2.dedupMsgID = number)
      (held : m.state.keys (Store.keyDedup clientMsgID) = some ⟨number, some deadline⟩)

variable {clientMsgID : String} {begun : Nat} {m n : Logged Redis CounterOp (Outcome Answer)} {pkg : Packages}

theorem get_later {r : Redis} {key : String} {now : Nat} (absent : r.get now key = none) (ms : Nat) :
    r.get (now + ms) key = none := by
  simp only [Redis.get, Redis.find, Option.map_eq_none_iff, Option.filter_eq_none_iff] at absent ⊢
  intro e held live
  refine absent e held ?_
  revert live
  unfold Entry.live
  cases e.deadline with
  | none => exact id
  | some deadline =>
    simp only [decide_eq_true_eq]
    omega

theorem take_marked (since : begun ≤ m.now) (within : m.now < begun + 1000 * dedupTTL)
    (given : clientMsgID ≠ "") (before : Marked begun clientMsgID m) (i j : Nat) {p : CounterOp}
    (proper : p.op.Proposes clientMsgID) (taken : (counterModel pkg).step m (.take i j p) = some n) :
    Marked begun clientMsgID n := by
  cases Option.some.inj taken
  cases proposes : p.op.proposes clientMsgID with
  | none =>
    have same : ((counterModel pkg).act m.now p m.state).2.keys _ = _ :=
      act_dedup proper proposes pkg.lua m.now m.state
    have silent : List.filterMap (checked clientMsgID)
        (m.log ++ [⟨i, j, p, ((counterModel pkg).act m.now p m.state).1⟩]) =
          m.log.filterMap (checked clientMsgID) := by
      rw [List.filterMap_append]
      simp [checked, proposes]
    cases before with
    | fresh unchecked absent => exact .fresh (silent.trans unchecked) ((Redis.get_congr m.now same).trans absent)
    | marked call number rateAllowed rest deadline positive long log told held =>
      exact .marked call number rateAllowed rest deadline positive long (silent.trans log) told (same.trans held)
  | some seqHint =>
    obtain ⟨uid, rateLimit, own⟩ := proposes_check proposes
    cases CounterOp.op_injective own
    have more : ∀ res, checked clientMsgID
        ⟨i, j, .dedupAndRateCheck clientMsgID uid rateLimit seqHint, .ok (.check res)⟩ = some (i, seqHint, res) := by
      intro res
      simp only [checked, proposes]
    have number : 0 < seqHint := proper rfl
    obtain ⟨rateOK, acted, _⟩ := CounterOp.act_check pkg.lua m.now m.state uid clientMsgID rateLimit seqHint
    simp only [counterModel, acted]
    cases before with
    | fresh unchecked absent =>
      by_cases full : Overflows (rateCount m.state m.now uid) 1
      · rw [check_refused m.state m.now clientMsgID uid rateLimit seqHint absent full]
        refine .fresh ?_ absent
        simp only [List.filterMap_append, unchecked, List.filterMap_cons, List.filterMap_nil, List.nil_append, checked,
          proposes, orRefused, Except.map]
      · have written := check_miss_dedup m.state m.now clientMsgID uid rateLimit seqHint absent full
        rw [if_pos ⟨given, number⟩] at written
        refine .marked i seqHint rateOK [] _ number (Nat.add_le_add_right since _) ?_ (by simp)
          written
        simp only [List.filterMap_append, unchecked, List.filterMap_cons, List.filterMap_nil, List.nil_append,
          check_miss m.state m.now clientMsgID uid rateLimit seqHint absent full, orRefused, Except.map, more]
    | marked call v rateAllowed rest deadline positive long log told held =>
      have hit := Redis.get_held held (Nat.lt_of_lt_of_le within long)
      have found := check_hit m.state m.now clientMsgID uid rateLimit seqHint hit (Int.le_of_lt positive)
      rw [found]
      refine .marked call v rateAllowed (rest ++ [(i, seqHint, ⟨true, v, rateOK⟩)]) deadline positive long ?_ ?_ held
      · simp only [List.filterMap_append, log, List.filterMap_cons, List.filterMap_nil, List.cons_append, orRefused,
          Except.map, more]
      · intro x listed
        rcases List.mem_append.mp listed with old | new
        · exact told x old
        · cases List.mem_singleton.mp new
          exact ⟨rfl, rfl⟩

theorem run_marked {bs : List (Move CounterOp)} (given : clientMsgID ≠ "")
    (absent : m.state.get m.now (Store.keyDedup clientMsgID) = none) (unlogged : m.log = [])
    (proper : ∀ i j p, .take i j p ∈ bs → p.op.Proposes clientMsgID)
    (taken : run (counterModel pkg).step m bs = some n) (within : n.now < m.now + 1000 * dedupTTL) :
    Marked m.now clientMsgID n := by
  have guarded : Meets (counterModel pkg).step (fun _ b => ∀ i j p, b = .take i j p → p.op.Proposes clientMsgID) m bs :=
    (meets_true m bs).imp fun _ b member _ i j p same => proper i j p (same ▸ member)
  have start : m.now ≤ m.now ∧ (m.now < m.now + 1000 * dedupTTL → Marked m.now clientMsgID m) := by
    refine ⟨Nat.le_refl _, fun _ => .fresh ?_ absent⟩
    rw [unlogged]
    rfl
  have ended := run_invariant_meets
    (fun l : Logged Redis CounterOp (Outcome Answer) =>
      m.now ≤ l.now ∧ (l.now < m.now + 1000 * dedupTTL → Marked m.now clientMsgID l)) ?_ start guarded taken
  · exact ended.2 within
  intro l b l' before ok moved
  cases b with
  | take i j p =>
    have clock : l'.now = l.now := by
      cases Option.some.inj moved
      rfl
    rw [clock]
    exact ⟨before.1, fun within => take_marked before.1 within given (before.2 within) i j (ok i j p rfl) moved⟩
  | pass ms =>
    cases Option.some.inj moved
    refine ⟨Nat.le_add_right_of_le before.1, ?_⟩
    intro within
    cases before.2 (Nat.lt_of_le_of_lt (Nat.le_add_right _ _) within) with
    | fresh unchecked absent => exact .fresh unchecked (get_later absent ms)
    | marked call number rateAllowed rest deadline positive long log told held =>
      exact .marked call number rateAllowed rest deadline positive long log told held

theorem Marked.others (marked : Marked begun clientMsgID m) {i j : Nat} (other : i ≠ j) {seqHint seqHint' : Int}
    {res res' : DedupRateResult} (listed : (i, seqHint, res) ∈ m.log.filterMap (checked clientMsgID))
    (listed' : (j, seqHint', res') ∈ m.log.filterMap (checked clientMsgID)) (new : res.dedupExists = false) :
    res'.dedupExists = true ∧ res'.dedupMsgID = seqHint := by
  cases marked with
  | fresh unchecked _ =>
    rw [unchecked] at listed
    contradiction
  | marked call v rateAllowed rest deadline _ _ log told _ =>
    rw [log] at listed listed'
    rcases List.mem_cons.mp listed with first | later
    · cases first
      rcases List.mem_cons.mp listed' with same | later'
      · exact absurd (Prod.mk.inj same).1.symm other
      · exact told _ later'
    · have known := (told _ later).1
      rw [new] at known
      contradiction

theorem checks_marked {s t : State (Option Cell)} {as : List Action} {r : Redis}
    (idle : s.calls = []) (holds : Counters s.store r) (given : clientMsgID ≠ "")
    (absent : r.get s.now (Store.keyDedup clientMsgID) = none) (texts : ∀ op, .start op ∈ as → op.Text)
    (exact : ∀ op, .start op ∈ as → op.Exact) (proper : ∀ op, .start op ∈ as → op.Proposes clientMsgID)
    (taken : run (step (system pkg Command.apply)) s as = some t) (within : t.now < s.now + 1000 * dedupTTL) :
    ∃ n : Logged Redis CounterOp (Outcome Answer), Marked s.now clientMsgID n ∧
      Linear (system pkg Command.apply) (counterModel pkg) t n ∧ ((∀ i, .resend i ∉ as) → Once t n.log) ∧
      ∀ i call seqHint res, t.calls[i]? = some call → call.op.proposes clientMsgID = some seqHint →
        call.answer = some (.ok (.check res)) → (i, seqHint, res) ∈ n.log.filterMap (checked clientMsgID) := by
  obtain ⟨bs, n, reached, linear, parts, once, backed⟩ := run_counters idle holds texts exact taken
  refine ⟨n, ?_, linear, once, ?_⟩
  · exact run_marked (m := ⟨s.now, r, []⟩) given absent rfl (fun i j p listed => proper p.op (parts i j p listed))
      reached (linear.clock ▸ within)
  intro i call seqHint res found proposes answer
  obtain ⟨uid, rateLimit, same⟩ := proposes_check proposes
  rcases backed i call _ _ found same answer with ⟨text, failed⟩ | logged
  · contradiction
  · refine List.mem_filterMap.mpr ⟨_, logged, ?_⟩
    rw [same] at proposes
    simp only [checked, proposes]

/-- However calls are mixed, resent and lost, within the day that a record lasts: when one check of
a client message id returns that the id is new, every other check of it returns that it exists,
with the number that the first proposed. -/
theorem id_new_once {s t : State (Option Cell)} {as : List Action} {r : Redis}
    (idle : s.calls = []) (holds : Counters s.store r) (given : clientMsgID ≠ "")
    (absent : r.get s.now (Store.keyDedup clientMsgID) = none) (texts : ∀ op, .start op ∈ as → op.Text)
    (exact : ∀ op, .start op ∈ as → op.Exact) (proper : ∀ op, .start op ∈ as → op.Proposes clientMsgID)
    (taken : run (step (system pkg Command.apply)) s as = some t) (within : t.now < s.now + 1000 * dedupTTL)
    (i j : Nat) (other : i ≠ j) (call call' : Call Op Reply (Outcome Answer)) (here : t.calls[i]? = some call)
    (there : t.calls[j]? = some call') (seqHint seqHint' : Int)
    (proposes : call.op.proposes clientMsgID = some seqHint)
    (proposes' : call'.op.proposes clientMsgID = some seqHint') (res res' : DedupRateResult)
    (answer : call.answer = some (.ok (.check res))) (answer' : call'.answer = some (.ok (.check res')))
    (new : res.dedupExists = false) : res'.dedupExists = true ∧ res'.dedupMsgID = seqHint := by
  obtain ⟨n, marked, _, _, entry⟩ := checks_marked idle holds given absent texts exact proper taken within
  exact marked.others other (entry i call seqHint res here proposes answer)
    (entry j call' seqHint' res' there proposes' answer') new

def asCheck : Answer → Option DedupRateResult
  | .check res => some res
  | _ => none

theorem asCheck_eq (ans : Answer) (res : DedupRateResult) (has : asCheck ans = some res) : ans = .check res := by
  cases ans with
  | check result =>
    cases Option.some.inj has
    rfl
  | _ => contradiction

/- Two checks of one id, the later call carried out first. -/
def racingChecks : List Action :=
  [.start (.dedupAndRateCheck (utf8 "k") 7 5 11), .start (.dedupAndRateCheck (utf8 "k") 7 5 12), .serve 1, .tick 40,
    .serve 0, .answer 0, .answer 1]

theorem racingChecks_started (op : Op) (listed : .start op ∈ racingChecks) :
    op.Text ∧ op.Exact ∧ op.Proposes "k" := by
  have started : op = .dedupAndRateCheck (utf8 "k") 7 5 11 ∨ op = .dedupAndRateCheck (utf8 "k") 7 5 12 := by
    simpa [racingChecks] using listed
  rcases started with rfl | rfl
  · exact ⟨⟨"k", rfl⟩, by decide, fun _ => by decide⟩
  · exact ⟨⟨"k", rfl⟩, by decide, fun _ => by decide⟩

theorem racingChecks_run : ∃ t call call',
    run (step (system decimalPackages Command.apply)) empty racingChecks = some t ∧ t.now = 40 ∧
    t.calls = [call, call'] ∧ call.op.proposes "k" = some 11 ∧ call'.op.proposes "k" = some 12 ∧
    call.answer = some (.ok (.check ⟨true, 12, true⟩)) ∧ call'.answer = some (.ok (.check ⟨false, 0, true⟩)) := by
  have done : (run (step (system decimalPackages Command.apply)) empty racingChecks).map
      (fun t => (t.now, t.calls.map fun call => (call.op.proposes "k", returned asCheck call.answer))) =
        some (40, [(some 11, some ⟨true, 12, true⟩), (some 12, some ⟨false, 0, true⟩)]) := by decide +kernel
  obtain ⟨t, taken, seen⟩ := Option.map_eq_some_iff.mp done
  obtain ⟨clock, seen⟩ := Prod.mk.inj seen
  obtain ⟨call, rest, calls, first, seen⟩ := List.map_eq_cons_iff.mp seen
  obtain ⟨call', none, rfl, second, ended⟩ := List.map_eq_cons_iff.mp seen
  cases List.map_eq_nil_iff.mp ended
  obtain ⟨proposes, returned⟩ := Prod.mk.inj first
  obtain ⟨proposes', returned'⟩ := Prod.mk.inj second
  exact ⟨t, call, call', taken, clock, calls, proposes, proposes', returned_eq asCheck_eq returned,
    returned_eq asCheck_eq returned'⟩

theorem id_new_once_racing : ∃ t call call' res res',
    run (step (system decimalPackages Command.apply)) empty racingChecks = some t ∧
    t.calls[1]? = some call ∧ t.calls[0]? = some call' ∧ call.answer = some (.ok (.check res)) ∧
    call'.answer = some (.ok (.check res')) ∧ res.dedupExists = false ∧ res'.dedupExists = true ∧
    res'.dedupMsgID = 12 := by
  obtain ⟨t, call', call, taken, clock, calls, proposes', proposes, answer', answer⟩ := racingChecks_run
  have here : t.calls[1]? = some call := by rw [calls]; rfl
  have there : t.calls[0]? = some call' := by rw [calls]; rfl
  refine ⟨t, call, call', _, _, taken, here, there, answer, answer', rfl, ?_⟩
  refine id_new_once rfl nothing_counted (by decide) rfl (fun op listed => (racingChecks_started op listed).1)
    (fun op listed => (racingChecks_started op listed).2.1) (fun op listed => (racingChecks_started op listed).2.2)
    taken ?_ 1 0 (by decide) call call' here there 12 11 proposes proposes' _ _ answer answer' rfl
  rw [clock]
  decide

theorem checked_some {e : Taken CounterOp (Outcome Answer)} {i : Nat} {seqHint : Int} {res : DedupRateResult}
    (found : checked clientMsgID e = some (i, seqHint, res)) :
    e.call = i ∧ e.part.op.proposes clientMsgID = some seqHint ∧ e.result = .ok (.check res) := by
  unfold checked at found
  split at found
  · rename_i hint res' proposes result
    cases Option.some.inj found
    exact ⟨rfl, proposes, result⟩
  · contradiction

/- Where no request is sent twice, a call has one entry. -/
theorem checked_once {t : State (Option Cell)}
    (linear : Linear (system pkg Command.apply) (counterModel pkg) t m) (once : Once t m.log) {i : Nat}
    {seqHint : Int} {res : DedupRateResult} (listed : (i, seqHint, res) ∈ m.log.filterMap (checked clientMsgID)) :
    (∃ call, t.calls[i]? = some call ∧ call.op.proposes clientMsgID = some seqHint) ∧
      ∀ seqHint' res', (i, seqHint', res') ∈ m.log.filterMap (checked clientMsgID) → res' = res := by
  obtain ⟨e, logged, found⟩ := List.mem_filterMap.mp listed
  obtain ⟨rfl, proposes, result⟩ := checked_some found
  obtain ⟨call, here, same, place, _⟩ := linear.origin e logged
  refine ⟨⟨call, here, same ▸ proposes⟩, ?_⟩
  intro seqHint' res' listed'
  obtain ⟨e', logged', found'⟩ := List.mem_filterMap.mp listed'
  obtain ⟨own, _, result'⟩ := checked_some found'
  obtain ⟨_, _, _, place', _⟩ := linear.origin e' logged'
  have equal : e' = e := List.inj_on_of_nodup_map once.each logged' logged (by rw [own, place, place'])
  rw [equal, result] at result'
  exact (Answer.check.inj (Except.ok.inj result')).symm

/-- Where no request is sent twice and every check of a client message id returns, within the day
that a record lasts, exactly one of them returns that the id is new. The others return the number
that this one proposed. -/
theorem id_new_exactly_once {s t : State (Option Cell)} {as : List Action} {r : Redis}
    (idle : s.calls = []) (holds : Counters s.store r) (given : clientMsgID ≠ "")
    (absent : r.get s.now (Store.keyDedup clientMsgID) = none) (texts : ∀ op, .start op ∈ as → op.Text)
    (exact : ∀ op, .start op ∈ as → op.Exact) (proper : ∀ op, .start op ∈ as → op.Proposes clientMsgID)
    (unsent : ∀ i, .resend i ∉ as) (taken : run (step (system pkg Command.apply)) s as = some t)
    (within : t.now < s.now + 1000 * dedupTTL)
    (returned : ∀ call ∈ t.calls, (call.op.proposes clientMsgID).isSome = true →
      ∃ res, call.answer = some (.ok (.check res)))
    (asked : ∃ call ∈ t.calls, (call.op.proposes clientMsgID).isSome = true) :
    ∃ (i : Nat) (call : Call Op Reply (Outcome Answer)) (seqHint : Int) (res : DedupRateResult),
      t.calls[i]? = some call ∧ call.op.proposes clientMsgID = some seqHint ∧
      call.answer = some (.ok (.check res)) ∧ res.dedupExists = false ∧
      ∀ j call', j ≠ i → t.calls[j]? = some call' → (call'.op.proposes clientMsgID).isSome = true →
        ∃ res', call'.answer = some (.ok (.check res')) ∧ res'.dedupExists = true ∧ res'.dedupMsgID = seqHint := by
  obtain ⟨n, marked, linear, single, entry⟩ := checks_marked idle holds given absent texts exact proper taken within
  have once := single unsent
  have answers : ∀ {j call}, t.calls[j]? = some call → (call.op.proposes clientMsgID).isSome = true →
      ∃ seqHint res, call.answer = some (.ok (.check res)) ∧
        (j, seqHint, res) ∈ n.log.filterMap (checked clientMsgID) := by
    intro j call found proposes
    obtain ⟨seqHint, proposed⟩ := Option.isSome_iff_exists.mp proposes
    obtain ⟨res, answer⟩ := returned call (List.mem_of_getElem? found) proposes
    exact ⟨seqHint, res, answer, entry j call seqHint res found proposed answer⟩
  have whole := marked
  cases marked with
  | fresh unchecked _ =>
    obtain ⟨call, member, proposes⟩ := asked
    obtain ⟨j, found⟩ := List.getElem?_of_mem member
    obtain ⟨_, _, _, listed⟩ := answers found proposes
    rw [unchecked] at listed
    contradiction
  | marked i seqHint rateAllowed rest deadline _ _ log _ _ =>
    have first : (i, seqHint, ⟨false, 0, rateAllowed⟩) ∈ n.log.filterMap (checked clientMsgID) := by
      rw [log]
      exact List.mem_cons_self
    obtain ⟨⟨call, found, proposes⟩, same⟩ := checked_once linear once first
    obtain ⟨seqHint', res, answer, listed⟩ := answers found (Option.isSome_iff_exists.mpr ⟨seqHint, proposes⟩)
    cases same seqHint' res listed
    refine ⟨i, call, seqHint, _, found, proposes, answer, rfl, ?_⟩
    intro j call' other found' proposes'
    obtain ⟨hint, res', answer', listed'⟩ := answers found' proposes'
    exact ⟨res', answer', whole.others other.symm first listed' rfl⟩

theorem id_new_exactly_once_racing : ∃ t,
    run (step (system decimalPackages Command.apply)) empty racingChecks = some t ∧ t.calls.length = 2 ∧
    ∃ (i : Nat) (call : Call Op Reply (Outcome Answer)) (seqHint : Int) (res : DedupRateResult),
      t.calls[i]? = some call ∧ call.op.proposes "k" = some seqHint ∧
      call.answer = some (.ok (.check res)) ∧ res.dedupExists = false ∧
      ∀ j call', j ≠ i → t.calls[j]? = some call' → (call'.op.proposes "k").isSome = true →
        ∃ res', call'.answer = some (.ok (.check res')) ∧ res'.dedupExists = true ∧ res'.dedupMsgID = seqHint := by
  obtain ⟨t, first, second, taken, clock, calls, proposes, _, answer, answer'⟩ := racingChecks_run
  refine ⟨t, taken, by rw [calls]; rfl, ?_⟩
  refine id_new_exactly_once rfl nothing_counted (by decide) rfl (fun op listed => (racingChecks_started op listed).1)
    (fun op listed => (racingChecks_started op listed).2.1) (fun op listed => (racingChecks_started op listed).2.2)
    ?_ taken ?_ ?_ ?_
  · intro i
    simp [racingChecks]
  · rw [clock]
    decide
  · rw [calls]
    intro call member _
    rcases List.mem_pair.mp member with rfl | rfl
    · exact ⟨_, answer⟩
    · exact ⟨_, answer'⟩
  · rw [calls]
    exact ⟨first, List.mem_cons_self, by rw [proposes]; rfl⟩

/- A check whose reply is lost and which is sent again. -/
def resentCheck (clientMsgID : String) (uid rateLimit seqHint : Int) : List Action :=
  [.start (.dedupAndRateCheck (utf8 clientMsgID) uid rateLimit seqHint), .serve 0, .resend 0, .serve 0, .answer 0]

/-- The script is not to be sent twice: the call is told that its own number is that of an earlier
message. -/
theorem resent_check_exists {s : State (Option Cell)} {r : Redis} (idle : s.calls = [])
    (holds : Counters s.store r) (given : clientMsgID ≠ "")
    (absent : r.get s.now (Store.keyDedup clientMsgID) = none) {uid : Int}
    (room : ¬ Overflows (rateCount r s.now uid) 1) (rateLimit : Int) {seqHint : Int} (positive : 0 < seqHint)
    (exact : IsExact seqHint) : ∃ t call,
      run (step (system pkg Command.apply)) s (resentCheck clientMsgID uid rateLimit seqHint) = some t ∧
      t.calls = [call] ∧ call.answer = some (.ok (.check ⟨true, seqHint, decide (0 ≤ rateLimit)⟩)) := by
  obtain ⟨script, batch, acts⟩ :=
    (CounterOp.dedupAndRateCheck clientMsgID uid rateLimit seqHint).refines pkg exact
  obtain ⟨_, acted, _⟩ := CounterOp.act_check pkg.lua s.now r uid clientMsgID rateLimit seqHint
  obtain ⟨_, marked⟩ := acts s.now s.store r holds
  have written := check_miss_dedup r s.now clientMsgID uid rateLimit seqHint absent room
  rw [if_pos ⟨given, positive⟩] at written
  have hit : Redis.get _ s.now (Store.keyDedup clientMsgID) = some seqHint := Redis.get_held written (by simp [dedupTTL])
  simp only [acted] at marked
  obtain ⟨again, _⟩ := acts s.now _ _ marked
  simp only [CounterOp.act, Store.dedupRateScript, hit, checkAnswer, orRefused, Except.map,
    pkg.lua.int_exact 0 (by decide), if_pos (Int.le_of_lt positive)] at again
  have single : ((system pkg Command.apply).request
      (.dedupAndRateCheck (utf8 clientMsgID) uid rateLimit seqHint)).batch = [script] := batch
  exact ⟨_, _, run_resent single idle rfl rfl, rfl, congrArg some again⟩

end Marks

end GameIM.Store.RedisStore
