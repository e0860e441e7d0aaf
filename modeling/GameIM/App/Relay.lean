import GameIM.Api.Unmarshal
import GameIM.Gateway.Handlers
import GameIM.Service.FilterMask
import GameIM.Service.SendMsg

/-! A message on its way from the bytes of one client to those of the others: SendMsgReq is
unmarshalled, the content filtered, the message built and marshalled for the pushes and for the
cache. -/
namespace GameIM.App.Relay
open Lib Lib.Text Api Service Service.Filter
open Gateway.Handlers (serviceReq senderOf)

section Filtered

variable {lower : Char → Char}

theorem masked_ne_nil {text word : List Char} (nonempty : word ≠ []) (content : text ≠ []) :
    masked lower text word ≠ [] := by
  have filled : List.replicate (encode word).length '*' ≠ [] := by
    simpa [encode_eq_nil] using nonempty
  rw [masked, mask_index nonempty]
  cases index word (text.map lower) with
  | none => exact content
  | some k => simp [filled]

theorem maskWords_ne_nil {words : List Bytes} (nonempty : ∀ w ∈ words, w ≠ []) {text : List Char}
    (content : text ≠ []) : maskWords lower words text ≠ [] := by
  unfold maskWords
  induction words generalizing text with
  | nil => exact content
  | cons word rest ih =>
    exact ih (fun w member => nonempty w (List.mem_cons_of_mem word member))
      (masked_ne_nil (wordRunes_ne_nil lower (nonempty word List.mem_cons_self)) content)

theorem wordsRunes_ne_nil {words : List Bytes} (nonempty : ∀ w ∈ words, w ≠ []) :
    ∀ w ∈ words.map (wordRunes lower), w ≠ [] := by
  intro w member
  obtain ⟨word, given, rfl⟩ := List.mem_map.mp member
  exact wordRunes_ne_nil lower (nonempty word given)

theorem check_kept (idempotent : ∀ c, lower (lower c) = lower c) (star : lower '*' = '*') {words : List Bytes}
    (nonempty : ∀ w ∈ words, w ≠ []) {text : List Char} (kept : ∀ c ∈ text, (lower c).utf8Size = c.utf8Size)
    (uid : Int) : (newDirtyWordFilter lower words).check lower uid (encode text) =
      .ok ⟨true, "", encode (maskWords lower words text)⟩ := by
  have lowered : ∀ w ∈ words.map (wordRunes lower), w.map lower = w := by
    intro w member
    obtain ⟨word, _, rfl⟩ := List.mem_map.mp member
    simp [wordRunes, Function.comp_def, idempotent]
  have taken := run_masked (wordsRunes_ne_nil nonempty) lowered (alignedInTurn_of_size star kept words)
  rw [List.map_map, show encode ∘ wordRunes lower = toLower lower from rfl] at taken
  exact check_eq_ok_iff.mpr ⟨_, checkWords_ok_iff.mpr taken, rfl⟩

theorem maskWords_clean (star : ∀ c, lower c = '*' ↔ c = '*') {words : List Bytes} (nonempty : ∀ w ∈ words, w ≠ [])
    {w : Bytes} (member : w ∈ words) (starless : '*' ∉ runes w) (text : List Char) :
    contains (toLower lower (encode (maskWords lower words text))) (toLower lower w) = false := by
  have lowered : '*' ∉ wordRunes lower w := by
    intro found
    obtain ⟨c, given, asterisk⟩ := List.mem_map.mp found
    exact starless ((star c).mp asterisk ▸ given)
  have here := wordRunes_ne_nil lower (nonempty w member)
  have clean := foldl_masked_clean ((star '*').mpr rfl) (wordsRunes_ne_nil nonempty) here lowered text
    (.inl (List.mem_map_of_mem member))
  rw [Bool.eq_false_iff]
  exact mt (contains_encode_iff here).mp clean

end Filtered

theorem precheck_ok {cfg : Config} {caches after : Caches} {now : Nat} {uid : Int} {req : SendMsgReq} {content : Bytes}
    (passed : precheck cfg caches now uid req = (.ok content, after)) :
    content = if (FilterChain.check cfg.filters uid req.content).replace ≠ [] then
      (FilterChain.check cfg.filters uid req.content).replace else req.content := by
  unfold precheck at passed
  split at passed
  · cases (Prod.mk.inj passed).1
  · dsimp only at passed
    split at passed
    · cases (Prod.mk.inj passed).1
    · split at passed
      · cases (Prod.mk.inj passed).1
      · split at passed
        · cases (Prod.mk.inj passed).1
        · exact (Except.ok.inj (Prod.mk.inj passed).1).symm

theorem sendMsg_accepted {cfg : Config} {s : Servers} {c : Call} {msg : ImMessage}
    (accepted : (sendMsg cfg s c).1 = .accepted msg) : ∃ msgID content caches,
      precheck cfg (s.caches c.server) c.now c.uid c.req = (.ok content, caches) ∧
      msg = buildMsg msgID c.sender c.req content c.now := by
  have sent := sendMsg_sent cfg s c
  generalize (sendMsg cfg s c).2 = t at sent
  rw [accepted] at sent
  generalize outcome : Outcome.accepted msg = o at sent
  cases sent with
  | @accepted content msgID t _ numbered _ _ _ =>
    obtain ⟨caches, passed, _⟩ := numbered
    exact ⟨msgID, content, caches, passed, Outcome.accepted.inj outcome⟩
  | _ => contradiction

/-- The protobuf runtime on the way of a message. Unmarshal takes a string only if it is UTF-8, and
Marshal refuses nothing else. -/
structure Runtime where
  sendMsgReq : Bytes → Option Pb.SendMsgReq
  pushNewMessage : Proto ImMessage
  imMessage : Proto ImMessage
  requested : ∀ data req, sendMsgReq data = some req → req.Good
  pushed : ∀ m : ImMessage, m.Good → ∃ data, pushNewMessage.marshal m = some data
  cached : ∀ m : ImMessage, m.Good → ∃ data, imMessage.marshal m = some data

/-- A client's bytes that are unmarshalled as a SendMsgReq, with a content whose runes keep their
size in lower case: where the filter of internal/app is the chain and the message is accepted, the
members read from the push, and a pull from the cache, the message as it was built, with the
request's fields and its content masked; none of the words is in it. -/
theorem accepted_read_masked (rt : Runtime) {lower : Char → Char} (idempotent : ∀ c, lower (lower c) = lower c)
    (star : ∀ c, lower c = '*' ↔ c = '*') (words : List Bytes) (nonempty : ∀ w ∈ words, w ≠ [])
    (starless : ∀ w ∈ words, '*' ∉ runes w) (cfg : Config) (filter : ContentFilter)
    (same : ∀ uid content result,
      (newDirtyWordFilter lower words).check lower uid content = .ok result → filter uid content = result)
    (chain : cfg.filters = [filter]) (s : Servers) (c : Call) (payload : Bytes) (req : Pb.SendMsgReq)
    (request : rt.sendMsgReq payload = some req) (call : c.req = serviceReq req)
    (caller : c.sender = senderOf c.uid) (kept : ∀ r ∈ runes req.content, (lower r).utf8Size = r.utf8Size)
    (msg : ImMessage) (accepted : (sendMsg cfg s c).1 = .accepted msg) (uid : IsInt64 c.uid) (id : IsInt64 msg.msgId)
    (now : IsInt64 c.now) :
    (∃ push, rt.pushNewMessage.marshal msg = some push ∧ rt.pushNewMessage.unmarshal push = some msg) ∧
    (∃ data, rt.imMessage.marshal msg = some data ∧ rt.imMessage.unmarshal data = some msg) ∧
    msg = ⟨msg.msgId, req.channelId, req.channelType, some { senderId := c.uid },
      encode (maskWords lower words (runes req.content)), req.msgType, req.msgParam, c.now, req.clientMsgId⟩ ∧
    ∀ w ∈ words, contains (toLower lower msg.content) (toLower lower w) = false := by
  obtain ⟨channelType, valid, msgType⟩ := rt.requested payload req request
  obtain ⟨text, bytes⟩ := validUTF8_iff.mp valid
  obtain ⟨msgID, content, caches, passed, rfl⟩ := sendMsg_accepted accepted
  have checked := check_kept idempotent ((star '*').mpr rfl) nonempty
    (by rwa [bytes, runes_encode] at kept) c.uid
  have filtered : content = encode (maskWords lower words text) := by
    have result := filterChain_check same checked
    rw [precheck_ok passed, chain, call, serviceReq, bytes, result]
    by_cases empty : encode (maskWords lower words text) = []
    · have none : text = [] := by
        by_contra content
        exact maskWords_ne_nil nonempty content (encode_eq_nil.mp empty)
      have nothing : encode text = [] := encode_eq_nil.mpr none
      simp [empty, nothing]
    · simp [empty]
  have good : (buildMsg msgID c.sender c.req content c.now).Good := by
    rw [buildMsg, caller, call, senderOf, filtered]
    refine ⟨id, channelType, ?_, validUTF8_iff.mpr ⟨_, rfl⟩, msgType, now⟩
    intro sender sent
    cases Option.mem_some_iff.mp sent
    exact ⟨uid, show IsInt32 0 by decide⟩
  obtain ⟨push, marshalled⟩ := rt.pushed _ good
  obtain ⟨data, stored⟩ := rt.cached _ good
  refine ⟨⟨push, marshalled, rt.pushNewMessage.undoes _ _ marshalled⟩, ⟨data, stored, rt.imMessage.undoes _ _ stored⟩,
    ?_, ?_⟩
  · rw [buildMsg, call, caller, filtered, bytes, runes_encode]
    rfl
  · intro w member
    rw [buildMsg, filtered]
    exact maskWords_clean star nonempty member (starless w member) text

def dirtyFilter : ContentFilter := fun uid content =>
  match (newDirtyWordFilter lowerRune dirtyWords).check lowerRune uid content with
  | .ok result => result
  | .error _ => ⟨false, "", []⟩

def dirtyConfig : Config := { permissive with filters := [dirtyFilter] }

def dirtyReq : Pb.SendMsgReq := ⟨"world", .world, utf8 "Oh DAMN", .text, [], "m-1"⟩

def dirtyCall : Call := ⟨0, 5, 7, senderOf 7, serviceReq dirtyReq, false, .none⟩

theorem dirtyFilter_check (uid : Int) (content : Bytes) (result : FilterResult)
    (checked : (newDirtyWordFilter lowerRune dirtyWords).check lowerRune uid content = .ok result) :
    dirtyFilter uid content = result := by
  rw [dirtyFilter, checked]

def wireRuntime : Runtime where
  sendMsgReq := Pb.sendMsgReq.unmarshal
  pushNewMessage := Pb.pushProto
  imMessage := Pb.imMessageProto
  requested _ _ read := Pb.sendMsgReq_good.mp (Message.unmarshal_good read)
  pushed m good := by
    obtain ⟨data, made, _⟩ := Pb.unmarshal_marshalPushNewMessage good
    exact ⟨data, (if_pos good).trans made⟩
  cached m good := by
    obtain ⟨data, made, _⟩ := Pb.unmarshal_marshalImMessage good
    exact ⟨data, (if_pos good).trans made⟩

theorem dirtyReq_good : dirtyReq.Good := by decide +kernel

theorem dirtyReq_kept : ∀ r ∈ runes dirtyReq.content, (lowerRune r).utf8Size = r.utf8Size := by
  have kept : ((runes dirtyReq.content).all fun r => (lowerRune r).utf8Size == r.utf8Size) = true := by
    decide +kernel
  intro r member
  exact eq_of_beq (List.all_eq_true.mp kept r member)

theorem accepted_read_masked_dirty : ∃ msg, (sendMsg dirtyConfig idleServers dirtyCall).1 = .accepted msg ∧
    msg.content = utf8 "Oh ****" ∧
    ∃ push, Pb.pushProto.marshal msg = some push ∧ Pb.pushProto.unmarshal push = some msg := by
  have accepted : (sendMsg dirtyConfig idleServers dirtyCall).1 =
      .accepted (buildMsg 1 (senderOf 7) (serviceReq dirtyReq) (utf8 "Oh ****") 5) := by decide +kernel
  obtain ⟨data, _, request⟩ := Pb.unmarshal_marshalSendMsgReq dirtyReq_good
  have read := accepted_read_masked wireRuntime lowerRune_idempotent lowerRune_star dirtyWords (by decide +kernel)
    (by decide +kernel) dirtyConfig dirtyFilter dirtyFilter_check rfl idleServers dirtyCall data dirtyReq request rfl
    rfl dirtyReq_kept _ accepted (by decide) (by decide) (by decide)
  exact ⟨_, accepted, rfl, read.1⟩

end GameIM.App.Relay
