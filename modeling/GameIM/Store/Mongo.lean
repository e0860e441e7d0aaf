import Mathlib.Data.List.Sort
import GameIM.Api.Types

/-! The documents of MongoDB and the queries over them. A collection is the list
of its documents in insertion order. -/
namespace GameIM.Store
open GameIM.Api

structure MessageDoc where
  msgID : Int
  channelID : String
  channelType : Int
  senderID : Int
  senderName : String
  content : Bytes
  msgType : Int
  msgParam : List String
  sendTime : Int
  createdAt : Nat
  deriving DecidableEq, Repr

structure OfflineMessageDoc where
  uid : Int
  msgID : Int
  channelID : String
  payload : Bytes
  createdAt : Nat
  deriving DecidableEq, Repr

/-- Find with the filter channel_id = channelID, msg_id > lastMsgID, sorted by msg_id
upwards. A limit of 0 is no limit. -/
def queryMessages (messages : List MessageDoc) (channelID : String) (lastMsgID : Int) (limit : Nat) :
    List MessageDoc :=
  let found := (messages.filter fun d => d.channelID = channelID ∧ lastMsgID < d.msgID).insertionSort
    fun a b => a.msgID ≤ b.msgID
  if limit = 0 then found else found.take limit

/- The unique index of im_messages. -/
def sameKey (d e : MessageDoc) : Bool := d.channelID = e.channelID ∧ d.msgID = e.msgID

/- A document that the index refuses is left out, and is no error. -/
def insertDoc (messages : List MessageDoc) (d : MessageDoc) : List MessageDoc :=
  if messages.any (sameKey d) then messages else messages ++ [d]

/-- InsertMany, unordered: each document is inserted on its own. The documents in `lost` are
those whose insertion failed for another reason, as in a write that was interrupted. -/
def insertMessages (messages docs lost : List MessageDoc) : List MessageDoc :=
  (docs.filter (· ∉ lost)).foldl insertDoc messages

inductive WriteOutcome where
  | inserted
  | duplicateKey
  | failed
  deriving DecidableEq, Repr

/- A document of a batch, and whether its insertion fails for a reason of its own. A batch
stands in the order in which the server takes it. -/
structure Attempt where
  doc : MessageDoc
  fails : Bool
  deriving DecidableEq, Repr

def attemptInsert (messages : List MessageDoc) (a : Attempt) : List MessageDoc × WriteOutcome :=
  if a.fails then (messages, .failed)
  else if messages.any (sameKey a.doc) then (messages, .duplicateKey)
  else (messages ++ [a.doc], .inserted)

def insertMany (messages : List MessageDoc) : List Attempt → List MessageDoc × List WriteOutcome
  | [] => (messages, [])
  | a :: more =>
    let here := attemptInsert messages a
    let rest := insertMany here.1 more
    (rest.1, here.2 :: rest.2)

/- The BulkWriteException, if any document has a write error. -/
def bulkError (outcomes : List WriteOutcome) : Option (List WriteOutcome) :=
  if outcomes.all (· = .inserted) then none else some outcomes

def isDuplicateKeyError (err : List WriteOutcome) : Bool := err.any (· = .duplicateKey)

/-- InsertMessages with the error that it returns. -/
def insertMessagesErr (messages : List MessageDoc) (batch : List Attempt) :
    List MessageDoc × Option (List WriteOutcome) :=
  if batch.length = 0 then (messages, none)
  else
    let result := insertMany messages batch
    match bulkError result.2 with
    | none => (result.1, none)
    | some err => if !isDuplicateKeyError err then (result.1, some err) else (result.1, none)

/-- The key of the document is in the collection. -/
def stored (messages : List MessageDoc) (d : MessageDoc) : Bool := messages.any (sameKey d)

/- Some document that does not fail finds its key taken, in the collection or by a document
of the batch that was taken before it. -/
def clashes (messages : List MessageDoc) : List Attempt → Bool
  | [] => false
  | a :: more =>
    (!a.fails && stored messages a.doc) || (!a.fails && more.any fun b => !b.fails && sameKey a.doc b.doc) ||
      clashes messages more

/- Every document that fails has its key in the collection, or shares it with a document of
the batch that does not fail. -/
def covered (messages : List MessageDoc) (batch : List Attempt) : Bool :=
  batch.all fun a => !a.fails || stored messages a.doc ||
    batch.any fun b => !b.fails && sameKey a.doc b.doc

section Insert

variable {messages : List MessageDoc} {a : Attempt} {batch : List Attempt} {d e f : MessageDoc}

theorem sameKey_comm (d e : MessageDoc) : sameKey d e = sameKey e d := by
  simp only [sameKey, eq_comm]

theorem sameKey_congr (same : sameKey d e = true) (f : MessageDoc) : sameKey d f = sameKey e f := by
  simp only [sameKey, decide_eq_true_eq] at same
  simp only [sameKey, same.1, same.2]

theorem stored_congr (same : sameKey d e = true) : stored messages d = stored messages e := by
  unfold stored
  congr 1
  funext f
  exact sameKey_congr same f

theorem attemptInsert_collection (messages : List MessageDoc) (a : Attempt) :
    (attemptInsert messages a).1 = if a.fails then messages else insertDoc messages a.doc := by
  unfold attemptInsert insertDoc
  split
  · rfl
  · split
    · rfl
    · rfl

theorem stored_insertDoc (messages : List MessageDoc) (d e : MessageDoc) :
    stored (insertDoc messages d) e = (stored messages e || sameKey e d) := by
  unfold insertDoc
  split
  · rename_i taken
    by_cases same : sameKey e d = true
    · have here : stored messages e = true := by rwa [stored_congr same]
      rw [here, Bool.true_or]
    · rw [Bool.eq_false_of_not_eq_true same, Bool.or_false]
  · simp [stored]

theorem stored_attemptInsert (messages : List MessageDoc) (a : Attempt) (e : MessageDoc) :
    stored (attemptInsert messages a).1 e = (stored messages e || (!a.fails && sameKey e a.doc)) := by
  rw [attemptInsert_collection]
  cases fails : a.fails with
  | true => simp
  | false => simp [stored_insertDoc]

theorem stored_insertMany (messages : List MessageDoc) (batch : List Attempt) (e : MessageDoc) :
    stored (insertMany messages batch).1 e =
      (stored messages e || batch.any fun b => !b.fails && sameKey e b.doc) := by
  induction batch generalizing messages with
  | nil => simp [insertMany]
  | cons a more ih => simp only [insertMany, ih, stored_attemptInsert, List.any_cons, Bool.or_assoc]

theorem insertMany_collection (messages docs lost : List MessageDoc) :
    (insertMany messages (docs.map fun d => ⟨d, decide (d ∈ lost)⟩)).1 =
      insertMessages messages docs lost := by
  unfold insertMessages
  induction docs generalizing messages with
  | nil => rfl
  | cons d more ih =>
    simp only [List.map_cons, insertMany, ih, attemptInsert_collection, decide_eq_true_eq]
    by_cases gone : d ∈ lost
    · simp [gone]
    · simp [gone]

theorem clashes_attemptInsert (messages : List MessageDoc) (a : Attempt) (batch : List Attempt) :
    clashes (attemptInsert messages a).1 batch =
      ((!a.fails && batch.any fun b => !b.fails && sameKey a.doc b.doc) || clashes messages batch) := by
  induction batch with
  | nil => simp [clashes]
  | cons b more ih =>
    simp only [clashes, ih, stored_attemptInsert, sameKey_comm b.doc a.doc, List.any_cons]
    cases a.fails with
    | true => simp
    | false =>
      cases b.fails with
      | true => simp
      | false =>
        simp only [Bool.not_false, Bool.true_and]
        ac_rfl

theorem duplicate_iff_clashes (messages : List MessageDoc) (batch : List Attempt) :
    isDuplicateKeyError (insertMany messages batch).2 = clashes messages batch := by
  unfold isDuplicateKeyError
  induction batch generalizing messages with
  | nil => rfl
  | cons a more ih =>
    have here : decide ((attemptInsert messages a).2 = .duplicateKey) =
        (!a.fails && stored messages a.doc) := by
      unfold attemptInsert stored
      cases a.fails with
      | true => rfl
      | false => cases messages.any (sameKey a.doc) <;> rfl
    simp only [insertMany, List.any_cons, ih, here, clashes_attemptInsert, clashes, Bool.or_assoc]

theorem failed_iff_fails (messages : List MessageDoc) (batch : List Attempt) :
    ((insertMany messages batch).2.any (· = .failed)) = batch.any Attempt.fails := by
  induction batch generalizing messages with
  | nil => rfl
  | cons a more ih =>
    have here : decide ((attemptInsert messages a).2 = .failed) = a.fails := by
      unfold attemptInsert
      cases a.fails with
      | true => rfl
      | false => cases messages.any (sameKey a.doc) <;> rfl
    simp only [insertMany, List.any_cons, ih, here]

theorem all_inserted (outcomes : List WriteOutcome) :
    outcomes.all (· = .inserted) = (!isDuplicateKeyError outcomes && !outcomes.any (· = .failed)) := by
  unfold isDuplicateKeyError
  induction outcomes with
  | nil => rfl
  | cons o more ih =>
    simp only [List.all_cons, List.any_cons, ih]
    cases o <;> simp

theorem insertMessagesErr_collection (messages : List MessageDoc) (batch : List Attempt) :
    (insertMessagesErr messages batch).1 = (insertMany messages batch).1 := by
  unfold insertMessagesErr
  split
  · rename_i empty
    rw [List.length_eq_zero_iff.mp empty]
    rfl
  · dsimp only
    split
    · rfl
    · split <;> rfl

theorem insertMessagesErr_insertMessages (messages docs lost : List MessageDoc) :
    (insertMessagesErr messages (docs.map fun d => ⟨d, decide (d ∈ lost)⟩)).1 =
      insertMessages messages docs lost := by
  rw [insertMessagesErr_collection, insertMany_collection]

/- One duplicate is enough to silence every other error. -/
theorem insertMessagesErr_nil (messages : List MessageDoc) (batch : List Attempt) :
    (insertMessagesErr messages batch).2 = none ↔
      clashes messages batch = true ∨ ∀ a ∈ batch, a.fails = false := by
  have noFailure : (batch.any Attempt.fails = false) ↔ ∀ a ∈ batch, a.fails = false := by simp
  rw [← noFailure]
  cases batch with
  | nil => simp [insertMessagesErr]
  | cons a more =>
    simp only [insertMessagesErr, List.length_cons, Nat.succ_ne_zero, if_false, bulkError,
      all_inserted, duplicate_iff_clashes, failed_iff_fails]
    cases clash : clashes messages (a :: more) with
    | true => simp [duplicate_iff_clashes, clash]
    | false =>
      cases failure : (a :: more).any Attempt.fails with
      | true => simp [duplicate_iff_clashes, clash]
      | false => simp

theorem stored_all_iff (messages : List MessageDoc) (batch : List Attempt) :
    (∀ a ∈ batch, stored (insertMessagesErr messages batch).1 a.doc = true) ↔
      covered messages batch = true := by
  simp only [insertMessagesErr_collection, stored_insertMany, covered, List.all_eq_true]
  constructor
  · intro held a ha
    have here := held a ha
    rw [Bool.or_assoc, here, Bool.or_true]
  · intro cover a ha
    have here := cover a ha
    cases fails : a.fails with
    | true => simpa [fails] using here
    | false =>
      have own : sameKey a.doc a.doc = true := by simp [sameKey]
      have inserted : (batch.any fun b => !b.fails && sameKey a.doc b.doc) = true :=
        List.any_eq_true.mpr ⟨a, ha, by simp [fails, own]⟩
      rw [inserted, Bool.or_true]

end Insert

/-- A nil error means that the whole batch is stored, exactly if no batch has at once a
document that is refused as a duplicate and one that failed and is nowhere else. -/
theorem insertMessages_nil_stored_iff (messages : List MessageDoc) (batch : List Attempt) :
    ((insertMessagesErr messages batch).2 = none →
      ∀ a ∈ batch, stored (insertMessagesErr messages batch).1 a.doc = true) ↔
    (clashes messages batch = true → covered messages batch = true) := by
  rw [stored_all_iff, insertMessagesErr_nil]
  constructor
  · intro honest clash
    exact honest (Or.inl clash)
  · intro safe silent
    rcases silent with clash | whole
    · exact safe clash
    · exact List.all_eq_true.mpr fun a ha => by simp [whole a ha]

def docAt (channelID : String) (msgID : Int) : MessageDoc :=
  ⟨msgID, channelID, 2, 100, "", [], 1, [], 0, 0⟩

/-- The first document is a retry of one that is there; the second one fails, is not stored,
and the result is nil. -/
theorem insertMessages_hides_failure :
    ¬ ((insertMessagesErr [docAt "ch" 1] [⟨docAt "ch" 1, false⟩, ⟨docAt "ch" 2, true⟩]).2 = none →
      ∀ a ∈ [Attempt.mk (docAt "ch" 1) false, ⟨docAt "ch" 2, true⟩],
        stored (insertMessagesErr [docAt "ch" 1]
          [⟨docAt "ch" 1, false⟩, ⟨docAt "ch" 2, true⟩]).1 a.doc = true) := by
  decide

end GameIM.Store
