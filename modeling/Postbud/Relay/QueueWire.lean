import Mathlib.Data.Char
import Mathlib.Data.List.Lex
import Mathlib.Data.List.Sort
import Postbud.Lib.JsonValue
import Postbud.Relay.QueueReport

namespace Postbud

open Lib Lib.Text Lib.Json RelayQueue

/-! The objects of a queue report, as one side writes them and the other reads
them. The forms that are read are those of the derived `Deserialize`. -/

def readReason : Option Value → Option (Option Text)
  | none | some .null => some none
  | some (.string reason) => some (some reason)
  | some _ => none

def RawRecipient.ofValue : Value → Option RawRecipient
  | .object fields => (readReason (fields.lookup "delay_reason".toList)).map .mk
  | .array [] => some {}
  | .array [v] => (readReason (some v)).map .mk
  | _ => none

def readText : Option Value → Option Text
  | some (.string t) => some t
  | _ => none

def readRecipients : Option Value → Option (List RawRecipient)
  | none => some []
  | some (.array items) => items.mapM RawRecipient.ofValue
  | some _ => none

def RawEntry.ofValue : Value → Option RawEntry
  | .object fields => do
    let queueId ← readText (fields.lookup "queue_id".toList)
    let queueName ← readText (fields.lookup "queue_name".toList)
    let recipients ← readRecipients (fields.lookup "recipients".toList)
    some { queueId, queueName, recipients }
  | .array [queueId, queueName] => do
    some { queueId := ← readText (some queueId), queueName := ← readText (some queueName) }
  | .array [queueId, queueName, recipients] => do
    some ⟨← readText (some queueId), ← readText (some queueName), ← readRecipients (some recipients)⟩
  | _ => none

/-- The two directions of `serde_json`: the text of a document, and reading a
text as an entry. -/
class SerdeText where
  print : Value → Text
  fromStr : Text → Option RawEntry

/-- What is relied on of `serde_json`: the text of a document is read as the
document is, and is one line that starts and ends as an object does. -/
class LawfulSerdeText [SerdeText] : Prop where
  fromStr_print {v : Value} (h : v.OfTexts) : SerdeText.fromStr (SerdeText.print v) = RawEntry.ofValue v
  oneLine {v : Value} (h : v.OfTexts) : '\n' ∉ SerdeText.print v
  braces {fields : List (Text × Value)} (h : (Value.object fields).OfTexts) :
    ∃ t, SerdeText.print (.object fields) = '\x7b' :: t ++ ['\x7d']

/-- `json!`: an object keeps its keys in order. -/
def object (fields : List (Text × Value)) : Value :=
  .object (fields.insertionSort fun f g ↦ f.1 ≤ g.1)

def RawRecipient.value (r : RawRecipient) : Value :=
  match r.delayReason with
  | some reason => object [("delay_reason".toList, .string reason)]
  | none => object []

def RawEntry.value (e : RawEntry) : Value :=
  object [("queue_name".toList, .string e.queueName), ("queue_id".toList, .string e.queueId),
    ("recipients".toList, .array (e.recipients.map RawRecipient.value))]

section Values

theorem object_swap {a b c : Text} (h₁ : ¬ b ≤ a) (h₂ : a ≤ c) (h₃ : b ≤ c) (x y z : Value) :
    object [(b, x), (a, y), (c, z)] = .object [(a, y), (b, x), (c, z)] := by
  simp only [object, List.insertionSort_cons, List.insertionSort_nil, List.orderedInsert, h₁, h₂, h₃,
    if_true, if_false]

theorem RawEntry.value_eq (e : RawEntry) : e.value = .object [("queue_id".toList, .string e.queueId),
    ("queue_name".toList, .string e.queueName),
    ("recipients".toList, .array (e.recipients.map RawRecipient.value))] :=
  object_swap (by decide) (by decide) (by decide) _ _ _

theorem RawRecipient.ofTexts_value (r : RawRecipient) : r.value.OfTexts := by
  obtain ⟨reason⟩ := r
  cases reason with
  | none => exact .object .nil fun f hf ↦ absurd hf List.not_mem_nil
  | some reason =>
    refine .object (List.pairwise_singleton _ _) fun f hf ↦ ?_
    rw [List.mem_singleton.mp hf]
    exact .string reason

theorem RawEntry.ofTexts_value (e : RawEntry) : e.value.OfTexts := by
  rw [value_eq]
  have hkeys : ["queue_id".toList, "queue_name".toList, "recipients".toList].Pairwise (· < ·) := by
    decide
  refine .object (List.pairwise_map.mp hkeys) fun f hf ↦ ?_
  simp only [List.mem_cons, List.not_mem_nil, or_false] at hf
  rcases hf with rfl | rfl | rfl
  · exact .string _
  · exact .string _
  · refine .array fun v hv ↦ ?_
    obtain ⟨r, -, rfl⟩ := List.mem_map.mp hv
    exact r.ofTexts_value

theorem RawRecipient.ofValue_value (r : RawRecipient) : ofValue r.value = some r := by
  obtain ⟨reason⟩ := r
  cases reason <;> rfl

theorem RawEntry.ofValue_value (e : RawEntry) : ofValue e.value = some e := by
  have hrecipients : (e.recipients.map RawRecipient.value).mapM RawRecipient.ofValue =
      some e.recipients := by
    rw [List.mapM_map]
    induction e.recipients with
    | nil => rfl
    | cons r recipients ih => rw [List.mapM_cons, Function.comp_apply, RawRecipient.ofValue_value, ih]; rfl
  rw [value_eq]
  change (readRecipients (some (.array (e.recipients.map RawRecipient.value)))).bind _ = _
  rw [readRecipients, hrecipients]
  rfl

end Values

namespace QueueReport

/-- What one side prints and the other reads. -/
@[reducible] def serdeJson [SerdeText] : SerdeJson where
  fromStr := SerdeText.fromStr
  toText e := SerdeText.print e.value

theorem serdeJson_lawful [SerdeText] [LawfulSerdeText] : @LawfulSerdeJson serdeJson := by
  let _ := serdeJson
  refine ⟨fun e ↦ ?_, fun e ↦ LawfulSerdeText.oneLine e.ofTexts_value, fun e ↦ ?_⟩
  · exact (LawfulSerdeText.fromStr_print e.ofTexts_value).trans e.ofValue_value
  · change ∃ t, SerdeText.print e.value = _
    have hobject := e.ofTexts_value
    rw [e.value_eq] at hobject ⊢
    exact LawfulSerdeText.braces hobject

attribute [local instance] serdeJson

theorem ofRaw_trimmed {e : Queued} (htrimmed : Showq.Trimmed e.reason) (hne : e.reason ≠ some []) :
    Queued.ofRaw ⟨e.queueId, e.queueName, [⟨e.reason⟩]⟩ = e := by
  obtain ⟨queueId, queueName, reason⟩ := e
  cases reason with
  | none => rfl
  | some reason =>
    have hreason : trim reason = reason := htrimmed reason rfl
    have hnil : reason ≠ [] := fun h ↦ hne (congrArg some h)
    simp only [Queued.ofRaw, List.findSome?_cons, Option.map_some, hreason,
      Option.filter_some, decide_eq_true hnil, if_true]

/-- The endpoint reads of a report just what the reporter read of the queue. -/
theorem parse_asNdjson [SerdeText] [LawfulSerdeText] (bytes : Bytes) :
    RelayQueue.parse (asNdjson (Showq.parse bytes)) = Showq.parse bytes := by
  have := serdeJson_lawful
  rw [parse_asNdjson_map]
  conv_rhs => rw [← List.map_id (Showq.parse bytes)]
  refine List.map_congr_left fun e he ↦ ?_
  obtain ⟨htrimmed, hne⟩ := Showq.trimmed_of_mem_parse he
  exact ofRaw_trimmed htrimmed hne

/-- Documents printed without a space, and read in that form. -/
@[reducible] def compactText : SerdeText where
  print := Value.text
  fromStr t := (readDocument t).bind RawEntry.ofValue

theorem compactText_lawful : @LawfulSerdeText compactText := by
  let _ := compactText
  refine ⟨fun {v} h ↦ ?_, fun h ↦ newline_not_mem_text h, fun {fields} _ ↦ ?_⟩
  · change (readDocument v.text).bind RawEntry.ofValue = _
    rw [readDocument_text h]
    rfl
  · obtain ⟨t, ht⟩ := fieldsText_ends fields
    refine ⟨t, ?_⟩
    change '\x7b' :: fieldsText fields = _
    rw [ht]
    rfl

/-- A reason with quotes, a backslash, a line break and a byte that is no text. -/
def quotedQueue : Bytes :=
  utf8 "queue_name\x00deferred\x00queue_id\x003F37\x00reason\x00said \"4\\7\"\n".toList ++
    0xFF :: utf8 "!\x00\x00".toList

theorem parse_asNdjson_quoted :
    @RelayQueue.parse (@serdeJson compactText) (@asNdjson (@serdeJson compactText)
      (Showq.parse quotedQueue)) =
    [⟨"3F37".toList, "deferred".toList, some "said \"4\\7\"\n\uFFFD!".toList⟩] := by
  rw [@parse_asNdjson compactText compactText_lawful quotedQueue]
  decide +kernel

end QueueReport

end Postbud
