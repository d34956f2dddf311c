import Postbud.Lib.Text

namespace Postbud

open Lib Lib.Text

structure Queued where
  queueId : Text
  queueName : Text
  reason : Option Text
  deriving DecidableEq

structure RawRecipient where
  delayReason : Option Text := none
  deriving DecidableEq

structure RawEntry where
  queueId : Text
  queueName : Text
  recipients : List RawRecipient := []
  deriving DecidableEq

/-- The two directions of `serde_json` that meet in a queue report: reading a
line, and writing the object of one entry. -/
class SerdeJson where
  fromStr : Text → Option RawEntry
  toText : RawEntry → Text

/-- What is relied on of `serde_json`: an entry reads back as it was written,
and its text is one line that starts and ends with a brace. -/
class LawfulSerdeJson [SerdeJson] : Prop where
  fromStr_toText : ∀ e, SerdeJson.fromStr (SerdeJson.toText e) = some e
  oneLine : ∀ e, '\n' ∉ SerdeJson.toText e
  braces : ∀ e, ∃ t, SerdeJson.toText e = '{' :: t ++ ['}']

namespace RelayQueue

def Queued.ofRaw (e : RawEntry) : Queued where
  queueId := e.queueId
  queueName := e.queueName
  reason := ((e.recipients.findSome? (·.delayReason)).map trim).filter (· ≠ [])

variable [SerdeJson]

/-- Parse `postqueue -j` output: a line that cannot be read is skipped. -/
def parse (raw : Text) : List Queued :=
  ((lines raw).filter fun l ↦ trim l ≠ []).filterMap fun l ↦ (SerdeJson.fromStr l).map Queued.ofRaw

theorem parse_lines [LawfulSerdeJson] (entries : List RawEntry) :
    parse (entries.flatMap fun e ↦ SerdeJson.toText e ++ ['\n']) = entries.map Queued.ofRaw := by
  induction entries with
  | nil => rfl
  | cons e entries ih =>
    obtain ⟨t, ht⟩ := LawfulSerdeJson.braces e
    have hcr : dropCr (SerdeJson.toText e) = SerdeJson.toText e :=
      dropCr_of_ne (by rw [ht, List.getLast?_concat]; decide)
    have hline : trim (SerdeJson.toText e) ≠ [] := by
      have hopen : isWhitespace '{' = false := rfl
      have hclose : ¬ isWhitespace '}' := by decide
      rw [ht, trim, List.cons_append, List.dropWhile_cons, hopen, if_neg Bool.false_ne_true,
        ← List.cons_append, List.rdropWhile_concat_neg _ _ _ hclose]
      exact List.cons_ne_nil _ _
    have hsplit : lines (SerdeJson.toText e ++ ['\n'] ++
        entries.flatMap fun e ↦ SerdeJson.toText e ++ ['\n']) =
        SerdeJson.toText e :: lines (entries.flatMap fun e ↦ SerdeJson.toText e ++ ['\n']) := by
      rw [List.append_assoc, List.singleton_append, lines_append,
        List.splitOn_eq_singleton (LawfulSerdeJson.oneLine e), List.map_singleton, hcr,
        List.singleton_append]
    rw [List.flatMap_cons, List.map_cons, ← ih]
    simp only [parse, hsplit, List.filter_cons, hline, ne_eq, not_false_eq_true, decide_true,
      if_true, List.filterMap_cons, LawfulSerdeJson.fromStr_toText, Option.map_some]

end RelayQueue

end Postbud
