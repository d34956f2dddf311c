import Postbud.Core.RelayQueue
import Postbud.Lib.Utf8

namespace Postbud.Showq

open Lib Lib.Text Lib.Utf8

structure Parser where
  out : List Queued := []
  queueId : Option Text := none
  queueName : Option Text := none
  reason : Option Text := none

def Parser.entry (p : Parser) : Option Queued :=
  match p.queueId, p.queueName with
  | some queueId, some queueName => some ⟨queueId, queueName, p.reason.filter (· ≠ [])⟩
  | _, _ => none

def Parser.boundary (p : Parser) : Parser := { out := p.out ++ p.entry.toList }

def Parser.field (p : Parser) (name value : Bytes) : Parser :=
  let value := trim (fromUtf8Lossy value)
  let name := fromUtf8Lossy name
  if name = "queue_id".toList then { p with queueId := some value }
  else if name = "queue_name".toList then { p with queueName := some value }
  else if name = "reason".toList ∧ p.reason.isNone then { p with reason := some value }
  else p

/-- The loop over the fields, which takes a name and its value at a time. -/
def Parser.fields (p : Parser) : List Bytes → List Queued
  | [] => p.out
  | [name] => if name = [] then p.boundary.out else p.out
  | name :: value :: rest =>
    if name = [] then fields p.boundary (value :: rest) else fields (p.field name value) rest

def parse (bytes : Bytes) : List Queued := Parser.fields {} (bytes.splitOn 0)

/-- A name and a value as they go over the socket. -/
structure Pair where
  name : Bytes
  value : Bytes
  named : name ≠ []
  name_nul : 0 ∉ name
  value_nul : 0 ∉ value

abbrev Record := List Pair

def Pair.bytes (p : Pair) : Bytes := p.name ++ 0 :: (p.value ++ [0])

def Record.bytes (r : Record) : Bytes := r.flatMap Pair.bytes ++ [0]

def protocol : Record :=
  [⟨utf8 "protocol".toList, utf8 "mail_queue_list_protocol".toList, by decide, by decide, by decide⟩]

/-- A complete response: the opening record, those of the queue and the end. -/
def response (records : List Record) : Bytes := (protocol :: records).flatMap Record.bytes ++ [0]

def Pair.text (p : Pair) : Text := trim (fromUtf8Lossy p.value)

def Record.values (r : Record) (name : Text) : List Text :=
  (r.filter fun p ↦ fromUtf8Lossy p.name = name).map Pair.text

/-- What a record says of a message in the queue: the last id and name it
gives, and the first reason. -/
def Record.entry (r : Record) : Option Queued :=
  match (r.values "queue_id".toList).getLast?, (r.values "queue_name".toList).getLast? with
  | some queueId, some queueName =>
    some ⟨queueId, queueName, (r.values "reason".toList).head?.filter (· ≠ [])⟩
  | _, _ => none

/-- The pairs of a record that is cut after so many bytes, if it is cut
between two pairs. -/
def Record.cut : Record → ℕ → Option Record
  | _, 0 => some []
  | [], _ + 1 => none
  | p :: r, n + 1 =>
    if n + 1 < p.bytes.length then none
    else (cut r (n + 1 - p.bytes.length)).map (p :: ·)

/-- The records that the first so many bytes hold, whole or cut between two pairs. -/
def received : List Record → ℕ → List Record
  | [], _ => []
  | r :: records, n =>
    if r.bytes.length ≤ n then r :: received records (n - r.bytes.length)
    else (r.cut n).toList

def Parser.take (p : Parser) (q : Pair) : Parser := p.field q.name q.value

theorem Parser.out_field (p : Parser) (name value : Bytes) : (p.field name value).out = p.out := by
  simp only [field]
  split_ifs <;> rfl

/-- A reason is kept without white space around it, and not if it is empty. -/
def Trimmed (reason : Option Text) : Prop := ∀ r ∈ reason, trim r = r

theorem trimmed_fields (p : Parser) (l : List Bytes) (hreason : Trimmed p.reason)
    (hout : ∀ e ∈ p.out, Trimmed e.reason ∧ e.reason ≠ some []) :
    ∀ e ∈ p.fields l, Trimmed e.reason ∧ e.reason ≠ some [] := by
  have hboundary (p : Parser) (hreason : Trimmed p.reason)
      (hout : ∀ e ∈ p.out, Trimmed e.reason ∧ e.reason ≠ some []) :
      ∀ e ∈ p.boundary.out, Trimmed e.reason ∧ e.reason ≠ some [] := by
    intro e he
    rcases List.mem_append.mp he with he | he
    · exact hout e he
    · unfold Parser.entry at he
      split at he
      · obtain rfl := List.mem_singleton.mp he
        refine ⟨fun r hr ↦ hreason r (Option.filter_eq_some_iff.mp hr).1, fun hr ↦ ?_⟩
        exact absurd (Option.filter_eq_some_iff.mp hr).2 (by simp)
      · cases he
  have hfield (p : Parser) (name value : Bytes) (hreason : Trimmed p.reason) :
      Trimmed (p.field name value).reason := by
    unfold Parser.field
    dsimp only
    split_ifs
    · exact hreason
    · exact hreason
    · intro r hr
      obtain rfl := Option.some.inj hr
      exact trim_trim _
    · exact hreason
  fun_induction Parser.fields p l with
  | case1 p => exact hout
  | case2 p => exact hboundary p hreason hout
  | case3 p name h => exact hout
  | case4 p value rest ih => exact ih nofun (hboundary p hreason hout)
  | case5 p name value rest h ih =>
    exact ih (hfield p name value hreason) (by rwa [Parser.out_field])

theorem trimmed_of_mem_parse {bytes : Bytes} {e : Queued} (h : e ∈ parse bytes) :
    Trimmed e.reason ∧ e.reason ≠ some [] :=
  trimmed_fields {} _ nofun nofun e h

section Records

theorem values_cons (q : Pair) (r : Record) (name : Text) : Record.values (q :: r) name =
    if fromUtf8Lossy q.name = name then q.text :: r.values name else r.values name := by
  simp only [Record.values, List.filter_cons, decide_eq_true_eq]
  split_ifs <;> rfl

theorem take_reason {q : Pair} (p : Parser) (h : fromUtf8Lossy q.name = "reason".toList) :
    p.take q = { p with reason := p.reason.or (some q.text) } := by
  have h₁ : fromUtf8Lossy q.name ≠ "queue_id".toList := h ▸ by decide
  have h₂ : fromUtf8Lossy q.name ≠ "queue_name".toList := h ▸ by decide
  obtain ⟨out, queueId, queueName, reason⟩ := p
  simp only [Parser.take, Parser.field, if_neg h₁, if_neg h₂]
  cases reason with
  | none => exact if_pos ⟨h, rfl⟩
  | some reason => exact if_neg fun hr ↦ Bool.false_ne_true hr.2

theorem foldl_take (r : Record) (p : Parser) : r.foldl Parser.take p =
    { out := p.out
      queueId := (r.values "queue_id".toList).getLast?.or p.queueId
      queueName := (r.values "queue_name".toList).getLast?.or p.queueName
      reason := p.reason.or (r.values "reason".toList).head? } := by
  induction r generalizing p with
  | nil =>
    obtain ⟨out, queueId, queueName, reason⟩ := p
    cases reason <;> rfl
  | cons q r ih =>
    have hlast (l : List Text) (t : Text) (o : Option Text) :
        l.getLast?.or (some t) = (t :: l).getLast?.or o := by
      rw [List.getLast?_cons]
      cases l.getLast? <;> rfl
    rw [List.foldl_cons, ih, values_cons, values_cons, values_cons]
    by_cases h₁ : fromUtf8Lossy q.name = "queue_id".toList
    · have h₂ : fromUtf8Lossy q.name ≠ "queue_name".toList := h₁ ▸ by decide
      have h₃ : fromUtf8Lossy q.name ≠ "reason".toList := h₁ ▸ by decide
      rw [if_pos h₁, if_neg h₂, if_neg h₃, ← hlast, Parser.take, Parser.field, if_pos h₁]
      rfl
    by_cases h₂ : fromUtf8Lossy q.name = "queue_name".toList
    · have h₃ : fromUtf8Lossy q.name ≠ "reason".toList := h₂ ▸ by decide
      rw [if_neg h₁, if_pos h₂, if_neg h₃, ← hlast, Parser.take, Parser.field, if_neg h₁, if_pos h₂]
      rfl
    by_cases h₃ : fromUtf8Lossy q.name = "reason".toList
    · rw [if_neg h₁, if_neg h₂, if_pos h₃, take_reason p h₃, Option.or_assoc]
      rfl
    · have hr : ¬ (fromUtf8Lossy q.name = "reason".toList ∧ p.reason.isNone) := fun h ↦ h₃ h.1
      rw [if_neg h₁, if_neg h₂, if_neg h₃, Parser.take, Parser.field, if_neg h₁, if_neg h₂,
        if_neg hr]

theorem boundary_foldl_take (r : Record) (out : List Queued) :
    (r.foldl Parser.take { out }).boundary = { out := out ++ r.entry.toList } := by
  simp only [foldl_take, Parser.boundary, Parser.entry, Record.entry, Option.or_none,
    Option.none_or]

end Records

section Framing

variable {p : Parser} {q : Pair} {r : Record} {bytes rest : Bytes}

theorem fields_zero (p : Parser) (rest : Bytes) :
    p.fields ((0 :: rest).splitOn 0) = p.boundary.fields (rest.splitOn 0) := by
  have hsplit : (0 :: rest).splitOn (0 : UInt8) = [] :: rest.splitOn 0 :=
    List.splitOn_append_cons_self_of_not_mem List.not_mem_nil rest
  obtain ⟨x, l, hl⟩ := List.exists_cons_of_ne_nil (List.splitOn_ne_nil (0 : UInt8) rest)
  rw [hsplit, hl]
  simp only [Parser.fields, if_true]

theorem fields_pair (p : Parser) (q : Pair) (rest : Bytes) :
    p.fields ((q.bytes ++ rest).splitOn 0) = (p.take q).fields (rest.splitOn 0) := by
  have hsplit : (q.bytes ++ rest).splitOn 0 = q.name :: q.value :: rest.splitOn 0 := by
    rw [Pair.bytes, List.append_assoc, List.cons_append, List.append_assoc, List.singleton_append,
      List.splitOn_append_cons_self_of_not_mem q.name_nul,
      List.splitOn_append_cons_self_of_not_mem q.value_nul]
  rw [hsplit, Parser.fields, if_neg q.named]
  rfl

theorem fields_record (p : Parser) (r : Record) (rest : Bytes) :
    p.fields ((r.bytes ++ rest).splitOn 0) =
      (r.foldl Parser.take p).boundary.fields (rest.splitOn 0) := by
  induction r generalizing p with
  | nil => exact fields_zero p rest
  | cons q r ih =>
    rw [Record.bytes, List.flatMap_cons, List.append_assoc, List.append_assoc, fields_pair,
      ← List.append_assoc, ← Record.bytes, ih, List.foldl_cons]

theorem fields_take_pair (p : Parser) (q : Pair) {n : ℕ} (h0 : 0 < n) (hn : n < q.bytes.length) :
    p.fields ((q.bytes.take n).splitOn 0) = p.out := by
  by_cases h : n ≤ q.name.length
  · -- the cut is in the name or right after it
    have htake : q.bytes.take n = q.name.take n := List.take_append_of_le_length h
    have hnul : 0 ∉ q.name.take n := fun hm ↦ q.name_nul (List.mem_of_mem_take hm)
    have hnil : q.name.take n ≠ [] := by
      rw [ne_eq, List.take_eq_nil_iff, not_or]
      exact ⟨by omega, q.named⟩
    rw [htake, List.splitOn_eq_singleton hnul, Parser.fields, if_neg hnil]
  · -- the cut is in the value or right after it
    obtain ⟨k, rfl⟩ : ∃ k, n = q.name.length + (k + 1) := ⟨n - q.name.length - 1, by omega⟩
    have hk : k ≤ q.value.length := by
      simp only [Pair.bytes, List.length_append, List.length_cons, List.length_nil] at hn
      omega
    have htake : q.bytes.take (q.name.length + (k + 1)) = q.name ++ 0 :: q.value.take k := by
      rw [Pair.bytes, List.take_length_add_append, List.take_succ_cons,
        List.take_append_of_le_length hk]
    have hnul : 0 ∉ q.value.take k := fun hm ↦ q.value_nul (List.mem_of_mem_take hm)
    rw [htake, List.splitOn_append_cons_self_of_not_mem q.name_nul,
      List.splitOn_eq_singleton hnul, Parser.fields, if_neg q.named, Parser.fields,
      Parser.out_field]

/-- A record that is cut before its end leaves its entry if it is cut between
two pairs, and nothing otherwise. -/
theorem fields_take_record (p : Parser) (r : Record) {n : ℕ} (hn : n < r.bytes.length) :
    p.fields ((r.bytes.take n).splitOn 0) =
      match r.cut n with
      | some r' => (r'.foldl Parser.take p).boundary.out
      | none => p.out := by
  induction r generalizing p n with
  | nil =>
    obtain rfl : n = 0 := Nat.lt_one_iff.mp hn
    rfl
  | cons q r ih =>
    have hbytes : Record.bytes (q :: r) = q.bytes ++ Record.bytes r := by
      rw [Record.bytes, List.flatMap_cons, List.append_assoc]
      rfl
    cases n with
    | zero => rfl
    | succ n =>
      rw [hbytes]
      by_cases h : n + 1 < q.bytes.length
      · rw [List.take_append_of_le_length h.le, fields_take_pair p q n.succ_pos h, Record.cut,
          if_pos h]
      · have hle : q.bytes.length ≤ n + 1 := Nat.le_of_not_lt h
        have hrest : n + 1 - q.bytes.length < (Record.bytes r).length := by
          rw [hbytes, List.length_append] at hn
          omega
        rw [List.take_append, List.take_of_length_le hle, fields_pair, ih (p.take q) hrest,
          Record.cut, if_neg h]
        cases Record.cut r (n + 1 - q.bytes.length) with
        | none => exact Parser.out_field p q.name q.value
        | some r' => rfl

theorem fields_take_records (records : List Record) (out : List Queued) {n : ℕ}
    (hn : n < (records.flatMap Record.bytes ++ [0]).length) :
    Parser.fields { out } (((records.flatMap Record.bytes ++ [0]).take n).splitOn 0) =
      out ++ (received records n).filterMap Record.entry := by
  induction records generalizing out n with
  | nil =>
    obtain rfl : n = 0 := Nat.lt_one_iff.mp hn
    rfl
  | cons r records ih =>
    rw [List.flatMap_cons, List.append_assoc] at hn ⊢
    by_cases h : r.bytes.length ≤ n
    · have hrest : n - r.bytes.length < (records.flatMap Record.bytes ++ [0]).length := by
        rw [List.length_append] at hn
        omega
      rw [List.take_append, List.take_of_length_le h, fields_record, boundary_foldl_take,
        ih _ hrest, received, if_pos h, List.append_assoc]
      cases he : r.entry with
      | none => rw [List.filterMap_cons_none he]; rfl
      | some e => rw [List.filterMap_cons_some he]; rfl
    · have hlt : n < r.bytes.length := Nat.lt_of_not_le h
      rw [List.take_append_of_le_length hlt.le, fields_take_record _ r hlt, received, if_neg h]
      cases r.cut n with
      | none => exact (List.append_nil out).symm
      | some r' =>
        change (r'.foldl Parser.take { out }).boundary.out = _
        rw [boundary_foldl_take]
        cases he : r'.entry with
        | none => simp [he]
        | some e => simp [he]

/-- What is read of a response that is cut off. -/
theorem parse_cut {records : List Record} (h : bytes <+: response records)
    (hne : bytes ≠ response records) :
    parse bytes = (received (protocol :: records) bytes.length).filterMap Record.entry := by
  have hlt : bytes.length < (response records).length :=
    lt_of_le_of_ne h.length_le fun he ↦ hne (h.eq_of_length he)
  have hread := fields_take_records (protocol :: records) [] hlt
  rw [List.nil_append] at hread
  rw [← hread, parse]
  congr 2
  exact List.prefix_iff_eq_take.mp h

theorem fields_records (records : List Record) (out : List Queued) (rest : Bytes) :
    Parser.fields { out } ((records.flatMap Record.bytes ++ rest).splitOn 0) =
      Parser.fields { out := out ++ records.filterMap Record.entry } (rest.splitOn 0) := by
  induction records generalizing out with
  | nil => rw [List.flatMap_nil, List.nil_append, List.filterMap_nil, List.append_nil]
  | cons r records ih =>
    rw [List.flatMap_cons, List.append_assoc, fields_record, boundary_foldl_take, ih,
      List.append_assoc]
    cases he : r.entry with
    | none => rw [List.filterMap_cons_none he]; rfl
    | some e => rw [List.filterMap_cons_some he]; rfl

theorem parse_response (records : List Record) :
    parse (response records) = records.filterMap Record.entry := by
  have hprotocol : protocol.entry = none := by decide +kernel
  rw [parse, response, fields_records, List.filterMap_cons_none hprotocol, List.nil_append,
    fields_zero]
  exact (List.append_nil _).trans (List.append_nil _)

theorem received_length (records : List Record) :
    received records (records.flatMap Record.bytes).length = records := by
  induction records with
  | nil => rfl
  | cons r records ih =>
    rw [received, List.flatMap_cons, List.length_append, if_pos (Nat.le_add_right _ _),
      Nat.add_sub_cancel_left, ih]

end Framing

/-! A response as it is written: attributes with texts for values. -/

structure Attribute where
  name : Bytes
  value : Text
  named : name ≠ []
  name_nul : 0 ∉ name
  value_nul : 0 ∉ utf8 value

def Attribute.bytes (a : Attribute) : Bytes := a.name ++ 0 :: (utf8 a.value ++ [0])

/-- Each record is ended by an empty name. -/
def encode (records : List (List Attribute)) : Bytes :=
  records.flatMap fun r ↦ r.flatMap Attribute.bytes ++ [0]

def values (name : Text) (r : List Attribute) : List Text :=
  (r.filter (·.name = utf8 name)).map (·.value)

/-- The message in the queue that a record is about, if it is about one. -/
def listed (r : List Attribute) : Option Queued := do
  let queueId ← (values "queue_id".toList r).getLast?
  let queueName ← (values "queue_name".toList r).getLast?
  let reason := ((values "reason".toList r).head?.map trim).filter (· ≠ [])
  some ⟨trim queueId, trim queueName, reason⟩

section Encoded

def Attribute.pair (a : Attribute) : Pair := ⟨a.name, utf8 a.value, a.named, a.name_nul, a.value_nul⟩

theorem values_pair (r : List Attribute) {name : Text} (h : replacement ∉ name) :
    Record.values (r.map Attribute.pair) name = (values name r).map trim := by
  rw [Record.values, values, List.filter_map, List.map_map, List.map_map]
  have hname : (fun p : Pair ↦ decide (fromUtf8Lossy p.name = name)) ∘ Attribute.pair =
      fun a ↦ decide (a.name = utf8 name) :=
    funext fun a ↦ decide_eq_decide.mpr (fromUtf8Lossy_eq_iff h)
  have htext : Pair.text ∘ Attribute.pair = trim ∘ Attribute.value :=
    funext fun a ↦ congrArg trim (fromUtf8Lossy_utf8 a.value)
  rw [hname, htext]

theorem entry_pair (r : List Attribute) : Record.entry (r.map Attribute.pair) = listed r := by
  rw [Record.entry, values_pair r (by decide), values_pair r (by decide), values_pair r (by decide),
    List.getLast?_map, List.getLast?_map, List.head?_map, listed]
  cases (values "queue_id".toList r).getLast? with
  | none => rfl
  | some queueId =>
    cases (values "queue_name".toList r).getLast? with
    | none => rfl
    | some queueName => rfl

/-- Every record that names a message in the queue is read, and nothing else. -/
theorem parse_encode (records : List (List Attribute)) :
    parse (encode records) = records.filterMap listed := by
  have hbytes : encode records = (records.map (List.map Attribute.pair)).flatMap Record.bytes := by
    rw [encode, List.flatMap_map]
    refine congrArg (records.flatMap ·) (funext fun r ↦ ?_)
    rw [Record.bytes, List.flatMap_map]
    rfl
  have hentry : Record.entry ∘ List.map Attribute.pair = listed := funext entry_pair
  rw [hbytes, parse, ← List.append_nil (List.flatMap _ _), fields_records, List.filterMap_map,
    hentry]
  exact List.append_nil _

end Encoded

end Postbud.Showq
