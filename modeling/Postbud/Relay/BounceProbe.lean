import Postbud.Core.DmarcNumbers
import Postbud.Core.DnsCheck

namespace Postbud.DnsCheck

open Lib Lib.Text Lib.ByteSlice

/-- A clean accept or a permanent refusal. -/
def accepted (code : ℕ) : Option Bool :=
  if 200 ≤ code ∧ code ≤ 299 then some true
  else if 500 ≤ code ∧ code ≤ 599 then some false
  else none

def checkBounceMailbox (bounceReply controlReply : ℕ) : Option RecordResult := do
  let bounce ← accepted bounceReply
  let control ← accepted controlReply
  return match bounce, control with
  | false, _ => ⟨.missing, some (
      "the relay refused the bounce mailbox (".toList ++ decimal bounceReply ++ ");".toList ++
      "                  delivery status notifications for this domain are discarded".toList)⟩
  | true, true => ⟨.mismatch, some (
      "the relay accepted an address that cannot exist (".toList ++ decimal controlReply ++
      "),                  so it is forwarding for this domain rather than delivering it;".toList ++
      "                  whether the bounce mailbox is listed cannot be told from here".toList)⟩
  | true, false => ⟨.ok, some
      "the relay accepts the bounce mailbox and rejects what does not exist".toList⟩

/-- A line that the other side sends: none if it does not come in time, or is no UTF-8. -/
abbrev Line := Option Text

/-- The relay as the probe meets it: what it answers once it has been sent some
lines, and whether it takes one more. -/
structure Peer where
  connects : Bool
  answers : List Text → List Line
  takes : List Text → Bool

/-- The lines that came and have not been read, and those that were sent. -/
structure Io where
  unread : List Line
  sent : List Text
  deriving DecidableEq

abbrev Talk := OptionT (StateM Io)

/-- `str::parse::<u16>`: digits, after a plus or not. -/
def parseU16 (t : Text) : Option ℕ := do
  let digits := match t with
    | '+' :: digits => digits
    | digits => digits
  if digits = [] then none
  let values ← digits.mapM Dmarc.digit?
  let n := values.foldl (fun n d ↦ n * 10 + d) 0
  if n < 2 ^ 16 then some n else none

/-- The code of a line, and whether a hyphen says that more lines follow. -/
def lineCode (line : Text) : Option (ℕ × Bool) := do
  let (code, rest) ← splitAtByte 3 line
  let code ← parseU16 code
  return (code, rest.head? = some '-')

/-- The code of the last line of a reply, and the lines after it. -/
def readReply : List Line → Option ℕ × List Line
  | [] => (none, [])
  | none :: lines => (none, lines)
  | some line :: lines =>
    match lineCode line with
    | none => (none, lines)
    | some (code, more) => if more then readReply lines else (some code, lines)

def reply : Talk ℕ := .mk fun io ↦
  let (code, unread) := readReply io.unread
  (code, { io with unread })

def send (peer : Peer) (line : Text) : Talk Unit := .mk fun io ↦
  if peer.takes io.sent then
    let sent := io.sent ++ [line]
    (some (), { unread := io.unread ++ peer.answers sent, sent })
  else (none, io)

/-- `if reply(&mut io).await? / 100 != 2 { return None; }` -/
def goAhead : Talk Unit := do
  let code ← reply
  if code / 100 = 2 then pure () else failure

/-- `let _ = ...` -/
def ignoring {α : Type} (x : Talk α) : Talk Unit := .mk fun io ↦ (some (), (x.run io).2)

def ehlo : Text := "EHLO postbud-check.invalid".toList

def mailFrom : Text := "MAIL FROM:<>".toList

def rcptBounce (domain mailbox : Text) : Text :=
  "RCPT TO:<".toList ++ mailbox ++ "@".toList ++ domain ++ ">".toList

def rcptControl (domain : Text) (nonce : ℕ) : Text :=
  "RCPT TO:<postbud-probe-".toList ++ decimal nonce ++ "@".toList ++ domain ++ ">".toList

/-- The two replies whose contrast is the answer. There is no nonce where the
clock stands before its epoch. -/
def probe (peer : Peer) (nonce : Option ℕ) (domain mailbox : Text) : Talk (ℕ × ℕ) := do
  goAhead
  send peer ehlo
  goAhead
  send peer mailFrom
  goAhead
  send peer (rcptBounce domain mailbox)
  let bounce ← reply
  let nonce ← OptionT.mk (pure nonce)
  send peer (rcptControl domain nonce)
  let control ← reply
  ignoring (send peer "RSET".toList)
  ignoring reply
  ignoring (send peer "QUIT".toList)
  return (bounce, control)

def probeBounceMailbox (peer : Peer) (nonce : Option ℕ) (domain mailbox : Text) : Option (ℕ × ℕ) × Io :=
  if peer.connects then (probe peer nonce domain mailbox).run ⟨peer.answers [], []⟩ else (none, ⟨[], []⟩)

/-- Whether a domain's bounce mailbox is taken, as far as the relay tells. -/
def bounceVerdict (peer : Peer) (nonce : Option ℕ) (domain mailbox : Text) : Option RecordResult :=
  (probeBounceMailbox peer nonce domain mailbox).1.bind fun (bounce, control) ↦
    checkBounceMailbox bounce control

section Replies

open Numeral

/-- A reply of a relay: three digits, and text on as many lines as it likes. -/
structure Reply where
  digits : List (Fin 10)
  more : List Text
  last : Text
  three : digits.length = 3
  lastOk : last.head? ≠ some '-'

def Reply.code (r : Reply) : ℕ := value r.digits

def Reply.lines (r : Reply) : List Line :=
  r.more.map (fun t ↦ some (spell r.digits ++ '-' :: t)) ++ [some (spell r.digits ++ r.last)]

theorem foldl_digits (ds : List (Fin 10)) :
    (ds.map Fin.val).foldl (fun n d ↦ n * 10 + d) 0 = value ds := by
  induction ds using List.reverseRecOn with
  | nil => rfl
  | append_singleton ds d ih =>
    rw [List.map_append, List.foldl_append, ih, value_concat]
    rfl

theorem value_lt (ds : List (Fin 10)) : value ds < 10 ^ ds.length := by
  have hdigits : ∀ d ∈ ds.reverse.map Fin.val, d < 10 := by
    intro d hd
    obtain ⟨d, -, rfl⟩ := List.mem_map.mp hd
    exact d.isLt
  have hlt := Nat.ofDigits_lt_base_pow_length (by omega) hdigits
  rwa [List.length_map, List.length_reverse] at hlt

theorem parseU16_spell {ds : List (Fin 10)} (hne : ds ≠ []) (hlt : value ds < 2 ^ 16) :
    parseU16 (spell ds) = some (value ds) := by
  have hdigits : (spell ds).mapM Dmarc.digit? = some (ds.map Fin.val) :=
    Dmarc.mapM_digit?.mpr ⟨ds, rfl, rfl⟩
  unfold parseU16
  split
  · rename_i h
    exact absurd h spell_ne_plus
  · rw [if_neg (mt spell_eq_nil.mp hne), hdigits]
    change (if _ < 2 ^ 16 then some _ else none) = _
    rw [foldl_digits, if_pos hlt]

theorem byteLength_spell (ds : List (Fin 10)) : byteLength (spell ds) = ds.length := by
  have hone : ∀ d : Fin 10, d.val.digitChar.utf8Size = 1 := by decide
  induction ds with
  | nil => rfl
  | cons d ds ih =>
    rw [spell, List.map_cons, byteLength_cons, hone, ← spell, ih, List.length_cons, Nat.add_comm]

theorem lineCode_spell {ds : List (Fin 10)} (h : ds.length = 3) (rest : Text) :
    lineCode (spell ds ++ rest) = some (value ds, decide (rest.head? = some '-')) := by
  have hbytes : byteLength (spell ds) = 3 := (byteLength_spell ds).trans h
  have hsplit : splitAtByte 3 (spell ds ++ rest) = some (spell ds, rest) :=
    splitAtByte_eq_some.mpr ⟨rfl, hbytes⟩
  have hlt := value_lt ds
  have hparse : parseU16 (spell ds) = some (value ds) := by
    refine parseU16_spell (fun hnil ↦ ?_) ?_
    · rw [hnil] at h
      cases h
    · rw [h] at hlt
      omega
  unfold lineCode
  rw [hsplit]
  change (parseU16 (spell ds)).bind _ = _
  rw [hparse]
  rfl

/-- A reply is read to its last line and no further. -/
theorem readReply_lines (r : Reply) (lines : List Line) :
    readReply (r.lines ++ lines) = (some r.code, lines) := by
  obtain ⟨digits, more, last, three, lastOk⟩ := r
  unfold Reply.lines Reply.code
  dsimp only
  induction more with
  | nil =>
    simp only [List.map_nil, List.nil_append, List.cons_append, readReply, lineCode_spell three]
    rw [decide_eq_false lastOk]
    rfl
  | cons t more ih =>
    simp only [List.map_cons, List.cons_append, readReply, lineCode_spell three, List.head?_cons]
    exact ih

end Replies

section Talks

variable {α β : Type} {peer : Peer} {io : Io}

theorem run_bind (x : Talk α) (f : α → Talk β) (io : Io) : (x >>= f).run io =
    match x.run io with
    | (none, io') => (none, io')
    | (some a, io') => (f a).run io' := by
  rw [OptionT.run_bind, Option.elimM]
  change (match x.run io with | (o, io') => (o.elim (pure none) fun a ↦ (f a).run : StateM Io _) io') = _
  obtain ⟨- | a, io'⟩ := x.run io <;> rfl

theorem run_send (line : Text) : (send peer line).run io = if peer.takes io.sent then
    (some (), { unread := io.unread ++ peer.answers (io.sent ++ [line]), sent := io.sent ++ [line] })
    else (none, io) := rfl

end Talks

/-- A relay that takes every line and answers it, as it does the connection, with one reply. -/
structure Peer.Replies (peer : Peer) (answer : List Text → Reply) : Prop where
  connects : peer.connects
  takes : ∀ lines, peer.takes lines
  answers : ∀ lines, peer.answers lines = (answer lines).lines

def Reply.took (r : Reply) : Prop := r.code / 100 = 2

def Reply.refused (r : Reply) : Prop := r.code / 100 = 5

instance (r : Reply) : Decidable r.took := by unfold Reply.took; infer_instance

instance (r : Reply) : Decidable r.refused := by unfold Reply.refused; infer_instance

/-- The relay lets the null sender begin. -/
def Greeted (answer : List Text → Reply) : Prop :=
  (answer []).took ∧ (answer [ehlo]).took ∧ (answer [ehlo, mailFrom]).took

section Answered

variable {β : Type} {peer : Peer} {answer : List Text → Reply} {sent : List Text} {nonce : ℕ}
  {domain mailbox : Text}

theorem run_reply (answer : List Text → Reply) (sent : List Text) (f : ℕ → Talk β) :
    (reply >>= f).run ⟨(answer sent).lines, sent⟩ = (f (answer sent).code).run ⟨[], sent⟩ := by
  have hread := readReply_lines (answer sent) []
  rw [List.append_nil] at hread
  have hrun : reply.run ⟨(answer sent).lines, sent⟩ = (some (answer sent).code, ⟨[], sent⟩) := by
    change ((readReply _).1, Io.mk (readReply _).2 sent) = _
    rw [hread]
  rw [run_bind, hrun]

theorem run_goAhead (answer : List Text → Reply) (sent : List Text) (x : Talk β) :
    (goAhead >>= fun _ ↦ x).run ⟨(answer sent).lines, sent⟩ =
      if (answer sent).code / 100 = 2 then x.run ⟨[], sent⟩ else (none, ⟨[], sent⟩) := by
  rw [goAhead, bind_assoc, run_reply]
  split_ifs <;> rfl

theorem Peer.Replies.run_send (h : peer.Replies answer) (line : Text) (x : Talk β) :
    (send peer line >>= fun _ ↦ x).run ⟨[], sent⟩ =
      x.run ⟨(answer (sent ++ [line])).lines, sent ++ [line]⟩ := by
  rw [run_bind, DnsCheck.run_send, if_pos (h.takes sent), h.answers]
  rfl

/-- The probe never takes the reply to one line for the reply to another. -/
theorem probe_replies (h : peer.Replies answer) :
    (probeBounceMailbox peer (some nonce) domain mailbox).1 =
      if (answer []).code / 100 = 2 ∧ (answer [ehlo]).code / 100 = 2 ∧
        (answer [ehlo, mailFrom]).code / 100 = 2 then
        some ((answer [ehlo, mailFrom, rcptBounce domain mailbox]).code,
          (answer [ehlo, mailFrom, rcptBounce domain mailbox, rcptControl domain nonce]).code)
      else none := by
  unfold probeBounceMailbox probe
  rw [if_pos h.connects, h.answers, run_goAhead]
  by_cases hgreeting : (answer []).code / 100 = 2
  · rw [if_pos hgreeting, h.run_send, List.nil_append, run_goAhead]
    by_cases hehlo : (answer [ehlo]).code / 100 = 2
    · rw [if_pos hehlo, h.run_send, List.singleton_append, run_goAhead]
      by_cases hmail : (answer [ehlo, mailFrom]).code / 100 = 2
      · rw [if_pos hmail, h.run_send, run_reply, if_pos ⟨hgreeting, hehlo, hmail⟩]
        change ((send peer (rcptControl domain nonce) >>= fun _ ↦ _).run _).1 = _
        rw [h.run_send, run_reply]
        rfl
      · rw [if_neg hmail, if_neg fun h ↦ hmail h.2.2]
    · rw [if_neg hehlo, if_neg fun h ↦ hehlo h.2.1]
  · rw [if_neg hgreeting, if_neg fun h ↦ hgreeting h.1]

theorem checkBounceMailbox_iff {bounce control : ℕ} :
    let verdict := (checkBounceMailbox bounce control).map (·.status)
    (verdict = some .ok ↔ accepted bounce = some true ∧ accepted control = some false) ∧
      (verdict = some .mismatch ↔ accepted bounce = some true ∧ accepted control = some true) ∧
      (verdict = some .missing ↔ accepted bounce = some false ∧
        (accepted control = some true ∨ accepted control = some false)) := by
  dsimp only [checkBounceMailbox]
  rcases accepted bounce with - | - | - <;> rcases accepted control with - | - | - <;> simp

theorem accepted_eq {code : ℕ} {taken : Bool} :
    accepted code = some taken ↔ code / 100 = if taken then 2 else 5 := by
  unfold accepted
  cases taken
  · simp only [Bool.false_eq_true, if_false]
    split_ifs <;> simp <;> omega
  · simp only [if_true]
    split_ifs <;> simp <;> omega

/-- What the verdict says of a relay, whatever its replies look like: that a
mailbox is taken only where an address that cannot exist is refused. -/
theorem bounceVerdict_iff (h : peer.Replies answer) (domain mailbox : Text) (nonce : ℕ) :
    let verdict := (bounceVerdict peer (some nonce) domain mailbox).map (·.status)
    let bounce := answer [ehlo, mailFrom, rcptBounce domain mailbox]
    let control := answer [ehlo, mailFrom, rcptBounce domain mailbox, rcptControl domain nonce]
    (verdict = some .ok ↔ Greeted answer ∧ bounce.took ∧ control.refused) ∧
      (verdict = some .mismatch ↔ Greeted answer ∧ bounce.took ∧ control.took) ∧
      (verdict = some .missing ↔
        Greeted answer ∧ bounce.refused ∧ (control.took ∨ control.refused)) := by
  dsimp only
  rw [bounceVerdict, probe_replies h]
  simp only [Reply.took, Reply.refused, Greeted]
  generalize (answer [ehlo, mailFrom, rcptBounce domain mailbox]).code = bounce
  generalize (answer [ehlo, mailFrom, rcptBounce domain mailbox, rcptControl domain nonce]).code =
    control
  by_cases hgreeted : (answer []).code / 100 = 2 ∧ (answer [ehlo]).code / 100 = 2 ∧
      (answer [ehlo, mailFrom]).code / 100 = 2
  · rw [if_pos hgreeted, Option.bind_some]
    obtain ⟨hok, hmismatch, hmissing⟩ := @checkBounceMailbox_iff bounce control
    simp only [accepted_eq, if_true, Bool.false_eq_true, if_false] at hok hmismatch hmissing
    exact ⟨hok.trans (and_iff_right hgreeted).symm, hmismatch.trans (and_iff_right hgreeted).symm,
      hmissing.trans (and_iff_right hgreeted).symm⟩
  · rw [if_neg hgreeted]
    exact ⟨iff_of_false nofun fun h ↦ hgreeted h.1, iff_of_false nofun fun h ↦ hgreeted h.1,
      iff_of_false nofun fun h ↦ hgreeted h.1⟩

end Answered

def takes : Reply := ⟨[2, 5, 0], [], " OK".toList, rfl, by decide⟩

def rejects : Reply := ⟨[5, 5, 0], ["5.1.1 no such user".toList], " here".toList, rfl, by decide⟩

/-- A relay that has a list of its mailboxes. -/
def knowing (lines : List Text) : Reply :=
  if lines.getLast? = some (rcptControl "example.com".toList 7) then rejects else takes

def knowingPeer : Peer := ⟨true, fun lines ↦ (knowing lines).lines, fun _ ↦ true⟩

theorem bounceVerdict_knowing :
    (bounceVerdict knowingPeer (some 7) "example.com".toList "bounces".toList).map (·.status) =
      some .ok := by
  have hreplies : knowingPeer.Replies knowing := ⟨rfl, fun _ ↦ rfl, fun _ ↦ rfl⟩
  refine (bounceVerdict_iff hreplies "example.com".toList "bounces".toList 7).1.mpr
    ⟨⟨?_, ?_, ?_⟩, ?_, ?_⟩ <;> decide +kernel

end Postbud.DnsCheck
