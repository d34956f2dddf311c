import Postbud.Core.DsnGroups
import Postbud.Core.DsnWords

namespace Postbud.Dsn

open Lib Lib.Text Lib.Words

/-! ### A DSN as it is written -/

inductive Kind
  | queueId
  | finalRecipient
  | status
  | diagnostic

def Kind.name : Kind → Text
  | queueId => "x-postfix-queue-id".toList
  | finalRecipient => "final-recipient".toList
  | status => "status".toList
  | diagnostic => "diagnostic-code".toList

def Kind.field : Kind → Text → Field
  | queueId => .queueId
  | finalRecipient => .finalRecipient
  | status => .status
  | diagnostic => .diagnostic

/-- A field the parser reads: its name in some case, the line its value starts
on and the lines that continue it. -/
structure Header (k : Kind) where
  written : Text
  first : Text
  rest : List Text
  named : toAsciiLowercase written = k.name
  continues : ∀ line ∈ rest, isContinuation line
  oneLine : ∀ line ∈ first :: rest, '\n' ∉ line
  filled : trim (first ++ rest.flatten) ≠ []

/-- Any other field. -/
structure Other where
  written : Text
  first : Text
  rest : List Text
  unread : ∀ k : Kind, toAsciiLowercase (trim written) ≠ k.name
  noColon : ':' ∉ written
  starts : isContinuation written = false
  continues : ∀ line ∈ rest, isContinuation line
  oneLine : ∀ line ∈ written :: first :: rest, '\n' ∉ line

/-- The value that is folded: what the lines say without their endings. -/
def Header.text {k : Kind} (h : Header k) : Text := h.first ++ h.rest.flatten

def Header.lines {k : Kind} (h : Header k) : List Text := (h.written ++ ':' :: h.first) :: h.rest

def Other.lines (o : Other) : List Text := (o.written ++ ':' :: o.first) :: o.rest

inductive Filler
  | other (o : Other)
  | blank (line : Text) (hline : Blank line) (hone : '\n' ∉ line)

def Filler.lines : Filler → List Text
  | other o => o.lines
  | blank line _ _ => [line]

inductive Item
  | status (h : Header .status)
  | diagnostic (h : Header .diagnostic)
  | filler (f : Filler)

namespace Item

def lines : Item → List Text
  | status h => h.lines
  | diagnostic h => h.lines
  | filler f => f.lines

def status? : Item → Option (Header .status)
  | status h => some h
  | _ => none

def diagnostic? : Item → Option (Header .diagnostic)
  | diagnostic h => some h
  | _ => none

end Item

/-- A recipient and what is said of it: a status and a diagnostic, in either
order, with other fields and blank lines anywhere. -/
structure Group where
  recipient : Header .finalRecipient
  items : List Item

namespace Group

def lines (g : Group) : List Text := g.recipient.lines ++ g.items.flatMap Item.lines

def status (g : Group) : Option (Header .status) := (g.items.filterMap Item.status?).getLast?

def diagnostic (g : Group) : Option (Header .diagnostic) :=
  (g.items.filterMap Item.diagnostic?).getLast?

/-- The report of a group whose values are not folded. -/
def report (queueId : Header .queueId) (g : Group) : Report :=
  ⟨some (trim queueId.text), some (stripTypePrefix g.recipient.text),
    g.status.map fun h ↦ trim h.text, g.diagnostic.map fun h ↦ stripTypePrefix h.text,
    (g.status.map fun h ↦ .fromStatus h.text).getD .unknown⟩

end Group

structure Rendering where
  queueId : Header .queueId
  /-- The queue id comes after the groups. -/
  late : Bool
  before : List Filler
  after : List Filler
  groups : List Group

def Rendering.lines (d : Rendering) : List Text :=
  let queueId := d.queueId.lines ++ d.after.flatMap Filler.lines
  let groups := d.groups.flatMap Group.lines
  d.before.flatMap Filler.lines ++ if d.late then groups ++ queueId else queueId ++ groups

/-- The lines of a text, each ended with LF or CRLF. -/
inductive Ends : List Text → Text → Prop
  | nil : Ends [] []
  | lf {line : Text} {l : List Text} {t : Text} (h : Ends l t) : Ends (line :: l) (line ++ '\n' :: t)
  | crlf {line : Text} {l : List Text} {t : Text} (h : Ends l t) :
    Ends (line :: l) (line ++ '\r' :: '\n' :: t)

theorem ends_lf (l : List Text) : Ends l (l.flatMap fun line ↦ line ++ ['\n']) := by
  induction l with
  | nil => exact .nil
  | cons line l ih =>
    have h : Ends (line :: l) (line ++ '\n' :: l.flatMap fun line ↦ line ++ ['\n']) := .lf ih
    simpa using h

theorem Kind.name_solid (k : Kind) : Solid k.name ∧ ':' ∉ k.name := by
  cases k <;> decide

theorem Header.written_solid {k : Kind} (h : Header k) : Solid h.written := by
  intro c hc
  have hmem : asciiLower c ∈ k.name := by
    rw [← h.named]
    exact List.mem_map_of_mem hc
  rw [← isWhitespace_asciiLower]
  exact k.name_solid.1 _ hmem

theorem Header.noNewline {k : Kind} (h : Header k) : ∀ line ∈ h.lines, '\n' ∉ line := by
  obtain ⟨hfirst, hrest⟩ := List.forall_mem_cons.mp h.oneLine
  refine List.forall_mem_cons.mpr ⟨?_, hrest⟩
  have hwritten : '\n' ∉ h.written := fun hn ↦ absurd (h.written_solid _ hn) (by decide)
  simp [hwritten, hfirst]

theorem Other.noNewline (o : Other) : ∀ line ∈ o.lines, '\n' ∉ line := by
  obtain ⟨hwritten, hlines⟩ := List.forall_mem_cons.mp o.oneLine
  obtain ⟨hfirst, hrest⟩ := List.forall_mem_cons.mp hlines
  refine List.forall_mem_cons.mpr ⟨?_, hrest⟩
  simp [hwritten, hfirst]

theorem Filler.noNewline (f : Filler) : ∀ line ∈ f.lines, '\n' ∉ line := by
  cases f with
  | other o => exact o.noNewline
  | blank line _ hone => exact List.forall_mem_singleton.mpr hone

theorem Item.noNewline (i : Item) : ∀ line ∈ i.lines, '\n' ∉ line := by
  cases i with
  | status h => exact h.noNewline
  | diagnostic h => exact h.noNewline
  | filler f => exact f.noNewline

theorem Group.noNewline (g : Group) : ∀ line ∈ g.lines, '\n' ∉ line :=
  List.forall_mem_append.mpr ⟨g.recipient.noNewline, List.forall_mem_flatMap.mpr fun i _ ↦ i.noNewline⟩

theorem Rendering.noNewline (d : Rendering) : ∀ line ∈ d.lines, '\n' ∉ line := by
  have hfillers : ∀ fs : List Filler, ∀ line ∈ fs.flatMap Filler.lines, '\n' ∉ line := fun fs ↦
    List.forall_mem_flatMap.mpr fun f _ ↦ f.noNewline
  have hgroups : ∀ line ∈ d.groups.flatMap Group.lines, '\n' ∉ line :=
    List.forall_mem_flatMap.mpr fun g _ ↦ g.noNewline
  have hqueue := List.forall_mem_append.mpr ⟨d.queueId.noNewline, hfillers d.after⟩
  refine List.forall_mem_append.mpr ⟨hfillers d.before, ?_⟩
  split
  · exact List.forall_mem_append.mpr ⟨hgroups, hqueue⟩
  · exact List.forall_mem_append.mpr ⟨hqueue, hgroups⟩

/-! ### The lines that are seen -/

/-- A line as `lines` sees it: a carriage return it ends with is taken for part
of a line ending. -/
def Seen (seen line : Text) : Prop := seen = line ∨ line = seen ++ ['\r']

theorem lines_of_ends {l : List Text} {raw : Text} (h : Ends l raw) (hl : ∀ line ∈ l, '\n' ∉ line) :
    List.Forall₂ Seen (lines raw) l := by
  induction h with
  | nil => exact .nil
  | @lf line l t _ ih =>
    obtain ⟨hline, hl⟩ := List.forall_mem_cons.mp hl
    rw [lines_append, splitOn_of_notMem hline]
    refine .cons ?_ (ih hl)
    rcases dropCr_cases line with h | h
    · exact .inl h
    · exact .inr h
  | @crlf line l t _ ih =>
    obtain ⟨hline, hl⟩ := List.forall_mem_cons.mp hl
    have hcr : '\n' ∉ line ++ ['\r'] := by simp [hline]
    have htext : line ++ '\r' :: '\n' :: t = (line ++ ['\r']) ++ '\n' :: t := by simp
    rw [htext, lines_append, splitOn_of_notMem hcr]
    exact .cons (.inl (dropCr_append line)) (ih hl)

theorem Seen.sameWords {seen line : Text} (h : Seen seen line) : SameWords seen line := by
  rcases h with rfl | rfl
  · rfl
  · exact (splitWhitespace_concat (by decide) seen).symm

theorem Seen.blank {seen line : Text} (h : Seen seen line) (hline : Blank line) : Blank seen := by
  rcases h with rfl | rfl
  · exact hline
  · exact fun c hc ↦ hline c (List.mem_append_left _ hc)

theorem Seen.of_append {seen a t : Text} {c : Char} (hc : c ≠ '\r')
    (h : Seen seen (a ++ c :: t)) : ∃ t', seen = a ++ c :: t' ∧ Seen t' t := by
  rcases h with rfl | h
  · exact ⟨t, rfl, .inl rfl⟩
  · have hlast := congrArg List.getLast? h
    rcases List.eq_nil_or_concat t with rfl | ⟨t', d, rfl⟩
    · simp at hlast
      exact absurd hlast hc
    · rw [List.concat_eq_append] at h ⊢
      rw [← List.cons_append, ← List.append_assoc] at h
      obtain ⟨hseen, hd⟩ := List.append_inj' h rfl
      exact ⟨t', hseen.symm, .inr (by rw [hd])⟩

theorem Seen.continuation {seen line : Text} (h : Seen seen line) (hline : isContinuation line) :
    ∃ c t t', line = c :: t ∧ seen = c :: t' ∧ Seen t' t ∧ (c = ' ' ∨ c = '\t') := by
  cases line with
  | nil => simp [isContinuation] at hline
  | cons c t =>
    have hc : c = ' ' ∨ c = '\t' := by simpa [isContinuation] using hline
    have hcr : c ≠ '\r' := by
      rcases hc with rfl | rfl <;> decide
    obtain ⟨t', hseen, ht⟩ := Seen.of_append (a := []) hcr h
    exact ⟨c, t, t', rfl, hseen, ht, hc⟩

/-! ### Folded values -/

/-- A line with those that continue it, as `unfold` joins them. -/
def joined (first : Text) (rest : List Text) : Text := first ++ rest.flatMap fun line ↦ ' ' :: trim line

theorem joined_cons (first line : Text) (rest : List Text) :
    joined first (line :: rest) = first ++ ' ' :: joined (trim line) rest := by
  simp [joined]

theorem splitWhitespace_joined (first : Text) (rest : List Text) :
    splitWhitespace (joined first rest) =
      splitWhitespace first ++ rest.flatMap splitWhitespace := by
  induction rest generalizing first with
  | nil => simp [joined]
  | cons line rest ih =>
    rw [joined_cons, splitWhitespace_append_cons (by decide), ih, splitWhitespace_trim,
      List.flatMap_cons]

theorem splitWhitespace_append_flatten (first : Text) {rest : List Text}
    (h : ∀ line ∈ rest, isContinuation line) :
    splitWhitespace (first ++ rest.flatten) =
      splitWhitespace first ++ rest.flatMap splitWhitespace := by
  induction rest generalizing first with
  | nil => simp
  | cons line rest ih =>
    obtain ⟨hline, hrest⟩ := List.forall_mem_cons.mp h
    obtain ⟨c, t, -, rfl, -, -, hc⟩ := Seen.continuation (.inl rfl) hline
    have hspace : isWhitespace c = true := by
      rcases hc with rfl | rfl <;> decide
    rw [List.flatten_cons, List.cons_append, splitWhitespace_append_cons hspace, ih t hrest,
      List.flatMap_cons, splitWhitespace_cons hspace]

theorem flatMap_splitWhitespace_of_seen {rest' rest : List Text}
    (h : List.Forall₂ Seen rest' rest) :
    rest'.flatMap splitWhitespace = rest.flatMap splitWhitespace := by
  induction h with
  | nil => rfl
  | cons hline _ ih => rw [List.flatMap_cons, List.flatMap_cons, hline.sameWords, ih]

/-- A line is folded where its value has a single space. -/
def SingleSpaced (line next : Text) : Prop :=
  (∀ c ∈ line.getLast?, isWhitespace c = false) ∧
    ∃ t, next = ' ' :: t ∧ ∀ c ∈ t.head?, isWhitespace c = false

theorem Seen.eq_of_getLast? {seen line : Text} (h : Seen seen line)
    (hend : ∀ c ∈ line.getLast?, isWhitespace c = false) : seen = line := by
  rcases h with h | rfl
  · exact h
  · have hcr := hend '\r' (by simp)
    exact absurd hcr (by decide)

theorem Seen.head?_solid {seen line : Text} (h : Seen seen line)
    (hstart : ∀ c ∈ line.head?, isWhitespace c = false) : ∀ c ∈ seen.head?, isWhitespace c = false := by
  rcases h with rfl | rfl
  · exact hstart
  · cases seen with
    | nil => simp
    | cons c seen => exact hstart

/-- Folding at single spaces loses nothing but white space at the very end. -/
theorem joined_eq_of_singleSpaced {first' first : Text} {rest' rest : List Text}
    (hfirst : Seen first' first) (hrest : List.Forall₂ Seen rest' rest)
    (hc : (first :: rest).IsChain SingleSpaced) :
    ∃ u, joined first' rest' ++ u = first ++ rest.flatten ∧ Blank u := by
  induction hrest generalizing first first' with
  | nil =>
    rcases hfirst with rfl | rfl
    · exact ⟨[], by simp [joined], by decide⟩
    · exact ⟨['\r'], by simp [joined], by decide⟩
  | @cons line' line rest' rest hline hrest ih =>
    obtain ⟨⟨hend, t, rfl, hstart⟩, hchain⟩ := List.isChain_cons_cons.mp hc
    obtain rfl := hfirst.eq_of_getLast? hend
    obtain ⟨t', rfl, ht⟩ := Seen.of_append (a := []) (by decide) hline
    have htrim : trim (' ' :: t') = trim t' := trim_blank_append (u := [' ']) (by decide) t'
    rw [List.nil_append, joined_cons, htrim]
    cases hrest with
    | nil =>
      -- The last line may end in white space, which is trimmed.
      obtain ⟨u, htext, hu⟩ := ih ht (.singleton t)
      obtain ⟨v, ht', hv⟩ := trim_of_head (ht.head?_solid hstart)
      refine ⟨v ++ u, ?_, List.forall_mem_append.mpr ⟨hv, hu⟩⟩
      have hwhole : joined (trim t') [] ++ (v ++ u) = t ++ [].flatten := by
        rw [← htext, ← List.append_assoc]
        conv_rhs => rw [ht']
        simp [joined]
      simpa using hwhole
    | @cons next' next rest' rest hnext hrest =>
      -- Before a fold there is none to trim, nor a carriage return to lose.
      obtain ⟨⟨hline, hspace⟩, hchain⟩ := List.isChain_cons_cons.mp hchain
      have hend : ∀ c ∈ t.getLast?, isWhitespace c = false := by
        intro c hc
        have hsome : t.getLast? = some c := hc
        exact hline c (by simp [List.getLast?_cons, hsome])
      have htail : (t :: next :: rest).IsChain SingleSpaced := .cons_cons ⟨hend, hspace⟩ hchain
      obtain ⟨u, htext, hu⟩ := ih ht htail
      obtain rfl := ht.eq_of_getLast? hend
      refine ⟨u, ?_, hu⟩
      rw [trim_of_ends_solid hstart hend]
      simpa using htext

end Postbud.Dsn
