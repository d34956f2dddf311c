import Mathlib.Data.List.Forall2
import Postbud.Core.Dmarc
import Postbud.Lib.Result

namespace Postbud.Dmarc

open Lib Lib.Text Lib.Result

/-! The decoders as functions to streams of bytes. What an archive declares of
a member's size is not trusted. -/

/-- The bytes that a decoder gives out, and the fault it ends with, if any. -/
structure Stream where
  bytes : Bytes
  fault : Option Text := none

/-- `take(limit).read_to_end()`: a fault beyond the limit is not met. -/
def Stream.readUpTo (s : Stream) (limit : ℕ) : Except Text Bytes :=
  if limit ≤ s.bytes.length then .ok (s.bytes.take limit)
  else match s.fault with
    | some message => .error message
    | none => .ok s.bytes

structure Member where
  isFile : Bool
  size : ℕ
  stream : Stream

class Decoders where
  gzip : Bytes → Stream
  zip : Bytes → Except Text (List (Except Text Member))
  xml : Text → Except Text Raw.Feedback

def Member.entry (m : Member) : ZipEntry := ⟨m.isFile, m.size, m.stream.readUpTo⟩

instance [Decoders] : Formats where
  gunzip blob := (Decoders.gzip blob).readUpTo
  unzip blob := (Decoders.zip blob).map (List.map (Except.map Member.entry))
  xml := Decoders.xml

def IsGzip (blob : Bytes) : Prop := [0x1F, 0x8B] <+: blob

def IsZip (blob : Bytes) : Prop := utf8 "PK\x03\x04".toList <+: blob

instance (blob : Bytes) : Decidable (IsGzip blob) := inferInstanceAs (Decidable (_ <+: _))

instance (blob : Bytes) : Decidable (IsZip blob) := inferInstanceAs (Decidable (_ <+: _))

theorem not_isGzip {blob : Bytes} (h : IsZip blob) : ¬ IsGzip blob := by
  obtain ⟨rest, rfl⟩ := h
  rintro ⟨rest', h⟩
  exact absurd (List.cons.inj h).1 (by decide)

def Stream.Exceeds (s : Stream) : Prop := MAX_UNCOMPRESSED < s.bytes.length

/-- The stream has come to its end without a fault, and this is all of it. -/
def Stream.Whole (s : Stream) (document : Bytes) : Prop := s.fault = none ∧ s.bytes = document

def Member.Oversized (m : Member) : Prop :=
  m.isFile ∧ (MAX_UNCOMPRESSED < m.size ∨ m.stream.Exceeds)

/-- A directory is skipped, and a file read to its end. -/
def Member.Passes (m : Member) : Prop :=
  m.isFile → m.size ≤ MAX_UNCOMPRESSED ∧ ¬ m.stream.Exceeds ∧ m.stream.fault = none

section Read

variable {s : Stream}

theorem capped_of_exceeds (h : s.Exceeds) : ∃ out, s.readUpTo (MAX_UNCOMPRESSED + 1) = .ok out ∧
    MAX_UNCOMPRESSED < out.length := by
  refine ⟨s.bytes.take (MAX_UNCOMPRESSED + 1), if_pos h, ?_⟩
  rw [List.length_take_of_le h]
  exact Nat.lt_succ_self _

theorem capped_of_not_exceeds (h : ¬ s.Exceeds) : s.readUpTo (MAX_UNCOMPRESSED + 1) =
    match s.fault with
    | some message => .error message
    | none => .ok s.bytes :=
  if_neg h

/-- A stream that is read is checked, and refused if it has more than the cap. -/
def checked (s : Stream) : Except Error Bytes := do
  let out ← archiveError (s.readUpTo (MAX_UNCOMPRESSED + 1))
  if MAX_UNCOMPRESSED < out.length then throw .tooLarge
  return out

theorem checked_of_exceeds (h : s.Exceeds) : checked s = .error .tooLarge := by
  obtain ⟨out, hout, hlen⟩ := capped_of_exceeds h
  simp only [checked, hout]
  exact if_pos hlen

theorem checked_of_fault (h : ¬ s.Exceeds) {message : Text} (hf : s.fault = some message) :
    checked s = .error (.archive (clipped message)) := by
  simp only [checked, capped_of_not_exceeds h, hf]
  rfl

theorem checked_of_whole (h : ¬ s.Exceeds) (hf : s.fault = none) : checked s = .ok s.bytes := by
  simp only [checked, capped_of_not_exceeds h, hf]
  exact if_neg h

theorem checked_eq_tooLarge : checked s = .error .tooLarge ↔ s.Exceeds := by
  by_cases h : s.Exceeds
  · exact iff_of_true (checked_of_exceeds h) h
  · refine iff_of_false (fun he ↦ ?_) h
    cases hf : s.fault with
    | some message => cases (checked_of_fault h hf).symm.trans he
    | none => cases (checked_of_whole h hf).symm.trans he

theorem checked_eq_ok {document : Bytes} :
    checked s = .ok document ↔ ¬ s.Exceeds ∧ s.Whole document := by
  by_cases h : s.Exceeds
  · refine iff_of_false (fun he ↦ ?_) (fun he ↦ he.1 h)
    cases (checked_of_exceeds h).symm.trans he
  · rw [and_iff_right h]
    cases hf : s.fault with
    | some message =>
      refine iff_of_false (fun he ↦ ?_) fun he ↦ ?_
      · cases (checked_of_fault h hf).symm.trans he
      · cases hf.symm.trans he.1
    | none =>
      rw [checked_of_whole h hf, Except.ok.injEq]
      exact (and_iff_right hf).symm

end Read

section Visit

/-- One round of the loop of `unzip`. -/
def visit (entry : Except Text Member) : Except Error (Option Bytes) := do
  let m ← archiveError entry
  if !m.isFile then return none
  if MAX_UNCOMPRESSED < m.size then throw .tooLarge
  return some (← checked m.stream)

variable {m : Member} {entry : Except Text Member}

theorem visit_directory (h : m.isFile = false) : visit (.ok m) = .ok none := by
  change (if !m.isFile then _ else _) = _
  rw [h]
  rfl

theorem visit_file (h : m.isFile = true) (hsize : m.size ≤ MAX_UNCOMPRESSED) :
    visit (.ok m) = (checked m.stream).map some := by
  change (if !m.isFile then _ else _) = _
  rw [h, if_neg (by decide), if_neg (by omega)]
  cases checked m.stream <;> rfl

theorem visit_size (h : m.isFile = true) (hsize : MAX_UNCOMPRESSED < m.size) :
    visit (.ok m) = .error .tooLarge := by
  change (if !m.isFile then _ else _) = _
  rw [h, if_neg (by decide)]
  exact if_pos hsize

theorem visit_eq_tooLarge :
    visit entry = .error .tooLarge ↔ ∃ m : Member, entry = .ok m ∧ m.Oversized := by
  cases entry with
  | error message => exact iff_of_false nofun (fun ⟨_, h, _⟩ ↦ nomatch h)
  | ok m =>
    simp only [Except.ok.injEq, exists_eq_left', Member.Oversized]
    cases hm : m.isFile with
    | false =>
      rw [visit_directory hm]
      simp
    | true =>
      by_cases hsize : MAX_UNCOMPRESSED < m.size
      · exact iff_of_true (visit_size hm hsize) ⟨rfl, .inl hsize⟩
      · rw [visit_file hm (by omega), ← checked_eq_tooLarge]
        cases checked m.stream <;> simp [Except.map, hsize]

theorem visit_eq_ok {o : Option Bytes} : visit entry = .ok o ↔ ∃ m : Member, entry = .ok m ∧
    m.Passes ∧ o = if m.isFile then some m.stream.bytes else none := by
  cases entry with
  | error message => exact iff_of_false nofun (fun ⟨_, h, _⟩ ↦ nomatch h)
  | ok m =>
    simp only [Except.ok.injEq, exists_eq_left', Member.Passes]
    cases hm : m.isFile with
    | false =>
      rw [visit_directory hm]
      simp [eq_comm]
    | true =>
      by_cases hsize : MAX_UNCOMPRESSED < m.size
      · rw [visit_size hm hsize]
        refine iff_of_false nofun fun h ↦ ?_
        have := (h.1 rfl).1
        omega
      · rw [visit_file hm (by omega)]
        constructor
        · intro h
          cases hc : checked m.stream with
          | error err =>
            rw [hc] at h
            cases h
          | ok document =>
            rw [hc] at h
            obtain ⟨hlen, hfault, rfl⟩ := checked_eq_ok.mp hc
            exact ⟨fun _ ↦ ⟨by omega, hlen, hfault⟩, (Except.ok.inj h).symm⟩
        · rintro ⟨h, rfl⟩
          obtain ⟨-, hlen, hfault⟩ := h rfl
          rw [checked_of_whole hlen hfault]
          rfl

/-- The loop passes a list of members that each pass, and no other, and keeps
every file of it. -/
theorem filterMapM_visit {entries : List (Except Text Member)} {documents : List Bytes} :
    entries.filterMapM visit = .ok documents ↔ ∃ members : List Member,
      entries = members.map .ok ∧ (∀ m ∈ members, m.Passes) ∧
        documents = (members.filter (·.isFile)).map (·.stream.bytes) := by
  induction entries generalizing documents with
  | nil =>
    constructor
    · intro h
      obtain rfl := Except.ok.inj h
      exact ⟨[], rfl, fun _ h ↦ absurd h List.not_mem_nil, rfl⟩
    · rintro ⟨members, h, -, rfl⟩
      obtain rfl := List.map_eq_nil_iff.mp h.symm
      rfl
  | cons entry entries ih =>
    rw [filterMapM_cons_eq_ok]
    constructor
    · rintro ⟨o, rest, ho, hrest, rfl⟩
      obtain ⟨m, rfl, hm, rfl⟩ := visit_eq_ok.mp ho
      obtain ⟨members, rfl, hmembers, rfl⟩ := ih.mp hrest
      refine ⟨m :: members, rfl, List.forall_mem_cons.mpr ⟨hm, hmembers⟩, ?_⟩
      cases hfile : m.isFile <;> simp [hfile]
    · rintro ⟨members, h, hpass, rfl⟩
      cases members with
      | nil => cases h
      | cons m members =>
        obtain ⟨rfl, rfl⟩ := List.cons.inj h
        obtain ⟨hm, hmembers⟩ := List.forall_mem_cons.mp hpass
        refine ⟨_, _, visit_eq_ok.mpr ⟨m, rfl, hm, rfl⟩, ih.mpr ⟨members, rfl, hmembers, rfl⟩, ?_⟩
        cases hfile : m.isFile <;> simp [hfile]

theorem visit_entry (entry : Except Text Member) : (do
    let entry ← archiveError (entry.map Member.entry)
    if !entry.isFile then return none
    if MAX_UNCOMPRESSED < entry.size then throw .tooLarge
    let buf ← archiveError (entry.read (MAX_UNCOMPRESSED + 1))
    if MAX_UNCOMPRESSED < buf.length then throw .tooLarge
    return some buf) = visit entry := by
  cases entry with
  | error message => rfl
  | ok m =>
    change (if !m.isFile then _ else if MAX_UNCOMPRESSED < m.size then _ else _) =
      if !m.isFile then _ else if MAX_UNCOMPRESSED < m.size then _ else _
    congr 2
    simp only [checked, Member.entry]
    cases m.stream.readUpTo (MAX_UNCOMPRESSED + 1) with
    | error message => rfl
    | ok out =>
      change (if MAX_UNCOMPRESSED < out.length then _ else _) =
        (if MAX_UNCOMPRESSED < out.length then _ else _) >>= _
      split_ifs <;> rfl

end Visit

section Unzip

variable [Decoders] {blob : Bytes} {documents : List Bytes}

theorem unzip_eq : unzip blob = do
    let entries ← archiveError (Decoders.zip blob)
    if MAX_ARCHIVE_MEMBERS < entries.length then throw .tooManyMembers
    let out ← entries.filterMapM visit
    if out = [] then throw .empty
    return out := by
  unfold unzip
  change (archiveError ((Decoders.zip blob).map _) >>= _) = _
  cases Decoders.zip blob with
  | error message => rfl
  | ok entries =>
    change (if MAX_ARCHIVE_MEMBERS < (entries.map (Except.map Member.entry)).length then _ else
      List.filterMapM _ (entries.map _) >>= _) = _
    rw [List.length_map, filterMapM_map]
    simp only [Function.comp_def, visit_entry]
    rfl

theorem unzip_eq_ok : unzip blob = .ok documents ↔ ∃ members : List Member,
    Decoders.zip blob = .ok (members.map .ok) ∧ members.length ≤ MAX_ARCHIVE_MEMBERS ∧
      (∀ m ∈ members, m.Passes) ∧
      documents = (members.filter (·.isFile)).map (·.stream.bytes) ∧ documents ≠ [] := by
  rw [unzip_eq]
  constructor
  · intro h
    obtain ⟨entries, hentries, h⟩ := ok_of_bind h
    obtain ⟨hcount, h⟩ := ok_of_unless h
    obtain ⟨out, hout, h⟩ := ok_of_bind h
    obtain ⟨hne, h⟩ := ok_of_unless h
    obtain rfl := Except.ok.inj h
    obtain ⟨members, rfl, hpass, rfl⟩ := filterMapM_visit.mp hout
    refine ⟨members, ?_, by simpa using hcount, hpass, rfl, hne⟩
    cases hzip : Decoders.zip blob with
    | error message =>
      rw [hzip] at hentries
      cases hentries
    | ok entries =>
      rw [hzip] at hentries
      exact congrArg _ (Except.ok.inj hentries)
  · rintro ⟨members, hzip, hcount, hpass, hdocs, hne⟩
    have hout := filterMapM_visit.mpr ⟨members, rfl, hpass, hdocs⟩
    rw [hzip]
    change (if MAX_ARCHIVE_MEMBERS < (members.map _).length then _ else
      List.filterMapM visit (members.map _) >>= _) = _
    rw [hout, List.length_map, if_neg (by omega)]
    exact if_neg hne

theorem unzip_eq_tooLarge : unzip blob = .error .tooLarge ↔
    ∃ (before : List Member) (m : Member) (after : List (Except Text Member)),
      Decoders.zip blob = .ok (before.map .ok ++ .ok m :: after) ∧
      before.length + 1 + after.length ≤ MAX_ARCHIVE_MEMBERS ∧
      (∀ b ∈ before, b.Passes) ∧ m.Oversized := by
  rw [unzip_eq]
  cases Decoders.zip blob with
  | error message => exact iff_of_false nofun (fun ⟨_, _, _, h, _⟩ ↦ nomatch h)
  | ok entries =>
    change (if MAX_ARCHIVE_MEMBERS < entries.length then _ else
      List.filterMapM visit entries >>= _) = _ ↔ _
    by_cases hcount : MAX_ARCHIVE_MEMBERS < entries.length
    · rw [if_pos hcount]
      refine iff_of_false nofun fun h ↦ ?_
      obtain ⟨before, m, after, h, hle, -⟩ := h
      obtain rfl := Except.ok.inj h
      simp at hcount
      omega
    · rw [if_neg hcount]
      have hloop : (entries.filterMapM visit >>= fun out ↦
          if out = [] then throw Error.empty else return out) = .error .tooLarge ↔
          entries.filterMapM visit = .error .tooLarge := by
        cases entries.filterMapM visit with
        | error err => exact Iff.rfl
        | ok out =>
          refine iff_of_false (fun h ↦ ?_) nofun
          change (if out = [] then _ else _) = _ at h
          split_ifs at h <;> cases h
      refine hloop.trans (filterMapM_eq_error.trans ⟨fun h ↦ ?_, fun h ↦ ?_⟩)
      · obtain ⟨passed, entry, after, rfl, ⟨out, hout⟩, hentry⟩ := h
        obtain ⟨m, rfl, hm⟩ := visit_eq_tooLarge.mp hentry
        obtain ⟨before, rfl, hbefore, -⟩ := filterMapM_visit.mp hout
        refine ⟨before, m, after, rfl, ?_, hbefore, hm⟩
        simp at hcount
        omega
      · obtain ⟨before, m, after, h, -, hbefore, hm⟩ := h
        obtain rfl := Except.ok.inj h
        have hout := filterMapM_visit.mpr ⟨before, rfl, hbefore, rfl⟩
        exact ⟨before.map .ok, .ok m, after, rfl, ⟨_, hout⟩, visit_eq_tooLarge.mpr ⟨m, rfl, hm⟩⟩

end Unzip

section Extract

variable [Decoders] {blob : Bytes} {documents : List Bytes}

theorem extract_gzip (h : IsGzip blob) :
    extract blob = (checked (Decoders.gzip blob)).map fun document ↦ [document] := by
  change (if IsGzip blob then _ else _) = _
  rw [if_pos h]
  change (checked (Decoders.gzip blob) >>= _) = _
  cases checked (Decoders.gzip blob) <;> rfl

theorem extract_zip (h : IsZip blob) : extract blob = unzip blob := by
  change (if IsGzip blob then _ else if IsZip blob then _ else _) = _
  rw [if_neg (not_isGzip h), if_pos h]

theorem extract_bare (hgzip : ¬ IsGzip blob) (hzip : ¬ IsZip blob) :
    extract blob = if MAX_UNCOMPRESSED < blob.length then .error .tooLarge else .ok [blob] := by
  change (if IsGzip blob then _ else if IsZip blob then _ else _) = _
  rw [if_neg hgzip, if_neg hzip]
  rfl

/-- The documents that an attachment wraps: the whole of its gzip body, or the
whole of each file of its zip, in their order, or itself. -/
inductive Wraps (blob : Bytes) : List Bytes → Prop
  | gzip {document : Bytes} (h : IsGzip blob)
      (whole : (Decoders.gzip blob).Whole document) : Wraps blob [document]
  | zip {members : List Member} {documents : List Bytes} (h : IsZip blob)
      (opened : Decoders.zip blob = .ok (members.map .ok))
      (whole : List.Forall₂ (fun m document ↦ m.stream.Whole document)
        (members.filter (·.isFile)) documents) : Wraps blob documents
  | bare (hgzip : ¬ IsGzip blob) (hzip : ¬ IsZip blob) : Wraps blob [blob]

/-- A stream or a declared size is over the cap where nothing before it has failed. -/
inductive Oversized (blob : Bytes) : Prop
  | gzip (h : IsGzip blob) (exceeds : (Decoders.gzip blob).Exceeds)
  | zip {before : List Member} {m : Member} {after : List (Except Text Member)} (h : IsZip blob)
      (opened : Decoders.zip blob = .ok (before.map .ok ++ .ok m :: after))
      (few : before.length + 1 + after.length ≤ MAX_ARCHIVE_MEMBERS)
      (passes : ∀ b ∈ before, b.Passes) (oversized : m.Oversized)
  | bare (hgzip : ¬ IsGzip blob) (hzip : ¬ IsZip blob) (exceeds : MAX_UNCOMPRESSED < blob.length)

theorem wraps_of_extract (h : extract blob = .ok documents) : Wraps blob documents := by
  by_cases hgzip : IsGzip blob
  · rw [extract_gzip hgzip] at h
    cases hc : checked (Decoders.gzip blob) with
    | error err =>
      rw [hc] at h
      cases h
    | ok document =>
      rw [hc] at h
      obtain rfl := Except.ok.inj h
      exact .gzip hgzip (checked_eq_ok.mp hc).2
  by_cases hzip : IsZip blob
  · rw [extract_zip hzip] at h
    obtain ⟨members, hopened, -, hpass, rfl, -⟩ := unzip_eq_ok.mp h
    refine .zip hzip hopened ?_
    rw [List.forall₂_map_right_iff, List.forall₂_same]
    intro m hm
    obtain ⟨hm, hfile⟩ := List.mem_filter.mp hm
    exact ⟨(hpass m hm hfile).2.2, rfl⟩
  · rw [extract_bare hgzip hzip] at h
    split_ifs at h
    obtain rfl := Except.ok.inj h
    exact .bare hgzip hzip

theorem extract_eq_tooLarge : extract blob = .error .tooLarge ↔ Oversized blob := by
  by_cases hgzip : IsGzip blob
  · have hmap : extract blob = .error .tooLarge ↔ checked (Decoders.gzip blob) = .error .tooLarge := by
      rw [extract_gzip hgzip]
      cases checked (Decoders.gzip blob) <;> simp [Except.map]
    refine hmap.trans (checked_eq_tooLarge.trans ⟨.gzip hgzip, fun h ↦ ?_⟩)
    cases h with
    | gzip _ exceeds => exact exceeds
    | zip hzip => exact absurd hgzip (not_isGzip hzip)
    | bare h => exact absurd hgzip h
  by_cases hzip : IsZip blob
  · rw [extract_zip hzip, unzip_eq_tooLarge]
    constructor
    · rintro ⟨before, m, after, hopened, hfew, hpasses, hm⟩
      exact .zip hzip hopened hfew hpasses hm
    · intro h
      cases h with
      | gzip h => exact absurd h hgzip
      | zip _ hopened hfew hpasses hm => exact ⟨_, _, _, hopened, hfew, hpasses, hm⟩
      | bare _ h => exact absurd hzip h
  · rw [extract_bare hgzip hzip]
    constructor
    · intro h
      split_ifs at h with hlen
      exact .bare hgzip hzip hlen
    · intro h
      cases h with
      | gzip h => exact absurd h hgzip
      | zip h => exact absurd h hzip
      | bare _ _ hlen => exact if_pos hlen

/-- What is unwrapped is whole, and nothing but what is over the cap is too large. -/
theorem extract_faithful (blob : Bytes) :
    (∀ documents, extract blob = .ok documents → Wraps blob documents) ∧
    (extract blob = .error .tooLarge ↔ Oversized blob) :=
  ⟨fun _ h ↦ wraps_of_extract h, extract_eq_tooLarge⟩

def total (documents : List Bytes) : ℕ := (documents.map List.length).sum

/-- An archive whose members all pass keeps to the cap with all of them together. -/
def WithinTotal (blob : Bytes) : Prop :=
  IsZip blob → ∀ members : List Member, Decoders.zip blob = .ok (members.map .ok) →
    members.length ≤ MAX_ARCHIVE_MEMBERS → (∀ m ∈ members, m.Passes) →
      total ((members.filter (·.isFile)).map (·.stream.bytes)) ≤ MAX_UNCOMPRESSED

theorem extract_total_le (blob : Bytes) :
    (∀ documents, extract blob = .ok documents → total documents ≤ MAX_UNCOMPRESSED) ↔
      WithinTotal blob := by
  by_cases hzip : IsZip blob
  · rw [extract_zip hzip]
    constructor
    · intro h _ members hopened hfew hpasses
      cases hdocs : (members.filter (·.isFile)).map (·.stream.bytes) with
      | nil => exact Nat.zero_le _
      | cons document documents =>
        refine h _ (unzip_eq_ok.mpr ⟨members, hopened, hfew, hpasses, hdocs.symm, ?_⟩)
        exact List.cons_ne_nil _ _
    · intro h documents hdocs
      obtain ⟨members, hopened, hfew, hpasses, rfl, -⟩ := unzip_eq_ok.mp hdocs
      exact h hzip members hopened hfew hpasses
  · refine iff_of_true (fun documents h ↦ ?_) fun h ↦ absurd h hzip
    by_cases hgzip : IsGzip blob
    · rw [extract_gzip hgzip] at h
      cases hc : checked (Decoders.gzip blob) with
      | error err =>
        rw [hc] at h
        cases h
      | ok document =>
        rw [hc] at h
        obtain rfl := Except.ok.inj h
        obtain ⟨hlen, -, rfl⟩ := checked_eq_ok.mp hc
        have hone : total [(Decoders.gzip blob).bytes] = (Decoders.gzip blob).bytes.length :=
          List.sum_singleton
        rw [hone]
        exact not_lt.mp hlen
    · rw [extract_bare hgzip hzip] at h
      split_ifs at h with hlen
      obtain rfl := Except.ok.inj h
      have hone : total [blob] = blob.length := List.sum_singleton
      omega

end Extract

/-! Two files of 17 MiB of zeros in one archive: each is within the cap. -/

def localHeader (name : UInt8) : Bytes :=
  [80, 75, 3, 4, 20, 0, 0, 0, 8, 0, 0, 0, 33, 0, 11, 9, 119, 143, 188, 67, 0, 0, 0, 0, 16, 1,
    5, 0, 0, 0, name, 46, 120, 109, 108]

def centralHeader (offset : Bytes) (name : UInt8) : Bytes :=
  [80, 75, 1, 2, 20, 3, 20, 0, 0, 0, 8, 0, 0, 0, 33, 0, 11, 9, 119, 143, 188, 67, 0, 0, 0, 0, 16,
    1, 5, 0, 0, 0, 0, 0, 0, 0, 0, 0, 0, 0, 128, 1] ++ offset ++ [0, 0, name, 46, 120, 109, 108]

def deflatedZeros : Bytes :=
  [236, 193, 1, 1, 0, 0, 0, 128, 144, 254, 175, 238, 8, 10] ++ List.replicate 4094 0 ++
  [128, 217, 131, 3, 1, 0, 0, 0, 0, 32, 255, 215, 70, 80] ++ List.replicate 4095 85 ++
  [97, 15, 14, 4, 0, 0, 0, 0, 128, 252, 95, 27, 65] ++ List.replicate 4095 85 ++
  [133, 61, 56, 16, 0, 0, 0, 0, 0, 242, 127, 109, 4] ++ List.replicate 4095 85 ++
  [149, 246, 224, 144, 0, 0, 0, 0, 64, 208, 255, 215, 126, 48, 3] ++ List.replicate 890 0 ++
  [240, 4]

def twoFiles : Bytes :=
  localHeader 97 ++ (deflatedZeros ++ (localHeader 98 ++ (deflatedZeros ++
    (centralHeader [0, 0] 97 ++ (centralHeader [223, 67] 98 ++
      [80, 75, 5, 6, 0, 0, 0, 0, 2, 0, 2, 0, 102, 0, 0, 0, 190, 135, 0, 0, 0, 0])))))

def zeros : Member := ⟨true, 17825792, { bytes := List.replicate 17825792 0 }⟩

/-- The decoders as far as that archive goes. -/
@[reducible] def twoFilesDecoders : Decoders where
  gzip _ := ⟨[], some "invalid gzip header".toList⟩
  zip blob := if blob = twoFiles then .ok [.ok zeros, .ok zeros] else
    .error "invalid Zip archive".toList
  xml _ := .error "unexpected end".toList

theorem zeros_passes : zeros.Passes := by
  have hlen : zeros.stream.bytes.length = 17825792 := List.length_replicate
  have hmax : MAX_UNCOMPRESSED = 33554432 := rfl
  refine fun _ ↦ ⟨?_, ?_, rfl⟩
  · change 17825792 ≤ MAX_UNCOMPRESSED
    omega
  · unfold Stream.Exceeds
    omega

/-- They come out together, beyond the cap. -/
theorem twoFiles_exceed : ¬ ∀ (_ : Decoders) (blob : Bytes) (documents : List Bytes),
    extract blob = .ok documents → total documents ≤ MAX_UNCOMPRESSED := by
  intro h
  let _ := twoFilesDecoders
  have hzip : IsZip twoFiles := ⟨_, rfl⟩
  have hopened : Decoders.zip twoFiles = .ok ([zeros, zeros].map .ok) := if_pos rfl
  have hpasses : ∀ m ∈ [zeros, zeros], m.Passes := by
    simp only [List.forall_mem_cons, zeros_passes, List.not_mem_nil, false_implies, implies_true,
      and_self]
  have hdocs := unzip_eq_ok.mpr
    ⟨[zeros, zeros], hopened, by decide, hpasses, rfl, List.cons_ne_nil _ _⟩
  have hle := h twoFilesDecoders twoFiles _ ((extract_zip hzip).trans hdocs)
  have htotal : total [zeros.stream.bytes, zeros.stream.bytes] = 17825792 + 17825792 := by
    simp only [total, zeros, List.map_cons, List.map_nil, List.length_replicate, List.sum_cons,
      List.sum_nil, Nat.add_zero]
  have hmax : MAX_UNCOMPRESSED = 33554432 := rfl
  change total [zeros.stream.bytes, zeros.stream.bytes] ≤ _ at hle
  omega

end Postbud.Dmarc
