import Postbud.Core.DnsOrder

namespace Postbud.DnsCheck

open Lib Lib.Text Lib.ByteSlice Lib.Words

/-! Records as lists of tags, and the white space that may be added to them:
around `=` and `;`, and inside a key. -/

def Pad (t : Text) : Prop := ∀ c ∈ t, c = ' ' ∨ c = '\t'

/-- The same text with spaces and tabs added anywhere. -/
inductive Spread : Text → Text → Prop
  | nil : Spread [] []
  | keep {t t' : Text} (c : Char) (h : Spread t t') : Spread (c :: t) (c :: t')
  | pad {c : Char} {t t' : Text} (hc : c = ' ' ∨ c = '\t') (h : Spread t t') : Spread t (c :: t')

/-- A tag, and what is added to it. -/
structure Tag where
  name : Text
  value : Text
  before : Text := []
  beforeEq : Text := []
  afterEq : Text := []
  value' : Text := value
  after : Text := []
  nameOk : '=' ∉ name ∧ ';' ∉ name
  valueOk : ';' ∉ value
  spread : Spread value value'
  pads : Pad before ∧ Pad beforeEq ∧ Pad afterEq ∧ Pad after

/-- What stands between two semicolons and is no tag. -/
structure Bare where
  text : Text
  before : Text := []
  after : Text := []
  textOk : '=' ∉ text ∧ ';' ∉ text
  pads : Pad before ∧ Pad after

inductive Piece
  | tag (t : Tag)
  | bare (b : Bare)

def Piece.plain : Piece → Text
  | tag t => t.name ++ '=' :: t.value
  | bare b => b.text

def Piece.spaced : Piece → Text
  | tag t => t.before ++ t.name ++ t.beforeEq ++ '=' :: (t.afterEq ++ t.value' ++ t.after)
  | bare b => b.before ++ b.text ++ b.after

def plain (pieces : List Piece) : Text := [';'].intercalate (pieces.map Piece.plain)

def spaced (pieces : List Piece) : Text := [';'].intercalate (pieces.map Piece.spaced)

section Pads

variable {t t' u : Text} {c : Char}

theorem Pad.blank (h : Pad t) : Blank t := by
  intro c hc
  obtain rfl | rfl := h c hc <;> rfl

theorem Pad.notMem (h : Pad t) (hc : isWhitespace c = false) : c ∉ t := by
  intro hmem
  rw [h.blank c hmem] at hc
  cases hc

theorem Pad.append {a b : Text} (ha : Pad a) (hb : Pad b) : Pad (a ++ b) :=
  List.forall_mem_append.mpr ⟨ha, hb⟩

theorem stripKey_append (a b : Text) : stripKey (a ++ b) = stripKey a ++ stripKey b :=
  List.filter_append a b

theorem stripKey_blank (h : Blank t) : stripKey t = [] := by
  refine List.filter_eq_nil_iff.mpr fun c hc ↦ ?_
  simp [h c hc]

theorem stripKey_spread (h : Spread t t') : stripKey t' = stripKey t := by
  induction h with
  | nil => rfl
  | keep c _ ih => rw [← List.singleton_append, stripKey_append, ih, ← stripKey_append]; rfl
  | pad hc _ ih =>
    rename_i c _ t' _
    have hblank : Blank [c] := Pad.blank (List.forall_mem_singleton.mpr hc)
    rw [← List.singleton_append, stripKey_append, ih, stripKey_blank hblank]
    rfl

theorem stripKey_rdropWhile (t : Text) : stripKey (t.rdropWhile isWhitespace) = stripKey t := by
  have hblank : Blank (t.rtakeWhile isWhitespace) := fun c hc ↦ by
    rw [List.rtakeWhile, List.mem_reverse] at hc
    exact List.mem_takeWhile_imp hc
  have hwhole := stripKey_append (t.rdropWhile isWhitespace) (t.rtakeWhile isWhitespace)
  rw [List.rdropWhile_append_rtakeWhile, stripKey_blank hblank, List.append_nil] at hwhole
  exact hwhole.symm

theorem notMem_spread (h : Spread t t') (hc : c ∉ t) (hws : isWhitespace c = false) : c ∉ t' := by
  induction h with
  | nil => exact hc
  | keep d _ ih =>
    rw [List.mem_cons, not_or] at hc ⊢
    exact ⟨hc.1, ih hc.2⟩
  | pad hd _ ih =>
    rw [List.mem_cons, not_or]
    refine ⟨?_, ih hc⟩
    rintro rfl
    obtain rfl | rfl := hd <;> cases hws

end Pads

section Pieces

variable {pieces : List Piece} {p : Piece}

theorem notMem_plain : ';' ∉ p.plain := by
  cases p with
  | tag t => simp [Piece.plain, t.nameOk.2, t.valueOk]
  | bare b => exact b.textOk.2

theorem notMem_spaced : ';' ∉ p.spaced := by
  cases p with
  | tag t =>
    obtain ⟨hbefore, hbeforeEq, hafterEq, hafter⟩ := t.pads
    have hvalue := notMem_spread t.spread t.valueOk rfl
    simp [Piece.spaced, t.nameOk.2, hvalue, hbefore.notMem, hbeforeEq.notMem, hafterEq.notMem,
      hafter.notMem, (by decide : isWhitespace ';' = false)]
  | bare b =>
    simp [Piece.spaced, b.textOk.2, b.pads.1.notMem, b.pads.2.notMem,
      (by decide : isWhitespace ';' = false)]

theorem notMem_bare (b : Bare) : '=' ∉ (Piece.bare b).spaced := by
  have heq : isWhitespace '=' = false := rfl
  simp [Piece.spaced, b.textOk.1, b.pads.1.notMem heq, b.pads.2.notMem heq]

/-- A search through the parts of a record is one through its pieces. -/
theorem findSome?_splitOn {α : Type} {f : Text → Option α} (hf : f [] = none) (g : Piece → Text)
    (hg : ∀ p, ';' ∉ g p) : (([';'].intercalate (pieces.map g)).splitOn ';').findSome? f =
      pieces.findSome? fun p ↦ f (g p) := by
  cases pieces with
  | nil =>
    change List.findSome? f [[]] = none
    rw [List.findSome?_cons, hf]
    rfl
  | cons p pieces =>
    have hall : ∀ part ∈ (p :: pieces).map g, ';' ∉ part := by
      intro part hpart
      obtain ⟨q, -, rfl⟩ := List.mem_map.mp hpart
      exact hg q
    rw [List.splitOn_intercalate ';' hall (List.cons_ne_nil _ _), List.findSome?_map]
    rfl

end Pieces

section Key

/-- The key of one part of a DKIM record. -/
def keyOfPart (part : Text) : Option Text := (stripPrefix "p=".toList (trim part)).map stripKey

theorem stripPrefix_p {a b : Text} (ha : '=' ∉ a) :
    stripPrefix "p=".toList (a ++ '=' :: b) = if a = ['p'] then some b else none := by
  have hword : "p=".toList = ['p', '='] := rfl
  rw [stripPrefix, hword]
  cases a with
  | nil => simp
  | cons c a =>
    cases a with
    | nil =>
      by_cases hc : c = 'p'
      · simp [hc]
      · simp [hc, Ne.symm hc]
    | cons d a =>
      have hd : '=' ≠ d := fun h ↦ ha (h ▸ List.mem_cons_of_mem _ List.mem_cons_self)
      simp [hd]

theorem dropWhile_eq_p {name pad : Text} (hpad : Pad pad) :
    (name ++ pad).dropWhile isWhitespace = ['p'] ↔ trimStart name = ['p'] ∧ pad = [] := by
  cases pad using List.reverseRecOn with
  | nil => simp [trimStart]
  | append_singleton pad c =>
    -- What ends in white space does not end in `p`.
    have hc : isWhitespace c = true := hpad.blank c (List.mem_append_right _ (List.mem_singleton_self c))
    refine iff_of_false (fun h ↦ ?_) (by simp)
    have hsuffix : ['p'] <:+ name ++ (pad ++ [c]) := h ▸ List.dropWhile_suffix _
    rw [← List.append_assoc] at hsuffix
    obtain rfl : 'p' = c := by
      have hlast := hsuffix.getLast (by simp)
      simpa using hlast
    cases hc

/-- A part has a key if its name is `p` and the equals sign follows at once. -/
theorem keyOfPart_tag {before name pad : Text} (hbefore : Pad before) (hname : '=' ∉ name)
    (hpad : Pad pad) (rest : Text) : keyOfPart (before ++ name ++ pad ++ '=' :: rest) =
      if trimStart name = ['p'] ∧ pad = [] then some (stripKey rest) else none := by
  have hnot : '=' ∉ (before ++ name ++ pad).dropWhile isWhitespace := by
    intro h
    have hmem := (List.dropWhile_sublist _).subset h
    have heq : isWhitespace '=' = false := rfl
    simp [hname, hbefore.notMem heq, hpad.notMem heq] at hmem
  rw [keyOfPart, trim_around rfl, stripPrefix_p hnot, List.append_assoc,
    List.dropWhile_append_of_pos hbefore.blank]
  simp only [dropWhile_eq_p hpad]
  split_ifs
  · exact congrArg some (stripKey_rdropWhile rest)
  · rfl

/-- The tags `p` of a DKIM record. -/
def keyTags (pieces : List Piece) : List Tag :=
  pieces.filterMap fun
    | .tag t => if trimStart t.name = ['p'] then some t else none
    | .bare _ => none

variable {pieces : List Piece}

theorem keyOfPart_bare {t : Text} (h : '=' ∉ t) : keyOfPart t = none := by
  obtain ⟨u, v, ht, -, -⟩ := exists_trim t
  have hnot : '=' ∉ trim t := by
    intro hmem
    rw [ht] at h
    exact h (List.mem_append_left _ (List.mem_append_right _ hmem))
  have hprefix : ¬ "p=".toList <+: trim t := fun hp ↦
    hnot (hp.subset (List.mem_cons_of_mem _ List.mem_cons_self))
  rw [keyOfPart, stripPrefix, if_neg hprefix]
  rfl

theorem keyTags_tag (t : Tag) : keyTags (.tag t :: pieces) =
    if trimStart t.name = ['p'] then t :: keyTags pieces else keyTags pieces := by
  unfold keyTags
  rw [List.filterMap_cons]
  dsimp only
  split_ifs <;> rfl

theorem keyTags_bare (b : Bare) : keyTags (.bare b :: pieces) = keyTags pieces := rfl

theorem keyOfPart_plain (t : Tag) : keyOfPart (Piece.tag t).plain =
    if trimStart t.name = ['p'] then some (stripKey t.value) else none := by
  have hnil : Pad [] := fun _ h ↦ absurd h List.not_mem_nil
  have h := keyOfPart_tag hnil t.nameOk.1 hnil t.value
  simpa [Piece.plain] using h

theorem keyOfPart_spaced (t : Tag) : keyOfPart (Piece.tag t).spaced =
    if trimStart t.name = ['p'] ∧ t.beforeEq = [] then some (stripKey t.value) else none := by
  obtain ⟨hbefore, hbeforeEq, hafterEq, hafter⟩ := t.pads
  have hkey : stripKey (t.afterEq ++ t.value' ++ t.after) = stripKey t.value := by
    rw [stripKey_append, stripKey_append, stripKey_blank hafterEq.blank, stripKey_blank hafter.blank,
      stripKey_spread t.spread, List.nil_append, List.append_nil]
  have h := keyOfPart_tag hbefore t.nameOk.1 hbeforeEq (t.afterEq ++ t.value' ++ t.after)
  rwa [hkey] at h

theorem dkimKeyOf_plain :
    dkimKeyOf (plain pieces) = (keyTags pieces).head?.map fun t ↦ stripKey t.value := by
  change ((plain pieces).splitOn ';').findSome? keyOfPart = _
  rw [plain, findSome?_splitOn rfl _ fun _ ↦ notMem_plain]
  induction pieces with
  | nil => rfl
  | cons p pieces ih =>
    rw [List.findSome?_cons]
    cases p with
    | tag t =>
      rw [keyOfPart_plain, keyTags_tag]
      split_ifs
      · rfl
      · exact ih
    | bare b =>
      have hnone : keyOfPart (Piece.bare b).plain = none := keyOfPart_bare b.textOk.1
      rw [hnone, keyTags_bare]
      exact ih

theorem dkimKeyOf_spaced : dkimKeyOf (spaced pieces) =
    ((keyTags pieces).find? (·.beforeEq = [])).map fun t ↦ stripKey t.value := by
  change ((spaced pieces).splitOn ';').findSome? keyOfPart = _
  rw [spaced, findSome?_splitOn rfl _ fun _ ↦ notMem_spaced]
  induction pieces with
  | nil => rfl
  | cons p pieces ih =>
    rw [List.findSome?_cons]
    cases p with
    | tag t =>
      rw [keyOfPart_spaced, keyTags_tag]
      by_cases hname : trimStart t.name = ['p'] <;> by_cases hpad : t.beforeEq = [] <;>
        simp [hname, hpad, ih]
    | bare b =>
      rw [keyOfPart_bare (notMem_bare b), keyTags_bare]
      exact ih

end Key

section Dmarc

/-- What one part of a DMARC record says of a tag. -/
def tagOfPart (name part : Text) : Option Text :=
  (splitOnce '=' part).bind fun (key, value) ↦
    if eqIgnoreAsciiCase (trim key) name then some (trim value) else none

def SameValues (pieces : List Piece) : Prop := ∀ t, Piece.tag t ∈ pieces → t.value' = t.value

variable {pieces : List Piece}

theorem tagOfPart_tag {name : Text} {t : Tag} (hvalue : t.value' = t.value) :
    tagOfPart name (Piece.tag t).spaced = tagOfPart name (Piece.tag t).plain := by
  obtain ⟨hbefore, hbeforeEq, hafterEq, hafter⟩ := t.pads
  have heq : isWhitespace '=' = false := rfl
  have hkey : '=' ∉ t.before ++ t.name ++ t.beforeEq := by
    simp [t.nameOk.1, hbefore.notMem heq, hbeforeEq.notMem heq]
  simp only [tagOfPart, Piece.spaced, Piece.plain, splitOnce_of_notMem hkey,
    splitOnce_of_notMem t.nameOk.1, Option.bind_some, trim_append_blank hbeforeEq.blank,
    trim_blank_append hbefore.blank, trim_append_blank hafter.blank,
    List.append_assoc t.afterEq, trim_blank_append hafterEq.blank, hvalue]

theorem tagOfPart_absent {name part : Text} (h : '=' ∉ part) : tagOfPart name part = none := by
  rw [tagOfPart, splitOnce_of_no_separator h]
  rfl

theorem dmarcTag_spaced (h : SameValues pieces) (name : Text) :
    dmarcTag (spaced pieces) name = dmarcTag (plain pieces) name := by
  change ((spaced pieces).splitOn ';').findSome? (tagOfPart name) =
    ((plain pieces).splitOn ';').findSome? (tagOfPart name)
  rw [spaced, plain, findSome?_splitOn rfl _ fun _ ↦ notMem_spaced,
    findSome?_splitOn rfl _ fun _ ↦ notMem_plain]
  induction pieces with
  | nil => rfl
  | cons p pieces ih =>
    have htail := ih fun t ht ↦ h t (List.mem_cons_of_mem _ ht)
    rw [List.findSome?_cons, List.findSome?_cons, htail]
    cases p with
    | tag t => rw [tagOfPart_tag (h t List.mem_cons_self)]
    | bare b =>
      have hplain : tagOfPart name (Piece.bare b).plain = none := tagOfPart_absent b.textOk.1
      rw [hplain, tagOfPart_absent (notMem_bare b)]

/-- A DMARC record begins with its version, with white space in it or not. -/
structure IsVersion (t : Tag) : Prop where
  name : ∃ a v b, t.name = a ++ v :: b ∧ asciiLower v = 'v' ∧ Pad a ∧ Pad b
  value : ∃ a d b, t.value = a ++ d ++ b ∧ toAsciiLowercase d = "dmarc1".toList ∧ Pad a ∧ Pad b

section Version

variable {a b c d rest : Text} {v : Char}

theorem trimStart_version (ha : Pad a) (hv : asciiLower v = 'v') :
    trimStart (a ++ v :: rest) = v :: rest := by
  have hsolid : isWhitespace v = false := by
    rw [← isWhitespace_asciiLower, hv]
    rfl
  rw [trimStart, List.dropWhile_append_of_pos ha.blank,
    List.dropWhile_cons_of_neg (by simp [hsolid])]

theorem not_pad_of_lower {x y : Char} (hy : isWhitespace y = false) (hx : asciiLower x = y) :
    ¬ (x = ' ' ∨ x = '\t') := by
  rintro (rfl | rfl) <;> subst hx <;> cases hy

theorem eq_nil_of_pad {x y : Char} {t u : Text} (ha : Pad a) (hy : isWhitespace y = false)
    (hx : asciiLower x = y) (h : a ++ t = x :: u) : a = [] := by
  cases a with
  | nil => rfl
  | cons z a =>
    obtain ⟨rfl, -⟩ := List.cons.inj h
    exact absurd (ha _ List.mem_cons_self) (not_pad_of_lower hy hx)

/-- The version is found if nothing stands around its equals sign. -/
theorem hasVersion_iff (ha : Pad a) (hv : asciiLower v = 'v') (hb : Pad b) (hc : Pad c)
    (hd : toAsciiLowercase d = "dmarc1".toList) :
    HasVersion "v=DMARC1".toList (a ++ v :: (b ++ '=' :: (c ++ d ++ rest))) ↔ b = [] ∧ c = [] := by
  unfold HasVersion
  rw [trimStart_version ha hv]
  constructor
  · rintro ⟨x, y, hxy, -, hlower⟩
    have hlower : toAsciiLowercase x = "v=dmarc1".toList := of_decide_eq_true hlower
    obtain ⟨x₀, x, rfl, -, hx⟩ := List.map_eq_cons_iff.mp hlower
    obtain ⟨x₁, x, rfl, h₁, hx⟩ := List.map_eq_cons_iff.mp hx
    obtain ⟨x₂, x, rfl, h₂, -⟩ := List.map_eq_cons_iff.mp hx
    have htail := (List.cons.inj hxy).2
    obtain rfl := eq_nil_of_pad hb rfl h₁ htail
    have htail := (List.cons.inj htail).2
    rw [List.append_assoc] at htail
    exact ⟨rfl, eq_nil_of_pad hc rfl h₂ htail⟩
  · rintro ⟨rfl, rfl⟩
    have hlower : toAsciiLowercase (v :: '=' :: d) = "v=dmarc1".toList := by
      rw [toAsciiLowercase, List.map_cons, List.map_cons, hv]
      exact congrArg (fun t ↦ 'v' :: '=' :: t) hd
    refine ⟨v :: '=' :: d, rest, rfl, ?_, ?_⟩
    · rw [← byteLength_toAsciiLowercase, hlower]
      decide
    · rw [eqIgnoreAsciiCase, hlower]
      decide

theorem cuttable_version (ha : Pad a) (hv : asciiLower v = 'v') (hb : Pad b) (hc : Pad c)
    (hd : toAsciiLowercase d = "dmarc1".toList) :
    Cuttable 8 (trimStart (a ++ v :: (b ++ '=' :: (c ++ d ++ rest)))) := by
  rw [trimStart_version ha hv]
  have hpad : ∀ t : Text, Pad t → ∀ c ∈ t, c.utf8Size = 1 := by
    intro t ht c hc
    obtain rfl | rfl := ht c hc <;> rfl
  have hdSize : ∀ c ∈ d, c.utf8Size = 1 := by
    intro c hc
    have hmem : asciiLower c ∈ "dmarc1".toList := hd ▸ List.mem_map_of_mem hc
    have hall : ∀ c ∈ "dmarc1".toList, c.utf8Size = 1 := by decide
    rw [← utf8Size_asciiLower, hall _ hmem]
  have hvSize : v.utf8Size = 1 := by
    rw [← utf8Size_asciiLower, hv]
    rfl
  have hlength : d.length = 6 := by
    have hmap := congrArg List.length hd
    rwa [toAsciiLowercase, List.length_map] at hmap
  have hbytes : ∀ x ∈ v :: (b ++ '=' :: (c ++ d)), x.utf8Size = 1 := by
    simp only [List.forall_mem_cons, List.forall_mem_append]
    exact ⟨hvSize, hpad b hb, rfl, hpad c hc, hdSize⟩
  intro _
  have hbound := isBoundary_of_bytes (n := 8) hbytes (by simp [hlength]; omega) rest
  simpa using hbound

end Version

end Dmarc

structure DmarcRecord where
  version : Tag
  rest : List Piece
  isVersion : IsVersion version
  sameValues : SameValues (.tag version :: rest)

namespace DmarcRecord

def pieces (d : DmarcRecord) : List Piece := .tag d.version :: d.rest

variable (d : DmarcRecord)

/-- The version as it stands in the two texts. -/
theorem texts : ∃ a v b c x rest rest', asciiLower v = 'v' ∧ toAsciiLowercase x = "dmarc1".toList ∧
    (Pad a ∧ Pad b ∧ Pad c) ∧ plain d.pieces = a ++ v :: (b ++ '=' :: (c ++ x ++ rest)) ∧
      spaced d.pieces = d.version.before ++ a ++ v :: (b ++ d.version.beforeEq ++
        '=' :: (d.version.afterEq ++ c ++ x ++ rest')) := by
  obtain ⟨a, v, b, hname, hv, ha, hb⟩ := d.isVersion.name
  obtain ⟨c, x, e, hvalue, hx, hc, -⟩ := d.isVersion.value
  have hsame := d.sameValues d.version List.mem_cons_self
  have hmore : ∀ g : Piece → Text, ∃ more, [';'].intercalate (d.pieces.map g) =
      g (.tag d.version) ++ more := by
    intro g
    rw [pieces, List.map_cons]
    cases d.rest.map g with
    | nil => exact ⟨[], by rw [List.intercalate_singleton, List.append_nil]⟩
    | cons t l => exact ⟨_, by rw [List.intercalate_cons_cons, List.append_assoc]⟩
  obtain ⟨more, hplain⟩ := hmore Piece.plain
  obtain ⟨more', hspaced⟩ := hmore Piece.spaced
  refine ⟨a, v, b, c, x, e ++ more, e ++ d.version.after ++ more', hv, hx, ⟨ha, hb, hc⟩,
    hplain.trans ?_, hspaced.trans ?_⟩
  · simp only [Piece.plain, hname, hvalue, List.append_assoc, List.cons_append]
  · simp only [Piece.spaced, hname, hsame, hvalue, List.append_assoc, List.cons_append]

theorem cuttable_plain : Cuttable 8 (trimStart (plain d.pieces)) := by
  obtain ⟨a, v, b, c, x, rest, rest', hv, hx, ⟨ha, hb, hc⟩, hplain, -⟩ := d.texts
  rw [hplain]
  exact cuttable_version ha hv hb hc hx

theorem cuttable_spaced : Cuttable 8 (trimStart (spaced d.pieces)) := by
  obtain ⟨a, v, b, c, x, rest, rest', hv, hx, ⟨ha, hb, hc⟩, -, hspaced⟩ := d.texts
  obtain ⟨hbefore, hbeforeEq, hafterEq, -⟩ := d.version.pads
  rw [hspaced]
  exact cuttable_version (hbefore.append ha) hv (hb.append hbeforeEq) (hafterEq.append hc) hx

theorem hasVersion_spaced : HasVersion "v=DMARC1".toList (spaced d.pieces) ↔
    HasVersion "v=DMARC1".toList (plain d.pieces) ∧ d.version.beforeEq = [] ∧
      d.version.afterEq = [] := by
  obtain ⟨a, v, b, c, x, rest, rest', hv, hx, ⟨ha, hb, hc⟩, hplain, hspaced⟩ := d.texts
  obtain ⟨hbefore, hbeforeEq, hafterEq, -⟩ := d.version.pads
  rw [hplain, hspaced, hasVersion_iff ha hv hb hc hx,
    hasVersion_iff (hbefore.append ha) hv (hb.append hbeforeEq) (hafterEq.append hc) hx,
    List.append_eq_nil_iff, List.append_eq_nil_iff]
  constructor
  · rintro ⟨⟨hb, hbe⟩, hae, hc⟩
    exact ⟨⟨hb, hc⟩, hbe, hae⟩
  · rintro ⟨⟨hb, hc⟩, hbe, hae⟩
    exact ⟨⟨hb, hbe⟩, hae, hc⟩

end DmarcRecord

section Verdicts

/-- The DKIM and the DMARC verdict. -/
def verdicts (expected : Expected) (o : Observed) : Option (Status × Status) :=
  (evaluate expected o).map fun r ↦ (r.dkim.status, r.dmarc.status)

/-- Whatever else DNS answers and whatever is expected, the verdicts are the same
with the white space and without it. -/
def Cosmetic (dkim : List Piece) (dmarc : DmarcRecord) : Prop :=
  ∀ (expected : Expected) (o : Observed) (a b a' b' : List Text),
    verdicts expected { o with
      dkimTxt := a ++ spaced dkim :: b, dmarcTxt := a' ++ spaced dmarc.pieces :: b' } =
    verdicts expected { o with
      dkimTxt := a ++ plain dkim :: b, dmarcTxt := a' ++ plain dmarc.pieces :: b' }

variable {expected : Expected} {o : Observed}

theorem verdicts_eq : verdicts expected o =
    ((checkSpf o.domainTxt expected.spf).map (·.status)).bind fun _ ↦
      ((checkDmarc o.dmarcTxt o.dmarcFoundAt expected.dmarcPolicy).map (·.status)).map fun dmarc ↦
        ((checkDkim o.dkimTxt expected.dkimPublicKey).status, dmarc) := by
  have h := congrArg (Option.map fun b : Badges ↦ (b.dkim, b.dmarc)) (@evaluate_badges expected o)
  rw [Option.map_map] at h
  refine Eq.trans h ?_
  cases checkSpf o.domainTxt expected.spf with
  | none => rfl
  | some spf => cases checkDmarc o.dmarcTxt o.dmarcFoundAt expected.dmarcPolicy <;> rfl

theorem checkDkim_replace {r r' : Text} (h : dkimKeyOf r' = dkimKeyOf r) (a b : List Text)
    (key : Text) : (checkDkim (a ++ r' :: b) key).status = (checkDkim (a ++ r :: b) key).status := by
  simp only [checkDkim, List.append_eq_nil_iff, reduceCtorEq, and_false, if_false, List.any_append,
    List.any_cons, h]

theorem checkDkim_single {r key : Text} :
    (checkDkim [r] key).status = .ok ↔ dkimKeyOf r = some (stripKey key) := by
  simp only [checkDkim, List.any_cons, List.any_nil, Bool.or_false, decide_eq_true_eq,
    reduceCtorEq, if_false]
  split_ifs with h
  · exact iff_of_true rfl h
  · exact iff_of_false (by simp) h

theorem checkDmarc_replace {d d' : Text} (hversion : isDmarc d' = isDmarc d)
    (htag : dmarcTag d' "p".toList = dmarcTag d "p".toList) (a b : List Text)
    (foundAt expected : Option Text) :
    (checkDmarc (a ++ d' :: b) foundAt expected).map (·.status) =
      (checkDmarc (a ++ d :: b) foundAt expected).map (·.status) := by
  induction a with
  | nil =>
    rw [List.nil_append, List.nil_append, checkDmarc, checkDmarc, tryFind, tryFind, hversion]
    cases isDmarc d with
    | none => rfl
    | some found =>
      cases found with
      | false => rfl
      | true =>
        change some (judgeDmarc d' foundAt expected).status = some (judgeDmarc d foundAt expected).status
        rw [judgeDmarc_status, judgeDmarc_status, htag]
  | cons t a ih =>
    rw [List.cons_append, List.cons_append]
    cases ht : isDmarc t with
    | none => rw [checkDmarc_cons_cut (isDmarc_eq_none.mp ht), checkDmarc_cons_cut (isDmarc_eq_none.mp ht)]
    | some found =>
      cases found with
      | false => rw [checkDmarc_cons_other ht, checkDmarc_cons_other ht, ih]
      | true => rw [checkDmarc_cons (isDmarc_eq_true.mp ht), checkDmarc_cons (isDmarc_eq_true.mp ht)]

theorem checkDmarc_single {d : Text} (h : Cuttable 8 (trimStart d)) (foundAt expected : Option Text) :
    ∃ s, (checkDmarc [d] foundAt expected).map (·.status) = some s ∧
      (s = .missing ↔ ¬ HasVersion "v=DMARC1".toList d) := by
  by_cases hversion : HasVersion "v=DMARC1".toList d
  · rw [checkDmarc_cons hversion]
    refine ⟨_, rfl, iff_of_false (fun hs ↦ ?_) (not_not.mpr hversion)⟩
    change (judgeDmarc d foundAt expected).status = .missing at hs
    rw [judgeDmarc_status] at hs
    obtain hok | hmismatch := policyStatus_cases ((dmarcTag d "p".toList).bind policyRank) expected
    · cases hok.symm.trans hs
    · cases hmismatch.symm.trans hs
  · rw [checkDmarc_cons_other ((isDmarc_eq_false (isSome_startsAt.mpr h)).mpr hversion)]
    exact ⟨_, rfl, iff_of_true rfl hversion⟩

/-- The exact extent to which added white space is of no account. -/
theorem cosmetic_iff (dkim : List Piece) (dmarc : DmarcRecord) : Cosmetic dkim dmarc ↔
    ((keyTags dkim).find? (·.beforeEq = [])).map (fun t ↦ stripKey t.value) =
      (keyTags dkim).head?.map (fun t ↦ stripKey t.value) ∧
    (HasVersion "v=DMARC1".toList (plain dmarc.pieces) →
      dmarc.version.beforeEq = [] ∧ dmarc.version.afterEq = []) := by
  constructor
  · intro h
    have hsame := fun key ↦ h ⟨[], key, none, none⟩ {} [] [] [] []
    obtain ⟨s, hs, hmissing⟩ := checkDmarc_single dmarc.cuttable_plain none none
    obtain ⟨s', hs', hmissing'⟩ := checkDmarc_single dmarc.cuttable_spaced none none
    have hspf : ∃ r, checkSpf [] [] = some r := ⟨_, rfl⟩
    obtain ⟨r, hspf⟩ := hspf
    simp only [verdicts_eq, List.nil_append, hspf, hs, hs', Option.map_some, Option.bind_some,
      Option.some.injEq, Prod.mk.injEq] at hsame
    obtain ⟨-, rfl⟩ := hsame []
    constructor
    · rw [← dkimKeyOf_spaced, ← dkimKeyOf_plain]
      have hkey : ∀ value, dkimKeyOf (spaced dkim) = some (stripKey value) ↔
          dkimKeyOf (plain dkim) = some (stripKey value) := by
        intro value
        rw [← checkDkim_single, ← checkDkim_single, (hsame value).1]
      rw [dkimKeyOf_spaced, dkimKeyOf_plain] at hkey ⊢
      cases hspaced : (keyTags dkim).find? (·.beforeEq = []) with
      | some t =>
        rw [hspaced] at hkey
        exact ((hkey t.value).mp rfl).symm
      | none =>
        cases hplain : (keyTags dkim).head? with
        | none => rfl
        | some t =>
          rw [hspaced, hplain] at hkey
          cases (hkey t.value).mpr rfl
    · intro hversion
      have hspaced := not_not.mp (mt hmissing'.mpr fun hs ↦ hmissing.mp hs hversion)
      exact (dmarc.hasVersion_spaced.mp hspaced).2
  · rintro ⟨hkey, hversion⟩ expected o a b a' b'
    rw [← dkimKeyOf_spaced, ← dkimKeyOf_plain] at hkey
    have hfound : isDmarc (spaced dmarc.pieces) = isDmarc (plain dmarc.pieces) := by
      by_cases hv : HasVersion "v=DMARC1".toList (plain dmarc.pieces)
      · rw [isDmarc_eq_true.mpr hv, isDmarc_eq_true.mpr (dmarc.hasVersion_spaced.mpr ⟨hv, hversion hv⟩)]
      · have hv' : ¬ HasVersion "v=DMARC1".toList (spaced dmarc.pieces) := fun h ↦
          hv (dmarc.hasVersion_spaced.mp h).1
        rw [(isDmarc_eq_false (isSome_startsAt.mpr dmarc.cuttable_plain)).mpr hv,
          (isDmarc_eq_false (isSome_startsAt.mpr dmarc.cuttable_spaced)).mpr hv']
    rw [verdicts_eq, verdicts_eq]
    dsimp only
    rw [checkDkim_replace hkey, checkDmarc_replace hfound (dmarcTag_spaced dmarc.sameValues _)]

end Verdicts

theorem spread_refl (t : Text) : Spread t t := by
  induction t with
  | nil => exact .nil
  | cons c t ih => exact .keep c ih

theorem pad_nil : Pad [] := fun _ h ↦ absurd h List.not_mem_nil

/-- Every text is a list of pieces, to which white space may be added. -/
theorem exists_plain (r : Text) : ∃ pieces, plain pieces = r := by
  have hparts : ∀ parts : List Text, (∀ part ∈ parts, ';' ∉ part) →
      ∃ pieces : List Piece, pieces.map Piece.plain = parts := by
    intro parts hparts
    induction parts with
    | nil => exact ⟨[], rfl⟩
    | cons part parts ih =>
      obtain ⟨hpart, hrest⟩ := List.forall_mem_cons.mp hparts
      obtain ⟨pieces, rfl⟩ := ih hrest
      by_cases heq : '=' ∈ part
      · obtain ⟨name, value, rfl, hname⟩ := List.eq_append_cons_of_mem heq
        simp only [List.mem_append, List.mem_cons, not_or] at hpart
        exact ⟨.tag { name, value, nameOk := ⟨hname, hpart.1⟩, valueOk := hpart.2.2
                      spread := spread_refl value, pads := ⟨pad_nil, pad_nil, pad_nil, pad_nil⟩ } ::
          pieces, rfl⟩
      · exact ⟨.bare ⟨part, [], [], ⟨heq, hpart⟩, pad_nil, pad_nil⟩ :: pieces, rfl⟩
  obtain ⟨pieces, hpieces⟩ := hparts (r.splitOn ';') fun _ ↦ notMem_of_mem_splitOn
  exact ⟨pieces, by rw [plain, hpieces, List.intercalate_splitOn]⟩

/-- A key with a space before its equals sign. -/
def spacedKey : Tag where
  name := "p".toList
  value := "MIIB".toList
  beforeEq := [' ']
  nameOk := by decide
  valueOk := by decide
  spread := spread_refl _
  pads := ⟨pad_nil, List.forall_mem_singleton.mpr (.inl rfl), pad_nil, pad_nil⟩

def dmarcVersion : Tag where
  name := "v".toList
  value := "DMARC1".toList
  nameOk := by decide
  valueOk := by decide
  spread := spread_refl _
  pads := ⟨pad_nil, pad_nil, pad_nil, pad_nil⟩

def bareRecord : DmarcRecord where
  version := dmarcVersion
  rest := []
  isVersion := ⟨⟨[], 'v', [], rfl, rfl, pad_nil, pad_nil⟩,
    [], "DMARC1".toList, [], rfl, rfl, pad_nil, pad_nil⟩
  sameValues := by
    intro t ht
    obtain rfl := Piece.tag.inj (List.mem_singleton.mp ht)
    rfl

/-- The key is there and is not found. -/
theorem spaced_key_lost : ¬ ∀ (dkim : List Piece) (dmarc : DmarcRecord), Cosmetic dkim dmarc := by
  intro h
  have hsame := h [.tag spacedKey] bareRecord ⟨[], "MIIB".toList, none, none⟩ {} [] [] [] []
  exact absurd hsame (by decide)

end Postbud.DnsCheck
