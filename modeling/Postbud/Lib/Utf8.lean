import Postbud.Lib.Text

namespace Postbud.Lib.Utf8

/-- What is known of a character in the middle of its bytes: how many are
missing, the range the next one must be in and the bits so far. -/
structure Partial where
  missing : ℕ
  lower : ℕ
  upper : ℕ
  bits : ℕ
  deriving DecidableEq

structure Decoder where
  out : Text := []
  pending : Option Partial := none
  deriving DecidableEq

def replacement : Char := '\uFFFD'

def Decoder.lead (out : Text) (b : ℕ) : Decoder :=
  if b < 0x80 then ⟨out ++ [Char.ofNat b], none⟩
  else if 0xC2 ≤ b ∧ b ≤ 0xDF then ⟨out, some ⟨1, 0x80, 0xBF, b - 0xC0⟩⟩
  else if 0xE0 ≤ b ∧ b ≤ 0xEF then
    ⟨out, some ⟨2, if b = 0xE0 then 0xA0 else 0x80, if b = 0xED then 0x9F else 0xBF, b - 0xE0⟩⟩
  else if 0xF0 ≤ b ∧ b ≤ 0xF4 then
    ⟨out, some ⟨3, if b = 0xF0 then 0x90 else 0x80, if b = 0xF4 then 0x8F else 0xBF, b - 0xF0⟩⟩
  else ⟨out ++ [replacement], none⟩

/-- A byte that does not continue a character replaces what there was of it,
and is read again as the start of the next. -/
def Decoder.step (d : Decoder) (byte : UInt8) : Decoder :=
  let b := byte.toNat
  match d.pending with
  | none => lead d.out b
  | some p =>
    if p.lower ≤ b ∧ b ≤ p.upper then
      let bits := p.bits * 64 + (b - 0x80)
      if p.missing = 1 then ⟨d.out ++ [Char.ofNat bits], none⟩
      else ⟨d.out, some ⟨p.missing - 1, 0x80, 0xBF, bits⟩⟩
    else lead (d.out ++ [replacement]) b

/-- `String::from_utf8_lossy`. -/
def fromUtf8Lossy (bytes : Bytes) : Text :=
  let d := bytes.foldl Decoder.step {}
  match d.pending with
  | none => d.out
  | some _ => d.out ++ [replacement]

section Characters

variable {b n lower upper bits : ℕ} (out : Text)

theorem step_lead (hb : b < 256) : Decoder.step ⟨out, none⟩ (UInt8.ofNat b) = Decoder.lead out b := by
  rw [Decoder.step, UInt8.toNat_ofNat_of_lt' hb]

/-- A byte that continues a character, with its six bits. -/
theorem step_more (hb : b < 64) (hlo : lower ≤ b + 0x80) (hup : b + 0x80 ≤ upper) :
    Decoder.step ⟨out, some ⟨n + 2, lower, upper, bits⟩⟩ (UInt8.ofNat (b + 0x80)) =
      ⟨out, some ⟨n + 1, 0x80, 0xBF, bits * 64 + b⟩⟩ := by
  have hnat : (UInt8.ofNat (b + 0x80)).toNat = b + 0x80 :=
    UInt8.toNat_ofNat_of_lt' (show b + 0x80 < 256 by omega)
  simp only [Decoder.step, hnat, if_pos (And.intro hlo hup), Nat.add_sub_cancel]
  rw [if_neg (by omega)]
  rfl

theorem step_last (hb : b < 64) (hlo : lower ≤ b + 0x80) (hup : b + 0x80 ≤ upper) :
    Decoder.step ⟨out, some ⟨1, lower, upper, bits⟩⟩ (UInt8.ofNat (b + 0x80)) =
      ⟨out ++ [Char.ofNat (bits * 64 + b)], none⟩ := by
  have hnat : (UInt8.ofNat (b + 0x80)).toNat = b + 0x80 :=
    UInt8.toNat_ofNat_of_lt' (show b + 0x80 < 256 by omega)
  simp only [Decoder.step, hnat, if_pos (And.intro hlo hup), Nat.add_sub_cancel, if_true]

/-- The bytes of a character are read as it, whatever its length. -/
theorem foldl_utf8EncodeChar (c : Char) :
    (String.utf8EncodeChar c).foldl Decoder.step ⟨out, none⟩ = ⟨out ++ [c], none⟩ := by
  have hvalid : c.toNat < 0xD800 ∨ 0xDFFF < c.toNat ∧ c.toNat < 0x110000 := c.valid
  have hc : Char.ofNat c.toNat = c := Char.ofNat_toNat c
  have hval : c.val.toNat = c.toNat := rfl
  simp only [String.utf8EncodeChar, hval]
  generalize c.toNat = v at *
  subst hc
  split_ifs with h₁ h₂ h₃
  · rw [List.foldl_cons, step_lead out (by omega), Decoder.lead, if_pos (by omega)]
    rfl
  · have hsum : (v / 64 % 0x20 + 0xC0 - 0xC0) * 64 + v % 0x40 = v := by omega
    rw [List.foldl_cons, step_lead out (by omega), Decoder.lead, if_neg (by omega),
      if_pos (by omega), List.foldl_cons, step_last out (by omega) (by omega) (by omega), hsum]
    rfl
  · have hsum : ((v / 4096 % 0x10 + 0xE0 - 0xE0) * 64 + v / 64 % 0x40) * 64 + v % 0x40 = v := by
      omega
    rw [List.foldl_cons, step_lead out (by omega), Decoder.lead, if_neg (by omega),
      if_neg (by omega), if_pos (by omega), List.foldl_cons,
      step_more out (by omega) (by split_ifs <;> omega) (by split_ifs <;> omega), List.foldl_cons,
      step_last out (by omega) (by omega) (by omega), hsum]
    rfl
  · have hsum : (((v / 262144 % 0x08 + 0xF0 - 0xF0) * 64 + v / 4096 % 0x40) * 64 +
        v / 64 % 0x40) * 64 + v % 0x40 = v := by omega
    rw [List.foldl_cons, step_lead out (by omega), Decoder.lead, if_neg (by omega),
      if_neg (by omega), if_neg (by omega), if_pos (by omega), List.foldl_cons,
      step_more out (by omega) (by split_ifs <;> omega) (by split_ifs <;> omega), List.foldl_cons,
      step_more out (by omega) (by omega) (by omega), List.foldl_cons,
      step_last out (by omega) (by omega) (by omega), hsum]
    rfl

theorem foldl_utf8 (t : Text) :
    (Text.utf8 t).foldl Decoder.step ⟨out, none⟩ = ⟨out ++ t, none⟩ := by
  induction t generalizing out with
  | nil => rw [List.append_nil]; rfl
  | cons c t ih =>
    rw [Text.utf8, List.flatMap_cons, List.foldl_append, foldl_utf8EncodeChar]
    exact (ih _).trans (by rw [List.append_assoc, List.singleton_append])

end Characters

theorem fromUtf8Lossy_utf8 (t : Text) : fromUtf8Lossy (Text.utf8 t) = t := by
  simp only [fromUtf8Lossy, foldl_utf8, List.nil_append]

theorem utf8_injective : Function.Injective Text.utf8 := by
  intro t u h
  rw [← fromUtf8Lossy_utf8 t, h, fromUtf8Lossy_utf8]

example : fromUtf8Lossy [0x53, 0xC3, 0xB8, 0x72, 0xE2, 0x82, 0x20] = "Sør\uFFFD ".toList := by decide

section Exact

variable {d : Decoder} {bytes bs : Bytes} {lower upper bits k : ℕ}

/-- Whatever continues these bytes in range, so many more, is a character that
is encoded in just them. -/
def Starts (bs : Bytes) : ℕ → ℕ → ℕ → ℕ → Prop
  | 0, lower, upper, bits => ∀ b < 64, lower ≤ b + 0x80 → b + 0x80 ≤ upper →
      String.utf8EncodeChar (Char.ofNat (bits * 64 + b)) = bs ++ [UInt8.ofNat (b + 0x80)]
  | k + 1, lower, upper, bits => ∀ b < 64, lower ≤ b + 0x80 → b + 0x80 ≤ upper →
      Starts (bs ++ [UInt8.ofNat (b + 0x80)]) k 0x80 0xBF (bits * 64 + b)

/-- What was read is what came out, and a start of the next character. -/
def Decoder.Exact (d : Decoder) (bytes : Bytes) : Prop :=
  match d.pending with
  | none => bytes = Text.utf8 d.out
  | some p => ∃ k bs, p.missing = k + 1 ∧ 0x80 ≤ p.lower ∧ p.upper ≤ 0xBF ∧
      Starts bs k p.lower p.upper p.bits ∧ bytes = Text.utf8 d.out ++ bs

theorem utf8EncodeChar_ofNat {v : ℕ} (hv : v.isValidChar) :
    String.utf8EncodeChar (Char.ofNat v) =
      if v ≤ 0x7F then [UInt8.ofNat v]
      else if v ≤ 0x7FF then [UInt8.ofNat (v / 64 % 0x20 + 0xC0), UInt8.ofNat (v % 0x40 + 0x80)]
      else if v ≤ 0xFFFF then [UInt8.ofNat (v / 4096 % 0x10 + 0xE0),
        UInt8.ofNat (v / 64 % 0x40 + 0x80), UInt8.ofNat (v % 0x40 + 0x80)]
      else [UInt8.ofNat (v / 262144 % 0x08 + 0xF0), UInt8.ofNat (v / 4096 % 0x40 + 0x80),
        UInt8.ofNat (v / 64 % 0x40 + 0x80), UInt8.ofNat (v % 0x40 + 0x80)] := by
  have hval : (Char.ofNat v).val.toNat = v := by
    rw [Char.ofNat, dif_pos hv]
    rfl
  simp only [String.utf8EncodeChar, hval]

theorem starts_two {b : ℕ} (hlo : 0xC2 ≤ b) (hup : b ≤ 0xDF) :
    Starts [UInt8.ofNat b] 0 0x80 0xBF (b - 0xC0) := by
  intro x hx _ _
  have hv : ((b - 0xC0) * 64 + x).isValidChar := .inl (by omega)
  rw [utf8EncodeChar_ofNat hv, if_neg (by omega), if_pos (by omega),
    show ((b - 0xC0) * 64 + x) / 64 % 0x20 + 0xC0 = b by omega,
    show ((b - 0xC0) * 64 + x) % 0x40 = x by omega]
  rfl

theorem starts_three {b : ℕ} (hlo : 0xE0 ≤ b) (hup : b ≤ 0xEF) :
    Starts [UInt8.ofNat b] 1 (if b = 0xE0 then 0xA0 else 0x80) (if b = 0xED then 0x9F else 0xBF)
      (b - 0xE0) := by
  intro y hy hylo hyup x hx _ _
  have hsur : b = 0xED → y < 0x20 := fun h ↦ by
    rw [if_pos h] at hyup
    omega
  have hlow : b = 0xE0 → 0x20 ≤ y := fun h ↦ by
    rw [if_pos h] at hylo
    omega
  have hv : (((b - 0xE0) * 64 + y) * 64 + x).isValidChar := by
    by_cases h : b ≤ 0xED
    · exact .inl (by omega)
    · exact .inr ⟨by omega, by omega⟩
  rw [utf8EncodeChar_ofNat hv, if_neg (by omega), if_neg (by omega), if_pos (by omega),
    show (((b - 0xE0) * 64 + y) * 64 + x) / 4096 % 0x10 + 0xE0 = b by omega,
    show (((b - 0xE0) * 64 + y) * 64 + x) / 64 % 0x40 = y by omega,
    show (((b - 0xE0) * 64 + y) * 64 + x) % 0x40 = x by omega]
  rfl

theorem starts_four {b : ℕ} (hlo : 0xF0 ≤ b) (hup : b ≤ 0xF4) :
    Starts [UInt8.ofNat b] 2 (if b = 0xF0 then 0x90 else 0x80) (if b = 0xF4 then 0x8F else 0xBF)
      (b - 0xF0) := by
  intro z hz hzlo hzup y hy _ _ x hx _ _
  have hhigh : b = 0xF4 → z < 0x10 := fun h ↦ by
    rw [if_pos h] at hzup
    omega
  have hlow : b = 0xF0 → 0x10 ≤ z := fun h ↦ by
    rw [if_pos h] at hzlo
    omega
  have hv : ((((b - 0xF0) * 64 + z) * 64 + y) * 64 + x).isValidChar := .inr ⟨by omega, by omega⟩
  rw [utf8EncodeChar_ofNat hv, if_neg (by omega), if_neg (by omega), if_neg (by omega),
    show ((((b - 0xF0) * 64 + z) * 64 + y) * 64 + x) / 262144 % 0x08 + 0xF0 = b by omega,
    show ((((b - 0xF0) * 64 + z) * 64 + y) * 64 + x) / 4096 % 0x40 = z by omega,
    show ((((b - 0xF0) * 64 + z) * 64 + y) * 64 + x) / 64 % 0x40 = y by omega,
    show ((((b - 0xF0) * 64 + z) * 64 + y) * 64 + x) % 0x40 = x by omega]
  rfl

theorem exact_lead {out : Text} {byte : UInt8}
    (h : replacement ∉ (Decoder.lead out byte.toNat).out) :
    (Decoder.lead out byte.toNat).Exact (Text.utf8 out ++ [byte]) := by
  have hbyte : UInt8.ofNat byte.toNat = byte := UInt8.ofNat_toNat
  have hlt : byte.toNat < 256 := byte.toNat_lt
  unfold Decoder.lead at h ⊢
  by_cases h₁ : byte.toNat < 0x80
  · have hv : byte.toNat.isValidChar := .inl (by omega)
    rw [if_pos h₁]
    change _ = Text.utf8 (out ++ [_])
    rw [Text.utf8, Text.utf8, List.flatMap_append, List.flatMap_singleton, utf8EncodeChar_ofNat hv,
      if_pos (by omega), hbyte]
  by_cases h₂ : 0xC2 ≤ byte.toNat ∧ byte.toNat ≤ 0xDF
  · have hstarts := starts_two h₂.1 h₂.2
    rw [hbyte] at hstarts
    rw [if_neg h₁, if_pos h₂]
    exact ⟨0, [byte], rfl, le_rfl, le_rfl, hstarts, rfl⟩
  by_cases h₃ : 0xE0 ≤ byte.toNat ∧ byte.toNat ≤ 0xEF
  · have hstarts := starts_three h₃.1 h₃.2
    rw [hbyte] at hstarts
    rw [if_neg h₁, if_neg h₂, if_pos h₃]
    refine ⟨1, [byte], rfl, ?_, ?_, hstarts, rfl⟩ <;> dsimp only <;> split_ifs <;> decide
  by_cases h₄ : 0xF0 ≤ byte.toNat ∧ byte.toNat ≤ 0xF4
  · have hstarts := starts_four h₄.1 h₄.2
    rw [hbyte] at hstarts
    rw [if_neg h₁, if_neg h₂, if_neg h₃, if_pos h₄]
    refine ⟨2, [byte], rfl, ?_, ?_, hstarts, rfl⟩ <;> dsimp only <;> split_ifs <;> decide
  · rw [if_neg h₁, if_neg h₂, if_neg h₃, if_neg h₄] at h
    exact absurd (List.mem_append_right _ List.mem_cons_self) h

theorem out_prefix_lead (out : Text) (b : ℕ) : out <+: (Decoder.lead out b).out := by
  unfold Decoder.lead
  split_ifs <;> simp

theorem out_prefix_step (d : Decoder) (byte : UInt8) : d.out <+: (d.step byte).out := by
  unfold Decoder.step
  split
  · exact out_prefix_lead _ _
  · dsimp only
    split_ifs
    · exact List.prefix_append _ _
    · exact List.prefix_rfl
    · exact (List.prefix_append _ _).trans (out_prefix_lead _ _)

theorem Decoder.Exact.step (h : d.Exact bytes) {byte : UInt8} (hout : replacement ∉ (d.step byte).out) :
    (d.step byte).Exact (bytes ++ [byte]) := by
  obtain ⟨out, pending⟩ := d
  cases pending with
  | none =>
    obtain rfl : bytes = Text.utf8 out := h
    exact exact_lead hout
  | some p =>
    obtain ⟨missing, lower, upper, bits⟩ := p
    obtain ⟨k, bs, rfl, hlower, hupper, hstarts, rfl⟩ := h
    dsimp only at hlower hupper hstarts
    simp only [Decoder.step] at hout ⊢
    split_ifs at hout ⊢ with hin hlast
    · obtain rfl : k = 0 := by omega
      have hbyte : UInt8.ofNat (byte.toNat - 0x80 + 0x80) = byte := by
        rw [Nat.sub_add_cancel (by omega), UInt8.ofNat_toNat]
      have hchar := hstarts (byte.toNat - 0x80) (by omega) (by omega) (by omega)
      rw [hbyte] at hchar
      change _ = Text.utf8 (out ++ [_])
      rw [Text.utf8, Text.utf8, List.flatMap_append, List.flatMap_singleton, hchar,
        List.append_assoc]
    · obtain ⟨k, rfl⟩ : ∃ n, k = n + 1 := Nat.exists_eq_succ_of_ne_zero (by omega)
      have hbyte : UInt8.ofNat (byte.toNat - 0x80 + 0x80) = byte := by
        rw [Nat.sub_add_cancel (by omega), UInt8.ofNat_toNat]
      have hmore := hstarts (byte.toNat - 0x80) (by omega) (by omega) (by omega)
      rw [hbyte] at hmore
      exact ⟨k, bs ++ [byte], rfl, le_rfl, le_rfl, hmore, List.append_assoc _ _ _⟩
    · have hlead : replacement ∈ (Decoder.lead (out ++ [replacement]) byte.toNat).out :=
        (out_prefix_lead _ _).subset (List.mem_append_right _ List.mem_cons_self)
      exact absurd hlead hout

theorem exact_foldl (bytes : Bytes) (h : replacement ∉ (bytes.foldl Decoder.step {}).out) :
    (bytes.foldl Decoder.step {}).Exact bytes := by
  induction bytes using List.reverseRecOn with
  | nil => rfl
  | append_singleton bytes byte ih =>
    rw [List.foldl_append] at h ⊢
    exact (ih fun hin ↦ h ((out_prefix_step _ _).subset hin)).step h

/-- Bytes that are read without a replacement are those of the text. -/
theorem fromUtf8Lossy_eq_iff {t : Text} (ht : replacement ∉ t) :
    fromUtf8Lossy bytes = t ↔ bytes = Text.utf8 t := by
  constructor
  · rintro rfl
    unfold fromUtf8Lossy at ht ⊢
    dsimp only at ht ⊢
    have hexact := exact_foldl bytes
    generalize bytes.foldl Decoder.step {} = d at ht hexact ⊢
    obtain ⟨out, pending⟩ := d
    cases pending with
    | none => exact hexact ht
    | some p => exact absurd (List.mem_append_right _ List.mem_cons_self) ht
  · rintro rfl
    exact fromUtf8Lossy_utf8 t

end Exact

/-- `String::from_utf8`. -/
def fromUtf8 (bytes : Bytes) : Option Text :=
  (String.fromUTF8? bytes.toByteArray).map String.toList

theorem fromUtf8_eq_some {bytes : Bytes} {t : Text} :
    fromUtf8 bytes = some t ↔ bytes = Text.utf8 t := by
  have hinj : ∀ l m : Bytes, l.toByteArray = m.toByteArray ↔ l = m := by
    refine fun l m ↦ ⟨fun h ↦ ?_, congrArg _⟩
    rw [← List.toList_data_toByteArray (l := l), h, List.toList_data_toByteArray]
  rw [fromUtf8, String.fromUTF8?]
  split
  · rename_i h
    rw [Option.map_some, Option.some.injEq, ← hinj]
    constructor
    · rintro rfl
      exact (String.utf8Encode_toList (b := String.fromUTF8 bytes.toByteArray h)).symm
    · intro hb
      have hs : String.fromUTF8 bytes.toByteArray h = String.ofList t :=
        String.toByteArray_inj.mp (hb.trans String.toByteArray_ofList.symm)
      rw [hs, String.toList_ofList]
  · rename_i h
    constructor
    · intro hnone
      cases hnone
    · rintro rfl
      exact absurd (ByteArray.IsValidUTF8.intro t rfl) h

end Postbud.Lib.Utf8
