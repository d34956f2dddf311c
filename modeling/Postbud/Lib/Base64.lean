import Mathlib.Data.List.Basic
import Postbud.Lib.BigEndian
import Postbud.Lib.Text

namespace Postbud.Lib.Base64

open BigEndian

/-- Six bits at a time, and zeros after the last byte. -/
def sextets : List Byte → List ℕ
  | a :: b :: c :: rest =>
    [a.toNat / 4, a.toNat % 4 * 16 + b.toNat / 16, b.toNat % 16 * 4 + c.toNat / 64, c.toNat % 64] ++
      sextets rest
  | [a, b] => [a.toNat / 4, a.toNat % 4 * 16 + b.toNat / 16, b.toNat % 16 * 4]
  | [a] => [a.toNat / 4, a.toNat % 4 * 16]
  | [] => []

def bytes : List ℕ → List Byte
  | w :: x :: y :: z :: rest =>
    [.ofNat 8 (w * 4 + x / 16), .ofNat 8 (x % 16 * 16 + y / 4), .ofNat 8 (y % 4 * 64 + z)] ++
      bytes rest
  | [w, x, y] => [.ofNat 8 (w * 4 + x / 16), .ofNat 8 (x % 16 * 16 + y / 4)]
  | [w, x] => [.ofNat 8 (w * 4 + x / 16)]
  | _ => []

/-- The two alphabets differ in their last two digits. -/
def alphabet (last : Text) : Text :=
  "ABCDEFGHIJKLMNOPQRSTUVWXYZabcdefghijklmnopqrstuvwxyz0123456789".toList ++ last

def digits (last : Text) (l : List Byte) : Text :=
  (sextets l).map fun n ↦ (alphabet last).getD n 'A'

def padding (l : List Byte) : Text := List.replicate ((3 - l.length % 3) % 3) '='

def encode (l : List Byte) : Text := digits "+/".toList l ++ padding l

/-- The URL-safe form without padding. -/
def encodeUrl (l : List Byte) : Text := digits "-_".toList l

def decodeUrl (t : Text) : List Byte := bytes (t.map fun c ↦ (alphabet "-_".toList).idxOf c)

theorem ofNat_toNat {n : ℕ} {b : Byte} (h : n = b.toNat) : BitVec.ofNat 8 n = b := by
  rw [h, BitVec.ofNat_toNat, BitVec.setWidth_eq]

theorem bytes_sextets (l : List Byte) : bytes (sextets l) = l := by
  induction l using sextets.induct with
  | case1 a b c rest ih =>
    have ha := a.isLt
    have hb := b.isLt
    have hc := c.isLt
    simp only [sextets, List.cons_append, List.nil_append, bytes, ih]
    rw [ofNat_toNat (b := a) (by omega), ofNat_toNat (b := b) (by omega),
      ofNat_toNat (b := c) (by omega)]
  | case2 a b =>
    have ha := a.isLt
    have hb := b.isLt
    simp only [sextets, bytes]
    rw [ofNat_toNat (b := a) (by omega), ofNat_toNat (b := b) (by omega)]
  | case3 a =>
    have ha := a.isLt
    simp only [sextets, bytes]
    rw [ofNat_toNat (b := a) (by omega)]
  | case4 => rfl

theorem sextets_lt (l : List Byte) : ∀ n ∈ sextets l, n < 64 := by
  induction l using sextets.induct with
  | case1 a b c rest ih =>
    have ha := a.isLt
    have hb := b.isLt
    have hc := c.isLt
    intro n hn
    simp only [sextets, List.mem_append, List.mem_cons, List.not_mem_nil, or_false] at hn
    rcases hn with (rfl | rfl | rfl | rfl) | hn
    all_goals first | exact ih n hn | omega
  | case2 a b =>
    have ha := a.isLt
    have hb := b.isLt
    intro n hn
    simp only [sextets, List.mem_cons, List.not_mem_nil, or_false] at hn
    omega
  | case3 a =>
    have ha := a.isLt
    intro n hn
    simp only [sextets, List.mem_cons, List.not_mem_nil, or_false] at hn
    omega
  | case4 => exact fun n hn ↦ absurd hn List.not_mem_nil

theorem length_sextets (l : List Byte) : (sextets l).length = (4 * l.length + 2) / 3 := by
  induction l using sextets.induct with
  | case1 a b c rest ih =>
    simp only [sextets, List.length_append, List.length_cons, List.length_nil, ih]
    omega
  | case2 a b => simp only [sextets, List.length_cons, List.length_nil]
  | case3 a => simp only [sextets, List.length_cons, List.length_nil]
  | case4 => simp only [sextets, List.length_nil]

theorem length_encodeUrl (l : List Byte) : (encodeUrl l).length = (4 * l.length + 2) / 3 := by
  rw [encodeUrl, digits, List.length_map, length_sextets]

/-- What is encoded is read back. -/
theorem decodeUrl_encodeUrl (l : List Byte) : decodeUrl (encodeUrl l) = l := by
  have hdigit : ∀ n < 64,
      (alphabet "-_".toList).idxOf ((alphabet "-_".toList).getD n 'A') = n := by decide +kernel
  rw [decodeUrl, encodeUrl, digits, List.map_map]
  have hmap : (sextets l).map ((fun c ↦ (alphabet "-_".toList).idxOf c) ∘
      fun n ↦ (alphabet "-_".toList).getD n 'A') = sextets l :=
    (List.map_congr_left fun n hn ↦ hdigit n (sextets_lt l n hn)).trans (List.map_id' _)
  rw [hmap, bytes_sextets]

end Postbud.Lib.Base64
