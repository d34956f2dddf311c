import Postbud.Lib.JsArray
import Postbud.Lib.Sha256

namespace Postbud.Ui.Oidc

open Lib Lib.BigEndian Lib.JsNumber Lib.JsArray Lib.Result

/-! The hash of the PKCE challenge, which the admin computes itself. -/

def K : Uint32Array := [
  0x428a2f98, 0x71374491, 0xb5c0fbcf, 0xe9b5dba5, 0x3956c25b, 0x59f111f1, 0x923f82a4, 0xab1c5ed5,
  0xd807aa98, 0x12835b01, 0x243185be, 0x550c7dc3, 0x72be5d74, 0x80deb1fe, 0x9bdc06a7, 0xc19bf174,
  0xe49b69c1, 0xefbe4786, 0x0fc19dc6, 0x240ca1cc, 0x2de92c6f, 0x4a7484aa, 0x5cb0a9dc, 0x76f988da,
  0x983e5152, 0xa831c66d, 0xb00327c8, 0xbf597fc7, 0xc6e00bf3, 0xd5a79147, 0x06ca6351, 0x14292967,
  0x27b70a85, 0x2e1b2138, 0x4d2c6dfc, 0x53380d13, 0x650a7354, 0x766a0abb, 0x81c2c92e, 0x92722c85,
  0xa2bfe8a1, 0xa81a664b, 0xc24b8b70, 0xc76c51a3, 0xd192e819, 0xd6990624, 0xf40e3585, 0x106aa070,
  0x19a4c116, 0x1e376c08, 0x2748774c, 0x34b0bcb5, 0x391c0cb3, 0x4ed8aa4a, 0x5b9cca4f, 0x682e6ff3,
  0x748f82ee, 0x78a5636f, 0x84c87814, 0x8cc70208, 0x90befffa, 0xa4506ceb, 0xbef9a3f7, 0xc67178f2]

def H : Uint32Array := [
  0x6a09e667, 0xbb67ae85, 0x3c6ef372, 0xa54ff53a, 0x510e527f, 0x9b05688c, 0x1f83d9ab, 0x5be0cd19]

def rr (x n : Number) : Number := (x >>> n) ||| (x <<< (32 - n))

def pad (bytes : Uint8Array) : Except Throw Uint8Array := do
  let len := num bytes.length
  let bitLen := len * 8
  let padded ← Uint8Array.new ((signedShiftRight (len + 8) 6 <<< (6 : Number)) + 64)
  let padded ← padded.copy bytes
  let padded := padded.set len 0x80
  let padded ← DataView.setUint32 padded (num padded.length - 4) (bitLen >>> (0 : Number))
  DataView.setUint32 padded (num padded.length - 8) (floor (bitLen / num (2 ^ 32)))

def load (view : Uint8Array) (off i : Number) (w : Uint32Array) : Except Throw Uint32Array := do
  return w.set i (← DataView.getUint32 view (off + i * 4))

def extend (i : Number) (w : Uint32Array) : Uint32Array :=
  let s0 := rr (w.get (i - 15)) 7 ^^^ rr (w.get (i - 15)) 18 ^^^ (w.get (i - 15) >>> (3 : Number))
  let s1 := rr (w.get (i - 2)) 17 ^^^ rr (w.get (i - 2)) 19 ^^^ (w.get (i - 2) >>> (10 : Number))
  w.set i ((w.get (i - 16) + s0 + w.get (i - 7) + s1) >>> (0 : Number))

/-- The words of one block, into an array that still holds those of the block before. -/
def schedule (view : Uint8Array) (off : Number) (w : Uint32Array) : Except Throw Uint32Array := do
  let w ← forLoop 0 16 1 (load view off) w
  forLoop 16 64 1 (fun i w ↦ .ok (extend i w)) w

structure Vars where
  (a b c d e f g h : Number)

def round (w : Uint32Array) (i : Number) (v : Vars) : Vars :=
  let S1 := rr v.e 6 ^^^ rr v.e 11 ^^^ rr v.e 25
  let ch := (v.e &&& v.f) ^^^ (~~~v.e &&& v.g)
  let t1 := (v.h + S1 + ch + K.get i + w.get i) >>> (0 : Number)
  let S0 := rr v.a 2 ^^^ rr v.a 13 ^^^ rr v.a 22
  let maj := (v.a &&& v.b) ^^^ (v.a &&& v.c) ^^^ (v.b &&& v.c)
  let t2 := (S0 + maj) >>> (0 : Number)
  { h := v.g, g := v.f, f := v.e, e := (v.d + t1) >>> (0 : Number)
    d := v.c, c := v.b, b := v.a, a := (t1 + t2) >>> (0 : Number) }

def Vars.ofArray (H : Uint32Array) : Vars where
  a := H.get 0
  b := H.get 1
  c := H.get 2
  d := H.get 3
  e := H.get 4
  f := H.get 5
  g := H.get 6
  h := H.get 7

def increase (H : Uint32Array) (i v : Number) : Uint32Array :=
  H.set i ((H.get i + v) >>> (0 : Number))

def addVars (H : Uint32Array) (v : Vars) : Uint32Array :=
  let H := increase (increase H 0 v.a) 1 v.b
  let H := increase (increase H 2 v.c) 3 v.d
  let H := increase (increase H 4 v.e) 5 v.f
  increase (increase H 6 v.g) 7 v.h

def block (view : Uint8Array) (off : Number) : Uint32Array × Uint32Array →
    Except Throw (Uint32Array × Uint32Array)
  | (w, H) => do
      let w ← schedule view off w
      let v ← forLoop 0 64 1 (fun i v ↦ .ok (round w i v)) (Vars.ofArray H)
      return (w, addVars H v)

def putWord (out : Uint8Array) (word : BitVec 32 × ℕ) : Except Throw Uint8Array :=
  DataView.setUint32 out (num word.2 * 4) (ofUint32 word.1)

def output (H : Uint32Array) : Except Throw Uint8Array := do
  let out ← Uint8Array.new 32
  Uint32Array.ofBuffer out
  H.zipIdx.foldlM putWord out

def sha256 (bytes : Uint8Array) : Except Throw Uint8Array := do
  let padded ← pad bytes
  let (_, H) ← forLoop 0 padded.length 64 (block padded) (List.replicate 64 0, H)
  output H

section Words

variable {k n : ℕ} {a : BitVec 32} {x : Number}

theorem carries_rr (hx : Carries k a x) (h0 : 0 < n) (hn : n < 32) :
    Carries 1 (a.rotateRight n) (rr x (num n)) := by
  have hsub : (32 : Number) - num n = num (32 - n : ℕ) :=
    num_natCast_sub (m := 32) (by omega) (by omega)
  rw [rr, hsub, BitVec.rotateRight_def, Nat.mod_eq_of_lt hn]
  exact (hx.shiftRight hn).or (hx.shiftLeft (by omega))

theorem carries_sigma0 (hx : Carries k a x) :
    Carries 1 (Sha256.sigma0 a) (rr x 7 ^^^ rr x 18 ^^^ (x >>> (3 : Number))) :=
  ((carries_rr (n := 7) hx (by omega) (by omega)).xor
    (carries_rr (n := 18) hx (by omega) (by omega))).xor (hx.shiftRight (n := 3) (by omega))

theorem carries_sigma1 (hx : Carries k a x) :
    Carries 1 (Sha256.sigma1 a) (rr x 17 ^^^ rr x 19 ^^^ (x >>> (10 : Number))) :=
  ((carries_rr (n := 17) hx (by omega) (by omega)).xor
    (carries_rr (n := 19) hx (by omega) (by omega))).xor (hx.shiftRight (n := 10) (by omega))

theorem carries_Sigma0 (hx : Carries k a x) :
    Carries 1 (Sha256.Sigma0 a) (rr x 2 ^^^ rr x 13 ^^^ rr x 22) :=
  ((carries_rr (n := 2) hx (by omega) (by omega)).xor
    (carries_rr (n := 13) hx (by omega) (by omega))).xor
    (carries_rr (n := 22) hx (by omega) (by omega))

theorem carries_Sigma1 (hx : Carries k a x) :
    Carries 1 (Sha256.Sigma1 a) (rr x 6 ^^^ rr x 11 ^^^ rr x 25) :=
  ((carries_rr (n := 6) hx (by omega) (by omega)).xor
    (carries_rr (n := 11) hx (by omega) (by omega))).xor
    (carries_rr (n := 25) hx (by omega) (by omega))

theorem carries_Ch (a b c : BitVec 32) :
    Carries 1 (Sha256.Ch a b c)
      ((ofUint32 a &&& ofUint32 b) ^^^ (~~~ofUint32 a &&& ofUint32 c)) :=
  ((Carries.ofUint32 a).and (.ofUint32 b)).xor ((Carries.ofUint32 a).not.and (.ofUint32 c))

theorem carries_Maj (a b c : BitVec 32) :
    Carries 1 (Sha256.Maj a b c) ((ofUint32 a &&& ofUint32 b) ^^^ (ofUint32 a &&& ofUint32 c) ^^^
      (ofUint32 b &&& ofUint32 c)) :=
  (((Carries.ofUint32 a).and (.ofUint32 b)).xor ((Carries.ofUint32 a).and (.ofUint32 c))).xor
    ((Carries.ofUint32 b).and (.ofUint32 c))

end Words

def vars (r : Sha256.Registers) : Vars where
  a := ofUint32 r.a
  b := ofUint32 r.b
  c := ofUint32 r.c
  d := ofUint32 r.d
  e := ofUint32 r.e
  f := ofUint32 r.f
  g := ofUint32 r.g
  h := ofUint32 r.h

theorem K_eq : K = Sha256.K := by decide +kernel

theorem H_eq : H = Sha256.H0.words := by decide +kernel

theorem round_vars {w : Uint32Array} {n : ℕ} (hw : n < w.length) (hn : n < 64)
    (r : Sha256.Registers) :
    round w (num n) (vars r) = vars (Sha256.round r (Sha256.K.getD n 0) (w.getD n 0)) := by
  have hK : K.get (num n) = ofUint32 (Sha256.K.getD n 0) := by
    rw [← K_eq]
    exact get_num hn (by omega)
  have hword : w.get (num n) = ofUint32 (w.getD n 0) := get_num hw (by omega)
  have hone : ∀ b, Carries 1 b (ofUint32 b) := Carries.ofUint32
  have ht1 := ((((hone r.h).add (carries_Sigma1 (hone r.e)) (by omega)).add
    (carries_Ch r.e r.f r.g) (by omega)).add (hone (Sha256.K.getD n 0)) (by omega)).add
    (hone (w.getD n 0)) (by omega)
  have ht2 := (carries_Sigma0 (hone r.a)).add (carries_Maj r.a r.b r.c) (by omega)
  simp only [round, vars, hK, hword, ht1.shiftRight_zero, ht2.shiftRight_zero]
  rw [((hone r.d).add (hone _) (by omega)).shiftRight_zero,
    ((hone _).add (hone _) (by omega)).shiftRight_zero]
  rfl

section Schedule

variable {view : Uint8Array} {i n : ℕ} {w : Uint32Array} {m : List (BitVec 32)}

theorem load_num (hview : 64 * i + 4 * n + 4 ≤ view.length) (hlt : 64 * i + 4 * n < 2 ^ 53)
    (hw : n < w.length) :
    load view (num (64 * i : ℕ)) (num n) w =
      .ok (List.set w n (wordAt view (64 * i + 4 * n))) := by
  have hmul : num n * 4 = num (n * 4 : ℕ) :=
    num_natCast_mul (n := 4) (by omega) (by omega) (by omega)
  have hoff : num (64 * i : ℕ) + num n * 4 = num (64 * i + 4 * n : ℕ) := by
    rw [hmul, num_natCast_add (by omega), mul_comm n]
  rw [load, hoff, getUint32_num hview hlt]
  change Except.ok (Uint32Array.set w (num n) _) = _
  rw [set_num hw (by omega), (Carries.ofUint32 _).bits_eq]

theorem extend_num (hw : n + 16 < w.length) (hlt : n + 16 < 2 ^ 53) :
    extend (num (n + 16 : ℕ)) w =
      List.set w (n + 16) (Sha256.sigma1 (w.getD (n + 14) 0) + w.getD (n + 9) 0 +
        Sha256.sigma0 (w.getD (n + 1) 0) + w.getD n 0) := by
  have hget : ∀ j : ℕ, 0 < j → j ≤ 16 → w.get (num (n + 16 : ℕ) - num j) =
      ofUint32 (w.getD (n + 16 - j) 0) := by
    intro j h0 hj
    rw [num_natCast_sub (by omega) hlt, get_num (by omega) (by omega)]
  have hone : ∀ b, Carries 1 b (ofUint32 b) := Carries.ofUint32
  have h16 : w.get (num (n + 16 : ℕ) - 16) = ofUint32 (w.getD n 0) :=
    hget 16 (by omega) le_rfl
  have h15 : w.get (num (n + 16 : ℕ) - 15) = ofUint32 (w.getD (n + 1) 0) :=
    hget 15 (by omega) (by omega)
  have h7 : w.get (num (n + 16 : ℕ) - 7) = ofUint32 (w.getD (n + 9) 0) :=
    hget 7 (by omega) (by omega)
  have h2 : w.get (num (n + 16 : ℕ) - 2) = ofUint32 (w.getD (n + 14) 0) :=
    hget 2 (by omega) (by omega)
  have hsum := (((hone (w.getD n 0)).add (carries_sigma0 (hone (w.getD (n + 1) 0)))
    (by omega)).add (hone (w.getD (n + 9) 0)) (by omega)).add
    (carries_sigma1 (hone (w.getD (n + 14) 0))) (by omega)
  simp only [extend, h16, h15, h7, h2, hsum.shiftRight_zero]
  rw [set_num hw hlt, (hone _).bits_eq]
  congr 1
  ac_rfl

theorem exists_loaded (hview : 64 * i + 64 ≤ view.length) (hlt : 64 * i + 64 < 2 ^ 53)
    (hw : w.length = 64) :
    ∃ u, forLoop 0 16 1 (load view (num (64 * i : ℕ))) w = .ok u ∧
      u.length = 64 ∧ u.take 16 = Sha256.block view i := by
  refine exists_forLoop (fun n (u : Uint32Array) ↦ u.length = 64 ∧
      u.take n = (List.range n).map fun t ↦ wordAt view (64 * i + 4 * t)) 16 rfl
    ⟨hw, rfl⟩ fun n u hn hu ↦ ?_
  obtain ⟨hlen, htake⟩ := hu
  have hload : load view (num (64 * i : ℕ)) (num (0 + n * 1 : ℕ)) u =
      .ok (List.set u n (wordAt view (64 * i + 4 * n))) := by
    rw [zero_add, mul_one]
    exact load_num (by omega) (by omega) (by omega)
  refine ⟨_, hload, by rw [List.length_set, hlen], ?_⟩
  rw [take_succ_set (by omega), htake, List.range_succ, List.map_append]
  rfl

theorem exists_extended (hw : w.length = 64) (hload : w.take 16 = m) :
    ∃ u, forLoop 16 64 1 (fun i w ↦ .ok (extend i w)) w = .ok u ∧
      u.length = 64 ∧ u.take (48 + 16) = Sha256.schedule m 48 := by
  refine exists_forLoop (fun n (u : Uint32Array) ↦ u.length = 64 ∧
    u.take (n + 16) = Sha256.schedule m n) 48 rfl ⟨hw, hload⟩ fun n u hn hu ↦ ?_
  obtain ⟨hlen, htake⟩ := hu
  refine ⟨_, rfl, ?_⟩
  rw [show 16 + n * 1 = n + 16 by omega, extend_num (by omega) (by omega)]
  refine ⟨by rw [List.length_set, hlen], ?_⟩
  have hread : ∀ j, j < n + 16 → u.getD j 0 = (Sha256.schedule m n).getD j 0 := fun j hj ↦ by
    rw [← htake, getD_take hj]
  rw [Nat.succ_add, take_succ_set (by omega), htake, hread _ (by omega), hread _ (by omega),
    hread _ (by omega), hread _ (by omega)]
  rfl

theorem schedule_num (hview : 64 * i + 64 ≤ view.length) (hlt : 64 * i + 64 < 2 ^ 53)
    (hw : w.length = 64) :
    schedule view (num (64 * i : ℕ)) w = .ok (Sha256.schedule (Sha256.block view i) 48) := by
  obtain ⟨u, hload, hu, htake⟩ := exists_loaded hview hlt hw
  obtain ⟨v, hrun, hv, hall⟩ := exists_extended hu htake
  have hword : v = Sha256.schedule (Sha256.block view i) 48 :=
    (List.take_of_length_le (by omega)).symm.trans hall
  rw [schedule, hload, ok_bind, hrun, hword]

end Schedule

section Compression

variable {view : Uint8Array} {i n : ℕ} {w : Uint32Array} {r s : Sha256.Registers}

theorem forLoop_round (hw : w.length = 64) (r : Sha256.Registers) :
    forLoop 0 64 1 (fun i v ↦ .ok (round w i v)) (vars r) = .ok (vars (Sha256.rounds w r 64)) := by
  have hround : ∀ n v, n < 64 → v = vars (Sha256.rounds w r n) →
      ∃ u, .ok (round w (num (0 + n * 1 : ℕ)) v) = (.ok u : Except Throw Vars) ∧
        u = vars (Sha256.rounds w r (n + 1)) := by
    intro n v hn hv
    refine ⟨_, rfl, ?_⟩
    rw [hv, zero_add, mul_one, round_vars (by omega) hn, Sha256.rounds_succ]
  obtain ⟨v, hrun, hv⟩ : ∃ v, forLoop 0 64 1 (fun i v ↦ .ok (round w i v)) (vars r) = .ok v ∧
      v = vars (Sha256.rounds w r 64) :=
    exists_forLoop (fun n v ↦ v = vars (Sha256.rounds w r n)) 64 rfl rfl hround
  rw [hrun, hv]

theorem ofArray_words (r : Sha256.Registers) : Vars.ofArray r.words = vars r := by
  have hget : ∀ n : ℕ, n < 8 → Uint32Array.get r.words (num n) = ofUint32 (r.words.getD n 0) :=
    fun n hn ↦ get_num hn (by omega)
  simp only [Vars.ofArray, literal]
  rw [hget 0 (by omega), hget 1 (by omega), hget 2 (by omega), hget 3 (by omega),
    hget 4 (by omega), hget 5 (by omega), hget 6 (by omega), hget 7 (by omega)]
  rfl

theorem increase_num {l : Uint32Array} (hn : n < l.length) (hlt : n < 2 ^ 53) (b : BitVec 32) :
    increase l (num n) (ofUint32 b) = List.set l n (l.getD n 0 + b) := by
  have hsum := ((Carries.ofUint32 (l.getD n 0)).add (.ofUint32 b) (by omega)).shiftRight_zero
  rw [increase, get_num hn hlt, hsum, set_num hn hlt, (Carries.ofUint32 _).bits_eq]

theorem addVars_words (r s : Sha256.Registers) :
    addVars r.words (vars s) = (r.add s).words := by
  have hstep : ∀ (l : Uint32Array) (n : ℕ) (b : BitVec 32), l.length = 8 → n < 8 →
      increase l (num n) (ofUint32 b) = List.set l n (l.getD n 0 + b) :=
    fun l n b hl hn ↦ increase_num (by omega) (by omega) b
  simp only [addVars, vars, literal, Sha256.Registers.words]
  rw [hstep _ 0 _ rfl (by omega), hstep _ 1 _ rfl (by omega), hstep _ 2 _ rfl (by omega),
    hstep _ 3 _ rfl (by omega), hstep _ 4 _ rfl (by omega), hstep _ 5 _ rfl (by omega),
    hstep _ 6 _ rfl (by omega), hstep _ 7 _ rfl (by omega)]
  rfl

theorem length_schedule_block (view : List Byte) (i : ℕ) :
    (Sha256.schedule (Sha256.block view i) 48).length = 64 := by
  rw [Sha256.length_schedule, Sha256.block, List.length_map, List.length_range]

theorem block_words (hview : 64 * i + 64 ≤ view.length) (hlt : 64 * i + 64 < 2 ^ 53)
    (hw : w.length = 64) (r : Sha256.Registers) :
    block view (num (64 * i : ℕ)) (w, r.words) =
      .ok (Sha256.schedule (Sha256.block view i) 48,
        (Sha256.compress r (Sha256.block view i)).words) := by
  rw [block, schedule_num hview hlt hw, ok_bind, ofArray_words,
    forLoop_round (length_schedule_block view i), ok_bind, addVars_words]
  rfl

theorem foldlM_setUint32 (words : List (BitVec 32)) (front rest : List Byte)
    (hfront : front.length = 4 * i) (hrest : rest.length = 4 * words.length)
    (hlt : 4 * (i + words.length) < 2 ^ 53) :
    (words.zipIdx i).foldlM putWord (front ++ rest) = .ok (front ++ words.flatMap wordBytes) := by
  induction words generalizing i front rest with
  | nil =>
      rw [List.eq_nil_of_length_eq_zero hrest]
      rfl
  | cons word words ih =>
      rw [List.length_cons] at hrest hlt
      have hoff : num i * 4 = num (4 * i : ℕ) := by
        rw [mul_comm 4 i]
        exact num_natCast_mul (n := 4) (by omega) (by omega) (by omega)
      have hwrite : putWord (front ++ rest) (word, i) =
          .ok (front ++ wordBytes word ++ rest.drop 4) := by
        rw [putWord, hoff, setUint32_num (by rw [List.length_append]; omega) (by omega), ← hfront,
          List.take_left, List.drop_length_add_append, (Carries.ofUint32 _).bits_eq]
      rw [List.zipIdx_cons, List.foldlM_cons, hwrite, ok_bind, ih, List.flatMap_cons,
        List.append_assoc]
      all_goals simp
      all_goals omega

end Compression

section Padding

variable {bytes p : Uint8Array} {n : ℕ} {x y : Number}

theorem length_padded (h : n < 2 ^ 31 - 8) :
    (signedShiftRight (num n + 8) 6 <<< (6 : Number)) + 64 =
      num (64 * ((n + 8) / 64) + 64 : ℕ) := by
  have hsum : num n + 8 = num (n + 8 : ℕ) := num_natCast_add (n := 8) (by omega)
  have hbits : bits (num (n + 8 : ℕ)) = BitVec.ofNat 32 (n + 8) := by
    rw [bits_num (by omega), BitVec.ofInt_natCast]
  have hcount : shiftCount 6 = 6 := shiftCount_num (n := 6) (by omega)
  have hmsb : (BitVec.ofNat 32 (n + 8)).msb = false := by
    rw [BitVec.msb_eq_false_iff_two_mul_lt, BitVec.toNat_ofNat]
    omega
  have hright : signedShiftRight (num n + 8) 6 = ofInt32 (BitVec.ofNat 32 ((n + 8) / 64)) := by
    rw [signedShiftRight, hsum, hbits, hcount, BitVec.sshiftRight_eq_of_msb_false hmsb]
    congr 1
    refine BitVec.eq_of_toNat_eq ?_
    rw [BitVec.toNat_ushiftRight, BitVec.toNat_ofNat, BitVec.toNat_ofNat,
      Nat.shiftRight_eq_div_pow]
    omega
  have hleft : ofInt32 (BitVec.ofNat 32 ((n + 8) / 64)) <<< (6 : Number) =
      num (64 * ((n + 8) / 64) : ℕ) := by
    have hshift := (Carries.ofInt32 (BitVec.ofNat 32 ((n + 8) / 64))).bits_eq
    change ofInt32 (bits _ <<< shiftCount 6) = _
    have hmul : BitVec.ofNat 32 ((n + 8) / 64) <<< 6 = BitVec.ofNat 32 (64 * ((n + 8) / 64)) := by
      refine BitVec.eq_of_toNat_eq ?_
      rw [BitVec.toNat_shiftLeft, BitVec.toNat_ofNat, BitVec.toNat_ofNat, Nat.shiftLeft_eq]
      omega
    have hnat : (BitVec.ofNat 32 (64 * ((n + 8) / 64))).toNat = 64 * ((n + 8) / 64) := by
      rw [BitVec.toNat_ofNat]
      omega
    rw [hshift, hcount, hmul, ofInt32, BitVec.toInt_eq_toNat_of_lt (by omega), hnat]
  rw [hright, hleft]
  exact num_natCast_add (n := 64) (by omega)

theorem writes_num (hp : p.length = n) (h8 : 8 ≤ n) (hlt : n < 2 ^ 53) :
    (do
      let q ← DataView.setUint32 p (num p.length - 4) x
      DataView.setUint32 q (num q.length - 8) y) =
    .ok (p.take (n - 8) ++ (wordBytes (bits y) ++ wordBytes (bits x))) := by
  have hlow : num n - 4 = num (n - 4 : ℕ) := num_natCast_sub (n := 4) (by omega) hlt
  have hhigh : num n - 8 = num (n - 8 : ℕ) := num_natCast_sub (n := 8) (by omega) hlt
  obtain ⟨q, hq⟩ : ∃ q, q = p.take (n - 4) ++ wordBytes (bits x) := ⟨_, rfl⟩
  have hqlen : q.length = n := by
    rw [hq, List.length_append, List.length_take, length_wordBytes]
    omega
  have hfirst : DataView.setUint32 p (num n - 4) x = .ok q := by
    rw [hlow, setUint32_num (by omega) (by omega), hq, List.drop_of_length_le (by omega),
      List.append_nil]
  have htake : q.take (n - 8) = p.take (n - 8) := by
    rw [hq, List.take_append_of_le_length (by rw [List.length_take]; omega), List.take_take]
    congr 1
    omega
  have hdrop : q.drop (n - 8 + 4) = wordBytes (bits x) := by
    rw [hq, List.drop_left' (by rw [List.length_take]; omega)]
  rw [hp, hfirst, ok_bind, hqlen, hhigh, setUint32_num (by omega) (by omega), htake, hdrop,
    List.append_assoc]

theorem marked (h : bytes.length < n) (hlt : n < 2 ^ 53) :
    Uint8Array.set (bytes ++ List.replicate (n - bytes.length) 0) (num bytes.length) 0x80 =
      bytes ++ 0x80 :: List.replicate (n - bytes.length - 1) 0 := by
  have hbyte : (bits 0x80).setWidth 8 = (0x80 : Byte) := by
    rw [literal, bits_num (by decide)]
    rfl
  obtain ⟨k, hk⟩ : ∃ k, n - bytes.length = k + 1 := ⟨n - bytes.length - 1, by omega⟩
  rw [set_byte_num (by rw [List.length_append, List.length_replicate]; omega) (by omega), hbyte,
    List.set_append_right _ _ le_rfl, Nat.sub_self, hk, List.replicate_succ, List.set_cons_zero]
  rfl

theorem take_marked (hn : n = 64 * ((bytes.length + 8) / 64) + 64) :
    (bytes ++ 0x80 :: List.replicate (n - bytes.length - 1) 0).take (n - 8) =
      bytes ++ 0x80 :: List.replicate ((119 - bytes.length % 64) % 64) 0 := by
  have hrest : n - 8 - bytes.length = (119 - bytes.length % 64) % 64 + 1 := by omega
  have hmin : min ((119 - bytes.length % 64) % 64) (n - bytes.length - 1) =
      (119 - bytes.length % 64) % 64 := by
    omega
  rw [List.take_append, List.take_of_length_le (by omega), hrest, List.take_succ_cons,
    List.take_replicate, hmin]

theorem bits_low (h : n < 2 ^ 31) :
    bits (num (8 * n : ℕ) >>> (0 : Number)) = BitVec.ofNat 32 (8 * n) := by
  have hcarries : Carries 4 (BitVec.ofNat 32 (8 * n)) (num (8 * n : ℕ)) :=
    ⟨by omega, _, rfl, by omega, BitVec.ofInt_natCast 32 _⟩
  rw [hcarries.shiftRight_zero, (Carries.ofUint32 _).bits_eq]

theorem bits_high (h : n < 2 ^ 31) :
    bits (floor (num (8 * n : ℕ) / num (2 ^ 32))) = BitVec.ofNat 32 (8 * n / 256 ^ 4) := by
  have hdiv : ((8 * n : ℕ) : ℤ) / 2 ^ 32 = (8 * n / 256 ^ 4 : ℕ) := by omega
  rw [floor_num_div (by omega) (by omega) (by omega), hdiv, bits_num (by omega),
    BitVec.ofInt_natCast]

theorem pad_eq (h : bytes.length < 2 ^ 31 - 8) : pad bytes = .ok (Sha256.pad bytes) := by
  obtain ⟨n, hn⟩ : ∃ n, n = 64 * ((bytes.length + 8) / 64) + 64 := ⟨_, rfl⟩
  obtain ⟨p, hp⟩ : ∃ p, p = bytes ++ 0x80 :: List.replicate (n - bytes.length - 1) 0 := ⟨_, rfl⟩
  have hplen : p.length = n := by
    rw [hp, List.length_append, List.length_cons, List.length_replicate]
    omega
  have hbitLen : num bytes.length * 8 = num (8 * bytes.length : ℕ) := by
    rw [mul_comm 8]
    exact num_natCast_mul (n := 8) (by omega) (by omega) (by omega)
  have hnew : Uint8Array.new ((signedShiftRight (num bytes.length + 8) 6 <<< (6 : Number)) + 64) =
      .ok (List.replicate n 0) := by
    rw [length_padded h, ← hn, Uint8Array.new, toIndex_num (by omega), ok_bind]
    rfl
  have hcopy : Uint8Array.copy (List.replicate n 0) bytes =
      .ok (bytes ++ List.replicate (n - bytes.length) 0) := by
    rw [Uint8Array.copy, if_pos (by rw [List.length_replicate]; omega), List.drop_replicate]
  rw [pad]
  simp only [hnew, ok_bind, hcopy, marked (show bytes.length < n by omega) (by omega), ← hp,
    hbitLen]
  rw [writes_num hplen (by omega) (by omega), hp, take_marked hn, bits_low (by omega),
    bits_high (by omega), wordBytes_ofNat, wordBytes_ofNat, ← toBytes_add]
  rfl

end Padding

/-- After `n` blocks. -/
def Chained (padded : List Byte) (n : ℕ) (s : Uint32Array × Uint32Array) : Prop :=
  s.1.length = 64 ∧ s.2 = (Sha256.hash padded n).words

theorem exists_blocks {p : List Byte} (hlen : p.length % 64 = 0) (hlt : p.length < 2 ^ 53) :
    ∃ s, forLoop 0 p.length 64 (block p) (List.replicate 64 0, H) = .ok s ∧
      Chained p (p.length / 64) s := by
  refine exists_forLoop (Chained p) (p.length / 64) (by omega) ⟨rfl, H_eq⟩ fun n s hn hs ↦ ?_
  obtain ⟨w, H⟩ := s
  obtain ⟨hw, rfl⟩ : w.length = 64 ∧ H = (Sha256.hash p n).words := hs
  rw [zero_add, mul_comm n, block_words (by omega) (by omega) hw]
  refine ⟨_, rfl, length_schedule_block p n, ?_⟩
  rw [Sha256.hash_succ]

theorem output_words (r : Sha256.Registers) : output r.words = .ok (r.words.flatMap wordBytes) := by
  have hnew : Uint8Array.new 32 = .ok (List.replicate 32 0) := by
    rw [Uint8Array.new, literal, toIndex_num (by decide), ok_bind]
    rfl
  have hview : Uint32Array.ofBuffer (List.replicate 32 0) = .ok () := by
    rw [Uint32Array.ofBuffer, List.length_replicate]
    rfl
  rw [output, hnew, ok_bind, hview, ok_bind]
  exact foldlM_setUint32 r.words [] (List.replicate 32 0) rfl rfl
    (show 4 * (0 + 8) < 2 ^ 53 by omega)

theorem sha256_eq_digest (bytes : Uint8Array) (h : bytes.length < 2 ^ 31 - 8) :
    sha256 bytes = .ok (Sha256.digest bytes) := by
  have hlen := Sha256.length_pad bytes
  obtain ⟨⟨w, H⟩, hrun, -, hH⟩ := exists_blocks (p := Sha256.pad bytes) (by omega) (by omega)
  simp only at hH
  rw [sha256, pad_eq h, ok_bind, hrun, ok_bind]
  simp only
  rw [hH, output_words]
  rfl

theorem sha256_abc : sha256 [0x61, 0x62, 0x63] = .ok (toBytes 32
    0xba7816bf8f01cfea414140de5dae2223b00361a396177a9cb410ff61f20015ad) := by
  rw [sha256_eq_digest [0x61, 0x62, 0x63] (by decide)]
  decide +kernel

end Postbud.Ui.Oidc
