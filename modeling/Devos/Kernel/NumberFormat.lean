import Devos.Basic
import Devos.Library.Loops
import Mathlib.Data.Int.Notation
import Mathlib.Data.Nat.Digits.Lemmas

/-! `number` of `vsprintf.c`: a number with its sign, prefix and padding. -/

namespace Devos.Kernel

open Loops

/-- An `int`. -/
def int32 (z : ℤ) : ℤ := z.bmod (2 ^ 32)

/-- The bits of `type`. -/
structure NumberType where
  zeropad : Bool
  sign : Bool
  plus : Bool
  space : Bool
  left : Bool
  special : Bool
  small : Bool
  deriving DecidableEq

def digits (small : Bool) : List Byte :=
  (if small then "0123456789abcdefghijklmnopqrstuvwxyz" else "0123456789ABCDEFGHIJKLMNOPQRSTUVWXYZ").toList.map
    fun c => BitVec.ofNat 8 c.toNat

/-- `while(size-->0) *str++ = c;`, with the `size` that it leaves. -/
def padLoop (c : Byte) : ℕ → ℤ → List Byte → List Byte × ℤ
  | 0, size, str => (str, size)
  | turns + 1, size, str =>
    if 0 < size then padLoop c turns (int32 (size - 1)) (str ++ [c]) else (str, int32 (size - 1))

def pad (c : Byte) (size : ℤ) (str : List Byte) : List Byte × ℤ := padLoop c (size.toNat + 1) size str

/-- `while(i<precision--) *str++ = '0';` -/
def zeroLoop (i : ℕ) : ℕ → ℤ → List Byte → List Byte
  | 0, _, str => str
  | turns + 1, precision, str =>
    if i < precision then zeroLoop i turns (int32 (precision - 1)) (str ++ [48]) else str

/-- `while(i-->0) *str++ = tmp[i];` -/
def copyLoop (tmp : List Byte) : ℕ → List Byte → List Byte
  | 0, str => str
  | i + 1, str => copyLoop tmp i (str ++ [tmp.getD i 0])

/-- A turn of `while (num!=0) tmp[i++]=digits[do_div(num,base)];`; `do_div` divides without sign. -/
def digitTurn (small : Bool) (base : ℕ) (s : ℕ × List Byte) : Pass (ℕ × List Byte) (Except Fault (List Byte)) :=
  if s.1 = 0 then .leave (.ok s.2)
  else if 36 ≤ s.2.length then .leave (.error .overrun)
  else .again (s.1 / base, s.2 ++ [(digits small).getD (s.1 % base) 0])

/-- `tmp`, with the last digit first. -/
def tmpDigits (small : Bool) (base num : ℕ) : Except Fault (List Byte) :=
  if num = 0 then .ok [48] else (iterate (digitTurn small base) 37 (num, [])).getD (.error .hang)

section Number

variable (num : BitVec 32) (type : NumberType)

/-- `sign`, if it is not 0. -/
def signChar : Option Byte :=
  if type.sign ∧ num.toInt < 0 then some 45
  else if type.plus then some 43
  else if type.space then some 32
  else none

def magnitude : BitVec 32 := if type.sign ∧ num.toInt < 0 then -num else num

def prefixChars (base : ℤ) : List Byte :=
  if type.special then
    if base = 8 then [48] else if base = 16 then [48, (digits type.small).getD 33 0] else []
  else []

/-- `type &= ~ZEROPAD`, if it is `LEFT`. -/
def effective (type : NumberType) : NumberType := if type.left then { type with zeropad := false } else type

/-- What is written at `str`; `none` is the null pointer. -/
def number (base size precision : ℤ) : Except Fault (Option (List Byte)) :=
  let type := effective type
  if base < 2 ∨ 36 < base then .ok none
  else
    let c : Byte := if type.zeropad then 48 else 32
    let sign := signChar num type
    let size := if sign.isSome then int32 (size - 1) else size
    let size :=
      if type.special then if base = 16 then int32 (size - 2) else if base = 8 then int32 (size - 1) else size else size
    (tmpDigits type.small base.toNat (magnitude num type).toNat).map fun tmp =>
      let precision := if precision < tmp.length then (tmp.length : ℤ) else precision
      let size := int32 (size - precision)
      let s := if type.zeropad ∨ type.left then ([], size) else pad 32 size []
      let str := s.1 ++ sign.toList ++ prefixChars type base
      let s := if type.left then (str, s.2) else pad c s.2 str
      let str := copyLoop tmp tmp.length (zeroLoop tmp.length ((precision - tmp.length).toNat + 1) precision s.1)
      some (pad 32 s.2 str).1

end Number

section Specification

variable (num : BitVec 32) (base size precision : ℤ) (type : NumberType)

/-- The value that the type gives the word. -/
def value : ℤ := if type.sign then num.toInt else num.toNat

/-- `ds` are digits that denote `n`. -/
def Denotes (small : Bool) (base : ℕ) (ds : List Byte) (n : ℕ) : Prop :=
  ∃ vs : List ℕ, (∀ v ∈ vs, v < base) ∧ ds = vs.map (fun v => (digits small).getD v 0) ∧ Nat.ofDigits base vs.reverse = n

/-- Without leading zeros; 0 has one digit. -/
def digitCount (base n : ℕ) : ℕ := max 1 (Nat.digits base n).length

def signLength : ℕ := if type.sign ∧ value num type < 0 ∨ type.plus ∨ type.space then 1 else 0

/-- `0x` for base 16, or `0X`, and 0 for base 8. -/
def prefixText : List Byte :=
  if type.special then
    if base = 8 then [48] else if base = 16 then if type.small then [48, 120] else [48, 88] else []
  else []

/-- All but the padding. -/
def bodyLength : ℤ :=
  signLength num type + (prefixText base type).length + max (digitCount base.toNat (value num type).natAbs : ℤ) precision

def padding : ℤ := size - bodyLength num base precision type

/-- The sign, the prefix and digits that denote the value, and padding to the width: spaces behind, or zeros between the
prefix and the digits, or spaces before. -/
structure Formatted (out : List Byte) : Prop where
  length : (out.length : ℤ) = max size (bodyLength num base precision type)
  layout : ∃ sign ds, sign.length = signLength num type ∧
    (∀ c ∈ sign, c = if type.sign ∧ value num type < 0 then 45 else if type.plus then 43 else 32) ∧
    (ds.length : ℤ) = max (digitCount base.toNat (value num type).natAbs : ℤ) precision ∧
    Denotes type.small base.toNat ds (value num type).natAbs ∧
    out = if type.left then
        sign ++ prefixText base type ++ ds ++ List.replicate (padding num base size precision type).toNat 32
      else if type.zeropad then
        sign ++ prefixText base type ++ List.replicate (padding num base size precision type).toNat 48 ++ ds
      else List.replicate (padding num base size precision type).toNat 32 ++ sign ++ prefixText base type ++ ds

/-- How often the width is counted down past its end. -/
def overCount : ℤ := if type.left then 0 else if type.zeropad then 1 else 2

end Specification

section Loops

variable {c : Byte} {size precision : ℤ} {str tmp : List Byte} {turns i n base k : ℕ} {small : Bool}

lemma int32_eq {z : ℤ} (h₁ : -2 ^ 31 ≤ z) (h₂ : z < 2 ^ 31) : int32 z = z :=
  Int.bmod_eq_of_le (by omega) (by omega)

lemma int32_lt (z : ℤ) : int32 z < 2 ^ 31 := Int.bmod_lt (by decide)

/-- What the count is after a padding loop. -/
def countedDown (size : ℤ) : ℤ := if 0 < size then -1 else int32 (size - 1)

lemma countedDown_lt (size : ℤ) : countedDown size < 2 ^ 31 := by
  unfold countedDown
  split_ifs
  · decide
  · exact int32_lt _

lemma replicate_cons_append (str : List Byte) (n : ℕ) (c : Byte) :
    str ++ [c] ++ List.replicate n c = str ++ List.replicate (n + 1) c := by
  rw [List.append_assoc, List.singleton_append, List.replicate_succ]

lemma padLoop_eq (hsize : size < 2 ^ 31) (hturns : size.toNat < turns) :
    padLoop c turns size str = (str ++ List.replicate size.toNat c, countedDown size) := by
  induction turns generalizing size str with
  | zero => exact absurd hturns (Nat.not_lt_zero _)
  | succ turns ih =>
    rw [padLoop]
    by_cases hpos : 0 < size
    · have hstep : int32 (size - 1) = size - 1 := int32_eq (by omega) (by omega)
      have hcount : size.toNat = (size - 1).toNat + 1 := by omega
      rw [if_pos hpos, hstep, ih (by omega) (by omega), hcount, replicate_cons_append, countedDown, countedDown,
        if_pos hpos]
      split_ifs with hmore
      · rfl
      · have hlast : size - 1 - 1 = -1 := by omega
        rw [hlast]
        rfl
    · have hzero : size.toNat = 0 := by omega
      rw [if_neg hpos, hzero, List.replicate_zero, List.append_nil, countedDown, if_neg hpos]

lemma pad_eq (hsize : size < 2 ^ 31) : pad c size str = (str ++ List.replicate size.toNat c, countedDown size) :=
  padLoop_eq hsize (Nat.lt_succ_self _)

lemma zeroLoop_eq (hlt : precision < 2 ^ 31) (hturns : (precision - i).toNat < turns) :
    zeroLoop i turns precision str = str ++ List.replicate (precision - i).toNat 48 := by
  induction turns generalizing precision str with
  | zero => exact absurd hturns (Nat.not_lt_zero _)
  | succ turns ih =>
    rw [zeroLoop]
    by_cases hmore : i < precision
    · have hstep : int32 (precision - 1) = precision - 1 := int32_eq (by omega) (by omega)
      have hcount : (precision - i).toNat = (precision - 1 - i).toNat + 1 := by omega
      rw [if_pos hmore, hstep, ih (by omega) (by omega), hcount, replicate_cons_append]
    · have hzero : (precision - i).toNat = 0 := by omega
      rw [if_neg hmore, hzero, List.replicate_zero, List.append_nil]

lemma copyLoop_eq (h : n ≤ tmp.length) : copyLoop tmp n str = str ++ (tmp.take n).reverse := by
  induction n generalizing str with
  | zero => simp [copyLoop]
  | succ n ih =>
    have hlast : tmp.take (n + 1) = tmp.take n ++ [tmp.getD n 0] := by
      rw [List.getD_eq_getElem?_getD, List.getElem?_eq_getElem h, Option.getD_some, List.take_append_getElem]
    rw [copyLoop, ih (Nat.le_of_succ_le h), hlast, List.reverse_append, List.append_assoc]
    rfl

lemma digits_loop (hbase : 2 ≤ base) (hn : n < 2 ^ k) (hroom : tmp.length + k ≤ 36) (hturns : k < turns) :
    iterate (digitTurn small base) turns (n, tmp) =
      some (.ok (tmp ++ (Nat.digits base n).map fun v => (digits small).getD v 0)) := by
  induction turns generalizing n tmp k with
  | zero => exact absurd hturns (Nat.not_lt_zero k)
  | succ turns ih =>
    by_cases hzero : n = 0
    · subst hzero
      have hleave : digitTurn small base (0, tmp) = .leave (.ok tmp) := if_pos rfl
      rw [iterate_leave hleave, Nat.digits_zero, List.map_nil, List.append_nil]
    · obtain ⟨k, rfl⟩ : ∃ j, k = j + 1 := by
        refine ⟨k - 1, (Nat.sub_add_cancel ?_).symm⟩
        by_contra hk
        obtain rfl : k = 0 := by omega
        omega
      have hturn : digitTurn small base (n, tmp) = .again (n / base, tmp ++ [(digits small).getD (n % base) 0]) := by
        rw [digitTurn, if_neg hzero, if_neg (by dsimp only; omega)]
      have hless : n / base < 2 ^ k := by
        refine Nat.div_lt_of_lt_mul (hn.trans_le ?_)
        rw [pow_succ, Nat.mul_comm]
        exact Nat.mul_le_mul_right _ hbase
      rw [iterate_again hturn, ih hless (by rw [List.length_append, List.length_singleton]; omega) (by omega),
        Nat.digits_def' (by omega) (Nat.pos_of_ne_zero hzero)]
      simp

/-- The digits of a number in `tmp`, which 32 bits do not fill. -/
lemma tmpDigits_spec (small : Bool) (hbase : 2 ≤ base) (hn : n < 2 ^ 32) : ∃ vs : List ℕ, (∀ v ∈ vs, v < base) ∧
    Nat.ofDigits base vs = n ∧ vs.length = digitCount base n ∧
    tmpDigits small base n = .ok (vs.map fun v => (digits small).getD v 0) := by
  by_cases hzero : n = 0
  · subst hzero
    refine ⟨[0], by simp; omega, by simp, by simp [digitCount], ?_⟩
    cases small <;> rfl
  · refine ⟨Nat.digits base n, fun v hv => Nat.digits_lt_base (by omega) hv, Nat.ofDigits_digits base n, ?_, ?_⟩
    · have hne : Nat.digits base n ≠ [] := Nat.digits_ne_nil_iff_ne_zero.mpr hzero
      have hpos := List.length_pos_of_ne_nil hne
      rw [digitCount]
      omega
    · rw [tmpDigits, if_neg hzero, digits_loop hbase hn (by simp) (by decide)]
      rfl

end Loops

section Output

variable {num : BitVec 32} {base size precision : ℤ} {type : NumberType}

/-- The loop pads before the sign, after the prefix and behind the digits, `size` being what the body leaves. -/
def padCounts (type : NumberType) (size : ℤ) : ℕ × ℕ × ℕ :=
  let s₁ := if type.zeropad ∨ type.left then size else countedDown size
  let s₂ := if type.left then s₁ else countedDown s₁
  (if type.zeropad ∨ type.left then 0 else size.toNat, if type.left then 0 else s₁.toNat, s₂.toNat)

def padded (type : NumberType) (counts : ℕ × ℕ × ℕ) (sign text ds : List Byte) : List Byte :=
  List.replicate counts.1 32 ++ sign ++ text ++ List.replicate counts.2.1 (if type.zeropad ∧ ¬type.left then 48 else 32) ++
    ds ++ List.replicate counts.2.2 32

lemma digit_zero (small : Bool) : (digits small).getD 0 0 = 48 := by cases small <;> rfl

lemma prefixChars_eq (type : NumberType) (base : ℤ) : prefixChars type base = prefixText base type := by
  have hx : (digits type.small).getD 33 0 = if type.small then 120 else 88 := by cases type.small <;> rfl
  unfold prefixChars prefixText
  rw [hx]
  split_ifs <;> rfl

lemma value_neg (num : BitVec 32) (type : NumberType) :
    type.sign = true ∧ value num type < 0 ↔ type.sign = true ∧ num.toInt < 0 := by
  unfold value
  cases type.sign <;> simp

lemma magnitude_eq (num : BitVec 32) (type : NumberType) : (magnitude num type).toNat = (value num type).natAbs := by
  have hnum := num.isLt
  have hint := BitVec.toInt_eq_toNat_cond num
  unfold magnitude value
  cases type.sign with
  | false => simp
  | true =>
    by_cases hneg : num.toInt < 0
    · simp only [hneg, and_self, if_true, BitVec.toNat_neg]
      split_ifs at hint <;> omega
    · simp only [hneg, and_false, if_false, if_true]
      split_ifs at hint <;> omega

lemma signChar_spec (num : BitVec 32) (type : NumberType) :
    (signChar num type).toList.length = signLength num type ∧
      ((signChar num type).isSome ↔ signLength num type = 1) ∧
      ∀ c ∈ (signChar num type).toList,
        c = if type.sign ∧ value num type < 0 then 45 else if type.plus then 43 else 32 := by
  unfold signLength signChar
  by_cases hneg : type.sign = true ∧ num.toInt < 0
  · have hvalue := (value_neg num type).mpr hneg
    simp [hneg, hvalue]
  · rw [if_neg hneg]
    simp only [value_neg, hneg, false_or, if_false]
    cases type.plus <;> cases type.space <;> simp

lemma effective_spec (num : BitVec 32) (base : ℤ) (type : NumberType) :
    signChar num (effective type) = signChar num type ∧ magnitude num (effective type) = magnitude num type ∧
      prefixChars (effective type) base = prefixChars type base ∧ (effective type).special = type.special ∧
      (effective type).small = type.small ∧ (effective type).left = type.left ∧
      (effective type).zeropad = (type.zeropad && !type.left) := by
  unfold effective
  obtain ⟨zeropad, sign, plus, space, left, special, small⟩ := type
  cases left with
  | false => simp
  | true => exact ⟨rfl, rfl, rfl, rfl, rfl, rfl, by simp⟩

lemma digitCount_bounds {b n : ℕ} (hb : 2 ≤ b) (hn : n < 2 ^ 32) : 1 ≤ digitCount b n ∧ digitCount b n ≤ 32 := by
  have hle : (Nat.digits b n).length ≤ 32 :=
    (Nat.digits_length_le_iff hb n).mpr (hn.trans_le (Nat.pow_le_pow_left hb 32))
  unfold digitCount
  omega

/-- The digits that are written, with the zeros of the precision. -/
lemma digits_written {vs : List ℕ} {b n : ℕ} (small : Bool) (hb : 2 ≤ b) (hvs : ∀ v ∈ vs, v < b)
    (hvalue : Nat.ofDigits b vs = n) (k : ℕ) :
    Denotes small b (List.replicate k 48 ++ (vs.map fun v => (digits small).getD v 0).reverse) n := by
  refine ⟨List.replicate k 0 ++ vs.reverse, ?_, ?_, ?_⟩
  · intro v hv
    rcases List.mem_append.mp hv with hzero | hv
    · rw [List.eq_of_mem_replicate hzero]
      omega
    · exact hvs v (List.mem_reverse.mp hv)
  · rw [List.map_append, List.map_replicate, digit_zero, List.map_reverse]
  · rw [List.reverse_append, List.reverse_reverse, List.reverse_replicate, Nat.ofDigits_append_replicate_zero, hvalue]

lemma signLength_le (num : BitVec 32) (type : NumberType) : signLength num type ≤ 1 := by
  unfold signLength
  split_ifs <;> decide

lemma prefixText_length_le (base : ℤ) (type : NumberType) : (prefixText base type).length ≤ 2 := by
  unfold prefixText
  split_ifs <;> decide

/-- The width that the sign leaves. -/
lemma sign_counted (hsize : -2 ^ 30 < size ∧ size < 2 ^ 30) :
    (if (signChar num type).isSome then int32 (size - 1) else size) = size - signLength num type := by
  obtain ⟨_, hsome, _⟩ := signChar_spec num type
  by_cases hone : signLength num type = 1
  · rw [if_pos (hsome.mpr hone), hone, int32_eq (by omega) (by omega)]
    rfl
  · have hle := signLength_le num type
    rw [if_neg (mt hsome.mp hone), (by omega : signLength num type = 0)]
    exact (Int.sub_zero size).symm

/-- The width that the prefix leaves. -/
lemma prefix_counted {z : ℤ} (hz₁ : -2 ^ 30 ≤ z + 1) (hz₂ : z < 2 ^ 30) :
    (if type.special then if base = 16 then int32 (z - 2) else if base = 8 then int32 (z - 1) else z else z) =
      z - (prefixText base type).length := by
  unfold prefixText
  split_ifs
  · omega
  · rw [int32_eq (by omega) (by omega)]
    rfl
  · rw [int32_eq (by omega) (by omega)]
    rfl
  · rw [int32_eq (by omega) (by omega)]
    rfl
  all_goals exact (Int.sub_zero z).symm

/-- The three loops of spaces and zeros, with the sign, the prefix and the digits between them. -/
lemma pads_eq (type : NumberType) {t : ℤ} (ht : t < 2 ^ 31) (sign text ds : List Byte) :
    (let s := if (type.zeropad && !type.left) ∨ type.left then ([], t) else pad 32 t []
      let str := s.1 ++ sign ++ text
      let s := if type.left then (str, s.2) else pad (if (type.zeropad && !type.left) = true then 48 else 32) s.2 str
      (pad 32 s.2 (s.1 ++ ds)).1) = padded type (padCounts type t) sign text ds := by
  dsimp only
  unfold padded padCounts
  cases type.left with
  | true =>
    simp only [Bool.not_true, Bool.and_false, Bool.false_eq_true, or_true, if_true, not_true, and_false, if_false,
      List.replicate_zero, List.nil_append, List.append_nil, pad_eq ht]
  | false =>
    cases type.zeropad with
    | true =>
      simp only [Bool.not_false, Bool.and_true, Bool.false_eq_true, or_false, if_true, not_false_eq_true, and_true, if_false,
        List.replicate_zero, List.nil_append, pad_eq ht, pad_eq (countedDown_lt t)]
    | false =>
      simp only [Bool.not_false, Bool.and_true, Bool.false_eq_true, or_false, false_and, if_false, List.nil_append,
        pad_eq ht, pad_eq (countedDown_lt t), pad_eq (countedDown_lt (countedDown t))]

/-- The characters of `number`, with the count that the width wraps to. -/
lemma number_eq (num : BitVec 32) (type : NumberType) (hbase : 2 ≤ base) (hbase' : base ≤ 36)
    (hsize : |size| < 2 ^ 30) (hprecision : |precision| < 2 ^ 30) :
    ∃ sign ds, sign.length = signLength num type ∧
      (∀ c ∈ sign, c = if type.sign ∧ value num type < 0 then 45 else if type.plus then 43 else 32) ∧
      (ds.length : ℤ) = max (digitCount base.toNat (value num type).natAbs : ℤ) precision ∧
      Denotes type.small base.toNat ds (value num type).natAbs ∧
      number num type base size precision =
        .ok (some (padded type (padCounts type (int32 (padding num base size precision type))) sign (prefixText base type) ds)) := by
  obtain ⟨hs₁, hs₂⟩ := abs_lt.mp hsize
  obtain ⟨hp₁, hp₂⟩ := abs_lt.mp hprecision
  obtain ⟨hsign, _, hchars⟩ := signChar_spec num type
  obtain ⟨hsame, hmag, htext, hspecial, hsmall, hleft, hzeropad⟩ := effective_spec num base type
  have hb : 2 ≤ base.toNat := by omega
  obtain ⟨vs, hvs, hvalue, hlen, htmp⟩ := tmpDigits_spec type.small hb (magnitude num type).isLt
  rw [magnitude_eq] at hvalue hlen htmp
  have hsl := signLength_le num type
  obtain ⟨hcount₁, hcount₂⟩ := digitCount_bounds hb (magnitude num type).isLt
  rw [magnitude_eq, ← hlen] at hcount₁ hcount₂
  refine ⟨_, _, hsign, hchars, ?_, digits_written type.small hb hvs hvalue (precision - vs.length).toNat, ?_⟩
  · rw [List.length_append, List.length_replicate, List.length_reverse, List.length_map, ← hlen]
    omega
  · have hmax : (if precision < vs.length then (vs.length : ℤ) else precision) = max (vs.length : ℤ) precision := by
      split_ifs <;> omega
    have hwidth : size - signLength num type - (prefixText base type).length - max (vs.length : ℤ) precision =
        padding num base size precision type := by
      rw [padding, bodyLength, ← hlen]
      omega
    have hzeros : (max (vs.length : ℤ) precision - vs.length).toNat = (precision - vs.length).toNat := by omega
    have hpads := pads_eq type (int32_lt (padding num base size precision type)) (signChar num type).toList
      (prefixText base type) (List.replicate (precision - vs.length).toNat 48 ++
        (vs.map fun v => (digits type.small).getD v 0).reverse)
    rw [number]
    dsimp only
    rw [if_neg (by omega), hsame, hmag, htext, hspecial, hsmall, hleft, hzeropad, magnitude_eq, htmp, prefixChars_eq]
    simp only [Except.map, List.length_map, hmax, sign_counted ⟨hs₁, hs₂⟩]
    rw [prefix_counted (by omega) (by omega), hwidth, copyLoop_eq (by rw [List.length_map]),
      zeroLoop_eq (by omega) (by omega), hzeros, List.take_of_length_le (by rw [List.length_map]),
      List.append_assoc _ (List.replicate (precision - vs.length).toNat 48)]
    exact congrArg (fun out => Except.ok (some out)) hpads

lemma countedDown_eq {t : ℤ} (h₁ : -2 ^ 31 + 1 ≤ t) (h₂ : t < 2 ^ 31) : countedDown t = min (-1) (t - 1) := by
  unfold countedDown
  split_ifs with hpos
  · omega
  · rw [int32_eq (by omega) (by omega)]
    omega

/-- As long as the count does not wrap, one loop pads. -/
lemma padCounts_eq {t : ℤ} (h₁ : -2 ^ 31 + overCount type ≤ t) (h₂ : t < 2 ^ 31) :
    padCounts type t =
      if type.left then (0, 0, t.toNat) else if type.zeropad then (0, t.toNat, 0) else (t.toNat, 0, 0) := by
  unfold padCounts
  unfold overCount at h₁
  cases hleft : type.left with
  | true => simp
  | false =>
    cases hzeropad : type.zeropad with
    | true =>
      simp only [hleft, hzeropad, Bool.false_eq_true, if_false, if_true] at h₁
      have hdown := countedDown_eq h₁ h₂
      simp only [Bool.false_eq_true, or_false, if_true, if_false, Prod.mk.injEq, true_and]
      omega
    | false =>
      simp only [hleft, hzeropad, Bool.false_eq_true, if_false] at h₁
      have hdown := countedDown_eq (by omega) h₂
      have hagain := countedDown_eq (t := countedDown t) (by omega) (countedDown_lt t)
      simp only [Bool.false_eq_true, or_false, if_false, Prod.mk.injEq, true_and]
      omega

/-- And when it does, one of the loops is long. -/
lemma padCounts_wraps (type : NumberType) {t : ℤ} (h₁ : -2 ^ 31 - 1 ≤ t) (h₂ : t < -2 ^ 31 + overCount type) :
    2 ^ 31 - 1 ≤ (padCounts type (int32 t)).1 + (padCounts type (int32 t)).2.1 + (padCounts type (int32 t)).2.2 := by
  unfold padCounts
  unfold overCount at h₂
  have hcases : t = -2 ^ 31 - 1 ∨ t = -2 ^ 31 ∨ t = -2 ^ 31 + 1 := by
    split_ifs at h₂ <;> omega
  cases hleft : type.left with
  | true =>
    rcases hcases with rfl | rfl | rfl
    · simp only [or_true, if_true]
      decide
    · simp [hleft] at h₂
    · simp [hleft] at h₂
  | false =>
    cases hzeropad : type.zeropad with
    | true =>
      rcases hcases with rfl | rfl | rfl
      · simp only [Bool.false_eq_true, or_false, if_true, if_false]
        decide
      · simp only [Bool.false_eq_true, or_false, if_true, if_false]
        decide
      · simp [hleft, hzeropad] at h₂
    | false =>
      rcases hcases with rfl | rfl | rfl
      all_goals
        simp only [Bool.false_eq_true, or_false, if_false]
        decide

lemma bodyLength_bounds (num : BitVec 32) (type : NumberType) (hbase : 2 ≤ base) (hprecision : precision < 2 ^ 30) :
    0 ≤ bodyLength num base precision type ∧ bodyLength num base precision type ≤ 2 ^ 30 + 2 := by
  obtain ⟨hcount₁, hcount₂⟩ := digitCount_bounds (by omega : 2 ≤ base.toNat) (magnitude num type).isLt
  rw [magnitude_eq] at hcount₁ hcount₂
  have hsign := signLength_le num type
  have htext := prefixText_length_le base type
  unfold bodyLength
  omega

lemma formats_iff (hbase : 2 ≤ base) (hbase' : base ≤ 36) (hsize : |size| < 2 ^ 30) (hprecision : |precision| < 2 ^ 30) :
    (∃ out, number num type base size precision = .ok (some out) ∧ Formatted num base size precision type out) ↔
      -2 ^ 31 + overCount type ≤ padding num base size precision type := by
  obtain ⟨sign, ds, hsign, hchars, hds, hdenotes, hnumber⟩ :=
    number_eq num type hbase hbase' hsize hprecision
  obtain ⟨hs₁, hs₂⟩ := abs_lt.mp hsize
  obtain ⟨hp₁, hp₂⟩ := abs_lt.mp hprecision
  obtain ⟨hbody₁, hbody₂⟩ := bodyLength_bounds num type hbase hp₂
  have hpadding : padding num base size precision type = size - bodyLength num base precision type := rfl
  have hbody : (sign.length + (prefixText base type).length + ds.length : ℤ) = bodyLength num base precision type := by
    rw [bodyLength, hsign, hds]
  constructor
  · rintro ⟨out, hout, hformatted⟩
    by_contra hwrap
    rw [hnumber] at hout
    obtain rfl := Option.some.inj (Except.ok.inj hout)
    have hlong := padCounts_wraps type (t := padding num base size precision type) (by omega) (by omega)
    have hlength := hformatted.length
    simp only [padded, List.length_append, List.length_replicate] at hlength
    omega
  · intro hroom
    have hover : 0 ≤ overCount type := by
      unfold overCount
      split_ifs <;> decide
    rw [int32_eq (by omega) (by omega), padCounts_eq hroom (by omega)] at hnumber
    refine ⟨_, hnumber, ?_, sign, ds, hsign, hchars, hds, hdenotes, ?_⟩
    · unfold padded
      split_ifs <;> simp only [List.length_append, List.length_replicate] <;> omega
    · unfold padded
      cases type.left <;> cases type.zeropad <;> simp

/-- For widths and precisions of less than 30 bits `number` formats if and only if the width does not wrap when it is
counted down. -/
theorem number_formatted_iff (num : BitVec 32) (type : NumberType) (hbase : 2 ≤ base) (hbase' : base ≤ 36)
    (hsize : |size| < 2 ^ 30) (hprecision : |precision| < 2 ^ 30) :
    (∃ out, number num type base size precision = .ok (some out) ∧ Formatted num base size precision type out) ↔
      -2 ^ 31 + overCount type ≤ padding num base size precision type :=
  formats_iff hbase hbase' hsize hprecision

/-- `%+08x` of 255 -/
theorem formatted_plusHex : ∃ out, number 255 ⟨true, false, true, false, false, false, true⟩ 16 8 (-1) = .ok (some out) ∧
    Formatted 255 16 8 (-1) ⟨true, false, true, false, false, false, true⟩ out :=
  (number_formatted_iff _ _ (by decide) (by decide) (by decide) (by decide)).mpr (by decide)

/-- A sign, a width that is as small and a precision that is as large as they may be. -/
theorem width_wraps :
    ¬∃ out, number 1 ⟨false, true, true, false, false, false, false⟩ 10 (-(2 ^ 30 - 1)) (2 ^ 30 - 1) = .ok (some out) ∧
      Formatted 1 10 (-(2 ^ 30 - 1)) (2 ^ 30 - 1) ⟨false, true, true, false, false, false, false⟩ out := by
  rw [formats_iff (by decide) (by decide) (by decide) (by decide)]
  decide

end Output

end Devos.Kernel
