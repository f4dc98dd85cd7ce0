import WorksetIteration.Proofs.Order.Unpacked

/-!
# Words and floating-point numbers

A floating-point number that lies among the words is truncated to its integral part, and the cast back gives exactly
that part: a part of more bits than a mantissa has comes from a mantissa followed by zeros.  So a word and a
floating-point number are compared by their exact values.

Main results:

- `Reading.toInt_truncateToWord`: a floating-point number is truncated to its integral part.
- `Reading.ofFloat_nearestFloat`: a word of few significant bits is cast without rounding.
- `Reading.beyondWords?_cases`: which floating-point numbers lie among the words.
- `compareWordFloat_eq`: a word and a floating-point number stand as their exact values do.
-/

namespace WorksetIteration

open Float.Model (UnpackedFloat totalExponent)
open Float.Model.UnpackedFloat

namespace Reading

/-! ## Truncation -/

theorem mantissa_shiftRight (em : ExtendedMantissa) (k : Nat) : (em >>> k).mantissa = em.mantissa / 2 ^ k := by
  change (Nat.repeat ExtendedMantissa.shiftRightOne k em).mantissa = _
  induction k with
  | zero => exact (Nat.div_one _).symm
  | succ k ih =>
      change (Nat.repeat ExtendedMantissa.shiftRightOne k em).mantissa / 2 = _
      rw [ih, Nat.div_div_eq_div_mul, Nat.pow_succ]

theorem apply_eq_signed (s : Sign) (n : Nat) : s.apply n = signed (isNegative s) n := by
  cases s <;> rfl

/-- A number that is taken apart is truncated to its integral part. -/
theorem roundToInt_eq_whole (s : Sign) (m : Nat) (e : Int) : roundToInt s m e = whole (isNegative s) m e := by
  have hleft : (e - 0).toNat = e.toNat := by omega
  have hright : (0 - (e - (e.toNat : Int))).toNat = (-e).toNat := by omega
  simp only [roundToInt, decreaseExponent, hleft, shiftToExponent, hright, mantissa_shiftRight, Nat.shiftLeft_eq,
    ExtendedMantissa.ofMantissaAndAccuracy, apply_eq_signed]
  rfl

theorem toInt_of_finite {u : UnpackedFloat} {negative : Bool} {m : Nat} {e : Int}
    (h : ofUnpacked u = .finite negative m e) (low high : Int) : u.toInt low high = whole negative m e := by
  cases u with
  | zero s =>
      cases h
      have hzero : wholeMagnitude 0 (-1074) = 0 := by rw [wholeMagnitude, Nat.zero_mul, Nat.zero_div]
      rw [whole, hzero]
      cases s <;> rfl
  | finite s m e _ =>
      cases h
      exact roundToInt_eq_whole s m e
  | infinity s => cases h
  | notANumber => cases h

section Range

variable {m : Nat} {e : Int} (he : -1074 ≤ e)

include he in
/-- The units of a value and of the number one, as multiples of one number. -/
theorem exists_units_eq : ∃ c, 0 < c ∧ units m e = m * 2 ^ e.toNat * c ∧ one = 2 ^ (-e).toNat * c := by
  refine ⟨2 ^ (1074 - (-e).toNat), Nat.two_pow_pos _, ?_, ?_⟩
  · have hexponent : (e + 1074).toNat = e.toNat + (1074 - (-e).toNat) := by omega
    rw [units, hexponent, Nat.pow_add, Nat.mul_assoc]
  · have hexponent : 1074 = (-e).toNat + (1074 - (-e).toNat) := by omega
    rw [← Nat.pow_add, ← hexponent, one]

include he in
/-- The integral part is no more than the value. -/
theorem wholeMagnitude_mul_one_le : wholeMagnitude m e * one ≤ units m e := by
  rcases exists_units_eq (m := m) he with ⟨c, _, hunits, hone⟩
  rw [hunits, hone, ← Nat.mul_assoc]
  exact Nat.mul_le_mul_right c (Nat.div_mul_le_self _ _)

include he in
/-- The next integer is more than the value. -/
theorem units_lt_wholeMagnitude : units m e < (wholeMagnitude m e + 1) * one := by
  rcases exists_units_eq (m := m) he with ⟨c, hc, hunits, hone⟩
  rw [hunits, hone, ← Nat.mul_assoc]
  apply Nat.mul_lt_mul_of_pos_right _ hc
  rw [Nat.mul_comm (wholeMagnitude m e + 1)]
  exact Nat.lt_mul_div_succ _ (Nat.two_pow_pos _)

end Range

/-- The integral part of a value among the words is a word. -/
theorem whole_of_scaled {negative : Bool} {m : Nat} {e : Int} (he : -1074 ≤ e)
    (hlow : -2 ^ 63 * (one : Int) ≤ signed negative (units m e))
    (hhigh : signed negative (units m e) < 2 ^ 63 * (one : Int)) :
    -2 ^ 63 ≤ whole negative m e ∧ whole negative m e < 2 ^ 63 := by
  have hle : (wholeMagnitude m e * one : Int) ≤ units m e := by exact_mod_cast wholeMagnitude_mul_one_le he
  have hone : (0 : Int) < one := by exact_mod_cast one_pos
  cases negative with
  | false =>
      have hlt : (wholeMagnitude m e : Int) < 2 ^ 63 := lt_of_mul_lt_mul_right (hle.trans_lt hhigh) hone.le
      simp only [whole, signed, Bool.false_eq_true, if_false]
      omega
  | true =>
      have hle' : (wholeMagnitude m e : Int) ≤ 2 ^ 63 := by
        refine le_of_mul_le_mul_right (hle.trans ?_) hone
        simp only [signed, if_true] at hlow
        linarith
      simp only [whole, signed, if_true]
      omega

/-- A floating-point number among the words is truncated to its integral part. -/
theorem toInt_truncateToWord {x : Float} {negative : Bool} {m : Nat} {e : Int}
    (h : ofFloat x = .finite negative m e) (hlow : -2 ^ 63 * (one : Int) ≤ (ofFloat x).scaled)
    (hhigh : (ofFloat x).scaled < 2 ^ 63 * (one : Int)) : (truncateToWord x).toInt = whole negative m e := by
  have he : -1074 ≤ e := exponent_ge h
  rw [h] at hlow hhigh
  rcases whole_of_scaled he hlow hhigh with ⟨hmin, hmax⟩
  rw [ofFloat_eq_ofUnpacked] at h
  have htoInt := toInt_of_finite h Int64.minValue.toInt Int64.maxValue.toInt
  change (Int64.ofIntClamp (x.toModel.unpack.toInt _ _)).toInt = _
  rw [htoInt]
  exact Int64.toInt_ofIntClamp hmin (Int.lt_add_one_iff.1 hmax)

/-! ## Words as floating-point numbers -/

/-- Zeros at the end of a mantissa are shifted out without loss. -/
theorem shiftRight_exact (m k : Nat) :
    ExtendedMantissa.ofMantissaAndAccuracy (m * 2 ^ k) .exact >>> k = .ofMantissaAndAccuracy m .exact := by
  change Nat.repeat ExtendedMantissa.shiftRightOne k _ = _
  induction k generalizing m with
  | zero => rw [Nat.pow_zero, Nat.mul_one]; rfl
  | succ k ih =>
      rw [Nat.repeat, Nat.pow_succ', ← Nat.mul_assoc, ih]
      simp [ExtendedMantissa.shiftRightOne, ExtendedMantissa.ofMantissaAndAccuracy]

theorem targetExponent_eq (e : Int) : Float.Model.Format.binary64.targetExponent e = max (e - 53) (-1074) :=
  rfl

theorem finite_congr (s : Sign) {m m' : Nat} {e e' : Int} (hm : m = m') (he : e = e') (hpos : 0 < m) (hpos' : 0 < m') :
    UnpackedFloat.finite s m e hpos = .finite s m' e' hpos' := by
  subst hm he
  rfl

section Full

variable {m : Nat} (hm : 2 ^ 52 ≤ m) (hm' : m < 2 ^ 53)

include hm hm' in
theorem log2_mul_two_pow (k : Nat) : (m * 2 ^ k).log2 = 52 + k := by
  have hpos : 0 < 2 ^ k := Nat.two_pow_pos k
  rw [Nat.log2_eq_iff (Nat.mul_pos (by omega) hpos).ne']
  constructor
  · rw [Nat.pow_add]
    exact Nat.mul_le_mul_right _ hm
  · rw [Nat.add_right_comm, Nat.pow_add]
    exact Nat.mul_lt_mul_of_pos_right hm' hpos

include hm hm' in
theorem targetExponent_full {e : Int} (he : -1074 ≤ e) (k : Nat) :
    Float.Model.Format.binary64.targetExponent (totalExponent (m * 2 ^ k) (e - k)) = e := by
  rw [targetExponent_eq, totalExponent, log2_mul_two_pow hm hm']
  omega

include hm hm' in
/-- The zeros after a full mantissa are shifted out. -/
theorem shiftToTargetExponent_full {e : Int} (he : -1074 ≤ e) (k : Nat) :
    shiftToTargetExponent .binary64 (m * 2 ^ k) (e - k) .exact = (.ofMantissaAndAccuracy m .exact, e) := by
  have hshift : (e - (e - (k : Int))).toNat = k := by omega
  simp only [shiftToTargetExponent, targetExponent_full hm hm' he, shiftToExponent, hshift, shiftRight_exact,
    Int.sub_add_cancel]

include hm hm' in
/-- A full mantissa with zeros after it is not rounded. -/
theorem roundWithAccuracy_full (s : Sign) {e : Int} (he : -1074 ≤ e) (k : Nat) :
    roundWithAccuracy .binary64 s (m * 2 ^ k) (e - k) .exact = .finite s m e (by omega) := by
  have hkept : shiftToTargetExponent .binary64 m e .exact = (.ofMantissaAndAccuracy m .exact, e) := by
    simpa using shiftToTargetExponent_full hm hm' he 0
  have hpos : m ≠ 0 := by omega
  rw [roundWithAccuracy, shiftToTargetExponent_full hm hm' he]
  change (if h : (shiftToTargetExponent .binary64 m e .exact).1.mantissa = 0 then .zero s
    else UnpackedFloat.finite s _ _ (Nat.pos_of_ne_zero h)) = _
  rw [dif_neg (by rw [hkept]; exact hpos)]
  exact finite_congr s (congrArg (fun shifted => shifted.1.mantissa) hkept) (congrArg Prod.snd hkept) _ _

include hm hm' in
theorem roundWithAccuracy_kept (s : Sign) {e : Int} (he : -1074 ≤ e) :
    roundWithAccuracy .binary64 s m e .exact = .finite s m e (by omega) := by
  have h := roundWithAccuracy_full hm hm' s he 0
  rwa [Nat.pow_zero, Nat.mul_one, Nat.cast_zero, Int.sub_zero] at h

end Full

theorem unpackSign_packed (s : Sign) (exponent : BitVec 11) (mantissa : BitVec 52) :
    unpackSign (packComponents .binary64 s exponent mantissa) = s.toBitVec := by
  change (s.toBitVec ++ exponent ++ mantissa).extractLsb' 63 1 = s.toBitVec
  rw [BitVec.extractLsb'_append_eq_of_le (by decide), BitVec.extractLsb'_append_eq_of_le (by decide)]
  exact BitVec.extractLsb'_eq_self

/-- The bit pattern of a full mantissa. -/
theorem pack_full (s : Sign) {m : Nat} {e : Int} (hm : 2 ^ 52 ≤ m) (hm' : m < 2 ^ 53) (he : -1074 ≤ e)
    (he' : e ≤ 971) (hpos : 0 < m) : pack .binary64 (.finite s m e hpos) =
      packComponents .binary64 s (BitVec.ofNat 11 (e + 1075).toNat) (BitVec.ofNat 52 m) := by
  have hexponent : (e + (1023 : Nat) + (52 : Nat)).toNat = (e + 1075).toNat := by omega
  have hlog : m.log2 + 1 = 53 := by simpa using log2_mul_two_pow hm hm' 0
  change (if 2048 ≤ (e + (1023 : Nat) + (52 : Nat)).toNat + 1 then _ else if m.log2 + 1 = 53 then _ else _) = _
  rw [if_neg (by omega), if_pos hlog]
  exact congrArg (fun b => packComponents .binary64 s (BitVec.ofNat 11 b) (BitVec.ofNat 52 m)) hexponent

/-- A full mantissa is put together without loss. -/
theorem ofUnpacked_unpack_pack (s : Sign) {m : Nat} {e : Int} (hm : 2 ^ 52 ≤ m) (hm' : m < 2 ^ 53) (he : -1074 ≤ e)
    (he' : e ≤ 971) (hpos : 0 < m) :
    ofUnpacked (unpack .binary64 (pack .binary64 (.finite s m e hpos))) = .finite (isNegative s) m e := by
  have hbiased : (BitVec.ofNat 11 (e + 1075).toNat).toNat = (e + 1075).toNat := by
    rw [BitVec.toNat_ofNat, Nat.mod_eq_of_lt (by omega)]
  have hfull : BitVec.ofNat 11 (e + 1075).toNat ≠ -1#11 := by
    intro h
    have hlast : (e + 1075).toNat = 2047 := hbiased.symm.trans (congrArg BitVec.toNat h)
    omega
  have hleast : BitVec.ofNat 11 (e + 1075).toNat ≠ 0#11 := by
    intro h
    have hzero : (e + 1075).toNat = 0 := hbiased.symm.trans (congrArg BitVec.toNat h)
    omega
  have hmantissa : 2 ^ 52 + (BitVec.ofNat 52 m).toNat = m := by
    rw [BitVec.toNat_ofNat]
    omega
  have hexponent : ((e + 1075).toNat : Int) - 1075 = e := by omega
  have hsign : isNegative (.ofBitVec s.toBitVec) = isNegative s := by cases s <;> rfl
  rw [pack_full s hm hm' he he' hpos, ofUnpacked_unpack, unpackExponent_packComponents, unpackMantissa_packComponents,
    unpackSign_packed]
  dsimp only
  rw [if_neg hfull, if_neg hleast, hbiased, hmantissa, hexponent, hsign]

/-- A number of few significant bits is a full mantissa with zeros before or after it. -/
theorem exists_full {n : Nat} (hn : 0 < n) (hfew : ∃ m k, n = m * 2 ^ k ∧ m < 2 ^ 53) :
    ∃ m, 2 ^ 52 ≤ m ∧ m < 2 ^ 53 ∧ ((∃ k ≤ 52, m = n * 2 ^ k) ∨ ∃ k, n = m * 2 ^ k) := by
  have hlog : 2 ^ n.log2 ≤ n := Nat.log2_self_le hn.ne'
  have hlog' : n < 2 ^ (n.log2 + 1) := Nat.lt_log2_self
  generalize n.log2 = l at hlog hlog'
  rcases le_total l 52 with hl | hl
  · refine ⟨n * 2 ^ (52 - l), ?_, ?_, .inl ⟨52 - l, by omega, rfl⟩⟩
    · calc
        2 ^ 52 = 2 ^ l * 2 ^ (52 - l) := by rw [← Nat.pow_add]; congr 1; omega
        _ ≤ n * 2 ^ (52 - l) := Nat.mul_le_mul_right _ hlog
    · calc
        n * 2 ^ (52 - l) < 2 ^ (l + 1) * 2 ^ (52 - l) := Nat.mul_lt_mul_of_pos_right hlog' (Nat.two_pow_pos _)
        _ = 2 ^ 53 := by rw [← Nat.pow_add]; congr 1; omega
  · rcases hfew with ⟨m, k, rfl, hm⟩
    have hk : l - 52 ≤ k := by
      have : 2 ^ l < 2 ^ (53 + k) := by
        rw [Nat.pow_add]
        exact hlog.trans_lt (Nat.mul_lt_mul_of_pos_right hm (Nat.two_pow_pos k))
      have := (Nat.pow_lt_pow_iff_right (by decide)).1 this
      omega
    have hsplit : m * 2 ^ k = m * 2 ^ (k - (l - 52)) * 2 ^ (l - 52) := by
      rw [Nat.mul_assoc, ← Nat.pow_add, Nat.sub_add_cancel hk]
    rw [hsplit] at hlog hlog'
    refine ⟨m * 2 ^ (k - (l - 52)), ?_, ?_, .inr ⟨l - 52, hsplit⟩⟩
    · refine Nat.le_of_mul_le_mul_right (le_trans (le_of_eq ?_) hlog) (Nat.two_pow_pos (l - 52))
      rw [← Nat.pow_add]
      congr 1
      omega
    · refine Nat.lt_of_mul_lt_mul_right (lt_of_lt_of_eq hlog' ?_)
      rw [← Nat.pow_add]
      congr 1
      omega

theorem two_pow_add_mul_one (k : Nat) : 2 ^ (k + 1074) = 2 ^ k * one := by
  rw [one, ← Nat.pow_add]

/-- To round an integer is to add zeros to it first, up to a full mantissa. -/
theorem round_eq (s : Sign) {n k : Nat}
    (h : (0 - Float.Model.Format.binary64.targetExponent (totalExponent n 0)).toNat = k) :
    UnpackedFloat.round .binary64 s n 0 = roundWithAccuracy .binary64 s (n * 2 ^ k) (0 - k) .exact := by
  rw [← Nat.shiftLeft_eq, ← h]
  rfl

/-- An integer that zeros make a full mantissa is not rounded. -/
theorem round_short (s : Sign) {n k : Nat} (hm : 2 ^ 52 ≤ n * 2 ^ k) (hm' : n * 2 ^ k < 2 ^ 53) (hk : k ≤ 52) :
    UnpackedFloat.round .binary64 s n 0 = .finite s (n * 2 ^ k) (-k) (by omega) := by
  have hn : n ≠ 0 := by
    rintro rfl
    rw [Nat.zero_mul] at hm
    exact absurd hm (by decide)
  have hlog : n.log2 = 52 - k := by
    rw [Nat.log2_eq_iff hn]
    constructor
    · refine Nat.le_of_mul_le_mul_right (le_trans (le_of_eq ?_) hm) (Nat.two_pow_pos k)
      rw [← Nat.pow_add, Nat.sub_add_cancel hk]
    · refine Nat.lt_of_mul_lt_mul_right (lt_of_lt_of_eq hm' ?_)
      rw [← Nat.pow_add]
      congr 1
      omega
  have htarget : Float.Model.Format.binary64.targetExponent (totalExponent n 0) = -k := by
    rw [targetExponent_eq, totalExponent, hlog]
    omega
  have hshift : (0 - Float.Model.Format.binary64.targetExponent (totalExponent n 0)).toNat = k := by
    rw [htarget]
    omega
  rw [round_eq s hshift, Int.zero_sub]
  exact roundWithAccuracy_kept hm hm' s (by omega)

/-- A full mantissa with zeros after it is not rounded. -/
theorem round_long (s : Sign) {m : Nat} (hm : 2 ^ 52 ≤ m) (hm' : m < 2 ^ 53) (k : Nat) :
    UnpackedFloat.round .binary64 s (m * 2 ^ k) 0 = .finite s m k (by omega) := by
  have hcancel : (k : Int) - k = 0 := Int.sub_self _
  have htarget := targetExponent_full hm hm' (by omega : -1074 ≤ (k : Int)) k
  have hfull := roundWithAccuracy_full hm hm' s (by omega : -1074 ≤ (k : Int)) k
  rw [hcancel] at htarget hfull
  have hshift : (0 - Float.Model.Format.binary64.targetExponent (totalExponent (m * 2 ^ k) 0)).toNat = 0 := by
    rw [htarget]
    omega
  rw [round_eq s hshift, Nat.pow_zero, Nat.mul_one]
  exact hfull

/-- A number of few significant bits is not rounded. -/
theorem exists_round {n : Nat} (hn : 0 < n) (hlast : n ≤ 2 ^ 63) (hfew : ∃ m k, n = m * 2 ^ k ∧ m < 2 ^ 53)
    (s : Sign) : ∃ m e hpos, UnpackedFloat.round .binary64 s n 0 = .finite s m e hpos ∧ 2 ^ 52 ≤ m ∧ m < 2 ^ 53 ∧
      -1074 ≤ e ∧ e ≤ 971 ∧ units m e = n * one := by
  rcases exists_full hn hfew with ⟨m, hm, hm', ⟨k, hk, rfl⟩ | ⟨k, rfl⟩⟩
  · refine ⟨n * 2 ^ k, -k, by omega, round_short s hm hm' hk, hm, hm', by omega, by omega, ?_⟩
    have hone : 2 ^ k * 2 ^ (-k + 1074 : Int).toNat = one := by
      rw [← Nat.pow_add, one]
      congr 1
      omega
    rw [units, Nat.mul_assoc, hone]
  · have hk : k ≤ 11 := by
      have hpow : 2 ^ (52 + k) ≤ 2 ^ 63 := by
        rw [Nat.pow_add]
        exact (Nat.mul_le_mul_right _ hm).trans hlast
      have hexponents := (Nat.pow_le_pow_iff_right (by decide)).1 hpow
      omega
    refine ⟨m, k, by omega, round_long s hm hm' k, hm, hm', by omega, by omega, ?_⟩
    have hexponent : (k + 1074 : Int).toNat = k + 1074 := by omega
    rw [units, hexponent, two_pow_add_mul_one, Nat.mul_assoc]

/-- A number of few significant bits and a sign are put together without loss. -/
theorem exists_unpack_pack_round {n : Nat} (hn : 0 < n) (hlast : n ≤ 2 ^ 63)
    (hfew : ∃ m k, n = m * 2 ^ k ∧ m < 2 ^ 53) (s : Sign) :
    ∃ m e, ofUnpacked (unpack .binary64 (pack .binary64 (UnpackedFloat.round .binary64 s n 0))) =
      .finite (isNegative s) m e ∧ units m e = n * one := by
  rcases exists_round hn hlast hfew s with ⟨m, e, hpos, hround, hm, hm', he, he', hunits⟩
  refine ⟨m, e, ?_, hunits⟩
  rw [hround, ofUnpacked_unpack_pack s hm hm' he he' hpos]

/-- A word of few significant bits is cast without rounding. -/
theorem ofFloat_nearestFloat {n : Int64} (hfew : ∃ m k, n.toInt.natAbs = m * 2 ^ k ∧ m < 2 ^ 53) :
    ∃ negative m e, ofFloat (nearestFloat n) = .finite negative m e ∧ signed negative (units m e) = n.toInt * one := by
  have hcast : ofFloat (nearestFloat n) =
      ofUnpacked (unpack .binary64 (pack .binary64 (UnpackedFloat.normalize .binary64 n.toInt 0 .positive))) :=
    ofFloat_eq_ofUnpacked _
  have hlow := n.le_toInt
  have hhigh := n.toInt_lt
  have habs : (n.toInt.natAbs : Int) = |n.toInt| := Int.natCast_natAbs n.toInt
  rw [hcast]
  unfold UnpackedFloat.normalize
  rcases lt_trichotomy n.toInt 0 with hneg | hzero | hpos
  · have hmagnitude : (-n.toInt).toNat = n.toInt.natAbs := by omega
    rcases exists_unpack_pack_round (by omega) (by omega) hfew .negative with ⟨m, e, hreading, hunits⟩
    rw [compare_lt_iff_lt.2 hneg]
    dsimp only
    rw [hmagnitude]
    refine ⟨_, m, e, hreading, ?_⟩
    rw [hunits, isNegative, signed, if_pos rfl, Nat.cast_mul, habs, abs_of_neg hneg]
    ring
  · refine ⟨false, 0, -1074, ?_, ?_⟩
    · rw [compare_eq_iff_eq.2 hzero]
      have hreading : ofUnpacked (unpack .binary64 (pack .binary64 (.zero .positive))) = .finite false 0 (-1074) := by
        decide +kernel
      exact hreading
    · rw [units, hzero, Nat.zero_mul, Int.zero_mul]
      rfl
  · have hmagnitude : n.toInt.toNat = n.toInt.natAbs := by omega
    rcases exists_unpack_pack_round (by omega) (by omega) hfew .positive with ⟨m, e, hreading, hunits⟩
    rw [compare_gt_iff_gt.2 hpos]
    dsimp only
    rw [hmagnitude]
    refine ⟨_, m, e, hreading, ?_⟩
    rw [hunits, isNegative, signed, if_neg Bool.false_ne_true, Nat.cast_mul, habs, abs_of_pos hpos]

/-- The integral part of a floating-point number has few significant bits. -/
theorem wholeMagnitude_few {m : Nat} {e : Int} (hm : m < 2 ^ 53) :
    ∃ m' k, wholeMagnitude m e = m' * 2 ^ k ∧ m' < 2 ^ 53 := by
  rcases le_total 0 e with he | he
  · have hzero : (-e).toNat = 0 := by omega
    refine ⟨m, e.toNat, ?_, hm⟩
    rw [wholeMagnitude, hzero]
    exact Nat.div_one _
  · have hzero : e.toNat = 0 := by omega
    refine ⟨wholeMagnitude m e, 0, (Nat.mul_one _).symm, ?_⟩
    rw [wholeMagnitude, hzero]
    exact (Nat.div_le_self _ _).trans_lt (by simpa using hm)

/-! ## Comparison -/

theorem isNaN_iff (x : Float) : x.isNaN = true ↔ ofFloat x = .nan := by
  rw [ofFloat_eq_ofUnpacked]
  change x.toModel.unpack.isNaN = true ↔ _
  cases x.toModel.unpack with
  | notANumber => exact iff_of_true rfl rfl
  | zero | infinity | finite => exact iff_of_false Bool.false_ne_true nofun

theorem ofFloat_wordLimit : ofFloat wordLimit = .finite false (2 ^ 52) 11 := by
  decide +kernel

theorem ofFloat_neg_wordLimit : ofFloat (-wordLimit) = .finite true (2 ^ 52) 11 := by
  decide +kernel

theorem units_wordLimit : (units (2 ^ 52) 11 : Int) = 2 ^ 63 * one := by
  have hexponent : ((11 : Int) + 1074).toNat = 11 + 1074 := rfl
  have hunits : units (2 ^ 52) 11 = 2 ^ 63 * one := by
    rw [units, hexponent, two_pow_add_mul_one, ← Nat.mul_assoc]
    rfl
  exact_mod_cast hunits

/-- A floating-point number is no number, or above all words, or below all words, or among them. -/
theorem beyondWords?_cases (x : Float) :
    (beyondWords? x = some .lt ∧ 2 ^ 63 * (one : Int) ≤ (ofFloat x).scaled) ∨
      (beyondWords? x = some .gt ∧ (ofFloat x).scaled < -2 ^ 63 * (one : Int)) ∨
      (beyondWords? x = none ∧ ofFloat x ≠ .nan ∧ -2 ^ 63 * (one : Int) ≤ (ofFloat x).scaled ∧
        (ofFloat x).scaled < 2 ^ 63 * (one : Int)) := by
  unfold beyondWords?
  by_cases hnan : ofFloat x = .nan
  · have hrange : (2 : Int) ^ 63 * one < infinity := by exact_mod_cast word_lt_infinity
    rw [(isNaN_iff x).2 hnan, hnan]
    exact .inl ⟨rfl, hrange.le.trans (le_of_lt (lt_add_one _))⟩
  · have hlimit : wordLimit ≤ x ↔ 2 ^ 63 * (one : Int) ≤ (ofFloat x).scaled := by
      rw [le_iff_scaled (by rw [ofFloat_wordLimit]; exact nofun) hnan, ofFloat_wordLimit, ← units_wordLimit]
      rfl
    have hlimit' : x < -wordLimit ↔ (ofFloat x).scaled < -2 ^ 63 * (one : Int) := by
      rw [lt_iff_scaled hnan (by rw [ofFloat_neg_wordLimit]; exact nofun), ofFloat_neg_wordLimit, neg_mul,
        ← units_wordLimit]
      rfl
    rw [Bool.eq_false_iff.2 (mt (isNaN_iff x).1 hnan), Bool.false_or]
    simp only [decide_eq_true_eq, hlimit, hlimit']
    split
    · exact .inl ⟨rfl, ‹_›⟩
    · split
      · exact .inr (.inl ⟨rfl, ‹_›⟩)
      · exact .inr (.inr ⟨rfl, hnan, not_lt.1 ‹_›, not_le.1 ‹_›⟩)

/-- A floating-point number among the words is truncated to its integral part, and the cast back gives this part. -/
theorem cast_spec {x : Float} (h : beyondWords? x = none) :
    ∃ negative m e, ofFloat x = .finite negative m e ∧ (truncateToWord x).toInt = whole negative m e ∧
      ∃ negative' m' e', ofFloat (nearestFloat (truncateToWord x)) = .finite negative' m' e' ∧
        signed negative' (units m' e') = whole negative m e * one := by
  rcases beyondWords?_cases x with ⟨h', _⟩ | ⟨h', _⟩ | ⟨_, hnan, hlow, hhigh⟩
  · cases h.symm.trans h'
  · cases h.symm.trans h'
  · cases hx : ofFloat x with
    | nan => exact absurd hx hnan
    | infinite negative =>
        have hrange : (2 : Int) ^ 63 * one < infinity := by exact_mod_cast word_lt_infinity
        rw [hx] at hlow hhigh
        cases negative
        · exact absurd hhigh (not_lt.2 hrange.le)
        · exact absurd hlow (not_le.2 (by simp only [scaled, signed, if_true]; linarith))
    | finite negative m e =>
        have hcanonical : IsCanonical m e := by
          have hwf : (ofFloat x).IsWellFormed := isWellFormed_ofBits _
          rwa [hx] at hwf
        have htruncated := toInt_truncateToWord hx hlow hhigh
        have hmagnitude : (truncateToWord x).toInt.natAbs = wholeMagnitude m e := by
          rw [htruncated, whole]
          cases negative
          · exact Int.natAbs_natCast _
          · exact (Int.natAbs_neg _).trans (Int.natAbs_natCast _)
        have hfew := wholeMagnitude_few (e := e) hcanonical.1
        rw [← hmagnitude] at hfew
        rcases ofFloat_nearestFloat hfew with ⟨negative', m', e', hcast, hvalue⟩
        rw [htruncated] at hvalue
        exact ⟨negative, m, e, rfl, htruncated, negative', m', e', hcast, hvalue⟩

end Reading

/-- Floating-point comparison, as an order of exact values. -/
theorem ite_lt_eq_compare {x y : Float} (hx : Reading.ofFloat x ≠ .nan) (hy : Reading.ofFloat y ≠ .nan) :
    (if x < y then Ordering.lt else if y < x then .gt else .eq) =
      compare (Reading.ofFloat x).scaled (Reading.ofFloat y).scaled := by
  simp only [Reading.lt_iff_scaled hx hy, Reading.lt_iff_scaled hy hx, Int.compare_eq_ite_lt]

/-- A word and a floating-point number are compared by their exact values. -/
theorem compareWordFloat_eq (n : Int64) (x : Float) : compareWordFloat n x = compareIntFloat n.toInt x := by
  have hone : (0 : Int) < Reading.one := by exact_mod_cast Reading.one_pos
  have hexact := compareIntFloat_eq n.le_toInt n.toInt_lt x
  rcases Reading.beyondWords?_cases x with ⟨h, habove⟩ | ⟨h, hbelow⟩ | ⟨h, hnan, hlow, hhigh⟩
  · have hlt : n.toInt * Reading.one < (Reading.ofFloat x).scaled :=
      (mul_lt_mul_of_pos_right n.toInt_lt hone).trans_le habove
    rw [hexact, compare_lt_iff_lt.2 hlt, compareWordFloat, h]
  · have hlt : (Reading.ofFloat x).scaled < n.toInt * Reading.one :=
      hbelow.trans_le (mul_le_mul_of_nonneg_right n.le_toInt hone.le)
    rw [hexact, compare_gt_iff_gt.2 hlt, compareWordFloat, h]
  · rcases Reading.cast_spec h with ⟨negative, m, e, hx, htruncated, negative', m', e', hcast, hvalue⟩
    rw [hx] at hlow hhigh
    have hrange := Reading.whole_of_scaled (Reading.exponent_ge hx) hlow hhigh
    -- the part after the point decides just as the truncated number compares with the number itself
    have hbeyond : Reading.beyondWhole negative m e =
        compare (Reading.whole negative m e * Reading.one) (Reading.ofFloat x).scaled := by
      rw [← compareIntFloat_eq hrange.1 hrange.2, compareIntFloat, hx]
      dsimp only
      rw [compare_eq_iff_eq.2 rfl]
      rfl
    have hwhole : (Reading.ofFloat (nearestFloat (truncateToWord x))).scaled =
        Reading.whole negative m e * Reading.one := by rw [hcast]; exact hvalue
    rw [compareWordFloat, h, compareIntFloat, hx]
    dsimp only
    rw [htruncated, ite_lt_eq_compare (by rw [hcast]; exact nofun) hnan, hwhole, hbeyond]

end WorksetIteration
