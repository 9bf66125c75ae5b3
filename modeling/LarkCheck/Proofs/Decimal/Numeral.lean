import LarkCheck.Proofs.Decimal.ReadsBack
import LarkCheck.Proofs.Token.Spelling

/-!
# Numerals

The text of a finite real is a numeral: digits, a fraction after a point, a power of ten
after an `e`, and a sign in front. Every part can be told from the text, so the text
gives the decimal, and this is near to one real only. A numeral has a point or an `e`,
which the text of an integer has not.
-/

namespace LarkCheck

open Token

/-- A run ends where something comes that cannot go on with it. -/
theorem append_inj_of_stops {α : Type} {p : α → Bool} {run run' rest rest' : List α}
    (hrun : ∀ a ∈ run, p a = true) (hrun' : ∀ a ∈ run', p a = true)
    (hrest : ∀ a ∈ rest.head?, p a = false) (hrest' : ∀ a ∈ rest'.head?, p a = false)
    (h : run ++ rest = run' ++ rest') : run = run' ∧ rest = rest' := by
  have htake : ∀ {run rest : List α}, (∀ a ∈ run, p a = true) →
      (∀ a ∈ rest.head?, p a = false) → (run ++ rest).takeWhile p = run := by
    intro run rest hrun hrest
    rw [List.takeWhile_append_of_pos hrun]
    cases rest with
    | nil => simp
    | cons a rest => simp [hrest a rfl]
  have heq : run = run' := by
    rw [← htake hrun hrest, h, htake hrun' hrest']
  subst heq
  exact ⟨rfl, List.append_cancel_left h⟩

theorem decimalValue_append (digits more : List Char) :
    decimalValue (digits ++ more) = decimalValue digits * 10 ^ more.length + decimalValue more := by
  have hfrom : ∀ value, more.foldl (fun value d => value * 10 + digitValue d) value =
      value * 10 ^ more.length + decimalValue more := by
    unfold decimalValue
    induction more with
    | nil => simp
    | cons d more ih =>
      intro value
      rw [List.foldl_cons, ih, List.foldl_cons, ih (0 * 10 + digitValue d), List.length_cons]
      ring
  rw [decimalValue, List.foldl_append]
  exact hfrom _

@[simp] theorem decimalValue_zeros (count : Nat) : decimalValue (List.replicate count '0') = 0 := by
  induction count with
  | zero => rfl
  | succ count ih =>
    rw [List.replicate_succ', decimalValue_append, ih]
    rfl

theorem isDigit_of_mem_zeros {count : Nat} {c : Char} (h : c ∈ List.replicate count '0') :
    isDigit c = true := by
  rw [List.eq_of_mem_replicate h]
  rfl

theorem toList_toString_int (n : Int) :
    (toString n).toList = (if n < 0 then ['-'] else []) ++ Nat.toDigits 10 n.natAbs := by
  cases n with
  | ofNat n =>
    have hn : ¬ Int.ofNat n < 0 := Int.not_lt.2 (Int.natCast_nonneg n)
    rw [if_neg hn]
    exact String.toList_ofList
  | negSucc n =>
    rw [if_pos (Int.negSucc_lt_zero n)]
    change ("-" ++ (n + 1).repr).toList = _
    simp only [String.toList_append, Nat.repr_eq_ofList_toDigits, String.toList_ofList]
    rfl

theorem toDigits_injective {m n : Nat} (h : Nat.toDigits 10 m = Nat.toDigits 10 n) : m = n := by
  rw [← decimalValue_toDigits m, h, decimalValue_toDigits]

theorem minus_notMem_toDigits (n : Nat) : '-' ∉ Nat.toDigits 10 n := fun h =>
  absurd (isDigit_of_mem_toDigits h) (by decide)

theorem toString_int_injective {m n : Int} (h : toString m = toString n) : m = n := by
  have hchars := congrArg String.toList h
  rw [toList_toString_int, toList_toString_int] at hchars
  have hminus : ∀ {k l : Int}, '-' :: Nat.toDigits 10 k.natAbs = Nat.toDigits 10 l.natAbs →
      False := fun h => minus_notMem_toDigits _ (h ▸ List.mem_cons_self)
  split at hchars <;> split at hchars
  · have habs := toDigits_injective (List.cons.inj hchars).2
    omega
  · exact (hminus hchars).elim
  · exact (hminus hchars.symm).elim
  · have habs := toDigits_injective hchars
    omega

/-- The parts of the text of a positive number. -/
structure Numeral where
  whole : List Char
  fraction : List Char
  power : Option Int

namespace Numeral

def fractionChars (n : Numeral) : List Char :=
  if n.fraction.isEmpty then [] else '.' :: n.fraction

def powerChars (n : Numeral) : List Char :=
  n.power.elim [] fun power => 'e' :: (toString power).toList

def chars (n : Numeral) : List Char :=
  n.whole ++ (n.fractionChars ++ n.powerChars)

def value (n : Numeral) : ℚ :=
  decimalValue (n.whole ++ n.fraction) * 10 ^ (n.power.getD 0 - n.fraction.length)

/-- There are digits in front, and a fraction or a power. -/
structure Proper (n : Numeral) : Prop where
  whole_ne : n.whole ≠ []
  isDigit_whole : ∀ c ∈ n.whole, isDigit c = true
  isDigit_fraction : ∀ c ∈ n.fraction, isDigit c = true
  marked : n.fraction ≠ [] ∨ n.power ≠ none

theorem stops_powerChars (n : Numeral) : ∀ c ∈ n.powerChars.head?, isDigit c = false := by
  unfold powerChars
  cases n.power with
  | none => simp
  | some power => simp; decide

theorem stops_fractionChars (n : Numeral) :
    ∀ c ∈ (n.fractionChars ++ n.powerChars).head?, isDigit c = false := by
  unfold fractionChars
  split
  · exact n.stops_powerChars
  · simp; decide

/-- The parts of a numeral are told by its characters. -/
theorem Proper.eq_of_chars {m n : Numeral} (hm : m.Proper) (hn : n.Proper)
    (h : m.chars = n.chars) : m = n := by
  obtain ⟨hwhole, htail⟩ := append_inj_of_stops hm.isDigit_whole hn.isDigit_whole
    m.stops_fractionChars n.stops_fractionChars h
  have hparts : m.fraction = n.fraction ∧ m.powerChars = n.powerChars := by
    have hpoint : ∀ {m n : Numeral}, '.' :: m.fraction ++ m.powerChars ≠ n.powerChars := by
      intro m n h
      unfold powerChars at h
      cases hpower : n.power <;> simp [hpower] at h
    unfold fractionChars at htail
    split at htail <;> split at htail
    · rename_i hem hen
      rw [List.isEmpty_iff.1 hem, List.isEmpty_iff.1 hen]
      exact ⟨rfl, htail⟩
    · exact absurd htail.symm hpoint
    · exact absurd htail hpoint
    · exact append_inj_of_stops hm.isDigit_fraction hn.isDigit_fraction m.stops_powerChars
        n.stops_powerChars (List.cons.inj htail).2
  have hpower : m.power = n.power := by
    have hchars := hparts.2
    unfold powerChars at hchars
    cases hm : m.power with
    | none =>
      cases hn : n.power with
      | none => rfl
      | some power => simp [hm, hn] at hchars
    | some power =>
      cases hn : n.power with
      | none => simp [hm, hn] at hchars
      | some power' =>
        simp only [hm, hn, Option.elim_some, List.cons.injEq, true_and] at hchars
        exact congrArg some (toString_int_injective (String.toList_inj.1 hchars))
  obtain ⟨whole, fraction, power⟩ := m
  obtain ⟨whole', fraction', power'⟩ := n
  simp only at hwhole hparts hpower
  rw [hwhole, hparts.1, hpower]

theorem Proper.exists_first {n : Numeral} (h : n.Proper) :
    ∃ first rest, n.chars = first :: rest ∧ isDigit first = true := by
  obtain ⟨first, rest, hwhole⟩ := List.exists_cons_of_ne_nil h.whole_ne
  refine ⟨first, rest ++ (n.fractionChars ++ n.powerChars), by rw [chars, hwhole]; rfl, ?_⟩
  exact h.isDigit_whole first (by rw [hwhole]; exact List.mem_cons_self)

theorem mem_powerChars {n : Numeral} {c : Char} (hc : c ∈ n.powerChars) :
    isDigit c = true ∨ c ∈ ['.', '-', 'e'] := by
  unfold powerChars at hc
  cases hpower : n.power with
  | none =>
    rw [hpower] at hc
    cases hc
  | some power =>
    rw [hpower] at hc
    rcases List.mem_cons.1 hc with rfl | hc
    · exact .inr (by decide)
    · rw [toList_toString_int] at hc
      rcases List.mem_append.1 hc with hc | hc
      · split at hc
        · rw [List.mem_singleton.1 hc]
          exact .inr (by decide)
        · cases hc
      · exact .inl (isDigit_of_mem_toDigits hc)

/-- A numeral has no other characters than digits, points, minus signs and `e`. -/
theorem Proper.mem_chars {n : Numeral} (h : n.Proper) {c : Char} (hc : c ∈ n.chars) :
    isDigit c = true ∨ c ∈ ['.', '-', 'e'] := by
  simp only [chars, List.mem_append] at hc
  rcases hc with hc | hc | hc
  · exact .inl (h.isDigit_whole c hc)
  · unfold fractionChars at hc
    split at hc
    · cases hc
    · rcases List.mem_cons.1 hc with rfl | hc
      · exact .inr (by decide)
      · exact .inl (h.isDigit_fraction c hc)
  · exact mem_powerChars hc

theorem Proper.marked_chars {n : Numeral} (h : n.Proper) : '.' ∈ n.chars ∨ 'e' ∈ n.chars := by
  simp only [chars, List.mem_append]
  rcases h.marked with hfraction | hpower
  · refine .inl (.inr (.inl ?_))
    rw [fractionChars, if_neg (by simpa using hfraction)]
    exact List.mem_cons_self
  · obtain ⟨power, hpower⟩ := Option.ne_none_iff_exists'.1 hpower
    refine .inr (.inr (.inr ?_))
    rw [powerChars, hpower]
    exact List.mem_cons_self

section Point

variable {digits : List Char}

/-- The point stands in front of all digits. -/
theorem exists_below (hne : digits ≠ []) (hdigits : ∀ c ∈ digits, isDigit c = true)
    (count : Nat) : ∃ n : Numeral, n.Proper ∧
      n.chars = '0' :: '.' :: (List.replicate count '0' ++ digits) ∧
      n.value = decimalValue digits * 10 ^ (-(count + digits.length : Int)) := by
  refine ⟨⟨['0'], List.replicate count '0' ++ digits, none⟩,
    ⟨nofun, ?_, fun c hc => ?_, .inl (by simp [hne])⟩, ?_, ?_⟩
  · simp; rfl
  · exact (List.mem_append.1 hc).elim isDigit_of_mem_zeros (hdigits c)
  · simp [chars, fractionChars, powerChars, hne]
  · have hvalue : decimalValue (['0'] ++ (List.replicate count '0' ++ digits)) =
        decimalValue digits := by
      rw [decimalValue_append, decimalValue_append, decimalValue_zeros, Nat.zero_mul, Nat.zero_add]
      exact Nat.add_eq_right.2 (Nat.zero_mul _)
    simp only [value, hvalue, Option.getD_none, List.length_append, List.length_replicate]
    congr 2
    omega

/-- The point stands between two digits. -/
theorem exists_inside (hdigits : ∀ c ∈ digits, isDigit c = true) {point : Nat}
    (hpos : point ≠ 0) (hlt : point < digits.length) : ∃ n : Numeral, n.Proper ∧
      n.chars = digits.take point ++ '.' :: digits.drop point ∧
      n.value = decimalValue digits * 10 ^ (point - digits.length : Int) := by
  have hne : digits ≠ [] := List.ne_nil_of_length_pos (Nat.zero_lt_of_lt hlt)
  refine ⟨⟨digits.take point, digits.drop point, none⟩, ⟨?_, ?_, ?_, .inl ?_⟩, ?_, ?_⟩
  · simp [hne, hpos]
  · exact fun c hc => hdigits c (List.mem_of_mem_take hc)
  · exact fun c hc => hdigits c (List.mem_of_mem_drop hc)
  · simpa using hlt
  · have hrest : (digits.drop point).isEmpty = false := by simpa using hlt
    simp [chars, fractionChars, powerChars, hrest]
  · simp only [value, List.take_append_drop, Option.getD_none, List.length_drop]
    congr 2
    omega

/-- The point stands after all digits. -/
theorem exists_above (hne : digits ≠ []) (hdigits : ∀ c ∈ digits, isDigit c = true)
    (count : Nat) : ∃ n : Numeral, n.Proper ∧
      n.chars = digits ++ (List.replicate count '0' ++ ['.', '0']) ∧
      n.value = decimalValue digits * 10 ^ (count : Int) := by
  refine ⟨⟨digits ++ List.replicate count '0', ['0'], none⟩,
    ⟨by simp [hne], fun c hc => ?_, ?_, .inl nofun⟩, ?_, ?_⟩
  · exact (List.mem_append.1 hc).elim (hdigits c) isDigit_of_mem_zeros
  · simp; rfl
  · simp [chars, fractionChars, powerChars]
  · have hvalue : decimalValue (digits ++ List.replicate count '0' ++ ['0']) =
        decimalValue digits * 10 ^ count * 10 := by
      rw [decimalValue_append, decimalValue_append, decimalValue_zeros, Nat.add_zero,
        List.length_replicate]
      rfl
    simp only [value, hvalue, Option.getD_none, List.length_singleton]
    push_cast
    rw [zpow_natCast, mul_assoc, mul_assoc]
    norm_num

end Point

end Numeral

namespace Double

variable {x y : Double}

theorem exponentField_eq (x : Double) : x.exponentField = x.bits.toNat / 2 ^ 52 % 2 ^ 11 := by
  unfold exponentField
  rw [UInt64.toNat_and, UInt64.toNat_shiftRight, Nat.shiftRight_eq_div_pow]
  exact Nat.and_two_pow_sub_one_eq_mod _ 11

theorem fractionField_eq (x : Double) : x.fractionField = x.bits.toNat % 2 ^ 52 := by
  unfold fractionField
  rw [UInt64.toNat_and]
  exact Nat.and_two_pow_sub_one_eq_mod _ 52

theorem isNegative_iff (x : Double) : x.isNegative = true ↔ x.bits.toNat / 2 ^ 63 = 1 := by
  unfold isNegative
  rw [beq_iff_eq, ← UInt64.toNat_inj, UInt64.toNat_shiftRight, Nat.shiftRight_eq_div_pow]
  rfl

/-- A real is its sign, its exponent and its fraction. -/
theorem eq_of_fields (hsign : x.isNegative = y.isNegative)
    (hexponent : x.exponentField = y.exponentField)
    (hfraction : x.fractionField = y.fractionField) : x = y := by
  rw [Bool.eq_iff_iff, isNegative_iff, isNegative_iff] at hsign
  rw [exponentField_eq, exponentField_eq] at hexponent
  rw [fractionField_eq, fractionField_eq] at hfraction
  have hx := x.bits.toNat_lt
  have hy := y.bits.toNat_lt
  have hbits : x.bits.toNat = y.bits.toNat := by omega
  cases x
  cases y
  exact congrArg Double.mk (UInt64.toNat_inj.1 hbits)

theorem exponentField_lt (h : x.isFinite = true) : x.exponentField < 0x7ff := by
  have hne : x.exponentField ≠ 0x7ff := by simpa [isFinite] using h
  have heq := x.exponentField_eq
  omega

theorem fractionField_lt (x : Double) : x.fractionField < 2 ^ 52 := by
  have heq := x.fractionField_eq
  omega

/-- A finite real other than zero has one of the numbers that 64 bits can hold. -/
theorem regular_magnitude (h : x.isFinite = true) (hzero : x.isZero = false) :
    x.magnitude.Regular := by
  have hexponent := exponentField_lt h
  have hfraction := x.fractionField_lt
  unfold magnitude
  split
  · rename_i hleast
    have hpos : x.fractionField ≠ 0 := by simpa [isZero, hleast] using hzero
    constructor <;> simp only <;> first | omega | simp
  · constructor <;> simp only [Bool.and_eq_true, beq_iff_eq, bne_iff_ne] <;> omega

theorem fields_of_magnitude_eq (h : x.magnitude = y.magnitude) :
    x.exponentField = y.exponentField ∧ x.fractionField = y.fractionField := by
  have hx := x.fractionField_lt
  have hy := y.fractionField_lt
  unfold magnitude at h
  split at h <;> split at h <;> simp only [Decimal.Binary.mk.injEq] at h <;> omega

theorem exists_numeral_plainText {digits : List Char} (hne : digits ≠ [])
    (hdigits : ∀ c ∈ digits, isDigit c = true) (exponent : Int) :
    ∃ n : Numeral, n.Proper ∧ (plainText digits exponent).toList = n.chars ∧
      n.value = decimalValue digits * 10 ^ exponent := by
  have hlength : 0 < digits.length := List.length_pos_of_ne_nil hne
  unfold plainText
  dsimp only
  split
  · rename_i hpoint
    obtain ⟨n, hn, hchars, hvalue⟩ :=
      Numeral.exists_below hne hdigits (-(exponent + digits.length)).toNat
    refine ⟨n, hn, by rw [hchars]; simp, ?_⟩
    rw [hvalue]
    congr 2
    omega
  · rename_i hpoint
    obtain ⟨point, hp⟩ := Int.eq_ofNat_of_zero_le (by omega : 0 ≤ exponent + digits.length)
    rw [hp, Int.toNat_natCast]
    rcases Nat.lt_or_ge point digits.length with hlt | hge
    · obtain ⟨n, hn, hchars, hvalue⟩ := Numeral.exists_inside hdigits (by omega) hlt
      have hrest : (digits.drop point).isEmpty = false := by simpa using hlt
      refine ⟨n, hn, by rw [hchars]; simp [hrest, hlt.le], ?_⟩
      rw [hvalue]
      congr 2
      omega
    · obtain ⟨n, hn, hchars, hvalue⟩ :=
        Numeral.exists_above hne hdigits (point - digits.length)
      have htake : digits.take point = digits := List.take_of_length_le hge
      have hdrop : digits.drop point = [] := List.drop_of_length_le hge
      refine ⟨n, hn, by rw [hchars, htake, hdrop]; simp, ?_⟩
      rw [hvalue]
      congr 2
      omega

theorem exists_numeral_scientificText {digits : List Char} (hne : digits ≠ [])
    (hdigits : ∀ c ∈ digits, isDigit c = true) (exponent : Int) :
    ∃ n : Numeral, n.Proper ∧ (scientificText digits exponent).toList = n.chars ∧
      n.value = decimalValue digits * 10 ^ exponent := by
  have hlength : 0 < digits.length := List.length_pos_of_ne_nil hne
  refine ⟨⟨digits.take 1, digits.drop 1, some (exponent + digits.length - 1)⟩,
    ⟨?_, ?_, ?_, .inr (by simp)⟩, ?_, ?_⟩
  · simp [hne]
  · exact fun c hc => hdigits c (List.mem_of_mem_take hc)
  · exact fun c hc => hdigits c (List.mem_of_mem_drop hc)
  · unfold scientificText
    dsimp only
    simp only [Numeral.chars, Numeral.fractionChars, Numeral.powerChars]
    split <;> simp
  · simp only [Numeral.value, List.take_append_drop, Option.getD_some, List.length_drop]
    congr 2
    omega

/-- The numeral of a magnitude is that of its shortest decimal, which is positive unless the real is
zero. -/
theorem exists_numeral_magnitudeText (h : x.isFinite = true) :
    ∃ n : Numeral, n.Proper ∧ x.magnitudeText.toList = n.chars ∧
      (x.isZero = true → n.value = 0) ∧
      (x.isZero = false → 0 < n.value ∧ x.magnitude.Near n.value) := by
  unfold magnitudeText
  dsimp only
  split
  · rename_i hzero
    refine ⟨⟨['0'], ['0'], none⟩, ⟨nofun, ?_, ?_, .inl nofun⟩, rfl, fun _ => ?_, fun hne => ?_⟩
    · simp; rfl
    · simp; rfl
    · simp [Numeral.value, decimalValue, digitValue]
    · rw [hzero] at hne
      cases hne
  · rename_i hzero
    have hregular := regular_magnitude h (Bool.eq_false_iff.2 hzero)
    have hnear := hregular.near_shortest
    have hpos : 0 < x.magnitude.shortest.value := by
      have hlow : 0 < x.magnitude.low := by
        have hmantissa := hregular.mantissa_pos
        unfold Decimal.Binary.low
        split <;> omega
      exact lt_of_lt_of_le (by positivity) hnear.low_le
    have shortest : ∀ {text : String},
        (∃ n : Numeral, n.Proper ∧ text.toList = n.chars ∧
          n.value = decimalValue (Nat.toDigits 10 x.magnitude.shortest.digits) *
            10 ^ x.magnitude.shortest.exponent) →
        ∃ n : Numeral, n.Proper ∧ text.toList = n.chars ∧ (x.isZero = true → n.value = 0) ∧
          (x.isZero = false → 0 < n.value ∧ x.magnitude.Near n.value) := by
      rintro text ⟨n, hn, hchars, hvalue⟩
      rw [decimalValue_toDigits] at hvalue
      exact ⟨n, hn, hchars, fun hz => absurd hz hzero, fun _ => hvalue ▸ ⟨hpos, hnear⟩⟩
    split
    · exact shortest
        (exists_numeral_plainText Nat.toDigits_ne_nil (fun _ => isDigit_of_mem_toDigits) _)
    · exact shortest
        (exists_numeral_scientificText Nat.toDigits_ne_nil (fun _ => isDigit_of_mem_toDigits) _)

/-- Reals whose magnitudes have one text differ in their signs at most. -/
theorem fields_of_magnitudeText_eq (hx : x.isFinite = true) (hy : y.isFinite = true)
    (h : x.magnitudeText = y.magnitudeText) :
    x.exponentField = y.exponentField ∧ x.fractionField = y.fractionField := by
  obtain ⟨m, hm, hxchars, hxzero, hxnear⟩ := exists_numeral_magnitudeText hx
  obtain ⟨n, hn, hychars, hyzero, hynear⟩ := exists_numeral_magnitudeText hy
  obtain rfl : m = n := hm.eq_of_chars hn (by rw [← hxchars, h, hychars])
  cases hzx : x.isZero with
  | true =>
    cases hzy : y.isZero with
    | true =>
      simp only [isZero, Bool.and_eq_true, beq_iff_eq] at hzx hzy
      omega
    | false => exact absurd (hxzero hzx) (hynear hzy).1.ne'
  | false =>
    cases hzy : y.isZero with
    | true => exact absurd (hyzero hzy) (hxnear hzx).1.ne'
    | false =>
      exact fields_of_magnitude_eq ((regular_magnitude hx hzx).eq_of_near
        (regular_magnitude hy hzy) (hxnear hzx).2 (hynear hzy).2)

theorem text_of_isFinite (h : x.isFinite = true) :
    x.text = (if x.isNegative then "-" else "") ++ x.magnitudeText := by
  have hne := (exponentField_lt h).ne
  have hnan : x.isNaN = false := by simp [isNaN, hne]
  have hinfinite : x.isInfinite = false := by simp [isInfinite, hne]
  simp [text, hnan, hinfinite]

theorem toList_text (h : x.isFinite = true) :
    ∃ n : Numeral, n.Proper ∧ x.magnitudeText.toList = n.chars ∧
      x.text.toList = (if x.isNegative then ['-'] else []) ++ n.chars := by
  obtain ⟨n, hn, hchars, -⟩ := exists_numeral_magnitudeText h
  refine ⟨n, hn, hchars, ?_⟩
  rw [text_of_isFinite h, String.toList_append, hchars]
  split <;> rfl

/-- The text of a finite real begins with a digit or a minus sign, has no other characters than
those of a numeral, and has a point or an `e`. -/
theorem text_shape (h : x.isFinite = true) :
    (∃ first rest, x.text.toList = first :: rest ∧ (isDigit first = true ∨ first = '-')) ∧
      (∀ c ∈ x.text.toList, isDigit c = true ∨ c ∈ ['.', '-', 'e']) ∧
      ('.' ∈ x.text.toList ∨ 'e' ∈ x.text.toList) := by
  obtain ⟨n, hn, -, htext⟩ := toList_text h
  rw [htext]
  refine ⟨?_, fun c hc => ?_,
    hn.marked_chars.imp (List.mem_append_right _) (List.mem_append_right _)⟩
  · split
    · exact ⟨'-', n.chars, rfl, .inr rfl⟩
    · obtain ⟨first, rest, hfirst, hdigit⟩ := hn.exists_first
      exact ⟨first, rest, hfirst, .inl hdigit⟩
  · rcases List.mem_append.1 hc with hc | hc
    · split at hc
      · rw [List.mem_singleton.1 hc]
        exact .inr (by decide)
      · cases hc
    · exact hn.mem_chars hc

/-- Different finite reals have different texts. -/
theorem text_injective (hx : x.isFinite = true) (hy : y.isFinite = true) (h : x.text = y.text) :
    x = y := by
  obtain ⟨m, hm, hxmagnitude, hxtext⟩ := toList_text hx
  obtain ⟨n, hn, hymagnitude, hytext⟩ := toList_text hy
  have hminus : ∀ {m n : Numeral}, n.Proper → '-' :: m.chars ≠ n.chars := by
    intro m n hn heq
    obtain ⟨first, rest, hfirst, hdigit⟩ := hn.exists_first
    rw [hfirst] at heq
    rw [← (List.cons.inj heq).1] at hdigit
    exact absurd hdigit (by decide)
  have hchars : x.isNegative = y.isNegative ∧ m.chars = n.chars := by
    rw [h, hytext] at hxtext
    cases hsx : x.isNegative <;> cases hsy : y.isNegative <;> rw [hsx, hsy] at hxtext
    · exact ⟨rfl, hxtext.symm⟩
    · exact absurd hxtext (hminus hm)
    · exact absurd hxtext.symm (hminus hn)
    · exact ⟨rfl, (List.cons.inj hxtext).2.symm⟩
  have hmagnitude : x.magnitudeText = y.magnitudeText := by
    rw [← String.toList_inj, hxmagnitude, hymagnitude, hchars.2]
  obtain ⟨hexponent, hfraction⟩ := fields_of_magnitudeText_eq hx hy hmagnitude
  exact eq_of_fields hchars.1 hexponent hfraction

end Double

end LarkCheck
