import LarkCheck.Source.Encoding
import Mathlib.Algebra.Group.Nat.Defs
import Mathlib.Tactic.SplitIfs

/-!
# Encoding characters

What the decoders undo: the bytes of UTF-8, and the units of two and of four bytes
in either order. Each decoder gives some characters of exactly one list of bytes,
the one that they are written as. So bytes that no characters are written as, such
as truncated or overlong ones, are never decoded.
-/

namespace LarkCheck.Source

theorem toNat_lt (c : Char) : c.toNat < 0x110000 := by
  have h : c.toNat.isValidChar := c.valid
  unfold Nat.isValidChar at h
  omega

theorem not_surrogate (c : Char) : c.toNat < 0xd800 ∨ 0xdfff < c.toNat := by
  have h : c.toNat.isValidChar := c.valid
  unfold Nat.isValidChar at h
  omega

theorem scalar?_eq_some {n : Nat} {c : Char} : scalar? n = some c ↔ n = c.toNat :=
  ⟨fun h => (toNat_of_scalar? h).symm, fun h => h ▸ scalar?_toNat c⟩

theorem map_cons_eq_ok {α ε : Type} {result : Except ε (List α)} {x : α} {xs : List α} :
    result.map (x :: ·) = .ok xs ↔ ∃ rest, result = .ok rest ∧ xs = x :: rest := by
  cases result with
  | error e => simp [Except.map]
  | ok rest =>
    simp only [Except.map, Except.ok.injEq, exists_eq_left']
    exact eq_comm

theorem mapError_eq_ok {α ε φ : Type} {result : Except ε α} {f : ε → φ} {x : α} :
    result.mapError f = .ok x ↔ result = .ok x := by
  cases result <;> simp [Except.mapError]

namespace Utf8

/-- The last groups of six bits of a number, each as a tail. -/
def tails : Nat → Nat → List UInt8
  | 0, _ => []
  | count + 1, n => UInt8.ofNat (n / 64 ^ count % 64 + 0x80) :: tails count n

theorem tail_iff {b : UInt8} {m bits : Nat} :
    isTail b ∧ m = bits * 64 + (b.toNat - 0x80) ↔
      m / 64 = bits ∧ b = UInt8.ofNat (m % 64 + 0x80) := by
  have hb : b = UInt8.ofNat (m % 64 + 0x80) ↔ b.toNat = m % 64 + 0x80 := by
    rw [← UInt8.toNat_inj, UInt8.toNat_ofNat']
    omega
  have htail : isTail b ↔ 0x80 ≤ b.toNat ∧ b.toNat < 0xc0 := by
    simp [isTail, UInt8.le_iff_toNat_le, UInt8.lt_iff_toNat_lt]
  rw [hb, htail]
  omega

theorem div_pow_succ (n count : Nat) : n / 64 ^ (count + 1) = n / 64 ^ count / 64 := by
  rw [Nat.pow_succ, Nat.div_div_eq_div_mul]

theorem tails?_eq_some {count bits n : Nat} {bytes rest : List UInt8} :
    tails? count bits bytes = some (n, rest) ↔
      n / 64 ^ count = bits ∧ bytes = tails count n ++ rest := by
  fun_induction tails? count bits bytes with
  | case1 bits bytes => simp [tails, eq_comm]
  | case2 => simp [tails]
  | case3 count bits b bytes htail ih =>
    have hiff : n / 64 ^ count = bits * 64 + (b.toNat - 0x80) ↔
        n / 64 ^ count / 64 = bits ∧ b = UInt8.ofNat (n / 64 ^ count % 64 + 0x80) := by
      rw [← tail_iff, and_iff_right htail]
    rw [ih, hiff, div_pow_succ, tails, List.cons_append, List.cons.injEq, and_assoc]
  | case4 count bits b bytes htail =>
    refine iff_of_false (by simp) ?_
    rintro ⟨hbits, hbytes⟩
    rw [tails, List.cons_append, List.cons.injEq] at hbytes
    rw [div_pow_succ] at hbits
    exact htail (tail_iff.2 ⟨hbits, hbytes.1⟩).1

theorem longChar?_eq_some {count bits least : Nat} {c : Char} {bytes rest : List UInt8} :
    longChar? count bits least bytes = some (c, rest) ↔
      least ≤ c.toNat ∧ c.toNat / 64 ^ count = bits ∧ bytes = tails count c.toNat ++ rest := by
  rw [← tails?_eq_some]
  unfold longChar?
  cases htails : tails? count bits bytes with
  | none => simp
  | some found =>
    obtain ⟨n, rest'⟩ := found
    simp only [Option.some.injEq, Prod.mk.injEq]
    split
    case isTrue hle =>
      simp only [Option.map_eq_some_iff, Prod.mk.injEq, scalar?_eq_some]
      constructor
      · rintro ⟨c, rfl, rfl, rfl⟩
        exact ⟨hle, rfl, rfl⟩
      · rintro ⟨-, rfl, rfl⟩
        exact ⟨c, rfl, rfl, rfl⟩
    case isFalse hle =>
      refine iff_of_false (by simp) ?_
      rintro ⟨hle', rfl, -⟩
      exact hle hle'

theorem eq_ofNat_iff {b : UInt8} {n : Nat} (hn : n < 256) : b = UInt8.ofNat n ↔ b.toNat = n := by
  rw [← UInt8.toNat_inj, UInt8.toNat_ofNat_of_lt' hn]

/-- The bytes of a character: a lead byte and its tails. -/
theorem utf8EncodeChar_eq (c : Char) :
    String.utf8EncodeChar c =
      if c.toNat < 0x80 then [UInt8.ofNat c.toNat]
      else if c.toNat < 0x800 then UInt8.ofNat (c.toNat / 64 + 0xc0) :: tails 1 c.toNat
      else if c.toNat < 0x10000 then UInt8.ofNat (c.toNat / 64 ^ 2 + 0xe0) :: tails 2 c.toNat
      else UInt8.ofNat (c.toNat / 64 ^ 3 + 0xf0) :: tails 3 c.toNat := by
  have hlt := toNat_lt c
  have hval : c.val.toNat = c.toNat := rfl
  have htwo : 64 ^ 2 = 4096 := rfl
  have hthree : 64 ^ 3 = 262144 := rfl
  simp only [String.utf8EncodeChar, hval, tails, Nat.pow_zero, Nat.pow_one, Nat.div_one, htwo,
    hthree]
  split_ifs with h1 h2 h3
  all_goals first | rfl | omega | skip
  · rw [Nat.mod_eq_of_lt (show c.toNat / 64 < 32 by omega)]
  · rw [Nat.mod_eq_of_lt (show c.toNat / 4096 < 16 by omega)]
  · rw [Nat.mod_eq_of_lt (show c.toNat / 262144 < 8 by omega)]

theorem char?_eq_some {c : Char} {bytes rest : List UInt8} :
    char? bytes = some (c, rest) ↔ bytes = String.utf8EncodeChar c ++ rest := by
  have hlt := toNat_lt c
  cases bytes with
  | nil =>
    simp [char?]
  | cons b bytes =>
    simp only [char?]
    rw [utf8EncodeChar_eq]
    constructor
    · intro h
      split_ifs at h with h1 h2 h3 h4 h5
      · simp only [Option.map_eq_some_iff, Prod.mk.injEq, scalar?_eq_some] at h
        obtain ⟨_, hn, rfl, rfl⟩ := h
        rw [if_pos (by omega), (eq_ofNat_iff (by omega)).2 hn]
        rfl
      all_goals
        obtain ⟨hle, hlead, rfl⟩ := longChar?_eq_some.1 h
        have hb := b.toNat_lt
      · rw [if_neg (by omega), if_pos (by omega), List.cons_append,
          ← (eq_ofNat_iff (by omega)).2 (show b.toNat = _ by omega)]
      · rw [if_neg (by omega), if_neg (by omega), if_pos (by omega), List.cons_append,
          ← (eq_ofNat_iff (by omega)).2 (show b.toNat = _ by omega)]
      · rw [if_neg (by omega), if_neg (by omega), if_neg (by omega), List.cons_append,
          ← (eq_ofNat_iff (by omega)).2 (show b.toNat = _ by omega)]
    · intro h
      split_ifs at h with h1 h2 h3
      all_goals
        obtain ⟨hb, rfl⟩ := List.cons.inj h
        have hb := (eq_ofNat_iff (by omega)).1 hb
      · simp [hb, h1, scalar?_toNat]
      · rw [if_neg (by omega), if_neg (by omega), if_pos (by omega)]
        exact longChar?_eq_some.2 ⟨by omega, by omega, rfl⟩
      · rw [if_neg (by omega), if_neg (by omega), if_neg (by omega), if_pos (by omega)]
        exact longChar?_eq_some.2 ⟨by omega, by omega, rfl⟩
      · rw [if_neg (by omega), if_neg (by omega), if_neg (by omega), if_neg (by omega),
          if_pos (by omega)]
        exact longChar?_eq_some.2 ⟨by omega, by omega, rfl⟩

theorem decode_eq_ok {bytes : List UInt8} {cs : List Char} :
    decode bytes = .ok cs ↔ bytes = cs.flatMap String.utf8EncodeChar := by
  fun_induction decode bytes generalizing cs with
  | case1 bytes c rest hchar ih =>
    rw [map_cons_eq_ok]
    have hbytes := char?_eq_some.1 hchar
    constructor
    · rintro ⟨cs, hcs, rfl⟩
      rw [hbytes, ih.1 hcs, List.flatMap_cons]
    · intro h
      cases cs with
      | nil => simp [h, char?] at hchar
      | cons d cs =>
        rw [char?_eq_some.2 h] at hchar
        cases hchar
        exact ⟨cs, ih.2 rfl, rfl⟩
  | case2 bytes _ hempty =>
    rw [List.isEmpty_iff.1 hempty]
    cases cs with
    | nil => simp
    | cons c cs => simp
  | case3 bytes hchar hempty =>
    refine iff_of_false (by simp) ?_
    rintro rfl
    cases cs with
    | nil => exact hempty rfl
    | cons c cs => rw [char?_eq_some.2 List.flatMap_cons] at hchar; cases hchar

end Utf8

/-- The bytes of a number, the lowest first. -/
def lowFirst : Nat → Nat → List UInt8
  | 0, _ => []
  | count + 1, n => UInt8.ofNat n :: lowFirst count (n / 256)

/-- The bytes of a unit of so many bytes. -/
def ByteOrder.bytes (order : ByteOrder) (count n : Nat) : List UInt8 :=
  match order with
  | littleEndian => lowFirst count n
  | bigEndian => (lowFirst count n).reverse

theorem value_pair {order : ByteOrder} {a b : UInt8} {n : Nat} :
    order.value [a, b] = n ↔ n < 0x10000 ∧ [a, b] = order.bytes 2 n := by
  have ha := a.toNat_lt
  have hb := b.toNat_lt
  cases order <;>
    simp [ByteOrder.value, ByteOrder.bytes, lowFirst, ← UInt8.toNat_inj, UInt8.toNat_ofNat'] <;>
    omega

theorem value_quad {order : ByteOrder} {a b c d : UInt8} {n : Nat} :
    order.value [a, b, c, d] = n ↔ n < 0x100000000 ∧ [a, b, c, d] = order.bytes 4 n := by
  have ha := a.toNat_lt
  have hb := b.toNat_lt
  have hc := c.toNat_lt
  have hd := d.toNat_lt
  cases order <;>
    simp [ByteOrder.value, ByteOrder.bytes, lowFirst, ← UInt8.toNat_inj, UInt8.toNat_ofNat'] <;>
    omega

theorem length_bytes (order : ByteOrder) (count n : Nat) :
    (order.bytes count n).length = count := by
  have hlength (n : Nat) : (lowFirst count n).length = count := by
    induction count generalizing n with
    | zero => rfl
    | succ count ih => rw [lowFirst, List.length_cons, ih]
  cases order <;> simp [ByteOrder.bytes, hlength]

theorem append_bytes_iff {order : ByteOrder} {count n : Nat} {unit body rest : List UInt8}
    (hunit : unit.length = count) :
    unit ++ body = order.bytes count n ++ rest ↔ unit = order.bytes count n ∧ body = rest :=
  ⟨fun h => List.append_inj h (by rw [hunit, length_bytes]), fun ⟨hn, hrest⟩ => by rw [hn, hrest]⟩

theorem length_flatMap_bytes (order : ByteOrder) (count : Nat) (units : List Nat) :
    (units.flatMap (order.bytes count)).length = count * units.length := by
  induction units with
  | nil => rfl
  | cons unit units ih =>
    rw [List.flatMap_cons, List.length_append, ih, length_bytes, List.length_cons, Nat.mul_succ,
      Nat.add_comm]

/-- The first unit of a body can be taken apart from the others. -/
theorem cons_units_iff {order : ByteOrder} (first : List UInt8) {body : List UInt8}
    {bound unit : Nat} {found units : List Nat}
    (hfirst : order.value first = unit ↔ unit < bound ∧ first = order.bytes first.length unit)
    (hbody : body.length % first.length = 0 ∧ found = units ↔
      (∀ n ∈ units, n < bound) ∧ body = units.flatMap (order.bytes first.length)) :
    (first ++ body).length % first.length = 0 ∧ order.value first :: found = unit :: units ↔
      (∀ n ∈ unit :: units, n < bound) ∧
        first ++ body = (unit :: units).flatMap (order.bytes first.length) := by
  rw [List.length_append, Nat.add_mod_left, List.cons.injEq, hfirst, and_left_comm, hbody,
    List.forall_mem_cons, List.flatMap_cons, append_bytes_iff rfl]
  exact and_and_and_comm

/-- A body that is shorter than a unit has units only if it is empty. -/
theorem no_units_iff {order : ByteOrder} {count bound : Nat} {body : List UInt8}
    {units : List Nat} (hshort : body.length < count) :
    body.length % count = 0 ∧ [] = units ↔
      (∀ unit ∈ units, unit < bound) ∧ body = units.flatMap (order.bytes count) := by
  rw [Nat.mod_eq_of_lt hshort]
  constructor
  · rintro ⟨hempty, rfl⟩
    exact ⟨by simp, List.eq_nil_of_length_eq_zero hempty⟩
  · rintro ⟨-, rfl⟩
    rw [length_flatMap_bytes] at hshort ⊢
    have hnone : units.length = 0 := Nat.eq_zero_of_not_pos fun hpos =>
      Nat.not_lt_of_le (Nat.le_mul_of_pos_right count hpos) hshort
    exact ⟨by rw [hnone, Nat.mul_zero], (List.eq_nil_of_length_eq_zero hnone).symm⟩

theorem pairs_eq_iff {order : ByteOrder} {body : List UInt8} {units : List Nat} :
    body.length % 2 = 0 ∧ pairs order body = units ↔
      (∀ unit ∈ units, unit < 0x10000) ∧ body = units.flatMap (order.bytes 2) := by
  fun_induction pairs order body generalizing units with
  | case1 a b body ih =>
    cases units with
    | nil => simp
    | cons unit units => exact cons_units_iff [a, b] value_pair ih
  | case2 body hbody =>
    refine no_units_iff ?_
    match body, hbody with
    | [], _ | [_], _ => simp
    | a :: b :: rest, hbody => exact (hbody a b rest rfl).elim

theorem quads_eq_iff {order : ByteOrder} {body : List UInt8} {units : List Nat} :
    body.length % 4 = 0 ∧ quads order body = units ↔
      (∀ unit ∈ units, unit < 0x100000000) ∧ body = units.flatMap (order.bytes 4) := by
  fun_induction quads order body generalizing units with
  | case1 a b c d body ih =>
    cases units with
    | nil => simp
    | cons unit units => exact cons_units_iff [a, b, c, d] value_quad ih
  | case2 body hbody =>
    refine no_units_iff ?_
    match body, hbody with
    | [], _ | [_], _ | [_, _], _ | [_, _, _], _ => simp
    | a :: b :: c :: d :: rest, hbody => exact (hbody a b c d rest rfl).elim

theorem isHighSurrogate_iff {unit : Nat} :
    isHighSurrogate unit ↔ 0xd800 ≤ unit ∧ unit < 0xdc00 := by
  simp [isHighSurrogate]

theorem isLowSurrogate_iff {unit : Nat} :
    isLowSurrogate unit ↔ 0xdc00 ≤ unit ∧ unit < 0xe000 := by
  simp [isLowSurrogate]

theorem surrogatePair?_eq_some {high low : Nat} {c : Char} :
    surrogatePair? high low = some c ↔
      (0xdc00 ≤ low ∧ low < 0xe000) ∧ c.toNat = surrogateValue high low := by
  by_cases hlow : isLowSurrogate low
  · rw [surrogatePair?, if_pos hlow, scalar?_eq_some, ← isLowSurrogate_iff, eq_comm]
    simp only [hlow, true_and]
  · rw [surrogatePair?, if_neg hlow, ← isLowSurrogate_iff]
    simp [hlow]

theorem decodeUnits16_cons_of_not_high {unit : Nat} (rest : List Nat)
    (h : ¬isHighSurrogate unit) :
    decodeUnits16 (unit :: rest) =
      match scalar? unit with
      | some c => (decodeUnits16 rest).map (c :: ·)
      | none => .error unit := by
  rw [decodeUnits16.eq_def]
  refine (if_neg h).trans ?_
  cases scalar? unit <;> rfl

/-- The units of two bytes of a character: its number, or two surrogates. -/
def units16 (c : Char) : List Nat :=
  if c.toNat < 0x10000 then [c.toNat]
  else [0xd800 + (c.toNat - 0x10000) / 0x400, 0xdc00 + (c.toNat - 0x10000) % 0x400]

theorem units16_lt {c : Char} {unit : Nat} (h : unit ∈ units16 c) : unit < 0x10000 := by
  have hlt := toNat_lt c
  unfold units16 at h
  split at h <;> simp at h <;> omega

theorem decodeUnits16_flatMap (cs : List Char) : decodeUnits16 (cs.flatMap units16) = .ok cs := by
  induction cs with
  | nil => rfl
  | cons c cs ih =>
    have hlt := toNat_lt c
    have hsurrogate := not_surrogate c
    rw [List.flatMap_cons, units16]
    by_cases hone : c.toNat < 0x10000
    · have hhigh : ¬isHighSurrogate c.toNat := by
        rw [isHighSurrogate_iff]
        omega
      rw [if_pos hone, List.singleton_append, decodeUnits16_cons_of_not_high _ hhigh,
        scalar?_toNat, ih]
      rfl
    · rw [if_neg hone, List.cons_append, List.singleton_append]
      generalize hhigh : 0xd800 + (c.toNat - 0x10000) / 0x400 = high
      generalize hlow : 0xdc00 + (c.toNat - 0x10000) % 0x400 = low
      have hisHigh : isHighSurrogate high := by
        rw [isHighSurrogate_iff]
        omega
      have hpair : surrogatePair? high low = some c := by
        rw [surrogatePair?_eq_some]
        unfold surrogateValue
        omega
      rw [decodeUnits16, if_pos hisHigh]
      simp only [hpair, ih]
      rfl

theorem eq_of_decodeUnits16 {units : List Nat} {cs : List Char}
    (hlt : ∀ unit ∈ units, unit < 0x10000) (h : decodeUnits16 units = .ok cs) :
    units = cs.flatMap units16 := by
  fun_induction decodeUnits16 units generalizing cs with
  | case1 => cases h; rfl
  | case3 high hhigh low rest c hc ih =>
    obtain ⟨cs, hcs, rfl⟩ := map_cons_eq_ok.1 h
    obtain ⟨hlow, hvalue⟩ := surrogatePair?_eq_some.1 hc
    unfold surrogateValue at hvalue
    rw [isHighSurrogate_iff] at hhigh
    rw [List.flatMap_cons, ← ih (fun unit hunit => hlt unit (by simp [hunit])) hcs, units16,
      if_neg (by omega)]
    simp only [List.cons_append, List.nil_append, List.cons.injEq, and_true]
    omega
  | case5 unit rest _ c hc ih =>
    obtain ⟨cs, hcs, rfl⟩ := map_cons_eq_ok.1 h
    have hvalue := scalar?_eq_some.1 hc
    have hunit := hlt unit List.mem_cons_self
    rw [List.flatMap_cons, ← ih (fun unit hunit => hlt unit (List.mem_cons_of_mem _ hunit)) hcs,
      units16, if_pos (by omega), hvalue]
    rfl
  | case2 | case4 | case6 => cases h

theorem decodeUnits32_map (cs : List Char) : decodeUnits32 (cs.map Char.toNat) = .ok cs := by
  induction cs with
  | nil => rfl
  | cons c cs ih => simp only [List.map_cons, decodeUnits32, scalar?_toNat, ih, Except.map]

theorem eq_of_decodeUnits32 {units : List Nat} {cs : List Char} (h : decodeUnits32 units = .ok cs) :
    units = cs.map Char.toNat := by
  fun_induction decodeUnits32 units generalizing cs with
  | case1 => cases h; rfl
  | case2 unit rest c hc ih =>
    obtain ⟨cs, hcs, rfl⟩ := map_cons_eq_ok.1 h
    rw [List.map_cons, ← ih hcs, scalar?_eq_some.1 hc]
  | case3 => cases h

namespace Encoding

/-- The bytes of some characters in an encoding. -/
def encode : Encoding → List Char → List UInt8
  | utf8, cs => cs.flatMap String.utf8EncodeChar
  | utf16 order, cs => (cs.flatMap units16).flatMap (order.bytes 2)
  | utf32 order, cs => (cs.map Char.toNat).flatMap (order.bytes 4)

end Encoding

theorem decodeBody_eq_ok {encoding : Encoding} {skipped : Nat} {body : List UInt8}
    {cs : List Char} :
    decodeBody encoding skipped body = .ok cs ↔ body = encoding.encode cs := by
  cases encoding with
  | utf8 => rw [decodeBody, mapError_eq_ok, Utf8.decode_eq_ok, Encoding.encode]
  | utf16 order =>
    rw [decodeBody, Encoding.encode]
    constructor
    · intro h
      split at h
      · cases h
      · rename_i heven
        obtain ⟨hlt, hbody⟩ := pairs_eq_iff.1 ⟨Decidable.not_not.1 heven, rfl⟩
        rw [hbody, ← eq_of_decodeUnits16 hlt (mapError_eq_ok.1 h)]
    · intro hbody
      have hlt : ∀ unit ∈ cs.flatMap units16, unit < 0x10000 := by
        intro unit hunit
        obtain ⟨c, -, hc⟩ := List.mem_flatMap.1 hunit
        exact units16_lt hc
      obtain ⟨heven, hpairs⟩ := pairs_eq_iff.2 ⟨hlt, hbody⟩
      rw [if_neg (Decidable.not_not.2 heven), hpairs, decodeUnits16_flatMap]
      rfl
  | utf32 order =>
    rw [decodeBody, Encoding.encode]
    constructor
    · intro h
      split at h
      · cases h
      · rename_i hfull
        obtain ⟨-, hbody⟩ := quads_eq_iff.1 ⟨Decidable.not_not.1 hfull, rfl⟩
        rw [hbody, ← eq_of_decodeUnits32 (mapError_eq_ok.1 h)]
    · intro hbody
      have hlt : ∀ unit ∈ cs.map Char.toNat, unit < 0x100000000 := by
        intro unit hunit
        obtain ⟨c, -, rfl⟩ := List.mem_map.1 hunit
        exact Nat.lt_trans (toNat_lt c) (by decide)
      obtain ⟨hfull, hquads⟩ := quads_eq_iff.2 ⟨hlt, hbody⟩
      rw [if_neg (Decidable.not_not.2 hfull), hquads, decodeUnits32_map]
      rfl

end LarkCheck.Source
