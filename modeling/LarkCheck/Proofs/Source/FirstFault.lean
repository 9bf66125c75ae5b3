import LarkCheck.Proofs.Source.Exact

/-!
# The first malformed place

Bytes that cannot be decoded are rejected for the first place at which they are
malformed, and the place is told without decoding: in UTF-8 it is where the longest
well-formed front ends, in UTF-16 the first surrogate without its partner, and in
UTF-32 the first number of no character. A last unit with bytes missing comes before
all of these. The message says which it is, and counts the bytes of the mark.
-/

namespace LarkCheck.Source

variable {ε φ α : Type}

theorem map_cons_eq_error {result : Except ε (List α)} {x : α} {e : ε} :
    result.map (x :: ·) = .error e ↔ result = .error e := by
  cases result <;> simp [Except.map]

theorem mapError_eq_error {result : Except ε α} {f : ε → φ} {e : φ} :
    result.mapError f = .error e ↔ ∃ e', result = .error e' ∧ f e' = e := by
  cases result <;> simp [Except.mapError]

namespace Utf8

/-- The bytes are those of some characters. -/
def WellFormed (bytes : List UInt8) : Prop :=
  ∃ cs : List Char, bytes = cs.flatMap String.utf8EncodeChar

/-- So many bytes at the front are well formed, no more are, and there are more. -/
structure Breaks (bytes : List UInt8) (count : Nat) : Prop where
  count_lt : count < bytes.length
  wellFormed : WellFormed (bytes.take count)
  length_le : ∀ front, front <+: bytes → WellFormed front → front.length ≤ count

variable {bytes rest : List UInt8} {m n : Nat}

theorem Breaks.unique (hm : Breaks bytes m) (hn : Breaks bytes n) : m = n := by
  have hle := hn.length_le _ (List.take_prefix m bytes) hm.wellFormed
  have hge := hm.length_le _ (List.take_prefix n bytes) hn.wellFormed
  have hm := hm.count_lt
  have hn := hn.count_lt
  rw [List.length_take] at hle hge
  omega

theorem split_of_decode_eq_error (h : decode bytes = .error rest) :
    char? rest = none ∧ rest ≠ [] ∧ ∃ cs : List Char,
      bytes = cs.flatMap String.utf8EncodeChar ++ rest := by
  fun_induction decode bytes with
  | case1 bytes c more hchar ih =>
    obtain ⟨hnone, hne, cs, hcs⟩ := ih (map_cons_eq_error.1 h)
    refine ⟨hnone, hne, c :: cs, ?_⟩
    rw [char?_eq_some.1 hchar, hcs, List.flatMap_cons, List.append_assoc]
  | case2 => cases h
  | case3 bytes hnone hempty =>
    cases h
    exact ⟨hnone, fun hnil => hempty (List.isEmpty_iff.2 hnil), [], rfl⟩

/-- Of two ways to begin with characters, the one that ends where no character can be read is not
the shorter: character by character both are the same. -/
theorem length_le_of_char?_eq_none {cs ds : List Char} {more : List UInt8}
    (hnone : char? rest = none)
    (h : cs.flatMap String.utf8EncodeChar ++ rest = ds.flatMap String.utf8EncodeChar ++ more) :
    (ds.flatMap String.utf8EncodeChar).length ≤ (cs.flatMap String.utf8EncodeChar).length := by
  induction ds generalizing cs with
  | nil => exact Nat.zero_le _
  | cons d ds ih =>
    rw [List.flatMap_cons, List.append_assoc] at h
    have hd := char?_eq_some.2 h
    cases cs with
    | nil =>
      rw [List.flatMap_nil, List.nil_append, hnone] at hd
      cases hd
    | cons c cs =>
      have hc : char? ((c :: cs).flatMap String.utf8EncodeChar ++ rest) =
          some (c, cs.flatMap String.utf8EncodeChar ++ rest) := by
        rw [char?_eq_some, List.flatMap_cons, List.append_assoc]
      rw [hc, Option.some.injEq, Prod.mk.injEq] at hd
      obtain ⟨rfl, hrest⟩ := hd
      have hle := ih hrest
      rw [List.flatMap_cons, List.flatMap_cons, List.length_append, List.length_append]
      omega

theorem breaks_of_decode_eq_error (h : decode bytes = .error rest) :
    Breaks bytes (bytes.length - rest.length) := by
  obtain ⟨hnone, hne, cs, rfl⟩ := split_of_decode_eq_error h
  have hpos := List.length_pos_iff.2 hne
  have hcount : (cs.flatMap String.utf8EncodeChar ++ rest).length - rest.length =
      (cs.flatMap String.utf8EncodeChar).length := by
    rw [List.length_append]
    omega
  rw [hcount]
  constructor
  · rw [List.length_append]
    omega
  · exact ⟨cs, List.take_left⟩
  · rintro front ⟨more, hmore⟩ ⟨ds, rfl⟩
    exact length_le_of_char?_eq_none hnone hmore.symm

/-- Decoding stops where the well-formed front ends. -/
theorem decode_eq_error_iff {count : Nat} :
    (∃ rest, decode bytes = .error rest ∧ bytes.length - rest.length = count) ↔
      Breaks bytes count := by
  constructor
  · rintro ⟨rest, h, rfl⟩
    exact breaks_of_decode_eq_error h
  · intro hbreaks
    cases hdecode : decode bytes with
    | error rest => exact ⟨rest, rfl, (breaks_of_decode_eq_error hdecode).unique hbreaks⟩
    | ok cs =>
      have hle := hbreaks.length_le bytes List.prefix_rfl ⟨cs, decode_eq_ok.1 hdecode⟩
      exact absurd hbreaks.count_lt (Nat.not_lt.2 hle)

end Utf8

/-- The unit stands at the first index with the property. -/
def FirstAt (P : Nat → Prop) (units : List Nat) (unit : Nat) : Prop :=
  ∃ i, units[i]? = some unit ∧ P i ∧ ∀ j, j < i → ¬P j

section First

variable {P Q : Nat → Prop} {units : List Nat} {u v : Nat}

theorem FirstAt.unique (hu : FirstAt P units u) (hv : FirstAt P units v) : u = v := by
  obtain ⟨i, hui, hi, hbefore⟩ := hu
  obtain ⟨j, hvj, hj, hbefore'⟩ := hv
  have hij : i = j := by
    rcases Nat.lt_trichotomy i j with hlt | heq | hlt
    · exact absurd hi (hbefore' i hlt)
    · exact heq
    · exact absurd hj (hbefore j hlt)
  subst hij
  rw [hui] at hvj
  exact Option.some.inj hvj

/-- The result is the unit at the first index with the property, unless there is none. -/
inductive Settles (P : Nat → Prop) (units : List Nat) : Except Nat (List Char) → Prop
  | ok {cs : List Char} (h : ∀ i, ¬P i) : Settles P units (.ok cs)
  | error {unit : Nat} (h : FirstAt P units unit) : Settles P units (.error unit)

variable {result : Except Nat (List Char)}

theorem Settles.map (c : Char) (h : Settles P units result) :
    Settles P units (result.map (c :: ·)) := by
  cases h with
  | ok h => exact .ok h
  | error h => exact .error h

theorem Settles.head (h : P 0) : Settles P (u :: units) (.error u) :=
  .error ⟨0, rfl, h, fun _ hj => absurd hj (Nat.not_lt_zero _)⟩

theorem Settles.cons (hzero : ¬P 0) (hsucc : ∀ i, P (i + 1) ↔ Q i) (h : Settles Q units result) :
    Settles P (u :: units) result := by
  cases h with
  | ok h =>
    constructor
    intro i
    cases i with
    | zero => exact hzero
    | succ i => exact fun hp => h i ((hsucc i).1 hp)
  | error h =>
    obtain ⟨i, hunit, hi, hbefore⟩ := h
    refine .error ⟨i + 1, hunit, (hsucc i).2 hi, ?_⟩
    intro j hj
    cases j with
    | zero => exact hzero
    | succ j => exact fun hp => hbefore j (Nat.lt_of_succ_lt_succ hj) ((hsucc j).1 hp)

theorem Settles.eq_error_iff (h : Settles P units result) :
    result = .error u ↔ FirstAt P units u := by
  cases h with
  | ok h =>
    constructor
    · intro herror
      cases herror
    · rintro ⟨i, -, hi, -⟩
      exact absurd hi (h i)
  | error h =>
    constructor
    · intro herror
      cases herror
      exact h
    · intro hu
      rw [h.unique hu]

end First

/-- A surrogate without its partner. A high one has the low one right after it, and a low one the
high one right before it. -/
def Unpaired (units : List Nat) (i : Nat) : Prop :=
  (∃ high, units[i]? = some high ∧ (0xd800 ≤ high ∧ high < 0xdc00) ∧
    ∀ low, units[i + 1]? = some low → ¬(0xdc00 ≤ low ∧ low < 0xe000)) ∨
  ∃ low, units[i]? = some low ∧ (0xdc00 ≤ low ∧ low < 0xe000) ∧
    (i = 0 ∨ ∀ high, units[i - 1]? = some high → ¬(0xd800 ≤ high ∧ high < 0xdc00))

theorem unpaired_iff {units : List Nat} {i : Nat} : Unpaired units i ↔
    (∃ high, units[i]? = some high ∧ isHighSurrogate high ∧
      ∀ low, units[i + 1]? = some low → ¬isLowSurrogate low) ∨
    ∃ low, units[i]? = some low ∧ isLowSurrogate low ∧
      (i = 0 ∨ ∀ high, units[i - 1]? = some high → ¬isHighSurrogate high) := by
  simp only [Unpaired, isHighSurrogate_iff, isLowSurrogate_iff]

/-- A number that no character has. -/
def Unassigned (units : List Nat) (i : Nat) : Prop :=
  ∃ unit, units[i]? = some unit ∧ ¬unit.isValidChar

section Surrogates

variable {unit high low : Nat} {rest : List Nat}

theorem not_isLowSurrogate_of_isHighSurrogate (h : isHighSurrogate high) :
    ¬isLowSurrogate high := by
  rw [isHighSurrogate_iff] at h
  rw [isLowSurrogate_iff]
  omega

theorem exists_surrogatePair? (hhigh : isHighSurrogate high) (hlow : isLowSurrogate low) :
    ∃ c, surrogatePair? high low = some c := by
  rw [isHighSurrogate_iff] at hhigh
  have hlow' := isLowSurrogate_iff.1 hlow
  have hvalid : (surrogateValue high low).isValidChar := by
    unfold surrogateValue Nat.isValidChar
    omega
  rw [surrogatePair?, if_pos hlow, scalar?, dif_pos hvalid]
  exact ⟨_, rfl⟩

theorem not_isValidChar_of_scalar?_eq_none (hnone : scalar? unit = none) :
    ¬unit.isValidChar := by
  intro hvalid
  rw [scalar?, dif_pos hvalid] at hnone
  cases hnone

/-- Among the numbers of two bytes only surrogates are of no character. -/
theorem isLowSurrogate_of_scalar?_eq_none (hlt : unit < 0x10000) (hhigh : ¬isHighSurrogate unit)
    (hnone : scalar? unit = none) : isLowSurrogate unit := by
  have hinvalid := not_isValidChar_of_scalar?_eq_none hnone
  rw [isHighSurrogate_iff] at hhigh
  rw [isLowSurrogate_iff]
  unfold Nat.isValidChar at hinvalid
  omega

theorem not_isLowSurrogate_of_scalar?_eq_some {c : Char} (h : scalar? unit = some c) :
    ¬isLowSurrogate unit := by
  have hunit := scalar?_eq_some.1 h
  have hc := not_surrogate c
  rw [isLowSurrogate_iff]
  omega

theorem unpaired_zero : Unpaired (unit :: rest) 0 ↔
    (isHighSurrogate unit ∧ ∀ low, rest[0]? = some low → ¬isLowSurrogate low) ∨
      isLowSurrogate unit := by
  simp [unpaired_iff]

/-- A unit before is not asked for by those after it, unless it is the partner of the next. -/
theorem unpaired_succ {i : Nat} (h : ¬isHighSurrogate unit ∨ i ≠ 0) :
    Unpaired (unit :: rest) (i + 1) ↔ Unpaired rest i := by
  rw [unpaired_iff, unpaired_iff]
  cases i with
  | zero => simp [h.resolve_right (fun h => h rfl)]
  | succ i => simp

end Surrogates

theorem decodeUnits16_settles {units : List Nat} (hlt : ∀ unit ∈ units, unit < 0x10000) :
    Settles (Unpaired units) units (decodeUnits16 units) := by
  fun_induction decodeUnits16 units with
  | case1 => exact .ok fun i => by simp [Unpaired]
  | case2 high hhigh =>
    apply Settles.head
    exact unpaired_zero.2 (.inl ⟨hhigh, by simp⟩)
  | case3 high hhigh low rest c hc ih =>
    have hlow := isLowSurrogate_iff.2 (surrogatePair?_eq_some.1 hc).1
    have hnot : ¬isHighSurrogate low := fun h => not_isLowSurrogate_of_isHighSurrogate h hlow
    have hrest := ih fun unit hunit => hlt unit (by simp [hunit])
    -- each of the two is the other's partner, and neither is one for the rest
    apply Settles.cons (Q := fun i => Unpaired (high :: low :: rest) (i + 1))
    · rw [unpaired_zero]
      rintro (⟨-, h⟩ | h)
      · exact h low rfl hlow
      · exact not_isLowSurrogate_of_isHighSurrogate hhigh h
    · exact fun _ => Iff.rfl
    apply (hrest.map c).cons
    · simp [unpaired_iff, hnot, hhigh]
    · intro i
      rw [unpaired_succ (.inr (Nat.succ_ne_zero i)), unpaired_succ (.inl hnot)]
  | case4 high hhigh low rest hnone =>
    apply Settles.head
    refine unpaired_zero.2 (.inl ⟨hhigh, ?_⟩)
    intro low' hlow' hlow
    cases hlow'
    obtain ⟨c, hc⟩ := exists_surrogatePair? hhigh hlow
    rw [hnone] at hc
    cases hc
  | case5 unit rest hnot c hc ih =>
    have hrest := ih fun unit hunit => hlt unit (List.mem_cons_of_mem _ hunit)
    apply (hrest.map c).cons
    · rw [unpaired_zero]
      rintro (⟨h, -⟩ | h)
      · exact hnot h
      · exact not_isLowSurrogate_of_scalar?_eq_some hc h
    · exact fun i => unpaired_succ (.inl hnot)
  | case6 unit rest hnot hnone =>
    apply Settles.head
    have hunit := hlt unit List.mem_cons_self
    exact unpaired_zero.2 (.inr (isLowSurrogate_of_scalar?_eq_none hunit hnot hnone))

theorem decodeUnits32_settles (units : List Nat) :
    Settles (Unassigned units) units (decodeUnits32 units) := by
  fun_induction decodeUnits32 units with
  | case1 => exact .ok fun i => by simp [Unassigned]
  | case2 unit rest c hc ih =>
    apply (ih.map c).cons
    · rintro ⟨unit', hunit', hinvalid⟩
      cases hunit'
      rw [scalar?_eq_some.1 hc] at hinvalid
      exact hinvalid c.valid
    · intro i
      simp [Unassigned]
  | case3 unit rest hnone =>
    apply Settles.head
    exact ⟨unit, rfl, not_isValidChar_of_scalar?_eq_none hnone⟩

/-- A number in base sixteen, in capital letters. -/
def hexadecimal (n : Nat) : String :=
  String.ofList ((Nat.toDigits 16 n).map Char.toUpper)

/-- A number that has as many digits is not filled up with zeros. -/
theorem hexText_eq {width n : Nat} (h : width ≤ (Nat.toDigits 16 n).length) :
    hexText width n = "0x" ++ hexadecimal n := by
  have hfull : width - (Nat.toDigits 16 n).length = 0 := by omega
  simp [hexText, hexadecimal, Text.hexDigits, hfull]

theorem unpairedSurrogate_reason {units : List Nat} {unit : Nat}
    (h : FirstAt (Unpaired units) units unit) :
    (Fault.unpairedSurrogate unit).reason = "unpaired surrogate 0x" ++ hexadecimal unit := by
  obtain ⟨i, hunit, hunpaired, -⟩ := h
  have hlarge : 16 ^ 3 ≤ unit := by
    obtain ⟨high, hhigh, hbounds, -⟩ | ⟨low, hlow, hbounds, -⟩ := hunpaired
    · cases hunit.symm.trans hhigh
      omega
    · cases hunit.symm.trans hlow
      omega
  have hfour : 3 < (Nat.toDigits 16 unit).length := by
    refine Nat.lt_of_not_le fun hshort => ?_
    have hsmall := (Nat.length_toDigits_le_iff (by decide) (by decide)).1 hshort
    omega
  have hjoin : "unpaired surrogate " ++ "0x" = "unpaired surrogate 0x" := rfl
  change "unpaired surrogate " ++ hexText 4 unit = _
  rw [hexText_eq hfour, ← String.append_assoc, hjoin]

theorem invalidCodePoint_reason (unit : Nat) :
    (Fault.invalidCodePoint unit).reason = "invalid code point 0x" ++ hexadecimal unit := by
  have hjoin : "invalid code point " ++ "0x" = "invalid code point 0x" := rfl
  change "invalid code point " ++ hexText 1 unit = _
  rw [hexText_eq Nat.length_toDigits_pos, ← String.append_assoc, hjoin]

/-- The text names the first malformed place of the bytes behind a mark of this length. -/
inductive FirstFault : (encoding : Encoding) → (skipped : Nat) → (body : List UInt8) →
    (text : String) → Prop
  | utf8 {skipped count : Nat} {body : List UInt8} (h : Utf8.Breaks body count) :
    FirstFault .utf8 skipped body ("invalid UTF-8 at byte " ++ toString (skipped + count))
  | truncated16 {order : ByteOrder} {skipped : Nat} {body : List UInt8}
    (h : body.length % 2 = 1) :
    FirstFault (.utf16 order) skipped body "truncated UTF-16 code unit"
  | unpaired {order : ByteOrder} {skipped unit : Nat} {units : List Nat}
    (hlt : ∀ unit ∈ units, unit < 0x10000) (h : FirstAt (Unpaired units) units unit) :
    FirstFault (.utf16 order) skipped (units.flatMap (order.bytes 2))
      ("unpaired surrogate 0x" ++ hexadecimal unit)
  | truncated32 {order : ByteOrder} {skipped : Nat} {body : List UInt8}
    (h : body.length % 4 ≠ 0) :
    FirstFault (.utf32 order) skipped body "truncated UTF-32 code unit"
  | unassigned {order : ByteOrder} {skipped unit : Nat} {units : List Nat}
    (hlt : ∀ unit ∈ units, unit < 0x100000000) (h : FirstAt (Unassigned units) units unit) :
    FirstFault (.utf32 order) skipped (units.flatMap (order.bytes 4))
      ("invalid code point 0x" ++ hexadecimal unit)

theorem decodeBody_utf8_eq_error_iff {skipped : Nat} {body : List UInt8} {text : String} :
    (∃ fault, decodeBody .utf8 skipped body = .error fault ∧ fault.reason = text) ↔
      FirstFault .utf8 skipped body text := by
  simp only [decodeBody, mapError_eq_error]
  constructor
  · rintro ⟨_, ⟨rest, hrest, rfl⟩, rfl⟩
    exact .utf8 (Utf8.breaks_of_decode_eq_error hrest)
  · rintro ⟨h⟩
    obtain ⟨rest, hrest, rfl⟩ := Utf8.decode_eq_error_iff.2 h
    exact ⟨_, ⟨rest, hrest, rfl⟩, rfl⟩

theorem decodeBody_utf16_eq_error_iff {order : ByteOrder} {skipped : Nat} {body : List UInt8}
    {text : String} :
    (∃ fault, decodeBody (.utf16 order) skipped body = .error fault ∧ fault.reason = text) ↔
      FirstFault (.utf16 order) skipped body text := by
  by_cases hodd : body.length % 2 = 1
  · rw [decodeBody, if_pos (by omega)]
    constructor
    · rintro ⟨_, ⟨⟩, rfl⟩
      exact .truncated16 hodd
    · intro h
      cases h with
      | truncated16 => exact ⟨_, rfl, rfl⟩
      | unpaired hlt =>
        rw [length_flatMap_bytes] at hodd
        omega
  · have heven : body.length % 2 = 0 := by omega
    obtain ⟨hlt, hbody⟩ := pairs_eq_iff.1 ⟨heven, rfl⟩
    rw [decodeBody, if_neg (Decidable.not_not.2 heven)]
    simp only [mapError_eq_error]
    constructor
    · rintro ⟨_, ⟨unit, hunit, rfl⟩, rfl⟩
      have hfirst := (decodeUnits16_settles hlt).eq_error_iff.1 hunit
      have h : FirstFault (.utf16 order) skipped _ _ := .unpaired hlt hfirst
      rwa [← hbody, ← unpairedSurrogate_reason hfirst] at h
    · intro h
      cases h with
      | truncated16 h => exact absurd h hodd
      | @unpaired _ _ unit units hlt' h =>
        rw [(pairs_eq_iff.2 ⟨hlt', rfl⟩).2]
        exact ⟨_, ⟨unit, (decodeUnits16_settles hlt').eq_error_iff.2 h, rfl⟩,
          unpairedSurrogate_reason h⟩

theorem decodeBody_utf32_eq_error_iff {order : ByteOrder} {skipped : Nat} {body : List UInt8}
    {text : String} :
    (∃ fault, decodeBody (.utf32 order) skipped body = .error fault ∧ fault.reason = text) ↔
      FirstFault (.utf32 order) skipped body text := by
  by_cases hfull : body.length % 4 = 0
  · obtain ⟨hlt, hbody⟩ := quads_eq_iff.1 ⟨hfull, rfl⟩
    rw [decodeBody, if_neg (Decidable.not_not.2 hfull)]
    simp only [mapError_eq_error]
    constructor
    · rintro ⟨_, ⟨unit, hunit, rfl⟩, rfl⟩
      have h : FirstFault (.utf32 order) skipped _ _ :=
        .unassigned hlt ((decodeUnits32_settles _).eq_error_iff.1 hunit)
      rwa [← hbody, ← invalidCodePoint_reason] at h
    · intro h
      cases h with
      | truncated32 h => exact absurd hfull h
      | @unassigned _ _ unit units hlt' h =>
        rw [(quads_eq_iff.2 ⟨hlt', rfl⟩).2]
        exact ⟨_, ⟨unit, (decodeUnits32_settles units).eq_error_iff.2 h, rfl⟩,
          invalidCodePoint_reason unit⟩
  · rw [decodeBody, if_pos hfull]
    constructor
    · rintro ⟨_, ⟨⟩, rfl⟩
      exact .truncated32 hfull
    · intro h
      cases h with
      | truncated32 => exact ⟨_, rfl, rfl⟩
      | unassigned hlt =>
        rw [length_flatMap_bytes, Nat.mul_mod_right] at hfull
        exact absurd rfl hfull

theorem decodeBody_eq_error_iff {encoding : Encoding} {skipped : Nat} {body : List UInt8}
    {text : String} :
    (∃ fault, decodeBody encoding skipped body = .error fault ∧ fault.reason = text) ↔
      FirstFault encoding skipped body text := by
  cases encoding with
  | utf8 => exact decodeBody_utf8_eq_error_iff
  | utf16 order => exact decodeBody_utf16_eq_error_iff
  | utf32 order => exact decodeBody_utf32_eq_error_iff

/-- Bytes are rejected for the first malformed place behind their mark, and for nothing else. -/
theorem decodeNamed_firstFault (name : String) (bytes : List UInt8) (failure : Failure) :
    decodeNamed name bytes = .error failure ↔
      ∃ encoding mark body text, bytes = mark ++ body ∧ Marked encoding mark body ∧
        FirstFault encoding mark.length body text ∧ failure = .cannotRead name text := by
  rw [decodeNamed, mapError_eq_error]
  constructor
  · rintro ⟨fault, hfault, rfl⟩
    obtain ⟨encoding, mark, body, rfl, hmarked⟩ := exists_marked bytes
    rw [decode, hmarked.detect_eq] at hfault
    simp only [List.drop_left] at hfault
    have hfirst := decodeBody_eq_error_iff.1 ⟨fault, hfault, rfl⟩
    exact ⟨encoding, mark, body, _, rfl, hmarked, hfirst, rfl⟩
  · rintro ⟨encoding, mark, body, text, rfl, hmarked, hfirst, rfl⟩
    obtain ⟨fault, hfault, rfl⟩ := decodeBody_eq_error_iff.2 hfirst
    refine ⟨fault, ?_, rfl⟩
    rw [decode, hmarked.detect_eq]
    simpa only [List.drop_left] using hfault

/-- A high surrogate in front of a pair has no partner. -/
example : decodeNamed "name" [0xff, 0xfe, 0x01, 0xd8, 0x00, 0xd8, 0x00, 0xdc] =
    .error (.cannotRead "name" "unpaired surrogate 0xD801") := rfl

end LarkCheck.Source
