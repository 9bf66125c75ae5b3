import LarkCheck.Source.File
import LarkCheck.Proofs.Source.Encode

/-!
# Decoding is exact

A source is decoded as the encoding that its mark tells, and then it is the mark
and the bytes of its characters. One mark begins with another, so text whose first
character is NUL cannot be marked as UTF-16 with the lower byte first; it is the
only text that does not come back from behind a mark. Without a mark only text that
begins with the character of the mark is lost.
-/

namespace LarkCheck.Source

namespace Encoding

/-- The byte order mark of an encoding. -/
def mark : Encoding → List UInt8
  | utf8 => [0xef, 0xbb, 0xbf]
  | utf16 .littleEndian => [0xff, 0xfe]
  | utf16 .bigEndian => [0xfe, 0xff]
  | utf32 .littleEndian => [0xff, 0xfe, 0x00, 0x00]
  | utf32 .bigEndian => [0x00, 0x00, 0xfe, 0xff]

theorem eq_mark_of_mem_marks {mark : List UInt8} {encoding : Encoding}
    (h : (mark, encoding) ∈ marks) : mark = encoding.mark := by
  simp only [marks, List.mem_cons, Prod.mk.injEq, List.not_mem_nil, or_false] at h
  rcases h with ⟨rfl, rfl⟩ | ⟨rfl, rfl⟩ | ⟨rfl, rfl⟩ | ⟨rfl, rfl⟩ | ⟨rfl, rfl⟩ <;> rfl

/-- In UTF-8 the mark is a character as any other. -/
theorem mark_utf8 : utf8.mark = String.utf8EncodeChar '\ufeff' := by decide

theorem encode_utf8_cons (c : Char) (cs : List Char) :
    utf8.encode (c :: cs) = String.utf8EncodeChar c ++ utf8.encode cs :=
  List.flatMap_cons

theorem mem_mark_of_ne_utf8 {encoding : Encoding} (h : encoding ≠ .utf8) :
    0xff ∈ encoding.mark := by
  rcases encoding with _ | (_ | _) | (_ | _)
  case utf8 => exact (h rfl).elim
  all_goals decide

/-- In UTF-16 with the lower byte first only NUL begins with two zeros. -/
theorem zeros_prefix_encode {cs : List Char} :
    [0, 0] <+: (utf16 .littleEndian).encode cs ↔ cs.head? = some '\x00' := by
  cases cs with
  | nil => simp [encode]
  | cons c cs =>
    have hlt := toNat_lt c
    have hunit (n : Nat) (units : List Nat) :
        [0, 0] <+: (n :: units).flatMap (ByteOrder.littleEndian.bytes 2) ↔ n % 0x10000 = 0 := by
      simp only [List.flatMap_cons, ByteOrder.bytes, lowFirst, List.cons_append, List.nil_append,
        List.cons_prefix_cons, ← UInt8.toNat_inj, UInt8.toNat_zero, UInt8.toNat_ofNat',
        Nat.reducePow, List.nil_prefix, and_true]
      omega
    have hnul : (c :: cs).head? = some '\x00' ↔ c.toNat = 0 := by
      simp [← Char.toNat_inj]
    rw [encode, List.flatMap_cons, units16, hnul]
    split <;> simp only [List.cons_append, List.nil_append, hunit] <;> omega

theorem length_encode_utf16 (order : ByteOrder) (cs : List Char) :
    ((utf16 order).encode cs).length ≤ 4 * cs.length := by
  rw [encode, length_flatMap_bytes]
  induction cs with
  | nil => exact Nat.le_refl _
  | cons c cs ih =>
    have hunits : (units16 c).length ≤ 2 := by
      unfold units16
      split <;> simp
    rw [List.flatMap_cons, List.length_append, List.length_cons]
    omega

theorem length_encode_utf32 (order : ByteOrder) (cs : List Char) :
    ((utf32 order).encode cs).length = 4 * cs.length := by
  rw [encode, length_flatMap_bytes, List.length_map]

end Encoding

/-- What is skipped is the mark of the encoding, or nothing before UTF-8. -/
theorem take_detect (bytes : List UInt8) :
    bytes.take (detect bytes).2 = (detect bytes).1.mark ∨
      (detect bytes).2 = 0 ∧ (detect bytes).1 = .utf8 := by
  unfold detect
  split
  · rename_i mark encoding hfind
    have hprefix := List.find?_some hfind
    obtain ⟨body, rfl⟩ := List.isPrefixOf_iff_prefix.1 hprefix
    left
    rw [List.take_left]
    exact Encoding.eq_mark_of_mem_marks (List.mem_of_find?_eq_some hfind)
  · exact .inr ⟨rfl, rfl⟩

theorem detect_mark_append {encoding : Encoding} {body : List UInt8}
    (h : ¬(encoding = .utf16 .littleEndian ∧ [0, 0] <+: body)) :
    detect (encoding.mark ++ body) = (encoding, encoding.mark.length) := by
  rcases encoding with _ | (_ | _) | (_ | _)
  case utf16.littleEndian =>
    have hlong : [0xff, 0xfe, 0x00, 0x00].isPrefixOf (0xff :: 0xfe :: body) = false := by
      rw [Bool.eq_false_iff, Ne, List.isPrefixOf_iff_prefix]
      simpa using h
    simp only [detect, marks, Encoding.mark, List.cons_append, List.nil_append, List.find?_cons,
      hlong]
    rfl
  all_goals rfl

/-- Bytes are the mark of an encoding and what it encodes, or have no mark at the front and are
UTF-8. Where two zeros follow it, the mark of UTF-16 with the lower byte first is the beginning of
a longer one. -/
inductive Marked : (encoding : Encoding) → (mark body : List UInt8) → Prop
  | behind {encoding : Encoding} {body : List UInt8}
    (h : ¬(encoding = .utf16 .littleEndian ∧ [0, 0] <+: body)) :
    Marked encoding encoding.mark body
  | bare {body : List UInt8} (h : ∀ encoding : Encoding, ¬encoding.mark <+: body) :
    Marked .utf8 [] body

theorem Marked.detect_eq {encoding : Encoding} {mark body : List UInt8}
    (h : Marked encoding mark body) : detect (mark ++ body) = (encoding, mark.length) := by
  cases h with
  | behind h => exact detect_mark_append h
  | bare h =>
    rw [List.nil_append, detect]
    split
    · rename_i mark encoding hfind
      have hprefix := List.find?_some hfind
      rw [List.isPrefixOf_iff_prefix,
        Encoding.eq_mark_of_mem_marks (List.mem_of_find?_eq_some hfind)] at hprefix
      exact absurd hprefix (h encoding)
    · rfl

theorem exists_marked (bytes : List UInt8) :
    ∃ encoding mark body, bytes = mark ++ body ∧ Marked encoding mark body := by
  by_cases hmark : ∃ encoding : Encoding, encoding.mark <+: bytes
  · obtain ⟨encoding, body, rfl⟩ := hmark
    by_cases hzeros : encoding = .utf16 .littleEndian ∧ [0, 0] <+: body
    · obtain ⟨rfl, rest, rfl⟩ := hzeros
      exact ⟨.utf32 .littleEndian, _, rest, rfl, .behind (by simp)⟩
    · exact ⟨encoding, _, body, rfl, .behind hzeros⟩
  · exact ⟨.utf8, [], bytes, rfl, .bare (not_exists.1 hmark)⟩

/-- The highest byte stands in every other mark, but in no character of UTF-8. -/
theorem not_mem_utf8EncodeChar (c : Char) : 0xff ∉ String.utf8EncodeChar c := by
  have hlt := toNat_lt c
  have hne (n : Nat) (hn : n < 0xff) : (0xff : UInt8) ≠ UInt8.ofNat n := by
    rw [Ne, Utf8.eq_ofNat_iff (Nat.lt_succ_of_lt hn)]
    exact (Nat.ne_of_lt hn).symm
  rw [Utf8.utf8EncodeChar_eq]
  split_ifs <;> simp only [Utf8.tails, List.mem_cons, List.not_mem_nil, or_false, not_or]
  · exact hne _ (by omega)
  · exact ⟨hne _ (by omega), hne _ (by omega)⟩
  · exact ⟨hne _ (by omega), hne _ (by omega), hne _ (by omega)⟩
  · exact ⟨hne _ (by omega), hne _ (by omega), hne _ (by omega), hne _ (by omega)⟩

/-- Without a mark UTF-8 is told by the lack of one. -/
theorem detect_encode_utf8 {cs : List Char} (h : cs.head? ≠ some '\ufeff') :
    detect (Encoding.utf8.encode cs) = (.utf8, 0) := by
  rcases take_detect (Encoding.utf8.encode cs) with hmark | ⟨hzero, hutf8⟩
  · exfalso
    obtain ⟨encoding, hencoding⟩ : ∃ encoding, (detect (Encoding.utf8.encode cs)).1 = encoding :=
      ⟨_, rfl⟩
    have hsplit := List.take_append_drop (detect (Encoding.utf8.encode cs)).2
      (Encoding.utf8.encode cs)
    rw [hmark, hencoding] at hsplit
    by_cases hutf8 : encoding = .utf8
    · rw [hutf8, Encoding.mark_utf8] at hsplit
      have hchar := Utf8.char?_eq_some.2 hsplit.symm
      cases cs with
      | nil => simp [Encoding.encode, Utf8.char?] at hchar
      | cons c cs =>
        rw [Utf8.char?_eq_some.2 (Encoding.encode_utf8_cons c cs)] at hchar
        cases hchar
        exact h rfl
    · have hmem : 0xff ∈ Encoding.utf8.encode cs := by
        rw [← hsplit]
        exact List.mem_append_left _ (Encoding.mem_mark_of_ne_utf8 hutf8)
      obtain ⟨c, -, hc⟩ := List.mem_flatMap.1 hmem
      exact not_mem_utf8EncodeChar c hc
  · exact Prod.ext hutf8 hzero

theorem decode_eq_ok {bytes : List UInt8} {cs : List Char} :
    decode bytes = .ok cs ↔
      bytes = bytes.take (detect bytes).2 ++ (detect bytes).1.encode cs := by
  have hdecode : decode bytes = .ok cs ↔
      bytes.drop (detect bytes).2 = (detect bytes).1.encode cs := decodeBody_eq_ok
  rw [hdecode]
  constructor
  · intro h
    rw [← h, List.take_append_drop]
  · intro h
    have hsplit := (List.take_append_drop (detect bytes).2 bytes).trans h
    exact List.append_cancel_left hsplit

theorem decode_mark_append {encoding : Encoding} {cs : List Char} :
    decode (encoding.mark ++ encoding.encode cs) = .ok cs ↔
      ¬(encoding = .utf16 .littleEndian ∧ cs.head? = some '\x00') := by
  rw [decode_eq_ok]
  constructor
  · rintro h ⟨rfl, hnul⟩
    -- what comes back was read as UTF-32, and has fewer characters
    obtain ⟨body, hbody⟩ := Encoding.zeros_prefix_encode.2 hnul
    have hlength := congrArg List.length h
    have hdetect : detect ((Encoding.utf16 .littleEndian).mark ++
        (Encoding.utf16 .littleEndian).encode cs) = (.utf32 .littleEndian, 4) := by
      rw [← hbody]
      rfl
    have hshort := Encoding.length_encode_utf16 .littleEndian cs
    rw [hdetect, List.length_append, List.length_append, Encoding.length_encode_utf32,
      List.length_take, List.length_append, ← hbody] at hlength
    rw [← hbody] at hshort
    simp only [Encoding.mark, List.length_append, List.length_cons, List.length_nil]
      at hlength hshort
    omega
  · intro h
    rw [detect_mark_append fun ⟨hutf16, hzeros⟩ =>
      h ⟨hutf16, Encoding.zeros_prefix_encode.1 (hutf16 ▸ hzeros)⟩, List.take_left]

theorem decode_encode_utf8 {cs : List Char} :
    decode (Encoding.utf8.encode cs) = .ok cs ↔ cs.head? ≠ some '\ufeff' := by
  rw [decode_eq_ok]
  constructor
  · rintro h hmark
    obtain ⟨cs, rfl⟩ := List.head?_eq_some_iff.1 hmark
    have hdetect : detect (Encoding.utf8.encode ('\ufeff' :: cs)) = (.utf8, 3) := by
      rw [Encoding.encode_utf8_cons, ← Encoding.mark_utf8]
      rfl
    have hlength := congrArg List.length h
    simp only [hdetect, List.length_append, List.length_take] at hlength
    have hlong : 3 ≤ (Encoding.utf8.encode ('\ufeff' :: cs)).length := by
      rw [Encoding.encode_utf8_cons, ← Encoding.mark_utf8, List.length_append]
      exact Nat.le_add_right 3 _
    omega
  · intro h
    rw [detect_encode_utf8 h]
    rfl

theorem decodeNamed_eq_error {name : String} {bytes : List UInt8} :
    (∃ fault : Fault, decodeNamed name bytes = .error (.cannotRead name fault.reason)) ↔
      ∀ cs, decode bytes ≠ .ok cs := by
  unfold decodeNamed
  cases decode bytes with
  | error fault => exact ⟨fun _ _ => nofun, fun _ => ⟨fault, rfl⟩⟩
  | ok cs => simp [Except.mapError]

/-- Decoding undoes the encodings, and nothing else is decoded. -/
theorem decode_exact :
    (∀ (encoding : Encoding) (cs : List Char),
      decode (encoding.mark ++ encoding.encode cs) = .ok cs ↔
        ¬(encoding = .utf16 .littleEndian ∧ cs.head? = some '\x00')) ∧
    (∀ cs, decode (Encoding.utf8.encode cs) = .ok cs ↔ cs.head? ≠ some '\ufeff') ∧
    ∀ bytes,
      (bytes.take (detect bytes).2 = (detect bytes).1.mark ∨
        (detect bytes).2 = 0 ∧ (detect bytes).1 = .utf8) ∧
      (∀ cs, decode bytes = .ok cs ↔
        bytes = bytes.take (detect bytes).2 ++ (detect bytes).1.encode cs) ∧
      ∀ name, (∃ fault : Fault, decodeNamed name bytes = .error (.cannotRead name fault.reason)) ↔
        ∀ cs, bytes ≠ bytes.take (detect bytes).2 ++ (detect bytes).1.encode cs := by
  refine ⟨fun _ _ => decode_mark_append, fun _ => decode_encode_utf8, fun bytes =>
    ⟨take_detect bytes, fun _ => decode_eq_ok, fun name => ?_⟩⟩
  simp only [decodeNamed_eq_error, Ne, decode_eq_ok]

end LarkCheck.Source
