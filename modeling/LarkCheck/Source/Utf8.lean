import LarkCheck.Source.Scalar

/-!
# UTF-8

A character takes one to four bytes: a lead byte that tells how many, and tails of
six bits each. No character may take more bytes than it needs. Decoding gives the
characters, or the bytes from the first malformed sequence on.
-/

namespace LarkCheck.Source.Utf8

def isTail (b : UInt8) : Bool :=
  0x80 ≤ b && b < 0xc0

/-- Appends the bits of so many tails to a number. -/
def tails? : Nat → Nat → List UInt8 → Option (Nat × List UInt8)
  | 0, bits, rest => some (bits, rest)
  | _ + 1, _, [] => none
  | count + 1, bits, b :: rest =>
    if isTail b then tails? count (bits * 64 + (b.toNat - 0x80)) rest else none

/-- The character after a lead byte with so many tails, if its number is at least `least`. -/
def longChar? (count bits least : Nat) (rest : List UInt8) : Option (Char × List UInt8) :=
  match tails? count bits rest with
  | some (n, rest) => if least ≤ n then (scalar? n).map (·, rest) else none
  | none => none

/-- The character at the front of some bytes, and the bytes after it. -/
def char? : List UInt8 → Option (Char × List UInt8)
  | [] => none
  | b :: rest =>
    let lead := b.toNat
    if lead < 0x80 then (scalar? lead).map (·, rest)
    else if lead < 0xc0 then none
    else if lead < 0xe0 then longChar? 1 (lead - 0xc0) 0x80 rest
    else if lead < 0xf0 then longChar? 2 (lead - 0xe0) 0x800 rest
    else if lead < 0xf8 then longChar? 3 (lead - 0xf0) 0x10000 rest
    else none

theorem tails?_length {count bits n : Nat} {bytes rest : List UInt8}
    (h : tails? count bits bytes = some (n, rest)) : rest.length ≤ bytes.length := by
  fun_induction tails? count bits bytes with
  | case1 => cases h; exact Nat.le_refl _
  | case2 => cases h
  | case3 _ _ _ _ _ ih => exact Nat.le_succ_of_le (ih h)
  | case4 => cases h

theorem longChar?_length {count bits least : Nat} {c : Char} {bytes rest : List UInt8}
    (h : longChar? count bits least bytes = some (c, rest)) : rest.length ≤ bytes.length := by
  unfold longChar? at h
  split at h
  · rename_i n rest' htails
    split at h
    · obtain ⟨_, _, heq⟩ := Option.map_eq_some_iff.1 h
      cases heq
      exact tails?_length htails
    · cases h
  · cases h

theorem char?_length {c : Char} {bytes rest : List UInt8} (h : char? bytes = some (c, rest)) :
    rest.length < bytes.length := by
  unfold char? at h
  split at h
  · cases h
  · rw [List.length_cons]
    dsimp only at h
    repeat' split at h
    all_goals first
      | exact Nat.lt_succ_of_le (longChar?_length h)
      | cases h
      | (obtain ⟨_, _, heq⟩ := Option.map_eq_some_iff.1 h; cases heq; exact Nat.lt_succ_self _)

/-- The characters of some bytes, or what begins with the first malformed sequence. -/
def decode (bytes : List UInt8) : Except (List UInt8) (List Char) :=
  match _h : char? bytes with
  | some (c, rest) => (decode rest).map (c :: ·)
  | none => if bytes.isEmpty then .ok [] else .error bytes
termination_by bytes.length
decreasing_by exact char?_length _h

end LarkCheck.Source.Utf8
