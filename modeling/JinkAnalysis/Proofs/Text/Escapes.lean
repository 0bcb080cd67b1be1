import JinkAnalysis.Proofs.ModulePath

/-!
# Reading back bytes and percent escapes

A text is written in UTF-8, and what does not stand for itself in a URI is written in percent
escapes. Both can be read back: the bytes of a character are read as that character, whatever
follows (`Bytes.decode_utf8EncodeChar`), and **decoding the escapes of a text gives the text**
(`Text.unescaped_escaped`). The escapes of neighbouring characters are decoded together, so the
argument goes by the runs of characters that are escaped (`Text.leadingEscapes_escaped`).
-/

namespace JinkAnalysis

namespace Bytes

/-! ### Characters as bytes -/

theorem follow_zero (low high bits : Nat) (rest : Bytes) :
    follow 0 low high bits rest = (some bits, 0) := by
  unfold follow
  rfl

/-- A byte between the bounds contributes its last six bits. -/
theorem follow_succ {more low high bits point n x : Nat} {rest : Bytes} (hx : x < 256)
    (hlow : low ≤ x) (hhigh : x ≤ high)
    (hrest : follow more 0x80 0xBF (bits * 64 + (x - 0x80)) rest = (some point, n)) :
    follow (more + 1) low high bits (UInt8.ofNat x :: rest) = (some point, n + 1) := by
  have hbyte : (UInt8.ofNat x).toNat = x := UInt8.toNat_ofNat_of_lt hx
  rw [follow, hbyte, if_pos ⟨hlow, hhigh⟩, hrest]

section

variable {x : Nat}

theorem lead?_one (hx : x < 0x80) : lead? (UInt8.ofNat x) = some ⟨0, 0, 0, x⟩ := by
  have hbyte : (UInt8.ofNat x).toNat = x := UInt8.toNat_ofNat_of_lt (show x < 256 by omega)
  rw [lead?, hbyte, if_pos hx]

theorem lead?_two (hlow : 0xC2 ≤ x) (hhigh : x < 0xE0) :
    lead? (UInt8.ofNat x) = some ⟨1, 0x80, 0xBF, x - 0xC0⟩ := by
  have hbyte : (UInt8.ofNat x).toNat = x := UInt8.toNat_ofNat_of_lt (show x < 256 by omega)
  rw [lead?, hbyte, if_neg (by omega), if_neg (by omega), if_pos hhigh]

theorem lead?_three (hlow : 0xE0 ≤ x) (hhigh : x < 0xF0) :
    lead? (UInt8.ofNat x) = some ⟨2, if x = 0xE0 then 0xA0 else 0x80,
      if x = 0xED then 0x9F else 0xBF, x - 0xE0⟩ := by
  have hbyte : (UInt8.ofNat x).toNat = x := UInt8.toNat_ofNat_of_lt (show x < 256 by omega)
  rw [lead?, hbyte, if_neg (by omega), if_neg (by omega), if_neg (by omega), if_pos hhigh]

theorem lead?_four (hlow : 0xF0 ≤ x) (hhigh : x < 0xF5) :
    lead? (UInt8.ofNat x) = some ⟨3, if x = 0xF0 then 0x90 else 0x80,
      if x = 0xF4 then 0x8F else 0xBF, x - 0xF0⟩ := by
  have hbyte : (UInt8.ofNat x).toNat = x := UInt8.toNat_ofNat_of_lt (show x < 256 by omega)
  rw [lead?, hbyte, if_neg (by omega), if_neg (by omega), if_neg (by omega), if_neg (by omega),
    if_pos hhigh]

end

/-- A character is read where its first byte and the bytes that follow say so. -/
theorem decode_of_follow {bad : Text} {byte : UInt8} {rest : Bytes} {l : Lead} {point n : Nat}
    (hlead : lead? byte = some l)
    (hfollow : follow l.more l.low l.high l.bits rest = (some point, n)) :
    decode bad (byte :: rest) = Char.ofNat point :: decode bad (rest.drop n) := by
  rw [decode, hlead]
  dsimp only
  rw [hfollow]

/-- **The bytes of a character are read as the character**, whatever follows. -/
theorem decode_utf8EncodeChar (bad : Text) (c : Char) (rest : Bytes) :
    decode bad (String.utf8EncodeChar c ++ rest) = c :: decode bad rest := by
  -- surrogates are no characters, and this is what the bounds of the second byte exclude
  have hvalid : c.val.toNat < 0xD800 ∨ 0xDFFF < c.val.toNat ∧ c.val.toNat < 0x110000 := c.valid
  suffices h : decode bad (String.utf8EncodeChar c ++ rest) =
      Char.ofNat c.val.toNat :: decode bad rest by
    rw [h, show Char.ofNat c.val.toNat = c from Char.ofNat_toNat c]
  unfold String.utf8EncodeChar
  dsimp only
  generalize c.val.toNat = v at hvalid
  split
  · exact decode_of_follow (lead?_one (by omega)) (follow_zero _ _ _ _)
  split
  · have hlast : (v / 64 % 32 + 192 - 0xC0) * 64 + (v % 64 + 128 - 0x80) = v := by omega
    refine decode_of_follow (n := 1) (lead?_two (by omega) (by omega)) ?_
    dsimp only
    refine follow_succ (by omega) (by omega) (by omega) ?_
    rw [hlast, follow_zero]
  split
  · have hlast : ((v / 4096 % 16 + 224 - 0xE0) * 64 + (v / 64 % 64 + 128 - 0x80)) * 64 +
        (v % 64 + 128 - 0x80) = v := by omega
    refine decode_of_follow (n := 2) (lead?_three (by omega) (by omega)) ?_
    dsimp only
    refine follow_succ (by omega) (by split <;> omega) (by split <;> omega) ?_
    refine follow_succ (by omega) (by omega) (by omega) ?_
    rw [hlast, follow_zero]
  · have hlast : (((v / 262144 % 8 + 240 - 0xF0) * 64 + (v / 4096 % 64 + 128 - 0x80)) * 64 +
        (v / 64 % 64 + 128 - 0x80)) * 64 + (v % 64 + 128 - 0x80) = v := by omega
    refine decode_of_follow (n := 3) (lead?_four (by omega) (by omega)) ?_
    dsimp only
    refine follow_succ (by omega) (by split <;> omega) (by split <;> omega) ?_
    refine follow_succ (by omega) (by omega) (by omega) ?_
    refine follow_succ (by omega) (by omega) (by omega) ?_
    rw [hlast, follow_zero]

/-- **A text is read back from its bytes.** -/
theorem decode_bytes (bad : Text) (t : Text) : t.bytes.decode bad = t := by
  induction t with
  | nil => rw [Text.bytes, List.flatMap_nil, decode]
  | cons c t ih => rw [Text.bytes, List.flatMap_cons, decode_utf8EncodeChar]; exact congrArg _ ih

end Bytes

/-! ### Percent escapes -/

namespace Text

/-- The percent escape of a byte. -/
def escape (b : UInt8) : Text := ['%', hexDigit (b.toNat / 16), hexDigit (b.toNat % 16)]

theorem hexValue?_hexDigit : ∀ n < 16, hexValue? (hexDigit n) = some n := by decide

/-- The escape of a byte is read as the byte. -/
theorem leadingEscapes_escape (b : UInt8) (t : Text) :
    leadingEscapes (escape b ++ t) = b :: leadingEscapes t := by
  have hlt : b.toNat < 256 := b.toNat_lt
  have hbyte : UInt8.ofNat (16 * (b.toNat / 16) + b.toNat % 16) = b := by
    rw [Nat.div_add_mod, UInt8.ofNat_toNat]
  rw [escape, List.cons_append, List.cons_append, List.cons_append, List.nil_append,
    leadingEscapes, hexValue?_hexDigit _ (by omega), hexValue?_hexDigit _ (by omega)]
  exact congrArg (· :: _) hbyte

theorem leadingEscapes_escapes (bs : Bytes) (t : Text) :
    leadingEscapes (bs.flatMap escape ++ t) = bs ++ leadingEscapes t := by
  induction bs with
  | nil => rfl
  | cons b bs ih =>
    rw [List.flatMap_cons, List.append_assoc, leadingEscapes_escape, ih, List.cons_append]

theorem length_escapes (bs : Bytes) : (bs.flatMap escape).length = 3 * bs.length := by
  induction bs with
  | nil => rfl
  | cons b bs ih =>
    rw [List.flatMap_cons, List.length_append, ih, List.length_cons]
    have hthree : (escape b).length = 3 := rfl
    omega

/-- The escapes that a text starts with are decoded together. -/
theorem unescaped_of_ne_nil {t : Text} (h : leadingEscapes t ≠ []) :
    unescaped t = (leadingEscapes t).decode ['\ufffd'] ++
      unescaped (t.drop (3 * (leadingEscapes t).length)) := by
  cases t with
  | nil => exact absurd rfl h
  | cons c t =>
    have hlength : 3 * (leadingEscapes (c :: t)).length =
        3 * (leadingEscapes (c :: t)).length - 1 + 1 := by
      have hpos := List.length_pos_iff.mpr h
      omega
    rw [unescaped, if_neg (by simpa using h), hlength, List.drop_succ_cons, Nat.add_sub_cancel]

/-- The escapes of a text are decoded to the text, where no further escape follows. -/
theorem unescaped_escapes_append (u : Text) {t : Text} (ht : leadingEscapes t = []) :
    unescaped (u.bytes.flatMap escape ++ t) = u ++ unescaped t := by
  have hbytes : leadingEscapes (u.bytes.flatMap escape ++ t) = u.bytes := by
    rw [leadingEscapes_escapes, ht, List.append_nil]
  by_cases hu : u.bytes = []
  · have hnil : u = [] := by rw [← Bytes.decode_bytes [] u, hu, Bytes.decode]
    rw [hnil]
    rfl
  · have hlength := length_escapes u.bytes
    rw [unescaped_of_ne_nil (by rwa [hbytes]), hbytes, Bytes.decode_bytes, ← hlength,
      List.drop_left]

theorem escaped_cons_of_unreserved {c : Char} (hc : isUnreserved c = true) (t : Text) :
    escaped (c :: t) = c :: escaped t := by
  rw [escaped, List.flatMap_cons, if_pos hc]
  rfl

theorem escaped_cons_of_reserved {c : Char} (hc : ¬ isUnreserved c = true) (t : Text) :
    escaped (c :: t) = (bytes [c]).flatMap escape ++ escaped t := by
  rw [escaped, List.flatMap_cons, if_neg hc, bytes, List.flatMap_singleton]
  rfl

theorem bytes_append (s t : Text) : bytes (s ++ t) = s.bytes ++ t.bytes := List.flatMap_append

theorem isUnreserved_percent : isUnreserved '%' = false := by decide

/-- What is written so far as escapes, and what is still to be written, is decoded together. -/
theorem unescaped_escapes_escaped (u t : Text) :
    unescaped (u.bytes.flatMap escape ++ escaped t) = u ++ t := by
  induction t generalizing u with
  | nil =>
    have hnil : leadingEscapes (escaped []) = [] := rfl
    rw [unescaped_escapes_append u hnil, escaped, List.flatMap_nil, unescaped]
  | cons c t ih =>
    by_cases hc : isUnreserved c = true
    · -- a character that stands for itself ends the run of escapes
      have hne : c ≠ '%' := by
        rintro rfl
        exact absurd hc (by rw [isUnreserved_percent]; exact Bool.false_ne_true)
      have hnone : ∀ r, leadingEscapes (c :: r) = [] := leadingEscapes_cons_of_ne hne
      have hrest : unescaped (escaped t) = t := ih []
      rw [escaped_cons_of_unreserved hc, unescaped_escapes_append u (hnone _),
        unescaped_cons_of_isEmpty (by rw [hnone]; rfl), hrest]
    · rw [escaped_cons_of_reserved hc, ← List.append_assoc, ← List.flatMap_append, ← bytes_append,
        ih, List.append_assoc, List.singleton_append]

/-- **Decoding the escapes of a text gives the text.** -/
theorem unescaped_escaped (t : Text) : unescaped (escaped t) = t := unescaped_escapes_escaped [] t

/-- Nothing but characters that stand for themselves, percent signs and hexadecimal digits is
written. -/
theorem mem_escaped {c : Char} {t : Text} (h : c ∈ escaped t) :
    isUnreserved c = true ∨ c = '%' := by
  have hdigit : ∀ n < 16, isUnreserved (hexDigit n) = true := by decide
  rw [escaped, List.mem_flatMap] at h
  obtain ⟨d, -, hd⟩ := h
  split at hd
  · next hunreserved =>
    obtain rfl := List.mem_singleton.mp hd
    exact .inl hunreserved
  · obtain ⟨b, -, hb⟩ := List.mem_flatMap.mp hd
    have hlt : b.toNat < 256 := b.toNat_lt
    simp only [List.mem_cons, List.not_mem_nil, or_false] at hb
    rcases hb with rfl | rfl | rfl
    · exact .inr rfl
    · exact .inl (hdigit _ (by omega))
    · exact .inl (hdigit _ (by omega))

end Text

end JinkAnalysis
