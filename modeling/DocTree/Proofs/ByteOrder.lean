import DocTree.Dict

/-! The order of texts is that of their bytes in UTF-8. -/
namespace DocTree

/-- The bytes of a text in UTF-8. -/
def utf8Bytes (s : String) : List UInt8 := s.toUTF8.data.toList

theorem utf8Bytes_eq_flatMap (s : String) :
    utf8Bytes s = s.toList.flatMap String.utf8EncodeChar := by
  have hbytes (cs : List Char) :
      (String.ofList cs).toByteArray.data.toList = cs.flatMap String.utf8EncodeChar :=
    List.toList_data_toByteArray
  rw [utf8Bytes, String.toUTF8_eq_toByteArray, ← hbytes, String.ofList_toList]

/-- Numbers in base 64 are compared digit by digit. -/
theorem digits_lt {p : Prop} {a b c d a' b' c' d' : Nat} (hb : b < 64) (hc : c < 64) (hd : d < 64)
    (hb' : b' < 64) (hc' : c' < 64) (hd' : d' < 64)
    (h : 64 * (64 * (64 * a + b) + c) + d < 64 * (64 * (64 * a' + b') + c') + d') :
    a < a' ∨ a = a' ∧ (b < b' ∨ b = b' ∧ (c < c' ∨ c = c' ∧ (d < d' ∨ d = d' ∧ p))) := by
  omega

/-- The bytes of a smaller character are smaller, whatever follows. -/
theorem utf8EncodeChar_lt {c d : Char} (h : c < d) (rest more : List UInt8) :
    String.utf8EncodeChar c ++ rest < String.utf8EncodeChar d ++ more := by
  have hval : c.val.toNat < d.val.toNat := h
  have hlast : d.val.toNat < 0x110000 := by
    have hvalid := d.valid
    simp only [UInt32.isValidChar, Nat.isValidChar] at hvalid
    omega
  have htwo (n : Nat) : (n % 32 + 192) % 256 = n % 32 + 192 := by omega
  have hthree (n : Nat) : (n % 16 + 224) % 256 = n % 16 + 224 := by omega
  have hfour (n : Nat) : (n % 8 + 240) % 256 = n % 8 + 240 := by omega
  have hmore (n : Nat) : (n % 64 + 128) % 256 = n % 64 + 128 := by omega
  -- One case for each pair of lengths. The first byte decides, or with equal lengths the first
  -- digit in base 64 that differs; four bytes are too much for `omega` without `digits_lt`.
  simp only [String.utf8EncodeChar]
  generalize c.val.toNat = v at *
  generalize d.val.toNat = w at *
  repeat' split
  all_goals simp only [List.cons_append, List.nil_append, List.cons_lt_cons_iff,
    UInt8.lt_iff_toNat_lt, ← UInt8.toNat_inj, UInt8.toNat_ofNat', Nat.reducePow, htwo, hthree,
    hfour, hmore, Nat.add_lt_add_iff_right, Nat.add_right_cancel_iff]
  case isFalse.isFalse.isFalse.isFalse.isFalse.isFalse =>
    apply digits_lt <;> omega
  all_goals omega

theorem utf8Bytes_lt {s t : String} (h : s < t) : utf8Bytes s < utf8Bytes t := by
  have hbytes {cs ds : List Char} (h : cs < ds) :
      cs.flatMap String.utf8EncodeChar < ds.flatMap String.utf8EncodeChar := by
    induction h with
    | @nil d ds =>
      obtain ⟨b, bs, hd⟩ := List.exists_cons_of_ne_nil (@String.utf8EncodeChar_ne_nil d)
      rw [List.flatMap_cons, hd]
      exact .nil
    | cons _ ih => exact List.append_left_lt ih
    | rel h => exact utf8EncodeChar_lt h _ _
  rw [utf8Bytes_eq_flatMap, utf8Bytes_eq_flatMap]
  exact hbytes h

/-- One text stands before another if its bytes do. -/
theorem utf8Bytes_lt_iff {s t : String} : utf8Bytes s < utf8Bytes t ↔ s < t := by
  refine ⟨fun h => ?_, utf8Bytes_lt⟩
  refine Decidable.byContradiction fun hnot => ?_
  by_cases hback : t < s
  · exact List.lt_asymm h (utf8Bytes_lt hback)
  · rw [Dict.eq_of_not_lt hnot hback] at h
    exact List.lt_irrefl _ h

theorem utf8Bytes_le_iff {s t : String} : utf8Bytes s ≤ utf8Bytes t ↔ s ≤ t := by
  rw [← List.not_lt, ← String.not_lt, utf8Bytes_lt_iff]

end DocTree
