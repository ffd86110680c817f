import ControlPlane.Json.Decode
import ControlPlane.Proofs.Text.Utf8
import Mathlib.Data.List.Basic

/-! # Strings that are written are read

What is written of a string is read as that string, byte by byte: an escape stands for the
byte that it was written for. Escapes also keep the string on one line, for they leave no
control character in it.
-/
namespace ControlPlane.Json

namespace Reader

theorem bind_of_ok {α β : Type} {read : Reader α} {k : α → Reader β} {bytes rest : Bytes} {a : α}
    (h : read bytes = .ok (a, rest)) : (read >>= k) bytes = k a rest := by
  change (read bytes >>= fun (a, rest) => k a rest) = k a rest
  rw [h]
  rfl

/-! ## The bytes of a string -/

section Escapes
variable {seen rest : Bytes}

theorem stringFrom_unicode {a b : UInt8} {m n : Nat} (hm : hexValue? a = some m)
    (hn : hexValue? b = some n) (hlow : m * 16 + n < 0x20) :
    stringFrom .plain seen (0x5C :: 0x75 :: 0x30 :: 0x30 :: a :: b :: rest) =
      stringFrom .plain (UInt8.ofNat (m * 16 + n) :: seen) rest := by
  have hzero : hexValue? 0x30 = some 0 := rfl
  have hchar : (Char.ofNat (m * 16 + n)).toNat = m * 16 + n := Utf8.toNat_charOfNat (by omega)
  have hbytes : String.utf8EncodeChar (Char.ofNat (m * 16 + n)) = [UInt8.ofNat (m * 16 + n)] := by
    rw [Utf8.encodeChar_of_lt (by omega), hchar]
  have hplain : unescape none (m * 16 + n) = .ok (.inl [UInt8.ofNat (m * 16 + n)]) := by
    have hl : isLowSurrogate (m * 16 + n) = false := by simp [isLowSurrogate]; omega
    have hh : isHighSurrogate (m * 16 + n) = false := by simp [isHighSurrogate]; omega
    simp [unescape, hl, hh, hbytes]
  simp [stringFrom, hzero, hm, hn, hplain]

private theorem hexValue?_hexDigit : ∀ n < 16, hexValue? (hexDigit n) = some n := by decide

/-- What is written for a byte is read as that byte. -/
theorem stringFrom_escapeByte (b : UInt8) :
    stringFrom .plain seen (escapeByte b ++ rest) = stringFrom .plain (b :: seen) rest := by
  unfold escapeByte
  split
  · next h => subst h; rfl
  split
  · next h => subst h; rfl
  split
  · next h => subst h; rfl
  split
  · next h => subst h; rfl
  split
  · next h => subst h; rfl
  split
  · next h => subst h; rfl
  split
  · next h => subst h; rfl
  split
  · next hlow =>
    have hlow : b.toNat < 0x20 := hlow
    have hvalue : b.toNat / 16 * 16 + b.toNat % 16 = b.toNat := by omega
    have hread := @stringFrom_unicode seen rest _ _ _ _
      (hexValue?_hexDigit (b.toNat / 16) (by omega))
        (hexValue?_hexDigit (b.toNat % 16) (by omega)) (by omega)
    rw [hvalue, UInt8.ofNat_toNat] at hread
    exact hread
  · next hquote hslash _ _ _ _ _ hlow => simp [stringFrom, hquote, hslash, hlow]

theorem stringFrom_escaped (bytes : Bytes) :
    stringFrom .plain seen (bytes.flatMap escapeByte ++ 0x22 :: rest) =
      .ok (seen.reverse ++ bytes, rest) := by
  induction bytes generalizing seen with
  | nil => simp [stringFrom]
  | cons b bytes ih =>
    rw [List.flatMap_cons, List.append_assoc, stringFrom_escapeByte, ih]
    simp

end Escapes

theorem stringBody_escaped (s : String) (rest : Bytes) :
    stringBody ((Utf8.encode s).flatMap escapeByte ++ 0x22 :: rest) = .ok (s, rest) := by
  simp [stringBody, stringFrom_escaped]

theorem renderString_append (s : String) (rest : Bytes) :
    renderString s ++ rest = 0x22 :: ((Utf8.encode s).flatMap escapeByte ++ 0x22 :: rest) := by
  simp [renderString]

theorem string_renderString (s : String) (rest : Bytes) :
    string (renderString s ++ rest) = .ok (s, rest) := by
  rw [renderString_append]
  exact stringBody_escaped s rest

end Reader

/-! ## Texts of one line -/

/-- A text without control characters, so without a line feed or a carriage return. -/
def OneLine (s : String) : Prop := ∀ c ∈ s.toList, 0x20 ≤ c.toNat

instance (s : String) : Decidable (OneLine s) := List.decidableBAll _ s.toList

def IsLine (bytes : Bytes) : Prop := ∃ s : String, Utf8.encode s = bytes ∧ OneLine s

namespace IsLine
variable {bytes more : Bytes}

theorem nil : IsLine [] := ⟨"", rfl, by simp [OneLine]⟩

theorem append (h : IsLine bytes) (h' : IsLine more) : IsLine (bytes ++ more) := by
  obtain ⟨s, rfl, hs⟩ := h
  obtain ⟨t, rfl, ht⟩ := h'
  refine ⟨s ++ t, Utf8.encode_append s t, fun c hc => ?_⟩
  rcases List.mem_append.1 (String.toList_append ▸ hc) with hc | hc
  · exact hs c hc
  · exact ht c hc

theorem byte {b : UInt8} (hlow : 0x20 ≤ b.toNat) (hhigh : b.toNat < 0x80) : IsLine [b] := by
  have hchar : (Char.ofNat b.toNat).toNat = b.toNat := Utf8.toNat_charOfNat (by omega)
  refine ⟨String.ofList [Char.ofNat b.toNat], ?_, by simpa [OneLine, hchar] using hlow⟩
  rw [Utf8.encode_ofList, List.flatMap_singleton, Utf8.encodeChar_of_lt (by omega), hchar,
    UInt8.ofNat_toNat]

theorem cons {b : UInt8} (hlow : 0x20 ≤ b.toNat) (hhigh : b.toNat < 0x80) (h : IsLine bytes) :
    IsLine (b :: bytes) :=
  (byte hlow hhigh).append h

theorem of_forall (h : ∀ b ∈ bytes, 0x20 ≤ b.toNat ∧ b.toNat < 0x80) : IsLine bytes := by
  induction bytes with
  | nil => exact nil
  | cons b bytes ih =>
    obtain ⟨hlow, hhigh⟩ := h b List.mem_cons_self
    exact (ih fun x hx => h x (List.mem_cons_of_mem b hx)).cons hlow hhigh

theorem flatMap {α : Type} {l : List α} {f : α → Bytes} (h : ∀ a ∈ l, IsLine (f a)) :
    IsLine (l.flatMap f) := by
  induction l with
  | nil => exact nil
  | cons a l ih =>
    rw [List.flatMap_cons]
    exact (h a List.mem_cons_self).append (ih fun x hx => h x (List.mem_cons_of_mem a hx))

private theorem ascii_escapeByte :
    ∀ n < 128, ∀ b ∈ escapeByte (UInt8.ofNat n), 0x20 ≤ b.toNat ∧ b.toNat < 0x80 := by
  decide +kernel

/-- Bytes above 127 are not escaped. -/
private theorem escapeByte_of_le {b : UInt8} (h : 0x80 ≤ b.toNat) : escapeByte b = [b] := by
  have hne (x : UInt8) (hx : x.toNat < 128) : b ≠ x := by
    rintro rfl
    omega
  have hlow : ¬ b < 0x20 := by
    intro hlt
    have hlt : b.toNat < 0x20 := hlt
    omega
  unfold escapeByte
  rw [if_neg (hne 0x22 (by decide)), if_neg (hne 0x5C (by decide)), if_neg (hne 0x08 (by decide)),
    if_neg (hne 0x09 (by decide)), if_neg (hne 0x0A (by decide)), if_neg (hne 0x0C (by decide)),
    if_neg (hne 0x0D (by decide)), if_neg hlow]

private theorem escapeChar (c : Char) : IsLine ((String.utf8EncodeChar c).flatMap escapeByte) := by
  by_cases h : c.toNat < 0x80
  · rw [Utf8.encodeChar_of_lt h, List.flatMap_singleton]
    exact of_forall (ascii_escapeByte c.toNat h)
  · have hsame : (String.utf8EncodeChar c).flatMap escapeByte = String.utf8EncodeChar c := by
      refine (List.flatMap_congr fun b hb => ?_).trans (List.flatMap_singleton' _)
      rcases Utf8.toNat_of_mem_encodeChar hb with ⟨hc, -⟩ | ⟨-, hb⟩
      · exact absurd hc h
      · exact escapeByte_of_le hb
    refine ⟨String.ofList [c], ?_, fun c' hc' => ?_⟩
    · rw [hsame, Utf8.encode_ofList, List.flatMap_singleton]
    · obtain rfl : c' = c := by simpa using hc'
      omega

theorem renderString (s : String) : IsLine (Json.renderString s) := by
  have hbody : IsLine ((Utf8.encode s).flatMap escapeByte) := by
    rw [Utf8.encode, List.flatMap_assoc]
    exact flatMap fun c _ => escapeChar c
  exact (hbody.append (byte (by decide) (by decide))).cons (by decide) (by decide)

end IsLine
end ControlPlane.Json
