import Mathlib.Data.List.Lex
import Mathlib.Tactic.SplitIfs

/-!
Texts as bytes. Of two characters the one with the larger number has the larger byte where their bytes in UTF-8 first
differ, so texts are in the same order as their bytes.
-/
namespace Reckoner.Text

/-- The bytes of a text in UTF-8. -/
def bytes (s : String) : List UInt8 :=
  s.toByteArray.data.toList

/-- Bytes that are made for numbers grow with these at the first place where they differ, whatever is behind them. -/
private def Climbs (make : Nat → List UInt8) (limit : Nat) : Prop :=
  ∀ m n xs ys, m < n → n < limit → List.Lex (· < ·) (make m ++ xs) (make n ++ ys)

variable {make : Nat → List UInt8} {limit : Nat} {c d : Char} {cs ds : List Char} {xs ys : List UInt8}

private theorem ofNat_lt {m n : Nat} (less : m < n) (small : n < 256) : UInt8.ofNat m < UInt8.ofNat n := by
  rw [UInt8.lt_iff_toNat_lt, UInt8.toNat_ofNat', UInt8.toNat_ofNat']
  omega

/-- The first byte has a mark added to it. -/
private theorem climbs_first (mark : Nat) (fits : mark + limit ≤ 256) :
    Climbs (fun m => [UInt8.ofNat (m % limit + mark)]) limit := by
  intro m n xs ys less small
  refine .rel (ofNat_lt ?_ ?_) <;> rw [Nat.mod_eq_of_lt small]
  · rw [Nat.mod_eq_of_lt (Nat.lt_trans less small)]
    omega
  · omega

/-- Each further byte is for a place to the base 64. -/
private theorem Climbs.place (climbs : Climbs make limit) :
    Climbs (fun m => make (m / 64) ++ [UInt8.ofNat (m % 64 + 128)]) (limit * 64) := by
  intro m n xs ys less small
  rw [List.append_assoc, List.append_assoc]
  rcases Nat.lt_or_eq_of_le (Nat.div_le_div_right (c := 64) less.le) with front | front
  · exact climbs _ _ _ _ front (by omega)
  · rw [front]
    exact .append_left _ (.rel (ofNat_lt (by omega) (by omega))) _

/-- The bytes of the character with this number. -/
private def encode (n : Nat) : List UInt8 :=
  if n ≤ 0x7f then [UInt8.ofNat n]
  else if n ≤ 0x7ff then [UInt8.ofNat (n / 64 % 32 + 0xc0), UInt8.ofNat (n % 64 + 0x80)]
  else if n ≤ 0xffff then
    [UInt8.ofNat (n / 4096 % 16 + 0xe0), UInt8.ofNat (n / 64 % 64 + 0x80), UInt8.ofNat (n % 64 + 0x80)]
  else
    [UInt8.ofNat (n / 262144 % 8 + 0xf0), UInt8.ofNat (n / 4096 % 64 + 0x80), UInt8.ofNat (n / 64 % 64 + 0x80),
      UInt8.ofNat (n % 64 + 0x80)]

private theorem climbs_encode : Climbs encode 0x110000 := by
  intro m n xs ys less small
  have two := (@climbs_first 32 0xc0 (by decide)).place m n xs ys less
  have three := (@climbs_first 16 0xe0 (by decide)).place.place m n xs ys less
  have four := (@climbs_first 8 0xf0 (by decide)).place.place.place m n xs ys less
  simp only [Nat.div_div_eq_div_mul, Nat.reduceMul, List.cons_append, List.nil_append] at two three four
  unfold encode
  -- Characters of different sizes differ in the first byte already.
  split_ifs <;> first
    | omega
    | exact two (by omega)
    | exact three (by omega)
    | exact four (by omega)
    | exact .rel (ofNat_lt (by omega) (by omega))

private theorem toNat_lt (c : Char) : c.toNat < 0x110000 := by
  have valid := c.valid
  simp only [UInt32.isValidChar, Nat.isValidChar] at valid
  change c.val.toNat < _
  omega

private theorem lex_append_iff (front : List UInt8) :
    List.Lex (· < ·) (front ++ xs) (front ++ ys) ↔ xs.Lex (· < ·) ys := by
  induction front with
  | nil => rfl
  | cons byte front ih => rw [List.cons_append, List.cons_append, List.lex_cons_iff, ih]

/-- Bytes behind different characters do not matter, and bytes of the same characters in front do not either. -/
private theorem lex_flatMap_iff : (cs.flatMap String.utf8EncodeChar).Lex (· < ·) (ds.flatMap String.utf8EncodeChar) ↔
    cs.Lex (fun c d => c.toNat < d.toNat) ds := by
  induction cs generalizing ds with
  | nil =>
    cases ds with
    | nil => exact ⟨nofun, nofun⟩
    | cons d ds =>
      obtain ⟨byte, more, begins⟩ := List.exists_cons_of_ne_nil (@String.utf8EncodeChar_ne_nil d)
      rw [List.flatMap_cons, begins]
      exact ⟨fun _ => .nil, fun _ => .nil⟩
  | cons c cs ih =>
    cases ds with
    | nil =>
      rw [List.flatMap_nil]
      exact iff_of_false List.not_lex_nil List.not_lex_nil
    | cons d ds =>
      rw [List.flatMap_cons, List.flatMap_cons, List.cons_lex_cons_iff]
      rcases Nat.lt_trichotomy c.toNat d.toNat with less | same | more
      · exact ⟨fun _ => .inl less, fun _ => climbs_encode _ _ _ _ less (toNat_lt d)⟩
      · obtain rfl := Char.toNat_inj.mp same
        rw [lex_append_iff, ih]
        exact ⟨fun rest => .inr ⟨rfl, rest⟩, fun h => (h.resolve_left (Nat.lt_irrefl _)).2⟩
      · refine ⟨fun less => ?_, ?_⟩
        · exact absurd less (Std.Asymm.asymm _ _ (climbs_encode _ _ _ _ more (toNat_lt c)))
        · rintro (less | ⟨rfl, -⟩)
          · exact absurd less (Nat.lt_asymm more)
          · exact absurd more (Nat.lt_irrefl _)

/-- The text with the smaller bytes is the one with the smaller characters. -/
theorem lex_bytes_iff {s t : String} :
    (bytes s).Lex (· < ·) (bytes t) ↔ s.toList.Lex (fun c d => c.toNat < d.toNat) t.toList := by
  have written (s : String) : bytes s = s.toList.flatMap String.utf8EncodeChar := by
    rw [bytes, ← String.utf8Encode_toList, List.utf8Encode, List.toList_data_toByteArray]
  rw [written, written, lex_flatMap_iff]

end Reckoner.Text
