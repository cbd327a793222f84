/-
# The order of texts is that of their bytes

Texts are compared code point by code point.  A larger code point has a larger encoding, whatever
comes after either of them (`Text.utf8EncodeChar_append_lt`), so that to compare two texts is to
compare their encodings byte by byte (`Text.bytes_lt_iff`).  The encoding into units of sixteen bits
has no such property.
-/
import Mathlib.Data.String.Basic
import Mathlib.Tactic.Lemma

namespace TreeWalk.Text

/-- The bytes of the encoding of a text. -/
def bytes (s : String) : List UInt8 := s.toUTF8.data.toList

lemma bytes_eq_flatMap (s : String) : bytes s = s.toList.flatMap String.utf8EncodeChar := by
  conv => lhs; rw [← String.ofList_toList (s := s)]
  rw [bytes, String.toUTF8_eq_toByteArray, String.toByteArray_ofList, List.utf8Encode,
    List.data_toByteArray]

/-- Of two different numbers the larger one has the larger quotient, or the same one and the larger
remainder. -/
lemma div_lt_or_mod_lt {v w : Nat} (k : Nat) (h : v < w) :
    v / k < w / k ∨ v / k = w / k ∧ v % k < w % k := by
  rcases Nat.lt_or_eq_of_le (Nat.div_le_div_right (c := k) h.le) with hlt | heq
  · exact .inl hlt
  · have hv := Nat.div_add_mod v k
    have hw := Nat.div_add_mod w k
    rw [heq] at hv
    exact .inr ⟨heq, by omega⟩

/-- Two code points of which one is smaller are told apart by their encodings, and the smaller one
has the smaller encoding. -/
lemma utf8EncodeChar_append_lt {c d : Char} (h : c < d) (u v : List UInt8) :
    String.utf8EncodeChar c ++ u < String.utf8EncodeChar d ++ v := by
  have hcd : c.val.toNat < d.val.toNat := UInt32.lt_iff_toNat_lt.mp (Char.lt_def.mp h)
  have hd : d.val.toNat < 0x110000 := by
    have hvalid : d.val.toNat < 0xd800 ∨ (0xdfff < d.val.toNat ∧ d.val.toNat < 0x110000) := d.valid
    omega
  simp only [String.utf8EncodeChar]
  generalize c.val.toNat = m at *
  generalize d.val.toNat = n at *
  -- the digits of the two numbers to the base 64, from the last one on
  have hlast : m / 64 < n / 64 ∨ m / 64 = n / 64 ∧ m % 64 < n % 64 := div_lt_or_mod_lt 64 hcd
  have hthird (hlt : m / 64 < n / 64) :
      m / 4096 < n / 4096 ∨ m / 4096 = n / 4096 ∧ m / 64 % 64 < n / 64 % 64 := by
    simpa only [Nat.div_div_eq_div_mul] using div_lt_or_mod_lt 64 hlt
  have hsecond (hlt : m / 4096 < n / 4096) :
      m / 262144 < n / 262144 ∨ m / 262144 = n / 262144 ∧ m / 4096 % 64 < n / 4096 % 64 := by
    simpa only [Nat.div_div_eq_div_mul] using div_lt_or_mod_lt 64 hlt
  have hfirst : m / 262144 % 8 = m / 262144 ∧ n / 262144 % 8 = n / 262144 := by omega
  -- the encodings have one to four bytes, and a longer one begins with a larger byte
  split_ifs <;> first
    | omega
    | simp only [List.cons_append, List.nil_append, List.cons_lt_cons_iff, UInt8.lt_iff_toNat_lt,
        ← UInt8.toNat_inj, UInt8.toNat_ofNat']
      simp (disch := omega) only [Nat.mod_eq_of_lt (b := 256)]
      omega

lemma flatMap_utf8EncodeChar_lt {l l' : List Char} (h : l < l') :
    l.flatMap String.utf8EncodeChar < l'.flatMap String.utf8EncodeChar := by
  induction h with
  | nil =>
    obtain ⟨b, bs, hbytes⟩ := List.exists_cons_of_ne_nil (String.utf8EncodeChar_ne_nil (c := _))
    rw [List.flatMap_cons, hbytes]
    exact List.nil_lt_cons b _
  | rel hlt => exact utf8EncodeChar_append_lt hlt _ _
  | cons _ ih => exact List.append_left_lt ih

/-- The order of texts is that of their encodings. -/
theorem bytes_lt_iff (s t : String) : bytes s < bytes t ↔ s < t := by
  have hlt {s t : String} (h : s < t) : bytes s < bytes t := by
    rw [bytes_eq_flatMap, bytes_eq_flatMap]
    exact flatMap_utf8EncodeChar_lt (String.lt_iff.mp h)
  refine ⟨fun h => ?_, hlt⟩
  rcases lt_trichotomy s t with hst | rfl | hts
  · exact hst
  · exact absurd h (List.lt_irrefl _)
  · exact absurd h (List.lt_asymm (hlt hts))

end TreeWalk.Text
