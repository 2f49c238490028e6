import Phrasebook.Digest.Sha256

/-!
# The form of digests

A digest has 32 bytes, so its hexadecimal form has 64 digits, all of them in lower case
(`hexDigest_length`, `isLowerHex_of_mem_hexDigest`), and a beginning of at most that length has as
many digits as are asked for.
-/

namespace Phrasebook

namespace Text

/-- A hexadecimal digit in lower case. -/
def isLowerHex (c : Char) : Bool := ('0' ≤ c && c ≤ '9') || ('a' ≤ c && c ≤ 'f')

theorem isLowerHex_hexDigit {n : Nat} (h : n < 16) : isLowerHex (hexDigit n) = true := by
  have all : ∀ n < 16, isLowerHex (hexDigit n) = true := by decide
  exact all n h

end Text

namespace Digest

theorem bigEndian_length (k n : Nat) : (bigEndian k n).length = k := by
  induction k generalizing n with
  | zero => rfl
  | succ k ih => simp [bigEndian, ih]

theorem digest_length (message : List UInt8) : (digest message).length = 32 := by
  simp [digest, Registers.words, bigEndian_length]

theorem hexDigest_length (s : String) : (hexDigest s).length = 64 := by
  simp [hexDigest, List.length_flatMap, digest_length, List.map_const']

theorem isLowerHex_of_mem_hexDigest {s : String} {c : Char} (h : c ∈ hexDigest s) :
    Text.isLowerHex c = true := by
  unfold hexDigest at h
  obtain ⟨b, -, hc⟩ := List.mem_flatMap.mp h
  have hb : b.toNat < 256 := b.toNat_lt
  rcases List.mem_cons.mp hc with rfl | hc
  · exact Text.isLowerHex_hexDigit (by omega)
  · rcases List.mem_singleton.mp hc with rfl
    exact Text.isLowerHex_hexDigit (by omega)

theorem truncated_length (s : String) {length : Nat} (h : length ≤ 64) :
    (truncated s length).toList.length = length := by
  simp [truncated, hexDigest_length, h]

theorem isLowerHex_of_mem_truncated {s : String} {length : Nat} {c : Char}
    (h : c ∈ (truncated s length).toList) : Text.isLowerHex c = true := by
  have hc : c ∈ (hexDigest s).take length := by simpa [truncated] using h
  exact isLowerHex_of_mem_hexDigest (List.mem_of_mem_take hc)

end Digest

end Phrasebook
