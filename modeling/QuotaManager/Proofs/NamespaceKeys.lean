import QuotaManager.Logic.Fnv
import QuotaManager.Types

/-! Which namespaces have keys of their own. The keys are hashes, and two namespaces with
one key would share their limit and their counter on every node. Namespaces whose names
differ in a few consecutive bytes only, such as a number of four digits, never do. -/

namespace QuotaManager

def utf8Bytes (text : String) : List UInt8 := text.toUTF8.data.toList

theorem utf8Bytes_append (first last : String) : utf8Bytes (first ++ last) = utf8Bytes first ++ utf8Bytes last := by
  simp [utf8Bytes]

theorem utf8Bytes_inj {one two : String} (same : utf8Bytes one = utf8Bytes two) : one = two := by
  apply String.toByteArray_inj.mp
  simpa [utf8Bytes, ← ByteArray.ext_iff] using same

theorem length_utf8Bytes (text : String) : (utf8Bytes text).length = text.utf8ByteSize := by
  simp [utf8Bytes]

theorem namespaceKey_hash (ns : String) : namespaceKey ns = Fnv.hash 14695981039346656037 (utf8Bytes ns) := rfl

/-- Names of equal length that differ only in up to four bytes in a row have different keys. -/
theorem namespaceKey_window (first last : String) {one two : String} (lengths : one.utf8ByteSize = two.utf8ByteSize)
    (short : one.utf8ByteSize ≤ 4) :
    namespaceKey (first ++ one ++ last) = namespaceKey (first ++ two ++ last) ↔ one = two := by
  constructor
  · intro same
    simp only [namespaceKey_hash, utf8Bytes_append, List.append_assoc] at same
    rw [Fnv.hash_append _ (utf8Bytes first), Fnv.hash_append _ (utf8Bytes first)] at same
    simp only [← length_utf8Bytes] at lengths short
    exact utf8Bytes_inj (Fnv.hash_window lengths short same)
  · rintro rfl
    rfl

/-- Two tenants of ten thousand. -/
theorem namespaceKey_window_tenants :
    namespaceKey ("tenant-" ++ "0042" ++ "-prod") = namespaceKey ("tenant-" ++ "1729" ++ "-prod") ↔ "0042" = "1729" :=
  namespaceKey_window "tenant-" "-prod" (by decide +kernel) (by decide +kernel)

end QuotaManager
