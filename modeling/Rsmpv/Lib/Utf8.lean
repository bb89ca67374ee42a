import Mathlib.Data.List.TakeWhile
import Mathlib.Data.Nat.Notation

/-!
# C Strings and UTF-8

Strings of a language whose strings are UTF-8, passed through C and back. A C string is
read up to its first NUL byte (`cstrBytes`), and its bytes are decoded lossily
(`fromUtf8Lossy`): valid UTF-8 is the string it encodes, and otherwise each maximal
prefix of a character that breaks off becomes one U+FFFD. What the two directions have in
common is that a string without a NUL survives the trip (`fromUtf8Lossy_bytes`,
`cstrBytes_terminated`), and that what was read has no NUL (`zero_notMem_fromUtf8Lossy`,
`zero_notMem_of_cstrBytes`).
-/

namespace Utf8

/-- The UTF-8 bytes of a string. -/
def bytes (s : String) : List UInt8 := s.toUTF8.data.toList

/-- A byte inside a character. -/
def isContinuation (b : UInt8) : Bool := b &&& 0xC0 == 0x80

/-- A first byte of three, with a second byte it allows. -/
def isThreeByteStart (b₀ b₁ : UInt8) : Bool :=
  (b₀ == 0xE0 && 0xA0 ≤ b₁ && b₁ ≤ 0xBF) ||
  (0xE1 ≤ b₀ && b₀ ≤ 0xEC && 0x80 ≤ b₁ && b₁ ≤ 0xBF) ||
  (b₀ == 0xED && 0x80 ≤ b₁ && b₁ ≤ 0x9F) ||
  (0xEE ≤ b₀ && b₀ ≤ 0xEF && 0x80 ≤ b₁ && b₁ ≤ 0xBF)

/-- A first byte of four, with a second byte it allows. -/
def isFourByteStart (b₀ b₁ : UInt8) : Bool :=
  (b₀ == 0xF0 && 0x90 ≤ b₁ && b₁ ≤ 0xBF) ||
  (0xF1 ≤ b₀ && b₀ ≤ 0xF3 && 0x80 ≤ b₁ && b₁ ≤ 0xBF) ||
  (b₀ == 0xF4 && 0x80 ≤ b₁ && b₁ ≤ 0x8F)

/-- The length of the broken character at the head of bytes that start with none: the
bytes one replacement character stands for. -/
def brokenLength : List UInt8 → ℕ
  | b₀ :: b₁ :: rest =>
    if isThreeByteStart b₀ b₁ then 2
    else if isFourByteStart b₀ b₁ then
      match rest with
      | b₂ :: _ => if isContinuation b₂ then 3 else 2
      | [] => 2
    else 1
  | _ => 1

/-- A broken sequence has a byte, so decoding makes progress. -/
theorem brokenLength_pos (l : List UInt8) : 0 < brokenLength l := by
  unfold brokenLength
  repeat' split
  all_goals decide

/-- Decode character by character, one U+FFFD for each broken one. -/
def replaceBroken : List UInt8 → List Char
  | [] => []
  | b :: rest =>
    match (b :: rest).toByteArray.utf8DecodeChar? 0 with
    | some c => c :: replaceBroken ((b :: rest).drop c.utf8Size)
    | none => '\uFFFD' :: replaceBroken ((b :: rest).drop (brokenLength (b :: rest)))
termination_by l => l.length
decreasing_by
  · have := c.utf8Size_pos
    simp only [List.length_drop, List.length_cons]
    omega
  · have := brokenLength_pos (b :: rest)
    simp only [List.length_drop, List.length_cons]
    omega

/-- Lossy decoding. -/
def fromUtf8Lossy (l : List UInt8) : String :=
  match String.fromUTF8? l.toByteArray with
  | some s => s
  | none => String.ofList (replaceBroken l)

/-- The bytes of a string are those of its `ByteArray`. -/
theorem bytes_toByteArray (s : String) : (bytes s).toByteArray = s.toByteArray := by
  apply ByteArray.ext
  simp [bytes, String.toUTF8_eq_toByteArray]

/-- Lossy decoding is the identity on valid UTF-8. -/
@[simp] theorem fromUtf8Lossy_bytes (s : String) : fromUtf8Lossy (bytes s) = s := by
  rw [fromUtf8Lossy, bytes_toByteArray, String.fromUTF8?, dif_pos s.isValidUTF8]
  rfl

/-- What a C string reader finds in memory that holds `mem`: the bytes before the first
NUL, if there is one. -/
def cstrBytes (mem : List UInt8) : Option (List UInt8) :=
  if 0 ∈ mem then some (mem.takeWhile (· ≠ 0)) else none

/-- A terminated string without a NUL is read back. -/
theorem cstrBytes_terminated {l : List UInt8} (h : 0 ∉ l) :
    cstrBytes (l ++ [0]) = some l := by
  have hne : ∀ b ∈ l, b ≠ 0 := fun b hb hz => h (hz ▸ hb)
  rw [cstrBytes, if_pos (by simp), List.takeWhile_append_of_pos (by simpa using hne)]
  simp

/-! ### No NUL is made up -/

/-- The bytes of a string of characters are the encodings of the characters. -/
theorem bytes_ofList (cs : List Char) :
    bytes (String.ofList cs) = cs.flatMap String.utf8EncodeChar := by
  simp [bytes, String.toUTF8_eq_toByteArray, List.utf8Encode]

/-- A character that was decoded is encoded by bytes of its source. -/
theorem mem_of_mem_encode {l : List UInt8} {c : Char}
    (h : l.toByteArray.utf8DecodeChar? 0 = some c) {b : UInt8}
    (hb : b ∈ String.utf8EncodeChar c) : b ∈ l := by
  obtain ⟨rest, hrest⟩ := ByteArray.exists_of_utf8DecodeChar?_eq_some h
  have hdata := congrArg (fun a : ByteArray => a.data.toList) hrest
  simp at hdata
  rw [hdata]
  exact List.mem_append_left _ hb

/-- Replacing broken sequences brings in no NUL. -/
theorem zero_notMem_replaceBroken {l : List UInt8} (h : 0 ∉ l) {c : Char}
    (hc : c ∈ replaceBroken l) : 0 ∉ String.utf8EncodeChar c := by
  induction l using replaceBroken.induct with
  | case1 => simp [replaceBroken] at hc
  | case2 b rest d hd ih =>
      rw [replaceBroken, hd] at hc
      obtain rfl | hrest := List.mem_cons.mp hc
      · exact fun hz => h (mem_of_mem_encode hd hz)
      · exact ih (fun hz => h (List.mem_of_mem_drop hz)) hrest
  | case3 b rest hd ih =>
      rw [replaceBroken, hd] at hc
      obtain rfl | hrest := List.mem_cons.mp hc
      · decide
      · exact ih (fun hz => h (List.mem_of_mem_drop hz)) hrest

/-- Lossy decoding brings no NUL into a string. -/
theorem zero_notMem_fromUtf8Lossy {l : List UInt8} (h : 0 ∉ l) :
    0 ∉ bytes (fromUtf8Lossy l) := by
  rw [fromUtf8Lossy]
  cases hs : String.fromUTF8? l.toByteArray with
  | some s =>
      unfold String.fromUTF8? at hs
      split at hs
      · obtain rfl := Option.some.inj hs
        have hl : bytes (String.fromUTF8 l.toByteArray ‹_›) = l := by
          change l.toByteArray.data.toList = l
          simp
        rwa [hl]
      · cases hs
  | none =>
      simp only
      rw [bytes_ofList]
      intro hz
      obtain ⟨c, hc, hzero⟩ := List.mem_flatMap.mp hz
      exact zero_notMem_replaceBroken h hc hzero

/-- What is read from a C string has no NUL. -/
theorem zero_notMem_of_cstrBytes {mem l : List UInt8} (h : cstrBytes mem = some l) : 0 ∉ l := by
  rw [cstrBytes] at h
  split at h
  · obtain rfl := Option.some.inj h
    intro hz
    simpa using List.mem_takeWhile_imp hz
  · cases h

end Utf8
