import InventoryFeed.Http.Framing

/-!
# Reading a response

What a client makes of the bytes of a response. A body in chunks is read chunk by chunk: a line with a
length in hexadecimal digits, so many bytes, and the end of a line, up to the first chunk that is empty. A
bare body has no end of its own: it is whole if it is a JSON text.
-/

namespace InventoryFeed.Http

/-- What follows the end of a line at the front. -/
def afterLineEnd? : List UInt8 → Option (List UInt8)
  | 13 :: 10 :: rest => some rest
  | _ => none

/-- The length that a line states. -/
def lengthOf? (line : List UInt8) : Option Nat :=
  let digits := line.map fun byte => Char.ofNat byte.toNat
  if digits ≠ [] ∧ digits.all Json.isHexDigit then some (Ascii.ofDigits 16 digits) else none

/-- Whether a byte does not begin the end of a line. -/
def isInLine (byte : UInt8) : Bool := byte != 13

/-- The bytes of the chunk at the front, and what follows it. -/
def readChunk (wire : List UInt8) : Option (List UInt8 × List UInt8) := do
  let length ← lengthOf? (wire.takeWhile isInLine)
  let rest ← afterLineEnd? (wire.dropWhile isInLine)
  if rest.length < length then none
  else
    let after ← afterLineEnd? (rest.drop length)
    pure (rest.take length, after)

theorem length_afterLineEnd {wire rest : List UInt8} (h : afterLineEnd? wire = some rest) :
    rest.length < wire.length := by
  unfold afterLineEnd? at h
  split at h
  · cases h
    simp only [List.length_cons]
    omega
  · cases h

theorem readChunk_eq_some {wire part after : List UInt8} :
    readChunk wire = some (part, after) ↔ ∃ rest,
      lengthOf? (wire.takeWhile isInLine) = some part.length ∧
        afterLineEnd? (wire.dropWhile isInLine) = some (part ++ rest) ∧
        afterLineEnd? rest = some after := by
  constructor
  · intro h
    simp only [readChunk, Option.bind_eq_bind, Option.bind_eq_some_iff] at h
    obtain ⟨length, hlength, rest, hrest, h⟩ := h
    split at h
    · cases h
    · rename_i hlong
      obtain ⟨after', hafter, hpart⟩ := Option.bind_eq_some_iff.mp h
      cases hpart
      refine ⟨rest.drop length, ?_, ?_, hafter⟩
      · rw [hlength, List.length_take, Nat.min_eq_left (Nat.le_of_not_lt hlong)]
      · rw [hrest, List.take_append_drop]
  · rintro ⟨rest, hlength, hrest, hafter⟩
    have hlong : ¬(part ++ rest).length < part.length := by simp
    simp [readChunk, hlength, hrest, hafter]

theorem length_of_readChunk {wire part after : List UInt8} (h : readChunk wire = some (part, after)) :
    after.length < wire.length := by
  obtain ⟨rest, -, hrest, hafter⟩ := readChunk_eq_some.mp h
  have hline := length_afterLineEnd hrest
  have hend := length_afterLineEnd hafter
  have hdrop := (List.dropWhile_suffix isInLine (l := wire)).length_le
  rw [List.length_append] at hline
  omega

/-- The body in chunks at the front, up to the first chunk that is empty, and what follows it. -/
def readChunks (wire : List UInt8) : Option (List UInt8 × List UInt8) :=
  match _h : readChunk wire with
  | none => none
  | some ([], after) => some ([], after)
  | some (part, after) => (readChunks after).map fun (more, rest) => (part ++ more, rest)
termination_by wire.length
decreasing_by exact length_of_readChunk _h

/-- The text of bytes, if they are one. -/
def textOf? (bytes : List UInt8) : Option String := String.fromUTF8? ⟨bytes.toArray⟩

/-- The body of a stream that is whole: behind its head in chunks with nothing after them, or bare. -/
def wholeBody? (framing : Framing) (wire : List UInt8) : Option (List UInt8) :=
  match framing with
  | .chunked => do
    let (body, rest) ← readChunks (← streamHead.isPrefixOf? wire)
    if rest = [] then some body else none
  | .bare => if ((textOf? wire).bind Json.Tree.read).isSome then some wire else none

end InventoryFeed.Http
