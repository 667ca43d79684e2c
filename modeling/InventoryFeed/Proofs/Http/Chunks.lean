import InventoryFeed.Proofs.Http.Bytes
import InventoryFeed.Proofs.Text.Digits

/-!
# Chunks read back

A chunk that was made is read as its bytes, whatever they are and whatever follows. What is read from the
first part of some bytes is read from all of them, so a body of which the last chunk is missing is never
taken for a whole one.
-/

namespace InventoryFeed.Http

theorem hexValue_sizeDigit : ∀ n < 16, Ascii.hexValue? (sizeDigit n) = some n := by decide

theorem isHexDigit_sizeDigit : ∀ n < 16, Json.isHexDigit (sizeDigit n) = true := by decide

/-- Every digit of a length is one. -/
theorem mem_sizeDigits (n : Nat) (rest : List Char) (hrest : ∀ c ∈ rest, ∃ k < 16, c = sizeDigit k) :
    ∀ c ∈ sizeDigits n rest, ∃ k < 16, c = sizeDigit k := by
  induction n using Nat.strongRecOn generalizing rest with
  | ind n ih =>
    rw [sizeDigits]
    split
    · rename_i hn
      exact List.forall_mem_cons.mpr ⟨⟨n, hn, rfl⟩, hrest⟩
    · rename_i hn
      refine ih (n / 16) (by omega) _ ?_
      exact List.forall_mem_cons.mpr ⟨⟨n % 16, by omega, rfl⟩, hrest⟩

/-- The digits of a length stand for it. -/
theorem ofDigits_sizeDigits (n : Nat) : Ascii.ofDigits 16 (sizeDigits n []) = n := by
  suffices hfrom : ∀ rest, Ascii.ofDigits 16 (sizeDigits n rest) =
      rest.foldl (fun n c => n * 16 + (Ascii.hexValue? c).getD 0) n from hfrom []
  induction n using Nat.strongRecOn with
  | ind n ih =>
    intro rest
    rw [sizeDigits]
    split
    · rename_i hn
      rw [Ascii.ofDigits, List.foldl_cons, hexValue_sizeDigit n hn]
      simp
    · rename_i hn
      rw [ih (n / 16) (by omega), List.foldl_cons, hexValue_sizeDigit (n % 16) (by omega),
        Option.getD_some, Nat.div_add_mod']

theorem sizeDigits_ne_nil (n : Nat) (rest : List Char) : sizeDigits n rest ≠ [] := by
  induction n using Nat.strongRecOn generalizing rest with
  | ind n ih =>
    rw [sizeDigits]
    split
    · exact List.cons_ne_nil _ _
    · exact ih (n / 16) (by omega) _

theorem utf8EncodeChar_sizeDigit :
    ∀ n < 16, String.utf8EncodeChar (sizeDigit n) = [UInt8.ofNat (sizeDigit n).toNat] ∧
      isInLine (UInt8.ofNat (sizeDigit n).toNat) = true ∧
      Char.ofNat (UInt8.ofNat (sizeDigit n).toNat).toNat = sizeDigit n := by
  decide

/-- The bytes of a length are its digits, one byte each. -/
theorem bytes_digits {digits : List Char} (h : ∀ c ∈ digits, ∃ k < 16, c = sizeDigit k) :
    (bytes digits).map (fun byte => Char.ofNat byte.toNat) = digits ∧
      ∀ byte ∈ bytes digits, isInLine byte = true := by
  induction digits with
  | nil => exact ⟨rfl, nofun⟩
  | cons c rest ih =>
    obtain ⟨k, hk, rfl⟩ := h c (.head _)
    obtain ⟨hbytes, hline, hback⟩ := utf8EncodeChar_sizeDigit k hk
    obtain ⟨hmap, hall⟩ := ih fun d hd => h d (.tail _ hd)
    have hcons : bytes (sizeDigit k :: rest) = UInt8.ofNat (sizeDigit k).toNat :: bytes rest := by
      rw [bytes_cons, hbytes]
      rfl
    rw [hcons, List.map_cons, hback, hmap]
    exact ⟨rfl, List.forall_mem_cons.mpr ⟨hline, hall⟩⟩

theorem lengthOf_sizeDigits (n : Nat) : lengthOf? (bytes (sizeDigits n [])) = some n := by
  have hdigits := mem_sizeDigits n [] nofun
  have hall : (sizeDigits n []).all Json.isHexDigit = true := by
    rw [List.all_eq_true]
    intro c hc
    obtain ⟨k, hk, rfl⟩ := hdigits c hc
    exact isHexDigit_sizeDigit k hk
  rw [lengthOf?, (bytes_digits hdigits).1, if_pos ⟨sizeDigits_ne_nil n [], hall⟩, ofDigits_sizeDigits]

theorem chunk_eq (body rest : List UInt8) :
    chunk body ++ rest = bytes (sizeDigits body.length []) ++ 13 :: 10 :: (body ++ 13 :: 10 :: rest) := by
  have hend : bytes lineEnd = [13, 10] := by decide
  rw [chunk, bytes_append, hend]
  simp

/-- A chunk is read as its bytes, whatever follows it. -/
theorem readChunk_chunk (body rest : List UInt8) :
    readChunk (chunk body ++ rest) = some (body, rest) := by
  have hline := (bytes_digits (mem_sizeDigits body.length [] nofun)).2
  have hends : ∀ more : List UInt8, (13 :: more).takeWhile isInLine = [] ∧
      (13 :: more).dropWhile isInLine = 13 :: more := fun more => ⟨rfl, rfl⟩
  rw [chunk_eq, readChunk_eq_some]
  refine ⟨13 :: 10 :: rest, ?_, ?_, rfl⟩
  · rw [List.takeWhile_append_of_pos hline, (hends _).1, List.append_nil, lengthOf_sizeDigits]
  · rw [List.dropWhile_append_of_pos hline, (hends _).2]
    rfl

theorem afterLineEnd_append {wire rest : List UInt8} (more : List UInt8)
    (h : afterLineEnd? wire = some rest) : afterLineEnd? (wire ++ more) = some (rest ++ more) := by
  unfold afterLineEnd? at h
  split at h
  · cases h
    rfl
  · cases h

/-- A line that ends within the first part of some bytes ends there in all of them. -/
theorem takeWhile_dropWhile_append {wire : List UInt8} (more : List UInt8)
    (hstop : wire.dropWhile isInLine ≠ []) :
    (wire ++ more).takeWhile isInLine = wire.takeWhile isInLine ∧
      (wire ++ more).dropWhile isInLine = wire.dropWhile isInLine ++ more := by
  constructor
  · rw [List.takeWhile_append, if_neg]
    intro hall
    have hsplit := congrArg List.length (List.takeWhile_append_dropWhile (p := isInLine) (l := wire))
    rw [List.length_append] at hsplit
    exact hstop (List.eq_nil_of_length_eq_zero (by omega))
  · rw [List.dropWhile_append, if_neg (by simpa using hstop)]

/-- A chunk that is read from the first part of some bytes is read from all of them. -/
theorem readChunk_append {wire part after : List UInt8} (more : List UInt8)
    (h : readChunk wire = some (part, after)) :
    readChunk (wire ++ more) = some (part, after ++ more) := by
  obtain ⟨rest, hlength, hrest, hafter⟩ := readChunk_eq_some.mp h
  have hstop : wire.dropWhile isInLine ≠ [] := by
    intro hnil
    rw [hnil] at hrest
    cases hrest
  obtain ⟨htake, hdrop⟩ := takeWhile_dropWhile_append more hstop
  refine readChunk_eq_some.mpr ⟨rest ++ more, by rw [htake, hlength], ?_, afterLineEnd_append more hafter⟩
  rw [hdrop, afterLineEnd_append more hrest, List.append_assoc]

theorem readChunks_of_none {wire : List UInt8} (h : readChunk wire = none) :
    readChunks wire = none := by
  rw [readChunks]
  split <;> simp_all

theorem readChunks_of_last {wire after : List UInt8} (h : readChunk wire = some ([], after)) :
    readChunks wire = some ([], after) := by
  rw [readChunks]
  split <;> simp_all

theorem readChunks_of_part {wire part after : List UInt8} (h : readChunk wire = some (part, after))
    (hpart : part ≠ []) :
    readChunks wire = (readChunks after).map fun (more, rest) => (part ++ more, rest) := by
  rw [readChunks]
  split <;> simp_all

theorem lastChunk_eq : lastChunk = chunk [] := by
  rw [chunk, List.length_nil, sizeDigits]
  rfl

/-- A body in chunks is read up to its last chunk. -/
theorem readChunks_body {parts : List (List UInt8)} (hparts : ∀ part ∈ parts, part ≠ [])
    (rest : List UInt8) :
    readChunks (parts.flatMap chunk ++ lastChunk ++ rest) = some (parts.flatten, rest) := by
  induction parts with
  | nil =>
    rw [List.flatMap_nil, List.nil_append, lastChunk_eq]
    exact readChunks_of_last (readChunk_chunk [] rest)
  | cons part parts ih =>
    have hsplit : (part :: parts).flatMap chunk ++ lastChunk ++ rest =
        chunk part ++ (parts.flatMap chunk ++ lastChunk ++ rest) := by
      simp only [List.flatMap_cons, List.append_assoc]
    rw [hsplit, readChunks_of_part (readChunk_chunk part _) (hparts part (.head _)),
      ih fun other hother => hparts other (.tail _ hother)]
    rfl

/-- A body in chunks without the last one is never read to an end, nor is any first part of it. -/
theorem readChunks_of_unended {parts : List (List UInt8)} (hparts : ∀ part ∈ parts, part ≠ [])
    {wire : List UInt8} (h : wire <+: parts.flatMap chunk) : readChunks wire = none := by
  induction parts generalizing wire with
  | nil =>
    obtain rfl : wire = [] := List.prefix_nil.mp h
    exact readChunks_of_none rfl
  | cons part parts ih =>
    cases hread : readChunk wire with
    | none => exact readChunks_of_none hread
    | some read =>
      obtain ⟨front, after⟩ := read
      -- The whole is read as its first chunk, and so is the first part of it.
      obtain ⟨more, hmore⟩ := h
      have hwhole := readChunk_append more hread
      rw [hmore, List.flatMap_cons, readChunk_chunk] at hwhole
      obtain ⟨rfl, hafter⟩ := Prod.mk.inj (Option.some.inj hwhole)
      have hnone := ih (fun other hother => hparts other (.tail _ hother)) ⟨more, hafter.symm⟩
      rw [readChunks_of_part hread (hparts part (.head _)), hnone]
      rfl

end InventoryFeed.Http
