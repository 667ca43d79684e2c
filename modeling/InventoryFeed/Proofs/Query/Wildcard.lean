import InventoryFeed.Query.Pattern
import InventoryFeed.Query.Wildcard
import InventoryFeed.Sql.Like

/-!
# A pattern in the store's writing

The store's pattern for a query's pattern has the same parts in the same order, so none of its escapes is
left without a character and none of its wildcards comes from anything but a wildcard. It matches what the
query's pattern matches, however characters are compared.
-/

namespace InventoryFeed

variable {same : Char → Char → Bool}

namespace Sql

/-! ## Matching by the parts of a pattern -/

/-- A percent sign matches any run of characters at the front. -/
theorem likeMatch_anyRun (pattern subject : List Char) :
    likeMatch same ('%' :: pattern) subject = true ↔
      ∃ run rest, subject = run ++ rest ∧ likeMatch same pattern rest = true := by
  induction subject with
  | nil =>
    rw [likeMatch]
    constructor
    · intro h
      exact ⟨[], [], rfl, h⟩
    · rintro ⟨run, rest, hsplit, h⟩
      obtain ⟨rfl, rfl⟩ := List.append_eq_nil_iff.mp hsplit.symm
      exact h
  | cons c subject ih =>
    rw [likeMatch, Bool.or_eq_true, ih]
    constructor
    · rintro (h | ⟨run, rest, rfl, h⟩)
      · exact ⟨[], c :: subject, rfl, h⟩
      · exact ⟨c :: run, rest, rfl, h⟩
    · rintro ⟨run, rest, hsplit, h⟩
      cases run with
      | nil => exact .inl (hsplit ▸ h)
      | cons d run =>
        obtain ⟨rfl, rfl⟩ := List.cons.inj hsplit
        exact .inr ⟨run, rest, rfl, h⟩

/-- An underscore matches one character. -/
theorem likeMatch_anyOne (pattern subject : List Char) :
    likeMatch same ('_' :: pattern) subject = true ↔
      ∃ c rest, subject = c :: rest ∧ likeMatch same pattern rest = true := by
  cases subject with
  | nil => simp [likeMatch]
  | cons c subject => simp [likeMatch, and_assoc]

/-- What is written for a character alone matches what is like that character. -/
theorem likeMatch_exactly (x : Char) (pattern subject : List Char) :
    likeMatch same (Wildcard.exactly x ++ pattern) subject = true ↔
      ∃ c rest, subject = c :: rest ∧ same x c = true ∧ likeMatch same pattern rest = true := by
  unfold Wildcard.exactly
  by_cases hx : x = '%' ∨ x = '_' ∨ x = '\\'
  · rw [if_pos hx]
    cases subject with
    | nil => simp [likeMatch]
    | cons c subject => simp [likeMatch, and_assoc]
  · rw [if_neg hx]
    simp only [not_or] at hx
    cases subject with
    | nil => simp [likeMatch, hx]
    | cons c subject => simp [likeMatch, hx, and_assoc]

/-- What is written for a character alone is read as that character. -/
theorem likePieces?_exactly (x : Char) (pattern : List Char) :
    likePieces? (Wildcard.exactly x ++ pattern) = (likePieces? pattern).map (.exactly x :: ·) := by
  unfold Wildcard.exactly
  by_cases hx : x = '%' ∨ x = '_' ∨ x = '\\'
  · rw [if_pos hx]
    simp [likePieces?]
  · rw [if_neg hx]
    simp only [not_or] at hx
    simp [likePieces?, hx]

end Sql

namespace Wildcard

/-! ## Matching by the characters of a query's pattern -/

theorem matches_nil {subject : List Char} : Matches same [] subject ↔ subject = [] := by
  constructor
  · rintro ⟨⟩
    rfl
  · rintro rfl
    exact .empty

theorem matches_anyRun {pattern subject : List Char} :
    Matches same ('*' :: pattern) subject ↔
      ∃ run rest, subject = run ++ rest ∧ Matches same pattern rest := by
  constructor
  · intro h
    cases h with
    | anyRun run rest => exact ⟨run, _, rfl, rest⟩
    | plain hx => exact absurd rfl hx.1
  · rintro ⟨run, rest, rfl, h⟩
    exact .anyRun run h

theorem matches_anyOne {pattern subject : List Char} :
    Matches same ('?' :: pattern) subject ↔ ∃ c rest, subject = c :: rest ∧ Matches same pattern rest := by
  constructor
  · intro h
    cases h with
    | anyOne c rest => exact ⟨c, _, rfl, rest⟩
    | plain hx => exact absurd rfl hx.2.1
  · rintro ⟨c, rest, rfl, h⟩
    exact .anyOne c h

theorem matches_lastBackslash {subject : List Char} :
    Matches same ['\\'] subject ↔ ∃ c rest, subject = c :: rest ∧ same '\\' c = true ∧ rest = [] := by
  constructor
  · intro h
    cases h with
    | lastBackslash alike => exact ⟨_, [], rfl, alike, rfl⟩
    | plain hx => exact absurd rfl hx.2.2
  · rintro ⟨c, rest, rfl, alike, rfl⟩
    exact .lastBackslash alike

theorem matches_escaped {x : Char} {pattern subject : List Char} :
    Matches same ('\\' :: x :: pattern) subject ↔
      ∃ c rest, subject = c :: rest ∧ same x c = true ∧ Matches same pattern rest := by
  constructor
  · intro h
    cases h with
    | escaped alike rest => exact ⟨_, _, rfl, alike, rest⟩
    | plain hx => exact absurd rfl hx.2.2
  · rintro ⟨c, rest, rfl, alike, h⟩
    exact .escaped alike h

theorem matches_plain {x : Char} {pattern subject : List Char}
    (hx : IsPlain x) :
    Matches same (x :: pattern) subject ↔
      ∃ c rest, subject = c :: rest ∧ same x c = true ∧ Matches same pattern rest := by
  constructor
  · intro h
    cases h with
    | anyRun => exact absurd rfl hx.1
    | anyOne => exact absurd rfl hx.2.1
    | escaped => exact absurd rfl hx.2.2
    | lastBackslash => exact absurd rfl hx.2.2
    | plain _ alike rest => exact ⟨_, _, rfl, alike, rest⟩
  · rintro ⟨c, rest, rfl, alike, h⟩
    exact .plain hx alike h

/-! ## The two patterns -/

theorem toLike_plain {x : Char} (hx : IsPlain x) (pattern : List Char) :
    toLike (x :: pattern) = exactly x ++ toLike pattern := by
  rw [toLike]
  · exact hx.1
  · exact hx.2.1
  · exact fun h => absurd h hx.2.2
  · exact fun _ _ h => absurd h hx.2.2

theorem pieces_plain {x : Char} (hx : IsPlain x) (pattern : List Char) :
    pieces (x :: pattern) = .exactly x :: pieces pattern := by
  rw [pieces]
  · exact hx.1
  · exact hx.2.1
  · exact fun h => absurd h hx.2.2
  · exact fun _ _ h => absurd h hx.2.2

/-- A character that is neither a wildcard nor a backslash with or without a character behind it. -/
theorem isPlain_of_cases {x : Char} {pattern : List Char} (hstar : x = '*' → False)
    (hmark : x = '?' → False) (hlast : x = '\\' → pattern = [] → False)
    (hslash : ∀ y rest, x = '\\' → pattern = y :: rest → False) : IsPlain x := by
  refine ⟨hstar, hmark, fun hx => ?_⟩
  cases pattern with
  | nil => exact hlast hx rfl
  | cons y rest => exact hslash y rest hx rfl

/-- The store's pattern matches what the query's pattern matches. The induction is on the query's pattern,
for all subjects. -/
theorem likeMatch_toLike (pattern subject : List Char) :
    Sql.likeMatch same (toLike pattern) subject = true ↔ Matches same pattern subject := by
  induction pattern using toLike.induct generalizing subject with
  | case1 =>
    rw [toLike, matches_nil]
    cases subject <;> simp [Sql.likeMatch]
  | case2 rest ih => simp only [toLike, Sql.likeMatch_anyRun, matches_anyRun, ih]
  | case3 rest ih => simp only [toLike, Sql.likeMatch_anyOne, matches_anyOne, ih]
  | case4 =>
    have hend : Sql.likeMatch same (exactly '\\' ++ []) subject = true ↔ _ :=
      Sql.likeMatch_exactly '\\' [] subject
    rw [List.append_nil] at hend
    rw [toLike, hend, matches_lastBackslash]
    have hnil (rest : List Char) : Sql.likeMatch same [] rest = true ↔ rest = [] := by
      cases rest <;> simp [Sql.likeMatch]
    simp only [hnil]
  | case5 c rest ih => simp only [toLike, Sql.likeMatch_exactly, matches_escaped, ih]
  | case6 c rest hstar hmark hlast hslash ih =>
    have hx := isPlain_of_cases hstar hmark hlast hslash
    simp only [toLike_plain hx, Sql.likeMatch_exactly, matches_plain hx, ih]

/-- It has the same parts. -/
theorem likePieces?_toLike (pattern : List Char) :
    Sql.likePieces? (toLike pattern) = some (pieces pattern) := by
  induction pattern using toLike.induct with
  | case1 => rfl
  | case2 rest ih => rw [toLike, Sql.likePieces?, ih, pieces, Option.map_some]
  | case3 rest ih => rw [toLike, Sql.likePieces?, ih, pieces, Option.map_some]
  | case4 => rfl
  | case5 c rest ih => rw [toLike, Sql.likePieces?_exactly, ih, pieces, Option.map_some]
  | case6 c rest hstar hmark hlast hslash ih =>
    have hx := isPlain_of_cases hstar hmark hlast hslash
    rw [toLike_plain hx, Sql.likePieces?_exactly, ih, pieces_plain hx, Option.map_some]

/-- Characters without wildcards and backslashes match themselves. -/
theorem matches_self {cs : List Char} (hsame : ∀ c, same c c = true) (h : ∀ c ∈ cs, IsPlain c) :
    Matches same cs cs := by
  induction cs with
  | nil => exact .empty
  | cons c rest ih =>
    obtain ⟨hc, hrest⟩ := List.forall_mem_cons.mp h
    exact .plain hc (hsame c) (ih hrest)

/-- What is written for a character alone has a NUL in it only if the character is one. -/
theorem takeWhile_exactly (c : Char) (rest : List Char) :
    (exactly c ++ rest).takeWhile (fun c => c.toNat != 0) =
      if c.toNat != 0 then exactly c ++ rest.takeWhile (fun c => c.toNat != 0) else [] := by
  rw [exactly]
  by_cases hspecial : c = '%' ∨ c = '_' ∨ c = '\\'
  · rw [if_pos hspecial]
    rcases hspecial with rfl | rfl | rfl <;> rfl
  · rw [if_neg hspecial, List.singleton_append, List.takeWhile_cons]
    rfl

/-- The store reads such a pattern up to the NUL up to which it reads its characters. -/
theorem takeWhile_toLike {cs : List Char} (h : ∀ c ∈ cs, IsPlain c) :
    (toLike cs).takeWhile (fun c => c.toNat != 0) = toLike (cs.takeWhile fun c => c.toNat != 0) := by
  induction cs with
  | nil => rfl
  | cons c rest ih =>
    obtain ⟨hc, hrest⟩ := List.forall_mem_cons.mp h
    rw [toLike_plain hc, takeWhile_exactly, List.takeWhile_cons, ih hrest]
    split
    · rw [toLike_plain hc]
    · rfl

/-- A text without wildcards and backslashes is like its own pattern. -/
theorem like_self {s : String} (h : ∀ c ∈ s.toList, IsPlain c) : Sql.like s (likePattern s) = true := by
  rw [Sql.like, Sql.beforeNul, Sql.beforeNul, likePattern, String.toList_ofList, takeWhile_toLike h,
    likeMatch_toLike]
  exact matches_self (fun c => beq_self_eq_true _) fun c hc => h c (List.takeWhile_subset _ hc)

/-- The store's pattern for a query's pattern matches the same subjects, however characters are compared.
Its parts are those of the query's pattern, one for one: it does not end in an escape without a character,
and its wildcards are those that stand for a star or a question mark. -/
theorem like_of_wildcard (same : Char → Char → Bool) (pattern : String) :
    (∀ subject : String, Sql.likeMatch same (likePattern pattern).toList subject.toList = true ↔
      Matches same pattern.toList subject.toList) ∧
      Sql.likePieces? (likePattern pattern).toList = some (pieces pattern.toList) := by
  rw [likePattern, String.toList_ofList]
  exact ⟨fun subject => likeMatch_toLike pattern.toList subject.toList, likePieces?_toLike pattern.toList⟩

end Wildcard

end InventoryFeed
