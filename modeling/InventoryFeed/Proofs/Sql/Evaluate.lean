import InventoryFeed.Proofs.Sql.Reading
import InventoryFeed.Proofs.Traversal

/-!
# Which rows a condition answers

Where every document of a row can be looked into, a condition has its truth value in three-valued logic,
however few of its children are looked at and in whichever order its terms are tested. So the rows that
pass are those of which the condition is true.
-/

namespace InventoryFeed

namespace Truth

theorem all_eq_true {values : List Truth} : all values = some true ↔ ∀ v ∈ values, v = some true := by
  induction values with
  | nil => simp [all]
  | cons v rest ih =>
    have hcons : all (v :: rest) = v.both (all rest) := rfl
    rw [hcons, List.forall_mem_cons, ← ih]
    rcases v with _ | _ | _ <;> rcases all rest with _ | _ | _ <;> simp [both]

theorem all_eq_false {values : List Truth} : all values = some false ↔ some false ∈ values := by
  induction values with
  | nil => simp [all]
  | cons v rest ih =>
    have hcons : all (v :: rest) = v.both (all rest) := rfl
    rw [hcons, List.mem_cons, ← ih]
    rcases v with _ | _ | _ <;> rcases all rest with _ | _ | _ <;> simp [both]

theorem any_eq_true {values : List Truth} : any values = some true ↔ some true ∈ values := by
  induction values with
  | nil => simp [any]
  | cons v rest ih =>
    have hcons : any (v :: rest) = v.either (any rest) := rfl
    rw [hcons, List.mem_cons, ← ih]
    rcases v with _ | _ | _ <;> rcases any rest with _ | _ | _ <;> simp [either]

theorem any_eq_false {values : List Truth} :
    any values = some false ↔ ∀ v ∈ values, v = some false := by
  induction values with
  | nil => simp [any]
  | cons v rest ih =>
    have hcons : any (v :: rest) = v.either (any rest) := rfl
    rw [hcons, List.forall_mem_cons, ← ih]
    rcases v with _ | _ | _ <;> rcases any rest with _ | _ | _ <;> simp [either]

theorem neg_eq_some {a : Truth} {wanted : Bool} : a.neg = some wanted ↔ a = some (!wanted) := by
  rcases a with _ | _ | _ <;> cases wanted <;> simp [neg]

end Truth

namespace Sql

namespace Scope

/-- The value at a path of the document in a column, nothing if the document is malformed. -/
def valueAt (s : Scope) (row : List Value) (column : Column) (path : Nat) : Value :=
  match s.extracted row column path with
  | .ok v => v
  | .error _ => .null

/-- The document in a column of a row can be looked into. -/
def Readable (s : Scope) (row : List Value) (column : Column) : Prop :=
  ∀ path, s.extracted row column path = .ok (s.valueAt row column path)

/-- The truth value of a test on a row. -/
def outcome (s : Scope) (row : List Value) (t : Test) : Truth :=
  compareBy t.op (s.valueAt row t.column t.path) (s.param t.operand)

end Scope

namespace Condition

variable {s : Scope} {row : List Value}

mutual

/-- A condition is tested for a truth value by looking at its own. -/
theorem is_eq (c : Condition) (h : ∀ column ∈ c.columns, s.Readable row column) (wanted : Bool) :
    c.is s row wanted = .ok (decide (c.truth (s.outcome row) = some wanted)) := by
  cases c with
  | constant value => cases value <;> cases wanted <;> rfl
  | test column path op operand =>
    rw [is, h column (.head _) path]
    rfl
  | conj children =>
    cases wanted with
    | true =>
      rw [is, if_pos rfl, areAll_eq children h true]
      refine congrArg _ (Bool.eq_iff_iff.mpr ?_)
      simp only [truth, Truth.all_eq_true, List.all_eq_true, decide_eq_true_eq]
    | false =>
      rw [is, if_neg Bool.false_ne_true, isAny_eq children h false]
      simp only [truth, Truth.all_eq_false]
  | disj children =>
    cases wanted with
    | true =>
      rw [is, if_pos rfl, isAny_eq children h true]
      simp only [truth, Truth.any_eq_true]
    | false =>
      rw [is, if_neg Bool.false_ne_true, areAll_eq children h false]
      refine congrArg _ (Bool.eq_iff_iff.mpr ?_)
      simp only [truth, Truth.any_eq_false, List.all_eq_true, decide_eq_true_eq]
  | neg child =>
    rw [is, is_eq child h (!wanted)]
    simp only [truth, Truth.neg_eq_some]

theorem areAll_eq (cs : List Condition) (h : ∀ column ∈ columnsOfAll cs, s.Readable row column)
    (wanted : Bool) :
    areAll s row wanted cs =
      .ok ((truthOfEach (s.outcome row) cs).all fun v => v = some wanted) := by
  match cs with
  | [] => simp [areAll, truthOfEach]
  | child :: rest =>
    obtain ⟨hfirst, hmore⟩ := List.forall_mem_append.mp h
    rw [areAll, is_eq child hfirst wanted]
    change (if _ then _ else _) = _
    split
    · rename_i hchild
      rw [areAll_eq rest hmore wanted]
      simp [truthOfEach, of_decide_eq_true hchild]
    · rename_i hchild
      simp only [decide_eq_true_eq] at hchild
      simp [truthOfEach, hchild, pure, Except.pure]

theorem isAny_eq (cs : List Condition) (h : ∀ column ∈ columnsOfAll cs, s.Readable row column)
    (wanted : Bool) :
    isAny s row wanted cs = .ok (decide (some wanted ∈ truthOfEach (s.outcome row) cs)) := by
  match cs with
  | [] => simp [isAny, truthOfEach]
  | child :: rest =>
    obtain ⟨hfirst, hmore⟩ := List.forall_mem_append.mp h
    rw [isAny, is_eq child hfirst wanted]
    change (if _ then _ else _) = _
    split
    · rename_i hchild
      simp [truthOfEach, of_decide_eq_true hchild, pure, Except.pure]
    · rename_i hchild
      simp only [decide_eq_true_eq] at hchild
      rw [isAny_eq rest hmore wanted]
      simp [truthOfEach, Ne.symm hchild]

end

theorem truthOfEach_eq_map (value : Test → Truth) (cs : List Condition) :
    truthOfEach value cs = cs.map (truth value) := by
  induction cs with
  | nil => rfl
  | cons child rest ih => rw [truthOfEach, ih, List.map_cons]

mutual

/-- A condition is true if all its terms are. -/
theorem truth_terms (value : Test → Truth) (c : Condition) :
    (∀ term ∈ c.terms, term.truth value = some true) ↔ c.truth value = some true := by
  cases c with
  | conj children =>
    rw [terms, truth, Truth.all_eq_true, truth_termsOfAll value children, truthOfEach_eq_map,
      List.forall_mem_map]
  | constant b => simp [terms]
  | test column path op operand => simp [terms]
  | disj children => simp [terms]
  | neg child => simp [terms]

theorem truth_termsOfAll (value : Test → Truth) (cs : List Condition) :
    (∀ term ∈ termsOfAll cs, term.truth value = some true) ↔
      ∀ c ∈ cs, c.truth value = some true := by
  match cs with
  | [] => simp [termsOfAll]
  | child :: rest =>
    rw [termsOfAll, List.forall_mem_append, truth_terms value child, truth_termsOfAll value rest,
      List.forall_mem_cons]

end

mutual

theorem columns_of_terms (c : Condition) {term : Condition} (h : term ∈ c.terms) :
    term.columns ⊆ c.columns := by
  cases c with
  | conj children => exact columns_of_termsOfAll children h
  | constant b => rw [List.mem_singleton.mp h]; exact List.Subset.refl _
  | test column path op operand => rw [List.mem_singleton.mp h]; exact List.Subset.refl _
  | disj children => rw [List.mem_singleton.mp h]; exact List.Subset.refl _
  | neg child => rw [List.mem_singleton.mp h]; exact List.Subset.refl _

theorem columns_of_termsOfAll (cs : List Condition) {term : Condition} (h : term ∈ termsOfAll cs) :
    term.columns ⊆ columnsOfAll cs := by
  match cs with
  | [] => exact absurd h List.not_mem_nil
  | child :: rest =>
    rcases List.mem_append.mp h with h | h
    · exact List.subset_append_of_subset_left _ (columns_of_terms child h)
    · exact List.subset_append_of_subset_right _ (columns_of_termsOfAll rest h)

end

end Condition

end Sql

end InventoryFeed
