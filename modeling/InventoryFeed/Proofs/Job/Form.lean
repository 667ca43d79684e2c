import InventoryFeed.Job.Basic
import InventoryFeed.Proofs.Query.Form

/-!
# Jobs read back from their text

What a caller states about an iteration and a job are records without arrays or objects in them, so their texts
are read back whatever they hold.
-/

namespace InventoryFeed

open Json Document

attribute [local simp] List.lookup_cons List.lookup_nil Record.defaulted Record.required Record.field?

namespace IterationParams

/-- The document of the parameters of an iteration. -/
def document (p : IterationParams) : Document :=
  .object (("topicName", .text p.topic) ::
    (p.eventType.map fun eventType => ("eventType", .text eventType)).toList)

theorem compact_document (p : IterationParams) : p.compact = p.document.compact := by
  rcases p with ⟨topic, _ | eventType⟩
  · exact congrArg String.ofList (writeRecord_eq [("topicName", .text topic)])
  · exact congrArg String.ofList
      (writeRecord_eq [("topicName", .text topic), ("eventType", .text eventType)])

theorem ofTree?_tree (room : Nat) (p : IterationParams) :
    ofTree? (room + 1) p.document.tree = some p := by
  rcases p with ⟨topic, _ | eventType⟩
  · have hkeys : ([("topicName", text topic)].map Prod.fst).Nodup := by simp
    simp [ofTree?, document, record?_tree _ room hkeys]
  · have hkeys : ([("topicName", text topic), ("eventType", text eventType)].map Prod.fst).Nodup := by
      simp
    simp [ofTree?, document, record?_tree _ room hkeys, nullable?_tree]

theorem read_written (p : IterationParams) : read p.compact = some p := by
  have hroom : maxNesting = 126 + 1 := rfl
  rw [read, compact_document, read_tree, Option.bind_some, hroom, ofTree?_tree]

end IterationParams

namespace Job

/-- The members of a job's document. -/
def documents (j : Job) : List (String × Document) := [
  ("id", .text j.id),
  ("kind", .text j.kind.name),
  ("resourceName", .text j.resource.name),
  ("topicName", .text j.topic),
  ("eventType", .text j.eventType),
  ("jobStatus", .text j.status.name),
  ("submittedDate", .text j.submitted),
  ("published", .int j.published),
  ("cancelRequested", .bool j.cancelRequested)]

theorem compact_documents (j : Job) : j.compact = (object j.documents).compact := by
  have hmembers : j.members = j.documents.map fun member => (member.1, member.2.write) := by
    rw [members, writeBool_eq]
    rfl
  rw [compact, hmembers, writeRecord_eq, Document.compact]

theorem ofTree?_tree (room : Nat) {j : Job} (h : j.published < Word.unsignedEnd) :
    ofTree? (room + 1) (object j.documents).tree = some j := by
  have hkeys : (j.documents.map Prod.fst).Nodup := by simp [documents]
  have hkind : ([JobKind.reindex, .iteration].find? fun choice => choice.name = j.kind.name) =
      some j.kind := by
    cases j.kind <;> rfl
  have hresource : ([Resource.instances, .authorities].find? fun choice =>
      choice.name = j.resource.name) = some j.resource := by
    cases j.resource <;> rfl
  have hstatus : (JobStatus.all.find? fun choice => choice.name = j.status.name) = some j.status := by
    cases j.status <;> rfl
  rw [ofTree?, record?_tree _ room hkeys]
  simp [documents, oneOf?_tree, hkind, hresource, hstatus, count?_tree h]

theorem read_written {j : Job} (h : j.published < Word.unsignedEnd) : read j.compact = some j := by
  have hroom : maxNesting = 126 + 1 := rfl
  rw [read, compact_documents, read_tree, Option.bind_some, hroom, ofTree?_tree 126 h]

end Job

/-- What is written of a predicate, a request, the parameters of an iteration or a job is read back as what it
was, as long as no literal is a double, the text is not nested too deep, and a count has 64 bits. -/
theorem written_read_back :
    (∀ p : Predicate, p.Exact → nesting p.compact ≤ maxNesting → Predicate.read p.compact = some p) ∧
      (∀ r : Request, r.predicate.Exact → nesting r.compact ≤ maxNesting →
        Request.read r.compact = some r) ∧
      (∀ p : IterationParams, IterationParams.read p.compact = some p) ∧
      ∀ j : Job, j.published < Word.unsignedEnd → Job.read j.compact = some j :=
  ⟨fun _ => Predicate.read_written, fun _ => Request.read_written, IterationParams.read_written,
    fun _ => Job.read_written⟩

/-- A predicate that compares with a text, with the integer that it looks like and with a truth value. -/
def alikeLiterals : Predicate :=
  .neg (.conj [.compare ⟨some "author", "rank"⟩ .eq (.text "5"), .compare ⟨none, "rank"⟩ .ge (.int 5),
    .disj [.compare ⟨none, "lost"⟩ .ne (.bool true), .all]])

/-- Each literal is read back as what it was. -/
theorem written_read_back_alike :
    Predicate.read alikeLiterals.compact = some alikeLiterals ∧
      Request.read (Request.ofPredicate alikeLiterals).compact = some (.ofPredicate alikeLiterals) ∧
      Job.read (Job.reindex "job" .authorities "now").compact =
        some (Job.reindex "job" .authorities "now") := by
  have hexact : alikeLiterals.Exact := ⟨nofun, nofun, ⟨nofun, trivial, trivial⟩, trivial⟩
  have hnesting : nesting alikeLiterals.compact ≤ maxNesting ∧
      nesting (Request.ofPredicate alikeLiterals).compact ≤ maxNesting := by
    rw [Predicate.nesting_compact, Request.nesting_compact]
    decide
  obtain ⟨hpredicate, hrequest, -, hjob⟩ := written_read_back
  exact ⟨hpredicate _ hexact hnesting.1, hrequest _ hexact hnesting.2, hjob _ (by decide)⟩

end InventoryFeed
