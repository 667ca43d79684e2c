import InventoryFeed.Job.Table
import InventoryFeed.Store.Inventory

/-!
# The store

The database: the records and the jobs.
-/

namespace InventoryFeed

/-- A database. -/
structure Store where
  /-- The records. -/
  inventory : Inventory
  /-- The jobs. -/
  jobs : JobTable
  deriving Repr

namespace Store

/-- A new database. -/
def empty : Store := ⟨.empty, .empty⟩

/-- The database as it is when it is opened: tables that are gone are there again, without rows. -/
def restored (s : Store) : Store := ⟨s.inventory.restored, { s.jobs with dropped := false }⟩

end Store

end InventoryFeed
