import Cpplite.Catalog.Runs

/-!
What `drop_table` removes, against what depends on the table: the lists that it follows are
never pruned, so a table that was dropped and created again under another one is still
listed under the first.
-/
namespace Cpplite

open Exec Encoding Schema Sweep

namespace CatalogManager

section

variable {s s' : CatalogState} {rows rows' : Rows} {name m : Str}

variable [Build]

end

/-- Tables `p` and `q`, and `x` under `p`, which is dropped and created again under `q`. -/
def moved : List Op :=
  [.createTable (plainTable [112] [112]), .createTable (plainTable [113] [113]),
    .createTable (plainTable [120] [112]), .dropTable [120], .createTable (plainTable [120] [113])]

end CatalogManager

end Cpplite
