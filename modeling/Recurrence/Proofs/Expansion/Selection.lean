import Recurrence.Proofs.Expansion.Position

namespace Recurrence.Position

variable {α : Type}

variable [LinearOrder α]

end Recurrence.Position
