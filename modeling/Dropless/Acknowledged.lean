import Dropless.Reads
import Dropless.Recovery
import Dropless.Subscribers

namespace Dropless

open Api (answer)

variable {κ : Prims} {cfg : DispatcherConfig} {s : State} {id : Uuid} {d : Delivery} {ev : Event}

end Dropless
