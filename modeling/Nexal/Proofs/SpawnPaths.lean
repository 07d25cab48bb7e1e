import Nexal.Sanity.WarmPool

/-! The two ways of `spawn`. A container of the pool was made before the request was known: it has the
labels every container has and the pool's, no variables and no volume. A container made for the request has of it
what the backend puts on it. -/

namespace Nexal.Containers

variable {b : Backend} {cfg : Config} {s : State} {r : SpawnRequest} {c : Container}

end Nexal.Containers
